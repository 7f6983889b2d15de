import Schemata.Text.Category

/-!
Letter case of single characters: which characters are upper or lower case, and the one-to-one
case maps. A character whose case form is longer than one character maps to itself.
-/

namespace Schemata.Text

/-- The code points `lo, lo + step, …, hi`. -/
def inStride (n : Nat) (r : Nat × Nat × Nat) : Bool :=
  r.1 ≤ n && n ≤ r.2.1 && (n - r.1) % r.2.2 == 0

/-- Ascending strides with the distance that their code points are moved by, one after the other
as in `spansFrom`. Letters next to their other forms are two apart. -/
def shiftsFrom (last : Nat) : List Int → List (Nat × Nat × Nat × Int)
  | gap :: size :: shift :: rest =>
    let first := last + gap.toNat
    let step := if shift.natAbs = 1 then 2 else 1
    (first, first + size.toNat, step, shift) :: shiftsFrom (first + size.toNat) rest
  | _ => []

/-- Upper-case letters beyond ASCII, as `(lo, hi, step)`. -/
def upperStrides : List (Nat × Nat × Nat) := spansFrom 0 (numbers
  ["HkwbcgbBiCccdocdBucbecebbcabcbbccbddbcbbccbebbcbbcecbabcabdabcbbccbcabcbbeabiabdabdabdocdqcdab",
   "dabccbcCecibbcbbdabcdbcgcLeabcabeabjabhabccbcabcbbcqbcibBkabdcbewcgabdabcbbdBybBxBgckCccbmcdDq",
   "cdBlbEHeBlbcabgabBBvDhbDGtBqbdcbMjFsckDsckhbjfblhbjhbjfbmgcjhbCvdbndbndbnebmdbKdabfabecbdcbdab",
   "eebhgcbcbddblbbgabCkabDZhBvbBxabccbdgcbcbcabdabjcbcDscjabcabfabBTYkBscuBacFgmceCiclecbicfabcab",
   "dabcabeucbdbcebcocbcbcabhabgabcabBdabBHAizbBVaBnbFhBjbGbkbcobcgbcbbCQdBybENmBfbBGJxBfbBMMrzbBb",
   "zbBbzbBbabcbbdabdbbddbchbBbzbBbbbcdbdhbcgbBcbbcdbcebcabegbBczbBbzbBbzbBbzbBbzbBbzbBfybBiybBiyb",
   "BiybBiybBiabGNmBhb"])

/-- Lower-case letters beyond ASCII, as `(lo, hi, step)`. -/
def lowerStrides : List (Nat × Nat × Nat) := spansFrom 0 (numbers
  ["GzabBqxbchbcCccbqcbBucdecbbbdabcabdabebbfabdabecbdabdecdabcbbcabdabeabcabdbbdcbhabdabdqcbscbab",
   "dabcabeCgcbfbdabdbbcabficbCpbcBabHmabcabeabecbtabBcBibcbbecbcwcbdbcabdabdbbCaBvbcBgckCacdmcbDs",
   "cBxBobEHcBqbdcbBDhfbDFvibEqBrbCmmbcBhbDzFscbhbcDscbhbjfblhbjhbjfblhbjhbjnbdhbjhbjhbjebcbbhabec",
   "bcbbjdbdbbjhblcbcbbKpabebbeabBcabfabfabdbbjdbfabCcabEBcBvbcabebbcecfabcbbcfbgDucbabiabcabfabn",
   "BlbcabgabBTWeBscuBacFgmcbbbcCkcbgbcabcabdicfabcabdabccbcscgabgocfabcabhicBdabeabBFqBqbgibiDbb",
   "BEAjgbnebBPazbBViBnbFhBjbGakbcobcgbcbbCRcBybEMgBfbBGJxBfbBMMlzbBbgbcrbBbzbBbdbcabcgbckbBbzbBbz",
   "bBbzbBbzbBbzbBbzbBbzbBbzbBbBbbBdybcfbBbybcfbBbybcfbBbybcfbBbybcfbcabCSzjbctbhfbDUeBhb"])

/-- Upper-case forms beyond ASCII: `(lo, hi, step, shift)` moves each code point by `shift`. -/
def upperShifts : List (Nat × Nat × Nat × Int) := shiftsFrom 0 [
  181,0,743,43,22,-32,2,6,-32,1,0,121,2,46,-1,2,0,-232,2,4,-1,3,14,-1,3,44,-1,3,4,-1,1,0,-300,1,0,
  195,3,2,-1,3,0,-1,4,0,-1,6,0,-1,3,0,97,4,0,-1,1,0,163,4,0,130,3,4,-1,3,0,-1,5,0,-1,3,0,-1,4,2,-1,
  3,0,-1,4,0,-1,2,0,56,6,0,-1,1,0,-2,2,0,-1,1,0,-2,2,0,-1,1,0,-2,2,14,-1,1,0,-79,2,16,-1,3,0,-1,1,0,
  -2,2,0,-1,4,38,-1,4,16,-1,9,0,-1,3,1,10815,2,0,-1,5,8,-1,1,0,10783,1,0,10780,1,0,10782,1,0,-210,1,
  0,-206,2,1,-205,2,0,-202,2,0,-203,1,0,42319,4,0,-205,1,0,42315,2,0,-207,2,0,42280,1,0,42308,2,0,
  -209,1,0,-211,1,0,42308,1,0,10743,1,0,42305,3,0,-211,2,0,10749,1,0,-213,3,0,-214,8,0,10727,3,0,
  -218,2,0,42307,1,0,-218,4,0,42282,1,0,-218,1,0,-69,1,1,-217,1,0,-71,6,0,-219,11,0,42261,1,0,42258,
  167,0,84,44,2,-1,4,0,-1,4,2,130,47,0,-38,1,2,-37,2,16,-32,1,0,-31,1,8,-32,1,0,-64,1,1,-63,2,0,-62,
  1,0,-57,4,0,-47,1,0,-54,1,0,-8,2,22,-1,1,0,-86,1,0,-80,1,0,7,1,0,-116,2,0,-96,3,0,-1,3,0,-1,53,31,
  -32,1,15,-80,2,32,-1,10,52,-1,3,12,-1,1,0,-15,2,94,-1,50,37,-48,2890,42,3008,3,2,3008,761,5,-8,
  2179,0,-6254,1,0,-6253,1,0,-6244,1,1,-6242,1,0,-6243,1,0,-6236,1,0,-6181,1,0,35266,241,0,35332,4,
  0,3814,17,0,35384,115,148,-1,6,0,-59,6,94,-1,1,7,8,9,5,8,11,7,8,9,7,8,9,5,8,12,0,8,2,0,8,2,0,8,2,
  0,8,9,7,8,9,1,74,1,3,86,1,1,100,1,1,128,1,1,112,1,1,126,3,7,8,9,7,8,9,7,8,9,1,8,2,0,9,11,0,-7205,
  5,0,9,13,1,8,15,1,8,4,0,7,14,0,9,347,0,-28,34,15,-16,5,0,-1,844,25,-26,1863,47,-48,2,0,-1,4,0,
  -10795,1,0,-10792,2,4,-1,7,0,-1,3,0,-1,11,98,-1,9,2,-1,5,0,-1,13,37,-7264,2,0,-7264,6,0,-7264,
  30996,44,-1,20,26,-1,136,12,-1,4,60,-1,11,2,-1,3,8,-1,5,0,-1,5,2,-1,1,0,48,3,18,-1,12,14,-1,5,2,
  -1,7,0,-1,6,2,-1,29,0,-1,861,0,-928,29,79,-38864,21378,25,-32,1230,39,-40,137,35,-40,156,10,-39,2,
  14,-39,2,6,-39,2,1,-39,1796,50,-64,3022,31,-32,21889,31,-32,31395,33,-34]

/-- Lower-case forms beyond ASCII. They undo the upper-case ones, but for letters that more than one
letter has as its upper-case form and letters that are the upper-case form of none. -/
def lowerShifts : List (Nat × Nat × Nat × Int) :=
  shiftsFrom 0 [
    304,0,-199,148,0,2,1,0,1,2,0,2,1,0,1,2,0,2,1,0,1,38,0,2,1,0,1,415,16,32,2,8,32,73,0,-60,6826,0,
    -7615,648,0,-7517,4,0,-8383,1,0,-8262,34079,0,1] ++
  upperShifts.map fun (lo, hi, step, shift) =>
    ((lo + shift).toNat, (hi + shift).toNat, step, -shift)

/-- The character a table of shifts sends `c` to. -/
def shifted (table : List (Nat × Nat × Nat × Int)) (c : Char) : Char :=
  match table.find? fun r => inStride c.toNat (r.1, r.2.1, r.2.2.1) with
  | some r => Char.ofNat ((c.toNat : Int) + r.2.2.2).toNat
  | none => c

def isUpper (c : Char) : Bool :=
  if c.toNat < 0x80 then c.isUpper else upperStrides.any (inStride c.toNat)

def isLower (c : Char) : Bool :=
  if c.toNat < 0x80 then c.isLower else lowerStrides.any (inStride c.toNat)

def toUpper (c : Char) : Char :=
  if c.toNat < 0x80 then c.toUpper else shifted upperShifts c

def toLower (c : Char) : Char :=
  if c.toNat < 0x80 then c.toLower else shifted lowerShifts c

def upper (s : String) : String := s.map toUpper

def lower (s : String) : String := s.map toLower

end Schemata.Text
