import Schemata.Text.Utf8

/-!
White space: the characters with the Unicode property of that name.
-/

namespace Schemata.Text

def isBlank (c : Char) : Bool :=
  let n := c.toNat
  (9 ≤ n && n ≤ 13) || n == 0x20 || n == 0x85 || n == 0xA0 || n == 0x1680 ||
    (0x2000 ≤ n && n ≤ 0x200A) || n == 0x2028 || n == 0x2029 || n == 0x202F || n == 0x205F ||
    n == 0x3000

def trim (cs : List Char) : List Char :=
  ((cs.dropWhile isBlank).reverse.dropWhile isBlank).reverse

def isBlankBytes (bytes : List UInt8) : Bool :=
  (Utf8.decode bytes).all fun
    | some c => isBlank c
    | none => false

end Schemata.Text
