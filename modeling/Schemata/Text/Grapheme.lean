import Schemata.Text.Category

/-!
Texts cut into the characters a reader sees, by Unicode's rules for extended grapheme clusters.
Columns count these.
-/

namespace Schemata.Text

def controlRanges : List (Nat × Nat) := rangesFrom 0 (numbers
  ["ajcbcrDsBgoaCBnaGUsaDAradbzgBypDGHkaJhlTUbpBZQvdHWyhBTKZmBfDtExJhFIl"])

def extendRanges : List (Nat × Nat) := rangesFrom 0 (numbers
  ["BDoEhKqgKeBscacbcbcaCvkBxuraDygdfdbcdBkaBfBaDokChikazdciccceBscCjhBrxcBfCeacafhfaeglbBeaChacad",
   "djakalbBbadbCgafbfbdceaBfbeambCgafecbfavbxfcaChacbcdjaiclbBfaCiacanakaBpaeaCeaccgccdibmbBeaCha",
   "dadaeagbibmbBdbCgbcaddjakalbBeaCvafadccajaDeadgnhDvadimgCwbBcacacaCencecbgkcBjkaDzdcfcbdbBabfc",
   "rdoadbhaqaBBccBKlcBebBfbBfbCnbcgjadkkaBuccaEobBjaEpcfbkahcImbdaChacgcacadhhjdaBxBeBydBxgcagaBp",
   "inbBhddbccCfacbeaccChhdbFxccmcgfahaebHrClUfaHoBgEOdcFmaDtBfVjfEcbBSQfdcjBhbDdbKnaeafaBabgaFwb",
   "BbroaBnhBakBvcBxadddbBoaCqfdbdbnajaBwaCaaccdbgbcaBrbjaJfadafaBDZtaBCkprpOdbXiaItaFueCMhccbgdBp",
   "cfaGkbWcdOybDdcCtkBydEuaCdoBqadblcByddbiaCkcBlechClanbCbilddaDscdacbhadaGcaehwbCgbcacaxapgeeHo",
   "hdccayaDeadfcadacbcbJcaddhbcbBcbDihdacbEdacadfcaDycddceKaicbJmalbcafaFpddbfaBhjBpfddjakfdcBvmc",
   "bPrgcfcaDfvdgcbcbEtfeacbcgcaCvbeacaNkbmbCbegacaHYsahoURreCigBOjaCmdDeaBDBlbGZaBtdwUxaccfejhdg",
   "BfdFtcCYeCcfBxjapaxecoCAjgcqdgcbceDxaGfgOmaCkdTpdBMfgEggEBheBSXYvDrEzJf"])

def spacingMarkRanges : List (Nat × Nat) := rangesFrom 0 (numbers
  ["DKtaCeadcjdcbBzbCibhbdbCdaChcCpaChcjacbCcbCjahbdbElacbecccCbcCkdCkbChacbcbdbcbBoapbCibgcccCcb",
   "CzbhgubCmaEyaFjbCmaGwakbBabBtaCMraBfaFaaihcbNjddcfbcfIrbChacawfFqaCdacecbCkaBfafbdaCjadccaebBx",
   "hjbGqawaCASibdaDlbBzpFnbBwaBxbfbdcEhbdbzaGcadbgaJebcbcbcaBLXkacaEyaBucfbEmazbCiaBxckboaDqcebca",
   "GpcBgbCiacddbdcvbIccjbeaEebhacbcadaJfbhddaEkcjbcaEgacbhaEiaKcckaJpecbfadacaFncjdfaDhaBebClaPsa",
   "paEdaiadaIgefbcaNnbnaBxbjbcaBEIiCcEbbBKXpaha"])

def prependRanges : List (Nat × Nat) := rangesFrom 0 (numbers
  ["CHcfIiaByaOvbDdaBRoaDUGlaqaJlbCVsacaJpaCwfBAzaRca"])

def pictographRanges : List (Nat × Nat) := rangesFrom 0 (numbers
  ["GnafaLYsanaIjaxaDnfqbOebnaDsaCtaBakfcHsaIyblakaChdcfclcEjlEndkcacahaeahalbqadafacafccameBuckap",
   "apaOjbRwcubCaafaBVvanaXeacaGMRnJvocBgaCjfnbpadjtCeBcolavadicdkQrgMfjKfBxExEnlDiBqndCfhlfBphBf",
   "DdnBucjcQyJxBNh"])

inductive Joining where
  | carriageReturn
  | lineFeed
  | control
  | extend
  | joiner
  | spacingMark
  | prepend
  | regional
  | leading
  | vowel
  | trailing
  | syllable
  | closedSyllable
  | pictograph
  | other
deriving DecidableEq, Repr

def joiningOf (n : Nat) : Joining :=
  if n = 13 then .carriageReturn
  else if n = 10 then .lineFeed
  else if 0x20 ≤ n ∧ n < 0x7F then .other
  else if n = 0x200D then .joiner
  else if controlRanges.any (inRange n) then .control
  else if extendRanges.any (inRange n) then .extend
  else if spacingMarkRanges.any (inRange n) then .spacingMark
  else if prependRanges.any (inRange n) then .prepend
  else if 0x1F1E6 ≤ n ∧ n ≤ 0x1F1FF then .regional
  else if (0x1100 ≤ n ∧ n ≤ 0x115F) ∨ (0xA960 ≤ n ∧ n ≤ 0xA97C) then .leading
  else if (0x1160 ≤ n ∧ n ≤ 0x11A7) ∨ (0xD7B0 ≤ n ∧ n ≤ 0xD7C6) then .vowel
  else if (0x11A8 ≤ n ∧ n ≤ 0x11FF) ∨ (0xD7CB ≤ n ∧ n ≤ 0xD7FB) then .trailing
  else if 0xAC00 ≤ n ∧ n ≤ 0xD7A3 then
    if (n - 0xAC00) % 28 = 0 then .syllable else .closedSyllable
  else if pictographRanges.any (inRange n) then .pictograph
  else .other

/-- What a cluster looks like from its end. -/
structure ClusterEnd where
  last : Joining
  /-- The regional indicators at its end come in pairs. -/
  paired : Bool := true
  /-- It ends in a pictograph and marks that extend it. -/
  pictograph : Bool := false

def ClusterEnd.start (j : Joining) : ClusterEnd :=
  { last := j, paired := j ≠ .regional, pictograph := j = .pictograph }

def ClusterEnd.joins (e : ClusterEnd) (j : Joining) : Bool :=
  match e.last, j with
  | .carriageReturn, .lineFeed => true
  | .carriageReturn, _ | .lineFeed, _ | .control, _ => false
  | _, .carriageReturn | _, .lineFeed | _, .control => false
  | .leading, .leading | .leading, .vowel | .leading, .syllable | .leading, .closedSyllable =>
    true
  | .syllable, .vowel | .vowel, .vowel | .syllable, .trailing | .vowel, .trailing => true
  | .closedSyllable, .trailing | .trailing, .trailing => true
  | _, .extend | _, .joiner | _, .spacingMark => true
  | .prepend, _ => true
  | .joiner, .pictograph => e.pictograph
  | .regional, .regional => !e.paired
  | _, _ => false

def ClusterEnd.push (e : ClusterEnd) (j : Joining) : ClusterEnd where
  last := j
  paired := if j = .regional then !e.paired else true
  pictograph :=
    j = .pictograph || (e.pictograph && e.last ≠ .joiner && (j = .extend || j = .joiner))

def splitCluster (e : ClusterEnd) : List Char → List Char × List Char
  | [] => ([], [])
  | c :: cs =>
    let j := joiningOf c.toNat
    if e.joins j then
      let (more, rest) := splitCluster (e.push j) cs
      (c :: more, rest)
    else ([], c :: cs)

theorem splitCluster_length (e : ClusterEnd) (cs : List Char) :
    (splitCluster e cs).2.length ≤ cs.length := by
  induction cs generalizing e with
  | nil => simp [splitCluster]
  | cons c cs ih =>
    simp only [splitCluster]
    split
    · exact Nat.le_trans (ih _) (Nat.le_succ _)
    · exact Nat.le_refl _

def clusters (cs : List Char) : List (List Char) :=
  match cs with
  | [] => []
  | c :: cs =>
    let parts := splitCluster (.start (joiningOf c.toNat)) cs
    (c :: parts.1) :: clusters parts.2
termination_by cs.length
decreasing_by
  exact Nat.lt_succ_of_le (splitCluster_length _ cs)

def columns (cs : List Char) : Nat := (clusters cs).length

end Schemata.Text
