import Schemata.Text.Category

/-!
The characters identifiers are made of in notations that follow Unicode's default identifiers.
The tables list the ranges beyond ASCII.
-/

namespace Schemata.Text

/-- Characters that may begin an identifier. -/
def identifierStarts : List (Nat × Nat) := rangesFrom 0 (numbers
  ["GoalafagwcBecRpflpeiacaFaecbddcahacccactcDecFijGjcBldaiBmCvBagcBuBqBkbcDucaqbiblcdaracBdBeDkma",
   "zBgkbfagvfakaeayyCuuchCtCbeataijqpfhdbdvcgcaedearaobccpbuffbdvcgcbcbcbBgdcaucricccvcgcbceeataq",
   "byamhdbdvcgcbceeaBfbccqasacfeccdebcacbebecelxaCbhcccwcpeaBbcgbBfafhcccwcjceeaBhacbqbthcccBodar",
   "agcjczfgrexcicadgChBvcbngChbcadbcadahdcgcccacadbcdcbkadecawdBhaCmhcBjBceEmBqvarffdeaebicfmnas",
   "BlcagadBqcMucddgcacddBocddBgcddgcacddocCecddCoBmprDhdfeXvdqczgCwekimcdprprpmccqBzBkafaCqDjjBoc",
   "agCrlBeByBddemBrfzCdwkCaDfaDqBusgCeBdoblBrBbBjBqclBjdiDtdcfcbkHjCnKrdfdBldfdhcacacacBedCacgcae",
   "ccgeddffmgccgEnaoarmDyafadjcadfhacacacpddgefasBoDZcBucBucFchdebnBlcagadCdiarwkgcgcgcgcgcgcgcg",
   "VfcBaiiedefDhfecDlcdgBoeDpsBaCcpTtJTdCxBEZtBrBSuCqBtdKieplbvBurBedDbBoidDydBjchCmkcccdcwBeBzp",
   "BxClfeacanBblwBaBciBuBdarecjlecBoycchvweaeBxcaebdedacazcdkicnfdfdfkgcgcBqcjlEkBeQNrnwfBwMNdObd",
   "EbBngnegacjcmcecacbcbcEdBiNytCldCbBplEnecFeBlzhzmDkefdfdfdcBklczcscbcodnBjEsCsCaKiBceBwBwBfrBa",
   "gBllBddBjfhceBrGbtBjfBjfBnjBzGbLykvlhFxfdacBrcbeadwlwkBeCoscblvlzCtCdhbCnaqdcccBaBtBceBcBkhcBb",
   "BcCblvlsorEhCuCeByoByBEfCaCyBsBhyBbBjBqBieanBvpdwacaBkrcyDhgcacdcocjiBuBnhdbdvcgcbceeataneGdCa",
   "tdCcBvvbcaHdBuBqdBlBvvaCiBqDizPbClBgaRhCeKeicBksaByBdBHxBJlDzEgsHnEBtBPeFZuWkMUcVwiBeEkBdtBvrd",
   "BgugsBHxCqmaCpmCnaBgJBouBDaOAwbEOdEcgmeiijIWlDgcCscbdadbddclcacgcCmcddhcgcBbcdcecaegcNbdycycBe",
   "cycBecycBecycBecychGDpHoCiCpBUrdcBacbcadacjcdcacahafacacacccbcadacacacacacbcaddcgcdcdcacjcqgcc",
   "ecqGObCLEsBqGDomIndINpPRjUv"])

/-- Characters that may stand in an identifier but not begin it. -/
def identifierTails : List (Nat × Nat) := rangesFrom 0 (numbers
  ["HbaWnEhyaJseKgBscacbcbcaCvkBxBehaDygdfdbcddjyaBfBaDokqjBiiBjdciccceBscErncBgCdccrcglbdjscCfacg",
   "dbdckalbdjscCfacefbdceavleamcCfachccccvbdjscCfacgdbdcjblbdjtaCieeccdkapjrdChgcccdibmbdjscCfacg",
   "cccdibmbdjscChgcccdkalbdjtbCtaffcachhjdbCkadgnhcjDkadfcbmfdjClbhjmacacafbBytcbgkcBjkaDxtcjndfc",
   "ccdgedolcoBBcckiBJtcBecBebBfbCnBfkadjBicdjFoaEplflljEzkCjeCgjcBcdkhjxnCpeBwqmjsincBfmdjBtnBxtj",
   "jhjEpccufahaebHrCbgeWebuaEumfaelEOdcFmaDtBfVjfEcbBSNejCsafjBhbDdbKnaeafayeDlbBzrljhrpjBdhBamBt",
   "dBwnqjmaljBwnnajbdjBicBzaccdbgbcaBqegbJdhcbdjBDZhaBCkprpebzcHljBmaBBaaItaFueLijCAqccbgdBpcfaGk",
   "bBYgcCcoBgjqdBukCcjhcBlncjCaancBxnjdejDflhaGflgjhdCfacgdbdckalbdgeeHlrkjDjtnjIggdiBcbDfqqjDemj",
   "jDgofjQhjBGghchrjCfvcnBDKsjFfeCigBajBNcBtrdBDEpbHWpeefjhdgBfdFtcCCoBxTtCcfBxjapaxecoCAjgcqdgcb",
   "ceDHegEgggjBTCIhJf"])

def isIdentifierStart (c : Char) : Bool :=
  if c.toNat < 0x80 then c.isAlpha else identifierStarts.any (inRange c.toNat)

def isIdentifierPart (c : Char) : Bool :=
  if c.toNat < 0x80 then c.isAlphanum || c == '_'
  else identifierStarts.any (inRange c.toNat) || identifierTails.any (inRange c.toNat)

end Schemata.Text
