/-!
Classes of characters: letters, decimal digits, and the characters that can be shown as they
are. Each table lists the ranges beyond ASCII, as the distances between their ends.
-/

namespace Schemata.Text

def inRange (n : Nat) (r : Nat × Nat) : Bool :=
  r.1 ≤ n && n ≤ r.2

/-- Numbers of long tables are written in base 26, one after the other: the last digit of each is a
small letter, the digits before it are capitals. `high` is what has been read of the first. -/
def numbersFrom (high : Nat) : List Char → List Nat
  | [] => []
  | c :: cs =>
    if c.isUpper then numbersFrom ((high + (c.toNat - 65)) * 26) cs
    else (high + (c.toNat - 97)) :: numbersFrom 0 cs

def numbers (lines : List String) : List Nat := lines.flatMap fun line => numbersFrom 0 line.toList

/-- Ascending ranges, given one after the other by how far each begins behind the end of the one
before and how far it reaches. -/
def rangesFrom (last : Nat) : List Nat → List (Nat × Nat)
  | gap :: size :: rest => (last + gap, last + gap + size) :: rangesFrom (last + gap + size) rest
  | _ => []

/-- Ascending ranges likewise, with a number for each. -/
def spansFrom (last : Nat) : List Nat → List (Nat × Nat × Nat)
  | gap :: size :: number :: rest =>
    (last + gap, last + gap + size, number) :: spansFrom (last + gap + size) rest
  | _ => []

def letterRanges : List (Nat × Nat) := rangesFrom 0 (numbers
  ["GoalafagwcBecRpflpeiacaFaecbddcahacccactcDecFijGjcBldahBoCuBafdBuBqBkbcDucaqbiblcdaracBdBeDkma",
   "zBgkbfagvfakaeayyikgxcfsBpChCbeataijqpfhdbdvcgcaedearaobccpblajffbdvcgcbcbcbBgdcaucricccvcgcbc",
   "eeataqbyamhdbdvcgcbceeaBfbccqasacfeccdebcacbebecelxaCbhcccwcpeaBbcdadbBfafhcccwcjceeaBgbcbqbsi",
   "cccBodaragcjczfgrexcicadgChBvcbngChbcacecxcacjcbkadecawdBhaCmhcBjBceEmBqvarffdeaebicfmnasBlcag",
   "adBqcMucddgcacddBocddBgcddgcacddocCecddCoBmprDhdfeXvdqczgCwhhirosprpmccqBzBkafaCqDkiedBhcagCrl",
   "BeByBddemBrfzCdwkCaDfaDqBushCdBdoblBrBbBjBqclBjdiiBqdcBqdcfcbeagHjCnKrdfdBldfdhcacacacBedCacgc",
   "aeccgeddffmgccgEnaoarmDyafadjcaeehacacacdckddgefaCbbDZgIuhdebnBlcagadCdiarwkgcgcgcgcgcgcgcgDda",
   "ScbBregbfDhhccDlcdgBqcDpsBfBxpTtJTnCnBGUeCqBtdKieplbvBurBedCrByidDydClgbcacezpcccdcwBeBzpBxClf",
   "eacbmBblwBaBciBuBdarecjlecBoycchvweaeBxcaebdedacazcdkicnfdfdfkgcgcBqcnhEkBeQNrnwfBwMNdObdEbBng",
   "negacjcmcecacbcbcEdBiNytCldCbBplEnecFeBlzhzmDkefdfdfdcBklczcscbcodnBjEsPaBceBwBwBfotchhBllBdd",
   "BjfhBxGbtBjfBjfBnjBznkcocgcbckcocgcbCqLykvlhzfcBpciCsfdacBrcbeadwlwkBeCoscblvlzCtCdhbCnaqdccc",
   "BcBrBceBcBkhcBbBcCblvlsorEhCuCeByoByoBjNlBphbDbBclajvBrrBvuBcwnCaCgbdaoBsBhyBbBjBeadajBieanBvp",
   "dwacaBkrcyvaCmgcacdcocjiBuBnhdbdvcgcbceeataneGdCatdvcBfBvvbcaHdBuBqdBlBvvaCiBqoaCuBaBmgHeBrEn",
   "ClBghdadhcbcxqacaDrhdBmracaBdalBniawamBtuatCuKeicBksaByBdEjgcbcBlwaBafcbcBfpaMqsqacmcBhEvaDc",
   "BJlIxHnDXlDsqBPetfFYwWkMUcVwiBesDasBdtBvrdBgugsBAnClEzCwgaCpmCnbcaBdJBzjBVpBriNFsdcgcbcLeBucsd",
   "jPfDKvEcgmeiijIWlDgcCscbdadbddclcacgcCmcddhcgcBbcdcecaegcNbdycycBecycBecycBecycBecychCSzBehfKc",
   "CjFrBslgraMkBdtBrSrBbBDdgcdcbcocHoCiCpiaBUjdcBacbcadacjcdcacahafacacacccbcadacacacacacbcaddcgc",
   "dcdcacjcqgccecqGObCLFbBhGDsiIndINppLBkEPkUvCFzHHygGFf"])

def digitRanges : List (Nat × Nat) := rangesFrom 0 (numbers
  ["CKujFfjHrjPxjEpjEpjEpjEpjEpjEpjEpjEpjEpjDtjEpjCtjKtjCtjCTrjBnjLpjEzjGljhjHbjDjjFfjhjCAEpjBAdj",
   "BnjHrjxjDjjPrjBFMdjCCljDFzjBFhjEzjCjjFpjKtjNfjEpjOljDzjDzjQhjDzjBDfjJnjCtjQhjBCKtjDjjFfjBPBxBx",
   "DNdjQhjTjjBQtjHBbj"])

/-- Letters, marks, numbers, punctuation and symbols beyond ASCII. -/
def printableRanges : List (Nat × Nat) := rangesFrom 0 (numbers
  ["GflcBBldffgcactcPgcBldBxdccCcjBaffsvcHjcBvdCgdDwpCgdBwdocBbdackgBekCvcGechdbdvcgcaeddidbddjafb",
   "cedydccffbdvcgcbcbcbdacefbdceaidcaiqlccicccvcgcbcedjccccdaqddligccchdbdvcgcbcedidbdcicfbcedrlb",
   "cfeccdebcacbebecelfeeccddahapugmcccwcpdicccdibccdadddjivcccwcjcedicccdibhbcddjccnmcccBycccffpd",
   "zcccrexcicadgeaffcachhjdcnCffBcBmbcacecxcacwdecacgcjddBhCtcBjfBmcBjcocmBmHpcagadOmcddgcacddBoc",
   "ddBgcddgcacddocCecddCodBfezhDhdfdYpcBbeDkivkxktnmcccbnDpdjhjhnckhDkiBqgCrlBeclflfaeBpdemBrfzhk",
   "eCjdCmcBcdkhjhndBeByCyeBucEljCheoeChiBqdkjBqgUndfdBldfdhcacacacBedCacocndfcsdccisxjBusbdBacme",
   "BgqBgqFjfZmBakwCRrdBfcNkgBscagadCdibpxkgcgcgcgcgcgcgcgcEvBjzcDknIfBblgCkcDhdDygBqcDpcDfnBuc",
   "BRIqeCckNjvHbjHugbcacezCgejhCdjCrjlhElmBdeCzckfBgcCckndjdDyzBblfdfdfkgcgcChfEvdjhQNrnwfBwMNdOb",
   "dEbBngnegzcecacbcbcEurRcdCbiaBhBphBycscdfecFefHhefdfdfdcegcgobdlczcscbcodnBjEsgcfBseDjcmeaBwBt",
   "FbBceBwqBbfBjkBdgBqgBdcBkfnBrGbdjhBjfBjfBnjBzmlcocgcbckcocgcbCqLykvlhzfcBpciCsfdacBrcbeadwcCtj",
   "iBxscbgBgeBagaCnCdftdBxcbghcccBcdcfjiiiClBhBmflkCbeBcdBagzidngDdCuCeByoByiBtjjLjBecBpccdbCyBqj",
   "BpxzBnBbvwkCzfBjkCjceoyijhCacrjBmkDrctmrcBrcbClgcacdcockhCggjhdchdbdvcgcbcecjdbdcdahaggdgeeFk",
   "DnceBfCtjjGlCbdBlBjCqmjhmuCfhjCdBadofwHeChDxDenhdadhcbcBdcbdlkjCthdBtdkBcCtjDeoCuijJnicBscnlBc",
   "eBfdvcnCwgcbcBreacbcijjhfcbcBkcbcfijLzyiqcBoeBbDjaqBxoBJmDzEgcemHnDXlDuoBPesvFYhWkMUcVwiBecjf",
   "DccjhBddflCrljcgcugsBAnDmDyCwfCeiqCnembpJBzjBVpBriNFsdcgcbcLeBucsdjPfDKvEcgmeiijddGYzBtdwkElCj",
   "JllBmdCvjEhwCrEttntnDikyFgDgcCscbdadbddclcacgcCmcddhcgcBbcdcecaegcNbdLfdBAzqecoBQnBehfIggcqdgc",
   "bcegCjBiaEjBsendjfbMjBesCfgaRxBpBCpgcdcbcocHodpBqCxfjfbBEgCpCzCiHndcBacbcadacjcdcacahafacacacc",
   "cbcadacacacacacbcaddcgcdcdcacjcqgccecqCbbKlBrfDvnodococBklGrCfBcoBrfiibpfFzBLvfqemeEofDqhlfaql",
   "fCdjjhBnjBddbDbNbnndmeiiBtcgjnfiiiiFqcCcBmjBNrCLFbBhGDsiIndINppLBkEPkUvCFzHHygGFfBONHhJf"])

def isLetter (c : Char) : Bool :=
  if c.toNat < 0x80 then c.isAlpha else letterRanges.any (inRange c.toNat)

def isDigit (c : Char) : Bool :=
  if c.toNat < 0x80 then c.isDigit else digitRanges.any (inRange c.toNat)

/-- Whether a character shows as itself; of the blanks only the ASCII space does. -/
def isPrintable (c : Char) : Bool :=
  if c.toNat < 0x80 then 0x20 ≤ c.toNat && c.toNat < 0x7f else printableRanges.any (inRange c.toNat)

end Schemata.Text
