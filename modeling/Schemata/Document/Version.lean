/-!
Document versions: up to three numbers, a prerelease part and a build part. A document is read
when its version is at least 1.0.0, below 2.0.0 and no prerelease.
-/

namespace Schemata.Document

structure Version where
  major : Nat
  minor : Nat := 0
  patch : Nat := 0
  /-- The dotted identifiers after a dash, empty when there are none. -/
  prerelease : String := ""
  /-- The dotted identifiers after a plus sign, empty when there are none. -/
  build : String := ""
deriving DecidableEq, Repr

inductive VersionFault where
  | malformed
  /-- A number needs more than 64 bits. -/
  | tooLarge (digits : String)
deriving DecidableEq, Repr

namespace Version

/-- All three numbers, then the prerelease and the build part. -/
def text (v : Version) : String :=
  let numbers := s!"{v.major}.{v.minor}.{v.patch}"
  let pre := if v.prerelease.isEmpty then "" else "-" ++ v.prerelease
  let build := if v.build.isEmpty then "" else "+" ++ v.build
  numbers ++ pre ++ build

def isDigit (c : Char) : Bool := '0' ≤ c && c ≤ '9'

def isIdentChar (c : Char) : Bool :=
  isDigit c || ('a' ≤ c && c ≤ 'z') || ('A' ≤ c && c ≤ 'Z') || c == '-'

def digitsValue (digits : List Char) : Nat :=
  digits.foldl (fun n c => n * 10 + (c.toNat - '0'.toNat)) 0

/-- The digits of a number written after a dot, and what follows; no digits and the whole text
when there is no such number. -/
def dotted (cs : List Char) : List Char × List Char :=
  match cs with
  | '.' :: rest =>
    let digits := rest.takeWhile isDigit
    if digits.isEmpty then ([], cs) else (digits, rest.dropWhile isDigit)
  | _ => ([], cs)

/-- The text after a mark up to the first character that belongs to no dotted identifier. -/
def marked (mark : Char) (cs : List Char) : Option (List Char × List Char) :=
  match cs with
  | [] => some ([], [])
  | c :: rest =>
    if c = mark then
      let body := rest.takeWhile fun d => isIdentChar d || d == '.'
      let parts := (String.ofList body).splitOn "."
      if parts.any String.isEmpty then none
      else some (body, rest.dropWhile fun d => isIdentChar d || d == '.')
    else some ([], cs)

/-- A prerelease identifier of digits only has no leading zero. -/
def validPrerelease (body : List Char) : Bool :=
  ((String.ofList body).splitOn ".").all fun part =>
    let cs := part.toList
    !(cs.all isDigit && cs.length > 1 && cs.head? == some '0')

def number (digits : List Char) : Except VersionFault Nat :=
  let n := digitsValue digits
  if n < Nat.pow 2 64 then .ok n else .error (.tooLarge (String.ofList digits))

/-- Reads a version; a leading `v` is allowed and missing numbers are zero. -/
def parse (s : String) : Except VersionFault Version := do
  let cs := match s.toList with
    | 'v' :: rest => rest
    | cs => cs
  let major := cs.takeWhile isDigit
  if major.isEmpty then throw .malformed
  let (minor, rest) := dotted (cs.dropWhile isDigit)
  let (patch, rest) := dotted rest
  let some (pre, rest) := marked '-' rest | throw .malformed
  let some (build, rest) := marked '+' rest | throw .malformed
  if !rest.isEmpty then throw .malformed
  let major ← number major
  let minor ← number minor
  let patch ← number patch
  if !pre.isEmpty && !validPrerelease pre then throw .malformed
  return { major, minor, patch, prerelease := String.ofList pre, build := String.ofList build }

/-- Only released versions with major number one are read. -/
def isSupported (v : Version) : Bool :=
  v.major == 1 && v.prerelease.isEmpty

def current : String := "1"

end Version

end Schemata.Document
