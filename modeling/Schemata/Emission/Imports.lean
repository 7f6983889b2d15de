/-!
The import lines a written text needs. Identifiers, possibly dotted or joined by `::`, are found
in the text, and those with a known import line record it.
-/

namespace Schemata.Emission

def isIdentStart (c : Char) : Bool :=
  ('a' ≤ c && c ≤ 'z') || ('A' ≤ c && c ≤ 'Z') || c = '_'

def isIdentChar (c : Char) : Bool :=
  isIdentStart c || ('0' ≤ c && c ≤ '9')

/-- The identifiers from here on; `current` is the one being read, reversed. -/
def identifiersFrom (current : List Char) : List Char → List (List Char)
  | [] => if current.isEmpty then [] else [current.reverse]
  | c :: rest =>
    if current.isEmpty then
      identifiersFrom (if isIdentStart c then [c] else []) rest
    else if isIdentChar c then identifiersFrom (c :: current) rest
    else if c = '.' && rest.head?.any isIdentStart then identifiersFrom (c :: current) rest
    else if c = ':' && rest.head? = some ':' && (rest.drop 1).head?.any isIdentStart then
      identifiersFrom (c :: current) rest
    else if c = ':' && current.head? = some ':' && rest.head?.any isIdentStart then
      identifiersFrom (c :: current) rest
    else current.reverse :: identifiersFrom [] rest

def identifiers (text : String) : List String :=
  (identifiersFrom [] text.toList).map String.ofList

def importsOf (known : List (String × String)) (text : String) : List String :=
  (identifiers text).filterMap fun name => known.lookup name

structure Imports where
  used : List String := []
deriving DecidableEq, Repr

namespace Imports

def add (im : Imports) (line : String) : Imports :=
  if im.used.contains line then im else ⟨im.used ++ [line]⟩

/-- Records the imports of every known identifier in a text. -/
def scan (im : Imports) (known : List (String × String)) (text : String) : Imports :=
  (importsOf known text).foldl add im

def lines (im : Imports) : List String := im.used.mergeSort (· ≤ ·)

def size (im : Imports) : Nat := im.used.length

end Imports

end Schemata.Emission
