import Schemata.Text.Case

/-!
The words of an identifier. Separators always split; so does an upper-case letter that follows
a character of another case, or that ends a run of upper-case letters ("XMLParser" is "XML" and
"Parser"). Every naming style is built from the words.
-/

namespace Schemata.Naming

open Text

def isSeparator (c : Char) : Bool :=
  c = '_' || c = '-' || c = ' ' || c = '.'

/-- Whether `c`, standing after `previous` and before `next`, begins a new word. -/
def startsWord (previous c : Char) (next : Option Char) : Bool :=
  isUpper c &&
    ((!isUpper previous && !isSeparator previous) || next.any isLower)

/-- Splits the rest of an identifier; `current` is the word being read, reversed. -/
def splitFrom (current : List Char) (previous : Option Char) : List Char → List (List Char)
  | [] => if current.isEmpty then [] else [current.reverse]
  | c :: rest =>
    if isSeparator c then
      if current.isEmpty then splitFrom [] (some c) rest
      else current.reverse :: splitFrom [] (some c) rest
    else if !current.isEmpty && previous.any (startsWord · c rest.head?) then
      current.reverse :: splitFrom [c] (some c) rest
    else splitFrom (c :: current) (some c) rest

/-- The words of a text, none of them empty. -/
def splitWords (s : List Char) : List (List Char) := splitFrom [] none s

def words (s : String) : List String := (splitWords s.toList).map String.ofList

def capitalizeChars : List Char → List Char
  | [] => []
  | c :: rest => toUpper c :: rest

def uncapitalizeChars : List Char → List Char
  | [] => []
  | c :: rest => toLower c :: rest

def capitalize (s : String) : String := String.ofList (capitalizeChars s.toList)

def uncapitalize (s : String) : String := String.ofList (uncapitalizeChars s.toList)

/-- The words lower-cased and joined: spellings that differ in case and separators agree. -/
def normalize (s : String) : String := lower (String.join (words s))

end Schemata.Naming
