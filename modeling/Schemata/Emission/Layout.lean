import Schemata.Text.Blank

/-!
Layout of written source texts: the banner, the escaping of reserved words, names without their
namespace, and the tidying of blank lines.
-/

namespace Schemata.Emission

open Text

def banner : String := "Code generated by astrie. DO NOT EDIT."

/-- The banner as a line comment, with a blank line after it; a target without a comment style
takes two slashes. -/
def header (commentStyle : String) : String :=
  (if commentStyle = "" then "//" else commentStyle) ++ " " ++ banner ++ "\n\n"

/-- The words of a list separated by blanks. -/
def fields (s : String) : List String :=
  (s.toList.splitOnP isBlank).filter (!·.isEmpty) |>.map String.ofList

/-- A name, rendered by `escape` when it is reserved. -/
def escapeName (reserved : List String) (escape : String → String) (name : String) : String :=
  if reserved.contains name then escape name else name

def lastSegment (name : String) : String :=
  String.ofList (name.toList.reverse.takeWhile (· != '.')).reverse

/-- Whether the line that begins here holds only blanks before a closing brace or bracket. -/
def closesNext (rest : List Char) : Bool :=
  match (rest.dropWhile (· == '\n')).dropWhile fun c => c == ' ' || c == '\t' with
  | c :: _ => c == '}' || c == ']'
  | [] => false

/-- Removes the blank lines before a closing brace or bracket. -/
def dropBlankBeforeClose : List Char → List Char
  | [] => []
  | c :: rest =>
    if c = '\n' && rest.head? = some '\n' && closesNext rest then dropBlankBeforeClose rest
    else c :: dropBlankBeforeClose rest

def collapseBlankRuns : List Char → List Char
  | [] => []
  | c :: rest =>
    if c = '\n' && rest.head? = some '\n' && (rest.drop 1).head? = some '\n' then
      collapseBlankRuns rest
    else c :: collapseBlankRuns rest

def endLine (s : List Char) : List Char :=
  (s.reverse.dropWhile (· == '\n')).reverse ++ ['\n']

/-- No blank line before a closing brace or bracket, no two blank lines together, one newline at
the end. -/
def tidy (s : String) : String :=
  String.ofList (endLine (collapseBlankRuns (dropBlankBeforeClose s.toList)))

end Schemata.Emission
