/-!
Names of files as texts: parts with a slash between them. Nothing here looks at a disk, so two
dots always undo the part before them.
-/

namespace Schemata.Files

variable (path : String)

def isAbsolute : Bool := path.toList.head? == some '/'

/-- The parts between slashes; two slashes have an empty part between them. -/
def parts : List String := (path.toList.splitOn '/').map String.ofList

/-- Takes one more part behind the parts in front, which are given last first. -/
def pushPart (absolute : Bool) (before : List String) (part : String) : List String :=
  if part = "" ∨ part = "." then before
  else if part = ".." then
    match before with
    | [] => if absolute then [] else [".."]
    | ".." :: _ => ".." :: before
    | _ :: rest => rest
  else part :: before

/-- The shortest name of the same file. -/
def clean : String :=
  let absolute := isAbsolute path
  let kept := ((parts path).foldl (pushPart absolute) []).reverse
  let text := String.intercalate "/" kept
  if absolute then "/" ++ text else if text.isEmpty then "." else text

/-- The name of a file in a directory. An empty name is the directory's own. -/
def join (directory name : String) : String :=
  if directory.isEmpty then if name.isEmpty then "" else clean name
  else clean (directory ++ "/" ++ name)

def parent : String :=
  match (parts path).dropLast with
  | [] => "."
  | ps => clean (String.intercalate "/" ps ++ "/")

def base : String :=
  if path.isEmpty then "."
  else match (parts path).reverse.dropWhile (·.isEmpty) with
    | [] => "/"
    | part :: _ => part

/-- From the last dot of the last part on. -/
def extension : String :=
  let behind := path.toList.reverse.takeWhile (· != '/')
  if behind.contains '.' then String.ofList ('.' :: (behind.takeWhile (· != '.')).reverse) else ""

def stem : String :=
  let name := base path
  let tail := extension path
  if name.endsWith tail then String.ofList (name.toList.take (name.length - tail.length)) else name

def ancestors (directory : String) : List String :=
  let ps := (parts directory).filter (!·.isEmpty)
  (List.range (ps.length + 1)).reverse.map fun n => "/" ++ String.intercalate "/" (ps.take n)

end Schemata.Files
