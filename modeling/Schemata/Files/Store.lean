import Schemata.Files.Path

/-!
Directories and files, and what the operations on them do. Names are looked up part by part from
a working directory, so a name can only lead through directories that are there.
-/

namespace Schemata.Files

inductive Reason where
  | missing
  | notDirectory
  | isDirectory
  | present
  | other (text : String)
deriving DecidableEq, Repr

def Reason.text : Reason → String
  | .missing => "no such file or directory"
  | .notDirectory => "not a directory"
  | .isDirectory => "is a directory"
  | .present => "file exists"
  | .other text => text

structure Fault where
  operation : String
  path : String
  reason : Reason
deriving DecidableEq, Repr

def Fault.text (f : Fault) : String := f.operation ++ " " ++ f.path ++ ": " ++ f.reason.text

inductive Node where
  | directory
  | file (content : List UInt8)
deriving DecidableEq, Repr

/-- Files and directories by the parts of their names. A directory is there as soon as something
is in it. -/
structure Store where
  nodes : List (List String × Node) := []
deriving DecidableEq, Repr

namespace Store

variable (s : Store)

def find? (place : List String) : Option Node :=
  match s.nodes.lookup place with
  | some node => some node
  | none =>
    if place.isEmpty || s.nodes.any (fun (p, _) => place.isPrefixOf p) then some .directory else none

def put (place : List String) (node : Node) : Store :=
  ⟨(s.nodes.filter fun (p, _) => p != place) ++ [(place, node)]⟩

/-- One part further on from a place. -/
def step (place : List String) (part : String) : Except Reason (List String) :=
  match s.find? place with
  | none => .error .missing
  | some (.file _) => .error .notDirectory
  | some .directory =>
    if part = "" ∨ part = "." then .ok place
    else if part = ".." then .ok place.dropLast
    else .ok (place ++ [part])

variable (working : List String) (path : String)

/-- The place a name leads to; nothing has to be there. -/
def locate : Except Reason (List String) :=
  if path.isEmpty then .error .missing
  else (parts path).foldlM s.step (if isAbsolute path then [] else working)

def look : Except Reason Node := do
  match s.find? (← s.locate working path) with
  | some node => return node
  | none => throw .missing

def read : Except Fault (List UInt8) :=
  match s.look working path with
  | .ok (.file content) => .ok content
  | .ok .directory => .error ⟨"read", path, .isDirectory⟩
  | .error reason => .error ⟨"open", path, reason⟩

def write (content : List UInt8) : Except Fault Store :=
  match s.locate working path with
  | .error reason => .error ⟨"open", path, reason⟩
  | .ok place =>
    if s.find? place = some .directory then .error ⟨"open", path, .isDirectory⟩
    else .ok (s.put place (.file content))

def makeDirectory : Except Fault Store :=
  let trimmed := String.ofList (path.toList.reverse.dropWhile (· == '/')).reverse
  match s.locate working trimmed with
  | .error reason => .error ⟨"mkdir", path, reason⟩
  | .ok place =>
    match s.find? place with
    | none => .ok (s.put place .directory)
    | some _ => if (s.look working path).toOption = some .directory then .ok s
      else .error ⟨"mkdir", path, .present⟩

/-- The names that lead to a name, itself last. Slashes at the end belong to it. -/
def leading : List String :=
  let ps := parts path
  let body := (ps.reverse.dropWhile (·.isEmpty)).reverse
  let inner := (List.range (body.length - 1)).filterMap fun n =>
    if (body.getD n "").isEmpty then none
    else some (String.intercalate "/" (body.take (n + 1)))
  if body.isEmpty then [path] else inner ++ [path]

/-- Makes a directory and those it stands in, unless they are there. -/
def makeDirectories : Except Fault Store :=
  (leading path).foldlM (fun s p =>
    match s.look working p with
    | .ok .directory => .ok s
    | .ok (.file _) => .error ⟨"mkdir", p, .notDirectory⟩
    | .error _ => s.makeDirectory working p) s

end Store

end Schemata.Files
