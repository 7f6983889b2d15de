import Schemata.Failure
import Schemata.Host
import Schemata.Text.Setting
import Schemata.Toml.Table

/-!
Settings of a run from a file and from the environment. A variable that is set wins over the
file. Values are taken for what is wanted as far as they can be: a number for a text, a text for
a flag, one text for a list.
-/

namespace Schemata

open Text Toml

structure Configuration where
  /-- The language of the input, whatever its name says. -/
  language : String := ""
  directory : String := ""
  targets : List String := []
  outline : Bool := false
  /-- A file merged over the built-in catalog. -/
  types : String := ""
  verbosity : Int64 := 0
  jsonLog : Bool := false
  /-- The file the settings come from, empty when there is none. -/
  file : String := ""
deriving DecidableEq, Repr

namespace Configuration

def fileName : String := "astrie.toml"

/-! ### Values -/

def textOf? : Item → Option String
  | .text s => some s
  | .flag b => some (if b then "1" else "0")
  | .integer n => some (toString n)
  | .float x => some x.text
  | _ => none

def flagOf? : Item → Option Bool
  | .flag b => some b
  | .integer n => some (n ≠ 0)
  | .float x => some (!x.isZero)
  | .text s => if s.isEmpty then some false else Setting.flag? s
  | _ => none

def numberOf? : Item → Option Int64
  | .integer n => some n
  | .float x => some x.truncate
  | .flag b => some (if b then 1 else 0)
  | .text s => if s.isEmpty then some 0 else (Setting.integer s).toOption
  | _ => none

/-- A list of texts. A text is split at its commas, anything else that is no list is its only
entry. -/
def textsOf? : Item → Option (List String)
  | .text s => some (if s.isEmpty then [] else s.splitOn ",")
  | .array items => items.mapM textOf?
  | .table [] => some []
  | i => (textOf? i).map fun s => [s]

/-! ### Where values come from -/

def variableOf (key : String) : String := upper ("astrie_" ++ key.replace "." "_")

mutual

/-- A table whose names are in small letters. -/
def lowered : Item → Item
  | .table entries => .table (loweredEntries entries)
  | i => i

def loweredEntries : List (String × Item) → List (String × Item)
  | [] => []
  | (name, i) :: rest => (lower name, lowered i) :: loweredEntries rest

end

/-- What settings are read from. -/
structure Sources where
  /-- Values of variables, empty when they are not set. -/
  variableText : String → String
  file : List (String × Item) := []

namespace Sources

variable (s : Sources)

/-- The text of a variable that is set. -/
def given? (key : String) : Option Item :=
  let text := s.variableText (variableOf key)
  if text.isEmpty then none else some (.text text)

/-- The value a file gives for a name in a section. The two may also be one name with a dot. -/
def filed? (part name : String) : Option Item :=
  match s.file.lookup (part ++ "." ++ name) with
  | some i => some i
  | none => (s.file.lookup part).bind fun i => i.entries.lookup name

/-- Whether a file gives something else than a table for a section. Such a section holds
nothing. -/
def isReplaced (part : String) : Bool :=
  match s.file.lookup part with
  | some i => !i.isTable
  | none => false

/-- The value of a name in a section. A variable for the whole section hides the file. -/
def value? (part name : String) : Option Item :=
  if s.isReplaced part then none
  else match s.given? (part ++ "." ++ name) with
    | some i => some i
    | none => if (s.given? part).isSome then none else s.filed? part name

/-- Whether what stands for a section can be taken for one. Dates and times can, as tables that
say nothing. -/
def fits (part : String) : Bool :=
  match s.file.lookup part with
  | none | some (.table _) => true
  | some .moment => (s.given? part).isNone
  | some _ => false

/-- A value read as what is wanted; what is not given is the default. -/
def take? {α : Type} (read? : Item → Option α) (part name : String) (default : α) : Option α :=
  match s.value? part name with
  | some i => read? i
  | none => some default

end Sources

def sections : List String := ["input", "output", "types", "log"]

def keys : List String :=
  ["input.ext", "output.dir", "output.targets", "output.ast", "types.file", "log.verbosity",
    "log.json"]

/-- The settings that sources give, if every value can be taken for what is wanted. -/
def ofSources? (s : Sources) : Option Configuration := do
  if !sections.all s.fits then none
  return {
    language := ← s.take? textOf? "input" "ext" ""
    directory := ← s.take? textOf? "output" "dir" ""
    targets := ← s.take? textsOf? "output" "targets" []
    outline := ← s.take? flagOf? "output" "ast" false
    types := ← s.take? textOf? "types" "file" ""
    verbosity := ← s.take? numberOf? "log" "verbosity" 0
    jsonLog := ← s.take? flagOf? "log" "json" false }

/-- Settings of a file: names of files in it are relative to where it stands. -/
def settledAt (path : String) (c : Configuration) : Configuration :=
  let relative := !c.types.isEmpty && !Files.isAbsolute c.types && !path.isEmpty
  { c with
    file := path
    types := if relative then Files.join (Files.parent path) c.types else c.types }

/-! ### Loading -/

variable {m : Type → Type} [Monad m]

/-- The nearest file of settings in a directory or above it, empty when there is none. -/
def nearestFrom (h : Host m) : List String → m String
  | [] => return ""
  | directory :: rest => do
    let path := Files.join directory fileName
    match ← h.look path with
    | .ok _ => return path
    | .error _ => nearestFrom h rest

def nearest (h : Host m) : m String := do
  nearestFrom h (Files.ancestors (← h.directory))

def readEntries (h : Host m) (path : String) : ExceptT Failure m (List (String × Item)) := do
  let refused : Failure := .other ("failed to read config file " ++ path)
  match ← h.read path with
  | .error _ => throw refused
  | .ok bytes =>
    match readTable bytes with
    | .error _ => throw refused
    | .ok t => return (lowered t).entries

/-- A name, provided that something stands under it. -/
def present (h : Host m) (named : String) : ExceptT Failure m String := do
  match ← h.look named with
  | .ok _ => return named
  | .error reason =>
    throw (.other ("config file " ++ named ++ ": " ++ (Files.Fault.mk "stat" named reason).text))

/-- Loads settings. A file that is named has to be there; otherwise the nearest one is taken. -/
def load (h : Host m) (named : String) : ExceptT Failure m Configuration := do
  let path ← if named.isEmpty then (nearest h : m String) else present h named
  let file ← if path.isEmpty then pure [] else readEntries h path
  let names := (sections ++ keys).map variableOf
  let values ← names.mapM fun name => do return (name, ← h.environment name)
  match ofSources? { variableText := fun name => (values.lookup name).getD "", file } with
  | none => throw (.other "failed to unmarshal config")
  | some c => return c.settledAt path

end Configuration

end Schemata
