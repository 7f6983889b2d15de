import Schemata.Language
import Schemata.Log
import Schemata.Normal.Flatten
import Schemata.Normal.Lift
import Schemata.Schema.Validity

/-!
From a source text to outputs. A text is read in one language and checked; for each language to
write, the module is brought to the normal form its target needs and then written.
-/

namespace Schemata

open Text Log

structure Output where
  /-- The key of the language, or what was dumped. -/
  target : String
  filename : String
  content : List UInt8
  diagnostics : Diagnostics := {}

def Output.text (o : Output) : String := String.ofList (Utf8.lossy o.content)

/-- Brings a module to the form a target accepts: flat when it cannot nest declarations, without
variants when it has none. -/
def normalize (target : Target) (m : Module) : Module × Diagnostics :=
  let (m, flattened) := if target.flatten then Normal.flatten m else (m, {})
  let (m, lifted) := if target.lift then Normal.lift m else (m, {})
  (m, flattened ++ lifted)

/-- Work that can fail and tells about itself either way. -/
abbrev Run := ExceptT Failure Logged

def tell (level : Level) (message : String) (values : List (String × Value)) : Run Unit :=
  Logged.tell { level, message, values }

/-- `normalize`, telling of each step. -/
def normalizeLogged (target : Target) (m : Module) : Run (Module × Diagnostics) := do
  let step (done : String) (m : Module) :=
    tell .debug done [("target", .text target.key), ("count", .number m.nodes.length)]
  if target.flatten then step "flattened" (Normal.flatten m).1
  let result := normalize target m
  if target.lift then step "lifted" result.1
  return result

def reportTo (target : String) (level : Level) (d : Diagnostic) : Run Unit :=
  tell level d.message
    [("target", .text target), ("code", .text d.code.name), ("path", .text d.path)]

structure Generator where
  languages : Languages
  /-- The name of the input without its extension; outputs are named after it. -/
  base : String := ""

namespace Generator

variable (g : Generator)

def baseName : String := if g.base.isEmpty then "schema" else g.base

def read (key : String) (source : List UInt8) : Except Failure Module := do
  let reader ← g.languages.readers.lookup key
  let m ← (reader.read source).mapError .syntaxFault
  if m.issues.isEmpty then return m
  else throw (.invalidModule key (m.issues.map (·.text)))

def parse (key : String) (source : List UInt8) : Run Module := do
  let m ← g.read key source
  tell .debug "parsed"
    [("notation", .text key), ("count", .number m.nodes.length), ("elapsed", .duration)]
  return m

/-- Reads a text and writes it in another language. Errors the writer reports are failures;
warnings travel with the output. -/
def emit (inKey : String) (source : List UInt8) (outKey : String) : Run Output := do
  let writer ← g.languages.writers.lookup outKey
  let m ← g.parse inKey source
  let (m, normalized) ← normalizeLogged writer.target m
  let (text, written) := writer.write m
  let diagnostics := normalized ++ written
  for d in diagnostics.warnings do reportTo outKey .warn d
  for d in diagnostics.infos do reportTo outKey .debug d
  if let some summary := diagnostics.summary? then
    throw (.other ("emit " ++ outKey ++ ": " ++ summary))
  let filename := writer.target.filename g.baseName
  let content := text.toUTF8.toList
  tell .info "emitted"
    [("target", .text outKey), ("file", .text filename), ("count", .number content.length)]
  return { target := outKey, filename, content, diagnostics }

/-- The outputs of the keys before the first that fails, and that failure. -/
def emitEach (g : Generator) (inKey : String) (source : List UInt8) :
    List String → Logged (List Output × Option Failure)
  | [] => return ([], none)
  | key :: keys => do
    match ← (g.emit inKey source key).run with
    | .error f => return ([], some f)
    | .ok o =>
      let (os, f) ← g.emitEach inKey source keys
      return (o :: os, f)

/-- `emitEach`, refusing to write nothing. -/
def emitAll (inKey : String) (source : List UInt8) (keys : List String) :
    Logged (List Output × Option Failure) :=
  if keys.isEmpty then return ([], some .noOutput) else g.emitEach inKey source keys

/-- The module as it was read, in the outline form. -/
def outline (inKey : String) (source : List UInt8) : Run Output := do
  let m ← g.parse inKey source
  return { target := "ast", filename := g.baseName ++ ".ast", content := m.show.toUTF8.toList }

/-- The source itself. Its name keeps clear of the output in its own language. -/
def copy (inKey : String) (source : List UInt8) : Output :=
  { target := "src", filename := g.baseName ++ ".src." ++ inKey, content := source }

end Generator

structure Selection where
  keys : List String := []
  /-- Whether the module is written as it was read. -/
  outline : Bool := false
  copy : Bool := false
deriving DecidableEq, Repr

def Selection.isEmpty (s : Selection) : Bool := s.keys.isEmpty && !s.outline && !s.copy

namespace Generator

/-- The outputs of the keys of a selection, all of them or none. -/
def emitSelected (g : Generator) (inKey : String) (source : List UInt8) (keys : List String) :
    Run (List Output) := do
  if keys.isEmpty then return []
  match ← (g.emitAll inKey source keys : Logged (List Output × Option Failure)) with
  | (outputs, none) => return outputs
  | (_, some failure) => throw failure

/-- The outputs of a selection: the source, the outline, then one for each key in order. -/
def generate (g : Generator) (inKey : String) (source : List UInt8) (s : Selection) :
    Run (List Output) := do
  let copies := if s.copy then [g.copy inKey source] else []
  let outlines ← if s.outline then do pure [← g.outline inKey source] else pure []
  return copies ++ outlines ++ (← g.emitSelected inKey source s.keys)

end Generator

end Schemata
