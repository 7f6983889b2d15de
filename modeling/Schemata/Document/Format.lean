import Schemata.Document.Builder
import Schemata.Document.Conversion
import Schemata.Failure
import Schemata.Json.Parser
import Schemata.Json.Printer
import Schemata.Text.Blank
import Schemata.Text.Place
import Schemata.Toml.Decoding
import Schemata.Toml.Printer
import Schemata.Yaml.Decoding
import Schemata.Yaml.Printer

/-!
The data formats documents are stored in, and modules read from and written to them. A text that
does not follow its data format is refused with its place; a document that is no module is
refused with a message.
-/

namespace Schemata.Document

open Data Text

variable (bytes : List UInt8)

def readJson : Except Place Tree :=
  match Json.parse bytes with
  | .ok t => .ok t
  | .error (.unexpected offset) =>
    let (line, column) := Json.position bytes offset
    .error { line, column }
  | .error .unknownField | .error .noValue => .error {}

def readYaml : Except Place Tree :=
  match Yaml.readRecord Record.fields true .document bytes with
  | .ok (some t) => .ok t
  | .ok none => .error {}
  | .error fault => .error { line := fault.line }

/-- The line and column of a byte offset, both from one. -/
def placeAt (offset : Nat) : Place :=
  (bytes.take offset).foldl (fun p b =>
    if b == 10 then ⟨p.line + 1, 1⟩ else { p with column := p.column + 1 }) ⟨1, 1⟩

def readToml : Except Place Tree :=
  match Toml.readRecord Record.fields .document bytes with
  | .ok t => .ok t
  | .error (.unexpected offset) => .error (placeAt bytes offset)
  | .error .unplaced => .error {}

structure Format where
  key : String
  decode : List UInt8 → Except Place Tree
  encode : Document → String

namespace Format

def json : Format := ⟨"json", readJson, Json.print⟩

def yaml : Format := ⟨"yaml", readYaml, fun d => Yaml.print d.toTree⟩

/-- A missing type argument is written as a type whose form is empty. -/
def toml : Format := ⟨"toml", readToml, fun d => Toml.print r"{form = ''}" d.toTree⟩

def all : List Format := [json, yaml, toml]

/-- Reads a module. A document that names no source comes from the notation it is read in. -/
def read (format : Format) (bytes : List UInt8) : Except SyntaxFault Module :=
  if isBlankBytes bytes then
    .error { language := format.key, refusal := .meaningless "empty document" }
  else match format.decode bytes with
    | .error place =>
      .error { language := format.key, line := place.line, column := place.column,
               refusal := .malformed "" }
    | .ok t =>
      match (ofTree t).toModule with
      | .error fault =>
        .error { language := format.key, refusal := .meaningless fault.message,
                 hint := fault.hint }
      | .ok m => .ok (if m.source.isEmpty then { m with source := format.key } else m)

def write (format : Format) (m : Module) : String := format.encode (ofModule m)

end Format

end Schemata.Document
