import Schemata.Catalog.Basic
import Schemata.Failure
import Schemata.Yaml.Decoding

/-!
Catalogs in files. A file that cannot be read as YAML, or that gives a value of the wrong kind,
is refused; fields that are not known are passed over.
-/

namespace Schemata.Catalog

open Data Naming

/-- The kinds of record a catalog file is made of. -/
inductive Record where
  | file
  | target
  | capabilities
  | row
  | naming
deriving DecidableEq, Repr

def Record.fields : Record → List (String × Shape Record)
  | .file => [("version", .text), ("targets", .dict (.optional (.record .target)))]
  | .target =>
    [("file_ext", .text), ("comment_style", .optional .text), ("fallback", .text),
      ("capabilities", .record .capabilities), ("types", .dict (.record .row)),
      ("naming", .record .naming)]
  | .capabilities => [("flatten", .optional .flag), ("lift_sum_types", .optional .flag)]
  | .row => [("name", .text), ("default", .text)]
  | .naming =>
    [("struct", .text), ("field", .text), ("constant", .text), ("namespace", .text),
      ("file", .text)]

def rowOf (t : Tree) : Row := ⟨(t.field "name").asText, (t.field "default").asText⟩

def namingOf (t : Tree) : NamingStyles where
  struct := .ofName (t.field "struct").asText
  field := .ofName (t.field "field").asText
  constant := .ofName (t.field "constant").asText
  namespaces := .ofName (t.field "namespace").asText
  file := .ofName (t.field "file").asText

/-- A target that is null says nothing. -/
def targetOf (t : Tree) : TargetDraft where
  fileExt := (t.field "file_ext").asText
  comment := (t.field "comment_style").text?
  fallback := (t.field "fallback").asText
  flatten := ((t.field "capabilities").field "flatten").flag?
  lift := ((t.field "capabilities").field "lift_sum_types").flag?
  rows := (t.field "types").fields.map fun (name, row) => (name, rowOf row)
  naming := namingOf (t.field "naming")

/-- The version is 1 unless the file gives one. -/
def draftOf (t : Tree) : Draft :=
  let version := (t.field "version").asText
  { version := if version.isEmpty then "1" else version
    targets := (t.field "targets").fields.map fun (key, target) => (key, targetOf target) }

def malformed : Failure := .other "failed to parse targets YAML"

def readDraft (bytes : List UInt8) : Except Failure Draft :=
  match Yaml.readRecord Record.fields false .file bytes with
  | .error _ => .error malformed
  | .ok t => .ok (draftOf (t.getD (.record [])))

def ofDraft (d : Draft) : Except Failure Catalog :=
  match d.build with
  | .ok c => .ok c
  | .error fault => .error (.other fault.message fault.hint)

def read (bytes : List UInt8) : Except Failure Catalog := do
  ofDraft (← readDraft bytes)

/-- What a file that was asked for holds, or why it cannot be had. -/
abbrev FileContent := Except String (List UInt8)

def fileDraft (path : String) (content : FileContent) : Except Failure Draft :=
  match content with
  | .error reason => .error (.other ("failed to read targets file " ++ path ++ ": " ++ reason))
  | .ok bytes =>
    match readDraft bytes with
    | .ok d => .ok d
    | .error f => .error (f.within ("targets file " ++ path))

/-- The catalog of a file merged over a base. -/
def overlay (base : Draft) (path : String) (content : FileContent) : Except Failure Catalog := do
  ofDraft (base.merge (← fileDraft path content))

end Schemata.Catalog
