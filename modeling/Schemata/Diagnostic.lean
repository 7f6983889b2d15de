/-!
What passes and writers report about a schema they could not express as it stands. A collection
keeps errors, warnings and notes apart, each in the order they were recorded.
-/

namespace Schemata

inductive Severity where
  | info
  | warning
  | error
deriving DecidableEq, Repr

namespace Severity

def name : Severity → String
  | .info => "info"
  | .warning => "warning"
  | .error => "error"

/-- Severities count up from zero. -/
def ofNumber? : Int → Option Severity
  | 0 => some .info
  | 1 => some .warning
  | 2 => some .error
  | _ => none

end Severity

inductive Code where
  | unmappedKind
  | typelessAlternative
  | nameCollision
  | unliftedVariant
  | anonymousInline
  | dependencyCycle
  | unsupportedDeclaration
  | droppedAttribute
  | goFormat
  | other (name : String)
deriving DecidableEq, Repr

def Code.name : Code → String
  | .unmappedKind => "unmapped-kind"
  | .typelessAlternative => "typeless-alternative"
  | .nameCollision => "name-collision"
  | .unliftedVariant => "unlifted-variant"
  | .anonymousInline => "anonymous-inline"
  | .dependencyCycle => "dependency-cycle"
  | .unsupportedDeclaration => "unsupported-declaration"
  | .droppedAttribute => "dropped-attribute"
  | .goFormat => "go-format"
  | .other name => name

structure Diagnostic where
  severity : Severity
  code : Code
  message : String
  /-- The key of the target the report is about, if any. -/
  target : String := ""
  /-- The declaration or member the report is about, such as "Order.shipping". -/
  path : String := ""
deriving DecidableEq, Repr

/-- One line: where, then the code in brackets, then the message. -/
def Diagnostic.text (d : Diagnostic) : String :=
  let place := (if d.target = "" then [] else ["[" ++ d.target ++ "]"]) ++
    (if d.path = "" then [] else [d.path])
  let message := if d.code.name = "" then d.message else "[" ++ d.code.name ++ "] " ++ d.message
  if place.isEmpty then message else String.intercalate " " place ++ ": " ++ message

structure Diagnostics where
  errors : List Diagnostic := []
  warnings : List Diagnostic := []
  infos : List Diagnostic := []
deriving DecidableEq, Repr

namespace Diagnostics

variable (ds : Diagnostics)

def add (d : Diagnostic) : Diagnostics :=
  match d.severity with
  | .error => { ds with errors := ds.errors ++ [d] }
  | .warning => { ds with warnings := ds.warnings ++ [d] }
  | .info => { ds with infos := ds.infos ++ [d] }

def warn (code : Code) (message target path : String) : Diagnostics :=
  ds.add ⟨.warning, code, message, target, path⟩

def note (code : Code) (message target path : String) : Diagnostics :=
  ds.add ⟨.info, code, message, target, path⟩

def append (a b : Diagnostics) : Diagnostics where
  errors := a.errors ++ b.errors
  warnings := a.warnings ++ b.warnings
  infos := a.infos ++ b.infos

instance : Append Diagnostics := ⟨append⟩

/-- All of them: errors, then warnings, then notes. -/
def toList : List Diagnostic :=
  ds.errors ++ ds.warnings ++ ds.infos

def size : Nat := ds.toList.length

def hasErrors : Bool := !ds.errors.isEmpty

def isValid : Bool := !ds.hasErrors

def withCode (code : Code) : List Diagnostic :=
  ds.toList.filter fun d => d.code.name == code.name

/-- The errors on one line, if there are any. -/
def summary? : Option String :=
  if ds.isValid then none
  else some (String.intercalate "; " (ds.errors.map (·.text)))

end Diagnostics

end Schemata
