/-!
YAML tokens and where they stand.
-/

namespace Schemata.Yaml

/-- A place in a text. Lines and columns count from zero. -/
structure Mark where
  index : Nat := 0
  line : Nat := 0
  column : Nat := 0
deriving DecidableEq, Repr

inductive Style where
  | plain
  | singleQuoted
  | doubleQuoted
  | literal
  | folded
deriving DecidableEq, Repr

inductive TokenKind where
  | streamStart
  | streamEnd
  | versionDirective (major minor : Nat)
  | tagDirective (handle start : String)
  | documentStart
  | documentEnd
  | blockSequenceStart
  | blockMappingStart
  | blockEnd
  | flowSequenceStart
  | flowSequenceEnd
  | flowMappingStart
  | flowMappingEnd
  | blockEntry
  | flowEntry
  | key
  | value
  | alias (name : String)
  | anchor (name : String)
  /-- A tag as written, split behind its handle. -/
  | tag (handle suffix : String)
  | scalar (text : String) (style : Style)
deriving DecidableEq, Repr

structure Token where
  kind : TokenKind
  start : Mark
  stop : Mark
deriving DecidableEq, Repr

/-- A text that cannot be read. The line counts from one and is zero when unknown. -/
structure Fault where
  line : Nat := 0
deriving DecidableEq, Repr

/-- A fault in the spelling of tokens: the line where the token began tells, or the line of the
problem when the token began on the first. -/
def Fault.ofSpelling (began problem : Mark) : Fault :=
  if began.line ≠ 0 then ⟨began.line + 1⟩
  else if problem.line ≠ 0 then ⟨problem.line + 1⟩
  else ⟨0⟩

/-- A fault in the order of tokens, told by the line above it. -/
def Fault.ofStructure (began problem : Mark) : Fault :=
  if began.line ≠ 0 then ⟨began.line⟩ else ⟨problem.line⟩

end Schemata.Yaml
