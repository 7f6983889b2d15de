import Schemata.Text.Quoted

/-!
Why reading, loading or emitting fails. Each cause is a constructor; its wording is in one
place.
-/

namespace Schemata

open Text

inductive Refusal where
  /-- The text does not follow its format. -/
  | malformed (what : String)
  /-- The text follows its format but says something no schema can mean. -/
  | meaningless (message : String)
deriving DecidableEq, Repr

def Refusal.message : Refusal → String
  | .malformed what => what
  | .meaningless message => message

/-- A refused source text. Lines and columns count from one and are zero when unknown. -/
structure SyntaxFault where
  /-- The key of the notation the text was read in. -/
  language : String
  line : Nat := 0
  column : Nat := 0
  refusal : Refusal
  hint : String := ""
deriving DecidableEq, Repr

def SyntaxFault.text (f : SyntaxFault) : String :=
  let place :=
    if f.line > 0 ∧ f.column > 0 then s!"{f.language}:{f.line}:{f.column}"
    else if f.line > 0 then s!"{f.language}:{f.line}"
    else f.language
  place ++ ": " ++ f.refusal.message

/-- Items in quotation marks, separated by commas, with "or" before the last. -/
def quotedChoice : List String → String
  | [] => ""
  | [s] => "\"" ++ s ++ "\""
  | [s, t] => "\"" ++ s ++ "\" or \"" ++ t ++ "\""
  | s :: rest => "\"" ++ s ++ "\", " ++ quotedChoice rest

inductive Failure where
  | syntaxFault (fault : SyntaxFault)
  /-- No reader or writer is registered under a key. -/
  | unknownKey (role key : String) (suggestions : List String)
  | noOutput
  /-- A module breaks the rules every schema follows; the issues are listed. -/
  | invalidModule (key : String) (issues : List String)
  /-- Anything else, with advice when there is any. -/
  | other (message : String) (hint : String := "")
deriving DecidableEq, Repr

namespace Failure

def message : Failure → String
  | .syntaxFault fault => fault.text
  | .unknownKey role key _ => role ++ " " ++ quote key ++ ": unknown notation"
  | .noOutput => "no output notation selected"
  | .invalidModule key issues => key ++ ": " ++ issues.headD "" ++ ": parse error"
  | .other text _ => text

/-- What to do about it, empty when nothing is known. -/
def hint : Failure → String
  | .syntaxFault fault => fault.hint
  | .unknownKey _ _ [] => ""
  | .unknownKey _ _ suggestions => "did you mean " ++ quotedChoice suggestions ++ "?"
  | .noOutput => "pass --out <key>, --out-<key> or --out-all"
  | .invalidModule _ _ => ""
  | .other _ text => text

/-- Every issue of an invalid module, one to a line. -/
def detail : Failure → String
  | .invalidModule _ issues => String.intercalate "\n" issues
  | _ => ""

/-- A failure of another kind with words put before it. -/
def within (context : String) : Failure → Failure
  | .other text hint => .other (context ++ ": " ++ text) hint
  | f => f

end Failure

end Schemata
