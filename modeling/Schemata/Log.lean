/-!
What a run tells about itself. An entry has a level, a message and named values; a verbosity says
which levels are shown.
-/

namespace Schemata.Log

inductive Level where
  | debug
  | info
  | warn
  | error
deriving DecidableEq, Repr

namespace Level

def rank : Level → Nat
  | .debug => 0
  | .info => 1
  | .warn => 2
  | .error => 3

def name : Level → String
  | .debug => "debug"
  | .info => "info"
  | .warn => "warn"
  | .error => "error"

/-- The least level shown: warnings, with one step more what is done, with two steps everything. -/
def ofVerbosity (n : Int) : Level :=
  if n ≤ 0 then .warn else if n = 1 then .info else .debug

end Level

inductive Value where
  | text (s : String)
  | number (n : Nat)
  /-- A length of time. Time is not measured, so every length is zero. -/
  | duration
deriving DecidableEq, Repr

structure Entry where
  level : Level
  message : String
  values : List (String × Value) := []
deriving DecidableEq, Repr

/-- Work that leaves entries behind, in the order they were made. -/
abbrev Logged := StateM (List Entry)

def Logged.tell (e : Entry) : Logged Unit := modify (· ++ [e])

end Schemata.Log
