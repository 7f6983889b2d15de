import Schemata.Failure
import Schemata.Similarity

/-!
Registries bind keys to what stands behind them. Keys are unique and never empty, and a key that
is not registered is answered with the registered keys close to it.
-/

namespace Schemata

open Text

structure Registry (α : Type) where
  /-- What the entries are, for messages, such as "input notation". -/
  role : String
  entries : List (String × α) := []

namespace Registry

variable {α : Type} (r : Registry α)

def find? (key : String) : Option α := r.entries.lookup key

def has (key : String) : Bool := (r.find? key).isSome

/-- Binds a key; `none` is an entry with nothing behind it. -/
def register (key : String) (entry : Option α) : Except Failure (Registry α) :=
  if key = "" then .error (.other (r.role ++ ": empty key"))
  else match entry with
    | none => .error (.other (r.role ++ " " ++ quote key ++ ": nil factory"))
    | some a =>
      if r.has key then .error (.other (r.role ++ " " ++ quote key ++ ": already registered"))
      else .ok { r with entries := r.entries ++ [(key, a)] }

def keys : List String :=
  (r.entries.map (·.1)).mergeSort (· ≤ ·)

def size : Nat := r.entries.length

def suggest (r : Registry α) (key : String) : List String :=
  Schemata.suggest key r.keys defaultReach

def lookup (key : String) : Except Failure α :=
  match r.find? key with
  | some a => .ok a
  | none => .error (.unknownKey r.role key (r.suggest key))

end Registry

end Schemata
