import Schemata.Files.Store

/-!
What a command can ask of its surroundings: files, variables, its standard input, and two places
to print to. `World` is such surroundings as a value, so that what a command does to them can be
seen.
-/

namespace Schemata

open Files

structure Host (m : Type → Type) where
  directory : m String
  /-- The value of a variable, empty when it is not set. -/
  environment : String → m String
  /-- Whether a file or directory is there. -/
  look : String → m (Except Reason Unit)
  read : String → m (Except Fault (List UInt8))
  write : String → List UInt8 → m (Except Fault Unit)
  makeDirectories : String → m (Except Fault Unit)
  input : m (List UInt8)
  print : List UInt8 → m Unit
  /-- Prints where messages go. -/
  report : List UInt8 → m Unit

structure World where
  store : Store := {}
  directory : List String := []
  «variables» : List (String × String) := []
  input : List UInt8 := []
  printed : List UInt8 := []
  reported : List UInt8 := []
deriving Repr

namespace World

/-- Replaces the files, unless the operation on them is refused. -/
def change (act : World → Except Fault Store) : StateM World (Except Fault Unit) := do
  match act (← get) with
  | .ok store =>
    modify fun w => { w with store }
    return .ok ()
  | .error f => return .error f

def host : Host (StateM World) where
  directory := do return "/" ++ String.intercalate "/" (← get).directory
  environment name := do return ((← get).variables.lookup name).getD ""
  look path := do
    let w ← get
    return (w.store.look w.directory path).map fun _ => ()
  read path := do
    let w ← get
    return w.store.read w.directory path
  write path content := change fun w => w.store.write w.directory path content
  makeDirectories path := change fun w => w.store.makeDirectories w.directory path
  input := do return (← get).input
  print bytes := modify fun w => { w with printed := w.printed ++ bytes }
  report bytes := modify fun w => { w with reported := w.reported ++ bytes }

end World

end Schemata
