import Schemata.Command.Run

/-!
The command line program: the files, variables and streams of the machine as surroundings, and
the loop that waits for an input to change.
-/

namespace Schemata.Program

open Files Command

/-- Why the machine refused an operation. -/
def reasonOf : IO.Error → Reason
  | .noFileOrDirectory .. => .missing
  | .inappropriateType _ code _ => if code = 21 then .isDirectory else .notDirectory
  | .alreadyExists .. => .present
  | e => .other (toString e)

/-- An operation on a file with its refusal as a value. -/
def attempt {α : Type} (operation path : String) (act : IO α) : IO (Except Fault α) := do
  try return .ok (← act)
  catch e => return .error ⟨operation, path, reasonOf e⟩

/-- What is left of a stream. -/
partial def rest (stream : IO.FS.Stream) (done : ByteArray) : IO ByteArray := do
  let bytes ← stream.read 65536
  if bytes.isEmpty then return done else rest stream (done ++ bytes)

def bytesOf (content : List UInt8) : ByteArray := ⟨content.toArray⟩

def machine : Host IO where
  directory := do return (← IO.currentDir).toString
  environment name := do return (← IO.getEnv name).getD ""
  look path := do
    return (← attempt "stat" path (IO.FS.Handle.mk path .read)).map (fun _ => ())
      |>.mapError (·.reason)
  read path := attempt "open" path do return (← IO.FS.readBinFile path).toList
  write path content := attempt "open" path (IO.FS.writeBinFile path (bytesOf content))
  makeDirectories path := attempt "mkdir" path (IO.FS.createDirAll path)
  input := do return (← rest (← IO.getStdin) .empty).toList
  print content := do
    let out ← IO.getStdout
    out.write (bytesOf content)
    out.flush
  report content := do
    let err ← IO.getStderr
    err.write (bytesOf content)
    err.flush

/-- Runs a plan again whenever its input has changed. -/
partial def follow (p : Plan) (last : Option (List UInt8)) : IO Unit := do
  IO.sleep 200
  let now := (← machine.read p.input).toOption
  if now != last && now.isSome then discard (regenerate machine p).run
  follow p now

end Schemata.Program

open Schemata Program in
def main (arguments : List String) : IO UInt32 := do
  match ← (Command.run machine arguments).run with
  | .ok none => return 0
  | .ok (some p) =>
    follow p (← machine.read p.input).toOption
    return 0
  | .error failure =>
    IO.eprintln ("Error: " ++ failure.message)
    if !failure.hint.isEmpty then IO.eprintln ("Hint: " ++ failure.hint)
    return 1
