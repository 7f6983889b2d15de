import Schemata.Document.Format
import Schemata.GoSyntax.Reading
import Schemata.Hcl.Reading
import Schemata.Hcl.Writing
import Schemata.Registry
import Schemata.Writer.Cpp
import Schemata.Writer.Go
import Schemata.Writer.Protobuf
import Schemata.Writer.Python
import Schemata.Writer.Rust
import Schemata.Writer.TypeScript

/-!
The languages schemas are read from and written in, each under its key. Writers take what they
need to know of their target from a catalog, which has to know the target of every writer.
-/

namespace Schemata

open Text

structure Reader where
  key : String
  read : List UInt8 → Except SyntaxFault Module

def Document.Format.reader (f : Document.Format) : Reader := ⟨f.key, f.read⟩

def Document.Format.writer (f : Document.Format) (target : Target) : Writer :=
  { key := f.key, target, write := fun m => (f.write m, {}) }

structure Languages where
  readers : Registry Reader := { role := "input notation" }
  writers : Registry Writer := { role := "output notation" }

namespace Languages

def addReader (l : Languages) (r : Reader) : Except Failure Languages := do
  return { l with readers := ← l.readers.register r.key (some r) }

def targetOf (c : Catalog) (key : String) : Except Failure Target :=
  match c.find? key with
  | some t => .ok t
  | none => .error (.other ("target " ++ quote key ++ " missing from the type catalog"))

def addWriter (c : Catalog) (key : String) (build : Target → Writer) (l : Languages) :
    Except Failure Languages := do
  let target ← targetOf c key
  return { l with writers := ← l.writers.register key (some (build target)) }

def addFormat (c : Catalog) (l : Languages) (f : Document.Format) : Except Failure Languages := do
  (← l.addReader f.reader).addWriter c f.key f.writer

def sourceReaders : List Reader := [⟨Hcl.key, Hcl.readModule⟩, ⟨GoSyntax.key, GoSyntax.readModule⟩]

def sourceWriters : List (String × (Target → Writer)) :=
  [("go", Writer.go), ("h", Writer.cpp), (Hcl.key, Writer.hcl), ("proto", Writer.protobuf),
    ("py", Writer.python), ("rs", Writer.rust), ("ts", Writer.typeScript)]

def ofCatalog (c : Catalog) : Except Failure Languages := do
  let l ← Document.Format.all.foldlM (addFormat c) {}
  let l ← sourceReaders.foldlM addReader l
  sourceWriters.foldlM (fun l (key, build) => l.addWriter c key build) l

end Languages

end Schemata
