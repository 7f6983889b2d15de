import Schemata.Command.Options
import Schemata.Text.Columns

/-!
What a command says about itself: what it is for, how it is called, the commands below it and its
flags in order of their names.
-/

namespace Schemata.Command

open Text

structure Page where
  /-- The words that call the command. -/
  path : String
  /-- The last of them. -/
  name : String
  about : String
  /-- How the command is called, none when only commands below it can be. -/
  call : Option String
  /-- The commands below it, each with a short text. -/
  below : List (String × String) := []
  flags : List Flag := []
  /-- Flags that belong to the commands above as well. -/
  shared : List Flag := []

namespace Page

def flagHead (f : Flag) : String :=
  let name := match f.short with
    | some c => "  -" ++ c.toString ++ ", --" ++ f.name
    | none => "      --" ++ f.name
  name ++ f.setting.arity.placeholder

/-- Flags, one to a line, with the texts about them in a column. -/
def flagLines (flags : List Flag) : String :=
  let sorted := flags.mergeSort fun f g => f.name ≤ g.name
  let width := sorted.foldl (fun n f => max n (flagHead f).length) 0
  String.intercalate "\n" (sorted.map fun f => padTo (width + 3) (flagHead f) ++ f.usage)

def nameWidth : Nat := 11

def commandLines (below : List (String × String)) : String :=
  let width := below.foldl (fun n (name, _) => max n name.length) nameWidth
  String.join (below.map fun (name, about) => "\n  " ++ padTo width name ++ " " ++ about)

def usage (p : Page) : String :=
  let call := match p.call with
    | some line => "\n  " ++ line ++ " [flags]"
    | none => ""
  let group (title : String) (flags : List Flag) : String :=
    if flags.isEmpty then "" else "\n\n" ++ title ++ ":\n" ++ flagLines flags
  let deeper := !p.below.isEmpty
  "Usage:" ++ call ++
    (if deeper then "\n  " ++ p.path ++ " [command]" else "") ++
    (if deeper then "\n\nAvailable Commands:" ++ commandLines p.below else "") ++
    group "Flags" p.flags ++
    group "Global Flags" p.shared ++
    (if deeper then
      "\n\nUse \"" ++ p.path ++ " [command] --help\" for more information about a command."
    else "") ++ "\n"

def text (p : Page) : String := p.about ++ "\n\n" ++ p.usage

end Page

/-- What reading and writing is for, given the keys that can be read and written. -/
def aboutGenerate (readers writers : List String) : String :=
  "astrie reads a schema in one notation and writes it in others.\n" ++
  "\n" ++
  "The input notation comes from --ext or the input file extension. Reading\n" ++
  "from stdin (\"-\" or no input) requires --ext.\n" ++
  "\n" ++
  "Input notations:  " ++ String.intercalate ", " readers ++ "\n" ++
  "Output notations: " ++ String.intercalate ", " writers ++ "\n" ++
  "\n" ++
  "Examples:\n" ++
  "  astrie shop.hcl --out-rs --out-ts          # print Rust and TypeScript\n" ++
  "  astrie shop.hcl --out-all --out-dir gen/   # write every notation to gen/\n" ++
  "  astrie - --ext json --out go < shop.json   # read stdin"

def rootPage (readers writers : List String) : Page where
  path := "astrie"
  name := "astrie"
  about := aboutGenerate readers writers
  call := some "astrie [input|-]"
  below := [("completion", "Generate the autocompletion script for the specified shell"),
    ("help", "Help about any command"), ("list", "List the registered notations")]
  flags := helpFlag "astrie" :: outputFlags writers ++ sharedFlags

def listPage : Page where
  path := "astrie list"
  name := "list"
  about := "List the registered notations"
  call := some "astrie list"
  flags := [helpFlag "list"]
  shared := sharedFlags

def helpPage : Page where
  path := "astrie help"
  name := "help"
  about := "Help provides help for any command in the application.\n" ++
    "Simply type astrie help [path to command] for full details."
  call := some "astrie help [command]"
  flags := [helpFlag "help"]
  shared := sharedFlags

/-- Completion is only described here, its scripts belong to the shells. -/
def completionPage : Page where
  path := "astrie completion"
  name := "completion"
  about := "Generate the autocompletion script for astrie for the specified shell.\n" ++
    "See each sub-command's help for details on how to use the generated script."
  call := none
  below := ["bash", "fish", "powershell", "zsh"].map fun shell =>
    (shell, "Generate the autocompletion script for " ++ shell)
  flags := [helpFlag "completion"]
  shared := sharedFlags

end Schemata.Command
