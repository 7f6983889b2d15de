import Schemata.Text.Setting

/-!
The flags of the command line and what they set. A flag takes a text, switches something, or
counts how often it was given.
-/

namespace Schemata.Command

open Text

inductive Setting where
  | language
  | output
  | everything
  | outline
  | copy
  | directory
  | watch
  /-- The language of a key as an output. -/
  | key (key : String)
  | types
  | config
  | verbosity
  | jsonLog
  | help
deriving DecidableEq, Repr

inductive Arity where
  | text
  | switch
  | count
deriving DecidableEq, Repr

def Setting.arity : Setting → Arity
  | .language | .output | .directory | .types | .config => .text
  | .verbosity => .count
  | _ => .switch

/-- The value of a flag that stands alone, none when it needs one. -/
def Arity.implied? : Arity → Option String
  | .text => none
  | .switch => some "true"
  | .count => some "+1"

def Arity.placeholder : Arity → String
  | .text => " string"
  | .switch => ""
  | .count => " count"

structure Flag where
  setting : Setting
  name : String
  /-- A letter that stands for the flag. Flags with a letter never need a value. -/
  short : Option Char := none
  usage : String
deriving Repr

def Flag.implied? (f : Flag) : Option String := f.setting.arity.implied?

def Flag.title (f : Flag) : String :=
  match f.short with
  | some c => "-" ++ c.toString ++ ", --" ++ f.name
  | none => "--" ++ f.name

def sharedFlags : List Flag :=
  [{ setting := .config, name := "config"
     usage := "configuration file (default: astrie.toml searched upward)" },
    { setting := .jsonLog, name := "log-json", usage := "log as JSON" },
    { setting := .types, name := "types"
      usage := "YAML file merged over the built-in target tables" },
    { setting := .verbosity, name := "verbose", short := some 'v'
      usage := "increase log verbosity (-v, -vv)" }]

/-- Flags of a run that writes outputs in the languages of some keys. -/
def outputFlags (keys : List String) : List Flag :=
  [{ setting := .language, name := "ext", usage := "input notation, overriding the file extension" },
    { setting := .output, name := "out", usage := "output notation (repeatable)" },
    { setting := .everything, name := "out-all"
      usage := "write the source, the AST and every output notation" },
    { setting := .outline, name := "out-ast", usage := "dump the parsed IR" },
    { setting := .copy, name := "out-src", usage := "dump the input source" },
    { setting := .directory, name := "out-dir"
      usage := "write files to this directory instead of stdout" },
    { setting := .watch, name := "watch", usage := "regenerate whenever the input file changes" }] ++
  keys.map fun key =>
    { setting := .key key, name := "out-" ++ key, usage := "output notation " ++ key }

def helpFlag (command : String) : Flag :=
  { setting := .help, name := "help", short := some 'h', usage := "help for " ++ command }

structure Options where
  language : String := ""
  /-- Keys of outputs, in the order they were first given. -/
  keys : List String := []
  everything : Bool := false
  outline : Bool := false
  copy : Bool := false
  directory : String := ""
  watch : Bool := false
  types : String := ""
  config : String := ""
  verbosity : Int64 := 0
  jsonLog : Bool := false
  help : Bool := false
deriving DecidableEq, Repr

namespace Options

def addKey (o : Options) (key : String) : Options :=
  if o.keys.contains key then o else { o with keys := o.keys ++ [key] }

def dropKey (o : Options) (key : String) : Options := { o with keys := o.keys.filter (· != key) }

def badFlag (text : String) : String :=
  "strconv.ParseBool: parsing " ++ quote text ++ ": invalid syntax"

def badNumber (text : String) : Setting.NumberFault → String
  | .malformed => "strconv.ParseInt: parsing " ++ quote text ++ ": invalid syntax"
  | .outOfRange => "strconv.ParseInt: parsing " ++ quote text ++ ": value out of range"

def switched (text : String) : Except String Bool :=
  match Text.Setting.flag? text with
  | some b => .ok b
  | none => .error (badFlag text)

def set (o : Options) (setting : Setting) (text : String) : Except String Options := do
  match setting with
  | .language => return { o with language := text }
  | .output => return o.addKey text
  | .directory => return { o with directory := text }
  | .types => return { o with types := text }
  | .config => return { o with config := text }
  | .everything => return { o with everything := ← switched text }
  | .outline => return { o with outline := ← switched text }
  | .copy => return { o with copy := ← switched text }
  | .watch => return { o with watch := ← switched text }
  | .jsonLog => return { o with jsonLog := ← switched text }
  | .help => return { o with help := ← switched text }
  | .key key => return if ← switched text then o.addKey key else o.dropKey key
  | .verbosity =>
    if text = "+1" then return { o with verbosity := o.verbosity + 1 }
    else match Text.Setting.integer text with
      | .ok n => return { o with verbosity := n }
      | .error fault => throw (badNumber text fault)

end Options

end Schemata.Command
