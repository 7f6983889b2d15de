import Schemata.Catalog.Builtin
import Schemata.Catalog.Reading
import Schemata.Command.Arguments
import Schemata.Command.Help
import Schemata.Command.Listing
import Schemata.Configuration
import Schemata.Generation
import Schemata.Log.Line

/-!
The command line. Arguments choose a command; settings come from flags, then from the
configuration. Outputs are delivered only when every one of them could be made.
-/

namespace Schemata.Command

open Log

variable {m : Type → Type} [Monad m]

/-- Work in some surroundings that can fail. -/
abbrev Task (m : Type → Type) := ExceptT Failure m

/-- How a run tells about itself. -/
structure Voice where
  least : Level := .warn
  form : Form := .plain

/-- Prints the entries that are to be shown. -/
def Voice.report (v : Voice) (h : Host m) (entries : List Entry) : Task m Unit :=
  let text := lines v.form v.least entries
  if text.isEmpty then return () else h.report text.toUTF8.toList

structure Setup where
  configuration : Configuration
  catalog : Catalog
  languages : Languages
  voice : Voice

variable (h : Host m)

/-- The catalog with a file merged over it; an empty name is none. -/
def loadCatalog (path : String) : Task m Catalog := do
  if path.isEmpty then Catalog.ofDraft Catalog.builtin
  else
    let content ← h.read path
    Catalog.overlay Catalog.builtin path (content.mapError (·.text))

def setup (o : Options) : Task m Setup := do
  let configuration ← Configuration.load h o.config
  let voice : Voice :=
    { least := .ofVerbosity (max o.verbosity.toInt configuration.verbosity.toInt)
      form := if o.jsonLog || configuration.jsonLog then .json else .plain }
  if !configuration.file.isEmpty then
    voice.report h [⟨.info, "loaded configuration", [("file", .text configuration.file)]⟩]
  let catalog ← loadCatalog h (if o.types.isEmpty then configuration.types else o.types)
  let languages ← Languages.ofCatalog catalog
  return { configuration, catalog, languages, voice }

/-! ### Generating -/

def standardInput : String := "-"

structure Plan where
  generator : Generator
  input : String
  language : String
  selection : Selection
  directory : String
  voice : Voice

/-- The language of an input: what was asked for, what is configured, or what its name says. -/
def inputLanguage (input asked configured : String) : Except Failure String :=
  if !asked.isEmpty then .ok asked
  else if !configured.isEmpty then .ok configured
  else if input = standardInput then
    .error (.other "must specify --ext when reading from stdin" "e.g. --ext json")
  else
    let name := ((Files.extension input).drop 1).toString
    if name.isEmpty then .error (.other ("cannot tell the notation of " ++ input) "pass --ext")
    else .ok name

/-- What flags select, or else the configuration. -/
def select (o : Options) (c : Configuration) (all : List String) : Selection :=
  if o.everything then { keys := all, outline := true, copy := true }
  else
    { keys := (if o.keys.isEmpty then c.targets else o.keys).eraseDups
      outline := o.outline || c.outline
      copy := o.copy }

def plan (s : Setup) (o : Options) (operands : List String) : Except Failure Plan := do
  let input := operands.headD standardInput
  let language ← inputLanguage input o.language s.configuration.language
  let selection := select o s.configuration s.languages.writers.keys
  if selection.isEmpty then throw .noOutput
  let base := if input = standardInput then "" else Files.stem input
  return {
    generator := { languages := s.languages, base }
    input, language, selection
    directory := if o.directory.isEmpty then s.configuration.directory else o.directory
    voice := s.voice }

def readInput (input : String) : Task m (List UInt8) := do
  if input = standardInput then
    let bytes ← h.input
    if bytes.isEmpty then throw (.other "no input file provided and stdin is empty")
    return bytes
  else
    match ← h.read input with
    | .ok bytes => return bytes
    | .error fault => throw (.other ("read " ++ input ++ ": " ++ fault.text))

def printOutputs : List Output → Task m Unit
  | [] => return ()
  | o :: rest => do
    h.report ("********* " ++ o.target ++ " *********\n").toUTF8.toList
    h.print o.content
    printOutputs rest

/-- Writes outputs to a directory that is there, telling of each. -/
def writeOutputs (v : Voice) (directory : String) : List Output → Task m Unit
  | [] => return ()
  | o :: rest => do
    let path := Files.join directory o.filename
    match ← h.write path o.content with
    | .error fault => throw (.other ("writing file " ++ o.filename ++ ": " ++ fault.text))
    | .ok _ =>
      v.report h [⟨.info, "wrote", [("target", .text o.target), ("file", .text path)]⟩]
      writeOutputs v directory rest

def deliver (p : Plan) (outputs : List Output) : Task m Unit := do
  if p.directory.isEmpty then printOutputs h outputs
  else
    match ← h.makeDirectories p.directory with
    | .error fault => throw (.other ("creating output directory: " ++ fault.text))
    | .ok _ => writeOutputs h p.voice p.directory outputs

def generate (p : Plan) : Task m Unit := do
  let source ← readInput h p.input
  p.voice.report h
    [⟨.info, "input", [("file", .text p.input), ("notation", .text p.language)]⟩]
  let (result, entries) := (p.generator.generate p.language source p.selection).run.run []
  p.voice.report h entries
  match result with
  | .error failure => throw failure
  | .ok outputs => deliver h p outputs

/-- Generates, only telling of a failure. -/
def regenerate (p : Plan) : Task m Unit := do
  try generate h p
  catch failure =>
    p.voice.report h [⟨.error, "generation failed", [("error", .text failure.message)]⟩]

/-- Generates once and tells that the input is watched. -/
def watch (p : Plan) : Task m Unit := do
  if p.input = standardInput then throw (.other "--watch needs an input file")
  let directory ← h.directory
  let path := if Files.isAbsolute p.input then Files.clean p.input else Files.join directory p.input
  match ← h.look (Files.parent path) with
  | .error reason => throw (.other ("failed to watch " ++ p.input ++ ": " ++ reason.text))
  | .ok _ =>
    regenerate h p
    p.voice.report h [⟨.info, "watching", [("file", .text p.input)]⟩]

/-! ### Commands -/

/-- What the program is called for. -/
inductive Verb where
  | generate
  | list
  | help
  | completion
deriving DecidableEq, Repr

namespace Verb

def ofWord? (word : String) : Option Verb :=
  match word with
  | "list" => some .list
  | "help" => some .help
  | "completion" => some .completion
  | _ => none

/-- The verb of arguments, and the arguments without the word for it. -/
def find (flags : List Flag) (arguments : List String) : Verb × List String :=
  match Arguments.firstWord? flags arguments with
  | none => (.generate, arguments)
  | some word =>
    match ofWord? word with
    | none => (.generate, arguments)
    | some c => (c, Arguments.dropWord flags word arguments)

def page (l : Languages) : Verb → Page
  | .generate => rootPage l.readers.keys l.writers.keys
  | .list => listPage
  | .help => helpPage
  | .completion => completionPage

end Verb

def misuse (x : Misuse) : Failure := .other x.message

def printText (text : String) : Task m Unit := h.print text.toUTF8.toList

/-- Generates. What is returned is to be run again whenever its input changes. -/
def runGenerate (a : Arguments) : Task m (Option Plan) := do
  if a.operands.length > 1 then throw (misuse (.tooManyOperands 1 a.operands.length))
  let s ← setup h a.options
  let p ← plan s a.options a.operands
  if a.options.watch then
    watch h p
    return some p
  else
    generate h p
    return none

def runList (a : Arguments) : Task m Unit := do
  if let word :: _ := a.operands then throw (misuse (.unknownCommand word listPage.path))
  let s ← setup h a.options
  printText h (listing s.catalog s.languages ++ "\n")

/-- Runs the command that arguments call. What is returned is to be run again whenever its input
changes. -/
def run (arguments : List String) : Task m (Option Plan) := do
  let builtin ← Languages.ofCatalog (← Catalog.ofDraft Catalog.builtin)
  let flags := outputFlags builtin.writers.keys ++ sharedFlags
  let (verb, rest) := Verb.find flags arguments
  let page := verb.page builtin
  let a ← (Arguments.parse (page.flags ++ page.shared) rest).mapError misuse
  if a.options.help then
    printText h page.text
    return none
  match verb with
  | .generate => runGenerate h a
  | .list =>
    runList h a
    return none
  | .help =>
    printText h ((Verb.find flags a.operands).1.page builtin).text
    return none
  | .completion =>
    printText h page.text
    return none

end Schemata.Command
