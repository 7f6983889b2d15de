import Schemata.Command.Options
import Schemata.Failure

/-!
Arguments taken apart into flags and operands. Flags may stand anywhere before two dashes; behind
those every argument is an operand.
-/

namespace Schemata.Command

open Text

inductive Misuse where
  | unknownFlag (name : String)
  | unknownLetter (letter : Char) (letters : String)
  | missingValue (name : String)
  | malformedFlag (argument : String)
  | refusedValue (value title reason : String)
  | tooManyOperands (limit count : Nat)
  | unknownCommand (name command : String)
deriving DecidableEq, Repr

def quotedLetter (c : Char) : String :=
  if c = '\'' then "'\\''"
  else if c = '"' then "'\"'"
  else "'" ++ String.ofList (Quoted.escape c) ++ "'"

def Misuse.message : Misuse → String
  | .unknownFlag name => "unknown flag: --" ++ name
  | .unknownLetter c letters => "unknown shorthand flag: " ++ quotedLetter c ++ " in -" ++ letters
  | .missingValue name => "flag needs an argument: --" ++ name
  | .malformedFlag argument => "bad flag syntax: " ++ argument
  | .refusedValue value title reason =>
    "invalid argument " ++ quote value ++ " for " ++ quote title ++ " flag: " ++ reason
  | .tooManyOperands limit count => s!"accepts at most {limit} arg(s), received {count}"
  | .unknownCommand name command =>
    "unknown command " ++ quote name ++ " for " ++ quote command

structure Arguments where
  options : Options := {}
  operands : List String := []
deriving Repr

namespace Arguments

variable (flags : List Flag)

def flagNamed? (name : String) : Option Flag := flags.find? (·.name == name)

def flagLettered? (c : Char) : Option Flag := flags.find? (·.short == some c)

def set (a : Arguments) (f : Flag) (value : String) : Except Misuse Arguments :=
  match a.options.set f.setting value with
  | .ok options => .ok { a with options }
  | .error reason => .error (.refusedValue value f.title reason)

/-- A letter as messages name it. One that is no ASCII character is named by its first byte. -/
def named (c : Char) : Char := Char.ofNat ((String.utf8EncodeChar c).headD 0).toNat

/-- The letters behind a dash, one flag each. An equals sign behind the first letter gives it the
rest as its value. -/
def takeLetters (flags : List Flag) (a : Arguments) : List Char → Except Misuse Arguments
  | [] => .ok a
  | c :: rest =>
    match flagLettered? flags c with
    | none => .error (.unknownLetter (named c) (String.ofList (c :: rest)))
    | some f =>
      match rest with
      | '=' :: v :: value => a.set f (String.ofList (v :: value))
      | rest => do takeLetters flags (← a.set f (f.implied?.getD "")) rest

/-- A name and what stands behind its first equals sign. -/
def splitValue (cs : List Char) : String × Option String :=
  let name := String.ofList (cs.takeWhile (· != '='))
  match cs.dropWhile (· != '=') with
  | [] => (name, none)
  | _ :: value => (name, some (String.ofList value))

/-- Takes arguments in from the first one on. -/
def takeFrom (flags : List Flag) (a : Arguments) : List String → Except Misuse Arguments
  | [] => .ok a
  | argument :: rest =>
    match argument.toList with
    | ['-', '-'] => .ok { a with operands := a.operands ++ rest }
    | '-' :: '-' :: c :: cs =>
      if c = '-' ∨ c = '=' then .error (.malformedFlag argument)
      else
        let (name, value) := splitValue (c :: cs)
        match flagNamed? flags name with
        | none => .error (.unknownFlag name)
        | some f =>
          match value, f.implied? with
          | some v, _ | none, some v => do takeFrom flags (← a.set f v) rest
          | none, none =>
            match rest with
            | [] => .error (.missingValue name)
            | v :: rest => do takeFrom flags (← a.set f v) rest
    | '-' :: c :: cs => do takeFrom flags (← a.takeLetters flags (c :: cs)) rest
    | _ => takeFrom flags { a with operands := a.operands ++ [argument] } rest

def parse (arguments : List String) : Except Misuse Arguments :=
  takeFrom flags {} arguments

/-! ### Finding the command

The command is looked for before flags are known to be right, so a flag that is not known counts
as one with a value behind it. -/

def hasValueBehind (argument : String) : Bool :=
  let alone (f : Option Flag) : Bool := (f.bind (·.implied?)).isSome
  match argument.toList with
  | '-' :: '-' :: cs => !cs.contains '=' && !alone (flagNamed? flags (String.ofList cs))
  | ['-', c] => c != '=' && c.toNat < 128 && !alone (flagLettered? flags c)
  | _ => false

/-- The first argument that is no flag and no value of one. A flag whose value would be the last
argument ends the search. -/
def firstWord? (flags : List Flag) : List String → Option String
  | [] => none
  | argument :: rest =>
    if argument = "--" then none
    else if hasValueBehind flags argument then
      match rest with
      | _ :: next :: rest => firstWord? flags (next :: rest)
      | _ => none
    else if argument.isEmpty || argument.toList.head? == some '-' then firstWord? flags rest
    else some argument

def dropWord (flags : List Flag) (word : String) : List String → List String
  | [] => []
  | argument :: rest =>
    if argument = "--" then argument :: rest
    else if hasValueBehind flags argument then
      match rest with
      | [] => [argument]
      | value :: rest => argument :: value :: dropWord flags word rest
    else if argument = word then rest
    else argument :: dropWord flags word rest

end Arguments

end Schemata.Command
