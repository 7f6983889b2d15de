import Schemata.Hcl.Cursor
import Schemata.Text.Blank
import Schemata.Text.Grapheme

/-!
The parts of a template and how directives group them.
-/

namespace Schemata.Hcl

open Text

/-- A part of a template, directives still flat. -/
inductive Part where
  | text (place : Place) (s : List Char)
  | interpolation (e : Expression)
  | ifStart (place : Place) (condition : Expression)
  | forStart (place : Place) (keyName valueName : String) (source : Expression)
  | elseMark (place : Place)
  | ifEnd (place : Place)
  | forEnd (place : Place)

def trimLeft (cs : List Char) : List Char := cs.dropWhile isBlank

def trimRight (cs : List Char) : List Char := (cs.reverse.dropWhile isBlank).reverse

/-! ### Heredocs without their indentation -/

/-- How many blanks begin each line, for the lines that count: empty lines do not. `fresh` tells
that a line begins. -/
def indentations (fresh : Bool) : List Part → List Nat
  | [] => []
  | part :: rest =>
    match part with
    | .text _ s =>
      let body := trimLeft s
      let more := indentations (s.getLast? == some '\n') rest
      if fresh ∧ !(body.isEmpty ∧ s.getLast? = some '\n') then
        columns (s.take (s.length - body.length)) :: more
      else more
    | _ => if fresh then 0 :: indentations false rest else indentations false rest

/-- Takes blanks away from the beginning of each line that counts. -/
def dedent (n : Nat) (fresh : Bool) : List Part → List Part
  | [] => []
  | part :: rest =>
    match part with
    | .text place s =>
      let body := trimLeft s
      let more := dedent n (s.getLast? == some '\n') rest
      if fresh ∧ !(body.isEmpty ∧ s.getLast? = some '\n') then
        .text { place with column := place.column + n } ((clusters s).drop n).flatten :: more
      else part :: more
    | _ => part :: dedent n false rest

/-- The parts without the indentation that all lines share. -/
def flushed (parts : List Part) : List Part :=
  match (indentations true parts).min? with
  | some n => dedent n true parts
  | none => parts

def melded : List Part → List Part
  | .text p s :: rest =>
    match melded rest with
    | .text _ t :: more => .text p (s ++ t) :: more
    | more => .text p s :: more
  | part :: rest => part :: melded rest
  | [] => []

/-! ### Directives -/

/-- A template made of parts, at the place of the first of them. -/
def templateOf (place : Place) : List Expression → Expression
  | [] => .template place [.literal place (.text "")]
  | e :: es => .template e.place (e :: es)

mutual

/-- The first part with all that belongs to it; `last` is where the template ends. -/
def group (fuel : Nat) (last : Place) (part : Part) (rest : List Part) :
    Parse (Expression × List Part) := do
  match fuel with
  | 0 => return (.broken last, [])
  | fuel + 1 =>
    match part with
    | .text place s => return (.literal place (.text (String.ofList s)), rest)
    | .interpolation e => return (e, rest)
    | .elseMark p | .ifEnd p | .forEnd p =>
      fault p
      return (.broken p, rest)
    | .ifStart place condition => groupIf fuel last place condition none [] rest
    | .forStart place keyName valueName source =>
      groupFor fuel last place keyName valueName source [] rest

/-- The branches of a condition. `yes` is the first branch when the second is being read; `done`
are the expressions of the branch being read, reversed. -/
def groupIf (fuel : Nat) (last place : Place) (condition : Expression)
    (yes : Option (List Expression)) (done : List Expression) (rest : List Part) :
    Parse (Expression × List Part) := do
  match fuel with
  | 0 => return (.broken last, [])
  | fuel + 1 =>
    match rest with
    | [] =>
      fault last
      return (.broken last, [])
    | .elseMark p :: rest =>
      match yes with
      | none => groupIf fuel last place condition (some done.reverse) [] rest
      | some _ =>
        fault p
        return (.broken p, rest)
    | .ifEnd _ :: rest =>
      let (first, second) := match yes with
        | some es => (es, done.reverse)
        | none => (done.reverse, [])
      return (.conditional place condition (templateOf place first) (templateOf place second),
        rest)
    | .forEnd p :: rest =>
      fault p
      return (.broken p, rest)
    | part :: rest =>
      let (e, rest) ← group fuel last part rest
      groupIf fuel last place condition yes (e :: done) rest

def groupFor (fuel : Nat) (last place : Place) (keyName valueName : String)
    (source : Expression) (done : List Expression) (rest : List Part) :
    Parse (Expression × List Part) := do
  match fuel with
  | 0 => return (.broken last, [])
  | fuel + 1 =>
    match rest with
    | [] =>
      fault last
      return (.broken last, [])
    | .forEnd _ :: rest =>
      return (.joined (.comprehension place keyName valueName source none
        (templateOf place done.reverse) none false), rest)
    | .elseMark p :: rest | .ifEnd p :: rest =>
      fault p
      return (.broken p, rest)
    | part :: rest =>
      let (e, rest) ← group fuel last part rest
      groupFor fuel last place keyName valueName source (e :: done) rest

end

def groupAll (fuel : Nat) (last : Place) (parts : List Part) : Parse (List Expression) := do
  match fuel, parts with
  | fuel + 1, part :: rest =>
    let (e, rest) ← group (2 * rest.length + 2) last part rest
    return e :: (← groupAll fuel last rest)
  | _, _ => return []

end Schemata.Hcl
