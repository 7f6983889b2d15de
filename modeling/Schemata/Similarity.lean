import Schemata.Naming.Words

/-!
How close two names are, and which known names to suggest for a misspelt one. Closeness is the
number of single-character edits between the normalized names.
-/

namespace Schemata

open Naming

namespace EditDistance

/-- One row of the table of distances: `row` holds the distances from the prefixes of `a` to some
text, the result those to that text with `c` after it; `left` is the entry just computed and
`diagonal` the one above it. -/
def nextRowFrom (c : Char) : List Char → (left diagonal : Nat) → List Nat → List Nat
  | x :: xs, left, diagonal, above :: row =>
    let here := min (min (above + 1) (left + 1)) (diagonal + if x = c then 0 else 1)
    here :: nextRowFrom c xs here above row
  | _, _, _, _ => []

/-- The row after one more character of the second text. -/
def nextRow (a : List Char) (c : Char) : List Nat → List Nat
  | [] => []
  | first :: row => (first + 1) :: nextRowFrom c a (first + 1) first row

/-- The distances from the prefixes of `a` to the whole of `b`. -/
def lastRow (a b : List Char) : List Nat :=
  b.foldl (fun row c => nextRow a c row) (List.range (a.length + 1))

/-- The least number of insertions, deletions and substitutions that turn `a` into `b`. Rows are
kept for the shorter text. -/
def distance (a b : List Char) : Nat :=
  if a = b then 0
  else if a = [] then b.length
  else if b = [] then a.length
  else if b.length < a.length then (lastRow b a).getLastD 0
  else (lastRow a b).getLastD 0

end EditDistance

def editDistance (a b : String) : Nat := EditDistance.distance a.toList b.toList

structure Share where
  part : Nat
  whole : Nat
deriving DecidableEq, Repr

/-- The share as a decimal with six places; a half goes to the even neighbour. -/
def Share.sixPlaces (s : Share) : String :=
  let scaled := s.part * 1000000
  let quotient := scaled / s.whole
  let twice := 2 * (scaled % s.whole)
  let rounded :=
    if twice > s.whole ∨ (twice = s.whole ∧ quotient % 2 = 1) then quotient + 1 else quotient
  let decimals := toString (rounded % 1000000)
  s!"{rounded / 1000000}." ++ "".pushn '0' (6 - decimals.length) ++ decimals

/-- One less the edit distance of the normalized names over the longer length; one when both are
empty. -/
def similarity (a b : String) : Share :=
  let a := normalize a
  let b := normalize b
  let longest := max a.length b.length
  if longest = 0 then ⟨1, 1⟩ else ⟨longest - editDistance a b, longest⟩

/-- How far a candidate may be from a wanted name to be suggested, unless said otherwise. -/
def defaultReach : Int := 2

/-- The candidates other than `key` within `reach` edits of it, nearest first and then by name. -/
def suggest (key : String) (candidates : List String) (reach : Int) : List String :=
  let wanted := normalize key
  let scored := candidates.filterMap fun c =>
    let d := editDistance wanted (normalize c)
    if c != key && (d : Int) ≤ reach then some (d, c) else none
  (scored.mergeSort fun x y => x.1 < y.1 || (x.1 == y.1 && x.2 ≤ y.2)).map (·.2)

end Schemata
