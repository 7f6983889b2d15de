import Schemata.Language

/-!
The languages of a run as a table: what can be read and written under each key, and what its
target says.
-/

namespace Schemata.Command

open Text

/-- Rows as lines whose cells stand in columns with bars between them. -/
def tableText (rows : List (List String)) : String :=
  let width (i : Nat) : Nat := rows.foldl (fun n row => max n (row.getD i "").length) 0
  let line (row : List String) : String :=
    String.intercalate " | " (row.zipIdx.map fun (cell, i) => padTo (width i) cell)
  String.join (rows.map fun row => line row ++ "\n")

def mark (b : Bool) : String := if b then "yes" else "-"

def allKeys (l : Languages) : List String :=
  ((l.readers.keys ++ l.writers.keys).eraseDups).mergeSort (· ≤ ·)

def listingRow (c : Catalog) (l : Languages) (key : String) : List String :=
  let facts := match c.find? key with
    | some t => [t.fileExt, toString t.flatten, toString t.lift]
    | none => ["", "", ""]
  [key, mark (l.readers.has key), mark (l.writers.has key)] ++ facts

def listing (c : Catalog) (l : Languages) : String :=
  tableText (["NOTATION", "READ", "WRITE", "EXTENSION", "FLATTEN", "LIFT"] ::
    (allKeys l).map (listingRow c l))

end Schemata.Command
