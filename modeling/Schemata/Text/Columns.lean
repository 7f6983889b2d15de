/-!
Texts in columns. Every row has cells; neighbouring rows that both have a cell in a column, and
something behind it, have that column equally wide.
-/

namespace Schemata.Text

def padTo (width : Nat) (s : String) : String :=
  s ++ String.ofList (List.replicate (width - s.length) ' ')

/-- The width of a column of cells: one more than the widest, nothing when all are empty. -/
def columnWidth (cells : List String) : Nat :=
  if cells.all (·.isEmpty) then 0 else (cells.foldl (fun w c => max w c.length) 0) + 1

/-- The lines of rows in columns; the number bounds the cells of a row. -/
def alignedWithin : Nat → List (List String) → List String
  | 0, rows => rows.map String.join
  | n + 1, rows =>
    let hasColumn (row : List String) : Bool := row.length > 1
    (rows.splitBy fun a b => hasColumn a == hasColumn b).flatMap fun run =>
      if run.any hasColumn then
        let heads := run.map (·.headD "")
        List.zipWith (· ++ ·) (heads.map (padTo (columnWidth heads)))
          (alignedWithin n (run.map (·.drop 1)))
      else run.map String.join

def aligned (rows : List (List String)) : List String :=
  alignedWithin (rows.foldl (fun n row => max n row.length) 0) rows

end Schemata.Text
