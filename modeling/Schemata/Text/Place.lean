/-!
Places in texts. Lines and columns count from one and are zero when unknown.
-/

namespace Schemata.Text

structure Place where
  line : Nat := 0
  column : Nat := 0
deriving DecidableEq, Repr, Inhabited

def Place.isBefore (p q : Place) : Bool :=
  p.line < q.line || (p.line == q.line && p.column < q.column)

end Schemata.Text
