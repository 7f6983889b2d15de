import Schemata.Proofs.GoSyntax.TypeParsing

/-!
What is read from a type depends on its form alone. Where no types are declared, every form with
proper lengths is accepted: names and selectors are looked up among those known, slices of bytes
are taken as bytes, and maps to empty structs as sets.
-/

namespace Schemata.GoSyntax

def TypeForm.isByte : TypeForm → Bool
  | .name text => text == "byte" || text == "uint8"
  | _ => false

/-- The schema type of a form where no types are declared. -/
def TypeForm.read : TypeForm → TypeExpr
  | .name text =>
    match builtins.lookup text with
    | some k => .prim k
    | none => if text = "any" then .opaqueText "any" else .ref text
  | .qualified package text =>
    match knownTypes.lookup (package ++ "." ++ text) with
    | some k => .prim k
    | none => .opaqueText (package ++ "." ++ text)
  | .pointer elem => .indirection .pointer elem.read
  | .slice elem => if elem.isByte then .prim .bytes else .container .list [elem.read]
  | .array length elem => .generic .array [elem.read] length
  | .map key value =>
    if value = .empty then .container .set [key.read] else .container .map [key.read, value.read]
  | .empty => .inline { isAnonymous := true }

variable {e : Expr} {g : TypeForm}

theorem Denotes.isByte_eq (h : Denotes e g) : isByte e = g.isByte := by
  cases h <;> rfl

theorem Denotes.isEmptyStruct_eq (h : Denotes e g) : isEmptyStruct e = decide (g = .empty) := by
  cases h <;> simp [isEmptyStruct, fieldCount]

/-- Reading an expression of a form, with fuel for its depth. -/
theorem typeOf_of_denotes (h : Denotes e g) (hg : g.IsLegal) {fuel : Nat}
    (hfuel : e.depth ≤ fuel) : typeOf {} fuel e = pure g.read := by
  induction h generalizing fuel with
  | @name id =>
    obtain ⟨n, rfl⟩ : ∃ n, fuel = n + 1 := ⟨fuel - 1, by simp [Expr.depth] at hfuel; omega⟩
    have hnone : Scope.type? {} id.name = none := rfl
    simp only [typeOf, TypeForm.read, hnone]
    cases builtins.lookup id.name with
    | some k => rfl
    | none => exact (apply_ite pure _ _ _).symm
  | @qualified x id =>
    obtain ⟨n, rfl⟩ : ∃ n, fuel = n + 1 := ⟨fuel - 1, by simp [Expr.depth] at hfuel; omega⟩
    simp only [typeOf, TypeForm.read, Expr.typeName]
    cases knownTypes.lookup (x.name ++ "." ++ id.name) <;> rfl
  | pointer h ih =>
    rw [Expr.depth] at hfuel
    obtain ⟨n, rfl⟩ : ∃ n, fuel = n + 1 := ⟨fuel - 1, by omega⟩
    rw [typeOf, ih hg (by omega), pure_bind, TypeForm.read]
  | slice h ih =>
    rw [Expr.depth] at hfuel
    obtain ⟨n, rfl⟩ : ∃ n, fuel = n + 1 := ⟨fuel - 1, by omega⟩
    rw [typeOf, ih hg (by omega), h.isByte_eq, pure_bind, TypeForm.read]
    split <;> rfl
  | array hlength h ih =>
    rw [Expr.depth] at hfuel
    obtain ⟨n, rfl⟩ : ∃ n, fuel = n + 1 := ⟨fuel - 1, by omega⟩
    simp only [typeOf, hlength]
    rw [if_neg (Int64.not_le.mpr hg.1), ih hg.2 (by omega), pure_bind, TypeForm.read]
  | map hkey hvalue ihkey ihvalue =>
    rw [Expr.depth] at hfuel
    obtain ⟨n, rfl⟩ : ∃ n, fuel = n + 1 := ⟨fuel - 1, by omega⟩
    rw [typeOf, ihkey hg.1 (by omega), ihvalue hg.2 (by omega), hvalue.isEmptyStruct_eq,
      pure_bind, pure_bind, TypeForm.read]
    split <;> simp_all
  | empty =>
    rw [Expr.depth] at hfuel
    obtain ⟨n, rfl⟩ : ∃ n, fuel = n + 1 := ⟨fuel - 1, by omega⟩
    rfl

theorem readType_of_denotes (h : Denotes e g) (hg : g.IsLegal) :
    readType {} e = pure g.read := typeOf_of_denotes h hg (Nat.le_add_right _ _)

end Schemata.GoSyntax
