import Schemata.Normal.Flatten
import Schemata.Normal.Lift

/-!
What the passes report about. Flattening reports names it could not use and inline types it had
to leave, lifting names it could not use and alternatives without a type, and nothing else. Each
step of a pass keeps the reports within these codes, so a whole pass does.
-/

namespace Schemata

variable {code : Code} {l : Lifting}

/-- Every report has one of these codes. -/
def Diagnostics.Only (codes : List Code) (ds : Diagnostics) : Prop :=
  ∀ d ∈ ds.toList, d.code ∈ codes

namespace Diagnostics.Only

variable {codes : List Code} {ds : Diagnostics}

theorem empty (codes : List Code) : Only codes {} := by
  intro d hd
  cases hd

theorem warn (h : ds.Only codes) (hcode : code ∈ codes) (message target path : String) :
    (ds.warn code message target path).Only codes := by
  simp only [Only, Diagnostics.warn, add, toList, List.mem_append, List.mem_singleton] at h ⊢
  rintro d ((hd | hd | rfl) | hd)
  · exact h d (.inl (.inl hd))
  · exact h d (.inl (.inr hd))
  · exact hcode
  · exact h d (.inr hd)

theorem note (h : ds.Only codes) (hcode : code ∈ codes) (message target path : String) :
    (ds.note code message target path).Only codes := by
  simp only [Only, Diagnostics.note, add, toList, List.mem_append, List.mem_singleton] at h ⊢
  rintro d ((hd | hd) | hd | rfl)
  · exact h d (.inl (.inl hd))
  · exact h d (.inl (.inr hd))
  · exact h d (.inr hd)
  · exact hcode

theorem append {codes' : List Code} {ds' : Diagnostics} (h : ds.Only codes)
    (h' : ds'.Only codes') : (ds ++ ds').Only (codes ++ codes') := by
  have happend : ds ++ ds' = ds.append ds' := rfl
  simp only [Only, happend, Diagnostics.append, toList, List.mem_append] at h h' ⊢
  intro d hd
  by_cases hleft : (d ∈ ds.errors ∨ d ∈ ds.warnings) ∨ d ∈ ds.infos
  · exact .inl (h d hleft)
  · refine .inr (h' d ?_)
    simp only [not_or] at hleft
    simpa [hleft] using hd

/-- No report has a code that is spelled like none of these. -/
theorem withCode_eq_nil (h : ds.Only codes) (hcode : ∀ c ∈ codes, c.name ≠ code.name) :
    ds.withCode code = [] := by
  rw [withCode, List.filter_eq_nil_iff]
  intro d hd
  rw [beq_iff_eq]
  exact hcode d.code (h d hd)

end Diagnostics.Only

namespace Normal

open Naming

/-! ### Flattening -/

def flattenCodes : List Code := [.nameCollision, .anonymousInline]

abbrev Hoisting.Reporting (h : Hoisting) : Prop := h.diagnostics.Only flattenCodes

namespace Hoisting.Reporting

theorem claim {h : Hoisting} (hh : h.Reporting) (name path : String) :
    (h.claim name path).2.Reporting := by
  simp only [Hoisting.claim]
  split
  · exact hh
  · exact hh.note (by decide) _ _ _

theorem reportBodiless {h : Hoisting} (hh : h.Reporting) (path : String) :
    (h.reportBodiless path).Reporting :=
  hh.warn (by decide) _ _ _

end Hoisting.Reporting

/-! ### Lifting -/

def liftCodes : List Code := [.nameCollision, .typelessAlternative]

abbrev Lifting.Reporting (l : Lifting) : Prop := l.diagnostics.Only liftCodes

namespace Lifting.Reporting

theorem enumName (hl : l.Reporting) (owner member path : String) :
    (l.enumName owner member path).2.Reporting := by
  simp only [Lifting.enumName]
  split
  · exact hl.note (by decide) _ _ _
  · exact hl

theorem payload (hl : l.Reporting) (path : String) (t : TypeExpr) :
    (l.payload path t).2.Reporting := by
  cases t with
  | missing => exact hl.warn (by decide) _ _ _
  | _ => exact hl

theorem variantValues (hl : l.Reporting) (path : String) (i : Nat) (ts : List TypeExpr) :
    (Lifting.variantValues path i ts l).2.Reporting := by
  induction ts generalizing i l with
  | nil => exact hl
  | cons t ts ih => exact ih (hl.payload _ t) (i + 1)

theorem alternativeValues (hl : l.Reporting) (path : String) (i : Nat) (alts : List Alternative) :
    (Lifting.alternativeValues path i alts l).2.Reporting := by
  induction alts generalizing i l with
  | nil => exact hl
  | cons a alts ih => exact ih (hl.payload _ a.type) (i + 1)

theorem liftVariant (hl : l.Reporting) (owner : String) (namespaces : List String) (name : String)
    (t : TypeExpr) : (liftVariant owner namespaces name t l).2.Reporting := by
  rw [Normal.liftVariant]
  split
  · exact hl
  · exact (hl.enumName owner name _).variantValues _ 0 _

end Lifting.Reporting

end Normal

end Schemata
