import Mathlib
import Schemata.Catalog.Builtin
import Schemata.Catalog.Reading

/-!
The built-in targets make a catalog. Checking goes through targets and kinds in the order of
their names and stops at the first fault, so that a draft passes when no target, no row and no
style of it has one, in whatever order they stand.
-/

namespace Schemata.Catalog

theorem forM_eq_ok {α : Type} {f : α → Except Fault Unit} {xs : List α} :
    xs.forM f = .ok () ↔ ∀ x ∈ xs, f x = .ok () := by
  induction xs with
  | nil => simp [List.forM, pure, Except.pure]
  | cons x xs ih =>
    change (f x >>= fun _ => xs.forM f) = .ok () ↔ _
    rw [List.forall_mem_cons, ← ih]
    cases f x with
    | error fault => simp [bind, Except.bind]
    | ok u => simp [bind, Except.bind]

theorem mem_sorted {α : Type} {entries : List (String × α)} {entry : String × α} :
    entry ∈ sorted entries ↔ entry ∈ entries := by
  rw [sorted, List.mem_mergeSort]

/-- A target has a key, rows whose templates ask only for arguments they get, and known styles. -/
structure TargetDraft.IsSound (key : String) (t : TargetDraft) : Prop where
  key_ne : key.isEmpty = false
  rows : ∀ row ∈ t.rows, checkRow key row = .ok ()
  naming : ∀ role ∈ t.naming.roles, role.2.isValid = true

instance (key : String) (t : TargetDraft) : Decidable (t.IsSound key) :=
  decidable_of_iff
    (key.isEmpty = false ∧ (∀ row ∈ t.rows, checkRow key row = .ok ()) ∧
      ∀ role ∈ t.naming.roles, role.2.isValid = true)
    ⟨fun h => ⟨h.1, h.2.1, h.2.2⟩, fun h => ⟨h.key_ne, h.rows, h.naming⟩⟩

theorem TargetDraft.IsSound.check_eq_ok {key : String} {t : TargetDraft} (h : t.IsSound key) :
    t.check key = .ok () := by
  have hrows : (sorted t.rows).forM (checkRow key) = .ok () :=
    forM_eq_ok.mpr fun row hrow => h.rows row (mem_sorted.mp hrow)
  rw [TargetDraft.check, h.key_ne, hrows]
  exact forM_eq_ok.mpr fun role hrole => if_pos (h.naming role hrole)

theorem Draft.check_eq_ok {d : Draft} (h : ∀ entry ∈ d.targets, entry.2.IsSound entry.1) :
    d.check = .ok () :=
  forM_eq_ok.mpr fun entry hentry => (h entry (mem_sorted.mp hentry)).check_eq_ok

theorem builtin_sound : ∀ entry ∈ builtin.targets, entry.2.IsSound entry.1 := by
  decide +kernel

def ofBuiltin : Catalog where
  version := builtin.version
  targets := builtin.targets.map fun (key, t) => (key, t.build key)

theorem ofDraft_builtin : ofDraft builtin = .ok ofBuiltin := by
  rw [ofDraft, Draft.build, Draft.check_eq_ok builtin_sound]
  rfl

end Schemata.Catalog
