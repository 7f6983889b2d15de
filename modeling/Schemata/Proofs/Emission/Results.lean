import Mathlib
import Schemata.Emission.Writer

/-!
What comes of an emission: the parts that its text shows, the result that it yields, and the
numbers that it hands out on the way.
-/

namespace Schemata.Emission

open List

/-! ### Parts of a text -/

/-- Whatever was emitted before, the text has this part. -/
def Shows (part : String) (e : Emit String) : Prop :=
  ∀ s, part.toList <:+: (StateT.run e s).1.toList

/-- Whatever was emitted before, the result is this one. -/
def Yields {α : Type} (a : α) (e : Emit α) : Prop := ∀ s, (StateT.run e s).1 = a

variable {α : Type} {part : String}

theorem Shows.of_eq (before after : String) {text : String} (h : text = before ++ part ++ after) :
    Shows part (pure text) := by
  intro s
  refine ⟨before.toList, after.toList, ?_⟩
  rw [← String.toList_append, ← String.toList_append, ← h]
  rfl

theorem Shows.bind {e : Emit α} {f : α → Emit String} (hf : ∀ a, Shows part (f a)) :
    Shows part (e >>= f) := by
  intro s
  exact hf (StateT.run e s).1 (StateT.run e s).2

theorem Yields.pure (a : α) : Yields a (Pure.pure a : Emit α) := fun _ => rfl

theorem Yields.bind {β : Type} {a : α} {b : β} {e : Emit α} {f : α → Emit β} (he : Yields a e)
    (hf : Yields b (f a)) : Yields b (e >>= f) := by
  intro s
  have hthen := hf (StateT.run e s).2
  rw [← he s] at hthen
  exact hthen

theorem Yields.shows {a : α} {e : Emit α} {f : α → Emit String} (he : Yields a e)
    (hf : Shows part (f a)) : Shows part (e >>= f) := by
  intro s
  have hthen := hf (StateT.run e s).2
  rw [← he s] at hthen
  exact hthen

theorem infix_front {p a b : String} (h : p.toList <:+: a.toList) :
    p.toList <:+: (a ++ b).toList := by
  rw [String.toList_append]
  exact h.trans (prefix_append _ _).isInfix

theorem infix_back {p a b : String} (h : p.toList <:+: b.toList) :
    p.toList <:+: (a ++ b).toList := by
  rw [String.toList_append]
  exact h.trans (suffix_append _ _).isInfix

/-- A text shows what its head shows. -/
theorem Shows.head {e rest : Emit String} (he : Shows part e) :
    Shows part (do
      let text ← e
      return text ++ (← rest)) := fun s => infix_front (he s)

theorem Shows.tail {e rest : Emit String} (hrest : Shows part rest) :
    Shows part (do
      let text ← e
      return text ++ (← rest)) := fun s => infix_back (hrest (StateT.run e s).2)

theorem Shows.opening {opening body closing : Emit String} (h : Shows part opening) :
    Shows part (do
      let first ← opening
      let text ← body
      let last ← closing
      return first ++ text ++ last) := fun s => infix_front (infix_front (h s))

theorem Shows.body {opening body closing : Emit String} (h : Shows part body) :
    Shows part (do
      let first ← opening
      let text ← body
      let last ← closing
      return first ++ text ++ last) :=
  fun s => infix_front (infix_back (h (StateT.run opening s).2))

/-! ### Numbers -/

/-- With `n` numbers handed out so far, the result is `a`, and then there are `n'`. -/
def Counts {α : Type} (n : Nat) (a : α) (n' : Nat) (e : Emit α) : Prop :=
  ∀ s : State, s.count = n → (StateT.run e s).1 = a ∧ (StateT.run e s).2.count = n'

section

variable {α β : Type} {n n' n'' : Nat} {a : α} {b : β}

theorem Counts.pure (a : α) : Counts n a n (Pure.pure a : Emit α) := fun _ hs => ⟨rfl, hs⟩

theorem Counts.bind {e : Emit α} {f : α → Emit β} (he : Counts n a n' e)
    (hf : Counts n' b n'' (f a)) : Counts n b n'' (e >>= f) := by
  intro s hs
  obtain ⟨hresult, hcount⟩ := he s hs
  have hthen := hf (StateT.run e s).2 hcount
  rw [← hresult] at hthen
  exact hthen

theorem counts_scan (known : List (String × String)) (text : String) :
    Counts n text n (scan known text) := fun _ hs => ⟨rfl, hs⟩

theorem counts_warn (code : Code) (message target path : String) :
    Counts n () n (warn code message target path) := fun _ hs => ⟨rfl, hs⟩

theorem counts_report (target : String) (l : Lowered) : Counts n l.text n (report target l) :=
  fun _ hs => ⟨rfl, hs⟩

theorem counts_dropped {keep : Member → Bool} {m : Member} (hkeep : keep m = false)
    (what target : String) (c : Context) :
    Counts n (some "") n (dropMembers keep what target m c) := by
  rw [dropMembers, hkeep]
  exact (counts_warn _ _ _ _).bind (.pure _)

theorem counts_nextNumber : Counts n (n + 1) (n + 1) nextNumber := by
  intro s hs
  subst hs
  exact ⟨rfl, rfl⟩

theorem counts_resetCount : Counts n () 0 resetCount := fun _ _ => ⟨rfl, rfl⟩

/-- What always has this result, however many numbers were handed out before. -/
theorem Counts.yields {e : Emit α} (h : ∀ n, ∃ n', Counts n a n' e) : Yields a e := by
  intro s
  obtain ⟨n', hcounts⟩ := h s.count
  exact (hcounts s rfl).1

end

end Schemata.Emission
