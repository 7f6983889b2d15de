import Schemata.Proofs.Normal.Hoisting
import Schemata.Proofs.Normal.Lifting

/-!
Claims of names. Each of them gives out a name that is free and takes it, and does nothing else to
the names in use. So a sequence of claims never gives out a name twice, even when one asks for what
an earlier one made of its name by a number.
-/

namespace Schemata.Normal

open List Naming

/-- A call gives out a name for a request and takes it, and the other names stay as they were. -/
structure Claimed (taken : List String) (name given : String) (left : List String) : Prop where
  fresh : GivenFor taken name given
  left : ∀ n, n ∈ left ↔ n = given ∨ n ∈ taken

theorem GivenFor.claimed {taken : List String} {name given : String}
    (h : GivenFor taken name given) : Claimed taken name given (given :: taken) :=
  ⟨h, fun _ => mem_cons⟩

theorem claimed_claim (h : Hoisting) (name path : String) :
    Claimed h.taken name (h.claim name path).1 (h.claim name path).2.taken := by
  have htaken : (h.claim name path).2.taken = (h.claim name path).1 :: h.taken :=
    congrArg Supply.taken (claim_supply h name path)
  rw [htaken]
  exact (givenFor_freshName h.taken name).claimed

/-- What the enum for a member asks for: the member's name, behind the owner's when it is taken. -/
def wantedName (taken : List String) (owner member : String) : String :=
  if pascalCase member ∈ taken then owner ++ pascalCase member else pascalCase member

theorem claimed_enumName (l : Lifting) (owner member path : String) :
    Claimed l.taken (wantedName l.taken owner member) (l.enumName owner member path).1
      (l.enumName owner member path).2.taken := by
  simp only [wantedName, Lifting.enumName, contains_iff_mem]
  split
  next => exact (givenFor_freshName l.taken _).claimed
  next hfree => exact GivenFor.claimed ⟨hfree, fun _ => rfl, fun h => absurd h hfree⟩

/-- Calls one after the other, each on the state that the one before left, and the names that they
give out. -/
def callEach {σ : Type} : List (σ → String × σ) → σ → List String × σ
  | [], s => ([], s)
  | call :: calls, s =>
    let rest := callEach calls (call s).2
    ((call s).1 :: rest.1, rest.2)

/-- Whatever the calls ask for, no name is given out twice or was in use before. -/
theorem callEach_unused {σ : Type} (taken : σ → List String) {calls : List (σ → String × σ)}
    (hcalls : ∀ call ∈ calls, ∀ s, ∃ name, Claimed (taken s) name (call s).1 (taken (call s).2))
    (s : σ) : Unused (taken s) (callEach calls s).1 ∧
      ∀ n, n ∈ taken (callEach calls s).2 ↔ n ∈ (callEach calls s).1 ∨ n ∈ taken s := by
  induction calls generalizing s with
  | nil => exact ⟨.nil _, by simp [callEach]⟩
  | cons call calls ih =>
    rw [forall_mem_cons] at hcalls
    obtain ⟨name, hfirst⟩ := hcalls.1 s
    obtain ⟨hrest, hleft⟩ := ih hcalls.2 (call s).2
    have hnew : ∀ n ∈ (callEach calls (call s).2).1, n ≠ (call s).1 ∧ n ∉ taken s := by
      intro n hn
      rw [← not_or, ← hfirst.left]
      exact hrest.free n hn
    refine ⟨⟨nodup_cons.mpr ⟨fun h => (hnew _ h).1 rfl, hrest.nodup⟩, ?_⟩, fun n => ?_⟩
    · exact forall_mem_cons.mpr ⟨hfirst.fresh.free, fun n hn => (hnew n hn).2⟩
    · rw [callEach, hleft, hfirst.left, mem_cons]
      exact or_left_comm.trans (or_assoc).symm

/-- Both passes give out names that are free, as near to the ones they ask for as can be, and a
sequence of requests never gets a name twice. -/
theorem claims_fresh_least_distinct :
    (∀ (h : Hoisting) (name path : String),
      Claimed h.taken name (h.claim name path).1 (h.claim name path).2.taken) ∧
    (∀ (l : Lifting) (owner member path : String),
      Claimed l.taken (wantedName l.taken owner member) (l.enumName owner member path).1
        (l.enumName owner member path).2.taken) ∧
    (∀ (h : Hoisting) (requests : List (String × String)),
      let run := callEach (requests.map fun r h => h.claim r.1 r.2) h
      Unused h.taken run.1 ∧ ∀ n, n ∈ run.2.taken ↔ n ∈ run.1 ∨ n ∈ h.taken) ∧
    ∀ (l : Lifting) (requests : List (String × String × String)),
      let run := callEach (requests.map fun r l => l.enumName r.1 r.2.1 r.2.2) l
      Unused l.taken run.1 ∧ ∀ n, n ∈ run.2.taken ↔ n ∈ run.1 ∨ n ∈ l.taken := by
  refine ⟨claimed_claim, claimed_enumName, fun h requests => ?_, fun l requests => ?_⟩
  · refine callEach_unused Hoisting.taken ?_ h
    exact forall_mem_map.mpr fun r _ h => ⟨_, claimed_claim h r.1 r.2⟩
  · refine callEach_unused Lifting.taken ?_ l
    exact forall_mem_map.mpr fun r _ l => ⟨_, claimed_enumName l r.1 r.2.1 r.2.2⟩

/-- The second request for a name gets the name that the third asks for. -/
example : (callEach (["Order", "Order", "Order2"].map fun name (h : Hoisting) => h.claim name "")
    { taken := [] }).1 = ["Order", "Order2", "Order22"] := by
  cbv

end Schemata.Normal
