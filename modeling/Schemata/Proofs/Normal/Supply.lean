import Schemata.Proofs.Normal.Declarations
import Schemata.Proofs.Normal.FreshNames

/-!
The part of the state that the normalising passes share: the names in use, and the
declarations collected for the front of the list of nodes being worked on. Both only
grow. `Moves` says how, and what that means for the names of all declarations.
-/

namespace Schemata.Normal

open List

structure Supply where
  /-- The names in use. -/
  taken : List String
  /-- The declarations collected so far, in order. -/
  front : List Node

/-- From `a` to `b` something that declares `own` was worked on: `stays` are the nodes it
became in place, `moved` the declarations collected on the way, and `fresh` the names
given out. -/
structure Moves (a : Supply) (own : List String) (stays moved : List Node)
    (fresh : List String) (b : Supply) : Prop where
  front : b.front = a.front ++ moved
  taken : b.taken = fresh ++ a.taken
  unused : Unused a.taken fresh
  /-- No namespace is collected. -/
  plain : declarations moved = moved
  names : ∀ n, (moved.map Node.name).count n + (declaredNames stays).count n =
    own.count n + fresh.count n

theorem Moves.refl (a : Supply) : Moves a [] [] [] [] a where
  front := by simp
  taken := by simp
  unused := Unused.nil a.taken
  plain := rfl
  names n := by simp [declaredNames, declarations]

theorem Moves.trans {a b c : Supply} {own₁ own₂ fresh₁ fresh₂ : List String}
    {stays₁ stays₂ moved₁ moved₂ : List Node} (hab : Moves a own₁ stays₁ moved₁ fresh₁ b)
    (hbc : Moves b own₂ stays₂ moved₂ fresh₂ c) :
    Moves a (own₁ ++ own₂) (stays₁ ++ stays₂) (moved₁ ++ moved₂) (fresh₂ ++ fresh₁) c where
  front := by rw [hbc.front, hab.front, append_assoc]
  taken := by rw [hbc.taken, hab.taken, append_assoc]
  unused := hab.unused.append (by rw [← hab.taken]; exact hbc.unused)
  plain := by rw [declarations_append, hab.plain, hbc.plain]
  names n := by
    have hfirst := hab.names n
    have hsecond := hbc.names n
    simp only [map_append, declaredNames_append, count_append]
    omega

/-- A declaration is collected under a name it declares. -/
theorem moves_collect (a : Supply) {d : Node} (hd : declarationsOf d = [d]) :
    Moves a [d.name] [] [d] [] ⟨a.taken, a.front ++ [d]⟩ where
  front := rfl
  taken := rfl
  unused := Unused.nil a.taken
  plain := by simp [declarations, hd]
  names n := by simp [declaredNames, declarations]

/-- A step during which something is collected under a name given out before it. -/
theorem Moves.claimed {a b : Supply} {own fresh : List String} {stays moved : List Node}
    {name : String} (hname : name ∉ a.taken)
    (h : Moves ⟨name :: a.taken, a.front⟩ (own ++ [name]) stays moved fresh b) :
    Moves a own stays moved (fresh ++ [name]) b where
  front := h.front
  taken := by simpa using h.taken
  unused := (Unused.singleton hname).append h.unused
  plain := h.plain
  names n := by
    have hnames := h.names n
    simp only [count_append] at hnames ⊢
    omega

/-- A declaration stays in place. -/
theorem moves_stay (a : Supply) (d : Node) (hd : declarationsOf d = [d]) :
    Moves a [d.name] [d] [] [] a where
  front := by simp
  taken := by simp
  unused := Unused.nil a.taken
  plain := rfl
  names n := by simp [declaredNames, declarations, hd]

/-- A namespace keeps what is collected while its nodes are worked on. -/
theorem moves_space {a inside : Supply} {own fresh : List String} {nodes moved : List Node}
    (name : String) (hinner : Moves ⟨a.taken, []⟩ own nodes moved fresh inside) :
    ∃ fresh, Moves a own [.space name (inside.front ++ nodes)] [] fresh
      ⟨inside.taken, a.front⟩ := by
  have hmoved : inside.front = moved := hinner.front
  refine ⟨fresh, by simp, hinner.taken, hinner.unused, rfl, ?_⟩
  intro n
  rw [← hinner.names n]
  simp [declaredNames, declarations, declarationsOf, hmoved, hinner.plain]

/-- What was collected before a step is still there after it. -/
theorem front_subset {a b : Supply} {own : List String} {all stays : List Node}
    (hstep : ∃ moved fresh, Moves a own stays moved fresh b) (hsub : b.front ⊆ all) :
    a.front ⊆ all := by
  obtain ⟨moved, fresh, hstep⟩ := hstep
  rw [hstep.front] at hsub
  exact List.Subset.trans (subset_append_left _ _) hsub

/-- A name in use before a step is in use after it. -/
theorem taken_subset {a b : Supply} {own base : List String} {stays : List Node}
    (hstep : ∃ moved fresh, Moves a own stays moved fresh b) (hbase : base ⊆ a.taken) :
    base ⊆ b.taken := by
  obtain ⟨moved, fresh, hstep⟩ := hstep
  rw [hstep.taken]
  exact List.Subset.trans hbase (subset_append_right _ _)

/-! ### Runs from an empty front -/

section

variable {used own : List String} {stays : List Node} {b : Supply}

/-- What a run collects are declarations, so it stands before other nodes as it is. -/
theorem declarations_front (hrun : ∃ moved fresh, Moves ⟨used, []⟩ own stays moved fresh b)
    (nodes : List Node) : declarations (b.front ++ nodes) = b.front ++ declarations nodes := by
  obtain ⟨moved, fresh, hrun⟩ := hrun
  have hfront : b.front = moved := hrun.front
  rw [declarations_append, hfront, hrun.plain]

/-- A name declared once at most is the name of one declaration at most after the run. -/
theorem count_front_le_one (hrun : ∃ moved fresh, Moves ⟨used, []⟩ own stays moved fresh b)
    (hused : own ⊆ used) {n : String} (hown : own.count n ≤ 1) :
    ((declarations (b.front ++ stays)).map Node.name).count n ≤ 1 := by
  rw [declarations_front hrun]
  obtain ⟨moved, fresh, hrun⟩ := hrun
  have hfront : b.front = moved := hrun.front
  have hnames := hrun.names n
  have hfresh := nodup_iff_count_le_one.mp hrun.unused.nodup n
  simp only [hfront, map_append, count_append, declaredNames] at hnames ⊢
  -- a name that is declared is in use, so it cannot also be a fresh one
  by_cases hn : n ∈ fresh
  · have hnot : n ∉ own := fun h => hrun.unused.free n hn (hused h)
    rw [count_eq_zero_of_not_mem hnot] at hnames
    omega
  · rw [count_eq_zero_of_not_mem hn] at hnames
    omega

end

end Schemata.Normal
