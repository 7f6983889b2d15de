import Schemata.Proofs.Normal.Unnesting
import Schemata.Proofs.Schema.References

/-!
References made by flattening lead backwards. A name that a declaration of a flattened
module refers to was referred to before, or is the name of a struct that stands earlier in
the same list of nodes.

It matters when a struct is moved out: after what its body holds, and before whatever is
left of the declaration around it. `Resolved` says this of a part of a module, with the
names it referred to, what was moved out of it and the names it refers to now.
-/

namespace Schemata.Normal

open List

variable {known : List String} {nodes moved stays : List Node} {d : Node}

/-! ### Lists of nodes -/

/-- The lists of nodes in the namespaces of a list, at any depth. -/
def innerLists : List Node → List (List Node)
  | [] => []
  | .space _ inner :: rest => inner :: innerLists inner ++ innerLists rest
  | .struct _ :: rest | .enum _ :: rest | .oneof _ :: rest | .service _ :: rest => innerLists rest

def nodeLists (nodes : List Node) : List (List Node) := nodes :: innerLists nodes

@[simp] theorem innerLists_append (xs ys : List Node) :
    innerLists (xs ++ ys) = innerLists xs ++ innerLists ys := by
  induction xs with
  | nil => simp [innerLists]
  | cons d xs ih => cases d <;> simp [innerLists, ih]

/-- The names a declaration refers to; those in a namespace are referred to by its nodes. -/
def ownRefs : Node → List String
  | .space _ _ => []
  | d => refsOfNode d

def structName? : Node → Option String
  | .struct s => some s.name
  | _ => none

def structNames (nodes : List Node) : List String := nodes.filterMap structName?

@[simp] theorem structNames_append (xs ys : List Node) :
    structNames (xs ++ ys) = structNames xs ++ structNames ys := by
  simp [structNames]

/-- Each declaration of a list refers to known names and to structs that stand before it. -/
def Backward (known : List String) : List Node → Prop
  | [] => True
  | d :: rest => ownRefs d ⊆ known ∧ Backward (known ++ structNames [d]) rest

theorem Backward.mono {known' : List String} (h : Backward known nodes) (hsub : known ⊆ known') :
    Backward known' nodes := by
  induction nodes generalizing known known' with
  | nil => trivial
  | cons d nodes ih =>
    refine ⟨List.Subset.trans h.1 hsub, ih h.2 ?_⟩
    exact append_subset.mpr ⟨List.Subset.trans hsub (subset_append_left _ _),
      subset_append_right _ _⟩

theorem backward_append {xs ys : List Node} :
    Backward known (xs ++ ys) ↔ Backward known xs ∧ Backward (known ++ structNames xs) ys := by
  induction xs generalizing known with
  | nil => simp [Backward, structNames]
  | cons d xs ih =>
    have hnames : structNames (d :: xs) = structNames [d] ++ structNames xs :=
      structNames_append [d] xs
    rw [cons_append, Backward, Backward, ih, hnames, append_assoc, and_assoc]

theorem backward_of_refs (h : nodes.flatMap ownRefs ⊆ known) : Backward known nodes := by
  induction nodes generalizing known with
  | nil => trivial
  | cons d nodes ih =>
    rw [flatMap_cons, append_subset] at h
    exact ⟨h.1, ih (List.Subset.trans h.2 (subset_append_left _ _))⟩

/-- What the positions in a list say: a reference is known, or a struct of that name has an
earlier position. -/
theorem Backward.position (h : Backward known nodes) {i : Nat} (hd : nodes[i]? = some d)
    {n : String} (hn : n ∈ ownRefs d) :
    n ∈ known ∨ ∃ j < i, ∃ s, nodes[j]? = some (.struct s) ∧ s.name = n := by
  induction nodes generalizing known i with
  | nil => simp at hd
  | cons first nodes ih =>
    cases i with
    | zero =>
      have hfirst : first = d := by simpa using hd
      subst hfirst
      exact .inl (h.1 hn)
    | succ i =>
      rcases ih h.2 (by simpa using hd) with hknown | ⟨j, hj, s, hs, hname⟩
      · rcases mem_append.mp hknown with hknown | hstruct
        · exact .inl hknown
        · cases first with
          | struct s =>
            have hname : n = s.name := by simpa [structNames, structName?] using hstruct
            exact .inr ⟨0, by omega, s, rfl, hname.symm⟩
          | _ => simp [structNames, structName?] at hstruct
      · exact .inr ⟨j + 1, by omega, s, by simpa using hs, hname⟩

/-! ### What is moved out and what is left -/

/-- Something that referred to `known` refers to `left` after `moved` came out of it. -/
structure Resolved (known : List String) (moved : List Node) (left : List String) : Prop where
  backward : Backward known moved
  left : left ⊆ known ++ structNames moved
  /-- No namespace is moved out. -/
  plain : innerLists moved = []

theorem Resolved.unchanged (names : List String) : Resolved names [] names where
  backward := trivial
  left := by simp
  plain := by rw [innerLists]

theorem Resolved.append {known₁ known₂ left₁ left₂ : List String} {moved₁ moved₂ : List Node}
    (first : Resolved known₁ moved₁ left₁) (second : Resolved known₂ moved₂ left₂) :
    Resolved (known₁ ++ known₂) (moved₁ ++ moved₂) (left₁ ++ left₂) where
  backward := by
    refine backward_append.mpr ⟨first.backward.mono (subset_append_left _ _), ?_⟩
    -- the second part only gets more to refer to: what the first one had and moved out
    exact second.backward.mono (by grind)
  left := by
    have hfirst := first.left
    have hsecond := second.left
    rw [structNames_append]
    grind
  plain := by rw [innerLists_append, first.plain, second.plain, append_nil]

/-- A declaration with what is left is moved out behind the rest; a struct can be referred
to from then on. -/
theorem Resolved.moveOut {left : List String} (h : Resolved known moved left)
    (hrefs : ownRefs d = left) (hplain : innerLists [d] = []) :
    Resolved known (moved ++ [d]) (structNames [d]) where
  backward := by
    refine backward_append.mpr ⟨h.backward, ?_, trivial⟩
    rw [hrefs]
    exact h.left
  left := by
    rw [structNames_append, ← append_assoc]
    exact subset_append_right _ _
  plain := by rw [innerLists_append, h.plain, hplain, append_nil]

theorem Resolved.forget {left : List String} (h : Resolved known moved left) :
    Resolved known moved [] where
  backward := h.backward
  left := nil_subset _
  plain := h.plain

mutual

theorem TypeUnnested.resolved {t t' : TypeExpr} {moved : List Node} : TypeUnnested t t' moved →
    Resolved (refsOfType t) moved (refsOfType t')
  | .missing => .unchanged _
  | .primitive _ _ => .unchanged _
  | .reference _ _ => .unchanged _
  | .emptyInline => .unchanged _
  | .indirection _ helem => helem.resolved
  | .generic _ _ hargs => hargs.resolved
  | .inline hstruct _ => by
    rw [refsOfType, refsOfStruct_eq]
    exact hstruct.resolved

theorem TypesUnnested.resolved {ts ts' : List TypeExpr} {moved : List Node} :
    TypesUnnested ts ts' moved → Resolved (refsOfTypes ts) moved (refsOfTypes ts')
  | .nil => .unchanged _
  | .cons ht hts => ht.resolved.append hts.resolved

theorem StructUnnested.resolved {s s' : Struct} {moved : List Node} : StructUnnested s s' moved →
    Resolved (refsOfMembers s.members) moved [s'.name]
  | .intro _ _ _ hbody => hbody.resolved.moveOut rfl (by simp [innerLists])

theorem MembersUnnested.resolved {ms ms' : List Member} {moved : List Node} :
    MembersUnnested ms ms' moved → Resolved (refsOfMembers ms) moved (refsOfMembers ms')
  | .nil => .unchanged _
  | .field _ _ ht hms => ht.resolved.append hms.resolved
  | .oneof _ _ halts hms => halts.resolved.append hms.resolved
  | .enum _ hvalues hms => by
    have henum := hvalues.resolved.moveOut (d := .enum _) rfl (by simp [innerLists])
    rw [refsOfMembers, refsOfMember_enum, append_cons]
    exact henum.append hms.resolved
  | .splice _ _ hgiven hms => by
    rw [refsOfMembers, refsOfMember, refsOfStruct_eq, refsOfMembers_append]
    exact hgiven.resolved.append hms.resolved
  | .slot _ hstruct _ hms => by
    rw [refsOfMembers, refsOfMember, refsOfStruct_eq]
    exact hstruct.resolved.append hms.resolved
  | .named _ _ hstruct _ hms => by
    rw [refsOfMembers, refsOfMember, refsOfStruct_eq]
    exact hstruct.resolved.forget.append hms.resolved

theorem AlternativesUnnested.resolved {alts alts' : List Alternative} {moved : List Node} :
    AlternativesUnnested alts alts' moved →
      Resolved (refsOfAlternatives alts) moved (refsOfAlternatives alts')
  | .nil => .unchanged _
  | .cons _ _ ht halts => ht.resolved.append halts.resolved

theorem ValuesUnnested.resolved {values values' : List EnumValue} {moved : List Node} :
    ValuesUnnested values values' moved →
      Resolved (refsOfValues values) moved (refsOfValues values')
  | .nil => .unchanged _
  | .cons _ _ _ ht hvalues => ht.resolved.append hvalues.resolved

end

/-! ### Whole lists of nodes -/

theorem NodesUnnested.resolved (h : NodesUnnested nodes stays moved) :
    Resolved (refsOfNodes nodes) moved (stays.flatMap ownRefs) := by
  induction h with
  | nil => exact .unchanged _
  | struct hbody _ ih => exact hbody.resolved.append ih
  | enum hvalues _ ih => exact hvalues.resolved.append ih
  | oneof halts _ ih => exact halts.resolved.append ih
  | space _ _ _ _ ih =>
    -- what the namespace refers to is dealt with in the list it holds
    exact (Resolved.unchanged _).forget.append ih
  | service _ _ ih => exact ih

/-- In a list made of what was moved out and what stays, references lead backwards. -/
theorem NodesUnnested.backward (h : NodesUnnested nodes stays moved) :
    Backward (refsOfNodes nodes) (moved ++ stays) :=
  backward_append.mpr ⟨h.resolved.backward, backward_of_refs h.resolved.left⟩

theorem NodesUnnested.backward_inner (h : NodesUnnested nodes stays moved) :
    ∀ inner ∈ innerLists stays, Backward (refsOfNodes nodes) inner := by
  induction h with
  | nil => simp [innerLists]
  | struct _ _ ih =>
    intro inner hinner
    rw [innerLists] at hinner
    exact (ih inner hinner).mono (subset_append_right _ _)
  | enum _ _ ih =>
    intro inner hinner
    rw [innerLists] at hinner
    exact (ih inner hinner).mono (subset_append_right _ _)
  | oneof _ _ ih =>
    intro inner hinner
    rw [innerLists] at hinner
    exact (ih inner hinner).mono (subset_append_right _ _)
  | space _ hspace _ ihspace ih =>
    intro inner hinner
    rw [innerLists, innerLists_append, hspace.resolved.plain, nil_append] at hinner
    rcases mem_append.mp hinner with hinside | hrest
    · rcases mem_cons.mp hinside with rfl | hdeeper
      · exact hspace.backward.mono (subset_append_left _ _)
      · exact (ihspace inner hdeeper).mono (subset_append_left _ _)
    · exact (ih inner hrest).mono (subset_append_right _ _)
  | service _ _ ih =>
    intro inner hinner
    rw [innerLists] at hinner
    exact ih inner hinner

theorem flatten_backward (m : Module) :
    ∀ nodes ∈ nodeLists (flatten m).1.nodes, Backward m.references nodes := by
  intro nodes hnodes
  obtain ⟨stays, moved, heq, hrel⟩ := flatten_unnested m
  rw [heq, nodeLists, innerLists_append, hrel.resolved.plain, nil_append] at hnodes
  rw [references_eq]
  rcases mem_cons.mp hnodes with rfl | hinner
  · exact hrel.backward
  · exact hrel.backward_inner nodes hinner

/-! ### Unresolved names -/

/-- A name referred to anywhere is referred to by a declaration of one of the lists. -/
theorem exists_ownRefs_of_mem {n : String} : ∀ nodes : List Node, n ∈ refsOfNodes nodes →
    ∃ list ∈ nodeLists nodes, ∃ d ∈ list, n ∈ ownRefs d
  | [], hn => by simp [refsOfNodes] at hn
  | d :: rest, hn => by
    rw [refsOfNodes, mem_append] at hn
    rcases hn with hfirst | hrest
    · cases d with
      | space name inner =>
        obtain ⟨list, hlist, hrefers⟩ := exists_ownRefs_of_mem inner hfirst
        refine ⟨list, mem_cons_of_mem _ ?_, hrefers⟩
        rw [innerLists]
        exact mem_append_left _ hlist
      | _ => exact ⟨_, mem_cons_self, _, mem_cons_self, hfirst⟩
    · obtain ⟨list, hlist, e, he, hrefers⟩ := exists_ownRefs_of_mem rest hrest
      rcases mem_cons.mp hlist with rfl | hinner
      · exact ⟨_, mem_cons_self, e, mem_cons_of_mem _ he, hrefers⟩
      · refine ⟨list, mem_cons_of_mem _ ?_, e, he, hrefers⟩
        rw [← singleton_append, innerLists_append]
        exact mem_append_right _ hinner

theorem struct_declared {s : Struct} (path : String) (hs : Node.struct s ∈ nodes) :
    s.name ∈ Schemata.declaredNames path nodes := by
  obtain ⟨before, after, rfl⟩ := append_of_mem hs
  simp [Schemata.declaredNames, Node.name]

/-- The structs of every list count as declared, whichever namespace they are in. -/
theorem struct_declared_inner {s : Struct} : ∀ (nodes : List Node) (path : String),
    ∀ inner ∈ innerLists nodes, Node.struct s ∈ inner → s.name ∈ Schemata.declaredNames path nodes
  | [], _, inner, hinner, _ => by simp [innerLists] at hinner
  | d :: rest, path, inner, hinner, hs => by
    cases d with
    | space name nodes =>
      rw [innerLists, cons_append, mem_cons, mem_append] at hinner
      rw [Schemata.declaredNames, mem_append]
      rcases hinner with rfl | hdeeper | hrest
      · exact .inl (struct_declared _ hs)
      · exact .inl (struct_declared_inner nodes _ inner hdeeper hs)
      · exact .inr (struct_declared_inner rest path inner hrest hs)
    | _ =>
      rw [innerLists] at hinner
      have hrest := struct_declared_inner rest path inner hinner hs
      simp [Schemata.declaredNames, hrest]

/-- What is declared, plainly or below a namespace, stays declared. -/
theorem NodesUnnested.declared (h : NodesUnnested nodes stays moved) (path : String) :
    Schemata.declaredNames path nodes ⊆ Schemata.declaredNames path stays := by
  induction h generalizing path with
  | nil => exact List.Subset.refl _
  | struct _ _ ih | enum _ _ ih | oneof _ _ ih | service _ _ ih =>
    simp only [Schemata.declaredNames]
    exact cons_subset_cons _ (cons_subset_cons _ (ih path))
  | space name _ _ ihinner ih =>
    intro n hn
    rw [Schemata.declaredNames, mem_append] at hn
    rw [Schemata.declaredNames, declaredNames_path_append, mem_append, mem_append]
    rcases hn with hinner | hrest
    · exact .inl (.inr (ihinner _ hinner))
    · exact .inr (ih path hrest)

theorem declaredNames_flatten (m : Module) :
    Schemata.declaredNames "" m.nodes ⊆ Schemata.declaredNames "" (flatten m).1.nodes := by
  obtain ⟨stays, moved, heq, hnodes⟩ := flatten_unnested m
  rw [heq, declaredNames_path_append]
  exact List.Subset.trans (hnodes.declared "") (subset_append_right _ _)

theorem references_singleton (hd : ∀ name inner, d ≠ .space name inner) :
    Module.references { nodes := [d] } = ownRefs d := by
  rw [references_eq, refsOfNodes, refsOfNodes, append_nil]
  cases d with
  | space name inner => exact absurd rfl (hd name inner)
  | _ => rfl

/-- A name that a declaration of a flattened module refers to was referred to before, or a
struct of that name stands earlier in the same list of nodes. So flattening leaves no name
unresolved that was not. -/
theorem flatten_refs_backward (m : Module) :
    (∀ nodes ∈ nodeLists (flatten m).1.nodes, ∀ (i : Nat) (d : Node), nodes[i]? = some d →
      (∀ name inner, d ≠ .space name inner) → ∀ n ∈ Module.references { nodes := [d] },
        n ∈ m.references ∨ ∃ j < i, ∃ s : Struct, nodes[j]? = some (.struct s) ∧ s.name = n) ∧
      (flatten m).1.unresolved ⊆ m.unresolved := by
  have hbackward := flatten_backward m
  refine ⟨?_, ?_⟩
  · intro nodes hnodes i d hd hplain n hn
    rw [references_singleton hplain] at hn
    exact (hbackward nodes hnodes).position hd hn
  · intro n hn
    obtain ⟨hreferred, hundeclared⟩ := mem_unresolved.mp hn
    rw [references_eq] at hreferred
    obtain ⟨list, hlist, d, hd, hrefers⟩ := exists_ownRefs_of_mem _ hreferred
    obtain ⟨i, hi⟩ := List.mem_iff_getElem?.mp hd
    rcases (hbackward list hlist).position hi hrefers with hbefore | ⟨j, -, s, hs, rfl⟩
    · exact mem_unresolved.mpr ⟨hbefore, fun h => hundeclared (declaredNames_flatten m h)⟩
    · -- a struct of that name stands in some list, so the name is declared after all
      have hmem := List.mem_of_getElem? hs
      rcases List.mem_cons.mp hlist with rfl | hinner
      · exact absurd (struct_declared "" hmem) hundeclared
      · exact absurd (struct_declared_inner _ "" list hinner hmem) hundeclared

end Schemata.Normal
