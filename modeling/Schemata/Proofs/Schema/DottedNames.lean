import Schemata.Proofs.Schema.References

/-!
Dotted names. A name locates a declaration when it spells the namespaces on the way there and the
declaration behind them. It may do so in several ways, since namespaces can share a name and names
can hold dots; the search tries all of them, and so it finds a declaration just when there is one.
Where no namespace has an empty name, the names it finds one for count as declared.
-/

namespace Schemata

open List

/-- Through namespaces of these names, each in the list of the one before, one comes from a list of
nodes to a declaration. -/
inductive LeadsTo : List Node → List String → Node → Prop
  | here {nodes : List Node} {d : Node} (hmem : d ∈ nodes)
      (hd : ∀ name inner, d ≠ .space name inner) : LeadsTo nodes [] d
  | inside {nodes inner : List Node} {space : String} {path : List String} {d : Node}
      (hmem : .space space inner ∈ nodes) (hinner : LeadsTo inner path d) :
      LeadsTo nodes (space :: path) d

/-- The names of namespaces, each with a dot behind it, and the name of what they hold. -/
def dotted (path : List String) (name : String) : String :=
  path.foldr (fun space rest => space ++ "." ++ rest) name

/-- A dotted name is that of a declaration, which has to have a name if it is in a namespace. -/
structure Locates (nodes : List Node) (name : String) (path : List String) (d : Node) : Prop where
  leads : LeadsTo nodes path d
  spelled : name = dotted path d.name
  named : path ≠ [] → d.name ≠ ""

mutual

def spaceNamesOf : Node → List String
  | .space name inner => name :: spaceNames inner
  | _ => []

/-- The names of the namespaces of a list and of those in them. -/
def spaceNames : List Node → List String
  | [] => []
  | d :: rest => spaceNamesOf d ++ spaceNames rest

end

section

variable {nodes inner : List Node} {d : Node} {space name tail : String} {path : List String}

/-! ### Steps of the search -/

theorem afterPrefix?_eq_some {as bs rest : List Char} :
    afterPrefix? as bs = some rest ↔ bs = as ++ rest := by
  induction as generalizing bs with
  | nil => simp [afterPrefix?, eq_comm]
  | cons a as ih =>
    cases bs with
    | nil => simp [afterPrefix?]
    | cons b bs =>
      rw [afterPrefix?, cons_append, cons.injEq]
      split
      next hab => simp [ih, hab]
      next hab => simp [Ne.symm hab]

theorem below?_eq_some :
    below? space name = some tail ↔ name = space ++ "." ++ tail ∧ tail ≠ "" := by
  have hcut : afterPrefix? (space.toList ++ ['.']) name.toList = some tail.toList ↔
      name = space ++ "." ++ tail := by
    rw [afterPrefix?_eq_some, ← String.toList_inj]
    simp
  rw [← hcut, below?]
  rcases afterPrefix? (space.toList ++ ['.']) name.toList with _ | _ | ⟨c, rest⟩
  · simp
  · rw [Option.some.injEq, eq_comm (a := []), String.toList_eq_nil_iff]
    refine ⟨fun h => ?_, fun h => absurd h.1 h.2⟩
    cases h
  · rw [Option.some.injEq, Option.some.injEq]
    constructor
    · rintro rfl
      simp
    · rintro ⟨h, -⟩
      rw [h, String.ofList_toList]

theorem findInside_space :
    findInside (.space space inner) name = (below? space name).bind (findNode? inner) := by
  rw [findInside]
  cases below? space name with
  | none => rfl
  | some tail =>
    simp only [Option.bind_some, findNode?]
    cases inner.find? (Node.declares tail) <;> rfl

theorem findBelow_eq : findBelow nodes name = nodes.findSome? (findInside · name) := by
  induction nodes with
  | nil => rfl
  | cons d rest ih =>
    rw [findBelow, findSome?_cons, ih]
    cases findInside d name <;> rfl

/-! ### The search -/

theorem dotted_ne_empty (h : name ≠ "") : dotted path name ≠ "" := by
  cases path with
  | nil => exact h
  | cons space path => simp [dotted]

theorem locates_here_iff : Locates nodes name [] d ↔ d ∈ nodes ∧ d.declares name = true := by
  have hdeclares : d.declares name = true ↔
      (∀ space inner, d ≠ .space space inner) ∧ d.name = name := by
    cases d <;> simp [Node.declares, Node.name]
  rw [hdeclares]
  constructor
  · rintro ⟨⟨hmem, hd⟩, hname, -⟩
    exact ⟨hmem, hd, hname.symm⟩
  · rintro ⟨hmem, hd, hname⟩
    exact ⟨.here hmem hd, hname.symm, absurd rfl⟩

/-- What is found is located by the name. -/
theorem locates_of_findNode? (h : findNode? nodes name = some d) :
    ∃ path, Locates nodes name path d := by
  -- a namespace is smaller than the list it stands in
  induction hsize : sizeOf nodes using Nat.strong_induction_on generalizing nodes name with
  | _ size ih =>
    rw [findNode?, Option.or_eq_some_iff, findBelow_eq] at h
    rcases h with hfirst | ⟨-, hbelow⟩
    · exact ⟨[], locates_here_iff.mpr ⟨mem_of_find?_eq_some hfirst, find?_some hfirst⟩⟩
    · obtain ⟨n, hmem, hn⟩ := exists_of_findSome?_eq_some hbelow
      cases n with
      | space space inner =>
        rw [findInside_space, Option.bind_eq_some_iff] at hn
        obtain ⟨tail, htail, hfound⟩ := hn
        have hlt := sizeOf_lt_of_mem hmem
        rw [Node.space.sizeOf_spec] at hlt
        obtain ⟨path, hleads, hspelled, hnamed⟩ := ih _ (by omega) hfound rfl
        obtain ⟨hname, hne⟩ := below?_eq_some.mp htail
        refine ⟨space :: path, .inside hmem hleads, by rw [hname, hspelled]; rfl, fun _ => ?_⟩
        cases path with
        | nil => rwa [hspelled] at hne
        | cons => exact hnamed (cons_ne_nil _ _)
      | _ => cases hn

/-- A declaration of the list itself is found first. -/
theorem findNode?_of_locates_here {other : Node} (h : Locates nodes name [] other) :
    ∃ d, findNode? nodes name = some d ∧ Locates nodes name [] d := by
  have hsome := find?_isSome.mpr ⟨other, locates_here_iff.mp h⟩
  obtain ⟨d, hfirst⟩ := Option.isSome_iff_exists.mp hsome
  refine ⟨d, by rw [findNode?, hfirst, Option.some_or], ?_⟩
  exact locates_here_iff.mpr ⟨mem_of_find?_eq_some hfirst, find?_some hfirst⟩

/-- Whatever a name locates, something is found for it. -/
theorem Locates.isSome (h : Locates nodes name path d) : (findNode? nodes name).isSome = true := by
  obtain ⟨hleads, hname, hnamed⟩ := h
  induction hleads generalizing name with
  | here hmem hd =>
    obtain ⟨d, hfound, -⟩ := findNode?_of_locates_here ⟨.here hmem hd, hname, hnamed⟩
    rw [hfound]
    rfl
  | inside hmem hinner ih =>
    have hne := hnamed (cons_ne_nil _ _)
    have htail := below?_eq_some.mpr ⟨hname, dotted_ne_empty hne⟩
    rw [findNode?, Option.isSome_or, Bool.or_eq_true, findBelow_eq, findSome?_isSome_iff]
    refine .inr ⟨_, hmem, ?_⟩
    rw [findInside_space, htail]
    exact ih rfl fun _ => hne

/-! ### Declared names -/

theorem joinPath_dotted (root : String) (hspace : space ≠ "") (hname : name ≠ "") :
    joinPath root (space ++ "." ++ name) = joinPath (joinPath root space) name := by
  by_cases hroot : root = "" <;> simp [joinPath, hroot, hspace, hname, String.append_assoc]

theorem LeadsTo.declared (h : LeadsTo nodes path d) (hpath : "" ∉ path)
    (hnamed : path ≠ [] → d.name ≠ "") (root : String) :
    joinPath root (dotted path d.name) ∈ declaredNames root nodes := by
  induction h generalizing root with
  | @here nodes d hmem hd =>
    refine declaredNames_subset_of_mem root hmem ?_
    cases d with
    | space name inner => exact absurd rfl (hd name inner)
    | _ => simp [declaredNames, dotted]
  | inside hmem hinner ih =>
    rw [mem_cons, not_or] at hpath
    have hne := hnamed (cons_ne_nil _ _)
    refine declaredNames_subset_of_mem root hmem ?_
    rw [dotted, foldr_cons, ← dotted, joinPath_dotted root (Ne.symm hpath.1) (dotted_ne_empty hne),
      declaredNames]
    exact mem_append_left _ (ih hpath.2 (fun _ => hne) _)

theorem LeadsTo.subset_spaceNames (h : LeadsTo nodes path d) : path ⊆ spaceNames nodes := by
  have hsub {nodes : List Node} {d : Node} (hd : d ∈ nodes) :
      spaceNamesOf d ⊆ spaceNames nodes := by
    induction nodes with
    | nil => cases hd
    | cons e rest ih =>
      rw [spaceNames]
      rcases mem_cons.mp hd with rfl | hd
      · exact subset_append_left _ _
      · exact subset_append_of_subset_right _ (ih hd)
  induction h with
  | here => exact nil_subset _
  | inside hmem _ ih =>
    refine List.Subset.trans ?_ (hsub hmem)
    rw [spaceNamesOf]
    exact cons_subset_cons _ ih

end

/-- The search finds a declaration for the dotted names of declarations and for no other names, one
of the list itself before those in namespaces. If all namespaces of a module have names, a name it
finds one for is not unresolved there. -/
theorem findNode?_exact (nodes : List Node) (name : String) :
    ((findNode? nodes name).isSome = true ↔ ∃ path d, Locates nodes name path d) ∧
      (∀ d, findNode? nodes name = some d → (∃ path, Locates nodes name path d) ∧
        ((∃ other, Locates nodes name [] other) → Locates nodes name [] d)) ∧
      ∀ m : Module, m.nodes = nodes → "" ∉ spaceNames nodes →
        (findNode? nodes name).isSome = true → name ∉ m.unresolved := by
  refine ⟨⟨fun h => ?_, ?_⟩, fun d h => ⟨locates_of_findNode? h, ?_⟩, ?_⟩
  · obtain ⟨d, hd⟩ := Option.isSome_iff_exists.mp h
    obtain ⟨path, hpath⟩ := locates_of_findNode? hd
    exact ⟨path, d, hpath⟩
  · rintro ⟨path, d, hlocates⟩
    exact hlocates.isSome
  · rintro ⟨other, hother⟩
    obtain ⟨e, hfound, he⟩ := findNode?_of_locates_here hother
    rwa [Option.some.inj (h.symm.trans hfound)]
  · rintro m rfl hspaces h hmem
    obtain ⟨d, hd⟩ := Option.isSome_iff_exists.mp h
    obtain ⟨path, hleads, rfl, hnamed⟩ := locates_of_findNode? hd
    have hpath : "" ∉ path := fun h => hspaces (hleads.subset_spaceNames h)
    exact (mem_unresolved.mp hmem).2 (hleads.declared hpath hnamed "")

/-- One name can be read in two ways, of which the first finds nothing. -/
def billing : Module where
  nodes := [.space "billing" [.space "v1" [.struct { name := "Line" }]],
    .space "billing.v1" [.struct { name := "Line.Item" }],
    .struct { name := "Order", members := [.field ⟨"first", .ref "billing.v1.Line.Item", []⟩] }]

theorem billing_item_found : "" ∉ spaceNames billing.nodes ∧
    (findNode? billing.nodes "billing.v1.Line.Item").isSome = true ∧
      "billing.v1.Line.Item" ∉ billing.unresolved := by
  have hspaces : "" ∉ spaceNames billing.nodes := by decide
  have hfound : (findNode? billing.nodes "billing.v1.Line.Item").isSome = true := by cbv
  exact ⟨hspaces, hfound, (findNode?_exact billing.nodes _).2.2 billing rfl hspaces hfound⟩

end Schemata
