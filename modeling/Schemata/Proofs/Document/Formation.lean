import Schemata.Proofs.Document.Acceptance
import Schemata.Proofs.Document.Building

/-!
What accepted documents hold. A document that is accepted stands for a module each of whose types
is well formed, and writing that module again gives as many items, of the same kinds and names
except for the items of inline types, whose kind is not looked at.
-/

namespace Schemata.Document

variable {new old : List KindTree} {path : String} {item : Item}

/-! ### Well-formed modules -/

mutual

/-- A type that a document can hold where a type is required. -/
def TypeFormed : TypeExpr → Prop
  | .missing => False
  | .primitive k _ => k.isPrimitive = true ∨ k = .unknown
  | .reference name _ => name ≠ ""
  | .indirection k elem => k.isIndirection = true ∧ TypeFormed elem
  | .generic k args _ => (k.isContainer = true ∧ k ≠ .optional) ∧ TypesFormed args
  | .inline body => StructFormed body
  | .emptyInline => True

def TypesFormed : List TypeExpr → Prop
  | [] => True
  | t :: ts => TypeFormed t ∧ TypesFormed ts

def StructFormed : Struct → Prop
  | ⟨_, _, _, _, _, _, _, _, members⟩ => MembersFormed members

def MembersFormed : List Member → Prop
  | [] => True
  | .field ⟨_, type, _⟩ :: ms => TypeFormed type ∧ MembersFormed ms
  | .struct s :: ms => StructFormed s ∧ MembersFormed ms
  | .enum e :: ms => EnumFormed e ∧ MembersFormed ms
  | .oneof o :: ms => OneofFormed o ∧ MembersFormed ms

def EnumFormed : Enum → Prop
  | ⟨_, _, _, _, _, values⟩ => ValuesFormed values

/-- A payload may be left out. -/
def ValuesFormed : List EnumValue → Prop
  | [] => True
  | ⟨_, _, _, payload⟩ :: vs => (payload = .missing ∨ TypeFormed payload) ∧ ValuesFormed vs

def OneofFormed : Oneof → Prop
  | ⟨_, _, alternatives⟩ => AlternativesFormed alternatives

/-- The type of an alternative may be left out. -/
def AlternativesFormed : List Schemata.Alternative → Prop
  | [] => True
  | ⟨_, type, _⟩ :: alts => (type = .missing ∨ TypeFormed type) ∧ AlternativesFormed alts

end

mutual

def NodeFormed : Node → Prop
  | .struct s => StructFormed s
  | .enum e => EnumFormed e
  | .oneof o => OneofFormed o
  | .service _ => True
  | .space _ nodes => NodesFormed nodes

def NodesFormed : List Node → Prop
  | [] => True
  | d :: rest => NodeFormed d ∧ NodesFormed rest

end

def WellFormed (m : Module) : Prop := NodesFormed m.nodes

/-! ### Trees of items -/

/-- Where an item stands. -/
inductive Standing where
  /-- In a list of items or members. -/
  | listed
  /-- In a type, as the struct it is written with. -/
  | inline
deriving DecidableEq

/-- The kind and the name of an item, with the items in it. -/
inductive KindTree where
  | item (standing : Standing) (kind name : String) (inner : List KindTree)

mutual

/-- The items in an item. Its kind decides which part of it holds them. -/
def innerOfItem : Item → List KindTree
  | ⟨kind, _, _, _, _, _, _, _, _, members, type, values, _, _, alternatives, _, items⟩ =>
    match kind with
    | "struct" => kindsOfItems members
    | "field" => kindsOfForm? type
    | "enum" => kindsOfValues values
    | "oneof" => kindsOfAlternatives alternatives
    | "namespace" => kindsOfItems items
    | _ => []

def kindsOfItems : List (Option Item) → List KindTree
  | [] => []
  | none :: its => kindsOfItems its
  | some it :: its => .item .listed it.kind it.name (innerOfItem it) :: kindsOfItems its

def kindsOfValues : List (Option Value) → List KindTree
  | [] => []
  | none :: vs => kindsOfValues vs
  | some ⟨_, _, _, payload⟩ :: vs => kindsOfForm? payload ++ kindsOfValues vs

def kindsOfAlternatives : List (Option Alternative) → List KindTree
  | [] => []
  | none :: alts => kindsOfAlternatives alts
  | some ⟨_, type, _⟩ :: alts => kindsOfForm? type ++ kindsOfAlternatives alts

def kindsOfForm : TypeForm → List KindTree
  | ⟨form, _, _, _, elem, args, _, struct⟩ =>
    match form with
    | "indirection" => kindsOfForm? elem
    | "generic" => kindsOfForms args
    | "inline" => kindsOfInline struct
    | _ => []

def kindsOfForm? : Option TypeForm → List KindTree
  | none => []
  | some f => kindsOfForm f

def kindsOfForms : List (Option TypeForm) → List KindTree
  | [] => []
  | f :: fs => kindsOfForm? f ++ kindsOfForms fs

def kindsOfInline : Option Item → List KindTree
  | none => []
  | some it => [.item .inline it.kind it.name (innerOfItem it)]

end

def kindTrees (d : Document) : List KindTree := kindsOfItems d.items

mutual

/-- The kinds of the items in inline types. -/
def KindTree.inlineKinds : KindTree → List String
  | .item .listed _ _ inner => inlineKindsOf inner
  | .item .inline kind _ inner => kind :: inlineKindsOf inner

def inlineKindsOf : List KindTree → List String
  | [] => []
  | t :: ts => t.inlineKinds ++ inlineKindsOf ts

end

theorem innerOfItem_eq (it : Item) :
    innerOfItem it = if it.kind = "struct" then kindsOfItems it.members
      else if it.kind = "field" then kindsOfForm? it.type
      else if it.kind = "enum" then kindsOfValues it.values
      else if it.kind = "oneof" then kindsOfAlternatives it.alternatives
      else if it.kind = "namespace" then kindsOfItems it.items
      else [] := by
  cases it
  rw [innerOfItem.eq_def]
  dsimp only
  split <;> simp_all

theorem kindsOfForm_eq (f : TypeForm) :
    kindsOfForm f = if f.form = "indirection" then kindsOfForm? f.elem
      else if f.form = "generic" then kindsOfForms f.args
      else if f.form = "inline" then kindsOfInline f.struct
      else [] := by
  cases f
  rw [kindsOfForm.eq_def]
  dsimp only
  split <;> simp_all

/-! ### Trees that are kept -/

/-- Of as many trees, the new ones are the old ones exactly if no inline item is anything but a
struct. -/
structure Keeps (new old : List KindTree) : Prop where
  length_eq : new.length = old.length
  eq_iff : new = old ↔ ∀ kind ∈ inlineKindsOf old, kind = "struct"

theorem inlineKindsOf_nil : inlineKindsOf [] = [] := rfl

theorem inlineKindsOf_cons (t : KindTree) (ts : List KindTree) :
    inlineKindsOf (t :: ts) = t.inlineKinds ++ inlineKindsOf ts := rfl

theorem inlineKinds_listed (kind name : String) (inner : List KindTree) :
    (KindTree.item .listed kind name inner).inlineKinds = inlineKindsOf inner := rfl

theorem inlineKinds_inline (kind name : String) (inner : List KindTree) :
    (KindTree.item .inline kind name inner).inlineKinds = kind :: inlineKindsOf inner := rfl

@[simp] theorem inlineKindsOf_append (xs ys : List KindTree) :
    inlineKindsOf (xs ++ ys) = inlineKindsOf xs ++ inlineKindsOf ys := by
  induction xs with
  | nil => rfl
  | cons t xs ih => rw [List.cons_append, inlineKindsOf_cons, ih, inlineKindsOf_cons,
      List.append_assoc]

theorem keeps_nil : Keeps [] [] := ⟨rfl, by simp [inlineKindsOf_nil]⟩

theorem Keeps.append {new' old' : List KindTree} (h : Keeps new old) (h' : Keeps new' old') :
    Keeps (new ++ new') (old ++ old') where
  length_eq := by simp [h.length_eq, h'.length_eq]
  eq_iff := by
    have hboth : new ++ new' = old ++ old' ↔ new = old ∧ new' = old' :=
      ⟨fun heq => List.append_inj heq h.length_eq, fun ⟨hfront, hback⟩ => by rw [hfront, hback]⟩
    rw [hboth, h.eq_iff, h'.eq_iff, inlineKindsOf_append, List.forall_mem_append]

/-- An item that is listed keeps its kind and its name. -/
theorem Keeps.listed (h : Keeps new old) (kind name : String) :
    Keeps [.item .listed kind name new] [.item .listed kind name old] where
  length_eq := rfl
  eq_iff := by simp [inlineKindsOf_cons, inlineKinds_listed, inlineKindsOf_nil, h.eq_iff]

/-- What is accepted in front of something accepted. -/
theorem Keeps.and_append {P P' : Prop} {new' old' : List KindTree} (h : P ∧ Keeps new old)
    (h' : P' ∧ Keeps new' old') : (P ∧ P') ∧ Keeps (new ++ new') (old ++ old') :=
  ⟨⟨h.1, h'.1⟩, h.2.append h'.2⟩

/-- The item of an inline type is written as a struct, whatever it was. -/
theorem Keeps.inline {kind : String} (name : String) (h : kind = "struct" → Keeps new old) :
    Keeps [.item .inline "struct" name new] [.item .inline kind name old] where
  length_eq := rfl
  eq_iff := by
    by_cases hkind : kind = "struct"
    · simp [inlineKindsOf_cons, inlineKinds_inline, inlineKindsOf_nil, hkind, (h hkind).eq_iff]
    · simp [inlineKindsOf_cons, inlineKinds_inline, hkind, Ne.symm hkind]

/-! ### Reading and writing again -/

def listedTree (it : Item) : List KindTree := [.item .listed it.kind it.name (innerOfItem it)]

theorem kindsOfItems_some (it : Item) (its : List (Option Item)) :
    kindsOfItems (some it :: its) = listedTree it ++ kindsOfItems its := rfl

theorem Keeps.field {f : Field} (hkind : item.kind = "field") (hf : fieldOfItem path item = .ok f)
    (h : Keeps (kindsOfForm? (formOfType f.type)) (kindsOfForm? item.type)) :
    Keeps
      (listedTree
        { kind := "field", name := f.name, attributes := f.attributes, type := formOfType f.type })
      (listedTree item) := by
  obtain ⟨type, -, rfl⟩ := fieldOfItem_iff.mp hf
  simpa [listedTree, innerOfItem_eq, hkind] using h.listed "field" item.name

theorem Keeps.struct {s : Struct} (hkind : item.kind = "struct")
    (hs : structOfItem path item = .ok s)
    (h : Keeps (kindsOfItems (itemsOfMembers s.members)) (kindsOfItems item.members)) :
    Keeps (listedTree (itemOfStruct s)) (listedTree item) := by
  obtain ⟨members, -, rfl⟩ := structOfItem_iff.mp hs
  simpa [listedTree, itemOfStruct, innerOfItem_eq, hkind] using h.listed "struct" item.name

theorem Keeps.enum {e : Enum} (hkind : item.kind = "enum") (he : enumOfItem path item = .ok e)
    (h : Keeps (kindsOfValues (entriesOfValues e.values)) (kindsOfValues item.values)) :
    Keeps (listedTree (itemOfEnum e)) (listedTree item) := by
  obtain ⟨values, -, rfl⟩ := enumOfItem_iff.mp he
  simpa [listedTree, itemOfEnum, innerOfItem_eq, hkind] using h.listed "enum" item.name

theorem Keeps.oneof {o : Oneof} (hkind : item.kind = "oneof") (ho : oneofOfItem path item = .ok o)
    (h : Keeps (kindsOfAlternatives (entriesOfAlternatives o.alternatives))
      (kindsOfAlternatives item.alternatives)) :
    Keeps (listedTree (itemOfOneof o)) (listedTree item) := by
  obtain ⟨alts, -, rfl⟩ := oneofOfItem_iff.mp ho
  simpa [listedTree, itemOfOneof, innerOfItem_eq, hkind] using h.listed "oneof" item.name

mutual

theorem accepted_typeOfForm : ∀ (f : TypeForm) (path : String) (t : TypeExpr),
    typeOfForm path f = .ok t → TypeFormed t ∧ Keeps (kindsOfForm? (formOfType t)) (kindsOfForm f)
  | ⟨form, kind, name, spelling, elem, args, len, struct⟩, path, t, h => by
    rcases typeOfForm_iff.mp h with ⟨hform, k, -, hk, rfl⟩ | ⟨hform, hname, k, -, rfl⟩ |
      ⟨hform, k, -, hk, below, hbelow, rfl⟩ | ⟨hform, k, -, hk, below, hbelow, rfl⟩ |
      ⟨hform, hinline⟩
    all_goals
      cases hform
      simp [formOfType, kindsOfForm?, kindsOfForm_eq]
    · exact ⟨hk, keeps_nil⟩
    · exact ⟨hname, keeps_nil⟩
    · have ih := accepted_typeOfForm? elem _ below hbelow
      exact ⟨⟨hk, ih.1⟩, ih.2⟩
    · have ih := accepted_typesOfForms args _ _ below hbelow
      exact ⟨⟨hk, ih.1⟩, ih.2⟩
    · exact accepted_inlineOfItem? struct _ t hinline

theorem accepted_typeOfForm? : ∀ (f : Option TypeForm) (path : String) (t : TypeExpr),
    typeOfForm? path f = .ok t → TypeFormed t ∧ Keeps (kindsOfForm? (formOfType t)) (kindsOfForm? f)
  | none, _, _, h => by cases h
  | some f, path, t, h => accepted_typeOfForm f path t h

theorem accepted_typesOfForms : ∀ (fs : List (Option TypeForm)) (path : String) (i : Nat)
    (ts : List TypeExpr), typesOfForms path i fs = .ok ts →
      TypesFormed ts ∧ Keeps (kindsOfForms (formsOfTypes ts)) (kindsOfForms fs)
  | [], _, _, _, h => by
    cases h
    exact ⟨trivial, keeps_nil⟩
  | f :: fs, path, i, ts, h => by
    obtain ⟨t, ht, rest, hrest, rfl⟩ := typesOfForms_cons_iff.mp h
    exact Keeps.and_append (accepted_typeOfForm? f _ t ht)
      (accepted_typesOfForms fs path _ rest hrest)

theorem accepted_inlineOfItem? : ∀ (item : Option Item) (path : String) (t : TypeExpr),
    inlineOfItem? path item = .ok t →
      TypeFormed t ∧ Keeps (kindsOfForm? (formOfType t)) (kindsOfInline item)
  | none, _, _, h => by
    cases h
    exact ⟨trivial, keeps_nil⟩
  | some item, path, t, h => by
    obtain ⟨s, hs, ht⟩ := bind_eq_ok.mp h
    obtain rfl := pure_eq_ok.mp ht
    obtain ⟨hformed, hmembers⟩ := accepted_structOfItem item path s hs
    refine ⟨hformed, ?_⟩
    obtain ⟨members, -, rfl⟩ := structOfItem_iff.mp hs
    simp only [formOfType, kindsOfForm?, kindsOfForm_eq, kindsOfInline, itemOfStruct]
    -- the kind says what is inside of the item, and only a struct's members are what was read
    exact .inline item.name fun hkind => by simpa [innerOfItem_eq, hkind] using hmembers

theorem accepted_structOfItem : ∀ (item : Item) (path : String) (s : Struct),
    structOfItem path item = .ok s →
      StructFormed s ∧ Keeps (kindsOfItems (itemsOfMembers s.members)) (kindsOfItems item.members)
  | ⟨_, _, _, _, _, _, _, _, _, members, _, _, _, _, _, _, _⟩, path, s, h => by
    obtain ⟨ms, hms, rfl⟩ := structOfItem_iff.mp h
    exact accepted_membersOfItems members _ _ ms hms

theorem accepted_membersOfItems : ∀ (items : List (Option Item)) (path : String) (i : Nat)
    (ms : List Member), membersOfItems path i items = .ok ms →
      MembersFormed ms ∧ Keeps (kindsOfItems (itemsOfMembers ms)) (kindsOfItems items)
  | [], _, _, _, h => by
    cases h
    exact ⟨trivial, keeps_nil⟩
  | none :: items, path, i, ms, h => by
    obtain ⟨m, hm, -⟩ := membersOfItems_cons_iff.mp h
    cases hm
  | some item :: items, path, i, ms, h => by
    obtain ⟨m, hm, rest, hrest, rfl⟩ := membersOfItems_cons_iff.mp h
    have ih := accepted_membersOfItems items path _ rest hrest
    rcases memberOfItem_iff.mp hm with ⟨hkind, ⟨name, type, attributes⟩, hf, rfl⟩ |
      ⟨hkind, s, hs, rfl⟩ | ⟨hkind, e, he, rfl⟩ | ⟨hkind, o, ho, rfl⟩
    all_goals rw [kindsOfItems_some, itemsOfMembers, kindsOfItems_some]
    · exact Keeps.and_append ((accepted_fieldOfItem item _ _ hf).imp_right (.field hkind hf)) ih
    · exact Keeps.and_append ((accepted_structOfItem item _ s hs).imp_right (.struct hkind hs)) ih
    · exact Keeps.and_append ((accepted_enumOfItem item _ e he).imp_right (.enum hkind he)) ih
    · exact Keeps.and_append ((accepted_oneofOfItem item _ o ho).imp_right (.oneof hkind ho)) ih

theorem accepted_fieldOfItem : ∀ (item : Item) (path : String) (f : Field),
    fieldOfItem path item = .ok f →
      TypeFormed f.type ∧ Keeps (kindsOfForm? (formOfType f.type)) (kindsOfForm? item.type)
  | ⟨_, _, _, _, _, _, _, _, _, _, type, _, _, _, _, _, _⟩, path, f, h => by
    obtain ⟨t, ht, rfl⟩ := fieldOfItem_iff.mp h
    exact accepted_typeOfForm? type _ t ht

theorem accepted_enumOfItem : ∀ (item : Item) (path : String) (e : Enum),
    enumOfItem path item = .ok e →
      EnumFormed e ∧ Keeps (kindsOfValues (entriesOfValues e.values)) (kindsOfValues item.values)
  | ⟨_, _, _, _, _, _, _, _, _, _, _, values, _, _, _, _, _⟩, path, e, h => by
    obtain ⟨vs, hvs, rfl⟩ := enumOfItem_iff.mp h
    exact accepted_valuesOfEntries values _ _ vs hvs

theorem accepted_valuesOfEntries : ∀ (entries : List (Option Value)) (path : String) (i : Nat)
    (values : List EnumValue), valuesOfEntries path i entries = .ok values →
      ValuesFormed values ∧ Keeps (kindsOfValues (entriesOfValues values)) (kindsOfValues entries)
  | [], _, _, _, h => by
    cases h
    exact ⟨trivial, keeps_nil⟩
  | none :: _, _, _, _, h => by cases h
  | some ⟨_, _, _, payload⟩ :: entries, path, i, values, h => by
    obtain ⟨t, ht, rest, hrest, rfl⟩ := valuesOfEntries_cons_iff.mp h
    exact Keeps.and_append (accepted_optionalType payload _ t ht)
      (accepted_valuesOfEntries entries path _ rest hrest)

theorem accepted_oneofOfItem : ∀ (item : Item) (path : String) (o : Oneof),
    oneofOfItem path item = .ok o →
      OneofFormed o ∧ Keeps (kindsOfAlternatives (entriesOfAlternatives o.alternatives))
        (kindsOfAlternatives item.alternatives)
  | ⟨_, _, _, _, _, _, _, _, _, _, _, _, _, _, alternatives, _, _⟩, path, o, h => by
    obtain ⟨alts, halts, rfl⟩ := oneofOfItem_iff.mp h
    exact accepted_alternativesOfEntries alternatives _ _ alts halts

theorem accepted_alternativesOfEntries : ∀ (entries : List (Option Alternative)) (path : String)
    (i : Nat) (alts : List Schemata.Alternative),
    alternativesOfEntries path i entries = .ok alts →
      AlternativesFormed alts ∧
        Keeps (kindsOfAlternatives (entriesOfAlternatives alts)) (kindsOfAlternatives entries)
  | [], _, _, _, h => by
    cases h
    exact ⟨trivial, keeps_nil⟩
  | none :: _, _, _, _, h => by cases h
  | some ⟨_, type, _⟩ :: entries, path, i, alts, h => by
    obtain ⟨t, ht, rest, hrest, rfl⟩ := alternativesOfEntries_cons_iff.mp h
    exact Keeps.and_append (accepted_optionalType type _ t ht)
      (accepted_alternativesOfEntries entries path _ rest hrest)

theorem accepted_optionalType : ∀ (f : Option TypeForm) (path : String) (t : TypeExpr),
    optionalType path f = .ok t →
      (t = .missing ∨ TypeFormed t) ∧ Keeps (kindsOfForm? (formOfType t)) (kindsOfForm? f)
  | none, _, _, h => by
    cases h
    exact ⟨.inl rfl, keeps_nil⟩
  | some f, path, t, h => (accepted_typeOfForm f path t h).imp .inr id

end

mutual

theorem accepted_nodesOfItems : ∀ (items : List (Option Item)) (path : String) (i : Nat)
    (nodes : List Node), nodesOfItems path i items = .ok nodes →
      NodesFormed nodes ∧ Keeps (kindsOfItems (itemsOfNodes nodes)) (kindsOfItems items)
  | [], _, _, _, h => by
    rw [nodesOfItems] at h
    cases h
    rw [itemsOfNodes, kindsOfItems]
    exact ⟨trivial, keeps_nil⟩
  | none :: items, path, i, nodes, h => by
    obtain ⟨d, hd, -⟩ := nodesOfItems_cons_iff.mp h
    rw [nodeOfItem] at hd
    cases hd
  | some item :: items, path, i, nodes, h => by
    obtain ⟨d, hd, rest, hrest, rfl⟩ := nodesOfItems_cons_iff.mp h
    have ih := accepted_nodesOfItems items path _ rest hrest
    rcases nodeOfItem_iff.mp hd with ⟨hkind, s, hs, rfl⟩ | ⟨hkind, e, he, rfl⟩ |
      ⟨hkind, o, ho, rfl⟩ | ⟨hkind, rfl⟩ | ⟨hkind, inner, hinner, rfl⟩
    all_goals rw [kindsOfItems_some, itemsOfNodes, kindsOfItems_some]
    · exact Keeps.and_append ((accepted_structOfItem item _ s hs).imp_right (.struct hkind hs)) ih
    · exact Keeps.and_append ((accepted_enumOfItem item _ e he).imp_right (.enum hkind he)) ih
    · exact Keeps.and_append ((accepted_oneofOfItem item _ o ho).imp_right (.oneof hkind ho)) ih
    · refine ⟨⟨trivial, ih.1⟩, Keeps.append ?_ ih.2⟩
      simpa [listedTree, itemOfService, innerOfItem_eq, hkind] using
        keeps_nil.listed "service" item.name
    · obtain ⟨hformed, hkept⟩ := accepted_namespace item _ _ inner hinner
      refine ⟨⟨hformed, ih.1⟩, Keeps.append ?_ ih.2⟩
      simpa [listedTree, innerOfItem_eq, hkind] using hkept.listed "namespace" item.name

theorem accepted_namespace : ∀ (item : Item) (path : String) (i : Nat) (nodes : List Node),
    nodesOfItems path i item.items = .ok nodes →
      NodesFormed nodes ∧ Keeps (kindsOfItems (itemsOfNodes nodes)) (kindsOfItems item.items)
  | ⟨_, _, _, _, _, _, _, _, _, _, _, _, _, _, _, _, items⟩, path, i, nodes, h =>
    accepted_nodesOfItems items path i nodes h

end

theorem wellFormed_of_toModule {d : Document} {m : Module} (h : toModule d = .ok m) :
    WellFormed m := by
  obtain ⟨-, nodes, hnodes, rfl⟩ := toModule_iff.mp h
  exact (accepted_nodesOfItems d.items _ _ nodes hnodes).1

end Schemata.Document
