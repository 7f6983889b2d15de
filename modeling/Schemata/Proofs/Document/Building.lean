import Schemata.Document.Builder
import Schemata.Proofs.Normal.Declarations
import Schemata.Proofs.Traversal.Pieces

/-!
What the traversal builds. An item follows from its declaration by recursion, and that is what is
put into the innermost list while the declaration is traversed: the lists around it, and the
values of the enums around it, are as they were. The document of a module therefore has the items
of its nodes.
-/

namespace Schemata.Document

/-! ### Items by recursion -/

mutual

def formOfType : TypeExpr → Option TypeForm
  | .missing => none
  | .primitive k spelling => some { form := "primitive", kind := k.name, spelling }
  | .reference name k =>
    let kind := if k = .structRef ∨ k = .unknown then "" else k.name
    some { form := "ref", kind, name }
  | .indirection k elem =>
    some { form := "indirection", kind := k.name, elem := formOfType elem }
  | .generic k args len =>
    some { form := "generic", kind := k.name, args := formsOfTypes args, len }
  | .inline body => some { form := "inline", struct := some (itemOfStruct body) }
  | .emptyInline => some { form := "inline" }

def formsOfTypes : List TypeExpr → List (Option TypeForm)
  | [] => []
  | t :: ts => formOfType t :: formsOfTypes ts

def itemOfStruct : Struct → Item
  | ⟨name, namespaces, attributes, anonymous, varName, record, abstract, base, members⟩ =>
    { kind := "struct", name, namespaces, attributes, anonymous, varName, record, abstract, base,
      members := itemsOfMembers members }

def itemsOfMembers : List Member → List (Option Item)
  | [] => []
  | .field ⟨name, type, attributes⟩ :: ms =>
    some { kind := "field", name, attributes, type := formOfType type } :: itemsOfMembers ms
  | .struct s :: ms => some (itemOfStruct s) :: itemsOfMembers ms
  | .enum e :: ms => some (itemOfEnum e) :: itemsOfMembers ms
  | .oneof o :: ms => some (itemOfOneof o) :: itemsOfMembers ms

def itemOfEnum : Enum → Item
  | ⟨name, namespaces, attributes, isScoped, underlying, values⟩ =>
    { kind := "enum", name, namespaces, attributes, isScoped, underlying,
      values := entriesOfValues values }

def entriesOfValues : List EnumValue → List (Option Value)
  | [] => []
  | ⟨name, number, attributes, payload⟩ :: vs =>
    some { name, number, attributes, payload := formOfType payload } :: entriesOfValues vs

def itemOfOneof : Oneof → Item
  | ⟨name, attributes, alternatives⟩ =>
    { kind := "oneof", name, attributes, alternatives := entriesOfAlternatives alternatives }

def entriesOfAlternatives : List Schemata.Alternative → List (Option Alternative)
  | [] => []
  | ⟨name, type, attributes⟩ :: alts =>
    some { name, type := formOfType type, attributes } :: entriesOfAlternatives alts

end

def itemOfService (s : Service) : Item :=
  { kind := "service", name := s.name, attributes := s.attributes,
    methods := s.methods.map some }

def itemsOfNodes : List Node → List (Option Item)
  | [] => []
  | .struct s :: rest => some (itemOfStruct s) :: itemsOfNodes rest
  | .enum e :: rest => some (itemOfEnum e) :: itemsOfNodes rest
  | .oneof o :: rest => some (itemOfOneof o) :: itemsOfNodes rest
  | .service s :: rest => some (itemOfService s) :: itemsOfNodes rest
  | .space name inner :: rest =>
    some { kind := "namespace", name, items := itemsOfNodes inner } :: itemsOfNodes rest

/-! ### The stacks -/

namespace Builder

theorem addAll_nil : addAll [] = pure "" := by
  funext b
  obtain ⟨document, lists, values⟩ := b
  cases lists <;> simp [addAll] <;> rfl

theorem addAll_append (xs ys : List (Option Item)) :
    (do
      let head ← addAll xs
      return head ++ (← addAll ys)) = addAll (xs ++ ys) := by
  funext b
  obtain ⟨document, lists, values⟩ := b
  cases lists with
  | nil => rfl
  | cons top rest =>
    change ("", (⟨document, (top ++ xs ++ ys) :: rest, values⟩ : Builder)) = _
    rw [List.append_assoc]
    rfl

theorem addValues_nil : addValues [] = pure "" := by
  funext b
  obtain ⟨document, lists, values⟩ := b
  cases values <;> simp [addValues] <;> rfl

theorem addValues_append (xs ys : List (Option Value)) :
    (do
      let head ← addValues xs
      return head ++ (← addValues ys)) = addValues (xs ++ ys) := by
  funext b
  obtain ⟨document, lists, values⟩ := b
  cases values with
  | nil => rfl
  | cons top rest =>
    change ("", (⟨document, lists, (top ++ xs ++ ys) :: rest⟩ : Builder)) = _
    rw [List.append_assoc]
    rfl

/-- What is opened and closed is one more item of the list around it. -/
theorem add_closed (items : List (Option Item)) (close : List (Option Item) → Item) :
    (do
      let opening ← push
      let body ← addAll items
      let closing ← pop >>= fun items => add (close items)
      return opening ++ body ++ closing) = add (close items) := rfl

theorem add_closedEnum (values : List (Option Value)) (close : List (Option Value) → Item) :
    (do
      let opening ← pushEnum
      let body ← addValues values
      let closing ← popEnum >>= fun values => add (close values)
      return opening ++ body ++ closing) = add (close values) := rfl

/-! ### What is traversed -/

variable {walk : Struct → Build String} {n : Nat}

/-- Structs with fewer than `n` types in them become one item each. -/
def WalksBelow (walk : Struct → Build String) (n : Nat) : Prop :=
  ∀ path s, (s.visits path).length < n → walk s = add (itemOfStruct s)

theorem inline_eq {path : String} {s : Struct} (h : WalksBelow walk n)
    (hs : (s.visits path).length < n) : inline walk s = pure (some (itemOfStruct s)) := by
  rw [inline, h path s hs]
  rfl

mutual

theorem form_eq (h : WalksBelow walk n) (path : String) :
    ∀ t : TypeExpr, (t.visits path).length ≤ n → form walk t = pure (formOfType t)
  | .missing, _ => by rw [form, formOfType]
  | .primitive _ _, _ => by rw [form, formOfType]
  | .reference _ _, _ => by rw [form, formOfType]
  | .emptyInline, _ => by rw [form, formOfType]
  | .indirection _ elem, ht => by
    rw [TypeExpr.visits, List.length_cons] at ht
    rw [form, formOfType, form_eq h path elem (by omega), pure_bind]
  | .generic _ args _, ht => by
    rw [TypeExpr.visits, List.length_cons] at ht
    rw [form, formOfType, forms_eq h path args (by omega), pure_bind]
  | .inline body, ht => by
    -- The body has one type less than the type that holds it.
    rw [TypeExpr.visits, List.length_cons] at ht
    rw [form, formOfType, inline_eq h (Nat.lt_of_succ_le ht), pure_bind]

theorem forms_eq (h : WalksBelow walk n) (path : String) : ∀ ts : List TypeExpr,
    (visitsOfTypes path ts).length ≤ n → forms walk ts = pure (formsOfTypes ts)
  | [], _ => by rw [forms, formsOfTypes]
  | t :: ts, hts => by
    rw [visitsOfTypes, List.length_append] at hts
    rw [forms, formsOfTypes, form_eq h path t (by omega), forms_eq h path ts (by omega), pure_bind,
      pure_bind]

end

theorem alternatives_eq (h : WalksBelow walk n) (path : String) :
    ∀ alts : List Schemata.Alternative, (visitsOfAlternatives path alts).length ≤ n →
      alts.mapM (alternative walk) = pure (entriesOfAlternatives alts)
  | [], _ => by rw [List.mapM_nil, entriesOfAlternatives]
  | ⟨name, type, attributes⟩ :: alts, halts => by
    rw [visitsOfAlternatives, List.length_append] at halts
    have htype := form_eq h (joinPath path name) type (by omega)
    rw [List.mapM_cons, alternatives_eq h path alts (by omega), entriesOfAlternatives, alternative,
      htype]
    rfl

theorem oneof_eq (h : WalksBelow walk n) (path : String) (c : Context) (o : Oneof)
    (ho : (visitsOfAlternatives path o.alternatives).length ≤ n) :
    (hooks walk).oneof o c = add (itemOfOneof o) := by
  obtain ⟨name, attributes, alternatives⟩ := o
  change alternatives.mapM (alternative walk) >>= _ = _
  rw [alternatives_eq h path alternatives ho, pure_bind, itemOfOneof]

variable {w : Walker Build}

theorem enumValues_eq (hw : w.hooks = hooks walk) (h : WalksBelow walk n) (path : String)
    (c : Context) : ∀ vs : List EnumValue, (visitsOfValues path vs).length ≤ n →
      w.enumValues c vs = addValues (entriesOfValues vs)
  | [], _ => by rw [Walker.enumValues, entriesOfValues, addValues_nil]
  | ⟨name, number, attributes, payload⟩ :: vs, hvs => by
    rw [visitsOfValues, List.length_append] at hvs
    have hpayload := form_eq h (joinPath path name) payload (by omega)
    have hvalue (isLast type) :
        w.hooks.enumValue ⟨name, number, attributes, payload⟩ isLast type c =
          addValues [some ⟨name, number, attributes, formOfType payload⟩] := by
      rw [hw]
      change form walk payload >>= _ = _
      rw [hpayload, pure_bind]
    rw [Walker.enumValues, entriesOfValues, hvalue, enumValues_eq hw h path c vs (by omega),
      addValues_append, List.singleton_append]

theorem enum_eq (hw : w.hooks = hooks walk) (h : WalksBelow walk n) (path : String) (c : Context)
    (e : Enum) (he : (visitsOfValues path e.values).length ≤ n) :
    w.enum c e = add (itemOfEnum e) := by
  have hvalues := enumValues_eq hw h path { c.nest with owner := some e } e.values he
  obtain ⟨name, namespaces, attributes, isScoped, underlying, values⟩ := e
  rw [Walker.enum, hvalues, hw, itemOfEnum]
  exact add_closedEnum _ _

theorem itemsOfMembers_cons (m : Member) (ms : List Member) :
    itemsOfMembers (m :: ms) = itemsOfMembers [m] ++ itemsOfMembers ms := by
  rcases m with ⟨_, _, _⟩ | _ | _ | _ <;> simp [itemsOfMembers]

theorem takeMember_hooks (m : Member) (c : Context) : (hooks walk).takeMember m c = pure none := rfl

mutual

theorem struct_eq (hw : w.hooks = hooks walk) (h : WalksBelow walk n) (path : String)
    (c : Context) : ∀ s : Struct, (s.visits path).length ≤ n → w.struct c s = add (itemOfStruct s)
  | ⟨name, namespaces, attributes, anonymous, varName, record, abstract, base, ms⟩, hs => by
    rw [Struct.visits] at hs
    rw [Walker.struct, members_eq hw h path _ ms hs, hw, itemOfStruct]
    exact add_closed _ _

theorem members_eq (hw : w.hooks = hooks walk) (h : WalksBelow walk n) (path : String)
    (c : Context) : ∀ ms : List Member, (visitsOfMembers path ms).length ≤ n →
      w.members c ms = addAll (itemsOfMembers ms)
  | [], _ => by rw [Walker.members, itemsOfMembers, addAll_nil]
  | m :: ms, hms => by
    rw [visitsOfMembers, List.length_append] at hms
    rw [itemsOfMembers_cons, Walker.members, member_eq hw h path c m (by omega),
      members_eq hw h path c ms (by omega), addAll_append]

theorem member_eq (hw : w.hooks = hooks walk) (h : WalksBelow walk n) (path : String)
    (c : Context) : ∀ m : Member, (m.visits path).length ≤ n →
      w.member c m = addAll (itemsOfMembers [m])
  | .field ⟨name, type, attributes⟩, hm => by
    rw [Member.visits] at hm
    rw [Walker.member, hw, takeMember_hooks, pure_bind]
    change form walk type >>= _ = _
    rw [form_eq h _ type hm]
    rfl
  | .oneof ⟨name, attributes, alternatives⟩, hm => by
    rw [Member.visits] at hm
    rw [Walker.member, hw, takeMember_hooks, pure_bind]
    exact oneof_eq h _ c _ hm
  | .enum ⟨name, namespaces, attributes, isScoped, underlying, values⟩, hm => by
    rw [Member.visits] at hm
    rw [Walker.member, hw, takeMember_hooks, pure_bind, ← hw]
    exact enum_eq hw h _ c _ hm
  | .struct ⟨name, namespaces, attributes, anonymous, varName, record, abstract, base, ms⟩, hm => by
    rw [Member.visits] at hm
    rw [Walker.member, hw, takeMember_hooks, pure_bind, members_eq hw h _ _ ms hm, itemsOfMembers,
      itemOfStruct]
    exact add_closed _ _

end

/-- The traversal enters structs with as many types in them as it may be deep. -/
theorem exists_hooks_walker (n : Nat) :
    ∃ walk, (walker n).hooks = hooks walk ∧ WalksBelow walk n := by
  induction n with
  | zero =>
    refine ⟨_, rfl, ?_⟩
    intro path s hs
    omega
  | succ n ih =>
    obtain ⟨walk, hw, h⟩ := ih
    refine ⟨_, rfl, ?_⟩
    intro path s hs
    exact struct_eq hw h path {} s (by omega)

theorem itemsOfNodes_cons (d : Node) (rest : List Node) :
    itemsOfNodes (d :: rest) = itemsOfNodes [d] ++ itemsOfNodes rest := by
  cases d <;> simp [itemsOfNodes]

theorem nodes_eq (hw : w.hooks = hooks walk) (h : WalksBelow walk n) (nodes : List Node) :
    ∀ path c, (visitsOfNodes path nodes).length ≤ n →
      w.nodes c nodes = addAll (itemsOfNodes nodes) := by
  induction nodes using Normal.nodesInduction with
  | nil =>
    intro path c _
    rw [Walker.nodes, itemsOfNodes, addAll_nil]
  | cons d rest hinner hrest =>
    intro path c hlength
    have hnode : w.node c d = w.untaken c d := by
      rw [Walker.node, hw]
      rfl
    have hd : w.untaken c d = addAll (itemsOfNodes [d]) ∧ (visitsOfNodes path rest).length ≤ n := by
      cases d <;> simp only [visitsOfNodes, List.length_append] at hlength <;>
        simp only [Walker.untaken, itemsOfNodes] <;> refine ⟨?_, by omega⟩
      case struct s => exact struct_eq hw h (joinPath path s.name) c s (by omega)
      case enum e => exact enum_eq hw h (joinPath path e.name) c e (by omega)
      case oneof o =>
        rw [hw]
        exact oneof_eq h (joinPath path o.name) c o (by omega)
      case service s =>
        rw [hw]
        rfl
      case space name inner =>
        have hitems := hinner name inner rfl (joinPath path name) (w.inside c name) (by omega)
        rw [hitems, hw]
        exact add_closed _ _
    rw [itemsOfNodes_cons, Walker.nodes_cons, hnode, hd.1, hrest path c hd.2, addAll_append]

end Builder

/-- The document of a module has the items of its nodes. -/
theorem ofModule_eq (m : Module) :
    ofModule m = { version := Version.current, source := m.source, namespaces := m.namespaces,
                   items := itemsOfNodes m.nodes } := by
  obtain ⟨walk, hw, hwalk⟩ := Builder.exists_hooks_walker (visitsOfNodes "" m.nodes).length
  have hnodes := fun c => Builder.nodes_eq hw hwalk m.nodes "" c (Nat.le_refl _)
  have hpasses : (Builder.walker (visitsOfNodes "" m.nodes).length).passes = [.normal] := by
    cases (visitsOfNodes "" m.nodes).length <;> rfl
  rw [ofModule, Walker.walk, hpasses, Walker.passesOver, Walker.passesOver, hnodes, hw]
  rfl

end Schemata.Document
