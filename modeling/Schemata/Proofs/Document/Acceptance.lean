import Mathlib
import Schemata.Document.Conversion

/-!
When a document is accepted. For each form of type and each kind of item, one statement
says exactly when reading it succeeds and with what; nothing else is accepted.
-/

namespace Schemata.Document

variable {path : String} {i : Nat} {item : Item}

/-! ### Readings in a row -/

theorem bind_eq_ok {ε α β : Type} {x : Except ε α} {f : α → Except ε β} {b : β} :
    (x >>= f) = .ok b ↔ ∃ a, x = .ok a ∧ f a = .ok b := by
  cases x with
  | error e =>
    constructor
    · intro h
      cases h
    · rintro ⟨a, h, -⟩
      cases h
  | ok a =>
    constructor
    · intro h
      exact ⟨a, rfl, h⟩
    · rintro ⟨a', h, hf⟩
      cases h
      exact hf

theorem pure_eq_ok {ε α : Type} {a b : α} : (pure a : Except ε α) = .ok b ↔ b = a := by
  constructor
  · intro h
    cases h
    rfl
  · rintro rfl
    rfl

/-- A reading that is refused under a condition. -/
theorem refused_eq_ok {α : Type} {c : Prop} [Decidable c] {e : Fault} {x : Except Fault α} {b : α} :
    (if c then (throw e : Except Fault PUnit) >>= fun _ => x else x) = .ok b ↔ ¬c ∧ x = .ok b := by
  by_cases hc : c
  · rw [if_pos hc]
    constructor
    · intro h
      cases h
    · rintro ⟨hn, -⟩
      exact absurd hc hn
  · rw [if_neg hc]
    exact ⟨fun h => ⟨hc, h⟩, fun h => h.2⟩

/-! ### Kind words -/

@[simp] theorem kindOfName_name (path : String) (k : Kind) : kindOfName path k.name = .ok k := by
  cases k <;> rfl

theorem primitive_accepted (k : Kind) :
    ¬(!k.isPrimitive && k != .unknown) = true ↔ k.isPrimitive = true ∨ k = .unknown := by
  cases k <;> decide

theorem container_accepted (k : Kind) :
    ¬(!k.isContainer || k == .optional) = true ↔ k.isContainer = true ∧ k ≠ .optional := by
  cases k <;> decide

/-! ### Types -/

/-- The five forms of type that are read, with what each one asks of its parts. -/
theorem typeOfForm_iff {f : TypeForm} {t : TypeExpr} :
    typeOfForm path f = .ok t ↔
      (f.form = "primitive" ∧ ∃ k, kindOfName path f.kind = .ok k ∧
        (k.isPrimitive = true ∨ k = .unknown) ∧ t = .primitive k f.spelling) ∨
      (f.form = "ref" ∧ f.name ≠ "" ∧ ∃ k, referenceKind path f.kind = .ok k ∧
        t = .reference f.name k) ∨
      (f.form = "indirection" ∧ ∃ k, kindOfName path f.kind = .ok k ∧ k.isIndirection = true ∧
        ∃ below, typeOfForm? (path ++ ".elem") f.elem = .ok below ∧ t = .indirection k below) ∨
      (f.form = "generic" ∧ ∃ k, kindOfName path f.kind = .ok k ∧
        (k.isContainer = true ∧ k ≠ .optional) ∧
        ∃ below, typesOfForms (path ++ ".args") 0 f.args = .ok below ∧
          t = .generic k below f.len) ∨
      (f.form = "inline" ∧ inlineOfItem? (path ++ ".struct") f.struct = .ok t) := by
  obtain ⟨form, kind, name, spelling, elem, args, len, struct⟩ := f
  unfold typeOfForm
  dsimp only
  split
  · simp only [bind_eq_ok, refused_eq_ok, pure_eq_ok, primitive_accepted, true_and,
      String.reduceEq, false_and, or_false]
  · simp only [refused_eq_ok, bind_eq_ok, pure_eq_ok, String.isEmpty_iff, true_and,
      String.reduceEq, false_and, false_or, or_false, ne_eq]
  · simp only [bind_eq_ok, refused_eq_ok, pure_eq_ok, Bool.not_eq_true', Bool.not_eq_false,
      true_and, String.reduceEq, false_and, false_or, or_false]
  · simp only [bind_eq_ok, refused_eq_ok, pure_eq_ok, container_accepted, true_and,
      String.reduceEq, false_and, false_or, or_false]
  · simp only [true_and, String.reduceEq, false_and, false_or]
  next h₁ h₂ h₃ h₄ h₅ =>
    -- any other form word is refused
    constructor
    · intro h
      cases h
    · rintro (⟨hform, -⟩ | ⟨hform, -⟩ | ⟨hform, -⟩ | ⟨hform, -⟩ | ⟨hform, -⟩)
      · exact absurd hform h₁
      · exact absurd hform h₂
      · exact absurd hform h₃
      · exact absurd hform h₄
      · exact absurd hform h₅

theorem typesOfForms_cons_iff {f : Option TypeForm} {fs : List (Option TypeForm)}
    {ts : List TypeExpr} :
    typesOfForms path i (f :: fs) = .ok ts ↔
      ∃ t, typeOfForm? (entryPath path i) f = .ok t ∧
        ∃ rest, typesOfForms path (i + 1) fs = .ok rest ∧ ts = t :: rest := by
  simp only [typesOfForms, bind_eq_ok, pure_eq_ok]

/-! ### Declarations

A struct, an enum or a oneof is read the same way as a member and as a node. -/

def fieldOfItem (path : String) (item : Item) : Except Fault Field := do
  let type ← typeOfForm? (path ++ ".type") item.type
  return ⟨item.name, type, item.attributes⟩

def enumOfItem (path : String) (item : Item) : Except Fault Enum := do
  let values ← valuesOfEntries (path ++ ".values") 0 item.values
  return ⟨item.name, item.namespaces, item.attributes, item.isScoped, item.underlying, values⟩

def oneofOfItem (path : String) (item : Item) : Except Fault Oneof := do
  let alternatives ← alternativesOfEntries (path ++ ".alternatives") 0 item.alternatives
  return ⟨item.name, item.attributes, alternatives⟩

theorem structOfItem_iff {s : Struct} :
    structOfItem path item = .ok s ↔
      ∃ members, membersOfItems (path ++ ".members") 0 item.members = .ok members ∧
        s = ⟨item.name, item.namespaces, item.attributes, item.anonymous, item.varName,
          item.record, item.abstract, item.base, members⟩ := by
  cases item
  simp only [structOfItem, bind_eq_ok, pure_eq_ok]

theorem fieldOfItem_iff {f : Field} :
    fieldOfItem path item = .ok f ↔
      ∃ type, typeOfForm? (path ++ ".type") item.type = .ok type ∧
        f = ⟨item.name, type, item.attributes⟩ := by
  simp only [fieldOfItem, bind_eq_ok, pure_eq_ok]

theorem enumOfItem_iff {e : Enum} :
    enumOfItem path item = .ok e ↔
      ∃ values, valuesOfEntries (path ++ ".values") 0 item.values = .ok values ∧
        e = ⟨item.name, item.namespaces, item.attributes, item.isScoped, item.underlying,
          values⟩ := by
  simp only [enumOfItem, bind_eq_ok, pure_eq_ok]

theorem oneofOfItem_iff {o : Oneof} :
    oneofOfItem path item = .ok o ↔
      ∃ alts, alternativesOfEntries (path ++ ".alternatives") 0 item.alternatives = .ok alts ∧
        o = ⟨item.name, item.attributes, alts⟩ := by
  simp only [oneofOfItem, bind_eq_ok, pure_eq_ok]

theorem membersOfItems_cons_iff {item : Option Item} {items : List (Option Item)}
    {ms : List Member} :
    membersOfItems path i (item :: items) = .ok ms ↔
      ∃ m, memberOfItem (entryPath path i) item = .ok m ∧
        ∃ rest, membersOfItems path (i + 1) items = .ok rest ∧ ms = m :: rest := by
  simp only [membersOfItems, bind_eq_ok, pure_eq_ok]

theorem valuesOfEntries_cons_iff {v : Value} {entries : List (Option Value)}
    {values : List EnumValue} :
    valuesOfEntries path i (some v :: entries) = .ok values ↔
      ∃ payload, optionalType (entryPath path i ++ ".payload") v.payload = .ok payload ∧
        ∃ rest, valuesOfEntries path (i + 1) entries = .ok rest ∧
          values = ⟨v.name, v.number, v.attributes, payload⟩ :: rest := by
  cases v
  simp only [valuesOfEntries, bind_eq_ok, pure_eq_ok]

theorem alternativesOfEntries_cons_iff {a : Alternative} {entries : List (Option Alternative)}
    {alts : List Schemata.Alternative} :
    alternativesOfEntries path i (some a :: entries) = .ok alts ↔
      ∃ type, optionalType (entryPath path i ++ ".type") a.type = .ok type ∧
        ∃ rest, alternativesOfEntries path (i + 1) entries = .ok rest ∧
          alts = ⟨a.name, type, a.attributes⟩ :: rest := by
  cases a
  simp only [alternativesOfEntries, bind_eq_ok, pure_eq_ok]

/-- The four kinds of item that are members. -/
theorem memberOfItem_iff {m : Member} :
    memberOfItem path (some item) = .ok m ↔
      (item.kind = "field" ∧ ∃ f, fieldOfItem path item = .ok f ∧ m = .field f) ∨
      (item.kind = "struct" ∧ ∃ s, structOfItem path item = .ok s ∧ m = .struct s) ∨
      (item.kind = "enum" ∧ ∃ e, enumOfItem path item = .ok e ∧ m = .enum e) ∨
      (item.kind = "oneof" ∧ ∃ o, oneofOfItem path item = .ok o ∧ m = .oneof o) := by
  simp only [fieldOfItem_iff, structOfItem_iff, enumOfItem_iff, oneofOfItem_iff]
  cases item
  unfold memberOfItem
  dsimp only
  split
  case h_5 h₁ h₂ h₃ h₄ => simp [eq_false h₁, eq_false h₂, eq_false h₃, eq_false h₄]
  all_goals
    simp only [bind_eq_ok, pure_eq_ok, true_and, String.reduceEq, false_and, false_or, or_false]
    grind

/-- The five kinds of item that are nodes. -/
theorem nodeOfItem_iff {d : Node} :
    nodeOfItem path (some item) = .ok d ↔
      (item.kind = "struct" ∧ ∃ s, structOfItem path item = .ok s ∧ d = .struct s) ∨
      (item.kind = "enum" ∧ ∃ e, enumOfItem path item = .ok e ∧ d = .enum e) ∨
      (item.kind = "oneof" ∧ ∃ o, oneofOfItem path item = .ok o ∧ d = .oneof o) ∨
      (item.kind = "service" ∧
        d = .service ⟨item.name, item.attributes, item.methods.filterMap id⟩) ∨
      (item.kind = "namespace" ∧
        ∃ nodes, nodesOfItems (path ++ ".items") 0 item.items = .ok nodes ∧
          d = .space item.name nodes) := by
  simp only [structOfItem_iff, enumOfItem_iff, oneofOfItem_iff]
  cases item
  unfold nodeOfItem
  dsimp only
  split
  case h_4 =>
    simp only [true_and, String.reduceEq, false_and, false_or, or_false]
    exact pure_eq_ok
  case h_5 => simp only [bind_eq_ok, pure_eq_ok, true_and, String.reduceEq, false_and, false_or]
  case h_6 h₁ h₂ h₃ h₄ h₅ =>
    simp [eq_false h₁, eq_false h₂, eq_false h₃, eq_false h₄, eq_false h₅]
  all_goals
    simp only [bind_eq_ok, pure_eq_ok, true_and, String.reduceEq, false_and, false_or, or_false]
    grind

theorem nodesOfItems_cons_iff {item : Option Item} {items : List (Option Item)}
    {nodes : List Node} :
    nodesOfItems path i (item :: items) = .ok nodes ↔
      ∃ d, nodeOfItem (entryPath path i) item = .ok d ∧
        ∃ rest, nodesOfItems path (i + 1) items = .ok rest ∧ nodes = d :: rest := by
  simp only [nodesOfItems, bind_eq_ok, pure_eq_ok]

/-! ### Documents -/

/-- The version that is written is one that is read. -/
theorem checkVersion_current : checkVersion Version.current = .ok () := by
  rfl

/-- A document is accepted when its version is and all its items are. -/
theorem toModule_iff {d : Document} {m : Module} :
    toModule d = .ok m ↔ checkVersion d.version = .ok () ∧
      ∃ nodes, nodesOfItems "items" 0 d.items = .ok nodes ∧
        m = ⟨d.source, d.namespaces, nodes⟩ := by
  simp only [toModule, bind_eq_ok, pure_eq_ok]
  exact ⟨fun ⟨_, hv, h⟩ => ⟨hv, h⟩, fun ⟨hv, h⟩ => ⟨_, hv, h⟩⟩

end Schemata.Document
