import Schemata.Proofs.Hcl.ReferenceReading
import Schemata.Proofs.Schema.Shapes

/-!
Types that the block language can express are read back from their text. The writer finds the
name of a constructor by its kind and the reader the kind by the name, so the proof rests on the
two tables being inverse and on the arities of names and kinds being the same; the rest follows
the type.
-/

namespace Schemata.Hcl

open Text List

variable {n : Nat} {k : Kind} {function name : String}

/-! ### Types that can be expressed -/

def IsAscii (s : String) : Prop := ∀ c ∈ s.toList, c.toNat < 128

/-- A dotted name of identifiers that is neither a literal in part nor a kind as a whole. -/
def IsPlainName (name : String) : Prop :=
  ∃ ws : List String, ws ≠ [] ∧ name = String.intercalate "." ws ∧ Kind.ofName? name = none ∧
    ∀ w ∈ ws, IsAscii w ∧ isIdentifier w.toList = true ∧ w ∉ literalWords

mutual

/-- A type that has a form of its own. -/
def IsExpressible : TypeExpr → Prop
  | .missing | .emptyInline => False
  | .primitive k spelling =>
    k = .unknown ∧ IsAscii spelling ∨ k.isPrimitive = true ∧ spelling = ""
  | .reference name k => k = .structRef ∧ IsPlainName name
  | .indirection k elem => k.isIndirection = true ∧ IsExpressible elem
  | .generic k args len =>
    arityProblems k args.length = [] ∧ k ≠ .optional ∧
      (if k = .array then 0 < len else len = 0) ∧ AreExpressible args
  | .inline ⟨name, namespaces, attributes, isAnonymous, varName, isRecord, isAbstract, base,
      members⟩ =>
    name = "" ∧ namespaces = [] ∧ attributes = [] ∧ isAnonymous = true ∧ varName = "" ∧
      isRecord = false ∧ isAbstract = false ∧ base = "" ∧
      (∀ m ∈ members.head?, m.name ≠ "for") ∧ AreExpressibleFields members

def AreExpressible : List TypeExpr → Prop
  | [] => True
  | t :: ts => IsExpressible t ∧ AreExpressible ts

/-- Members that are fields without attributes. -/
def AreExpressibleFields : List Member → Prop
  | [] => True
  | .field ⟨name, type, attributes⟩ :: ms =>
    IsAscii name ∧ IsExpressible type ∧ attributes = [] ∧ AreExpressibleFields ms
  | _ :: _ => False

end

theorem composed_of_isAscii {s : String} (hs : IsAscii s) : composed s = s := by
  rw [composed, if_pos]
  rw [all_eq_true]
  intro c hc
  have := hs c hc
  exact decide_eq_true (by omega)

/-! ### Lengths -/

theorem digitsOf_toDigits (n : Nat) : Number.digitsOf (Nat.toDigits 10 n) = n := by
  have hvalue : ∀ ds, Number.digitsOf ds = Nat.ofDigitChars 10 ds 0 := by
    intro ds
    rw [Number.digitsOf, Nat.ofDigitChars_eq_foldl]
    simp only [Nat.mul_comm]
    rfl
  rw [hvalue, Nat.ofDigitChars_ten_toDigits]

theorem bits_le (hn : n < 2 ^ 63) : Number.bits n ≤ 63 := by
  rw [Number.bits]
  split
  next => omega
  next hne =>
    have := (Nat.log2_lt hne).mpr hn
    omega

theorem parse?_toDigits (hpos : 0 < n) (hn : n < 2 ^ 63) :
    Number.parse? (Nat.toDigits 10 n) = some (.finite false n 0) := by
  have hdigits : ∀ d ∈ Nat.toDigits 10 n, d.isDigit = true :=
    fun d hd => Nat.isDigit_of_mem_toDigits (by decide) (by decide) hd
  have hbits := bits_le hn
  have hvalue := digitsOf_toDigits n
  cases hds : Nat.toDigits 10 n with
  | nil => exact absurd hds Nat.toDigits_ne_nil
  | cons d ds =>
    rw [hds] at hdigits hvalue
    have hd := hdigits d mem_cons_self
    have htake : (d :: ds).takeWhile Char.isDigit = d :: ds :=
      takeWhile_eq_self_iff.mpr hdigits
    have hdrop : (d :: ds).dropWhile Char.isDigit = [] := dropWhile_eq_nil_iff.mpr hdigits
    have hsign : ∀ sign : Char, sign.isDigit = false → d ≠ sign := by
      rintro sign hsign rfl
      rw [hsign] at hd
      cases hd
    have hinf : ((d :: ds) == ['I', 'n', 'f'] || (d :: ds) == ['i', 'n', 'f']) = false := by
      simp [hsign 'I' rfl, hsign 'i' rfl]
    rw [Number.parse?]
    · simp only [hinf, Bool.false_eq_true, if_false, htake, hdrop, isEmpty_cons, Bool.false_and,
        append_nil, hvalue, hpos.ne', Number.exponentOf?, Option.bind_some, length_nil]
      rw [if_neg (by simp [Number.maxExponent]; omega)]
      simp [Number.round, Number.roundTo, Number.precision, show Number.bits n ≤ 512 by omega]
    · rintro cs ⟨⟩
      exact hsign '-' rfl rfl
    · rintro cs ⟨⟩
      exact hsign '+' rfl rfl

theorem toInt64?_ofNat (hn : n < 2 ^ 63) :
    Number.toInt64? (.finite false n 0) = some (Int64.ofInt n) := by
  have hbits := bits_le hn
  rw [Number.toInt64?]
  split
  next hzero => simp [hzero]
  next =>
    rw [if_neg (by omega)]
    simp
    omega

/-- A length is read back from its digits. -/
theorem integerOf_number {n : Number} {i : Int64} (h : n.toInt64? = some i) (place : Place) :
    integerOf (.literal place (.number n)) = .ok i := by
  have hscalar : scalarOf .number place (Expression.literal place (.number n)).value =
      .ok (.number n) := rfl
  rw [integerOf, Expression.place, hscalar]
  simp only [bind, Except.bind, h]
  rfl

theorem readsAs_length {len : Int64} (hlen : 0 < len) :
    ReadsAs (showInt len).toList fun e => integerOf e = .ok len := by
  have hpos : 0 < len.toInt := by simpa [Int64.lt_iff_toInt_lt] using hlen
  have hlt : len.toInt < 2 ^ 63 := len.toInt_lt
  obtain ⟨n, hn⟩ := Int.eq_ofNat_of_zero_le hpos.le
  have htext : (showInt len).toList = Nat.toDigits 10 n := by
    rw [showInt, hn, Int.toString_eq_repr, Int.repr_eq_if]
    simp
  rw [htext]
  refine (readsAs_number Nat.toDigits_ne_nil
    (fun d hd => Nat.isDigit_of_mem_toDigits (by decide) (by decide) hd)
    (parse?_toDigits (by omega) (by omega))).mono ?_
  rintro e ⟨place, rfl⟩
  rw [integerOf_number (toInt64?_ofNat (by omega)) place, ← hn, Int64.ofInt_toInt]

/-! ### Constructors -/

/-- What the reader finds under the name the writer gives to an indirection. -/
theorem constructorName_indirection (hk : k.isIndirection = true) :
    isIdentifier (constructorName k).toList = true ∧
      arityOf? (constructorName k) = some 1 ∧
      indirections.lookup (constructorName k) = some k ∧
      constructorName k ∉ ["object", "opaque", "array"] := by
  revert hk
  cases k <;> decide

/-- What the reader finds under the name the writer gives to a container. -/
theorem constructorName_container (hk : k.isContainer = true) (harray : k ≠ .array)
    (hoptional : k ≠ .optional) :
    isIdentifier (constructorName k).toList = true ∧
      arityOf? (constructorName k) = k.arity? ∧
      indirections.lookup (constructorName k) = none ∧
      containers.lookup (constructorName k) = some k ∧
      constructorName k ∉ ["object", "opaque", "array"] := by
  revert hk harray hoptional
  cases k <;> decide

theorem name_of_isPrimitive (hk : k.isPrimitive = true) :
    isIdentifier k.name.toList = true ∧ Kind.ofName? k.name = some k := by
  revert hk
  cases k <;> decide

/-! ### Calls -/

theorem typeOf_call {arguments : List Expression}
    (h : ∀ n, arityOf? function = some n → arguments.length = n) (place : Place) :
    typeOf (.call place function arguments) = callOf place function arguments := by
  rw [typeOf]
  cases harity : arityOf? function with
  | none => rfl
  | some n => simp [h n harity]

theorem callOf_of_not_mem (h : function ∉ ["object", "opaque", "array"]) (place : Place)
    (arguments : List Expression) :
    callOf place function arguments = typesOf arguments >>= constructed place function := by
  simp only [mem_cons, not_mem_nil, or_false, not_or] at h
  rw [callOf]
  all_goals simp [h]

theorem typesOf_eq {ts : List TypeExpr} {es : List Expression}
    (h : Forall₂ (fun t e => typeOf e = .ok t) ts es) : typesOf es = .ok ts := by
  induction h with
  | nil => rw [typesOf]
  | cons he _ ih =>
    rw [typesOf, he, ih]
    rfl

theorem membersOf_eq {fs : List Field} {items : List (Expression × Expression)}
    (h : Forall₂ (fun f item => keyOf item.1 = .ok f.name ∧ typeOf item.2 = .ok f.type) fs
      items) (hattributes : ∀ f ∈ fs, f.attributes = []) :
    membersOf items = .ok (fs.map Member.field) := by
  induction h with
  | nil => rw [membersOf, map_nil]
  | @cons f item fs items hitem _ ih =>
    obtain ⟨hf, hfs⟩ := forall_mem_cons.mp hattributes
    obtain ⟨name, type, attributes⟩ := f
    obtain rfl : attributes = [] := hf
    obtain ⟨key, value⟩ := item
    rw [membersOf, hitem.1, hitem.2, ih hfs]
    rfl

theorem constructed_indirection (h : indirections.lookup name = some k) (place : Place)
    (elem : TypeExpr) : constructed place name [elem] = .ok (.indirection k elem) := by
  simp only [constructed, h]

theorem constructed_container (hindirection : indirections.lookup name = none)
    (h : containers.lookup name = some k) (place : Place) {args : List TypeExpr}
    (hargs : args ≠ []) : constructed place name args = .ok (.container k args) := by
  simp [constructed, hindirection, h, hargs]

/-- A call is read argument by argument. -/
theorem readsAs_callText (hfunction : isIdentifier function.toList = true) (texts : List String)
    {Ps : List (Expression → Prop)} (h : Forall₂ ReadsAs (texts.map String.toList) Ps) :
    ReadsAs (function ++ "(" ++ String.intercalate ", " texts ++ ")").toList fun e =>
      ∃ place es, Forall₂ (fun P e => P e) Ps es ∧ e = .call place function es := by
  have hread := readsAs_call hfunction h
  rw [String.ofList_toList] at hread
  have htext : (function ++ "(" ++ String.intercalate ", " texts ++ ")").toList =
      function.toList ++
        '(' :: (intercalate [',', ' '] (texts.map String.toList) ++ [')']) := by
    simp [String.toList_intercalate]
  rw [htext]
  exact hread

/-- A call with one argument. -/
theorem readsAs_callOne {text : String} (hfunction : isIdentifier function.toList = true)
    {P : Expression → Prop} (h : ReadsAs text.toList P) :
    ReadsAs (function ++ "(" ++ text ++ ")").toList fun e =>
      ∃ place inner, P inner ∧ e = .call place function [inner] := by
  have hread := readsAs_callText hfunction [text] (.cons h .nil)
  rw [String.intercalate_singleton] at hread
  refine hread.mono ?_
  rintro e ⟨place, es, hes, rfl⟩
  obtain ⟨inner, rest, hP, hrest, rfl⟩ := forall₂_cons_left_iff.mp hes
  cases hrest
  exact ⟨place, inner, hP, rfl⟩

/-! ### Types -/

theorem readsAs_primitive {spelling : String} (h : IsExpressible (.primitive k spelling)) :
    ReadsAs (typeText (.primitive k spelling)).toList fun e =>
      typeOf e = .ok (.primitive k spelling) := by
  rw [IsExpressible] at h
  rw [typeText]
  rcases h with ⟨rfl, hspelling⟩ | ⟨hk, rfl⟩
  · have hquoted : ReadsAs (quoted spelling).toList fun e => textOf e = .ok spelling := by
      have hcomposed := composed_of_isAscii hspelling
      rw [toList_quoted, hcomposed]
      refine (readsAs_quotation spelling.toList).mono ?_
      rintro e ⟨place, place', rfl⟩
      rw [String.ofList_toList]
      exact textOf_template hcomposed place place'
    rw [if_pos rfl]
    have hfunction : isIdentifier "opaque".toList = true := by decide
    refine (readsAs_callOne hfunction hquoted).mono ?_
    rintro e ⟨place, inner, hinner, rfl⟩
    rw [typeOf_call (by simp [arityOf?]), callOf, hinner]
    · rfl
  · have hne : k ≠ .unknown := by
      rintro rfl
      cases hk
    obtain ⟨hidentifier, hname⟩ := name_of_isPrimitive hk
    rw [if_neg hne]
    have hread := readsAs_dottedName (forall_mem_singleton.mpr hidentifier)
    rw [String.intercalate_singleton] at hread
    refine hread.mono ?_
    rintro e ⟨place, he⟩
    rw [he, if_pos (.inl rfl), namedType, hname]
    simp [hk, TypeExpr.prim]

theorem readsAs_reference (h : IsPlainName name) :
    ReadsAs (nameText name).toList fun e => typeOf e = .ok (.ref name) := by
  obtain ⟨ws, hne, rfl, hkind, hws⟩ := h
  have hidentifiers : ∀ w ∈ ws, isIdentifier w.toList = true := fun w hw => (hws w hw).2.1
  rw [nameText_eq, nameParts_intercalate hne hidentifiers, if_pos hidentifiers]
  obtain ⟨w, ws, rfl⟩ := exists_cons_of_ne_nil hne
  refine (readsAs_dottedName hidentifiers).mono ?_
  rintro e ⟨place, he⟩
  rw [he, if_pos (.inr (hws w mem_cons_self).2.2), namedType, hkind]

theorem readsAs_indirection {elem : TypeExpr} (hk : k.isIndirection = true)
    (helem : ReadsAs (typeText elem).toList fun e => typeOf e = .ok elem) :
    ReadsAs (typeText (.indirection k elem)).toList fun e =>
      typeOf e = .ok (.indirection k elem) := by
  obtain ⟨hidentifier, harity, hlookup, hspecial⟩ := constructorName_indirection hk
  rw [typeText]
  refine (readsAs_callOne hidentifier helem).mono ?_
  rintro e ⟨place, inner, hinner, rfl⟩
  rw [typeOf_call (by simp [harity]), callOf_of_not_mem hspecial, typesOf_eq (.cons hinner .nil)]
  exact constructed_indirection hlookup place elem

theorem readsAs_container {args : List TypeExpr} (hk : arityProblems k args.length = [])
    (harray : k ≠ .array) (hoptional : k ≠ .optional)
    (hargs : Forall₂ ReadsAs ((typeTexts args).map String.toList)
      (args.map fun t e => typeOf e = .ok t)) :
    ReadsAs (typeText (.generic k args 0)).toList fun e => typeOf e = .ok (.generic k args 0) := by
  obtain ⟨hcontainer, hpos, hgiven⟩ := arityProblems_eq_nil_iff.mp hk
  obtain ⟨hidentifier, harity, hindirection, hlookup, hspecial⟩ :=
    constructorName_container hcontainer harray hoptional
  rw [typeText, if_neg harray]
  simp only [append_nil]
  refine (readsAs_callText hidentifier _ hargs).mono ?_
  rintro e ⟨place, es, hes, rfl⟩
  rw [forall₂_map_left_iff] at hes
  rw [typeOf_call (by rw [harity, ← hes.length_eq]; exact hgiven), callOf_of_not_mem hspecial,
    typesOf_eq hes]
  exact constructed_container hindirection hlookup place (length_pos_iff.mp hpos)

theorem readsAs_array {elem : TypeExpr} {len : Int64} (hlen : 0 < len)
    (helem : ReadsAs (typeText elem).toList fun e => typeOf e = .ok elem) :
    ReadsAs (typeText (.generic .array [elem] len)).toList fun e =>
      typeOf e = .ok (.generic .array [elem] len) := by
  have htext : typeText (.generic .array [elem] len) =
      "array" ++ "(" ++ String.intercalate ", " [typeText elem, showInt len] ++ ")" := by
    simp [typeText, typeTexts, constructorName]
  rw [htext]
  refine (readsAs_callText (by decide) [typeText elem, showInt len]
    (.cons helem (.cons (readsAs_length hlen) .nil))).mono ?_
  rintro e ⟨place, es, hes, rfl⟩
  obtain ⟨first, es, hfirst, hrest, rfl⟩ := forall₂_cons_left_iff.mp hes
  obtain ⟨second, es, hsecond, hnone, rfl⟩ := forall₂_cons_left_iff.mp hrest
  cases hnone
  have hpositive : ¬ len ≤ 0 := by
    simpa [Int64.lt_iff_toInt_lt, Int64.le_iff_toInt_le] using hlen
  rw [typeOf_call (by simp [arityOf?]), callOf, hfirst, hsecond]
  simp [bind, Except.bind, hpositive]
  rfl

def fieldText (f : Field) : String := keyText f.name ++ " = " ++ typeText f.type

theorem fieldTexts_map_field (fs : List Field) : fieldTexts (fs.map .field) = fs.map fieldText := by
  induction fs with
  | nil => rw [map_nil, fieldTexts, map_nil]
  | cons f fs ih =>
    cases f
    rw [map_cons, fieldTexts, ih, map_cons, fieldText]

theorem itemText_field :
    itemText Field.name (fun f => (typeText f.type).toList) = String.toList ∘ fieldText := by
  funext f
  simp [fieldText, itemText]

theorem typeText_inline_cons (f : Field) (fs : List Field) :
    typeText (.inline { isAnonymous := true, members := (f :: fs).map .field }) =
      "object" ++ "(" ++
        (r"{ " ++ String.intercalate ", " ((f :: fs).map fieldText) ++ r" }") ++ ")" := by
  rw [typeText, fieldTexts_map_field, map_cons]
  apply String.toList_injective
  simp

/-- An inline struct of fields, without any other property. -/
theorem readsAs_inline {fs : List Field} (hfor : ∀ f ∈ fs.head?, f.name ≠ "for")
    (hfs : ∀ f ∈ fs, f.attributes = [] ∧ IsAscii f.name ∧
      ReadsAs (typeText f.type).toList fun e => typeOf e = .ok f.type) :
    ReadsAs (typeText (.inline { isAnonymous := true, members := fs.map .field })).toList fun e =>
      typeOf e = .ok (.inline { isAnonymous := true, members := fs.map .field }) := by
  obtain ⟨inner, hinner, hobject⟩ : ∃ inner : String,
      typeText (.inline { isAnonymous := true, members := fs.map .field }) =
        "object" ++ "(" ++ inner ++ ")" ∧
      ReadsAs inner.toList fun e => ∃ place items,
        Forall₂ (fun f item => keyOf item.1 = .ok f.name ∧ typeOf item.2 = .ok f.type) fs
          items ∧ e = .object place items := by
    cases fs with
    | nil =>
      refine ⟨"{}", by rw [typeText, map_nil, fieldTexts]; rfl, ?_⟩
      refine readsAs_emptyObject.mono ?_
      rintro e ⟨place, rfl⟩
      exact ⟨place, [], .nil, rfl⟩
    | cons f fs =>
      refine ⟨_, typeText_inline_cons f fs, ?_⟩
      have hread := readsAs_object Field.name (fun f => (typeText f.type).toList)
        (fun f e => typeOf e = .ok f.type)
        (fun g hg => composed_of_isAscii (hfs g hg).2.1) (hfor f rfl)
        (fun g hg => (hfs g hg).2.2)
      rw [itemText_field] at hread
      simpa [String.toList_intercalate] using hread
  rw [hinner]
  refine (readsAs_callOne (by decide) hobject).mono ?_
  rintro e ⟨place, inner, ⟨place', items, hitems, rfl⟩, rfl⟩
  rw [typeOf_call (by simp [arityOf?]), callOf, membersOf_eq hitems fun f hf => (hfs f hf).1]
  rfl

mutual

theorem readsAs_type (t : TypeExpr) (ht : IsExpressible t) :
    ReadsAs (typeText t).toList fun e => typeOf e = .ok t := by
  cases t with
  | missing => cases ht
  | emptyInline => cases ht
  | primitive k spelling => exact readsAs_primitive ht
  | reference name k =>
    obtain ⟨rfl, hname⟩ := ht
    exact readsAs_reference hname
  | indirection k elem => exact readsAs_indirection ht.1 (readsAs_type elem ht.2)
  | generic k args len =>
    obtain ⟨hk, hoptional, hlen, hargs⟩ := ht
    have hread := readsAs_types args hargs
    by_cases harray : k = .array
    · subst harray
      obtain ⟨-, -, hgiven⟩ := arityProblems_eq_nil_iff.mp hk
      obtain ⟨elem, rfl⟩ := length_eq_one_iff.mp (hgiven 1 rfl)
      cases hread with
      | cons helem _ => exact readsAs_array (by simpa using hlen) helem
    · obtain rfl : len = 0 := by simpa [harray] using hlen
      exact readsAs_container hk harray hoptional hread
  | inline s =>
    obtain ⟨name, namespaces, attributes, isAnonymous, varName, isRecord, isAbstract, base,
      members⟩ := s
    obtain ⟨rfl, rfl, rfl, rfl, rfl, rfl, rfl, rfl, hfor, hmembers⟩ := ht
    obtain ⟨fs, rfl, hfs⟩ := readsAs_fields members hmembers
    refine readsAs_inline ?_ hfs
    simpa [Member.name] using hfor

theorem readsAs_types (ts : List TypeExpr) (hts : AreExpressible ts) :
    Forall₂ ReadsAs ((typeTexts ts).map String.toList)
      (ts.map fun t e => typeOf e = .ok t) := by
  cases ts with
  | nil => exact .nil
  | cons t ts => exact .cons (readsAs_type t hts.1) (readsAs_types ts hts.2)

theorem readsAs_fields (ms : List Member) (hms : AreExpressibleFields ms) :
    ∃ fs : List Field, ms = fs.map .field ∧ ∀ f ∈ fs, f.attributes = [] ∧ IsAscii f.name ∧
      ReadsAs (typeText f.type).toList fun e => typeOf e = .ok f.type := by
  match ms, hms with
  | [], _ => exact ⟨[], rfl, by simp⟩
  | .field ⟨name, type, attributes⟩ :: ms, hms =>
    obtain ⟨hname, htype, hattributes, hms⟩ := hms
    obtain ⟨fs, rfl, hfs⟩ := readsAs_fields ms hms
    exact ⟨⟨name, type, attributes⟩ :: fs, rfl,
      forall_mem_cons.mpr ⟨⟨hattributes, hname, readsAs_type type htype⟩, hfs⟩⟩

end

/-- Every type that can be expressed is read back from its text, as an expression on its own and
on the line of a body. -/
theorem type_read_back {t : TypeExpr} (ht : IsExpressible t) :
    (∃ e, parseExpression (typeText t).toList = .ok e ∧ typeOf e = .ok t) ∧
      readTypeLine (typeText t) = .ok t := by
  have hread := readsAs_type t ht
  obtain ⟨e, he, hline⟩ := hread.readTypeLine_eq
  exact ⟨hread.parseExpression_eq, hline.trans he⟩

/-- Fields whose names need quotation marks or are words of the language, containers of every
arity, and an unknown type whose text holds what a quotation has to escape. -/
theorem type_read_back_nested :
    let t : TypeExpr := .inline { isAnonymous := true, members := [
      .field ⟨"2d point", .container .pair [.prim .float64, .prim .float64], []⟩,
      .field ⟨"for", .container .map [.prim .string, .generic .array
        [.indirection .pointer (.ref "orders.Line")] 3], []⟩,
      .field ⟨"null", .container .variant [.opaqueText "a \"${b}\"\n",
        .indirection .optional (.container .tuple [.inline { isAnonymous := true }])], []⟩] }
    IsExpressible t ∧ (∃ e, parseExpression (typeText t).toList = .ok e ∧ typeOf e = .ok t) ∧
      readTypeLine (typeText t) = .ok t := by
  intro t
  have hname : IsPlainName "orders.Line" := by
    refine ⟨["orders", "Line"], by decide, by decide, by decide, ?_⟩
    simp only [List.forall_mem_cons, List.not_mem_nil, false_implies, implies_true, and_true]
    exact ⟨⟨by simp [IsAscii], by decide, by decide⟩, by simp [IsAscii], by decide, by decide⟩
  have ht : IsExpressible t := by
    simp [t, IsExpressible, AreExpressible, AreExpressibleFields, TypeExpr.container,
      TypeExpr.prim, TypeExpr.ref, TypeExpr.opaqueText, hname, arityProblems, Kind.isContainer,
      Kind.arity?, Kind.isPrimitive, Kind.isIndirection, Kind.isOwnership, Member.name, IsAscii]
  exact ⟨ht, type_read_back ht⟩

end Schemata.Hcl
