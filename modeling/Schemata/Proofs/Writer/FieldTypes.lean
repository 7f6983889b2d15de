import Schemata.Proofs.Writer.FieldForms

/-!
Which lines of protobuf messages have a type that the notation has. A line is grammatical if its
form is: a name that begins with a letter, or one word in front of such a name.
-/

namespace Schemata.Writer.Protobuf

open Emission Naming Schemata.Normal List

variable {name : String} {c : Char} {type : TypeExpr} {t : Target} {message : Message}

/-! ### Names -/

/-- A name of ASCII letters, digits, underscores and dots. -/
def IsSimpleName (name : String) : Prop := ∀ c ∈ name.toList, isIdentChar c = true ∨ c = '.'

instance (name : String) : Decidable (IsSimpleName name) :=
  decidable_of_iff ((name.toList.all fun c => isIdentChar c || c == '.') = true)
    (by simp [IsSimpleName])

/-- Whether the last segment of a name begins with a letter, separators apart. -/
def startsWithLetter (name : String) : Bool :=
  ((lastSegment name).toList.find? (!isSeparator ·)).any fun c => isIdentStart c

theorem mem_of_mem_lastSegment (h : c ∈ (lastSegment name).toList) : c ∈ name.toList := by
  rw [lastSegment, String.toList_ofList, mem_reverse] at h
  exact mem_reverse.mp ((List.takeWhile_prefix _).mem h)

theorem isIdentStart_iff (c : Char) : isIdentStart c = true ↔
    (97 ≤ c.toNat ∧ c.toNat ≤ 122) ∨ (65 ≤ c.toNat ∧ c.toNat ≤ 90) ∨ c.toNat = 95 := by
  have hmark : c = '_' ↔ c.toNat = 95 := ⟨fun h => h ▸ rfl, fun h => Char.toNat_inj.mp h⟩
  simp only [isIdentStart, Bool.or_eq_true, Bool.and_eq_true, decide_eq_true_eq, hmark,
    Char.le_def, UInt32.le_iff_toNat_le, or_assoc]
  rfl

theorem isIdentChar_iff (c : Char) : isIdentChar c = true ↔
    isIdentStart c = true ∨ (48 ≤ c.toNat ∧ c.toNat ≤ 57) := by
  simp only [isIdentChar, Bool.or_eq_true, Bool.and_eq_true, decide_eq_true_eq,
    Char.le_def, UInt32.le_iff_toNat_le]
  rfl

theorem isIdentChar_toUpper (h : isIdentChar c = true) :
    isIdentChar (Text.toUpper c) = true ∧
      (isIdentStart (Text.toUpper c) = true ↔ isIdentStart c = true) := by
  rw [isIdentChar_iff, isIdentStart_iff] at h
  have hascii : Text.toUpper c = c.toUpper := if_pos (by omega)
  simp only [isIdentChar_iff, isIdentStart_iff, hascii, Text.toNat_charToUpper]
  split <;> omega

theorem messageName_eq (name : String) :
    messageName builtinTarget name = pascalCase (lastSegment name) := rfl

/-- The characters of a rendered name are letters and digits. -/
theorem mem_messageName (h : IsSimpleName name) (hc : c ∈ (messageName builtinTarget name).toList) :
    isIdentChar c = true ∧ isSeparator c = false := by
  rw [messageName_eq] at hc
  refine ⟨?_, not_isSeparator_of_mem_pascalCase hc⟩
  obtain ⟨d, hd, hsep, hcase⟩ := mem_pascalCase hc
  have hident : isIdentChar d = true := by
    refine (h d (mem_of_mem_lastSegment hd)).resolve_right ?_
    rintro rfl
    cases hsep
  rcases hcase with rfl | rfl
  · exact hident
  · exact (isIdentChar_toUpper hident).1

theorem no_blank_messageName (h : IsSimpleName name) :
    ' ' ∉ (messageName builtinTarget name).toList := by
  intro hblank
  exact absurd (mem_messageName h hblank).2 (by decide)

/-- No rendered name is a keyword or a scalar. -/
theorem messageName_notMem {words : List String} (h : words.all startsLower = true)
    (name : String) : messageName builtinTarget name ∉ words :=
  messageName_eq name ▸ pascalCase_notMem h _

theorem isIdentifier_messageName (h : IsSimpleName name) :
    isIdentifier (messageName builtinTarget name).toList = startsWithLetter name := by
  have hhead : (messageName builtinTarget name).toList.head? =
      ((lastSegment name).toList.find? (!isSeparator ·)).map Text.toUpper := by
    rw [messageName_eq, head?_pascalCase]
  rw [startsWithLetter]
  cases hchars : (messageName builtinTarget name).toList with
  | nil =>
    rw [hchars, head?_nil, eq_comm, Option.map_eq_none_iff] at hhead
    rw [hhead, isIdentifier, Option.any_none]
  | cons c rest =>
    rw [hchars, head?_cons, eq_comm, Option.map_eq_some_iff] at hhead
    obtain ⟨d, hfind, rfl⟩ := hhead
    have hd : isIdentChar d = true := by
      refine (h d (mem_of_mem_lastSegment (mem_of_find?_eq_some hfind))).resolve_right ?_
      rintro rfl
      exact absurd (find?_some hfind) (by decide)
    have hrest : rest.all isIdentChar = true :=
      all_eq_true.mpr fun c hc => (mem_messageName h (by simp [hchars, hc])).1
    rw [hfind, Option.any_some, isIdentifier, hrest, Bool.and_true, Bool.eq_iff_iff]
    exact (isIdentChar_toUpper hd).2

theorem isTypeName_messageName (h : IsSimpleName name) :
    IsTypeName (messageName builtinTarget name) ↔ startsWithLetter name = true := by
  have hsplit : (messageName builtinTarget name).toList.splitOn '.' =
      [(messageName builtinTarget name).toList] := by
    refine splitOnP_eq_singleton fun c hc => ?_
    rw [beq_eq_false_iff_ne]
    rintro rfl
    exact absurd (mem_messageName h hc).2 (by decide)
  have hkeyword : messageName builtinTarget name ∉ keywords := messageName_notMem (by decide) name
  rw [IsTypeName, hsplit, forall_mem_singleton, isIdentifier_messageName h]
  exact and_iff_left hkeyword

/-! ### Forms of the notation -/

namespace Form

def isPlain : Form → Bool
  | .scalar _ => true
  | .message name => startsWithLetter name
  | .repeated _ | .optional _ | .map _ _ => false

def isKey : Form → Bool
  | .scalar k => keyTypes.contains (scalarText k)
  | _ => false

/-- Whether a form can be the type of a field: at most one word in front of a type name. -/
def isField : Form → Bool
  | .repeated elem | .optional elem => elem.isPlain
  | .map key value => key.isKey && value.isPlain
  | form => form.isPlain

def names : Form → List String
  | .scalar _ => []
  | .message name => [name]
  | .repeated elem | .optional elem => elem.names
  | .map key value => key.names ++ value.names

end Form

open Form

theorem isTypeName_scalarText (k : Kind) : IsTypeName (scalarText k) := by
  have hall : ∀ k ∈ Kind.all, IsTypeName (scalarText k) := by decide +kernel
  exact hall k k.mem_all

theorem isTypeName_text {form : Form} (hnames : ∀ name ∈ form.names, IsSimpleName name) :
    IsTypeName form.text ↔ form.isPlain = true := by
  cases form with
  | scalar k => simp [text, isPlain, isTypeName_scalarText k]
  | message name =>
    rw [text, isPlain]
    exact isTypeName_messageName (hnames name mem_cons_self)
  | repeated elem =>
    refine iff_of_false (fun h => h.no_blank ?_) (by simp [isPlain])
    simp [text]
  | optional elem =>
    refine iff_of_false (fun h => h.no_blank ?_) (by simp [isPlain])
    simp [text]
  | map key value =>
    refine iff_of_false (fun h => h.no_blank ?_) (by simp [isPlain])
    simp [text]

theorem text_mem_keyTypes {form : Form} : form.text ∈ keyTypes ↔ form.isKey = true := by
  cases form with
  | scalar k => simp [text, isKey]
  | message name =>
    refine iff_of_false ?_ (by simp [isKey])
    exact messageName_notMem (by decide) name
  | repeated elem =>
    refine iff_of_false (fun h => no_blank_of_mem_keyTypes h ?_) (by simp [isKey])
    simp [text]
  | optional elem =>
    refine iff_of_false (fun h => no_blank_of_mem_keyTypes h ?_) (by simp [isKey])
    simp [text]
  | map key value =>
    refine iff_of_false (fun h => no_blank_of_mem_keyTypes h ?_) (by simp [isKey])
    simp [text]

/-- Words do not nest: a text is that of a field exactly if its form is. -/
theorem isFieldType_text {form : Form} (hnames : ∀ name ∈ form.names, IsSimpleName name) :
    IsFieldType form.text ↔ form.isField = true := by
  cases form with
  | scalar k => exact iff_of_true (.plain (isTypeName_scalarText k)) rfl
  | message name =>
    have hname : IsSimpleName name := hnames name mem_cons_self
    rw [text, Form.isField, isPlain, ← isTypeName_messageName hname]
    · exact ⟨fun h => h.isTypeName (no_blank_messageName hname), .plain⟩
    all_goals simp
  | repeated elem =>
    rw [names] at hnames
    rw [text, isFieldType_repeated, isTypeName_text hnames, Form.isField]
  | optional elem =>
    rw [names] at hnames
    rw [text, isFieldType_optional, isTypeName_text hnames, Form.isField]
  | map key value =>
    rw [names, forall_mem_append] at hnames
    rw [text, isFieldType_map, text_mem_keyTypes, isTypeName_text hnames.2, Form.isField,
      Bool.and_eq_true]

/-! ### Lines -/

def TypeUse.form : TypeUse → Form
  | .base name => .message name
  | .field type => if isRepresentable type then formOf (heldType type) else .scalar .bytes
  | .alternative .missing => .scalar .monostate
  | .alternative type =>
    if isElement (chosenType type) then formOf (chosenType type) else .scalar .bytes

/-- The text of the type of a line is one that the notation has. -/
def TypeUse.IsGrammatical (use : TypeUse) : Prop :=
  match use with
  | .base _ | .field _ => IsFieldType (use.text builtinTarget)
  | .alternative _ => IsTypeName (use.text builtinTarget)

def TypeUse.isWellFormed (use : TypeUse) : Bool :=
  match use with
  | .base _ | .field _ => use.form.isField
  | .alternative _ => use.form.isPlain

structure IsRegular (type : TypeExpr) : Prop where
  sound : SoundType type
  flat : isFlatType type = true
  names : ∀ name ∈ refsOfType type, IsSimpleName name

def TypeUse.IsRegular : TypeUse → Prop
  | .base name => IsSimpleName name
  | .field type => Protobuf.IsRegular type
  | .alternative type => type = .missing ∨ Protobuf.IsRegular type

theorem names_containerForm {k : Kind} {forms : List Form}
    (h : name ∈ (containerForm k forms).names) : ∃ form ∈ forms, name ∈ form.names := by
  rw [containerForm.eq_def] at h
  split at h
  next elem =>
    refine ⟨elem, mem_cons_self, ?_⟩
    split at h
    · exact h
    · split at h
      · exact h
      · cases h
  next key value =>
    split at h
    · rw [names, mem_append] at h
      simpa using h
    · cases h
  next => cases h

mutual

/-- A form renders names that its type refers to. -/
theorem names_formOf : ∀ {type : TypeExpr} {name : String}, name ∈ (formOf type).names →
    name ∈ refsOfType type
  | .missing, _, h => by simp [formOf, names] at h
  | .emptyInline, _, h => by simp [formOf, names] at h
  | .inline _, _, h => by simp [formOf, names] at h
  | .primitive _ _, _, h => by simp [formOf, names] at h
  | .reference _ _, _, h => by simpa [formOf, names, refsOfType] using h
  | .indirection k elem, _, h => by
    rw [formOf] at h
    rw [refsOfType]
    split at h
    · exact names_formOf h
    · exact names_formOf h
  | .generic k args _, _, h => by
    rw [formOf] at h
    rw [refsOfType]
    exact names_formsOf (names_containerForm h)

theorem names_formsOf : ∀ {types : List TypeExpr} {name : String},
    (∃ form ∈ formsOf types, name ∈ form.names) → name ∈ refsOfTypes types
  | [], _, h => by simp [formsOf] at h
  | type :: types, _, h => by
    rw [formsOf, exists_mem_cons_iff] at h
    rw [refsOfTypes, mem_append]
    exact h.imp names_formOf names_formsOf

end

theorem IsRegular.heldType (h : IsRegular type) : IsRegular (heldType type) := by
  rw [Protobuf.heldType.eq_def]
  split
  next elem =>
    split
    · exact ⟨h.sound.2, h.flat, h.names⟩
    · exact h
  next => exact h

theorem IsRegular.chosenType (h : IsRegular type) : IsRegular (chosenType type) := by
  rw [Protobuf.chosenType.eq_def]
  split
  next elem => exact ⟨h.sound.2, h.flat, h.names⟩
  next => exact h

theorem IsRegular.text_eq (h : IsRegular type) :
    loweredText builtinTarget type = (formOf type).text := by
  rw [loweredText_eq, text_formOf type h.sound h.flat]

theorem IsRegular.names_form (h : IsRegular type) :
    ∀ name ∈ (formOf type).names, IsSimpleName name :=
  fun name hname => h.names name (names_formOf hname)

theorem scalarText_bytes : "bytes" = scalarText .bytes := by decide

theorem scalarText_monostate : empty = scalarText .monostate := by decide

/-- A line is written as its form says, and its form renders only simple names. -/
theorem TypeUse.IsRegular.form_spec {use : TypeUse} (h : use.IsRegular) :
    use.text builtinTarget = use.form.text ∧ ∀ name ∈ use.form.names, IsSimpleName name := by
  cases use with
  | base name =>
    refine ⟨rfl, ?_⟩
    rw [TypeUse.form, names, forall_mem_singleton]
    exact h
  | field type =>
    have hheld := Protobuf.IsRegular.heldType h
    rw [TypeUse.text, fieldText, TypeUse.form]
    split
    · exact ⟨hheld.text_eq, hheld.names_form⟩
    · exact ⟨scalarText_bytes, by simp [names]⟩
  | alternative type =>
    rcases h with rfl | h
    · exact ⟨scalarText_monostate, by simp [TypeUse.form, names]⟩
    · have hchosen := h.chosenType
      have hmissing : type = .missing → False := by
        rintro rfl
        exact h.sound
      rw [TypeUse.text, alternativeText, TypeUse.form]
      · split
        · exact ⟨hchosen.text_eq, hchosen.names_form⟩
        · exact ⟨scalarText_bytes, by simp [names]⟩
      all_goals exact hmissing

theorem TypeUse.IsRegular.isGrammatical_iff {use : TypeUse} (h : use.IsRegular) :
    use.IsGrammatical ↔ use.isWellFormed = true := by
  obtain ⟨htext, hnames⟩ := h.form_spec
  cases use with
  | base name => rw [IsGrammatical, isWellFormed, htext, isFieldType_text hnames]
  | field type => rw [IsGrammatical, isWellFormed, htext, isFieldType_text hnames]
  | alternative type => rw [IsGrammatical, isWellFormed, htext, isTypeName_text hnames]

/-! ### Modules -/

/-- A valid module in which nothing is nested, with simple names for what it refers to. -/
structure IsRegularModule (m : Module) : Prop where
  flat : Flat m
  valid : m.issues = []
  references : ∀ name ∈ refsOfNodes m.nodes, IsSimpleName name

/-- What a regular module is made of: the rules on types hold in it, nothing in it is inline, and
its names are simple. -/
structure RegularIn {α : Type} (sound : α → Prop) (flat : α → Bool) (refs : α → List String)
    (x : α) : Prop where
  sound : sound x
  flat : flat x = true
  names : ∀ name ∈ refs x, IsSimpleName name

theorem regular_types {types : List TypeExpr}
    (h : RegularIn SoundTypes areFlatTypes refsOfTypes types) : ∀ type ∈ types, IsRegular type := by
  induction types with
  | nil => simp
  | cons type types ih =>
    obtain ⟨hsound, hflat, hnames⟩ := h
    rw [areFlatTypes, Bool.and_eq_true] at hflat
    rw [refsOfTypes, forall_mem_append] at hnames
    rw [forall_mem_cons]
    exact ⟨⟨hsound.1, hflat.1, hnames.1⟩, ih ⟨hsound.2, hflat.2, hnames.2⟩⟩

theorem regular_alternatives {alts : List Alternative}
    (h : RegularIn SoundAlternatives areFlatAlternatives refsOfAlternatives alts) :
    ∀ a ∈ alts, (TypeUse.alternative a.type).IsRegular := by
  induction alts with
  | nil => simp
  | cons a alts ih =>
    obtain ⟨hsound, hflat, hnames⟩ := h
    cases a
    rw [areFlatAlternatives, all_cons, Bool.and_eq_true] at hflat
    rw [refsOfAlternatives, forall_mem_append] at hnames
    rw [forall_mem_cons]
    exact ⟨hsound.1.imp_right fun htype => ⟨htype, hflat.1, hnames.1⟩,
      ih ⟨hsound.2, hflat.2, hnames.2⟩⟩

theorem regular_payloads {values : List EnumValue}
    (h : RegularIn SoundValues areFlatValues refsOfValues values) :
    ∀ v ∈ values, (TypeUse.alternative v.payload).IsRegular := by
  induction values with
  | nil => simp
  | cons v values ih =>
    obtain ⟨hsound, hflat, hnames⟩ := h
    cases v
    rw [areFlatValues, all_cons, Bool.and_eq_true] at hflat
    rw [refsOfValues, forall_mem_append] at hnames
    rw [forall_mem_cons]
    exact ⟨hsound.1.imp_right fun htype => ⟨htype, hflat.1, hnames.1⟩,
      ih ⟨hsound.2, hflat.2, hnames.2⟩⟩

/-- What a struct extends is no reference, so that a module may be regular around any name here. -/
def TypeUse.HasSimpleBase : TypeUse → Prop
  | .base name => IsSimpleName name
  | .field _ | .alternative _ => True

def Part.IsRegular (part : Part Line) : Prop :=
  ∀ line ∈ part.lines, line.use.HasSimpleBase → line.use.IsRegular

theorem regular_oneofPart {alts : List Alternative}
    (h : ∀ a ∈ alts, (TypeUse.alternative a.type).IsRegular) :
    (oneofPart t name alts).IsRegular := by
  rw [Part.IsRegular, oneofPart, Part.lines, forall_mem_map]
  exact fun a ha _ => h a ha

theorem regular_fieldPart {f : Field} (h : IsRegular f.type) : (fieldPart t f).IsRegular := by
  obtain ⟨name, type, attributes⟩ := f
  rw [fieldPart.eq_def]
  split
  next args len htype =>
    subst htype
    have hargs := regular_types ⟨h.sound.2, h.flat, h.names⟩
    refine regular_oneofPart ?_
    rw [variantAlternatives, forall_mem_map]
    intro entry hentry
    exact .inr (hargs entry.1 (fst_mem_of_mem_zipIdx hentry))
  next =>
    rw [Part.IsRegular, Part.lines, forall_mem_singleton]
    exact fun _ => h

theorem regular_memberParts {x : Member} (h : RegularIn SoundMember isFlatMember refsOfMember x) :
    ∀ part ∈ memberParts t x, part.IsRegular := by
  obtain ⟨hsound, hflat, hnames⟩ := h
  cases x with
  | field f =>
    cases f
    rw [memberParts, forall_mem_singleton]
    exact regular_fieldPart ⟨hsound, hflat, hnames⟩
  | oneof o =>
    cases o
    rw [memberParts, forall_mem_singleton]
    exact regular_oneofPart (regular_alternatives ⟨hsound.2, hflat, hnames⟩)
  | enum e => cases hflat
  | struct s => cases hflat

theorem regular_membersParts {ms : List Member}
    (h : RegularIn SoundMembers (·.all isFlatMember) refsOfMembers ms) :
    ∀ part ∈ ms.flatMap (memberParts t), part.IsRegular := by
  induction ms with
  | nil => simp
  | cons x ms ih =>
    obtain ⟨hsound, hflat, hnames⟩ := h
    rw [all_cons, Bool.and_eq_true] at hflat
    rw [refsOfMembers, forall_mem_append] at hnames
    rw [flatMap_cons, forall_mem_append]
    exact ⟨regular_memberParts ⟨hsound.1, hflat.1, hnames.1⟩, ih ⟨hsound.2, hflat.2, hnames.2⟩⟩

theorem regular_baseParts (base : String) : ∀ part ∈ baseParts base, part.IsRegular := by
  rw [baseParts]
  split
  · simp
  · rw [forall_mem_singleton, Part.IsRegular, Part.lines, forall_mem_singleton]
    exact id

theorem regular_declarations {nodes : List Node}
    (h : RegularIn SoundNodes areFlatNodes refsOfNodes nodes) :
    ∀ d ∈ declarations nodes, RegularIn SoundNode isFlatNode refsOfNode d := by
  refine forall_declarations ?_ ?_ h
  · rintro d rest ⟨hsound, hflat, hnames⟩
    rw [areFlatNodes, Bool.and_eq_true] at hflat
    rw [refsOfNodes, forall_mem_append] at hnames
    exact ⟨⟨hsound.1, hflat.1, hnames.1⟩, ⟨hsound.2, hflat.2, hnames.2⟩⟩
  · rintro name inner ⟨hsound, hflat, hnames⟩
    exact ⟨hsound, hflat, hnames⟩

theorem regular_blocksOf {d : Node} (h : RegularIn SoundNode isFlatNode refsOfNode d)
    (hmessage : .message message ∈ blocksOf t d) :
    ∀ part ∈ message.parts, part.IsRegular := by
  obtain ⟨hsound, hflat, hnames⟩ := h
  cases d with
  | struct s =>
    obtain rfl : message = structMessage t s := by simpa [blocksOf] using hmessage
    rw [structMessage, forall_mem_append]
    refine ⟨regular_baseParts s.base, regular_membersParts ⟨?_, hflat, hnames⟩⟩
    exact ((soundStruct_iff s).mp hsound).2.2
  | enum e =>
    rw [blocksOf] at hmessage
    split at hmessage
    · obtain rfl := Block.message.inj (mem_singleton.mp hmessage)
      rw [forall_mem_singleton]
      refine regular_oneofPart ?_
      rw [payloadAlternatives, forall_mem_map]
      exact regular_payloads ⟨hsound.2, hflat, hnames⟩
    · simp at hmessage
  | oneof o =>
    obtain rfl := Block.message.inj (mem_singleton.mp hmessage)
    rw [forall_mem_singleton]
    exact regular_oneofPart (regular_alternatives ⟨hsound.2, hflat, hnames⟩)
  | _ => simp [blocksOf] at hmessage

theorem mem_messages {m : Module} :
    message ∈ messages t m ↔ ∃ d ∈ declarations m.nodes, .message message ∈ blocksOf t d := by
  rw [messages, blocks, mem_filterMap]
  constructor
  · rintro ⟨block, hblock, hmessage⟩
    obtain ⟨d, hd, hmem⟩ := mem_flatMap.mp hblock
    cases block with
    | message other =>
      obtain rfl := Option.some.inj hmessage
      exact ⟨d, hd, hmem⟩
    | _ => cases hmessage
  · rintro ⟨d, hd, hmem⟩
    exact ⟨.message message, mem_flatMap.mpr ⟨d, hd, hmem⟩, rfl⟩

theorem IsRegularModule.lines {m : Module} (h : IsRegularModule m)
    (hmessage : message ∈ messages t m) :
    ∀ line ∈ message.lines, line.use.HasSimpleBase → line.use.IsRegular := by
  obtain ⟨d, hd, hblock⟩ := mem_messages.mp hmessage
  have hregular := regular_declarations
    ⟨(issues_eq_nil_iff m).mp h.valid, h.flat, h.references⟩ d hd
  intro line hline
  obtain ⟨part, hpart, hmem⟩ := mem_flatMap.mp hline
  exact regular_blocksOf hregular hblock part hpart line hmem

/-- In the file of a regular module a line has a type that the notation has exactly if its form is
one: no word stands in front of another, and the names that are rendered begin with letters. The
line of what a struct extends takes a simple name for it. -/
theorem line_grammatical_iff {m : Module} (h : IsRegularModule m) :
    ((protobuf builtinTarget).write m).1 =
        tidy (preamble builtinTarget m (fileImports builtinTarget m) ++
          blocksText builtinTarget (blocks builtinTarget m)) ∧
      ∀ message ∈ messages builtinTarget m, ∀ line ∈ message.lines, line.use.HasSimpleBase →
        (line.use.IsGrammatical ↔ line.use.isWellFormed = true) :=
  ⟨write_eq builtinTarget m, fun _ hmessage line hline hbase =>
    (h.lines hmessage line hline hbase).isGrammatical_iff⟩

/-- Scores that may be missing one by one; the optional is a container. -/
def sparseScores : TypeExpr := .container .list [.container .optional [.prim .int32]]

def orderLines : TypeExpr := .container .list [.ref "Line"]

def sparseOrder : Struct where
  name := "Order"
  members := [.field { name := "scores", type := sparseScores },
    .field { name := "lines", type := orderLines }]

def sparseOrders : Module where
  nodes := [.struct sparseOrder,
    .struct { name := "Line", members := [.field { name := "sku", type := .prim .string }] }]

theorem sparseOrders_regular : IsRegularModule sparseOrders where
  flat := by decide
  valid := by cbv
  references := by
    have hrefs : refsOfNodes sparseOrders.nodes = ["Line"] := by cbv
    rw [hrefs, forall_mem_singleton]
    decide

theorem sparseOrder_mem :
    structMessage builtinTarget sparseOrder ∈ messages builtinTarget sparseOrders :=
  mem_messages.mpr ⟨.struct sparseOrder, mem_cons_self, mem_cons_self⟩

theorem sparseOrder_uses :
    (structMessage builtinTarget sparseOrder).lines.map Line.use =
      [.field sparseScores, .field orderLines] := rfl

theorem sparseOrders_lines_grammatical :
    IsRegularModule sparseOrders ∧
      (TypeUse.field orderLines).text builtinTarget = "repeated Line" ∧
      (TypeUse.field orderLines).IsGrammatical := by
  refine ⟨sparseOrders_regular, by decide, ?_⟩
  have hmem : .field orderLines ∈ (structMessage builtinTarget sparseOrder).lines.map Line.use := by
    simp [sparseOrder_uses]
  obtain ⟨line, hline, huse⟩ := List.mem_map.mp hmem
  have hiff := (line_grammatical_iff sparseOrders_regular).2 _ sparseOrder_mem line hline
  rw [huse] at hiff
  exact (hiff trivial).mpr (by decide)

/-- The word in front of the scores stands in front of another one. -/
theorem sparseOrders_scores_ungrammatical :
    IsRegularModule sparseOrders ∧
      ∃ message ∈ messages builtinTarget sparseOrders, ∃ line ∈ message.lines,
        line.use.text builtinTarget = "repeated optional int32" ∧ ¬ line.use.IsGrammatical := by
  have hmem : .field sparseScores ∈
      (structMessage builtinTarget sparseOrder).lines.map Line.use := by
    simp [sparseOrder_uses]
  obtain ⟨line, hline, huse⟩ := List.mem_map.mp hmem
  have htext : (TypeUse.field sparseScores).text builtinTarget =
      "repeated " ++ "optional int32" := by decide
  refine ⟨sparseOrders_regular, _, sparseOrder_mem, line, hline, ?_⟩
  rw [huse]
  refine ⟨htext, ?_⟩
  rw [TypeUse.IsGrammatical, htext, isFieldType_repeated]
  decide

end Schemata.Writer.Protobuf
