import Schemata.Proofs.Emission.Identifiers
import Schemata.Proofs.GoSyntax.FormReading
import Schemata.Proofs.Lowering.Filling
import Schemata.Proofs.Naming.Pascal
import Schemata.Proofs.Schema.References

/-!
Go types that are read and written again. The text of a type is that of a form, which reading
accepts, and what is written then differs from it in two places. A slice of `uint8` is read as
bytes and written as a slice of `byte`, and an empty struct is only kept where it is the value of
a map.
-/

namespace Schemata.Writer.Go

open Emission GoSyntax Naming Template List

variable {k : Kind} {g : TypeForm}

def builtinTarget : Target := Catalog.goTarget.build "go"

def builtinLowerer : Lowerer := lowererOf builtinTarget

def loweredText (type : TypeExpr) : String := (builtinLowerer.typeName type).text

/-! ### Rows -/

/-- The rows of containers and indirections, as what they put around their arguments. -/
def rowOf? : Kind → Option (List Template.Piece)
  | .list => some (literals "[]" ++ [.argument 0])
  | .array => some (literals "[" ++ .argument 1 :: (literals "]" ++ [.argument 0]))
  | .map | .unorderedMap => some (literals "map[" ++ .argument 0 :: (literals "]" ++ [.argument 1]))
  | .set | .unorderedSet =>
    some (literals "map[" ++ .argument 0 :: literals "]struct{}")
  | .optional | .pointer | .uniquePtr | .sharedPtr => some (literals "*" ++ [.argument 0])
  | .variant => some (literals "any")
  | _ => none

theorem pieces_nameTemplate? : ∀ k ∈ Kind.all, k.isContainer || k.isIndirection →
    (builtinLowerer.nameTemplate? k).map pieces = rowOf? k := by
  decide +kernel

/-! ### Writing forms -/

theorem isPlain_builtinLowerer : builtinLowerer.IsPlain := ⟨fun _ => rfl, rfl⟩

theorem typeName_eq (name : String) :
    typeName builtinTarget name = pascalCase (lastSegment name) := rfl

theorem loweredText_eq (type : TypeExpr) :
    loweredText type = (builtinLowerer.phrase type).text builtinLowerer :=
  (Lowerer.text_phrase isPlain_builtinLowerer type).symm

theorem loweredText_reference (name : String) (k : Kind) :
    loweredText (.reference name k) = typeName builtinTarget name := by
  rw [loweredText_eq, Lowerer.phrase, Phrase.text, builtinLowerer, lowererOf]

theorem textsOfPhrases_eq (types : List TypeExpr) :
    textsOfPhrases builtinLowerer (builtinLowerer.phrases types) = types.map loweredText := by
  induction types with
  | nil => rfl
  | cons type types ih =>
    rw [Lowerer.phrases, textsOfPhrases, ih, map_cons, loweredText_eq]

/-- Containers without a row are written as any. -/
theorem chars_generic_eq {args : List TypeExpr} (harity : arityProblems k args.length = [])
    (len : Int64) :
    (loweredText (.generic k args len)).toList = ((rowOf? (containerKind k len)).map
      (filledChars (args.map loweredText ++ lengthArgument k len) "any")).getD
        "any".toList := by
  have hk := isContainer_containerKind harity len
  rw [← pieces_nameTemplate? _ (Kind.mem_all _) (by simp [hk]), loweredText_eq, Lowerer.phrase]
  cases builtinLowerer.nameTemplate? (containerKind k len) with
  | none => rfl
  | some template =>
    simp only [Phrase.text, textsOfPhrases_append, textsOfPhrases_verbatim, textsOfPhrases_eq,
      Option.map_some, Option.getD_some]
    exact builtinLowerer.toList_fill rfl _

theorem chars_indirection (hk : k.isIndirection = true) (elem : TypeExpr) :
    (loweredText (.indirection k elem)).toList = '*' :: (loweredText elem).toList := by
  have hrow : rowOf? k = some (literals "*" ++ [.argument 0]) := by
    cases k <;> cases hk <;> rfl
  have htemplate := pieces_nameTemplate? k k.mem_all (by simp [hk])
  rw [hrow, Option.map_eq_some_iff] at htemplate
  obtain ⟨template, hname, hpieces⟩ := htemplate
  have hindirection : builtinLowerer.indirectionName? k = some (k, template) := by
    rw [Lowerer.indirectionName?, hname]
    rfl
  rw [loweredText_eq, Lowerer.phrase, hindirection, loweredText_eq elem, Phrase.text,
    builtinLowerer.toList_fill hpieces, filledChars_literals_append, filledChars_argument,
    filledChars_end, append_nil]
  rfl

/-- The form of a container; tuples, pairs and variants have none of their own. -/
def containerForm (k : Kind) (len : Int64) : List TypeForm → TypeForm
  | [elem] =>
    match k with
    | .list => .slice elem
    | .array => if 0 < len then .array len elem else .slice elem
    | .set | .unorderedSet => .map elem .empty
    | .optional => .pointer elem
    | _ => .name "any"
  | [key, value] => if k = .map ∨ k = .unorderedMap then .map key value else .name "any"
  | _ => .name "any"

theorem chars_array (elem : TypeExpr) {form : TypeForm} (len : Int64)
    (helem : (loweredText elem).toList = form.chars) :
    (loweredText (.generic .array [elem] len)).toList =
      (containerForm .array len [form]).chars := by
  have hforms : containerForm .array len [form] =
      if 0 < len then .array len form else .slice form := rfl
  rw [chars_generic_eq rfl, hforms]
  by_cases hlen : 0 < len
  · simp only [containerKind, lengthArgument, Int64.not_le.mpr hlen, hlen, and_false, and_self,
      if_false, if_true, rowOf?, map_cons, map_nil, cons_append, nil_append,
      Option.map_some, Option.getD_some, filledChars_literals_append, filledChars_argument,
      filledChars_end, getD_cons_zero, getD_cons_succ, append_nil, helem]
    rfl
  · simp only [containerKind, lengthArgument, Int64.not_lt.mp hlen, hlen, and_false, and_self,
      if_false, if_true, rowOf?, map_cons, map_nil, append_nil, Option.map_some, Option.getD_some,
      filledChars_literals_append, filledChars_argument, filledChars_end, getD_cons_zero, helem]
    rfl

theorem chars_generic {args : List TypeExpr} {forms : List TypeForm} (len : Int64)
    (harity : arityProblems k args.length = [])
    (hargs : args.map (fun t => (loweredText t).toList) = forms.map TypeForm.chars) :
    (loweredText (.generic k args len)).toList = (containerForm k len forms).chars := by
  -- arrays apart, containers take their own row and have no length
  by_cases harray : k = .array
  · subst harray
    have hone : args.length = 1 := by simpa using container_cases harity
    obtain ⟨elem, rfl⟩ := length_eq_one_iff.mp hone
    obtain ⟨form, rfl, hform⟩ := map_eq_singleton_iff.mp hargs.symm
    exact chars_array elem len hform.symm
  obtain ⟨hkind, hlength⟩ := containerKind_of_ne harray len
  rw [chars_generic_eq harity, hkind, hlength, append_nil]
  rcases container_cases harity with ⟨hone, hk⟩ | ⟨htwo, hk⟩ | hk
  · obtain ⟨elem, rfl⟩ := length_eq_one_iff.mp hone
    obtain ⟨form, rfl, hform⟩ := map_eq_singleton_iff.mp hargs.symm
    rcases hk with rfl | rfl | rfl | rfl | rfl
    case inr.inl => exact absurd rfl harray
    all_goals
      simp only [rowOf?, map_cons, map_nil, Option.map_some, Option.getD_some,
        filledChars_literals, filledChars_literals_append, filledChars_argument, filledChars_end,
        getD_cons_zero, append_nil, ← hform]
      rfl
  · obtain ⟨key, value, rfl⟩ := length_eq_two.mp htwo
    obtain ⟨keyForm, _, rfl, hkey, hrest⟩ := map_eq_cons_iff.mp hargs.symm
    obtain ⟨valueForm, rfl, hvalue⟩ := map_eq_singleton_iff.mp hrest
    rcases hk with rfl | rfl
    all_goals
      simp only [rowOf?, map_cons, map_nil, Option.map_some, Option.getD_some,
        filledChars_literals_append, filledChars_argument, filledChars_end, getD_cons_zero,
        getD_cons_succ, append_nil, ← hkey, ← hvalue]
      rfl
  · have hany : containerForm k len forms = .name "any" := by
      rw [containerForm.eq_def]
      rcases hk with rfl | rfl | rfl <;> split <;> rfl
    rw [hany, TypeForm.chars]
    rcases hk with rfl | rfl | rfl
    · rfl
    · rfl
    · exact filledChars_literals "any"

def scalarForm : Kind → TypeForm
  | .bytes => .slice (.name "byte")
  | .char => .name "rune"
  | .datetime | .date | .time => .qualified "time" "Time"
  | .duration => .qualified "time" "Duration"
  | .uuid => .qualified "uuid" "UUID"
  | .decimal | .url | .email => .name "string"
  | .monostate => .empty
  | k => .name k.name

theorem scalar_eq : ∀ k ∈ Kind.all, k.isPrimitive = true →
    (builtinLowerer.scalar k "").text.toList = (scalarForm k).chars := by
  decide +kernel

theorem chars_primitive (hk : k.isPrimitive = true) (spelling : String) :
    (loweredText (.primitive k spelling)).toList = (scalarForm k).chars := by
  have hpass : ∀ s, ¬ (k = .unknown ∧ s ≠ "" ∧ builtinLowerer.passthrough = true) := by
    rintro s ⟨rfl, -⟩
    cases hk
  rw [← scalar_eq k k.mem_all hk, loweredText_eq, Lowerer.phrase, Phrase.text, Lowerer.scalar,
    Lowerer.scalar, if_neg (hpass spelling), if_neg (hpass "")]
  split
  · split <;> rfl
  · rfl

mutual

/-- Whether a type has neither inline structs nor scalars that only their spelling describes. -/
def isConcrete : TypeExpr → Bool
  | .primitive k _ => k != .unknown
  | .missing | .reference _ _ => true
  | .indirection _ elem => isConcrete elem
  | .generic _ args _ => areConcrete args
  | .inline _ | .emptyInline => false

def areConcrete : List TypeExpr → Bool
  | [] => true
  | t :: ts => isConcrete t && areConcrete ts

end

mutual

def formOf : TypeExpr → TypeForm
  | .primitive k _ => scalarForm k
  | .reference name _ => .name (typeName builtinTarget name)
  | .indirection _ elem => .pointer (formOf elem)
  | .generic k args len => containerForm k len (formsOf args)
  | .missing | .inline _ | .emptyInline => .name "any"

def formsOf : List TypeExpr → List TypeForm
  | [] => []
  | t :: ts => formOf t :: formsOf ts

end

mutual

theorem chars_formOf : ∀ type : TypeExpr, SoundType type → isConcrete type = true →
    (loweredText type).toList = (formOf type).chars
  | .missing, hsound, _ => hsound.elim
  | .emptyInline, hsound, _ => hsound.elim
  | .inline _, _, hconcrete => absurd hconcrete (by simp [isConcrete])
  | .primitive k s, hsound, hconcrete => by
    rw [isConcrete, bne_iff_ne] at hconcrete
    exact chars_primitive (hsound.resolve_left hconcrete) s
  | .reference name _, _, _ => by rw [loweredText_reference, formOf, TypeForm.chars]
  | .indirection k elem, hsound, hconcrete => by
    rw [chars_indirection hsound.1, formOf, TypeForm.chars, chars_formOf elem hsound.2 hconcrete]
  | .generic k args len, hsound, hconcrete => by
    rw [formOf]
    exact chars_generic len hsound.1 (chars_formsOf args hsound.2 hconcrete)

theorem chars_formsOf : ∀ types : List TypeExpr, SoundTypes types → areConcrete types = true →
    types.map (fun t => (loweredText t).toList) = (formsOf types).map TypeForm.chars
  | [], _, _ => rfl
  | type :: types, hsound, hconcrete => by
    rw [areConcrete, Bool.and_eq_true] at hconcrete
    rw [map_cons, chars_formOf type hsound.1 hconcrete.1,
      chars_formsOf types hsound.2 hconcrete.2, formsOf, map_cons]

end

/-! ### Forms that are read -/

/-- Whether the names of a form are written as they were read. That of bytes is only written in
slices. -/
def isStable : TypeForm → Bool
  | .name text => loweredText (TypeForm.name text).read == text
  | .qualified package text =>
    loweredText (TypeForm.qualified package text).read == package ++ "." ++ text
  | .pointer elem | .array _ elem => isStable elem
  | .slice elem => elem == .name "byte" || isStable elem
  | .map key value => isStable key && isStable value
  | .empty => true

/-- A form that a type can be written in. -/
def IsWritten (g : TypeForm) : Prop := g.IsLegal ∧ isStable g = true

instance (g : TypeForm) : Decidable (IsWritten g) := inferInstanceAs (Decidable (_ ∧ _))

theorem isWritten_scalarForm : ∀ k ∈ Kind.all, k.isPrimitive = true → IsWritten (scalarForm k) := by
  decide +kernel

theorem isWritten_any : IsWritten (.name "any") := by decide

theorem lastSegment_pascalCase (s : String) : lastSegment (pascalCase s) = pascalCase s := by
  have hkeep : ∀ c ∈ (pascalCase s).toList.reverse, (c != '.') = true := by
    intro c hc
    rw [mem_reverse] at hc
    rw [bne_iff_ne]
    rintro rfl
    exact absurd (not_isSeparator_of_mem_pascalCase hc) (by decide)
  rw [lastSegment, takeWhile_eq_self_iff.mpr hkeep, reverse_reverse, String.ofList_toList]

/-- A name in Pascal case is none of those known. -/
theorem read_pascalCase (s : String) :
    (TypeForm.name (pascalCase s)).read = .ref (pascalCase s) := by
  have hwords : ("any" :: builtins.map Prod.fst).all startsLower = true := by decide
  have hnone := pascalCase_notMem hwords s
  rw [mem_cons, not_or] at hnone
  have hbuiltin : builtins.lookup (pascalCase s) = none := by
    rw [lookup_eq_none_iff]
    intro entry hentry
    rw [bne_iff_ne]
    intro heq
    rw [heq] at hnone
    exact hnone.2 (mem_map_of_mem hentry)
  rw [TypeForm.read, hbuiltin]
  exact if_neg hnone.1

theorem isWritten_typeName {name : String} (h : isName (typeName builtinTarget name) = true) :
    IsWritten (.name (typeName builtinTarget name)) := by
  refine ⟨h, ?_⟩
  rw [isStable, beq_iff_eq, typeName_eq, read_pascalCase, TypeExpr.ref, loweredText_reference,
    typeName_eq, lastSegment_pascalCase, pascalCase_pascalCase]

theorem isWritten_containerForm (k : Kind) (len : Int64) {forms : List TypeForm}
    (h : ∀ g ∈ forms, IsWritten g) : IsWritten (containerForm k len forms) := by
  have hslice {g : TypeForm} (hg : IsWritten g) : IsWritten (.slice g) :=
    ⟨hg.1, by rw [isStable, hg.2, Bool.or_true]⟩
  have hmap {key value : TypeForm} (hkey : IsWritten key) (hvalue : IsWritten value) :
      IsWritten (.map key value) :=
    ⟨⟨hkey.1, hvalue.1⟩, by rw [isStable, hkey.2, hvalue.2, Bool.and_self]⟩
  have hempty : IsWritten .empty := ⟨trivial, rfl⟩
  rw [containerForm.eq_def]
  split
  case h_1 elem =>
    have helem := h elem mem_cons_self
    split
    case h_1 => exact hslice helem
    case h_2 =>
      split
      case isTrue hlen => exact ⟨⟨hlen, helem.1⟩, helem.2⟩
      case isFalse => exact hslice helem
    case h_3 => exact hmap helem hempty
    case h_4 => exact hmap helem hempty
    case h_5 => exact helem
    case h_6 => exact isWritten_any
  case h_2 key value =>
    rw [forall_mem_cons, forall_mem_singleton] at h
    split
    · exact hmap h.1 h.2
    · exact isWritten_any
  case h_3 => exact isWritten_any

mutual

theorem isWritten_formOf : ∀ type : TypeExpr, SoundType type → isConcrete type = true →
    (∀ name ∈ refsOfType type, isName (typeName builtinTarget name) = true) →
    IsWritten (formOf type)
  | .missing, hsound, _, _ => hsound.elim
  | .emptyInline, hsound, _, _ => hsound.elim
  | .inline _, _, hconcrete, _ => absurd hconcrete (by simp [isConcrete])
  | .primitive k s, hsound, hconcrete, _ => by
    rw [isConcrete, bne_iff_ne] at hconcrete
    exact isWritten_scalarForm k k.mem_all (hsound.resolve_left hconcrete)
  | .reference name _, _, _, hnames => isWritten_typeName (hnames name (by simp [refsOfType]))
  | .indirection k elem, hsound, hconcrete, hnames =>
    isWritten_formOf elem hsound.2 hconcrete hnames
  | .generic k args len, hsound, hconcrete, hnames =>
    isWritten_containerForm k len (isWritten_formsOf args hsound.2 hconcrete hnames)

theorem isWritten_formsOf : ∀ types : List TypeExpr, SoundTypes types → areConcrete types = true →
    (∀ name ∈ refsOfTypes types, isName (typeName builtinTarget name) = true) →
    ∀ g ∈ formsOf types, IsWritten g
  | [], _, _, _, _, hg => absurd hg not_mem_nil
  | type :: types, hsound, hconcrete, hnames, g, hg => by
    rw [areConcrete, Bool.and_eq_true] at hconcrete
    rw [refsOfTypes, forall_mem_append] at hnames
    rw [formsOf, mem_cons] at hg
    rcases hg with rfl | hg
    · exact isWritten_formOf type hsound.1 hconcrete.1 hnames.1
    · exact isWritten_formsOf types hsound.2 hconcrete.2 hnames.2 g hg

end

/-! ### Written again -/

def rewritten : TypeForm → TypeForm
  | .name text => .name text
  | .qualified package text => .qualified package text
  | .pointer elem => .pointer (rewritten elem)
  | .slice elem => .slice (if elem = .name "uint8" then .name "byte" else rewritten elem)
  | .array length elem => .array length (rewritten elem)
  | .map key value => .map (rewritten key) (if value = .empty then .empty else rewritten value)
  | .empty => .name "any"

/-- Whether there are no slices of `uint8`, and empty structs only as values of maps. -/
def isFixed : TypeForm → Bool
  | .name _ | .qualified _ _ => true
  | .pointer elem | .array _ elem => isFixed elem
  | .slice elem => elem != .name "uint8" && isFixed elem
  | .map key value => isFixed key && (value == .empty || isFixed value)
  | .empty => false

theorem eq_of_isByte (h : g.isByte = true) : g = .name "byte" ∨ g = .name "uint8" := by
  cases g with
  | name text => simpa [TypeForm.isByte] using h
  | _ => cases h

theorem chars_read (h : IsWritten g) : (loweredText g.read).toList = (rewritten g).chars := by
  obtain ⟨hlegal, hstable⟩ := h
  induction g with
  | name text =>
    rw [isStable, beq_iff_eq] at hstable
    rw [hstable, rewritten, TypeForm.chars]
  | qualified package text =>
    rw [isStable, beq_iff_eq] at hstable
    rw [hstable, rewritten, TypeForm.chars]
    simp
  | pointer elem ih =>
    rw [TypeForm.read, chars_indirection rfl, ih hlegal hstable, rewritten, TypeForm.chars]
  | slice elem ih =>
    rw [TypeForm.read, rewritten]
    -- only inside a slice is `byte` a name that is written, since there it is read with the slice
    by_cases hbyte : elem.isByte = true
    · have htext := chars_primitive (k := .bytes) rfl ""
      rw [if_pos hbyte]
      rcases eq_of_isByte hbyte with rfl | rfl <;> exact htext
    · have hne : elem ≠ .name "byte" ∧ elem ≠ .name "uint8" := by
        constructor <;> rintro rfl <;> exact hbyte rfl
      rw [isStable, Bool.or_eq_true, beq_iff_eq] at hstable
      have helem := ih hlegal (hstable.resolve_left hne.1)
      have hargs : [elem.read].map (fun t => (loweredText t).toList) =
          [rewritten elem].map TypeForm.chars := congrArg (fun x => [x]) helem
      rw [if_neg hbyte, if_neg hne.2]
      exact chars_generic 0 rfl hargs
  | array length elem ih =>
    have helem := ih hlegal.2 hstable
    have hform : containerForm .array length [rewritten elem] = .array length (rewritten elem) :=
      if_pos hlegal.1
    rw [TypeForm.read, chars_array _ _ helem, hform, rewritten]
  | map key value hkey hvalue =>
    rw [isStable, Bool.and_eq_true] at hstable
    have hkeys := hkey hlegal.1 hstable.1
    rw [TypeForm.read, rewritten]
    by_cases hempty : value = .empty
    · have hargs : [key.read].map (fun t => (loweredText t).toList) =
          [rewritten key].map TypeForm.chars := congrArg (fun x => [x]) hkeys
      rw [if_pos hempty, if_pos hempty]
      exact chars_generic 0 rfl hargs
    · have hargs : [key.read, value.read].map (fun t => (loweredText t).toList) =
          [rewritten key, rewritten value].map TypeForm.chars :=
        congrArg₂ (fun x y => [x, y]) hkeys (hvalue hlegal.2 hstable.2)
      rw [if_neg hempty, if_neg hempty]
      exact chars_generic 0 rfl hargs
  | empty => decide

theorem rewritten_of_isFixed (h : isFixed g = true) : rewritten g = g := by
  induction g with
  | name text => rfl
  | qualified package text => rfl
  | pointer elem ih => rw [rewritten, ih h]
  | slice elem ih =>
    rw [isFixed, Bool.and_eq_true, bne_iff_ne] at h
    rw [rewritten, if_neg h.1, ih h.2]
  | array length elem ih => rw [rewritten, ih h]
  | map key value hkey hvalue =>
    rw [isFixed, Bool.and_eq_true, Bool.or_eq_true, beq_iff_eq] at h
    rw [rewritten, hkey h.1]
    split
    case isTrue hempty => rw [hempty]
    case isFalse hempty => rw [hvalue (h.2.resolve_left hempty)]
  | empty => cases h

/-- What is written anew is shorter. -/
theorem length_rewritten (g : TypeForm) :
    (rewritten g).chars.length + (!isFixed g).toNat ≤ g.chars.length := by
  induction g with
  | name text => exact le_rfl
  | qualified package text => exact le_rfl
  | pointer elem ih =>
    simp only [rewritten, isFixed, TypeForm.chars, length_cons]
    omega
  | slice elem ih =>
    by_cases huint : elem = .name "uint8"
    · subst huint
      decide
    · have hne : (elem != .name "uint8") = true := bne_iff_ne.mpr huint
      simp only [rewritten, isFixed, TypeForm.chars, length_cons, if_neg huint, hne, Bool.true_and]
      omega
  | array length elem ih =>
    simp only [rewritten, isFixed, TypeForm.chars, length_cons, length_append]
    omega
  | map key value hkey hvalue =>
    simp only [rewritten, isFixed, TypeForm.chars, length_cons, length_append]
    by_cases hempty : value = .empty
    · subst hempty
      simp only [beq_self_eq_true, Bool.true_or, Bool.and_true, if_true]
      omega
    · have hne : (value == .empty) = false := beq_eq_false_iff_ne.mpr hempty
      have hboth : (!(isFixed key && isFixed value)).toNat ≤
          (!isFixed key).toNat + (!isFixed value).toNat := by
        cases isFixed key <;> cases isFixed value <;> decide
      simp only [hne, if_neg hempty, Bool.false_or]
      omega
  | empty => decide

theorem chars_rewritten_eq_iff (g : TypeForm) :
    (rewritten g).chars = g.chars ↔ isFixed g = true := by
  refine ⟨fun h => ?_, fun h => by rw [rewritten_of_isFixed h]⟩
  -- texts that are the same have the same length, so nothing in this one was written anew
  have hlength := length_rewritten g
  rw [h] at hlength
  cases hfixed : isFixed g with
  | true => rfl
  | false =>
    rw [hfixed, Bool.not_false, Bool.toNat_true] at hlength
    omega

theorem loweredText_eq_text {type : TypeExpr} (h : (loweredText type).toList = g.chars) :
    loweredText type = g.text := by
  rw [TypeForm.text, ← h, String.ofList_toList]

theorem parse_and_read (h : g.IsLegal) :
    ∃ e, parseType? g.text = some e ∧ readType {} e = pure g.read := by
  obtain ⟨e, hparse, hdenotes⟩ := parseType?_text h
  exact ⟨e, hparse, readType_of_denotes hdenotes h⟩

/-- The text of a valid type is read where no types are declared, and written again with `byte`
for `uint8` in slices and as any where a struct without fields is no value of a map. So it stays
exactly when there is neither. -/
theorem loweredText_reread (type : TypeExpr) (path : String) (hvalid : type.issues path = [])
    (hconcrete : isConcrete type = true)
    (hnames : ∀ name ∈ refsOfType type, isName (typeName builtinTarget name) = true) :
    loweredText type = (formOf type).text ∧
      ∃ e again, parseType? (loweredText type) = some e ∧ readType {} e = pure again ∧
        loweredText again = (rewritten (formOf type)).text ∧
        (loweredText again = loweredText type ↔ isFixed (formOf type) = true) := by
  have hsound := (type.issues_eq_nil path).mp hvalid
  have hwritten := isWritten_formOf type hsound hconcrete hnames
  have htext := loweredText_eq_text (chars_formOf type hsound hconcrete)
  have hagain := loweredText_eq_text (chars_read hwritten)
  obtain ⟨e, hparse, hread⟩ := parse_and_read hwritten.1
  refine ⟨htext, e, (formOf type).read, htext ▸ hparse, hread, hagain, ?_⟩
  rw [hagain, htext, TypeForm.text, TypeForm.text, String.ofList_inj]
  exact chars_rewritten_eq_iff _

def ledger : TypeExpr :=
  .container .unorderedMap [.prim .string,
    .indirection .sharedPtr (.generic .array [.container .set [.ref "billing.line_item"]] 3)]

theorem ledger_reread :
    ledger.issues "" = [] ∧ isConcrete ledger = true ∧
      (∀ name ∈ refsOfType ledger, isName (typeName builtinTarget name) = true) ∧
      loweredText ledger = "map[string]*[3]map[LineItem]struct{}" ∧
      ∃ e again, parseType? (loweredText ledger) = some e ∧ readType {} e = pure again ∧
        loweredText again = loweredText ledger := by
  have hvalid : ledger.issues "" = [] := by decide
  have hconcrete : isConcrete ledger = true := by decide
  have hnames : ∀ name ∈ refsOfType ledger, isName (typeName builtinTarget name) = true := by
    decide
  obtain ⟨htext, e, again, hparse, hread, -, hsame⟩ :=
    loweredText_reread ledger "" hvalid hconcrete hnames
  refine ⟨hvalid, hconcrete, hnames, htext.trans (by decide), e, again, hparse, hread, ?_⟩
  exact hsame.mpr (by decide)

def nothing : TypeExpr := .prim .monostate

def pixels : TypeExpr := .container .list [.prim .uint8]

/-- A reference under a name that spells another type. -/
def misnamed : TypeExpr := .ref "*int"

/-- A struct without fields is read as an inline one, slices of `uint8` as bytes, and a name that
is no identifier as the type it spells; all of them are written otherwise then. -/
theorem nothing_pixels_and_misnamed_rewritten :
    (nothing.issues "" = [] ∧ isConcrete nothing = true ∧ loweredText nothing = "struct{}" ∧
      ∃ e, parseType? (loweredText nothing) = some e ∧
        readType {} e = pure (.inline { isAnonymous := true }) ∧
        loweredText (.inline { isAnonymous := true }) = "any") ∧
    (pixels.issues "" = [] ∧ isConcrete pixels = true ∧
      ∃ e, parseType? (loweredText pixels) = some e ∧ readType {} e = pure (.prim .bytes) ∧
        loweredText (.prim .bytes) ≠ loweredText pixels) ∧
    misnamed.issues "" = [] ∧ isConcrete misnamed = true ∧
      ∃ e, parseType? (loweredText misnamed) = some e ∧
        readType {} e = pure (.indirection .pointer (.prim .int64)) ∧
        loweredText (.indirection .pointer (.prim .int64)) ≠ loweredText misnamed := by
  have hnothing : loweredText nothing = TypeForm.empty.text := by decide
  have hpixels : loweredText pixels = (TypeForm.slice (.name "uint8")).text := by decide
  have hmisnamed : loweredText misnamed = (TypeForm.pointer (.name "int")).text := by decide
  obtain ⟨n, hparse, hread⟩ := parse_and_read (g := .empty) (by decide)
  obtain ⟨p, hparse', hread'⟩ := parse_and_read (g := .slice (.name "uint8")) (by decide)
  obtain ⟨m, hparse'', hread''⟩ := parse_and_read (g := .pointer (.name "int")) (by decide)
  refine ⟨⟨by decide, by decide, by decide, n, hnothing ▸ hparse, hread, by decide⟩,
    ⟨by decide, by decide, p, hpixels ▸ hparse', hread', ?_⟩,
    by decide, by decide, m, hmisnamed ▸ hparse'', hread'', ?_⟩
  · decide
  · decide

end Schemata.Writer.Go
