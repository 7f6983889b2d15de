import Schemata.Proofs.Emission.Identifiers
import Schemata.Proofs.Lowering.Filling
import Schemata.Proofs.Naming.Pascal
import Schemata.Proofs.Schema.References
import Schemata.Proofs.Writer.Messages

/-!
The types in the lines of protobuf messages. The notation has type names, `repeated` and
`optional` in front of one, and maps from scalars to one; none of these words can be put in front
of another. Which text is written for a type is told by its form, in which indirections other
than optionals are gone. Fields and alternatives whose shape has no form are written as bytes,
but the check looks at optionals only where they are indirections, so an optional container slips
through.
-/

namespace Schemata

variable {s : String} {c : Char}

namespace Writer.Protobuf

open Emission Naming List

/-! ### The notation -/

def isIdentifier : List Char → Bool
  | [] => false
  | c :: rest => isIdentStart c && rest.all isIdentChar

def keywords : List String := ["repeated", "optional", "map"]

/-- Identifiers joined by dots, other than the keywords. -/
def IsTypeName (s : String) : Prop :=
  (∀ part ∈ s.toList.splitOn '.', isIdentifier part = true) ∧ s ∉ keywords

instance (s : String) : Decidable (IsTypeName s) := inferInstanceAs (Decidable (_ ∧ _))

def keyTypes : List String :=
  ["int32", "int64", "uint32", "uint64", "sint32", "sint64", "fixed32", "fixed64", "sfixed32",
    "sfixed64", "bool", "string"]

/-- What can stand for the type of a field. -/
inductive IsFieldType : String → Prop
  | plain {s : String} (h : IsTypeName s) : IsFieldType s
  | repeated {s : String} (h : IsTypeName s) : IsFieldType ("repeated " ++ s)
  | optional {s : String} (h : IsTypeName s) : IsFieldType ("optional " ++ s)
  | map {k v : String} (hk : k ∈ keyTypes) (hv : IsTypeName v) :
      IsFieldType ("map<" ++ k ++ ", " ++ v ++ ">")

theorem isIdentChar_of_isIdentifier {s : List Char} (h : isIdentifier s = true) (hc : c ∈ s) :
    isIdentChar c = true := by
  cases s with
  | nil => cases hc
  | cons d rest =>
    rw [isIdentifier, Bool.and_eq_true] at h
    rcases mem_cons.mp hc with rfl | hrest
    · rw [isIdentChar, h.1, Bool.true_or]
    · exact all_eq_true.mp h.2 c hrest

theorem IsTypeName.mem (h : IsTypeName s) (hc : c ∈ s.toList) : c = '.' ∨ isIdentChar c = true := by
  have hjoined : ['.'].intercalate (s.toList.splitOn '.') = s.toList := intercalate_splitOn '.'
  rw [← hjoined] at hc
  rcases mem_of_mem_intercalate hc with hdot | ⟨part, hpart, hcpart⟩
  · exact .inl (mem_singleton.mp hdot)
  · exact .inr (isIdentChar_of_isIdentifier (h.1 part hpart) hcpart)

theorem IsTypeName.no_blank (h : IsTypeName s) : ' ' ∉ s.toList := by
  intro hblank
  exact absurd (h.mem hblank) (by decide)

/-- In front of the other forms stands a word, with a blank after it. -/
theorem IsFieldType.isTypeName (h : IsFieldType s) (hblank : ' ' ∉ s.toList) : IsTypeName s := by
  cases h with
  | plain h => exact h
  | _ => simp at hblank

theorem isFieldType_repeated : IsFieldType ("repeated " ++ s) ↔ IsTypeName s := by
  refine ⟨fun h => ?_, .repeated⟩
  generalize htext : "repeated " ++ s = text at h
  have hchars := congrArg String.toList htext
  cases h with
  | plain h => exact absurd h.no_blank (by simp [← htext])
  | repeated h => simp_all
  | _ => simp at hchars

theorem isFieldType_optional : IsFieldType ("optional " ++ s) ↔ IsTypeName s := by
  refine ⟨fun h => ?_, .optional⟩
  generalize htext : "optional " ++ s = text at h
  have hchars := congrArg String.toList htext
  cases h with
  | plain h => exact absurd h.no_blank (by simp [← htext])
  | repeated h => simp at hchars
  | optional h => simp_all
  | map hk hv => simp at hchars

theorem no_blank_of_mem_keyTypes {k : String} (h : k ∈ keyTypes) : ' ' ∉ k.toList := by
  revert k
  decide

/-- The only blank of a map stands between its key and its value. -/
theorem map_inj {k v k' v' : String} (hk : ' ' ∉ k'.toList) (hv : ' ' ∉ v'.toList)
    (h : "map<" ++ k ++ ", " ++ v ++ ">" = "map<" ++ k' ++ ", " ++ v' ++ ">") :
    k = k' ∧ v = v' := by
  have hchars : (k'.toList ++ [',']) ++ ' ' :: (v'.toList ++ ['>']) =
      (k.toList ++ [',']) ++ ' ' :: (v.toList ++ ['>']) := by
    simpa using congrArg String.toList h.symm
  rw [append_cons_inj_of_notMem (by simpa using hk) (by simpa using hv)] at hchars
  obtain ⟨hkey, -, hvalue⟩ := hchars
  exact ⟨String.toList_injective (by simpa [eq_comm] using hkey),
    String.toList_injective (by simpa [eq_comm] using hvalue)⟩

theorem isFieldType_map {k v : String} :
    IsFieldType ("map<" ++ k ++ ", " ++ v ++ ">") ↔ k ∈ keyTypes ∧ IsTypeName v := by
  refine ⟨fun h => ?_, fun h => .map h.1 h.2⟩
  generalize htext : "map<" ++ k ++ ", " ++ v ++ ">" = text at h
  have hchars := congrArg String.toList htext
  cases h with
  | plain h => exact absurd h.no_blank (by simp [← htext])
  | repeated h => simp at hchars
  | optional h => simp at hchars
  | map hk hv =>
    obtain ⟨rfl, rfl⟩ := map_inj (no_blank_of_mem_keyTypes hk) hv.no_blank htext
    exact ⟨hk, hv⟩

/-! ### Forms -/

def builtinTarget : Target := Catalog.protobufTarget.build "proto"

def builtinLowerer : Lowerer := lowererOf builtinTarget

/-- How the type of a line is put together. -/
inductive Form where
  /-- The name in the row of a kind, that of bytes where there is none. -/
  | scalar (kind : Kind)
  | message (name : String)
  | repeated (elem : Form)
  | optional (elem : Form)
  | map (key value : Form)
deriving DecidableEq, Repr

def scalarText (k : Kind) : String := (builtinLowerer.scalar k "").text

def Form.text : Form → String
  | .scalar k => scalarText k
  | .message name => messageName builtinTarget name
  | .repeated elem => "repeated " ++ elem.text
  | .optional elem => "optional " ++ elem.text
  | .map key value => "map<" ++ key.text ++ ", " ++ value.text ++ ">"

/-- The form of a container; tuples, pairs and variants have none of their own. -/
def containerForm (k : Kind) : List Form → Form
  | [elem] =>
    if k = .optional then .optional elem
    else if isCollection k then .repeated elem
    else .scalar .unknown
  | [key, value] => if isCollection k then .map key value else .scalar .unknown
  | _ => .scalar .unknown

mutual

def formOf : TypeExpr → Form
  | .primitive k _ => .scalar k
  | .reference name _ => .message name
  | .indirection k elem => if k = .optional then .optional (formOf elem) else formOf elem
  | .generic k args _ => containerForm k (formsOf args)
  | .missing | .inline _ | .emptyInline => .scalar .unknown

def formsOf : List TypeExpr → List Form
  | [] => []
  | t :: ts => formOf t :: formsOf ts

end

/-! ### Lowering writes forms -/

section

open Template

/-- A template that puts a word in front of its argument. -/
theorem fill_word (l : Lowerer) {template word : String}
    (h : pieces template = literals word ++ [.argument 0])
    (x : String) (more : List String) : l.fill template (x :: more) = word ++ x := by
  apply String.toList_injective
  rw [l.toList_fill h, filledChars_literals_append, filledChars_argument, getD_cons_zero,
    filledChars_end, append_nil, String.toList_append]

theorem fill_map (l : Lowerer) (x y : String) :
    l.fill "map<{0}, {1}>" [x, y] = "map<" ++ x ++ ", " ++ y ++ ">" := by
  have hpieces : pieces "map<{0}, {1}>" = literals "map<" ++
      .argument 0 :: (literals ", " ++ .argument 1 :: literals ">") := by decide
  apply String.toList_injective
  rw [l.toList_fill hpieces]
  simp [filledChars_literals, filledChars_literals_append, filledChars_argument,
    String.toList_append]

end

theorem isPlain_builtinLowerer : builtinLowerer.IsPlain := ⟨fun _ => rfl, rfl⟩

theorem qualify_builtinLowerer : builtinLowerer.qualify = messageName builtinTarget := by
  rw [builtinLowerer, lowererOf]

theorem loweredText_eq (type : TypeExpr) :
    loweredText builtinTarget type = (builtinLowerer.phrase type).text builtinLowerer :=
  (Lowerer.text_phrase isPlain_builtinLowerer type).symm

theorem text_scalar (k : Kind) (s : String) : (builtinLowerer.scalar k s).text = scalarText k := by
  have hpass : ∀ s, ¬ (k = .unknown ∧ s ≠ "" ∧ builtinLowerer.passthrough = true) := by
    rintro s ⟨-, -, h⟩
    cases h
  rw [scalarText, Lowerer.scalar, Lowerer.scalar, if_neg (hpass s), if_neg (hpass "")]
  split
  · split <;> rfl
  · rfl

def templateOf? : Kind → Option String
  | .list | .array | .set | .unorderedSet => some "repeated {0}"
  | .map | .unorderedMap => some "map<{0}, {1}>"
  | .optional => some "optional {0}"
  | .pointer | .uniquePtr | .sharedPtr => some "{0}"
  | _ => none

theorem nameTemplate?_eq : ∀ k ∈ Kind.all, k.isContainer || k.isIndirection →
    builtinLowerer.nameTemplate? k = templateOf? k := by
  decide +kernel

theorem fallbackText_eq : builtinLowerer.fallbackText = scalarText .unknown := by decide

theorem fill_bare (x : String) : builtinLowerer.fill "{0}" [x] = x := by
  have hpieces : Template.pieces "{0}" = Template.literals "" ++ [.argument 0] := by
    decide
  rw [fill_word builtinLowerer hpieces, String.empty_append]

theorem fill_optional (x : String) :
    builtinLowerer.fill "optional {0}" [x] = "optional " ++ x :=
  fill_word builtinLowerer (by decide) x []

theorem text_indirection {k : Kind} (hk : k.isIndirection = true) (elem : TypeExpr) :
    (builtinLowerer.phrase (.indirection k elem)).text builtinLowerer =
      if k = .optional then "optional " ++ (builtinLowerer.phrase elem).text builtinLowerer
      else (builtinLowerer.phrase elem).text builtinLowerer := by
  have hname : builtinLowerer.indirectionName? k =
      ((templateOf? k).map (k, ·)).or ((templateOf? .optional).map (.optional, ·)) := by
    rw [Lowerer.indirectionName?, nameTemplate?_eq k k.mem_all (by simp [hk]),
      nameTemplate?_eq .optional (Kind.mem_all _) (by decide)]
  rw [Lowerer.phrase, hname]
  cases k <;> cases hk
  case optional => exact fill_optional _
  all_goals exact fill_bare _

/-- Collections of one argument are repeated, also the arrays that take the row of lists. -/
theorem templateOf?_repeated {k : Kind} (h : k = .list ∨ k = .array ∨ k = .set ∨ k = .unorderedSet)
    (len : Int64) : templateOf? (containerKind k len) = some "repeated {0}" := by
  rw [containerKind]
  split
  · rfl
  · rcases h with rfl | rfl | rfl | rfl <;> rfl

theorem text_container {k : Kind} {args : List TypeExpr} (len : Int64)
    (harity : arityProblems k args.length = [])
    (hargs : textsOfPhrases builtinLowerer (builtinLowerer.phrases args) =
      (formsOf args).map Form.text) :
    (builtinLowerer.phrase (.generic k args len)).text builtinLowerer =
      (containerForm k (formsOf args)).text := by
  have hrow := nameTemplate?_eq (containerKind k len) (Kind.mem_all _)
    (by simp [isContainer_containerKind harity len])
  have hfilled : ∀ template, templateOf? (containerKind k len) = some template →
      (builtinLowerer.phrase (.generic k args len)).text builtinLowerer =
        builtinLowerer.fill template ((formsOf args).map Form.text ++ lengthArgument k len) := by
    intro template htemplate
    rw [Lowerer.phrase, hrow, htemplate]
    simp only [Phrase.text, textsOfPhrases_append, textsOfPhrases_verbatim, hargs]
  rcases container_cases harity with ⟨hone, hk⟩ | ⟨htwo, hk⟩ | hk
  · obtain ⟨elem, rfl⟩ := length_eq_one_iff.mp hone
    by_cases hoptional : k = .optional
    · subst hoptional
      obtain ⟨hkind, hlength⟩ := containerKind_of_ne (k := .optional) (by decide) len
      rw [hfilled "optional {0}" (by rw [hkind]; rfl), hlength, formsOf, formsOf,
        containerForm, if_pos rfl]
      exact fill_optional _
    · have hlist : k = .list ∨ k = .array ∨ k = .set ∨ k = .unorderedSet := by tauto
      have hcollection : isCollection k = true := by
        rcases hlist with rfl | rfl | rfl | rfl <;> rfl
      rw [hfilled _ (templateOf?_repeated hlist len), formsOf, formsOf, containerForm,
        if_neg hoptional, if_pos hcollection]
      exact fill_word builtinLowerer (by decide) _ _
  · obtain ⟨key, value, rfl⟩ := length_eq_two.mp htwo
    have hne : k ≠ .array := by rcases hk with rfl | rfl <;> decide
    obtain ⟨hkind, hlength⟩ := containerKind_of_ne hne len
    have hmap : templateOf? k = some "map<{0}, {1}>" ∧ isCollection k = true := by
      rcases hk with rfl | rfl <;> exact ⟨rfl, rfl⟩
    rw [hfilled _ (hkind ▸ hmap.1), hlength, formsOf, formsOf, formsOf, containerForm,
      if_pos hmap.2]
    exact fill_map builtinLowerer _ _
  · obtain ⟨hkind, -⟩ := containerKind_of_ne (k := k)
      (by rcases hk with rfl | rfl | rfl <;> decide) len
    have hnone : templateOf? k = none ∧ k ≠ .optional ∧ isCollection k = false := by
      rcases hk with rfl | rfl | rfl <;> decide
    have hunknown : containerForm k (formsOf args) = .scalar .unknown := by
      rw [containerForm.eq_def]
      split <;> simp [hnone]
    rw [hunknown, Lowerer.phrase, hrow, hkind, hnone.1]
    exact fallbackText_eq

mutual

/-- The text of a type without inline structs is that of its form. -/
theorem text_formOf : ∀ type : TypeExpr, SoundType type → Normal.isFlatType type = true →
    (builtinLowerer.phrase type).text builtinLowerer = (formOf type).text
  | .missing, hsound, _ => hsound.elim
  | .emptyInline, hsound, _ => hsound.elim
  | .primitive k s, _, _ => by rw [Lowerer.phrase, Phrase.text, text_scalar, formOf, Form.text]
  | .reference name _, _, _ => by
    rw [Lowerer.phrase, Phrase.text, qualify_builtinLowerer, formOf, Form.text]
  | .indirection k elem, hsound, hflat => by
    rw [text_indirection hsound.1, formOf, text_formOf elem hsound.2 hflat]
    split <;> rfl
  | .generic k args len, hsound, hflat => by
    rw [formOf]
    exact text_container len hsound.1 (texts_formsOf args hsound.2 hflat)
  | .inline _, _, hflat => absurd hflat (by simp [Normal.isFlatType])

theorem texts_formsOf : ∀ types : List TypeExpr, SoundTypes types →
    Normal.areFlatTypes types = true →
    textsOfPhrases builtinLowerer (builtinLowerer.phrases types) = (formsOf types).map Form.text
  | [], _, _ => rfl
  | type :: types, hsound, hflat => by
    rw [Normal.areFlatTypes, Bool.and_eq_true] at hflat
    rw [Lowerer.phrases, textsOfPhrases, text_formOf type hsound.1 hflat.1,
      texts_formsOf types hsound.2 hflat.2, formsOf, map_cons]

end

end Writer.Protobuf

end Schemata
