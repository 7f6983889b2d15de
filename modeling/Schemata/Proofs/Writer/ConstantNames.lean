import Schemata.Proofs.Writer.GoTypes
import Schemata.Proofs.Writer.Statements

/-!
Names of the constants and structs that stand for the values of an enum. A name is made of the
name of the enum and that of the value with an underscore between them, and brought to Pascal
case. A separator ends a word whatever stands around it, so the two parts keep their words, and
reading takes the first part off again.
-/

namespace Schemata

namespace Naming

open Text List

/-! ### Words on both sides of a separator -/

/-- Where no word was begun, the character before does not matter. -/
theorem splitFrom_nil_eq (previous previous' : Option Char) (s : List Char) :
    splitFrom [] previous s = splitFrom [] previous' s := by
  cases s <;> simp [splitFrom]

theorem not_isLower_of_isSeparator {c : Char} (h : isSeparator c = true) : isLower c = false := by
  simp only [isSeparator, Bool.or_eq_true, decide_eq_true_eq] at h
  rcases h with ((rfl | rfl) | rfl) | rfl <;> rfl

theorem startsWord_before_separator {sep : Char} (hsep : isSeparator sep = true)
    (previous c : Char) (rest more : List Char) :
    startsWord previous c (rest ++ sep :: more).head? = startsWord previous c rest.head? := by
  cases rest with
  | nil => simp [startsWord, not_isLower_of_isSeparator hsep]
  | cons d rest => rfl

theorem splitFrom_append_separator {sep : Char} (hsep : isSeparator sep = true)
    (current : List Char) (previous : Option Char) (s more : List Char) :
    splitFrom current previous (s ++ sep :: more) =
      splitFrom current previous s ++ splitWords more := by
  fun_induction splitFrom current previous s with
  | case1 previous current hcurrent =>
    rw [nil_append, nil_append, splitFrom, if_pos hsep, if_pos hcurrent]
    exact splitFrom_nil_eq _ _ _
  | case2 previous current hcurrent =>
    rw [nil_append, splitFrom, if_pos hsep, if_neg hcurrent]
    exact congrArg _ (splitFrom_nil_eq _ _ _)
  | case3 current previous c rest hc hcurrent ih =>
    rw [cons_append, splitFrom, if_pos hc, if_pos hcurrent, ih]
  | case4 current previous c rest hc hcurrent ih =>
    rw [cons_append, splitFrom, if_pos hc, if_neg hcurrent, ih, cons_append]
  | case5 current previous c rest hc hbegins ih =>
    simp only [← startsWord_before_separator hsep _ c rest more] at hbegins
    rw [cons_append, splitFrom, if_neg hc, if_pos hbegins, ih, cons_append]
  | case6 current previous c rest hc hgoes ih =>
    simp only [← startsWord_before_separator hsep _ c rest more] at hgoes
    rw [cons_append, splitFrom, if_neg hc, if_neg hgoes, ih]

theorem pascalCase_append_underscore (a b : String) :
    pascalCase (a ++ "_" ++ b) = pascalCase a ++ pascalCase b := by
  apply String.toList_injective
  have hchars : (a ++ "_" ++ b).toList = a.toList ++ '_' :: b.toList := by simp
  rw [String.toList_append, toList_pascalCase, toList_pascalCase, toList_pascalCase, hchars,
    splitWords, splitFrom_append_separator rfl, ← splitWords, flatMap_append]

end Naming

/-! ### Taking the name of a type off -/

namespace GoSyntax

theorem trimTypeName_append {type rest : String} (hne : rest ≠ "")
    (hmark : rest.toList.head? ≠ some '_') : trimTypeName (type ++ rest) type = rest := by
  have hstarts : type.toList.isPrefixOf (type ++ rest).toList = true := by
    rw [String.toList_append, List.isPrefixOf_iff_prefix]
    exact List.prefix_append _ _
  have hdrop : (type ++ rest).toList.drop type.length = rest.toList := by
    rw [String.toList_append, ← String.length_toList, List.drop_left]
  have hchars : rest.toList ≠ [] := by rwa [Ne, String.toList_eq_nil_iff]
  simp only [trimTypeName, hstarts, hdrop, if_neg hmark]
  simp [hchars]

end GoSyntax

namespace Writer.Go

open Emission GoSyntax Naming

variable {t : Target}

theorem typeName_of_naming (ht : t.naming = builtinTarget.naming) (name : String) :
    typeName t name = pascalCase (lastSegment name) := by
  rw [typeName, ht]
  rfl

theorem typeName_typeName (ht : t.naming = builtinTarget.naming) (name : String) :
    typeName t (typeName t name) = typeName t name := by
  rw [typeName_of_naming ht, typeName_of_naming ht, lastSegment_pascalCase, pascalCase_pascalCase]

theorem constantName_eq (ht : t.naming = builtinTarget.naming) (e : Enum) (v : EnumValue) :
    constantName t e v = typeName t e.name ++ pascalCase v.name := by
  have hstyle : t.naming.constant = .pascal := by rw [ht]; rfl
  have hname := typeName_of_naming ht e.name
  rw [constantName, hstyle, Style.apply, pascalCase_append_underscore, hname, pascalCase_pascalCase]

theorem trimTypeName_constantName (ht : t.naming = builtinTarget.naming) (e : Enum)
    {v : EnumValue} (hv : pascalCase v.name ≠ "") :
    trimTypeName (constantName t e v) (typeName t e.name) = pascalCase v.name := by
  rw [constantName_eq ht]
  refine trimTypeName_append hv fun hhead => ?_
  have hmem : '_' ∈ (pascalCase v.name).toList := List.mem_of_mem_head? (by rw [hhead]; rfl)
  exact absurd (not_isSeparator_of_mem_pascalCase hmem) (by decide)

/-! ### What is written -/

/-- The words that introduce a value of an enum under a name. -/
def introduction (t : Target) (e : Enum) (name : String) : String :=
  if e.hasPayloads then "type " ++ name ++ r" struct {" ++ "\n"
  else "\t" ++ name ++ " " ++ typeName t e.name ++ " = "

theorem shows_introduction (t : Target) (e : Enum) (v : EnumValue) (isLast : Bool)
    (type : Emit String) {c : Context} (hc : c.owner = some e) :
    Shows (introduction t e (constantName t e v)) ((hooks t).enumValue v isLast type c) := by
  simp only [hooks, hc, Option.getD_some, introduction]
  cases hpayloads : e.hasPayloads with
  | false =>
    exact Shows.of_eq "" (showInt v.number ++ "\n") (by simp [String.append_assoc])
  | true =>
    have hwhole : ∀ body, Shows ("type " ++ constantName t e v ++ r" struct {" ++ "\n")
        (pure ("type " ++ constantName t e v ++ r" struct {" ++ "\n" ++ body ++ r"}" ++
          "\n\nfunc (" ++ constantName t e v ++ ") is" ++ typeName t e.name ++ "() {}\n\n")) :=
      fun body => Shows.of_eq "" (body ++ r"}" ++ "\n\nfunc (" ++ constantName t e v ++ ") is" ++
        typeName t e.name ++ "() {}\n\n") (by simp [String.append_assoc])
    simp only [Bool.not_true, Bool.false_eq_true, if_false, if_true]
    split
    · exact Shows.bind hwhole
    · exact Shows.bind fun type => Shows.bind hwhole

/-- A value with a name in Pascal case is introduced by the names of its enum and itself put
together. Reading takes the name of the enum off, and what is read, of an enum under its name or
under the name read, is written as before. -/
theorem constantName_read_back (ht : t.naming = builtinTarget.naming) (e : Enum) (v : EnumValue)
    (hv : pascalCase v.name ≠ "") :
    constantName t e v = typeName t e.name ++ pascalCase v.name ∧
      (∀ isLast type c, c.owner = some e →
        Shows (introduction t e (typeName t e.name ++ pascalCase v.name))
          ((hooks t).enumValue v isLast type c)) ∧
      trimTypeName (constantName t e v) (typeName t e.name) = pascalCase v.name ∧
      ∀ (again : Enum) (read : EnumValue),
        again.name = e.name ∨ again.name = typeName t e.name →
        read.name = trimTypeName (constantName t e v) (typeName t e.name) →
        constantName t again read = constantName t e v := by
  have hname := constantName_eq ht e v
  have htrim := trimTypeName_constantName ht e hv
  refine ⟨hname, ?_, htrim, ?_⟩
  · intro isLast type c hc
    rw [← hname]
    exact shows_introduction t e v isLast type hc
  · intro again read hagain hread
    have henum : typeName t again.name = typeName t e.name := by
      rcases hagain with h | h
      · rw [h]
      · rw [h, typeName_typeName ht]
    rw [constantName_eq ht, henum, hread, htrim, pascalCase_pascalCase, hname]

def httpStatus : Enum := { name := "web.http_statusXML" }

def notFound : EnumValue := ⟨"not__found404-v2", 404, [], .missing⟩

theorem notFound_read_back :
    pascalCase notFound.name ≠ "" ∧ builtinTarget.naming.constant = .pascal ∧
      constantName builtinTarget httpStatus notFound = "HttpStatusXMLNotFound404V2" ∧
      trimTypeName "HttpStatusXMLNotFound404V2" "HttpStatusXML" = "NotFound404V2" := by
  have hv : pascalCase notFound.name ≠ "" := by decide
  have htype : typeName builtinTarget httpStatus.name = "HttpStatusXML" := by decide
  have hvalue : pascalCase notFound.name = "NotFound404V2" := by decide
  obtain ⟨hname, -, htrim, -⟩ :=
    constantName_read_back (t := builtinTarget) rfl httpStatus notFound hv
  rw [htype, hvalue] at hname htrim
  rw [hname] at htrim
  exact ⟨hv, rfl, hname, htrim⟩

end Writer.Go

end Schemata
