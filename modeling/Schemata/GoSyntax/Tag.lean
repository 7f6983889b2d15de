import Schemata.Schema.Basic
import Schemata.Text.Quoted

/-!
Struct tags: attributes written as a key, a colon and a quoted value, with spaces between them.
Keys are written as they stand, so not every attribute has a place in a tag; nor has a value with
a back quote, since tags are written in back quotes. A tag is read and written byte by byte, and
neither keys nor values need to spell characters.
-/

namespace Schemata.GoSyntax

open Text

namespace Tag

/-- An attribute as the bytes of its name and its value. -/
structure Entry where
  key : List UInt8
  value : List UInt8
deriving DecidableEq, Repr

def Entry.ofAttribute (a : Attribute) : Entry :=
  ⟨Utf8.encode a.name.toList, Utf8.encode a.value.toList⟩

def Entry.toAttribute (e : Entry) : Attribute := ⟨Utf8.text e.key, Utf8.text e.value⟩

/-- The bytes a key may have: no blanks, no controls, no colon and no quote. -/
def isKeyByte (b : UInt8) : Bool :=
  b > ' '.toUInt8 && b != ':'.toUInt8 && b != '"'.toUInt8 && b != '\x7f'.toUInt8

/-- Splits bytes behind the first quote that no backslash stands before. -/
def splitQuoted : List UInt8 → Option (List UInt8 × List UInt8)
  | [] => none
  | b :: rest =>
    if b = '"'.toUInt8 then some ([b], rest)
    else if b = '\\'.toUInt8 then
      match rest with
      | [] => none
      | c :: rest => (splitQuoted rest).map fun parts => (b :: c :: parts.1, parts.2)
    else (splitQuoted rest).map fun parts => (b :: parts.1, parts.2)

theorem length_of_splitQuoted {s body rest : List UInt8} (h : splitQuoted s = some (body, rest)) :
    rest.length < s.length := by
  fun_induction splitQuoted s generalizing body rest with
  | case1 => cases h
  | case2 tail => simp_all
  | case3 => cases h
  | case4 c tail hquote ih =>
    obtain ⟨parts, hparts, heq⟩ := Option.map_eq_some_iff.mp h
    have := ih hparts
    simp only [Prod.mk.injEq] at heq
    simp only [List.length_cons, ← heq.2]
    omega
  | case5 b tail hquote hescape ih =>
    obtain ⟨parts, hparts, heq⟩ := Option.map_eq_some_iff.mp h
    have := ih hparts
    simp only [Prod.mk.injEq] at heq
    simp only [List.length_cons, ← heq.2]
    omega

def parse (tag : List UInt8) : Option (List Entry) :=
  let trimmed := tag.dropWhile (· = ' '.toUInt8)
  if trimmed.isEmpty then some []
  else
    let key := trimmed.takeWhile isKeyByte
    if key.isEmpty then none
    else match _hm : trimmed.drop key.length with
      | colon :: mark :: more =>
        if colon = ':'.toUInt8 ∧ mark = '"'.toUInt8 then
          match _h : splitQuoted more with
          | none => none
          | some (body, rest) => do
            let value ← unquoteBytes? (mark :: body)
            return ⟨key, value⟩ :: (← parse rest)
        else none
      | _ => none
termination_by tag.length
decreasing_by
  have hrest := length_of_splitQuoted _h
  have hmore := congrArg List.length _hm
  have htrim : trimmed.length ≤ tag.length := (List.dropWhile_sublist _).length_le
  simp only [List.length_drop, List.length_cons] at hmore
  omega

def isKey (key : List UInt8) : Bool :=
  !key.isEmpty && key.all fun b => isKeyByte b && b != '\x60'.toUInt8

def Entry.hasForm (e : Entry) : Bool := isKey e.key && !e.value.contains '\x60'.toUInt8

def Entry.form (e : Entry) : List UInt8 :=
  e.key ++ ':'.toUInt8 :: Utf8.encode (quoteBytes e.value)

/-- The tag of the attributes that have a form in it, and the names of the others. -/
def format (entries : List Entry) : List UInt8 × List (List UInt8) :=
  ([' '.toUInt8].intercalate ((entries.filter Entry.hasForm).map Entry.form),
    (entries.filter (!Entry.hasForm ·)).map Entry.key)

end Tag

/-- The tag of attributes as text, and the names of those without a form. -/
def formatTag (attrs : List Attribute) : String × List String :=
  let (tag, skipped) := Tag.format (attrs.map Tag.Entry.ofAttribute)
  (Utf8.text tag, skipped.map Utf8.text)

end Schemata.GoSyntax
