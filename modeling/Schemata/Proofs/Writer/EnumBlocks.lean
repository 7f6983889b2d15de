import Schemata.Proofs.Writer.FieldForms

/-!
The enums of protobuf files. An enum without payloads is written as a list of entries that starts
at zero: its first value numbered zero comes in front, the others stay in their order, and where
no value is zero an entry of its own is put there. That entry has a name which no value was asked
about, so it is the one name that can come twice.
-/

namespace Schemata.Writer.Protobuf

open Emission Schemata.Normal List

/-! ### Entries -/

structure Entry where
  name : String
  number : Int64
  options : String := ""
deriving DecidableEq

def Entry.text (x : Entry) : String :=
  "  " ++ x.name ++ " = " ++ showInt x.number ++ x.options ++ ";\n"

variable (t : Target) (e : Enum)

def entryName (name : String) : String :=
  t.naming.constant.apply e.name ++ "_" ++ name

def valueEntry (v : EnumValue) : Entry :=
  ⟨entryName t e (t.naming.constant.apply v.name), v.number, options v.attributes⟩

/-- The entry that stands for no value of the enum. -/
def unspecified : Entry := ⟨entryName t e "UNSPECIFIED", 0, ""⟩

/-- Entries in the braces of an enum. Numbers that come twice have to be allowed. -/
def entriesText (name : String) (entries : List Entry) : String :=
  "enum " ++ name ++ r" {" ++ "\n" ++
    (if (entries.map Entry.number).Nodup then "" else "  option allow_alias = true;\n") ++
    String.join (entries.map Entry.text) ++ r"}" ++ "\n\n"

def entries : List Entry :=
  (if ∃ v ∈ e.values, v.number = 0 then [] else [unspecified t e]) ++
    (zeroFirst e.values).map (valueEntry t e)

/-! ### Zero comes first -/

/-- The first value numbered zero has moved to the front, or there is none and all is as it was. -/
inductive ZeroInFront : List EnumValue → List EnumValue → Prop
  | moved {before after : List EnumValue} {zero : EnumValue} (hzero : zero.number = 0)
      (hbefore : ∀ v ∈ before, v.number ≠ 0) :
      ZeroInFront (before ++ zero :: after) (zero :: (before ++ after))
  | none {values : List EnumValue} (hvalues : ∀ v ∈ values, v.number ≠ 0) :
      ZeroInFront values values

theorem zeroInFront_zeroFirst (values : List EnumValue) : ZeroInFront values (zeroFirst values) := by
  rw [zeroFirst]
  split
  next hnone =>
    refine .none fun v hv hzero => ?_
    have hnot := findIdx?_eq_none_iff.mp hnone v hv
    simp [hzero] at hnot
  next i hsome =>
    obtain ⟨hi, hzero, hbefore⟩ := findIdx?_eq_some_iff_getElem.mp hsome
    rw [getElem?_eq_getElem hi]
    have hsplit : values = values.take i ++ values[i] :: values.drop (i + 1) := by simp
    have hmoved : ZeroInFront (values.take i ++ values[i] :: values.drop (i + 1))
        (values[i] :: (values.take i ++ values.drop (i + 1))) := by
      refine .moved (by simpa using hzero) fun v hv => ?_
      obtain ⟨j, hj, rfl⟩ := mem_take_iff_getElem.mp hv
      simpa using hbefore j (by omega)
    rw [← hsplit] at hmoved
    exact hmoved

namespace ZeroInFront

variable {values written : List EnumValue}

theorem perm (h : ZeroInFront values written) : written.Perm values := by
  cases h with
  | moved => exact perm_middle.symm
  | none => exact .refl _

theorem head_iff (h : ZeroInFront values written) :
    written.head?.map (·.number) = some 0 ↔ ∃ v ∈ values, v.number = 0 := by
  cases h with
  | @moved before after zero hzero =>
    have hmem : ∃ v ∈ before ++ zero :: after, v.number = 0 := ⟨zero, by simp, hzero⟩
    rw [iff_true_right hmem, head?_cons, Option.map_some, hzero]
  | none hvalues =>
    cases values with
    | nil => simp
    | cons v values =>
      have hv : v.number ≠ 0 := hvalues v mem_cons_self
      simp only [head?_cons, Option.map_some, Option.some_inj, hv, false_iff]
      rintro ⟨w, hw, hzero⟩
      exact hvalues w hw hzero

end ZeroInFront

/-! ### The text of an enum -/

theorem numbers_nodup_iff :
    ((entries t e).map Entry.number).Nodup ↔ (e.values.map (·.number)).Nodup := by
  have hperm := ((zeroInFront_zeroFirst e.values).perm.map (·.number)).nodup_iff
  have hvalues : ((zeroFirst e.values).map (valueEntry t e)).map Entry.number =
      (zeroFirst e.values).map (·.number) := map_map
  rw [entries, map_append, hvalues]
  split
  next => exact hperm
  next hzero =>
    -- the number of the entry in front is that of no value
    have hfree : 0 ∉ (zeroFirst e.values).map (·.number) := by
      rintro h
      obtain ⟨v, hv, hnumber⟩ := mem_map.mp h
      exact hzero ⟨v, (zeroInFront_zeroFirst e.values).perm.mem_iff.mp hv, hnumber⟩
    exact nodup_cons.trans ((and_iff_right hfree).trans hperm)

theorem text_unspecified :
    (unspecified t e).text =
      "  " ++ (t.naming.constant.apply e.name ++ "_") ++ "UNSPECIFIED = 0;\n" := by
  have hline : "UNSPECIFIED = 0;\n" = "UNSPECIFIED" ++ (" = " ++ (showInt 0 ++ ("" ++ ";\n"))) := by
    decide
  simp only [Entry.text, unspecified, entryName, hline, String.append_assoc]

theorem text_valueEntry (v : EnumValue) :
    (valueEntry t e v).text =
      "  " ++ (t.naming.constant.apply e.name ++ "_") ++ t.naming.constant.apply v.name ++ " = " ++
        showInt v.number ++ options v.attributes ++ ";\n" := by
  simp only [Entry.text, valueEntry, entryName, String.append_assoc]

theorem join_entries :
    String.join ((entries t e).map Entry.text) =
      (if ∃ v ∈ e.values, v.number = 0 then "" else (unspecified t e).text) ++
        String.join ((zeroFirst e.values).map fun v => (valueEntry t e v).text) := by
  rw [entries, map_append, String.join_append, map_map]
  split <;> simp [Function.comp_def]

/-- An enum is written as the text of its entries. -/
theorem enum_text :
    (Block.enum e).text t = entriesText (messageName t e.name) (entries t e) := by
  have hindent : (Context.nest { unit := "  " }).indent = "  " := by decide
  have halias : "  option allow_alias = true;\n" = "  " ++ "option allow_alias = true;\n" := by
    decide
  have hfront := zeroInFront_zeroFirst e.values
  have haliases : hasAliases (zeroFirst e.values) = true ↔
      ¬((entries t e).map Entry.number).Nodup := by
    rw [numbers_nodup_iff, ← (hfront.perm.map (·.number)).nodup_iff]
    simp [hasAliases]
  simp only [Block.text, enumBlock, entriesText, hindent, haliases, beq_iff_eq, hfront.head_iff,
    join_entries, text_unspecified, text_valueEntry, halias, ite_not, String.append_assoc]

/-! ### Enums in files -/

variable {e}

theorem mem_blocks {m : Module} (he : .enum e ∈ declarations m.nodes)
    (hplain : e.hasPayloads = false) (t : Target) : Block.enum e ∈ blocks t m := by
  refine mem_flatMap.mpr ⟨.enum e, he, ?_⟩
  rw [blocksOf, hplain]
  exact mem_singleton_self _

theorem text_in_file {m : Module} (he : .enum e ∈ declarations m.nodes)
    (hplain : e.hasPayloads = false) (t : Target) :
    ∃ before after, ((protobuf t).write m).1 =
      tidy (before ++ entriesText (messageName t e.name) (entries t e) ++ after) := by
  obtain ⟨before, after, hsplit⟩ := append_of_mem (mem_blocks he hplain t)
  refine ⟨preamble t m (fileImports t m) ++ blocksText t before, blocksText t after, ?_⟩
  rw [← enum_text, ← blocksText_singleton, String.append_assoc, String.append_assoc,
    ← blocksText_append, ← blocksText_append, singleton_append, ← hsplit]
  exact write_eq t m

/-- In the file of a module stands every enum without payloads, written as entries of which the
first is zero. They are its values, the first of those numbered zero in front and the others in
their order, each once and under its number. One more entry is there exactly if no value is zero,
and aliases are allowed exactly if two entries have the same number. -/
theorem enums_start_at_zero (t : Target) (e : Enum) (hplain : e.hasPayloads = false) :
    (∀ m : Module, .enum e ∈ declarations m.nodes → ∃ before after,
      ((protobuf t).write m).1 =
        tidy (before ++ entriesText (messageName t e.name) (entries t e) ++ after)) ∧
    (entries t e).head?.map Entry.number = some 0 ∧
    ∃ extra values, entries t e = extra ++ values.map (valueEntry t e) ∧
      ZeroInFront e.values values ∧ values.Perm e.values ∧
      (extra = [unspecified t e] ∧ (∀ v ∈ e.values, v.number ≠ 0) ∨
        extra = [] ∧ ∃ v ∈ e.values, v.number = 0) := by
  have hfront := zeroInFront_zeroFirst e.values
  refine ⟨fun m he => text_in_file he hplain t, ?_, _, _, rfl, hfront, hfront.perm, ?_⟩
  · rw [entries]
    split
    next hzero =>
      rw [List.nil_append, List.head?_map, Option.map_map]
      exact hfront.head_iff.mpr hzero
    next => rfl
  · split
    next hzero => exact .inr ⟨rfl, hzero⟩
    next hzero => exact .inl ⟨rfl, fun v hv h => hzero ⟨v, hv, h⟩⟩

/-- A parcel is refused, lost or sent, and two values are zero. -/
def parcelState : Enum :=
  { name := "ParcelState", values := [
      ⟨"refused", -1, [], .missing⟩, ⟨"sent", 0, [⟨"deprecated", ""⟩], .missing⟩,
      ⟨"lost", Int64.minValue, [], .missing⟩, ⟨"posted", 0, [], .missing⟩] }

theorem parcelState_starts_at_zero :
    parcelState.hasPayloads = false ∧
      (entries builtinTarget parcelState).head?.map Entry.number = some 0 ∧
      entries builtinTarget parcelState = [
        ⟨"PARCEL_STATE_SENT", 0, " [deprecated = true]"⟩, ⟨"PARCEL_STATE_REFUSED", -1, ""⟩,
        ⟨"PARCEL_STATE_LOST", Int64.minValue, ""⟩, ⟨"PARCEL_STATE_POSTED", 0, ""⟩] :=
  ⟨rfl, (enums_start_at_zero builtinTarget parcelState rfl).2.1, by decide +kernel⟩

/-! ### Names of entries -/

theorem entryName_inj {t : Target} {a b : String} : entryName t e a = entryName t e b ↔ a = b := by
  rw [entryName, entryName, String.append_right_inj]

theorem names_of_values_nodup_iff (e : Enum) :
    (((zeroFirst e.values).map (valueEntry t e)).map Entry.name).Nodup ↔
      (e.values.map fun v => t.naming.constant.apply v.name).Nodup := by
  have hperm := (zeroInFront_zeroFirst e.values).perm.map fun v => t.naming.constant.apply v.name
  have hnames : ((zeroFirst e.values).map (valueEntry t e)).map Entry.name =
      ((zeroFirst e.values).map fun v => t.naming.constant.apply v.name).map (entryName t e) := by
    simp [valueEntry]
  rw [hnames, nodup_map_iff fun _ _ => entryName_inj.mp, hperm.nodup_iff]

/-- The entries of an enum, under names that its values keep apart, have names of their own
exactly if none is added or no value has the name of the one that is. -/
theorem enum_names_apart_iff (t : Target) (e : Enum) (hplain : e.hasPayloads = false)
    (hnames : (e.values.map fun v => t.naming.constant.apply v.name).Nodup) :
    (∀ m : Module, .enum e ∈ declarations m.nodes → ∃ before after,
      ((protobuf t).write m).1 =
        tidy (before ++ entriesText (messageName t e.name) (entries t e) ++ after)) ∧
    (((entries t e).map Entry.name).Nodup ↔
      (∃ v ∈ e.values, v.number = 0) ∨
        ∀ v ∈ e.values, t.naming.constant.apply v.name ≠ "UNSPECIFIED") := by
  refine ⟨fun m he => text_in_file he hplain t, ?_⟩
  have hvalues := (names_of_values_nodup_iff t e).mpr hnames
  rw [entries, List.map_append]
  split
  next hzero => exact ⟨fun _ => .inl hzero, fun _ => hvalues⟩
  next hzero =>
    have hfree : (unspecified t e).name ∉
          ((zeroFirst e.values).map (valueEntry t e)).map Entry.name ↔
        ∀ v ∈ e.values, t.naming.constant.apply v.name ≠ "UNSPECIFIED" := by
      simp only [List.map_map, List.mem_map, not_exists, not_and, Function.comp_apply,
        (zeroInFront_zeroFirst e.values).perm.mem_iff, valueEntry, unspecified, entryName_inj, ne_eq]
    rw [or_iff_right hzero, ← hfree]
    exact List.nodup_cons.trans (and_iff_left hvalues)

/-- A state with a value of that name, under the number. -/
def partState (number : Int64) : Enum :=
  { name := "State", values :=
      [⟨"unspecified", number, [], .missing⟩, ⟨"ready", 2, [], .missing⟩] }

theorem partState_names_apart :
    ((partState 0).values.map fun v => builtinTarget.naming.constant.apply v.name).Nodup ∧
      ((entries builtinTarget (partState 0)).map Entry.name).Nodup := by
  have hnames : ((partState 0).values.map
      fun v => builtinTarget.naming.constant.apply v.name).Nodup := by decide +kernel
  refine ⟨hnames, (enum_names_apart_iff builtinTarget _ rfl hnames).2.mpr (.inl ?_)⟩
  exact ⟨_, List.mem_cons_self, rfl⟩

/-- The values keep their names apart, but two entries are called the same. -/
theorem partState_names_clash :
    ((partState 1).values.map fun v => builtinTarget.naming.constant.apply v.name).Nodup ∧
      (entries builtinTarget (partState 1)).map Entry.name =
        ["STATE_UNSPECIFIED", "STATE_UNSPECIFIED", "STATE_READY"] := by
  decide +kernel

end Schemata.Writer.Protobuf
