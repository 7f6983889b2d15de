import Schemata.Proofs.Hcl.TypeRoundTrip
import Schemata.Proofs.Reading.WellShaped

/-!
How the values of an enum are counted. A block that gives its value no number leaves it to the
counter, a word that is one past the number before. The word after the largest one is the
smallest, so counting as with integers ends there: the numbers are those of an integer counter
exactly if no value without a number comes after the largest word.
-/

namespace Schemata.Hcl

def Block.isUnnumbered (b : Block) : Bool := (b.body.find? "number").isNone

def Gives (b : Block) (v : EnumValue) : Prop :=
  ∀ e, b.body.find? "number" = some e → integerOf e = .ok v.number

/-- Each value left to the counter is a step from the number before it; `before` is the number
before the first. -/
def CountsBy (step : Int64 → Int64 → Prop) : Int64 → List Block → List EnumValue → Prop
  | before, b :: blocks, v :: values =>
    (b.isUnnumbered = true → step before v.number) ∧ CountsBy step v.number blocks values
  | _, [], [] => True
  | _, _, _ => False

def IsNext (m n : Int64) : Prop := n.toInt = m.toInt + 1

/-! ### Words and integers -/

theorem isNext_add_one_iff (m : Int64) : IsNext m (m + 1) ↔ m ≠ Int64.maxValue := by
  have hlow := m.le_toInt
  have hhigh := m.toInt_lt
  have hmax : m = Int64.maxValue ↔ m.toInt = 2 ^ 63 - 1 := Int64.toInt_inj.symm
  rw [IsNext, Int64.toInt_add, Int64.toInt_one, Ne, hmax]
  constructor
  · intro hnext hlargest
    rw [hlargest] at hnext
    exact absurd hnext (by decide)
  · intro hne
    exact Int.bmod_eq_of_le (by omega) (by omega)

/-- Where every value left to the counter takes a step of one kind, steps that are the same for
that kind count the same. -/
theorem CountsBy.congr {taken p q : Int64 → Int64 → Prop}
    (hpq : ∀ m n, taken m n → (p m n ↔ q m n)) {before : Int64} {blocks : List Block}
    {values : List EnumValue} (h : CountsBy taken before blocks values) :
    CountsBy p before blocks values ↔ CountsBy q before blocks values := by
  induction blocks generalizing before values with
  | nil =>
    cases values with
    | nil => rfl
    | cons => exact h.elim
  | cons b blocks ih =>
    cases values with
    | nil => exact h.elim
    | cons v values =>
      have hstep : (b.isUnnumbered = true → p before v.number) ↔
          (b.isUnnumbered = true → q before v.number) :=
        forall_congr' fun hb => hpq _ _ (h.1 hb)
      exact and_congr hstep (ih h.2)

/-! ### What a reading ensures -/

theorem ensures_number (next : Int64) (b : Block) :
    Ensures (readValue next b) fun v =>
      (b.isUnnumbered = true → v.number = next) ∧ Gives b v := by
  refine .after fun name => .after fun _ => ?_
  rw [Block.isUnnumbered]
  simp only [Gives]
  cases b.body.find? "number" with
  | none =>
    refine .bind (P := (· = next)) (.ok rfl) fun number hnumber => ?_
    refine .after fun payload => .after fun attributes => ?_
    exact .ok ⟨fun _ => hnumber, nofun⟩
  | some e =>
    refine .bind (P := (integerOf e = .ok ·)) (fun _ => id) fun number hnumber => ?_
    refine .after fun payload => .after fun attributes => ?_
    exact .ok ⟨nofun, fun _ he => Option.some.inj he ▸ hnumber⟩

/-- The counter stands one past the number before, which the next value takes unless its block
gives one. -/
theorem ensures_numbers (enumName : String) (before : Int64) (blocks : List Block) :
    Ensures (readValues enumName (before + 1) blocks) fun values =>
      List.Forall₂ Gives blocks values ∧ CountsBy (fun m n => n = m + 1) before blocks values := by
  induction blocks generalizing before with
  | nil =>
    rw [readValues]
    exact .ok ⟨.nil, trivial⟩
  | cons b blocks ih =>
    rw [readValues]
    split
    next => exact .error _
    next =>
      refine .bind (ensures_number (before + 1) b) fun v hv => ?_
      refine .bind (ih v.number) fun values hvalues => .ok ?_
      exact ⟨.cons hv.2 hvalues.1, hv.1, hvalues.2⟩

theorem ensures_enum_numbers (b : Block) :
    Ensures (readEnum b) fun e =>
      List.Forall₂ Gives b.body.blocks e.values ∧
        CountsBy (fun m n => n = m + 1) (-1) b.body.blocks e.values := by
  refine .after fun name => .after fun _ => .after fun attributes =>
    .after fun isScoped => .after fun underlying => ?_
  have hvalues := ensures_numbers name (-1) b.body.blocks
  exact .bind hvalues fun values hvalues => .ok hvalues

/-- Every value of an enum that is read has the number its block gives, or else the word after the
number before it, zero for the first. As integers these are the next numbers exactly if no value
that is left to the counter comes after the largest word. -/
theorem enum_counts_iff {b : Block} {e : Enum} (h : readEnum b = .ok e) :
    List.Forall₂ Gives b.body.blocks e.values ∧
      CountsBy (fun m n => n = m + 1) (-1) b.body.blocks e.values ∧
      (CountsBy IsNext (-1) b.body.blocks e.values ↔
        CountsBy (fun m _ => m ≠ Int64.maxValue) (-1) b.body.blocks e.values) := by
  obtain ⟨hgiven, hcounts⟩ := ensures_enum_numbers b e h
  refine ⟨hgiven, hcounts, hcounts.congr ?_⟩
  rintro m n rfl
  exact isNext_add_one_iff m

/-- An enum of levels: a first one, one that has the number, and one after it. -/
def levels (number : Nat) : Block :=
  let value (name : String) (settings : List Setting) : Block :=
    ⟨"value", default, [(name, default)], { place := default, settings }⟩
  let given := ⟨"number", default, .literal default (.number (.finite false number 0))⟩
  ⟨"enum", default, [("Level", default)],
    { place := default, blocks := [value "low" [], value "high" [given], value "top" []] }⟩

/-- The levels under these numbers. -/
def levelsNumbered (low high top : Int64) : Enum :=
  { name := "Level", values :=
      [⟨"low", low, [], .missing⟩, ⟨"high", high, [], .missing⟩, ⟨"top", top, [], .missing⟩] }

theorem readEnum_levels {n : Nat} (hn : n < 2 ^ 63) :
    readEnum (levels n) = .ok (levelsNumbered 0 (Int64.ofInt n) (Int64.ofInt n + 1)) := by
  have hnumber := integerOf_number (toInt64?_ofNat hn) default
  simp [levels, levelsNumbered, readEnum, readValues, readValue, label, label?, leaf,
    allowSettings, attributesOf, flagSetting, textSetting, typeSetting, Body.find?, hnumber, bind,
    Except.bind, pure, Except.pure]

/-- The last word that can be followed. -/
theorem levels_counted :
    readEnum (levels 9223372036854775806) =
        .ok (levelsNumbered 0 9223372036854775806 Int64.maxValue) ∧
      CountsBy IsNext (-1) (levels 9223372036854775806).body.blocks
        (levelsNumbered 0 9223372036854775806 Int64.maxValue).values := by
  have hread : readEnum (levels 9223372036854775806) =
      .ok (levelsNumbered 0 9223372036854775806 Int64.maxValue) := readEnum_levels (by decide)
  refine ⟨hread, (enum_counts_iff hread).2.2.mpr ⟨fun _ => ?_, nofun, fun _ => ?_, trivial⟩⟩
  · decide
  · change (9223372036854775806 : Int64) ≠ Int64.maxValue
    decide

/-- The level after the largest word is accepted under the smallest one. -/
theorem levels_wrapped :
    readEnum (levels 9223372036854775807) =
        .ok (levelsNumbered 0 Int64.maxValue Int64.minValue) ∧
      ¬CountsBy IsNext (-1) (levels 9223372036854775807).body.blocks
        (levelsNumbered 0 Int64.maxValue Int64.minValue).values := by
  refine ⟨readEnum_levels (by decide), fun h => ?_⟩
  have htop : IsNext Int64.maxValue Int64.minValue := h.2.2.1 rfl
  exact absurd htop (by unfold IsNext; decide)

end Schemata.Hcl
