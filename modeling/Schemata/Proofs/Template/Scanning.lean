import Mathlib
import Schemata.Template

/-!
The two readings of a template. Filling goes over a placeholder and continues behind it; asking
for the placeholders looks at every opening brace. They find the same placeholders, since none
has a brace inside, and so the highest position and the mark for all arguments tell what a
filled text depends on.
-/

namespace Schemata.Template

open List

variable {template : String} {i : Nat}

/-! ### Filled pieces -/

def Piece.takesArguments : Piece → Bool
  | .literal _ => false
  | .argument _ | .allArguments => true

def filledChars (args : List String) (missing : String) (ps : List Piece) : List Char :=
  ps.flatMap fun p => (p.fill args missing).toList

def literals (text : String) : List Piece := text.toList.map .literal

theorem toList_substitute (template : String) (args : List String) (missing : String) :
    (substitute template args missing).toList = filledChars args missing (pieces template) := by
  rw [substitute, String.toList_join, flatMap_map, filledChars]

section

variable {args : List String} {missing : String} {ps : List Piece}

theorem filledChars_cons (p : Piece) : filledChars args missing (p :: ps) =
    (p.fill args missing).toList ++ filledChars args missing ps := flatMap_cons

theorem filledChars_append (qs : List Piece) : filledChars args missing (ps ++ qs) =
    filledChars args missing ps ++ filledChars args missing qs := flatMap_append

theorem filledChars_end : filledChars args missing [] = [] := rfl

theorem filledChars_literal (c : Char) :
    filledChars args missing (.literal c :: ps) = c :: filledChars args missing ps := by
  rw [filledChars_cons, Piece.fill]
  simp

theorem filledChars_literals_append (text : String) :
    filledChars args missing (literals text ++ ps) = text.toList ++ filledChars args missing ps := by
  rw [literals]
  induction text.toList with
  | nil => rfl
  | cons c cs ih => rw [map_cons, cons_append, filledChars_literal, ih, cons_append]

theorem filledChars_literals (text : String) :
    filledChars args missing (literals text) = text.toList := by
  rw [← append_nil (literals text), filledChars_literals_append, filledChars_end, append_nil]

theorem filledChars_argument (i : Nat) : filledChars args missing (.argument i :: ps) =
    (args.getD i missing).toList ++ filledChars args missing ps := by
  rw [filledChars_cons, Piece.fill]

end

/-! ### Placeholders -/

/-- What stands between the braces of a placeholder. -/
inductive Names : List Char → Piece → Prop
  | all : Names ['.', '.', '.'] .allArguments
  | position {digits : List Char} (hne : digits ≠ []) (hlength : digits.length ≤ 3)
      (hdigits : ∀ d ∈ digits, isDecimal d = true) : Names digits (.argument (decimalValue digits))

variable {inner rest text : List Char} {p : Piece} {ps : List Piece}

theorem Names.takesArguments (h : Names inner p) : p.takesArguments = true := by
  cases h <;> rfl

theorem Names.notMem (h : Names inner p) : '{' ∉ inner ∧ '}' ∉ inner := by
  cases h with
  | all => decide
  | position hne hlength hdigits =>
    exact ⟨fun hopen => absurd (hdigits _ hopen) (by decide),
      fun hclose => absurd (hdigits _ hclose) (by decide)⟩

theorem takeWhile_of_closed (h : '}' ∉ inner) :
    (inner ++ '}' :: rest).takeWhile (· != '}') = inner := by
  rw [takeWhile_append_of_pos, takeWhile_cons_of_neg (by decide), append_nil]
  intro c hc
  simpa using ne_of_mem_of_not_mem hc h

theorem Names.placeholder?_eq (h : Names inner p) :
    placeholder? (inner ++ '}' :: rest) = some (p, inner.length + 1) := by
  have hlength : inner.length ≠ (inner ++ '}' :: rest).length := by simp
  simp only [placeholder?, takeWhile_of_closed h.notMem.2, if_neg hlength]
  cases h with
  | all => rfl
  | position hne hle hdigits =>
    have hdots : inner ≠ ['.', '.', '.'] := by
      rintro rfl
      exact absurd (hdigits '.' mem_cons_self) (by decide)
    have hall : inner.all isDecimal = true := all_eq_true.mpr hdigits
    simp [hdots, hne, hle, hall]

/-- A text with a closing brace is cut at the first one. -/
theorem exists_closed (h : (text.takeWhile (· != '}')).length ≠ text.length) :
    ∃ rest, text = text.takeWhile (· != '}') ++ '}' :: rest := by
  have hsplit : text.takeWhile (· != '}') ++ text.dropWhile (· != '}') = text :=
    takeWhile_append_dropWhile
  cases hdrop : text.dropWhile (· != '}') with
  | nil =>
    rw [hdrop, append_nil] at hsplit
    exact absurd (congrArg length hsplit) h
  | cons c rest =>
    have hhead := head?_dropWhile_not (· != '}') text
    rw [hdrop] at hhead
    have hc : c = '}' := by simpa using hhead
    rw [hdrop, hc] at hsplit
    exact ⟨rest, hsplit.symm⟩

theorem exists_names {n : Nat} (h : placeholder? text = some (p, n)) :
    ∃ inner rest, text = inner ++ '}' :: rest ∧ Names inner p ∧ n = inner.length + 1 := by
  rw [placeholder?] at h
  split at h
  · cases h
  next hclosed =>
    obtain ⟨rest, htext⟩ := exists_closed hclosed
    refine ⟨text.takeWhile (· != '}'), rest, htext, ?_⟩
    split at h
    next hdots =>
      cases h
      rw [hdots]
      exact ⟨.all, rfl⟩
    next =>
      split at h
      next hdigits =>
        cases h
        simp only [Bool.and_eq_true, Bool.not_eq_true', isEmpty_eq_false_iff,
          decide_eq_true_iff, all_eq_true] at hdigits
        exact ⟨.position hdigits.1.1 hdigits.1.2 hdigits.2, rfl⟩
      · cases h

/-! ### One pass -/

/-- A text that begins with a placeholder, and what stands behind it. -/
def Begins (text : List Char) (p : Piece) (rest : List Char) : Prop :=
  ∃ inner, Names inner p ∧ text = '{' :: (inner ++ '}' :: rest)

/-- A text read from left to right: a placeholder where one begins, and else one character. -/
inductive Scans : List Char → List Piece → Prop
  | done : Scans [] []
  | placeholder {text rest : List Char} {p : Piece} {ps : List Piece}
      (hbegins : Begins text p rest) (hrest : Scans rest ps) : Scans text (p :: ps)
  | literal {c : Char} {rest : List Char} {ps : List Piece}
      (hnone : ∀ p after, ¬Begins (c :: rest) p after) (hrest : Scans rest ps) :
      Scans (c :: rest) (.literal c :: ps)

/-- An opening brace without a placeholder, like every other character, begins none. -/
theorem begins_none {c : Char} (hnone : ∀ p after, ¬Begins (c :: rest) p after) :
    (if c = '{' then placeholder? rest else none) = none := by
  split
  next hopen =>
    rw [Option.eq_none_iff_forall_ne_some]
    rintro ⟨p, n⟩ hsome
    obtain ⟨inner, after, rfl, hnames, -⟩ := exists_names hsome
    exact hnone p after ⟨inner, hnames, by rw [hopen]⟩
  · rfl

theorem piecesFrom_length (skipped rest : List Char) :
    piecesFrom skipped.length (skipped ++ rest) = piecesFrom 0 rest := by
  induction skipped with
  | nil => rfl
  | cons c skipped ih => exact ih

theorem Begins.piecesFrom_eq (h : Begins text p rest) :
    piecesFrom 0 text = p :: piecesFrom 0 rest := by
  obtain ⟨inner, hnames, rfl⟩ := h
  have hskip := piecesFrom_length (inner ++ ['}']) rest
  rw [length_append, length_singleton, append_assoc, singleton_append] at hskip
  rw [piecesFrom, if_pos rfl, hnames.placeholder?_eq]
  simp only [hskip]

theorem Begins.length_lt (h : Begins text p rest) : rest.length < text.length := by
  obtain ⟨inner, -, rfl⟩ := h
  simp only [length_cons, length_append]
  omega

theorem Scans.eq_piecesFrom (h : Scans text ps) : ps = piecesFrom 0 text := by
  induction h with
  | done => rfl
  | placeholder hbegins _ ih => rw [hbegins.piecesFrom_eq, ih]
  | literal hnone _ ih => rw [piecesFrom, begins_none hnone, ih]

theorem scans_piecesFrom (text : List Char) : Scans text (piecesFrom 0 text) := by
  induction hlength : text.length using Nat.strong_induction_on generalizing text with
  | _ n ih =>
    subst hlength
    by_cases hbegins : ∃ p rest, Begins text p rest
    · obtain ⟨p, rest, hbegins⟩ := hbegins
      rw [hbegins.piecesFrom_eq]
      exact .placeholder hbegins (ih rest.length hbegins.length_lt rest rfl)
    · cases text with
      | nil => exact .done
      | cons c rest =>
        have hnone : ∀ p after, ¬Begins (c :: rest) p after := by
          intro p after h
          exact hbegins ⟨p, after, h⟩
        rw [piecesFrom, begins_none hnone]
        exact .literal hnone (ih rest.length (Nat.lt_succ_self _) rest rfl)

theorem scans_iff : Scans template.toList ps ↔ ps = pieces template := by
  constructor
  · exact Scans.eq_piecesFrom
  · rintro rfl
    exact scans_piecesFrom template.toList

/-- A text where nothing takes arguments is what its pieces say. -/
theorem Scans.eq_map_literal (h : Scans text ps) (hnone : ∀ p ∈ ps, p.takesArguments = false) :
    ps = text.map .literal := by
  induction h with
  | done => rfl
  | placeholder hbegins _ _ =>
    obtain ⟨inner, hnames, -⟩ := hbegins
    have htakes := hnone _ mem_cons_self
    rw [hnames.takesArguments] at htakes
    cases htakes
  | literal _ _ ih =>
    rw [map_cons, ← ih fun p hp => hnone p (mem_cons_of_mem _ hp)]

/-! ### Every brace -/

theorem placeholders_append (h : '{' ∉ inner) (rest : List Char) :
    placeholders (inner ++ rest) = placeholders rest := by
  induction inner with
  | nil => rfl
  | cons c inner ih =>
    obtain ⟨hc, hinner⟩ := not_or.mp (mem_cons.not.mp h)
    rw [cons_append, placeholders, if_neg (Ne.symm hc)]
    exact ih hinner

theorem Begins.placeholders_eq (h : Begins text p rest) :
    placeholders text = p :: placeholders rest := by
  obtain ⟨inner, hnames, rfl⟩ := h
  -- no brace opens inside the placeholder
  have hinside : '{' ∉ inner ++ ['}'] := by simp [hnames.notMem.1]
  have hbehind := placeholders_append hinside rest
  rw [append_assoc, singleton_append] at hbehind
  rw [placeholders, if_pos rfl, hnames.placeholder?_eq, ← hbehind]

/-- Looking at every brace finds the placeholders that one pass goes over. -/
theorem Scans.placeholders_eq (h : Scans text ps) :
    placeholders text = ps.filter Piece.takesArguments := by
  induction h with
  | done => rfl
  | placeholder hbegins _ ih =>
    obtain ⟨inner, hnames, -⟩ := id hbegins
    rw [hbegins.placeholders_eq, filter_cons, if_pos hnames.takesArguments, ih]
  | literal hnone _ ih =>
    rw [placeholders, begins_none hnone, ih]
    rfl

theorem mem_placeholders (hp : p.takesArguments = true) :
    p ∈ placeholders template.toList ↔ p ∈ pieces template := by
  rw [(scans_iff.mpr rfl).placeholders_eq, mem_filter, and_iff_left hp]

/-! ### What a filled text depends on -/

theorem isVariadic_iff : isVariadic template = true ↔ .allArguments ∈ pieces template := by
  rw [isVariadic, contains_iff_mem, mem_placeholders rfl]

/-- The highest position met so far, when the next piece is read. -/
def highestOf (best : Option Nat) : Piece → Option Nat
  | .argument i => some (max i (best.getD 0))
  | _ => best

theorem highest?_eq (template : String) :
    highest? template = (placeholders template.toList).foldl highestOf none := by
  rw [highest?]
  congr 1

theorem le_foldl_highestOf {ps : List Piece} {best : Option Nat}
    (h : .argument i ∈ ps ∨ ∃ b, best = some b ∧ i ≤ b) :
    ∃ top, ps.foldl highestOf best = some top ∧ i ≤ top := by
  induction ps generalizing best with
  | nil =>
    rcases h with hmem | ⟨b, hbest, hle⟩
    · cases hmem
    · exact ⟨b, hbest, hle⟩
  | cons p ps ih =>
    rw [foldl_cons]
    apply ih
    rcases h with hmem | ⟨b, rfl, hle⟩
    · rcases mem_cons.mp hmem with rfl | hmem
      · exact .inr ⟨max i (best.getD 0), rfl, le_max_left _ _⟩
      · exact .inl hmem
    · -- what was highest before stays below what is highest now
      right
      cases p with
      | argument j => exact ⟨max j b, rfl, hle.trans (le_max_right _ _)⟩
      | _ => exact ⟨b, rfl, hle⟩

theorem exists_highest (h : .argument i ∈ pieces template) :
    ∃ top, highest? template = some top ∧ i ≤ top := by
  rw [highest?_eq]
  exact le_foldl_highestOf (.inl ((mem_placeholders rfl).mpr h))

theorem mem_of_foldl_highestOf {ps : List Piece} {best : Option Nat} {top : Nat}
    (h : ps.foldl highestOf best = some top) : .argument top ∈ ps ∨ best = some top := by
  induction ps generalizing best with
  | nil => exact .inr h
  | cons p ps ih =>
    rw [foldl_cons] at h
    rcases ih h with hmem | hbest
    · exact .inl (mem_cons_of_mem p hmem)
    · cases p with
      | literal c => exact .inr hbest
      | allArguments => exact .inr hbest
      | argument j =>
        have htop : max j (best.getD 0) = top := Option.some.inj hbest
        cases best with
        | none =>
          rw [Option.getD_none, Nat.max_zero] at htop
          exact .inl (htop ▸ mem_cons_self)
        | some b =>
          rw [Option.getD_some] at htop
          rcases max_choice j b with hj | hb
          · exact .inl ((hj.symm.trans htop) ▸ mem_cons_self)
          · exact .inr (congrArg some (hb.symm.trans htop))

/-- How many arguments from the front a template can ask for by position. -/
def reach (template : String) : Nat := (highest? template).elim 0 (· + 1)

theorem lt_reach (h : .argument i ∈ pieces template) : i < reach template := by
  obtain ⟨top, htop, hle⟩ := exists_highest h
  rw [reach, htop]
  exact Nat.lt_succ_of_le hle

theorem mem_of_lt_reach {n : Nat} (h : n < reach template) :
    ∃ i, n ≤ i ∧ .argument i ∈ pieces template := by
  rw [reach] at h
  cases htop : highest? template with
  | none =>
    rw [htop] at h
    exact absurd h (Nat.not_lt_zero n)
  | some top =>
    rw [htop] at h
    refine ⟨top, Nat.le_of_lt_succ h, ?_⟩
    rw [highest?_eq] at htop
    have hmem := (mem_of_foldl_highestOf htop).resolve_right nofun
    exact (mem_placeholders rfl).mp hmem

/-- Every position a template asks for is that of an argument. -/
def Fits (template : String) (n : Nat) : Prop := ∀ i, .argument i ∈ pieces template → i < n

/-- Text for missing arguments has no place in a template whose positions all have one. -/
theorem Fits.substitute_eq {args : List String} (h : Fits template args.length)
    (missing other : String) :
    substitute template args missing = substitute template args other := by
  rw [substitute, substitute]
  refine congrArg String.join (map_congr_left ?_)
  intro p hp
  cases p with
  | literal c => rfl
  | allArguments => rfl
  | argument i =>
    have hi : i < args.length := h i hp
    simp [Piece.fill, getD_eq_getElem?_getD, hi]

theorem substitute_take (hvariadic : isVariadic template = false) {args other : List String}
    (h : args.take (reach template) = other.take (reach template)) (missing : String) :
    substitute template args missing = substitute template other missing := by
  rw [substitute, substitute]
  refine congrArg String.join (map_congr_left ?_)
  intro p hp
  cases p with
  | literal c => rfl
  | allArguments =>
    rw [isVariadic_iff.mpr hp] at hvariadic
    cases hvariadic
  | argument i =>
    have hi := congrArg (·[i]?) h
    simp only [getElem?_take, if_pos (lt_reach hp)] at hi
    rw [Piece.fill, Piece.fill, getD_eq_getElem?_getD, getD_eq_getElem?_getD, hi]

theorem substitute_closed (hreach : reach template = 0) (hvariadic : isVariadic template = false)
    (args : List String) (missing : String) : substitute template args missing = template := by
  have hnone : ∀ p ∈ pieces template, p.takesArguments = false := by
    intro p hp
    cases p with
    | literal c => rfl
    | allArguments =>
      rw [isVariadic_iff.mpr hp] at hvariadic
      cases hvariadic
    | argument i =>
      have hlt := lt_reach hp
      omega
  have hpieces : pieces template = literals template :=
    (scans_iff.mpr rfl).eq_map_literal hnone
  rw [← String.toList_inj, toList_substitute, hpieces, filledChars_literals]

/-- A template is filled in one pass over its own text: each placeholder gives way to the text
it stands for, which is not looked at again. The text for missing arguments does not count as
long as there is an argument for the highest position, and stands in the result otherwise. If
not all arguments are asked for at once, those behind the highest position do not count. A
template that asks for nothing is left as it is. -/
theorem substitute_by_placeholders (template : String) :
    ∃ ps, Scans template.toList ps ∧ (∀ qs, Scans template.toList qs → qs = ps) ∧
      (∀ args missing, (substitute template args missing).toList = filledChars args missing ps) ∧
      (∀ args : List String, reach template ≤ args.length → ∀ missing other,
        substitute template args missing = substitute template args other) ∧
      (∀ args : List String, args.length < reach template → ∃ before i after,
        ps = before ++ .argument i :: after ∧ args.length ≤ i ∧ ∀ missing : String,
          (substitute template args missing).toList = filledChars args missing before ++
            (missing.toList ++ filledChars args missing after)) ∧
      (isVariadic template = false → ∀ args other : List String,
        args.take (reach template) = other.take (reach template) → ∀ missing,
          substitute template args missing = substitute template other missing) ∧
      (reach template = 0 → isVariadic template = false → ∀ args missing,
        substitute template args missing = template) := by
  refine ⟨pieces template, scans_iff.mpr rfl, fun qs => scans_iff.mp,
    fun args missing => toList_substitute template args missing, ?_, ?_,
    fun hvariadic args other => substitute_take hvariadic, substitute_closed⟩
  · intro args hreach
    exact Fits.substitute_eq fun i hi => (lt_reach hi).trans_le hreach
  · intro args hreach
    obtain ⟨i, hi, hmem⟩ := mem_of_lt_reach hreach
    obtain ⟨before, after, heq⟩ := List.append_of_mem hmem
    refine ⟨before, i, after, heq, hi, ?_⟩
    intro missing
    rw [toList_substitute, heq, filledChars_append, filledChars_argument,
      List.getD_eq_default _ _ hi]

/-- A template that passes over its first argument, and has braces around something else. -/
def second : String := "{1} {of}"

theorem second_by_placeholders :
    reach second = 2 ∧ isVariadic second = false ∧
      (∀ missing other,
        substitute second ["a", "{0}"] missing =
          substitute second ["a", "{0}"] other) ∧
      (∃ before after, ∀ missing : String,
        (substitute second ["a"] missing).toList =
          filledChars ["a"] missing before ++ (missing.toList ++ filledChars ["a"] missing after)) ∧
      (∀ missing, substitute second ["a", "b", "c"] missing = substitute second ["a", "b"] missing) ∧
      reach "{of}" = 0 ∧
      ∀ missing, substitute "{of}" ["a"] missing = "{of}" := by
  have hreach : reach second = 2 := by decide
  have hvariadic : isVariadic second = false := by decide
  have hclosed : reach "{of}" = 0 := by decide
  obtain ⟨_, -, -, -, hmet, hmissing, hfront, -⟩ := substitute_by_placeholders second
  obtain ⟨_, -, -, -, -, -, -, hkept⟩ := substitute_by_placeholders "{of}"
  obtain ⟨before, _, after, -, -, hinserted⟩ := hmissing ["a"] (by rw [hreach]; decide)
  refine ⟨hreach, hvariadic, hmet ["a", "{0}"] (by rw [hreach]; decide),
    ⟨before, after, hinserted⟩, ?_, hclosed, hkept hclosed (by decide) ["a"]⟩
  exact hfront hvariadic ["a", "b", "c"] ["a", "b"] (by rw [hreach]; rfl)

end Schemata.Template
