import Mathlib
import Schemata.Emission.Layout

/-!
Tidying changes only where lines end. The two passes over a text leave out newlines that have
another behind them, so whatever else a text holds stays. Their result has no place left where they
would leave out more, and a text comes back as it is just when it is tidy already.
-/

namespace Schemata.Emission

open List

/-- The line of a closing brace or bracket, up to it. -/
def Closing (line : List Char) : Prop :=
  ∃ blanks closer, line = blanks ++ [closer] ∧ (∀ c ∈ blanks, c = ' ' ∨ c = '\t') ∧
    (closer = '}' ∨ closer = ']')

/-- One newline at the end, no two blank lines together and none before a closing brace or
bracket. -/
structure Tidied (s : List Char) : Prop where
  ended : ∃ front, s = front ++ ['\n'] ∧ front.getLast? ≠ some '\n'
  spaced : ¬ ['\n', '\n', '\n'] <:+: s
  flush : ∀ line, Closing line → ¬ '\n' :: '\n' :: line <:+: s

/-- Some newlines of the first text that have another behind them are missing in the second. -/
inductive Thinned : List Char → List Char → Prop
  | nil : Thinned [] []
  | keep (c : Char) {s t : List Char} (h : Thinned s t) : Thinned (c :: s) (c :: t)
  | drop {s t : List Char} (h : Thinned ('\n' :: s) t) : Thinned ('\n' :: '\n' :: s) t

section

variable {s t line rest : List Char}

/-! ### Closing lines -/

theorem Closing.newline_notMem (h : Closing line) : '\n' ∉ line := by
  obtain ⟨blanks, closer, rfl, hblanks, hcloser⟩ := h
  rw [mem_append, mem_singleton]
  rintro (hmem | rfl)
  · simpa using hblanks _ hmem
  · simp at hcloser

theorem closesNext_iff :
    closesNext rest = true ↔ ∃ n line, Closing line ∧ replicate n '\n' ++ line <+: rest := by
  constructor
  · intro h
    induction rest with
    | nil => cases h
    | cons c rest ih =>
      by_cases hc : c = '\n'
      · subst hc
        obtain ⟨n, line, hline, hprefix⟩ := ih h
        exact ⟨n + 1, line, hline, (prefix_cons_inj _).mpr hprefix⟩
      · rw [closesNext, dropWhile_cons_of_neg (by simpa using hc)] at h
        have hsplit := takeWhile_append_dropWhile (p := fun c => c == ' ' || c == '\t')
          (l := c :: rest)
        split at h
        next closer behind hdrop =>
          rw [hdrop, append_cons] at hsplit
          refine ⟨0, _, ⟨_, closer, rfl, fun c hc => ?_, by simpa using h⟩, behind, hsplit⟩
          simpa using mem_takeWhile_imp hc
        next => cases h
  · rintro ⟨n, line, hline, behind, rfl⟩
    induction n with
    | zero =>
      obtain ⟨blanks, closer, rfl, hblanks, hcloser⟩ := hline
      have hstart : (blanks ++ [closer] ++ behind).dropWhile (· == '\n') =
          blanks ++ closer :: behind := by
        rw [← append_cons]
        cases blanks with
        | nil => rcases hcloser with rfl | rfl <;> rfl
        | cons c blanks => rcases hblanks c mem_cons_self with rfl | rfl <;> rfl
      rw [closesNext, replicate_zero, nil_append, hstart,
        dropWhile_append_of_pos (by simpa using hblanks)]
      rcases hcloser with rfl | rfl <;> rfl
    | succ n ih => exact ih

/-- Of a run of newlines, the last two stand right before the line. -/
theorem infix_of_run {n : Nat} (h : replicate n '\n' ++ line <+: rest) :
    '\n' :: '\n' :: line <:+: '\n' :: '\n' :: rest := by
  obtain ⟨behind, rfl⟩ := h
  induction n with
  | zero => exact (prefix_append ('\n' :: '\n' :: line) behind).isInfix
  | succ n ih => exact infix_cons ih

/-! ### What the passes keep -/

namespace Thinned

theorem head? (h : Thinned s t) : t.head? = s.head? := by
  induction h with
  | nil | keep => rfl
  | drop _ ih => exact ih

theorem filter (h : Thinned s t) : t.filter (· ≠ '\n') = s.filter (· ≠ '\n') := by
  induction h with
  | nil => rfl
  | keep c _ ih => rw [filter_cons, filter_cons, ih]
  | drop _ ih => exact ih

theorem two_newlines (h : Thinned s t) (ht : ['\n', '\n'] <+: t) : ['\n', '\n'] <+: s := by
  cases h with
  | nil => exact ht
  | keep c h =>
    rw [cons_prefix_cons, singleton_prefix_iff_head?_eq_some] at ht ⊢
    exact ⟨ht.1, h.head? ▸ ht.2⟩
  | drop _ => exact prefix_append ['\n', '\n'] _

theorem starts_line (h : Thinned s t) (hline : '\n' ∉ line) (ht : line <+: t) : line <+: s := by
  induction h generalizing line with
  | nil => exact ht
  | keep c h ih =>
    cases line with
    | nil => exact nil_prefix
    | cons d line =>
      rw [cons_prefix_cons] at ht ⊢
      exact ⟨ht.1, ih (fun hmem => hline (mem_cons_of_mem _ hmem)) ht.2⟩
  | drop h _ =>
    cases line with
    | nil => exact nil_prefix
    | cons d line =>
      obtain ⟨behind, rfl⟩ := ht
      cases h.head?
      exact absurd mem_cons_self hline

/-- Before a line, a newline of the shorter text was a run of them. -/
theorem starts_run (h : Thinned s t) (hline : '\n' ∉ line) (ht : '\n' :: line <+: t) :
    ∃ n rest, s = '\n' :: rest ∧ replicate n '\n' ++ line <+: rest := by
  induction h with
  | nil => simp at ht
  | keep c h ih =>
    rw [cons_prefix_cons] at ht
    obtain ⟨rfl, ht⟩ := ht
    exact ⟨0, _, rfl, h.starts_line hline ht⟩
  | drop h ih =>
    obtain ⟨n, rest, heq, hprefix⟩ := ih ht
    cases heq
    exact ⟨n + 1, _, rfl, (prefix_cons_inj _).mpr hprefix⟩

theorem infix_line (h : Thinned s t) (hline : '\n' ∉ line) (ht : '\n' :: '\n' :: line <:+: t) :
    '\n' :: '\n' :: line <:+: s := by
  induction h with
  | nil => exact ht
  | keep c h ih =>
    rcases infix_cons_iff.mp ht with hprefix | hinfix
    · rw [cons_prefix_cons] at hprefix
      obtain ⟨rfl, hprefix⟩ := hprefix
      obtain ⟨n, rest, rfl, hrun⟩ := h.starts_run hline hprefix
      exact infix_of_run hrun
    · exact infix_cons (ih hinfix)
  | drop _ ih => exact infix_cons (ih ht)

end Thinned

theorem thinned_dropBlankBeforeClose (s : List Char) : Thinned s (dropBlankBeforeClose s) := by
  fun_induction dropBlankBeforeClose s with
  | case1 => exact .nil
  | case2 c rest h ih =>
    simp only [Bool.and_eq_true, decide_eq_true_eq, head?_eq_some_iff] at h
    obtain ⟨⟨rfl, behind, rfl⟩, -⟩ := h
    exact .drop ih
  | case3 c rest h ih => exact .keep c ih

theorem thinned_collapseBlankRuns (s : List Char) : Thinned s (collapseBlankRuns s) := by
  fun_induction collapseBlankRuns s with
  | case1 => exact .nil
  | case2 c rest h ih =>
    simp only [Bool.and_eq_true, decide_eq_true_eq, head?_eq_some_iff] at h
    obtain ⟨⟨rfl, behind, rfl⟩, -⟩ := h
    exact .drop ih
  | case3 c rest h ih => exact .keep c ih

/-! ### What the passes leave -/

theorem flush_dropBlankBeforeClose (hline : Closing line) (s : List Char) :
    ¬ '\n' :: '\n' :: line <:+: dropBlankBeforeClose s := by
  fun_induction dropBlankBeforeClose s with
  | case1 => simp
  | case2 c rest h ih => exact ih
  | case3 c rest h ih =>
    rw [infix_cons_iff, not_or, cons_prefix_cons]
    refine ⟨?_, ih⟩
    rintro ⟨rfl, hprefix⟩
    obtain ⟨n, behind, rfl, hrun⟩ :=
      (thinned_dropBlankBeforeClose rest).starts_run hline.newline_notMem hprefix
    have hcloses : closesNext behind = true := closesNext_iff.mpr ⟨n, line, hline, hrun⟩
    exact h (by simpa [closesNext] using hcloses)

theorem spaced_collapseBlankRuns (s : List Char) :
    ¬ ['\n', '\n', '\n'] <:+: collapseBlankRuns s := by
  fun_induction collapseBlankRuns s with
  | case1 => simp
  | case2 c rest h ih => exact ih
  | case3 c rest h ih =>
    rw [infix_cons_iff, not_or, cons_prefix_cons]
    refine ⟨?_, ih⟩
    rintro ⟨rfl, hprefix⟩
    obtain ⟨behind, rfl⟩ := (thinned_collapseBlankRuns rest).two_newlines hprefix
    exact h rfl

theorem dropBlankBeforeClose_eq (h : ∀ line, Closing line → ¬ '\n' :: '\n' :: line <:+: s) :
    dropBlankBeforeClose s = s := by
  fun_induction dropBlankBeforeClose s with
  | case1 => rfl
  | case2 c rest hc ih =>
    simp only [Bool.and_eq_true, decide_eq_true_eq, head?_eq_some_iff] at hc
    obtain ⟨⟨rfl, behind, rfl⟩, hcloses⟩ := hc
    have hbehind : closesNext behind = true := hcloses
    obtain ⟨n, line, hline, hrun⟩ := closesNext_iff.mp hbehind
    exact absurd (infix_of_run hrun) (h line hline)
  | case3 c rest _ ih =>
    rw [ih fun line hline hinfix => h line hline (infix_cons hinfix)]

theorem collapseBlankRuns_eq (h : ¬ ['\n', '\n', '\n'] <:+: s) : collapseBlankRuns s = s := by
  fun_induction collapseBlankRuns s with
  | case1 => rfl
  | case2 c rest hc ih =>
    simp only [Bool.and_eq_true, decide_eq_true_eq, head?_eq_some_iff] at hc
    obtain ⟨⟨rfl, _, rfl⟩, behind, rfl⟩ := hc
    exact absurd (prefix_append ['\n', '\n', '\n'] behind).isInfix h
  | case3 c rest _ ih => rw [ih fun hinfix => h (infix_cons hinfix)]

theorem endLine_cut (s : List Char) : ∃ front behind, endLine s = front ++ ['\n'] ∧
    front.getLast? ≠ some '\n' ∧ s = front ++ behind ∧ ∀ c ∈ behind, c = '\n' := by
  refine ⟨_, (s.reverse.takeWhile (· == '\n')).reverse, rfl, ?_, ?_, fun c hc => ?_⟩
  · have hhead := head?_dropWhile_not (· == '\n') s.reverse
    rw [getLast?_reverse]
    intro h
    simp [h] at hhead
  · rw [← reverse_append, takeWhile_append_dropWhile, reverse_reverse]
  · simpa using mem_takeWhile_imp (mem_reverse.mp hc)

theorem filter_endLine (s : List Char) : (endLine s).filter (· ≠ '\n') = s.filter (· ≠ '\n') := by
  obtain ⟨front, behind, heq, -, hs, hbehind⟩ := endLine_cut s
  have hnone : behind.filter (· ≠ '\n') = [] := by simpa using hbehind
  rw [heq, hs, filter_append, filter_append, hnone]
  rfl

theorem endLine_eq (h : ∃ front, s = front ++ ['\n'] ∧ front.getLast? ≠ some '\n') :
    endLine s = s := by
  obtain ⟨front, rfl, hlast⟩ := h
  have hstop : front.reverse.dropWhile (· == '\n') = front.reverse := by
    rw [← head?_reverse] at hlast
    cases hfront : front.reverse with
    | nil => rfl
    | cons c rest =>
      rw [hfront] at hlast
      exact dropWhile_cons_of_neg (by simpa using hlast)
  simp [endLine, hstop]

theorem tidied_tidy (s : String) : Tidied (tidy s).toList := by
  obtain ⟨front, behind, heq, hlast, hcut, -⟩ :=
    endLine_cut (collapseBlankRuns (dropBlankBeforeClose s.toList))
  have hwhole {pattern : List Char} (h : pattern <:+: front) :
      pattern <:+: collapseBlankRuns (dropBlankBeforeClose s.toList) :=
    hcut ▸ h.trans (prefix_append front behind).isInfix
  rw [tidy, String.toList_ofList, heq]
  refine ⟨⟨front, rfl, hlast⟩, fun h => ?_, fun line hline h => ?_⟩
  · rcases infix_concat_iff.mp h with ⟨before, hsuffix⟩ | h
    · have hfront := congrArg (fun s => s.dropLast.getLast?) hsuffix
      simp [hlast.symm] at hfront
    · exact spaced_collapseBlankRuns _ (hwhole h)
  · rcases infix_concat_iff.mp h with ⟨before, hsuffix⟩ | h
    · obtain ⟨blanks, closer, rfl, -, hcloser⟩ := hline
      have hend : closer = '\n' := by simpa [getLast?_cons] using congrArg getLast? hsuffix
      simp [hend] at hcloser
    · have hmem := (thinned_collapseBlankRuns _).infix_line hline.newline_notMem (hwhole h)
      exact flush_dropBlankBeforeClose hline _ hmem

end

/-- Tidying changes nothing but newlines and gives a tidy text. It leaves alone the tidy texts and
only those, so doing it again changes nothing. -/
theorem tidy_changes_layout_only (s : String) :
    (tidy s).toList.filter (· ≠ '\n') = s.toList.filter (· ≠ '\n') ∧
      Tidied (tidy s).toList ∧ (tidy s = s ↔ Tidied s.toList) ∧ tidy (tidy s) = tidy s := by
  have hfixed {s : String} (h : Tidied s.toList) : tidy s = s := by
    rw [tidy, dropBlankBeforeClose_eq h.flush, collapseBlankRuns_eq h.spaced, endLine_eq h.ended,
      String.ofList_toList]
  refine ⟨?_, tidied_tidy s, ⟨fun h => ?_, hfixed⟩, hfixed (tidied_tidy s)⟩
  · rw [tidy, String.toList_ofList, filter_endLine, (thinned_collapseBlankRuns _).filter,
      (thinned_dropBlankBeforeClose _).filter]
  · rw [← h]
    exact tidied_tidy s

end Schemata.Emission
