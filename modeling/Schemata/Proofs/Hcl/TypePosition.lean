import Schemata.Hcl.Reading
import Schemata.Proofs.Hcl.WrittenExpressions

/-!
Types where they are read: as an expression on its own, and on the line of a body that sets a
type. Both read what the text of an expression is read as.
-/

namespace Schemata.Hcl

open Text List

variable {tokens : List Token} {ls : List Lexeme} {P : Expression → Prop} {c : Cursor} {fuel : Nat}

/-! ### Tokens -/

theorem invalidPlaces_eq_nil (htokens : ∀ t ∈ tokens, t.kind ≠ .invalid) (wrong : List Bool)
    (hwrong : ∀ w ∈ wrong, w = false) : invalidPlaces tokens wrong = [] := by
  induction tokens generalizing wrong with
  | nil => rfl
  | cons t ts ih =>
    have hinside : ((wrong.drop t.spaces).take t.text.length).findIdx? id = none := by
      rw [findIdx?_eq_none_iff]
      exact fun w hw => hwrong w (mem_of_mem_drop (mem_of_mem_take hw))
    have hmore : invalidPlaces ts (wrong.drop (t.spaces + t.text.length)) = [] :=
      ih (forall_mem_cons.mp htokens).2 _ fun w hw => hwrong w (mem_of_mem_drop hw)
    rw [invalidPlaces]
    simp [htokens t mem_cons_self, hinside, hmore, ite_self]

theorem sourceText_toUTF8 {s : String} (hs : ∀ c ∈ s.toList.head?, c.toNat ≠ 0xFEFF) :
    sourceText s.toUTF8.toList = (s.toList, s.toList.map fun _ => false) := by
  rw [sourceText, Utf8.decode_toUTF8]
  cases hcs : s.toList with
  | nil => rfl
  | cons c cs =>
    have hc : c.toNat ≠ 0xFEFF := hs c (by rw [hcs]; rfl)
    simp [hc, Function.comp_def]

theorem lex_append {text : List Char} (h : Lexes text ls) {tail : List Char}
    (htail : EndsNumber tail) :
    (lex (text ++ tail)).map Token.lexeme = ls ++ lexemes [.plain 0] tail := by
  rw [lex, map_lexeme_lexFrom, h.cuts 0 [] tail htail]

theorem valid_of_map_lexeme (htokens : tokens.map Token.lexeme = ls)
    (hls : ∀ l ∈ ls, l.kind ≠ .invalid) : ∀ t ∈ tokens, t.kind ≠ .invalid := by
  subst htokens
  exact fun t ht => hls t.lexeme (mem_map_of_mem ht)

/-! ### Expressions on their own -/

theorem ReadsAs.parseExpression_eq {text : List Char} (h : ReadsAs text P) :
    ∃ e, parseExpression text = .ok e ∧ P e := by
  obtain ⟨ls, hcut, hspells⟩ := h
  have htokens : (lex text).map Token.lexeme = ls ++ [⟨.endOfFile, []⟩] := by
    have hend : EndsNumber [] := ⟨by simp [EndsWord], by simp⟩
    simpa [lexemes_nil] using lex_append hcut hend
  have hvalid := invalidPlaces_eq_nil (valid_of_map_lexeme htokens
    (forall_mem_append.mpr ⟨hcut.valid, by simp⟩)) [] (by simp)
  obtain ⟨ts, last, hlex, hts, hlast⟩ := map_eq_append_iff.mp htokens
  obtain ⟨t, last, rfl, ht, hnone⟩ := map_eq_cons_iff.mp hlast
  obtain rfl : last = [] := map_eq_nil_iff.mp hnone
  have hkind : t.kind = .endOfFile := congrArg Lexeme.kind ht
  have hvisible : t.kind.isVisible = true := by rw [hkind]; rfl
  have hlength : ts.length = ls.length := by rw [← hts, length_map]
  obtain ⟨e, hrun, hP⟩ := hspells.reads (16 * (lex text).length + 64)
    { rest := [], final := t, breaks := [false] } ts [t]
    (by rw [hlex, length_append, hlength]; omega) hts
    (endsExpression_cons hvisible (by rw [hkind]; rfl))
  refine ⟨e, ?_, hP⟩
  rw [hlex] at hvalid hrun
  have hnext : Cursor.next { rest := [t], final := t, breaks := [false] } = (t, []) :=
    next_of_isVisible (c := { rest := [], final := t, breaks := [false] }) hvisible
  simp only [parseExpression, hlex, hvalid, getLast?_concat, Option.getD_some, run_bind, hrun,
    run_peek, hnext, hkind, ne_eq, not_true_eq_false, if_false, run_pure, getLast?_nil]

/-! ### Lines that set a type -/

theorem next_newline (hbreaks : c.breaks.headD true = true) {t : Token} (ht : t.kind = .newline)
    (rest : List Token) : Cursor.next { c with rest := t :: rest } = (t, rest) := by
  simp only [Cursor.next, hbreaks, visible, ht, reduceCtorEq, if_false, Bool.not_true,
    Bool.false_eq_true, and_false]

/-- A setting on a line of its own, behind its name. -/
theorem run_settingAfter (h : Spells ls P) (hbreaks : c.breaks.headD true = true)
    (hfuel : 16 * ls.length ≤ fuel) (name : Token) {equal newline : Token}
    (hequal : equal.kind = .equal) (hnewline : newline.kind = .newline) {ts : List Token}
    (hts : ts.map Token.lexeme = ls) (rest : List Token) :
    ∃ e, P e ∧ (settingAfter fuel name true).run
        { c with rest := equal :: (ts ++ newline :: rest) } =
      ({ name := String.ofList name.text, place := name.place, value := e }, { c with rest }) := by
  have hvisible : equal.kind.isVisible = true := by rw [hequal]; rfl
  have hnext := next_newline hbreaks hnewline rest
  obtain ⟨e, hrun, hP⟩ := h.reads fuel c ts (newline :: rest) hfuel hts
    (by rw [Cursor.EndsExpression, hnext, hnewline]; rfl)
  refine ⟨e, hP, ?_⟩
  simp only [settingAfter, run_bind, run_discard, run_read, next_of_isVisible hvisible,
    run_attemptLost hrun rfl, Bool.false_eq_true, if_false, if_true, run_peek, hnext, hnewline,
    true_or, run_pure]

/-- A line that sets a name for the first time. -/
theorem run_bodyItems_setting (h : Spells ls P) (hbreaks : c.breaks.headD true = true)
    (hfuel : 16 * ls.length ≤ fuel) {name equal newline : Token} (hname : name.kind = .identifier)
    (hequal : equal.kind = .equal) (hnewline : newline.kind = .newline) {ts : List Token}
    (hts : ts.map Token.lexeme = ls) (done : Body)
    (hnew : ∀ s ∈ done.settings, s.name ≠ String.ofList name.text) (rest : List Token) :
    ∃ e, P e ∧ (bodyItems (fuel + 1) .endOfFile done).run
        { c with rest := name :: equal :: (ts ++ newline :: rest) } =
      (bodyItems fuel .endOfFile { done with settings := done.settings ++
        [{ name := String.ofList name.text, place := name.place, value := e }] }).run
          { c with rest } := by
  have hvisible : name.kind.isVisible = true := by rw [hname]; rfl
  have hvisible' : equal.kind.isVisible = true := by rw [hequal]; rfl
  obtain ⟨e, hP, hrun⟩ := run_settingAfter h hbreaks hfuel name hequal hnewline hts rest
  refine ⟨e, hP, ?_⟩
  have hany : (done.settings.any fun s => s.name == String.ofList name.text) = false := by
    simpa using hnew
  rw [bodyItems]
  simp only [run_bind, run_peek, run_discard, run_read, next_of_isVisible hvisible,
    next_of_isVisible hvisible', hname, hequal, reduceCtorEq, if_false, hrun, hany,
    Bool.false_eq_true]

theorem run_bodyItems_end {last : Token} (hlast : last.kind = .endOfFile) (done : Body) :
    (bodyItems (fuel + 1) .endOfFile done).run { c with rest := [last] } =
      (done, { c with rest := [] }) := by
  have hvisible : last.kind.isVisible = true := by rw [hlast]; rfl
  rw [bodyItems]
  simp only [run_bind, run_peek, run_discard, run_read, next_of_isVisible hvisible, hlast, if_true,
    run_pure]

/-- A body of one line. -/
theorem parseTokens_setting (h : Spells ls P) {name : List Char}
    (htokens : tokens.map Token.lexeme = ⟨.identifier, name⟩ :: ⟨.equal, ['=']⟩ ::
      (ls ++ [⟨.newline, ['\n']⟩, ⟨.endOfFile, []⟩])) :
    ∃ e place, P e ∧ parseTokens tokens = .ok { place := ⟨1, 1⟩, settings :=
      [{ name := String.ofList name, place, value := e }] } := by
  have hlength : tokens.length = ls.length + 4 := by
    rw [← length_map (f := Token.lexeme), htokens]
    simp
  obtain ⟨word, tokens, rfl, hword, htokens⟩ := map_eq_cons_iff.mp htokens
  obtain ⟨equal, tokens, rfl, hequal, htokens⟩ := map_eq_cons_iff.mp htokens
  obtain ⟨ts, tokens, rfl, hts, htokens⟩ := map_eq_append_iff.mp htokens
  obtain ⟨newline, tokens, rfl, hnewline, htokens⟩ := map_eq_cons_iff.mp htokens
  obtain ⟨last, tokens, rfl, hlast, htokens⟩ := map_eq_cons_iff.mp htokens
  obtain rfl : tokens = [] := map_eq_nil_iff.mp htokens
  have htext : word.text = name := congrArg Lexeme.text hword
  obtain ⟨e, hP, hrun⟩ := run_bodyItems_setting h (c := { rest := [], final := last }) rfl
    (show 16 * ls.length ≤ 16 * (ls.length + 4) + 63 by omega) (congrArg Lexeme.kind hword)
    (congrArg Lexeme.kind hequal) (congrArg Lexeme.kind hnewline) hts
    { place := ⟨1, 1⟩ } (by simp) [last]
  rw [run_bodyItems_end (congrArg Lexeme.kind hlast)] at hrun
  refine ⟨e, word.place, hP, ?_⟩
  have hfinal : (word :: equal :: (ts ++ [newline, last])).getLast? = some last := by
    rw [getLast?_cons_cons, getLast?_cons, getLast?_append]
    rfl
  rw [parseTokens, hlength, hfinal]
  simp only [Option.getD_some]
  rw [hrun, ← htext]
  rfl

theorem ReadsAs.readTypeLine_eq {text : String} (h : ReadsAs text.toList P) :
    ∃ e, P e ∧ readTypeLine text = typeOf e := by
  obtain ⟨ls, hcut, hspells⟩ := h
  have hline : Lexes (['t', 'y', 'p', 'e'] ++ ' ' :: '=' :: ' ' :: text.toList)
      ([⟨.identifier, ['t', 'y', 'p', 'e']⟩] ++ ⟨.equal, ['=']⟩ :: ls) :=
    (lexes_word rfl).append hcut.after_equal (cons_ne_nil _ _)
      (endsNumber_cons rfl (by decide) _)
  have hchars : ("type = " ++ text ++ "\n").toList =
      ['t', 'y', 'p', 'e'] ++ ' ' :: '=' :: ' ' :: text.toList ++ ['\n'] := by
    simp
  have htokens := lex_append hline (endsNumber_cons (c := '\n') rfl (by decide) [])
  rw [← hchars, lexemes_newline, lexemes_nil] at htokens
  have hvalid := invalidPlaces_eq_nil (valid_of_map_lexeme htokens
    (forall_mem_append.mpr ⟨hline.valid, by simp⟩))
    (("type = " ++ text ++ "\n").toList.map fun _ => false) (by simp)
  obtain ⟨e, place, hP, hbody⟩ := parseTokens_setting hspells
    (htokens.trans (by rw [append_assoc]; rfl))
  refine ⟨e, hP, ?_⟩
  rw [readTypeLine, parse, sourceText_toUTF8 (by rw [hchars]; simp)]
  simp only [hvalid, hbody]
  rfl

end Schemata.Hcl
