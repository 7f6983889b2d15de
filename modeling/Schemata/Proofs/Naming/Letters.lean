import Schemata.Proofs.Naming.Pascal

/-!
The letters of a name, which no naming style changes. Splitting a name into words takes the
separators out and nothing else, wherever the words begin; the styles put words together with other
separators and in other case. In ASCII the case of a letter can be changed and changed back, so a
name in any style still has the letters of the name it was made from.

A second application of a style finds other words than the first, yet it changes nothing: a text
without upper-case letters is only split at its separators, and in camel case the first upper-case
letter ends the first word.
-/

namespace Schemata.Naming

open Text List

variable {mark : Char} {w : List Char} {separator : String}

/-! ### ASCII -/

theorem forall_ascii {P : Char → Prop} (h : ∀ n < 0x80, P (Char.ofNat n)) {c : Char}
    (hc : c.toNat < 0x80) : P c :=
  Char.ofNat_toNat c ▸ h c.toNat hc

/-- A change of case that leaves separators and lower case alone. -/
def Recases (f : Char → Char) (c : Char) : Prop :=
  (f c).toNat < 0x80 ∧ isSeparator (f c) = isSeparator c ∧ toLower (f c) = toLower c

instance (f : Char → Char) (c : Char) : Decidable (Recases f c) :=
  inferInstanceAs (Decidable (_ ∧ _))

variable {c : Char}

theorem recases_toLower (hc : c.toNat < 0x80) : Recases toLower c :=
  forall_ascii (by decide) hc

theorem recases_toUpper (hc : c.toNat < 0x80) : Recases toUpper c :=
  forall_ascii (by decide) hc

theorem isUpper_toLower (hc : c.toNat < 0x80) : isUpper (toLower c) = false :=
  forall_ascii (P := fun c => isUpper (toLower c) = false) (by decide) hc

theorem toLower_eq_self (hc : c.toNat < 0x80) : isUpper c = false → toLower c = c :=
  forall_ascii (P := fun c => isUpper c = false → toLower c = c) (by decide) hc

/-! ### Letters -/

/-- What is left of a text without its separators. -/
def lettersOf (s : List Char) : List Char := s.filter (· ∉ ['_', '-', ' ', '.'])

theorem isSeparator_eq (c : Char) : isSeparator c = decide (c ∈ ['_', '-', ' ', '.']) := by
  simp [isSeparator, Bool.or_assoc]

theorem lettersOf_eq (s : List Char) : lettersOf s = s.filter (!isSeparator ·) := by
  simp only [lettersOf, isSeparator_eq, decide_not]

theorem flatten_splitWords (s : List Char) : (splitWords s).flatten = lettersOf s := by
  rw [splitWords, flatten_splitFrom, lettersOf_eq, reverse_nil, nil_append]

theorem toList_join_words (s : String) : (String.join (words s)).toList = lettersOf s.toList := by
  rw [words, String.toList_join, flatMap_map, ← flatten_splitWords]
  simp [flatMap_id']

/-- The letters in lower case, which tell spellings of one name from other names. -/
def spelled (s : List Char) : List Char := (lettersOf s).map toLower

theorem toList_normalize (s : String) : (normalize s).toList = spelled s.toList := by
  rw [normalize, lower, String.toList_map, toList_join_words, spelled]

theorem spelled_append (s t : List Char) : spelled (s ++ t) = spelled s ++ spelled t := by
  simp [spelled, lettersOf]

theorem spelled_flatten (ws : List (List Char)) : spelled ws.flatten = ws.flatMap spelled := by
  induction ws with
  | nil => rfl
  | cons w ws ih => rw [flatten_cons, spelled_append, ih, flatMap_cons]

theorem spelled_map {f : Char → Char} {s : List Char} (h : ∀ c ∈ s, Recases f c) :
    spelled (s.map f) = spelled s := by
  rw [spelled, spelled, lettersOf_eq, lettersOf_eq, filter_map, map_map]
  have hfilter : s.filter ((!isSeparator ·) ∘ f) = s.filter (!isSeparator ·) :=
    filter_congr fun c hc => congrArg (!·) (h c hc).2.1
  rw [hfilter]
  exact map_congr_left fun c hc => (h c (mem_of_mem_filter hc)).2.2

/-- Splitting keeps the spelling, wherever words begin. -/
theorem flatMap_spelled_splitWords (s : List Char) :
    (splitWords s).flatMap spelled = spelled s := by
  rw [← spelled_flatten, flatten_splitWords]
  simp only [spelled, lettersOf, filter_filter, Bool.and_self]

/-! ### Styles -/

theorem spelled_flatMap {f : List Char → List Char} {ws : List (List Char)}
    (h : ∀ w ∈ ws, spelled (f w) = spelled w) : spelled (ws.flatMap f) = ws.flatMap spelled := by
  rw [flatMap_def, spelled_flatten, flatMap_map, flatMap_congr h]

theorem spelled_intercalate (hmark : isSeparator mark = true) (ws : List (List Char)) :
    spelled ([mark].intercalate ws) = ws.flatMap spelled := by
  have hnone : spelled [mark] = [] := by simp [spelled, lettersOf_eq, hmark]
  induction ws with
  | nil => rfl
  | cons w ws ih =>
    cases ws with
    | nil => simp
    | cons v ws =>
      rw [intercalate_cons_cons, spelled_append, spelled_append, hnone, ih]
      simp

def camelChars : List (List Char) → List Char
  | [] => []
  | w :: ws => w.map toLower ++ ws.flatMap capitalizeChars

theorem toList_camelCase (s : String) :
    (camelCase s).toList = camelChars (splitWords s.toList) := by
  rw [camelCase, words]
  cases splitWords s.toList with
  | nil => rfl
  | cons w ws =>
    simp [camelChars, lower, String.toList_join, flatMap_map, toList_capitalize]

theorem toList_lowerJoined (separator s : String) :
    (lowerJoined separator s).toList =
      separator.toList.intercalate ((splitWords s.toList).map (·.map toLower)) := by
  simp [lowerJoined, words, String.toList_intercalate, lower, Function.comp_def]

section Ascii

variable {s : String} (hs : ∀ c ∈ s.toList, c.toNat < 0x80)

include hs

theorem of_mem_splitWords (hw : w ∈ splitWords s.toList) {c : Char} (hc : c ∈ w) :
    c.toNat < 0x80 ∧ isSeparator c = false :=
  ((mem_of_mem_splitFrom hw hc).resolve_left not_mem_nil).imp_left (hs c)

theorem ascii_snakeCase : ∀ c ∈ (snakeCase s).toList, c.toNat < 0x80 := by
  intro c hc
  rcases mem_of_mem_joined hc with hmark | ⟨text, htext, hc⟩
  · obtain rfl : c = '_' := mem_singleton.mp hmark
    decide
  · obtain ⟨w, hw, rfl⟩ := mem_map.mp htext
    rw [lower, String.toList_map] at hc
    obtain ⟨d, hd, rfl⟩ := mem_map.mp hc
    exact (recases_toLower (hs d (mem_of_mem_words hw hd).1)).1

theorem spelled_lowered (hw : w ∈ splitWords s.toList) : spelled (w.map toLower) = spelled w :=
  spelled_map fun _ hc => recases_toLower (of_mem_splitWords hs hw hc).1

theorem spelled_capitalized (hw : w ∈ splitWords s.toList) :
    spelled (capitalizeChars w) = spelled w := by
  cases w with
  | nil => rfl
  | cons c rest =>
    have hfirst : spelled [toUpper c] = spelled [c] := spelled_map (s := [c]) fun d hd =>
      recases_toUpper (of_mem_splitWords hs hw (mem_singleton.mp hd ▸ mem_cons_self)).1
    rw [capitalizeChars, ← singleton_append, spelled_append, hfirst, ← spelled_append,
      singleton_append]

theorem spelled_lowerJoined (hsep : separator.toList = [mark]) (hmark : isSeparator mark = true) :
    spelled (lowerJoined separator s).toList = spelled s.toList := by
  rw [toList_lowerJoined, hsep, spelled_intercalate hmark, flatMap_map,
    flatMap_congr fun w hw => spelled_lowered hs hw, flatMap_spelled_splitWords]

theorem spelled_pascalCase : spelled (pascalCase s).toList = spelled s.toList := by
  rw [toList_pascalCase, spelled_flatMap fun w => spelled_capitalized hs,
    flatMap_spelled_splitWords]

theorem spelled_camelCase : spelled (camelCase s).toList = spelled s.toList := by
  rw [toList_camelCase, ← flatMap_spelled_splitWords s.toList]
  have hlower := fun w => spelled_lowered hs (w := w)
  have hcapital := fun w => spelled_capitalized hs (w := w)
  cases hsplit : splitWords s.toList with
  | nil => rfl
  | cons w ws =>
    rw [hsplit] at hlower hcapital
    rw [camelChars, spelled_append, hlower w mem_cons_self, flatMap_cons,
      spelled_flatMap fun v hv => hcapital v (mem_cons_of_mem _ hv)]

theorem spelled_screamingSnakeCase : spelled (screamingSnakeCase s).toList = spelled s.toList := by
  rw [screamingSnakeCase, upper, String.toList_map, spelled_map fun c hc =>
    recases_toUpper (ascii_snakeCase hs c hc)]
  exact spelled_lowerJoined hs rfl rfl

theorem spelled_normalize : spelled (normalize s).toList = spelled s.toList := by
  rw [normalize, lower, String.toList_map, spelled_map fun c hc => recases_toLower ?_,
    toList_join_words]
  · simp only [spelled, lettersOf, filter_filter, Bool.and_self]
  · rw [toList_join_words] at hc
    exact hs c (mem_of_mem_filter hc)

theorem spelled_apply (style : Style) : spelled (style.apply s).toList = spelled s.toList := by
  cases style with
  | pascal => exact spelled_pascalCase hs
  | camel => exact spelled_camelCase hs
  | snake => exact spelled_lowerJoined hs rfl rfl
  | kebab => exact spelled_lowerJoined hs rfl rfl
  | screaming => exact spelled_screamingSnakeCase hs
  | upperSnake => exact spelled_screamingSnakeCase hs
  | lowercase => exact spelled_normalize hs
  | _ => rfl

end Ascii

/-- The words of a name hold all of it but its separators, and in ASCII a name in any style is
spelled as it was: the same letters follow each other, case aside. -/
theorem words_and_styles_keep_letters (s : String) :
    (String.join (words s)).toList = lettersOf s.toList ∧
      (∀ w ∈ words s, w ≠ "" ∧ lettersOf w.toList = w.toList) ∧
      normalize s = lower (String.ofList (lettersOf s.toList)) ∧
      ((∀ c ∈ s.toList, c.toNat < 0x80) →
        ∀ style : Style, normalize (style.apply s) = normalize s) := by
  refine ⟨toList_join_words s, fun w hw => ⟨?_, ?_⟩, ?_, fun hs style => ?_⟩
  · obtain ⟨chars, hchars, rfl⟩ := mem_map.mp hw
    rw [Ne, String.ofList_eq_empty_iff]
    exact ne_nil_of_mem_splitFrom hchars
  · rw [lettersOf_eq, filter_eq_self]
    intro c hc
    rw [(mem_of_mem_words hw hc).2, Bool.not_false]
  · rw [normalize, ← toList_join_words, String.ofList_toList]
  · apply String.toList_injective
    rw [toList_normalize, toList_normalize, spelled_apply hs]

theorem words_and_styles_keep_letters_xmlHTTP :
    (∀ c ∈ "XMLHttp_request.ID-2".toList, c.toNat < 0x80) ∧
      normalize (Style.screaming.apply "XMLHttp_request.ID-2") =
        normalize "XMLHttp_request.ID-2" :=
  ⟨by simp, (words_and_styles_keep_letters _).2.2.2 (by simp) .screaming⟩

/-! ### Styles stay -/

/-- Characters that begin no word and end none. -/
def IsPlain (c : Char) : Prop := isSeparator c = false ∧ isUpper c = false

theorem splitFrom_plain_append (hw : ∀ c ∈ w, IsPlain c) (current : List Char)
    (previous : Option Char) (rest : List Char) :
    ∃ last, splitFrom current previous (w ++ rest) = splitFrom (w.reverse ++ current) last rest := by
  induction w generalizing current previous with
  | nil => exact ⟨previous, rfl⟩
  | cons c w ih =>
    obtain ⟨hsep, hupper⟩ := hw c mem_cons_self
    obtain ⟨last, hlast⟩ := ih (fun d hd => hw d (mem_cons_of_mem _ hd)) (c :: current) (some c)
    refine ⟨last, ?_⟩
    have hgoes : previous.any (startsWord · c (w ++ rest).head?) = false := by
      cases previous <;> simp [startsWord, hupper]
    rw [cons_append, splitFrom, hsep, hgoes, Bool.and_false]
    simpa using hlast

/-- Without upper-case letters, words are what stands between separators. -/
theorem splitFrom_intercalate (hmark : isSeparator mark = true) {ws : List (List Char)}
    (hws : ∀ w ∈ ws, w ≠ [] ∧ ∀ c ∈ w, IsPlain c) (previous : Option Char) :
    splitFrom [] previous ([mark].intercalate ws) = ws := by
  induction ws generalizing previous with
  | nil => rfl
  | cons w ws ih =>
    obtain ⟨hne, hplain⟩ := hws w mem_cons_self
    have hrest := ih fun v hv => hws v (mem_cons_of_mem _ hv)
    cases ws with
    | nil =>
      obtain ⟨last, hlast⟩ := splitFrom_plain_append hplain [] previous []
      rw [intercalate_singleton, ← append_nil w, hlast]
      simp [splitFrom, hne]
    | cons v ws =>
      obtain ⟨last, hlast⟩ := splitFrom_plain_append hplain [] previous
        (mark :: [mark].intercalate (v :: ws))
      rw [intercalate_cons_cons, append_assoc, singleton_append, hlast, splitFrom, hmark, hrest]
      simp [hne]

/-- In camel case the first word goes on up to the first upper-case letter. -/
theorem camelChars_splitFrom {d : Char} {word s : List Char} (hd : IsPlain d)
    (hword : (d :: word).map toLower = d :: word)
    (hs : ∀ c ∈ s, isSeparator c = false ∧ (isUpper c = false → toLower c = c)) :
    camelChars (splitFrom (d :: word) (some d) s) = (d :: word).reverse ++ s := by
  induction s generalizing d word with
  | nil =>
    rw [splitFrom, isEmpty_cons, if_neg Bool.false_ne_true, camelChars, map_reverse, hword,
      flatMap_nil]
  | cons c rest ih =>
    obtain ⟨hsep, hlower⟩ := hs c mem_cons_self
    have hrest := fun e he => hs e (mem_cons_of_mem _ he)
    cases hupper : isUpper c with
    | true =>
      have hsplit : splitFrom (d :: word) (some d) (c :: rest) =
          (d :: word).reverse :: splitFrom [c] (some c) rest := by
        simp [splitFrom, hsep, startsWord, hupper, hd.1, hd.2]
      rw [hsplit, camelChars, map_reverse, hword,
        capitalized_splitFrom _ _ _ fun e he => (hrest e he).1, reverse_singleton,
        singleton_append, capitalizeChars, toUpper_eq_self_of_isUpper hupper]
    | false =>
      have hsplit : splitFrom (d :: word) (some d) (c :: rest) =
          splitFrom (c :: d :: word) (some c) rest := by
        simp [splitFrom, hsep, startsWord, hupper]
      rw [hsplit, ih ⟨hsep, hupper⟩ (by rw [map_cons, hword, hlower hupper]) hrest]
      simp

section Ascii

variable {s : String} (hs : ∀ c ∈ s.toList, c.toNat < 0x80)

include hs

theorem isPlain_toLower (hw : w ∈ splitWords s.toList) {c : Char} (hc : c ∈ w) :
    IsPlain (toLower c) := by
  obtain ⟨hascii, hsep⟩ := of_mem_splitWords hs hw hc
  exact ⟨(recases_toLower hascii).2.1.trans hsep, isUpper_toLower hascii⟩

theorem splitWords_lowerJoined (hsep : separator.toList = [mark])
    (hmark : isSeparator mark = true) :
    splitWords (lowerJoined separator s).toList = (splitWords s.toList).map (·.map toLower) := by
  rw [toList_lowerJoined, hsep]
  refine splitFrom_intercalate hmark (fun v hv => ?_) none
  obtain ⟨w, hw, rfl⟩ := mem_map.mp hv
  refine ⟨by simpa using ne_nil_of_mem_splitFrom hw, fun c hc => ?_⟩
  obtain ⟨d, hd, rfl⟩ := mem_map.mp hc
  exact isPlain_toLower hs hw hd

theorem lowerJoined_lowerJoined (hsep : separator.toList = [mark])
    (hmark : isSeparator mark = true) :
    lowerJoined separator (lowerJoined separator s) = lowerJoined separator s := by
  apply String.toList_injective
  rw [toList_lowerJoined, splitWords_lowerJoined hs hsep hmark, toList_lowerJoined, map_map]
  congr 1
  refine map_congr_left fun w hw => ?_
  rw [Function.comp_apply, map_map]
  exact map_congr_left fun c hc => (recases_toLower (of_mem_splitWords hs hw hc).1).2.2

theorem mem_camelCase {c : Char} (hc : c ∈ (camelCase s).toList) :
    c.toNat < 0x80 ∧ isSeparator c = false := by
  have hletter := fun w hw d => of_mem_splitWords hs (w := w) hw (c := d)
  rw [toList_camelCase] at hc
  cases hsplit : splitWords s.toList with
  | nil => simp [hsplit, camelChars] at hc
  | cons w ws =>
    rw [hsplit, camelChars, mem_append, mem_map, mem_flatMap] at hc
    rw [hsplit] at hletter
    rcases hc with ⟨d, hd, rfl⟩ | ⟨v, hv, hc⟩
    · obtain ⟨hascii, hsep⟩ := hletter w mem_cons_self d hd
      have hcase := recases_toLower hascii
      exact ⟨hcase.1, hcase.2.1.trans hsep⟩
    · obtain ⟨d, hd, hcase⟩ := mem_capitalizeChars hc
      obtain ⟨hascii, hsep⟩ := hletter v (mem_cons_of_mem _ hv) d hd
      rcases hcase with rfl | rfl
      · exact ⟨hascii, hsep⟩
      · exact ⟨(recases_toUpper hascii).1, isSeparator_toUpper hsep⟩

theorem camelCase_camelCase : camelCase (camelCase s) = camelCase s := by
  apply String.toList_injective
  rw [toList_camelCase (camelCase s)]
  have hmem := fun c => mem_camelCase hs (c := c)
  have hfirst : ∀ c ∈ (camelCase s).toList.head?, isUpper c = false := by
    rw [toList_camelCase]
    cases hsplit : splitWords s.toList with
    | nil => simp [camelChars]
    | cons w ws =>
      have hw : w ∈ splitWords s.toList := by simp [hsplit]
      obtain ⟨d, word, rfl⟩ := exists_cons_of_ne_nil (ne_nil_of_mem_splitFrom hw)
      simpa [camelChars] using (isPlain_toLower hs hw mem_cons_self).2
  cases hchars : (camelCase s).toList with
  | nil => rfl
  | cons c rest =>
    rw [hchars] at hmem hfirst
    obtain ⟨hascii, hsep⟩ := hmem c mem_cons_self
    have hplain : IsPlain c := ⟨hsep, hfirst c rfl⟩
    have hsplit : splitWords (c :: rest) = splitFrom [c] (some c) rest := by
      simp [splitWords, splitFrom, hsep]
    rw [hsplit, camelChars_splitFrom hplain (by simp [toLower_eq_self hascii hplain.2]) fun d hd => ?_,
      reverse_singleton, singleton_append]
    obtain ⟨hascii, hsep⟩ := hmem d (mem_cons_of_mem _ hd)
    exact ⟨hsep, toLower_eq_self hascii⟩

end Ascii

/-- A name that is in a style already stays as it is. -/
theorem apply_apply_eq_apply {style : Style}
    (hstyle : style ∈ [.pascal, .camel, .snake, .kebab, .lowercase]) {s : String}
    (hs : ∀ c ∈ s.toList, c.toNat < 0x80) : style.apply (style.apply s) = style.apply s := by
  rcases mem_cons.mp hstyle with rfl | hstyle
  · exact pascalCase_pascalCase s
  rcases mem_cons.mp hstyle with rfl | hstyle
  · exact camelCase_camelCase hs
  rcases mem_cons.mp hstyle with rfl | hstyle
  · change lowerJoined "_" (lowerJoined "_" s) = lowerJoined "_" s
    exact lowerJoined_lowerJoined hs rfl rfl
  rcases mem_cons.mp hstyle with rfl | hstyle
  · change lowerJoined "-" (lowerJoined "-" s) = lowerJoined "-" s
    exact lowerJoined_lowerJoined hs rfl rfl
  obtain rfl := mem_singleton.mp hstyle
  apply String.toList_injective
  exact (toList_normalize _).trans ((spelled_normalize hs).trans (toList_normalize s).symm)

theorem apply_apply_eq_apply_camel :
    Style.camel ∈ [Style.pascal, .camel, .snake, .kebab, .lowercase] ∧
      (∀ c ∈ "user_ID_XMLv2".toList, c.toNat < 0x80) ∧
      Style.camel.apply (Style.camel.apply "user_ID_XMLv2") = Style.camel.apply "user_ID_XMLv2" :=
  ⟨by decide, by simp, apply_apply_eq_apply (by decide) (by simp)⟩

end Schemata.Naming
