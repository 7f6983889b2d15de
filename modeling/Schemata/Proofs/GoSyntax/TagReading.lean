import Schemata.GoSyntax.TypeReading
import Schemata.Proofs.Naming.Words
import Schemata.Proofs.Text.Quotation

/-!
Struct tags are read back. The closing quote of a value is found by skipping what stands behind
each backslash, and in an escaped value a quote stands nowhere else; a key ends before its colon.
So the attributes of a tag are those that were written in it, and none of the bytes of a tag end
the literal it is written as.
-/

namespace Schemata.GoSyntax.Tag

open Text Text.Quoted List

variable {b : UInt8} {c : Char}

/-! ### The end of a value -/

theorem splitQuoted_cons (hquote : b ≠ '"'.toUInt8) (hslash : b ≠ '\\'.toUInt8)
    (rest : List UInt8) :
    splitQuoted (b :: rest) = (splitQuoted rest).map fun parts => (b :: parts.1, parts.2) := by
  rw [splitQuoted.eq_def]
  simp only [if_neg hquote, if_neg hslash]

theorem splitQuoted_plain {bytes : List UInt8}
    (h : ∀ b ∈ bytes, b ≠ '"'.toUInt8 ∧ b ≠ '\\'.toUInt8) (rest : List UInt8) :
    splitQuoted (bytes ++ rest) =
      (splitQuoted rest).map fun parts => (bytes ++ parts.1, parts.2) := by
  induction bytes with
  | nil => simp
  | cons b bytes ih =>
    rw [forall_mem_cons] at h
    rw [cons_append, splitQuoted_cons h.1.1 h.1.2, ih h.2, Option.map_map]
    rfl

theorem splitQuoted_backslash (b : UInt8) (rest : List UInt8) :
    splitQuoted ('\\'.toUInt8 :: b :: rest) =
      (splitQuoted rest).map fun parts => ('\\'.toUInt8 :: b :: parts.1, parts.2) := by
  rw [splitQuoted, if_neg (by decide), if_pos rfl]

/-- Bytes of ASCII characters other than marks. -/
theorem ne_of_mem_encode {s : List Char} (hc : c.toNat < 128) (hs : c ∉ s)
    (hb : b ∈ Utf8.encode s) : b ≠ c.toUInt8 := by
  rintro rfl
  exact hs (Utf8.mem_of_toUInt8_mem_encode hc hb)

theorem splitQuoted_escape (p : Quoted.Piece) (rest : List UInt8) :
    splitQuoted (Utf8.encode p.escape ++ rest) =
      (splitQuoted rest).map fun parts => (Utf8.encode p.escape ++ parts.1, parts.2) := by
  rcases p.escape_cases with ⟨c, -, hescape, hquote, hslash, -⟩ | ⟨letter, digits, hescape, hl, hd⟩
  · refine splitQuoted_plain (fun b hb => ?_) rest
    rw [hescape] at hb
    exact ⟨ne_of_mem_encode (by decide) (by simpa using hquote.symm) hb,
      ne_of_mem_encode (by decide) (by simpa using hslash.symm) hb⟩
  · have hletter : ∀ c ∈ escapeLetters, c.toNat < 128 := by simp [escapeLetters]
    have hdigits : ∀ c, (hexValue? c).isSome = false → c ∉ digits := by
      intro c hc hmem
      exact absurd ((hd c hmem).symm.trans hc) (by simp)
    have hencode : Utf8.encode p.escape =
        '\\'.toUInt8 :: letter.toUInt8 :: Utf8.encode digits := by
      rw [hescape, Utf8.encode, flatMap_cons, flatMap_cons,
        Utf8.utf8EncodeChar_of_lt (hletter letter hl)]
      rfl
    rw [hencode, cons_append, cons_append, splitQuoted_backslash,
      splitQuoted_plain fun b hb => ⟨ne_of_mem_encode (by decide) (hdigits '"' (by decide)) hb,
        ne_of_mem_encode (by decide) (hdigits '\\' (by decide)) hb⟩, Option.map_map]
    rfl

theorem splitQuoted_pieces (ps : List Quoted.Piece) (rest : List UInt8) :
    splitQuoted (Utf8.encode (ps.flatMap Quoted.Piece.escape ++ ['"']) ++ rest) =
      some (Utf8.encode (ps.flatMap Quoted.Piece.escape ++ ['"']), rest) := by
  induction ps with
  | nil =>
    rw [flatMap_nil, nil_append, show Utf8.encode ['"'] = ['"'.toUInt8] from rfl,
      singleton_append, splitQuoted.eq_def]
    exact if_pos rfl
  | cons p ps ih =>
    rw [flatMap_cons, append_assoc, Utf8.encode_append, append_assoc,
      splitQuoted_escape, ih, Option.map_some]

theorem encode_quoteBytes (value : List UInt8) :
    Utf8.encode (quoteBytes value) =
      '"'.toUInt8 :: Utf8.encode ((pieces value).flatMap Quoted.Piece.escape ++ ['"']) := by
  rw [quoteBytes, cons_append, Utf8.encode, flatMap_cons]
  rfl

/-! ### One attribute -/

theorem parse_space (rest : List UInt8) : parse (' '.toUInt8 :: rest) = parse rest := by
  rw [parse, parse, dropWhile_cons_of_pos (by simp)]

theorem isKeyByte_of_isKey {key : List UInt8} (h : isKey key = true) :
    ∀ b ∈ key, isKeyByte b = true := by
  rw [isKey, Bool.and_eq_true, all_eq_true] at h
  exact fun b hb => (Bool.and_eq_true_iff.mp (h.2 b hb)).1

theorem parse_form {e : Entry} (h : e.hasForm = true) (rest : List UInt8) :
    parse (e.form ++ rest) = (parse rest).map (e :: ·) := by
  rw [Entry.hasForm, Bool.and_eq_true] at h
  have hkey := isKeyByte_of_isKey h.1
  have hne : e.key ≠ [] := by
    rintro hnil
    rw [hnil] at h
    exact absurd h.1 (by decide)
  have htail : e.form ++ rest = e.key ++ ':'.toUInt8 :: '"'.toUInt8 ::
      (Utf8.encode ((pieces e.value).flatMap Quoted.Piece.escape ++ ['"']) ++ rest) := by
    rw [Entry.form, encode_quoteBytes]
    simp
  generalize hmore : Utf8.encode ((pieces e.value).flatMap Quoted.Piece.escape ++ ['"']) = body
    at htail
  have hsplit : splitQuoted (body ++ rest) = some (body, rest) := by
    rw [← hmore, splitQuoted_pieces]
  have hvalue : unquoteBytes? ('"'.toUInt8 :: body) = some e.value := by
    rw [← hmore, ← encode_quoteBytes, unquoteBytes?_quoteBytes]
  have htrim : (e.form ++ rest).dropWhile (· = ' '.toUInt8) = e.form ++ rest := by
    obtain ⟨b, more, hcons⟩ := exists_cons_of_ne_nil hne
    have hb : b ≠ ' '.toUInt8 := by
      rintro rfl
      exact absurd (hkey _ (by rw [hcons]; exact mem_cons_self)) (by decide)
    rw [htail, hcons, cons_append, dropWhile_cons_of_neg (by simpa using hb)]
  have hscan : (e.form ++ rest).takeWhile isKeyByte = e.key := by
    rw [htail, takeWhile_append_of_pos hkey]
    simp [isKeyByte]
  have hdrop : (e.form ++ rest).drop e.key.length =
      ':'.toUInt8 :: '"'.toUInt8 :: (body ++ rest) := by
    rw [htail, drop_left]
  rw [parse.eq_def]
  simp only [htrim, hscan]
  have hform : e.form ++ rest ≠ [] := by rw [htail]; simp
  rw [if_neg (by simpa using hform), if_neg (by simpa using hne)]
  split
  next colon mark more heq =>
    rw [htrim, hscan, hdrop] at heq
    simp only [List.cons.injEq] at heq
    obtain ⟨rfl, rfl, rfl⟩ := heq
    rw [if_pos ⟨rfl, rfl⟩]
    split
    next hnone => simp [hsplit] at hnone
    next body' rest' hsome =>
      rw [hsplit] at hsome
      simp only [Option.some.injEq, Prod.mk.injEq] at hsome
      obtain ⟨rfl, rfl⟩ := hsome
      rw [hvalue]
      simp [Option.map_eq_bind]
  next hno =>
    rw [htrim, hscan] at hno
    exact absurd hdrop (hno _ _ _)

theorem parse_intercalate {entries : List Entry} (h : ∀ e ∈ entries, e.hasForm = true) :
    parse ([' '.toUInt8].intercalate (entries.map Entry.form)) = some entries := by
  induction entries with
  | nil => rw [map_nil, intercalate_nil, parse]; rfl
  | cons e entries ih =>
    rw [forall_mem_cons] at h
    cases entries with
    | nil =>
      have hnil := ih h.2
      rw [map_nil, intercalate_nil] at hnil
      rw [map_singleton, intercalate_singleton, ← append_nil e.form,
        parse_form h.1, hnil, Option.map_some]
    | cons e' entries =>
      rw [map_cons, map_cons, intercalate_cons_cons, ← map_cons, append_assoc, parse_form h.1,
        singleton_append, parse_space, ih h.2, Option.map_some]

/-! ### Marks that a tag has not -/

theorem mem_escape {p : Quoted.Piece} (h : c ∈ p.escape) :
    (p = .char c ∧ isPrintable c = true) ∨ c ∈ escapeLetters ∨ (hexValue? c).isSome = true := by
  rcases p.escape_cases with ⟨d, hp, hescape, -, -, hprint⟩ | ⟨letter, digits, hescape, hl, hd⟩
  · rw [hescape, mem_singleton] at h
    subst h
    exact .inl ⟨hp, hprint⟩
  · rw [hescape, mem_cons, mem_cons] at h
    rcases h with rfl | rfl | h
    · exact .inr (.inl (by decide))
    · exact .inr (.inl hl)
    · exact .inr (.inr (hd c h))

theorem mem_quoteBytes {value : List UInt8} (h : c ∈ quoteBytes value) :
    (.char c ∈ pieces value ∧ isPrintable c = true) ∨ c ∈ escapeLetters ∨
      (hexValue? c).isSome = true := by
  have hquote : '"' ∈ escapeLetters := by decide
  rw [quoteBytes, cons_append, mem_cons, mem_append, mem_flatMap, mem_singleton] at h
  rcases h with rfl | ⟨p, hp, hc⟩ | rfl
  · exact .inr (.inl hquote)
  · rcases mem_escape hc with ⟨rfl, hprint⟩ | hmark
    · exact .inl ⟨hp, hprint⟩
    · exact .inr hmark
  · exact .inr (.inl hquote)

theorem toUInt8_mem_of_char_mem_pieces {value : List UInt8} (hc : c.toNat < 128)
    (h : .char c ∈ pieces value) : c.toUInt8 ∈ value := by
  rw [← flatMap_bytes_pieces value, mem_flatMap]
  refine ⟨.char c, h, ?_⟩
  rw [Quoted.Piece.bytes, Utf8.utf8EncodeChar_of_lt hc]
  exact mem_singleton_self _

/-- A tag has no back quotes, and nothing that a literal in back quotes drops. -/
theorem notMem_form {e : Entry} (h : e.hasForm = true) :
    '\x60'.toUInt8 ∉ e.form ∧ '\r'.toUInt8 ∉ e.form := by
  rw [Entry.hasForm, isKey, Bool.and_eq_true, Bool.and_eq_true, all_eq_true] at h
  obtain ⟨⟨-, hkey⟩, hvalue⟩ := h
  have hform : ∀ c : Char, c.toNat < 128 →
      (isKeyByte c.toUInt8 && c.toUInt8 != '\x60'.toUInt8) = false → c ≠ ':' →
      c ∉ quoteBytes e.value → c.toUInt8 ∉ e.form := by
    intro c hc hnot hcolon hquoted hmem
    rw [Entry.form, mem_append, mem_cons] at hmem
    rcases hmem with hmem | hmem | hmem
    · exact absurd ((hkey _ hmem).symm.trans hnot) (by decide)
    · exact hcolon (Utf8.toUInt8_inj hc (by decide) hmem)
    · exact hquoted (Utf8.mem_of_toUInt8_mem_encode hc hmem)
  constructor
  · refine hform _ (by decide) (by decide) (by decide) fun hmem => ?_
    rcases mem_quoteBytes hmem with ⟨hpiece, -⟩ | hmark | hdigit
    · have hin := toUInt8_mem_of_char_mem_pieces (by decide) hpiece
      simp [hin] at hvalue
    · exact absurd hmark (by decide)
    · exact absurd hdigit (by decide)
  · refine hform _ (by decide) (by decide) (by decide) fun hmem => ?_
    rcases mem_quoteBytes hmem with ⟨-, hprint⟩ | hmark | hdigit
    · exact absurd hprint (by decide)
    · exact absurd hmark (by decide)
    · exact absurd hdigit (by decide)

theorem notMem_format (hspace : b ≠ ' '.toUInt8)
    (hforms : ∀ e : Entry, e.hasForm = true → b ∉ e.form) (entries : List Entry) :
    b ∉ (format entries).1 := by
  intro hmem
  rcases Naming.mem_of_mem_intercalate hmem with h | ⟨part, hpart, h⟩
  · exact hspace (mem_singleton.mp h)
  · obtain ⟨e, he, rfl⟩ := mem_map.mp hpart
    exact hforms e (mem_filter.mp he).2 h

/-! ### Whole tags -/

/-- The literal in back quotes stands for what is between them, where that has none and nothing
is dropped. -/
theorem unquoteBytes?_raw {bytes : List UInt8} (hquote : '\x60'.toUInt8 ∉ bytes)
    (hreturn : '\r'.toUInt8 ∉ bytes) :
    unquoteBytes? ('\x60'.toUInt8 :: (bytes ++ ['\x60'.toUInt8])) = some bytes := by
  have hfilter : bytes.filter (· ≠ '\r'.toUInt8) = bytes := by
    rw [filter_eq_self]
    rintro b hb
    rw [decide_eq_true_eq]
    rintro rfl
    exact hreturn hb
  rw [unquoteBytes?, if_neg (by decide), if_pos, dropLast_concat, hfilter]
  rw [dropLast_concat, List.getLast?_concat]
  simpa using hquote

theorem parse_format (entries : List Entry) :
    parse (format entries).1 = some (entries.filter Entry.hasForm) :=
  parse_intercalate fun _ he => (mem_filter.mp he).2

theorem unquoteBytes?_format (entries : List Entry) :
    unquoteBytes? ('\x60'.toUInt8 :: ((format entries).1 ++ ['\x60'.toUInt8])) =
      some (format entries).1 :=
  unquoteBytes?_raw (notMem_format (by decide) (fun _ he => (notMem_form he).1) entries)
    (notMem_format (by decide) (fun _ he => (notMem_form he).2) entries)

/-- A tag is read as the attributes that have a form in it, and the names of the others are
reported; as a literal in back quotes it stands for itself. -/
theorem format_read_back (entries : List Entry) :
    parse (format entries).1 = some (entries.filter Entry.hasForm) ∧
      (format entries).2 = (entries.filter (!Entry.hasForm ·)).map Entry.key ∧
      '\x60'.toUInt8 ∉ (format entries).1 ∧
      unquoteBytes? ('\x60'.toUInt8 :: ((format entries).1 ++ ['\x60'.toUInt8])) =
        some (format entries).1 := by
  have hquote := notMem_format (by decide) (fun e he => (notMem_form he).1) entries
  exact ⟨parse_format entries, rfl, hquote, unquoteBytes?_format entries⟩

end Schemata.GoSyntax.Tag
