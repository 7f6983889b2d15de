import Schemata.Proofs.Text.Utf8
import Schemata.Text.Quoted

/-!
Literals are read back. Bytes are taken apart into the characters that they spell and those that
spell none, and put together they are the same bytes again. Each of these pieces is escaped on its
own, and what stands for it is read as that piece whatever follows.
-/

namespace Schemata.Text

open List

variable {c : Char} {p : Piece}

namespace Utf8

/-! ### Bytes of characters -/

section Encoding

variable {n : Nat} {b t u v : UInt8}

theorem toNat_val_ofNat (h : n.isValidChar) : (Char.ofNat n).val.toNat = n := by
  rw [Char.toNat_val, Char.toNat_ofNat, if_pos h]

theorem utf8EncodeChar_one (hb : b.toNat = n) (hn : n < 128) :
    String.utf8EncodeChar (Char.ofNat n) = [b] := by
  rw [String.utf8EncodeChar, toNat_val_ofNat (.inl (by omega)), if_pos (by omega), ← hb,
    UInt8.ofNat_toNat]

theorem utf8EncodeChar_two (hb : b.toNat = n / 64 + 192) (ht : t.toNat = n % 64 + 128)
    (hlow : 128 ≤ n) (hhigh : n < 2048) : String.utf8EncodeChar (Char.ofNat n) = [b, t] := by
  rw [String.utf8EncodeChar, toNat_val_ofNat (.inl (by omega)), if_neg (by omega),
    if_pos (by omega), Nat.mod_eq_of_lt (a := n / 64) (by omega), ← hb, ← ht, UInt8.ofNat_toNat,
    UInt8.ofNat_toNat]

theorem utf8EncodeChar_three (hb : b.toNat = n / 4096 + 224) (ht : t.toNat = n / 64 % 64 + 128)
    (hu : u.toNat = n % 64 + 128) (hlow : 2048 ≤ n) (hhigh : n < 65536)
    (hvalid : n < 55296 ∨ 57343 < n) : String.utf8EncodeChar (Char.ofNat n) = [b, t, u] := by
  rw [String.utf8EncodeChar, toNat_val_ofNat (by rw [Nat.isValidChar]; omega), if_neg (by omega),
    if_neg (by omega), if_pos (by omega), Nat.mod_eq_of_lt (a := n / 4096) (by omega), ← hb, ← ht,
    ← hu, UInt8.ofNat_toNat, UInt8.ofNat_toNat, UInt8.ofNat_toNat]

theorem utf8EncodeChar_four (hb : b.toNat = n / 262144 + 240) (ht : t.toNat = n / 4096 % 64 + 128)
    (hu : u.toNat = n / 64 % 64 + 128) (hv : v.toNat = n % 64 + 128) (hlow : 65536 ≤ n)
    (hhigh : n < 1114112) : String.utf8EncodeChar (Char.ofNat n) = [b, t, u, v] := by
  rw [String.utf8EncodeChar, toNat_val_ofNat (by rw [Nat.isValidChar]; omega), if_neg (by omega),
    if_neg (by omega), if_neg (by omega), Nat.mod_eq_of_lt (a := n / 262144) (by omega), ← hb, ← ht,
    ← hu, ← hv, UInt8.ofNat_toNat, UInt8.ofNat_toNat, UInt8.ofNat_toNat, UInt8.ofNat_toNat]

end Encoding

/-- What is decoded is encoded as the bytes it was taken from. -/
theorem utf8EncodeChar_of_decodeFirst {b : UInt8} {rest : List UInt8} {k : Nat}
    (h : decodeFirst b rest = some (c, k)) : String.utf8EncodeChar c = b :: rest.take k := by
  rw [decodeFirst.eq_def] at h
  split_ifs at h with hone
  · cases h
    exact utf8EncodeChar_one rfl (UInt8.lt_iff_toNat_lt.mp hone)
  · cases rest with
    | nil => cases h
    | cons t more =>
      simp only at h
      split_ifs at h with htwo
      · cases h
        simp only [Bool.and_eq_true, decide_eq_true_eq, isTail_iff, UInt8.le_iff_toNat_le,
          UInt8.reduceToNat] at htwo
        refine utf8EncodeChar_two ?_ ?_ ?_ ?_ <;>
          simp only [combine, foldl_cons, foldl_nil, toNat_and_mask 0x1F 5 rfl,
            toNat_and_mask 0x3F 6 rfl] <;> omega
      · cases more with
        | nil => cases h
        | cons u more =>
          simp only at h
          split_ifs at h with hthree
          · cases h
            simp only [Bool.and_eq_true, Bool.not_eq_true', Bool.and_eq_false_iff,
              decide_eq_true_eq, decide_eq_false_iff_not, isTail_iff, UInt8.le_iff_toNat_le,
              beq_eq_false_iff_ne, ne_eq, ← UInt8.toNat_inj, UInt8.lt_iff_toNat_lt, gt_iff_lt,
              UInt8.reduceToNat] at hthree
            refine utf8EncodeChar_three ?_ ?_ ?_ ?_ ?_ ?_ <;>
              simp only [combine, foldl_cons, foldl_nil, toNat_and_mask 0x0F 4 rfl,
                toNat_and_mask 0x3F 6 rfl] <;> omega
          · cases more with
            | nil => cases h
            | cons v more =>
              simp only at h
              split_ifs at h with hfour
              cases h
              simp only [Bool.and_eq_true, Bool.not_eq_true', Bool.and_eq_false_iff,
                decide_eq_true_eq, decide_eq_false_iff_not, isTail_iff,
                UInt8.le_iff_toNat_le, beq_eq_false_iff_ne, ne_eq, ← UInt8.toNat_inj,
                UInt8.lt_iff_toNat_lt, gt_iff_lt, UInt8.reduceToNat] at hfour
              refine utf8EncodeChar_four ?_ ?_ ?_ ?_ ?_ ?_ <;>
                simp only [combine, foldl_cons, foldl_nil,
                  toNat_and_mask 0x07 3 rfl, toNat_and_mask 0x3F 6 rfl] <;> omega

theorem le_of_decodeFirst_eq_none {b : UInt8} {rest : List UInt8}
    (h : decodeFirst b rest = none) : 0x80 ≤ b := by
  rw [decodeFirst.eq_def] at h
  split_ifs at h with hone
  exact UInt8.not_lt.mp hone

theorem encode_append (s t : List Char) : encode (s ++ t) = encode s ++ encode t :=
  flatMap_append

theorem lossy_encode (s : List Char) : lossy (encode s) = s := by
  rw [lossy, encode, decode_flatMap_utf8EncodeChar, map_map]
  simp

/-- A byte below 0x80 stands for itself alone. -/
theorem mem_utf8EncodeChar {b : UInt8} (h : b ∈ String.utf8EncodeChar c) :
    (c.toNat < 128 ∧ b = c.toUInt8) ∨ 0x80 ≤ b := by
  rw [String.utf8EncodeChar] at h
  have hbyte : ∀ m, 128 ≤ m → m < 256 → 0x80 ≤ UInt8.ofNat m := by
    intro m hlow hhigh
    rw [UInt8.le_iff_toNat_le, UInt8.toNat_ofNat', Nat.mod_eq_of_lt hhigh]
    exact hlow
  split_ifs at h with hone htwo hthree
  · rw [mem_singleton] at h
    exact .inl ⟨Nat.lt_succ_of_le hone, h⟩
  all_goals
    right
    simp only [mem_cons, not_mem_nil, or_false] at h
    rcases h with rfl | rfl | rfl | rfl <;> exact hbyte _ (by omega) (by omega)

theorem utf8EncodeChar_of_lt (h : c.toNat < 128) : String.utf8EncodeChar c = [c.toUInt8] := by
  have hval : c.val.toNat ≤ 0x7f := Nat.le_of_lt_succ h
  rw [String.utf8EncodeChar, if_pos hval]
  rfl

theorem toUInt8_inj {d : Char} (hc : c.toNat < 128) (hd : d.toNat < 128)
    (h : c.toUInt8 = d.toUInt8) : c = d := by
  have hnat : c.toUInt8.toNat = d.toUInt8.toNat := congrArg _ h
  change c.toNat % 256 = d.toNat % 256 at hnat
  exact Char.toNat_inj.mp (by omega)

/-- A character of ASCII is in a text when its byte is among the bytes. -/
theorem mem_of_toUInt8_mem_encode {s : List Char} (hc : c.toNat < 128) (h : c.toUInt8 ∈ encode s) :
    c ∈ s := by
  obtain ⟨d, hd, hmem⟩ := mem_flatMap.mp h
  rcases mem_utf8EncodeChar hmem with ⟨hascii, heq⟩ | hbeyond
  · rwa [toUInt8_inj hc hascii heq]
  · have hnat : 128 ≤ c.toNat % 256 := UInt8.le_iff_toNat_le.mp hbeyond
    omega

end Utf8

/-! ### Hexadecimal digits -/

theorem hexValue?_hexDigit {n : Nat} (h : n < 16) : hexValue? (hexDigit n) = some n := by
  interval_cases n <;> rfl

theorem mapM_hexValue?_hex (width n : Nat) :
    ∃ ds, (hex width n).mapM hexValue? = some ds ∧ (∀ d ∈ ds, d < 16) ∧
      ds.foldl (fun n d => n * 16 + d) 0 = n % 16 ^ width := by
  induction width generalizing n with
  | zero => exact ⟨[], rfl, by simp, by simp [Nat.mod_one]⟩
  | succ width ih =>
    obtain ⟨ds, hds, hlt, hvalue⟩ := ih (n / 16)
    refine ⟨ds ++ [n % 16], ?_, ?_, ?_⟩
    · rw [hex, mapM_append, hds]
      simp [hexValue?_hexDigit (Nat.mod_lt n (by decide))]
    · intro d hd
      rcases mem_append.mp hd with hd | hd
      · exact hlt d hd
      · rw [mem_singleton.mp hd]
        exact Nat.mod_lt n (by decide)
    · rw [foldl_append, hvalue, foldl_cons, foldl_nil, Nat.pow_succ']
      have := Nat.mod_mul (x := n) (a := 16) (b := 16 ^ width)
      omega

theorem isSome_hexValue?_of_mem_hex {width n : Nat} (hc : c ∈ hex width n) :
    (hexValue? c).isSome = true := by
  induction width generalizing n with
  | zero => cases hc
  | succ width ih =>
    rw [hex, mem_append, mem_singleton] at hc
    rcases hc with hc | rfl
    · exact ih hc
    · rw [hexValue?_hexDigit (Nat.mod_lt n (by decide))]
      rfl

namespace Quoted

/-- Digits make a number when they are digits of the base, by their place. -/
theorem number?_eq_some_iff {base : Nat} {digits : List Char} {n : Nat} :
    number? base digits = some n ↔
      ∃ ds, digits.mapM hexValue? = some ds ∧ (∀ d ∈ ds, d < base) ∧
        ds.foldl (fun n d => n * base + d) 0 = n := by
  have hgeneral : ∀ start, digits.foldlM (fun n c => do
        let d ← hexValue? c
        if d < base then return n * base + d else none) start = some n ↔
      ∃ ds, digits.mapM hexValue? = some ds ∧ (∀ d ∈ ds, d < base) ∧
        ds.foldl (fun n d => n * base + d) start = n := by
    induction digits with
    | nil => simp
    | cons c digits ih =>
      intro start
      rw [foldlM_cons, mapM_cons]
      cases hexValue? c with
      | none => simp
      | some d =>
        simp only [Option.bind_eq_bind, Option.bind_some, Option.bind_eq_some_iff,
          Option.pure_def, Option.some.injEq] at ih ⊢
        by_cases hd : d < base
        · rw [if_pos hd]
          simp only [Option.some.injEq, exists_eq_left', ih]
          constructor
          · rintro ⟨ds, hds, hlt, hvalue⟩
            exact ⟨d :: ds, ⟨ds, hds, rfl⟩, forall_mem_cons.mpr ⟨hd, hlt⟩, hvalue⟩
          · rintro ⟨_, ⟨ds, hds, rfl⟩, hlt, hvalue⟩
            exact ⟨ds, hds, (forall_mem_cons.mp hlt).2, hvalue⟩
        · rw [if_neg hd]
          refine ⟨by simp, ?_⟩
          rintro ⟨_, ⟨ds, -, rfl⟩, hlt, -⟩
          exact absurd (hlt d mem_cons_self) hd
  exact hgeneral 0

theorem number?_hex {width n : Nat} (h : n < 16 ^ width) : number? 16 (hex width n) = some n := by
  obtain ⟨ds, hds, hlt, hvalue⟩ := mapM_hexValue?_hex width n
  rw [Nat.mod_eq_of_lt h] at hvalue
  exact number?_eq_some_iff.mpr ⟨ds, hds, hlt, hvalue⟩

/-! ### Pieces -/

/-- Bytes are the pieces they are taken apart into. -/
theorem flatMap_bytes_pieces (bytes : List UInt8) : (pieces bytes).flatMap Piece.bytes = bytes := by
  fun_induction pieces bytes with
  | case1 => rfl
  | case2 b rest c n hfirst ih =>
    rw [flatMap_cons, ih, Piece.bytes, Utf8.utf8EncodeChar_of_decodeFirst hfirst,
      cons_append, take_append_drop]
  | case3 b rest hfirst ih => rw [flatMap_cons, ih]; rfl

/-- Only bytes beyond ASCII are pieces of their own. -/
def Piece.IsApart : Piece → Prop
  | .char _ => True
  | .byte b => 0x80 ≤ b

theorem isApart_of_mem_pieces {bytes : List UInt8} (h : p ∈ pieces bytes) : p.IsApart := by
  fun_induction pieces bytes with
  | case1 => cases h
  | case2 b rest c n hfirst ih =>
    rcases mem_cons.mp h with rfl | h
    · trivial
    · exact ih h
  | case3 b rest hfirst ih =>
    rcases mem_cons.mp h with rfl | h
    · exact Utf8.le_of_decodeFirst_eq_none hfirst
    · exact ih h

/-! ### Escapes -/

section Escapes

variable (rest : List Char)

theorem decode_bare (hquote : c ≠ '"') (hslash : c ≠ '\\') (hline : c ≠ '\n') :
    decode (c :: rest) = (decode rest).map (.char c :: ·) := by
  rw [decode.eq_def]
  split <;> simp_all [Option.map_eq_bind]

theorem decode_letter {letter : Char} (h : unescape? letter = some c) (hx : letter ≠ 'x')
    (hu : letter ≠ 'u') (hU : letter ≠ 'U') :
    decode ('\\' :: letter :: rest) = (decode rest).map (.char c :: ·) := by
  rw [decode.eq_def]
  split
  case h_7 hnot heq =>
    obtain ⟨rfl, rfl⟩ := List.cons.inj heq
    exact absurd rfl (hnot _ _ rfl)
  all_goals simp_all [Option.map_eq_bind]

theorem decode_hex_two {n : Nat} (hn : n < 256) (hp : byte? n = some p) :
    decode ('\\' :: 'x' :: hex 2 n ++ rest) = (decode rest).map (p :: ·) := by
  have hnumber := number?_hex (show n < 16 ^ 2 by omega)
  simp only [hex, nil_append, cons_append] at hnumber ⊢
  simp [decode, hnumber, hp, Option.map_eq_bind]

theorem char?_toNat (c : Char) : char? c.toNat = some (.char c) := by
  have hvalid : c.toNat.isValidChar := c.valid
  rw [char?, dif_pos hvalid]
  rfl

theorem decode_hex_four (hc : c.toNat < 0x10000) :
    decode ('\\' :: 'u' :: hex 4 c.toNat ++ rest) = (decode rest).map (.char c :: ·) := by
  have hnumber := number?_hex (show c.toNat < 16 ^ 4 by omega)
  simp only [hex, nil_append, cons_append] at hnumber ⊢
  simp [decode, hnumber, char?_toNat, Option.map_eq_bind]

theorem decode_hex_eight (c : Char) :
    decode ('\\' :: 'U' :: hex 8 c.toNat ++ rest) = (decode rest).map (.char c :: ·) := by
  have hnumber := number?_hex (show c.toNat < 16 ^ 8 from c.val.toNat_lt)
  simp only [hex, nil_append, cons_append] at hnumber ⊢
  simp [decode, hnumber, char?_toNat, Option.map_eq_bind]

theorem decode_escape (hp : p.IsApart) :
    decode (p.escape ++ rest) = (decode rest).map (p :: ·) := by
  cases p with
  | byte b =>
    have hbyte : byte? b.toNat = some (.byte b) := by
      have hlow : ¬ b.toNat < 128 := Nat.not_lt.mpr (UInt8.le_iff_toNat_le.mp hp)
      rw [byte?, if_neg hlow, if_pos b.toNat_lt, Nat.toUInt8, UInt8.ofNat_toNat]
    exact decode_hex_two rest b.toNat_lt hbyte
  | char c =>
    have hletter : ∀ {letter : Char} {n : Nat}, c.toNat = n →
        unescape? letter = some (Char.ofNat n) → letter ≠ 'x' → letter ≠ 'u' → letter ≠ 'U' →
        decode ('\\' :: letter :: rest) = (decode rest).map (.char c :: ·) := by
      rintro letter _ rfl h hx hu hU
      rw [Char.ofNat_toNat] at h
      exact decode_letter rest h hx hu hU
    rw [Piece.escape, escape]
    split_ifs with hmark hprint
    · refine hletter rfl ?_ ?_ ?_ ?_ <;> rcases hmark with rfl | rfl <;> decide
    · refine decode_bare rest (fun h => hmark (.inl h)) (fun h => hmark (.inr h)) ?_
      rintro rfl
      exact absurd hprint (by decide)
    · split
      case h_8 hn =>
        split_ifs with hcontrol hshort
        · have hbyte : byte? c.toNat = some (.char c) := by
            rw [byte?, if_pos (by omega), Char.ofNat_toNat]
          exact decode_hex_two rest (by omega) hbyte
        · exact decode_hex_four rest hshort
        · exact decode_hex_eight rest c
      all_goals
        rename_i hn
        exact hletter hn rfl (by decide) (by decide) (by decide)

theorem decode_flatMap_escape {ps : List Piece} (hps : ∀ p ∈ ps, p.IsApart) :
    decode (ps.flatMap Piece.escape ++ rest) = (decode rest).map (ps ++ ·) := by
  induction ps with
  | nil => simp
  | cons p ps ih =>
    rw [forall_mem_cons] at hps
    rw [flatMap_cons, append_assoc, decode_escape _ hps.1, ih hps.2, Option.map_map]
    rfl

end Escapes

/-- What is written between the quotes stands for the bytes. -/
theorem decode_pieces (bytes : List UInt8) :
    decode ((pieces bytes).flatMap Piece.escape ++ ['"']) = some (pieces bytes) := by
  rw [decode_flatMap_escape _ fun p => isApart_of_mem_pieces, decode, Option.map_some, append_nil]

/-! ### The shape of escapes -/

/-- What may stand behind a backslash. -/
def escapeLetters : List Char := ['"', '\\', 'a', 'b', 'f', 'n', 'r', 't', 'v', 'x', 'u', 'U']

theorem Piece.escape_cases (p : Piece) :
    (∃ c, p = .char c ∧ p.escape = [c] ∧ c ≠ '"' ∧ c ≠ '\\' ∧ isPrintable c = true) ∨
      ∃ letter digits, p.escape = '\\' :: letter :: digits ∧ letter ∈ escapeLetters ∧
        ∀ d ∈ digits, (hexValue? d).isSome = true := by
  have hhex : ∀ {mark : Char} (width n : Nat), mark ∈ escapeLetters →
      ∃ letter digits, '\\' :: mark :: hex width n = '\\' :: letter :: digits ∧
        letter ∈ escapeLetters ∧ ∀ d ∈ digits, (hexValue? d).isSome = true :=
    fun width n hmark => ⟨_, _, rfl, hmark, fun d => isSome_hexValue?_of_mem_hex⟩
  cases p with
  | byte b => exact .inr (hhex 2 b.toNat (by decide))
  | char c =>
    simp only [Piece.escape, Quoted.escape]
    split_ifs with hmark hprint
    · refine .inr ⟨c, [], rfl, ?_, by simp⟩
      rcases hmark with rfl | rfl <;> decide
    · exact .inl ⟨c, rfl, rfl, fun h => hmark (.inl h), fun h => hmark (.inr h), hprint⟩
    · right
      split
      case h_8 n _ =>
        split_ifs
        · exact hhex 2 _ (by decide)
        · exact hhex 4 _ (by decide)
        · exact hhex 8 _ (by decide)
      all_goals exact ⟨_, [], rfl, by decide, by simp⟩

end Quoted

/-- Reading gives back the bytes that were quoted. -/
theorem unquoteBytes?_quoteBytes (bytes : List UInt8) :
    unquoteBytes? (Utf8.encode (quoteBytes bytes)) = some bytes := by
  have hencode : Utf8.encode (quoteBytes bytes) =
      '"'.toUInt8 :: Utf8.encode ((Quoted.pieces bytes).flatMap Quoted.Piece.escape ++ ['"']) := by
    rw [quoteBytes, cons_append, Utf8.encode, flatMap_cons]
    rfl
  rw [hencode, unquoteBytes?, if_pos rfl, Utf8.lossy_encode, Quoted.decode_pieces, Option.map_some,
    Quoted.flatMap_bytes_pieces]

end Schemata.Text
