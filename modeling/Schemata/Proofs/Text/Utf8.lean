import Mathlib
import Schemata.Text.Utf8

/-!
The bytes of a text spell its characters: decoding is the inverse of encoding. Texts are ordered
by their characters as they are by their bytes.
-/

namespace Schemata.Text.Utf8

open List

/-! ### One character -/

theorem isTail_iff (b : UInt8) : isTail b = true ↔ 128 ≤ b.toNat ∧ b.toNat ≤ 191 := by
  simp [isTail, UInt8.le_iff_toNat_le]

theorem toNat_and_mask (mask : UInt8) (k : Nat) (hmask : mask.toNat = 2 ^ k - 1) (b : UInt8) :
    (b &&& mask).toNat = b.toNat % 2 ^ k := by
  rw [UInt8.toNat_and, hmask, Nat.and_two_pow_sub_one_eq_mod]

section Widths

variable {n : Nat} {b t u v : UInt8} (rest : List UInt8)

theorem decodeFirst_one (hb : b.toNat = n) (hn : n < 128) :
    decodeFirst b rest = some (Char.ofNat n, 0) := by
  have hlow : b < 0x80 := by
    rw [UInt8.lt_iff_toNat_lt, hb]
    exact hn
  rw [decodeFirst.eq_def, if_pos hlow, hb]

theorem decodeFirst_two (hb : b.toNat = n / 64 + 192) (ht : t.toNat = n % 64 + 128)
    (hlow : 128 ≤ n) (hhigh : n < 2048) : decodeFirst b (t :: rest) = some (Char.ofNat n, 1) := by
  have hvalue : combine (b &&& 0x1F) [t] = n := by
    simp only [combine, foldl_cons, foldl_nil, toNat_and_mask 0x1F 5 rfl,
      toNat_and_mask 0x3F 6 rfl, hb, ht]
    omega
  have htail := (isTail_iff t).mpr (by omega)
  have hnot : ¬ b < 0x80 := by
    rw [UInt8.lt_iff_toNat_lt, hb]
    exact Nat.not_lt.mpr (show 128 ≤ n / 64 + 192 by omega)
  have hlead : 0xC2 ≤ b ∧ b ≤ 0xDF := by
    rw [UInt8.le_iff_toNat_le, UInt8.le_iff_toNat_le, hb]
    exact ⟨show 194 ≤ n / 64 + 192 by omega, show n / 64 + 192 ≤ 223 by omega⟩
  simp [decodeFirst, hnot, hlead, htail, hvalue]

theorem decodeFirst_three (hb : b.toNat = n / 4096 + 224) (ht : t.toNat = n / 64 % 64 + 128)
    (hu : u.toNat = n % 64 + 128) (hlow : 2048 ≤ n) (hhigh : n < 65536)
    (hvalid : n < 55296 ∨ 57343 < n) : decodeFirst b (t :: u :: rest) = some (Char.ofNat n, 2) := by
  have hvalue : combine (b &&& 0x0F) [t, u] = n := by
    simp only [combine, foldl_cons, foldl_nil, toNat_and_mask 0x0F 4 rfl,
      toNat_and_mask 0x3F 6 rfl, hb, ht, hu]
    omega
  have htail := (isTail_iff t).mpr (by omega)
  have htail' := (isTail_iff u).mpr (by omega)
  have hnot : ¬ b < 0x80 := by simp [UInt8.lt_iff_toNat_lt, hb]
  have hlong : ¬ b ≤ 0xDF := by simp [UInt8.le_iff_toNat_le, hb]
  have hlead : 0xE0 ≤ b ∧ b ≤ 0xEF := by simp [UInt8.le_iff_toNat_le, hb]; omega
  have hoverlong : ¬ b = 0xE0 ∨ 0xA0 ≤ t := by
    simp [UInt8.le_iff_toNat_le, ← UInt8.toNat_inj, hb, ht]; omega
  have hsurrogate : ¬ b = 0xED ∨ t ≤ 0x9F := by
    simp [UInt8.le_iff_toNat_le, ← UInt8.toNat_inj, hb, ht]; omega
  simp [decodeFirst, hnot, hlong, hlead, htail, htail', hvalue, hoverlong, hsurrogate]

theorem decodeFirst_four (hb : b.toNat = n / 262144 + 240) (ht : t.toNat = n / 4096 % 64 + 128)
    (hu : u.toNat = n / 64 % 64 + 128) (hv : v.toNat = n % 64 + 128) (hlow : 65536 ≤ n)
    (hhigh : n < 1114112) : decodeFirst b (t :: u :: v :: rest) = some (Char.ofNat n, 3) := by
  have hvalue : combine (b &&& 0x07) [t, u, v] = n := by
    simp only [combine, foldl_cons, foldl_nil, toNat_and_mask 0x07 3 rfl,
      toNat_and_mask 0x3F 6 rfl, hb, ht, hu, hv]
    omega
  have htail := (isTail_iff t).mpr (by omega)
  have htail' := (isTail_iff u).mpr (by omega)
  have htail'' := (isTail_iff v).mpr (by omega)
  have hnot : ¬ b < 0x80 := by simp [UInt8.lt_iff_toNat_lt, hb]
  have hlong : ¬ b ≤ 0xDF := by simp [UInt8.le_iff_toNat_le, hb]
  have hlonger : ¬ b ≤ 0xEF := by simp [UInt8.le_iff_toNat_le, hb]
  have hlead : 0xF0 ≤ b ∧ b ≤ 0xF4 := by simp [UInt8.le_iff_toNat_le, hb]; omega
  have hoverlong : ¬ b = 0xF0 ∨ 0x90 ≤ t := by
    simp [UInt8.le_iff_toNat_le, ← UInt8.toNat_inj, hb, ht]; omega
  have hlast : ¬ b = 0xF4 ∨ t ≤ 0x8F := by
    simp [UInt8.le_iff_toNat_le, ← UInt8.toNat_inj, hb, ht]; omega
  simp [decodeFirst, hnot, hlong, hlonger, hlead, htail, htail', htail'', hvalue, hoverlong, hlast]

end Widths

theorem decodeFirst_utf8EncodeChar (c : Char) (rest : List UInt8) :
    ∃ b bs, String.utf8EncodeChar c = b :: bs ∧
      decodeFirst b (bs ++ rest) = some (c, bs.length) := by
  have hbyte : ∀ m, m < 256 → (UInt8.ofNat m).toNat = m := by
    intro m hm
    rw [UInt8.toNat_ofNat']
    omega
  have hc : Char.ofNat c.val.toNat = c := Char.ofNat_toNat c
  have hvalid : c.val.toNat < 55296 ∨ 57343 < c.val.toNat ∧ c.val.toNat < 1114112 := c.valid
  rw [String.utf8EncodeChar]
  generalize c.val.toNat = n at hc hvalid ⊢
  subst hc
  split_ifs with hone htwo hthree
  · exact ⟨_, _, rfl, decodeFirst_one rest (hbyte _ (by omega)) (by omega)⟩
  · exact ⟨_, _, rfl, decodeFirst_two rest ((hbyte _ (by omega)).trans (by omega))
      (hbyte _ (by omega)) (by omega) (by omega)⟩
  · exact ⟨_, _, rfl, decodeFirst_three rest ((hbyte _ (by omega)).trans (by omega))
      (hbyte _ (by omega)) (hbyte _ (by omega)) (by omega) (by omega) (by omega)⟩
  · exact ⟨_, _, rfl, decodeFirst_four rest ((hbyte _ (by omega)).trans (by omega))
      (hbyte _ (by omega)) (hbyte _ (by omega)) (hbyte _ (by omega)) (by omega) (by omega)⟩

/-! ### Texts -/

theorem decode_flatMap_utf8EncodeChar (cs : List Char) :
    decode (cs.flatMap String.utf8EncodeChar) = cs.map some := by
  induction cs with
  | nil => rw [flatMap_nil, decode, map_nil]
  | cons c cs ih =>
    obtain ⟨b, bs, hencoded, hdecoded⟩ :=
      decodeFirst_utf8EncodeChar c (cs.flatMap String.utf8EncodeChar)
    rw [flatMap_cons, hencoded, cons_append, decode, hdecoded]
    simp [ih]

theorem toList_loop (bytes : ByteArray) (i : Nat) (done : List UInt8) :
    ByteArray.toList.loop bytes i done = done.reverse ++ bytes.data.toList.drop i := by
  fun_induction ByteArray.toList.loop bytes i done with
  | case1 i done hi ih =>
    have hget : bytes.data.toList.drop i = bytes.get! i :: bytes.data.toList.drop (i + 1) := by
      rw [drop_eq_getElem_cons (show i < bytes.data.toList.length from hi), Array.getElem_toList]
      exact congrArg (· :: _) (getElem!_pos bytes.data i hi).symm
    rw [ih, hget, reverse_cons, append_assoc, singleton_append]
  | case2 i done hi =>
    rw [drop_eq_nil_of_le (by simpa using hi), append_nil]

theorem toList_toUTF8 (s : String) : s.toUTF8.toList = s.toList.flatMap String.utf8EncodeChar := by
  rw [ByteArray.toList, toList_loop, reverse_nil, nil_append, drop_zero,
    String.toUTF8_eq_toByteArray, ← String.ofList_toList (s := s), String.toByteArray_ofList,
    List.utf8Encode, toList_data_toByteArray, String.toList_ofList]

theorem decode_toUTF8 (s : String) : decode s.toUTF8.toList = s.toList.map some := by
  rw [toList_toUTF8, decode_flatMap_utf8EncodeChar]

/-! ### Order -/

/-- A greater character has the greater bytes, whatever follows. -/
theorem utf8EncodeChar_append_lt {c d : Char} (h : c < d) (r s : List UInt8) :
    String.utf8EncodeChar c ++ r < String.utf8EncodeChar d ++ s := by
  have hlt : c.val.toNat < d.val.toNat := h
  have hvalid : d.val.toNat < 55296 ∨ 57343 < d.val.toNat ∧ d.val.toNat < 1114112 := d.valid
  have hquarter (n : Nat) : n / 4096 = n / 64 / 64 ∧ n / 262144 = n / 64 / 64 / 64 := by omega
  rw [String.utf8EncodeChar, String.utf8EncodeChar]
  generalize c.val.toNat = m at hlt ⊢
  generalize d.val.toNat = n at hlt hvalid ⊢
  split_ifs
  all_goals try omega
  all_goals
    simp only [cons_append, nil_append, cons_lt_cons_iff, UInt8.lt_iff_toNat_lt, ← UInt8.toNat_inj,
      UInt8.toNat_ofNat', hquarter]
    omega

theorem flatMap_utf8EncodeChar_lt {s t : List Char} (h : s < t) :
    s.flatMap String.utf8EncodeChar < t.flatMap String.utf8EncodeChar := by
  induction s generalizing t with
  | nil =>
    cases t with
    | nil => exact absurd h (List.lt_irrefl _)
    | cons d t =>
      obtain ⟨b, bs, hencoded, -⟩ := decodeFirst_utf8EncodeChar d []
      rw [flatMap_nil, flatMap_cons, hencoded, cons_append]
      exact nil_lt_cons _ _
  | cons c s ih =>
    cases t with
    | nil => exact absurd h (not_lt_nil _)
    | cons d t =>
      rw [flatMap_cons, flatMap_cons]
      rcases cons_lt_cons_iff.mp h with hlt | ⟨rfl, hrest⟩
      · exact utf8EncodeChar_append_lt hlt _ _
      · exact append_left_lt (ih hrest)

/-- Texts are ordered as their bytes are. -/
theorem toUTF8_le_iff (s t : String) : s.toUTF8.toList ≤ t.toUTF8.toList ↔ s ≤ t := by
  have hmono (s t : String) (h : s < t) : s.toUTF8.toList < t.toUTF8.toList := by
    rw [toList_toUTF8, toList_toUTF8]
    exact flatMap_utf8EncodeChar_lt (String.lt_iff_toList_lt.mp h)
  refine ⟨fun h => not_lt.mp fun hlt => List.not_le.mpr (hmono t s hlt) h, fun h => ?_⟩
  rcases h.lt_or_eq with hlt | rfl
  · exact List.le_of_lt (hmono s t hlt)
  · exact List.le_refl _
end Schemata.Text.Utf8
