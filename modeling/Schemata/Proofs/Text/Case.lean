import Mathlib
import Schemata.Text.Case

/-!
Upper case. What the tables move is lower case, and where they move it, it stays: the strides of
the letters that are moved meet neither those of upper-case letters nor those of the forms they
are moved to. No form is a lower-case letter of ASCII or a mark.
-/

namespace Schemata.Text

variable {n : Nat} {c : Char}

/-! ### Strides -/

/-- Whether no code point lies in both strides: they lie apart, they alternate, or one of them is
a single code point outside the other. -/
def areDisjoint (a b : Nat × Nat × Nat) : Bool :=
  Nat.blt a.2.1 b.1 || Nat.blt b.2.1 a.1 ||
    (a.2.2 % 2 == 0 && b.2.2 % 2 == 0 && (a.1 + b.1) % 2 == 1) ||
    (a.1 == a.2.1 && !inStride a.1 b) || (b.1 == b.2.1 && !inStride b.1 a)

theorem mod_two_of_inStride {r : Nat × Nat × Nat} (h : inStride n r = true)
    (hstep : r.2.2 % 2 = 0) : r.1 ≤ n ∧ n % 2 = r.1 % 2 := by
  simp only [inStride, Bool.and_eq_true, decide_eq_true_eq, beq_iff_eq] at h
  obtain ⟨⟨hlow, -⟩, hmod⟩ := h
  have hdvd : 2 ∣ n - r.1 := (Nat.dvd_of_mod_eq_zero hstep).trans (Nat.dvd_of_mod_eq_zero hmod)
  omega

theorem bounds_of_inStride {r : Nat × Nat × Nat} (h : inStride n r = true) :
    r.1 ≤ n ∧ n ≤ r.2.1 := by
  simp only [inStride, Bool.and_eq_true, decide_eq_true_eq] at h
  exact h.1

theorem not_inStride_of_areDisjoint {a b : Nat × Nat × Nat} (h : areDisjoint a b = true)
    (ha : inStride n a = true) : inStride n b = false := by
  by_contra hb
  rw [Bool.not_eq_false] at hb
  have habounds := bounds_of_inStride ha
  have hbbounds := bounds_of_inStride hb
  simp only [areDisjoint, Bool.or_eq_true, Bool.and_eq_true, Nat.blt_eq, beq_iff_eq,
    Bool.not_eq_true'] at h
  rcases h with (((hapart | hapart) | ⟨⟨hastep, hbstep⟩, hparity⟩) | ⟨hone, hout⟩) | ⟨hone, hout⟩
  · omega
  · omega
  · have hamod := mod_two_of_inStride ha hastep
    have hbmod := mod_two_of_inStride hb hbstep
    omega
  · have hn : n = a.1 := by omega
    rw [hn, hout] at hb
    cases hb
  · have hn : n = b.1 := by omega
    rw [hn, hout] at ha
    cases ha

/-! ### Shifts -/

/-- The code points that a shift moves. -/
def sourceOf (r : Nat × Nat × Nat × Int) : Nat × Nat × Nat := (r.1, r.2.1, r.2.2.1)

/-- The code points that a shift moves to. -/
def imageOf (r : Nat × Nat × Nat × Int) : Nat × Nat × Nat :=
  ((r.1 + r.2.2.2).toNat, (r.2.1 + r.2.2.2).toNat, r.2.2.1)

/-- Whether a shift leads to characters, which are upper-case letters or lie beyond ASCII. -/
def leadsToUpper (r : Nat × Nat × Nat × Int) : Bool :=
  0 ≤ r.1 + r.2.2.2 &&
    ((65 ≤ (imageOf r).1 && (imageOf r).2.1 ≤ 90) ||
      (0x80 ≤ (imageOf r).1 && (imageOf r).2.1 < 0xd800) ||
      (0xe000 ≤ (imageOf r).1 && (imageOf r).2.1 < 0x110000))

theorem upperShifts_leadToUpper : upperShifts.all leadsToUpper = true := by decide +kernel

theorem upperShifts_settle :
    (upperShifts.all fun r => upperShifts.all fun q => areDisjoint (imageOf r) (sourceOf q)) =
      true := by
  decide +kernel

theorem upperStrides_stay :
    (upperStrides.all fun r => upperShifts.all fun q => areDisjoint r (sourceOf q)) = true := by
  simp only [upperStrides, numbers, List.flatMap_cons, List.flatMap_nil]
  repeat rw [String.toList_ofList]
  decide +kernel

/-! ### Characters -/

theorem shifted_eq_self {table : List (Nat × Nat × Nat × Int)}
    (h : ∀ q ∈ table, inStride c.toNat (sourceOf q) = false) : shifted table c = c := by
  have hfind : table.find? (fun r => inStride c.toNat (r.1, r.2.1, r.2.2.1)) = none := by
    rw [List.find?_eq_none]
    intro q hq
    simpa [sourceOf] using h q hq
  rw [shifted, hfind]

/-- What is moved is moved into the image of some shift. -/
theorem shifted_cases {table : List (Nat × Nat × Nat × Int)} (c : Char)
    (hlead : table.all leadsToUpper = true) :
    shifted table c = c ∨
      ∃ r ∈ table, leadsToUpper r = true ∧ inStride (shifted table c).toNat (imageOf r) = true := by
  rw [shifted]
  split
  case h_2 => exact .inl rfl
  case h_1 r hfind =>
    have hmem := List.mem_of_find?_eq_some hfind
    have hleads := List.all_eq_true.mp hlead r hmem
    have hsource := List.find?_some hfind
    refine .inr ⟨r, hmem, hleads, ?_⟩
    simp only [leadsToUpper, inStride, Bool.and_eq_true, Bool.or_eq_true, decide_eq_true_eq,
      beq_iff_eq] at hleads hsource ⊢
    simp only [imageOf] at hleads ⊢
    have hvalid : ((c.toNat : Int) + r.2.2.2).toNat.isValidChar := by
      rw [Nat.isValidChar]
      omega
    rw [Char.toNat_ofNat, if_pos hvalid]
    have hsame : ((c.toNat : Int) + r.2.2.2).toNat - (r.1 + r.2.2.2).toNat = c.toNat - r.1 := by
      omega
    rw [hsame]
    omega

theorem toNat_charToUpper (c : Char) :
    c.toUpper.toNat = if 97 ≤ c.toNat ∧ c.toNat ≤ 122 then c.toNat - 32 else c.toNat := by
  rw [Char.toUpper]
  split
  case isTrue hletter =>
    have hbounds : 97 ≤ c.toNat ∧ c.toNat ≤ 122 := hletter
    rw [if_pos hbounds]
    change (c.val + ('A'.val - 'a'.val)).toNat = c.val.toNat - 32
    have hc : 97 ≤ c.val.toNat ∧ c.val.toNat ≤ 122 := hletter
    rw [UInt32.toNat_add, show ('A'.val - 'a'.val).toNat = 4294967264 from rfl]
    omega
  case isFalse hletter =>
    have hbounds : ¬ (97 ≤ c.toNat ∧ c.toNat ≤ 122) := hletter
    rw [if_neg hbounds]

theorem charToUpper_eq_self (h : ¬ (97 ≤ c.toNat ∧ c.toNat ≤ 122)) : c.toUpper = c := by
  apply Char.toNat_inj.mp
  rw [toNat_charToUpper, if_neg h]

/-- An upper-case form is an upper-case letter of ASCII or a character beyond, or else it is the
character itself. -/
theorem toUpper_cases (c : Char) :
    (toUpper c = c ∧ ¬ (97 ≤ c.toNat ∧ c.toNat ≤ 122)) ∨
      (65 ≤ (toUpper c).toNat ∧ (toUpper c).toNat ≤ 90) ∨ 0x80 ≤ (toUpper c).toNat := by
  rw [toUpper]
  split
  case isTrue hascii =>
    by_cases hlower : 97 ≤ c.toNat ∧ c.toNat ≤ 122
    · right; left
      rw [toNat_charToUpper, if_pos hlower]
      omega
    · exact .inl ⟨charToUpper_eq_self hlower, hlower⟩
  case isFalse hascii =>
    rcases shifted_cases c upperShifts_leadToUpper with hsame | ⟨r, hr, hleads, himage⟩
    · exact .inl ⟨hsame, by omega⟩
    · have hbounds := bounds_of_inStride himage
      simp only [leadsToUpper, Bool.and_eq_true, Bool.or_eq_true, decide_eq_true_eq] at hleads
      omega

theorem toUpper_eq_self (hascii : c.toNat < 0x80 → ¬ (97 ≤ c.toNat ∧ c.toNat ≤ 122))
    (hshifts : 0x80 ≤ c.toNat → ∀ q ∈ upperShifts, inStride c.toNat (sourceOf q) = false) :
    toUpper c = c := by
  rw [toUpper]
  split
  case isTrue h => exact charToUpper_eq_self (hascii h)
  case isFalse h => exact shifted_eq_self (hshifts (by omega))

theorem toUpper_toUpper (c : Char) : toUpper (toUpper c) = toUpper c := by
  by_cases hsame : toUpper c = c
  · rw [hsame, hsame]
  · have hupper := (toUpper_cases c).resolve_left fun h => hsame h.1
    refine toUpper_eq_self (by omega) fun hbeyond q hq => ?_
    rw [toUpper] at hsame hbeyond ⊢
    split at hbeyond
    case isTrue h =>
      rw [toNat_charToUpper] at hbeyond
      split at hbeyond <;> omega
    case isFalse h =>
      rw [if_neg h] at hsame ⊢
      obtain ⟨r, hr, -, himage⟩ := (shifted_cases c upperShifts_leadToUpper).resolve_left hsame
      have hsettle := List.all_eq_true.mp (List.all_eq_true.mp upperShifts_settle r hr) q hq
      exact not_inStride_of_areDisjoint hsettle himage

theorem toUpper_eq_self_of_isUpper (h : isUpper c = true) : toUpper c = c := by
  rw [isUpper] at h
  split at h
  case isTrue hascii =>
    have hletter : 65 ≤ c.val ∧ c.val ≤ 90 := by simpa [Char.isUpper] using h
    have hupper : 65 ≤ c.toNat ∧ c.toNat ≤ 90 := hletter
    exact toUpper_eq_self (by omega) (by omega)
  case isFalse hascii =>
    obtain ⟨r, hr, hstride⟩ := List.any_eq_true.mp h
    refine toUpper_eq_self (by omega) fun _ q hq => ?_
    have hstay := List.all_eq_true.mp (List.all_eq_true.mp upperStrides_stay r hr) q hq
    exact not_inStride_of_areDisjoint hstay hstride

end Schemata.Text
