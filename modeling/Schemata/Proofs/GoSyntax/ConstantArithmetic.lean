import Schemata.GoSyntax.Constant
import Schemata.Proofs.Text.Quotation

/-!
Constants against the integers they stand for. Without bounds, an expression has the value that
its operators give it. Words hold the results of most operators as they are; sums, differences,
products, shifts to the left, negation and one quotient can leave their range, and then what is
kept is the result modulo `2 ^ 64`.
-/

namespace Schemata.GoSyntax

open Text List

variable {result : Option Int} {inWord : Prop} {P : Expr → Prop}

/-! ### Bits of words -/

/-- Integers with the same bits are the same. -/
theorem eq_of_testBit_eq {m n : Int} (h : ∀ k, m.testBit k = n.testBit k) : m = n := by
  -- far enough up, integers of different signs differ
  have hmixed : ∀ a b : ℕ, ¬ ∀ k, a.testBit k = !b.testBit k := by
    intro a b hbits
    have hlarge := hbits (a + b)
    rw [Nat.testBit_lt_two_pow (lt_of_le_of_lt (Nat.le_add_right a b) Nat.lt_two_pow_self),
      Nat.testBit_lt_two_pow (lt_of_le_of_lt (Nat.le_add_left b a) Nat.lt_two_pow_self)] at hlarge
    cases hlarge
  cases m with
  | ofNat a =>
    cases n with
    | ofNat b => exact congrArg Int.ofNat (Nat.eq_of_testBit_eq h)
    | negSucc b => exact absurd h (hmixed a b)
  | negSucc a =>
    cases n with
    | ofNat b => exact absurd (fun k => (h k).symm) (hmixed b a)
    | negSucc b =>
      refine congrArg Int.negSucc (Nat.eq_of_testBit_eq fun k => ?_)
      exact Bool.not_inj (h k)

/-- Behind its highest bit a word goes on with it. -/
theorem testBit_toInt {w : Nat} (x : BitVec w) (k : Nat) :
    x.toInt.testBit k = if k < w then x.getLsbD k else x.msb := by
  rw [BitVec.toInt_eq_msb_cond]
  cases hmsb : x.msb with
  | false =>
    rw [if_neg (by simp)]
    change x.toNat.testBit k = _
    rw [BitVec.testBit_toNat]
    split_ifs with hk
    · rfl
    · exact BitVec.getLsbD_of_ge x k (by omega)
  | true =>
    -- the bits of a negative integer are those of its complement, inverted
    have hnot : (x.toNat : Int) - (2 ^ w : Nat) = Int.negSucc (~~~x).toNat := by
      have hlt := x.isLt
      rw [BitVec.toNat_not, Int.negSucc_eq]
      omega
    rw [if_pos rfl, hnot]
    change (!(~~~x).toNat.testBit k) = _
    rw [BitVec.testBit_toNat]
    split_ifs with hk
    · simp [hk]
    · simp [hk]

section Words

variable (x y : Int64)

theorem toInt_and : (x &&& y).toInt = Int.land x.toInt y.toInt := by
  refine eq_of_testBit_eq fun k => ?_
  rw [Int.testBit_land]
  simp only [Int64.toInt, Int64.toBitVec_and, testBit_toInt]
  split_ifs <;> simp

theorem toInt_or : (x ||| y).toInt = Int.lor x.toInt y.toInt := by
  refine eq_of_testBit_eq fun k => ?_
  rw [Int.testBit_lor]
  simp only [Int64.toInt, Int64.toBitVec_or, testBit_toInt]
  split_ifs <;> simp

theorem toInt_xor : (x ^^^ y).toInt = Int.xor x.toInt y.toInt := by
  refine eq_of_testBit_eq fun k => ?_
  rw [Int.testBit_lxor]
  simp only [Int64.toInt, Int64.toBitVec_xor, testBit_toInt]
  split_ifs <;> simp

theorem toInt_complement : (~~~x).toInt = Int.lnot x.toInt := by
  refine eq_of_testBit_eq fun k => ?_
  rw [Int.testBit_lnot]
  simp only [Int64.toInt, Int64.toBitVec_not, testBit_toInt]
  split_ifs with hk <;> simp [hk]

theorem toInt_and_complement : (x &&& ~~~y).toInt = Int.ldiff x.toInt y.toInt := by
  refine eq_of_testBit_eq fun k => ?_
  rw [toInt_and, toInt_complement, Int.testBit_land, Int.testBit_lnot, Int.testBit_ldiff]

variable {y}

/-- The distance of a shift is taken as it is below 64. -/
theorem toNat_distance (h0 : 0 ≤ y.toInt) (h63 : y.toInt ≤ 63) :
    (y.toBitVec.smod 64).toNat = y.toInt.toNat := by
  have hsmod : (y.toBitVec.smod 64).toInt = y.toInt := by
    rw [BitVec.toInt_smod]
    change y.toInt.fmod 64 = y.toInt
    rw [Int.fmod_eq_emod_of_nonneg _ (by decide), Int.emod_eq_of_lt h0 (by omega)]
  rw [BitVec.toInt_inj.mp hsmod]
  have hword : y.toInt = y.toBitVec.toInt := rfl
  rw [BitVec.toInt_eq_toNat_cond] at hword
  have hlt := y.toBitVec.isLt
  split_ifs at hword <;> omega

theorem toInt_shiftLeft (h0 : 0 ≤ y.toInt) (h63 : y.toInt ≤ 63) :
    (x <<< y).toInt = (x.toInt * 2 ^ y.toInt.toNat).bmod (2 ^ 64) := by
  have hx : x.toInt = (x.toBitVec.toNat : Int).bmod (2 ^ 64) :=
    BitVec.toInt_eq_toNat_bmod x.toBitVec
  rw [hx, Int.bmod_mul_bmod, Int64.toInt, Int64.toBitVec_shiftLeft, BitVec.shiftLeft_eq',
    toNat_distance h0 h63, BitVec.toInt_shiftLeft, Nat.shiftLeft_eq]
  push_cast
  rfl

theorem toInt_shiftRight (h0 : 0 ≤ y.toInt) (h63 : y.toInt ≤ 63) :
    (x >>> y).toInt = x.toInt / 2 ^ y.toInt.toNat := by
  rw [Int64.toInt, Int64.toBitVec_shiftRight, BitVec.sshiftRight_eq', toNat_distance h0 h63,
    BitVec.toInt_sshiftRight, Int.shiftRight_eq_div_pow]
  push_cast
  rfl

end Words

/-! ### Values without bounds -/

/-- The value of an integer literal: that of its digits, each below the base. -/
def exactLiteral? (text : String) : Option Int :=
  let (base, digits) := literalDigits text.toList
  match (digits.filter (· ≠ '_')).mapM hexValue? with
  | some values =>
    if ∀ v ∈ values, v < base then some (Nat.ofDigits base values.reverse : Nat) else none
  | none => none

/-- What an operator makes of two integers. Quotients are truncated, and the bits of an integer
are those of its two's complement. -/
def exactBinary? (operator : String) (x y : Int) : Option Int :=
  match operator with
  | "+" => some (x + y)
  | "-" => some (x - y)
  | "*" => some (x * y)
  | "/" => if y = 0 then none else some (x.tdiv y)
  | "%" => if y = 0 then none else some (x.tmod y)
  | "<<" => if y < 0 then none else some (x * 2 ^ y.toNat)
  | ">>" => if y < 0 then none else some (x / 2 ^ y.toNat)
  | "|" => some (Int.lor x y)
  | "&" => some (Int.land x y)
  | "^" => some (Int.xor x y)
  | "&^" => some (Int.ldiff x y)
  | _ => none

def exactUnary? (operator : String) (x : Int) : Option Int :=
  match operator with
  | "+" => some x
  | "-" => some (-x)
  | "^" => some (Int.lnot x)
  | _ => none

/-- The value of an expression of which every operator's result goes through `keep`. -/
def Expr.evaluate (keep : Int → Int) (iota : Int) : Expr → Option Int
  | .literal l => if l.kind = .integer then exactLiteral? l.text else none
  | .identifier id => if id.name = "iota" then some iota else none
  | .paren _ x => x.evaluate keep iota
  | .unary _ op x => do
    let a ← x.evaluate keep iota
    (exactUnary? op a).map keep
  | .binary x op y => do
    let a ← x.evaluate keep iota
    let b ← y.evaluate keep iota
    (exactBinary? op a b).map keep
  | _ => none

def Expr.unbounded? (iota : Int) (e : Expr) : Option Int :=
  e.evaluate id iota

/-- Keep of an integer what a word holds. -/
def wrap (z : Int) : Int :=
  z.bmod (2 ^ 64)

/-- The integers that a word holds as they are. -/
def Fits (z : Int) : Prop :=
  -2 ^ 63 ≤ z ∧ z < 2 ^ 63

instance (z : Int) : Decidable (Fits z) :=
  inferInstanceAs (Decidable (_ ∧ _))

/-- Integer literals and `iota` under parentheses and operators. -/
inductive IsArithmetic : Expr → Prop
  | literal {l : Literal} : l.kind = .integer → IsArithmetic (.literal l)
  | iota {id : Identifier} : id.name = "iota" → IsArithmetic (.identifier id)
  | paren {place x} : IsArithmetic x → IsArithmetic (.paren place x)
  | unary {place op x} : op ∈ ["+", "-", "^"] → IsArithmetic x →
      IsArithmetic (.unary place op x)
  | binary {x op y} :
      op ∈ ["+", "-", "*", "/", "%", "<<", ">>", "|", "&", "^", "&^"] → IsArithmetic x →
      IsArithmetic y → IsArithmetic (.binary x op y)

/-- An expression and what stands in it under parentheses and operators. -/
def Expr.parts : Expr → List Expr
  | .paren place x => .paren place x :: x.parts
  | .unary place op x => .unary place op x :: x.parts
  | .binary x op y => .binary x op y :: (x.parts ++ y.parts)
  | e => [e]

/-- How far an expression shifts. -/
def Expr.distance? : Expr → Option Expr
  | .binary _ op y => if op ∈ ["<<", ">>"] then some y else none
  | _ => none

theorem Expr.self_mem_parts (e : Expr) : e ∈ e.parts := by
  cases e <;> exact mem_cons_self

/-! ### Operators on words -/

theorem fits_toInt (n : Int64) : Fits n.toInt :=
  ⟨n.le_toInt, n.toInt_lt⟩

theorem wrap_of_fits {z : Int} (h : Fits z) : wrap z = z := by
  obtain ⟨hlow, hhigh⟩ := h
  exact Int.bmod_eq_of_le (by omega) (by omega)

theorem exists_toInt_eq {z : Int} (h : Fits z) : ∃ n : Int64, n.toInt = z :=
  ⟨Int64.ofInt z, Int64.toInt_ofInt_of_le h.1 h.2⟩

theorem toInt_eq_wrap {n : Int64} {z : Int} (h : n.toInt = z) : n.toInt = wrap z := by
  rw [← h, wrap_of_fits (fits_toInt n)]

theorem foldl_eq_ofDigits (base : Nat) (values : List Nat) :
    values.foldl (fun n v => n * base + v) 0 = Nat.ofDigits base values.reverse := by
  rw [Nat.ofDigits_eq_foldr, foldr_reverse]
  congr 1
  funext n v
  rw [Nat.cast_id, Nat.add_comm, Nat.mul_comm]

/-- The exact value of a literal is the number that its digits make. -/
theorem exactLiteral?_eq_some_iff {text : String} {z : Int} :
    exactLiteral? text = some z ↔ ∃ n : Nat, z = n ∧
      Quoted.number? (literalDigits text.toList).1
        ((literalDigits text.toList).2.filter (· ≠ '_')) = some n := by
  simp only [exactLiteral?, Quoted.number?_eq_some_iff, foldl_eq_ofDigits]
  constructor
  · intro h
    split at h
    case h_1 values hvalues =>
      split_ifs at h with hlt
      exact ⟨_, (Option.some.inj h).symm, values, hvalues, hlt, rfl⟩
    case h_2 => cases h
  · rintro ⟨_, rfl, values, hvalues, hlt, rfl⟩
    simp only [hvalues, if_pos hlt]

/-- A literal has its exact value when that is below `2 ^ 63`, and else none. -/
theorem integerValue?_eq_some_iff {text : String} {n : Int64} :
    integerValue? text = some n ↔ exactLiteral? text = some n.toInt := by
  rw [exactLiteral?_eq_some_iff]
  simp only [integerValue?, Option.bind_eq_bind, Option.bind_eq_some_iff]
  refine exists_congr fun m => ?_
  rw [and_comm]
  refine and_congr_left fun _ => ?_
  have hbound := n.toInt_lt
  split_ifs with hm
  · have htoInt : (Int64.ofNat m).toInt = m := Int64.toInt_ofNat_of_lt hm
    rw [← htoInt, Int64.toInt_inj]
    exact Option.some_inj.trans eq_comm
  · have hlarge : 2 ^ 63 ≤ m := not_lt.mp hm
    exact iff_of_false (by simp) (by omega)

section Operators

variable {w n y : Int64} {z : Int}

/-- A word stands for the result of an operator when it is the result, wrapped. -/
theorem some_eq_some_iff_wrap (hresult : result = some z) (hw : w.toInt = wrap z) (hin : inWord) :
    some w = some n ↔ (∃ z, result = some z ∧ n.toInt = wrap z) ∧ inWord := by
  constructor
  · rintro ⟨⟩
    exact ⟨⟨z, hresult, hw⟩, hin⟩
  · rintro ⟨⟨z', hz', hn⟩, -⟩
    obtain rfl : z = z' := Option.some.inj (hresult.symm.trans hz')
    rw [Int64.toInt_inj.mp (hn.trans hw.symm)]

/-- Words and integers are not divided by the same ones. -/
theorem divided_eq_some_iff_wrap (hresult : result = if y.toInt = 0 then none else some z)
    (hw : w.toInt = wrap z) (hin : inWord) :
    (if y = 0 then none else some w) = some n ↔
      (∃ z, result = some z ∧ n.toInt = wrap z) ∧ inWord := by
  have hzero : y.toInt = 0 ↔ y = 0 := Int64.toInt_inj (y := 0)
  by_cases hy : y = 0
  · rw [if_pos (hzero.mpr hy)] at hresult
    simp [hy, hresult]
  · rw [if_neg (mt hzero.mp hy)] at hresult
    rw [if_neg hy]
    exact some_eq_some_iff_wrap hresult hw hin

/-- Shifts by negative distances have no result, and words are not shifted by more than 63. -/
theorem shifted_eq_some_iff_wrap (hresult : result = if y.toInt < 0 then none else some z)
    (hw : 0 ≤ y.toInt → y.toInt ≤ 63 → w.toInt = wrap z) (hin : inWord ↔ y.toInt ≤ 63) :
    (if y < 0 ∨ y > 63 then none else some w) = some n ↔
      (∃ z, result = some z ∧ n.toInt = wrap z) ∧ inWord := by
  have hlow : y < 0 ↔ y.toInt < 0 := Int64.lt_iff_toInt_lt
  have hhigh : y > 63 ↔ 63 < y.toInt := Int64.lt_iff_toInt_lt
  simp only [hlow, hhigh, hin]
  by_cases hneg : y.toInt < 0
  · simp [hresult, hneg]
  · rw [if_neg hneg] at hresult
    by_cases hfar : y.toInt ≤ 63
    · rw [if_neg (by omega)]
      exact some_eq_some_iff_wrap hresult (hw (by omega) hfar) hfar
    · simp [hfar, show 63 < y.toInt by omega]

end Operators

/-- On words an operator gives the exact result, wrapped, unless it shifts past the word. -/
theorem binaryValue?_eq_some_iff {op : String} {x y n : Int64} :
    binaryValue? op x y = some n ↔
      (∃ z, exactBinary? op x.toInt y.toInt = some z ∧ n.toInt = wrap z) ∧
        (op ∈ ["<<", ">>"] → y.toInt ≤ 63) := by
  unfold binaryValue?
  split
  case h_1 => exact some_eq_some_iff_wrap rfl (Int64.toInt_add x y) (by simp)
  case h_2 => exact some_eq_some_iff_wrap rfl (Int64.toInt_sub x y) (by simp)
  case h_3 => exact some_eq_some_iff_wrap rfl (Int64.toInt_mul x y) (by simp)
  case h_4 => exact divided_eq_some_iff_wrap rfl (Int64.toInt_div x y) (by simp)
  case h_5 => exact divided_eq_some_iff_wrap rfl (toInt_eq_wrap (Int64.toInt_mod x y)) (by simp)
  case h_6 => exact shifted_eq_some_iff_wrap rfl (toInt_shiftLeft x) (by simp)
  case h_7 =>
    refine shifted_eq_some_iff_wrap rfl (fun h0 h63 => toInt_eq_wrap ?_) (by simp)
    exact toInt_shiftRight x h0 h63
  case h_8 => exact some_eq_some_iff_wrap rfl (toInt_eq_wrap (toInt_or x y)) (by simp)
  case h_9 => exact some_eq_some_iff_wrap rfl (toInt_eq_wrap (toInt_and x y)) (by simp)
  case h_10 => exact some_eq_some_iff_wrap rfl (toInt_eq_wrap (toInt_xor x y)) (by simp)
  case h_11 => exact some_eq_some_iff_wrap rfl (toInt_eq_wrap (toInt_and_complement x y)) (by simp)
  case h_12 =>
    rw [exactBinary?.eq_def]
    split <;> simp_all

theorem unaryValue?_eq_some_iff {op : String} {x n : Int64} :
    unaryValue? op x = some n ↔ ∃ z, exactUnary? op x.toInt = some z ∧ n.toInt = wrap z := by
  rw [← and_true (∃ z, _)]
  unfold unaryValue?
  split
  case h_1 => exact some_eq_some_iff_wrap rfl (toInt_eq_wrap rfl) trivial
  case h_2 => exact some_eq_some_iff_wrap rfl (Int64.toInt_neg x) trivial
  case h_3 => exact some_eq_some_iff_wrap rfl (toInt_eq_wrap (toInt_complement x)) trivial
  case h_4 =>
    rw [exactUnary?.eq_def]
    split <;> simp_all

/-! ### Expressions -/

section Expressions

variable {e x y : Expr} {op : String} {place : Place} {iota n : Int64}

theorem forall_parts_paren :
    (∀ part ∈ (Expr.paren place x).parts, P part) ↔ P (.paren place x) ∧ ∀ part ∈ x.parts, P part :=
  forall_mem_cons

theorem forall_parts_unary :
    (∀ part ∈ (Expr.unary place op x).parts, P part) ↔
      P (.unary place op x) ∧ ∀ part ∈ x.parts, P part :=
  forall_mem_cons

theorem forall_parts_binary :
    (∀ part ∈ (Expr.binary x op y).parts, P part) ↔
      P (.binary x op y) ∧ (∀ part ∈ x.parts, P part) ∧ ∀ part ∈ y.parts, P part :=
  forall_mem_cons.trans (and_congr_right' forall_mem_append)

theorem value?_paren : (Expr.paren place x).value? iota = x.value? iota :=
  rfl

theorem value?_unary_eq_some_iff : (Expr.unary place op x).value? iota = some n ↔
    ∃ a, x.value? iota = some a ∧ unaryValue? op a = some n :=
  Option.bind_eq_some_iff

theorem value?_binary_eq_some_iff : (Expr.binary x op y).value? iota = some n ↔
    ∃ a, x.value? iota = some a ∧ ∃ b, y.value? iota = some b ∧ binaryValue? op a b = some n :=
  Option.bind_eq_some_iff.trans
    (exists_congr fun _ => and_congr_right fun _ => Option.bind_eq_some_iff)

section Evaluation

variable (keep : Int → Int) {k a b : Int}

theorem evaluate_unary (hx : x.evaluate keep k = some a) :
    (Expr.unary place op x).evaluate keep k = (exactUnary? op a).map keep := by
  change (x.evaluate keep k).bind _ = _
  rw [hx, Option.bind_some]

theorem evaluate_binary (hx : x.evaluate keep k = some a) (hy : y.evaluate keep k = some b) :
    (Expr.binary x op y).evaluate keep k = (exactBinary? op a b).map keep := by
  change (x.evaluate keep k).bind (fun _ => (y.evaluate keep k).bind _) = _
  rw [hx, Option.bind_some, hy, Option.bind_some]

theorem value?_literal {l : Literal} (hl : l.kind = .integer) :
    (Expr.literal l).value? iota = some n ↔
      (Expr.literal l).evaluate keep iota.toInt = some n.toInt := by
  change (if l.kind = .integer then integerValue? l.text else none) = _ ↔
    (if l.kind = .integer then exactLiteral? l.text else none) = _
  rw [if_pos hl, if_pos hl, integerValue?_eq_some_iff]

theorem value?_iota {id : Identifier} (hid : id.name = "iota") :
    (Expr.identifier id).value? iota = some n ↔
      (Expr.identifier id).evaluate keep iota.toInt = some n.toInt := by
  change (if id.name = "iota" then some iota else none) = _ ↔
    (if id.name = "iota" then some iota.toInt else none) = _
  rw [if_pos hid, if_pos hid, Option.some_inj, Option.some_inj, Int64.toInt_inj]

end Evaluation

theorem unbounded?_unary (place : Place) {a k : Int} (hx : x.unbounded? k = some a) :
    (Expr.unary place op x).unbounded? k = exactUnary? op a :=
  (evaluate_unary id hx).trans Option.map_id'

theorem unbounded?_binary {a b k : Int} (hx : x.unbounded? k = some a)
    (hy : y.unbounded? k = some b) : (Expr.binary x op y).unbounded? k = exactBinary? op a b :=
  (evaluate_binary id hx hy).trans Option.map_id'

/-- What has a value has it from the values of its parts. -/
theorem IsArithmetic.value?_of_mem_parts (he : IsArithmetic e) (hn : e.value? iota = some n) :
    ∀ part ∈ e.parts, ∃ m, part.value? iota = some m := by
  induction he generalizing n with
  | literal _ => exact forall_mem_singleton.mpr ⟨n, hn⟩
  | iota _ => exact forall_mem_singleton.mpr ⟨n, hn⟩
  | paren _ ih => exact forall_parts_paren.mpr ⟨⟨n, hn⟩, ih (value?_paren ▸ hn)⟩
  | unary _ _ ih =>
    obtain ⟨a, ha, -⟩ := value?_unary_eq_some_iff.mp hn
    exact forall_parts_unary.mpr ⟨⟨n, hn⟩, ih ha⟩
  | binary _ _ _ ihx ihy =>
    obtain ⟨a, ha, b, hb, -⟩ := value?_binary_eq_some_iff.mp hn
    exact forall_parts_binary.mpr ⟨⟨n, hn⟩, ihx ha, ihy hb⟩

/-- Values are those of an evaluation that wraps the result of every operator. -/
theorem IsArithmetic.evaluate_wrap (he : IsArithmetic e) (hn : e.value? iota = some n) :
    e.evaluate wrap iota.toInt = some n.toInt := by
  induction he generalizing n with
  | literal hl => exact (value?_literal wrap hl).mp hn
  | iota hid => exact (value?_iota wrap hid).mp hn
  | paren _ ih =>
    rw [value?_paren] at hn
    exact ih hn
  | unary _ _ ih =>
    obtain ⟨a, ha, hop⟩ := value?_unary_eq_some_iff.mp hn
    obtain ⟨z, hz, hwrap⟩ := unaryValue?_eq_some_iff.mp hop
    rw [evaluate_unary wrap (ih ha), hz, hwrap, Option.map_some]
  | binary _ _ _ ihx ihy =>
    obtain ⟨a, ha, b, hb, hop⟩ := value?_binary_eq_some_iff.mp hn
    obtain ⟨⟨z, hz, hwrap⟩, -⟩ := binaryValue?_eq_some_iff.mp hop
    rw [evaluate_binary wrap (ihx ha) (ihy hb), hz, hwrap, Option.map_some]

/-- Results that fit are kept, so nothing is lost where every exact value fits. -/
theorem IsArithmetic.unbounded?_of_fits (he : IsArithmetic e) (hn : e.value? iota = some n)
    (hfits : ∀ part ∈ e.parts, ∀ z ∈ part.unbounded? iota.toInt, Fits z) :
    ∀ part ∈ e.parts, part.unbounded? iota.toInt = (part.value? iota).map Int64.toInt := by
  induction he generalizing n with
  | literal hl =>
    refine forall_mem_singleton.mpr ?_
    rw [hn]
    exact (value?_literal id hl).mp hn
  | iota hid =>
    refine forall_mem_singleton.mpr ?_
    rw [hn]
    exact (value?_iota id hid).mp hn
  | @paren place x _ ih =>
    rw [value?_paren] at hn
    have hparts := ih hn (forall_parts_paren.mp hfits).2
    exact forall_parts_paren.mpr ⟨hparts x x.self_mem_parts, hparts⟩
  | @unary place op x _ _ ih =>
    rw [forall_parts_unary] at hfits ⊢
    obtain ⟨a, ha, hop⟩ := value?_unary_eq_some_iff.mp hn
    obtain ⟨z, hz, hwrap⟩ := unaryValue?_eq_some_iff.mp hop
    have hparts := ih ha hfits.2
    have hx := hparts x x.self_mem_parts
    rw [ha] at hx
    have hexact := (unbounded?_unary place hx).trans hz
    refine ⟨?_, hparts⟩
    rw [hexact, hn, Option.map_some, hwrap, wrap_of_fits (hfits.1 z hexact)]
  | @binary x op y _ _ _ ihx ihy =>
    rw [forall_parts_binary] at hfits ⊢
    obtain ⟨a, ha, b, hb, hop⟩ := value?_binary_eq_some_iff.mp hn
    obtain ⟨⟨z, hz, hwrap⟩, -⟩ := binaryValue?_eq_some_iff.mp hop
    -- both operands are exact, so the exact result is that of the words before it is wrapped
    have hpartsx := ihx ha hfits.2.1
    have hpartsy := ihy hb hfits.2.2
    have hx := hpartsx x x.self_mem_parts
    have hy := hpartsy y y.self_mem_parts
    rw [ha] at hx
    rw [hb] at hy
    have hexact := (unbounded?_binary hx hy).trans hz
    refine ⟨?_, hpartsx, hpartsy⟩
    rw [hexact, hn, Option.map_some, hwrap, wrap_of_fits (hfits.1 z hexact)]

/-- Nothing is refused where every exact value fits and no shift goes past the word. -/
theorem IsArithmetic.value?_of_fits (he : IsArithmetic e)
    (hfits : ∀ part ∈ e.parts, ∃ z ∈ part.unbounded? iota.toInt, Fits z)
    (hdistance : ∀ part ∈ e.parts, ∀ y ∈ part.distance?, ∀ z ∈ y.unbounded? iota.toInt, z ≤ 63) :
    ∃ n, e.value? iota = some n ∧ e.unbounded? iota.toInt = some n.toInt := by
  induction he with
  | literal hl =>
    obtain ⟨z, hz, hfit⟩ := hfits _ (Expr.self_mem_parts _)
    obtain ⟨n, rfl⟩ := exists_toInt_eq hfit
    exact ⟨n, (value?_literal id hl).mpr hz, hz⟩
  | iota hid =>
    obtain ⟨z, hz, hfit⟩ := hfits _ (Expr.self_mem_parts _)
    obtain ⟨n, rfl⟩ := exists_toInt_eq hfit
    exact ⟨n, (value?_iota id hid).mpr hz, hz⟩
  | paren _ ih =>
    rw [forall_parts_paren] at hfits hdistance
    obtain ⟨n, hn, hexact⟩ := ih hfits.2 hdistance.2
    exact ⟨n, value?_paren.trans hn, hexact⟩
  | unary _ _ ih =>
    rw [forall_parts_unary] at hfits hdistance
    obtain ⟨a, ha, hx⟩ := ih hfits.2 hdistance.2
    obtain ⟨z, hz, hfit⟩ := hfits.1
    obtain ⟨n, rfl⟩ := exists_toInt_eq hfit
    have hop := (unbounded?_unary _ hx).symm.trans hz
    refine ⟨n, value?_unary_eq_some_iff.mpr ⟨a, ha, ?_⟩, hz⟩
    exact unaryValue?_eq_some_iff.mpr ⟨_, hop, toInt_eq_wrap rfl⟩
  | @binary x op y _ _ _ ihx ihy =>
    rw [forall_parts_binary] at hfits hdistance
    obtain ⟨a, ha, hx⟩ := ihx hfits.2.1 hdistance.2.1
    obtain ⟨b, hb, hy⟩ := ihy hfits.2.2 hdistance.2.2
    obtain ⟨z, hz, hfit⟩ := hfits.1
    obtain ⟨n, rfl⟩ := exists_toInt_eq hfit
    have hop := (unbounded?_binary hx hy).symm.trans hz
    have hnear : op ∈ ["<<", ">>"] → b.toInt ≤ 63 := by
      intro hshift
      exact hdistance.1 y (if_pos hshift) b.toInt hy
    refine ⟨n, value?_binary_eq_some_iff.mpr ⟨a, ha, b, hb, ?_⟩, hz⟩
    exact binaryValue?_eq_some_iff.mpr ⟨⟨_, hop, toInt_eq_wrap rfl⟩, hnear⟩

/-- Of an expression that has a value, the values of all parts are exact just when the exact ones
fit, and otherwise each operator's result is wrapped. What fits throughout has a value, unless it
shifts past the word. -/
theorem constants_exact_iff (he : IsArithmetic e) (iota : Int64) :
    (∀ n, e.value? iota = some n →
      e.evaluate wrap iota.toInt = some n.toInt ∧
      ((∀ part ∈ e.parts, part.unbounded? iota.toInt = (part.value? iota).map Int64.toInt) ↔
        ∀ part ∈ e.parts, ∀ z ∈ part.unbounded? iota.toInt, Fits z)) ∧
    ((∀ part ∈ e.parts, ∃ z ∈ part.unbounded? iota.toInt, Fits z) →
      (∀ part ∈ e.parts, ∀ y ∈ part.distance?, ∀ z ∈ y.unbounded? iota.toInt, z ≤ 63) →
      ∃ n, e.value? iota = some n ∧ e.unbounded? iota.toInt = some n.toInt) := by
  refine ⟨fun n hn => ⟨he.evaluate_wrap hn, fun hexact part hpart z hz => ?_, ?_⟩, ?_⟩
  · obtain ⟨m, hm⟩ := he.value?_of_mem_parts hn part hpart
    rw [hexact part hpart, hm] at hz
    obtain rfl := Option.some.inj hz
    exact fits_toInt m
  · exact he.unbounded?_of_fits hn
  · exact he.value?_of_fits

end Expressions

/-- A bit for each value and two below them all: `1 << (iota + 2) | 3`. -/
def flagBits : Expr :=
  .binary
    (.binary (.literal ⟨⟨1, 1⟩, .integer, "1"⟩) "<<"
      (.paren ⟨1, 1⟩
        (.binary (.identifier ⟨⟨1, 1⟩, "iota"⟩) "+" (.literal ⟨⟨1, 1⟩, .integer, "2"⟩))))
    "|" (.literal ⟨⟨1, 1⟩, .integer, "3"⟩)

/-- The flag at 3 has the bits 32, 2 and 1. -/
theorem flagBits_exact :
    IsArithmetic flagBits ∧ flagBits.value? 3 = some 35 ∧ flagBits.unbounded? 3 = some 35 := by
  have hshift : IsArithmetic
      (.binary (.identifier ⟨⟨1, 1⟩, "iota"⟩) "+" (.literal ⟨⟨1, 1⟩, .integer, "2"⟩)) :=
    .binary (by simp) (.iota rfl) (.literal rfl)
  have he : IsArithmetic flagBits :=
    .binary (by simp) (.binary (by simp) (.literal rfl) (.paren hshift)) (.literal rfl)
  have hvalue : flagBits.value? 3 = some 35 := by decide
  obtain ⟨-, hexact⟩ := (constants_exact_iff he 3).1 35 hvalue
  have hself := hexact.mpr (by decide) flagBits flagBits.self_mem_parts
  rw [hvalue] at hself
  exact ⟨he, hvalue, hself⟩

/-- The largest word and one more: `9223372036854775807 + 1`. -/
def pastLargest : Expr :=
  .binary (.literal ⟨⟨1, 1⟩, .integer, "9223372036854775807"⟩) "+"
    (.literal ⟨⟨1, 1⟩, .integer, "1"⟩)

/-- A sum that does not fit is the smallest word, and is not refused. -/
theorem pastLargest_wrapped :
    IsArithmetic pastLargest ∧ pastLargest.unbounded? 0 = some (2 ^ 63) ∧ ¬ Fits (2 ^ 63) ∧
      pastLargest.value? 0 = some Int64.minValue := by
  refine ⟨.binary (by simp) (.literal rfl) (.literal rfl), ?_, ?_, ?_⟩
  · decide
  · decide
  · decide

end Schemata.GoSyntax
