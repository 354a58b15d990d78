import Mathlib.Tactic.Common
import Mathlib.Algebra.Order.Ring.Int
import Mathlib.Tactic.LinearCombination
import Mathlib.Tactic.Positivity
import Mathlib.Tactic.Ring
import Mathlib.Logic.Function.Iterate
import SkyEye.Lib.Word

/-!
# Addition with a carry

The sum of two words and a carry bit, with the carry out and the signed overflow: the
result differs from the sum of the unsigned, or of the signed, values. Both are read off
the top bits of the operands and of the result.
-/

namespace AddWithCarry

variable {w : Nat}

/-- The result. -/
def sum (x y : BitVec w) (c : Bool) : BitVec w := x + y + if c then 1 else 0

/-- The carry out: the unsigned sum does not fit. -/
def carry (x y : BitVec w) (c : Bool) : Bool :=
  decide ((sum x y c).toNat ≠ x.toNat + y.toNat + c.toNat)

/-- The overflow: the signed sum does not fit. -/
def overflow (x y : BitVec w) (c : Bool) : Bool :=
  decide ((sum x y c).toInt ≠ x.toInt + y.toInt + c.toNat)

theorem toNat_sum (x y : BitVec w) (c : Bool) :
    (sum x y c).toNat = (x.toNat + y.toNat + c.toNat) % 2 ^ w := by
  cases c <;> simp [sum, BitVec.toNat_add]

/-- The result is the unsigned sum, less `2 ^ w` if that does not fit. -/
theorem toNat_sum_cases (x y : BitVec w) (c : Bool) :
    let n := x.toNat + y.toNat + c.toNat
    (sum x y c).toNat = if n < 2 ^ w then n else n - 2 ^ w := by
  intro n
  have hx := x.isLt
  have hy := y.isLt
  have hc : c.toNat ≤ 1 := c.toNat_le
  rw [toNat_sum]
  split
  · exact Nat.mod_eq_of_lt ‹_›
  · rw [Nat.mod_eq_sub_mod (by omega), Nat.mod_eq_of_lt (by omega)]

theorem carry_eq_true_iff (x y : BitVec w) (c : Bool) :
    carry x y c = true ↔ 2 ^ w ≤ x.toNat + y.toNat + c.toNat := by
  have h := toNat_sum_cases x y c
  have hw : 0 < 2 ^ w := Nat.two_pow_pos w
  simp only at h
  rw [carry, decide_eq_true_eq, h]
  split <;> omega

theorem carry_eq_msb (x y : BitVec w) (c : Bool) (hw : 0 < w) :
    carry x y c = (x.msb && y.msb || x.msb && !(sum x y c).msb || y.msb && !(sum x y c).msb) := by
  have h := toNat_sum_cases x y c
  have hx := x.isLt
  have hy := y.isLt
  have hc : c.toNat ≤ 1 := c.toNat_le
  have h2 : 2 ^ (w - 1) * 2 = 2 ^ w := Nat.two_pow_pred_mul_two hw
  rw [Bool.eq_iff_iff, carry_eq_true_iff]
  simp only [BitVec.msb_eq_decide, Bool.or_eq_true, Bool.and_eq_true, decide_eq_true_eq,
    Bool.not_eq_true', decide_eq_false_iff_not, Nat.not_le]
  simp only at h
  split at h <;> omega

/-- The overflow by the top bits. -/
theorem overflow_eq_msb (x y : BitVec w) (c : Bool) (hw : 0 < w) :
    overflow x y c =
      (x.msb && y.msb && !(sum x y c).msb || !x.msb && !y.msb && (sum x y c).msb) := by
  have h := toNat_sum_cases x y c
  have hx := x.isLt
  have hy := y.isLt
  have hc : c.toNat ≤ 1 := c.toNat_le
  have h2 : 2 ^ (w - 1) * 2 = 2 ^ w := Nat.two_pow_pred_mul_two hw
  rw [overflow, Bool.eq_iff_iff]
  simp only [BitVec.toInt_eq_toNat_cond, BitVec.msb_eq_decide, Bool.or_eq_true, Bool.and_eq_true,
    decide_eq_true_eq, Bool.not_eq_true', decide_eq_false_iff_not, Nat.not_le]
  simp only at h
  split at h <;> split <;> split <;> split <;> omega

theorem sum_not (x y : BitVec w) (c : Bool) :
    sum x (~~~y) c = x - y - if c then 0 else 1 := by
  rw [sum, BitVec.not_eq_neg_add, BitVec.sub_eq_add_neg x y]
  cases c with
  | true =>
    show x + (-y - 1#w) + 1#w = x + -y - 0#w
    rw [BitVec.sub_zero, BitVec.add_assoc, BitVec.sub_add_cancel]
  | false =>
    show x + (-y - 1#w) + 0#w = x + -y - 1#w
    rw [BitVec.add_zero, BitVec.sub_eq_add_neg (-y), BitVec.sub_eq_add_neg (x + -y),
      BitVec.add_assoc]

end AddWithCarry

/-!
## Subtraction with a borrow

The difference of two words and a borrow bit, with the borrow out and the signed overflow:
the result differs from the difference of the unsigned, or of the signed, values. Both are
read off the top bits of the operands and of the result. The comparisons of the operands
are read off the flags of a subtraction without borrow.
-/

namespace SubWithBorrow

variable {w : Nat}

/-- The result. -/
def diff (x y : BitVec w) (b : Bool) : BitVec w := x - y - if b then 1 else 0

/-- The borrow out: the unsigned difference is negative. -/
def borrow (x y : BitVec w) (b : Bool) : Bool := decide (x.toNat < y.toNat + b.toNat)

/-- The overflow: the signed difference does not fit. -/
def overflow (x y : BitVec w) (b : Bool) : Bool :=
  decide ((diff x y b).toInt ≠ x.toInt - y.toInt - b.toNat)

@[simp] theorem diff_false (x y : BitVec w) : diff x y false = x - y := by
  simp [diff]

/-- The result is the unsigned difference, and `2 ^ w` if that is negative. -/
theorem toNat_diff_cases (x y : BitVec w) (b : Bool) (hw : 0 < w) :
    (diff x y b).toNat =
      if x.toNat < y.toNat + b.toNat then 2 ^ w + x.toNat - (y.toNat + b.toNat)
      else x.toNat - (y.toNat + b.toNat) := by
  have hx := x.isLt
  have hy := y.isLt
  have hb : b.toNat ≤ 1 := b.toNat_le
  have h2 : 2 ≤ 2 ^ w := Nat.le_self_pow (by omega) 2
  have hd : (diff x y b).toNat = (2 ^ w - b.toNat % 2 ^ w + (2 ^ w - y.toNat + x.toNat) % 2 ^ w)
      % 2 ^ w := by
    cases b <;> simp [diff, BitVec.toNat_sub]
  rw [hd, Nat.mod_eq_of_lt (show b.toNat < 2 ^ w by omega)]
  by_cases hxy : x.toNat < y.toNat
  · rw [Nat.mod_eq_of_lt (show 2 ^ w - y.toNat + x.toNat < 2 ^ w by omega), if_pos (by omega)]
    by_cases hb0 : b.toNat = 0
    · rw [hb0, Nat.sub_zero, Nat.add_mod_left, Nat.mod_eq_of_lt (by omega)]
      omega
    · rw [Nat.mod_eq_sub_mod (by omega), Nat.mod_eq_of_lt (by omega)]
      omega
  · rw [Nat.mod_eq_sub_mod (show 2 ^ w ≤ 2 ^ w - y.toNat + x.toNat by omega),
      Nat.mod_eq_of_lt (show 2 ^ w - y.toNat + x.toNat - 2 ^ w < 2 ^ w by omega)]
    split
    · rw [Nat.mod_eq_of_lt (by omega)]
      omega
    · rw [Nat.mod_eq_sub_mod (by omega), Nat.mod_eq_of_lt (by omega)]
      omega

theorem borrow_eq_msb (x y : BitVec w) (b : Bool) (hw : 0 < w) :
    borrow x y b = (!x.msb && y.msb || (diff x y b).msb && (!x.msb || y.msb)) := by
  have h := toNat_diff_cases x y b hw
  have hx := x.isLt
  have hy := y.isLt
  have hb : b.toNat ≤ 1 := b.toNat_le
  have h2 : 2 ^ (w - 1) * 2 = 2 ^ w := Nat.two_pow_pred_mul_two hw
  rw [borrow, Bool.eq_iff_iff]
  simp only [BitVec.msb_eq_decide, Bool.or_eq_true, Bool.and_eq_true, decide_eq_true_eq,
    Bool.not_eq_true', decide_eq_false_iff_not, Nat.not_le]
  split at h <;> omega

/-- The overflow by the top bits. -/
theorem overflow_eq_msb (x y : BitVec w) (b : Bool) (hw : 0 < w) :
    overflow x y b =
      (x.msb && !y.msb && !(diff x y b).msb || !x.msb && y.msb && (diff x y b).msb) := by
  have h := toNat_diff_cases x y b hw
  have hx := x.isLt
  have hy := y.isLt
  have hb : b.toNat ≤ 1 := b.toNat_le
  have h2 : 2 ^ (w - 1) * 2 = 2 ^ w := Nat.two_pow_pred_mul_two hw
  rw [overflow, Bool.eq_iff_iff]
  simp only [BitVec.toInt_eq_toNat_cond, BitVec.msb_eq_decide, Bool.or_eq_true, Bool.and_eq_true,
    decide_eq_true_eq, Bool.not_eq_true', decide_eq_false_iff_not, Nat.not_le]
  split at h <;> split <;> split <;> split <;> omega

/-! ## Comparisons -/

theorem borrow_false_eq_true_iff (x y : BitVec w) :
    borrow x y false = true ↔ x.toNat < y.toNat := by
  simp [borrow]

theorem diff_false_eq_zero_iff (x y : BitVec w) : diff x y false = 0#w ↔ x = y := by
  rw [diff_false]
  constructor
  · intro h
    rw [← BitVec.sub_add_cancel x y, h, BitVec.zero_add]
  · intro h
    rw [h, BitVec.sub_self]

/-- The sign of the result is that of the difference, except where that overflows. -/
theorem msb_xor_overflow_eq_true_iff (x y : BitVec w) (hw : 0 < w) :
    ((diff x y false).msb ^^ overflow x y false) = true ↔ x.toInt < y.toInt := by
  have h := toNat_diff_cases x y false hw
  have hx := x.isLt
  have hy := y.isLt
  have h2 : 2 ^ (w - 1) * 2 = 2 ^ w := Nat.two_pow_pred_mul_two hw
  rw [overflow_eq_msb x y false hw, bne_iff_ne, ne_eq, Bool.eq_iff_iff]
  simp only [BitVec.toInt_eq_toNat_cond, BitVec.msb_eq_decide, Bool.or_eq_true, Bool.and_eq_true,
    decide_eq_true_eq, Bool.not_eq_true', decide_eq_false_iff_not, Nat.not_le]
  simp only [Bool.toNat_false, Nat.add_zero] at h
  split at h <;> split <;> split <;> omega

end SubWithBorrow

/-!
## Multiplication by steps

An accumulator of twice the width is shifted right, and the multiplicand is added to its
upper half for each one that is shifted out. As an integer the accumulator needs no
bound: its upper half is a sum of signed words, which the result, the sign and the
overflow of the addition hold together.
-/

namespace MultiplyStep

/-- One step on the accumulator. -/
def step (w : Nat) (m z : Int) : Int := z / 2 + z % 2 * m * 2 ^ w

/-- The multiplier before its last `k` bits are used up, and the product of these bits. -/
theorem iterate_step (w : Nat) (m q : Int) {k : Nat} (hk : k ≤ w) :
    (step w m)^[k] q = q / 2 ^ k + q % 2 ^ k * m * 2 ^ (w + 1 - k) := by
  induction k with
  | zero => simp
  | succ k ih =>
    rw [Function.iterate_succ_apply', ih (by omega)]
    have hp : (2 : Int) ^ (w + 1 - k) = 2 ^ (w - k) * 2 := by
      rw [← pow_succ]
      congr 1
      omega
    have hw : (2 : Int) ^ w = 2 ^ k * 2 ^ (w - k) := by
      rw [← pow_add]
      congr 1
      omega
    have hd : q / 2 ^ (k + 1) = q / 2 ^ k / 2 := by
      rw [pow_succ, Int.ediv_ediv_of_nonneg (by positivity)]
    have hm : q % 2 ^ (k + 1) = q / 2 ^ k % 2 * 2 ^ k + q % 2 ^ k := by
      have h1 := Int.emod_add_mul_ediv q (2 ^ (k + 1))
      have h2 := Int.emod_add_mul_ediv q (2 ^ k)
      have h3 := Int.emod_add_mul_ediv (q / 2 ^ k) 2
      rw [hd] at h1
      linear_combination h1 - h2 - 2 ^ k * h3
    have he : q / 2 ^ k + q % 2 ^ k * m * 2 ^ (w + 1 - k) =
        q / 2 ^ k + q % 2 ^ k * m * 2 ^ (w - k) * 2 := by
      rw [hp]
      ring
    have hs : w + 1 - (k + 1) = w - k := by omega
    rw [step, he, Int.add_mul_ediv_right _ _ (by omega), Int.add_mul_emod_self_right, hs, hd, hm, hw]
    ring

/-- All bits of the multiplier, and a step without multiplicand. -/
theorem step_zero_iterate (w : Nat) (m : Int) {q : Int} (h0 : 0 ≤ q) (hq : q < 2 ^ w) :
    step w 0 ((step w m)^[w] q) = m * q := by
  have hs : w + 1 - w = 1 := by omega
  rw [iterate_step w m q (Nat.le_refl w), Int.ediv_eq_zero_of_lt h0 hq, Int.emod_eq_of_lt h0 hq, hs,
    step, zero_add, pow_one, Int.mul_ediv_cancel _ (by omega)]
  ring

/-- What the result of an addition and the sign of the sum stand for. -/
theorem toNat_sum_sub {w : Nat} (x y : BitVec w) (hw : 0 < w) :
    (((AddWithCarry.sum x y false).toNat : Int) -
      if (AddWithCarry.sum x y false).msb ^^ AddWithCarry.overflow x y false then 2 ^ w else 0) =
      x.toInt + y.toInt := by
  have h := AddWithCarry.toNat_sum_cases x y false
  have hx := x.isLt
  have hy := y.isLt
  have h2 : 2 ^ (w - 1) * 2 = 2 ^ w := Nat.two_pow_pred_mul_two hw
  have hc : ((2 : Int) ^ w) = ((2 ^ w : Nat) : Int) := by
    push_cast
    rfl
  rw [AddWithCarry.overflow_eq_msb x y false hw, hc]
  simp only [BitVec.toInt_eq_toNat_cond, BitVec.msb_eq_decide]
  simp only [Bool.toNat_false, Nat.add_zero] at h
  by_cases h1 : 2 ^ (w - 1) ≤ x.toNat <;> by_cases h3 : 2 ^ (w - 1) ≤ y.toNat <;>
    by_cases h4 : 2 ^ (w - 1) ≤ (AddWithCarry.sum x y false).toNat <;>
    simp only [h1, h3, h4, decide_true, decide_false, Bool.not_true, Bool.not_false, Bool.and_true,
      Bool.and_false, Bool.or_false, Bool.or_true, Bool.xor_true, Bool.xor_false, if_true,
      Bool.false_eq_true, if_false] <;>
    split at h <;> split <;> split <;> omega

end MultiplyStep
