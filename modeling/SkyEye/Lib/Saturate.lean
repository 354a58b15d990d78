import Mathlib.Tactic.Common
import SkyEye.Lib.Word

/-!
# Saturation

A number clamped to the range of the signed words of a width, and whether it had to be.
For a sum or a difference of two words both are read off the top bits, as long as the
word wraps round at most once.
-/

namespace Saturate

variable {w : Nat}

/-- The number of the range that is nearest. -/
def clamp (w : Nat) (n : Int) : Int := max (-2 ^ (w - 1)) (min n (2 ^ (w - 1) - 1))

/-- The number does not fit. -/
def overflows (w : Nat) (n : Int) : Bool := decide (clamp w n ≠ n)

def saturate (w : Nat) (n : Int) : BitVec w := BitVec.ofInt w (clamp w n)

theorem overflows_iff (n : Int) :
    overflows w n = true ↔ n < -2 ^ (w - 1) ∨ 2 ^ (w - 1) ≤ n := by
  have hpos : (0 : Int) < 2 ^ (w - 1) := Int.pow_pos (by omega)
  rw [overflows, decide_eq_true_eq, clamp]
  omega

theorem two_pow_pred (hw : 0 < w) : (2 : Int) ^ w = 2 * 2 ^ (w - 1) := by
  rw [← Int.pow_succ', Nat.sub_add_cancel hw]

/-- The sign of a word that has wrapped round once at most: it is not the number's sign exactly
if the number does not fit. -/
theorem msb_ofInt (hw : 0 < w) {n : Int} (hlo : -2 ^ w ≤ n) (hhi : n < 2 ^ w) :
    (BitVec.ofInt w n).msb = (decide (n < 0) ^^ overflows w n) := by
  have h2 := two_pow_pred hw
  have hpos : (0 : Int) < 2 ^ (w - 1) := Int.pow_pos (by omega)
  have hcast : ((2 ^ w : Nat) : Int) = 2 ^ w := by norm_cast
  have ho := overflows_iff (w := w) n
  rw [BitVec.msb_eq_toInt, BitVec.toInt_ofInt, Int.bmod_def, hcast]
  have hmod : n % 2 ^ w = if n < 0 then n + 2 ^ w else n := by
    split
    · rw [← Int.add_emod_right, Int.emod_eq_of_lt (by omega) (by omega)]
    · exact Int.emod_eq_of_lt (by omega) hhi
  rw [hmod]
  cases hc : overflows w n with
  | true =>
    have := ho.mp hc
    rw [Bool.xor_true]
    by_cases hn : n < 0
    · rw [if_pos hn, decide_eq_true hn]
      simp only [decide_eq_false_iff_not, Bool.not_true]
      split <;> omega
    · rw [if_neg hn, decide_eq_false hn]
      simp only [decide_eq_true_eq, Bool.not_false]
      split <;> omega
  | false =>
    have := mt ho.mpr (by rw [hc]; decide)
    rw [Bool.xor_false]
    by_cases hn : n < 0
    · rw [if_pos hn, decide_eq_true hn]
      simp only [decide_eq_true_eq]
      split <;> omega
    · rw [if_neg hn, decide_eq_false hn]
      simp only [decide_eq_false_iff_not]
      split <;> omega

theorem intMax_eq (w : Nat) : BitVec.intMax w = BitVec.ofInt w (2 ^ (w - 1) - 1) := by
  rw [← BitVec.toInt_intMax, BitVec.ofInt_toInt]

/-- A number that does not fit is the bound on the side that the wrapped word is not on. -/
theorem saturate_eq (hw : 0 < w) {n : Int} (hlo : -2 ^ w ≤ n) (hhi : n < 2 ^ w) :
    saturate w n = if overflows w n then
        if (BitVec.ofInt w n).msb then BitVec.intMax w else BitVec.intMin w
      else BitVec.ofInt w n := by
  have ho := overflows_iff (w := w) n
  have hpos : (0 : Int) < 2 ^ (w - 1) := Int.pow_pos (by omega)
  rw [msb_ofInt hw hlo hhi, saturate]
  cases hc : overflows w n with
  | false =>
    rw [if_neg Bool.false_ne_true]
    exact congrArg _ (by simpa [overflows] using hc)
  | true =>
    have hn := ho.mp hc
    rw [if_pos rfl, Bool.xor_true]
    by_cases h : n < 0
    · rw [decide_eq_true h, BitVec.intMin_eq_neg_two_pow]
      exact congrArg _ (show clamp w n = _ by rw [clamp]; omega)
    · rw [decide_eq_false h, intMax_eq]
      exact congrArg _ (show clamp w n = _ by rw [clamp]; omega)

/-- A number of the range is the word's. -/
theorem toInt_ofInt (hw : 0 < w) {n : Int} (hlo : -2 ^ (w - 1) ≤ n) (hhi : n < 2 ^ (w - 1)) :
    (BitVec.ofInt w n).toInt = n := by
  have h2 := two_pow_pred hw
  have hcast : ((2 ^ w : Nat) : Int) = 2 ^ w := by norm_cast
  rw [BitVec.toInt_ofInt]
  exact Int.bmod_eq_of_le_mul_two (by omega) (by omega)

theorem toInt_saturate (hw : 0 < w) (n : Int) : (saturate w n).toInt = clamp w n := by
  have hpos : (0 : Int) < 2 ^ (w - 1) := Int.pow_pos (by omega)
  exact toInt_ofInt hw (by rw [clamp]; omega) (by rw [clamp]; omega)

end Saturate
