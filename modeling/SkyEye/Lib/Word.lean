import Mathlib.Algebra.Group.Int.Defs
import Mathlib.Algebra.GroupWithZero.Nat
import Mathlib.Logic.Function.Basic
import Mathlib.Tactic.Common

/-!
# Sizes

Register files, caches, buffers and TLBs have sizes that are literals, and an index into one is
below its size. That the sizes are not 0 is said here, once for each of them.
-/

namespace Sizes

instance neZero_two : NeZero 2 := ⟨by decide⟩
instance neZero_three : NeZero 3 := ⟨by decide⟩
instance neZero_four : NeZero 4 := ⟨by decide⟩
instance neZero_eight : NeZero 8 := ⟨by decide⟩
instance neZero_sixteen : NeZero 16 := ⟨by decide⟩
instance neZero_thirtyTwo : NeZero 32 := ⟨by decide⟩

theorem pos_two : 0 < 2 := by decide
theorem pos_four : 0 < 4 := by decide
theorem pos_eight : 0 < 8 := by decide
theorem pos_sixteen : 0 < 16 := by decide
theorem pos_thirtyTwo : 0 < 32 := by decide
theorem pos_sixtyFour : 0 < 64 := by decide
theorem pos_oneTwentyEight : 0 < 128 := by decide

end Sizes

/-!
## Masks of machine words as arithmetic

Clearing the low `k` bits of a word rounds it down to a multiple of `2 ^ k`, keeping
them takes it modulo `2 ^ k`. Address computations go through these two facts and
`omega`.
-/

namespace Word

variable {w : Nat}

theorem and_allOnes_shiftLeft (x : BitVec w) (k : Nat) :
    x &&& (BitVec.allOnes w <<< k) = (x >>> k) <<< k := by
  apply BitVec.eq_of_getLsbD_eq
  intro i hi
  simp only [BitVec.getLsbD_and, BitVec.getLsbD_shiftLeft, BitVec.getLsbD_ushiftRight,
    BitVec.getLsbD_allOnes]
  by_cases h : i < k
  · simp [h]
  · have hk : k + (i - k) = i := by omega
    have hl : i - k < w := by omega
    simp [h, hk, hi, hl]

theorem toNat_and_high (x : BitVec w) (k : Nat) :
    (x &&& (BitVec.allOnes w <<< k)).toNat = x.toNat / 2 ^ k * 2 ^ k := by
  rw [and_allOnes_shiftLeft, BitVec.toNat_shiftLeft, BitVec.toNat_ushiftRight,
    Nat.shiftRight_eq_div_pow, Nat.shiftLeft_eq, Nat.mod_eq_of_lt]
  exact Nat.lt_of_le_of_lt (Nat.div_mul_le_self _ _) x.isLt

theorem toNat_and_low (x : BitVec w) (k : Nat) (hk : k ≤ w) :
    (x &&& BitVec.ofNat w (2 ^ k - 1)).toNat = x.toNat % 2 ^ k := by
  have h1 : 2 ^ k ≤ 2 ^ w := Nat.pow_le_pow_right (by omega) hk
  have h0 : 0 < 2 ^ k := Nat.two_pow_pos k
  rw [BitVec.toNat_and, BitVec.toNat_ofNat, Nat.mod_eq_of_lt (by omega),
    Nat.and_two_pow_sub_one_eq_mod]

theorem toNat_and_low_lt (x : BitVec w) (k : Nat) (hk : k ≤ w) :
    (x &&& BitVec.ofNat w (2 ^ k - 1)).toNat < 2 ^ k := by
  rw [toNat_and_low x k hk]
  exact Nat.mod_lt _ (Nat.two_pow_pos k)

/-- A mask of one bit finds that bit. -/
theorem and_twoPow_bne (x : BitVec w) (k : Nat) : (x &&& BitVec.twoPow w k != 0) = x.getLsbD k := by
  rw [BitVec.and_twoPow]
  cases hb : x.getLsbD k with
  | false => simp
  | true =>
    have hk : k < w := BitVec.lt_of_getLsbD hb
    rw [if_pos rfl, bne_iff_ne]
    intro h
    have hbit := congrArg (·.getLsbD k) h
    simp [hk] at hbit

/-- The low two bits, as cases. -/
theorem and_three_cases (d : BitVec 32) :
    d &&& 3 = 0 ∨ d &&& 3 = 1 ∨ d &&& 3 = 2 ∨ d &&& 3 = 3 := by
  have h : (d &&& 3).toNat = d.toNat % 4 := toNat_and_low d 2 (by decide)
  generalize d &&& 3 = y at h
  bv_omega

theorem and_two_eq (d : BitVec 32) : d &&& 2 = d &&& 3 &&& 2 := by
  rw [BitVec.and_assoc]
  rfl

theorem or_eq_left_iff (a b : BitVec w) : a ||| b = a ↔ a &&& b = b := by
  simp only [BitVec.eq_of_getLsbD_eq_iff, BitVec.getLsbD_or, BitVec.getLsbD_and]
  refine forall_congr' fun i => forall_congr' fun _ => ?_
  cases a.getLsbD i <;> cases b.getLsbD i <;> decide

theorem or_and_right (a b : BitVec w) : (a ||| b) &&& b = b := by
  apply BitVec.eq_of_getLsbD_eq
  intro i _
  rw [BitVec.getLsbD_and, BitVec.getLsbD_or]
  cases a.getLsbD i <;> cases b.getLsbD i <;> rfl

/-- Set some bits and keep some: the ones that are set stay, of the others the kept ones. -/
theorem or_and_fixed {v ones keep : BitVec w} (h : ones &&& keep = ones) :
    (v ||| ones) &&& keep = (v &&& (keep &&& ~~~ones)) ||| ones := by
  apply BitVec.eq_of_getLsbD_eq
  intro i hi
  have hi' := congrArg (·.getLsbD i) h
  simp only [BitVec.getLsbD_and] at hi'
  simp only [BitVec.getLsbD_and, BitVec.getLsbD_or, BitVec.getLsbD_not, hi, decide_true,
    Bool.true_and]
  cases v.getLsbD i <;> cases ho : ones.getLsbD i <;> simp_all

theorem or_and_idem {v ones keep : BitVec w} (h : ones &&& keep = ones) :
    ((v ||| ones) &&& keep ||| ones) &&& keep = (v ||| ones) &&& keep := by
  have ho : (v ||| ones) &&& keep ||| ones = (v ||| ones) &&& keep := by
    rw [or_eq_left_iff, BitVec.and_assoc, BitVec.and_comm keep, h, or_and_right]
  rw [ho, BitVec.and_assoc, BitVec.and_self]

theorem and_not_eq_self {a b : BitVec w} (h : a &&& b = 0#w) : a &&& ~~~b = a := by
  apply BitVec.eq_of_getLsbD_eq
  intro i hi
  have hb := congrArg (·.getLsbD i) h
  simp only [BitVec.getLsbD_and, BitVec.getLsbD_zero] at hb
  rw [BitVec.getLsbD_and, BitVec.getLsbD_not]
  cases ha : a.getLsbD i
  · rfl
  · rw [ha, Bool.true_and] at hb
    rw [hb, Bool.not_false, Bool.and_true, decide_eq_true hi, Bool.and_true]

/-- The arithmetic shift of a negative word is the logical one with the vacated bits set. -/
theorem sshiftRight_of_msb {x : BitVec w} (hx : x.msb = true) (n : Nat) :
    x.sshiftRight n = ~~~(BitVec.allOnes w >>> n) ||| x >>> n := by
  rw [BitVec.sshiftRight_eq_of_msb_true hx]
  apply BitVec.eq_of_getLsbD_eq
  intro i hi
  simp only [BitVec.getLsbD_or, BitVec.getLsbD_not, BitVec.getLsbD_ushiftRight,
    BitVec.getLsbD_allOnes, hi, decide_true, Bool.true_and]
  by_cases h : n + i < w
  · simp [h]
  · simp [h]

theorem not_or_self (x : BitVec w) : ~~~x ||| x = BitVec.allOnes w := by
  apply BitVec.eq_of_getLsbD_eq
  intro i hi
  simp [hi]

/-- Two words beside each other. -/
theorem toNat_append {v : Nat} (x : BitVec v) (y : BitVec w) :
    (x ++ y).toNat = x.toNat * 2 ^ w + y.toNat := by
  rw [BitVec.toNat_append, ← Nat.shiftLeft_add_eq_or_of_lt y.isLt, Nat.shiftLeft_eq]

/-- The negation of the bit `k` of a word repeats it upwards. -/
theorem getLsbD_or_neg_twoPow (x : BitVec w) {k i : Nat} (hk : k < w) (hi : i < w) :
    (x ||| -(x &&& BitVec.twoPow w k)).getLsbD i =
      (x.getLsbD i || (x.getLsbD k && decide (k ≤ i))) := by
  rw [BitVec.getLsbD_or, BitVec.and_twoPow]
  cases hb : x.getLsbD k with
  | false => simp
  | true =>
    rw [if_pos rfl, BitVec.getLsbD_neg]
    congr 1
    rcases Nat.lt_trichotomy i k with h | rfl | h
    · simp [BitVec.getLsbD_twoPow, show ¬k ≤ i by omega, show k ≠ i by omega]
      omega
    · simp [BitVec.getLsbD_twoPow, hi]
    · simp [BitVec.getLsbD_twoPow, hi, hk, show k ≤ i by omega]
      omega

end Word
