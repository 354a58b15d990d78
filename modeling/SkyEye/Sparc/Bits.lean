import Mathlib.Tactic.Common
import SkyEye.Lib.Word

/-!
# Bit fields

The macros of `bits.h` on 32-bit words, with what each does to a single bit.
-/

namespace SkyEye.Sparc

abbrev Uint32 := BitVec 32

/-- `bitsmask(n, m)`: ones from bit `m` up to bit `n`. -/
def bitsmask (n m : Nat) : Uint32 := BitVec.allOnes 32 >>> m <<< (31 - n + m) >>> (31 - n)

/-- `bits(x, n, m)`: the field of `x` from bit `m` up to bit `n`. -/
def bits (x : Uint32) (n m : Nat) : Uint32 := x <<< (31 - n) >>> (31 - n + m)

/-- `bit(x, n)` -/
def bit (x : Uint32) (n : Nat) : Bool := x.getLsbD n

/-- `set_bit(x, b)` -/
def setBit (x : Uint32) (b : Nat) : Uint32 := x ||| bitsmask b b

/-- `clear_bits(x, n, m)` -/
def clearBits (x : Uint32) (n m : Nat) : Uint32 := x &&& ~~~bitsmask n m

/-- `clear_bit(x, b)` -/
def clearBit (x : Uint32) (b : Nat) : Uint32 := clearBits x b b

/-- `sign_ext13(x)` -/
def signExt13 (x : BitVec 13) : Uint32 := x.signExtend 32

theorem getLsbD_bitsmask {n m : Nat} (hn : n < 32) (hm : m ≤ n) (i : Nat) :
    (bitsmask n m).getLsbD i = (decide (m ≤ i) && decide (i ≤ n)) := by
  unfold bitsmask
  simp only [BitVec.getLsbD_ushiftRight, BitVec.getLsbD_shiftLeft, BitVec.getLsbD_allOnes]
  by_cases h1 : m ≤ i <;> by_cases h2 : i ≤ n <;> simp [h1, h2] <;> omega

theorem getLsbD_bits {n m : Nat} (hn : n < 32) (hm : m ≤ n) (x : Uint32) (i : Nat) :
    (bits x n m).getLsbD i = (decide (m + i ≤ n) && x.getLsbD (m + i)) := by
  unfold bits
  simp only [BitVec.getLsbD_ushiftRight, BitVec.getLsbD_shiftLeft]
  by_cases h : m + i ≤ n
  · have h1 : 31 - n + m + i < 32 := by omega
    have h2 : ¬31 - n + m + i < 31 - n := by omega
    have h3 : 31 - n + m + i - (31 - n) = m + i := by omega
    simp [h, h1, h2, h3]
  · have h1 : ¬31 - n + m + i < 32 := by omega
    simp [h, h1]

/-- A field as a number. -/
theorem toNat_bits {n m : Nat} (hn : n < 32) (hm : m ≤ n) (x : Uint32) :
    (bits x n m).toNat = x.toNat / 2 ^ m % 2 ^ (n + 1 - m) := by
  apply Nat.eq_of_testBit_eq
  intro i
  have hb : (bits x n m).toNat.testBit i = _ := getLsbD_bits hn hm x i
  have hi : m + i ≤ n ↔ i < n + 1 - m := by omega
  rw [hb, Nat.testBit_mod_two_pow, Nat.testBit_div_two_pow, Nat.add_comm i m]
  simp only [hi]
  rfl

theorem toNat_low_bits {n : Nat} (hn : n < 32) (x : Uint32) :
    (bits x n 0).toNat = x.toNat % 2 ^ (n + 1) := by
  have h := toNat_bits hn (Nat.zero_le n) x
  rwa [Nat.pow_zero, Nat.div_one, Nat.sub_zero] at h

theorem bit_setBit {b : Nat} (hb : b < 32) (x : Uint32) (i : Nat) :
    bit (setBit x b) i = (bit x i || decide (i = b)) := by
  unfold bit setBit
  rw [BitVec.getLsbD_or, getLsbD_bitsmask hb (Nat.le_refl b)]
  by_cases h : i = b
  · simp [h]
  · have hbi : ¬(b ≤ i ∧ i ≤ b) := by omega
    simp only [h, decide_false, Bool.or_false, ← Bool.decide_and, hbi]

theorem bit_clearBits {n m : Nat} (hn : n < 32) (hm : m ≤ n) (x : Uint32) (i : Nat) :
    bit (clearBits x n m) i = (bit x i && !(decide (m ≤ i) && decide (i ≤ n))) := by
  unfold bit clearBits
  rw [BitVec.getLsbD_and, BitVec.getLsbD_not, getLsbD_bitsmask hn hm]
  by_cases h : i < 32
  · simp [h]
  · simp [BitVec.getLsbD_of_ge x i (by omega)]

theorem bit_clearBit {b : Nat} (hb : b < 32) (x : Uint32) (i : Nat) :
    bit (clearBit x b) i = (bit x i && !decide (i = b)) := by
  unfold clearBit
  rw [bit_clearBits hb (Nat.le_refl b)]
  by_cases h : i = b
  · simp [h]
  · have hbi : ¬(b ≤ i ∧ i ≤ b) := by omega
    simp only [h, decide_false, ← Bool.decide_and, hbi]

/-- A field is read bit by bit. -/
theorem bits_congr {n m : Nat} (hn : n < 32) (hm : m ≤ n) {x y : Uint32}
    (h : ∀ i, m ≤ i → i ≤ n → bit x i = bit y i) : bits x n m = bits y n m := by
  apply BitVec.eq_of_getLsbD_eq
  intro i _
  rw [getLsbD_bits hn hm, getLsbD_bits hn hm]
  by_cases hi : m + i ≤ n
  · have hb := h (m + i) (by omega) hi
    unfold bit at hb
    rw [hb]
  · simp [hi]

theorem bit_or (x y : Uint32) (i : Nat) : bit (x ||| y) i = (bit x i || bit y i) :=
  BitVec.getLsbD_or

theorem bit_of_toNat_lt {x : Uint32} {i : Nat} (h : x.toNat < 2 ^ i) : bit x i = false :=
  Nat.testBit_lt_two_pow h

/-- A field at bit 0 that is cleared and then set. -/
theorem bits_clearBits_or {n : Nat} (hn : n < 32) (x : Uint32) {v : Uint32}
    (hv : v.toNat < 2 ^ (n + 1)) : bits (clearBits x n 0 ||| v) n 0 = v := by
  apply BitVec.eq_of_getLsbD_eq
  intro i _
  rw [getLsbD_bits hn (Nat.zero_le n), Nat.zero_add]
  change (decide (i ≤ n) && bit (clearBits x n 0 ||| v) i) = bit v i
  rw [bit_or, bit_clearBits hn (Nat.zero_le n)]
  by_cases hi : i ≤ n
  · simp [hi]
  · have hlt : v.toNat < 2 ^ i := Nat.lt_of_lt_of_le hv (Nat.pow_le_pow_right (by omega) (by omega))
    simp [hi, bit_of_toNat_lt hlt]

end SkyEye.Sparc
