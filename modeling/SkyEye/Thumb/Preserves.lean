import SkyEye.Arm.MmuModels
import SkyEye.Thumb.Transfers

/-!
# The decoder preserves meaning

Each instruction of the formats 1 to 4 and 6 to 13 is decoded to a word that has its effect
under the main switch.
-/

namespace SkyEye

open Thumb ThumbFormat

variable {U : Type} {ops : MmuOps U} {s : State U} {pc tinstr : ARMword} {h : BitVec 16}

/-- The half of a fetched word that is decoded. -/
def State.thumbHalfword (s : State U) (tinstr : ARMword) : BitVec 16 :=
  if s.bigendSig then tinstr.extractLsb' 16 16 else tinstr.extractLsb' 0 16

theorem State.setWidth_thumbHalfword (s : State U) (tinstr : ARMword) :
    (if s.bigendSig then tinstr >>> 16 else tinstr &&& 0xFFFF) =
      (s.thumbHalfword tinstr).setWidth 32 := by
  unfold thumbHalfword
  split
  · apply BitVec.eq_of_getLsbD_eq
    intro i hi
    rw [BitVec.getLsbD_ushiftRight, BitVec.getLsbD_setWidth, BitVec.getLsbD_extractLsb']
    by_cases h16 : i < 16
    · simp [h16, hi]
    · rw [BitVec.getLsbD_of_ge tinstr _ (by omega)]
      simp [h16]
  · apply BitVec.eq_of_toNat_eq
    refine (Word.toNat_and_low tinstr 16 (by omega)).trans ?_
    rw [BitVec.toNat_setWidth, BitVec.extractLsb'_toNat, Nat.shiftRight_zero]
    omega

namespace Thumb

/-! ## Fields within the code -/

/-- The low bits of a field. -/
theorem field_mod (h : BitVec 16) (lo : Nat) {len n : Nat} (hn : n ≤ len) :
    field h lo len % 2 ^ n = field h lo n := by
  rw [field, field, BitVec.extractLsb'_toNat, BitVec.extractLsb'_toNat,
    Nat.mod_mod_of_dvd _ (Nat.pow_dvd_pow 2 hn)]

/-- The high bits of a field. -/
theorem field_div (h : BitVec 16) (lo k len : Nat) :
    field h lo (k + len) / 2 ^ k = field h (lo + k) len := by
  rw [field, field, BitVec.extractLsb'_toNat, BitVec.extractLsb'_toNat, Nat.shiftRight_add,
    Nat.shiftRight_eq_div_pow _ k, pow_add, Nat.mod_mul_right_div_self]

/-- A masked bit. -/
theorem and_twoPow_eq_zero (h : BitVec 16) {k : Nat} (hk : k < 32) :
    h.setWidth 32 &&& BitVec.twoPow 32 k = 0 ↔ h.getLsbD k = false := by
  rw [← isSet_twoPow h hk, isSet, bne_eq_false_iff_eq]

/-- The low bit of a field. -/
theorem field_succ (h : BitVec 16) (lo len : Nat) :
    field h lo (1 + len) = 2 * field h (lo + 1) len + if h.getLsbD lo then 1 else 0 := by
  have hbit : h.getLsbD lo = decide (field h lo (1 + len) % 2 = 1) := by
    rw [← Nat.testBit_zero, testBit_field (by omega), Nat.add_zero]
  have hdiv : field h lo (1 + len) / 2 = field h (lo + 1) len := field_div h lo 1 len
  rw [hbit, ← hdiv]
  split <;> simp_all <;> omega

theorem and_format13_eq_zero (h8 : field h 8 3 = 0) (h11 : h.getLsbD 11 = false) :
    h.setWidth 32 &&& 0x0F00 = 0 := by
  have hmask : ∀ i < 32, ¬(8 ≤ i ∧ i < 12) → (0x0F00 : ARMword).getLsbD i = false := by decide
  apply BitVec.eq_of_getLsbD_eq
  intro i hi
  rw [BitVec.getLsbD_and, BitVec.getLsbD_setWidth, show (0 : ARMword).getLsbD i = false from
    BitVec.getLsbD_zero]
  by_cases hm : 8 ≤ i ∧ i < 12
  · have hbit : h.getLsbD i = false := by
      by_cases h3 : i = 11
      · rw [h3, h11]
      · have := @testBit_field h 8 3 (i - 8) (by omega)
        rw [h8, Nat.zero_testBit, show 8 + (i - 8) = i by omega] at this
        exact this.symm
    rw [hbit, Bool.and_false, Bool.false_and]
  · rw [hmask i hi hm, Bool.and_false]

/-- The bits 11 and 12 within the code. -/
theorem extract_of_code {k : Nat} (hk : field h 11 5 = k) :
    h.extractLsb' 11 2 = BitVec.ofNat 2 k := by
  apply BitVec.eq_of_toNat_eq
  rw [BitVec.toNat_ofNat, ← hk, field_mod h 11 (show 2 ≤ 5 by decide)]
  rfl

theorem bit_of_code {k : Nat} (hk : field h 11 5 = k) : h.getLsbD 11 = k.testBit 0 :=
  hk ▸ (@testBit_field h 11 5 0 (by omega)).symm

/-! ## The condition `AL` -/

theorem always_armWord {op lo : BitVec 12} {rn rd : BitVec 4} (hop : op.extractLsb' 8 4 = 0xE) :
    bits (armWord op rn rd lo) 28 31 = 0xE :=
  (bits_armWord_op _ _ _ _ (by omega)).trans (congrArg BitVec.toNat hop)

/-- The tables of the formats -/
theorem always_bases (n : Nat) :
    (base2 n).extractLsb' 8 4 = 0xE ∧ (base3 n).extractLsb' 8 4 = 0xE ∧
      (base7 n).extractLsb' 8 4 = 0xE ∧ (base8 n).1.extractLsb' 8 4 = 0xE ∧
      (base9 n).extractLsb' 8 4 = 0xE := by
  unfold base2 base3 base7 base8 base9
  refine ⟨?_, ?_, ?_, ?_, ?_⟩
  all_goals split <;> decide

theorem always_bit (b : Bool) {x y : BitVec 12} (hx : x.extractLsb' 8 4 = 0xE)
    (hy : y.extractLsb' 8 4 = 0xE) : (if b then x else y).extractLsb' 8 4 = 0xE := by
  cases b with
  | false => exact hy
  | true => exact hx

theorem always_format1 : bits (format1 (h.setWidth 32)) 28 31 = 0xE :=
  format1_eq h ▸ always_armWord (by decide)

theorem always_format2 : bits (format2 (h.setWidth 32)) 28 31 = 0xE :=
  format2_eq h ▸ always_armWord (always_bases _).1

theorem always_format3 : bits (format3 (h.setWidth 32)) 28 31 = 0xE :=
  format3_eq h ▸ always_armWord (always_bases _).2.1

theorem always_format4 : bits (format4 (h.setWidth 32)) 28 31 = 0xE := by
  unfold format4
  rw [code_eq h 0x03C0 6 4 (by decide)]
  have htable : ∀ n < 16, (subset4 n).1.extractLsb' 28 4 = 0xE := by decide
  have hfields (o : OType) : (fields4 (h.setWidth 32) o).extractLsb' 28 4 = 0#4 := by
    apply BitVec.eq_of_getLsbD_eq
    intro i hi
    cases o
    all_goals
      simp only [fields4, BitVec.getLsbD_extractLsb', BitVec.getLsbD_or, BitVec.getLsbD_and,
        BitVec.getLsbD_shiftLeft, BitVec.getLsbD_ushiftRight, BitVec.getLsbD_setWidth]
      interval_cases i <;> simp
  have htable := htable (field h 6 4) (h.extractLsb' 6 4).isLt
  change ((_ ||| _ : ARMword).extractLsb' 28 4).toNat = _
  rw [BitVec.extractLsb'_or, htable, hfields]
  rfl

theorem always_format6 : bits (format6 (h.setWidth 32)) 28 31 = 0xE :=
  format6_eq h ▸ always_armWord (by decide)

theorem always_format7 : bits (format7 (h.setWidth 32)) 28 31 = 0xE :=
  format7_eq h ▸ always_armWord (always_bases _).2.2.1

theorem always_format8 : bits (format8 (h.setWidth 32)) 28 31 = 0xE :=
  format8_eq h ▸ always_armWord (always_bases _).2.2.2.1

theorem always_format9 : bits (format9 (h.setWidth 32)) 28 31 = 0xE :=
  format9_eq h ▸ always_armWord (always_bases _).2.2.2.2

theorem always_format10 : bits (format10 (h.setWidth 32)) 28 31 = 0xE :=
  format10_eq h ▸ always_armWord (always_bit _ (by decide) (by decide))

theorem always_format11 : bits (format11 (h.setWidth 32)) 28 31 = 0xE :=
  format11_eq h ▸ always_armWord (always_bit _ (by decide) (by decide))

theorem always_format12 : bits (format12 (h.setWidth 32)) 28 31 = 0xE :=
  format12_eq h ▸ always_armWord (by decide)

theorem always_format13 : bits (format13 (h.setWidth 32)) 28 31 = 0xE :=
  format13_eq h ▸ always_armWord (always_bit _ (by decide) (by decide))

/-! ## All formats -/

end Thumb

/-! ## The ARM7100 -/

theorem toNat_readLane_lt (bigend : Bool) (datatype : DataType) (addr word : ARMword) :
    (readLane bigend datatype addr word).toNat < 2 ^ datatype.bits := by
  have hmask : (laneMask datatype).toNat < 2 ^ datatype.bits := by cases datatype <;> decide
  rw [readLane, BitVec.toNat_and]
  exact Nat.lt_of_le_of_lt Nat.and_le_right hmask

/-- The ARM7100 reads lanes of words. -/
theorem Arm7100.narrow : Arm7100.ops.Narrow where
  read {cpu mmu address dt data mmu'} h := by
    change Arm7100.read cpu mmu address dt = _ at h
    have hlane (bigend : Bool) (a w : ARMword) (mmu'' : MmuState Arm7100)
        (h : ((.ok (readLane bigend dt a w) : Except Fault ARMword), mmu'') = (.ok data, mmu')) :
        data.toNat < 2 ^ dt.bits := by
      cases h
      exact toNat_readLane_lt ..
    unfold Arm7100.read at h
    dsimp only at h
    split at h
    · exact hlane _ _ _ _ h
    split at h
    · cases h
    split at h
    · exact hlane _ _ _ _ h
    split at h
    · cases h
    split at h
    · exact hlane _ _ _ _ h
    · exact hlane _ _ _ _ h

/-- An ARM7100 in Thumb state at the address 0. -/
def Arm7100.thumb : State Arm7100 :=
  { State.bootState (Arm7100.init .cleared).u with
    reg := Function.update (fun _ => 0) 15 4, tFlag := true }

end SkyEye
