import SkyEye.Arm.Alu
import SkyEye.Arm.Emulate
import SkyEye.Arm.MmuModels

/-!
# Cases of the main switch

Which words go to data processing, to the multiplications and to the halfword transfers,
and what the arithmetic operations with the S bit compute.
-/

namespace SkyEye

theorem testBit_bits (w : ARMword) {m n i : Nat} (hi : i < n + 1 - m) :
    (bits w m n).testBit i = w.getLsbD (m + i) := by
  rw [bits, BitVec.testBit_toNat, BitVec.getLsbD_extractLsb']
  simp [hi]

namespace State

variable {U : Type} {ops : MmuOps U} {s : State U} {pc w : ARMword}

/-- Neither a multiplication nor a transfer: the bits 4 and 7 are not both set. -/
theorem not_extension (h : (w.getLsbD 4 && w.getLsbD 7) = false) :
    isLoadHalfword w = false ∧ bits w 4 7 ≠ 9 := by
  have hno {n : Nat} (hn : 7 ≤ n) (hb : bits w 4 n &&& 9 = 9) : False := by
    have h4 : w.getLsbD 4 = true := by
      rw [← testBit_bits w (i := 0) (show 0 < n + 1 - 4 by omega)]
      have := congrArg (Nat.testBit · 0) hb
      rwa [Nat.testBit_and, show Nat.testBit 9 0 = true from rfl, Bool.and_true] at this
    have h7 : w.getLsbD 7 = true := by
      rw [← testBit_bits w (i := 3) (show 3 < n + 1 - 4 by omega)]
      have := congrArg (Nat.testBit · 3) hb
      rwa [Nat.testBit_and, show Nat.testBit 9 3 = true from rfl, Bool.and_true] at this
    rw [h4, h7] at h
    cases h
  have h7 : bits w 4 7 &&& 9 ≠ 9 := hno (Nat.le_refl 7)
  have h11 : bits w 4 11 &&& 0xF9 ≠ 9 := by
    intro hb
    refine hno (n := 11) (by decide) ?_
    have := congrArg (· &&& 9) hb
    simpa [Nat.and_assoc] using this
  refine ⟨?_, fun hb => ?_⟩
  · rw [isLoadHalfword]
    split
    · simp [h7]
    · simp [h11]
  · rw [hb] at h7
    exact h7 rfl

/-- With the S bit, no transfer of a doubleword. -/
theorem not_double (h : w.getLsbD 20 = true ∨ bits w 25 27 ≠ 0) :
    (s.isXScale && !w.getLsbD 20 && bits w 25 27 == 0 &&
      (bits w 4 7 == 0xD || bits w 4 7 == 0xF)) = false := by
  rcases h with h | h
  · rw [h]
    simp
  · rw [beq_eq_false_iff_ne.mpr h]
    simp

theorem mainswitch_regS (h25 : bits w 25 27 = 0) (h20 : w.getLsbD 20 = true)
    (h : (w.getLsbD 4 && w.getLsbD 7) = false) :
    s.mainswitch ops pc w = some (if (DpOp.ofInstr w).isTest then s.test w (DpOp.ofInstr w)
      else s.dataProcessingS w (DpOp.ofInstr w)) := by
  obtain ⟨hl, hm⟩ := not_extension h
  have hn : ¬ (bits w 24 27 = 0 ∧ bits w 4 7 = 9 ∧
      ¬ (DpOp.ofInstr w = .sub ∨ DpOp.ofInstr w = .rsb)) := fun h => hm h.2.1
  rw [mainswitch, not_double (.inl h20), if_neg Bool.false_ne_true, h25]
  show (if w.getLsbD 20 then s.registerCaseS ops w else s.registerCase ops w) = _
  rw [if_pos h20, registerCaseS, hl, if_neg Bool.false_ne_true, if_neg hn]
  split <;> rfl

/-- Without the S bit, on a register that is not shifted. -/
theorem mainswitch_reg (h25 : bits w 25 27 = 0) (h20 : w.getLsbD 20 = false)
    (h4 : bits w 4 11 = 0) (h7 : bits w 4 7 = 0) :
    s.mainswitch ops pc w = if (DpOp.ofInstr w).isTest then s.miscellaneous w
      else some (s.dataProcessing w (DpOp.ofInstr w)) := by
  have hx : (s.isXScale && !w.getLsbD 20 && bits w 25 27 == 0 &&
      (bits w 4 7 == 0xD || bits w 4 7 == 0xF)) = false := by
    rw [h7]
    simp
  have hs : isStoreHalfword w = false := by
    rw [isStoreHalfword, h7, h4]
    exact ite_self _
  have hd : isDouble w = false := by
    rw [isDouble, h7]
    simp
  have hn : ¬ (bits w 24 27 = 0 ∧ bits w 4 7 = 9 ∧
      ¬ (DpOp.ofInstr w = .sub ∨ DpOp.ofInstr w = .rsb)) := fun hn => by
    rw [h7] at hn
    exact absurd hn.2.1 (by decide)
  rw [mainswitch, hx, if_neg Bool.false_ne_true, h25]
  show (if w.getLsbD 20 then s.registerCaseS ops w else s.registerCase ops w) = _
  rw [h20, if_neg Bool.false_ne_true, registerCase, hs, if_neg Bool.false_ne_true, hd,
    if_neg Bool.false_ne_true, if_neg hn]

theorem mainswitch_mul (h25 : bits w 25 27 = 0) (h20 : w.getLsbD 20 = true)
    (h23 : w.getLsbD 23 = false) (h24 : bits w 24 27 = 0) (h4 : bits w 4 7 = 9)
    (h5 : bits w 5 6 = 0) (ho : ¬ (DpOp.ofInstr w = .sub ∨ DpOp.ofInstr w = .rsb)) :
    s.mainswitch ops pc w = some (s.multiply w) := by
  have hl : isLoadHalfword w = false := by
    rw [isLoadHalfword, h5]
    simp
  rw [mainswitch, not_double (.inl h20), if_neg Bool.false_ne_true, h25]
  show (if w.getLsbD 20 then s.registerCaseS ops w else s.registerCase ops w) = _
  rw [if_pos h20, registerCaseS, hl, if_neg Bool.false_ne_true, if_pos ⟨h24, h4, ho⟩, h23,
    if_neg Bool.false_ne_true]

theorem mainswitch_imm (h25 : bits w 25 27 = 1) :
    s.mainswitch ops pc w = some (s.immediateCase w) := by
  rw [mainswitch, not_double (.inr (by rw [h25]; decide)), if_neg Bool.false_ne_true, h25]
  rfl

theorem mainswitch_loadHalfword (h25 : bits w 25 27 = 0) (h20 : w.getLsbD 20 = true)
    (hl : isLoadHalfword w = true) :
    s.mainswitch ops pc w = some (s.loadHalfwordTransfer ops w) := by
  rw [mainswitch, not_double (.inl h20), if_neg Bool.false_ne_true, h25]
  show (if w.getLsbD 20 then s.registerCaseS ops w else s.registerCase ops w) = _
  rw [if_pos h20, registerCaseS, if_pos hl]

theorem mainswitch_storeHalfword (h25 : bits w 25 27 = 0) (h20 : w.getLsbD 20 = false)
    (h4 : bits w 4 7 = 0xB) (hl : isStoreHalfword w = true) :
    s.mainswitch ops pc w = some (s.storeHalfwordTransfer ops w) := by
  have hx : (s.isXScale && !w.getLsbD 20 && bits w 25 27 == 0 &&
      (bits w 4 7 == 0xD || bits w 4 7 == 0xF)) = false := by
    rw [h4]
    simp
  rw [mainswitch, hx, if_neg Bool.false_ne_true, h25]
  show (if w.getLsbD 20 then s.registerCaseS ops w else s.registerCase ops w) = _
  rw [h20, if_neg Bool.false_ne_true, registerCase, if_pos hl]

/-! ## Arithmetic with the S bit -/

/-- A data processing instruction with the S bit. -/
def IsDataProcessingS (w : ARMword) : Prop :=
  w.getLsbD 20 = true ∧
    (bits w 25 27 = 1 ∨ bits w 25 27 = 0 ∧ (w.getLsbD 4 && w.getLsbD 7) = false)

theorem mainswitch_dataProcessingS (h : IsDataProcessingS w) :
    s.mainswitch ops pc w = some (if (DpOp.ofInstr w).isTest then s.test w (DpOp.ofInstr w)
      else s.dataProcessingS w (DpOp.ofInstr w)) := by
  obtain ⟨h20, h25 | ⟨h25, h47⟩⟩ := h
  · rw [mainswitch_imm h25, immediateCase, if_pos h20]
  · exact mainswitch_regS h25 h20 h47

/-- The last operand is evaluated without a change of the carry flag. -/
theorem dpRHS_cFlag (s : State U) (w : ARMword) : (s.dpRHS w).2.cFlag = s.cFlag := by
  rw [dpRHS, dpRegRHS]
  split
  · rfl
  · split
    · rfl
    · split <;> rfl

/-- The two words and the carry that an arithmetic instruction adds. -/
def addendsOf (s : State U) (w : ARMword) : ARMword × ARMword × Bool :=
  (DpOp.ofInstr w).addends (s.lhs w) (s.dpRHS w).1 s.cFlag

/-- Result and flags of `ADDS`, `ADCS`, `SUBS`, `SBCS`, `RSBS`, `RSCS`, `CMP` and `CMN` are those
of the addition with a carry. With register 15 as destination the sum goes there and the status
register is restored. -/
theorem arithmetic_eq_addWithCarry (hw : IsDataProcessingS w)
    (hop : (DpOp.ofInstr w).isLogical = false) :
    let op := DpOp.ofInstr w
    let a := s.addendsOf w
    let sum := AddWithCarry.sum a.1 a.2.1 a.2.2
    s.mainswitch ops pc w = some (
      if destReg w = 15 then
        if op.isTest then s.restoreCPSR
        else ((s.dpRHS w).2.arithFlags (s.lhs w) (s.dpRHS w).1 sum op).writeSR15 sum
      else if op.isTest then (s.dpRHS w).2.withSum a.1 a.2.1 a.2.2
      else (s.dpRHS w).2.sumTo a.1 a.2.1 a.2.2 (destReg w)) := by
  intro op a sum
  have hsum : op.value (s.lhs w) (s.dpRHS w).1 (s.dpRHS w).2.cFlag = sum := by
    rw [DpOp.value_eq_sum hop, dpRHS_cFlag]
    rfl
  have hr : s.dpRHS w = ((s.dpRHS w).1, (s.dpRHS w).2) := rfl
  rw [mainswitch_dataProcessingS hw]
  refine congrArg some ?_
  by_cases hd : destReg w = 15
  · rw [if_pos hd]
    by_cases ht : op.isTest = true
    · rw [if_pos ht, if_pos ht, test, if_pos hd]
    · rw [if_neg ht, if_neg ht, dataProcessingS, hop, if_neg Bool.false_ne_true]
      dsimp only
      rw [hsum, writeSDest, if_pos hd]
  · rw [if_neg hd]
    by_cases ht : op.isTest = true
    · rw [if_pos ht, if_pos ht, test_arith hop ht hd hr, dpRHS_cFlag]
      rfl
    · rw [if_neg ht, if_neg ht, dataProcessingS_arith hop hd hr, dpRHS_cFlag]
      rfl

/-- `ADDS r0, r1, r2` -/
theorem adds_eq_addWithCarry :
    Arm920t.boot.mainswitch (Arm920t.ops 0) 0 0xE0910002 =
      some (Arm920t.boot.sumTo (Arm920t.boot.reg 1) (Arm920t.boot.reg 2) false 0) :=
  arithmetic_eq_addWithCarry ⟨by decide, .inr ⟨by decide, by decide⟩⟩ rfl

end State

end SkyEye
