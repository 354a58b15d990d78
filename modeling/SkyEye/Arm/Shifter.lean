import SkyEye.Arm.DataProc

/-!
# The shifter

`GetDPRegRHS` and `GetDPSRegRHS` compute shifts by cases; the architecture has one shift
with the last bit shifted out, and a rotation through the carry flag.
-/

namespace SkyEye

namespace Shift

/-- `x` shifted by `n`. -/
def apply (x : ARMword) (n : Nat) : Shift → ARMword
  | lsl => x <<< n
  | lsr => x >>> n
  | asr => x.sshiftRight n
  | ror => x.rotateRight n

/-- The last bit shifted out, for `n ≠ 0`. -/
def lastOut (x : ARMword) (n : Nat) : Shift → Bool
  | lsl => decide (n ≤ 32) && x.getLsbD (32 - n)
  | lsr => x.getLsbD (n - 1)
  | asr => x.getLsbD (min (n - 1) 31)
  | ror => x.getLsbD ((n - 1) % 32)

variable {x : ARMword} {n : Nat} {c : Bool}

theorem sshiftRight_of_le (h : 32 ≤ n) : x.sshiftRight n = x.sshiftRight 31 := by
  apply BitVec.eq_of_getLsbD_eq
  intro i hi
  rw [BitVec.getLsbD_sshiftRight, BitVec.getLsbD_sshiftRight, if_neg (by omega)]
  split
  · rw [show i = 0 by omega, BitVec.msb_eq_getLsbD_last]
  · rfl

theorem getLsbD_sshiftRight_zero (h : n < 32) : (x.sshiftRight n).getLsbD 0 = x.getLsbD n := by
  rw [BitVec.getLsbD_sshiftRight, if_pos (by omega), Nat.add_zero]
  simp

/-- A shift by a register: 32 and more are 32. -/
theorem byReg_eq (op : Shift) : op.byReg x n = op.apply x n := by
  cases op with
  | lsl =>
    change (if n = 0 then x else if 32 ≤ n then 0 else x <<< n) = x <<< n
    split
    · rename_i h
      rw [h, BitVec.shiftLeft_zero]
    · split
      · exact (BitVec.shiftLeft_eq_zero ‹_›).symm
      · rfl
  | lsr =>
    change (if n = 0 then x else if 32 ≤ n then 0 else x >>> n) = x >>> n
    split
    · rename_i h
      rw [h, BitVec.ushiftRight_zero]
    · split
      · exact (BitVec.ushiftRight_eq_zero ‹_›).symm
      · rfl
  | asr =>
    change (if n = 0 then x else if 32 ≤ n then x.sshiftRight 31 else x.sshiftRight n) =
      x.sshiftRight n
    split
    · rename_i h
      rw [h, BitVec.sshiftRight_zero]
    · split
      · exact (sshiftRight_of_le ‹_›).symm
      · rfl
  | ror =>
    change (if n % 32 = 0 then x else x <<< (32 - n % 32) ||| x >>> (n % 32)) = x.rotateRight n
    rw [BitVec.rotateRight_def]
    split
    · rename_i h
      rw [h]
      simp
    · exact BitVec.or_comm _ _

/-- Its carry is the last bit shifted out. -/
theorem byRegCarry_eq (op : Shift) :
    op.byRegCarry x n c = if n = 0 then c else op.lastOut x n := by
  by_cases h0 : n = 0
  · cases op <;> simp [byRegCarry, h0]
  rw [if_neg h0]
  cases op with
  | lsl =>
    change (if n = 0 then c else if n = 32 then x.getLsbD 0 else if 32 < n then false
      else (x >>> (32 - n)).getLsbD 0) = (decide (n ≤ 32) && x.getLsbD (32 - n))
    rw [if_neg h0]
    split
    · rename_i h
      rw [h]
      rfl
    · split
      · rw [decide_eq_false (by omega), Bool.false_and]
      · rw [decide_eq_true (by omega), Bool.true_and, BitVec.getLsbD_ushiftRight, Nat.add_zero]
  | lsr =>
    change (if n = 0 then c else if n = 32 then x.getLsbD 31 else if 32 < n then false
      else (x >>> (n - 1)).getLsbD 0) = x.getLsbD (n - 1)
    rw [if_neg h0]
    split
    · rename_i h
      rw [h]
    · split
      · exact (BitVec.getLsbD_of_ge x (n - 1) (by omega)).symm
      · rw [BitVec.getLsbD_ushiftRight, Nat.add_zero]
  | asr =>
    change (if n = 0 then c else if 32 ≤ n then x.getLsbD 31
      else (x.sshiftRight (n - 1)).getLsbD 0) = x.getLsbD (min (n - 1) 31)
    rw [if_neg h0]
    split
    · rw [Nat.min_eq_right (by omega)]
    · rw [Nat.min_eq_left (by omega)]
      exact getLsbD_sshiftRight_zero (by omega)
  | ror =>
    change (if n = 0 then c else if n % 32 = 0 then x.getLsbD 31
      else (x >>> (n % 32 - 1)).getLsbD 0) = x.getLsbD ((n - 1) % 32)
    rw [if_neg h0]
    split
    · rw [show (n - 1) % 32 = 31 by omega]
    · rw [BitVec.getLsbD_ushiftRight, Nat.add_zero, show (n - 1) % 32 = n % 32 - 1 by omega]

/-- The number of a shift by an instruction: a right shift by 0 is one by 32. -/
def amount (shamt : Nat) : Shift → Nat
  | lsl => shamt
  | _ => if shamt = 0 then 32 else shamt

theorem amount_eq_zero {op : Shift} (h : op.amount n = 0) : op = lsl ∧ n = 0 := by
  cases op with
  | lsl => exact ⟨rfl, h⟩
  | lsr | asr | ror =>
    change (if n = 0 then 32 else n) = 0 at h
    split at h <;> omega

theorem byImm_eq {op : Shift} (hop : op ≠ .ror) : op.byImm x n c = op.apply x (op.amount n) := by
  cases op with
  | lsl => rfl
  | lsr =>
    change (if n = 0 then 0 else x >>> n) = x >>> (if n = 0 then 32 else n)
    split
    · exact (BitVec.ushiftRight_eq_zero (Nat.le_refl 32)).symm
    · rfl
  | asr =>
    change (if n = 0 then x.sshiftRight 31 else x.sshiftRight n) =
      x.sshiftRight (if n = 0 then 32 else n)
    split
    · exact (sshiftRight_of_le (Nat.le_refl 32)).symm
    · rfl
  | ror => exact absurd rfl hop

theorem byImmCarry_eq {op : Shift} (hop : op ≠ .ror) (h32 : n < 32) (h0 : op.amount n ≠ 0) :
    op.byImmCarry x n = op.lastOut x (op.amount n) := by
  cases op with
  | lsl =>
    change (x >>> (32 - n)).getLsbD 0 = (decide (n ≤ 32) && x.getLsbD (32 - n))
    rw [decide_eq_true (by omega), Bool.true_and, BitVec.getLsbD_ushiftRight, Nat.add_zero]
  | lsr =>
    change (if n = 0 then x.getLsbD 31 else (x >>> (n - 1)).getLsbD 0) =
      x.getLsbD ((if n = 0 then 32 else n) - 1)
    split
    · rfl
    · rw [BitVec.getLsbD_ushiftRight, Nat.add_zero]
  | asr =>
    change (if n = 0 then x.getLsbD 31 else (x.sshiftRight (n - 1)).getLsbD 0) =
      x.getLsbD (min ((if n = 0 then 32 else n) - 1) 31)
    split
    · rfl
    · rw [Nat.min_eq_left (by omega)]
      exact getLsbD_sshiftRight_zero (by omega)
  | ror => exact absurd rfl hop

/-! ## The architecture's operand -/

/-- A shift with its carry out; by 0 nothing is shifted out. -/
def withCarry (x : ARMword) (n : Nat) (c : Bool) (op : Shift) : ARMword × Bool :=
  if n = 0 then (x, c) else (op.apply x n, op.lastOut x n)

/-- The rotation by one through the carry flag. -/
def rotateExtended (x : ARMword) (c : Bool) : ARMword × Bool :=
  ((BitVec.ofBool c ++ x.extractLsb' 1 31).setWidth 32, x.getLsbD 0)

/-- A shift by a number of the instruction. -/
def byNumber (x : ARMword) (n : Nat) (c : Bool) (op : Shift) : ARMword × Bool :=
  if op = ror ∧ n = 0 then rotateExtended x c else op.withCarry x (op.amount n) c

theorem byReg_withCarry (op : Shift) :
    (op.byReg x n, op.byRegCarry x n c) = op.withCarry x n c := by
  by_cases h : n = 0
  · subst h
    cases op <;> rfl
  · rw [byReg_eq, byRegCarry_eq, withCarry, if_neg h, if_neg h]

theorem rotateExtended_eq : x >>> 1 ||| toWord c <<< 31 = (rotateExtended x c).1 := by
  apply BitVec.eq_of_getLsbD_eq
  intro i hi
  rw [rotateExtended, BitVec.getLsbD_or, BitVec.getLsbD_ushiftRight, BitVec.getLsbD_shiftLeft,
    BitVec.getLsbD_setWidth, BitVec.getLsbD_append, BitVec.getLsbD_extractLsb', toWord]
  by_cases h31 : i < 31
  · simp [h31, hi]
  · have h : i = 31 := by omega
    subst h
    cases c <;> simp

theorem byImm_ror (h0 : n ≠ 0) (h32 : n < 32) : ror.byImm x n c = x.rotateRight n := by
  change (if n = 0 then _ else x <<< (32 - n) ||| x >>> n) = _
  rw [if_neg h0, BitVec.rotateRight_def, Nat.mod_eq_of_lt h32, BitVec.or_comm]

/-- The shifts by a number, but for `LSL` by 0. -/
theorem byImm_byNumber {op : Shift} (h32 : n < 32) (h0 : op = lsl → n ≠ 0) :
    (op.byImm x n c, op.byImmCarry x n) = op.byNumber x n c := by
  rw [byNumber]
  by_cases hr : op = ror
  · subst hr
    by_cases hn : n = 0
    · rw [if_pos ⟨rfl, hn⟩, hn]
      exact Prod.ext rotateExtended_eq rfl
    · rw [if_neg (fun h => hn h.2), withCarry, amount, if_neg hn, if_neg hn, byImm_ror hn h32]
      refine Prod.ext rfl ?_
      change (if n = 0 then _ else (x >>> (n - 1)).getLsbD 0) = x.getLsbD ((n - 1) % 32)
      rw [if_neg hn, BitVec.getLsbD_ushiftRight, Nat.add_zero, Nat.mod_eq_of_lt (by omega)]
      exact fun h => by cases h
  · have hamount : op.amount n ≠ 0 := fun h => h0 (amount_eq_zero h).1 (amount_eq_zero h).2
    rw [if_neg (fun h => hr h.1), withCarry, if_neg hamount, byImm_eq hr,
      byImmCarry_eq hr h32 hamount]

end Shift

/-- A rotated immediate with its carry out. -/
def expandImm (i : BitVec 12) (c : Bool) : ARMword × Bool :=
  Shift.ror.withCarry ((i.setWidth 8).setWidth 32) (2 * (i.extractLsb' 8 4).toNat) c

/-- The shifter operand and the shifter carry-out of a data processing instruction, over the
registers' values and the carry flag. -/
def shifterOperand (instr : ARMword) (reg : RegNo → ARMword) (c : Bool) : ARMword × Bool :=
  if instr.getLsbD 25 then expandImm (instr.setWidth 12) c
  else if instr.getLsbD 4 then
    (shiftType instr).withCarry (reg (rhsReg instr)) ((reg (shiftReg instr)).toNat % 256) c
  else (shiftType instr).byNumber (reg (rhsReg instr)) (bits instr 7 11) c

/-- `DPImmRHS` and `DPSImmRHS`: only a rotated immediate sets the carry. -/
theorem expandImm_eq (instr : ARMword) (c : Bool) :
    (dpImmRHS instr, if 255 < bits instr 0 11 then (dpImmRHS instr).getLsbD 31 else c) =
      expandImm (instr.setWidth 12) c := by
  have hbits : bits instr 0 11 = (instr.setWidth 12).toNat := by
    rw [bits, BitVec.extractLsb'_toNat, BitVec.toNat_setWidth, Nat.shiftRight_zero]
  rw [hbits, dpImmRHS]
  generalize instr.setWidth 12 = i
  have hrot : (i.extractLsb' 8 4).toNat = i.toNat / 256 := by
    have := i.isLt
    rw [BitVec.extractLsb'_toNat, Nat.shiftRight_eq_div_pow]
    omega
  have hi := i.isLt
  rw [immedTable, expandImm, Shift.withCarry, hrot]
  generalize (i.setWidth 8).setWidth 32 = x
  by_cases h : 255 < i.toNat
  · rw [if_pos h, if_neg (by omega)]
    refine Prod.ext rfl ?_
    change (x.rotateRight (2 * (i.toNat / 256))).getLsbD 31 =
      x.getLsbD ((2 * (i.toNat / 256) - 1) % 32)
    rw [BitVec.getLsbD_rotateRight, decide_eq_false (by omega), cond_false,
      decide_eq_true (by decide), Bool.true_and]
    exact congrArg x.getLsbD (by omega)
  · rw [if_neg h, if_pos (by omega), show 2 * (i.toNat / 256) = 0 by omega, BitVec.rotateRight_def]
    simp

theorem bits_eq_mod (w : ARMword) (m n : Nat) : bits w m n = w.toNat / 2 ^ m % 2 ^ (n + 1 - m) := by
  rw [bits, BitVec.extractLsb'_toNat, Nat.shiftRight_eq_div_pow]

theorem getLsbD_eq_mod (w : ARMword) (i : Nat) :
    w.getLsbD i = decide (w.toNat / 2 ^ i % 2 = 1) := by
  rw [← BitVec.testBit_toNat, Nat.testBit_eq_decide_div_mod_eq]

/-- Without the bits 4 to 11 a register is not shifted. -/
theorem unshifted_iff (w : ARMword) (h4 : w.getLsbD 4 = false) :
    bits w 4 11 = 0 ↔ shiftType w = .lsl ∧ bits w 7 11 = 0 := by
  have htype : shiftType w = .lsl ↔ bits w 5 6 = 0 := by
    rw [shiftType]
    split <;> simp_all
  rw [htype, bits_eq_mod, bits_eq_mod, bits_eq_mod]
  rw [getLsbD_eq_mod, decide_eq_false_iff_not] at h4
  simp only [show 2 ^ (11 + 1 - 4) = 256 from rfl, show 2 ^ (6 + 1 - 5) = 4 from rfl,
    show 2 ^ (11 + 1 - 7) = 32 from rfl]
  omega

namespace State

variable {U : Type} (s : State U) (instr : ARMword)

/-- A rotated immediate. -/
theorem rhs_immediate (h25 : instr.getLsbD 25 = true) :
    let v := shifterOperand instr s.reg s.cFlag
    s.dpRHS instr = (v.1, s) ∧ s.dpsRHS instr = (v.1, { s with cFlag := v.2 }) := by
  intro v
  have hv : v = (dpImmRHS instr,
      if 255 < bits instr 0 11 then (dpImmRHS instr).getLsbD 31 else s.cFlag) := by
    rw [expandImm_eq]
    exact if_pos h25
  refine ⟨?_, ?_⟩
  · rw [dpRHS, if_pos h25, hv]
  · rw [dpsRHS, if_pos h25, dpsImmRHS, hv]
    refine Prod.ext rfl ?_
    dsimp only
    split <;> rfl

/-- A shift by a register, after the pipeline has moved on. -/
theorem rhs_shiftReg (h25 : ¬instr.getLsbD 25 = true) (h4 : instr.getLsbD 4 = true) :
    let t := s.incPc.icycles
    let v := shifterOperand instr t.reg s.cFlag
    s.dpRHS instr = (v.1, t) ∧ s.dpsRHS instr = (v.1, { t with cFlag := v.2 }) := by
  intro t v
  have h0 : bits instr 4 11 ≠ 0 := by
    rw [getLsbD_eq_mod, decide_eq_true_eq] at h4
    rw [bits_eq_mod]
    omega
  have hamount (x : ARMword) : (x &&& 0xff).toNat = x.toNat % 256 :=
    Word.toNat_and_low x 8 (by omega)
  have hreg (r : RegNo) : t.reg r = s.incPc.reg r := rfl
  have hd : s.dpRHS instr = s.dpRegRHS instr := by rw [dpRHS, if_neg h25]
  have hds : s.dpsRHS instr = s.dpsRegRHS instr := by rw [dpsRHS, if_neg h25]
  rw [dpRegRHS, if_neg h0, if_pos h4] at hd
  rw [dpsRegRHS, if_neg h0, if_pos h4] at hds
  dsimp only at hd hds
  rw [hamount] at hd hds
  have hv : v = shifterOperand instr t.reg s.cFlag := rfl
  rw [shifterOperand, if_neg h25, if_pos h4, ← Shift.byReg_withCarry, hreg, hreg] at hv
  refine ⟨?_, ?_⟩
  · rw [hd, hv]
    rfl
  · rw [hds, hv]
    rfl

/-- A register, shifted by a number or not at all. -/
theorem rhs_shiftNumber (h25 : ¬instr.getLsbD 25 = true) (h4 : instr.getLsbD 4 = false) :
    let v := shifterOperand instr s.reg s.cFlag
    s.dpRHS instr = (v.1, s) ∧ s.dpsRHS instr = (v.1, { s with cFlag := v.2 }) := by
  intro v
  have hno : ¬instr.getLsbD 4 = true := Bool.eq_false_iff.mp h4
  have hun := unshifted_iff instr h4
  have hd : s.dpRHS instr = s.dpRegRHS instr := by rw [dpRHS, if_neg h25]
  have hds : s.dpsRHS instr = s.dpsRegRHS instr := by rw [dpsRHS, if_neg h25]
  have hv : v = (shiftType instr).byNumber (s.reg (rhsReg instr)) (bits instr 7 11) s.cFlag := by
    exact (if_neg h25).trans (if_neg hno)
  by_cases h0 : bits instr 4 11 = 0
  · obtain ⟨htype, hnum⟩ := hun.mp h0
    have hv' : v = (s.reg (rhsReg instr), s.cFlag) := by
      rw [hv, htype, hnum]
      rfl
    rw [dpRegRHS, if_pos h0] at hd
    rw [dpsRegRHS, if_pos h0] at hds
    exact ⟨by rw [hd, hv'], by rw [hds, hv']⟩
  · have h32 : bits instr 7 11 < 32 := by
      rw [bits_eq_mod]
      omega
    rw [← Shift.byImm_byNumber h32 (fun hl hn => h0 (hun.mpr ⟨hl, hn⟩))] at hv
    rw [dpRegRHS, if_neg h0, if_neg hno] at hd
    rw [dpsRegRHS, if_neg h0, if_neg hno] at hds
    exact ⟨by rw [hd, hv], by rw [hds, hv]⟩

/-- The right operand is the architecture's shifter operand, with or without the S bit, and the
forms with the S bit leave its carry out in the carry flag. A shift by a register moves the
pipeline on first, which register 15 shows. -/
theorem rhs_eq_shifterOperand :
    (∀ r, r ≠ 15 → (s.dpRHS instr).2.reg r = s.reg r) ∧
      (instr.getLsbD 25 = true ∨ instr.getLsbD 4 = false → (s.dpRHS instr).2 = s) ∧
      (s.dpRHS instr).1 = (shifterOperand instr (s.dpRHS instr).2.reg s.cFlag).1 ∧
      s.dpsRHS instr = ((shifterOperand instr (s.dpRHS instr).2.reg s.cFlag).1,
        { (s.dpRHS instr).2 with
          cFlag := (shifterOperand instr (s.dpRHS instr).2.reg s.cFlag).2 }) := by
  by_cases h25 : instr.getLsbD 25 = true
  · obtain ⟨hd, hds⟩ := s.rhs_immediate instr h25
    rw [hd]
    exact ⟨fun _ _ => rfl, fun _ => rfl, rfl, hds⟩
  by_cases h4 : instr.getLsbD 4 = true
  · obtain ⟨hd, hds⟩ := s.rhs_shiftReg instr h25 h4
    rw [hd]
    refine ⟨fun r hr => Function.update_of_ne hr _ _, fun h => ?_, rfl, hds⟩
    rcases h with h | h
    · exact absurd h h25
    · rw [h4] at h
      cases h
  · obtain ⟨hd, hds⟩ := s.rhs_shiftNumber instr h25 (Bool.eq_false_iff.mpr h4)
    rw [hd]
    exact ⟨fun _ _ => rfl, fun _ => rfl, rfl, hds⟩

end State

end SkyEye
