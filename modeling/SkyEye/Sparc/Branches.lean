import SkyEye.Sparc.CondCodes

/-!
# Compare and branch

`subcc` of two registers to `%g0` and a conditional branch: the branch is taken where the
relation holds that its name says. Where a branch goes on, taken or not, annulled or not,
is stated for any `pc` and `npc`, so for a branch in a delay slot too.
-/

namespace SkyEye.Sparc

/-- The conditional branches. -/
inductive Cond where
  | be
  | bne
  | bg
  | ble
  | bge
  | bl
  | bgu
  | bleu
  | bcc
  | bcs
  | bpos
  | bneg
  | bvc
  | bvs
  deriving DecidableEq

namespace Cond

def instr : Cond → BranchFields → Instr
  | be => .be
  | bne => .bne
  | bg => .bg
  | ble => .ble
  | bge => .bge
  | bl => .bl
  | bgu => .bgu
  | bleu => .bleu
  | bcc => .bcc
  | bcs => .bcs
  | bpos => .bpos
  | bneg => .bneg
  | bvc => .bvc
  | bvs => .bvs

/-- The condition on the codes `N`, `Z`, `V` and `C`. -/
def icc (n z v c : Bool) : Cond → Bool
  | be => z
  | bne => !z
  | bg => !(z || n ^^ v)
  | ble => z || n ^^ v
  | bge => !(n ^^ v)
  | bl => n ^^ v
  | bgu => !(c || z)
  | bleu => c || z
  | bcc => !c
  | bcs => c
  | bpos => !n
  | bneg => n
  | bvc => !v
  | bvs => v

/-- What the condition says of two words that have been compared. -/
def relation (a b : Uint32) : Cond → Prop
  | be => a = b
  | bne => a ≠ b
  | bg => b.toInt < a.toInt
  | ble => a.toInt ≤ b.toInt
  | bge => b.toInt ≤ a.toInt
  | bl => a.toInt < b.toInt
  | bgu => b.toNat < a.toNat
  | bleu => a.toNat ≤ b.toNat
  | bcc => b.toNat ≤ a.toNat
  | bcs => a.toNat < b.toNat
  | bpos => 0 ≤ (a - b).toInt
  | bneg => (a - b).toInt < 0
  | bvc => (a - b).toInt = a.toInt - b.toInt
  | bvs => (a - b).toInt ≠ a.toInt - b.toInt

instance (c : Cond) (a b : Uint32) : Decidable (c.relation a b) := by
  cases c <;> unfold relation <;> infer_instance

/-- The conditions on the codes of a subtraction are the relations. -/
theorem icc_sub_iff (c : Cond) (a b : Uint32) :
    c.icc (a - b).msb (a - b == 0) (SubWithBorrow.overflow a b false)
      (SubWithBorrow.borrow a b false) = true ↔ c.relation a b := by
  have hz : (a - b == 0) = true ↔ a = b := by
    rw [beq_iff_eq]
    exact (SubWithBorrow.diff_false a b ▸ SubWithBorrow.diff_false_eq_zero_iff a b)
  have hc : SubWithBorrow.borrow a b false = true ↔ a.toNat < b.toNat :=
    SubWithBorrow.borrow_false_eq_true_iff a b
  have hl : ((a - b).msb ^^ SubWithBorrow.overflow a b false) = true ↔ a.toInt < b.toInt :=
    SubWithBorrow.diff_false a b ▸ SubWithBorrow.msb_xor_overflow_eq_true_iff a b (by omega)
  have hn : (a - b).msb = true ↔ (a - b).toInt < 0 := by
    rw [BitVec.msb_eq_toInt, decide_eq_true_eq]
  have hv : SubWithBorrow.overflow a b false = true ↔ (a - b).toInt ≠ a.toInt - b.toInt := by
    simp [SubWithBorrow.overflow]
  have hi : a = b ↔ a.toInt = b.toInt := BitVec.toInt_inj.symm
  have hu : a = b ↔ a.toNat = b.toNat := BitVec.toNat_inj.symm
  cases c <;> simp only [icc, relation, Bool.not_eq_true', ← Bool.not_eq_true, Bool.or_eq_true,
    hz, hc, hl, hn, hv]
  case bg | ble => rw [hi]; omega
  case bgu | bleu => rw [hu]; omega
  case bge | bcc | bpos => omega
  case bvc => exact not_not

end Cond

namespace SparcState

variable {M : Type} (h : Host M) (s : SparcState M)

/-! ## Where a branch goes on -/

/-- The displacement in bytes. -/
theorem displacement_eq (f : BranchFields) : displacement f = 4 * f.disp22.signExtend 32 := by
  have h4 : (4 : Uint32) * f.disp22.signExtend 32 = f.disp22.signExtend 32 <<< 2 := by
    rw [BitVec.shiftLeft_eq_mul_twoPow, BitVec.mul_comm]
    rfl
  rw [h4]
  unfold displacement
  apply BitVec.eq_of_getLsbD_eq
  intro i hi
  rw [BitVec.getLsbD_sshiftRight, BitVec.getLsbD_shiftLeft, BitVec.getLsbD_shiftLeft,
    BitVec.getLsbD_signExtend, BitVec.getLsbD_setWidth]
  by_cases h2 : i < 2
  · have h10 : 8 + i < 10 := by omega
    have h32 : 8 + i < 32 := by omega
    have hge : ¬32 ≤ i := by omega
    simp [h2, h10, h32, hge]
  · have h30 : i - 2 < 32 := by omega
    have hge : ¬32 ≤ i := by omega
    have h10 : ¬8 + i < 10 := by omega
    have hsub : 8 + i - 10 = i - 2 := by omega
    by_cases h24 : i - 2 < 22
    · have h32 : 8 + i < 32 := by omega
      simp [h2, h30, hge, h10, hsub, h24, h32, hi]
    · have h32 : ¬8 + i < 32 := by omega
      have hm : (BitVec.setWidth 32 f.disp22 <<< 10).msb = f.disp22.msb := by
        rw [BitVec.msb_eq_getLsbD_last, BitVec.getLsbD_shiftLeft, BitVec.getLsbD_setWidth,
          BitVec.msb_eq_getLsbD_last]
        simp
      simp [h2, h30, hge, h24, h32, hm]
      omega

theorem execute_cond (c : Cond) (f : BranchFields) :
    s.execute h (c.instr f) = s.branch (c.icc s.flagN s.flagZ s.flagV s.flagC) f := by
  cases c <;> rfl

theorem branch_pc (icc : Bool) (f : BranchFields) :
    ((s.branch icc f).pc, (s.branch icc f).npc) =
      if icc then (s.npc, s.pc + 4 * f.disp22.signExtend 32)
      else if f.annul then (s.npc + 4, s.npc + 8) else (s.npc, s.npc + 4) := by
  unfold branch
  rw [displacement_eq, BitVec.add_comm]
  split
  · rfl
  · split <;> rfl

theorem iBa_pc (f : BranchFields) :
    let target := s.pc + 4 * f.disp22.signExtend 32
    ((s.iBa f).pc, (s.iBa f).npc) = if f.annul then (target, target + 4) else (s.npc, target) := by
  unfold iBa
  rw [displacement_eq]
  split <;> rfl

/-- The condition codes after a comparison. -/
theorem icc_compare (rs1 : RegNo) {rs2 : RegNo} (h2 : rs2 ≠ 0) :
    let a := s.reg rs1
    let b := s.reg rs2
    (s.iuCycleStep h (.subcc ⟨0, rs1, .reg rs2⟩)).Icc (a - b).msb (a - b == 0)
      (SubWithBorrow.overflow a b false) (SubWithBorrow.borrow a b false) := by
  have he := (CcOp.subtract_exact_iff h s .subcc ⟨0, rs1, .reg rs2⟩ false rfl
    (SubWithBorrow.diff_false _ _).symm rfl rfl).mpr fun ho => absurd (Operand.reg.inj ho) h2
  exact he.icc

/-- After a comparison, wherever it is followed by a branch: the branch is taken exactly if
the relation holds, and goes on where the architecture says. -/
theorem compare_and_branch {rs1 rs2 : RegNo} (h2 : rs2 ≠ 0) (c : Cond) (f : BranchFields)
    (pc npc : Uint32) :
    let t := (s.iuCycleStep h (.subcc ⟨0, rs1, .reg rs2⟩)).goto pc npc
    let target := pc + 4 * f.disp22.signExtend 32
    let u := t.iuCycleStep h (c.instr f)
    let v := t.iuCycleStep h (.ba f)
    (u.pc, u.npc) = (if c.relation (s.reg rs1) (s.reg rs2) then (npc, target)
      else if f.annul then (npc + 4, npc + 8) else (npc, npc + 4)) ∧
    (v.pc, v.npc) = if f.annul then (target, target + 4) else (npc, target) := by
  intro t target u v
  have hu : (u.pc, u.npc) = ((t.execute h (c.instr f)).pc, (t.execute h (c.instr f)).npc) :=
    Prod.ext (setReg_pc _ _ _) (setReg_npc _ _ _)
  have hv : (v.pc, v.npc) = ((t.execute h (.ba f)).pc, (t.execute h (.ba f)).npc) :=
    Prod.ext (setReg_pc _ _ _) (setReg_npc _ _ _)
  obtain ⟨hn, hz, ho, hc⟩ := (s.icc_compare h rs1 h2).congr (t := t) rfl
  refine ⟨?_, hv.trans (t.iBa_pc f)⟩
  rw [hu, execute_cond, hn, hz, ho, hc, branch_pc]
  simp only [Cond.icc_sub_iff]
  rfl

/-- `bl` with annul, in the delay slot of a branch to 0x200. -/
theorem compare_and_branch_bl :
    let f : BranchFields := ⟨true, 4⟩
    let t := (resetState.iuCycleStep bareHost (.subcc ⟨0, 8, .reg 9⟩)).goto 0x104 0x200
    let target := 0x104 + 4 * f.disp22.signExtend 32
    let u := t.iuCycleStep bareHost (Cond.bl.instr f)
    let v := t.iuCycleStep bareHost (.ba f)
    (u.pc, u.npc) = (if Cond.bl.relation (resetState.reg 8) (resetState.reg 9) then (0x200, target)
      else if f.annul then (0x200 + 4, 0x200 + 8) else (0x200, 0x200 + 4)) ∧
    (v.pc, v.npc) = if f.annul then (target, target + 4) else (0x200, target) :=
  compare_and_branch bareHost resetState (by decide) .bl ⟨true, 4⟩ 0x104 0x200

end SparcState

end SkyEye.Sparc
