import SkyEye.Sparc.Frame
import SkyEye.Lib.AddWithCarry

/-!
# Arithmetic and logic with condition codes

`addcc`, `subcc`, `subxcc`, `andcc`, `andncc` and `orcc` against what the architecture
makes of the operands: the result, its sign, whether it is zero, the signed overflow and
the carry. `subcc` and `subxcc` read `rs2` again when `rd` is written, and `orcc` has no
register form, so these three meet it under a condition.
-/

namespace SkyEye.Sparc

namespace SparcState

variable {M : Type} (h : Host M) (s : SparcState M)

/-! ## Condition codes one by one -/

theorem bit_psr_setIcc {b : Nat} (hb : b < 32) (c : Bool) (i : Nat) :
    bit (s.setIcc b c).psr i = (bit s.psr i || c && decide (i = b)) := by
  unfold setIcc
  cases c with
  | false => rw [Bool.false_and, Bool.or_false]; rfl
  | true => rw [if_pos rfl, Bool.true_and]; exact bit_setBit hb s.psr i

theorem bit_psr_clearIcc (i : Nat) :
    bit s.clearIcc.psr i = (bit s.psr i && !decide (i = PSR_icc_Z) && !decide (i = PSR_icc_N) &&
      !decide (i = PSR_icc_V) && !decide (i = PSR_icc_C)) := by
  unfold clearIcc
  rw [bit_clearBit (by decide), bit_clearBit (by decide), bit_clearBit (by decide),
    bit_clearBit (by decide)]

@[simp] theorem reg_setIcc (b : Nat) (c : Bool) (x : Nat) : (s.setIcc b c).reg x = s.reg x := by
  unfold setIcc; split <;> rfl

@[simp] theorem reg_clearIcc (x : Nat) : s.clearIcc.reg x = s.reg x := rfl

@[simp] theorem reg_advance (x : Nat) : s.advance.reg x = s.reg x := rfl

@[simp] theorem psr_advance : s.advance.psr = s.psr := rfl

/-- The condition codes of a state. -/
structure Icc (n z v c : Bool) : Prop where
  n : s.flagN = n
  z : s.flagZ = z
  v : s.flagV = v
  c : s.flagC = c

variable {s} in
theorem Icc.congr {t : SparcState M} {n z v c : Bool} (hi : s.Icc n z v c) (ht : t.psr = s.psr) :
    t.Icc n z v c := by
  obtain ⟨hn, hz, hv, hc⟩ := hi
  unfold flagN flagZ flagV flagC at *
  rw [← ht] at hn hz hv hc
  exact ⟨hn, hz, hv, hc⟩

/-- The four codes set one after the other, as `subcc` has it. -/
theorem icc_set (n z v c : Bool) :
    ((((s.clearIcc.setIcc PSR_icc_N n).setIcc PSR_icc_Z z).setIcc PSR_icc_V v).setIcc
      PSR_icc_C c).Icc n z v c := by
  constructor <;>
    simp (disch := decide) [flagN, flagZ, flagV, flagC, bit_psr_setIcc, bit_psr_clearIcc,
      PSR_icc_N, PSR_icc_Z, PSR_icc_V, PSR_icc_C]

/-- The other order, of `addcc`. -/
theorem icc_set_rev (n z v c : Bool) :
    ((((s.clearIcc.setIcc PSR_icc_C c).setIcc PSR_icc_V v).setIcc PSR_icc_Z z).setIcc
      PSR_icc_N n).Icc n z v c := by
  constructor <;>
    simp (disch := decide) [flagN, flagZ, flagV, flagC, bit_psr_setIcc, bit_psr_clearIcc,
      PSR_icc_N, PSR_icc_Z, PSR_icc_V, PSR_icc_C]

theorem icc_iccZN (z : Uint32) : (s.iccZN z).Icc z.msb (z == 0) false false := by
  rw [BitVec.msb_eq_getLsbD_last]
  exact s.icc_set_rev (bit z 31) (z == 0) false false

end SparcState

/-! ## What the architecture says -/

/-- The instructions of this module. -/
inductive CcOp where
  | addcc
  | subcc
  | subxcc
  | andcc
  | andncc
  | orcc
  deriving DecidableEq

namespace CcOp

def instr : CcOp → Fields → Instr
  | addcc => .addcc
  | subcc => .subcc
  | subxcc => .subxcc
  | andcc => .andcc
  | andncc => .andncc
  | orcc => .orcc

/-- The result of two operands and the carry of before. -/
def value (x y : Uint32) (c : Bool) : CcOp → Uint32
  | addcc => x + y
  | subcc => x - y
  | subxcc => x - y - if c then 1 else 0
  | andcc => x &&& y
  | andncc => x &&& ~~~y
  | orcc => x ||| y

/-- `V`: the result is not that of the signed operands. -/
def overflow (x y : Uint32) (c : Bool) : CcOp → Bool
  | addcc => AddWithCarry.overflow x y false
  | subcc => SubWithBorrow.overflow x y false
  | subxcc => SubWithBorrow.overflow x y c
  | andcc | andncc | orcc => false

/-- `C`: a carry or a borrow out of bit 31. -/
def carryOut (x y : Uint32) (c : Bool) : CcOp → Bool
  | addcc => AddWithCarry.carry x y false
  | subcc => SubWithBorrow.borrow x y false
  | subxcc => SubWithBorrow.borrow x y c
  | andcc | andncc | orcc => false

variable {M : Type} (h : Host M) (s : SparcState M) (op : CcOp) (f : Fields)

/-- The result of an instruction on a state. -/
def result : Uint32 := op.value (s.reg f.rs1) (s.operand2 f.op2) s.flagC

/-- `t` is what the instruction makes of `s`: `rd` has the result and the other registers
are as before, with `%g0` 0 throughout, and the condition codes are those of the operands
that `s` holds. -/
structure Exact (t : SparcState M) : Prop where
  reg : ∀ x : RegNo, t.reg x = if x = 0 then 0 else if x = f.rd then op.result s f else s.reg x
  icc : t.Icc (op.result s f).msb (op.result s f == 0)
    (op.overflow (s.reg f.rs1) (s.operand2 f.op2) s.flagC)
    (op.carryOut (s.reg f.rs1) (s.operand2 f.op2) s.flagC)

/-- When the code meets it. `subcc` and `subxcc` read the sign of the result for that of
`rs2` where `rd` is `rs2`; the register form of `orcc` acts as if the result were 0, and
does not write it. -/
def Holds : Prop :=
  match op with
  | addcc | andcc | andncc => True
  | subcc | subxcc => f.op2 = .reg f.rd → (op.result s f).msb = (s.operand2 f.op2).msb
  | orcc => ∀ rs2, f.op2 = .reg rs2 → op.result s f = 0 ∧ (f.rd = 0 ∨ s.reg f.rd = 0)

instance : Decidable (op.Holds s f) := by
  unfold Holds
  cases op <;> infer_instance

variable {op s f}

theorem Exact.iff_icc {t u : SparcState M} (hp : t.psr = u.psr) (n z v c : Bool)
    (hi : u.Icc n z v c) (hr : ∀ x : RegNo, t.reg x =
      if x = 0 then 0 else if x = f.rd then op.result s f else s.reg x) :
    op.Exact s f t ↔ n = (op.result s f).msb ∧ z = (op.result s f == 0) ∧
      v = op.overflow (s.reg f.rs1) (s.operand2 f.op2) s.flagC ∧
      c = op.carryOut (s.reg f.rs1) (s.operand2 f.op2) s.flagC := by
  have ht := hi.congr hp
  constructor
  · intro he
    exact ⟨ht.n.symm.trans he.icc.n, ht.z.symm.trans he.icc.z, ht.v.symm.trans he.icc.v,
      ht.c.symm.trans he.icc.c⟩
  · rintro ⟨rfl, rfl, rfl, rfl⟩
    exact ⟨hr, ht⟩

end CcOp

namespace SparcState

variable {M : Type} (h : Host M) (s : SparcState M)

theorem reg_written (rd : RegNo) (z : Uint32) (x : RegNo) :
    ((s.setReg rd z).setReg G0 0).reg x =
      if x = 0 then 0 else if x = rd then z else s.reg x := by
  have h0 : (x : Nat) = G0 ↔ x = 0 := by
    rw [Fin.ext_iff]
    rfl
  have hrd : (x : Nat) = rd ↔ x = rd := Fin.ext_iff.symm
  simp only [reg_setReg, h0, hrd]

/-- What follows the result of an instruction leaves the registers alone. -/
theorem reg_cycle_of_reg (i : Instr) (rd : RegNo) (z : Uint32)
    (hi : ∀ x, (s.execute h i).reg x = (s.setReg rd z).reg x) (x : RegNo) :
    (s.iuCycleStep h i).reg x = if x = 0 then 0 else if x = rd then z else s.reg x := by
  rw [← reg_written, iuCycleStep, reg_setReg, reg_setReg, hi x]

theorem icc_cycle_of_icc {i : Instr} {n z v c : Bool} (hi : (s.execute h i).Icc n z v c) :
    (s.iuCycleStep h i).Icc n z v c :=
  hi.congr (setReg_psr _ _ _)

/-! ## The instructions -/

theorem bit_31 (x : Uint32) : bit x 31 = x.msb := (BitVec.msb_eq_getLsbD_last x).symm

theorem sum_false (x y : Uint32) : AddWithCarry.sum x y false = x + y := by
  simp [AddWithCarry.sum]

theorem addcc_overflow (x y : Uint32) : AddWithCarry.overflow x y false =
    (x.msb && y.msb && !(x + y).msb || !x.msb && !y.msb && (x + y).msb) := by
  rw [AddWithCarry.overflow_eq_msb x y false (by omega), sum_false]

theorem addcc_carry (x y : Uint32) : AddWithCarry.carry x y false =
    (x.msb && y.msb || !(x + y).msb && (y.msb || x.msb)) := by
  rw [AddWithCarry.carry_eq_msb x y false (by omega), sum_false]
  cases x.msb <;> cases y.msb <;> cases (x + y).msb <;> rfl

theorem icc_addcc (f : Fields) :
    let x := s.reg f.rs1
    let y := s.operand2 f.op2
    (s.iAddcc f).Icc (x + y).msb (x + y == 0) (AddWithCarry.overflow x y false)
      (AddWithCarry.carry x y false) := by
  intro x y
  rw [addcc_overflow, addcc_carry]
  simp only [← bit_31]
  exact ((s.setReg f.rd (x + y)).icc_set_rev (bit (x + y) 31) (x + y == 0) _ _).congr
    (psr_advance _)

/-- The flags of `subcc` and `subxcc`, as the code has them: from the sign of the second
operand as it is when the result is written. -/
theorem icc_subtract (z : Uint32) (f : Fields) :
    let x := s.reg f.rs1
    let y := (s.setReg f.rd z).operand2 f.op2
    (s.subtract z f).Icc z.msb (z == 0) (x.msb && !y.msb && !z.msb || !x.msb && y.msb && z.msb)
      (!x.msb && y.msb || z.msb && (!x.msb || y.msb)) := by
  intro x y
  simp only [← bit_31]
  exact ((s.setReg f.rd z).icc_set (bit z 31) (z == 0) _ _).congr (psr_advance _)

theorem operand2_setReg (rd : RegNo) (z : Uint32) (o : Operand) :
    (s.setReg rd z).operand2 o = if o = .reg rd then z else s.operand2 o := by
  cases o with
  | reg rs2 =>
    have hr : (rs2 : Nat) = rd ↔ Operand.reg rs2 = .reg rd := by
      rw [Operand.reg.injEq, Fin.ext_iff]
    show (s.setReg rd z).reg rs2 = _
    rw [reg_setReg]
    simp only [hr]
    rfl
  | simm13 imm => rfl

/-! ## When the flags of a subtraction are right -/

/-- Where the sign of the result is read for that of the second operand, the flags are
right only if the two are the same. -/
theorem subtract_flags_iff {x y y' z : Uint32} {b same : Bool}
    (hz : z = SubWithBorrow.diff x y b) (hy : y' = if same then z else y) :
    (x.msb && !y'.msb && !z.msb || !x.msb && y'.msb && z.msb) = SubWithBorrow.overflow x y b ∧
      (!x.msb && y'.msb || z.msb && (!x.msb || y'.msb)) = SubWithBorrow.borrow x y b ↔
    (same = true → z.msb = y.msb) := by
  rw [SubWithBorrow.overflow_eq_msb x y b (by omega), SubWithBorrow.borrow_eq_msb x y b (by omega),
    ← hz, hy]
  cases same with
  | false => simp
  | true =>
    simp only [if_true, true_imp_iff]
    cases x.msb <;> cases y.msb <;> cases z.msb <;> decide

end SparcState

namespace CcOp

variable {M : Type} (h : Host M) (s : SparcState M) (op : CcOp) (f : Fields)

theorem subtract_exact_iff (b : Bool)
    (hi : s.execute h (op.instr f) = s.subtract (op.result s f) f)
    (hz : op.result s f = SubWithBorrow.diff (s.reg f.rs1) (s.operand2 f.op2) b)
    (hv : op.overflow (s.reg f.rs1) (s.operand2 f.op2) s.flagC =
      SubWithBorrow.overflow (s.reg f.rs1) (s.operand2 f.op2) b)
    (hc : op.carryOut (s.reg f.rs1) (s.operand2 f.op2) s.flagC =
      SubWithBorrow.borrow (s.reg f.rs1) (s.operand2 f.op2) b) :
    op.Exact s f (s.iuCycleStep h (op.instr f)) ↔
      (f.op2 = .reg f.rd → (op.result s f).msb = (s.operand2 f.op2).msb) := by
  have hicc := s.icc_cycle_of_icc h (i := op.instr f) (by
    rw [hi]
    exact s.icc_subtract (op.result s f) f)
  have hreg := s.reg_cycle_of_reg h (op.instr f) f.rd (op.result s f) (by
    intro x
    rw [hi]
    simp [SparcState.subtract])
  have hy : (s.setReg f.rd (op.result s f)).operand2 f.op2 =
      if decide (f.op2 = .reg f.rd) then op.result s f else s.operand2 f.op2 := by
    rw [s.operand2_setReg]
    simp only [decide_eq_true_eq]
  rw [Exact.iff_icc rfl _ _ _ _ hicc hreg, hv, hc, and_iff_right rfl, and_iff_right rfl,
    SparcState.subtract_flags_iff hz hy, decide_eq_true_eq]

theorem logic_exact (hi : s.execute h (op.instr f) =
      ((s.setReg f.rd (op.result s f)).iccZN (op.result s f)).advance)
    (hv : op.overflow (s.reg f.rs1) (s.operand2 f.op2) s.flagC = false)
    (hc : op.carryOut (s.reg f.rs1) (s.operand2 f.op2) s.flagC = false) :
    op.Exact s f (s.iuCycleStep h (op.instr f)) where
  reg := s.reg_cycle_of_reg h _ _ _ (by
    intro x
    rw [hi]
    simp [SparcState.iccZN])
  icc := s.icc_cycle_of_icc h (by
    rw [hi, hv, hc]
    exact ((s.setReg f.rd (op.result s f)).icc_iccZN _).congr (SparcState.psr_advance _))

theorem addcc_exact : addcc.Exact s f (s.iuCycleStep h (.addcc f)) where
  reg := s.reg_cycle_of_reg h _ _ _ (by
    intro x
    simp [SparcState.execute, SparcState.iAddcc, result, value])
  icc := s.icc_cycle_of_icc h (s.icc_addcc f)

/-- The register form of `orcc` clears `rd` in appearance only: no register changes. -/
theorem orcc_reg_exact_iff {rs2 : RegNo} (ho : f.op2 = .reg rs2) :
    orcc.Exact s f (s.iuCycleStep h (.orcc f)) ↔
      orcc.result s f = 0 ∧ (f.rd = 0 ∨ s.reg f.rd = 0) := by
  have hx : s.execute h (.orcc f) = (s.iccZN 0).advance := by
    simp [SparcState.execute, SparcState.iOrcc, ho]
  have hicc := s.icc_cycle_of_icc h (i := .orcc f) (by
    rw [hx]
    exact (s.icc_iccZN 0).congr (SparcState.psr_advance _))
  have hreg : ∀ x : RegNo, (s.iuCycleStep h (.orcc f)).reg x = if x = 0 then 0 else s.reg x := by
    intro x
    have h0 : (x : Nat) = G0 ↔ x = 0 := by
      rw [Fin.ext_iff]
      rfl
    rw [SparcState.iuCycleStep, hx, SparcState.reg_setReg]
    simp [SparcState.iccZN, h0]
  constructor
  · rintro ⟨hr, hi⟩
    have hz : orcc.result s f = 0 := by
      have he := hicc.z.symm.trans hi.z
      simpa using he.symm
    refine ⟨hz, ?_⟩
    by_cases hrd : f.rd = 0
    · exact .inl hrd
    · have hw := (hreg f.rd).symm.trans (hr f.rd)
      rw [if_neg hrd, if_neg hrd, if_pos rfl, hz] at hw
      exact .inr hw
  · rintro ⟨hz, hrd⟩
    refine ⟨fun x => ?_, ?_⟩
    · rw [hreg x, hz]
      by_cases hx0 : x = 0
      · rw [if_pos hx0, if_pos hx0]
      · rw [if_neg hx0, if_neg hx0]
        split
        · rename_i hxr
          subst hxr
          exact hrd.resolve_left hx0
        · rfl
    · rw [hz]
      exact hicc

/-- The instructions write the result and set the condition codes exactly where `Holds`. -/
theorem cc_exact_iff : op.Exact s f (s.iuCycleStep h (op.instr f)) ↔ op.Holds s f := by
  cases op with
  | addcc => exact iff_of_true (addcc_exact h s f) trivial
  | andcc => exact iff_of_true (logic_exact h s andcc f rfl rfl rfl) trivial
  | andncc => exact iff_of_true (logic_exact h s andncc f rfl rfl rfl) trivial
  | subcc =>
    exact subtract_exact_iff h s subcc f false rfl (SubWithBorrow.diff_false _ _).symm rfl rfl
  | subxcc =>
    refine subtract_exact_iff h s subxcc f s.flagC ?_ rfl rfl rfl
    rfl
  | orcc =>
    cases ho : f.op2 with
    | reg rs2 =>
      rw [show orcc.instr f = .orcc f from rfl, orcc_reg_exact_iff h s f ho]
      simp [Holds, ho]
    | simm13 imm =>
      have hx : s.execute h (.orcc f) =
          ((s.setReg f.rd (orcc.result s f)).iccZN (orcc.result s f)).advance := by
        simp [SparcState.execute, SparcState.iOrcc, ho, result, value, SparcState.operand2]
      refine iff_of_true (logic_exact h s orcc f hx rfl rfl) ?_
      intro rs2 hr
      rw [ho] at hr
      cases hr

/-- `orcc` of two registers: with `%o0` 1, `orcc %o0, %g0, %o1` leaves `%o1` 0 and sets `Z`. -/
theorem orcc_not_exact :
    ¬∀ (s : SparcState Unit) (op : CcOp) (f : Fields),
      op.Exact s f (s.iuCycleStep bareHost (op.instr f)) := by
  intro hall
  have he := hall (resetState.setReg 8 1) orcc ⟨9, 8, .reg 0⟩
  have hz := ((orcc_reg_exact_iff bareHost _ _ rfl).mp he).1
  revert hz
  decide

end CcOp

end SkyEye.Sparc
