import SkyEye.Arm.DataProc
import SkyEye.Arm.Shifter
import SkyEye.Lib.AddWithCarry

/-!
# The results of data processing

The flags that the emulator computes by cases, in the terms of the architecture: additions
with a carry.
-/

namespace SkyEye

/-! ## Results -/

namespace State

variable {U : Type} (s : State U)

/-- N and Z tell a result. -/
def withNZ (v : ARMword) : State U := { s with nFlag := v.msb, zFlag := v == 0 }

/-- The flags of `x + y + c`. -/
def withSum (x y : ARMword) (c : Bool) : State U :=
  { s.withNZ (AddWithCarry.sum x y c) with
    cFlag := AddWithCarry.carry x y c, vFlag := AddWithCarry.overflow x y c }

/-- `x + y + c` into a register, with flags. -/
def sumTo (x y : ARMword) (c : Bool) (rd : RegNo) : State U :=
  (s.withSum x y c).setReg rd (AddWithCarry.sum x y c)

/-- A value into a register, with N and Z. -/
def valueTo (v : ARMword) (rd : RegNo) : State U := (s.withNZ v).setReg rd v

/-- `x` shifted by `n` into a register; a shift by 0 leaves C. -/
def shiftTo (op : Shift) (x : ARMword) (n : Nat) (rd : RegNo) : State U :=
  { s with cFlag := if n = 0 then s.cFlag else op.lastOut x n }.valueTo (op.apply x n) rd

end State

open AddWithCarry

namespace State

variable {U : Type} {s : State U} {x y : ARMword}

theorem negZero_eq (v : ARMword) : s.negZero v = s.withNZ v := by
  rw [negZero, withNZ, BitVec.msb_eq_getLsbD_last]
  by_cases h : v.getLsbD 31 = true
  · have hv : (v == 0) = false := by
      refine beq_eq_false_iff_ne.mpr ?_
      rintro rfl
      cases h
    rw [if_pos h, hv, h]
  · rw [if_neg h, Bool.eq_false_iff.mpr h]
    by_cases h0 : v = 0
    · rw [if_pos h0, h0]
      rfl
    · rw [if_neg h0, beq_eq_false_iff_ne.mpr h0]

/-- Words without the two highest bits add up without a carry or an overflow. -/
theorem sum_small (h : (x ||| y) >>> 30 = 0) (c : Bool) :
    (sum x y c).msb = false ∧ carry x y c = false ∧ overflow x y c = false := by
  have hor : (x ||| y).toNat < 2 ^ 30 := by
    have := congrArg BitVec.toNat h
    rw [BitVec.toNat_ushiftRight, Nat.shiftRight_eq_div_pow] at this
    have h0 : (0 : ARMword).toNat = 0 := rfl
    omega
  have hx : x.toNat < 2 ^ 30 := Nat.lt_of_le_of_lt Nat.left_le_or (BitVec.toNat_or x y ▸ hor)
  have hy : y.toNat < 2 ^ 30 := Nat.lt_of_le_of_lt Nat.right_le_or (BitVec.toNat_or x y ▸ hor)
  have hc : c.toNat ≤ 1 := c.toNat_le
  have hs := toNat_sum_cases x y c
  simp only at hs
  have hmsb : (sum x y c).msb = false := by
    rw [BitVec.msb_eq_decide, decide_eq_false_iff_not]
    split at hs <;> omega
  refine ⟨hmsb, ?_, ?_⟩
  · rw [Bool.eq_false_iff, ne_eq, carry_eq_true_iff]
    omega
  · rw [overflow_eq_msb _ _ _ (by decide), hmsb, BitVec.msb_eq_decide, BitVec.msb_eq_decide,
      decide_eq_false (by omega), decide_eq_false (by omega)]
    rfl

theorem addFlags_eq (c : Bool) : s.addFlags x y (sum x y c) = s.withSum x y c := by
  rw [addFlags, withSum, withNZ]
  by_cases h : (x ||| y) >>> 30 = 0
  · obtain ⟨hm, hc, hv⟩ := sum_small h c
    rw [if_neg (not_not.mpr h), hm, hc, hv]
  · rw [if_pos h, carry_eq_msb _ _ _ (by decide), overflow_eq_msb _ _ _ (by decide)]
    simp only [BitVec.msb_eq_getLsbD_last]
    rfl

/-- A subtraction is the sum with the complement. -/
theorem subFlags_eq (c : Bool) : s.subFlags x y (sum x (~~~y) c) =
    { s with cFlag := carry x (~~~y) c, vFlag := overflow x (~~~y) c } := by
  have hmsb (v : ARMword) : v.msb = v.getLsbD 31 := BitVec.msb_eq_getLsbD_last v
  have hny : (~~~y).getLsbD 31 = !y.getLsbD 31 := by simp
  rw [subFlags]
  split
  · rw [carry_eq_msb _ _ _ (by decide), overflow_eq_msb _ _ _ (by decide)]
    simp only [hmsb, hny, subCarry, subOverflow, neg, pos, Bool.not_not]
  · rename_i h
    obtain ⟨hlt, hor⟩ := not_or.mp h
    have hlt : x.toNat < y.toNat := Nat.lt_of_not_le hlt
    have hhigh : (y ||| x).getLsbD 31 = false := by
      have := congrArg (BitVec.getLsbD · 0) (not_not.mp hor)
      simpa using this
    rw [BitVec.getLsbD_or, Bool.or_eq_false_iff] at hhigh
    have hc : carry x (~~~y) c = false := by
      have := y.isLt
      have hc : c.toNat ≤ 1 := c.toNat_le
      rw [Bool.eq_false_iff, ne_eq, carry_eq_true_iff, BitVec.toNat_not]
      omega
    have hv : overflow x (~~~y) c = false := by
      rw [overflow_eq_msb _ _ _ (by decide)]
      simp only [hmsb, hny, hhigh.1, hhigh.2, Bool.not_false, Bool.not_true, Bool.false_and,
        Bool.and_false, Bool.or_self]
    rw [hc, hv]

end State

/-! ## Operations -/

/-- The words and the carry that an arithmetic operation adds; `c` is the carry flag. -/
def DpOp.addends (lhs rhs : ARMword) (c : Bool) : DpOp → ARMword × ARMword × Bool
  | adc => (lhs, rhs, c)
  | sub | cmp => (lhs, ~~~rhs, true)
  | sbc => (lhs, ~~~rhs, c)
  | rsb => (rhs, ~~~lhs, true)
  | rsc => (rhs, ~~~lhs, c)
  | _ => (lhs, rhs, false)

theorem sum_false (x y : ARMword) : sum x y false = x + y := BitVec.add_zero _

theorem sum_not_true (x y : ARMword) : sum x (~~~y) true = x - y := by
  rw [sum_not]
  exact BitVec.sub_zero _

theorem sum_not_eq (x y : ARMword) (c : Bool) : sum x (~~~y) c = x - y - toWord (!c) := by
  rw [sum_not]
  cases c <;> rfl

theorem DpOp.value_eq_sum {op : DpOp} (h : op.isLogical = false) (lhs rhs : ARMword) (c : Bool) :
    op.value lhs rhs c = sum (op.addends lhs rhs c).1 (op.addends lhs rhs c).2.1
      (op.addends lhs rhs c).2.2 := by
  cases op
  case add | cmn => exact (sum_false lhs rhs).symm
  case adc => cases c <;> rfl
  case sub | cmp => exact (sum_not_true lhs rhs).symm
  case rsb => exact (sum_not_true rhs lhs).symm
  case sbc => exact (sum_not_eq lhs rhs c).symm
  case rsc => exact (sum_not_eq rhs lhs c).symm
  all_goals cases h

namespace State

variable {U : Type} {s : State U}

/-- The flags of an arithmetic operation; for `CMN`, `ADD` and `ADC` these are all four. -/
theorem arithFlags_eq {op : DpOp} (h : op.isLogical = false) (lhs rhs : ARMword) (c : Bool) :
    ((s.arithFlags lhs rhs (op.value lhs rhs c) op).withNZ (op.value lhs rhs c)) =
      s.withSum (op.addends lhs rhs c).1 (op.addends lhs rhs c).2.1
        (op.addends lhs rhs c).2.2 := by
  rw [DpOp.value_eq_sum h]
  cases op
  case add | cmn | adc =>
    exact congrArg (State.withNZ · _) (addFlags_eq _)
  case sub | cmp | sbc | rsb | rsc =>
    exact congrArg (State.withNZ · _) (subFlags_eq _)
  all_goals cases h

variable {t : State U} {w v : ARMword} {op : DpOp}

theorem writeSDest_eq (hd : destReg w ≠ 15) (v : ARMword) :
    s.writeSDest w v = s.valueTo v (destReg w) := by
  rw [writeSDest, if_neg hd, negZero_eq]
  rfl

theorem dataProcessingS_arith (hop : op.isLogical = false) (hd : destReg w ≠ 15)
    (hr : s.dpRHS w = (v, t)) :
    s.dataProcessingS w op = t.sumTo (op.addends (s.lhs w) v t.cFlag).1
      (op.addends (s.lhs w) v t.cFlag).2.1 (op.addends (s.lhs w) v t.cFlag).2.2 (destReg w) := by
  rw [dataProcessingS, hop, if_neg Bool.false_ne_true, hr]
  dsimp only
  rw [writeSDest_eq hd, valueTo, arithFlags_eq hop, DpOp.value_eq_sum hop]
  rfl

theorem dataProcessingS_logical (hop : op.isLogical = true) (hd : destReg w ≠ 15)
    (hr : s.dpsRHS w = (v, t)) :
    s.dataProcessingS w op = t.valueTo (op.value (t.lhs w) v t.cFlag) (destReg w) := by
  rw [dataProcessingS, hop, if_pos rfl, hr]
  exact writeSDest_eq hd _

theorem test_arith (hop : op.isLogical = false) (ht : op.isTest = true) (hd : destReg w ≠ 15)
    (hr : s.dpRHS w = (v, t)) :
    s.test w op = t.withSum (op.addends (s.lhs w) v t.cFlag).1
      (op.addends (s.lhs w) v t.cFlag).2.1 (op.addends (s.lhs w) v t.cFlag).2.2 := by
  rw [test, if_neg hd, hop, if_neg Bool.false_ne_true, hr, ← arithFlags_eq hop]
  generalize s.lhs w = x
  cases op
  case cmn =>
    change t.addFlags x v (x + v) = (t.addFlags x v (x + v)).withNZ (x + v)
    rw [← sum_false, addFlags_eq]
    rfl
  case cmp =>
    change (t.negZero (x - v)).subFlags x v (x - v) = (t.subFlags x v (x - v)).withNZ (x - v)
    rw [negZero_eq, ← sum_not_true, subFlags_eq, subFlags_eq]
    rfl
  case tst | teq => cases hop
  all_goals cases ht

theorem test_logical (hop : op.isLogical = true) (hd : destReg w ≠ 15)
    (hr : s.dpsRHS w = (v, s)) : s.test w op = s.withNZ (op.value (s.lhs w) v s.cFlag) := by
  rw [test, if_neg hd, hop, if_pos rfl, hr]
  exact negZero_eq _

end State

end SkyEye
