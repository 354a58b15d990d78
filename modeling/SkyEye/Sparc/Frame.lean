import SkyEye.Sparc.Instr

/-!
# What the operations leave alone

Registers read back, and the fields that writing a register, the condition codes, the
bus and a signalled trap do not touch.
-/

namespace SkyEye.Sparc.SparcState

variable {M : Type} (h : Host M) (s : SparcState M)

/-! ## Registers -/

@[simp] theorem setReg_regwptr (x : Nat) (v : Uint32) : (s.setReg x v).regwptr = s.regwptr := by
  unfold setReg; split <;> rfl
@[simp] theorem setReg_psr (x : Nat) (v : Uint32) : (s.setReg x v).psr = s.psr := by
  unfold setReg; split <;> rfl
@[simp] theorem setReg_wim (x : Nat) (v : Uint32) : (s.setReg x v).wim = s.wim := by
  unfold setReg; split <;> rfl
@[simp] theorem setReg_tbr (x : Nat) (v : Uint32) : (s.setReg x v).tbr = s.tbr := by
  unfold setReg; split <;> rfl
@[simp] theorem setReg_pc (x : Nat) (v : Uint32) : (s.setReg x v).pc = s.pc := by
  unfold setReg; split <;> rfl
@[simp] theorem setReg_npc (x : Nat) (v : Uint32) : (s.setReg x v).npc = s.npc := by
  unfold setReg; split <;> rfl
@[simp] theorem setReg_y (x : Nat) (v : Uint32) : (s.setReg x v).y = s.y := by
  unfold setReg; split <;> rfl
@[simp] theorem setReg_irqPending (x : Nat) (v : Uint32) :
    (s.setReg x v).irqPending = s.irqPending := by
  unfold setReg; split <;> rfl

@[simp] theorem setReg_cwp (x : Nat) (v : Uint32) : (s.setReg x v).cwp = s.cwp := by
  unfold cwp; rw [setReg_psr]

theorem reg_setReg (x y : Nat) (v : Uint32) :
    (s.setReg x v).reg y = if y = x then v else s.reg y := by
  unfold setReg reg
  by_cases hx : x > 7 <;> by_cases hy : y > 7
  · have hi : s.regwptr + (y - 8) = s.regwptr + (x - 8) ↔ y = x := by omega
    simp only [hx, hy, if_true, Function.update_apply, hi]
  · have hne : y ≠ x := by omega
    simp only [hx, hy, if_true, if_false, hne]
  · have hne : y ≠ x := by omega
    simp only [hx, hy, if_true, if_false, hne]
  · simp only [hx, hy, if_false, Function.update_apply]

/-- `%g0` written is another register left alone. -/
theorem reg_setReg_of_ne {x y : Nat} (hxy : y ≠ x) (v : Uint32) :
    (s.setReg x v).reg y = s.reg y := by
  rw [reg_setReg, if_neg hxy]

variable {s} in
/-- States with the same registers in sight read the same. -/
theorem reg_congr {t : SparcState M} (hg : s.global = t.global) (hb : s.regbase = t.regbase)
    (hp : s.regwptr = t.regwptr) (x : Nat) : s.reg x = t.reg x := by
  unfold reg; rw [hg, hb, hp]

/-! ## Condition codes -/

@[simp] theorem setIcc_regwptr (b : Nat) (c : Bool) : (s.setIcc b c).regwptr = s.regwptr := by
  unfold setIcc; split <;> rfl
@[simp] theorem setIcc_y (b : Nat) (c : Bool) : (s.setIcc b c).y = s.y := by
  unfold setIcc; split <;> rfl
@[simp] theorem setIcc_irqPending (b : Nat) (c : Bool) :
    (s.setIcc b c).irqPending = s.irqPending := by
  unfold setIcc; split <;> rfl

/-- The bits from the condition codes up to `ET` are no part of the `CWP`. -/
theorem bits_cwp_setBit {b : Nat} (hb : b < 32) (hc : PSR_CWP_last < b) (x : Uint32) :
    bits (setBit x b) PSR_CWP_last PSR_CWP_first = bits x PSR_CWP_last PSR_CWP_first := by
  refine bits_congr (by decide) (by decide) fun i _ hi => ?_
  have hib : i ≠ b := by omega
  rw [bit_setBit hb, decide_eq_false hib, Bool.or_false]

theorem bits_cwp_clearBit {b : Nat} (hb : b < 32) (hc : PSR_CWP_last < b) (x : Uint32) :
    bits (clearBit x b) PSR_CWP_last PSR_CWP_first = bits x PSR_CWP_last PSR_CWP_first := by
  refine bits_congr (by decide) (by decide) fun i _ hi => ?_
  have hib : i ≠ b := by omega
  rw [bit_clearBit hb, decide_eq_false hib, Bool.not_false, Bool.and_true]

theorem setIcc_cwp {b : Nat} (hb : b < 32) (hc : PSR_CWP_last < b) (c : Bool) :
    (s.setIcc b c).cwp = s.cwp := by
  unfold setIcc
  cases c with
  | false => rfl
  | true => exact bits_cwp_setBit hb hc s.psr

@[simp] theorem clearIcc_cwp : s.clearIcc.cwp = s.cwp := by
  unfold clearIcc cwp
  rw [bits_cwp_clearBit (by decide) (by decide), bits_cwp_clearBit (by decide) (by decide),
    bits_cwp_clearBit (by decide) (by decide), bits_cwp_clearBit (by decide) (by decide)]

@[simp] theorem clearIcc_irqPending : s.clearIcc.irqPending = s.irqPending := rfl

/-! ## Going on to the next instruction -/

@[simp] theorem advance_irqPending : s.advance.irqPending = s.irqPending := rfl

/-! ## The bus -/

/-- The status of the bus is always 0, and only memory changes. -/
theorem busRead_eq (size : Nat) (addr value : Uint32) :
    ∃ value' mem, s.busRead h size addr value = (0, value', { s with mem := mem }) := by
  unfold busRead
  split
  · exact ⟨_, _, rfl⟩
  · exact ⟨value, s.mem, rfl⟩

theorem busWrite_eq (size : Nat) (addr value : Uint32) :
    ∃ mem, s.busWrite h size addr value = (0, { s with mem := mem }) := by
  unfold busWrite
  split
  · exact ⟨_, rfl⟩
  · exact ⟨s.mem, rfl⟩

@[simp] theorem setFpReg_irqPending (x : Nat) (v : Uint32) :
    (s.setFpReg x v).irqPending = s.irqPending := rfl
/-! ## Traps -/

/-- A signalled trap is one in the TBR and in `irq_pending`. -/
theorem signal_eq (trap : Int) :
    s.signal trap = s ∨ ∃ tbr, s.signal trap = { s with tbr := tbr, irqPending := true } := by
  unfold signal
  split
  · exact .inl rfl
  · right
    cases ttTable[trap.toNat]? with
    | none => exact ⟨_, rfl⟩
    | some tt => exact ⟨_, rfl⟩

theorem signal_of_nonneg {trap : Int} (ht : 0 ≤ trap) :
    ∃ tbr, s.signal trap = { s with tbr := tbr, irqPending := true } := by
  unfold signal
  rw [if_neg (by omega)]
  cases ttTable[trap.toNat]? with
  | none => exact ⟨_, rfl⟩
  | some tt => exact ⟨_, rfl⟩

@[simp] theorem signal_regwptr (trap : Int) : (s.signal trap).regwptr = s.regwptr := by
  obtain he | ⟨tbr, he⟩ := s.signal_eq trap <;> rw [he]
@[simp] theorem signal_cwp (trap : Int) : (s.signal trap).cwp = s.cwp := by
  obtain he | ⟨tbr, he⟩ := s.signal_eq trap <;> rw [he]; rfl
/-! ## Windows -/

@[simp] theorem memcpy32_irqPending (d src : Nat) : (s.memcpy32 d src).irqPending = s.irqPending :=
  rfl

@[simp] theorem iuSetCwp_irqPending (newCwp : Uint32) :
    (s.iuSetCwp newCwp).irqPending = s.irqPending := by
  unfold iuSetCwp; dsimp only; split <;> split <;> rfl

@[simp] theorem iuSubCwp_irqPending : s.iuSubCwp.irqPending = s.irqPending := by
  unfold iuSubCwp; rw [iuSetCwp_irqPending, setReg_irqPending]

@[simp] theorem iuAddCwp_irqPending : s.iuAddCwp.irqPending = s.irqPending := by
  unfold iuAddCwp; rw [iuSetCwp_irqPending, setReg_irqPending]

@[simp] theorem iuSetCwp_pc (newCwp : Uint32) : (s.iuSetCwp newCwp).pc = s.pc := by
  unfold iuSetCwp; dsimp only; split <;> split <;> rfl

@[simp] theorem iuSetCwp_npc (newCwp : Uint32) : (s.iuSetCwp newCwp).npc = s.npc := by
  unfold iuSetCwp; dsimp only; split <;> split <;> rfl

@[simp] theorem iuSetCwp_tbr (newCwp : Uint32) : (s.iuSetCwp newCwp).tbr = s.tbr := by
  unfold iuSetCwp; dsimp only; split <;> split <;> rfl

/-! ## The trap entry -/

/-- The PSR of a handler: `ET` clear, `S` saved in `PS` and set. -/
def trapPsr (psr : Uint32) : Uint32 :=
  let psr := clearBit psr PSR_ET
  setBit (if bit psr PSR_S then setBit psr PSR_PS else clearBit psr PSR_PS) PSR_S

/-- The state in which a trap saves the program counters: in the handler's window. -/
def enterTrap : SparcState M := { s with psr := trapPsr s.psr }.iuSubCwp

/-- The state that goes on at `pc`. -/
def goto (pc npc : Uint32) : SparcState M := { s with pc := pc, npc := npc }

@[simp] theorem goto_reg (pc npc : Uint32) (x : Nat) : (s.goto pc npc).reg x = s.reg x := rfl

variable {s} in
theorem trigger_eq_some {t : SparcState M} :
    s.trigger = some t ↔ bit s.psr PSR_ET = true ∧
      t = ((s.enterTrap.setReg L1 s.pc).setReg L2 s.npc).goto s.tbr (s.tbr + 4) := by
  have hpc : s.enterTrap.pc = s.pc := by simp [enterTrap, iuSubCwp]
  have hnpc : (s.enterTrap.setReg L1 s.pc).npc = s.npc := by simp [enterTrap, iuSubCwp]
  have htbr : ((s.enterTrap.setReg L1 s.pc).setReg L2 s.npc).tbr = s.tbr := by
    simp [enterTrap, iuSubCwp]
  have hs : s.trigger = if bit s.psr PSR_ET = true then
      let u := (s.enterTrap.setReg L1 s.enterTrap.pc)
      some ((u.setReg L2 u.npc).goto (u.setReg L2 u.npc).tbr ((u.setReg L2 u.npc).tbr + 4))
      else none := rfl
  rw [hs]
  dsimp only
  rw [hpc, hnpc, htbr]
  split
  · rename_i het
    simp only [Option.some.injEq, het, true_and, eq_comm]
  · rename_i het
    simp only [reduceCtorEq, het, false_and]

/-! ## The `CWP` of a changed PSR -/

theorem bits_cwp_trapPsr (psr : Uint32) :
    bits (trapPsr psr) PSR_CWP_last PSR_CWP_first = bits psr PSR_CWP_last PSR_CWP_first := by
  unfold trapPsr
  dsimp only
  rw [bits_cwp_setBit (by decide) (by decide)]
  split
  · rw [bits_cwp_setBit (by decide) (by decide), bits_cwp_clearBit (by decide) (by decide)]
  · rw [bits_cwp_clearBit (by decide) (by decide), bits_cwp_clearBit (by decide) (by decide)]

theorem rettTo_cwp (daddr : Uint32) : (s.rettTo daddr).cwp = s.iuAddCwp.cwp := by
  unfold rettTo cwp
  dsimp only
  rw [bits_cwp_setBit (by decide) (by decide)]
  split
  · rw [bits_cwp_setBit (by decide) (by decide)]
  · rw [bits_cwp_clearBit (by decide) (by decide)]

/-- The bits that `wrpsr` clears are no part of the `CWP`. -/
theorem bits_cwp_clearBits {n m : Nat} (hn : n < 32) (hm : m ≤ n) (hc : PSR_CWP_last < m)
    (x : Uint32) :
    bits (clearBits x n m) PSR_CWP_last PSR_CWP_first = bits x PSR_CWP_last PSR_CWP_first := by
  refine bits_congr (by decide) (by decide) fun i _ hi => ?_
  have him : ¬m ≤ i := by omega
  rw [bit_clearBits hn hm, decide_eq_false him, Bool.false_and, Bool.not_false, Bool.and_true]

end SkyEye.Sparc.SparcState
