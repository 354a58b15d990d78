import SkyEye.Arm.Supp

/-!
# The register file behind the banks

Every register of every mode has one home: the `reg` array while the mode's bank
shows it, the home bank's row of `regBank` while another does. `slot` reads the
home; a mode switch moves the contents but not the value of any slot
(`slot_switchMode`), so what a mode sees depends on the slots alone.
-/

namespace SkyEye

/-- The seven modes of 32-bit operation. -/
inductive Mode32 where
  | user
  | fiq
  | irq
  | svc
  | abort
  | undef
  | system
  deriving DecidableEq, Repr

def Mode32.bits : Mode32 → ARMword
  | user => USER32MODE
  | fiq => FIQ32MODE
  | irq => IRQ32MODE
  | svc => SVC32MODE
  | abort => ABORT32MODE
  | undef => UNDEF32MODE
  | system => SYSTEM32MODE

def Mode32.bank : Mode32 → Bank
  | user | system => .user
  | fiq => .fiq
  | irq => .irq
  | svc => .svc
  | abort => .abort
  | undef => .undef

@[simp] theorem modeToBank_bits (m : Mode32) : modeToBank m.bits = m.bank := by
  cases m <;> rfl

@[simp] theorem modeToBank_bits_and (m : Mode32) : modeToBank (m.bits &&& MODEBITS) = m.bank := by
  cases m <;> rfl

theorem Mode32.lt_bits (m : Mode32) : decide (SVC26MODE < m.bits) = true := by
  cases m <;> rfl

theorem Mode32.bank_ne_dummy (m : Mode32) : m.bank ≠ .dummy := by
  cases m <;> decide

/-- The bank whose row keeps register `r` of bank `b` while another bank shows. -/
def homeBank (b : Bank) (r : RegNo) : Bank :=
  if r.val < 8 ∨ r.val = 15 then .user
  else if r.val < 13 then if b = .fiq then .fiq else .user
  else b

theorem saveRegs_apply (lo hi : Nat) (src : RegNo → ARMword) (b b' : Bank)
    (rb : Bank → RegNo → ARMword) (r : RegNo) :
    saveRegs lo hi src b rb b' r =
      if b' = b ∧ lo ≤ r.val ∧ r.val < hi then src r else rb b' r := by
  rw [saveRegs, Function.update_apply]
  by_cases h : b' = b
  · subst h; simp only [if_true, copyRegs, true_and]
  · simp only [h, if_false, false_and]

namespace State

variable {U : Type} {s : State U}

def slot (s : State U) (b : Bank) (r : RegNo) : ARMword :=
  if homeBank s.bank r = b then s.reg r else s.regBank b r

theorem mode26Bit_eq (s : State U) : s.mode26Bit = !s.mode32Bit := by
  simp only [mode26Bit, mode32Bit]
  by_cases h : s.mode ≤ SVC26MODE
  · simp [h]
  · simpa [h] using BitVec.not_le.mp h

/-- The visible registers are the slots of the current bank. -/
theorem reg_eq_slot (s : State U) (r : RegNo) : s.reg r = s.slot (homeBank s.bank r) r := by
  simp only [slot, if_true]

/-! ## Saving and restoring -/

@[simp] theorem saveBank_reg (old new : Bank) : (s.saveBank old new).reg = s.reg := by
  cases old <;> rfl

@[simp] theorem saveBank_bank (old new : Bank) : (s.saveBank old new).bank = s.bank := by
  cases old <;> rfl

@[simp] theorem restoreBank_regBank (old new : Bank) :
    (s.restoreBank old new).regBank = s.regBank := by
  cases new <;> rfl

@[simp] theorem restoreBank_bank (old new : Bank) : (s.restoreBank old new).bank = s.bank := by
  cases new <;> rfl

/-- Saved are the registers whose home the switch takes out of sight. -/
theorem saveBank_regBank {old new : Bank} (ho : old ≠ .dummy) (hne : old ≠ new) (b : Bank)
    (r : RegNo) :
    (s.saveBank old new).regBank b r =
      if homeBank old r = b ∧ homeBank new r ≠ b then s.reg r else s.regBank b r := by
  cases old with
  | dummy => exact absurd rfl ho
  | fiq => simp only [saveBank, saveRegs_apply, homeBank]; grind
  | user | irq | svc | abort | undef =>
    by_cases hf : new = .fiq <;>
      simp only [saveBank, saveRegs_apply, homeBank, hf, if_true, if_false] <;> grind

/-- Restored are the registers whose home comes into sight. -/
theorem restoreBank_reg {old new : Bank} (hn : new ≠ .dummy) (hne : old ≠ new) (r : RegNo) :
    (s.restoreBank old new).reg r =
      if homeBank old r = homeBank new r then s.reg r else s.regBank (homeBank new r) r := by
  cases new with
  | dummy => exact absurd rfl hn
  | fiq => simp only [restoreBank, copyRegs, homeBank]; grind
  | user | irq | svc | abort | undef =>
    by_cases hf : old = .fiq <;>
      simp only [restoreBank, copyRegs, homeBank, hf, if_true, if_false] <;> grind

/-! ## Switching modes -/

@[simp] theorem switchMode_bank (old new : ARMword) :
    (s.switchMode old new).bank = modeToBank new := by
  simp only [switchMode]
  split <;> simp

@[simp] theorem saveBank_spsr (old new : Bank) : (s.saveBank old new).spsr = s.spsr := by
  cases old <;> rfl

@[simp] theorem restoreBank_spsr (old new : Bank) : (s.restoreBank old new).spsr = s.spsr := by
  cases new <;> rfl

@[simp] theorem switchMode_spsr (old new : ARMword) : (s.switchMode old new).spsr = s.spsr := by
  simp only [switchMode]
  split <;> simp

/-- A mode switch moves registers between their homes and the visible file; it changes none. -/
theorem slot_switchMode (old new : ARMword) (hb : s.bank = modeToBank old)
    (ho : modeToBank old ≠ .dummy) (hn : modeToBank new ≠ .dummy) :
    (s.switchMode old new).slot = s.slot := by
  by_cases h : modeToBank old = modeToBank new
  · funext b r
    simp only [switchMode, h, ne_eq, not_true, if_false, slot, hb]
  · funext b r
    simp only [slot, switchMode_bank, hb]
    simp only [switchMode, ne_eq, h, not_false_eq_true, if_true, restoreBank_regBank,
      saveBank_regBank ho h, restoreBank_reg hn h, saveBank_reg]
    -- the four cases: which of the two banks has its home of `r` in row `b`
    by_cases h1 : homeBank (modeToBank old) r = b <;>
      by_cases h2 : homeBank (modeToBank new) r = b <;> grind

/-- What a register shows after a mode switch. -/
theorem switchMode_reg (old new : ARMword) (hb : s.bank = modeToBank old)
    (ho : modeToBank old ≠ .dummy) (hn : modeToBank new ≠ .dummy) (r : RegNo) :
    (s.switchMode old new).reg r = s.slot (homeBank (modeToBank new) r) r := by
  rw [reg_eq_slot, slot_switchMode old new hb ho hn, switchMode_bank]

/-! ## Writing a visible register -/

@[simp] theorem setReg_bank (r : RegNo) (v : ARMword) : (s.setReg r v).bank = s.bank := rfl

@[simp] theorem setReg_reg_self (r : RegNo) (v : ARMword) : (s.setReg r v).reg r = v := by
  simp [setReg]

theorem setReg_reg_of_ne {r r' : RegNo} (h : r' ≠ r) (v : ARMword) :
    (s.setReg r v).reg r' = s.reg r' := by
  simp [setReg, h]

theorem slot_setReg (r : RegNo) (v : ARMword) (b : Bank) (r' : RegNo) :
    (s.setReg r v).slot b r' =
      if r' = r ∧ homeBank s.bank r = b then v else s.slot b r' := by
  simp only [slot, setReg, Function.update_apply]
  by_cases hr : r' = r
  · subst hr; by_cases hb : homeBank s.bank r' = b <;> simp [hb]
  · simp [hr]

end State

end SkyEye

/-!
## Start-up and exception entry

`arminit.c`: a new state, the choice of the processor, reset, and `abort`
(`ARMul_Abort`), which enters an exception: it saves the status register, moves to
the exception's mode and leaves the return address in its register 14.
-/

namespace SkyEye

/-- The properties of a processor that `ARMul_SelectProcessor` reads. -/
structure Properties where
  fix26 : Bool
  v4 : Bool
  v5 : Bool
  v5e : Bool
  xScale : Bool

namespace State

variable {U : Type}

/-- `ARMul_NewState` over a cleared memory system -/
def newState (mmu : MmuState U) : State U where
  emulate := .run
  reg _ := 0
  regBank _ _ := 0
  cpsr := 0
  spsr _ := 0
  nFlag := false
  zFlag := false
  cFlag := false
  vFlag := false
  sFlag := false
  ifFlags := 0
  tFlag := false
  bank := .user
  mode := 0
  nextInstr := 0
  abortSig := false
  ntransSig := false
  bigendSig := false
  prog32Sig := true
  lateabtSig := true
  aborted := 0
  abortAddr := 0
  mmu := mmu
  isV4 := false
  isV5 := false
  isV5e := false
  isXScale := false
  vectorRemapFlag := false
  vectorRemapAddr := 0

variable (s : State U)

def selectProcessor (p : Properties) : State U :=
  { s with
    prog32Sig := !p.fix26
    isV4 := p.v4 || p.v5
    isV5 := p.v5
    isV5e := p.v5e
    isXScale := p.xScale }

/-- `ARMul_Reset`, with the MMU's own reset as an argument. -/
def reset (mmuReset : MmuState U → MmuState U) : State U :=
  let s := { s with nextInstr := 0 }
  let s :=
    if s.prog32Sig then
      { s.setReg 15 0 with cpsr := INTBITS ||| SVC32MODE, mode := SVC32MODE }
    else
      { s.setReg 15 (R15INTBITS ||| SVC26MODE) with
        cpsr := INTBITS ||| SVC26MODE, mode := SVC26MODE }
  let s := flushPipe { s.cpsrAltered with bank := .svc }
  { s with
    ntransSig := s.mode &&& 3 != 0, abortSig := false, abortAddr := 1, mmu := mmuReset s.mmu }

/-- An ARMv4 machine after reset. -/
def bootState (u : U) : State U :=
  ((newState (.cleared u)).selectProcessor ⟨false, true, false, false, false⟩).reset id

/-! ## Exceptions -/

/-- `SETABORT`, with `temp` the address register 14 is computed from. -/
def setAbort (temp i mode d : ARMword) : State U :=
  let s := s.setSPSR mode s.getCPSR
  let s := s.setCPSR ((s.getCPSR &&& ~~~(s.mode ||| TBIT)) ||| i ||| mode)
  s.setReg 14 (temp - d)

/-- The register 15 that an exception's return address is computed from. -/
def abortPC : ARMword :=
  if s.prog32Sig then if s.mode26Bit then s.r15pc else s.reg 15
  else s.r15pc ||| s.ecc ||| s.er15int ||| s.mode

/-- The switch of `ARMul_Abort` over the vectors. -/
def enterException (vector : ARMword) : State U :=
  let isize := s.insnSize
  let esize : ARMword := if s.tFlag then 0 else 4
  let e2size : ARMword := if s.tFlag then -4 else 0
  let temp := s.abortPC
  let mode32 (m32 m26 : ARMword) := if s.prog32Sig then m32 else m26
  if vector = RESETV then s.setAbort temp INTBITS (mode32 SVC32MODE SVC26MODE) 0
  else if vector = UNDEFINEDINSTRV then s.setAbort temp IBIT (mode32 UNDEF32MODE SVC26MODE) isize
  else if vector = SWIV then s.setAbort temp IBIT (mode32 SVC32MODE SVC26MODE) isize
  else if vector = PREFETCHABORTV then
    setAbort { s with abortAddr := 1 } temp IBIT (mode32 ABORT32MODE SVC26MODE) esize
  else if vector = DATAABORTV then s.setAbort temp IBIT (mode32 ABORT32MODE SVC26MODE) e2size
  else if vector = ADDREXCEPTNV then s.setAbort temp IBIT SVC26MODE isize
  else if vector = IRQV then s.setAbort temp IBIT (mode32 IRQ32MODE IRQ26MODE) esize
  else if vector = FIQV then s.setAbort temp INTBITS (mode32 FIQ32MODE FIQ26MODE) esize
  else s

/-- `ARMul_Abort`; `ARMul_OSException` always declines here. -/
def abort (vector : ARMword) : State U :=
  let s := enterException { s with aborted := 0 } vector
  if s.mode32Bit then
    let high := if s.mmu.ctl CONTROL_VECTOR then vector + 0xffff0000 else vector
    s.setR15 (if s.vectorRemapFlag then high + s.vectorRemapAddr else high)
  else s.setR15 (s.r15ccintmode ||| vector)

/-! ## Reset -/

end State

end SkyEye
