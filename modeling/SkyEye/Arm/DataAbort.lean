import SkyEye.Arm.Banking
import SkyEye.Arm.Exception
import SkyEye.Arm.Virt

/-!
# Data aborts

What `abort` does when an access of an ARM instruction faults, in the terms of the
register file: Abort mode, register 15 as the link, the status word saved, and every
other register of every mode where it was.
-/

namespace SkyEye.State

variable {U : Type} {s : State U} {m : Mode32}

/-- The state executes the ARM instruction at `pc` in mode `m`; register 15 is two
instructions ahead. -/
structure Executing (s : State U) (m : Mode32) (pc : ARMword) : Prop where
  inMode : s.InMode m
  prog32Sig : s.prog32Sig = true
  tFlag : s.tFlag = false
  pc : s.reg 15 = pc + 8

theorem InMode.validMode (h : s.InMode m) : s.ValidMode :=
  ⟨.inl ⟨m, h.mode⟩, by rw [h.mode, h.bank, modeToBank_bits]⟩

theorem InMode.mode32Bit (h : s.InMode m) : s.mode32Bit = true := by
  rw [State.mode32Bit, h.mode, m.lt_bits]

/-- Where an exception of a 32-bit mode goes on. -/
def vectorAddress (s : State U) (vector : ARMword) : ARMword :=
  let high := if s.mmu.ctl CONTROL_VECTOR then vector + 0xffff0000 else vector
  (if s.vectorRemapFlag then high + s.vectorRemapAddr else high) &&& PCBITS

/-- The effect of a data abort: the link and the SPSR of Abort mode, and nothing else but
register 15. -/
structure Aborted (s t : State U) (link : ARMword) : Prop where
  inMode : t.InMode .abort
  tFlag : t.tFlag = false
  spsr : t.spsr = Function.update s.spsr .abort s.getCPSR
  slot : ∀ b r, r ≠ 15 → t.slot b r = if b = .abort ∧ r = 14 then link else s.slot b r
  lateabtSig : t.lateabtSig = s.lateabtSig

theorem aborted_abort (h : s.InMode m) (hp : s.prog32Sig = true) (ht : s.tFlag = false) :
    s.Aborted (s.abort DATAABORTV) (s.reg 15) := by
  have he := entered_abort hp h.validMode .dataAbort
  have hlink : s.abortPC - s.linkOffset .dataAbort = s.reg 15 := by
    rw [abortPC_eq hp, getPC, h.mode32Bit]
    simp [linkOffset, ht]
  rw [hlink] at he
  have hrest : (s.abort DATAABORTV).rest = s.rest := he.rest
  refine ⟨⟨he.mode, he.bank⟩, he.tFlag, he.spsr, fun b r h15 => ?_,
    (congrArg State.lateabtSig hrest :)⟩
  split
  · rename_i hc
    obtain ⟨rfl, rfl⟩ := hc
    exact he.lr
  · rename_i hc
    exact he.slot b r h15 hc

/-- An abort sees the state before the access as it sees the state at the fault. -/
theorem Aborted.congr {s' t : State U} {link : ARMword} (h : s'.Aborted t link)
    (hc : s'.getCPSR = s.getCPSR) (hs : s'.spsr = s.spsr)
    (hslot : ∀ b r, r ≠ 15 → s'.slot b r = s.slot b r) (hl : s'.lateabtSig = s.lateabtSig) :
    s.Aborted t link := by
  refine ⟨h.inMode, h.tFlag, ?_, fun b r h15 => ?_, h.lateabtSig.trans hl⟩
  · rw [h.spsr, hc, hs]
  · rw [h.slot b r h15, hslot b r h15]

/-! ## The vector and the carry flag -/

theorem cpsrAltered_cFlag (hp : s.prog32Sig = true) :
    s.cpsrAltered.cFlag = (s.cpsr &&& CBIT != 0) := by
  obtain ⟨v, e, hf⟩ := fixR15_eq
    (if s.mode ≠ s.cpsr &&& MODEBITS then s.changeMode (s.cpsr &&& MODEBITS) else s).assignFlags
    s.mode
  simp only [cpsrAltered, hp, if_true]
  rw [hf]
  show ((if s.mode ≠ s.cpsr &&& MODEBITS then s.changeMode (s.cpsr &&& MODEBITS)
    else s).cpsr &&& CBIT != 0) = _
  split
  · exact congrArg (· &&& CBIT != 0) (switchMode_cpsr (s := s) _ _)
  · rfl

theorem setAbort_cFlag (hp : s.prog32Sig = true) (h : s.InMode m) (temp d : ARMword) :
    (s.setAbort temp IBIT ABORT32MODE d).cFlag = s.cFlag := by
  have hc : (s.setAbort temp IBIT ABORT32MODE d).cFlag =
      (((s.getCPSR &&& ~~~(s.mode ||| TBIT)) ||| IBIT ||| ABORT32MODE) &&& CBIT != 0) :=
    cpsrAltered_cFlag hp
  have h29 : s.mode.getLsbD 29 = false := getLsbD_mode h.validMode.modebits (by decide)
  rw [hc, (and_flag_bne_zero _).2.2.1, BitVec.getLsbD_or, BitVec.getLsbD_or, BitVec.getLsbD_and,
    getLsbD_getCPSR s (by decide), BitVec.getLsbD_not, BitVec.getLsbD_or, h29]
  simp [IBIT, ABORT32MODE, TBIT]

theorem abort_vector (hp : s.prog32Sig = true) (h : s.InMode m) :
    (s.abort DATAABORTV).cFlag = s.cFlag ∧
      (s.abort DATAABORTV).reg 15 = s.vectorAddress DATAABORTV := by
  let s' : State U := { s with aborted := 0 }
  have h' : s'.InMode m := ⟨h.mode, h.bank⟩
  have ht : s'.enterException DATAABORTV =
      s'.setAbort s.abortPC IBIT ABORT32MODE (s.linkOffset .dataAbort) :=
    enterException_eq (s := s') hp .dataAbort
  have hc : (s'.setAbort s.abortPC IBIT ABORT32MODE (s.linkOffset .dataAbort)).cFlag = s.cFlag :=
    setAbort_cFlag (s := s') hp h' _ _
  have he : s'.Entered (s'.setAbort s.abortPC IBIT Mode32.abort.bits (s.linkOffset .dataAbort))
      .abort (s.abortPC - s.linkOffset .dataAbort) :=
    entered_setAbort (s := s') (m := .abort) (i := IBIT) hp h'.validMode rfl (.inl rfl) _ _
  rw [show Mode32.abort.bits = ABORT32MODE from rfl] at he
  rw [abort, ht]
  generalize s'.setAbort s.abortPC IBIT ABORT32MODE (s.linkOffset .dataAbort) = t at hc he ⊢
  have h32 : t.mode32Bit = true := (InMode.mk he.mode he.bank).mode32Bit
  have hrest : t.rest = s.rest := he.rest
  have hmmu : t.mmu = s.mmu := (congrArg State.mmu hrest :)
  have hflag : t.vectorRemapFlag = s.vectorRemapFlag := (congrArg State.vectorRemapFlag hrest :)
  have haddr : t.vectorRemapAddr = s.vectorRemapAddr := (congrArg State.vectorRemapAddr hrest :)
  simp only [h32, if_true, setR15, hmmu, hflag, haddr]
  refine ⟨hc, ?_⟩
  exact setReg_reg_self (s := t) 15 _

end SkyEye.State
