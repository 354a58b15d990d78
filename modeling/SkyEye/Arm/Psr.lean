import SkyEye.Arm.Init
import Mathlib.Tactic.IntervalCases

/-!
# The status register and the flags

`getCPSR` packs the flags into a word and `assignFlags` unpacks one; here each
undoes the other. `cpsrAltered` is described once, by what it does to the mode, the
bank, the flags and the register slots.
-/

namespace SkyEye

/-! ## Bits of words -/

theorem getLsbD_toWord_shiftLeft (b : Bool) (k i : Nat) :
    (toWord b <<< k).getLsbD i = (decide (i < 32) && decide (i = k) && b) := by
  rw [BitVec.getLsbD_shiftLeft]
  cases b
  · simp [toWord]
  · by_cases h : i = k
    · subst h; simp [toWord]
    · simp [toWord, h]; omega

theorem and_flag_bne_zero (x : ARMword) :
    (x &&& NBIT != 0) = x.getLsbD 31 ∧ (x &&& ZBIT != 0) = x.getLsbD 30 ∧
    (x &&& CBIT != 0) = x.getLsbD 29 ∧ (x &&& VBIT != 0) = x.getLsbD 28 ∧
    (x &&& SBIT != 0) = x.getLsbD 27 ∧ (x &&& TBIT != 0) = x.getLsbD 5 := by
  have bit (i : Nat) : (x &&& BitVec.twoPow 32 i != 0) = x.getLsbD i := Word.and_twoPow_bne x i
  exact ⟨bit 31, bit 30, bit 29, bit 28, bit 27, bit 5⟩

/-- The bits of a status register that the flags and the mode make up. -/
def PSRBITS : ARMword := 0xf80000ff

namespace State

variable {U : Type} {s : State U}

/-! ## Packing and unpacking -/

theorem getLsbD_getCPSR (s : State U) {i : Nat} (hi : i < 32) :
    s.getCPSR.getLsbD i =
      (decide (i = 31) && s.nFlag || decide (i = 30) && s.zFlag || decide (i = 29) && s.cFlag ||
        decide (i = 28) && s.vFlag || decide (i = 27) && s.sFlag ||
        decide (i = 7) && s.ifFlags.getLsbD 1 || decide (i = 6) && s.ifFlags.getLsbD 0 ||
        decide (i = 5) && s.tFlag || s.mode.getLsbD i) := by
  simp only [getCPSR, ecc, BitVec.getLsbD_or, getLsbD_toWord_shiftLeft]
  simp only [eint, BitVec.getLsbD_shiftLeft, BitVec.getLsbD_setWidth]
  interval_cases i <;> simp [Bool.or_comm]

/-- A mode number has five bits. -/
theorem getLsbD_mode {m : ARMword} (hm : m &&& MODEBITS = m) {i : Nat} (hi : 5 ≤ i) :
    m.getLsbD i = false := by
  rw [← hm, BitVec.getLsbD_and, Bool.and_eq_false_iff]
  right
  by_cases h : i < 32
  · interval_cases i <;> rfl
  · exact BitVec.getLsbD_of_ge _ _ (by omega)

theorem getCPSR_and_modebits (hm : s.mode &&& MODEBITS = s.mode) :
    s.getCPSR &&& MODEBITS = s.mode := by
  apply BitVec.eq_of_getLsbD_eq
  intro i hi
  rw [← hm, BitVec.getLsbD_and, BitVec.getLsbD_and, getLsbD_getCPSR s hi]
  interval_cases i <;> simp [ MODEBITS]

theorem getCPSR_and_psrbits (hm : s.mode &&& MODEBITS = s.mode) :
    s.getCPSR &&& PSRBITS = s.getCPSR := by
  apply BitVec.eq_of_getLsbD_eq
  intro i hi
  rw [BitVec.getLsbD_and, getLsbD_getCPSR s hi]
  by_cases h5 : 5 ≤ i
  · rw [getLsbD_mode hm h5]
    interval_cases i <;> simp [PSRBITS]
  · interval_cases i <;> simp [PSRBITS]

theorem getCPSR_assignFlags (hm : s.mode = s.cpsr &&& MODEBITS) :
    s.assignFlags.getCPSR = s.cpsr &&& PSRBITS := by
  apply BitVec.eq_of_getLsbD_eq
  intro i hi
  rw [getLsbD_getCPSR _ hi, BitVec.getLsbD_and]
  simp only [assignFlags, and_flag_bne_zero, hm, BitVec.getLsbD_and, BitVec.getLsbD_setWidth,
    BitVec.getLsbD_ushiftRight]
  interval_cases i <;> simp [INTBITS, MODEBITS, PSRBITS]

/-- Two states with the same status word have the same flags and the same mode. -/
theorem getCPSR_inj {t : State U} (hs : s.mode &&& MODEBITS = s.mode)
    (ht : t.mode &&& MODEBITS = t.mode) (h : s.getCPSR = t.getCPSR) :
    s.mode = t.mode ∧ s.nFlag = t.nFlag ∧ s.zFlag = t.zFlag ∧ s.cFlag = t.cFlag ∧
      s.vFlag = t.vFlag ∧ s.sFlag = t.sFlag ∧ s.ifFlags = t.ifFlags ∧ s.tFlag = t.tFlag := by
  have hm : s.mode = t.mode := by
    rw [← getCPSR_and_modebits hs, ← getCPSR_and_modebits ht, h]
  have bit (i : Nat) (hi : i < 32) : s.getCPSR.getLsbD i = t.getCPSR.getLsbD i := by rw [h]
  have b31 := bit 31 (by decide)
  have b30 := bit 30 (by decide)
  have b29 := bit 29 (by decide)
  have b28 := bit 28 (by decide)
  have b27 := bit 27 (by decide)
  have b7 := bit 7 (by decide)
  have b6 := bit 6 (by decide)
  have b5 := bit 5 (by decide)
  simp [getLsbD_getCPSR, hm, -BitVec.getLsbD_eq_getElem, getLsbD_mode ht] at b31 b30 b29 b28 b27 b7 b6 b5
  refine ⟨hm, b31, b30, b29, b28, b27, ?_, b5⟩
  apply BitVec.eq_of_getLsbD_eq
  intro i hi
  interval_cases i
  · exact b6
  · exact b7

/-! ## What a write of the status register leaves alone -/

/-- The state less all that an exception or a move between modes may change. -/
def rest (s : State U) : State U :=
  { s with
    emulate := .run, reg := fun _ => 0, regBank := fun _ _ => 0, cpsr := 0, spsr := fun _ => 0
    nFlag := false, zFlag := false, cFlag := false, vFlag := false, sFlag := false
    ifFlags := 0, tFlag := false, bank := .user, mode := 0, ntransSig := false
    nextInstr := 0, aborted := 0, abortAddr := 0 }

@[simp] theorem rest_setReg (r : RegNo) (v : ARMword) : (s.setReg r v).rest = s.rest := rfl

theorem rest_saveBank (old new : Bank) : (s.saveBank old new).rest = s.rest := by
  cases old <;> rfl

theorem rest_restoreBank (old new : Bank) : (s.restoreBank old new).rest = s.rest := by
  cases new <;> rfl

theorem rest_switchMode (old new : ARMword) : (s.switchMode old new).rest = s.rest := by
  simp only [switchMode]
  split
  · rw [rest_restoreBank, rest_saveBank]; rfl
  · rfl

theorem rest_changeMode (m : ARMword) : (s.changeMode m).rest = s.rest :=
  rest_switchMode s.mode m

theorem rest_fixR15 (m : ARMword) : (s.fixR15 m).rest = s.rest := by
  simp only [fixR15]
  repeat' split
  all_goals rfl

theorem rest_cpsrAltered (s : State U) : s.cpsrAltered.rest = s.rest := by
  simp only [cpsrAltered, rest_fixR15]
  split <;> split
  · exact rest_changeMode _
  · rfl
  · exact rest_changeMode _
  · rfl

theorem rest_setSPSR (mode value : ARMword) : (s.setSPSR mode value).rest = s.rest := by
  rw [setSPSR]
  split <;> rfl

theorem rest_r15Altered (s : State U) : s.r15Altered.rest = s.rest := by
  have hm : (if s.mode ≠ s.r15mode then s.changeMode s.r15mode else s).rest = s.rest := by
    split
    · exact rest_changeMode _
    · rfl
  rw [r15Altered]
  generalize (if s.mode ≠ s.r15mode then s.changeMode s.r15mode else s) = t at hm
  split <;> exact hm

theorem rest_setR15 (value : ARMword) : (s.setR15 value).rest = s.rest := by
  rw [setR15]
  split
  · rfl
  · exact rest_r15Altered (s.setReg 15 value)

/-! ## What a write of the status register does -/

/-- The last part of `cpsrAltered` only touches register 15. -/
theorem fixR15_eq (s : State U) (m : ARMword) :
    ∃ v e, s.fixR15 m = { s.setReg 15 v with emulate := e } := by
  simp only [fixR15]
  split
  · split
    · exact ⟨_, _, rfl⟩
    · exact ⟨s.reg 15, s.emulate, by simp [setReg]⟩
  · split <;> exact ⟨_, _, rfl⟩

/-- `t` is the effect on `s` of copying `cpsr` out: the mode it names, its flags, every
register but 15 in its place, and the rest of the state as it was. -/
structure Altered (s t : State U) : Prop where
  mode : t.mode = s.cpsr &&& MODEBITS
  bank : t.bank = modeToBank t.mode
  getCPSR : t.getCPSR = s.cpsr &&& PSRBITS
  spsr : t.spsr = s.spsr
  slot : ∀ b r, r ≠ 15 → t.slot b r = s.slot b r
  rest : t.rest = s.rest

theorem Altered.fixR15 {t : State U} (h : s.Altered t) (m : ARMword) : s.Altered (t.fixR15 m) := by
  have hr := rest_fixR15 (s := t) m
  obtain ⟨v, e, hf⟩ := fixR15_eq t m
  rw [hf] at hr ⊢
  refine ⟨h.mode, h.bank, h.getCPSR, h.spsr, fun b r h15 => ?_, hr.trans h.rest⟩
  rw [← h.slot b r h15]
  simp [State.slot, setReg, h15]

theorem switchMode_cpsr (old new : ARMword) : (s.switchMode old new).cpsr = s.cpsr := by
  simp only [switchMode]
  split
  · cases modeToBank old <;> cases modeToBank new <;> rfl
  · rfl

theorem altered_assignFlags (hm : s.mode = s.cpsr &&& MODEBITS) (hb : s.bank = modeToBank s.mode) :
    s.Altered s.assignFlags :=
  ⟨hm, hb, getCPSR_assignFlags hm, rfl, fun _ _ _ => rfl, rfl⟩

theorem altered_changeMode (hb : s.bank = modeToBank s.mode) (ho : s.bank ≠ .dummy)
    (hn : modeToBank (s.cpsr &&& MODEBITS) ≠ .dummy) :
    s.Altered (s.changeMode (s.cpsr &&& MODEBITS)).assignFlags := by
  have hc : (s.changeMode (s.cpsr &&& MODEBITS)).cpsr = s.cpsr := switchMode_cpsr _ _
  have h := altered_assignFlags (s := s.changeMode (s.cpsr &&& MODEBITS)) (by rw [hc]; rfl)
    (switchMode_bank _ _)
  have hs := slot_switchMode s.mode (s.cpsr &&& MODEBITS) hb (hb ▸ ho) hn
  refine ⟨rfl, h.bank, by rw [h.getCPSR, hc], switchMode_spsr _ _, fun b r _ => ?_,
    rest_changeMode _⟩
  rw [← hs]; rfl

theorem altered_cpsrAltered (hp : s.prog32Sig = true) (hb : s.bank = modeToBank s.mode)
    (ho : s.bank ≠ .dummy) (hn : modeToBank (s.cpsr &&& MODEBITS) ≠ .dummy) :
    s.Altered s.cpsrAltered := by
  simp only [cpsrAltered, hp, if_true]
  apply Altered.fixR15
  split
  · exact altered_changeMode hb ho hn
  · exact altered_assignFlags (Classical.not_not.mp ‹_›) hb

/-- Mode and flags come from the word whatever modes are named, real or not. -/
theorem cpsrAltered_psr (hp : s.prog32Sig = true) :
    s.cpsrAltered.mode = s.cpsr &&& MODEBITS ∧ s.cpsrAltered.getCPSR = s.cpsr &&& PSRBITS := by
  have hkeep (t : State U) (m : ARMword) :
      (t.fixR15 m).mode = t.mode ∧ (t.fixR15 m).getCPSR = t.getCPSR := by
    obtain ⟨v, e, hf⟩ := fixR15_eq t m
    rw [hf]
    exact ⟨rfl, rfl⟩
  simp only [cpsrAltered, hp, if_true]
  rw [(hkeep _ _).1, (hkeep _ _).2]
  split
  · have hc : (s.changeMode (s.cpsr &&& MODEBITS)).cpsr = s.cpsr := switchMode_cpsr _ _
    refine ⟨rfl, ?_⟩
    rw [getCPSR_assignFlags (by rw [hc]; rfl), hc]
  · have hm : s.mode = s.cpsr &&& MODEBITS := Classical.not_not.mp ‹_›
    exact ⟨hm, getCPSR_assignFlags hm⟩

end State

end SkyEye
