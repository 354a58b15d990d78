import SkyEye.Arm.DataAbort
import SkyEye.Arm.Emulate
import SkyEye.Arm.MmuModels

/-!
# The abort model of single transfers

An `LDR` or `STR` with write-back takes a data abort. The abort switches to Abort mode
inside the instruction, and with `lateabtSig` the write-back comes after it: it goes to
the register that Abort mode shows. Here it is worked out when the result is still what
the abort model promises.
-/

namespace SkyEye

/-- A word or byte transfer that writes its base back. -/
structure IsWriteBackTransfer (instr : ARMword) : Prop where
  single : bits instr 25 27 = 2 ∨ bits instr 25 27 = 3
  defined : ¬ (instr.getLsbD 25 = true ∧ instr.getLsbD 4 = true)
  writeBack : instr.getLsbD 24 = true → instr.getLsbD 21 = true
  base : lhsReg instr ≠ 15

def transferSize (instr : ARMword) : DataType := if instr.getLsbD 22 then .byte else .word

namespace State

variable {U : Type}

section Spec

variable (ops : MmuOps U) (s : State U) (m : Mode32) (instr pc : ARMword) (mmu : MmuState U)

/-- The address the base is to hold after the transfer. -/
def updatedBase : ARMword := offsetBy instr (s.reg (lhsReg instr)) (s.lsRHS instr)

def transferAddress : ARMword :=
  if instr.getLsbD 24 then s.updatedBase instr else s.reg (lhsReg instr)

/-- The access faults, and leaves the memory system as `mmu`. -/
def TransferFaults (f : Fault) : Prop :=
  if instr.getLsbD 20 then
    ops.read s.cpu s.mmu (s.transferAddress instr) (transferSize instr) = (.error f, mmu)
  else
    ops.write s.cpu s.mmu (s.transferAddress instr) (transferSize instr)
      (s.busUsedIncPcN.reg (destReg instr)) = (some f, mmu)

/-- What the abort model promises of the aborted transfer at `pc`: `t` after `s`. -/
structure AbortModelKept (t : State U) : Prop where
  base : t.slot (homeBank m.bank (lhsReg instr)) (lhsReg instr) =
    if s.lateabtSig then s.updatedBase instr else s.reg (lhsReg instr)
  dest : instr.getLsbD 20 = true → destReg instr ≠ 15 →
    t.slot (homeBank m.bank (destReg instr)) (destReg instr) = s.reg (destReg instr)
  link : t.slot .abort 14 = pc + 8
  spsr : t.spsr .abort = s.getCPSR
  other : ∀ b r, r ≠ 15 → ¬ (b = homeBank m.bank (lhsReg instr) ∧ r = lhsReg instr) →
    ¬ (b = .abort ∧ r = 14) → t.slot b r = s.slot b r

/-! ## The write-back in Abort mode -/

/-- Register 15 at the abort. -/
def abortLink : ARMword := if s.isV4 then s.reg 15 else s.reg 15 + s.insnSize

/-- The registers as Abort mode shows them. -/
def abortView : State U :=
  { s with
    reg := fun r =>
      if r = 15 then vectorAddress { s with mmu := mmu } DATAABORTV
      else if r = 14 then s.abortLink
      else s.slot (homeBank .abort r) r }

/-- The address that is written back: a store evaluates an offset after the access then. -/
def lateBase : ARMword :=
  if instr.getLsbD 20 = false ∧ instr.getLsbD 24 = false then
    offsetBy instr (s.reg (lhsReg instr)) ((s.abortView mmu).lsRHS instr)
  else s.updatedBase instr

/-- Without write-back, the link of the abort must hit no register of the transfer. -/
def KeptWhenRestored : Prop :=
  s.isV4 = true ∧
    (m = .abort → lhsReg instr = 14 ∨ (instr.getLsbD 20 = true ∧ destReg instr = 14) →
      s.reg 14 = pc + 8)

/-- With write-back, the base must be a register that Abort mode shares, and not its link. -/
structure KeptWhenUpdated : Prop where
  link : if lhsReg instr = 14 then s.lateBase instr mmu = pc + 8 else s.isV4 = true
  base : if Shares (lhsReg instr) m .abort then s.lateBase instr mmu = s.updatedBase instr
    else s.updatedBase instr = s.reg (lhsReg instr) ∧ (lhsReg instr ≠ 14 →
      s.lateBase instr mmu = s.slot (homeBank .abort (lhsReg instr)) (lhsReg instr))
  dest : instr.getLsbD 20 = true → destReg instr ≠ 15 →
    (destReg instr = lhsReg instr → Shares (lhsReg instr) m .abort →
      s.lateBase instr mmu = s.reg (lhsReg instr)) ∧
    (destReg instr ≠ lhsReg instr → m = .abort → destReg instr = 14 → s.reg 14 = pc + 8)

def KeepsAbortModel : Prop :=
  if s.lateabtSig then s.KeptWhenUpdated m instr pc mmu else s.KeptWhenRestored m instr pc

end Spec

variable {ops : MmuOps U} {s : State U} {m : Mode32} {instr pc : ARMword} {mmu : MmuState U}
  {f : Fault}

/-! ## The abort -/

/-- The pipeline moved on as a data access moves it. -/
def advance (s : State U) (n : ARMword) : State U :=
  { s.setReg 15 s.abortLink with nextInstr := n }

theorem advance_reg_pc (s : State U) (n : ARMword) : (s.advance n).reg 15 = s.abortLink :=
  setReg_reg_self (s := s) 15 _

theorem advance_reg (s : State U) (n : ARMword) {r : RegNo} (h : r ≠ 15) :
    (s.advance n).reg r = s.reg r :=
  setReg_reg_of_ne h s.abortLink

/-- The state in which a fault is taken. -/
def faulted (s : State U) (n : ARMword) (mmu : MmuState U) (f : Fault) (address : ARMword) :
    State U :=
  (s.advance n).dataAbort mmu f address

theorem busUsedIncPcS_eq (s : State U) : ∃ n, s.busUsedIncPcS = s.advance n := by
  unfold busUsedIncPcS advance abortLink
  split
  · exact ⟨s.nextInstr, by simp [setReg]⟩
  · exact ⟨_, rfl⟩

theorem busUsedIncPcN_eq (s : State U) : ∃ n, s.busUsedIncPcN = s.advance n := by
  unfold busUsedIncPcN advance abortLink
  split
  · exact ⟨s.nextInstr ||| 1, by simp [setReg, busUsedN]⟩
  · exact ⟨_, rfl⟩

theorem busUsedIncPcN_reg (s : State U) :
    s.busUsedIncPcN.reg = Function.update s.reg 15 s.abortLink := by
  obtain ⟨n, hn⟩ := s.busUsedIncPcN_eq
  rw [hn]
  rfl

section Accesses

variable {address : ARMword}

theorem loadWord_fault (h : ops.read s.cpu s.mmu address .word = (.error f, mmu)) :
    ∃ n, s.loadWord ops instr address = (s.faulted n mmu f address).takeAbort := by
  obtain ⟨n, hn⟩ := s.busUsedIncPcS_eq
  refine ⟨n, ?_⟩
  have hd : DATAABORTV ≠ 0 := by decide
  simp only [loadWord, MmuOps.loadWordN, hn, MmuOps.readData_error (s := s.advance n) h]
  exact if_pos hd

theorem loadByte_fault (h : ops.read s.cpu s.mmu address .byte = (.error f, mmu))
    (signextend : Bool) :
    ∃ n, s.loadByte ops instr address signextend = (s.faulted n mmu f address).takeAbort := by
  obtain ⟨n, hn⟩ := s.busUsedIncPcS_eq
  refine ⟨n, ?_⟩
  have hd : DATAABORTV ≠ 0 := by decide
  simp only [loadByte, MmuOps.loadByte, hn, MmuOps.readData_error (s := s.advance n) h]
  exact if_pos hd

theorem storeWord_fault
    (h : ops.write s.cpu s.mmu address .word (s.busUsedIncPcN.reg (destReg instr)) =
      (some f, mmu)) :
    ∃ n, s.storeWord ops instr address = (s.faulted n mmu f address).takeAbort := by
  obtain ⟨n, hn⟩ := s.busUsedIncPcN_eq
  refine ⟨n, ?_⟩
  rw [hn] at h
  have hd : DATAABORTV ≠ 0 := by decide
  simp only [storeWord, MmuOps.storeWordN, hn, MmuOps.writeData_error (s := s.advance n) h]
  exact if_pos hd

theorem storeByte_fault
    (h : ops.write s.cpu s.mmu address .byte (s.busUsedIncPcN.reg (destReg instr)) =
      (some f, mmu)) :
    ∃ n, s.storeByte ops instr address = (s.faulted n mmu f address).takeAbort := by
  obtain ⟨n, hn⟩ := s.busUsedIncPcN_eq
  refine ⟨n, ?_⟩
  rw [hn] at h
  have hd : DATAABORTV ≠ 0 := by decide
  simp only [storeByte, MmuOps.storeByte, hn, MmuOps.writeData_error (s := s.advance n) h]
  exact if_pos hd

end Accesses

theorem singleAccess_fault (hf : s.TransferFaults ops instr mmu f) :
    ∃ n, s.singleAccess ops instr (s.transferAddress instr) =
      (s.faulted n mmu f (s.transferAddress instr)).takeAbort := by
  unfold TransferFaults transferSize at hf
  unfold singleAccess
  cases hl : instr.getLsbD 20 <;> cases hb : instr.getLsbD 22 <;>
    simp only [hl, hb, if_true, if_false, Bool.false_eq_true] at hf ⊢
  · exact storeWord_fault hf
  · exact storeByte_fault hf
  · exact loadWord_fault hf
  · exact loadByte_fault hf false

/-! ## The state after the abort -/

/-- What the abort of a faulting access leaves, before any write-back. -/
structure TransferAborted (s : State U) (mmu : MmuState U) (r : Bool × State U) : Prop where
  late : r.1 = s.lateabtSig
  aborted : s.Aborted r.2 s.abortLink
  cFlag : r.2.cFlag = s.cFlag
  vector : r.2.reg 15 = vectorAddress { s with mmu := mmu } DATAABORTV

variable (mmu) in
theorem transferAborted (hs : s.Executing m pc) (n : ARMword) (f : Fault) (address : ARMword) :
    s.TransferAborted mmu (s.faulted n mmu f address).takeAbort := by
  have hm : (s.faulted n mmu f address).InMode m := ⟨hs.inMode.mode, hs.inMode.bank⟩
  have h15 : (s.faulted n mmu f address).reg 15 = s.abortLink := s.advance_reg_pc n
  have ha := aborted_abort hm hs.prog32Sig hs.tFlag
  rw [h15] at ha
  obtain ⟨hc, hv⟩ := abort_vector (s := s.faulted n mmu f address) hs.prog32Sig hm
  refine ⟨ha.lateabtSig, ha.congr rfl rfl (fun b r h15 => ?_) rfl, hc, hv⟩
  refine (slot_setReg (s := s) 15 s.abortLink b r).trans (if_neg ?_)
  rintro ⟨h, -⟩
  exact h15 h

/-- The slots after the abort and a write-back of `v`. -/
structure WrittenBack (s t : State U) (instr v : ARMword) : Prop where
  spsr : t.spsr .abort = s.getCPSR
  slot : ∀ b r, r ≠ 15 → t.slot b r =
    if s.lateabtSig = true ∧ r = lhsReg instr ∧ homeBank .abort (lhsReg instr) = b then v
    else if b = .abort ∧ r = 14 then s.abortLink
    else s.slot b r

theorem TransferAborted.writeBackIf {r : Bool × State U} (h : s.TransferAborted mmu r)
    (v : State U → ARMword) : s.WrittenBack (writeBackIf instr r v) instr (v r.2) := by
  have hb : r.2.bank = .abort := h.aborted.inMode.bank
  have hspsr : r.2.spsr .abort = s.getCPSR := by rw [h.aborted.spsr, Function.update_self]
  unfold State.writeBackIf
  rw [h.late]
  cases hl : s.lateabtSig with
  | false =>
    refine ⟨hspsr, fun b r' h15 => ?_⟩
    simp only [hl, Bool.false_eq_true, if_false, false_and]
    exact h.aborted.slot b r' h15
  | true =>
    refine ⟨hspsr, fun b r' h15 => ?_⟩
    simp only [hl, if_true, true_and, setLSBase, slot_setReg, hb]
    rw [h.aborted.slot b r' h15]

/-- The offset evaluated after the abort. -/
theorem TransferAborted.lsRHS {r : Bool × State U} (h : s.TransferAborted mmu r) :
    r.2.lsRHS instr = (s.abortView mmu).lsRHS instr := by
  have hreg : r.2.reg (rhsReg instr) = (s.abortView mmu).reg (rhsReg instr) := by
    simp only [abortView]
    split
    · rename_i h15
      rw [h15, h.vector]
    · rename_i h15
      rw [reg_eq_slot, h.aborted.slot _ _ h15, h.aborted.inMode.bank]
      by_cases h14 : rhsReg instr = 14
      · rw [h14]; rfl
      · simp only [h14, and_false, if_false]
        rfl
  have hc : r.2.cFlag = (s.abortView mmu).cFlag := h.cFlag
  simp only [State.lsRHS, lsRegRHS, hreg, hc]

/-! ## The instruction -/

theorem postIndexed_writtenBack (hs : s.Executing m pc) (hi : IsWriteBackTransfer instr)
    (hf : s.TransferFaults ops instr mmu f) (h24 : instr.getLsbD 24 = false) :
    s.WrittenBack
      (writeBackIf instr (s.singleAccess ops instr (s.lhs instr)) fun t =>
        if instr.getLsbD 20 then offsetBy instr (s.lhs instr) (s.lsRHS instr)
        else offsetBy instr (s.lhs instr) (t.lsRHS instr))
      instr (s.lateBase instr mmu) := by
  have hlhs : s.lhs instr = s.reg (lhsReg instr) := if_neg hi.base
  have haddr : s.transferAddress instr = s.lhs instr := by
    rw [transferAddress, h24, hlhs]
    rfl
  obtain ⟨n, hn⟩ := singleAccess_fault hf
  have ha := transferAborted mmu hs n f (s.transferAddress instr)
  rw [← hn, haddr] at ha
  have hv : s.lateBase instr mmu =
      if instr.getLsbD 20 then offsetBy instr (s.lhs instr) (s.lsRHS instr)
      else offsetBy instr (s.lhs instr)
        ((s.singleAccess ops instr (s.lhs instr)).2.lsRHS instr) := by
    rw [ha.lsRHS, lateBase, h24, hlhs]
    cases instr.getLsbD 20 <;> simp [updatedBase]
  rw [hv]
  exact ha.writeBackIf _

theorem singleDataTransfer_writtenBack (hs : s.Executing m pc) (hi : IsWriteBackTransfer instr)
    (hf : s.TransferFaults ops instr mmu f) :
    s.WrittenBack (s.singleDataTransfer ops instr) instr (s.lateBase instr mmu) := by
  have hlhs : s.lhs instr = s.reg (lhsReg instr) := if_neg hi.base
  have hdef : (instr.getLsbD 25 && instr.getLsbD 4) = false := by
    have := hi.defined
    grind
  unfold singleDataTransfer
  simp only [hdef, Bool.false_eq_true, if_false]
  cases h24 : instr.getLsbD 24 with
  | true =>
    have haddr : s.transferAddress instr = offsetBy instr (s.lhs instr) (s.lsRHS instr) := by
      rw [transferAddress, h24, hlhs]
      rfl
    obtain ⟨n, hn⟩ := singleAccess_fault hf
    have ha := transferAborted mmu hs n f (s.transferAddress instr)
    rw [← hn, haddr] at ha
    have hv : s.lateBase instr mmu = offsetBy instr (s.lhs instr) (s.lsRHS instr) := by
      rw [lateBase, h24, hlhs]
      simp [updatedBase]
    simp only [preIndexed, hi.writeBack h24, if_true, hv]
    exact ha.writeBackIf fun _ => _
  | false =>
    simp only [postIndexed, Bool.false_eq_true, if_false]
    cases instr.getLsbD 21 with
    | false => exact postIndexed_writtenBack hs hi hf h24
    | true =>
      -- the access runs with the signal of user mode, which no register depends on
      let s' : State U := { s with ntransSig := false }
      have hs' : s'.Executing m pc :=
        ⟨⟨hs.inMode.mode, hs.inMode.bank⟩, hs.prog32Sig, hs.tFlag, hs.pc⟩
      have hf' : s'.TransferFaults ops instr mmu f := by
        unfold TransferFaults at hf ⊢
        rw [busUsedIncPcN_reg] at hf ⊢
        exact hf
      have hw := postIndexed_writtenBack hs' hi hf' h24
      exact ⟨hw.spsr, hw.slot⟩

/-! ## When the abort model holds -/

/-- The link goes to no register of the interrupted mode but to its own. -/
theorem homeBank_eq_abort_iff : homeBank m.bank 14 = .abort ↔ m = .abort := by
  cases m <;> decide

theorem reg_of_executing (hs : s.Executing m pc) (r : RegNo) :
    s.reg r = s.slot (homeBank m.bank r) r := by
  rw [reg_eq_slot, hs.inMode.bank]

theorem abortLink_eq_iff (hs : s.Executing m pc) : s.abortLink = pc + 8 ↔ s.isV4 = true := by
  unfold abortLink insnSize
  rw [hs.pc, hs.tFlag]
  cases s.isV4 with
  | true => simp
  | false =>
    simp only [Bool.false_eq_true, if_false, iff_false]
    bv_omega

theorem WrittenBack.kept_restored {t : State U} (hs : s.Executing m pc)
    (hw : s.WrittenBack t instr (s.lateBase instr mmu)) (hi : lhsReg instr ≠ 15)
    (hl : s.lateabtSig = false) :
    s.AbortModelKept m instr pc t ↔ s.KeptWhenRestored m instr pc := by
  have hslot : ∀ b r, r ≠ 15 →
      t.slot b r = if b = .abort ∧ r = 14 then s.abortLink else s.slot b r := by
    intro b r h15
    rw [hw.slot b r h15, hl]
    simp
  constructor
  · intro h
    refine ⟨?_, ?_⟩
    · have hlink := h.link
      rw [hslot .abort 14 (by decide), if_pos ⟨rfl, rfl⟩] at hlink
      exact (abortLink_eq_iff hs).mp hlink
    · rintro rfl (hb | ⟨hload, hd⟩)
      · have hbase := h.base
        rw [hb, hl] at hbase
        exact hbase.symm.trans h.link
      · have hdest := h.dest hload
        rw [hd] at hdest
        exact (hdest (by decide)).symm.trans h.link
  · rintro ⟨hv4, h14⟩
    have hlink : s.abortLink = pc + 8 := (abortLink_eq_iff hs).mpr hv4
    have hkeep (r : RegNo) (h15 : r ≠ 15) (h : m = .abort → r = 14 → s.reg 14 = pc + 8) :
        t.slot (homeBank m.bank r) r = s.reg r := by
      rw [hslot _ r h15, reg_of_executing hs]
      split
      · rename_i hc
        obtain ⟨hb, rfl⟩ := hc
        have hm : m = .abort := homeBank_eq_abort_iff.mp hb
        rw [hlink, ← h hm rfl, reg_of_executing hs]
      · rfl
    refine ⟨?_, fun hload h15 => ?_, ?_, hw.spsr, fun b r h15 _ h => ?_⟩
    · rw [hl]
      exact hkeep _ hi fun hm hb => h14 hm (.inl hb)
    · exact hkeep _ h15 fun hm hd => h14 hm (.inr ⟨hload, hd⟩)
    · rw [hslot .abort 14 (by decide), if_pos ⟨rfl, rfl⟩, hlink]
    · rw [hslot b r h15, if_neg h]

theorem WrittenBack.kept_updated {t : State U} (hs : s.Executing m pc)
    (hw : s.WrittenBack t instr (s.lateBase instr mmu)) (hi : lhsReg instr ≠ 15)
    (hl : s.lateabtSig = true) :
    s.AbortModelKept m instr pc t ↔ s.KeptWhenUpdated m instr pc mmu := by
  have hslot : ∀ b r, r ≠ 15 → t.slot b r =
      if r = lhsReg instr ∧ homeBank .abort (lhsReg instr) = b then s.lateBase instr mmu
      else if b = .abort ∧ r = 14 then s.abortLink else s.slot b r := by
    intro b r h15
    rw [hw.slot b r h15, hl]
    simp
  have hlink := abortLink_eq_iff hs
  have hreg := reg_of_executing hs
  have hsh : Shares (lhsReg instr) m .abort ↔
      homeBank m.bank (lhsReg instr) = homeBank .abort (lhsReg instr) :=
    (homeBank_eq_iff m .abort _).symm
  have h14 := homeBank_eq_abort_iff (m := m)
  have hab : homeBank .abort 14 = .abort := rfl
  have hself : m = .abort → Shares (lhsReg instr) m .abort := by
    rintro rfl
    exact hsh.mpr rfl
  constructor
  · intro h
    have hbase := h.base
    have hl14 := h.link
    rw [hslot _ _ hi, hl, if_pos rfl] at hbase
    refine ⟨?_, ?_, fun hload h15 => ⟨fun hd hs => ?_, fun hd hm h14d => ?_⟩⟩
    · rw [hslot .abort 14 (by decide)] at hl14
      grind
    · split
      · grind
      · have hother := h.other (homeBank .abort (lhsReg instr)) (lhsReg instr) hi
        rw [hslot _ _ hi] at hother
        grind
    · have hdest := h.dest hload h15
      rw [hslot _ _ h15] at hdest
      grind
    · have hdest := h.dest hload h15
      subst hm
      rw [h14d] at hdest
      exact hdest.symm.trans h.link
  · intro h
    have hbase := h.base
    have hl14 := h.link
    refine ⟨?_, fun hload h15 => ?_, ?_, hw.spsr, fun b r h15 hb hb' => ?_⟩
    · rw [hslot _ _ hi, hl, if_pos rfl]
      grind
    · have hdest := h.dest hload h15
      rw [hslot _ _ h15]
      grind
    · rw [hslot .abort 14 (by decide)]
      grind
    · rw [hslot b r h15]
      grind

theorem mainswitch_single (h : bits instr 25 27 = 2 ∨ bits instr 25 27 = 3) :
    s.mainswitch ops pc instr = some (s.singleDataTransfer ops instr) := by
  have h0 : (bits instr 25 27 == 0) = false := by
    rcases h with h | h <;> rw [h] <;> rfl
  unfold mainswitch
  simp only [h0, Bool.and_false, Bool.false_and, Bool.false_eq_true, if_false]
  rcases h with h | h <;> simp only [h]

end State

open State in
/-- An aborted transfer with write-back keeps the abort model exactly if the registers it
writes after the abort are those it would have written before. -/
theorem single_transfer_keeps_abort_model_iff {U : Type} {ops : MmuOps U} {s : State U}
    {m : Mode32} {instr pc : ARMword} {mmu : MmuState U} {f : Fault} (hs : s.Executing m pc)
    (hi : IsWriteBackTransfer instr) (hf : s.TransferFaults ops instr mmu f) :
    ∃ t, s.mainswitch ops pc instr = some t ∧
      (s.AbortModelKept m instr pc t ↔ s.KeepsAbortModel m instr pc mmu) := by
  have hw := singleDataTransfer_writtenBack hs hi hf
  refine ⟨_, mainswitch_single hi.single, ?_⟩
  unfold KeepsAbortModel
  cases hl : s.lateabtSig with
  | true => exact hw.kept_updated hs hi.base hl
  | false => exact hw.kept_restored hs hi.base hl

namespace Arm920t

/-- `STR r0, [r1], #4` for a page that is not mapped, in supervisor mode. -/
theorem single_transfer_keeps_abort_model_iff_r1 :
    let s := unmapped.setReg 15 8
    let mmu := ((ops 0).write s.cpu s.mmu 0 .word 0).2
    ∃ t, s.mainswitch (ops 0) 0 0xE4810004 = some t ∧
      (s.AbortModelKept .svc 0xE4810004 0 t ↔ s.KeepsAbortModel .svc 0xE4810004 0 mmu) :=
  single_transfer_keeps_abort_model_iff (f := .pageTranslation)
    ⟨⟨rfl, rfl⟩, rfl, rfl, rfl⟩ ⟨by decide, by decide, by decide, by decide⟩
    (Prod.ext (by decide +kernel) rfl)

/-- `STR r0, [r13], #4` for such a page: the write-back goes to the stack pointer of Abort
mode, not to the one of supervisor mode. -/
theorem abort_writes_back_to_abort_mode :
    let s := unmapped.setReg 15 8
    let mmu := ((ops 0).write s.cpu s.mmu 0 .word 0).2
    s.Executing .svc 0 ∧ IsWriteBackTransfer 0xE48D0004 ∧
      s.TransferFaults (ops 0) 0xE48D0004 mmu .pageTranslation ∧
      ∃ t, s.mainswitch (ops 0) 0 0xE48D0004 = some t ∧ ¬ s.AbortModelKept .svc 0xE48D0004 0 t := by
  intro s mmu
  have hs : s.Executing .svc 0 := ⟨⟨rfl, rfl⟩, rfl, rfl, rfl⟩
  have hi : IsWriteBackTransfer 0xE48D0004 := ⟨by decide, by decide, by decide, by decide⟩
  have hf : s.TransferFaults (ops 0) 0xE48D0004 mmu .pageTranslation :=
    Prod.ext (by decide +kernel) rfl
  refine ⟨hs, hi, hf, _, State.mainswitch_single hi.single, fun h => ?_⟩
  have hw := State.singleDataTransfer_writtenBack hs hi hf
  have hb := ((hw.kept_updated hs hi.base rfl).mp h).base
  rw [if_neg (by decide)] at hb
  exact absurd hb.1 (by decide)

end Arm920t

end SkyEye
