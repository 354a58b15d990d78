import SkyEye.Arm.AbortModel
import SkyEye.Arm.DataPort
import SkyEye.Arm.MainSwitch

/-!
# `SWP` and `SWPB`

A load and a store of one place. Both write the destination before they test for an abort,
and `ARMul_SwapWord` drops the fault of its store. A swap whose load or store faults leaves
what it found exactly if its store changes no memory, the destination happens to hold what
is written there, and the fault is one that is recorded.
-/

namespace SkyEye

namespace State

variable {U : Type}

section Model

variable (ops : MmuOps U) (s : State U) (address data instr pc : ARMword)

def swapWord : ARMword × State U :=
  let (temp, s) := ops.readData s .word address
  (temp, { s with mmu := (ops.write s.cpu s.mmu address .word data).2 })

def swapByte : ARMword × State U :=
  let (temp, s) := ops.loadByte s address
  (temp, ops.storeByte s address data)

/-- `SWP`, before its test for an abort. -/
def swpAccess : State U :=
  let temp := s.lhs instr
  let s := s.busUsedIncPcS
  let (dest, s) := s.swapWord ops temp (s.reg (rhsReg instr))
  s.setReg (destReg instr) (if temp &&& 3 ≠ 0 then align temp dest else dest)

/-- `SWPB`, before its test for an abort. -/
def swpbAccess : State U :=
  let temp := s.lhs instr
  let s := s.busUsedIncPcS
  let (dest, s) := s.swapByte ops temp (s.reg (rhsReg instr))
  s.setReg (destReg instr) dest

/-- `state->abortSig || state->Aborted` -/
def abortRaised : Bool := s.abortSig || s.aborted != 0

def takeRaisedAbort : State U := if s.abortRaised then s.abort DATAABORTV else s

/-- The words of `SWP` and `SWPB` -/
structure IsSwap : Prop where
  op : bits instr 20 27 = 0x10 ∨ bits instr 20 27 = 0x14
  swap : bits instr 4 11 = 9

/-- `mainswitch` with the swaps, which it leaves out. -/
def mainswitchSwp : Option (State U) :=
  if bits instr 20 27 = 0x10 ∧ bits instr 4 11 = 9 then
    some (s.swpAccess ops instr).takeRaisedAbort
  else if bits instr 20 27 = 0x14 ∧ bits instr 4 11 = 9 then
    some (s.swpbAccess ops instr).takeRaisedAbort
  else s.mainswitch ops pc instr

end Model

/-! ## The two halves -/

section Spec

variable (port : DataPort U) (s : State U) (w : ARMword)

/-- The swap, before its test for an abort. -/
def swapAccess : State U :=
  if w.getLsbD 22 then s.swpbAccess port.toMmuOps w else s.swpAccess port.toMmuOps w

/-- The load alone: what it returns, and the state it leaves. -/
def swapLoad : ARMword × State U :=
  port.readData s.busUsedIncPcS (transferSize w) (s.lhs w)

/-- What the store after it does to the memory system. -/
def swapStore : Option Fault × MmuState U :=
  port.write (s.swapLoad port w).2.cpu (s.swapLoad port w).2.mmu (s.lhs w) (transferSize w)
    (s.busUsedIncPcS.reg (rhsReg w))

def SwapLoadFaults : Prop :=
  ∃ f, (port.read s.busUsedIncPcS.cpu s.busUsedIncPcS.mmu (s.lhs w) (transferSize w)).1 = .error f

def SwapStoreFaults : Prop := ∃ f, (s.swapStore port w).1 = some f

/-- The old value of memory as the destination gets it, rotated for an unaligned word. -/
def swapValue : ARMword :=
  if transferSize w = .word ∧ s.lhs w &&& 3 ≠ 0 then align (s.lhs w) (s.swapLoad port w).1
  else (s.swapLoad port w).1

/-- `t` is the swap: all of it, or an abort with the memory that the load leaves and the old
destination. -/
structure SwapExact (t : State U) : Prop where
  faulted : s.SwapLoadFaults port w ∨ s.SwapStoreFaults port w → t.abortRaised = true ∧
    port.memory t.mmu = port.memory (s.swapLoad port w).2.mmu ∧
    t.reg (destReg w) = s.busUsedIncPcS.reg (destReg w)
  swapped : ¬ (s.SwapLoadFaults port w ∨ s.SwapStoreFaults port w) → t.abortRaised = false ∧
    port.memory t.mmu = port.memory (s.swapStore port w).2 ∧
    t.reg (destReg w) = s.swapValue port w

/-- Where a half faults, a fault is recorded, and there is nothing to undo. -/
def SwapHarmless : Prop :=
  s.SwapLoadFaults port w ∨ s.SwapStoreFaults port w →
    (w.getLsbD 22 = true ∨ s.SwapLoadFaults port w) ∧
    port.memory (s.swapStore port w).2 = port.memory (s.swapLoad port w).2.mmu ∧
    s.swapValue port w = s.busUsedIncPcS.reg (destReg w)

end Spec

variable {port : DataPort U} {s : State U} {w : ARMword}

theorem busUsedIncPcS_aborted (s : State U) : s.busUsedIncPcS.aborted = s.aborted := by
  obtain ⟨n, hn⟩ := s.busUsedIncPcS_eq
  rw [hn]
  rfl

theorem swapLoad_fault (h : s.SwapLoadFaults port w) : ∃ f mmu,
    s.swapLoad port w =
      (s.busUsedIncPcS.abortWord, s.busUsedIncPcS.dataAbort mmu f (s.lhs w)) ∧
    port.memory mmu = port.memory s.busUsedIncPcS.mmu := by
  obtain ⟨f, hf⟩ := h
  exact ⟨f, _, MmuOps.readData_error (Prod.ext hf rfl), port.read_fault_memory _ _ _ _ f hf⟩

theorem swapLoad_ok (h : ¬ s.SwapLoadFaults port w) : ∃ data mmu,
    s.swapLoad port w = (data, s.busUsedIncPcS.accessed mmu) := by
  rw [SwapLoadFaults] at h
  rw [swapLoad, MmuOps.readData]
  generalize port.read _ _ (s.lhs w) (transferSize w) = r at h ⊢
  obtain ⟨f | data, mmu⟩ := r
  · exact absurd ⟨f, rfl⟩ h
  · exact ⟨data, mmu, rfl⟩

/-- The load alone raises the abort exactly if it faults, and `Aborted` remembers it. -/
theorem swapLoad_raised (ha : s.aborted = 0) :
    ((s.swapLoad port w).2.abortRaised = true ↔ s.SwapLoadFaults port w) ∧
      ((s.swapLoad port w).2.aborted ≠ 0 ↔ s.SwapLoadFaults port w) := by
  by_cases h : s.SwapLoadFaults port w
  · obtain ⟨f, mmu, hl, -⟩ := swapLoad_fault h
    have hd : DATAABORTV ≠ 0 := by decide
    rw [hl]
    exact ⟨iff_of_true rfl h, iff_of_true hd h⟩
  · obtain ⟨data, mmu, hl⟩ := swapLoad_ok h
    have hb : (s.busUsedIncPcS.accessed mmu).aborted = 0 := (busUsedIncPcS_aborted s).trans ha
    rw [hl]
    refine ⟨iff_of_false ?_ h, iff_of_false (not_not.mpr hb) h⟩
    rw [abortRaised, hb]
    exact Bool.false_ne_true

/-- `SWP` goes by the flags of its load. -/
theorem swpAccess_eq (h : w.getLsbD 22 = false) : s.swapAccess port w =
    { (s.swapLoad port w).2 with mmu := (s.swapStore port w).2 }.setReg (destReg w)
      (s.swapValue port w) := by
  have ht : transferSize w = .word := by rw [transferSize, h]; rfl
  rw [swapAccess, h, swapStore, swapValue, swapLoad, ht]
  simp only [Bool.false_eq_true, if_false, true_and]
  rfl

/-- `SWPB` goes by the flags of both. -/
theorem swpbAccess_eq (h : w.getLsbD 22 = true) : s.swapAccess port w =
    (port.writeData (s.swapLoad port w).2 .byte (s.lhs w)
      (s.busUsedIncPcS.reg (rhsReg w))).setReg (destReg w) (s.swapValue port w) := by
  have ht : transferSize w = .byte := by rw [transferSize, h]; rfl
  rw [swapAccess, h, swapValue, swapLoad, ht]
  simp only [if_true, reduceCtorEq, false_and, if_false]
  rfl

theorem swapAccess_spec (ha : s.aborted = 0) :
    ((s.swapAccess port w).abortRaised = true ↔
      s.SwapLoadFaults port w ∨ w.getLsbD 22 = true ∧ s.SwapStoreFaults port w) ∧
    port.memory (s.swapAccess port w).mmu = port.memory (s.swapStore port w).2 ∧
    (s.swapAccess port w).reg (destReg w) = s.swapValue port w := by
  obtain ⟨hr, hra⟩ := @swapLoad_raised U port s w ha
  cases h : w.getLsbD 22 with
  | false =>
    rw [swpAccess_eq h]
    refine ⟨?_, rfl, setReg_reg_self ..⟩
    rw [or_iff_left (fun hc => Bool.false_ne_true hc.1), ← hr]
    rfl
  | true =>
    have ht : transferSize w = .byte := by rw [transferSize, h]; rfl
    rw [swpbAccess_eq h]
    refine ⟨?_, ?_, setReg_reg_self ..⟩
    · rw [SwapStoreFaults, swapStore, ht, MmuOps.writeData, ← hra, and_iff_right rfl]
      generalize port.write _ _ (s.lhs w) .byte _ = r
      obtain ⟨_ | f, mmu⟩ := r
      · rw [or_iff_left nofun, ← bne_iff_ne]
        rfl
      · exact iff_of_true rfl (.inr ⟨f, rfl⟩)
    · rw [swapStore, ht, MmuOps.writeData]
      generalize port.write _ _ (s.lhs w) .byte _ = r
      obtain ⟨_ | f, mmu⟩ := r
      · rfl
      · exact port.memory_fault _ _ _

/-- A swap is exact precisely where a faulting half leaves nothing to undo. -/
theorem swap_exact_iff (port : DataPort U) (s : State U) (pc w : ARMword) (hw : IsSwap w)
    (ha : s.aborted = 0) :
    s.mainswitchSwp port.toMmuOps w pc = some (s.swapAccess port w).takeRaisedAbort ∧
      (s.SwapExact port w (s.swapAccess port w) ↔ s.SwapHarmless port w) := by
  obtain ⟨hr, hm, hd⟩ := @swapAccess_spec U port s w ha
  constructor
  · rw [mainswitchSwp, swapAccess, hw.swap]
    rcases hw.op with ho | ho
    · have h22 : w.getLsbD 22 = false := by
        rw [← testBit_bits w (i := 2) (show 2 < 27 + 1 - 20 by decide), ho]
        rfl
      rw [ho, h22]
      rfl
    · have h22 : w.getLsbD 22 = true := by
        rw [← testBit_bits w (i := 2) (show 2 < 27 + 1 - 20 by decide), ho]
        rfl
      rw [ho, h22]
      rfl
  · rw [SwapHarmless]
    constructor
    · intro h hf
      obtain ⟨h1, h2, h3⟩ := h.faulted hf
      refine ⟨?_, hm.symm.trans h2, hd.symm.trans h3⟩
      rcases hr.mp h1 with h1 | ⟨h1, -⟩
      · exact .inr h1
      · exact .inl h1
    · intro h
      refine ⟨fun hf => ?_, fun hf => ?_⟩
      · obtain ⟨h1, h2, h3⟩ := h hf
        refine ⟨hr.mpr ?_, hm.trans h2, hd.trans h3⟩
        rcases hf with hf | hf
        · exact .inl hf
        · exact h1.elim (fun hb => .inr ⟨hb, hf⟩) .inl
      · refine ⟨?_, hm, hd⟩
        rw [← Bool.not_eq_true, hr]
        exact fun hc => hf (hc.imp_right And.right)

/-- Supervisor and user read the first section, and the supervisor writes it. -/
def readOnly920t (mode : ARMword) : State Arm920t :=
  { Arm920t.boot with mode := mode, mmu := Arm920t.oneSection 0x802 1 }

/-- `SWP r0, r1, [r2]` in supervisor mode. -/
theorem swap_exact_iff_svc :
    (readOnly920t SVC32MODE).mainswitchSwp (Arm920t.dataPort 0).toMmuOps 0xE1020091 0 =
      some ((readOnly920t SVC32MODE).swapAccess (Arm920t.dataPort 0) 0xE1020091).takeRaisedAbort ∧
    ((readOnly920t SVC32MODE).SwapExact (Arm920t.dataPort 0) 0xE1020091
        ((readOnly920t SVC32MODE).swapAccess (Arm920t.dataPort 0) 0xE1020091) ↔
      (readOnly920t SVC32MODE).SwapHarmless (Arm920t.dataPort 0) 0xE1020091) :=
  swap_exact_iff (Arm920t.dataPort 0) (readOnly920t SVC32MODE) 0 0xE1020091
    ⟨.inl (by decide), by decide⟩ rfl

/-- In user mode the store faults, and no abort is taken. -/
theorem swp_drops_fault :
    ¬ (readOnly920t USER32MODE).SwapExact (Arm920t.dataPort 0) 0xE1020091
      ((readOnly920t USER32MODE).swapAccess (Arm920t.dataPort 0) 0xE1020091) := by
  intro h
  have hf : (readOnly920t USER32MODE).SwapStoreFaults (Arm920t.dataPort 0) 0xE1020091 :=
    ⟨.sectionPermission, by decide +kernel⟩
  have hr := (h.faulted (.inr hf)).1
  revert hr
  decide +kernel

end State

end SkyEye
