import SkyEye.Mips.Decoder
import SkyEye.Mips.Keeps
import SkyEye.Mips.Raises
import SkyEye.Mips.TlbChains

/-!
# Exceptions, ERET and the timer interrupt

`process_exception` saves the PC in EPC, enters kernel mode and clears bit 1 of SR; it keeps
neither the mode nor bit 0. ERET sets bit 0, jumps to EPC and leaves the mode alone. So the
interrupted context comes back exactly where the core was in kernel mode with interrupts
enabled (`resumes_iff`), while EPC and the jump to it are right in every case.

A step compares Count with Compare once, behind the instruction. Where Count reaches Compare
it starts again at 0, and the interrupt is marked in Cause only if it can be taken in that
very step (`tick`). What is marked stays until Compare is written (`pending_stepOnce`), so in
a run in which interrupts are enabled and none is pending at each such step, no tick is lost.
A tick at which SR masks them leaves no trace.
-/

namespace SkyEye.Mips

open Sparc (Uint32 bit bitsmask setBit clearBit clearBits)

variable {M : Type}

/-- `ERET` -/
abbrev eretInstr : Uint32 := 0x42000018

/-- The mode word, as far as it says how privileged the core is. -/
def MipsState.privilege (s : MipsState M) : BitVec 8 := s.mode &&& (umode ||| kmode)

/-- A handler entered in `s` and left in `t`: it kept EPC, SR, the general registers and the
mode. -/
structure HandledBy (s t : MipsState M) : Prop where
  epc : t.cp0 EPC = s.cp0 EPC
  sr : t.cp0 SR = s.cp0 SR
  gpr : t.gpr = s.gpr
  mode : t.mode = s.mode

/-- The address execution is to resume at: the interrupted instruction, or the branch before
it. -/
def MipsState.resumeAt (s : MipsState M) : Uint32 :=
  if s.branchDelaySlot then s.pc - 4 else s.pc

/-- `t` resumes what was interrupted in `s`. -/
structure Resumes (s t : MipsState M) : Prop where
  pc : t.pc = s.resumeAt
  pipeline : t.pipeline = .nothingSpecial
  gpr : t.gpr = s.gpr
  privilege : t.privilege = s.privilege
  iec : bit (t.cp0 SR) SR_IEC = bit (s.cp0 SR) SR_IEC

namespace MipsState

variable (s : MipsState M)

/-- ERET with the rest of its step. -/
def eretStep (h : Host M) : Option (MipsState M) :=
  (s.decode h eretInstr).map fun (s, nextState) => s.finish h nextState

/-- The step of ERET, in kernel mode: it sets bit 0 of SR and jumps to EPC. -/
theorem eretStep_eq (h : Host M) (hk : s.mode = kmode) : ∃ mem, s.eretStep h = some { s with
    cp0 := Function.update s.cp0 SR (s.cp0 SR ||| 0x1)
    pc := s.cp0 EPC
    pipeline := .nothingSpecial
    mem := mem } := by
  have hop : opcode eretInstr = 0o20 := by decide
  have hf : funct eretInstr = 0o30 := by decide
  have hb : bit eretInstr 25 = true := by decide
  have hkm : s.inKmode = true := by
    unfold inKmode
    rw [hk]
    decide
  have hd : s.decode h eretInstr = some (s.eret h, .nothingSpecial) := by
    unfold decode
    rw [hop]
    show s.decodeCop0 h eretInstr = _
    unfold decodeCop0
    simp only [hkm, Bool.not_true, Bool.false_and, Bool.false_eq_true, if_false, hb, if_true]
    unfold decodeCop0Funct
    rw [hf]
    rfl
  unfold eretStep
  rw [hd]
  unfold eret
  dsimp only
  split
  · exact ⟨_, rfl⟩
  · exact ⟨_, rfl⟩

/-- The tick at which the timer interrupt is taken. -/
theorem tick_taken {s : MipsState M} (hc : s.cp0 Compare ≠ 0)
    (hle : s.cp0 Compare ≤ s.cp0 Count + 1) (hiec : bit (s.cp0 SR) SR_IEC = true)
    (him : bit (s.cp0 SR) SR_IM7 = true) (hip : bit (s.cp0 Cause) Cause_IP7 = false)
    (hexl : bit (s.cp0 SR) 1 = false) :
    s.tick = (((s.setCp0 Count (s.cp0 Count + 1)).setCp0 Count 0).setCp0 Cause
      (setBit (s.cp0 Cause) Cause_IP7)).processException EXC_Int commonVector := by
  unfold tick
  rw [if_neg hc]
  have h1 : ¬s.cp0 Count + 1 < s.cp0 Compare := BitVec.not_lt.mpr hle
  simp only [cp0_setCp0_self, cp0_setCp0_of_ne _ (show Compare ≠ Count by decide),
    cp0_setCp0_of_ne _ (show SR ≠ Count by decide),
    cp0_setCp0_of_ne _ (show Cause ≠ Count by decide), h1, hiec, him, hip, hexl,
    Bool.not_false, Bool.and_self, if_true, if_false]

end MipsState

/-! ## Taking an exception -/

/-- `s'` is `s` after one of its exceptions or the timer interrupt. -/
inductive Takes (s : MipsState M) : MipsState M → Prop
  | addressError (type va) : Takes s (s.processAddressError type va)
  | tlbRefill (type va) : Takes s (s.processTlbRefill type va)
  | tlbInvalid (type va) : Takes s (s.processTlbInvalid type va)
  | tlbModified (va) : Takes s (s.processTlbModified va)
  | integerOverflow : Takes s s.processIntegerOverflow
  | syscall : Takes s s.processSyscall
  | coprocessorUnusable (c) : Takes s (s.processCoprocessorUnusable c)
  | timer : s.cp0 Compare ≠ 0 → s.cp0 Compare ≤ s.cp0 Count + 1 →
      bit (s.cp0 SR) SR_IEC = true → bit (s.cp0 SR) SR_IM7 = true →
      bit (s.cp0 Cause) Cause_IP7 = false → bit (s.cp0 SR) 1 = false → Takes s s.tick

/-- What taking an exception does to the interrupted context. -/
structure Entered (s s' : MipsState M) : Prop where
  epc : s'.cp0 EPC = s.resumeAt
  sr : s'.cp0 SR = (s.cp0 SR ||| 0x2) &&& 0xFFFFFFFD
  gpr : s'.gpr = s.gpr
  mode : s'.mode = kmode

theorem entered_processException (s : MipsState M) (cause vec : Uint32) :
    Entered s (s.processException cause vec) := ⟨rfl, rfl, rfl, rfl⟩

/-- Registers that the exceptions fill in before are not part of the context. -/
theorem Entered.of_setCp0 {s s' : MipsState M} {n : Nat} {v : Uint32} (hn : n ≠ SR)
    (h : Entered (s.setCp0 n v) s') : Entered s s' :=
  ⟨h.epc, by rw [h.sr, MipsState.cp0_setCp0_of_ne s hn.symm], h.gpr, h.mode⟩

theorem Takes.entered {s s' : MipsState M} (h : Takes s s') : Entered s s' := by
  have fault (va : Uint32) {s'} (h : Entered (s.tlbFault va) s') : Entered s s' :=
    .of_setCp0 (by decide) (.of_setCp0 (by decide) (.of_setCp0 (by decide) h))
  cases h with
  | addressError type va => exact .of_setCp0 (by decide) (entered_processException _ _ _)
  | tlbRefill type va => exact fault va (entered_processException _ _ _)
  | tlbInvalid type va => exact fault va (entered_processException _ _ _)
  | tlbModified va => exact fault va (entered_processException _ _ _)
  | integerOverflow => exact entered_processException _ _ _
  | syscall => exact entered_processException _ _ _
  | coprocessorUnusable c => exact entered_processException _ _ _
  | timer hc hle hiec him hip hexl =>
    rw [MipsState.tick_taken hc hle hiec him hip hexl]
    exact .of_setCp0 (by decide) (.of_setCp0 (by decide) (.of_setCp0 (by decide)
      (entered_processException _ _ _)))

/-! ## Resuming -/

theorem iec_eret (x : Uint32) : bit (x ||| 0x1) SR_IEC = true := by
  unfold bit
  rw [BitVec.getLsbD_or, show BitVec.getLsbD (0x1 : Uint32) SR_IEC = true by decide,
    Bool.or_true]

/-- ERET goes back to the interrupted instruction, or to the branch before it, with the
general registers, in kernel mode and with interrupts enabled. -/
theorem eretStep_entered (h : Host M) {s s' t : MipsState M} (he : Entered s s')
    (ht : HandledBy s' t) : ∃ u, t.eretStep h = some u ∧ u.pc = s.resumeAt ∧
      u.pipeline = .nothingSpecial ∧ u.gpr = s.gpr ∧ u.privilege = kmode ∧
      bit (u.cp0 SR) SR_IEC = true := by
  obtain ⟨mem, hu⟩ := t.eretStep_eq h (ht.mode.trans he.mode)
  refine ⟨_, hu, ht.epc.trans he.epc, rfl, ht.gpr.trans he.gpr, ?_, ?_⟩
  · unfold MipsState.privilege
    dsimp only
    rw [ht.mode, he.mode]
    decide
  · dsimp only
    rw [Function.update_self]
    exact iec_eret _

/-- A system call of a user program. -/
def userSyscall : MipsState Unit := { (blankState ()).setCp0 SR 0x1 with mode := umode }

variable {h : Host M}

/-- What the board does not do: clear the timer's bit of Cause, by an access to one of its
devices or in its own cycle. -/
structure KeepsTimer (h : Host M) : Prop where
  read : ∀ m size addr value mem lines, h.bankRead m size addr = some (value, mem, lines) →
    bit lines Cause_IP7 = false
  write : ∀ m size addr value mem lines, h.bankWrite m size addr value = some (mem, lines) →
    bit lines Cause_IP7 = false
  cycle : ∀ s, bit (s.cp0 Cause) Cause_IP7 = true →
    bit ((h.machIoDoCycle s).cp0 Cause) Cause_IP7 = true

/-- `instr` is MTC0 to Compare. -/
def IsMtc0Compare (instr : Uint32) : Prop :=
  opcode instr = 0o20 ∧ bit instr 25 = false ∧ rs instr = 0o04 ∧ rd instr = Compare

namespace MipsState

variable (s : MipsState M)

/-- The timer interrupt is pending. -/
def TimerPending : Prop := bit (s.cp0 Cause) Cause_IP7 = true

/-- The instruction that a step fetches. -/
def fetched (h : Host M) : Option Uint32 := (s.prepare.fetch h).map Prod.fst

/-- The step writes Compare. -/
def WritesCompare (h : Host M) : Prop := ∃ instr, s.fetched h = some instr ∧ IsMtc0Compare instr

/-- The state in which `finish` compares Count with Compare, if it does. -/
def comparing (nextState : Pipeline) : Option (MipsState M) :=
  match s.pipeline with
  | .nothingSpecial => some { s with pc := s.pc + 4, pipeline := nextState }
  | .branchDelay => some { s with pc := s.branchTarget, pipeline := nextState }
  | _ => none

/-- The same for a whole step. -/
def tickState (h : Host M) : Option (MipsState M) :=
  (s.prepare.fetchDecode h).bind fun (s, nextState) => s.comparing nextState

/-- Count reaches Compare, which is not 0. -/
def Reaches : Prop := s.cp0 Compare ≠ 0 ∧ s.cp0 Compare ≤ s.cp0 Count + 1

/-- SR enables the timer interrupt: IEC and IM7 are set, bit 1 is clear. -/
def TimerEnabled : Prop :=
  bit (s.cp0 SR) SR_IEC = true ∧ bit (s.cp0 SR) SR_IM7 = true ∧ bit (s.cp0 SR) 1 = false

/-- The step takes the timer interrupt, between two instructions. -/
def TakesTimer (h : Host M) : Prop :=
  ∃ b b' : MipsState M, s.tickState h = some b ∧ b.tick = b'.processException EXC_Int commonVector ∧
    b'.TimerPending ∧ b'.pc = b.pc ∧ b'.pipeline = b.pipeline

variable {s}

theorem finish_of_comparing {n : Pipeline} {b : MipsState M} (hb : s.comparing n = some b) :
    s.finish h n = h.machIoDoCycle b.tick := by
  unfold comparing at hb
  unfold finish
  cases hp : s.pipeline with
  | nothingSpecial =>
    rw [hp] at hb
    cases hb
    rfl
  | branchDelay =>
    rw [hp] at hb
    cases hb
    rfl
  | instrAddrError =>
    rw [hp] at hb
    cases hb
  | branchNodelay =>
    rw [hp] at hb
    cases hb

theorem stepOnce_of_tickState {s' b : MipsState M} (hs : s.stepOnce h = some s')
    (hb : s.tickState h = some b) : s' = h.machIoDoCycle b.tick := by
  unfold stepOnce at hs
  unfold tickState at hb
  cases hd : s.prepare.fetchDecode h with
  | none =>
    rw [hd] at hs
    cases hs
  | some r =>
    rw [hd] at hs hb
    cases hs
    exact finish_of_comparing hb

end MipsState

/-! ## A pending interrupt stays -/

open MipsState (TimerPending)

section

variable {s : MipsState M}

theorem pending_setCp0 {n : Nat} (hn : n ≠ Cause) (v : Uint32) (hs : s.TimerPending) :
    (s.setCp0 n v).TimerPending := by
  unfold TimerPending
  rw [s.cp0_setCp0_of_ne hn.symm]
  exact hs

theorem pending_processException (cause vec : Uint32) (hs : s.TimerPending) :
    (s.processException cause vec).TimerPending := by
  have hc : ∃ c, (s.processException cause vec).cp0 Cause = s.cp0 Cause &&& 0xFFFFFF83 ||| c :=
    ⟨_, rfl⟩
  obtain ⟨c, hc⟩ := hc
  unfold TimerPending bit at hs ⊢
  rw [hc, BitVec.getLsbD_or, BitVec.getLsbD_and, hs]
  rfl

theorem pending_accessed {mem : M} {lines : Uint32} (hl : bit lines Cause_IP7 = false)
    (hs : s.TimerPending) : (s.accessed mem lines).TimerPending := by
  unfold TimerPending bit at *
  unfold MipsState.accessed
  rw [MipsState.cp0_setCp0_self, BitVec.getLsbD_and, BitVec.getLsbD_not, hl, hs]
  rfl

theorem stable_timerPending (hk : KeepsTimer h) : Stable h (TimerPending (M := M)) where
  core hss hs := by
    unfold TimerPending
    rw [hss]
    exact hs
  exception := pending_processException
  badVAddr va hs := pending_setCp0 (by decide) va hs
  tlbFault va hs :=
    pending_setCp0 (by decide) _ (pending_setCp0 (by decide) _ (pending_setCp0 (by decide) _ hs))
  read pa data len hs := by
    unfold MipsState.memRead
    split
    · exact pending_accessed (hk.read _ _ _ _ _ _ ‹_›) hs
    · exact hs
  write pa data len hs := by
    unfold MipsState.memWrite
    split
    · exact pending_accessed (hk.write _ _ _ _ _ _ ‹_›) hs
    · exact hs

theorem cause_writeCp0 {n : Nat} (hn : n ≠ Compare) (x : Uint32) :
    (s.writeCp0 n x).cp0 Cause = s.cp0 Cause := by
  obtain ⟨_, _, _, _, hw, -, hc, -⟩ := MipsState.writeCp0_spec (s := s) n x
  rw [hw]
  exact hc.trans (if_neg hn)

theorem pending_of_cp0_eq {s' : MipsState M} (e : s'.cp0 Cause = s.cp0 Cause)
    (hs : s.TimerPending) : s'.TimerPending := by
  unfold TimerPending
  rw [e]
  exact hs

theorem cause_leaveKernelMode : s.leaveKernelMode.cp0 Cause = s.cp0 Cause := by
  simp [MipsState.leaveKernelMode, MipsState.setCp0]

theorem cause_eret : (s.eret h).cp0 Cause = s.cp0 Cause := by
  unfold MipsState.eret
  dsimp only
  split <;> simp [MipsState.setCp0]

/-- The instructions of coprocessor 0 but a write of Compare. -/
theorem pending_decodeCop0 {instr : Uint32} (hi : opcode instr = 0o20)
    (hn : ¬IsMtc0Compare instr) (hs : s.TimerPending) :
    Leaves TimerPending (s.decodeCop0 h instr) := by
  intro s' n e
  unfold MipsState.decodeCop0 at e
  obtain ⟨s'', he, hss⟩ := Option.map_eq_some_iff.mp e
  cases hss
  have hs1 : (if !s.inKmode && !bit (s.cp0 SR) SR_CU0 then s.processCoprocessorUnusable 0
      else s).TimerPending := by
    split
    · exact pending_processException _ _ hs
    · exact hs
  revert he hs1
  generalize (if !s.inKmode && !bit (s.cp0 SR) SR_CU0 then s.processCoprocessorUnusable 0
    else s) = s1
  intro he hs1
  split at he
  · unfold MipsState.decodeCop0Funct at he
    split at he
    · cases he
      exact pending_setCp0 (by decide) _
        (pending_setCp0 (by decide) _ (pending_setCp0 (by decide) _ hs1))
    · cases he
      exact pending_of_cp0_eq (congrFun (MipsState.cp0_setTlbEntry _) Cause) hs1
    · obtain ⟨r, -, rfl⟩ := Option.map_eq_some_iff.mp he
      exact pending_of_cp0_eq (congrFun (MipsState.cp0_setTlbEntry r) Cause) hs1
    · obtain ⟨r, -, rfl⟩ := Option.map_eq_some_iff.mp he
      exact pending_setCp0 (by decide) _ hs1
    · cases he
      exact pending_of_cp0_eq cause_leaveKernelMode hs1
    · cases he
      exact pending_of_cp0_eq cause_eret hs1
    · cases he
  · rename_i hb
    unfold MipsState.decodeCop0Rs at he
    split at he
    · obtain ⟨r, -, rfl⟩ := Option.map_eq_some_iff.mp he
      exact hs1
    · cases he
      exact hs1
    · rename_i hrs
      cases he
      refine pending_of_cp0_eq (cause_writeCp0 (fun hrd => hn ⟨hi, ?_, hrs, hrd⟩) _) hs1
      simpa using hb
    · cases he

theorem pending_triggerIrq (hs : s.TimerPending) : s.triggerIrq.TimerPending := by
  have hc : s.triggerIrq.cp0 Cause =
      if s.branchDelaySlot then setBit (s.cp0 Cause) Cause_BD else s.cp0 Cause := by
    unfold MipsState.triggerIrq
    dsimp only
    rw [MipsState.cp0_setCp0_of_ne _ (by decide), MipsState.cp0_setCp0_self]
  unfold TimerPending at *
  rw [hc]
  split
  · rw [Sparc.bit_setBit (by decide), hs]
    rfl
  · exact hs

theorem pending_prepare (hs : s.TimerPending) : s.prepare.TimerPending := by
  unfold MipsState.prepare
  dsimp only
  split
  · exact pending_triggerIrq (s := s.setGpr 0 0) hs
  · exact hs

theorem pending_tick (hs : s.TimerPending) : s.tick.TimerPending := by
  have h1 : (s.setCp0 Count (s.cp0 Count + 1)).TimerPending := pending_setCp0 (by decide) _ hs
  have h2 := pending_setCp0 (show Count ≠ Cause by decide) 0 h1
  unfold MipsState.tick
  split
  · exact hs
  · dsimp only
    split
    · exact h1
    · split
      · -- the interrupt that is taken marks the bit itself
        refine pending_processException _ _ ?_
        unfold TimerPending at h2 ⊢
        rw [MipsState.cp0_setCp0_self, Sparc.bit_setBit (by decide), h2]
        rfl
      · exact h2

theorem pending_finish (hk : KeepsTimer h) (n : Pipeline) (hs : s.TimerPending) :
    (s.finish h n).TimerPending := by
  unfold MipsState.finish
  split
  · exact hk.cycle _ (pending_tick hs)
  · exact hk.cycle _ (pending_tick hs)
  · exact pending_processException _ _ (pending_setCp0 (by decide) _ hs)
  · exact hs

/-- A step that does not write Compare keeps a pending timer interrupt. -/
theorem pending_stepOnce (hk : KeepsTimer h) {s' : MipsState M} (hs : s.TimerPending)
    (he : s.stepOnce h = some s') (hw : ¬s.WritesCompare h) : s'.TimerPending := by
  have hP := stable_timerPending hk
  obtain ⟨⟨s1, n⟩, hd, rfl⟩ := Option.map_eq_some_iff.mp he
  refine pending_finish hk n ?_
  unfold MipsState.fetchDecode MipsState.translated at hd
  cases ht : s.prepare.translateVaddr s.prepare.pc .instrFetch with
  | none =>
    rw [ht] at hd
    cases hd
  | some r =>
    obtain ⟨pa, s2⟩ := r
    have h2 := hP.translateVaddr _ _ (pending_prepare hs) ht
    dsimp only at h2
    rw [ht] at hd
    cases pa with
    | none =>
      cases hd
      exact h2
    | some pa =>
      have hf : s.fetched h = some (s2.memRead h pa h.uninit 4).1 := by
        unfold MipsState.fetched MipsState.fetch
        rw [ht]
        rfl
      refine hP.decode _ (fun hop => ?_) (hP.read pa h.uninit 4 h2) s1 n hd
      exact pending_decodeCop0 hop (fun hi => hw ⟨_, hf, hi⟩) (hP.read pa h.uninit 4 h2)

end

/-! ## Runs -/

/-- `st 0`, ..., `st N` are the states of a run. -/
def IsRun (h : Host M) (st : Nat → MipsState M) (N : Nat) : Prop :=
  ∀ i < N, (st i).stepOnce h = some (st (i + 1))

/-- Count reaches Compare in the step. -/
def MipsState.ReachesIn (s : MipsState M) (h : Host M) : Prop :=
  ∃ b, s.tickState h = some b ∧ b.Reaches

/-- SR enables the timer interrupt where the step could take it. -/
def MipsState.EnabledIn (s : MipsState M) (h : Host M) : Prop :=
  ∃ b, s.tickState h = some b ∧ b.TimerEnabled

/-- No tick of the run is lost: from the step in which Count reaches Compare on, the
interrupt is pending until Compare is written, and it is taken at the first step at which SR
enables it. -/
structure TimerKept (h : Host M) (st : Nat → MipsState M) (N : Nat) : Prop where
  pending : ∀ i j, (st i).ReachesIn h → i < j → j ≤ N →
    (∀ k, i < k → k < j → ¬(st k).WritesCompare h) → (st j).TimerPending
  taken : ∀ i j, (st i).ReachesIn h → i ≤ j → j < N →
    (∀ k, i < k → k ≤ j → ¬(st k).WritesCompare h) → (st j).EnabledIn h →
    (∀ k, i ≤ k → k < j → ¬(st k).EnabledIn h) → (st j).TakesTimer h

/-- Where the step compares Count, SR enables the interrupt and none is pending. -/
def MipsState.ReadyIn (s : MipsState M) (h : Host M) : Prop :=
  ∃ b, s.tickState h = some b ∧ b.TimerEnabled ∧ bit (b.cp0 Cause) Cause_IP7 = false

theorem tick_of_ready {b : MipsState M} (hr : b.Reaches) (he : b.TimerEnabled)
    (hp : bit (b.cp0 Cause) Cause_IP7 = false) :
    ∃ b' : MipsState M, b.tick = b'.processException EXC_Int commonVector ∧ b'.TimerPending ∧
      b'.pc = b.pc ∧ b'.pipeline = b.pipeline := by
  refine ⟨_, MipsState.tick_taken hr.1 hr.2 he.1 he.2.1 hp he.2.2, ?_, rfl, rfl⟩
  unfold TimerPending
  rw [MipsState.cp0_setCp0_self, Sparc.bit_setBit (by decide)]
  simp

/-- In a run whose steps that reach Compare are ready to take the interrupt, none is lost. -/
theorem timerKept_of_ready (hk : KeepsTimer h) {st : Nat → MipsState M} {N : Nat}
    (hrun : IsRun h st N) (hready : ∀ i < N, (st i).ReachesIn h → (st i).ReadyIn h) :
    TimerKept h st N where
  pending i j hi hij hj hw := by
    have hfirst : (st (i + 1)).TimerPending := by
      obtain ⟨b, hb, hreach⟩ := hi
      obtain ⟨b', hb', hen, hip⟩ := hready i (by omega) ⟨b, hb, hreach⟩
      rw [hb] at hb'
      cases hb'
      obtain ⟨b', hb', hp, -, -⟩ := tick_of_ready hreach hen hip
      rw [MipsState.stepOnce_of_tickState (hrun i (by omega)) hb, hb']
      exact hk.cycle _ (pending_processException _ _ hp)
    obtain ⟨d, rfl⟩ := Nat.exists_eq_add_of_lt hij
    clear hij
    induction d with
    | zero => exact hfirst
    | succ d ih =>
      have hprev := ih (by omega) fun k hik hkd => hw k hik (by omega)
      exact pending_stepOnce hk hprev (hrun (i + d + 1) (by omega))
        (hw (i + d + 1) (by omega) (by omega))
  taken i j hi hij hj _ _ hnot := by
    obtain ⟨b, hb, hreach⟩ := hi
    obtain ⟨b', hb', hen, hip⟩ := hready i (by omega) ⟨b, hb, hreach⟩
    rw [hb] at hb'
    cases hb'
    have hji : i = j := by
      by_contra hne
      exact hnot i (le_refl i) (by omega) ⟨b, hb, hen⟩
    subst hji
    obtain ⟨b', hb', hp, hpc, hpipe⟩ := tick_of_ready hreach hen hip
    exact ⟨b, b', hb, hb', hp, hpc, hpipe⟩

theorem keepsTimer_bareHost : KeepsTimer bareHost where
  read _ _ _ _ _ _ e := by cases e
  write _ _ _ _ _ _ e := by cases e
  cycle _ hs := hs

/-- Count is one step before Compare, and SR is `sr`. -/
def beforeTick (sr : Uint32) : MipsState Unit :=
  { ((blankState ()).setCp0 Compare 1).setCp0 SR sr with pc := 0x80000000 }

/-- The run of one step from there. -/
def oneTick (sr : Uint32) (i : Nat) : MipsState Unit :=
  if i = 0 then beforeTick sr else ((beforeTick sr).stepOnce bareHost).getD (beforeTick sr)

theorem isRun_oneTick {sr : Uint32} (hs : ((beforeTick sr).stepOnce bareHost).isSome) :
    IsRun bareHost (oneTick sr) 1 := by
  intro i hi
  obtain rfl : i = 0 := by omega
  obtain ⟨s', hs⟩ := Option.isSome_iff_exists.mp hs
  show (beforeTick sr).stepOnce bareHost =
    some (((beforeTick sr).stepOnce bareHost).getD (beforeTick sr))
  rw [hs]
  rfl

/-- With the interrupt masked the tick is gone. -/
theorem not_timerKept_masked : ¬∀ h : Host Unit, KeepsTimer h →
    ∀ (st : Nat → MipsState Unit) (N : Nat), IsRun h st N → TimerKept h st N := by
  intro hall
  have hkept := hall bareHost keepsTimer_bareHost _ _ (@isRun_oneTick 0 (by decide +kernel))
  have hreach : (oneTick 0 0).ReachesIn bareHost := by
    have ht : ((oneTick 0 0).tickState bareHost).any
        (fun b => b.cp0 Compare != 0 && decide (b.cp0 Compare ≤ b.cp0 Count + 1)) = true := by
      decide +kernel
    obtain ⟨b, hb, hr⟩ := (Option.any_eq_true _ _).mp ht
    rw [Bool.and_eq_true, bne_iff_ne, decide_eq_true_iff] at hr
    exact ⟨b, hb, hr⟩
  have hp := hkept.pending 0 1 hreach (by omega) (by omega) (by omega)
  exact absurd hp (by unfold TimerPending; decide +kernel)

/-- With IEC and IM7 set it is kept. -/
theorem timerKept_of_ready_enabled : TimerKept bareHost (oneTick 0x8001) 1 := by
  refine timerKept_of_ready keepsTimer_bareHost (isRun_oneTick (by decide +kernel)) fun i hi _ => ?_
  obtain rfl : i = 0 := by omega
  have ht : ((oneTick 0x8001 0).tickState bareHost).any (fun b =>
      bit (b.cp0 SR) SR_IEC && bit (b.cp0 SR) SR_IM7 && !bit (b.cp0 SR) 1 &&
        !bit (b.cp0 Cause) Cause_IP7) = true := by
    decide +kernel
  obtain ⟨b, hb, hr⟩ := (Option.any_eq_true _ _).mp ht
  simp only [Bool.and_eq_true, Bool.not_eq_true'] at hr
  exact ⟨b, hb, ⟨hr.1.1.1, hr.1.1.2, hr.1.2⟩, hr.2⟩

end SkyEye.Mips
