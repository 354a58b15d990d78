import SkyEye.Mips.Raises
import SkyEye.Mips.TlbChains

/-!
# Precise exceptions

`process_exception` sets the PC to the vector and returns into the instruction.
`mips_step_once` leaves the PC alone afterwards for some codes only (`Exc.Held`); after an
address error or an overflow it adds 4, and the instruction goes on in between. So a step
that raises an exception is precise exactly under `PreciseWhen` (`step_precise_iff`).
-/

namespace SkyEye.Mips

open Sparc (Uint32 bit bitsmask setBit clearBit clearBits)

variable {M : Type} {h : Host M}

namespace MipsState

variable (s : MipsState M)

/-- The instruction is in the delay slot of a branch, or of a jump to an unaligned address. -/
def inSlot : Bool := s.pipeline == .branchDelay || s.pipeline == .instrAddrError

/-- The address of the instruction, or of the branch before it. -/
def faultAddress : Uint32 := if s.inSlot then s.pc - 4 else s.pc

/-- The field ExcCode of Cause, in place. -/
def excCode : Uint32 := s.cp0 Cause &&& 0x7C

end MipsState

/-- What `process_exception` leaves for the exception `e`, raised in `f`. -/
structure Raised (f : MipsState M) (e : Exc) (s : MipsState M) : Prop where
  pc : s.pc = generalVectorBase + e.vector
  epc : s.cp0 EPC = if f.branchDelaySlot then f.pc - 4 else f.pc
  bd : bit (s.cp0 Cause) Cause_BD = (bit (f.cp0 Cause) Cause_BD || f.branchDelaySlot)
  code : s.excCode = e.code
  gpr : s.gpr = f.gpr
  hi : s.hi = f.hi
  lo : s.lo = f.lo
  mem : s.mem = f.mem
  mode : s.mode = kmode
  pipeline : s.pipeline = if e.Held then .branchNodelay else .nothingSpecial

/-- The exception `e`, raised in `f`, is precise in `s`; register 0 is cleared by each step. -/
structure PreciseIn (f : MipsState M) (e : Exc) (s : MipsState M) : Prop where
  pc : s.pc = generalVectorBase + e.vector
  epc : s.cp0 EPC = f.faultAddress
  bd : bit (s.cp0 Cause) Cause_BD = f.inSlot
  code : s.excCode = e.code
  gpr : ∀ n, n ≠ 0 → s.gpr n = f.gpr n
  hi : s.hi = f.hi
  lo : s.lo = f.lo
  mem : s.mem = f.mem

/-! ## `process_exception` -/

/-- `cause` is the code of an exception, with a coprocessor number above it. -/
def CauseOf (cause : Uint32) (e : Exc) : Prop :=
  cause &&& 0x7F = e.code ∧ cause &&& 0x7C = e.code ∧ bit cause Cause_BD = false

theorem raised_processException {f : MipsState M} {cause : Uint32} {e : Exc}
    (hc : CauseOf cause e) : Raised f e (f.processException cause e.vector) where
  pc := by
    have hpc : (f.processException cause e.vector).pc = e.vector +
        if bit (f.cp0 SR) SR_BEV then generalVectorBase else bootVectorBase := rfl
    rw [hpc, BitVec.add_comm]
    split <;> rfl
  epc := rfl
  bd := by
    have hcause : (f.processException cause e.vector).cp0 Cause = (f.cp0 Cause &&& 0xFFFFFF83) |||
        if f.branchDelaySlot then setBit cause Cause_BD else cause := rfl
    have hm : BitVec.getLsbD (0xFFFFFF83 : Uint32) Cause_BD = true := by decide
    rw [hcause]
    unfold bit
    rw [BitVec.getLsbD_or, BitVec.getLsbD_and, hm, Bool.and_true]
    congr 1
    cases hs : f.branchDelaySlot with
    | true => exact (Sparc.bit_setBit (by decide) cause Cause_BD).trans (by simp)
    | false => exact hc.2.2
  code := by
    have hcause : (f.processException cause e.vector).cp0 Cause = (f.cp0 Cause &&& 0xFFFFFF83) |||
        if f.branchDelaySlot then setBit cause Cause_BD else cause := rfl
    have hset : setBit cause Cause_BD &&& 0x7C = cause &&& 0x7C := by
      unfold setBit
      rw [BitVec.and_comm, BitVec.and_or_distrib_left,
        show (0x7C : Uint32) &&& bitsmask Cause_BD Cause_BD = 0#32 by decide, BitVec.or_zero,
        BitVec.and_comm]
    unfold MipsState.excCode
    rw [hcause, BitVec.and_comm, BitVec.and_or_distrib_left, BitVec.and_comm _ (f.cp0 Cause &&& _),
      BitVec.and_assoc, show (0xFFFFFF83 : Uint32) &&& 0x7C = 0#32 by decide, BitVec.and_zero,
      BitVec.zero_or, BitVec.and_comm]
    split
    · rw [hset, hc.2.1]
    · exact hc.2.1
  gpr := rfl
  hi := rfl
  lo := rfl
  mem := rfl
  mode := rfl
  pipeline := by
    have hp : (f.processException cause e.vector).pipeline =
        if cause &&& 0x7F = EXC_Sys ∨ cause &&& 0x7F = EXC_TLBL ∨ cause &&& 0x7F = EXC_CpU ∨
          cause &&& 0x7F = EXC_TLBS ∨ cause &&& 0x7F = EXC_Mod then .branchNodelay
        else .nothingSpecial := rfl
    rw [hp, hc.1]
    rfl

/-- Registers filled in before make no difference. -/
theorem Raised.of_setCp0 {f s : MipsState M} {e : Exc} {n : Nat} {v : Uint32} (hn : n ≠ Cause)
    (h : Raised (f.setCp0 n v) e s) : Raised f e s where
  pc := h.pc
  epc := h.epc
  bd := by rw [h.bd, f.cp0_setCp0_of_ne hn.symm]; rfl
  code := h.code
  gpr := h.gpr
  hi := h.hi
  lo := h.lo
  mem := h.mem
  mode := h.mode
  pipeline := h.pipeline

theorem raised_addressError (f : MipsState M) (type : AccessType) (va : Uint32) :
    Raised f (.addressError type) (f.processAddressError type va) := by
  refine .of_setCp0 (by decide) (raised_processException ?_)
  cases type <;> exact ⟨by decide, by decide, by decide⟩

theorem raised_tlbFault (f : MipsState M) (va : Uint32) {e : Exc} (hc : CauseOf e.code e) :
    Raised f e ((f.tlbFault va).processException e.code e.vector) :=
  .of_setCp0 (by decide) (.of_setCp0 (by decide) (.of_setCp0 (by decide)
    (raised_processException hc)))

theorem causeOf_held {e : Exc} (hh : e.Held) : CauseOf e.code e := by
  unfold CauseOf
  rcases hh with h | h | h | h | h <;> rw [h] <;> decide

theorem not_held_addressError (type : AccessType) : ¬(Exc.addressError type).Held := by
  cases type <;> decide

theorem code_addressError (type : AccessType) : (Exc.addressError type).code ≠ 0 := by
  cases type <;> decide

/-! ## An access -/

/-- The PC is at the vector and will be moved on, or the code is another one. -/
def Lost (e : Exc) (s : MipsState M) : Prop :=
  (s.pipeline = .nothingSpecial ∧ s.pc = generalVectorBase + e.vector) ∨
  (s.pipeline = .branchNodelay ∧ s.excCode ≠ e.code)

/-- What an instruction makes of its exception: it ends as `process_exception` leaves it, or
the exception is lost. -/
def Settled (f : MipsState M) (e : Exc) (o : MipsState.Outcome M) : Prop :=
  (e.Held ∧ ∃ s, o = s.plain ∧ Raised f e s) ∨
    (¬e.Held ∧ e.code ≠ 0 ∧ ∀ s n, o = some (s, n) → Lost e s)

theorem Raised.lost {f s : MipsState M} {e : Exc} (hr : Raised f e s) (hh : ¬e.Held) :
    Lost e s := .inl ⟨by rw [hr.pipeline, if_neg hh], hr.pc⟩

section

variable {f : MipsState M} {va : Uint32} {type : AccessType} {e : Exc}
  {k : Uint32 → MipsState M → MipsState.Outcome M}

theorem translated_of_fault (hf : f.faultOf va type = some e) :
    ∃ s, f.translated va type k = s.plain ∧ Raised f e s ∧ (e.Held ∨ e = .addressError type) := by
  unfold MipsState.translated
  rcases MipsState.translateVaddr_of_fault hf with ⟨hh, ht⟩ | ⟨rfl, ht⟩
  · rw [ht]
    exact ⟨_, rfl, raised_tlbFault f va (causeOf_held hh), .inl hh⟩
  · rw [ht]
    exact ⟨_, rfl, raised_addressError f type va, .inr rfl⟩

theorem translated_of_none (hf : f.faultOf va type = none) :
    f.translated va type k = none ∨ ∃ pa, f.translated va type k = k pa f := by
  unfold MipsState.translated
  rcases MipsState.translateVaddr_of_none hf with ht | ⟨pa, ht⟩
  · rw [ht]
    exact .inl rfl
  · rw [ht]
    exact .inr ⟨pa, rfl⟩

theorem settled_translated (hf : f.faultOf va type = some e) :
    Settled f e (f.translated va type k) := by
  obtain ⟨s, hs, hr, hh | rfl⟩ := translated_of_fault (k := k) hf
  · exact .inl ⟨hh, s, hs, hr⟩
  · refine .inr ⟨not_held_addressError type, code_addressError type, fun s' n e' => ?_⟩
    rw [hs] at e'
    cases e'
    exact hr.lost (not_held_addressError type)

/-- The access goes on after an address error: it is made, or it raises another exception. -/
theorem settled_misaligned
    (hk : ∀ pa s s' n, k pa s = some (s', n) → s'.pc = s.pc ∧ s'.pipeline = s.pipeline) :
    Settled f (.addressError type) ((f.processAddressError type va).translated va type k) := by
  refine .inr ⟨not_held_addressError type, code_addressError type, fun s' n e' => ?_⟩
  have hr := raised_addressError f type va
  have hpipe := hr.pipeline
  rw [if_neg (not_held_addressError type)] at hpipe
  cases hf : (f.processAddressError type va).faultOf va type with
  | none =>
    rcases translated_of_none (k := k) hf with ht | ⟨pa, ht⟩
    · rw [ht] at e'
      cases e'
    · rw [ht] at e'
      obtain ⟨hpc, hp⟩ := hk _ _ _ _ e'
      exact .inl ⟨hp.trans hpipe, hpc.trans hr.pc⟩
  | some e =>
    obtain ⟨s, hs, hr', hh | rfl⟩ := translated_of_fault (k := k) hf
    · rw [hs] at e'
      cases e'
      refine .inr ⟨by rw [hr'.pipeline, if_pos hh], fun hcode => ?_⟩
      rw [hr'.code] at hcode
      unfold Exc.Held at hh
      rw [hcode] at hh
      exact not_held_addressError type hh
    · rw [hs] at e'
      cases e'
      exact hr'.lost (not_held_addressError type)

end

theorem pc_memRead (s : MipsState M) (pa data : Uint32) (len : Nat) :
    (s.memRead h pa data len).2.pc = s.pc ∧
      (s.memRead h pa data len).2.pipeline = s.pipeline := by
  unfold MipsState.memRead
  split
  · exact ⟨rfl, rfl⟩
  · exact ⟨rfl, rfl⟩

theorem pc_memWrite (s : MipsState M) (pa data : Uint32) (len : Nat) :
    (s.memWrite h pa data len).pc = s.pc ∧ (s.memWrite h pa data len).pipeline = s.pipeline := by
  unfold MipsState.memWrite
  split
  · exact ⟨rfl, rfl⟩
  · exact ⟨rfl, rfl⟩

/-! ## The instructions -/

section

variable {f : MipsState M} {e : Exc} {instr : Uint32}

theorem settled_addOverflow {x y : Uint32} {r : Nat}
    (hr : (if MipsState.addOverflows x y then some Exc.overflow else none) = some e) :
    Settled f e (f.addOverflow r x y) := by
  split at hr
  · rename_i ho
    cases hr
    refine .inr ⟨by decide, by decide, fun s n e' => ?_⟩
    unfold MipsState.addOverflow at e'
    unfold MipsState.addOverflows at ho
    dsimp only at e'
    rw [if_pos ho] at e'
    cases e'
    exact .inl ⟨rfl, (raised_processException (e := .overflow)
      ⟨by decide, by decide, by decide⟩).pc⟩
  · cases hr

theorem settled_subOverflow {x y : Uint32} {r : Nat}
    (hr : (if MipsState.subOverflows x y then some Exc.overflow else none) = some e) :
    Settled f e (f.subOverflow r x y) := by
  split at hr
  · rename_i ho
    cases hr
    refine .inr ⟨by decide, by decide, fun s n e' => ?_⟩
    unfold MipsState.subOverflow at e'
    unfold MipsState.subOverflows at ho
    dsimp only at e'
    rw [if_pos ho] at e'
    cases e'
    exact .inl ⟨rfl, (raised_processException (e := .overflow)
      ⟨by decide, by decide, by decide⟩).pc⟩
  · cases hr

theorem settled_decodeSpecial (hr : f.raisedSpecial instr = some e) :
    Settled f e (f.decodeSpecial instr) := by
  unfold MipsState.raisedSpecial at hr
  split at hr
  · rename_i hfn
    cases hr
    unfold MipsState.decodeSpecial
    rw [hfn]
    exact .inl ⟨by decide, _, rfl, raised_processException ⟨by decide, by decide, by decide⟩⟩
  · rename_i hfn
    unfold MipsState.decodeSpecial
    rw [hfn]
    exact settled_addOverflow hr
  · rename_i hfn
    unfold MipsState.decodeSpecial
    rw [hfn]
    exact settled_subOverflow hr
  · cases hr

theorem settled_checkAligned {aligned : Bool} {va : Uint32} {type : AccessType}
    {k : Uint32 → MipsState M → MipsState.Outcome M}
    (hr : f.alignedFault aligned va type = some e)
    (hk : ∀ pa s s' n, k pa s = some (s', n) → s'.pc = s.pc ∧ s'.pipeline = s.pipeline) :
    Settled f e ((f.checkAligned aligned va type).translated va type k) := by
  unfold MipsState.alignedFault at hr
  unfold MipsState.checkAligned
  split at hr
  · rw [if_pos ‹_›]
    exact settled_translated hr
  · rw [if_neg ‹_›]
    cases hr
    exact settled_misaligned hk

theorem settled_loadHalf {extend : Uint32 → Uint32}
    (hr : f.alignedFault (!bit (f.effective instr) 0) (f.effective instr) .dataLoad = some e) :
    Settled f e (f.loadHalf h instr extend) := by
  refine settled_checkAligned hr fun pa s s' n e' => ?_
  cases e'
  exact pc_memRead s pa 0 2

theorem settled_loadWord
    (hr : f.alignedFault (f.effective instr &&& 0x3 == 0) (f.effective instr) .dataLoad = some e) :
    Settled f e (f.loadWord h instr) := by
  refine settled_checkAligned hr fun pa s s' n e' => ?_
  cases e'
  exact pc_memRead s pa 0 4

theorem settled_storeHalf
    (hr : f.alignedFault (!bit (f.effective instr) 0) (f.effective instr) .dataStore = some e) :
    Settled f e (f.storeHalf h instr) := by
  refine settled_checkAligned hr fun pa s s' n e' => ?_
  cases e'
  exact pc_memWrite s pa _ 2

theorem settled_storeWord
    (hr : f.alignedFault (Sparc.bits (f.effective instr) 1 0 == 0) (f.effective instr) .dataStore =
      some e) : Settled f e (f.storeWord h instr) := by
  unfold MipsState.alignedFault at hr
  unfold MipsState.storeWord
  split at hr
  · rename_i ha
    rw [if_neg (not_not.mpr (eq_of_beq ha))]
    exact settled_translated hr
  · rename_i ha
    cases hr
    rw [if_pos fun he => ha (beq_iff_eq.mpr he)]
    exact .inr ⟨by decide, by decide, fun s n e' => by cases e'⟩

/-- Every instruction but those of coprocessor 0. -/
theorem settled_decode (hcop : opcode instr ≠ 0o20) (hr : f.raised instr = some e) :
    Settled f e (f.decode h instr) := by
  have hr' := hr
  unfold MipsState.raised at hr'
  unfold MipsState.decode
  dsimp only at hr' ⊢
  split at hr'
  · rename_i hop
    rw [hop]
    exact settled_decodeSpecial hr'
  · rename_i hop
    rw [hop]
    unfold MipsState.decodeImmediate
    dsimp only
    rw [hop]
    exact settled_addOverflow hr'
  · exact absurd ‹_› hcop
  · rename_i hop
    rw [hop]
    split at hr'
    · cases hr'
      refine .inl ⟨by decide, _, ?_, @raised_processException _ _ (EXC_CpU ||| (1 <<< 28))
        _ ⟨by decide, by decide, by decide⟩⟩
      unfold MipsState.decodeCop1
      rw [if_pos ‹_›]
      rfl
    · cases hr'
  · rename_i hop
    rw [hop]
    exact settled_translated hr'
  · rename_i hop
    rw [hop]
    exact settled_loadHalf hr'
  · rename_i hop
    rw [hop]
    exact settled_translated hr'
  · rename_i hop
    rw [hop]
    exact settled_loadWord hr'
  · rename_i hop
    rw [hop]
    exact settled_translated hr'
  · rename_i hop
    rw [hop]
    exact settled_loadHalf hr'
  · rename_i hop
    rw [hop]
    exact settled_translated hr'
  · rename_i hop
    rw [hop]
    exact settled_translated hr'
  · rename_i hop
    rw [hop]
    exact settled_storeHalf hr'
  · rename_i hop
    rw [hop]
    exact settled_translated hr'
  · rename_i hop
    rw [hop]
    exact settled_storeWord hr'
  · rename_i hop
    rw [hop]
    exact settled_translated hr'
  · rename_i hop
    rw [hop]
    exact settled_translated hr'
  · rename_i hop
    rw [hop]
    exact settled_translated hr'
  · cases hr'

end

/-! ## The step -/

/-- What the boards do behind an instruction: they leave the PC and ExcCode as they are, or
take an interrupt. -/
def BoardInterrupts (h : Host M) : Prop := ∀ t : MipsState M,
  ((h.machIoDoCycle t).pc = t.pc ∧ (h.machIoDoCycle t).excCode = t.excCode) ∨
  (h.machIoDoCycle t).excCode = 0

theorem tick_interrupts (t : MipsState M) :
    (t.tick.pc = t.pc ∧ t.tick.excCode = t.excCode) ∨ t.tick.excCode = 0 := by
  unfold MipsState.tick
  split
  · exact .inl ⟨rfl, rfl⟩
  · dsimp only
    split
    · exact .inl ⟨rfl, rfl⟩
    · split
      · exact .inr (raised_processException (e := ⟨EXC_Int, commonVector⟩)
          ⟨by decide, by decide, by decide⟩).code
      · exact .inl ⟨rfl, rfl⟩

/-- Where the exception is lost, the step does not end precisely. -/
theorem Lost.not_precise (hb : BoardInterrupts h) {f s : MipsState M} {e : Exc}
    (hl : Lost e s) (hcode : e.code ≠ 0) (n : Pipeline) : ¬PreciseIn f e (s.finish h n) := by
  intro hp
  unfold MipsState.finish at hp
  rcases hl with ⟨hpipe, hpc⟩ | ⟨hpipe, hne⟩
  · rw [hpipe] at hp
    dsimp only at hp
    generalize ht : ({ s with pc := s.pc + 4, pipeline := n } : MipsState M) = t at hp
    have htpc : t.pc = s.pc + 4 := by rw [← ht]
    rcases hb t.tick with ⟨h1, h2⟩ | h0
    · rcases tick_interrupts t with ⟨h3, h4⟩ | h0
      · have hpc' := hp.pc
        rw [h1, h3, htpc, hpc] at hpc'
        bv_omega
      · exact hcode (hp.code.symm.trans (h2.trans h0))
    · exact hcode (hp.code.symm.trans h0)
  · rw [hpipe] at hp
    exact hne hp.code

theorem finish_of_nodelay {s : MipsState M} (hp : s.pipeline = .branchNodelay) (n : Pipeline) :
    s.finish h n = { s with pipeline := .nothingSpecial } := by
  unfold MipsState.finish
  rw [hp]

/-- EPC is right outside the slot of a jump to an unaligned address. -/
theorem epc_eq_faultAddress_iff (f : MipsState M) :
    (if f.branchDelaySlot then f.pc - 4 else f.pc) = f.faultAddress ↔
      f.pipeline ≠ .instrAddrError := by
  unfold MipsState.faultAddress MipsState.inSlot MipsState.branchDelaySlot
  cases f.pipeline
  · simp
  · simp
  · simp
    bv_omega
  · simp

/-- The marks that the exception leaves are right. -/
def MarkedRight (f : MipsState M) : Prop :=
  (bit (f.cp0 Cause) Cause_BD || f.branchDelaySlot) = f.inSlot

theorem Raised.precise_iff {f s : MipsState M} {e : Exc} (hr : Raised f e s) (hh : e.Held)
    (n : Pipeline) :
    PreciseIn f e (s.finish h n) ↔ MarkedRight f ∧ f.pipeline ≠ .instrAddrError := by
  rw [finish_of_nodelay (by rw [hr.pipeline, if_pos hh])]
  rw [← epc_eq_faultAddress_iff]
  unfold MarkedRight
  constructor
  · intro hp
    exact ⟨hr.bd.symm.trans hp.bd, hr.epc.symm.trans hp.epc⟩
  · rintro ⟨hbd, hepc⟩
    exact ⟨hr.pc, hr.epc.trans hepc, hr.bd.trans hbd, hr.code, fun k _ => congrFun hr.gpr k,
      hr.hi, hr.lo, hr.mem⟩

/-! ## Coprocessor 0 out of kernel mode -/

/-- What is left of an instruction of coprocessor 0 behind its exception does not show: it
does not touch the PC, a general register or the memory, and EPC keeps the right address. -/
def Cop0Harmless (h : Host M) (f : MipsState M) (instr : Uint32) : Prop :=
  let q := f.processCoprocessorUnusable 0
  if bit instr 25 then
    f.pipeline ≠ .instrAddrError ∧
    match funct instr with
    | 0o01 => True
    | 0o02 => True
    | 0o06 => q.getRandom ≠ none
    | 0o10 => q.probeTlb (q.cp0 EntryHi) ≠ none
    | 0o20 => True
    | 0o30 => q.cp0 EPC = q.pc ∧
        (bit (q.cp0 Cause) Cause_IP2 = true → h.machSetIntr 0 q.mem = q.mem)
    | _ => False
  else
    match rs instr with
    | 0o00 => f.pipeline ≠ .instrAddrError ∧
        ∃ v, q.readCp0 (rd instr) (sel instr) = some v ∧ (rt instr ≠ 0 → v = q.gpr (rt instr))
    | 0o02 => f.pipeline ≠ .instrAddrError
    | 0o04 => if rd instr = EPC then q.gpr (rt instr) = f.faultAddress
        else f.pipeline ≠ .instrAddrError
    | _ => False

/-- The rest of the instruction keeps what only `process_exception` sets. -/
structure RestKeeps (q s : MipsState M) : Prop where
  pipeline : s.pipeline = q.pipeline
  bd : bit (s.cp0 Cause) Cause_BD = bit (q.cp0 Cause) Cause_BD
  code : s.excCode = q.excCode
  hi : s.hi = q.hi
  lo : s.lo = q.lo

section

variable {f q s : MipsState M} {instr : Uint32}

theorem RestKeeps.of_cause (hp : s.pipeline = q.pipeline) (hc : s.cp0 Cause = q.cp0 Cause)
    (hhi : s.hi = q.hi) (hlo : s.lo = q.lo) : RestKeeps q s :=
  ⟨hp, by rw [hc], by unfold MipsState.excCode; rw [hc], hhi, hlo⟩

theorem RestKeeps.precise_iff (hk : RestKeeps q s) (hq : Raised f .coprocessorUnusable q)
    (n : Pipeline) : PreciseIn f .coprocessorUnusable (s.finish h n) ↔
      MarkedRight f ∧ s.pc = q.pc ∧ s.cp0 EPC = f.faultAddress ∧
        (∀ k, k ≠ 0 → s.gpr k = q.gpr k) ∧ s.mem = q.mem := by
  have hpipe : s.pipeline = .branchNodelay :=
    hk.pipeline.trans (by rw [hq.pipeline, if_pos (by decide)])
  rw [finish_of_nodelay hpipe]
  constructor
  · intro hp
    exact ⟨hq.bd.symm.trans (hk.bd.symm.trans hp.bd), hp.pc.trans hq.pc.symm, hp.epc,
      fun k hk => (hp.gpr k hk).trans (congrFun hq.gpr k).symm, hp.mem.trans hq.mem.symm⟩
  · rintro ⟨hbd, hpc, hepc, hgpr, hmem⟩
    exact ⟨hpc.trans hq.pc, hepc, hk.bd.trans (hq.bd.trans hbd), hk.code.trans hq.code,
      fun k h0 => (hgpr k h0).trans (congrFun hq.gpr k), hk.hi.trans hq.hi, hk.lo.trans hq.lo,
      hmem.trans hq.mem⟩

/-- The same where the rest touches nothing of it. -/
theorem RestKeeps.precise_iff_of_eq (hk : RestKeeps q s) (hq : Raised f .coprocessorUnusable q)
    (n : Pipeline) (hpc : s.pc = q.pc) (hepc : s.cp0 EPC = q.cp0 EPC)
    (hgpr : ∀ k, k ≠ 0 → s.gpr k = q.gpr k) (hmem : s.mem = q.mem) :
    PreciseIn f .coprocessorUnusable (s.finish h n) ↔
      MarkedRight f ∧ f.pipeline ≠ .instrAddrError := by
  rw [hk.precise_iff hq, hepc, hq.epc, epc_eq_faultAddress_iff]
  tauto

theorem cause_clear_timer (c : Uint32) : bit (c &&& 0xFFFF7FFF) Cause_BD = bit c Cause_BD ∧
    c &&& 0xFFFF7FFF &&& 0x7C = c &&& 0x7C := by
  constructor
  · unfold bit
    rw [BitVec.getLsbD_and, show BitVec.getLsbD (0xFFFF7FFF : Uint32) Cause_BD = true by decide,
      Bool.and_true]
  · rw [BitVec.and_assoc, show (0xFFFF7FFF : Uint32) &&& 0x7C = 0x7C by decide]

theorem core_writeCp0 (n : Nat) (x : Uint32) : RestKeeps q (q.writeCp0 n x) ∧
    (q.writeCp0 n x).pc = q.pc ∧ (q.writeCp0 n x).gpr = q.gpr ∧
    (q.writeCp0 n x).mem = q.mem ∧
    (q.writeCp0 n x).cp0 EPC = if n = EPC then x else q.cp0 EPC := by
  obtain ⟨c, nw, ev, sd, hw, ho, hc, hx⟩ := MipsState.writeCp0_spec (s := q) n x
  have hepc : c EPC = if n = EPC then x else q.cp0 EPC := by
    split
    · exact hx ‹_›
    · exact ho EPC (Ne.symm ‹_›) (by decide)
  rw [hw]
  refine ⟨⟨rfl, ?_, ?_, rfl, rfl⟩, rfl, rfl, rfl, hepc⟩
  · dsimp only
    rw [hc]
    split
    · exact (cause_clear_timer _).1
    · rfl
  · unfold MipsState.excCode
    dsimp only
    rw [hc]
    split
    · exact (cause_clear_timer _).2
    · rfl

theorem restKeeps_tlbr : RestKeeps q (q.tlbr h) := .of_cause rfl rfl rfl rfl

theorem core_setTlbEntry (n : Uint32) : RestKeeps q (q.setTlbEntry n) ∧
    (q.setTlbEntry n).pc = q.pc ∧ (q.setTlbEntry n).cp0 EPC = q.cp0 EPC ∧
    (q.setTlbEntry n).gpr = q.gpr ∧ (q.setTlbEntry n).mem = q.mem := by
  have hr := MipsState.rest_setTlbEntry (s := q) n
  have hc := MipsState.cp0_setTlbEntry (s := q) n
  have hpipe := congrArg MipsState.pipeline hr
  have hhi := congrArg MipsState.hi hr
  have hlo := congrArg MipsState.lo hr
  have hpc := congrArg MipsState.pc hr
  have hgpr := congrArg MipsState.gpr hr
  have hmem := congrArg MipsState.mem hr
  exact ⟨.of_cause hpipe (congrFun hc Cause) hhi hlo, hpc, congrFun hc EPC, hgpr, hmem⟩

theorem core_leaveKernelMode : RestKeeps q q.leaveKernelMode ∧
    q.leaveKernelMode.cp0 EPC = q.cp0 EPC := by
  have hset (k : Nat) (hk : k ≠ SR) : q.leaveKernelMode.cp0 k = q.cp0 k := by
    unfold MipsState.leaveKernelMode
    dsimp only
    rw [MipsState.cp0_setCp0_of_ne _ hk, MipsState.cp0_setCp0_of_ne _ hk]
  exact ⟨.of_cause rfl (hset Cause (by decide)) rfl rfl, hset EPC (by decide)⟩

theorem core_eret (hp : q.pipeline = .branchNodelay) : RestKeeps q (q.eret h) ∧
    (q.eret h).pc = q.cp0 EPC ∧ (q.eret h).cp0 EPC = q.cp0 EPC ∧ (q.eret h).gpr = q.gpr ∧
    (q.eret h).mem = if bit (q.cp0 Cause) Cause_IP2 then h.machSetIntr 0 q.mem else q.mem := by
  unfold MipsState.eret
  dsimp only
  have hc : (q.setCp0 SR (q.cp0 SR ||| 0x1)).cp0 Cause = q.cp0 Cause :=
    q.cp0_setCp0_of_ne (by decide) _
  have he : (q.setCp0 SR (q.cp0 SR ||| 0x1)).cp0 EPC = q.cp0 EPC :=
    q.cp0_setCp0_of_ne (by decide) _
  rw [hc, he]
  split
  · exact ⟨.of_cause hp.symm hc rfl rfl, rfl, he, rfl, rfl⟩
  · exact ⟨.of_cause hp.symm hc rfl rfl, rfl, he, rfl, rfl⟩

theorem tlbp_of_none (hp : q.probeTlb (q.cp0 EntryHi) = none) : q.tlbp = none := by
  unfold MipsState.tlbp
  rw [hp]
  rfl

theorem tlbp_of_ne_none (hp : q.probeTlb (q.cp0 EntryHi) ≠ none) :
    ∃ v, q.tlbp = some (q.setCp0 Index v) := by
  obtain ⟨r, hr⟩ := Option.ne_none_iff_exists'.mp hp
  unfold MipsState.tlbp
  rw [hr]
  exact ⟨_, rfl⟩

theorem exists_precise_iff : (∃ s', some s = some s' ∧
    PreciseIn f .coprocessorUnusable (s'.finish h .nothingSpecial)) ↔
    PreciseIn f .coprocessorUnusable (s.finish h .nothingSpecial) := by
  constructor
  · rintro ⟨s', hs, hp⟩
    cases hs
    exact hp
  · exact fun hp => ⟨s, rfl, hp⟩

/-- `ERET` goes to the word that the exception has stored. -/
theorem precise_eret_iff (hr : Raised f .coprocessorUnusable q) :
    PreciseIn f .coprocessorUnusable ((q.eret h).finish h .nothingSpecial) ↔
      MarkedRight f ∧ f.pipeline ≠ .instrAddrError ∧ q.cp0 EPC = q.pc ∧
        (bit (q.cp0 Cause) Cause_IP2 = true → h.machSetIntr 0 q.mem = q.mem) := by
  have hpipe : q.pipeline = .branchNodelay := by rw [hr.pipeline, if_pos (by decide)]
  obtain ⟨hk, hpc, hepc, hgpr, hmem⟩ := core_eret (h := h) hpipe
  refine (hk.precise_iff hr _).trans ?_
  have hm : (q.eret h).mem = q.mem ↔
      (bit (q.cp0 Cause) Cause_IP2 = true → h.machSetIntr 0 q.mem = q.mem) := by
    rw [hmem]
    split
    · rename_i hi
      rw [forall_prop_of_true hi]
    · rename_i hi
      exact iff_of_true rfl fun hi' => absurd hi' hi
  have hg : ∀ k, k ≠ 0 → (q.eret h).gpr k = q.gpr k := fun k _ => congrFun hgpr k
  have hf : q.cp0 EPC = f.faultAddress ↔ f.pipeline ≠ .instrAddrError := by
    rw [hr.epc]
    exact epc_eq_faultAddress_iff f
  rw [hpc, hepc, hm, hf]
  tauto

theorem precise_cop0Funct_iff (hq : q = f.processCoprocessorUnusable 0)
    (hr : Raised f .coprocessorUnusable q) (hb : bit instr 25 = true) :
    (∃ s, q.decodeCop0Funct h instr = some s ∧
      PreciseIn f .coprocessorUnusable (s.finish h .nothingSpecial)) ↔
      MarkedRight f ∧ Cop0Harmless h f instr := by
  unfold Cop0Harmless MipsState.decodeCop0Funct
  dsimp only
  rw [← hq, if_pos hb]
  generalize funct instr = n
  split
  · show _ ↔ MarkedRight f ∧ f.pipeline ≠ .instrAddrError ∧ True
    rw [and_true]
    exact exists_precise_iff.trans
      ((restKeeps_tlbr (h := h)).precise_iff_of_eq hr _ rfl rfl (fun _ _ => rfl) rfl)
  · show _ ↔ MarkedRight f ∧ f.pipeline ≠ .instrAddrError ∧ True
    rw [and_true]
    obtain ⟨hk, hpc, hepc, hgpr, hmem⟩ := core_setTlbEntry (q := q) (q.cp0 Index)
    exact exists_precise_iff.trans
      (hk.precise_iff_of_eq hr _ hpc hepc (fun k _ => congrFun hgpr k) hmem)
  · show _ ↔ MarkedRight f ∧ f.pipeline ≠ .instrAddrError ∧ q.getRandom ≠ none
    unfold MipsState.tlbwr
    cases hg : q.getRandom with
    | none => simp
    | some n =>
      obtain ⟨hk, hpc, hepc, hgpr, hmem⟩ := core_setTlbEntry (q := q) n
      rw [Option.map_some, and_iff_left (Option.some_ne_none n)]
      exact exists_precise_iff.trans
        (hk.precise_iff_of_eq hr _ hpc hepc (fun k _ => congrFun hgpr k) hmem)
  · show _ ↔ MarkedRight f ∧ f.pipeline ≠ .instrAddrError ∧ q.probeTlb (q.cp0 EntryHi) ≠ none
    by_cases hp : q.probeTlb (q.cp0 EntryHi) = none
    · rw [tlbp_of_none hp]
      exact iff_of_false (fun ⟨_, hs, _⟩ => absurd hs (by simp)) fun hm => hm.2.2 hp
    · obtain ⟨v, hv⟩ := tlbp_of_ne_none hp
      have hk : RestKeeps q (q.setCp0 Index v) :=
        .of_cause rfl (q.cp0_setCp0_of_ne (show Cause ≠ Index by decide) v) rfl rfl
      have hepc : (q.setCp0 Index v).cp0 EPC = q.cp0 EPC :=
        q.cp0_setCp0_of_ne (show EPC ≠ Index by decide) v
      rw [hv, and_iff_left hp]
      exact exists_precise_iff.trans (hk.precise_iff_of_eq hr _ rfl hepc (fun _ _ => rfl) rfl)
  · show _ ↔ MarkedRight f ∧ f.pipeline ≠ .instrAddrError ∧ True
    rw [and_true]
    obtain ⟨hk, hepc⟩ := core_leaveKernelMode (q := q)
    exact exists_precise_iff.trans (hk.precise_iff_of_eq hr _ rfl hepc (fun _ _ => rfl) rfl)
  · show _ ↔ MarkedRight f ∧ f.pipeline ≠ .instrAddrError ∧ q.cp0 EPC = q.pc ∧
      (bit (q.cp0 Cause) Cause_IP2 = true → h.machSetIntr 0 q.mem = q.mem)
    exact exists_precise_iff.trans (precise_eret_iff hr)
  · simp

theorem precise_mfc0_iff (hr : Raised f .coprocessorUnusable q) (n : Nat) (x : Option Uint32) :
    (∃ s, x.map (q.setGpr n) = some s ∧
      PreciseIn f .coprocessorUnusable (s.finish h .nothingSpecial)) ↔
      MarkedRight f ∧ f.pipeline ≠ .instrAddrError ∧
        ∃ v, x = some v ∧ (n ≠ 0 → v = q.gpr n) := by
  have hk (v : Uint32) : RestKeeps q (q.setGpr n v) := .of_cause rfl rfl rfl rfl
  constructor
  · rintro ⟨s, hs, hp⟩
    obtain ⟨v, hv, rfl⟩ := Option.map_eq_some_iff.mp hs
    obtain ⟨hm, -, hepc, hgpr, -⟩ := ((hk v).precise_iff hr _).mp hp
    refine ⟨hm, ?_, v, hv, fun h0 => ?_⟩
    · rw [← epc_eq_faultAddress_iff, ← hr.epc]
      exact hepc
    · rw [← hgpr _ h0]
      exact (Function.update_self n v q.gpr).symm
  · rintro ⟨hm, hp, v, rfl, hx⟩
    refine ⟨_, rfl, ((hk v).precise_iff_of_eq hr _ rfl rfl (fun k h0 => ?_) rfl).mpr ⟨hm, hp⟩⟩
    by_cases hkn : k = n
    · rw [hkn] at h0 ⊢
      exact (Function.update_self n v q.gpr).trans (hx h0)
    · exact Function.update_of_ne hkn v q.gpr

theorem precise_cop0Rs_iff (hq : q = f.processCoprocessorUnusable 0)
    (hr : Raised f .coprocessorUnusable q) (hb : ¬bit instr 25 = true) :
    (∃ s, q.decodeCop0Rs instr = some s ∧
      PreciseIn f .coprocessorUnusable (s.finish h .nothingSpecial)) ↔
      MarkedRight f ∧ Cop0Harmless h f instr := by
  unfold Cop0Harmless MipsState.decodeCop0Rs
  dsimp only
  rw [← hq, if_neg hb]
  generalize rs instr = n
  split
  · show _ ↔ MarkedRight f ∧ f.pipeline ≠ .instrAddrError ∧
      ∃ v, q.readCp0 (rd instr) (sel instr) = some v ∧ (rt instr ≠ 0 → v = q.gpr (rt instr))
    exact precise_mfc0_iff hr _ _
  · show _ ↔ MarkedRight f ∧ f.pipeline ≠ .instrAddrError
    have hk : RestKeeps q q := .of_cause rfl rfl rfl rfl
    exact exists_precise_iff.trans (hk.precise_iff_of_eq hr _ rfl rfl (fun _ _ => rfl) rfl)
  · show _ ↔ MarkedRight f ∧ if rd instr = EPC then q.gpr (rt instr) = f.faultAddress
      else f.pipeline ≠ .instrAddrError
    obtain ⟨hk, hpc, hgpr, hmem, hepcw⟩ := core_writeCp0 (q := q) (rd instr) (q.gpr (rt instr))
    have hepc : (q.writeCp0 (rd instr) (q.gpr (rt instr))).cp0 EPC = f.faultAddress ↔
        if rd instr = EPC then q.gpr (rt instr) = f.faultAddress
        else f.pipeline ≠ .instrAddrError := by
      rw [hepcw]
      split
      · exact Iff.rfl
      · rw [hr.epc]
        exact epc_eq_faultAddress_iff f
    refine exists_precise_iff.trans ((hk.precise_iff hr _).trans (and_congr_right fun _ => ?_))
    rw [← hepc]
    have hg : ∀ k, k ≠ 0 → (q.writeCp0 (rd instr) (q.gpr (rt instr))).gpr k = q.gpr k :=
      fun k _ => congrFun hgpr k
    tauto
  · simp

theorem precise_cop0_iff (hop : opcode instr = 0o20)
    (hu : (!f.inKmode && !bit (f.cp0 SR) SR_CU0) = true) :
    (∃ s n, f.decode h instr = some (s, n) ∧ PreciseIn f .coprocessorUnusable (s.finish h n)) ↔
      MarkedRight f ∧ Cop0Harmless h f instr := by
  have hr : Raised f .coprocessorUnusable (f.processCoprocessorUnusable 0) :=
    raised_processException ⟨by decide, by decide, by decide⟩
  unfold MipsState.decode
  dsimp only
  rw [hop]
  unfold MipsState.decodeCop0
  dsimp only
  rw [if_pos hu]
  by_cases hb : bit instr 25 = true
  · rw [if_pos hb, ← precise_cop0Funct_iff rfl hr hb]
    simp
  · rw [if_neg hb, ← precise_cop0Rs_iff rfl hr hb]
    simp

end

/-- When an exception is precise: `process_exception` has the PC held, the marks are right,
and an instruction of coprocessor 0 does no harm any more. -/
def PreciseWhen (h : Host M) (s f : MipsState M) (e : Exc) : Prop :=
  e.Held ∧ MarkedRight f ∧
  match s.prepare.fetch h with
  | some (instr, _) =>
    if opcode instr = 0o20 then Cop0Harmless h f instr else f.pipeline ≠ .instrAddrError
  | none => f.pipeline ≠ .instrAddrError

section

variable {s f : MipsState M} {e : Exc}

theorem Settled.precise_iff (hb : BoardInterrupts h) {o : MipsState.Outcome M}
    (hs : Settled f e o) : (∃ s n, o = some (s, n) ∧ PreciseIn f e (s.finish h n)) ↔
      e.Held ∧ MarkedRight f ∧ f.pipeline ≠ .instrAddrError := by
  rcases hs with ⟨hh, s, ho, hr⟩ | ⟨hh, hcode, hl⟩
  · constructor
    · rintro ⟨s', n, ho', hp⟩
      rw [ho] at ho'
      cases ho'
      exact ⟨hh, (hr.precise_iff hh _).mp hp⟩
    · rintro ⟨-, hp⟩
      exact ⟨s, _, ho, (hr.precise_iff hh _).mpr hp⟩
  · constructor
    · rintro ⟨s', n, ho, hp⟩
      exact absurd hp ((hl s' n ho).not_precise hb hcode n)
    · rintro ⟨hh', -⟩
      exact absurd hh' hh

theorem exists_step_iff : (∃ s', s.stepOnce h = some s' ∧ PreciseIn f e s') ↔
    ∃ t n, s.prepare.fetchDecode h = some (t, n) ∧ PreciseIn f e (t.finish h n) := by
  unfold MipsState.stepOnce
  constructor
  · rintro ⟨s', hs, hp⟩
    obtain ⟨⟨t, n⟩, ht, rfl⟩ := Option.map_eq_some_iff.mp hs
    exact ⟨t, n, ht, hp⟩
  · rintro ⟨t, n, ht, hp⟩
    exact ⟨_, by rw [ht]; rfl, hp⟩

theorem precise_fetch_iff (hb : BoardInterrupts h)
    (hf : f.faultOf f.pc .instrFetch = some e) :
    (∃ t n, f.fetchDecode h = some (t, n) ∧ PreciseIn f e (t.finish h n)) ↔
      e.Held ∧ MarkedRight f ∧ f.pipeline ≠ .instrAddrError :=
  (settled_translated hf).precise_iff hb

theorem fetch_of_fault (hf : f.faultOf f.pc .instrFetch = some e) : f.fetch h = none := by
  unfold MipsState.fetch
  rcases MipsState.translateVaddr_of_fault hf with ⟨-, ht⟩ | ⟨-, ht⟩
  · rw [ht]
  · rw [ht]

/-- The end of a jump to an unaligned address has the address of the slot in EPC. -/
theorem not_precise_jump {t : MipsState M} (ht : t.pipeline = .instrAddrError) (n : Pipeline) :
    ¬PreciseIn t (.addressError .instrFetch) (t.finish h n) := by
  intro hp
  unfold MipsState.finish at hp
  rw [ht] at hp
  have hepc := (raised_addressError t .instrFetch t.branchTarget).epc.symm.trans hp.epc
  exact (epc_eq_faultAddress_iff t).mp hepc ht

theorem precise_decode_iff (hb : BoardInterrupts h) {instr : Uint32}
    (hr : f.raised instr = some e) :
    (∃ t n, f.decode h instr = some (t, n) ∧ PreciseIn f e (t.finish h n)) ↔
      e.Held ∧ MarkedRight f ∧
        if opcode instr = 0o20 then Cop0Harmless h f instr else f.pipeline ≠ .instrAddrError := by
  by_cases hop : opcode instr = 0o20
  · unfold MipsState.raised at hr
    dsimp only at hr
    rw [hop] at hr
    change (if _ then _ else _) = _ at hr
    split at hr
    · cases hr
      rw [if_pos hop, precise_cop0_iff hop ‹_›]
      exact (and_iff_right (by decide)).symm
    · cases hr
  · rw [if_neg hop]
    exact (settled_decode hop hr).precise_iff hb

end

/-- A step that raises an exception ends precisely under `PreciseWhen` and only then. -/
theorem step_precise_iff (hb : BoardInterrupts h) (s f : MipsState M) (e : Exc)
    (hr : s.raisedIn h = some (f, e)) :
    (∃ s', s.stepOnce h = some s' ∧ PreciseIn f e s') ↔ PreciseWhen h s f e := by
  rw [exists_step_iff]
  unfold MipsState.raisedIn at hr
  unfold PreciseWhen
  dsimp only at hr
  split at hr
  · rename_i hf
    cases hr
    rw [fetch_of_fault hf]
    exact precise_fetch_iff hb hf
  · cases hr
  · rename_i instr f' _ hfetch
    rw [hfetch, MipsState.fetchDecode_of_fetch hfetch]
    dsimp only
    split at hr
    · cases hr
      exact precise_decode_iff hb ‹_›
    · rename_i t n _ hd
      split at hr
      · cases hr
        rw [hd]
        refine iff_of_false ?_ fun hp => not_held_addressError .instrFetch hp.1
        rintro ⟨t', n', ht, hp⟩
        cases ht
        exact not_precise_jump ‹_› _ hp
      · cases hr
    · cases hr

/-- A host whose memory reads as one word everywhere. -/
def romHost : Host Uint32 where
  bankRead word _ _ := some (word, word, 0)
  bankWrite word _ _ _ := some (word, 0)
  machIoDoCycle s := s
  machSetIntr _ word := word
  strayEntry _ _ := (0, 0, 0)
  uninit := 0

theorem boardInterrupts_romHost : BoardInterrupts romHost := fun _ => .inl ⟨rfl, rfl⟩

/-- In the slot of a branch, at the instruction `instr`. -/
def slotAt (instr : Uint32) : MipsState Uint32 :=
  { (blankState instr).setGpr 1 0x7FFFFFFF with pc := 0x80001004, pipeline := .branchDelay }

/-- `add $3, $1, $1` overflows: the PC is 4 behind the vector, and register 3 is written. -/
theorem not_precise_add : ¬∀ h : Host Uint32, BoardInterrupts h →
    ∀ (s f : MipsState Uint32) (e : Exc), s.raisedIn h = some (f, e) →
      ∃ s', s.stepOnce h = some s' ∧ PreciseIn f e s' := by
  intro hall
  have hr : ((slotAt 0x00211820).raisedIn romHost).map Prod.snd = some .overflow := by
    decide +kernel
  have hs : ((slotAt 0x00211820).stepOnce romHost).map MipsState.pc = some 0x80000184 := by
    decide +kernel
  obtain ⟨⟨f, e⟩, hf, rfl⟩ := Option.map_eq_some_iff.mp hr
  obtain ⟨s', hs', hp⟩ := hall romHost boardInterrupts_romHost _ f .overflow hf
  rw [hs', Option.map_some, hp.pc] at hs
  exact absurd hs (by decide)

theorem step_precise_iff_syscall : ∃ f, (slotAt 0x0000000C).raisedIn romHost = some (f, .syscall) ∧
    ∃ s', (slotAt 0x0000000C).stepOnce romHost = some s' ∧ PreciseIn f .syscall s' := by
  have hr : ((slotAt 0x0000000C).raisedIn romHost).any (fun p => p.2 == .syscall &&
      ((bit (p.1.cp0 Cause) Cause_BD || p.1.branchDelaySlot) == p.1.inSlot) &&
        p.1.pipeline == .branchDelay) = true := by
    decide +kernel
  have hw :
      ((slotAt 0x0000000C).prepare.fetch romHost).any (fun p => p.1 == 0x0000000C) = true := by
    decide +kernel
  obtain ⟨⟨f, e⟩, hf, hp⟩ := (Option.any_eq_true _ _).mp hr
  obtain ⟨⟨instr, s⟩, hi, hinstr⟩ := (Option.any_eq_true _ _).mp hw
  simp only [Bool.and_eq_true, beq_iff_eq] at hp hinstr
  obtain ⟨⟨rfl, hm⟩, hpipe⟩ := hp
  refine ⟨f, hf, (step_precise_iff boardInterrupts_romHost _ f _ hf).mpr ⟨by decide, hm, ?_⟩⟩
  rw [hi]
  dsimp only
  rw [hinstr, if_neg (by decide), hpipe]
  decide

end SkyEye.Mips
