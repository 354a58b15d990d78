import SkyEye.Sparc.Frame

/-!
# Precise traps

An instruction that signals a trap must leave the state as it found it, so that the trap
saves its address and the handler can run it again. All but `udiv` return at once after
`traps->signal`; `udiv` falls through to the end, and has gone on to the next instruction
when the trap is taken.
-/

namespace SkyEye.Sparc

namespace SparcState

variable {M : Type} (h : Host M)

/-- The state with `irq_pending` set to `p`. -/
def pend (s : SparcState M) (p : Bool) : SparcState M := { s with irqPending := p }

/-- `execute` signals a trap: it sets `irq_pending` where none was pending. -/
def Signals (i : Instr) (s : SparcState M) : Prop := ((s.pend false).execute h i).irqPending = true

instance (i : Instr) (s : SparcState M) : Decidable (s.Signals h i) :=
  inferInstanceAs (Decidable (_ = _))

/-- PC, nPC, the registers of all windows, `Y`, the PSR (with the condition codes and the
`CWP`), WIM and memory are the same. -/
structure SameContext (s t : SparcState M) : Prop where
  pc : t.pc = s.pc
  npc : t.npc = s.npc
  global : t.global = s.global
  regbase : t.regbase = s.regbase
  regwptr : t.regwptr = s.regwptr
  fpRegs : t.fpRegs = s.fpRegs
  y : t.y = s.y
  psr : t.psr = s.psr
  wim : t.wim = s.wim
  mem : t.mem = s.mem

/-- The trap that `i` signals is precise: nothing has changed when it is taken, and what it
saves is the address of `i`. -/
structure Precise (i : Instr) (s : SparcState M) : Prop where
  context : s.SameContext (s.execute h i)
  saved : ∀ t, (s.iuCycleStep h i).iuTrapCycle = some t → t.reg L1 = s.pc ∧ t.reg L2 = s.npc

theorem sameContext_signal (s : SparcState M) (trap : Int) : s.SameContext (s.signal trap) := by
  obtain he | ⟨tbr, he⟩ := s.signal_eq trap <;> rw [he] <;> constructor <;> rfl

/-! ## The trap entry -/

theorem trigger_saves {s t : SparcState M} (ht : s.trigger = some t) :
    t.reg L1 = s.pc ∧ t.reg L2 = s.npc := by
  obtain ⟨-, rfl⟩ := trigger_eq_some.mp ht
  constructor
  · rw [goto_reg, reg_setReg_of_ne _ (by decide), reg_setReg, if_pos rfl]
  · rw [goto_reg, reg_setReg, if_pos rfl]

theorem iuTrapCycle_saves {s t : SparcState M} (hp : s.irqPending = true)
    (ht : s.iuTrapCycle = some t) : t.reg L1 = s.pc ∧ t.reg L2 = s.npc := by
  rw [iuTrapCycle, if_pos hp] at ht
  cases hs : s.trigger with
  | none => rw [hs] at ht; cases ht
  | some u =>
    rw [hs] at ht
    have hsaved := trigger_saves hs
    rw [← Option.some.inj ht]
    exact hsaved

/-! ## Signalling and nothing else -/

/-- From `s`, `body` signals a trap and does nothing else, or it signals none; whatever is
pending already. -/
def SignalsOnly (body : SparcState M → SparcState M) (s : SparcState M) : Prop :=
  (∃ trap, 0 ≤ trap ∧ ∀ p, body (s.pend p) = (s.pend p).signal trap) ∨
    ∀ p, (body (s.pend p)).irqPending = p

namespace SignalsOnly

variable {s : SparcState M} {a b : SparcState M → SparcState M}

theorem silent (ha : ∀ s, (a s).irqPending = s.irqPending) : SignalsOnly a s :=
  .inr fun p => ha (s.pend p)

theorem signal {trap : Int} (ht : 0 ≤ trap) : SignalsOnly (M := M) (·.signal trap) s :=
  .inl ⟨trap, ht, fun _ => rfl⟩

/-- A test that does not look at what is pending. -/
theorem ite {c : SparcState M → Prop} [∀ s, Decidable (c s)] (hc : ∀ p, c (s.pend p) ↔ c s)
    (ha : SignalsOnly a s) (hb : SignalsOnly b s) :
    SignalsOnly (fun s => if c s then a s else b s) s := by
  by_cases hs : c s
  · have hp : ∀ p, (if c (s.pend p) then a (s.pend p) else b (s.pend p)) = a (s.pend p) :=
      fun p => if_pos ((hc p).mpr hs)
    rcases ha with ⟨trap, ht, ha⟩ | ha
    · exact .inl ⟨trap, ht, fun p => (hp p).trans (ha p)⟩
    · exact .inr fun p => (congrArg irqPending (hp p)).trans (ha p)
  · have hp : ∀ p, (if c (s.pend p) then a (s.pend p) else b (s.pend p)) = b (s.pend p) :=
      fun p => if_neg fun hcp => hs ((hc p).mp hcp)
    rcases hb with ⟨trap, ht, hb⟩ | hb
    · exact .inl ⟨trap, ht, fun p => (hp p).trans (hb p)⟩
    · exact .inr fun p => (congrArg irqPending (hp p)).trans (hb p)

end SignalsOnly

/-! ## The shapes of instructions -/

variable (s : SparcState M)

@[simp] theorem iccZN_irqPending (z : Uint32) : (s.iccZN z).irqPending = s.irqPending := by
  simp [iccZN]

theorem operate_irqPending (op : Uint32 → Uint32 → Uint32) (f : Fields) :
    (s.operate op f).irqPending = s.irqPending := by
  simp [operate]

theorem subtract_irqPending (z : Uint32) (f : Fields) :
    (s.subtract z f).irqPending = s.irqPending := by
  simp [subtract]

theorem multiply_irqPending (f : Fields) : (s.multiply f).irqPending = s.irqPending := by
  simp [multiply]

theorem iOrcc_irqPending (f : Fields) : (s.iOrcc f).irqPending = s.irqPending := by
  unfold iOrcc
  cases f.op2 <;> simp

theorem iSra_irqPending (f : ShiftFields) : (s.iSra h f).irqPending = s.irqPending := by
  unfold iSra
  cases bit (s.reg f.rs1) 31 <;> simp

theorem branch_irqPending (icc : Bool) (f : BranchFields) :
    (s.branch icc f).irqPending = s.irqPending := by
  unfold branch; split
  · rfl
  · split <;> rfl

theorem stored_busWrite_irqPending (size : Nat) (addr data : Uint32) :
    (stored (s.busWrite h size addr data)).irqPending = s.irqPending := by
  obtain ⟨mem, hw⟩ := s.busWrite_eq h size addr data
  rw [hw]
  rfl

theorem signalsOnly_privileged {body : SparcState M → SparcState M} (hb : SignalsOnly body s) :
    SignalsOnly (fun s => s.privileged (body s)) s := by
  unfold privileged
  exact .ite (fun _ => Iff.rfl) hb (.signal (by decide))

theorem signalsOnly_load (size : Nat) (align : Uint32) (extend : Uint32 → Uint32)
    {put : SparcState M → Uint32 → SparcState M}
    (hput : ∀ s v, (put s v).irqPending = s.irqPending) (f : Fields) :
    SignalsOnly (fun s => s.load h size align extend put f) s := by
  unfold load
  refine .ite (fun _ => Iff.rfl) (.signal (by decide)) (.silent fun s => ?_)
  obtain ⟨value, mem, hr⟩ := s.busRead_eq h size (s.address f) 0
  rw [hr]
  exact hput _ _

theorem signalsOnly_loadDouble {put : SparcState M → Nat → Uint32 → SparcState M}
    (hput : ∀ s x v, (put s x v).irqPending = s.irqPending) (f : Fields) :
    SignalsOnly (fun s => s.loadDouble h put f) s := by
  unfold loadDouble
  refine .ite (fun _ => Iff.rfl) (.signal (by decide)) ?_
  refine .ite (fun _ => Iff.rfl) (.signal (by decide)) (.silent fun s => ?_)
  obtain ⟨value, mem, hr⟩ := s.busRead_eq h 32 (s.address f) 0
  rw [hr]
  obtain ⟨value', mem', hr'⟩ :=
    (put { s with mem := mem } f.rd value).busRead_eq h 32 (s.address f + 4) value
  dsimp only
  rw [hr']
  exact (hput _ _ _).trans (hput _ _ _)

theorem signalsOnly_store (size : Nat) (align : Uint32) (data : SparcState M → Uint32)
    (f : Fields) : SignalsOnly (fun s => s.store h size align (data s) f) s := by
  unfold store
  refine .ite (fun _ => Iff.rfl) (.signal (by decide)) (.silent fun s => ?_)
  exact s.stored_busWrite_irqPending h size (s.address f) (data s)

theorem storeTwice_irqPending (addr data data' : Uint32) :
    (s.storeTwice h addr data data').irqPending = s.irqPending := by
  obtain ⟨mem, hw⟩ := s.busWrite_eq h 32 addr data
  unfold storeTwice
  rw [hw]
  exact stored_busWrite_irqPending h _ 32 (addr + 4) data'

/-! ## Every instruction -/

theorem signalsOnly_wrpsr (f : Fields) : SignalsOnly (fun s => s.iWrpsr f) s := by
  refine s.signalsOnly_privileged (.ite (fun _ => Iff.rfl) (.signal (by decide)) ?_)
  exact .silent fun s => by simp [setPsr]

theorem signalsOnly_rett (f : Fields) : SignalsOnly (fun s => s.iRett f) s := by
  unfold iRett
  refine .ite (fun _ => Iff.rfl) (.signal (by decide)) ?_
  refine .ite (fun _ => Iff.rfl) (.signal (by decide)) ?_
  refine .ite (fun _ => Iff.rfl) (.signal (by decide)) ?_
  refine .ite (fun _ => Iff.rfl) (.signal (by decide)) ?_
  refine .ite (fun _ => Iff.rfl) (.signal (by decide)) (.silent fun s => ?_)
  exact s.iuAddCwp_irqPending

theorem signalsOnly_ta (rs1 : RegNo) (op : TrapOperand) :
    SignalsOnly (fun s => s.iTa rs1 op) s := by
  exact .inl ⟨s.taNumber rs1 op, Int.natCast_nonneg _, fun _ => rfl⟩

/-- Every instruction but `udiv` stops where it signals a trap. -/
theorem signalsOnly_execute {i : Instr} (hi : ∀ f, i ≠ .udiv f) :
    SignalsOnly (fun s => s.execute h i) s := by
  cases i
  case udiv f => exact absurd rfl (hi f)
  case nop | flush => exact .silent fun _ => rfl
  case or f | and f | andn f | orn f | xor f | xnor f | add f | addx f | sub f | subx f =>
    exact .silent fun s => s.operate_irqPending _ f
  case andcc f | andncc f | addcc f | mulscc f =>
    exact .silent fun s => by simp [execute, iAndcc, iAndncc, iAddcc, iMulscc]
  case orcc f => exact .silent fun s => s.iOrcc_irqPending f
  case subcc f | subxcc f => exact .silent fun s => s.subtract_irqPending _ f
  case sll f | srl f => exact .silent fun s => by simp [execute, iSll, iSrl]
  case sra f => exact .silent fun s => s.iSra_irqPending h f
  case smul f | umul f => exact .silent fun s => s.multiply_irqPending f
  case sethi rd imm22 => exact .silent fun s => by simp [execute, iSethi]
  case call disp30 => exact .silent fun s => by simp [execute, iCall]
  case ba f | bn f => exact .silent fun s => by simp only [execute, iBa, iBn]; split <;> rfl
  case bne f | be f | bg f | ble f | bge f | bl f | bgu f | bleu f | bcc f | bcs f | bpos f |
      bneg f | bvc f | bvs f =>
    exact .silent fun s => s.branch_irqPending _ f
  case rdy rd => exact .silent fun s => by simp [execute, iRdy]
  case wry f => exact .silent fun _ => rfl
  case rdpsr rd | rdwim rd | rdtbr rd =>
    exact s.signalsOnly_privileged (.silent fun s => by simp)
  case wrwim f | wrtbr f => exact s.signalsOnly_privileged (.silent fun _ => rfl)
  case wrpsr f => exact s.signalsOnly_wrpsr f
  case rett f => exact s.signalsOnly_rett f
  case jmpl f =>
    exact .ite (fun _ => Iff.rfl) (.signal (by decide)) (.silent fun s => by simp)
  case ta rs1 op => exact s.signalsOnly_ta rs1 op
  case save f | restore f =>
    exact .ite (fun _ => Iff.rfl) (.signal (by decide)) (.silent fun s => by simp)
  case ldsb f | ldsh f | ldub f | lduh f | ld f =>
    unfold execute
    exact s.signalsOnly_load h _ _ _ (fun s v => s.setReg_irqPending f.rd v) f
  case ldf f =>
    exact .ite (fun _ => Iff.rfl) (.signal (by decide))
      (s.signalsOnly_load h _ _ _ (fun s v => s.setFpReg_irqPending f.rd v) f)
  case ldd f => exact s.signalsOnly_loadDouble h setReg_irqPending f
  case lddf f =>
    exact .ite (fun _ => Iff.rfl) (.signal (by decide))
      (s.signalsOnly_loadDouble h setFpReg_irqPending f)
  case stb f | sth f | st f => exact s.signalsOnly_store h _ _ _ f
  case stf f | stfsr f =>
    exact .ite (fun _ => Iff.rfl) (.signal (by decide)) (s.signalsOnly_store h _ _ _ f)
  case std f =>
    refine .ite (fun _ => Iff.rfl) (.signal (by decide)) ?_
    exact .ite (fun _ => Iff.rfl) (.signal (by decide))
      (.silent fun s => s.storeTwice_irqPending h _ _ _)
  case stdf f =>
    refine .ite (fun _ => Iff.rfl) (.signal (by decide)) ?_
    refine .ite (fun _ => Iff.rfl) (.signal (by decide)) ?_
    exact .ite (fun _ => Iff.rfl) (.signal (by decide))
      (.silent fun s => s.storeTwice_irqPending h _ _ _)

/-- `udiv` goes on to the next instruction, trap or not. -/
theorem iUdiv_npc (f : Fields) : (s.iUdiv f).npc = s.npc + 4 := by
  have hsignal : ∀ trap, (s.signal trap).npc = s.npc := fun trap =>
    (s.sameContext_signal trap).npc
  unfold iUdiv
  cases f.op2 with
  | reg rs2 => dsimp only; split <;> simp [advance, hsignal]
  | simm13 imm => dsimp only; split <;> simp [advance, hsignal]

theorem precise_of_signal {i : Instr} {trap : Int} (ht : 0 ≤ trap)
    (he : s.execute h i = s.signal trap) : s.Precise h i := by
  refine ⟨he ▸ s.sameContext_signal trap, fun t hcycle => ?_⟩
  obtain ⟨tbr, hs⟩ := s.signal_of_nonneg ht
  have hsaved := iuTrapCycle_saves (by rw [iuCycleStep, he, hs, setReg_irqPending]) hcycle
  rwa [iuCycleStep, he, hs, setReg_pc, setReg_npc] at hsaved

end SparcState

open SparcState in
/-- A trap that an instruction signals is precise unless the instruction is `udiv`. -/
theorem signalled_trap_precise_iff {M : Type} (h : Host M) (i : Instr) (s : SparcState M)
    (hs : s.Signals h i) : s.Precise h i ↔ ∀ f, i ≠ .udiv f := by
  constructor
  · rintro hp f rfl
    have hnpc : s.npc + 4 = s.npc := (s.iUdiv_npc f).symm.trans hp.context.npc
    bv_omega
  · intro hi
    rcases s.signalsOnly_execute h hi with ⟨trap, ht, he⟩ | hsilent
    · exact s.precise_of_signal h ht (he s.irqPending)
    · exact absurd hs (by rw [Signals, hsilent]; decide)

theorem signalled_trap_precise_ld :
    resetState.Precise bareHost (.ld ⟨8, 0, .simm13 1⟩) :=
  (signalled_trap_precise_iff bareHost (.ld ⟨8, 0, .simm13 1⟩) resetState (by decide)).mpr
    fun _ h => nomatch h

/-- `udiv %g0, 0, %o0` has gone on to the next instruction when it traps. -/
theorem udiv_trap_not_precise :
    ¬∀ (i : Instr) (s : SparcState Unit), s.Signals bareHost i → s.Precise bareHost i := by
  intro hall
  have hp := hall (.udiv ⟨8, 0, .simm13 0⟩) resetState (by decide)
  have hnpc : (resetState.execute bareHost (.udiv ⟨8, 0, .simm13 0⟩)).npc = resetState.npc :=
    hp.context.npc
  exact absurd hnpc (by decide)

end SkyEye.Sparc
