import SkyEye.Arm.Psr
import SkyEye.Arm.Supp
import SkyEye.Lib.Word

/-!
# Exception entry and return

`abort` moves the processor to the exception's mode and touches nothing of the
interrupted context but register 15 (`entered_abort`); the return with the right
offset puts the context back (`exception_return_restores`), whatever the handler
did to its own banked registers, the flags and the memory.
-/

namespace SkyEye

/-- The exceptions a handler returns from. -/
inductive Exception where
  | undef
  | swi
  | prefetchAbort
  | dataAbort
  | irq
  | fiq
  deriving DecidableEq, Repr

namespace Exception

def vector : Exception → ARMword
  | undef => UNDEFINEDINSTRV
  | swi => SWIV
  | prefetchAbort => PREFETCHABORTV
  | dataAbort => DATAABORTV
  | irq => IRQV
  | fiq => FIQV

def mode : Exception → Mode32
  | undef => .undef
  | swi => .svc
  | prefetchAbort => .abort
  | dataAbort => .abort
  | irq => .irq
  | fiq => .fiq

/-- The interrupts that the entry disables. -/
def mask : Exception → ARMword
  | fiq => INTBITS
  | _ => IBIT

/-- The `k` of the return `SUBS pc, r14, #k`. -/
def returnOffset : Exception → ARMword
  | undef | swi => 0
  | prefetchAbort | irq | fiq => 4
  | dataAbort => 8

/-- Whether the interrupted program goes on after the instruction or at it. -/
def resumesNext : Exception → Bool
  | undef | swi => true
  | _ => false

theorem bank_mode_canAccessSpsr (e : Exception) : e.mode.bank.canAccessSpsr = true := by
  cases e <;> rfl

end Exception

namespace State

variable {U : Type} {s : State U}

/-- What `abort` subtracts from register 15 for the return address. -/
def linkOffset (s : State U) : Exception → ARMword
  | .undef | .swi => s.insnSize
  | .dataAbort => if s.tFlag then -4 else 0
  | _ => if s.tFlag then 0 else 4

/-- An address as the program counter of the current mode holds it. -/
def pcWrap (s : State U) (a : ARMword) : ARMword := if s.mode32Bit then a else a &&& R15PCBITS

/-- Where the interrupted program goes on: register 15 is two instructions ahead. -/
def resumePC (s : State U) (e : Exception) : ARMword :=
  s.pcWrap (s.getPC - 2 * s.insnSize + if e.resumesNext then s.insnSize else 0)

/-- A state the processor runs in: a mode with its own bank in sight; no Thumb in a 26-bit mode. -/
structure ValidMode (s : State U) : Prop where
  mode : (∃ m : Mode32, s.mode = m.bits) ∨ s.mode ≤ SVC26MODE ∧ s.tFlag = false
  bank : s.bank = modeToBank s.mode

theorem mode26_cases {m : ARMword} (h : m ≤ SVC26MODE) : m = 0 ∨ m = 1 ∨ m = 2 ∨ m = 3 := by
  simp only [SVC26MODE] at h
  bv_omega

theorem ValidMode.modebits (h : s.ValidMode) : s.mode &&& MODEBITS = s.mode := by
  rcases h.mode with ⟨m, hm⟩ | ⟨hm, -⟩
  · rw [hm]; cases m <;> rfl
  · rcases mode26_cases hm with hm | hm | hm | hm <;> rw [hm] <;> rfl

theorem ValidMode.bank_ne_dummy (h : s.ValidMode) : s.bank ≠ .dummy := by
  rw [h.bank]
  rcases h.mode with ⟨m, hm⟩ | ⟨hm, -⟩
  · rw [hm, modeToBank_bits]; exact m.bank_ne_dummy
  · rcases mode26_cases hm with hm | hm | hm | hm <;> rw [hm] <;> decide

/-! ## What an exception leaves alone -/

theorem rest_setAbort (temp i mode d : ARMword) : (s.setAbort temp i mode d).rest = s.rest := by
  rw [setAbort, rest_setReg, setCPSR, rest_cpsrAltered]
  exact rest_setSPSR _ _

theorem rest_enterException (vector : ARMword) : (s.enterException vector).rest = s.rest := by
  have hp : ({ s with abortAddr := 1 } : State U).rest = s.rest := rfl
  simp only [enterException, apply_ite rest, rest_setAbort, hp, ite_self]

/-- In every mode, with 26-bit ones among them. -/
theorem rest_abort (vector : ARMword) : (s.abort vector).rest = s.rest := by
  rw [abort]
  split <;> rw [rest_setR15, rest_enterException] <;> rfl

theorem abort_abortSig (vector : ARMword) : (s.abort vector).abortSig = s.abortSig := by
  change (s.abort vector).rest.abortSig = s.rest.abortSig
  rw [rest_abort]

/-! ## Entry -/

/-- `t` is `s` after the entry into mode `m` with return address `lr`. -/
structure Entered (s t : State U) (m : Mode32) (lr : ARMword) : Prop where
  mode : t.mode = m.bits
  bank : t.bank = m.bank
  tFlag : t.tFlag = false
  spsr : t.spsr = Function.update s.spsr m.bank s.getCPSR
  lr : t.slot m.bank 14 = lr
  slot : ∀ b r, r ≠ 15 → ¬ (b = m.bank ∧ r = 14) → t.slot b r = s.slot b r
  rest : t.rest = s.rest

/-- The status word of the entry: mode `m`, ARM state. -/
theorem setAbort_cpsr (hs : s.mode &&& MODEBITS = s.mode) (m : Mode32) {i : ARMword}
    (hi : i = IBIT ∨ i = INTBITS) :
    let c := (s.getCPSR &&& ~~~(s.mode ||| TBIT)) ||| i ||| m.bits
    c &&& MODEBITS = m.bits ∧ c.getLsbD 5 = false := by
  have hm : m.bits &&& MODEBITS = m.bits := by cases m <;> rfl
  have hg := getCPSR_and_modebits hs
  constructor
  · -- the old mode goes, and the interrupt bits are none of it
    have hold : (s.getCPSR &&& ~~~(s.mode ||| TBIT)) &&& MODEBITS = 0#32 := by
      rw [BitVec.and_assoc, BitVec.and_comm _ MODEBITS, ← BitVec.and_assoc, hg, BitVec.not_or,
        ← BitVec.and_assoc, BitVec.and_not_self]
      exact BitVec.zero_and
    have hint : i &&& MODEBITS = 0#32 := by rcases hi with rfl | rfl <;> decide
    rw [BitVec.and_or_distrib_right, BitVec.and_or_distrib_right, hold, hint, hm,
      BitVec.zero_or, BitVec.zero_or]
  · have h5 := getLsbD_mode hm (i := 5) (by decide)
    simp only [BitVec.getLsbD_and, BitVec.getLsbD_or, BitVec.getLsbD_not, h5]
    rcases hi with rfl | rfl <;> simp [TBIT, IBIT, INTBITS]

theorem entered_setAbort (hp : s.prog32Sig = true) (hs : s.ValidMode) {m : Mode32}
    (hm : m.bank.canAccessSpsr = true) {i : ARMword} (hi : i = IBIT ∨ i = INTBITS)
    (temp d : ARMword) :
    s.Entered (s.setAbort temp i m.bits d) m (temp - d) := by
  obtain ⟨hc, h5⟩ := setAbort_cpsr hs.modebits m hi
  let s' : State U := { s with spsr := Function.update s.spsr m.bank s.getCPSR }
  have he : s.setSPSR m.bits s.getCPSR = s' := by
    rw [setSPSR, modeToBank_bits_and, hm, if_pos rfl]
  let c := (s.getCPSR &&& ~~~(s.mode ||| TBIT)) ||| i ||| m.bits
  have ha : Altered { s' with cpsr := c } (cpsrAltered { s' with cpsr := c }) :=
    altered_cpsrAltered hp hs.bank hs.bank_ne_dummy
      (by rw [show ({ s' with cpsr := c } : State U).cpsr = c from rfl, hc, modeToBank_bits]
          exact m.bank_ne_dummy)
  rw [setAbort, he, setCPSR, show s'.getCPSR = s.getCPSR from rfl, show s'.mode = s.mode from rfl]
  generalize cpsrAltered { s' with cpsr := c } = t at ha ⊢
  have hmode : t.mode = m.bits := ha.mode.trans hc
  have hbank : t.bank = m.bank := by rw [ha.bank, hmode, modeToBank_bits]
  have h14 : homeBank t.bank 14 = m.bank := by rw [hbank]; rfl
  refine ⟨hmode, hbank, ?_, ha.spsr, ?_, fun b r h15 hne => ?_, ha.rest⟩
  · have hb := congrArg (fun x : ARMword => x.getLsbD 5) ha.getCPSR
    have hm5 : t.mode.getLsbD 5 = false := by rw [hmode]; cases m <;> rfl
    have hc5 : c.getLsbD 5 = false := h5
    simp only [getLsbD_getCPSR t (i := 5) (by decide), BitVec.getLsbD_and, hm5, hc5] at hb
    exact (by simpa using hb : t.tFlag = false)
  · simp [slot_setReg, h14]
  · rw [slot_setReg, if_neg (by rintro ⟨rfl, h⟩; exact hne ⟨h.symm.trans h14, rfl⟩)]
    exact ha.slot b r h15

/-- The exception's arguments of `setAbort`. -/
theorem enterException_eq (hp : s.prog32Sig = true) (e : Exception) :
    s.enterException e.vector =
      setAbort { s with abortAddr := if e = .prefetchAbort then 1 else s.abortAddr }
        s.abortPC e.mask e.mode.bits (s.linkOffset e) := by
  have h32 (a b : ARMword) : (if s.prog32Sig then a else b) = a := if_pos hp
  cases e <;> simp [enterException, h32, Exception.vector, Exception.mask, Exception.mode,
    Mode32.bits, linkOffset, RESETV, UNDEFINEDINSTRV, SWIV, PREFETCHABORTV, DATAABORTV,
    ADDREXCEPTNV, IRQV, FIQV]

theorem entered_abort (hp : s.prog32Sig = true) (hs : s.ValidMode) (e : Exception) :
    s.Entered (s.abort e.vector) e.mode (s.abortPC - s.linkOffset e) := by
  let s' : State U :=
    { s with aborted := 0, abortAddr := if e = .prefetchAbort then 1 else s.abortAddr }
  have h : s'.Entered _ e.mode _ :=
    entered_setAbort (s := s') hp ⟨hs.mode, hs.bank⟩ e.bank_mode_canAccessSpsr
      (i := e.mask) (by cases e <;> simp [Exception.mask]) s.abortPC (s.linkOffset e)
  have he := enterException_eq (s := { s with aborted := 0 }) hp e
  rw [abort]
  have ht : State.enterException { s with aborted := 0 } e.vector =
    s'.setAbort s.abortPC e.mask e.mode.bits (s.linkOffset e) := he
  rw [ht]
  generalize s'.setAbort s.abortPC e.mask e.mode.bits (s.linkOffset e) = t at h ⊢
  have h32 : t.mode32Bit = true := by rw [mode32Bit, h.mode]; cases e <;> rfl
  simp only [h32, if_true, setR15]
  refine ⟨h.mode, h.bank, h.tFlag, h.spsr, h.lr, fun b r h15 hne => ?_, h.rest⟩
  refine Eq.trans ?_ (h.slot b r h15 hne)
  simp [flushPipe, slot, setReg, h15]

/-! ## Return -/

/-- What a handler must keep: its mode, its return address and SPSR, and every register but
the banked ones of its own mode. The flags, the memory and the pipeline are free. -/
structure HandlerKeeps (s t : State U) : Prop where
  mode : t.mode = s.mode
  bank : t.bank = s.bank
  prog32Sig : t.prog32Sig = s.prog32Sig
  spsr : t.spsr s.bank = s.spsr s.bank
  link : t.reg 14 = s.reg 14
  slot : ∀ b r, r ≠ 15 → b ≠ s.bank → t.slot b r = s.slot b r

theorem HandlerKeeps.refl (s : State U) : s.HandlerKeeps s :=
  ⟨rfl, rfl, rfl, rfl, rfl, fun _ _ _ _ => rfl⟩

/-- `t` continues the program that `s` was running, at `resume`. -/
structure Restored (s t : State U) (resume : ARMword) : Prop where
  getCPSR : t.getCPSR = s.getCPSR
  mode : t.mode = s.mode
  bank : t.bank = s.bank
  nFlag : t.nFlag = s.nFlag
  zFlag : t.zFlag = s.zFlag
  cFlag : t.cFlag = s.cFlag
  vFlag : t.vFlag = s.vFlag
  sFlag : t.sFlag = s.sFlag
  ifFlags : t.ifFlags = s.ifFlags
  tFlag : t.tFlag = s.tFlag
  reg : ∀ r, r ≠ 15 → t.reg r = s.reg r
  pc : t.getPC = s.alignPC resume
  pc_of_aligned : s.getPC.toNat % s.insnSize.toNat = 0 → t.getPC = resume

/-- The status word a return brings back. -/
theorem altered_return (hp : s.prog32Sig = true) (hs : s.ValidMode) (hu : s.bank ≠ .user)
    (hn : modeToBank (s.spsr s.bank &&& MODEBITS) ≠ .dummy) (src : ARMword) :
    ∃ t : State U, Altered { s with cpsr := s.spsr s.bank } t ∧
      s.writeSR15 src = flushPipe (t.setReg 15 (t.alignPC src)) :=
  ⟨_, altered_cpsrAltered hp hs.bank hs.bank_ne_dummy hn, by rw [writeSR15, if_pos hu]⟩

theorem abortPC_eq (hp : s.prog32Sig = true) : s.abortPC = s.getPC := by
  simp only [abortPC, getPC, hp, if_true, mode26Bit_eq]
  cases s.mode32Bit <;> rfl

/-- The address arithmetic of entry and return: what one subtracts, the other makes up for. -/
theorem link_sub_returnOffset (hp : s.prog32Sig = true) (e : Exception) :
    s.abortPC - s.linkOffset e - e.returnOffset =
      s.getPC - 2 * s.insnSize + if e.resumesNext then s.insnSize else 0 := by
  rw [abortPC_eq hp]
  cases ht : s.tFlag <;> cases e <;>
    simp only [linkOffset, insnSize, ht, Exception.returnOffset, Exception.resumesNext, if_true,
      if_false, Bool.false_eq_true] <;>
    bv_omega

theorem homeBank_cases (b : Bank) (r : RegNo) : homeBank b r = .user ∨ homeBank b r = b := by
  simp only [homeBank]
  grind

/-- The registers of a context are the slots of its own bank and of the user bank. -/
theorem reg_congr {t : State U} (hb : t.bank = s.bank) {r : RegNo}
    (h : ∀ b, b = .user ∨ b = s.bank → t.slot b r = s.slot b r) : t.reg r = s.reg r := by
  rw [reg_eq_slot, reg_eq_slot, hb]
  exact h _ (homeBank_cases s.bank r)

/-- The aligned address, as arithmetic. -/
theorem toNat_alignPC (s : State U) (a : ARMword) :
    (s.alignPC a).toNat = a.toNat / s.insnSize.toNat * s.insnSize.toNat := by
  simp only [alignPC, insnSize]
  cases s.tFlag
  · exact Word.toNat_and_high a 2
  · exact Word.toNat_and_high a 1

theorem alignPC_of_aligned {a : ARMword} (h : a.toNat % s.insnSize.toNat = 0) :
    s.alignPC a = a := by
  apply BitVec.eq_of_toNat_eq
  rw [toNat_alignPC]
  exact Nat.div_mul_cancel (Nat.dvd_of_mod_eq_zero h)

theorem pcWrap_alignPC (s : State U) (a : ARMword) :
    s.pcWrap (s.alignPC a) = s.alignPC (s.pcWrap a) := by
  simp only [pcWrap, alignPC]
  cases s.mode32Bit <;> cases s.tFlag <;> simp [BitVec.and_assoc, BitVec.and_comm R15PCBITS]

theorem alignPC_resumePC (hs : s.ValidMode) (e : Exception)
    (h : s.getPC.toNat % s.insnSize.toNat = 0) : s.alignPC (s.resumePC e) = s.resumePC e := by
  cases h32 : s.mode32Bit with
  | true =>
    apply alignPC_of_aligned
    simp only [resumePC, pcWrap, h32, if_true]
    have h2 : (2 : ARMword).toNat = 2 := rfl
    have h4 : (4 : ARMword).toNat = 4 := rfl
    cases hT : s.tFlag <;> cases e.resumesNext <;>
      simp only [insnSize, hT, if_true, if_false, Bool.false_eq_true, h2, h4] at h ⊢ <;> bv_omega
  | false =>
    have hT : s.tFlag = false := by
      rcases hs.mode with ⟨m, hm⟩ | ⟨-, hT⟩
      · rw [mode32Bit, hm, m.lt_bits] at h32; exact absurd h32 (by decide)
      · exact hT
    simp only [resumePC, pcWrap, h32, alignPC, hT, Bool.false_eq_true, if_false, BitVec.and_assoc]
    rfl

/-- A state with the interrupted mode, status word and registers, and register 15 set to
what the return computes, is the interrupted one again. -/
theorem restored_of_context (hp : s.prog32Sig = true) (hs : s.ValidMode) (e : Exception)
    {u : State U} (hmode : u.mode = s.mode) (hbank : u.bank = s.bank)
    (hcpsr : u.getCPSR = s.getCPSR)
    (hslot : ∀ b r, r ≠ 15 → b = .user ∨ b = s.bank → u.slot b r = s.slot b r) :
    s.Restored
      (flushPipe (u.setReg 15 (u.alignPC (s.abortPC - s.linkOffset e - e.returnOffset))))
      (s.resumePC e) := by
  obtain ⟨-, hN, hZ, hC, hV, hS, hI, hT⟩ :=
    getCPSR_inj (by rw [hmode]; exact hs.modebits) hs.modebits hcpsr
  have halign : ∀ a, u.alignPC a = s.alignPC a := by simp [alignPC, hT]
  have hpc : (flushPipe (u.setReg 15
      (u.alignPC (s.abortPC - s.linkOffset e - e.returnOffset)))).getPC =
        s.alignPC (s.resumePC e) := by
    rw [resumePC, ← pcWrap_alignPC, ← link_sub_returnOffset hp, halign]
    simp [getPC, pcWrap, mode32Bit, flushPipe, setReg, r15pc, hmode]
  refine ⟨hcpsr, hmode, hbank, hN, hZ, hC, hV, hS, hI, hT, fun r h15 => ?_, hpc, fun h => ?_⟩
  · have hr : u.reg r = s.reg r := reg_congr hbank fun b hb => hslot b r h15 hb
    simpa [flushPipe, setReg, h15] using hr
  · rw [hpc, alignPC_resumePC hs e h]

end State

open State in
/-- The return from an exception puts back the context that its entry interrupted. -/
theorem exception_return_restores {U : Type} {s : State U} (hp : s.prog32Sig = true)
    (hs : s.ValidMode) (e : Exception) (hb : e.mode.bank ≠ s.bank) {t : State U}
    (ht : (s.abort e.vector).HandlerKeeps t) :
    s.Restored (t.writeSR15 (t.reg 14 - e.returnOffset)) (s.resumePC e) := by
  have ha := entered_abort hp hs e
  generalize s.abort e.vector = a at ha ht
  have hmode : t.mode = e.mode.bits := ht.mode.trans ha.mode
  have hbank : t.bank = e.mode.bank := ht.bank.trans ha.bank
  have hp' : t.prog32Sig = true :=
    ht.prog32Sig.trans ((congrArg State.prog32Sig ha.rest).trans hp)
  have hv : t.ValidMode := ⟨.inl ⟨_, hmode⟩, by rw [hmode, hbank, modeToBank_bits]⟩
  have hu : t.bank ≠ .user := by rw [hbank]; cases e <;> decide
  have hspsr : t.spsr t.bank = s.getCPSR := by
    rw [hbank, ← ha.bank, ht.spsr, ha.spsr, ha.bank, Function.update_self]
  have hlink : t.reg 14 = s.abortPC - s.linkOffset e := by
    rw [ht.link, reg_eq_slot, ha.bank]
    exact ha.lr
  obtain ⟨u, hu, hw⟩ := altered_return hp' hv hu
    (by rw [hspsr, getCPSR_and_modebits hs.modebits, ← hs.bank]; exact hs.bank_ne_dummy)
    (t.reg 14 - e.returnOffset)
  rw [hw]
  rw [hspsr] at hu
  have humode : u.mode = s.mode := hu.mode.trans (getCPSR_and_modebits hs.modebits)
  have hubank : u.bank = s.bank := by rw [hu.bank, humode, hs.bank]
  have hucpsr : u.getCPSR = s.getCPSR := hu.getCPSR.trans (getCPSR_and_psrbits hs.modebits)
  refine hlink ▸ restored_of_context hp hs e humode hubank hucpsr fun b r h15 h => ?_
  have hne : b ≠ e.mode.bank := by
    rcases h with rfl | rfl
    · cases e <;> decide
    · exact hb.symm
  calc u.slot b r = t.slot b r := hu.slot b r h15
    _ = a.slot b r := ht.slot b r h15 (by rw [ha.bank]; exact hne)
    _ = s.slot b r := ha.slot b r h15 fun hc => hne hc.1

/-- An interrupt of the supervisor's first instruction, and the return from it. -/
theorem exception_return_restores_irq :
    let s := (State.bootState ()).setReg 15 8
    s.Restored ((s.abort IRQV).writeSR15 ((s.abort IRQV).reg 14 - 4)) 0 :=
  exception_return_restores (s := (State.bootState ()).setReg 15 8) rfl
    ⟨.inl ⟨.svc, rfl⟩, rfl⟩ .irq (by decide) (.refl _)

end SkyEye
