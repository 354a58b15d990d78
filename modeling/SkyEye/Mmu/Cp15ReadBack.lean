import Mathlib.Tactic.IntervalCases
import SkyEye.Mmu.Cp15

/-!
# What the registers of coprocessor 15 read back

Which register an instruction names, which of its bits a write sets, and when a write is
seen by the reads of that register and by no others. The functions of the four models are
first brought to one form: a read is `readReg` of the register it names, a write `storeReg`
of the one it writes, and an operation changes no register.
-/

namespace SkyEye

/-- The registers of coprocessor 15 with something to read. -/
inductive Cp15Reg where
  | id
  | cacheType
  | control
  | auxControl
  | translationTableBase
  | domainAccessControl
  | faultStatus
  | faultAddress
  | tlbLockdown
  | processId
  | coproAccess
  deriving DecidableEq

def Cp15Reg.writable : Cp15Reg → Bool
  | id | cacheType => false
  | _ => true

namespace MmuModel

variable (m : MmuModel)

/-- The register that register number `creg` and `OPC_2` designate. -/
def regOf (creg opc2 : Nat) : Option Cp15Reg :=
  match creg with
  | 0 =>
    match m with
    | sa => some .id
    | arm920t | arm926ejs =>
      if opc2 = 0 then some .id else if opc2 = 1 then some .cacheType else none
    | xscale => some (if opc2 = 0 then .id else .cacheType)
  | 1 => some (if m = xscale ∧ opc2 ≠ 0 then .auxControl else .control)
  | 2 => some .translationTableBase
  | 3 => some .domainAccessControl
  | 5 => if (m = arm920t ∨ m = arm926ejs) ∧ opc2 ≠ 0 then none else some .faultStatus
  | 6 => some .faultAddress
  | 10 => if m = arm926ejs then some .tlbLockdown else none
  | 13 => some .processId
  | 15 => if m = xscale then some .coproAccess else none
  | _ => none

/-- The register that a write with these numbers is to. The identification registers are
read-only. -/
def target (creg opc2 : Nat) : Option Cp15Reg := (m.regOf creg opc2).filter (·.writable)

/-- The register an `MRC` or `MCR` names. -/
def named (instr : ARMword) : Option Cp15Reg :=
  m.regOf (selector instr).creg (selector instr).opc2

/-- The register an `MCR` writes, if it is not an operation. -/
def written (instr : ARMword) : Option Cp15Reg :=
  m.target (selector instr).creg (selector instr).opc2

/-- The bits of a register that a transfer can set. -/
def writableBits : Cp15Reg → ARMword
  | .id | .cacheType => 0
  | .control =>
    match m with
    | sa => 0xFF8D
    | arm920t => 0xFFFFF387
    | arm926ejs => 0xF387
    | xscale => 0x3FFF
  | .auxControl => 0x33
  | .translationTableBase => 0xFFFFC000
  | .domainAccessControl | .faultAddress | .tlbLockdown => 0xFFFFFFFF
  | .faultStatus => if m = xscale then 0x6FF else 0xFF
  | .processId => if m = sa then 0x7e000000 else 0xfe000000
  | .coproAccess => 0x3ff

/-- The bits of a register that read as one whatever is written. -/
def fixedOnes : Cp15Reg → ARMword
  | .control =>
    match m with
    | sa => 0x70
    | arm920t => 0x78
    | arm926ejs => 0x50078
    | xscale => 0
  | _ => 0

def masked (r : Cp15Reg) (value : ARMword) : ARMword :=
  (value &&& m.writableBits r) ||| m.fixedOnes r

/-! ## Register by register -/

/-- What a read of a register gives. -/
def readReg (s : Cp15Regs) : Cp15Reg → ARMword
  | .id => s.cpuVal
  | .cacheType =>
    match m with
    | arm920t => 0x0D172172
    | arm926ejs => 0x1D0D2112
    | sa | xscale => s.cacheType
  | .control =>
    match m with
    | arm920t => (s.control ||| 0x78) &&& 0xFFFFF3FF
    | arm926ejs => (s.control ||| 0x50078) &&& 0x0005F3FF
    | sa | xscale => s.control
  | .auxControl => s.auxControl
  | .translationTableBase =>
    if m = arm926ejs then s.translationTableBase &&& 0xFFFFC000 else s.translationTableBase
  | .domainAccessControl => s.domainAccessControl
  | .faultStatus => if m = arm926ejs then s.faultStatus &&& 0xFF else s.faultStatus
  | .faultAddress => s.faultAddress
  | .tlbLockdown => s.tlbLockedDown
  | .processId =>
    match m with
    | sa => 0
    | arm920t | arm926ejs => s.processId
    | xscale => s.coproAccess
  | .coproAccess => s.coproAccess

/-- The value that a write of a register stores. -/
def stored (r : Cp15Reg) (value : ARMword) : ARMword :=
  match r with
  | .control =>
    match m with
    | sa => (value ||| 0x70) &&& 0xFFFD
    | arm920t => Arm920t.controlValue value
    | arm926ejs => (value ||| 0x50078) &&& 0x0005F3FF
    | xscale => value &&& 0x3FFF
  | .domainAccessControl | .faultAddress | .tlbLockdown => value
  | r => value &&& m.writableBits r

/-- The registers after a write of one: the auxiliary control register is never stored. -/
def storeReg (s : Cp15Regs) (r : Cp15Reg) (value : ARMword) : Cp15Regs :=
  let v := m.stored r value
  match r with
  | .id | .cacheType => s
  | .control | .auxControl => { s with control := v }
  | .translationTableBase => { s with translationTableBase := v }
  | .domainAccessControl => { s with domainAccessControl := v }
  | .faultStatus => { s with faultStatus := v }
  | .faultAddress => { s with faultAddress := v }
  | .tlbLockdown => { s with tlbLockedDown := v }
  | .processId => { s with processId := v }
  | .coproAccess => { s with coproAccess := v }

/-- What a read gives that designates no register. -/
def unnamed : Option ARMword := if m = xscale then none else some 0

theorem creg_lt (instr : ARMword) : (selector instr).creg < 16 := BitVec.isLt _

/-- A read gives the register it designates. -/
theorem mrc_eq (s : Cp15Regs) (instr : ARMword) :
    m.mrc s instr = (m.named instr).elim m.unnamed (some <| m.readReg s ·) := by
  have hc := creg_lt instr
  unfold mrc named
  generalize selector instr = i at hc ⊢
  obtain ⟨creg, opc2, crm⟩ := i
  change creg < 16 at hc
  cases m <;> interval_cases creg <;> rcases opc2 with _ | _ | opc2 <;> rfl

/-! ## Writes -/

theorem written_eq_some {m : MmuModel} {instr : ARMword} {r : Cp15Reg}
    (h : m.written instr = some r) : m.named instr = some r ∧ r.writable = true :=
  Option.filter_eq_some_iff.mp h

variable {creg opc2 crm : Nat} {value : ARMword}

theorem regs_sa_mcr (cpu : Cpu) (s : Cp15 Sa) (hc : creg < 16) :
    (s.withMmu (Sa.mcr cpu s.toMmuState true creg opc2 crm value)).regs =
      (sa.target creg opc2).elim s.regs (sa.storeReg s.regs · value) := by
  interval_cases creg <;> try rfl
  · exact Sa.regs_cacheOps ..
  · exact Sa.regs_tlbOps ..
  · exact Sa.regs_rbOps ..

theorem regs_arm920t_mcr (s : Cp15 Arm920t) (hc : creg < 16) :
    (s.withMmu (Arm920t.mcr s.toMmuState true creg opc2 crm value)).regs =
      (arm920t.target creg opc2).elim s.regs (arm920t.storeReg s.regs · value) := by
  interval_cases creg <;> try rfl
  · rcases opc2 with _ | _ | opc2 <;> rfl
  · rcases opc2 with _ | opc2 <;> rfl
  · exact Arm920t.regs_cacheOps ..
  · exact Arm920t.regs_tlbOps ..

theorem regs_arm926ejs_mcr (s : Cp15 Arm926ejs) (hc : creg < 16) :
    (Arm926ejs.mcr s creg opc2 crm value).regs =
      (arm926ejs.target creg opc2).elim s.regs (arm926ejs.storeReg s.regs · value) := by
  interval_cases creg <;> try rfl
  · rcases opc2 with _ | _ | opc2 <;> rfl
  · rcases opc2 with _ | opc2 <;> rfl
  · exact Arm926ejs.regs_cacheOps ..
  · exact Arm926ejs.regs_tlbOps ..

theorem regs_xscale_mcr {s s' : Cp15 Xscale} (hc : creg < 16)
    (h : Xscale.mcr s creg opc2 crm value = some s') :
    s'.regs = (xscale.target creg opc2).elim s.regs (xscale.storeReg s.regs · value) := by
  interval_cases creg <;> try (cases h; rfl)
  · cases h
    rcases opc2 with _ | opc2 <;> rfl
  · cases h
    rcases opc2 with _ | opc2 <;> rfl
  · obtain ⟨mmu, hm, rfl⟩ := Option.map_eq_some_iff.mp h
    exact Xscale.regs_cacheOps s hm
  · obtain ⟨mmu, hm, rfl⟩ := Option.map_eq_some_iff.mp h
    exact Xscale.regs_tlbOps s hm

theorem regs_mcr {cpu : Cpu} {s s' : Cp15 m.U} {instr : ARMword}
    (h : m.mcr cpu s instr value = some s') :
    s'.regs = (m.written instr).elim s.regs (m.storeReg s.regs · value) := by
  have hc := creg_lt instr
  cases m with
  | sa =>
    cases h
    exact regs_sa_mcr cpu s hc
  | arm920t =>
    cases h
    exact regs_arm920t_mcr s hc
  | arm926ejs =>
    cases h
    exact regs_arm926ejs_mcr s hc
  | xscale => exact regs_xscale_mcr hc h

/-- Only an unknown operation makes the simulator stop. -/
theorem isSome_mcr (cpu : Cpu) (s : Cp15 m.U) {instr : ARMword} (value : ARMword)
    (h : (m.written instr).isSome = true) : (m.mcr cpu s instr value).isSome = true := by
  have hc := creg_lt instr
  cases m with
  | sa | arm920t | arm926ejs => rfl
  | xscale =>
    unfold written at h
    unfold mcr
    generalize selector instr = i at h hc ⊢
    obtain ⟨creg, opc2, crm⟩ := i
    change creg < 16 at hc
    change (Xscale.mcr s creg opc2 crm value).isSome = true
    interval_cases creg <;> first | rfl | cases h

/-! ## What is read back -/

/-- After a write of `value` every read of the register gives the bits that can be set, and
every read of something else what it gave before. -/
structure HoldsWritten (s s' : Cp15Regs) (instr value : ARMword) : Prop where
  same : ∀ r, m.written instr = some r → ∀ instr', m.named instr' = some r →
    m.mrc s' instr' = some (m.masked r value)
  others : ∀ instr', (∀ r, m.written instr = some r → m.named instr' ≠ some r) →
    m.mrc s' instr' = m.mrc s instr'

/-- A write of a register is performed, and every write that is performed holds. -/
def ReadsBack (cpu : Cpu) (s : Cp15 m.U) (instr value : ARMword) : Prop :=
  ((m.written instr).isSome = true → (m.mcr cpu s instr value).isSome = true) ∧
    ∀ s', m.mcr cpu s instr value = some s' → m.HoldsWritten s.regs s'.regs instr value

/-- The written value is what the registers that are read in place of the written one hold, and
what a register that is written in place of it held. -/
def Separate (s : Cp15Regs) (value : ARMword) : Option Cp15Reg → Prop
  | some .processId =>
    match m with
    | sa => value &&& 0x7e000000 = 0
    | xscale => value &&& 0xfe000000 = s.coproAccess
    | arm920t | arm926ejs => True
  | some .auxControl => value &&& 0x33 = s.auxControl ∧ value &&& 0x33 = s.control
  | some .coproAccess => value &&& 0x3ff = s.coproAccess
  | _ => True

/-- A register's own numbers. -/
def number : Cp15Reg → Nat × Nat
  | .id => (0, 0)
  | .cacheType => (0, 1)
  | .control => (1, 0)
  | .auxControl => (1, 1)
  | .translationTableBase => (2, 0)
  | .domainAccessControl => (3, 0)
  | .faultStatus => (5, 0)
  | .faultAddress => (6, 0)
  | .tlbLockdown => (10, 0)
  | .processId => (13, 0)
  | .coproAccess => (15, 0)

/-- The model has the register. -/
def Has (r : Cp15Reg) : Prop := m.regOf (number r).1 (number r).2 = some r

instance : DecidablePred m.Has := fun _ => inferInstanceAs (Decidable (_ = _))

theorem has_of_named {instr : ARMword} {r : Cp15Reg} (h : m.named instr = some r) : m.Has r := by
  have hc := creg_lt instr
  unfold named at h
  generalize selector instr = i at h hc
  obtain ⟨creg, opc2, crm⟩ := i
  change m.regOf creg opc2 = some r at h
  change creg < 16 at hc
  cases m <;> interval_cases creg <;> rcases opc2 with _ | _ | opc2 <;> cases h <;> rfl

/-- An instruction that names the register. -/
def instrOf (r : Cp15Reg) : ARMword :=
  BitVec.ofNat 32 (0x0E000F10 + (number r).1 * 2 ^ 16 + (number r).2 * 2 ^ 5)

theorem named_instrOf {r : Cp15Reg} (h : m.Has r) : m.named (instrOf r) = some r := by
  revert h
  cases m <;> cases r <;> decide

theorem stored_eq_masked (r : Cp15Reg) (v : ARMword) : m.stored r v = m.masked r v := by
  have hzero (x : ARMword) : x = x ||| 0 := (BitVec.or_zero).symm
  cases r with
  | control =>
    cases m with
    | sa | arm920t | arm926ejs => exact Word.or_and_fixed rfl
    | xscale => exact hzero _
  | domainAccessControl | faultAddress | tlbLockdown =>
    exact BitVec.and_allOnes.symm.trans (hzero _)
  | id | cacheType | auxControl | translationTableBase | faultStatus | processId | coproAccess =>
    exact hzero _

theorem holdsWritten_iff {s s' : Cp15Regs} {instr : ARMword} :
    m.HoldsWritten s s' instr value ↔
      (∀ r, m.written instr = some r → m.readReg s' r = m.masked r value) ∧
        ∀ r, m.Has r → m.written instr ≠ some r → m.readReg s' r = m.readReg s r := by
  constructor
  · rintro ⟨hs, ho⟩
    refine ⟨fun r h => ?_, fun r hr h => ?_⟩
    · have := hs r h instr (written_eq_some h).1
      rw [mrc_eq, (written_eq_some h).1] at this
      exact Option.some.inj this
    · have := ho (instrOf r) fun r' hr' hn => h ?_
      · rw [mrc_eq, mrc_eq, m.named_instrOf hr] at this
        exact Option.some.inj this
      · rw [hr', ← hn, m.named_instrOf hr]
  · rintro ⟨hs, ho⟩
    refine ⟨fun r h instr' hn => ?_, fun instr' hn => ?_⟩
    · rw [mrc_eq, hn]
      exact congrArg some (hs r h)
    · rw [mrc_eq, mrc_eq]
      cases h : m.named instr' with
      | none => rfl
      | some r =>
        exact congrArg some (ho r (m.has_of_named h) fun hw => hn r hw h)

/-- The registers that are stored where they are read. -/
def Stored : Cp15Reg → Prop
  | .id | .cacheType | .auxControl => False
  | .processId => m = arm920t ∨ m = arm926ejs
  | _ => True

theorem readReg_storeReg_same {s : Cp15Regs} {r : Cp15Reg} (h : m.Stored r) :
    m.readReg (m.storeReg s r value) r = m.masked r value := by
  rw [← stored_eq_masked]
  cases r with
  | id | cacheType | auxControl => exact h.elim
  | control =>
    cases m with
    | sa | xscale => rfl
    | arm920t | arm926ejs => exact Word.or_and_idem rfl
  | translationTableBase =>
    cases m with
    | sa | arm920t | xscale => rfl
    | arm926ejs => exact (BitVec.and_assoc ..).trans (congrArg _ (BitVec.and_self ..))
  | faultStatus =>
    cases m with
    | sa | arm920t | xscale => rfl
    | arm926ejs => exact (BitVec.and_assoc ..).trans (congrArg _ (BitVec.and_self ..))
  | processId => obtain rfl | rfl := h <;> rfl
  | domainAccessControl | faultAddress | tlbLockdown | coproAccess => rfl

/-- A write leaves what the others read as, unless one of them reads the stored register. -/
theorem readReg_storeReg_of_ne {s : Cp15Regs} {r r' : Cp15Reg} (h : r ≠ r')
    (hc : (r, r') ≠ (.auxControl, .control))
    (hp : (m, r, r') ≠ (xscale, .coproAccess, .processId)) :
    m.readReg (m.storeReg s r value) r' = m.readReg s r' := by
  cases r <;> cases r' <;> first | exact absurd rfl h | exact absurd rfl hc | rfl | skip
  cases m with
  | sa | arm920t | arm926ejs => rfl
  | xscale => exact absurd rfl hp

theorem readReg_storeReg_iff {s : Cp15Regs} {r : Cp15Reg} (hr : m.Has r) (hw : r.writable = true) :
    (m.readReg (m.storeReg s r value) r = m.masked r value ∧
        ∀ r', m.Has r' → r ≠ r' → m.readReg (m.storeReg s r value) r' = m.readReg s r') ↔
      m.Separate s value (some r) := by
  cases r with
  | id | cacheType => cases hw
  | control | translationTableBase | domainAccessControl | faultStatus | faultAddress
  | tlbLockdown =>
    refine iff_of_true ⟨readReg_storeReg_same m trivial, fun r' _ hne => ?_⟩ trivial
    exact readReg_storeReg_of_ne m hne (by simp) (by simp)
  | processId =>
    have hothers : ∀ r', m.Has r' → .processId ≠ r' →
        m.readReg (m.storeReg s .processId value) r' = m.readReg s r' :=
      fun r' _ hne => readReg_storeReg_of_ne m hne (by simp) (by simp)
    rw [and_iff_left hothers, ← stored_eq_masked]
    cases m with
    | arm920t | arm926ejs => exact iff_of_true rfl trivial
    | sa | xscale => exact eq_comm
  | auxControl =>
    cases m with
    | sa | arm920t | arm926ejs => cases hr
    | xscale =>
      rw [← stored_eq_masked]
      constructor
      · rintro ⟨hs, ho⟩
        exact ⟨hs.symm, ho .control rfl (by decide)⟩
      · rintro ⟨hs, ho⟩
        refine ⟨hs.symm, fun r' _ hne => ?_⟩
        by_cases hc : r' = .control
        · subst hc
          exact ho
        · exact readReg_storeReg_of_ne _ hne (by simpa using hc) (by simp)
  | coproAccess =>
    cases m with
    | sa | arm920t | arm926ejs => cases hr
    | xscale =>
      rw [and_iff_right (readReg_storeReg_same xscale (r := .coproAccess) trivial)]
      constructor
      · exact fun ho => ho .processId rfl (by decide)
      · intro ho r' _ hne
        by_cases hp : r' = .processId
        · subst hp
          exact ho
        · exact readReg_storeReg_of_ne _ hne (by simp) (by simpa using hp)

/-- Every transfer to coprocessor 15 holds exactly if it writes no register that is read or
stored in another's place, or the two agree. -/
theorem reads_back_iff (cpu : Cpu) (s : Cp15 m.U) (instr value : ARMword) :
    m.ReadsBack cpu s instr value ↔ m.Separate s.regs value (m.written instr) := by
  rw [ReadsBack, and_iff_right (m.isSome_mcr cpu s value)]
  cases hw : m.written instr with
  | none =>
    refine iff_of_true (fun s' h => ?_) trivial
    have hregs := m.regs_mcr h
    rw [hw] at hregs
    rw [holdsWritten_iff, hregs, hw]
    exact ⟨fun _ hr => (nomatch hr), fun _ _ _ => rfl⟩
  | some r =>
    obtain ⟨hn, hwr⟩ := written_eq_some hw
    obtain ⟨s', h⟩ := Option.isSome_iff_exists.mp
      (m.isSome_mcr cpu s value (by rw [hw]; rfl))
    have hregs := m.regs_mcr h
    rw [hw] at hregs
    have hiff : m.HoldsWritten s.regs s'.regs instr value ↔
        m.Separate s.regs value (some r) := by
      rw [← m.readReg_storeReg_iff (m.has_of_named hn) hwr, holdsWritten_iff, hregs, hw]
      simp only [Option.some.injEq, forall_eq', Option.elim_some, ne_eq]
    rw [← hiff]
    exact ⟨fun hall => hall s' h, fun hs' _ h' => Option.some.inj (h.symm.trans h') ▸ hs'⟩

/-- A StrongARM whose registers are clear. -/
def saCleared : Cp15 Sa :=
  { Sa.rbSections 0 with
    cpuVal := 0x4401A104
    cacheType := 0
    auxControl := 0
    coproAccess := 0
    tlbLockedDown := 0 }

/-- A process identifier written by `mcr p15, 0, r0, c13, c0, 0` reads as zero. -/
theorem sa_pid_reads_zero :
    ¬sa.ReadsBack ⟨SVC32MODE, false, false⟩ saCleared 0xEE0D0F10 0x02000000 := by
  rintro ⟨-, h⟩
  have hread : (some 0 : Option ARMword) = some 0x02000000 :=
    (h _ rfl).same .processId rfl 0xEE1D0F10 rfl
  exact absurd hread (by decide)

end MmuModel

end SkyEye
