import SkyEye.Arm.AbortModel
import SkyEye.Arm.DataPort

/-!
# Whose permissions an access is checked for

`LDRT` and `STRT` lower `NtransSig` for the time of their access, and no check reads it:
`check_perms` goes by the mode. It takes System mode, which `NtransSig` takes for a
privileged one, for User mode. Where the permissions of a page tell the modes apart, the
one makes `LDRT` and `STRT` privileged and the other makes System mode unprivileged.
-/

namespace SkyEye

def Cpu.inMode (cpu : Cpu) (mode : ARMword) : Cpu := { cpu with mode := mode }

/-! ## The permission check -/

/-- The modes that `check_perms` counts as user. -/
def countsAsUser (mode : ARMword) : Bool :=
  mode == USER32MODE || mode == USER26MODE || mode == SYSTEM32MODE

namespace MmuState

variable {U : Type} (mmu : MmuState U)

/-- Permissions that allow a privileged access and no other. -/
def apSeparates (ap : ARMword) (read : Bool) : Bool :=
  match ap.toNat with
  | 0 => read && mmu.ctl CONTROL_SYSTEM && !mmu.ctl CONTROL_ROM
  | 1 => true
  | 2 => !read
  | _ => false

/-- The access reaches a page of a client domain with such permissions. -/
def Separates (isXScale : Bool) (tlb : Tlb) (va : ARMword) (read : Bool) : Prop :=
  ∃ e, (mmu.translate isXScale tlb va).result = .ok e ∧
    (mmu.domainAccessControl >>> (e.domain * 2).toNat) &&& 3 = 1 ∧
    mmu.apSeparates ((e.perms >>> (subpage e va * 2 + 4)) &&& 3) read = true

variable {mmu} {mode mode' va ap : ARMword} {read : Bool}

/-- All that a mode counts for. -/
theorem checkPerms_eq : mmu.checkPerms mode ap read =
    match ap.toNat with
    | 0 => read && (mmu.ctl CONTROL_SYSTEM && !countsAsUser mode || mmu.ctl CONTROL_ROM)
    | 1 => !countsAsUser mode
    | 2 => read || !countsAsUser mode
    | 3 => true
    | _ => false := rfl

theorem checkPerms_eq_iff (hp : countsAsUser mode = false) (hu : countsAsUser mode' = true) :
    mmu.checkPerms mode ap read = mmu.checkPerms mode' ap read ↔
      mmu.apSeparates ap read = false := by
  rw [checkPerms_eq, checkPerms_eq, hp, hu, apSeparates]
  generalize mmu.ctl CONTROL_SYSTEM = sys
  generalize mmu.ctl CONTROL_ROM = rom
  generalize ap.toNat = n
  match n with
  | 0 | 1 | 2 | 3 => cases read <;> cases sys <;> cases rom <;> decide
  | n + 4 => exact iff_of_true rfl rfl

theorem checkPerms_congr (h : countsAsUser mode = countsAsUser mode') :
    mmu.checkPerms mode ap read = mmu.checkPerms mode' ap read := by
  rw [checkPerms_eq, checkPerms_eq, h]

theorem authorise_congr {cpu cpu' : Cpu} {tlb : Tlb} (hx : cpu'.isXScale = cpu.isXScale)
    (h : countsAsUser cpu'.mode = countsAsUser cpu.mode) :
    mmu.authorise cpu' tlb va read = mmu.authorise cpu tlb va read := by
  simp only [authorise, checkAccess, hx, checkPerms_congr h]

/-- Which of the checks of an access depends on its mode. -/
theorem checkAccess_isSome_iff {e : TlbEntry} : (mmu.checkAccess mode va e read).isSome ↔
    let access := (mmu.domainAccessControl >>> (e.domain * 2).toNat) &&& 3
    access = 0 ∨ access = 2 ∨ access = 1 ∧
      mmu.checkPerms mode ((e.perms >>> (subpage e va * 2 + 4)) &&& 3) read = false := by
  simp only [checkAccess]
  generalize (mmu.domainAccessControl >>> (e.domain * 2).toNat) &&& 3 = access
  by_cases h02 : access = 0 ∨ access = 2
  · rw [if_pos h02]
    exact iff_of_true rfl (h02.imp_right .inl)
  · rw [if_neg h02]
    obtain ⟨h0, h2⟩ := not_or.mp h02
    rw [or_iff_right h0, or_iff_right h2]
    by_cases h1 : access = 1
    · rw [if_pos h1, and_iff_right h1]
      cases mmu.checkPerms mode ((e.perms >>> (subpage e va * 2 + 4)) &&& 3) read with
      | true => exact iff_of_false Bool.false_ne_true fun h => by cases h
      | false =>
        rw [if_neg Bool.false_ne_true]
        exact iff_of_true (by split <;> rfl) rfl
    · rw [if_neg h1]
      exact iff_of_false Bool.false_ne_true fun h => h1 h.1

theorem authorise_denied_iff {cpu : Cpu} {tlb : Tlb} :
    (∃ f, mmu.authorise cpu tlb va read = .error f) ↔
      ∀ e, (mmu.translate cpu.isXScale tlb va).result = .ok e →
        (mmu.checkAccess cpu.mode va e read).isSome := by
  rw [authorise]
  cases (mmu.translate cpu.isXScale tlb va).result with
  | error f => simp
  | ok e =>
    simp only [Except.ok.injEq, forall_eq']
    cases mmu.checkAccess cpu.mode va e read <;> simp

/-- Two modes of different kinds are told apart exactly where the page does. -/
theorem authorise_iff_iff {cpu cpu' : Cpu} {tlb : Tlb} (hx : cpu'.isXScale = cpu.isXScale)
    (hp : countsAsUser cpu.mode = false) (hu : countsAsUser cpu'.mode = true) :
    ((∃ f, mmu.authorise cpu tlb va read = .error f) ↔
      ∃ f, mmu.authorise cpu' tlb va read = .error f) ↔
      ¬ mmu.Separates cpu.isXScale tlb va read := by
  rw [authorise_denied_iff, authorise_denied_iff, hx, Separates]
  cases (mmu.translate cpu.isXScale tlb va).result with
  | error f => simp
  | ok e =>
    have hc := @checkPerms_eq_iff U mmu _ _ ((e.perms >>> (subpage e va * 2 + 4)) &&& 3) read hp hu
    simp only [Except.ok.injEq, forall_eq', exists_eq_left', checkAccess_isSome_iff]
    generalize (mmu.domainAccessControl >>> (e.domain * 2).toNat) &&& 3 = access
    by_cases h1 : access = 1
    · have h0 : (1 : ARMword) ≠ 0 := by decide
      have h2 : (1 : ARMword) ≠ 2 := by decide
      simp only [h1, h0, h2, false_or, true_and]
      rw [Bool.not_eq_true, ← hc]
      generalize mmu.checkPerms cpu.mode _ read = allowed
      generalize mmu.checkPerms cpu'.mode _ read = allowed'
      cases allowed <;> cases allowed' <;> decide
    · simp only [h1, false_and, or_false, not_false_iff]

end MmuState

/-! ## Accesses -/

/-- A load, or a store of `data`. -/
structure DataAccess where
  load : Bool
  datatype : DataType
  address : ARMword
  data : ARMword

namespace DataAccess

variable {U : Type} (a : DataAccess) (port : DataPort U) (cpu : Cpu) (mmu : MmuState U)

/-- The access faults. -/
def Denied : Prop :=
  if a.load then ∃ f, (port.read cpu mmu a.address a.datatype).1 = .error f
  else ∃ f, (port.write cpu mmu a.address a.datatype a.data).1 = some f

/-- The page tables decide the access, and tell the modes apart. -/
def Separated : Prop :=
  mmu.mmuEnabled = true ∧ mmu.misaligned (port.addr mmu a.address) a.datatype = false ∧
    (a.load = true → ¬ port.known mmu (port.addr mmu a.address) ∧
      ¬ port.refused mmu (port.addr mmu a.address)) ∧
    mmu.Separates cpu.isXScale (port.tlb mmu.u) (port.addr mmu a.address) a.load

variable {a port mmu} {cpu cpu' : Cpu}

theorem denied_iff : a.Denied port cpu mmu ↔
    mmu.mmuEnabled = true ∧ (mmu.misaligned (port.addr mmu a.address) a.datatype = true ∨
      (a.load = true → ¬ port.known mmu (port.addr mmu a.address)) ∧
        ((a.load = true ∧ port.refused mmu (port.addr mmu a.address)) ∨
          ∃ f, mmu.authorise cpu (port.tlb mmu.u) (port.addr mmu a.address) a.load =
            .error f)) := by
  rw [Denied]
  cases a.load with
  | true => simp only [if_true, port.read_fault_iff, true_imp_iff, true_and]
  | false =>
    simp only [Bool.false_eq_true, if_false, port.write_fault_iff, false_imp_iff, false_and,
      false_or, true_and]

/-- Modes of one kind have the same accesses. -/
theorem denied_congr (hx : cpu'.isXScale = cpu.isXScale)
    (h : countsAsUser cpu'.mode = countsAsUser cpu.mode) :
    a.Denied port cpu' mmu ↔ a.Denied port cpu mmu := by
  rw [denied_iff, denied_iff, MmuState.authorise_congr hx h]

theorem denied_iff_iff (hx : cpu'.isXScale = cpu.isXScale)
    (hp : countsAsUser cpu.mode = false) (hu : countsAsUser cpu'.mode = true) :
    (a.Denied port cpu mmu ↔ a.Denied port cpu' mmu) ↔ ¬ a.Separated port cpu mmu := by
  have ha := @MmuState.authorise_iff_iff U mmu (port.addr mmu a.address) a.load _ _
    (port.tlb mmu.u) hx hp hu
  rw [denied_iff, denied_iff, Separated]
  generalize (∃ f, mmu.authorise cpu _ _ _ = .error f) = d at ha ⊢
  generalize (∃ f, mmu.authorise cpu' _ _ _ = .error f) = d' at ha ⊢
  generalize mmu.Separates _ _ _ _ = sep at ha ⊢
  cases mmu.mmuEnabled with
  | false => simp
  | true =>
    cases mmu.misaligned (port.addr mmu a.address) a.datatype with
    | true => simp
    | false =>
      simp only [true_and, Bool.false_eq_true, false_or]
      tauto

end DataAccess

/-! ## Instructions -/

/-- `LDRT`, `STRT`, `LDRBT` or `STRBT` -/
structure IsUserTransfer (w : ARMword) : Prop where
  single : bits w 25 27 = 2 ∨ bits w 25 27 = 3
  defined : (w.getLsbD 25 && w.getLsbD 4) = false
  postIndexed : w.getLsbD 24 = false
  user : w.getLsbD 21 = true

namespace State

variable {U : Type} (port : DataPort U) (s : State U) (w : ARMword) (a : DataAccess)

def Privileged : Prop := s.mode ≠ USER32MODE ∧ s.mode ≠ USER26MODE

/-- The state in which these instructions make their access. -/
def userSignal : State U := { s with ntransSig := false }

/-- The access they make. -/
def userAccess : DataAccess :=
  ⟨w.getLsbD 20, transferSize w, s.lhs w, s.busUsedIncPcN.reg (destReg w)⟩

/-- `LDRT` and `STRT` signal an abort where User mode has no right to their access, and other
accesses are checked as privileged. -/
structure UserChecksExact : Prop where
  user : IsUserTransfer w → ((s.singleDataTransfer port.toMmuOps w).abortSig = true ↔
    (s.userAccess w).Denied port (s.cpu.inMode USER32MODE) s.mmu)
  ordinary : a.Denied port s.cpu s.mmu ↔ a.Denied port (s.cpu.inMode SVC32MODE) s.mmu

/-- No page that tells the modes apart is asked for: by `LDRT` and `STRT` except in System
mode, by other accesses in System mode. -/
structure ModesNotSeparated : Prop where
  user : IsUserTransfer w → s.mode = SYSTEM32MODE ∨ ¬ (s.userAccess w).Separated port s.cpu s.mmu
  ordinary : s.mode ≠ SYSTEM32MODE ∨ ¬ a.Separated port s.cpu s.mmu

variable {port s w a}

/-! ### The signal of an access -/

theorem takeAbort_abortSig : s.takeAbort.2.abortSig = s.abortSig :=
  abort_abortSig DATAABORTV

/-- An abort that was pending is taken without a signal. -/
theorem settled_abortSig {t : State U} {r : Bool × State U} (ht : t.abortSig = false)
    (hr : r.2.abortSig = false) :
    (if t.aborted ≠ 0 then t.takeAbort else r).2.abortSig = false := by
  split
  · rw [takeAbort_abortSig, ht]
  · exact hr

section Signal

variable {ops : MmuOps U} {instr address : ARMword}

theorem loadWord_abortSig : (s.loadWord ops instr address).2.abortSig = true ↔
    ∃ f, (ops.read s.cpu s.mmu address .word).1 = .error f := by
  match h : ops.read s.cpu s.mmu address .word with
  | (.error f, mmu) =>
    obtain ⟨n, hn⟩ : ∃ n, s.loadWord ops instr address =
        (s.faulted n mmu f address).takeAbort := loadWord_fault h
    rw [hn, takeAbort_abortSig]
    exact iff_of_true rfl ⟨f, rfl⟩
  | (.ok data, mmu) =>
    obtain ⟨n, hn⟩ := s.busUsedIncPcS_eq
    simp only [loadWord, MmuOps.loadWordN, hn, MmuOps.readData_ok (s := s.advance n) h]
    rw [settled_abortSig rfl rfl]
    simp

theorem loadByte_abortSig (signextend : Bool) :
    (s.loadByte ops instr address signextend).2.abortSig = true ↔
      ∃ f, (ops.read s.cpu s.mmu address .byte).1 = .error f := by
  match h : ops.read s.cpu s.mmu address .byte with
  | (.error f, mmu) =>
    obtain ⟨n, hn⟩ : ∃ n, s.loadByte ops instr address signextend =
        (s.faulted n mmu f address).takeAbort := loadByte_fault h signextend
    rw [hn, takeAbort_abortSig]
    exact iff_of_true rfl ⟨f, rfl⟩
  | (.ok data, mmu) =>
    obtain ⟨n, hn⟩ := s.busUsedIncPcS_eq
    simp only [loadByte, MmuOps.loadByte, hn, MmuOps.readData_ok (s := s.advance n) h]
    rw [settled_abortSig rfl rfl]
    simp

theorem storeWord_abortSig : (s.storeWord ops instr address).2.abortSig = true ↔
    ∃ f, (ops.write s.cpu s.mmu address .word (s.busUsedIncPcN.reg (destReg instr))).1 =
      some f := by
  match h : ops.write s.cpu s.mmu address .word (s.busUsedIncPcN.reg (destReg instr)) with
  | (some f, mmu) =>
    obtain ⟨n, hn⟩ := storeWord_fault h
    rw [hn, takeAbort_abortSig]
    exact iff_of_true rfl ⟨f, rfl⟩
  | (none, mmu) =>
    obtain ⟨n, hn⟩ := s.busUsedIncPcN_eq
    rw [hn] at h
    simp only [storeWord, MmuOps.storeWordN, hn, MmuOps.writeData_ok (s := s.advance n) h]
    rw [settled_abortSig rfl rfl]
    simp

theorem storeByte_abortSig : (s.storeByte ops instr address).2.abortSig = true ↔
    ∃ f, (ops.write s.cpu s.mmu address .byte (s.busUsedIncPcN.reg (destReg instr))).1 =
      some f := by
  match h : ops.write s.cpu s.mmu address .byte (s.busUsedIncPcN.reg (destReg instr)) with
  | (some f, mmu) =>
    obtain ⟨n, hn⟩ := storeByte_fault h
    rw [hn, takeAbort_abortSig]
    exact iff_of_true rfl ⟨f, rfl⟩
  | (none, mmu) =>
    obtain ⟨n, hn⟩ := s.busUsedIncPcN_eq
    rw [hn] at h
    simp only [storeByte, MmuOps.storeByte, hn, MmuOps.writeData_ok (s := s.advance n) h]
    rw [settled_abortSig rfl rfl]
    simp

theorem writeBackIf_abortSig (r : Bool × State U) (v : State U → ARMword) :
    (writeBackIf instr r v).abortSig = r.2.abortSig := by
  rw [writeBackIf]
  split <;> rfl

end Signal

/-- The access signals an abort exactly if it faults. -/
theorem singleAccess_abortSig {address : ARMword} :
    (s.singleAccess port.toMmuOps w address).2.abortSig = true ↔
      DataAccess.Denied ⟨w.getLsbD 20, transferSize w, address, s.busUsedIncPcN.reg (destReg w)⟩
        port s.cpu s.mmu := by
  rw [DataAccess.Denied, singleAccess, transferSize]
  cases w.getLsbD 20 <;> cases w.getLsbD 22 <;>
    simp only [if_true, if_false, Bool.false_eq_true]
  · exact storeWord_abortSig
  · exact storeByte_abortSig
  · exact loadWord_abortSig
  · exact loadByte_abortSig false

theorem singleDataTransfer_user (hw : IsUserTransfer w) (ops : MmuOps U) :
    s.singleDataTransfer ops w =
      let t := writeBackIf w (s.userSignal.singleAccess ops w (s.lhs w)) fun t =>
        if w.getLsbD 20 then offsetBy w (s.lhs w) (s.lsRHS w) else offsetBy w (s.lhs w) (t.lsRHS w)
      { t with ntransSig := t.mode &&& 3 != 0 } := by
  rw [singleDataTransfer, hw.defined, if_neg Bool.false_ne_true, hw.postIndexed,
    if_neg Bool.false_ne_true, postIndexed, if_pos hw.user]
  rfl

/-- `LDRT` and `STRT` make their access in the mode of the processor. -/
theorem singleDataTransfer_abortSig (hw : IsUserTransfer w) :
    (s.singleDataTransfer port.toMmuOps w).abortSig = true ↔
      (s.userAccess w).Denied port s.cpu s.mmu := by
  have hreg : s.userSignal.busUsedIncPcN.reg = s.busUsedIncPcN.reg := by
    rw [busUsedIncPcN_reg, busUsedIncPcN_reg]
    rfl
  rw [singleDataTransfer_user hw]
  change (writeBackIf w (s.userSignal.singleAccess port.toMmuOps w (s.lhs w)) _).abortSig = true ↔ _
  rw [writeBackIf_abortSig, singleAccess_abortSig, hreg]
  rfl

/-! ### When the checks are right -/

theorem privileged_countsAsUser (hp : s.Privileged) :
    countsAsUser s.mode = decide (s.mode = SYSTEM32MODE) := by
  rw [countsAsUser, beq_eq_false_iff_ne.mpr hp.1, beq_eq_false_iff_ne.mpr hp.2]
  rfl

/-- In a privileged mode the checks are made for the right mode exactly where the page tables
do not tell the modes apart or the wrong mode is checked with the right rights. -/
theorem user_checks_exact_iff (port : DataPort U) (s : State U) (hp : s.Privileged)
    (w : ARMword) (a : DataAccess) :
    s.UserChecksExact port w a ↔ s.ModesNotSeparated port w a := by
  have hc := privileged_countsAsUser hp
  have hu : ((s.userAccess w).Denied port s.cpu s.mmu ↔
      (s.userAccess w).Denied port (s.cpu.inMode USER32MODE) s.mmu) ↔
      s.mode = SYSTEM32MODE ∨ ¬ (s.userAccess w).Separated port s.cpu s.mmu := by
    by_cases hm : s.mode = SYSTEM32MODE
    · refine iff_of_true (Iff.symm ?_) (.inl hm)
      exact DataAccess.denied_congr rfl (hc.trans (decide_eq_true hm)).symm
    · rw [or_iff_right hm]
      exact DataAccess.denied_iff_iff rfl (hc.trans (decide_eq_false hm)) rfl
  have ho : (a.Denied port s.cpu s.mmu ↔ a.Denied port (s.cpu.inMode SVC32MODE) s.mmu) ↔
      s.mode ≠ SYSTEM32MODE ∨ ¬ a.Separated port s.cpu s.mmu := by
    by_cases hm : s.mode = SYSTEM32MODE
    · have h : (a.Denied port (s.cpu.inMode SVC32MODE) s.mmu ↔ a.Denied port s.cpu s.mmu) ↔
          ¬ a.Separated port (s.cpu.inMode SVC32MODE) s.mmu :=
        DataAccess.denied_iff_iff rfl rfl (hc.trans (decide_eq_true hm))
      rw [or_iff_right (not_not.mpr hm)]
      exact iff_comm.trans h
    · refine iff_of_true (Iff.symm ?_) (.inl hm)
      exact DataAccess.denied_congr rfl (hc.trans (decide_eq_false hm)).symm
  constructor
  · rintro ⟨h, h'⟩
    exact ⟨fun hw => hu.mp ((singleDataTransfer_abortSig hw).symm.trans (h hw)), ho.mp h'⟩
  · rintro ⟨h, h'⟩
    exact ⟨fun hw => (singleDataTransfer_abortSig hw).trans (hu.mpr (h hw)), ho.mpr h'⟩

/-- `LDRT r0, [r1], #4` in supervisor mode, and a load of the word at 0. -/
theorem user_checks_exact_iff_ldrt :
    let s : State Arm920t := { Arm920t.boot with mmu := Arm920t.oneSection 0x40A 1 }
    s.UserChecksExact (Arm920t.dataPort 0) 0xE4B10004 ⟨true, .word, 0, 0⟩ ↔
      s.ModesNotSeparated (Arm920t.dataPort 0) 0xE4B10004 ⟨true, .word, 0, 0⟩ :=
  user_checks_exact_iff _ _ ⟨by decide, by decide⟩ _ _

/-- A page for the privileged modes: `LDRT` reads it in supervisor mode, and System mode
does not. -/
theorem ldrt_reads_privileged :
    (∃ s : State Arm920t, s.mode = SVC32MODE ∧
      ¬ s.UserChecksExact (Arm920t.dataPort 0) 0xE4B10004 ⟨true, .word, 0, 0⟩) ∧
    ∃ s : State Arm920t, s.mode = SYSTEM32MODE ∧
      ¬ s.UserChecksExact (Arm920t.dataPort 0) 0xE4B10004 ⟨true, .word, 0, 0⟩ := by
  refine ⟨⟨{ Arm920t.boot with mmu := Arm920t.oneSection 0x40A 1 }, rfl, fun h => ?_⟩,
    ⟨{ Arm920t.boot with mode := SYSTEM32MODE, mmu := Arm920t.oneSection 0x40A 1 }, rfl,
      fun h => ?_⟩⟩
  · have ha := (h.user ⟨by decide, by decide, by decide, by decide⟩).mpr
      ⟨.sectionPermission, by decide +kernel⟩
    revert ha
    decide +kernel
  · obtain ⟨f, hf⟩ := h.ordinary.mp ⟨.sectionPermission, by decide +kernel⟩
    have hd : Except.toBool _ = false := congrArg Except.toBool hf
    revert hd
    decide +kernel

end State

end SkyEye
