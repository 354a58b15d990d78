import SkyEye.Arm.BlockForms
import SkyEye.Arm.UserSight

/-!
# User-bank transfers that abort

`LDM` and `STM` with the S bit and without register 15 to load: the loops up to the word
that faults, the state that the abort then finds, and the exact condition under which the
banks are afterwards as any data abort leaves them.
-/

namespace SkyEye

open Cells StoreView

namespace State

variable {U : Type} {s : State U} {m : Mode32}

/-! ## The loops, up to the fault -/

variable {ops : MmuOps U} {instr : ARMword}

/-- Registers have been loaded when the next access faults. -/
def failed (s : State U) (rs : List RegNo) (vals : List ARMword) (mmu : MmuState U) : State U :=
  { s with
    reg := replay s.reg (rs.zip vals), mmu := mmu, abortSig := true, aborted := DATAABORTV }

theorem readData_fails {address : ARMword} (h : ops.readWord s.cpu s.mmu address = none) :
    ∃ mmu v, ops.readData s .word address = (v, s.failed [] [] mmu) := by
  unfold MmuOps.readWord at h
  unfold MmuOps.readData
  split at h
  · cases h
  · rename_i he
    rw [he]
    exact ⟨_, _, rfl⟩

theorem writeData_fails {address data : ARMword}
    (h : ops.writeWord s.cpu s.mmu address data = none) :
    ∃ mmu, ops.writeData s .word address data = s.failed [] [] mmu := by
  unfold MmuOps.writeWord at h
  unfold MmuOps.writeData
  split at h
  · cases h
  · rename_i he
    rw [he]
    exact ⟨_, rfl⟩

/-- The loop of a load that faults. -/
theorem loadRegs_fails {rs : List RegNo} {address : ARMword} (ha : s.aborted = 0)
    (h : readAll (ops.readWord s.cpu) s.mmu
      (wordAddrs (address + 4) (rs.filter (listed instr)).length) = none) :
    ∃ mmu, loadRegs ops instr s address rs = s.failed (rs.filter (listed instr))
      (readUntil (ops.readWord s.cpu) s.mmu
        (wordAddrs (address + 4) (rs.filter (listed instr)).length)) mmu := by
  induction rs generalizing s address with
  | nil => cases h
  | cons r rs ih =>
    by_cases hr : listed instr r = true
    · rw [List.filter_cons_of_pos hr, List.length_cons, wordAddrs_succ] at h ⊢
      rw [loadRegs, if_pos (show instr.getLsbD r = true from hr)]
      dsimp only
      rw [MmuOps.loadWordS]
      cases hv : ops.readWord s.cpu s.mmu (address + 4) with
      | none =>
        obtain ⟨mmu, v, he⟩ := readData_fails hv
        refine ⟨mmu, ?_⟩
        rw [he, readUntil, hv]
        rfl
      | some x =>
        obtain ⟨v, mmu₁⟩ := x
        have hz : (s.loaded [r] [v] mmu₁).aborted = 0 := ha
        rw [readAll, hv] at h
        have hrest := Option.map_eq_none_iff.mp h
        obtain ⟨mmu, hmmu⟩ := ih (s := s.loaded [r] [v] mmu₁) hz hrest
        refine ⟨mmu, ?_⟩
        rw [loadReg_of_read ha hv, if_neg (not_not.mpr hz), hmmu, readUntil, hv]
        rfl
    · rw [List.filter_cons_of_neg hr] at h ⊢
      rw [loadRegs, if_neg (show ¬ instr.getLsbD r = true from hr)]
      exact ih ha h

theorem storeRegs_fails {rs : List RegNo} {address : ARMword} (ha : s.aborted = 0)
    (h : writeAll (ops.writeWord s.cpu) s.mmu
      ((wordAddrs (address + 4) (rs.filter (listed instr)).length).zip
        ((rs.filter (listed instr)).map s.reg)) = none) :
    ∃ mmu, storeRegs ops instr s address rs = s.failed [] [] mmu := by
  induction rs generalizing s address with
  | nil => cases h
  | cons r rs ih =>
    by_cases hr : listed instr r = true
    · rw [List.filter_cons_of_pos hr, List.length_cons, wordAddrs_succ, List.map_cons,
        List.zip_cons_cons] at h
      rw [storeRegs, if_pos (show instr.getLsbD r = true from hr)]
      dsimp only
      rw [MmuOps.storeWordS]
      cases hv : ops.writeWord s.cpu s.mmu (address + 4) (s.reg r) with
      | none =>
        obtain ⟨mmu, he⟩ := writeData_fails hv
        refine ⟨mmu, ?_⟩
        rw [he]
        rfl
      | some mmu₁ =>
        have hz : (s.accessed mmu₁).aborted = 0 := ha
        rw [writeAll, hv] at h
        obtain ⟨mmu, hmmu⟩ := ih (s := s.accessed mmu₁) hz h
        refine ⟨mmu, ?_⟩
        rw [storeWord_of_write hv, if_neg (not_not.mpr hz), hmmu]
        rfl
    · rw [List.filter_cons_of_neg hr] at h
      rw [storeRegs, if_neg (show ¬ instr.getLsbD r = true from hr)]
      exact ih ha h

theorem UserSight.failed {t : State U} {v : RegNo → ARMword} (h : s.UserSight t m v)
    {rs : List RegNo} (h15 : 15 ∉ rs) (vals : List ARMword) (mmu : MmuState U) :
    s.UserSight (t.failed rs vals mmu) m (replay v (rs.zip vals)) := by
  refine ⟨h.mode, h.bank, h.prog32Sig, h.tFlag, h.lateabtSig, h.getCPSR, ?_, fun r hr => ?_, h.row⟩
  · refine (replay_of_notMem fun hmem => h15 ?_).trans h.link
    obtain ⟨p, hp, he⟩ := List.mem_map.mp hmem
    rw [← he]
    exact (List.of_mem_zip hp).1
  · show replay t.reg (rs.zip vals) r = _
    rw [replay_apply, replay_apply, h.reg r hr]

/-- The late write-back goes to the bank in sight. -/
theorem UserSight.writeBackLate {t : State U} {v : RegNo → ARMword} (h : s.UserSight t m v)
    (hs : t.abortSig = true) (ha : t.aborted ≠ 0) (instr wbBase : ARMword) :
    s.UserSight (t.writeBackLate instr wbBase) m fun r =>
      if (writesBack instr && s.lateabtSig) = true ∧ r = lhsReg instr then wbBase else v r := by
  have hc : (writesBack instr && !(t.abortSig && t.aborted != 0 && !t.lateabtSig)) =
      (writesBack instr && s.lateabtSig) := by
    rw [hs, h.lateabtSig, bne_iff_ne.mpr ha]
    simp
  rw [State.writeBackLate, hc]
  by_cases hw : (writesBack instr && s.lateabtSig) = true
  · rw [if_pos hw]
    have hl : lhsReg instr ≠ 15 := by
      intro hl
      simp [writesBack, hl] at hw
    refine ⟨h.mode, h.bank, h.prog32Sig, h.tFlag, h.lateabtSig, h.getCPSR, ?_, fun r hr => ?_,
      h.row⟩
    · rw [setLSBase, setReg_apply, if_neg (Ne.symm hl)]
      exact h.link
    · rw [setLSBase, setReg_apply]
      by_cases hr' : r = lhsReg instr
      · rw [if_pos hr', if_pos ⟨hw, hr'⟩]
      · rw [if_neg hr', if_neg fun h => hr' h.2]
        exact h.reg r hr
  · rw [if_neg hw]
    refine ⟨h.mode, h.bank, h.prog32Sig, h.tFlag, h.lateabtSig, h.getCPSR, h.link, fun r hr => ?_,
      h.row⟩
    rw [if_neg fun h => hw h.1]
    exact h.reg r hr

/-! ## The whole transfer -/

/-- The late write-back leaves the abort pending. -/
theorem aborted_writeBackLate_failed (s : State U) (rs : List RegNo) (vals : List ARMword)
    (mmu : MmuState U) (instr wbBase : ARMword) :
    ((s.failed rs vals mmu).writeBackLate instr wbBase).aborted ≠ 0 := by
  have h : ((s.failed rs vals mmu).writeBackLate instr wbBase).aborted = DATAABORTV := by
    rw [State.writeBackLate]
    split <;> rfl
  rw [h]
  decide

theorem storeSMult_fails {address : ARMword} (wbBase : ARMword) (hne : regList instr ≠ [])
    (ha : s.aborted = 0) {s₁ : State U} (hs₁ : s₁ = s.busUsedIncPcN.inUserBank)
    (h : writeAll (ops.writeWord s.cpu) s.mmu ((wordAddrs address (regList instr).length).zip
      ((regList instr).map s₁.reg)) = none) :
    ∃ mmu, s.storeSMult ops instr address wbBase =
      some (((s₁.failed [] [] mmu).writeBackLate instr wbBase).abort DATAABORTV) := by
  obtain ⟨r, hr⟩ := exists_firstReg hne
  have hframe : s₁.cpu = s.cpu ∧ s₁.mmu = s.mmu ∧ s₁.aborted = 0 := by
    obtain ⟨n, hn⟩ := s.busUsedIncPcN_eq
    obtain ⟨hc, hm, hab⟩ := inUserBank_frame (s := s.busUsedIncPcN)
    rw [hs₁, hc, hm, hab, hn]
    exact ⟨rfl, rfl, ha⟩
  obtain ⟨hcpu, hmmu, ha₁⟩ := hframe
  have hloop : ∃ mmu, (if (ops.storeWordN s₁ address (s₁.reg r)).noteAbort.aborted ≠ 0 then
      (ops.storeWordN s₁ address (s₁.reg r)).noteAbort
      else storeRegs ops instr (ops.storeWordN s₁ address (s₁.reg r)).noteAbort address
        (regsAfter r)) = s₁.failed [] [] mmu := by
    rw [regList_eq_cons hr, List.length_cons, wordAddrs_succ, List.map_cons, List.zip_cons_cons,
      ← hcpu, ← hmmu] at h
    rw [MmuOps.storeWordN]
    cases hv : ops.writeWord s₁.cpu s₁.mmu address (s₁.reg r) with
    | none =>
      obtain ⟨mmu, he⟩ := writeData_fails hv
      refine ⟨mmu, ?_⟩
      rw [he]
      rfl
    | some mmu₁ =>
      rw [writeAll, hv] at h
      have hz : (s₁.accessed mmu₁).aborted = 0 := ha₁
      obtain ⟨mmu, hmmu⟩ := storeRegs_fails (s := s₁.accessed mmu₁) hz h
      refine ⟨mmu, ?_⟩
      rw [storeWord_of_write hv, if_neg (not_not.mpr hz), hmmu]
      rfl
  obtain ⟨mmu, hmmu⟩ := hloop
  refine ⟨mmu, ?_⟩
  have hfold : (if (s.busUsedIncPcN.bank != .user) = true then s.busUsedIncPcN.toUserBank
      else s.busUsedIncPcN) = s₁ := hs₁.symm
  have hstay : ((s₁.failed [] [] mmu).aborted == 0 && (s₁.failed [] [] mmu).notUserMode) = false :=
    rfl
  rw [storeSMult, hr, Option.map_some]
  dsimp only
  rw [hfold, hmmu, hstay, if_neg Bool.false_ne_true,
    if_pos (aborted_writeBackLate_failed _ _ _ _ _ _)]

theorem DATAABORTV_ne_zero : DATAABORTV ≠ 0 := by decide

/-- The first load of `LoadSMult`; it goes by `abortSig` alone. -/
def firstLoadS (ops : MmuOps U) (s : State U) (temp : RegNo) (address : ARMword) : State U :=
  if (!(ops.loadWordN s address).2.abortSig) = true then
    (ops.loadWordN s address).2.setReg temp (ops.loadWordN s address).1
  else (ops.loadWordN s address).2.noteAbort

theorem firstLoadS_ok {address v : ARMword} {r : RegNo} {mmu : MmuState U}
    (hv : ops.readWord s.cpu s.mmu address = some (v, mmu)) :
    firstLoadS ops s r address = s.loaded [r] [v] mmu := by
  rw [firstLoadS, MmuOps.loadWordN, MmuOps.readData_ok (MmuOps.read_of_readWord hv)]
  rfl

/-- What `LoadSMult` makes of an abort if register 15 is in its list: `ARMul_Abort` has cleared
`Aborted`, so the return from an exception is carried out after all. -/
def returned (s : State U) : State U :=
  let s := if s.notUserMode then cpsrAltered { s with cpsr := s.getSPSR s.mode } else s
  s.writeR15 (s.reg 15)

/-- What `LoadSMult` does behind its loop. -/
def afterLoads (instr wbBase : ARMword) (s : State U) : State U :=
  let s :=
    if s.aborted ≠ 0 then (s.writeBackLate instr wbBase).abort DATAABORTV
    else if writesBack instr then s.setLSBase instr wbBase
    else s
  let s := if instr.getLsbD 15 && s.aborted == 0 then s.returned else s
  let s := if !instr.getLsbD 15 && s.notUserMode then s.fromUserBank else s
  s.icycles

theorem loadSMult_eq (s : State U) (address wbBase : ARMword) :
    s.loadSMult ops instr address wbBase = (firstReg instr).map fun temp =>
      let u := if !instr.getLsbD 15 && s.busUsedIncPcS.bank != .user then
        s.busUsedIncPcS.toUserBank else s.busUsedIncPcS
      (if (firstLoadS ops u temp address).aborted ≠ 0 then firstLoadS ops u temp address
        else loadRegs ops instr (firstLoadS ops u temp address) address
          (regsAfter temp)).afterLoads instr wbBase :=
  rfl

/-- All loads of `LoadSMult`, up to the one that faults. -/
theorem loadSMult_loop_fails {address : ARMword} {r : RegNo} (hr : firstReg instr = some r)
    (ha : s.aborted = 0)
    (h : readAll (ops.readWord s.cpu) s.mmu (wordAddrs address (regList instr).length) = none) :
    ∃ mmu, (if (firstLoadS ops s r address).aborted ≠ 0 then firstLoadS ops s r address
      else loadRegs ops instr (firstLoadS ops s r address) address (regsAfter r)) =
      s.failed (regList instr) (readUntil (ops.readWord s.cpu) s.mmu
        (wordAddrs address (regList instr).length)) mmu := by
  rw [regList_eq_cons hr, List.length_cons, wordAddrs_succ] at h ⊢
  cases hv : ops.readWord s.cpu s.mmu address with
  | none =>
    obtain ⟨mmu, v, he⟩ := readData_fails hv
    refine ⟨mmu, ?_⟩
    rw [firstLoadS, MmuOps.loadWordN, he, readUntil, hv]
    rfl
  | some x =>
    obtain ⟨v, mmu₁⟩ := x
    rw [readAll, hv] at h
    have hz : (s.loaded [r] [v] mmu₁).aborted = 0 := ha
    obtain ⟨mmu, hmmu⟩ := loadRegs_fails (s := s.loaded [r] [v] mmu₁) hz
      (Option.map_eq_none_iff.mp h)
    refine ⟨mmu, ?_⟩
    rw [firstLoadS_ok hv, if_neg (not_not.mpr hz), hmmu, readUntil, hv]
    rfl

/-- Behind a failed loop without register 15 in the list. -/
theorem afterLoads_user {wbBase : ARMword} (h15 : instr.getLsbD 15 = false) (ha : s.aborted ≠ 0)
    (hmode : ((s.writeBackLate instr wbBase).abort DATAABORTV).mode = ABORT32MODE) :
    s.afterLoads instr wbBase =
      ((s.writeBackLate instr wbBase).abort DATAABORTV).fromUserBank.icycles := by
  rw [afterLoads, if_pos ha]
  generalize (s.writeBackLate instr wbBase).abort DATAABORTV = u at hmode
  have hpc : ¬ (instr.getLsbD 15 && u.aborted == 0) = true := by
    rw [h15]
    exact Bool.false_ne_true
  have hback : (!instr.getLsbD 15 && u.notUserMode) = true := by
    rw [h15, notUserMode, hmode]
    rfl
  rw [if_neg hpc, if_pos hback]

theorem loadSMult_fails {address : ARMword} (wbBase : ARMword) (hne : regList instr ≠ [])
    (h15 : instr.getLsbD 15 = false) (ha : s.aborted = 0)
    {s₁ : State U} (hs₁ : s₁ = s.busUsedIncPcS.inUserBank)
    (hmode : ∀ vals mmu, (((s₁.failed (regList instr) vals mmu).writeBackLate instr wbBase).abort
      DATAABORTV).mode = ABORT32MODE)
    (h : readAll (ops.readWord s.cpu) s.mmu (wordAddrs address (regList instr).length) = none) :
    ∃ mmu, s.loadSMult ops instr address wbBase =
      some ((((s₁.failed (regList instr) (readUntil (ops.readWord s.cpu) s.mmu
        (wordAddrs address (regList instr).length)) mmu).writeBackLate instr wbBase).abort
        DATAABORTV).fromUserBank.icycles) := by
  obtain ⟨r, hr⟩ := exists_firstReg hne
  have hframe : s₁.cpu = s.cpu ∧ s₁.mmu = s.mmu ∧ s₁.aborted = 0 := by
    obtain ⟨n, hn⟩ := s.busUsedIncPcS_eq
    obtain ⟨hc, hm, hab⟩ := inUserBank_frame (s := s.busUsedIncPcS)
    rw [hs₁, hc, hm, hab, hn]
    exact ⟨rfl, rfl, ha⟩
  obtain ⟨hcpu, hmmu', ha₁⟩ := hframe
  have h₁ := h
  rw [← hcpu, ← hmmu'] at h₁
  obtain ⟨mmu, hmmu⟩ := loadSMult_loop_fails hr ha₁ h₁
  rw [hcpu, hmmu'] at hmmu
  have hab : (s₁.failed (regList instr) (readUntil (ops.readWord s.cpu) s.mmu
      (wordAddrs address (regList instr).length)) mmu).aborted ≠ 0 :=
    DATAABORTV_ne_zero
  have hfold : (if (!instr.getLsbD 15 && s.busUsedIncPcS.bank != .user) = true then
      s.busUsedIncPcS.toUserBank else s.busUsedIncPcS) = s₁ := by
    rw [h15]
    exact hs₁.symm
  refine ⟨mmu, ?_⟩
  rw [loadSMult_eq, hr, Option.map_some, hfold]
  dsimp only
  rw [hmmu, afterLoads_user h15 hab (hmode ..)]

/-! ## The opcodes -/

variable {f : BlockMode} {w : Bool}

/-- Under the late abort model, an abort leaves the base written back. -/
def writesBackAborted (s : State U) (instr : ARMword) (w : Bool) : Bool :=
  w && lhsReg instr != 15 && s.lateabtSig

/-- The registers in sight when the abort comes, after the loads in `loads`. -/
def inSight (s : State U) (instr : ARMword) (f : BlockMode) (w : Bool)
    (loads : List (RegNo × ARMword)) (r : RegNo) : ARMword :=
  if s.writesBackAborted instr w = true ∧ r = lhsReg instr then s.finalBase instr f
  else replay (s.slot .user) loads r

variable {pc wbBase : ARMword}

/-- The state that the abort of a transfer finds. -/
theorem sight_at_fault (hs : s.Executing m pc) (n : ARMword) {rs : List RegNo} (h15 : 15 ∉ rs)
    (hw : writesBack instr = (w && lhsReg instr != 15))
    (hwb : w = true → wbBase = s.finalBase instr f) (vals : List ARMword) (mmu : MmuState U) :
    s.UserSight (((s.advance n).inUserBank.failed rs vals mmu).writeBackLate instr wbBase) m
      (s.inSight instr f w (rs.zip vals)) := by
  have h := (((userSight_inUserBank hs n).failed h15 vals mmu).writeBackLate rfl
    DATAABORTV_ne_zero instr wbBase)
  refine { h with reg := fun r hr => (h.reg r hr).trans ?_ }
  rw [hw, inSight, writesBackAborted]
  split
  · rename_i hc
    exact hwb (Bool.and_eq_true_iff.mp (Bool.and_eq_true_iff.mp hc.1).1).1
  · rfl

/-! ## The conditions -/

/-- An aborted store keeps the banks exactly if it starts in no Abort mode, the base is not
written back, and the mode's registers are those of the user. -/
structure StoreKeepsBanks (s : State U) (m : Mode32) (instr : ARMword) (w : Bool) : Prop where
  mode : m ≠ .abort
  base : s.writesBackAborted instr w = false
  own : ∀ r, r ≠ 15 → s.slot .user r = s.slot (homeBank m.bank r) r

/-- What must hold by chance for an aborted load to keep the banks: register 14 of Abort mode is
the link already, registers 13 and 14 of the user are the ones that Abort mode brings along,
and the mode's own registers are those in sight. -/
structure LoadKeepsBanks (s : State U) (m : Mode32) (instr : ARMword) (f : BlockMode) (w : Bool)
    (loads : List (RegNo × ARMword)) : Prop where
  link : s.slot .abort 14 = s.abortLink
  lr : s.abortLink = s.slot .user 14 ∨ (14, s.abortLink) ∈ loads
  sp : m ≠ .abort → s.slot .abort 13 = s.slot .user 13 ∨ (13, s.slot .abort 13) ∈ loads
  own : m ≠ .abort → ∀ r, r ≠ 15 → homeBank m.bank r ≠ .user →
    s.inSight instr f w loads r = s.slot (homeBank m.bank r) r
  base : s.writesBackAborted instr w = true → lhsReg instr ≠ 14 →
    homeBank m.bank (lhsReg instr) = homeBank .abort (lhsReg instr) →
    s.finalBase instr f = s.slot .user (lhsReg instr) ∨ (lhsReg instr, s.finalBase instr f) ∈ loads

theorem finalBase_ne (hne : regList instr ≠ []) (f : BlockMode) :
    s.finalBase instr f ≠ s.reg (lhsReg instr) := by
  have hn := length_regList_le instr
  have hpos : 0 < (regList instr).length := List.length_pos_iff.mpr hne
  have hs : BlockMode.size (regList instr).length ≠ 0 := by
    intro h
    have := congrArg BitVec.toNat h
    rw [BlockMode.size, BitVec.toNat_ofNat] at this
    simp at this
    omega
  rw [finalBase]
  cases f <;> simp only [BlockMode.final] <;> bv_omega

theorem inSight_store_iff (hs : s.Executing m pc) (hne : regList instr ≠ []) :
    (m ≠ .abort ∧ ∀ r, r ≠ 15 → s.inSight instr f w [] r = s.slot (homeBank m.bank r) r) ↔
      s.StoreKeepsBanks m instr w := by
  constructor
  · rintro ⟨hm, h⟩
    have hb : s.writesBackAborted instr w = false := by
      by_contra hb
      have hc : s.writesBackAborted instr w = true := by simpa using hb
      have h15 : lhsReg instr ≠ 15 := by
        intro hl
        simp [writesBackAborted, hl] at hc
      have := h _ h15
      rw [inSight, if_pos ⟨hc, rfl⟩, ← reg_of_executing hs] at this
      exact finalBase_ne hne f this
    refine ⟨hm, hb, fun r h15 => ?_⟩
    have := h r h15
    rwa [inSight, hb, if_neg (by simp)] at this
  · rintro ⟨hm, hb, h⟩
    refine ⟨hm, fun r h15 => ?_⟩
    rw [inSight, hb, if_neg (by simp)]
    exact h r h15

/-- Only Abort mode has own registers that are also those of Abort mode. -/
theorem homeBank_abort_iff {r : RegNo} (h : homeBank m.bank r ≠ .user) :
    homeBank .abort r = homeBank m.bank r ↔ m = .abort := by
  cases m <;> revert r <;> decide

theorem homeBank_abort_user {r : RegNo} (h14 : r ≠ 14) (h13 : r ≠ 13) :
    homeBank .abort r = .user := by
  revert r
  decide

theorem inSight_eq_or_mem {loads : List (RegNo × ARMword)} {r : RegNo}
    (h : ¬ (s.writesBackAborted instr w = true ∧ r = lhsReg instr)) :
    s.inSight instr f w loads r = s.slot .user r ∨ (r, s.inSight instr f w loads r) ∈ loads := by
  rw [inSight, if_neg h]
  exact replay_eq_or_mem _ loads r

/-- What the user's registers hold is right, register by register. -/
theorem landed_iff (loads : List (RegNo × ARMword)) :
    (∀ r, r ≠ 15 → s.landed m (s.inSight instr f w loads) r = s.slot .user r ∨
        (r, s.landed m (s.inSight instr f w loads) r) ∈ loads) ↔
      (s.abortLink = s.slot .user 14 ∨ (14, s.abortLink) ∈ loads) ∧
      (m ≠ .abort → s.slot .abort 13 = s.slot .user 13 ∨ (13, s.slot .abort 13) ∈ loads) ∧
      (s.writesBackAborted instr w = true → lhsReg instr ≠ 14 →
        homeBank m.bank (lhsReg instr) = homeBank .abort (lhsReg instr) →
        s.finalBase instr f = s.slot .user (lhsReg instr) ∨
          (lhsReg instr, s.finalBase instr f) ∈ loads) := by
  have h13 (hm : m ≠ .abort) : s.landed m (s.inSight instr f w loads) 13 = s.slot .abort 13 := by
    have hne : homeBank m.bank 13 ≠ homeBank .abort 13 := by
      cases m <;> first | exact absurd rfl hm | decide
    rw [landed, if_neg (by decide), if_neg hne]
    rfl
  have hbase (hb : s.writesBackAborted instr w = true) (h14 : lhsReg instr ≠ 14)
      (hh : homeBank m.bank (lhsReg instr) = homeBank .abort (lhsReg instr)) :
      s.landed m (s.inSight instr f w loads) (lhsReg instr) = s.finalBase instr f := by
    rw [landed, if_neg h14, if_pos hh, inSight, if_pos ⟨hb, rfl⟩]
  constructor
  · intro h
    refine ⟨h 14 (by decide), fun hm => ?_, fun hb h14 hh => ?_⟩
    · rw [← h13 hm]
      exact h 13 (by decide)
    · have hl : lhsReg instr ≠ 15 := by
        intro hl
        simp [writesBackAborted, hl] at hb
      rw [← hbase hb h14 hh]
      exact h _ hl
  · rintro ⟨hlr, hsp, hwb⟩ r h15
    by_cases h14 : r = 14
    · subst h14
      exact hlr
    by_cases hh : homeBank m.bank r = homeBank .abort r
    · by_cases hb : s.writesBackAborted instr w = true ∧ r = lhsReg instr
      · obtain ⟨hb, rfl⟩ := hb
        rw [hbase hb h14 hh]
        exact hwb hb h14 hh
      · rw [landed, if_neg h14, if_pos hh]
        exact inSight_eq_or_mem hb
    · -- the register in sight comes from the row of Abort mode
      have hm : m ≠ .abort := by
        rintro rfl
        exact hh rfl
      by_cases hr : r = 13
      · subst hr
        rw [h13 hm]
        exact hsp hm
      · rw [landed, if_neg h14, if_neg hh, homeBank_abort_user h14 hr]
        exact .inl rfl

theorem inSight_load_iff (loads : List (RegNo × ARMword)) :
    (s.slot .abort 14 = s.abortLink ∧
      (∀ r, r ≠ 15 → homeBank m.bank r ≠ .user → homeBank .abort r ≠ homeBank m.bank r →
        s.inSight instr f w loads r = s.slot (homeBank m.bank r) r) ∧
      ∀ r, r ≠ 15 → s.landed m (s.inSight instr f w loads) r = s.slot .user r ∨
        (r, s.landed m (s.inSight instr f w loads) r) ∈ loads) ↔
      s.LoadKeepsBanks m instr f w loads := by
  rw [landed_iff]
  constructor
  · rintro ⟨hl, hown, hlr, hsp, hb⟩
    refine ⟨hl, hlr, hsp, fun hm r h15 hu => hown r h15 hu fun h => ?_, hb⟩
    exact hm ((homeBank_abort_iff hu).mp h)
  · rintro ⟨hl, hlr, hsp, hown, hb⟩
    exact ⟨hl, fun r h15 hu hne => hown (fun hm => hne ((homeBank_abort_iff hu).mpr hm)) r h15 hu,
      hlr, hsp, hb⟩

/-! ## Aborted transfers -/

/-- The words that a store of user registers writes, with their addresses. -/
def userStores (s : State U) (instr : ARMword) (f : BlockMode) : List (ARMword × ARMword) :=
  (s.block instr f).zip
    ((regList instr).map fun r => if r = 15 then s.abortLink else s.slot .user r)

theorem store_abort_iff (hs : s.Executing m pc) (ha : s.aborted = 0)
    (ho : bits instr 20 27 = f.opcode w false + 4)
    (h : writeAll (ops.writeWord s.cpu) s.mmu (s.userStores instr f) = none) :
    ∃ t, s.blockTransfer ops instr = some t ∧
      (s.BankingKept t m [] ↔ s.StoreKeepsBanks m instr w) := by
  obtain ⟨wbBase, hbt, hwb⟩ := blockTransfer_opcode f w false true ops s ho
  obtain ⟨n, hn⟩ := s.busUsedIncPcN_eq
  have hsight := userSight_inUserBank hs n
  have hne : regList instr ≠ [] := by
    intro he
    rw [userStores, block, he] at h
    cases h
  have hregs : (regList instr).map (s.advance n).inUserBank.reg =
      (regList instr).map fun r => if r = 15 then s.abortLink else s.slot .user r := by
    refine List.map_congr_left fun r _ => ?_
    by_cases h15 : r = 15
    · rw [if_pos h15, h15]
      exact hsight.link
    · rw [if_neg h15]
      exact hsight.reg r h15
  rw [userStores, ← hregs] at h
  obtain ⟨mmu, ht⟩ := storeSMult_fails (s := s) wbBase hne ha
    (congrArg inUserBank hn.symm) h
  have hv := sight_at_fault hs n (List.not_mem_nil (a := 15))
    (writesBack_of_opcode f w false true ho) hwb [] mmu
  have hu := abortedFrom_abort hv.mode hv.prog32Sig hv.tFlag
  exact ⟨_, hbt.trans ht, (hv.kept_store_iff hu).trans (inSight_store_iff hs hne)⟩

theorem load_abort_iff (hs : s.Executing m pc) (ha : s.aborted = 0)
    (ho : bits instr 20 27 = f.opcode w true + 4) (h15 : 15 ∉ regList instr)
    (h : readAll (ops.readWord s.cpu) s.mmu (s.block instr f) = none) :
    ∃ t, s.blockTransfer ops instr = some t ∧
      let loads := (regList instr).zip (readUntil (ops.readWord s.cpu) s.mmu (s.block instr f))
      (s.BankingKept t m loads ↔ s.LoadKeepsBanks m instr f w loads) := by
  obtain ⟨wbBase, hbt, hwb⟩ := blockTransfer_opcode f w true true ops s ho
  obtain ⟨n, hn⟩ := s.busUsedIncPcS_eq
  have hne : regList instr ≠ [] := by
    intro he
    rw [block, he] at h
    cases h
  have hbit : instr.getLsbD 15 = false := Bool.eq_false_iff.mpr fun h => h15 (mem_regList.mpr h)
  have hv (vals : List ARMword) (mmu : MmuState U) :=
    sight_at_fault hs n h15 (writesBack_of_opcode f w true true ho) hwb vals mmu
  have hu (vals : List ARMword) (mmu : MmuState U) :=
    abortedFrom_abort (hv vals mmu).mode (hv vals mmu).prog32Sig (hv vals mmu).tFlag
  obtain ⟨mmu, ht⟩ := loadSMult_fails (s := s) wbBase hne hbit ha
    (congrArg inUserBank hn.symm) (fun vals mmu => (hu vals mmu).mode) h
  refine ⟨_, hbt.trans ht, ?_⟩
  exact kept_icycles.trans (((hv _ mmu).kept_load_iff (hu _ mmu) _).trans (inSight_load_iff _))

end State

open State in
/-- A user-bank transfer that aborts keeps the banks exactly in these cases, in every mode, for
every list and for a fault at any of its words. -/
theorem user_bank_abort_iff {U : Type} (ops : MmuOps U) {s : State U} {m : Mode32} {pc : ARMword}
    (instr : ARMword) (f : BlockMode) (w : Bool) (hs : s.Executing m pc) (ha : s.aborted = 0) :
    (bits instr 20 27 = f.opcode w false + 4 →
      writeAll (ops.writeWord s.cpu) s.mmu (s.userStores instr f) = none →
      ∃ t, s.blockTransfer ops instr = some t ∧
        (s.BankingKept t m [] ↔ s.StoreKeepsBanks m instr w)) ∧
    (bits instr 20 27 = f.opcode w true + 4 → 15 ∉ regList instr →
      readAll (ops.readWord s.cpu) s.mmu (s.block instr f) = none →
      ∃ t, s.blockTransfer ops instr = some t ∧
        let loads := (regList instr).zip (readUntil (ops.readWord s.cpu) s.mmu (s.block instr f))
        (s.BankingKept t m loads ↔ s.LoadKeepsBanks m instr f w loads)) :=
  ⟨fun ho h => store_abort_iff hs ha ho h, fun ho h15 h => load_abort_iff hs ha ho h15 h⟩

namespace Arm920t

/-- In supervisor mode, `STMIA r0, {r13}^` to a page that is not mapped goes unnoticed while
the two stack pointers agree; `LDMIA r0, {r0}^` from there loses the link. -/
theorem user_bank_abort_iff_svc :
    let s := unmapped.setReg 15 8
    (∃ t, s.blockTransfer (ops 0) 0xE8C02000 = some t ∧ s.BankingKept t .svc []) ∧
      ∃ t, s.blockTransfer (ops 0) 0xE8D00001 = some t ∧ ¬ s.BankingKept t .svc [] := by
  intro s
  have hs : s.Executing .svc 0 := ⟨⟨rfl, rfl⟩, rfl, rfl, rfl⟩
  obtain ⟨t, ht, hk⟩ := (user_bank_abort_iff (ops 0) 0xE8C02000 .ia false hs rfl).1 (by decide)
    (Option.isNone_iff_eq_none.mp (by decide +kernel))
  obtain ⟨t', ht', hk'⟩ := (user_bank_abort_iff (ops 0) 0xE8D00001 .ia false hs rfl).2 (by decide)
    (by decide) (Option.isNone_iff_eq_none.mp (by decide +kernel))
  have hl : (regList 0xE8D00001).zip (readUntil ((ops 0).readWord s.cpu) s.mmu
      (s.block 0xE8D00001 .ia)) = [] := by decide +kernel
  dsimp only at hk'
  rw [hl] at hk'
  refine ⟨⟨t, ht, hk.mpr ⟨by decide, by decide, by decide +kernel⟩⟩, t', ht', fun h => ?_⟩
  exact absurd (hk'.mp h).link (by decide +kernel)

/-- `STMIA r0, {r13}^` to such a page in supervisor mode, with a stack of its own: the abort
saves the user's stack pointer as supervisor mode's. -/
theorem user_bank_abort_loses_sp :
    let s := (unmapped.setReg 15 8).setReg 13 0x8000
    s.Executing .svc 0 ∧ s.aborted = 0 ∧
      bits 0xE8C02000 20 27 = BlockMode.ia.opcode false false + 4 ∧
      writeAll ((ops 0).writeWord s.cpu) s.mmu (s.userStores 0xE8C02000 .ia) = none ∧
      ∃ t, s.blockTransfer (ops 0) 0xE8C02000 = some t ∧ ¬ s.BankingKept t .svc [] := by
  intro s
  have hs : s.Executing .svc 0 := ⟨⟨rfl, rfl⟩, rfl, rfl, rfl⟩
  have ho : bits 0xE8C02000 20 27 = BlockMode.ia.opcode false false + 4 := by decide
  have hf : writeAll ((ops 0).writeWord s.cpu) s.mmu (s.userStores 0xE8C02000 .ia) = none :=
    Option.isNone_iff_eq_none.mp (by decide +kernel)
  obtain ⟨t, ht, hk⟩ := State.store_abort_iff hs rfl ho hf
  refine ⟨hs, rfl, ho, hf, t, ht, fun h => ?_⟩
  exact absurd ((hk.mp h).own 13 (by decide)) (by decide +kernel)

end Arm920t

end SkyEye
