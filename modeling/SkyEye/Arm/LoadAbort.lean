import SkyEye.Arm.UserBank

/-!
# Block loads that abort

What `LDM` leaves of its base register and which link and SPSR Abort mode gets, when the
load of any word of the block faults. `LoadMult` has a place for the abort models, but
nothing in it: neither the base nor a loaded register is put back.
-/

namespace SkyEye.State

open Cells StoreView

variable {U : Type} {s : State U} {m : Mode32} {ops : MmuOps U} {instr pc : ARMword}

/-- The state is about to carry out the instruction at `pc`, ARM or Thumb. -/
structure Running (s : State U) (m : Mode32) (pc : ARMword) : Prop where
  inMode : s.InMode m
  prog32Sig : s.prog32Sig = true
  pc : s.reg 15 = pc + s.insnSize * 2

/-- `t` follows the abort model: the base register of mode `m` as it was, or written back under
the late model, and link and SPSR those of the instruction. -/
structure LoadAbortKept (s t : State U) (m : Mode32) (pc instr : ARMword) (f : BlockMode)
    (w : Bool) : Prop where
  early : s.lateabtSig = false →
    t.slot (homeBank m.bank (lhsReg instr)) (lhsReg instr) = s.reg (lhsReg instr)
  late : s.lateabtSig = true → w = true →
    t.slot (homeBank m.bank (lhsReg instr)) (lhsReg instr) = s.finalBase instr f
  link : t.slot .abort 14 = pc + 8
  spsr : t.spsr .abort = s.getCPSR

/-- The words of the block up to the one that faults, with their registers. -/
def loadsUntil (ops : MmuOps U) (s : State U) (instr : ARMword) (f : BlockMode) :
    List (RegNo × ARMword) :=
  (regList instr).zip (readUntil (ops.readWord s.cpu) s.mmu (s.block instr f))

/-! ## The link -/

/-- Register 14 of Abort mode after an abort. -/
def abortReturn (s : State U) : ARMword := s.abortLink + if s.tFlag then 4 else 0

theorem abortReturn_eq_iff (hs : s.Running m pc) : s.abortReturn = pc + 8 ↔ s.isV4 = true := by
  unfold abortReturn abortLink
  rw [hs.pc, insnSize]
  cases s.isV4 <;> cases s.tFlag
  · refine iff_of_false (fun h => ?_) Bool.false_ne_true
    simp only [Bool.false_eq_true, if_false] at h
    bv_omega
  · refine iff_of_false (fun h => ?_) Bool.false_ne_true
    simp only [Bool.false_eq_true, if_false, if_true] at h
    bv_omega
  · refine iff_of_true ?_ rfl
    simp only [Bool.false_eq_true, if_false, if_true]
    bv_omega
  · refine iff_of_true ?_ rfl
    simp only [if_true]
    bv_omega

theorem slot_abort (h : s.InMode m) (hp : s.prog32Sig = true) (b : Bank) {r : RegNo}
    (h15 : r ≠ 15) :
    (s.abort DATAABORTV).slot b r =
      if b = .abort ∧ r = 14 then s.reg 15 + if s.tFlag then 4 else 0 else s.slot b r := by
  have he := entered_abort hp h.validMode .dataAbort
  have hlink : s.abortPC - s.linkOffset .dataAbort = s.reg 15 + if s.tFlag then 4 else 0 := by
    rw [abortPC_eq hp, getPC, h.mode32Bit, linkOffset]
    cases s.tFlag
    · simp
    · simp only [if_true]
      bv_omega
  rw [hlink] at he
  split
  · rename_i hc
    obtain ⟨rfl, rfl⟩ := hc
    exact he.lr
  · rename_i hc
    exact he.slot b r h15 hc

theorem spsr_abort (h : s.InMode m) (hp : s.prog32Sig = true) :
    (s.abort DATAABORTV).spsr .abort = s.getCPSR := by
  have he : (s.abort DATAABORTV).spsr = Function.update s.spsr .abort s.getCPSR :=
    (entered_abort hp h.validMode .dataAbort).spsr
  rw [he, Function.update_self]

/-! ## `LoadMult` -/

theorem readUntil_length_lt {M A V : Type*} {read : M → A → Option (V × M)} {mm : M}
    {as : List A}
    (h : readAll read mm as = none) : (readUntil read mm as).length < as.length := by
  induction as generalizing mm with
  | nil => cases h
  | cons a as ih =>
    rw [readUntil]
    rw [readAll] at h
    cases hr : read mm a with
    | none => simp
    | some x =>
      rw [hr] at h
      exact Nat.succ_lt_succ (ih (Option.map_eq_none_iff.mp h))

/-- Register 15 is the last of a list, and not loaded before a fault. -/
theorem loadsUntil_notMem {f : BlockMode}
    (h : readAll (ops.readWord s.cpu) s.mmu (s.block instr f) = none) :
    15 ∉ (s.loadsUntil ops instr f).map Prod.fst := by
  have hlen := readUntil_length_lt h
  have hblock : (s.block instr f).length = (regList instr).length := length_wordAddrs _ _
  rw [hblock] at hlen
  have hsorted : (regList instr).Pairwise (· < ·) := (List.pairwise_lt_finRange 16).filter _
  intro hmem
  obtain ⟨p, hp, hp15⟩ := List.mem_map.mp hmem
  rw [loadsUntil] at hp
  obtain ⟨i, hi, he⟩ := List.getElem_of_mem hp
  rw [List.getElem_zip] at he
  rw [List.length_zip] at hi
  -- the register of the word that faults is above it in the list
  have hlt := List.pairwise_iff_getElem.mp hsorted i _ (by omega) hlen (by omega)
  rw [show (regList instr)[i] = 15 by rw [← hp15, ← he]] at hlt
  exact absurd (Fin.lt_def.mp hlt) (by simp; omega)

/-- The state in which the abort of a `LoadMult` is taken. -/
theorem loadMult_fails {address : ARMword} (wbBase : ARMword) (hne : regList instr ≠ [])
    (ha : s.aborted = 0)
    (h : readAll (ops.readWord s.cpu) s.mmu (wordAddrs address (regList instr).length) = none) :
    ∃ n mmu, s.loadMult ops instr address wbBase =
      some (((s.advance n).failed (regList instr) (readUntil (ops.readWord s.cpu) s.mmu
        (wordAddrs address (regList instr).length)) mmu).icycles.abort DATAABORTV) := by
  obtain ⟨r, hr⟩ := exists_firstReg hne
  obtain ⟨n, hn⟩ := s.busUsedIncPcS_eq
  have hcpu : (s.advance n).cpu = s.cpu := rfl
  have hmmu : (s.advance n).mmu = s.mmu := rfl
  have ha₁ : (s.advance n).aborted = 0 := ha
  have hloop : ∃ mmu, (if (loadReg r (ops.loadWordN (s.advance n) address)).aborted ≠ 0 then
        loadReg r (ops.loadWordN (s.advance n) address)
      else loadRegs ops instr (loadReg r (ops.loadWordN (s.advance n) address)) address
        (regsAfter r)) = (s.advance n).failed (regList instr) (readUntil (ops.readWord s.cpu) s.mmu
          (wordAddrs address (regList instr).length)) mmu := by
    rw [regList_eq_cons hr, List.length_cons, wordAddrs_succ, ← hcpu, ← hmmu] at h ⊢
    rw [MmuOps.loadWordN]
    cases hv : ops.readWord (s.advance n).cpu (s.advance n).mmu address with
    | none =>
      obtain ⟨mmu, v, he⟩ := readData_fails hv
      refine ⟨mmu, ?_⟩
      rw [he, readUntil, hv]
      rfl
    | some x =>
      obtain ⟨v, mmu₁⟩ := x
      rw [readAll, hv] at h
      have hz : ((s.advance n).loaded [r] [v] mmu₁).aborted = 0 := ha₁
      obtain ⟨mmu, hmmu⟩ := loadRegs_fails (s := (s.advance n).loaded [r] [v] mmu₁) hz
        (Option.map_eq_none_iff.mp h)
      refine ⟨mmu, ?_⟩
      rw [loadReg_of_read ha₁ hv, if_neg (not_not.mpr hz), hmmu, readUntil, hv]
      rfl
  obtain ⟨mmu, hu⟩ := hloop
  refine ⟨n, mmu, ?_⟩
  rw [loadMult, hr, Option.map_some]
  dsimp only
  rw [hn]
  generalize loadReg r (ops.loadWordN (s.advance n) address) = t at hu ⊢
  generalize hF : (s.advance n).failed (regList instr) (readUntil (ops.readWord s.cpu) s.mmu
    (wordAddrs address (regList instr).length)) mmu = u at hu ⊢
  have hab : u.aborted = DATAABORTV := by rw [← hF]; rfl
  have hstop : (instr.getLsbD 15 && u.aborted == 0) = false := by
    rw [hab]
    exact Bool.and_false _
  have hab' : u.icycles.aborted ≠ 0 := by
    show u.aborted ≠ 0
    rw [hab]
    exact DATAABORTV_ne_zero
  by_cases ht : t.aborted ≠ 0
  · rw [if_pos ht] at hu ⊢
    rw [hu, if_pos hab']
  · rw [if_neg ht] at hu ⊢
    rw [hu, hstop, if_neg Bool.false_ne_true, if_pos hab']

/-! ## The abort models -/

/-- The base register after an abort in its own mode; `wb` tells whether it was written back. -/
def leftBase (s : State U) (m : Mode32) (instr : ARMword) (f : BlockMode) (wb : Bool)
    (loads : List (RegNo × ARMword)) : ARMword :=
  if m = .abort ∧ lhsReg instr = 14 then s.abortReturn
  else if wb then s.finalBase instr f
  else replay s.reg loads (lhsReg instr)

/-- What must hold for a load in the bank of its mode: no step of the pipeline before the abort,
and the base that is left is the one that the abort model wants. -/
structure LeavesBase (s : State U) (m : Mode32) (instr : ARMword) (f : BlockMode) (w wb : Bool)
    (loads : List (RegNo × ARMword)) : Prop where
  link : s.isV4 = true
  early : s.lateabtSig = false → s.leftBase m instr f wb loads = s.reg (lhsReg instr)
  late : s.lateabtSig = true → w = true → s.leftBase m instr f wb loads = s.finalBase instr f

/-- The state that an abort in the mode itself finds. -/
structure AtFault (s u : State U) (m : Mode32) : Prop where
  inMode : u.InMode m
  prog32Sig : u.prog32Sig = true
  tFlag : u.tFlag = s.tFlag
  link : u.reg 15 = s.abortLink
  getCPSR : u.getCPSR = s.getCPSR

variable {f : BlockMode} {w wb : Bool} {u t : State U} {loads : List (RegNo × ARMword)}

theorem homeBank_eq_abort {r : RegNo} (h14 : r = 14) :
    homeBank m.bank r = .abort ↔ m = .abort := by
  subst h14
  cases m <;> decide

theorem AtFault.slot_base (hu : s.AtFault u m) (h15 : lhsReg instr ≠ 15)
    (hbase : u.reg (lhsReg instr) =
      if wb then s.finalBase instr f else replay s.reg loads (lhsReg instr)) :
    (u.abort DATAABORTV).slot (homeBank m.bank (lhsReg instr)) (lhsReg instr) =
      s.leftBase m instr f wb loads := by
  have hown : u.slot (homeBank m.bank (lhsReg instr)) (lhsReg instr) = u.reg (lhsReg instr) := by
    rw [reg_eq_slot, hu.inMode.bank]
  rw [slot_abort hu.inMode hu.prog32Sig _ h15, hown, hbase, hu.link, hu.tFlag, leftBase,
    abortReturn]
  by_cases h14 : lhsReg instr = 14
  · simp only [homeBank_eq_abort h14]
  · have hno (p : Prop) : ¬ (p ∧ lhsReg instr = 14) := fun h => h14 h.2
    rw [if_neg (hno _), if_neg (hno _)]

theorem AtFault.kept_iff (hs : s.Running m pc) (hu : s.AtFault u m) (h15 : lhsReg instr ≠ 15)
    (hbase : u.reg (lhsReg instr) =
      if wb then s.finalBase instr f else replay s.reg loads (lhsReg instr))
    (hslot : ∀ b r, r ≠ 15 → t.slot b r = (u.abort DATAABORTV).slot b r)
    (hspsr : t.spsr = (u.abort DATAABORTV).spsr) :
    s.LoadAbortKept t m pc instr f w ↔ s.LeavesBase m instr f w wb loads := by
  have hb := hu.slot_base h15 hbase
  rw [← hslot _ _ h15] at hb
  have hl : t.slot .abort 14 = s.abortReturn := by
    rw [hslot _ _ (by decide), slot_abort hu.inMode hu.prog32Sig _ (by decide),
      if_pos ⟨rfl, rfl⟩, hu.link, hu.tFlag, abortReturn]
  have hc : t.spsr .abort = s.getCPSR := by
    rw [hspsr, spsr_abort hu.inMode hu.prog32Sig, hu.getCPSR]
  constructor
  · intro hk
    refine ⟨(abortReturn_eq_iff hs).mp (hl.symm.trans hk.link), fun h => ?_, fun h hw => ?_⟩
    · exact hb.symm.trans (hk.early h)
    · exact hb.symm.trans (hk.late h hw)
  · intro hk
    refine ⟨fun h => hb.trans (hk.early h), fun h hw => hb.trans (hk.late h hw), ?_, hc⟩
    exact hl.trans ((abortReturn_eq_iff hs).mpr hk.link)

theorem loadMult_abort_iff (hs : s.Running m pc) (ha : s.aborted = 0) (h15 : lhsReg instr ≠ 15)
    (ho : bits instr 20 27 = f.opcode w true)
    (h : readAll (ops.readWord s.cpu) s.mmu (s.block instr f) = none) :
    ∃ t, s.blockTransfer ops instr = some t ∧ (s.LoadAbortKept t m pc instr f w ↔
      s.LeavesBase m instr f w false (s.loadsUntil ops instr f)) := by
  obtain ⟨wbBase, hbt, -⟩ := blockTransfer_opcode f w true false ops s ho
  have hne : regList instr ≠ [] := by
    intro he
    rw [block, he] at h
    cases h
  have h15l := loadsUntil_notMem h
  obtain ⟨n, mmu, ht⟩ := loadMult_fails (s := s) wbBase hne ha h
  generalize hu : ((s.advance n).failed (regList instr) (readUntil (ops.readWord s.cpu) s.mmu
    (wordAddrs (f.start (s.reg (lhsReg instr)) (regList instr).length)
      (regList instr).length)) mmu).icycles = u at ht
  have hreg : u.reg = replay (s.advance n).reg (s.loadsUntil ops instr f) := by
    rw [← hu]
    rfl
  have hfault : s.AtFault u m := by
    have hlink : u.reg 15 = s.abortLink := by
      rw [hreg, replay_of_notMem h15l, advance_reg_pc]
    rw [← hu] at hlink ⊢
    exact ⟨⟨hs.inMode.mode, hs.inMode.bank⟩, hs.prog32Sig, rfl, hlink, rfl⟩
  refine ⟨_, hbt.trans ht, hfault.kept_iff hs h15 ?_ (fun _ _ _ => rfl) rfl⟩
  rw [hreg, if_neg Bool.false_ne_true, replay_apply, replay_apply, s.advance_reg n h15]

/-! ## `LoadSMult` with register 15 -/

/-- Behind a failed loop with register 15 in the list. -/
theorem afterLoads_aborted {wbBase : ARMword} (h15 : instr.getLsbD 15 = true) (hu : u.aborted ≠ 0)
    (hz : ((u.writeBackLate instr wbBase).abort DATAABORTV).aborted = 0) :
    u.afterLoads instr wbBase =
      ((u.writeBackLate instr wbBase).abort DATAABORTV).returned.icycles := by
  rw [afterLoads, if_pos hu]
  generalize (u.writeBackLate instr wbBase).abort DATAABORTV = v at hz
  have hpc : (instr.getLsbD 15 && v.aborted == 0) = true := by
    rw [h15, hz]
    rfl
  have hback : (!instr.getLsbD 15 && v.returned.notUserMode) = false := by
    rw [h15]
    rfl
  rw [if_pos hpc, hback, if_neg Bool.false_ne_true]

theorem loadSMult_pc_fails {address : ARMword} (wbBase : ARMword) (hne : regList instr ≠ [])
    (h15 : instr.getLsbD 15 = true) (ha : s.aborted = 0)
    (hzero : ∀ n vals mmu, ((((s.advance n).failed (regList instr) vals mmu).writeBackLate instr
      wbBase).abort DATAABORTV).aborted = 0)
    (h : readAll (ops.readWord s.cpu) s.mmu (wordAddrs address (regList instr).length) = none) :
    ∃ n mmu, s.loadSMult ops instr address wbBase =
      some (((((s.advance n).failed (regList instr) (readUntil (ops.readWord s.cpu) s.mmu
        (wordAddrs address (regList instr).length)) mmu).writeBackLate instr wbBase).abort
        DATAABORTV).returned.icycles) := by
  obtain ⟨r, hr⟩ := exists_firstReg hne
  obtain ⟨n, hn⟩ := s.busUsedIncPcS_eq
  obtain ⟨mmu, hu⟩ := @loadSMult_loop_fails U (s.advance n) ops instr _ _ hr ha h
  have hcpu : (s.advance n).cpu = s.cpu := rfl
  have hmmu : (s.advance n).mmu = s.mmu := rfl
  rw [hcpu, hmmu] at hu
  have hab : ((s.advance n).failed (regList instr) (readUntil (ops.readWord s.cpu) s.mmu
      (wordAddrs address (regList instr).length)) mmu).aborted ≠ 0 :=
    DATAABORTV_ne_zero
  have hbank : (!instr.getLsbD 15 && (s.advance n).bank != .user) = false := by
    rw [h15]
    rfl
  refine ⟨n, mmu, ?_⟩
  rw [loadSMult_eq, hr, Option.map_some, hn, hbank, if_neg Bool.false_ne_true]
  dsimp only
  rw [hu, afterLoads_aborted h15 hab (hzero ..)]

/-- The return from an abort leaves every register but 15 in its place. -/
theorem returned_keeps (hp : u.prog32Sig = true) (hm : u.InMode .abort)
    (hc : modeToBank (u.spsr .abort &&& MODEBITS) ≠ .dummy) :
    (∀ b r, r ≠ 15 → u.returned.slot b r = u.slot b r) ∧ u.returned.spsr = u.spsr := by
  have hnu : u.notUserMode = true := by
    rw [notUserMode, hm.mode]
    rfl
  have hsp : u.getSPSR u.mode = u.spsr .abort := by
    rw [getSPSR, hm.mode]
    rfl
  have ha := altered_cpsrAltered (s := { u with cpsr := u.getSPSR u.mode }) hp
    (by rw [hm.bank, hm.mode]; rfl) (by rw [hm.bank]; decide) (by rw [hsp]; exact hc)
  rw [returned, hnu, if_pos rfl, writeR15]
  refine ⟨fun b r hr => ?_, ha.spsr⟩
  refine (slot_setReg (s := cpsrAltered { u with cpsr := u.getSPSR u.mode }) 15 _ b r).trans ?_
  rw [if_neg fun h => hr h.1]
  exact ha.slot b r hr

/-- The registers at the fault, with the base that the late abort model has written back. -/
theorem writeBackLate_failed_eq (s : State U) (rs : List RegNo) (vals : List ARMword)
    (mmu : MmuState U) (instr wbBase : ARMword) :
    (s.failed rs vals mmu).writeBackLate instr wbBase =
      if writesBack instr && s.lateabtSig then (s.failed rs vals mmu).setLSBase instr wbBase
      else s.failed rs vals mmu := by
  have hc : (writesBack instr && !((s.failed rs vals mmu).abortSig &&
      (s.failed rs vals mmu).aborted != 0 && !(s.failed rs vals mmu).lateabtSig)) =
      (writesBack instr && s.lateabtSig) := by
    show (writesBack instr && !(true && DATAABORTV != 0 && !s.lateabtSig)) = _
    rw [show (DATAABORTV != 0) = true from rfl]
    simp
  rw [writeBackLate, hc]

/-- The mode and the status register are as before the transfer. -/
theorem writeBackLate_failed_frame (hs : s.InMode m) (n : ARMword) (rs : List RegNo)
    (vals : List ARMword) (mmu : MmuState U) (instr wbBase : ARMword) :
    let u := ((s.advance n).failed rs vals mmu).writeBackLate instr wbBase
    u.InMode m ∧ u.prog32Sig = s.prog32Sig ∧ u.tFlag = s.tFlag ∧ u.getCPSR = s.getCPSR := by
  intro u
  have hu : u = _ := writeBackLate_failed_eq (s.advance n) rs vals mmu instr wbBase
  rw [hu]
  split
  · exact ⟨⟨hs.mode, hs.bank⟩, rfl, rfl, rfl⟩
  · exact ⟨⟨hs.mode, hs.bank⟩, rfl, rfl, rfl⟩

theorem writeBackLate_failed_reg (n : ARMword) (rs : List RegNo) (vals : List ARMword)
    (mmu : MmuState U) (instr wbBase : ARMword) (r : RegNo) :
    (((s.advance n).failed rs vals mmu).writeBackLate instr wbBase).reg r =
      if (writesBack instr && s.lateabtSig) = true ∧ r = lhsReg instr then wbBase
      else replay (s.advance n).reg (rs.zip vals) r := by
  rw [writeBackLate_failed_eq]
  by_cases hc : (writesBack instr && s.lateabtSig) = true
  · rw [if_pos (show (writesBack instr && (s.advance n).lateabtSig) = true from hc), setLSBase,
      setReg_apply]
    simp only [hc, true_and]
    rfl
  · rw [if_neg (show ¬ (writesBack instr && (s.advance n).lateabtSig) = true from hc),
      if_neg fun h => hc h.1]
    rfl

theorem loadSMult_pc_abort_iff (hs : s.Executing m pc) (ha : s.aborted = 0)
    (h15 : lhsReg instr ≠ 15) (ho : bits instr 20 27 = f.opcode w true + 4)
    (hpc : 15 ∈ regList instr)
    (h : readAll (ops.readWord s.cpu) s.mmu (s.block instr f) = none) :
    ∃ t, s.blockTransfer ops instr = some t ∧ (s.LoadAbortKept t m pc instr f w ↔
      s.LeavesBase m instr f w (w && s.lateabtSig) (s.loadsUntil ops instr f)) := by
  obtain ⟨wbBase, hbt, hwb⟩ := blockTransfer_opcode f w true true ops s ho
  have hne : regList instr ≠ [] := List.ne_nil_of_mem hpc
  have h15l := loadsUntil_notMem h
  have hw : writesBack instr = w := by
    rw [writesBack_of_opcode f w true true ho, bne_iff_ne.mpr h15, Bool.and_true]
  obtain ⟨n, mmu, ht⟩ := loadSMult_pc_fails (s := s) wbBase hne (mem_regList.mp hpc) ha
    (fun n vals mmu => by
      obtain ⟨hm, hp, htf, -⟩ :=
        writeBackLate_failed_frame hs.inMode n (regList instr) vals mmu instr wbBase
      exact (abortedFrom_abort hm.mode (hp.trans hs.prog32Sig) (htf.trans hs.tFlag)).aborted) h
  -- the state in which the abort is taken
  generalize hvals : readUntil (ops.readWord s.cpu) s.mmu (wordAddrs
    (f.start (s.reg (lhsReg instr)) (regList instr).length) (regList instr).length) = vals at ht
  have hloads : (regList instr).zip vals = s.loadsUntil ops instr f := by
    rw [← hvals]
    rfl
  obtain ⟨hm, hp, htf, hc⟩ :=
    writeBackLate_failed_frame hs.inMode n (regList instr) vals mmu instr wbBase
  have hreg (r : RegNo) :=
    writeBackLate_failed_reg (s := s) n (regList instr) vals mmu instr wbBase r
  rw [hw, hloads] at hreg
  generalize ((s.advance n).failed (regList instr) vals mmu).writeBackLate instr wbBase = u
    at hreg hm hp htf hc ht
  replace hp := hp.trans hs.prog32Sig
  have hlink : u.reg 15 = s.abortLink := by
    rw [hreg, if_neg fun h => h15 h.2.symm, replay_of_notMem h15l, advance_reg_pc]
  have hfault : s.AtFault u m := ⟨hm, hp, htf, hlink, hc⟩
  have hr : s.Running m pc := ⟨hs.inMode, hs.prog32Sig, by
    rw [hs.pc, insnSize, hs.tFlag]
    rfl⟩
  -- and the return that follows the abort
  have hab := aborted_abort hm hp (htf.trans hs.tFlag)
  have hspsr : (u.abort DATAABORTV).spsr .abort = s.getCPSR := by
    rw [spsr_abort hm hp, hc]
  have hrest : (u.abort DATAABORTV).rest = u.rest := (entered_abort hp hm.validMode .dataAbort).rest
  have hp' : (u.abort DATAABORTV).prog32Sig = true :=
    (congrArg State.prog32Sig hrest :).trans hp
  obtain ⟨hslot, hspsr'⟩ := returned_keeps (u := u.abort DATAABORTV) hp' hab.inMode (by
    rw [hspsr, getCPSR_and_modebits hs.inMode.validMode.modebits, hs.inMode.mode, modeToBank_bits]
    exact m.bank_ne_dummy)
  generalize (u.abort DATAABORTV).returned = v at hslot hspsr' ht
  refine ⟨_, hbt.trans ht, hfault.kept_iff (t := v.icycles) hr h15 ?_ hslot hspsr'⟩
  rw [hreg]
  by_cases hb : (w && s.lateabtSig) = true
  · rw [if_pos ⟨hb, rfl⟩, if_pos hb]
    exact hwb (Bool.and_eq_true_iff.mp hb).1
  · rw [if_neg fun h => hb h.1, if_neg hb, replay_apply, replay_apply, s.advance_reg n h15]

/-! ## `LoadSMult` without register 15 -/

/-- The base register after an abort with the user's registers in sight: where the two switches
that follow have put what was in sight. -/
def userLeftBase (s : State U) (m : Mode32) (instr : ARMword) (f : BlockMode) (w : Bool)
    (loads : List (RegNo × ARMword)) : ARMword :=
  if homeBank m.bank (lhsReg instr) = .user then
    s.landed m (s.inSight instr f w loads) (lhsReg instr)
  else if m = .abort then s.reg (lhsReg instr)
  else s.inSight instr f w loads (lhsReg instr)

/-- What must hold for a load of user registers: the link is there before, for the abort's goes
to the user's register 14. -/
structure UserLeavesBase (s : State U) (m : Mode32) (pc instr : ARMword) (f : BlockMode)
    (w : Bool) (loads : List (RegNo × ARMword)) : Prop where
  link : s.slot .abort 14 = pc + 8
  early : s.lateabtSig = false → s.userLeftBase m instr f w loads = s.reg (lhsReg instr)
  late : s.lateabtSig = true → w = true →
    s.userLeftBase m instr f w loads = s.finalBase instr f

theorem UserSight.slot_base {u : State U} (hs : s.Executing m pc)
    (h : s.UserSight t m (s.inSight instr f w loads)) (hu : t.AbortedFrom u m)
    (h15 : lhsReg instr ≠ 15) :
    u.fromUserBank.slot (homeBank m.bank (lhsReg instr)) (lhsReg instr) =
      s.userLeftBase m instr f w loads := by
  obtain ⟨-, huser, hown⟩ := h.slot_load hu
  rw [userLeftBase]
  by_cases hmu : homeBank m.bank (lhsReg instr) = .user
  · rw [if_pos hmu, hmu, huser _ h15]
  · rw [if_neg hmu, hown _ h15 hmu]
    by_cases hm : m = .abort
    · rw [if_pos ((homeBank_abort_iff hmu).mpr hm), if_pos hm, reg_of_executing hs]
    · rw [if_neg fun h => hm ((homeBank_abort_iff hmu).mp h), if_neg hm]

theorem loadSMult_user_abort_iff (hs : s.Executing m pc) (ha : s.aborted = 0)
    (h15 : lhsReg instr ≠ 15) (ho : bits instr 20 27 = f.opcode w true + 4)
    (hpc : 15 ∉ regList instr)
    (h : readAll (ops.readWord s.cpu) s.mmu (s.block instr f) = none) :
    ∃ t, s.blockTransfer ops instr = some t ∧ (s.LoadAbortKept t m pc instr f w ↔
      s.UserLeavesBase m pc instr f w (s.loadsUntil ops instr f)) := by
  obtain ⟨wbBase, hbt, hwb⟩ := blockTransfer_opcode f w true true ops s ho
  obtain ⟨n, hn⟩ := s.busUsedIncPcS_eq
  have hne : regList instr ≠ [] := by
    intro he
    rw [block, he] at h
    cases h
  have hbit : instr.getLsbD 15 = false := Bool.eq_false_iff.mpr fun h => hpc (mem_regList.mpr h)
  have hv (vals : List ARMword) (mmu : MmuState U) :=
    sight_at_fault hs n hpc (writesBack_of_opcode f w true true ho) hwb vals mmu
  have hu (vals : List ARMword) (mmu : MmuState U) :=
    abortedFrom_abort (hv vals mmu).mode (hv vals mmu).prog32Sig (hv vals mmu).tFlag
  obtain ⟨mmu, ht⟩ := loadSMult_fails (s := s) wbBase hne hbit ha
    (congrArg inUserBank hn.symm) (fun vals mmu => (hu vals mmu).mode) h
  have hv := hv (readUntil (ops.readWord s.cpu) s.mmu (s.block instr f)) mmu
  have hu := hu (readUntil (ops.readWord s.cpu) s.mmu (s.block instr f)) mmu
  have hblock : s.block instr f = wordAddrs (f.start (s.reg (lhsReg instr)) (regList instr).length)
      (regList instr).length := rfl
  rw [← hblock] at ht
  have hbase := hv.slot_base hs hu h15
  obtain ⟨hlink, -, -⟩ := hv.slot_load hu
  have hspsr := hu.spsr.trans hv.getCPSR
  generalize ((s.advance n).inUserBank.failed (regList instr) (readUntil (ops.readWord s.cpu) s.mmu
    (s.block instr f)) mmu).writeBackLate instr wbBase = u at hbase hlink hspsr ht
  have hspsr' : (u.abort DATAABORTV).fromUserBank.spsr .abort = s.getCPSR := by
    rw [fromUserBank, switchMode_spsr, hspsr]
  generalize (u.abort DATAABORTV).fromUserBank = v at hbase hlink hspsr' ht
  refine ⟨_, hbt.trans ht, ?_⟩
  constructor
  · intro hk
    refine ⟨hlink.symm.trans hk.link, fun h => ?_, fun h hw => ?_⟩
    · exact hbase.symm.trans (hk.early h)
    · exact hbase.symm.trans (hk.late h hw)
  · intro hk
    exact ⟨fun h => hbase.trans (hk.early h), fun h hw => hbase.trans (hk.late h hw),
      hlink.trans hk.link, hspsr'⟩

/-! ## Every form -/

theorem Running.executing (hs : s.Running m pc) (ht : s.tFlag = false) : s.Executing m pc :=
  ⟨hs.inMode, hs.prog32Sig, ht, by
    rw [hs.pc, insnSize, ht]
    rfl⟩

/-- An `LDM` whose block cannot be read to its end follows the abort model exactly in these
cases, in every mode, for every list and for a fault at any of its words. -/
theorem load_abort_model_iff (ops : MmuOps U) (instr : ARMword) (f : BlockMode) (w : Bool)
    (hs : s.Running m pc) (ha : s.aborted = 0) (h15 : lhsReg instr ≠ 15)
    (h : readAll (ops.readWord s.cpu) s.mmu (s.block instr f) = none) :
    let loads := s.loadsUntil ops instr f
    (bits instr 20 27 = f.opcode w true → ∃ t, s.blockTransfer ops instr = some t ∧
      (s.LoadAbortKept t m pc instr f w ↔ s.LeavesBase m instr f w false loads)) ∧
    (bits instr 20 27 = f.opcode w true + 4 → s.tFlag = false → 15 ∈ regList instr →
      ∃ t, s.blockTransfer ops instr = some t ∧
        (s.LoadAbortKept t m pc instr f w ↔
          s.LeavesBase m instr f w (w && s.lateabtSig) loads)) ∧
    (bits instr 20 27 = f.opcode w true + 4 → s.tFlag = false → 15 ∉ regList instr →
      ∃ t, s.blockTransfer ops instr = some t ∧
        (s.LoadAbortKept t m pc instr f w ↔ s.UserLeavesBase m pc instr f w loads)) :=
  ⟨fun ho => loadMult_abort_iff hs ha h15 ho h,
    fun ho ht hpc => loadSMult_pc_abort_iff (hs.executing ht) ha h15 ho hpc h,
    fun ho ht hpc => loadSMult_user_abort_iff (hs.executing ht) ha h15 ho hpc h⟩

/-- `LDMIA r0!, {r1, r2}` at the end of the memory that is mapped: the second word faults, and in
the early abort model the base is as before. -/
theorem load_abort_model_iff_ldmia :
    let s : State Arm920t := { (({ Arm920t.boot with mmu := Arm920t.oneSection 0x802 1 } :
      State Arm920t).setReg 15 8).setReg 0 0xFFFFC with lateabtSig := false }
    ∃ t, s.blockTransfer (Arm920t.ops 0) 0xE8B00006 = some t ∧
      s.LoadAbortKept t .svc 0 0xE8B00006 .ia true := by
  intro s
  obtain ⟨t, ht, hk⟩ := (@load_abort_model_iff _ s .svc 0 (Arm920t.ops 0)
    0xE8B00006 .ia true ⟨⟨rfl, rfl⟩, rfl, rfl⟩ rfl (by decide)
    (Option.isNone_iff_eq_none.mp (by decide +kernel))).1 (by decide)
  refine ⟨t, ht, hk.mpr ⟨rfl, fun _ => ?_, nofun⟩⟩
  decide +kernel

/-- `LDMIA r0!, {r1}` from a page that is not mapped: the late abort model wants the base written
back. -/
theorem load_abort_loses_writeback :
    let s := Arm920t.unmapped.setReg 15 8
    s.Running .svc 0 ∧ s.aborted = 0 ∧ s.lateabtSig = true ∧
      readAll ((Arm920t.ops 0).readWord s.cpu) s.mmu (s.block 0xE8B00002 .ia) = none ∧
      ∃ t, s.blockTransfer (Arm920t.ops 0) 0xE8B00002 = some t ∧
        ¬ s.LoadAbortKept t .svc 0 0xE8B00002 .ia true := by
  intro s
  have hs : s.Running .svc 0 := ⟨⟨rfl, rfl⟩, rfl, rfl⟩
  have hf : readAll ((Arm920t.ops 0).readWord s.cpu) s.mmu (s.block 0xE8B00002 .ia) = none :=
    Option.isNone_iff_eq_none.mp (by decide +kernel)
  obtain ⟨t, ht, hk⟩ := @loadMult_abort_iff _ _ _ _ 0xE8B00002 _ .ia true hs rfl
    (by decide) (by decide) hf
  have hl : s.loadsUntil (Arm920t.ops 0) 0xE8B00002 .ia = [] := by decide +kernel
  refine ⟨hs, rfl, rfl, hf, t, ht, fun h => ?_⟩
  have hlate := (hk.mp h).late rfl rfl
  rw [hl] at hlate
  exact absurd hlate (by decide +kernel)

end SkyEye.State
