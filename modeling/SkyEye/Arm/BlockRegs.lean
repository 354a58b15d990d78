import SkyEye.Arm.Block
import SkyEye.Lib.StoreView

/-!
# Block transfers as accesses in sequence

The two loops of a block transfer, over the registers of the list in order: without
aborts, a load reads the words from an address up and puts them into the registers, a
store writes the registers to the words.
-/

namespace SkyEye

open Cells StoreView

/-! ## The register list -/

/-- A register is in the list. -/
def listed (instr : ARMword) (r : RegNo) : Bool := instr.getLsbD r

/-- The registers of the list, lowest first. -/
def regList (instr : ARMword) : List RegNo := (List.finRange 16).filter (listed instr)

theorem nodup_regList (instr : ARMword) : (regList instr).Nodup :=
  (List.nodup_finRange 16).filter _

theorem mem_regList {instr : ARMword} {r : RegNo} : r ∈ regList instr ↔ instr.getLsbD r = true := by
  simp [regList, listed]

/-- The scan for the first register leaves the rest of the list to the loop. -/
theorem regList_eq_cons {instr : ARMword} {r : RegNo} (h : firstReg instr = some r) :
    regList instr = r :: (regsAfter r).filter (listed instr) := by
  obtain ⟨hr, as, bs, hl, has⟩ := List.find?_eq_some_iff_append.mp h
  have hlen : as.length = r.val := by
    have hlt : as.length < (List.finRange 16).length := by
      rw [hl]
      simp
    have hget : (List.finRange 16)[as.length] = r := by
      simp [hl]
    rw [List.getElem_finRange] at hget
    exact congrArg Fin.val hget
  have hafter : regsAfter r = bs := by
    rw [regsAfter, hl, ← hlen]
    simp
  have hnone : as.filter (listed instr) = [] := by
    rw [List.filter_eq_nil_iff]
    intro a ha
    simpa [listed] using has a ha
  rw [regList, hafter, hl, List.filter_append, hnone, List.nil_append]
  exact List.filter_cons_of_pos hr

theorem exists_firstReg {instr : ARMword} (h : regList instr ≠ []) : ∃ r, firstReg instr = some r := by
  rw [← Option.isSome_iff_exists, firstReg, List.find?_isSome]
  obtain ⟨r, hr⟩ := List.exists_mem_of_ne_nil _ h
  exact ⟨r, List.mem_finRange r, mem_regList.mp hr⟩

/-- `LSMNumRegs` is four times the length of the list. -/
theorem lsmNumRegs_eq (instr : ARMword) :
    lsmNumRegs instr = BitVec.ofNat 32 (4 * (regList instr).length) := by
  have hval : (regList instr).length =
      ((List.range 16).filter fun i => instr.getLsbD i).length := by
    rw [regList, ← List.map_coe_finRange_eq_range, List.filter_map, List.length_map]
    rfl
  have hlow (i : Nat) (hi : i ∈ List.range 8) :
      (instr.extractLsb' 0 8).getLsbD i = instr.getLsbD i := by
    have := List.mem_range.mp hi
    simp [this]
  have hhigh (i : Nat) (hi : i ∈ List.range 8) :
      (instr.extractLsb' 8 8).getLsbD i = instr.getLsbD (8 + i) := by
    have := List.mem_range.mp hi
    simp [this]
  have hrange : List.range 16 = List.range 8 ++ (List.range 8).map (8 + ·) := rfl
  have hmap : (((List.range 8).map (8 + ·)).filter fun i => instr.getLsbD i).length =
      ((List.range 8).filter fun i => instr.getLsbD (8 + i)).length := by
    rw [List.filter_map, List.length_map]
    rfl
  rw [lsmNumRegs, bitList, bitList, List.filter_congr hlow, List.filter_congr hhigh, hval, hrange,
    List.filter_append, List.length_append, hmap, Nat.mul_add, BitVec.ofNat_add]

/-! ## The words -/

/-- The addresses of `n` words from `start` up. -/
def wordAddrs (start : ARMword) (n : Nat) : List ARMword :=
  (List.range n).map fun i => start + BitVec.ofNat 32 (4 * i)

theorem wordAddrs_succ (start : ARMword) (n : Nat) :
    wordAddrs start (n + 1) = start :: wordAddrs (start + 4) n := by
  rw [wordAddrs, List.range_succ_eq_map, List.map_cons, List.map_map, wordAddrs]
  refine congrArg₂ _ (BitVec.add_zero start) (List.map_congr_left fun i _ => ?_)
  show start + BitVec.ofNat 32 (4 * (i + 1)) = start + 4 + BitVec.ofNat 32 (4 * i)
  rw [Nat.mul_add, BitVec.ofNat_add, BitVec.add_assoc, BitVec.add_comm 4]
  rfl

@[simp] theorem length_wordAddrs (start : ARMword) (n : Nat) : (wordAddrs start n).length = n := by
  simp [wordAddrs]

namespace MmuOps

variable {U : Type} (ops : MmuOps U) (cpu : Cpu)

/-- A word read that may fault. -/
def readWord (mmu : MmuState U) (address : ARMword) : Option (ARMword × MmuState U) :=
  match ops.read cpu mmu address .word with
  | (.ok data, mmu) => some (data, mmu)
  | (.error _, _) => none

/-- A word write that may fault. -/
def writeWord (mmu : MmuState U) (address data : ARMword) : Option (MmuState U) :=
  match ops.write cpu mmu address .word data with
  | (none, mmu) => some mmu
  | (some _, _) => none

variable {ops cpu} {mmu mmu' : MmuState U} {address data : ARMword}

theorem read_of_readWord (h : ops.readWord cpu mmu address = some (data, mmu')) :
    ops.read cpu mmu address .word = (.ok data, mmu') := by
  unfold readWord at h
  split at h
  · rename_i he
    cases h
    exact he
  · cases h

theorem write_of_writeWord (h : ops.writeWord cpu mmu address data = some mmu') :
    ops.write cpu mmu address .word data = (none, mmu') := by
  unfold writeWord at h
  split at h
  · rename_i he
    cases h
    exact he
  · cases h

end MmuOps

/-! ## The loops -/

namespace State

variable {U : Type} {ops : MmuOps U} {s : State U} {instr : ARMword}

/-- Words have been loaded into registers. -/
def loaded (s : State U) (rs : List RegNo) (vals : List ARMword) (mmu : MmuState U) : State U :=
  { s with reg := replay s.reg (rs.zip vals), mmu := mmu, abortSig := false }

theorem loaded_nil (hs : s.abortSig = false) : s.loaded [] [] s.mmu = s := by
  obtain ⟨⟩ := s
  cases hs
  rfl

theorem loadReg_of_read (ha : s.aborted = 0) {r : RegNo} {address v : ARMword} {mmu : MmuState U}
    (h : ops.readWord s.cpu s.mmu address = some (v, mmu)) :
    loadReg r (ops.readData s .word address) = s.loaded [r] [v] mmu := by
  have hc : (!(s.accessed mmu).abortSig && (s.accessed mmu).aborted == 0) = true := by
    show (!false && s.aborted == 0) = true
    rw [ha]
    rfl
  rw [MmuOps.readData_ok (MmuOps.read_of_readWord h), loadReg, if_pos hc]
  rfl

/-- The loop of a load, over what is left of the list. -/
theorem loadRegs_eq {rs : List RegNo} {address : ARMword} {vals : List ARMword} {mmu : MmuState U}
    (ha : s.aborted = 0) (hs : s.abortSig = false)
    (h : readAll (ops.readWord s.cpu) s.mmu
      (wordAddrs (address + 4) (rs.filter (listed instr)).length) = some (vals, mmu)) :
    loadRegs ops instr s address rs = s.loaded (rs.filter (listed instr)) vals mmu := by
  induction rs generalizing s address vals with
  | nil =>
    cases h
    exact (loaded_nil hs).symm
  | cons r rs ih =>
    rw [loadRegs]
    by_cases hr : listed instr r = true
    · rw [List.filter_cons_of_pos hr] at h ⊢
      rw [List.length_cons, wordAddrs_succ] at h
      obtain ⟨v, mmu₁, vals', hv, hvals, rfl⟩ := readAll_cons.mp h
      have hl := loadReg_of_read (r := r) ha hv
      have hz : (s.loaded [r] [v] mmu₁).aborted = 0 := ha
      dsimp only
      rw [if_pos (show instr.getLsbD r = true from hr), MmuOps.loadWordS, hl, if_neg (not_not.mpr hz)]
      exact ih (s := s.loaded [r] [v] mmu₁) hz rfl hvals
    · rw [List.filter_cons_of_neg hr] at h ⊢
      rw [if_neg (show ¬ instr.getLsbD r = true from hr)]
      exact ih ha hs h

theorem storeWord_of_write {r : RegNo} {address : ARMword} {mmu : MmuState U}
    (h : ops.writeWord s.cpu s.mmu address (s.reg r) = some mmu) :
    (ops.writeData s .word address (s.reg r)).noteAbort = s.accessed mmu := by
  rw [MmuOps.writeData_ok (MmuOps.write_of_writeWord h)]
  rfl

/-- The loop of a store. -/
theorem storeRegs_eq {rs : List RegNo} {address : ARMword} {mmu : MmuState U}
    (ha : s.aborted = 0) (hs : s.abortSig = false)
    (h : writeAll (ops.writeWord s.cpu) s.mmu
      ((wordAddrs (address + 4) (rs.filter (listed instr)).length).zip
        ((rs.filter (listed instr)).map s.reg)) = some mmu) :
    storeRegs ops instr s address rs = s.accessed mmu := by
  induction rs generalizing s address with
  | nil =>
    cases h
    obtain ⟨⟩ := s
    cases hs
    rfl
  | cons r rs ih =>
    rw [storeRegs]
    by_cases hr : listed instr r = true
    · rw [List.filter_cons_of_pos hr, List.length_cons, wordAddrs_succ, List.map_cons,
        List.zip_cons_cons] at h
      obtain ⟨mmu₁, hw, hrest⟩ := writeAll_cons.mp h
      have hz : (s.accessed mmu₁).aborted = 0 := ha
      dsimp only
      rw [if_pos (show instr.getLsbD r = true from hr), MmuOps.storeWordS, storeWord_of_write hw,
        if_neg (not_not.mpr hz)]
      exact ih (s := s.accessed mmu₁) hz rfl hrest
    · rw [List.filter_cons_of_neg hr] at h
      rw [if_neg (show ¬ instr.getLsbD r = true from hr)]
      exact ih ha hs h

/-! ## The whole transfer -/

/-- Whether the write-back of a transfer without aborts happens is the instruction's alone. -/
def wroteBack (s : State U) (instr wbBase : ARMword) : State U :=
  if writesBack instr then s.setLSBase instr wbBase else s

theorem writeBackLate_eq (ha : s.aborted = 0) (wbBase : ARMword) :
    s.writeBackLate instr wbBase = s.wroteBack instr wbBase := by
  simp [writeBackLate, wroteBack, ha]

/-- The pipeline step of a store: none in Thumb state. -/
def storeAdvance (s : State U) : State U := if s.tFlag then s else s.busUsedIncPcN

/-- The mode, the banks out of sight and the saved status words are the same. -/
def SameBanks (t s : State U) : Prop :=
  t.mode = s.mode ∧ t.bank = s.bank ∧ t.regBank = s.regBank ∧ t.spsr = s.spsr

/-- A pipeline step changes register 15 at most, and no memory. -/
structure Stepped (s t : State U) : Prop where
  reg : ∀ r, r ≠ 15 → t.reg r = s.reg r
  cpu : t.cpu = s.cpu
  mmu : t.mmu = s.mmu
  aborted : t.aborted = s.aborted
  banks : t.SameBanks s

theorem stepped_busUsedIncPcS : s.Stepped s.busUsedIncPcS := by
  rw [busUsedIncPcS]
  split
  · exact ⟨fun _ _ => rfl, rfl, rfl, rfl, rfl, rfl, rfl, rfl⟩
  · exact ⟨fun r hr => setReg_reg_of_ne hr _, rfl, rfl, rfl, rfl, rfl, rfl, rfl⟩

theorem stepped_storeAdvance : s.Stepped s.storeAdvance := by
  rw [storeAdvance, busUsedIncPcN]
  split
  · exact ⟨fun _ _ => rfl, rfl, rfl, rfl, rfl, rfl, rfl, rfl⟩
  · split
    · exact ⟨fun _ _ => rfl, rfl, rfl, rfl, rfl, rfl, rfl, rfl⟩
    · exact ⟨fun r hr => setReg_reg_of_ne hr _, rfl, rfl, rfl, rfl, rfl, rfl, rfl⟩

/-- A load whose list has register 15 branches there. -/
def branched (s : State U) (instr : ARMword) : State U :=
  if instr.getLsbD 15 then s.writeR15Branch (s.reg 15) else s

theorem branched_aborted (instr : ARMword) : (s.branched instr).aborted = s.aborted := by
  rw [branched, writeR15Branch]
  dsimp only
  split
  · split <;> rfl
  · rfl

theorem loadMult_eq {address wbBase : ARMword} {vals : List ARMword} {mmu : MmuState U}
    (ha : s.aborted = 0) (hne : regList instr ≠ [])
    (h : readAll (ops.readWord s.cpu) s.mmu (wordAddrs address (regList instr).length) =
      some (vals, mmu)) :
    s.loadMult ops instr address wbBase =
      some (((s.busUsedIncPcS.loaded (regList instr) vals mmu).branched instr).icycles.wroteBack
        instr wbBase) := by
  obtain ⟨r, hr⟩ := exists_firstReg hne
  obtain ⟨-, hcpu, hmmu, hab, -⟩ := stepped_busUsedIncPcS (s := s)
  rw [regList_eq_cons hr, List.length_cons, wordAddrs_succ, ← hcpu, ← hmmu] at h
  obtain ⟨v, mmu₁, vals', hv, hvals, rfl⟩ := readAll_cons.mp h
  have ha' : s.busUsedIncPcS.aborted = 0 := hab.trans ha
  have hfirst := loadReg_of_read (r := r) ha' hv
  have hrest := loadRegs_eq (s := s.busUsedIncPcS.loaded [r] [v] mmu₁) ha' rfl hvals
  have hall : (s.busUsedIncPcS.loaded [r] [v] mmu₁).loaded ((regsAfter r).filter (listed instr))
      vals' mmu = s.busUsedIncPcS.loaded (regList instr) (v :: vals') mmu := by
    rw [regList_eq_cons hr]
    rfl
  rw [loadMult, hr, Option.map_some]
  dsimp only
  have hz : (s.busUsedIncPcS.loaded [r] [v] mmu₁).aborted = 0 := ha'
  have ht : (s.busUsedIncPcS.loaded (regList instr) (v :: vals') mmu).aborted = 0 := ha'
  rw [MmuOps.loadWordN, hfirst]
  simp only [hz, ne_eq, not_true_eq_false, if_false]
  rw [hrest, hall]
  generalize s.busUsedIncPcS.loaded (regList instr) (v :: vals') mmu = t at ht ⊢
  have hb : (if (instr.getLsbD 15 && t.aborted == 0) = true then t.writeR15Branch (t.reg 15)
      else t) = t.branched instr := by
    rw [ht, branched]
    simp
  have hi : (t.branched instr).icycles.aborted = 0 := (branched_aborted instr).trans ht
  rw [hb, hi, if_neg (not_not.mpr rfl), wroteBack]

theorem storeMult_eq {address wbBase : ARMword} {mmu : MmuState U}
    (ha : s.aborted = 0) (hne : regList instr ≠ [])
    (h : writeAll (ops.writeWord s.cpu) s.mmu ((wordAddrs address (regList instr).length).zip
      ((regList instr).map s.storeAdvance.reg)) = some mmu) :
    s.storeMult ops instr address wbBase =
      some ((s.storeAdvance.accessed mmu).wroteBack instr wbBase) := by
  obtain ⟨r, hr⟩ := exists_firstReg hne
  obtain ⟨-, hcpu, hmmu, hab, -⟩ := stepped_storeAdvance (s := s)
  rw [regList_eq_cons hr, List.length_cons, wordAddrs_succ, List.map_cons, List.zip_cons_cons,
    ← hcpu, ← hmmu] at h
  obtain ⟨mmu₁, hw, hrest⟩ := writeAll_cons.mp h
  have ha' : s.storeAdvance.aborted = 0 := hab.trans ha
  have hloop := storeRegs_eq (s := s.storeAdvance.accessed mmu₁) ha' rfl hrest
  have hfirst : (ops.storeWordN s.storeAdvance address (s.storeAdvance.reg r)).noteAbort =
      s.storeAdvance.accessed mmu₁ := storeWord_of_write hw
  have hz : (s.storeAdvance.accessed mmu₁).aborted = 0 := ha'
  have hz' : (s.storeAdvance.accessed mmu).aborted = 0 := ha'
  have hback : ((s.storeAdvance.accessed mmu).wroteBack instr wbBase).aborted = 0 := by
    rw [wroteBack]
    split <;> exact ha'
  rw [storeMult, hr, Option.map_some]
  dsimp only
  have hfold : (if s.tFlag = true then s else s.busUsedIncPcN) = s.storeAdvance := rfl
  rw [hfold, hfirst]
  simp only [hz, ne_eq, not_true_eq_false, if_false]
  have hacc : (s.storeAdvance.accessed mmu₁).accessed mmu = s.storeAdvance.accessed mmu := rfl
  rw [hloop, hacc, writeBackLate_eq hz', hback, if_neg (not_not.mpr rfl)]

end State

end SkyEye
