import SkyEye.Arm.BlockRegs
import SkyEye.Arm.MmuModels

/-!
# The addressing forms of block transfers

The four addressing modes as the architecture has them: where the block of words starts
and what base is written back. Each opcode of the main switch hands its own arithmetic
for these to the transfer; without aborts a load then puts the words of the block into
the registers of the list, lowest register first, and a store the registers into the
words. A store is undone by the load of the opposite mode.
-/

namespace SkyEye

open Cells StoreView

/-- Decrement or increment, after or before each transfer. -/
inductive BlockMode where
  | da
  | ia
  | db
  | ib
  deriving DecidableEq, Repr

namespace BlockMode

/-- The bytes that a list of `n` registers fills. -/
def size (n : Nat) : ARMword := BitVec.ofNat 32 (4 * n)

/-- The lowest address of the block. -/
def start (f : BlockMode) (base : ARMword) (n : Nat) : ARMword :=
  match f with
  | da => base - size n + 4
  | ia => base
  | db => base - size n
  | ib => base + 4

/-- The base to write back. -/
def final (f : BlockMode) (base : ARMword) (n : Nat) : ARMword :=
  match f with
  | da | db => base - size n
  | ia | ib => base + size n

/-- Bits 20 to 27 of an instruction without the S bit. -/
def opcode (f : BlockMode) (writeBack load : Bool) : Nat :=
  (match f with
    | da => 0x80
    | ia => 0x88
    | db => 0x90
    | ib => 0x98) + 2 * writeBack.toNat + load.toNat

/-- The mode that walks over the same words the other way. -/
def opposite : BlockMode → BlockMode
  | da => ib
  | ia => db
  | db => ia
  | ib => da

theorem start_opposite (f : BlockMode) (base : ARMword) (n : Nat) :
    f.opposite.start (f.final base n) n = f.start base n := by
  cases f with
  | da => rfl
  | ia => exact BitVec.add_sub_cancel base (size n)
  | db => rfl
  | ib => exact congrArg (· + 4) (BitVec.add_sub_cancel base (size n))

theorem final_opposite (f : BlockMode) (base : ARMword) (n : Nat) :
    f.opposite.final (f.final base n) n = base := by
  cases f with
  | da | db => exact BitVec.sub_add_cancel base (size n)
  | ia | ib => exact BitVec.add_sub_cancel base (size n)

end BlockMode

namespace State

variable {U : Type} {ops : MmuOps U} {s : State U} {instr : ARMword}

/-- The words of the block, in order. -/
def block (s : State U) (instr : ARMword) (f : BlockMode) : List ARMword :=
  wordAddrs (f.start (s.reg (lhsReg instr)) (regList instr).length) (regList instr).length

/-- The base after the transfer. -/
def finalBase (s : State U) (instr : ARMword) (f : BlockMode) : ARMword :=
  f.final (s.reg (lhsReg instr)) (regList instr).length

/-- Bit 21 is bit 1 of the opcode. -/
theorem writesBack_eq (instr : ARMword) :
    writesBack instr = ((bits instr 20 27).testBit 1 && lhsReg instr != 15) := by
  have he : instr.getLsbD 21 = (bits instr 20 27).testBit 1 := by
    rw [bits, BitVec.testBit_toNat, BitVec.getLsbD_extractLsb']
    rfl
  rw [writesBack, he]

/-- What a block transfer runs, by its bits L and S. -/
def blockMult (load user : Bool) (ops : MmuOps U) (s : State U) (instr address wbBase : ARMword) :
    Option (State U) :=
  match load, user with
  | true, false => s.loadMult ops instr address wbBase
  | true, true => s.loadSMult ops instr address wbBase
  | false, false => s.storeMult ops instr address wbBase
  | false, true => s.storeSMult ops instr address wbBase

section

variable (f : BlockMode) (w l u : Bool)

theorem writesBack_of_opcode (h : bits instr 20 27 = f.opcode w l + 4 * u.toNat) :
    writesBack instr = (w && lhsReg instr != 15) := by
  have hb : (f.opcode w l + 4 * u.toNat).testBit 1 = w := by
    cases f <;> cases w <;> cases l <;> cases u <;> rfl
  rw [writesBack_eq, h, hb]

/-- Each opcode starts at its mode's address with its mode's base. -/
theorem blockTransfer_opcode (ops : MmuOps U) (s : State U)
    (h : bits instr 20 27 = f.opcode w l + 4 * u.toNat) :
    ∃ wbBase, s.blockTransfer ops instr =
        blockMult l u ops s instr (f.start (s.reg (lhsReg instr)) (regList instr).length) wbBase ∧
      (w = true → wbBase = s.finalBase instr f) := by
  unfold blockTransfer
  rw [h, lsmNumRegs_eq]
  cases f <;> cases w <;> cases l <;> cases u <;>
    first
    | exact ⟨_, rfl, fun _ => rfl⟩
    | exact ⟨_, rfl, nofun⟩

end

/-! ## Registers -/

theorem setReg_apply (s : State U) (r : RegNo) (v : ARMword) (r' : RegNo) :
    (s.setReg r v).reg r' = if r' = r then v else s.reg r' := Function.update_apply ..

theorem wroteBack_reg (s : State U) (instr wbBase : ARMword) (r : RegNo) :
    (s.wroteBack instr wbBase).reg r =
      if writesBack instr = true ∧ r = lhsReg instr then wbBase else s.reg r := by
  rw [wroteBack]
  by_cases hw : writesBack instr = true
  · rw [if_pos hw, setLSBase, setReg_apply]
    simp only [hw, true_and]
  · rw [if_neg hw, if_neg fun h => hw h.1]

/-- Where a loaded register 15 leads: bit 0 selects the instruction set. -/
def branchTarget (v : ARMword) : ARMword :=
  if v &&& 1 != 0 then v &&& 0xfffffffe else v &&& 0xfffffffc

theorem branched_reg (s : State U) (instr : ARMword) (r : RegNo) :
    (s.branched instr).reg r =
      if instr.getLsbD 15 = true ∧ r = 15 then branchTarget (s.reg 15) else s.reg r := by
  rw [branched]
  by_cases hb : instr.getLsbD 15 = true
  · rw [if_pos hb, writeR15Branch, branchTarget]
    dsimp only
    by_cases h1 : (s.reg 15 &&& 1 != 0) = true
    · rw [if_pos h1, if_pos h1]
      show (s.setReg 15 _).reg r = _
      rw [setReg_apply]
      simp only [hb, true_and]
    · rw [if_neg h1, if_neg h1]
      show (s.setReg 15 _).reg r = _
      rw [setReg_apply]
      simp only [hb, true_and]
  · rw [if_neg hb, if_neg fun h => hb h.1]

theorem SameBanks.trans {t u : State U} (h : u.SameBanks t) (h' : t.SameBanks s) : u.SameBanks s :=
  ⟨h.1.trans h'.1, h.2.1.trans h'.2.1, h.2.2.1.trans h'.2.2.1, h.2.2.2.trans h'.2.2.2⟩

theorem wroteBack_eq (s : State U) (instr wbBase : ARMword) :
    s.wroteBack instr wbBase = { s with reg := (s.wroteBack instr wbBase).reg } := by
  rw [wroteBack]
  split <;> rfl

/-- What the end of a load leaves as it is; a branch has set the T flag. -/
theorem transferred_frame (s : State U) (instr wbBase : ARMword) :
    let t := (s.branched instr).icycles.wroteBack instr wbBase
    t.mmu = s.mmu ∧ t.aborted = s.aborted ∧ t.cpu = s.cpu ∧ t.SameBanks s ∧
      (instr.getLsbD 15 = true → t.tFlag = (s.reg 15 &&& 1 != 0)) := by
  rw [wroteBack_eq, branched]
  by_cases hb : instr.getLsbD 15 = true
  · rw [if_pos hb, writeR15Branch]
    dsimp only
    by_cases h1 : (s.reg 15 &&& 1 != 0) = true
    · rw [if_pos h1]
      exact ⟨rfl, rfl, rfl, ⟨rfl, rfl, rfl, rfl⟩, fun _ => h1.symm⟩
    · rw [if_neg h1]
      exact ⟨rfl, rfl, rfl, ⟨rfl, rfl, rfl, rfl⟩, fun _ => (Bool.eq_false_iff.mpr h1).symm⟩
  · rw [if_neg hb]
    exact ⟨rfl, rfl, rfl, ⟨rfl, rfl, rfl, rfl⟩, fun h => absurd h hb⟩

/-- A register of the list holds the word loaded for it. -/
theorem loaded_reg {rs : List RegNo} (hn : rs.Nodup) {vals : List ARMword}
    (hlen : vals.length = rs.length) {mmu : MmuState U} {i : Nat} {r : RegNo} {v : ARMword}
    (hr : rs[i]? = some r) (hv : vals[i]? = some v) : (s.loaded rs vals mmu).reg r = v := by
  have hmem : (r, v) ∈ rs.zip vals := by
    apply List.mem_of_getElem? (i := i)
    rw [List.getElem?_zip_eq_some]
    exact ⟨hr, hv⟩
  have hd : ((rs.zip vals).map Prod.fst).Nodup := by
    rw [List.map_fst_zip (Nat.le_of_eq hlen.symm)]
    exact hn
  exact replay_of_nodup hd hmem

theorem loaded_reg_of_notMem {rs : List RegNo} {vals : List ARMword} {mmu : MmuState U} {r : RegNo}
    (hr : r ∉ rs) : (s.loaded rs vals mmu).reg r = s.reg r := by
  refine replay_of_notMem fun h => hr ?_
  obtain ⟨p, hp, rfl⟩ := List.mem_map.mp h
  exact (List.of_mem_zip hp).1

/-! ## What a transfer does -/

/-- A load of the words `vals`, in the order of the list. -/
structure LoadResult (s t : State U) (instr : ARMword) (f : BlockMode) (w : Bool)
    (vals : List ARMword) (mmu : MmuState U) : Prop where
  mmu : t.mmu = mmu
  aborted : t.aborted = 0
  cpu : t.cpu = s.cpu
  banks : t.SameBanks s
  listed : ∀ (i : Nat) r v, (regList instr)[i]? = some r → vals[i]? = some v → r ≠ 15 →
    ¬ (w = true ∧ r = lhsReg instr) → t.reg r = v
  pc : ∀ (i : Nat) v, (regList instr)[i]? = some 15 → vals[i]? = some v →
    t.reg 15 = branchTarget v ∧ t.tFlag = (v &&& 1 != 0)
  others : ∀ r, r ∉ regList instr → r ≠ 15 → ¬ (w = true ∧ r = lhsReg instr) → t.reg r = s.reg r
  base : w = true → lhsReg instr ≠ 15 → t.reg (lhsReg instr) = s.finalBase instr f

/-- A store changes no register but the base and register 15. -/
structure StoreResult (s t : State U) (instr : ARMword) (f : BlockMode) (w : Bool)
    (mmu : MmuState U) : Prop where
  mmu : t.mmu = mmu
  aborted : t.aborted = 0
  cpu : t.cpu = s.cpu
  banks : t.SameBanks s
  others : ∀ r, r ≠ 15 → ¬ (w = true ∧ r = lhsReg instr) → t.reg r = s.reg r
  base : w = true → lhsReg instr ≠ 15 → t.reg (lhsReg instr) = s.finalBase instr f

/-- The words a store writes, with their addresses. Register 15 may be a step ahead. -/
def stores (s : State U) (instr : ARMword) (f : BlockMode) : List (ARMword × ARMword) :=
  (s.block instr f).zip ((regList instr).map s.storeAdvance.reg)

theorem load_result {f : BlockMode} {w : Bool} (ha : s.aborted = 0) (hne : regList instr ≠ [])
    (ho : bits instr 20 27 = f.opcode w true) {vals : List ARMword} {mmu : MmuState U}
    (h : readAll (ops.readWord s.cpu) s.mmu (s.block instr f) = some (vals, mmu)) :
    ∃ t, s.blockTransfer ops instr = some t ∧ s.LoadResult t instr f w vals mmu := by
  obtain ⟨wbBase, hbt, hwb⟩ := blockTransfer_opcode f w true false ops s ho
  refine ⟨_, hbt.trans (loadMult_eq ha hne h), ?_⟩
  have hlen : vals.length = (regList instr).length := by
    rw [readAll_length h, block, length_wordAddrs]
  have hstep := stepped_busUsedIncPcS (s := s)
  have hreg (r : RegNo) : ((((s.busUsedIncPcS.loaded (regList instr) vals mmu).branched
      instr).icycles).wroteBack instr wbBase).reg r =
      if writesBack instr = true ∧ r = lhsReg instr then wbBase
      else if instr.getLsbD 15 = true ∧ r = 15 then
        branchTarget ((s.busUsedIncPcS.loaded (regList instr) vals mmu).reg 15)
      else (s.busUsedIncPcS.loaded (regList instr) vals mmu).reg r := by
    rw [wroteBack_reg]
    exact congrArg _ (branched_reg _ instr r)
  rw [writesBack_of_opcode f w true false ho] at hreg
  have hnb {r : RegNo} (hb : ¬ (w = true ∧ r = lhsReg instr)) :
      ¬ ((w && lhsReg instr != 15) = true ∧ r = lhsReg instr) := by
    rintro ⟨hw, hr⟩
    exact hb ⟨(Bool.and_eq_true_iff.mp hw).1, hr⟩
  obtain ⟨hmmu, hab, hcpu, hbanks, htf⟩ := transferred_frame
    (s.busUsedIncPcS.loaded (regList instr) vals mmu) instr wbBase
  refine ⟨hmmu, hab.trans (hstep.aborted.trans ha), hcpu.trans hstep.cpu,
    hbanks.trans hstep.banks, ?_, ?_, ?_, ?_⟩
  · intro i r v hr hv h15 hb
    rw [hreg, if_neg (hnb hb), if_neg fun h => h15 h.2]
    exact loaded_reg (nodup_regList instr) hlen hr hv
  · intro i v hr hv
    have h15 : instr.getLsbD 15 = true := mem_regList.mp (List.mem_of_getElem? hr)
    have hl : (s.busUsedIncPcS.loaded (regList instr) vals mmu).reg 15 = v :=
      loaded_reg (nodup_regList instr) hlen hr hv
    refine ⟨?_, ?_⟩
    · rw [hreg, if_neg, if_pos ⟨h15, rfl⟩, hl]
      rintro ⟨hw, hr⟩
      rw [← hr] at hw
      simp at hw
    · rw [htf h15, hl]
  · intro r hr h15 hb
    rw [hreg, if_neg (hnb hb), if_neg fun h => h15 h.2, loaded_reg_of_notMem hr]
    exact hstep.reg r h15
  · intro hw h15
    rw [hreg, if_pos]
    · exact hwb hw
    · exact ⟨by simp [hw, h15], rfl⟩

theorem store_result {f : BlockMode} {w : Bool} (ha : s.aborted = 0) (hne : regList instr ≠ [])
    (ho : bits instr 20 27 = f.opcode w false) {mmu : MmuState U}
    (h : writeAll (ops.writeWord s.cpu) s.mmu (s.stores instr f) = some mmu) :
    ∃ t, s.blockTransfer ops instr = some t ∧ s.StoreResult t instr f w mmu := by
  obtain ⟨wbBase, hbt, hwb⟩ := blockTransfer_opcode f w false false ops s ho
  refine ⟨_, hbt.trans (storeMult_eq ha hne h), ?_⟩
  have hstep := stepped_storeAdvance (s := s)
  have hreg (r : RegNo) := wroteBack_reg (s.storeAdvance.accessed mmu) instr wbBase r
  rw [writesBack_of_opcode f w false false ho] at hreg
  have hframe := wroteBack_eq (s.storeAdvance.accessed mmu) instr wbBase
  refine ⟨?_, ?_, ?_, ?_, ?_, ?_⟩
  · rw [hframe]
    rfl
  · rw [hframe]
    exact hstep.aborted.trans ha
  · rw [hframe]
    exact hstep.cpu
  · rw [hframe]
    exact hstep.banks
  · intro r h15 hb
    rw [hreg, if_neg]
    · exact hstep.reg r h15
    · rintro ⟨hw, hr⟩
      exact hb ⟨(Bool.and_eq_true_iff.mp hw).1, hr⟩
  · intro hw h15
    rw [hreg, if_pos]
    · exact hwb hw
    · exact ⟨by simp [hw, h15], rfl⟩

/-! ## A load after a store -/

theorem length_regList_le (instr : ARMword) : (regList instr).length ≤ 16 := by
  have h := List.length_filter_le (listed instr) (List.finRange 16)
  rwa [List.length_finRange] at h

/-- The words of a block are different words of memory. -/
theorem nodup_block (s : State U) (instr : ARMword) (f : BlockMode) :
    ((s.block instr f).map Ram.index).Nodup := by
  have hn := length_regList_le instr
  rw [block]
  generalize f.start (s.reg (lhsReg instr)) (regList instr).length = start
  generalize (regList instr).length = n at hn ⊢
  rw [wordAddrs, List.map_map]
  refine List.Nodup.map_on (fun i hi j hj h => ?_) List.nodup_range
  have hi' := List.mem_range.mp hi
  have hj' := List.mem_range.mp hj
  have he := congrArg BitVec.toNat h
  simp only [Function.comp, Ram.toNat_index, BitVec.toNat_add, BitVec.toNat_ofNat] at he
  omega

theorem map_fst_stores (s : State U) (instr : ARMword) (f : BlockMode) :
    (s.stores instr f).map Prod.fst = s.block instr f :=
  List.map_fst_zip (by simp [block])

theorem map_snd_stores (s : State U) (instr : ARMword) (f : BlockMode) :
    (s.stores instr f).map Prod.snd = (regList instr).map s.storeAdvance.reg :=
  List.map_snd_zip (by simp [block])

/-- The mode of the load that undoes a store. -/
def undoMode (f : BlockMode) (w : Bool) : BlockMode := if w then f.opposite else f

/-- The base a store leaves behind. -/
def baseAfter (s : State U) (instr : ARMword) (f : BlockMode) (w : Bool) : ARMword :=
  if w then s.finalBase instr f else s.reg (lhsReg instr)

/-- The load finds the words of the store, and gives the base back. -/
theorem block_undo {s' : State U} {instr' : ARMword} {f : BlockMode} {w : Bool}
    (hl : regList instr' = regList instr) (hb : lhsReg instr' = lhsReg instr)
    (hreg : s'.reg (lhsReg instr) = s.baseAfter instr f w) :
    s'.block instr' (undoMode f w) = s.block instr f ∧
      (w = true → s'.finalBase instr' (undoMode f w) = s.reg (lhsReg instr)) := by
  rw [block, block, finalBase, hl, hb, hreg, baseAfter, undoMode]
  cases w with
  | false => exact ⟨rfl, fun h => by cases h⟩
  | true =>
    simp only [if_true, finalBase, BlockMode.start_opposite, BlockMode.final_opposite, true_and,
      implies_true]

/-- The registers of the list after the load are those before the store. -/
structure ListRestored (s u : State U) (instr : ARMword) : Prop where
  listed : ∀ r, r ∈ regList instr → r ≠ 15 → u.reg r = s.reg r
  pc : 15 ∈ regList instr → u.reg 15 = branchTarget (s.storeAdvance.reg 15)
  base : lhsReg instr ≠ 15 → u.reg (lhsReg instr) = s.reg (lhsReg instr)

theorem store_load {f : BlockMode} {w : Bool} (ha : s.aborted = 0) (hne : regList instr ≠ [])
    (ho : bits instr 20 27 = f.opcode w false) (hbase : lhsReg instr ∉ regList instr)
    (C : CellStore (ops.readWord s.cpu) (ops.writeWord s.cpu) (BitVec 30))
    (hcell : ∀ a, C.cell a = Ram.index a) (hinv : C.Inv s.mmu)
    (hok : ∀ a ∈ s.block instr f, C.Ok a) :
    ∃ t, s.blockTransfer ops instr = some t ∧ s.StoreResult t instr f w t.mmu ∧
      ∀ (s' : State U) (instr' : ARMword), regList instr' = regList instr →
        lhsReg instr' = lhsReg instr → bits instr' 20 27 = (undoMode f w).opcode w true →
        s'.cpu = s.cpu → s'.mmu = t.mmu → s'.aborted = 0 →
        s'.reg (lhsReg instr) = s.baseAfter instr f w →
        ∃ u, s'.blockTransfer ops instr' = some u ∧ s.ListRestored u instr := by
  have hok' (p : ARMword × ARMword) (hp : p ∈ s.stores instr f) : C.Ok p.1 :=
    hok p.1 (List.of_mem_zip hp).1
  have hd : ((s.stores instr f).map fun p => C.cell p.1).Nodup := by
    have := nodup_block s instr f
    rw [← map_fst_stores, List.map_map] at this
    rwa [List.map_congr_left fun p _ => hcell p.1]
  obtain ⟨m', hw, -, m'', hr, -⟩ := C.readAll_writeAll hinv hok' hd
  rw [map_fst_stores, map_snd_stores] at hr
  obtain ⟨t, ht, hres⟩ := store_result ha hne ho hw
  refine ⟨t, ht, hres.mmu ▸ hres, fun s' instr' hl hb ho' hcpu hmmu ha' hreg => ?_⟩
  obtain ⟨hblock, hfinal⟩ := block_undo hl hb hreg
  rw [← hblock, ← hcpu, ← hres.mmu, ← hmmu] at hr
  obtain ⟨u, hu, hload⟩ := load_result ha' (hl ▸ hne) ho' hr
  refine ⟨u, hu, ?_⟩
  have hval {i : Nat} {r : RegNo} (hi : (regList instr)[i]? = some r) :
      ((regList instr).map s.storeAdvance.reg)[i]? = some (s.storeAdvance.reg r) := by
    rw [List.getElem?_map, hi]
    rfl
  constructor
  · intro r hr h15
    obtain ⟨i, hi⟩ := List.getElem?_of_mem hr
    have hnb : ¬ (w = true ∧ r = lhsReg instr') := by
      rintro ⟨-, rfl⟩
      rw [hb] at hr
      exact hbase hr
    rw [hload.listed i r _ (hl ▸ hi) (hval hi) h15 hnb]
    exact stepped_storeAdvance.reg r h15
  · intro h15
    obtain ⟨i, hi⟩ := List.getElem?_of_mem h15
    exact (hload.pc i _ (hl ▸ hi) (hval hi)).1
  · intro h15
    rw [← hb] at h15 hbase ⊢
    cases w with
    | true =>
      rw [hload.base rfl h15, hfinal rfl, hb]
    | false =>
      rw [hload.others _ (hl ▸ hbase) h15 (by simp), hb, hreg]
      rfl

/-- Block transfers in all forms. Without aborts a load moves the words of the block, in order,
into the registers of the list, and a store the registers into the words; both write the
architecture's base back. Over a memory of words, the matching load undoes a store. -/
theorem block_transfer (ops : MmuOps U) (s : State U) (instr : ARMword) (f : BlockMode) (w : Bool)
    (ha : s.aborted = 0) (hne : regList instr ≠ []) :
    (∀ vals mmu, bits instr 20 27 = f.opcode w true →
      readAll (ops.readWord s.cpu) s.mmu (s.block instr f) = some (vals, mmu) →
      ∃ t, s.blockTransfer ops instr = some t ∧ s.LoadResult t instr f w vals mmu) ∧
    (∀ mmu, bits instr 20 27 = f.opcode w false →
      writeAll (ops.writeWord s.cpu) s.mmu (s.stores instr f) = some mmu →
      ∃ t, s.blockTransfer ops instr = some t ∧ s.StoreResult t instr f w mmu) ∧
    ∀ C : CellStore (ops.readWord s.cpu) (ops.writeWord s.cpu) (BitVec 30),
      (∀ a, C.cell a = Ram.index a) → C.Inv s.mmu → (∀ a ∈ s.block instr f, C.Ok a) →
      bits instr 20 27 = f.opcode w false → lhsReg instr ∉ regList instr →
      ∃ t, s.blockTransfer ops instr = some t ∧ s.StoreResult t instr f w t.mmu ∧
        ∀ (s' : State U) (instr' : ARMword), regList instr' = regList instr →
          lhsReg instr' = lhsReg instr → bits instr' 20 27 = (undoMode f w).opcode w true →
          s'.cpu = s.cpu → s'.mmu = t.mmu → s'.aborted = 0 →
          s'.reg (lhsReg instr) = s.baseAfter instr f w →
          ∃ u, s'.blockTransfer ops instr' = some u ∧ s.ListRestored u instr :=
  ⟨fun _ _ ho h => load_result ha hne ho h, fun _ ho h => store_result ha hne ho h,
    fun C hcell hinv hok ho hbase => store_load ha hne ho hbase C hcell hinv hok⟩

end State

/-! ## An ARM920T with its MMU off -/

theorem MmuState.pidVaMap_of_zero {U : Type} {mmu : MmuState U} (h : mmu.processId = 0)
    (va : ARMword) : mmu.pidVaMap va = va := by
  rw [pidVaMap, h]
  split
  · rfl
  · exact BitVec.or_zero

theorem SplitMmu.read_off {U : Type} {p : SplitMmu U} {cpu : Cpu} {mmu : MmuState U}
    {load : MmuState U → TlbEntry → ARMword → ARMword → Except Fault ARMword × MmuState U}
    {va : ARMword} {datatype : DataType} (he : mmu.mmuEnabled = false) :
    p.read cpu mmu load va datatype = (.ok (mmu.ram.busRead datatype (mmu.pidVaMap va)), mmu) := by
  rw [SplitMmu.read, he]
  rfl

theorem SplitMmu.write_off {U : Type} {p : SplitMmu U} {cpu : Cpu} {mmu : MmuState U}
    {store : MmuState U → TlbEntry → ARMword → ARMword → MmuState U}
    {va data : ARMword} {datatype : DataType} (he : mmu.mmuEnabled = false) :
    p.write cpu mmu store va datatype data =
      (none, { mmu with
        u := p.setIcache mmu.u (p.updateIcache cpu mmu (mmu.pidVaMap va) datatype data)
        ram := mmu.ram.busWrite datatype (mmu.pidVaMap va) data }) := by
  rw [SplitMmu.write]
  show (if (!mmu.mmuEnabled) = true then _ else _ : Option Fault × MmuState U) = _
  rw [he]
  rfl

/-- Memory, word by word. -/
def Arm920t.offCells (cpu : Cpu) (old : ARMword) :
    CellStore ((Arm920t.ops old).readWord cpu) ((Arm920t.ops old).writeWord cpu) (BitVec 30) where
  Inv mmu := mmu.mmuEnabled = false ∧ mmu.processId = 0
  Ok _ := True
  cell := Ram.index
  view mmu := mmu.ram.word
  read_spec := by
    rintro mmu a ⟨he, hp⟩ -
    have hr : (Arm920t.ops old).read cpu mmu a .word = (.ok (mmu.ram.word (Ram.index a)), mmu) := by
      show Arm920t.side.read cpu mmu (fun mmu => Arm920t.side.load cpu mmu old .word) a .word = _
      rw [SplitMmu.read_off he, MmuState.pidVaMap_of_zero hp, Ram.busRead, readLane_word]
    refine ⟨mmu, ?_, ⟨he, hp⟩, rfl⟩
    rw [MmuOps.readWord, hr]
  write_spec := by
    rintro mmu a v ⟨he, hp⟩ -
    have hw : ∃ u, (Arm920t.ops old).write cpu mmu a .word v =
        (none, { mmu with u := u, ram := mmu.ram.busWrite .word a v }) := by
      refine ⟨Arm920t.side.setIcache mmu.u (Arm920t.side.updateIcache cpu mmu a .word v), ?_⟩
      show Arm920t.side.write cpu mmu (fun mmu => Arm920t.side.store cpu mmu .word v) a .word v = _
      rw [SplitMmu.write_off he, MmuState.pidVaMap_of_zero hp]
    obtain ⟨u, hu⟩ := hw
    refine ⟨{ mmu with u := u, ram := mmu.ram.busWrite .word a v }, ?_, ?_,
      Ram.busWrite_word mmu.ram a v⟩
    · rw [MmuOps.writeWord, hu]
    · exact ⟨he, hp⟩

/-- A push of registers 0, 1 and 14 in a new processor, and the pop that undoes it. -/
theorem block_transfer_push_pop :
    let s := Arm920t.boot.setReg 13 0x8000
    ∃ t, s.blockTransfer (Arm920t.ops 0) 0xE92D4003 = some t ∧
      s.StoreResult t 0xE92D4003 .db true t.mmu ∧
      ∃ u, t.blockTransfer (Arm920t.ops 0) 0xE8BD4003 = some u ∧ s.ListRestored u 0xE92D4003 := by
  intro s
  obtain ⟨t, ht, hres, hload⟩ := (State.block_transfer (Arm920t.ops 0) s 0xE92D4003 .db true rfl
    (by decide)).2.2 (Arm920t.offCells s.cpu 0) (fun _ => rfl) ⟨by decide, rfl⟩
    (fun _ _ => trivial) (by decide) (by decide)
  refine ⟨t, ht, hres, ?_⟩
  exact hload t 0xE8BD4003 (by decide) (by decide) (by decide) hres.cpu rfl hres.aborted
    (hres.base rfl (by decide))

end SkyEye
