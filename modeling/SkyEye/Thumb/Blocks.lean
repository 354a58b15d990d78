import SkyEye.Arm.BlockForms
import SkyEye.Thumb.Accepts

/-!
# Thumb block transfers

`PUSH`, `POP`, `STMIA` and `LDMIA` of formats 14 and 15. The decoder hands them to the ARM
block transfers, always with a write-back. `LoadMult` writes the base back after the loads,
where a base in the list of an `LDMIA` keeps the word that was loaded for it.
-/

namespace SkyEye

open Cells StoreView

inductive ThumbBlock where
  | push
  | pop
  | stmia
  | ldmia
  deriving DecidableEq, Repr

namespace ThumbBlock

def isLoad : ThumbBlock → Bool
  | push | stmia => false
  | pop | ldmia => true

/-- The stack grows downwards. -/
def mode : ThumbBlock → BlockMode
  | push => .db
  | _ => .ia

/-- The halfword `h` is such an instruction. -/
def Encodes (h : BitVec 16) : ThumbBlock → Prop
  | push => Thumb.field h 9 7 = 0b1011010
  | pop => Thumb.field h 9 7 = 0b1011110
  | stmia => Thumb.field h 11 5 = 0b11000
  | ldmia => Thumb.field h 11 5 = 0b11001

/-- The number of the base register. -/
def baseBits (h : BitVec 16) : ThumbBlock → BitVec 4
  | push | pop => 13
  | stmia | ldmia => Thumb.low h 8

def base (h : BitVec 16) (k : ThumbBlock) : RegNo := (k.baseBits h).toFin

/-- The list as sixteen bits: eight low registers, and register 14 for `PUSH` or 15 for `POP`. -/
def listBits (h : BitVec 16) : ThumbBlock → BitVec 16
  | push => 0#1 ++ BitVec.ofBool (h.getLsbD 8) ++ 0#6 ++ h.extractLsb' 0 8
  | pop => BitVec.ofBool (h.getLsbD 8) ++ 0#7 ++ h.extractLsb' 0 8
  | stmia | ldmia => 0#8 ++ h.extractLsb' 0 8

/-- The registers of the list, lowest first. -/
def list (h : BitVec 16) (k : ThumbBlock) : List RegNo :=
  (List.finRange 16).filter fun r => (k.listBits h).getLsbD r

end ThumbBlock

namespace Thumb

variable {U : Type} (ops : MmuOps U) (s t : State U) (h : BitVec 16) (k : ThumbBlock)

/-- The words of the block, lowest first. -/
def blockAddrs : List ARMword :=
  wordAddrs (k.mode.start (s.reg (k.base h)) (k.list h).length) (k.list h).length

/-- The base after the transfer. -/
def blockFinal : ARMword := k.mode.final (s.reg (k.base h)) (k.list h).length

/-- The effect of a store. -/
structure BlockStored (mmu : MmuState U) : Prop where
  mmu : t.mmu = mmu
  aborted : t.aborted = 0
  cpu : t.cpu = s.cpu
  banks : t.SameBanks s
  base : t.reg (k.base h) = blockFinal s h k
  others : ∀ r, r ≠ 15 → r ≠ k.base h → t.reg r = s.reg r

/-- The effect of a load of the words `vals`. A base in the list keeps the word loaded; bit 0 of
a loaded register 15 selects the instruction set. -/
structure BlockLoaded (vals : List ARMword) (mmu : MmuState U) : Prop where
  mmu : t.mmu = mmu
  aborted : t.aborted = 0
  cpu : t.cpu = s.cpu
  banks : t.SameBanks s
  listed : ∀ (i : Nat) r v, (k.list h)[i]? = some r → vals[i]? = some v → r ≠ 15 → t.reg r = v
  pc : ∀ (i : Nat) v, (k.list h)[i]? = some 15 → vals[i]? = some v →
    t.reg 15 = State.branchTarget v ∧ t.tFlag = (v &&& 1 != 0)
  base : k.base h ∉ k.list h → t.reg (k.base h) = blockFinal s h k
  others : ∀ r, r ∉ k.list h → r ≠ 15 → r ≠ k.base h → t.reg r = s.reg r

/-- `w` has the effect of the instruction, where the memory gives and takes all its words. -/
def BlockDone (pc w : ARMword) : Prop :=
  if k.isLoad then
    ∀ vals mmu, readAll (ops.readWord s.cpu) s.mmu (blockAddrs s h k) = some (vals, mmu) →
      ∃ t, s.mainswitch ops pc w = some t ∧ BlockLoaded s t h k vals mmu
  else
    ∀ mmu, writeAll (ops.writeWord s.cpu) s.mmu
        ((blockAddrs s h k).zip ((k.list h).map s.reg)) = some mmu →
      ∃ t, s.mainswitch ops pc w = some t ∧ BlockStored s t h k mmu

/-- The decoder and the main switch carry `h` out so, whatever comes behind it. -/
def BlockExact (pc : ARMword) : Prop :=
  ∀ x : BitVec 16, ∃ w, s.thumbDecode pc (fetchedWord s.bigendSig h x) = .decoded w ∧
    bits w 28 31 = 0xE ∧ BlockDone ops s h k pc w

/-- The word that is loaded for the base, if any, is the address to write back. -/
def BaseLoadedFinal : Prop :=
  ∀ vals mmu, readAll (ops.readWord s.cpu) s.mmu (blockAddrs s h k) = some (vals, mmu) →
    ∀ (i : Nat) v, (k.list h)[i]? = some (k.base h) → vals[i]? = some v → v = blockFinal s h k

variable {ops s t h k} {pc x : ARMword}

/-! ## The decoded word -/

/-- The first twelve bits of the word. -/
def blockOp : ThumbBlock → BitVec 12
  | .push => 0xE92
  | .pop => 0xE8B
  | .stmia => 0xE8A
  | .ldmia => 0xE8B

/-- The word that the decoder makes. -/
def blockWord (h : BitVec 16) (k : ThumbBlock) : ARMword :=
  blockOp k ++ k.baseBits h ++ k.listBits h

theorem getLsbD_blockWord_list (h : BitVec 16) (k : ThumbBlock) (r : RegNo) :
    (blockWord h k).getLsbD r = (k.listBits h).getLsbD r := by
  rw [blockWord, BitVec.getLsbD_append, if_pos r.isLt]

theorem regList_blockWord (h : BitVec 16) (k : ThumbBlock) :
    regList (blockWord h k) = k.list h := by
  unfold regList ThumbBlock.list listed
  exact congrArg (List.filter · _) (funext fun r => getLsbD_blockWord_list h k r)

theorem lhsReg_blockWord (h : BitVec 16) (k : ThumbBlock) :
    lhsReg (blockWord h k) = k.base h := by
  have hb : (blockWord h k).extractLsb' 16 4 = k.baseBits h := by
    apply BitVec.eq_of_getLsbD_eq
    intro i hi
    rw [BitVec.getLsbD_extractLsb', blockWord, BitVec.getLsbD_append, BitVec.getLsbD_append]
    simp [hi, show ¬ 16 + i < 16 by omega]
  rw [lhsReg, regField, hb, ThumbBlock.base]

theorem bits_blockWord (h : BitVec 16) (k : ThumbBlock) {lo : Nat} (n : Nat) (hlo : 20 ≤ lo) :
    bits (blockWord h k) lo n = ((blockOp k).extractLsb' (lo - 20) (n + 1 - lo)).toNat := by
  rw [bits]
  refine congrArg BitVec.toNat (BitVec.eq_of_getLsbD_eq fun i hi => ?_)
  rw [BitVec.getLsbD_extractLsb', BitVec.getLsbD_extractLsb', blockWord, BitVec.getLsbD_append,
    BitVec.getLsbD_append, if_neg (by omega), if_neg (by omega)]
  congr 2
  omega

/-- The entry of the table of format 14. -/
theorem index14_eq (h : BitVec 16) :
    (h.setWidth 32 &&& 0x0800) >>> 10 ||| (h.setWidth 32 &&& 0x0100) >>> 8 =
      (BitVec.ofBool (h.getLsbD 11) ++ BitVec.ofBool (h.getLsbD 8)).setWidth 32 := by
  apply BitVec.eq_of_getLsbD_eq
  intro i hi
  simp only [BitVec.getLsbD_or, BitVec.getLsbD_and, BitVec.getLsbD_ushiftRight,
    BitVec.getLsbD_setWidth, BitVec.getLsbD_append, BitVec.getLsbD_ofBool]
  interval_cases i <;> simp

theorem eq_blockWord {w : ARMword} (hw : ∀ i < 32, w.getLsbD i =
      if i < 16 then (k.listBits h).getLsbD i
      else if i - 16 < 4 then (k.baseBits h).getLsbD (i - 16)
      else (blockOp k).getLsbD (i - 16 - 4)) : w = blockWord h k := by
  apply BitVec.eq_of_getLsbD_eq
  intro i hi
  rw [hw i hi, blockWord, BitVec.getLsbD_append, BitVec.getLsbD_append]

theorem format14_eq (h : BitVec 16) : ThumbFormat.format14 (h.setWidth 32) =
    blockWord h (if h.getLsbD 11 then .pop else .push) := by
  unfold ThumbFormat.format14
  rw [index14_eq]
  cases h11 : h.getLsbD 11 <;> refine eq_blockWord fun i hi => ?_ <;> cases h8 : h.getLsbD 8 <;>
    simp only [ThumbBlock.listBits, ThumbBlock.baseBits, blockOp, h8, if_true, Bool.false_eq_true,
      if_false, BitVec.getLsbD_or, BitVec.getLsbD_and, BitVec.getLsbD_setWidth,
      BitVec.getLsbD_append, BitVec.getLsbD_ofBool, BitVec.getLsbD_extractLsb'] <;>
    interval_cases i <;> simp

theorem format15_eq (h : BitVec 16) : ThumbFormat.format15 (h.setWidth 32) =
    blockWord h (if h.getLsbD 11 then .ldmia else .stmia) := by
  unfold ThumbFormat.format15
  rw [show (0x0800 : ARMword) = BitVec.twoPow 32 11 by decide,
    ThumbFormat.isSet_twoPow h (by decide)]
  cases h11 : h.getLsbD 11 <;> refine eq_blockWord fun i hi => ?_ <;>
    simp only [ThumbBlock.listBits, ThumbBlock.baseBits, blockOp, low, if_true, Bool.false_eq_true,
      if_false, BitVec.getLsbD_or, BitVec.getLsbD_and, BitVec.getLsbD_shiftLeft,
      BitVec.getLsbD_setWidth, BitVec.getLsbD_append, BitVec.getLsbD_extractLsb'] <;>
    interval_cases i <;> simp

theorem decode_block (s : State U) (pc : ARMword) (x : BitVec 16) (hk : k.Encodes h) :
    s.thumbDecode pc (fetchedWord s.bigendSig h x) = .decoded (blockWord h k) := by
  have h11 {n : Nat} (hn : field h 11 5 = n) : h.getLsbD 11 = n.testBit 0 := bit_of_code hn
  -- neither `ADD` and `SUB` of the stack pointer nor `BKPT`
  have hmisc (hn : field h 9 2 = 2) : ¬ h.setWidth 32 &&& 0x0F00 = 0 ∧
      ¬ h.setWidth 32 &&& 0x0F00 = 0x0E00 := by
    have hc : field h 8 3 / 2 = field h 9 2 := field_div h 8 1 2
    have hd : field h 8 4 % 2 ^ 3 = field h 8 3 := field_mod h 8 (by decide)
    refine ⟨fun he => ?_, fun he => ?_⟩
    · have : field h 8 4 = 0 := (and_0F00_eq_iff h 0).mp he
      omega
    · have : field h 8 4 = 14 := (and_0F00_eq_iff h 14).mp he
      omega
  rw [State.thumbDecode]
  dsimp only
  rw [fetchedWord_instr, opcode_eq]
  have h7 : field h 9 7 / 2 ^ 2 = field h 11 5 := field_div h 9 2 5
  have h2 : field h 9 7 % 2 ^ 2 = field h 9 2 := field_mod h 9 (by decide)
  cases k with
  | push =>
    rw [show field h 9 7 = 90 from hk] at h7 h2
    obtain ⟨h0, hE⟩ := hmisc h2.symm
    rw [← h7]
    show (if _ then _ else if _ then _ else _) = _
    rw [if_neg h0, if_neg hE, format14_eq, h11 h7.symm]
    rfl
  | pop =>
    rw [show field h 9 7 = 94 from hk] at h7 h2
    obtain ⟨h0, hE⟩ := hmisc h2.symm
    rw [← h7]
    show (if _ then _ else if _ then _ else _) = _
    rw [if_neg h0, if_neg hE, format14_eq, h11 h7.symm]
    rfl
  | stmia =>
    rw [show field h 11 5 = 24 from hk]
    show TdState.decoded (ThumbFormat.format15 _) = _
    rw [format15_eq, h11 hk]
    rfl
  | ldmia =>
    rw [show field h 11 5 = 25 from hk]
    show TdState.decoded (ThumbFormat.format15 _) = _
    rw [format15_eq, h11 hk]
    rfl

/-! ## The transfer -/

theorem bits_opcode (h : BitVec 16) (k : ThumbBlock) :
    bits (blockWord h k) 20 27 = k.mode.opcode true k.isLoad := by
  rw [bits_blockWord h k 27 (by decide)]
  cases k <;> rfl

theorem mainswitch_blockWord (ops : MmuOps U) (s : State U) (pc : ARMword) (h : BitVec 16)
    (k : ThumbBlock) : s.mainswitch ops pc (blockWord h k) = s.blockTransfer ops (blockWord h k) := by
  have h25 : bits (blockWord h k) 25 27 = 4 := by
    rw [bits_blockWord h k 27 (by decide)]
    cases k <;> rfl
  rw [State.mainswitch, State.not_double (.inr (by rw [h25]; decide)), if_neg Bool.false_ne_true,
    h25]
  rfl

theorem block_eq (s : State U) (h : BitVec 16) (k : ThumbBlock) :
    s.block (blockWord h k) k.mode = blockAddrs s h k := by
  rw [State.block, lhsReg_blockWord, regList_blockWord, blockAddrs]

theorem finalBase_eq (s : State U) (h : BitVec 16) (k : ThumbBlock) :
    s.finalBase (blockWord h k) k.mode = blockFinal s h k := by
  rw [State.finalBase, lhsReg_blockWord, regList_blockWord, blockFinal]

theorem mem_list {r : RegNo} : r ∈ k.list h ↔ (k.listBits h).getLsbD r = true := by
  simp [ThumbBlock.list]

/-- The stack pointer is in no list. -/
theorem sp_notMem_list (h : BitVec 16) (k : ThumbBlock) : 13 ∉ k.list h := by
  rw [mem_list, show ((13 : RegNo) : Nat) = 13 from rfl]
  cases k <;>
    simp only [ThumbBlock.listBits, BitVec.getLsbD_append, BitVec.getLsbD_extractLsb'] <;> simp

theorem pc_notMem_list (h : BitVec 16) (hk : k ≠ .pop) : 15 ∉ k.list h := by
  rw [mem_list, show ((15 : RegNo) : Nat) = 15 from rfl]
  cases k with
  | pop => exact absurd rfl hk
  | push => simp only [ThumbBlock.listBits, BitVec.getLsbD_append]; simp
  | stmia | ldmia => simp only [ThumbBlock.listBits, BitVec.getLsbD_append]; simp

theorem base_ne_pc (h : BitVec 16) (k : ThumbBlock) : k.base h ≠ 15 := by
  cases k with
  | push => exact (by decide : (13 : RegNo) ≠ 15)
  | pop => exact (by decide : (13 : RegNo) ≠ 15)
  | stmia => exact low_ne h 8
  | ldmia => exact low_ne h 8

/-- Only an `LDMIA` can have its base in the list of a load. -/
theorem eq_ldmia_of_base_mem (hl : k.isLoad = true) (hb : k.base h ∈ k.list h) : k = .ldmia := by
  cases k with
  | push => cases hl
  | stmia => cases hl
  | ldmia => rfl
  | pop => exact absurd hb (sp_notMem_list h .pop)

/-- A store puts registers in memory that the pipeline leaves alone. -/
theorem stores_eq (s : State U) (h : BitVec 16) (hl : k.isLoad = false) :
    s.stores (blockWord h k) k.mode = (blockAddrs s h k).zip ((k.list h).map s.reg) := by
  have hpop : k ≠ .pop := by
    rintro rfl
    cases hl
  have hreg : (k.list h).map s.storeAdvance.reg = (k.list h).map s.reg :=
    List.map_congr_left fun r hr =>
      State.stepped_storeAdvance.reg r fun he => pc_notMem_list h hpop (he ▸ hr)
  rw [State.stores, block_eq, regList_blockWord, hreg]

/-- Without registers in the list the transfer has no result. -/
theorem blockTransfer_empty (ops : MmuOps U) (s : State U) (hl : k.list h = []) :
    s.blockTransfer ops (blockWord h k) = none := by
  have hfirst : firstReg (blockWord h k) = none := by
    rw [← regList_blockWord] at hl
    exact List.find?_eq_none.mpr fun r _ hr => by
      have := mem_regList.mpr hr
      rw [hl] at this
      cases this
  have ho := bits_opcode h k
  cases hk : k.isLoad with
  | true =>
    rw [hk] at ho
    obtain ⟨_, hbt, -⟩ := State.blockTransfer_opcode k.mode true true false ops s ho
    rw [hbt, State.blockMult, State.loadMult, hfirst, Option.map_none]
  | false =>
    rw [hk] at ho
    obtain ⟨_, hbt, -⟩ := State.blockTransfer_opcode k.mode true false false ops s ho
    rw [hbt, State.blockMult, State.storeMult, hfirst, Option.map_none]

/-! ## The instructions -/

theorem block_stored (ha : s.aborted = 0) (hne : k.list h ≠ []) (hl : k.isLoad = false)
    {mmu : MmuState U} (hw : writeAll (ops.writeWord s.cpu) s.mmu
      ((blockAddrs s h k).zip ((k.list h).map s.reg)) = some mmu) :
    ∃ t, s.blockTransfer ops (blockWord h k) = some t ∧ BlockStored s t h k mmu := by
  have ho := bits_opcode h k
  rw [hl] at ho
  rw [← stores_eq s h hl] at hw
  obtain ⟨t, ht, hr⟩ := State.store_result ha ((regList_blockWord h k).symm ▸ hne) ho hw
  have hbase := hr.base rfl (lhsReg_blockWord h k ▸ base_ne_pc h k)
  have hothers := hr.others
  rw [lhsReg_blockWord] at hbase hothers
  exact ⟨t, ht, hr.mmu, hr.aborted, hr.cpu, hr.banks, hbase.trans (finalBase_eq s h k),
    fun r h15 hb => hothers r h15 fun h => hb h.2⟩

/-- A load writes the base back, also over the word loaded for it. -/
theorem block_loaded (ha : s.aborted = 0) (hne : k.list h ≠ []) (hl : k.isLoad = true)
    {vals : List ARMword} {mmu : MmuState U}
    (hr : readAll (ops.readWord s.cpu) s.mmu (blockAddrs s h k) = some (vals, mmu)) :
    ∃ t, s.blockTransfer ops (blockWord h k) = some t ∧ t.reg (k.base h) = blockFinal s h k ∧
      ((∀ (i : Nat) v, (k.list h)[i]? = some (k.base h) → vals[i]? = some v →
        v = blockFinal s h k) → BlockLoaded s t h k vals mmu) := by
  have ho := bits_opcode h k
  rw [hl] at ho
  rw [← block_eq] at hr
  obtain ⟨t, ht, hres⟩ := State.load_result ha ((regList_blockWord h k).symm ▸ hne) ho hr
  have hbase := hres.base rfl (lhsReg_blockWord h k ▸ base_ne_pc h k)
  have hlisted := hres.listed
  have hpc := hres.pc
  have hothers := hres.others
  rw [lhsReg_blockWord, finalBase_eq] at hbase
  rw [lhsReg_blockWord, regList_blockWord] at hlisted hothers
  rw [regList_blockWord] at hpc
  refine ⟨t, ht, hbase, fun hfinal => ⟨hres.mmu, hres.aborted, hres.cpu, hres.banks, ?_, hpc,
    fun _ => hbase, fun r hr h15 hb => hothers r hr h15 fun h => hb h.2⟩⟩
  intro i r v hi hv h15
  by_cases hb : r = k.base h
  · rw [hb] at hi ⊢
    rw [hbase, hfinal i v hi hv]
  · exact hlisted i r v hi hv h15 fun h => hb h.2

/-- The decoder makes one word of `h`. -/
theorem blockExact_iff_done (hk : k.Encodes h) (pc : ARMword) :
    BlockExact ops s h k pc ↔ BlockDone ops s h k pc (blockWord h k) := by
  constructor
  · intro hx
    obtain ⟨w, hw, -, hd⟩ := hx 0
    rw [decode_block s pc 0 hk] at hw
    cases hw
    exact hd
  · intro hd x
    refine ⟨blockWord h k, decode_block s pc x hk, ?_, hd⟩
    rw [bits_blockWord h k 31 (by decide)]
    cases k <;> rfl

/-- An empty list is never carried out: nothing hinders its transfer, and there is none. -/
theorem not_done_of_empty (he : k.list h = []) (pc : ARMword) :
    ¬ BlockDone ops s h k pc (blockWord h k) := by
  have hnone : s.mainswitch ops pc (blockWord h k) = none :=
    (mainswitch_blockWord ops s pc h k).trans (blockTransfer_empty ops s he)
  have haddr : blockAddrs s h k = [] := by
    rw [blockAddrs, he]
    rfl
  intro hd
  rw [BlockDone, haddr, he, hnone] at hd
  cases hl : k.isLoad with
  | true =>
    rw [hl, if_pos rfl] at hd
    obtain ⟨t, ht, -⟩ := hd [] s.mmu rfl
    cases ht
  | false =>
    rw [hl, if_neg Bool.false_ne_true] at hd
    obtain ⟨t, ht, -⟩ := hd s.mmu rfl
    cases ht

/-- `PUSH`, `POP`, `STMIA` and `LDMIA` have their effect, but for an empty list, and for an `LDMIA`
that loads its base with another word than the address it writes back. -/
theorem thumb_blocks_exact_iff (ops : MmuOps U) (s : State U) (pc : ARMword) (h : BitVec 16)
    (k : ThumbBlock) (ha : s.aborted = 0) (hk : k.Encodes h) :
    BlockExact ops s h k pc ↔
      k.list h ≠ [] ∧ (k = .ldmia → BaseLoadedFinal ops s h k) := by
  rw [blockExact_iff_done hk]
  by_cases hne : k.list h = []
  · exact iff_of_false (not_done_of_empty hne pc) fun hc => hc.1 hne
  have hm := mainswitch_blockWord ops s pc h k
  rw [BlockDone, hm]
  cases hl : k.isLoad with
  | false =>
    rw [if_neg Bool.false_ne_true]
    refine iff_of_true (fun mmu hw => block_stored ha hne hl hw) ⟨hne, ?_⟩
    rintro rfl
    cases hl
  | true =>
    rw [if_pos rfl]
    constructor
    · intro hd
      refine ⟨hne, fun _ vals mmu hr i v hi hv => ?_⟩
      obtain ⟨t, ht, hloaded⟩ := hd vals mmu hr
      obtain ⟨u, hu, hbase, -⟩ := block_loaded ha hne hl hr
      have htu : t = u := Option.some.inj (ht.symm.trans hu)
      rw [← hloaded.listed i _ v hi hv (base_ne_pc h k), htu, hbase]
    · rintro ⟨-, hfinal⟩ vals mmu hr
      obtain ⟨t, ht, -, hloaded⟩ := block_loaded ha hne hl hr
      refine ⟨t, ht, hloaded fun i v hi hv => ?_⟩
      have hmem : k.base h ∈ k.list h := List.mem_of_getElem? hi
      exact hfinal (eq_ldmia_of_base_mem hl hmem) vals mmu hr i v hi hv

/-- `PUSH {r0, lr}` in a new processor. -/
theorem thumb_blocks_exact_iff_push :
    BlockExact Arm7100.ops Arm7100.thumb 0xB501 .push 0 :=
  (thumb_blocks_exact_iff Arm7100.ops Arm7100.thumb 0 0xB501 .push rfl
    (show field 0xB501 9 7 = 0b1011010 by decide)).mpr ⟨by decide, fun h => by cases h⟩

/-- `LDMIA r0!, {r0}` loads 0 from address 0 and leaves 4. -/
theorem ldmia_overwrites_loaded_base :
    ¬ BlockExact Arm7100.ops Arm7100.thumb 0xC801 .ldmia 0 := by
  have hk : ThumbBlock.Encodes 0xC801 .ldmia := show field 0xC801 11 5 = 0b11001 by decide
  have hr : readAll (Arm7100.ops.readWord Arm7100.thumb.cpu) Arm7100.thumb.mmu
      (blockAddrs Arm7100.thumb 0xC801 .ldmia) = some ([0], Arm7100.thumb.mmu) := by
    rfl
  intro hx
  obtain ⟨t, ht, hloaded⟩ := (blockExact_iff_done hk 0).mp hx _ _ hr
  obtain ⟨u, hu, hbase, -⟩ := block_loaded (k := .ldmia) rfl (by decide) rfl hr
  have htu : t = u := Option.some.inj (ht.symm.trans ((mainswitch_blockWord ..).trans hu))
  have h0 := hloaded.listed 0 0 0 rfl rfl (by decide)
  rw [htu] at h0
  exact absurd (h0.symm.trans hbase) (by decide)

end Thumb

end SkyEye
