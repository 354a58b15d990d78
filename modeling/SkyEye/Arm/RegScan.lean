import SkyEye.Thumb.Preserves
import Mathlib.Data.List.FinRange

/-!
# The indices of block transfers

Which elements of `state->Reg` the four block transfers access. Each looks for its first
register in a loop without a bound; if the list is empty the loop goes on over the other
fields of the word and stops at bit 27 at the latest.
-/

namespace SkyEye

/-- `for (temp = 0; !BIT (temp); temp++)`: no shift by 32 or more comes up, for bit 27 is set. -/
def scanReg (instr : ARMword) : Nat :=
  ((List.range 32).find? fun temp => instr.getLsbD temp).getD 32

namespace State

variable {U : Type} (ops : MmuOps U) (past : Nat → ARMword) (s : State U)
  (instr address : ARMword)

/-- A read of `state->Reg[temp]`, with `past` what lies behind the array. -/
def regAt (temp : Nat) : ARMword := if h : temp < 16 then s.reg ⟨temp, h⟩ else past temp

/-- A write of `state->Reg[temp]`. What it spoils behind the array has no part in the loops:
they are over then. -/
def setRegAt (temp : Nat) (v : ARMword) : State U :=
  if h : temp < 16 then s.setReg ⟨temp, h⟩ v else s

/-- `!state->abortSig && !state->Aborted` -/
def unaborted : Bool := !s.abortSig && s.aborted == 0

/-- `for (; temp < 16; temp++)` from `temp` on -/
def tempsFrom (temp : Nat) : List Nat := List.range' temp (16 - temp)

/-- The indices that the loop of a load writes. -/
def loadIndices (s : State U) (address : ARMword) : List Nat → List Nat
  | [] => []
  | temp :: temps =>
    if instr.getLsbD temp then
      let address := address + 4
      let (dest, s) := ops.loadWordS s address
      if s.unaborted then temp :: loadIndices (s.setRegAt temp dest) address temps else []
    else loadIndices s address temps

/-- The indices that the loop of a store reads. -/
def storeIndices (s : State U) (address : ARMword) : List Nat → List Nat
  | [] => []
  | temp :: temps =>
    if instr.getLsbD temp then
      let address := address + 4
      let s := (ops.storeWordS s address (s.regAt past temp)).noteAbort
      temp :: if s.aborted ≠ 0 then [] else storeIndices s address temps
    else storeIndices s address temps

/-- `LoadMult` -/
def loadMultIndices : List Nat :=
  let s := s.busUsedIncPcS
  let temp := scanReg instr
  let (dest, s) := ops.loadWordN s address
  if s.unaborted then
    temp :: loadIndices ops instr (s.setRegAt temp dest) address (tempsFrom (temp + 1))
  else []

/-- `LoadSMult` -/
def loadSMultIndices : List Nat :=
  let s := s.busUsedIncPcS
  let s := if !instr.getLsbD 15 && s.bank != .user then s.toUserBank else s
  let temp := scanReg instr
  let (dest, s) := ops.loadWordN s address
  if !s.abortSig then
    temp :: if s.aborted ≠ 0 then []
      else loadIndices ops instr (s.setRegAt temp dest) address (tempsFrom (temp + 1))
  else []

/-- `StoreMult` -/
def storeMultIndices : List Nat :=
  let s := if s.tFlag then s else s.busUsedIncPcN
  let temp := scanReg instr
  let s := (ops.storeWordN s address (s.regAt past temp)).noteAbort
  temp :: if s.aborted ≠ 0 then []
    else storeIndices ops past instr s address (tempsFrom (temp + 1))

/-- `StoreSMult` -/
def storeSMultIndices : List Nat :=
  let s := s.busUsedIncPcN
  let s := if s.bank != .user then s.toUserBank else s
  let temp := scanReg instr
  let s := (ops.storeWordN s address (s.regAt past temp)).noteAbort
  temp :: if s.aborted ≠ 0 then []
    else storeIndices ops past instr s address (tempsFrom (temp + 1))

/-- The first address of the cases `0x80` to `0x9f`. -/
def blockAddress : ARMword :=
  let lsBase := s.reg (lhsReg instr)
  match bits instr 23 24 with
  | 0 => lsBase - lsmNumRegs instr + 4
  | 1 => lsBase
  | 2 => lsBase - lsmNumRegs instr
  | _ => lsBase + 4

/-- The cases `0x80` to `0x9f`: `BIT (20)` tells loads from stores, `BIT (22)` is the `^`. -/
def blockIndices : List Nat :=
  let address := s.blockAddress instr
  if instr.getLsbD 20 then
    if instr.getLsbD 22 then s.loadSMultIndices ops instr address
    else s.loadMultIndices ops instr address
  else if instr.getLsbD 22 then s.storeSMultIndices ops past instr address
  else s.storeMultIndices ops past instr address

/-- A load whose first word is not read. -/
def firstLoadFails : Bool :=
  instr.getLsbD 20 &&
    let s' := s.busUsedIncPcS
    if instr.getLsbD 22 then
      let s' := if !instr.getLsbD 15 && s'.bank != .user then s'.toUserBank else s'
      (ops.loadWordN s' (s.blockAddress instr)).2.abortSig
    else !(ops.loadWordN s' (s.blockAddress instr)).2.unaborted

end State

variable {U : Type}

/-! ## The scan -/

theorem scanReg_lt_iff (instr : ARMword) {n : Nat} (hn : n ≤ 32) :
    scanReg instr < n ↔ ∃ i < n, instr.getLsbD i = true := by
  rw [scanReg]
  cases hf : (List.range 32).find? fun temp => instr.getLsbD temp with
  | none =>
    refine iff_of_false (Nat.not_lt.mpr hn) ?_
    rintro ⟨i, hi, hb⟩
    exact absurd hb (List.find?_eq_none.mp hf i (List.mem_range.mpr (by omega)))
  | some i =>
    rw [List.find?_range_eq_some] at hf
    obtain ⟨hb, -, hmin⟩ := hf
    constructor
    · exact fun h => ⟨i, h, hb⟩
    · rintro ⟨j, hj, hbj⟩
      by_contra hc
      have := hmin j (by simp only [Option.getD_some] at hc; omega)
      rw [hbj] at this
      cases this

/-- The scan ends within the list if there is one. -/
theorem scanReg_lt_sixteen (instr : ARMword) : scanReg instr < 16 ↔ instr &&& 0xFFFF ≠ 0 := by
  have hmask : ∀ i < 32, (0xFFFF : ARMword).getLsbD i = decide (i < 16) := by decide
  rw [scanReg_lt_iff instr (by decide)]
  constructor
  · rintro ⟨i, hi, hb⟩ h0
    have hbit := congrArg (BitVec.getLsbD · i) h0
    rw [BitVec.getLsbD_and, hb, hmask i (by omega), decide_eq_true hi,
      show (0 : ARMword).getLsbD i = false from BitVec.getLsbD_zero] at hbit
    cases hbit
  · intro hne
    by_contra hc
    refine hne (BitVec.eq_of_getLsbD_eq fun i hi => ?_)
    rw [BitVec.getLsbD_and, hmask i hi, show (0 : ARMword).getLsbD i = false from
      BitVec.getLsbD_zero, Bool.and_eq_false_iff, decide_eq_false_iff_not]
    by_cases h16 : i < 16
    · exact .inl (Bool.eq_false_iff.mpr fun hb => hc ⟨i, h16, hb⟩)
    · exact .inr h16

namespace State

variable {ops : MmuOps U} {past : Nat → ARMword} {s : State U} {instr address : ARMword}

/-! ## The bounds -/

theorem loadIndices_subset (s : State U) (address : ARMword) (temps : List Nat) :
    loadIndices ops instr s address temps ⊆ temps := by
  induction temps generalizing s address with
  | nil => exact List.Subset.refl _
  | cons temp temps ih =>
    rw [loadIndices]
    split
    · dsimp only
      split
      · exact List.cons_subset_cons _ (ih _ _)
      · exact List.nil_subset _
    · exact List.subset_cons_of_subset _ (ih _ _)

theorem storeIndices_subset (s : State U) (address : ARMword) (temps : List Nat) :
    storeIndices ops past instr s address temps ⊆ temps := by
  induction temps generalizing s address with
  | nil => exact List.Subset.refl _
  | cons temp temps ih =>
    rw [storeIndices]
    split
    · dsimp only
      split
      · exact List.cons_subset_cons _ (List.nil_subset _)
      · exact List.cons_subset_cons _ (ih _ _)
    · exact List.subset_cons_of_subset _ (ih _ _)

theorem tempsFrom_lt {temp i : Nat} (h : i ∈ tempsFrom temp) : i < 16 := by
  rw [tempsFrom, List.mem_range'_1] at h
  omega

theorem ite_nil_subset {p : Prop} [Decidable p] {l l' : List Nat} (h : l ⊆ l') :
    (if p then [] else l) ⊆ l' := by
  split
  · exact List.nil_subset _
  · exact h

/-- After the first index the loops keep to the array. -/
theorem bounded_cons {temp : Nat} {rest : List Nat} (h : rest ⊆ tempsFrom (temp + 1)) :
    (∀ i ∈ temp :: rest, i < 16) ↔ temp < 16 :=
  ⟨fun hall => hall temp List.mem_cons_self, fun ht => List.forall_mem_cons.mpr
    ⟨ht, fun _ hi => tempsFrom_lt (h hi)⟩⟩

theorem loadMultIndices_bounded (s : State U) (instr address : ARMword) :
    (∀ i ∈ s.loadMultIndices ops instr address, i < 16) ↔
      scanReg instr < 16 ∨ (ops.loadWordN s.busUsedIncPcS address).2.unaborted = false := by
  rw [loadMultIndices]
  dsimp only
  cases (ops.loadWordN s.busUsedIncPcS address).2.unaborted
  · exact iff_of_true (fun _ h => by cases h) (.inr rfl)
  · rw [if_pos rfl, bounded_cons (loadIndices_subset _ _ _)]
    simp

theorem storeMultIndices_bounded (s : State U) (instr address : ARMword) :
    (∀ i ∈ s.storeMultIndices ops past instr address, i < 16) ↔ scanReg instr < 16 := by
  rw [storeMultIndices]
  exact bounded_cons (ite_nil_subset (storeIndices_subset _ _ _))

theorem storeSMultIndices_bounded (s : State U) (instr address : ARMword) :
    (∀ i ∈ s.storeSMultIndices ops past instr address, i < 16) ↔ scanReg instr < 16 := by
  rw [storeSMultIndices]
  exact bounded_cons (ite_nil_subset (storeIndices_subset _ _ _))

theorem loadSMultIndices_bounded (s : State U) (instr address : ARMword) :
    (∀ i ∈ s.loadSMultIndices ops instr address, i < 16) ↔ scanReg instr < 16 ∨
      (ops.loadWordN (if !instr.getLsbD 15 && s.busUsedIncPcS.bank != .user then
        s.busUsedIncPcS.toUserBank else s.busUsedIncPcS) address).2.abortSig = true := by
  rw [loadSMultIndices]
  dsimp only
  generalize ops.loadWordN (if !instr.getLsbD 15 && s.busUsedIncPcS.bank != .user then
    s.busUsedIncPcS.toUserBank else s.busUsedIncPcS) address = l
  cases l.2.abortSig
  · rw [Bool.not_false, if_pos rfl, bounded_cons (ite_nil_subset (loadIndices_subset _ _ _))]
    simp
  · exact iff_of_true (fun _ h => by cases h) (.inr rfl)

/-- The block transfers keep to the array, but for the empty list; a load with an empty list
does if its first word is not read. -/
theorem reg_indices_iff (ops : MmuOps U) (past : Nat → ARMword) (s : State U) (instr : ARMword) :
    (∀ i ∈ s.blockIndices ops past instr, i < 16) ↔
      instr &&& 0xFFFF ≠ 0 ∨ s.firstLoadFails ops instr = true := by
  rw [blockIndices, firstLoadFails, ← scanReg_lt_sixteen]
  dsimp only
  cases h20 : instr.getLsbD 20
  · rw [if_neg Bool.false_ne_true, Bool.false_and]
    cases instr.getLsbD 22
    · rw [if_neg Bool.false_ne_true, storeMultIndices_bounded]
      simp
    · rw [if_pos rfl, storeSMultIndices_bounded]
      simp
  · rw [if_pos rfl, Bool.true_and]
    cases instr.getLsbD 22
    · rw [if_neg Bool.false_ne_true, if_neg Bool.false_ne_true, loadMultIndices_bounded,
        Bool.not_eq_true']
    · rw [if_pos rfl, if_pos rfl, loadSMultIndices_bounded]

/-- `STMIA r0!, {}` of Thumb reads `state->Reg[21]`. -/
theorem reg_indices_empty_list : ThumbFormat.format15 0xC000 = 0xE8A00000 ∧
    ¬ ∀ i ∈ Arm7100.thumb.blockIndices Arm7100.ops (fun _ => 0) 0xE8A00000, i < 16 := by
  refine ⟨by decide, fun h => ?_⟩
  exact absurd (h 21 List.mem_cons_self) (by decide)

end State

end SkyEye
