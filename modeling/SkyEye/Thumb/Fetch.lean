import SkyEye.Arm.MmuModels
import SkyEye.Mmu.Arm7100
import SkyEye.Mmu.WordAddress
import SkyEye.Thumb.Branch

/-!
# Instruction fetches of Thumb code

`ARMul_ReLoadInstr` puts a Thumb instruction from the upper half of a word together with the
one behind it by two reads, at the address and four bytes up. Each read checks its alignment
and its page: a machine that checks alignment refuses the first, and an instruction at the
end of a page aborts for the sake of the next page.
-/

namespace SkyEye

/-! ## Where instructions come from -/

/-- How a machine fetches the words of its instructions, with `GetWord` or `LoadInstr`. A
word may be known without asking the page tables whether they deny it. -/
structure InstrPort (U : Type) where
  fetch : Cpu → MmuState U → ARMword → Except Fault ARMword × MmuState U
  denied : Cpu → MmuState U → ARMword → Prop
  known : MmuState U → ARMword → Prop
  fetch_misaligned : ∀ cpu mmu va, va &&& 3 ≠ 0 → mmu.mmuEnabled = true →
    mmu.mmuAligned = true → ∃ f, (fetch cpu mmu va).1 = .error f
  fetch_word : ∀ cpu mmu va, (va &&& 3 ≠ 0 → mmu.mmuEnabled = true → mmu.mmuAligned = false) →
    fetch cpu mmu va = fetch cpu mmu (va &&& ~~~3)
  fetch_control : ∀ cpu mmu va, (fetch cpu mmu va).2.control = mmu.control
  fault_iff : ∀ cpu mmu va, (∃ f, (fetch cpu mmu (va &&& ~~~3)).1 = .error f) ↔
    denied cpu mmu va ∧ ¬ known mmu va

namespace SplitMmu

variable {U : Type} {p : SplitMmu U} {cpu : Cpu} {mmu : MmuState U}

theorem fetch_word (hd : p.icacheDesc.width = 16 ∨ p.icacheDesc.width = 32) (c : Bool)
    (va : ARMword) : p.fetch mmu c (va &&& ~~~3) (va &&& ~~~3) = p.fetch mmu c va va := by
  simp only [fetch, Cache.searchLine_word hd, CacheDesc.vaCacheIndex_word, Cache.alloc_word hd,
    Cache.alloc_word_pa hd, CacheDesc.vaCacheAlign_word hd, Ram.busRead_word]

theorem fetch_control (c : Bool) (va pa : ARMword) :
    (p.fetch mmu c va pa).2.control = mmu.control := by
  rw [fetch]
  split
  · rfl
  · cases c <;> rfl

/-- The page tables deny a fetch. -/
def FetchDenied (p : SplitMmu U) (cpu : Cpu) (mmu : MmuState U) (va : ARMword) : Prop :=
  mmu.mmuEnabled = true ∧
    ∃ f, mmu.authorise cpu (p.itlb mmu.u) (mmu.pidVaMap va &&& ~~~3) true = .error f

/-- `LoadInstr` asks the page tables, aligned or not. -/
def instrPort (p : SplitMmu U) (hd : p.icacheDesc.width = 16 ∨ p.icacheDesc.width = 32) :
    InstrPort U where
  fetch := p.loadInstr
  denied := p.FetchDenied
  known _ _ := False
  fetch_misaligned cpu mmu va hv hm ha := by
    have hv' : (mmu.pidVaMap va &&& 3 != 0 && mmu.mmuAligned) = true := by
      rw [MmuState.pidVaMap_lane, ha, Bool.and_true, bne_iff_ne]
      exact hv
    rw [loadInstr]
    simp only [hm, hv', if_true]
    exact ⟨_, rfl⟩
  fetch_word cpu mmu va h := by
    rw [loadInstr, loadInstr]
    cases hm : mmu.mmuEnabled with
    | false => simp only [MmuState.pidVaMap_word, fetch_word hd, Bool.false_eq_true, if_false]
    | true =>
      have hl : (va &&& 3 != 0 && mmu.mmuAligned) = false := by
        by_cases hv : va &&& 3 = 0
        · rw [hv]
          rfl
        · rw [h hv hm, Bool.and_false]
      simp only [if_true, MmuState.pidVaMap_word, MmuState.pidVaMap_lane, hl,
        MmuState.and_word_word, MmuState.and_word_lane, bne_self_eq_false, Bool.false_and,
        Bool.false_eq_true, if_false]
  fetch_control cpu mmu va := by
    simp only [loadInstr]
    split
    · split
      · rfl
      · split
        · rfl
        · exact fetch_control ..
    · exact fetch_control ..
  fault_iff cpu mmu va := by
    rw [loadInstr, FetchDenied]
    cases mmu.mmuEnabled with
    | false => simp
    | true =>
      simp only [if_true, MmuState.pidVaMap_word, MmuState.and_word_word,
        MmuState.and_word_lane,
        bne_self_eq_false, Bool.false_and, Bool.false_eq_true, if_false, true_and, not_false_iff,
        and_true]
      cases mmu.authorise cpu (p.itlb mmu.u) (mmu.pidVaMap va &&& ~~~3) true <;> simp

end SplitMmu

namespace Arm7100

variable {cpu : Cpu} {mmu : MmuState Arm7100}

theorem width_eq : cacheDesc.width = 16 ∨ cacheDesc.width = 32 := .inl rfl

theorem cached_word (va : ARMword) : cached mmu (va &&& ~~~3) = cached mmu va := by
  simp only [cached, Cache.searchLine_word width_eq]

theorem wordIndex_word (va : ARMword) : wordIndex (va &&& ~~~3) = wordIndex va := by
  rw [wordIndex, wordIndex, MmuState.shift_word (Nat.le_refl 2)]

theorem translated_word (va : ARMword) :
    translated cpu mmu (va &&& ~~~3) = translated cpu mmu va := by
  simp only [translated, MmuState.translate_word]

theorem vaToPa_word (e : TlbEntry) (va : ARMword) :
    e.vaToPa (va &&& ~~~3) &&& ~~~3 = e.vaToPa va &&& ~~~3 := by
  simp only [TlbEntry.vaToPa, BitVec.and_or_distrib_right, BitVec.and_assoc,
    BitVec.and_comm (~~~3) (~~~e.mapping.mask &&& ~~~3), BitVec.and_self]

theorem fillLine_word (va pa : ARMword) : fillLine mmu (va &&& ~~~3) pa = fillLine mmu va pa := by
  simp only [fillLine, Cache.alloc_word width_eq, CacheDesc.vaCacheAlign_word width_eq]

theorem fillLine_word_pa (va pa : ARMword) :
    fillLine mmu va (pa &&& ~~~3) = fillLine mmu va pa := by
  have hp : pa &&& ~~~3 &&& 0xFFFFFFF0 = pa &&& 0xFFFFFFF0 := MmuState.and_word_and rfl pa
  simp only [fillLine, hp]

theorem read_word (va : ARMword) (ha : mmu.misaligned va .word = false) :
    read cpu mmu va .word = read cpu mmu (va &&& ~~~3) .word := by
  have hf (e : TlbEntry) (m : MmuState Arm7100) :
      fillLine m va (e.vaToPa va) = fillLine m (va &&& ~~~3) (e.vaToPa (va &&& ~~~3)) := by
    rw [fillLine_word, ← fillLine_word_pa, ← vaToPa_word, fillLine_word_pa]
  have hb (e : TlbEntry) (ram : Ram) :
      ram.busRead .word (e.vaToPa va) = ram.busRead .word (e.vaToPa (va &&& ~~~3)) := by
    rw [← Ram.busRead_word, ← vaToPa_word, Ram.busRead_word]
  simp only [read, ha, MmuState.misaligned_and_word, cached_word, wordIndex_word,
    translated_word, MmuState.authorise_word, readLane_word, hf, hb, Ram.busRead_word]

/-- `GetWord` answers from the cache before it asks the page tables. -/
def instrPort : InstrPort Arm7100 where
  fetch cpu mmu va := read cpu mmu va .word
  denied cpu mmu va := mmu.mmuEnabled = true ∧ Denied cpu mmu va
  known mmu va := (cached mmu va).isSome
  fetch_misaligned cpu mmu va hv hm ha := by
    refine (faults_iff hm).mpr (.inl ?_)
    rw [MmuState.misaligned_word, ha, Bool.and_true, bne_iff_ne]
    exact hv
  fetch_word cpu mmu va h := by
    cases hm : mmu.mmuEnabled with
    | false => simp only [read, hm, Bool.not_false, if_true, Ram.busRead_word]
    | true =>
      refine read_word va ?_
      rw [MmuState.misaligned_word]
      by_cases hv : va &&& 3 = 0
      · rw [hv]
        rfl
      · rw [h hv hm, Bool.and_false]
  fetch_control cpu mmu va := by
    simp only [read]
    split
    · rfl
    · split
      · rfl
      · split
        · rfl
        · split
          · rfl
          · split <;> rfl
  fault_iff cpu mmu va := by
    cases hm : mmu.mmuEnabled with
    | false => simp [read, hm]
    | true =>
      refine (faults_iff hm).trans ?_
      rw [MmuState.misaligned_and_word, cached_word, Denied, Denied, MmuState.authorise_word]
      cases cached mmu va <;> simp

end Arm7100

/-! ## `ARMul_ReLoadInstr` -/

namespace InstrPort

variable {U : Type} (port : InstrPort U) (cpu : Cpu) (mmu : MmuState U)

/-- An instruction in the upper half of the word `lo`, and the one in the lower half of `hi`. -/
def unalignedInstr (bigend : Bool) (lo hi : ARMword) : ARMword :=
  if bigend then (lo <<< 16) ||| (hi >>> 16) else ((hi &&& 0xFFFF) <<< 16) ||| (lo >>> 16)

/-- The reads of `ARMul_ReLoadInstr`: its `fault`, or the data it returns. -/
def reload (address : ARMword) (isize : Nat) : Except Fault ARMword × MmuState U :=
  if isize = 2 ∧ address &&& 2 ≠ 0 then
    match port.fetch cpu mmu address with
    | (.error f, mmu) => (.error f, mmu)
    | (.ok lo, mmu) =>
      match port.fetch cpu mmu (address + 4) with
      | (.error f, mmu) => (.error f, mmu)
      | (.ok hi, mmu) => (.ok (unalignedInstr cpu.bigend lo hi), mmu)
  else port.fetch cpu mmu address

/-- The word at an address, and the one behind it. -/
def wordAt (address : ARMword) : Except Fault ARMword × MmuState U :=
  port.fetch cpu mmu (address &&& ~~~3)

def wordBehind (address : ARMword) : Except Fault ARMword × MmuState U :=
  port.wordAt cpu (port.wordAt cpu mmu address).2 (address + 4)

/-- The fetch of a word faults. -/
def Faults (address : ARMword) : Prop := port.denied cpu mmu address ∧ ¬ port.known mmu address

/-- The MMU refuses addresses that are not a word's. -/
def ChecksAlignment (mmu : MmuState U) : Prop := mmu.mmuEnabled = true ∧ mmu.mmuAligned = true

/-- The fetch of the word behind the one at an address faults. -/
def FaultsBehind (address : ARMword) : Prop :=
  port.Faults cpu (port.wordAt cpu mmu address).2 (address + 4)

variable {port cpu mmu} {address : ARMword}

theorem wordAt_error_iff :
    (∃ f, (port.wordAt cpu mmu address).1 = .error f) ↔ port.Faults cpu mmu address :=
  port.fault_iff cpu mmu address

theorem checksAlignment_wordAt :
    ChecksAlignment (port.wordAt cpu mmu address).2 ↔ ChecksAlignment mmu := by
  simp only [ChecksAlignment, MmuState.mmuEnabled, MmuState.mmuAligned, MmuState.ctl, wordAt,
    port.fetch_control]

/-- Where alignment is not checked, the read of an address is the read of its word. -/
theorem fetch_eq_wordAt (ha : ¬ ChecksAlignment mmu) :
    port.fetch cpu mmu address = port.wordAt cpu mmu address := by
  refine port.fetch_word cpu mmu address fun _ hm => ?_
  by_contra hn
  exact ha ⟨hm, by simpa using hn⟩

/-- An instruction in the lower half of a word takes one read. -/
theorem reload_aligned (isize : Nat) (h : address &&& 3 = 0) :
    port.reload cpu mmu address isize = port.wordAt cpu mmu address := by
  have h2 : address &&& 2 = 0 := by
    rw [Word.and_two_eq, h]
    rfl
  rw [reload, if_neg (fun hc => hc.2 h2)]
  exact port.fetch_word cpu mmu address fun hn => absurd h hn

/-- One in the upper half takes two, where alignment is not checked. -/
theorem reload_unaligned (h : address &&& 2 ≠ 0) (ha : ¬ ChecksAlignment mmu) :
    port.reload cpu mmu address 2 =
      match port.wordAt cpu mmu address with
      | (.error f, mmu) => (.error f, mmu)
      | (.ok lo, mmu) =>
        match port.wordAt cpu mmu (address + 4) with
        | (.error f, mmu) => (.error f, mmu)
        | (.ok hi, mmu) => (.ok (unalignedInstr cpu.bigend lo hi), mmu) := by
  rw [reload, if_pos ⟨rfl, h⟩, fetch_eq_wordAt ha]
  have ha' : ¬ ChecksAlignment (port.wordAt cpu mmu address).2 := checksAlignment_wordAt.not.mpr ha
  generalize hw : port.wordAt cpu mmu address = w at ha' ⊢
  obtain ⟨f | lo, mmu'⟩ := w
  · rfl
  · simp only
    rw [fetch_eq_wordAt ha']

omit port in
theorem half_iff (h1 : address &&& 1 = 0) : address &&& 2 = 0 ↔ address &&& 3 = 0 := by
  have h1' : address &&& 3 &&& 1 = 0 := by rw [BitVec.and_assoc]; exact h1
  rw [Word.and_two_eq]
  rcases Word.and_three_cases address with h | h | h | h <;> rw [h] at h1' ⊢ <;>
    revert h1' <;> decide

/-- When a Thumb fetch signals a prefetch abort. -/
theorem reload_error_iff (h1 : address &&& 1 = 0) :
    (∃ f, (port.reload cpu mmu address 2).1 = .error f) ↔
      if address &&& 2 = 0 then port.Faults cpu mmu address
      else ChecksAlignment mmu ∨ port.Faults cpu mmu address ∨
        port.FaultsBehind cpu mmu address := by
  have h3 := half_iff h1
  split
  · rename_i h
    rw [reload_aligned 2 (h3.mp h), wordAt_error_iff]
  · rename_i h
    by_cases ha : ChecksAlignment mmu
    · refine iff_of_true ?_ (.inl ha)
      have hl : address &&& 3 ≠ 0 := fun hc => h (h3.mpr hc)
      obtain ⟨f, hf⟩ := port.fetch_misaligned cpu mmu address hl ha.1 ha.2
      refine ⟨f, ?_⟩
      rw [reload, if_pos ⟨rfl, h⟩]
      generalize port.fetch cpu mmu address = w at hf
      obtain ⟨r, mmu'⟩ := w
      cases hf
      rfl
    · rw [or_iff_right ha, reload_unaligned h ha, ← wordAt_error_iff, FaultsBehind,
        ← wordAt_error_iff]
      generalize port.wordAt cpu mmu address = w
      obtain ⟨f | lo, mmu'⟩ := w
      · simp
      · simp only [reduceCtorEq, exists_false, false_or]
        generalize port.wordAt cpu mmu' (address + 4) = w
        obtain ⟨f | hi, mmu''⟩ := w <;> simp

/-! ## Exact fetches -/

/-- The halfword of a word at an address, as a load of it sees it. -/
def halfAt (bigend : Bool) (address word : ARMword) : BitVec 16 :=
  (readLane bigend .halfword address word).setWidth 16

/-- The instruction at `pc`, if its word is `w`, and the one behind it, if it can be fetched. -/
def instrAt (port : InstrPort U) (cpu : Cpu) (mmu : MmuState U) (pc w : ARMword) :
    BitVec 16 × Option (BitVec 16) :=
  (halfAt cpu.bigend pc w,
    if pc &&& 2 = 0 then some (halfAt cpu.bigend (pc + 2) w)
    else (port.wordBehind cpu mmu pc).1.toOption.map (halfAt cpu.bigend (pc + 2)))

end InstrPort

namespace State

variable {U : Type} (port : InstrPort U) (s : State U) (pc : ARMword)

def prefetchAbort (address : ARMword) : State U :=
  if s.abortAddr = 1 then
    { s with abortAddr := address &&& (if s.tFlag then ~~~1 else ~~~3) }
  else s

def reLoadInstr (address : ARMword) (isize : Nat) : ARMword × State U :=
  match port.reload s.cpu s.mmu address isize with
  | (.error _, mmu) => (s.abortWord, { s with mmu := mmu }.prefetchAbort address)
  | (.ok data, mmu) => (data, s.accessed mmu)

/-- The fetch of the Thumb instruction at `pc` signals a prefetch abort. -/
def SignalsPrefetchAbort : Prop := ∃ f, (port.reload s.cpu s.mmu pc 2).1 = .error f

/-- It signals one exactly if the page tables deny the address, and else returns the
instruction for the decoder, with the next one if that can be fetched. -/
structure FetchExact : Prop where
  abort : s.SignalsPrefetchAbort port pc ↔ port.denied s.cpu s.mmu pc
  word : ∀ w, (port.wordAt s.cpu s.mmu pc).1 = .ok w → ¬ port.denied s.cpu s.mmu pc →
    ∃ next, (s.reLoadInstr port pc 2).1 =
        Thumb.fetchedWord s.bigendSig (port.instrAt s.cpu s.mmu pc w).1 next ∧
      ∀ n, (port.instrAt s.cpu s.mmu pc w).2 = some n → next = n

/-- When nothing but the page tables decides the fetch. Where they permit it, one read is
enough or both succeed; where they deny it, no word known in their place is returned. -/
structure FetchDecided : Prop where
  permitted : ¬ port.denied s.cpu s.mmu pc → pc &&& 2 = 0 ∨
    ¬ InstrPort.ChecksAlignment s.mmu ∧ ¬ port.FaultsBehind s.cpu s.mmu pc
  denied : port.denied s.cpu s.mmu pc → port.known s.mmu pc → pc &&& 2 ≠ 0 ∧
    (InstrPort.ChecksAlignment s.mmu ∨ port.FaultsBehind s.cpu s.mmu pc)

variable {port s pc}

/-- An abort leaves its address, if no other is pending, and the abort word. -/
theorem reLoadInstr_abort (h : s.SignalsPrefetchAbort port pc) :
    (s.reLoadInstr port pc 2).1 = s.abortWord ∧
      (s.abortAddr = 1 → (s.reLoadInstr port pc 2).2.abortAddr =
        pc &&& (if s.tFlag then ~~~1 else ~~~3)) := by
  obtain ⟨f, hf⟩ := h
  rw [reLoadInstr]
  generalize port.reload s.cpu s.mmu pc 2 = r at hf
  obtain ⟨_, mmu⟩ := r
  cases hf
  refine ⟨rfl, fun ha => ?_⟩
  simp only [prefetchAbort, ha, if_true]

theorem reLoadInstr_ok (h : ¬ s.SignalsPrefetchAbort port pc) :
    (s.reLoadInstr port pc 2).2.abortAddr = s.abortAddr ∧
      (s.reLoadInstr port pc 2).2.abortSig = false := by
  rw [SignalsPrefetchAbort] at h
  rw [reLoadInstr]
  generalize port.reload s.cpu s.mmu pc 2 = r at h
  obtain ⟨f | w, mmu⟩ := r
  · exact absurd ⟨f, rfl⟩ h
  · exact ⟨rfl, rfl⟩

theorem signals_iff (h1 : pc &&& 1 = 0) :
    s.SignalsPrefetchAbort port pc ↔
      if pc &&& 2 = 0 then port.Faults s.cpu s.mmu pc
      else InstrPort.ChecksAlignment s.mmu ∨ port.Faults s.cpu s.mmu pc ∨
        port.FaultsBehind s.cpu s.mmu pc :=
  InstrPort.reload_error_iff h1

theorem decided_iff (h1 : pc &&& 1 = 0) :
    (s.SignalsPrefetchAbort port pc ↔ port.denied s.cpu s.mmu pc) ↔ s.FetchDecided port pc := by
  rw [signals_iff h1]
  constructor
  · intro h
    constructor <;> intro hd <;> by_cases h2 : pc &&& 2 = 0 <;>
      simp only [InstrPort.Faults, hd, h2, if_true, if_false] at h ⊢ <;> tauto
  · rintro ⟨hp, hd⟩
    by_cases hd' : port.denied s.cpu s.mmu pc <;> by_cases h2 : pc &&& 2 = 0 <;>
      simp only [InstrPort.Faults, hd', h2, if_true, if_false] at hp hd ⊢ <;> tauto

/-! ## The word -/

end State

namespace InstrPort

theorem halfAt_low {bigend : Bool} {a : ARMword} (h : a &&& 2 = if bigend then 2 else 0)
    (w : ARMword) : halfAt bigend a w = w.extractLsb' 0 16 := by
  have ho : laneOffset bigend .halfword a = 0 := by
    simp only [laneOffset, h]
    cases bigend <;> rfl
  rw [halfAt, readLane, ho, laneMask, BitVec.ushiftRight_zero]
  apply BitVec.eq_of_getLsbD_eq
  intro i hi
  simp only [BitVec.getLsbD_setWidth, BitVec.getLsbD_and, BitVec.getLsbD_extractLsb']
  interval_cases i <;> simp

theorem halfAt_high {bigend : Bool} {a : ARMword} (h : a &&& 2 = if bigend then 0 else 2)
    (w : ARMword) : halfAt bigend a w = w.extractLsb' 16 16 := by
  have ho : laneOffset bigend .halfword a = 16 := by
    simp only [laneOffset, h]
    cases bigend <;> rfl
  rw [halfAt, readLane, ho, laneMask]
  apply BitVec.eq_of_getLsbD_eq
  intro i hi
  simp only [BitVec.getLsbD_setWidth, BitVec.getLsbD_and, BitVec.getLsbD_ushiftRight,
    BitVec.getLsbD_extractLsb']
  interval_cases i <;> simp

theorem half_add_two (pc : ARMword) :
    pc &&& 2 = 0 ∧ (pc + 2) &&& 2 = 2 ∨ pc &&& 2 = 2 ∧ (pc + 2) &&& 2 = 0 := by
  have hp : (pc + 2) &&& 3 = ((pc &&& 3) + 2) &&& 3 := by
    apply BitVec.eq_of_toNat_eq
    have hl (a : ARMword) : (a &&& 3).toNat = a.toNat % 4 := Word.toNat_and_low a 2 (by omega)
    have h2 : (2 : ARMword).toNat = 2 := rfl
    rw [hl, hl, BitVec.toNat_add, BitVec.toNat_add, hl, h2]
    omega
  rw [Word.and_two_eq pc, Word.and_two_eq (pc + 2), hp]
  rcases Word.and_three_cases pc with h | h | h | h <;> rw [h] <;> decide

theorem fetchedWord_aligned (bigend : Bool) {pc : ARMword} (h : pc &&& 2 = 0) (w : ARMword) :
    w = Thumb.fetchedWord bigend (halfAt bigend pc w) (halfAt bigend (pc + 2) w) := by
  have h' := (half_add_two pc).resolve_right fun hc => by
    rw [h] at hc
    exact absurd hc.1 (by decide)
  have hw : w = w.extractLsb' 16 16 ++ w.extractLsb' 0 16 := by
    apply BitVec.eq_of_getLsbD_eq
    intro i hi
    rw [BitVec.getLsbD_append, BitVec.getLsbD_extractLsb', BitVec.getLsbD_extractLsb']
    interval_cases i <;> simp
  cases bigend with
  | false => rw [halfAt_low h'.1, halfAt_high h'.2]; exact hw
  | true => rw [halfAt_high h'.1, halfAt_low h'.2]; exact hw

theorem fetchedWord_unaligned (bigend : Bool) {pc : ARMword} (h : pc &&& 2 ≠ 0) (lo hi : ARMword) :
    unalignedInstr bigend lo hi =
      Thumb.fetchedWord bigend (halfAt bigend pc lo) (halfAt bigend (pc + 2) hi) := by
  have h' := (half_add_two pc).resolve_left fun hc => h hc.1
  cases bigend with
  | false =>
    rw [halfAt_high h'.1, halfAt_low h'.2]
    apply BitVec.eq_of_getLsbD_eq
    intro i hi
    simp only [unalignedInstr, Thumb.fetchedWord, Bool.false_eq_true, if_false, BitVec.getLsbD_or,
      BitVec.getLsbD_shiftLeft, BitVec.getLsbD_and, BitVec.getLsbD_ushiftRight,
      BitVec.getLsbD_append, BitVec.getLsbD_extractLsb']
    interval_cases i <;> simp
  | true =>
    rw [halfAt_low h'.1, halfAt_high h'.2]
    apply BitVec.eq_of_getLsbD_eq
    intro i hi
    simp only [unalignedInstr, Thumb.fetchedWord, if_true, BitVec.getLsbD_or,
      BitVec.getLsbD_shiftLeft, BitVec.getLsbD_ushiftRight, BitVec.getLsbD_append,
      BitVec.getLsbD_extractLsb']
    interval_cases i <;> simp

end InstrPort

namespace State

variable {U : Type} {port : InstrPort U} {s : State U} {pc : ARMword}

/-- A fetch without an abort returns the instruction. -/
theorem reLoadInstr_word (h1 : pc &&& 1 = 0) (hs : ¬ s.SignalsPrefetchAbort port pc) {w : ARMword}
    (hw : (port.wordAt s.cpu s.mmu pc).1 = .ok w) :
    ∃ next, (s.reLoadInstr port pc 2).1 =
        Thumb.fetchedWord s.bigendSig (port.instrAt s.cpu s.mmu pc w).1 next ∧
      ∀ n, (port.instrAt s.cpu s.mmu pc w).2 = some n → next = n := by
  have hb : s.cpu.bigend = s.bigendSig := rfl
  rw [signals_iff h1] at hs
  by_cases h2 : pc &&& 2 = 0
  · refine ⟨InstrPort.halfAt s.bigendSig (pc + 2) w, ?_, fun n hn => ?_⟩
    · rw [reLoadInstr, InstrPort.reload_aligned 2 ((InstrPort.half_iff h1).mp h2)]
      generalize port.wordAt s.cpu s.mmu pc = r at hw
      obtain ⟨_, mmu⟩ := r
      cases hw
      exact InstrPort.fetchedWord_aligned s.bigendSig h2 w
    · rw [InstrPort.instrAt, if_pos h2] at hn
      exact Option.some.inj hn
  · rw [if_neg h2, not_or, not_or] at hs
    obtain ⟨ha, -, hf⟩ := hs
    rw [InstrPort.FaultsBehind, ← InstrPort.wordAt_error_iff] at hf
    rw [reLoadInstr, InstrPort.reload_unaligned h2 ha, InstrPort.instrAt, if_neg h2,
      InstrPort.wordBehind, hb]
    -- both words are there
    generalize port.wordAt s.cpu s.mmu pc = r at hw hf
    obtain ⟨_, mmu⟩ := r
    cases hw
    dsimp only at hf ⊢
    generalize port.wordAt s.cpu mmu (pc + 4) = r at hf
    obtain ⟨f | hi, mmu'⟩ := r
    · exact absurd ⟨f, rfl⟩ hf
    · refine ⟨InstrPort.halfAt s.bigendSig (pc + 2) hi, ?_, fun n hn => ?_⟩
      · exact InstrPort.fetchedWord_unaligned s.bigendSig h2 w hi
      · exact Option.some.inj hn

/-- A Thumb fetch is exact precisely when nothing but the page tables decides it. -/
theorem reLoadInstr_exact_iff (port : InstrPort U) (s : State U) (pc : ARMword)
    (h1 : pc &&& 1 = 0) : s.FetchExact port pc ↔ s.FetchDecided port pc := by
  rw [← decided_iff h1]
  constructor
  · exact FetchExact.abort
  · intro h
    refine ⟨h, fun w hw hd => reLoadInstr_word h1 (h.not.mpr hd) hw⟩

/-- An ARM920T in Thumb state that maps the first megabyte. -/
def thumb920t (control : ARMword) : State Arm920t :=
  { Arm920t.boot with tFlag := true, mmu := Arm920t.oneSection 0x40A control }

theorem reLoadInstr_exact_iff_half :
    (thumb920t 3).FetchExact (Arm920t.side.instrPort (.inr rfl)) 2 ↔
      (thumb920t 3).FetchDecided (Arm920t.side.instrPort (.inr rfl)) 2 :=
  reLoadInstr_exact_iff _ _ 2 rfl

/-- An instruction in the upper half of a mapped word aborts where alignment is checked, and
the last one of the megabyte aborts where it is not. -/
theorem reLoadInstr_aborts_mapped :
    ¬ (thumb920t 3).FetchExact (Arm920t.side.instrPort (.inr rfl)) 2 ∧
      ¬ (thumb920t 1).FetchExact (Arm920t.side.instrPort (.inr rfl)) 0xFFFFE := by
  constructor <;> intro h
  · have hs : (thumb920t 3).SignalsPrefetchAbort (Arm920t.side.instrPort (.inr rfl)) 2 :=
      ⟨.alignment, by decide +kernel⟩
    obtain ⟨-, f, hf⟩ := h.abort.mp hs
    have hd : Except.toBool _ = false := congrArg Except.toBool hf
    revert hd
    decide +kernel
  · have hs : (thumb920t 1).SignalsPrefetchAbort (Arm920t.side.instrPort (.inr rfl)) 0xFFFFE :=
      ⟨.pageTranslation, by decide +kernel⟩
    obtain ⟨-, f, hf⟩ := h.abort.mp hs
    have hd : Except.toBool _ = false := congrArg Except.toBool hf
    revert hd
    decide +kernel

end State

end SkyEye
