import SkyEye.Lib.LinkedChain
import SkyEye.Mips.Defs

/-!
# The hashed TLB is a fully associative one

`AssocTlb` is a fully associative TLB: a table of the entries written so far, searched as a
whole, in which an entry is global as it is marked. `Refines` relates it to the chains of
`tlb.c`. Every run of `reset_tlb` and `set_tlb_entry` keeps the relation (`TlbRun.refines`), and
then `probe_tlb` ends and finds an entry where the search of the table does.
-/

namespace SkyEye.Mips

open Sparc (Uint32 bit)

variable {M : Type}

/-! ## The associative TLB -/

/-- EntryHi, EntryLo0 and EntryLo1, as they were when an entry was written. -/
structure EntryRegs where
  entryHi : Uint32
  entryLo0 : Uint32
  entryLo1 : Uint32
  deriving DecidableEq, Repr

namespace EntryRegs

/-- The tag the entry is stored with. -/
def tag (e : EntryRegs) : Uint32 :=
  if bit e.entryLo0 EntryLo_G then e.entryHi ||| 0x1000 else e.entryHi

/-- The entry is of every address space as it is marked, by bit 12 of its tag: G of EntryLo0,
or the bit as it was in EntryHi, where TLBR leaves it. -/
def global (e : EntryRegs) : Bool := bit e.tag 12

def vpn2 (e : EntryRegs) : Uint32 := e.entryHi >>> 13

def asid (e : EntryRegs) : Uint32 := e.entryHi &&& 0xFF

/-- The entry translates `va` for the address space `asid`. -/
def translates (e : EntryRegs) (va asid : Uint32) : Bool :=
  va >>> 13 == e.vpn2 && (e.global || e.asid == asid)

end EntryRegs

/-- The entries written so far, as they are marked. -/
abbrev AssocTlb := Fin tlbSize → Option EntryRegs

namespace AssocTlb

/-- A write to an index the table does not have is dropped. -/
def write (w : AssocTlb) (n : Uint32) (e : EntryRegs) : AssocTlb :=
  if h : n.toNat < tlbSize then Function.update w ⟨n.toNat, h⟩ (some e) else w

/-- The linear scan. -/
def probe (w : AssocTlb) (va asid : Uint32) : Option (Fin tlbSize) :=
  (List.finRange tlbSize).find? fun n => (w n).any (·.translates va asid)

theorem probe_isSome_iff {w : AssocTlb} {va asid : Uint32} :
    (w.probe va asid).isSome ↔ ∃ n e, w n = some e ∧ e.translates va asid := by
  rw [probe, List.find?_isSome]
  constructor
  · rintro ⟨n, -, hn⟩
    cases he : w n with
    | none => simp [he] at hn
    | some e => exact ⟨n, e, he, by simpa [he] using hn⟩
  · rintro ⟨n, e, he, ht⟩
    exact ⟨n, List.mem_finRange n, by rw [he]; exact ht⟩

end AssocTlb

/-! ## The chains of a state -/

namespace MipsState

variable (s : MipsState M)

def entryRegs : EntryRegs := ⟨s.cp0 EntryHi, s.cp0 EntryLo0, s.cp0 EntryLo1⟩

/-- The current address space. -/
def asid : Uint32 := s.cp0 EntryHi &&& 0xFF

/-- `tlb_map` with the pointers of the entries. -/
def chains : Chains (Fin (tlbMapSize + 1)) (Fin tlbSize) where
  head := s.tlbMap
  next n := (s.tlb n).next
  prev n := (s.tlb n).prev

/-- `l` lists the entries of each chain, and each entry is on the one its `hash` names. -/
def OnChains (l : Fin (tlbMapSize + 1) → List (Fin tlbSize)) : Prop :=
  s.chains.Held (fun n => some (s.tlb n).hash) l

end MipsState

/-- All of an entry but its pointers. -/
def TlbEntry.SameContent (a b : TlbEntry) : Prop :=
  a.hi = b.hi ∧ a.loReg = b.loReg ∧ a.index = b.index ∧ a.hash = b.hash

namespace MipsState

/-- The two states differ in the pointers of the TLB only. -/
structure SameButPointers (s s' : MipsState M) : Prop where
  content : ∀ k, (s'.tlb k).SameContent (s.tlb k)
  rest : { s' with tlb := s.tlb, tlbMap := s.tlbMap } = s

namespace SameButPointers

variable {s s' s'' : MipsState M}

theorem refl (s : MipsState M) : s.SameButPointers s := ⟨fun _ => ⟨rfl, rfl, rfl, rfl⟩, rfl⟩

theorem trans (h : s.SameButPointers s') (h' : s'.SameButPointers s'') :
    s.SameButPointers s'' where
  content k := by
    obtain ⟨h1, h2, h3, h4⟩ := h.content k
    obtain ⟨h1', h2', h3', h4'⟩ := h'.content k
    exact ⟨h1'.trans h1, h2'.trans h2, h3'.trans h3, h4'.trans h4⟩
  rest := by
    have e := h'.rest
    rw [← h.rest, ← e]

theorem cp0_eq (h : s.SameButPointers s') : s'.cp0 = s.cp0 := by rw [← h.rest]

end SameButPointers

variable {s : MipsState M}

theorem same_setTlbNext (e : Fin tlbSize) (p : Option (Fin tlbSize)) :
    s.SameButPointers (s.setTlbNext e p) where
  content k := by
    by_cases hk : k = e
    · subst hk
      simp [setTlbNext, TlbEntry.SameContent]
    · simp [setTlbNext, TlbEntry.SameContent, hk]
  rest := rfl

theorem same_setTlbPrev (e : Fin tlbSize) (p : Option (Fin tlbSize)) :
    s.SameButPointers (s.setTlbPrev e p) where
  content k := by
    by_cases hk : k = e
    · subst hk
      simp [setTlbPrev, TlbEntry.SameContent]
    · simp [setTlbPrev, TlbEntry.SameContent, hk]
  rest := rfl

theorem same_setTlbMap (hash : Fin (tlbMapSize + 1)) (p : Option (Fin tlbSize)) :
    s.SameButPointers (s.setTlbMap hash p) := ⟨fun _ => ⟨rfl, rfl, rfl, rfl⟩, rfl⟩

theorem same_addToChain (hash : Fin (tlbMapSize + 1)) (n : Fin tlbSize) :
    s.SameButPointers (s.addToChain hash n) := by
  unfold addToChain
  refine .trans ?_ (same_setTlbMap _ _)
  refine .trans ?_ (same_setTlbPrev _ _)
  refine .trans ?_ (same_setTlbNext _ _)
  cases s.tlbMap hash with
  | none => exact .refl s
  | some e => exact same_setTlbPrev e _

theorem same_unlinkNext (n : Fin tlbSize) : s.SameButPointers (s.unlinkNext n) := by
  unfold unlinkNext
  split
  · exact same_setTlbPrev _ _
  · exact .refl s

theorem same_removeFromChain (n : Fin tlbSize) : s.SameButPointers (s.removeFromChain n) := by
  unfold removeFromChain
  refine .trans (same_unlinkNext n) ?_
  dsimp only
  split
  · exact same_setTlbNext _ _
  · exact same_setTlbMap _ _

theorem chains_setTlbNext (e : Fin tlbSize) (p : Option (Fin tlbSize)) :
    (s.setTlbNext e p).chains =
      { s.chains with next := Function.update s.chains.next e p } := by
  unfold setTlbNext chains
  congr 1 <;> funext k <;> by_cases hk : k = e <;> simp [hk]

theorem chains_setTlbPrev (e : Fin tlbSize) (p : Option (Fin tlbSize)) :
    (s.setTlbPrev e p).chains =
      { s.chains with prev := Function.update s.chains.prev e p } := by
  unfold setTlbPrev chains
  congr 1 <;> funext k <;> by_cases hk : k = e <;> simp [hk]

theorem chains_setTlbMap (hash : Fin (tlbMapSize + 1)) (p : Option (Fin tlbSize)) :
    (s.setTlbMap hash p).chains =
      { s.chains with head := Function.update s.chains.head hash p } := rfl

theorem chains_addToChain (hash : Fin (tlbMapSize + 1)) (n : Fin tlbSize) :
    (s.addToChain hash n).chains = s.chains.push hash n := by
  unfold addToChain Chains.push
  rw [chains_setTlbMap, chains_setTlbPrev, chains_setTlbNext]
  have hh : s.chains.head hash = s.tlbMap hash := rfl
  rw [hh]
  cases s.tlbMap hash with
  | none => rfl
  | some e =>
    dsimp only
    rw [chains_setTlbPrev]
    rfl

theorem chains_unlinkNext (n : Fin tlbSize) : (s.unlinkNext n).chains = s.chains.unlinkNext n := by
  unfold unlinkNext Chains.unlinkNext
  have hn : s.chains.next n = (s.tlb n).next := rfl
  rw [hn]
  cases (s.tlb n).next with
  | none => rfl
  | some e => exact chains_setTlbPrev e _

theorem chains_removeFromChain (n : Fin tlbSize) :
    (s.removeFromChain n).chains = s.chains.unlink (s.tlb n).hash n := by
  unfold removeFromChain Chains.unlink
  rw [← ((same_unlinkNext n).content n).2.2.2, ← chains_unlinkNext]
  generalize s.unlinkNext n = s
  have hp : s.chains.prev n = (s.tlb n).prev := rfl
  dsimp only
  rw [hp]
  cases (s.tlb n).prev with
  | none => exact chains_setTlbMap _ _
  | some z => exact chains_setTlbNext z _

/-! ## Writing an entry -/

/-- The entry that `set_tlb_entry` leaves, up to its pointers. -/
def writtenEntry (s : MipsState M) (n : Fin tlbSize) : TlbEntry :=
  { s.tlb n with
    hi := s.entryTag
    loReg := fun i => if i = 0 then s.cp0 EntryLo0 else s.cp0 EntryLo1
    index := BitVec.ofNat 16 n
    hash := tlbHash (s.cp0 EntryHi) }

/-- `set_tlb_entry` between taking the entry off its chain and putting it on the other. -/
def fillEntry (s : MipsState M) (n : Fin tlbSize) : MipsState M :=
  { s with tlb := Function.update s.tlb n (s.writtenEntry n) }

theorem setTlbEntry_of_lt {n : Uint32} (h : n.toNat < tlbSize) :
    s.setTlbEntry n = ((s.removeFromChain ⟨n.toNat, h⟩).fillEntry ⟨n.toNat, h⟩).addToChain
      (tlbHash (s.cp0 EntryHi)) ⟨n.toNat, h⟩ := by
  unfold setTlbEntry fillEntry writtenEntry
  rw [dif_pos h]
  simp only [(same_removeFromChain (s := s) ⟨n.toNat, h⟩).cp0_eq]

theorem setTlbEntry_of_le {n : Uint32} (h : tlbSize ≤ n.toNat) : s.setTlbEntry n = s := by
  unfold setTlbEntry
  rw [dif_neg (Nat.not_lt.mpr h)]

theorem chains_fillEntry (n : Fin tlbSize) : (s.fillEntry n).chains = s.chains := by
  unfold fillEntry writtenEntry chains
  congr 1 <;> funext k <;> by_cases hk : k = n <;> simp [hk]

/-- `set_tlb_entry` touches the TLB only. -/
theorem rest_setTlbEntry (n : Uint32) :
    { s.setTlbEntry n with tlb := s.tlb, tlbMap := s.tlbMap } = s := by
  by_cases h : n.toNat < tlbSize
  · rw [setTlbEntry_of_lt h]
    have h1 := (same_addToChain (s := (s.removeFromChain ⟨n.toNat, h⟩).fillEntry ⟨n.toNat, h⟩)
      (tlbHash (s.cp0 EntryHi)) ⟨n.toNat, h⟩).rest
    have h2 := (same_removeFromChain (s := s) ⟨n.toNat, h⟩).rest
    have h3 := congrArg (fun t : MipsState M => { t with tlb := s.tlb, tlbMap := s.tlbMap }) h1
    exact h3.trans h2
  · rw [setTlbEntry_of_le (Nat.not_lt.mp h)]

theorem cp0_setTlbEntry (n : Uint32) : (s.setTlbEntry n).cp0 = s.cp0 := by
  have h := congrArg MipsState.cp0 (rest_setTlbEntry (s := s) n)
  exact h

theorem content_setTlbEntry {n : Uint32} (h : n.toNat < tlbSize) (k : Fin tlbSize) :
    ((s.setTlbEntry n).tlb k).SameContent
      (if k = ⟨n.toNat, h⟩ then s.writtenEntry k else s.tlb k) := by
  have hr := (same_removeFromChain (s := s) ⟨n.toNat, h⟩)
  rw [setTlbEntry_of_lt h]
  obtain ⟨h1, h2, h3, h4⟩ := (same_addToChain (s := (s.removeFromChain ⟨n.toNat, h⟩).fillEntry
    ⟨n.toNat, h⟩) (tlbHash (s.cp0 EntryHi)) ⟨n.toNat, h⟩).content k
  unfold TlbEntry.SameContent
  rw [h1, h2, h3, h4]
  by_cases hk : k = ⟨n.toNat, h⟩
  · subst hk
    simp only [fillEntry, writtenEntry, entryTag, hr.cp0_eq, Function.update_self, if_true,
      and_self]
  · simp only [fillEntry, Function.update_of_ne hk, if_neg hk]
    exact hr.content k

/-- `set_tlb_entry` keeps every entry on the chain that its `hash` names. -/
theorem onChains_setTlbEntry (n : Uint32) (h : ∃ l, s.OnChains l) :
    ∃ l, (s.setTlbEntry n).OnChains l := by
  by_cases hn : n.toNat < tlbSize
  · obtain ⟨l, hl⟩ := h
    have h1 := Chains.Held.unlink (x := ⟨n.toNat, hn⟩) hl rfl
    rw [← chains_removeFromChain, ← chains_fillEntry] at h1
    have h2 := h1.push (b := tlbHash (s.cp0 EntryHi)) (Function.update_self ..)
    rw [← chains_addToChain, ← setTlbEntry_of_lt hn] at h2
    have hb : (fun k => some ((s.setTlbEntry n).tlb k).hash) =
        Function.update (Function.update (fun k => some (s.tlb k).hash) ⟨n.toNat, hn⟩ none)
          ⟨n.toNat, hn⟩ (some (tlbHash (s.cp0 EntryHi))) := by
      funext k
      rw [(content_setTlbEntry hn k).2.2.2]
      by_cases hk : k = ⟨n.toNat, hn⟩
      · subst hk
        simp [writtenEntry]
      · simp [hk]
    rw [← hb] at h2
    exact ⟨_, h2⟩
  · rw [setTlbEntry_of_le (Nat.not_lt.mp hn)]
    exact h

/-! ## Resetting -/

/-- The entries that the loop of `reset_tlb` has reached are on the extra chain. -/
structure ResetUpTo (s : MipsState M) (done : List (Fin tlbSize)) : Prop where
  held : ∃ l, s.chains.Held (fun n => if n ∈ done then some unusedChain else none) l
  hash : ∀ n ∈ done, (s.tlb n).hash = unusedChain

theorem resetUpTo_entry {done : List (Fin tlbSize)} {i : Fin tlbSize} (h : s.ResetUpTo done)
    (hi : i ∉ done) : (s.resetTlbEntry i).ResetUpTo (i :: done) := by
  obtain ⟨⟨l, hl⟩, hhash⟩ := h
  let s' : MipsState M := { s with
    tlb := Function.update s.tlb i
      { s.tlb i with index := BitVec.ofNat 16 i, hash := unusedChain } }
  have hs : s.resetTlbEntry i = s'.addToChain unusedChain i := rfl
  have hchains : s'.chains = s.chains := by
    unfold s' chains
    congr 1 <;> funext k <;> by_cases hk : k = i <;> simp [hk]
  rw [← hchains] at hl
  have hp := hl.push (b := unusedChain) (if_neg hi)
  rw [← chains_addToChain, ← hs] at hp
  have hb : (fun n => if n ∈ i :: done then some unusedChain else none) =
      Function.update (fun n => if n ∈ done then some unusedChain else none) i
        (some unusedChain) := by
    funext n
    by_cases hn : n = i <;> simp [hn]
  refine ⟨⟨_, hb ▸ hp⟩, fun n hn => ?_⟩
  rw [hs, ((same_addToChain unusedChain i).content n).2.2.2]
  by_cases hni : n = i
  · simp [s', hni]
  · simpa [s', hni] using hhash n (List.mem_of_ne_of_mem hni hn)

theorem resetUpTo_foldl {is done : List (Fin tlbSize)} (h : s.ResetUpTo done)
    (his : is.Nodup) (hd : ∀ i ∈ is, i ∉ done) :
    (is.foldl resetTlbEntry s).ResetUpTo (is.reverse ++ done) := by
  induction is generalizing s done with
  | nil => exact h
  | cons i is ih =>
    obtain ⟨hi, hnd⟩ := List.nodup_cons.mp his
    have hrest : ∀ k ∈ is, k ∉ i :: done := by
      intro k hk hm
      rcases List.mem_cons.mp hm with rfl | hm
      · exact hi hk
      · exact hd k (List.mem_cons_of_mem i hk) hm
    have := ih (resetUpTo_entry h (hd i List.mem_cons_self)) hnd hrest
    simpa using this

theorem resetTlb_onChains (s : MipsState M) :
    (∃ l, s.resetTlb.OnChains l) ∧ ∀ n, (s.resetTlb.tlb n).hash = unusedChain := by
  have h0 : ({ s with tlbMap := fun _ => none } : MipsState M).ResetUpTo [] :=
    ⟨⟨_, Chains.held_empty _ _⟩, fun n hn => absurd hn List.not_mem_nil⟩
  obtain ⟨⟨l, hl⟩, hhash⟩ := resetUpTo_foldl h0 (List.nodup_finRange tlbSize)
    fun i _ => List.not_mem_nil
  have hall : ∀ n, (s.resetTlb.tlb n).hash = unusedChain := fun n => hhash n (by simp)
  have hb : (fun n => some (s.resetTlb.tlb n).hash) =
      fun n => if n ∈ (List.finRange tlbSize).reverse ++ [] then some unusedChain else none := by
    funext n
    rw [hall n]
    simp
  refine ⟨⟨l, ?_⟩, hall⟩
  unfold OnChains
  rw [hb]
  exact hl

end MipsState

/-! ## The refinement -/

/-- The chains of `s` hold the entries of `w`: every written entry with its registers on the
chain of its address, every other one on the extra chain. -/
structure Refines (s : MipsState M) (w : AssocTlb) : Prop where
  onChains : ∃ l, s.OnChains l
  written : ∀ n e, w n = some e → (s.tlb n).hi = e.tag ∧ (s.tlb n).loReg 0 = e.entryLo0 ∧
    (s.tlb n).loReg 1 = e.entryLo1 ∧ (s.tlb n).hash = tlbHash e.entryHi
  unwritten : ∀ n, w n = none → (s.tlb n).hash = unusedChain

theorem refines_resetTlb (s : MipsState M) : Refines s.resetTlb fun _ => none where
  onChains := (MipsState.resetTlb_onChains s).1
  written n e h := by cases h
  unwritten n _ := (MipsState.resetTlb_onChains s).2 n

theorem Refines.setTlbEntry {s : MipsState M} {w : AssocTlb} (h : Refines s w) (n : Uint32) :
    Refines (s.setTlbEntry n) (w.write n s.entryRegs) := by
  by_cases hn : n.toNat < tlbSize
  · have hc := fun k => MipsState.content_setTlbEntry (s := s) hn k
    refine ⟨MipsState.onChains_setTlbEntry n h.onChains, fun k e he => ?_, fun k hk => ?_⟩
    · obtain ⟨h1, h2, -, h4⟩ := hc k
      rw [h1, h2, h4]
      unfold AssocTlb.write at he
      rw [dif_pos hn] at he
      by_cases hkn : k = ⟨n.toNat, hn⟩
      · subst hkn
        rw [Function.update_self] at he
        cases he
        rw [if_pos rfl]
        exact ⟨rfl, rfl, rfl, rfl⟩
      · rw [Function.update_of_ne hkn] at he
        rw [if_neg hkn]
        exact h.written k e he
    · obtain ⟨-, -, -, h4⟩ := hc k
      rw [h4]
      unfold AssocTlb.write at hk
      rw [dif_pos hn] at hk
      by_cases hkn : k = ⟨n.toNat, hn⟩
      · subst hkn
        rw [Function.update_self] at hk
        cases hk
      · rw [Function.update_of_ne hkn] at hk
        rw [if_neg hkn]
        exact h.unwritten k hk
  · unfold AssocTlb.write
    rw [dif_neg hn, MipsState.setTlbEntry_of_le (Nat.not_lt.mp hn)]
    exact h

theorem Refines.of_tlb_eq {s s' : MipsState M} {w : AssocTlb} (h : Refines s w)
    (ht : s'.tlb = s.tlb) (hm : s'.tlbMap = s.tlbMap) : Refines s' w := by
  have hc : s'.chains = s.chains := by
    unfold MipsState.chains
    rw [ht, hm]
  refine ⟨?_, ?_, ?_⟩
  · unfold MipsState.OnChains
    rw [ht, hc]
    exact h.onChains
  · rw [ht]
    exact h.written
  · rw [ht]
    exact h.unwritten

/-! ## The search -/

theorem tlbHash_eq {va va' : Uint32} (h : va >>> 13 = va' >>> 13) : tlbHash va = tlbHash va' := by
  have hb : ∀ x : Uint32, Sparc.bits x 31 13 = x >>> 13 := by
    intro x
    simp [Sparc.bits]
  unfold tlbHash
  simp only [hb, h]

theorem tlbHash_ne_unused (va : Uint32) : tlbHash va ≠ unusedChain := by
  intro h
  have := congrArg Fin.val h
  have hlt : (Sparc.bits va 31 13).toNat % tlbMapSize < 64 := Nat.mod_lt _ (by decide)
  have hv : (tlbHash va).val = (Sparc.bits va 31 13).toNat % tlbMapSize := rfl
  rw [hv] at this
  exact absurd this (Nat.ne_of_lt hlt)

theorem and_bit12 (x : Uint32) : (x &&& 0x1000 != 0) = bit x 12 := by
  have h := BitVec.and_twoPow x 12
  have ht : BitVec.twoPow 32 12 = (0x1000 : Uint32) := by decide
  rw [ht] at h
  unfold bit
  rw [h]
  cases x.getLsbD 12 <;> decide

namespace EntryRegs

variable (e : EntryRegs)

theorem tag_vpn2 : e.tag >>> 13 = e.vpn2 := by
  unfold tag vpn2
  split
  · rw [BitVec.ushiftRight_or_distrib]
    have h : (0x1000 : Uint32) >>> 13 = 0#32 := by decide
    rw [h, BitVec.or_zero]
  · rfl

theorem tag_asid : e.tag &&& 0xFF = e.asid := by
  unfold tag asid
  split
  · rw [BitVec.and_comm, BitVec.and_or_distrib_left]
    have h : (0xFF : Uint32) &&& 0x1000 = 0#32 := by decide
    rw [h, BitVec.or_zero, BitVec.and_comm]
  · rfl

end EntryRegs

namespace MipsState

variable {s : MipsState M}

theorem probeFrom_eq_search (va : Uint32) (fuel : Nat) (p : Option (Fin tlbSize)) :
    s.probeFrom va fuel p = s.chains.search (s.hit va) fuel p := by
  induction fuel generalizing p with
  | zero => rfl
  | succ fuel ih =>
    cases p with
    | none => rfl
    | some e =>
      unfold probeFrom Chains.search
      rw [ih]
      rfl

theorem hit_vpn2 {va : Uint32} {n : Fin tlbSize} (h : s.hit va n) :
    va >>> 13 = (s.tlb n).hi >>> 13 := by
  unfold hit at h
  rw [Bool.and_eq_true] at h
  exact eq_of_beq h.2

end MipsState

namespace Refines

variable {s : MipsState M} {w : AssocTlb}

theorem hit_eq (h : Refines s w) {n : Fin tlbSize} {e : EntryRegs} (hn : w n = some e)
    (va : Uint32) : s.hit va n = e.translates va s.asid := by
  unfold MipsState.hit EntryRegs.translates
  rw [(h.written n e hn).1, e.tag_vpn2, e.tag_asid, and_bit12, Bool.and_comm]
  rfl

theorem hash_of_hit (h : Refines s w) {n : Fin tlbSize} {e : EntryRegs} (hn : w n = some e)
    {va : Uint32} (hit : s.hit va n) : (s.tlb n).hash = tlbHash va := by
  have hv := MipsState.hit_vpn2 hit
  rw [(h.written n e hn).1, e.tag_vpn2] at hv
  rw [(h.written n e hn).2.2.2]
  exact (tlbHash_eq hv).symm

/-- `probe_tlb` ends; an entry it returns translates the address, and it returns one if any
does. -/
theorem probeTlb (h : Refines s w) (va : Uint32) : ∃ r, s.probeTlb va = some r ∧
    (∀ n, r = some n → ∃ e, w n = some e ∧ e.translates va s.asid) ∧
    (r = none → ∀ n e, w n = some e → ¬e.translates va s.asid) := by
  obtain ⟨l, hl⟩ := h.onChains
  have hlen : (l (tlbHash va)).length < tlbSize + 1 := by
    have := hl.length_le (tlbHash va)
    rw [Fintype.card_fin] at this
    omega
  have hp : s.probeTlb va = some ((l (tlbHash va)).find? (s.hit va)) := by
    unfold MipsState.probeTlb
    rw [MipsState.probeFrom_eq_search]
    exact hl.search_eq (tlbHash va) hlen
  refine ⟨_, hp, fun n hn => ?_, fun hnone n e he ht => ?_⟩
  · have hmem := (hl.mem_iff _ n).mp (List.mem_of_find?_eq_some hn)
    have hhit := List.find?_some hn
    cases he : w n with
    | none =>
      -- an entry never written is on the extra chain
      have hu := h.unwritten n he
      rw [hu] at hmem
      exact absurd (Option.some.inj hmem).symm (tlbHash_ne_unused va)
    | some e => exact ⟨e, rfl, by rw [← h.hit_eq he]; exact hhit⟩
  · have hhit : s.hit va n := by rw [h.hit_eq he]; exact ht
    have hmem : n ∈ l (tlbHash va) :=
      (hl.mem_iff _ n).mpr (congrArg some (h.hash_of_hit he hhit))
    have := List.find?_eq_none.mp hnone n hmem
    exact this hhit

end Refines

/-! ## Runs -/

/-- The states that `reset_tlb` and any later calls of `set_tlb_entry` lead to, with the
entries written; in between anything but the TLB may change, EntryHi and EntryLo included. -/
inductive TlbRun : MipsState M → AssocTlb → Prop
  | reset (s : MipsState M) : TlbRun s.resetTlb fun _ => none
  | write {s w} (n : Uint32) : TlbRun s w → TlbRun (s.setTlbEntry n) (w.write n s.entryRegs)
  | other {s w} {s' : MipsState M} : TlbRun s w → s'.tlb = s.tlb → s'.tlbMap = s.tlbMap →
      TlbRun s' w

theorem TlbRun.setCp0 {s : MipsState M} {w : AssocTlb} (h : TlbRun s w) (n : Nat) (v : Uint32) :
    TlbRun (s.setCp0 n v) w := .other h rfl rfl

theorem TlbRun.refines {s : MipsState M} {w : AssocTlb} (h : TlbRun s w) : Refines s w := by
  induction h with
  | reset s => exact refines_resetTlb s
  | write n _ ih => exact ih.setTlbEntry n
  | other _ ht hm ih => exact ih.of_tlb_eq ht hm

/-- The hashed TLB is the associative one: each entry is on the chain its `hash` names and on
no other, the chains are linked both ways and end, and `probe_tlb` finds an entry where the
linear scan over the written entries does. -/
theorem TlbRun.hashed_eq_associative {s : MipsState M} {w : AssocTlb} (h : TlbRun s w) :
    (∃ l, s.OnChains l ∧ ∀ n hash, n ∈ l hash ↔ (s.tlb n).hash = hash) ∧
    ∀ va, ∃ r, s.probeTlb va = some r ∧ (r.isSome ↔ (w.probe va s.asid).isSome) ∧
      ∀ n, r = some n → ∃ e, w n = some e ∧ e.translates va s.asid := by
  constructor
  · obtain ⟨l, hl⟩ := h.refines.onChains
    exact ⟨l, hl, fun n hash => (hl.mem_iff hash n).trans Option.some_inj⟩
  · intro va
    obtain ⟨r, hr, hsome, hnone⟩ := h.refines.probeTlb va
    refine ⟨r, hr, ?_, hsome⟩
    rw [AssocTlb.probe_isSome_iff]
    constructor
    · intro hs
      obtain ⟨n, hn⟩ := Option.isSome_iff_exists.mp hs
      obtain ⟨e, he, ht⟩ := hsome n hn
      exact ⟨n, e, he, ht⟩
    · rintro ⟨n, e, he, ht⟩
      cases r with
      | none => exact absurd ht (hnone rfl n e he)
      | some n => rfl

/-- An entry written twice, to the chains of two addresses. -/
theorem TlbRun.hashed_eq_associative_rewrite :
    let s := ((blankState ()).resetTlb.setCp0 EntryHi 0x4007).setTlbEntry 3
    let s' := (s.setCp0 EntryHi 0x84007).setTlbEntry 3
    ∃ w : AssocTlb, (w 3).map (·.entryHi) = some 0x84007 ∧
      (∃ l, s'.OnChains l ∧ ∀ n hash, n ∈ l hash ↔ (s'.tlb n).hash = hash) ∧
      ∀ va, ∃ r, s'.probeTlb va = some r ∧ (r.isSome ↔ (w.probe va s'.asid).isSome) ∧
        ∀ n, r = some n → ∃ e, w n = some e ∧ e.translates va s'.asid := by
  intro s s'
  have h : TlbRun s _ := .write 3 (.setCp0 (.reset (blankState ())) EntryHi 0x4007)
  refine ⟨_, ?_, TlbRun.hashed_eq_associative (.write 3 (h.setCp0 EntryHi 0x84007))⟩
  rfl

end SkyEye.Mips
