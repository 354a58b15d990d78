import SkyEye.Ppc.Defs
import Mathlib.Tactic.IntervalCases

/-!
# The translation against the documented lookup

The comment over `ppc_effective_to_physical` gives the lookup of the e500: all entries, the
address space against TS, every PID register against TID. The code never sees the entry 0 of
TLB0, since its index is counted before the body, and reads one behind TLB1; it leaves TS,
PID1, PID2 and the read and execute bits out; and `per_cpu_step` does not say that it
fetches. `refinesLookup_iff` says when it comes to the documented result all the same.
-/

namespace SkyEye.Ppc

open Sparc (Uint32)

/-- What an address is translated for. -/
inductive AccessKind where
  | fetch
  | load
  | store
  deriving DecidableEq, Repr

/-- The flags for it: `per_cpu_step` passes 0. -/
def AccessKind.flags : AccessKind → Nat
  | .fetch => 0
  | .load => mmuRead
  | .store => mmuWrite

/-- The exception of a miss. -/
def AccessKind.miss : AccessKind → ExcType
  | .fetch => .insnTlb
  | .load => .dataTlb
  | .store => .dataTlb

/-- The exception of a denied access. -/
def AccessKind.denied : AccessKind → ExcType
  | .fetch => .insnSt
  | .load => .dataSt
  | .store => .dataSt

namespace E500Core

variable {M : Type} (behind : TlbEntry) (s : E500Core M)

/-! ## The documented lookup -/

/-- The indices of both arrays. -/
abbrev entries : Nat := l2Tlb0Size + l2Tlb1Size

/-- MSR[IS] or MSR[DS] -/
def addressSpace (kind : AccessKind) : Uint32 :=
  match kind with
  | .fetch => if s.msr &&& 0x20 ≠ 0 then 1 else 0
  | .load => if s.msr &&& 0x10 ≠ 0 then 1 else 0
  | .store => if s.msr &&& 0x10 ≠ 0 then 1 else 0

/-- `k` where a page has `2 ^ k` bytes: 4 KB in TLB0, `4 ^ size` KB in TLB1. -/
def pageBits (i : Nat) : Nat :=
  if i < l2Tlb0Size then 12 else 10 + 2 * (s.entryAt behind i).size.toNat

/-- The page of the entry has the address in it. -/
def Covers (va : Uint32) (i : Nat) : Prop :=
  va.toNat / 2 ^ s.pageBits behind i =
    ((s.entryAt behind i).epn <<< 12).toNat / 2 ^ s.pageBits behind i

/-- The entry is the one for the access: valid, in its address space, of one of its PIDs. -/
structure Matches (kind : AccessKind) (va : Uint32) (i : Nat) : Prop where
  valid : (s.entryAt behind i).v ≠ 0
  space : (s.entryAt behind i).ts = s.addressSpace kind
  pid : (s.entryAt behind i).tid = 0 ∨ ∃ j, s.mmu.pid j = (s.entryAt behind i).tid.setWidth 64
  covers : s.Covers behind va i

/-- The bit of `usxrw` that allows an access: UX, SX, UW, SW, UR, SR from the left. -/
def permission (kind : AccessKind) : Uint32 :=
  match kind with
  | .fetch => if s.msr &&& 0x4000 ≠ 0 then 0x20 else 0x10
  | .store => if s.msr &&& 0x4000 ≠ 0 then 0x8 else 0x4
  | .load => if s.msr &&& 0x4000 ≠ 0 then 0x2 else 0x1

/-- The entry allows the access. -/
def Allows (kind : AccessKind) (i : Nat) : Prop :=
  (s.entryAt behind i).usxrw &&& s.permission kind ≠ 0

instance (kind : AccessKind) (i : Nat) : Decidable (s.Allows behind kind i) :=
  inferInstanceAs (Decidable (_ ≠ _))

/-- The real address: RPN with the offset in the page. -/
def realAddress (va : Uint32) (i : Nat) : Uint32 :=
  ((s.entryAt behind i).rpn <<< 12) ||| BitVec.ofNat 32 (va.toNat % 2 ^ s.pageBits behind i)

/-- What the documentation has the access come to. -/
def Documented (kind : AccessKind) (va : Uint32) : Access → Prop
  | .ok pa => ∃ i < entries, s.Matches behind kind va i ∧ s.Allows behind kind i ∧
      pa = s.realAddress behind va i
  | .exc type =>
    (type = kind.denied ∧ ∃ i < entries, s.Matches behind kind va i ∧ ¬s.Allows behind kind i) ∨
    (type = kind.miss ∧ ∀ i < entries, ¬s.Matches behind kind va i)

/-- The code comes to the documented result, examines no index outside the arrays, and every
entry where it has to. -/
structure RefinesLookup (kind : AccessKind) (va : Uint32) : Prop where
  documented : s.Documented behind kind va (s.lookup behind va kind.flags)
  inside : ∀ i ∈ s.examined behind va kind.flags, i < entries
  every : (∀ i < entries, ¬s.Matches behind kind va i) →
    ∀ i < entries, i ∈ s.examined behind va kind.flags

/-! ## The entry that the code takes -/

/-- The code takes the entry: it is valid, of TID 0 or PID0, and covers the address. The size
0xB is for 4 GB there, also in TLB0. -/
structure Takes (va : Uint32) (i : Nat) : Prop where
  valid : (s.entryAt behind i).v ≠ 0
  pid : (s.entryAt behind i).tid = 0 ∨ s.mmu.pid 0 = (s.entryAt behind i).tid.setWidth 64
  covers : if (s.entryAt behind i).size ≠ 0xB then s.Covers behind va i
    else (s.entryAt behind i).epn <<< 12 ≤ va

/-- The code lets a store through: it does not ask for the size 0xB. -/
def LetsWrite (i : Nat) : Prop := (s.entryAt behind i).size = 0xB ∨ s.Allows behind .store i

instance (i : Nat) : Decidable (s.LetsWrite behind i) :=
  inferInstanceAs (Decidable (_ ∨ _))

/-- The address that it returns. -/
def reached (va : Uint32) (i : Nat) : Uint32 :=
  if (s.entryAt behind i).size ≠ 0xB then s.realAddress behind va i
  else ((s.entryAt behind i).rpn <<< 12) ||| (va - ((s.entryAt behind i).epn <<< 12))

/-- TLB1 has pages of 4 KB to 1 GB. -/
def SizesInRange : Prop :=
  ∀ i, 1 ≤ (s.mmu.l2Tlb1Vsp i).size.toNat ∧ (s.mmu.l2Tlb1Vsp i).size.toNat ≤ 10

end E500Core

/-! ## Masks -/

theorem pageMask_eq {size : Uint32} (h0 : 1 ≤ size.toNat) (h1 : size.toNat ≤ 10) :
    pageMask size = BitVec.allOnes 32 <<< (10 + 2 * size.toNat) := by
  unfold pageMask
  generalize size.toNat = n at *
  interval_cases n <;> decide

theorem not_allOnes_shiftLeft (k : Nat) (hk : k < 32) :
    ~~~(BitVec.allOnes 32 <<< k) = BitVec.ofNat 32 (2 ^ k - 1) := by
  apply BitVec.eq_of_getLsbD_eq
  intro i hi
  rw [BitVec.getLsbD_not, BitVec.getLsbD_shiftLeft, BitVec.getLsbD_ofNat,
    Nat.testBit_two_pow_sub_one, BitVec.getLsbD_allOnes]
  have hi' : i - k < 32 := by omega
  simp [hi, hi']

theorem and_mask_eq_iff (a b : Uint32) (k : Nat) :
    a &&& (BitVec.allOnes 32 <<< k) = b &&& (BitVec.allOnes 32 <<< k) ↔
      a.toNat / 2 ^ k = b.toNat / 2 ^ k := by
  rw [← BitVec.toNat_inj, Word.toNat_and_high, Word.toNat_and_high]
  exact Nat.mul_left_inj (Nat.pos_iff_ne_zero.mp (Nat.two_pow_pos k))

theorem and_not_mask (a : Uint32) (k : Nat) (hk : k < 32) :
    a &&& ~~~(BitVec.allOnes 32 <<< k) = BitVec.ofNat 32 (a.toNat % 2 ^ k) := by
  have hlt : a.toNat % 2 ^ k < 2 ^ 32 := Nat.lt_of_le_of_lt (Nat.mod_le _ _) a.isLt
  rw [not_allOnes_shiftLeft k hk, ← BitVec.toNat_inj, Word.toNat_and_low a k (by omega),
    BitVec.toNat_ofNat, Nat.mod_eq_of_lt hlt]

namespace E500Core

variable {M : Type} {behind : TlbEntry} {s : E500Core M}

theorem maskAt_eq (hs : s.SizesInRange) {i : Nat} (hi : i < entries) :
    s.maskAt behind i = BitVec.allOnes 32 <<< s.pageBits behind i ∧ s.pageBits behind i < 32 := by
  unfold maskAt pageBits
  by_cases h0 : i < 256
  · rw [if_neg (show ¬i > 256 - 1 by omega), if_pos h0]
    exact ⟨by decide, by decide⟩
  · have h1 : i - 256 < 16 := by
      have hi' : i < 272 := hi
      omega
    have he : s.entryAt behind i = s.mmu.l2Tlb1Vsp ⟨i - 256, h1⟩ := by
      unfold entryAt
      rw [dif_neg h0, dif_pos h1]
    obtain ⟨hlo, hhi⟩ := hs ⟨i - 256, h1⟩
    rw [if_pos (show i > 256 - 1 by omega), if_neg h0, he]
    exact ⟨pageMask_eq hlo hhi, by omega⟩

theorem writeDenied_iff (i : Nat) :
    s.writeDenied (s.entryAt behind i) = true ↔ ¬s.Allows behind .store i := by
  unfold writeDenied Allows permission
  dsimp only
  split <;> simp

/-- An entry that the code takes ends the loop. -/
theorem examine_of_takes (hs : s.SizesInRange) {i : Nat} (hi : i < entries) {va : Uint32}
    (kind : AccessKind) (h : s.Takes behind va i) : s.examine behind va kind.flags i =
      if kind = .store ∧ ¬s.LetsWrite behind i then some (.exc .dataSt)
      else some (.ok (s.reached behind va i)) := by
  have hpid : ¬((s.entryAt behind i).tid ≠ 0 ∧
      s.mmu.pid 0 ≠ (s.entryAt behind i).tid.setWidth 64) := by
    rintro ⟨h0, h1⟩
    exact h.pid.elim h0 h1
  have hc := h.covers
  obtain ⟨hm, hb⟩ := @maskAt_eq M behind s hs i hi
  unfold examine reached LetsWrite
  dsimp only
  rw [if_neg h.valid, if_neg (by simp), if_neg hpid]
  by_cases hz : (s.entryAt behind i).size = 0xB
  · rw [if_neg (not_not.mpr hz)] at hc
    rw [if_neg (not_not.mpr hz), if_neg (BitVec.not_lt.mpr hc), if_neg (not_not.mpr hz),
      if_neg fun hk => hk.2 (.inl hz)]
  · rw [if_pos hz] at hc
    have hkind : (kind.flags = mmuWrite ∧ s.writeDenied (s.entryAt behind i) = true) ↔
        (kind = .store ∧ ¬((s.entryAt behind i).size = 0xB ∨ s.Allows behind .store i)) := by
      rw [writeDenied_iff, not_or, and_iff_right hz]
      refine and_congr_left fun _ => ?_
      cases kind <;> decide
    rw [if_pos hz, hm, if_neg (not_not.mpr ((and_mask_eq_iff _ _ _).mpr hc)), if_pos hz,
      and_not_mask va _ hb]
    simp only [hkind]
    rfl

/-- The others are passed over. -/
theorem examine_of_not_takes (hs : s.SizesInRange) {i : Nat} (hi : i < entries) {va : Uint32}
    (flags : Nat) (h : ¬s.Takes behind va i) : s.examine behind va flags i = none := by
  obtain ⟨hm, -⟩ := @maskAt_eq M behind s hs i hi
  unfold examine
  dsimp only
  split
  · rfl
  · rename_i hv
    rw [if_neg (by simp)]
    split
    · rfl
    · rename_i hpid
      have hpid' : (s.entryAt behind i).tid = 0 ∨
          s.mmu.pid 0 = (s.entryAt behind i).tid.setWidth 64 := by
        by_contra hn
        exact hpid (not_or.mp hn)
      split
      · rename_i hz
        refine if_pos fun hmask => h ⟨hv, hpid', ?_⟩
        rw [hm, and_mask_eq_iff] at hmask
        rw [if_pos hz]
        exact hmask
      · rename_i hz
        refine if_pos (BitVec.not_le.mp fun hle => h ⟨hv, hpid', ?_⟩)
        rw [if_neg hz]
        exact hle

/-! ## The walk -/

theorem walk_of_passed {va : Uint32} {flags : Nat} {is : List Nat} {r : Access} {k : Nat}
    (rest : List Nat) (hp : ∀ i ∈ is, s.examine behind va flags i = none)
    (hk : s.examine behind va flags k = some r) :
    s.walk behind va flags (is ++ k :: rest) = (is ++ [k], some r) := by
  induction is with
  | nil =>
    rw [List.nil_append, walk, hk]
    rfl
  | cons i is ih =>
    rw [List.cons_append, walk, hp i List.mem_cons_self,
      ih fun j hj => hp j (List.mem_cons_of_mem _ hj)]
    rfl

theorem mem_walk_of_passed {va : Uint32} {flags : Nat} {is : List Nat} {k : Nat}
    (rest : List Nat) (hp : ∀ i ∈ is, s.examine behind va flags i = none) :
    k ∈ (s.walk behind va flags (is ++ k :: rest)).1 := by
  induction is with
  | nil =>
    rw [List.nil_append, walk]
    split <;> exact List.mem_cons_self
  | cons i is ih =>
    rw [List.cons_append, walk, hp i List.mem_cons_self]
    exact List.mem_cons_of_mem _ (ih fun j hj => hp j (List.mem_cons_of_mem _ hj))

/-- The indices before `k`, in the order of the walk. -/
def before (k : Nat) : List Nat := (List.range (k - 1)).map (· + 1)

theorem mem_before {k i : Nat} : i ∈ before k ↔ 1 ≤ i ∧ i < k := by
  unfold before
  rw [List.mem_map]
  constructor
  · rintro ⟨j, hj, rfl⟩
    rw [List.mem_range] at hj
    omega
  · rintro ⟨h1, hk⟩
    exact ⟨i - 1, List.mem_range.mpr (by omega), by omega⟩

theorem walkIndices_eq {k : Nat} (h1 : 1 ≤ k) (hk : k ≤ entries) :
    ∃ rest, walkIndices = before k ++ k :: rest := by
  obtain ⟨d, hd⟩ := Nat.exists_eq_add_of_le hk
  have hn : l2Tlb0Size + l2Tlb1Size = (k - 1) + (d + 1) := by
    have he : l2Tlb0Size + l2Tlb1Size = k + d := hd
    omega
  refine ⟨((List.range d).map fun i => (k - 1) + (i + 1)).map (· + 1), ?_⟩
  unfold walkIndices before
  rw [hn, List.range_add, List.map_append, List.range_succ_eq_map, List.map_cons, List.map_cons,
    List.map_map, List.map_map]
  congr 2
  · omega
  · rw [List.map_map]
    rfl

/-- `k` is the first entry that the code takes. -/
def FirstTaken (s : E500Core M) (behind : TlbEntry) (va : Uint32) (k : Nat) : Prop :=
  1 ≤ k ∧ k < entries ∧ s.Takes behind va k ∧ ∀ j, 1 ≤ j → j < k → ¬s.Takes behind va j

theorem walk_of_firstTaken (hs : s.SizesInRange) {va : Uint32} {k : Nat} (kind : AccessKind)
    (hk : s.FirstTaken behind va k) : s.walk behind va kind.flags walkIndices =
      (before k ++ [k], if kind = .store ∧ ¬s.LetsWrite behind k then some (.exc .dataSt)
        else some (.ok (s.reached behind va k))) := by
  obtain ⟨h1, hlt, ht, hfirst⟩ := hk
  obtain ⟨rest, hw⟩ := walkIndices_eq h1 (Nat.le_of_lt hlt)
  have hp : ∀ i ∈ before k, s.examine behind va kind.flags i = none := fun i hi =>
    have hi' := mem_before.mp hi
    examine_of_not_takes hs (by omega) _ (hfirst i hi'.1 hi'.2)
  have he := examine_of_takes hs hlt kind ht
  rw [hw]
  split at he
  · rename_i hd
    rw [walk_of_passed rest hp he, if_pos hd]
  · rename_i hd
    rw [walk_of_passed rest hp he, if_neg hd]

/-- Without one the walk gets behind TLB1. -/
theorem examined_behind (hs : s.SizesInRange) {va : Uint32} (flags : Nat)
    (hn : ∀ k, ¬s.FirstTaken behind va k) : entries ∈ s.examined behind va flags := by
  have hnone : ∀ k, 1 ≤ k → k < entries → ¬s.Takes behind va k := by
    intro k
    induction k using Nat.strongRecOn with
    | ind k ih =>
      intro h1 hk ht
      exact hn k ⟨h1, hk, ht, fun j hj hjk => ih j hjk hj (by omega)⟩
  obtain ⟨rest, hw⟩ := walkIndices_eq (k := entries) (by decide) (Nat.le_refl _)
  unfold examined
  rw [hw]
  refine mem_walk_of_passed rest fun i hi => ?_
  obtain ⟨h1, hi⟩ := mem_before.mp hi
  exact examine_of_not_takes hs hi flags (hnone i h1 hi)

/-- When the code comes to the documented result: the first entry it takes, the entry 0 of
TLB0 left out, does what the documented one does. -/
def ReachesRight (s : E500Core M) (behind : TlbEntry) (kind : AccessKind) (va : Uint32) : Prop :=
  ∃ k m, s.FirstTaken behind va k ∧ m < entries ∧ s.Matches behind kind va m ∧
    ((s.Allows behind kind m ∧ ¬(kind = .store ∧ ¬s.LetsWrite behind k) ∧
        s.reached behind va k = s.realAddress behind va m) ∨
      (¬s.Allows behind kind m ∧ kind = .store ∧ ¬s.LetsWrite behind k))

end E500Core

/-- The code refines the documented lookup exactly under `ReachesRight`. -/
theorem refinesLookup_iff {M : Type} {s : E500Core M} {behind : TlbEntry} (kind : AccessKind)
    (va : Uint32) (hs : s.SizesInRange) :
    s.RefinesLookup behind kind va ↔ s.ReachesRight behind kind va := by
  constructor
  · intro h
    have hk : ∃ k, s.FirstTaken behind va k := by
      by_contra hn
      have hmem := E500Core.examined_behind hs kind.flags (not_exists.mp hn)
      exact absurd (h.inside _ hmem) (Nat.lt_irrefl _)
    obtain ⟨k, hk⟩ := hk
    have hd := h.documented
    unfold E500Core.lookup at hd
    rw [E500Core.walk_of_firstTaken hs kind hk] at hd
    by_cases hw : kind = .store ∧ ¬s.LetsWrite behind k
    · rw [if_pos hw] at hd
      rcases hd with ⟨-, m, hm, hmatch, hdeny⟩ | ⟨he, -⟩
      · exact ⟨k, m, hk, hm, hmatch, .inr ⟨hdeny, hw⟩⟩
      · rw [hw.1] at he
        cases he
    · rw [if_neg hw] at hd
      obtain ⟨m, hm, hmatch, hallow, hpa⟩ := hd
      exact ⟨k, m, hk, hm, hmatch, .inl ⟨hallow, hw, hpa⟩⟩
  · rintro ⟨k, m, hk, hm, hmatch, hor⟩
    have hwalk := E500Core.walk_of_firstTaken hs kind hk
    refine ⟨?_, ?_, fun hn => absurd hmatch (hn m hm)⟩
    · unfold E500Core.lookup
      rw [hwalk]
      rcases hor with ⟨hallow, hw, hpa⟩ | ⟨hdeny, hw⟩
      · rw [if_neg hw]
        exact ⟨m, hm, hmatch, hallow, hpa⟩
      · rw [if_pos hw]
        refine .inl ⟨?_, m, hm, hmatch, hdeny⟩
        rw [hw.1]
        rfl
    · intro i hi
      unfold E500Core.examined at hi
      rw [hwalk] at hi
      rcases List.mem_append.mp hi with hi | hi
      · exact Nat.lt_trans (E500Core.mem_before.mp hi).2 hk.2.1
      · rw [List.mem_singleton.mp hi]
        exact hk.2.1

/-- An entry that is not valid. -/
def noEntry : TlbEntry := ⟨0, 0, 0, 0, 0, 1, 0, 0, 0, 0, 0⟩

/-- A page at 0x40000, of all processes and for all accesses. `tlbwe` puts it in the first entry
of one of the four ways of TLB0. -/
def pageEntry : TlbEntry := ⟨1, 0, 0, 0x40, 5, 1, 0x3F, 0, 0, 0, 0⟩

/-- A core with `pageEntry` at the index `n` of TLB0 and nothing else in its TLBs. -/
def onePage (n : Fin l2Tlb0Size) : E500Core Unit where
  gpr _ := 0
  fpr _ := 0
  cr := 0
  xer := 0
  msr := 0
  srr0 := 0
  srr1 := 0
  pc := 0x1000
  npc := 0x1000
  currentOpc := 0
  reserve := 0
  haveReservation := false
  esr := 0
  dear := 0
  tsr := 0
  ivpr := 0
  ivor _ := 0
  mmu := {
    pid _ := 0
    mas _ := 0
    tlb0Nv := 0
    l2Tlb0_4k i := if i = n then pageEntry else noEntry
    l2Tlb1Vsp _ := noEntry }
  mem := ()
  raised := []
  written := []

theorem sizesInRange_onePage (n : Fin l2Tlb0Size) : (onePage n).SizesInRange :=
  fun _ => (by decide : 1 ≤ noEntry.size.toNat ∧ noEntry.size.toNat ≤ 10)

theorem valid_onePage {n : Fin l2Tlb0Size} {i : Nat}
    (h : ((onePage n).entryAt noEntry i).v ≠ 0) : i = n := by
  unfold E500Core.entryAt at h
  split at h
  · rename_i hi
    by_cases hn : (⟨i, hi⟩ : Fin l2Tlb0Size) = n
    · exact congrArg Fin.val hn
    · exact absurd (congrArg TlbEntry.v (if_neg hn : (onePage n).mmu.l2Tlb0_4k ⟨i, hi⟩ = _)) h
  · split at h
    · exact absurd rfl h
    · exact absurd rfl h

theorem matches_onePage (n : Fin l2Tlb0Size) (kind : AccessKind) :
    (onePage n).Matches noEntry kind 0x40000 n := by
  have he : (onePage n).entryAt noEntry n = pageEntry := by
    unfold E500Core.entryAt
    rw [dif_pos n.isLt]
    exact if_pos rfl
  have hb : (onePage n).pageBits noEntry n = 12 := if_pos n.isLt
  refine ⟨?_, ?_, ?_, ?_⟩
  · rw [he]
    decide
  · rw [he]
    cases kind <;> exact (if_neg (not_not.mpr BitVec.zero_and)).symm
  · rw [he]
    exact .inl rfl
  · unfold E500Core.Covers
    rw [he, hb]
    decide

/-- A page that the entry 0 of TLB0 maps is not found. -/
theorem not_refinesLookup_first : ¬∀ (s : E500Core Unit) (behind : TlbEntry)
    (bptr va : Uint32) (kind : AccessKind), s.SizesInRange →
      (∀ kind va i j, s.Matches behind kind va i → s.Matches behind kind va j →
        i < E500Core.entries → j < E500Core.entries → i = j) →
      E500Core.inBootPage bptr va = false → s.RefinesLookup behind kind va := by
  intro hall
  have h := hall (onePage 0) noEntry 0 0x40000 .load (sizesInRange_onePage 0)
    (fun _ _ i j hi hj _ _ => (valid_onePage hi.valid).trans (valid_onePage hj.valid).symm)
    (by decide)
  have hl : (onePage 0).lookup noEntry 0x40000 AccessKind.load.flags = .exc .dataTlb := by
    decide +kernel
  have hd := h.documented
  rw [hl] at hd
  rcases hd with ⟨he, -⟩ | ⟨-, hn⟩
  · cases he
  · exact hn 0 (by decide) (matches_onePage 0 .load)

/-- One that the second way maps is. -/
theorem refinesLookup_iff_second : (onePage 64).RefinesLookup noEntry .load 0x40000 := by
  refine (refinesLookup_iff .load 0x40000 (sizesInRange_onePage 64)).mpr
    ⟨64, 64, ⟨by decide, by decide, ?_, fun j _ hj hhit => ?_⟩, by decide,
      matches_onePage 64 .load, .inl ⟨by decide +kernel, by decide, by decide +kernel⟩⟩
  · have hm := matches_onePage 64 .load
    exact ⟨hm.valid, .inl (by decide +kernel), hm.covers⟩
  · have h64 : j = 64 := valid_onePage hhit.valid
    omega

end SkyEye.Ppc
