import Mathlib.Tactic.IntervalCases
import Mathlib.Tactic.SplitIfs
import SkyEye.Mmu.Tlb
import SkyEye.Lib.Memo
import SkyEye.Lib.Word
import SkyEye.Lib.Runs

/-!
# The translation table is transparent

The table holds results of the walk, and an entry is hit by every address of its
page. Where the descriptors of a page are replicated over all its slots, the walk
gives the same entry at all these addresses (`walk_eq_of_hit`), so the table is a
`Memo` of the walk and `translate` answers as the walk does, whatever the history.
-/

namespace SkyEye.MmuState

open Memo

variable {U : Type} {m m₀ : MmuState U}

/-! ## Which descriptors an address uses -/

theorem and_congr_of_sub {va va' M N : ARMword} (hN : M &&& N = N) (h : va' &&& M = va &&& M) :
    va' &&& N = va &&& N := by
  rw [← hN, ← BitVec.and_assoc, h, BitVec.and_assoc]

theorem l1index_eq (va : ARMword) :
    (va >>> 18) &&& ~~~(3 : ARMword) = (va &&& 0xFFF00000) >>> 18 := by
  apply BitVec.eq_of_getLsbD_eq
  intro i hi
  simp only [BitVec.getLsbD_and, BitVec.getLsbD_ushiftRight, BitVec.getLsbD_not]
  interval_cases i <;> simp

theorem l1desc_congr {va va' : ARMword} (h : va' &&& 0xFFF00000 = va &&& 0xFFF00000) :
    m.l1desc va' = m.l1desc va := by
  have ha : m.l1addr va' = m.l1addr va := by
    simp only [l1addr, BitVec.and_or_distrib_right, l1index_eq, h]
  simp only [l1desc, ha]

theorem l2desc_congr_coarse {va va' : ARMword} (h : va' &&& 0xFFFFF000 = va &&& 0xFFFFF000)
    (h1 : m.l1desc va &&& 3 = 1) : m.l2desc va' = m.l2desc va := by
  have hl := l1desc_congr (m := m) (and_congr_of_sub (N := 0xFFF00000) rfl h)
  have ha : va' &&& 0x000FF000 = va &&& 0x000FF000 := and_congr_of_sub rfl h
  simp only [l2desc, l2addr, hl, h1, if_true, ha]

theorem l2desc_congr {va va' : ARMword} (h : va' &&& 0xFFFFFC00 = va &&& 0xFFFFFC00) :
    m.l2desc va' = m.l2desc va := by
  have hl := l1desc_congr (m := m) (and_congr_of_sub (N := 0xFFF00000) rfl h)
  have hc : va' &&& 0x000FF000 = va &&& 0x000FF000 := and_congr_of_sub rfl h
  have hf : va' &&& 0x000FFC00 = va &&& 0x000FFC00 := and_congr_of_sub rfl h
  simp only [l2desc, l2addr, hl, hc, hf]

/-! ## Replication -/

/-- Page descriptors are repeated in every slot their page spans: large pages over 64 KB of
either table, small pages over the 4 KB they take in a fine table. A section has one slot. -/
structure Replicated (m : MmuState U) : Prop where
  large : ∀ va va', va' &&& 0xFFFF0000 = va &&& 0xFFFF0000 →
    m.l1desc va &&& 3 = 1 ∨ m.l1desc va &&& 3 = 3 → m.l2desc va &&& 3 = 1 →
    m.l2desc va' = m.l2desc va
  small : ∀ va va', va' &&& 0xFFFFF000 = va &&& 0xFFFFF000 →
    m.l1desc va &&& 3 = 3 → m.l2desc va &&& 3 = 2 → m.l2desc va' = m.l2desc va

/-- The masks of all page sizes separate megabytes. -/
theorem mask_and_megabyte {k : TlbMapping} (hk : k ≠ .invalid) :
    k.mask &&& 0xFFF00000 = 0xFFF00000 := by
  cases k <;> first | rfl | exact absurd rfl hk

theorem walkEntry_congr {va va' desc perms domain : ARMword} {k : TlbMapping}
    (h : va' &&& k.mask = va &&& k.mask) :
    walkEntry va' desc perms domain k = walkEntry va desc perms domain k := by
  simp only [walkEntry, h]

theorem decodeDescs_mapping {x : Bool} {l1 l2 va : ARMword} {e : TlbEntry}
    (h : decodeDescs x l1 l2 va = .ok e) :
    match e.mapping with
    | .invalid => False
    | .sect => l1 &&& 3 = 2
    | .largepage => l1 &&& 3 ≠ 0 ∧ l1 &&& 3 ≠ 2 ∧ l2 &&& 3 = 1
    | .smallpage => l1 &&& 3 ≠ 0 ∧ l1 &&& 3 ≠ 2 ∧ l2 &&& 3 = 2
    | .tinypage => l1 &&& 3 = 3
    | .esmallpage => l1 &&& 3 ≠ 0 ∧ l1 &&& 3 ≠ 2 ∧ l1 &&& 3 ≠ 3 := by
  simp only [decodeDescs] at h
  split_ifs at h with h0 h2 p0 p1 p2 h3 hx <;> cases h <;> simp_all [walkEntry]

/-- The descriptors say the same of all addresses of the page. -/
theorem decodeDescs_congr {x : Bool} {l1 l2 va va' : ARMword} {e : TlbEntry}
    (h : decodeDescs x l1 l2 va = .ok e) (hh : va' &&& e.mapping.mask = va &&& e.mapping.mask) :
    decodeDescs x l1 l2 va' = .ok e := by
  simp only [decodeDescs] at h ⊢
  split_ifs at h ⊢ <;> cases h <;> exact congrArg Except.ok (walkEntry_congr hh)

theorem decodeDescs_sect {x : Bool} {l1 : ARMword} (h : l1 &&& 3 = 2) (l2 l2' va : ARMword) :
    decodeDescs x l1 l2 va = decodeDescs x l1 l2' va := by
  have h0 : ¬ (2 : ARMword) = 0 := by decide
  simp only [decodeDescs, h, h0, if_false, if_true]

/-- An address that an entry of the walk covers has that entry itself. -/
theorem walk_eq_of_hit (hr : m.Replicated) {x : Bool} {va va' : ARMword} {e : TlbEntry}
    (hw : m.walk x va = .ok e) (hh : va' &&& e.mapping.mask = va &&& e.mapping.mask) :
    m.walk x va' = .ok e := by
  have hd := decodeDescs_mapping hw
  have hv : e.mapping ≠ .invalid := by
    intro h; rw [h] at hd; exact hd
  have hl := l1desc_congr (m := m) (and_congr_of_sub (mask_and_megabyte hv) hh)
  have h1 (h0 : m.l1desc va &&& 3 ≠ 0) (h2 : m.l1desc va &&& 3 ≠ 2) :
      m.l1desc va &&& 3 = 1 ∨ m.l1desc va &&& 3 = 3 := by
    rcases Word.and_three_cases (m.l1desc va) with h | h | h | h <;> simp_all
  rw [walk, hl]
  cases hk : e.mapping with
  | invalid => exact absurd hk hv
  | sect =>
    rw [hk] at hd
    rw [decodeDescs_sect hd _ (m.l2desc va)]
    exact decodeDescs_congr hw hh
  | largepage =>
    rw [hk] at hd hh
    rw [hr.large va va' hh (h1 hd.1 hd.2.1) hd.2.2]
    exact decodeDescs_congr hw (hk ▸ hh)
  | smallpage =>
    rw [hk] at hd hh
    rcases h1 hd.1 hd.2.1 with hc | hf
    · rw [l2desc_congr_coarse hh hc]
      exact decodeDescs_congr hw (hk ▸ hh)
    · rw [hr.small va va' hh hf hd.2.2]
      exact decodeDescs_congr hw (hk ▸ hh)
  | tinypage =>
    rw [hk] at hh
    rw [l2desc_congr hh]
    exact decodeDescs_congr hw (hk ▸ hh)
  | esmallpage =>
    rw [hk] at hd hh
    rw [l2desc_congr_coarse hh ((h1 hd.1 hd.2.1).resolve_right hd.2.2)]
    exact decodeDescs_congr hw (hk ▸ hh)

/-! ## The table -/

/-- Every valid entry is the walk's answer at all the addresses it hits. -/
def TlbSound (m : MmuState U) (x : Bool) (tlb : Tlb) : Prop :=
  Sound TlbEntry.hit (m.walk x) tlb.entrys

theorem hit_invalid (e : TlbEntry) (va : ARMword) :
    TlbEntry.hit { e with mapping := .invalid } va = false := rfl

theorem tlbSound_invalidateAll (x : Bool) (tlb : Tlb) : m.TlbSound x tlb.invalidateAll := by
  apply sound_of_not_hit
  intro e he va
  obtain ⟨e', -, rfl⟩ := List.mem_map.mp he
  exact hit_invalid e' va

theorem TlbSound.invalidateEntry {x : Bool} {tlb : Tlb} (h : m.TlbSound x tlb) (va : ARMword) :
    m.TlbSound x (tlb.invalidateEntry va) :=
  Sound.modify h hit_invalid _

/-- A fresh entry is hit by the addresses of its page. -/
theorem and_mask_of_hit {x : Bool} {va va' : ARMword} {e : TlbEntry} (hw : m.walk x va = .ok e)
    (hh : e.hit va' = true) : va' &&& e.mapping.mask = va &&& e.mapping.mask := by
  have hv : e.virtAddr = va &&& e.mapping.mask := by
    simp only [walk, decodeDescs] at hw
    split_ifs at hw <;> cases hw <;> rfl
  rw [TlbEntry.hit, Bool.and_eq_true, beq_iff_eq] at hh
  rw [hh.2, hv, BitVec.and_assoc, BitVec.and_self]

theorem TlbSound.translate (hr : m.Replicated) {x : Bool} {tlb : Tlb} (h : m.TlbSound x tlb)
    (va : ARMword) : m.TlbSound x (m.translate x tlb va).tlb := by
  simp only [MmuState.translate]
  cases hs : tlb.search va with
  | some e => exact h
  | none =>
    cases hw : m.walk x va with
    | error f => exact h
    | ok e =>
      exact h.set (fun va' hh => walk_eq_of_hit hr hw (and_mask_of_hit hw hh)) tlb.cycle

theorem TlbSound.result {x : Bool} {tlb : Tlb} (h : m.TlbSound x tlb) (va : ARMword) :
    (m.translate x tlb va).result = (m.walk x va).mapError WalkFault.fault ∧
    (m.translate x tlb va).lastDomain =
      match m.walk x va with
      | .ok e => e.domain
      | .error f => f.domain.getD m.lastDomain := by
  simp only [MmuState.translate]
  cases hs : tlb.search va with
  | some e =>
    rw [find?_sound h hs]
    exact ⟨rfl, rfl⟩
  | none => cases m.walk x va <;> exact ⟨rfl, rfl⟩

/-! ## Runs -/

/-- What the processor asks of the table. -/
inductive TlbOp where
  | translate (va : ARMword)
  | invalidateEntry (va : ARMword)
  | invalidateAll

/-- The table after an operation, under the registers and the memory of that moment. -/
def tlbStep (x : Bool) (tlb : Tlb) : MmuState U × TlbOp → Tlb
  | (m, .translate va) => (m.translate x tlb va).tlb
  | (_, .invalidateEntry va) => tlb.invalidateEntry va
  | (_, .invalidateAll) => tlb.invalidateAll

def tlbRun (x : Bool) (tlb : Tlb) (ops : List (MmuState U × TlbOp)) : Tlb :=
  ops.foldl (tlbStep x) tlb

/-- The first-level descriptor of `va` refers to a second-level table. -/
def PointsToTable (m : MmuState U) (va : ARMword) : Prop :=
  m.l1desc va &&& 3 = 1 ∨ m.l1desc va &&& 3 = 3

/-- The page tables of `m` are those of `m₀`: the same base, the same first-level descriptors
and, in the second-level tables there are, the same second-level ones. The rest of the memory
and the other registers are free. -/
structure SameTables (m₀ m : MmuState U) : Prop where
  base : m.translationTableBase = m₀.translationTableBase
  l1desc : ∀ va, m.l1desc va = m₀.l1desc va
  l2desc : ∀ va, m₀.PointsToTable va → m.l2desc va = m₀.l2desc va

/-- A faulty first-level descriptor or a section needs no second one. -/
theorem decodeDescs_of_not_table {x : Bool} {l1 : ARMword} (h : ¬ (l1 &&& 3 = 1 ∨ l1 &&& 3 = 3))
    (l2 l2' va : ARMword) : decodeDescs x l1 l2 va = decodeDescs x l1 l2' va := by
  rcases Word.and_three_cases l1 with h0 | h1 | h2 | h3
  · simp only [decodeDescs, h0, if_true]
  · exact absurd (.inl h1) h
  · exact decodeDescs_sect h2 l2 l2' va
  · exact absurd (.inr h3) h

theorem SameTables.walk (h : m₀.SameTables m) (x : Bool) (va : ARMword) :
    m₀.walk x va = m.walk x va := by
  rw [MmuState.walk, MmuState.walk, h.l1desc]
  by_cases ht : m₀.PointsToTable va
  · rw [h.l2desc va ht]
  · exact decodeDescs_of_not_table ht _ _ _

theorem SameTables.replicated (h : m₀.SameTables m) (hr : m₀.Replicated) : m.Replicated where
  large va va' hv ht := by
    rw [h.l1desc] at ht
    have ht' : m₀.PointsToTable va' := by
      rw [PointsToTable, l1desc_congr (and_congr_of_sub (M := 0xFFFF0000) rfl hv)]
      exact ht
    rw [h.l2desc va ht, h.l2desc va' ht']
    exact hr.large va va' hv ht
  small va va' hv hf := by
    rw [h.l1desc] at hf
    have ht' : m₀.PointsToTable va' := by
      rw [PointsToTable, l1desc_congr (and_congr_of_sub (M := 0xFFFFF000) rfl hv)]
      exact .inr hf
    rw [h.l2desc va (.inr hf), h.l2desc va' ht']
    exact hr.small va va' hv hf

theorem tlbSound_step (hr : m₀.Replicated) {x : Bool} {tlb : Tlb} (h : m₀.TlbSound x tlb)
    {op : MmuState U × TlbOp} (ho : m₀.SameTables op.1) : m₀.TlbSound x (tlbStep x tlb op) := by
  obtain ⟨m, op⟩ := op
  cases op with
  | translate va =>
    have hs := TlbSound.translate (ho.replicated hr) (h.congr (ho.walk x)) va
    exact hs.congr fun va => (ho.walk x va).symm
  | invalidateEntry va => exact h.invalidateEntry va
  | invalidateAll => exact tlbSound_invalidateAll x tlb

theorem tlbSound_run (hr : m₀.Replicated) {x : Bool} {tlb : Tlb} (h : m₀.TlbSound x tlb)
    {ops : List (MmuState U × TlbOp)} (ho : ∀ op ∈ ops, m₀.SameTables op.1) :
    m₀.TlbSound x (tlbRun x tlb ops) := by
  induction ops generalizing tlb with
  | nil => exact h
  | cons op ops ih =>
    exact ih (tlbSound_step hr h (ho op List.mem_cons_self))
      fun o ho' => ho o (List.mem_cons_of_mem _ ho')

/-- After an invalidation of the whole table, and as long as the page tables stay, every
translation is that of a fresh walk. -/
theorem translate_transparent (hr : m₀.Replicated) (x : Bool) (tlb : Tlb)
    (ops : List (MmuState U × TlbOp)) (ho : ∀ op ∈ ops, m₀.SameTables op.1)
    (hm : m₀.SameTables m) (va : ARMword) :
    let t := m.translate x (tlbRun x tlb.invalidateAll ops) va
    let fresh := m.translate x tlb.invalidateAll va
    t.result = fresh.result ∧ t.lastDomain = fresh.lastDomain := by
  have hs := tlbSound_run hr (tlbSound_invalidateAll x tlb) ho
  have h1 := TlbSound.result (hs.congr (hm.walk x)) va
  have h2 := TlbSound.result (tlbSound_invalidateAll (m := m) x tlb) va
  exact ⟨h1.1.trans h2.1.symm, h1.2.trans h2.2.symm⟩

theorem SameTables.refl (m : MmuState U) : m.SameTables m := ⟨rfl, fun _ => rfl, fun _ _ => rfl⟩

/-- Every first-level descriptor maps its megabyte to the bottom of the memory. -/
def sections : MmuState Unit :=
  { cleared () with ram := { Ram.cleared with word := fun _ => 0xC02 } }

/-- One section serves addresses on both sides of an invalidated entry. -/
theorem translate_transparent_sections :
    (sections.translate false
      (tlbRun false (Tlb.init 2 (by decide)).invalidateAll
        [(sections, .translate 0x1000), (sections, .invalidateEntry 0x1000),
          (sections, .translate 0x2000)]) 0x3004).result =
      .ok ⟨0, 0, 0xC00, 0, .sect⟩ := by
  have hl (va : ARMword) : sections.l1desc va = 0xC02 := readLane_word _ _ _
  have hr : sections.Replicated := by
    constructor <;> intro va va' _ h <;> rw [hl] at h <;> exact absurd h (by decide)
  refine (translate_transparent hr false (Tlb.init 2 (by decide))
    [(sections, .translate 0x1000), (sections, .invalidateEntry 0x1000),
      (sections, .translate 0x2000)] ?_ (.refl sections) 0x3004).1.trans (by decide +kernel)
  intro op ho
  have : op.1 = sections := by
    simp only [List.mem_cons, List.not_mem_nil, or_false] at ho
    rcases ho with rfl | rfl | rfl <;> rfl
  rw [this]
  exact .refl sections

/-! ## Small pages in a fine table

A fine table has four slots for the 4 KB of a small page, but an entry made from one slot is
hit by all four. -/

/-- The first megabyte has a fine table whose first two slots hold different small pages. -/
def splitSmallPage : MmuState Unit :=
  { cleared () with
    translationTableBase := 0x4000
    ram :=
      { Ram.cleared with
        word := fun i =>
          if i = 0x1000 then 0x10003 else if i = 0x4000 then 0xFF2
          else if i = 0x4001 then 0x1FF2 else 0 } }

/-- Large pages are replicated there (there is none), yet the entry of the first slot answers
for the second. -/
theorem splitSmallPage_not_transparent :
    (∀ va va', va' &&& 0xFFFF0000 = va &&& 0xFFFF0000 →
      splitSmallPage.l1desc va &&& 3 = 1 ∨ splitSmallPage.l1desc va &&& 3 = 3 →
      splitSmallPage.l2desc va &&& 3 = 1 →
      splitSmallPage.l2desc va' = splitSmallPage.l2desc va) ∧
    (splitSmallPage.translate false
      (tlbRun false (Tlb.init 2 (by decide)).invalidateAll [(splitSmallPage, .translate 0)])
      0x400).result ≠
    (splitSmallPage.translate false (Tlb.init 2 (by decide)).invalidateAll 0x400).result := by
  constructor
  · intro va va' _ _ h
    have hw (i : BitVec 30) : splitSmallPage.ram.word i &&& 3 ≠ 1 := by
      simp only [splitSmallPage]
      split_ifs <;> decide
    rw [l2desc, Ram.busRead, readLane_word] at h
    exact absurd h (hw _)
  · decide +kernel

end SkyEye.MmuState

/-!
## Dropping one translation

`mmu_tlb_invalidate_entry` drops the first entry that its search finds. When the page tables
change, a translation may be loaded whose page overlaps that of an entry loaded before, of
another size; from then on one of the two outlives an invalidation of their addresses.
-/

namespace SkyEye

open Memo

namespace Tlb

/-- Dropping the entry of an address leaves none that matches it, so that the next translation
is a walk of the page tables of that moment. -/
def DropsAll (U : Type) (tlb : Tlb) : Prop :=
  ∀ va, (∀ e ∈ (tlb.invalidateEntry va).entrys, e.hit va = false) ∧
    ∀ (m : MmuState U) (x : Bool), (m.translate x (tlb.invalidateEntry va) va).result =
      (m.walk x va).mapError MmuState.WalkFault.fault

theorem search_eq_none_of_not_hit {tlb : Tlb} {va : ARMword}
    (h : ∀ e ∈ tlb.entrys, e.hit va = false) : tlb.search va = none := by
  rw [search, List.find?_eq_none]
  intro e he
  rw [h e he]
  decide

theorem dropsAll_iff_apart {U : Type} {tlb : Tlb} :
    tlb.DropsAll U ↔ Apart TlbEntry.hit tlb.entrys := by
  rw [← not_hit_modify_findIdx_iff MmuState.hit_invalid]
  constructor
  · exact fun h va => (h va).1
  · intro h va
    have hmiss : (tlb.invalidateEntry va).search va = none := search_eq_none_of_not_hit (h va)
    refine ⟨h va, fun m x => ?_⟩
    simp only [MmuState.translate, hmiss]
    cases m.walk x va <;> rfl

end Tlb

namespace MmuState

variable {U : Type}

/-- A translation that is loaded matches no address of an entry that stays in the table. -/
def LoadsApart (x : Bool) (tlb : Tlb) : MmuState U × TlbOp → Prop
  | (m, .translate va) => tlb.search va = none → ∀ e, m.walk x va = .ok e →
      ∀ (j : Nat) (e' : TlbEntry), j ≠ tlb.cycle → tlb.entrys[j]? = some e' →
        ∀ a, e.hit a = true → e'.hit a = false
  | (_, .invalidateEntry _) => True
  | (_, .invalidateAll) => True

theorem apart_step_iff {x : Bool} {tlb : Tlb} (h : Apart TlbEntry.hit tlb.entrys)
    (op : MmuState U × TlbOp) :
    Apart TlbEntry.hit (tlbStep x tlb op).entrys ↔ LoadsApart x tlb op := by
  obtain ⟨m, op⟩ := op
  cases op with
  | translate va =>
    simp only [tlbStep, LoadsApart, MmuState.translate]
    cases hs : tlb.search va with
    | some e => exact ⟨fun _ hn => (by cases hn), fun _ => h⟩
    | none =>
      cases hw : m.walk x va with
      | error f => exact ⟨fun _ _ _ he => (by cases he), fun _ => h⟩
      | ok e =>
        refine (h.set_iff tlb.cycle_lt).trans ⟨?_, ?_⟩
        · rintro ha - _ ⟨⟩
          exact ha
        · exact fun ha => ha rfl e rfl
  | invalidateEntry va => exact iff_of_true (h.modify_of_not_hit hit_invalid _) trivial
  | invalidateAll =>
    refine iff_of_true (apart_of_not_hit fun e he va => ?_) trivial
    obtain ⟨e', -, rfl⟩ := List.mem_map.mp he
    exact hit_invalid e' va

theorem apart_init (num : Nat) (h : 0 < num) : Apart TlbEntry.hit (Tlb.init num h).entrys := by
  refine apart_of_not_hit fun e he va => ?_
  rw [List.eq_of_mem_replicate he]
  rfl

/-- In a run from a table of entries apart, they are apart all along exactly if every
translation that is loaded is apart from those that stay. -/
theorem apart_run_iff {x : Bool} {tlb : Tlb} (h : Apart TlbEntry.hit tlb.entrys)
    (ops : List (MmuState U × TlbOp)) :
    (∀ pre post, ops = pre ++ post → Apart TlbEntry.hit (tlbRun x tlb pre).entrys) ↔
      ∀ pre op post, ops = pre ++ op :: post → LoadsApart x (tlbRun x tlb pre) op :=
  Runs.inv_prefix_iff (I := fun tlb : Tlb => Apart TlbEntry.hit tlb.entrys)
    (fun _ op h => apart_step_iff h op) h

/-- From the start on, while the page tables may change before every operation, dropping an
entry is effective in every state of a run exactly if every translation that the run loads
overlaps none that stays in the table. -/
theorem invalidation_effective_iff (x : Bool) (num : Nat) (h : 0 < num)
    (ops : List (MmuState U × TlbOp)) :
    (∀ pre post, ops = pre ++ post → (tlbRun x (Tlb.init num h) pre).DropsAll U) ↔
      ∀ pre op post, ops = pre ++ op :: post →
        LoadsApart x (tlbRun x (Tlb.init num h) pre) op := by
  simp only [Tlb.dropsAll_iff_apart]
  exact apart_run_iff (apart_init num h) ops

/-- The first megabyte has a coarse table with one small page, the first. -/
def onePage : MmuState Unit :=
  { cleared () with
    translationTableBase := 0x4000
    ram :=
      { Ram.cleared with
        word := fun i => if i = 0x1000 then 0x10001 else if i = 0x4000 then 0xFF2 else 0 } }

theorem invalidation_effective_iff_onePage :
    (tlbRun false (Tlb.init 2 (by decide)) [(onePage, .translate 0)]).DropsAll Unit := by
  refine (invalidation_effective_iff false 2 (by decide) [(onePage, .translate 0)]).mpr ?_ _ []
    (List.append_nil _).symm
  refine Runs.forall_split_singleton (P := fun pre op => LoadsApart _ (tlbRun _ _ pre) op) ?_
  intro _ e _ j e' _ hj a _
  rw [List.eq_of_mem_replicate (List.mem_of_getElem? hj)]
  rfl

/-- When the table of the first page has become a section, the translation of the second page
covers the first one too, and stays when the entry of the first page is dropped. -/
theorem section_outlives_invalidation :
    ¬ ∀ (num : Nat) (h : 0 < num) (ops : List (MmuState Unit × TlbOp)),
      (tlbRun false (Tlb.init num h) ops).DropsAll Unit := by
  intro h
  have hdrop := (h 2 (by decide) [(onePage, .translate 0), (sections, .translate 0x1000)] 0).1
  exact absurd (hdrop ⟨0, 0, 0xC00, 0, .sect⟩ (by decide +kernel)) (by decide)

end MmuState

end SkyEye
