import SkyEye.Lib.Memo
import SkyEye.Lib.Runs
import SkyEye.Mmu.Sa

/-!
# Filling the read buffer

`mmu_rb_load` drops the entries that overlap the block it loads and fills an entry with the
words of the block, but it never writes the address that `mmu_rb_search` compares. An entry
answers for the block only if its address was that of the block before.
-/

namespace SkyEye

open Memo

namespace RbType

/-- `va & ~(rb_masks[type] - 1)` -/
def align (type : RbType) (va : ARMword) : ARMword := va &&& ~~~(type.bytes - 1)

/-- The addresses of the aligned block of the type's size that contains `va`. -/
def InBlock (type : RbType) (va va' : ARMword) : Prop :=
  type ≠ .invalid ∧ type.align va' = type.align va

/-- The block ends within the address space. -/
def Ends (type : RbType) (va : ARMword) : Prop :=
  (type.align va).toNat + type.bytes.toNat < 2 ^ 32

theorem toNat_align {type : RbType} (ht : type ≠ .invalid) (va : ARMword) :
    (type.align va).toNat = va.toNat / type.bytes.toNat * type.bytes.toNat := by
  cases type with
  | invalid => exact absurd rfl ht
  | rb1 => exact Word.toNat_and_high va 2
  | rb4 => exact Word.toNat_and_high va 4
  | rb8 => exact Word.toNat_and_high va 5

theorem toNat_bytes_pos {type : RbType} (ht : type ≠ .invalid) : 0 < type.bytes.toNat := by
  cases type with
  | invalid => exact absurd rfl ht
  | rb1 | rb4 | rb8 => decide

/-- The addresses of a block are those from its first one on. -/
theorem inBlock_iff {type : RbType} (ht : type ≠ .invalid) {va va' : ARMword} :
    type.InBlock va va' ↔ (type.align va).toNat ≤ va'.toNat ∧
      va'.toNat < (type.align va).toNat + type.bytes.toNat := by
  have hpos := toNat_bytes_pos ht
  rw [InBlock, ← BitVec.toNat_inj, toNat_align ht, toNat_align ht, and_iff_right ht]
  have h1 := Nat.div_add_mod va'.toNat type.bytes.toNat
  have h2 := Nat.mod_lt va'.toNat hpos
  rw [Nat.mul_comm] at h1
  generalize type.bytes.toNat = n at *
  generalize va'.toNat / n = q' at *
  generalize va.toNat / n = q at *
  constructor
  · intro h
    omega
  · rintro ⟨hl, hu⟩
    have hq : q < q' + 1 := Nat.lt_of_mul_lt_mul_right (a := n) (by rw [Nat.succ_mul]; omega)
    have hq' : q' < q + 1 := Nat.lt_of_mul_lt_mul_right (a := n) (by rw [Nat.succ_mul]; omega)
    have : q = q' := by omega
    rw [this]

end RbType

namespace RbEntry

theorem hit_iff {rb : RbEntry} {va : ARMword} :
    rb.hit va = true ↔ rb.type ≠ .invalid ∧ rb.va ≤ va ∧ va < rb.va + rb.type.bytes := by
  simp [hit, and_assoc]

theorem hit_invalid (rb : RbEntry) (va : ARMword) :
    hit { rb with type := .invalid } va = false := rfl

/-- Drop an entry that overlaps the block at `va`: `max_start < min_end`. -/
def evict (type : RbType) (va : ARMword) (rb : RbEntry) : RbEntry :=
  let maxStart := if rb.va < va then va else rb.va
  let minEnd := if va + type.bytes < rb.va + rb.type.bytes then va + type.bytes
    else rb.va + rb.type.bytes
  if rb.type != .invalid && maxStart < minEnd then { rb with type := .invalid } else rb

theorem evict_eq_or_eq (type : RbType) (va : ARMword) (rb : RbEntry) :
    rb.evict type va = { rb with type := .invalid } ∨ rb.evict type va = rb :=
  ite_eq_or_eq ..

theorem hit_of_hit_evict {type : RbType} {va va' : ARMword} {rb : RbEntry}
    (h : (rb.evict type va).hit va' = true) : rb.hit va' = true := by
  rcases evict_eq_or_eq type va rb with he | he
  · rw [he] at h
    cases h
  · rwa [he] at h

/-- An entry that stays covers no address of the block. -/
theorem not_hit_evict {type : RbType} {va va' : ARMword} (rb : RbEntry) (hl : va ≤ va')
    (hu : va' < va + type.bytes) : (rb.evict type va).hit va' = false := by
  rw [← Bool.not_eq_true]
  intro hh
  obtain ⟨ht, hl', hu'⟩ := hit_iff.mp (hit_of_hit_evict hh)
  have hover : (if rb.va < va then va else rb.va) <
      if va + type.bytes < rb.va + rb.type.bytes then va + type.bytes
      else rb.va + rb.type.bytes := by
    rw [BitVec.le_def] at hl hl'
    rw [BitVec.lt_def] at hu hu' ⊢
    split <;> split <;> omega
  rw [evict, if_pos (by simpa [ht] using hover)] at hh
  cases hh

theorem index_lt {type : RbType} (ht : type ≠ .invalid) (va : ARMword) :
    ((va &&& (type.bytes - 1)) >>> 2).toNat < type.bytes.toNat / 4 := by
  have hlow (k : Nat) (hk : k ≤ 32) (m : ARMword) (hm : m = BitVec.ofNat 32 (2 ^ k - 1)) :
      ((va &&& m) >>> 2).toNat = va.toNat % 2 ^ k / 4 := by
    rw [hm, BitVec.toNat_ushiftRight, Word.toNat_and_low va k hk, Nat.shiftRight_eq_div_pow]
  cases type with
  | invalid => exact absurd rfl ht
  | rb1 =>
    rw [hlow 2 (by decide) (RbType.bytes .rb1 - 1) rfl]
    show _ < 1
    omega
  | rb4 =>
    rw [hlow 4 (by decide) (RbType.bytes .rb4 - 1) rfl]
    show _ < 4
    omega
  | rb8 =>
    rw [hlow 5 (by decide) (RbType.bytes .rb8 - 1) rfl]
    show _ < 8
    omega

/-- A word of a loaded block: its address and the entry's index of it. -/
theorem vaToPa_align_add {type : RbType} (ht : type ≠ .invalid) {va va' : ARMword}
    (hb : type.InBlock va va') (tlb : TlbEntry) :
    tlb.vaToPa (type.align va) +
        BitVec.ofNat 32 (4 * ((va' &&& (type.bytes - 1)) >>> 2).toNat) =
      tlb.vaToPa (va' &&& ~~~3) := by
  have hlow : (type.bytes - 1) &&& ~~~3 &&& tlb.mapping.mask = 0 := by
    cases type <;> cases tlb.mapping <;> first | exact absurd rfl ht | rfl
  have hmask : ~~~(type.bytes - 1) &&& ~~~tlb.mapping.mask ||| (type.bytes - 1) &&& ~~~3 =
      ~~~3 &&& ~~~tlb.mapping.mask := by
    cases type <;> cases tlb.mapping <;> first | exact absurd rfl ht | rfl
  have hself : ~~~(type.bytes - 1) &&& ((type.bytes - 1) &&& ~~~3) = 0 := by
    cases type <;> first | exact absurd rfl ht | rfl
  have hindex : BitVec.ofNat 32 (4 * ((va' &&& (type.bytes - 1)) >>> 2).toNat) =
      va' &&& ((type.bytes - 1) &&& ~~~3) := by
    have hm : (~~~3 : ARMword) = BitVec.allOnes 32 <<< 2 := rfl
    apply BitVec.eq_of_toNat_eq
    have hlt := (va' &&& (type.bytes - 1)).isLt
    rw [← BitVec.and_assoc, hm, Word.toNat_and_high, BitVec.toNat_ofNat, BitVec.toNat_ushiftRight,
      Nat.shiftRight_eq_div_pow, Nat.mod_eq_of_lt (by omega)]
    omega
  have hdisjoint : ((tlb.physAddr &&& tlb.mapping.mask) |||
      (va' &&& ~~~(type.bytes - 1) &&& ~~~tlb.mapping.mask)) &&&
        (va' &&& ((type.bytes - 1) &&& ~~~3)) = 0 := by
    generalize (type.bytes - 1) &&& ~~~3 = low at hlow hself
    have h1 : tlb.physAddr &&& tlb.mapping.mask &&& (va' &&& low) =
        tlb.physAddr &&& va' &&& (low &&& tlb.mapping.mask) := by ac_rfl
    have h2 : va' &&& ~~~(type.bytes - 1) &&& ~~~tlb.mapping.mask &&& (va' &&& low) =
        va' &&& va' &&& ~~~tlb.mapping.mask &&& (~~~(type.bytes - 1) &&& low) := by ac_rfl
    rw [BitVec.and_or_distrib_right, h1, h2, hlow, hself]
    exact (congrArg₂ (· ||| ·) BitVec.and_zero BitVec.and_zero).trans BitVec.or_zero
  rw [hindex, TlbEntry.vaToPa, ← hb.2, RbType.align, BitVec.add_eq_or_of_and_eq_zero _ _ hdisjoint,
    TlbEntry.vaToPa, BitVec.or_assoc, BitVec.and_assoc, ← BitVec.and_or_distrib_left, hmask,
    BitVec.and_assoc]

/-- The entry after it was loaded: from memory, or with the fault. -/
def loaded (rb : RbEntry) (type : RbType) (va : ARMword) (ram : Ram) :
    Except Fault TlbEntry → RbEntry
  | .error f => { rb with type := type, fault := some f }
  | .ok tlb =>
    { rb with
      type := type
      fault := none
      data := fun k =>
        if k < type.bytes.toNat / 4 then
          ram.busRead .word (tlb.vaToPa va + BitVec.ofNat 32 (4 * k))
        else rb.data k }

theorem hit_loaded {rb : RbEntry} {type : RbType} {va va' : ARMword} {ram : Ram}
    {r : Except Fault TlbEntry} : (rb.loaded type va ram r).hit va' = true ↔
      type ≠ .invalid ∧ rb.va ≤ va' ∧ va' < rb.va + type.bytes := by
  rw [hit_iff]
  cases r <;> exact Iff.rfl

/-- An entry that had the address of a block is hit by the addresses of the block. -/
theorem hit_loaded_iff {rb : RbEntry} {type : RbType} {va va' : ARMword} {ram : Ram}
    {r : Except Fault TlbEntry} (htag : type = .invalid ∨ rb.va = type.align va ∧ type.Ends va) :
    (rb.loaded type (type.align va) ram r).hit va' = true ↔ type.InBlock va va' := by
  rw [hit_loaded]
  rcases htag with rfl | ⟨hv, he⟩
  · exact iff_of_false (fun h => h.1 rfl) (fun h => h.1 rfl)
  · by_cases ht : type = .invalid
    · exact iff_of_false (fun h => h.1 ht) (fun h => h.1 ht)
    · have hend : (type.align va + type.bytes).toNat =
          (type.align va).toNat + type.bytes.toNat := by
        rw [BitVec.toNat_add, Nat.mod_eq_of_lt he]
      rw [and_iff_right ht, RbType.inBlock_iff ht, hv, BitVec.le_def, BitVec.lt_def, hend]

end RbEntry

namespace Sa

/-- `mmu_rb_load` -/
def rbLoad (cpu : Cpu) (mmu : MmuState Sa) (i : Nat) (type : RbType) (va : ARMword) :
    MmuState Sa :=
  let va := type.align va
  let rb := mmu.u.rb.map (RbEntry.evict type va)
  let t := side.translated cpu mmu va
  { t with
    u :=
      { t.u with
        rb := rb.modify i fun e =>
          e.loaded type va mmu.ram (mmu.authorise cpu mmu.u.dtlb va true) } }

/-- What happens to the read buffer, and the rest of the machine meanwhile. -/
inductive RbOp where
  | load (cpu : Cpu) (i : Fin 4) (type : RbType) (va : ARMword)
  | invalidateEntry (i : Fin 4)
  | invalidateAll
  | other (m : MmuState Sa)

/-- `mmu_rb_load` and the invalidations of `sa_mmu_rb_ops`; anything else leaves the buffer. -/
def rbStep (mmu : MmuState Sa) : RbOp → MmuState Sa
  | .load cpu i type va => rbLoad cpu mmu i type va
  | .invalidateEntry i =>
    { mmu with
      u := { mmu.u with rb := mmu.u.rb.modify i fun e => { e with type := .invalid } } }
  | .invalidateAll =>
    { mmu with u := { mmu.u with rb := mmu.u.rb.map fun e => { e with type := .invalid } } }
  | .other m => { m with u := { m.u with rb := mmu.u.rb } }

def rbRun (mmu : MmuState Sa) (ops : List RbOp) : MmuState Sa := ops.foldl rbStep mmu

/-- The entry that is loaded has the address of the block, and the block is not the last one
of the address space. -/
def LoadTagged (mmu : MmuState Sa) : RbOp → Prop
  | .load _ i type va => ∀ e, mmu.u.rb[i.val]? = some e →
      type = .invalid ∨ e.va = type.align va ∧ type.Ends va
  | _ => True

/-- After a load without a fault, a search finds the entry at exactly the addresses of the
block, and there it has the words of memory. -/
def LoadCached (mmu : MmuState Sa) : RbOp → Prop
  | .load cpu i type va => ∀ tlb,
      mmu.authorise cpu mmu.u.dtlb (type.align va) true = .ok tlb →
      ∃ e, (rbLoad cpu mmu i type va).u.rb[i.val]? = some e ∧ e.fault = none ∧
        ∀ va', ((rbLoad cpu mmu i type va).u.rb.findIdx? (·.hit va') = some i.val ↔
            type.InBlock va va') ∧
          (type.InBlock va va' →
            e.data (e.index va') = mmu.ram.busRead .word (tlb.vaToPa (va' &&& ~~~3)))
  | _ => True

/-- No two valid entries cover one address. -/
abbrev RbApart (mmu : MmuState Sa) : Prop := Apart RbEntry.hit mmu.u.rb

section Load

variable {cpu : Cpu} {mmu : MmuState Sa} {i : Fin 4} {type : RbType} {va : ARMword}

theorem rbLoad_getElem? (j : Nat) : (rbLoad cpu mmu i type va).u.rb[j]? =
    (mmu.u.rb[j]?).map fun e =>
      if i.val = j then (e.evict type (type.align va)).loaded type (type.align va) mmu.ram
        (mmu.authorise cpu mmu.u.dtlb (type.align va) true)
      else e.evict type (type.align va) := by
  simp only [rbLoad, List.getElem?_modify, List.getElem?_map, Option.map_eq_map, Option.map_map]
  rfl

theorem tagged_evict (h : LoadTagged mmu (.load cpu i type va)) {e : RbEntry}
    (he : mmu.u.rb[i.val]? = some e) : type = .invalid ∨
      (e.evict type (type.align va)).va = type.align va ∧ type.Ends va := by
  rcases RbEntry.evict_eq_or_eq type (type.align va) e with hev | hev <;> rw [hev]
  · exact h e he
  · exact h e he

/-- The loaded entry answers for its block, and no other entry does. -/
theorem apart_rbLoad (h : RbApart mmu) (ht : LoadTagged mmu (.load cpu i type va)) :
    RbApart (rbLoad cpu mmu i type va) := by
  have hblock (e e' : RbEntry) (he : mmu.u.rb[i.val]? = some e) (k : ARMword)
      (hk : ((e.evict type (type.align va)).loaded type (type.align va) mmu.ram
        (mmu.authorise cpu mmu.u.dtlb (type.align va) true)).hit k = true) :
      (e'.evict type (type.align va)).hit k = false := by
    have htag := tagged_evict ht he
    have hb := (RbEntry.hit_loaded_iff htag).mp hk
    obtain ⟨hv, hend⟩ := htag.resolve_left hb.1
    have hl := (RbType.inBlock_iff hb.1).mp hb
    refine RbEntry.not_hit_evict e' (BitVec.le_def.mpr hl.1) (BitVec.lt_def.mpr ?_)
    rw [BitVec.toNat_add, Nat.mod_eq_of_lt hend]
    exact hl.2
  have hevicted := h.map fun e k => @RbEntry.hit_of_hit_evict type (type.align va) k e
  refine hevicted.modify fun e he j e' _ he' k hk => ?_
  rw [List.getElem?_map] at he he'
  obtain ⟨e₀, he₀, rfl⟩ := Option.map_eq_some_iff.mp he
  obtain ⟨e₀', -, rfl⟩ := Option.map_eq_some_iff.mp he'
  exact hblock e₀ e₀' he₀ k hk

theorem cached_rbLoad (hlen : mmu.u.rb.length = 4) (h : RbApart mmu)
    (ht : LoadTagged mmu (.load cpu i type va)) : LoadCached mmu (.load cpu i type va) := by
  intro tlb hok
  have hlt : i.val < mmu.u.rb.length := by rw [hlen]; exact i.isLt
  have hget := List.getElem?_eq_getElem hlt
  have hi := @rbLoad_getElem? cpu mmu i type va i.val
  rw [hget, Option.map_some, if_pos rfl, hok] at hi
  refine ⟨_, hi, rfl, fun va' => ⟨?_, fun hb => ?_⟩⟩
  · rw [← RbEntry.hit_loaded_iff (tagged_evict ht hget), List.findIdx?_eq_some_iff_getElem]
    obtain ⟨hlt', hi'⟩ := List.getElem?_eq_some_iff.mp hi
    constructor
    · rintro ⟨_, hhit, -⟩
      rwa [hi'] at hhit
    · intro hhit
      refine ⟨hlt', by rw [hi']; exact hhit, fun j hj => ?_⟩
      rw [apart_rbLoad h ht i.val j _ _ hi (List.getElem?_eq_getElem (hj.trans hlt'))
        (Nat.ne_of_gt hj) va' hhit]
      decide
  · rw [← RbEntry.vaToPa_align_add hb.1 hb tlb]
    exact if_pos (RbEntry.index_lt hb.1 va')

end Load

/-! ## Runs -/

theorem rbStep_length (mmu : MmuState Sa) (op : RbOp) :
    (rbStep mmu op).u.rb.length = mmu.u.rb.length := by
  cases op with
  | load cpu i type va => exact (List.length_modify ..).trans (List.length_map _)
  | invalidateEntry i => exact List.length_modify ..
  | invalidateAll => exact List.length_map _
  | other m => rfl

theorem apart_rbStep {mmu : MmuState Sa} (h : RbApart mmu) {op : RbOp} (ht : LoadTagged mmu op) :
    RbApart (rbStep mmu op) := by
  cases op with
  | load cpu i type va => exact apart_rbLoad h ht
  | invalidateEntry i => exact h.modify_of_not_hit RbEntry.hit_invalid i.val
  | invalidateAll =>
    refine apart_of_not_hit fun e he va => ?_
    obtain ⟨e', -, rfl⟩ := List.mem_map.mp he
    exact RbEntry.hit_invalid e' va
  | other m => exact h

/-- `mmu_rb_init` leaves four invalid entries, whose addresses are arbitrary. -/
structure RbStart (mmu : MmuState Sa) : Prop where
  length : mmu.u.rb.length = 4
  invalid : ∀ e ∈ mmu.u.rb, e.type = .invalid

theorem RbStart.apart {mmu : MmuState Sa} (h : RbStart mmu) : RbApart mmu := by
  refine apart_of_not_hit fun e he va => ?_
  rw [RbEntry.hit, h.invalid e he]
  rfl

theorem rbRun_inv {mmu : MmuState Sa} (hs : RbStart mmu) {ops : List RbOp}
    (ht : ∀ pre op post, ops = pre ++ op :: post → LoadTagged (rbRun mmu pre) op)
    (pre : List RbOp) : ∀ post, ops = pre ++ post →
      (rbRun mmu pre).u.rb.length = 4 ∧ RbApart (rbRun mmu pre) := by
  exact Runs.inv_prefix (I := fun mmu => mmu.u.rb.length = 4 ∧ RbApart mmu)
    (fun mmu op h ht => ⟨(rbStep_length mmu op).trans h.1, apart_rbStep h.2 ht⟩)
    ⟨hs.length, hs.apart⟩ ht pre

/-- In a run whose loads are all of entries that have the address of the block, and not of the
last block of the address space, no two valid entries cover one address in any state, and
every load without a fault makes the entry a cache of its block. -/
theorem read_buffer_caches {mmu : MmuState Sa} (hs : RbStart mmu) (ops : List RbOp)
    (ht : ∀ pre op post, ops = pre ++ op :: post → LoadTagged (rbRun mmu pre) op) :
    (∀ pre post, ops = pre ++ post → RbApart (rbRun mmu pre)) ∧
      ∀ pre op post, ops = pre ++ op :: post → LoadCached (rbRun mmu pre) op := by
  refine ⟨fun pre post he => (rbRun_inv hs ht pre post he).2, fun pre op post he => ?_⟩
  obtain ⟨hl, ha⟩ := rbRun_inv hs ht pre (op :: post) he
  have htag := ht pre op post he
  cases op with
  | load cpu i type va => exact cached_rbLoad hl ha htag
  | invalidateEntry i => trivial
  | invalidateAll => trivial
  | other m => trivial

/-- Sections with full access, and a read buffer of entries with the address `va`. -/
def rbSections (va : ARMword) : MmuState Sa :=
  let u : Sa :=
    { itlb := .init 1 (by decide)
      icache := .init _
      dtlb := .init 1 (by decide)
      mainDcache := .init _
      miniDcache := .init _
      rb := List.replicate 4 ⟨fun _ => 0, va, .invalid, none⟩
      wb := .init _ }
  { MmuState.cleared u with
    domainAccessControl := 0xFFFFFFFF
    ram := { Ram.cleared with word := fun _ => 0xC02 } }

theorem rbStart_rbSections (va : ARMword) : RbStart (rbSections va) where
  length := rfl
  invalid e he := by rw [List.eq_of_mem_replicate he]

theorem read_buffer_caches_block :
    (rbRun (rbSections 0x20) [.load ⟨SVC32MODE, false, false⟩ 1 .rb8 0x24]).u.rb.findIdx?
      (·.hit 0x3C) = some 1 := by
  let op : RbOp := .load ⟨SVC32MODE, false, false⟩ 1 .rb8 0x24
  have ht : LoadTagged (rbSections 0x20) op := by
    rintro e ⟨⟩
    exact .inr ⟨rfl, by unfold RbType.Ends; decide⟩
  obtain ⟨e, -, -, h⟩ := (read_buffer_caches (rbStart_rbSections 0x20) [op]
    (Runs.forall_split_singleton ht)).2 [] op [] rfl
    ⟨0, 0, 0xC00, 0, .sect⟩ (by decide +kernel)
  exact (h 0x3C).1.mpr ⟨by decide, rfl⟩

/-- A search misses the block that was just loaded. -/
theorem read_buffer_misses_block :
    ¬ ∀ (m : MmuState Sa) (ops : List RbOp), RbStart m →
      ∀ pre op post, ops = pre ++ op :: post → LoadCached (rbRun m pre) op := by
  intro h
  obtain ⟨e, -, -, hit⟩ := h (rbSections 0) [.load ⟨SVC32MODE, false, false⟩ 1 .rb8 0x24]
    (rbStart_rbSections 0) [] _ [] rfl ⟨0, 0, 0xC00, 0, .sect⟩ (by decide +kernel)
  exact absurd ((hit 0x24).1.mpr ⟨by decide, rfl⟩) (by decide +kernel)

end Sa

end SkyEye
