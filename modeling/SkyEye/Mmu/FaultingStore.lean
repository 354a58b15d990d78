import SkyEye.Mmu.Arm7100
import SkyEye.Mmu.Arm9
import SkyEye.Mmu.Sa

/-!
# What a faulting store changes

The write functions search a cache before they check the access: the instruction cache
in the models with split caches, the only cache in the ARM7100. A store that then faults
leaves memory, the write buffer and the data caches as they were, and the cache it
searched exactly if the line of the address, if there is one, already holds the datum.
-/

namespace SkyEye

/-! ## Storing what a line holds -/

namespace CacheLine

variable {d : CacheDesc} {l : CacheLine}

/-- The line holds the datum at the address, in a dirty half. -/
def Holds (d : CacheDesc) (l : CacheLine) (bigend : Bool) (datatype : DataType)
    (va data : ARMword) : Prop :=
  readLane bigend datatype va (l.data (d.vaCacheIndex va)) = data &&& laneMask datatype ∧
    l.tag &&& halfDirty d (d.vaCacheIndex va) = halfDirty d (d.vaCacheIndex va)

theorem update_eq_self_iff {bigend : Bool} {datatype : DataType} {va data : ARMword} :
    l.update d bigend datatype va va data = l ↔ l.Holds d bigend datatype va data := by
  rw [Holds, ← writeLane_eq_self_iff, ← Word.or_eq_left_iff]
  obtain ⟨tag, pa, data⟩ := l
  simp only [update, CacheLine.mk.injEq, true_and, Function.update_eq_self_iff]
  exact and_comm

end CacheLine

/-- Replacing a line by itself is the only replacement that changes nothing. -/
theorem Cache.setLine_eq_self_iff {d : CacheDesc} {c : Cache d} {s : Fin d.set} {w : Fin d.way}
    {l : CacheLine} : c.setLine s w l = c ↔ l = c.line s w := by
  obtain ⟨sets⟩ := c
  simp only [setLine, line, Cache.mk.injEq, Function.update_eq_self_iff]
  constructor
  · intro h
    exact Function.update_eq_self_iff.mp (congrArg CacheSet.lines h)
  · intro h
    rw [Function.update_eq_self_iff.mpr h]

/-! ## Models with split caches -/

namespace SplitMmu

variable {U : Type} {p : SplitMmu U} {cpu : Cpu} {mmu : MmuState U} {va : ARMword}
  {datatype : DataType} {data : ARMword}

/-- A line of the instruction cache for the address already holds the datum. -/
def IcacheHolds (p : SplitMmu U) (cpu : Cpu) (mmu : MmuState U) (va : ARMword)
    (datatype : DataType) (data : ARMword) : Prop :=
  ∀ l, (p.icache mmu.u).searchLine (mmu.pidVaMap va) = some l →
    l.Holds p.icacheDesc cpu.bigend datatype (mmu.pidVaMap va) data

theorem updateIcache_eq_self_iff :
    p.updateIcache cpu mmu (mmu.pidVaMap va) datatype data = p.icache mmu.u ↔
      p.IcacheHolds cpu mmu va datatype data := by
  rw [updateIcache, IcacheHolds, Cache.searchLine]
  cases (p.icache mmu.u).search (mmu.pidVaMap va) with
  | none => simp
  | some w =>
    simp only [Cache.setLine_eq_self_iff, CacheLine.update_eq_self_iff, Option.map_some,
      Option.some.injEq, forall_eq']

/-- A store that faults has updated the instruction cache, and it may have translated. -/
theorem write_fault {store : MmuState U → TlbEntry → ARMword → ARMword → MmuState U} {f : Fault}
    (h : (p.write cpu mmu store va datatype data).1 = some f) :
    ∃ dom u, (p.write cpu mmu store va datatype data).2 = { mmu with lastDomain := dom, u := u } ∧
      (u = p.setIcache mmu.u (p.updateIcache cpu mmu (mmu.pidVaMap va) datatype data) ∨
        ∃ t, u = p.setDtlb
          (p.setIcache mmu.u (p.updateIcache cpu mmu (mmu.pidVaMap va) datatype data)) t) := by
  revert h
  simp only [write]
  split
  · intro h
    cases h
  · split
    · intro _
      exact ⟨_, _, rfl, .inl rfl⟩
    · split
      · intro _
        exact ⟨_, _, rfl, .inr ⟨_, rfl⟩⟩
      · intro h
        cases h

end SplitMmu

namespace Sa

/-- The caches, the write buffer and memory are the same. -/
structure Unchanged (mmu mmu' : MmuState Sa) : Prop where
  icache : mmu'.u.icache = mmu.u.icache
  mainDcache : mmu'.u.mainDcache = mmu.u.mainDcache
  miniDcache : mmu'.u.miniDcache = mmu.u.miniDcache
  wb : mmu'.u.wb = mmu.u.wb
  ram : mmu'.ram = mmu.ram

theorem write_fault_unchanged_iff {cpu : Cpu} {mmu : MmuState Sa} {va data : ARMword}
    {datatype : DataType} {f : Fault} (h : (write cpu mmu va datatype data).1 = some f) :
    Unchanged mmu (write cpu mmu va datatype data).2 ↔
      side.IcacheHolds cpu mmu va datatype data := by
  rw [← SplitMmu.updateIcache_eq_self_iff]
  obtain ⟨dom, u, hw, rfl | ⟨t, rfl⟩⟩ := SplitMmu.write_fault h
  all_goals
    rw [write, hw]
    exact ⟨fun hu => hu.icache, fun hi => ⟨hi, rfl, rfl, rfl, rfl⟩⟩

end Sa

namespace Arm920t

/-- The caches, the write buffer and memory are the same. -/
structure Unchanged (mmu mmu' : MmuState Arm920t) : Prop where
  icache : mmu'.u.icache = mmu.u.icache
  dcache : mmu'.u.dcache = mmu.u.dcache
  wb : mmu'.u.wb = mmu.u.wb
  ram : mmu'.ram = mmu.ram

theorem write_fault_unchanged_iff {cpu : Cpu} {mmu : MmuState Arm920t} {va data : ARMword}
    {datatype : DataType} {f : Fault} (h : (write cpu mmu va datatype data).1 = some f) :
    Unchanged mmu (write cpu mmu va datatype data).2 ↔
      side.IcacheHolds cpu mmu va datatype data := by
  rw [← SplitMmu.updateIcache_eq_self_iff]
  obtain ⟨dom, u, hw, rfl | ⟨t, rfl⟩⟩ := SplitMmu.write_fault h
  all_goals
    rw [write, hw]
    exact ⟨fun hu => hu.icache, fun hi => ⟨hi, rfl, rfl, rfl⟩⟩

end Arm920t

namespace Arm926ejs

/-- The caches, the write buffer and memory are the same. -/
structure Unchanged (mmu mmu' : MmuState Arm926ejs) : Prop where
  icache : mmu'.u.icache = mmu.u.icache
  dcache : mmu'.u.dcache = mmu.u.dcache
  wb : mmu'.u.wb = mmu.u.wb
  ram : mmu'.ram = mmu.ram

theorem write_fault_unchanged_iff {cpu : Cpu} {mmu : MmuState Arm926ejs} {va data : ARMword}
    {datatype : DataType} {f : Fault} (h : (write cpu mmu va datatype data).1 = some f) :
    Unchanged mmu (write cpu mmu va datatype data).2 ↔
      side.IcacheHolds cpu mmu va datatype data := by
  rw [← SplitMmu.updateIcache_eq_self_iff]
  obtain ⟨dom, u, hw, rfl | ⟨t, rfl⟩⟩ := SplitMmu.write_fault h
  all_goals
    rw [write, hw]
    exact ⟨fun hu => hu.icache, fun hi => ⟨hi, rfl, rfl, rfl⟩⟩

end Arm926ejs

/-! ## The ARM7100 -/

namespace Arm7100

/-- The cache and memory are the same; there is no write buffer. -/
structure Unchanged (mmu mmu' : MmuState Arm7100) : Prop where
  cache : mmu'.u.cache = mmu.u.cache
  ram : mmu'.ram = mmu.ram

/-- A line of the cache for the address already holds the datum. -/
def CacheHolds (cpu : Cpu) (mmu : MmuState Arm7100) (va : ARMword) (datatype : DataType)
    (data : ARMword) : Prop :=
  ∀ l, cached mmu va = some l →
    readLane cpu.bigend datatype va (l.data (wordIndex va)) = data &&& laneMask datatype

theorem updateCache_eq_self_iff {cpu : Cpu} {mmu : MmuState Arm7100} {va data : ARMword}
    {datatype : DataType} :
    updateCache cpu mmu va datatype data = mmu.u.cache ↔ CacheHolds cpu mmu va datatype data := by
  rw [updateCache, CacheHolds, cached, Cache.searchLine]
  cases mmu.cacheEnabled with
  | false => simp
  | true =>
    cases mmu.u.cache.search va with
    | none => simp
    | some w =>
      simp only [if_true, Option.map_some, Option.some.injEq, forall_eq',
        Cache.setLine_eq_self_iff, ← writeLane_eq_self_iff]
      generalize mmu.u.cache.line (cacheDesc.vaCacheSet va) w = l
      obtain ⟨tag, pa, words⟩ := l
      simp only [CacheLine.mk.injEq, true_and, Function.update_eq_self_iff]

theorem write_fault_unchanged_iff {cpu : Cpu} {mmu : MmuState Arm7100} {va data : ARMword}
    {datatype : DataType} {f : Fault} (h : (write cpu mmu va datatype data).1 = some f) :
    Unchanged mmu (write cpu mmu va datatype data).2 ↔
      mmu.misaligned va datatype = true ∨ CacheHolds cpu mmu va datatype data := by
  rw [← updateCache_eq_self_iff]
  revert h
  simp only [write]
  split
  · intro h
    cases h
  · split
    · rename_i ha
      intro _
      exact ⟨fun _ => .inl ha, fun _ => ⟨rfl, rfl⟩⟩
    · rename_i ha
      split
      · intro _
        exact ⟨fun hu => .inr hu.cache, fun hc => ⟨hc.resolve_left ha, rfl⟩⟩
      · intro h
        cases h

end Arm7100

/-! ## All models -/

/-- A store that faults changes no cache, write buffer or memory exactly if the line it has
stored to, if any, held the datum. -/
theorem faulting_store_unchanged_iff (cpu : Cpu) (va data : ARMword) (datatype : DataType)
    (f : Fault) :
    (∀ mmu, (Sa.write cpu mmu va datatype data).1 = some f →
      (Sa.Unchanged mmu (Sa.write cpu mmu va datatype data).2 ↔
        Sa.side.IcacheHolds cpu mmu va datatype data)) ∧
    (∀ mmu, (Arm7100.write cpu mmu va datatype data).1 = some f →
      (Arm7100.Unchanged mmu (Arm7100.write cpu mmu va datatype data).2 ↔
        mmu.misaligned va datatype = true ∨ Arm7100.CacheHolds cpu mmu va datatype data)) ∧
    (∀ mmu, (Arm920t.write cpu mmu va datatype data).1 = some f →
      (Arm920t.Unchanged mmu (Arm920t.write cpu mmu va datatype data).2 ↔
        Arm920t.side.IcacheHolds cpu mmu va datatype data)) ∧
    (∀ mmu, (Arm926ejs.write cpu mmu va datatype data).1 = some f →
      (Arm926ejs.Unchanged mmu (Arm926ejs.write cpu mmu va datatype data).2 ↔
        Arm926ejs.side.IcacheHolds cpu mmu va datatype data)) :=
  ⟨fun _ => Sa.write_fault_unchanged_iff, fun _ => Arm7100.write_fault_unchanged_iff,
    fun _ => Arm920t.write_fault_unchanged_iff, fun _ => Arm926ejs.write_fault_unchanged_iff⟩

/-- An ARM920T that has fetched the instruction at 0x100, and then turned its MMU on with
page tables that map nothing. -/
def fetchedThenUnmapped : MmuState Arm920t :=
  Arm920t.mcr (Arm920t.loadInstr ⟨SVC32MODE, false, false⟩ (Arm920t.init .cleared) 0x100).2
    true 1 0 0 1

theorem faulting_store_unchanged_iff_unmapped :
    Arm920t.Unchanged fetchedThenUnmapped
      (Arm920t.write ⟨SVC32MODE, false, false⟩ fetchedThenUnmapped 0x200 .word 1).2 ↔
    Arm920t.side.IcacheHolds ⟨SVC32MODE, false, false⟩ fetchedThenUnmapped 0x200 .word 1 :=
  (faulting_store_unchanged_iff ⟨SVC32MODE, false, false⟩ 0x200 1 .word
    .pageTranslation).2.2.1 fetchedThenUnmapped (by decide +kernel)

/-- A store there faults, and has changed the instruction cache. -/
theorem faulting_store_changes_icache :
    let cpu : Cpu := ⟨SVC32MODE, false, false⟩
    (Arm920t.write cpu fetchedThenUnmapped 0x100 .word 1).1 = some .pageTranslation ∧
      ¬ Arm920t.Unchanged fetchedThenUnmapped
        (Arm920t.write cpu fetchedThenUnmapped 0x100 .word 1).2 := by
  intro cpu
  refine ⟨by decide +kernel, fun hu => ?_⟩
  have hc := congrArg (fun c : Cache _ => (c.searchLine 0x100).map (·.data 0)) hu.icache
  revert hc
  decide +kernel

end SkyEye
