import SkyEye.Mmu.Ram

/-!
# Caches

`cache.c`: set-associative caches of words with a dirty bit for each half of a
line. A tag is the line's aligned virtual address with the valid bit and the dirty
bits in its low bits. Lines are replaced round robin within their set. Operations
that can write a line back take the memory and return it.
-/

namespace SkyEye

inductive WMode where
  | writeBack
  | writeThrough
  deriving DecidableEq, Repr

/-- `cache_desc_t`: bytes in a line, ways of a set, sets. -/
structure CacheDesc where
  width : Nat
  way : Nat
  set : Nat
  wMode : WMode
  way_pos : 0 < way
  set_pos : 0 < set

def TAG_VALID_FLAG : ARMword := 0x1
def TAG_FIRST_HALF_DIRTY : ARMword := 0x2
def TAG_LAST_HALF_DIRTY : ARMword := 0x4

structure CacheLine where
  tag : ARMword
  pa : ARMword
  data : Nat → ARMword

/-- `cache_set_t`: `cycle` is the line to replace next. -/
structure CacheSet (way : Nat) where
  lines : Fin way → CacheLine
  cycle : Fin way

structure Cache (d : CacheDesc) where
  sets : Fin d.set → CacheSet d.way

namespace CacheDesc

variable (d : CacheDesc)

/-- `width >> WORD_SHT` -/
def words : Nat := d.width / 4

def vaCacheSet (va : ARMword) : Fin d.set :=
  ⟨((va / BitVec.ofNat 32 d.width) &&& BitVec.ofNat 32 (d.set - 1)).toNat, by
    have h0 := d.set_pos
    have h1 : (BitVec.ofNat 32 (d.set - 1)).toNat ≤ d.set - 1 := by
      rw [BitVec.toNat_ofNat]; exact Nat.mod_le _ _
    have h2 : ((va / BitVec.ofNat 32 d.width) &&& BitVec.ofNat 32 (d.set - 1)).toNat ≤
        (BitVec.ofNat 32 (d.set - 1)).toNat := by
      rw [BitVec.toNat_and]; exact Nat.and_le_right
    omega⟩

def vaCacheAlign (va : ARMword) : ARMword := va &&& ~~~BitVec.ofNat 32 (d.width - 1)

def vaCacheIndex (va : ARMword) : Nat := ((va &&& BitVec.ofNat 32 (d.width - 1)) >>> 2).toNat

end CacheDesc

namespace CacheLine

variable (d : CacheDesc) (l : CacheLine)

def valid : Bool := l.tag &&& TAG_VALID_FLAG != 0

/-- The test of `mmu_cache_search`. -/
def hit (va : ARMword) : Bool := l.valid && d.vaCacheAlign va == d.vaCacheAlign l.tag

/-- `nw` words from the line's memory, from word `first` of the line on. -/
def storeWords (ram : Ram) (first nw : Nat) : Ram :=
  (List.range nw).foldl
    (fun ram i => ram.busWrite .word (l.pa + BitVec.ofNat 32 (4 * (first + i))) (l.data (first + i)))
    ram

/-- `mmu_cache_write_back` -/
def writeBack (ram : Ram) : CacheLine × Ram :=
  if l.valid then
    let first := l.tag &&& TAG_FIRST_HALF_DIRTY != 0
    let last := l.tag &&& TAG_LAST_HALF_DIRTY != 0
    let clean := { l with tag := l.tag &&& ~~~(TAG_FIRST_HALF_DIRTY ||| TAG_LAST_HALF_DIRTY) }
    match first, last with
    | false, false => (l, ram)
    | true, false => (clean, l.storeWords ram 0 (d.words / 2))
    | false, true => (clean, l.storeWords ram (d.words / 2) (d.words / 2))
    | true, true => (clean, l.storeWords ram 0 d.words)
  else (l, ram)

/-- Write back and mark invalid. -/
def invalidate (ram : Ram) : CacheLine × Ram :=
  let (l, ram) := l.writeBack d ram
  ({ l with tag := 0 }, ram)

/-- The dirty bit of the half of a word. -/
def halfDirty (d : CacheDesc) (index : Nat) : ARMword :=
  if index < d.width / 8 then TAG_FIRST_HALF_DIRTY else TAG_LAST_HALF_DIRTY

/-- `update_cache`: a store into the line, which becomes dirty. -/
def update (bigend : Bool) (datatype : DataType) (va realVa data : ARMword) : CacheLine :=
  let index := d.vaCacheIndex va
  { l with
    data := Function.update l.data index
      (writeLane bigend datatype realVa data (l.data index))
    tag := l.tag ||| halfDirty d index }

end CacheLine

namespace Cache

variable {d : CacheDesc} (c : Cache d)

/-- `mmu_cache_init`; the data of a new line is arbitrary. -/
def init (d : CacheDesc) : Cache d :=
  ⟨fun _ => ⟨fun _ => ⟨0, 0, fun _ => 0⟩, ⟨0, d.way_pos⟩⟩⟩

def line (s : Fin d.set) (w : Fin d.way) : CacheLine := (c.sets s).lines w

def setLine (s : Fin d.set) (w : Fin d.way) (l : CacheLine) : Cache d :=
  ⟨Function.update c.sets s
    { c.sets s with lines := Function.update (c.sets s).lines w l }⟩

/-- `mmu_cache_search`: the way of the set of `va` that holds its line. -/
def search (va : ARMword) : Option (Fin d.way) :=
  (List.finRange d.way).find? fun w => (c.line (d.vaCacheSet va) w).hit d va

/-- The line `mmu_cache_search` finds. -/
def searchLine (va : ARMword) : Option CacheLine :=
  (c.search va).map (c.line (d.vaCacheSet va))

/-- Apply an operation that may write the line back. -/
def onLine (s : Fin d.set) (w : Fin d.way) (ram : Ram)
    (f : CacheLine → Ram → CacheLine × Ram) : Cache d × Ram :=
  let (l, ram) := f (c.line s w) ram
  (c.setLine s w l, ram)

/-- Apply an operation to the line found by `mmu_cache_search`. -/
def onSearch (va : ARMword) (ram : Ram) (f : CacheLine → Ram → CacheLine × Ram) :
    Cache d × Ram :=
  match c.search va with
  | some w => c.onLine (d.vaCacheSet va) w ram f
  | none => (c, ram)

/-- The set and the way of a set/index value, as `mmu_cache_search_by_index` finds them. -/
def indexWay (d : CacheDesc) (index : ARMword) : Option (Fin d.way) :=
  let w := (index >>> (32 - Nat.log2 d.way)).toNat
  if h : w < d.way then some ⟨w, h⟩ else none

/-- Apply an operation to the line of a set/index value. -/
def onIndex (index : ARMword) (ram : Ram) (f : CacheLine → Ram → CacheLine × Ram) :
    Cache d × Ram :=
  match indexWay d index with
  | some w => c.onLine (d.vaCacheSet index) w ram f
  | none => (c, ram)

/-- `mmu_cache_clean` -/
def clean (va : ARMword) (ram : Ram) : Cache d × Ram := c.onSearch va ram (·.writeBack d)

/-- `mmu_cache_clean_by_index` -/
def cleanByIndex (index : ARMword) (ram : Ram) : Cache d × Ram := c.onIndex index ram (·.writeBack d)

/-- `mmu_cache_invalidate` -/
def invalidate (va : ARMword) (ram : Ram) : Cache d × Ram := c.onSearch va ram (·.invalidate d)

/-- `mmu_cache_invalidate_by_index` -/
def invalidateByIndex (index : ARMword) (ram : Ram) : Cache d × Ram :=
  c.onIndex index ram (·.invalidate d)

/-- `mmu_cache_invalidate_all` -/
def invalidateAll (ram : Ram) : Cache d × Ram :=
  (List.finRange d.set).foldl
    (fun cr s => (List.finRange d.way).foldl
      (fun cr w => cr.1.onLine s w cr.2 (·.invalidate d)) cr)
    (c, ram)

/-- The set and the way that `mmu_cache_soft_flush` flushes. -/
def softIndex (d : CacheDesc) (pa : ARMword) : Option (Fin d.set × Fin d.way) :=
  let pa := pa / BitVec.ofNat 32 d.width
  let way := (pa &&& BitVec.ofNat 32 (d.way - 1)).toNat
  let set := ((pa / BitVec.ofNat 32 d.way) &&& BitVec.ofNat 32 (d.set - 1)).toNat
  if h : way < d.way ∧ set < d.set then some (⟨set, h.2⟩, ⟨way, h.1⟩) else none

/-- `mmu_cache_soft_flush` -/
def softFlush (pa : ARMword) (ram : Ram) : Cache d × Ram :=
  let pa := pa / BitVec.ofNat 32 d.width
  let way := (pa &&& BitVec.ofNat 32 (d.way - 1)).toNat
  let set := ((pa / BitVec.ofNat 32 d.way) &&& BitVec.ofNat 32 (d.set - 1)).toNat
  if h : way < d.way ∧ set < d.set then c.onLine ⟨set, h.2⟩ ⟨way, h.1⟩ ram (·.invalidate d)
  else (c, ram)

/-- The next way round robin. -/
def nextCycle (w : Fin d.way) : Fin d.way :=
  if h : w.val + 1 < d.way then ⟨w.val + 1, h⟩ else ⟨0, d.way_pos⟩

/-- `mmu_cache_alloc`: the cache and the memory after it, and the way it used. -/
def alloc (va pa : ARMword) (ram : Ram) : Cache d × Ram × Fin d.way :=
  let va := d.vaCacheAlign va
  let pa := d.vaCacheAlign pa
  let s := d.vaCacheSet va
  let w := (c.sets s).cycle
  let c : Cache d := ⟨Function.update c.sets s { c.sets s with cycle := nextCycle w }⟩
  let (l, ram) :=
    match d.wMode with
    | .writeBack =>
      let (l, ram) := (c.line s w).writeBack d ram
      ({ l with
        data := fun i =>
          if i < d.words then ram.busRead .word (pa + BitVec.ofNat 32 (4 * i)) else l.data i }, ram)
    | .writeThrough => (c.line s w, ram)
  (c.setLine s w { l with tag := va ||| TAG_VALID_FLAG, pa := pa }, ram, w)

end Cache

/-! ## Searching -/

theorem CacheLine.valid_of_tag {l : CacheLine} {a : ARMword} (h : l.tag = a ||| TAG_VALID_FLAG) :
    l.valid = true := by
  have hv : (a ||| TAG_VALID_FLAG) &&& TAG_VALID_FLAG = TAG_VALID_FLAG := by
    apply BitVec.eq_of_getLsbD_eq
    intro i _
    cases h : TAG_VALID_FLAG.getLsbD i <;> simp [h]
  rw [CacheLine.valid, h, hv]
  rfl

/-- The valid bit of a tag is below the alignment of a line. -/
theorem CacheDesc.vaCacheAlign_tag {d : CacheDesc}
    (hd : TAG_VALID_FLAG &&& ~~~BitVec.ofNat 32 (d.width - 1) = 0#32) (va : ARMword) :
    d.vaCacheAlign (d.vaCacheAlign va ||| TAG_VALID_FLAG) = d.vaCacheAlign va := by
  simp only [vaCacheAlign, BitVec.and_or_distrib_right, hd, BitVec.and_assoc, BitVec.and_self,
    BitVec.or_zero]

namespace Cache

variable {d : CacheDesc} {c : Cache d}

theorem search_eq_none {va : ARMword} :
    c.search va = none ↔ ∀ w, (c.line (d.vaCacheSet va) w).hit d va = false := by
  simp [search, List.find?_eq_none]

theorem hit_of_search {va : ARMword} {w : Fin d.way} (h : c.search va = some w) :
    (c.line (d.vaCacheSet va) w).hit d va = true := by
  have := List.find?_some h
  exact this

theorem search_init (va : ARMword) : (init d).search va = none :=
  search_eq_none.mpr fun _ => by simp [CacheLine.hit, CacheLine.valid, line, init]

end Cache

end SkyEye
