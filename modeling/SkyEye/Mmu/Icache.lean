import SkyEye.Mmu.Transparent

/-!
# What the instruction cache writes to memory

The instruction cache of the ARM920T is a write-back cache like the other one. A store
that finds a line of its address there makes half of the line dirty, before any check of
the access, and the line's next write-back puts that half into memory, with the words it
has held since it was fetched. An operation on the instruction cache keeps memory exactly
if the last dirty copy it writes back of each word is memory's own; a cache that no store
has hit has no dirty copies.
-/

namespace SkyEye

open WriteBack

/-! ## What lines write -/

/-- Words written one after the other. -/
theorem Ram.foldl_busWrite {ι : Type} (is : List ι) (a x : ι → ARMword) (ram : Ram) :
    (is.foldl (fun ram i => ram.busWrite .word (a i) (x i)) ram).word =
        writes ram.word (is.map fun i => (Ram.index (a i), x i)) ∧
      (is.foldl (fun ram i => ram.busWrite .word (a i) (x i)) ram).bigEndian = ram.bigEndian := by
  induction is generalizing ram with
  | nil => exact ⟨rfl, rfl⟩
  | cons i is ih =>
    obtain ⟨hw, hb⟩ := ih (ram.busWrite .word (a i) (x i))
    rw [Ram.busWrite_word] at hw
    exact ⟨hw, hb⟩

/-- Memory is its words and its endianness. -/
theorem Ram.ext_word {ram ram' : Ram} (hb : ram.bigEndian = ram'.bigEndian) :
    ram = ram' ↔ ram.word = ram'.word := by
  constructor
  · exact congrArg Ram.word
  · intro hw
    obtain ⟨word, bigEndian⟩ := ram
    obtain ⟨word', bigEndian'⟩ := ram'
    obtain rfl : word = word' := hw
    obtain rfl : bigEndian = bigEndian' := hb
    rfl

namespace CacheLine

/-- The dirty words of a valid line, with where they belong. -/
def dirtyWords (d : CacheDesc) (l : CacheLine) : List (BitVec 30 × ARMword) :=
  if l.valid then
    ((List.range d.words).filter (l.dirty d)).map fun k =>
      (Ram.index (l.pa + BitVec.ofNat 32 (4 * k)), l.data k)
  else []

theorem dirtyWords_of_not_dirty {d : CacheDesc} {l : CacheLine}
    (h : l.valid = true → ∀ k, l.dirty d k = false) : l.dirtyWords d = [] := by
  rw [dirtyWords]
  split
  · rename_i hv
    have hf : (List.range d.words).filter (l.dirty d) = [] := by
      rw [List.filter_eq_nil_iff]
      intro k _
      rw [h hv k]
      decide
    rw [hf]
    rfl
  · rfl

/-- Writing a line back writes its dirty words. -/
theorem writeBack_dirtyWords {d : CacheDesc} (hw : d.width = 32) (l : CacheLine) (ram : Ram) :
    (l.writeBack d ram).2.word = writes ram.word (l.dirtyWords d) ∧
      (l.writeBack d ram).2.bigEndian = ram.bigEndian := by
  have hwords : d.words = 8 := by rw [CacheDesc.words, hw]
  have hd : l.dirty d = fun k => if k < 4 then l.tag &&& TAG_FIRST_HALF_DIRTY != 0
      else l.tag &&& TAG_LAST_HALF_DIRTY != 0 := by
    funext k
    rw [dirty, halfDirty_eq hw]
    split <;> rfl
  have hs (first nw : Nat) := Ram.foldl_busWrite (List.range nw)
    (fun i => l.pa + BitVec.ofNat 32 (4 * (first + i))) (fun i => l.data (first + i)) ram
  rw [writeBack, dirtyWords, hwords, hd]
  cases l.valid with
  | false => exact ⟨rfl, rfl⟩
  | true =>
    -- the halves are the stretches 0-3 and 4-7 of the eight words
    cases l.tag &&& TAG_FIRST_HALF_DIRTY != 0 <;> cases l.tag &&& TAG_LAST_HALF_DIRTY != 0
    · exact ⟨rfl, rfl⟩
    · exact hs 4 4
    · exact hs 0 4
    · exact hs 0 8

end CacheLine

/-! ## What cache operations write -/

namespace Cache

variable {d : CacheDesc} {c : Cache d} (hw : d.width = 32)

/-- The lines of a cache, set by set. -/
def lines (c : Cache d) : List CacheLine :=
  (List.finRange d.set).flatMap fun s => (List.finRange d.way).map (c.line s)

/-- The line that an allocation for an address replaces. -/
def victim (c : Cache d) (va : ARMword) : CacheLine :=
  let s := d.vaCacheSet (d.vaCacheAlign va)
  c.line s (c.sets s).cycle

/-- Memory has had the dirty words of lines written to it, in order. -/
def Written (d : CacheDesc) (ram : Ram) (ls : List CacheLine) (ram' : Ram) : Prop :=
  ram'.word = writes ram.word (ls.flatMap (·.dirtyWords d)) ∧ ram'.bigEndian = ram.bigEndian

theorem Written.refl (ram : Ram) : Written d ram [] ram := ⟨rfl, rfl⟩

theorem Written.append {ram ram' ram'' : Ram} {ls ls' : List CacheLine}
    (h : Written d ram ls ram') (h' : Written d ram' ls' ram'') :
    Written d ram (ls ++ ls') ram'' := by
  refine ⟨?_, h'.2.trans h.2⟩
  rw [List.flatMap_append, writes_append, ← h.1]
  exact h'.1

/-- The last dirty copy among lines of each word is memory's own word. -/
def AgreeWithRam (d : CacheDesc) (ls : List CacheLine) (ram : Ram) : Prop :=
  ∀ i x, (ls.flatMap (·.dirtyWords d)).reverse.lookup i = some x → ram.word i = x

theorem Written.eq_iff {ram ram' : Ram} {ls : List CacheLine} (h : Written d ram ls ram') :
    ram' = ram ↔ AgreeWithRam d ls ram := by
  rw [Ram.ext_word h.2, h.1]
  exact writes_eq_self_iff

include hw

theorem written_writeBack (l : CacheLine) (ram : Ram) : Written d ram [l] (l.writeBack d ram).2 := by
  obtain ⟨hword, hb⟩ := l.writeBack_dirtyWords hw ram
  refine ⟨?_, hb⟩
  rw [List.flatMap_singleton]
  exact hword

theorem written_onLine_invalidate (s : Fin d.set) (w : Fin d.way) (ram : Ram) :
    Written d ram [c.line s w] (c.onLine s w ram (·.invalidate d)).2 :=
  written_writeBack hw (c.line s w) ram

theorem written_invalidate (va : ARMword) (ram : Ram) :
    Written d ram (c.searchLine va).toList (c.invalidate va ram).2 := by
  rw [Cache.invalidate, onSearch, searchLine]
  cases c.search va with
  | none => exact .refl ram
  | some w => exact written_onLine_invalidate hw _ w ram

theorem written_alloc (hm : d.wMode = .writeBack) (va pa : ARMword) (ram : Ram) :
    Written d ram [c.victim va] (c.alloc va pa ram).2.1 := by
  have hv : (c.advance (d.vaCacheSet (d.vaCacheAlign va))).line (d.vaCacheSet (d.vaCacheAlign va))
      (c.sets (d.vaCacheSet (d.vaCacheAlign va))).cycle = c.victim va := line_advance ..
  have h := written_writeBack hw (c.victim va) ram
  rw [← hv] at h ⊢
  simp only [alloc, hm]
  exact h

/-- The ways of a set, one after the other: invalidating a line leaves the ones to come. -/
theorem written_ways (s : Fin d.set) (ws : List (Fin d.way)) (hn : ws.Nodup) (cr : Cache d × Ram) :
    Written d cr.2 (ws.map (cr.1.line s))
        (ws.foldl (fun cr w => cr.1.onLine s w cr.2 (·.invalidate d)) cr).2 ∧
      ∀ s', s' ≠ s → (ws.foldl (fun cr w => cr.1.onLine s w cr.2 (·.invalidate d)) cr).1.line s' =
        cr.1.line s' := by
  induction ws generalizing cr with
  | nil => exact ⟨.refl cr.2, fun _ _ => rfl⟩
  | cons w ws ih =>
    obtain ⟨hw', hn'⟩ := List.nodup_cons.mp hn
    obtain ⟨hwr, hother⟩ := ih hn' (cr.1.onLine s w cr.2 (·.invalidate d))
    have hsame : ws.map ((cr.1.onLine s w cr.2 (·.invalidate d)).1.line s) =
        ws.map (cr.1.line s) := by
      apply List.map_congr_left
      intro v hv
      have hne : ¬ (s = s ∧ v = w) := by
        rintro ⟨-, rfl⟩
        exact hw' hv
      rw [onLine_eq, line_setLine, if_neg hne]
    rw [hsame] at hwr
    refine ⟨(written_onLine_invalidate hw s w cr.2).append hwr, fun s' hs' => ?_⟩
    rw [List.foldl_cons, hother s' hs']
    funext w'
    rw [onLine_eq, line_setLine, if_neg fun h => hs' h.1]

theorem written_sets (ss : List (Fin d.set)) (hn : ss.Nodup) (cr : Cache d × Ram) :
    Written d cr.2 (ss.flatMap fun s => (List.finRange d.way).map (cr.1.line s))
      (ss.foldl (fun cr s => (List.finRange d.way).foldl
        (fun cr w => cr.1.onLine s w cr.2 (·.invalidate d)) cr) cr).2 := by
  induction ss generalizing cr with
  | nil => exact .refl cr.2
  | cons s ss ih =>
    obtain ⟨hs, hn'⟩ := List.nodup_cons.mp hn
    obtain ⟨hwr, hother⟩ := written_ways hw s _ (List.nodup_finRange d.way) cr
    have hrest := ih hn' ((List.finRange d.way).foldl
      (fun cr w => cr.1.onLine s w cr.2 (·.invalidate d)) cr)
    have hsame : (ss.flatMap fun s' => (List.finRange d.way).map
        (((List.finRange d.way).foldl (fun cr w => cr.1.onLine s w cr.2 (·.invalidate d)) cr).1.line
          s')) = ss.flatMap fun s' => (List.finRange d.way).map (cr.1.line s') := by
      apply List.flatMap_congr
      intro s' hs'
      have hne : s' ≠ s := by
        rintro rfl
        exact hs hs'
      rw [hother s' hne]
    rw [hsame] at hrest
    exact hwr.append hrest

theorem written_invalidateAll (ram : Ram) : Written d ram c.lines (c.invalidateAll ram).2 :=
  written_sets hw _ (List.nodup_finRange d.set) (c, ram)

omit hw

/-- Clean lines write nothing. -/
theorem agreeWithRam_of_clean {ls : List CacheLine} {ram : Ram}
    (h : ∀ l ∈ ls, l.valid = true → ∀ k, l.dirty d k = false) : AgreeWithRam d ls ram := by
  have hnil : ls.flatMap (·.dirtyWords d) = [] := by
    rw [List.flatMap_eq_nil_iff]
    exact fun l hl => CacheLine.dirtyWords_of_not_dirty (h l hl)
  intro i x hx
  rw [hnil] at hx
  cases hx

end Cache

theorem SplitMmu.updateIcache_of_miss {U : Type} {p : SplitMmu U} {cpu : Cpu} {mmu : MmuState U}
    {va : ARMword} {datatype : DataType} {data : ARMword}
    (h : (p.icache mmu.u).search va = none) :
    p.updateIcache cpu mmu va datatype data = p.icache mmu.u := by
  simp only [SplitMmu.updateIcache, h]

namespace Arm920t

/-! ## Runs of the ARM920T -/

/-- What the processor asks of its MMU: fetches, data accesses and coprocessor writes. -/
inductive Request where
  | fetch (cpu : Cpu) (va : ARMword)
  | read (cpu : Cpu) (old va : ARMword) (datatype : DataType)
  | write (cpu : Cpu) (va : ARMword) (datatype : DataType) (data : ARMword)
  | mcr (armv4 : Bool) (creg opc2 crm : Nat) (value : ARMword)

def serve (mmu : MmuState Arm920t) : Request → MmuState Arm920t
  | .fetch cpu va => (loadInstr cpu mmu va).2
  | .read cpu old va datatype => (read cpu mmu old va datatype).2
  | .write cpu va datatype data => (write cpu mmu va datatype data).2
  | .mcr armv4 creg opc2 crm value => mcr mmu armv4 creg opc2 crm value

def serveAll (mmu : MmuState Arm920t) (rs : List Request) : MmuState Arm920t := rs.foldl serve mmu

/-- The instruction cache's part of `arm920t_mmu_cache_ops`, which comes first. -/
def icacheOps (mmu : MmuState Arm920t) (opc2 crm : Nat) (value : ARMword) : MmuState Arm920t :=
  match opc2, crm with
  | 0, 7 => onIcache mmu Cache.invalidateAll
  | 0, 5 => onIcache mmu Cache.invalidateAll
  | 1, 5 => onIcache mmu (Cache.invalidate · value)
  | _, _ => mmu

theorem icacheOps_of_not {mmu : MmuState Arm920t} {opc2 crm : Nat} {value : ARMword}
    (h7 : opc2 = 0 → crm = 7 → False) (h5 : opc2 = 0 → crm = 5 → False)
    (h15 : opc2 = 1 → crm = 5 → False) : icacheOps mmu opc2 crm value = mmu := by
  unfold icacheOps
  split
  · exact (h7 rfl rfl).elim
  · exact (h5 rfl rfl).elim
  · exact (h15 rfl rfl).elim
  · rfl

/-- The instruction cache's part of what serves a request. -/
def serveIcache (mmu : MmuState Arm920t) : Request → MmuState Arm920t
  | .fetch cpu va => (loadInstr cpu mmu va).2
  | .read _ _ _ _ => mmu
  | .write _ _ _ _ => mmu
  | .mcr armv4 creg opc2 crm value =>
    if armv4 = true ∧ creg = 7 then icacheOps mmu opc2 crm value else mmu

/-! ## What the instruction cache writes back -/

/-- The line that a fetch which misses the cache replaces. -/
def fetchVictim (cpu : Cpu) (mmu : MmuState Arm920t) (va : ARMword) : Option CacheLine :=
  let va := mmu.pidVaMap va
  let allocated (va : ARMword) (c : Bool) : Option CacheLine :=
    if (mmu.u.icache.search va).isNone && c then some (mmu.u.icache.victim va) else none
  if mmu.mmuEnabled then
    if va &&& 3 != 0 && mmu.mmuAligned then none
    else
      match mmu.authorise cpu mmu.u.itlb (va &&& ~~~3) true with
      | .error _ => none
      | .ok e => allocated (va &&& ~~~3) e.cFlag
  else allocated va true

/-- The lines that cache operations invalidate in the instruction cache. -/
def icacheOpsLines (mmu : MmuState Arm920t) (opc2 crm : Nat) (value : ARMword) : List CacheLine :=
  match opc2, crm with
  | 0, 7 => mmu.u.icache.lines
  | 0, 5 => mmu.u.icache.lines
  | 1, 5 => (mmu.u.icache.searchLine value).toList
  | _, _ => []

/-- The lines of the instruction cache that serving a request writes back. -/
def writtenBack (mmu : MmuState Arm920t) : Request → List CacheLine
  | .fetch cpu va => (fetchVictim cpu mmu va).toList
  | .read _ _ _ _ => []
  | .write _ _ _ _ => []
  | .mcr armv4 creg opc2 crm value =>
    if armv4 = true ∧ creg = 7 then icacheOpsLines mmu opc2 crm value else []

variable {cpu : Cpu} {mmu : MmuState Arm920t}

/-- What a fetch writes once it has an address. -/
theorem written_fetch (c : Bool) (va pa : ARMword) :
    Cache.Written icacheDesc mmu.ram
      (if (mmu.u.icache.search va).isNone && c then some (mmu.u.icache.victim va) else none).toList
      (side.fetch mmu c va pa).2.ram := by
  rw [SplitMmu.fetch]
  dsimp only [side]
  rw [Cache.searchLine]
  cases mmu.u.icache.search va with
  | some w => exact .refl mmu.ram
  | none =>
    cases c with
    | false => exact .refl mmu.ram
    | true => exact Cache.written_alloc rfl rfl va pa mmu.ram

theorem written_loadInstr (va : ARMword) :
    Cache.Written icacheDesc mmu.ram (fetchVictim cpu mmu va).toList (loadInstr cpu mmu va).2.ram := by
  rw [loadInstr, SplitMmu.loadInstr, fetchVictim]
  dsimp only
  split
  · split
    · exact .refl mmu.ram
    · show Cache.Written _ _ _ (match mmu.authorise cpu mmu.u.itlb _ true with
        | .error f => _
        | .ok e => _ : Except Fault ARMword × MmuState Arm920t).2.ram
      cases mmu.authorise cpu mmu.u.itlb (mmu.pidVaMap va &&& ~~~3) true with
      | error f => exact .refl mmu.ram
      | ok e => exact written_fetch e.cFlag _ _
  · exact written_fetch true _ _

theorem onIcache_ram (f : Cache icacheDesc → Ram → Cache icacheDesc × Ram) :
    (onIcache mmu f).ram = (f mmu.u.icache mmu.ram).2 := rfl

theorem written_icacheOps (opc2 crm : Nat) (value : ARMword) :
    Cache.Written icacheDesc mmu.ram (icacheOpsLines mmu opc2 crm value)
      (icacheOps mmu opc2 crm value).ram := by
  unfold icacheOpsLines
  split
  · rw [icacheOps, onIcache_ram]
    exact Cache.written_invalidateAll rfl mmu.ram
  · rw [icacheOps, onIcache_ram]
    exact Cache.written_invalidateAll rfl mmu.ram
  · rw [icacheOps, onIcache_ram]
    exact Cache.written_invalidate rfl value mmu.ram
  · rename_i h7 h5 h15
    rw [icacheOps_of_not h7 h5 h15]
    exact .refl mmu.ram

/-- The instruction cache writes the dirty words of lines to memory, and nothing else. -/
theorem written_serveIcache (mmu : MmuState Arm920t) (r : Request) :
    Cache.Written icacheDesc mmu.ram (writtenBack mmu r) (serveIcache mmu r).ram := by
  cases r with
  | fetch cpu va => exact written_loadInstr va
  | read | write => exact .refl mmu.ram
  | mcr armv4 creg opc2 crm value =>
    rw [writtenBack, serveIcache]
    split
    · exact written_icacheOps opc2 crm value
    · exact .refl mmu.ram

/-! ## Who makes lines dirty -/

theorem load_icache (old : ARMword) (datatype : DataType) (e : TlbEntry) (va realVa : ARMword) :
    (side.load cpu mmu old datatype e va realVa).2.u.icache = mmu.u.icache := by
  rw [DataSide.load]
  split
  · rfl
  · show (side.loadMiss cpu mmu old datatype e va realVa).2.u.icache = _
    rw [DataSide.loadMiss]
    dsimp only
    split
    · split <;> rfl
    · split <;> split <;> rfl

theorem read_icache (old va : ARMword) (datatype : DataType) :
    (read cpu mmu old va datatype).2.u.icache = mmu.u.icache := by
  rw [read, SplitMmu.read]
  dsimp only
  split
  · rfl
  · split
    · rfl
    · split
      · rfl
      · exact load_icache ..

theorem store_icache (datatype : DataType) (data : ARMword) (e : TlbEntry) (va realVa : ARMword) :
    (side.store cpu mmu datatype data e va realVa).u.icache = mmu.u.icache := by
  rw [DataSide.store]
  dsimp only
  split <;> rfl

/-- A store leaves the instruction cache updated, whatever becomes of the store. -/
theorem write_icache (va : ARMword) (datatype : DataType) (data : ARMword) :
    (write cpu mmu va datatype data).2.u.icache =
      side.updateIcache cpu mmu (mmu.pidVaMap va) datatype data := by
  rw [write, SplitMmu.write]
  dsimp only
  split
  · rfl
  · split
    · rfl
    · split
      · rfl
      · exact store_icache ..

theorem clean_fetch (h : mmu.u.icache.Clean) (c : Bool) (va pa : ARMword) :
    (side.fetch mmu c va pa).2.u.icache.Clean := by
  rw [SplitMmu.fetch]
  dsimp only
  split
  · exact h
  · split
    · exact Cache.Clean.alloc (d := icacheDesc) rfl rfl h va pa mmu.ram
    · exact h

theorem clean_loadInstr (h : mmu.u.icache.Clean) (va : ARMword) :
    (loadInstr cpu mmu va).2.u.icache.Clean := by
  rw [loadInstr, SplitMmu.loadInstr]
  dsimp only
  split
  · split
    · exact h
    · show Cache.Clean (match mmu.authorise cpu mmu.u.itlb _ true with
        | .error f => _
        | .ok e => _ : Except Fault ARMword × MmuState Arm920t).2.u.icache
      cases mmu.authorise cpu mmu.u.itlb (mmu.pidVaMap va &&& ~~~3) true with
      | error f => exact h
      | ok e =>
        have ht : (side.fetchTranslated cpu mmu (mmu.pidVaMap va &&& ~~~3)).u.icache.Clean := h
        exact clean_fetch ht e.cFlag _ _
  · exact clean_fetch h true _ _

theorem clean_onIcache (h : mmu.u.icache.Clean) {f : Cache icacheDesc → Ram → Cache icacheDesc × Ram}
    (hf : Cache.Dropped mmu.u.icache mmu.ram (f mmu.u.icache mmu.ram)) :
    (onIcache mmu f).u.icache.Clean := hf.clean h

theorem clean_onDcache (h : mmu.u.icache.Clean)
    (f : Cache dcacheDesc → Ram → Cache dcacheDesc × Ram) : (onDcache mmu f).u.icache.Clean := h

theorem clean_cacheOps (h : mmu.u.icache.Clean) (opc2 crm : Nat) (value : ARMword) :
    (cacheOps mmu opc2 crm value).u.icache.Clean := by
  unfold cacheOps
  split
  · exact clean_onDcache (clean_onIcache h (h.invalidateAll rfl _)) _
  · exact clean_onIcache h (h.invalidateAll rfl _)
  · exact clean_onIcache h (h.invalidate rfl value _)
  · exact clean_onDcache h _
  · exact clean_onDcache h _
  · exact clean_onDcache h _
  · exact clean_onDcache (clean_onDcache h _) _
  · exact clean_onDcache h _
  · exact clean_onDcache (clean_onDcache h _) _
  · exact h
  · exact h

theorem clean_mcr (h : mmu.u.icache.Clean) (armv4 : Bool) (creg opc2 crm : Nat) (value : ARMword) :
    (mcr mmu armv4 creg opc2 crm value).u.icache.Clean := by
  unfold mcr
  split
  · split
    · exact h
    · exact h
    · exact h
    · split <;> exact h
    · exact h
    · exact clean_cacheOps h opc2 crm value
    · unfold tlbOps
      dsimp only
      split <;> exact h
    · exact h
    · exact h
  · exact h

/-- The address of a store is in no line of the instruction cache. -/
def StoreMisses (mmu : MmuState Arm920t) : Request → Prop
  | .write _ va _ _ => mmu.u.icache.search (mmu.pidVaMap va) = none
  | _ => True

theorem clean_serve (h : mmu.u.icache.Clean) {r : Request} (hr : StoreMisses mmu r) :
    (serve mmu r).u.icache.Clean := by
  cases r with
  | fetch cpu va => exact clean_loadInstr h va
  | read cpu old va datatype =>
    rw [serve, read_icache]
    exact h
  | write cpu va datatype data =>
    have hu : side.updateIcache cpu mmu (mmu.pidVaMap va) datatype data = mmu.u.icache :=
      SplitMmu.updateIcache_of_miss hr
    rw [serve, write_icache, hu]
    exact h
  | mcr armv4 creg opc2 crm value => exact clean_mcr h armv4 creg opc2 crm value

/-! ## Runs -/

/-- Something holds of the state and the request at each step of a run. -/
def AtEach (mmu : MmuState Arm920t) (rs : List Request)
    (P : MmuState Arm920t → Request → Prop) : Prop :=
  ∀ pre r post, rs = pre ++ r :: post → P (serveAll mmu pre) r

/-- Over a run from `mmu`, no operation on the instruction cache changes memory. -/
def IcacheKeepsRam (mmu : MmuState Arm920t) (rs : List Request) : Prop :=
  AtEach mmu rs fun mmu r => (serveIcache mmu r).ram = mmu.ram

theorem atEach_nil {P : MmuState Arm920t → Request → Prop} : AtEach mmu [] P := by
  intro pre r post hrs
  simp at hrs

theorem atEach_cons {r : Request} {rs : List Request} {P : MmuState Arm920t → Request → Prop} :
    AtEach mmu (r :: rs) P ↔ P mmu r ∧ AtEach (serve mmu r) rs P := by
  constructor
  · intro h
    refine ⟨h [] r rs rfl, fun pre r' post hrs => ?_⟩
    exact h (r :: pre) r' post (congrArg (r :: ·) hrs)
  · rintro ⟨hr, h⟩ pre r' post hrs
    cases pre with
    | nil =>
      obtain ⟨rfl, -⟩ := List.cons.inj hrs
      exact hr
    | cons _ pre =>
      obtain ⟨rfl, hrest⟩ := List.cons.inj hrs
      exact h pre r' post hrest

/-- A run whose stores miss the instruction cache keeps it clean. -/
theorem clean_atEach (h : mmu.u.icache.Clean) {rs : List Request}
    (hs : AtEach mmu rs StoreMisses) : AtEach mmu rs fun mmu _ => mmu.u.icache.Clean := by
  induction rs generalizing mmu with
  | nil => exact atEach_nil
  | cons r rs ih =>
    obtain ⟨hr, hs⟩ := atEach_cons.mp hs
    exact atEach_cons.mpr ⟨h, ih (clean_serve h hr) hs⟩

/-- The lines that are written back are lines of the instruction cache. -/
theorem writtenBack_line {r : Request} {l : CacheLine} (hl : l ∈ writtenBack mmu r) :
    ∃ s w, l = mmu.u.icache.line s w := by
  cases r with
  | read | write => simp [writtenBack] at hl
  | fetch cpu va =>
    have hv (a : ARMword) (c : Bool) (h : (if (mmu.u.icache.search a).isNone && c then
        some (mmu.u.icache.victim a) else none) = some l) : ∃ s w, l = mmu.u.icache.line s w := by
      split at h
      · obtain rfl := Option.some.inj h
        exact ⟨_, _, rfl⟩
      · cases h
    have hf := Option.mem_toList.mp hl
    rw [fetchVictim] at hf
    dsimp only at hf
    split at hf
    · split at hf
      · cases hf
      · split at hf
        · cases hf
        · exact hv _ _ hf
    · exact hv _ _ hf
  | mcr armv4 creg opc2 crm value =>
    have hlines (h : l ∈ mmu.u.icache.lines) : ∃ s w, l = mmu.u.icache.line s w := by
      obtain ⟨s, -, h⟩ := List.mem_flatMap.mp h
      obtain ⟨w, -, rfl⟩ := List.mem_map.mp h
      exact ⟨s, w, rfl⟩
    rw [writtenBack] at hl
    split at hl
    · unfold icacheOpsLines at hl
      split at hl
      · exact hlines hl
      · exact hlines hl
      · obtain ⟨w, -, rfl⟩ := Option.map_eq_some_iff.mp (Option.mem_toList.mp hl)
        exact ⟨_, w, rfl⟩
      · cases hl
    · cases hl

/-- The instruction cache keeps memory over a run exactly if at each step the last dirty copy of
each word, among the lines that are written back, is memory's word. It is so if the cache starts
clean and no store hits it. -/
theorem icacheKeepsRam_iff (mmu : MmuState Arm920t) (rs : List Request) :
    (IcacheKeepsRam mmu rs ↔
      AtEach mmu rs fun mmu r => Cache.AgreeWithRam icacheDesc (writtenBack mmu r) mmu.ram) ∧
    (mmu.u.icache.Clean → AtEach mmu rs StoreMisses → IcacheKeepsRam mmu rs) := by
  have hiff : IcacheKeepsRam mmu rs ↔
      AtEach mmu rs fun mmu r => Cache.AgreeWithRam icacheDesc (writtenBack mmu r) mmu.ram := by
    constructor
    · intro h pre r post hrs
      exact (written_serveIcache _ r).eq_iff.mp (h pre r post hrs)
    · intro h pre r post hrs
      exact (written_serveIcache _ r).eq_iff.mpr (h pre r post hrs)
  refine ⟨hiff, fun hc hs => hiff.mpr fun pre r post hrs => Cache.agreeWithRam_of_clean ?_⟩
  intro l hl
  obtain ⟨s, w, rfl⟩ := writtenBack_line hl
  exact clean_atEach hc hs pre r post hrs s w

theorem icacheKeepsRam_iff_section :
    IcacheKeepsRam sectionStart
      [.fetch svcCpu 0x100, .write svcCpu 0x200 .word 5, .mcr true 7 0 5 0] := by
  refine (icacheKeepsRam_iff sectionStart _).2 (fun s w hv => ?_) ?_
  · simp [sectionStart, mcr, init, Cache.init, Cache.line, CacheLine.valid] at hv
  · refine atEach_cons.mpr ⟨trivial, atEach_cons.mpr ⟨?_, atEach_cons.mpr ⟨trivial, atEach_nil⟩⟩⟩
    show (serve sectionStart _).u.icache.search _ = none
    decide +kernel

/-- A store of 5 to 0x104 waits in the data cache while the line is fetched as an instruction.
Another store to the line makes the fetched copy dirty; the data cache is then cleaned, so memory
has the 5, until the instruction cache writes the old word over it. -/
theorem icache_overwrites_store :
    ¬ IcacheKeepsRam sectionStart
      [.read svcCpu 0 0x104 .word, .write svcCpu 0x104 .word 5, .fetch svcCpu 0x100,
        .write svcCpu 0x100 .word 6, .mcr true 7 1 10 0x100, .mcr true 7 1 5 0x100] := by
  intro h
  have hw := congrArg (·.word 0x41) (h [_, _, _, _, _] (.mcr true 7 1 5 0x100) [] rfl)
  revert hw
  decide +kernel

end Arm920t

end SkyEye
