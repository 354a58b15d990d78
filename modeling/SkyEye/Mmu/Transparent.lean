import SkyEye.Mmu.Arm9
import SkyEye.Mmu.Layers
import SkyEye.Mmu.Wb
import SkyEye.Mmu.Translation

/-!
# The ARM920T data side is transparent

Under fixed page tables that map the accessed addresses onto themselves, the data cache,
the write buffer and memory behave as one plain memory: reads and writes do what they
would do to it, and maintenance does nothing to it. The invariant (`Coherent`) is that
the three are `Layers` of the plain memory, with the words of bufferable pages the only
ones in the buffer and the page tables never anywhere but in memory.
-/

namespace SkyEye.Arm920t

/-! ## Runs -/

/-- What the data side is asked for. A read has a datum to overwrite; maintenance is a write
of CP15 register 7, which includes draining the write buffer. -/
inductive Op where
  | read (cpu : Cpu) (old va : ARMword) (datatype : DataType)
  | write (cpu : Cpu) (va : ARMword) (datatype : DataType) (data : ARMword)
  | cacheOps (opc2 crm : Nat) (value : ARMword)

def step (mmu : MmuState Arm920t) : Op → MmuState Arm920t
  | .read cpu old va datatype => (read cpu mmu old va datatype).2
  | .write cpu va datatype data => (write cpu mmu va datatype data).2
  | .cacheOps opc2 crm value => cacheOps mmu opc2 crm value

def run (mmu : MmuState Arm920t) (ops : List Op) : MmuState Arm920t := ops.foldl step mmu

/-! ## What is asked of the start and of the operations -/

section Conditions

variable (x : Bool) (m₀ : MmuState Arm920t)

/-- A word of the first-level table, or of a second-level table it refers to. -/
def TableWord (i : BitVec 30) : Prop :=
  ∃ va, i = Ram.index (m₀.l1addr va) ∨ m₀.PointsToTable va ∧ i = Ram.index (m₀.l2addr va)

/-- A word of a bufferable page. -/
def Bufferable (i : BitVec 30) : Prop :=
  ∃ e, m₀.walk x (Ram.addr i) = .ok e ∧ e.bFlag = true

/-- The address is mapped onto itself and the access is allowed. -/
def Mapped (cpu : Cpu) (a : ARMword) (read : Bool) : Prop :=
  ∃ e, m₀.walk x (Ram.addr (Ram.index a)) = .ok e ∧
    e.vaToPa (Ram.addr (Ram.index a)) = Ram.addr (Ram.index a) ∧
    m₀.checkAccess cpu.mode (Ram.addr (Ram.index a)) e read = none

/-- A little-endian access that the alignment check refuses or the page tables allow. -/
structure Permitted (cpu : Cpu) (a : ARMword) (datatype : DataType) (read : Bool) : Prop where
  bigend : cpu.bigend = false
  isXScale : cpu.isXScale = x
  mapped : m₀.misaligned a datatype = false → Mapped x m₀ cpu a read

/-- Stores keep off the page tables and the lines of the instruction cache; maintenance of the
instruction cache finds no dirty line there. -/
def Fits : Op → Prop
  | .read cpu _ va datatype => Permitted x m₀ cpu (m₀.pidVaMap va) datatype true
  | .write cpu va datatype _ =>
    Permitted x m₀ cpu (m₀.pidVaMap va) datatype false ∧
      ¬ TableWord m₀ (Ram.index (m₀.pidVaMap va)) ∧
      m₀.u.icache.search (m₀.pidVaMap va) = none
  | .cacheOps _ crm _ => crm = 5 ∨ crm = 7 → m₀.u.icache.Clean

/-- A state with the MMU on, as coprocessor writes leave it, little-endian memory, consistent
page tables, and nothing in the data cache and the write buffer yet. -/
structure Start : Prop where
  enabled : m₀.mmuEnabled = true
  control : ∃ v, m₀.control = controlValue v
  littleEndian : m₀.ram.bigEndian = false
  replicated : m₀.Replicated
  tlb : m₀.TlbSound x m₀.u.dtlb
  dcache : ∀ s w, (m₀.u.dcache.line s w).valid = false
  wb : m₀.u.wb.entrys.used = 0

/-- What an operation does to a plain memory. -/
def plainStep (plain : Ram) : Op → Ram
  | .read .. => plain
  | .write _ va datatype data =>
    if m₀.misaligned (m₀.pidVaMap va) datatype then plain
    else plain.busWrite datatype (m₀.pidVaMap va) data
  | .cacheOps .. => plain

end Conditions

/-! ## The invariant -/

/-- The state `m` of a run from `m₀` stands for the memory `plain`. -/
structure Coherent (x : Bool) (m₀ : MmuState Arm920t) (plain : Ram) (m : MmuState Arm920t) :
    Prop where
  control : m.control = m₀.control
  base : m.translationTableBase = m₀.translationTableBase
  domains : m.domainAccessControl = m₀.domainAccessControl
  pid : m.processId = m₀.processId
  layers : Layers (Bufferable x m₀) (TableWord m₀) plain m.u.dcache m.u.wb m.ram
  tables : ∀ i, TableWord m₀ i → plain.word i = m₀.ram.word i
  tlb : m₀.TlbSound x m.u.dtlb
  icache : ∀ s w, m.u.icache.line s w = m₀.u.icache.line s w ∨ (m.u.icache.line s w).valid = false

theorem Start.coherent {x : Bool} {m₀ : MmuState Arm920t} (h : Start x m₀) :
    Coherent x m₀ m₀.ram m₀ where
  control := rfl
  base := rfl
  domains := rfl
  pid := rfl
  layers := .of_empty h.dcache h.wb h.littleEndian
  tables _ _ := rfl
  tlb := h.tlb
  icache _ _ := .inl rfl

namespace Coherent

variable {x : Bool} {m₀ m : MmuState Arm920t} {plain : Ram} {cpu : Cpu}

theorem pidVaMap (h : Coherent x m₀ plain m) (va : ARMword) : m.pidVaMap va = m₀.pidVaMap va := by
  rw [MmuState.pidVaMap, MmuState.pidVaMap, h.pid]

theorem ctl (h : Coherent x m₀ plain m) (bit : ARMword) : m.ctl bit = m₀.ctl bit := by
  rw [MmuState.ctl, MmuState.ctl, h.control]

theorem misaligned (h : Coherent x m₀ plain m) (a : ARMword) (datatype : DataType) :
    m.misaligned a datatype = m₀.misaligned a datatype := by
  rw [MmuState.misaligned, MmuState.misaligned, MmuState.mmuAligned, MmuState.mmuAligned, h.ctl]

/-- Memory has the page tables of the start. -/
theorem sameTables (h : Coherent x m₀ plain m) : m₀.SameTables m := by
  have hword (i : BitVec 30) (hi : TableWord m₀ i) : m.ram.word i = m₀.ram.word i :=
    (h.layers.frozen i hi).1.trans (h.tables i hi)
  have h1 (va : ARMword) : m.l1desc va = m₀.l1desc va := by
    have ha : m.l1addr va = m₀.l1addr va := by rw [MmuState.l1addr, MmuState.l1addr, h.base]
    rw [MmuState.l1desc, MmuState.l1desc, Ram.busRead, Ram.busRead, readLane_word, readLane_word, ha]
    exact hword _ ⟨va, .inl rfl⟩
  refine ⟨h.base, h1, fun va ht => ?_⟩
  have ha : m.l2addr va = m₀.l2addr va := by rw [MmuState.l2addr, MmuState.l2addr, h1]
  rw [MmuState.l2desc, MmuState.l2desc, Ram.busRead, Ram.busRead, readLane_word, readLane_word, ha]
  exact hword _ ⟨va, .inr ⟨ht, rfl⟩⟩

/-- The page tables are asked for what they said at the start. -/
theorem authorise (h : Coherent x m₀ plain m) (hx : cpu.isXScale = x) {va : ARMword} {e : TlbEntry}
    {read : Bool} (hw : m₀.walk x va = .ok e) (hc : m₀.checkAccess cpu.mode va e read = none) :
    m.authorise cpu m.u.dtlb va read = .ok e := by
  have ht := (MmuState.TlbSound.result (h.tlb.congr (h.sameTables.walk x)) va).1
  have hperms (ap : ARMword) : m.checkPerms cpu.mode ap read = m₀.checkPerms cpu.mode ap read := by
    rw [MmuState.checkPerms, MmuState.checkPerms, h.ctl, h.ctl]
  have hcheck : m.checkAccess cpu.mode va e read = m₀.checkAccess cpu.mode va e read := by
    simp only [MmuState.checkAccess, h.domains, hperms]
  rw [← h.sameTables.walk x, hw] at ht
  rw [MmuState.authorise, hx, ht, Except.mapError]
  simp only [hcheck, hc]

theorem translated (h : Coherent x m₀ plain m) (hr : m₀.Replicated) (hx : cpu.isXScale = x)
    (va : ARMword) : Coherent x m₀ plain (side.translated cpu m va) where
  control := h.control
  base := h.base
  domains := h.domains
  pid := h.pid
  layers := h.layers
  tables := h.tables
  tlb := by
    have hs := h.sameTables
    have ht := MmuState.TlbSound.translate (hs.replicated hr) (h.tlb.congr (hs.walk x)) va
    exact hx ▸ ht.congr fun va => (hs.walk x va).symm
  icache := h.icache

/-- Other contents of the data side that stand for the same memory. -/
theorem withLayers (h : Coherent x m₀ plain m) {c : Cache dcacheDesc} {wb : Wb wbDesc} {ram : Ram}
    (hl : Layers (Bufferable x m₀) (TableWord m₀) plain c wb ram) :
    Coherent x m₀ plain { m with ram := ram, u := { m.u with dcache := c, wb := wb } } where
  control := h.control
  base := h.base
  domains := h.domains
  pid := h.pid
  layers := hl
  tables := h.tables
  tlb := h.tlb
  icache := h.icache

/-! ## Reading -/

theorem searchLine_copy (h : Coherent x m₀ plain m) {i : BitVec 30} {l : CacheLine}
    (hs : m.u.dcache.searchLine (Ram.addr i) = some l) :
    l.data (dcacheDesc.vaCacheIndex (Ram.addr i)) = plain.word i := by
  have hc : m.u.dcache.copy i = some (l.word dcacheDesc i) := by
    rw [Cache.copy, hs]
    rfl
  rw [CacheDesc.vaCacheIndex_addr rfl]
  exact h.layers.read_hit hc

theorem copy_of_miss {i : BitVec 30} (hs : m.u.dcache.searchLine (Ram.addr i) = none) :
    m.u.dcache.copy i = none := by
  rw [Cache.copy, hs]
  rfl

/-- Words of one line are of one page. -/
theorem bufferable_of_line (hr : m₀.Replicated) {i j : BitVec 30} {e : TlbEntry}
    (hw : m₀.walk x (Ram.addr i) = .ok e)
    (hl : dcacheDesc.vaCacheAlign (Ram.addr j) = dcacheDesc.vaCacheAlign (Ram.addr i))
    (hb : Bufferable x m₀ j) : e.bFlag = true := by
  obtain ⟨e', hw', hb'⟩ := hb
  have hm : (0xFFFFFFE0 : ARMword) &&& e.mapping.mask = e.mapping.mask := by
    cases e.mapping <;> rfl
  rw [CacheDesc.vaCacheAlign_eq rfl, CacheDesc.vaCacheAlign_eq rfl] at hl
  rw [MmuState.walk_eq_of_hit hr hw (MmuState.and_congr_of_sub hm hl)] at hw'
  cases hw'
  exact hb'

theorem drainWb (h : Coherent x m₀ plain m) : Coherent x m₀ plain (side.drainWb m) :=
  h.withLayers h.layers.drain

theorem drainWb_unused (m : MmuState Arm920t) : (side.drainWb m).u.wb.entrys.used = 0 :=
  (m.u.wb.drainAll_eq m.ram).2

/-- A read that misses, once the buffer has no word of its line. -/
theorem loadLine (h : Coherent x m₀ plain m) (hb : cpu.bigend = false) {a : ARMword}
    (datatype : DataType) (hs : m.u.dcache.search (Ram.addr (Ram.index a)) = none)
    (ht : ∀ j, dcacheDesc.vaCacheAlign (Ram.addr j) =
      dcacheDesc.vaCacheAlign (Ram.addr (Ram.index a)) → ¬ m.u.wb.Touches j) :
    let va := Ram.addr (Ram.index a)
    let f := m.u.dcache.alloc va va m.ram
    let l := f.1.line (dcacheDesc.vaCacheSet (dcacheDesc.vaCacheAlign va)) f.2.2
    Coherent x m₀ plain (side.withDcache m (f.1, f.2.1)) ∧
      readLane cpu.bigend datatype a (l.data (dcacheDesc.vaCacheIndex va)) =
        plain.busRead datatype a := by
  intro va f l
  have hid : dcacheDesc.vaCacheAlign va = dcacheDesc.vaCacheAlign va := rfl
  obtain ⟨hm, hl⟩ := Cache.moves_alloc rfl rfl h.layers.ok hid hs m.ram
  have hc : m.u.dcache.copy (Ram.index a) = none := copy_of_miss (by rw [Cache.searchLine, hs]; rfl)
  refine ⟨h.withLayers (h.layers.moves hm ht), ?_⟩
  have hd : l.data ((Ram.index a).toNat % 8) = m.ram.word (Ram.index a) :=
    congrArg Prod.fst (hl (Ram.index a) rfl)
  rw [CacheDesc.vaCacheIndex_addr rfl, hd, h.layers.read_miss hc (ht _ rfl), hb, Ram.busRead,
    h.layers.littleEndian.1]

theorem busRead (h : Coherent x m₀ plain m) {a : ARMword} (datatype : DataType)
    (hc : m.u.dcache.copy (Ram.index a) = none) (ht : ¬ m.u.wb.Touches (Ram.index a)) :
    m.ram.busRead datatype (laneAddr datatype (Ram.addr (Ram.index a)) a) =
      plain.busRead datatype a := by
  obtain ⟨hi, hl, -⟩ := laneAddr_spec datatype a
  rw [Ram.busRead, Ram.busRead, hi, h.layers.read_miss hc ht, h.layers.littleEndian.1,
    h.layers.littleEndian.2, readLane, readLane, hl]

theorem load (h : Coherent x m₀ plain m) (hr : m₀.Replicated) (hb : cpu.bigend = false)
    {a : ARMword} {e : TlbEntry} (hw : m₀.walk x (Ram.addr (Ram.index a)) = .ok e)
    (hid : e.vaToPa (Ram.addr (Ram.index a)) = Ram.addr (Ram.index a))
    (old : ARMword) (datatype : DataType) :
    Coherent x m₀ plain (side.load cpu m old datatype e (Ram.addr (Ram.index a)) a).2 ∧
      (inFlushWindow (Ram.addr (Ram.index a)) = false →
        (side.load cpu m old datatype e (Ram.addr (Ram.index a)) a).1 =
          .ok (plain.busRead datatype a)) := by
  have hplain : plain.busRead datatype a = readLane false datatype a (plain.word (Ram.index a)) := by
    rw [Ram.busRead, h.layers.littleEndian.1]
  rw [DataSide.load]
  cases hs : (side.dcache m.u).searchLine (Ram.addr (Ram.index a)) with
  | some l =>
    refine ⟨h, fun _ => ?_⟩
    have hd := h.searchLine_copy hs
    rw [hplain, ← hd, ← hb]
    rfl
  | none =>
    have hc := copy_of_miss hs
    have hsearch : m.u.dcache.search (Ram.addr (Ram.index a)) = none := Option.map_eq_none_iff.mp hs
    simp only [DataSide.loadMiss, hid]
    cases hwin : inFlushWindow (Ram.addr (Ram.index a)) with
    | true =>
      refine ⟨?_, fun hf => absurd hf (by decide)⟩
      rw [if_pos rfl]
      cases e.cFlag with
      | false => exact h
      | true => exact h.withLayers (h.layers.movesTo (Cache.movesTo_softFlush rfl h.layers.ok _ _))
    | false =>
      -- Once the buffer is drained, or if the page is not bufferable, it has no word of the line.
      obtain ⟨m', hm', h', hcache, ht⟩ : ∃ m', (if e.bFlag then side.drainWb m else m) = m' ∧
          Coherent x m₀ plain m' ∧ m'.u.dcache = m.u.dcache ∧
          ∀ j, dcacheDesc.vaCacheAlign (Ram.addr j) =
            dcacheDesc.vaCacheAlign (Ram.addr (Ram.index a)) → ¬ m'.u.wb.Touches j := by
        cases hbf : e.bFlag with
        | true =>
          exact ⟨_, rfl, h.drainWb, rfl, fun j _ =>
            Wb.not_touches_of_unused (drainWb_unused m) j⟩
        | false =>
          refine ⟨_, rfl, h, rfl, fun j hj ht => ?_⟩
          have hbuf := bufferable_of_line hr hw hj (h.layers.touches j ht)
          rw [hbf] at hbuf
          cases hbuf
      rw [hm']
      simp only [Bool.false_eq_true, if_false, true_implies]
      cases e.cFlag && m'.dcacheEnabled with
      | true =>
        obtain ⟨hco, hv⟩ := h'.loadLine hb datatype (hcache ▸ hsearch) ht
        exact ⟨hco, congrArg Except.ok hv⟩
      | false => exact ⟨h', congrArg Except.ok (h'.busRead datatype (hcache ▸ hc) (ht _ rfl))⟩

/-! ## Writing -/

theorem stored (h : Coherent x m₀ plain m) {a data : ARMword} {datatype : DataType}
    (hf : ¬ TableWord m₀ (Ram.index a)) {c : Cache dcacheDesc} {wb : Wb wbDesc} {ram : Ram}
    (hl : Layers (Bufferable x m₀) (TableWord m₀) (plain.busWrite datatype a data) c wb ram) :
    Coherent x m₀ (plain.busWrite datatype a data)
      { m with ram := ram, u := { m.u with dcache := c, wb := wb } } where
  control := h.control
  base := h.base
  domains := h.domains
  pid := h.pid
  layers := hl
  tables i hi := by
    have hne : i ≠ Ram.index a := fun he => hf (he ▸ hi)
    exact (Function.update_of_ne hne _ _).trans (h.tables i hi)
  tlb := h.tlb
  icache := h.icache

theorem store (h : Coherent x m₀ plain m) (hb : cpu.bigend = false) (hwb : m.wbEnabled = true)
    {a : ARMword} (hf : ¬ TableWord m₀ (Ram.index a)) {e : TlbEntry}
    (hw : m₀.walk x (Ram.addr (Ram.index a)) = .ok e)
    (hid : e.vaToPa (Ram.addr (Ram.index a)) = Ram.addr (Ram.index a))
    (datatype : DataType) (data : ARMword) :
    Coherent x m₀ (plain.busWrite datatype a data)
      (side.store cpu m datatype data e (Ram.addr (Ram.index a)) a) := by
  obtain ⟨hi, hl, ha⟩ := laneAddr_spec datatype a
  rw [DataSide.store]
  cases hs : (side.dcache m.u).search (Ram.addr (Ram.index a)) with
  | some w =>
    refine h.stored hf ?_
    have hl' := h.layers.store_hit rfl (a := a) hs (Ram.index_addr _).symm hf datatype data rfl
    rw [hb]
    exact hl'
  | none =>
    have hc : m.u.dcache.copy (Ram.index a) = none :=
      copy_of_miss (by rw [Cache.searchLine, show m.u.dcache.search _ = _ from hs]; rfl)
    -- The lane's address is another name of `a`.
    have hplain : plain.busWrite datatype (laneAddr datatype (Ram.addr (Ram.index a)) a) data =
        plain.busWrite datatype a data :=
      Ram.busWrite_congr hi (by rw [h.layers.littleEndian.1]; exact hl) data
    rw [← hi] at hc hf
    rw [← hplain]
    simp only [storeMiss, hid]
    cases hbf : e.bFlag with
    | true =>
      have hbuf : Bufferable x m₀ (Ram.index (laneAddr datatype (Ram.addr (Ram.index a)) a)) := by
        rw [hi]
        exact ⟨e, hw, hbf⟩
      rw [if_pos rfl, if_pos hwb]
      exact h.stored hf (h.layers.store_buffered hc hf hbuf datatype ha data)
    | false =>
      exact h.stored hf (h.layers.drain.store_direct (drainWb_unused m) hc hf datatype data)

/-! ## Maintenance -/

theorem onDcache (h : Coherent x m₀ plain m) {f : Cache dcacheDesc → Ram → Cache dcacheDesc × Ram}
    (hf : ∀ c ram, c.Ok → Cache.MovesTo (c, ram) (f c ram)) :
    Coherent x m₀ plain (onDcache m f) :=
  h.withLayers (h.layers.movesTo (hf _ _ h.layers.ok))

theorem onIcache (h : Coherent x m₀ plain m) {f : Cache icacheDesc → Ram → Cache icacheDesc × Ram}
    (hf : Cache.Dropped m.u.icache m.ram (f m.u.icache m.ram)) :
    Coherent x m₀ plain (onIcache m f) where
  control := h.control
  base := h.base
  domains := h.domains
  pid := h.pid
  layers := by
    have hl := h.layers
    rw [← hf.1] at hl
    exact hl
  tables := h.tables
  tlb := h.tlb
  icache s w := by
    rcases hf.2 s w with hl | hl
    · exact (h.icache s w).imp hl.trans fun hv => (congrArg CacheLine.valid hl).trans hv
    · exact .inr hl

theorem icache_clean (h : Coherent x m₀ plain m) (hc : m₀.u.icache.Clean) : m.u.icache.Clean := by
  intro s w hv
  rcases h.icache s w with hl | hl
  · rw [hl] at hv ⊢
    exact hc s w hv
  · rw [hl] at hv
    cases hv

theorem cacheOps (h : Coherent x m₀ plain m) {opc2 crm : Nat} (value : ARMword)
    (hf : Fits x m₀ (.cacheOps opc2 crm value)) : Coherent x m₀ plain (cacheOps m opc2 crm value) := by
  have hw : dcacheDesc.width = 32 := rfl
  have hclean (c : Cache dcacheDesc) (ram : Ram) (hc : c.Ok) :
      Cache.MovesTo (c, ram) (c.clean value ram) := (Cache.lineOp_writeBack hw).onSearch hc value ram
  have hinv (c : Cache dcacheDesc) (ram : Ram) (hc : c.Ok) :
      Cache.MovesTo (c, ram) (c.invalidate value ram) :=
    (Cache.lineOp_invalidate hw).onSearch hc value ram
  have hcleanIdx (c : Cache dcacheDesc) (ram : Ram) (hc : c.Ok) :
      Cache.MovesTo (c, ram) (c.cleanByIndex value ram) :=
    (Cache.lineOp_writeBack hw).onIndex hc value ram
  have hinvIdx (c : Cache dcacheDesc) (ram : Ram) (hc : c.Ok) :
      Cache.MovesTo (c, ram) (c.invalidateByIndex value ram) :=
    (Cache.lineOp_invalidate hw).onIndex hc value ram
  have hall (c : Cache dcacheDesc) (ram : Ram) (hc : c.Ok) :
      Cache.MovesTo (c, ram) (c.invalidateAll ram) := Cache.movesTo_invalidateAll hw hc ram
  unfold Arm920t.cacheOps
  split
  · exact (h.onIcache ((h.icache_clean (hf (.inr rfl))).invalidateAll rfl _)).onDcache hall
  · exact h.onIcache ((h.icache_clean (hf (.inl rfl))).invalidateAll rfl _)
  · exact h.onIcache ((h.icache_clean (hf (.inl rfl))).invalidate rfl value _)
  · exact h.onDcache hall
  · exact h.onDcache hinv
  · exact h.onDcache hclean
  · exact (h.onDcache hclean).onDcache hinv
  · exact h.onDcache hcleanIdx
  · exact (h.onDcache hcleanIdx).onDcache hinvIdx
  · exact h.drainWb
  · exact h

/-! ## Steps -/

theorem enabled (h : Coherent x m₀ plain m) (hs : Start x m₀) : m.mmuEnabled = true := by
  rw [MmuState.mmuEnabled, h.ctl]
  exact hs.enabled

theorem wbEnabled (h : Coherent x m₀ plain m) (hs : Start x m₀) : m.wbEnabled = true := by
  obtain ⟨v, hv⟩ := hs.control
  have hbit : controlValue v &&& CONTROL_WRITE_BUFFER = CONTROL_WRITE_BUFFER := by
    have hv' : v ||| 0x78 = v ||| 0x70 ||| CONTROL_WRITE_BUFFER := by
      rw [BitVec.or_assoc]
      rfl
    rw [controlValue, BitVec.and_assoc, hv']
    exact Word.or_and_right _ _
  rw [MmuState.wbEnabled, h.ctl, MmuState.ctl, hv, hbit]
  rfl

theorem read (h : Coherent x m₀ plain m) (hs : Start x m₀) {va : ARMword} {datatype : DataType}
    (hp : Permitted x m₀ cpu (m₀.pidVaMap va) datatype true) (old : ARMword) :
    Coherent x m₀ plain (Arm920t.read cpu m old va datatype).2 ∧
      (m₀.misaligned (m₀.pidVaMap va) datatype = false →
        inFlushWindow (Ram.addr (Ram.index (m₀.pidVaMap va))) = false →
        (Arm920t.read cpu m old va datatype).1 = .ok (plain.busRead datatype (m₀.pidVaMap va))) := by
  rw [Arm920t.read, SplitMmu.read]
  simp only [h.enabled hs, h.pidVaMap, h.misaligned, ← Ram.addr_index, Bool.not_true,
    Bool.false_eq_true, if_false]
  cases ha : m₀.misaligned (m₀.pidVaMap va) datatype with
  | true => exact ⟨h, fun hf => absurd hf (by decide)⟩
  | false =>
    obtain ⟨e, hw, hid, hc⟩ := hp.mapped ha
    have ht := h.translated hs.replicated hp.isXScale (Ram.addr (Ram.index (m₀.pidVaMap va)))
    have hl := ht.load hs.replicated hp.bigend hw hid old datatype
    rw [show m.authorise cpu (side.dtlb m.u) _ true = _ from h.authorise hp.isXScale hw hc]
    exact ⟨hl.1, fun _ => hl.2⟩

theorem write (h : Coherent x m₀ plain m) (hs : Start x m₀) {va data : ARMword}
    {datatype : DataType} (hf : Fits x m₀ (.write cpu va datatype data)) :
    Coherent x m₀ (plainStep m₀ plain (.write cpu va datatype data))
      (Arm920t.write cpu m va datatype data).2 := by
  obtain ⟨hp, htab, hmiss⟩ := hf
  have hi : side.updateIcache cpu m (m₀.pidVaMap va) datatype data = m.u.icache := by
    have hm : m.u.icache.search (m₀.pidVaMap va) = none := by
      refine Cache.search_eq_none.mpr fun w => ?_
      rcases h.icache (icacheDesc.vaCacheSet (m₀.pidVaMap va)) w with hl | hl
      · rw [hl]
        exact Cache.search_eq_none.mp hmiss w
      · rw [CacheLine.hit, hl]
        rfl
    rw [SplitMmu.updateIcache]
    simp only [show (side.icache m.u).search _ = none from hm]
    rfl
  have hu : side.setIcache m.u m.u.icache = m.u := rfl
  rw [Arm920t.write, SplitMmu.write]
  simp only [h.pidVaMap, hi, hu, h.enabled hs, h.misaligned, ← Ram.addr_index, Bool.not_true,
    Bool.false_eq_true, if_false, plainStep]
  cases ha : m₀.misaligned (m₀.pidVaMap va) datatype with
  | true => exact h
  | false =>
    obtain ⟨e, hw, hid, hc⟩ := hp.mapped ha
    have ht := h.translated hs.replicated hp.isXScale (Ram.addr (Ram.index (m₀.pidVaMap va)))
    rw [show m.authorise cpu (side.dtlb m.u) _ false = _ from h.authorise hp.isXScale hw hc]
    exact ht.store hp.bigend (ht.wbEnabled hs) htab hw hid datatype data

theorem step (h : Coherent x m₀ plain m) (hs : Start x m₀) {op : Op} (hf : Fits x m₀ op) :
    Coherent x m₀ (plainStep m₀ plain op) (Arm920t.step m op) := by
  cases op with
  | read cpu old va datatype => exact (h.read hs hf old).1
  | write cpu va datatype data => exact h.write hs hf
  | cacheOps opc2 crm value => exact h.cacheOps value hf

theorem run (h : Coherent x m₀ plain m) (hs : Start x m₀) {ops : List Op}
    (hf : ∀ op ∈ ops, Fits x m₀ op) :
    Coherent x m₀ (ops.foldl (plainStep m₀) plain) (Arm920t.run m ops) := by
  induction ops generalizing plain m with
  | nil => exact h
  | cons op ops ih =>
    exact ih (h.step hs (hf op List.mem_cons_self)) fun o ho => hf o (List.mem_cons_of_mem _ ho)

end Coherent

/-! ## Results -/

section Results

variable {x : Bool} {m₀ : MmuState Arm920t}

/-- The bytes an operation stores, with their addresses. -/
def storedBytes (m₀ : MmuState Arm920t) : Op → List (ARMword × BitVec 8)
  | .write _ va datatype data =>
    let a := m₀.pidVaMap va
    if m₀.misaligned a datatype then []
    else Ram.bytesAt (laneAddr datatype (Ram.addr (Ram.index a)) a) (hostBytes datatype data)
  | _ => []

theorem byte_plainStep (m₀ : MmuState Arm920t) {plain : Ram} (he : plain.bigEndian = false) (op : Op) :
    (plainStep m₀ plain op).bigEndian = false ∧
      (plainStep m₀ plain op).byte = StoreView.replay plain.byte (storedBytes m₀ op) := by
  cases op with
  | read => exact ⟨he, rfl⟩
  | cacheOps => exact ⟨he, rfl⟩
  | write cpu va datatype data =>
    simp only [plainStep, storedBytes]
    cases m₀.misaligned (m₀.pidVaMap va) datatype with
    | true => exact ⟨he, rfl⟩
    | false =>
      obtain ⟨hi, hl, ha⟩ := laneAddr_spec datatype (m₀.pidVaMap va)
      refine ⟨he, ?_⟩
      rw [if_neg Bool.false_ne_true, if_neg Bool.false_ne_true, ← Ram.byte_busWriteBytes he,
        Ram.busWriteBytes_hostBytes he datatype ha]
      exact congrArg Ram.byte (Ram.busWrite_congr hi (by rw [he]; exact hl) data).symm

/-- A plain memory after a run holds in every byte what was last stored there. -/
theorem byte_plainRun (m₀ : MmuState Arm920t) {plain : Ram} (he : plain.bigEndian = false)
    (ops : List Op) :
    (ops.foldl (plainStep m₀) plain).bigEndian = false ∧
      (ops.foldl (plainStep m₀) plain).byte =
        StoreView.replay plain.byte (ops.flatMap (storedBytes m₀)) := by
  induction ops generalizing plain with
  | nil => exact ⟨he, rfl⟩
  | cons op ops ih =>
    obtain ⟨he', hb⟩ := byte_plainStep m₀ he op
    obtain ⟨he'', hb'⟩ := ih he'
    refine ⟨he'', ?_⟩
    rw [List.flatMap_cons, StoreView.replay_append, ← hb]
    exact hb'

/-- After any run, a read outside the flush window returns what it would read from a plain
memory with the same history, and so in every byte the last value stored there, or the one
memory held at the start. -/
theorem read_last_write (hs : Start x m₀) {ops : List Op} (hf : ∀ op ∈ ops, Fits x m₀ op)
    {cpu : Cpu} {va : ARMword} {datatype : DataType}
    (hp : Permitted x m₀ cpu (m₀.pidVaMap va) datatype true)
    (ha : m₀.misaligned (m₀.pidVaMap va) datatype = false)
    (hwin : inFlushWindow (Ram.addr (Ram.index (m₀.pidVaMap va))) = false) (old : ARMword) :
    ∃ data, (read cpu (run m₀ ops) old va datatype).1 = .ok data ∧
      data = (ops.foldl (plainStep m₀) m₀.ram).busRead datatype (m₀.pidVaMap va) ∧
      ∀ k < datatype.bits / 8,
        let b := laneAddr datatype (Ram.addr (Ram.index (m₀.pidVaMap va))) (m₀.pidVaMap va) +
          BitVec.ofNat 32 k
        (data >>> (8 * k)).setWidth 8 =
          StoreView.lastWrite (fun w => w.1 = b) Prod.snd (m₀.ram.byte b)
            (ops.flatMap (storedBytes m₀)) := by
  refine ⟨_, ((hs.coherent.run hs hf).read hs hp old).2 ha hwin, rfl, fun k hk => ?_⟩
  obtain ⟨hi, hl, hal⟩ := laneAddr_spec datatype (m₀.pidVaMap va)
  obtain ⟨he, hb⟩ := byte_plainRun m₀ hs.littleEndian ops
  have hread := Ram.byte_busRead he datatype hal hk
  rw [Ram.busRead_congr hi (by rw [he]; exact hl), hb, StoreView.replay_apply] at hread
  exact hread

end Results

/-! ## An identity mapping -/

/-- Memory of which every word, and so every word of a table at 0x4000, maps a megabyte onto
itself as a cacheable and bufferable section that anybody may write. -/
def sectionRam : Ram := ⟨fun i => (i.setWidth 32 <<< 20) ||| 0xC1E, false⟩

def sectionStart : MmuState Arm920t :=
  mcr (mcr (mcr (init sectionRam) true 2 0 0 0x4000) true 3 0 0 1) true 1 0 0 0x5

theorem sectionStart_l1desc (va : ARMword) : sectionStart.l1desc va &&& 3 = 2 := by
  have hw : sectionStart.l1desc va = (Ram.index (sectionStart.l1addr va)).setWidth 32 <<< 20 ||| 0xC1E :=
    readLane_word _ _ _
  rw [hw, BitVec.and_or_distrib_right]
  have hz : (Ram.index (sectionStart.l1addr va)).setWidth 32 <<< 20 &&& 3 = 0#32 := by
    apply BitVec.eq_of_toNat_eq
    refine (Word.toNat_and_low _ 2 (by omega)).trans ?_
    rw [BitVec.toNat_shiftLeft, Nat.shiftLeft_eq]
    have h0 : (0#32).toNat = 0 := rfl
    omega
  rw [hz]
  rfl

theorem sectionStart_pointsToTable (va : ARMword) : ¬ sectionStart.PointsToTable va := by
  rw [MmuState.PointsToTable, sectionStart_l1desc]
  decide

theorem sectionStart_tableWord {i : BitVec 30} (h : TableWord sectionStart i) :
    i.getLsbD 12 = true := by
  obtain ⟨va, rfl | ⟨ht, -⟩⟩ := h
  · have hb : sectionStart.translationTableBase = 0x4000 := rfl
    rw [Ram.index, BitVec.getLsbD_extractLsb', MmuState.l1addr, hb, BitVec.getLsbD_and,
      BitVec.getLsbD_or]
    have h14 : ((0x4000 : ARMword) &&& 0xFFFFC000).getLsbD (2 + 12) = true := by decide
    have hn : (~~~(3 : ARMword)).getLsbD (2 + 12) = true := by decide
    rw [h14, hn]
    rfl
  · exact absurd ht (sectionStart_pointsToTable va)

theorem start_sectionStart : Start false sectionStart where
  enabled := by decide
  control := ⟨0x5, rfl⟩
  littleEndian := rfl
  replicated := ⟨fun va _ _ ht => absurd ht (sectionStart_pointsToTable va),
    fun va _ _ ht => absurd (.inr ht) (sectionStart_pointsToTable va)⟩
  tlb := by
    apply Memo.sound_of_not_hit
    intro e he va
    rw [List.eq_of_mem_replicate he]
    rfl
  dcache s w := bne_eq_false_iff_eq.mpr BitVec.zero_and
  wb := rfl

def svcCpu : Cpu := ⟨SVC32MODE, false, false⟩

theorem permitted_low (datatype : DataType) {a : ARMword}
    (ha : Ram.addr (Ram.index a) = 0x100) (read : Bool) :
    Permitted false sectionStart svcCpu a datatype read where
  bigend := rfl
  isXScale := rfl
  mapped _ := by
    refine ⟨⟨0, 0, 0xC0C, 0, .sect⟩, ?_⟩
    rw [ha]
    exact ⟨rfl, rfl, by cases read <;> rfl⟩

/-- A byte is stored, read as part of its word, cleaned out of the cache and drained, and read
again. -/
theorem read_last_write_section :
    let ops : List Op := [.write svcCpu 0x101 .byte 0x5A, .read svcCpu 0 0x100 .word,
      .write svcCpu 0x102 .byte 0xA5, .cacheOps 1 14 0x100, .cacheOps 4 10 0]
    ∃ data, (read svcCpu (run sectionStart ops) 0 0x100 .word).1 = .ok data ∧
      data = (ops.foldl (plainStep sectionStart) sectionStart.ram).busRead .word 0x100 ∧
      ∀ k < 4, (data >>> (8 * k)).setWidth 8 =
        StoreView.lastWrite (fun w => w.1 = 0x100 + BitVec.ofNat 32 k) Prod.snd
          (sectionStart.ram.byte (0x100 + BitVec.ofNat 32 k))
          (ops.flatMap (storedBytes sectionStart)) := by
  intro ops
  have hnot {a : ARMword} (ha : (Ram.index a).getLsbD 12 = false) :
      ¬ TableWord sectionStart (Ram.index a) := fun h =>
    Bool.noConfusion (ha.symm.trans (sectionStart_tableWord h))
  refine read_last_write start_sectionStart (fun op ho => ?_)
    (permitted_low .word (by decide) true) (by decide) (by decide) 0
  simp only [ops, List.mem_cons, List.not_mem_nil, or_false] at ho
  rcases ho with rfl | rfl | rfl | rfl | rfl
  · exact ⟨permitted_low .byte (by decide) false, hnot (by decide), by decide +kernel⟩
  · exact permitted_low .word (by decide) true
  · exact ⟨permitted_low .byte (by decide) false, hnot (by decide), by decide +kernel⟩
  · intro h
    simp at h
  · intro h
    simp at h

/-- In the flush window a permitted read leaves the caller's datum as it was, whatever memory
holds there. -/
theorem read_flush_window :
    Start false sectionStart ∧ Permitted false sectionStart svcCpu 0xe0000000 .word true ∧
      (read svcCpu sectionStart 0xDEAD 0xe0000000 .word).1.toOption = some 0xDEAD ∧
      sectionStart.ram.busRead .word 0xe0000000 ≠ 0xDEAD := by
  refine ⟨start_sectionStart, ⟨rfl, rfl, fun _ => ?_⟩, by decide +kernel, by decide +kernel⟩
  exact ⟨⟨0xe0000000, 0xe0000000, 0xC0C, 0, .sect⟩, rfl, rfl, rfl⟩

end SkyEye.Arm920t
