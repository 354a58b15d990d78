import SkyEye.Mmu.Tlb
import SkyEye.Mmu.Cache
import SkyEye.Mmu.Wb

/-!
# MMUs with split caches

`sa_mmu.c`, `arm920t_mmu.c` and `arm926ejs_mmu.c` share the text of their fetch, read
and write functions up to the caches and tables these use. `SplitMmu` names where a
model keeps its instruction cache and its TLBs, `DataSide` where it keeps the only data
cache and the write buffer if it has one of each; the functions take what differs as
arguments.
-/

namespace SkyEye

structure SplitMmu (U : Type) where
  icacheDesc : CacheDesc
  icache : U → Cache icacheDesc
  setIcache : U → Cache icacheDesc → U
  itlb : U → Tlb
  setItlb : U → Tlb → U
  dtlb : U → Tlb
  setDtlb : U → Tlb → U

/-- The physical address of a datum of a word: `pa | (real_va & 3)` and the like. -/
def laneAddr (datatype : DataType) (pa realVa : ARMword) : ARMword :=
  match datatype with
  | .word => pa
  | .halfword => pa ||| (realVa &&& 2)
  | .byte => pa ||| (realVa &&& 3)

/-- The lane address of a datum of the word at `a`: aligned, in that word and in the lane of `a`. -/
theorem laneAddr_spec (datatype : DataType) (a : ARMword) :
    let a' := laneAddr datatype (Ram.addr (Ram.index a)) a
    Ram.index a' = Ram.index a ∧ laneOffset false datatype a' = laneOffset false datatype a ∧
      a'.toNat % (datatype.bits / 8) = 0 := by
  have h4 : (Ram.addr (Ram.index a)).toNat = a.toNat / 4 * 4 := by
    rw [Ram.toNat_addr, Ram.toNat_index]
    omega
  have hnat : (laneAddr datatype (Ram.addr (Ram.index a)) a).toNat =
      a.toNat / (datatype.bits / 8) * (datatype.bits / 8) := by
    cases datatype with
    | word => exact h4
    | halfword =>
      have hm : (~~~3 ||| 2 : ARMword) = BitVec.allOnes 32 <<< 1 := rfl
      simp only [laneAddr, Ram.addr_index]
      rw [← BitVec.and_or_distrib_left, hm, Word.toNat_and_high, Nat.pow_one]
      rfl
    | byte =>
      have hm : (~~~3 ||| 3 : ARMword) = BitVec.allOnes 32 := rfl
      simp only [laneAddr, Ram.addr_index]
      rw [← BitVec.and_or_distrib_left, hm, BitVec.and_allOnes]
      exact ((Nat.mul_one _).trans (Nat.div_one _)).symm
  refine ⟨?_, ?_, ?_⟩
  · apply BitVec.eq_of_toNat_eq
    rw [Ram.toNat_index, Ram.toNat_index, hnat]
    cases datatype <;> simp only [DataType.bits] <;> omega
  · rw [laneOffset_false, laneOffset_false]
    cases datatype with
    | word => simp only
    | byte | halfword =>
      simp only [hnat, DataType.bits]
      omega
  · rw [hnat]
    cases datatype <;> simp only [DataType.bits] <;> omega

namespace SplitMmu

variable {U : Type} (p : SplitMmu U) (cpu : Cpu) (mmu : MmuState U)

/-- The state after `translate` has recorded the domain and filled the data TLB. -/
def translated (va : ARMword) : MmuState U :=
  let t := mmu.translate cpu.isXScale (p.dtlb mmu.u) va
  { mmu with lastDomain := t.lastDomain, u := p.setDtlb mmu.u t.tlb }

/-- The state after `translate` has filled the instruction TLB. -/
def fetchTranslated (va : ARMword) : MmuState U :=
  let t := mmu.translate cpu.isXScale (p.itlb mmu.u) va
  { mmu with lastDomain := t.lastDomain, u := p.setItlb mmu.u t.tlb }

/-- The end of an instruction fetch: from the cache, else from memory, into the cache if the
page is cacheable. -/
def fetch (c : Bool) (va pa : ARMword) : ARMword × MmuState U :=
  let cache := p.icache mmu.u
  let index := p.icacheDesc.vaCacheIndex va
  match cache.searchLine va with
  | some l => (l.data index, mmu)
  | none =>
    if c then
      let (cache, ram, w) := cache.alloc va pa mmu.ram
      let l := cache.line (p.icacheDesc.vaCacheSet (p.icacheDesc.vaCacheAlign va)) w
      (l.data index, { mmu with ram := ram, u := p.setIcache mmu.u cache })
    else (mmu.ram.busRead .word pa, mmu)

/-- `arm920t_mmu_load_instr` and its siblings -/
def loadInstr (va : ARMword) : Except Fault ARMword × MmuState U :=
  let va := mmu.pidVaMap va
  if mmu.mmuEnabled then
    if va &&& 3 != 0 && mmu.mmuAligned then (.error .alignment, mmu)
    else
      let va := va &&& ~~~3
      let t := p.fetchTranslated cpu mmu va
      match mmu.authorise cpu (p.itlb mmu.u) va true with
      | .error f => (.error f, t)
      | .ok e =>
        let (instr, mmu) := p.fetch t e.cFlag va (e.vaToPa va)
        (.ok instr, mmu)
  else
    let (instr, mmu) := p.fetch mmu true va va
    (.ok instr, mmu)

/-- `arm920t_mmu_read` and its siblings; `load` is the read once it is permitted. -/
def read (load : MmuState U → TlbEntry → ARMword → ARMword → Except Fault ARMword × MmuState U)
    (va : ARMword) (datatype : DataType) : Except Fault ARMword × MmuState U :=
  let va := mmu.pidVaMap va
  let realVa := va
  if !mmu.mmuEnabled then (.ok (mmu.ram.busRead datatype va), mmu)
  else if mmu.misaligned va datatype then (.error .alignment, mmu)
  else
    let va := va &&& ~~~3
    let t := p.translated cpu mmu va
    match mmu.authorise cpu (p.dtlb mmu.u) va true with
    | .error f => (.error f, t)
    | .ok e => load t e va realVa

/-- The instruction cache after a store: a line of the address follows and becomes dirty. -/
def updateIcache (va : ARMword) (datatype : DataType) (data : ARMword) : Cache p.icacheDesc :=
  let c := p.icache mmu.u
  let s := p.icacheDesc.vaCacheSet va
  match c.search va with
  | some w => c.setLine s w ((c.line s w).update p.icacheDesc cpu.bigend datatype va va data)
  | none => c

/-- `arm920t_mmu_write` and its siblings: the fault, or none, and the state; `store` is the
write once it is permitted. -/
def write (store : MmuState U → TlbEntry → ARMword → ARMword → MmuState U)
    (va : ARMword) (datatype : DataType) (data : ARMword) : Option Fault × MmuState U :=
  let va := mmu.pidVaMap va
  let realVa := va
  let mmu := { mmu with u := p.setIcache mmu.u (p.updateIcache cpu mmu va datatype data) }
  if !mmu.mmuEnabled then (none, { mmu with ram := mmu.ram.busWrite datatype va data })
  else if mmu.misaligned va datatype then (some .alignment, mmu)
  else
    let va := va &&& ~~~3
    let t := p.translated cpu mmu va
    match mmu.authorise cpu (p.dtlb mmu.u) va false with
    | .error f => (some f, t)
    | .ok e => (none, store t e va realVa)

end SplitMmu

/-- A store that no data cache takes: into the write buffer if the page is bufferable. A byte
for a bufferable page goes over a bus of width `byteType` while the buffer is off. -/
def storeMiss {d : WbDesc} (byteType : DataType) (wbEnabled b : Bool) (wb : Wb d) (ram : Ram)
    (datatype : DataType) (pa realVa data : ARMword) : Wb d × Ram :=
  let addr := laneAddr datatype pa realVa
  if b then
    if wbEnabled then wb.writeBytes ram addr (hostBytes datatype data)
    else (wb, ram.busWrite (if datatype = .byte then byteType else datatype) addr data)
  else
    let (wb, ram) := wb.drainAll ram
    (wb, ram.busWrite datatype addr data)

/-- The window of addresses whose reads flush a cache line. -/
def inFlushWindow (pa : ARMword) : Bool := 0xe0000000 ≤ pa && pa < 0xe8000000

/-- A model with one data cache and one write buffer. -/
structure DataSide (U : Type) extends SplitMmu U where
  dcacheDesc : CacheDesc
  dcache : U → Cache dcacheDesc
  setDcache : U → Cache dcacheDesc → U
  wbDesc : WbDesc
  wb : U → Wb wbDesc
  setWb : U → Wb wbDesc → U
  byteType : DataType

namespace DataSide

variable {U : Type} (p : DataSide U) (cpu : Cpu) (mmu : MmuState U)

/-- `mmu_wb_drain_all` of the model's buffer -/
def drainWb : MmuState U :=
  let (wb, ram) := (p.wb mmu.u).drainAll mmu.ram
  { mmu with ram := ram, u := p.setWb mmu.u wb }

/-- A data cache and a memory to go on with. -/
def withDcache (cr : Cache p.dcacheDesc × Ram) : MmuState U :=
  { mmu with ram := cr.2, u := p.setDcache mmu.u cr.1 }

/-- A permitted read that misses the cache. -/
def loadMiss (old : ARMword) (datatype : DataType) (e : TlbEntry) (va realVa : ARMword) :
    ARMword × MmuState U :=
  let pa := e.vaToPa va
  if inFlushWindow pa then
    (old, if e.cFlag then p.withDcache mmu ((p.dcache mmu.u).softFlush pa mmu.ram) else mmu)
  else
    let mmu := if e.bFlag then p.drainWb mmu else mmu
    if e.cFlag && mmu.dcacheEnabled then
      let (c, ram, w) := (p.dcache mmu.u).alloc va pa mmu.ram
      let l := c.line (p.dcacheDesc.vaCacheSet (p.dcacheDesc.vaCacheAlign va)) w
      (readLane cpu.bigend datatype realVa (l.data (p.dcacheDesc.vaCacheIndex va)),
        p.withDcache mmu (c, ram))
    else (mmu.ram.busRead datatype (laneAddr datatype pa realVa), mmu)

/-- A permitted read; a read of the flush window leaves the caller's datum as it was. -/
def load (old : ARMword) (datatype : DataType) (e : TlbEntry) (va realVa : ARMword) :
    Except Fault ARMword × MmuState U :=
  match (p.dcache mmu.u).searchLine va with
  | some l =>
    (.ok (readLane cpu.bigend datatype realVa (l.data (p.dcacheDesc.vaCacheIndex va))), mmu)
  | none =>
    let (data, mmu) := p.loadMiss cpu mmu old datatype e va realVa
    (.ok data, mmu)

/-- A permitted write. -/
def store (datatype : DataType) (data : ARMword) (e : TlbEntry) (va realVa : ARMword) :
    MmuState U :=
  let c := p.dcache mmu.u
  let s := p.dcacheDesc.vaCacheSet va
  match c.search va with
  | some w =>
    let l := (c.line s w).update p.dcacheDesc cpu.bigend datatype va realVa data
    p.withDcache mmu (c.setLine s w l, mmu.ram)
  | none =>
    let (wb, ram) := storeMiss p.byteType mmu.wbEnabled e.bFlag (p.wb mmu.u) mmu.ram datatype
      (e.vaToPa va) realVa data
    { mmu with ram := ram, u := p.setWb mmu.u wb }

end DataSide

end SkyEye
