import SkyEye.Mmu.Split

/-!
# The StrongARM MMU

`sa_mmu.c`: a main data cache for bufferable pages and a mini data cache for the other
cacheable ones, and a read buffer that software fills (`rb.c`) in front of both.
-/

namespace SkyEye

/-! ## The read buffer -/

inductive RbType where
  | invalid
  | rb1
  | rb4
  | rb8
  deriving DecidableEq, Repr

/-- `rb_masks`: bytes of an entry. -/
def RbType.bytes : RbType → ARMword
  | invalid => 0
  | rb1 => 4
  | rb4 => 16
  | rb8 => 32

/-- `rb_entry_t` -/
structure RbEntry where
  data : Nat → ARMword
  va : ARMword
  type : RbType
  fault : Option Fault

namespace RbEntry

/-- The test of `mmu_rb_search`. -/
def hit (rb : RbEntry) (va : ARMword) : Bool :=
  rb.type != .invalid && rb.va ≤ va && va < rb.va + rb.type.bytes

/-- `(va & (rb_masks[rb->type] - 1)) >> WORD_SHT` -/
def index (rb : RbEntry) (va : ARMword) : Nat := ((va &&& (rb.type.bytes - 1)) >>> 2).toNat

end RbEntry

/-- `mmu_rb_search` -/
def rbSearch (rb : List RbEntry) (va : ARMword) : Option RbEntry := rb.find? (·.hit va)

/-! ## The model -/

namespace Sa

/-- `sa11xx_mmu_desc` -/
def icacheDesc : CacheDesc := ⟨32, 32, 16, .writeBack, Sizes.pos_thirtyTwo, Sizes.pos_sixteen⟩
def mainDcacheDesc : CacheDesc := ⟨32, 32, 8, .writeBack, Sizes.pos_thirtyTwo, Sizes.pos_eight⟩
def miniDcacheDesc : CacheDesc := ⟨32, 2, 8, .writeBack, Sizes.pos_two, Sizes.pos_eight⟩
def wbDesc : WbDesc := ⟨8, 16, Sizes.pos_eight, Sizes.pos_sixteen⟩

end Sa

/-- `sa_mmu_t` -/
structure Sa where
  itlb : Tlb
  icache : Cache Sa.icacheDesc
  dtlb : Tlb
  mainDcache : Cache Sa.mainDcacheDesc
  miniDcache : Cache Sa.miniDcacheDesc
  rb : List RbEntry
  wb : Wb Sa.wbDesc

namespace Sa

/-- Where the model keeps its instruction cache and its TLBs. -/
def side : SplitMmu Sa where
  icacheDesc := icacheDesc
  icache := icache
  setIcache u c := { u with icache := c }
  itlb := itlb
  setItlb u t := { u with itlb := t }
  dtlb := dtlb
  setDtlb u t := { u with dtlb := t }

variable (cpu : Cpu) (mmu : MmuState Sa)

def drainWb : MmuState Sa :=
  let (wb, ram) := mmu.u.wb.drainAll mmu.ram
  { mmu with ram := ram, u := { mmu.u with wb := wb } }

def withMain (cr : Cache mainDcacheDesc × Ram) : MmuState Sa :=
  { mmu with ram := cr.2, u := { mmu.u with mainDcache := cr.1 } }

def withMini (cr : Cache miniDcacheDesc × Ram) : MmuState Sa :=
  { mmu with ram := cr.2, u := { mmu.u with miniDcache := cr.1 } }

/-- Fill a line of a data cache and read it. -/
def fill {d : CacheDesc} (c : Cache d) (datatype : DataType) (va pa realVa : ARMword) :
    ARMword × Cache d × Ram :=
  let (c, ram, w) := c.alloc va pa mmu.ram
  let l := c.line (d.vaCacheSet (d.vaCacheAlign va)) w
  (readLane cpu.bigend datatype realVa (l.data (d.vaCacheIndex va)), c, ram)

/-- A permitted read that misses the read buffer and both caches. -/
def loadMiss (old : ARMword) (datatype : DataType) (e : TlbEntry) (va realVa : ARMword) :
    ARMword × MmuState Sa :=
  let pa := e.vaToPa va
  if inFlushWindow pa then
    (old,
      if e.cFlag then
        if e.bFlag then withMain mmu (mmu.u.mainDcache.softFlush pa mmu.ram)
        else withMini mmu (mmu.u.miniDcache.softFlush pa mmu.ram)
      else mmu)
  else
    let mmu := if e.bFlag then drainWb mmu else mmu
    if e.cFlag && mmu.dcacheEnabled then
      if e.bFlag then
        let (data, cr) := fill cpu mmu mmu.u.mainDcache datatype va pa realVa
        (data, withMain mmu cr)
      else
        let (data, cr) := fill cpu mmu mmu.u.miniDcache datatype va pa realVa
        (data, withMini mmu cr)
    else (mmu.ram.busRead datatype (laneAddr datatype pa realVa), mmu)

/-- A permitted read: the read buffer, then the main cache, then the mini cache. -/
def load (old : ARMword) (datatype : DataType) (e : TlbEntry) (va realVa : ARMword) :
    Except Fault ARMword × MmuState Sa :=
  let lane := readLane cpu.bigend datatype realVa
  match rbSearch mmu.u.rb va with
  | some rb =>
    match rb.fault with
    | some f => (.error f, mmu)
    | none => (.ok (lane (rb.data (rb.index va))), mmu)
  | none =>
    match mmu.u.mainDcache.searchLine va, mmu.u.miniDcache.searchLine va with
    | some l, _ => (.ok (lane (l.data (mainDcacheDesc.vaCacheIndex va))), mmu)
    | none, some l => (.ok (lane (l.data (miniDcacheDesc.vaCacheIndex va))), mmu)
    | none, none =>
      let (data, mmu) := loadMiss cpu mmu old datatype e va realVa
      (.ok data, mmu)

/-- A permitted write: the main cache, else the mini cache, else past both. -/
def store (datatype : DataType) (data : ARMword) (e : TlbEntry) (va realVa : ARMword) :
    MmuState Sa :=
  let main := mmu.u.mainDcache
  let mini := mmu.u.miniDcache
  match main.search va, mini.search va with
  | some w, _ =>
    let s := mainDcacheDesc.vaCacheSet va
    let l := (main.line s w).update mainDcacheDesc cpu.bigend datatype va realVa data
    withMain mmu (main.setLine s w l, mmu.ram)
  | none, some w =>
    let s := miniDcacheDesc.vaCacheSet va
    let l := (mini.line s w).update miniDcacheDesc cpu.bigend datatype va realVa data
    withMini mmu (mini.setLine s w l, mmu.ram)
  | none, none =>
    let (wb, ram) := storeMiss .byte mmu.wbEnabled e.bFlag mmu.u.wb mmu.ram datatype
      (e.vaToPa va) realVa data
    { mmu with ram := ram, u := { mmu.u with wb := wb } }

/-- `sa_mmu_load_instr` -/
def loadInstr (va : ARMword) : Except Fault ARMword × MmuState Sa := side.loadInstr cpu mmu va

/-- `sa_mmu_read` of a datum that held `old`. -/
def read (old : ARMword) (va : ARMword) (datatype : DataType) :
    Except Fault ARMword × MmuState Sa :=
  side.read cpu mmu (fun mmu => load cpu mmu old datatype) va datatype

/-- `sa_mmu_write` -/
def write (va : ARMword) (datatype : DataType) (data : ARMword) : Option Fault × MmuState Sa :=
  side.write cpu mmu (fun mmu => store cpu mmu datatype data) va datatype data

end Sa

end SkyEye
