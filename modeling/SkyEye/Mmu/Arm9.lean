import SkyEye.Mmu.Split

/-!
# The ARM920T MMU

`arm920t_mmu.c`: instruction and data caches of 16 KB, 64 ways of 8 sets of 32-byte
lines, both write-back, a TLB for each side and a write buffer of eight entries.
-/

namespace SkyEye

namespace Arm920t

/-- `arm920t_mmu_desc` -/
def icacheDesc : CacheDesc := ⟨32, 64, 8, .writeBack, Sizes.pos_sixtyFour, Sizes.pos_eight⟩
def dcacheDesc : CacheDesc := ⟨32, 64, 8, .writeBack, Sizes.pos_sixtyFour, Sizes.pos_eight⟩
def wbDesc : WbDesc := ⟨8, 8, Sizes.pos_eight, Sizes.pos_eight⟩

end Arm920t

/-- `arm920t_mmu_t` -/
structure Arm920t where
  itlb : Tlb
  icache : Cache Arm920t.icacheDesc
  dtlb : Tlb
  dcache : Cache Arm920t.dcacheDesc
  wb : Wb Arm920t.wbDesc

namespace Arm920t

/-- Where the model keeps its parts. A byte for a bufferable page is written as a word when
the write buffer is off. -/
def side : DataSide Arm920t where
  icacheDesc := icacheDesc
  icache := icache
  setIcache u c := { u with icache := c }
  itlb := itlb
  setItlb u t := { u with itlb := t }
  dtlb := dtlb
  setDtlb u t := { u with dtlb := t }
  dcacheDesc := dcacheDesc
  dcache := dcache
  setDcache u c := { u with dcache := c }
  wbDesc := wbDesc
  wb := wb
  setWb u w := { u with wb := w }
  byteType := .word

/-- `arm920t_mmu_init` over the memory `ram`. -/
def init (ram : Ram) : MmuState Arm920t where
  control := 0x70
  translationTableBase := 0xDEADC0DE
  domainAccessControl := 0xDEADC0DE
  faultStatus := 0
  faultAddress := 0
  lastDomain := 0
  processId := 0
  ram := ram
  u :=
    { itlb := .init 64 Sizes.pos_sixtyFour
      icache := .init icacheDesc
      dtlb := .init 64 Sizes.pos_sixtyFour
      dcache := .init dcacheDesc
      wb := .init wbDesc }

variable (cpu : Cpu) (mmu : MmuState Arm920t)

/-- `arm920t_mmu_load_instr` -/
def loadInstr (va : ARMword) : Except Fault ARMword × MmuState Arm920t :=
  side.loadInstr cpu mmu va

/-- `arm920t_mmu_read` of a datum that held `old`. -/
def read (old : ARMword) (va : ARMword) (datatype : DataType) :
    Except Fault ARMword × MmuState Arm920t :=
  side.read cpu mmu (fun mmu => side.load cpu mmu old datatype) va datatype

/-- `arm920t_mmu_write` -/
def write (va : ARMword) (datatype : DataType) (data : ARMword) :
    Option Fault × MmuState Arm920t :=
  side.write cpu mmu (fun mmu => side.store cpu mmu datatype data) va datatype data

/-! ## Coprocessor writes -/

/-- Apply an operation that may write lines back to the data cache. -/
def onDcache (f : Cache dcacheDesc → Ram → Cache dcacheDesc × Ram) : MmuState Arm920t :=
  side.withDcache mmu (f mmu.u.dcache mmu.ram)

/-- Apply an operation that may write lines back to the instruction cache. -/
def onIcache (f : Cache icacheDesc → Ram → Cache icacheDesc × Ram) : MmuState Arm920t :=
  let (c, ram) := f mmu.u.icache mmu.ram
  { mmu with ram := ram, u := { mmu.u with icache := c } }

/-- `arm920t_mmu_cache_ops` -/
def cacheOps (opc2 crm : Nat) (value : ARMword) : MmuState Arm920t :=
  match opc2, crm with
  | 0, 7 => onDcache (onIcache mmu Cache.invalidateAll) Cache.invalidateAll
  | 0, 5 => onIcache mmu Cache.invalidateAll
  | 1, 5 => onIcache mmu (Cache.invalidate · value)
  | 0, 6 => onDcache mmu Cache.invalidateAll
  | 1, 6 => onDcache mmu (Cache.invalidate · value)
  | 1, 10 => onDcache mmu (Cache.clean · value)
  | 1, 14 => onDcache (onDcache mmu (Cache.clean · value)) (Cache.invalidate · value)
  | 2, 10 => onDcache mmu (Cache.cleanByIndex · value)
  | 2, 14 => onDcache (onDcache mmu (Cache.cleanByIndex · value)) (Cache.invalidateByIndex · value)
  | 4, 10 => side.drainWb mmu
  | _, _ => mmu

/-- `arm920t_mmu_tlb_ops` -/
def tlbOps (opc2 crm : Nat) (value : ARMword) : MmuState Arm920t :=
  let u := mmu.u
  match opc2, crm with
  | 0, 7 => { mmu with u := { u with itlb := u.itlb.invalidateAll, dtlb := u.dtlb.invalidateAll } }
  | 0, 5 => { mmu with u := { u with itlb := u.itlb.invalidateAll } }
  | 1, 5 => { mmu with u := { u with itlb := u.itlb.invalidateEntry value } }
  | 0, 6 => { mmu with u := { u with dtlb := u.dtlb.invalidateAll } }
  | 1, 6 => { mmu with u := { u with dtlb := u.dtlb.invalidateEntry value } }
  | _, _ => mmu

/-- What a write of the control register leaves there. -/
def controlValue (value : ARMword) : ARMword := (value ||| 0x78) &&& 0xFFFFF3FF

/-- `arm920t_mmu_mcr`; only an ARMv4 core has these registers. -/
def mcr (armv4 : Bool) (creg opc2 crm : Nat) (value : ARMword) : MmuState Arm920t :=
  if armv4 then
    match creg with
    | 1 => { mmu with control := controlValue value }
    | 2 => { mmu with translationTableBase := value &&& 0xFFFFC000 }
    | 3 => { mmu with domainAccessControl := value }
    | 5 => if opc2 = 0 then { mmu with faultStatus := value &&& 0xFF } else mmu
    | 6 => { mmu with faultAddress := value }
    | 7 => cacheOps mmu opc2 crm value
    | 8 => tlbOps mmu opc2 crm value
    | 13 => { mmu with processId := value &&& 0xfe000000 }
    | _ => mmu
  else mmu

end Arm920t

end SkyEye

/-!
## The ARM926EJ-S MMU

`arm926ejs_mmu.c`: an instruction cache of 8 KB and a data cache of 4 KB, four ways
each, a write buffer, and one main TLB for both sides. The lockdown TLB is initialised
and never asked.
-/

namespace SkyEye

namespace Arm926ejs

/-- `arm926ejs_mmu_desc` -/
def icacheDesc : CacheDesc := ⟨32, 4, 64, .writeBack, Sizes.pos_four, Sizes.pos_sixtyFour⟩
def dcacheDesc : CacheDesc := ⟨32, 4, 32, .writeBack, Sizes.pos_four, Sizes.pos_thirtyTwo⟩
def wbDesc : WbDesc := ⟨8, 8, Sizes.pos_eight, Sizes.pos_eight⟩

end Arm926ejs

/-- `arm926ejs_mmu_t` -/
structure Arm926ejs where
  mainTlb : Tlb
  icache : Cache Arm926ejs.icacheDesc
  dcache : Cache Arm926ejs.dcacheDesc
  wb : Wb Arm926ejs.wbDesc

namespace Arm926ejs

/-- Where the model keeps its parts. -/
def side : DataSide Arm926ejs where
  icacheDesc := icacheDesc
  icache := icache
  setIcache u c := { u with icache := c }
  itlb := mainTlb
  setItlb u t := { u with mainTlb := t }
  dtlb := mainTlb
  setDtlb u t := { u with mainTlb := t }
  dcacheDesc := dcacheDesc
  dcache := dcache
  setDcache u c := { u with dcache := c }
  wbDesc := wbDesc
  wb := wb
  setWb u w := { u with wb := w }
  byteType := .byte

variable (cpu : Cpu) (mmu : MmuState Arm926ejs)

/-- `arm926ejs_mmu_load_instr` -/
def loadInstr (va : ARMword) : Except Fault ARMword × MmuState Arm926ejs :=
  side.loadInstr cpu mmu va

/-- `arm926ejs_mmu_read` of a datum that held `old`. -/
def read (old : ARMword) (va : ARMword) (datatype : DataType) :
    Except Fault ARMword × MmuState Arm926ejs :=
  side.read cpu mmu (fun mmu => side.load cpu mmu old datatype) va datatype

/-- `arm926ejs_mmu_write` -/
def write (va : ARMword) (datatype : DataType) (data : ARMword) :
    Option Fault × MmuState Arm926ejs :=
  side.write cpu mmu (fun mmu => side.store cpu mmu datatype data) va datatype data

end Arm926ejs

end SkyEye
