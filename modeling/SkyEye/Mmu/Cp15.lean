import SkyEye.Arm.Operands
import SkyEye.Mmu.Arm9
import SkyEye.Mmu.ReadBuffer

/-!
# Coprocessor 15

The `mrc` and `mcr` functions of `sa_mmu.c`, `arm920t_mmu.c`, `arm926ejs_mmu.c` and
`xscale_copro.c`. Each selects by the register number in bits 16 to 19 of the instruction
and some by `OPC_2` in bits 5 to 7; a write to the registers of the cache and TLB
operations performs one. The XScale functions leave the simulator where they do not know
the register to read or the operation: `none` here.
-/

namespace SkyEye

/-- `mmu_state_t` with the registers the translation does not consult, and `cpu_val`. -/
structure Cp15 (U : Type) extends MmuState U where
  cpuVal : ARMword
  cacheType : ARMword
  auxControl : ARMword
  coproAccess : ARMword
  tlbLockedDown : ARMword

/-- What a transfer to the processor can read. -/
structure Cp15Regs where
  cpuVal : ARMword
  cacheType : ARMword
  control : ARMword
  auxControl : ARMword
  translationTableBase : ARMword
  domainAccessControl : ARMword
  faultStatus : ARMword
  faultAddress : ARMword
  tlbLockedDown : ARMword
  processId : ARMword
  coproAccess : ARMword
  deriving DecidableEq

namespace Cp15

variable {U : Type}

def regs (s : Cp15 U) : Cp15Regs where
  cpuVal := s.cpuVal
  cacheType := s.cacheType
  control := s.control
  auxControl := s.auxControl
  translationTableBase := s.translationTableBase
  domainAccessControl := s.domainAccessControl
  faultStatus := s.faultStatus
  faultAddress := s.faultAddress
  tlbLockedDown := s.tlbLockedDown
  processId := s.processId
  coproAccess := s.coproAccess

def withMmu (s : Cp15 U) (mmu : MmuState U) : Cp15 U := { s with toMmuState := mmu }

@[simp] theorem withMmu_self (s : Cp15 U) : s.withMmu s.toMmuState = s := rfl

end Cp15

/-! ## StrongARM -/

namespace Sa

/-- `sa_mmu_mrc`. The case of register 13 reads `process_id` and has no `break`: the default
case follows and makes the datum zero. -/
def mrc (s : Cp15Regs) (creg : Nat) : ARMword :=
  match creg with
  | 0 => s.cpuVal
  | 1 => s.control
  | 2 => s.translationTableBase
  | 3 => s.domainAccessControl
  | 5 => s.faultStatus
  | 6 => s.faultAddress
  | _ => 0

variable (cpu : Cpu) (mmu : MmuState Sa)

def onIcache (f : Cache icacheDesc → Ram → Cache icacheDesc × Ram) : MmuState Sa :=
  let cr := f mmu.u.icache mmu.ram
  { mmu with ram := cr.2, u := { mmu.u with icache := cr.1 } }

/-- Apply an operation to the main data cache, then to the mini one. -/
def onDcaches (f : ∀ {d}, Cache d → Ram → Cache d × Ram) : MmuState Sa :=
  let mmu := withMain mmu (f mmu.u.mainDcache mmu.ram)
  withMini mmu (f mmu.u.miniDcache mmu.ram)

/-- `sa_mmu_cache_ops` -/
def cacheOps (opc2 crm : Nat) (value : ARMword) : MmuState Sa :=
  match opc2, crm with
  | 0, 7 => onDcaches (onIcache mmu Cache.invalidateAll) Cache.invalidateAll
  | 0, 5 => onIcache mmu Cache.invalidateAll
  | 0, 6 => onDcaches mmu Cache.invalidateAll
  | 1, 6 => onDcaches mmu (Cache.invalidate · value)
  | 1, 10 => onDcaches mmu (Cache.clean · value)
  | 4, 10 => drainWb mmu
  | _, _ => mmu

/-- `sa_mmu_tlb_ops` -/
def tlbOps (opc2 crm : Nat) (value : ARMword) : MmuState Sa :=
  let u := mmu.u
  match opc2, crm with
  | 0, 7 => { mmu with u := { u with itlb := u.itlb.invalidateAll, dtlb := u.dtlb.invalidateAll } }
  | 0, 5 => { mmu with u := { u with itlb := u.itlb.invalidateAll } }
  | 0, 6 => { mmu with u := { u with dtlb := u.dtlb.invalidateAll } }
  | 1, 6 => { mmu with u := { u with dtlb := u.dtlb.invalidateEntry value } }
  | _, _ => mmu

/-- The type of a read buffer load, `((CRm >> 2) & 0x3) + 1`, if it is one. -/
def rbLoadType (crm : Nat) : Option RbType :=
  match crm / 4 % 4 with
  | 0 => some .rb1
  | 1 => some .rb4
  | 2 => some .rb8
  | _ => none

/-- `sa_mmu_rb_ops` -/
def rbOps (opc2 crm : Nat) (value : ARMword) : MmuState Sa :=
  let i : Fin 4 := Fin.ofNat 4 crm
  match opc2 with
  | 0 => if crm = 0 then rbStep mmu .invalidateAll else mmu
  | 1 => if crm < 4 then rbStep mmu (.invalidateEntry i) else mmu
  | 2 =>
    match rbLoadType crm with
    | some type => rbStep mmu (.load cpu i type value)
    | none => mmu
  | _ => mmu

section

variable (s : Cp15 Sa)

theorem regs_onIcache (f : Cache icacheDesc → Ram → Cache icacheDesc × Ram) :
    (s.withMmu (onIcache mmu f)).regs = (s.withMmu mmu).regs := rfl

theorem regs_onDcaches (f : ∀ {d}, Cache d → Ram → Cache d × Ram) :
    (s.withMmu (onDcaches mmu f)).regs = (s.withMmu mmu).regs := rfl

theorem regs_cacheOps (opc2 crm : Nat) (value : ARMword) :
    (s.withMmu (cacheOps s.toMmuState opc2 crm value)).regs = s.regs := by
  unfold cacheOps
  split
  · exact (regs_onDcaches ..).trans (regs_onIcache ..)
  · exact regs_onIcache ..
  · exact regs_onDcaches ..
  · exact regs_onDcaches ..
  · exact regs_onDcaches ..
  · rfl
  · rfl

theorem regs_tlbOps (opc2 crm : Nat) (value : ARMword) :
    (s.withMmu (tlbOps s.toMmuState opc2 crm value)).regs = s.regs := by
  unfold tlbOps
  split <;> rfl

theorem regs_rbOps (opc2 crm : Nat) (value : ARMword) :
    (s.withMmu (rbOps cpu s.toMmuState opc2 crm value)).regs = s.regs := by
  unfold rbOps
  split
  · split <;> rfl
  · split <;> rfl
  · split <;> rfl
  · rfl

end

/-- `sa_mmu_mcr`; only an ARMv4 core has these registers. -/
def mcr (armv4 : Bool) (creg opc2 crm : Nat) (value : ARMword) : MmuState Sa :=
  if armv4 then
    match creg with
    | 1 => { mmu with control := (value ||| 0x70) &&& 0xFFFD }
    | 2 => { mmu with translationTableBase := value &&& 0xFFFFC000 }
    | 3 => { mmu with domainAccessControl := value }
    | 5 => { mmu with faultStatus := value &&& 0xFF }
    | 6 => { mmu with faultAddress := value }
    | 7 => cacheOps mmu opc2 crm value
    | 8 => tlbOps mmu opc2 crm value
    | 9 => rbOps cpu mmu opc2 crm value
    | 13 => { mmu with processId := value &&& 0x7e000000 }
    | _ => mmu
  else mmu

end Sa

/-! ## ARM920T -/

namespace Arm920t

/-- `arm920t_mmu_mrc`. Here the default case after register 13 keeps the datum. -/
def mrc (s : Cp15Regs) (creg opc2 : Nat) : ARMword :=
  match creg with
  | 0 => if opc2 = 0 then s.cpuVal else if opc2 = 1 then 0x0D172172 else 0
  | 1 => (s.control ||| 0x78) &&& 0xFFFFF3FF
  | 2 => s.translationTableBase
  | 3 => s.domainAccessControl
  | 5 => if opc2 = 0 then s.faultStatus else 0
  | 6 => s.faultAddress
  | 13 => s.processId
  | _ => 0

section

variable (s : Cp15 Arm920t) (mmu : MmuState Arm920t)

theorem regs_onIcache (f : Cache icacheDesc → Ram → Cache icacheDesc × Ram) :
    (s.withMmu (onIcache mmu f)).regs = (s.withMmu mmu).regs := rfl

theorem regs_onDcache (f : Cache dcacheDesc → Ram → Cache dcacheDesc × Ram) :
    (s.withMmu (onDcache mmu f)).regs = (s.withMmu mmu).regs := rfl

theorem regs_cacheOps (opc2 crm : Nat) (value : ARMword) :
    (s.withMmu (cacheOps s.toMmuState opc2 crm value)).regs = s.regs := by
  unfold cacheOps
  split
  · exact (regs_onDcache ..).trans (regs_onIcache ..)
  · exact regs_onIcache ..
  · exact regs_onIcache ..
  · exact regs_onDcache ..
  · exact regs_onDcache ..
  · exact regs_onDcache ..
  · exact (regs_onDcache ..).trans (regs_onDcache ..)
  · exact regs_onDcache ..
  · exact (regs_onDcache ..).trans (regs_onDcache ..)
  · rfl
  · rfl

theorem regs_tlbOps (opc2 crm : Nat) (value : ARMword) :
    (s.withMmu (tlbOps s.toMmuState opc2 crm value)).regs = s.regs := by
  unfold tlbOps
  split <;> rfl

end

end Arm920t

/-! ## ARM926EJ-S -/

namespace Arm926ejs

/-- `arm926ejs_mmu_mrc` -/
def mrc (s : Cp15Regs) (creg opc2 : Nat) : ARMword :=
  match creg with
  | 0 => if opc2 = 0 then s.cpuVal else if opc2 = 1 then 0x1D0D2112 else 0
  | 1 => (s.control ||| 0x50078) &&& 0x0005F3FF
  | 2 => s.translationTableBase &&& 0xFFFFC000
  | 3 => s.domainAccessControl
  | 5 => if opc2 = 0 then s.faultStatus &&& 0xFF else 0
  | 6 => s.faultAddress
  | 10 => s.tlbLockedDown
  | 13 => s.processId
  | _ => 0

section

variable (mmu : MmuState Arm926ejs)

def onIcache (f : Cache icacheDesc → Ram → Cache icacheDesc × Ram) : MmuState Arm926ejs :=
  let cr := f mmu.u.icache mmu.ram
  { mmu with ram := cr.2, u := { mmu.u with icache := cr.1 } }

def onDcache (f : Cache dcacheDesc → Ram → Cache dcacheDesc × Ram) : MmuState Arm926ejs :=
  side.withDcache mmu (f mmu.u.dcache mmu.ram)

/-- `arm926ejs_mmu_cache_ops` -/
def cacheOps (opc2 crm : Nat) (value : ARMword) : MmuState Arm926ejs :=
  match opc2, crm with
  | 0, 7 => onDcache (onIcache mmu Cache.invalidateAll) Cache.invalidateAll
  | 0, 5 => onIcache mmu Cache.invalidateAll
  | 1, 5 => onIcache mmu (Cache.invalidate · value)
  | 2, 5 => onIcache mmu (Cache.invalidateByIndex · value)
  | 0, 6 => onDcache mmu Cache.invalidateAll
  | 1, 6 => onDcache mmu (Cache.invalidate · value)
  | 2, 6 => onDcache mmu (Cache.invalidateByIndex · value)
  | 1, 10 => onDcache mmu (Cache.clean · value)
  | 1, 14 => onDcache (onDcache mmu (Cache.clean · value)) (Cache.invalidate · value)
  | 2, 10 => onDcache mmu (Cache.cleanByIndex · value)
  | 2, 14 => onDcache (onDcache mmu (Cache.cleanByIndex · value)) (Cache.invalidateByIndex · value)
  | 4, 10 => side.drainWb mmu
  | _, _ => mmu

/-- `arm926ejs_mmu_tlb_ops` -/
def tlbOps (opc2 crm : Nat) (value : ARMword) : MmuState Arm926ejs :=
  let u := mmu.u
  match opc2, crm with
  | 0, 5 | 0, 6 | 0, 7 => { mmu with u := { u with mainTlb := u.mainTlb.invalidateAll } }
  | 1, 5 | 1, 6 | 1, 7 => { mmu with u := { u with mainTlb := u.mainTlb.invalidateEntry value } }
  | _, _ => mmu

variable (s : Cp15 Arm926ejs)

theorem regs_onIcache (f : Cache icacheDesc → Ram → Cache icacheDesc × Ram) :
    (s.withMmu (onIcache mmu f)).regs = (s.withMmu mmu).regs := rfl

theorem regs_onDcache (f : Cache dcacheDesc → Ram → Cache dcacheDesc × Ram) :
    (s.withMmu (onDcache mmu f)).regs = (s.withMmu mmu).regs := rfl

theorem regs_cacheOps (opc2 crm : Nat) (value : ARMword) :
    (s.withMmu (cacheOps s.toMmuState opc2 crm value)).regs = s.regs := by
  unfold cacheOps
  split
  · exact (regs_onDcache ..).trans (regs_onIcache ..)
  · exact regs_onIcache ..
  · exact regs_onIcache ..
  · exact regs_onIcache ..
  · exact regs_onDcache ..
  · exact regs_onDcache ..
  · exact regs_onDcache ..
  · exact regs_onDcache ..
  · exact (regs_onDcache ..).trans (regs_onDcache ..)
  · exact regs_onDcache ..
  · exact (regs_onDcache ..).trans (regs_onDcache ..)
  · rfl
  · rfl

theorem regs_tlbOps (opc2 crm : Nat) (value : ARMword) :
    (s.withMmu (tlbOps s.toMmuState opc2 crm value)).regs = s.regs := by
  unfold tlbOps
  split <;> rfl

end

/-- `arm926ejs_mmu_mcr` -/
def mcr (s : Cp15 Arm926ejs) (creg opc2 crm : Nat) (value : ARMword) : Cp15 Arm926ejs :=
  match creg with
  | 1 => { s with control := (value ||| 0x50078) &&& 0x0005F3FF }
  | 2 => { s with translationTableBase := value &&& 0xFFFFC000 }
  | 3 => { s with domainAccessControl := value }
  | 5 => if opc2 = 0 then { s with faultStatus := value &&& 0xFF } else s
  | 6 => { s with faultAddress := value }
  | 7 => s.withMmu (cacheOps s.toMmuState opc2 crm value)
  | 8 => s.withMmu (tlbOps s.toMmuState opc2 crm value)
  | 10 => { s with tlbLockedDown := value }
  | 13 => { s with processId := value &&& 0xfe000000 }
  | _ => s

end Arm926ejs

/-! ## XScale -/

namespace Xscale

/-- `pxa_mmu_desc` -/
def icacheDesc : CacheDesc := ⟨32, 32, 32, .writeBack, Sizes.pos_thirtyTwo, Sizes.pos_thirtyTwo⟩
def mainDcacheDesc : CacheDesc := ⟨32, 32, 32, .writeBack, Sizes.pos_thirtyTwo, Sizes.pos_thirtyTwo⟩
def miniDcacheDesc : CacheDesc := ⟨32, 2, 8, .writeBack, Sizes.pos_two, Sizes.pos_eight⟩
def wbDesc : WbDesc := ⟨8, 16, Sizes.pos_eight, Sizes.pos_sixteen⟩

end Xscale

/-- The TLBs, caches and the buffer of `sa_mmu_t`, without its read buffer. -/
structure Xscale where
  itlb : Tlb
  icache : Cache Xscale.icacheDesc
  dtlb : Tlb
  mainDcache : Cache Xscale.mainDcacheDesc
  miniDcache : Cache Xscale.miniDcacheDesc
  wb : Wb Xscale.wbDesc

namespace Xscale

/-- `xscale_mmu_mrc`. The case of register 13 reads `process_id` and has no `break`: the case
of register 15 follows. -/
def mrc (s : Cp15Regs) (creg opc2 : Nat) : Option ARMword :=
  match creg with
  | 0 => some (if opc2 = 0 then s.cpuVal else s.cacheType)
  | 1 => some (if opc2 = 0 then s.control else s.auxControl)
  | 2 => some s.translationTableBase
  | 3 => some s.domainAccessControl
  | 5 => some s.faultStatus
  | 6 => some s.faultAddress
  | 13 | 15 => some s.coproAccess
  | _ => none

section

variable (mmu : MmuState Xscale)

def onIcache (f : Cache icacheDesc → Ram → Cache icacheDesc × Ram) : MmuState Xscale :=
  let cr := f mmu.u.icache mmu.ram
  { mmu with ram := cr.2, u := { mmu.u with icache := cr.1 } }

def onMain (f : Cache mainDcacheDesc → Ram → Cache mainDcacheDesc × Ram) : MmuState Xscale :=
  let cr := f mmu.u.mainDcache mmu.ram
  { mmu with ram := cr.2, u := { mmu.u with mainDcache := cr.1 } }

/-- `mmu_wb_drain_all` of the model's buffer -/
def drainWb : MmuState Xscale :=
  let (wb, ram) := mmu.u.wb.drainAll mmu.ram
  { mmu with ram := ram, u := { mmu.u with wb := wb } }

/-- `xscale_cp15_cache_ops`; the branch target buffer has no counterpart. -/
def cacheOps (opc2 crm : Nat) (value : ARMword) : Option (MmuState Xscale) :=
  match opc2, crm with
  | 0, 7 => some (onMain (onIcache mmu Cache.invalidateAll) Cache.invalidateAll)
  | 0, 5 => some (onIcache mmu Cache.invalidateAll)
  | 1, 5 => some (onIcache mmu (Cache.invalidate · value))
  | 0, 6 => some (onMain mmu Cache.invalidateAll)
  | 1, 6 => some (onMain mmu (Cache.invalidate · value))
  | 1, 10 => some (onMain mmu (Cache.clean · value))
  | 4, 10 => some (drainWb mmu)
  | 6, 5 => some mmu
  | 5, 2 => some (onMain mmu Cache.invalidateAll)
  | _, _ => none

/-- `xscale_cp15_tlb_ops` -/
def tlbOps (opc2 crm : Nat) (value : ARMword) : Option (MmuState Xscale) :=
  let u := mmu.u
  match opc2, crm with
  | 0, 7 =>
    some { mmu with u := { u with itlb := u.itlb.invalidateAll, dtlb := u.dtlb.invalidateAll } }
  | 0, 5 => some { mmu with u := { u with itlb := u.itlb.invalidateAll } }
  | 1, 5 => some { mmu with u := { u with itlb := u.itlb.invalidateEntry value } }
  | 0, 6 => some { mmu with u := { u with dtlb := u.dtlb.invalidateAll } }
  | 1, 6 => some { mmu with u := { u with dtlb := u.dtlb.invalidateEntry value } }
  | _, _ => none

variable (s : Cp15 Xscale)

theorem regs_onIcache (f : Cache icacheDesc → Ram → Cache icacheDesc × Ram) :
    (s.withMmu (onIcache mmu f)).regs = (s.withMmu mmu).regs := rfl

theorem regs_onMain (f : Cache mainDcacheDesc → Ram → Cache mainDcacheDesc × Ram) :
    (s.withMmu (onMain mmu f)).regs = (s.withMmu mmu).regs := rfl

theorem regs_cacheOps {opc2 crm : Nat} {value : ARMword} {mmu : MmuState Xscale}
    (h : cacheOps s.toMmuState opc2 crm value = some mmu) : (s.withMmu mmu).regs = s.regs := by
  unfold cacheOps at h
  split at h <;> cases h
  · exact (regs_onMain ..).trans (regs_onIcache ..)
  · exact regs_onIcache ..
  · exact regs_onIcache ..
  · exact regs_onMain ..
  · exact regs_onMain ..
  · exact regs_onMain ..
  · rfl
  · rfl
  · exact regs_onMain ..

theorem regs_tlbOps {opc2 crm : Nat} {value : ARMword} {mmu : MmuState Xscale}
    (h : tlbOps s.toMmuState opc2 crm value = some mmu) : (s.withMmu mmu).regs = s.regs := by
  unfold tlbOps at h
  split at h <;> cases h <;> rfl

end

/-- `xscale_mmu_mcr`. A write of the auxiliary control register goes to `control`. -/
def mcr (s : Cp15 Xscale) (creg opc2 crm : Nat) (value : ARMword) : Option (Cp15 Xscale) :=
  match creg with
  | 1 => some { s with control := if opc2 = 0 then value &&& 0x3FFF else value &&& 0x33 }
  | 2 => some { s with translationTableBase := value &&& 0xFFFFC000 }
  | 3 => some { s with domainAccessControl := value }
  | 5 => some { s with faultStatus := value &&& 0x6FF }
  | 6 => some { s with faultAddress := value }
  | 7 => (cacheOps s.toMmuState opc2 crm value).map s.withMmu
  | 8 => (tlbOps s.toMmuState opc2 crm value).map s.withMmu
  | 13 => some { s with processId := value &&& 0xfe000000 }
  | 15 => some { s with coproAccess := value &&& 0x3ff }
  | _ => some s

end Xscale

/-! ## The transfers of an instruction -/

/-- What `mmu_init` chooses by the processor. -/
inductive MmuModel where
  | sa
  | arm920t
  | arm926ejs
  | xscale
  deriving DecidableEq

namespace MmuModel

/-- The member of the union `u`. -/
def U : MmuModel → Type
  | sa => Sa
  | arm920t => Arm920t
  | arm926ejs => Arm926ejs
  | xscale => Xscale

/-- The selectors of a register transfer. -/
structure Selector where
  creg : Nat
  opc2 : Nat
  crm : Nat

def selector (instr : ARMword) : Selector := ⟨bits instr 16 19, bits instr 5 7, bits instr 0 3⟩

/-- `mmu_mrc` -/
def mrc (m : MmuModel) (s : Cp15Regs) (instr : ARMword) : Option ARMword :=
  let i := selector instr
  match m with
  | sa => some (Sa.mrc s i.creg)
  | arm920t => some (Arm920t.mrc s i.creg i.opc2)
  | arm926ejs => some (Arm926ejs.mrc s i.creg i.opc2)
  | xscale => Xscale.mrc s i.creg i.opc2

/-- `mmu_mcr`. The processors of `arm_cpus` with the MMUs of the StrongARM and the ARM920T are
of the architecture `armv4`. -/
def mcr (m : MmuModel) (cpu : Cpu) (s : Cp15 m.U) (instr value : ARMword) : Option (Cp15 m.U) :=
  let i := selector instr
  match m, s with
  | sa, s => some (s.withMmu (Sa.mcr cpu s.toMmuState true i.creg i.opc2 i.crm value))
  | arm920t, s => some (s.withMmu (Arm920t.mcr s.toMmuState true i.creg i.opc2 i.crm value))
  | arm926ejs, s => some (Arm926ejs.mcr s i.creg i.opc2 i.crm value)
  | xscale, s => Xscale.mcr s i.creg i.opc2 i.crm value

end MmuModel

end SkyEye
