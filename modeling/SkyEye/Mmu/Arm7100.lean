import SkyEye.Mmu.Tlb
import SkyEye.Mmu.Cache

/-!
# The ARM7100 MMU

`arm7100_mmu.c`: one write-through cache and one TLB. A read asks the cache first
and the page tables only when the cache does not know; a write updates the cache,
then asks the page tables.
-/

namespace SkyEye

namespace Arm7100

/-- The cache of `a71_mmu_init`. -/
def cacheDesc : CacheDesc := ⟨16, 4, 128, .writeThrough, Sizes.pos_four, Sizes.pos_oneTwentyEight⟩

end Arm7100

/-- `arm7100_mmu_t` -/
structure Arm7100 where
  cache : Cache Arm7100.cacheDesc
  tlb : Tlb

namespace Arm7100

/-- `a71_mmu_init` over the memory `ram`. -/
def init (ram : Ram) : MmuState Arm7100 where
  control := 0x70
  translationTableBase := 0xDEADC0DE
  domainAccessControl := 0xDEADC0DE
  faultStatus := 0
  faultAddress := 0
  lastDomain := 0
  processId := 0
  ram := ram
  u := { cache := .init cacheDesc, tlb := .init 64 Sizes.pos_sixtyFour }

variable (cpu : Cpu) (mmu : MmuState Arm7100)

/-- `(virt_addr >> 2) & 3` -/
def wordIndex (va : ARMword) : Nat := ((va >>> 2) &&& 3).toNat

/-- The cache line of a hit, when the cache is on. -/
def cached (va : ARMword) : Option CacheLine :=
  if mmu.cacheEnabled then mmu.u.cache.searchLine va else none

/-- The state after `translate` has recorded the domain and filled the TLB. -/
def translated (va : ARMword) : MmuState Arm7100 :=
  let t := mmu.translate cpu.isXScale mmu.u.tlb va
  { mmu with lastDomain := t.lastDomain, u := { mmu.u with tlb := t.tlb } }

/-- A line for `va`, read from the physical address of its entry. -/
def fillLine (va pa : ARMword) : MmuState Arm7100 × CacheLine :=
  let fetch := pa &&& 0xFFFFFFF0
  let (c, ram, w) := mmu.u.cache.alloc va 0 mmu.ram
  let s := cacheDesc.vaCacheSet (cacheDesc.vaCacheAlign va)
  let l := { c.line s w with
    data := fun i =>
      if i < 4 then ram.busRead .word (fetch + BitVec.ofNat 32 (4 * i)) else (c.line s w).data i
    tag := cacheDesc.vaCacheAlign va ||| TAG_VALID_FLAG }
  ({ mmu with ram := ram, u := { mmu.u with cache := c.setLine s w l } }, l)

/-- `a71_mmu_read` -/
def read (va : ARMword) (datatype : DataType) : Except Fault ARMword × MmuState Arm7100 :=
  let lane (l : CacheLine) := readLane cpu.bigend datatype va (l.data (wordIndex va))
  if !mmu.mmuEnabled then (.ok (mmu.ram.busRead datatype va), mmu)
  else if mmu.misaligned va datatype then (.error .alignment, mmu)
  else
    match cached mmu va with
    | some l => (.ok (lane l), mmu)
    | none =>
      match mmu.authorise cpu mmu.u.tlb va true with
      | .error f => (.error f, translated cpu mmu va)
      | .ok e =>
        let mmu := translated cpu mmu va
        let pa := e.vaToPa va
        if e.cFlag && mmu.cacheEnabled then
          let (mmu, l) := fillLine mmu va pa
          (.ok (lane l), mmu)
        else (.ok (mmu.ram.busRead datatype pa), mmu)

/-- The cache after a store: the data of a hit line follows, its tag does not change. -/
def updateCache (va : ARMword) (datatype : DataType) (data : ARMword) : Cache cacheDesc :=
  let c := mmu.u.cache
  let s := cacheDesc.vaCacheSet va
  match if mmu.cacheEnabled then c.search va else none with
  | some w =>
    let l := c.line s w
    let i := wordIndex va
    c.setLine s w { l with
      data := Function.update l.data i (writeLane cpu.bigend datatype va data (l.data i)) }
  | none => c

/-- `a71_mmu_write`; the fault, or none. -/
def write (va : ARMword) (datatype : DataType) (data : ARMword) :
    Option Fault × MmuState Arm7100 :=
  if !mmu.mmuEnabled then (none, { mmu with ram := mmu.ram.busWrite datatype va data })
  else if mmu.misaligned va datatype then (some .alignment, mmu)
  else
    let mmu := { mmu with u := { mmu.u with cache := updateCache cpu mmu va datatype data } }
    let t := translated cpu mmu va
    match mmu.authorise cpu mmu.u.tlb va false with
    | .error f => (some f, t)
    | .ok e => (none, { t with ram := t.ram.busWrite datatype (e.vaToPa va) data })

/-! ## Coprocessor writes -/

def invalidateCache : MmuState Arm7100 :=
  let (c, ram) := mmu.u.cache.invalidateAll mmu.ram
  { mmu with ram := ram, u := { mmu.u with cache := c } }

def invalidateTlb : MmuState Arm7100 :=
  { mmu with u := { mmu.u with tlb := mmu.u.tlb.invalidateAll } }

def invalidateTlbEntry (va : ARMword) : MmuState Arm7100 :=
  { mmu with u := { mmu.u with tlb := mmu.u.tlb.invalidateEntry va } }

/-- `a71_mmu_mcr`: the registers of an ARMv4 core, or of an older one. -/
def mcr (armv4 : Bool) (creg opc2 : Nat) (value : ARMword) : MmuState Arm7100 :=
  match creg with
  | 1 => { mmu with control := (value ||| 0x70) &&& 0xFFFF }
  | 2 => { mmu with translationTableBase := value &&& 0xFFFFC000 }
  | 3 => { mmu with domainAccessControl := value }
  | 5 => if armv4 then { mmu with faultStatus := value &&& 0xFF } else invalidateTlb mmu
  | 6 => if armv4 then { mmu with faultAddress := value } else invalidateTlbEntry mmu value
  | 7 => if armv4 && opc2 != 0 then mmu else invalidateCache mmu
  | 8 =>
    if armv4 then
      match opc2 with
      | 0 => invalidateTlb mmu
      | 1 => invalidateTlbEntry mmu value
      | _ => mmu
    else mmu
  | _ => mmu

/-! ## Runs -/

/-- What the processor asks of the MMU, with the mode it is in. -/
inductive Op where
  | read (cpu : Cpu) (va : ARMword) (datatype : DataType)
  | write (cpu : Cpu) (va : ARMword) (datatype : DataType) (data : ARMword)
  | mcr (armv4 : Bool) (creg opc2 : Nat) (value : ARMword)

def step : Op → MmuState Arm7100
  | .read cpu va datatype => (read cpu mmu va datatype).2
  | .write cpu va datatype data => (write cpu mmu va datatype data).2
  | .mcr armv4 creg opc2 value => mcr mmu armv4 creg opc2 value

def run (ops : List Op) : MmuState Arm7100 := ops.foldl step mmu

end Arm7100

end SkyEye

/-!
## Who decides an ARM7100 read

A read that hits the cache is answered without asking the page tables, so the cache
has a say in whether an access faults. The page tables decide alone exactly when the
alignment check does not come first and no denied address is cached (`Decided`).
-/

namespace SkyEye.Arm7100

variable (cpu : Cpu) (mmu : MmuState Arm7100) (va : ARMword) (datatype : DataType)

/-- The read returns a fault. -/
def Faults : Prop := ∃ f, (read cpu mmu va datatype).1 = .error f

/-- `translate` or `check_access` denies the read in the current mode. -/
def Denied : Prop := ∃ f, mmu.authorise cpu mmu.u.tlb va true = .error f

/-- The state with other contents of the cache. -/
def withCache (c : Cache cacheDesc) : MmuState Arm7100 := { mmu with u := { mmu.u with cache := c } }

variable {cpu mmu va datatype}

theorem denied_iff :
    Denied cpu mmu va ↔ (mmu.authorise cpu mmu.u.tlb va true).toBool = false := by
  rw [Denied]
  cases mmu.authorise cpu mmu.u.tlb va true <;> simp [Except.toBool]

/-- What an enabled MMU says: alignment first, then the cache, then the page tables. -/
theorem faults_iff (hm : mmu.mmuEnabled = true) :
    Faults cpu mmu va datatype ↔
      mmu.misaligned va datatype = true ∨ cached mmu va = none ∧ Denied cpu mmu va := by
  simp only [Faults, Denied, read, hm, Bool.not_true, Bool.false_eq_true, if_false]
  cases mmu.misaligned va datatype with
  | true => simp
  | false =>
    cases cached mmu va with
    | some l => simp
    | none =>
      cases mmu.authorise cpu mmu.u.tlb va true with
      | error f => simp
      | ok e =>
        simp only [Bool.false_eq_true, if_false, reduceCtorEq, exists_false, and_false, or_false,
          iff_false, not_exists]
        intro f
        split <;> simp

/-! ## Two caches -/

theorem cached_withCache (c : Cache cacheDesc) :
    cached (withCache mmu c) va = if mmu.cacheEnabled then c.searchLine va else none := rfl

theorem denied_withCache (c : Cache cacheDesc) :
    Denied cpu (withCache mmu c) va ↔ Denied cpu mmu va := .rfl

/-! ## Two runs -/

/-- A misaligned address is denied anyway, and an aligned one that is cached is not. -/
def Decided (cpu : Cpu) (mmu : MmuState Arm7100) (va : ARMword) (datatype : DataType) : Prop :=
  if mmu.misaligned va datatype then Denied cpu mmu va
  else (cached mmu va).isSome → ¬ Denied cpu mmu va

theorem faults_iff_denied_iff (hm : mmu.mmuEnabled = true) :
    (Faults cpu mmu va datatype ↔ Denied cpu mmu va) ↔ Decided cpu mmu va datatype := by
  rw [faults_iff hm, Decided]
  cases mmu.misaligned va datatype with
  | true => simp
  | false =>
    cases cached mmu va with
    | none => simp
    | some l => simp

/-- Memory whose page table at 0x4000 maps its first megabyte onto itself, for the
supervisor only, and cacheable. -/
def supervisorRam : Ram := { Ram.cleared with word := fun i => if i = 0x1000 then 0x40A else 0 }

/-- The supervisor turns the MMU and the cache on. -/
def supervisorBoot : List Op :=
  [.mcr true 2 0 0x4000, .mcr true 3 0 1, .mcr true 1 0 0x5]

def supervisorCpu : Cpu := ⟨0x13, false, false⟩
def userCpu : Cpu := ⟨0x10, false, false⟩

/-- Over any two runs that end with the MMU on and in states that differ at most in the
cache: the page tables alone decide the access in both, and so the runs agree, exactly if the
page tables decide before the cache is asked in both. -/
theorem read_faults_iff_denied (ram ram' : Ram) (ops ops' : List Op) (c : Cache cacheDesc)
    (hm : (run (init ram) ops).mmuEnabled = true)
    (hc : run (init ram') ops' = withCache (run (init ram) ops) c) :
    let mmu := run (init ram) ops
    let mmu' := run (init ram') ops'
    ((Faults cpu mmu va datatype ↔ Denied cpu mmu va) ∧
      (Faults cpu mmu' va datatype ↔ Faults cpu mmu va datatype)) ↔
    Decided cpu mmu va datatype ∧ Decided cpu mmu' va datatype := by
  intro mmu mmu'
  have hm' : mmu'.mmuEnabled = true := by rw [show mmu' = _ from hc]; exact hm
  have hd : Denied cpu mmu' va ↔ Denied cpu mmu va := by
    rw [show mmu' = _ from hc, denied_withCache]
  rw [← faults_iff_denied_iff hm, ← faults_iff_denied_iff hm', hd]
  constructor
  · rintro ⟨h, h'⟩
    exact ⟨h, h'.trans h⟩
  · rintro ⟨h, h'⟩
    exact ⟨h, h'.trans h.symm⟩

theorem read_faults_iff_denied_user :
    let mmu := run (init supervisorRam) (supervisorBoot ++ [.read supervisorCpu 0x100 .word])
    let mmu' := run (init supervisorRam)
      (supervisorBoot ++ [.read supervisorCpu 0x100 .word, .read userCpu 0x100 .word])
    ((Faults userCpu mmu 0x200 .word ↔ Denied userCpu mmu 0x200) ∧
      (Faults userCpu mmu' 0x200 .word ↔ Faults userCpu mmu 0x200 .word)) ↔
    Decided userCpu mmu 0x200 .word ∧ Decided userCpu mmu' 0x200 .word :=
  read_faults_iff_denied supervisorRam supervisorRam _ _
    (run (init supervisorRam) (supervisorBoot ++ [.read supervisorCpu 0x100 .word])).u.cache
    (by decide +kernel) rfl

/-- The supervisor reads a word, and the user's read of it hits its line: it succeeds although
the page tables deny it, and with an empty cache it faults. -/
theorem read_hits_denied_line :
    let mmu := run (init supervisorRam) (supervisorBoot ++ [.read supervisorCpu 0x100 .word])
    mmu.mmuEnabled = true ∧ Denied userCpu mmu 0x100 ∧ ¬ Faults userCpu mmu 0x100 .word ∧
      Faults userCpu (withCache mmu (.init cacheDesc)) 0x100 .word := by
  intro mmu
  have hm : mmu.mmuEnabled = true := by decide +kernel
  have ha : mmu.misaligned 0x100 .word = false := by decide +kernel
  have hc : (cached mmu 0x100).isSome = true := by decide +kernel
  have hd : Denied userCpu mmu 0x100 := denied_iff.mpr (by decide +kernel)
  clear_value mmu
  refine ⟨hm, hd, ?_, ?_⟩
  · intro hf
    rcases (faults_iff hm).mp hf with h | ⟨h, -⟩
    · exact Bool.noConfusion (ha.symm.trans h)
    · rw [h] at hc
      exact Bool.noConfusion hc
  · have hmc : (withCache mmu (.init cacheDesc)).mmuEnabled = true := hm
    refine (faults_iff hmc).mpr (.inr ⟨?_, hd⟩)
    rw [cached_withCache, Cache.searchLine, Cache.search_init]
    exact ite_self _

end SkyEye.Arm7100
