import SkyEye.Arm.MmuModels
import SkyEye.Mmu.Arm7100
import SkyEye.Mmu.FaultingStore
import SkyEye.Mmu.WordAddress

/-!
# When the MMU models refuse an access

All models refuse an enabled access for its alignment, or for what the page tables say in
the mode of the processor. Two of them may settle a read without the page tables: the
ARM7100 answers from its cache first, and the read buffer of the SA-1100 repeats the fault
of the prefetch that filled it.
-/

namespace SkyEye

/-- A model's operations, the address and the table its accesses translate, the reads it
answers or refuses by itself, and what counts as its memory. -/
structure DataPort (U : Type) extends MmuOps U where
  addr : MmuState U → ARMword → ARMword
  tlb : U → Tlb
  known : MmuState U → ARMword → Prop
  refused : MmuState U → ARMword → Prop
  Mem : Type
  memory : MmuState U → Mem
  read_fault_iff : ∀ cpu mmu va datatype, (∃ f, (read cpu mmu va datatype).1 = .error f) ↔
    mmu.mmuEnabled = true ∧ (mmu.misaligned (addr mmu va) datatype = true ∨
      ¬ known mmu (addr mmu va) ∧ (refused mmu (addr mmu va) ∨
        ∃ f, mmu.authorise cpu (tlb mmu.u) (addr mmu va) true = .error f))
  write_fault_iff : ∀ cpu mmu va datatype data,
    (∃ f, (write cpu mmu va datatype data).1 = some f) ↔
      mmu.mmuEnabled = true ∧ (mmu.misaligned (addr mmu va) datatype = true ∨
        ∃ f, mmu.authorise cpu (tlb mmu.u) (addr mmu va) false = .error f)
  read_fault_memory : ∀ cpu mmu va datatype f, (read cpu mmu va datatype).1 = .error f →
    memory (read cpu mmu va datatype).2 = memory mmu
  memory_fault : ∀ mmu status address,
    memory { mmu with faultStatus := status, faultAddress := address } = memory mmu

/-! ## Models with split caches -/

namespace SplitMmu

variable {U : Type} {p : SplitMmu U} {cpu : Cpu} {mmu : MmuState U} {va : ARMword}
  {datatype : DataType} {data : ARMword}

/-- A read faults as the page tables say, or as `load` does once they permit it. -/
theorem read_fault_iff
    {load : MmuState U → TlbEntry → ARMword → ARMword → Except Fault ARMword × MmuState U}
    (refused : Prop)
    (h : ∀ e, (∃ f, (load (p.translated cpu mmu (mmu.pidVaMap va &&& ~~~3)) e
      (mmu.pidVaMap va &&& ~~~3) (mmu.pidVaMap va)).1 = .error f) ↔ refused) :
    (∃ f, (p.read cpu mmu load va datatype).1 = .error f) ↔
      mmu.mmuEnabled = true ∧ (mmu.misaligned (mmu.pidVaMap va) datatype = true ∨
        ¬ False ∧ (refused ∨
          ∃ f, mmu.authorise cpu (p.dtlb mmu.u) (mmu.pidVaMap va) true = .error f)) := by
  rw [read, ← MmuState.authorise_word]
  cases mmu.mmuEnabled with
  | false => simp
  | true =>
    cases mmu.misaligned (mmu.pidVaMap va) datatype with
    | true => simp
    | false =>
      dsimp only
      cases mmu.authorise cpu (p.dtlb mmu.u) (mmu.pidVaMap va &&& ~~~3) true with
      | error f => simp
      | ok e => simpa using h e

theorem write_fault_iff {store : MmuState U → TlbEntry → ARMword → ARMword → MmuState U}
    (h : p.dtlb (p.setIcache mmu.u
      (p.updateIcache cpu mmu (mmu.pidVaMap va) datatype data)) = p.dtlb mmu.u) :
    (∃ f, (p.write cpu mmu store va datatype data).1 = some f) ↔
      mmu.mmuEnabled = true ∧ (mmu.misaligned (mmu.pidVaMap va) datatype = true ∨
        ∃ f, mmu.authorise cpu (p.dtlb mmu.u) (mmu.pidVaMap va) false = .error f) := by
  have hm (u : U) : { mmu with u := u }.mmuEnabled = mmu.mmuEnabled := rfl
  have ha (u : U) : { mmu with u := u }.misaligned (mmu.pidVaMap va) datatype =
      mmu.misaligned (mmu.pidVaMap va) datatype := rfl
  have hp (u : U) (tlb : Tlb) (va' : ARMword) : { mmu with u := u }.authorise cpu tlb va' false =
      mmu.authorise cpu tlb va' false := rfl
  rw [← MmuState.authorise_word, ← h]
  simp only [write, hm, ha, hp]
  cases mmu.mmuEnabled with
  | false => simp
  | true =>
    cases mmu.misaligned (mmu.pidVaMap va) datatype with
    | true => simp
    | false =>
      cases mmu.authorise cpu (p.dtlb (p.setIcache mmu.u
        (p.updateIcache cpu mmu (mmu.pidVaMap va) datatype data)))
        (mmu.pidVaMap va &&& ~~~3) false <;> simp

/-- A faulting read has at most translated, or gone on to a `load` that faults. -/
theorem read_fault
    {load : MmuState U → TlbEntry → ARMword → ARMword → Except Fault ARMword × MmuState U}
    (hl : ∀ m e va' a f, (load m e va' a).1 = .error f → (load m e va' a).2 = m) {f : Fault}
    (h : (p.read cpu mmu load va datatype).1 = .error f) :
    (p.read cpu mmu load va datatype).2 = mmu ∨
      (p.read cpu mmu load va datatype).2 = p.translated cpu mmu (mmu.pidVaMap va &&& ~~~3) := by
  revert h
  simp only [read]
  split
  · intro h
    cases h
  · split
    · intro _
      exact .inl rfl
    · split
      · intro _
        exact .inr rfl
      · intro h
        exact .inr (hl _ _ _ _ f h)

end SplitMmu

/-! ## The models -/

namespace Sa

/-- The read buffer holds a fault for the address. -/
def Refused (mmu : MmuState Sa) (a : ARMword) : Prop :=
  ∃ rb f, rbSearch mmu.u.rb (a &&& ~~~3) = some rb ∧ rb.fault = some f

variable {cpu : Cpu} {mmu : MmuState Sa} {old : ARMword} {datatype : DataType} {e : TlbEntry}
  {va a : ARMword}

/-- A permitted read fails only with a fault of the read buffer, and changes nothing then. -/
theorem load_none (cpu : Cpu) (old : ARMword) (datatype : DataType) (e : TlbEntry) (a : ARMword)
    (h : rbSearch mmu.u.rb va = none) :
    ∃ data mmu', load cpu mmu old datatype e va a = (.ok data, mmu') := by
  rw [load, h]
  dsimp only
  split <;> exact ⟨_, _, rfl⟩

theorem load_refused {rb : RbEntry} {f : Fault} (h : rbSearch mmu.u.rb va = some rb)
    (hf : rb.fault = some f) : load cpu mmu old datatype e va a = (.error f, mmu) := by
  simp only [load, h, hf]

theorem load_some {rb : RbEntry} (h : rbSearch mmu.u.rb va = some rb) (hf : rb.fault = none) :
    load cpu mmu old datatype e va a =
      (.ok (readLane cpu.bigend datatype a (rb.data (rb.index va))), mmu) := by
  simp only [load, h, hf]

theorem load_fault_iff : (∃ f, (load cpu mmu old datatype e va a).1 = .error f) ↔
    ∃ rb f, rbSearch mmu.u.rb va = some rb ∧ rb.fault = some f := by
  cases h : rbSearch mmu.u.rb va with
  | none =>
    obtain ⟨data, mmu', hl⟩ := load_none cpu old datatype e a h
    rw [hl]
    simp
  | some rb =>
    cases hf : rb.fault with
    | none =>
      rw [load_some h hf]
      simp [hf]
    | some f =>
      rw [load_refused h hf]
      simp [hf]

theorem load_fault {f : Fault} (h : (load cpu mmu old datatype e va a).1 = .error f) :
    (load cpu mmu old datatype e va a).2 = mmu := by
  obtain ⟨rb, f', hr, hf⟩ := load_fault_iff.mp ⟨f, h⟩
  rw [load_refused hr hf]

/-- `sa_mmu_ops` -/
def dataPort (old : ARMword) : DataPort Sa where
  toMmuOps := ops old
  addr mmu va := mmu.pidVaMap va
  tlb := dtlb
  known _ _ := False
  refused := Refused
  Mem := Cache side.icacheDesc × Cache mainDcacheDesc × Cache miniDcacheDesc × Wb wbDesc × Ram
  memory mmu := (mmu.u.icache, mmu.u.mainDcache, mmu.u.miniDcache, mmu.u.wb, mmu.ram)
  read_fault_iff cpu mmu va datatype := by
    simp only [ops, read]
    exact SplitMmu.read_fault_iff (Refused mmu (mmu.pidVaMap va)) fun e => load_fault_iff
  write_fault_iff cpu mmu va datatype data := by
    simp only [ops, write]
    exact SplitMmu.write_fault_iff rfl
  memory_fault _ _ _ := rfl
  read_fault_memory cpu mmu va datatype f h := by
    simp only [ops, read] at h ⊢
    rcases SplitMmu.read_fault (fun _ _ _ _ _ => load_fault) h with h | h
    · rw [h]
    · rw [h]
      rfl

end Sa

namespace DataSide

variable {U : Type} {p : DataSide U} {cpu : Cpu} {mmu : MmuState U} {old : ARMword}
  {datatype : DataType} {e : TlbEntry} {va a : ARMword}

theorem load_fault {f : Fault} : (p.load cpu mmu old datatype e va a).1 ≠ .error f := by
  rw [load]
  split <;> nofun

theorem read_fault_iff :
    (∃ f, (p.read cpu mmu (fun mmu => p.load cpu mmu old datatype) va datatype).1 = .error f) ↔
      mmu.mmuEnabled = true ∧ (mmu.misaligned (mmu.pidVaMap va) datatype = true ∨
        ¬ False ∧ (False ∨
          ∃ f, mmu.authorise cpu (p.dtlb mmu.u) (mmu.pidVaMap va) true = .error f)) :=
  SplitMmu.read_fault_iff False fun _ => iff_false_intro fun ⟨_, h⟩ => load_fault h

theorem read_fault {f : Fault}
    (h : (p.read cpu mmu (fun mmu => p.load cpu mmu old datatype) va datatype).1 = .error f) :
    (p.read cpu mmu (fun mmu => p.load cpu mmu old datatype) va datatype).2 = mmu ∨
      (p.read cpu mmu (fun mmu => p.load cpu mmu old datatype) va datatype).2 =
        p.translated cpu mmu (mmu.pidVaMap va &&& ~~~3) :=
  SplitMmu.read_fault (fun _ _ _ _ _ h => absurd h load_fault) h

end DataSide

namespace Arm920t

/-- `arm920t_mmu_ops` -/
def dataPort (old : ARMword) : DataPort Arm920t where
  toMmuOps := ops old
  addr mmu va := mmu.pidVaMap va
  tlb := dtlb
  known _ _ := False
  refused _ _ := False
  Mem := Cache icacheDesc × Cache dcacheDesc × Wb wbDesc × Ram
  memory mmu := (mmu.u.icache, mmu.u.dcache, mmu.u.wb, mmu.ram)
  read_fault_iff cpu mmu va datatype := by
    simp only [ops, read]
    exact DataSide.read_fault_iff
  write_fault_iff cpu mmu va datatype data := by
    simp only [ops, write]
    exact SplitMmu.write_fault_iff rfl
  memory_fault _ _ _ := rfl
  read_fault_memory cpu mmu va datatype f h := by
    simp only [ops, read] at h ⊢
    rcases DataSide.read_fault h with h | h
    · rw [h]
    · rw [h]
      rfl

end Arm920t

namespace Arm926ejs

/-- `arm926ejs_mmu_ops` -/
def dataPort (old : ARMword) : DataPort Arm926ejs where
  toMmuOps := ops old
  addr mmu va := mmu.pidVaMap va
  tlb := mainTlb
  known _ _ := False
  refused _ _ := False
  Mem := Cache icacheDesc × Cache dcacheDesc × Wb wbDesc × Ram
  memory mmu := (mmu.u.icache, mmu.u.dcache, mmu.u.wb, mmu.ram)
  read_fault_iff cpu mmu va datatype := by
    simp only [ops, read]
    exact DataSide.read_fault_iff
  write_fault_iff cpu mmu va datatype data := by
    simp only [ops, write]
    exact SplitMmu.write_fault_iff rfl
  memory_fault _ _ _ := rfl
  read_fault_memory cpu mmu va datatype f h := by
    simp only [ops, read] at h ⊢
    rcases DataSide.read_fault h with h | h
    · rw [h]
    · rw [h]
      rfl

end Arm926ejs

namespace Arm7100

def dataPort : DataPort Arm7100 where
  toMmuOps := ops
  addr _ va := va
  tlb := tlb
  known mmu va := (cached mmu va).isSome
  refused _ _ := False
  Mem := Cache cacheDesc × Ram
  memory mmu := (mmu.u.cache, mmu.ram)
  read_fault_iff cpu mmu va datatype := by
    cases hm : mmu.mmuEnabled with
    | false => simp [ops, read, hm]
    | true =>
      refine (faults_iff hm).trans ?_
      rw [Denied]
      cases cached mmu va <;> simp
  write_fault_iff cpu mmu va datatype data := by
    have hp (u : Arm7100) : { mmu with u := u }.authorise cpu u.tlb va false =
        mmu.authorise cpu u.tlb va false := rfl
    simp only [ops, write, hp]
    cases mmu.mmuEnabled with
    | false => simp
    | true =>
      cases mmu.misaligned va datatype with
      | true => simp
      | false => cases mmu.authorise cpu mmu.u.tlb va false <;> simp
  memory_fault _ _ _ := rfl
  read_fault_memory cpu mmu va datatype f h := by
    revert h
    simp only [ops, read]
    split
    · intro h
      cases h
    · split
      · exact fun _ => rfl
      · split
        · intro h
          cases h
        · split
          · exact fun _ => rfl
          · intro h
            revert h
            split <;> nofun

end Arm7100

end SkyEye
