import Mathlib.Logic.Function.Basic
import SkyEye.Ppc.LoadStore
import SkyEye.Ppc.Rfi

/-!
# The steps of the two cores of the MPC8572

`per_cpu_step` of `ppc_arch_interface.c`, the decrementer, the write to the IPI dispatch register
and the UART in the I/O cycle of `skyeye_mach_mpc8572.c`.
-/

namespace SkyEye.Ppc.Ipi

open Sparc (Uint32)

/-- `IPI0`, and the bit of `UART_IRQ`. -/
abbrev ipi0 : Uint32 := 1
abbrev uartIrq : Uint32 := 1 <<< 26

/-! ## A core -/

/-- What of `e500_core_t` the steps use besides the registers. -/
structure Cpu where
  core : E500Core Unit
  tbl : Uint32
  tcr : Uint32
  dec : Uint32
  ipr : Uint32
  ipiFlag : Bool

namespace Cpu

variable (cpu : Cpu)

/-- An external interrupt: `npc` is the vector now, and the core is told so. -/
def interrupted : Cpu := { cpu with core := cpu.core.interrupted, ipiFlag := true }

/-- The first lines of `per_cpu_step`. -/
def fetch : Cpu :=
  let pc := if cpu.ipiFlag then cpu.core.npc else cpu.core.pc
  { cpu with core := { cpu.core with pc := pc, npc := pc + 4 }, ipiFlag := false }

/-- The condition of the decrementer: DIS clear, DIE and EE set. -/
def timed : Bool :=
  cpu.core.tsr &&& 0x8000000 == 0 && cpu.tcr &&& 0x4000000 != 0 && cpu.core.msr &&& msrEe != 0

def decIoDoCycle : Cpu :=
  let cpu := { cpu with tbl := cpu.tbl + 1 }
  if cpu.timed then
    let dec := if cpu.dec > 0 then cpu.dec - 1 else cpu.dec
    { cpu with
      dec := dec
      core := if dec = 0 then (cpu.core.ppcException .dec 0 cpu.core.pc).getD cpu.core
        else cpu.core }
  else cpu

/-- The last line. -/
def goOn : Cpu := { cpu with core := { cpu.core with pc := cpu.core.npc } }

end Cpu

/-! ## The machine -/

/-- `uart[0]` -/
structure Uart where
  rbr : Uint32
  ier : Uint32
  iir : Uint32
  lsr : Uint32

/-- The registers of the interrupt controller that the deliveries use; `iivpr` is that of the
UART. -/
structure Pic where
  ipidr0 : Uint32
  ipivpr0 : Uint32
  iivpr : Uint32
  iack : Bool → Uint32

/-- The devices; `rest` is the memory and the other ones. -/
structure Dev (D : Type) where
  pic : Pic
  uart : Uart
  rest : D

/-- `gCPU`; core 1 is `true`. -/
structure Gcpu (D : Type) where
  cpu : Bool → Cpu
  dev : Dev D

variable {D : Type}

/-- What an instruction does to its own core and the devices, a fault of its fetch included. It
is no external interrupt. -/
structure Own (D : Type) where
  run : Cpu → Dev D → Cpu × Dev D
  raises : ∀ cpu dev,
    (run cpu dev).1.core.raised.count .extInt = cpu.core.raised.count .extInt

/-- An instruction; the one that stores to the IPI dispatch register may change the general
registers after it. -/
inductive Instr (D : Type) where
  | own (f : Own D)
  | dispatch (data : Uint32) (gpr : Nat → Uint32)

def coreId (data : Uint32) : Option Bool :=
  if data &&& 0x2 ≠ 0 then some true else if data &&& 0x1 ≠ 0 then some false else none

namespace Gcpu

variable (s : Gcpu D)

def set (c : Bool) (cpu : Cpu) : Gcpu D := { s with cpu := Function.update s.cpu c cpu }

/-- `mpc8572_io_write_word` at 0x60040 -/
def ioWriteWord (data : Uint32) : Gcpu D :=
  let s := { s with dev := { s.dev with pic := { s.dev.pic with ipidr0 := data } } }
  match coreId data with
  | none => s
  | some c =>
    let ipivpr0 := s.dev.pic.ipivpr0 ||| 0x40000000
    let iack := (s.dev.pic.iack c &&& 0xFFFF0000) ||| (ipivpr0 &&& 0xFFFF)
    { s.set c { s.cpu c with ipr := (s.cpu c).ipr ||| ipi0 }.interrupted with
      dev := { s.dev with
        pic := { s.dev.pic with
          ipivpr0 := ipivpr0
          iack := Function.update s.dev.pic.iack c iack } } }

/-- The instruction in a step of a core. -/
def exec (c : Bool) : Instr D → Gcpu D
  | .own f => { s.set c (f.run (s.cpu c) s.dev).1 with dev := (f.run (s.cpu c) s.dev).2 }
  | .dispatch data gpr =>
    let s := s.ioWriteWord data
    s.set c { s.cpu c with core := { (s.cpu c).core with gpr := gpr } }

/-- `per_cpu_step`; `ppc_divisor` is 0. -/
def perCpuStep (c : Bool) (i : Instr D) : Gcpu D :=
  let s := (s.set c (s.cpu c).fetch).exec c i
  s.set c (s.cpu c).decIoDoCycle.goOn

/-! ## The I/O cycle -/

/-- The registers of the UART after it has been asked for a character. -/
def uartPoll (uart : Uart) (read : Option (BitVec 8)) : Uart :=
  if uart.iir &&& 0x1 ≠ 0 then
    let uart :=
      if uart.ier &&& 0x2 ≠ 0 then
        { uart with iir := (uart.iir &&& 0xF0) ||| 0x2, lsr := uart.lsr ||| 0x60 }
      else uart
    match read with
    | some ch =>
      if uart.ier &&& 0x1 ≠ 0 then
        { uart with
          rbr := ch.setWidth 32
          lsr := uart.lsr ||| 0x1
          iir := (uart.iir &&& 0xF0) ||| 0x4 }
      else uart
    | none => uart
  else uart

/-- The UART interrupts core 0. -/
def uartDue : Bool :=
  s.dev.pic.iivpr &&& 0x80000000 == 0 && (s.cpu false).core.msr &&& msrEe != 0 &&
    (s.cpu false).ipr &&& uartIrq == 0 && s.dev.uart.iir &&& 0x1 == 0 &&
    s.dev.uart.ier &&& 0x3 != 0

/-- `std8250_io_do_cycle` -/
def ioDoCycle (read : Option (BitVec 8)) : Gcpu D :=
  let s := { s with dev := { s.dev with uart := uartPoll s.dev.uart read } }
  if s.uartDue then
    { s.set false { s.cpu false with ipr := (s.cpu false).ipr ||| uartIrq }.interrupted with
      dev := { s.dev with
        pic := { s.dev.pic with
          iivpr := s.dev.pic.iivpr ||| 0x40000000
          iack := Function.update s.dev.pic.iack false 0x2A } } }
  else s

end Gcpu

/-- A step of a core, or the I/O cycle. -/
inductive Event (D : Type) where
  | step (c : Bool) (i : Instr D)
  | io (read : Option (BitVec 8))

def Gcpu.step (s : Gcpu D) : Event D → Gcpu D
  | .step c i => s.perCpuStep c i
  | .io read => s.ioDoCycle read

end SkyEye.Ppc.Ipi

/-!
## Delivery of interrupts to the two cores

A write to the IPI dispatch register raises the external interrupt of the core it selects there
and then, whatever its EE, and of the one core only. Where the mask selects one core and it is
enabled, every interrupt is delivered once and at a boundary, and the interrupted core goes on
behind it (`delivered`).
-/

namespace SkyEye.Ppc.Ipi

open Sparc (Uint32)

variable {D : Type}

namespace Cpu

variable (cpu : Cpu)

/-- The address of the instruction that the core executes next. -/
def next : Uint32 := if cpu.ipiFlag then cpu.core.npc else cpu.core.pc

/-- MSR[EE] -/
def Enabled : Prop := cpu.core.msr &&& msrEe ≠ 0

instance : Decidable cpu.Enabled := inferInstanceAs (Decidable (_ ≠ _))

/-- The external interrupts taken so far. -/
def taken : Nat := cpu.core.raised.count .extInt

end Cpu

/-! ## What an event has to do -/

/-- The mask selects a core. -/
def selects (data : Uint32) (c : Bool) : Prop := data &&& (if c then 0x2 else 0x1) ≠ 0

instance (data : Uint32) (c : Bool) : Decidable (selects data c) :=
  inferInstanceAs (Decidable (_ ≠ _))

/-- The event dispatches an IPI to the core. -/
def Event.dispatches : Event D → Bool → Prop
  | .step _ (.dispatch data _), c => selects data c
  | _, _ => False

/-- Where a core goes on without interrupts: behind the store, if it is the one that dispatches. -/
def Gcpu.goesOn (s : Gcpu D) (ev : Event D) (c : Bool) : Uint32 :=
  match ev with
  | .step d _ => if d = c then (s.cpu c).next + 4 else (s.cpu c).next
  | .io _ => (s.cpu c).next

def rfi : Own D where
  run cpu dev := ({ cpu with core := cpu.core.ppcOpcRfi.getD cpu.core }, dev)
  raises cpu dev := by
    unfold E500Core.ppcOpcRfi
    split <;> rfl

/-- The event takes `s` to `s'` as it should. A core with EE clear may be `owed` an IPI that was
dispatched to it before, and take it in any later event that finds EE set. -/
structure Meets (owed : Bool → Prop) (s : Gcpu D) (ev : Event D) (s' : Gcpu D) : Prop where
  once : ∀ c, ev.dispatches c → (s.cpu c).Enabled → ¬owed c →
    (s'.cpu c).taken = (s.cpu c).taken + 1
  none : ∀ c, ¬ev.dispatches c → ¬owed c → (∀ read, ev = .io read → c = true) →
    (s'.cpu c).taken = (s.cpu c).taken
  uart : ∀ read, ev = .io read → ¬owed false → (s'.cpu false).taken = (s.cpu false).taken ∨
    (s'.cpu false).taken = (s.cpu false).taken + 1
  enabled : ∀ c, (s'.cpu c).taken ≠ (s.cpu c).taken → (s.cpu c).Enabled
  saved : ∀ c, ¬(s.cpu c).Enabled → (∀ f, ev ≠ .step c (.own f)) →
    (s'.cpu c).core.srr0 = (s.cpu c).core.srr0 ∧ (s'.cpu c).core.srr1 = (s.cpu c).core.srr1
  resumes : ∀ c, (s'.cpu c).taken ≠ (s.cpu c).taken → ¬owed c →
    (s'.cpu c).core.srr0 = s.goesOn ev c ∧ (s'.cpu c).core.srr1 = (s.cpu c).core.msr ∧
      (s'.cpu c).next = (s.cpu c).core.vector 4
  returns : ∀ c, ev = .step c (.own rfi) → (s.cpu c).core.msr &&& msrPr = 0 → ¬owed c →
    (s'.cpu c).next = (s.cpu c).core.srr0 &&& 0xFFFFFFFC ∨
      (s'.cpu c).core.raised = (s.cpu c).core.raised ++ [.dec] ∧
        (s'.cpu c).core.srr0 = (s.cpu c).core.srr0 &&& 0xFFFFFFFC

/-- The mask does not select both cores, and one that it selects is enabled and has made a step;
the I/O cycle comes after one of core 0. `ran` tells which cores have made one. -/
def Proper (s : Gcpu D) (ran : Bool → Bool) : Event D → Prop
  | .step c (.dispatch data _) => ¬(selects data false ∧ selects data true) ∧
      ∀ d, selects data d → (s.cpu d).Enabled ∧ (d = c ∨ ran d = true)
  | .step _ (.own _) => True
  | .io _ => ran false = true

def ranAfter (ran : Bool → Bool) : Event D → Bool → Bool
  | .step c _ => Function.update ran c true
  | .io _ => ran

/-- The runs whose events are `ok`, with the cores that have made a step. -/
inductive Run (ok : Gcpu D → (Bool → Bool) → Event D → Prop) (s₀ : Gcpu D) :
    Gcpu D → (Bool → Bool) → Prop
  | start : Run ok s₀ s₀ fun _ => false
  | step {s ran} (hrun : Run ok s₀ s ran) (ev : Event D) (hok : ok s ran ev) :
      Run ok s₀ (s.step ev) (ranAfter ran ev)

/-- A core that has made a step goes on at `npc`. -/
def Inv (s : Gcpu D) (ran : Bool → Bool) : Prop :=
  ∀ c, ran c = true → (s.cpu c).next = (s.cpu c).core.npc

/-! ## Cores -/

section

variable {cpu : Cpu} {s : Gcpu D} {c d : Bool}

theorem interrupted_core (cpu : Cpu) : cpu.interrupted.core.srr0 = cpu.core.npc ∧
    cpu.interrupted.core.srr1 = cpu.core.msr ∧
    cpu.interrupted.core.npc = cpu.core.vector 4 ∧
    cpu.interrupted.core.msr = cpu.core.msr &&& 0x21200 ∧
    cpu.interrupted.core.raised = cpu.core.raised ++ [.extInt] :=
  ⟨rfl, rfl, rfl, rfl, rfl⟩

theorem interrupted_taken (cpu : Cpu) : cpu.interrupted.taken = cpu.taken + 1 := by
  unfold Cpu.taken
  rw [(interrupted_core cpu).2.2.2.2, List.count_append]
  rfl

theorem interrupted_disabled (cpu : Cpu) : ¬cpu.interrupted.Enabled := by
  unfold Cpu.Enabled
  rw [(interrupted_core cpu).2.2.2.1, BitVec.and_assoc,
    show (0x21200 : Uint32) &&& msrEe = 0 from by decide]
  exact not_not.mpr BitVec.and_zero

theorem decIoDoCycle_disabled (h : ¬cpu.Enabled) :
    cpu.decIoDoCycle = { cpu with tbl := cpu.tbl + 1 } := by
  have htimed : Cpu.timed { cpu with tbl := cpu.tbl + 1 } = false := by
    unfold Cpu.timed
    unfold Cpu.Enabled at h
    rw [not_not] at h
    rw [Bool.and_eq_false_iff]
    exact .inr (bne_eq_false_iff_eq.mpr h)
  unfold Cpu.decIoDoCycle
  dsimp only
  rw [htimed]
  rfl

theorem decIoDoCycle_core (cpu : Cpu) : cpu.decIoDoCycle.core = cpu.core ∨
    cpu.decIoDoCycle.core.raised = cpu.core.raised ++ [.dec] ∧
      cpu.decIoDoCycle.core.srr0 = cpu.core.npc := by
  unfold Cpu.decIoDoCycle
  dsimp only
  generalize (if cpu.dec > 0 then cpu.dec - 1 else cpu.dec) = dec
  split
  · by_cases h : dec = 0
    · rw [if_pos h]
      exact .inr ⟨rfl, rfl⟩
    · rw [if_neg h]
      exact .inl rfl
  · exact .inl rfl

theorem decIoDoCycle_taken (cpu : Cpu) : cpu.decIoDoCycle.taken = cpu.taken := by
  unfold Cpu.taken
  rcases decIoDoCycle_core cpu with h | ⟨h, -⟩
  · rw [h]
  · rw [h, List.count_append]
    rfl

theorem goOn_next (cpu : Cpu) : cpu.goOn.next = cpu.goOn.core.npc := by
  unfold Cpu.next
  split <;> rfl

theorem set_self (s : Gcpu D) (c : Bool) (cpu : Cpu) : (s.set c cpu).cpu c = cpu := by
  unfold Gcpu.set
  dsimp only
  rw [Function.update_self]

theorem set_other (s : Gcpu D) (cpu : Cpu) (h : d ≠ c) : (s.set c cpu).cpu d = s.cpu d := by
  unfold Gcpu.set
  dsimp only
  rw [Function.update_of_ne h]

theorem perCpuStep_self (s : Gcpu D) (c : Bool) (i : Instr D) : (s.perCpuStep c i).cpu c =
    (((s.set c (s.cpu c).fetch).exec c i).cpu c).decIoDoCycle.goOn := set_self _ c _

theorem perCpuStep_other (s : Gcpu D) (i : Instr D) (h : d ≠ c) : (s.perCpuStep c i).cpu d =
    ((s.set c (s.cpu c).fetch).exec c i).cpu d := set_other _ _ h

theorem exec_own_self (s : Gcpu D) (c : Bool) (f : Own D) :
    (s.exec c (.own f)).cpu c = (f.run (s.cpu c) s.dev).1 := set_self s c _

theorem exec_own_other (s : Gcpu D) (f : Own D) (h : d ≠ c) :
    (s.exec c (.own f)).cpu d = s.cpu d := set_other s _ h

/-! ## The dispatch register -/

theorem selects_of_coreId {data : Uint32} (h : coreId data = some d) : selects data d := by
  unfold coreId at h
  split at h
  · cases h
    assumption
  · split at h
    · cases h
      assumption
    · cases h

theorem coreId_of_selects {data : Uint32} (hone : ¬(selects data false ∧ selects data true))
    (h : selects data d) : coreId data = some d := by
  unfold coreId
  cases d with
  | true => exact if_pos h
  | false =>
    have hlow : data &&& 0x1 ≠ 0 := h
    have hhigh : ¬data &&& 0x2 ≠ 0 := fun h2 => hone ⟨h, h2⟩
    rw [if_neg hhigh, if_pos hlow]

theorem ioWriteWord_cpu (s : Gcpu D) (data : Uint32) (d : Bool) : (s.ioWriteWord data).cpu d =
    if coreId data = some d then
      Cpu.interrupted { s.cpu d with ipr := (s.cpu d).ipr ||| ipi0 }
    else s.cpu d := by
  unfold Gcpu.ioWriteWord
  dsimp only
  cases hc : coreId data with
  | none => rw [if_neg nofun]
  | some c =>
    dsimp only
    by_cases hd : d = c
    · subst hd
      rw [if_pos rfl, set_self]
    · rw [if_neg fun h => hd (Option.some.inj h).symm, set_other _ _ hd]

/-- An external interrupt has been taken, and the core goes on at `a` behind it. -/
structure Delivered (cpu cpu' : Cpu) (a : Uint32) : Prop where
  taken : cpu'.taken = cpu.taken + 1
  srr0 : cpu'.core.srr0 = a
  srr1 : cpu'.core.srr1 = cpu.core.msr
  next : cpu'.next = cpu.core.vector 4

/-- No external interrupt has been taken, and nothing else has where EE is clear. -/
structure Left (cpu cpu' : Cpu) : Prop where
  taken : cpu'.taken = cpu.taken
  saved : ¬cpu.Enabled → cpu'.core.srr0 = cpu.core.srr0 ∧ cpu'.core.srr1 = cpu.core.srr1

theorem Left.refl (cpu : Cpu) : Left cpu cpu := ⟨rfl, fun _ => ⟨rfl, rfl⟩⟩

/-- A core that goes on at `npc` is interrupted at a boundary. -/
theorem interrupted_delivered (ipr : Uint32) (h : cpu.next = cpu.core.npc) :
    Delivered cpu (Cpu.interrupted { cpu with ipr := ipr }) cpu.next :=
  ⟨interrupted_taken _, h.symm, rfl, rfl⟩

theorem dispatch_self_delivered (cpu : Cpu) (ipr : Uint32) (gpr : Nat → Uint32) :
    let t := Cpu.interrupted { cpu.fetch with ipr := ipr }
    Delivered cpu (Cpu.decIoDoCycle { t with core := { t.core with gpr := gpr } }).goOn
      (cpu.next + 4) := by
  intro t
  have hdis : ¬Cpu.Enabled { t with core := { t.core with gpr := gpr } } :=
    interrupted_disabled { cpu.fetch with ipr := ipr }
  rw [decIoDoCycle_disabled hdis]
  refine ⟨?_, rfl, rfl, ?_⟩
  · exact interrupted_taken { cpu.fetch with ipr := ipr }
  · rw [goOn_next]
    rfl

theorem dispatch_self_left (cpu : Cpu) (gpr : Nat → Uint32) :
    Left cpu
      (Cpu.decIoDoCycle { cpu.fetch with core := { cpu.fetch.core with gpr := gpr } }).goOn := by
  refine ⟨?_, fun hdis => ?_⟩
  · exact decIoDoCycle_taken { cpu.fetch with core := { cpu.fetch.core with gpr := gpr } }
  · have hdis' : ¬Cpu.Enabled { cpu.fetch with core := { cpu.fetch.core with gpr := gpr } } := hdis
    rw [decIoDoCycle_disabled hdis']
    exact ⟨rfl, rfl⟩

theorem dispatch_cpu {data : Uint32} {gpr : Nat → Uint32}
    (hone : ¬(selects data false ∧ selects data true))
    (hnext : ∀ d, selects data d → d = c ∨ (s.cpu d).next = (s.cpu d).core.npc) (d : Bool) :
    (selects data d → Delivered (s.cpu d) ((s.perCpuStep c (.dispatch data gpr)).cpu d)
      (s.goesOn (.step c (.dispatch data gpr)) d)) ∧
    (¬selects data d → Left (s.cpu d) ((s.perCpuStep c (.dispatch data gpr)).cpu d)) := by
  have hiff : coreId data = some d ↔ selects data d :=
    ⟨selects_of_coreId, coreId_of_selects hone⟩
  by_cases hd : d = c
  · subst hd
    have hstep : (s.perCpuStep d (.dispatch data gpr)).cpu d =
        let t := ((s.set d (s.cpu d).fetch).ioWriteWord data).cpu d
        (Cpu.decIoDoCycle { t with core := { t.core with gpr := gpr } }).goOn := by
      rw [perCpuStep_self, Gcpu.exec, set_self]
    have hgo : s.goesOn (.step d (.dispatch data gpr)) d = (s.cpu d).next + 4 := if_pos rfl
    rw [hstep, hgo, ioWriteWord_cpu, set_self]
    constructor
    · intro hsel
      rw [if_pos (hiff.mpr hsel)]
      exact dispatch_self_delivered (s.cpu d) _ gpr
    · intro hsel
      rw [if_neg fun h => hsel (hiff.mp h)]
      exact dispatch_self_left (s.cpu d) gpr
  · have hstep : (s.perCpuStep c (.dispatch data gpr)).cpu d =
        ((s.set c (s.cpu c).fetch).ioWriteWord data).cpu d := by
      rw [perCpuStep_other _ _ hd, Gcpu.exec, set_other _ _ hd]
    have hgo : s.goesOn (.step c (.dispatch data gpr)) d = (s.cpu d).next := if_neg (Ne.symm hd)
    rw [hstep, hgo, ioWriteWord_cpu, set_other _ _ hd]
    constructor
    · intro hsel
      rw [if_pos (hiff.mpr hsel)]
      exact interrupted_delivered _ ((hnext d hsel).resolve_left hd)
    · intro hsel
      rw [if_neg fun h => hsel (hiff.mp h)]
      exact .refl _

/-! ## The other events -/

theorem own_taken (s : Gcpu D) (c d : Bool) (f : Own D) :
    ((s.perCpuStep c (.own f)).cpu d).taken = (s.cpu d).taken := by
  by_cases hd : d = c
  · subst hd
    rw [perCpuStep_self, exec_own_self]
    refine (decIoDoCycle_taken _).trans ((f.raises _ _).trans ?_)
    rw [set_self]
    rfl
  · rw [perCpuStep_other _ _ hd, exec_own_other _ _ hd, set_other _ _ hd]

theorem own_other (s : Gcpu D) (f : Own D) (h : d ≠ c) :
    (s.perCpuStep c (.own f)).cpu d = s.cpu d := by
  rw [perCpuStep_other _ _ h, exec_own_other _ _ h, set_other _ _ h]

/-- An `rfi` goes on at SRR0, or the decrementer comes first and keeps it. -/
theorem rfi_returns (s : Gcpu D) (c : Bool) (h : (s.cpu c).core.msr &&& msrPr = 0) :
    ((s.perCpuStep c (.own rfi)).cpu c).next = (s.cpu c).core.srr0 &&& 0xFFFFFFFC ∨
      ((s.perCpuStep c (.own rfi)).cpu c).core.raised = (s.cpu c).core.raised ++ [.dec] ∧
        ((s.perCpuStep c (.own rfi)).cpu c).core.srr0 = (s.cpu c).core.srr0 &&& 0xFFFFFFFC := by
  have hrfi : (s.cpu c).fetch.core.ppcOpcRfi = some
      { (s.cpu c).fetch.core.ppcSetMsr ((s.cpu c).core.srr1 &&& msrRfiSaveMask) with
        npc := (s.cpu c).core.srr0 &&& 0xFFFFFFFC } := if_neg (not_not.mpr h)
  rw [perCpuStep_self, exec_own_self, set_self, goOn_next]
  unfold rfi
  dsimp only
  rw [hrfi, Option.getD_some]
  generalize hcpu : Cpu.mk _ _ _ _ _ _ = cpu
  have hcore := congrArg Cpu.core hcpu
  dsimp only at hcore
  rcases decIoDoCycle_core cpu with hdec | ⟨hraised, hsrr0⟩
  · refine .inl ?_
    unfold Cpu.goOn
    dsimp only
    rw [hdec, ← hcore]
  · refine .inr ⟨hraised.trans ?_, hsrr0.trans ?_⟩
    · rw [← hcore]
      rfl
    · rw [← hcore]

theorem io_cpu (read : Option (BitVec 8)) (hnext : (s.cpu false).next = (s.cpu false).core.npc) :
    (s.ioDoCycle read).cpu true = s.cpu true ∧
      ((s.ioDoCycle read).cpu false = s.cpu false ∨
        (s.cpu false).Enabled ∧
          Delivered (s.cpu false) ((s.ioDoCycle read).cpu false) (s.cpu false).next) := by
  unfold Gcpu.ioDoCycle
  dsimp only
  generalize hs' : Gcpu.mk s.cpu _ = s'
  have hcpu : s'.cpu = s.cpu := by rw [← hs']
  split
  · rename_i hdue
    have hee : (s.cpu false).Enabled := by
      unfold Gcpu.uartDue at hdue
      simp only [Bool.and_eq_true, bne_iff_ne] at hdue
      rw [← hcpu]
      exact hdue.1.1.1.2
    have hne : true ≠ false := by decide
    dsimp only
    rw [set_other _ _ hne, set_self, hcpu]
    exact ⟨rfl, .inr ⟨hee, interrupted_delivered _ hnext⟩⟩
  · rw [hcpu]
    exact ⟨rfl, .inl rfl⟩

/-! ## Events -/

theorem meets_io (read : Option (BitVec 8)) (hnext : (s.cpu false).next = (s.cpu false).core.npc) :
    Meets (fun _ => False) s (.io read) (s.step (.io read)) := by
  obtain ⟨htrue, hfalse⟩ := io_cpu read hnext
  have hsame : ((s.step (.io read)).cpu true).taken = (s.cpu true).taken :=
    congrArg Cpu.taken htrue
  have hcore (c : Bool) : (s.step (.io read)).cpu c = s.cpu c ∨
      (s.cpu c).Enabled ∧
        Delivered (s.cpu c) ((s.step (.io read)).cpu c) (s.goesOn (.io read) c) := by
    cases c with
    | true => exact .inl htrue
    | false => exact hfalse
  refine ⟨fun c hc => hc.elim, fun c _ _ hc => ?_, fun _ _ _ => ?_, fun c hc => ?_,
    fun c hdis _ => ?_, fun c hc _ => ?_, nofun⟩
  · cases hc read rfl
    exact hsame
  · rcases hcore false with heq | ⟨-, hdel⟩
    · exact .inl (congrArg Cpu.taken heq)
    · exact .inr hdel.taken
  · rcases hcore c with heq | ⟨hen, -⟩
    · exact absurd (congrArg Cpu.taken heq) hc
    · exact hen
  · rcases hcore c with heq | ⟨hen, -⟩
    · exact ⟨congrArg (·.core.srr0) heq, congrArg (·.core.srr1) heq⟩
    · exact absurd hen hdis
  · rcases hcore c with heq | ⟨-, hdel⟩
    · exact absurd (congrArg Cpu.taken heq) hc
    · exact ⟨hdel.srr0, hdel.srr1, hdel.next⟩

theorem meets_own (f : Own D) :
    Meets (fun _ => False) s (.step c (.own f)) (s.step (.step c (.own f))) := by
  have htaken := own_taken s c
  refine ⟨fun _ hd => hd.elim, fun d _ _ _ => htaken d f, nofun,
    fun d hd => absurd (htaken d f) hd, fun d _ hne => ?_, fun d hd => absurd (htaken d f) hd,
    fun d hev hpr _ => ?_⟩
  · have hd : d ≠ c := fun hdc => hne f (by rw [hdc])
    have heq : (s.step (.step c (.own f))).cpu d = s.cpu d := own_other s f hd
    exact ⟨congrArg (·.core.srr0) heq, congrArg (·.core.srr1) heq⟩
  · cases hev
    exact rfi_returns s c hpr

theorem meets_dispatch {data : Uint32} {gpr : Nat → Uint32} {ran : Bool → Bool} (h : Inv s ran)
    (hok : Proper s ran (.step c (.dispatch data gpr))) :
    Meets (fun _ => False) s (.step c (.dispatch data gpr))
      (s.step (.step c (.dispatch data gpr))) := by
  obtain ⟨hone, hsel⟩ := hok
  have hcpu := @dispatch_cpu D s c data gpr hone fun d hd => (hsel d hd).2.imp_right (h d)
  have hleft (d : Bool) (hd : ¬selects data d) := (hcpu d).2 hd
  have hselected (d : Bool) (hd : ((s.perCpuStep c (.dispatch data gpr)).cpu d).taken ≠
      (s.cpu d).taken) : selects data d :=
    by_contra fun hno => hd (hleft d hno).taken
  refine ⟨fun d hd _ _ => ((hcpu d).1 hd).taken, fun d hd _ _ => (hleft d hd).taken, nofun,
    fun d hd => (hsel d (hselected d hd)).1, fun d hdis _ => ?_, fun d hd _ => ?_, nofun⟩
  · exact (hleft d fun hd => hdis (hsel d hd).1).saved hdis
  · have hdel := (hcpu d).1 (hselected d hd)
    exact ⟨hdel.srr0, hdel.srr1, hdel.next⟩

theorem meets {ran : Bool → Bool} {ev : Event D} (h : Inv s ran) (hok : Proper s ran ev) :
    Meets (fun _ => False) s ev (s.step ev) := by
  cases ev with
  | io read => exact meets_io read (h false hok)
  | step c i =>
    cases i with
    | own f => exact meets_own f
    | dispatch data gpr => exact meets_dispatch h hok

/-- Every event keeps that a core that has made a step goes on at `npc`. -/
theorem inv_step {ran : Bool → Bool} (h : Inv s ran) (ev : Event D) :
    Inv (s.step ev) (ranAfter ran ev) := by
  have hgoes (cpu : Cpu) (ipr : Uint32) :
      (Cpu.interrupted { cpu with ipr := ipr }).next =
        (Cpu.interrupted { cpu with ipr := ipr }).core.npc := rfl
  intro c hc
  cases ev with
  | io read =>
    have hs := h c hc
    unfold Gcpu.step Gcpu.ioDoCycle
    dsimp only
    split
    · cases c with
      | true =>
        have hne : true ≠ false := by decide
        dsimp only
        rw [set_other _ _ hne]
        exact hs
      | false =>
        dsimp only
        rw [set_self]
        exact hgoes _ _
    · exact hs
  | step d i =>
    by_cases hd : c = d
    · subst hd
      unfold Gcpu.step
      dsimp only
      rw [perCpuStep_self]
      exact goOn_next _
    · have hs := h c (by rwa [ranAfter, Function.update_of_ne hd] at hc)
      unfold Gcpu.step
      dsimp only
      rw [perCpuStep_other _ _ hd]
      cases i with
      | own f =>
        rw [exec_own_other _ _ hd, set_other _ _ hd]
        exact hs
      | dispatch data gpr =>
        rw [Gcpu.exec, set_other _ _ hd, ioWriteWord_cpu, set_other _ _ hd]
        split
        · exact hgoes _ _
        · exact hs

end

/-! ## Runs -/

theorem Run.inv {ok : Gcpu D → (Bool → Bool) → Event D → Prop} {s₀ s : Gcpu D}
    {ran : Bool → Bool} (hrun : Run ok s₀ s ran) : Inv s ran := by
  induction hrun with
  | start => exact fun _ h => by cases h
  | step _ ev _ ih => exact inv_step ih ev

/-- In a run whose dispatches go to one core with EE set, every interrupt is delivered once, at a
boundary, nothing is owed, and no other registers are saved over. -/
theorem delivered {s₀ s : Gcpu D} {ran : Bool → Bool} (hrun : Run Proper s₀ s ran)
    {ev : Event D} (hok : Proper s ran ev) : Meets (fun _ => False) s ev (s.step ev) :=
  meets hrun.inv hok

/-- A core after reset with EE set or clear. -/
def atReset (msr : Uint32) : Cpu :=
  ⟨{ E500Core.critical with msr := msr }, 0, 0, 0, 0, false⟩

/-- Both cores. -/
def twoCpus (msr : Uint32) : Gcpu Unit :=
  ⟨fun _ => atReset msr, ⟨⟨0, 0, 0, fun _ => 0⟩, ⟨0, 0, 1, 0⟩, ()⟩⟩

/-- An instruction that only goes on. -/
def nop : Instr Unit := .own ⟨fun cpu dev => (cpu, dev), fun _ _ => rfl⟩

/-- Both cores have made a step. -/
def running (msr : Uint32) : Gcpu Unit :=
  ((twoCpus msr).step (.step false nop)).step (.step true nop)

theorem run_running (ok : Gcpu Unit → (Bool → Bool) → Event Unit → Prop) (msr : Uint32)
    (h₀ : ok (twoCpus msr) (fun _ => false) (.step false nop))
    (h₁ : ok ((twoCpus msr).step (.step false nop))
      (ranAfter (fun _ => false) (.step false nop)) (.step true nop)) :
    ∃ ran, Run ok (twoCpus msr) (running msr) ran ∧ ∀ c, ran c = true :=
  ⟨_, (Run.start.step _ h₀).step _ h₁, fun c => by cases c <;> rfl⟩

theorem delivered_to_one :
    let ev : Event Unit := .step false (.dispatch 0x2 fun _ => 0)
    Meets (fun _ => False) (running 0x8000) ev ((running 0x8000).step ev) ∧
      (((running 0x8000).step ev).cpu true).core.srr0 = 0x1004 := by
  intro ev
  obtain ⟨ran, hrun, hran⟩ := run_running Proper 0x8000 trivial trivial
  refine ⟨delivered hrun ⟨by decide, fun d hd => ?_⟩, by decide⟩
  cases d with
  | false => exact absurd hd (by decide)
  | true => exact ⟨by decide, .inr (hran true)⟩

/-- Core 1, in its handler with EE clear, is interrupted over what it has saved; and where both
cores have EE set and are selected, core 0 is not interrupted. -/
theorem delivered_to_handler :
    (¬∀ (s₀ s : Gcpu Unit) (ran : Bool → Bool), Run (fun _ _ _ => True) s₀ s ran →
      ∀ ev : Event Unit, ∃ owed, Meets owed s ev (s.step ev)) ∧
    let handled : Event Unit := .step false (.dispatch 0x2 fun _ => 0)
    let both : Event Unit := .step false (.dispatch 0x3 fun _ => 0)
    (∀ owed, ¬Meets owed (running 0) handled ((running 0).step handled)) ∧
      ¬Meets (fun _ => False) (running 0x8000) both ((running 0x8000).step both) := by
  have hhandled (owed : Bool → Prop) : ¬Meets owed (running 0)
      (.step false (.dispatch 0x2 fun _ => 0))
      ((running 0).step (.step false (.dispatch 0x2 fun _ => 0))) := fun h =>
    absurd (h.saved true (by decide) nofun).1 (by decide)
  refine ⟨fun h => ?_, hhandled, fun h => ?_⟩
  · obtain ⟨ran, hrun, -⟩ := run_running (fun _ _ _ => True) 0 trivial trivial
    obtain ⟨owed, hmeets⟩ := h _ _ _ hrun (.step false (.dispatch 0x2 fun _ => 0))
    exact hhandled owed hmeets
  · have hselects : selects 0x3 false := by decide
    exact absurd (h.once false hselects (by decide) not_false) (by decide)

end SkyEye.Ppc.Ipi
