import SkyEye.Lib.Word
import SkyEye.Sparc.Bits

/-!
# The e500 core

`e500_core_t` with its TLBs, `ppc_exception` of `ppc_e500_exc.c` and the address translation
of `ppc_mmu.c`. The walk over the TLBs runs one index past the second one; what lies behind
it, read as an entry, is a parameter.
-/

namespace SkyEye.Ppc

open Sparc (Uint32)

abbrev l2Tlb0Size : Nat := 256
abbrev l2Tlb1Size : Nat := 16

/-- The access flags `PPC_MMU_READ`, `PPC_MMU_WRITE` and `PPC_MMU_CODE`. -/
abbrev mmuRead : Nat := 1
abbrev mmuWrite : Nat := 2
abbrev mmuCode : Nat := 4

/-- `ppc_tlb_entry_t` -/
structure TlbEntry where
  v : Uint32
  ts : Uint32
  tid : Uint32
  epn : Uint32
  rpn : Uint32
  size : Uint32
  usxrw : Uint32
  wimge : Uint32
  x : Uint32
  u : Uint32
  iprot : Uint32

/-- `e500_mmu_t` -/
structure E500Mmu where
  pid : Fin 3 → BitVec 64
  mas : Nat → BitVec 64
  tlb0Nv : Uint32
  l2Tlb0_4k : Fin l2Tlb0Size → TlbEntry
  l2Tlb1Vsp : Fin l2Tlb1Size → TlbEntry

/-- The exception types of `ppc_e500_exc.h`. -/
inductive ExcType where
  | criInput
  | machCheck
  | dataSt
  | insnSt
  | extInt
  | align
  | prog
  | fpUn
  | syscall
  | apUn
  | dec
  | fit
  | wd
  | dataTlb
  | insnTlb
  | debug
  deriving DecidableEq, Repr

/-- The value of the enumeration. -/
def ExcType.number : ExcType → Nat
  | .criInput => 0
  | .machCheck => 1
  | .dataSt => 2
  | .insnSt => 3
  | .extInt => 4
  | .align => 5
  | .prog => 6
  | .fpUn => 7
  | .syscall => 8
  | .apUn => 9
  | .dec => 10
  | .fit => 11
  | .wd => 12
  | .dataTlb => 13
  | .insnTlb => 14
  | .debug => 15

/-- `e500_core_t`, with the memory and the devices behind the bus. `raised` and `written` keep
the exceptions raised and the addresses written so far; nothing reads them. -/
structure E500Core (M : Type) where
  gpr : Nat → Uint32
  fpr : Nat → BitVec 64
  cr : Uint32
  xer : Uint32
  msr : Uint32
  srr0 : Uint32
  srr1 : Uint32
  pc : Uint32
  npc : Uint32
  currentOpc : Uint32
  reserve : Uint32
  haveReservation : Bool
  esr : Uint32
  dear : Uint32
  tsr : Uint32
  ivpr : Uint32
  ivor : Nat → Uint32
  mmu : E500Mmu
  mem : M
  raised : List ExcType
  written : List Uint32

namespace E500Core

variable {M : Type} (s : E500Core M)

/-- `gpr[n] = v` -/
def setGpr (n : Nat) (v : Uint32) : E500Core M := { s with gpr := Function.update s.gpr n v }

/-! ## Exceptions -/

/-- SRR0, SRR1 and MSR for an exception that goes back to `srr0`. -/
def saveMsr (srr0 mask : Uint32) : E500Core M :=
  { s with srr0 := srr0, srr1 := s.msr, msr := s.msr &&& mask }

/-- The MAS registers after a TLB miss at `a`; `valid` is where the V bit of MAS1 is set. -/
def missMas (a : Uint32) (valid : Bool) : Nat → BitVec 64 :=
  let mas := s.mmu.mas
  let mas := Function.update mas 0 ((mas 4 &&& 0x10000000) ||| (mas 0 &&& ~~~0x10000000))
  let mas :=
    if (mas 4 &&& 0x10000000) >>> 28 = 0 then
      let mas := Function.update mas 0
        ((s.mmu.tlb0Nv <<< 18).setWidth 64 ||| (mas 0 &&& 0xFFF0FFFF))
      Function.update mas 0 ((~~~s.mmu.tlb0Nv &&& 0x3).setWidth 64 ||| (mas 0 &&& 0xFFFFFFFC))
    else mas
  let mas := Function.update mas 3 (mas 3 &&& 0xFFFFFC00)
  let mas := Function.update mas 3 (mas 3 &&& 0xFFF)
  let mas := Function.update mas 2 ((a &&& 0xFFFFF000).setWidth 64 ||| (mas 2 &&& 0xFFF))
  let mas := Function.update mas 1 ((mas 4 &&& 0xF00) ||| (mas 1 &&& 0xFFFFF0FF))
  let mas := Function.update mas 1 ((mas 1 &&& 0xFF00FFFF) ||| ((s.mmu.pid 0 &&& 0xFF) <<< 16))
  let mas := if valid then Function.update mas 1 (mas 1 ||| 0x80000000) else mas
  Function.update mas 6 ((mas 6 &&& 0xFF00FFFF) ||| ((s.mmu.pid 0 &&& 0xFF) <<< 16))

/-- The lines of a TLB miss that update them. -/
def updateMas (a : Uint32) (valid : Bool) : E500Core M :=
  { s with mmu := { s.mmu with mas := s.missMas a valid } }

/-- The vector of the exception with the number `n`. -/
def vector (n : Nat) : Uint32 := (s.ivpr &&& 0xFFFF0000) ||| (s.ivor n &&& 0xFFF0)

/-- The cases of `DATA_ST`, and of `CRI_INPUT` and `MACH_CHECK`, which fall into it. -/
def storageException (a : Uint32) : E500Core M :=
  { s.saveMsr s.pc 0x21200 with esr := 0x00800000, dear := a }

/-- The case of `DATA_TLB`. -/
def dataTlbException (flags : Nat) (a : Uint32) : E500Core M :=
  { ({ s.saveMsr s.pc 0x21200 with dear := a } : E500Core M).updateMas a true with
    esr := if flags = mmuWrite then 0x00800000 else 0 }

/-- The `switch` of `ppc_exception`; none where the simulator exits. -/
def exceptionCase (type : ExcType) (flags : Nat) (a : Uint32) : Option (E500Core M) :=
  match type with
  | .criInput => some (s.storageException a)
  | .machCheck => some (s.storageException a)
  | .dataSt => some (s.storageException a)
  | .extInt => some (s.saveMsr s.npc 0x21200)
  | .syscall => some (s.saveMsr s.npc (~~~0x2E930))
  | .dec => some { s.saveMsr s.npc 0x21200 with tsr := s.tsr ||| 0x8000000 }
  | .dataTlb => some (s.dataTlbException flags a)
  | .insnTlb => some ((s.saveMsr s.pc 0x21200).updateMas a false)
  | _ => none

def ppcException (type : ExcType) (flags : Nat) (a : Uint32) : Option (E500Core M) :=
  (s.exceptionCase type flags a).map fun t =>
    { t with npc := t.vector type.number, raised := t.raised ++ [type] }

end E500Core

/-! ## The translation -/

/-- The loop over `k` for a page of TLB1: `s`, an `int` that wraps. -/
def pageUnits : Nat → Uint32
  | 0 => 1
  | k + 1 => pageUnits k * 4

/-- The mask of a page of TLB1. -/
def pageMask (size : Uint32) : Uint32 := ~~~(1024 * (pageUnits size.toNat - 1) - 0x1 + 1024)

/-- What a lookup comes to. -/
inductive Access where
  | ok (pa : Uint32)
  | exc (type : ExcType)
  deriving DecidableEq, Repr

namespace E500Core

variable {M : Type} (behind : TlbEntry) (s : E500Core M)

/-- The entry of the walk at `i`: of TLB0, of TLB1, or behind it. -/
def entryAt (i : Nat) : TlbEntry :=
  if h0 : i < l2Tlb0Size then s.mmu.l2Tlb0_4k ⟨i, h0⟩
  else if h1 : i - l2Tlb0Size < l2Tlb1Size then s.mmu.l2Tlb1Vsp ⟨i - l2Tlb0Size, h1⟩
  else behind

/-- The mask of the walk at `i`. -/
def maskAt (i : Nat) : Uint32 :=
  if i > l2Tlb0Size - 1 then pageMask (s.entryAt behind i).size else ~~~(1024 * 4 - 0x1)

/-- The write bit of the entry for the mode of the core. -/
def writeDenied (entry : TlbEntry) : Bool :=
  if s.msr &&& 0x4000 ≠ 0 then entry.usxrw &&& 0x8 == 0 else entry.usxrw &&& 0x4 == 0

/-- The body of the loop of `ppc_effective_to_physical`; none is `continue`. -/
def examine (addr : Uint32) (flags i : Nat) : Option Access :=
  let entry := s.entryAt behind i
  if entry.v = 0 then none
  else if entry.ts &&& 0x0 ≠ 0 then none
  else if entry.tid ≠ 0 ∧ s.mmu.pid 0 ≠ entry.tid.setWidth 64 then none
  else
    let mask := s.maskAt behind i
    if entry.size ≠ 0xB then
      if addr &&& mask ≠ (entry.epn <<< 12) &&& mask then none
      else if flags = mmuWrite ∧ s.writeDenied entry = true then some (.exc .dataSt)
      else some (.ok ((entry.rpn <<< 12) ||| (addr &&& ~~~mask)))
    else
      if addr < entry.epn <<< 12 then none
      else some (.ok ((entry.rpn <<< 12) ||| (addr - (entry.epn <<< 12))))

/-- The loop over the indices: the ones it examines, and where it returns. -/
def walk (addr : Uint32) (flags : Nat) : List Nat → List Nat × Option Access
  | [] => ([], none)
  | i :: is =>
    match s.examine behind addr flags i with
    | some r => ([i], some r)
    | none => (i :: (walk addr flags is).1, (walk addr flags is).2)

/-- The values of `i` in the loop, which counts before its body. -/
def walkIndices : List Nat := (List.range (l2Tlb0Size + l2Tlb1Size)).map (· + 1)

/-- The lookup of `ppc_effective_to_physical`. -/
def lookup (addr : Uint32) (flags : Nat) : Access :=
  match (s.walk behind addr flags walkIndices).2 with
  | some r => r
  | none => .exc (if flags = mmuCode then .insnTlb else .dataTlb)

/-- The indices that the lookup examines. -/
def examined (addr : Uint32) (flags : Nat) : List Nat :=
  (s.walk behind addr flags walkIndices).1

/-- The boot page is translated: `bptr` is a register of the system. -/
def inBootPage (bptr addr : Uint32) : Bool := bptr &&& 0x80000000 != 0 && addr >>> 12 == 0xFFFFF

/-- `ppc_effective_to_physical`: the physical address, or none behind an exception; none
outside where the simulator exits. -/
def effectiveToPhysical (bptr addr : Uint32) (flags : Nat) :
    Option (Option Uint32 × E500Core M) :=
  if inBootPage bptr addr then some (some ((addr &&& 0xFFF) ||| (bptr <<< 12)), s)
  else
    match s.lookup behind addr flags with
    | .ok pa => some (some pa, s)
    | .exc type => (s.ppcException type flags addr).map fun s => (none, s)

end E500Core

end SkyEye.Ppc
