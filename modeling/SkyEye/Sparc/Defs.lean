import SkyEye.Sparc.Bits
import Mathlib.Logic.Function.Basic

/-!
# The SPARC integer unit

State, register windows and traps: `iu.h`, `iu.c`, `traps.c` and `memcpy32` of `helper.c`,
with `bus_read` and `bus_write` as `memory.h` calls them. The ins of a window are the outs
of the next one in `regbase`. The last window has no next one: its ins are eight words
behind it, copied from window 0 when it is entered and back when it is left.
-/

namespace SkyEye.Sparc

abbrev nWindows : Nat := 8

/-- `PSR_icc_N`, ... `PSR_CWP_last` and the fields of the TBR. -/
abbrev PSR_impl_last : Nat := 31
abbrev PSR_ver_first : Nat := 24
abbrev PSR_icc_N : Nat := 23
abbrev PSR_icc_Z : Nat := 22
abbrev PSR_icc_V : Nat := 21
abbrev PSR_icc_C : Nat := 20
abbrev PSR_reserved_last : Nat := 19
abbrev PSR_reserved_first : Nat := 14
abbrev PSR_EF : Nat := 12
abbrev PSR_S : Nat := 7
abbrev PSR_PS : Nat := 6
abbrev PSR_ET : Nat := 5
abbrev PSR_CWP_last : Nat := 4
abbrev PSR_CWP_first : Nat := 0
abbrev TBR_BASE_MASK : Uint32 := 0xFFFFF000
abbrev TBR_TT_MASK : Uint32 := 0x00000FF0

/-- `enum regnames`, as far as the code uses the names. -/
abbrev G0 : Nat := 0
abbrev SP : Nat := 14
abbrev O7 : Nat := 15
abbrev L1 : Nat := 17
abbrev L2 : Nat := 18
abbrev FP : Nat := 30

/-- `sparc_state`, with the memory behind the bus: `regwptr` is where `regwptr[1]` points
in `regbase`, `irqPending` is `irq_pending`. -/
structure SparcState (M : Type) where
  global : Nat → Uint32
  regbase : Nat → Uint32
  regwptr : Nat
  fpRegs : Nat → Uint32
  y : Uint32
  psr : Uint32
  wim : Uint32
  tbr : Uint32
  pc : Uint32
  npc : Uint32
  fpsr : Uint32
  irqPending : Bool
  mem : M

namespace SparcState

variable {M : Type} (s : SparcState M)

/-! ## Registers and windows -/

def cwp : Uint32 := bits s.psr PSR_CWP_last PSR_CWP_first

/-- `REG(x)`, read. -/
def reg (x : Nat) : Uint32 := if x > 7 then s.regbase (s.regwptr + (x - 8)) else s.global x

/-- `REG(x) = v` -/
def setReg (x : Nat) (v : Uint32) : SparcState M :=
  if x > 7 then { s with regbase := Function.update s.regbase (s.regwptr + (x - 8)) v }
  else { s with global := Function.update s.global x v }

/-- `memcpy32(regbase + d, regbase + s)` -/
def memcpy32 (d src : Nat) : SparcState M :=
  { s with regbase := fun k => if d ≤ k ∧ k < d + 8 then s.regbase (src + (k - d)) else s.regbase k }

def iuSetCwp (newCwp : Uint32) : SparcState M :=
  let s := if s.cwp.toNat = nWindows - 1 then s.memcpy32 0 (nWindows * 16) else s
  let s := { s with psr := clearBits s.psr PSR_CWP_last PSR_CWP_first ||| newCwp }
  let s := if newCwp.toNat = nWindows - 1 then s.memcpy32 (nWindows * 16) 0 else s
  { s with regwptr := newCwp.toNat * 16 }

/-- `(cwp - 1) & (N_WINDOWS - 1)` -/
def prevCwp : Uint32 := (s.cwp - 1) &&& 7

/-- `(cwp + 1) & (N_WINDOWS - 1)` -/
def nextCwp : Uint32 := (s.cwp + 1) &&& 7

def iuSubCwp : SparcState M :=
  let s := s.setReg 0 0
  s.iuSetCwp s.prevCwp

def iuAddCwp : SparcState M :=
  let s := s.setReg 0 0
  s.iuSetCwp s.nextCwp

/-- `(1 << ncwp) & wim` -/
def invalidWindow (ncwp : Uint32) : Bool := (1#32 <<< ncwp.toNat) &&& s.wim != 0

/-- `PCREG = NPCREG; NPCREG += 4` -/
def advance : SparcState M := { s with pc := s.npc, npc := s.npc + 4 }

/-- The registers as `iu_init_state` leaves them. -/
def iuInitState : SparcState M :=
  let s := { s with
    irqPending := false
    regwptr := 0
    psr := setBit (setBit (setBit (setBit 0 PSR_S) PSR_PS) PSR_ET) PSR_EF
    wim := 0x2 }
  let s := s.setReg FP ((0x40000000 + 0x040000) &&& 0xFFFFFFF0)
  s.setReg SP (s.reg FP - 0x180)

/-! ## Traps -/

/-- The numbers of `traps.h` by which instructions signal traps. -/
abbrev DATA_STORE_ERROR : Int := 1
abbrev PRIVILEGED_INSTR : Int := 6
abbrev ILLEGAL_INSTR : Int := 7
abbrev FP_DISABLED : Int := 8
abbrev WOF : Int := 12
abbrev WUF : Int := 13
abbrev MEM_ADDR_NOT_ALIGNED : Int := 14
abbrev DIV_BY_ZERO : Int := 21

/-- The `tt` column of `tt_table`. -/
def ttTable : List Nat :=
  [0x00, 0x2B, 0x3C, 0x21, 0x20, 0x01, 0x03, 0x02, 0x04, 0x24, 0x25,
    0x0B, 0x05, 0x06, 0x07, 0x08, 0x28, 0x29, 0x2C, 0x09, 0x0A, 0x2A]

/-- `tbr_set_tt`; `tt` is a `uint16`. -/
def tbrSetTt (tt : BitVec 16) : SparcState M :=
  { s with tbr := s.tbr &&& TBR_BASE_MASK ||| tt.setWidth 32 <<< 4 &&& TBR_TT_MASK }

/-- `traps->signal`: a number the table has is an index in it, any other is the `tt`. -/
def signal (trap : Int) : SparcState M :=
  if trap < 0 then s
  else
    let s := match ttTable[trap.toNat]? with
      | none => s.tbrSetTt (BitVec.ofInt 16 trap)
      | some tt => s.tbrSetTt (BitVec.ofNat 16 tt)
    { s with irqPending := true }

/-- `traps->trigger`; none where the simulator exits because traps are disabled. -/
def trigger : Option (SparcState M) :=
  if bit s.psr PSR_ET then
    let s := { s with psr := clearBit s.psr PSR_ET }
    let s := { s with
      psr := if bit s.psr PSR_S then setBit s.psr PSR_PS else clearBit s.psr PSR_PS }
    let s := { s with psr := setBit s.psr PSR_S }
    let s := s.iuSubCwp
    let s := (s.setReg L1 s.pc).setReg L2 s.npc
    some { s with pc := s.tbr, npc := s.tbr + 4 }
  else none

def iuSetPc (addr : Uint32) : SparcState M := { s with pc := addr, npc := addr + 4 }

def iuTrapCycle : Option (SparcState M) :=
  if s.irqPending then s.trigger.map fun s => { s with irqPending := false } else some s

end SparcState

/-! ## The bus -/

/-- What is behind the integer unit. `bankRead` and `bankWrite` are the functions of the
bank found at an address, for the sizes 8, 16 and 32; none where there is no bank. `shl`
and `shr` are what the host makes of `<<` and `>>`, which C defines for counts below 32. -/
structure Host (M : Type) where
  bankRead : M → Nat → Uint32 → Option (Uint32 × M)
  bankWrite : M → Nat → Uint32 → Uint32 → Option M
  shl : Uint32 → Uint32 → Uint32
  shr : Uint32 → Uint32 → Uint32
  shl_of_lt : ∀ x n : Uint32, n.toNat < 32 → shl x n = x <<< n.toNat
  shr_of_lt : ∀ x n : Uint32, n.toNat < 32 → shr x n = x >>> n.toNat

namespace SparcState

variable {M : Type} (h : Host M) (s : SparcState M)

/-- `bus_read(size, addr, &value)`: its status, `value` after it and the state. Where there
is no bank the error is printed, `value` stays as it was and the status is still 0. -/
def busRead (size : Nat) (addr value : Uint32) : Int × Uint32 × SparcState M :=
  match h.bankRead s.mem size addr with
  | some (value, mem) => (0, value, { s with mem := mem })
  | none => (0, value, s)

/-- `bus_write(size, addr, value)`: its status and the state. -/
def busWrite (size : Nat) (addr value : Uint32) : Int × SparcState M :=
  match h.bankWrite s.mem size addr value with
  | some mem => (0, { s with mem := mem })
  | none => (0, s)

end SparcState

/-- Shifts with the count modulo 32, by less than 32. -/
theorem shl_mod_of_lt (x n : Uint32) (hn : n.toNat < 32) :
    x <<< (n.toNat % 32) = x <<< n.toNat := by
  rw [Nat.mod_eq_of_lt hn]

theorem shr_mod_of_lt (x n : Uint32) (hn : n.toNat < 32) :
    x >>> (n.toNat % 32) = x >>> n.toNat := by
  rw [Nat.mod_eq_of_lt hn]

/-- A host without memory, whose shifts take the count modulo 32. -/
def bareHost : Host Unit where
  bankRead _ _ _ := none
  bankWrite _ _ _ _ := none
  shl x n := x <<< (n.toNat % 32)
  shr x n := x >>> (n.toNat % 32)
  shl_of_lt := shl_mod_of_lt
  shr_of_lt := shr_mod_of_lt

/-- `sparc_state` when the program starts: static storage is 0. -/
def staticState {M : Type} (mem : M) : SparcState M where
  global _ := 0
  regbase _ := 0
  regwptr := 0
  fpRegs _ := 0
  y := 0
  psr := 0
  wim := 0
  tbr := 0
  pc := 0
  npc := 0
  fpsr := 0
  irqPending := false
  mem := mem

/-- The state after a reset, with no memory. -/
def resetState : SparcState Unit := (staticState ()).iuInitState

end SkyEye.Sparc
