import SkyEye.Mmu.Ram

/-!
# Processor state

`ARMul_State` of `armdefs.h` with the status bits and modes of `armemu.h`. The
flags are kept apart from `cpsr`, as in the source: `cpsr` is the last value
written, `getCPSR` puts the current one together from the flags.
-/

namespace SkyEye

abbrev RegNo := Fin 16

/-- The register banks, in the order of their source numbers. -/
inductive Bank where
  | user
  | fiq
  | irq
  | svc
  | abort
  | undef
  | dummy
  deriving DecidableEq, Repr

/-- What the emulation loop does next. -/
inductive Emulate where
  | stop
  | changemode
  | once
  | run
  deriving DecidableEq, Repr

/-! ## Status bits -/

def NBIT : ARMword := 0x80000000
def ZBIT : ARMword := 0x40000000
def CBIT : ARMword := 0x20000000
def VBIT : ARMword := 0x10000000
def SBIT : ARMword := 0x08000000
def IBIT : ARMword := 0x80
def TBIT : ARMword := 0x20
def CCBITS : ARMword := 0xf8000000
def INTBITS : ARMword := 0xc0
def MODEBITS : ARMword := 0x1f
def R15INTBITS : ARMword := 0x0c000000
def R15MODEBITS : ARMword := 0x3

/-- `PCBITS` and `R15PCBITS` as `armsupp.c` and `arminit.c` see them (no `MODE32`). -/
def PCBITS : ARMword := 0xfffffffc
def R15PCBITS : ARMword := 0x03fffffc

/-! ## Exception vectors -/

def RESETV : ARMword := 0
def UNDEFINEDINSTRV : ARMword := 4
def SWIV : ARMword := 8
def PREFETCHABORTV : ARMword := 12
def DATAABORTV : ARMword := 16
def ADDREXCEPTNV : ARMword := 20
def IRQV : ARMword := 24
def FIQV : ARMword := 28

/-! ## Ways to start the next instruction -/

def PRIMEPIPE : ARMword := 4

structure State (U : Type) where
  emulate : Emulate
  reg : RegNo → ARMword
  regBank : Bank → RegNo → ARMword
  cpsr : ARMword
  spsr : Bank → ARMword
  nFlag : Bool
  zFlag : Bool
  cFlag : Bool
  vFlag : Bool
  sFlag : Bool
  ifFlags : BitVec 2
  tFlag : Bool
  bank : Bank
  mode : ARMword
  nextInstr : ARMword
  /-- The memory system's signals, `HIGH` as `true`. -/
  abortSig : Bool
  ntransSig : Bool
  bigendSig : Bool
  prog32Sig : Bool
  lateabtSig : Bool
  /-- Sticky flag for aborts: the vector to take, or 0. -/
  aborted : ARMword
  abortAddr : ARMword
  mmu : MmuState U
  isV4 : Bool
  isV5 : Bool
  isV5e : Bool
  isXScale : Bool
  vectorRemapFlag : Bool
  vectorRemapAddr : ARMword

namespace State

variable {U : Type} (s : State U)

def mode32Bit : Bool := SVC26MODE < s.mode
def mode26Bit : Bool := s.mode ≤ SVC26MODE

def insnSize : ARMword := if s.tFlag then 2 else 4

def flushPipe : State U := { s with nextInstr := s.nextInstr ||| PRIMEPIPE }

/-- `state->Reg[r] = v` -/
def setReg (r : RegNo) (v : ARMword) : State U := { s with reg := Function.update s.reg r v }

end State

end SkyEye
