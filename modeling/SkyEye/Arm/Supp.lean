import SkyEye.Arm.Defs

/-!
# Support routines

`armsupp.c`: the program status register, the register banks and the moves
between processor modes. `switchMode` saves and restores the banked registers;
`cpsrAltered` is the single place where a write of `cpsr` takes effect.
-/

namespace SkyEye

def modeToBank (mode : ARMword) : Bank :=
  match mode.toNat with
  | 0 | 16 => .user
  | 1 | 17 => .fiq
  | 2 | 18 => .irq
  | 3 | 19 => .svc
  | 23 => .abort
  | 27 => .undef
  | 31 => .user
  | _ => .dummy

/-- `BANK_CAN_ACCESS_SPSR` -/
def Bank.canAccessSpsr (b : Bank) : Bool := b != .user && b != .dummy

/-- Registers `lo` up to but not including `hi` come from `src`, the others stay. -/
def copyRegs (lo hi : Nat) (src dst : RegNo → ARMword) : RegNo → ARMword :=
  fun r => if lo ≤ r.val ∧ r.val < hi then src r else dst r

/-- Registers `lo` up to but not including `hi` of `src` saved in the row of bank `b`. -/
def saveRegs (lo hi : Nat) (src : RegNo → ARMword) (b : Bank) (rb : Bank → RegNo → ARMword) :
    Bank → RegNo → ARMword :=
  Function.update rb b (copyRegs lo hi src (rb b))

namespace State

variable {U : Type} (s : State U)

/-! ## The program status register -/

def ecc : ARMword :=
  toWord s.nFlag <<< 31 ||| toWord s.zFlag <<< 30 ||| toWord s.cFlag <<< 29 |||
    toWord s.vFlag <<< 28 ||| toWord s.sFlag <<< 27

def eint : ARMword := s.ifFlags.setWidth 32 <<< 6

def er15int : ARMword := s.ifFlags.setWidth 32 <<< 26

def r15pc : ARMword := s.reg 15 &&& R15PCBITS

def r15mode : ARMword := s.reg 15 &&& R15MODEBITS

def r15ccintmode : ARMword := s.reg 15 &&& (CCBITS ||| R15INTBITS ||| R15MODEBITS)

def getCPSR : ARMword := s.ecc ||| s.eint ||| s.mode ||| toWord s.tFlag <<< 5

def getPC : ARMword := if s.mode32Bit then s.reg 15 else s.r15pc

/-! ## The register banks -/

/-- Save away the registers of `oldbank`. -/
def saveBank (oldbank newbank : Bank) : State U :=
  match oldbank with
  | .user | .irq | .svc | .abort | .undef =>
    let rb := if newbank = .fiq then saveRegs 8 13 s.reg .user s.regBank else s.regBank
    { s with regBank := saveRegs 13 15 s.reg oldbank rb }
  | .fiq => { s with regBank := saveRegs 8 15 s.reg .fiq s.regBank }
  | .dummy => { s with regBank := saveRegs 8 15 (fun _ => 0) .dummy s.regBank }

/-- Restore the registers of `newbank`. -/
def restoreBank (oldbank newbank : Bank) : State U :=
  match newbank with
  | .user | .irq | .svc | .abort | .undef =>
    let r := if oldbank = .fiq then copyRegs 8 13 (s.regBank .user) s.reg else s.reg
    { s with reg := copyRegs 13 15 (s.regBank newbank) r }
  | .fiq => { s with reg := copyRegs 8 15 (s.regBank .fiq) s.reg }
  | .dummy => { s with reg := copyRegs 8 15 (fun _ => 0) s.reg }

/-- `ARMul_SwitchMode`; the new mode it returns is its argument. -/
def switchMode (oldmode newmode : ARMword) : State U :=
  let oldbank := modeToBank oldmode
  let newbank := modeToBank newmode
  let s := { s with bank := newbank }
  if oldbank ≠ newbank then (s.saveBank oldbank newbank).restoreBank oldbank newbank else s

/-- `state->Mode = ARMul_SwitchMode (state, state->Mode, mode)` with the signal that
tells the memory system about the privilege. -/
def changeMode (mode : ARMword) : State U :=
  { s.switchMode s.mode mode with mode := mode, ntransSig := mode &&& 3 != 0 }

/-! ## Writes of the status registers -/

/-- The flags of `state->Cpsr` that `ARMul_CPSRAltered` copies out. -/
def assignFlags : State U :=
  { s with
    ifFlags := ((s.cpsr &&& INTBITS) >>> 6).setWidth 2
    nFlag := s.cpsr &&& NBIT != 0
    zFlag := s.cpsr &&& ZBIT != 0
    cFlag := s.cpsr &&& CBIT != 0
    vFlag := s.cpsr &&& VBIT != 0
    sFlag := s.cpsr &&& SBIT != 0
    tFlag := s.cpsr &&& TBIT != 0 }

/-- `ECC | ER15INT | EMODE | R15PC`: register 15 of a 26-bit mode. -/
def packR15 : ARMword := s.ecc ||| s.er15int ||| s.mode ||| s.r15pc

/-- The last part of `ARMul_CPSRAltered`: register 15 after a move between 26-bit and
32-bit modes. -/
def fixR15 (oldmode : ARMword) : State U :=
  if SVC26MODE < oldmode then
    if s.mode ≤ SVC26MODE then { s.setReg 15 s.packR15 with emulate := .changemode } else s
  else if SVC26MODE < s.mode then { s.setReg 15 s.r15pc with emulate := .changemode }
  else s.setReg 15 s.packR15

def cpsrAltered : State U :=
  let s := if s.prog32Sig then s else
    { s with cpsr := s.cpsr &&& (CCBITS ||| INTBITS ||| R15MODEBITS) }
  let oldmode := s.mode
  let s := if s.mode ≠ s.cpsr &&& MODEBITS then s.changeMode (s.cpsr &&& MODEBITS) else s
  s.assignFlags.fixR15 oldmode

def setCPSR (value : ARMword) : State U := cpsrAltered { s with cpsr := value }

def getSPSR (mode : ARMword) : ARMword :=
  let bank := modeToBank (mode &&& MODEBITS)
  if bank.canAccessSpsr then s.spsr bank else s.getCPSR

def setSPSR (mode value : ARMword) : State U :=
  let bank := modeToBank (mode &&& MODEBITS)
  if bank.canAccessSpsr then { s with spsr := Function.update s.spsr bank value } else s

/-- The bytes of `rhs` that the field mask (bits 16 to 19) of an `MSR` selects over `old`. -/
def psrFields (instr old rhs : ARMword) (privileged : Bool) : ARMword :=
  let put (bit : Nat) (mask psr : ARMword) : ARMword :=
    if instr.getLsbD bit then (psr &&& ~~~mask) ||| (rhs &&& mask) else psr
  let psr :=
    if privileged then put 18 0x00ff0000 (put 17 0x0000ff00 (put 16 0x000000ff old)) else old
  put 19 0xff000000 psr

def fixCPSR (instr rhs : ARMword) : State U :=
  cpsrAltered { s with
    cpsr := psrFields instr s.getCPSR rhs (s.mode != USER26MODE && s.mode != USER32MODE) }

def fixSPSR (instr rhs : ARMword) : State U :=
  if s.bank.canAccessSpsr then
    { s with spsr := Function.update s.spsr s.bank (psrFields instr (s.spsr s.bank) rhs true) }
  else s

/-! ## Register 15 -/

def r15Altered : State U :=
  let s := if s.mode ≠ s.r15mode then s.changeMode s.r15mode else s
  let s := if SVC26MODE < s.mode then { s with emulate := .changemode } else s
  { s with
    ifFlags := ((s.reg 15 &&& R15INTBITS) >>> 26).setWidth 2
    nFlag := s.reg 15 &&& NBIT != 0
    zFlag := s.reg 15 &&& ZBIT != 0
    cFlag := s.reg 15 &&& CBIT != 0
    vFlag := s.reg 15 &&& VBIT != 0 }

def setR15 (value : ARMword) : State U :=
  flushPipe <|
    if s.mode32Bit then s.setReg 15 (value &&& PCBITS) else (s.setReg 15 value).r15Altered

end State

end SkyEye

/-!
## Instructions that write register 15

`WriteR15`, `WriteSR15` and `WriteR15Branch` of `armemu32.c`, where `PCBITS` is all
ones: only the instruction set's alignment bits are dropped.
-/

namespace SkyEye.State

variable {U : Type} (s : State U)

/-- `src` less the bits that the program counter of the current instruction set lacks. -/
def alignPC (src : ARMword) : ARMword :=
  if s.tFlag then src &&& 0xfffffffe else src &&& 0xfffffffc

def writeR15 (src : ARMword) : State U :=
  flushPipe (s.setReg 15 (s.alignPC src))

/-- The exception return: outside user bank, the status register comes back from the SPSR. -/
def writeSR15 (src : ARMword) : State U :=
  let s := if s.bank ≠ .user then cpsrAltered { s with cpsr := s.spsr s.bank } else s
  flushPipe (s.setReg 15 (s.alignPC src))

/-- The interworking branch: bit 0 selects the instruction set. -/
def writeR15Branch (src : ARMword) : State U :=
  let s :=
    if src &&& 1 != 0 then { s.setReg 15 (src &&& 0xfffffffe) with tFlag := true }
    else { s.setReg 15 (src &&& 0xfffffffc) with tFlag := false }
  flushPipe { s with cpsr := s.getCPSR }

end SkyEye.State
