import SkyEye.Sparc.Defs

/-!
# SPARC instructions

The `execute` functions of `src/arch_sparc/instructions`, one for each instruction that
`iu_isa_register` registers. Most are one of a few shapes: an operation on two operands,
a branch on the condition codes, a load, a store, a read or write of a state register.
-/

namespace SkyEye.Sparc

abbrev RegNo := Fin 32

/-- The second operand: `rs2` where `imm` is -1, `imm` where `rs2` is. -/
inductive Operand where
  | reg (rs2 : RegNo)
  | simm13 (imm : BitVec 13)
  deriving DecidableEq

/-- What `disassemble` leaves in `rd`, `rs1`, `rs2` and `imm`. -/
structure Fields where
  rd : RegNo
  rs1 : RegNo
  op2 : Operand
  deriving DecidableEq

/-- The count of a shift. -/
inductive Count where
  | reg (rs2 : RegNo)
  | shcnt (imm : BitVec 5)
  deriving DecidableEq

structure ShiftFields where
  rd : RegNo
  rs1 : RegNo
  count : Count
  deriving DecidableEq

/-- The number of a `ta`: `rs2` or `imm7`. -/
inductive TrapOperand where
  | reg (rs2 : RegNo)
  | imm7 (imm : BitVec 7)
  deriving DecidableEq

/-- `annul` and `disp22` of a branch. -/
structure BranchFields where
  annul : Bool
  disp22 : BitVec 22
  deriving DecidableEq

namespace SparcState

variable {M : Type} (h : Host M) (s : SparcState M)

/-- `REG(rs2)`, or `sign_ext13(imm)` -/
def operand2 : Operand → Uint32
  | .reg rs2 => s.reg rs2
  | .simm13 imm => signExt13 imm

/-- `REG(rs1) + REG(rs2)`, or `REG(rs1) + sign_ext13(imm)` -/
def address (f : Fields) : Uint32 := s.reg f.rs1 + s.operand2 f.op2

/-! ## Condition codes -/

def clearIcc : SparcState M :=
  { s with psr := clearBit (clearBit (clearBit (clearBit s.psr PSR_icc_Z) PSR_icc_N)
      PSR_icc_V) PSR_icc_C }

/-- `if( c ) set_bit(PSRREG, b)` -/
def setIcc (b : Nat) (c : Bool) : SparcState M :=
  if c then { s with psr := setBit s.psr b } else s

/-- `clear_icc`, then Z and N of the result `z`. -/
def iccZN (z : Uint32) : SparcState M :=
  (s.clearIcc.setIcc PSR_icc_Z (z == 0)).setIcc PSR_icc_N (bit z 31)

/-- `psr_get_carry()` -/
def carry : Uint32 := if bit s.psr PSR_icc_C then 1 else 0

/-! ## Logical, shift and arithmetic instructions -/

/-- The instructions that write `rd` with an operation on `REG(rs1)` and the second operand. -/
def operate (op : Uint32 → Uint32 → Uint32) (f : Fields) : SparcState M :=
  (s.setReg f.rd (op (s.reg f.rs1) (s.operand2 f.op2))).advance

def iOr (f : Fields) : SparcState M := s.operate (· ||| ·) f
def iAnd (f : Fields) : SparcState M := s.operate (· &&& ·) f
def iAndn (f : Fields) : SparcState M := s.operate (fun a b => a &&& ~~~b) f
def iOrn (f : Fields) : SparcState M := s.operate (fun a b => a ||| ~~~b) f
def iXor (f : Fields) : SparcState M := s.operate (· ^^^ ·) f
def iXnor (f : Fields) : SparcState M := s.operate (fun a b => a ^^^ ~~~b) f
def iAdd (f : Fields) : SparcState M := s.operate (· + ·) f
def iAddx (f : Fields) : SparcState M := s.operate (fun a b => a + b + s.carry) f
def iSub (f : Fields) : SparcState M := s.operate (· - ·) f
def iSubx (f : Fields) : SparcState M := s.operate (fun a b => a - b - s.carry) f

def iAndcc (f : Fields) : SparcState M :=
  let z := s.reg f.rs1 &&& s.operand2 f.op2
  ((s.setReg f.rd z).iccZN z).advance

def iAndncc (f : Fields) : SparcState M :=
  let z := s.reg f.rs1 &&& ~~~s.operand2 f.op2
  ((s.setReg f.rd z).iccZN z).advance

/-- The register form computes nothing: `z` stays 0 and `rd` is not written. -/
def iOrcc (f : Fields) : SparcState M :=
  match f.op2 with
  | .reg _ => (s.iccZN 0).advance
  | .simm13 imm =>
    let z := s.reg f.rs1 ||| signExt13 imm
    ((s.setReg f.rd z).iccZN z).advance

/-- The signs of the operands are read before `rd` is written. -/
def iAddcc (f : Fields) : SparcState M :=
  let x := s.reg f.rs1
  let y := s.operand2 f.op2
  let z := x + y
  let sm := bit x 31
  let dm := bit y 31
  let rm := bit z 31
  let s := (s.setReg f.rd z).clearIcc
  let s := s.setIcc PSR_icc_C (sm && dm || !rm && (dm || sm))
  let s := s.setIcc PSR_icc_V (sm && dm && !rm || !sm && !dm && rm)
  let s := s.setIcc PSR_icc_Z (z == 0)
  (s.setIcc PSR_icc_N (bit z 31)).advance

/-- `subcc` and `subxcc`: `z` is written to `rd` before `y` is read again from `rs2`. -/
def subtract (z : Uint32) (f : Fields) : SparcState M :=
  let x := s.reg f.rs1
  let s := s.setReg f.rd z
  let y := s.operand2 f.op2
  let sm := bit x 31
  let dm := bit y 31
  let rm := bit z 31
  let s := s.clearIcc
  let s := s.setIcc PSR_icc_N (bit z 31)
  let s := s.setIcc PSR_icc_Z (z == 0)
  let s := s.setIcc PSR_icc_V (sm && !dm && !rm || !sm && dm && rm)
  (s.setIcc PSR_icc_C (!sm && dm || rm && (!sm || dm))).advance

def iSubcc (f : Fields) : SparcState M :=
  s.subtract (s.reg f.rs1 - s.operand2 f.op2) f

def iSubxcc (f : Fields) : SparcState M :=
  s.subtract (s.reg f.rs1 - s.operand2 f.op2 - s.carry) f

/-- `REG(rs2)`, or `imm` -/
def shiftCount : Count → Uint32
  | .reg rs2 => s.reg rs2
  | .shcnt imm => imm.setWidth 32

def iSll (f : ShiftFields) : SparcState M :=
  (s.setReg f.rd (h.shl (s.reg f.rs1) (s.shiftCount f.count))).advance

def iSrl (f : ShiftFields) : SparcState M :=
  (s.setReg f.rd (h.shr (s.reg f.rs1) (s.shiftCount f.count))).advance

/-- The count is read again after `rd` is written. -/
def iSra (f : ShiftFields) : SparcState M :=
  let signBit := bit (s.reg f.rs1) 31
  let s := s.setReg f.rd (h.shr (s.reg f.rs1) (s.shiftCount f.count))
  let c := s.shiftCount f.count
  let s :=
    if signBit then s.setReg f.rd ((0xFFFFFFFF &&& ~~~h.shr 0xFFFFFFFF c) ||| s.reg f.rd) else s
  s.advance

/-- The product is one of 32-bit words, so that `y` gets 0. -/
def multiply (f : Fields) : SparcState M :=
  let result : BitVec 64 := (s.reg f.rs1 * s.operand2 f.op2).setWidth 64
  { s.setReg f.rd (result.setWidth 32) with y := (result >>> 32).setWidth 32 }.advance

def iSmul (f : Fields) : SparcState M := s.multiply f
def iUmul (f : Fields) : SparcState M := s.multiply f

/-- A division by zero is signalled, and the instruction goes on to the next one. -/
def iUdiv (f : Fields) : SparcState M :=
  let dividend : BitVec 64 := s.y.setWidth 64 <<< 32 ||| (s.reg f.rs1).setWidth 64
  let s := match f.op2 with
    | .reg rs2 =>
      if s.reg rs2 = 0 then s.signal DIV_BY_ZERO
      else s.setReg f.rd ((dividend / (s.reg rs2).setWidth 64).setWidth 32)
    | .simm13 imm =>
      if imm = 0 then s.signal DIV_BY_ZERO
      else s.setReg f.rd ((dividend / imm.signExtend 64).setWidth 32)
  s.advance

def iMulscc (f : Fields) : SparcState M :=
  let rrs1 := s.reg f.rs1
  let op1 := clearBit (bits rrs1 31 1) 31
  let op1 := if bit s.psr PSR_icc_N ^^ bit s.psr PSR_icc_V then setBit op1 31 else op1
  let op2 := if bit s.y 0 then s.operand2 f.op2 else 0
  let s := s.setReg f.rd (op1 + op2)
  let s := { s with y := bits s.y 31 1 }
  let s := { s with y := if bit rrs1 0 then setBit s.y 31 else clearBit s.y 31 }
  let s := s.clearIcc
  let z := s.reg f.rd
  let sm := bit op1 31
  let dm := bit op2 31
  let rm := bit z 31
  let s := s.setIcc PSR_icc_N (bit z 31)
  let s := s.setIcc PSR_icc_Z (z == 0)
  let s := s.setIcc PSR_icc_V (sm && dm && !rm || !sm && !dm && rm)
  (s.setIcc PSR_icc_C (sm && dm || !rm && (sm || dm))).advance

def iSethi (rd : RegNo) (imm22 : BitVec 22) : SparcState M :=
  (s.setReg rd (imm22.setWidth 32 <<< 10 &&& 0xFFFFFC00)).advance

def iNop : SparcState M := s.advance

/-- The address that `flush` computes is not used. -/
def iFlush (_f : Fields) : SparcState M := s.advance

/-! ## Control transfer -/

/-- `(disp22 << 10) >> 8` -/
def displacement (f : BranchFields) : Uint32 :=
  (f.disp22.setWidth 32 <<< 10).sshiftRight 8

/-- A branch that is taken where `icc` holds. -/
def branch (icc : Bool) (f : BranchFields) : SparcState M :=
  if icc then { s with pc := s.npc, npc := displacement f + s.pc }
  else if f.annul then { s with pc := s.npc + 4, npc := s.npc + 8 }
  else s.advance

def flagN : Bool := bit s.psr PSR_icc_N
def flagZ : Bool := bit s.psr PSR_icc_Z
def flagV : Bool := bit s.psr PSR_icc_V
def flagC : Bool := bit s.psr PSR_icc_C

def iBne (f : BranchFields) : SparcState M := s.branch (!s.flagZ) f
def iBe (f : BranchFields) : SparcState M := s.branch s.flagZ f
def iBg (f : BranchFields) : SparcState M := s.branch (!(s.flagZ || s.flagN ^^ s.flagV)) f
def iBle (f : BranchFields) : SparcState M := s.branch (s.flagZ || s.flagN ^^ s.flagV) f
def iBge (f : BranchFields) : SparcState M := s.branch (!(s.flagN ^^ s.flagV)) f
def iBl (f : BranchFields) : SparcState M := s.branch (s.flagN ^^ s.flagV) f
def iBgu (f : BranchFields) : SparcState M := s.branch (!(s.flagC || s.flagZ)) f
def iBleu (f : BranchFields) : SparcState M := s.branch (s.flagC || s.flagZ) f
def iBcc (f : BranchFields) : SparcState M := s.branch (!s.flagC) f
def iBcs (f : BranchFields) : SparcState M := s.branch s.flagC f
def iBpos (f : BranchFields) : SparcState M := s.branch (!s.flagN) f
def iBneg (f : BranchFields) : SparcState M := s.branch s.flagN f
def iBvc (f : BranchFields) : SparcState M := s.branch (!s.flagV) f
def iBvs (f : BranchFields) : SparcState M := s.branch s.flagV f

def iBa (f : BranchFields) : SparcState M :=
  if f.annul then
    let s := { s with pc := s.pc + displacement f }
    { s with npc := s.pc + 4 }
  else { s with npc := s.pc + displacement f, pc := s.npc }

def iBn (f : BranchFields) : SparcState M :=
  if f.annul then { s with pc := s.npc + 8, npc := s.npc + 8 } else s.advance

def iCall (disp30 : BitVec 30) : SparcState M :=
  let addr := disp30.setWidth 32 <<< 2
  let s := s.setReg O7 s.pc
  { s with pc := s.npc, npc := addr + s.pc }

def iJmpl (f : Fields) : SparcState M :=
  let daddr := s.address f
  if daddr &&& 3 ≠ 0 then s.signal MEM_ADDR_NOT_ALIGNED
  else
    let s := s.setReg f.rd s.pc
    { s with pc := s.npc, npc := daddr }

/-- The number that `ta` signals: 128 and the sum of two seven-bit numbers. -/
def taNumber (rs1 : RegNo) (op : TrapOperand) : Nat :=
  128 + (bits (s.reg rs1) 6 0).toNat + match op with
    | .reg rs2 => (bits (s.reg rs2) 6 0).toNat
    | .imm7 imm => imm.toNat

def iTa (rs1 : RegNo) (op : TrapOperand) : SparcState M := s.signal (s.taNumber rs1 op)

/-! ## Windows and return from trap -/

def iSave (f : Fields) : SparcState M :=
  let sum := s.address f
  if s.invalidWindow s.prevCwp then s.signal WOF
  else (s.iuSubCwp.setReg f.rd sum).advance

def iRestore (f : Fields) : SparcState M :=
  let sum := s.address f
  if s.invalidWindow s.nextCwp then s.signal WUF
  else (s.iuAddCwp.setReg f.rd sum).advance

/-- The end of `rett`, where it causes no trap itself. -/
def rettTo (daddr : Uint32) : SparcState M :=
  let s := s.iuAddCwp
  let s := { s with pc := s.npc, npc := daddr }
  let s := { s with
    psr := if bit s.psr PSR_PS then setBit s.psr PSR_S else clearBit s.psr PSR_S }
  { s with psr := setBit s.psr PSR_ET }

def iRett (f : Fields) : SparcState M :=
  let daddr := s.address f
  if bit s.psr PSR_ET && !bit s.psr PSR_S then s.signal PRIVILEGED_INSTR
  else if bit s.psr PSR_ET then s.signal ILLEGAL_INSTR
  else if !bit s.psr PSR_S then s.signal PRIVILEGED_INSTR
  else if s.invalidWindow s.nextCwp then s.signal WUF
  else if daddr &&& 3 ≠ 0 then s.signal MEM_ADDR_NOT_ALIGNED
  else s.rettTo daddr

/-! ## State registers -/

/-- The privileged instructions: `PRIVILEGED_INSTR` where `S` is clear. -/
def privileged (body : SparcState M) : SparcState M :=
  if bit s.psr PSR_S then body else s.signal PRIVILEGED_INSTR

def iRdy (rd : RegNo) : SparcState M := (s.setReg rd s.y).advance
def iRdpsr (rd : RegNo) : SparcState M := s.privileged (s.setReg rd s.psr).advance
def iRdwim (rd : RegNo) : SparcState M := s.privileged (s.setReg rd s.wim).advance
def iRdtbr (rd : RegNo) : SparcState M := s.privileged (s.setReg rd s.tbr).advance

def iWry (f : Fields) : SparcState M :=
  { s with y := s.reg f.rs1 ^^^ s.operand2 f.op2 }.advance

def iWrwim (f : Fields) : SparcState M :=
  s.privileged { s with wim := bits (s.reg f.rs1 ^^^ s.operand2 f.op2) (nWindows - 1) 0 }.advance

/-- `imm` is not sign-extended. -/
def iWrtbr (f : Fields) : SparcState M :=
  let value := match f.op2 with
    | .reg rs2 => s.reg f.rs1 ^^^ s.reg rs2
    | .simm13 imm => s.reg f.rs1 ^^^ imm.setWidth 32
  s.privileged { s with tbr := value }.advance

/-- `iu_set_cwp` is called when the PSR has the new `CWP` already. -/
def setPsr (value : Uint32) : SparcState M :=
  let ncwp := bits value PSR_CWP_last PSR_CWP_first
  let value := clearBits value PSR_reserved_last PSR_reserved_first
  let value := clearBits value PSR_impl_last PSR_ver_first
  { s with psr := value }.iuSetCwp ncwp

def iWrpsr (f : Fields) : SparcState M :=
  let value := s.reg f.rs1 ^^^ s.operand2 f.op2
  s.privileged
    (if (bits value PSR_CWP_last PSR_CWP_first).toNat ≥ nWindows then s.signal ILLEGAL_INSTR
    else (s.setPsr value).advance)

/-! ## Loads and stores -/

/-- The loads of one datum: `align` are the address bits that must be 0, `extend` is what
the value goes through, `put` writes the register. -/
def load (size : Nat) (align : Uint32) (extend : Uint32 → Uint32)
    (put : SparcState M → Uint32 → SparcState M) (f : Fields) : SparcState M :=
  let addr := s.address f
  if addr &&& align ≠ 0 then s.signal MEM_ADDR_NOT_ALIGNED
  else
    let (status, value, s) := s.busRead h size addr 0
    let s := put s (extend value)
    if status < 0 then s.signal DATA_STORE_ERROR else s.advance

/-- `FPREG(x) = v` -/
def setFpReg (x : Nat) (v : Uint32) : SparcState M :=
  { s with fpRegs := Function.update s.fpRegs x v }

def iLdsb (f : Fields) : SparcState M :=
  s.load h 8 0 (fun v => if v >>> 7 ≠ 0 then v ||| 0xffffff00 else v) (·.setReg f.rd) f

def iLdsh (f : Fields) : SparcState M :=
  s.load h 16 1 (fun v => if v >>> 15 ≠ 0 then v ||| 0xffff0000 else v) (·.setReg f.rd) f

def iLdub (f : Fields) : SparcState M := s.load h 8 0 id (·.setReg f.rd) f
def iLduh (f : Fields) : SparcState M := s.load h 16 1 id (·.setReg f.rd) f
def iLd (f : Fields) : SparcState M := s.load h 32 3 id (·.setReg f.rd) f

/-- `FP_DISABLED` where `EF` is clear. -/
def iLdf (f : Fields) : SparcState M :=
  if !bit s.psr PSR_EF then s.signal FP_DISABLED
  else s.load h 32 3 id (·.setFpReg f.rd) f

/-- The loads of two words. Both registers are written, and the status is that of the
second read. -/
def loadDouble (put : SparcState M → Nat → Uint32 → SparcState M) (f : Fields) :
    SparcState M :=
  let addr := s.address f
  if addr &&& 7 ≠ 0 then s.signal MEM_ADDR_NOT_ALIGNED
  else if f.rd.val % 2 = 1 then s.signal ILLEGAL_INSTR
  else
    let (_, value, s) := s.busRead h 32 addr 0
    let s := put s f.rd value
    let (status, value, s) := s.busRead h 32 (addr + 4) value
    let s := put s (f.rd + 1) value
    if status < 0 then s.signal DATA_STORE_ERROR else s.advance

def iLdd (f : Fields) : SparcState M := s.loadDouble h setReg f

def iLddf (f : Fields) : SparcState M :=
  if !bit s.psr PSR_EF then s.signal FP_DISABLED else s.loadDouble h setFpReg f

/-- The end of a store: `DATA_STORE_ERROR` where the bus gives an error. -/
def stored (r : Int × SparcState M) : SparcState M :=
  if r.1 < 0 then r.2.signal DATA_STORE_ERROR else r.2.advance

/-- The stores of one datum; `align` as in `load`. -/
def store (size : Nat) (align data : Uint32) (f : Fields) : SparcState M :=
  let addr := s.address f
  if addr &&& align ≠ 0 then s.signal MEM_ADDR_NOT_ALIGNED
  else stored (s.busWrite h size addr data)

def iStb (f : Fields) : SparcState M := s.store h 8 0 (s.reg f.rd &&& 0x000000ff) f
def iSth (f : Fields) : SparcState M := s.store h 16 1 (s.reg f.rd &&& 0x0000ffff) f
def iSt (f : Fields) : SparcState M := s.store h 32 3 (s.reg f.rd &&& 0xffffffff) f

/-- `FP_DISABLED` where `EF` is set, unlike the loads. -/
def iStf (f : Fields) : SparcState M :=
  if bit s.psr PSR_EF then s.signal FP_DISABLED
  else s.store h 32 3 (s.fpRegs f.rd &&& 0xffffffff) f

/-- As `iStf`. -/
def iStfsr (f : Fields) : SparcState M :=
  if bit s.psr PSR_EF then s.signal FP_DISABLED
  else s.store h 32 3 (s.fpsr &&& 0xffffffff) f

/-- The two writes of `std` and `stdf`; the status is that of the second. -/
def storeTwice (addr data data' : Uint32) : SparcState M :=
  let (_, s) := s.busWrite h 32 addr data
  stored (s.busWrite h 32 (addr + 4) data')

/-- In the immediate form the address is checked, but what is stored to is the outer
`addr`, which is still 0. -/
def iStd (f : Fields) : SparcState M :=
  if f.rd.val % 2 = 1 then s.signal ILLEGAL_INSTR
  else if s.address f &&& 7 ≠ 0 then s.signal MEM_ADDR_NOT_ALIGNED
  else
    let addr := match f.op2 with
      | .reg _ => s.address f
      | .simm13 _ => 0
    s.storeTwice h addr (s.reg f.rd &&& 0xffffffff) (s.reg (f.rd + 1) &&& 0xffffffff)

def iStdf (f : Fields) : SparcState M :=
  if bit s.psr PSR_EF then s.signal FP_DISABLED
  else if f.rd.val % 2 = 1 then s.signal ILLEGAL_INSTR
  else if s.address f &&& 7 ≠ 0 then s.signal MEM_ADDR_NOT_ALIGNED
  else
    s.storeTwice h (s.address f) (s.fpRegs f.rd &&& 0xffffffff)
      (s.fpRegs (f.rd + 1) &&& 0xffffffff)

end SparcState

/-! ## The instruction set -/

/-- The instructions that `iu_isa_register` registers, with what `disassemble` takes from
the instruction word. -/
inductive Instr where
  | nop
  | or (f : Fields)
  | and (f : Fields)
  | andn (f : Fields)
  | orn (f : Fields)
  | xor (f : Fields)
  | xnor (f : Fields)
  | orcc (f : Fields)
  | andcc (f : Fields)
  | andncc (f : Fields)
  | sll (f : ShiftFields)
  | srl (f : ShiftFields)
  | sra (f : ShiftFields)
  | add (f : Fields)
  | addx (f : Fields)
  | addcc (f : Fields)
  | sub (f : Fields)
  | subx (f : Fields)
  | subcc (f : Fields)
  | subxcc (f : Fields)
  | stb (f : Fields)
  | sth (f : Fields)
  | st (f : Fields)
  | std (f : Fields)
  | sethi (rd : RegNo) (imm22 : BitVec 22)
  | jmpl (f : Fields)
  | wry (f : Fields)
  | wrpsr (f : Fields)
  | wrwim (f : Fields)
  | wrtbr (f : Fields)
  | rdy (rd : RegNo)
  | rdpsr (rd : RegNo)
  | rdwim (rd : RegNo)
  | rdtbr (rd : RegNo)
  | ldsb (f : Fields)
  | ldsh (f : Fields)
  | ldub (f : Fields)
  | lduh (f : Fields)
  | ld (f : Fields)
  | ldd (f : Fields)
  | ba (f : BranchFields)
  | bn (f : BranchFields)
  | bne (f : BranchFields)
  | be (f : BranchFields)
  | bg (f : BranchFields)
  | ble (f : BranchFields)
  | bge (f : BranchFields)
  | bl (f : BranchFields)
  | bgu (f : BranchFields)
  | bleu (f : BranchFields)
  | bcc (f : BranchFields)
  | bcs (f : BranchFields)
  | bpos (f : BranchFields)
  | bneg (f : BranchFields)
  | bvc (f : BranchFields)
  | bvs (f : BranchFields)
  | flush (f : Fields)
  | save (f : Fields)
  | restore (f : Fields)
  | ldf (f : Fields)
  | lddf (f : Fields)
  | call (disp30 : BitVec 30)
  | rett (f : Fields)
  | ta (rs1 : RegNo) (op : TrapOperand)
  | stf (f : Fields)
  | stdf (f : Fields)
  | stfsr (f : Fields)
  | udiv (f : Fields)
  | smul (f : Fields)
  | umul (f : Fields)
  | mulscc (f : Fields)
  deriving DecidableEq

namespace SparcState

variable {M : Type} (h : Host M) (s : SparcState M)

/-- The `execute` of each instruction. -/
def execute : Instr → SparcState M
  | .nop => s.iNop
  | .or f => s.iOr f
  | .and f => s.iAnd f
  | .andn f => s.iAndn f
  | .orn f => s.iOrn f
  | .xor f => s.iXor f
  | .xnor f => s.iXnor f
  | .orcc f => s.iOrcc f
  | .andcc f => s.iAndcc f
  | .andncc f => s.iAndncc f
  | .sll f => s.iSll h f
  | .srl f => s.iSrl h f
  | .sra f => s.iSra h f
  | .add f => s.iAdd f
  | .addx f => s.iAddx f
  | .addcc f => s.iAddcc f
  | .sub f => s.iSub f
  | .subx f => s.iSubx f
  | .subcc f => s.iSubcc f
  | .subxcc f => s.iSubxcc f
  | .stb f => s.iStb h f
  | .sth f => s.iSth h f
  | .st f => s.iSt h f
  | .std f => s.iStd h f
  | .sethi rd imm22 => s.iSethi rd imm22
  | .jmpl f => s.iJmpl f
  | .wry f => s.iWry f
  | .wrpsr f => s.iWrpsr f
  | .wrwim f => s.iWrwim f
  | .wrtbr f => s.iWrtbr f
  | .rdy rd => s.iRdy rd
  | .rdpsr rd => s.iRdpsr rd
  | .rdwim rd => s.iRdwim rd
  | .rdtbr rd => s.iRdtbr rd
  | .ldsb f => s.iLdsb h f
  | .ldsh f => s.iLdsh h f
  | .ldub f => s.iLdub h f
  | .lduh f => s.iLduh h f
  | .ld f => s.iLd h f
  | .ldd f => s.iLdd h f
  | .ba f => s.iBa f
  | .bn f => s.iBn f
  | .bne f => s.iBne f
  | .be f => s.iBe f
  | .bg f => s.iBg f
  | .ble f => s.iBle f
  | .bge f => s.iBge f
  | .bl f => s.iBl f
  | .bgu f => s.iBgu f
  | .bleu f => s.iBleu f
  | .bcc f => s.iBcc f
  | .bcs f => s.iBcs f
  | .bpos f => s.iBpos f
  | .bneg f => s.iBneg f
  | .bvc f => s.iBvc f
  | .bvs f => s.iBvs f
  | .flush f => s.iFlush f
  | .save f => s.iSave f
  | .restore f => s.iRestore f
  | .ldf f => s.iLdf h f
  | .lddf f => s.iLddf h f
  | .call disp30 => s.iCall disp30
  | .rett f => s.iRett f
  | .ta rs1 op => s.iTa rs1 op
  | .stf f => s.iStf h f
  | .stdf f => s.iStdf h f
  | .stfsr f => s.iStfsr h f
  | .udiv f => s.iUdiv f
  | .smul f => s.iSmul f
  | .umul f => s.iUmul f
  | .mulscc f => s.iMulscc f

/-- `iu_cycle_step` from the decoded instruction on. -/
def iuCycleStep (i : Instr) : SparcState M := (s.execute h i).setReg G0 0

end SparcState

end SkyEye.Sparc
