import SkyEye.Arm.Operands

/-!
# Data processing and multiplication

The cases `0x00` to `0x3f` of the main switch of `ARMul_Emulate32` that compute: the
sixteen operations with a register or an immediate operand, and `MUL` and `MLA`. Logical
operations take the carry flag from the shifter (`dpsRegRHS`), arithmetic ones from the
result, and these read the left operand before the right one is evaluated.
-/

namespace SkyEye

/-- The operations, in the order of `BITS (21, 24)`. -/
inductive DpOp where
  | and
  | eor
  | sub
  | rsb
  | add
  | adc
  | sbc
  | rsc
  | tst
  | teq
  | cmp
  | cmn
  | orr
  | mov
  | bic
  | mvn
  deriving DecidableEq, Repr

namespace DpOp

def ofInstr (instr : ARMword) : DpOp :=
  match bits instr 21 24 with
  | 0 => and
  | 1 => eor
  | 2 => sub
  | 3 => rsb
  | 4 => add
  | 5 => adc
  | 6 => sbc
  | 7 => rsc
  | 8 => tst
  | 9 => teq
  | 10 => cmp
  | 11 => cmn
  | 12 => orr
  | 13 => mov
  | 14 => bic
  | _ => mvn

/-- `dest`; `c` is the carry flag. -/
def value (lhs rhs : ARMword) (c : Bool) : DpOp → ARMword
  | and | tst => lhs &&& rhs
  | eor | teq => lhs ^^^ rhs
  | sub | cmp => lhs - rhs
  | rsb => rhs - lhs
  | add | cmn => lhs + rhs
  | adc => lhs + rhs + toWord c
  | sbc => lhs - rhs - toWord (!c)
  | rsc => rhs - lhs - toWord (!c)
  | orr => lhs ||| rhs
  | mov => rhs
  | bic => lhs &&& ~~~rhs
  | mvn => ~~~rhs

/-- The operations that have no destination. -/
def isTest : DpOp → Bool
  | tst | teq | cmp | cmn => true
  | _ => false

def isLogical : DpOp → Bool
  | and | eor | tst | teq | orr | mov | bic | mvn => true
  | _ => false

end DpOp

/-- `NEG` and `POS` -/
def neg (x : ARMword) : Bool := x.getLsbD 31
def pos (x : ARMword) : Bool := !x.getLsbD 31

namespace State

variable {U : Type} (s : State U)

/-! ## Flags -/

def addCarry (a b result : ARMword) : State U :=
  { s with cFlag := neg a && neg b || neg a && pos result || neg b && pos result }

def addOverflow (a b result : ARMword) : State U :=
  { s with vFlag := neg a && neg b && pos result || pos a && pos b && neg result }

def subCarry (a b result : ARMword) : State U :=
  { s with cFlag := neg a && pos b || neg a && pos result || pos b && pos result }

def subOverflow (a b result : ARMword) : State U :=
  { s with vFlag := neg a && pos b && pos result || pos a && neg b && neg result }

/-- The flags of an addition. -/
def addFlags (lhs rhs dest : ARMword) : State U :=
  let s := { s with zFlag := dest == 0 }
  if (lhs ||| rhs) >>> 30 ≠ 0 then
    addOverflow (addCarry { s with nFlag := neg dest } lhs rhs dest) lhs rhs dest
  else { s with nFlag := false, cFlag := false, vFlag := false }

/-- The flags C and V of a subtraction. -/
def subFlags (lhs rhs dest : ARMword) : State U :=
  if lhs ≥ rhs ∨ (rhs ||| lhs) >>> 31 ≠ 0 then (s.subCarry lhs rhs dest).subOverflow lhs rhs dest
  else { s with cFlag := false, vFlag := false }

/-- The flags of an arithmetic operation. -/
def arithFlags (lhs rhs dest : ARMword) : DpOp → State U
  | .add | .adc | .cmn => s.addFlags lhs rhs dest
  | .rsb | .rsc => s.subFlags rhs lhs dest
  | _ => s.subFlags lhs rhs dest

/-! ## Operations -/

variable (instr : ARMword)

/-- The right operand; `BIT (25)` tells an immediate. -/
def dpRHS : ARMword × State U :=
  if instr.getLsbD 25 then (dpImmRHS instr, s) else s.dpRegRHS instr

/-- The right operand of a logical operation with the S bit. -/
def dpsRHS : ARMword × State U :=
  if instr.getLsbD 25 then s.dpsImmRHS instr else s.dpsRegRHS instr

/-- `state->Cpsr = GETSPSR (state->Bank); ARMul_CPSRAltered (state)` -/
def restoreCPSR : State U := cpsrAltered { s with cpsr := s.getSPSR s.mode }

/-- An operation with the S bit clear. -/
def dataProcessing (op : DpOp) : State U :=
  let (rhs, s) := s.dpRHS instr
  s.writeDest instr (op.value (s.lhs instr) rhs s.cFlag)

/-- An operation with the S bit set. -/
def dataProcessingS (op : DpOp) : State U :=
  if op.isLogical then
    let (rhs, s) := s.dpsRHS instr
    s.writeSDest instr (op.value (s.lhs instr) rhs s.cFlag)
  else
    let lhs := s.lhs instr
    let (rhs, s) := s.dpRHS instr
    let dest := op.value lhs rhs s.cFlag
    (s.arithFlags lhs rhs dest op).writeSDest instr dest

/-- `TST`, `TEQ`, `CMP` and `CMN`; with register 15 as destination they restore the status
register. `CMN` leaves N and Z to `addFlags`. -/
def test (op : DpOp) : State U :=
  if destReg instr = 15 then s.restoreCPSR
  else if op.isLogical then
    let (rhs, s) := s.dpsRHS instr
    s.negZero (op.value (s.lhs instr) rhs s.cFlag)
  else
    let lhs := s.lhs instr
    let (rhs, s) := s.dpRHS instr
    let dest := op.value lhs rhs s.cFlag
    (if op = .cmn then s else s.negZero dest).arithFlags lhs rhs dest op

/-- `MUL` and `MLA` (`BIT (21)`), with flags if `BIT (20)`; a destination that is also the
left factor gets the value of the accumulator alone (`UNDEF_MULDestEQOp1`). -/
def multiply : State U :=
  let rhs := s.reg (mulRhsReg instr)
  let acc := if instr.getLsbD 21 then s.reg (mulAccReg instr) else 0
  let put (dest : ARMword) : State U :=
    (if instr.getLsbD 20 then s.negZero dest else s).setReg (mulDestReg instr) dest
  icycles <|
    if mulLhsReg instr = mulDestReg instr then put acc
    else if mulDestReg instr ≠ 15 then put (s.reg (mulLhsReg instr) * rhs + acc)
    else s

end State

end SkyEye
