import SkyEye.Arm.Virt
import SkyEye.Arm.Supp

/-!
# Instruction fields and operands

The macros of `armemu.h` that take an instruction apart, move the pipeline on and write
results, and the functions of `armemu32.c` that evaluate the last operand of an
instruction.
-/

namespace SkyEye

/-! ## Fields -/

/-- Four bits of an instruction from bit `lo` up, as a register. -/
def regField (instr : ARMword) (lo : Nat) : RegNo := (instr.extractLsb' lo 4).toFin

/-- `DESTReg`, `LHSReg`, `RHSReg` and the register of a shift amount, `BITS (8, 11)` -/
def destReg (instr : ARMword) : RegNo := regField instr 12
def lhsReg (instr : ARMword) : RegNo := regField instr 16
def rhsReg (instr : ARMword) : RegNo := regField instr 0
def shiftReg (instr : ARMword) : RegNo := regField instr 8

/-- `MULDESTReg`, `MULLHSReg`, `MULRHSReg` and `MULACCReg` -/
def mulDestReg (instr : ARMword) : RegNo := regField instr 16
def mulLhsReg (instr : ARMword) : RegNo := regField instr 0
def mulRhsReg (instr : ARMword) : RegNo := regField instr 8
def mulAccReg (instr : ARMword) : RegNo := regField instr 12

/-- `BITS (m, n)` -/
def bits (instr : ARMword) (m n : Nat) : Nat := (instr.extractLsb' m (n + 1 - m)).toNat

inductive Shift where
  | lsl
  | lsr
  | asr
  | ror
  deriving DecidableEq, Repr

def shiftType (instr : ARMword) : Shift :=
  match bits instr 5 6 with
  | 0 => .lsl
  | 1 => .lsr
  | 2 => .asr
  | _ => .ror

/-- `ARMul_ImmedTable`: the low byte turned right by twice the next four bits. -/
def immedTable (i : BitVec 12) : ARMword :=
  (i.setWidth 8).setWidth 32 |>.rotateRight (2 * (i.extractLsb' 8 4).toNat)

def dpImmRHS (instr : ARMword) : ARMword := immedTable (instr.setWidth 12)

def lsImmRHS (instr : ARMword) : ARMword := (instr.setWidth 12).setWidth 32

/-- `ARMul_Align`: an unaligned word turned right. -/
def align (address data : ARMword) : ARMword :=
  let n := ((address &&& 3) <<< 3).toNat
  data >>> n ||| data <<< (32 - n)

/-! ## Shifts -/

namespace Shift

/-- A shift by an amount that the instruction holds; `c` is the carry flag. -/
def byImm (base : ARMword) (shamt : Nat) (c : Bool) : Shift → ARMword
  | lsl => base <<< shamt
  | lsr => if shamt = 0 then 0 else base >>> shamt
  | asr => if shamt = 0 then base.sshiftRight 31 else base.sshiftRight shamt
  | ror =>
    if shamt = 0 then base >>> 1 ||| toWord c <<< 31
    else base <<< (32 - shamt) ||| base >>> shamt

def byImmCarry (base : ARMword) (shamt : Nat) : Shift → Bool
  | lsl => (base >>> (32 - shamt)).getLsbD 0
  | lsr => if shamt = 0 then base.getLsbD 31 else (base >>> (shamt - 1)).getLsbD 0
  | asr => if shamt = 0 then base.getLsbD 31 else (base.sshiftRight (shamt - 1)).getLsbD 0
  | ror => if shamt = 0 then base.getLsbD 0 else (base >>> (shamt - 1)).getLsbD 0

/-- A shift by an amount that a register holds. -/
def byReg (base : ARMword) (shamt : Nat) : Shift → ARMword
  | lsl => if shamt = 0 then base else if 32 ≤ shamt then 0 else base <<< shamt
  | lsr => if shamt = 0 then base else if 32 ≤ shamt then 0 else base >>> shamt
  | asr =>
    if shamt = 0 then base else if 32 ≤ shamt then base.sshiftRight 31
    else base.sshiftRight shamt
  | ror =>
    if shamt % 32 = 0 then base
    else base <<< (32 - shamt % 32) ||| base >>> (shamt % 32)

def byRegCarry (base : ARMword) (shamt : Nat) (c : Bool) : Shift → Bool
  | lsl =>
    if shamt = 0 then c else if shamt = 32 then base.getLsbD 0 else if 32 < shamt then false
    else (base >>> (32 - shamt)).getLsbD 0
  | lsr =>
    if shamt = 0 then c else if shamt = 32 then base.getLsbD 31 else if 32 < shamt then false
    else (base >>> (shamt - 1)).getLsbD 0
  | asr =>
    if shamt = 0 then c else if 32 ≤ shamt then base.getLsbD 31
    else (base.sshiftRight (shamt - 1)).getLsbD 0
  | ror =>
    if shamt = 0 then c else if shamt % 32 = 0 then base.getLsbD 31
    else (base >>> (shamt % 32 - 1)).getLsbD 0

end Shift

namespace State

variable {U : Type} (s : State U) (instr : ARMword)

/-! ## The pipeline -/

def busUsedN : State U := { s with nextInstr := s.nextInstr ||| 1 }

def busUsedIncPcS : State U :=
  if s.isV4 then s
  else { s.setReg 15 (s.reg 15 + s.insnSize) with nextInstr := (s.nextInstr &&& 0xff) ||| 2 }

def busUsedIncPcN : State U :=
  if s.isV4 then s.busUsedN
  else { s.setReg 15 (s.reg 15 + s.insnSize) with nextInstr := s.nextInstr ||| 3 }

def incPc : State U :=
  { s.setReg 15 (s.reg 15 + s.insnSize) with nextInstr := s.nextInstr ||| 2 }

/-! ## Operands -/

def lhs : ARMword :=
  if lhsReg instr = 15 then s.reg 15 &&& 0xFFFFFFFC else s.reg (lhsReg instr)

/-- `DPRegRHS` with `GetDPRegRHS`: the operand, and the state its evaluation leaves. -/
def dpRegRHS : ARMword × State U :=
  if bits instr 4 11 = 0 then (s.reg (rhsReg instr), s)
  else if instr.getLsbD 4 then
    let s := s.incPc
    let base := s.reg (rhsReg instr)
    let s := s.icycles
    ((shiftType instr).byReg base (s.reg (shiftReg instr) &&& 0xff).toNat, s)
  else ((shiftType instr).byImm (s.reg (rhsReg instr)) (bits instr 7 11) s.cFlag, s)

/-- `DPSRegRHS` with `GetDPSRegRHS`, which also sets the carry flag. -/
def dpsRegRHS : ARMword × State U :=
  if bits instr 4 11 = 0 then (s.reg (rhsReg instr), s)
  else if instr.getLsbD 4 then
    let s := s.incPc
    let base := s.reg (rhsReg instr)
    let s := s.icycles
    let shamt := (s.reg (shiftReg instr) &&& 0xff).toNat
    ((shiftType instr).byReg base shamt,
      { s with cFlag := (shiftType instr).byRegCarry base shamt s.cFlag })
  else
    let base := s.reg (rhsReg instr)
    let shamt := bits instr 7 11
    ((shiftType instr).byImm base shamt s.cFlag,
      { s with cFlag := (shiftType instr).byImmCarry base shamt })

/-- `DPSImmRHS`: the carry flag follows an operand that was turned. -/
def dpsImmRHS : ARMword × State U :=
  let rhs := dpImmRHS instr
  (rhs, if 255 < bits instr 0 11 then { s with cFlag := rhs.getLsbD 31 } else s)

/-- `LSRegRHS` with `GetLSRegRHS` -/
def lsRegRHS : ARMword :=
  if bits instr 4 11 = 0 then s.reg (rhsReg instr)
  else (shiftType instr).byImm (s.reg (rhsReg instr)) (bits instr 7 11) s.cFlag

def getLS7RHS : ARMword :=
  if instr.getLsbD 22 then
    (instr.extractLsb' 8 4 ++ instr.extractLsb' 0 4 : BitVec 8).setWidth 32
  else s.reg (rhsReg instr)

/-! ## Results -/

def negZero (result : ARMword) : State U :=
  if result.getLsbD 31 then { s with nFlag := true, zFlag := false }
  else if result = 0 then { s with nFlag := false, zFlag := true }
  else { s with nFlag := false, zFlag := false }

def writeDest (d : ARMword) : State U :=
  if destReg instr = 15 then s.writeR15 d else s.setReg (destReg instr) d

def writeSDest (d : ARMword) : State U :=
  if destReg instr = 15 then s.writeSR15 d else (s.setReg (destReg instr) d).negZero d

def writeDestB (d : ARMword) : State U :=
  if destReg instr = 15 then s.writeR15Branch d else s.setReg (destReg instr) d

def setLSBase (v : ARMword) : State U := s.setReg (lhsReg instr) v

end State

end SkyEye
