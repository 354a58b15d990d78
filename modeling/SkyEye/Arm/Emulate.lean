import SkyEye.Arm.Operands
import SkyEye.Arm.DataProc
import SkyEye.Arm.Block

/-!
# Single data transfers

`LDR`, `STR` and the halfword and signed transfers: `LoadWord` and its siblings of
`armemu32.c`, and the cases of the main switch that call them. Each access tells whether
the base register is to be written back; after a data abort that is `lateabtSig`, and the
write-back then happens in the abort mode that `abort` has entered.
-/

namespace SkyEye.State

variable {U : Type} (ops : MmuOps U) (s : State U) (instr address : ARMword)

/-- `TAKEABORT; return state->lateabtSig` -/
def takeAbort : Bool × State U :=
  let s := s.abort DATAABORTV
  (s.lateabtSig, s)

def loadWord : Bool × State U :=
  let s := s.busUsedIncPcS
  let (dest, s) := ops.loadWordN s address
  if s.aborted ≠ 0 then s.takeAbort
  else
    let dest := if address &&& 3 ≠ 0 then align address dest else dest
    (destReg instr != lhsReg instr, (s.writeDestB instr dest).icycles)

def loadHalfWord (signextend : Bool) : Bool × State U :=
  let s := s.busUsedIncPcS
  let (dest, s) := ops.loadHalfWord s address
  if s.aborted ≠ 0 then s.takeAbort
  else
    let dest :=
      if signextend && dest.getLsbD 15 then (dest &&& 0xffff) - 0x10000 else dest
    (destReg instr != lhsReg instr, (s.writeDest instr dest).icycles)

def loadByte (signextend : Bool) : Bool × State U :=
  let s := s.busUsedIncPcS
  let (dest, s) := ops.loadByte s address
  if s.aborted ≠ 0 then s.takeAbort
  else
    let dest := if signextend && dest.getLsbD 7 then (dest &&& 0xff) - 0x100 else dest
    (destReg instr != lhsReg instr, (s.writeDest instr dest).icycles)

def storeWord : Bool × State U :=
  let s := s.busUsedIncPcN
  let s := ops.storeWordN s address (s.reg (destReg instr))
  if s.aborted ≠ 0 then s.takeAbort else (true, s)

def storeHalfWord : Bool × State U :=
  let s := s.busUsedIncPcN
  let s := ops.storeHalfWord s address (s.reg (destReg instr))
  if s.aborted ≠ 0 then s.takeAbort else (true, s)

def storeByte : Bool × State U :=
  let s := s.busUsedIncPcN
  let s := ops.storeByte s address (s.reg (destReg instr))
  if s.aborted ≠ 0 then s.takeAbort else (true, s)

/-- An address above or below `base`, by `BIT (23)`. -/
def offsetBy (base offset : ARMword) : ARMword :=
  if instr.getLsbD 23 then base + offset else base - offset

/-- `if (...) LSBase = v` -/
def writeBackIf (r : Bool × State U) (v : State U → ARMword) : State U :=
  if r.1 then r.2.setLSBase instr (v r.2) else r.2

/-! ## Words and bytes

Cases `0x40` to `0x7f`. `BIT (20)` tells a load, `BIT (22)` a byte, `BIT (24)` an offset
before the access and `BIT (21)` its write-back; the offset after an access is always
written back, and `BIT (21)` then asks for the permissions of user mode. -/

/-- The access of the instruction. -/
def singleAccess : Bool × State U :=
  if instr.getLsbD 20 then
    if instr.getLsbD 22 then s.loadByte ops instr address false else s.loadWord ops instr address
  else if instr.getLsbD 22 then s.storeByte ops instr address
  else s.storeWord ops instr address

/-- The offset: `LSRegRHS` or `LSImmRHS`. -/
def lsRHS : ARMword := if instr.getLsbD 25 then s.lsRegRHS instr else lsImmRHS instr

/-- Offset before the access. -/
def preIndexed : State U :=
  let temp := offsetBy instr (s.lhs instr) (s.lsRHS instr)
  let r := s.singleAccess ops instr temp
  if instr.getLsbD 21 then writeBackIf instr r fun _ => temp else r.2

/-- Offset after the access. A load has evaluated it before, a store evaluates it then. -/
def postIndexed : State U :=
  let lhs := s.lhs instr
  let temp := offsetBy instr lhs (s.lsRHS instr)
  let write (s : State U) : State U :=
    writeBackIf instr (s.singleAccess ops instr lhs) fun s =>
      if instr.getLsbD 20 then temp else offsetBy instr lhs (s.lsRHS instr)
  if instr.getLsbD 21 then
    let s := write { s with ntransSig := false }
    { s with ntransSig := s.mode &&& 3 != 0 }
  else write s

/-- A register offset with `BIT (4)`: undefined, but for the debugger's breakpoint, where
`ARMul_OSHandleSWI` stops the emulation. -/
def undefinedTransfer : State U :=
  if bits instr 20 27 = 0x7f ∧ bits instr 0 19 = 0xfdefe then { s with emulate := .stop }
  else s.abort UNDEFINEDINSTRV

/-- Cases `0x40` to `0x7f` -/
def singleDataTransfer : State U :=
  if instr.getLsbD 25 && instr.getLsbD 4 then s.undefinedTransfer instr
  else if instr.getLsbD 24 then s.preIndexed ops instr
  else s.postIndexed ops instr

/-! ## Halfwords and signed bytes

In the data processing cases `0x00` to `0x1f`, told by the bits 4 to 7. -/

/-- `SHDOWNWB` to `SHPREUPWB` -/
def storeHalfwordTransfer : State U :=
  if instr.getLsbD 24 then
    let temp := offsetBy instr (s.lhs instr) (s.getLS7RHS instr)
    let r := s.storeHalfWord ops instr temp
    if instr.getLsbD 21 then writeBackIf instr r fun _ => temp else r.2
  else
    let lhs := s.lhs instr
    writeBackIf instr (s.storeHalfWord ops instr lhs) fun s =>
      offsetBy instr lhs (s.getLS7RHS instr)

/-- The access of a load, by `BITS (5, 6)`; `SWP` (0) is handled elsewhere. -/
def halfwordAccess : Bool × State U :=
  match bits instr 5 6 with
  | 1 => s.loadHalfWord ops instr address false
  | 2 => s.loadByte ops instr address true
  | _ => s.loadHalfWord ops instr address true

/-- `LHPOSTDOWN` to `LHPREUPWB` -/
def loadHalfwordTransfer : State U :=
  if instr.getLsbD 24 then
    let temp := offsetBy instr (s.lhs instr) (s.getLS7RHS instr)
    let r := s.halfwordAccess ops instr temp
    if instr.getLsbD 21 then writeBackIf instr r fun _ => temp else r.2
  else
    let lhs := s.lhs instr
    let temp := offsetBy instr lhs (s.getLS7RHS instr)
    writeBackIf instr (s.halfwordAccess ops instr lhs) fun _ => temp

end SkyEye.State

/-!
## The main switch

`ARMul_Emulate32` from `mainswitch` on: one instruction whose condition holds. The result
is `none` for the instructions that are left out here: `SWP`, the doubleword transfers,
the long and DSP multiplications, the extensions of version 5 and the coprocessors.
-/

namespace SkyEye.State

variable {U : Type} (ops : MmuOps U) (s : State U) (pc instr : ARMword)

/-- `POSBRANCH` and `NEGBRANCH`, by `BIT (23)` -/
def branchOffset : ARMword :=
  if instr.getLsbD 23 then (0xff000000 ||| (instr &&& 0xffffff)) <<< 2
  else (instr &&& 0x7fffff) <<< 2

/-- A halfword store among the register cases; the immediate forms do not test `BITS (8, 11)`. -/
def isStoreHalfword : Bool :=
  if instr.getLsbD 22 then bits instr 4 7 == 0xB else bits instr 4 11 == 0xB

/-- A halfword or signed load among the register cases. -/
def isLoadHalfword : Bool :=
  (if instr.getLsbD 22 then bits instr 4 7 &&& 0x9 == 0x9 else bits instr 4 11 &&& 0xF9 == 0x9) &&
    bits instr 5 6 != 0

/-- `Handle_Load_Double` and `Handle_Store_Double`, in every case but `0x02`, `0x06`, `0x0a`
and `0x0e`. -/
def isDouble : Bool :=
  (instr.getLsbD 24 || !instr.getLsbD 21) && (bits instr 4 7 == 0xD || bits instr 4 7 == 0xF)

/-- The DSP multiplications and saturating additions that `is_v5e` adds to `0x10` to `0x16`. -/
def isDsp : Bool :=
  s.isV5e && (bits instr 4 11 == 5 ||
    !instr.getLsbD 4 && instr.getLsbD 7 &&
      match bits instr 20 27 with
      | 0x12 => !instr.getLsbD 5 || destReg instr == 0
      | 0x16 => destReg instr == 0
      | _ => true)

/-- `BLX`, `BKPT` and `CLZ` of `is_v5`. -/
def isV5Misc : Bool :=
  s.isV5 &&
    match bits instr 20 27 with
    | 0x12 => bits instr 4 7 == 3 || bits instr 4 7 == 7
    | 0x16 => bits instr 4 11 == 0xF1 && bits instr 16 19 == 0xF
    | _ => false

/-- Cases `0x10`, `0x12`, `0x14` and `0x16` once the transfers are told apart: the status
registers and `BX`. -/
def miscellaneous : Option (State U) :=
  if s.isDsp instr || s.isV5Misc instr then none
  else
    match bits instr 20 27 with
    | 0x10 =>
      if bits instr 4 11 = 9 then none
      else if bits instr 0 11 = 0 ∧ lhsReg instr = 15 then
        some (s.setReg (destReg instr) (s.ecc ||| s.eint ||| s.mode))
      else some s
    | 0x12 =>
      if bits instr 4 27 = 0x12FFF1 then some (s.writeR15Branch (s.reg (rhsReg instr)))
      else if destReg instr = 15 then
        let (temp, s) := s.dpRegRHS instr
        some (s.fixCPSR instr (temp &&& ~~~TBIT))
      else some s
    | 0x14 =>
      if bits instr 4 11 = 9 then none
      else if bits instr 0 11 = 0 ∧ lhsReg instr = 15 then
        some (s.setReg (destReg instr) (s.getSPSR s.mode))
      else some s
    | _ =>
      if destReg instr = 15 then
        let (temp, s) := s.dpRegRHS instr
        some (s.fixSPSR instr temp)
      else some s

/-- Cases `0x00` to `0x1f` with `BIT (20)` clear. -/
def registerCase : Option (State U) :=
  let op := DpOp.ofInstr instr
  if isStoreHalfword instr then some (s.storeHalfwordTransfer ops instr)
  else if isDouble instr then none
  else if bits instr 24 27 = 0 ∧ bits instr 4 7 = 9 ∧ ¬ (op = .sub ∨ op = .rsb) then
    if instr.getLsbD 23 then none else some (s.multiply instr)
  else if op.isTest then s.miscellaneous instr
  else some (s.dataProcessing instr op)

/-- Cases `0x00` to `0x1f` with `BIT (20)` set. -/
def registerCaseS : Option (State U) :=
  let op := DpOp.ofInstr instr
  if isLoadHalfword instr then some (s.loadHalfwordTransfer ops instr)
  else if bits instr 24 27 = 0 ∧ bits instr 4 7 = 9 ∧ ¬ (op = .sub ∨ op = .rsb) then
    if instr.getLsbD 23 then none else some (s.multiply instr)
  else if op.isTest then some (s.test instr op)
  else some (s.dataProcessingS instr op)

/-- Cases `0x20` to `0x3f` -/
def immediateCase : State U :=
  let op := DpOp.ofInstr instr
  if instr.getLsbD 20 then if op.isTest then s.test instr op else s.dataProcessingS instr op
  else if op.isTest then
    if destReg instr = 15 then
      match op with
      | .teq => s.fixCPSR instr (dpImmRHS instr)
      | .cmn => s.fixSPSR instr (dpImmRHS instr)
      | _ => s
    else s
  else s.dataProcessing instr op

/-- Cases `0xa0` to `0xbf` -/
def branch : State U :=
  let s := if instr.getLsbD 24 then s.setReg 14 (pc + 4) else s
  flushPipe (s.setReg 15 (pc + 8 + branchOffset instr))

/-- Cases `0xf0` to `0xff` -/
def softwareInterrupt : State U :=
  if instr = s.abortWord ∧ s.abortAddr = pc then s.abort PREFETCHABORTV else s.abort SWIV

def mainswitch : Option (State U) :=
  if s.isXScale && !instr.getLsbD 20 && bits instr 25 27 == 0 &&
      (bits instr 4 7 == 0xD || bits instr 4 7 == 0xF) then none
  else
    match bits instr 25 27 with
    | 0 => if instr.getLsbD 20 then s.registerCaseS ops instr else s.registerCase ops instr
    | 1 => some (s.immediateCase instr)
    | 2 | 3 => some (s.singleDataTransfer ops instr)
    | 4 => s.blockTransfer ops instr
    | 5 => some (s.branch pc instr)
    | 7 => if instr.getLsbD 24 then some (s.softwareInterrupt pc instr) else none
    | _ => none

end SkyEye.State
