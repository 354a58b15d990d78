import SkyEye.Arm.Operands

/-!
# Block transfers

`LDM` and `STM`: `LoadMult`, `LoadSMult`, `StoreMult` and `StoreSMult` of `armemu32.c` and
the cases `0x80` to `0x9f` of the main switch, each with its own arithmetic for the first
address and the base to write back. The S variants move the user bank in sight for the
transfer and the bank of the mode back. A list without registers makes the scan for the
first one run on beyond the list; such an instruction has no result here.
-/

namespace SkyEye

/-- `ARMul_BitList`: four times the number of bits in a byte. -/
def bitList (b : BitVec 8) : ARMword :=
  BitVec.ofNat 32 (4 * ((List.range 8).filter fun i => b.getLsbD i).length)

def lsmNumRegs (instr : ARMword) : ARMword :=
  bitList (instr.extractLsb' 0 8) + bitList (instr.extractLsb' 8 8)

/-- `for (temp = 0; !BIT (temp); temp++)` -/
def firstReg (instr : ARMword) : Option RegNo :=
  (List.finRange 16).find? fun r => instr.getLsbD r

/-- The registers after `r`: the rest of the loop `for (; temp < 16; temp++)`. -/
def regsAfter (r : RegNo) : List RegNo := (List.finRange 16).drop (r + 1)

namespace State

variable {U : Type} (ops : MmuOps U) (s : State U) (instr : ARMword)

/-- After a transfer: an abort that only `abortSig` shows. No access of `armvirt.c` leaves
one, so the fault registers of the XScale, which the source sets here, stay out of the model. -/
def noteAbort : State U :=
  if s.abortSig && s.aborted == 0 then { s with aborted := DATAABORTV } else s

/-- Put a loaded word into a register, unless its load aborted. -/
def loadReg (r : RegNo) (loaded : ARMword × State U) : State U :=
  if !loaded.2.abortSig && loaded.2.aborted == 0 then loaded.2.setReg r loaded.1
  else loaded.2.noteAbort

/-- The loads after the first. -/
def loadRegs (s : State U) (address : ARMword) : List RegNo → State U
  | [] => s
  | r :: rs =>
    if instr.getLsbD r then
      let address := address + 4
      let s := loadReg r (ops.loadWordS s address)
      if s.aborted ≠ 0 then s else loadRegs s address rs
    else loadRegs s address rs

/-- The stores after the first. -/
def storeRegs (s : State U) (address : ARMword) : List RegNo → State U
  | [] => s
  | r :: rs =>
    if instr.getLsbD r then
      let address := address + 4
      let s := (ops.storeWordS s address (s.reg r)).noteAbort
      if s.aborted ≠ 0 then s else storeRegs s address rs
    else storeRegs s address rs

/-- `BIT (21) && LHSReg != 15` -/
def writesBack : Bool := instr.getLsbD 21 && lhsReg instr != 15

/-- The write-back of the base that the abort model allows. -/
def writeBackLate (wbBase : ARMword) : State U :=
  if writesBack instr && !(s.abortSig && s.aborted != 0 && !s.lateabtSig) then
    s.setLSBase instr wbBase
  else s

/-- `state->Mode != USER26MODE && state->Mode != USER32MODE` -/
def notUserMode : Bool := s.mode != USER26MODE && s.mode != USER32MODE

/-- The user bank in sight, the mode as it is. -/
def toUserBank : State U := s.switchMode s.mode USER26MODE

/-- The bank of the mode back in sight. -/
def fromUserBank : State U := s.switchMode USER26MODE s.mode

variable (address wbBase : ARMword)

def loadMult : Option (State U) :=
  (firstReg instr).map fun temp =>
    let s := s.busUsedIncPcS
    let s := loadReg temp (ops.loadWordN s address)
    let s :=
      if s.aborted ≠ 0 then s
      else
        let s := loadRegs ops instr s address (regsAfter temp)
        if instr.getLsbD 15 && s.aborted == 0 then s.writeR15Branch (s.reg 15) else s
    let s := s.icycles
    if s.aborted ≠ 0 then s.abort DATAABORTV
    else if writesBack instr then s.setLSBase instr wbBase
    else s

/-- `LoadSMult`; its first load goes by `abortSig` alone. -/
def loadSMult : Option (State U) :=
  (firstReg instr).map fun temp =>
    let s := s.busUsedIncPcS
    let s := if !instr.getLsbD 15 && s.bank != .user then s.toUserBank else s
    let (dest, s) := ops.loadWordN s address
    let s := if !s.abortSig then s.setReg temp dest else s.noteAbort
    let s := if s.aborted ≠ 0 then s else loadRegs ops instr s address (regsAfter temp)
    let s :=
      if s.aborted ≠ 0 then (s.writeBackLate instr wbBase).abort DATAABORTV
      else if writesBack instr then s.setLSBase instr wbBase
      else s
    let s :=
      if instr.getLsbD 15 && s.aborted == 0 then
        let s := if s.notUserMode then cpsrAltered { s with cpsr := s.getSPSR s.mode } else s
        s.writeR15 (s.reg 15)
      else s
    let s := if !instr.getLsbD 15 && s.notUserMode then s.fromUserBank else s
    s.icycles

def storeMult : Option (State U) :=
  (firstReg instr).map fun temp =>
    let s := if s.tFlag then s else s.busUsedIncPcN
    let s := (ops.storeWordN s address (s.reg temp)).noteAbort
    let s := if s.aborted ≠ 0 then s else storeRegs ops instr s address (regsAfter temp)
    let s := s.writeBackLate instr wbBase
    if s.aborted ≠ 0 then s.abort DATAABORTV else s

/-- `StoreSMult`; an abort skips the switch back. -/
def storeSMult : Option (State U) :=
  (firstReg instr).map fun temp =>
    let s := s.busUsedIncPcN
    let s := if s.bank != .user then s.toUserBank else s
    let s := (ops.storeWordN s address (s.reg temp)).noteAbort
    let s := if s.aborted ≠ 0 then s else storeRegs ops instr s address (regsAfter temp)
    let s := if s.aborted == 0 && s.notUserMode then s.fromUserBank else s
    let s := s.writeBackLate instr wbBase
    if s.aborted ≠ 0 then s.abort DATAABORTV else s

/-- Cases `0x80` to `0x9f` -/
def blockTransfer : Option (State U) :=
  let lsBase := s.reg (lhsReg instr)
  let numRegs := lsmNumRegs instr
  match bits instr 20 27 with
  | 0x80 => s.storeMult ops instr (lsBase - numRegs + 4) 0
  | 0x81 => s.loadMult ops instr (lsBase - numRegs + 4) 0
  | 0x82 =>
    let temp := lsBase - numRegs
    s.storeMult ops instr (temp + 4) temp
  | 0x83 =>
    let temp := lsBase - numRegs
    s.loadMult ops instr (temp + 4) temp
  | 0x84 => s.storeSMult ops instr (lsBase - numRegs + 4) 0
  | 0x85 => s.loadSMult ops instr (lsBase - numRegs + 4) 0
  | 0x86 =>
    let temp := lsBase - numRegs
    s.storeSMult ops instr (temp + 4) temp
  | 0x87 =>
    let temp := lsBase - numRegs
    s.loadSMult ops instr (temp + 4) temp
  | 0x88 => s.storeMult ops instr lsBase 0
  | 0x89 => s.loadMult ops instr lsBase 0
  | 0x8a =>
    let temp := lsBase
    s.storeMult ops instr temp (temp + numRegs)
  | 0x8b =>
    let temp := lsBase
    s.loadMult ops instr temp (temp + numRegs)
  | 0x8c => s.storeSMult ops instr lsBase 0
  | 0x8d => s.loadSMult ops instr lsBase 0
  | 0x8e =>
    let temp := lsBase
    s.storeSMult ops instr temp (temp + numRegs)
  | 0x8f =>
    let temp := lsBase
    s.loadSMult ops instr temp (temp + numRegs)
  | 0x90 => s.storeMult ops instr (lsBase - numRegs) 0
  | 0x91 => s.loadMult ops instr (lsBase - numRegs) 0
  | 0x92 =>
    let temp := lsBase - numRegs
    s.storeMult ops instr temp temp
  | 0x93 =>
    let temp := lsBase - numRegs
    s.loadMult ops instr temp temp
  | 0x94 => s.storeSMult ops instr (lsBase - numRegs) 0
  | 0x95 => s.loadSMult ops instr (lsBase - numRegs) 0
  | 0x96 =>
    let temp := lsBase - numRegs
    s.storeSMult ops instr temp temp
  | 0x97 =>
    let temp := lsBase - numRegs
    s.loadSMult ops instr temp temp
  | 0x98 => s.storeMult ops instr (lsBase + 4) 0
  | 0x99 => s.loadMult ops instr (lsBase + 4) 0
  | 0x9a =>
    let temp := lsBase
    s.storeMult ops instr (temp + 4) (temp + numRegs)
  | 0x9b =>
    let temp := lsBase
    s.loadMult ops instr (temp + 4) (temp + numRegs)
  | 0x9c => s.storeSMult ops instr (lsBase + 4) 0
  | 0x9d => s.loadSMult ops instr (lsBase + 4) 0
  | 0x9e =>
    let temp := lsBase
    s.storeSMult ops instr (temp + 4) (temp + numRegs)
  | 0x9f =>
    let temp := lsBase
    s.loadSMult ops instr (temp + 4) (temp + numRegs)
  | _ => none

end State

end SkyEye
