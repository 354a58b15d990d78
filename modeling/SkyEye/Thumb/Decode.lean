import SkyEye.Arm.Operands

/-!
# The Thumb decoder

`ARMul_ThumbDecode` of `thumbemu.c`: a halfword becomes the ARM instruction that does its
work; branches are done at once. The halfword comes in the low half of the word, or in the
high half if the memory is big-endian; the other half holds the one that follows.
-/

namespace SkyEye

/-- `tdstate`, with the ARM instruction or the state that the decoder leaves. -/
inductive TdState (U : Type) where
  | undefined
  | decoded (ainstr : ARMword)
  | branch (s : State U)

/-- A C truth value of a masked word. -/
def isSet (x mask : ARMword) : Bool := x &&& mask != 0

namespace ThumbFormat

/-! ## The formats

Each is the word that the source puts together; `tinstr` is the halfword. -/

/-- `LSL`, `LSR` and `ASR` by a number -/
def format1 (tinstr : ARMword) : ARMword :=
  0xE1B00000 ||| ((tinstr &&& 0x1800) >>> 6) ||| ((tinstr &&& 0x07C0) <<< 1) |||
    ((tinstr &&& 0x0038) >>> 3) ||| ((tinstr &&& 0x0007) <<< 12)

/-- The table of format 2. -/
def subset2 : Nat → ARMword
  | 0 => 0xE0900000
  | 1 => 0xE0500000
  | 2 => 0xE2900000
  | _ => 0xE2500000

/-- `ADDS` and `SUBS` with a register or three bits -/
def format2 (tinstr : ARMword) : ARMword :=
  subset2 ((tinstr &&& 0x0600) >>> 9).toNat ||| ((tinstr &&& 0x01C0) >>> 6) |||
    ((tinstr &&& 0x0038) <<< 13) ||| ((tinstr &&& 0x0007) <<< 12)

/-- The table of format 3. -/
def subset3 : Nat → ARMword
  | 0 => 0xE3B00000
  | 1 => 0xE3500000
  | 2 => 0xE2900000
  | _ => 0xE2500000

/-- `MOVS`, `CMP`, `ADDS` and `SUBS` with eight bits -/
def format3 (tinstr : ARMword) : ARMword :=
  subset3 ((tinstr &&& 0x1800) >>> 11).toNat ||| (tinstr &&& 0x00FF) |||
    ((tinstr &&& 0x0700) <<< 8) ||| ((tinstr &&& 0x0700) <<< 4)

/-- The kinds of format 4: `t_norm`, `t_shift`, `t_neg` and `t_mul`. -/
inductive OType where
  | norm
  | shift
  | neg
  | mul

/-- The table of format 4. -/
def subset4 : Nat → ARMword × OType
  | 0 => (0xE0100000, .norm)
  | 1 => (0xE0300000, .norm)
  | 2 => (0xE1B00010, .shift)
  | 3 => (0xE1B00030, .shift)
  | 4 => (0xE1B00050, .shift)
  | 5 => (0xE0B00000, .norm)
  | 6 => (0xE0D00000, .norm)
  | 7 => (0xE1B00070, .shift)
  | 8 => (0xE1100000, .norm)
  | 9 => (0xE2700000, .neg)
  | 10 => (0xE1500000, .norm)
  | 11 => (0xE1700000, .norm)
  | 12 => (0xE1900000, .norm)
  | 13 => (0xE0100090, .mul)
  | 14 => (0xE1D00000, .norm)
  | _ => (0xE1F00000, .norm)

/-- The registers of an instruction of format 4. -/
def fields4 (tinstr : ARMword) : OType → ARMword
  | .norm =>
    ((tinstr &&& 0x0007) <<< 16) ||| ((tinstr &&& 0x0007) <<< 12) ||| ((tinstr &&& 0x0038) >>> 3)
  | .shift => ((tinstr &&& 0x0007) <<< 12) ||| (tinstr &&& 0x0007) ||| ((tinstr &&& 0x0038) <<< 5)
  | .neg => ((tinstr &&& 0x0007) <<< 12) ||| ((tinstr &&& 0x0038) <<< 13)
  | .mul =>
    ((tinstr &&& 0x0007) <<< 16) ||| ((tinstr &&& 0x0007) <<< 8) ||| ((tinstr &&& 0x0038) >>> 3)

/-- Operations on two registers -/
def format4 (tinstr : ARMword) : ARMword :=
  let entry := subset4 ((tinstr &&& 0x03C0) >>> 6).toNat
  entry.1 ||| fields4 tinstr entry.2

/-- `ADD`, `CMP`, `MOV` and `BX` with high registers; none if undefined. -/
def format5 (isV5 : Bool) (tinstr : ARMword) : Option ARMword :=
  let rd := (tinstr &&& 0x0007) + if isSet tinstr 0x80 then 8 else 0
  let rs := ((tinstr &&& 0x0038) >>> 3) + if isSet tinstr 0x40 then 8 else 0
  match ((tinstr &&& 0x03C0) >>> 6).toNat with
  | 0x1 | 0x2 | 0x3 => some (0xE0800000 ||| (rd <<< 16) ||| (rd <<< 12) ||| rs)
  | 0x5 | 0x6 | 0x7 => some (0xE1500000 ||| (rd <<< 16) ||| (rd <<< 12) ||| rs)
  | 0x9 | 0xA | 0xB => some (0xE1A00000 ||| (rd <<< 16) ||| (rd <<< 12) ||| rs)
  | 0xC | 0xD => some (0xE12FFF10 ||| ((tinstr &&& 0x0078) >>> 3))
  | 0x0 | 0x4 | 0x8 => none
  | _ => if isV5 then some (0xE1200030 ||| rs) else none

/-- `LDR` from the address of the instruction -/
def format6 (tinstr : ARMword) : ARMword :=
  0xE59F0000 ||| ((tinstr &&& 0x0700) <<< 4) ||| ((tinstr &&& 0x00FF) <<< 2)

/-- The registers of a transfer with a register offset. -/
def transferRegs (tinstr : ARMword) : ARMword :=
  ((tinstr &&& 0x0007) <<< 12) ||| ((tinstr &&& 0x0038) <<< 13) ||| ((tinstr &&& 0x01C0) >>> 6)

/-- The table of format 7. -/
def subset7 : Nat → ARMword
  | 0 => 0xE7800000
  | 1 => 0xE7C00000
  | 2 => 0xE7900000
  | _ => 0xE7D00000

/-- Words and bytes with a register offset -/
def format7 (tinstr : ARMword) : ARMword :=
  subset7 ((tinstr &&& 0x0C00) >>> 10).toNat ||| transferRegs tinstr

/-- The table of format 8. -/
def subset8 : Nat → ARMword
  | 0 => 0xE18000B0
  | 1 => 0xE19000D0
  | 2 => 0xE19000B0
  | _ => 0xE19000F0

/-- Halfwords and signed bytes with a register offset -/
def format8 (tinstr : ARMword) : ARMword :=
  subset8 ((tinstr &&& 0x0C00) >>> 10).toNat ||| transferRegs tinstr

/-- The table of format 9. -/
def subset9 : Nat → ARMword
  | 0 => 0xE5800000
  | 1 => 0xE5900000
  | 2 => 0xE5C00000
  | _ => 0xE5D00000

/-- Words and bytes with a number as offset -/
def format9 (tinstr : ARMword) : ARMword :=
  subset9 ((tinstr &&& 0x1800) >>> 11).toNat ||| ((tinstr &&& 0x0007) <<< 12) |||
    ((tinstr &&& 0x0038) <<< 13) |||
    ((tinstr &&& 0x07C0) >>> (6 - if isSet tinstr 0x1000 then 0 else 2))

/-- Halfwords with a number as offset -/
def format10 (tinstr : ARMword) : ARMword :=
  (if isSet tinstr 0x0800 then 0xE1D000B0 else 0xE1C000B0) ||| ((tinstr &&& 0x0007) <<< 12) |||
    ((tinstr &&& 0x0038) <<< 13) ||| ((tinstr &&& 0x01C0) >>> 5) ||| ((tinstr &&& 0x0600) >>> 1)

/-- Words from the stack pointer up -/
def format11 (tinstr : ARMword) : ARMword :=
  (if isSet tinstr 0x0800 then 0xE59D0000 else 0xE58D0000) ||| ((tinstr &&& 0x0700) <<< 4) |||
    ((tinstr &&& 0x00FF) <<< 2)

/-- Addresses from register 15 or the stack pointer up -/
def format12 (tinstr : ARMword) : ARMword :=
  (if isSet tinstr 0x0800 then 0xE28D0F00 else 0xE28F0F00) ||| ((tinstr &&& 0x0700) <<< 4) |||
    (tinstr &&& 0x00FF)

/-- The stack pointer up or down -/
def format13 (tinstr : ARMword) : ARMword :=
  (if isSet tinstr 0x80 then 0xE24DDF00 else 0xE28DDF00) ||| (tinstr &&& 0x007F)

/-- `PUSH` and `POP` -/
def format14 (tinstr : ARMword) : ARMword :=
  let base : ARMword :=
    match ((tinstr &&& 0x0800) >>> 10 ||| (tinstr &&& 0x0100) >>> 8).toNat with
    | 0 => 0xE92D0000
    | 1 => 0xE92D4000
    | 2 => 0xE8BD0000
    | _ => 0xE8BD8000
  base ||| (tinstr &&& 0x00FF)

/-- `STMIA` and `LDMIA` -/
def format15 (tinstr : ARMword) : ARMword :=
  (if isSet tinstr 0x0800 then 0xE8B00000 else 0xE8A00000) ||| ((tinstr &&& 0x0700) <<< 8) |||
    (tinstr &&& 0x00FF)

def swiBreakpoint : ARMword := 0x180000

/-- `SWI`; two numbers are breakpoints. -/
def format17 (tinstr : ARMword) : ARMword :=
  if tinstr &&& 0x00FF = 0x18 then 0xEF000000 ||| ((tinstr &&& 0x00FF) <<< 16)
  else if tinstr &&& 0x00FF = 0xFE then 0xEF000000 ||| swiBreakpoint
  else 0xEF000000 ||| (tinstr &&& 0x00FF)

end ThumbFormat

namespace State

variable {U : Type} (s : State U)

/-- The condition of a branch of format 16. -/
def thumbCondition : Nat → Bool
  | 0 => s.zFlag
  | 1 => !s.zFlag
  | 2 => s.cFlag
  | 3 => !s.cFlag
  | 4 => s.nFlag
  | 5 => !s.nFlag
  | 6 => s.vFlag
  | 7 => !s.vFlag
  | 8 => s.cFlag && !s.zFlag
  | 9 => !s.cFlag || s.zFlag
  | 10 => !s.nFlag && !s.vFlag || s.nFlag && s.vFlag
  | 11 => s.nFlag && !s.vFlag || !s.nFlag && s.vFlag
  | 12 => !s.nFlag && !s.vFlag && !s.zFlag || s.nFlag && s.vFlag && !s.zFlag
  | 13 => s.nFlag && !s.vFlag || !s.nFlag && s.vFlag || s.zFlag
  | _ => false

/-- Format 16 -/
def thumbCondBranch (pc tinstr : ARMword) : State U :=
  if s.thumbCondition ((tinstr &&& 0x0F00) >>> 8).toNat then
    flushPipe <| s.setReg 15 <|
      pc + 4 + (((tinstr &&& 0x7F) <<< 1) ||| if isSet tinstr 0x80 then 0xFFFFFF00 else 0)
  else s

/-- Format 18 -/
def thumbBranch (pc tinstr : ARMword) : State U :=
  flushPipe <| s.setReg 15 <|
    pc + 4 + (((tinstr &&& 0x3FF) <<< 1) ||| if isSet tinstr 0x400 then 0xFFFFF800 else 0)

/-- The first instruction of format 19 -/
def thumbBlPrefix (tinstr : ARMword) : State U :=
  s.setReg 14 <|
    s.reg 15 + (((tinstr &&& 0x07FF) <<< 12) ||| if isSet tinstr 0x400 then 0xFF800000 else 0)

/-- The second instruction of format 19 -/
def thumbBlSuffix (pc tinstr : ARMword) : State U :=
  let tmp := pc + 2
  let s := s.setReg 15 (s.reg 14 + ((tinstr &&& 0x07FF) <<< 1))
  flushPipe (s.setReg 14 (tmp ||| 1))

open ThumbFormat

def thumbDecode (pc tinstr : ARMword) : TdState U :=
  let nextInstr := if s.bigendSig then tinstr &&& 0xFFFF else tinstr >>> 16
  let tinstr := if s.bigendSig then tinstr >>> 16 else tinstr &&& 0xFFFF
  match ((tinstr &&& 0xF800) >>> 11).toNat with
  | 0 | 1 | 2 => .decoded (format1 tinstr)
  | 3 => .decoded (format2 tinstr)
  | 4 | 5 | 6 | 7 => .decoded (format3 tinstr)
  | 8 =>
    if tinstr &&& 0x400 = 0 then .decoded (format4 tinstr)
    else
      match format5 s.isV5 tinstr with
      | some ainstr => .decoded ainstr
      | none => .undefined
  | 9 => .decoded (format6 tinstr)
  | 10 | 11 => if tinstr &&& 0x200 = 0 then .decoded (format7 tinstr) else .decoded (format8 tinstr)
  | 12 | 13 | 14 | 15 => .decoded (format9 tinstr)
  | 16 | 17 => .decoded (format10 tinstr)
  | 18 | 19 => .decoded (format11 tinstr)
  | 20 | 21 => .decoded (format12 tinstr)
  | 22 | 23 =>
    if tinstr &&& 0x0F00 = 0 then .decoded (format13 tinstr)
    else if tinstr &&& 0x0F00 = 0x0e00 then .decoded (0xEF000000 ||| swiBreakpoint)
    else .decoded (format14 tinstr)
  | 24 | 25 => .decoded (format15 tinstr)
  | 26 | 27 =>
    if tinstr &&& 0x0F00 = 0x0F00 then
      if tinstr = s.abortWord &&& 0xffff ∧ s.abortAddr = pc then .decoded s.abortWord
      else .decoded (format17 tinstr)
    else if tinstr &&& 0x0F00 = 0x0E00 then .undefined
    else .branch (s.thumbCondBranch pc tinstr)
  | 28 => .branch (s.thumbBranch pc tinstr)
  | 29 => .undefined
  | 30 =>
    let s := s.thumbBlPrefix tinstr
    if ((nextInstr &&& 0xF800) >>> 11).toNat = 31 then .branch (s.thumbBlSuffix (pc + 2) nextInstr)
    else .branch s
  | _ => .branch (s.thumbBlSuffix pc tinstr)

end State

end SkyEye
