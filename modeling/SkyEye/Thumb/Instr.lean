import SkyEye.Arm.Alu
import SkyEye.Arm.MainSwitch

/-!
# Thumb instructions

The Thumb instructions that compute or move one datum, formats 1 to 4 and 6 to 13, as the
architecture has them: their encodings and their effect on registers, flags and memory.
Where the architecture leaves the effect open (`predictable`), nothing is said about it.
-/

namespace SkyEye

/-! ## Instructions -/

/-- The operations of format 4, in the order of their codes. -/
inductive ThumbAlu where
  | and
  | eor
  | lsl
  | lsr
  | asr
  | adc
  | sbc
  | ror
  | tst
  | neg
  | cmp
  | cmn
  | orr
  | mul
  | bic
  | mvn
  deriving DecidableEq, Repr

/-- What is loaded or stored. -/
inductive ThumbTransfer where
  | str
  | strh
  | strb
  | ldrsb
  | ldr
  | ldrh
  | ldrb
  | ldrsh
  deriving DecidableEq, Repr

inductive ThumbOperand where
  | reg (r : RegNo)
  | imm (v : ARMword)

inductive Thumb where
  | shift (op : Shift) (n : Nat) (rs rd : RegNo)
  | add (rs rd : RegNo) (o : ThumbOperand)
  | sub (rs rd : RegNo) (o : ThumbOperand)
  | mov (rd : RegNo) (v : ARMword)
  | cmp (rd : RegNo) (v : ARMword)
  | alu (op : ThumbAlu) (rs rd : RegNo)
  | transfer (k : ThumbTransfer) (rd base : RegNo) (o : ThumbOperand)
  | address (rd base : RegNo) (offset : ARMword)

/-! ## Encodings -/

def ThumbAlu.ofBits : Nat → ThumbAlu
  | 0 => and
  | 1 => eor
  | 2 => lsl
  | 3 => lsr
  | 4 => asr
  | 5 => adc
  | 6 => sbc
  | 7 => ror
  | 8 => tst
  | 9 => neg
  | 10 => cmp
  | 11 => cmn
  | 12 => orr
  | 13 => mul
  | 14 => bic
  | _ => mvn

/-- The transfers with a register offset, by the bits 9 to 11. -/
def ThumbTransfer.ofBits : Nat → ThumbTransfer
  | 0 => str
  | 1 => strh
  | 2 => strb
  | 3 => ldrsb
  | 4 => ldr
  | 5 => ldrh
  | 6 => ldrb
  | _ => ldrsh

namespace Thumb

/-- `len` bits of a halfword from bit `lo` up. -/
def field (h : BitVec 16) (lo len : Nat) : Nat := (h.extractLsb' lo len).toNat

/-- Three bits, as the number of a register. -/
def low (h : BitVec 16) (lo : Nat) : BitVec 4 := (h.extractLsb' lo 3).setWidth 4

def lowReg (h : BitVec 16) (lo : Nat) : RegNo := (low h lo).toFin

/-- A number of `len` bits, in units of `unit` bytes. -/
def number (h : BitVec 16) (lo len unit : Nat) : ARMword := BitVec.ofNat 32 (unit * field h lo len)

/-- A right shift by the number 0 is one by 32. -/
def rightShift (n : Nat) : Nat := if n = 0 then 32 else n

/-- The instruction that a halfword encodes, in the formats 1 to 4 and 6 to 13. -/
def ofHalfword (h : BitVec 16) : Option Thumb :=
  match field h 11 5 with
  | 0b00000 => some (.shift .lsl (field h 6 5) (lowReg h 3) (lowReg h 0))
  | 0b00001 => some (.shift .lsr (rightShift (field h 6 5)) (lowReg h 3) (lowReg h 0))
  | 0b00010 => some (.shift .asr (rightShift (field h 6 5)) (lowReg h 3) (lowReg h 0))
  | 0b00011 =>
    match field h 9 2 with
    | 0 => some (.add (lowReg h 3) (lowReg h 0) (.reg (lowReg h 6)))
    | 1 => some (.sub (lowReg h 3) (lowReg h 0) (.reg (lowReg h 6)))
    | 2 => some (.add (lowReg h 3) (lowReg h 0) (.imm (number h 6 3 1)))
    | _ => some (.sub (lowReg h 3) (lowReg h 0) (.imm (number h 6 3 1)))
  | 0b00100 => some (.mov (lowReg h 8) (number h 0 8 1))
  | 0b00101 => some (.cmp (lowReg h 8) (number h 0 8 1))
  | 0b00110 => some (.add (lowReg h 8) (lowReg h 8) (.imm (number h 0 8 1)))
  | 0b00111 => some (.sub (lowReg h 8) (lowReg h 8) (.imm (number h 0 8 1)))
  | 0b01000 =>
    if h.getLsbD 10 then none
    else some (.alu (ThumbAlu.ofBits (field h 6 4)) (lowReg h 3) (lowReg h 0))
  | 0b01001 => some (.transfer .ldr (lowReg h 8) 15 (.imm (number h 0 8 4)))
  | 0b01010 | 0b01011 =>
    some (.transfer (ThumbTransfer.ofBits (field h 9 3)) (lowReg h 0) (lowReg h 3)
      (.reg (lowReg h 6)))
  | 0b01100 => some (.transfer .str (lowReg h 0) (lowReg h 3) (.imm (number h 6 5 4)))
  | 0b01101 => some (.transfer .ldr (lowReg h 0) (lowReg h 3) (.imm (number h 6 5 4)))
  | 0b01110 => some (.transfer .strb (lowReg h 0) (lowReg h 3) (.imm (number h 6 5 1)))
  | 0b01111 => some (.transfer .ldrb (lowReg h 0) (lowReg h 3) (.imm (number h 6 5 1)))
  | 0b10000 => some (.transfer .strh (lowReg h 0) (lowReg h 3) (.imm (number h 6 5 2)))
  | 0b10001 => some (.transfer .ldrh (lowReg h 0) (lowReg h 3) (.imm (number h 6 5 2)))
  | 0b10010 => some (.transfer .str (lowReg h 8) 13 (.imm (number h 0 8 4)))
  | 0b10011 => some (.transfer .ldr (lowReg h 8) 13 (.imm (number h 0 8 4)))
  | 0b10100 => some (.address (lowReg h 8) 15 (number h 0 8 4))
  | 0b10101 => some (.address (lowReg h 8) 13 (number h 0 8 4))
  | 0b10110 =>
    if field h 8 3 = 0 then
      some (.address 13 13 (if h.getLsbD 7 then -number h 0 7 4 else number h 0 7 4))
    else none
  | _ => none

end Thumb

/-! ## Effects -/

namespace ThumbTransfer

def datatype : ThumbTransfer → DataType
  | str | ldr => .word
  | strh | ldrh | ldrsh => .halfword
  | strb | ldrb | ldrsb => .byte

def isLoad : ThumbTransfer → Bool
  | str | strh | strb => false
  | _ => true

/-- The register after a load of `data`. -/
def extend (data : ARMword) : ThumbTransfer → ARMword
  | ldrsb => (data.setWidth 8).signExtend 32
  | ldrsh => (data.setWidth 16).signExtend 32
  | _ => data

end ThumbTransfer

namespace Thumb

variable {U : Type} (ops : MmuOps U) (pc : ARMword) (s : State U)

/-- A base register; register 15 is the address of the instruction plus 4, of a word. -/
def baseValue (r : RegNo) : ARMword := if r = 15 then (pc + 4) &&& ~~~3 else s.reg r

def operandValue : ThumbOperand → ARMword
  | .reg r => s.reg r
  | .imm v => v

/-- The effect of an operation of format 4. -/
def aluEffect (rs rd : RegNo) : ThumbAlu → State U
  | .and => s.valueTo (s.reg rd &&& s.reg rs) rd
  | .eor => s.valueTo (s.reg rd ^^^ s.reg rs) rd
  | .lsl => s.shiftTo .lsl (s.reg rd) ((s.reg rs).toNat % 256) rd
  | .lsr => s.shiftTo .lsr (s.reg rd) ((s.reg rs).toNat % 256) rd
  | .asr => s.shiftTo .asr (s.reg rd) ((s.reg rs).toNat % 256) rd
  | .adc => s.sumTo (s.reg rd) (s.reg rs) s.cFlag rd
  | .sbc => s.sumTo (s.reg rd) (~~~s.reg rs) s.cFlag rd
  | .ror => s.shiftTo .ror (s.reg rd) ((s.reg rs).toNat % 256) rd
  | .tst => s.withNZ (s.reg rd &&& s.reg rs)
  | .neg => s.sumTo 0 (~~~s.reg rs) true rd
  | .cmp => s.withSum (s.reg rd) (~~~s.reg rs) true
  | .cmn => s.withSum (s.reg rd) (s.reg rs) false
  | .orr => s.valueTo (s.reg rd ||| s.reg rs) rd
  | .mul => s.valueTo (s.reg rd * s.reg rs) rd
  | .bic => s.valueTo (s.reg rd &&& ~~~s.reg rs) rd
  | .mvn => s.valueTo (~~~s.reg rs) rd

/-- The effect of a transfer, or the state in which its data abort is taken. -/
def transferEffect (k : ThumbTransfer) (rd : RegNo) (address : ARMword) :
    Except (State U) (State U) :=
  if k.isLoad then
    match ops.read s.cpu s.mmu address k.datatype with
    | (.ok data, mmu) => .ok ((s.accessed mmu).setReg rd (k.extend data))
    | (.error f, mmu) => .error (s.dataAbort mmu f address)
  else
    match ops.write s.cpu s.mmu address k.datatype (s.reg rd) with
    | (none, mmu) => .ok (s.accessed mmu)
    | (some f, mmu) => .error (s.dataAbort mmu f address)

/-- The effect of the instruction at `pc`. -/
def effect : Thumb → Except (State U) (State U)
  | .shift op n rs rd => .ok (s.shiftTo op (s.reg rs) n rd)
  | .add rs rd o => .ok (s.sumTo (s.reg rs) (operandValue s o) false rd)
  | .sub rs rd o => .ok (s.sumTo (s.reg rs) (~~~operandValue s o) true rd)
  | .mov rd v => .ok (s.valueTo v rd)
  | .cmp rd v => .ok (s.withSum (s.reg rd) (~~~v) true)
  | .alu op rs rd => .ok (aluEffect s rs rd op)
  | .transfer k rd base o => transferEffect ops s k rd (baseValue pc s base + operandValue s o)
  | .address rd base offset => .ok (s.setReg rd (baseValue pc s base + offset))

/-- The effect is defined: a product does not replace its own factor, and the address of a
transfer is a multiple of the datum's size or the transfer aborts. -/
def predictable : Thumb → Bool
  | .alu .mul rs rd => rs != rd
  | .transfer k rd base o =>
    let address := baseValue pc s base + operandValue s o
    address.toNat % (k.datatype.bits / 8) == 0 || !(transferEffect ops s k rd address).isOk
  | _ => true

theorem aligned_of_predictable {ops : MmuOps U} {pc : ARMword} {s t : State U}
    {k : ThumbTransfer} {rd base : RegNo} {o : ThumbOperand}
    (hp : predictable ops pc s (.transfer k rd base o) = true)
    (ht : transferEffect ops s k rd (baseValue pc s base + operandValue s o) = .ok t) :
    (baseValue pc s base + operandValue s o).toNat % (k.datatype.bits / 8) = 0 := by
  simp only [predictable, ht, Except.isOk, Except.toBool, Bool.not_true, Bool.or_false] at hp
  exact eq_of_beq hp

end Thumb

end SkyEye

/-!
## ARM words by their fields

The decoder's results as an operation, two registers and a last operand.
-/

namespace SkyEye

/-- The operation, two registers and the last operand of an instruction. -/
def armWord (op : BitVec 12) (rn rd : BitVec 4) (low : BitVec 12) : ARMword :=
  op ++ rn ++ rd ++ low

section Fields

variable (op : BitVec 12) (rn rd : BitVec 4) (low : BitVec 12)

theorem getLsbD_armWord (i : Nat) : (armWord op rn rd low).getLsbD i =
    if i < 12 then low.getLsbD i
    else if i < 16 then rd.getLsbD (i - 12)
    else if i < 20 then rn.getLsbD (i - 16)
    else op.getLsbD (i - 20) := by
  simp only [armWord, BitVec.getLsbD_append]
  grind

@[simp] theorem lhsReg_armWord : lhsReg (armWord op rn rd low) = rn.toFin := by
  refine congrArg BitVec.toFin ?_
  ext i hi
  simp only [BitVec.getElem_extractLsb', getLsbD_armWord]
  grind

@[simp] theorem destReg_armWord : destReg (armWord op rn rd low) = rd.toFin := by
  refine congrArg BitVec.toFin ?_
  ext i hi
  simp only [BitVec.getElem_extractLsb', getLsbD_armWord]
  grind

@[simp] theorem rhsReg_armWord :
    rhsReg (armWord op rn rd low) = (low.extractLsb' 0 4).toFin := by
  refine congrArg BitVec.toFin ?_
  ext i hi
  simp only [BitVec.getElem_extractLsb', getLsbD_armWord]
  grind

@[simp] theorem shiftReg_armWord :
    shiftReg (armWord op rn rd low) = (low.extractLsb' 8 4).toFin := by
  refine congrArg BitVec.toFin ?_
  ext i hi
  simp only [BitVec.getElem_extractLsb', getLsbD_armWord]
  grind

/-- Bits of the operation. -/
theorem bits_armWord_op {m n : Nat} (hm : 20 ≤ m) :
    bits (armWord op rn rd low) m n = (op.extractLsb' (m - 20) (n + 1 - m)).toNat := by
  refine congrArg BitVec.toNat ?_
  ext i hi
  simp only [BitVec.getElem_extractLsb', getLsbD_armWord]
  grind

/-- Bits of the last operand. -/
theorem bits_armWord_low {m n : Nat} (hn : n < 12) :
    bits (armWord op rn rd low) m n = (low.extractLsb' m (n + 1 - m)).toNat := by
  refine congrArg BitVec.toNat ?_
  ext i hi
  simp only [BitVec.getElem_extractLsb', getLsbD_armWord]
  grind

end Fields

end SkyEye
