import SkyEye.Mips.Cp0

/-!
# The decoder

`decode` of `decoder.c` and `mips_step_once` of `mips_arch_interface.c`. An instruction
returns what `pipeline` is to be for the next one; it may also change `pipeline` itself, and
`mips_step_once` moves the PC by that. Reserved instructions make the simulator exit.
-/

namespace SkyEye.Mips

open Sparc (Uint32 bit bitsmask setBit clearBit clearBits)

/-- `sign_extend_UInt32`; 0 for a width of 32. -/
def signExtendUInt32 (x : Uint32) (n : Nat) : Uint32 :=
  if n < 32 then
    if bit x (n - 1) then x ||| bitsmask 31 n else clearBits x 31 n
  else 0

/-- `offset(instr)`, extended. -/
def signedOffset (instr : Uint32) : Uint32 := signExtendUInt32 (offset instr) 16

/-- A comparison's result as a register value. -/
def ofBool (b : Bool) : Uint32 := if b then 1 else 0

/-- The loop of CLZ, from bit `i - 1` down: the zeros above the first set bit. -/
def countZeros (x : Uint32) : Nat → Nat
  | 0 => 32
  | i + 1 => if bit x i then 31 - i else countZeros x i

namespace MipsState

variable {M : Type} (h : Host M) (s : MipsState M)

/-- What an instruction leaves and returns. -/
abbrev Outcome (M : Type) := Option (MipsState M × Pipeline)

/-- `return nothing_special` -/
def plain (s : MipsState M) : Outcome M := some (s, .nothingSpecial)

/-! ## Branches -/

/-- A branch by `offset(instr)`; where it is not taken, to the instruction behind the slot. -/
def branch (taken : Bool) (instr : Uint32) : Outcome M :=
  some ({ s with
    branchTarget := if taken then s.pc + 4 + (signedOffset instr <<< 2) else s.pc + 8 },
    .branchDelay)

/-- A likely branch; where it is not taken the slot is left out. -/
def branchLikely (taken : Bool) (instr : Uint32) : Outcome M :=
  if taken then s.branch true instr
  else some ({ s with branchTarget := s.pc + 8, pipeline := .branchDelay }, .nothingSpecial)

/-- The end of JR and JALR. -/
def jumpRegister : Outcome M :=
  some (s, if Sparc.bits s.branchTarget 1 0 ≠ 0 then .instrAddrError else .branchDelay)

/-- `branch_target` of J and JAL. -/
def jumpTarget (instr : Uint32) : Uint32 := clearBits (s.pc + 4) 27 0 ||| (target instr <<< 2)

/-! ## Memory -/

/-- `if (translate_vaddr(...) != TLB_SUCC) return nothing_special;`, then the rest. -/
def translated (va : Uint32) (type : AccessType)
    (k : Uint32 → MipsState M → Outcome M) : Outcome M :=
  match s.translateVaddr va type with
  | none => none
  | some (none, s) => s.plain
  | some (some pa, s) => k pa s

/-- The address of a load or store. -/
def effective (instr : Uint32) : Uint32 := signedOffset instr + s.gpr (rs instr)

/-- A load of `len` bytes; `extend` makes the register value. -/
def loadInstr (instr : Uint32) (len : Nat) (extend : Uint32 → Uint32) : Outcome M :=
  s.translated (s.effective instr) .dataLoad fun pa s =>
    let (y, s) := s.memRead h pa 0 len
    (s.setGpr (rt instr) (extend y)).plain

/-- A store of the low `len` bytes of `gpr[rt]`. -/
def storeInstr (instr : Uint32) (len : Nat) : Outcome M :=
  s.translated (s.effective instr) .dataStore fun pa s =>
    (s.memWrite h pa (s.gpr (rt instr)) len).plain

/-- The test of the alignment in LH, LHU, LW and SH: it does not return. -/
def checkAligned (aligned : Bool) (va : Uint32) (type : AccessType) : MipsState M :=
  if aligned then s else s.processAddressError type va

/-- `round_down(x, 4)` -/
def roundDown4 (x : Uint32) : Uint32 := x &&& 0xFFFFFFFC

/-- `syscmd` of LWL and SWL (`left`), LWR and SWR: the byte position, by endianness. -/
def syscmd (left : Bool) (va : Uint32) : Nat :=
  let c := Sparc.bits va 1 0
  (if (s.mode &&& bmode != 0) == left then c else c ^^^ bitsmask 1 0).toNat

/-- LWL and LWR; `merge` puts the memory word into the register. -/
def loadPart (instr : Uint32) (left : Bool) (merge : Uint32 → Uint32 → Nat → Uint32) :
    Outcome M :=
  let va := s.effective instr
  s.translated va .dataLoad fun pa s =>
    let (mem, s) := s.memRead h (roundDown4 pa) 0 4
    (s.setGpr (rt instr) (merge (s.gpr (rt instr)) mem (s.syscmd left va))).plain

/-- SWL and SWR; `merge` puts the register into the memory word. -/
def storePart (instr : Uint32) (left : Bool) (merge : Uint32 → Uint32 → Nat → Uint32) :
    Outcome M :=
  let va := s.effective instr
  s.translated va .dataStore fun pa s =>
    let (mem, s) := s.memRead h (roundDown4 pa) 0 4
    (s.memWrite h (roundDown4 pa) (merge mem (s.gpr (rt instr)) (s.syscmd left va)) 4).plain

/-- `copy_bits(x, y, 31, syscmd * 8)` -/
def mergeHigh (x y : Uint32) (syscmd : Nat) : Uint32 := copyBits x y 31 (syscmd * 8)

/-- `copy_bits(x, bits(y, 31, syscmd * 8), 31 - syscmd * 8, 0)` -/
def mergeLow (x y : Uint32) (syscmd : Nat) : Uint32 :=
  copyBits x (Sparc.bits y 31 (syscmd * 8)) (31 - syscmd * 8) 0

/-- LL -/
def loadLinked (instr : Uint32) : Outcome M :=
  s.translated (s.effective instr) .dataLoad fun pa s =>
    let (data, s) := s.memRead h pa h.uninit 4
    (s.setGpr (rt instr) data).plain

/-- SC -/
def storeConditional (instr : Uint32) : Outcome M :=
  s.translated (s.effective instr) .dataLoad fun pa s =>
    ((s.memWrite h pa (s.gpr (rt instr)) 4).setGpr (rt instr) 1).plain

/-! ## Arithmetic -/

/-- `MulResult` of a 64-bit product, and the accumulator of MADD. -/
def setHiLo (z : BitVec 64) : MipsState M :=
  { s with hi := (z >>> 32).setWidth 32, lo := z.setWidth 32 }

/-- `divide_Int32`: `ldiv` with 64-bit longs; none where the host's division traps. -/
def divideInt32 (x y : Uint32) : Option (MipsState M) :=
  if y = 0 then none
  else some { s with
    lo := BitVec.ofInt 32 (x.toInt.tdiv y.toInt), hi := BitVec.ofInt 32 (x.toInt.tmod y.toInt) }

def divideUInt32 (x y : Uint32) : Option (MipsState M) :=
  if y = 0 then none else some { s with lo := x / y, hi := x % y }

/-- ADD and ADDI: the exception is raised, and the result still written. -/
def addOverflow (r : Nat) (x y : Uint32) : Outcome M :=
  let z := x + y
  let s := if !bit (x ^^^ y) 31 && bit (x ^^^ z) 31 then s.processIntegerOverflow else s
  (s.setGpr r z).plain

/-- SUB -/
def subOverflow (r : Nat) (x y : Uint32) : Outcome M :=
  let z := x - y
  let s := if (y.slt 0 && z.slt x) || ((0 : Uint32).slt y && x.slt z) then
    s.processIntegerOverflow else s
  (s.setGpr r z).plain

/-! ## The instructions -/

/-- The `switch` over `function(instr)` under SPECIAL. -/
def decodeSpecial (instr : Uint32) : Outcome M :=
  let x := s.gpr (rs instr)
  let y := s.gpr (rt instr)
  let write (v : Uint32) : Outcome M := (s.setGpr (rd instr) v).plain
  match funct instr with
  | 0o00 => if rd instr ≠ 0 then write (y <<< shamt instr) else s.plain
  | 0o02 => write (y >>> shamt instr)
  | 0o03 => write (signExtendUInt32 (y >>> shamt instr) (32 - shamt instr))
  | 0o04 => write (y <<< (Sparc.bits x 4 0).toNat)
  | 0o06 => write (y >>> (Sparc.bits x 4 0).toNat)
  | 0o07 =>
    let n := (Sparc.bits x 4 0).toNat
    write ((if bit y 31 then ~~~((0xFFFFFFFF : Uint32) >>> n) else 0) ||| (y >>> n))
  | 0o10 => { s with branchTarget := x }.jumpRegister
  | 0o11 => ({ s with branchTarget := x }.setGpr (rd instr) (s.pc + 8)).jumpRegister
  | 0o12 => if y = 0 then write x else s.plain
  | 0o13 => if y ≠ 0 then write x else s.plain
  | 0o14 => s.processSyscall.plain
  | 0o15 => s.plain
  | 0o17 => s.plain
  | 0o20 => write s.hi
  | 0o21 => { s with hi := x }.plain
  | 0o22 => write s.lo
  | 0o23 => { s with lo := x }.plain
  | 0o30 => (s.setHiLo (x.setWidth 64 * y.setWidth 64)).plain
  | 0o31 => (s.setHiLo (x.setWidth 64 * y.setWidth 64)).plain
  | 0o32 => (s.divideInt32 x y).bind plain
  | 0o33 => (s.divideUInt32 x y).bind plain
  | 0o40 => s.addOverflow (rd instr) x y
  | 0o41 => write (x + y)
  | 0o42 => s.subOverflow (rd instr) x y
  | 0o43 => write (x - y)
  | 0o44 => write (x &&& y)
  | 0o45 => write (x ||| y)
  | 0o46 => write (x ^^^ y)
  | 0o47 => write (~~~(x ||| y))
  | 0o52 => write (ofBool (x.slt y))
  | 0o53 => write (ofBool (x.ult y))
  | 0o64 => s.plain
  | 0o66 => s.plain
  | _ => none

/-- The `switch` over `rt(instr)` under REGIMM. -/
def decodeRegimm (instr : Uint32) : Outcome M :=
  let x := s.gpr (rs instr)
  match rt instr with
  | 0o00 => s.branch (x.slt 0) instr
  | 0o01 => s.branch (!x.slt 0) instr
  | 0o02 => s.branchLikely (x.slt 0) instr
  | 0o03 => s.branchLikely (!x.slt 0) instr
  | 0o20 => (s.setGpr 31 (s.pc + 8)).branch (x.slt 0) instr
  | 0o21 => (s.setGpr 31 (s.pc + 8)).branch (!x.slt 0) instr
  | _ => none

/-- The `switch` over `function(instr)` under SPECIAL2: MADD, MUL and CLZ. -/
def decodeSpecial2 (instr : Uint32) : Outcome M :=
  let x := s.gpr (rs instr)
  let y := s.gpr (rt instr)
  match funct instr with
  | 0o00 =>
    let temp1 : BitVec 64 := (s.hi.setWidth 64 <<< 32) + s.lo.setWidth 64
    (s.setHiLo ((x * y).setWidth 64 + temp1)).plain
  | 0o02 => (s.setGpr (rd instr) (x * y)).plain
  | 0o40 => (s.setGpr (rd instr) (BitVec.ofNat 32 (countZeros x 32))).plain
  | _ => none

/-- The arithmetic instructions with an immediate, from ADDI to LUI. -/
def decodeImmediate (instr : Uint32) : Outcome M :=
  let x := s.gpr (rs instr)
  let imm := offset instr
  let simm := signedOffset instr
  let write (v : Uint32) : Outcome M := (s.setGpr (rt instr) v).plain
  match opcode instr with
  | 0o10 => s.addOverflow (rt instr) x simm
  | 0o11 => write (x + simm)
  | 0o12 => write (ofBool (x.slt simm))
  | 0o13 => write (ofBool (x.ult simm))
  | 0o14 => write (Sparc.bits x 15 0 &&& imm)
  | 0o15 => write (x ||| imm)
  | 0o16 => write (x ^^^ imm)
  | _ => write (imm <<< 16)

/-- LH and LHU. -/
def loadHalf (instr : Uint32) (extend : Uint32 → Uint32) : Outcome M :=
  let va := s.effective instr
  let s := s.checkAligned (!bit va 0) va .dataLoad
  s.translated va .dataLoad fun pa s =>
    let (y, s) := s.memRead h pa 0 2
    (s.setGpr (rt instr) (extend y)).plain

/-- LW -/
def loadWord (instr : Uint32) : Outcome M :=
  let va := s.effective instr
  let s := s.checkAligned (va &&& 0x3 == 0) va .dataLoad
  s.translated va .dataLoad fun pa s =>
    let (y, s) := s.memRead h pa 0 4
    (s.setGpr (rt instr) y).plain

/-- SH -/
def storeHalf (instr : Uint32) : Outcome M :=
  let va := s.effective instr
  let s := s.checkAligned (!bit va 0) va .dataStore
  s.translated va .dataStore fun pa s => (s.memWrite h pa (s.gpr (rt instr)) 2).plain

/-- SW; the simulator exits at an address that is not aligned. -/
def storeWord (instr : Uint32) : Outcome M :=
  if Sparc.bits (s.effective instr) 1 0 ≠ 0 then none else s.storeInstr h instr 4

def decode (instr : Uint32) : Outcome M :=
  let x := s.gpr (rs instr)
  let y := s.gpr (rt instr)
  match opcode instr with
  | 0o00 => s.decodeSpecial instr
  | 0o01 => s.decodeRegimm instr
  | 0o02 => some ({ s with branchTarget := s.jumpTarget instr }, .branchDelay)
  | 0o03 =>
    some ({ s.setGpr 31 (s.pc + 8) with branchTarget := s.jumpTarget instr }, .branchDelay)
  | 0o04 => s.branch (x == y) instr
  | 0o05 => s.branch (x != y) instr
  | 0o06 => s.branch (!(0 : Uint32).slt x) instr
  | 0o07 => s.branch ((0 : Uint32).slt x) instr
  | 0o10 => s.decodeImmediate instr
  | 0o11 => s.decodeImmediate instr
  | 0o12 => s.decodeImmediate instr
  | 0o13 => s.decodeImmediate instr
  | 0o14 => s.decodeImmediate instr
  | 0o15 => s.decodeImmediate instr
  | 0o16 => s.decodeImmediate instr
  | 0o17 => s.decodeImmediate instr
  | 0o20 => s.decodeCop0 h instr
  | 0o21 => some (s.decodeCop1 instr)
  | 0o24 => s.branchLikely (x == y) instr
  | 0o25 => s.branchLikely (x != y) instr
  | 0o26 => s.branchLikely (!(0 : Uint32).slt x) instr
  | 0o27 => s.branchLikely ((0 : Uint32).slt x) instr
  | 0o34 => s.decodeSpecial2 instr
  | 0o40 => s.loadInstr h instr 1 fun y => signExtendUInt32 (y &&& 0xFF) 8
  | 0o41 => s.loadHalf h instr fun y => signExtendUInt32 (y &&& 0xFFFF) 16
  | 0o42 => s.loadPart h instr true mergeHigh
  | 0o43 => s.loadWord h instr
  | 0o44 => s.loadInstr h instr 1 fun y => y &&& 0xFF
  | 0o45 => s.loadHalf h instr fun y => y &&& 0xFFFF
  | 0o46 => s.loadPart h instr false mergeLow
  | 0o50 => s.storeInstr h instr 1
  | 0o51 => s.storeHalf h instr
  | 0o52 => s.storePart h instr true mergeLow
  | 0o53 => s.storeWord h instr
  | 0o56 => s.storePart h instr false mergeHigh
  | 0o57 => s.plain
  | 0o60 => s.loadLinked h instr
  | 0o61 => s.plain
  | 0o63 => s.plain
  | 0o70 => s.storeConditional h instr
  | 0o71 => s.plain
  | _ => none

/-! ## One step -/

/-- `mips_trigger_irq` -/
def triggerIrq : MipsState M :=
  let slot := s.branchDelaySlot
  let epc := if slot then s.pc - 4 else s.pc
  let cause := if slot then setBit (s.cp0 Cause) Cause_BD else s.cp0 Cause
  let s := (s.setCp0 Cause cause).setCp0 EPC epc
  { s with
    pc := if bit (s.cp0 SR) SR_BEV then 0xBFC00380 else 0x80000180
    pipeline := .nothingSpecial }

/-- Count against Compare: Count starts again, and the interrupt is taken if it can be now. -/
def tick : MipsState M :=
  if s.cp0 Compare = 0 then s
  else
    let s := s.setCp0 Count (s.cp0 Count + 1)
    if s.cp0 Count < s.cp0 Compare then s
    else
      let s := s.setCp0 Count 0
      if bit (s.cp0 SR) SR_IEC && bit (s.cp0 SR) SR_IM7 && !bit (s.cp0 Cause) Cause_IP7 &&
          !bit (s.cp0 SR) 1 then
        let s := s.setCp0 Cause (setBit (s.cp0 Cause) Cause_IP7)
        s.processException EXC_Int commonVector
      else s

/-- `mips_step_once` behind the instruction, which returned `nextState`. -/
def finish (nextState : Pipeline) : MipsState M :=
  match s.pipeline with
  | .nothingSpecial => h.machIoDoCycle { s with pc := s.pc + 4, pipeline := nextState }.tick
  | .branchDelay => h.machIoDoCycle { s with pc := s.branchTarget, pipeline := nextState }.tick
  | .instrAddrError =>
    { s.processAddressError .instrFetch s.branchTarget with pipeline := .nothingSpecial }
  | .branchNodelay => { s with pipeline := .nothingSpecial }

/-- `mips_step_once` up to the fetch. -/
def prepare : MipsState M :=
  let s := s.setGpr 0 0
  if s.irqPending then s.triggerIrq else s

/-- The fetch and the instruction. -/
def fetchDecode : Outcome M :=
  s.translated s.pc .instrFetch fun pa s =>
    let (instr, s) := s.memRead h pa h.uninit 4
    s.decode h instr

/-- `mips_step_once`; none where the simulator exits. -/
def stepOnce : Option (MipsState M) :=
  (s.prepare.fetchDecode h).map fun (s, nextState) => s.finish h nextState

end MipsState

end SkyEye.Mips
