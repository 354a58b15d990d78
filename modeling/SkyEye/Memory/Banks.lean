import SkyEye.Mmu.Ram
import Mathlib.Data.List.Basic

/-!
# Memory banks

`ram.c` and `bank_ptr` of `bank_ops.c`. Memory is a number of banks, each an array of
words that is found by the bank's address; the lane of a byte or halfword in its word is
taken from the address itself. `mem_write_halfword` updates an `unsigned long`: on hosts
where that is eight bytes the upper four are written back as they were.
-/

namespace SkyEye

/-- What opening and reading a bank's `filename` gives. -/
inductive BankFile where
  | noName
  | unreadable
  | contents (bytes : List (BitVec 8))

/-- `MEMTYPE_IO` and so on. -/
inductive MemType where
  | io
  | ram
  | rom
  | flash
  deriving DecidableEq

/-- `mem_bank_t` -/
structure MemBank where
  addr : ARMword
  len : ARMword
  file : BankFile
  type : MemType

/-- The test of `bank_ptr`. -/
def MemBank.contains (b : MemBank) (addr : ARMword) : Bool :=
  decide (b.addr ≤ addr) && decide (addr - b.addr < b.len)

/-- `(addr - bank->addr) >> 2` -/
def MemBank.wordIndex (b : MemBank) (addr : ARMword) : Nat := ((addr - b.addr) >>> 2).toNat

/-- The memory map and `global_memory`: `memBanks` are the entries before the first of
length 0, `rom` the words of each bank, and `mbp` the bank that `bank_ptr` found last. -/
structure Banks where
  memBanks : List MemBank
  rom : Nat → Nat → ARMword
  bigEndian : Bool
  mbp : Option Nat

namespace Banks

variable (m : Banks)

/-- `bank_ptr`: the bank found last is tried first. What is found becomes `mbp`. -/
def bankPtr (addr : ARMword) : Option Nat :=
  match m.mbp.filter fun i => (m.memBanks[i]?).any (·.contains addr) with
  | some i => some i
  | none => m.memBanks.findIdx? (·.contains addr)

/-- `mem_read`, for the three sizes; none where no bank is found, which the code does not
check. -/
def memRead (datatype : DataType) (addr : ARMword) : Option ARMword × Banks :=
  let mbp := m.bankPtr addr
  let value := mbp.bind fun i => (m.memBanks[i]?).map fun b =>
    readLane m.bigEndian datatype addr (m.rom i (b.wordIndex addr))
  (value, { m with mbp := mbp })

/-- `mem_write`, for the three sizes. -/
def memWrite (datatype : DataType) (addr data : ARMword) : Banks :=
  let mbp := m.bankPtr addr
  let rom := match mbp.bind fun i => (m.memBanks[i]?).map (i, ·) with
    | none => m.rom
    | some (i, b) =>
      let k := b.wordIndex addr
      let word := writeLane m.bigEndian datatype addr data (m.rom i k)
      Function.update m.rom i (Function.update (m.rom i) k word)
  { m with rom := rom, mbp := mbp }

/-! ## Loading -/

/-- The word that `mem_reset` makes of four bytes, each a `char` first. -/
def swap (bigEndian : Bool) (p0 p1 p2 p3 : BitVec 8) : ARMword :=
  if bigEndian then
    p3.signExtend 32 ||| p2.signExtend 32 <<< 8 ||| p1.signExtend 32 <<< 16 |||
      p0.signExtend 32 <<< 24
  else
    p0.signExtend 32 ||| p1.signExtend 32 <<< 8 ||| p2.signExtend 32 <<< 16 |||
      p3.signExtend 32 <<< 24

/-- Byte `i` of a bank's memory when its file was read into it. -/
def fileByte (len : Nat) (bytes : List (BitVec 8)) (i : Nat) : BitVec 8 :=
  (bytes.take len).getD i 0

/-- The words of a bank after `mem_reset`; none where it exits. -/
def loadBank (bigEndian : Bool) (b : MemBank) (old : Nat → ARMword) : Option (Nat → ARMword) :=
  match b.type with
  | .io => some old
  | _ =>
    match b.file with
    | .noName => some fun _ => 0
    | .unreadable => none
    | .contents bytes =>
      if (bytes.take b.len.toNat).length = 0 then none
      else
        let p := fileByte b.len.toNat bytes
        some fun k =>
          if 4 * k < b.len.toNat then
            swap bigEndian (p (4 * k)) (p (4 * k + 1)) (p (4 * k + 2)) (p (4 * k + 3))
          else 0

/-- The loop of `mem_reset` over the banks, from number `i` on. -/
def resetFrom (bigEndian : Bool) : List MemBank → Nat → (Nat → Nat → ARMword) →
    Option (Nat → Nat → ARMword)
  | [], _, rom => some rom
  | b :: banks, i, rom =>
    match loadBank bigEndian b (rom i) with
    | none => none
    | some words => resetFrom bigEndian banks (i + 1) (Function.update rom i words)

def memReset : Option Banks :=
  (resetFrom m.bigEndian m.memBanks 0 m.rom).map fun rom => { m with rom := rom }

end Banks

end SkyEye
