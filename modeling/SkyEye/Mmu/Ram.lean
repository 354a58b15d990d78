import Mathlib.Logic.Function.Basic
import SkyEye.Lib.Word

/-!
# Words and processor modes

The 32-bit word of the source and the mode numbers of `armdefs.h`.
-/

namespace SkyEye

abbrev ARMword := BitVec 32

/-- A C truth value as a word. -/
def toWord (b : Bool) : ARMword := if b then 1 else 0

def USER26MODE : ARMword := 0
def FIQ26MODE : ARMword := 1
def IRQ26MODE : ARMword := 2
def SVC26MODE : ARMword := 3
def USER32MODE : ARMword := 16
def FIQ32MODE : ARMword := 17
def IRQ32MODE : ARMword := 18
def SVC32MODE : ARMword := 19
def ABORT32MODE : ARMword := 23
def UNDEF32MODE : ARMword := 27
def SYSTEM32MODE : ARMword := 31

end SkyEye

/-!
## Memory behind the bus

`ram.c`: memory is an array of words; bytes and halfwords are lanes of a word,
counted from the top when the machine is big-endian. The caches keep words too and
read and write the same lanes.
-/

namespace SkyEye

/-- `ARM_BYTE_TYPE`, `ARM_HALFWORD_TYPE` and `ARM_WORD_TYPE`; on the bus 8, 16 and 32. -/
inductive DataType where
  | byte
  | halfword
  | word
  deriving DecidableEq, Repr

/-! ## Lanes of a word -/

/-- The bit offset into the word. -/
def laneOffset (bigend : Bool) (datatype : DataType) (addr : ARMword) : Nat :=
  match datatype with
  | .byte => (((toWord bigend * 3) ^^^ (addr &&& 3)) <<< 3).toNat
  | .halfword => (((toWord bigend * 2) ^^^ (addr &&& 2)) <<< 3).toNat
  | .word => 0

def laneMask : DataType → ARMword
  | .byte => 0xff
  | .halfword => 0xffff
  | .word => 0xffffffff

def readLane (bigend : Bool) (datatype : DataType) (addr word : ARMword) : ARMword :=
  (word >>> laneOffset bigend datatype addr) &&& laneMask datatype

def writeLane (bigend : Bool) (datatype : DataType) (addr data word : ARMword) : ARMword :=
  let offset := laneOffset bigend datatype addr
  (word &&& ~~~(laneMask datatype <<< offset)) ||| ((data &&& laneMask datatype) <<< offset)

/-- Writing a whole word forgets the old one. -/
@[simp] theorem writeLane_word (bigend : Bool) (addr data word : ARMword) :
    writeLane bigend .word addr data word = data := by
  have h : ~~~(0xffffffff : ARMword) = 0#32 := rfl
  simp only [writeLane, laneOffset, laneMask, BitVec.shiftLeft_zero, h, BitVec.and_zero,
    BitVec.zero_or]
  exact BitVec.and_allOnes

@[simp] theorem readLane_word (bigend : Bool) (addr word : ARMword) :
    readLane bigend .word addr word = word := by
  simp only [readLane, laneOffset, laneMask, BitVec.ushiftRight_zero]
  exact BitVec.and_allOnes

/-- Bits in a datum of the type. -/
def DataType.bits : DataType → Nat
  | .byte => 8
  | .halfword => 16
  | .word => 32

theorem getLsbD_laneMask (datatype : DataType) (i : Nat) :
    (laneMask datatype).getLsbD i = decide (i < datatype.bits) := by
  have hm : laneMask datatype = BitVec.ofNat 32 (2 ^ datatype.bits - 1) := by
    cases datatype <;> rfl
  have hb : datatype.bits ≤ 32 := by cases datatype <;> decide
  rw [hm, BitVec.getLsbD_ofNat, Nat.testBit_two_pow_sub_one]
  by_cases h : i < datatype.bits
  · have hi : i < 32 := Nat.lt_of_lt_of_le h hb
    simp [h, hi]
  · simp [h]

theorem getLsbD_readLane (bigend : Bool) (datatype : DataType) (addr word : ARMword) (i : Nat) :
    (readLane bigend datatype addr word).getLsbD i =
      (decide (i < datatype.bits) && word.getLsbD (laneOffset bigend datatype addr + i)) := by
  rw [readLane, BitVec.getLsbD_and, getLsbD_laneMask, BitVec.getLsbD_ushiftRight, Bool.and_comm]

theorem getLsbD_writeLane (bigend : Bool) (datatype : DataType) (addr data word : ARMword)
    {i : Nat} (hi : i < 32) :
    (writeLane bigend datatype addr data word).getLsbD i =
      if laneOffset bigend datatype addr ≤ i ∧
          i < laneOffset bigend datatype addr + datatype.bits then
        data.getLsbD (i - laneOffset bigend datatype addr)
      else word.getLsbD i := by
  simp only [writeLane, BitVec.getLsbD_or, BitVec.getLsbD_and, BitVec.getLsbD_not,
    BitVec.getLsbD_shiftLeft, getLsbD_laneMask, hi, decide_true, Bool.true_and]
  generalize laneOffset bigend datatype addr = o
  by_cases h1 : i < o
  · have h2 : ¬ o ≤ i := by omega
    simp [h1, h2]
  · have h2 : o ≤ i := by omega
    by_cases h3 : i < o + datatype.bits
    · have h4 : i - o < datatype.bits := by omega
      simp [h1, h2, h3, h4]
    · have h4 : ¬ i - o < datatype.bits := by omega
      simp [h1, h2, h3, h4]

/-- A lane lies within its word. -/
theorem laneOffset_add_bits_le (bigend : Bool) (datatype : DataType) (addr : ARMword) :
    laneOffset bigend datatype addr + datatype.bits ≤ 32 := by
  have h2 := Word.and_two_eq addr
  cases datatype with
  | word => exact Nat.le_refl 32
  | halfword =>
    simp only [laneOffset, h2]
    rcases Word.and_three_cases addr with h | h | h | h <;> rw [h] <;> cases bigend <;> decide
  | byte =>
    simp only [laneOffset]
    rcases Word.and_three_cases addr with h | h | h | h <;> rw [h] <;> cases bigend <;> decide

/-- Writing a lane changes nothing exactly if the lane holds the datum. -/
theorem writeLane_eq_self_iff (bigend : Bool) (datatype : DataType) (addr data word : ARMword) :
    writeLane bigend datatype addr data word = word ↔
      readLane bigend datatype addr word = data &&& laneMask datatype := by
  have ho := laneOffset_add_bits_le bigend datatype addr
  constructor
  · intro h
    apply BitVec.eq_of_getLsbD_eq
    intro i _
    rw [← h, getLsbD_readLane, BitVec.getLsbD_and, getLsbD_laneMask]
    by_cases hi : i < datatype.bits
    · rw [getLsbD_writeLane _ _ _ _ _ (by omega), if_pos (by omega), Nat.add_sub_cancel_left,
        Bool.and_comm]
    · simp [hi]
  · intro h
    apply BitVec.eq_of_getLsbD_eq
    intro i hi
    rw [getLsbD_writeLane _ _ _ _ _ hi]
    split
    · rename_i hl
      have hb := congrArg (·.getLsbD (i - laneOffset bigend datatype addr)) h
      have h1 : i - laneOffset bigend datatype addr < datatype.bits := by omega
      have h2 : laneOffset bigend datatype addr + (i - laneOffset bigend datatype addr) = i := by
        omega
      simp only [getLsbD_readLane, BitVec.getLsbD_and, getLsbD_laneMask, h1, h2, decide_true,
        Bool.true_and, Bool.and_true] at hb
      exact hb.symm
    · rfl

/-- Where the lane of a little-endian word starts. -/
theorem laneOffset_false (datatype : DataType) (a : ARMword) :
    laneOffset false datatype a =
      match datatype with
      | .byte => 8 * (a.toNat % 4)
      | .halfword => 16 * (a.toNat / 2 % 2)
      | .word => 0 := by
  have h3 : (a &&& 3).toNat = a.toNat % 4 := Word.toNat_and_low a 2 (by omega)
  have h2 := Word.and_two_eq a
  have hd : a.toNat / 2 % 2 = a.toNat % 4 / 2 := by omega
  cases datatype with
  | word => rfl
  | halfword =>
    simp only [laneOffset, h2, hd, ← h3]
    rcases Word.and_three_cases a with h | h | h | h <;> rw [h] <;> rfl
  | byte =>
    simp only [laneOffset, ← h3]
    rcases Word.and_three_cases a with h | h | h | h <;> rw [h] <;> rfl

/-- Bytes in a datum of the type. -/
def DataType.bytes : DataType → Nat
  | .byte => 1
  | .halfword => 2
  | .word => 4

theorem DataType.bits_eq (datatype : DataType) : datatype.bits = 8 * datatype.bytes := by
  cases datatype <;> rfl

/-- Where the lane of an aligned access starts, in either order. -/
theorem laneOffset_aligned (bigend : Bool) {datatype : DataType} {a : ARMword}
    (ha : a.toNat % datatype.bytes = 0) :
    laneOffset bigend datatype a =
      if bigend then 8 * (4 - datatype.bytes - a.toNat % 4) else 8 * (a.toNat % 4) := by
  have h3 : (a &&& 3).toNat = a.toNat % 4 := Word.toNat_and_low a 2 (by omega)
  have h2 := Word.and_two_eq a
  cases datatype with
  | word =>
    have h0 : a.toNat % 4 = 0 := ha
    simp [laneOffset, DataType.bytes, h0]
  | halfword =>
    have h0 : a.toNat % 2 = 0 := ha
    have heven : a.toNat % 4 = 0 ∨ a.toNat % 4 = 2 := by omega
    simp only [laneOffset, DataType.bytes, h2]
    rcases Word.and_three_cases a with h | h | h | h <;> rw [h] at h3 ⊢
    · rw [← h3]; cases bigend <;> rfl
    · rw [← h3] at heven; exact absurd heven (by decide)
    · rw [← h3]; cases bigend <;> rfl
    · rw [← h3] at heven; exact absurd heven (by decide)
  | byte =>
    simp only [laneOffset, DataType.bytes, ← h3]
    rcases Word.and_three_cases a with h | h | h | h <;> rw [h] <;> cases bigend <;> rfl

/-! ## The banks -/

structure Ram where
  word : BitVec 30 → ARMword
  bigEndian : Bool

namespace Ram

/-- Memory as `mem_reset` clears it. -/
def cleared : Ram := ⟨fun _ => 0, false⟩

/-- `(addr - bank->addr) >> 2`, for banks at word boundaries. -/
def index (addr : ARMword) : BitVec 30 := addr.extractLsb' 2 30

def busRead (ram : Ram) (datatype : DataType) (addr : ARMword) : ARMword :=
  readLane ram.bigEndian datatype addr (ram.word (index addr))

def busWrite (ram : Ram) (datatype : DataType) (addr data : ARMword) : Ram :=
  let i := index addr
  let word := writeLane ram.bigEndian datatype addr data (ram.word i)
  { ram with word := Function.update ram.word i word }

/-- The address of a word. -/
def addr (i : BitVec 30) : ARMword := i ++ (0 : BitVec 2)

theorem toNat_addr (i : BitVec 30) : (addr i).toNat = 4 * i.toNat := by
  rw [addr, BitVec.toNat_append]
  simp [Nat.shiftLeft_eq, Nat.mul_comm]

theorem toNat_index (a : ARMword) : (index a).toNat = a.toNat / 4 := by
  rw [index, BitVec.extractLsb'_toNat, Nat.shiftRight_eq_div_pow]
  exact Nat.mod_eq_of_lt (by have := a.isLt; omega)

theorem index_addr (i : BitVec 30) : index (addr i) = i := by
  apply BitVec.eq_of_toNat_eq
  rw [toNat_index, toNat_addr]
  omega

theorem busWrite_word_eq {ram : Ram} (he : ram.bigEndian = false) (datatype : DataType)
    (a data : ARMword) :
    (ram.busWrite datatype a data).word = Function.update ram.word (index a)
      (writeLane false datatype a data (ram.word (index a))) := by
  rw [busWrite, he]

theorem busWrite_word (ram : Ram) (a data : ARMword) :
    (ram.busWrite .word a data).word = Function.update ram.word (index a) data := by
  rw [busWrite, writeLane_word]

theorem addr_index (a : ARMword) : addr (index a) = a &&& ~~~3 := by
  have hm : (~~~3 : ARMword) = BitVec.allOnes 32 <<< 2 := rfl
  apply BitVec.eq_of_toNat_eq
  rw [toNat_addr, toNat_index, hm, Word.toNat_and_high]
  omega

/-- Only the word and the lane of an address matter. -/
theorem busWrite_congr {ram : Ram} {datatype : DataType} {a a' : ARMword} (hi : index a = index a')
    (hl : laneOffset ram.bigEndian datatype a = laneOffset ram.bigEndian datatype a')
    (data : ARMword) : ram.busWrite datatype a data = ram.busWrite datatype a' data := by
  simp only [busWrite, writeLane, hi, hl]

theorem busRead_congr {ram : Ram} {datatype : DataType} {a a' : ARMword} (hi : index a = index a')
    (hl : laneOffset ram.bigEndian datatype a = laneOffset ram.bigEndian datatype a') :
    ram.busRead datatype a = ram.busRead datatype a' := by
  simp only [busRead, readLane, hi, hl]

end Ram

end SkyEye

/-!
## The system control coprocessor's registers

`mmu_state_t` without its table of operations: the registers every MMU model
shares, the memory behind the bus (a global of the source), and the model's own
caches, buffers and TLBs as a parameter (the union `u` of the source). The control
register's bits are those of `armmmu.h`.
-/

namespace SkyEye

/-- FS[3:0] of the fault status register, less `NO_FAULT`. -/
inductive Fault where
  | alignment
  | sectionTranslation
  | pageTranslation
  | sectionDomain
  | pageDomain
  | sectionPermission
  | subpagePermission
  deriving DecidableEq, Repr

def Fault.code : Fault → ARMword
  | alignment => 0x1
  | sectionTranslation => 0x5
  | pageTranslation => 0x7
  | sectionDomain => 0x9
  | pageDomain => 0xB
  | sectionPermission => 0xD
  | subpagePermission => 0xF

def CONTROL_MMU : ARMword := (1 : ARMword) <<< 0
def CONTROL_ALIGN_FAULT : ARMword := (1 : ARMword) <<< 1
def CONTROL_CACHE : ARMword := (1 : ARMword) <<< 2
def CONTROL_DATA_CACHE : ARMword := (1 : ARMword) <<< 2
def CONTROL_WRITE_BUFFER : ARMword := (1 : ARMword) <<< 3
def CONTROL_SYSTEM : ARMword := (1 : ARMword) <<< 8
def CONTROL_ROM : ARMword := (1 : ARMword) <<< 9
def CONTROL_VECTOR : ARMword := (1 : ARMword) <<< 13

structure MmuState (U : Type) where
  control : ARMword
  translationTableBase : ARMword
  domainAccessControl : ARMword
  faultStatus : ARMword
  faultAddress : ARMword
  lastDomain : ARMword
  processId : ARMword
  ram : Ram
  u : U

namespace MmuState

variable {U : Type}

/-- All zero, as `ARMul_NewState` and `mem_reset` clear it. -/
def cleared (u : U) : MmuState U := ⟨0, 0, 0, 0, 0, 0, 0, .cleared, u⟩

variable (mmu : MmuState U)

/-- `state->mmu.control & bit`, as a C condition. -/
def ctl (bit : ARMword) : Bool := mmu.control &&& bit != 0

def mmuEnabled : Bool := mmu.ctl CONTROL_MMU
def mmuAligned : Bool := mmu.ctl CONTROL_ALIGN_FAULT
def dcacheEnabled : Bool := mmu.ctl CONTROL_DATA_CACHE
def cacheEnabled : Bool := mmu.ctl CONTROL_CACHE
def wbEnabled : Bool := mmu.ctl CONTROL_WRITE_BUFFER

/-- The mask of `mmu_pid_va_map`. -/
def PID_VA_MAP_MASK : ARMword := 0xfe000000

/-- The virtual address after the process id remapping of CP15 register 13. -/
def pidVaMap (va : ARMword) : ARMword :=
  if va &&& PID_VA_MAP_MASK != 0 then va else va ||| (mmu.processId &&& PID_VA_MAP_MASK)

end MmuState

end SkyEye
