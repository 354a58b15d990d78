import SkyEye.Sparc.Bits
import Mathlib.Data.List.Nodup
import Mathlib.Data.List.Perm.Basic
import Mathlib.Tactic.Common

/-!
# The decoder

`iu_get_instr` asks the registered instructions of the format of a word, in the order of
their registration, and takes the first one whose `disassemble` accepts it. What each one
tests is a table here, and so is what the architecture fixes in the words of each.
The two agree on the words that are `Unambiguous`.
-/

namespace SkyEye.Sparc

/-- The instructions that `iu_isa_register` registers. -/
inductive Mnemonic where
  | nop | or | and | andn | orn | xor | xnor | orcc | andcc | andncc | sll | srl | sra | add
  | addx | addcc | sub | subx | subcc | subxcc | stb | sth | st | std | sethi | jmpl | wry
  | wrpsr | wrwim | wrtbr | rdy | rdpsr | rdwim | rdtbr | ldsb | ldsh | ldub | lduh | ld | ldd
  | ba | bn | bne | be | bg | ble | bge | bl | bgu | bleu | bcc | bcs | bpos | bneg | bvc | bvs
  | flush | save | restore | ldf | lddf | call | rett | ta | stf | stdf | stfsr | udiv | smul
  | umul | mulscc
  deriving DecidableEq

/-- What a `disassemble` tests: the code mask, then the fields it compares. -/
inductive Matcher where
  | word (codeMask : Uint32)
  | op (op : Uint32)
  | op2 (codeMask op op2 : Uint32)
  | cond (codeMask op cond : Uint32)
  /-- The fields through `OP_MASK` and `COND_MASK`, not through `bits`. -/
  | maskedCond (codeMask op condMask cond : Uint32)
  | op3 (codeMask op op3 : Uint32)
  /-- The fields through `OP_MASK` and `OP3_MASK`. -/
  | maskedOp3 (codeMask op op3 : Uint32)
  deriving DecidableEq

/-- The fields of an instruction word. -/
def opField (instr : Uint32) : Uint32 := bits instr 31 30
def condField (instr : Uint32) : Uint32 := bits instr 28 25
def op2Field (instr : Uint32) : Uint32 := bits instr 24 22
def op3Field (instr : Uint32) : Uint32 := bits instr 24 19

/-- `instr & CODE_MASK`, as a condition. -/
def maskTest (instr codeMask : Uint32) : Bool := instr &&& codeMask != 0

/-- Whether `disassemble` returns 1. -/
def Matcher.accepts (instr : Uint32) : Matcher → Bool
  | word codeMask => instr ^^^ codeMask == 0
  | op o => opField instr == o
  | op2 codeMask o o2 => maskTest instr codeMask && opField instr == o && op2Field instr == o2
  | cond codeMask o c => maskTest instr codeMask && opField instr == o && condField instr == c
  | maskedCond codeMask o condMask c =>
    maskTest instr codeMask && (instr &&& 0xc0000000) >>> 30 == o &&
      (instr &&& condMask) >>> 25 == c
  | op3 codeMask o o3 => maskTest instr codeMask && opField instr == o && op3Field instr == o3
  | maskedOp3 codeMask o o3 =>
    maskTest instr codeMask && (instr &&& 0xc0000000) >>> 30 == o &&
      (instr &&& 0x01f80000) >>> 19 == o3

/-- The tests of each instruction. `COND_MASK` of `bn` has the bits of `op3`. -/
def Mnemonic.matcher : Mnemonic → Matcher
  | .nop => .word 0x01000000
  | .or => .op3 0x80100000 2 0x02
  | .and => .op3 0x80080000 2 0x01
  | .andn => .op3 0x80280000 2 0x05
  | .orn => .op3 0x80300000 2 0x06
  | .xor => .op3 0x80180000 2 0x03
  | .xnor => .op3 0x80380000 2 0x07
  | .orcc => .op3 0x80900000 2 0x12
  | .andcc => .op3 0x80880000 2 0x11
  | .andncc => .op3 0x80a80000 2 0x15
  | .sll => .op3 0x81280000 2 0x25
  | .srl => .op3 0x81300000 2 0x26
  | .sra => .op3 0x81380000 2 0x27
  | .add => .op3 0x80000000 2 0x00
  | .addx => .op3 0x80400000 2 0x08
  | .addcc => .op3 0x80800000 2 0x10
  | .sub => .op3 0x80200000 2 0x04
  | .subx => .op3 0x80600000 2 0x0c
  | .subcc => .op3 0x80a00000 2 0x14
  | .subxcc => .op3 0x80e00000 2 0x1c
  | .stb => .op3 0xc0280000 3 0x05
  | .sth => .op3 0xc0300000 3 0x06
  | .st => .op3 0xc0200000 3 0x04
  | .std => .op3 0xc0380000 3 0x07
  | .sethi => .op2 0x01000000 0 4
  | .jmpl => .op3 0x81c00000 2 0x38
  | .wry => .op3 0x81800000 2 0x30
  | .wrpsr => .op3 0x81880000 2 0x31
  | .wrwim => .op3 0x81900000 2 0x32
  | .wrtbr => .op3 0x81980000 2 0x33
  | .rdy => .op3 0x81400000 2 0x28
  | .rdpsr => .maskedOp3 0x81480000 2 0x29
  | .rdwim => .maskedOp3 0x81500000 2 0x2a
  | .rdtbr => .maskedOp3 0x81580000 2 0x2b
  | .ldsb => .op3 0xc0480000 3 0x09
  | .ldsh => .op3 0xc0500000 3 0x0a
  | .ldub => .op3 0xc0080000 3 0x01
  | .lduh => .op3 0xc0100000 3 0x02
  | .ld => .op3 0xc0000000 3 0x00
  | .ldd => .op3 0xc0180000 3 0x03
  | .ba => .cond 0x10800000 0 0x8
  | .bn => .maskedCond 0x00080000 0 0x01f80000 0x8
  | .bne => .cond 0x12800000 0 0x9
  | .be => .cond 0x02800000 0 0x1
  | .bg => .cond 0x14800000 0 0xa
  | .ble => .cond 0x04800000 0 0x2
  | .bge => .cond 0x16800000 0 0xb
  | .bl => .cond 0x06800000 0 0x3
  | .bgu => .cond 0x18800000 0 0xc
  | .bleu => .cond 0x08800000 0 0x4
  | .bcc => .cond 0x1a800000 0 0xd
  | .bcs => .cond 0x0a800000 0 0x5
  | .bpos => .cond 0x1c800000 0 0xe
  | .bneg => .cond 0x0c800000 0 0x6
  | .bvc => .cond 0x1e800000 0 0xf
  | .bvs => .cond 0x0e800000 0 0x7
  | .flush => .op3 0x81d80000 2 0x3b
  | .save => .op3 0x81e00000 2 0x3c
  | .restore => .op3 0x81e80000 2 0x3d
  | .ldf => .op3 0xc1000000 3 0x20
  | .lddf => .op3 0xc1180000 3 0x23
  | .call => .op 1
  | .rett => .op3 0x81c80000 2 0x39
  | .ta => .op3 0x91d00000 2 0x3a
  | .stf => .op3 0xc1200000 3 0x24
  | .stdf => .op3 0xc1380000 3 0x27
  | .stfsr => .op3 0xc1280000 3 0x25
  | .udiv => .op3 0x80700000 2 0x0e
  | .smul => .op3 0x80580000 2 0x0b
  | .umul => .op3 0x80500000 2 0x0a
  | .mulscc => .op3 0x08120000 2 0x24

def Mnemonic.disassemble (m : Mnemonic) (instr : Uint32) : Bool := m.matcher.accepts instr

/-- The format that an instruction is registered with, its `OP`. -/
def Mnemonic.format (m : Mnemonic) : Uint32 :=
  match m.matcher with
  | .word _ => 0
  | .op o => o
  | .op2 _ o _ | .cond _ o _ | .maskedCond _ o _ _ | .op3 _ o _ | .maskedOp3 _ o _ => o

/-- `iu_isa_register`: the order of the registrations. -/
def iuIsaRegister : List Mnemonic := [
  .nop, .or, .and, .andn, .orn, .xor, .xnor, .orcc, .andcc, .andncc, .sll, .srl, .sra, .add,
  .addx, .addcc, .sub, .subx, .subcc, .subxcc, .stb, .sth, .st, .std, .sethi, .jmpl, .wry,
  .wrpsr, .wrwim, .wrtbr, .rdy, .rdpsr, .rdwim, .rdtbr, .ldsb, .ldsh, .ldub, .lduh, .ld, .ldd,
  .ba, .bn, .bne, .be, .bg, .ble, .bge, .bl, .bgu, .bleu, .bcc, .bcs, .bpos, .bneg, .bvc, .bvs,
  .flush, .save, .restore, .ldf, .lddf, .call, .rett, .ta, .stf, .stdf, .stfsr, .udiv, .smul,
  .umul, .mulscc]

/-- `iu_get_instr` after the registrations of `isa`. -/
def iuGetInstr (isa : List Mnemonic) (instr : Uint32) : Option Mnemonic :=
  let format := opField instr
  if 4 < format.toNat then none
  else (isa.filter (·.format == format)).find? (·.disassemble instr)

/-- The integer branches. -/
def Mnemonic.isBranch (m : Mnemonic) : Bool :=
  match m.matcher with
  | .cond .. | .maskedCond .. => true
  | _ => false

/-! ## The architecture -/

/-- What the architecture fixes in the words of an instruction. -/
inductive Encoding where
  | nop
  | call
  | sethi
  | bicc (cond : Uint32)
  | arith (op3 : Uint32)
  | memory (op3 : Uint32)
  | ticc (cond : Uint32)
  deriving DecidableEq

def Encoding.Matches (instr : Uint32) : Encoding → Prop
  | nop => instr = 0x01000000
  | call => opField instr = 1
  | sethi => opField instr = 0 ∧ op2Field instr = 4
  | bicc c => opField instr = 0 ∧ op2Field instr = 2 ∧ condField instr = c
  | arith o3 => opField instr = 2 ∧ op3Field instr = o3
  | memory o3 => opField instr = 3 ∧ op3Field instr = o3
  | ticc c => opField instr = 2 ∧ op3Field instr = 0x3a ∧ condField instr = c

/-- The encodings of the architecture. -/
def Mnemonic.encoding : Mnemonic → Encoding
  | .nop => .nop
  | .or => .arith 0x02
  | .and => .arith 0x01
  | .andn => .arith 0x05
  | .orn => .arith 0x06
  | .xor => .arith 0x03
  | .xnor => .arith 0x07
  | .orcc => .arith 0x12
  | .andcc => .arith 0x11
  | .andncc => .arith 0x15
  | .sll => .arith 0x25
  | .srl => .arith 0x26
  | .sra => .arith 0x27
  | .add => .arith 0x00
  | .addx => .arith 0x08
  | .addcc => .arith 0x10
  | .sub => .arith 0x04
  | .subx => .arith 0x0c
  | .subcc => .arith 0x14
  | .subxcc => .arith 0x1c
  | .stb => .memory 0x05
  | .sth => .memory 0x06
  | .st => .memory 0x04
  | .std => .memory 0x07
  | .sethi => .sethi
  | .jmpl => .arith 0x38
  | .wry => .arith 0x30
  | .wrpsr => .arith 0x31
  | .wrwim => .arith 0x32
  | .wrtbr => .arith 0x33
  | .rdy => .arith 0x28
  | .rdpsr => .arith 0x29
  | .rdwim => .arith 0x2a
  | .rdtbr => .arith 0x2b
  | .ldsb => .memory 0x09
  | .ldsh => .memory 0x0a
  | .ldub => .memory 0x01
  | .lduh => .memory 0x02
  | .ld => .memory 0x00
  | .ldd => .memory 0x03
  | .ba => .bicc 0x8
  | .bn => .bicc 0
  | .bne => .bicc 0x9
  | .be => .bicc 0x1
  | .bg => .bicc 0xa
  | .ble => .bicc 0x2
  | .bge => .bicc 0xb
  | .bl => .bicc 0x3
  | .bgu => .bicc 0xc
  | .bleu => .bicc 0x4
  | .bcc => .bicc 0xd
  | .bcs => .bicc 0x5
  | .bpos => .bicc 0xe
  | .bneg => .bicc 0x6
  | .bvc => .bicc 0xf
  | .bvs => .bicc 0x7
  | .flush => .arith 0x3b
  | .save => .arith 0x3c
  | .restore => .arith 0x3d
  | .ldf => .memory 0x20
  | .lddf => .memory 0x23
  | .call => .call
  | .rett => .arith 0x39
  | .ta => .ticc 8
  | .stf => .memory 0x24
  | .stdf => .memory 0x27
  | .stfsr => .memory 0x25
  | .udiv => .arith 0x0e
  | .smul => .arith 0x0b
  | .umul => .arith 0x0a
  | .mulscc => .arith 0x24

/-- `instr` is decoded exactly: by one instruction at most, which it is an encoding of, in
whatever order the instructions were registered. -/
structure DecodedExactly (instr : Uint32) : Prop where
  unique : ∀ m ∈ iuIsaRegister, ∀ n ∈ iuIsaRegister,
    m.disassemble instr = true → n.disassemble instr = true → m = n
  encoded : ∀ m ∈ iuIsaRegister, m.disassemble instr = true → m.encoding.Matches instr
  orderFree : ∀ isa : List Mnemonic, isa.Perm iuIsaRegister →
    iuGetInstr isa instr = iuGetInstr iuIsaRegister instr
  /-- `UNIMP`, `FBfcc` and `CBccc` -/
  noBranch : opField instr = 0 → op2Field instr = 0 ∨ op2Field instr = 6 ∨ op2Field instr = 7 →
    ∀ m, iuGetInstr iuIsaRegister instr = some m → m.isBranch = false
  noTrapAlways : opField instr = 2 → op3Field instr = 0x3a → condField instr ≠ 8 →
    iuGetInstr iuIsaRegister instr ≠ some .ta

/-- The words that the tests left out do not matter for: in format 2 `sethi` with bits 25 to
28 clear, other than `nop`; the integer branches; and of the others those with bits 25 to 28
clear. Of the traps `ta` only. -/
def Unambiguous (instr : Uint32) : Prop :=
  (opField instr = 0 → op2Field instr ≠ 2 → condField instr = 0 ∧ instr ≠ 0x01000000) ∧
  (opField instr = 2 → op3Field instr = 0x3a → condField instr = 8)

/-! ## Fields -/

theorem bits_and {n m : Nat} (hn : n < 32) (hm : m ≤ n) (x y : Uint32) :
    bits (x &&& y) n m = bits x n m &&& bits y n m := by
  apply BitVec.eq_of_getLsbD_eq
  intro i _
  simp only [BitVec.getLsbD_and, getLsbD_bits hn hm]
  cases decide (m + i ≤ n) <;> simp

/-- The mask test passes where a field of the word meets the mask. -/
theorem maskTest_of_bits {n m : Nat} (hn : n < 32) (hm : m ≤ n) {instr codeMask : Uint32}
    (h : bits instr n m &&& bits codeMask n m ≠ 0) : maskTest instr codeMask = true := by
  unfold maskTest
  rw [bne_iff_ne]
  intro h0
  rw [← bits_and hn hm, h0] at h
  have hz : bits 0 n m = 0 := by simp [bits]
  exact h hz

theorem bits_toNat_lt {n m : Nat} (hn : n < 32) (hm : m ≤ n) (x : Uint32) :
    (bits x n m).toNat < 2 ^ (n - m + 1) := by
  have hlen : n + 1 - m = n - m + 1 := by omega
  rw [toNat_bits hn hm, hlen]
  exact Nat.mod_lt _ (Nat.two_pow_pos _)

/-- The mask of an `op3` and the field. -/
theorem masked_eq_bits {n m : Nat} (hn : n < 32) (hm : m ≤ n) {mask : Uint32}
    (hmask : ∀ i, mask.getLsbD i = (decide (m ≤ i) && decide (i ≤ n))) (x : Uint32) :
    (x &&& mask) >>> m = bits x n m := by
  apply BitVec.eq_of_getLsbD_eq
  intro i _
  rw [BitVec.getLsbD_ushiftRight, BitVec.getLsbD_and, hmask, getLsbD_bits hn hm]
  by_cases h : m + i ≤ n <;> simp [h]

theorem opMask_eq (x : Uint32) : (x &&& 0xc0000000) >>> 30 = opField x := by
  have hmask : (0xc0000000 : Uint32) = bitsmask 31 30 := by decide
  refine masked_eq_bits (by omega) (by omega) (fun i => ?_) x
  rw [hmask, getLsbD_bitsmask (by omega) (by omega)]

theorem op3Mask_eq (x : Uint32) : (x &&& 0x01f80000) >>> 19 = op3Field x := by
  have hmask : (0x01f80000 : Uint32) = bitsmask 24 19 := by decide
  refine masked_eq_bits (by omega) (by omega) (fun i => ?_) x
  rw [hmask, getLsbD_bitsmask (by omega) (by omega)]

/-- `bn` looks for its `cond` above the mask. -/
theorem op3Mask_ushiftRight (x : Uint32) : (x &&& 0x01f80000) >>> 25 = 0 := by
  have h : (x &&& 0x01f80000) >>> 25 = ((x &&& 0x01f80000) >>> 19) >>> 6 := by
    rw [← BitVec.shiftRight_add]
  have hlt := bits_toNat_lt (n := 24) (m := 19) (by omega) (by omega) x
  rw [h, op3Mask_eq]
  apply BitVec.eq_of_toNat_eq
  rw [BitVec.toNat_ushiftRight, Nat.shiftRight_eq_div_pow]
  exact Nat.div_eq_of_lt hlt

/-! ## What the tests let through -/

/-- The test of an instruction against its encoding. The test of `bn` lets nothing through. -/
def Matcher.fits : Matcher → Encoding → Bool
  | .word w, .nop => w == 0x01000000
  | .op o, .call => o == 1
  | .op2 _ o o2, .sethi => o == 0 && o2 == 4
  | .cond _ o c, .bicc c' => o == 0 && c != 0 && c == c'
  | .maskedCond _ _ condMask c, .bicc _ => condMask == 0x01f80000 && c != 0
  | .op3 _ o o3, .arith o3' => o == 2 && o3 != 0x3a && o3 == o3'
  | .op3 _ o o3, .ticc c => o == 2 && o3 == 0x3a && c == 8
  | .maskedOp3 _ o o3, .arith o3' => o == 2 && o3 != 0x3a && o3 == o3'
  | .op3 _ o o3, .memory o3' => o == 3 && o3 == o3'
  | _, _ => false

theorem Mnemonic.fits (m : Mnemonic) : m.matcher.fits m.encoding = true := by
  cases m <;> rfl

theorem mem_iuIsaRegister (m : Mnemonic) : m ∈ iuIsaRegister := by
  cases m <;> decide

section

variable {instr : Uint32}

/-- On an unambiguous word the tests suffice. -/
theorem Matcher.fits.matches {t : Matcher} {e : Encoding} (hf : t.fits e = true)
    (hu : Unambiguous instr) (ha : t.accepts instr = true) : e.Matches instr := by
  cases t with
  | word w =>
    cases e <;> simp only [Matcher.fits, Bool.false_eq_true, beq_iff_eq] at hf
    simp only [accepts, beq_iff_eq] at ha
    exact (BitVec.xor_eq_zero_iff.mp ha).trans hf
  | op o =>
    cases e <;> simp only [Matcher.fits, Bool.false_eq_true, beq_iff_eq] at hf
    simp only [accepts, beq_iff_eq] at ha
    exact ha.trans hf
  | op2 mask o o2 =>
    cases e <;> simp only [Matcher.fits, Bool.false_eq_true, Bool.and_eq_true, beq_iff_eq] at hf
    simp only [accepts, Bool.and_eq_true, beq_iff_eq] at ha
    exact ⟨ha.1.2.trans hf.1, ha.2.trans hf.2⟩
  | cond mask o c =>
    cases e <;>
      simp only [Matcher.fits, Bool.false_eq_true, Bool.and_eq_true, beq_iff_eq, bne_iff_ne] at hf
    simp only [accepts, Bool.and_eq_true, beq_iff_eq] at ha
    have hop := ha.1.2.trans hf.1.1
    have hop2 : op2Field instr = 2 := by
      by_contra hne
      exact hf.1.2 (ha.2.symm.trans (hu.1 hop hne).1)
    exact ⟨hop, hop2, ha.2.trans hf.2⟩
  | maskedCond mask o condMask c =>
    cases e <;>
      simp only [Matcher.fits, Bool.false_eq_true, Bool.and_eq_true, beq_iff_eq, bne_iff_ne] at hf
    simp only [accepts, Bool.and_eq_true, beq_iff_eq] at ha
    rw [hf.1, op3Mask_ushiftRight] at ha
    exact absurd ha.2.symm hf.2
  | op3 mask o o3 =>
    simp only [accepts, Bool.and_eq_true, beq_iff_eq] at ha
    cases e <;>
      simp only [Matcher.fits, Bool.false_eq_true, Bool.and_eq_true, beq_iff_eq, bne_iff_ne] at hf
    · exact ⟨ha.1.2.trans hf.1.1, ha.2.trans hf.2⟩
    · exact ⟨ha.1.2.trans hf.1, ha.2.trans hf.2⟩
    · have hop := ha.1.2.trans hf.1.1
      have hop3 := ha.2.trans hf.1.2
      exact ⟨hop, hop3, (hu.2 hop hop3).trans hf.2.symm⟩
  | maskedOp3 mask o o3 =>
    cases e <;>
      simp only [Matcher.fits, Bool.false_eq_true, Bool.and_eq_true, beq_iff_eq, bne_iff_ne] at hf
    simp only [accepts, Bool.and_eq_true, beq_iff_eq, opMask_eq, op3Mask_eq] at ha
    exact ⟨ha.1.2.trans hf.1.1, ha.2.trans hf.2⟩

/-- No two instructions have one encoding. -/
theorem Mnemonic.encoding_injective {m n : Mnemonic} (h : m.encoding = n.encoding) : m = n := by
  have hfind : ∀ k : Mnemonic, iuIsaRegister.find? (·.encoding == k.encoding) = some k := by
    intro k
    cases k <;> rfl
  have hm := hfind m
  rw [h, hfind n] at hm
  exact (Option.some.inj hm).symm

theorem Mnemonic.encoding_ne_ticc (m : Mnemonic) : m.encoding ≠ .arith 0x3a := by
  cases m <;> decide

/-- A word other than `nop` matches one encoding only. -/
theorem Encoding.Matches.unique {e e' : Encoding} (hn : instr ≠ 0x01000000)
    (he : e ≠ .arith 0x3a) (he' : e' ≠ .arith 0x3a) (h : e.Matches instr)
    (h' : e'.Matches instr) : e = e' := by
  cases e <;> cases e' <;> simp only [Matches] at h h' <;> simp_all

theorem Unambiguous.ne_nop (hu : Unambiguous instr) : instr ≠ 0x01000000 := by
  rintro rfl
  exact (hu.1 (by decide) (by decide)).2 rfl

theorem Mnemonic.matches_of_disassemble (hu : Unambiguous instr) {m : Mnemonic}
    (hm : m.disassemble instr = true) : m.encoding.Matches instr :=
  Matcher.fits.matches m.fits hu hm

theorem Mnemonic.unique_of_disassemble (hu : Unambiguous instr) {m n : Mnemonic}
    (hm : m.disassemble instr = true) (hn : n.disassemble instr = true) : m = n :=
  encoding_injective (Encoding.Matches.unique hu.ne_nop m.encoding_ne_ticc n.encoding_ne_ticc
    (matches_of_disassemble hu hm) (matches_of_disassemble hu hn))

end

/-! ## The order of the registrations -/

theorem find?_perm {α : Type} {p : α → Bool} {l l' : List α} (hl : l.Perm l')
    (hp : ∀ a ∈ l, ∀ b ∈ l, p a = true → p b = true → a = b) : l.find? p = l'.find? p := by
  cases h : l.find? p with
  | some a =>
    cases h' : l'.find? p with
    | none =>
      have hn := List.find?_eq_none.mp h' a (hl.mem_iff.mp (List.mem_of_find?_eq_some h))
      exact absurd (List.find?_some h) hn
    | some b =>
      have hb := hl.mem_iff.mpr (List.mem_of_find?_eq_some h')
      rw [hp a (List.mem_of_find?_eq_some h) b hb (List.find?_some h) (List.find?_some h')]
  | none =>
    rw [eq_comm, List.find?_eq_none]
    intro b hb
    exact List.find?_eq_none.mp h b (hl.mem_iff.mpr hb)

theorem disassemble_of_iuGetInstr {isa : List Mnemonic} {instr : Uint32} {m : Mnemonic}
    (h : iuGetInstr isa instr = some m) : m.disassemble instr = true := by
  unfold iuGetInstr at h
  simp only at h
  split at h
  · cases h
  · exact (List.find?_eq_some_iff_append.mp h).1

section

variable {instr : Uint32}

theorem iuGetInstr_perm (hu : Unambiguous instr) {isa isa' : List Mnemonic}
    (hl : isa.Perm isa') : iuGetInstr isa instr = iuGetInstr isa' instr := by
  unfold iuGetInstr
  simp only
  rw [find?_perm (hl.filter _) fun m _ n _ hm hn => Mnemonic.unique_of_disassemble hu hm hn]

theorem Mnemonic.isBranch_eq (m : Mnemonic) :
    m.isBranch = true ↔ ∃ c, m.encoding = .bicc c := by
  cases m <;> simp [isBranch, matcher, encoding]

theorem decodedExactly_of_unambiguous (hu : Unambiguous instr) : DecodedExactly instr where
  unique _ _ _ _ := Mnemonic.unique_of_disassemble hu
  encoded _ _ := Mnemonic.matches_of_disassemble hu
  orderFree _ := iuGetInstr_perm hu
  noBranch := by
    intro _ hop2 m hm
    have he := Mnemonic.matches_of_disassemble hu (disassemble_of_iuGetInstr hm)
    rw [Bool.eq_false_iff]
    intro hb
    obtain ⟨c, hc⟩ := m.isBranch_eq.mp hb
    rw [hc] at he
    rw [he.2.1] at hop2
    revert hop2
    decide
  noTrapAlways := by
    intro _ _ hc h
    have he := Mnemonic.matches_of_disassemble hu (disassemble_of_iuGetInstr h)
    exact hc he.2.2

/-! ## Words that the tests do not tell apart -/

/-- The test of a branch with the condition `c`, some bit of which is in the code mask. -/
def Matcher.branchesOn (c : Uint32) : Matcher → Bool
  | .cond mask o c' => o == 0 && c == c' && c &&& bits mask 28 25 != 0
  | _ => false

theorem exists_branch : ∀ c : Fin 16, c ≠ 0 →
    ∃ m ∈ iuIsaRegister, m.matcher.branchesOn (BitVec.ofNat 32 c) = true := by
  decide +kernel

theorem Matcher.branchesOn.accepts {t : Matcher} {c : Uint32} (ht : t.branchesOn c = true)
    (hop : opField instr = 0) (hc : condField instr = c) : t.accepts instr = true := by
  cases t <;> simp only [branchesOn, Bool.false_eq_true, Bool.and_eq_true, beq_iff_eq,
    bne_iff_ne] at ht
  rename_i mask o c'
  obtain ⟨⟨ho, hcc⟩, hmeet⟩ := ht
  have hmask : maskTest instr mask = true := by
    refine maskTest_of_bits (n := 28) (m := 25) (by omega) (by omega) ?_
    rwa [← hc] at hmeet
  simp only [Matcher.accepts, Bool.and_eq_true, beq_iff_eq]
  exact ⟨⟨hmask, hop.trans ho.symm⟩, hc.trans hcc⟩

/-- A word of format 2 with a condition goes for a branch, whatever its `op2`. -/
theorem exists_branch_disassemble (hop : opField instr = 0) (hc : condField instr ≠ 0) :
    ∃ m : Mnemonic, m.disassemble instr = true ∧ m.isBranch = true := by
  have hlt : (condField instr).toNat < 16 := bits_toNat_lt (by omega) (by omega) instr
  have hne : (⟨_, hlt⟩ : Fin 16) ≠ 0 := by
    intro h0
    have hz : (condField instr).toNat = 0 := congrArg Fin.val h0
    exact hc (BitVec.eq_of_toNat_eq hz)
  obtain ⟨m, _, hm⟩ := exists_branch ⟨_, hlt⟩ hne
  have hof : BitVec.ofNat 32 (condField instr).toNat = condField instr := by simp
  simp only [hof] at hm
  refine ⟨m, Matcher.branchesOn.accepts hm hop rfl, ?_⟩
  unfold Mnemonic.isBranch
  revert hm
  cases m.matcher <;> simp [Matcher.branchesOn]

theorem ta_disassemble (hop : opField instr = 2) (hop3 : op3Field instr = 0x3a) :
    Mnemonic.ta.disassemble instr = true := by
  have hmask : maskTest instr 0x91d00000 = true := by
    refine maskTest_of_bits (n := 31) (m := 30) (by omega) (by omega) ?_
    rw [show bits instr 31 30 = 2 from hop]
    decide
  simp only [Mnemonic.disassemble, Mnemonic.matcher, Matcher.accepts, Bool.and_eq_true,
    beq_iff_eq]
  exact ⟨⟨hmask, hop⟩, hop3⟩

theorem unambiguous_of_decodedExactly (h : DecodedExactly instr) : Unambiguous instr := by
  refine ⟨fun hop hop2 => ⟨?_, ?_⟩, fun hop hop3 => ?_⟩
  · -- with a condition a branch accepts the word, besides `sethi` or for no instruction
    by_contra hc
    obtain ⟨m, hm, hb⟩ := exists_branch_disassemble hop hc
    obtain ⟨c, hbicc⟩ := m.isBranch_eq.mp hb
    have he := h.encoded m (mem_iuIsaRegister m) hm
    rw [hbicc] at he
    exact hop2 he.2.1
  · rintro rfl
    have := h.unique .nop (mem_iuIsaRegister _) .sethi (mem_iuIsaRegister _) (by decide)
      (by decide)
    cases this
  · exact (h.encoded .ta (mem_iuIsaRegister _) (ta_disassemble hop hop3)).2.2

/-- The decoder is exact on the unambiguous words, and on no others. -/
theorem decodedExactly_iff (instr : Uint32) : DecodedExactly instr ↔ Unambiguous instr :=
  ⟨unambiguous_of_decodedExactly, decodedExactly_of_unambiguous⟩

/-- `fba` is executed as `ba`. -/
theorem not_decodedExactly_fba : ¬∀ instr, DecodedExactly instr := by
  intro h
  have hba : iuGetInstr iuIsaRegister 0x11800000 = some .ba := by decide
  have := (h 0x11800000).noBranch (by decide) (by decide) .ba hba
  revert this
  decide

end

end SkyEye.Sparc
