import SkyEye.Mips.Decoder
import SkyEye.Lib.Word

/-!
# Shifts

SLL, SRL, SRA and the forms with the amount in a register. SRA extends the shifted word
from bit `31 - s` by `sign_extend_UInt32`, which is 0 for the width of 32 that it asks for
at the amount 0. SRAV builds the sign bits itself.
-/

namespace SkyEye.Mips

open Sparc (Uint32 bit bitsmask clearBits)

inductive ShiftOp where
  | sll
  | srl
  | sra
  deriving DecidableEq

namespace ShiftOp

/-- `function(instr)`, with the amount in the instruction or in a register. -/
def function (byReg : Bool) : ShiftOp → Nat
  | sll => if byReg then 0o04 else 0o00
  | srl => if byReg then 0o06 else 0o02
  | sra => if byReg then 0o07 else 0o03

/-- `instr` is the shift. -/
structure Is (op : ShiftOp) (byReg : Bool) (instr : Uint32) : Prop where
  opcode : opcode instr = 0o00
  funct : funct instr = op.function byReg

/-- The shift of the architecture. -/
def value (x : Uint32) (n : Nat) : ShiftOp → Uint32
  | sll => x <<< n
  | srl => x >>> n
  | sra => x.sshiftRight n

variable {M : Type} (h : Host M) (s : MipsState M) (op : ShiftOp)

/-- `instr` leaves `s` as it is but for its destination, which is `v`. `mips_step_once`
clears `gpr[0]` before the next instruction. -/
def Leaves (instr v : Uint32) : Prop :=
  ∃ gpr, s.decode h instr = some ({ s with gpr := gpr }, .nothingSpecial) ∧
    ∀ x, x ≠ 0 → gpr x = if x = rd instr then v else s.gpr x

/-- `instr` writes the shift by `n`. -/
def Writes (instr : Uint32) (n : Nat) : Prop :=
  Leaves h s instr (op.value (s.gpr (rt instr)) n)

/-- Two instructions leave the same. -/
def Agree (i j : Uint32) : Prop := ∃ v, Leaves h s i v ∧ Leaves h s j v

/-- What the code writes. -/
def written (byReg : Bool) (x : Uint32) (n : Nat) : ShiftOp → Uint32
  | sll => x <<< n
  | srl => x >>> n
  | sra =>
    if byReg then (if bit x 31 then ~~~((0xFFFFFFFF : Uint32) >>> n) else 0) ||| (x >>> n)
    else signExtendUInt32 (x >>> n) (32 - n)

/-! ## The amounts -/

theorem toNat_bits_low (x : Uint32) : (Sparc.bits x 4 0).toNat = x.toNat % 32 :=
  Sparc.toNat_low_bits (by omega) x

theorem shamt_lt (instr : Uint32) : shamt instr < 32 := by
  rw [shamt, Sparc.toNat_bits (by omega) (by omega)]
  exact Nat.mod_lt _ (by omega)

/-- The amount of the shift. -/
def amount (byReg : Bool) (instr : Uint32) : Nat :=
  if byReg then (s.gpr (rs instr)).toNat % 32 else shamt instr

theorem amount_lt (byReg : Bool) (instr : Uint32) : amount s byReg instr < 32 := by
  cases byReg
  · exact shamt_lt instr
  · exact Nat.mod_lt _ (by omega)

/-! ## What is written -/

theorem leaves_setGpr {instr v : Uint32}
    (hd : s.decode h instr = some (s.setGpr (rd instr) v, .nothingSpecial)) :
    Leaves h s instr v :=
  ⟨_, hd, fun x _ => Function.update_apply _ _ _ x⟩

theorem leaves_written {op : ShiftOp} {byReg : Bool} {instr : Uint32} (hi : op.Is byReg instr) :
    Leaves h s instr (op.written byReg (s.gpr (rt instr)) (amount s byReg instr)) := by
  obtain ⟨hop, hf⟩ := hi
  have hd : s.decode h instr = s.decodeSpecial instr := by
    unfold MipsState.decode
    rw [hop]
    rfl
  cases op with
  | sll =>
    cases byReg
    · have hs : s.decodeSpecial instr =
          if rd instr ≠ 0 then some (s.setGpr (rd instr)
            (s.gpr (rt instr) <<< shamt instr), .nothingSpecial)
          else some (s, .nothingSpecial) := by
        unfold MipsState.decodeSpecial
        rw [hf]
        rfl
      by_cases h0 : rd instr = 0
      · rw [if_neg (not_not.mpr h0)] at hs
        exact ⟨s.gpr, hd.trans hs, fun x hx => (if_neg (h0 ▸ hx)).symm⟩
      · rw [if_pos h0] at hs
        exact leaves_setGpr h s (hd.trans hs)
    · refine leaves_setGpr h s (hd.trans ?_)
      unfold MipsState.decodeSpecial
      rw [hf, amount, if_pos rfl, ← toNat_bits_low]
      rfl
  | srl =>
    refine leaves_setGpr h s (hd.trans ?_)
    unfold MipsState.decodeSpecial
    cases byReg
    · rw [hf]
      rfl
    · rw [hf, amount, if_pos rfl, ← toNat_bits_low]
      rfl
  | sra =>
    refine leaves_setGpr h s (hd.trans ?_)
    unfold MipsState.decodeSpecial
    cases byReg
    · rw [hf]
      rfl
    · rw [hf, amount, if_pos rfl, ← toNat_bits_low]
      rfl

/-- An instruction leaves one value, unless its destination is register 0. -/
theorem Leaves.unique {h : Host M} {s : MipsState M} {instr v w : Uint32}
    (hv : Leaves h s instr v) (hw : Leaves h s instr w) : rd instr = 0 ∨ v = w := by
  by_cases h0 : rd instr = 0
  · exact .inl h0
  · obtain ⟨g, hg, hgv⟩ := hv
    obtain ⟨g', hg', hgw⟩ := hw
    have he : g = g' := by
      have := hg.symm.trans hg'
      simp only [Option.some.injEq, Prod.mk.injEq, MipsState.mk.injEq, and_true, true_and] at this
      exact this
    have h1 := hgv _ h0
    have h2 := hgw _ h0
    rw [if_pos rfl] at h1 h2
    exact .inr (h1.symm.trans (he ▸ h2))

theorem leaves_iff {op : ShiftOp} {byReg : Bool} {instr : Uint32} (hi : op.Is byReg instr)
    (v : Uint32) : Leaves h s instr v ↔
      rd instr = 0 ∨ op.written byReg (s.gpr (rt instr)) (amount s byReg instr) = v := by
  have hw := leaves_written h s hi
  constructor
  · exact fun hv => hw.unique hv
  · rintro (h0 | rfl)
    · obtain ⟨g, hg, hgx⟩ := hw
      refine ⟨g, hg, fun x hx => ?_⟩
      rw [hgx x hx, if_neg (h0 ▸ hx), if_neg (h0 ▸ hx)]
    · exact hw

/-! ## The sign bits -/

theorem written_srav (x : Uint32) (n : Nat) : sra.written true x n = x.sshiftRight n := by
  have hb : bit x 31 = x.msb := rfl
  rw [written, if_pos rfl, hb]
  cases hx : x.msb with
  | false =>
    rw [BitVec.sshiftRight_eq_of_msb_false hx]
    exact BitVec.zero_or
  | true =>
    rw [Word.sshiftRight_of_msb hx]
    rfl

theorem getLsbD_signExtendUInt32 {n : Nat} (hn : n < 32) (h0 : 0 < n) (x : Uint32) {i : Nat}
    (hi : i < 32) :
    (signExtendUInt32 x n).getLsbD i = if i < n then x.getLsbD i else x.getLsbD (n - 1) := by
  have hmask : (bitsmask 31 n).getLsbD i = decide (n ≤ i) := by
    rw [Sparc.getLsbD_bitsmask (by omega) (by omega), decide_eq_true (show i ≤ 31 by omega),
      Bool.and_true]
  have hclear : (clearBits x 31 n).getLsbD i = (x.getLsbD i && !decide (n ≤ i)) := by
    rw [clearBits, BitVec.getLsbD_and, BitVec.getLsbD_not, hmask, decide_eq_true hi, Bool.true_and]
  have hb : bit x (n - 1) = x.getLsbD (n - 1) := rfl
  rw [signExtendUInt32, if_pos hn, hb]
  cases hx : x.getLsbD (n - 1) with
  | false =>
    simp only [Bool.false_eq_true, if_false]
    rw [hclear]
    by_cases hin : i < n
    · simp [hin]
    · simp [hin, Nat.le_of_not_lt hin]
  | true =>
    rw [if_pos rfl, BitVec.getLsbD_or, hmask]
    by_cases hin : i < n
    · simp [hin]
    · simp [hin, Nat.le_of_not_lt hin]

theorem written_sra_of_pos {n : Nat} (h0 : 0 < n) (hn : n < 32) (x : Uint32) :
    sra.written false x n = x.sshiftRight n := by
  apply BitVec.eq_of_getLsbD_eq
  intro i hi
  rw [show sra.written false x n = signExtendUInt32 (x >>> n) (32 - n) from rfl,
    getLsbD_signExtendUInt32 (by omega) (by omega) _ hi, BitVec.getLsbD_sshiftRight,
    BitVec.getLsbD_ushiftRight, BitVec.getLsbD_ushiftRight, show n + (32 - n - 1) = 31 by omega]
  rw [decide_eq_false (show ¬32 ≤ i by omega), Bool.not_false, Bool.true_and]
  by_cases hin : i < 32 - n
  · rw [if_pos hin, if_pos (by omega)]
  · rw [if_neg hin, if_neg (by omega)]
    rfl

/-- Every form writes the shift, but for SRA by 0. -/
theorem written_eq_iff (byReg : Bool) (x : Uint32) {n : Nat} (hn : n < 32) :
    op.written byReg x n = op.value x n ↔ ¬(op = sra ∧ byReg = false ∧ n = 0 ∧ x ≠ 0) := by
  cases op with
  | sll => simp [written, value]
  | srl => simp [written, value]
  | sra =>
    cases byReg
    · rcases Nat.eq_zero_or_pos n with rfl | h0
      · have hz : sra.written false x 0 = 0 := rfl
        have hv : sra.value x 0 = x := BitVec.sshiftRight_zero
        rw [hz, hv]
        exact ⟨fun he hc => hc.2.2.2 he.symm, fun hc => by_contra fun he =>
          hc ⟨rfl, rfl, rfl, Ne.symm he⟩⟩
      · rw [written_sra_of_pos h0 hn]
        simp [value, Nat.pos_iff_ne_zero.mp h0]
    · rw [written_srav]
      simp [value]

/-- The instruction is not one that SRA gets wrong. -/
def Reached (i : Uint32) : Prop :=
  ¬(op = sra ∧ shamt i = 0 ∧ s.gpr (rt i) ≠ 0 ∧ rd i ≠ 0)

/-- The form with the amount in a register always writes the shift. The immediate form does,
and so agrees with the other, unless it is SRA by 0. -/
theorem mips_shift_exact_iff {op : ShiftOp} {i j : Uint32} (hi : op.Is false i) (hj : op.Is true j)
    (hd : rd j = rd i) (ht : rt j = rt i) (hn : (s.gpr (rs j)).toNat % 32 = shamt i) :
    (op.Writes h s i (shamt i) ↔ op.Reached s i) ∧
      op.Writes h s j ((s.gpr (rs j)).toNat % 32) ∧
      (Agree h s i j ↔ op.Reached s i) := by
  have hw : op.Writes h s i (shamt i) ↔ op.Reached s i := by
    rw [Writes, leaves_iff h s hi]
    have he := op.written_eq_iff false (s.gpr (rt i)) (amount_lt s false i)
    rw [show amount s false i = shamt i from rfl] at he ⊢
    rw [he, Reached]
    by_cases h0 : rd i = 0
    · simp [h0]
    · simp [h0]
  have hr : op.Writes h s j ((s.gpr (rs j)).toNat % 32) := by
    rw [Writes, leaves_iff h s hj]
    exact .inr ((op.written_eq_iff true _ (amount_lt s true j)).mpr (by simp))
  refine ⟨hw, hr, ?_⟩
  rw [← hw]
  have hr' : Leaves h s j (op.value (s.gpr (rt i)) (shamt i)) := by
    rw [← ht, ← hn]
    exact hr
  constructor
  · rintro ⟨v, hiv, hjv⟩
    rcases hjv.unique hr' with h0 | rfl
    · exact (leaves_iff h s hi _).mpr (.inl (hd ▸ h0))
    · exact hiv
  · intro hwi
    exact ⟨_, hwi, hr'⟩

/-- `sra $2, $1, 4` and `srav $2, $1, $3`. -/
theorem mips_shift_exact_iff_sra :
    (sra.Writes bareHost ((blankState ()).setGpr 3 4) 0x00011103 4 ↔
        sra.Reached ((blankState ()).setGpr 3 4) 0x00011103) ∧
      sra.Writes bareHost ((blankState ()).setGpr 3 4) 0x00611007 4 ∧
      (Agree bareHost ((blankState ()).setGpr 3 4) 0x00011103 0x00611007 ↔
        sra.Reached ((blankState ()).setGpr 3 4) 0x00011103) :=
  mips_shift_exact_iff bareHost ((blankState ()).setGpr 3 4) ⟨by decide, by decide⟩
    ⟨by decide, by decide⟩ (by decide) (by decide) (by decide)

/-- `sra $2, $1, 0` clears `$2`. -/
theorem sra_by_zero_not_exact :
    ¬∀ (s : MipsState Unit) (op : ShiftOp) (i : Uint32), op.Is false i →
      op.Writes bareHost s i (shamt i) := by
  intro hall
  have hi : sra.Is false 0x00011003 := ⟨by decide, by decide⟩
  rcases (leaves_iff bareHost _ hi _).mp (hall ((blankState ()).setGpr 1 1) sra _ hi) with h0 | h1
  · revert h0
    decide
  · revert h1
    decide

end ShiftOp

end SkyEye.Mips
