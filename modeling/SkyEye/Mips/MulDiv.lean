import SkyEye.Mips.Decoder
import Mathlib.Algebra.Order.Ring.Abs
import Mathlib.Tactic.Positivity
import Mathlib.Tactic.Ring

/-!
# Multiplication and division

MULT, MULTU, MADD, DIV and DIVU against the 64-bit product and the truncated quotient. MULT
extends its operands with zeros, as MULTU does, and MADD multiplies in 32 bits before it
adds.
-/

namespace SkyEye.Mips

open Sparc (Uint32)

inductive MulDivOp where
  | mult
  | multu
  | madd
  | div
  | divu
  deriving DecidableEq

namespace MulDivOp

/-- MADD is in the `switch` under SPECIAL2. -/
def opcode : MulDivOp → Nat
  | madd => 0o34
  | _ => 0o00

def function : MulDivOp → Nat
  | mult => 0o30
  | multu => 0o31
  | madd => 0o00
  | div => 0o32
  | divu => 0o33

structure Is (op : MulDivOp) (instr : Uint32) : Prop where
  opcode : Mips.opcode instr = op.opcode
  funct : funct instr = op.function

/-- HI:LO as a number. -/
def hiLo (hi lo : Uint32) : Nat := hi.toNat * 2 ^ 32 + lo.toNat

/-- The product of two registers, which MADD has signed. -/
def product (signed : Bool) (x y : Uint32) : Int :=
  if signed then x.toInt * y.toInt else x.toNat * y.toNat

/-- HI:LO is the sum of `acc` and the product, modulo `2 ^ 64`. -/
def Accumulated (signed : Bool) (acc : Nat) (x y hi lo : Uint32) : Prop :=
  (hiLo hi lo : Int) = (acc + product signed x y) % 2 ^ 64

/-- What the architecture leaves in `hi` and `lo`, from `acc` in HI:LO. -/
def Exact (acc : Nat) (x y hi lo : Uint32) : MulDivOp → Prop
  | mult => Accumulated true 0 x y hi lo
  | multu => Accumulated false 0 x y hi lo
  | madd => Accumulated true acc x y hi lo
  | div =>
    lo.toInt = (if x = 0x80000000 ∧ y = 0xFFFFFFFF then -2 ^ 31 else x.toInt.tdiv y.toInt) ∧
      hi.toInt = x.toInt.tmod y.toInt
  | divu => lo.toNat = x.toNat / y.toNat ∧ hi.toNat = x.toNat % y.toNat

/-- When the code meets it. -/
def Holds (x y : Uint32) : MulDivOp → Prop
  | mult => (x.msb = false ∧ y.msb = false) ∨ x = 0 ∨ y = 0 ∨ (x = 0x80000000 ∧ y = 0x80000000)
  | madd => 0 ≤ product true x y ∧ product true x y < 2 ^ 32
  | _ => True

/-- The divisions. The architecture leaves open what they give for the divisor 0. -/
def Divides (op : MulDivOp) : Prop := op = div ∨ op = divu

variable {M : Type} (h : Host M) (s : MipsState M) (op : MulDivOp) (instr : Uint32)

/-- `instr` leaves `s` as it is but for `hi` and `lo`, of which `P` holds. -/
def Leaves (P : Uint32 → Uint32 → Prop) : Prop :=
  ∃ hi lo, s.decode h instr = some ({ s with hi := hi, lo := lo }, .nothingSpecial) ∧ P hi lo

def Meets : Prop :=
  (op.Divides → s.gpr (rt instr) ≠ 0) → Leaves h s instr fun hi lo =>
    op.Exact (hiLo s.hi s.lo) (s.gpr (rs instr)) (s.gpr (rt instr)) hi lo

/-! ## Products -/

theorem hiLo_setHiLo (z : BitVec 64) : hiLo ((z >>> 32).setWidth 32) (z.setWidth 32) = z.toNat := by
  have hz := z.isLt
  rw [hiLo, BitVec.toNat_setWidth, BitVec.toNat_setWidth, BitVec.toNat_ushiftRight,
    Nat.shiftRight_eq_div_pow]
  omega

theorem product_lt (x y : Uint32) : x.toNat * y.toNat < 2 ^ 64 := by
  have hlt : x.toNat * y.toNat < 2 ^ 32 * 2 ^ 32 := Nat.mul_lt_mul'' x.isLt y.isLt
  omega

theorem unsignedProduct_eq (x y : Uint32) :
    product false x y = ((x.toNat * y.toNat : Nat) : Int) := by
  rw [product, if_neg (by simp), Int.natCast_mul]

theorem toNat_wideProduct (x y : Uint32) :
    (x.setWidth 64 * y.setWidth 64 : BitVec 64).toNat = x.toNat * y.toNat := by
  have hx := x.isLt
  have hy := y.isLt
  rw [BitVec.toNat_mul, BitVec.toNat_setWidth_of_le (by omega),
    BitVec.toNat_setWidth_of_le (by omega), Nat.mod_eq_of_lt (product_lt x y)]

theorem toInt_eq (x : Uint32) : x.toInt = x.toNat - if x.msb then 2 ^ 32 else 0 := by
  rw [BitVec.toInt_eq_msb_cond]
  split <;> simp

/-- The signed product is the unsigned one with each operand taken off the upper word once
where the other is negative. -/
theorem signedProduct_eq (x y : Uint32) : product true x y =
    (x.toNat * y.toNat : Nat) - 2 ^ 32 * (if x.msb then (y.toNat : Int) else 0) -
      2 ^ 32 * (if y.msb then (x.toNat : Int) else 0) +
      if x.msb = true ∧ y.msb = true then 2 ^ 64 else 0 := by
  rw [product, if_pos rfl, toInt_eq, toInt_eq]
  push_cast
  cases x.msb <;> cases y.msb <;> simp <;> ring

theorem signedProduct_bounds (x y : Uint32) :
    -2 ^ 62 ≤ product true x y ∧ product true x y ≤ 2 ^ 62 := by
  have hx : x.toInt.natAbs ≤ 2 ^ 31 := by
    have h1 := x.toInt_lt
    have h2 := x.le_toInt
    omega
  have hy : y.toInt.natAbs ≤ 2 ^ 31 := by
    have h1 := y.toInt_lt
    have h2 := y.le_toInt
    omega
  have hs : (x.toInt * y.toInt).natAbs ≤ 2 ^ 31 * 2 ^ 31 := by
    rw [Int.natAbs_mul]
    exact Nat.mul_le_mul hx hy
  rw [product, if_pos rfl]
  omega

theorem msb_iff (x : Uint32) : x.msb = true ↔ 2 ^ 31 ≤ x.toNat := by
  rw [BitVec.msb_eq_decide, decide_eq_true_eq]

/-- The unsigned product is the signed one. -/
theorem unsigned_eq_signed_iff (x y : Uint32) :
    ((x.toNat * y.toNat : Nat) : Int) = product true x y % 2 ^ 64 ↔ mult.Holds x y := by
  have hx := x.isLt
  have hy := y.isLt
  have hp := product_lt x y
  have hx0 : x = 0 ↔ x.toNat = 0 := by rw [← BitVec.toNat_inj]; rfl
  have hy0 : y = 0 ↔ y.toNat = 0 := by rw [← BitVec.toNat_inj]; rfl
  have hx1 : x = 0x80000000 ↔ x.toNat = 2 ^ 31 := by rw [← BitVec.toNat_inj]; rfl
  have hy1 : y = 0x80000000 ↔ y.toNat = 2 ^ 31 := by rw [← BitVec.toNat_inj]; rfl
  have hxm := msb_iff x
  have hym := msb_iff y
  rw [signedProduct_eq, Holds, hx0, hy0, hx1, hy1]
  generalize x.toNat * y.toNat = p at hp ⊢
  cases hxb : x.msb <;> cases hyb : y.msb <;>
    simp only [hxb, hyb, Bool.false_eq_true, false_iff, true_iff, Nat.not_le, if_true, if_false,
      and_self, and_false, false_and, true_or, false_or, iff_true, eq_self,
      Bool.true_eq_false] at hxm hym ⊢ <;>
    omega

theorem accumulated_mult_iff (x y : Uint32) {hi lo : Uint32}
    (hp : hiLo hi lo = x.toNat * y.toNat) : Accumulated true 0 x y hi lo ↔ mult.Holds x y := by
  rw [← unsigned_eq_signed_iff, Accumulated, hp]
  simp

/-- What MADD adds is the product modulo `2 ^ 32`. -/
theorem accumulated_madd_iff (signed : Bool) (acc : Nat) (x y : Uint32) {hi lo : Uint32}
    (hp : hiLo hi lo = (x.toNat * y.toNat % 2 ^ 32 + acc) % 2 ^ 64) :
    Accumulated signed acc x y hi lo ↔
      0 ≤ product signed x y ∧ product signed x y < 2 ^ 32 := by
  have hlt := product_lt x y
  rw [Accumulated, hp]
  cases signed with
  | false =>
    rw [unsignedProduct_eq]
    generalize x.toNat * y.toNat = p at hlt ⊢
    omega
  | true =>
    have hb := signedProduct_bounds x y
    have he := signedProduct_eq x y
    generalize product true x y = q at hb he ⊢
    generalize x.toNat * y.toNat = p at hlt he ⊢
    have hq : q % 2 ^ 32 = p % 2 ^ 32 := by
      rw [he]
      split <;> split <;> split <;> omega
    omega

/-! ## Quotients -/

theorem toInt_ofInt_of_le {n : Int} (h1 : -2 ^ 31 ≤ n) (h2 : n < 2 ^ 31) :
    (BitVec.ofInt 32 n).toInt = n := by
  rw [BitVec.toInt_ofInt]
  exact Int.bmod_eq_of_le (by omega) (by omega)

/-- Only the most negative dividend over -1 has a quotient that does not fit. -/
theorem tdiv_bounds {a b : Int} (ha : -2 ^ 31 ≤ a) (ha' : a < 2 ^ 31) (hb : b ≠ 0)
    (hx : ¬(a = -2 ^ 31 ∧ b = -1)) : -2 ^ 31 ≤ a.tdiv b ∧ a.tdiv b < 2 ^ 31 := by
  have hn := Int.natAbs_tdiv_le_natAbs a b
  by_cases hmin : a = -2 ^ 31
  · rcases Int.lt_or_gt_of_ne hb with hneg | hpos
    · -- a divisor below -1 halves the dividend at least
      have hhalf : (a.tdiv b).natAbs ≤ a.natAbs / 2 := by
        rw [Int.natAbs_tdiv]
        exact Nat.div_le_div_left (by omega) (by omega)
      omega
    · have hle : a.tdiv b ≤ 0 := by
        rw [← Int.neg_neg a, Int.neg_tdiv]
        have := Int.tdiv_nonneg (show 0 ≤ -a by omega) (Int.le_of_lt hpos)
        omega
      omega
  · omega

theorem tmod_bounds {a b : Int} (ha : -2 ^ 31 ≤ a) (ha' : a < 2 ^ 31) :
    -2 ^ 31 ≤ a.tmod b ∧ a.tmod b < 2 ^ 31 := by
  have hm := Int.natAbs_tmod a b
  have hle := Nat.mod_le a.natAbs b.natAbs
  rcases Int.le_total 0 a with h0 | h0
  · have := Int.tmod_nonneg b h0
    omega
  · have := Int.tmod_nonneg b (show 0 ≤ -a by omega)
    rw [Int.neg_tmod] at this
    omega

theorem exact_div (acc : Nat) {x y : Uint32} (hy : y ≠ 0) :
    div.Exact acc x y (BitVec.ofInt 32 (x.toInt.tmod y.toInt))
      (BitVec.ofInt 32 (x.toInt.tdiv y.toInt)) := by
  have h1 := x.toInt_lt
  have h2 := x.le_toInt
  obtain ⟨m1, m2⟩ := tmod_bounds (b := y.toInt) (by omega) (by omega : x.toInt < 2 ^ 31)
  refine ⟨?_, toInt_ofInt_of_le m1 m2⟩
  by_cases hx : x = 0x80000000 ∧ y = 0xFFFFFFFF
  · rw [if_pos hx, hx.1, hx.2]
    decide
  · have hy0 : y.toInt ≠ 0 := fun he => hy (BitVec.eq_of_toInt_eq he)
    have hx' : ¬(x.toInt = -2 ^ 31 ∧ y.toInt = -1) := fun hc =>
      hx ⟨BitVec.eq_of_toInt_eq hc.1, BitVec.eq_of_toInt_eq hc.2⟩
    obtain ⟨q1, q2⟩ := tdiv_bounds (by omega) (by omega) hy0 hx'
    rw [if_neg hx, toInt_ofInt_of_le q1 q2]

/-! ## The instructions -/

variable {h s op instr}

theorem leaves_iff {P : Uint32 → Uint32 → Prop} {hi lo : Uint32}
    (hd : s.decode h instr = some ({ s with hi := hi, lo := lo }, .nothingSpecial)) :
    Leaves h s instr P ↔ P hi lo := by
  constructor
  · rintro ⟨hi', lo', hd', hP⟩
    have := hd.symm.trans hd'
    simp only [Option.some.injEq, Prod.mk.injEq, MipsState.mk.injEq, and_true, true_and] at this
    rw [this.1, this.2]
    exact hP
  · exact fun hP => ⟨hi, lo, hd, hP⟩

theorem decode_special (hop : Mips.opcode instr = 0o00) :
    s.decode h instr = s.decodeSpecial instr := by
  unfold MipsState.decode
  rw [hop]
  rfl

theorem decode_mult (hi : mult.Is instr ∨ multu.Is instr) : s.decode h instr =
    some (s.setHiLo ((s.gpr (rs instr)).setWidth 64 * (s.gpr (rt instr)).setWidth 64),
      .nothingSpecial) := by
  rcases hi with ⟨hop, hf⟩ | ⟨hop, hf⟩
  · rw [decode_special hop]
    unfold MipsState.decodeSpecial
    rw [hf]
    rfl
  · rw [decode_special hop]
    unfold MipsState.decodeSpecial
    rw [hf]
    rfl

theorem decode_madd (hi : madd.Is instr) : s.decode h instr =
    some (s.setHiLo ((s.gpr (rs instr) * s.gpr (rt instr)).setWidth 64 +
      ((s.hi.setWidth 64 <<< 32) + s.lo.setWidth 64)), .nothingSpecial) := by
  obtain ⟨hop, hf⟩ := hi
  have hd : s.decode h instr = s.decodeSpecial2 instr := by
    unfold MipsState.decode
    rw [hop]
    rfl
  rw [hd]
  unfold MipsState.decodeSpecial2
  rw [hf]
  rfl

theorem decode_div (hi : div.Is instr) (hy : s.gpr (rt instr) ≠ 0) : s.decode h instr =
    some ({ s with
      hi := BitVec.ofInt 32 ((s.gpr (rs instr)).toInt.tmod (s.gpr (rt instr)).toInt)
      lo := BitVec.ofInt 32 ((s.gpr (rs instr)).toInt.tdiv (s.gpr (rt instr)).toInt) },
      .nothingSpecial) := by
  obtain ⟨hop, hf⟩ := hi
  rw [decode_special hop]
  unfold MipsState.decodeSpecial
  rw [hf]
  show (s.divideInt32 _ _).bind _ = _
  rw [MipsState.divideInt32, if_neg hy]
  rfl

theorem decode_divu (hi : divu.Is instr) (hy : s.gpr (rt instr) ≠ 0) : s.decode h instr =
    some ({ s with
      hi := s.gpr (rs instr) % s.gpr (rt instr)
      lo := s.gpr (rs instr) / s.gpr (rt instr) }, .nothingSpecial) := by
  obtain ⟨hop, hf⟩ := hi
  rw [decode_special hop]
  unfold MipsState.decodeSpecial
  rw [hf]
  show (s.divideUInt32 _ _).bind _ = _
  rw [MipsState.divideUInt32, if_neg hy]
  rfl

theorem hiLo_madd (x y hi lo : Uint32) :
    ((x * y).setWidth 64 + ((hi.setWidth 64 <<< 32) + lo.setWidth 64) : BitVec 64).toNat =
      (x.toNat * y.toNat % 2 ^ 32 + hiLo hi lo) % 2 ^ 64 := by
  have hh := hi.isLt
  have hl := lo.isLt
  rw [BitVec.toNat_add, BitVec.toNat_add, BitVec.toNat_shiftLeft,
    BitVec.toNat_setWidth_of_le (by omega), BitVec.toNat_setWidth_of_le (by omega),
    BitVec.toNat_setWidth_of_le (by omega), BitVec.toNat_mul, Nat.shiftLeft_eq, hiLo]
  omega

/-- What MADD leaves is the sum with the product, signed or not, exactly where that fits in
32 bits. -/
theorem leaves_madd_iff (hi : madd.Is instr) (signed : Bool) :
    (Leaves h s instr fun hi lo => Accumulated signed (hiLo s.hi s.lo) (s.gpr (rs instr))
        (s.gpr (rt instr)) hi lo) ↔
      0 ≤ product signed (s.gpr (rs instr)) (s.gpr (rt instr)) ∧
        product signed (s.gpr (rs instr)) (s.gpr (rt instr)) < 2 ^ 32 := by
  rw [leaves_iff (decode_madd hi)]
  exact accumulated_madd_iff signed _ _ _ ((hiLo_setHiLo _).trans (hiLo_madd _ _ _ _))

/-- The product or the quotient is exact where `Holds`: always for MULTU and the divisions. -/
theorem mulDivOp_exact_iff (hi : op.Is instr) :
    (op.Meets h s instr ↔ op.Holds (s.gpr (rs instr)) (s.gpr (rt instr))) ∧
      ∀ signed, op = madd →
        ((Leaves h s instr fun hi lo => Accumulated signed (hiLo s.hi s.lo)
            (s.gpr (rs instr)) (s.gpr (rt instr)) hi lo) ↔
          0 ≤ product signed (s.gpr (rs instr)) (s.gpr (rt instr)) ∧
            product signed (s.gpr (rs instr)) (s.gpr (rt instr)) < 2 ^ 32) := by
  have hp := (hiLo_setHiLo ((s.gpr (rs instr)).setWidth 64 * (s.gpr (rt instr)).setWidth 64)).trans
    (toNat_wideProduct _ _)
  refine ⟨?_, ?_⟩
  · unfold Meets
    cases op with
    | mult =>
      rw [forall_prop_of_true (by simp [Divides]), leaves_iff (decode_mult (.inl hi))]
      exact accumulated_mult_iff _ _ hp
    | multu =>
      rw [forall_prop_of_true (by simp [Divides]), leaves_iff (decode_mult (.inr hi))]
      refine iff_of_true ?_ trivial
      have hlt := product_lt (s.gpr (rs instr)) (s.gpr (rt instr))
      show Accumulated _ _ _ _ _ _
      rw [Accumulated, hp, unsignedProduct_eq]
      generalize (s.gpr (rs instr)).toNat * (s.gpr (rt instr)).toNat = p at hlt ⊢
      omega
    | madd =>
      rw [forall_prop_of_true (by simp [Divides])]
      exact leaves_madd_iff hi true
    | div =>
      refine iff_of_true (fun hy => ?_) trivial
      have hy := hy (.inl rfl)
      rw [leaves_iff (decode_div hi hy)]
      exact exact_div _ hy
    | divu =>
      refine iff_of_true (fun hy => ?_) trivial
      rw [leaves_iff (decode_divu hi (hy (.inr rfl)))]
      exact ⟨BitVec.toNat_udiv, BitVec.toNat_umod⟩
  · rintro signed rfl
    exact leaves_madd_iff hi signed

/-- `mult $1, $2` of -1 and 1. -/
theorem mulDivOp_exact_iff_mult :
    (mult.Meets bareHost (((blankState ()).setGpr 1 0xFFFFFFFF).setGpr 2 1) 0x00220018 ↔
        mult.Holds 0xFFFFFFFF 1) ∧
      ∀ signed, mult = madd →
        ((Leaves bareHost (((blankState ()).setGpr 1 0xFFFFFFFF).setGpr 2 1) 0x00220018
            fun hi lo => Accumulated signed (hiLo 0 0) 0xFFFFFFFF 1 hi lo) ↔
          0 ≤ product signed 0xFFFFFFFF 1 ∧ product signed 0xFFFFFFFF 1 < 2 ^ 32) :=
  mulDivOp_exact_iff ⟨by decide, by decide⟩

/-- The product of -1 and 1 is left as `2 ^ 32 - 1`. -/
theorem mult_not_exact :
    ¬∀ (s : MipsState Unit) (op : MulDivOp) (instr : Uint32), op.Is instr →
      op.Meets bareHost s instr := by
  intro hall
  have hi : mult.Is 0x00220018 := ⟨by decide, by decide⟩
  have hm := hall (((blankState ()).setGpr 1 0xFFFFFFFF).setGpr 2 1) mult _ hi (by simp [Divides])
  rw [leaves_iff (decode_mult (.inl hi))] at hm
  revert hm
  show ¬(_ = _)
  decide

end MulDivOp

end SkyEye.Mips
