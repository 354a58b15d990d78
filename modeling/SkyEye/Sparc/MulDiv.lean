import SkyEye.Sparc.CondCodes
import SkyEye.Sparc.TrapReturn
import Mathlib.Algebra.Order.Ring.Abs
import Mathlib.Tactic.Positivity

/-!
# Multiplication and division

`umul`, `smul` and `udiv` against the 64-bit product in `y:rd` and the quotient of `y:rs1`
by a 32-bit divisor. The product is computed in 32 bits, so `y` is 0; the quotient is cut
off instead of saturated, and a negative immediate divisor is extended to 64 bits.
-/

namespace SkyEye.Sparc

/-- The instructions of this module. -/
inductive MulDivOp where
  | umul
  | smul
  | udiv
  deriving DecidableEq

namespace MulDivOp

def instr : MulDivOp → Fields → Instr
  | umul => .umul
  | smul => .smul
  | udiv => .udiv

variable {M : Type} (h : Host M) (s : SparcState M) (f : Fields)

/-! ## What the architecture says -/

/-- The full product of a multiplication. -/
def product : MulDivOp → Int
  | smul => (s.reg f.rs1).toInt * (s.operand2 f.op2).toInt
  | _ => (s.reg f.rs1).toNat * (s.operand2 f.op2).toNat

def dividend : Nat := s.y.toNat * 2 ^ 32 + (s.reg f.rs1).toNat

def divisor : Nat := (s.operand2 f.op2).toNat

/-- `t` has the product in `y:rd`. -/
structure ProductIn (p : Int) (t : SparcState M) : Prop where
  y : t.y = BitVec.ofInt 32 (p / 2 ^ 32)
  reg : ∀ x : RegNo,
    t.reg x = if x = 0 then 0 else if x = f.rd then BitVec.ofInt 32 p else s.reg x

/-- `t` has the quotient in `rd`, saturated, or the trap of a division by zero. -/
structure QuotientIn (t : SparcState M) : Prop where
  reg : ∀ x : RegNo, t.reg x = if x = 0 then 0 else if x = f.rd ∧ divisor s f ≠ 0 then
    BitVec.ofNat 32 (min (dividend s f / divisor s f) (2 ^ 32 - 1)) else s.reg x
  irqPending : t.irqPending = (s.irqPending || decide (divisor s f = 0))
  tbr : t.tbr = if divisor s f = 0 then s.tbr &&& TBR_BASE_MASK ||| 0x2A0 else s.tbr

/-- `t` is what the instruction makes of `s`. -/
def Exact (op : MulDivOp) (t : SparcState M) : Prop :=
  match op with
  | udiv => QuotientIn s f t
  | op => ProductIn s f (op.product s f) t

/-- When the code meets it. -/
def Holds : MulDivOp → Prop
  | udiv => f.rd = 0 ∨ divisor s f = 0 ∨
    match f.op2 with
    | .reg _ => dividend s f / divisor s f < 2 ^ 32 ∨
        dividend s f / divisor s f % 2 ^ 32 = 2 ^ 32 - 1
    | .simm13 imm => if imm.msb then dividend s f < divisor s f
      else dividend s f / divisor s f < 2 ^ 32 ∨
        dividend s f / divisor s f % 2 ^ 32 = 2 ^ 32 - 1
  | op => 0 ≤ op.product s f ∧ op.product s f < 2 ^ 32

/-! ## The products -/

/-- The product that the code computes is one of words, and its upper half is 0. -/
theorem multiply_eq : s.multiply f =
    { s.setReg f.rd (s.reg f.rs1 * s.operand2 f.op2) with y := 0 }.advance := by
  have hp := (s.reg f.rs1 * s.operand2 f.op2).isLt
  have hlow : (BitVec.setWidth 64 (s.reg f.rs1 * s.operand2 f.op2)).setWidth 32 =
      s.reg f.rs1 * s.operand2 f.op2 := by
    apply BitVec.eq_of_toNat_eq
    rw [BitVec.toNat_setWidth, BitVec.toNat_setWidth]
    omega
  have hhigh : ((BitVec.setWidth 64 (s.reg f.rs1 * s.operand2 f.op2)) >>> 32).setWidth 32 =
      (0 : Uint32) := by
    apply BitVec.eq_of_toNat_eq
    rw [BitVec.toNat_setWidth, BitVec.toNat_ushiftRight, BitVec.toNat_setWidth,
      Nat.shiftRight_eq_div_pow]
    show _ = 0
    omega
  unfold SparcState.multiply
  dsimp only
  rw [hlow, hhigh]

/-- The upper word of a product is 0 only where the product fits in the lower. -/
theorem ofInt_upper_eq_zero_iff {p : Int} (h1 : -2 ^ 63 ≤ p) (h2 : p < 2 ^ 64) :
    (0 : Uint32) = BitVec.ofInt 32 (p / 2 ^ 32) ↔ 0 ≤ p ∧ p < 2 ^ 32 := by
  rw [← BitVec.toNat_inj, BitVec.toNat_ofInt]
  show 0 = _ ↔ _
  omega

theorem natAbs_toInt_le (x : Uint32) : x.toInt.natAbs ≤ 2 ^ 31 := by
  have h1 := x.toInt_lt
  have h2 := x.le_toInt
  omega

theorem product_bounds (op : MulDivOp) :
    -2 ^ 63 ≤ op.product s f ∧ op.product s f < 2 ^ 64 := by
  have hu : (s.reg f.rs1).toNat * (s.operand2 f.op2).toNat < 2 ^ 32 * 2 ^ 32 :=
    Nat.mul_lt_mul'' (s.reg f.rs1).isLt (s.operand2 f.op2).isLt
  have hs : ((s.reg f.rs1).toInt * (s.operand2 f.op2).toInt).natAbs ≤ 2 ^ 31 * 2 ^ 31 := by
    rw [Int.natAbs_mul]
    exact Nat.mul_le_mul (natAbs_toInt_le _) (natAbs_toInt_le _)
  cases op with
  | smul =>
    rw [product]
    omega
  | umul | udiv =>
    simp only [product]
    omega

/-- The lower word is that of the product in words. -/
theorem ofInt_product (op : MulDivOp) :
    BitVec.ofInt 32 (op.product s f) = s.reg f.rs1 * s.operand2 f.op2 := by
  cases op with
  | smul => rw [product, BitVec.ofInt_mul, BitVec.ofInt_toInt, BitVec.ofInt_toInt]
  | umul | udiv =>
    simp only [product]
    rw [BitVec.ofInt_mul, BitVec.ofInt_natCast, BitVec.ofInt_natCast, BitVec.ofNat_toNat,
      BitVec.ofNat_toNat, BitVec.setWidth_eq, BitVec.setWidth_eq]

theorem productIn_iff (op : MulDivOp) (hi : s.execute h (op.instr f) = s.multiply f) :
    ProductIn s f (op.product s f) (s.iuCycleStep h (op.instr f)) ↔
      0 ≤ op.product s f ∧ op.product s f < 2 ^ 32 := by
  obtain ⟨h1, h2⟩ := product_bounds s f op
  have hy : (s.iuCycleStep h (op.instr f)).y = 0 := by
    rw [SparcState.iuCycleStep, SparcState.setReg_y, hi, multiply_eq]
    rfl
  have hreg := s.reg_cycle_of_reg h (op.instr f) f.rd (s.reg f.rs1 * s.operand2 f.op2) (by
      intro x
      rw [hi, multiply_eq]
      rfl)
  rw [← ofInt_upper_eq_zero_iff h1 h2]
  constructor
  · rintro ⟨hp, -⟩
    rw [← hp, hy]
  · intro hp
    refine ⟨hy.trans hp, fun x => ?_⟩
    rw [hreg x, ofInt_product]

/-! ## The quotient -/

theorem toNat_dividend : (BitVec.setWidth 64 s.y <<< 32 ||| (s.reg f.rs1).setWidth 64).toNat =
    dividend s f := by
  have hy := s.y.isLt
  have hx := (s.reg f.rs1).isLt
  have ha : BitVec.setWidth 64 s.y <<< 32 ||| (s.reg f.rs1).setWidth 64 = s.y ++ s.reg f.rs1 := by
    have he : (s.y ++ s.reg f.rs1).setWidth 64 =
        s.y.setWidth 64 <<< 32 ||| (s.reg f.rs1).setWidth 64 :=
      BitVec.setWidth_append_eq_shiftLeft_setWidth_or
    rw [← he, BitVec.setWidth_eq]
  rw [ha, Word.toNat_append, dividend]

theorem dividend_lt : dividend s f < 2 ^ 64 := by
  have hy := s.y.isLt
  have hx := (s.reg f.rs1).isLt
  unfold dividend
  omega

/-- The divisor of the code: 64 bits wide for a negative immediate. -/
def udivDivisor : Nat :=
  match f.op2 with
  | .reg _ => divisor s f
  | .simm13 imm => if imm.msb then 2 ^ 64 - 2 ^ 32 + divisor s f else divisor s f

theorem toNat_signExtend_13 (imm : BitVec 13) (n : Nat) (hn : 13 ≤ n) :
    (imm.signExtend n).toNat = imm.toNat + if imm.msb then 2 ^ n - 2 ^ 13 else 0 := by
  rw [BitVec.toNat_signExtend, BitVec.toNat_setWidth_of_le hn]

theorem toNat_signExt13 (imm : BitVec 13) :
    (signExt13 imm).toNat = imm.toNat + if imm.msb then 2 ^ 32 - 2 ^ 13 else 0 :=
  toNat_signExtend_13 imm 32 (by omega)

theorem signExt13_toNat_eq_zero_iff (imm : BitVec 13) : (signExt13 imm).toNat = 0 ↔ imm = 0 := by
  have hm : imm.msb = decide (2 ^ 12 ≤ imm.toNat) := BitVec.msb_eq_decide imm
  rw [toNat_signExt13, ← BitVec.toNat_inj, hm]
  show _ ↔ imm.toNat = 0
  by_cases h12 : 2 ^ 12 ≤ imm.toNat
  · rw [if_pos (decide_eq_true h12)]
    omega
  · rw [if_neg (by simpa using h12), Nat.add_zero]

theorem setWidth_udiv (x y : BitVec 64) :
    (x / y).setWidth 32 = BitVec.ofNat 32 (x.toNat / y.toNat) := by
  apply BitVec.eq_of_toNat_eq
  rw [BitVec.toNat_setWidth, BitVec.toNat_udiv, BitVec.toNat_ofNat]

/-- `udiv` traps, or writes the lower half of a quotient. -/
theorem iUdiv_eq : s.iUdiv f =
    if divisor s f = 0 then (s.signal SparcState.DIV_BY_ZERO).advance
    else (s.setReg f.rd (BitVec.ofNat 32 (dividend s f / udivDivisor s f))).advance := by
  unfold SparcState.iUdiv
  dsimp only
  cases ho : f.op2 with
  | reg rs2 =>
    have hd : divisor s f = (s.reg rs2).toNat := by rw [divisor, ho]; rfl
    have hz : s.reg rs2 = 0 ↔ divisor s f = 0 := by rw [hd, ← BitVec.toNat_inj]; rfl
    have hw : (BitVec.setWidth 64 (s.reg rs2)).toNat = udivDivisor s f := by
      have hr := (s.reg rs2).isLt
      rw [udivDivisor, ho, BitVec.toNat_setWidth]
      dsimp only
      omega
    simp only [hz, setWidth_udiv, toNat_dividend, hw]
    split <;> rfl
  | simm13 imm =>
    have hd : divisor s f = (signExt13 imm).toNat := by rw [divisor, ho]; rfl
    have hz : imm = 0 ↔ divisor s f = 0 := by rw [hd, signExt13_toNat_eq_zero_iff]
    have hw : (imm.signExtend 64).toNat = udivDivisor s f := by
      rw [udivDivisor, ho, hd, toNat_signExt13, toNat_signExtend_13 imm 64 (by omega)]
      dsimp only
      split <;> omega
    simp only [hz, setWidth_udiv, toNat_dividend, hw]
    split <;> rfl

theorem signal_div_by_zero : s.signal SparcState.DIV_BY_ZERO =
    { s with tbr := s.tbr &&& TBR_BASE_MASK ||| 0x2A0, irqPending := true } := rfl

/-- A divisor that is extended with ones beyond its word leaves a quotient of 0 or 1. -/
theorem quotient_extended_iff {d v : Nat} (hd : d < 2 ^ 64) (hv : 2 ^ 32 - 2 ^ 13 ≤ v)
    (hv' : v < 2 ^ 32) :
    d / (2 ^ 64 - 2 ^ 32 + v) % 2 ^ 32 = min (d / v) (2 ^ 32 - 1) % 2 ^ 32 ↔ d < v := by
  have hq : d / (2 ^ 64 - 2 ^ 32 + v) ≤ 1 := by
    have hlt : d / (2 ^ 64 - 2 ^ 32 + v) < 2 := Nat.div_lt_of_lt_mul (by omega)
    omega
  by_cases hs : d < v
  · rw [Nat.div_eq_of_lt hs, Nat.div_eq_of_lt (by omega)]
    simpa using hs
  · have h1 : 1 ≤ d / v := (Nat.one_le_div_iff (by omega)).mpr (by omega)
    refine iff_of_false (fun he => ?_) hs
    -- the code has 1 only where the dividend is more than `2 ^ 63`
    by_cases hbig : 2 ^ 64 - 2 ^ 32 + v ≤ d
    · have h2 : 2 ≤ d / v := by
        rw [Nat.le_div_iff_mul_le (by omega)]
        omega
      have h3 : 2 ≤ min (d / v) (2 ^ 32 - 1) := Nat.le_min.mpr ⟨h2, by omega⟩
      have h4 : min (d / v) (2 ^ 32 - 1) < 2 ^ 32 :=
        Nat.lt_of_le_of_lt (Nat.min_le_right _ _) (by omega)
      rw [Nat.mod_eq_of_lt h4, Nat.mod_eq_of_lt (by omega)] at he
      omega
    · rw [Nat.div_eq_of_lt (Nat.lt_of_not_le hbig)] at he
      omega

/-- The quotient as it is written against the saturated one. -/
theorem ofNat_quotient_eq_iff :
    BitVec.ofNat 32 (dividend s f / udivDivisor s f) =
        BitVec.ofNat 32 (min (dividend s f / divisor s f) (2 ^ 32 - 1)) ↔
      match f.op2 with
      | .reg _ => dividend s f / divisor s f < 2 ^ 32 ∨
          dividend s f / divisor s f % 2 ^ 32 = 2 ^ 32 - 1
      | .simm13 imm => if imm.msb then dividend s f < divisor s f
        else dividend s f / divisor s f < 2 ^ 32 ∨
          dividend s f / divisor s f % 2 ^ 32 = 2 ^ 32 - 1 := by
  rw [← BitVec.toNat_inj, BitVec.toNat_ofNat, BitVec.toNat_ofNat]
  unfold udivDivisor
  cases ho : f.op2 with
  | reg rs2 =>
    dsimp only
    omega
  | simm13 imm =>
    dsimp only
    split
    · have hle : 2 ^ 32 - 2 ^ 13 ≤ divisor s f := by
        have hm : (signExt13 imm).toNat = _ := toNat_signExt13 imm
        rw [if_pos ‹_›] at hm
        rw [divisor, ho]
        show _ ≤ (signExt13 imm).toNat
        omega
      exact quotient_extended_iff (dividend_lt s f) hle (s.operand2 f.op2).isLt
    · omega

theorem quotientIn_of_zero (hd : divisor s f = 0) :
    QuotientIn s f (s.iuCycleStep h (.udiv f)) := by
  have hu : s.execute h (.udiv f) =
      ({ s with tbr := s.tbr &&& TBR_BASE_MASK ||| 0x2A0, irqPending := true } :
        SparcState M).advance := by
    rw [← signal_div_by_zero]
    exact (iUdiv_eq s f).trans (if_pos hd)
  refine ⟨fun x => ?_, ?_, ?_⟩
  · have h0 : (x : Nat) = G0 ↔ x = 0 := by
      rw [Fin.ext_iff]
      rfl
    rw [SparcState.iuCycleStep, SparcState.reg_setReg, hu]
    simp only [h0, hd, ne_eq, not_true, and_false, if_false]
    rfl
  · rw [SparcState.iuCycleStep, SparcState.setReg_irqPending, hu]
    simp [hd, SparcState.advance]
  · rw [SparcState.iuCycleStep, SparcState.setReg_tbr, hu, if_pos hd]
    rfl

theorem quotientIn_iff_of_ne_zero (hd : divisor s f ≠ 0) :
    QuotientIn s f (s.iuCycleStep h (.udiv f)) ↔ f.rd = 0 ∨
      BitVec.ofNat 32 (dividend s f / udivDivisor s f) =
        BitVec.ofNat 32 (min (dividend s f / divisor s f) (2 ^ 32 - 1)) := by
  have hu : s.execute h (.udiv f) =
      (s.setReg f.rd (BitVec.ofNat 32 (dividend s f / udivDivisor s f))).advance :=
    (iUdiv_eq s f).trans (if_neg hd)
  have hreg := s.reg_cycle_of_reg h (.udiv f) f.rd
    (BitVec.ofNat 32 (dividend s f / udivDivisor s f)) (by
      intro x
      rw [hu]
      rfl)
  constructor
  · rintro ⟨hq, -, -⟩
    by_cases hrd : f.rd = 0
    · exact .inl hrd
    · have he := (hreg f.rd).symm.trans (hq f.rd)
      rw [if_neg hrd, if_neg hrd, if_pos rfl, if_pos ⟨rfl, hd⟩] at he
      exact .inr he
  · intro he
    refine ⟨fun x => ?_, ?_, ?_⟩
    · rw [hreg x]
      by_cases hx0 : x = 0
      · rw [if_pos hx0, if_pos hx0]
      · rw [if_neg hx0, if_neg hx0]
        by_cases hxr : x = f.rd
        · rw [if_pos hxr, if_pos ⟨hxr, hd⟩]
          exact he.resolve_left fun hrd => hx0 (hxr.trans hrd)
        · rw [if_neg hxr, if_neg fun hc => hxr hc.1]
    · rw [SparcState.iuCycleStep, SparcState.setReg_irqPending, hu]
      simp [hd]
    · rw [SparcState.iuCycleStep, SparcState.setReg_tbr, hu, if_neg hd]
      exact SparcState.setReg_tbr _ _ _

/-- The instructions leave the product or the quotient exactly where `Holds`. -/
theorem mulDiv_exact_iff (op : MulDivOp) :
    op.Exact s f (s.iuCycleStep h (op.instr f)) ↔ op.Holds s f := by
  cases op with
  | umul => exact productIn_iff h s f umul rfl
  | smul => exact productIn_iff h s f smul rfl
  | udiv =>
    show QuotientIn s f (s.iuCycleStep h (.udiv f)) ↔ _
    by_cases hd : divisor s f = 0
    · exact iff_of_true (quotientIn_of_zero h s f hd) (.inr (.inl hd))
    · rw [quotientIn_iff_of_ne_zero h s f hd, ofNat_quotient_eq_iff s f]
      simp only [Holds, hd, false_or]

/-- The square of `2 ^ 16` has an upper word. -/
theorem umul_not_exact :
    ¬∀ (s : SparcState Unit) (op : MulDivOp) (f : Fields),
      op.Exact s f (s.iuCycleStep bareHost (op.instr f)) := by
  intro hall
  have he := hall (resetState.setReg 8 0x10000) umul ⟨9, 8, .reg 8⟩
  have hlt := ((productIn_iff bareHost _ _ umul rfl).mp he).2
  revert hlt
  decide

end MulDivOp

end SkyEye.Sparc
