import SkyEye.Bfin.Defs
import SkyEye.Lib.Runs
import SkyEye.Lib.Saturate
import Mathlib.Tactic.Linarith

/-!
# The multiplier and the accumulators

`decode_multfunc`, `decode_macfunc` and `decode_dsp32mac_0`. An accumulator is extended from its
bit 31 before it is added to, though it has 40 bits: the sum is exact while what it held fits a
word, and 2 ^ 32 too small where it was in the next 2 ^ 31.
-/

namespace SkyEye.Bfin

open Sparc (Uint32)
open Saturate (clamp)

/-- The modes of the multiplier. -/
def mS2rnd : Nat := 1
def mT : Nat := 2
def mFu : Nat := 4
def mTfu : Nat := 6
def mIs : Nat := 8
def mIss2 : Nat := 9
def mIh : Nat := 11
def mIu : Nat := 12

/-- The modes in which a product is signed, and those in which an accumulator is. -/
def signedProduct (mmod : Nat) : Bool :=
  mmod = 0 || mmod = mIs || mmod = mT || mmod = mS2rnd || mmod = mIss2 || mmod = mIh

def signedAccum (mmod : Nat) : Bool :=
  mmod = 0 || mmod = mT || mmod = mIs || mmod = mIss2 || mmod = mS2rnd

def unsignedProduct (mmod : Nat) : Bool := mmod = mFu || mmod = mIu || mmod = mTfu

/-- The modes in which a product is shifted. -/
def fractional (mmod : Nat) : Bool := mmod = 0 || mmod = mT || mmod = mS2rnd

/-- The half of a register that is a factor. -/
def macHalf (h : Bool) (d : Uint32) : Uint32 := (if h then d >>> 16 else d) &&& 0xffff#32

/-- `s |= -(s & 0x8000)` -/
def withSign (s : Uint32) : Uint32 := s ||| -(s &&& 0x8000#32)

/-- The shift of a product of two fractions. -/
def shiftProduct (val : Uint32) : Uint32 :=
  if val = 0x40000000#32 then 0x7fffffff#32 else val <<< 1

/-- `val1 |= -(val1 & 0x80000000)` -/
def extendProduct (val1 : BitVec 64) : BitVec 64 := val1 ||| -(val1 &&& 0x80000000#64)

/-- The factors of `decode_multfunc` with their signs. -/
def multFactors (s0 s1 : Uint32) (mmod : Nat) (mm : Bool) : Option (Uint32 × Uint32) :=
  if mm then some (withSign s0, s1)
  else if signedProduct mmod then some (withSign s0, withSign s1)
  else if unsignedProduct mmod then some (s0, s1)
  else none

/-- `decode_multfunc`, on the two registers. -/
def decodeMultfunc (h0 h1 : Bool) (d0 d1 : Uint32) (mmod : Nat) (mm : Bool) :
    Option (BitVec 64) := do
  let (s0, s1) ← multFactors (macHalf h0 d0) (macHalf h1 d1) mmod mm
  let val := s0 * s1
  let val := if fractional mmod then shiftProduct val else val
  let val1 := val.setWidth 64
  some (if signedProduct mmod then extendProduct val1 else val1)

/-- `saturate_s32`, `saturate_s16`, `saturate_u32`, `saturate_u16` -/
def saturateS32 (val : BitVec 64) : Uint32 :=
  if val.toInt < -0x80000000 then 0x80000000
  else if 0x7fffffff < val.toInt then 0x7fffffff
  else val.setWidth 32

def saturateS16 (val : BitVec 64) : Uint32 :=
  if val.toInt < -0x8000 then 0x8000
  else if 0x7fff < val.toInt then 0x7fff
  else val.setWidth 32

def saturateU32 (val : BitVec 64) : Uint32 :=
  if 0xffffffff < val then 0xffffffff else val.setWidth 32

def saturateU16 (val : BitVec 64) : Uint32 :=
  if 0xffff < val then 0xffff else val.setWidth 32

/-- `rnd16` and `trunc16`. The bits of the sign go back where they were, above a gap of zeros. -/
def rnd16 (val : BitVec 64) : BitVec 64 :=
  (val + 0x8000) >>> 16 ||| val &&& 0xff00000000000000

def trunc16 (val : BitVec 64) : BitVec 64 := val >>> 16 ||| val &&& 0xff00000000000000

def extractMult (res : BitVec 64) (mmod : Nat) (fullword : Bool) : Option Uint32 :=
  if fullword then
    if mmod = 0 ∨ mmod = mIs then some (saturateS32 res)
    else if mmod = mFu then some (saturateU32 res)
    else if mmod = mS2rnd ∨ mmod = mIss2 then some (saturateS32 (res <<< 1))
    else none
  else
    if mmod = 0 ∨ mmod = mIh then some (saturateS16 (rnd16 res))
    else if mmod = mIs then some (saturateS16 res)
    else if mmod = mFu then some (saturateU16 (rnd16 res))
    else if mmod = mIu then some (saturateU16 res)
    else if mmod = mT then some (saturateS16 (trunc16 res))
    else if mmod = mTfu then some (saturateU16 (trunc16 res))
    else if mmod = mS2rnd then some (saturateS16 (rnd16 (res <<< 1)))
    else if mmod = mIss2 then some (saturateS16 (res <<< 1))
    else none

/-- The accumulator as `decode_macfunc` reads it. -/
def accumRead (accum : BitVec 64) (mmod : Nat) : BitVec 64 :=
  let acc := accum &&& 0xFFFFFFFFFF#64
  if signedAccum mmod then extendProduct acc else acc

/-- The saturation of `decode_macfunc`. -/
def accumSaturate (accum : BitVec 64) (mmod : Nat) : Option (BitVec 64) :=
  if signedAccum mmod then
    some (if accum.toInt < -0x8000000000 then -0x8000000000#64
      else if 0x7fffffffff ≤ accum.toInt then 0x7fffffffff
      else accum)
  else if unsignedProduct mmod then
    some (if 0xFFFFFFFFFF < accum then 0xFFFFFFFFFF else accum)
  else none

/-- `decode_macfunc`, on an accumulator and the two registers. -/
def decodeMacfunc (accum : BitVec 64) (op : Nat) (h0 h1 : Bool) (d0 d1 : Uint32) (mmod : Nat)
    (mm fullword : Bool) : Option (BitVec 64 × Uint32) := do
  let acc := accumRead accum mmod
  if op = 3 then
    let v ← extractMult acc mmod fullword
    some (accum, v)
  else
    let res ← decodeMultfunc h0 h1 d0 d1 mmod mm
    let accum ← accumSaturate (if op = 0 then res else if op = 1 then acc + res else acc - res) mmod
    let v ← extractMult accum mmod fullword
    some (accum, v)

/-- One unit of `decode_dsp32mac_0`, which may stand still. -/
def macUnit (accum : BitVec 64) (w : Bool) (op : Nat) (h0 h1 : Bool) (d0 d1 : Uint32)
    (mmod : Nat) (mm fullword : Bool) : Option (BitVec 64 × Uint32) :=
  if w = true ∨ op ≠ 3 then decodeMacfunc accum op h0 h1 d0 d1 mmod mm fullword
  else some (accum, 0)

/-- The write of a result to a register, or to a half of it. -/
def macWrite (s : SavedState) (w P : Bool) (dst : BitVec 3) (high : Bool) (res : Uint32) :
    Option SavedState :=
  let r : Fin 16 := ⟨dst.toNat + 1, by omega⟩
  if w = false then some s
  else if P then some (s.setDpreg (if high then r else dreg dst) res)
  else if res &&& 0xffff0000 ≠ 0 then none
  else
    some (s.setDpreg (dreg dst)
      (if high then (s.dpregs (dreg dst) &&& 0xFFFF) ||| res <<< 16
      else (s.dpregs (dreg dst) &&& 0xFFFF0000) ||| res))

/-- The fields of `decode_dsp32mac_0` -/
structure MacFields where
  op1 : Nat
  w1 : Bool
  P : Bool
  MM : Bool
  mmod : Nat
  w0 : Bool
  src1 : Fin 16
  src0 : Fin 16
  dst : BitVec 3
  h10 : Bool
  h00 : Bool
  op0 : Nat
  h11 : Bool
  h01 : Bool

def macFields (iw0 iw1 : Uint16) : MacFields where
  op1 := (iw0.extractLsb' 0 2).toNat
  w1 := iw0.getLsbD 2
  P := iw0.getLsbD 3
  MM := iw0.getLsbD 4
  mmod := (iw0.extractLsb' 5 4).toNat
  w0 := iw1.getLsbD 13
  src1 := dreg (iw1.extractLsb' 0 3)
  src0 := dreg (iw1.extractLsb' 3 3)
  dst := iw1.extractLsb' 6 3
  h10 := iw1.getLsbD 9
  h00 := iw1.getLsbD 10
  op0 := (iw1.extractLsb' 11 2).toNat
  h11 := iw1.getLsbD 14
  h01 := iw1.getLsbD 15

/-- `((1 << mmod) & (P ? 0x313 : 0x1b57)) != 0` -/
def MacFields.allowed (f : MacFields) : Bool :=
  (if f.P then 0x313#16 else 0x1b57#16).getLsbD f.mmod

/-- `decode_dsp32mac_0`. The high half takes its mixed mode from MM, the low one never is. -/
def decodeDsp32mac (iw0 iw1 : Uint16) (s : SavedState) : Option SavedState := do
  let f := macFields iw0 iw1
  let d0 := s.dpregs f.src0
  let d1 := s.dpregs f.src1
  if f.w0 = false ∧ f.w1 = false ∧ f.op1 = 3 ∧ f.op0 = 3 then none
  else if f.op1 = 3 ∧ f.MM = true then none
  else if f.allowed = false then none
  else
    let (a1, res1) ← macUnit s.a1 f.w1 f.op1 f.h01 f.h11 d0 d1 f.mmod f.MM f.P
    let (a0, res0) ← macUnit s.a0 f.w0 f.op0 f.h00 f.h10 d0 d1 f.mmod false f.P
    let s ← macWrite { s with a0 := a0, a1 := a1 } f.w0 f.P f.dst false res0
    let s ← macWrite s f.w1 f.P f.dst true res1
    some (s.advance 4)

/-! ## Products -/

/-- The half of a register that a factor is. -/
def half (h : Bool) (d : Uint32) : BitVec 16 := (if h then d >>> 16 else d).setWidth 16

theorem macHalf_eq (h : Bool) (d : Uint32) : macHalf h d = (half h d).setWidth 32 := by
  apply BitVec.eq_of_toNat_eq
  rw [macHalf, show (0xffff#32) = BitVec.ofNat 32 (2 ^ 16 - 1) from rfl,
    Word.toNat_and_low _ 16 (by omega), half, BitVec.toNat_setWidth, BitVec.toNat_setWidth]
  omega

theorem withSign_half (x : BitVec 16) : withSign (x.setWidth 32) = x.signExtend 32 := by
  rw [withSign, show (0x8000#32) = BitVec.twoPow 32 15 from rfl]
  apply BitVec.eq_of_getLsbD_eq
  intro i hi
  rw [Word.getLsbD_or_neg_twoPow _ (by omega) hi, BitVec.getLsbD_signExtend,
    BitVec.msb_eq_getLsbD_last]
  rcases Nat.lt_trichotomy i 15 with h | rfl | h
  · simp [hi, show i < 16 by omega, show ¬15 ≤ i by omega]
  · simp
  · simp [hi, BitVec.getLsbD_of_ge x i (by omega), show ¬i < 16 by omega, show 15 ≤ i by omega]

theorem extendProduct_word (val : Uint32) :
    extendProduct (val.setWidth 64) = val.signExtend 64 := by
  rw [extendProduct, show (0x80000000#64) = BitVec.twoPow 64 31 from rfl]
  apply BitVec.eq_of_getLsbD_eq
  intro i hi
  rw [Word.getLsbD_or_neg_twoPow _ (by omega) hi, BitVec.getLsbD_signExtend,
    BitVec.msb_eq_getLsbD_last]
  rcases Nat.lt_trichotomy i 31 with h | rfl | h
  · simp [hi, show i < 32 by omega, show ¬31 ≤ i by omega]
  · simp
  · simp [hi, BitVec.getLsbD_of_ge val i (by omega), show ¬i < 32 by omega, show 31 ≤ i by omega]

/-- The second factor as a number: in mixed mode it has no sign. -/
def factor (mm : Bool) (y : BitVec 16) : Int := if mm then (y.toNat : Int) else y.toInt

/-- The shift of a product of two fractions, in 32 bits. -/
def shifted (v : Int) : Int := if v = 1073741824 then 2147483647 else (2 * v).bmod 4294967296

/-- The product as a number. -/
def product (mmod : Nat) (mm : Bool) (x y : BitVec 16) : Int :=
  if fractional mmod then shifted (x.toInt * factor mm y) else x.toInt * factor mm y

theorem factor_bound (mm : Bool) (y : BitVec 16) : -65535 ≤ factor mm y ∧ factor mm y ≤ 65535 := by
  have h1 := y.le_toInt
  have h2 := y.toInt_lt
  have h3 := y.isLt
  unfold factor
  cases mm <;> simp <;> omega

theorem mul_factor_bound (mm : Bool) (x y : BitVec 16) :
    -2147483648 < x.toInt * factor mm y ∧ x.toInt * factor mm y < 2147483648 := by
  obtain ⟨hy, hy'⟩ := factor_bound mm y
  have hx : -32768 ≤ x.toInt := x.le_toInt
  have hx' : x.toInt < 32768 := x.toInt_lt
  constructor <;> nlinarith

theorem shifted_bound (v : Int) : -2147483648 ≤ shifted v ∧ shifted v < 2147483648 := by
  have h1 := Int.le_bmod (x := 2 * v) (m := 4294967296) (by omega)
  have h2 := Int.bmod_lt (x := 2 * v) (m := 4294967296) (by omega)
  unfold shifted
  split <;> omega

theorem product_bound (mmod : Nat) (mm : Bool) (x y : BitVec 16) :
    -2147483648 ≤ product mmod mm x y ∧ product mmod mm x y < 2147483648 := by
  have := mul_factor_bound mm x y
  have := shifted_bound (x.toInt * factor mm y)
  unfold product
  split <;> omega

theorem toInt_shiftProduct (val : Uint32) : (shiftProduct val).toInt = shifted val.toInt := by
  unfold shiftProduct shifted
  by_cases h : val = 0x40000000#32
  · rw [if_pos h, h]; rfl
  · have hv : val.toInt ≠ 1073741824 := fun hv => h (BitVec.eq_of_toInt_eq hv)
    rw [if_neg h, if_neg hv, BitVec.shiftLeft_eq_mul_twoPow, BitVec.toInt_mul, Int.mul_comm]
    rfl

theorem multFactors_toInt (x y : BitVec 16) {mmod : Nat} (mm : Bool)
    (hs : signedProduct mmod = true) :
    ∃ s0 s1, multFactors (x.setWidth 32) (y.setWidth 32) mmod mm = some (s0, s1) ∧
      (s0 * s1).toInt = x.toInt * factor mm y := by
  have hb := mul_factor_bound mm x y
  have hprod : ∀ s1 : Uint32, s1.toInt = factor mm y →
      (withSign (x.setWidth 32) * s1).toInt = x.toInt * factor mm y := by
    intro s1 h1
    rw [BitVec.toInt_mul, withSign_half, BitVec.toInt_signExtend_of_le (by omega), h1,
      Int.bmod_eq_of_le] <;> omega
  cases mm with
  | true =>
    refine ⟨_, _, rfl, hprod _ ?_⟩
    have := y.isLt
    rw [BitVec.toInt_setWidth, Int.bmod_eq_of_le (by omega) (by omega)]
    rfl
  | false =>
    refine ⟨_, _, ?_, hprod (withSign (y.setWidth 32)) ?_⟩
    · rw [multFactors, if_neg Bool.false_ne_true, if_pos hs]
    · rw [withSign_half, BitVec.toInt_signExtend_of_le (by omega)]; rfl

theorem decodeMultfunc_toInt (h0 h1 : Bool) (d0 d1 : Uint32) {mmod : Nat} (mm : Bool)
    (hs : signedProduct mmod = true) :
    ∃ r, decodeMultfunc h0 h1 d0 d1 mmod mm = some r ∧
      r.toInt = product mmod mm (half h0 d0) (half h1 d1) := by
  obtain ⟨s0, s1, hf, hv⟩ := multFactors_toInt (half h0 d0) (half h1 d1) mm hs
  have hd : decodeMultfunc h0 h1 d0 d1 mmod mm = some (extendProduct
      ((if fractional mmod then shiftProduct (s0 * s1) else s0 * s1).setWidth 64)) := by
    simp only [decodeMultfunc, macHalf_eq, hf, hs, if_true, Option.bind_eq_bind, Option.bind_some]
  refine ⟨_, hd, ?_⟩
  rw [extendProduct_word, BitVec.toInt_signExtend_of_le (by omega), product, ← hv]
  split
  · exact toInt_shiftProduct _
  · rfl

theorem signedProduct_of_accum {mmod : Nat} (hs : signedAccum mmod = true) :
    signedProduct mmod = true := by
  simp only [signedAccum, Bool.or_eq_true, decide_eq_true_eq] at hs
  obtain (((rfl | rfl) | rfl) | rfl) | rfl := hs <;> rfl

/-! ## Accumulators -/

/-- What an accumulator of 40 bits can hold. -/
def InAccum (v : Int) : Prop := -549755813888 ≤ v ∧ v < 549755813888

instance (v : Int) : Decidable (InAccum v) := inferInstanceAs (Decidable (_ ∧ _))

/-- The value that is read: with bit 31 set, the low word with its sign. -/
def readAccum (v : Int) : Int :=
  if v / 2147483648 % 2 = 1 then (v + 2147483648) % 4294967296 - 2147483648
  else v % 1099511627776

/-- The values that are read as they are. -/
def Readable (v : Int) : Prop :=
  (-2147483648 ≤ v ∧ v < 0) ∨ (0 ≤ v ∧ v / 2147483648 % 2 = 0)

instance (v : Int) : Decidable (Readable v) := inferInstanceAs (Decidable (_ ∨ _))

theorem readAccum_bound (v : Int) : -2147483648 ≤ readAccum v ∧ readAccum v < 1099511627776 := by
  unfold readAccum
  split <;> omega

theorem accumRead_toInt (accum : BitVec 64) {mmod : Nat} (hs : signedAccum mmod = true) :
    (accumRead accum mmod).toInt = readAccum accum.toInt := by
  have hmask : (accum &&& 0xFFFFFFFFFF#64).toNat = accum.toNat % 1099511627776 :=
    Word.toNat_and_low accum 40 (by omega)
  have hlow : ∀ i, i < 40 → (accum &&& 0xFFFFFFFFFF#64).getLsbD i = accum.getLsbD i := by
    intro i hi
    rw [BitVec.getLsbD, hmask, BitVec.getLsbD, show 1099511627776 = 2 ^ 40 from rfl,
      Nat.testBit_mod_two_pow, decide_eq_true hi, Bool.true_and]
  have hbit : accum.getLsbD 31 = decide (accum.toInt / 2147483648 % 2 = 1) := by
    rw [BitVec.getLsbD, Nat.testBit_eq_decide_div_mod_eq]
    have := accum.isLt
    have := BitVec.toInt_eq_toNat_cond accum
    congr 1
    apply propext
    omega
  have hread : accumRead accum mmod = extendProduct (accum &&& 0xFFFFFFFFFF#64) := by
    rw [accumRead, if_pos hs]
  rw [hread, extendProduct, show (0x80000000#64) = BitVec.twoPow 64 31 from rfl]
  unfold readAccum
  by_cases hb : accum.toInt / 2147483648 % 2 = 1
  · have hb' : accum.getLsbD 31 = true := by rw [hbit, decide_eq_true hb]
    have he : (accum &&& 0xFFFFFFFFFF#64) |||
        -((accum &&& 0xFFFFFFFFFF#64) &&& BitVec.twoPow 64 31) =
          (accum.setWidth 32).signExtend 64 := by
      apply BitVec.eq_of_getLsbD_eq
      intro i hi
      rw [Word.getLsbD_or_neg_twoPow _ (by omega) hi, hlow 31 (by omega), hb',
        BitVec.getLsbD_signExtend, BitVec.msb_eq_getLsbD_last]
      by_cases h : i < 31
      · rw [hlow i (by omega)]
        simp [hi, show i < 32 by omega, show ¬31 ≤ i by omega]
      · by_cases h' : i < 32
        · obtain rfl : i = 31 := by omega
          simp [hb']
        · simp [hi, h', hb', show 31 ≤ i by omega]
    rw [if_pos hb, he, BitVec.toInt_signExtend_of_le (by omega), BitVec.toInt_setWidth]
    have := accum.isLt
    have := BitVec.toInt_eq_toNat_cond accum
    rw [Int.bmod]
    split <;> omega
  · have hb' : accum.getLsbD 31 = false := by rw [hbit, decide_eq_false hb]
    have he : (accum &&& 0xFFFFFFFFFF#64) &&& BitVec.twoPow 64 31 = 0#64 := by
      rw [BitVec.and_twoPow, hlow 31 (by omega), hb', if_neg Bool.false_ne_true]
    rw [if_neg hb, he, BitVec.neg_zero, BitVec.or_zero, BitVec.toInt_eq_toNat_of_lt (by omega),
      hmask]
    have := accum.isLt
    have := BitVec.toInt_eq_toNat_cond accum
    omega

theorem clamp_eq (n : Int) : clamp 40 n = max (-549755813888) (min n 549755813887) := rfl

theorem clamp_inAccum (n : Int) : InAccum (clamp 40 n) := by
  unfold InAccum
  rw [clamp_eq]
  omega

/-- A sum is right exactly if the accumulator is read as it is: else the values that are read
and meant are 2 ^ 32 apart at least. -/
theorem clamp_read_iff {v p : Int} (hv : InAccum v) (hp : -2147483648 ≤ p ∧ p ≤ 2147483648) :
    clamp 40 (readAccum v + p) = clamp 40 (v + p) ↔ Readable v := by
  unfold InAccum at hv
  rw [clamp_eq, clamp_eq]
  unfold readAccum Readable
  split <;> omega

theorem accumSaturate_toInt (a : BitVec 64) {mmod : Nat} (hs : signedAccum mmod = true) :
    ∃ r, accumSaturate a mmod = some r ∧ r.toInt = clamp 40 a.toInt := by
  refine ⟨_, if_pos hs, ?_⟩
  rw [clamp_eq]
  split
  · rw [show (-0x8000000000#64 : BitVec 64).toInt = -549755813888 from rfl]
    omega
  · split
    · rw [show (0x7fffffffff : BitVec 64).toInt = 549755813887 from rfl]
      omega
    · omega

theorem extractMult_isSome (res : BitVec 64) {mmod : Nat} {fullword : Bool}
    (hs : signedAccum mmod = true) (hf : fullword = true → mmod ≠ mT) :
    ∃ v, extractMult res mmod fullword = some v := by
  simp only [signedAccum, Bool.or_eq_true, decide_eq_true_eq] at hs
  cases fullword with
  | true =>
    obtain (((rfl | rfl) | rfl) | rfl) | rfl := hs
    · exact ⟨_, rfl⟩
    · exact absurd rfl (hf rfl)
    · exact ⟨_, rfl⟩
    · exact ⟨_, rfl⟩
    · exact ⟨_, rfl⟩
  | false => obtain (((rfl | rfl) | rfl) | rfl) | rfl := hs <;> exact ⟨_, rfl⟩

/-- An operation on an accumulator that is read as `r`, the product being `p`. -/
def macNext (op : Nat) (v r p : Int) : Int :=
  if op = 3 then v else if op = 0 then p else if op = 1 then clamp 40 (r + p) else clamp 40 (r - p)

theorem decodeMacfunc_toInt (accum : BitVec 64) (op : Nat) (h0 h1 : Bool) (d0 d1 : Uint32)
    {mmod : Nat} (mm : Bool) {fullword : Bool} (hs : signedAccum mmod = true)
    (hf : fullword = true → mmod ≠ mT) :
    ∃ r v, decodeMacfunc accum op h0 h1 d0 d1 mmod mm fullword = some (r, v) ∧
      r.toInt = macNext op accum.toInt (readAccum accum.toInt)
        (product mmod mm (half h0 d0) (half h1 d1)) := by
  unfold decodeMacfunc macNext
  by_cases hop : op = 3
  · obtain ⟨v, hv⟩ := extractMult_isSome (accumRead accum mmod) hs hf
    exact ⟨accum, v, by simp [hop, hv], by rw [if_pos hop]⟩
  · obtain ⟨res, hres, hp⟩ := decodeMultfunc_toInt h0 h1 d0 d1 mm (signedProduct_of_accum hs)
    obtain ⟨r, hr, hri⟩ := accumSaturate_toInt (if op = 0 then res
      else if op = 1 then accumRead accum mmod + res else accumRead accum mmod - res) hs
    obtain ⟨v, hv⟩ := extractMult_isSome r hs hf
    refine ⟨r, v, by simp [hop, hres, hr, hv], ?_⟩
    have hb := product_bound mmod mm (half h0 d0) (half h1 d1)
    have hr' := readAccum_bound accum.toInt
    rw [if_neg hop, hri]
    split
    · rw [hp, clamp_eq]
      omega
    · split
      · rw [BitVec.toInt_add, accumRead_toInt accum hs, hp, Int.bmod_eq_of_le] <;> omega
      · rw [BitVec.toInt_sub, accumRead_toInt accum hs, hp, Int.bmod_eq_of_le] <;> omega

/-! ## Runs of multiply and accumulate -/

/-- The words of `decode_dsp32mac_0` that only accumulate, in a signed mode. -/
structure MacFields.Accumulates (f : MacFields) : Prop where
  w0 : f.w0 = false
  w1 : f.w1 = false
  some_op : ¬(f.op1 = 3 ∧ f.op0 = 3)
  mixed : ¬(f.op1 = 3 ∧ f.MM = true)
  allowed : f.allowed = true
  signed : signedAccum f.mmod = true

/-- Such a word, with the registers that the loads before it leave. -/
structure MacStep where
  iw0 : Uint16
  iw1 : Uint16
  dpregs : Fin 16 → Uint32
  accumulates : (macFields iw0 iw1).Accumulates

namespace MacStep

def fields (m : MacStep) : MacFields := macFields m.iw0 m.iw1

/-- The products for the two accumulators. -/
def product0 (m : MacStep) : Int :=
  product m.fields.mmod false (half m.fields.h00 (m.dpregs m.fields.src0))
    (half m.fields.h10 (m.dpregs m.fields.src1))

def product1 (m : MacStep) : Int :=
  product m.fields.mmod m.fields.MM (half m.fields.h01 (m.dpregs m.fields.src0))
    (half m.fields.h11 (m.dpregs m.fields.src1))

def exec (s : SavedState) (m : MacStep) : Option SavedState :=
  decodeDsp32mac m.iw0 m.iw1 { s with dpregs := m.dpregs }

/-- The sums of 40 bits, with saturation. -/
def meant (v : Int × Int) (m : MacStep) : Int × Int :=
  (macNext m.fields.op0 v.1 v.1 m.product0, macNext m.fields.op1 v.2 v.2 m.product1)

/-- What is added to or subtracted from is read as it is. -/
def Reads (v : Int × Int) (m : MacStep) : Prop :=
  ((m.fields.op0 = 1 ∨ m.fields.op0 = 2) → Readable v.1) ∧
    ((m.fields.op1 = 1 ∨ m.fields.op1 = 2) → Readable v.2)

instance (v : Int × Int) (m : MacStep) : Decidable (Reads v m) :=
  inferInstanceAs (Decidable (_ ∧ _))

end MacStep

/-- The accumulators as numbers. -/
def accums (s : SavedState) : Int × Int := (s.a0.toInt, s.a1.toInt)

def macRun (s : SavedState) (ops : List MacStep) : Option SavedState :=
  ops.foldlM MacStep.exec s

theorem macNext_inAccum {op : Nat} {v r p : Int} (hv : InAccum v)
    (hp : -2147483648 ≤ p ∧ p < 2147483648) : InAccum (macNext op v r p) := by
  unfold macNext
  split
  · exact hv
  · split
    · unfold InAccum
      omega
    · split <;> exact clamp_inAccum _

theorem macNext_read_iff {op : Nat} (hop : op < 4) {v p : Int} (hv : InAccum v)
    (hp : -2147483648 ≤ p ∧ p < 2147483648) :
    macNext op v (readAccum v) p = macNext op v v p ↔ ((op = 1 ∨ op = 2) → Readable v) := by
  have hadd := clamp_read_iff hv (p := p) (by omega)
  have hsub := clamp_read_iff hv (p := -p) (by omega)
  obtain rfl | rfl | rfl | rfl : op = 0 ∨ op = 1 ∨ op = 2 ∨ op = 3 := by omega
  · simp [macNext]
  · simpa [macNext] using hadd
  · simpa [macNext, Int.sub_eq_add_neg] using hsub
  · simp [macNext]

/-- A word that accumulates never fails, and changes nothing but the accumulators. -/
theorem MacStep.exec_eq (s : SavedState) (m : MacStep) :
    ∃ a0 a1, m.exec s = some { s with dpregs := m.dpregs, a0 := a0, a1 := a1, pc := s.pc + 4 } ∧
      a0.toInt = macNext m.fields.op0 s.a0.toInt (readAccum s.a0.toInt) m.product0 ∧
      a1.toInt = macNext m.fields.op1 s.a1.toInt (readAccum s.a1.toInt) m.product1 := by
  obtain ⟨hw0, hw1, hop, hmm, hall, hs⟩ := m.accumulates
  have hf : (macFields m.iw0 m.iw1).P = true → (macFields m.iw0 m.iw1).mmod ≠ mT := by
    intro hP hT
    rw [MacFields.allowed, hP, hT] at hall
    exact absurd hall Bool.false_ne_true
  -- the two units, each of which may stand still
  have hunit : ∀ (a : BitVec 64) (op : Nat) (h0 h1 mm : Bool), ∃ r v,
      macUnit a false op h0 h1 (m.dpregs m.fields.src0) (m.dpregs m.fields.src1) m.fields.mmod mm
        m.fields.P = some (r, v) ∧
      r.toInt = macNext op a.toInt (readAccum a.toInt)
        (product m.fields.mmod mm (half h0 (m.dpregs m.fields.src0))
          (half h1 (m.dpregs m.fields.src1))) := by
    intro a op h0 h1 mm
    by_cases h3 : op = 3
    · exact ⟨a, 0, by simp [macUnit, h3], by rw [macNext, if_pos h3]⟩
    · rw [macUnit, if_pos (Or.inr h3)]
      exact decodeMacfunc_toInt a op h0 h1 _ _ mm hs hf
  obtain ⟨a1, v1, he1, hv1⟩ := hunit s.a1 m.fields.op1 m.fields.h01 m.fields.h11 m.fields.MM
  obtain ⟨a0, v0, he0, hv0⟩ := hunit s.a0 m.fields.op0 m.fields.h00 m.fields.h10 false
  refine ⟨a0, a1, ?_, hv0, hv1⟩
  unfold exec decodeDsp32mac
  simp only [fields] at he1 he0
  simp only [hw0, hw1, hall, hop, hmm, he1, he0, macWrite, if_true, if_false, true_and,
    Bool.true_eq_false, Option.bind_eq_bind, Option.bind_some]
  rfl

theorem MacFields.op_lt (iw0 iw1 : Uint16) :
    (macFields iw0 iw1).op0 < 4 ∧ (macFields iw0 iw1).op1 < 4 :=
  ⟨(iw1.extractLsb' 11 2).isLt, (iw0.extractLsb' 0 2).isLt⟩

/-- What is meant stays in 40 bits. -/
theorem MacStep.meant_inAccum {v : Int × Int} (h0 : InAccum v.1) (h1 : InAccum v.2) (m : MacStep) :
    InAccum (MacStep.meant v m).1 ∧ InAccum (MacStep.meant v m).2 :=
  ⟨macNext_inAccum h0 (product_bound _ _ _ _), macNext_inAccum h1 (product_bound _ _ _ _)⟩

/-- One word leaves what is meant exactly if it reads what is there. -/
theorem MacStep.exec_iff {s : SavedState} {v : Int × Int}
    (hv : InAccum v.1 ∧ InAccum v.2) (hs : accums s = v) (m : MacStep) :
    (∃ t, m.exec s = some t ∧ accums t = MacStep.meant v m) ↔ m.Reads v := by
  subst hs
  obtain ⟨a0, a1, he, hv0, hv1⟩ := m.exec_eq s
  have hop := MacFields.op_lt m.iw0 m.iw1
  have i0 := macNext_read_iff hop.1 hv.1 (product_bound m.fields.mmod false
    (half m.fields.h00 (m.dpregs m.fields.src0)) (half m.fields.h10 (m.dpregs m.fields.src1)))
  have i1 := macNext_read_iff hop.2 hv.2 (product_bound m.fields.mmod m.fields.MM
    (half m.fields.h01 (m.dpregs m.fields.src0)) (half m.fields.h11 (m.dpregs m.fields.src1)))
  rw [he]
  constructor
  · rintro ⟨t, ht, hm⟩
    obtain rfl := Option.some.inj ht
    have hm := Prod.mk.inj hm
    exact ⟨i0.mp (hv0.symm.trans hm.1), i1.mp (hv1.symm.trans hm.2)⟩
  · intro hr
    exact ⟨_, rfl, Prod.ext (hv0.trans (i0.mpr hr.1)) (hv1.trans (i1.mpr hr.2))⟩

/-- A0 += R0.L * R1.L with integers, for -3 and 5. -/
def macDot : MacStep where
  iw0 := 0xC103
  iw1 := 0x0801
  dpregs := fun r => if r = 0 then 0x1234FFFD else 5
  accumulates := by constructor <;> decide

end SkyEye.Bfin
