import SkyEye.Arm.Alu
import SkyEye.Arm.MmuModels
import Mathlib.Tactic.Ring

/-!
# Long multiplications

`Multiply64` and `MultiplyAdd64` of `armemu32.c` put a product of 64 bits together from four
products of halves. It is the exact one, with a sign or without.
-/

namespace SkyEye

/-! ## The emulator's arithmetic -/

/-- `Add32`: the carry is found by a comparison with the first summand. -/
def add32 (a1 a2 : ARMword) : ARMword × Bool :=
  let result := a1 + a2
  (result, if result = a1 then a2 != 0 else decide (result < a1))

/-- `x & 0xFFFF` and `(x >> 16) & 0xFFFF` -/
def lowHalf (x : ARMword) : ARMword := x &&& 0xFFFF
def highHalf (x : ARMword) : ARMword := (x >>> 16) &&& 0xFFFF

/-- `RdHi` and `RdLo` from the four products of halves. -/
def mulHalves (rs rm : ARMword) : ARMword × ARMword :=
  let lo := lowHalf rs * lowHalf rm
  let mid1 := lowHalf rs * highHalf rm
  let mid2 := highHalf rs * lowHalf rm
  let hi := highHalf rs * highHalf rm
  let (rdLo, carry) := add32 lo (mid1 <<< 16)
  let rdHi := toWord carry
  let (rdLo, carry) := add32 rdLo (mid2 <<< 16)
  (rdHi + (toWord carry + highHalf mid1 + highHalf mid2 + hi), rdLo)

/-- The result of the other sign. -/
def negateResult (rdHi rdLo : ARMword) : ARMword × ARMword :=
  if ~~~rdLo = 0xFFFFFFFF then (~~~rdHi + 1, 0) else (~~~rdHi, ~~~rdLo + 1)

/-- An operand without its sign. -/
def magnitude (x : ARMword) : ARMword := if x.slt 0 then -x else x

/-- `RdHi` and `RdLo` of `Multiply64` -/
def mulResult (msigned : Bool) (rs rm : ARMword) : ARMword × ARMword :=
  if msigned then
    let (rdHi, rdLo) := mulHalves (magnitude rs) (magnitude rm)
    if (rm ^^^ rs) &&& 0x80000000 ≠ 0 then negateResult rdHi rdLo else (rdHi, rdLo)
  else mulHalves rs rm

/-- The cycles by the size of `Rm`. -/
def mulCycles (msigned : Bool) (rm : ARMword) : Nat :=
  let rm := if msigned && rm.getLsbD 31 then ~~~rm else rm
  if rm &&& 0xFFFFFF00 = 0 then 1
  else if rm &&& 0xFFFF0000 = 0 then 2
  else if rm &&& 0xFF000000 = 0 then 3
  else 4

/-- The operands that `Multiply64` accepts: the registers of the result, `BITS (16, 19)` and
`BITS (12, 15)`, and of the factors, `BITS (8, 11)` and `BITS (0, 3)`. -/
def longOperands (instr : ARMword) : Bool :=
  mulDestReg instr != 15 && mulAccReg instr != 15 && mulRhsReg instr != 15 &&
    mulLhsReg instr != 15 && mulDestReg instr != mulAccReg instr &&
    mulDestReg instr != mulLhsReg instr && mulAccReg instr != mulLhsReg instr

namespace State

variable {U : Type} (s : State U) (instr : ARMword) (msigned scc : Bool)

/-- N and Z of a long result. -/
def longFlags (rdHi rdLo : ARMword) : State U :=
  if scc then s.negZero (rdHi ||| rdLo >>> 16 ||| rdLo &&& 0xFFFF) else s

/-- `Multiply64`: the cycles and the state. -/
def multiply64 : Nat × State U :=
  let rm := s.reg (mulLhsReg instr)
  let (rdHi, rdLo) :=
    if longOperands instr then mulResult msigned (s.reg (mulRhsReg instr)) rm else (0, 0)
  let s :=
    if longOperands instr then (s.setReg (mulAccReg instr) rdLo).setReg (mulDestReg instr) rdHi
    else s
  -- a signed product has made `Rm` positive by now
  let rm := if longOperands instr && msigned then magnitude rm else rm
  (2 + mulCycles msigned rm, s.longFlags scc rdHi rdLo)

def multiplyAdd64 : Nat × State U :=
  let rdHi := s.reg (mulDestReg instr)
  let rdLo := s.reg (mulAccReg instr)
  let (scount, s) := s.multiply64 instr msigned false
  let (rdLo, carry) := add32 rdLo (s.reg (mulAccReg instr))
  let rdHi := rdHi + s.reg (mulDestReg instr) + toWord carry
  let s := (s.setReg (mulAccReg instr) rdLo).setReg (mulDestReg instr) rdHi
  (scount + 1, s.longFlags scc rdHi rdLo)

end State

/-! ## The product of the halves -/

theorem toNat_toWord (b : Bool) : (toWord b).toNat = b.toNat := by cases b <;> rfl

/-- Sum and carry together are the sum. -/
theorem add32_toNat (a1 a2 : ARMword) :
    (add32 a1 a2).1.toNat + 2 ^ 32 * (add32 a1 a2).2.toNat = a1.toNat + a2.toNat := by
  have h1 := a1.isLt
  have h2 := a2.isLt
  have hsum : (a1 + a2).toNat = (a1.toNat + a2.toNat) % 2 ^ 32 := BitVec.toNat_add a1 a2
  have hcarry : (add32 a1 a2).2 = decide (2 ^ 32 ≤ a1.toNat + a2.toNat) := by
    change (if a1 + a2 = a1 then a2 != 0 else decide ((a1 + a2).toNat < a1.toNat)) = _
    split
    · rename_i h
      have h : (a1 + a2).toNat = a1.toNat := congrArg BitVec.toNat h
      have h0 : a2 = 0 := BitVec.eq_of_toNat_eq (show a2.toNat = 0 by omega)
      subst h0
      rw [decide_eq_false (by have : (0 : ARMword).toNat = 0 := rfl; omega)]
      rfl
    · rename_i h
      have h : (a1 + a2).toNat ≠ a1.toNat := fun h' => h (BitVec.eq_of_toNat_eq h')
      exact decide_eq_decide.mpr (by omega)
  rw [hcarry]
  change (a1 + a2).toNat + _ = _
  by_cases h : 2 ^ 32 ≤ a1.toNat + a2.toNat
  · rw [decide_eq_true h]
    simp only [Bool.toNat_true]
    omega
  · rw [decide_eq_false h]
    simp only [Bool.toNat_false]
    omega

theorem toNat_lowHalf (x : ARMword) : (lowHalf x).toNat = x.toNat % 65536 :=
  Word.toNat_and_low x 16 (by omega)

theorem toNat_highHalf (x : ARMword) : (highHalf x).toNat = x.toNat / 65536 := by
  have := x.isLt
  refine (toNat_lowHalf (x >>> 16)).trans ?_
  rw [BitVec.toNat_ushiftRight, Nat.shiftRight_eq_div_pow]
  omega

/-- A product of halves fits. -/
theorem toNat_mul_of_lt {x y : ARMword} (hx : x.toNat < 65536) (hy : y.toNat < 65536) :
    (x * y).toNat = x.toNat * y.toNat := by
  have : x.toNat * y.toNat ≤ 65535 * 65535 := Nat.mul_le_mul (by omega) (by omega)
  rw [BitVec.toNat_mul, Nat.mod_eq_of_lt (by omega)]

/-- The school multiplication of two numbers of two digits. -/
theorem mul_digits (a b : Nat) : a * b = 2 ^ 32 * (a / 65536 * (b / 65536)) +
    65536 * (a % 65536 * (b / 65536) + a / 65536 * (b % 65536)) + a % 65536 * (b % 65536) := by
  conv_lhs => rw [← Nat.div_add_mod a 65536, ← Nat.div_add_mod b 65536]
  ring

theorem mulHalves_toNat (rs rm : ARMword) :
    2 ^ 32 * (mulHalves rs rm).1.toNat + (mulHalves rs rm).2.toNat = rs.toNat * rm.toNat := by
  have hs := rs.isLt
  have hm := rm.isLt
  have hlt : rs.toNat * rm.toNat ≤ (2 ^ 32 - 1) * (2 ^ 32 - 1) :=
    Nat.mul_le_mul (by omega) (by omega)
  have hdigits := mul_digits rs.toNat rm.toNat
  have hlow (x : ARMword) : (lowHalf x).toNat < 65536 := by
    rw [toNat_lowHalf]
    omega
  have hhigh (x : ARMword) : (highHalf x).toNat < 65536 := by
    have := x.isLt
    rw [toNat_highHalf]
    omega
  simp only [← toNat_lowHalf, ← toNat_highHalf] at hdigits
  rw [← toNat_mul_of_lt (hhigh rs) (hhigh rm), ← toNat_mul_of_lt (hlow rs) (hhigh rm),
    ← toNat_mul_of_lt (hhigh rs) (hlow rm), ← toNat_mul_of_lt (hlow rs) (hlow rm)] at hdigits
  unfold mulHalves
  dsimp only
  generalize lowHalf rs * lowHalf rm = lo at hdigits ⊢
  generalize lowHalf rs * highHalf rm = mid1 at hdigits ⊢
  generalize highHalf rs * lowHalf rm = mid2 at hdigits ⊢
  generalize highHalf rs * highHalf rm = hi at hdigits ⊢
  have hc1 := add32_toNat lo (mid1 <<< 16)
  generalize add32 lo (mid1 <<< 16) = q1 at hc1 ⊢
  have hc2 := add32_toNat q1.1 (mid2 <<< 16)
  generalize add32 q1.1 (mid2 <<< 16) = q2 at hc2 ⊢
  rw [BitVec.toNat_shiftLeft, Nat.shiftLeft_eq] at hc1 hc2
  simp only [BitVec.toNat_add, toNat_toWord, toNat_highHalf]
  have := q2.1.isLt
  have := mid1.isLt
  have := mid2.isLt
  omega

/-! ## The product of 64 bits -/

/-- The product of two words with or without a sign. -/
def longProduct (msigned : Bool) (x y : ARMword) : Int :=
  if msigned then x.toInt * y.toInt else x.toNat * y.toNat

/-- The value of 64 bits with or without a sign. -/
def longValue (msigned : Bool) (v : BitVec 64) : Int := if msigned then v.toInt else v.toNat

theorem toNat_append_words (hi lo : ARMword) :
    (hi ++ lo : BitVec 64).toNat = 2 ^ 32 * hi.toNat + lo.toNat := by
  rw [BitVec.toNat_append, ← Nat.shiftLeft_add_eq_or_of_lt lo.isLt, Nat.shiftLeft_eq, Nat.mul_comm]

theorem append_words_eq_ofInt {hi lo : ARMword} {i : Int}
    (h : ((2 ^ 32 * hi.toNat + lo.toNat : Nat) : Int) = i % 2 ^ 64) :
    (hi ++ lo : BitVec 64) = BitVec.ofInt 64 i := by
  apply BitVec.eq_of_toNat_eq
  rw [toNat_append_words, BitVec.toNat_ofInt]
  omega

/-- `-2^31` has its magnitude too. -/
theorem toNat_magnitude (x : ARMword) : (magnitude x).toNat = x.toInt.natAbs := by
  have := x.isLt
  rw [magnitude, BitVec.slt, BitVec.toInt_eq_toNat_cond, show (0 : ARMword).toInt = 0 from rfl]
  simp only [decide_eq_true_eq]
  split
  · rw [if_neg (by omega)]
    omega
  · rw [if_pos (by omega), BitVec.toNat_neg]
    omega

theorem negateResult_toNat (hi lo : ARMword) :
    2 ^ 32 * (negateResult hi lo).1.toNat + (negateResult hi lo).2.toNat =
      (2 ^ 64 - (2 ^ 32 * hi.toNat + lo.toNat)) % 2 ^ 64 := by
  have h1 := hi.isLt
  have h2 := lo.isLt
  have hnot (x : ARMword) : (~~~x).toNat = 2 ^ 32 - 1 - x.toNat := BitVec.toNat_not
  rw [negateResult]
  split
  · rename_i h
    have h : (~~~lo).toNat = 0xFFFFFFFF := congrArg BitVec.toNat h
    rw [hnot] at h
    simp only [BitVec.toNat_add, hnot, show (1 : ARMword).toNat = 1 from rfl,
      show (0 : ARMword).toNat = 0 from rfl]
    omega
  · rename_i h
    have h : (~~~lo).toNat ≠ 0xFFFFFFFF := fun h' => h (BitVec.eq_of_toNat_eq h')
    rw [hnot] at h
    simp only [BitVec.toNat_add, hnot, show (1 : ARMword).toNat = 1 from rfl]
    omega

/-- The signs differ if the top bits do. -/
theorem signs_differ_iff (x y : ARMword) :
    (x ^^^ y) &&& 0x80000000 ≠ 0 ↔ x.msb ≠ y.msb := by
  have htop : (0x80000000 : ARMword) = BitVec.twoPow 32 31 := rfl
  rw [htop, BitVec.and_twoPow, BitVec.getLsbD_xor, BitVec.msb_eq_getLsbD_last,
    BitVec.msb_eq_getLsbD_last]
  cases x.getLsbD 31 <;> cases y.getLsbD 31 <;> decide

theorem product_of_signs (x y : ARMword) :
    x.toInt * y.toInt = if x.msb = y.msb then ((x.toInt.natAbs * y.toInt.natAbs : Nat) : Int)
      else -((x.toInt.natAbs * y.toInt.natAbs : Nat) : Int) := by
  have hneg (z : ARMword) (h : z.msb = true) : z.toInt ≤ 0 := by
    rw [BitVec.msb_eq_toInt] at h
    have := of_decide_eq_true h
    omega
  have hpos (z : ARMword) (h : z.msb = false) : 0 ≤ z.toInt := by
    rw [BitVec.msb_eq_toInt] at h
    have := of_decide_eq_false h
    omega
  rw [← Int.natAbs_mul]
  cases hx : x.msb <;> cases hy : y.msb
  · rw [if_pos rfl, Int.natAbs_of_nonneg (Int.mul_nonneg (hpos x hx) (hpos y hy))]
  · rw [if_neg (by decide), Int.ofNat_natAbs_of_nonpos
      (Int.mul_nonpos_of_nonneg_of_nonpos (hpos x hx) (hneg y hy)), Int.neg_neg]
  · rw [if_neg (by decide), Int.ofNat_natAbs_of_nonpos
      (Int.mul_nonpos_of_nonpos_of_nonneg (hneg x hx) (hpos y hy)), Int.neg_neg]
  · rw [if_pos rfl, Int.natAbs_of_nonneg
      (Int.mul_nonneg_of_nonpos_of_nonpos (hneg x hx) (hneg y hy))]

theorem mulResult_eq (msigned : Bool) (rs rm : ARMword) :
    ((mulResult msigned rs rm).1 ++ (mulResult msigned rs rm).2 : BitVec 64) =
      BitVec.ofInt 64 (longProduct msigned rs rm) := by
  apply append_words_eq_ofInt
  rw [mulResult, longProduct]
  cases msigned with
  | false =>
    have := mulHalves_toNat rs rm
    have hs := rs.isLt
    have hm := rm.isLt
    have hlt : rs.toNat * rm.toNat ≤ (2 ^ 32 - 1) * (2 ^ 32 - 1) :=
      Nat.mul_le_mul (by omega) (by omega)
    simp only [Bool.false_eq_true, if_false, this]
    omega
  | true =>
    have hhalves := mulHalves_toNat (magnitude rs) (magnitude rm)
    rw [toNat_magnitude, toNat_magnitude] at hhalves
    simp only [if_true]
    rw [product_of_signs, ← hhalves]
    generalize mulHalves (magnitude rs) (magnitude rm) = q
    by_cases h : rs.msb = rm.msb
    · have hd : ¬(rm ^^^ rs) &&& 0x80000000 ≠ 0 := fun h' => (signs_differ_iff rm rs).mp h' h.symm
      have := q.1.isLt
      have := q.2.isLt
      rw [if_neg hd, if_pos h]
      dsimp only
      omega
    · have hd : (rm ^^^ rs) &&& 0x80000000 ≠ 0 := (signs_differ_iff rm rs).mpr fun h' => h h'.symm
      have := q.1.isLt
      have := q.2.isLt
      rw [if_pos hd, if_neg h, negateResult_toNat]
      omega

/-- 64 bits hold the product. -/
theorem longValue_product (msigned : Bool) (x y : ARMword) :
    longValue msigned (BitVec.ofInt 64 (longProduct msigned x y)) = longProduct msigned x y := by
  rw [longValue, longProduct]
  cases msigned with
  | false =>
    have hlt : x.toNat * y.toNat ≤ (2 ^ 32 - 1) * (2 ^ 32 - 1) :=
      Nat.mul_le_mul (by have := x.isLt; omega) (by have := y.isLt; omega)
    simp only [Bool.false_eq_true, if_false, BitVec.toNat_ofInt]
    omega
  | true =>
    have hx : x.toInt.natAbs ≤ 2 ^ 31 := by
      have := x.isLt
      rw [BitVec.toInt_eq_toNat_cond]
      split <;> omega
    have hy : y.toInt.natAbs ≤ 2 ^ 31 := by
      have := y.isLt
      rw [BitVec.toInt_eq_toNat_cond]
      split <;> omega
    have hlt : (x.toInt * y.toInt).natAbs ≤ 2 ^ 31 * 2 ^ 31 := by
      rw [Int.natAbs_mul]
      exact Nat.mul_le_mul hx hy
    simp only [if_true, BitVec.toInt_ofInt]
    rw [Int.bmod_eq_of_le (by omega) (by omega)]

/-! ## The instructions -/

namespace State

variable {U : Type} (s : State U) (instr : ARMword) (msigned scc : Bool)

/-- 64 bits into the two registers of the result, with N and Z if `scc`. -/
def longTo (v : BitVec 64) : State U :=
  let t := (s.setReg (mulAccReg instr) (v.setWidth 32)).setReg (mulDestReg instr)
    (v.extractLsb' 32 32)
  if scc then { t with nFlag := v.msb, zFlag := v == 0 } else t

/-- The top bit and the zero of the word that stands for 64 bits. -/
theorem longFlags_eq (hi lo : ARMword) : s.longFlags scc hi lo =
    if scc then
      { s with nFlag := (hi ++ lo : BitVec 64).msb, zFlag := (hi ++ lo : BitVec 64) == 0 }
    else s := by
  have hbit : (hi ||| lo >>> 16 ||| lo &&& 0xFFFF).msb = (hi ++ lo : BitVec 64).msb := by
    simp only [BitVec.msb_eq_getLsbD_last, BitVec.getLsbD_or, BitVec.getLsbD_and,
      BitVec.getLsbD_ushiftRight, BitVec.getLsbD_append]
    simp
  have hzero : (hi ||| lo >>> 16 ||| lo &&& 0xFFFF) = 0 ↔ (hi ++ lo : BitVec 64) = 0 := by
    have hw {n : Nat} (x : BitVec n) : x = 0 ↔ x.toNat = 0 :=
      ⟨fun h => h ▸ rfl, fun h => BitVec.eq_of_toNat_eq h⟩
    have hlow := toNat_lowHalf lo
    rw [lowHalf] at hlow
    rw [hw, hw (hi ++ lo : BitVec 64), toNat_append_words, BitVec.toNat_or, BitVec.toNat_or,
      Nat.or_eq_zero_iff, Nat.or_eq_zero_iff, hlow, BitVec.toNat_ushiftRight,
      Nat.shiftRight_eq_div_pow]
    omega
  rw [longFlags]
  split
  · rw [negZero_eq, withNZ, hbit]
    have hz : (hi ||| lo >>> 16 ||| lo &&& 0xFFFF == 0) = ((hi ++ lo : BitVec 64) == 0) := by
      rw [Bool.eq_iff_iff, beq_iff_eq, beq_iff_eq]
      exact hzero
    rw [hz]
  · rfl

theorem longTo_append (hi lo : ARMword) : s.longTo instr scc (hi ++ lo) =
    ((s.setReg (mulAccReg instr) lo).setReg (mulDestReg instr) hi).longFlags scc hi lo := by
  have h1 := hi.isLt
  have h2 := lo.isLt
  have hlo : (hi ++ lo : BitVec 64).setWidth 32 = lo := by
    apply BitVec.eq_of_toNat_eq
    rw [BitVec.toNat_setWidth, toNat_append_words]
    omega
  have hhi : (hi ++ lo : BitVec 64).extractLsb' 32 32 = hi := by
    apply BitVec.eq_of_toNat_eq
    rw [BitVec.extractLsb'_toNat, toNat_append_words, Nat.shiftRight_eq_div_pow]
    omega
  rw [longFlags_eq, longTo, hlo, hhi]

theorem multiply64_eq (h : longOperands instr = true) :
    (s.multiply64 instr msigned scc).2 = s.longTo instr scc
      ((mulResult msigned (s.reg (mulRhsReg instr)) (s.reg (mulLhsReg instr))).1 ++
        (mulResult msigned (s.reg (mulRhsReg instr)) (s.reg (mulLhsReg instr))).2) := by
  rw [longTo_append, multiply64, if_pos h]
  dsimp only
  rw [if_pos h]

/-- The long multiplications leave the exact product, or the product added to the old contents
of the registers of the result. -/
theorem long_multiply_exact (h : longOperands instr = true) :
    let product := longProduct msigned (s.reg (mulRhsReg instr)) (s.reg (mulLhsReg instr))
    let acc : BitVec 64 := s.reg (mulDestReg instr) ++ s.reg (mulAccReg instr)
    longValue msigned (BitVec.ofInt 64 product) = product ∧
      (s.multiply64 instr msigned scc).2 = s.longTo instr scc (BitVec.ofInt 64 product) ∧
      (s.multiplyAdd64 instr msigned scc).2 =
        s.longTo instr scc (BitVec.ofInt 64 (product + acc.toNat)) := by
  intro product acc
  have hq := mulResult_eq msigned (s.reg (mulRhsReg instr)) (s.reg (mulLhsReg instr))
  refine ⟨longValue_product .., ?_, ?_⟩
  · rw [multiply64_eq _ _ _ _ h, hq]
  have hne : mulDestReg instr ≠ mulAccReg instr := by
    simp only [longOperands, Bool.and_eq_true, bne_iff_ne] at h
    exact h.1.1.2
  have hstate := multiply64_eq s instr msigned false h
  generalize mulResult msigned (s.reg (mulRhsReg instr)) (s.reg (mulLhsReg instr)) = q at hq hstate
  rw [longTo_append, longFlags, if_neg Bool.false_ne_true] at hstate
  have hsum := add32_toNat (s.reg (mulAccReg instr)) q.2
  have htotal : ((2 ^ 32 * q.1.toNat + q.2.toNat : Nat) : Int) = product % 2 ^ 64 := by
    have := congrArg BitVec.toNat hq
    rw [toNat_append_words, BitVec.toNat_ofInt] at this
    rw [this]
    omega
  rw [multiplyAdd64]
  dsimp only
  rw [hstate]
  have hlo : ((s.setReg (mulAccReg instr) q.2).setReg (mulDestReg instr) q.1).reg
      (mulAccReg instr) = q.2 := by
    rw [setReg, setReg]
    dsimp only
    rw [Function.update_of_ne hne.symm, Function.update_self]
  have hhi : ((s.setReg (mulAccReg instr) q.2).setReg (mulDestReg instr) q.1).reg
      (mulDestReg instr) = q.1 := Function.update_self ..
  rw [hlo, hhi]
  generalize hr : add32 (s.reg (mulAccReg instr)) q.2 = r at hsum ⊢
  have hword : (s.reg (mulDestReg instr) + q.1 + toWord r.2 ++ r.1 : BitVec 64) =
      BitVec.ofInt 64 (product + acc.toNat) := by
    apply append_words_eq_ofInt
    have hacc : acc.toNat = _ := toNat_append_words _ _
    have := r.1.isLt
    have := r.2.toNat_le
    rw [hacc, BitVec.toNat_add, BitVec.toNat_add, toNat_toWord]
    omega
  rw [← hword, longTo_append]
  refine congrArg (fun t : State U => t.longFlags scc _ r.1) ?_
  simp only [setReg, Function.update_comm hne.symm, Function.update_idem]

/-- `SMULLS r0, r1, r2, r3` of -3 and 5 -/
theorem long_multiply_exact_smulls :
    let s := (Arm920t.boot.setReg 2 (-3)).setReg 3 5
    (s.multiply64 0xE0D10392 true true).2 = s.longTo 0xE0D10392 true (BitVec.ofInt 64 (-15)) :=
  (long_multiply_exact _ 0xE0D10392 true true (by decide)).2.1

end State

end SkyEye
