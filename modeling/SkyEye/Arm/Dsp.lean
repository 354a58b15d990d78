import SkyEye.Arm.MainSwitch
import SkyEye.Lib.Saturate
import Mathlib.Tactic.Linarith

/-!
# The DSP extension

The instructions that `is_v5e` adds to the cases `0x10`, `0x12`, `0x14` and `0x16` of the
main switch. They compute on words, the long ones on words of 64 bits; here each is shown to
be its operation on the integers.
-/

namespace SkyEye

open Saturate

/-- `AddOverflow` -/
def isAddOverflow (a b result : ARMword) : Bool :=
  neg a && neg b && pos result || pos a && pos b && neg result

/-- `SubOverflow` -/
def isSubOverflow (a b result : ARMword) : Bool :=
  neg a && pos b && pos result || pos a && neg b && neg result

/-- A half of an operand with its sign: `op >>= 16`, `op &= 0xFFFF` and
`if (op & 0x8000) op -= 65536`, on words of any width. -/
def signedHalf {w : Nat} (op : BitVec w) (top : Bool) : BitVec w :=
  let op := (if top then op >>> 16 else op) &&& 0xFFFF
  if op &&& 0x8000 ≠ 0 then op - 65536 else op

/-- `POS (result) ? 0x80000000 : 0x7fffffff` -/
def saturated (result : ARMword) : ARMword := if pos result then 0x80000000 else 0x7fffffff

/-- The doubled operand of `QDADD` and `QDSUB`, and whether it was saturated. -/
def doubled (op2 : ARMword) : ARMword × Bool :=
  let op2d := op2 + op2
  if isAddOverflow op2 op2 op2d then (saturated op2d, true) else (op2d, false)

namespace State

variable {U : Type} (s : State U) (instr : ARMword)

/-- `if (...) SETS` -/
def setSIf (c : Bool) : State U := if c then { s with sFlag := true } else s

def smlaXY : State U :=
  let op1 := signedHalf (s.reg (mulLhsReg instr)) (instr.getLsbD 5)
  let op2 := signedHalf (s.reg (mulRhsReg instr)) (instr.getLsbD 6)
  let rn := s.reg (mulAccReg instr)
  let op1 := op1 * op2
  (s.setSIf (isAddOverflow op1 rn (op1 + rn))).setReg (mulDestReg instr) (op1 + rn)

def qadd : State U :=
  let op1 := s.reg (rhsReg instr)
  let op2 := s.reg (lhsReg instr)
  let result := op1 + op2
  if isAddOverflow op1 op2 result then
    (s.setSIf true).setReg (destReg instr) (saturated result)
  else s.setReg (destReg instr) result

/-- `SMLAWy` and `SMULWy`, by `BIT (5)` -/
def smlawY : State U :=
  let op1 : BitVec 64 := (s.reg (mulLhsReg instr)).setWidth 64
  let op2 : BitVec 64 := (s.reg (mulRhsReg instr)).setWidth 64
  let op1 := if op1 &&& 0x80000000 ≠ 0 then op1 - (1 : BitVec 64) <<< 32 else op1
  let result := (op1 * signedHalf op2 (instr.getLsbD 6)) >>> 16
  if instr.getLsbD 5 then s.setReg (mulDestReg instr) (result.setWidth 32)
  else
    let rn := s.reg (mulAccReg instr)
    -- `AddOverflow` takes words, so its operands lose their upper halves
    let s := s.setSIf (isAddOverflow (result.setWidth 32) rn ((result + rn.setWidth 64).setWidth 32))
    s.setReg (mulDestReg instr) ((result + rn.setWidth 64).setWidth 32)

def qsub : State U :=
  let op1 := s.reg (rhsReg instr)
  let op2 := s.reg (lhsReg instr)
  let result := op1 - op2
  if isSubOverflow op1 op2 result then
    (s.setSIf true).setReg (destReg instr) (saturated result)
  else s.setReg (destReg instr) result

def smlalXY : State U :=
  let op1 : BitVec 64 := signedHalf ((s.reg (mulLhsReg instr)).setWidth 64) (instr.getLsbD 5)
  let op2 : BitVec 64 := signedHalf ((s.reg (mulRhsReg instr)).setWidth 64) (instr.getLsbD 6)
  let dest : BitVec 64 := (s.reg (mulDestReg instr)).setWidth 64 <<< 32
  let dest := dest ||| (s.reg (mulAccReg instr)).setWidth 64
  let dest := dest + op1 * op2
  (s.setReg (mulAccReg instr) (dest.setWidth 32)).setReg (mulDestReg instr)
    ((dest >>> 32).setWidth 32)

def qdadd : State U :=
  let op1 := s.reg (rhsReg instr)
  let (op2d, sat) := doubled (s.reg (lhsReg instr))
  let s := s.setSIf sat
  let result := op1 + op2d
  if isAddOverflow op1 op2d result then
    (s.setSIf true).setReg (destReg instr) (saturated result)
  else s.setReg (destReg instr) result

def smulXY : State U :=
  let op1 := signedHalf (s.reg (mulLhsReg instr)) (instr.getLsbD 5)
  let op2 := signedHalf (s.reg (mulRhsReg instr)) (instr.getLsbD 6)
  s.setReg (mulDestReg instr) (op1 * op2)

def qdsub : State U :=
  let op1 := s.reg (rhsReg instr)
  let (op2d, sat) := doubled (s.reg (lhsReg instr))
  let s := s.setSIf sat
  let result := op1 - op2d
  if isSubOverflow op1 op2d result then
    (s.setSIf true).setReg (destReg instr) (saturated result)
  else s.setReg (destReg instr) result

/-- The instructions of `isDsp`. -/
def dsp : State U :=
  let multiplication := !instr.getLsbD 4 && instr.getLsbD 7
  match bits instr 20 27 with
  | 0x10 => if multiplication then s.smlaXY instr else s.qadd instr
  | 0x12 =>
    if multiplication && (!instr.getLsbD 5 || destReg instr == 0) then s.smlawY instr
    else s.qsub instr
  | 0x14 => if multiplication then s.smlalXY instr else s.qdadd instr
  | _ => if multiplication && destReg instr == 0 then s.smulXY instr else s.qdsub instr

/-- `mainswitch` with the extension. Its cases come before the tests on the bits 4 to 11 that
tell the transfers, none of which its words pass. -/
def mainswitchV5e (ops : MmuOps U) (s : State U) (pc instr : ARMword) : Option (State U) :=
  if (bits instr 20 27 = 0x10 ∨ bits instr 20 27 = 0x12 ∨ bits instr 20 27 = 0x14 ∨
      bits instr 20 27 = 0x16) ∧ s.isDsp instr then some (s.dsp instr)
  else s.mainswitch ops pc instr

end State

/-! ## The operations on the integers -/

/-- The operations; a flag of a multiplication takes the upper half of its factor. -/
inductive DspOp where
  | qadd
  | qsub
  | qdadd
  | qdsub
  | smla (x y : Bool)
  | smlaw (y : Bool)
  | smulw (y : Bool)
  | smlal (x y : Bool)
  | smul (x y : Bool)

namespace DspOp

/-- The word is an instruction of the operation. -/
def Encodes (w : ARMword) : DspOp → Prop
  | qadd => bits w 20 27 = 0x10 ∧ bits w 4 11 = 5
  | qsub => bits w 20 27 = 0x12 ∧ bits w 4 11 = 5
  | qdadd => bits w 20 27 = 0x14 ∧ bits w 4 11 = 5
  | qdsub => bits w 20 27 = 0x16 ∧ bits w 4 11 = 5
  | smla x y => bits w 20 27 = 0x10 ∧ bits w 4 7 = 8 + 2 * x.toNat + 4 * y.toNat
  | smlaw y => bits w 20 27 = 0x12 ∧ bits w 4 7 = 8 + 4 * y.toNat
  | smulw y => bits w 20 27 = 0x12 ∧ bits w 4 7 = 10 + 4 * y.toNat ∧ bits w 12 15 = 0
  | smlal x y => bits w 20 27 = 0x14 ∧ bits w 4 7 = 8 + 2 * x.toNat + 4 * y.toNat
  | smul x y => bits w 20 27 = 0x16 ∧ bits w 4 7 = 8 + 2 * x.toNat + 4 * y.toNat ∧ bits w 12 15 = 0

end DspOp

/-- A half of a word as a signed number. -/
def halfInt (v : ARMword) (top : Bool) : Int := (v.extractLsb' (if top then 16 else 0) 16).toInt

namespace State

variable {U : Type} (s : State U) (w : ARMword)

/-- `Q` is set if a result did not fit. -/
def withQ (q : Bool) : State U := { s with sFlag := s.sFlag || q }

/-- The effect of an operation, computed on the integers. -/
def dspEffect : DspOp → State U
  | .qadd =>
    let n := (s.reg (rhsReg w)).toInt + (s.reg (lhsReg w)).toInt
    (s.withQ (overflows 32 n)).setReg (destReg w) (saturate 32 n)
  | .qsub =>
    let n := (s.reg (rhsReg w)).toInt - (s.reg (lhsReg w)).toInt
    (s.withQ (overflows 32 n)).setReg (destReg w) (saturate 32 n)
  | .qdadd =>
    let d := 2 * (s.reg (lhsReg w)).toInt
    let n := (s.reg (rhsReg w)).toInt + clamp 32 d
    (s.withQ (overflows 32 d || overflows 32 n)).setReg (destReg w) (saturate 32 n)
  | .qdsub =>
    let d := 2 * (s.reg (lhsReg w)).toInt
    let n := (s.reg (rhsReg w)).toInt - clamp 32 d
    (s.withQ (overflows 32 d || overflows 32 n)).setReg (destReg w) (saturate 32 n)
  | .smla x y =>
    let n := halfInt (s.reg (mulLhsReg w)) x * halfInt (s.reg (mulRhsReg w)) y +
      (s.reg (mulAccReg w)).toInt
    (s.withQ (overflows 32 n)).setReg (mulDestReg w) (.ofInt 32 n)
  | .smlaw y =>
    let n := (s.reg (mulLhsReg w)).toInt * halfInt (s.reg (mulRhsReg w)) y / 2 ^ 16 +
      (s.reg (mulAccReg w)).toInt
    (s.withQ (overflows 32 n)).setReg (mulDestReg w) (.ofInt 32 n)
  | .smulw y =>
    s.setReg (mulDestReg w)
      (.ofInt 32 ((s.reg (mulLhsReg w)).toInt * halfInt (s.reg (mulRhsReg w)) y / 2 ^ 16))
  | .smlal x y =>
    let n := 2 ^ 32 * ((s.reg (mulDestReg w)).toNat : Int) + (s.reg (mulAccReg w)).toNat +
      halfInt (s.reg (mulLhsReg w)) x * halfInt (s.reg (mulRhsReg w)) y
    (s.setReg (mulAccReg w) (.ofInt 32 n)).setReg (mulDestReg w) (.ofInt 32 (n / 2 ^ 32))
  | .smul x y =>
    s.setReg (mulDestReg w)
      (.ofInt 32 (halfInt (s.reg (mulLhsReg w)) x * halfInt (s.reg (mulRhsReg w)) y))

end State

/-! ## Saturating additions -/

theorem ofInt_add_toInt (x y : ARMword) : x + y = .ofInt 32 (x.toInt + y.toInt) := by
  rw [BitVec.ofInt_add, BitVec.ofInt_toInt, BitVec.ofInt_toInt]

theorem ofInt_sub_toInt (x y : ARMword) : x - y = .ofInt 32 (x.toInt - y.toInt) := by
  rw [Int.sub_eq_add_neg, BitVec.ofInt_add, BitVec.ofInt_neg, BitVec.ofInt_toInt,
    BitVec.ofInt_toInt, BitVec.sub_eq_add_neg]

theorem toInt_range (x : ARMword) : -2 ^ 31 ≤ x.toInt ∧ x.toInt < 2 ^ 31 :=
  ⟨BitVec.le_toInt x, BitVec.toInt_lt⟩

theorem neg_eq (x : ARMword) : neg x = decide (x.toInt < 0) := by
  rw [neg, ← BitVec.msb_eq_getLsbD_last (x := x), BitVec.msb_eq_toInt]

theorem pos_eq (x : ARMword) : pos x = !decide (x.toInt < 0) := by
  rw [← neg_eq]
  rfl

/-- The sign of a word that an operation has left. -/
theorem neg_ofInt {n : Int} (hlo : -2 ^ 32 ≤ n) (hhi : n < 2 ^ 32) :
    neg (.ofInt 32 n) = (decide (n < 0) ^^ overflows 32 n) := by
  rw [neg, ← BitVec.msb_eq_getLsbD_last (x := BitVec.ofInt 32 n)]
  exact msb_ofInt (by decide) hlo hhi

/-- The sign of a sum against the signs of its operands; `q` is one of the second. -/
theorem overflow_of_signs {a b : Int} {q : Bool} (ha : -2 ^ 31 ≤ a ∧ a < 2 ^ 31)
    (hneg : q = true → -2 ^ 31 ≤ b ∧ b ≤ 0) (hpos : q = false → 0 ≤ b ∧ b ≤ 2 ^ 31) :
    (decide (a < 0) && q && pos (.ofInt 32 (a + b)) ||
      !decide (a < 0) && !q && neg (.ofInt 32 (a + b))) = overflows 32 (a + b) := by
  have hb : -2 ^ 31 ≤ b ∧ b ≤ 2 ^ 31 := by
    cases q with
    | true => exact ⟨(hneg rfl).1, by have := (hneg rfl).2; omega⟩
    | false => exact ⟨by have := (hpos rfl).1; omega, (hpos rfl).2⟩
  have ho := overflows_iff (w := 32) (a + b)
  have hn := neg_ofInt (n := a + b) (by omega) (by omega)
  have hp : pos (.ofInt 32 (a + b)) = !(decide (a + b < 0) ^^ overflows 32 (a + b)) :=
    congrArg (! ·) hn
  rw [hn, hp, Bool.eq_iff_iff, ho]
  cases hc : overflows 32 (a + b) with
  | true =>
    have := ho.mp hc
    cases q with
    | true =>
      have := hneg rfl
      simp
      omega
    | false =>
      have := hpos rfl
      simp
      omega
  | false =>
    have := mt ho.mpr (by rw [hc]; decide)
    cases q with
    | true =>
      have := hneg rfl
      simp
      omega
    | false =>
      have := hpos rfl
      simp
      omega

theorem isAddOverflow_eq (x y : ARMword) :
    isAddOverflow x y (x + y) = overflows 32 (x.toInt + y.toInt) := by
  have hy := toInt_range y
  rw [isAddOverflow, ofInt_add_toInt, neg_eq x, neg_eq y, pos_eq x, pos_eq y]
  refine overflow_of_signs (toInt_range x) (fun h => ?_) (fun h => ?_)
  · have := of_decide_eq_true h
    omega
  · have := of_decide_eq_false h
    omega

theorem isSubOverflow_eq (x y : ARMword) :
    isSubOverflow x y (x - y) = overflows 32 (x.toInt - y.toInt) := by
  have hy := toInt_range y
  rw [isSubOverflow, ofInt_sub_toInt, neg_eq x, neg_eq y, pos_eq x, pos_eq y, Int.sub_eq_add_neg]
  have hq := overflow_of_signs (b := -y.toInt) (q := !decide (y.toInt < 0)) (toInt_range x)
    (fun h => ?_) (fun h => ?_)
  · rw [← hq, Bool.not_not]
  · have := of_decide_eq_false ((Bool.not_eq_true' _).mp h)
    omega
  · have := of_decide_eq_true ((Bool.not_eq_false' _).mp h)
    omega

namespace State
variable {U : Type} {s : State U} {n : Int}

/-- A saturating instruction's last step. -/
theorem saturating_eq (hlo : -2 ^ 32 ≤ n) (hhi : n < 2 ^ 32) (d : RegNo) :
    (if overflows 32 n then (s.setSIf true).setReg d (saturated (.ofInt 32 n))
      else s.setReg d (.ofInt 32 n)) = (s.withQ (overflows 32 n)).setReg d (saturate 32 n) := by
  rw [saturate_eq (by omega) hlo hhi]
  cases hc : overflows 32 n with
  | false =>
    rw [if_neg Bool.false_ne_true, if_neg Bool.false_ne_true, withQ, Bool.or_false]
  | true =>
    have hs : saturated (.ofInt 32 n) =
        if (BitVec.ofInt 32 n).msb then BitVec.intMax 32 else BitVec.intMin 32 := by
      rw [saturated, pos, ← BitVec.msb_eq_getLsbD_last (x := BitVec.ofInt 32 n)]
      cases (BitVec.ofInt 32 n).msb <;> rfl
    rw [if_pos rfl, if_pos rfl, withQ, Bool.or_true, hs]
    rfl

end State
/-! ## Halves and long words -/

/-- A half has its sign extended to the width of the product. -/
theorem signedHalf_eq {w : Nat} (hw : 32 ≤ w) (v : ARMword) (top : Bool) :
    signedHalf (v.setWidth w) top = .ofInt w (halfInt v top) := by
  have h16 : (2 : Nat) ^ 16 < 2 ^ w := Nat.pow_lt_pow_right (by omega) (by omega)
  have hv : v.toNat < 2 ^ w := Nat.lt_of_lt_of_le v.isLt (Nat.pow_le_pow_right (by omega) hw)
  let u := v.extractLsb' (if top then 16 else 0) 16
  have hu : ((if top then v.setWidth w >>> 16 else v.setWidth w) &&& 0xFFFF) = u.setWidth w := by
    apply BitVec.eq_of_toNat_eq
    rw [show (0xFFFF : BitVec w) = BitVec.ofNat w (2 ^ 16 - 1) from rfl,
      Word.toNat_and_low _ 16 (by omega), BitVec.toNat_setWidth, BitVec.extractLsb'_toNat]
    cases top with
    | true =>
      simp only [if_true, BitVec.toNat_ushiftRight, BitVec.toNat_setWidth]
      rw [Nat.mod_eq_of_lt hv]
      exact (Nat.mod_eq_of_lt (Nat.lt_trans (Nat.mod_lt _ (by omega)) h16)).symm
    | false =>
      simp only [Bool.false_eq_true, if_false, BitVec.toNat_setWidth]
      rw [Nat.mod_eq_of_lt hv]
      exact (Nat.mod_eq_of_lt (Nat.lt_trans (Nat.mod_lt _ (by omega)) h16)).symm
  have hbit : (0x8000 : BitVec w) = BitVec.twoPow w 15 := by
    apply BitVec.eq_of_toNat_eq
    rw [BitVec.toNat_twoPow]
    rfl
  have hne : BitVec.twoPow w 15 ≠ 0 := by
    intro h
    have := congrArg BitVec.toNat h
    rw [BitVec.toNat_twoPow, Nat.mod_eq_of_lt (by omega)] at this
    simp at this
  have hsign : (u.setWidth w &&& 0x8000 ≠ 0) ↔ u.msb = true := by
    rw [hbit, BitVec.and_twoPow, BitVec.msb_eq_getLsbD_last, BitVec.getLsbD_setWidth,
      decide_eq_true (by omega), Bool.true_and]
    cases u.getLsbD (16 - 1) with
    | true => exact iff_of_true hne rfl
    | false => exact iff_of_false (not_not.mpr rfl) Bool.false_ne_true
  have hnat : u.setWidth w = .ofInt w (u.toNat : Int) := by
    rw [BitVec.ofInt_natCast]
    exact (BitVec.ofNat_toNat w u).symm
  rw [signedHalf, hu]
  show (if u.setWidth w &&& 0x8000 ≠ 0 then u.setWidth w - 65536 else u.setWidth w) =
    .ofInt w u.toInt
  rw [BitVec.toInt_eq_msb_cond]
  by_cases h : u.msb = true
  · rw [if_pos (hsign.mpr h), if_pos h, Int.sub_eq_add_neg, BitVec.ofInt_add, BitVec.ofInt_neg,
      hnat, BitVec.sub_eq_add_neg]
    rfl
  · rw [if_neg (mt hsign.mp h), if_neg h, hnat]

theorem signedHalf_word (v : ARMword) (top : Bool) :
    signedHalf v top = .ofInt 32 (halfInt v top) := by
  rw [← signedHalf_eq (Nat.le_refl 32), BitVec.setWidth_eq]

/-- A word with its sign extended to 64 bits. -/
theorem signedWord_eq (v : ARMword) :
    (if v.setWidth 64 &&& 0x80000000 ≠ 0 then v.setWidth 64 - (1 : BitVec 64) <<< 32
      else v.setWidth 64) = .ofInt 64 v.toInt := by
  have hsign : (v.setWidth 64 &&& 0x80000000 ≠ 0) ↔ v.msb = true := by
    rw [show (0x80000000 : BitVec 64) = BitVec.twoPow 64 31 from rfl, BitVec.and_twoPow,
      BitVec.msb_eq_getLsbD_last, BitVec.getLsbD_setWidth]
    cases v.getLsbD (32 - 1) <;> decide
  have hnat : v.setWidth 64 = .ofInt 64 (v.toNat : Int) := by
    rw [BitVec.ofInt_natCast]
    exact (BitVec.ofNat_toNat 64 v).symm
  rw [BitVec.toInt_eq_msb_cond]
  by_cases h : v.msb = true
  · rw [if_pos (hsign.mpr h), if_pos h, Int.sub_eq_add_neg, BitVec.ofInt_add, BitVec.ofInt_neg,
      hnat, BitVec.sub_eq_add_neg]
    rfl
  · rw [if_neg (mt hsign.mp h), if_neg h, hnat]

/-- A long word less its low bits, as far as a word shows it. -/
theorem setWidth_ushiftRight (n : Int) {k : Nat} (hk : k ≤ 32) :
    ((BitVec.ofInt 64 n) >>> k).setWidth 32 = .ofInt 32 (n / 2 ^ k) := by
  have hpos : (0 : Int) < 2 ^ k := Int.pow_pos (by omega)
  have hsplit : (2 : Int) ^ 64 = 2 ^ k * (2 ^ 32 * 2 ^ (32 - k)) := by
    rw [← Int.pow_add, ← Int.pow_add, show k + (32 + (32 - k)) = 64 by omega]
  have hdiv : n / 2 ^ k = n % 2 ^ 64 / 2 ^ k + 2 ^ 32 * (2 ^ (32 - k) * (n / 2 ^ 64)) := by
    conv_lhs => rw [← Int.emod_add_mul_ediv n (2 ^ 64), hsplit, Int.mul_assoc]
    rw [Int.add_mul_ediv_left _ _ (Int.ne_of_gt hpos), hsplit, Int.mul_assoc]
  have hr : ((BitVec.ofInt 64 n).toNat : Int) = n % 2 ^ 64 := by
    rw [BitVec.toNat_ofInt]
    exact Int.toNat_of_nonneg (Int.emod_nonneg _ (by omega))
  apply BitVec.eq_of_toNat_eq
  rw [BitVec.toNat_setWidth, BitVec.toNat_ushiftRight, Nat.shiftRight_eq_div_pow,
    BitVec.toNat_ofInt (n := 32), hdiv, ← hr]
  have hmod := Int.add_mul_emod_self_left ((BitVec.ofInt 64 n).toNat / 2 ^ k) (2 ^ 32)
    (2 ^ (32 - k) * (n / 2 ^ 64))
  refine Int.ofNat_inj.mp ?_
  rw [Int.toNat_of_nonneg (Int.emod_nonneg _ (by omega))]
  push_cast
  exact hmod.symm

theorem setWidth_ofInt (n : Int) : (BitVec.ofInt 64 n).setWidth 32 = .ofInt 32 n := by
  simpa using setWidth_ushiftRight n (Nat.zero_le 32)
theorem halfInt_range (v : ARMword) (top : Bool) :
    -2 ^ 15 ≤ halfInt v top ∧ halfInt v top < 2 ^ 15 :=
  ⟨BitVec.le_toInt _, BitVec.toInt_lt⟩

/-! ## The instructions -/

theorem doubled_eq (y : ARMword) :
    doubled y = (saturate 32 (2 * y.toInt), overflows 32 (2 * y.toInt)) := by
  have hy := toInt_range y
  have hs := saturate_eq (w := 32) (by decide) (n := 2 * y.toInt) (by omega) (by omega)
  have h2 : 2 * y.toInt = y.toInt + y.toInt := by omega
  rw [doubled, isAddOverflow_eq, ofInt_add_toInt, ← h2, hs]
  cases overflows 32 (2 * y.toInt) with
  | false => rfl
  | true =>
    rw [if_pos rfl, if_pos rfl, saturated, pos,
      ← BitVec.msb_eq_getLsbD_last (x := BitVec.ofInt 32 (2 * y.toInt))]
    cases (BitVec.ofInt 32 (2 * y.toInt)).msb <;> rfl

theorem clamp_range (n : Int) : -2 ^ 31 ≤ clamp 32 n ∧ clamp 32 n < 2 ^ 31 := by
  rw [clamp]
  omega

/-- A product of two halves fits in a word with room to spare. -/
theorem halves_range {a b : Int} (ha : -2 ^ 15 ≤ a ∧ a < 2 ^ 15) (hb : -2 ^ 15 ≤ b ∧ b < 2 ^ 15) :
    -2 ^ 30 ≤ a * b ∧ a * b ≤ 2 ^ 30 := by
  constructor <;> nlinarith [ha.1, ha.2, hb.1, hb.2]

theorem wordHalf_range {a b : Int} (ha : -2 ^ 31 ≤ a ∧ a < 2 ^ 31)
    (hb : -2 ^ 15 ≤ b ∧ b < 2 ^ 15) : -2 ^ 30 ≤ a * b / 2 ^ 16 ∧ a * b / 2 ^ 16 ≤ 2 ^ 30 := by
  have : -2 ^ 46 ≤ a * b ∧ a * b ≤ 2 ^ 46 := by
    constructor <;> nlinarith [ha.1, ha.2, hb.1, hb.2]
  omega

/-- Two words as a long one. -/
theorem concat_eq (hi lo : ARMword) :
    hi.setWidth 64 <<< 32 ||| lo.setWidth 64 =
      .ofInt 64 (2 ^ 32 * (hi.toNat : Int) + lo.toNat) := by
  have hhi := hi.isLt
  have hlo := lo.isLt
  have hcast :
      (2 ^ 32 * (hi.toNat : Int) + lo.toNat) = ((2 ^ 32 * hi.toNat + lo.toNat : Nat) : Int) := by
    push_cast
    rfl
  rw [hcast, BitVec.ofInt_natCast]
  apply BitVec.eq_of_toNat_eq
  rw [BitVec.toNat_or, BitVec.toNat_shiftLeft, BitVec.toNat_setWidth, BitVec.toNat_setWidth,
    BitVec.toNat_ofNat, Nat.shiftLeft_eq, Nat.mod_eq_of_lt (show hi.toNat < 2 ^ 64 by omega),
    Nat.mod_eq_of_lt (show lo.toNat < 2 ^ 64 by omega), Nat.mod_eq_of_lt (by omega),
    Nat.mod_eq_of_lt (by omega), ← Nat.shiftLeft_eq, ← Nat.shiftLeft_add_eq_or_of_lt hlo,
    Nat.shiftLeft_eq, Nat.mul_comm]

namespace State
variable {U : Type} (s : State U) (w : ARMword)

theorem qadd_eq : s.qadd w = s.dspEffect w .qadd := by
  have hx := toInt_range (s.reg (rhsReg w))
  have hy := toInt_range (s.reg (lhsReg w))
  rw [qadd]
  rw [isAddOverflow_eq, ofInt_add_toInt]
  exact saturating_eq (by omega) (by omega) _

theorem qsub_eq : s.qsub w = s.dspEffect w .qsub := by
  have hx := toInt_range (s.reg (rhsReg w))
  have hy := toInt_range (s.reg (lhsReg w))
  rw [qsub]
  rw [isSubOverflow_eq, ofInt_sub_toInt]
  exact saturating_eq (by omega) (by omega) _

theorem setSIf_eq (q : Bool) : s.setSIf q = s.withQ q := by
  cases q with
  | false => rw [withQ, Bool.or_false]; rfl
  | true => rw [withQ, Bool.or_true]; rfl

theorem withQ_withQ (p q : Bool) : (s.withQ p).withQ q = s.withQ (p || q) := by
  simp only [withQ, Bool.or_assoc]

theorem qdadd_eq : s.qdadd w = s.dspEffect w .qdadd := by
  have hx := toInt_range (s.reg (rhsReg w))
  have hd := clamp_range (2 * (s.reg (lhsReg w)).toInt)
  rw [qdadd, doubled_eq]
  dsimp only
  rw [isAddOverflow_eq, ofInt_add_toInt, toInt_saturate (by omega),
    saturating_eq (by omega) (by omega), setSIf_eq, withQ_withQ]
  rfl

theorem qdsub_eq : s.qdsub w = s.dspEffect w .qdsub := by
  have hx := toInt_range (s.reg (rhsReg w))
  have hd := clamp_range (2 * (s.reg (lhsReg w)).toInt)
  rw [qdsub, doubled_eq]
  dsimp only
  rw [isSubOverflow_eq, ofInt_sub_toInt, toInt_saturate (by omega),
    saturating_eq (by omega) (by omega), setSIf_eq, withQ_withQ]
  rfl

/-- A product and its accumulator. -/
theorem accumulate_eq {n : Int} (hn : -2 ^ 30 ≤ n ∧ n ≤ 2 ^ 30) (acc : ARMword) (d : RegNo) :
    (s.setSIf (isAddOverflow (.ofInt 32 n) acc (.ofInt 32 n + acc))).setReg d
        (.ofInt 32 n + acc) =
      (s.withQ (overflows 32 (n + acc.toInt))).setReg d (.ofInt 32 (n + acc.toInt)) := by
  rw [isAddOverflow_eq, ofInt_add_toInt, toInt_ofInt (by omega) (by omega) (by omega), setSIf_eq]

theorem smlaXY_eq : s.smlaXY w = s.dspEffect w (.smla (w.getLsbD 5) (w.getLsbD 6)) := by
  have hn := halves_range (halfInt_range (s.reg (mulLhsReg w)) (w.getLsbD 5))
    (halfInt_range (s.reg (mulRhsReg w)) (w.getLsbD 6))
  rw [smlaXY]
  rw [signedHalf_word, signedHalf_word, ← BitVec.ofInt_mul]
  exact s.accumulate_eq hn _ _

theorem smulXY_eq : s.smulXY w = s.dspEffect w (.smul (w.getLsbD 5) (w.getLsbD 6)) := by
  rw [smulXY]
  rw [signedHalf_word, signedHalf_word, ← BitVec.ofInt_mul]
  rfl

theorem setWidth_add (x y : BitVec 64) : (x + y).setWidth 32 = x.setWidth 32 + y.setWidth 32 :=
  BitVec.setWidth_add x y (by omega)

theorem smlawY_eq : s.smlawY w = s.dspEffect w
    (if w.getLsbD 5 then .smulw (w.getLsbD 6) else .smlaw (w.getLsbD 6)) := by
  have hn := wordHalf_range (toInt_range (s.reg (mulLhsReg w)))
    (halfInt_range (s.reg (mulRhsReg w)) (w.getLsbD 6))
  rw [smlawY]
  rw [signedWord_eq, signedHalf_eq (by decide), ← BitVec.ofInt_mul,
    setWidth_ushiftRight _ (by omega)]
  cases w.getLsbD 5 with
  | true => rfl
  | false =>
    dsimp only
    rw [if_neg Bool.false_ne_true, setWidth_add, setWidth_ushiftRight _ (by omega),
      BitVec.setWidth_setWidth_of_le _ (by omega), BitVec.setWidth_eq]
    exact s.accumulate_eq hn _ _

theorem smlalXY_eq : s.smlalXY w = s.dspEffect w (.smlal (w.getLsbD 5) (w.getLsbD 6)) := by
  rw [smlalXY]
  rw [signedHalf_eq (by decide), signedHalf_eq (by decide), ← BitVec.ofInt_mul, concat_eq,
    ← BitVec.ofInt_add, setWidth_ofInt, setWidth_ushiftRight _ (by omega)]
  rfl
end State

/-! ## The decoder -/

namespace DspOp
variable {w : ARMword}

/-- The bits of a multiplication that choose the halves. -/
theorem halves_of_bits {x y : Bool} (h : bits w 4 7 = 8 + 2 * x.toNat + 4 * y.toNat) :
    w.getLsbD 4 = false ∧ w.getLsbD 5 = x ∧ w.getLsbD 6 = y ∧ w.getLsbD 7 = true := by
  have bit (i : Nat) (hi : i < 4) : w.getLsbD (4 + i) = (bits w 4 7).testBit i :=
    (testBit_bits w hi).symm
  rw [h] at bit
  refine ⟨(bit 0 (by decide)).trans ?_, (bit 1 (by decide)).trans ?_,
    (bit 2 (by decide)).trans ?_, (bit 3 (by decide)).trans ?_⟩ <;>
    cases x <;> cases y <;> rfl

theorem getLsbD_four_of_bits (h : bits w 4 11 = 5) : w.getLsbD 4 = true := by
  rw [← testBit_bits w (i := 0) (show 0 < 11 + 1 - 4 by decide), h]
  rfl

theorem destReg_of_bits (h : bits w 12 15 = 0) : (destReg w == 0) = true :=
  beq_iff_eq.mpr (Fin.ext h)

end DspOp

namespace State
variable {U : Type} {ops : MmuOps U} {s : State U} {pc w : ARMword}

open DspOp in
/-- Every operation is decoded and has its effect on the integers. -/
theorem mainswitchV5e_eq (hv : s.isV5e = true) {op : DspOp} (h : op.Encodes w) :
    mainswitchV5e ops s pc w = some (s.dspEffect w op) := by
  have hsat (hn : bits w 4 11 = 5) : s.isDsp w = true ∧ (!w.getLsbD 4 && w.getLsbD 7) = false := by
    rw [isDsp, hv, hn, getLsbD_four_of_bits hn]
    exact ⟨rfl, rfl⟩
  unfold mainswitchV5e
  cases op with
  | qadd =>
    obtain ⟨ho, hn⟩ := h
    obtain ⟨hd, hm⟩ := hsat hn
    rw [if_pos ⟨.inl ho, hd⟩, dsp, ho]
    simp only [hm, Bool.false_eq_true, if_false, qadd_eq]
  | qsub =>
    obtain ⟨ho, hn⟩ := h
    obtain ⟨hd, hm⟩ := hsat hn
    rw [if_pos ⟨.inr (.inl ho), hd⟩, dsp, ho]
    simp only [hm, Bool.false_and, Bool.false_eq_true, if_false, qsub_eq]
  | qdadd =>
    obtain ⟨ho, hn⟩ := h
    obtain ⟨hd, hm⟩ := hsat hn
    rw [if_pos ⟨.inr (.inr (.inl ho)), hd⟩, dsp, ho]
    simp only [hm, Bool.false_eq_true, if_false, qdadd_eq]
  | qdsub =>
    obtain ⟨ho, hn⟩ := h
    obtain ⟨hd, hm⟩ := hsat hn
    rw [if_pos ⟨.inr (.inr (.inr ho)), hd⟩, dsp, ho]
    simp only [hm, Bool.false_and, Bool.false_eq_true, if_false, qdsub_eq]
  | smla x y =>
    obtain ⟨ho, hn⟩ := h
    obtain ⟨h4, h5, h6, h7⟩ := halves_of_bits hn
    have hd : s.isDsp w = true := by
      rw [isDsp, hv, h4, h7, ho]
      exact Bool.or_true _
    rw [if_pos ⟨.inl ho, hd⟩, dsp, ho]
    simp only [h4, h7, Bool.not_false, Bool.and_true, if_true, smlaXY_eq, h5, h6]
  | smlaw y =>
    obtain ⟨ho, hn⟩ := h
    obtain ⟨h4, h5, h6, h7⟩ := halves_of_bits (x := false) hn
    have hd : s.isDsp w = true := by
      rw [isDsp, hv, h4, h5, h7, ho]
      exact Bool.or_true _
    rw [if_pos ⟨.inr (.inl ho), hd⟩, dsp, ho]
    simp only [h4, h7, Bool.not_false, Bool.and_true, Bool.true_or, if_true, smlawY_eq, h5, h6,
      Bool.false_eq_true, if_false]
  | smulw y =>
    obtain ⟨ho, hn, h0⟩ := h
    obtain ⟨h4, h5, h6, h7⟩ := halves_of_bits (x := true) hn
    have hd : s.isDsp w = true := by
      rw [isDsp, hv, h4, h5, h7, ho, destReg_of_bits h0]
      exact Bool.or_true _
    rw [if_pos ⟨.inr (.inl ho), hd⟩, dsp, ho]
    simp only [h4, h7, destReg_of_bits h0, Bool.not_false, Bool.and_true, Bool.or_true, if_true,
      smlawY_eq, h5, h6]
  | smlal x y =>
    obtain ⟨ho, hn⟩ := h
    obtain ⟨h4, h5, h6, h7⟩ := halves_of_bits hn
    have hd : s.isDsp w = true := by
      rw [isDsp, hv, h4, h7, ho]
      exact Bool.or_true _
    rw [if_pos ⟨.inr (.inr (.inl ho)), hd⟩, dsp, ho]
    simp only [h4, h7, Bool.not_false, Bool.and_true, if_true, smlalXY_eq, h5, h6]
  | smul x y =>
    obtain ⟨ho, hn, h0⟩ := h
    obtain ⟨h4, h5, h6, h7⟩ := halves_of_bits hn
    have hd : s.isDsp w = true := by
      rw [isDsp, hv, h4, h7, ho, destReg_of_bits h0]
      exact Bool.or_true _
    rw [if_pos ⟨.inr (.inr (.inr ho)), hd⟩, dsp, ho]
    simp only [h4, h7, destReg_of_bits h0, Bool.not_false, Bool.and_true, if_true, smulXY_eq, h5,
      h6]

/-- No operation clears `Q`, and none changes anything but `Q` and its registers. -/
theorem dspEffect_keeps (s : State U) (w : ARMword) (op : DspOp) :
    (s.sFlag = true → (s.dspEffect w op).sFlag = true) ∧
      { s.dspEffect w op with reg := s.reg, sFlag := s.sFlag } = s := by
  cases op <;> exact ⟨fun h => by simp [dspEffect, withQ, setReg, h], rfl⟩

/-- The DSP extension is exact over the integers, and `Q` is sticky. -/
theorem dsp_exact (ops : MmuOps U) (s : State U) (pc w : ARMword) (op : DspOp)
    (hv : s.isV5e = true) (h : op.Encodes w) :
    mainswitchV5e ops s pc w = some (s.dspEffect w op) ∧
      (s.sFlag = true → (s.dspEffect w op).sFlag = true) ∧
      { s.dspEffect w op with reg := s.reg, sFlag := s.sFlag } = s :=
  ⟨mainswitchV5e_eq hv h, dspEffect_keeps s w op⟩

/-- `QADD r0, r2, r1` -/
theorem dsp_exact_qadd :
    let s : State Arm920t := { Arm920t.boot with isV5e := true }
    mainswitchV5e (Arm920t.ops 0) s 0 0xE1010052 = some (s.dspEffect 0xE1010052 .qadd) ∧
      (s.sFlag = true → (s.dspEffect 0xE1010052 .qadd).sFlag = true) ∧
      { s.dspEffect 0xE1010052 .qadd with reg := s.reg, sFlag := s.sFlag } = s :=
  dsp_exact _ _ _ _ .qadd rfl ⟨by decide, by decide⟩

end State

end SkyEye
