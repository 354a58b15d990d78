import Mathlib.Tactic.IntervalCases
import SkyEye.Sparc.CondCodes
import SkyEye.Sparc.Decoder
import SkyEye.Lib.AddWithCarry
import SkyEye.Lib.Word

/-!
# Multiplication by `mulscc`

Thirty-two steps and a last one with `%g0`. `N` and `V` hold the sign of the partial sum,
which `rd` alone does not: with them `rd:y` is the accumulator of a multiplication by steps.
The code mask of `i_mulscc.c` has bit 27 where `op3` has none: it asks for a bit of `rd` or of
`rs1`, and the words that have neither are no instructions (`multiplySteps_iff`).
-/

namespace SkyEye.Sparc

namespace SparcState

variable {M : Type} (h : Host M) (s : SparcState M)

/-- The sum in `rd` with its sign. -/
def partialSum (rd : RegNo) : Int :=
  (s.reg rd).toNat - if s.flagN ^^ s.flagV then 2 ^ 32 else 0

/-- `rd:y` -/
def accumulator (rd : RegNo) : Int := s.partialSum rd * 2 ^ 32 + s.y.toNat

/-- `mulscc rd, rs2, rd` -/
def mulsccRd (rd rs2 : RegNo) : Instr := .mulscc ⟨rd, rd, .reg rs2⟩

/-- Thirty-two steps with `rs2`, and one with `%g0`. -/
def multiplySteps (rd rs2 : RegNo) : List Instr :=
  List.replicate 32 (mulsccRd rd rs2) ++ [mulsccRd rd 0]

/-- A sequence of instructions. -/
def runInstrs : List Instr → SparcState M
  | is => is.foldl (fun s i => s.iuCycleStep h i) s

/-- The word of `mulscc rs1, rs2, rd`. -/
def mulsccWord (rs1 rs2 rd : RegNo) : Uint32 :=
  2#2 ++ (.ofFin rd : BitVec 5) ++ 0x24#6 ++ (.ofFin rs1 : BitVec 5) ++ 0#9 ++
    (.ofFin rs2 : BitVec 5)

/-- What the `disassemble` of `i_mulscc.c` leaves. -/
def mulsccFields (instr : Uint32) : Fields where
  rd := ((bits instr 29 25).setWidth 5).toFin
  rs1 := ((bits instr 18 14).setWidth 5).toFin
  op2 :=
    if bit instr 13 then .simm13 ((bits instr 12 0).setWidth 13)
    else .reg ((bits instr 4 0).setWidth 5).toFin

/-- `iu_cycle_step` on a word of `mulscc`. The simulator exits where there is no instruction. -/
def mulsccCycleStep (instr : Uint32) : Option (SparcState M) :=
  match iuGetInstr iuIsaRegister instr with
  | some .mulscc => some (s.iuCycleStep h (.mulscc (mulsccFields instr)))
  | _ => none

/-- A sequence of such words. -/
def runWords (instrs : List Uint32) : Option (SparcState M) :=
  instrs.foldlM (fun s instr => s.mulsccCycleStep h instr) s

/-- The words of `multiplySteps`. -/
def multiplyWords (rd rs2 : RegNo) : List Uint32 :=
  List.replicate 32 (mulsccWord rd rs2 rd) ++ [mulsccWord rd 0 rd]

/-! ## The halves of a word shifted right -/

theorem clearBit_bits_31 (x : Uint32) : clearBit (bits x 31 1) 31 = x >>> 1 := by
  apply BitVec.eq_of_getLsbD_eq
  intro i hi
  have hb := bit_clearBit (b := 31) (by omega) (bits x 31 1) i
  unfold bit at hb
  rw [hb, getLsbD_bits (by omega) (by omega), BitVec.getLsbD_ushiftRight]
  by_cases h31 : i = 31
  · subst h31
    simp
  · have hle : 1 + i ≤ 31 := by omega
    simp [h31, hle]

/-- A word shifted right by one, with `b` shifted in. -/
def shiftIn (b : Bool) (x : Uint32) : Uint32 := if b then setBit (x >>> 1) 31 else x >>> 1

theorem toNat_shiftIn (b : Bool) (x : Uint32) :
    (shiftIn b x).toNat = x.toNat / 2 + if b then 2 ^ 31 else 0 := by
  have hs : (x >>> 1).toNat = x.toNat / 2 := by
    rw [BitVec.toNat_ushiftRight, Nat.shiftRight_eq_div_pow, pow_one]
  have hx := x.isLt
  unfold shiftIn
  cases b with
  | false => simpa using hs
  | true =>
    have hm : bitsmask 31 31 = 1#32 <<< 31 := by decide
    rw [if_pos rfl, if_pos rfl, setBit, hm, BitVec.toNat_or, hs]
    have hd : x.toNat / 2 < 2 ^ 31 := by omega
    have ho := Nat.two_pow_add_eq_or_of_lt hd 1
    rw [Nat.or_comm]
    simpa [Nat.add_comm] using ho.symm

theorem msb_shiftIn (b : Bool) (x : Uint32) : (shiftIn b x).msb = b := by
  have hx := x.isLt
  rw [BitVec.msb_eq_decide, toNat_shiftIn]
  cases b with
  | false =>
    rw [if_neg (by simp), decide_eq_false]
    omega
  | true =>
    rw [if_pos rfl, decide_eq_true]
    omega

/-- As a signed word it is half of what `x` and the sign stand for. -/
theorem toInt_shiftIn (b : Bool) (x : Uint32) :
    (shiftIn b x).toInt = ((x.toNat : Int) - if b then 2 ^ 32 else 0) / 2 := by
  have hx := x.isLt
  rw [BitVec.toInt_eq_msb_cond, msb_shiftIn, toNat_shiftIn]
  cases b with
  | false => simp
  | true =>
    simp
    omega

/-! ## One step -/

theorem bits_31_1 (x : Uint32) : bits x 31 1 = x >>> 1 := by
  show x <<< 0 >>> 1 = x >>> 1
  rw [BitVec.shiftLeft_zero]

/-- The first operand of a step. -/
def stepOp1 (rd : RegNo) : Uint32 := shiftIn (s.flagN ^^ s.flagV) (s.reg rd)

/-- The second one. -/
def stepOp2 (rs2 : RegNo) : Uint32 := if bit s.y 0 then s.reg rs2 else 0

/-- The registers that a step writes. -/
def stepWritten (rd rs2 : RegNo) : SparcState M :=
  { s.setReg rd (s.stepOp1 rd + s.stepOp2 rs2) with y := shiftIn (bit (s.reg rd) 0) s.y }

theorem reg_stepWritten (rd rs2 : RegNo) (x : Nat) :
    (s.stepWritten rd rs2).reg x = if x = rd then s.stepOp1 rd + s.stepOp2 rs2 else s.reg x :=
  (reg_congr rfl rfl rfl x).trans (s.reg_setReg rd x _)

/-- The codes of the sum `z` of `x` and `y`. -/
def setSumIcc (x y z : Uint32) : SparcState M :=
  (((s.clearIcc.setIcc PSR_icc_N (bit z 31)).setIcc PSR_icc_Z (z == 0)).setIcc PSR_icc_V
    (bit x 31 && bit y 31 && !bit z 31 || !bit x 31 && !bit y 31 && bit z 31)).setIcc PSR_icc_C
    (bit x 31 && bit y 31 || !bit z 31 && (bit x 31 || bit y 31))

theorem icc_setSumIcc (x y : Uint32) :
    (s.setSumIcc x y (x + y)).Icc (x + y).msb (x + y == 0) (AddWithCarry.overflow x y false)
      (AddWithCarry.carry x y false) := by
  rw [addcc_overflow, addcc_carry]
  simp only [← bit_31]
  rw [Bool.or_comm (bit y 31)]
  exact s.icc_set (bit (x + y) 31) (x + y == 0) _ _

/-- The step writes the registers and sets the codes of the sum, which is read back. -/
theorem iMulscc_eq (rd rs2 : RegNo) :
    s.iMulscc ⟨rd, rd, .reg rs2⟩ =
      ((s.stepWritten rd rs2).setSumIcc (s.stepOp1 rd) (s.stepOp2 rs2)
        (s.stepOp1 rd + s.stepOp2 rs2)).advance := by
  have hx : (if (bit s.psr PSR_icc_N ^^ bit s.psr PSR_icc_V) = true then
      setBit (clearBit (bits (s.reg rd) 31 1) 31) 31 else clearBit (bits (s.reg rd) 31 1) 31) =
      s.stepOp1 rd := by
    rw [clearBit_bits_31]
    rfl
  have hy : (if bit (s.reg rd) 0 = true then setBit (bits s.y 31 1) 31
      else clearBit (bits s.y 31 1) 31) = shiftIn (bit (s.reg rd) 0) s.y := by
    rw [clearBit_bits_31, bits_31_1]
    rfl
  have hz : (s.stepWritten rd rs2).clearIcc.reg rd = s.stepOp1 rd + s.stepOp2 rs2 := by
    rw [reg_clearIcc, reg_stepWritten, if_pos rfl]
  have hs : s.iMulscc ⟨rd, rd, .reg rs2⟩ =
      ((s.stepWritten rd rs2).setSumIcc (s.stepOp1 rd) (s.stepOp2 rs2)
        ((s.stepWritten rd rs2).clearIcc.reg rd)).advance := by
    unfold iMulscc
    dsimp only
    rw [setReg_y, hx, hy]
    rfl
  rw [hs, hz]

theorem bit_zero (x : Uint32) : bit x 0 = decide (x.toNat % 2 = 1) := by
  unfold bit
  rw [BitVec.getLsbD, Nat.testBit_zero]

theorem toInt_stepOp1 (rd : RegNo) : (s.stepOp1 rd).toInt = s.partialSum rd / 2 :=
  toInt_shiftIn _ _

theorem toInt_stepOp2 (rs2 : RegNo) :
    (s.stepOp2 rs2).toInt = (s.y.toNat : Int) % 2 * (s.reg rs2).toInt := by
  unfold stepOp2
  rw [bit_zero]
  by_cases hy : s.y.toNat % 2 = 1
  · have h1 : (s.y.toNat : Int) % 2 = 1 := by omega
    rw [if_pos (by simpa using hy), h1, one_mul]
  · have h0 : (s.y.toNat : Int) % 2 = 0 := by omega
    rw [if_neg (by simpa using hy), h0, zero_mul]
    rfl

theorem partialSum_emod (rd : RegNo) : s.partialSum rd % 2 = (s.reg rd).toNat % 2 := by
  unfold partialSum
  split <;> omega

/-- One `mulscc` is one step of the accumulator. -/
theorem accumulator_mulscc (rd rs2 : RegNo) (hrd : rd ≠ 0) :
    (s.iuCycleStep h (mulsccRd rd rs2)).accumulator rd =
      MultiplyStep.step 32 (s.reg rs2).toInt (s.accumulator rd) := by
  have hx : s.execute h (mulsccRd rd rs2) = _ := s.iMulscc_eq rd rs2
  have hne : (rd : Nat) ≠ G0 := fun h0 => hrd (Fin.ext h0)
  have hicc := s.icc_cycle_of_icc h (i := mulsccRd rd rs2) (by
    rw [hx]
    exact ((s.stepWritten rd rs2).icc_setSumIcc (s.stepOp1 rd) (s.stepOp2 rs2)).congr
      (psr_advance _))
  have hreg : (s.iuCycleStep h (mulsccRd rd rs2)).reg rd = s.stepOp1 rd + s.stepOp2 rs2 := by
    rw [iuCycleStep, reg_setReg_of_ne _ hne, hx]
    simp [setSumIcc, reg_stepWritten]
  have hy : (s.iuCycleStep h (mulsccRd rd rs2)).y = shiftIn (bit (s.reg rd) 0) s.y := by
    rw [iuCycleStep, setReg_y, hx]
    show ((s.stepWritten rd rs2).setSumIcc _ _ _).y = _
    simp only [setSumIcc, setIcc_y]
    rfl
  have hsum := MultiplyStep.toNat_sum_sub (s.stepOp1 rd) (s.stepOp2 rs2) (by omega)
  rw [sum_false, toInt_stepOp1, toInt_stepOp2] at hsum
  have hp : (s.iuCycleStep h (mulsccRd rd rs2)).partialSum rd =
      s.partialSum rd / 2 + (s.y.toNat : Int) % 2 * (s.reg rs2).toInt := by
    rw [← hsum, partialSum, hreg, hicc.n, hicc.v]
  have hout : ((shiftIn (bit (s.reg rd) 0) s.y).toNat : Int) =
      s.y.toNat / 2 + s.partialSum rd % 2 * 2 ^ 31 := by
    rw [toNat_shiftIn, bit_zero, partialSum_emod]
    by_cases h1 : (s.reg rd).toNat % 2 = 1
    · rw [if_pos (by simpa using h1)]
      omega
    · rw [if_neg (by simpa using h1)]
      omega
  have hmod : s.accumulator rd % 2 = (s.y.toNat : Int) % 2 := by
    unfold accumulator
    omega
  have hdiv : s.accumulator rd / 2 =
      s.partialSum rd / 2 * 2 ^ 32 + (s.y.toNat / 2 + s.partialSum rd % 2 * 2 ^ 31) := by
    unfold accumulator
    omega
  rw [MultiplyStep.step, hmod, hdiv, accumulator, hp, hy, hout]
  ring

/-! ## All the steps -/

/-- A step leaves the other registers alone. -/
theorem reg_mulscc_of_ne {rd rs2 x : RegNo} (hx : x ≠ rd) (hg : s.reg G0 = 0) :
    (s.iuCycleStep h (mulsccRd rd rs2)).reg x = s.reg x := by
  have he : s.execute h (mulsccRd rd rs2) = _ := s.iMulscc_eq rd rs2
  have hr := s.reg_cycle_of_reg h (mulsccRd rd rs2) rd (s.stepOp1 rd + s.stepOp2 rs2) (by
      intro k
      rw [he]
      simp [setSumIcc, reg_stepWritten, reg_setReg])
  rw [hr x, if_neg hx]
  split
  · rename_i h0
    rw [h0]
    exact hg.symm
  · rfl

theorem runInstrs_append (is js : List Instr) :
    s.runInstrs h (is ++ js) = (s.runInstrs h is).runInstrs h js := List.foldl_append

theorem accumulator_replicate {rd rs2 : RegNo} (hrd : rd ≠ 0) (hrs : rs2 ≠ rd) (n : Nat)
    (hg : s.reg G0 = 0) :
    let t := s.runInstrs h (List.replicate n (mulsccRd rd rs2))
    t.reg G0 = 0 ∧ t.accumulator rd =
      (MultiplyStep.step 32 (s.reg rs2).toInt)^[n] (s.accumulator rd) := by
  induction n generalizing s with
  | zero => exact ⟨hg, rfl⟩
  | succ n ih =>
    have hg' : (s.iuCycleStep h (mulsccRd rd rs2)).reg G0 = 0 := by
      rw [iuCycleStep, reg_setReg, if_pos rfl]
    obtain ⟨h1, h2⟩ := ih (s.iuCycleStep h (mulsccRd rd rs2)) hg'
    rw [reg_mulscc_of_ne h s hrs hg, accumulator_mulscc h s rd rs2 hrd,
      ← Function.iterate_succ_apply] at h2
    exact ⟨h1, h2⟩

/-- What the accumulator stands for modulo `2 ^ 64`. -/
theorem append_eq_ofInt_accumulator (rd : RegNo) :
    s.reg rd ++ s.y = BitVec.ofInt 64 (s.accumulator rd) := by
  apply BitVec.eq_of_toNat_eq
  have hr := (s.reg rd).isLt
  have hy := s.y.isLt
  rw [Word.toNat_append, BitVec.toNat_ofInt, accumulator, partialSum]
  split <;> omega

/-- The steps leave the product of the signed multiplicand and the unsigned multiplier. -/
theorem multiplySteps_product {rd rs2 : RegNo} (hrd : rd ≠ 0) (hrs : rs2 ≠ rd)
    (hg : s.reg G0 = 0) (h0 : s.reg rd = 0) (hn : s.flagN = false) (hv : s.flagV = false) :
    let t := s.runInstrs h (multiplySteps rd rs2)
    let product := (s.reg rs2).toInt * s.y.toNat
    t.y = BitVec.ofInt 32 product ∧ t.reg rd ++ t.y = BitVec.ofInt 64 product := by
  intro t product
  obtain ⟨hg', ha⟩ := s.accumulator_replicate h hrd hrs 32 hg
  have hstart : s.accumulator rd = s.y.toNat := by
    simp [accumulator, partialSum, h0, hn, hv]
  have hy : (s.y.toNat : Int) < 2 ^ 32 := by
    have := s.y.isLt
    omega
  have hacc : t.accumulator rd = product := by
    have hlast := accumulator_mulscc h
      (s.runInstrs h (List.replicate 32 (mulsccRd rd rs2))) rd 0 hrd
    rw [ha, hstart, show (0 : RegNo).val = G0 from rfl, hg', show (0 : Uint32).toInt = 0 from rfl,
      MultiplyStep.step_zero_iterate 32 _ (by omega) hy] at hlast
    show ((s.runInstrs h (multiplySteps rd rs2)).accumulator rd) = product
    rw [multiplySteps, runInstrs_append]
    exact hlast
  have happ := t.append_eq_ofInt_accumulator rd
  rw [hacc] at happ
  refine ⟨?_, happ⟩
  have hlow := congrArg (BitVec.setWidth 32) happ
  rw [BitVec.setWidth_append_eq_right] at hlow
  rw [hlow]
  apply BitVec.eq_of_toNat_eq
  rw [BitVec.toNat_setWidth, BitVec.toNat_ofInt, BitVec.toNat_ofInt]
  omega

/-! ## Decoding -/

section

variable {rd rs2 : RegNo}

theorem getLsbD_mulsccWord (rs1 rs2 rd : RegNo) (i : Nat) : (mulsccWord rs1 rs2 rd).getLsbD i =
    if i < 5 then (.ofFin rs2 : BitVec 5).getLsbD i
    else if i < 14 then false
    else if i < 19 then (.ofFin rs1 : BitVec 5).getLsbD (i - 14)
    else if i < 25 then (0x24#6).getLsbD (i - 19)
    else if i < 30 then (.ofFin rd : BitVec 5).getLsbD (i - 25)
    else (2#2).getLsbD (i - 30) := by
  simp only [mulsccWord, BitVec.getLsbD_append]
  grind

theorem fields_mulsccWord (rs1 rs2 rd : RegNo) : opField (mulsccWord rs1 rs2 rd) = 2 ∧
    op3Field (mulsccWord rs1 rs2 rd) = 0x24 ∧
    mulsccFields (mulsccWord rs1 rs2 rd) = ⟨rd, rs1, .reg rs2⟩ := by
  have hreg {n m : Nat} (hn : n < 32) (hm : n = m + 4) (r : RegNo)
      (h : ∀ i < 5, (mulsccWord rs1 rs2 rd).getLsbD (m + i) = (.ofFin r : BitVec 5).getLsbD i) :
      ((bits (mulsccWord rs1 rs2 rd) n m).setWidth 5).toFin = r := by
    have he : (bits (mulsccWord rs1 rs2 rd) n m).setWidth 5 = .ofFin r := by
      apply BitVec.eq_of_getLsbD_eq
      intro i hi
      rw [BitVec.getLsbD_setWidth, getLsbD_bits hn (by omega), h i hi]
      simp [hi]
      omega
    exact congrArg BitVec.toFin he
  refine ⟨?_, ?_, ?_⟩
  · apply BitVec.eq_of_getLsbD_eq
    intro i hi
    rw [opField, getLsbD_bits (by omega) (by omega), getLsbD_mulsccWord]
    interval_cases i <;> rfl
  · apply BitVec.eq_of_getLsbD_eq
    intro i hi
    rw [op3Field, getLsbD_bits (by omega) (by omega), getLsbD_mulsccWord]
    interval_cases i <;> rfl
  · have h13 : bit (mulsccWord rs1 rs2 rd) 13 = false := getLsbD_mulsccWord rs1 rs2 rd 13
    rw [mulsccFields, h13, if_neg Bool.false_ne_true]
    congr 1
    · exact hreg (by omega) rfl rd fun i hi => by
        rw [getLsbD_mulsccWord]
        grind
    · exact hreg (by omega) rfl rs1 fun i hi => by
        rw [getLsbD_mulsccWord]
        grind
    · refine congrArg Operand.reg (hreg (by omega) rfl rs2 fun i hi => ?_)
      rw [getLsbD_mulsccWord]
      grind

/-- The code mask meets the two register fields only. -/
theorem maskTest_mulsccWord (rd rs2 : RegNo) :
    maskTest (mulsccWord rd rs2 rd) 0x08120000 = decide (4 ≤ (rd : Nat) % 16) := by
  have hrs2 : mulsccWord rd rs2 rd &&& 0x08120000 = mulsccWord rd 0 rd &&& 0x08120000 := by
    have hlow : ∀ i < 5, (0x08120000 : Uint32).getLsbD i = false := by decide
    apply BitVec.eq_of_getLsbD_eq
    intro i _
    rw [BitVec.getLsbD_and, BitVec.getLsbD_and, getLsbD_mulsccWord, getLsbD_mulsccWord]
    by_cases h5 : i < 5
    · rw [hlow i h5, Bool.and_false, Bool.and_false]
    · rw [if_neg h5, if_neg h5]
  have hall : ∀ rd : RegNo,
      (mulsccWord rd 0 rd &&& 0x08120000 != 0) = decide (4 ≤ (rd : Nat) % 16) := by decide
  rw [maskTest, hrs2]
  exact hall rd

/-- The decoder knows the word, or no instruction for it. -/
theorem iuGetInstr_mulsccWord (rd rs2 : RegNo) : iuGetInstr iuIsaRegister (mulsccWord rd rs2 rd) =
    if 4 ≤ (rd : Nat) % 16 then some .mulscc else none := by
  obtain ⟨hop, hop3, -⟩ := fields_mulsccWord rd rs2 rd
  have hmask := maskTest_mulsccWord rd rs2
  generalize mulsccWord rd rs2 rd = instr at hop hop3 hmask
  have hu : Unambiguous instr :=
    ⟨fun h => absurd (hop.symm.trans h) (by decide),
      fun _ h => absurd (hop3.symm.trans h) (by decide)⟩
  have hmulscc : Mnemonic.mulscc.disassemble instr = decide (4 ≤ (rd : Nat) % 16) := by
    simp only [Mnemonic.disassemble, Mnemonic.matcher, Matcher.accepts, hop, hop3, hmask,
      beq_self_eq_true, Bool.and_true]
  have hother (m : Mnemonic) (hm : m.disassemble instr = true) : m = .mulscc := by
    have he := Mnemonic.matches_of_disassemble hu hm
    exact Mnemonic.encoding_injective (Encoding.Matches.unique hu.ne_nop m.encoding_ne_ticc
      Mnemonic.mulscc.encoding_ne_ticc he ⟨hop, hop3⟩)
  cases hfound : iuGetInstr iuIsaRegister instr with
  | some m =>
    have hm := disassemble_of_iuGetInstr hfound
    obtain rfl := hother m hm
    rw [if_pos (of_decide_eq_true (hmulscc.symm.trans hm))]
  | none =>
    have hno : ¬ 4 ≤ (rd : Nat) % 16 := by
      intro h4
      rw [decide_eq_true h4] at hmulscc
      rw [iuGetInstr, hop] at hfound
      refine List.find?_eq_none.mp hfound .mulscc (List.mem_filter.mpr ⟨?_, ?_⟩) hmulscc
      · exact mem_iuIsaRegister _
      · rfl
    rw [if_neg hno]

theorem mulsccCycleStep_eq (rd rs2 : RegNo) : s.mulsccCycleStep h (mulsccWord rd rs2 rd) =
    if 4 ≤ (rd : Nat) % 16 then some (s.iuCycleStep h (mulsccRd rd rs2)) else none := by
  rw [mulsccCycleStep, iuGetInstr_mulsccWord, (fields_mulsccWord rd rs2 rd).2.2]
  by_cases h4 : 4 ≤ (rd : Nat) % 16
  · rw [if_pos h4, if_pos h4]
    rfl
  · rw [if_neg h4, if_neg h4]

theorem runWords_map (hrd : 4 ≤ (rd : Nat) % 16) (l : List RegNo) :
    s.runWords h (l.map fun r => mulsccWord rd r rd) =
      some (s.runInstrs h (l.map (mulsccRd rd))) := by
  induction l generalizing s with
  | nil => rfl
  | cons r l ih =>
    rw [List.map_cons, runWords, List.foldlM_cons, mulsccCycleStep_eq, if_pos hrd]
    exact ih (s.iuCycleStep h (mulsccRd rd r))

/-- The words multiply exactly where they are decoded: bit 2 or 3 of the number of `rd` is set,
so that it is none of `%g0` to `%g3` and `%l0` to `%l3`. -/
theorem multiplySteps_iff (hrs : rs2 ≠ rd) (hg : s.reg G0 = 0) (h0 : s.reg rd = 0)
    (hn : s.flagN = false) (hv : s.flagV = false) :
    (∃ t, s.runWords h (multiplyWords rd rs2) = some t ∧
      let product := (s.reg rs2).toInt * s.y.toNat
      t.y = BitVec.ofInt 32 product ∧ t.reg rd ++ t.y = BitVec.ofInt 64 product) ↔
      4 ≤ (rd : Nat) % 16 := by
  constructor
  · rintro ⟨t, ht, -⟩
    by_contra hrd
    rw [multiplyWords, runWords, List.replicate_succ, List.cons_append, List.foldlM_cons,
      mulsccCycleStep_eq, if_neg hrd] at ht
    cases ht
  · intro hrd
    have hne : rd ≠ 0 := by
      rintro rfl
      exact absurd hrd (by decide)
    have hwords := s.runWords_map h hrd (List.replicate 32 rs2 ++ [0])
    exact ⟨_, hwords, multiplySteps_product h s hne hrs hg h0 hn hv⟩

end

/-- Three times five, in `%o1`, from `%o0`. -/
theorem multiplySteps_iff_three :
    let s := { (resetState.setReg 8 3) with y := 5 }
    (∃ t, s.runWords bareHost (multiplyWords 9 8) = some t ∧
      let product := (s.reg 8).toInt * (s.y.toNat : Int)
      t.y = BitVec.ofInt 32 product ∧ t.reg 9 ++ t.y = BitVec.ofInt 64 product) ↔
      4 ≤ (9 : RegNo).val % 16 :=
  multiplySteps_iff bareHost _ (by decide) (by decide) (by decide) (by decide) (by decide)

/-- Three times five in `%l0`: the simulator exits at the first word. -/
theorem multiplySteps_l0 :
    ¬∀ (s : SparcState Unit) (rd rs2 : RegNo), rs2 ≠ rd → s.reg G0 = 0 → s.reg rd = 0 →
      s.flagN = false → s.flagV = false →
      ∃ t, s.runWords bareHost (multiplyWords rd rs2) = some t ∧
        let product := (s.reg rs2).toInt * s.y.toNat
        t.y = BitVec.ofInt 32 product ∧ t.reg rd ++ t.y = BitVec.ofInt 64 product := by
  intro hall
  obtain ⟨t, ht, -⟩ := hall { (resetState.setReg 8 3) with y := 5 } 16 8 (by decide) (by decide)
    (by decide) (by decide) (by decide)
  rw [multiplyWords, runWords, List.replicate_succ, List.cons_append, List.foldlM_cons,
    mulsccCycleStep_eq, if_neg (by decide)] at ht
  cases ht

end SparcState

end SkyEye.Sparc
