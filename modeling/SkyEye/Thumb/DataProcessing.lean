import SkyEye.Thumb.Exec
import SkyEye.Thumb.Fields

/-!
# Data processing of Thumb

The formats 1 to 4, 12 and 13, carried out by the main switch, have the effect that the
architecture defines.
-/

namespace SkyEye

variable {U : Type}

/-! ## Operands of data processing -/

theorem ofInstr_armWord (op : BitVec 12) (rn rd : BitVec 4) (lo : BitVec 12) :
    DpOp.ofInstr (armWord op rn rd lo) = DpOp.ofInstr (armWord op 0 0 0) := by
  rw [DpOp.ofInstr, DpOp.ofInstr, bits_armWord_op _ _ _ _ (by omega),
    bits_armWord_op _ _ _ _ (by omega)]

theorem getLsbD_armWord_op (op : BitVec 12) (rn rd : BitVec 4) (lo : BitVec 12) {i : Nat}
    (hi : 20 ≤ i) : (armWord op rn rd lo).getLsbD i = op.getLsbD (i - 20) := by
  rw [getLsbD_armWord, if_neg (by omega), if_neg (by omega), if_neg (by omega)]

theorem getLsbD_armWord_low (op : BitVec 12) (rn rd : BitVec 4) (lo : BitVec 12) {i : Nat}
    (hi : i < 12) : (armWord op rn rd lo).getLsbD i = lo.getLsbD i := by
  rw [getLsbD_armWord, if_pos hi]

theorem setWidth_armWord (op : BitVec 12) (rn rd : BitVec 4) (lo : BitVec 12) :
    (armWord op rn rd lo).setWidth 12 = lo := by
  apply BitVec.eq_of_getLsbD_eq
  intro i hi
  rw [BitVec.getLsbD_setWidth, getLsbD_armWord_low _ _ _ _ hi]
  simp [hi]

theorem immedTable_setWidth (v : BitVec 8) : immedTable (v.setWidth 12) = v.setWidth 32 := by
  have hrot : (v.setWidth 12).extractLsb' 8 4 = 0 := by
    apply BitVec.eq_of_getLsbD_eq
    intro i hi
    simp
  rw [immedTable, hrot]
  apply BitVec.eq_of_getLsbD_eq
  intro i hi
  simp [hi]

/-- Eight bits, turned right by 30: a multiple of four. -/
theorem immedTable_fours (v : BitVec 8) :
    immedTable (0xF#4 ++ v) = (v ++ 0#2).setWidth 32 := by
  have hrot : (0xF#4 ++ v : BitVec 12).extractLsb' 8 4 = 0xF#4 := by
    apply BitVec.eq_of_getLsbD_eq
    intro i hi
    rw [BitVec.getLsbD_extractLsb', BitVec.getLsbD_append]
    simp [hi]
  have hlow : (0xF#4 ++ v : BitVec 12).setWidth 8 = v := by
    apply BitVec.eq_of_getLsbD_eq
    intro i hi
    rw [BitVec.getLsbD_setWidth, BitVec.getLsbD_append]
    simp [hi]
  rw [immedTable, hrot, hlow]
  apply BitVec.eq_of_getLsbD_eq
  intro i hi
  rw [BitVec.getLsbD_rotateRight, BitVec.getLsbD_setWidth, BitVec.getLsbD_setWidth,
    BitVec.getLsbD_setWidth, BitVec.getLsbD_append]
  interval_cases i <;> simp

namespace State

variable {ops : MmuOps U} {s : State U} {pc : ARMword} {op : BitVec 12} {rn rd rm : BitVec 4}
  {o : DpOp}

theorem reg_fields (op : BitVec 12) (rn rd rm : BitVec 4) :
    bits (armWord op rn rd (rm.setWidth 12)) 4 11 = 0 ∧
      rhsReg (armWord op rn rd (rm.setWidth 12)) = rm.toFin := by
  constructor
  · rw [bits_armWord_low _ _ _ _ (by omega)]
    have : (rm.setWidth 12).extractLsb' 4 8 = 0 := by
      apply BitVec.eq_of_getLsbD_eq
      intro i hi
      simp
    exact congrArg BitVec.toNat this
  · rw [rhsReg_armWord]
    refine congrArg BitVec.toFin ?_
    apply BitVec.eq_of_getLsbD_eq
    intro i hi
    simp [hi]
    omega

/-- What the upper bits of a data processing instruction say: a register or a number (bits 25 to
27), the S bit and the operation. -/
def DpEncodes (op : BitVec 12) (operand : BitVec 3) (sBit : Bool) (o : DpOp) : Prop :=
  op.extractLsb' 5 3 = operand ∧ op.getLsbD 0 = sBit ∧ DpOp.ofInstr (armWord op 0 0 0) = o

instance (op : BitVec 12) (operand : BitVec 3) (sBit : Bool) (o : DpOp) :
    Decidable (DpEncodes op operand sBit o) :=
  inferInstanceAs (Decidable (_ ∧ _))

/-- An operation with the S bit and a register. -/
theorem dp_reg (he : DpEncodes op 0 true o) :
    s.mainswitch ops pc (armWord op rn rd (rm.setWidth 12)) =
      some (if o.isTest then s.test (armWord op rn rd (rm.setWidth 12)) o
        else s.dataProcessingS (armWord op rn rd (rm.setWidth 12)) o) ∧
    s.dpRHS (armWord op rn rd (rm.setWidth 12)) = (s.reg rm.toFin, s) ∧
    s.dpsRHS (armWord op rn rd (rm.setWidth 12)) = (s.reg rm.toFin, s) := by
  obtain ⟨h25, h20, ho⟩ := he
  obtain ⟨hlow, hrm⟩ := reg_fields op rn rd rm
  have hbit : (armWord op rn rd (rm.setWidth 12)).getLsbD 25 = false := by
    rw [getLsbD_armWord_op _ _ _ _ (by omega)]
    have := congrArg (BitVec.getLsbD · 0) h25
    simpa using this
  refine ⟨?_, ?_, ?_⟩
  · rw [mainswitch_regS, ofInstr_armWord, ho]
    · rw [bits_armWord_op _ _ _ _ (by omega)]
      exact congrArg BitVec.toNat h25
    · rw [getLsbD_armWord_op _ _ _ _ (by omega)]
      exact h20
    · rw [getLsbD_armWord_low _ _ _ _ (by omega), getLsbD_armWord_low _ _ _ _ (by omega)]
      simp
  · rw [dpRHS, hbit, if_neg Bool.false_ne_true, dpRegRHS, if_pos hlow, hrm]
  · rw [dpsRHS, hbit, if_neg Bool.false_ne_true, dpsRegRHS, if_pos hlow, hrm]

theorem dp_imm {v : BitVec 8} (he : DpEncodes op 1 true o) :
    s.mainswitch ops pc (armWord op rn rd (v.setWidth 12)) =
      some (if o.isTest then s.test (armWord op rn rd (v.setWidth 12)) o
        else s.dataProcessingS (armWord op rn rd (v.setWidth 12)) o) ∧
    s.dpRHS (armWord op rn rd (v.setWidth 12)) = (v.setWidth 32, s) ∧
    s.dpsRHS (armWord op rn rd (v.setWidth 12)) = (v.setWidth 32, s) := by
  obtain ⟨h25, h20, ho⟩ := he
  have himm : dpImmRHS (armWord op rn rd (v.setWidth 12)) = v.setWidth 32 := by
    rw [dpImmRHS, setWidth_armWord, immedTable_setWidth]
  have hlow : ¬255 < bits (armWord op rn rd (v.setWidth 12)) 0 11 := by
    have hv := v.isLt
    rw [bits_armWord_low _ _ _ _ (by omega), BitVec.extractLsb'_toNat, Nat.shiftRight_zero,
      BitVec.toNat_setWidth]
    omega
  have hbit : (armWord op rn rd (v.setWidth 12)).getLsbD 25 = true := by
    rw [getLsbD_armWord_op _ _ _ _ (by omega)]
    have := congrArg (BitVec.getLsbD · 0) h25
    simpa using this
  refine ⟨?_, ?_, ?_⟩
  · rw [mainswitch_imm, immediateCase, getLsbD_armWord_op _ _ _ _ (by omega), h20]
    · rw [if_pos rfl, ofInstr_armWord, ho]
    · rw [bits_armWord_op _ _ _ _ (by omega)]
      exact congrArg BitVec.toNat h25
  · rw [dpRHS, hbit, if_pos rfl, himm]
  · rw [dpsRHS, hbit, if_pos rfl, dpsImmRHS, himm]
    exact congrArg (Prod.mk _) (if_neg hlow)

theorem does_reg_arith (op : BitVec 12) (o : DpOp) (he : DpEncodes op 0 true o)
    (hop : o.isLogical = false) (hn : rn.toFin ≠ 15) (hd : rd.toFin ≠ 15) :
    let a := o.addends (s.reg rn.toFin) (s.reg rm.toFin) s.cFlag
    Does ops s pc (armWord op rn rd (rm.setWidth 12)) id
      (.ok (if o.isTest then s.withSum a.1 a.2.1 a.2.2
        else s.sumTo a.1 a.2.1 a.2.2 rd.toFin)) := by
  obtain ⟨hm, hr, -⟩ := @dp_reg U ops s pc op rn rd rm o he
  exact does_arith hm hop (destReg_armWord ..) hd (lhsReg_armWord ..) hn hr

theorem does_imm_arith (op : BitVec 12) (o : DpOp) {v : BitVec 8} (he : DpEncodes op 1 true o)
    (hop : o.isLogical = false) (hn : rn.toFin ≠ 15) (hd : rd.toFin ≠ 15) :
    let a := o.addends (s.reg rn.toFin) (v.setWidth 32) s.cFlag
    Does ops s pc (armWord op rn rd (v.setWidth 12)) id
      (.ok (if o.isTest then s.withSum a.1 a.2.1 a.2.2
        else s.sumTo a.1 a.2.1 a.2.2 rd.toFin)) := by
  obtain ⟨hm, hr, -⟩ := @dp_imm U ops s pc op rn rd o v he
  exact does_arith hm hop (destReg_armWord ..) hd (lhsReg_armWord ..) hn hr

theorem does_reg_logical (op : BitVec 12) (o : DpOp) (he : DpEncodes op 0 true o)
    (hop : o.isLogical = true) (hn : rn.toFin ≠ 15) (hd : rd.toFin ≠ 15) :
    let v := o.value (s.reg rn.toFin) (s.reg rm.toFin) s.cFlag
    Does ops s pc (armWord op rn rd (rm.setWidth 12)) id
      (.ok (if o.isTest then s.withNZ v else s.valueTo v rd.toFin)) := by
  obtain ⟨hm, -, hr⟩ := @dp_reg U ops s pc op rn rd rm o he
  exact does_logical hm hop (destReg_armWord ..) hd (lhsReg_armWord ..) hn hr

theorem does_imm_logical (op : BitVec 12) (o : DpOp) {v : BitVec 8} (he : DpEncodes op 1 true o)
    (hop : o.isLogical = true) (hn : rn.toFin ≠ 15) (hd : rd.toFin ≠ 15) :
    let v' := o.value (s.reg rn.toFin) (v.setWidth 32) s.cFlag
    Does ops s pc (armWord op rn rd (v.setWidth 12)) id
      (.ok (if o.isTest then s.withNZ v' else s.valueTo v' rd.toFin)) := by
  obtain ⟨hm, -, hr⟩ := @dp_imm U ops s pc op rn rd o v he
  exact does_logical hm hop (destReg_armWord ..) hd (lhsReg_armWord ..) hn hr

/-- The shift that two bits stand for. -/
def shiftOf (sh : BitVec 2) : Shift :=
  match sh.toNat with
  | 0 => .lsl
  | 1 => .lsr
  | 2 => .asr
  | _ => .ror

theorem eq_zero_of_shiftOf : ∀ sh : BitVec 2, shiftOf sh = .lsl → sh = 0 := by decide

theorem shiftType_armWord (op : BitVec 12) (rn rd : BitVec 4) {lo : BitVec 12} {sh : BitVec 2}
    (hs : lo.extractLsb' 5 2 = sh) : shiftType (armWord op rn rd lo) = shiftOf sh := by
  have hbits : bits (armWord op rn rd lo) 5 6 = sh.toNat := by
    rw [bits_armWord_low _ _ _ _ (by omega)]
    exact congrArg BitVec.toNat hs
  unfold shiftType
  rw [hbits]
  rfl

/-- `MOVS` of a shifted register has the S bit and no other extension. -/
theorem mainswitch_mov {lo : BitVec 12} (h : (lo.getLsbD 4 && lo.getLsbD 7) = false) :
    s.mainswitch ops pc (armWord 0xE1B rn rd lo) =
      some (if DpOp.mov.isTest then s.test (armWord 0xE1B rn rd lo) .mov
        else s.dataProcessingS (armWord 0xE1B rn rd lo) .mov) := by
  rw [mainswitch_regS, ofInstr_armWord, show DpOp.ofInstr (armWord 0xE1B 0 0 0) = .mov by decide]
  · rw [bits_armWord_op _ _ _ _ (by omega)]
    decide
  · rw [getLsbD_armWord_op _ _ _ _ (by omega)]
    decide
  · rw [getLsbD_armWord_low _ _ _ _ (by omega), getLsbD_armWord_low _ _ _ _ (by omega)]
    exact h

theorem dpsRHS_mov {lo : BitVec 12} :
    s.dpsRHS (armWord 0xE1B rn rd lo) = s.dpsRegRHS (armWord 0xE1B rn rd lo) := by
  rw [dpsRHS, getLsbD_armWord_op _ _ _ _ (by omega)]
  exact if_neg (by decide)

theorem shifted_fields (n : BitVec 5) (sh : BitVec 2) (rm : BitVec 4) {lo : BitVec 12}
    (hlo : n ++ sh ++ 0#1 ++ rm = lo) : lo.getLsbD 4 = false ∧ lo.extractLsb' 0 4 = rm ∧
      lo.extractLsb' 5 2 = sh ∧ lo.extractLsb' 7 5 = n ∧
      (lo.extractLsb' 4 8 = 0 ↔ n = 0 ∧ sh = 0) := by
  have hbit (i : Nat) : lo.getLsbD i = if i < 4 then rm.getLsbD i else if i < 5 then false
      else if i < 7 then sh.getLsbD (i - 5) else n.getLsbD (i - 7) := by
    rw [← hlo]
    simp only [BitVec.getLsbD_append]
    grind
  have hsh : lo.extractLsb' 5 2 = sh := by
    apply BitVec.eq_of_getLsbD_eq
    intro i hi
    rw [BitVec.getLsbD_extractLsb', hbit]
    interval_cases i <;> simp
  have hn : lo.extractLsb' 7 5 = n := by
    apply BitVec.eq_of_getLsbD_eq
    intro i hi
    rw [BitVec.getLsbD_extractLsb', hbit]
    interval_cases i <;> simp
  refine ⟨by rw [hbit]; rfl, ?_, hsh, hn, fun h0 => ?_, fun ⟨hn0, hs0⟩ => ?_⟩
  · apply BitVec.eq_of_getLsbD_eq
    intro i hi
    rw [BitVec.getLsbD_extractLsb', hbit]
    interval_cases i <;> simp
  · have hz (i : Nat) (hi : i < 8) : lo.getLsbD (4 + i) = false := by
      have := congrArg (BitVec.getLsbD · i) h0
      simpa [hi] using this
    constructor
    · rw [← hn]
      apply BitVec.eq_of_getLsbD_eq
      intro i hi
      rw [BitVec.getLsbD_extractLsb', show 7 + i = 4 + (3 + i) by omega, hz _ (by omega)]
      simp
    · rw [← hsh]
      apply BitVec.eq_of_getLsbD_eq
      intro i hi
      rw [BitVec.getLsbD_extractLsb', show 5 + i = 4 + (1 + i) by omega, hz _ (by omega)]
      simp
  · apply BitVec.eq_of_getLsbD_eq
    intro i hi
    rw [BitVec.getLsbD_extractLsb', hbit, hn0, hs0]
    interval_cases i <;> simp

theorem does_shift {n : BitVec 5} {sh : BitVec 2} (hs : shiftOf sh ≠ .ror)
    (hd : rd.toFin ≠ 15) : Does ops s pc (armWord 0xE1B rn rd (n ++ sh ++ 0#1 ++ rm)) id
      (.ok (s.shiftTo (shiftOf sh) (s.reg rm.toFin) ((shiftOf sh).amount n.toNat) rd.toFin)) := by
  generalize hlo : n ++ sh ++ 0#1 ++ rm = lo
  obtain ⟨h4, hrm, hsh, hn, h0⟩ := shifted_fields n sh rm hlo
  have hm := @mainswitch_mov U ops s pc rn rd lo (by rw [h4]; rfl)
  have hreg : rhsReg (armWord 0xE1B rn rd lo) = rm.toFin := by
    rw [rhsReg_armWord, hrm]
  have h411 : bits (armWord 0xE1B rn rd lo) 4 11 = (lo.extractLsb' 4 8).toNat :=
    bits_armWord_low _ _ _ _ (by omega)
  have hnum : bits (armWord 0xE1B rn rd lo) 7 11 = n.toNat := by
    rw [bits_armWord_low _ _ _ _ (by omega)]
    exact congrArg BitVec.toNat hn
  have hbit4 : (armWord 0xE1B rn rd lo).getLsbD 4 = false :=
    (getLsbD_armWord_low _ _ _ _ (by omega)).trans h4
  by_cases hz : lo.extractLsb' 4 8 = 0
  · -- no shift at all
    obtain ⟨rfl, rfl⟩ := h0.mp hz
    have hr : s.dpsRHS (armWord 0xE1B rn rd lo) = (s.reg rm.toFin <<< 0, s) := by
      rw [dpsRHS_mov, dpsRegRHS, if_pos (by rw [h411, hz]; rfl), hreg, BitVec.shiftLeft_zero]
    exact does_move hm (destReg_armWord ..) hd hr rfl
  · have ha : (shiftOf sh).amount n.toNat ≠ 0 := by
      intro he
      obtain ⟨hlsl, hn0⟩ := Shift.amount_eq_zero he
      exact hz (h0.mpr ⟨BitVec.eq_of_toNat_eq hn0, eq_zero_of_shiftOf sh hlsl⟩)
    have hval := @Shift.byImm_eq (s.reg rm.toFin) n.toNat s.cFlag _ hs
    have hcar := @Shift.byImmCarry_eq (s.reg rm.toFin) n.toNat _ hs n.isLt ha
    generalize (shiftOf sh).amount n.toNat = a at ha hval hcar ⊢
    have hr : s.dpsRHS (armWord 0xE1B rn rd lo) = ((shiftOf sh).apply (s.reg rm.toFin) a,
        { s with cFlag := (shiftOf sh).lastOut (s.reg rm.toFin) a }) := by
      have hne : ¬bits (armWord 0xE1B rn rd lo) 4 11 = 0 := fun he =>
        hz (BitVec.eq_of_toNat_eq (h411.symm.trans he))
      rw [dpsRHS_mov, dpsRegRHS, if_neg hne, hbit4, if_neg Bool.false_ne_true, hreg, hnum,
        shiftType_armWord _ _ _ hsh]
      dsimp only
      rw [hval, hcar]
    rw [shiftTo, if_neg ha]
    exact does_move hm (destReg_armWord ..) hd hr rfl

theorem shifted_reg_fields (rs : BitVec 4) (sh : BitVec 2) (rm : BitVec 4) {lo : BitVec 12}
    (hlo : rs ++ 0#1 ++ sh ++ 1#1 ++ rm = lo) : lo.getLsbD 4 = true ∧ lo.getLsbD 7 = false ∧
      lo.extractLsb' 0 4 = rm ∧ lo.extractLsb' 5 2 = sh ∧ lo.extractLsb' 8 4 = rs := by
  have hbit (i : Nat) : lo.getLsbD i = if i < 4 then rm.getLsbD i
      else if i < 5 then (1#1).getLsbD (i - 4)
      else if i < 7 then sh.getLsbD (i - 5) else if i < 8 then false else rs.getLsbD (i - 8) := by
    rw [← hlo]
    simp only [BitVec.getLsbD_append]
    grind
  refine ⟨by rw [hbit]; rfl, by rw [hbit]; rfl, ?_, ?_, ?_⟩
  · apply BitVec.eq_of_getLsbD_eq
    intro i hi
    rw [BitVec.getLsbD_extractLsb', hbit]
    interval_cases i <;> simp
  · apply BitVec.eq_of_getLsbD_eq
    intro i hi
    rw [BitVec.getLsbD_extractLsb', hbit]
    interval_cases i <;> simp
  · apply BitVec.eq_of_getLsbD_eq
    intro i hi
    rw [BitVec.getLsbD_extractLsb', hbit]
    interval_cases i <;> simp

theorem incPc_reg {r : RegNo} (h : r ≠ 15) : s.incPc.icycles.reg r = s.reg r :=
  Function.update_of_ne h _ _

theorem incPc_valueTo {d : RegNo} (hd : d ≠ 15) (v : ARMword) :
    (s.valueTo v d).incPc = s.incPc.valueTo v d :=
  setReg_advance (s := s.withNZ v) hd v fun n => n ||| 2

theorem does_shift_reg {rs : BitVec 4} {sh : BitVec 2} (hm15 : rm.toFin ≠ 15)
    (hs15 : rs.toFin ≠ 15) (hd : rd.toFin ≠ 15) :
    Does ops s pc (armWord 0xE1B rn rd (rs ++ 0#1 ++ sh ++ 1#1 ++ rm)) (fun s => s.incPc.icycles)
      (.ok (s.shiftTo (shiftOf sh) (s.reg rm.toFin) ((s.reg rs.toFin).toNat % 256) rd.toFin)) := by
  generalize hlo : rs ++ 0#1 ++ sh ++ 1#1 ++ rm = lo
  obtain ⟨h4, h7, hrm, hsh, hrs⟩ := shifted_reg_fields rs sh rm hlo
  have hm := @mainswitch_mov U ops s pc rn rd lo (by rw [h7, Bool.and_false])
  have hreg : rhsReg (armWord 0xE1B rn rd lo) = rm.toFin := by
    rw [rhsReg_armWord, hrm]
  have hshift : shiftReg (armWord 0xE1B rn rd lo) = rs.toFin := by
    rw [shiftReg_armWord, hrs]
  have hbit4 : (armWord 0xE1B rn rd lo).getLsbD 4 = true :=
    (getLsbD_armWord_low _ _ _ _ (by omega)).trans h4
  have hne : ¬bits (armWord 0xE1B rn rd lo) 4 11 = 0 := by
    intro he
    have := testBit_bits (armWord 0xE1B rn rd lo) (m := 4) (n := 11) (i := 0) (by omega)
    rw [he, hbit4] at this
    cases this
  have hamt : (s.reg rs.toFin &&& 0xff).toNat = (s.reg rs.toFin).toNat % 256 :=
    Word.toNat_and_low (s.reg rs.toFin) 8 (by decide)
  generalize (s.reg rs.toFin).toNat % 256 = a at hamt ⊢
  have hr : s.dpsRHS (armWord 0xE1B rn rd lo) = ((shiftOf sh).apply (s.reg rm.toFin) a,
      { s.incPc.icycles with
        cFlag := if a = 0 then s.cFlag else (shiftOf sh).lastOut (s.reg rm.toFin) a }) := by
    rw [dpsRHS_mov, dpsRegRHS, if_neg hne, hbit4, if_pos rfl, hreg, hshift,
      shiftType_armWord _ _ _ hsh]
    dsimp only
    rw [incPc_reg hs15, hamt, Shift.byReg_eq, Shift.byRegCarry_eq]
    rw [show s.incPc.reg rm.toFin = s.reg rm.toFin from incPc_reg hm15]
    rfl
  refine does_move hm (destReg_armWord ..) hd hr ?_
  exact congrArg icycles (incPc_valueTo (s := { s with
    cFlag := if a = 0 then s.cFlag else (shiftOf sh).lastOut (s.reg rm.toFin) a }) hd _).symm

/-- Without the S bit, from the program counter or the stack pointer. -/
theorem dp_fours (op : BitVec 12) (o : DpOp) {v : BitVec 8} (he : DpEncodes op 1 false o)
    (hop : o.isTest = false) (hd : rd.toFin ≠ 15) :
    Does ops s pc (armWord op rn rd (0xF#4 ++ v)) id (.ok (s.setReg rd.toFin
      (o.value (s.lhs (armWord op rn rd (0xF#4 ++ v))) ((v ++ 0#2).setWidth 32) s.cFlag))) := by
  obtain ⟨h25, h20, ho⟩ := he
  have himm : dpImmRHS (armWord op rn rd (0xF#4 ++ v)) = (v ++ 0#2).setWidth 32 := by
    rw [dpImmRHS, setWidth_armWord, immedTable_fours]
  rw [← himm]
  refine does_address (mainswitch_imm ?_) ?_ ?_ ?_ hop (destReg_armWord ..) hd
  · rw [bits_armWord_op _ _ _ _ (by omega)]
    exact congrArg BitVec.toNat h25
  · rw [getLsbD_armWord_op _ _ _ _ (by omega)]
    exact h20
  · rw [getLsbD_armWord_op _ _ _ _ (by omega)]
    have := congrArg (BitVec.getLsbD · 0) h25
    simpa using this
  · rw [ofInstr_armWord, ho]

end State

/-! ## Registers and numbers of a halfword -/

namespace Thumb

variable (h : BitVec 16)

theorem low_ne (lo : Nat) : (low h lo).toFin ≠ 15 := by
  intro he
  have hn := congrArg Fin.val he
  have hlt := (h.extractLsb' lo 3).isLt
  have hv : (low h lo).toFin.val = (h.extractLsb' lo 3).toNat := by
    change ((h.extractLsb' lo 3).setWidth 4).toNat = _
    rw [BitVec.toNat_setWidth, Nat.mod_eq_of_lt (by omega)]
  rw [hv] at hn
  change _ = 15 at hn
  omega

theorem number_eq (lo len unit : Nat) {v : ARMword}
    (hv : v.toNat = unit * field h lo len) : number h lo len unit = v := by
  rw [number, ← hv, BitVec.ofNat_toNat, BitVec.setWidth_eq]

end Thumb

/-! ## Data processing -/

namespace Thumb

open ThumbFormat State

variable {ops : MmuOps U} {s : State U} {pc : ARMword} {h : BitVec 16}

theorem setWidth_low (lo : Nat) : (h.extractLsb' lo 3).setWidth 12 = (low h lo).setWidth 12 := by
  have := (h.extractLsb' lo 3).isLt
  apply BitVec.eq_of_toNat_eq
  rw [low, BitVec.toNat_setWidth, BitVec.toNat_setWidth, BitVec.toNat_setWidth]
  omega

theorem setWidth_number3 (lo : Nat) :
    (h.extractLsb' lo 3).setWidth 12 = ((h.extractLsb' lo 3).setWidth 8).setWidth 12 := by
  have := (h.extractLsb' lo 3).isLt
  apply BitVec.eq_of_toNat_eq
  rw [BitVec.toNat_setWidth, BitVec.toNat_setWidth, BitVec.toNat_setWidth]
  omega

theorem number3_eq (lo : Nat) :
    number h lo 3 1 = ((h.extractLsb' lo 3).setWidth 8).setWidth 32 := by
  refine number_eq h lo 3 1 ?_
  have := (h.extractLsb' lo 3).isLt
  rw [BitVec.toNat_setWidth, BitVec.toNat_setWidth, field]
  omega

theorem number8_eq (lo : Nat) : number h lo 8 1 = (h.extractLsb' lo 8).setWidth 32 := by
  refine number_eq h lo 8 1 ?_
  have := (h.extractLsb' lo 8).isLt
  rw [BitVec.toNat_setWidth, field]
  omega

theorem fours8_eq (lo : Nat) : number h lo 8 4 = (h.extractLsb' lo 8 ++ 0#2).setWidth 32 := by
  refine number_eq h lo 8 4 ?_
  have := (h.extractLsb' lo 8).isLt
  rw [BitVec.toNat_setWidth, BitVec.toNat_append, show (0#2).toNat = 0 from rfl, Nat.or_zero,
    Nat.shiftLeft_eq, field]
  omega

/-- `ADDS` and `SUBS` -/
theorem does_format2 : Carries ops s pc (format2 (h.setWidth 32))
      (match field h 9 2 with
      | 0 => .add (lowReg h 3) (lowReg h 0) (.reg (lowReg h 6))
      | 1 => .sub (lowReg h 3) (lowReg h 0) (.reg (lowReg h 6))
      | 2 => .add (lowReg h 3) (lowReg h 0) (.imm (number h 6 3 1))
      | _ => .sub (lowReg h 3) (lowReg h 0) (.imm (number h 6 3 1))) := by
  rw [format2_eq, number3_eq]
  generalize field h 9 2 = n
  rcases n with _ | _ | _ | n
  · rw [setWidth_low]
    exact does_reg_arith 0xE09 .add (by decide) rfl
      (low_ne h 3) (low_ne h 0)
  · rw [setWidth_low]
    exact does_reg_arith 0xE05 .sub (by decide) rfl
      (low_ne h 3) (low_ne h 0)
  · rw [setWidth_number3]
    exact does_imm_arith 0xE29 .add (by decide) rfl
      (low_ne h 3) (low_ne h 0)
  · rw [setWidth_number3]
    exact does_imm_arith 0xE25 .sub (by decide) rfl
      (low_ne h 3) (low_ne h 0)

/-- `MOVS`, `CMP`, `ADDS` and `SUBS` -/
theorem does_format3 : Carries ops s pc (format3 (h.setWidth 32))
      (match field h 11 2 with
      | 0 => .mov (lowReg h 8) (number h 0 8 1)
      | 1 => .cmp (lowReg h 8) (number h 0 8 1)
      | 2 => .add (lowReg h 8) (lowReg h 8) (.imm (number h 0 8 1))
      | _ => .sub (lowReg h 8) (lowReg h 8) (.imm (number h 0 8 1))) := by
  rw [format3_eq, number8_eq]
  generalize field h 11 2 = n
  rcases n with _ | _ | _ | n
  · exact does_imm_logical 0xE3B .mov (by decide) rfl (low_ne h 8)
      (low_ne h 8)
  · exact does_imm_arith 0xE35 .cmp (by decide) rfl (low_ne h 8)
      (low_ne h 8)
  · exact does_imm_arith 0xE29 .add (by decide) rfl (low_ne h 8)
      (low_ne h 8)
  · exact does_imm_arith 0xE25 .sub (by decide) rfl (low_ne h 8)
      (low_ne h 8)

/-- `LSL`, `LSR` and `ASR` by a number -/
theorem does_format1 (hs : shiftOf (h.extractLsb' 11 2) ≠ .ror) :
    Carries ops s pc (format1 (h.setWidth 32))
      (.shift (shiftOf (h.extractLsb' 11 2))
        ((shiftOf (h.extractLsb' 11 2)).amount (field h 6 5)) (lowReg h 3) (lowReg h 0)) := by
  rw [format1_eq]
  exact does_shift hs (low_ne h 0)

theorem does_mul (hn : field h 6 4 = 13) (hne : lowReg h 3 ≠ lowReg h 0) :
    Carries ops s pc (format4 (h.setWidth 32))
      (.alu .mul (lowReg h 3) (lowReg h 0)) := by
  rw [format4_mul hn]
  generalize hlo : low h 0 ++ 9#4 ++ low h 3 = lo
  have hbit (i : Nat) : lo.getLsbD i = if i < 4 then (low h 3).getLsbD i
      else if i < 8 then (9#4).getLsbD (i - 4) else (low h 0).getLsbD (i - 8) := by
    rw [← hlo]
    simp only [BitVec.getLsbD_append]
    grind
  have hrm : lo.extractLsb' 0 4 = low h 3 := by
    apply BitVec.eq_of_getLsbD_eq
    intro i hi
    rw [BitVec.getLsbD_extractLsb', hbit]
    interval_cases i <;> simp
  have hrs : lo.extractLsb' 8 4 = low h 0 := by
    apply BitVec.eq_of_getLsbD_eq
    intro i hi
    rw [BitVec.getLsbD_extractLsb', hbit]
    interval_cases i <;> simp
  have h47 : lo.extractLsb' 4 4 = 9#4 := by
    apply BitVec.eq_of_getLsbD_eq
    intro i hi
    rw [BitVec.getLsbD_extractLsb', hbit]
    interval_cases i <;> simp
  have h56 : lo.extractLsb' 5 2 = 0 := by
    apply BitVec.eq_of_getLsbD_eq
    intro i hi
    rw [BitVec.getLsbD_extractLsb', hbit]
    interval_cases i <;> simp
  have hop (m n : Nat) (hm : 20 ≤ m) := bits_armWord_op 0xE01 (low h 0) 0 lo (m := m) (n := n) hm
  have hm : s.mainswitch ops pc (armWord 0xE01 (low h 0) 0 lo) =
      some (s.multiply (armWord 0xE01 (low h 0) 0 lo)) := by
    refine mainswitch_mul ?_ ?_ ?_ ?_ ?_ ?_ ?_
    · exact (hop 25 27 (by omega)).trans (by decide)
    · exact (getLsbD_armWord_op _ _ _ _ (by omega)).trans (by decide)
    · exact (getLsbD_armWord_op _ _ _ _ (by omega)).trans (by decide)
    · exact (hop 24 27 (by omega)).trans (by decide)
    · exact (bits_armWord_low _ _ _ _ (by omega)).trans (congrArg BitVec.toNat h47)
    · exact (bits_armWord_low _ _ _ _ (by omega)).trans (congrArg BitVec.toNat h56)
    · rw [ofInstr_armWord]
      decide
  refine does_multiply hm ?_ ?_ (lhsReg_armWord ..) (low_ne h 0) ?_ ?_ hne
  · exact (getLsbD_armWord_op _ _ _ _ (by omega)).trans (by decide)
  · exact (getLsbD_armWord_op _ _ _ _ (by omega)).trans (by decide)
  · exact (rhsReg_armWord ..).trans (congrArg BitVec.toFin hrm)
  · exact (shiftReg_armWord ..).trans (congrArg BitVec.toFin hrs)

/-- The operations of format 4 -/
theorem does_format4 (hp : field h 6 4 = 13 → lowReg h 3 ≠ lowReg h 0) :
    Carries ops s pc (format4 (h.setWidth 32))
      (.alu (ThumbAlu.ofBits (field h 6 4)) (lowReg h 3) (lowReg h 0)) := by
  have h0 := low_ne h 0
  have h3 := low_ne h 3
  have hlt : field h 6 4 < 16 := (h.extractLsb' 6 4).isLt
  generalize hn : field h 6 4 = n at hlt hp ⊢
  interval_cases n
  · rw [@format4_norm h 0xE01 (by rw [hn]; rfl)]
    exact does_reg_logical 0xE01 .and (by decide) rfl h0 h0
  · rw [@format4_norm h 0xE03 (by rw [hn]; rfl)]
    exact does_reg_logical 0xE03 .eor (by decide) rfl h0 h0
  · rw [@format4_shift h 0 (by rw [hn]; rfl)]
    exact does_shift_reg h0 h3 h0
  · rw [@format4_shift h 1 (by rw [hn]; rfl)]
    exact does_shift_reg h0 h3 h0
  · rw [@format4_shift h 2 (by rw [hn]; rfl)]
    exact does_shift_reg h0 h3 h0
  · rw [@format4_norm h 0xE0B (by rw [hn]; rfl)]
    exact does_reg_arith 0xE0B .adc (by decide) rfl h0 h0
  · rw [@format4_norm h 0xE0D (by rw [hn]; rfl)]
    exact does_reg_arith 0xE0D .sbc (by decide) rfl h0 h0
  · rw [@format4_shift h 3 (by rw [hn]; rfl)]
    exact does_shift_reg h0 h3 h0
  · rw [@format4_norm h 0xE11 (by rw [hn]; rfl)]
    exact does_reg_logical 0xE11 .tst (by decide) rfl h0 h0
  · rw [format4_neg hn]
    exact does_imm_arith 0xE27 .rsb (v := 0) (by decide) rfl h3 h0
  · rw [@format4_norm h 0xE15 (by rw [hn]; rfl)]
    exact does_reg_arith 0xE15 .cmp (by decide) rfl h0 h0
  · rw [@format4_norm h 0xE17 (by rw [hn]; rfl)]
    exact does_reg_arith 0xE17 .cmn (by decide) rfl h0 h0
  · rw [@format4_norm h 0xE19 (by rw [hn]; rfl)]
    exact does_reg_logical 0xE19 .orr (by decide) rfl h0 h0
  · exact does_mul hn (hp rfl)
  · rw [@format4_norm h 0xE1D (by rw [hn]; rfl)]
    exact does_reg_logical 0xE1D .bic (by decide) rfl h0 h0
  · rw [@format4_norm h 0xE1F (by rw [hn]; rfl)]
    exact does_reg_logical 0xE1F .mvn (by decide) rfl h0 h0

/-! ## Addresses -/

/-- The base register; register 15 is two instructions ahead. -/
theorem lhs_armWord (hpc : s.reg 15 = pc + 4) (op : BitVec 12) (rn rd : BitVec 4)
    (lo : BitVec 12) : s.lhs (armWord op rn rd lo) = baseValue pc s rn.toFin := by
  rw [State.lhs, lhsReg_armWord, baseValue, hpc]
  rfl

/-- `ADD` to the program counter or the stack pointer -/
theorem does_format12 (hpc : s.reg 15 = pc + 4) : Carries ops s pc (format12 (h.setWidth 32))
      (.address (lowReg h 8) (if h.getLsbD 11 then 13 else 15) (number h 0 8 4)) := by
  rw [format12_eq, fours8_eq]
  have := @dp_fours U ops s pc (if h.getLsbD 11 then 13 else 15) (low h 8) 0xE28 .add
    (h.extractLsb' 0 8) (by decide) rfl (low_ne h 8)
  rw [lhs_armWord hpc] at this
  have hb : (if h.getLsbD 11 then 13 else 15 : BitVec 4).toFin =
      (if h.getLsbD 11 then 13 else 15 : RegNo) := by
    split <;> rfl
  rw [hb] at this
  exact this

/-- `ADD` to the stack pointer -/
theorem does_format13 (hpc : s.reg 15 = pc + 4) : Carries ops s pc (format13 (h.setWidth 32))
      (.address 13 13 (if h.getLsbD 7 then -number h 0 7 4 else number h 0 7 4)) := by
  have hn : number h 0 7 4 = ((0#1 ++ h.extractLsb' 0 7 : BitVec 8) ++ 0#2).setWidth 32 := by
    refine number_eq h 0 7 4 ?_
    have := (h.extractLsb' 0 7).isLt
    rw [BitVec.toNat_setWidth, BitVec.toNat_append, show (0#2).toNat = 0 from rfl, Nat.or_zero,
      Nat.shiftLeft_eq, BitVec.toNat_append, show (0#1).toNat = 0 from rfl, Nat.zero_shiftLeft,
      Nat.zero_or, field]
    omega
  rw [format13_eq, hn]
  cases h.getLsbD 7 with
  | false =>
    have := @dp_fours U ops s pc 13 13 0xE28 .add (0#1 ++ h.extractLsb' 0 7) (by decide) rfl
      (by decide)
    rw [lhs_armWord hpc] at this
    exact this
  | true =>
    have := @dp_fours U ops s pc 13 13 0xE24 .sub (0#1 ++ h.extractLsb' 0 7) (by decide) rfl
      (by decide)
    rw [lhs_armWord hpc, DpOp.value, BitVec.sub_eq_add_neg] at this
    exact this

end Thumb

end SkyEye
