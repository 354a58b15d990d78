import SkyEye.Arm.Psr
import SkyEye.Thumb.Branch

/-!
# High registers

`ADD`, `CMP` and `MOV` of format 5 reach all sixteen registers. Register 15 reads as the
address of the instruction plus 4 on either side. The decoder hands the three to the ARM
cases, whose left operand is cut to a word and whose `CMP` with destination 15 is `CMPP`.
-/

namespace SkyEye

namespace Thumb

variable {U : Type}

/-- The operations of format 5 but for `BX`. -/
inductive HighOp where
  | add
  | cmp
  | mov
  deriving DecidableEq, Repr

/-- `Rd` and `Rs`, each with its high bit elsewhere. -/
def highRd (h : BitVec 16) : BitVec 4 := BitVec.ofBool (h.getLsbD 7) ++ h.extractLsb' 0 3
def highRs (h : BitVec 16) : BitVec 4 := h.extractLsb' 3 4

/-- The number of the operation in an instruction. -/
def HighOp.code : HighOp → Nat
  | add => 0
  | cmp => 1
  | mov => 2

/-- `h` is this operation, with a high register on one side. -/
structure IsHigh (h : BitVec 16) (o : HighOp) : Prop where
  format : field h 10 6 = 17
  op : field h 8 2 = o.code
  high : field h 6 2 ≠ 0

/-- A register as the instruction at `pc` reads it. -/
def readHigh (s : State U) (pc : ARMword) (r : RegNo) : ARMword :=
  if r = 15 then pc + 4 else s.reg r

/-- A result; into register 15 it is a branch. -/
def writeHigh (s : State U) (rd : RegNo) (v : ARMword) : State U :=
  if rd = 15 then (s.setReg 15 (v &&& 0xFFFFFFFE)).flushPipe else s.setReg rd v

/-- What the architecture makes of a high register operation. -/
def highEffect (s : State U) (pc : ARMword) (o : HighOp) (rd rs : RegNo) : State U :=
  match o with
  | .add => writeHigh s rd (readHigh s pc rd + readHigh s pc rs)
  | .cmp => s.withSum (readHigh s pc rd) (~~~readHigh s pc rs) true
  | .mov => writeHigh s rd (readHigh s pc rs)

/-- The decoder and the main switch carry `h` out so, whatever comes behind it. -/
def HighExact (ops : MmuOps U) (s : State U) (pc : ARMword) (h : BitVec 16) (o : HighOp) : Prop :=
  ∀ x : BitVec 16, ∃ w, s.thumbDecode pc (fetchedWord s.bigendSig h x) = .decoded w ∧
    bits w 28 31 = 0xE ∧
    s.mainswitch ops pc w = some (highEffect s pc o (highRd h).toFin (highRs h).toFin)

variable {ops : MmuOps U} {s : State U} {pc : ARMword} {h : BitVec 16} {o : HighOp}

/-! ## Words -/

/-- The word of an operation. -/
def HighOp.word : HighOp → BitVec 12
  | add => 0xE08
  | cmp => 0xE15
  | mov => 0xE1A

theorem highRd_eq (h : BitVec 16) :
    ((h.setWidth 32 &&& 0x0007) + if isSet (h.setWidth 32) 0x80 then 8 else 0 : ARMword) =
      (highRd h).setWidth 32 := by
  have hb : isSet (h.setWidth 32) 0x80 = h.getLsbD 7 :=
    ThumbFormat.isSet_twoPow h (k := 7) (by decide)
  rw [hb, BitVec.add_eq_or_of_and_eq_zero]
  · apply BitVec.eq_of_getLsbD_eq
    intro i hi
    simp only [highRd, BitVec.getLsbD_or, BitVec.getLsbD_and, BitVec.getLsbD_setWidth,
      BitVec.getLsbD_append, BitVec.getLsbD_extractLsb', BitVec.getLsbD_ofBool]
    cases h7 : h.getLsbD 7 <;> interval_cases i <;> simp
  · apply BitVec.eq_of_getLsbD_eq
    intro i hi
    simp only [BitVec.getLsbD_and, BitVec.getLsbD_setWidth]
    cases h.getLsbD 7 <;> interval_cases i <;> simp

theorem highRs_eq (h : BitVec 16) :
    (((h.setWidth 32 &&& 0x0038) >>> 3) + if isSet (h.setWidth 32) 0x40 then 8 else 0 : ARMword) =
      (highRs h).setWidth 32 := by
  have hb : isSet (h.setWidth 32) 0x40 = h.getLsbD 6 :=
    ThumbFormat.isSet_twoPow h (k := 6) (by decide)
  rw [hb, BitVec.add_eq_or_of_and_eq_zero]
  · apply BitVec.eq_of_getLsbD_eq
    intro i hi
    simp only [highRs, BitVec.getLsbD_or, BitVec.getLsbD_and, BitVec.getLsbD_setWidth,
      BitVec.getLsbD_ushiftRight, BitVec.getLsbD_extractLsb']
    cases h6 : h.getLsbD 6 <;> interval_cases i <;> simp [h6]
    all_goals simpa using h6
  · apply BitVec.eq_of_getLsbD_eq
    intro i hi
    simp only [BitVec.getLsbD_and, BitVec.getLsbD_setWidth, BitVec.getLsbD_ushiftRight]
    cases h.getLsbD 6 <;> interval_cases i <;> simp

theorem or_eq_armWord (op : BitVec 12) (rd rs : BitVec 4) :
    op ++ 0#20 ||| rd.setWidth 32 <<< 16 ||| rd.setWidth 32 <<< 12 ||| rs.setWidth 32 =
      armWord op rd rd (rs.setWidth 12) := by
  refine ThumbFormat.eq_armWord fun i hi => ?_
  simp only [BitVec.getLsbD_append, BitVec.getLsbD_or, BitVec.getLsbD_shiftLeft,
    BitVec.getLsbD_setWidth]
  interval_cases i <;> simp

theorem format5_high (isV5 : Bool) (hh : IsHigh h o) :
    ThumbFormat.format5 isV5 (h.setWidth 32) =
      some (armWord o.word (highRd h) (highRd h) ((highRs h).setWidth 12)) := by
  have hsub : field h 6 4 / 4 = field h 8 2 := field_div h 6 2 2
  have hlow : field h 6 4 % 4 = field h 6 2 := field_mod (n := 2) h 6 (by decide)
  have hop := hh.op
  have hhi := hh.high
  have hlt : field h 6 2 < 4 := (h.extractLsb' 6 2).isLt
  rw [ThumbFormat.format5, ThumbFormat.code_eq h 0x03C0 6 4 (by decide)]
  rw [highRd_eq, highRs_eq, ← or_eq_armWord]
  cases o with
  | add =>
    rcases (show field h 6 4 = 1 ∨ field h 6 4 = 2 ∨ field h 6 4 = 3 by
      simp only [HighOp.code] at hop; omega) with h6 | h6 | h6 <;> rw [h6] <;> rfl
  | cmp =>
    rcases (show field h 6 4 = 5 ∨ field h 6 4 = 6 ∨ field h 6 4 = 7 by
      simp only [HighOp.code] at hop; omega) with h6 | h6 | h6 <;> rw [h6] <;> rfl
  | mov =>
    rcases (show field h 6 4 = 9 ∨ field h 6 4 = 10 ∨ field h 6 4 = 11 by
      simp only [HighOp.code] at hop; omega) with h6 | h6 | h6 <;> rw [h6] <;> rfl

/-! ## Decoding -/

theorem decode_high (s : State U) (pc : ARMword) (hh : IsHigh h o) (x : BitVec 16) :
    s.thumbDecode pc (fetchedWord s.bigendSig h x) =
      .decoded (armWord o.word (highRd h) (highRd h) ((highRs h).setWidth 12)) := by
  have h11 : field h 11 5 = 8 := by
    have : field h 10 6 / 2 = field h 11 5 := field_div h 10 1 5
    have := hh.format
    omega
  have h10 : ¬ h.setWidth 32 &&& 0x400 = 0 := by
    have hb : field h 10 6 = 2 * field h 11 5 + if h.getLsbD 10 then 1 else 0 :=
      field_succ h 10 5
    have ht : h.getLsbD 10 = true := by
      rw [hh.format, h11] at hb
      by_contra hf
      rw [if_neg hf] at hb
      omega
    rw [show (0x400 : ARMword) = BitVec.twoPow 32 10 from rfl,
      and_twoPow_eq_zero h (by decide), ht]
    decide
  rw [State.thumbDecode]
  dsimp only
  rw [fetchedWord_instr, opcode_eq, h11, if_neg h10, format5_high _ hh]
  rfl

/-! ## Execution -/

theorem dpRHS_high (op : BitVec 12) (h5 : op.getLsbD 5 = false) (rd rs : BitVec 4) :
    s.dpRHS (armWord op rd rd (rs.setWidth 12)) = (s.reg rs.toFin, s) := by
  obtain ⟨hlow, hrm⟩ := State.reg_fields op rd rd rs
  have hbit : (armWord op rd rd (rs.setWidth 12)).getLsbD 25 = false := by
    rw [getLsbD_armWord_op _ _ _ _ (by omega)]
    exact h5
  rw [State.dpRHS, hbit, if_neg Bool.false_ne_true, State.dpRegRHS, if_pos hlow, hrm]

theorem bits_high (op : BitVec 12) (rd rs : BitVec 4) :
    bits (armWord op rd rd (rs.setWidth 12)) 4 7 = 0 := by
  rw [bits_armWord_low _ _ _ _ (by omega)]
  have : (rs.setWidth 12).extractLsb' 4 4 = 0 := by
    apply BitVec.eq_of_getLsbD_eq
    intro i hi
    simp
  exact congrArg BitVec.toNat this

/-- `ADD` and `MOV` -/
theorem mainswitch_high (op : BitVec 12) (rd rs : BitVec 4) (h5 : op.extractLsb' 5 3 = 0)
    (h0 : op.getLsbD 0 = false) {o : DpOp} (ho : DpOp.ofInstr (armWord op 0 0 0) = o)
    (ht : o.isTest = false) (hs : s.tFlag = true) :
    s.mainswitch ops pc (armWord op rd rd (rs.setWidth 12)) =
      some (writeHigh s rd.toFin (o.value (s.lhs (armWord op rd rd (rs.setWidth 12)))
        (s.reg rs.toFin) s.cFlag)) := by
  subst ho
  have h5' : op.getLsbD 5 = false := by
    have := congrArg (BitVec.getLsbD · 0) h5
    simpa using this
  rw [← ofInstr_armWord op rd rd (rs.setWidth 12)] at ht ⊢
  rw [State.mainswitch_reg _ _ (State.reg_fields op rd rd rs).1 (bits_high op rd rs), ht,
    if_neg Bool.false_ne_true, State.dataProcessing, dpRHS_high op h5']
  · dsimp only
    rw [State.writeDest, destReg_armWord, writeHigh]
    split
    · rw [State.writeR15, State.alignPC, hs, if_pos rfl]
    · rfl
  · rw [bits_armWord_op _ _ _ _ (by omega)]
    exact congrArg BitVec.toNat h5
  · rw [getLsbD_armWord_op _ _ _ _ (by omega)]
    exact h0

/-- What the source does with register 15 on the left. -/
theorem lhs_high (hs : Fetched s pc) (op : BitVec 12) (rd : BitVec 4) (low : BitVec 12) :
    s.lhs (armWord op rd rd low) =
      if rd.toFin = 15 then (pc + 4) &&& 0xFFFFFFFC else readHigh s pc rd.toFin := by
  rw [State.lhs, lhsReg_armWord, hs.pc]
  split
  · rfl
  · rename_i hne
    exact (if_neg hne).symm

theorem reg_eq_readHigh (hs : Fetched s pc) (r : RegNo) : s.reg r = readHigh s pc r := by
  rw [readHigh]
  split
  · rename_i h15
    rw [h15, hs.pc]
  · rfl

/-- The decoded word settles what is carried out. -/
theorem highExact_iff (hh : IsHigh h o) : HighExact ops s pc h o ↔
    s.mainswitch ops pc (armWord o.word (highRd h) (highRd h) ((highRs h).setWidth 12)) =
      some (highEffect s pc o (highRd h).toFin (highRs h).toFin) := by
  constructor
  · intro he
    obtain ⟨w, hw, -, hx⟩ := he 0
    rw [decode_high s pc hh] at hw
    injection hw with hw
    rw [hw]
    exact hx
  · intro he x
    refine ⟨_, decode_high s pc hh x, ?_, he⟩
    rw [bits_armWord_op _ _ _ _ (by omega)]
    cases o <;> decide

theorem exact_mov (hs : Fetched s pc) (hh : IsHigh h .mov) : HighExact ops s pc h .mov := by
  rw [highExact_iff hh]
  refine (mainswitch_high 0xE1A _ _ (by decide) (by decide) (o := .mov) (by decide) rfl
    hs.tFlag).trans ?_
  rw [reg_eq_readHigh hs (highRs h).toFin]
  rfl

theorem mainswitch_add (hs : Fetched s pc) (rd rs : BitVec 4) :
    s.mainswitch ops pc (armWord 0xE08 rd rd (rs.setWidth 12)) = some (writeHigh s rd.toFin
      ((if rd.toFin = 15 then (pc + 4) &&& 0xFFFFFFFC else readHigh s pc rd.toFin) +
        readHigh s pc rs.toFin)) := by
  refine (mainswitch_high 0xE08 _ _ (by decide) (by decide) (o := .add) (by decide) rfl
    hs.tFlag).trans ?_
  rw [lhs_high hs, reg_eq_readHigh hs rs.toFin]
  rfl

/-- Cutting to a word takes 2 away from an address that is half a word on. -/
theorem cut_word (hpc : pc.getLsbD 0 = false) :
    (pc + 4) &&& 0xFFFFFFFC = if pc.getLsbD 1 then pc + 2 else pc + 4 := by
  have h0 : pc.toNat % 2 = 0 := by
    rw [← BitVec.testBit_toNat, Nat.testBit_zero] at hpc
    have := of_decide_eq_false hpc
    omega
  have hcut := Word.toNat_and_high (pc + 4) 2
  rw [show BitVec.allOnes 32 <<< 2 = 0xFFFFFFFC by decide] at hcut
  have h1 : pc.getLsbD 1 = decide (pc.toNat / 2 % 2 = 1) := by
    rw [← BitVec.testBit_toNat, Nat.testBit_succ, Nat.testBit_zero]
  apply BitVec.eq_of_toNat_eq
  rw [hcut, h1]
  simp only [decide_eq_true_eq]
  split
  · bv_omega
  · bv_omega

/-- Two branches that are 2 apart differ. -/
theorem branch_ne (a : ARMword) : (a + 2) &&& 0xFFFFFFFE ≠ a &&& 0xFFFFFFFE := by
  have hcut := fun x : ARMword => Word.toNat_and_high x 1
  rw [show BitVec.allOnes 32 <<< 1 = 0xFFFFFFFE by decide] at hcut
  intro he
  have := congrArg BitVec.toNat he
  rw [hcut, hcut] at this
  bv_omega

theorem exact_add (hs : Fetched s pc) (hpc : pc.getLsbD 0 = false) (hh : IsHigh h .add) :
    HighExact ops s pc h .add ↔ ¬ ((highRd h).toFin = 15 ∧ pc.getLsbD 1 = true) := by
  rw [highExact_iff hh]
  show s.mainswitch ops pc (armWord 0xE08 _ _ _) = _ ↔ _
  rw [mainswitch_add hs, highEffect]
  by_cases h15 : (highRd h).toFin = 15
  · rw [if_pos h15, h15, cut_word hpc]
    cases hp : pc.getLsbD 1
    · refine iff_of_true ?_ (by simp)
      rfl
    · refine iff_of_false (fun he => ?_) (by simp)
      have hr : (pc + 2 + readHigh s pc (highRs h).toFin) &&& 0xFFFFFFFE =
          (pc + 4 + readHigh s pc (highRs h).toFin) &&& 0xFFFFFFFE := by
        have := congrArg (fun t : State U => t.reg 15) (Option.some.inj he)
        exact this
      have ha : pc + 4 + readHigh s pc (highRs h).toFin =
          pc + 2 + readHigh s pc (highRs h).toFin + 2 := by bv_omega
      rw [ha] at hr
      exact branch_ne _ hr.symm
  · rw [if_neg h15]
    exact iff_of_true rfl fun hc => h15 hc.1

theorem mainswitch_cmp (rd rs : BitVec 4) :
    s.mainswitch ops pc (armWord 0xE15 rd rd (rs.setWidth 12)) =
        some (s.test (armWord 0xE15 rd rd (rs.setWidth 12)) .cmp) ∧
      s.dpRHS (armWord 0xE15 rd rd (rs.setWidth 12)) = (s.reg rs.toFin, s) := by
  obtain ⟨hm, hr, -⟩ := @State.dp_reg U ops s pc 0xE15 rd rd rs .cmp (by decide)
  exact ⟨hm.trans (congrArg some (if_pos rfl)), hr⟩

theorem exact_cmp (hs : Fetched s pc) (hh : IsHigh h .cmp) (h15 : (highRd h).toFin ≠ 15) :
    HighExact ops s pc h .cmp := by
  rw [highExact_iff hh]
  obtain ⟨hm, hr⟩ := @mainswitch_cmp U ops s pc (highRd h) (highRs h)
  refine hm.trans ?_
  rw [State.test_arith rfl rfl (by rw [destReg_armWord]; exact h15) hr, lhs_high hs, if_neg h15,
    reg_eq_readHigh hs (highRs h).toFin]
  rfl

/-- `CMPP` -/
theorem mainswitch_cmpp (h15 : (highRd h).toFin = 15) :
    s.mainswitch ops pc (armWord 0xE15 (highRd h) (highRd h) ((highRs h).setWidth 12)) =
      some s.restoreCPSR := by
  refine (mainswitch_cmp (highRd h) (highRs h)).1.trans ?_
  rw [State.test, if_pos (by rw [destReg_armWord]; exact h15)]

/-- In User mode, with every register the same and no flag set. -/
def level (u : U) (pc : ARMword) : State U :=
  { State.newState (.cleared u) with reg := fun _ => pc + 4, tFlag := true, mode := USER32MODE }

theorem zFlag_eq_getLsbD (hm : s.mode &&& MODEBITS = s.mode) :
    s.zFlag = s.getCPSR.getLsbD 30 := by
  rw [State.getLsbD_getCPSR s (by decide), State.getLsbD_mode hm (by decide)]
  simp

theorem not_exact_cmpp (u : U) (hh : IsHigh h .cmp) (h15 : (highRd h).toFin = 15) :
    ¬ HighExact ops (level u pc) pc h .cmp := by
  rw [highExact_iff hh]
  show ¬ (level u pc).mainswitch ops pc (armWord 0xE15 _ _ _) = _
  rw [mainswitch_cmpp h15]
  intro he
  have h0 : (level u pc).restoreCPSR.zFlag = false := by
    have hc : (level u pc).getSPSR (level u pc).mode = (level u pc).getCPSR :=
      if_neg (show ¬ (modeToBank (USER32MODE &&& MODEBITS)).canAccessSpsr = true by decide)
    obtain ⟨hm, hp⟩ := State.cpsrAltered_psr
      (s := { level u pc with cpsr := (level u pc).getSPSR (level u pc).mode }) rfl
    have hrm : (level u pc).restoreCPSR.mode &&& MODEBITS = (level u pc).restoreCPSR.mode := by
      rw [State.restoreCPSR, hm, BitVec.and_assoc, BitVec.and_self]
    rw [zFlag_eq_getLsbD hrm, State.restoreCPSR, hp, BitVec.getLsbD_and, hc,
      ← zFlag_eq_getLsbD (show USER32MODE &&& MODEBITS = USER32MODE by decide)]
    rfl
  have hr : ∀ r, readHigh (level u pc) pc r = pc + 4 := fun r => ite_self _
  have hz : (highEffect (level u pc) pc .cmp (highRd h).toFin (highRs h).toFin).zFlag = true := by
    rw [highEffect, hr, hr]
    show (AddWithCarry.sum (pc + 4) (~~~(pc + 4)) true == 0) = true
    rw [sum_not_true, BitVec.sub_self]
    rfl
  rw [← Option.some.inj he, h0] at hz
  cases hz

/-- The instructions that read register 15 right, wherever it stands: all but the additions to
register 15 at an address that is no multiple of 4, and the comparisons of register 15. -/
theorem high_regs_exact_iff [Inhabited U] (ops : MmuOps U) {pc : ARMword}
    (hpc : pc.getLsbD 0 = false) {h : BitVec 16} {o : HighOp} (hh : IsHigh h o) :
    (∀ s : State U, Fetched s pc → HighExact ops s pc h o) ↔
      ¬ ((highRd h).toFin = 15 ∧ (o = .cmp ∨ o = .add ∧ pc.getLsbD 1 = true)) := by
  have hl : Fetched (level (default : U) pc) pc := ⟨rfl, rfl, rfl⟩
  cases o with
  | add =>
    constructor
    · intro he hc
      obtain ⟨h15, hc | ⟨-, h1⟩⟩ := hc
      · cases hc
      · exact (exact_add hl hpc hh).mp (he _ hl) ⟨h15, h1⟩
    · intro hc s hs
      exact (exact_add hs hpc hh).mpr fun h1 => hc ⟨h1.1, .inr ⟨rfl, h1.2⟩⟩
  | cmp =>
    constructor
    · intro he hc
      exact not_exact_cmpp default hh hc.1 (he _ hl)
    · intro hc s hs
      exact exact_cmp hs hh fun h15 => hc ⟨h15, .inl rfl⟩
  | mov =>
    constructor
    · intro _ hc
      obtain ⟨-, hc | ⟨hc, -⟩⟩ := hc <;> cases hc
    · intro _ s hs
      exact exact_mov hs hh

theorem high_regs_exact_iff_add :
    (∀ s : State Arm7100, Fetched s 4 → HighExact Arm7100.ops s 4 0x4487 .add) ↔
      ¬ ((highRd 0x4487).toFin = 15 ∧
        (HighOp.add = .cmp ∨ HighOp.add = .add ∧ (4 : ARMword).getLsbD 1 = true)) :=
  haveI : Inhabited Arm7100 := ⟨(Arm7100.init .cleared).u⟩
  high_regs_exact_iff Arm7100.ops (by decide) ⟨by decide, by decide, by decide⟩

/-- `ADD pc, r0` half a word on branches 2 too low, and `CMP pc, r0` compares nothing. -/
theorem high_regs_pc_on_left :
    let s := level (Arm7100.init .cleared).u
    Fetched (s 2) 2 ∧ IsHigh 0x4487 .add ∧ ¬ HighExact Arm7100.ops (s 2) 2 0x4487 .add ∧
      Fetched (s 0) 0 ∧ IsHigh 0x4587 .cmp ∧ ¬ HighExact Arm7100.ops (s 0) 0 0x4587 .cmp := by
  intro s
  have ha : IsHigh 0x4487 .add := ⟨by decide, by decide, by decide⟩
  have hc : IsHigh 0x4587 .cmp := ⟨by decide, by decide, by decide⟩
  have hs : ∀ pc, Fetched (s pc) pc := fun _ => ⟨rfl, rfl, rfl⟩
  refine ⟨hs 2, ha, fun he => ?_, hs 0, hc, not_exact_cmpp _ hc (by decide)⟩
  exact (exact_add (hs 2) (by decide) ha).mp he (by decide)

end Thumb

end SkyEye
