import SkyEye.Thumb.DataProcessing

/-!
# Transfers of Thumb

The formats 6 to 11, carried out by the main switch, have the effect that the architecture
defines.
-/

namespace SkyEye

variable {U : Type}

/-! ## Words and bytes -/

namespace State

variable {ops : MmuOps U} {s : State U} {pc : ARMword} {rn rd rm : BitVec 4}

theorem singleAccess_armWord (op : BitVec 12) (rn rd : BitVec 4) (lo : BitVec 12)
    (address : ARMword) : s.singleAccess ops (armWord op rn rd lo) address =
      if op.getLsbD 0 then
        if op.getLsbD 2 then s.loadByte ops (armWord op rn rd lo) address false
        else s.loadWord ops (armWord op rn rd lo) address
      else if op.getLsbD 2 then s.storeByte ops (armWord op rn rd lo) address
      else s.storeWord ops (armWord op rn rd lo) address := by
  rw [singleAccess, getLsbD_armWord_op _ _ _ _ (by omega), getLsbD_armWord_op _ _ _ _ (by omega)]

/-- The bits P, U and W of an operation: the offset is added before the access, and the base
stays. -/
def OffsetUp (op : BitVec 12) : Prop :=
  op.getLsbD 4 = true ∧ op.getLsbD 3 = true ∧ op.getLsbD 1 = false

instance (op : BitVec 12) : Decidable (OffsetUp op) := inferInstanceAs (Decidable (_ ∧ _))

/-- A transfer with the offset added before it and no write-back. -/
theorem mainswitch_singleDatum {op : BitVec 12} {lo : BitVec 12} (hup : OffsetUp op)
    (h : op.extractLsb' 5 3 = 2 ∨ op.extractLsb' 5 3 = 3 ∧ lo.getLsbD 4 = false) :
    s.mainswitch ops pc (armWord op rn rd lo) =
      some (s.singleAccess ops (armWord op rn rd lo)
        (s.lhs (armWord op rn rd lo) + s.lsRHS (armWord op rn rd lo))).2 := by
  obtain ⟨h24, h23, h21⟩ := hup
  have hbits : bits (armWord op rn rd lo) 25 27 = (op.extractLsb' 5 3).toNat :=
    bits_armWord_op _ _ _ _ (by omega)
  have h25 : (armWord op rn rd lo).getLsbD 25 = op.getLsbD 5 :=
    getLsbD_armWord_op _ _ _ _ (by omega)
  have h4 : (armWord op rn rd lo).getLsbD 4 = lo.getLsbD 4 :=
    getLsbD_armWord_low _ _ _ _ (by omega)
  have hu : ((armWord op rn rd lo).getLsbD 25 && (armWord op rn rd lo).getLsbD 4) = false := by
    rw [h25, h4]
    rcases h with h | ⟨-, h⟩
    · have := congrArg (BitVec.getLsbD · 0) h
      have h5 : op.getLsbD 5 = false := by simpa using this
      rw [h5, Bool.false_and]
    · rw [h, Bool.and_false]
  have hne : bits (armWord op rn rd lo) 25 27 ≠ 0 := by
    rw [hbits]
    rcases h with h | ⟨h, -⟩ <;> rw [h] <;> decide
  have hm : s.mainswitch ops pc (armWord op rn rd lo) =
      some (s.singleDataTransfer ops (armWord op rn rd lo)) := by
    rw [mainswitch, not_double (.inr hne), if_neg Bool.false_ne_true, hbits]
    rcases h with h | ⟨h, -⟩ <;> rw [h] <;> rfl
  have b24 : (armWord op rn rd lo).getLsbD 24 = true :=
    (getLsbD_armWord_op _ _ _ _ (by omega)).trans h24
  have b23 : (armWord op rn rd lo).getLsbD 23 = true :=
    (getLsbD_armWord_op _ _ _ _ (by omega)).trans h23
  have b21 : (armWord op rn rd lo).getLsbD 21 = false :=
    (getLsbD_armWord_op _ _ _ _ (by omega)).trans h21
  rw [hm, singleDataTransfer, hu, if_neg Bool.false_ne_true, b24, if_pos rfl, preIndexed, b21,
    if_neg Bool.false_ne_true, offsetBy, b23, if_pos rfl]

theorem lsRHS_imm {op : BitVec 12} (h : op.getLsbD 5 = false) (rn rd : BitVec 4)
    (lo : BitVec 12) : s.lsRHS (armWord op rn rd lo) = lo.setWidth 32 := by
  rw [lsRHS, getLsbD_armWord_op _ _ _ _ (by omega), if_neg (by rw [h]; decide), lsImmRHS,
    setWidth_armWord]

theorem lsRHS_reg {op : BitVec 12} (h : op.getLsbD 5 = true) (rn rd rm : BitVec 4) :
    s.lsRHS (armWord op rn rd (rm.setWidth 12)) = s.reg rm.toFin := by
  obtain ⟨h411, hrm⟩ := reg_fields op rn rd rm
  rw [lsRHS, getLsbD_armWord_op _ _ _ _ (by omega), if_pos h, lsRegRHS, if_pos h411, hrm]

end State

namespace Thumb

open ThumbFormat State

variable {ops : MmuOps U} {s : State U} {pc : ARMword} {h : BitVec 16}

/-- What the transfers rely on: the memory system, no abort pending, and register 15. -/
structure Ready (ops : MmuOps U) (s : State U) (pc : ARMword) : Prop where
  narrow : ops.Narrow
  aborted : s.aborted = 0
  pc : s.reg 15 = pc + 4

theorem does_single (hs : Ready ops s pc) (op : BitVec 12) (rn rd : BitVec 4) {lo : BitVec 12}
    (k : ThumbTransfer) (hup : OffsetUp op)
    (hk : ∀ a, s.singleAccess ops (armWord op rn rd lo) a =
      access ops s (armWord op rn rd lo) a k) (o : ThumbOperand)
    (ho : op.extractLsb' 5 3 = 2 ∧ operandValue s o = lo.setWidth 32 ∨
      op.extractLsb' 5 3 = 3 ∧ ∃ rm : BitVec 4, lo = rm.setWidth 12 ∧ o = .reg rm.toFin)
    (hd : rd.toFin ≠ 15) (hp : predictable ops pc s (.transfer k rd.toFin rn.toFin o) = true) :
    Carries ops s pc (armWord op rn rd lo)
      (.transfer k rd.toFin rn.toFin o) := by
  have hlo : op.extractLsb' 5 3 = 2 ∨ op.extractLsb' 5 3 = 3 ∧ lo.getLsbD 4 = false := by
    rcases ho with ⟨h, -⟩ | ⟨h, rm, rfl, -⟩
    · exact .inl h
    · exact .inr ⟨h, by simp⟩
  have hoff : s.lsRHS (armWord op rn rd lo) = operandValue s o := by
    rcases ho with ⟨h, ho⟩ | ⟨h, rm, rfl, rfl⟩
    · have := congrArg (BitVec.getLsbD · 0) h
      rw [ho, lsRHS_imm (by simpa using this)]
    · have := congrArg (BitVec.getLsbD · 0) h
      exact lsRHS_reg (by simpa using this) rn rd rm
  have hm := @mainswitch_singleDatum U ops s pc rn rd op lo hup hlo
  rw [hk, lhs_armWord hs.pc, hoff] at hm
  exact does_access hs.narrow hs.aborted (destReg_armWord ..) hd (aligned_of_predictable hp) hm

theorem setWidth_up {n : Nat} (x : BitVec n) (hn : n ≤ 12) :
    (x.setWidth 12).setWidth 32 = x.setWidth 32 := by
  have hx := x.isLt
  have hp : 2 ^ n ≤ 2 ^ 12 := Nat.pow_le_pow_right (by omega) hn
  apply BitVec.eq_of_toNat_eq
  rw [BitVec.toNat_setWidth, BitVec.toNat_setWidth, BitVec.toNat_setWidth]
  omega

theorem fours5_eq : number h 6 5 4 = (h.extractLsb' 6 5 ++ 0#2).setWidth 32 := by
  refine number_eq h 6 5 4 ?_
  have := (h.extractLsb' 6 5).isLt
  rw [BitVec.toNat_setWidth, BitVec.toNat_append, show (0#2).toNat = 0 from rfl, Nat.or_zero,
    Nat.shiftLeft_eq, field]
  omega

theorem number5_eq : number h 6 5 1 = (h.extractLsb' 6 5).setWidth 32 := by
  refine number_eq h 6 5 1 ?_
  have := (h.extractLsb' 6 5).isLt
  rw [BitVec.toNat_setWidth, field]
  omega

theorem testBit_field {lo len i : Nat} (hi : i < len) :
    (field h lo len).testBit i = h.getLsbD (lo + i) := by
  rw [field, BitVec.testBit_toNat, BitVec.getLsbD_extractLsb', decide_eq_true hi, Bool.true_and]

/-- `LDR` from the program counter up -/
theorem does_format6 (hs : Ready ops s pc)
    (hp : predictable ops pc s (.transfer .ldr (lowReg h 8) 15 (.imm (number h 0 8 4))) = true) :
    Carries ops s pc (format6 (h.setWidth 32))
      (.transfer .ldr (lowReg h 8) 15 (.imm (number h 0 8 4))) := by
  rw [format6_eq]
  refine does_single hs 0xE59 15 (low h 8) .ldr (by decide)
    (fun a => singleAccess_armWord ..) (.imm (number h 0 8 4)) (.inl ⟨by decide, ?_⟩)
    (low_ne h 8) hp
  rw [operandValue, fours8_eq, setWidth_up _ (by omega)]

/-- Words and bytes with a register offset -/
theorem does_format7 (hs : Ready ops s pc) (hp : predictable ops pc s
      (.transfer (ThumbTransfer.ofBits (2 * field h 10 2)) (lowReg h 0) (lowReg h 3)
        (.reg (lowReg h 6))) = true) :
    Carries ops s pc (format7 (h.setWidth 32))
      (.transfer (ThumbTransfer.ofBits (2 * field h 10 2)) (lowReg h 0) (lowReg h 3)
        (.reg (lowReg h 6))) := by
  rw [format7_eq]
  have hlt : field h 10 2 < 4 := (h.extractLsb' 10 2).isLt
  generalize field h 10 2 = n at hlt hp ⊢
  interval_cases n
  · exact does_single hs 0xE78 (low h 3) (low h 0) .str (by decide)
      (fun a => singleAccess_armWord ..) (.reg (lowReg h 6)) (.inr ⟨by decide, low h 6, rfl, rfl⟩)
      (low_ne h 0) hp
  · exact does_single hs 0xE7C (low h 3) (low h 0) .strb (by decide)
      (fun a => singleAccess_armWord ..) (.reg (lowReg h 6)) (.inr ⟨by decide, low h 6, rfl, rfl⟩)
      (low_ne h 0) hp
  · exact does_single hs 0xE79 (low h 3) (low h 0) .ldr (by decide)
      (fun a => singleAccess_armWord ..) (.reg (lowReg h 6)) (.inr ⟨by decide, low h 6, rfl, rfl⟩)
      (low_ne h 0) hp
  · exact does_single hs 0xE7D (low h 3) (low h 0) .ldrb (by decide)
      (fun a => singleAccess_armWord ..) (.reg (lowReg h 6)) (.inr ⟨by decide, low h 6, rfl, rfl⟩)
      (low_ne h 0) hp

/-- The instructions of format 9, by the bits 11 and 12. -/
def instr9 (h : BitVec 16) : Nat → Thumb
  | 0 => .transfer .str (lowReg h 0) (lowReg h 3) (.imm (number h 6 5 4))
  | 1 => .transfer .ldr (lowReg h 0) (lowReg h 3) (.imm (number h 6 5 4))
  | 2 => .transfer .strb (lowReg h 0) (lowReg h 3) (.imm (number h 6 5 1))
  | _ => .transfer .ldrb (lowReg h 0) (lowReg h 3) (.imm (number h 6 5 1))

/-- Words and bytes with a number as offset -/
theorem does_format9 (hs : Ready ops s pc)
    (hp : predictable ops pc s (instr9 h (field h 11 2)) = true) :
    Carries ops s pc (format9 (h.setWidth 32))
      (instr9 h (field h 11 2)) := by
  have hbit : h.getLsbD 12 = (field h 11 2).testBit 1 :=
    (@testBit_field h 11 2 1 (by omega)).symm
  rw [format9_eq, hbit]
  have hlt : field h 11 2 < 4 := (h.extractLsb' 11 2).isLt
  have hword : operandValue s (.imm (number h 6 5 4)) =
      ((h.extractLsb' 6 5 ++ 0#2).setWidth 12).setWidth 32 := by
    rw [operandValue, fours5_eq, setWidth_up _ (by omega)]
  have hbyte : operandValue s (.imm (number h 6 5 1)) =
      ((h.extractLsb' 6 5).setWidth 12).setWidth 32 := by
    rw [operandValue, number5_eq, setWidth_up _ (by omega)]
  generalize field h 11 2 = n at hlt hp ⊢
  interval_cases n
  · exact does_single hs 0xE58 (low h 3) (low h 0) .str (by decide)
      (fun a => singleAccess_armWord ..) _ (.inl ⟨by decide, hword⟩) (low_ne h 0) hp
  · exact does_single hs 0xE59 (low h 3) (low h 0) .ldr (by decide)
      (fun a => singleAccess_armWord ..) _ (.inl ⟨by decide, hword⟩) (low_ne h 0) hp
  · exact does_single hs 0xE5C (low h 3) (low h 0) .strb (by decide)
      (fun a => singleAccess_armWord ..) _ (.inl ⟨by decide, hbyte⟩) (low_ne h 0) hp
  · exact does_single hs 0xE5D (low h 3) (low h 0) .ldrb (by decide)
      (fun a => singleAccess_armWord ..) _ (.inl ⟨by decide, hbyte⟩) (low_ne h 0) hp

/-- Words from the stack pointer up -/
theorem does_format11 (hs : Ready ops s pc) (hp : predictable ops pc s
      (.transfer (if h.getLsbD 11 then .ldr else .str) (lowReg h 8) 13
        (.imm (number h 0 8 4))) = true) :
    Carries ops s pc (format11 (h.setWidth 32))
      (.transfer (if h.getLsbD 11 then .ldr else .str) (lowReg h 8) 13
        (.imm (number h 0 8 4))) := by
  have hoff : operandValue s (.imm (number h 0 8 4)) =
      ((h.extractLsb' 0 8 ++ 0#2).setWidth 12).setWidth 32 := by
    rw [operandValue, fours8_eq, setWidth_up _ (by omega)]
  rw [format11_eq]
  generalize h.getLsbD 11 = b at hp ⊢
  cases b with
  | false =>
    exact does_single hs 0xE58 13 (low h 8) .str (by decide)
      (fun a => singleAccess_armWord ..) _ (.inl ⟨by decide, hoff⟩) (low_ne h 8) hp
  | true =>
    exact does_single hs 0xE59 13 (low h 8) .ldr (by decide)
      (fun a => singleAccess_armWord ..) _ (.inl ⟨by decide, hoff⟩) (low_ne h 8) hp

end Thumb

/-! ## Halfwords and signed bytes -/

namespace State

variable {ops : MmuOps U} {s : State U} {pc : ARMword} {op : BitVec 12}
  {rn rd hi c rm : BitVec 4}

theorem half_fields (hi c rm : BitVec 4) {lo : BitVec 12} (hlo : hi ++ c ++ rm = lo) :
    lo.extractLsb' 0 4 = rm ∧ lo.extractLsb' 4 4 = c ∧ lo.extractLsb' 8 4 = hi ∧
      lo.extractLsb' 4 8 = hi ++ c ∧ lo.extractLsb' 5 2 = c.extractLsb' 1 2 := by
  have hbit (i : Nat) : lo.getLsbD i = if i < 4 then rm.getLsbD i
      else if i < 8 then c.getLsbD (i - 4) else hi.getLsbD (i - 8) := by
    rw [← hlo]
    simp only [BitVec.getLsbD_append]
    grind
  refine ⟨?_, ?_, ?_, ?_, ?_⟩
  all_goals
    apply BitVec.eq_of_getLsbD_eq
    intro i hi
    simp only [BitVec.getLsbD_extractLsb', BitVec.getLsbD_append, hbit]
    interval_cases i <;> simp

theorem getLS7RHS_armWord (op : BitVec 12) (rn rd hi c rm : BitVec 4) :
    s.getLS7RHS (armWord op rn rd (hi ++ c ++ rm)) =
      if op.getLsbD 2 then (hi ++ rm : BitVec 8).setWidth 32 else s.reg rm.toFin := by
  obtain ⟨hrm, -, hhi, -, -⟩ := half_fields hi c rm rfl
  have hex (w : ARMword) (m : Nat) (hm : m + 4 ≤ 12) :
      (w.setWidth 12).extractLsb' m 4 = w.extractLsb' m 4 := by
    apply BitVec.eq_of_getLsbD_eq
    intro i hi
    rw [BitVec.getLsbD_extractLsb', BitVec.getLsbD_extractLsb', BitVec.getLsbD_setWidth,
      decide_eq_true (show m + i < 12 by omega), Bool.true_and]
  rw [getLS7RHS, getLsbD_armWord_op _ _ _ _ (by omega), rhsReg_armWord, hrm,
    ← hex _ 8 (by omega), ← hex _ 0 (by omega), setWidth_armWord, hrm, hhi]

theorem half_bits (op : BitVec 12) (rn rd hi c rm : BitVec 4) :
    bits (armWord op rn rd (hi ++ c ++ rm)) 4 7 = c.toNat ∧
      bits (armWord op rn rd (hi ++ c ++ rm)) 4 11 = (hi ++ c).toNat ∧
      bits (armWord op rn rd (hi ++ c ++ rm)) 5 6 = (c.extractLsb' 1 2).toNat := by
  obtain ⟨-, hc, -, h8, h56⟩ := half_fields hi c rm rfl
  refine ⟨?_, ?_, ?_⟩
  · exact (bits_armWord_low _ _ _ _ (by omega)).trans (congrArg BitVec.toNat hc)
  · exact (bits_armWord_low _ _ _ _ (by omega)).trans (congrArg BitVec.toNat h8)
  · exact (bits_armWord_low _ _ _ _ (by omega)).trans (congrArg BitVec.toNat h56)

/-- The operation of a halfword transfer, a load or a store. -/
def HalfOp (op : BitVec 12) (load : Bool) : Prop :=
  op.extractLsb' 5 3 = 0 ∧ op.getLsbD 0 = load ∧ OffsetUp op

instance (op : BitVec 12) (load : Bool) : Decidable (HalfOp op load) :=
  inferInstanceAs (Decidable (_ ∧ _))

/-- A store, with the offset added before it and no write-back. -/
theorem mainswitch_strh (ho : HalfOp op false)
    (hhi : op.getLsbD 2 = true ∨ hi = 0) :
    s.mainswitch ops pc (armWord op rn rd (hi ++ 0xB#4 ++ rm)) =
      some (s.storeHalfWord ops (armWord op rn rd (hi ++ 0xB#4 ++ rm))
        (s.lhs (armWord op rn rd (hi ++ 0xB#4 ++ rm)) +
          if op.getLsbD 2 then (hi ++ rm : BitVec 8).setWidth 32 else s.reg rm.toFin)).2 := by
  obtain ⟨h25, h20, h24, h23, h21⟩ := ho
  rw [← getLS7RHS_armWord op rn rd hi 0xB#4 rm]
  obtain ⟨h47, h411, -⟩ := half_bits op rn rd hi 0xB#4 rm
  generalize hw : armWord op rn rd (hi ++ 0xB#4 ++ rm) = w at h47 h411 ⊢
  have hop (i : Nat) (hi : 20 ≤ i) : w.getLsbD i = op.getLsbD (i - 20) := by
    rw [← hw]
    exact getLsbD_armWord_op _ _ _ _ hi
  have h0 : bits w 25 27 = 0 := by
    rw [← hw]
    exact (bits_armWord_op _ _ _ _ (by omega)).trans (congrArg BitVec.toNat h25)
  have hs : isStoreHalfword w = true := by
    rw [isStoreHalfword, hop 22 (by omega)]
    rcases hhi with h | rfl
    · rw [if_pos h, h47]
      rfl
    · rw [h411, h47]
      split <;> rfl
  have h21' : ¬w.getLsbD 21 = true := by
    rw [hop 21 (by omega), h21]
    exact Bool.false_ne_true
  rw [mainswitch_storeHalfword h0 ((hop 20 (by omega)).trans h20) h47 hs, storeHalfwordTransfer,
    if_pos ((hop 24 (by omega)).trans h24), if_neg h21', offsetBy,
    if_pos ((hop 23 (by omega)).trans h23)]

theorem mainswitch_ldrh (ho : HalfOp op true)
    (hhi : op.getLsbD 2 = true ∨ hi = 0) (hc : c = 0xB ∨ c = 0xD ∨ c = 0xF) :
    s.mainswitch ops pc (armWord op rn rd (hi ++ c ++ rm)) =
      some (s.halfwordAccess ops (armWord op rn rd (hi ++ c ++ rm))
        (s.lhs (armWord op rn rd (hi ++ c ++ rm)) +
          if op.getLsbD 2 then (hi ++ rm : BitVec 8).setWidth 32 else s.reg rm.toFin)).2 := by
  obtain ⟨h25, h20, h24, h23, h21⟩ := ho
  rw [← getLS7RHS_armWord op rn rd hi c rm]
  obtain ⟨h47, h411, h56⟩ := half_bits op rn rd hi c rm
  generalize hw : armWord op rn rd (hi ++ c ++ rm) = w at h47 h411 h56 ⊢
  have hop (i : Nat) (hi : 20 ≤ i) : w.getLsbD i = op.getLsbD (i - 20) := by
    rw [← hw]
    exact getLsbD_armWord_op _ _ _ _ hi
  have h0 : bits w 25 27 = 0 := by
    rw [← hw]
    exact (bits_armWord_op _ _ _ _ (by omega)).trans (congrArg BitVec.toNat h25)
  have hl : isLoadHalfword w = true := by
    rw [isLoadHalfword, hop 22 (by omega), h47, h411, h56]
    rcases hhi with h | rfl
    · rw [if_pos h]
      rcases hc with rfl | rfl | rfl <;> decide
    · split
      · rcases hc with rfl | rfl | rfl <;> decide
      · rcases hc with rfl | rfl | rfl <;> decide
  have h21' : ¬w.getLsbD 21 = true := by
    rw [hop 21 (by omega), h21]
    exact Bool.false_ne_true
  rw [mainswitch_loadHalfword h0 ((hop 20 (by omega)).trans h20) hl, loadHalfwordTransfer,
    if_pos ((hop 24 (by omega)).trans h24), if_neg h21', offsetBy,
    if_pos ((hop 23 (by omega)).trans h23)]

end State

namespace Thumb

open ThumbFormat State

variable {ops : MmuOps U} {s : State U} {pc : ARMword} {h : BitVec 16}

theorem does_strh (hs : Ready ops s pc) (op : BitVec 12) (rn rd hi rm : BitVec 4)
    (hop : HalfOp op false) (hhi : op.getLsbD 2 = true ∨ hi = 0) (o : ThumbOperand)
    (ho : operandValue s o =
      if op.getLsbD 2 then (hi ++ rm : BitVec 8).setWidth 32 else s.reg rm.toFin)
    (hd : rd.toFin ≠ 15) (hp : predictable ops pc s (.transfer .strh rd.toFin rn.toFin o) = true) :
    Carries ops s pc (armWord op rn rd (hi ++ 0xB#4 ++ rm))
      (.transfer .strh rd.toFin rn.toFin o) := by
  have hm := @mainswitch_strh U ops s pc op rn rd hi rm hop hhi
  rw [lhs_armWord hs.pc, ← ho] at hm
  exact does_access (k := .strh) hs.narrow hs.aborted (destReg_armWord ..) hd
    (aligned_of_predictable hp) hm

/-- The bits 4 to 7 of a load of a halfword or a signed byte. -/
def loadBits : ThumbTransfer → BitVec 4
  | .ldrh => 0xB
  | .ldrsb => 0xD
  | _ => 0xF

theorem does_ldrh (hs : Ready ops s pc) (op : BitVec 12) (rn rd hi rm : BitVec 4)
    (k : ThumbTransfer) (hk : k = .ldrh ∨ k = .ldrsb ∨ k = .ldrsh)
    (hop : HalfOp op true) (hhi : op.getLsbD 2 = true ∨ hi = 0) (o : ThumbOperand)
    (ho : operandValue s o =
      if op.getLsbD 2 then (hi ++ rm : BitVec 8).setWidth 32 else s.reg rm.toFin)
    (hd : rd.toFin ≠ 15) (hp : predictable ops pc s (.transfer k rd.toFin rn.toFin o) = true) :
    Carries ops s pc (armWord op rn rd (hi ++ loadBits k ++ rm))
      (.transfer k rd.toFin rn.toFin o) := by
  have hc : loadBits k = 0xB ∨ loadBits k = 0xD ∨ loadBits k = 0xF := by
    rcases hk with rfl | rfl | rfl <;> decide
  have hm := @mainswitch_ldrh U ops s pc op rn rd hi (loadBits k) rm hop hhi hc
  obtain ⟨-, -, h56⟩ := half_bits op rn rd hi (loadBits k) rm
  rw [lhs_armWord hs.pc, ← ho, halfwordAccess, h56] at hm
  refine does_access (k := k) hs.narrow hs.aborted (destReg_armWord ..) hd
    (aligned_of_predictable hp) ?_
  rcases hk with rfl | rfl | rfl <;> exact hm

/-- Halfwords and signed bytes with a register offset -/
theorem does_format8 (hs : Ready ops s pc) (hp : predictable ops pc s
      (.transfer (ThumbTransfer.ofBits (2 * field h 10 2 + 1)) (lowReg h 0) (lowReg h 3)
        (.reg (lowReg h 6))) = true) :
    Carries ops s pc (format8 (h.setWidth 32))
      (.transfer (ThumbTransfer.ofBits (2 * field h 10 2 + 1)) (lowReg h 0) (lowReg h 3)
        (.reg (lowReg h 6))) := by
  rw [format8_eq]
  have hlt : field h 10 2 < 4 := (h.extractLsb' 10 2).isLt
  generalize field h 10 2 = n at hlt hp ⊢
  interval_cases n
  · exact does_strh hs 0xE18 (low h 3) (low h 0) 0 (low h 6) (by decide) (.inr rfl)
      (.reg (lowReg h 6)) rfl (low_ne h 0) hp
  · exact does_ldrh hs 0xE19 (low h 3) (low h 0) 0 (low h 6) .ldrsb (.inr (.inl rfl)) (by decide)
      (.inr rfl) (.reg (lowReg h 6)) rfl (low_ne h 0) hp
  · exact does_ldrh hs 0xE19 (low h 3) (low h 0) 0 (low h 6) .ldrh (.inl rfl) (by decide)
      (.inr rfl) (.reg (lowReg h 6)) rfl (low_ne h 0) hp
  · exact does_ldrh hs 0xE19 (low h 3) (low h 0) 0 (low h 6) .ldrsh (.inr (.inr rfl)) (by decide)
      (.inr rfl) (.reg (lowReg h 6)) rfl (low_ne h 0) hp

theorem twos5_eq : number h 6 5 2 =
    (0#2 ++ h.extractLsb' 9 2 ++ (h.extractLsb' 6 3 ++ 0#1) : BitVec 8).setWidth 32 := by
  have hb : (0#2 ++ h.extractLsb' 9 2 ++ (h.extractLsb' 6 3 ++ 0#1) : BitVec 8) =
      (h.extractLsb' 6 5 ++ 0#1).setWidth 8 := by
    apply BitVec.eq_of_getLsbD_eq
    intro i hi
    simp only [BitVec.getLsbD_append, BitVec.getLsbD_setWidth, BitVec.getLsbD_extractLsb']
    interval_cases i <;> simp
  rw [hb]
  refine number_eq h 6 5 2 ?_
  have := (h.extractLsb' 6 5).isLt
  rw [BitVec.toNat_setWidth, BitVec.toNat_setWidth, BitVec.toNat_append,
    show (0#1).toNat = 0 from rfl, Nat.or_zero, Nat.shiftLeft_eq, field]
  omega

/-- Halfwords with a number as offset -/
theorem does_format10 (hs : Ready ops s pc) (hp : predictable ops pc s
      (.transfer (if h.getLsbD 11 then .ldrh else .strh) (lowReg h 0) (lowReg h 3)
        (.imm (number h 6 5 2))) = true) :
    Carries ops s pc (format10 (h.setWidth 32))
      (.transfer (if h.getLsbD 11 then .ldrh else .strh) (lowReg h 0) (lowReg h 3)
        (.imm (number h 6 5 2))) := by
  have hoff : operandValue s (.imm (number h 6 5 2)) =
      (0#2 ++ h.extractLsb' 9 2 ++ (h.extractLsb' 6 3 ++ 0#1) : BitVec 8).setWidth 32 := twos5_eq
  rw [format10_eq]
  generalize h.getLsbD 11 = b at hp ⊢
  cases b with
  | false =>
    exact does_strh hs 0xE1C (low h 3) (low h 0) (0#2 ++ h.extractLsb' 9 2)
      (h.extractLsb' 6 3 ++ 0#1) (by decide) (.inl rfl) _ hoff (low_ne h 0) hp
  | true =>
    exact does_ldrh hs 0xE1D (low h 3) (low h 0) (0#2 ++ h.extractLsb' 9 2)
      (h.extractLsb' 6 3 ++ 0#1) .ldrh (.inl rfl) (by decide) (.inl rfl) _ hoff (low_ne h 0) hp

end Thumb

end SkyEye
