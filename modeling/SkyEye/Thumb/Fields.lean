import SkyEye.Thumb.Instr
import SkyEye.Thumb.Decode
import Mathlib.Tactic.IntervalCases

/-!
# The words of the decoder

Each format of the decoder as an operation, two registers and a last operand.
-/

namespace SkyEye

open Thumb (field low)

namespace ThumbFormat

/-- Bits that a mask takes out of the instruction, moved down. -/
theorem code_eq (h : BitVec 16) (mask : ARMword) (lo len : Nat)
    (hm : ∀ i < 16, mask.getLsbD i = decide (lo ≤ i ∧ i < lo + len)) :
    ((h.setWidth 32 &&& mask) >>> lo).toNat = field h lo len := by
  apply Nat.eq_of_testBit_eq
  intro i
  rw [field, BitVec.testBit_toNat, BitVec.testBit_toNat, BitVec.getLsbD_ushiftRight,
    BitVec.getLsbD_and, BitVec.getLsbD_setWidth, BitVec.getLsbD_extractLsb']
  by_cases h16 : lo + i < 16
  · rw [hm _ h16]
    by_cases hi : i < len
    · have h32 : lo + i < 32 := by omega
      simp [hi, h32]
    · simp [hi]
  · rw [BitVec.getLsbD_of_ge h _ (by omega)]
    simp

/-- A masked bit as a condition. -/
theorem isSet_twoPow (h : BitVec 16) {k : Nat} (hk : k < 32) :
    isSet (h.setWidth 32) (BitVec.twoPow 32 k) = h.getLsbD k := by
  rw [isSet, Word.and_twoPow_bne, BitVec.getLsbD_setWidth, decide_eq_true hk, Bool.true_and]

/-- An instruction put together bit by bit. -/
theorem eq_armWord {w : ARMword} {op low : BitVec 12} {rn rd : BitVec 4}
    (h : ∀ i < 32, w.getLsbD i =
      if i < 12 then low.getLsbD i
      else if i < 16 then rd.getLsbD (i - 12)
      else if i < 20 then rn.getLsbD (i - 16)
      else op.getLsbD (i - 20)) : w = armWord op rn rd low := by
  apply BitVec.eq_of_getLsbD_eq
  intro i hi
  rw [h i hi, getLsbD_armWord]

theorem format1_eq (h : BitVec 16) : format1 (h.setWidth 32) =
    armWord 0xE1B 0 (low h 0) (h.extractLsb' 6 5 ++ h.extractLsb' 11 2 ++ 0#1 ++ low h 3) := by
  unfold format1
  refine eq_armWord fun i hi => ?_
  simp only [low, BitVec.getLsbD_append, BitVec.getLsbD_or, BitVec.getLsbD_and,
    BitVec.getLsbD_shiftLeft, BitVec.getLsbD_ushiftRight, BitVec.getLsbD_setWidth,
    BitVec.getLsbD_extractLsb']
  interval_cases i <;> simp

/-- The operations of format 2. -/
def base2 : Nat → BitVec 12
  | 0 => 0xE09
  | 1 => 0xE05
  | 2 => 0xE29
  | _ => 0xE25

theorem format2_eq (h : BitVec 16) : format2 (h.setWidth 32) =
    armWord (base2 (field h 9 2)) (low h 3) (low h 0) ((h.extractLsb' 6 3).setWidth 12) := by
  unfold format2
  rw [code_eq h 0x0600 9 2 (by decide)]
  generalize field h 9 2 = n
  have hb : subset2 n = base2 n ++ 0#20 := by
    rcases n with _ | _ | _ | n
    · rfl
    · rfl
    · rfl
    · exact (show (0xE2500000 : ARMword) = 0xE25#12 ++ 0#20 by decide)
  rw [hb]
  generalize base2 n = b
  refine eq_armWord fun i hi => ?_
  simp only [low, BitVec.getLsbD_append, BitVec.getLsbD_or, BitVec.getLsbD_and,
    BitVec.getLsbD_shiftLeft, BitVec.getLsbD_ushiftRight, BitVec.getLsbD_setWidth,
    BitVec.getLsbD_extractLsb']
  interval_cases i <;> simp

/-- The operations of format 3. -/
def base3 : Nat → BitVec 12
  | 0 => 0xE3B
  | 1 => 0xE35
  | 2 => 0xE29
  | _ => 0xE25

theorem format3_eq (h : BitVec 16) : format3 (h.setWidth 32) =
    armWord (base3 (field h 11 2)) (low h 8) (low h 8) ((h.extractLsb' 0 8).setWidth 12) := by
  unfold format3
  rw [code_eq h 0x1800 11 2 (by decide)]
  generalize field h 11 2 = n
  have hb : subset3 n = base3 n ++ 0#20 := by
    rcases n with _ | _ | _ | n
    · rfl
    · rfl
    · rfl
    · exact (show (0xE2500000 : ARMword) = 0xE25#12 ++ 0#20 by decide)
  rw [hb]
  generalize base3 n = b
  refine eq_armWord fun i hi => ?_
  simp only [low, BitVec.getLsbD_append, BitVec.getLsbD_or, BitVec.getLsbD_and,
    BitVec.getLsbD_shiftLeft, BitVec.getLsbD_setWidth,
    BitVec.getLsbD_extractLsb']
  interval_cases i <;> simp

theorem format4_norm {h : BitVec 16} {op : BitVec 12}
    (hn : subset4 (field h 6 4) = (op ++ 0#20, .norm)) : format4 (h.setWidth 32) =
      armWord op (low h 0) (low h 0) ((low h 3).setWidth 12) := by
  unfold format4
  rw [code_eq h 0x03C0 6 4 (by decide), hn]
  dsimp only [fields4]
  refine eq_armWord fun i hi => ?_
  simp only [low, BitVec.getLsbD_append, BitVec.getLsbD_or, BitVec.getLsbD_and,
    BitVec.getLsbD_shiftLeft, BitVec.getLsbD_ushiftRight, BitVec.getLsbD_setWidth,
    BitVec.getLsbD_extractLsb']
  interval_cases i <;> simp

theorem format4_shift {h : BitVec 16} {sh : BitVec 2}
    (hn : subset4 (field h 6 4) = (0xE1B#12 ++ 0#13 ++ sh ++ 1#1 ++ 0#4, .shift)) :
    format4 (h.setWidth 32) =
      armWord 0xE1B 0 (low h 0) (low h 3 ++ 0#1 ++ sh ++ 1#1 ++ low h 0) := by
  unfold format4
  rw [code_eq h 0x03C0 6 4 (by decide), hn]
  dsimp only [fields4]
  refine eq_armWord fun i hi => ?_
  simp only [low, BitVec.getLsbD_append, BitVec.getLsbD_or, BitVec.getLsbD_and,
    BitVec.getLsbD_shiftLeft, BitVec.getLsbD_setWidth,
    BitVec.getLsbD_extractLsb']
  interval_cases i <;> simp

theorem format4_neg {h : BitVec 16} (hn : field h 6 4 = 9) :
    format4 (h.setWidth 32) = armWord 0xE27 (low h 3) (low h 0) 0 := by
  unfold format4
  rw [code_eq h 0x03C0 6 4 (by decide), hn]
  dsimp only [subset4, fields4]
  refine eq_armWord fun i hi => ?_
  simp only [low, BitVec.getLsbD_or, BitVec.getLsbD_and,
    BitVec.getLsbD_shiftLeft, BitVec.getLsbD_setWidth,
    BitVec.getLsbD_extractLsb']
  interval_cases i <;> simp

theorem format4_mul {h : BitVec 16} (hn : field h 6 4 = 13) :
    format4 (h.setWidth 32) = armWord 0xE01 (low h 0) 0 (low h 0 ++ 9#4 ++ low h 3) := by
  unfold format4
  rw [code_eq h 0x03C0 6 4 (by decide), hn]
  dsimp only [subset4, fields4]
  refine eq_armWord fun i hi => ?_
  simp only [low, BitVec.getLsbD_append, BitVec.getLsbD_or, BitVec.getLsbD_and,
    BitVec.getLsbD_shiftLeft, BitVec.getLsbD_ushiftRight, BitVec.getLsbD_setWidth,
    BitVec.getLsbD_extractLsb']
  interval_cases i <;> simp

theorem format6_eq (h : BitVec 16) : format6 (h.setWidth 32) =
    armWord 0xE59 15 (low h 8) ((h.extractLsb' 0 8 ++ 0#2).setWidth 12) := by
  unfold format6
  refine eq_armWord fun i hi => ?_
  simp only [low, BitVec.getLsbD_append, BitVec.getLsbD_or, BitVec.getLsbD_and,
    BitVec.getLsbD_shiftLeft, BitVec.getLsbD_setWidth,
    BitVec.getLsbD_extractLsb']
  interval_cases i <;> simp

/-- The operations of format 7. -/
def base7 : Nat → BitVec 12
  | 0 => 0xE78
  | 1 => 0xE7C
  | 2 => 0xE79
  | _ => 0xE7D

theorem format7_eq (h : BitVec 16) : format7 (h.setWidth 32) =
    armWord (base7 (field h 10 2)) (low h 3) (low h 0) ((low h 6).setWidth 12) := by
  unfold format7
  rw [code_eq h 0x0C00 10 2 (by decide)]
  generalize field h 10 2 = n
  have hb : subset7 n = base7 n ++ 0#20 := by
    rcases n with _ | _ | _ | n
    · rfl
    · rfl
    · rfl
    · exact (show (0xE7D00000 : ARMword) = 0xE7D#12 ++ 0#20 by decide)
  rw [hb]
  generalize base7 n = b
  unfold transferRegs
  refine eq_armWord fun i hi => ?_
  simp only [low, BitVec.getLsbD_append, BitVec.getLsbD_or, BitVec.getLsbD_and,
    BitVec.getLsbD_shiftLeft, BitVec.getLsbD_ushiftRight, BitVec.getLsbD_setWidth,
    BitVec.getLsbD_extractLsb']
  interval_cases i <;> simp

/-- The operations of format 8: the bits 20 to 27 and 4 to 7. -/
def base8 : Nat → BitVec 12 × BitVec 4
  | 0 => (0xE18, 0xB)
  | 1 => (0xE19, 0xD)
  | 2 => (0xE19, 0xB)
  | _ => (0xE19, 0xF)

theorem format8_eq (h : BitVec 16) : format8 (h.setWidth 32) =
    armWord (base8 (field h 10 2)).1 (low h 3) (low h 0)
      (0#4 ++ (base8 (field h 10 2)).2 ++ low h 6) := by
  unfold format8
  rw [code_eq h 0x0C00 10 2 (by decide)]
  generalize field h 10 2 = n
  have hb : subset8 n = (base8 n).1 ++ 0#12 ++ (base8 n).2 ++ 0#4 := by
    rcases n with _ | _ | _ | n
    · rfl
    · rfl
    · rfl
    · exact (show (0xE19000F0 : ARMword) = 0xE19#12 ++ 0#12 ++ 0xF#4 ++ 0#4 by decide)
  rw [hb]
  generalize base8 n = b
  unfold transferRegs
  refine eq_armWord fun i hi => ?_
  simp only [low, BitVec.getLsbD_append, BitVec.getLsbD_or, BitVec.getLsbD_and,
    BitVec.getLsbD_shiftLeft, BitVec.getLsbD_ushiftRight, BitVec.getLsbD_setWidth,
    BitVec.getLsbD_extractLsb']
  interval_cases i <;> simp

/-- The operations of format 9. -/
def base9 : Nat → BitVec 12
  | 0 => 0xE58
  | 1 => 0xE59
  | 2 => 0xE5C
  | _ => 0xE5D

theorem format9_eq (h : BitVec 16) : format9 (h.setWidth 32) =
    armWord (base9 (field h 11 2)) (low h 3) (low h 0)
      (if h.getLsbD 12 then (h.extractLsb' 6 5).setWidth 12
        else (h.extractLsb' 6 5 ++ 0#2).setWidth 12) := by
  unfold format9
  rw [code_eq h 0x1800 11 2 (by decide)]
  generalize field h 11 2 = n
  have hb : subset9 n = base9 n ++ 0#20 := by
    rcases n with _ | _ | _ | n
    · rfl
    · rfl
    · rfl
    · exact (show (0xE5D00000 : ARMword) = 0xE5D#12 ++ 0#20 by decide)
  rw [hb]
  generalize base9 n = b
  rw [show (0x1000 : ARMword) = BitVec.twoPow 32 12 by decide, isSet_twoPow h (by decide)]
  cases h.getLsbD 12
  all_goals
    simp only [Bool.false_eq_true, if_true, if_false]
    refine eq_armWord fun i hi => ?_
    simp only [low, BitVec.getLsbD_append, BitVec.getLsbD_or, BitVec.getLsbD_and,
      BitVec.getLsbD_shiftLeft, BitVec.getLsbD_ushiftRight, BitVec.getLsbD_setWidth,
      BitVec.getLsbD_extractLsb']
    interval_cases i <;> simp

theorem format10_eq (h : BitVec 16) : format10 (h.setWidth 32) =
    armWord (if h.getLsbD 11 then 0xE1D else 0xE1C) (low h 3) (low h 0)
      (0#2 ++ h.extractLsb' 9 2 ++ 0xB#4 ++ (h.extractLsb' 6 3 ++ 0#1)) := by
  unfold format10
  rw [show (0x0800 : ARMword) = BitVec.twoPow 32 11 by decide, isSet_twoPow h (by decide)]
  cases h.getLsbD 11
  all_goals
    refine eq_armWord fun i hi => ?_
    simp only [low, BitVec.getLsbD_append, BitVec.getLsbD_or, BitVec.getLsbD_and,
      BitVec.getLsbD_shiftLeft, BitVec.getLsbD_ushiftRight, BitVec.getLsbD_setWidth,
      BitVec.getLsbD_extractLsb']
    interval_cases i <;> simp

theorem format11_eq (h : BitVec 16) : format11 (h.setWidth 32) =
    armWord (if h.getLsbD 11 then 0xE59 else 0xE58) 13 (low h 8)
      ((h.extractLsb' 0 8 ++ 0#2).setWidth 12) := by
  unfold format11
  rw [show (0x0800 : ARMword) = BitVec.twoPow 32 11 by decide, isSet_twoPow h (by decide)]
  cases h.getLsbD 11
  all_goals
    refine eq_armWord fun i hi => ?_
    simp only [low, BitVec.getLsbD_append, BitVec.getLsbD_or, BitVec.getLsbD_and,
      BitVec.getLsbD_shiftLeft, BitVec.getLsbD_setWidth,
      BitVec.getLsbD_extractLsb']
    interval_cases i <;> simp

theorem format13_eq (h : BitVec 16) : format13 (h.setWidth 32) =
    armWord (if h.getLsbD 7 then 0xE24 else 0xE28) 13 13
      (0xF#4 ++ (0#1 ++ h.extractLsb' 0 7)) := by
  unfold format13
  rw [show (0x80 : ARMword) = BitVec.twoPow 32 7 by decide, isSet_twoPow h (by decide)]
  cases h.getLsbD 7
  all_goals
    refine eq_armWord fun i hi => ?_
    simp only [BitVec.getLsbD_append, BitVec.getLsbD_or, BitVec.getLsbD_and,
      BitVec.getLsbD_setWidth,
      BitVec.getLsbD_extractLsb']
    interval_cases i <;> simp

theorem format12_eq (h : BitVec 16) : format12 (h.setWidth 32) =
    armWord 0xE28 (if h.getLsbD 11 then 13 else 15) (low h 8) (0xF#4 ++ h.extractLsb' 0 8) := by
  unfold format12
  rw [show (0x0800 : ARMword) = BitVec.twoPow 32 11 by decide, isSet_twoPow h (by decide)]
  cases h.getLsbD 11
  all_goals
    refine eq_armWord fun i hi => ?_
    simp only [low, BitVec.getLsbD_append, BitVec.getLsbD_or, BitVec.getLsbD_and,
      BitVec.getLsbD_shiftLeft, BitVec.getLsbD_setWidth,
      BitVec.getLsbD_extractLsb']
    interval_cases i <;> simp

end ThumbFormat

end SkyEye
