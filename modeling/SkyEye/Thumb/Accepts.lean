import SkyEye.Thumb.Branch

/-!
# What the Thumb decoder accepts

The encodings that the architecture defines, in its versions 4T and 5T, and those that
`ARMul_ThumbDecode` takes for instructions. They differ in the miscellaneous space, where
every encoding that is no `ADD`, `SUB` or `BKPT` goes to `PUSH` and `POP`, and in two
instructions that came with version 5T.
-/

namespace SkyEye

/-- The decoder has found an instruction: `t_decoded` or `t_branch`. -/
def TdState.accepts {U : Type} : TdState U → Bool
  | .undefined => false
  | .decoded _ | .branch _ => true

namespace Thumb

/-! ## The architecture -/

/-- Special data processing and branch/exchange, by the bits 8 to 9: `ADD`, `CMP` and `MOV`
take a high register on one side, `BX` is one of either version, `BLX` of 5T only. -/
def definedSpecial (isV5 : Bool) (h : BitVec 16) : Bool :=
  match field h 8 2 with
  | 0b11 => !h.getLsbD 7 || isV5
  | _ => field h 6 2 != 0

/-- The miscellaneous space, by the bits 8 to 11. -/
def definedMisc (isV5 : Bool) (h : BitVec 16) : Bool :=
  match field h 8 4 with
  | 0b0000 => true -- `ADD` and `SUB` of the stack pointer
  | 0b0100 | 0b0101 => true -- `PUSH`
  | 0b1100 | 0b1101 => true -- `POP`
  | 0b1110 => isV5 -- `BKPT`
  | _ => false

/-- The encodings of the Thumb instruction set. -/
def isDefined (isV5 : Bool) (h : BitVec 16) : Bool :=
  match field h 11 5 with
  | 0b01000 => !h.getLsbD 10 || definedSpecial isV5 h
  | 0b10110 | 0b10111 => definedMisc isV5 h
  | 0b11010 | 0b11011 => field h 8 4 != 0b1110
  | 0b11101 => isV5 && !h.getLsbD 0 -- the second half of `BLX`
  | _ => true

/-! ## The decoder -/

/-- What the decoder makes of a halfword: the same in all states but for the version. -/
def decoderAccepts (isV5 : Bool) (h : BitVec 16) : Bool :=
  match field h 11 5 with
  | 8 =>
    !h.getLsbD 10 ||
      match field h 6 4 with
      | 0x0 | 0x4 | 0x8 => false
      | 0xE | 0xF => isV5
      | _ => true
  | 26 | 27 => field h 8 4 != 14
  | 29 => false
  | _ => true

variable {U : Type} {h x : BitVec 16}

/-- The bits 8 to 11 of a halfword, in place. -/
theorem and_0F00_eq_iff (h : BitVec 16) (c : BitVec 4) :
    h.setWidth 32 &&& 0x0F00 = c.setWidth 32 <<< 8 ↔ field h 8 4 = c.toNat := by
  have hfield : field h 8 4 = c.toNat ↔ h.extractLsb' 8 4 = c := BitVec.toNat_inj
  rw [hfield]
  constructor
  · intro he
    apply BitVec.eq_of_getLsbD_eq
    intro i hi
    have hb := congrArg (BitVec.getLsbD · (8 + i)) he
    simp only [BitVec.getLsbD_and, BitVec.getLsbD_shiftLeft, BitVec.getLsbD_setWidth] at hb
    rw [BitVec.getLsbD_extractLsb']
    interval_cases i <;> simpa using hb
  · rintro rfl
    apply BitVec.eq_of_getLsbD_eq
    intro i hi
    simp only [BitVec.getLsbD_and, BitVec.getLsbD_shiftLeft, BitVec.getLsbD_setWidth,
      BitVec.getLsbD_extractLsb']
    interval_cases i <;> simp

/-- Format 5 is undefined for three codes, and for `BLX` before version 5. -/
theorem isSome_format5 (isV5 : Bool) (h : BitVec 16) :
    (ThumbFormat.format5 isV5 (h.setWidth 32)).isSome =
      match field h 6 4 with
      | 0x0 | 0x4 | 0x8 => false
      | 0xE | 0xF => isV5
      | _ => true := by
  have hlt : field h 6 4 < 16 := (h.extractLsb' 6 4).isLt
  rw [ThumbFormat.format5, ThumbFormat.code_eq h 0x03C0 6 4 (by decide)]
  generalize field h 6 4 = n at hlt ⊢
  interval_cases n <;> cases isV5 <;> rfl

theorem accepts_thumbDecode (s : State U) (pc : ARMword) (h x : BitVec 16) :
    (s.thumbDecode pc (fetchedWord s.bigendSig h x)).accepts = decoderAccepts s.isV5 h := by
  have hlt : field h 11 5 < 32 := (h.extractLsb' 11 5).isLt
  have h10 : h.setWidth 32 &&& 0x400 = 0 ↔ h.getLsbD 10 = false :=
    and_twoPow_eq_zero h (k := 10) (by decide)
  have hF : h.setWidth 32 &&& 0x0F00 = 0x0F00 ↔ field h 8 4 = 15 := and_0F00_eq_iff h 15
  have hE : h.setWidth 32 &&& 0x0F00 = 0x0E00 ↔ field h 8 4 = 14 := and_0F00_eq_iff h 14
  rw [State.thumbDecode, decoderAccepts, ← isSome_format5]
  dsimp only
  rw [fetchedWord_instr, fetchedWord_next, opcode_eq]
  generalize field h 11 5 = n at hlt ⊢
  interval_cases n
  any_goals rfl
  · -- data processing, or high registers
    show TdState.accepts (if _ then _ else _) = _
    by_cases h0 : h.getLsbD 10 = false
    · rw [if_pos (h10.mpr h0), h0]
      rfl
    · rw [if_neg fun he => h0 (h10.mp he), (Bool.not_eq_false _).mp h0]
      cases ThumbFormat.format5 s.isV5 (h.setWidth 32) <;> rfl
  -- the formats 7 and 8
  iterate 2
    · show TdState.accepts (if _ then _ else _) = true
      split <;> rfl
  -- the miscellaneous space
  iterate 2
    · show TdState.accepts (if _ then _ else if _ then _ else _) = true
      split
      · rfl
      · split <;> rfl
  -- branches with a condition, and `SWI`
  iterate 2
    · show TdState.accepts (if _ then _ else _) = (field h 8 4 != 14)
      by_cases h15 : field h 8 4 = 15
      · rw [if_pos (hF.mpr h15), h15]
        split <;> rfl
      · rw [if_neg fun he => h15 (hF.mp he)]
        by_cases h14 : field h 8 4 = 14
        · rw [if_pos (hE.mpr h14), h14]
          rfl
        · rw [if_neg fun he => h14 (hE.mp he), bne_iff_ne.mpr h14]
          rfl
  · show TdState.accepts (if _ then _ else _) = true
    split <;> rfl

/-! ## Where they differ -/

/-- The encodings that the decoder takes the wrong way: those of the miscellaneous space that no
instruction has, with `BKPT` before version 5, and the second half of `BLX` from version 5 on. -/
def misjudged (isV5 : Bool) (h : BitVec 16) : Bool :=
  (field h 12 4 == 0b1011 &&
    match field h 8 4 with
    | 0b0001 | 0b0010 | 0b0011 | 0b0110 | 0b0111 => true
    | 0b1000 | 0b1001 | 0b1010 | 0b1011 | 0b1111 => true
    | 0b1110 => !isV5
    | _ => false) ||
  (isV5 && field h 11 5 == 0b11101 && !h.getLsbD 0)

/-- The bits of format 5 as the architecture reads them. -/
theorem definedSpecial_eq (isV5 : Bool) (h : BitVec 16) :
    definedSpecial isV5 h = (ThumbFormat.format5 isV5 (h.setWidth 32)).isSome := by
  have hlt : field h 6 4 < 16 := (h.extractLsb' 6 4).isLt
  have hop : field h 8 2 = field h 6 4 / 2 ^ 2 := (field_div h 6 2 2).symm
  have hhigh : field h 6 2 = field h 6 4 % 2 ^ 2 := (@field_mod h 6 4 2 (by decide)).symm
  have h7 : h.getLsbD 7 = (field h 6 4).testBit 1 := (@testBit_field h 6 4 1 (by omega)).symm
  rw [isSome_format5, definedSpecial, hop, hhigh, h7]
  generalize field h 6 4 = n at hlt ⊢
  interval_cases n <;> cases isV5 <;> rfl

theorem definedMisc_iff (isV5 : Bool) (h : BitVec 16) (hh : field h 12 4 = 0b1011) :
    true = definedMisc isV5 h ↔ ¬ misjudged isV5 h = true := by
  have hlt : field h 8 4 < 16 := (h.extractLsb' 8 4).isLt
  have h29 : (field h 11 5 == 0b11101) = false := by
    have : field h 11 5 / 2 = field h 12 4 := field_div h 11 1 4
    rw [beq_eq_false_iff_ne]
    omega
  rw [definedMisc, misjudged, hh, h29, Bool.and_false, Bool.false_and, Bool.or_false]
  generalize field h 8 4 = n at hlt ⊢
  interval_cases n <;> cases isV5 <;> decide

/-- Everywhere else the two agree. -/
theorem decoderAccepts_eq (isV5 : Bool) (hmisc : field h 12 4 ≠ 0b1011)
    (h29 : field h 11 5 ≠ 0b11101) : decoderAccepts isV5 h = isDefined isV5 h := by
  have hdiv : field h 11 5 / 2 = field h 12 4 := field_div h 11 1 4
  have hlt : field h 11 5 < 32 := (h.extractLsb' 11 5).isLt
  rw [decoderAccepts, isDefined, definedSpecial_eq, isSome_format5]
  generalize field h 11 5 = n at hdiv h29 hlt ⊢
  interval_cases n
  any_goals rfl
  · exact absurd hdiv.symm hmisc
  · exact absurd hdiv.symm hmisc
  · exact absurd rfl h29

/-- The decoder reports an instruction for the encodings of the architecture and no others, unless
the halfword is one of the misjudged. -/
theorem decoder_exact_iff (s : State U) (pc : ARMword) (h x : BitVec 16) :
    (s.thumbDecode pc (fetchedWord s.bigendSig h x)).accepts = isDefined s.isV5 h ↔
      ¬ misjudged s.isV5 h = true := by
  rw [accepts_thumbDecode]
  by_cases hmisc : field h 12 4 = 0b1011
  · have hn : field h 11 5 = 22 ∨ field h 11 5 = 23 := by
      have : field h 11 5 / 2 = field h 12 4 := field_div h 11 1 4
      omega
    rw [← definedMisc_iff s.isV5 h hmisc, decoderAccepts, isDefined]
    rcases hn with hn | hn
    · rw [hn]
      exact Iff.rfl
    · rw [hn]
      exact Iff.rfl
  rw [misjudged, beq_eq_false_iff_ne.mpr hmisc, Bool.false_and, Bool.false_or]
  by_cases h29 : field h 11 5 = 0b11101
  · rw [decoderAccepts, isDefined, h29]
    show false = (s.isV5 && !h.getLsbD 0) ↔ ¬ (s.isV5 && true && !h.getLsbD 0) = true
    cases s.isV5 <;> cases h.getLsbD 0 <;> decide
  · rw [decoderAccepts_eq s.isV5 hmisc h29, beq_eq_false_iff_ne.mpr h29]
    simp

/-- `0xB100`, which no instruction of version 4T has, is taken for a `PUSH`. -/
theorem decoder_accepts_undefined :
    isDefined Arm7100.thumb.isV5 0xB100 = false ∧
      (Arm7100.thumb.thumbDecode 0
        (fetchedWord Arm7100.thumb.bigendSig 0xB100 0)).accepts = true := by
  constructor
  · decide
  · rw [accepts_thumbDecode]
    decide

end Thumb

end SkyEye
