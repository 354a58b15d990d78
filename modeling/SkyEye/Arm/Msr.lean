import SkyEye.Arm.DataAbort
import SkyEye.Arm.MainSwitch
import SkyEye.Arm.Shifter

/-!
# Writes of the status register

`MSR` copies the bytes that its field mask selects. The register form takes the T bit out
of the operand first, the immediate form does not.
-/

namespace SkyEye

/-- An `MSR` to the CPSR, of either form. -/
structure IsMsr (w : ARMword) : Prop where
  op : bits w 20 24 = 0x12
  dest : destReg w = 15
  form : bits w 25 27 = 0 ∧ bits w 4 11 = 0 ∨ bits w 25 27 = 1

/-- The field mask selects bit `i` of the status register. -/
def msrSelects (w : ARMword) (i : Nat) : Bool := w.getLsbD (16 + i / 8)

namespace State

variable {U : Type}

/-- The operand of an `MSR`. -/
def msrOperand (s : State U) (w : ARMword) : ARMword :=
  if w.getLsbD 25 then dpImmRHS w else s.reg (rhsReg w)

/-- The architecture's rules for the state `t` that `MSR` leaves: the T bit stays; so do mode
and interrupt bits in User mode; elsewhere each other bit is the operand's if its field is
selected and stays if not. -/
structure MsrExact (s t : State U) (m : Mode32) (w : ARMword) : Prop where
  tFlag : t.tFlag = s.tFlag
  user : m = .user → t.mode = s.mode ∧ t.ifFlags = s.ifFlags
  privileged : m ≠ .user → ∀ i < 32, i ≠ 5 → PSRBITS.getLsbD i = true →
    t.getCPSR.getLsbD i =
      if msrSelects w i then (s.msrOperand w).getLsbD i else s.getCPSR.getLsbD i

variable {ops : MmuOps U} {s t : State U} {m : Mode32} {pc w v : ARMword}

/-! ## The fields -/

theorem getLsbD_put (b : Bool) (mask psr v : ARMword) {i : Nat} (hi : i < 32) :
    (if b then (psr &&& ~~~mask) ||| (v &&& mask) else psr).getLsbD i =
      if b && mask.getLsbD i then v.getLsbD i else psr.getLsbD i := by
  cases b
  · simp
  · rw [if_pos rfl, BitVec.getLsbD_or, BitVec.getLsbD_and, BitVec.getLsbD_and, BitVec.getLsbD_not,
      Bool.true_and]
    cases mask.getLsbD i <;> simp [hi]

/-- The masks of the four fields. -/
theorem getLsbD_fieldMask : ∀ i < 32,
    (0x000000ff : ARMword).getLsbD i = decide (i / 8 = 0) ∧
    (0x0000ff00 : ARMword).getLsbD i = decide (i / 8 = 1) ∧
    (0x00ff0000 : ARMword).getLsbD i = decide (i / 8 = 2) ∧
    (0xff000000 : ARMword).getLsbD i = decide (i / 8 = 3) := by decide

theorem getLsbD_psrFields (w old v : ARMword) (privileged : Bool) {i : Nat} (hi : i < 32) :
    (psrFields w old v privileged).getLsbD i =
      if msrSelects w i && (privileged || decide (24 ≤ i)) then v.getLsbD i
      else old.getLsbD i := by
  obtain ⟨h0, h1, h2, h3⟩ := getLsbD_fieldMask i hi
  have h24 : decide (24 ≤ i) = decide (i / 8 = 3) := by
    rw [decide_eq_decide]
    omega
  have hcase : i / 8 = 0 ∨ i / 8 = 1 ∨ i / 8 = 2 ∨ i / 8 = 3 := by omega
  rw [psrFields]
  dsimp only
  rw [getLsbD_put _ _ _ _ hi, h3, h24, msrSelects]
  cases privileged
  · rcases hcase with h | h | h | h <;> rw [h] <;> simp
  · rw [if_pos rfl, getLsbD_put _ _ _ _ hi, getLsbD_put _ _ _ _ hi, getLsbD_put _ _ _ _ hi, h0, h1,
      h2]
    rcases hcase with h | h | h | h <;> rw [h] <;> simp

theorem tFlag_eq_getLsbD (hm : s.mode &&& MODEBITS = s.mode) :
    s.tFlag = s.getCPSR.getLsbD 5 := by
  rw [getLsbD_getCPSR s (by omega), getLsbD_mode hm (by omega)]
  simp

theorem ifFlags_eq_of_getCPSR (hs : s.mode &&& MODEBITS = s.mode)
    (ht : t.mode &&& MODEBITS = t.mode)
    (h : ∀ i, 6 ≤ i → i < 8 → t.getCPSR.getLsbD i = s.getCPSR.getLsbD i) :
    t.ifFlags = s.ifFlags := by
  have h6 := h 6 (by omega) (by omega)
  have h7 := h 7 (by omega) (by omega)
  rw [getLsbD_getCPSR _ (by omega), getLsbD_getCPSR _ (by omega), getLsbD_mode hs (by omega),
    getLsbD_mode ht (by omega)] at h6 h7
  apply BitVec.eq_of_getLsbD_eq
  intro i hi
  interval_cases i
  · simpa using h6
  · simpa using h7

/-- A mode of 32 bits, as `ARMul_FixCPSR` asks for its privilege. -/
theorem privileged_eq (hs : s.InMode m) :
    (s.mode != USER26MODE && s.mode != USER32MODE) = decide (m ≠ .user) := by
  rw [hs.mode]
  cases m <;> decide

theorem fixCPSR_psr (hs : s.Executing m pc) (w v : ARMword) :
    (s.fixCPSR w v).mode = psrFields w s.getCPSR v (decide (m ≠ .user)) &&& MODEBITS ∧
      (s.fixCPSR w v).getCPSR = psrFields w s.getCPSR v (decide (m ≠ .user)) &&& PSRBITS := by
  have h := cpsrAltered_psr
    (s := { s with cpsr := psrFields w s.getCPSR v (decide (m ≠ .user)) }) hs.prog32Sig
  rw [fixCPSR, privileged_eq hs.inMode]
  exact h

/-- Each bit of the status register after `ARMul_FixCPSR`. -/
theorem getLsbD_fixCPSR (hs : s.Executing m pc) (w v : ARMword) {i : Nat} (hi : i < 32) :
    (s.fixCPSR w v).getCPSR.getLsbD i = (PSRBITS.getLsbD i &&
      if msrSelects w i && (decide (m ≠ .user) || decide (24 ≤ i)) then v.getLsbD i
      else s.getCPSR.getLsbD i) := by
  rw [(fixCPSR_psr hs w v).2, BitVec.getLsbD_and, getLsbD_psrFields _ _ _ _ hi, Bool.and_comm]

theorem mode_masked (hs : s.InMode m) : s.mode &&& MODEBITS = s.mode := by
  rw [hs.mode]
  cases m <;> decide

theorem fixCPSR_masked (hs : s.Executing m pc) (w v : ARMword) :
    (s.fixCPSR w v).mode &&& MODEBITS = (s.fixCPSR w v).mode := by
  rw [(fixCPSR_psr hs w v).1, BitVec.and_assoc, BitVec.and_self]

theorem fixCPSR_tFlag (hs : s.Executing m pc) (w v : ARMword) : (s.fixCPSR w v).tFlag =
    (msrSelects w 5 && decide (m ≠ .user) && v.getLsbD 5) := by
  rw [tFlag_eq_getLsbD (fixCPSR_masked hs w v), getLsbD_fixCPSR hs w v (by omega),
    ← tFlag_eq_getLsbD (mode_masked hs.inMode), hs.tFlag]
  cases msrSelects w 5 <;> cases decide (m ≠ .user) <;> cases v.getLsbD 5 <;> decide

/-- User mode reaches the flags alone. -/
theorem getLsbD_fixCPSR_user (hs : s.Executing .user pc) (w v : ARMword) {i : Nat} (hi : i < 8) :
    (s.fixCPSR w v).getCPSR.getLsbD i = s.getCPSR.getLsbD i := by
  have hp : ∀ i < 8, PSRBITS.getLsbD i = true := by decide
  have h24 : decide (24 ≤ i) = false := decide_eq_false (by omega)
  rw [getLsbD_fixCPSR hs w v (by omega), hp i hi, h24]
  simp

/-- A write is right unless it takes the T bit along, for an operand that may differ in the
T bit. -/
theorem msrExact_fixCPSR (hs : s.Executing m pc)
    (hv : ∀ i < 32, i ≠ 5 → v.getLsbD i = (s.msrOperand w).getLsbD i) :
    MsrExact s (s.fixCPSR w v) m w ↔
      ¬ (m ≠ .user ∧ msrSelects w 5 = true ∧ v.getLsbD 5 = true) := by
  have ht := fixCPSR_tFlag hs w v
  constructor
  · intro he ⟨hm, h5, hb⟩
    rw [he.tFlag, hs.tFlag, h5, hb, decide_eq_true hm] at ht
    cases ht
  · intro hc
    refine ⟨?_, fun hm => ?_, fun hm i hi h5 hp => ?_⟩
    · rw [ht, hs.tFlag, Bool.and_assoc, Bool.and_left_comm]
      by_contra hne
      have hall := Bool.eq_true_of_not_eq_false hne
      rw [Bool.and_eq_true, Bool.and_eq_true] at hall
      exact hc ⟨of_decide_eq_true hall.1, hall.2⟩
    · subst hm
      have hbit := fun i (hi : i < 8) => getLsbD_fixCPSR_user hs w v hi
      have hm := fixCPSR_masked hs w v
      refine ⟨?_, ifFlags_eq_of_getCPSR (mode_masked hs.inMode) hm fun i _ hi => hbit i hi⟩
      rw [← getCPSR_and_modebits hm, ← getCPSR_and_modebits (mode_masked hs.inMode)]
      apply BitVec.eq_of_getLsbD_eq
      intro i hi
      rw [BitVec.getLsbD_and, BitVec.getLsbD_and]
      by_cases h8 : i < 8
      · rw [hbit i h8]
      · have h0 : ∀ i < 32, ¬ i < 8 → MODEBITS.getLsbD i = false := by decide
        rw [h0 i hi h8, Bool.and_false, Bool.and_false]
    · rw [getLsbD_fixCPSR hs w v hi, hp, decide_eq_true hm, hv i hi h5]
      simp

/-! ## The instruction -/

theorem mainswitch_msr (hw : IsMsr w) : s.mainswitch ops pc w = some (s.fixCPSR w
    (if w.getLsbD 25 then dpImmRHS w else s.reg (rhsReg w) &&& ~~~TBIT)) := by
  obtain ⟨hop, hd, hf⟩ := hw
  have h20 : w.getLsbD 20 = false := by
    rw [bits_eq_mod] at hop
    rw [getLsbD_eq_mod]
    exact decide_eq_false (by omega)
  have hteq : DpOp.ofInstr w = .teq := by
    have h21 : bits w 21 24 = 9 := by
      rw [bits_eq_mod] at hop ⊢
      omega
    rw [DpOp.ofInstr, h21]
    rfl
  rcases hf with ⟨h25, h4⟩ | h25
  · have h25' : w.getLsbD 25 = false := by
      rw [bits_eq_mod] at h25
      rw [getLsbD_eq_mod]
      exact decide_eq_false (by omega)
    have h7 : bits w 4 7 = 0 := by
      rw [bits_eq_mod] at h4 ⊢
      omega
    have hb7 : w.getLsbD 7 = false := by
      rw [bits_eq_mod] at h4
      rw [getLsbD_eq_mod]
      exact decide_eq_false (by omega)
    have h27 : bits w 20 27 = 0x12 := by
      rw [bits_eq_mod] at hop h25 ⊢
      omega
    have hbx : ¬ bits w 4 27 = 0x12FFF1 := by
      rw [bits_eq_mod] at h7 ⊢
      omega
    have hdsp : (s.isDsp w || s.isV5Misc w) = false := by
      rw [isDsp, isV5Misc, h4, hb7, h27, h7]
      simp
    rw [mainswitch_reg h25 h20 h4 h7, hteq, h25', if_neg Bool.false_ne_true]
    show s.miscellaneous w = _
    rw [miscellaneous, hdsp, if_neg Bool.false_ne_true, h27]
    show (if bits w 4 27 = 0x12FFF1 then _ else _) = _
    rw [if_neg hbx, if_pos hd, dpRegRHS, if_pos h4]
  · have h25' : w.getLsbD 25 = true := by
      rw [bits_eq_mod] at h25
      rw [getLsbD_eq_mod]
      exact decide_eq_true (by omega)
    rw [mainswitch_imm h25, immediateCase, h20, if_neg Bool.false_ne_true, hteq, h25', if_pos rfl]
    exact congrArg some (if_pos hd)

/-- Both forms of `MSR` keep to the rules, but for an immediate operand that holds the T bit in
a field that is selected in a privileged mode. -/
theorem msr_exact_iff (ops : MmuOps U) (hs : s.Executing m pc) (hw : IsMsr w) :
    ∃ t, s.mainswitch ops pc w = some t ∧ (MsrExact s t m w ↔
      ¬ (w.getLsbD 25 = true ∧ m ≠ .user ∧ msrSelects w 5 = true ∧
        (dpImmRHS w).getLsbD 5 = true)) := by
  refine ⟨_, mainswitch_msr hw, ?_⟩
  cases h25 : w.getLsbD 25
  · have ht : ∀ i < 32, TBIT.getLsbD i = decide (i = 5) := by decide
    rw [if_neg Bool.false_ne_true, msrExact_fixCPSR hs]
    · refine iff_of_true ?_ (fun h => absurd h.1 (by decide))
      rintro ⟨-, -, h5⟩
      rw [BitVec.getLsbD_and, BitVec.getLsbD_not, ht 5 (by omega)] at h5
      simp at h5
    · intro i hi h5
      rw [msrOperand, h25, if_neg Bool.false_ne_true, BitVec.getLsbD_and, BitVec.getLsbD_not,
        ht i hi, decide_eq_false h5]
      simp [hi]
  · rw [if_pos rfl, msrExact_fixCPSR hs fun i _ _ => by rw [msrOperand, h25, if_pos rfl]]
    simp

/-- `MSR CPSR_c, #0x13` after reset -/
theorem msr_exact_iff_svc :
    let s := Arm920t.boot.setReg 15 8
    ∃ t, s.mainswitch (Arm920t.ops 0) 0 0xE321F013 = some t ∧ (MsrExact s t .svc 0xE321F013 ↔
      ¬ ((0xE321F013 : ARMword).getLsbD 25 = true ∧ Mode32.svc ≠ .user ∧
        msrSelects 0xE321F013 5 = true ∧ (dpImmRHS 0xE321F013).getLsbD 5 = true)) :=
  @msr_exact_iff _ (Arm920t.boot.setReg 15 8) .svc 0 0xE321F013 (Arm920t.ops 0)
    ⟨⟨rfl, rfl⟩, rfl, rfl, rfl⟩ ⟨by decide, by decide, .inr (by decide)⟩

/-- `MSR CPSR_c, #0x33` goes over to Thumb. -/
theorem msr_sets_tFlag :
    let s := Arm920t.boot.setReg 15 8
    s.Executing .svc 0 ∧ IsMsr 0xE321F033 ∧
      ∃ t, s.mainswitch (Arm920t.ops 0) 0 0xE321F033 = some t ∧ t.tFlag ≠ s.tFlag ∧
        ¬ MsrExact s t .svc 0xE321F033 := by
  intro s
  have hs : s.Executing .svc 0 := ⟨⟨rfl, rfl⟩, rfl, rfl, rfl⟩
  have hw : IsMsr 0xE321F033 := ⟨by decide, by decide, .inr (by decide)⟩
  have ht : (s.fixCPSR 0xE321F033 (dpImmRHS 0xE321F033)).tFlag ≠ s.tFlag := by
    rw [fixCPSR_tFlag hs]
    decide
  exact ⟨hs, hw, _, mainswitch_msr hw, ht, fun he => ht he.tFlag⟩

end State

end SkyEye
