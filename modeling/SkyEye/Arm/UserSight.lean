import SkyEye.Arm.AbortModel
import SkyEye.Arm.Block

/-!
# The user bank in sight of a mode

`LoadSMult` and `StoreSMult` put the user bank in sight with a bare `ARMul_SwitchMode`
and leave `Mode` as it is. An abort then saves what is in sight as the registers of that
mode; the load afterwards switches once more, from the user bank to the mode that is now
Abort mode. Here it is worked out where every register ends up, and when that happens to
be right.
-/

namespace SkyEye.State

variable {U : Type} {s : State U} {m : Mode32}

/-! ## Switches from a bank that is not in sight -/

/-- The visible registers after a switch, whatever bank was in sight. -/
theorem switchMode_reg_raw (old new : ARMword) (ho : modeToBank old ≠ .dummy)
    (hn : modeToBank new ≠ .dummy) (r : RegNo) :
    (s.switchMode old new).reg r =
      if homeBank (modeToBank old) r = homeBank (modeToBank new) r then s.reg r
      else s.regBank (homeBank (modeToBank new) r) r := by
  by_cases h : modeToBank old = modeToBank new
  · simp only [switchMode, h, ne_eq, not_true, if_false, if_true]
  · simp only [switchMode, ne_eq, h, not_false_eq_true, if_true, restoreBank_reg hn h, saveBank_reg,
      saveBank_regBank ho h, not_true, and_false, if_false]

/-- The rows out of sight after a switch. -/
theorem switchMode_regBank_raw (old new : ARMword) (ho : modeToBank old ≠ .dummy) (b : Bank)
    (r : RegNo) :
    (s.switchMode old new).regBank b r =
      if homeBank (modeToBank old) r = b ∧ homeBank (modeToBank new) r ≠ b then s.reg r
      else s.regBank b r := by
  by_cases h : modeToBank old = modeToBank new
  · have hno : ¬ (homeBank (modeToBank new) r = b ∧ homeBank (modeToBank new) r ≠ b) :=
      fun h => h.2 h.1
    simp only [switchMode, h, ne_eq, not_true, if_false, hno]
  · simp only [switchMode, ne_eq, h, not_false_eq_true, if_true, restoreBank_regBank,
      saveBank_regBank ho h]

/-! ## The abort -/

/-- What an abort in mode `m` does with the bank that happens to be in sight. -/
structure AbortedFrom (s t : State U) (m : Mode32) : Prop where
  mode : t.mode = ABORT32MODE
  bank : t.bank = if m = .abort then s.bank else .abort
  spsr : t.spsr .abort = s.getCPSR
  reg : ∀ r, r ≠ 15 → t.reg r = if r = 14 then s.reg 15
    else (s.switchMode m.bits ABORT32MODE).reg r
  regBank : t.regBank = (s.switchMode m.bits ABORT32MODE).regBank
  aborted : t.aborted = 0

/-- A switch moves the registers alike in states that agree on them. -/
theorem switchMode_congr {t : State U} (old new : ARMword) (ho : modeToBank old ≠ .dummy)
    (hn : modeToBank new ≠ .dummy) (hr : t.reg = s.reg) (hb : t.regBank = s.regBank) :
    (t.switchMode old new).reg = (s.switchMode old new).reg ∧
      (t.switchMode old new).regBank = (s.switchMode old new).regBank := by
  constructor
  · funext r
    rw [switchMode_reg_raw old new ho hn, switchMode_reg_raw old new ho hn, hr, hb]
  · funext b r
    rw [switchMode_regBank_raw old new ho, switchMode_regBank_raw old new ho, hr, hb]

theorem switchMode_aborted (old new : ARMword) : (s.switchMode old new).aborted = s.aborted := by
  simp only [switchMode]
  split
  · cases modeToBank old <;> cases modeToBank new <;> rfl
  · rfl

/-- The move into Abort mode: none if the mode is that already. -/
theorem moveToAbort (hm : s.mode = m.bits) {c : ARMword} (hc : c &&& MODEBITS = ABORT32MODE) :
    let t := if s.mode ≠ c &&& MODEBITS then s.changeMode (c &&& MODEBITS) else s
    t.mode = ABORT32MODE ∧ t.bank = (if m = .abort then s.bank else .abort) ∧
      t.reg = (s.switchMode m.bits ABORT32MODE).reg ∧
      t.regBank = (s.switchMode m.bits ABORT32MODE).regBank ∧ t.spsr = s.spsr ∧
      t.aborted = s.aborted := by
  rw [hc, hm]
  by_cases h : m = .abort
  · subst h
    exact ⟨hm, rfl, rfl, rfl, rfl, rfl⟩
  · have hne : m.bits ≠ ABORT32MODE := by
      cases m <;> first | exact absurd rfl h | decide
    dsimp only
    rw [if_pos hne, if_neg h, changeMode, hm]
    refine ⟨rfl, switchMode_bank .., rfl, rfl, switchMode_spsr .., ?_⟩
    exact switchMode_aborted _ _

theorem abortedFrom_abort (hm : s.mode = m.bits) (hp : s.prog32Sig = true) (ht : s.tFlag = false) :
    s.AbortedFrom (s.abort DATAABORTV) m := by
  let s' : State U := { s with aborted := 0 }
  have hmb : s.mode &&& MODEBITS = s.mode := by
    rw [hm]
    cases m <;> rfl
  obtain ⟨hc, -⟩ := setAbort_cpsr hmb .abort (i := IBIT) (.inl rfl)
  have hlink : s.abortPC - s.linkOffset .dataAbort = s.reg 15 := by
    have h32 : s.mode32Bit = true := by rw [mode32Bit, hm, m.lt_bits]
    rw [abortPC_eq hp, getPC, h32]
    simp [linkOffset, ht]
  let c := (s.getCPSR &&& ~~~(s.mode ||| TBIT)) ||| IBIT ||| Mode32.abort.bits
  let s₁ : State U := { s' with spsr := Function.update s.spsr .abort s.getCPSR, cpsr := c }
  have hset : s'.setAbort s.abortPC IBIT ABORT32MODE (s.linkOffset .dataAbort) =
      s₁.cpsrAltered.setReg 14 (s.reg 15) := by
    rw [← hlink]
    rfl
  have he : s'.enterException DATAABORTV =
      s'.setAbort s.abortPC IBIT ABORT32MODE (s.linkOffset .dataAbort) :=
    enterException_eq (s := s') hp .dataAbort
  obtain ⟨hmode, hbank, hreg, hrow, hspsr, hab⟩ := moveToAbort (s := s₁) hm hc
  obtain ⟨hcr, hcb⟩ := switchMode_congr (s := s) (t := s₁) m.bits ABORT32MODE
    (by rw [modeToBank_bits]; exact m.bank_ne_dummy) (by decide) rfl rfl
  obtain ⟨v, e, hf⟩ := fixR15_eq
    (if s₁.mode ≠ s₁.cpsr &&& MODEBITS then s₁.changeMode (s₁.cpsr &&& MODEBITS)
      else s₁).assignFlags s₁.mode
  have halt : s₁.cpsrAltered = (if s₁.mode ≠ s₁.cpsr &&& MODEBITS then
      s₁.changeMode (s₁.cpsr &&& MODEBITS) else s₁).assignFlags.fixR15 s₁.mode := by
    have hp₁ : s₁.prog32Sig = true := hp
    simp only [cpsrAltered, hp₁, if_true]
  rw [hf] at halt
  generalize (if s₁.mode ≠ s₁.cpsr &&& MODEBITS then
      s₁.changeMode (s₁.cpsr &&& MODEBITS) else s₁) = y at hmode hbank hreg hrow hspsr hab halt
  have h32 : (s₁.cpsrAltered.setReg 14 (s.reg 15)).mode32Bit = true := by
    rw [halt]
    show decide (SVC26MODE < y.mode) = true
    rw [hmode]
    decide
  rw [abort, he, hset]
  dsimp only
  rw [if_pos h32, setR15, if_pos h32, halt]
  refine ⟨hmode, hbank, ?_, fun r h15 => ?_, hrow.trans hcb, hab⟩
  · show y.spsr .abort = _
    rw [hspsr]
    show Function.update s.spsr .abort s.getCPSR .abort = s.getCPSR
    rw [Function.update_self]
  · have hr : y.reg r = (s.switchMode m.bits ABORT32MODE).reg r := by rw [hreg, hcr]
    rw [← hr]
    show Function.update (Function.update (Function.update y.reg 15 _) 14 _) 15 _ r = _
    rw [Function.update_of_ne h15]
    by_cases h14 : r = 14
    · rw [if_pos h14, h14, Function.update_self]
    · rw [if_neg h14, Function.update_of_ne h14, Function.update_of_ne h15]

/-! ## The user bank in sight of a mode -/

/-- A switch moves registers and bank, and nothing else. -/
theorem switchMode_eq (old new : ARMword) :
    s.switchMode old new = { s with
      reg := (s.switchMode old new).reg, regBank := (s.switchMode old new).regBank
      bank := modeToBank new } := by
  simp only [switchMode]
  split
  · cases modeToBank old <;> cases modeToBank new <;> rfl
  · rfl

theorem homeBank_user (r : RegNo) : homeBank .user r = .user := by
  unfold homeBank
  split
  · rfl
  · split <;> rfl

/-- The step both transfers begin with. -/
def inUserBank (s : State U) : State U := if s.bank != .user then s.toUserBank else s

/-- `t` is in mode `m` as `s` is, but shows `v` in the place of the mode's registers; those and
all other registers of `s` are in their rows. -/
structure UserSight (s t : State U) (m : Mode32) (v : RegNo → ARMword) : Prop where
  mode : t.mode = m.bits
  bank : t.bank = .user
  prog32Sig : t.prog32Sig = true
  tFlag : t.tFlag = false
  lateabtSig : t.lateabtSig = s.lateabtSig
  getCPSR : t.getCPSR = s.getCPSR
  link : t.reg 15 = s.abortLink
  reg : ∀ r, r ≠ 15 → t.reg r = v r
  row : ∀ b r, r ≠ 15 → b ≠ .user ∨ homeBank m.bank r ≠ .user → t.regBank b r = s.slot b r

theorem userSight_inUserBank {pc : ARMword} (hs : s.Executing m pc) (n : ARMword) :
    s.UserSight (s.advance n).inUserBank m fun r => s.slot .user r := by
  have hslot (b : Bank) (r : RegNo) (h15 : r ≠ 15) : (s.advance n).slot b r = s.slot b r :=
    (slot_setReg (s := s) 15 s.abortLink b r).trans (if_neg fun h => h15 h.1)
  have hlink := s.advance_reg_pc n
  have hb : (s.advance n).bank = m.bank := hs.inMode.bank
  rw [inUserBank]
  by_cases hu : m.bank = .user
  · have hub : ((s.advance n).bank != .user) = false := by rw [hb, hu]; rfl
    rw [hub, if_neg Bool.false_ne_true]
    refine ⟨hs.inMode.mode, hb.trans hu, hs.prog32Sig, hs.tFlag, rfl, rfl, hlink, fun r h15 => ?_,
      fun b r h15 h => ?_⟩
    · rw [reg_eq_slot, hslot _ r h15, hb, hu, homeBank_user]
    · have hne : homeBank (s.advance n).bank r ≠ b := by
        rw [hb, hu, homeBank_user]
        rintro rfl
        rw [hu, homeBank_user] at h
        simp at h
      rw [← hslot b r h15, slot, if_neg hne]
  · have hub : ((s.advance n).bank != .user) = true := by rw [hb]; simpa using hu
    rw [hub, if_pos rfl, toUserBank]
    have hm : (s.advance n).mode = m.bits := hs.inMode.mode
    have ho : modeToBank (s.advance n).mode ≠ .dummy := by
      rw [hm, modeToBank_bits]
      exact m.bank_ne_dummy
    have hn : modeToBank USER26MODE ≠ .dummy := by decide
    have hbank : (s.advance n).bank = modeToBank (s.advance n).mode := by
      rw [hb, hm, modeToBank_bits]
    have hsame := slot_switchMode (s.advance n).mode USER26MODE hbank ho hn
    have he := switchMode_eq (s := s.advance n) (s.advance n).mode USER26MODE
    refine ⟨(congrArg State.mode he).trans hm, switchMode_bank _ _,
      (congrArg State.prog32Sig he).trans hs.prog32Sig, (congrArg State.tFlag he).trans hs.tFlag,
      (congrArg State.lateabtSig he).trans rfl, (congrArg State.getCPSR he).trans rfl, ?_,
      fun r h15 => ?_, fun b r h15 h => ?_⟩
    · rw [switchMode_reg_raw _ _ ho hn, if_pos]
      · exact hlink
      · rw [hm, modeToBank_bits]
        cases m <;> rfl
    · rw [reg_eq_slot, hsame, switchMode_bank, hslot _ r h15]
      exact congrArg (s.slot · r) (homeBank_user r)
    · rw [switchMode_regBank_raw _ _ ho, hm, modeToBank_bits]
      by_cases hbu : b = .user
      · subst hbu
        have hmu : homeBank m.bank r ≠ .user := h.resolve_left fun h => h rfl
        rw [if_neg fun h => hmu h.1, ← hslot _ r h15, slot, hb, if_neg hmu]
      · rw [← hslot b r h15, slot, hb]
        have hub : homeBank (modeToBank USER26MODE) r ≠ b := by
          rw [show modeToBank USER26MODE = Bank.user from rfl, homeBank_user]
          exact Ne.symm hbu
        simp only [hub, ne_eq, not_false_eq_true, and_true]

/-! ## Where the registers end up -/

variable {t u : State U} {v : RegNo → ARMword}

/-- The abort of a mode other than Abort mode saves what is in sight as the mode's registers. -/
theorem UserSight.slot_abort (h : s.UserSight t m v) (hu : t.AbortedFrom u m) (hm : m ≠ .abort)
    (b : Bank) {r : RegNo} (h15 : r ≠ 15) :
    u.slot b r = if b = .abort ∧ r = 14 then s.abortLink
      else if b = homeBank m.bank r then v r else s.slot b r := by
  have hno : modeToBank m.bits ≠ .dummy := by rw [modeToBank_bits]; exact m.bank_ne_dummy
  have hna : modeToBank ABORT32MODE ≠ .dummy := by decide
  have ha : modeToBank ABORT32MODE = .abort := rfl
  have h14 : homeBank Bank.abort 14 = .abort := rfl
  have hbank : u.bank = .abort := hu.bank.trans (if_neg hm)
  -- one of the two banks is not the user's unless they agree, so the row holds the slot
  have hrow (hne : homeBank m.bank r ≠ b) : t.regBank b r = s.slot b r := by
    refine h.row b r h15 ?_
    by_cases hbu : b = .user
    · exact .inr fun hmu => hne (hmu.trans hbu.symm)
    · exact .inl hbu
  rw [slot, hbank]
  by_cases hb : homeBank .abort r = b
  · rw [if_pos hb, hu.reg r h15]
    by_cases hr : r = 14
    · have hab : b = .abort := by rw [← hb, hr, h14]
      rw [if_pos hr, if_pos ⟨hab, hr⟩, h.link]
    · rw [if_neg hr, if_neg fun h => hr h.2, switchMode_reg_raw _ _ hno hna, modeToBank_bits, ha,
        hb]
      by_cases hmb : homeBank m.bank r = b
      · rw [if_pos hmb, if_pos hmb.symm, h.reg r h15]
      · rw [if_neg hmb, if_neg (Ne.symm hmb), hrow hmb]
  · have hno14 : ¬ (b = .abort ∧ r = 14) := by
      rintro ⟨rfl, rfl⟩
      exact hb h14
    rw [if_neg hb, if_neg hno14, hu.regBank, switchMode_regBank_raw _ _ hno, modeToBank_bits, ha]
    by_cases hmb : homeBank m.bank r = b
    · rw [if_pos ⟨hmb, hb⟩, if_pos hmb.symm, h.reg r h15]
    · rw [if_neg fun h => hmb h.1, if_neg (Ne.symm hmb), hrow hmb]

/-- The switch that a load still makes: what is in sight goes to the user's row, and the rows of
Abort mode come back. -/
theorem slot_fromUserBank (hmode : u.mode = ABORT32MODE) (b : Bank) (r : RegNo) :
    u.fromUserBank.slot b r = if b = .user then u.reg r else u.regBank b r := by
  have hn : modeToBank ABORT32MODE ≠ .dummy := by decide
  have ho : modeToBank USER26MODE ≠ .dummy := by decide
  have ha : modeToBank ABORT32MODE = .abort := rfl
  have hus : modeToBank USER26MODE = .user := rfl
  have hb : u.fromUserBank.bank = .abort := by
    rw [fromUserBank, hmode]
    exact switchMode_bank _ _
  rw [slot, hb, fromUserBank, hmode, switchMode_reg_raw _ _ ho hn, switchMode_regBank_raw _ _ ho,
    ha, hus, homeBank_user]
  have hcases := homeBank_cases .abort r
  by_cases hbu : b = .user
  · subst hbu
    rcases hcases with hc | hc
    · simp [hc]
    · simp [hc]
  · rcases hcases with hc | hc
    · simp [hc, hbu, Ne.symm hbu]
    · by_cases hba : b = .abort
      · subst hba
        simp [hc]
      · simp [hc, hbu, Ne.symm hba, Ne.symm hbu]

/-- What the user's registers hold after a load that aborted: `v` is what the load had in sight. -/
def landed (s : State U) (m : Mode32) (v : RegNo → ARMword) (r : RegNo) : ARMword :=
  if r = 14 then s.abortLink
  else if homeBank m.bank r = homeBank .abort r then v r
  else s.slot (homeBank .abort r) r

theorem UserSight.slot_load (h : s.UserSight t m v) (hu : t.AbortedFrom u m) :
    u.fromUserBank.slot .abort 14 = s.slot .abort 14 ∧
      (∀ r, r ≠ 15 → u.fromUserBank.slot .user r = s.landed m v r) ∧
      ∀ r, r ≠ 15 → homeBank m.bank r ≠ .user → u.fromUserBank.slot (homeBank m.bank r) r =
        if homeBank .abort r = homeBank m.bank r then s.slot (homeBank m.bank r) r else v r := by
  have hno : modeToBank m.bits ≠ .dummy := by rw [modeToBank_bits]; exact m.bank_ne_dummy
  have hna : modeToBank ABORT32MODE ≠ .dummy := by decide
  have ha : modeToBank ABORT32MODE = .abort := rfl
  have h14 : homeBank Bank.abort 14 = .abort := rfl
  refine ⟨?_, fun r h15 => ?_, fun r h15 hmu => ?_⟩
  · rw [slot_fromUserBank hu.mode, if_neg (by decide), hu.regBank, switchMode_regBank_raw _ _ hno,
      ha, h14]
    exact (if_neg fun h => h.2 rfl).trans (h.row .abort 14 (by decide) (.inl (by decide)))
  · rw [slot_fromUserBank hu.mode, if_pos rfl, hu.reg r h15, landed, h.link]
    by_cases hr : r = 14
    · rw [if_pos hr, if_pos hr]
    · rw [if_neg hr, if_neg hr, switchMode_reg_raw _ _ hno hna, modeToBank_bits, ha]
      by_cases hmb : homeBank m.bank r = homeBank .abort r
      · rw [if_pos hmb, if_pos hmb, h.reg r h15]
      · rw [if_neg hmb, if_neg hmb]
        refine h.row _ r h15 ?_
        by_cases hau : homeBank .abort r = .user
        · exact .inr fun hmu => hmb (hmu.trans hau.symm)
        · exact .inl hau
  · rw [slot_fromUserBank hu.mode, if_neg hmu, hu.regBank, switchMode_regBank_raw _ _ hno,
      modeToBank_bits, ha]
    by_cases hab : homeBank .abort r = homeBank m.bank r
    · rw [if_neg fun h => h.2 hab, if_pos hab]
      exact h.row _ r h15 (.inl hmu)
    · rw [if_pos ⟨rfl, hab⟩, if_neg hab, h.reg r h15]

/-! ## When that is right -/

/-- The registers are as after any data abort: the link and the SPSR, the interrupted mode's own
registers as they were, the user's as they were or as loaded. -/
structure BankingKept (s t : State U) (m : Mode32) (loads : List (RegNo × ARMword)) : Prop where
  inMode : t.InMode .abort
  link : t.slot .abort 14 = s.abortLink
  spsr : t.spsr .abort = s.getCPSR
  own : ∀ r, r ≠ 15 → homeBank m.bank r ≠ .user → ¬ (m = .abort ∧ r = 14) →
    t.slot (homeBank m.bank r) r = s.slot (homeBank m.bank r) r
  user : ∀ r, r ≠ 15 → t.slot .user r = s.slot .user r ∨ (r, t.slot .user r) ∈ loads

theorem UserSight.kept_store_iff (h : s.UserSight t m v) (hu : t.AbortedFrom u m) :
    s.BankingKept u m [] ↔
      m ≠ .abort ∧ ∀ r, r ≠ 15 → v r = s.slot (homeBank m.bank r) r := by
  constructor
  · intro hk
    have hm : m ≠ .abort := by
      rintro rfl
      have hb := hk.inMode.bank
      rw [hu.bank, if_pos rfl, h.bank] at hb
      cases hb
    refine ⟨hm, fun r h15 => ?_⟩
    have hv : u.slot (homeBank m.bank r) r = v r := by
      rw [h.slot_abort hu hm _ h15, if_neg, if_pos rfl]
      rintro ⟨ha, rfl⟩
      revert ha
      cases m <;> first | exact absurd rfl hm | decide
    by_cases hmu : homeBank m.bank r = .user
    · have := (hk.user r h15).resolve_right (by simp)
      rw [← hv, hmu]
      exact this
    · rw [← hv]
      exact hk.own r h15 hmu fun h => hm h.1
  · rintro ⟨hm, hv⟩
    have hslot (b : Bank) (r : RegNo) (h15 : r ≠ 15) (h14 : ¬ (b = .abort ∧ r = 14)) :
        u.slot b r = s.slot b r := by
      rw [h.slot_abort hu hm b h15, if_neg h14]
      split
      · rename_i hb
        rw [hv r h15, hb]
      · rfl
    refine ⟨⟨hu.mode, hu.bank.trans (if_neg hm)⟩, ?_, ?_, fun r h15 _ _ => ?_, fun r h15 => .inl ?_⟩
    · exact (h.slot_abort hu hm .abort (by decide)).trans (if_pos ⟨rfl, rfl⟩)
    · rw [hu.spsr, h.getCPSR]
    · refine hslot _ r h15 ?_
      rintro ⟨ha, rfl⟩
      revert ha
      cases m <;> first | exact absurd rfl hm | decide
    · exact hslot _ r h15 fun h => by cases h.1

theorem UserSight.kept_load_iff (h : s.UserSight t m v) (hu : t.AbortedFrom u m)
    (loads : List (RegNo × ARMword)) :
    s.BankingKept u.fromUserBank m loads ↔
      s.slot .abort 14 = s.abortLink ∧
      (∀ r, r ≠ 15 → homeBank m.bank r ≠ .user → homeBank .abort r ≠ homeBank m.bank r →
        v r = s.slot (homeBank m.bank r) r) ∧
      ∀ r, r ≠ 15 → s.landed m v r = s.slot .user r ∨ (r, s.landed m v r) ∈ loads := by
  obtain ⟨hlink, huser, hown⟩ := h.slot_load hu
  have hin : u.fromUserBank.InMode .abort := by
    refine ⟨(congrArg State.mode (switchMode_eq (s := u) USER26MODE u.mode)).trans hu.mode, ?_⟩
    rw [fromUserBank, switchMode_bank, hu.mode]
    rfl
  have hspsr : u.fromUserBank.spsr .abort = s.getCPSR := by
    rw [fromUserBank, switchMode_spsr, hu.spsr, h.getCPSR]
  constructor
  · intro hk
    refine ⟨hlink.symm.trans hk.link, fun r h15 hmu hab => ?_, fun r h15 => ?_⟩
    · have ho := hk.own r h15 hmu
      rw [hown r h15 hmu, if_neg hab] at ho
      refine ho ?_
      rintro ⟨rfl, -⟩
      exact hab rfl
    · rw [← huser r h15]
      exact hk.user r h15
  · rintro ⟨h14, hv, hl⟩
    refine ⟨hin, hlink.trans h14, hspsr, fun r h15 hmu _ => ?_, fun r h15 => ?_⟩
    · rw [hown r h15 hmu]
      split
      · rfl
      · rename_i hab
        exact hv r h15 hmu hab
    · rw [huser r h15]
      exact hl r h15

theorem kept_icycles {loads : List (RegNo × ARMword)} :
    s.BankingKept u.icycles m loads ↔ s.BankingKept u m loads :=
  ⟨fun h => ⟨⟨h.inMode.mode, h.inMode.bank⟩, h.link, h.spsr, h.own, h.user⟩,
    fun h => ⟨⟨h.inMode.mode, h.inMode.bank⟩, h.link, h.spsr, h.own, h.user⟩⟩

/-- A step that leaves the memory system and pending aborts alone. -/
theorem inUserBank_frame : s.inUserBank.cpu = s.cpu ∧ s.inUserBank.mmu = s.mmu ∧
    s.inUserBank.aborted = s.aborted := by
  have he := switchMode_eq (s := s) s.mode USER26MODE
  rw [inUserBank]
  split
  · exact ⟨(congrArg State.cpu he).trans rfl, (congrArg State.mmu he).trans rfl,
      (congrArg State.aborted he).trans rfl⟩
  · exact ⟨rfl, rfl, rfl⟩

end SkyEye.State
