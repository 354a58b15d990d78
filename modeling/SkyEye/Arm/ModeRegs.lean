import SkyEye.Arm.Banking
import SkyEye.Arm.Exception
import SkyEye.Arm.MmuModels

/-!
# Registers by mode

`ARMul_GetReg` and `ARMul_SetReg` reach a register of a given mode without a switch. They
take it from the row of the mode's own bank, which is where a register is kept only if the
mode has it for itself and another bank is in sight.
-/

namespace SkyEye.State

variable {U : Type} (s : State U)

def armulGetReg (mode : ARMword) (reg : RegNo) : ARMword :=
  let mode := mode &&& MODEBITS
  if mode ≠ s.mode then s.regBank (modeToBank mode) reg else s.reg reg

def armulSetReg (mode : ARMword) (reg : RegNo) (value : ARMword) : State U :=
  let mode := mode &&& MODEBITS
  if mode ≠ s.mode then
    let bank := modeToBank mode
    { s with
      regBank := Function.update s.regBank bank (Function.update (s.regBank bank) reg value) }
  else s.setReg reg value

/-- Register `r` as mode `m` shows it after a switch. -/
def regIn (m : Mode32) (r : RegNo) : ARMword := (s.switchMode s.mode m.bits).reg r

/-- The two functions reach register `r` of mode `m` as a switch does, and no other. -/
structure ReachesReg (m : Mode32) (r : RegNo) : Prop where
  get : s.armulGetReg m.bits r = s.regIn m r
  set : ∀ v, (s.armulSetReg m.bits r v).regIn m r = v
  others : ∀ v m' r', ¬ (r' = r ∧ Shares r m m') →
    (s.armulSetReg m.bits r v).regIn m' r' = s.regIn m' r'

variable {s : State U} {m : Mode32} {r : RegNo}

theorem bits_ne_dummy (m : Mode32) : modeToBank m.bits ≠ .dummy := by
  rw [modeToBank_bits]
  exact m.bank_ne_dummy

theorem regIn_eq_slot (hs : s.ValidMode) (m : Mode32) (r : RegNo) :
    s.regIn m r = s.slot (homeBank m.bank r) r := by
  rw [regIn, switchMode_reg s.mode m.bits hs.bank (hs.bank ▸ hs.bank_ne_dummy) (bits_ne_dummy m),
    modeToBank_bits]

theorem bits_and_modebits (m : Mode32) : m.bits &&& MODEBITS = m.bits := by
  cases m <;> rfl

/-- In the mode itself the registers are in sight. -/
theorem armulGetReg_self (h : m.bits = s.mode) : s.armulGetReg m.bits r = s.reg r := by
  rw [armulGetReg, bits_and_modebits]
  exact if_neg (not_not.mpr h)

theorem armulSetReg_self (h : m.bits = s.mode) (v : ARMword) :
    s.armulSetReg m.bits r v = s.setReg r v := by
  rw [armulSetReg, bits_and_modebits]
  exact if_neg (not_not.mpr h)

/-- The state with a word put into a row of the banks. -/
def withRow (s : State U) (b : Bank) (r : RegNo) (v : ARMword) : State U :=
  { s with regBank := Function.update s.regBank b (Function.update (s.regBank b) r v) }

theorem armulGetReg_of_ne (h : m.bits ≠ s.mode) :
    s.armulGetReg m.bits r = s.regBank m.bank r := by
  rw [armulGetReg, bits_and_modebits, modeToBank_bits]
  exact if_pos h

theorem armulSetReg_of_ne (h : m.bits ≠ s.mode) (v : ARMword) :
    s.armulSetReg m.bits r v = s.withRow m.bank r v := by
  rw [armulSetReg, bits_and_modebits, modeToBank_bits]
  exact if_pos h

/-- A word in a row is seen where the row is the home of the register and out of sight. -/
theorem slot_withRow (b b' : Bank) (r r' : RegNo) (v : ARMword) :
    (s.withRow b r v).slot b' r' =
      if b' = b ∧ r' = r ∧ homeBank s.bank r ≠ b then v else s.slot b' r' := by
  simp only [slot, withRow, Function.update_apply]
  by_cases hb : b' = b
  · by_cases hr : r' = r
    · subst hb hr
      by_cases hh : homeBank s.bank r' = b' <;> simp [hh]
    · subst hb
      simp [hr]
  · simp [hb]

theorem ValidMode.withRow (hs : s.ValidMode) (b : Bank) (r : RegNo) (v : ARMword) :
    (s.withRow b r v).ValidMode := ⟨hs.mode, hs.bank⟩

theorem bank_of_mode (hs : s.ValidMode) (h : m.bits = s.mode) : s.bank = m.bank := by
  rw [hs.bank, ← h, modeToBank_bits]

theorem reachesReg_self (hs : s.ValidMode) (h : m.bits = s.mode) : s.ReachesReg m r := by
  have hb := bank_of_mode hs h
  have hv : ∀ v, (s.setReg r v).ValidMode := fun _ => ⟨hs.mode, hs.bank⟩
  refine ⟨?_, fun v => ?_, fun v m' r' hne => ?_⟩
  · rw [armulGetReg_self h, regIn_eq_slot hs, reg_eq_slot, hb]
  · rw [armulSetReg_self h, regIn_eq_slot (hv v), slot_setReg, if_pos ⟨rfl, by rw [hb]⟩]
  · rw [armulSetReg_self h, regIn_eq_slot (hv v), regIn_eq_slot hs, slot_setReg, if_neg]
    rintro ⟨rfl, hh⟩
    rw [hb, homeBank_eq_iff] at hh
    exact hne ⟨rfl, hh⟩

theorem reachesReg_of_ne (hs : s.ValidMode) (h : m.bits ≠ s.mode) :
    s.ReachesReg m r ↔ homeBank m.bank r = m.bank ∧ homeBank s.bank r ≠ m.bank := by
  have hset (v : ARMword) (m' : Mode32) (r' : RegNo) : (s.armulSetReg m.bits r v).regIn m' r' =
      if homeBank m'.bank r' = m.bank ∧ r' = r ∧ homeBank s.bank r ≠ m.bank then v
      else s.regIn m' r' := by
    rw [armulSetReg_of_ne h, regIn_eq_slot (hs.withRow ..), slot_withRow, regIn_eq_slot hs]
  constructor
  · intro he
    by_contra hc
    -- the write is lost, whatever is written
    have hlost : ∀ v, v = s.regIn m r := fun v => by
      rw [← he.set v, hset, if_neg fun hx => hc ⟨hx.1, hx.2.2⟩]
    have := (hlost 0).trans (hlost 1).symm
    exact absurd this (by decide)
  · rintro ⟨hm, hn⟩
    refine ⟨?_, fun v => ?_, fun v m' r' hne => ?_⟩
    · rw [armulGetReg_of_ne h, regIn_eq_slot hs, slot, hm, if_neg hn]
    · rw [hset, if_pos ⟨hm, rfl, hn⟩]
    · rw [hset, if_neg]
      rintro ⟨hh, rfl, -⟩
      rw [← hm, eq_comm, homeBank_eq_iff] at hh
      exact hne ⟨rfl, hh⟩

/-- The registers that the two functions reach as a switch of modes does: those of the current
mode, and those that a bank out of sight keeps in its own row. -/
theorem reaches_reg_iff (hs : s.ValidMode) (m : Mode32) (r : RegNo) :
    s.ReachesReg m r ↔
      m.bits = s.mode ∨ homeBank m.bank r = m.bank ∧ homeBank s.bank r ≠ m.bank := by
  by_cases h : m.bits = s.mode
  · exact iff_of_true (reachesReg_self hs h) (.inl h)
  · rw [reachesReg_of_ne hs h]
    exact ⟨.inr, fun hc => hc.resolve_left h⟩

/-- The user's stack pointer, asked for in supervisor mode -/
theorem reaches_reg_iff_sp : Arm920t.boot.ReachesReg .user 13 ↔
    Mode32.user.bits = Arm920t.boot.mode ∨ homeBank Mode32.user.bank 13 = Mode32.user.bank ∧
      homeBank Arm920t.boot.bank 13 ≠ Mode32.user.bank :=
  reaches_reg_iff (s := Arm920t.boot) ⟨.inl ⟨.svc, rfl⟩, rfl⟩ .user 13

/-- The registers 0 to 7 are never in a row. -/
theorem reaches_reg_low :
    let s := Arm920t.boot.setReg 0 1
    s.ValidMode ∧ s.armulGetReg Mode32.user.bits 0 = 0 ∧ s.regIn .user 0 = 1 ∧
      ¬ s.ReachesReg .user 0 := by
  intro s
  have hs : s.ValidMode := ⟨.inl ⟨.svc, rfl⟩, rfl⟩
  have hm : Mode32.user.bits ≠ s.mode := by decide
  refine ⟨hs, ?_, ?_, fun he => ?_⟩
  · rw [armulGetReg_of_ne hm]
    rfl
  · rw [regIn_eq_slot hs]
    rfl
  · exact ((reachesReg_of_ne hs hm).mp he).2 rfl

end SkyEye.State
