import SkyEye.Sparc.Bits
import SkyEye.Lib.DownCounter
import Mathlib.Logic.Function.Basic

/-!
# The LEON2 timer unit

`leon2_timer_unit.c`: a prescaler that is stepped by every cycle and steps two timers and
the watchdog. A timer that is reloaded keeps its period. One that is not keeps its enable
bit and counts on, against the comment of the code, and only timer 1 has the load bit.
-/

namespace SkyEye.Sparc

abbrev TIMER_CTRL_EN : Nat := 0
abbrev TIMER_CTRL_RL : Nat := 1
abbrev TIMER_CTRL_LD : Nat := 2

abbrev TIMER1_COUNTER_REGISTER : Nat := 0
abbrev TIMER1_RELOAD_REGISTER : Nat := 1
abbrev TIMER1_CONTROL_REGISTER : Nat := 2
abbrev WATCHDOG_REGISTER : Nat := 3
abbrev TIMER2_COUNTER_REGISTER : Nat := 4
abbrev TIMER2_RELOAD_REGISTER : Nat := 5
abbrev TIMER2_CONTROL_REGISTER : Nat := 6
abbrev PRESCALER_COUNTER_REGISTER : Nat := 8
abbrev PRESCALER_RELOAD_REGISTER : Nat := 9

abbrev UNDERFLOW : Uint32 := 0xffffffff

abbrev TIMER2_INT : Nat := 8
abbrev TIMER1_INT : Nat := 9
abbrev USER_DEFINED_INT1 : Nat := 15

/-- `TIMERState` and `wdog_enabled`, the registers by their number. -/
structure TimerState where
  address : Uint32
  regs : Nat → Uint32
  wdogEnabled : Bool

/-- The two timers, which the code has side by side. -/
inductive Timer where
  | timer1
  | timer2
  deriving DecidableEq

namespace Timer

/-- `COUNTER_1`, `COUNTER_2` -/
def counter : Timer → Nat
  | timer1 => TIMER1_COUNTER_REGISTER
  | timer2 => TIMER2_COUNTER_REGISTER

/-- `RELOAD_1`, `RELOAD_2` -/
def reload : Timer → Nat
  | timer1 => TIMER1_RELOAD_REGISTER
  | timer2 => TIMER2_RELOAD_REGISTER

/-- `CONTROL_1`, `CONTROL_2` -/
def control : Timer → Nat
  | timer1 => TIMER1_CONTROL_REGISTER
  | timer2 => TIMER2_CONTROL_REGISTER

def int : Timer → Nat
  | timer1 => TIMER1_INT
  | timer2 => TIMER2_INT

end Timer

namespace TimerState

variable (t : TimerState) (u : Timer)

def setReg (k : Nat) (v : Uint32) : TimerState := { t with regs := Function.update t.regs k v }

/-- The tick of a timer, if it is enabled. -/
def tick : TimerState :=
  if bit (t.regs u.control) TIMER_CTRL_EN then t.setReg u.counter (t.regs u.counter - 1) else t

/-- What the code does at `UNDERFLOW`, with the interrupt it signals. The enable bit stays. -/
def underflow : TimerState × List Nat :=
  if t.regs u.counter = UNDERFLOW then
    (if bit (t.regs u.control) TIMER_CTRL_RL then t.setReg u.counter (t.regs u.reload) else t,
      [u.int])
  else (t, [])

/-- The tick for the timers and the watchdog, with the interrupts passed to `leon2_set_int`. -/
def timerTick : TimerState × List Nat :=
  let t := (t.tick .timer1).tick .timer2
  let (t, ints1) := t.underflow .timer1
  let (t, ints2) := t.underflow .timer2
  let t :=
    if t.wdogEnabled then t.setReg WATCHDOG_REGISTER (t.regs WATCHDOG_REGISTER - 1) else t
  (t, ints1 ++ ints2 ++ if t.regs WATCHDOG_REGISTER = UNDERFLOW then [USER_DEFINED_INT1] else [])

/-- `leon2_timer_core_cycle` -/
def coreCycle : TimerState × List Nat :=
  let t := t.setReg PRESCALER_COUNTER_REGISTER (t.regs PRESCALER_COUNTER_REGISTER - 1)
  if t.regs PRESCALER_COUNTER_REGISTER = UNDERFLOW then
    (t.setReg PRESCALER_COUNTER_REGISTER (t.regs PRESCALER_RELOAD_REGISTER)).timerTick
  else (t, [])

/-- `leon2_timer_core_write`. The load bit is looked at in the control register of timer 1. -/
def coreWrite (addr val : Uint32) : TimerState :=
  let val := val &&& 0x00ffffff
  let reg := ((addr - t.address) >>> 2).toNat
  let t := t.setReg reg val
  if reg = TIMER1_CONTROL_REGISTER then
    if bit (t.regs TIMER1_CONTROL_REGISTER) TIMER_CTRL_LD then
      let t := t.setReg TIMER1_COUNTER_REGISTER (t.regs TIMER1_RELOAD_REGISTER)
      t.setReg TIMER1_CONTROL_REGISTER
        (clearBit (t.regs TIMER1_CONTROL_REGISTER) TIMER_CTRL_LD)
    else t
  else t

/-- `n` cycles, with the interrupts so far. -/
def run : Nat → TimerState × List Nat
  | 0 => (t, [])
  | n + 1 => ((run n).1.coreCycle.1, (run n).2 ++ (run n).1.coreCycle.2)

/-- The state after `n` cycles. -/
def after (n : Nat) : TimerState := (t.run n).1

/-- How often the timer has raised its interrupt in `n` cycles. -/
def interrupts (n : Nat) : Nat := (t.run n).2.count u.int

def enabled : Bool := bit (t.regs u.control) TIMER_CTRL_EN

def reloads : Bool := bit (t.regs u.control) TIMER_CTRL_RL

/-- What the counter starts again from when it underflows. -/
def restart : Uint32 := if t.reloads u then t.regs u.reload else UNDERFLOW

/-- How often the prescaler has underflowed in `n` cycles: after `PRE_COUNTER + 1` of them
and then every `PRE_RELOAD + 1`. -/
def ticks (n : Nat) : Nat :=
  DownCounter.underflows (t.regs PRESCALER_RELOAD_REGISTER).toNat
    (t.regs PRESCALER_COUNTER_REGISTER).toNat n

/-! ## One tick -/

@[simp] theorem regs_setReg (k : Nat) (v : Uint32) (j : Nat) :
    (t.setReg k v).regs j = if j = k then v else t.regs j := by
  simp [setReg, Function.update_apply]

theorem regs_tick (j : Nat) : (t.tick u).regs j =
    if t.enabled u ∧ j = u.counter then t.regs u.counter - 1 else t.regs j := by
  unfold tick enabled
  split
  · rename_i h
    simp [h]
  · rename_i h
    simp [h]

theorem regs_underflow (j : Nat) : (t.underflow u).1.regs j =
    if t.regs u.counter = UNDERFLOW ∧ t.reloads u ∧ j = u.counter then t.regs u.reload
    else t.regs j := by
  unfold underflow reloads
  by_cases h : t.regs u.counter = UNDERFLOW
  · rw [if_pos h]
    by_cases hr : bit (t.regs u.control) TIMER_CTRL_RL
    · simp [h, hr]
    · simp [hr]
  · rw [if_neg h, if_neg (fun hc => h hc.1)]

theorem ints_underflow : (t.underflow u).2 =
    if t.regs u.counter = UNDERFLOW then [u.int] else [] := by
  unfold underflow
  split <;> rfl

/-- `x - 1 = UNDERFLOW`, as `simp` leaves it. -/
@[simp] theorem sub_one_eq_underflow_iff (x : Uint32) : x - 1#32 = 4294967295#32 ↔ x = 0#32 := by
  constructor
  · intro h
    rw [← BitVec.sub_add_cancel x 1#32, h]
    rfl
  · rintro rfl
    rfl

/-- The registers that a tick may change. -/
def Ticks (j : Nat) : Prop :=
  j = TIMER1_COUNTER_REGISTER ∨ j = TIMER2_COUNTER_REGISTER ∨ j = WATCHDOG_REGISTER

theorem not_ticks_control : ¬Ticks u.control := by
  cases u <;> simp [Ticks, Timer.control]

theorem not_ticks_reload : ¬Ticks u.reload := by
  cases u <;> simp [Ticks, Timer.reload]

theorem regs_timerTick_of_not_ticks {j : Nat} (hj : ¬Ticks j) :
    t.timerTick.1.regs j = t.regs j := by
  unfold Ticks at hj
  obtain ⟨h1, h2, hw⟩ : j ≠ TIMER1_COUNTER_REGISTER ∧ j ≠ TIMER2_COUNTER_REGISTER ∧
      j ≠ WATCHDOG_REGISTER := by
    simpa [not_or] using hj
  unfold timerTick
  dsimp only
  split <;> simp [regs_underflow, regs_tick, Timer.counter, h1, h2, hw]

@[simp] theorem control_ne_counter (v : Timer) : u.control ≠ v.counter := by
  cases u <;> cases v <;> decide

@[simp] theorem reload_ne_counter (v : Timer) : u.reload ≠ v.counter := by
  cases u <;> cases v <;> decide

@[simp] theorem counter_eq_counter (v : Timer) : u.counter = v.counter ↔ u = v := by
  cases u <;> cases v <;> decide

@[simp] theorem counter_ne_watchdog : u.counter ≠ WATCHDOG_REGISTER := by
  cases u <;> decide

@[simp] theorem int_eq_int (v : Timer) : u.int = v.int ↔ u = v := by
  cases u <;> cases v <;> decide

@[simp] theorem enabled_tick (v : Timer) : (t.tick v).enabled u = t.enabled u := by
  simp [enabled, regs_tick]

@[simp] theorem reloads_tick (v : Timer) : (t.tick v).reloads u = t.reloads u := by
  simp [reloads, regs_tick]

@[simp] theorem reloads_underflow (v : Timer) : (t.underflow v).1.reloads u = t.reloads u := by
  simp [reloads, regs_underflow]

/-- The timers do not see each other. -/
theorem counter_ticks (he : t.enabled u = true) :
    ((t.tick .timer1).tick .timer2).regs u.counter = t.regs u.counter - 1 := by
  cases u <;> simp [regs_tick, he]

theorem counter_underflows : ((t.underflow .timer1).1.underflow .timer2).1.regs u.counter =
    if t.regs u.counter = UNDERFLOW ∧ t.reloads u then t.regs u.reload
    else t.regs u.counter := by
  cases u <;> simp [regs_underflow]

theorem counter_timerTick (he : t.enabled u = true) : t.timerTick.1.regs u.counter =
    if t.regs u.counter = 0 then t.restart u else t.regs u.counter - 1 := by
  have hw : t.timerTick.1.regs u.counter = ((((t.tick .timer1).tick .timer2).underflow
      .timer1).1.underflow .timer2).1.regs u.counter := by
    unfold timerTick
    dsimp only
    split <;> simp
  rw [hw, counter_underflows, counter_ticks t u he, reloads_tick, reloads_tick, restart]
  by_cases hz : t.regs u.counter = 0#32
  · by_cases hr : t.reloads u
    · simp [hz, hr, regs_tick]
    · simp [hz, hr]
  · simp [hz, sub_one_eq_underflow_iff]

@[simp] theorem watchdog_ne_int : USER_DEFINED_INT1 ≠ u.int := by
  cases u <;> decide

theorem count_underflow (v : Timer) : (t.underflow v).2.count u.int =
    if t.regs v.counter = UNDERFLOW ∧ v = u then 1 else 0 := by
  rw [ints_underflow]
  by_cases h : t.regs v.counter = UNDERFLOW
  · rw [if_pos h]
    by_cases hv : v = u
    · rw [if_pos ⟨h, hv⟩, hv, List.count_singleton_self]
    · rw [if_neg fun hc => hv hc.2, List.count_eq_zero]
      simpa [eq_comm] using hv
  · rw [if_neg h, if_neg fun hc => h hc.1, List.count_nil]

theorem count_timerTick (he : t.enabled u = true) :
    t.timerTick.2.count u.int = if t.regs u.counter = 0 then 1 else 0 := by
  have hw (x : TimerState) :
      (if x.regs WATCHDOG_REGISTER = UNDERFLOW then [USER_DEFINED_INT1] else []).count
        u.int = 0 := by
    split <;> simp
  have h := counter_ticks t u he
  unfold timerTick
  dsimp only
  rw [List.count_append, List.count_append, hw, count_underflow, count_underflow]
  cases u
  · simp [h]
  · simp [h, regs_underflow]

/-! ## One cycle -/

/-- The prescaler underflows. -/
theorem coreCycle_of_zero {t : TimerState} (h : t.regs PRESCALER_COUNTER_REGISTER = 0) :
    ∃ x : TimerState, t.coreCycle = x.timerTick ∧
      x.regs PRESCALER_COUNTER_REGISTER = t.regs PRESCALER_RELOAD_REGISTER ∧
      ∀ j, j ≠ PRESCALER_COUNTER_REGISTER → x.regs j = t.regs j := by
  unfold coreCycle
  dsimp only
  rw [if_pos (by simp [h])]
  exact ⟨_, rfl, by simp, fun j hj => by simp [hj]⟩

/-- The prescaler counts. -/
theorem coreCycle_of_ne {t : TimerState} (h : t.regs PRESCALER_COUNTER_REGISTER ≠ 0) :
    t.coreCycle = (t.setReg PRESCALER_COUNTER_REGISTER
      (t.regs PRESCALER_COUNTER_REGISTER - 1), []) := by
  unfold coreCycle
  dsimp only
  rw [if_neg (by simpa using h)]

theorem regs_coreCycle {j : Nat} (hp : j ≠ PRESCALER_COUNTER_REGISTER) (hj : ¬Ticks j) :
    t.coreCycle.1.regs j = t.regs j := by
  by_cases h : t.regs PRESCALER_COUNTER_REGISTER = 0
  · obtain ⟨x, hx, -, hr⟩ := coreCycle_of_zero h
    rw [hx, regs_timerTick_of_not_ticks x hj, hr j hp]
  · rw [coreCycle_of_ne h, regs_setReg, if_neg hp]

theorem toNat_sub_one {x : Uint32} (h : x ≠ 0) : (x - 1).toNat = x.toNat - 1 := by
  have := x.isLt
  have h0 : x.toNat ≠ 0 := fun hx => h (BitVec.eq_of_toNat_eq hx)
  have h1 : (1 : Uint32).toNat = 1 := rfl
  rw [BitVec.toNat_sub, h1]
  omega

/-- A register that goes down from `x` and starts again at `r` is a down counter. -/
theorem toNat_next (r x : Uint32) :
    (if x = 0 then r else x - 1).toNat = DownCounter.next r.toNat x.toNat := by
  by_cases h : x = 0
  · rw [if_pos h, h]
    rfl
  · have h0 : x.toNat ≠ 0 := fun hx => h (BitVec.eq_of_toNat_eq hx)
    rw [if_neg h, toNat_sub_one h, DownCounter.next, if_neg h0]

theorem prescaler_coreCycle : (t.coreCycle.1.regs PRESCALER_COUNTER_REGISTER).toNat =
    DownCounter.next (t.regs PRESCALER_RELOAD_REGISTER).toNat
      (t.regs PRESCALER_COUNTER_REGISTER).toNat := by
  rw [← toNat_next]
  by_cases h : t.regs PRESCALER_COUNTER_REGISTER = 0
  · obtain ⟨x, hx, hp, -⟩ := coreCycle_of_zero h
    rw [hx, regs_timerTick_of_not_ticks x (by simp [Ticks]), hp, if_pos h]
  · rw [coreCycle_of_ne h, regs_setReg, if_pos rfl, if_neg h]

theorem toNat_eq_zero {x : Uint32} : x.toNat = 0 ↔ x = 0 :=
  ⟨fun h => BitVec.eq_of_toNat_eq h, fun h => by rw [h]; rfl⟩

theorem counter_coreCycle (he : t.enabled u = true) :
    (t.coreCycle.1.regs u.counter).toNat =
      if (t.regs PRESCALER_COUNTER_REGISTER).toNat = 0 then
        DownCounter.next (t.restart u).toNat (t.regs u.counter).toNat
      else (t.regs u.counter).toNat := by
  have hne : u.counter ≠ PRESCALER_COUNTER_REGISTER := by cases u <;> decide
  by_cases h : t.regs PRESCALER_COUNTER_REGISTER = 0
  · obtain ⟨x, hx, -, hr⟩ := coreCycle_of_zero h
    have hc : x.regs u.control = t.regs u.control := hr _ (by cases u <;> decide)
    have hl : x.regs u.reload = t.regs u.reload := hr _ (by cases u <;> decide)
    have hs : x.restart u = t.restart u := by rw [restart, restart, reloads, reloads, hc, hl]
    have hx' : x.enabled u = true := by rwa [enabled, hc]
    rw [hx, counter_timerTick x u hx', hs, hr _ hne, toNat_next, if_pos (toNat_eq_zero.mpr h)]
  · rw [coreCycle_of_ne h, regs_setReg, if_neg hne, if_neg (mt toNat_eq_zero.mp h)]

theorem count_coreCycle (he : t.enabled u = true) :
    t.coreCycle.2.count u.int =
      if (t.regs PRESCALER_COUNTER_REGISTER).toNat = 0 ∧ (t.regs u.counter).toNat = 0 then 1
      else 0 := by
  by_cases h : t.regs PRESCALER_COUNTER_REGISTER = 0
  · obtain ⟨x, hx, -, hr⟩ := coreCycle_of_zero h
    have hc : x.regs u.control = t.regs u.control := hr _ (by cases u <;> decide)
    have hx' : x.enabled u = true := by rwa [enabled, hc]
    rw [hx, count_timerTick x u hx', hr _ (by cases u <;> decide)]
    simp only [toNat_eq_zero, h, true_and]
  · rw [coreCycle_of_ne h, List.count_nil, if_neg fun hc => h (toNat_eq_zero.mp hc.1)]

/-! ## Runs of cycles -/

theorem after_succ (n : Nat) : t.after (n + 1) = (t.after n).coreCycle.1 := rfl

theorem interrupts_succ (n : Nat) :
    t.interrupts u (n + 1) = t.interrupts u n + (t.after n).coreCycle.2.count u.int :=
  List.count_append

theorem after_add (n m : Nat) : t.after (n + m) = (t.after n).after m := by
  induction m with
  | zero => rfl
  | succ m ih => rw [← Nat.add_assoc, after_succ, after_succ, ih]

theorem interrupts_add (n m : Nat) :
    t.interrupts u (n + m) = t.interrupts u n + (t.after n).interrupts u m := by
  induction m with
  | zero => rfl
  | succ m ih =>
    rw [← Nat.add_assoc, interrupts_succ, interrupts_succ, ih, after_add, Nat.add_assoc]

theorem regs_after {j : Nat} (hp : j ≠ PRESCALER_COUNTER_REGISTER) (hj : ¬Ticks j) (n : Nat) :
    (t.after n).regs j = t.regs j := by
  induction n with
  | zero => rfl
  | succ n ih => rw [after_succ, regs_coreCycle _ hp hj, ih]

/-- The enable bit is never cleared. -/
theorem control_after (n : Nat) : (t.after n).regs u.control = t.regs u.control :=
  t.regs_after (by cases u <;> decide) (not_ticks_control u) n

theorem enabled_after (n : Nat) : (t.after n).enabled u = t.enabled u := by
  rw [enabled, control_after, enabled]

theorem reloads_after (n : Nat) : (t.after n).reloads u = t.reloads u := by
  rw [reloads, control_after, reloads]

theorem restart_after (n : Nat) : (t.after n).restart u = t.restart u := by
  rw [restart, reloads_after, restart,
    t.regs_after (by cases u <;> decide) (not_ticks_reload u) n]

theorem prescaler_after (n : Nat) : ((t.after n).regs PRESCALER_COUNTER_REGISTER).toNat =
    DownCounter.value (t.regs PRESCALER_RELOAD_REGISTER).toNat
      (t.regs PRESCALER_COUNTER_REGISTER).toNat n := by
  induction n with
  | zero => rw [DownCounter.value_zero]; rfl
  | succ n ih =>
    rw [after_succ, prescaler_coreCycle, ih, DownCounter.value_succ,
      t.regs_after (by decide) (by simp [Ticks])]

theorem ticks_succ (n : Nat) : t.ticks (n + 1) =
    t.ticks n + if ((t.after n).regs PRESCALER_COUNTER_REGISTER).toNat = 0 then 1 else 0 := by
  rw [ticks, DownCounter.underflows_succ, prescaler_after, ticks]

/-- The counter of an enabled timer counts the ticks, and each time it starts again there is
one interrupt. -/
theorem counter_after (he : t.enabled u = true) (n : Nat) :
    ((t.after n).regs u.counter).toNat =
        DownCounter.value (t.restart u).toNat (t.regs u.counter).toNat (t.ticks n) ∧
      t.interrupts u n =
        DownCounter.underflows (t.restart u).toNat (t.regs u.counter).toNat (t.ticks n) := by
  induction n with
  | zero => simp [ticks, after, interrupts, run]
  | succ n ih =>
    obtain ⟨ihc, ihi⟩ := ih
    have hen : (t.after n).enabled u = true := by rwa [enabled_after]
    rw [after_succ, interrupts_succ, counter_coreCycle _ u hen, count_coreCycle _ u hen,
      restart_after, ticks_succ, ihc, ihi]
    by_cases h : ((t.after n).regs PRESCALER_COUNTER_REGISTER).toNat = 0
    · simp only [h, if_true, true_and, DownCounter.value_succ, DownCounter.underflows_succ,
        and_self]
    · simp only [h, if_false, false_and, Nat.add_zero, and_self]

/-! ## The documented behaviour -/

/-- What the comments of the code say of an enabled timer, in the cycles from `t` on. -/
structure Documented : Prop where
  /-- Each tick decrements the counter, -/
  counted : ∀ n, t.ticks n ≤ (t.regs u.counter).toNat →
    ((t.after n).regs u.counter).toNat = (t.regs u.counter).toNat - t.ticks n
  /-- and there is one in every `PRE_RELOAD + 1` cycles. -/
  divided : ∀ n, (t.after n).regs PRESCALER_COUNTER_REGISTER ≤ t.regs PRESCALER_RELOAD_REGISTER →
    (t.after n).enabled u = true → (t.after n).regs u.counter ≠ 0 →
    (t.after (n + ((t.regs PRESCALER_RELOAD_REGISTER).toNat + 1))).regs u.counter =
      (t.after n).regs u.counter - 1
  /-- With the reload bit set there is one interrupt in every
  `(PRE_RELOAD + 1) * (RELOAD + 1)` cycles. -/
  periodic : t.reloads u = true → ∀ n,
    (t.after n).regs PRESCALER_COUNTER_REGISTER ≤ t.regs PRESCALER_RELOAD_REGISTER →
    (t.after n).regs u.counter ≤ t.regs u.reload →
    t.interrupts u (n + ((t.regs PRESCALER_RELOAD_REGISTER).toNat + 1) *
      ((t.regs u.reload).toNat + 1)) = t.interrupts u n + 1
  /-- With the reload bit clear there is one at the underflow, -/
  once : t.reloads u = false → ∀ n,
    t.interrupts u n = if t.ticks n ≤ (t.regs u.counter).toNat then 0 else 1
  /-- where the enable bit is cleared and the timer stops. -/
  stops : t.reloads u = false → ∀ n, (t.regs u.counter).toNat < t.ticks n →
    (t.after n).enabled u = false ∧
      ∀ m, (t.after (n + m)).regs u.counter = (t.after n).regs u.counter

theorem ticks_period {t : TimerState}
    (h : t.regs PRESCALER_COUNTER_REGISTER ≤ t.regs PRESCALER_RELOAD_REGISTER) (j : Nat) :
    t.ticks (((t.regs PRESCALER_RELOAD_REGISTER).toNat + 1) * j) = j := by
  have := DownCounter.underflows_periods (BitVec.le_def.mp h) 0 j
  rwa [Nat.zero_add, DownCounter.underflows_zero, Nat.zero_add] at this

/-- The prescaler takes as long as one likes to step, but it does. -/
theorem exists_ticks (k : Nat) : ∃ n, t.ticks n = k + 1 :=
  ⟨(t.regs PRESCALER_COUNTER_REGISTER).toNat + 1 +
      ((t.regs PRESCALER_RELOAD_REGISTER).toNat + 1) * k, by
    rw [ticks, DownCounter.underflows_add, Nat.mul_div_cancel_left _ (by omega)]⟩

theorem documented_of_reloads (he : t.enabled u = true) (hr : t.reloads u = true) :
    t.Documented u where
  counted := fun n hn => by
    rw [(t.counter_after u he n).1, DownCounter.value_of_le _ hn]
  divided := fun n hp hen h0 => by
    have hpre := t.regs_after (j := PRESCALER_RELOAD_REGISTER) (by decide) (by simp [Ticks]) n
    rw [← hpre] at hp ⊢
    have ht := ticks_period hp 1
    rw [Nat.mul_one] at ht
    have h1 := ((t.after n).counter_after u hen
      (((t.after n).regs PRESCALER_RELOAD_REGISTER).toNat + 1)).1
    apply BitVec.eq_of_toNat_eq
    rw [after_add, h1, ht, DownCounter.value_succ, DownCounter.value_zero, DownCounter.next,
      if_neg (mt toNat_eq_zero.mp h0), toNat_sub_one h0]
  periodic := fun _ n hp hk => by
    have hpre := t.regs_after (j := PRESCALER_RELOAD_REGISTER) (by decide) (by simp [Ticks]) n
    have hrel := t.regs_after (j := u.reload) (by cases u <;> decide) (not_ticks_reload u) n
    have hen : (t.after n).enabled u = true := by rwa [enabled_after]
    rw [← hpre] at hp ⊢
    rw [← hrel] at hk ⊢
    have hs : (t.after n).restart u = (t.after n).regs u.reload := by
      rw [restart, reloads_after, hr, if_pos rfl]
    -- the prescaler steps the counter
    have h := DownCounter.underflows_cascade (BitVec.le_def.mp hp) (BitVec.le_def.mp hk) 0
    rw [Nat.zero_add, DownCounter.underflows_zero, DownCounter.underflows_zero, Nat.zero_add] at h
    rw [interrupts_add, ((t.after n).counter_after u hen _).2, hs, ticks, h]
  once := fun h => absurd (hr.symm.trans h) (by decide)
  stops := fun h => absurd (hr.symm.trans h) (by decide)

/-- Writing the control register with the load bit, at any address the code takes for it,
copies the reload value into the counter. -/
def Loads : Prop :=
  ∀ addr val : Uint32, ((addr - t.address) >>> 2).toNat = u.control →
    bit val TIMER_CTRL_LD = true → (t.coreWrite addr val).regs u.counter = t.regs u.reload

theorem counter_coreWrite {addr val : Uint32} {t : TimerState}
    (ha : ((addr - t.address) >>> 2).toNat = u.control) (hv : bit val TIMER_CTRL_LD = true) :
    (t.coreWrite addr val).regs u.counter =
      if u = .timer1 then t.regs u.reload else t.regs u.counter := by
  have hv' : bit (val &&& 0x00ffffff) TIMER_CTRL_LD = true := by
    unfold bit at hv ⊢
    rw [BitVec.getLsbD_and, hv]
    decide
  unfold coreWrite
  cases u
  · have ha' : ((addr - t.address) >>> 2).toNat = TIMER1_CONTROL_REGISTER := ha
    dsimp only
    rw [if_pos ha', if_pos (by rw [regs_setReg, ha', if_pos rfl]; exact hv'), if_pos rfl]
    simp [ha', Timer.counter, Timer.reload]
  · have ha' : ((addr - t.address) >>> 2).toNat = TIMER2_CONTROL_REGISTER := ha
    dsimp only
    rw [if_neg (by rw [ha']; decide), if_neg (by decide), regs_setReg, ha', if_neg (by decide)]

theorem loads_iff : t.Loads u ↔ u = .timer1 ∨ t.regs u.counter = t.regs u.reload := by
  constructor
  · intro h
    have ha : ((t.address + BitVec.ofNat 32 (4 * u.control) - t.address) >>> 2).toNat =
        u.control := by
      rw [BitVec.add_comm, BitVec.add_sub_cancel]
      cases u <;> rfl
    have hw := h _ (bitsmask TIMER_CTRL_LD TIMER_CTRL_LD) ha (by decide)
    rw [counter_coreWrite u ha (by decide)] at hw
    by_cases hu : u = .timer1
    · exact .inl hu
    · rw [if_neg hu] at hw
      exact .inr hw
  · intro h addr val ha hv
    rw [counter_coreWrite u ha hv]
    rcases h with h | h
    · rw [if_pos h]
    · rw [h, ite_self]

/-- An enabled timer behaves as documented, if and only if it is one that is reloaded: one
that is not keeps its enable bit and counts on. A write with the load bit reloads timer 1 only. -/
theorem leon2Timer_exact_iff :
    ((t.enabled u = true → t.Documented u) ↔ (t.enabled u = true → t.reloads u = true)) ∧
      (t.Loads u ↔ u = .timer1 ∨ t.regs u.counter = t.regs u.reload) := by
  refine ⟨⟨fun hd he => ?_, fun hr he => t.documented_of_reloads u he (hr he)⟩, t.loads_iff u⟩
  by_contra hr
  rw [Bool.not_eq_true] at hr
  obtain ⟨n, hn⟩ := t.exists_ticks (t.regs u.counter).toNat
  have h := ((hd he).stops hr n (by omega)).1
  rw [enabled_after, he] at h
  exact absurd h (by decide)

/-- Timer 1 enabled and not reloaded, all counters at 0. -/
def oneShot : TimerState where
  address := 0x80000040
  regs := fun j => if j = TIMER1_CONTROL_REGISTER then 1 else 0
  wdogEnabled := false

/-- Its first cycle underflows and leaves it enabled. -/
theorem oneShot_not_documented :
    ¬∀ (t : TimerState) (u : Timer), t.enabled u = true → t.Documented u := by
  intro h
  have hs := (h oneShot .timer1 (by decide)).stops (by decide) 1 (by decide)
  exact absurd hs.1 (by decide)

end TimerState

end SkyEye.Sparc
