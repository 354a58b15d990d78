import Mathlib.Tactic.Common
import Mathlib.Tactic.Ring

/-!
# Down counters

A counter goes down by one at each step, and from 0 it starts again at its reload value.
Where it stands after `n` steps and how often it has started again, and the same for a
counter that is stepped by another.
-/

namespace DownCounter

/-- One step. -/
def next (p c : Nat) : Nat := if c = 0 then p else c - 1

/-- Where a counter at `c` with the reload value `p` stands after `n` steps. -/
def value (p c n : Nat) : Nat := if n ≤ c then c - n else p - (n - (c + 1)) % (p + 1)

/-- How often it has started again: at step `c + 1` and every `p + 1` steps from there on. -/
def underflows (p c n : Nat) : Nat := if n ≤ c then 0 else (n - (c + 1)) / (p + 1) + 1

@[simp] theorem value_zero (p c : Nat) : value p c 0 = c := by simp [value]

@[simp] theorem underflows_zero (p c : Nat) : underflows p c 0 = 0 := by simp [underflows]

theorem value_of_le {c n : Nat} (p : Nat) (h : n ≤ c) : value p c n = c - n := if_pos h

theorem underflows_of_le {c n : Nat} (p : Nat) (h : n ≤ c) : underflows p c n = 0 := if_pos h

/-- Behind the first underflow the steps count modulo `p + 1`. -/
theorem value_add (p c m : Nat) : value p c (c + 1 + m) = p - m % (p + 1) := by
  rw [value, if_neg (by omega), Nat.add_sub_cancel_left]

theorem underflows_add (p c m : Nat) : underflows p c (c + 1 + m) = m / (p + 1) + 1 := by
  rw [underflows, if_neg (by omega), Nat.add_sub_cancel_left]

theorem value_succ (p c n : Nat) : value p c (n + 1) = next p (value p c n) := by
  rcases Nat.lt_trichotomy n c with h | rfl | h
  · rw [value_of_le p h, value_of_le p (by omega), next, if_neg (by omega)]
    omega
  · rw [value_of_le p (Nat.le_refl n), Nat.sub_self, next, if_pos rfl]
    exact (value_add p n 0).trans (by simp)
  · obtain ⟨m, rfl⟩ := Nat.exists_eq_add_of_le (show c + 1 ≤ n from h)
    have hm := Nat.mod_lt m (show 0 < p + 1 by omega)
    rw [value_add, Nat.add_assoc, value_add, next, Nat.add_mod]
    by_cases hp : m % (p + 1) = p
    · rw [if_pos (by omega), hp]
      rcases Nat.eq_zero_or_pos p with rfl | hpos
      · simp
      · rw [Nat.mod_eq_of_lt (show 1 < p + 1 by omega), Nat.mod_self]
        omega
    · rw [if_neg (by omega), Nat.mod_eq_of_lt (show 1 < p + 1 by omega),
        Nat.mod_eq_of_lt (show m % (p + 1) + 1 < p + 1 by omega)]
      omega

theorem underflows_succ (p c n : Nat) :
    underflows p c (n + 1) = underflows p c n + if value p c n = 0 then 1 else 0 := by
  rcases Nat.lt_trichotomy n c with h | rfl | h
  · rw [underflows_of_le p h, underflows_of_le p (by omega), value_of_le p (by omega),
      if_neg (by omega)]
  · rw [underflows_of_le p (Nat.le_refl n), value_of_le p (Nat.le_refl n), Nat.sub_self, if_pos rfl]
    exact (underflows_add p n 0).trans (by simp)
  · obtain ⟨m, rfl⟩ := Nat.exists_eq_add_of_le (show c + 1 ≤ n from h)
    have hm := Nat.mod_lt m (show 0 < p + 1 by omega)
    rw [underflows_add, value_add, Nat.add_assoc, underflows_add, Nat.succ_div]
    have hd : p + 1 ∣ m + 1 ↔ p - m % (p + 1) = 0 := by
      rw [Nat.dvd_iff_mod_eq_zero, Nat.add_mod]
      rcases Nat.eq_zero_or_pos p with rfl | hpos
      · simp [Nat.mod_one]
      · rw [Nat.mod_eq_of_lt (show 1 < p + 1 by omega)]
        by_cases hp : m % (p + 1) = p
        · rw [hp, Nat.mod_self]
          omega
        · rw [Nat.mod_eq_of_lt (show m % (p + 1) + 1 < p + 1 by omega)]
          omega
    simp only [hd]
    omega

/-- Once in every `p + 1` steps, from a counter that is not above its reload value. -/
theorem underflows_period {p c : Nat} (h : c ≤ p) (n : Nat) :
    underflows p c (n + (p + 1)) = underflows p c n + 1 := by
  by_cases hn : n ≤ c
  · obtain ⟨d, hd⟩ := Nat.exists_eq_add_of_le (show c + 1 ≤ n + (p + 1) by omega)
    rw [underflows_of_le p hn, hd, underflows_add, Nat.div_eq_of_lt (by omega)]
  · obtain ⟨m, rfl⟩ := Nat.exists_eq_add_of_le (show c + 1 ≤ n by omega)
    rw [Nat.add_assoc, underflows_add, underflows_add, Nat.add_div_right _ (by omega)]

theorem underflows_periods {p c : Nat} (h : c ≤ p) (n j : Nat) :
    underflows p c (n + (p + 1) * j) = underflows p c n + j := by
  induction j with
  | zero => rfl
  | succ j ih => rw [Nat.mul_succ, ← Nat.add_assoc, underflows_period h, ih, Nat.add_assoc]

/-- A counter that is stepped at each underflow of another. -/
theorem underflows_cascade {p c r k : Nat} (hc : c ≤ p) (hk : k ≤ r) (n : Nat) :
    underflows r k (underflows p c (n + (p + 1) * (r + 1))) =
      underflows r k (underflows p c n) + 1 := by
  rw [underflows_periods hc, underflows_period hk]

end DownCounter
