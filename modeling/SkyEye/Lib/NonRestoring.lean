import Mathlib.Tactic.LinearCombination
import Mathlib.Tactic.Linarith

/-!
# Division without restoring

A step subtracts the divisor from the partial remainder where the step before left it
non-negative, and adds it where not; the sign of the outcome is the next bit of the quotient, and
the partial remainder is doubled. After `n` steps the bits are the quotient by twice the divisor
of `2 ^ n` times the dividend (`quotient_run`), and the partial remainder is its rest, short of
one divisor where it is negative (`remainder_run`).
-/

namespace NonRestoring

/-- The partial remainder, the bits so far, and whether the last of them is set. -/
structure State where
  rest : Int
  quot : Int
  pos : Bool

def start (a : Int) : State := ⟨a, 0, true⟩

/-- The partial remainder before it is doubled. -/
def trial (d : Int) (s : State) : Int := if s.pos then s.rest - d else s.rest + d

def step (d : Int) (s : State) : State where
  rest := 2 * trial d s
  quot := 2 * s.quot + if 0 ≤ trial d s then 1 else 0
  pos := decide (0 ≤ trial d s)

/-- Steps from a dividend. -/
def run (d a : Int) : Nat → State
  | 0 => start a
  | n + 1 => step d (run d a n)

/-- What is owed where the partial remainder is negative. -/
def owed (s : State) : Int := if s.pos then 0 else 1

/-- The invariant: the dividend comes apart into the bits and the rest, of which the sign is
known. -/
structure Inv (d a : Int) (n : Nat) (s : State) : Prop where
  eq : s.rest + 2 * d * (s.quot + owed s) = 2 ^ n * a
  nonneg : s.pos = true → 0 ≤ s.rest ∧ s.rest < 2 * d
  neg : s.pos = false → -(2 * d) ≤ s.rest ∧ s.rest < 0
  quot_nonneg : 0 ≤ s.quot
  quot_lt : s.quot < 2 ^ n

variable {d a : Int} {n : Nat} {s : State}

theorem inv_start (h0 : 0 ≤ a) (h : a < 2 * d) : Inv d a 0 (start a) where
  eq := by simp [start, owed]
  nonneg _ := ⟨h0, h⟩
  neg h := by cases h
  quot_nonneg := Int.le_refl 0
  quot_lt := by simp [start]

theorem trial_bounds (h : Inv d a n s) : -d ≤ trial d s ∧ trial d s < d := by
  unfold trial
  cases hp : s.pos with
  | true =>
    have := h.nonneg hp
    simp only [if_true]
    omega
  | false =>
    have := h.neg hp
    simp only [Bool.false_eq_true, if_false]
    omega

/-- Before it is doubled, a partial remainder owes half. -/
theorem trial_eq (h : Inv d a n s) : trial d s + d * (2 * s.quot + 1) = 2 ^ n * a := by
  have he := h.eq
  unfold owed at he
  unfold trial
  cases hp : s.pos with
  | true =>
    simp only [hp, if_true] at he ⊢
    linear_combination he
  | false =>
    simp only [hp, Bool.false_eq_true, if_false] at he ⊢
    linear_combination he

theorem step_of_nonneg (ht : 0 ≤ trial d s) :
    step d s = ⟨2 * trial d s, 2 * s.quot + 1, true⟩ := by
  simp only [step, if_pos ht, decide_eq_true ht]

theorem step_of_neg (ht : ¬0 ≤ trial d s) : step d s = ⟨2 * trial d s, 2 * s.quot, false⟩ := by
  simp only [step, if_neg ht, decide_eq_false ht, add_zero]

theorem inv_step (h : Inv d a n s) : Inv d a (n + 1) (step d s) := by
  obtain ⟨hlo, hhi⟩ := trial_bounds h
  have he := trial_eq h
  have hq := h.quot_nonneg
  have hq' := h.quot_lt
  have h2 : (2 : Int) ^ (n + 1) = 2 * 2 ^ n := by rw [pow_succ, mul_comm]
  by_cases ht : 0 ≤ trial d s
  · rw [step_of_nonneg ht]
    constructor
    case eq =>
      simp only [owed, if_true, h2]
      linear_combination 2 * he
    case nonneg => exact fun _ => ⟨by dsimp only; omega, by dsimp only; omega⟩
    case neg => exact fun h => absurd h (by simp)
    case quot_nonneg => dsimp only; omega
    case quot_lt => dsimp only; omega
  · rw [step_of_neg ht]
    constructor
    case eq =>
      simp only [owed, Bool.false_eq_true, if_false, h2]
      linear_combination 2 * he
    case nonneg => exact fun h => absurd h (by simp)
    case neg => exact fun _ => ⟨by dsimp only; omega, by dsimp only; omega⟩
    case quot_nonneg => dsimp only; omega
    case quot_lt => dsimp only; omega

theorem inv_run (h0 : 0 ≤ a) (h : a < 2 * d) : ∀ n, Inv d a n (run d a n)
  | 0 => inv_start h0 h
  | n + 1 => inv_step (inv_run h0 h n)

/-- The rest made non-negative. -/
def remainder (d : Int) (s : State) : Int := s.rest + 2 * d * owed s

theorem remainder_bounds (h : Inv d a n s) : 0 ≤ remainder d s ∧ remainder d s < 2 * d := by
  unfold remainder owed
  cases hp : s.pos with
  | true =>
    have := h.nonneg hp
    simp only [if_true, mul_zero, add_zero]
    omega
  | false =>
    have := h.neg hp
    simp only [Bool.false_eq_true, if_false, mul_one]
    omega

theorem divides (h : Inv d a n s) : 2 ^ n * a = 2 * d * s.quot + remainder d s := by
  unfold remainder
  linear_combination -h.eq

theorem quotient_eq (h : Inv d a n s) : s.quot = 2 ^ n * a / (2 * d) := by
  obtain ⟨h0, h1⟩ := remainder_bounds h
  rw [divides h, Int.add_comm, Int.add_mul_ediv_left _ _ (by omega), Int.ediv_eq_zero_of_lt h0 h1,
    zero_add]

theorem remainder_eq (h : Inv d a n s) : remainder d s = 2 ^ n * a % (2 * d) := by
  obtain ⟨h0, h1⟩ := remainder_bounds h
  rw [divides h, Int.add_comm, Int.add_mul_emod_self_left, Int.emod_eq_of_lt h0 h1]

theorem quotient_run (h0 : 0 ≤ a) (h : a < 2 * d) (n : Nat) :
    (run d a n).quot = 2 ^ n * a / (2 * d) := quotient_eq (inv_run h0 h n)

theorem remainder_run (h0 : 0 ≤ a) (h : a < 2 * d) (n : Nat) :
    remainder d (run d a n) = 2 ^ n * a % (2 * d) := remainder_eq (inv_run h0 h n)

/-! ## Remainder and bits in one word

The partial remainder is a multiple of `2 ^ n` while the divisor is, so that the bits fit below
it and do not change its sign. -/

theorem dvd_rest (h : Inv d a n s) (hd : (2 : Int) ^ n ∣ 2 * d) : (2 : Int) ^ n ∣ s.rest := by
  have he := h.eq
  have h1 : s.rest = 2 ^ n * a - 2 * d * (s.quot + owed s) := by linear_combination he
  rw [h1]
  exact Int.dvd_sub (dvd_mul_right _ _) (hd.mul_right _)

theorem trial_nonneg_iff (h : Inv d a n s) (hd : (2 : Int) ^ n ∣ d) :
    0 ≤ trial d s + s.quot ↔ 0 ≤ trial d s := by
  have h0 := h.quot_nonneg
  have h1 := h.quot_lt
  have ht : (2 : Int) ^ n ∣ trial d s := by
    unfold trial
    have hr := dvd_rest h (hd.mul_left 2)
    split
    · exact Int.dvd_sub hr hd
    · exact Int.dvd_add hr hd
  obtain ⟨k, hk⟩ := ht
  have hpos : (0 : Int) < 2 ^ n := by positivity
  constructor
  · intro hsum
    by_contra hneg
    -- a negative multiple is at most -2 ^ n
    have hk0 : k ≤ -1 := by
      by_contra hk0
      have : 0 ≤ k := by omega
      exact hneg (by rw [hk]; positivity)
    have : trial d s ≤ -2 ^ n := by rw [hk]; nlinarith
    omega
  · omega

end NonRestoring
