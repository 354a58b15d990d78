import Mathlib.Algebra.Order.Ring.Rat
import Mathlib.Algebra.Order.Field.Power
import Mathlib.Algebra.Order.Field.Rat
import Mathlib.Data.Rat.Cast.Order
import Mathlib.Tactic.Linarith
import Mathlib.Tactic.NormNum
import Mathlib.Tactic.Positivity
import Mathlib.Tactic.Ring
import Mathlib.Tactic.FieldSimp
import Mathlib.Order.Bounds.Basic

/-!
# Binary floating-point formats

The numbers of a format with a precision and a least exponent, with no bound above. A value
is near another if no number of the format separates them; a number of the format that is
near a value is a faithful rounding of it. Nearness is transitive, so a computation may first
cut the exact value off on a finer grid (`near_floor`, `near_ceil`, `near_between`) and then
round what is left.
-/

namespace BinaryFloat

/-- A precision, and the exponent of the least digit. -/
structure Format where
  prec : Nat
  qmin : ℤ

/-- The multiples of `2 ^ k`. -/
def OnGrid (k : ℤ) (x : ℚ) : Prop := ∃ n : ℤ, x = n * 2 ^ k

/-- The numbers of the format. -/
def Format.Rep (F : Format) (x : ℚ) : Prop :=
  ∃ m e : ℤ, |m| < 2 ^ F.prec ∧ F.qmin ≤ e ∧ x = m * 2 ^ e

/-- No number of the format lies between `x` and `y`. -/
structure Near (F : Format) (x y : ℚ) : Prop where
  below : ∀ z, F.Rep z → z ≤ x → z ≤ y
  above : ∀ z, F.Rep z → x ≤ z → y ≤ z

/-- `y` is one of the two numbers of the format next to `x`, and `x` itself if that is one. -/
structure Faithful (F : Format) (x y : ℚ) : Prop extends Near F x y where
  rep : F.Rep y

variable {F : Format} {x y z : ℚ} {k : ℤ}

/-! ## Powers of two -/

theorem two_zpow_pos (k : ℤ) : (0 : ℚ) < 2 ^ k := zpow_pos (by norm_num) k

theorem two_zpow_add (j k : ℤ) : (2 : ℚ) ^ (j + k) = 2 ^ j * 2 ^ k :=
  zpow_add₀ (by norm_num) j k

theorem two_zpow_add_nat (k : ℤ) (n : Nat) : (2 : ℚ) ^ (k + n) = 2 ^ n * 2 ^ k := by
  rw [two_zpow_add, zpow_natCast, mul_comm]

theorem two_zpow_le {j k : ℤ} (h : j ≤ k) : (2 : ℚ) ^ j ≤ 2 ^ k :=
  zpow_le_zpow_right₀ (by norm_num) h

theorem onGrid_mul {j k : ℤ} (m : ℤ) (h : k ≤ j) : OnGrid k (m * 2 ^ j) := by
  obtain ⟨n, rfl⟩ := Int.le.dest h
  exact ⟨m * 2 ^ n, by rw [two_zpow_add_nat]; push_cast; ring⟩

/-! ## The numbers of a format -/

theorem Format.Rep.neg (h : F.Rep x) : F.Rep (-x) := by
  obtain ⟨m, e, hm, he, rfl⟩ := h
  exact ⟨-m, e, by rwa [abs_neg], he, by push_cast; ring⟩

theorem Format.Rep.zero : F.Rep 0 := ⟨0, F.qmin, by simp, le_refl _, by simp⟩

/-- As many digits as the format has, or the next power of two. -/
theorem Format.Rep.of_le {m : ℤ} (h0 : 0 ≤ m) (hm : m ≤ 2 ^ F.prec) (hp : 0 < F.prec)
    (hk : F.qmin ≤ k) : F.Rep (m * 2 ^ k) := by
  rcases hm.lt_or_eq with hlt | rfl
  · exact ⟨m, k, by rwa [abs_of_nonneg h0], hk, rfl⟩
  · refine ⟨1, k + F.prec, ?_, by omega, ?_⟩
    · simpa using one_lt_pow₀ (by norm_num : (1 : ℤ) < 2) hp.ne'
    · rw [two_zpow_add_nat]; push_cast; ring

/-- What is at least half as large as the format's digits at `k` need has no digit below. -/
theorem Format.Rep.onGrid (h : F.Rep z) (hz : 2 ^ F.prec * 2 ^ k ≤ 2 * z) : OnGrid k z := by
  obtain ⟨m, e, hm, -, rfl⟩ := h
  refine onGrid_mul m ?_
  by_contra hlt
  have h1 : (m : ℚ) < 2 ^ F.prec := by
    have := (abs_lt.mp hm).2
    exact_mod_cast this
  have h2 : (2 : ℚ) * 2 ^ e ≤ 2 ^ k := by
    calc (2 : ℚ) * 2 ^ e = 2 ^ (e + (1 : Nat)) := by rw [two_zpow_add_nat]; norm_num
      _ ≤ 2 ^ k := two_zpow_le (by push_cast; omega)
  have h3 : (m : ℚ) * 2 ^ e < 2 ^ F.prec * 2 ^ e := mul_lt_mul_of_pos_right h1 (two_zpow_pos e)
  have h4 : (2 : ℚ) ^ F.prec * (2 * 2 ^ e) ≤ 2 ^ F.prec * 2 ^ k :=
    mul_le_mul_of_nonneg_left h2 (by positivity)
  linarith

theorem Format.Rep.onGrid_qmin (h : F.Rep z) (hk : k ≤ F.qmin) : OnGrid k z := by
  obtain ⟨m, e, -, he, rfl⟩ := h
  exact onGrid_mul m (hk.trans he)

/-! ## Nearness -/

theorem Near.refl (x : ℚ) : Near F x x := ⟨fun _ _ h => h, fun _ _ h => h⟩

theorem Near.trans (h : Near F x y) (h' : Near F y z) : Near F x z :=
  ⟨fun w hw hle => h'.below w hw (h.below w hw hle),
    fun w hw hle => h'.above w hw (h.above w hw hle)⟩

theorem Near.neg (h : Near F x y) : Near F (-x) (-y) where
  below w hw hle := by linarith [h.above (-w) hw.neg (by linarith)]
  above w hw hle := by linarith [h.below (-w) hw.neg (by linarith)]

/-- A number of the format is near no other value. -/
theorem Near.eq_of_rep (h : Near F x y) (hx : F.Rep x) : y = x :=
  le_antisymm (h.above x hx le_rfl) (h.below x hx le_rfl)

theorem Faithful.neg (h : Faithful F x y) : Faithful F (-x) (-y) :=
  ⟨h.toNear.neg, h.rep.neg⟩

theorem Faithful.of_rep (h : F.Rep x) : Faithful F x x := ⟨.refl x, h⟩

theorem Near.faithful (h : Near F x y) (h' : Faithful F y z) : Faithful F x z :=
  ⟨h.trans h'.toNear, h'.rep⟩

theorem Near.pos (h : Near F x y) (hy : 0 < y) : 0 < x := by
  by_contra hle
  exact absurd (h.above 0 .zero (not_lt.mp hle)) (not_le.mpr hy)

theorem Near.neg_of_neg (h : Near F x y) (hy : y < 0) : x < 0 := by
  by_contra hle
  exact absurd (h.below 0 .zero (not_lt.mp hle)) (not_le.mpr hy)

/-- The numbers of the format from `n * 2 ^ k` on, and all of them if the format has no digit
below `k`, are multiples of `2 ^ k`. -/
def Fine (F : Format) (k n : ℤ) : Prop := k ≤ F.qmin ∨ 2 ^ F.prec ≤ 2 * n

theorem Fine.onGrid {n : ℤ} (hf : Fine F k n) (hz : F.Rep z) (hle : n * 2 ^ k ≤ z) :
    OnGrid k z := by
  rcases hf with hk | hn
  · exact hz.onGrid_qmin hk
  · refine hz.onGrid ?_
    have : (2 : ℚ) ^ F.prec ≤ 2 * n := by exact_mod_cast hn
    have := mul_le_mul_of_nonneg_right this (two_zpow_pos k).le
    linarith

/-- A number of the format above a multiple of `2 ^ k` reaches the next one. -/
theorem Fine.succ_le {n : ℤ} (hf : Fine F k n) (hz : F.Rep z) (hlt : n * 2 ^ k < z) :
    (n + 1) * 2 ^ k ≤ z := by
  obtain ⟨t, rfl⟩ := hf.onGrid hz hlt.le
  have : n < t := by
    have := lt_of_mul_lt_mul_right hlt (two_zpow_pos k).le
    exact_mod_cast this
  have : (n : ℚ) + 1 ≤ t := by exact_mod_cast this
  exact mul_le_mul_of_nonneg_right this (two_zpow_pos k).le

theorem near_floor {n : ℤ} (hf : Fine F k n) (hlo : n * 2 ^ k ≤ x) (hhi : x < (n + 1) * 2 ^ k) :
    Near F x (n * 2 ^ k) where
  below z hz hle := by
    by_contra h
    exact absurd (hf.succ_le hz (not_le.mp h)) (by linarith)
  above z _ hle := hlo.trans hle

theorem near_ceil {n : ℤ} (hf : Fine F k n) (hlo : n * 2 ^ k < x) (hhi : x ≤ (n + 1) * 2 ^ k) :
    Near F x ((n + 1) * 2 ^ k) where
  below z _ hle := hle.trans hhi
  above z hz hle := hf.succ_le hz (by linarith)

/-- Any value strictly between the same two multiples of `2 ^ k`. -/
theorem near_between {n : ℤ} (hf : Fine F k n) (hx : n * 2 ^ k < x) (hx' : x < (n + 1) * 2 ^ k)
    (hy : n * 2 ^ k < y) (hy' : y < (n + 1) * 2 ^ k) : Near F x y where
  below z hz hle := by
    by_contra h
    exact absurd (hf.succ_le hz (hy.trans (not_le.mp h))) (by linarith)
  above z hz hle := by linarith [hf.succ_le hz (by linarith)]

/-! ## Rounding at a power of two -/

inductive Mode where
  | near
  | zero
  | up
  | down
  deriving DecidableEq, Repr

/-- `n / d` rounded to a whole number; `neg` is the sign of the value that `n` is the magnitude
of. -/
def roundDiv (mode : Mode) (neg : Bool) (n d : Nat) : Nat :=
  match mode with
  | .near =>
    if 2 * (n % d) < d ∨ 2 * (n % d) = d ∧ n / d % 2 = 0 then n / d else n / d + 1
  | .zero => n / d
  | .up => if neg ∨ n % d = 0 then n / d else n / d + 1
  | .down => if !neg ∨ n % d = 0 then n / d else n / d + 1

theorem roundDiv_cases (mode : Mode) (neg : Bool) (n : Nat) {d : Nat} (hd : 0 < d) :
    roundDiv mode neg n d = n / d ∨ n % d ≠ 0 ∧ roundDiv mode neg n d = n / d + 1 := by
  cases mode with
  | zero => exact .inl rfl
  | near =>
    simp only [roundDiv]
    split
    · exact .inl rfl
    · rename_i h
      exact .inr ⟨fun h0 => h (.inl (by omega)), rfl⟩
  | up =>
    simp only [roundDiv]
    split
    · exact .inl rfl
    · rename_i h
      exact .inr ⟨fun h0 => h (.inr h0), rfl⟩
  | down =>
    simp only [roundDiv]
    split
    · exact .inl rfl
    · rename_i h
      exact .inr ⟨fun h0 => h (.inr h0), rfl⟩

theorem roundDiv_le (mode : Mode) (neg : Bool) {n d m : Nat} (hd : 0 < d) (h : n ≤ m * d) :
    roundDiv mode neg n d ≤ m := by
  have hq : n / d ≤ m := Nat.div_le_of_le_mul (by rwa [mul_comm])
  rcases roundDiv_cases mode neg n hd with hr | ⟨h0, hr⟩
  · omega
  · rw [hr]
    by_contra hlt
    have hm : n / d = m := by omega
    have := Nat.div_add_mod n d
    rw [hm, mul_comm] at this
    omega

theorem le_roundDiv (mode : Mode) (neg : Bool) {n d m : Nat} (hd : 0 < d) (h : m * d ≤ n) :
    m ≤ roundDiv mode neg n d := by
  have hq : m ≤ n / d := (Nat.le_div_iff_mul_le hd).mpr h
  rcases roundDiv_cases mode neg n hd with hr | ⟨-, hr⟩ <;> omega

theorem roundDiv_exact (mode : Mode) (neg : Bool) (n : Nat) {d : Nat} (hd : 0 < d) :
    roundDiv mode neg (n * d) d = n := by
  rcases roundDiv_cases mode neg (n * d) hd with hr | ⟨h0, -⟩
  · rw [hr, Nat.mul_div_cancel _ hd]
  · exact absurd (Nat.mul_mod_left n d) h0

theorem cast_div_add_mod (n s : Nat) :
    (n : ℚ) * 2 ^ k = (n / 2 ^ s : Nat) * 2 ^ (k + s) + (n % 2 ^ s : Nat) * 2 ^ k := by
  have h : ((2 ^ s * (n / 2 ^ s) + n % 2 ^ s : Nat) : ℚ) = n := by rw [Nat.div_add_mod]
  rw [two_zpow_add_nat]
  conv_lhs => rw [← h]
  generalize n / 2 ^ s = q
  push_cast
  ring

theorem cast_mod_lt (n s : Nat) : ((n % 2 ^ s : Nat) : ℚ) * 2 ^ k < 2 ^ (k + s) := by
  rw [two_zpow_add_nat]
  refine mul_lt_mul_of_pos_right ?_ (two_zpow_pos k)
  exact_mod_cast Nat.mod_lt n (Nat.two_pow_pos s)

theorem cast_mul_nonneg (n : Nat) : (0 : ℚ) ≤ n * 2 ^ k :=
  mul_nonneg (Nat.cast_nonneg n) (two_zpow_pos k).le

/-- Rounding moves to the lower end of the cell, or to the upper end if there is a remainder. -/
theorem roundDiv_ends (mode : Mode) (neg : Bool) (n s : Nat) :
    (roundDiv mode neg n (2 ^ s) * 2 ^ (k + s) : ℚ) = (n / 2 ^ s : Nat) * 2 ^ (k + s) ∨
      ((n / 2 ^ s : Nat) * 2 ^ (k + s) < (n * 2 ^ k : ℚ) ∧
        (roundDiv mode neg n (2 ^ s) * 2 ^ (k + s) : ℚ) =
          ((n / 2 ^ s : Nat) + 1) * 2 ^ (k + s)) := by
  rcases roundDiv_cases mode neg n (Nat.two_pow_pos s) with hq | ⟨h0, hq⟩ <;> rw [hq]
  · exact .inl rfl
  · refine .inr ⟨?_, by push_cast; ring⟩
    have h : (0 : ℚ) < (n % 2 ^ s : Nat) := by exact_mod_cast Nat.pos_of_ne_zero h0
    have := mul_pos h (two_zpow_pos k)
    rw [cast_div_add_mod n s]
    linarith

theorem cell_lo (n s : Nat) : ((n / 2 ^ s : Nat) : ℚ) * 2 ^ (k + s) ≤ n * 2 ^ k := by
  rw [cast_div_add_mod n s]
  linarith [cast_mul_nonneg (k := k) (n % 2 ^ s)]

theorem cell_hi (n s : Nat) : (n : ℚ) * 2 ^ k < ((n / 2 ^ s : Nat) + 1) * 2 ^ (k + s) := by
  rw [cast_div_add_mod n s]
  linarith [cast_mod_lt (k := k) n s]

theorem roundDiv_near (mode : Mode) (neg : Bool) (n s : Nat)
    (hf : Fine F (k + s) (n / 2 ^ s : Nat)) :
    Near F (n * 2 ^ k) (roundDiv mode neg n (2 ^ s) * 2 ^ (k + s)) := by
  have hlo := cell_lo (k := k) n s
  have hhi := cell_hi (k := k) n s
  rcases roundDiv_ends (k := k) mode neg n s with h | ⟨hlt, h⟩ <;> rw [h]
  · exact mod_cast near_floor hf (mod_cast hlo) (mod_cast hhi)
  · exact mod_cast near_ceil hf (mod_cast hlt) (mod_cast hhi.le)

theorem roundDiv_faithful (mode : Mode) (neg : Bool) (n s : Nat) (hp : 0 < F.prec)
    (hk : F.qmin ≤ k + s) (hq : n / 2 ^ s < 2 ^ F.prec)
    (hf : Fine F (k + s) (n / 2 ^ s : Nat)) :
    Faithful F (n * 2 ^ k) (roundDiv mode neg n (2 ^ s) * 2 ^ (k + s)) := by
  refine ⟨roundDiv_near mode neg n s hf, ?_⟩
  have hle : roundDiv mode neg n (2 ^ s) ≤ 2 ^ F.prec := by
    rcases roundDiv_cases mode neg n (Nat.two_pow_pos s) with h | ⟨-, h⟩ <;> omega
  exact_mod_cast Format.Rep.of_le (Int.natCast_nonneg _) (mod_cast hle) hp hk

/-! ## What a mode asks for -/

/-- The format with one digit less, at both ends: its numbers are those of `F` whose last digit
is zero. -/
def Format.pred (F : Format) : Format := ⟨F.prec - 1, F.qmin + 1⟩

/-- `y` is the number of the format that the mode takes for `x`; nearest goes to the number whose
last digit is zero when there are two. -/
def Rounds (F : Format) (mode : Mode) (x y : ℚ) : Prop :=
  match mode with
  | .near =>
    F.Rep y ∧ ∀ z, F.Rep z → |x - y| ≤ |x - z| ∧ (|x - y| = |x - z| → z = y ∨ F.pred.Rep y)
  | .zero =>
    if 0 ≤ x then IsGreatest {z | F.Rep z ∧ z ≤ x} y else IsLeast {z | F.Rep z ∧ x ≤ z} y
  | .up => IsLeast {z | F.Rep z ∧ x ≤ z} y
  | .down => IsGreatest {z | F.Rep z ∧ z ≤ x} y

theorem Faithful.isGreatest (h : Faithful F x y) (hle : y ≤ x) :
    IsGreatest {z | F.Rep z ∧ z ≤ x} y :=
  ⟨⟨h.rep, hle⟩, fun z hz => h.below z hz.1 hz.2⟩

theorem Faithful.isLeast (h : Faithful F x y) (hle : x ≤ y) : IsLeast {z | F.Rep z ∧ x ≤ z} y :=
  ⟨⟨h.rep, hle⟩, fun z hz => h.above z hz.1 hz.2⟩

theorem nearest_floor {n : ℤ} (hf : Fine F k n) (hlo : n * 2 ^ k ≤ x)
    (hhalf : x - n * 2 ^ k ≤ (n + 1) * 2 ^ k - x) (hz : F.Rep z) :
    |x - n * 2 ^ k| ≤ |x - z| ∧
      (|x - n * 2 ^ k| = |x - z| → z = n * 2 ^ k ∨ x - n * 2 ^ k = (n + 1) * 2 ^ k - x) := by
  rw [abs_of_nonneg (sub_nonneg.mpr hlo)]
  rcases le_or_gt z (n * 2 ^ k) with hle | hlt
  · rw [abs_of_nonneg (by linarith)]
    exact ⟨by linarith, fun h => .inl (by linarith)⟩
  · have := hf.succ_le hz hlt
    rw [abs_of_nonpos (by linarith)]
    exact ⟨by linarith, fun h => .inr (by linarith)⟩

theorem nearest_ceil {n : ℤ} (hf : Fine F k n) (hhi : x ≤ (n + 1) * 2 ^ k)
    (hhalf : (n + 1) * 2 ^ k - x ≤ x - n * 2 ^ k) (hz : F.Rep z) :
    |x - (n + 1) * 2 ^ k| ≤ |x - z| ∧
      (|x - (n + 1) * 2 ^ k| = |x - z| →
        z = (n + 1) * 2 ^ k ∨ (n + 1) * 2 ^ k - x = x - n * 2 ^ k) := by
  rw [abs_of_nonpos (sub_nonpos.mpr hhi)]
  rcases le_or_gt z (n * 2 ^ k) with hle | hlt
  · rw [abs_of_nonneg (by linarith)]
    exact ⟨by linarith, fun h => .inr (by linarith)⟩
  · have := hf.succ_le hz hlt
    rw [abs_of_nonpos (by linarith)]
    exact ⟨by linarith, fun h => .inl (by linarith)⟩

/-- An even multiple of the last digit has a zero for its last digit. -/
theorem Format.Rep.pred_of_even {m : Nat} (hm : 2 * m ≤ 2 ^ F.prec) (hp : 1 < F.prec)
    (hk : F.qmin ≤ k) : F.pred.Rep ((2 * m : Nat) * 2 ^ k) := by
  have h2 : 2 ^ F.prec = 2 * 2 ^ (F.prec - 1) := by
    rw [← pow_succ', Nat.sub_add_cancel hp.le]
  have hle : m ≤ 2 ^ (F.prec - 1) := by omega
  have := Format.Rep.of_le (F := F.pred) (m := m) (k := k + (1 : Nat)) (by omega)
    (mod_cast hle) (show 0 < F.prec - 1 by omega)
    (show F.qmin + 1 ≤ k + (1 : Nat) by push_cast; omega)
  convert this using 1
  rw [two_zpow_add_nat]
  push_cast
  ring

/-- The value of a magnitude with its sign. -/
def signed (neg : Bool) (x : ℚ) : ℚ := if neg then -x else x

theorem Rounds.neg_near (h : Rounds F .near x y) : Rounds F .near (-x) (-y) := by
  refine ⟨h.1.neg, fun z hz => ?_⟩
  have habs : ∀ w : ℚ, |-x - w| = |x - -w| := fun w => by
    rw [← abs_neg, neg_sub, sub_neg_eq_add, sub_neg_eq_add, add_comm]
  have := h.2 (-z) hz.neg
  rw [habs, neg_neg, habs]
  refine ⟨this.1, fun heq => ?_⟩
  rcases this.2 heq with h1 | h1
  · exact .inl (by rw [← h1, neg_neg])
  · exact .inr h1.neg

theorem roundDiv_rounds_near (n s : Nat) (hp : 1 < F.prec) (hk : F.qmin ≤ k + s)
    (hq : n / 2 ^ s < 2 ^ F.prec) (hf : Fine F (k + s) (n / 2 ^ s : Nat)) :
    Rounds F .near (n * 2 ^ k) (roundDiv .near false n (2 ^ s) * 2 ^ (k + s)) := by
  have hrep := (roundDiv_faithful .near false n s (by omega) hk hq hf).rep
  refine ⟨hrep, fun z hz => ?_⟩
  have hlo := cell_lo (k := k) n s
  have hhi := cell_hi (k := k) n s
  have hx := cast_div_add_mod (k := k) n s
  have hu : (2 : ℚ) ^ (k + s) = 2 ^ s * 2 ^ k := two_zpow_add_nat k s
  have hpos := two_zpow_pos k
  have hhalf : ∀ {a b : Nat}, a ≤ b → (a : ℚ) * 2 ^ k ≤ b * 2 ^ k := fun h =>
    mul_le_mul_of_nonneg_right (mod_cast h) hpos.le
  have hinj : ∀ {a b : Nat}, (a : ℚ) * 2 ^ k = b * 2 ^ k → a = b := fun h =>
    Nat.cast_injective (mul_right_cancel₀ hpos.ne' h)
  have hq2 : 2 ^ F.prec % 2 = 0 := Nat.two_pow_mod_two_eq_zero.mpr (by omega)
  simp only [roundDiv]
  split
  · rename_i h
    have h1 := hhalf (show 2 * (n % 2 ^ s) ≤ 2 ^ s by omega)
    push_cast at h1
    obtain ⟨h2, h3⟩ := nearest_floor (n := (n / 2 ^ s : Nat)) hf (mod_cast hlo)
      (by rw [Int.cast_natCast]; linarith) hz
    rw [Int.cast_natCast] at h2 h3
    refine ⟨h2, fun heq => (h3 heq).imp_right fun h4 => ?_⟩
    have htie : 2 * (n % 2 ^ s) = 2 ^ s := hinj (by push_cast; linarith)
    obtain ⟨j, hj⟩ : ∃ j, n / 2 ^ s = 2 * j := ⟨n / 2 ^ s / 2, by omega⟩
    rw [hj] at hq ⊢
    exact .pred_of_even hq.le hp hk
  · rename_i h
    have h1 := hhalf (show 2 ^ s ≤ 2 * (n % 2 ^ s) by omega)
    push_cast at h1
    obtain ⟨h2, h3⟩ := nearest_ceil (x := n * 2 ^ k) (n := (n / 2 ^ s : Nat)) hf
      (mod_cast hhi.le) (by rw [Int.cast_natCast]; linarith) hz
    rw [Int.cast_natCast] at h2 h3
    push_cast
    refine ⟨h2, fun heq => (h3 heq).imp_right fun h4 => ?_⟩
    have htie : 2 * (n % 2 ^ s) = 2 ^ s := hinj (by push_cast; linarith)
    obtain ⟨j, hj⟩ : ∃ j, n / 2 ^ s + 1 = 2 * j := ⟨(n / 2 ^ s + 1) / 2, by omega⟩
    have := Format.Rep.pred_of_even (F := F) (m := j) (k := k + s) (by omega) hp hk
    rw [← hj] at this
    exact_mod_cast this

/-- Without a remainder, or one up, the result is not below. -/
theorem le_roundDiv_ends {mode : Mode} {neg : Bool} {n s : Nat}
    (h : n % 2 ^ s = 0 ∨ roundDiv mode neg n (2 ^ s) = n / 2 ^ s + 1) :
    (n : ℚ) * 2 ^ k ≤ roundDiv mode neg n (2 ^ s) * 2 ^ (k + s) := by
  rcases h with h | h
  · have hle := le_roundDiv mode neg (Nat.two_pow_pos s) (Nat.div_mul_le_self n (2 ^ s))
    have : (n : ℚ) * 2 ^ k = (n / 2 ^ s : Nat) * 2 ^ (k + s) := by
      rw [cast_div_add_mod n s, h]
      push_cast
      ring
    rw [this]
    exact mul_le_mul_of_nonneg_right (mod_cast hle) (two_zpow_pos _).le
  · rw [h]
    push_cast
    exact (cell_hi n s).le

theorem roundDiv_ends_le {mode : Mode} {neg : Bool} {n s : Nat}
    (h : roundDiv mode neg n (2 ^ s) = n / 2 ^ s) :
    (roundDiv mode neg n (2 ^ s) : ℚ) * 2 ^ (k + s) ≤ n * 2 ^ k := by
  rw [h]
  exact cell_lo n s

/-- The magnitude is rounded as the mode asks for the signed value. -/
theorem roundDiv_rounds (mode : Mode) (neg : Bool) (n s : Nat) (hp : 1 < F.prec)
    (hk : F.qmin ≤ k + s) (hq : n / 2 ^ s < 2 ^ F.prec)
    (hf : Fine F (k + s) (n / 2 ^ s : Nat)) :
    Rounds F mode (signed neg (n * 2 ^ k))
      (signed neg (roundDiv mode neg n (2 ^ s) * 2 ^ (k + s))) := by
  have hfaith := roundDiv_faithful mode neg n s (by omega) hk hq hf
  have hnn := cast_mul_nonneg (k := k) n
  cases mode with
  | near =>
    have := roundDiv_rounds_near n s hp hk hq hf
    cases neg with
    | false => exact this
    | true => exact this.neg_near
  | zero =>
    have hle := roundDiv_ends_le (k := k) (show roundDiv .zero neg n (2 ^ s) = n / 2 ^ s from rfl)
    cases neg with
    | false =>
      simp only [Rounds, signed, if_false, Bool.false_eq_true]
      rw [if_pos hnn]
      exact hfaith.isGreatest hle
    | true =>
      simp only [Rounds, signed, if_true]
      split
      · have h0 : (n : ℚ) * 2 ^ k = 0 := by linarith
        have h1 := hfaith.toNear.eq_of_rep (by rw [h0]; exact .zero)
        exact hfaith.neg.isGreatest (by rw [h1])
      · exact hfaith.neg.isLeast (neg_le_neg hle)
  | up =>
    cases neg with
    | false =>
      refine hfaith.isLeast (le_roundDiv_ends ?_)
      by_cases h : n % 2 ^ s = 0
      · exact .inl h
      · exact .inr (by simp [roundDiv, h])
    | true => exact hfaith.neg.isLeast (neg_le_neg (roundDiv_ends_le (by simp [roundDiv])))
  | down =>
    cases neg with
    | false => exact hfaith.isGreatest (roundDiv_ends_le (by simp [roundDiv]))
    | true =>
      refine hfaith.neg.isGreatest (neg_le_neg (le_roundDiv_ends ?_))
      by_cases h : n % 2 ^ s = 0
      · exact .inl h
      · exact .inr (by simp [roundDiv, h])

/-! ## Magnitudes as numbers

The bits behind the sign, read as one number: the exponent field, then all digits but the first.
Such a number counts the magnitudes of the format from 0 on. -/

/-- The digits behind the first one. -/
def Format.frac (F : Format) : Nat := F.prec - 1

/-- The magnitude with the number `n`. -/
def Format.decode (F : Format) (n : Nat) : ℚ :=
  if n / 2 ^ F.frac = 0 then n * 2 ^ F.qmin
  else (2 ^ F.frac + n % 2 ^ F.frac : Nat) * 2 ^ (F.qmin + (n / 2 ^ F.frac : Nat) - 1)

/-- `c` units of the binade `e`; a carry out of the digits reaches the next binade. -/
theorem Format.decode_mul_add {c e : Nat} (hlo : 2 ^ F.frac ≤ c ∨ e = 0)
    (hhi : c ≤ 2 ^ (F.frac + 1)) : F.decode (e * 2 ^ F.frac + c) = c * 2 ^ (F.qmin + e) := by
  have hpos : 0 < 2 ^ F.frac := Nat.two_pow_pos _
  have hpow : 2 ^ (F.frac + 1) = 2 * 2 ^ F.frac := by rw [pow_succ']
  rw [Format.decode]
  generalize 2 ^ F.frac = t at *
  rcases hhi.lt_or_eq with hlt | rfl
  · rcases Nat.lt_or_ge c t with hct | hct
    · have he : e = 0 := by omega
      subst he
      rw [if_pos (by rw [Nat.zero_mul, Nat.zero_add]; exact Nat.div_eq_of_lt hct)]
      simp
    · obtain ⟨f, rfl⟩ := Nat.exists_eq_add_of_le hct
      have hf : f < t := by omega
      have hn : e * t + (t + f) = t * (e + 1) + f := by ring
      have hd : (t * (e + 1) + f) / t = e + 1 := by
        rw [Nat.mul_add_div hpos, Nat.div_eq_of_lt hf, add_zero]
      have hm : (t * (e + 1) + f) % t = f := by rw [Nat.mul_add_mod, Nat.mod_eq_of_lt hf]
      rw [hn, hd, hm, if_neg (by omega)]
      congr 2
      push_cast
      ring
  · have hn : e * t + 2 * t = t * (e + 2) := by ring
    rw [hpow, hn, Nat.mul_div_cancel_left _ hpos, Nat.mul_mod_right, if_neg (by omega), add_zero]
    have : F.qmin + ((e + 2 : Nat) : ℤ) - 1 = F.qmin + e + (1 : Nat) := by push_cast; ring
    rw [this, two_zpow_add_nat]
    push_cast
    ring

theorem Format.decode_nonneg (n : Nat) : 0 ≤ F.decode n := by
  rw [Format.decode]
  split
  · exact cast_mul_nonneg n
  · exact cast_mul_nonneg _

theorem Format.decode_eq_zero_iff {n : Nat} : F.decode n = 0 ↔ n = 0 := by
  have hz : ∀ k : ℤ, (2 : ℚ) ^ k ≠ 0 := fun k => (two_zpow_pos k).ne'
  rw [Format.decode]
  split
  · simp [hz]
  · rename_i h
    constructor
    · intro h0
      have := Nat.two_pow_pos F.frac
      simp only [mul_eq_zero, hz, or_false, Nat.cast_eq_zero] at h0
      omega
    · rintro rfl
      simp at h

theorem Format.le_decode {n b : Nat} (h : (b + 1) * 2 ^ F.frac ≤ n) :
    (2 : ℚ) ^ (F.qmin + F.frac + b) ≤ F.decode n := by
  have hpos : 0 < 2 ^ F.frac := Nat.two_pow_pos _
  have hb : b + 1 ≤ n / 2 ^ F.frac := (Nat.le_div_iff_mul_le hpos).mpr h
  rw [Format.decode, if_neg (by omega)]
  have h1 : (2 : ℚ) ^ (F.qmin + F.frac + b) = (2 ^ F.frac : Nat) * 2 ^ (F.qmin + b) := by
    rw [show F.qmin + F.frac + b = F.qmin + b + F.frac by ring, two_zpow_add_nat]
    push_cast
    ring
  rw [h1]
  exact mul_le_mul (mod_cast Nat.le_add_right _ _) (two_zpow_le (by omega))
    (two_zpow_pos _).le (Nat.cast_nonneg _)

theorem Format.decode_lt {n b : Nat} (h : n < (b + 1) * 2 ^ F.frac) :
    F.decode n < 2 ^ (F.qmin + F.frac + b) := by
  have hpos : 0 < 2 ^ F.frac := Nat.two_pow_pos _
  have hb : n / 2 ^ F.frac ≤ b := Nat.le_of_lt_succ (Nat.div_lt_of_lt_mul (by rwa [mul_comm]))
  have hmod := Nat.mod_lt n hpos
  rw [Format.decode]
  split
  · rename_i h0
    have hn : n < 2 ^ F.frac := by
      rcases Nat.div_eq_zero_iff.mp h0 with h1 | h1 <;> omega
    calc (n : ℚ) * 2 ^ F.qmin < (2 ^ F.frac : Nat) * 2 ^ F.qmin :=
          mul_lt_mul_of_pos_right (mod_cast hn) (two_zpow_pos _)
      _ = 2 ^ (F.qmin + F.frac) := by rw [two_zpow_add_nat]; push_cast; ring
      _ ≤ 2 ^ (F.qmin + F.frac + b) := two_zpow_le (by omega)
  · have h2 : 2 ^ F.frac + n % 2 ^ F.frac < 2 ^ (F.frac + 1) := by rw [pow_succ]; omega
    calc ((2 ^ F.frac + n % 2 ^ F.frac : Nat) : ℚ) * 2 ^ (F.qmin + (n / 2 ^ F.frac : Nat) - 1)
        < (2 ^ (F.frac + 1) : Nat) * 2 ^ (F.qmin + (n / 2 ^ F.frac : Nat) - 1) :=
          mul_lt_mul_of_pos_right (mod_cast h2) (two_zpow_pos _)
      _ = 2 ^ (F.qmin + (n / 2 ^ F.frac : Nat) - 1 + (F.frac + 1 : Nat)) := by
          rw [two_zpow_add_nat]; push_cast; ring
      _ ≤ 2 ^ (F.qmin + F.frac + b) := two_zpow_le (by rw [Nat.cast_add, Nat.cast_one]; omega)

/-- Every number is a binade and units of it, with room for one more. -/
theorem Format.exists_units (F : Format) (n : Nat) :
    ∃ c e : Nat, n = e * 2 ^ F.frac + c ∧ (2 ^ F.frac ≤ c ∨ e = 0) ∧ c < 2 ^ (F.frac + 1) := by
  have hpos : 0 < 2 ^ F.frac := Nat.two_pow_pos _
  have hsplit := Nat.div_add_mod n (2 ^ F.frac)
  have hmod := Nat.mod_lt n hpos
  rw [pow_succ]
  rcases Nat.eq_zero_or_pos (n / 2 ^ F.frac) with h0 | h0
  · rw [h0, mul_zero, zero_add] at hsplit
    exact ⟨n, 0, by rw [zero_mul, zero_add], .inr rfl, by omega⟩
  · obtain ⟨e, he⟩ := Nat.exists_eq_succ_of_ne_zero h0.ne'
    refine ⟨2 ^ F.frac + n % 2 ^ F.frac, e, ?_, .inl (Nat.le_add_right _ _), by omega⟩
    rw [he, Nat.mul_succ, mul_comm] at hsplit
    omega

/-- Magnitudes are ordered as their numbers. -/
theorem Format.decode_strictMono (F : Format) : StrictMono F.decode := by
  refine strictMono_nat_of_lt_succ fun n => ?_
  obtain ⟨c, e, rfl, hlo, hhi⟩ := F.exists_units n
  rw [Format.decode_mul_add hlo hhi.le, add_assoc,
    Format.decode_mul_add (hlo.imp_left (Nat.le_add_right_of_le ·)) hhi]
  exact mul_lt_mul_of_pos_right (mod_cast Nat.lt_succ_self c) (two_zpow_pos _)

end BinaryFloat
