import SkyEye.Lib.AddWithCarry
import Mathlib.Tactic.Linarith
import Mathlib.Tactic.Ring

/-!
# Numbers of several words

Words of `w` bits, the lowest first, as one number, and additions and subtractions word by
word in which each takes the carry or borrow of the one before. The words of the results are
those of the sum or difference of the numbers, and the last carry and overflow are theirs.
-/

namespace AddWithCarry

variable {w m : Nat}

theorem toNat_append_eq (x : BitVec w) (X : BitVec m) :
    (x ++ X).toNat = x.toNat * 2 ^ m + X.toNat := by
  rw [BitVec.toNat_append, ← Nat.shiftLeft_add_eq_or_of_lt X.isLt, Nat.shiftLeft_eq]

/-- The unsigned sum is the result and the carry. -/
theorem toNat_sum_add_carry (x y : BitVec w) (c : Bool) :
    (sum x y c).toNat + (carry x y c).toNat * 2 ^ w = x.toNat + y.toNat + c.toNat := by
  have h := toNat_sum_cases x y c
  have hc := carry_eq_true_iff x y c
  simp only at h
  by_cases hlt : x.toNat + y.toNat + c.toNat < 2 ^ w
  · have hf : carry x y c = false := by
      rw [Bool.eq_false_iff]
      exact fun ht => absurd (hc.mp ht) (by omega)
    rw [h, if_pos hlt, hf]
    simp
  · rw [h, if_neg hlt, hc.mpr (by omega), Bool.toNat_true]
    omega

/-- The carry of the low words goes into the high ones. -/
theorem sum_append (x y : BitVec w) (X Y : BitVec m) (c : Bool) :
    sum (x ++ X) (y ++ Y) c = sum x y (carry X Y c) ++ sum X Y c := by
  have hlow := toNat_sum_add_carry X Y c
  have hlt := (sum X Y c).isLt
  apply BitVec.eq_of_toNat_eq
  rw [toNat_sum, toNat_append_eq, toNat_append_eq, toNat_append_eq, toNat_sum x y,
    Nat.add_comm w m, Nat.pow_add, Nat.mod_mul]
  have he : x.toNat * 2 ^ m + X.toNat + (y.toNat * 2 ^ m + Y.toNat) + c.toNat =
      (sum X Y c).toNat + 2 ^ m * (x.toNat + y.toNat + (carry X Y c).toNat) := by
    calc x.toNat * 2 ^ m + X.toNat + (y.toNat * 2 ^ m + Y.toNat) + c.toNat
        = (x.toNat + y.toNat) * 2 ^ m + (X.toNat + Y.toNat + c.toNat) := by ring
      _ = (x.toNat + y.toNat) * 2 ^ m +
          ((sum X Y c).toNat + (carry X Y c).toNat * 2 ^ m) := by rw [hlow]
      _ = (sum X Y c).toNat + 2 ^ m * (x.toNat + y.toNat + (carry X Y c).toNat) := by ring
  rw [he, Nat.add_mul_mod_self_left, Nat.mod_eq_of_lt hlt,
    Nat.add_mul_div_left _ _ (Nat.two_pow_pos m), Nat.div_eq_of_lt hlt, Nat.zero_add,
    Nat.add_comm, Nat.mul_comm]

theorem carry_append (x y : BitVec w) (X Y : BitVec m) (c : Bool) :
    carry (x ++ X) (y ++ Y) c = carry x y (carry X Y c) := by
  have hlow := toNat_sum_add_carry X Y c
  have hhigh := toNat_sum_add_carry x y (carry X Y c)
  have hall := toNat_sum_add_carry (x ++ X) (y ++ Y) c
  rw [sum_append, toNat_append_eq, toNat_append_eq, toNat_append_eq, Nat.pow_add] at hall
  have hscaled := congrArg (· * 2 ^ m) hhigh
  simp only [Nat.add_mul] at hscaled
  have he : (carry (x ++ X) (y ++ Y) c).toNat * (2 ^ w * 2 ^ m) =
      (carry x y (carry X Y c)).toNat * (2 ^ w * 2 ^ m) := by
    linarith
  have ht := Nat.eq_of_mul_eq_mul_right (show 0 < 2 ^ w * 2 ^ m by positivity) he
  revert ht
  cases carry (x ++ X) (y ++ Y) c <;> cases carry x y (carry X Y c) <;> decide

theorem msb_append_of_pos (hw : 0 < w) (x : BitVec w) (X : BitVec m) : (x ++ X).msb = x.msb := by
  rw [BitVec.msb_append, if_neg (by omega)]

theorem overflow_append (hw : 0 < w) (x y : BitVec w) (X Y : BitVec m) (c : Bool) :
    overflow (x ++ X) (y ++ Y) c = overflow x y (carry X Y c) := by
  rw [overflow_eq_msb _ _ _ (by omega), overflow_eq_msb _ _ _ hw, sum_append,
    msb_append_of_pos hw, msb_append_of_pos hw, msb_append_of_pos hw]

end AddWithCarry

namespace SubWithBorrow

variable {w m : Nat}

/-- A difference is a sum with the complement, and the borrow the carry that it lacks. -/
theorem diff_eq_sum (x y : BitVec w) (b : Bool) : diff x y b = AddWithCarry.sum x (~~~y) (!b) := by
  rw [AddWithCarry.sum_not, diff]
  cases b <;> rfl

theorem borrow_eq_carry (x y : BitVec w) (b : Bool) :
    borrow x y b = !AddWithCarry.carry x (~~~y) (!b) := by
  have hc := AddWithCarry.carry_eq_true_iff x (~~~y) (!b)
  have hx := x.isLt
  have hy := y.isLt
  have hn : (~~~y).toNat = 2 ^ w - 1 - y.toNat := BitVec.toNat_not
  rw [Bool.eq_iff_iff, Bool.not_eq_true', ← Bool.not_eq_true, hc, borrow, decide_eq_true_eq, hn]
  cases b <;> simp <;> omega

theorem overflow_eq_add (x y : BitVec w) (b : Bool) (hw : 0 < w) :
    overflow x y b = AddWithCarry.overflow x (~~~y) (!b) := by
  rw [overflow_eq_msb x y b hw, AddWithCarry.overflow_eq_msb _ _ _ hw, ← diff_eq_sum,
    BitVec.msb_not, decide_eq_true hw, Bool.true_and, Bool.not_not]

/-- The borrow of the low words is taken from the high ones. -/
theorem diff_append (x y : BitVec w) (X Y : BitVec m) (b : Bool) :
    diff (x ++ X) (y ++ Y) b = diff x y (borrow X Y b) ++ diff X Y b := by
  rw [diff_eq_sum, diff_eq_sum, diff_eq_sum, borrow_eq_carry, Bool.not_not, BitVec.not_append,
    AddWithCarry.sum_append]

theorem borrow_append (x y : BitVec w) (X Y : BitVec m) (b : Bool) :
    borrow (x ++ X) (y ++ Y) b = borrow x y (borrow X Y b) := by
  rw [borrow_eq_carry, borrow_eq_carry x, borrow_eq_carry X, Bool.not_not, BitVec.not_append,
    AddWithCarry.carry_append]

theorem overflow_append (hw : 0 < w) (x y : BitVec w) (X Y : BitVec m) (b : Bool) :
    overflow (x ++ X) (y ++ Y) b = overflow x y (borrow X Y b) := by
  rw [overflow_eq_add _ _ _ (by omega), overflow_eq_add _ _ _ hw, borrow_eq_carry, Bool.not_not,
    BitVec.not_append, AddWithCarry.overflow_append hw]

end SubWithBorrow

namespace MultiWord

/-- How many bits `n` words have. -/
abbrev size (w : Nat) : Nat → Nat
  | 0 => 0
  | n + 1 => w + size w n

variable {w : Nat}

/-- The number whose words are `X 0`, `X 1` and so on up to `X (n - 1)`. -/
def wide (X : Nat → BitVec w) : (n : Nat) → BitVec (size w n)
  | 0 => 0#0
  | n + 1 => X n ++ wide X n

theorem msb_wide (hw : 0 < w) (X : Nat → BitVec w) (n : Nat) : (wide X (n + 1)).msb = (X n).msb :=
  AddWithCarry.msb_append_of_pos hw _ _

theorem wide_not (X : Nat → BitVec w) (n : Nat) : wide (fun k => ~~~X k) n = ~~~wide X n := by
  induction n with
  | zero => exact BitVec.of_length_zero.trans BitVec.of_length_zero.symm
  | succ n ih => rw [wide, wide, ih, BitVec.not_append]

/-- A number is 0 if its words are. -/
theorem wide_eq_zero_iff (X : Nat → BitVec w) (n : Nat) : wide X n = 0 ↔ ∀ k < n, X k = 0 := by
  induction n with
  | zero => simp [wide]
  | succ n ih =>
    rw [wide, ← BitVec.toNat_inj, AddWithCarry.toNat_append_eq]
    have hpos := Nat.two_pow_pos (size w n)
    constructor
    · intro h k hk
      have h0 : (X n).toNat * 2 ^ size w n + (wide X n).toNat = 0 := h
      have hx : (X n).toNat = 0 := by
        by_contra hne
        have := Nat.mul_pos (Nat.pos_of_ne_zero hne) hpos
        omega
      rcases Nat.lt_succ_iff_lt_or_eq.mp hk with hlt | rfl
      · have hw : (wide X n).toNat = 0 := Nat.eq_zero_of_add_eq_zero_left h0
        exact ih.mp (BitVec.eq_of_toNat_eq (by simpa using hw)) k hlt
      · exact BitVec.eq_of_toNat_eq (by simpa using hx)
    · intro h
      rw [h n (Nat.lt_succ_self n), ih.mpr fun k hk => h k (Nat.lt_succ_of_lt hk)]
      simp

section Chains

variable {X Y R : Nat → BitVec w} {c : Nat → Bool} {n : Nat}

/-- Additions word by word, each with the carry of the one before. -/
theorem wide_sum (hr : ∀ k < n, R k = AddWithCarry.sum (X k) (Y k) (c k))
    (hc : ∀ k < n, c (k + 1) = AddWithCarry.carry (X k) (Y k) (c k)) :
    wide R n = AddWithCarry.sum (wide X n) (wide Y n) (c 0) ∧
      c n = AddWithCarry.carry (wide X n) (wide Y n) (c 0) := by
  induction n with
  | zero =>
    refine ⟨BitVec.of_length_zero.trans BitVec.of_length_zero.symm, ?_⟩
    rw [Bool.eq_iff_iff, AddWithCarry.carry_eq_true_iff]
    cases c 0 <;> simp [wide]
  | succ n ih =>
    obtain ⟨ihr, ihc⟩ := ih (fun k hk => hr k (by omega)) fun k hk => hc k (by omega)
    refine ⟨?_, ?_⟩
    · rw [wide, wide, wide, AddWithCarry.sum_append, ihr, hr n (by omega), ihc]
    · rw [wide, wide, AddWithCarry.carry_append, hc n (by omega), ihc]

/-- The overflow of the last addition is that of the whole one. -/
theorem overflow_sum (hw : 0 < w) (hr : ∀ k < n + 1, R k = AddWithCarry.sum (X k) (Y k) (c k))
    (hc : ∀ k < n + 1, c (k + 1) = AddWithCarry.carry (X k) (Y k) (c k)) :
    AddWithCarry.overflow (X n) (Y n) (c n) =
      AddWithCarry.overflow (wide X (n + 1)) (wide Y (n + 1)) (c 0) := by
  rw [wide, wide, AddWithCarry.overflow_append hw,
    (wide_sum (fun k hk => hr k (by omega)) fun k hk => hc k (by omega)).2]

/-- Subtractions word by word, each with the borrow of the one before. -/
theorem wide_diff (hr : ∀ k < n, R k = SubWithBorrow.diff (X k) (Y k) (c k))
    (hc : ∀ k < n, c (k + 1) = SubWithBorrow.borrow (X k) (Y k) (c k)) :
    wide R n = SubWithBorrow.diff (wide X n) (wide Y n) (c 0) ∧
      c n = SubWithBorrow.borrow (wide X n) (wide Y n) (c 0) := by
  induction n with
  | zero =>
    refine ⟨BitVec.of_length_zero.trans BitVec.of_length_zero.symm, ?_⟩
    cases c 0 <;> rfl
  | succ n ih =>
    obtain ⟨ihr, ihc⟩ := ih (fun k hk => hr k (by omega)) fun k hk => hc k (by omega)
    refine ⟨?_, ?_⟩
    · rw [wide, wide, wide, SubWithBorrow.diff_append, ihr, hr n (by omega), ihc]
    · rw [wide, wide, SubWithBorrow.borrow_append, hc n (by omega), ihc]

theorem overflow_diff (hw : 0 < w) (hr : ∀ k < n + 1, R k = SubWithBorrow.diff (X k) (Y k) (c k))
    (hc : ∀ k < n + 1, c (k + 1) = SubWithBorrow.borrow (X k) (Y k) (c k)) :
    SubWithBorrow.overflow (X n) (Y n) (c n) =
      SubWithBorrow.overflow (wide X (n + 1)) (wide Y (n + 1)) (c 0) := by
  rw [wide, wide, SubWithBorrow.overflow_append hw,
    (wide_diff (fun k hk => hr k (by omega)) fun k hk => hc k (by omega)).2]

end Chains

end MultiWord
