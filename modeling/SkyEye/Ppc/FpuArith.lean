import SkyEye.Ppc.FpuPack

/-!
# Arithmetic on doubles

Multiplication, division, addition and subtraction against the rational numbers. All of them cut
the exact result off somewhere behind the last digit and round what is left; the result is one
of the two doubles next to the exact value, whatever the mode. Denormalized operands are taken
apart with the leading one in the wrong place, and are left out where that matters.
-/

namespace SkyEye.Ppc.Fpu

open Sparc (Uint32)
open BinaryFloat (Format Mode Near Faithful Fine signed)

/-- Zero or a normalized number. -/
def Plain (d : BitVec 64) : Prop := mag64 d = 0 ∨ 2 ^ 52 ≤ mag64 d ∧ mag64 d < inf64

/-- An unpacked number with its leading one in place. -/
structure Normal (u : PpcDouble) : Prop where
  type : u.type = .norm
  lo : 2 ^ 55 ≤ u.m.toNat
  hi : u.m.toNat < 2 ^ 56

theorem Normal.packable {u : PpcDouble} (h : Normal u) : Packable 1023 56 u.e u.m.toNat :=
  .of_normal (by omega) h.lo h.hi

theorem Normal.pos {u : PpcDouble} (h : Normal u) : 0 < u.value :=
  mul_pos (mod_cast (Nat.two_pow_pos 55).trans_le h.lo) (BinaryFloat.two_zpow_pos _)

theorem unpack_plain {d : BitVec 64} (hlo : 2 ^ 52 ≤ mag64 d) (hhi : mag64 d < inf64) :
    Normal (ppcFpuUnpackDouble d) ∧ (ppcFpuUnpackDouble d).m.toNat % 8 = 0 ∧
      -1022 ≤ (ppcFpuUnpackDouble d).e := by
  rw [unpack_normal hlo hhi]
  unfold inf64 at hhi
  have ht : (BitVec.ofNat 64 ((2 ^ 52 + mag64 d % 2 ^ 52) * 8)).toNat =
      (2 ^ 52 + mag64 d % 2 ^ 52) * 8 := by
    rw [BitVec.toNat_ofNat]
    omega
  exact ⟨⟨rfl, by rw [ht]; omega, by rw [ht]; omega⟩, by rw [ht]; omega, by dsimp only; omega⟩

theorem packed_zero_le {neg : Bool} {u : PpcDouble} (hp : Packable 1023 56 u.e u.m.toNat) :
    binary64.decode (packed 1023 56 .zero neg u.e u.m.toNat) ≤ u.value := by
  rw [decode_packed hp]
  refine (BinaryFloat.roundDiv_ends_le (k := -1077 + (u.e + 1022).toNat) rfl).trans ?_
  rw [PpcDouble.value]
  rcases le_or_gt (-1022) u.e with h | h
  · rw [show (-1022 - u.e).toNat = 0 by omega, pow_zero, Nat.div_one,
      show (-1077 : ℤ) + (u.e + 1022).toNat = u.e - 55 by omega]
  · rw [show (-1077 : ℤ) + (u.e + 1022).toNat = u.e - 55 + (-1022 - u.e).toNat by omega]
    exact BinaryFloat.cell_lo _ _

/-- `d`, with the sign `neg`, is one of the two doubles next to the magnitude `x`, or infinity;
where the mode cuts off and `exact` holds it is the one below. -/
def Rounded (fpscr : Uint32) (exact : Prop) (x : ℚ) (neg : Bool) (d : BitVec 64) : Prop :=
  ∃ y, Faithful binary64 x y ∧ Holds d neg y ∧ (exact → fpscrRn fpscr = .zero → y ≤ x)

/-- A number with a value near `x` is packed to a double next to `x`. -/
theorem rounded_of_near {fpscr : Uint32} {u : PpcDouble} {x : ℚ} {exact : Prop}
    (ht : u.type = .norm) (hp : Packable 1023 56 u.e u.m.toNat) (hx : Near binary64 x u.value)
    (hle : exact → u.value ≤ x) :
    Rounded fpscr exact x (u.s != 0) (ppcFpuPackDouble fpscr u).1 := by
  refine ⟨_, hx.faithful (packed_faithful hp), pack_holds fpscr ht hp, fun he hz => ?_⟩
  rw [hz]
  exact (packed_zero_le hp).trans (hle he)

theorem rounded_zero {fpscr : Uint32} {u : PpcDouble} {exact : Prop} (ht : u.type = .zero) :
    Rounded fpscr exact 0 (u.s != 0) (ppcFpuPackDouble fpscr u).1 := by
  obtain ⟨hs, -, hm⟩ := pack_special fpscr (u := u) (by rw [ht]; decide)
  rw [ht] at hm
  replace hm : mag64 (ppcFpuPackDouble fpscr u).1 = 0 := hm
  have h0 : binary64.decode 0 = 0 := Format.decode_eq_zero_iff.mpr rfl
  refine ⟨0, .of_rep .zero, ⟨hs, ?_⟩, fun _ _ => le_rfl⟩
  rw [if_pos (by positivity), hm]
  exact ⟨show 0 < inf64 by norm_num, h0⟩

/-- A whole number of units, cut off by `s` bits of which enough are left. -/
theorem near_div {n s : Nat} {k : ℤ} (h : 2 ^ 55 ≤ n / 2 ^ s) :
    Near binary64 (n * 2 ^ k) ((n / 2 ^ s : Nat) * 2 ^ (k + s)) := by
  have hf : Fine binary64 (k + s) (n / 2 ^ s : Nat) := .inr (by
    show (2 : ℤ) ^ 53 ≤ _
    omega)
  exact mod_cast BinaryFloat.near_floor hf (mod_cast BinaryFloat.cell_lo n s)
    (mod_cast BinaryFloat.cell_hi n s)

/-- A number whose significand is what is left of `n` units. -/
theorem normal_of_div {u : PpcDouble} {n s : Nat} {k : ℤ} (ht : u.type = .norm)
    (hm : u.m.toNat = n / 2 ^ s) (he : u.e - 55 = k + s) (hlo : 2 ^ 55 ≤ n / 2 ^ s)
    (hhi : n / 2 ^ s < 2 ^ 56) :
    Normal u ∧ Near binary64 (n * 2 ^ k) u.value ∧ u.value ≤ n * 2 ^ k := by
  rw [PpcDouble.value, hm, he]
  exact ⟨⟨ht, by rwa [hm], by rwa [hm]⟩, near_div hlo, BinaryFloat.cell_lo n s⟩

/-! ## Multiplication -/

theorem toNat_lowHalf (a : BitVec 64) : (lowHalf a).toNat = a.toNat % 2 ^ 32 :=
  Word.toNat_and_low a 32 (by omega)

theorem toNat_highHalf (a : BitVec 64) : (highHalf a).toNat = a.toNat / 2 ^ 32 := by
  rw [highHalf, BitVec.toNat_ushiftRight, Nat.shiftRight_eq_div_pow]

theorem mulWide_spec {a b : BitVec 64} (ha : a.toNat < 2 ^ 56) (hb : b.toNat < 2 ^ 56) :
    (mulWide a b).1.toNat * 2 ^ 64 + (mulWide a b).2.toNat = a.toNat * b.toNat := by
  obtain ⟨al, ah, hal, hah, hla, hha⟩ : ∃ al ah, (lowHalf a).toNat = al ∧
      (highHalf a).toNat = ah ∧ al < 2 ^ 32 ∧ ah < 2 ^ 24 :=
    ⟨_, _, rfl, rfl, by rw [toNat_lowHalf]; omega, by rw [toNat_highHalf]; omega⟩
  obtain ⟨bl, bh, hbl, hbh, hlb, hhb⟩ : ∃ bl bh, (lowHalf b).toNat = bl ∧
      (highHalf b).toNat = bh ∧ bl < 2 ^ 32 ∧ bh < 2 ^ 24 :=
    ⟨_, _, rfl, rfl, by rw [toNat_lowHalf]; omega, by rw [toNat_highHalf]; omega⟩
  have hsa : a.toNat = ah * 2 ^ 32 + al := by rw [← hal, ← hah, toNat_lowHalf, toNat_highHalf]; omega
  have hsb : b.toNat = bh * 2 ^ 32 + bl := by rw [← hbl, ← hbh, toNat_lowHalf, toNat_highHalf]; omega
  -- the four partial products fit their words
  have h1 : al * bl ≤ (2 ^ 32 - 1) * (2 ^ 32 - 1) := Nat.mul_le_mul (by omega) (by omega)
  have h2 : ah * bl ≤ (2 ^ 24 - 1) * (2 ^ 32 - 1) := Nat.mul_le_mul (by omega) (by omega)
  have h3 : al * bh ≤ (2 ^ 32 - 1) * (2 ^ 24 - 1) := Nat.mul_le_mul (by omega) (by omega)
  have h4 : ah * bh ≤ (2 ^ 24 - 1) * (2 ^ 24 - 1) := Nat.mul_le_mul (by omega) (by omega)
  have hprod : a.toNat * b.toNat = ah * bh * 2 ^ 64 + (ah * bl + al * bh) * 2 ^ 32 + al * bl := by
    rw [hsa, hsb]
    ring
  have hL : (lowHalf a * lowHalf b).toNat = al * bl := by
    rw [BitVec.toNat_mul, hal, hbl, Nat.mod_eq_of_lt (by omega)]
  have hM : (highHalf a * lowHalf b + lowHalf a * highHalf b).toNat =
      ah * bl + al * bh := by
    rw [BitVec.toNat_add, BitVec.toNat_mul, BitVec.toNat_mul, hal, hbl, hah, hbh]
    omega
  have hH : (highHalf a * highHalf b).toNat = ah * bh := by
    rw [BitVec.toNat_mul, hah, hbh, Nat.mod_eq_of_lt (by omega)]
  rw [hprod, mulWide]
  generalize lowHalf a * lowHalf b = fL at hL
  generalize highHalf a * lowHalf b + lowHalf a * highHalf b = split at hM
  generalize highHalf a * highHalf b = fH at hH
  have hlow : (lowHalf split <<< 32).toNat = split.toNat % 2 ^ 32 * 2 ^ 32 := by
    rw [BitVec.toNat_shiftLeft, toNat_lowHalf, Nat.shiftLeft_eq]
    omega
  have hhigh := toNat_highHalf split
  simp only
  generalize lowHalf split <<< 32 = low at hlow
  generalize highHalf split = high at hhigh
  -- the carry out of the low word
  have hcarry : fL + low < fL ↔ 2 ^ 64 ≤ fL.toNat + low.toNat := by
    have := fL.isLt
    have := low.isLt
    rw [BitVec.lt_def, BitVec.toNat_add]
    omega
  simp only [hcarry]
  split
  · rw [BitVec.toNat_add, BitVec.toNat_add, BitVec.toNat_add, show (1 : BitVec 64).toNat = 1 from rfl]
    omega
  · rw [BitVec.toNat_add, BitVec.toNat_add, BitVec.toNat_add, show (0 : BitVec 64).toNat = 0 from rfl]
    omega

/-- The significand that `ppc_fpu_mul` takes out of the two words. -/
theorem mulWide_shift {a b : BitVec 64} (ha : a.toNat < 2 ^ 56) (hb : b.toNat < 2 ^ 56) :
    (((mulWide a b).1 <<< 9) ||| ((mulWide a b).2 >>> (64 - 9))).toNat =
      a.toNat * b.toNat / 2 ^ 55 := by
  have hspec := mulWide_spec ha hb
  have hprod : a.toNat * b.toNat ≤ (2 ^ 56 - 1) * (2 ^ 56 - 1) :=
    Nat.mul_le_mul (by omega) (by omega)
  generalize (mulWide a b).1 = rH at hspec
  generalize (mulWide a b).2 = rL at hspec
  have hL := rL.isLt
  have hlt : rL.toNat / 2 ^ 55 < 2 ^ 9 := by omega
  have hor := Nat.two_pow_add_eq_or_of_lt hlt rH.toNat
  rw [BitVec.toNat_or, BitVec.toNat_shiftLeft, BitVec.toNat_ushiftRight, Nat.shiftLeft_eq,
    Nat.shiftRight_eq_div_pow, Nat.mod_eq_of_lt (by omega), mul_comm, ← hor]
  omega

/-- The product of two numbers: its value is cut off, and its leading one is in place. -/
theorem ppcFpuMul_norm (res : PpcDouble) {a b : PpcDouble} (ha : Normal a) (hb : Normal b) :
    Normal (ppcFpuMul res a b) ∧ (ppcFpuMul res a b).s = a.s ^^^ b.s ∧
      Near binary64 (a.value * b.value) (ppcFpuMul res a b).value ∧
      (ppcFpuMul res a b).value ≤ a.value * b.value := by
  have hlo : 2 ^ 55 * 2 ^ 55 ≤ a.m.toNat * b.m.toNat := Nat.mul_le_mul ha.lo hb.lo
  have hhi : a.m.toNat * b.m.toNat ≤ (2 ^ 56 - 1) * (2 ^ 56 - 1) :=
    Nat.mul_le_mul (Nat.le_sub_one_of_lt ha.hi) (Nat.le_sub_one_of_lt hb.hi)
  have hm := mulWide_shift ha.hi hb.hi
  have hval : a.value * b.value =
      (a.m.toNat * b.m.toNat : Nat) * 2 ^ (a.e + b.e - 110 : ℤ) := by
    rw [PpcDouble.value, PpcDouble.value,
      show a.e + b.e - 110 = a.e - 55 + (b.e - 55) by ring, BinaryFloat.two_zpow_add]
    push_cast
    ring
  rw [ppcFpuMul, if_pos ⟨ha.type, hb.type⟩, hval]
  simp only
  generalize (mulWide a.m b.m).1 <<< 9 ||| (mulWide a.m b.m).2 >>> (64 - 9) = m at hm
  generalize a.m.toNat * b.m.toNat = p at *
  have h57 := and_twoPow_ne_zero (m := m) (k := 57) (by omega)
  have h56 := and_twoPow_ne_zero (m := m) (k := 56) (by omega)
  rw [if_neg (by rw [h57, hm]; omega)]
  split
  · rename_i hc
    rw [h56, hm] at hc
    have hm1 : (m >>> 1).toNat = p / 2 ^ 56 := by
      rw [BitVec.toNat_ushiftRight, Nat.shiftRight_eq_div_pow, hm]
      omega
    obtain ⟨h1, h2⟩ := normal_of_div (u := ⟨.norm, a.s ^^^ b.s, a.e + b.e + 1, m >>> 1⟩)
      (k := a.e + b.e - 110) rfl hm1 (by push_cast; ring) (by omega) (by omega)
    exact ⟨h1, rfl, h2⟩
  · rename_i hc
    rw [h56, hm] at hc
    obtain ⟨h1, h2⟩ := normal_of_div (u := ⟨.norm, a.s ^^^ b.s, a.e + b.e, m⟩)
      (k := a.e + b.e - 110) rfl hm (by push_cast; ring) (by omega) (by omega)
    exact ⟨h1, rfl, h2⟩

theorem signField_xor (a b : Bool) : (signField a ^^^ signField b != 0) = (a ^^ b) := by
  cases a <;> cases b <;> rfl

theorem Plain.cases {d : BitVec 64} (h : Plain d) :
    ((ppcFpuUnpackDouble d).type = .zero ∧ binary64.decode (mag64 d) = 0 ∨
      Normal (ppcFpuUnpackDouble d) ∧
        binary64.decode (mag64 d) = (ppcFpuUnpackDouble d).value ∧
        (ppcFpuUnpackDouble d).m.toNat % 8 = 0 ∧ -1022 ≤ (ppcFpuUnpackDouble d).e) ∧
      (ppcFpuUnpackDouble d).s = signField d.msb := by
  rcases h with h | ⟨hlo, hhi⟩
  · rw [unpack_zero h]
    exact ⟨.inl ⟨rfl, Format.decode_eq_zero_iff.mpr h⟩, rfl⟩
  · obtain ⟨h1, h2, h3⟩ := unpack_plain hlo hhi
    obtain ⟨-, h4, h5⟩ := unpack_value (by omega) hhi
    exact ⟨.inr ⟨h1, h5.symm, h2, h3⟩, h4⟩

theorem Plain.type_cases {d : BitVec 64} (h : Plain d) :
    (ppcFpuUnpackDouble d).type = .zero ∨ (ppcFpuUnpackDouble d).type = .norm := by
  rcases h.cases.1 with h | h
  · exact .inl h.1
  · exact .inr h.1.type

theorem abs_value64 (d : BitVec 64) : |value64 d| = binary64.decode (mag64 d) := by
  have h := Format.decode_nonneg (F := binary64) (mag64 d)
  rw [value64, signed]
  split
  · rw [abs_neg, abs_of_nonneg h]
  · rw [abs_of_nonneg h]

theorem ppcFpuMul_rounded (fpscr : Uint32) (res : PpcDouble) {a b : BitVec 64} (ha : Plain a)
    (hb : Plain b) :
    Rounded fpscr True |value64 a * value64 b| (a.msb ^^ b.msb)
      (ppcFpuPackDouble fpscr
        (ppcFpuMul res (ppcFpuUnpackDouble a) (ppcFpuUnpackDouble b))).1 := by
  obtain ⟨ha, hsa⟩ := ha.cases
  obtain ⟨hb, hsb⟩ := hb.cases
  have hs := signField_xor a.msb b.msb
  rw [abs_mul, abs_value64, abs_value64, ← hs, ← hsa, ← hsb]
  generalize ppcFpuUnpackDouble a = u at *
  generalize ppcFpuUnpackDouble b = v at *
  have hzero : u.type = .zero ∧ (v.type = .zero ∨ v.type = .norm) ∨ u.type = .norm ∧ v.type = .zero →
      (ppcFpuMul res u v).type = .zero ∧ (ppcFpuMul res u v).s = u.s ^^^ v.s := by
    rintro (⟨h1, h2 | h2⟩ | ⟨h1, h2⟩) <;> simp [ppcFpuMul, mulSpecial, h1, h2]
  rcases ha with ⟨h1, h0⟩ | ⟨h1, hv1, -, -⟩
  · obtain ⟨ht, hsgn⟩ := hzero (.inl ⟨h1, hb.imp And.left fun h => h.1.type⟩)
    rw [h0, zero_mul, ← hsgn]
    exact rounded_zero ht
  · rcases hb with ⟨h2, h0⟩ | ⟨h2, hv2, -, -⟩
    · obtain ⟨ht, hsgn⟩ := hzero (.inr ⟨h1.type, h2⟩)
      rw [h0, mul_zero, ← hsgn]
      exact rounded_zero ht
    · obtain ⟨hn, hsgn, hnear, hle⟩ := ppcFpuMul_norm res h1 h2
      rw [hv1, hv2, ← hsgn]
      exact rounded_of_near hn.type hn.packable hnear fun _ => hle

/-! ## Division -/

theorem div_round {a b r n : Nat} (bit : Nat) (hb : 0 < b) (hle : bit * b ≤ a) :
    (2 * r + bit) * 2 ^ n + 2 * (a - bit * b) * 2 ^ n / (2 * b) =
      r * 2 ^ (n + 1) + a * 2 ^ (n + 1) / (2 * b) := by
  have h : a * 2 ^ (n + 1) = 2 * (a - bit * b) * 2 ^ n + bit * 2 ^ n * (2 * b) := by
    conv_lhs => rw [← Nat.sub_add_cancel hle]
    ring
  rw [h, Nat.add_mul_div_right _ _ (by omega)]
  ring

/-- The loop of the division: the quotient so far, then the digits of what is left over the
divisor. It stops early only where all further digits are zero. -/
theorem divLoop_spec {bm : BitVec 64} (hb : 0 < bm.toNat) (hb' : bm.toNat < 2 ^ 56) :
    ∀ (n : Nat) (rm am : BitVec 64), am.toNat < 2 * bm.toNat → (rm.toNat + 1) * 2 ^ n ≤ 2 ^ 56 →
      (divLoop bm n rm am).1.toNat * 2 ^ (divLoop bm n rm am).2 =
        rm.toNat * 2 ^ n + am.toNat * 2 ^ n / (2 * bm.toNat) := by
  intro n
  induction n with
  | zero =>
    intro rm am ham _
    rw [divLoop, pow_zero, mul_one, mul_one, Nat.div_eq_of_lt ham, add_zero]
  | succ n ih =>
    intro rm am ham hrm
    rw [divLoop]
    split
    · rename_i h0
      rw [h0, show (0 : BitVec 64).toNat = 0 from rfl, Nat.zero_mul, Nat.zero_div, add_zero]
    · have hrm2 : (2 * rm.toNat + 1 + 1) * 2 ^ n ≤ 2 ^ 56 := by
        calc (2 * rm.toNat + 1 + 1) * 2 ^ n = (rm.toNat + 1) * 2 ^ (n + 1) := by ring
          _ ≤ 2 ^ 56 := hrm
      have hrm1 : 2 * rm.toNat + 1 + 1 ≤ 2 ^ 56 :=
        (Nat.le_mul_of_pos_right _ (Nat.two_pow_pos n)).trans hrm2
      have hdbl : (rm <<< 1).toNat = 2 * rm.toNat := by
        rw [BitVec.toNat_shiftLeft, Nat.shiftLeft_eq, Nat.mod_eq_of_lt (by omega), mul_comm]
      have hor : (rm <<< 1 ||| 1).toNat = 2 * rm.toNat + 1 := by
        have := Nat.two_pow_add_eq_or_of_lt (i := 1) (b := 1) (by omega) rm.toNat
        rw [BitVec.toNat_or, hdbl, show (1 : BitVec 64).toNat = 1 from rfl, this.symm]
      -- the next digit is 1 exactly if the divisor goes into what is left
      by_cases hle : bm ≤ am
      · have hle' : bm.toNat ≤ am.toNat := hle
        have hsub : ((am - bm) <<< 1).toNat = 2 * (am.toNat - 1 * bm.toNat) := by
          rw [BitVec.toNat_shiftLeft, Nat.shiftLeft_eq, BitVec.toNat_sub_of_le hle]
          omega
        simp only [if_pos hle]
        rw [ih _ _ (by rw [hsub]; omega) (by rw [hor]; exact hrm2), hor, hsub,
          div_round 1 hb (by omega)]
      · have hlt : am.toNat < bm.toNat := by
          rw [BitVec.le_def] at hle
          omega
        have hsub : (am <<< 1).toNat = 2 * (am.toNat - 0 * bm.toNat) := by
          rw [BitVec.toNat_shiftLeft, Nat.shiftLeft_eq]
          omega
        have hrm3 : (2 * rm.toNat + 1) * 2 ^ n ≤ 2 ^ 56 :=
          (Nat.mul_le_mul_right _ (by omega)).trans hrm2
        simp only [if_neg hle]
        rw [ih _ _ (by rw [hsub]; omega) (by rw [hdbl]; exact hrm3), hdbl, hsub]
        exact div_round 0 hb (by omega)

/-- The quotient of the significands, with one digit more than fits at its right. -/
theorem divLoop_quotient {a b : BitVec 64} (ha : 2 ^ 55 ≤ a.toNat) (ha' : a.toNat < 2 ^ 56)
    (hb : 2 ^ 55 ≤ b.toNat) (hb' : b.toNat < 2 ^ 56) :
    ((divLoop b 56 0 a).1 <<< ((divLoop b 56 0 a).2 + 1)).toNat =
      2 * (a.toNat * 2 ^ 55 / b.toNat) := by
  have hspec := divLoop_spec (by omega) hb' 56 0 a (by omega)
    (by rw [show (0 : BitVec 64).toNat = 0 from rfl, Nat.zero_add, one_mul])
  rw [show (0 : BitVec 64).toNat = 0 from rfl, Nat.zero_mul, Nat.zero_add,
    show a.toNat * 2 ^ 56 = 2 * (a.toNat * 2 ^ 55) by ring, Nat.mul_div_mul_left _ _ (by omega)]
    at hspec
  have hq : a.toNat * 2 ^ 55 / b.toNat < 2 ^ 56 :=
    (Nat.div_lt_iff_lt_mul (by omega)).mpr (by omega)
  rw [BitVec.toNat_shiftLeft, Nat.shiftLeft_eq, pow_succ, ← mul_assoc, hspec,
    Nat.mod_eq_of_lt (by omega), mul_comm]

/-- The exact quotient lies in the cell of the whole quotient of the significands. -/
theorem quotient_cell {a b : PpcDouble} (hb : 0 < b.m.toNat) :
    ((a.m.toNat * 2 ^ 55 / b.m.toNat : Nat) : ℚ) * 2 ^ (a.e - b.e - 55 : ℤ) ≤ a.value / b.value ∧
      a.value / b.value <
        ((a.m.toNat * 2 ^ 55 / b.m.toNat : Nat) + 1) * 2 ^ (a.e - b.e - 55 : ℤ) := by
  have hbq : (0 : ℚ) < b.m.toNat := mod_cast hb
  have hval : a.value / b.value =
      ((a.m.toNat * 2 ^ 55 : Nat) : ℚ) / b.m.toNat * 2 ^ (a.e - b.e - 55 : ℤ) := by
    have he : (2 : ℚ) ^ (a.e - 55) = 2 ^ 55 * 2 ^ (a.e - b.e - 55) * 2 ^ (b.e - 55) := by
      rw [← BinaryFloat.two_zpow_add_nat, ← BinaryFloat.two_zpow_add]
      congr 1
      push_cast
      ring
    have hb2 := (BinaryFloat.two_zpow_pos (b.e - 55)).ne'
    rw [PpcDouble.value, PpcDouble.value, he]
    push_cast
    field_simp
    norm_num
  rw [hval]
  have hk := BinaryFloat.two_zpow_pos (a.e - b.e - 55)
  constructor
  · refine mul_le_mul_of_nonneg_right ((le_div_iff₀ hbq).mpr ?_) hk.le
    exact_mod_cast Nat.div_mul_le_self _ _
  · refine mul_lt_mul_of_pos_right ((div_lt_iff₀ hbq).mpr ?_) hk
    exact_mod_cast Nat.lt_div_mul_add hb |>.trans_eq (by ring)

/-- The quotient of two numbers: its value is cut off, and its leading one is in place. -/
theorem ppcFpuDiv_norm (res : PpcDouble) {a b : PpcDouble} (ha : Normal a) (hb : Normal b) :
    Normal (ppcFpuDiv res a b) ∧ (ppcFpuDiv res a b).s = a.s ^^^ b.s ∧
      Near binary64 (a.value / b.value) (ppcFpuDiv res a b).value ∧
      (ppcFpuDiv res a b).value ≤ a.value / b.value := by
  have hquot := divLoop_quotient ha.lo ha.hi hb.lo hb.hi
  obtain ⟨hblo, hbhi⟩ := And.intro hb.lo hb.hi
  obtain ⟨halo, hahi⟩ := And.intro ha.lo ha.hi
  have hbpos : 0 < b.m.toNat := by omega
  have hlt : a.m.toNat * 2 ^ 55 / b.m.toNat < 2 ^ 56 :=
    (Nat.div_lt_iff_lt_mul hbpos).mpr (by omega)
  have hge : 2 ^ 54 ≤ a.m.toNat * 2 ^ 55 / b.m.toNat :=
    (Nat.le_div_iff_mul_le hbpos).mpr (by omega)
  -- the quotient is a cell of the exact value
  have hcell := quotient_cell (a := a) hbpos
  have hnear : Near binary64 (a.value / b.value)
      ((a.m.toNat * 2 ^ 55 / b.m.toNat : Nat) * 2 ^ (a.e - b.e - 55 : ℤ)) := by
    refine mod_cast BinaryFloat.near_floor (n := (a.m.toNat * 2 ^ 55 / b.m.toNat : Nat))
      (.inr ?_) (mod_cast hcell.1) (mod_cast hcell.2)
    show (2 : ℤ) ^ 53 ≤ _
    omega
  rw [ppcFpuDiv]
  simp only [ha.type, hb.type]
  generalize (divLoop b.m 56 0 a.m).1 <<< ((divLoop b.m 56 0 a.m).2 + 1) = m at hquot
  generalize a.m.toNat * 2 ^ 55 / b.m.toNat = q at *
  have h56 := and_twoPow_ne_zero (m := m) (k := 56) (by omega)
  split
  · rename_i hc
    rw [h56, hquot] at hc
    have hm : (m >>> 1).toNat = q := by
      rw [BitVec.toNat_ushiftRight, Nat.shiftRight_eq_div_pow, hquot]
      omega
    refine ⟨⟨rfl, by rw [hm]; omega, by rw [hm]; omega⟩, rfl, ?_⟩
    simp only [PpcDouble.value, hm]
    exact ⟨hnear, hcell.1⟩
  · rename_i hc
    rw [h56, hquot] at hc
    refine ⟨⟨rfl, by rw [hquot]; omega, by rw [hquot]; omega⟩, rfl, ?_⟩
    have hv : (⟨.norm, a.s ^^^ b.s, a.e - b.e - 1, m⟩ : PpcDouble).value =
        q * 2 ^ (a.e - b.e - 55 : ℤ) := by
      rw [PpcDouble.value, hquot, show a.e - b.e - 55 = a.e - b.e - 1 - 55 + (1 : Nat) by
        push_cast; ring, BinaryFloat.two_zpow_add_nat]
      push_cast
      ring
    rw [hv]
    exact ⟨hnear, hcell.1⟩

/-- The quotient of two plain doubles, the second one not zero. -/
theorem ppcFpuDiv_rounded (fpscr : Uint32) (res : PpcDouble) {a b : BitVec 64} (ha : Plain a)
    (hb : Plain b) (hb0 : value64 b ≠ 0) :
    Rounded fpscr True |value64 a / value64 b| (a.msb ^^ b.msb)
      (ppcFpuPackDouble fpscr
        (ppcFpuDiv res (ppcFpuUnpackDouble a) (ppcFpuUnpackDouble b))).1 := by
  obtain ⟨ha, hsa⟩ := ha.cases
  obtain ⟨hb, hsb⟩ := hb.cases
  have hs := signField_xor a.msb b.msb
  rw [← abs_ne_zero, abs_value64] at hb0
  rw [abs_div, abs_value64, abs_value64, ← hs, ← hsa, ← hsb]
  generalize ppcFpuUnpackDouble a = u at *
  generalize ppcFpuUnpackDouble b = v at *
  rcases hb with ⟨-, h0⟩ | ⟨h2, hv2, -, -⟩
  · exact absurd h0 hb0
  rcases ha with ⟨h1, h0⟩ | ⟨h1, hv1, -, -⟩
  · have ht : (ppcFpuDiv res u v).type = .zero := by simp only [ppcFpuDiv, h1, h2.type]
    have hsgn : (ppcFpuDiv res u v).s = u.s ^^^ v.s := by simp only [ppcFpuDiv, h1, h2.type]
    rw [h0, zero_div, ← hsgn]
    exact rounded_zero ht
  · obtain ⟨hn, hsgn, hnear, hle⟩ := ppcFpuDiv_norm res h1 h2
    rw [hv1, hv2, ← hsgn]
    exact rounded_of_near hn.type hn.packable hnear fun _ => hle

/-! ## Addition -/

theorem toNat_alignM {m : BitVec 64} (h : 0 < m.toNat) (d : Nat) :
    (alignM m d).toNat = if d ≤ 56 then m.toNat / 2 ^ d else 1 := by
  have h0 : m ≠ 0 := fun h0 => by simp [h0] at h
  rw [alignM]
  split
  · rw [BitVec.toNat_ushiftRight, Nat.shiftRight_eq_div_pow]
  · rfl

/-- Moving the leading one into place keeps the value. -/
theorem normalize_spec {t : BitVec 64} {s : Uint32} {e : Int} (h0 : t ≠ 0)
    (ht : t.toNat < 2 ^ 56) :
    let diff := ppcFpuNormalize ⟨.norm, s, e, t⟩ - 8
    Normal ⟨.norm, s, e - diff, t <<< diff.toNat⟩ ∧
      (⟨.norm, s, e - diff, t <<< diff.toNat⟩ : PpcDouble).value = t.toNat * 2 ^ (e - 55) := by
  have hn0 : t.toNat ≠ 0 := fun h => h0 (BitVec.eq_of_toNat_eq h)
  have hlog : t.toNat.log2 < 56 := (Nat.log2_lt hn0).mpr ht
  have hself := Nat.log2_self_le hn0
  have hlt := Nat.lt_log2_self (n := t.toNat)
  simp only [ppcFpuNormalize, ppcCountLeadingZeros_eq h0]
  obtain ⟨j, hj⟩ : ∃ j, t.toNat.log2 + j = 55 := ⟨55 - t.toNat.log2, by omega⟩
  have hdiff : (63 : Int) - t.toNat.log2 - 8 = j := by omega
  rw [hdiff, Int.toNat_natCast]
  have hlo : 2 ^ 55 ≤ t.toNat * 2 ^ j := by
    calc 2 ^ 55 = 2 ^ t.toNat.log2 * 2 ^ j := by rw [← pow_add, hj]
      _ ≤ t.toNat * 2 ^ j := Nat.mul_le_mul_right _ hself
  have hhi : t.toNat * 2 ^ j < 2 ^ 56 := by
    calc t.toNat * 2 ^ j < 2 ^ (t.toNat.log2 + 1) * 2 ^ j :=
          Nat.mul_lt_mul_of_pos_right hlt (Nat.two_pow_pos j)
      _ = 2 ^ 56 := by rw [← pow_add]; congr 1; omega
  have hsh : (t <<< j).toNat = t.toNat * 2 ^ j := by
    rw [BitVec.toNat_shiftLeft, Nat.shiftLeft_eq, Nat.mod_eq_of_lt (by omega)]
  refine ⟨⟨rfl, by rw [hsh]; exact hlo, by rw [hsh]; exact hhi⟩, ?_⟩
  rw [PpcDouble.value, hsh, show e - 55 = e - j - 55 + j by ring, BinaryFloat.two_zpow_add_nat]
  push_cast
  ring

section
variable {H L d : Nat} {k : ℤ}

/-- The smaller operand counts less than a unit when it is moved out altogether. -/
theorem tiny_lt (hL0 : 0 < L) (hL : L < 2 ^ 56) (hd : 56 < d) :
    0 < (L : ℚ) * 2 ^ (k - d) ∧ (L : ℚ) * 2 ^ (k - d) < 2 ^ k := by
  have hk := BinaryFloat.two_zpow_pos (k - d)
  refine ⟨mul_pos (mod_cast hL0) hk, ?_⟩
  calc (L : ℚ) * 2 ^ (k - d) < (2 ^ 56 : Nat) * 2 ^ (k - d) :=
        mul_lt_mul_of_pos_right (mod_cast hL) hk
    _ = 2 ^ (k - d + (56 : Nat)) := by rw [BinaryFloat.two_zpow_add_nat]; push_cast; ring
    _ ≤ 2 ^ k := BinaryFloat.two_zpow_le (by omega)

/-- The sum is as near as what is left of the smaller operand makes it. -/
theorem near_sum (hH : 2 ^ 55 ≤ H) (hH' : H < 2 ^ 56) (hH8 : H % 8 = 0) (hL0 : 0 < L)
    (hL : L < 2 ^ 56) {T : Nat} (hT : T = H + if d ≤ 56 then L / 2 ^ d else 1) :
    (T < 2 ^ 56 → Near binary64 (H * 2 ^ k + L * 2 ^ (k - d)) (T * 2 ^ k)) ∧
      (2 ^ 56 ≤ T → Near binary64 (H * 2 ^ k + L * 2 ^ (k - d))
        ((T / 2 : Nat) * 2 ^ (k + 1))) := by
  rcases le_or_gt d 56 with hd | hd
  · rw [if_pos hd] at hT
    have hN : (H * 2 ^ k + L * 2 ^ (k - d) : ℚ) = (H * 2 ^ d + L : Nat) * 2 ^ (k - d) := by
      rw [show (2 : ℚ) ^ k = 2 ^ (k - d + d) by rw [sub_add_cancel], BinaryFloat.two_zpow_add_nat]
      push_cast
      ring
    have hq : (H * 2 ^ d + L) / 2 ^ d = T := by
      rw [mul_comm, Nat.mul_add_div (Nat.two_pow_pos d), hT]
    have hq' : (H * 2 ^ d + L) / 2 ^ (d + 1) = T / 2 := by
      rw [pow_succ, ← Nat.div_div_eq_div_mul, hq]
    rw [hN]
    constructor
    · intro _
      have := near_div (n := H * 2 ^ d + L) (s := d) (k := k - d)
        (by rw [hq, hT]; exact hH.trans (Nat.le_add_right _ _))
      rwa [hq, sub_add_cancel] at this
    · intro hcarry
      have := near_div (n := H * 2 ^ d + L) (s := d + 1) (k := k - d) (by rw [hq']; omega)
      rwa [hq', show k - d + (d + 1 : Nat) = k + 1 by push_cast; ring] at this
  · rw [if_neg (by omega)] at hT
    obtain ⟨h0, h1⟩ := tiny_lt (k := k) hL0 hL hd
    refine ⟨fun _ => ?_, fun _ => by omega⟩
    -- both lie between `H` and the next double
    have h8 : (H : ℚ) * 2 ^ k = (H / 8 : Nat) * 2 ^ (k + (3 : Nat)) := by
      have : H = 8 * (H / 8) := by omega
      rw [BinaryFloat.two_zpow_add_nat]
      conv_lhs => rw [this]
      push_cast
      ring
    have h3 : (2 : ℚ) ^ (k + (3 : Nat)) = 8 * 2 ^ k := by
      rw [BinaryFloat.two_zpow_add_nat]
      norm_num
    have hk := BinaryFloat.two_zpow_pos k
    have hcell := BinaryFloat.near_between (F := binary64) (k := k + (3 : Nat))
      (n := (H / 8 : Nat)) (x := H * 2 ^ k + L * 2 ^ (k - d)) (y := T * 2 ^ k)
      (.inr (show (2 : ℤ) ^ 53 ≤ _ by omega))
    rw [Int.cast_natCast, ← h8, add_mul, ← h8, h3] at hcell
    rw [hT] at hcell ⊢
    push_cast at hcell ⊢
    exact hcell (by linarith) (by linarith) (by linarith) (by linarith)

/-- The difference is as near as what is left of the smaller operand makes it. Up to a distance of
three digits nothing is lost; from there on the leading one moves by one place at most. -/
theorem near_diff (hH : 2 ^ 55 ≤ H) (hH8 : H % 8 = 0) (hL0 : 0 < L) (hL : L < 2 ^ 56)
    (hL8 : L % 8 = 0) {l : Nat} (hl : l = if d ≤ 56 then L / 2 ^ d else 1) :
    Near binary64 (H * 2 ^ k - L * 2 ^ (k - d)) (((H : ℤ) - l : ℤ) * 2 ^ k) := by
  have hk := BinaryFloat.two_zpow_pos k
  have hLd : (L : ℚ) * 2 ^ k = L * 2 ^ (k - d + d) := by rw [sub_add_cancel]
  rcases le_or_gt d 3 with h3 | h3
  · rw [if_pos (by omega)] at hl
    have hdvd : 2 ^ d ∣ L := (Nat.pow_dvd_pow 2 h3).trans (Nat.dvd_of_mod_eq_zero hL8)
    have hLl : (L : ℚ) * 2 ^ (k - d) = l * 2 ^ k := by
      have : L = l * 2 ^ d := by rw [hl, Nat.div_mul_cancel hdvd]
      rw [show (2 : ℚ) ^ k = 2 ^ (k - d + d) by rw [sub_add_cancel], BinaryFloat.two_zpow_add_nat,
        this]
      push_cast
      ring
    rw [hLl]
    push_cast
    rw [sub_mul]
    exact .refl _
  rcases le_or_gt d 56 with hd | hd
  · rw [if_pos hd] at hl
    have hl52 : l < 2 ^ 52 := by
      rw [hl]
      refine Nat.div_lt_of_lt_mul (hL.trans_le ?_)
      calc 2 ^ 56 = 2 ^ 4 * 2 ^ 52 := by norm_num
        _ ≤ 2 ^ d * 2 ^ 52 := Nat.mul_le_mul_right _ (Nat.pow_le_pow_right (by omega) h3)
    have h1 := BinaryFloat.cell_lo (k := k - d) L d
    have h2 := BinaryFloat.cell_hi (k := k - d) L d
    rw [sub_add_cancel, ← hl] at h1 h2
    have := BinaryFloat.near_ceil (F := binary64) (k := k) (n := (H : ℤ) - l - 1)
      (x := H * 2 ^ k - L * 2 ^ (k - d)) (.inr (show (2 : ℤ) ^ 53 ≤ _ by omega))
      (by push_cast; linarith) (by push_cast; linarith)
    push_cast at this ⊢
    rwa [sub_add_cancel] at this
  · rw [if_neg (by omega)] at hl
    obtain ⟨h0, h1⟩ := tiny_lt (k := k) hL0 hL hd
    -- both lie between `H` and the next double below
    have h4 : (2 : ℚ) ^ (k + (2 : Nat)) = 4 * 2 ^ k := by
      rw [BinaryFloat.two_zpow_add_nat]
      norm_num
    obtain ⟨q, rfl⟩ : ∃ q, H = 4 * q := ⟨H / 4, by omega⟩
    have hn : ((q : ℤ) - 1 : ℤ) * (2 : ℚ) ^ (k + (2 : Nat)) = (4 * q : Nat) * 2 ^ k - 4 * 2 ^ k := by
      rw [h4]
      push_cast
      ring
    have hcell := BinaryFloat.near_between (F := binary64) (k := k + (2 : Nat)) (n := (q : ℤ) - 1)
      (x := (4 * q : Nat) * 2 ^ k - L * 2 ^ (k - d)) (y := (((4 * q : Nat) : ℤ) - l : ℤ) * 2 ^ k)
      (.inr (show (2 : ℤ) ^ 53 ≤ _ by omega))
    rw [add_mul, hn, h4, hl] at hcell
    rw [hl]
    push_cast at hcell ⊢
    exact hcell (by linarith) (by linarith) (by linarith) (by linarith)

end

/-- The carry of a sum is moved back in. -/
theorem sum_norm {m : BitVec 64} {s : Uint32} {e : Int} {x : ℚ} (hlo : 2 ^ 55 ≤ m.toNat)
    (hhi : m.toNat < 2 ^ 57) (h1 : m.toNat < 2 ^ 56 → Near binary64 x (m.toNat * 2 ^ (e - 55)))
    (h2 : 2 ^ 56 ≤ m.toNat → Near binary64 x ((m.toNat / 2 : Nat) * 2 ^ (e - 55 + 1))) :
    let r : PpcDouble :=
      if m &&& BitVec.twoPow 64 56 ≠ 0 then ⟨.norm, s, e + 1, m >>> 1⟩ else ⟨.norm, s, e, m⟩
    Normal r ∧ r.s = s ∧ Near binary64 x r.value := by
  have h56 := and_twoPow_ne_zero (m := m) (k := 56) (by omega)
  intro r
  by_cases hc : m &&& BitVec.twoPow 64 56 ≠ 0
  · have hr : r = ⟨.norm, s, e + 1, m >>> 1⟩ := if_pos hc
    rw [h56] at hc
    have hm : (m >>> 1).toNat = m.toNat / 2 := by
      rw [BitVec.toNat_ushiftRight, Nat.shiftRight_eq_div_pow, pow_one]
    rw [hr]
    refine ⟨⟨rfl, by rw [hm]; omega, by rw [hm]; omega⟩, rfl, ?_⟩
    rw [PpcDouble.value, hm, show e + 1 - 55 = e - 55 + 1 by ring]
    exact h2 hc
  · have hr : r = ⟨.norm, s, e, m⟩ := if_neg hc
    rw [h56] at hc
    rw [hr]
    exact ⟨⟨rfl, hlo, not_le.mp hc⟩, rfl, h1 (by omega)⟩

/-- An operand of the sums: its last three bits are zero. -/
structure Operand (u : PpcDouble) : Prop extends Normal u where
  eighths : u.m.toNat % 8 = 0

theorem alignM_lt {m : BitVec 64} (h0 : 0 < m.toNat) (h : m.toNat < 2 ^ 56) (d : Nat) :
    (alignM m d).toNat < 2 ^ 56 ∧ (0 < d → (alignM m d).toNat < 2 ^ 55) := by
  rw [toNat_alignM h0]
  split
  · refine ⟨(Nat.div_le_self _ _).trans_lt h, fun hd => Nat.div_lt_of_lt_mul (h.trans_le ?_)⟩
    calc 2 ^ 56 = 2 ^ 1 * 2 ^ 55 := by norm_num
      _ ≤ 2 ^ d * 2 ^ 55 := Nat.mul_le_mul_right _ (Nat.pow_le_pow_right (by omega) hd)
  · exact ⟨by norm_num, fun _ => by norm_num⟩

theorem ppcFpuAdd_same (fpscr : Uint32) (res : PpcDouble) {a b : PpcDouble} (ha : Operand a)
    (hb : Operand b) (hs : a.s = b.s) :
    Normal (ppcFpuAdd fpscr res a b) ∧ (ppcFpuAdd fpscr res a b).s = a.s ∧
      Near binary64 (a.value + b.value) (ppcFpuAdd fpscr res a b).value := by
  have ha0 : 0 < a.m.toNat := (Nat.two_pow_pos 55).trans_le ha.lo
  have hb0 : 0 < b.m.toNat := (Nat.two_pow_pos 55).trans_le hb.lo
  obtain ⟨ha1, ha2⟩ := And.intro ha.lo ha.hi
  obtain ⟨hb1, hb2⟩ := And.intro hb.lo hb.hi
  rw [ppcFpuAdd]
  simp only [ha.type, hb.type, hs, if_true]
  by_cases hd : a.e - b.e < 0
  · simp only [if_pos hd]
    have hal := alignM_lt ha0 ha.hi (-(a.e - b.e)).toNat
    have hsum : (alignM a.m (-(a.e - b.e)).toNat + b.m).toNat =
        b.m.toNat + (alignM a.m (-(a.e - b.e)).toNat).toNat := by
      rw [BitVec.toNat_add]
      omega
    have hal' := toNat_alignM ha0 (-(a.e - b.e)).toNat
    have hnear := near_sum (k := b.e - 55) hb.lo hb.hi hb.eighths ha0 ha.hi (hsum.trans (by rw [hal']))
    rw [show b.e - 55 - ((-(a.e - b.e)).toNat : ℤ) = a.e - 55 by omega] at hnear
    rw [add_comm a.value, PpcDouble.value, PpcDouble.value]
    exact sum_norm (by omega) (by omega) hnear.1 hnear.2
  · simp only [if_neg hd]
    have hal := alignM_lt hb0 hb.hi (a.e - b.e).toNat
    have hsum : (a.m + alignM b.m (a.e - b.e).toNat).toNat =
        a.m.toNat + (alignM b.m (a.e - b.e).toNat).toNat := by
      rw [BitVec.toNat_add]
      omega
    have hal' := toNat_alignM hb0 (a.e - b.e).toNat
    have hnear := near_sum (k := a.e - 55) ha.lo ha.hi ha.eighths hb0 hb.hi (hsum.trans (by rw [hal']))
    rw [show a.e - 55 - ((a.e - b.e).toNat : ℤ) = b.e - 55 by omega] at hnear
    rw [PpcDouble.value, PpcDouble.value]
    exact sum_norm (by omega) (by omega) hnear.1 hnear.2

/-- The difference of two significands: its magnitude with the leading one in place, and the sign
of the larger. -/
theorem diff_norm {x y : BitVec 64} {s t : Uint32} {e : Int} {p : BitVec 64 × Uint32}
    (hx : x.toNat < 2 ^ 56) (hy : y.toNat < 2 ^ 56) (hne : x ≠ y)
    (hp : (if (x - y).slt 0 then (y - x, t) else (x - y, s)) = p) :
    let diff := ppcFpuNormalize ⟨.norm, p.2, e, p.1⟩ - 8
    Normal ⟨.norm, p.2, e - diff, p.1 <<< diff.toNat⟩ ∧
      p.2 = (if x.toNat < y.toNat then t else s) ∧
      (⟨.norm, p.2, e - diff, p.1 <<< diff.toNat⟩ : PpcDouble).value =
        |((x.toNat : ℤ) - y.toNat : ℤ)| * 2 ^ (e - 55) := by
  have hslt : (x - y).slt 0 = decide (x.toNat < y.toNat) := by
    have h0 : (0 : BitVec 64).toInt = 0 := rfl
    rw [BitVec.slt, h0, BitVec.toInt_eq_toNat_cond, BitVec.toNat_sub, decide_eq_decide]
    split <;> omega
  rw [hslt] at hp
  have hsub : p.1.toNat = (|((x.toNat : ℤ) - y.toNat : ℤ)|).toNat := by
    by_cases hlt : x.toNat < y.toNat
    · rw [← hp, if_pos (by simpa using hlt), abs_of_neg (by omega),
        BitVec.toNat_sub_of_le (le_of_lt hlt)]
      omega
    · rw [← hp, if_neg (by simpa using hlt), abs_of_nonneg (by omega),
        BitVec.toNat_sub_of_le (not_lt.mp hlt)]
      omega
  have hne' : x.toNat ≠ y.toNat := fun h => hne (BitVec.eq_of_toNat_eq h)
  have hpos : (0 : ℤ) < |((x.toNat : ℤ) - y.toNat : ℤ)| := abs_pos.mpr (by omega)
  have habs : |((x.toNat : ℤ) - y.toNat : ℤ)| < 2 ^ 56 := abs_lt.mpr ⟨by omega, by omega⟩
  have h0 : p.1 ≠ 0 := fun h => by
    have : p.1.toNat = 0 := by rw [h]; rfl
    omega
  obtain ⟨h1, h2⟩ := normalize_spec (s := p.2) (e := e) h0 (by omega)
  refine ⟨h1, ?_, ?_⟩
  · rw [← hp]
    by_cases hlt : x.toNat < y.toNat
    · rw [if_pos (by simpa using hlt), if_pos hlt]
    · rw [if_neg (by simpa using hlt), if_neg hlt]
  · rw [h2, hsub]
    have : (((|((x.toNat : ℤ) - y.toNat : ℤ)|).toNat : ℤ) : ℚ) = |((x.toNat : ℤ) - y.toNat : ℤ)| := by
      rw [Int.toNat_of_nonneg hpos.le]
    rw [← this]
    push_cast
    rfl

/-- What the sum of two numbers with opposite signs is, by their difference. -/
structure Difference (fpscr : Uint32) (a b r : PpcDouble) : Prop where
  zero : a.value = b.value → r.type = .zero ∧ r.s = zeroSign fpscr a.s b.s
  first : b.value < a.value → Normal r ∧ r.s = a.s ∧ Near binary64 (a.value - b.value) r.value
  second : a.value < b.value → Normal r ∧ r.s = b.s ∧ Near binary64 (b.value - a.value) r.value

/-- The second half of `ppc_fpu_add` for opposite signs, behind the alignment. -/
theorem difference_of_near {fpscr : Uint32} {a b : PpcDouble} {x y : BitVec 64} {e : Int}
    (hx : x.toNat < 2 ^ 56) (hy : y.toNat < 2 ^ 56) (heq : x = y → a.value = b.value)
    (hnear : Near binary64 (a.value - b.value) (((x.toNat : ℤ) - y.toNat : ℤ) * 2 ^ (e - 55))) :
    Difference fpscr a b
      (let m := x - y
      if m = 0 then ⟨.zero, zeroSign fpscr a.s b.s, e, m⟩
      else
        let p : BitVec 64 × Uint32 := if m.slt 0 then (y - x, b.s) else (m, a.s)
        let diff := ppcFpuNormalize ⟨.norm, p.2, e, p.1⟩ - 8
        ⟨.norm, p.2, e - diff, p.1 <<< diff.toNat⟩) := by
  have hk := BinaryFloat.two_zpow_pos (e - 55)
  have hsub : x - y = 0 ↔ x = y := by rw [← BitVec.toNat_inj, ← BitVec.toNat_inj, BitVec.toNat_sub,
    show (0 : BitVec 64).toNat = 0 from rfl]; have := x.isLt; have := y.isLt; omega
  by_cases hxy : x = y
  · have h0 := heq hxy
    simp only [hsub.mpr hxy, if_true]
    exact ⟨fun _ => ⟨rfl, rfl⟩, fun h => absurd h0 h.ne', fun h => absurd h0 h.ne⟩
  · have hsub' : x - y ≠ 0 := mt hsub.mp hxy
    simp only [if_neg hsub']
    obtain ⟨h1, h2, h3⟩ := diff_norm (s := a.s) (t := b.s) (e := e) hx hy hxy rfl
    rcases lt_or_ge x.toNat y.toNat with hlt | hge
    · have hneg : a.value < b.value := by
        have := hnear.neg_of_neg (mul_neg_of_neg_of_pos (Int.cast_lt_zero.mpr (by omega)) hk)
        linarith
      refine ⟨fun h => absurd h hneg.ne, fun h => absurd h hneg.not_gt, fun _ => ⟨h1, ?_, ?_⟩⟩
      · rw [h2, if_pos hlt]
      · rw [h3, abs_of_neg (show (x.toNat : ℤ) - y.toNat < 0 by omega), Int.cast_neg]
        have := hnear.neg
        rwa [neg_sub, ← neg_mul] at this
    · have hne : x.toNat ≠ y.toNat := fun h => hxy (BitVec.eq_of_toNat_eq h)
      have hpos : b.value < a.value := by
        have := hnear.pos (mul_pos (Int.cast_pos.mpr (by omega)) hk)
        linarith
      refine ⟨fun h => absurd h hpos.ne', fun _ => ⟨h1, ?_, ?_⟩, fun h => absurd h hpos.not_gt⟩
      · rw [h2, if_neg (not_lt.mpr hge)]
      · rw [h3, abs_of_pos (show 0 < (x.toNat : ℤ) - y.toNat by omega)]
        exact hnear

theorem ppcFpuAdd_opposite (fpscr : Uint32) (res : PpcDouble) {a b : PpcDouble} (ha : Operand a)
    (hb : Operand b) (hs : a.s ≠ b.s) : Difference fpscr a b (ppcFpuAdd fpscr res a b) := by
  have ha0 : 0 < a.m.toNat := (Nat.two_pow_pos 55).trans_le ha.lo
  have hb0 : 0 < b.m.toNat := (Nat.two_pow_pos 55).trans_le hb.lo
  have hblo := hb.lo
  rw [ppcFpuAdd]
  simp only [ha.type, hb.type, if_neg hs]
  by_cases hd : a.e - b.e < 0
  · simp only [if_pos hd]
    obtain ⟨hlt, hlt'⟩ := alignM_lt ha0 ha.hi (-(a.e - b.e)).toNat
    have hnear := (near_diff (k := b.e - 55) hb.lo hb.eighths ha0 ha.hi ha.eighths
      (toNat_alignM ha0 (-(a.e - b.e)).toNat)).neg
    rw [show b.e - 55 - ((-(a.e - b.e)).toNat : ℤ) = a.e - 55 by omega, neg_sub, ← neg_mul,
      ← Int.cast_neg, neg_sub] at hnear
    refine difference_of_near hlt hb.hi (fun h => ?_) hnear
    have := hlt' (by omega)
    rw [h] at this
    omega
  · simp only [if_neg hd]
    obtain ⟨hlt, hlt'⟩ := alignM_lt hb0 hb.hi (a.e - b.e).toNat
    have hnear := near_diff (k := a.e - 55) ha.lo ha.eighths hb0 hb.hi hb.eighths
      (toNat_alignM hb0 (a.e - b.e).toNat)
    rw [show a.e - 55 - ((a.e - b.e).toNat : ℤ) = b.e - 55 by omega] at hnear
    refine difference_of_near ha.hi hlt (fun h => ?_) hnear
    -- equal significands have equal exponents
    have hzero : (a.e - b.e).toNat = 0 := by
      by_contra h0
      have := hlt' (Nat.pos_of_ne_zero h0)
      have := ha.lo
      rw [h] at this
      omega
    rw [hzero, alignM, if_pos (by omega)] at h
    rw [PpcDouble.value, PpcDouble.value, h, show a.e = b.e by omega]
    simp

/-- The sign of the sum of two doubles: that of the exact sum; an exact zero is negative if both
operands are negative zeros, or if it comes of two numbers in the mode towards minus infinity. -/
def sumSign (fpscr : Uint32) (a b : BitVec 64) : Bool :=
  if value64 a + value64 b = 0 then
    if value64 a = 0 then a.msb && b.msb else decide (fpscrRn fpscr = .down)
  else decide (value64 a + value64 b < 0)

theorem sumSign_of_pos {fpscr : Uint32} {a b : BitVec 64} (h : 0 < value64 a + value64 b) :
    sumSign fpscr a b = false := by
  rw [sumSign, if_neg h.ne', decide_eq_false h.not_gt]

theorem sumSign_of_neg {fpscr : Uint32} {a b : BitVec 64} (h : value64 a + value64 b < 0) :
    sumSign fpscr a b = true := by
  rw [sumSign, if_neg h.ne, decide_eq_true h]

theorem sumSign_signed (fpscr : Uint32) {a b : BitVec 64} {neg : Bool} {x : ℚ}
    (h : value64 a + value64 b = signed neg x) (hx : 0 < x) :
    sumSign fpscr a b = neg ∧ |value64 a + value64 b| = x := by
  cases neg with
  | false =>
    replace h : value64 a + value64 b = x := h
    exact ⟨sumSign_of_pos (by rw [h]; exact hx), by rw [h, abs_of_pos hx]⟩
  | true =>
    replace h : value64 a + value64 b = -x := h
    exact ⟨sumSign_of_neg (by rw [h]; linarith), by rw [h, abs_neg, abs_of_pos hx]⟩

theorem signField_inj {a b : Bool} : signField a = signField b ↔ a = b := by
  cases a <;> cases b <;> decide

theorem zeroSign_signField (fpscr : Uint32) {a b : Bool} (h : a ≠ b) :
    (zeroSign fpscr (signField a) (signField b) != 0) = decide (fpscrRn fpscr = .down) := by
  rw [zeroSign]
  split
  · rename_i hd
    rw [decide_eq_true hd]
    cases a <;> cases b <;> first | rfl | exact absurd rfl h
  · rename_i hd
    rw [decide_eq_false hd]
    cases a <;> cases b <;> first | rfl | exact absurd rfl h

theorem add_normal_rounded (fpscr : Uint32) (res : PpcDouble) {a b : BitVec 64} {u v : PpcDouble}
    (hu : Operand u) (hv : Operand v) (hua : binary64.decode (mag64 a) = u.value)
    (hvb : binary64.decode (mag64 b) = v.value) (hsa : u.s = signField a.msb)
    (hsb : v.s = signField b.msb) :
    Rounded fpscr False |value64 a + value64 b| (sumSign fpscr a b)
      (ppcFpuPackDouble fpscr (ppcFpuAdd fpscr res u v)).1 := by
  have hupos := hu.pos
  have hvpos := hv.pos
  have hva : value64 a = signed a.msb u.value := by rw [value64, hua]
  have hvb' : value64 b = signed b.msb v.value := by rw [value64, hvb]
  by_cases hs : a.msb = b.msb
  · obtain ⟨hn, hsgn, hnear⟩ := ppcFpuAdd_same fpscr res hu hv (by rw [hsa, hsb, hs])
    have hsum : value64 a + value64 b = signed a.msb (u.value + v.value) := by
      rw [hva, hvb', ← hs]
      cases a.msb
      · rfl
      · exact (neg_add _ _).symm
    obtain ⟨h1, h2⟩ := sumSign_signed fpscr hsum (by linarith)
    rw [h1, h2, ← signField_bne a.msb, ← hsa, ← hsgn]
    exact rounded_of_near hn.type hn.packable hnear False.elim
  · have hd := ppcFpuAdd_opposite fpscr res hu hv
      (by rw [hsa, hsb]; exact mt signField_inj.mp hs)
    have hsum : value64 a + value64 b = signed a.msb (u.value - v.value) := by
      rw [hva, hvb']
      cases ha : a.msb <;> cases hb : b.msb <;> first
        | exact absurd (ha.trans hb.symm) hs
        | (simp only [signed]; simp; ring)
    have hsum' : value64 a + value64 b = signed b.msb (v.value - u.value) := by
      rw [hsum]
      cases ha : a.msb <;> cases hb : b.msb <;> first
        | exact absurd (ha.trans hb.symm) hs
        | (simp only [signed]; simp)
    rcases lt_trichotomy u.value v.value with hlt | heq | hgt
    · obtain ⟨hn, hsgn, hnear⟩ := hd.second hlt
      obtain ⟨h1, h2⟩ := sumSign_signed fpscr hsum' (by linarith)
      rw [h1, h2, ← signField_bne b.msb, ← hsb, ← hsgn]
      exact rounded_of_near hn.type hn.packable hnear False.elim
    · obtain ⟨ht, hsgn⟩ := hd.zero heq
      have h0 : value64 a + value64 b = 0 := by
        rw [hsum, heq, sub_self]
        cases a.msb <;> simp [signed]
      have ha0 : value64 a ≠ 0 := by
        rw [← abs_ne_zero, abs_value64, hua]
        exact hupos.ne'
      rw [sumSign, if_pos h0, if_neg ha0, h0, abs_zero, ← zeroSign_signField fpscr hs, ← hsa, ← hsb,
        ← hsgn]
      exact rounded_zero ht
    · obtain ⟨hn, hsgn, hnear⟩ := hd.first hgt
      obtain ⟨h1, h2⟩ := sumSign_signed fpscr hsum (by linarith)
      rw [h1, h2, ← signField_bne a.msb, ← hsa, ← hsgn]
      exact rounded_of_near hn.type hn.packable hnear False.elim

theorem value64_eq_zero {d : BitVec 64} (h : binary64.decode (mag64 d) = 0) : value64 d = 0 := by
  rw [value64, h, signed, neg_zero, ite_self]

theorem ppcFpuAdd_rounded (fpscr : Uint32) (res : PpcDouble) {a b : BitVec 64} (ha : Plain a)
    (hb : Plain b) :
    Rounded fpscr False |value64 a + value64 b| (sumSign fpscr a b)
      (ppcFpuPackDouble fpscr
        (ppcFpuAdd fpscr res (ppcFpuUnpackDouble a) (ppcFpuUnpackDouble b))).1 := by
  obtain ⟨ha, hsa⟩ := ha.cases
  obtain ⟨hb, hsb⟩ := hb.cases
  generalize ppcFpuUnpackDouble a = u at *
  generalize ppcFpuUnpackDouble b = v at *
  rcases ha with ⟨hta, h0a⟩ | ⟨hna, hva, h8a, -⟩ <;> rcases hb with ⟨htb, h0b⟩ | ⟨hnb, hvb, h8b, -⟩
  · have hadd : (ppcFpuAdd fpscr res u v).type = .zero ∧
        ((ppcFpuAdd fpscr res u v).s != 0) = (a.msb && b.msb) := by
      rw [ppcFpuAdd, hta, htb, hsa, hsb]
      cases a.msb <;> cases b.msb <;> exact ⟨rfl, rfl⟩
    have hz : value64 a + value64 b = 0 := by
      rw [value64_eq_zero h0a, value64_eq_zero h0b, add_zero]
    rw [sumSign, if_pos hz, if_pos (value64_eq_zero h0a), hz, abs_zero, ← hadd.2]
    exact rounded_zero hadd.1
  · have hadd : ppcFpuAdd fpscr res u v = v := by rw [ppcFpuAdd, hta, hnb.type]
    have hsum : value64 a + value64 b = signed b.msb v.value := by
      rw [value64_eq_zero h0a, zero_add, value64, hvb]
    obtain ⟨h1, h2⟩ := sumSign_signed fpscr hsum hnb.pos
    rw [h1, h2, hadd, ← signField_bne b.msb, ← hsb]
    exact rounded_of_near hnb.type hnb.packable (.refl _) False.elim
  · have hadd : ppcFpuAdd fpscr res u v = u := by rw [ppcFpuAdd, hna.type, htb]
    have hsum : value64 a + value64 b = signed a.msb u.value := by
      rw [value64_eq_zero h0b, add_zero, value64, hva]
    obtain ⟨h1, h2⟩ := sumSign_signed fpscr hsum hna.pos
    rw [h1, h2, hadd, ← signField_bne a.msb, ← hsa]
    exact rounded_of_near hna.type hna.packable (.refl _) False.elim
  · exact add_normal_rounded fpscr res ⟨hna, h8a⟩ ⟨hnb, h8b⟩ hva hvb hsa hsb

/-! ## The instructions -/

section
variable {M : Type} (uninit : PpcDouble) (s : FpuCore M)

/-- `fpr[frD]` behind an instruction. -/
def FpuCore.result (t : FpuCore M) : BitVec 64 := t.fpr (rD s.currentOpc)

theorem FpuCore.result_finish (d : PpcDouble) :
    s.result (s.finish d) = (ppcFpuPackDouble s.fpscr d).1 := Function.update_self ..

theorem Plain.not_inf {d : BitVec 64} (h : Plain d) :
    (ppcFpuUnpackDouble d).type ≠ .inf ∧ (ppcFpuUnpackDouble d).type ≠ .nan := by
  rcases h.type_cases with h | h <;> rw [h] <;> decide

/-- `fmul` on plain operands: the register gets a double next to the exact product, the one towards
zero where the mode cuts off. -/
theorem fmul_rounded (ha : Plain s.opA) (hc : Plain s.opC) :
    Rounded s.fpscr True |value64 s.opA * value64 s.opC| (s.opA.msb ^^ s.opC.msb)
      (s.result (s.ppcOpcFmulx uninit)) := by
  have heq : s.ppcOpcFmulx uninit = s.finish (ppcFpuMul uninit s.frA s.frC) := by
    simp [FpuCore.ppcOpcFmulx, FpuCore.mulWith, FpuCore.raiseIf, FpuCore.frA, FpuCore.frC,
      ha.not_inf.1, hc.not_inf.1]
  rw [heq, FpuCore.result_finish]
  exact ppcFpuMul_rounded s.fpscr uninit ha hc

/-- `fdiv` on plain operands, the second one not zero. -/
theorem fdiv_rounded (ha : Plain s.opA) (hb : Plain s.opB) (hb0 : value64 s.opB ≠ 0) :
    Rounded s.fpscr True |value64 s.opA / value64 s.opB| (s.opA.msb ^^ s.opB.msb)
      (s.result (s.ppcOpcFdivx uninit)) := by
  have hz : (ppcFpuUnpackDouble s.opB).type ≠ .zero := by
    rcases hb.cases.1 with ⟨-, h0⟩ | ⟨h, -⟩
    · exact absurd (value64_eq_zero h0) hb0
    · rw [h.type]
      decide
  have heq : s.ppcOpcFdivx uninit = s.finish (ppcFpuDiv uninit s.frA s.frB) := by
    simp [FpuCore.ppcOpcFdivx, FpuCore.divWith, FpuCore.raiseIf, FpuCore.frA, FpuCore.frB,
      ha.not_inf.1, hz]
  rw [heq, FpuCore.result_finish]
  exact ppcFpuDiv_rounded s.fpscr uninit ha hb hb0

/-- The double with the other sign. -/
def opposite (d : BitVec 64) : BitVec 64 := d ^^^ fpuSignBit

theorem opposite_fields (d : BitVec 64) :
    (opposite d).msb = !d.msb ∧ mag64 (opposite d) = mag64 d := by
  have hlow : (opposite d).setWidth 63 = d.setWidth 63 := by
    ext i hi
    simp only [opposite, BitVec.getElem_setWidth, BitVec.getLsbD_xor,
      show fpuSignBit = BitVec.twoPow 64 63 from rfl, BitVec.getLsbD_twoPow]
    simp [show 63 ≠ i by omega]
  have hmag := congrArg BitVec.toNat hlow
  rw [BitVec.toNat_setWidth, BitVec.toNat_setWidth] at hmag
  refine ⟨?_, hmag⟩
  rw [opposite, BitVec.msb_xor]
  exact Bool.xor_true _

theorem value64_opposite (d : BitVec 64) : value64 (opposite d) = -value64 d := by
  rw [value64, value64, (opposite_fields d).1, (opposite_fields d).2]
  cases d.msb <;> simp [signed]

theorem Plain.opposite {d : BitVec 64} (h : Plain d) : Plain (opposite d) := by
  rwa [Plain, (opposite_fields d).2]

/-- Changing the sign of what a double is taken apart into changes the double's sign. -/
theorem negate_unpack (d : BitVec 64) :
    FpuCore.negate (ppcFpuUnpackDouble d) = ppcFpuUnpackDouble (opposite d) := by
  have hs : signField (!d.msb) = signField d.msb ^^^ 1 := by cases d.msb <;> rfl
  rw [unpack_fields, unpack_fields, (opposite_fields d).1, (opposite_fields d).2, hs, FpuCore.negate]
  simp only
  split_ifs <;> rfl

end

/-- A core whose registers all hold 1.5, in the mode that cuts off. -/
def halves : FpuCore Unit where
  toE500Core := { onePage ⟨0, Nat.zero_lt_succ _⟩ with fpr := fun _ => 0x3FF8000000000000 }
  fpscr := 1

theorem mag_halves (n : Nat) : mag64 (halves.fpr n) = 0x3FF8000000000000 := rfl

theorem plain_halves (n : Nat) : Plain (halves.fpr n) :=
  .inr (by rw [mag_halves]; norm_num [inf64])

theorem value_halves_ne_zero (n : Nat) : value64 (halves.fpr n) ≠ 0 := by
  rw [← abs_ne_zero, abs_value64, ne_eq, Format.decode_eq_zero_iff, mag_halves]
  norm_num

theorem fmul_rounded_halves :
    Rounded 1 True |value64 halves.opA * value64 halves.opC| (halves.opA.msb ^^ halves.opC.msb)
      (halves.result (halves.ppcOpcFmulx ⟨.norm, 0, 0, 0⟩)) :=
  fmul_rounded ⟨.norm, 0, 0, 0⟩ halves (plain_halves _) (plain_halves _)

theorem fdiv_rounded_halves :
    Rounded 1 True |value64 halves.opA / value64 halves.opB| (halves.opA.msb ^^ halves.opB.msb)
      (halves.result (halves.ppcOpcFdivx ⟨.norm, 0, 0, 0⟩)) :=
  fdiv_rounded ⟨.norm, 0, 0, 0⟩ halves (plain_halves _) (plain_halves _) (value_halves_ne_zero _)

end SkyEye.Ppc.Fpu
