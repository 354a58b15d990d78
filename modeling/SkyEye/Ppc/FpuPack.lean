import SkyEye.Ppc.Fpu

/-!
# Packed and unpacked numbers

What the bits of a double and of a single stand for, and what taking one apart and putting one
together does to it. Unpacking keeps the value; packing rounds the significand once, by the
mode of FPSCR, and from the least normal exponent on nothing is lost before that.
-/

namespace SkyEye.Ppc.Fpu

open Sparc (Uint32)
open BinaryFloat (Format Mode roundDiv)

/-! ## Words as numbers -/

theorem log2_div_two_pow {n k : Nat} (h : 2 ^ k ≤ n) : (n / 2 ^ k).log2 + k = n.log2 := by
  have hpos : 0 < 2 ^ k := Nat.two_pow_pos k
  have hd : n / 2 ^ k ≠ 0 := by
    rw [Nat.div_ne_zero_iff]
    omega
  symm
  rw [Nat.log2_eq_iff (by omega)]
  obtain ⟨hlo, hhi⟩ := (Nat.log2_eq_iff hd).mp rfl
  constructor
  · rw [pow_add]
    exact (Nat.le_div_iff_mul_le hpos).mp hlo
  · rw [show (n / 2 ^ k).log2 + k + 1 = (n / 2 ^ k).log2 + 1 + k by omega, pow_add]
    exact (Nat.div_lt_iff_lt_mul hpos).mp hhi

/-- A mask of one bit is the test of a bound, below twice the bit. -/
theorem and_twoPow_ne_zero {w k : Nat} {m : BitVec w} (h : m.toNat < 2 ^ (k + 1)) :
    m &&& BitVec.twoPow w k ≠ 0 ↔ 2 ^ k ≤ m.toNat := by
  rw [← bne_iff_ne, Word.and_twoPow_bne, BitVec.getLsbD, Nat.testBit_eq_decide_div_mod_eq,
    decide_eq_true_eq]
  have hpos : 0 < 2 ^ k := Nat.two_pow_pos k
  have hlt : m.toNat / 2 ^ k < 2 := Nat.div_lt_of_lt_mul (by rwa [← pow_succ])
  have h1 := Nat.le_div_iff_mul_le (k := 2 ^ k) (x := 1) (y := m.toNat) hpos
  rw [one_mul] at h1
  rw [← h1]
  generalize m.toNat / 2 ^ k = q at hlt
  omega

/-! ## Leading zeros -/

/-- One step of the search: where the upper part is not zero the leading one is in it. -/
theorem countStep {p : Prop} [Decidable p] (ret : Int) {j : Int} {dd : Uint32} {k : Nat} (hj : j = k)
    (h0 : dd ≠ 0) (hp : p ↔ 2 ^ k ≤ dd.toNat) :
    ∃ (r : Int) (d : Uint32), (if p then (ret - j, dd >>> k) else (ret, dd)) = (r, d) ∧ d ≠ 0 ∧
      r - d.toNat.log2 = ret - dd.toNat.log2 ∧ (dd.toNat < 2 ^ (2 * k) → d.toNat < 2 ^ k) := by
  have h0' : dd.toNat ≠ 0 := fun h => h0 (BitVec.eq_of_toNat_eq h)
  split
  · have hle := hp.mp ‹p›
    have ht : (dd >>> k).toNat = dd.toNat / 2 ^ k := by
      rw [BitVec.toNat_ushiftRight, Nat.shiftRight_eq_div_pow]
    have hlog := log2_div_two_pow hle
    refine ⟨ret - j, dd >>> k, rfl, fun h => ?_, ?_, fun hlt => ?_⟩
    · have := (Nat.div_pos hle (Nat.two_pow_pos k)).ne'
      rw [← ht, h] at this
      exact this rfl
    · rw [ht]
      omega
    · rw [ht]
      exact Nat.div_lt_of_lt_mul (by rwa [← pow_add, ← two_mul])
  · have hlt := mt hp.mpr ‹¬p›
    exact ⟨ret, dd, rfl, h0, rfl, fun _ => not_le.mp hlt⟩

/-- The masks of the last steps: what is left there has no bit above them. -/
theorem and_upper_ne_zero {dd : Uint32} {k : Nat} (hk : 2 * k ≤ 32)
    (h : dd.toNat < 2 ^ (2 * k)) :
    dd &&& BitVec.ofNat 32 ((2 ^ k - 1) <<< k) ≠ 0 ↔ 2 ^ k ≤ dd.toNat := by
  have heq : dd &&& BitVec.ofNat 32 ((2 ^ k - 1) <<< k) = (dd >>> k) <<< k := by
    refine BitVec.eq_of_getLsbD_eq fun i hi => ?_
    simp only [BitVec.getLsbD_and, BitVec.getLsbD_ofNat, BitVec.getLsbD_shiftLeft,
      BitVec.getLsbD_ushiftRight, Nat.testBit_shiftLeft, Nat.testBit_two_pow_sub_one]
    rcases Nat.lt_or_ge i k with hik | hik
    · simp [hik]
    · rw [Nat.add_sub_cancel' hik]
      rcases Nat.lt_or_ge i (2 * k) with h2 | h2
      · simp [hi, hik, show i - k < k by omega]
      · have hb : dd.getLsbD i = false := Nat.testBit_lt_two_pow
          (lt_of_lt_of_le h (Nat.pow_le_pow_right (by omega) h2))
        simp [hb]
  have hpos : 0 < 2 ^ k := Nat.two_pow_pos k
  have hle : 2 ^ (2 * k) ≤ 2 ^ 32 := Nat.pow_le_pow_right (by omega) hk
  have hmul : dd.toNat / 2 ^ k * 2 ^ k ≤ dd.toNat := Nat.div_mul_le_self _ _
  rw [heq, ne_eq, ← BitVec.toNat_inj, BitVec.toNat_shiftLeft, BitVec.toNat_ushiftRight,
    Nat.shiftRight_eq_div_pow, Nat.shiftLeft_eq, Nat.mod_eq_of_lt (by omega)]
  show ¬_ = 0 ↔ _
  rw [Nat.mul_eq_zero, Nat.div_eq_zero_iff]
  omega

theorem countFrom_eq (ret : Int) {dd : Uint32} (h : dd ≠ 0) :
    countFrom ret dd = ret - dd.toNat.log2 := by
  rw [countFrom]
  obtain ⟨r1, d1, h1, n1, e1, b1⟩ := countStep ret (j := 16) (k := 16) rfl h
    (show 0xFFFF < dd ↔ _ by rw [BitVec.lt_def]; exact Nat.lt_iff_add_one_le)
  obtain ⟨r2, d2, h2, n2, e2, b2⟩ := countStep r1 (j := 8) (k := 8) rfl n1
    (show 0xFF < d1 ↔ _ by rw [BitVec.lt_def]; exact Nat.lt_iff_add_one_le)
  have b2 := b2 (b1 dd.isLt)
  obtain ⟨r3, d3, h3, n3, e3, b3⟩ := countStep r2 (j := 4) (k := 4) rfl n2
    (show d2 &&& 0xF0 ≠ 0 ↔ _ from and_upper_ne_zero (k := 4) (by omega) b2)
  have b3 := b3 b2
  obtain ⟨r4, d4, h4, n4, e4, b4⟩ := countStep r3 (j := 2) (k := 2) rfl n3
    (show d3 &&& 0xC ≠ 0 ↔ _ from and_upper_ne_zero (k := 2) (by omega) b3)
  have b4 := b4 b3
  obtain ⟨r5, d5, h5, n5, e5, b5⟩ := countStep r4 (j := 1) (k := 1) rfl n4
    (show d4 &&& 0x2 ≠ 0 ↔ _ from and_upper_ne_zero (k := 1) (by omega) b4)
  simp only [h1, h2, h3, h4]
  have hlast : (if d4 &&& 0x2 ≠ 0 then r4 - 1 else r4) = r5 := by
    have := congrArg Prod.fst h5
    rw [apply_ite Prod.fst] at this
    exact this
  have hd5 : d5.toNat.log2 = 0 := by
    have : d5.toNat ≠ 0 := fun h => n5 (BitVec.eq_of_toNat_eq h)
    rw [Nat.log2_eq_iff this]
    have := b5 b4
    omega
  rw [hlast]
  omega

theorem ppcCountLeadingZeros_eq {i : BitVec 64} (h : i ≠ 0) :
    ppcCountLeadingZeros i = 63 - i.toNat.log2 := by
  have h0 : i.toNat ≠ 0 := fun h0 => h (BitVec.eq_of_toNat_eq h0)
  have hlt := i.isLt
  have hhi : ((i >>> 32).setWidth 32).toNat = i.toNat / 2 ^ 32 := by
    rw [BitVec.toNat_setWidth, BitVec.toNat_ushiftRight, Nat.shiftRight_eq_div_pow]
    omega
  rw [ppcCountLeadingZeros]
  split
  · rename_i hd
    have hle : 2 ^ 32 ≤ i.toNat := by
      by_contra hlt'
      refine hd (BitVec.eq_of_toNat_eq ?_)
      rw [hhi]
      exact Nat.div_eq_of_lt (not_le.mp hlt')
    have hlog := log2_div_two_pow hle
    rw [countFrom_eq 31 hd, hhi]
    omega
  · rename_i hd
    have hz : i.toNat / 2 ^ 32 = 0 := by
      rw [← hhi, not_not.mp hd]
      rfl
    have hlo : (i.setWidth 32).toNat = i.toNat := by
      rw [BitVec.toNat_setWidth]
      omega
    rw [countFrom_eq 63 (fun h1 => h0 (by rw [← hlo, h1]; rfl)), hlo]

/-! ## What the bits stand for -/

/-- The doubles and the singles. -/
abbrev binary64 : Format := ⟨53, -1074⟩
abbrev binary32 : Format := ⟨24, -149⟩

/-- The magnitude of a double, and where infinity is. -/
def mag64 (d : BitVec 64) : Nat := d.toNat % 2 ^ 63
abbrev inf64 : Nat := 2047 * 2 ^ 52

/-- The magnitude of a single, and where infinity is. -/
def mag32 (d : Uint32) : Nat := d.toNat % 2 ^ 31
abbrev inf32 : Nat := 255 * 2 ^ 23

/-- The value of a finite double, and of a finite single. -/
def value64 (d : BitVec 64) : ℚ := BinaryFloat.signed d.msb (binary64.decode (mag64 d))
def value32 (d : Uint32) : ℚ := BinaryFloat.signed d.msb (binary32.decode (mag32 d))

/-- The magnitude of an unpacked number. -/
def PpcDouble.value (d : PpcDouble) : ℚ := d.m.toNat * 2 ^ (d.e - 55)

/-! ## Unpacking -/

theorem and_signBit_ne_zero (d : BitVec 64) : d &&& fpuSignBit ≠ 0 ↔ d.msb = true := by
  rw [← bne_iff_ne, show fpuSignBit = BitVec.twoPow 64 63 from rfl, Word.and_twoPow_bne,
    BitVec.msb_eq_getLsbD_last]

/-- The sign as the fields have it. -/
def signField (neg : Bool) : Uint32 := if neg then 1 else 0

theorem fields_double (d : BitVec 64) :
    ((d >>> 52) &&& 0x7FF).toNat = mag64 d / 2 ^ 52 ∧
      (d &&& 0x000FFFFFFFFFFFFF).toNat = mag64 d % 2 ^ 52 := by
  have h1 : ((d >>> 52) &&& 0x7FF).toNat = (d >>> 52).toNat % 2 ^ 11 :=
    Word.toNat_and_low _ 11 (by omega)
  have h2 : (d &&& 0x000FFFFFFFFFFFFF).toNat = d.toNat % 2 ^ 52 :=
    Word.toNat_and_low _ 52 (by omega)
  rw [h1, h2, BitVec.toNat_ushiftRight, Nat.shiftRight_eq_div_pow, mag64]
  omega

theorem mag64_lt (d : BitVec 64) : mag64 d < 2 ^ 63 := Nat.mod_lt _ (by omega)

/-- The start of `ppc_fpu_unpack_double`, by the magnitude. -/
theorem unpack_fields (d : BitVec 64) :
    ppcFpuUnpackDouble d =
      let s := signField d.msb
      let e : Int := (mag64 d / 2 ^ 52 : Nat)
      let m := BitVec.ofNat 64 (mag64 d % 2 ^ 52)
      if e = 2047 then ⟨if m = 0 then .inf else .nan, s, e, m⟩
      else if e = 0 then
        if m = 0 then ⟨.zero, s, e, m⟩
        else
          let diff := ppcCountLeadingZeros m - 8
          ⟨.norm, s, e - (1023 - 1 + diff), m <<< (diff + 3).toNat⟩
      else ⟨.norm, s, e - 1023, (m ||| BitVec.twoPow 64 52) <<< 3⟩ := by
  obtain ⟨he, hm⟩ := fields_double d
  have hs : (if d &&& fpuSignBit ≠ 0 then 1 else 0) = signField d.msb := by
    simp only [and_signBit_ne_zero]
    rfl
  have hm' : d &&& 0x000FFFFFFFFFFFFF = BitVec.ofNat 64 (mag64 d % 2 ^ 52) := by
    rw [← hm, BitVec.ofNat_toNat, BitVec.setWidth_eq]
  rw [ppcFpuUnpackDouble]
  simp only [hs, he, hm', ppcFpuNormalize]

theorem ofNat_eq_zero_iff {n : Nat} (h : n < 2 ^ 64) : BitVec.ofNat 64 n = 0 ↔ n = 0 := by
  rw [← BitVec.toNat_inj, BitVec.toNat_ofNat, Nat.mod_eq_of_lt h]
  rfl

variable {d : BitVec 64}

theorem unpack_zero (h : mag64 d = 0) :
    ppcFpuUnpackDouble d = ⟨.zero, signField d.msb, 0, 0⟩ := by
  rw [unpack_fields]
  simp [h]

theorem unpack_inf (h : mag64 d = inf64) :
    ppcFpuUnpackDouble d = ⟨.inf, signField d.msb, 2047, 0⟩ := by
  rw [unpack_fields, h]
  rfl

theorem unpack_nan (h : inf64 < mag64 d) : (ppcFpuUnpackDouble d).type = .nan ∧
    (ppcFpuUnpackDouble d).s = signField d.msb := by
  have hlt := mag64_lt d
  unfold inf64 at h
  have he : mag64 d / 2 ^ 52 = 2047 := by omega
  have hm : BitVec.ofNat 64 (mag64 d % 2 ^ 52) ≠ 0 := by
    rw [ne_eq, ofNat_eq_zero_iff (by omega)]
    omega
  rw [unpack_fields, he]
  simp only [Nat.cast_ofNat, if_true, if_neg hm, and_self]

theorem unpack_normal (hlo : 2 ^ 52 ≤ mag64 d) (hhi : mag64 d < inf64) :
    ppcFpuUnpackDouble d = ⟨.norm, signField d.msb, (mag64 d / 2 ^ 52 : Nat) - 1023,
      BitVec.ofNat 64 ((2 ^ 52 + mag64 d % 2 ^ 52) * 8)⟩ := by
  have hm : (BitVec.ofNat 64 (mag64 d % 2 ^ 52) ||| BitVec.twoPow 64 52) <<< 3 =
      BitVec.ofNat 64 ((2 ^ 52 + mag64 d % 2 ^ 52) * 8) := by
    apply BitVec.eq_of_toNat_eq
    have hor := Nat.two_pow_add_eq_or_of_lt (i := 52) (b := mag64 d % 2 ^ 52)
      (Nat.mod_lt _ (by omega)) 1
    rw [mul_one] at hor
    rw [BitVec.toNat_shiftLeft, BitVec.toNat_or, BitVec.toNat_twoPow, BitVec.toNat_ofNat,
      BitVec.toNat_ofNat, Nat.mod_eq_of_lt (show mag64 d % 2 ^ 52 < 2 ^ 64 by omega),
      Nat.mod_eq_of_lt (show 2 ^ 52 < 2 ^ 64 by omega), Nat.or_comm, ← hor, Nat.shiftLeft_eq]
  unfold inf64 at hhi
  rw [unpack_fields]
  simp only [hm]
  rw [if_neg (by omega), if_neg (by omega)]

/-- A denormalized number ends up three bits too far to the left, its exponent three too low. -/
theorem unpack_denormal (hlo : 0 < mag64 d) (hhi : mag64 d < 2 ^ 52) :
    ppcFpuUnpackDouble d = ⟨.norm, signField d.msb, (mag64 d).log2 - 1077,
      BitVec.ofNat 64 (mag64 d * 2 ^ (58 - (mag64 d).log2))⟩ := by
  have he : mag64 d / 2 ^ 52 = 0 := Nat.div_eq_of_lt hhi
  have hlog : (mag64 d).log2 < 52 := (Nat.log2_lt hlo.ne').mpr hhi
  have hm0 : BitVec.ofNat 64 (mag64 d) ≠ 0 := by
    rw [ne_eq, ofNat_eq_zero_iff (by omega)]
    omega
  have hclz := ppcCountLeadingZeros_eq hm0
  rw [BitVec.toNat_ofNat, Nat.mod_eq_of_lt (show mag64 d < 2 ^ 64 by omega)] at hclz
  rw [unpack_fields, he, Nat.mod_eq_of_lt hhi]
  simp only
  rw [if_neg (by omega), if_pos (by rfl), if_neg hm0, hclz]
  have hshift : ((63 : Int) - (mag64 d).log2 - 8 + 3).toNat = 58 - (mag64 d).log2 := by omega
  rw [hshift]
  congr 1
  · omega
  · apply BitVec.eq_of_toNat_eq
    rw [BitVec.toNat_shiftLeft, BitVec.toNat_ofNat, BitVec.toNat_ofNat, Nat.shiftLeft_eq,
      Nat.mod_eq_of_lt (show mag64 d < 2 ^ 64 by omega)]

theorem unpack_value (hlo : 0 < mag64 d) (hhi : mag64 d < inf64) :
    (ppcFpuUnpackDouble d).type = .norm ∧ (ppcFpuUnpackDouble d).s = signField d.msb ∧
      (ppcFpuUnpackDouble d).value = binary64.decode (mag64 d) := by
  have hlt := mag64_lt d
  rcases Nat.lt_or_ge (mag64 d) (2 ^ 52) with h | h
  · rw [unpack_denormal hlo h]
    refine ⟨rfl, rfl, ?_⟩
    have hlog : (mag64 d).log2 < 52 := (Nat.log2_lt hlo.ne').mpr h
    have hbound : mag64 d * 2 ^ (58 - (mag64 d).log2) < 2 ^ 64 := by
      have h1 := Nat.lt_log2_self (n := mag64 d)
      calc mag64 d * 2 ^ (58 - (mag64 d).log2)
          < 2 ^ ((mag64 d).log2 + 1) * 2 ^ (58 - (mag64 d).log2) :=
            Nat.mul_lt_mul_of_pos_right h1 (Nat.two_pow_pos _)
        _ = 2 ^ 59 := by rw [← pow_add]; congr 1; omega
        _ < 2 ^ 64 := by norm_num
    have hdec := Format.decode_mul_add (F := binary64) (c := mag64 d) (e := 0) (.inr rfl)
      (h.le.trans (by norm_num [Format.frac]))
    rw [Nat.zero_mul, Nat.zero_add] at hdec
    rw [hdec, PpcDouble.value, BitVec.toNat_ofNat, Nat.mod_eq_of_lt hbound]
    have he : (-1074 : ℤ) + (0 : Nat) =
        (mag64 d).log2 - 1077 - 55 + (58 - (mag64 d).log2 : Nat) := by omega
    rw [he, BinaryFloat.two_zpow_add_nat]
    push_cast
    ring
  · unfold inf64 at hhi
    rw [unpack_normal h hhi]
    refine ⟨rfl, rfl, ?_⟩
    have hdec := Format.decode_mul_add (F := binary64) (c := 2 ^ 52 + mag64 d % 2 ^ 52)
      (e := mag64 d / 2 ^ 52 - 1) (.inl (by norm_num [Format.frac])) (by norm_num [Format.frac]; omega)
    have hn : (mag64 d / 2 ^ 52 - 1) * 2 ^ binary64.frac + (2 ^ 52 + mag64 d % 2 ^ 52) = mag64 d := by
      show (mag64 d / 2 ^ 52 - 1) * 2 ^ 52 + (2 ^ 52 + mag64 d % 2 ^ 52) = mag64 d
      omega
    rw [hn] at hdec
    rw [hdec, PpcDouble.value, BitVec.toNat_ofNat, Nat.mod_eq_of_lt (by omega)]
    have he : (-1074 : ℤ) + (mag64 d / 2 ^ 52 - 1 : Nat) =
        (mag64 d / 2 ^ 52 : Nat) - 1023 - 55 + (3 : Nat) := by omega
    rw [he, BinaryFloat.two_zpow_add_nat]
    push_cast
    ring

/-! ## Rounding -/

section
variable {w : Nat} {m : BitVec w} (fpscr s : Uint32)

theorem toNat_seven (hw : 4 ≤ w) (m : BitVec w) : (m &&& 7).toNat = m.toNat % 8 :=
  Word.toNat_and_low m 3 (by omega)

theorem and_seven_ne_zero (hw : 4 ≤ w) (m : BitVec w) : m &&& 7 ≠ 0 ↔ m.toNat % 8 ≠ 0 := by
  rw [ne_eq, ← BitVec.toNat_inj, toNat_seven hw]
  rfl

theorem and_seven_ne_four (hw : 4 ≤ w) (m : BitVec w) : m &&& 7 ≠ 4 ↔ m.toNat % 8 ≠ 4 := by
  have h4 : (4 : BitVec w).toNat = 4 := by
    have : 2 ^ 4 ≤ 2 ^ w := Nat.pow_le_pow_right (by omega) hw
    rw [show (4 : BitVec w) = BitVec.ofNat w 4 from rfl, BitVec.toNat_ofNat]
    exact Nat.mod_eq_of_lt (by omega)
  rw [ne_eq, ← BitVec.toNat_inj, toNat_seven hw, h4]

theorem and_eight_ne_zero (m : BitVec w) : m &&& 8 ≠ 0 ↔ m.toNat / 8 % 2 = 1 := by
  have h8 : (8 : BitVec w) = BitVec.twoPow w 3 := by
    apply BitVec.eq_of_toNat_eq
    rw [BitVec.toNat_twoPow]
    rfl
  rw [h8, ← bne_iff_ne, Word.and_twoPow_bne, BitVec.getLsbD, Nat.testBit_eq_decide_div_mod_eq,
    decide_eq_true_eq]

/-- A significand without a fourth bit behind the last one stays what it is, without a flag. -/
theorem ppcFpuRound_exact (hw : 4 ≤ w) (h : m.toNat % 8 = 0) : ppcFpuRound fpscr s m = (m, 0) := by
  have h0 : ¬(m &&& 7 ≠ 0) := by rw [and_seven_ne_zero hw, h]; simp
  rw [ppcFpuRound]
  cases fpscrRn fpscr <;> simp only [h0, if_false, and_false]

/-- Up to the three bits the significand is rounded as the mode says. -/
theorem ppcFpuRound_div (hw : 4 ≤ w) (h : m.toNat + 8 < 2 ^ w) :
    (ppcFpuRound fpscr s m).1.toNat / 8 = roundDiv (fpscrRn fpscr) (s != 0) m.toNat 8 ∧
      (ppcFpuRound fpscr s m).1.toNat ≤ m.toNat + 8 := by
  have h4 : (m + 4).toNat = m.toNat + 4 := by
    rw [BitVec.toNat_add, show (4 : BitVec w) = BitVec.ofNat w 4 from rfl, BitVec.toNat_ofNat]
    rw [Nat.add_mod_mod, Nat.mod_eq_of_lt (by omega)]
  have h8 : (m + 8).toNat = m.toNat + 8 := by
    rw [BitVec.toNat_add, show (8 : BitVec w) = BitVec.ofNat w 8 from rfl, BitVec.toNat_ofNat]
    rw [Nat.add_mod_mod, Nat.mod_eq_of_lt h]
  rw [ppcFpuRound]
  cases fpscrRn fpscr with
  | near =>
    simp only [and_seven_ne_zero hw, and_seven_ne_four hw, and_eight_ne_zero, roundDiv]
    repeat' split
    all_goals constructor <;> simp only [h4] <;> omega
  | zero =>
    simp only [roundDiv]
    split <;> constructor <;> simp only <;> omega
  | up =>
    simp only [and_seven_ne_zero hw, roundDiv, bne_iff_ne]
    by_cases hs : s = 0
    · simp only [hs, true_and, ne_eq, not_true_eq_false, false_or]
      repeat' split
      all_goals constructor <;> simp only [h8] <;> omega
    · simp only [hs, false_and, ne_eq, not_false_eq_true, true_or, if_true, if_false]
      exact ⟨trivial, Nat.le_add_right _ _⟩
  | down =>
    simp only [and_seven_ne_zero hw, roundDiv]
    by_cases hs : s = 0
    · simp only [hs, ne_eq, not_true_eq_false, false_and, bne_self_eq_false, Bool.not_false,
        true_or, if_true, if_false]
      exact ⟨trivial, Nat.le_add_right _ _⟩
    · have hb : (!(s != 0)) = false := by rw [bne_iff_ne.mpr hs]; rfl
      simp only [hs, hb, ne_eq, not_false_eq_true, true_and, Bool.false_eq_true, false_or]
      repeat' split
      all_goals constructor <;> simp only [h8] <;> omega

end

/-! ## Packing -/

/-- The magnitude that a number is packed to if no exponent were too large. -/
def packed (bias top : Nat) (mode : Mode) (neg : Bool) (e : Int) (m : Nat) : Nat :=
  (e + bias - 1).toNat * 2 ^ (top - 4) +
    roundDiv mode neg (m / 2 ^ (1 - (e + bias)).toNat) 8

/-- What packing expects: the leading one is in place for a normal exponent, and a number with a
lower exponent is below the least normal one. -/
structure Packable (bias top : Nat) (e : Int) (m : Nat) : Prop where
  normal : 0 < e + bias → 2 ^ (top - 1) ≤ m ∧ m < 2 ^ top
  denormal : e + bias ≤ 0 → m / 2 ^ (1 - (e + bias)).toNat < 2 ^ (top - 1)
  tiny : top < 1 - (e + bias) → m < 2 ^ top

theorem Packable.of_normal {bias top m : Nat} {e : Int} (ht : 0 < top) (hlo : 2 ^ (top - 1) ≤ m)
    (hhi : m < 2 ^ top) : Packable bias top e m where
  normal _ := ⟨hlo, hhi⟩
  denormal h := by
    obtain ⟨j, hj⟩ : ∃ j, (1 - (e + bias)).toNat = j + 1 := ⟨(-(e + bias)).toNat, by omega⟩
    rw [hj, pow_succ']
    have h2 : 2 ^ top = 2 * 2 ^ (top - 1) := by rw [← pow_succ', Nat.sub_add_cancel ht]
    refine Nat.div_lt_of_lt_mul (hhi.trans_le ?_)
    rw [h2]
    have := Nat.one_le_two_pow (n := j)
    nlinarith [Nat.two_pow_pos (top - 1)]
  tiny _ := hhi

theorem two_pow_top {top : Nat} (h : 5 ≤ top) :
    2 ^ (top - 1) = 8 * 2 ^ (top - 4) ∧ 2 ^ top = 16 * 2 ^ (top - 4) ∧
      2 ^ (top + 1) = 32 * 2 ^ (top - 4) ∧ 2 ≤ 2 ^ (top - 4) := by
  obtain ⟨t, rfl⟩ := Nat.exists_eq_add_of_le h
  have h1 := Nat.two_pow_pos t
  rw [show 5 + t - 1 = t + 4 by omega, show 5 + t - 4 = t + 1 by omega,
    show 5 + t + 1 = t + 6 by omega, show 5 + t = t + 5 by omega]
  simp only [pow_succ]
  omega

/-- The fields of a packed number, put together. -/
def fields (top : Nat) (r : Int × BitVec 64 × Uint32) : Nat :=
  r.1.toNat * 2 ^ (top - 4) + r.2.1.toNat % 2 ^ (top - 4)

section
variable {bias top infExp : Nat} {fpscr s : Uint32} {e : Int} {m : BitVec 64}

theorem fields_inf {E q T : Nat} (h : infExp * T ≤ E * T + q) :
    (infExp : Int).toNat * T + (0 : BitVec 64).toNat % T = min (E * T + q) (infExp * T) := by
  rw [min_eq_right h, Int.toNat_natCast, show (0 : BitVec 64).toNat = 0 from rfl, Nat.zero_mod,
    add_zero]

theorem fields_fit {a E b f q T : Nat} (hT : 0 < T) (he : a = b) (hE : b < infExp)
    (h : b * T + f % T = E * T + q) : a * T + f % T = min (E * T + q) (infExp * T) := by
  have hlt := Nat.mod_lt f hT
  have hle : (b + 1) * T ≤ infExp * T := Nat.mul_le_mul_right T hE
  rw [add_mul] at hle
  rw [he, h, min_eq_left (by omega)]

theorem packNorm_normal (ht : 5 ≤ top) (ht' : top ≤ 60) (he : 0 < e + bias)
    (hlo : 2 ^ (top - 1) ≤ m.toNat) (hhi : m.toNat < 2 ^ top) :
    let r := packNorm bias top infExp fpscr s e m
    0 ≤ r.1 ∧ r.1 ≤ infExp ∧ fields top r =
      min (packed bias top (fpscrRn fpscr) (s != 0) e m.toNat) (infExp * 2 ^ (top - 4)) := by
  obtain ⟨t1, t2, t3, t4⟩ := two_pow_top ht
  have h64 : 2 ^ (top + 1) ≤ 2 ^ 61 := Nat.pow_le_pow_right (by omega) (by omega)
  obtain ⟨hq, hle⟩ := ppcFpuRound_div fpscr s (m := m) (by omega) (by omega)
  have hq1 := BinaryFloat.le_roundDiv (fpscrRn fpscr) (s != 0) (n := m.toNat) (d := 8)
    (m := 2 ^ (top - 4)) (by omega) (by omega)
  have hq2 := BinaryFloat.roundDiv_le (fpscrRn fpscr) (s != 0) (n := m.toNat) (d := 8)
    (m := 2 * 2 ^ (top - 4)) (by omega) (by omega)
  obtain ⟨E, hE⟩ : ∃ E : Nat, e + bias = E + 1 := ⟨(e + bias - 1).toNat, by omega⟩
  have hpacked : packed bias top (fpscrRn fpscr) (s != 0) e m.toNat =
      E * 2 ^ (top - 4) + roundDiv (fpscrRn fpscr) (s != 0) m.toNat 8 := by
    rw [packed, hE, show ((E : Int) + 1 - 1).toNat = E by omega,
      show (1 - ((E : Int) + 1)).toNat = 0 by omega, pow_zero, Nat.div_one]
  have htest := and_twoPow_ne_zero (m := (ppcFpuRound fpscr s m).1) (k := top) (by omega)
  have h3 : ((ppcFpuRound fpscr s m).1 >>> 3).toNat = (ppcFpuRound fpscr s m).1.toNat / 8 := by
    rw [BitVec.toNat_ushiftRight, Nat.shiftRight_eq_div_pow]
  have h4 : ((ppcFpuRound fpscr s m).1 >>> 4).toNat = (ppcFpuRound fpscr s m).1.toNat / 16 := by
    rw [BitVec.toNat_ushiftRight, Nat.shiftRight_eq_div_pow]
  rw [hpacked, packNorm]
  simp only [hE, htest, fields]
  generalize 2 ^ (top - 4) = T at *
  generalize (ppcFpuRound fpscr s m).1 = m' at *
  generalize roundDiv (fpscrRn fpscr) (s != 0) m.toNat 8 = q at *
  have hTpos : 0 < T := by omega
  rw [if_pos (by omega)]
  by_cases hcarry : 2 ^ top ≤ m'.toNat
  · -- the carry leaves a single one
    have hT : m'.toNat / 16 = T := by omega
    have hqT : q = 2 * T := by omega
    simp only [hcarry, if_true]
    split
    · rename_i hov
      refine ⟨by omega, le_refl _, fields_inf ?_⟩
      have := Nat.mul_le_mul_right T (show infExp ≤ E + 2 by omega)
      rw [add_mul] at this
      omega
    · refine ⟨by omega, by omega, ?_⟩
      simp only [h4, hT]
      refine fields_fit (b := E + 2) hTpos (by omega) (by omega) ?_
      rw [Nat.mod_self, add_mul, hqT, add_zero]
  · simp only [hcarry, if_false]
    have hlt : q < 2 * T := by omega
    split
    · rename_i hov
      refine ⟨by omega, le_refl _, fields_inf ?_⟩
      have := Nat.mul_le_mul_right T (show infExp ≤ E + 1 by omega)
      rw [add_mul] at this
      omega
    · refine ⟨by omega, by omega, ?_⟩
      simp only [h3, hq]
      refine fields_fit (b := E + 1) hTpos (by omega) (by omega) ?_
      rw [Nat.mod_eq_sub_mod hq1, Nat.mod_eq_of_lt (by omega), add_mul]
      omega

theorem packNorm_denormal (ht : 5 ≤ top) (ht' : top ≤ 60) (hinf : 1 < infExp) (he : e + bias ≤ 0)
    (hlt : m.toNat / 2 ^ (1 - (e + bias)).toNat < 2 ^ (top - 1))
    (htiny : top < 1 - (e + bias) → m.toNat < 2 ^ top) :
    let r := packNorm bias top infExp fpscr s e m
    0 ≤ r.1 ∧ r.1 ≤ infExp ∧ fields top r =
      min (packed bias top (fpscrRn fpscr) (s != 0) e m.toNat) (infExp * 2 ^ (top - 4)) := by
  obtain ⟨t1, t2, t3, t4⟩ := two_pow_top ht
  have h64 : 2 ^ (top + 1) ≤ 2 ^ 61 := Nat.pow_le_pow_right (by omega) (by omega)
  have hpacked : packed bias top (fpscrRn fpscr) (s != 0) e m.toNat =
      0 * 2 ^ (top - 4) +
        roundDiv (fpscrRn fpscr) (s != 0) (m.toNat / 2 ^ (1 - (e + bias)).toNat) 8 := by
    rw [packed, show (e + bias - 1).toNat = 0 by omega]
  rw [hpacked, packNorm]
  simp only [fields]
  rw [if_neg (by omega), show -(e + bias) + 1 = 1 - (e + bias) by ring]
  have hs : (m >>> (1 - (e + bias)).toNat).toNat = m.toNat / 2 ^ (1 - (e + bias)).toNat := by
    rw [BitVec.toNat_ushiftRight, Nat.shiftRight_eq_div_pow]
  split
  · rw [← hs] at hlt ⊢
    generalize m >>> (1 - (e + bias)).toNat = m1 at *
    obtain ⟨hq, hle⟩ := ppcFpuRound_div fpscr s (m := m1) (by omega) (by omega)
    have hq2 := BinaryFloat.roundDiv_le (fpscrRn fpscr) (s != 0) (n := m1.toNat) (d := 8)
      (m := 2 ^ (top - 4)) (by omega) (by omega)
    have hdbl : ((ppcFpuRound fpscr s m1).1 <<< 1).toNat = 2 * (ppcFpuRound fpscr s m1).1.toNat := by
      rw [BitVec.toNat_shiftLeft, Nat.shiftLeft_eq, Nat.mod_eq_of_lt (by omega), pow_one, mul_comm]
    have htest := and_twoPow_ne_zero (m := (ppcFpuRound fpscr s m1).1 <<< 1) (k := top) (by omega)
    have h4 : ((ppcFpuRound fpscr s m1).1 <<< 1 >>> 4).toNat =
        (ppcFpuRound fpscr s m1).1.toNat / 8 := by
      rw [BitVec.toNat_ushiftRight, Nat.shiftRight_eq_div_pow, hdbl]
      omega
    simp only [htest]
    generalize 2 ^ (top - 4) = T at *
    generalize (ppcFpuRound fpscr s m1).1 = m' at *
    generalize roundDiv (fpscrRn fpscr) (s != 0) m1.toNat 8 = q at *
    have hTpos : 0 < T := by omega
    split
    · refine ⟨by omega, by omega, ?_⟩
      refine fields_fit (b := 1) hTpos (by omega) hinf ?_
      rw [show (0 : BitVec 64).toNat = 0 from rfl, Nat.zero_mod]
      omega
    · refine ⟨by omega, by omega, ?_⟩
      simp only [h4, hq]
      refine fields_fit (b := 0) hTpos (by omega) (by omega) ?_
      rw [Nat.mod_eq_of_lt (by omega)]
  · rename_i hbig
    have hz : m.toNat / 2 ^ (1 - (e + bias)).toNat = 0 := Nat.div_eq_of_lt
      ((htiny (by omega)).trans_le (Nat.pow_le_pow_right (by omega) (by omega)))
    have hr : roundDiv (fpscrRn fpscr) (s != 0) 0 8 = 0 :=
      BinaryFloat.roundDiv_exact (d := 8) (fpscrRn fpscr) (s != 0) 0 (by omega)
    rw [hz, hr]
    refine ⟨le_refl _, by omega, ?_⟩
    exact fields_fit (b := 0) (by omega) rfl (by omega) (by simp)

theorem packNorm_fields (infExp : Nat) (fpscr s : Uint32) (ht : 5 ≤ top) (ht' : top ≤ 60)
    (hinf : 1 < infExp) (hp : Packable bias top e m.toNat) :
    let r := packNorm bias top infExp fpscr s e m
    0 ≤ r.1 ∧ r.1 ≤ infExp ∧ fields top r =
      min (packed bias top (fpscrRn fpscr) (s != 0) e m.toNat) (infExp * 2 ^ (top - 4)) := by
  rcases lt_or_ge 0 (e + bias) with he | he
  · exact packNorm_normal ht ht' he (hp.normal he).1 (hp.normal he).2
  · exact packNorm_denormal ht ht' hinf he (hp.denormal he) hp.tiny

end

/-! ### Without rounding -/

section
variable (bias top infExp : Nat) (fpscr s : Uint32) {e : Int} {m : BitVec 64}

theorem packNorm_exact (he : 0 < e + bias) (he' : e + bias < infExp)
    (hm : m.toNat < 2 ^ top) (h8 : m.toNat % 8 = 0) :
    packNorm bias top infExp fpscr s e m = (e + bias, m >>> 3, 0) := by
  have hp : 2 ^ (top + 1) = 2 * 2 ^ top := pow_succ' 2 top
  have htest := and_twoPow_ne_zero (m := m) (k := top) (by omega)
  rw [packNorm]
  simp only [he, if_true, ppcFpuRound_exact fpscr s (by omega) h8, htest, not_le.mpr hm, if_false,
    not_le.mpr he']

theorem packNorm_exact_denormal (ht : 0 < top) (ht' : top ≤ 60) (he : e + bias ≤ 0)
    (he' : 1 - (e + bias) ≤ top) {n : Nat} (hn : n * 8 < 2 ^ (top - 1))
    (hm : m.toNat = n * 8 * 2 ^ (1 - (e + bias)).toNat) :
    packNorm bias top infExp fpscr s e m = (0, BitVec.ofNat 64 n, fpscrUx) := by
  have h2 : 2 ^ top = 2 * 2 ^ (top - 1) := by rw [← pow_succ', Nat.sub_add_cancel ht]
  have hp : 2 ^ (top + 1) = 2 * 2 ^ top := pow_succ' 2 top
  have h60 : 2 ^ top ≤ 2 ^ 60 := Nat.pow_le_pow_right (by omega) ht'
  have hs : (m >>> (1 - (e + bias)).toNat).toNat = n * 8 := by
    rw [BitVec.toNat_ushiftRight, Nat.shiftRight_eq_div_pow, hm,
      Nat.mul_div_cancel _ (Nat.two_pow_pos _)]
  have hdbl : (m >>> (1 - (e + bias)).toNat <<< 1).toNat = n * 16 := by
    rw [BitVec.toNat_shiftLeft, hs, Nat.shiftLeft_eq, Nat.mod_eq_of_lt (by omega)]
    ring
  have htest := and_twoPow_ne_zero (m := m >>> (1 - (e + bias)).toNat <<< 1) (k := top) (by omega)
  have h4 : m >>> (1 - (e + bias)).toNat <<< 1 >>> 4 = BitVec.ofNat 64 n := by
    apply BitVec.eq_of_toNat_eq
    rw [BitVec.toNat_ushiftRight, Nat.shiftRight_eq_div_pow, hdbl, BitVec.toNat_ofNat,
      Nat.mod_eq_of_lt (by omega)]
    exact Nat.mul_div_cancel n (by omega)
  rw [packNorm]
  simp only [not_lt.mpr he, if_false]
  rw [show -(e + bias) + 1 = 1 - (e + bias) by ring, if_pos he']
  simp only [ppcFpuRound_exact fpscr s (show 4 ≤ 64 by omega) (show _ % 8 = 0 by rw [hs]; omega),
    htest, hdbl, h4, show ¬2 ^ top ≤ n * 16 by omega, if_false]
  rfl

end

/-! ### The double -/

theorem toNat_fpdPackVar (s : Uint32) {e : Int} {m : BitVec 64} (h0 : 0 ≤ e) (h1 : e ≤ 2047) :
    (fpdPackVar s e m).toNat =
      (s != 0).toNat * 2 ^ 63 + (e.toNat * 2 ^ 52 + m.toNat % 2 ^ 52) := by
  have he : (BitVec.ofInt 64 e &&& 0x7FF).toNat = e.toNat := by
    rw [show BitVec.ofInt 64 e &&& 0x7FF = BitVec.ofInt 64 e &&& BitVec.ofNat 64 (2 ^ 11 - 1) from rfl,
      Word.toNat_and_low _ 11 (by omega), BitVec.toNat_ofInt]
    omega
  have hm : (m &&& 0x000FFFFFFFFFFFFF).toNat = m.toNat % 2 ^ 52 := Word.toNat_and_low _ 52 (by omega)
  have hs : (if s ≠ 0 then fpuSignBit else 0).toNat = (s != 0).toNat * 2 ^ 63 := by
    by_cases h : s = 0
    · simp [h]
    · rw [if_pos h, bne_iff_ne.mpr h]
      rfl
  have hmlt := Nat.mod_lt m.toNat (show 0 < 2 ^ 52 by omega)
  have hlow := Nat.two_pow_add_eq_or_of_lt hmlt e.toNat
  have hhigh := Nat.two_pow_add_eq_or_of_lt (i := 63)
    (show e.toNat * 2 ^ 52 + m.toNat % 2 ^ 52 < 2 ^ 63 by omega) (s != 0).toNat
  rw [fpdPackVar, BitVec.toNat_or, BitVec.toNat_or, hs, hm, BitVec.toNat_shiftLeft, he,
    Nat.shiftLeft_eq, Nat.mod_eq_of_lt (by omega), Nat.or_assoc, mul_comm e.toNat, ← hlow,
    mul_comm _ (2 ^ 63), mul_comm _ e.toNat, ← hhigh]

theorem fpdPackVar_sign (s : Uint32) {e : Int} {m : BitVec 64} (h0 : 0 ≤ e) (h1 : e ≤ 2047) :
    (fpdPackVar s e m).msb = (s != 0) ∧
      mag64 (fpdPackVar s e m) = e.toNat * 2 ^ 52 + m.toNat % 2 ^ 52 := by
  have hmlt := Nat.mod_lt m.toNat (show 0 < 2 ^ 52 by omega)
  rw [BitVec.msb_eq_decide, mag64, toNat_fpdPackVar s h0 h1]
  cases s != 0 with
  | false => exact ⟨decide_eq_false (by simp; omega), by simp; omega⟩
  | true => exact ⟨decide_eq_true (by simp), by simp; omega⟩

section
variable {u : PpcDouble} (fpscr : Uint32)

theorem pack_norm (ht : u.type = .norm) (hp : Packable 1023 56 u.e u.m.toNat) :
    (ppcFpuPackDouble fpscr u).1.msb = (u.s != 0) ∧ mag64 (ppcFpuPackDouble fpscr u).1 =
      min (packed 1023 56 (fpscrRn fpscr) (u.s != 0) u.e u.m.toNat) inf64 := by
  obtain ⟨h0, h1, h2⟩ := packNorm_fields 2047 fpscr u.s (by omega) (by omega) (by omega) hp
  obtain ⟨h3, h4⟩ := fpdPackVar_sign u.s (m := (packNorm 1023 56 2047 fpscr u.s u.e u.m).2.1) h0 h1
  rw [ppcFpuPackDouble, packFields, ht]
  exact ⟨h3, h4.trans h2⟩

theorem pack_special (ht : u.type ≠ .norm) :
    (ppcFpuPackDouble fpscr u).1.msb = (u.s != 0) ∧ (ppcFpuPackDouble fpscr u).2 = 0 ∧
      mag64 (ppcFpuPackDouble fpscr u).1 =
        match u.type with | .norm => 0 | .zero => 0 | .nan => inf64 + 1 | .inf => inf64 := by
  rw [ppcFpuPackDouble, packFields]
  cases h : u.type with
  | norm => exact absurd h ht
  | zero =>
    obtain ⟨h1, h2⟩ := fpdPackVar_sign u.s (e := 0) (m := 0) (by omega) (by omega)
    exact ⟨h1, rfl, h2⟩
  | nan =>
    obtain ⟨h1, h2⟩ := fpdPackVar_sign u.s (e := 2047) (m := 1) (by omega) (by omega)
    exact ⟨h1, rfl, h2⟩
  | inf =>
    obtain ⟨h1, h2⟩ := fpdPackVar_sign u.s (e := 2047) (m := 0) (by omega) (by omega)
    exact ⟨h1, rfl, h2⟩

end

theorem eq_of_mag64 {c d : BitVec 64} (hs : c.msb = d.msb) (hm : mag64 c = mag64 d) : c = d := by
  apply BitVec.eq_of_toNat_eq
  rw [BitVec.msb_eq_decide, BitVec.msb_eq_decide, decide_eq_decide] at hs
  unfold mag64 at hm
  have := c.isLt
  have := d.isLt
  omega

theorem signField_bne (neg : Bool) : (signField neg != 0) = neg := by cases neg <;> rfl

/-- A double with the sign of `d` and fields that put together are its magnitude is `d`. -/
theorem fpdPackVar_eq {d : BitVec 64} {e : Int} {m : BitVec 64} (h0 : 0 ≤ e) (h1 : e ≤ 2047)
    (h : e.toNat * 2 ^ 52 + m.toNat % 2 ^ 52 = mag64 d) :
    fpdPackVar (signField d.msb) e m = d := by
  obtain ⟨hs, hm⟩ := fpdPackVar_sign (signField d.msb) (m := m) h0 h1
  exact eq_of_mag64 (by rw [hs, signField_bne]) (by rw [hm, h])

theorem fpdPackVar_nan (d : BitVec 64) :
    fpdPackVar (signField d.msb) 2047 1 = (d &&& fpuSignBit) ||| 0x7FF0000000000001 := by
  have h : d &&& fpuSignBit = if d.msb then fpuSignBit else 0 := by
    rw [show fpuSignBit = BitVec.twoPow 64 63 from rfl, BitVec.and_twoPow,
      BitVec.msb_eq_getLsbD_last]
    rfl
  rw [h]
  cases d.msb <;> rfl

theorem ppcFpuPackDouble_eq {fpscr : Uint32} {u : PpcDouble} {e : Int} {m : BitVec 64} {f : Uint32}
    (h : packFields 1023 56 2047 fpscr u u.m = (e, m, f)) :
    ppcFpuPackDouble fpscr u = (fpdPackVar u.s e m, f) := by
  rw [ppcFpuPackDouble, h]

theorem ppcFpuPackDouble_norm {fpscr s ret : Uint32} {e' e : Int} {m' m : BitVec 64}
    (h : packNorm 1023 56 2047 fpscr s e' m' = (e, m, ret)) :
    ppcFpuPackDouble fpscr ⟨.norm, s, e', m'⟩ = (fpdPackVar s e m, ret) :=
  ppcFpuPackDouble_eq h

theorem pack_unpack_denormal (fpscr : Uint32) {d : BitVec 64} (hlo : 0 < mag64 d)
    (hhi : mag64 d < 2 ^ 52) : ppcFpuPackDouble fpscr (ppcFpuUnpackDouble d) = (d, fpscrUx) := by
  have hlog : (mag64 d).log2 < 52 := (Nat.log2_lt hlo.ne').mpr hhi
  have hself := Nat.lt_log2_self (n := mag64 d)
  have hsh : (1 - (((mag64 d).log2 : Int) - 1077 + (1023 : Nat))).toNat =
      55 - (mag64 d).log2 := by omega
  have hpow : mag64 d * 2 ^ (58 - (mag64 d).log2) =
      mag64 d * 8 * 2 ^ (55 - (mag64 d).log2) := by
    rw [mul_assoc, show 58 - (mag64 d).log2 = 3 + (55 - (mag64 d).log2) by omega, pow_add]
    rfl
  have hlt : mag64 d * 2 ^ (58 - (mag64 d).log2) < 2 ^ 64 := by
    calc mag64 d * 2 ^ (58 - (mag64 d).log2)
        < 2 ^ ((mag64 d).log2 + 1) * 2 ^ (58 - (mag64 d).log2) :=
          Nat.mul_lt_mul_of_pos_right hself (Nat.two_pow_pos _)
      _ = 2 ^ 59 := by rw [← pow_add]; congr 1; omega
      _ < 2 ^ 64 := by norm_num
  have hf := packNorm_exact_denormal 1023 56 2047 fpscr (signField d.msb)
    (e := (mag64 d).log2 - 1077)
    (m := BitVec.ofNat 64 (mag64 d * 2 ^ (58 - (mag64 d).log2))) (n := mag64 d)
    (by omega) (by omega) (by omega) (by omega) (by omega)
    (by rw [BitVec.toNat_ofNat, Nat.mod_eq_of_lt hlt, hsh, hpow])
  rw [unpack_denormal hlo hhi, ppcFpuPackDouble_norm hf, fpdPackVar_eq (by omega) (by omega) ?_]
  rw [BitVec.toNat_ofNat]
  omega

theorem pack_unpack_normal (fpscr : Uint32) {d : BitVec 64} (hlo : 2 ^ 52 ≤ mag64 d)
    (hhi : mag64 d < inf64) : ppcFpuPackDouble fpscr (ppcFpuUnpackDouble d) = (d, 0) := by
  rw [unpack_normal hlo hhi]
  unfold inf64 at hhi
  have ht : (BitVec.ofNat 64 ((2 ^ 52 + mag64 d % 2 ^ 52) * 8)).toNat =
      (2 ^ 52 + mag64 d % 2 ^ 52) * 8 := by
    rw [BitVec.toNat_ofNat]
    omega
  have hf := packNorm_exact 1023 56 2047 fpscr (signField d.msb)
    (e := (mag64 d / 2 ^ 52 : Nat) - 1023)
    (m := BitVec.ofNat 64 ((2 ^ 52 + mag64 d % 2 ^ 52) * 8))
    (by omega) (by omega) (by omega) (by omega)
  rw [ppcFpuPackDouble_norm hf, fpdPackVar_eq (by omega) (by omega) ?_]
  rw [BitVec.toNat_ushiftRight, ht, Nat.shiftRight_eq_div_pow]
  omega

/-- Taking a double apart and putting it together gives the double back in every mode; a NaN
becomes the one with fraction 1 and the same sign. Only a denormalized number sets a flag. -/
theorem pack_unpack (fpscr : Uint32) (d : BitVec 64) :
    ppcFpuPackDouble fpscr (ppcFpuUnpackDouble d) =
      (if inf64 < mag64 d then (d &&& fpuSignBit) ||| 0x7FF0000000000001 else d,
        if 0 < mag64 d ∧ mag64 d < 2 ^ 52 then fpscrUx else 0) := by
  have hinf : inf64 = 2047 * 2 ^ 52 := rfl
  rcases Nat.lt_trichotomy (mag64 d) inf64 with hlt | heq | hgt
  · rw [if_neg (not_lt.mpr hlt.le)]
    rcases Nat.eq_zero_or_pos (mag64 d) with h0 | h0
    · rw [unpack_zero h0, if_neg (by omega), ppcFpuPackDouble_eq (e := 0) (m := 0) rfl,
        fpdPackVar_eq (by omega) (by omega) (by rw [h0]; rfl)]
    · rcases Nat.lt_or_ge (mag64 d) (2 ^ 52) with h1 | h1
      · rw [if_pos ⟨h0, h1⟩, pack_unpack_denormal fpscr h0 h1]
      · rw [if_neg (by omega), pack_unpack_normal fpscr h1 hlt]
  · rw [if_neg heq.not_gt, if_neg (by omega), unpack_inf heq,
      ppcFpuPackDouble_eq (e := 2047) (m := 0) rfl,
      fpdPackVar_eq (by omega) (by omega) (by rw [heq]; rfl)]
  · obtain ⟨h1, h2⟩ := unpack_nan hgt
    have hf : packFields 1023 56 2047 fpscr (ppcFpuUnpackDouble d) (ppcFpuUnpackDouble d).m =
        (2047, 1, 0) := by rw [packFields, h1]; rfl
    rw [if_pos hgt, if_neg (by omega), ppcFpuPackDouble_eq hf, h2, fpdPackVar_nan]

/-! ## The value of what is packed -/

/-- `d` is the magnitude `y` with its sign, or infinity if there is no such double. -/
def Holds (d : BitVec 64) (neg : Bool) (y : ℚ) : Prop :=
  d.msb = neg ∧
    if y < 2 ^ (1024 : ℤ) then mag64 d < inf64 ∧ binary64.decode (mag64 d) = y
    else mag64 d = inf64

theorem decode_inf_le {n : Nat} : (2 : ℚ) ^ (1024 : ℤ) ≤ binary64.decode n ↔ inf64 ≤ n := by
  constructor
  · intro h
    by_contra hlt
    have := Format.decode_lt (F := binary64) (n := n) (b := 2046) (not_le.mp hlt)
    exact absurd (h.trans_lt this) (by norm_num [Format.frac])
  · intro h
    have := Format.le_decode (F := binary64) (n := n) (b := 2046) h
    norm_num [Format.frac] at this ⊢
    exact this

section
variable {u : PpcDouble} (fpscr : Uint32)

theorem pack_holds (ht : u.type = .norm) (hp : Packable 1023 56 u.e u.m.toNat) :
    Holds (ppcFpuPackDouble fpscr u).1 (u.s != 0)
      (binary64.decode (packed 1023 56 (fpscrRn fpscr) (u.s != 0) u.e u.m.toNat)) := by
  obtain ⟨hs, hm⟩ := pack_norm fpscr ht hp
  refine ⟨hs, ?_⟩
  split
  · rename_i hlt
    have := (decode_inf_le (n := packed 1023 56 (fpscrRn fpscr) (u.s != 0) u.e u.m.toNat)).not.mp
      (not_le.mpr hlt)
    rw [hm, min_eq_left (by omega)]
    exact ⟨by omega, rfl⟩
  · rename_i hge
    rw [hm, min_eq_right (decode_inf_le.mp (not_lt.mp hge))]

end

/-- The value of a packed magnitude: a rounded whole number of eighths of the last digit. -/
theorem decode_packed {mode : Mode} {neg : Bool} {e : Int} {m : Nat} (hp : Packable 1023 56 e m) :
    binary64.decode (packed 1023 56 mode neg e m) =
      roundDiv mode neg (m / 2 ^ (-1022 - e).toNat) (2 ^ 3) *
        2 ^ (-1077 + (e + 1022).toNat + (3 : Nat) : ℤ) := by
  have hsh : (1 - (e + (1023 : Nat))).toNat = (-1022 - e).toNat := by omega
  have hE : (e + (1023 : Nat) - 1).toNat = (e + 1022).toNat := by omega
  have hm : m / 2 ^ (-1022 - e).toNat ≤ 2 * 2 ^ 52 * 8 := by
    rcases lt_or_ge 0 (e + (1023 : Nat)) with h | h
    · exact (Nat.div_le_self _ _).trans (hp.normal h).2.le
    · have := hp.denormal h
      rw [hsh] at this
      omega
  have hle := BinaryFloat.roundDiv_le mode neg (d := 2 ^ 3) (by omega) hm
  rw [packed, hsh, hE]
  refine (Format.decode_mul_add (F := binary64) ?_ hle).trans ?_
  · rcases lt_or_ge 0 (e + (1023 : Nat)) with h | h
    · refine .inl (BinaryFloat.le_roundDiv mode neg (by omega) ?_)
      rw [show (-1022 - e).toNat = 0 by omega, pow_zero, Nat.div_one]
      exact (hp.normal h).1
    · exact .inr (by omega)
  · have : (-1074 : ℤ) + (e + 1022).toNat = -1077 + (e + 1022).toNat + (3 : Nat) := by omega
    rw [← this]

theorem packed_fine {e : Int} {m : Nat} (hp : Packable 1023 56 e m) :
    BinaryFloat.Fine binary64 (-1077 + (e + 1022).toNat + (3 : Nat))
      (m / 2 ^ (-1022 - e).toNat / 2 ^ 3 : Nat) := by
  rcases lt_or_ge 0 (e + (1023 : Nat)) with h | h
  · have := (hp.normal h).1
    refine .inr ?_
    rw [show (-1022 - e).toNat = 0 by omega, pow_zero, Nat.div_one]
    show (2 : ℤ) ^ 53 ≤ _
    omega
  · refine .inl ?_
    show _ ≤ (-1074 : ℤ)
    omega

theorem packed_lt {e : Int} {m : Nat} (hp : Packable 1023 56 e m) :
    m / 2 ^ (-1022 - e).toNat / 2 ^ 3 < 2 ^ 53 := by
  rcases lt_or_ge 0 (e + (1023 : Nat)) with h | h
  · have h1 := (hp.normal h).2
    have h2 := Nat.div_le_self m (2 ^ (-1022 - e).toNat)
    omega
  · have := hp.denormal h
    rw [show (1 - (e + (1023 : Nat))).toNat = (-1022 - e).toNat by omega] at this
    omega

theorem packed_faithful {mode : Mode} {neg : Bool} {u : PpcDouble}
    (hp : Packable 1023 56 u.e u.m.toNat) :
    BinaryFloat.Faithful binary64 u.value
      (binary64.decode (packed 1023 56 mode neg u.e u.m.toNat)) := by
  rw [decode_packed hp]
  have hround := BinaryFloat.roundDiv_faithful (F := binary64) (k := -1077 + (u.e + 1022).toNat)
    mode neg (u.m.toNat / 2 ^ (-1022 - u.e).toNat) 3 (show 0 < 53 by omega)
    (show (-1074 : ℤ) ≤ _ by push_cast; omega) (packed_lt hp) (packed_fine hp)
  refine BinaryFloat.Near.faithful ?_ hround
  rw [PpcDouble.value]
  rcases le_or_gt (-1022) u.e with h | h
  · rw [show (-1022 - u.e).toNat = 0 by omega, pow_zero, Nat.div_one,
      show (-1077 : ℤ) + (u.e + 1022).toNat = u.e - 55 by omega]
    exact .refl _
  · have hk : (-1077 : ℤ) + (u.e + 1022).toNat = u.e - 55 + (-1022 - u.e).toNat := by omega
    rw [hk]
    exact mod_cast BinaryFloat.near_floor (F := binary64)
      (n := (u.m.toNat / 2 ^ (-1022 - u.e).toNat : Nat)) (.inl (show _ ≤ (-1074 : ℤ) by omega))
      (mod_cast BinaryFloat.cell_lo _ _) (mod_cast BinaryFloat.cell_hi _ _)

/-- Packing a number that is not too small rounds it as the mode of FPSCR says, and gives infinity
where the result is `2 ^ 1024` or more. -/
theorem pack_rounds (fpscr : Uint32) {u : PpcDouble} (ht : u.type = .norm) (he : -1022 ≤ u.e)
    (hlo : 2 ^ 55 ≤ u.m.toNat) (hhi : u.m.toNat < 2 ^ 56) :
    ∃ y, BinaryFloat.Rounds binary64 (fpscrRn fpscr) (BinaryFloat.signed (u.s != 0) u.value)
        (BinaryFloat.signed (u.s != 0) y) ∧
      Holds (ppcFpuPackDouble fpscr u).1 (u.s != 0) y := by
  have hp : Packable 1023 56 u.e u.m.toNat := .of_normal (by omega) hlo hhi
  refine ⟨_, ?_, pack_holds fpscr ht hp⟩
  have h := BinaryFloat.roundDiv_rounds (F := binary64) (k := -1077 + (u.e + 1022).toNat)
    (fpscrRn fpscr) (u.s != 0) (u.m.toNat / 2 ^ (-1022 - u.e).toNat) 3
    (show 1 < 53 by omega) (show (-1074 : ℤ) ≤ _ by push_cast; omega) (packed_lt hp) (packed_fine hp)
  rw [decode_packed hp]
  convert h using 2
  rw [PpcDouble.value, show (-1022 - u.e).toNat = 0 by omega, pow_zero, Nat.div_one,
    show (-1077 : ℤ) + (u.e + 1022).toNat = u.e - 55 by omega]

theorem pack_rounds_one :
    ∃ y, BinaryFloat.Rounds binary64 (fpscrRn 1)
        (BinaryFloat.signed false (PpcDouble.value ⟨.norm, 0, 0, 0x80000000000000⟩))
        (BinaryFloat.signed false y) ∧
      Holds (ppcFpuPackDouble 1 ⟨.norm, 0, 0, 0x80000000000000⟩).1 false y :=
  pack_rounds 1 (u := ⟨.norm, 0, 0, 0x80000000000000⟩) rfl (by simp) (by decide) (by decide)

end SkyEye.Ppc.Fpu
