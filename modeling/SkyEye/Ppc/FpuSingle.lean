import SkyEye.Ppc.FpuCompare

/-!
# Singles in registers

A register holds a double, so that a load of a single makes one of it and a store makes a single
again. Every single is a double, denormalized ones too; taking one apart keeps its value and puts
its leading one in place, so that neither way rounds.
-/

namespace SkyEye.Ppc.Fpu

open Sparc (Uint32)
open BinaryFloat (Format Mode signed)

/-- What `lfs` puts into the register, and what `stfs` writes. -/
def lfsDouble (fpscr r : Uint32) : BitVec 64 :=
  (ppcFpuPackDouble fpscr (ppcFpuSingleToDouble (ppcFpuUnpackSingle r))).1
def stfsSingle (fpscr : Uint32) (d : BitVec 64) : Uint32 :=
  (ppcFpuPackSingle fpscr (ppcFpuUnpackDouble d)).1

/-! ## Unpacking a single -/

/-- The sign as the fields of a single have it. -/
def signField32 (neg : Bool) : Uint32 := if neg then 0x80000000 else 0

theorem signField32_bne (neg : Bool) : (signField32 neg != 0) = neg := by cases neg <;> rfl

theorem fields_single (r : Uint32) :
    r &&& 0x80000000 = signField32 r.msb ∧ ((r >>> 23) &&& 0xFF).toNat = mag32 r / 2 ^ 23 ∧
      r &&& 0x007FFFFF = BitVec.ofNat 32 (mag32 r % 2 ^ 23) := by
  have h1 : ((r >>> 23) &&& 0xFF).toNat = (r >>> 23).toNat % 2 ^ 8 :=
    Word.toNat_and_low _ 8 (by omega)
  have h2 : (r &&& 0x007FFFFF).toNat = r.toNat % 2 ^ 23 := Word.toNat_and_low _ 23 (by omega)
  refine ⟨?_, ?_, ?_⟩
  · rw [show (0x80000000 : Uint32) = BitVec.twoPow 32 31 from rfl, BitVec.and_twoPow,
      BitVec.msb_eq_getLsbD_last]
    cases r.getLsbD 31 <;> rfl
  · rw [h1, BitVec.toNat_ushiftRight, Nat.shiftRight_eq_div_pow, mag32]
    omega
  · apply BitVec.eq_of_toNat_eq
    rw [h2, BitVec.toNat_ofNat, mag32]
    omega

theorem mag32_lt (r : Uint32) : mag32 r < 2 ^ 31 := Nat.mod_lt _ (by omega)

/-- The start of `ppc_fpu_unpack_single`, by the magnitude. -/
theorem unpackSingle_fields (r : Uint32) :
    ppcFpuUnpackSingle r =
      let s := signField32 r.msb
      let e : Int := (mag32 r / 2 ^ 23 : Nat)
      let m := BitVec.ofNat 32 (mag32 r % 2 ^ 23)
      if e = 255 then ⟨if m = 0 then .inf else .nan, s, e, m⟩
      else if e = 0 then
        if m = 0 then ⟨.zero, s, e, m⟩
        else
          let diff := countFrom 31 m - 8
          ⟨.norm, s, e - (127 - 1 + diff), m <<< (diff + 3).toNat⟩
      else ⟨.norm, s, e - 127, (m ||| BitVec.twoPow 32 23) <<< 3⟩ := by
  obtain ⟨hs, he, hm⟩ := fields_single r
  rw [ppcFpuUnpackSingle]
  simp only [hs, he, hm, ppcFpuNormalizeSingle]

theorem ofNat32_eq_zero_iff {n : Nat} (h : n < 2 ^ 32) : BitVec.ofNat 32 n = 0 ↔ n = 0 := by
  rw [← BitVec.toNat_inj, BitVec.toNat_ofNat, Nat.mod_eq_of_lt h]
  rfl

/-- The double that a single is loaded as, before it is put together. -/
def loaded (r : Uint32) : PpcDouble := ppcFpuSingleToDouble (ppcFpuUnpackSingle r)

variable {r : Uint32}

theorem loaded_zero (h : mag32 r = 0) : loaded r = ⟨.zero, signField32 r.msb, 0, 0⟩ := by
  rw [loaded, unpackSingle_fields, h]
  simp [ppcFpuSingleToDouble]

theorem loaded_inf (h : mag32 r = inf32) : loaded r = ⟨.inf, signField32 r.msb, 255, 0⟩ := by
  rw [loaded, unpackSingle_fields, h, show inf32 / 2 ^ 23 = 255 by norm_num,
    show inf32 % 2 ^ 23 = 0 by norm_num]
  simp [ppcFpuSingleToDouble]

theorem loaded_nan (h : inf32 < mag32 r) :
    (loaded r).type = .nan ∧ (loaded r).s = signField32 r.msb := by
  have hlt := mag32_lt r
  unfold inf32 at h
  have he : mag32 r / 2 ^ 23 = 255 := by omega
  have hm : BitVec.ofNat 32 (mag32 r % 2 ^ 23) ≠ 0 := by
    rw [ne_eq, ofNat32_eq_zero_iff (by omega)]
    omega
  rw [loaded, unpackSingle_fields, he, ppcFpuSingleToDouble]
  simp only [Nat.cast_ofNat, if_true, if_neg hm, and_self]

/-- The significand of a single, moved to where that of a double is. -/
theorem toNat_wide {m : Uint32} : (m.setWidth 64 <<< 29).toNat = m.toNat * 2 ^ 29 := by
  have := m.isLt
  rw [BitVec.toNat_shiftLeft, BitVec.toNat_setWidth, Nat.shiftLeft_eq]
  omega

theorem loaded_normal (hlo : 2 ^ 23 ≤ mag32 r) (hhi : mag32 r < inf32) :
    ∃ m, loaded r = ⟨.norm, signField32 r.msb, (mag32 r / 2 ^ 23 : Nat) - 127, m⟩ ∧
      m.toNat = (2 ^ 23 + mag32 r % 2 ^ 23) * 2 ^ 32 := by
  have hm : ((BitVec.ofNat 32 (mag32 r % 2 ^ 23) ||| BitVec.twoPow 32 23) <<< 3).toNat =
      (2 ^ 23 + mag32 r % 2 ^ 23) * 8 := by
    have hor := Nat.two_pow_add_eq_or_of_lt (i := 23) (b := mag32 r % 2 ^ 23)
      (Nat.mod_lt _ (by omega)) 1
    rw [mul_one] at hor
    rw [BitVec.toNat_shiftLeft, BitVec.toNat_or, BitVec.toNat_twoPow, BitVec.toNat_ofNat,
      Nat.mod_eq_of_lt (show mag32 r % 2 ^ 23 < 2 ^ 32 by omega),
      Nat.mod_eq_of_lt (show 2 ^ 23 < 2 ^ 32 by omega), Nat.or_comm, ← hor, Nat.shiftLeft_eq]
    omega
  unfold inf32 at hhi
  rw [loaded, unpackSingle_fields]
  simp only
  rw [if_neg (by omega), if_neg (by omega), ppcFpuSingleToDouble]
  exact ⟨_, rfl, by rw [toNat_wide, hm]; ring⟩

/-- Unlike with doubles, the leading one of a denormalized single ends up in its place. -/
theorem loaded_denormal (hlo : 0 < mag32 r) (hhi : mag32 r < 2 ^ 23) :
    ∃ m, loaded r = ⟨.norm, signField32 r.msb, (mag32 r).log2 - 149, m⟩ ∧
      m.toNat = mag32 r * 2 ^ (55 - (mag32 r).log2) := by
  have he : mag32 r / 2 ^ 23 = 0 := Nat.div_eq_of_lt hhi
  have hlog : (mag32 r).log2 < 23 := (Nat.log2_lt hlo.ne').mpr hhi
  have hself := Nat.lt_log2_self (n := mag32 r)
  have hm0 : BitVec.ofNat 32 (mag32 r) ≠ 0 := by
    rw [ne_eq, ofNat32_eq_zero_iff (by omega)]
    omega
  have hclz := countFrom_eq 31 hm0
  rw [BitVec.toNat_ofNat, Nat.mod_eq_of_lt (show mag32 r < 2 ^ 32 by omega)] at hclz
  rw [loaded, unpackSingle_fields, he, Nat.mod_eq_of_lt hhi]
  simp only
  rw [if_neg (by omega), if_pos (by rfl), if_neg hm0, hclz, ppcFpuSingleToDouble]
  refine ⟨BitVec.setWidth 64 (BitVec.ofNat 32 (mag32 r) <<< (26 - (mag32 r).log2)) <<< 29, ?_, ?_⟩
  · rw [show ((31 : Int) - (mag32 r).log2 - 8 + 3).toNat = 26 - (mag32 r).log2 by omega,
      show ((0 : Nat) : Int) - (127 - 1 + (31 - (mag32 r).log2 - 8)) = (mag32 r).log2 - 149 by omega]
  · have hlt : mag32 r * 2 ^ (26 - (mag32 r).log2) < 2 ^ 32 := by
      calc mag32 r * 2 ^ (26 - (mag32 r).log2)
          < 2 ^ ((mag32 r).log2 + 1) * 2 ^ (26 - (mag32 r).log2) :=
            Nat.mul_lt_mul_of_pos_right hself (Nat.two_pow_pos _)
        _ = 2 ^ 27 := by rw [← pow_add]; congr 1; omega
        _ < 2 ^ 32 := by norm_num
    rw [toNat_wide, BitVec.toNat_shiftLeft, BitVec.toNat_ofNat, Nat.shiftLeft_eq,
      Nat.mod_eq_of_lt (show mag32 r < 2 ^ 32 by omega), Nat.mod_eq_of_lt hlt, mul_assoc,
      ← pow_add, show 26 - (mag32 r).log2 + 29 = 55 - (mag32 r).log2 by omega]

/-- What a single that is not zero, an infinity or a NaN is loaded as. -/
structure Exact (u : PpcDouble) (neg : Bool) : Prop extends Normal u where
  sign : (u.s != 0) = neg
  frac : u.m.toNat % 2 ^ 32 = 0
  least : -149 ≤ u.e
  most : u.e ≤ 127

theorem loaded_exact (h0 : 0 < mag32 r) (hfin : mag32 r < inf32) : Exact (loaded r) r.msb := by
  rcases Nat.lt_or_ge (mag32 r) (2 ^ 23) with hlt | hge
  · have hlog : (mag32 r).log2 < 23 := (Nat.log2_lt h0.ne').mpr hlt
    obtain ⟨hl, hh⟩ := (Nat.log2_eq_iff h0.ne').mp rfl
    obtain ⟨m, heq, hm⟩ := loaded_denormal h0 hlt
    have hsplit : m.toNat = mag32 r * 2 ^ (23 - (mag32 r).log2) * 2 ^ 32 := by
      rw [hm, mul_assoc, ← pow_add, show 23 - (mag32 r).log2 + 32 = 55 - (mag32 r).log2 by omega]
    have hlo : 2 ^ 55 ≤ m.toNat := by
      rw [hm]
      calc 2 ^ 55 = 2 ^ (mag32 r).log2 * 2 ^ (55 - (mag32 r).log2) := by
            rw [← pow_add, Nat.add_sub_cancel' (by omega)]
        _ ≤ mag32 r * 2 ^ (55 - (mag32 r).log2) := Nat.mul_le_mul_right _ hl
    have hhi : m.toNat < 2 ^ 56 := by
      rw [hm]
      calc mag32 r * 2 ^ (55 - (mag32 r).log2)
          < 2 ^ ((mag32 r).log2 + 1) * 2 ^ (55 - (mag32 r).log2) :=
            Nat.mul_lt_mul_of_pos_right hh (Nat.two_pow_pos _)
        _ = 2 ^ 56 := by rw [← pow_add]; congr 1; omega
    rw [heq]
    exact ⟨⟨rfl, hlo, hhi⟩, signField32_bne _, by rw [hsplit]; exact Nat.mul_mod_left _ _,
      by dsimp only; omega, by dsimp only; omega⟩
  · obtain ⟨m, heq, hm⟩ := loaded_normal hge hfin
    unfold inf32 at hfin
    rw [heq]
    exact ⟨⟨rfl, by dsimp only; omega, by dsimp only; omega⟩, signField32_bne _,
      by rw [hm]; exact Nat.mul_mod_left _ _, by dsimp only; omega, by dsimp only; omega⟩

/-! ## Through the register -/

/-- A number that needs no rounding is taken apart as it was put together. -/
theorem unpack_pack {u : PpcDouble} {neg : Bool} (fpscr : Uint32) (h : Exact u neg) :
    ppcFpuUnpackDouble (ppcFpuPackDouble fpscr u).1 = ⟨.norm, signField neg, u.e, u.m⟩ ∧
      0 < mag64 (ppcFpuPackDouble fpscr u).1 ∧ mag64 (ppcFpuPackDouble fpscr u).1 < inf64 ∧
      (ppcFpuPackDouble fpscr u).1.msb = neg := by
  obtain ⟨⟨ht, hlo, hhi⟩, hs, hfrac, he, he'⟩ := h
  have hf := packNorm_exact 1023 56 2047 fpscr u.s (e := u.e) (m := u.m) (by omega) (by omega)
    (by omega) (by omega)
  have heq : (ppcFpuPackDouble fpscr u).1 = fpdPackVar u.s (u.e + (1023 : Nat)) (u.m >>> 3) := by
    rw [ppcFpuPackDouble_eq (e := u.e + (1023 : Nat)) (m := u.m >>> 3) (f := 0)]
    rw [packFields, ht]
    exact hf
  obtain ⟨h1, h2⟩ := fpdPackVar_sign u.s (e := u.e + (1023 : Nat)) (m := u.m >>> 3) (by omega)
    (by omega)
  rw [BitVec.toNat_ushiftRight, Nat.shiftRight_eq_div_pow] at h2
  rw [heq, h1, hs]
  have hinf : inf64 = 2047 * 2 ^ 52 := rfl
  refine ⟨?_, by omega, by omega, rfl⟩
  have hdiv : mag64 (fpdPackVar u.s (u.e + (1023 : Nat)) (u.m >>> 3)) / 2 ^ 52 =
      (u.e + (1023 : Nat)).toNat := by omega
  have hmod : (2 ^ 52 + mag64 (fpdPackVar u.s (u.e + (1023 : Nat)) (u.m >>> 3)) % 2 ^ 52) * 8 =
      u.m.toNat := by omega
  rw [unpack_normal (by omega) (by omega), h1, hs, hdiv, hmod, BitVec.ofNat_toNat,
    BitVec.setWidth_eq]
  congr 1
  omega

theorem fpsPackVar_sign (s : Uint32) {e : Int} {m : BitVec 64} (h0 : 0 ≤ e) (h1 : e ≤ 255) :
    (fpsPackVar s e m).msb = (s != 0) ∧
      mag32 (fpsPackVar s e m) = e.toNat * 2 ^ 23 + m.toNat % 2 ^ 23 := by
  have hmlt := Nat.mod_lt m.toNat (show 0 < 2 ^ 23 by omega)
  have hm : ((m &&& 0x7FFFFF).setWidth 32).toNat = m.toNat % 2 ^ 23 := by
    rw [BitVec.toNat_setWidth, show (m &&& 0x7FFFFF).toNat = m.toNat % 2 ^ 23 from
      Word.toNat_and_low _ 23 (by omega)]
    omega
  have he : (BitVec.ofInt 32 e <<< 23).toNat = e.toNat * 2 ^ 23 := by
    rw [BitVec.toNat_shiftLeft, BitVec.toNat_ofInt, Nat.shiftLeft_eq]
    omega
  have hs : (if s ≠ 0 then (0x80000000 : Uint32) else 0).toNat = (s != 0).toNat * 2 ^ 31 := by
    by_cases h : s = 0
    · simp [h]
    · rw [if_pos h, bne_iff_ne.mpr h]
      rfl
  have hlow := Nat.two_pow_add_eq_or_of_lt hmlt e.toNat
  have hhigh := Nat.two_pow_add_eq_or_of_lt (i := 31)
    (show e.toNat * 2 ^ 23 + m.toNat % 2 ^ 23 < 2 ^ 31 by omega) (s != 0).toNat
  have htot : (fpsPackVar s e m).toNat =
      (s != 0).toNat * 2 ^ 31 + (e.toNat * 2 ^ 23 + m.toNat % 2 ^ 23) := by
    rw [fpsPackVar, BitVec.toNat_or, BitVec.toNat_or, hs, hm, he, Nat.or_assoc, mul_comm e.toNat,
      ← hlow, mul_comm _ (2 ^ 31), mul_comm _ e.toNat, ← hhigh]
  rw [BitVec.msb_eq_decide, mag32, htot]
  cases s != 0 with
  | false => exact ⟨decide_eq_false (by simp; omega), by simp; omega⟩
  | true => exact ⟨decide_eq_true (by simp), by simp; omega⟩

theorem eq_of_mag32 {q r : Uint32} (hs : q.msb = r.msb) (hm : mag32 q = mag32 r) : q = r := by
  apply BitVec.eq_of_toNat_eq
  rw [BitVec.msb_eq_decide, BitVec.msb_eq_decide, decide_eq_decide] at hs
  unfold mag32 at hm
  have := q.isLt
  have := r.isLt
  omega

theorem fpsPackVar_eq {s : Uint32} {e : Int} {m : BitVec 64} (hs : (s != 0) = r.msb) (h0 : 0 ≤ e)
    (h1 : e ≤ 255) (h : e.toNat * 2 ^ 23 + m.toNat % 2 ^ 23 = mag32 r) : fpsPackVar s e m = r := by
  obtain ⟨h2, h3⟩ := fpsPackVar_sign s (m := m) h0 h1
  exact eq_of_mag32 (h2.trans hs) (h3.trans h)

theorem ppcFpuPackSingle_eq {fpscr : Uint32} {u : PpcDouble} {e : Int} {m : BitVec 64} {f : Uint32}
    (h : packFields 127 27 255 fpscr u (u.m >>> 29) = (e, m, f)) :
    (ppcFpuPackSingle fpscr u).1 = fpsPackVar u.s e m := by
  rw [ppcFpuPackSingle, h]

theorem ppcFpuPackSingle_norm {fpscr s ret : Uint32} {e' e : Int} {m' m : BitVec 64}
    (h : packNorm 127 27 255 fpscr s e' (m' >>> 29) = (e, m, ret)) :
    (ppcFpuPackSingle fpscr ⟨.norm, s, e', m'⟩).1 = fpsPackVar s e m :=
  ppcFpuPackSingle_eq h

/-- Storing what a number was loaded as. -/
theorem packSingle_loaded (fpscr : Uint32) (h0 : 0 < mag32 r) (hfin : mag32 r < inf32) :
    (ppcFpuPackSingle fpscr ⟨.norm, signField r.msb, (loaded r).e, (loaded r).m⟩).1 = r := by
  rcases Nat.lt_or_ge (mag32 r) (2 ^ 23) with hlt | hge
  · have hlog : (mag32 r).log2 < 23 := (Nat.log2_lt h0.ne').mpr hlt
    obtain ⟨m, heq, hm⟩ := loaded_denormal h0 hlt
    simp only [heq]
    have hsh : (1 - (((mag32 r).log2 : Int) - 149 + (127 : Nat))).toNat = 23 - (mag32 r).log2 := by
      omega
    have h29 : (m >>> 29).toNat = mag32 r * 8 * 2 ^ (23 - (mag32 r).log2) := by
      rw [BitVec.toNat_ushiftRight, Nat.shiftRight_eq_div_pow, hm,
        show 55 - (mag32 r).log2 = 3 + (23 - (mag32 r).log2) + 29 by omega, pow_add _ _ 29,
        ← mul_assoc, Nat.mul_div_cancel _ (Nat.two_pow_pos 29), pow_add, ← mul_assoc]
      rfl
    have hf := packNorm_exact_denormal 127 27 255 fpscr (signField r.msb)
      (e := (mag32 r).log2 - 149) (m := m >>> 29) (n := mag32 r)
      (by omega) (by omega) (by omega) (by omega) (by omega) (by rw [hsh, h29])
    rw [ppcFpuPackSingle_norm hf]
    refine fpsPackVar_eq (signField_bne _) (by omega) (by omega) ?_
    rw [BitVec.toNat_ofNat]
    omega
  · obtain ⟨m, heq, hm⟩ := loaded_normal hge hfin
    unfold inf32 at hfin
    simp only [heq]
    have h29 : (m >>> 29).toNat = (2 ^ 23 + mag32 r % 2 ^ 23) * 8 := by
      rw [BitVec.toNat_ushiftRight, Nat.shiftRight_eq_div_pow, hm]
      omega
    have hf := packNorm_exact 127 27 255 fpscr (signField r.msb)
      (e := (mag32 r / 2 ^ 23 : Nat) - 127) (m := m >>> 29)
      (by omega) (by omega) (by omega) (by omega)
    rw [ppcFpuPackSingle_norm hf]
    refine fpsPackVar_eq (signField_bne _) (by omega) (by omega) ?_
    rw [BitVec.toNat_ushiftRight, Nat.shiftRight_eq_div_pow, h29]
    omega

theorem loaded_value (h0 : 0 < mag32 r) (hfin : mag32 r < inf32) :
    (loaded r).value = binary32.decode (mag32 r) := by
  rcases Nat.lt_or_ge (mag32 r) (2 ^ 23) with hlt | hge
  · have hlog : (mag32 r).log2 < 23 := (Nat.log2_lt h0.ne').mpr hlt
    obtain ⟨m, heq, hm⟩ := loaded_denormal h0 hlt
    have hdec := Format.decode_mul_add (F := binary32) (c := mag32 r) (e := 0) (.inr rfl)
      (hlt.le.trans (by norm_num [Format.frac]))
    rw [Nat.zero_mul, Nat.zero_add] at hdec
    rw [heq, hdec, PpcDouble.value, hm]
    have he : (-149 : ℤ) + (0 : Nat) =
        (mag32 r).log2 - 149 - 55 + (55 - (mag32 r).log2 : Nat) := by omega
    rw [he, BinaryFloat.two_zpow_add_nat]
    push_cast
    ring
  · obtain ⟨m, heq, hm⟩ := loaded_normal hge hfin
    unfold inf32 at hfin
    have hdec := Format.decode_mul_add (F := binary32) (c := 2 ^ 23 + mag32 r % 2 ^ 23)
      (e := mag32 r / 2 ^ 23 - 1) (.inl (by norm_num [Format.frac])) (by norm_num [Format.frac]; omega)
    have hn : (mag32 r / 2 ^ 23 - 1) * 2 ^ binary32.frac + (2 ^ 23 + mag32 r % 2 ^ 23) = mag32 r := by
      show (mag32 r / 2 ^ 23 - 1) * 2 ^ 23 + (2 ^ 23 + mag32 r % 2 ^ 23) = mag32 r
      omega
    rw [hn] at hdec
    rw [heq, hdec, PpcDouble.value, hm]
    have he : (-149 : ℤ) + (mag32 r / 2 ^ 23 - 1 : Nat) =
        (mag32 r / 2 ^ 23 : Nat) - 127 - 55 + (32 : Nat) := by omega
    rw [he, BinaryFloat.two_zpow_add_nat]
    push_cast
    ring

/-- A load keeps the value of every finite single. -/
theorem lfsDouble_value (fpscr : Uint32) (hfin : mag32 r < inf32) :
    mag64 (lfsDouble fpscr r) < inf64 ∧ value64 (lfsDouble fpscr r) = value32 r := by
  rcases Nat.eq_zero_or_pos (mag32 r) with h0 | h0
  · obtain ⟨-, -, hm⟩ := pack_special fpscr (u := loaded r) (by rw [loaded_zero h0]; simp)
    rw [loaded_zero h0] at hm
    have hmag : mag64 (lfsDouble fpscr r) = 0 := by
      rw [lfsDouble, ← loaded, loaded_zero h0]
      exact hm
    have hz : value64 (lfsDouble fpscr r) = 0 :=
      value64_eq_zero (Format.decode_eq_zero_iff.mpr hmag)
    rw [hz, hmag, value32, h0, Format.decode_eq_zero_iff.mpr rfl]
    exact ⟨show 0 < inf64 by norm_num, by cases r.msb <;> simp [signed]⟩
  · obtain ⟨heq, hpos, hlt, hs⟩ := unpack_pack fpscr (loaded_exact h0 hfin)
    have hv := (unpack_value hpos hlt).2.2
    rw [heq] at hv
    refine ⟨hlt, ?_⟩
    have hmag : binary64.decode (mag64 (lfsDouble fpscr r)) = binary32.decode (mag32 r) :=
      hv.symm.trans (loaded_value h0 hfin)
    have hsign : (lfsDouble fpscr r).msb = r.msb := hs
    rw [value64, value32, hmag, hsign]

/-- A single that is loaded into a register is the same number there, and stored from it again it
is the same single, whatever the modes; a NaN becomes the one with fraction 1. -/
theorem lfs_stfs (fpscr fpscr' r : Uint32) :
    (mag32 r < inf32 →
        mag64 (lfsDouble fpscr r) < inf64 ∧ value64 (lfsDouble fpscr r) = value32 r) ∧
      stfsSingle fpscr' (lfsDouble fpscr r) =
        if inf32 < mag32 r then (r &&& 0x80000000) ||| 0x7F800001 else r := by
  refine ⟨lfsDouble_value fpscr, ?_⟩
  have hspecial : (loaded r).type ≠ .norm → (loaded r).s = signField32 r.msb →
      (lfsDouble fpscr r).msb = r.msb := fun ht hs => by
    rw [lfsDouble, ← loaded, (pack_special fpscr ht).1, hs, signField32_bne]
  have hinf : inf32 = 255 * 2 ^ 23 := rfl
  rcases Nat.lt_trichotomy (mag32 r) inf32 with hlt | heq | hgt
  · rw [if_neg hlt.not_gt]
    rcases Nat.eq_zero_or_pos (mag32 r) with h0 | h0
    · have hl := loaded_zero h0
      have hm : mag64 (lfsDouble fpscr r) = 0 := by
        have := (pack_special fpscr (u := loaded r) (by rw [hl]; simp)).2.2
        rw [hl] at this
        rw [lfsDouble, ← loaded, hl]
        exact this
      have hs := hspecial (by rw [hl]; simp) (by rw [hl])
      rw [stfsSingle, unpack_zero hm, hs, ppcFpuPackSingle_eq (e := 0) (m := 0) (f := 0) rfl]
      exact fpsPackVar_eq (signField_bne _) (by omega) (by omega) (by rw [h0]; rfl)
    · rw [stfsSingle, lfsDouble, ← loaded, (unpack_pack fpscr (loaded_exact h0 hlt)).1]
      exact packSingle_loaded fpscr' h0 hlt
  · have hl := loaded_inf heq
    have hm : mag64 (lfsDouble fpscr r) = inf64 := by
      have := (pack_special fpscr (u := loaded r) (by rw [hl]; simp)).2.2
      rw [hl] at this
      rw [lfsDouble, ← loaded, hl]
      exact this
    have hs := hspecial (by rw [hl]; simp) (by rw [hl])
    rw [if_neg heq.not_gt, stfsSingle, unpack_inf hm, hs,
      ppcFpuPackSingle_eq (e := 255) (m := 0) (f := 0) rfl]
    exact fpsPackVar_eq (signField_bne _) (by omega) (by omega) (by rw [heq]; rfl)
  · obtain ⟨ht, hsl⟩ := loaded_nan hgt
    have hm : mag64 (lfsDouble fpscr r) = inf64 + 1 := by
      have := (pack_special fpscr (u := loaded r) (by rw [ht]; simp)).2.2
      rw [ht] at this
      exact this
    have hs := hspecial (by rw [ht]; simp) hsl
    obtain ⟨hu1, hu2⟩ := unpack_nan (d := lfsDouble fpscr r) (by omega)
    have hf : packFields 127 27 255 fpscr' (ppcFpuUnpackDouble (lfsDouble fpscr r))
        ((ppcFpuUnpackDouble (lfsDouble fpscr r)).m >>> 29) = (255, 1, 0) := by
      rw [packFields, hu1]
      rfl
    rw [if_pos hgt, stfsSingle, ppcFpuPackSingle_eq hf, hu2, hs, (fields_single r).1]
    cases r.msb <;> rfl

end SkyEye.Ppc.Fpu
