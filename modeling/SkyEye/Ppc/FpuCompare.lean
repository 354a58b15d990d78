import Mathlib.Data.Rat.Floor
import SkyEye.Ppc.FpuArith

/-!
# Comparing and converting doubles

The compares take doubles apart and go by exponent and significand, where a denormalized number
is not normalized and infinity is an exponent among others; the order is still that of the
values. The conversions to a whole number round a magnitude and put the sign back.
-/

namespace SkyEye.Ppc.Fpu

open Sparc (Uint32)
open BinaryFloat (Format Mode signed)
open Branch (crField crfD orderBits)

/-! ## The order of doubles -/

/-- The bits of a double as a number with a sign. -/
def key64 (d : BitVec 64) : ℤ := if d.msb then -(mag64 d : ℤ) else mag64 d

/-- The value of a double that is not a NaN, with the infinities at the ends. -/
def ext64 (d : BitVec 64) : WithBot (WithTop ℚ) :=
  if mag64 d = inf64 then if d.msb then ⊥ else ⊤
  else ((value64 d : WithTop ℚ) : WithBot (WithTop ℚ))

variable {a b : BitVec 64}

/-- The keys of finite doubles are ordered as their values. -/
theorem value64_lt_iff : value64 a < value64 b ↔ key64 a < key64 b := by
  have hmono := binary64.decode_strictMono
  have hz : ∀ n, 0 ≤ binary64.decode n := fun n => Format.decode_nonneg n
  have hpos : ∀ n, 0 < binary64.decode n ↔ 0 < n := fun n => by
    rw [(hz n).lt_iff_ne, ne_comm, ne_eq, Format.decode_eq_zero_iff, Nat.pos_iff_ne_zero]
  have hlt : ∀ m n, binary64.decode m < binary64.decode n ↔ m < n := fun m n => hmono.lt_iff_lt
  unfold value64 key64 signed
  cases a.msb <;> cases b.msb <;> simp only [if_true, if_false, Bool.false_eq_true]
  · rw [hlt]
    omega
  · have := hz (mag64 a)
    have := hz (mag64 b)
    constructor <;> intro h
    · linarith
    · omega
  · have h1 := hz (mag64 a)
    have h2 := hz (mag64 b)
    have h3 := hpos (mag64 a)
    have h4 := hpos (mag64 b)
    constructor
    · intro h
      by_contra hle
      have ha : binary64.decode (mag64 a) = 0 := Format.decode_eq_zero_iff.mpr (by omega)
      have hb : binary64.decode (mag64 b) = 0 := Format.decode_eq_zero_iff.mpr (by omega)
      rw [ha, hb] at h
      simp at h
    · intro h
      rcases Nat.eq_zero_or_pos (mag64 a) with h0 | h0
      · have := h4.mpr (by omega)
        linarith
      · have := h3.mpr h0
        linarith
  · rw [neg_lt_neg_iff, hlt]
    omega

/-- So are those of all doubles but the NaNs. -/
theorem ext64_lt_iff (ha : mag64 a ≤ inf64) (hb : mag64 b ≤ inf64) :
    ext64 a < ext64 b ↔ key64 a < key64 b := by
  have hinf : inf64 = 2047 * 2 ^ 52 := rfl
  have htop : ∀ x : ℚ, ((x : WithTop ℚ) : WithBot (WithTop ℚ)) < ⊤ := fun x =>
    WithBot.coe_lt_coe.mpr (WithTop.coe_lt_top x)
  unfold ext64
  by_cases ha' : mag64 a = inf64 <;> by_cases hb' : mag64 b = inf64
  · rw [if_pos ha', if_pos hb', key64, key64, ha', hb']
    cases a.msb <;> cases b.msb <;> simp [inf64]
  · rw [if_pos ha', if_neg hb', key64, key64, ha']
    cases a.msb <;> cases b.msb <;> simp <;> omega
  · rw [if_neg ha', if_pos hb', key64, key64, hb']
    cases a.msb <;> cases b.msb <;> simp [htop] <;> omega
  · rw [if_neg ha', if_neg hb', WithBot.coe_lt_coe, WithTop.coe_lt_coe, value64_lt_iff]

theorem compare_ext64 (ha : mag64 a ≤ inf64) (hb : mag64 b ≤ inf64) :
    compare (ext64 a) (ext64 b) = compare (key64 a) (key64 b) := by
  rcases lt_trichotomy (key64 a) (key64 b) with h | h | h
  · rw [compare_lt_iff_lt.mpr h, compare_lt_iff_lt.mpr ((ext64_lt_iff ha hb).mpr h)]
  · have hab := (ext64_lt_iff ha hb).not.mpr h.not_lt
    have hba := (ext64_lt_iff hb ha).not.mpr h.not_gt
    rw [compare_eq_iff_eq.mpr h,
      compare_eq_iff_eq.mpr (le_antisymm (not_lt.mp hba) (not_lt.mp hab))]
  · rw [compare_gt_iff_gt.mpr h, compare_gt_iff_gt.mpr ((ext64_lt_iff hb ha).mpr h)]

/-- Exponent and significand, one behind the other, are ordered as the magnitudes: a denormalized
number has a significand that is too large, and an exponent that makes up for it. -/
theorem unpack_lt (h0 : 0 < mag64 a) (hab : mag64 a < mag64 b) (hb : mag64 b ≤ inf64) :
    (ppcFpuUnpackDouble a).e < (ppcFpuUnpackDouble b).e ∨
      (ppcFpuUnpackDouble a).e = (ppcFpuUnpackDouble b).e ∧
        (ppcFpuUnpackDouble a).m < (ppcFpuUnpackDouble b).m := by
  have hinf : inf64 = 2047 * 2 ^ 52 := rfl
  rcases Nat.lt_or_ge (mag64 a) (2 ^ 52) with ha1 | ha1
  · have hla : (mag64 a).log2 < 52 := (Nat.log2_lt h0.ne').mpr ha1
    rw [unpack_denormal h0 ha1]
    rcases Nat.lt_or_ge (mag64 b) (2 ^ 52) with hb1 | hb1
    · rw [unpack_denormal (h0.trans hab) hb1]
      have hlb : (mag64 b).log2 < 52 := (Nat.log2_lt (h0.trans hab).ne').mpr hb1
      have hmono : (mag64 a).log2 ≤ (mag64 b).log2 := by
        rw [Nat.le_log2 (h0.trans hab).ne']
        exact (Nat.log2_self_le h0.ne').trans hab.le
      rcases hmono.lt_or_eq with hlt | heq
      · left
        dsimp only
        omega
      · have hbound : ∀ n : Nat, 0 < n → n < 2 ^ 52 → n * 2 ^ (58 - n.log2) < 2 ^ 64 := by
          intro n hn0 hn
          have h1 := Nat.lt_log2_self (n := n)
          have h2 : n.log2 < 52 := (Nat.log2_lt hn0.ne').mpr hn
          calc n * 2 ^ (58 - n.log2) < 2 ^ (n.log2 + 1) * 2 ^ (58 - n.log2) :=
                Nat.mul_lt_mul_of_pos_right h1 (Nat.two_pow_pos _)
            _ = 2 ^ 59 := by rw [← pow_add]; congr 1; omega
            _ < 2 ^ 64 := by norm_num
        refine .inr ⟨by rw [heq], ?_⟩
        rw [BitVec.lt_def, BitVec.toNat_ofNat, BitVec.toNat_ofNat,
          Nat.mod_eq_of_lt (hbound _ h0 ha1), Nat.mod_eq_of_lt (hbound _ (h0.trans hab) hb1), heq]
        exact Nat.mul_lt_mul_of_pos_right hab (Nat.two_pow_pos _)
    · left
      rcases hb.lt_or_eq with hlt | heq
      · rw [unpack_normal hb1 hlt]
        dsimp only
        omega
      · rw [unpack_inf heq]
        dsimp only
        omega
  · rw [unpack_normal ha1 (hab.trans_le hb)]
    rcases hb.lt_or_eq with hlt | heq
    · rw [unpack_normal (ha1.trans hab.le) hlt]
      rcases (Nat.div_le_div_right (c := 2 ^ 52) hab.le).lt_or_eq with hlt' | heq'
      · left
        dsimp only
        omega
      · refine .inr ⟨by rw [heq'], ?_⟩
        rw [BitVec.lt_def, BitVec.toNat_ofNat, BitVec.toNat_ofNat]
        omega
    · left
      rw [unpack_inf heq]
      dsimp only
      omega

/-- Zeros are the doubles of type zero, and the sign is that of the double. -/
theorem unpack_type_sign (hb : mag64 b ≤ inf64) :
    ((ppcFpuUnpackDouble b).type = .zero ↔ mag64 b = 0) ∧
      (ppcFpuUnpackDouble b).type ≠ .nan ∧ (ppcFpuUnpackDouble b).s = signField b.msb := by
  have hinf : inf64 = 2047 * 2 ^ 52 := rfl
  rcases Nat.eq_zero_or_pos (mag64 b) with h0 | h0
  · rw [unpack_zero h0]
    exact ⟨⟨fun _ => h0, fun _ => rfl⟩, by simp, rfl⟩
  · rcases hb.lt_or_eq with hlt | heq
    · obtain ⟨h1, h2, -⟩ := unpack_value h0 hlt
      rw [h1]
      exact ⟨⟨fun h => by simp at h, fun h => by omega⟩, by simp, h2⟩
    · rw [unpack_inf heq]
      exact ⟨⟨fun h => by simp at h, fun h => by omega⟩, by simp, rfl⟩

theorem signField_ne_zero (neg : Bool) : signField neg ≠ 0 ↔ neg = true := by
  rw [← bne_iff_ne, signField_bne]

/-- The result of a compare of two numbers. -/
def orderWord (o : Ordering) : Uint32 := (orderBits o).setWidth 32

theorem orderWord_compare (x y : ℤ) :
    orderWord (compare x y) = if x < y then 8 else if y < x then 4 else 2 := by
  rcases lt_trichotomy x y with h | h | h
  · rw [compare_lt_iff_lt.mpr h, if_pos h]
    rfl
  · rw [compare_eq_iff_eq.mpr h, if_neg h.not_lt, if_neg h.not_gt]
    rfl
  · rw [compare_gt_iff_gt.mpr h, if_neg h.le.not_gt, if_pos h]
    rfl

/-- `ppc_fpu_compare` on what two doubles are taken apart into goes by the keys. -/
theorem ppcFpuCompare_key (ha : mag64 a ≤ inf64) (hb : mag64 b ≤ inf64) :
    ppcFpuCompare (ppcFpuUnpackDouble a) (ppcFpuUnpackDouble b) =
      orderWord (compare (key64 a) (key64 b)) := by
  obtain ⟨hza, -, hsa⟩ := unpack_type_sign ha
  obtain ⟨hzb, -, hsb⟩ := unpack_type_sign hb
  rw [orderWord_compare, ppcFpuCompare]
  simp only [hza, hzb, hsa, hsb, ne_eq, signField_inj, signField_ne_zero]
  unfold key64
  by_cases h0a : mag64 a = 0
  · by_cases h0b : mag64 b = 0
    · rw [if_pos h0a, if_pos h0b, h0a, h0b]
      cases a.msb <;> cases b.msb <;> rfl
    · have hb0 : 0 < mag64 b := Nat.pos_of_ne_zero h0b
      rw [if_pos h0a, if_neg h0b, h0a]
      cases b.msb <;> simp [hb0]
  by_cases h0b : mag64 b = 0
  · have ha0 : 0 < mag64 a := Nat.pos_of_ne_zero h0a
    rw [if_neg h0a, if_pos h0b, h0b]
    cases a.msb <;> simp [ha0]
  rw [if_neg h0a, if_neg h0b]
  by_cases hs : a.msb = b.msb
  · rw [if_neg (not_not.mpr hs), hs]
    rcases lt_trichotomy (mag64 a) (mag64 b) with h | h | h
    · have hle := h.le
      rcases unpack_lt (Nat.pos_of_ne_zero h0a) h hb with he | ⟨he, hm⟩
      · have hge := he.not_gt
        cases b.msb <;> simp [hge, he, h, hle]
      · have hge : ¬ (ppcFpuUnpackDouble b).m < (ppcFpuUnpackDouble a).m :=
          BitVec.not_lt.mpr (BitVec.le_of_lt hm)
        cases b.msb <;> simp [he, hge, hm, h, hle]
    · rw [eq_of_mag64 hs h]
      simp
    · have hle := h.le
      rcases unpack_lt (Nat.pos_of_ne_zero h0b) h ha with he | ⟨he, hm⟩
      · cases b.msb <;> simp [he, h, hle]
      · cases b.msb <;> simp [he, hm, h, hle]
  · rw [if_pos hs]
    have ha0 : 0 < mag64 a := Nat.pos_of_ne_zero h0a
    have hb0 : 0 < mag64 b := Nat.pos_of_ne_zero h0b
    rcases ha' : a.msb with _ | _ <;> rcases hb' : b.msb with _ | _
    · exact absurd (ha'.trans hb'.symm) hs
    · have h1 : -(mag64 b : ℤ) < mag64 a := by omega
      simp [h1, h1.le]
    · have h1 : -(mag64 a : ℤ) < mag64 b := by omega
      simp [h1]
    · exact absurd (ha'.trans hb'.symm) hs

/-! ## The compares -/

/-- FPCC for two operands: the order of their values, or unordered. -/
def verdict (a b : BitVec 64) : BitVec 4 :=
  if inf64 < mag64 a ∨ inf64 < mag64 b then 1 else orderBits (compare (ext64 a) (ext64 b))

theorem unpack_type_nan (d : BitVec 64) : (ppcFpuUnpackDouble d).type = .nan ↔ inf64 < mag64 d := by
  constructor
  · intro h
    by_contra hle
    exact (unpack_type_sign (not_lt.mp hle)).2.1 h
  · exact fun h => (unpack_nan h).1

section
variable {M : Type} (s : FpuCore M)

/-- A compare puts `c` into its field of CR and into FPRF, raises `flags`, and leaves all else. -/
structure FloatCompared (flags : Uint32) (c : BitVec 4) (t : FpuCore M) : Prop where
  field : crField t.cr (crfD s.currentOpc) = c
  others : ∀ j < 8, j ≠ crfD s.currentOpc → crField t.cr j = crField s.cr j
  fprf : (t.fpscr >>> 12).setWidth 5 = c.setWidth 5
  kept : ∀ i < 32, i < 12 ∨ 17 ≤ i → t.fpscr.getLsbD i = (s.fpscr ||| flags).getLsbD i
  rest : ∃ cr fpscr, t = { s with cr := cr, fpscr := fpscr }

theorem fprf_put (fpscr : Uint32) (c : BitVec 4) :
    (((fpscr &&& ~~~(0x1F000 : Uint32)) ||| (c.setWidth 32 <<< 12)) >>> 12).setWidth 5 =
        c.setWidth 5 ∧
      ∀ i < 32, i < 12 ∨ 17 ≤ i →
        ((fpscr &&& ~~~(0x1F000 : Uint32)) ||| (c.setWidth 32 <<< 12)).getLsbD i =
          fpscr.getLsbD i := by
  have hmask : ∀ i < 32, (0x1F000 : Uint32).getLsbD i = decide (12 ≤ i ∧ i < 17) := by decide
  constructor
  · refine BitVec.eq_of_getLsbD_eq fun i hi => ?_
    have h32 : 12 + i < 32 := by omega
    have hin : 12 ≤ 12 + i ∧ 12 + i < 17 := by omega
    simp only [BitVec.getLsbD_setWidth, BitVec.getLsbD_ushiftRight, BitVec.getLsbD_or,
      BitVec.getLsbD_and, BitVec.getLsbD_not, BitVec.getLsbD_shiftLeft, hmask _ h32,
      decide_eq_true hi, decide_eq_true h32, decide_eq_true hin, Bool.true_and,
      Nat.add_sub_cancel_left]
    simp [show i < 32 by omega]
  · intro i hi hout
    have hin : ¬ (12 ≤ i ∧ i < 17) := by omega
    simp only [BitVec.getLsbD_or, BitVec.getLsbD_and, BitVec.getLsbD_not,
      BitVec.getLsbD_shiftLeft, BitVec.getLsbD_setWidth, hmask i hi, decide_eq_false hin,
      decide_eq_true hi, Bool.not_false, Bool.true_and, Bool.and_true]
    rcases hout with h | h
    · simp [h]
    · rw [BitVec.getLsbD_of_ge c _ (by omega)]
      simp

theorem floatCompared_end (flags : Uint32) (c : BitVec 4) :
    FloatCompared s flags c ((s.raise flags).compareEnd (c.setWidth 32)) := by
  have hfield (k : Nat) (hk : k < 8) := Branch.crField_put s.cr c (Branch.crfD_lt s.currentOpc) hk
  obtain ⟨hin, hout⟩ := fprf_put (s.fpscr ||| flags) c
  refine ⟨?_, fun k hk hne => ?_, hin, hout, ⟨_, _, rfl⟩⟩
  · exact (hfield _ (Branch.crfD_lt _)).trans (if_pos rfl)
  · exact (hfield k hk).trans (if_neg hne)

/-- `fcmpu` and `fcmpo` find the order of the two values, of denormalized numbers and infinities
too; of a NaN and anything they find that there is none, and only then raise flags. -/
theorem fcmp_verdict (flags : Uint32) :
    FloatCompared s (if inf64 < mag64 s.opA ∨ inf64 < mag64 s.opB then flags else 0)
      (verdict s.opA s.opB) (s.compareWith flags) := by
  rw [FpuCore.compareWith]
  simp only [FpuCore.frA, FpuCore.frB, unpack_type_nan]
  by_cases h : inf64 < mag64 s.opA ∨ inf64 < mag64 s.opB
  · rw [if_pos h, if_pos h, verdict, if_pos h]
    exact floatCompared_end s flags 1
  · have ha : mag64 s.opA ≤ inf64 := not_lt.mp fun h' => h (.inl h')
    have hb : mag64 s.opB ≤ inf64 := not_lt.mp fun h' => h (.inr h')
    have hs : s.raise 0 = s := by simp [FpuCore.raise]
    rw [if_neg h, if_neg h, verdict, if_neg h, ppcFpuCompare_key ha hb, ← compare_ext64 ha hb]
    have hend := floatCompared_end s 0 (orderBits (compare (ext64 s.opA) (ext64 s.opB)))
    rwa [hs] at hend

end

/-! ## Conversion to a whole number -/

/-- A value rounded to a whole number; nearest goes away from zero where there are two. -/
def roundInt (mode : Mode) (x : ℚ) : ℤ :=
  match mode with
  | .near => if x < 0 then -⌊-x + 1 / 2⌋ else ⌊x + 1 / 2⌋
  | .zero => if x < 0 then ⌈x⌉ else ⌊x⌋
  | .up => ⌈x⌉
  | .down => ⌊x⌋

/-- A magnitude with fraction `f` is rounded away from zero. -/
def Carries (mode : Mode) (neg : Bool) (f : ℚ) : Prop :=
  match mode with
  | .near => 1 / 2 ≤ f
  | .zero => False
  | .up => neg = false ∧ f ≠ 0
  | .down => neg = true ∧ f ≠ 0

instance (mode : Mode) (neg : Bool) (f : ℚ) : Decidable (Carries mode neg f) := by
  unfold Carries
  cases mode <;> infer_instance

/-- A magnitude with a sign. -/
def signedInt (neg : Bool) (n : ℤ) : ℤ := if neg then -n else n

theorem floor_add_frac (n : ℕ) {f : ℚ} (h0 : 0 ≤ f) (h1 : f < 1) : ⌊(n : ℚ) + f⌋ = n := by
  rw [Int.floor_eq_iff]
  push_cast
  constructor <;> linarith

theorem ceil_add_frac (n : ℕ) {f : ℚ} (h0 : 0 ≤ f) (h1 : f < 1) :
    ⌈(n : ℚ) + f⌉ = n + if f ≠ 0 then 1 else 0 := by
  rw [Int.ceil_eq_iff]
  by_cases hf : f = 0
  · simp [hf]
  · have : 0 < f := h0.lt_of_ne' hf
    rw [if_pos hf]
    push_cast
    constructor <;> linarith

theorem floor_add_half (n : ℕ) {f : ℚ} (h0 : 0 ≤ f) (h1 : f < 1) :
    ⌊(n : ℚ) + f + 1 / 2⌋ = n + if 1 / 2 ≤ f then 1 else 0 := by
  rw [Int.floor_eq_iff]
  split <;> push_cast <;> constructor <;> linarith

theorem roundInt_signed (mode : Mode) (neg : Bool) {n : ℕ} {f : ℚ} (h0 : 0 ≤ f) (h1 : f < 1) :
    roundInt mode (signed neg (n + f)) =
      signedInt neg (n + if Carries mode neg f then 1 else 0) := by
  have hn : (0 : ℚ) ≤ n := Nat.cast_nonneg n
  have hfloor := floor_add_frac n h0 h1
  have hceil := ceil_add_frac n h0 h1
  have hhalf := floor_add_half n h0 h1
  have hpos : ¬ (n : ℚ) + f < 0 := not_lt.mpr (by linarith)
  cases neg with
  | false =>
    simp only [signed, signedInt, Bool.false_eq_true, if_false]
    cases mode <;> simp only [roundInt, Carries, if_neg hpos, hfloor, hceil, hhalf] <;> simp
  | true =>
    simp only [signed, signedInt, if_true]
    cases mode with
    | near =>
      simp only [roundInt, Carries, neg_neg, hhalf]
      by_cases hz : -((n : ℚ) + f) < 0
      · rw [if_pos hz]
      · have hf : f = 0 := by linarith
        have hn0 : n = 0 := by
          have : (n : ℚ) = 0 := by linarith
          exact_mod_cast this
        subst hf hn0
        norm_num
    | zero =>
      simp only [roundInt, Carries, Int.ceil_neg, hfloor]
      by_cases hz : -((n : ℚ) + f) < 0
      · rw [if_pos hz]
        simp
      · have hf : f = 0 := by linarith
        have hn0 : n = 0 := by
          have : (n : ℚ) = 0 := by linarith
          exact_mod_cast this
        subst hf hn0
        norm_num
    | up =>
      simp only [roundInt, Int.ceil_neg, hfloor]
      simp [Carries]
    | down =>
      simp only [roundInt, Int.floor_neg, hceil]
      simp [Carries]

theorem and_mask_ne_zero (m : BitVec 64) {k : Nat} (hk : k < 64) :
    m &&& (BitVec.twoPow 64 k - 1) ≠ 0 ↔ m.toNat % 2 ^ k ≠ 0 := by
  have hlt : 2 ^ k < 2 ^ 64 := Nat.pow_lt_pow_right (by omega) hk
  have hpos : 0 < 2 ^ k := Nat.two_pow_pos k
  have hmask : BitVec.twoPow 64 k - 1 = BitVec.ofNat 64 (2 ^ k - 1) := by
    apply BitVec.eq_of_toNat_eq
    rw [BitVec.toNat_sub, BitVec.toNat_twoPow, BitVec.toNat_ofNat, Nat.mod_eq_of_lt hlt,
      show (1 : BitVec 64).toNat = 1 from rfl]
    omega
  rw [hmask, ne_eq, ← BitVec.toNat_inj, Word.toNat_and_low m k hk.le]
  rfl

theorem and_half_ne_zero (m : BitVec 64) {k : Nat} (hk : 0 < k) :
    m &&& BitVec.twoPow 64 (k - 1) ≠ 0 ↔ 2 ^ k ≤ 2 * (m.toNat % 2 ^ k) := by
  rw [← bne_iff_ne, Word.and_twoPow_bne, BitVec.getLsbD, Nat.testBit_eq_decide_div_mod_eq,
    decide_eq_true_eq]
  obtain ⟨j, rfl⟩ := Nat.exists_eq_succ_of_ne_zero hk.ne'
  rw [Nat.succ_sub_one, pow_succ]
  have hpos : 0 < 2 ^ j := Nat.two_pow_pos j
  generalize m.toNat = n
  have h1 : n / 2 ^ j % 2 = n % (2 ^ j * 2) / 2 ^ j := by
    rw [Nat.mod_mul_right_div_self]
  have h2 : n % (2 ^ j * 2) / 2 ^ j < 2 := by
    refine Nat.div_lt_of_lt_mul ?_
    exact Nat.mod_lt _ (by omega)
  have h3 := Nat.le_div_iff_mul_le (x := 1) (y := n % (2 ^ j * 2)) hpos
  omega

theorem setWidth_signed (neg : Bool) (m : BitVec 64) :
    (if neg = true then (-m).setWidth 32 else m.setWidth 32) =
      BitVec.ofInt 32 (signedInt neg m.toNat) := by
  have hm : m.setWidth 32 = BitVec.ofInt 32 m.toNat := by
    rw [BitVec.ofInt_natCast, BitVec.ofNat_toNat]
  cases neg with
  | false => exact hm
  | true =>
    simp only [if_true, signedInt]
    rw [BitVec.setWidth_neg_of_le (by omega), hm, BitVec.ofInt_neg]

section
variable (fpscr : Uint32) {u : PpcDouble} {neg : Bool}

theorem carry_bit {m : BitVec 64} {k : Nat} (hk : 0 < k) (hk' : k < 64) (hs : u.s = signField neg) :
    (match fpscrRn fpscr with
      | .near =>
        if m &&& (BitVec.twoPow 64 k - 1) ≠ 0 ∧ m &&& BitVec.twoPow 64 (k - 1) ≠ 0 then 1 else 0
      | .zero => 0
      | .up => if ¬u.s ≠ 0 ∧ m &&& (BitVec.twoPow 64 k - 1) ≠ 0 then 1 else 0
      | .down => if u.s ≠ 0 ∧ m &&& (BitVec.twoPow 64 k - 1) ≠ 0 then 1 else 0 : BitVec 64) =
      if Carries (fpscrRn fpscr) neg ((m.toNat % 2 ^ k : Nat) / 2 ^ k) then 1 else 0 := by
  have hpos : (0 : ℚ) < 2 ^ k := by positivity
  have hfrac : ((m.toNat % 2 ^ k : Nat) : ℚ) / 2 ^ k ≠ 0 ↔ m.toNat % 2 ^ k ≠ 0 := by
    rw [ne_eq, div_eq_zero_iff, Nat.cast_eq_zero]
    simp
  have hhalf : 1 / 2 ≤ ((m.toNat % 2 ^ k : Nat) : ℚ) / 2 ^ k ↔ 2 ^ k ≤ 2 * (m.toNat % 2 ^ k) := by
    rw [div_le_div_iff₀ (by norm_num) hpos, one_mul, mul_comm]
    exact_mod_cast Iff.rfl
  have hnz : 2 ^ k ≤ 2 * (m.toNat % 2 ^ k) → m.toNat % 2 ^ k ≠ 0 := by
    have := Nat.two_pow_pos k
    omega
  cases fpscrRn fpscr with
  | near =>
    simp only [and_mask_ne_zero m hk', and_half_ne_zero m hk, Carries, hhalf]
    by_cases h : 2 ^ k ≤ 2 * (m.toNat % 2 ^ k)
    · rw [if_pos ⟨hnz h, h⟩, if_pos h]
    · rw [if_neg fun h' => h h'.2, if_neg h]
  | zero => simp [Carries]
  | up =>
    simp only [and_mask_ne_zero m hk', Carries, hs, signField_ne_zero, hfrac, Bool.not_eq_true]
  | down => simp only [and_mask_ne_zero m hk', Carries, hs, signField_ne_zero, hfrac]

theorem carried_word {m i : BitVec 64} {k : Nat} {c : Prop} [Decidable c]
    (hi : i = if c then 1 else 0) (h : m.toNat / 2 ^ k < 2 ^ 31) :
    (if neg = true then (-((m >>> k) + i)).setWidth 32 else ((m >>> k) + i).setWidth 32) =
      BitVec.ofInt 32 (signedInt neg ((m.toNat / 2 ^ k : Nat) + if c then 1 else 0)) := by
  rw [setWidth_signed, hi]
  congr 2
  rw [BitVec.toNat_add, BitVec.toNat_ushiftRight, Nat.shiftRight_eq_div_pow]
  generalize m.toNat / 2 ^ k = q at h
  split
  · rw [show (1 : BitVec 64).toNat = 1 from rfl]
    omega
  · rw [show (0 : BitVec 64).toNat = 0 from rfl]
    omega

/-- A number that fits is rounded; one from `2 ^ 31` on becomes the bound on its side. -/
theorem ppcFpuDoubleToInt_norm (ht : u.type = .norm) (hs : u.s = signField neg)
    (hv : 0 < u.value) (hsmall : u.e < 0 → u.value < 1 ∧ (u.e < -1 ↔ u.value < 1 / 2))
    (hbig : 0 ≤ u.e → Normal u) :
    ppcFpuDoubleToInt fpscr u =
      BitVec.ofInt 32 (if 31 ≤ u.e then if neg then -2 ^ 31 else 2 ^ 31 - 1
        else roundInt (fpscrRn fpscr) (signed neg u.value)) := by
  rw [ppcFpuDoubleToInt, ht]
  rcases lt_or_ge u.e 0 with he | he
  · obtain ⟨h1, h2⟩ := hsmall he
    have hround := roundInt_signed (fpscrRn fpscr) neg (n := 0) hv.le h1
    rw [Nat.cast_zero, zero_add] at hround
    rw [if_pos he, if_neg (show ¬31 ≤ u.e by omega), hround]
    simp only [hs, signField_ne_zero, h2, Carries, hv.ne', ne_eq, not_false_eq_true, and_true]
    cases fpscrRn fpscr with
    | near =>
      rcases lt_or_ge u.value (1 / 2) with h | h
      · have h' := not_le.mpr h
        simp only [h, h', if_true, if_false]
        cases neg <;> rfl
      · have h' := not_lt.mpr h
        simp only [h, h', if_true, if_false]
        cases neg <;> rfl
    | zero => cases neg <;> rfl
    | up => cases neg <;> simp [signedInt, hv.ne']
    | down => cases neg <;> simp [signedInt, hv.ne']
  · rw [if_neg (not_lt.mpr he)]
    rcases le_or_gt 31 u.e with h31 | h31
    · rw [if_pos h31, if_pos h31]
      simp only [hs, signField_ne_zero]
      cases neg <;> rfl
    · rw [if_neg (not_le.mpr h31), if_neg (not_le.mpr h31)]
      obtain ⟨-, hlo, hhi⟩ := hbig he
      obtain ⟨k, hk⟩ : ∃ k : Nat, u.e = 55 - k ∧ 25 ≤ k ∧ k ≤ 55 := ⟨(55 - u.e).toNat, by omega⟩
      have hshift : (56 - u.e - 1).toNat = k := by omega
      have hval : u.value = (u.m.toNat / 2 ^ k : Nat) + ((u.m.toNat % 2 ^ k : Nat) : ℚ) / 2 ^ k := by
        have hsplit : ((2 ^ k * (u.m.toNat / 2 ^ k) + u.m.toNat % 2 ^ k : Nat) : ℚ) = u.m.toNat := by
          rw [Nat.div_add_mod]
        rw [PpcDouble.value, ← hsplit, hk.1, show (55 - (k : ℤ) - 55) = -k by ring, zpow_neg,
          zpow_natCast]
        push_cast
        field_simp
      have hpos : (0 : ℚ) < 2 ^ k := by positivity
      have hlt : ((u.m.toNat % 2 ^ k : Nat) : ℚ) / 2 ^ k < 1 := by
        rw [div_lt_one hpos]
        exact_mod_cast Nat.mod_lt _ (Nat.two_pow_pos k)
      rw [hval, roundInt_signed (fpscrRn fpscr) neg (by positivity) hlt]
      have hq : u.m.toNat / 2 ^ k < 2 ^ 31 := by
        refine Nat.div_lt_of_lt_mul (hhi.trans_le ?_)
        calc 2 ^ 56 = 2 ^ 25 * 2 ^ 31 := by norm_num
          _ ≤ 2 ^ k * 2 ^ 31 := Nat.mul_le_mul_right _ (Nat.pow_le_pow_right (by omega) hk.2.1)
      have hcarry := carry_bit fpscr (m := u.m) (k := k) (by omega) (by omega) hs
      simp only [hs, signField_ne_zero] at hcarry
      simp only [hshift, hs, signField_ne_zero]
      exact carried_word hcarry hq

end

theorem unpack_small {d : BitVec 64} (h0 : 0 < mag64 d) (hfin : mag64 d < inf64) :
    ((ppcFpuUnpackDouble d).e < 0 → (ppcFpuUnpackDouble d).value < 1 ∧
        ((ppcFpuUnpackDouble d).e < -1 ↔ (ppcFpuUnpackDouble d).value < 1 / 2)) ∧
      (0 ≤ (ppcFpuUnpackDouble d).e → Normal (ppcFpuUnpackDouble d)) ∧
      (31 ≤ (ppcFpuUnpackDouble d).e ↔ 2 ^ 31 ≤ (ppcFpuUnpackDouble d).value) := by
  obtain ⟨-, -, hv⟩ := unpack_value h0 hfin
  have hdec : ∀ b : Nat, (b + 1) * 2 ^ 52 ≤ mag64 d ↔
      (2 : ℚ) ^ ((-1022 : ℤ) + b) ≤ binary64.decode (mag64 d) := by
    intro b
    constructor
    · intro h
      exact Format.le_decode (F := binary64) h
    · intro h
      by_contra hlt
      exact absurd h (not_le.mpr (Format.decode_lt (F := binary64) (not_le.mp hlt)))
  have h1 : 1022 * 2 ^ 52 ≤ mag64 d ↔ (1 / 2 : ℚ) ≤ binary64.decode (mag64 d) := by
    have := hdec 1021
    norm_num at this ⊢
    exact this
  have h2 : 1023 * 2 ^ 52 ≤ mag64 d ↔ (1 : ℚ) ≤ binary64.decode (mag64 d) := by
    have := hdec 1022
    norm_num at this ⊢
    exact this
  have h3 : 1054 * 2 ^ 52 ≤ mag64 d ↔ (2 ^ 31 : ℚ) ≤ binary64.decode (mag64 d) := by
    have := hdec 1053
    norm_num at this ⊢
    exact this
  rw [hv, ← not_le (a := (1 : ℚ)), ← not_le (a := (1 / 2 : ℚ)), ← h1, ← h2, ← h3]
  rcases Nat.lt_or_ge (mag64 d) (2 ^ 52) with hlt | hge
  · have hlog : (mag64 d).log2 < 52 := (Nat.log2_lt h0.ne').mpr hlt
    have he : (ppcFpuUnpackDouble d).e = (mag64 d).log2 - 1077 := by rw [unpack_denormal h0 hlt]
    rw [he]
    exact ⟨fun _ => ⟨by omega, by omega⟩, fun h => by omega, by omega⟩
  · have he : (ppcFpuUnpackDouble d).e = (mag64 d / 2 ^ 52 : Nat) - 1023 := by
      rw [unpack_normal hge hfin]
    rw [he]
    exact ⟨fun _ => ⟨by omega, by omega⟩, fun _ => (unpack_plain hge hfin).1, by omega⟩

/-- What a conversion to a word gives: an infinity and a NaN become the bound on their side. -/
def wordOf (mode : Mode) (d : BitVec 64) : ℤ :=
  if inf64 ≤ mag64 d then if d.msb then -2 ^ 31 else 2 ^ 31 - 1
  else max (-2 ^ 31) (min (2 ^ 31 - 1) (roundInt mode (value64 d)))

/-- A value below `2 ^ 31` that the mode takes there. -/
def CarriesOut (mode : Mode) (d : BitVec 64) : Prop :=
  mag64 d < inf64 ∧ value64 d < 2 ^ 31 ∧ roundInt mode (value64 d) = 2 ^ 31

theorem roundInt_le (mode : Mode) {x : ℚ} {n : ℤ} (h : x ≤ n) : roundInt mode x ≤ n := by
  have hceil : ⌈x⌉ ≤ n := Int.ceil_le.mpr h
  have hfloor := (Int.floor_le_ceil x).trans hceil
  cases mode with
  | near =>
    rw [roundInt]
    split
    · have : -n ≤ ⌊-x + 1 / 2⌋ := Int.le_floor.mpr (by push_cast; linarith)
      omega
    · have : ⌊x + 1 / 2⌋ < n + 1 := Int.floor_lt.mpr (by push_cast; linarith)
      omega
  | zero =>
    rw [roundInt]
    split
    · exact hceil
    · exact hfloor
  | up => exact hceil
  | down => exact hfloor

theorem le_roundInt (mode : Mode) {x : ℚ} {n : ℤ} (h : n ≤ x) : n ≤ roundInt mode x := by
  have hfloor : n ≤ ⌊x⌋ := Int.le_floor.mpr h
  have hceil := hfloor.trans (Int.floor_le_ceil x)
  cases mode with
  | near =>
    rw [roundInt]
    split
    · have : ⌊-x + 1 / 2⌋ < -n + 1 := Int.floor_lt.mpr (by push_cast; linarith)
      omega
    · exact Int.le_floor.mpr (by linarith)
  | zero =>
    rw [roundInt]
    split
    · exact hceil
    · exact hfloor
  | up => exact hceil
  | down => exact hfloor

theorem clamp_large {mode : Mode} {neg : Bool} {x : ℚ} (h : 2 ^ 31 ≤ x) :
    max (-2 ^ 31) (min (2 ^ 31 - 1) (roundInt mode (signed neg x))) =
      if neg then -2 ^ 31 else 2 ^ 31 - 1 := by
  cases neg with
  | false =>
    have := le_roundInt mode (x := x) (n := 2 ^ 31) (by exact_mod_cast h)
    simp only [signed, Bool.false_eq_true, if_false]
    omega
  | true =>
    have hle : -x ≤ ((-2 ^ 31 : ℤ) : ℚ) := by push_cast; linarith
    have := roundInt_le mode hle
    simp only [signed, if_true]
    omega

theorem roundInt_small (mode : Mode) (neg : Bool) {x : ℚ} (h0 : 0 < x) (h : x < 2 ^ 31) :
    -2 ^ 31 ≤ roundInt mode (signed neg x) ∧ roundInt mode (signed neg x) ≤ 2 ^ 31 := by
  have hlo : ((-2 ^ 31 : ℤ) : ℚ) ≤ signed neg x := by
    rw [signed]
    split <;> push_cast <;> linarith
  have hhi : signed neg x ≤ ((2 ^ 31 : ℤ) : ℚ) := by
    rw [signed]
    split <;> push_cast <;> linarith
  exact ⟨le_roundInt mode hlo, roundInt_le mode hhi⟩

/-- A number that does not carry out of a word, or is too large for one. -/
theorem wordOf_norm {mode : Mode} {d : BitVec 64} (h0 : 0 < mag64 d) (hfin : mag64 d < inf64)
    (hc : ¬CarriesOut mode d) :
    (if 31 ≤ (ppcFpuUnpackDouble d).e then if d.msb then -2 ^ 31 else 2 ^ 31 - 1
      else roundInt mode (signed d.msb (ppcFpuUnpackDouble d).value)) = wordOf mode d := by
  obtain ⟨-, -, hv⟩ := unpack_value h0 hfin
  obtain ⟨-, -, h31⟩ := unpack_small h0 hfin
  have hpos : 0 < (ppcFpuUnpackDouble d).value := by
    rw [hv]
    exact (Format.decode_nonneg _).lt_of_ne' (Format.decode_eq_zero_iff.not.mpr h0.ne')
  have hval : value64 d = signed d.msb (ppcFpuUnpackDouble d).value := by rw [hv]; rfl
  rw [wordOf, if_neg (not_le.mpr hfin), hval]
  by_cases hlarge : 31 ≤ (ppcFpuUnpackDouble d).e
  · rw [if_pos hlarge, clamp_large (h31.mp hlarge)]
  · have hlt := not_le.mp (h31.not.mp hlarge)
    obtain ⟨h1, h2⟩ := roundInt_small mode d.msb hpos hlt
    have hne : roundInt mode (signed d.msb (ppcFpuUnpackDouble d).value) ≠ 2 ^ 31 := by
      intro heq
      refine hc ⟨hfin, ?_, by rw [hval, heq]⟩
      rw [hval, signed]
      split <;> linarith
    rw [if_neg hlarge]
    omega

/-- The conversion gives the value rounded by the mode and cut off at the bounds of a word; a
value below `2 ^ 31` that is rounded up to it wraps to the other bound. -/
theorem ppcFpuDoubleToInt_value (fpscr : Uint32) (d : BitVec 64) :
    (CarriesOut (fpscrRn fpscr) d →
        ppcFpuDoubleToInt fpscr (ppcFpuUnpackDouble d) = BitVec.intMin 32) ∧
      (¬CarriesOut (fpscrRn fpscr) d → ppcFpuDoubleToInt fpscr (ppcFpuUnpackDouble d) =
        BitVec.ofInt 32 (wordOf (fpscrRn fpscr) d)) := by
  rcases Nat.lt_or_ge (mag64 d) inf64 with hfin | hinf
  · rcases Nat.eq_zero_or_pos (mag64 d) with h0 | h0
    · have hround : roundInt (fpscrRn fpscr) (value64 d) = 0 := by
        rw [value64_eq_zero (Format.decode_eq_zero_iff.mpr h0)]
        exact le_antisymm (roundInt_le _ (by simp)) (le_roundInt _ (by simp))
      refine ⟨fun h => absurd h.2.2 (by rw [hround]; norm_num), fun _ => ?_⟩
      rw [wordOf, if_neg (not_le.mpr hfin), hround, unpack_zero h0]
      rfl
    · obtain ⟨ht, hs, hv⟩ := unpack_value h0 hfin
      obtain ⟨hsmall, hbig, h31⟩ := unpack_small h0 hfin
      have hpos : 0 < (ppcFpuUnpackDouble d).value := by
        rw [hv]
        exact (Format.decode_nonneg _).lt_of_ne' (Format.decode_eq_zero_iff.not.mpr h0.ne')
      rw [ppcFpuDoubleToInt_norm fpscr ht hs hpos hsmall hbig]
      refine ⟨fun h => ?_, fun h => by rw [wordOf_norm h0 hfin h]⟩
      have hval : value64 d = signed d.msb (ppcFpuUnpackDouble d).value := by rw [hv]; rfl
      -- a carry out of the word comes from a positive number below the bound
      have hsmall : ¬31 ≤ (ppcFpuUnpackDouble d).e := by
        rw [h31, not_le]
        obtain ⟨-, hlt, hround⟩ := h
        rw [hval] at hlt hround
        cases hneg : d.msb with
        | false => rwa [hneg] at hlt
        | true =>
          rw [hneg] at hround
          have := roundInt_le (fpscrRn fpscr) (n := 0)
            (show signed true (ppcFpuUnpackDouble d).value ≤ ((0 : ℤ) : ℚ) by
              rw [signed, if_pos rfl]
              push_cast
              linarith)
          omega
      rw [if_neg hsmall, ← hval, h.2.2]
      rfl
  · refine ⟨fun h => absurd h.1 (not_lt.mpr hinf), fun _ => ?_⟩
    rw [wordOf, if_pos hinf, ppcFpuDoubleToInt]
    rcases hinf.lt_or_eq with hlt | heq
    · rw [(unpack_nan hlt).1, (unpack_nan hlt).2]
      simp only [signField_ne_zero]
      cases d.msb <;> rfl
    · rw [unpack_inf heq.symm]
      simp only [signField_ne_zero]
      cases d.msb <;> rfl

theorem not_carriesOut_zero (d : BitVec 64) : ¬CarriesOut .zero d := by
  rintro ⟨-, hlt, hround⟩
  rw [roundInt] at hround
  split at hround
  · rename_i hneg
    have : ⌈value64 d⌉ ≤ 0 := Int.ceil_le.mpr (by push_cast; exact hneg.le)
    omega
  · have : ⌊value64 d⌋ < 2 ^ 31 := Int.floor_lt.mpr (by exact_mod_cast hlt)
    omega

/-- `fctiw` and `fctiwz` put the word behind zeros. With a carry out of the word `fctiw` gives the
least number; `fctiwz` never has one, and cuts off in every mode. -/
theorem fctiw_words {M : Type} (s : FpuCore M) :
    (CarriesOut (fpscrRn s.fpscr) s.opB →
        s.result s.ppcOpcFctiwx = (BitVec.intMin 32).setWidth 64) ∧
      (¬CarriesOut (fpscrRn s.fpscr) s.opB →
        s.result s.ppcOpcFctiwx =
          (BitVec.ofInt 32 (wordOf (fpscrRn s.fpscr) s.opB)).setWidth 64) ∧
      s.result s.ppcOpcFctiwzx = (BitVec.ofInt 32 (wordOf .zero s.opB)).setWidth 64 := by
  have hset : ∀ v, s.result (s.setFrD v) = v := fun v => Function.update_self ..
  have hmode : fpscrRn ((s.fpscr &&& ~~~(3 : Uint32)) ||| 1) = .zero := by
    have h3 : ((s.fpscr &&& ~~~(3 : Uint32)) ||| 1) &&& 3 = 1 := by
      rw [BitVec.and_or_distrib_right, BitVec.and_assoc]
      simp
    rw [fpscrRn, h3]
    rfl
  obtain ⟨h1, h2⟩ := ppcFpuDoubleToInt_value s.fpscr s.opB
  have h3 := (ppcFpuDoubleToInt_value ((s.fpscr &&& ~~~(3 : Uint32)) ||| 1) s.opB).2
  rw [hmode] at h3
  rw [FpuCore.ppcOpcFctiwx, FpuCore.ppcOpcFctiwzx, hset, hset, FpuCore.frB]
  exact ⟨fun h => by rw [h1 h], fun h => by rw [h2 h], by rw [h3 (not_carriesOut_zero _)]⟩

end SkyEye.Ppc.Fpu
