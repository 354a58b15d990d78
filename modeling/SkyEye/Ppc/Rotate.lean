import SkyEye.Ppc.Carry

/-!
# Rotates and shifts

The rotate-and-mask instructions and the shifts of `ppc_alu.c`. A mask is made with shifts of
32-bit words, and a shift by 32 is one by 0 (`shl`, `shr`); a mask that begins one bit after
its end is the one that comes out wrong (`ppcMask_bits`, `ppcMask_gap`).
-/

namespace SkyEye.Ppc

open Sparc (Uint32)

namespace Rotate

/-- `x << n` on the host. -/
def shl (x : Uint32) (n : Nat) : Uint32 := x <<< (n % 32)

/-- `x >> n` on the host. -/
def shr (x : Uint32) (n : Nat) : Uint32 := x >>> (n % 32)

def ppcWordRotl (data : Uint32) (n : Nat) : Uint32 :=
  let n := n % 32
  shl data n ||| shr data (32 - n)

def ppcMask (mb me : Nat) : Uint32 :=
  if mb ≤ me then
    if me - mb = 31 then 0xFFFFFFFF
    else shl (shl 1 (me - mb + 1) - 1) (31 - me)
  else ppcWordRotl (shl 1 (32 - mb + me + 1) - 1) (31 - me)

/-- `SH`, `MB` and `ME` of `PPC_OPC_TEMPL_M`. -/
def sh (opc : Uint32) : Nat := ((opc >>> 11) &&& 0x1F).toNat
def mb (opc : Uint32) : Nat := ((opc >>> 6) &&& 0x1F).toNat
def me (opc : Uint32) : Nat := ((opc >>> 1) &&& 0x1F).toNat

section
variable {M : Type} (s : E500Core M)

def ppcOpcRlwimix : E500Core M :=
  let v := ppcWordRotl s.gprS (sh s.currentOpc)
  let mask := ppcMask (mb s.currentOpc) (me s.currentOpc)
  (s.setGpr (rA s.currentOpc) ((v &&& mask) ||| (s.gprA &&& ~~~mask))).recordRc (rA s.currentOpc)

def ppcOpcRlwinmx : E500Core M :=
  let v := ppcWordRotl s.gprS (sh s.currentOpc)
  let mask := ppcMask (mb s.currentOpc) (me s.currentOpc)
  (s.setGpr (rA s.currentOpc) (v &&& mask)).recordRc (rA s.currentOpc)

def ppcOpcRlwnmx : E500Core M :=
  let v := ppcWordRotl s.gprS s.gprB.toNat
  let mask := ppcMask (mb s.currentOpc) (me s.currentOpc)
  (s.setGpr (rA s.currentOpc) (v &&& mask)).recordRc (rA s.currentOpc)

def ppcOpcSlwx : E500Core M :=
  let n := (s.gprB &&& 0x3F).toNat
  (s.setGpr (rA s.currentOpc) (if n > 31 then 0 else shl s.gprS n)).recordRc (rA s.currentOpc)

def ppcOpcSrwx : E500Core M :=
  let v := (s.gprB &&& 0x3F).toNat
  (s.setGpr (rA s.currentOpc) (if v > 31 then 0 else shr s.gprS v)).recordRc (rA s.currentOpc)

/-- The loop for a negative source, over `gpr[rA]` and `ca`. -/
def srawLoop (rA : Nat) : Nat → E500Core M × Bool → E500Core M × Bool
  | 0, p => p
  | i + 1, (s, ca) =>
    let ca := ca || s.gpr rA &&& 1 != 0
    let s := s.setGpr rA (s.gpr rA >>> 1)
    srawLoop rA i (s.setGpr rA (s.gpr rA ||| 0x80000000), ca)

/-- What `ppc_opc_srawx` and `ppc_opc_srawix` do once they have their count. -/
def sraw (count : Nat) : E500Core M :=
  let r := rA s.currentOpc
  let s := s.setGpr r s.gprS
  let s := { s with xer := s.xer &&& ~~~xerCa }
  let s :=
    if s.gpr r &&& 0x80000000 ≠ 0 then
      let (s, ca) := srawLoop r count (s, false)
      if ca then { s with xer := s.xer ||| xerCa } else s
    else if count > 31 then s.setGpr r 0
    else s.setGpr r (shr (s.gpr r) count)
  s.recordRc r

def ppcOpcSrawx : E500Core M := sraw s (s.gprB &&& 0x3F).toNat

def ppcOpcSrawix : E500Core M := sraw s (sh s.currentOpc)

end

/-! ## What the architecture says -/

/-- Position `p`, counted from the most significant bit, is one of `mb` through `me`, round
the word. -/
def InMask (mb me p : Nat) : Prop := (p + 32 - mb) % 32 ≤ (me + 32 - mb) % 32

instance (mb me p : Nat) : Decidable (InMask mb me p) := by unfold InMask; infer_instance

/-- Ones at `mb` through `me` and nowhere else. -/
def IsMask (mb me : Nat) (mask : Uint32) : Prop :=
  ∀ p < 32, mask.getMsbD p = decide (InMask mb me p)

instance (mb me : Nat) (mask : Uint32) : Decidable (IsMask mb me mask) := by
  unfold IsMask; infer_instance

/-- The mask of the instruction is right, and the rotates go by it. -/
structure RotatesRight {M : Type} (s : E500Core M) : Prop where
  mask : IsMask (mb s.currentOpc) (me s.currentOpc) (ppcMask (mb s.currentOpc) (me s.currentOpc))
  rlwimi : ∀ m, IsMask (mb s.currentOpc) (me s.currentOpc) m →
    ppcOpcRlwimix s = (s.setGpr (rA s.currentOpc)
      ((s.gprS.rotateLeft (sh s.currentOpc) &&& m) ||| (s.gprA &&& ~~~m))).recordRc
        (rA s.currentOpc)
  rlwinm : ∀ m, IsMask (mb s.currentOpc) (me s.currentOpc) m →
    ppcOpcRlwinmx s = (s.setGpr (rA s.currentOpc)
      (s.gprS.rotateLeft (sh s.currentOpc) &&& m)).recordRc (rA s.currentOpc)
  rlwnm : ∀ m, IsMask (mb s.currentOpc) (me s.currentOpc) m →
    ppcOpcRlwnmx s = (s.setGpr (rA s.currentOpc)
      (s.gprS.rotateLeft s.gprB.toNat &&& m)).recordRc (rA s.currentOpc)

/-- Some bit below `n` is set. -/
def ShiftsOutOne (v : Uint32) (n : Nat) : Prop := ∃ i < n, v.getLsbD i = true

instance (v : Uint32) (n : Nat) : Decidable (ShiftsOutOne v n) := by
  unfold ShiftsOutOne; infer_instance

/-- An algebraic shift by `n`, with its carry. -/
def algebraicShift {M : Type} (s : E500Core M) (n : Nat) : E500Core M :=
  ((s.setGpr (rA s.currentOpc) (s.gprS.sshiftRight n)).setCa
    (s.gprS.msb && decide (ShiftsOutOne s.gprS n))).recordRc (rA s.currentOpc)

/-- The shifts take their count from the low six bits of `rB`, or from the instruction. -/
structure ShiftsRight {M : Type} (s : E500Core M) : Prop where
  slw : ppcOpcSlwx s = (s.setGpr (rA s.currentOpc)
    (if s.gprB.toNat % 64 < 32 then s.gprS <<< (s.gprB.toNat % 64) else 0)).recordRc
      (rA s.currentOpc)
  srw : ppcOpcSrwx s = (s.setGpr (rA s.currentOpc)
    (if s.gprB.toNat % 64 < 32 then s.gprS >>> (s.gprB.toNat % 64) else 0)).recordRc
      (rA s.currentOpc)
  sraw : ppcOpcSrawx s = algebraicShift s (s.gprB.toNat % 64)
  srawi : ppcOpcSrawix s = algebraicShift s (sh s.currentOpc)

/-! ## Rotates and masks, bit by bit -/

theorem getLsbD_ones {k : Nat} (hk : k < 32) (i : Nat) :
    (shl 1 k - 1).getLsbD i = decide (i < k) := by
  have hpow : 2 ^ k < 2 ^ 32 := Nat.pow_lt_pow_right (by omega) hk
  have hpos : 0 < 2 ^ k := Nat.two_pow_pos k
  have hnat : (shl 1 k - 1).toNat = 2 ^ k - 1 := by
    have h1 : (shl 1 k).toNat = 2 ^ k := by
      rw [shl, Nat.mod_eq_of_lt hk, BitVec.toNat_shiftLeft, Nat.shiftLeft_eq]
      show 1 * 2 ^ k % 2 ^ 32 = 2 ^ k
      rw [Nat.one_mul, Nat.mod_eq_of_lt hpow]
    have hone : (1 : Uint32).toNat = 1 := rfl
    rw [BitVec.toNat_sub, h1, hone]
    omega
  rw [BitVec.getLsbD, hnat, Nat.testBit_two_pow_sub_one]

theorem getLsbD_ppcWordRotl (data : Uint32) (n : Nat) {i : Nat} (hi : i < 32) :
    (ppcWordRotl data n).getLsbD i = data.getLsbD ((i + 32 - n % 32) % 32) := by
  have hn : n % 32 < 32 := Nat.mod_lt _ (by omega)
  simp only [ppcWordRotl, shl, shr, BitVec.getLsbD_or, BitVec.getLsbD_shiftLeft,
    BitVec.getLsbD_ushiftRight, Nat.mod_mod, hi, decide_true, Bool.true_and]
  rcases Nat.eq_zero_or_pos (n % 32) with h0 | hpos
  · simp [h0, Nat.mod_eq_of_lt hi]
  · rw [Nat.mod_eq_of_lt (by omega : 32 - n % 32 < 32)]
    by_cases hlt : i < n % 32
    · rw [show (i + 32 - n % 32) % 32 = 32 - n % 32 + i by omega]
      simp [hlt]
    · rw [show (i + 32 - n % 32) % 32 = i - n % 32 by omega,
        BitVec.getLsbD_of_ge data (32 - n % 32 + i) (by omega)]
      simp [hlt]

theorem ppcWordRotl_eq (data : Uint32) (n : Nat) : ppcWordRotl data n = data.rotateLeft n := by
  refine BitVec.eq_of_getLsbD_eq fun i hi => ?_
  have hn : n % 32 < 32 := Nat.mod_lt _ (by omega)
  rw [getLsbD_ppcWordRotl data n hi, BitVec.getLsbD_rotateLeft]
  by_cases hlt : i < n % 32
  · rw [decide_eq_true hlt, cond_true]
    congr 1
    omega
  · rw [decide_eq_false hlt, cond_false, decide_eq_true hi, Bool.true_and]
    congr 1
    omega

/-- The bits of the mask that `ppc_mask` makes. -/
theorem ppcMask_bits {mb me : Nat} (hmb : mb < 32) (hme : me < 32) (h : mb ≠ me + 1) :
    IsMask mb me (ppcMask mb me) := by
  intro p hp
  rw [BitVec.getMsbD_eq_getLsbD, decide_eq_true hp, Bool.true_and, Bool.eq_iff_iff,
    decide_eq_true_eq, InMask]
  unfold ppcMask
  split
  · split
    · have hones : (0xFFFFFFFF : Uint32) = BitVec.allOnes 32 := rfl
      rw [hones, BitVec.getLsbD_allOnes, decide_eq_true_eq]
      omega
    · rw [shl, BitVec.getLsbD_shiftLeft, Nat.mod_eq_of_lt (by omega : 31 - me < 32)]
      rw [getLsbD_ones (by omega)]
      simp only [Bool.and_eq_true, Bool.not_eq_true', decide_eq_true_eq, decide_eq_false_iff_not]
      omega
  · rw [getLsbD_ppcWordRotl _ _ (by omega), getLsbD_ones (by omega),
      decide_eq_true_eq]
    omega

/-- A mask that begins one bit after its end has no bit at all. -/
theorem ppcMask_gap {me : Nat} (hme : me < 31) : ppcMask (me + 1) me = 0 := by
  have h32 : 32 - (me + 1) + me + 1 = 32 := by omega
  have hzero : shl 1 32 - 1 = 0 := by decide
  rw [ppcMask, if_neg (by omega), h32, hzero]
  refine BitVec.eq_of_getLsbD_eq fun i hi => ?_
  rw [getLsbD_ppcWordRotl _ _ hi]
  exact (BitVec.getLsbD_zero).trans BitVec.getLsbD_zero.symm

theorem isMask_unique {mb me : Nat} {m m' : Uint32} (h : IsMask mb me m) (h' : IsMask mb me m') :
    m = m' :=
  BitVec.eq_of_getMsbD_eq fun p hp => (h p hp).trans (h' p hp).symm

theorem field_lt (x : Uint32) : (x &&& 0x1F).toNat < 32 := Word.toNat_and_low_lt x 5 (by decide)

/-- The low six bits of a count. -/
theorem count_eq (x : Uint32) : (x &&& 0x3F).toNat = x.toNat % 64 := by
  rw [BitVec.toNat_and]
  exact Nat.and_two_pow_sub_one_eq_mod x.toNat 6

/-! ## The algebraic shift, step by step -/

/-- A shift by one that puts the sign in again is an algebraic one. -/
theorem sshiftRight_one {v : Uint32} (h : v.msb = true) :
    v >>> 1 ||| 0x80000000 = v.sshiftRight 1 := by
  have hsign : (0x80000000 : Uint32) = BitVec.twoPow 32 31 := rfl
  refine BitVec.eq_of_getLsbD_eq fun i hi => ?_
  rw [hsign, BitVec.getLsbD_or, BitVec.getLsbD_ushiftRight, BitVec.getLsbD_twoPow,
    BitVec.getLsbD_sshiftRight, h]
  by_cases h31 : i = 31
  · subst h31
    simp
  · have hne : 31 ≠ i := fun he => h31 he.symm
    rw [decide_eq_false hne, Bool.and_false, Bool.or_false, decide_eq_false (by omega : ¬ 32 ≤ i),
      if_pos (by omega), Bool.not_false, Bool.true_and]

theorem msb_sshiftRight_one {v : Uint32} (h : v.msb = true) : (v.sshiftRight 1).msb = true := by
  rw [BitVec.msb_sshiftRight, h]

theorem sshiftRight_succ (v : Uint32) (k : Nat) :
    (v.sshiftRight 1).sshiftRight k = v.sshiftRight (k + 1) := by
  rw [← BitVec.sshiftRight_add, Nat.add_comm]

/-- What goes out over `k + 1` steps goes out at the first or over the others. -/
theorem shiftsOutOne_succ {v : Uint32} (h : v.msb = true) (k : Nat) :
    ShiftsOutOne v (k + 1) ↔ v.getLsbD 0 = true ∨ ShiftsOutOne (v.sshiftRight 1) k := by
  have hbit (j : Nat) (hj : j < 31) : (v.sshiftRight 1).getLsbD j = v.getLsbD (j + 1) := by
    rw [BitVec.getLsbD_sshiftRight, decide_eq_false (by omega : ¬ 32 ≤ j), if_pos (by omega),
      Bool.not_false, Bool.true_and, Nat.add_comm]
  constructor
  · rintro ⟨i, hi, hb⟩
    rcases Nat.eq_zero_or_pos i with rfl | hpos
    · exact .inl hb
    · have hlt : i < 32 := BitVec.lt_of_getLsbD hb
      refine .inr ⟨i - 1, by omega, ?_⟩
      rw [hbit (i - 1) (by omega), show i - 1 + 1 = i by omega, hb]
  · rintro (hb | ⟨j, hj, hb⟩)
    · exact ⟨0, by omega, hb⟩
    · by_cases h31 : j < 31
      · exact ⟨j + 1, by omega, hbit j h31 ▸ hb⟩
      · -- From the sign on, every step shifts out a one.
        exact ⟨31, by omega, h⟩

theorem and_not_or (x : Uint32) : x &&& ~~~xerCa ||| xerCa = x ||| xerCa := by
  refine BitVec.eq_of_getLsbD_eq fun i hi => ?_
  simp only [BitVec.getLsbD_or, BitVec.getLsbD_and, BitVec.getLsbD_not, decide_eq_true hi,
    Bool.true_and]
  cases x.getLsbD i <;> cases xerCa.getLsbD i <;> rfl

section
variable {M : Type} (s : E500Core M)

theorem setGpr_setGpr (r : Nat) (v w : Uint32) : (s.setGpr r v).setGpr r w = s.setGpr r w := by
  unfold E500Core.setGpr
  rw [Function.update_idem]

theorem gpr_setGpr (r : Nat) (v : Uint32) : (s.setGpr r v).gpr r = v := Function.update_self ..

theorem setGpr_gpr (r : Nat) : s.setGpr r (s.gpr r) = s := by
  unfold E500Core.setGpr
  rw [Function.update_eq_self]

theorem and_one_ne_zero (v : Uint32) : (v &&& 1 != 0) = v.getLsbD 0 := by
  have hone : (1 : Uint32) = BitVec.twoPow 32 0 := rfl
  rw [hone, Word.and_twoPow_bne]

theorem and_sign_ne_zero (v : Uint32) : v &&& 0x80000000 ≠ 0 ↔ v.msb = true := by
  have hsign : (0x80000000 : Uint32) = BitVec.twoPow 32 31 := rfl
  rw [hsign, ← bne_iff_ne, Word.and_twoPow_bne, BitVec.msb_eq_getLsbD_last]

/-- The loop shifts a negative word by its count and finds out whether a one went out. -/
theorem srawLoop_eq (r k : Nat) : ∀ (s : E500Core M) (c : Bool), (s.gpr r).msb = true →
    srawLoop r k (s, c) =
      (s.setGpr r ((s.gpr r).sshiftRight k), c || decide (ShiftsOutOne (s.gpr r) k)) := by
  induction k with
  | zero =>
    intro s c _
    have hno : ¬ ShiftsOutOne (s.gpr r) 0 := fun ⟨i, hi, _⟩ => absurd hi (by omega)
    rw [srawLoop, BitVec.sshiftRight_zero, setGpr_gpr, decide_eq_false hno, Bool.or_false]
  | succ k ih =>
    intro s c h
    have hstep : ((s.setGpr r (s.gpr r >>> 1)).setGpr r
        ((s.setGpr r (s.gpr r >>> 1)).gpr r ||| 0x80000000)) =
        s.setGpr r ((s.gpr r).sshiftRight 1) := by
      rw [setGpr_setGpr, gpr_setGpr, sshiftRight_one h]
    have hout : decide (ShiftsOutOne (s.gpr r) (k + 1)) =
        ((s.gpr r).getLsbD 0 || decide (ShiftsOutOne ((s.gpr r).sshiftRight 1) k)) := by
      rw [Bool.eq_iff_iff, decide_eq_true_eq, shiftsOutOne_succ h, Bool.or_eq_true,
        decide_eq_true_eq]
    have hmsb : ((s.setGpr r ((s.gpr r).sshiftRight 1)).gpr r).msb = true := by
      rw [gpr_setGpr]
      exact msb_sshiftRight_one h
    rw [srawLoop]
    show srawLoop r k (_, _) = _
    rw [hstep, ih _ _ hmsb, gpr_setGpr, setGpr_setGpr, sshiftRight_succ, hout, and_one_ne_zero,
      Bool.or_assoc]

/-- The algebraic shifts, for any count. -/
theorem sraw_eq (n : Nat) : sraw s n = algebraicShift s n := by
  unfold sraw algebraicShift
  simp only [gpr_setGpr]
  by_cases hneg : s.gprS.msb = true
  · rw [if_pos ((and_sign_ne_zero _).mpr hneg),
      srawLoop_eq _ _ _ _ (by rw [gpr_setGpr]; exact hneg)]
    simp only [gpr_setGpr, hneg, Bool.false_or, Bool.true_and]
    congr 1
    by_cases hout : ShiftsOutOne s.gprS n
    · simp only [hout, decide_true, if_true, E500Core.setCa, E500Core.setGpr,
        Function.update_idem]
      congr 1
      exact and_not_or s.xer
    · simp only [hout, decide_false, Bool.false_eq_true, if_false, E500Core.setCa,
        E500Core.setGpr, Function.update_idem]
  · rw [if_neg fun h => hneg ((and_sign_ne_zero _).mp h)]
    rw [Bool.not_eq_true] at hneg
    have hpos := BitVec.sshiftRight_eq_of_msb_false (s := n) hneg
    simp only [hneg, Bool.false_and]
    congr 1
    by_cases hn : n > 31
    · have hzero : s.gprS >>> n = 0 := BitVec.ushiftRight_eq_zero (by omega)
      simp only [hn, if_true, hpos, hzero, E500Core.setCa, Bool.false_eq_true, if_false,
        E500Core.setGpr, Function.update_idem]
    · have hmod : n % 32 = n := Nat.mod_eq_of_lt (by omega)
      simp only [hn, if_false, hpos, shr, hmod, E500Core.setCa, Bool.false_eq_true,
        E500Core.setGpr, Function.update_idem]

theorem shiftsRight : ShiftsRight s where
  slw := by
    simp only [ppcOpcSlwx, count_eq, shl]
    congr 2
    by_cases hn : s.gprB.toNat % 64 < 32
    · rw [if_neg (by omega), if_pos hn, Nat.mod_eq_of_lt hn]
    · rw [if_pos (by omega), if_neg hn]
  srw := by
    simp only [ppcOpcSrwx, count_eq, shr]
    congr 2
    by_cases hn : s.gprB.toNat % 64 < 32
    · rw [if_neg (by omega), if_pos hn, Nat.mod_eq_of_lt hn]
    · rw [if_pos (by omega), if_neg hn]
  sraw := by rw [ppcOpcSrawx, count_eq, sraw_eq]
  srawi := sraw_eq s _

/-- Rotates are right as soon as their mask is. -/
theorem rotatesRight_of_mask
    (h : IsMask (mb s.currentOpc) (me s.currentOpc)
      (ppcMask (mb s.currentOpc) (me s.currentOpc))) : RotatesRight s where
  mask := h
  rlwimi m hm := by rw [isMask_unique hm h, ← ppcWordRotl_eq]; rfl
  rlwinm m hm := by rw [isMask_unique hm h, ← ppcWordRotl_eq]; rfl
  rlwnm m hm := by rw [isMask_unique hm h, ← ppcWordRotl_eq]; rfl

theorem not_isMask_gap {mb me : Nat} (hmb : mb < 32) (h : mb = me + 1) :
    ¬ IsMask mb me (ppcMask mb me) := by
  subst h
  intro hmask
  have hp := hmask 0 (by omega)
  rw [ppcMask_gap (by omega), decide_eq_true (by unfold InMask; omega : InMask (me + 1) me 0)] at hp
  cases hp

/-- The rotates and shifts are the architecture's, but for the masks that should be all
ones because they begin right after their end. -/
theorem rotate_shift_iff :
    (RotatesRight s ∧ ShiftsRight s) ↔ mb s.currentOpc ≠ me s.currentOpc + 1 := by
  constructor
  · rintro ⟨hrotate, -⟩ hgap
    exact not_isMask_gap (field_lt _) hgap hrotate.mask
  · intro h
    exact ⟨rotatesRight_of_mask s (ppcMask_bits (field_lt _) (field_lt _) h), shiftsRight s⟩

end

/-- `rlwinm r3,r4,0,1,0`, with 5 in `r4`: the word should be copied and 0 is written. -/
theorem rlwinm_gap :
    let s : E500Core Unit := { onePage ⟨0, by decide⟩ with
      gpr := fun r => if r = 4 then 5 else 1
      currentOpc := 0x54830040 }
    (ppcOpcRlwinmx s).gpr 3 = 0 ∧ s.gprS.rotateLeft (sh s.currentOpc) = 5 ∧
      (∀ m, IsMask (mb s.currentOpc) (me s.currentOpc) m → m = 0xFFFFFFFF) ∧
      ¬ (RotatesRight s ∧ ShiftsRight s) := by
  intro s
  have hmb : mb s.currentOpc = 1 := by decide
  have hme : me s.currentOpc = 0 := by decide
  refine ⟨by decide, by decide, fun m hm => ?_, fun h => ?_⟩
  · rw [hmb, hme] at hm
    exact isMask_unique hm (by decide)
  · exact not_isMask_gap (by rw [hmb]; decide) (by rw [hmb, hme]) h.1.mask

end Rotate

end SkyEye.Ppc
