import SkyEye.ColdFire.Arith
import SkyEye.Lib.Word
import Mathlib.Logic.Function.Iterate

/-!
# Shifts

ASL and ASR of `i_asx.c`, which go bit by bit, and LSL and LSR of `i_lsx.c`, which use the
shifts of C. The results are those of the architecture for every count. The first leave C as it
was for a count of 0, and the others never clear V.
-/

namespace SkyEye.ColdFire

open Sparc (Uint32)

/-- The assignment of a bit of `SRBits`. -/
def setFlag (i : Nat) (c : Bool) (sr : Uint32) : Uint32 :=
  if c then sr ||| BitVec.twoPow 32 i else sr &&& ~~~BitVec.twoPow 32 i

/-- One turn of the loop of ASR. -/
def asrStep (p : Uint32 × Uint32) : Uint32 × Uint32 :=
  let sr := setFlag 4 (p.1.getLsbD 0) (setFlag 0 (p.1.getLsbD 0) p.2)
  let result := p.1 >>> 1
  (if result &&& 0x40000000 ≠ 0 then result ||| 0x80000000 else result, sr)

/-- One turn of the loop of ASL. -/
def aslStep (p : Uint32 × Uint32) : Uint32 × Uint32 :=
  let c := p.1 &&& 0x80000000 != 0
  (p.1 <<< 1, setFlag 4 c (setFlag 0 c p.2))

/-- `Result` and the status register of `i_asx.c`. -/
def asxResult (left : Bool) (count dvalue sr : Uint32) : Uint32 × Uint32 :=
  let p := if left then aslStep^[count.toNat] (dvalue, sr) else asrStep^[count.toNat] (dvalue, sr)
  (p.1, setFlag 1 false (setFlag 2 (p.1 == 0) (setFlag 3 (p.1.slt 0) p.2)))

/-- `Result` and the status register of `i_lsx.c`. -/
def lsxResult (left : Bool) (count dvalue sr : Uint32) : Uint32 × Uint32 :=
  let p : Uint32 × Uint32 :=
    if count = 0 then (dvalue, setFlag 0 false sr)
    else
      let lastBit : Uint32 :=
        if count ≤ 32 then
          if left then dvalue &&& (0x80000000 : Uint32) >>> (count - 1).toNat
          else dvalue &&& (1 : Uint32) <<< (count - 1).toNat
        else 0
      let result :=
        if count ≥ 32 then 0 else if left then dvalue <<< count.toNat else dvalue >>> count.toNat
      (result, setFlag 4 (lastBit != 0) (setFlag 0 (lastBit != 0) sr))
  (p.1, setFlag 2 (p.1 == 0) (setFlag 3 (p.1.slt 0) p.2))

namespace State

variable {δ : Type} (b : Board δ) (s : State δ)

/-- A data register as an operand, and its value. -/
def readD (n : Fin 8) : Option (Option (Address × Uint32) × State δ) := do
  let (ok, a, s) ← s.eaGetFromPc b 32 0 n
  if !ok then some (none, s)
  else
    let (_, v, s) ← s.eaGetValue b b.uninit a
    some (some (a, v), s)

/-- `SValue` -/
def shiftCount (code : Uint32) : Option (Option Uint32 × State δ) :=
  if !code.getLsbD 5 then
    let count := code >>> 9 &&& 7
    some (some (if count = 0 then 8 else count), s)
  else do
    let (source, s) ← s.readD b (bits3 code 9)
    some (source.map fun p => p.2 &&& 0x3F, s)

/-- `execute` with the shift `f`. -/
def executeShift (f : Bool → Uint32 → Uint32 → Uint32 → Uint32 × Uint32) : Option (State δ) := do
  let (_, code, s) ← s.memoryRetrFromPc b b.uninit 16
  let (count, s) ← s.shiftCount b code
  match count with
  | none => some s
  | some count =>
    let (destination, s) ← s.readD b (bits3 code 0)
    match destination with
    | none => some s
    | some (a, dvalue) =>
      let (result, sr) := f (code.getLsbD 8) count dvalue s.core.sr
      (s.setSr sr).eaPutValue b a result

/-- `execute` of `i_asx.c` and of `i_lsx.c`. -/
def executeAsx : Option (State δ) := s.executeShift b asxResult
def executeLsx : Option (State δ) := s.executeShift b lsxResult

end State

/-! ## The shifts of the architecture -/

/-- The kinds of shift. -/
inductive Shift where
  | asl
  | asr
  | lsl
  | lsr
  deriving DecidableEq

/-- The shifted value. -/
def Shift.value (k : Shift) (v : Uint32) (n : Nat) : Uint32 :=
  match k with
  | .asl => v <<< n
  | .asr => v.sshiftRight n
  | .lsl => v <<< n
  | .lsr => v >>> n

/-- The last bit that is shifted out, for a count from 1 on. -/
def Shift.lastOut (k : Shift) (v : Uint32) (n : Nat) : Bool :=
  match k with
  | .asl => (v <<< (n - 1)).getLsbD 31
  | .asr => (v.sshiftRight (n - 1)).getLsbD 0
  | .lsl => (v <<< (n - 1)).getLsbD 31
  | .lsr => (v >>> (n - 1)).getLsbD 0

/-- The flags after a shift, from those before it. -/
def Shift.flags (k : Shift) (v : Uint32) (n : Nat) (f : Flags) : Flags where
  x := if n = 0 then f.x else k.lastOut v n
  n := (k.value v n).msb
  z := k.value v n == 0
  v := false
  c := if n = 0 then false else k.lastOut v n

/-- The kind that the instruction word has. -/
def asxKind (left : Bool) : Shift := if left then .asl else .asr
def lsxKind (left : Bool) : Shift := if left then .lsl else .lsr

theorem getLsbD_setFlag {i j : Nat} (hi : i < 32) (hj : j < 32) (c : Bool) (sr : Uint32) :
    (setFlag i c sr).getLsbD j = if i = j then c else sr.getLsbD j := by
  cases c with
  | false =>
    by_cases h : i = j
    · simp [-BitVec.getLsbD_eq_getElem, setFlag, BitVec.getLsbD_twoPow, h, hj]
    · simp [-BitVec.getLsbD_eq_getElem, setFlag, BitVec.getLsbD_twoPow, h, hi, hj]
  | true =>
    by_cases h : i = j
    · simp [-BitVec.getLsbD_eq_getElem, setFlag, BitVec.getLsbD_twoPow, h, hj]
    · simp [-BitVec.getLsbD_eq_getElem, setFlag, BitVec.getLsbD_twoPow, h, hi]

theorem and_ne_zero_iff (v : Uint32) {i : Nat} (hi : i < 32) :
    v &&& BitVec.twoPow 32 i ≠ 0 ↔ v.getLsbD i = true := by
  rw [BitVec.and_twoPow]
  by_cases h : v.getLsbD i = true
  · simp only [h, if_true, ne_eq, iff_true]
    intro h0
    have := congrArg (·.getLsbD i) h0
    simp [hi] at this
  · simp only [h, if_false, Bool.false_eq_true]
    exact iff_of_false (not_not_intro rfl) (by simp)

/-- A loop that shifts with `g` and puts the bit `c` in C and X. -/
theorem iterate_shift {step : Uint32 × Uint32 → Uint32 × Uint32} {g : Uint32 → Uint32}
    {c : Uint32 → Bool}
    (hs : ∀ p, step p = (g p.1, setFlag 4 (c p.1) (setFlag 0 (c p.1) p.2))) (v sr : Uint32)
    (n : Nat) :
    (step^[n] (v, sr)).1 = g^[n] v ∧
      (step^[n] (v, sr)).2.getLsbD 4 = (if n = 0 then sr.getLsbD 4 else c (g^[n - 1] v)) ∧
      (step^[n] (v, sr)).2.getLsbD 0 = (if n = 0 then sr.getLsbD 0 else c (g^[n - 1] v)) := by
  induction n with
  | zero => exact ⟨rfl, rfl, rfl⟩
  | succ n ih =>
    rw [Function.iterate_succ_apply', hs, ih.1, Function.iterate_succ_apply' g]
    refine ⟨rfl, ?_, ?_⟩
    · simp only [getLsbD_setFlag (show 4 < 32 by decide) (show 4 < 32 by decide), if_true,
        Nat.succ_ne_zero, if_false, Nat.add_sub_cancel]
    · simp only [getLsbD_setFlag (show 4 < 32 by decide) (show 0 < 32 by decide),
        getLsbD_setFlag (show 0 < 32 by decide) (show 0 < 32 by decide), if_true,
        Nat.succ_ne_zero, if_false, Nat.add_sub_cancel]

theorem iterate_shiftLeft (v : Uint32) (n : Nat) :
    (fun v : Uint32 => v <<< 1)^[n] v = v <<< n := by
  induction n with
  | zero => exact (BitVec.shiftLeft_zero v).symm
  | succ n ih => rw [Function.iterate_succ_apply', ih, ← BitVec.shiftLeft_add]

theorem iterate_sshiftRight (v : Uint32) (n : Nat) :
    (fun v : Uint32 => v.sshiftRight 1)^[n] v = v.sshiftRight n := by
  induction n with
  | zero => exact (BitVec.sshiftRight_zero).symm
  | succ n ih => rw [Function.iterate_succ_apply', ih, ← BitVec.sshiftRight_add]

theorem aslStep_eq (p : Uint32 × Uint32) :
    aslStep p =
      (p.1 <<< 1, setFlag 4 (p.1.getLsbD 31) (setFlag 0 (p.1.getLsbD 31) p.2)) := by
  have hc : (p.1 &&& 0x80000000 != 0) = p.1.getLsbD 31 := by
    rw [Bool.eq_iff_iff, bne_iff_ne]
    exact and_ne_zero_iff p.1 (i := 31) (by decide)
  rw [aslStep, hc]

theorem asrStep_eq (p : Uint32 × Uint32) :
    asrStep p =
      (p.1.sshiftRight 1, setFlag 4 (p.1.getLsbD 0) (setFlag 0 (p.1.getLsbD 0) p.2)) := by
  have h30 : (p.1 >>> 1 &&& 0x40000000 ≠ 0) ↔ p.1.getLsbD 31 = true := by
    rw [← show (p.1 >>> 1).getLsbD 30 = p.1.getLsbD 31 from BitVec.getLsbD_ushiftRight ..]
    exact and_ne_zero_iff (p.1 >>> 1) (i := 30) (by decide)
  have hr : (if p.1 >>> 1 &&& 0x40000000 ≠ 0 then p.1 >>> 1 ||| 0x80000000 else p.1 >>> 1) =
      p.1.sshiftRight 1 := by
    apply BitVec.eq_of_getLsbD_eq
    intro i hi
    have hm : p.1.msb = p.1.getLsbD 31 := BitVec.msb_eq_getLsbD_last ..
    have htop : (0x80000000 : Uint32).getLsbD i = decide (i = 31) := by
      rw [show (0x80000000 : Uint32) = BitVec.twoPow 32 31 from rfl, BitVec.getLsbD_twoPow]
      simp [eq_comm]
    have h0 : ¬32 ≤ i := by omega
    rw [BitVec.getLsbD_sshiftRight, hm]
    simp only [h0, decide_false, Bool.not_false, Bool.true_and]
    by_cases h : p.1.getLsbD 31 = true
    · rw [if_pos (h30.mpr h), BitVec.getLsbD_or, BitVec.getLsbD_ushiftRight, htop, h]
      by_cases hi' : 1 + i < 32
      · have : i ≠ 31 := by omega
        simp only [hi', this, if_true, decide_false, Bool.or_false]
      · have : i = 31 := by omega
        rw [if_neg hi', decide_eq_true this, Bool.or_true]
    · rw [if_neg fun hn => h (h30.mp hn), BitVec.getLsbD_ushiftRight]
      by_cases hi' : 1 + i < 32
      · rw [if_pos hi']
      · rw [if_neg hi', BitVec.getLsbD_of_ge _ _ (by omega), Bool.eq_false_iff.mpr h]
  rw [asrStep, hr]

theorem flags_setNz (n z : Bool) (sr : Uint32) :
    flags (setFlag 2 z (setFlag 3 n sr)) = { flags sr with n := n, z := z } := by
  simp [-BitVec.getLsbD_eq_getElem, flags, getLsbD_setFlag]

theorem flags_clearV (sr : Uint32) : flags (setFlag 1 false sr) = { flags sr with v := false } := by
  simp [-BitVec.getLsbD_eq_getElem, flags, getLsbD_setFlag]

theorem flags_setXc (c : Bool) (sr : Uint32) :
    flags (setFlag 4 c (setFlag 0 c sr)) = { flags sr with x := c, c := c } := by
  simp [-BitVec.getLsbD_eq_getElem, flags, getLsbD_setFlag]

theorem flags_clearC (sr : Uint32) : flags (setFlag 0 false sr) = { flags sr with c := false } := by
  simp [-BitVec.getLsbD_eq_getElem, flags, getLsbD_setFlag]

/-- ASL and ASR: the value, and the flags of the architecture but for C after a count of 0. -/
theorem asxResult_eq (left : Bool) (count v sr : Uint32) :
    (asxResult left count v sr).1 = (asxKind left).value v count.toNat ∧
      flags (asxResult left count v sr).2 =
        { (asxKind left).flags v count.toNat (flags sr) with
          c := if count.toNat = 0 then sr.getLsbD 0
            else (asxKind left).lastOut v count.toNat } := by
  cases left with
  | true =>
    obtain ⟨hv, hx, hc⟩ := iterate_shift (g := fun v => v <<< 1)
      (c := fun v => v.getLsbD 31) aslStep_eq v sr count.toNat
    rw [iterate_shiftLeft] at hv hx hc
    refine ⟨hv, ?_⟩
    simp only [asxResult, if_true, hv, flags_clearV, flags_setNz,
      show ∀ r : Uint32, r.slt 0 = r.msb from fun _ => BitVec.slt_zero_eq_msb]
    simp only [flags, hx, hc]
    rfl
  | false =>
    obtain ⟨hv, hx, hc⟩ := iterate_shift (g := fun v => v.sshiftRight 1)
      (c := fun v => v.getLsbD 0) asrStep_eq v sr count.toNat
    rw [iterate_sshiftRight] at hv hx hc
    refine ⟨hv, ?_⟩
    simp only [asxResult, Bool.false_eq_true, if_false, hv, flags_clearV, flags_setNz,
      show ∀ r : Uint32, r.slt 0 = r.msb from fun _ => BitVec.slt_zero_eq_msb]
    simp only [flags, hx, hc]
    rfl

/-- The last bit out of LSL and LSR. -/
theorem lastBit_eq (left : Bool) (count v : Uint32) (h0 : count ≠ 0) :
    ((if count ≤ 32 then
        if left then v &&& (0x80000000 : Uint32) >>> (count - 1).toNat
        else v &&& (1 : Uint32) <<< (count - 1).toNat
      else 0) != 0) = (lsxKind left).lastOut v count.toNat := by
  have hn : 0 < count.toNat := Nat.pos_of_ne_zero fun h => h0 (BitVec.eq_of_toNat_eq h)
  have hm : (count - 1).toNat = count.toNat - 1 :=
    BitVec.toNat_sub_of_le (BitVec.le_def.mpr hn)
  rw [Bool.eq_iff_iff, bne_iff_ne, hm]
  by_cases hle : count ≤ 32
  · have h32 : count.toNat ≤ 32 := BitVec.le_def.mp hle
    rw [if_pos hle]
    cases left with
    | true =>
      have hbit : (0x80000000 : Uint32) >>> (count.toNat - 1) =
          BitVec.twoPow 32 (32 - count.toNat) := by
        apply BitVec.eq_of_getLsbD_eq
        intro i hi
        rw [show (0x80000000 : Uint32) = BitVec.twoPow 32 31 from rfl, BitVec.getLsbD_ushiftRight,
          BitVec.getLsbD_twoPow, BitVec.getLsbD_twoPow, Bool.eq_iff_iff]
        simp only [Bool.and_eq_true, decide_eq_true_eq]
        omega
      rw [if_pos rfl, hbit, and_ne_zero_iff v (by omega)]
      simp only [lsxKind, Shift.lastOut, if_true, BitVec.getLsbD_shiftLeft]
      have h1 : ¬31 < count.toNat - 1 := by omega
      have h2 : 31 - (count.toNat - 1) = 32 - count.toNat := by omega
      simp only [h1, h2, decide_false, Bool.not_false, Bool.and_true]
      simp
    | false =>
      rw [if_neg (by decide), show (1 : Uint32) <<< (count.toNat - 1) =
        BitVec.twoPow 32 (count.toNat - 1) from (BitVec.twoPow_eq ..).symm,
        and_ne_zero_iff v (by omega)]
      simp only [lsxKind, Shift.lastOut, Bool.false_eq_true, if_false, BitVec.getLsbD_ushiftRight,
        Nat.add_zero]
  · have h32 : 32 < count.toNat := by
      by_contra h
      exact hle (BitVec.le_def.mpr (by simpa using h))
    rw [if_neg hle]
    refine iff_of_false (fun h => h rfl) ?_
    cases left with
    | true =>
      simp only [lsxKind, Shift.lastOut, if_true, BitVec.getLsbD_shiftLeft]
      have h1 : 31 < count.toNat - 1 := by omega
      simp [h1]
    | false =>
      simp only [lsxKind, Shift.lastOut, Bool.false_eq_true, if_false, BitVec.getLsbD_ushiftRight]
      rw [BitVec.getLsbD_of_ge _ _ (by omega)]
      decide

/-- LSL and LSR: the value, and the flags of the architecture but for V, which stays. -/
theorem lsxResult_eq (left : Bool) (count v sr : Uint32) :
    (lsxResult left count v sr).1 = (lsxKind left).value v count.toNat ∧
      flags (lsxResult left count v sr).2 =
        { (lsxKind left).flags v count.toNat (flags sr) with v := sr.getLsbD 1 } := by
  have hslt : ∀ r : Uint32, r.slt 0 = r.msb := fun _ => BitVec.slt_zero_eq_msb
  by_cases h0 : count = 0
  · subst h0
    have hval : (lsxKind left).value v 0 = v := by
      cases left
      · exact BitVec.ushiftRight_zero v
      · exact BitVec.shiftLeft_zero v
    have h00 : (0 : Uint32).toNat = 0 := rfl
    rw [h00, Shift.flags, hval]
    simp only [lsxResult, if_true, flags_setNz, flags_clearC, hslt]
    exact ⟨trivial, rfl⟩
  · have hn : count.toNat ≠ 0 := fun h => h0 (BitVec.eq_of_toNat_eq h)
    have hval : (if count ≥ 32 then 0 else if left then v <<< count.toNat else v >>> count.toNat) =
        (lsxKind left).value v count.toNat := by
      by_cases hge : count ≥ 32
      · have h32 : 32 ≤ count.toNat := BitVec.le_def.mp hge
        rw [if_pos hge]
        cases left
        · exact (BitVec.ushiftRight_eq_zero h32).symm
        · exact (BitVec.shiftLeft_eq_zero h32).symm
      · rw [if_neg hge]
        cases left <;> rfl
    simp only [lsxResult, if_neg h0, lastBit_eq left count v h0, hval, flags_setNz, flags_setXc,
      hslt, Shift.flags, if_neg hn]
    exact ⟨trivial, rfl⟩

theorem Flags.with_c_iff (f : Flags) (c : Bool) : { f with c := c } = f ↔ c = f.c := by
  cases f
  simp

theorem Flags.with_v_iff (f : Flags) (v : Bool) : { f with v := v } = f ↔ v = f.v := by
  cases f
  simp

/-- The count of the instruction: of its word, in which 0 is 8, or of a register. -/
def countOf (code : Uint32) (c : MemoryCore) : Nat :=
  if code.getLsbD 5 then (c.d (bits3 code 9)).toNat % 64
  else if bits3 code 9 = 0 then 8
  else (bits3 code 9).val

theorem countOf_lt (code : Uint32) (c : MemoryCore) : countOf code c < 64 := by
  unfold countOf
  have := (bits3 code 9).isLt
  split_ifs <;> omega

namespace State

variable {δ : Type} {b : Board δ} {s t u : State δ}

theorem readD_eq (n : Fin 8) :
    s.readD b n = some (some (⟨32, 0, n, 0xdeadbeef, 0⟩, s.core.d n), s) := by
  have hg : s.eaGetValue b b.uninit ⟨32, 0, n, 0xdeadbeef, 0⟩ = some (true, s.core.d n, s) := by
    rw [eaGetValue_of_eaRead (.inr (.inr rfl)) (v := s.core.d n) (t := s) rfl, signed_long]
  simp only [readD, Option.bind_eq_bind]
  change (s.eaGetValue b b.uninit ⟨32, 0, n, 0xdeadbeef, 0⟩).bind _ = _
  rw [hg]
  rfl

theorem shiftCount_eq (code : Uint32) :
    ∃ count : Uint32, s.shiftCount b code = some (some count, s) ∧
      count.toNat = countOf code s.core := by
  have h7 : (code >>> 9 &&& 7).toNat = (bits3 code 9).val :=
    Word.toNat_and_low (code >>> 9) 3 (by decide)
  by_cases h5 : code.getLsbD 5 = true
  · refine ⟨s.core.d (bits3 code 9) &&& 0x3F, ?_, ?_⟩
    · simp only [shiftCount, h5, readD_eq, Bool.not_true, Bool.false_eq_true, if_false,
        Option.bind_eq_bind, Option.bind_some, Option.map_some]
    · rw [countOf, if_pos h5]
      exact Word.toNat_and_low (s.core.d (bits3 code 9)) 6 (by decide)
  · refine ⟨if code >>> 9 &&& 7 = 0 then 8 else code >>> 9 &&& 7, ?_, ?_⟩
    · simp only [shiftCount, Bool.eq_false_iff.mpr h5, Bool.not_false, if_true]
    · rw [countOf, if_neg h5]
      by_cases h0 : bits3 code 9 = 0
      · have hz : code >>> 9 &&& 7 = 0 := BitVec.eq_of_toNat_eq (h7.trans (by rw [h0]; rfl))
        rw [if_pos h0, if_pos hz]
        rfl
      · have hz : code >>> 9 &&& 7 ≠ 0 := fun h => h0 (Fin.ext (h7.symm.trans (by rw [h]; rfl)))
        rw [if_neg h0, if_neg hz, h7]

/-- What the shift `f` leaves, for the count of the instruction. -/
theorem executeShift_eq {f : Bool → Uint32 → Uint32 → Uint32 → Uint32 × Uint32} {ok : Bool}
    {code : Uint32} (hu : s.memoryRetrFromPc b b.uninit 16 = some (ok, code, u)) :
    ∃ count : Uint32, count.toNat = countOf code s.core ∧
      let p := f (code.getLsbD 8) count (s.core.d (bits3 code 0)) s.core.sr
      s.executeShift b f = some ((u.setSr p.2).setD (bits3 code 0) p.1) := by
  have hf := fetchOnly_memoryRetrFromPc hu
  obtain ⟨count, hc, hn⟩ := shiftCount_eq (b := b) (s := u) code
  have hd : u.core.d = s.core.d := hf.d
  refine ⟨count, by rw [hn, countOf, countOf, hd], ?_⟩
  simp only [executeShift, hu, hc, readD_eq, Option.bind_eq_bind, Option.bind_some, hd, hf.sr]
  exact eaPutValue_long ..

/-- What a shift of kind `k` writes. -/
structure Shifted (k : Shift) (n : Nat) (s u : State δ) (r : Fin 8) (t : State δ) : Prop where
  result : t = (u.setSr t.core.sr).setD r (k.value (s.core.d r) n)

/-- The shifts: the value is that of the architecture, also that of ASL and LSL the same; the flags
are so unless ASL or ASR shift by 0 with the carry set, or LSL or LSR with the overflow set. -/
theorem shift_exact (b : Board δ) {s u : State δ} {ok : Bool} {code : Uint32}
    (hu : s.memoryRetrFromPc b b.uninit 16 = some (ok, code, u)) :
    countOf code s.core < 64 ∧
    (∃ t, s.executeAsx b = some t ∧
      Shifted (asxKind (code.getLsbD 8)) (countOf code s.core) s u (bits3 code 0) t ∧
      (flags t.core.sr = (asxKind (code.getLsbD 8)).flags (s.core.d (bits3 code 0))
          (countOf code s.core) (flags s.core.sr) ↔
        countOf code s.core ≠ 0 ∨ (flags s.core.sr).c = false)) ∧
    (∃ t, s.executeLsx b = some t ∧
      Shifted (lsxKind (code.getLsbD 8)) (countOf code s.core) s u (bits3 code 0) t ∧
      (flags t.core.sr = (lsxKind (code.getLsbD 8)).flags (s.core.d (bits3 code 0))
          (countOf code s.core) (flags s.core.sr) ↔ (flags s.core.sr).v = false)) ∧
    (code.getLsbD 8 = true →
      (s.executeAsx b).map (·.core.d) = (s.executeLsx b).map (·.core.d)) := by
  obtain ⟨count, hn, ha⟩ := executeShift_eq (f := asxResult) hu
  obtain ⟨count', hn', hl⟩ := executeShift_eq (f := lsxResult) hu
  obtain rfl : count = count' := BitVec.eq_of_toNat_eq (hn.trans hn'.symm)
  obtain ⟨hav, haf⟩ := asxResult_eq (code.getLsbD 8) count (s.core.d (bits3 code 0)) s.core.sr
  obtain ⟨hlv, hlf⟩ := lsxResult_eq (code.getLsbD 8) count (s.core.d (bits3 code 0)) s.core.sr
  rw [hn] at hav haf hlv hlf
  refine ⟨countOf_lt _ _, ⟨_, ha, ⟨by rw [hav]; rfl⟩, ?_⟩, ⟨_, hl, ⟨by rw [hlv]; rfl⟩, ?_⟩, ?_⟩
  · change flags (asxResult _ _ _ _).2 = _ ↔ _
    rw [haf, Flags.with_c_iff]
    by_cases h0 : countOf code s.core = 0
    · simp [-BitVec.getLsbD_eq_getElem, Shift.flags, h0, flags]
    · simp [Shift.flags, h0]
  · change flags (lsxResult _ _ _ _).2 = _ ↔ _
    rw [hlf, Flags.with_v_iff]
    rfl
  · intro h8
    rw [show s.executeAsx b = _ from ha, show s.executeLsx b = _ from hl]
    simp only [Option.map_some, setD, setSr]
    rw [hav, hlv, h8]
    rfl

/-- ASL.L D0,D1 with a count of 0 and the carry set. -/
def zeroShift : State Unit :=
  { plainState with
    core := { plainState.core with sr := 1 }
    ram := fun _ k => if k = 0x102 then 0xE1 else 0xA1 }

/-- LSL.L D0,D1 with the overflow set. -/
def overflowShift : State Unit :=
  { plainState with
    core := { plainState.core with sr := 2 }
    ram := fun _ k => if k = 0x102 then 0xE1 else 0xA9 }

theorem shift_exact_zero :
    ∃ t, zeroShift.executeAsx plainBoard = some t ∧
      (flags t.core.sr = Shift.asl.flags 0 0 (flags zeroShift.core.sr) ↔
        0 ≠ 0 ∨ (flags zeroShift.core.sr).c = false) := by
  have hcode : zeroShift.memoryRetrFromPc plainBoard plainBoard.uninit 16 =
      some (true, 0xE1A1, zeroShift.setPc 0x104) := rfl
  obtain ⟨t, ht, -, hf⟩ := (shift_exact plainBoard (s := zeroShift) hcode).2.1
  exact ⟨t, ht, hf⟩

/-- ASL by 0 leaves the carry set, and LSL the overflow. -/
theorem not_shift_exact :
    (¬∀ (b : Board Unit) (s u t : State Unit) (ok : Bool) (code : Uint32),
      s.memoryRetrFromPc b b.uninit 16 = some (ok, code, u) → s.executeAsx b = some t →
      flags t.core.sr = (asxKind (code.getLsbD 8)).flags (s.core.d (bits3 code 0))
        (countOf code s.core) (flags s.core.sr)) ∧
    ¬∀ (b : Board Unit) (s u t : State Unit) (ok : Bool) (code : Uint32),
      s.memoryRetrFromPc b b.uninit 16 = some (ok, code, u) → s.executeLsx b = some t →
      flags t.core.sr = (lsxKind (code.getLsbD 8)).flags (s.core.d (bits3 code 0))
        (countOf code s.core) (flags s.core.sr) := by
  constructor
  · intro h
    have ht : (zeroShift.executeAsx plainBoard).isSome = true := by decide
    obtain ⟨t, ht⟩ := Option.isSome_iff_exists.mp ht
    have hf := h plainBoard zeroShift (zeroShift.setPc 0x104) t true 0xE1A1 rfl ht
    have hc : (zeroShift.executeAsx plainBoard).map (fun t => (flags t.core.sr).c) = some true := by
      decide
    rw [ht] at hc
    exact absurd ((Option.some.inj hc).symm.trans (congrArg Flags.c hf)) (by decide)
  · intro h
    have ht : (overflowShift.executeLsx plainBoard).isSome = true := by decide
    obtain ⟨t, ht⟩ := Option.isSome_iff_exists.mp ht
    have hf := h plainBoard overflowShift (overflowShift.setPc 0x104) t true 0xE1A9 rfl ht
    have hv : (overflowShift.executeLsx plainBoard).map (fun t => (flags t.core.sr).v) =
        some true := by
      decide
    rw [ht] at hv
    exact absurd ((Option.some.inj hv).symm.trans (congrArg Flags.v hf)) (by decide)

end State

end SkyEye.ColdFire
