import SkyEye.Sparc.CondCodes
import SkyEye.Lib.Word
import Mathlib.Tactic.Positivity

/-!
# Shifts

`sll`, `srl` and `sra` against shifts by the count modulo 32. The code hands the whole
count to the shift of C, which is undefined from 32 on, and `sra` reads the count again
when `rd` is written: what holds is what holds on every host.
-/

namespace SkyEye.Sparc

inductive ShiftOp where
  | sll
  | srl
  | sra
  deriving DecidableEq

namespace ShiftOp

def instr : ShiftOp → ShiftFields → Instr
  | sll => .sll
  | srl => .srl
  | sra => .sra

/-- The shift of the architecture. -/
def value (x : Uint32) (n : Nat) : ShiftOp → Uint32
  | sll => x <<< (n % 32)
  | srl => x >>> (n % 32)
  | sra => x.sshiftRight (n % 32)

variable {M : Type} (s : SparcState M) (op : ShiftOp) (f : ShiftFields)

/-- The count, all of it. -/
def count : Nat := (s.shiftCount f.count).toNat

def result : Uint32 := op.value (s.reg f.rs1) (count s f)

/-- `t` is what the instruction makes of `s`: `rd` has the result and the other registers
are as before. -/
def Exact (t : SparcState M) : Prop :=
  ∀ x : RegNo, t.reg x = if x = 0 then 0 else if x = f.rd then op.result s f else s.reg x

/-- When the code meets it, whatever the host makes of counts that C leaves undefined. A
negative `x` whose count is in `rd` is filled up by as many bits as the shifted `x` says. -/
def Holds : Prop :=
  match op with
  | sll | srl => f.rd = 0 ∨ count s f < 32
  | sra =>
    let x := s.reg f.rs1
    let n := count s f
    f.rd = 0 ∨ if f.count = .reg f.rd ∧ x.msb = true then
        n = 27 ∧ 27 ≤ x.toNat / 2 ^ 27 ∨ n = 0 ∧ x = 0xFFFFFFFF
      else n < 32 ∨ x = 0xFFFFFFFF

/-! ## A host for the undefined shifts -/

/-- A host whose shifts by 32 and more give `v`, but for the word of ones. -/
def wildHost (M : Type) (ones v : Uint32) : Host M where
  bankRead _ _ _ := none
  bankWrite _ _ _ _ := none
  shl x n := if n.toNat < 32 then x <<< n.toNat else v
  shr x n := if n.toNat < 32 then x >>> n.toNat else if x = 0xFFFFFFFF then ones else v
  shl_of_lt _ _ hn := if_pos hn
  shr_of_lt _ _ hn := if_pos hn

/-! ## The registers of a shift -/

variable (h : Host M)

/-- The shift that the host makes, before `sra` sets the sign bits. -/
def hostShift : ShiftOp → Uint32
  | sll => h.shl (s.reg f.rs1) (s.shiftCount f.count)
  | srl | sra => h.shr (s.reg f.rs1) (s.shiftCount f.count)

/-- The count as `sra` reads it again. -/
def recount : Uint32 :=
  if f.count = .reg f.rd then hostShift s f h sra else s.shiftCount f.count

/-- What is written to `rd` at last. -/
def written : ShiftOp → Uint32
  | sra =>
    if (s.reg f.rs1).msb then ~~~h.shr 0xFFFFFFFF (recount s f h) ||| hostShift s f h sra
    else hostShift s f h sra
  | sll => hostShift s f h sll
  | srl => hostShift s f h srl

theorem shiftCount_setReg (rd : RegNo) (z : Uint32) (c : Count) :
    (s.setReg rd z).shiftCount c = if c = .reg rd then z else s.shiftCount c := by
  cases c with
  | reg rs2 =>
    have hr : (rs2 : Nat) = rd ↔ Count.reg rs2 = .reg rd := by
      rw [Count.reg.injEq, Fin.ext_iff]
    show (s.setReg rd z).reg rs2 = _
    rw [SparcState.reg_setReg]
    simp only [hr]
    rfl
  | shcnt imm => rfl

theorem reg_execute (x : Nat) :
    (s.execute h (op.instr f)).reg x = (s.setReg f.rd (written s f h op)).reg x := by
  cases op with
  | sll => rfl
  | srl => rfl
  | sra =>
    show (s.iSra h f).reg x = _
    unfold SparcState.iSra
    dsimp only
    rw [shiftCount_setReg, SparcState.reg_advance, SparcState.bit_31]
    unfold written
    cases hx : (s.reg f.rs1).msb with
    | false => rfl
    | true =>
      simp only [if_true]
      rw [SparcState.reg_setReg, SparcState.reg_setReg, SparcState.reg_setReg, if_pos rfl,
        SparcState.reg_setReg]
      by_cases hxr : x = f.rd
      · rw [if_pos hxr, if_pos hxr]
        show (BitVec.allOnes 32 &&& _ ||| _ : Uint32) = _
        rw [BitVec.allOnes_and]
        rfl
      · rw [if_neg hxr, if_neg hxr, if_neg hxr]

theorem exact_iff_written : op.Exact s f (s.iuCycleStep h (op.instr f)) ↔
    f.rd = 0 ∨ written s f h op = op.result s f := by
  have hreg := s.reg_cycle_of_reg h (op.instr f) f.rd (written s f h op)
    (reg_execute s op f h)
  constructor
  · intro he
    by_cases hrd : f.rd = 0
    · exact .inl hrd
    · have hr := (hreg f.rd).symm.trans (he f.rd)
      rw [if_neg hrd, if_neg hrd, if_pos rfl, if_pos rfl] at hr
      exact .inr hr
  · intro he x
    rw [hreg x]
    by_cases hx0 : x = 0
    · rw [if_pos hx0, if_pos hx0]
    · rw [if_neg hx0, if_neg hx0]
      by_cases hxr : x = f.rd
      · rw [if_pos hxr, if_pos hxr]
        exact he.resolve_left fun hrd => hx0 (hxr.trans hrd)
      · rw [if_neg hxr, if_neg hxr]

/-! ## Counts below 32 -/

variable {s op f h}

theorem hostShift_of_lt (hn : count s f < 32) (hop : op ≠ sra) :
    hostShift s f h op = op.result s f := by
  cases op with
  | sll => rw [hostShift, h.shl_of_lt _ _ hn, result, value, Nat.mod_eq_of_lt hn]; rfl
  | srl => rw [hostShift, h.shr_of_lt _ _ hn, result, value, Nat.mod_eq_of_lt hn]; rfl
  | sra => exact absurd rfl hop

theorem hostShift_sra_of_lt (hn : count s f < 32) :
    hostShift s f h sra = s.reg f.rs1 >>> count s f := h.shr_of_lt _ _ hn

theorem result_sra_of_msb (hx : (s.reg f.rs1).msb = true) (hn : count s f < 32) :
    result s sra f = ~~~(BitVec.allOnes 32 >>> count s f) ||| s.reg f.rs1 >>> count s f := by
  rw [result, value, Nat.mod_eq_of_lt hn, Word.sshiftRight_of_msb hx]

/-- The count is below 32, and it is not read from a `rd` that has changed. -/
theorem written_sra_of_lt (hn : count s f < 32)
    (ha : ¬(f.count = .reg f.rd ∧ (s.reg f.rs1).msb = true)) :
    written s f h sra = result s sra f := by
  unfold written
  cases hx : (s.reg f.rs1).msb with
  | false =>
    simp only [Bool.false_eq_true, if_false]
    rw [hostShift_sra_of_lt hn, result, value, Nat.mod_eq_of_lt hn,
      BitVec.sshiftRight_eq_of_msb_false hx]
  | true =>
    simp only [if_true]
    have hc : f.count ≠ .reg f.rd := fun hc => ha ⟨hc, hx⟩
    rw [recount, if_neg hc, h.shr_of_lt _ _ hn, hostShift_sra_of_lt hn, result_sra_of_msb hx hn]
    rfl

theorem written_sra_ones (hx : s.reg f.rs1 = 0xFFFFFFFF) (hc : f.count ≠ .reg f.rd) :
    written s f h sra = result s sra f := by
  have hm : (s.reg f.rs1).msb = true := by rw [hx]; decide
  have hr : result s sra f = BitVec.allOnes 32 := by
    rw [result, value, Word.sshiftRight_of_msb hm, hx]
    exact Word.not_or_self _
  have hw : written s f h sra =
      ~~~h.shr 0xFFFFFFFF (s.shiftCount f.count) ||| hostShift s f h sra := by
    simp only [written, recount, hm, hc, if_true, if_false]
  rw [hw, hr, show hostShift s f h sra = h.shr (s.reg f.rs1) _ from rfl, hx]
  exact Word.not_or_self _

/-! ## Counts from 32 on -/

theorem ne_not_self (x : Uint32) : ~~~x ≠ x := by
  intro h
  have hb := congrArg (·.getLsbD 0) h
  simp at hb

theorem hostShift_wild {ones v : Uint32} (hn : ¬count s f < 32)
    (hx : op = sll ∨ s.reg f.rs1 ≠ 0xFFFFFFFF) : hostShift s f (wildHost M ones v) op = v := by
  cases op with
  | sll => exact if_neg hn
  | srl | sra => exact (if_neg hn).trans (if_neg (hx.resolve_left (by simp)))

theorem msb_result_sra (hx : (s.reg f.rs1).msb = true) : (result s sra f).msb = true := by
  rw [result, value, BitVec.msb_sshiftRight]
  exact hx

theorem zero_ne_result_sra (hx : (s.reg f.rs1).msb = true) : (0 : Uint32) ≠ result s sra f := by
  intro h0
  have hm := msb_result_sra hx
  rw [← h0] at hm
  revert hm
  decide

/-- The counts below 32 with which the sign bits of `sra` are right though the count is
read from the shifted word. -/
theorem sign_recount_iff : ∀ r n : Fin 32, 2 ^ (31 - n.val) ≤ r.val → r.val < 2 ^ (32 - n.val) →
    (~~~(BitVec.allOnes 32 >>> r.val) ||| BitVec.ofNat 32 r =
      ~~~(BitVec.allOnes 32 >>> n.val) ||| BitVec.ofNat 32 r ↔ n.val = 27 ∧ 27 ≤ r.val) := by
  decide +kernel

/-- A negative word whose count is in `rd`. -/
theorem written_sra_alias (ha : f.count = .reg f.rd) (hx : (s.reg f.rs1).msb = true) :
    written s f h sra = ~~~h.shr 0xFFFFFFFF (hostShift s f h sra) ||| hostShift s f h sra := by
  simp only [written, recount, hx, ha, if_true]

/-! ## When the shifts are exact -/

theorem sll_srl_iff (hop : op ≠ sra) :
    (∀ h : Host M, written s f h op = op.result s f) ↔ count s f < 32 := by
  constructor
  · intro hall
    by_contra hn
    have hw := hall (wildHost M (~~~op.result s f) (~~~op.result s f))
    cases op with
    | sll => exact ne_not_self _ ((if_neg hn).symm.trans hw)
    | srl =>
      have hs : hostShift s f (wildHost M (~~~srl.result s f) (~~~srl.result s f)) srl =
          ~~~srl.result s f := by
        refine (if_neg hn).trans ?_
        split <;> rfl
      exact ne_not_self _ (hs.symm.trans hw)
    | sra => exact hop rfl
  · intro hn h
    have hs := hostShift_of_lt (h := h) hn hop
    cases op with
    | sll | srl => exact hs
    | sra => exact absurd rfl hop

theorem sra_iff (ha : ¬(f.count = .reg f.rd ∧ (s.reg f.rs1).msb = true)) :
    (∀ h : Host M, written s f h sra = result s sra f) ↔
      count s f < 32 ∨ s.reg f.rs1 = 0xFFFFFFFF := by
  constructor
  · intro hall
    by_contra hn
    obtain ⟨hn, hx⟩ := not_or.mp hn
    cases hm : (s.reg f.rs1).msb with
    | false =>
      have hw := hall (wildHost M 0 (~~~result s sra f))
      have hs : hostShift s f (wildHost M 0 (~~~result s sra f)) sra = ~~~result s sra f :=
        hostShift_wild hn (.inr hx)
      simp only [written, hm, Bool.false_eq_true, if_false, hs] at hw
      exact ne_not_self _ hw
    | true =>
      have hc : f.count ≠ .reg f.rd := fun hc => ha ⟨hc, hm⟩
      have hw := hall (wildHost M 0xFFFFFFFF 0)
      have hs : hostShift s f (wildHost M 0xFFFFFFFF 0) sra = 0 := hostShift_wild hn (.inr hx)
      have ho : (wildHost M 0xFFFFFFFF 0).shr 0xFFFFFFFF (s.shiftCount f.count) = 0xFFFFFFFF :=
        (if_neg hn).trans (if_pos rfl)
      simp only [written, recount, hm, hc, if_true, if_false, hs, ho] at hw
      exact zero_ne_result_sra hm hw
  · rintro (hn | hx) h
    · exact written_sra_of_lt hn ha
    · refine written_sra_ones hx fun hc => ha ⟨hc, ?_⟩
      rw [hx]
      decide

/-- From 32 on, a host may shift everything out, and then `sra` writes 0. -/
theorem not_sra_alias_of_ge (ha : f.count = .reg f.rd) (hx : (s.reg f.rs1).msb = true)
    (hn : ¬count s f < 32) : ¬∀ h : Host M, written s f h sra = result s sra f := by
  intro hall
  have hw := hall (wildHost M 0 0)
  have hs : hostShift s f (wildHost M 0 0) sra = 0 := by
    refine (if_neg hn).trans ?_
    split <;> rfl
  have ho : (wildHost M 0 0).shr 0xFFFFFFFF 0 = 0xFFFFFFFF :=
    (wildHost M 0 0).shr_of_lt _ _ (by decide)
  rw [written_sra_alias ha hx, hs, ho] at hw
  exact zero_ne_result_sra hx hw

theorem shiftRight_of_msb {x : Uint32} (hx : x.msb = true) {n : Nat} (hn : n < 32) :
    2 ^ (31 - n) ≤ (x >>> n).toNat ∧ (x >>> n).toNat < 2 ^ (32 - n) := by
  have h31 : 2 ^ 31 ≤ x.toNat := by
    rw [BitVec.msb_eq_decide] at hx
    simpa using hx
  have hp31 : 2 ^ (31 - n) * 2 ^ n = 2 ^ 31 := by
    rw [← pow_add]
    congr 1
    omega
  have hp32 : 2 ^ (32 - n) * 2 ^ n = 2 ^ 32 := by
    rw [← pow_add]
    congr 1
    omega
  rw [BitVec.toNat_ushiftRight, Nat.shiftRight_eq_div_pow]
  constructor
  · rw [Nat.le_div_iff_mul_le (by positivity), hp31]
    exact h31
  · rw [Nat.div_lt_iff_lt_mul (by positivity), hp32]
    exact x.isLt

/-- The recount is a count below 32, and no host matters. -/
theorem recount_iff_of_small {r : Uint32} {n : Nat} (hn : n < 32)
    (hlow : 2 ^ (31 - n) ≤ r.toNat) (hhigh : r.toNat < 2 ^ (32 - n)) (h5 : r.toNat < 32) :
    (∀ h : Host M, ~~~h.shr 0xFFFFFFFF r ||| r = ~~~(BitVec.allOnes 32 >>> n) ||| r) ↔
      n = 27 ∧ 27 ≤ r.toNat := by
  have hs : ∀ h : Host M, h.shr 0xFFFFFFFF r = BitVec.allOnes 32 >>> r.toNat :=
    fun h => h.shr_of_lt _ _ h5
  have hiff := sign_recount_iff ⟨r.toNat, h5⟩ ⟨n, hn⟩ hlow hhigh
  simp only [BitVec.ofNat_toNat, BitVec.setWidth_eq] at hiff
  simp only [hs]
  exact ⟨fun hall => hiff.mp (hall (wildHost M 0 0)), fun hc _ => hiff.mpr hc⟩

/-- The recount is not, and a host may shift by it as it likes. -/
theorem recount_iff_of_large {r : Uint32} {n : Nat} (hhigh : r.toNat < 2 ^ (32 - n))
    (h5 : ¬r.toNat < 32) :
    (∀ h : Host M, ~~~h.shr 0xFFFFFFFF r ||| r = ~~~(BitVec.allOnes 32 >>> n) ||| r) ↔
      n = 0 ∧ r = 0xFFFFFFFF := by
  have hwild : ∀ u : Uint32, (wildHost M u 0).shr 0xFFFFFFFF r = u :=
    fun u => (if_neg h5).trans (if_pos rfl)
  constructor
  · intro hall
    have h0 := hall (wildHost M 0 0)
    have h1 := hall (wildHost M 0xFFFFFFFF 0)
    rw [hwild] at h0 h1
    have hones : r = 0xFFFFFFFF := by
      have he := h1.trans h0.symm
      have hl : (~~~0xFFFFFFFF ||| r : Uint32) = r := BitVec.zero_or
      have hz : (~~~0 ||| r : Uint32) = 0xFFFFFFFF := BitVec.allOnes_or
      rw [hl, hz] at he
      exact he
    refine ⟨?_, hones⟩
    by_contra hpos
    have hle : 2 ^ (32 - n) ≤ 2 ^ 31 := Nat.pow_le_pow_right (by omega) (by omega)
    rw [hones] at hhigh
    have hv : (0xFFFFFFFF : Uint32).toNat = 2 ^ 32 - 1 := rfl
    omega
  · rintro ⟨rfl, rfl⟩ h
    have hz : ∀ y : Uint32, (y ||| 0xFFFFFFFF : Uint32) = 0xFFFFFFFF := fun _ => BitVec.or_allOnes
    rw [hz, hz]

theorem sra_alias_iff_of_lt (ha : f.count = .reg f.rd) (hx : (s.reg f.rs1).msb = true)
    (hn : count s f < 32) :
    (∀ h : Host M, written s f h sra = result s sra f) ↔
      count s f = 27 ∧ 27 ≤ (s.reg f.rs1).toNat / 2 ^ 27 ∨
        count s f = 0 ∧ s.reg f.rs1 = 0xFFFFFFFF := by
  simp only [written_sra_alias ha hx, hostShift_sra_of_lt hn, result_sra_of_msb hx hn]
  obtain ⟨hlow, hhigh⟩ := shiftRight_of_msb hx hn
  have hr : (s.reg f.rs1 >>> count s f).toNat = (s.reg f.rs1).toNat / 2 ^ count s f := by
    rw [BitVec.toNat_ushiftRight, Nat.shiftRight_eq_div_pow]
  by_cases h5 : (s.reg f.rs1 >>> count s f).toNat < 32
  · have hn0 : count s f ≠ 0 := by
      intro h0
      rw [h0] at hlow h5
      omega
    rw [recount_iff_of_small hn hlow hhigh h5, hr]
    constructor
    · rintro ⟨h27, hle⟩
      exact .inl ⟨h27, h27 ▸ hle⟩
    · rintro (⟨h27, hle⟩ | ⟨h0, -⟩)
      · exact ⟨h27, by rwa [h27]⟩
      · exact absurd h0 hn0
  · have hn27 : count s f ≠ 27 := by
      intro h27
      rw [h27] at hhigh h5
      omega
    rw [recount_iff_of_large hhigh h5]
    constructor
    · rintro ⟨h0, hones⟩
      rw [h0, BitVec.ushiftRight_zero] at hones
      exact .inr ⟨h0, hones⟩
    · rintro (⟨h27, -⟩ | ⟨h0, hones⟩)
      · exact absurd h27 hn27
      · rw [h0, BitVec.ushiftRight_zero]
        exact ⟨rfl, hones⟩

theorem sra_alias_iff (ha : f.count = .reg f.rd) (hx : (s.reg f.rs1).msb = true) :
    (∀ h : Host M, written s f h sra = result s sra f) ↔
      count s f = 27 ∧ 27 ≤ (s.reg f.rs1).toNat / 2 ^ 27 ∨
        count s f = 0 ∧ s.reg f.rs1 = 0xFFFFFFFF := by
  by_cases hn : count s f < 32
  · exact sra_alias_iff_of_lt ha hx hn
  · exact iff_of_false (not_sra_alias_of_ge ha hx hn) (by omega)

/-- The shifts are exact on every host exactly where `Holds`. -/
theorem shift_exact_iff : (∀ h : Host M, op.Exact s f (s.iuCycleStep h (op.instr f))) ↔
    op.Holds s f := by
  have hw : (∀ h : Host M, op.Exact s f (s.iuCycleStep h (op.instr f))) ↔
      f.rd = 0 ∨ ∀ h : Host M, written s f h op = op.result s f := by
    simp only [exact_iff_written, forall_or_left]
  rw [hw]
  cases op with
  | sll => rw [sll_srl_iff (by simp)]; rfl
  | srl => rw [sll_srl_iff (by simp)]; rfl
  | sra =>
    simp only [Holds]
    by_cases ha : f.count = .reg f.rd ∧ (s.reg f.rs1).msb = true
    · rw [if_pos ha, sra_alias_iff ha.1 ha.2]
    · rw [if_neg ha, sra_iff ha]

/-- `sra %o0, %o1, %o1` by 31 fills one bit of the sign: the count that is read again is 1. -/
theorem sra_not_exact :
    ¬∀ (s : SparcState Unit) (op : ShiftOp) (f : ShiftFields) (h : Host Unit),
      op.Exact s f (s.iuCycleStep h (op.instr f)) := by
  intro hall
  have he := hall ((resetState.setReg 8 0x80000000).setReg 9 31) sra ⟨9, 8, .reg 9⟩ bareHost 9
  revert he
  decide

end ShiftOp

end SkyEye.Sparc
