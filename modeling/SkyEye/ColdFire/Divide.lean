import SkyEye.ColdFire.Shift

/-!
# Division

The table of `i.c`, in which `qsort` puts the longest masks first, and the divisions and
remainders of `i_div.c`. The mask of the word forms has not the bit that their code has, so they
are never found. The long forms divide the magnitudes; the sign of the quotient is lost in a
`char`, so results are right where they are not negative.
-/

namespace SkyEye.ColdFire

open Sparc (Uint32)

/-- `Code` and `Mask` of a `struct _Instruction`. -/
structure Instruction where
  code : BitVec 16
  mask : BitVec 16
  deriving DecidableEq

/-- The calls of `instruction_register`, in their order. -/
def registered : List Instruction := [
  ⟨0xD000, 0xF000⟩, ⟨0xD1C0, 0xF1C0⟩, ⟨0x0680, 0xFFF8⟩, ⟨0x5080, 0xF1C0⟩, ⟨0xD180, 0xF1F8⟩,
  ⟨0xC000, 0xF000⟩, ⟨0x0280, 0xFFF8⟩, ⟨0xE080, 0xF0D8⟩, ⟨0x6000, 0xF000⟩, ⟨0x0100, 0xF100⟩,
  ⟨0x0800, 0xFF00⟩, ⟨0x4200, 0xFF00⟩, ⟨0xB080, 0xF1C0⟩, ⟨0xB1C0, 0xF1C0⟩, ⟨0x0C80, 0xFFF8⟩,
  ⟨0x0000, 0x0000⟩, ⟨0xB180, 0xF1C0⟩, ⟨0x0A80, 0xFFF8⟩, ⟨0x4800, 0xFE38⟩, ⟨0x4800, 0xFE38⟩,
  ⟨0x4AC8, 0xFFFF⟩, ⟨0x4AFC, 0xFFFF⟩, ⟨0x4EC0, 0xFFC0⟩, ⟨0x4E80, 0xFFC0⟩, ⟨0x41C0, 0xF1C0⟩,
  ⟨0x4E50, 0xFFF8⟩, ⟨0xE088, 0xF0D8⟩, ⟨0xE088, 0xF0D8⟩, ⟨0x1000, 0xF000⟩, ⟨0x2000, 0xF000⟩,
  ⟨0x3000, 0xF000⟩, ⟨0x3000, 0xF000⟩, ⟨0x4E7B, 0xFFFF⟩, ⟨0x48C0, 0xFBC0⟩, ⟨0x7000, 0xF100⟩,
  ⟨0x40C0, 0xF9C0⟩, ⟨0x40C0, 0xF9C0⟩, ⟨0x4C00, 0xFFC0⟩, ⟨0xC0C0, 0xF0C0⟩, ⟨0x4480, 0xFFF8⟩,
  ⟨0x4080, 0xFFF8⟩, ⟨0x4E71, 0xFFFF⟩, ⟨0x4680, 0xFFF8⟩, ⟨0x8000, 0xF000⟩, ⟨0x0080, 0xFFF8⟩,
  ⟨0x4840, 0xFFC0⟩, ⟨0x4E73, 0xFFFF⟩, ⟨0x4E75, 0xFFFF⟩, ⟨0x50C0, 0xF0F8⟩, ⟨0x4E72, 0xFFFF⟩,
  ⟨0x9000, 0xF000⟩, ⟨0x91C0, 0xF1C0⟩, ⟨0x0480, 0xFFF8⟩, ⟨0x5180, 0xF1C0⟩, ⟨0x9180, 0xF1F8⟩,
  ⟨0x4840, 0xFFF8⟩, ⟨0x4E40, 0xFFF0⟩, ⟨0x51F8, 0xFFF8⟩, ⟨0x4A00, 0xFFC0⟩, ⟨0x4A40, 0xFFC0⟩,
  ⟨0x4A80, 0xFFC0⟩, ⟨0x4E58, 0xFFF8⟩, ⟨0x81C0, 0xF0C0⟩, ⟨0x4C40, 0xFFC0⟩]

/-- Those of `div_5206e_register`. -/
def divWord : Instruction := ⟨0x81C0, 0xF0C0⟩
def divLong : Instruction := ⟨0x4C40, 0xFFC0⟩

/-- OR. -/
def orInstruction : Instruction := ⟨0x8000, 0xF000⟩

/-- `(Instr & Mask) == Code` -/
def Instruction.matches (e : Instruction) (instr : BitVec 16) : Bool := instr &&& e.mask == e.code

/-- `Instruction_LookupInstruction` -/
def lookupInstruction (table : List Instruction) (instr : BitVec 16) : Option Instruction :=
  table.find? (·.matches instr)

/-- What `qsort` may make of the table: the biggest mask first, in any order of equal ones. -/
structure Sorted (table : List Instruction) : Prop where
  perm : table.Perm registered
  sorted : table.Pairwise fun x y => y.mask.toNat ≤ x.mask.toNat

namespace State

variable {δ : Type} (b : Board δ) (s : State δ)

/-- `code[1]`, the operands and their values. -/
structure LongOperands where
  code1 : Uint32
  destination : Address
  remainder : Address
  svalue : Uint32
  dvalue : Uint32

/-- The operands of the long format. -/
def longOperands (code0 : Uint32) : Option (Option LongOperands × State δ) := do
  let (_, code1, s) ← s.memoryRetrFromPc b b.uninit 16
  let (ok, source, s) ← s.eaGetFromPc b 32 (bits3 code0 3) (bits3 code0 0)
  if !ok then some (none, s)
  else
    let (ok, destination, s) ← s.eaGetFromPc b 32 0 (bits3 code1 12)
    if !ok then some (none, s)
    else
      let (ok, remainder, s) ← s.eaGetFromPc b 32 0 (bits3 code1 0)
      if !ok then some (none, s)
      else
        let (_, svalue, s) ← s.eaGetValue b b.uninit source
        let (_, dvalue, s) ← s.eaGetValue b b.uninit destination
        some (some ⟨code1, destination, remainder, svalue, dvalue⟩, s)

/-- The magnitude of a signed value. -/
def magnitude (v : Uint32) : Uint32 := if v.slt 0 then -v else v

/-- `d` and `r` of the long format, and `result_negative`, which is a `char`. -/
def longDivide (signed : Bool) (d s : Uint32) : Uint32 × Uint32 × BitVec 8 :=
  let resultNegative : BitVec 8 := if signed then ((s ^^^ d) &&& 0x8000000).setWidth 8 else 0
  let s := if signed then magnitude s else s
  let d := if signed then magnitude d else d
  let r := d % s
  let d := d / s
  let d1 := -d
  (if resultNegative ≠ 0 then d1 else d, r, resultNegative)

/-- The long format, whose `code[0]` is fetched. A division by 0 ends the process. -/
def executeDivLong (code0 : Uint32) : Option (State δ) := do
  let (o, s) ← s.longOperands b code0
  match o with
  | none => some s
  | some o =>
    if o.svalue = 0 then none
    else
      let (d, r, resultNegative) := longDivide (o.code1.getLsbD 11) o.dvalue o.svalue
      if bits3 o.code1 12 ≠ bits3 o.code1 0 then
        let s ← s.eaPutValue b o.remainder r
        some (s.setSr (setFlag 1 false (setFlag 0 false
          (setFlag 2 (r == 0) (setFlag 3 false s.core.sr)))))
      else
        let s ← s.eaPutValue b o.destination d
        some (s.setSr (setFlag 1 false (setFlag 0 false
          (setFlag 2 (d == 0) (setFlag 3 (resultNegative != 0) s.core.sr)))))

/-- The quotient, the remainder and the N flag of the word format; none where C leaves the
division open. -/
def wordDivide (signed : Bool) (d s : Uint32) : Option (Uint32 × Uint32 × Bool) :=
  if s = 0 then none
  else if signed then
    if d = 0x80000000 ∧ s = 0xFFFFFFFF then none
    else
      let q := d.sdiv s
      let q := if q.slt 0 && q &&& 0xffff0000 == 0xffff0000 then q &&& 0xffff else q
      some (q, d.srem s, q.slt 0)
  else some (d / s, d % s, false)

/-- The word format. -/
def executeDivWord (code0 : Uint32) : Option (State δ) := do
  let (ok, source, s) ← s.eaGetFromPc b 16 (bits3 code0 3) (bits3 code0 0)
  if !ok then some s
  else
    let (ok, destination, s) ← s.eaGetFromPc b 32 0 (bits3 code0 9)
    if !ok then some s
    else
      let (_, svalue, s) ← s.eaGetValue b b.uninit source
      let (_, dvalue, s) ← s.eaGetValue b b.uninit destination
      let (q, r, n) ← wordDivide (code0.getLsbD 8) dvalue svalue
      let s := s.setSr (setFlag 3 n s.core.sr)
      if q &&& 0xffff0000 ≠ 0 then
        let sr := setFlag 1 true (setFlag 2 false (setFlag 3 false s.core.sr))
        some (s.setSr (setFlag 0 false sr))
      else
        let d := (r &&& 0xffff) <<< 16 ||| q &&& 0xffff
        let s := s.setSr (setFlag 1 false (setFlag 2 (d &&& 0xffff == 0) s.core.sr))
        let s ← s.eaPutValue b destination d
        some (s.setSr (setFlag 0 false s.core.sr))

/-- `execute` of `i_div.c`. -/
def executeDiv : Option (State δ) := do
  let (_, code0, s) ← s.memoryRetrFromPc b b.uninit 16
  if code0 &&& 0x8000 ≠ 0 then s.executeDivWord b code0 else s.executeDivLong b code0

end State

/-! ## The lookup -/

/-- The opcodes of DIVS.W and DIVU.W. -/
abbrev IsWordForm (instr : BitVec 16) : Prop := instr &&& 0xF0C0 = 0x80C0

/-- The opcodes of DIVS.L, DIVU.L, REMS.L and REMU.L. -/
abbrev IsLongForm (instr : BitVec 16) : Prop := instr &&& 0xFFC0 = 0x4C40

/-- The first match of a sorted table is the one that has the biggest mask of all. -/
theorem lookup_of_unique {table : List Instruction} (h : Sorted table) {e : Instruction}
    (he : e ∈ registered) {instr : BitVec 16} (hm : e.matches instr = true)
    (hu : ∀ x ∈ registered, x.matches instr = true → e.mask.toNat ≤ x.mask.toNat → x = e) :
    lookupInstruction table instr = some e := by
  obtain ⟨x, hx⟩ : ∃ x, lookupInstruction table instr = some x := by
    refine Option.isSome_iff_exists.mp (List.find?_isSome.mpr ⟨e, h.perm.mem_iff.mpr he, hm⟩)
  obtain ⟨hxm, as, bs, rfl, has⟩ := List.find?_eq_some_iff_append.mp hx
  rw [hx]
  refine congrArg some (hu x (h.perm.mem_iff.mp (by simp)) hxm ?_)
  have hmem := h.perm.mem_iff.mpr he
  rcases List.mem_append.mp hmem with ha | hb
  · exact absurd hm (by simpa using has e ha)
  · rcases List.mem_cons.mp hb with rfl | hb
    · exact le_rfl
    · exact (List.pairwise_cons.mp (List.pairwise_append.mp h.sorted).2.1).1 e hb

/-- What a match says of the code, where bits of the instruction are known. -/
theorem code_of_matches {x : Instruction} {instr mask code : BitVec 16}
    (hx : x.matches instr = true) (hi : instr &&& mask = code) :
    x.code &&& x.mask = x.code ∧ x.code &&& mask = code &&& x.mask := by
  have hc : instr &&& x.mask = x.code := beq_iff_eq.mp hx
  constructor
  · rw [← hc, BitVec.and_assoc, BitVec.and_self]
  · rw [← hc, ← hi, BitVec.and_assoc, BitVec.and_assoc, BitVec.and_comm x.mask]

theorem lookup_longForm {table : List Instruction} (h : Sorted table) {instr : BitVec 16}
    (hi : IsLongForm instr) : lookupInstruction table instr = some divLong := by
  refine lookup_of_unique h (by decide) (beq_iff_eq.mpr hi) fun x hx hm hle => ?_
  have hall : ∀ x ∈ registered, x.code &&& x.mask = x.code →
      x.code &&& 0xFFC0 = 0x4C40 &&& x.mask → divLong.mask.toNat ≤ x.mask.toNat → x = divLong := by
    decide
  obtain ⟨h1, h2⟩ := code_of_matches hm hi
  exact hall x hx h1 h2 hle

theorem lookup_wordForm {table : List Instruction} (h : Sorted table) {instr : BitVec 16}
    (hi : IsWordForm instr) : lookupInstruction table instr = some orInstruction := by
  have hor : orInstruction.matches instr = true := by
    refine beq_iff_eq.mpr ?_
    have hmask : (0xF0C0 : BitVec 16) &&& 0xF000 = 0xF000 := by decide
    have := congrArg (· &&& (0xF000 : BitVec 16)) hi
    rwa [BitVec.and_assoc, hmask] at this
  refine lookup_of_unique h (by decide) hor fun x hx hm hle => ?_
  have hall : ∀ x ∈ registered, x.code &&& x.mask = x.code →
      x.code &&& 0xF0C0 = 0x80C0 &&& x.mask → orInstruction.mask.toNat ≤ x.mask.toNat →
        x = orInstruction := by
    decide
  obtain ⟨h1, h2⟩ := code_of_matches hm hi
  exact hall x hx h1 h2 hle

/-! ## The long forms -/

/-- The instructions of the long format. -/
inductive DivKind where
  | divs
  | divu
  | rems
  | remu
  deriving DecidableEq

/-- The kind that `code[1]` has. -/
def divKind (code1 : Uint32) : DivKind :=
  if bits3 code1 12 ≠ bits3 code1 0 then (if code1.getLsbD 11 then .rems else .remu)
  else if code1.getLsbD 11 then .divs else .divu

namespace DivKind

def signed : DivKind → Bool
  | .divs => true
  | .rems => true
  | _ => false

/-- The quotient of the architecture, truncated. -/
def quotient (k : DivKind) (d s : Uint32) : Int :=
  if k.signed then d.toInt.tdiv s.toInt else (d.toNat : Int).tdiv s.toNat

/-- Its remainder, with the sign of the dividend. -/
def remainder (k : DivKind) (d s : Uint32) : Int :=
  if k.signed then d.toInt.tmod s.toInt else (d.toNat : Int).tmod s.toNat

/-- What is written. -/
def value (k : DivKind) (d s : Uint32) : Int :=
  match k with
  | .divs => k.quotient d s
  | .divu => k.quotient d s
  | .rems => k.remainder d s
  | .remu => k.remainder d s

/-- The quotient is representable. -/
def Fits (k : DivKind) (d s : Uint32) : Prop :=
  if k.signed then -2 ^ 31 ≤ k.quotient d s ∧ k.quotient d s < 2 ^ 31
  else k.quotient d s < 2 ^ 32

/-- Where the code gives what the architecture has: where the quotient is representable and what
is written is not negative as a long. -/
def Exact (k : DivKind) (d s : Uint32) : Prop :=
  match k with
  | .divs => ((0 ≤ d.toInt ↔ 0 ≤ s.toInt) ∨ d.toInt.natAbs < s.toInt.natAbs) ∧
      ¬(d = 0x80000000 ∧ s = 0xFFFFFFFF)
  | .rems => (0 ≤ d.toInt ∨ s.toInt ∣ d.toInt) ∧ ¬(d = 0x80000000 ∧ s = 0xFFFFFFFF)
  | .divu => ¬(s = 1 ∧ 2 ^ 31 ≤ d.toNat)
  | .remu => ¬(2 ^ 31 ≤ d.toNat ∧ d.toNat < s.toNat)

variable {d s : Uint32}

theorem toInt_eq_min_iff : d = 0x80000000 ↔ d.toInt = -2 ^ 31 := by
  rw [← BitVec.toInt_inj]
  rfl

theorem toInt_eq_neg_one_iff : s = 0xFFFFFFFF ↔ s.toInt = -1 := by
  rw [← BitVec.toInt_inj]
  rfl

theorem tdiv_cases (a c : Int) (hc : c ≠ 0) :
    (0 ≤ a.tdiv c ↔ (0 ≤ a ↔ 0 ≤ c) ∨ a.natAbs < c.natAbs) := by
  have habs : (a.tdiv c).natAbs = a.natAbs / c.natAbs := Int.natAbs_tdiv a c
  have hpos : 0 < c.natAbs := Int.natAbs_pos.mpr hc
  have hz : a.tdiv c = 0 ↔ a.natAbs < c.natAbs := by
    rw [← Int.natAbs_eq_zero, habs, Nat.div_eq_zero_iff]
    omega
  rcases lt_or_ge a 0 with ha | ha <;> rcases Int.lt_or_gt_of_ne hc with hs | hs
  · have h : 0 ≤ a.tdiv c := by
      have := Int.tdiv_nonneg (a := -a) (b := -c) (by omega) (by omega)
      rwa [Int.neg_tdiv_neg] at this
    exact iff_of_true h (.inl (by omega))
  · have h : a.tdiv c ≤ 0 := by
      have := Int.tdiv_nonneg (a := -a) (b := c) (by omega) (by omega)
      rw [Int.neg_tdiv] at this
      omega
    omega
  · have h : a.tdiv c ≤ 0 := by
      have := Int.tdiv_nonneg (a := a) (b := -c) (by omega) (by omega)
      rw [Int.tdiv_neg] at this
      omega
    omega
  · exact iff_of_true (Int.tdiv_nonneg (by omega) (by omega)) (.inl (by omega))

/-- A quotient of two longs is one but for the least by -1. -/
theorem tdiv_lt_iff (hs : s ≠ 0) :
    (-2 ^ 31 ≤ d.toInt.tdiv s.toInt ∧ d.toInt.tdiv s.toInt < 2 ^ 31) ↔
      ¬(d = 0x80000000 ∧ s = 0xFFFFFFFF) := by
  rw [toInt_eq_min_iff, toInt_eq_neg_one_iff]
  have hd := BitVec.le_toInt d
  have hd' := BitVec.toInt_lt (x := d)
  have hne : s.toInt ≠ 0 := fun h => hs (BitVec.eq_of_toInt_eq h)
  have habs : (d.toInt.tdiv s.toInt).natAbs = d.toInt.natAbs / s.toInt.natAbs :=
    Int.natAbs_tdiv _ _
  simp only [Nat.reduceSub] at hd hd'
  by_cases h1 : s.toInt = -1
  · have hq : d.toInt.tdiv s.toInt = -d.toInt := by rw [h1, Int.tdiv_neg, Int.tdiv_one]
    rw [hq]
    omega
  · by_cases h2 : s.toInt = 1
    · rw [h2, Int.tdiv_one]
      omega
    · have hle : d.toInt.natAbs / s.toInt.natAbs ≤ d.toInt.natAbs / 2 :=
        Nat.div_le_div_left (by omega) (by decide)
      omega

theorem tmod_cases (a c : Int) : 0 ≤ a.tmod c ↔ 0 ≤ a ∨ c ∣ a := by
  rw [Int.dvd_iff_tmod_eq_zero]
  rcases lt_or_ge a 0 with ha | ha
  · have h : a.tmod c ≤ 0 := by
      have := Int.tmod_nonneg (a := -a) c (by omega)
      rw [Int.neg_tmod] at this
      omega
    omega
  · exact iff_of_true (Int.tmod_nonneg c ha) (.inl ha)

theorem tmod_lt (hs : s ≠ 0) : d.toInt.tmod s.toInt < 2 ^ 31 := by
  have hl := BitVec.le_toInt s
  have hl' := BitVec.toInt_lt (x := s)
  have hne : s.toInt ≠ 0 := fun h => hs (BitVec.eq_of_toInt_eq h)
  have habs : (d.toInt.tmod s.toInt).natAbs = d.toInt.natAbs % s.toInt.natAbs :=
    Int.natAbs_tmod _ _
  have hlt := Nat.mod_lt d.toInt.natAbs (Int.natAbs_pos.mpr hne)
  simp only [Nat.reduceSub] at hl hl'
  omega

theorem exact_iff (k : DivKind) (hs : s ≠ 0) :
    (k.Fits d s ∧ 0 ≤ k.value d s ∧ k.value d s < 2 ^ 31) ↔ k.Exact d s := by
  have hne : s.toInt ≠ 0 := fun h => hs (BitVec.eq_of_toInt_eq h)
  have hpos : 0 < s.toNat := Nat.pos_of_ne_zero fun h => hs (BitVec.eq_of_toNat_eq h)
  have hd := d.isLt
  have hs' := s.isLt
  cases k with
  | divs =>
    simp only [Fits, value, quotient, signed, if_true, Exact, ← tdiv_cases _ _ hne,
      ← tdiv_lt_iff hs]
    omega
  | rems =>
    have hlt := tmod_lt (d := d) hs
    simp only [Fits, value, quotient, remainder, signed, if_true, Exact, ← tmod_cases,
      ← tdiv_lt_iff hs]
    omega
  | divu =>
    have hq : d.toNat / s.toNat ≤ d.toNat := Nat.div_le_self _ _
    have h1 : s = 1 ↔ s.toNat = 1 := BitVec.toNat_inj.symm
    simp only [Fits, value, quotient, signed, Bool.false_eq_true, if_false, Exact,
      ← Int.ofNat_tdiv, h1]
    rcases Nat.lt_or_ge 1 s.toNat with h | h
    · have hh : d.toNat / s.toNat ≤ d.toNat / 2 := Nat.div_le_div_left h (by decide)
      generalize d.toNat / s.toNat = q at hh
      omega
    · have : s.toNat = 1 := by omega
      rw [this, Nat.div_one]
      omega
  | remu =>
    have hq : d.toNat / s.toNat ≤ d.toNat := Nat.div_le_self _ _
    have hr := Nat.mod_lt d.toNat hpos
    simp only [Fits, value, quotient, remainder, signed, Bool.false_eq_true, if_false, Exact,
      ← Int.ofNat_tdiv, ← Int.ofNat_tmod]
    rcases Nat.lt_or_ge d.toNat s.toNat with h | h
    · rw [Nat.mod_eq_of_lt h, Nat.div_eq_of_lt h]
      omega
    · have hle : d.toNat % s.toNat ≤ d.toNat - s.toNat := by
        rw [Nat.mod_eq_sub_mod h]
        exact Nat.mod_le _ _
      generalize d.toNat % s.toNat = r at hle hr
      generalize d.toNat / s.toNat = q at hq
      omega

end DivKind

open SkyEye.ColdFire.State (longDivide)

theorem toNat_magnitude (v : Uint32) : (State.magnitude v).toNat = v.toInt.natAbs := by
  have hslt : v.slt 0 = v.msb := BitVec.slt_zero_eq_msb
  rw [State.magnitude, hslt]
  cases hm : v.msb with
  | false =>
    rw [BitVec.toInt_eq_toNat_of_msb hm]
    rfl
  | true =>
    have hlt := v.isLt
    have hge := BitVec.msb_eq_true_iff_two_mul_ge.mp hm
    rw [BitVec.toInt_eq_msb_cond, hm]
    simp only [if_true, BitVec.toNat_neg]
    omega

theorem natAbs_value (k : DivKind) (d s : Uint32) :
    (k.value d s).natAbs =
      (match k with
        | .divs => State.magnitude d / State.magnitude s
        | .divu => d / s
        | .rems => State.magnitude d % State.magnitude s
        | .remu => d % s : Uint32).toNat := by
  cases k with
  | divs =>
    rw [BitVec.toNat_udiv, toNat_magnitude, toNat_magnitude]
    exact Int.natAbs_tdiv _ _
  | divu =>
    rw [BitVec.toNat_udiv]
    exact Int.natAbs_tdiv d.toNat s.toNat
  | rems =>
    rw [BitVec.toNat_umod, toNat_magnitude, toNat_magnitude]
    exact Int.natAbs_tmod _ _
  | remu =>
    rw [BitVec.toNat_umod]
    exact Int.natAbs_tmod d.toNat s.toNat

/-- The sign is lost. -/
theorem resultNegative_eq_zero (d s : Uint32) : ((s ^^^ d) &&& 0x8000000).setWidth 8 = 0#8 := by
  rw [BitVec.setWidth_and, show (0x8000000 : Uint32).setWidth 8 = 0#8 from rfl, BitVec.and_zero]

/-- What the code writes, of the kind that `code[1]` has. -/
theorem longDivide_eq (code1 d s : Uint32) :
    (longDivide (code1.getLsbD 11) d s).2.2 = 0 ∧
      (if bits3 code1 12 ≠ bits3 code1 0 then (longDivide (code1.getLsbD 11) d s).2.1
        else (longDivide (code1.getLsbD 11) d s).1).toNat = ((divKind code1).value d s).natAbs := by
  rw [natAbs_value]
  unfold divKind
  cases h11 : code1.getLsbD 11 with
  | false =>
    refine ⟨rfl, ?_⟩
    split
    · rfl
    · rfl
  | true =>
    have hl : longDivide true d s =
        (State.magnitude d / State.magnitude s, State.magnitude d % State.magnitude s, 0) := by
      simp only [longDivide, if_true, resultNegative_eq_zero]
      rfl
    rw [hl]
    refine ⟨rfl, ?_⟩
    split
    · rfl
    · rfl

namespace State

variable {δ : Type} {b : Board δ} {s t u : State δ}

/-- What the architecture has for an instruction of the long format, from the state `u` after its
fetch: the register `r` has the value, N and Z are of it, and V and C clear; or V is set, and
the register stays, where the quotient is not representable. -/
structure Divided (k : DivKind) (dv sv : Uint32) (r : Fin 8) (u t : State δ) : Prop where
  fits : k.Fits dv sv → ∃ v, v = BitVec.ofInt 32 (k.value dv sv) ∧
    t = (u.setSr t.core.sr).setD r v ∧ (flags t.core.sr).n = v.msb ∧
    (flags t.core.sr).z = (v == 0) ∧ (flags t.core.sr).v = false
  overflow : ¬k.Fits dv sv → t = u.setSr t.core.sr ∧ (flags t.core.sr).v = true
  c : (flags t.core.sr).c = false

theorem divided_iff (k : DivKind) {dv sv x : Uint32} (hs : sv ≠ 0)
    (hx : x.toNat = (k.value dv sv).natAbs) (r : Fin 8) {sr : Uint32}
    (hf : flags sr = ⟨(flags u.core.sr).x, false, x == 0, false, false⟩) :
    Divided k dv sv r u ((u.setD r x).setSr sr) ↔ k.Exact dv sv := by
  rw [← DivKind.exact_iff k hs]
  have hxl := x.isLt
  constructor
  · intro h
    have hfits : k.Fits dv sv := by
      by_contra hn
      have := (h.overflow hn).2
      rw [show ((u.setD r x).setSr sr).core.sr = sr from rfl, hf] at this
      cases this
    obtain ⟨v, hv, ht, hn, -, -⟩ := h.fits hfits
    have hvx : v = x := by
      have := congrArg (fun s : State δ => s.core.d r) ht
      simpa [setD, setSr] using this.symm
    rw [show ((u.setD r x).setSr sr).core.sr = sr from rfl, hf, hvx] at hn
    have hlt : x.toNat < 2 ^ 31 := by
      have := BitVec.msb_eq_false_iff_two_mul_lt.mp hn.symm
      omega
    have hmod : ((k.value dv sv) % (2 ^ 32 : Nat)).toNat = x.toNat := by
      rw [← BitVec.toNat_ofInt, ← hv, hvx]
    exact ⟨hfits, by omega, by omega⟩
  · rintro ⟨hfits, h0, hlt⟩
    have hval : BitVec.ofInt 32 (k.value dv sv) = x := by
      apply BitVec.eq_of_toNat_eq
      rw [BitVec.toNat_ofInt]
      omega
    have hmsb : x.msb = false := by
      rw [BitVec.msb_eq_false_iff_two_mul_lt]
      omega
    refine ⟨fun _ => ⟨x, hval.symm, rfl, ?_, ?_, ?_⟩, fun hn => absurd hfits hn, ?_⟩
    all_goals rw [show ((u.setD r x).setSr sr).core.sr = sr from rfl, hf]
    exact hmsb.symm

theorem eaGetFromPc_d (n : Fin 8) :
    s.eaGetFromPc b 32 0 n = some (true, ⟨32, 0, n, 0xdeadbeef, 0⟩, s) := rfl

theorem eaGetValue_d {r : Uint32} (n : Fin 8) :
    s.eaGetValue b r ⟨32, 0, n, 0xdeadbeef, 0⟩ = some (true, s.core.d n, s) :=
  eaGetValue_register rfl rfl

theorem longOperands_some {code0 : Uint32} {o : LongOperands}
    (h : s.longOperands b code0 = some (some o, u)) :
    o.destination = ⟨32, 0, bits3 o.code1 12, 0xdeadbeef, 0⟩ ∧
      o.remainder = ⟨32, 0, bits3 o.code1 0, 0xdeadbeef, 0⟩ ∧
      o.dvalue = u.core.d (bits3 o.code1 12) := by
  simp only [longOperands, Option.bind_eq_bind] at h
  obtain ⟨⟨_, code1, v⟩, -, h⟩ := Option.bind_eq_some_iff.mp h
  obtain ⟨⟨ok, source, w⟩, -, h⟩ := Option.bind_eq_some_iff.mp h
  cases ok
  · cases h
  · simp only [Bool.not_true, Bool.false_eq_true, if_false, eaGetFromPc_d, Option.bind_some] at h
    obtain ⟨⟨_, svalue, x⟩, -, h⟩ := Option.bind_eq_some_iff.mp h
    simp only [eaGetValue_d, Option.bind_some] at h
    cases h
    exact ⟨rfl, rfl, rfl⟩

/-- The register that the instruction writes. -/
def longTarget (code1 : Uint32) : Fin 8 :=
  if bits3 code1 12 ≠ bits3 code1 0 then bits3 code1 0 else bits3 code1 12

theorem executeDiv_long {ok : Bool} {code0 : Uint32} {o : LongOperands} {v : State δ}
    (hu : s.memoryRetrFromPc b b.uninit 16 = some (ok, code0, u)) (hw : code0 &&& 0x8000 = 0)
    (ho : u.longOperands b code0 = some (some o, v)) (hs : o.svalue ≠ 0) :
    ∃ x sr, x.toNat = ((divKind o.code1).value o.dvalue o.svalue).natAbs ∧
      flags sr = ⟨(flags v.core.sr).x, false, x == 0, false, false⟩ ∧
      s.executeDiv b = some ((v.setD (longTarget o.code1) x).setSr sr) := by
  obtain ⟨hd, hr, -⟩ := longOperands_some ho
  obtain ⟨hneg, hx⟩ := longDivide_eq o.code1 o.dvalue o.svalue
  have hflags : ∀ (z : Bool) (sr : Uint32),
      flags (setFlag 1 false (setFlag 0 false (setFlag 2 z (setFlag 3 false sr)))) =
        ⟨(flags sr).x, false, z, false, false⟩ := by
    intro z sr
    rw [flags_clearV, flags_clearC, flags_setNz]
  have hrun : s.executeDiv b = u.executeDivLong b code0 := by
    simp only [executeDiv, hu, Option.bind_eq_bind, Option.bind_some, hw, ne_eq,
      not_true_eq_false, if_false]
  rw [hrun]
  simp only [executeDivLong, ho, Option.bind_eq_bind, Option.bind_some, if_neg hs, hneg, hr, hd,
    eaPutValue_long]
  by_cases hrem : bits3 o.code1 12 ≠ bits3 o.code1 0
  · rw [if_pos hrem] at hx
    refine ⟨_, _, hx, hflags _ _, ?_⟩
    rw [if_pos hrem, longTarget, if_pos hrem]
    rfl
  · rw [if_neg hrem] at hx
    refine ⟨_, _, hx, hflags _ _, ?_⟩
    rw [if_neg hrem, longTarget, if_neg hrem]
    rfl

/-- The word forms are never found, OR is; the long forms are, and have the result of the
architecture where it is not negative. -/
theorem divide_exact_iff (b : Board δ) {table : List Instruction} (h : Sorted table)
    (instr : BitVec 16) :
    (IsWordForm instr → lookupInstruction table instr = some orInstruction) ∧
    (IsLongForm instr → lookupInstruction table instr = some divLong ∧
      ∀ (s u v : State δ) (ok : Bool) (o : LongOperands),
        s.memoryRetrFromPc b b.uninit 16 = some (ok, instr.setWidth 32, u) →
        u.longOperands b (instr.setWidth 32) = some (some o, v) → o.svalue ≠ 0 →
        o.dvalue = v.core.d (bits3 o.code1 12) ∧ ∃ t, s.executeDiv b = some t ∧
          (Divided (divKind o.code1) o.dvalue o.svalue (longTarget o.code1) v t ↔
            (divKind o.code1).Exact o.dvalue o.svalue)) := by
  refine ⟨lookup_wordForm h, fun hi => ⟨lookup_longForm h hi, fun s u v ok o hu ho hs => ?_⟩⟩
  have hw : instr.setWidth 32 &&& 0x8000 = 0 := by
    have hbit : instr &&& 0x8000 = 0 := by
      have hmask : (0xFFC0 : BitVec 16) &&& 0x8000 = 0x8000 := by decide
      have := congrArg (· &&& (0x8000 : BitVec 16)) hi
      rwa [BitVec.and_assoc, hmask] at this
    have := congrArg (·.setWidth 32) hbit
    rwa [BitVec.setWidth_and] at this
  obtain ⟨x, sr, hx, hf, ht⟩ := executeDiv_long hu hw ho hs
  exact ⟨(longOperands_some ho).2.2, _, ht, divided_iff _ hs hx _ hf⟩

/-- A table that `qsort` may make. -/
def sortedTable : List Instruction := registered.mergeSort fun x y => y.mask.toNat ≤ x.mask.toNat

theorem sorted_sortedTable : Sorted sortedTable where
  perm := List.mergeSort_perm _ _
  sorted := by
    have h : sortedTable.Pairwise fun x y => decide (y.mask.toNat ≤ x.mask.toNat) = true :=
      List.pairwise_mergeSort (fun a b c => by simp; omega) (fun a b => by simp; omega) registered
    simpa using h

/-- DIVS.L D0,D1 of -8 by 2. -/
def negativeDividend : State Unit :=
  { plainState with
    core := { plainState.core with d := fun r => if r = 0 then 2 else 0xFFFFFFF8 }
    ram := fun _ k => if k = 0x102 then 0x4C else if k = 0x103 then 0x40 else if k = 0x104 then 0x18
      else 0x01 }

/-- Its operands. -/
def negativeOperands : LongOperands :=
  ⟨0x1801, ⟨32, 0, 1, 0xdeadbeef, 0⟩, ⟨32, 0, 1, 0xdeadbeef, 0⟩, 2, 0xFFFFFFF8⟩

theorem divide_exact_iff_sorted :
    lookupInstruction sortedTable 0x80C1 = some orInstruction ∧
      lookupInstruction sortedTable 0x4C40 = some divLong ∧
      ∃ t, negativeDividend.executeDiv plainBoard = some t ∧
        (Divided (divKind 0x1801) 0xFFFFFFF8 2 (longTarget 0x1801)
            (negativeDividend.setPc 0x106) t ↔ (divKind 0x1801).Exact 0xFFFFFFF8 2) := by
  have h := (divide_exact_iff plainBoard sorted_sortedTable 0x4C40).2 (by decide)
  exact ⟨(divide_exact_iff plainBoard sorted_sortedTable 0x80C1).1 (by decide), h.1,
    (h.2 negativeDividend (negativeDividend.setPc 0x104) (negativeDividend.setPc 0x106) true
      negativeOperands rfl rfl (by decide)).2⟩

/-- DIVU.W is not found, and -8 by 2 is 4. -/
theorem not_divide_exact :
    (¬∀ table, Sorted table → ∀ instr, IsWordForm instr →
      ∃ e, lookupInstruction table instr = some e ∧ (e = divWord ∨ e = divLong)) ∧
    ¬∀ (b : Board Unit) (s u v t : State Unit) (ok : Bool) (o : LongOperands) (instr : BitVec 16),
      IsLongForm instr → s.memoryRetrFromPc b b.uninit 16 = some (ok, instr.setWidth 32, u) →
      u.longOperands b (instr.setWidth 32) = some (some o, v) → o.svalue ≠ 0 →
      s.executeDiv b = some t →
      Divided (divKind o.code1) o.dvalue o.svalue (longTarget o.code1) v t := by
  constructor
  · intro h
    obtain ⟨e, he, hdiv⟩ := h sortedTable sorted_sortedTable 0x80C1 (by decide)
    rw [lookup_wordForm sorted_sortedTable (by decide)] at he
    cases he
    revert hdiv
    decide
  · intro h
    have ht : (negativeDividend.executeDiv plainBoard).isSome = true := by decide
    obtain ⟨t, ht⟩ := Option.isSome_iff_exists.mp ht
    have hdiv := h plainBoard negativeDividend (negativeDividend.setPc 0x104)
      (negativeDividend.setPc 0x106) t true negativeOperands 0x4C40 (by decide) rfl rfl (by decide)
      ht
    have hk : divKind negativeOperands.code1 = .divs := by decide
    obtain ⟨v, hv, -, hn, -⟩ := hdiv.fits (by rw [hk, DivKind.Fits]; decide)
    have hr : (negativeDividend.executeDiv plainBoard).map (fun t => (flags t.core.sr).n) =
        some false := by decide
    rw [ht] at hr
    rw [hv, hk] at hn
    exact absurd ((Option.some.inj hr).symm.trans hn) (by decide)

end State

end SkyEye.ColdFire
