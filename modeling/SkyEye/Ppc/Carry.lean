import SkyEye.Lib.MultiWord
import SkyEye.Ppc.LoadStore
import SkyEye.Ppc.Lookup

/-!
# Arithmetic with the carry

The instructions of `ppc_alu.c` that set XER[CA]. Each computes its carry with a test of its
own; all of them are additions of two words and a carry. In a row they add or subtract
numbers of any length.
-/

namespace SkyEye.Ppc

open Sparc (Uint32)
open MultiWord (wide)

abbrev xerCa : Uint32 := 1 <<< 29
abbrev crCr0Lt : Uint32 := 1 <<< 31
abbrev crCr0Gt : Uint32 := 1 <<< 30

def ppcCarry3 (a b c : Uint32) : Bool := decide (a + b < a) || decide (a + b + c < c)

/-- The instructions. -/
inductive CarryOp where
  | addc
  | adde
  | addic
  | addicRc
  | addme
  | addze
  | subfc
  | subfe
  | subfic
  | subfme
  | subfze
  deriving DecidableEq

namespace E500Core

variable {M : Type} (s : E500Core M)

def ppcUpdateCr0 (r : Uint32) : E500Core M :=
  let cr := s.cr &&& 0x0FFFFFFF
  let cr :=
    if r = 0 then cr ||| crCr0Eq
    else if r &&& 0x80000000 ≠ 0 then cr ||| crCr0Lt
    else cr ||| crCr0Gt
  { s with cr := if s.xer &&& xerSo ≠ 0 then cr ||| crCr0So else cr }

/-- `xer & XER_CA` -/
def ca : Bool := s.xer &&& xerCa != 0

/-- `ca` as a number. -/
def caWord : Uint32 := if s.ca then 1 else 0

/-- The update of XER. -/
def setCa (c : Bool) : E500Core M :=
  { s with xer := if c then s.xer ||| xerCa else s.xer &&& ~~~xerCa }

/-- `if (current_opc & PPC_OPC_Rc)` -/
def recordRc (rD : Nat) : E500Core M :=
  if s.currentOpc &&& 1 ≠ 0 then s.ppcUpdateCr0 (s.gpr rD) else s

/-- `gpr[rA]` -/
def gprA : Uint32 := s.gpr (rA s.currentOpc)

/-- `gpr[rB]` -/
def gprB : Uint32 := s.gpr (rB s.currentOpc)

/-- `gpr[rD] = v` -/
def setGprD (v : Uint32) : E500Core M := s.setGpr (rD s.currentOpc) v

/-- `gpr[rD]` -/
def gprD : Uint32 := s.gpr (rD s.currentOpc)

def ppcOpcAddcx : E500Core M :=
  let a := s.gprA
  let s := s.setGprD (a + s.gprB)
  (s.setCa (decide (s.gprD < a))).recordRc (rD s.currentOpc)

def ppcOpcAddex : E500Core M :=
  let a := s.gprA
  let b := s.gprB
  let ca := s.caWord
  ((s.setGprD (a + b + ca)).setCa (ppcCarry3 a b ca)).recordRc (rD s.currentOpc)

def ppcOpcAddic : E500Core M :=
  let a := s.gprA
  let s := s.setGprD (a + simm s.currentOpc)
  s.setCa (decide (s.gprD < a))

/-- `ppc_opc_addic_` -/
def ppcOpcAddicRc : E500Core M :=
  let s := s.ppcOpcAddic
  s.ppcUpdateCr0 s.gprD

def ppcOpcAddmex : E500Core M :=
  let a := s.gprA
  let ca := s.caWord
  ((s.setGprD (a + ca + 0xFFFFFFFF)).setCa (a != 0 || ca != 0)).recordRc (rD s.currentOpc)

def ppcOpcAddzex : E500Core M :=
  let a := s.gprA
  let ca := s.caWord
  ((s.setGprD (a + ca)).setCa (a == 0xFFFFFFFF && ca != 0)).recordRc (rD s.currentOpc)

def ppcOpcSubfcx : E500Core M :=
  let a := s.gprA
  let b := s.gprB
  ((s.setGprD (~~~a + b + 1)).setCa (ppcCarry3 (~~~a) b 1)).recordRc (rD s.currentOpc)

def ppcOpcSubfex : E500Core M :=
  let a := s.gprA
  let b := s.gprB
  let ca := s.caWord
  ((s.setGprD (~~~a + b + ca)).setCa (ppcCarry3 (~~~a) b ca)).recordRc (rD s.currentOpc)

def ppcOpcSubfic : E500Core M :=
  let a := s.gprA
  let imm := simm s.currentOpc
  (s.setGprD (~~~a + imm + 1)).setCa (ppcCarry3 (~~~a) imm 1)

def ppcOpcSubfmex : E500Core M :=
  let a := s.gprA
  let ca := s.caWord
  ((s.setGprD (~~~a + ca + 0xFFFFFFFF)).setCa (a != 0xFFFFFFFF || ca != 0)).recordRc
    (rD s.currentOpc)

def ppcOpcSubfzex : E500Core M :=
  let a := s.gprA
  let ca := s.caWord
  ((s.setGprD (~~~a + ca)).setCa (a == 0 && ca != 0)).recordRc (rD s.currentOpc)

/-- The instruction `op`, whose word is `current_opc`. -/
def carryOp : CarryOp → E500Core M
  | .addc => s.ppcOpcAddcx
  | .adde => s.ppcOpcAddex
  | .addic => s.ppcOpcAddic
  | .addicRc => s.ppcOpcAddicRc
  | .addme => s.ppcOpcAddmex
  | .addze => s.ppcOpcAddzex
  | .subfc => s.ppcOpcSubfcx
  | .subfe => s.ppcOpcSubfex
  | .subfic => s.ppcOpcSubfic
  | .subfme => s.ppcOpcSubfmex
  | .subfze => s.ppcOpcSubfzex

/-- What the instruction adds: two words and a carry. -/
def addends : CarryOp → Uint32 × Uint32 × Bool
  | .addc => (s.gprA, s.gprB, false)
  | .adde => (s.gprA, s.gprB, s.ca)
  | .addic => (s.gprA, simm s.currentOpc, false)
  | .addicRc => (s.gprA, simm s.currentOpc, false)
  | .addme => (s.gprA, 0xFFFFFFFF, s.ca)
  | .addze => (s.gprA, 0, s.ca)
  | .subfc => (~~~s.gprA, s.gprB, true)
  | .subfe => (~~~s.gprA, s.gprB, s.ca)
  | .subfic => (~~~s.gprA, simm s.currentOpc, true)
  | .subfme => (~~~s.gprA, 0xFFFFFFFF, s.ca)
  | .subfze => (~~~s.gprA, 0, s.ca)

/-- `n` instructions in a row, with the words `opc 0` up to `opc (n - 1)`: the first is `first`
and the others are `next`. -/
def words (first next : CarryOp) (opc : Nat → Uint32) : Nat → E500Core M
  | 0 => s
  | k + 1 => { words first next opc k with currentOpc := opc k }.carryOp
      (if k = 0 then first else next)

/-- The word that the `k`th of them writes. -/
def wordOf (first next : CarryOp) (opc : Nat → Uint32) (k : Nat) : Uint32 :=
  (s.words first next opc (k + 1)).gpr (rD (opc k))

end E500Core

/-- The words that `n` instructions write are not operands of later ones. -/
def Separate (opc : Nat → Uint32) (n : Nat) : Prop :=
  ∀ i j, i < j → j < n → rD (opc i) ≠ rA (opc j) ∧ rD (opc i) ≠ rB (opc j)

/-- `t` has the sum of the two words and the carry in the destination and the carry of it in
XER, and nothing else changes but CR0. -/
structure Sums {M : Type} (s t : E500Core M) (x y : Uint32) (c : Bool) : Prop where
  result : t.gpr (rD s.currentOpc) = AddWithCarry.sum x y c
  carry : t.ca = AddWithCarry.carry x y c
  xer : t.xer &&& ~~~xerCa = s.xer &&& ~~~xerCa
  gpr : ∀ r, r ≠ rD s.currentOpc → t.gpr r = s.gpr r

/-! ## The tests of the carry -/

theorem carry_of_lt (a b : Uint32) : decide (a + b < a) = AddWithCarry.carry a b false := by
  have ha := a.isLt
  have hb := b.isLt
  rw [Bool.eq_iff_iff, AddWithCarry.carry_eq_true_iff, decide_eq_true_eq, BitVec.lt_def,
    BitVec.toNat_add, Bool.toNat_false]
  omega

theorem carry_three (a b : Uint32) (c : Bool) :
    ppcCarry3 a b (if c then 1 else 0) = AddWithCarry.carry a b c := by
  have ha := a.isLt
  have hb := b.isLt
  rw [Bool.eq_iff_iff, AddWithCarry.carry_eq_true_iff, ppcCarry3, Bool.or_eq_true,
    decide_eq_true_eq, decide_eq_true_eq, BitVec.lt_def, BitVec.lt_def, BitVec.toNat_add,
    BitVec.toNat_add, BitVec.toNat_add]
  cases c
  · have h0 : (0 : Uint32).toNat = 0 := rfl
    simp only [Bool.false_eq_true, if_false, h0, Bool.toNat_false]
    omega
  · have h1 : (1 : Uint32).toNat = 1 := rfl
    simp only [if_true, h1, Bool.toNat_true]
    omega

theorem eq_zero_iff (a : Uint32) : a = 0 ↔ a.toNat = 0 := by
  rw [← BitVec.toNat_inj]
  rfl

theorem eq_ones_iff (a : Uint32) : a = 0xFFFFFFFF ↔ a.toNat = 2 ^ 32 - 1 := by
  rw [← BitVec.toNat_inj]
  rfl

/-- The test of `addme` and `subfme`. -/
theorem carry_ones (a : Uint32) (c : Bool) :
    (a != 0 || c) = AddWithCarry.carry a 0xFFFFFFFF c := by
  have ha := a.isLt
  have h0 := eq_zero_iff a
  have ho : (0xFFFFFFFF : Uint32).toNat = 2 ^ 32 - 1 := rfl
  rw [Bool.eq_iff_iff, AddWithCarry.carry_eq_true_iff, Bool.or_eq_true, bne_iff_ne, ne_eq, h0, ho]
  cases c
  · simp
    omega
  · simp

/-- The test of `addze` and `subfze`. -/
theorem carry_zero (a : Uint32) (c : Bool) :
    (a == 0xFFFFFFFF && c) = AddWithCarry.carry a 0 c := by
  have ha := a.isLt
  have h0 := eq_ones_iff a
  have hz : (0 : Uint32).toNat = 0 := rfl
  rw [Bool.eq_iff_iff, AddWithCarry.carry_eq_true_iff, Bool.and_eq_true, beq_iff_eq, h0, hz]
  cases c
  · simp
    omega
  · simp
    omega

theorem sum_false {w : Nat} (x y : BitVec w) : x + y = AddWithCarry.sum x y false := by
  simp [AddWithCarry.sum]

/-- The complement and a carry subtract. -/
theorem sum_not_true {w : Nat} (x y : BitVec w) : AddWithCarry.sum (~~~x) y true = y - x := by
  have h := SubWithBorrow.diff_eq_sum y x false
  rw [SubWithBorrow.diff, Bool.not_false] at h
  rw [AddWithCarry.sum, BitVec.add_comm (~~~x)]
  simpa [AddWithCarry.sum] using h.symm

theorem carry_not_true {w : Nat} (x y : BitVec w) :
    AddWithCarry.carry (~~~x) y true = decide (x.toNat ≤ y.toNat) := by
  have hx := x.isLt
  have hn : (~~~x).toNat = 2 ^ w - 1 - x.toNat := BitVec.toNat_not
  rw [Bool.eq_iff_iff, AddWithCarry.carry_eq_true_iff, decide_eq_true_eq, hn, Bool.toNat_true]
  omega

/-! ## One instruction -/

namespace E500Core

variable {M : Type} (s : E500Core M)

theorem ppcUpdateCr0_eq (r : Uint32) : ∃ cr, s.ppcUpdateCr0 r = { s with cr := cr } := ⟨_, rfl⟩

theorem recordRc_eq (rD : Nat) : ∃ cr, s.recordRc rD = { s with cr := cr } := by
  unfold recordRc
  split
  · exact s.ppcUpdateCr0_eq _
  · exact ⟨s.cr, rfl⟩

@[simp] theorem gprD_setGprD (v : Uint32) : (s.setGprD v).gprD = v := Function.update_self ..

@[simp] theorem ca_setCa (c : Bool) : (s.setCa c).ca = c := by
  unfold ca setCa
  cases c
  · simp only [Bool.false_eq_true, if_false]
    rw [BitVec.and_assoc, show ~~~xerCa &&& xerCa = 0#32 by decide, BitVec.and_zero]
    rfl
  · simp only [if_true]
    rw [bne_iff_ne, BitVec.and_comm, BitVec.and_or_distrib_left, BitVec.and_self]
    intro h
    have hb := congrArg (·.getLsbD 29) h
    have hx : xerCa.getLsbD 29 = true := by decide
    simp only [BitVec.getLsbD_or, hx, Bool.or_true] at hb
    cases hb

theorem xer_setCa (c : Bool) : (s.setCa c).xer &&& ~~~xerCa = s.xer &&& ~~~xerCa := by
  unfold setCa
  cases c
  · simp only [Bool.false_eq_true, if_false]
    rw [BitVec.and_assoc, BitVec.and_self]
  · simp only [if_true]
    rw [BitVec.and_comm, BitVec.and_or_distrib_left, show ~~~xerCa &&& xerCa = 0#32 by decide,
      BitVec.or_zero, BitVec.and_comm]

/-- The result is written, then the carry, then CR0. -/
theorem sums_of_eq {v x y : Uint32} {b c : Bool} (cr : Uint32) (hv : v = AddWithCarry.sum x y c)
    (hb : b = AddWithCarry.carry x y c) :
    Sums s { (s.setGprD v).setCa b with cr := cr } x y c where
  result := by
    rw [← hv]
    exact Function.update_self ..
  carry := by
    rw [← hb]
    exact ca_setCa _ b
  xer := xer_setCa _ b
  gpr := fun _ hr => Function.update_of_ne hr _ _

theorem sums_recordRc {v x y : Uint32} {b c : Bool} {r : Nat} (hv : v = AddWithCarry.sum x y c)
    (hb : b = AddWithCarry.carry x y c) :
    Sums s (((s.setGprD v).setCa b).recordRc r) x y c := by
  obtain ⟨cr, h⟩ := ((s.setGprD v).setCa b).recordRc_eq r
  rw [h]
  exact s.sums_of_eq _ hv hb

theorem caWord_ne (s : E500Core M) : (s.caWord != 0) = s.ca := by
  unfold caWord
  cases s.ca <;> rfl

theorem add_swap (a c y : Uint32) : a + c + y = a + y + c := by
  rw [BitVec.add_assoc, BitVec.add_comm c, ← BitVec.add_assoc]

theorem sum_zero (a : Uint32) (c : Bool) :
    a + (if c then 1 else 0) = AddWithCarry.sum a 0 c := by
  rw [AddWithCarry.sum, show a + 0 = a from BitVec.add_zero a]

/-- Each instruction adds its words and sets the carry of the sum. -/
theorem sums_carryOp (op : CarryOp) :
    Sums s (s.carryOp op) (s.addends op).1 (s.addends op).2.1 (s.addends op).2.2 := by
  cases op with
  | addc =>
    refine s.sums_recordRc (sum_false _ _) ?_
    rw [gprD_setGprD]
    exact carry_of_lt _ _
  | adde => exact s.sums_recordRc rfl (carry_three _ _ _)
  | addic =>
    refine s.sums_of_eq s.cr (sum_false _ _) ?_
    rw [gprD_setGprD]
    exact carry_of_lt _ _
  | addicRc =>
    obtain ⟨cr, h⟩ := s.ppcOpcAddic.ppcUpdateCr0_eq s.ppcOpcAddic.gprD
    have hs : s.carryOp .addicRc = { s.ppcOpcAddic with cr := cr } := h
    rw [hs]
    refine s.sums_of_eq _ (sum_false _ _) ?_
    rw [gprD_setGprD]
    exact carry_of_lt _ _
  | addme =>
    refine s.sums_recordRc (add_swap _ _ _) ?_
    rw [caWord_ne]
    exact carry_ones _ _
  | addze =>
    refine s.sums_recordRc (sum_zero _ _) ?_
    rw [caWord_ne]
    exact carry_zero _ _
  | subfc => exact s.sums_recordRc rfl (carry_three _ _ true)
  | subfe => exact s.sums_recordRc rfl (carry_three _ _ _)
  | subfic => exact s.sums_of_eq s.cr rfl (carry_three _ _ true)
  | subfme =>
    refine s.sums_recordRc (add_swap _ _ _) ?_
    rw [caWord_ne]
    have ha : (s.gprA != 0xFFFFFFFF) = (~~~s.gprA != 0) := by
      have := s.gprA.isLt
      rw [Bool.eq_iff_iff, bne_iff_ne, bne_iff_ne, ne_eq, ne_eq, not_iff_not, eq_ones_iff,
        eq_zero_iff, BitVec.toNat_not]
      omega
    rw [ha]
    exact carry_ones _ _
  | subfze =>
    refine s.sums_recordRc (sum_zero _ _) ?_
    rw [caWord_ne]
    have ha : (s.gprA == 0) = (~~~s.gprA == 0xFFFFFFFF) := by
      have := s.gprA.isLt
      rw [Bool.eq_iff_iff, beq_iff_eq, beq_iff_eq, eq_ones_iff, eq_zero_iff, BitVec.toNat_not]
      omega
    rw [ha]
    exact carry_zero _ _

/-! ## Numbers of several words -/

variable {s} {opc : Nat → Uint32} {first next : CarryOp} {n : Nat}

theorem sums_words (first next : CarryOp) (opc : Nat → Uint32) (k : Nat) :
    let t : E500Core M := { s.words first next opc k with currentOpc := opc k }
    let op := if k = 0 then first else next
    Sums t (s.words first next opc (k + 1)) (t.addends op).1 (t.addends op).2.1
      (t.addends op).2.2 :=
  sums_carryOp _ _

/-- A register that none of the instructions writes. -/
theorem gpr_words {r : Nat} (k : Nat) (h : ∀ i < k, rD (opc i) ≠ r) :
    (s.words first next opc k).gpr r = s.gpr r := by
  induction k with
  | zero => rfl
  | succ k ih =>
    rw [(sums_words first next opc k).gpr r (h k (Nat.lt_succ_self k)).symm]
    exact ih fun i hi => h i (Nat.lt_succ_of_lt hi)

theorem xer_words (k : Nat) :
    (s.words first next opc k).xer &&& ~~~xerCa = s.xer &&& ~~~xerCa := by
  induction k with
  | zero => rfl
  | succ k ih => exact (sums_words first next opc k).xer.trans ih

/-- A word stays where it is if the destinations differ. -/
theorem wordOf_kept (hd : ∀ i j, i < j → j < n → rD (opc i) ≠ rD (opc j)) {k : Nat} (hk : k < n) :
    (s.words first next opc n).gpr (rD (opc k)) = s.wordOf first next opc k := by
  induction n with
  | zero => omega
  | succ n ih =>
    rcases Nat.lt_succ_iff_lt_or_eq.mp hk with hlt | rfl
    · rw [(sums_words first next opc n).gpr _ (hd k n hlt (Nat.lt_succ_self n))]
      exact ih (fun i j hij hj => hd i j hij (Nat.lt_succ_of_lt hj)) hlt
    · rfl

/-- The operands of a word are what they were before the first one. -/
theorem gprA_words (hs : Separate opc n) {k : Nat} (hk : k < n) :
    (s.words first next opc k).gpr (rA (opc k)) = s.gpr (rA (opc k)) ∧
      (s.words first next opc k).gpr (rB (opc k)) = s.gpr (rB (opc k)) :=
  ⟨gpr_words k fun i hi => (hs i k hi hk).1, gpr_words k fun i hi => (hs i k hi hk).2⟩

/-- What the `n` instructions leave, of which the first is `first`: the words of the number
`result`, the carry, and all other bits of XER. -/
structure Multiword (s : E500Core M) (first next : CarryOp) (opc : Nat → Uint32) (n : Nat)
    (result : BitVec (MultiWord.size 32 n)) (carry : Bool) : Prop where
  result : wide (s.wordOf first next opc) n = result
  kept : (∀ i j, i < j → j < n → rD (opc i) ≠ rD (opc j)) → ∀ k < n,
    (s.words first next opc n).gpr (rD (opc k)) = s.wordOf first next opc k
  ca : (s.words first next opc n).ca = carry
  xer : (s.words first next opc n).xer &&& ~~~xerCa = s.xer &&& ~~~xerCa

/-- The carry into the word `k`. -/
def carryInto (s : E500Core M) (first next : CarryOp) (opc : Nat → Uint32) (c : Bool) :
    Nat → Bool
  | 0 => c
  | k + 1 => (s.words first next opc (k + 1)).ca

/-- Words `X` and `Y` that the instructions add one after the other, with the carry `c` into
the first, make the sum. -/
theorem multiword_of_addends {X Y : Nat → Uint32} {c : Bool} (hn : 0 < n)
    (h : ∀ k < n, Sums { s.words first next opc k with currentOpc := opc k }
      (s.words first next opc (k + 1)) (X k) (Y k) (s.carryInto first next opc c k)) :
    Multiword s first next opc n (AddWithCarry.sum (wide X n) (wide Y n) c)
      (AddWithCarry.carry (wide X n) (wide Y n) c) := by
  obtain ⟨hsum, hcarry⟩ := MultiWord.wide_sum (R := s.wordOf first next opc)
    (c := s.carryInto first next opc c) (fun k hk => (h k hk).result) fun k hk => (h k hk).carry
  refine ⟨hsum, fun hd k hk => wordOf_kept hd hk, ?_, xer_words n⟩
  obtain ⟨m, rfl⟩ := Nat.exists_eq_succ_of_ne_zero (Nat.pos_iff_ne_zero.mp hn)
  exact hcarry

/-- A word of `addc` and `adde`. -/
theorem sums_addc (s : E500Core M) (hs : Separate opc n) :
    ∀ k < n, Sums { s.words .addc .adde opc k with currentOpc := opc k }
      (s.words .addc .adde opc (k + 1)) (s.gpr (rA (opc k))) (s.gpr (rB (opc k)))
      (s.carryInto .addc .adde opc false k) := by
  intro k hk
  have hw : (s.words .addc .adde opc k).gpr (rA (opc k)) = s.gpr (rA (opc k)) ∧
      (s.words .addc .adde opc k).gpr (rB (opc k)) = s.gpr (rB (opc k)) := gprA_words hs hk
  obtain ⟨ha, hb⟩ := hw
  have h := s.sums_words .addc .adde opc k
  rw [← ha, ← hb]
  cases k with
  | zero => exact h
  | succ k => exact h

/-- A word of `subfc` and `subfe`. -/
theorem sums_subfc (s : E500Core M) (hs : Separate opc n) :
    ∀ k < n, Sums { s.words .subfc .subfe opc k with currentOpc := opc k }
      (s.words .subfc .subfe opc (k + 1)) (~~~s.gpr (rA (opc k))) (s.gpr (rB (opc k)))
      (s.carryInto .subfc .subfe opc true k) := by
  intro k hk
  have hw : (s.words .subfc .subfe opc k).gpr (rA (opc k)) = s.gpr (rA (opc k)) ∧
      (s.words .subfc .subfe opc k).gpr (rB (opc k)) = s.gpr (rB (opc k)) := gprA_words hs hk
  obtain ⟨ha, hb⟩ := hw
  have h := s.sums_words .subfc .subfe opc k
  rw [← ha, ← hb]
  cases k with
  | zero => exact h
  | succ k => exact h

/-- Each of the instructions is an addition of two words and a carry; `addc` and `adde` in a
row add numbers of any length, `subfc` and `subfe` subtract them. -/
theorem carry_multiword (s : E500Core M) (opc : Nat → Uint32) (n : Nat) (hn : 0 < n)
    (hs : Separate opc n) :
    (∀ op, Sums s (s.carryOp op) (s.addends op).1 (s.addends op).2.1 (s.addends op).2.2) ∧
      Multiword s .addc .adde opc n
        (wide (fun k => s.gpr (rA (opc k))) n + wide (fun k => s.gpr (rB (opc k))) n)
        (AddWithCarry.carry (wide (fun k => s.gpr (rA (opc k))) n)
          (wide (fun k => s.gpr (rB (opc k))) n) false) ∧
      Multiword s .subfc .subfe opc n
        (wide (fun k => s.gpr (rB (opc k))) n - wide (fun k => s.gpr (rA (opc k))) n)
        (decide ((wide (fun k => s.gpr (rA (opc k))) n).toNat ≤
          (wide (fun k => s.gpr (rB (opc k))) n).toNat)) := by
  refine ⟨s.sums_carryOp, ?_, ?_⟩
  · have h := multiword_of_addends hn (s.sums_addc hs)
    rwa [← sum_false] at h
  · have h := multiword_of_addends hn (s.sums_subfc hs)
    rwa [MultiWord.wide_not, sum_not_true, carry_not_true] at h

/-- Two words, of which the lower one has a carry and the higher one is written over an
operand of its own. -/
theorem carry_multiword_two :
    let s : E500Core Unit := { onePage ⟨0, by decide⟩ with
      gpr := fun r => if r = 5 then 0xFFFFFFFF else 1 }
    let opc : Nat → Uint32 := fun k => if k = 0 then 0x7C653014 else 0x7C852114
    Separate opc 2 ∧ Multiword s .addc .adde opc 2 (0x100000000#64) true := by
  intro s opc
  have hs : Separate opc 2 := by
    intro i j hij hj
    obtain rfl : i = 0 := by omega
    obtain rfl : j = 1 := by omega
    decide
  have hsum : wide (fun k => s.gpr (rA (opc k))) 2 + wide (fun k => s.gpr (rB (opc k))) 2 =
      0x100000000#64 := by decide
  have hcarry : AddWithCarry.carry (wide (fun k => s.gpr (rA (opc k))) 2)
      (wide (fun k => s.gpr (rB (opc k))) 2) false = true := by decide
  rw [← hsum, ← hcarry]
  exact ⟨hs, (carry_multiword s opc 2 (by decide) hs).2.1⟩

end E500Core

end SkyEye.Ppc
