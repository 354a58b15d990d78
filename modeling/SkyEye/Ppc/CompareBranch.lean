import SkyEye.Ppc.Carry

/-!
# Compares and conditional branches

The compares of `ppc_alu.c`, which set one field of CR, and the branches of `ppc_opc.c` that
go by it and by CTR. The architecture's side is stated over the bits of the instruction word;
what the branches get wrong is LR when they are not taken.
-/

namespace SkyEye.Ppc

open Sparc (Uint32)

namespace Branch

/-- The core with the registers that branches use besides. -/
structure BranchCore (M : Type) extends E500Core M where
  lr : Uint32
  ctr : Uint32

def ppcCmpAndMask : Nat → Uint32
  | 0 => 0xFFFFFFF0
  | 1 => 0xFFFFFF0F
  | 2 => 0xFFFFF0FF
  | 3 => 0xFFFF0FFF
  | 4 => 0xFFF0FFFF
  | 5 => 0xFF0FFFFF
  | 6 => 0xF0FFFFFF
  | _ => 0x0FFFFFFF

/-- The field of CR that a compare is for. -/
def crfD (opc : Uint32) : Nat := rD opc >>> 2

section
variable {M : Type} (s : E500Core M)

/-- The end of every compare: `c` from the two tests, then XER[SO], then the field of CR. -/
def compareEnd (less greater : Bool) : E500Core M :=
  let c : Uint32 := if less then 8 else if greater then 4 else 2
  let c := if s.xer &&& xerSo ≠ 0 then c ||| 1 else c
  let cr := 7 - crfD s.currentOpc
  { s with cr := (s.cr &&& ppcCmpAndMask cr) ||| (c <<< (cr * 4)) }

def ppcOpcCmp : E500Core M :=
  let a := s.gprA
  let b := s.gprB
  compareEnd s (a.slt b) (b.slt a)

def ppcOpcCmpi : E500Core M :=
  let a := s.gprA
  let b := simm s.currentOpc
  compareEnd s (a.slt b) (b.slt a)

def ppcOpcCmpl : E500Core M :=
  let a := s.gprA
  let b := s.gprB
  compareEnd s (a.ult b) (b.ult a)

def ppcOpcCmpli : E500Core M :=
  let a := s.gprA
  let b := uimm s.currentOpc
  compareEnd s (a.ult b) (b.ult a)

end

/-- `BO`, `BI` and `BD` of `PPC_OPC_TEMPL_B`; `PPC_OPC_TEMPL_XL` has the same first two. -/
def bo (opc : Uint32) : Uint32 := (opc >>> 21) &&& 0x1F
def bi (opc : Uint32) : Nat := ((opc >>> 16) &&& 0x1F).toNat
def bd (opc : Uint32) : Uint32 :=
  let bd := opc &&& 0xFFFC
  if bd &&& 0x8000 ≠ 0 then bd ||| 0xFFFF0000 else bd

section
variable {M : Type} (s : BranchCore M)

/-- `if (!(BO & 4)) ctr--;` -/
def decCtr : BranchCore M :=
  if bo s.currentOpc &&& 4 = 0 then { s with ctr := s.ctr - 1 } else s

/-- `(BO & 4) || ((ctr != 0) ^ bo2)` -/
def ctrOk : Bool :=
  bo s.currentOpc &&& 4 != 0 || ((s.ctr != 0) ^^ (bo s.currentOpc &&& 2 != 0))

/-- `(BO & 16) || !(cr ^ bo8)` -/
def crOk : Bool :=
  bo s.currentOpc &&& 16 != 0 ||
    !((s.cr &&& (1 <<< (31 - bi s.currentOpc)) != 0) ^^ (bo s.currentOpc &&& 8 != 0))

/-- `if (current_opc & PPC_OPC_LK) lr = pc + 4;` -/
def link : BranchCore M :=
  if s.currentOpc &&& 1 ≠ 0 then { s with lr := s.pc + 4 } else s

def ppcOpcBcx : BranchCore M :=
  let s := decCtr s
  if ctrOk s && crOk s then
    let target :=
      if s.currentOpc &&& 2 = 0 then bd s.currentOpc + s.pc else bd s.currentOpc
    { link s with npc := target }
  else s

def ppcOpcBcctrx : BranchCore M :=
  if crOk s then { link s with npc := (link s).ctr &&& 0xFFFFFFFC } else s

def ppcOpcBclrx : BranchCore M :=
  let s := decCtr s
  if ctrOk s && crOk s then
    let target := s.lr &&& 0xFFFFFFFC
    { link s with npc := target }
  else s

end

/-- The instructions. -/
inductive Op where
  | cmp
  | cmpi
  | cmpl
  | cmpli
  | bc
  | bclr
  | bcctr
  deriving DecidableEq

/-- A step of the core: `npc` is the next word unless the instruction says otherwise. -/
def step {M : Type} (s : BranchCore M) (op : Op) : BranchCore M :=
  let s := { s with npc := s.pc + 4 }
  match op with
  | .cmp => { s with toE500Core := ppcOpcCmp s.toE500Core }
  | .cmpi => { s with toE500Core := ppcOpcCmpi s.toE500Core }
  | .cmpl => { s with toE500Core := ppcOpcCmpl s.toE500Core }
  | .cmpli => { s with toE500Core := ppcOpcCmpli s.toE500Core }
  | .bc => ppcOpcBcx s
  | .bclr => ppcOpcBclrx s
  | .bcctr => ppcOpcBcctrx s

/-! ## What the architecture says -/

/-- Field `j` of CR, the first one most significant. -/
def crField (cr : Uint32) (j : Nat) : BitVec 4 := (cr >>> (4 * (7 - j))).setWidth 4

/-- LT, GT and EQ. -/
def orderBits : Ordering → BitVec 4
  | .lt => 8
  | .gt => 4
  | .eq => 2

section
variable {M : Type} (s : BranchCore M)

/-- How the operands of a compare are ordered. -/
def order : Op → Ordering
  | .cmp => compare s.gprA.toInt s.gprB.toInt
  | .cmpi => compare s.gprA.toInt ((s.currentOpc.setWidth 16).signExtend 32).toInt
  | .cmpl => compare s.gprA.toNat s.gprB.toNat
  | _ => compare s.gprA.toNat (s.currentOpc.setWidth 16).toNat

/-- A compare sets its field of CR and leaves all else. -/
structure Compared (o : Ordering) (t : BranchCore M) : Prop where
  field : crField t.cr (crfD s.currentOpc) =
    orderBits o ||| (if s.xer.getMsbD 0 then 1 else 0)
  others : ∀ j < 8, j ≠ crfD s.currentOpc → crField t.cr j = crField s.cr j
  rest : ∃ cr, t = { s with npc := s.pc + 4, cr := cr }

/-- Bit `k` of BO, the first one most significant. -/
def boBit (k : Nat) : Bool := s.currentOpc.getMsbD (6 + k)

/-- The bit of CR that BI names. -/
def crBit : Bool := s.cr.getMsbD (bi s.currentOpc)

/-- CTR after the branch. -/
def nextCtr : Uint32 := if boBit s 2 then s.ctr else s.ctr - 1

/-- The conditions that BO and BI encode. -/
def Taken : Prop :=
  (boBit s 2 = true ∨ ((nextCtr s ≠ 0) ↔ boBit s 3 = false)) ∧
    (boBit s 0 = true ∨ crBit s = boBit s 1)

instance : Decidable (Taken s) := by unfold Taken; infer_instance

/-- AA and LK. -/
def absolute : Bool := s.currentOpc.getMsbD 30
def links : Bool := s.currentOpc.getMsbD 31

/-- The displacement, in words, with its sign. -/
def displacement : Uint32 := (s.currentOpc.extractLsb' 2 14 ++ 0#2).signExtend 32

/-- A word with its low two bits cleared. -/
def aligned (x : Uint32) : Uint32 := x.extractLsb' 2 30 ++ 0#2

/-- Where a branch that is taken goes on. -/
def target : Op → Uint32
  | .bclr => aligned s.lr
  | .bcctr => aligned s.ctr
  | _ => if absolute s then displacement s else s.pc + displacement s

/-- What a branch should leave. -/
def branched (op : Op) : BranchCore M :=
  { s with
    ctr := nextCtr s
    npc := if Taken s then target s op else s.pc + 4
    lr := if links s then s.pc + 4 else s.lr }

/-- The instruction does what it should. -/
def Meets (op : Op) : Prop :=
  match op with
  | .cmp | .cmpi | .cmpl | .cmpli => Compared s (order s op) (step s op)
  | .bc | .bclr | .bcctr => step s op = branched s op

/-- For `bcctr` only the BO are valid that do not decrement CTR. -/
def Valid (op : Op) : Prop := op = .bcctr → boBit s 2 = true

/-- A branch with LK is taken, or LR has the address after it already. -/
def LinkHolds (op : Op) : Prop :=
  match op with
  | .cmp | .cmpi | .cmpl | .cmpli => True
  | .bc | .bclr | .bcctr => links s = true → Taken s ∨ s.lr = s.pc + 4

end

/-! ## Fields of words -/

/-- The bits of `BO` are those of the word, counted from the other end. -/
theorem bo_bit (opc : Uint32) (k : Nat) (hk : k < 5) :
    (bo opc &&& BitVec.twoPow 32 k != 0) = opc.getMsbD (10 - k) := by
  have hmask : ∀ k < 5, (0x1F : Uint32).getLsbD k = true := by decide
  rw [Word.and_twoPow_bne, bo, BitVec.getLsbD_and, BitVec.getLsbD_ushiftRight, hmask k hk,
    Bool.and_true, BitVec.getMsbD_eq_getLsbD, decide_eq_true (by omega : 10 - k < 32),
    Bool.true_and]
  congr 1
  omega

theorem bi_lt (opc : Uint32) : bi opc < 32 := Word.toNat_and_low_lt _ 5 (by decide)

theorem and_clear_low (x : Uint32) : x &&& 0xFFFFFFFC = aligned x := by
  have hmask : ∀ i < 32, (0xFFFFFFFC : Uint32).getLsbD i = decide (2 ≤ i) := by decide
  refine BitVec.eq_of_getLsbD_eq fun i hi => ?_
  rw [aligned, BitVec.getLsbD_and, hmask i hi, BitVec.getLsbD_append, BitVec.getLsbD_extractLsb']
  by_cases h2 : i < 2
  · simp [h2]
  · have hi2 : 2 + (i - 2) = i := by omega
    have hi30 : i - 2 < 30 := by omega
    simp [h2, hi2, hi30, show 2 ≤ i by omega]

theorem uimm_toNat (opc : Uint32) : (uimm opc).toNat = (opc.setWidth 16).toNat := by
  rw [uimm, BitVec.toNat_and, BitVec.toNat_setWidth]
  exact Nat.and_two_pow_sub_one_eq_mod opc.toNat 16

theorem simm_eq (opc : Uint32) : simm opc = (opc.setWidth 16).signExtend 32 := by
  have hlow : ∀ i < 32, (0xFFFF : Uint32).getLsbD i = decide (i < 16) := by decide
  have hhigh : ∀ i < 32, (0xFFFF0000 : Uint32).getLsbD i = decide (16 ≤ i) := by decide
  have hsign : opc &&& 0x8000 ≠ 0 ↔ opc.getLsbD 15 = true := by
    rw [← bne_iff_ne, show (0x8000 : Uint32) = BitVec.twoPow 32 15 from rfl, Word.and_twoPow_bne]
  have hmsb : (opc.setWidth 16).msb = opc.getLsbD 15 := by
    rw [BitVec.msb_eq_getLsbD_last]
    simp
  refine BitVec.eq_of_getLsbD_eq fun i hi => ?_
  rw [BitVec.getLsbD_signExtend, decide_eq_true hi, Bool.true_and, hmsb, BitVec.getLsbD_setWidth]
  unfold simm
  by_cases h15 : opc.getLsbD 15 = true
  · rw [if_pos (hsign.mpr h15), BitVec.getLsbD_or, BitVec.getLsbD_and, hlow i hi, hhigh i hi, h15]
    by_cases h16 : i < 16
    · simp [h16]
    · simp [h16, Nat.le_of_not_lt h16]
  · rw [if_neg fun h => h15 (hsign.mp h), BitVec.getLsbD_and, hlow i hi]
    rw [Bool.not_eq_true] at h15
    by_cases h16 : i < 16
    · simp [h16]
    · rw [decide_eq_false h16, Bool.and_false, if_neg h16, h15]

/-- The displacement is an immediate operand without its low two bits. -/
theorem bd_eq {M : Type} (s : BranchCore M) : bd s.currentOpc = displacement s := by
  have hmask : ∀ i < 16, (0xFFFC : Uint32).getLsbD i = decide (2 ≤ i) := by decide
  have hbd : bd s.currentOpc = simm (s.currentOpc &&& 0xFFFC) := by
    rw [bd, simm, BitVec.and_assoc _ 0xFFFC 0xFFFF]
    rfl
  have hfield : (s.currentOpc &&& 0xFFFC).setWidth 16 = s.currentOpc.extractLsb' 2 14 ++ 0#2 := by
    refine BitVec.eq_of_getLsbD_eq fun i hi => ?_
    rw [BitVec.getLsbD_setWidth, BitVec.getLsbD_and, hmask i hi, BitVec.getLsbD_append,
      BitVec.getLsbD_extractLsb', decide_eq_true hi, Bool.true_and]
    by_cases h2 : i < 2
    · simp [h2]
    · have hi2 : 2 + (i - 2) = i := by omega
      have hi14 : i - 2 < 14 := by omega
      simp [h2, hi2, hi14, Nat.le_of_not_lt h2]
  rw [hbd, simm_eq, hfield]
  rfl

/-! ## Compares -/

/-- A field that is put into CR, and the fields it leaves. -/
theorem crField_put (cr : Uint32) (c : BitVec 4) {j k : Nat} (hj : j < 8) (hk : k < 8) :
    crField ((cr &&& ppcCmpAndMask (7 - j)) ||| (c.setWidth 32 <<< ((7 - j) * 4))) k =
      if k = j then c else crField cr k := by
  have hmask : ∀ m < 8, ∀ i < 32, (ppcCmpAndMask m).getLsbD i =
      decide (i < 4 * m ∨ 4 * m + 4 ≤ i) := by decide
  refine BitVec.eq_of_getLsbD_eq fun i hi => ?_
  have hbit : 4 * (7 - k) + i < 32 := by omega
  simp only [crField, BitVec.getLsbD_setWidth, BitVec.getLsbD_ushiftRight, BitVec.getLsbD_or,
    BitVec.getLsbD_and, BitVec.getLsbD_shiftLeft, decide_eq_true hi, decide_eq_true hbit,
    Bool.true_and, hmask (7 - j) (by omega) _ hbit]
  by_cases hkj : k = j
  · subst hkj
    have hsub : 4 * (7 - k) + i - (7 - k) * 4 = i := by omega
    have hin : ¬ (4 * (7 - k) + i < 4 * (7 - k) ∨ 4 * (7 - k) + 4 ≤ 4 * (7 - k) + i) := by omega
    have hge : ¬ 4 * (7 - k) + i < (7 - k) * 4 := by omega
    rw [decide_eq_false hin, Bool.and_false, Bool.false_or]
    simp [hsub, hge, show i < 32 by omega]
  · rw [if_neg hkj]
    have hout : 4 * (7 - k) + i < 4 * (7 - j) ∨ 4 * (7 - j) + 4 ≤ 4 * (7 - k) + i := by omega
    simp only [BitVec.getLsbD_setWidth, BitVec.getLsbD_ushiftRight, decide_eq_true hi,
      decide_eq_true hout, Bool.true_and, Bool.and_true]
    by_cases hlt : 4 * (7 - k) + i < (7 - j) * 4
    · simp [hlt]
    · rw [BitVec.getLsbD_of_ge c _ (by omega)]
      simp

theorem crfD_lt (opc : Uint32) : crfD opc < 8 := by
  have h : rD opc < 32 := Word.toNat_and_low_lt _ 5 (by decide)
  rw [crfD, Nat.shiftRight_eq_div_pow]
  omega

/-- The two tests of a compare give the order of its operands. -/
theorem orderBits_compare {α : Type} [LinearOrder α] (x y : α) (so : Bool) :
    (let c : Uint32 := if decide (x < y) then 8 else if decide (y < x) then 4 else 2
     if so then c ||| 1 else c) =
      (orderBits (compare x y) ||| if so then 1 else 0).setWidth 32 := by
  rcases lt_trichotomy x y with h | rfl | h
  · rw [compare_lt_iff_lt.mpr h, decide_eq_true h]
    cases so <;> rfl
  · rw [compare_eq_iff_eq.mpr rfl, decide_eq_false (lt_irrefl x)]
    cases so <;> rfl
  · rw [compare_gt_iff_gt.mpr h, decide_eq_false h.le.not_gt, decide_eq_true h]
    cases so <;> rfl

section
variable {M : Type} (s : BranchCore M)

theorem compared_of_order {α : Type} [LinearOrder α] (x y : α) {less greater : Bool}
    (hl : less = decide (x < y)) (hg : greater = decide (y < x)) :
    Compared s (compare x y)
      { s with
        toE500Core := compareEnd { s.toE500Core with npc := s.pc + 4 } less greater } := by
  have hso : (s.xer &&& xerSo ≠ 0) ↔ s.xer.getMsbD 0 = true := by
    rw [← bne_iff_ne, show xerSo = BitVec.twoPow 32 31 from rfl, Word.and_twoPow_bne]
    rfl
  have hc := orderBits_compare x y (s.xer.getMsbD 0)
  have hcr : (compareEnd { s.toE500Core with npc := s.pc + 4 } less greater).cr =
      (s.cr &&& ppcCmpAndMask (7 - crfD s.currentOpc)) |||
        ((orderBits (compare x y) ||| if s.xer.getMsbD 0 then 1 else 0).setWidth 32 <<<
          ((7 - crfD s.currentOpc) * 4)) := by
    rw [← hc, hl, hg]
    simp only [compareEnd, hso]
  have hfield (k : Nat) (hk : k < 8) := crField_put s.cr
    (orderBits (compare x y) ||| if s.xer.getMsbD 0 then 1 else 0) (crfD_lt s.currentOpc) hk
  refine ⟨?_, fun k hk hne => ?_, ⟨_, rfl⟩⟩
  · show crField (compareEnd _ less greater).cr _ = _
    rw [hcr, hfield _ (crfD_lt _), if_pos rfl]
  · show crField (compareEnd _ less greater).cr _ = _
    rw [hcr, hfield k hk, if_neg hne]

theorem compared_cmp : Compared s (order s .cmp) (step s .cmp) :=
  compared_of_order s s.gprA.toInt s.gprB.toInt rfl rfl

theorem compared_cmpi : Compared s (order s .cmpi) (step s .cmpi) := by
  have horder : order s .cmpi = compare s.gprA.toInt (simm s.currentOpc).toInt := by
    rw [simm_eq]
    rfl
  rw [horder]
  exact compared_of_order s _ _ rfl rfl

theorem compared_cmpl : Compared s (order s .cmpl) (step s .cmpl) :=
  compared_of_order s s.gprA.toNat s.gprB.toNat rfl rfl

theorem compared_cmpli : Compared s (order s .cmpli) (step s .cmpli) := by
  have horder : order s .cmpli = compare s.gprA.toNat (uimm s.currentOpc).toNat := by
    rw [uimm_toNat]
    rfl
  rw [horder]
  exact compared_of_order s _ _ rfl rfl

/-! ## Branches -/

theorem bo_bit_2 : (bo s.currentOpc &&& 4 != 0) = boBit s 2 :=
  bo_bit s.currentOpc 2 (by omega)

theorem decCtr_eq : decCtr s = { s with ctr := nextCtr s } := by
  have h := bo_bit_2 s
  unfold decCtr nextCtr
  cases hb : boBit s 2
  · rw [hb, bne_eq_false_iff_eq] at h
    rw [if_pos h]
    rfl
  · rw [hb, bne_iff_ne] at h
    rw [if_neg h]
    rfl

theorem crOk_iff (s : BranchCore M) :
    crOk s = true ↔ boBit s 0 = true ∨ crBit s = boBit s 1 := by
  have h0 : (bo s.currentOpc &&& 16 != 0) = boBit s 0 := bo_bit s.currentOpc 4 (by omega)
  have h1 : (bo s.currentOpc &&& 8 != 0) = boBit s 1 := bo_bit s.currentOpc 3 (by omega)
  have hcr : (s.cr &&& (1 <<< (31 - bi s.currentOpc)) != 0) = crBit s := by
    have hlt := bi_lt s.currentOpc
    refine (Word.and_twoPow_bne s.cr (31 - bi s.currentOpc)).trans ?_
    rw [crBit, BitVec.getMsbD_eq_getLsbD, decide_eq_true hlt, Bool.true_and]
  rw [crOk, h0, h1, hcr, Bool.or_eq_true]
  cases boBit s 1 <;> cases crBit s <;> simp

theorem ctrOk_iff (s : BranchCore M) :
    ctrOk (decCtr s) = true ↔ boBit s 2 = true ∨ ((nextCtr s ≠ 0) ↔ boBit s 3 = false) := by
  have h3 : (bo s.currentOpc &&& 2 != 0) = boBit s 3 := bo_bit s.currentOpc 1 (by omega)
  rw [decCtr_eq]
  show (bo s.currentOpc &&& 4 != 0 || ((nextCtr s != 0) ^^ (bo s.currentOpc &&& 2 != 0))) = true ↔
    _
  rw [bo_bit_2, h3, Bool.or_eq_true, ← bne_iff_ne]
  cases boBit s 3 <;> cases nextCtr s != 0 <;> simp

theorem taken_iff (s : BranchCore M) :
    Taken s ↔ ctrOk (decCtr s) = true ∧ crOk (decCtr s) = true := by
  have hcr : crOk (decCtr s) = crOk s := by rw [decCtr_eq]; rfl
  rw [hcr, ctrOk_iff, crOk_iff, Taken]

theorem link_eq (s : BranchCore M) :
    link s = { s with lr := if links s then s.pc + 4 else s.lr } := by
  have h : (s.currentOpc &&& 1 != 0) = links s := Word.and_twoPow_bne s.currentOpc 0
  unfold link
  cases hl : links s
  · rw [hl, bne_eq_false_iff_eq] at h
    rw [if_neg (not_not.mpr h)]
    rfl
  · rw [hl, bne_iff_ne] at h
    rw [if_pos h]
    rfl

theorem target_bc :
    (if s.currentOpc &&& 2 = 0 then bd s.currentOpc + s.pc else bd s.currentOpc) =
      target s .bc := by
  have h : (s.currentOpc &&& 2 != 0) = absolute s := Word.and_twoPow_bne s.currentOpc 1
  rw [bd_eq]
  show _ = if absolute s then displacement s else s.pc + displacement s
  cases ha : absolute s
  · rw [ha, bne_eq_false_iff_eq] at h
    rw [if_pos h, BitVec.add_comm]
    rfl
  · rw [ha, bne_iff_ne] at h
    rw [if_neg h]
    rfl

/-- What a branch does: LR is written on the way to the target only. -/
def branchStep (op : Op) : BranchCore M :=
  if Taken s then branched s op else { s with ctr := nextCtr s, npc := s.pc + 4 }

theorem step_bc : step s .bc = branchStep s .bc := by
  let s' : BranchCore M := { s with npc := s.pc + 4 }
  show (if ctrOk (decCtr s') && crOk (decCtr s') then _ else decCtr s') = _
  unfold branchStep
  by_cases h : Taken s
  · have hok := (taken_iff s').mp h
    rw [if_pos h, hok.1, hok.2, link_eq, decCtr_eq]
    simp only [Bool.and_self, if_true, branched, if_pos h, ← target_bc]
    rfl
  · have hok : ¬ (ctrOk (decCtr s') && crOk (decCtr s')) = true := by
      rw [Bool.and_eq_true, ← taken_iff]
      exact h
    rw [if_neg h, if_neg hok, decCtr_eq]
    rfl

theorem step_bclr : step s .bclr = branchStep s .bclr := by
  let s' : BranchCore M := { s with npc := s.pc + 4 }
  show (if ctrOk (decCtr s') && crOk (decCtr s') then _ else decCtr s') = _
  unfold branchStep
  by_cases h : Taken s
  · have hok := (taken_iff s').mp h
    rw [if_pos h, hok.1, hok.2, link_eq, decCtr_eq, and_clear_low]
    simp only [Bool.and_self, if_true, branched, if_pos h]
    rfl
  · have hok : ¬ (ctrOk (decCtr s') && crOk (decCtr s')) = true := by
      rw [Bool.and_eq_true, ← taken_iff]
      exact h
    rw [if_neg h, if_neg hok, decCtr_eq]
    rfl

theorem step_bcctr (hvalid : boBit s 2 = true) : step s .bcctr = branchStep s .bcctr := by
  let s' : BranchCore M := { s with npc := s.pc + 4 }
  have hctr : nextCtr s = s.ctr := if_pos hvalid
  have htaken : Taken s ↔ crOk s' = true := by
    rw [crOk_iff]
    exact and_iff_right (.inl hvalid)
  show (if crOk s' then { link s' with npc := (link s').ctr &&& 0xFFFFFFFC } else s') = _
  unfold branchStep
  by_cases h : Taken s
  · rw [if_pos h, if_pos (htaken.mp h), link_eq, and_clear_low]
    simp only [branched, if_pos h, hctr]
    rfl
  · rw [if_neg h, if_neg fun hc => h (htaken.mpr hc), hctr]

/-- The step leaves what it should just when LR comes out right. -/
theorem branchStep_eq_iff (op : Op) :
    branchStep s op = branched s op ↔ (links s = true → Taken s ∨ s.lr = s.pc + 4) := by
  unfold branchStep
  by_cases h : Taken s
  · simp [h]
  · rw [if_neg h]
    constructor
    · intro heq hl
      have hlr := congrArg BranchCore.lr heq
      simp only [branched, hl, if_true] at hlr
      exact .inr hlr
    · intro hok
      have hlr : (if links s then s.pc + 4 else s.lr) = s.lr := by
        split
        · rename_i hl
          exact ((hok hl).resolve_left h).symm
        · rfl
      simp only [branched, if_neg h, hlr]

/-- Compares and branches do what they should, but for the LR of a branch with LK that is
not taken. -/
theorem compareBranch_iff (op : Op) (hvalid : Valid s op) : Meets s op ↔ LinkHolds s op := by
  cases op with
  | cmp => exact iff_of_true (compared_cmp s) trivial
  | cmpi => exact iff_of_true (compared_cmpi s) trivial
  | cmpl => exact iff_of_true (compared_cmpl s) trivial
  | cmpli => exact iff_of_true (compared_cmpli s) trivial
  | bc =>
    rw [Meets, step_bc]
    exact branchStep_eq_iff s .bc
  | bclr =>
    rw [Meets, step_bclr]
    exact branchStep_eq_iff s .bclr
  | bcctr =>
    rw [Meets, step_bcctr s (hvalid rfl)]
    exact branchStep_eq_iff s .bcctr

end

/-- A core about to run the word `opc` at 0x1000, with CR clear. -/
def atBranch (opc : Uint32) : BranchCore Unit where
  toE500Core := { onePage ⟨0, by decide⟩ with currentOpc := opc }
  lr := 0x2000
  ctr := 0x3001

/-- `bcctrl` with a condition that holds, `4*cr0+lt` clear. -/
theorem compareBranch_bcctrl : Meets (atBranch 0x4C800421) .bcctr :=
  (compareBranch_iff (atBranch 0x4C800421) .bcctr fun _ => by decide).mpr
    fun _ => .inl (by decide)

/-- `beql`, with EQ clear: LR stays. -/
theorem beql_untaken :
    (step (atBranch 0x41820009) .bc).lr = 0x2000 ∧
      (branched (atBranch 0x41820009) .bc).lr = 0x1004 ∧
      ¬ Meets (atBranch 0x41820009) .bc := by
  have hstep : (step (atBranch 0x41820009) .bc).lr = 0x2000 := by decide
  have hshould : (branched (atBranch 0x41820009) .bc).lr = 0x1004 := by decide
  refine ⟨hstep, hshould, fun h => ?_⟩
  have hlr := congrArg BranchCore.lr h
  rw [hstep, hshould] at hlr
  exact absurd hlr (by decide)

end Branch

end SkyEye.Ppc
