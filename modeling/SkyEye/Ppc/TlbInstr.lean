import SkyEye.Ppc.LoadStore
import SkyEye.Ppc.Lookup
import Mathlib.Data.List.Nodup

/-!
# The TLB instructions of the e500

`ppc_opc_tlbwe`, `ppc_opc_tlbrehi`, `ppc_opc_tlbsx` and `ppc_opc_tlbivax` of `ppc_mmu.c`. What
`tlbwe` writes `tlbrehi` reads back. `tlbsx` compares the address another way than the
translation, and lays some of the entry's fields over what the MAS registers held and leaves
others out; a search without result changes nothing. `tlbivax`, as the translation, never
gets to the entry 0 of TLB0, and asks for PID0.
-/

namespace SkyEye.Ppc

open Sparc (Uint32)

/-! ## The MAS registers -/

/-- `TLBSEL(e)` -/
def tlbsel (e : BitVec 64) : BitVec 64 := (e >>> 28) &&& 0x1

/-- `ESEL(e)` -/
def esel (e : BitVec 64) : BitVec 64 := (e >>> 16) &&& 0xF

/-- `EPN(e)` -/
def epnOf (e : BitVec 64) : BitVec 64 := e >>> 12

/-- The index in TLB0 for MAS0 and MAS2. -/
def tlb0Offset (mas : Nat → BitVec 64) : Nat :=
  (((esel (mas 0) &&& 0xC) <<< 4) ||| (epnOf (mas 2) &&& 0x3F)).toNat

/-- The index in TLB1. -/
def tlb1Offset (mas : Nat → BitVec 64) : Nat := (esel (mas 0)).toNat

/-- The entry that `tlbwe` fills in. -/
def masEntry (mas : Nat → BitVec 64) : TlbEntry where
  v := (mas 1 >>> 31).setWidth 32
  iprot := ((mas 1 >>> 30) &&& 0x1).setWidth 32
  ts := ((mas 1 >>> 12) &&& 0x1).setWidth 32
  tid := ((mas 1 >>> 16) &&& 0xFF).setWidth 32
  size := ((mas 1 >>> 8) &&& 0xF).setWidth 32
  wimge := (mas 2 &&& 0x1F).setWidth 32
  x := ((mas 2 >>> 5) &&& 0x3).setWidth 32
  epn := ((mas 2 >>> 12) &&& 0xFFFFF).setWidth 32
  usxrw := (mas 3 &&& 0x3F).setWidth 32
  u := ((mas 3 >>> 6) &&& 0xF).setWidth 32
  rpn := ((mas 3 >>> 12) &&& 0xFFFFF).setWidth 32

/-- The end of `ppc_opc_tlbrehi`: MAS1 to MAS3. -/
def readBack (mas : Nat → BitVec 64) (entry : TlbEntry) : Nat → BitVec 64 :=
  let mas := Function.update mas 1 ((mas 1 &&& 0x7FFFFFFF) ||| (entry.v <<< 31).setWidth 64)
  let mas := Function.update mas 1 ((mas 1 &&& 0xBFFFFFFF) ||| (entry.iprot <<< 30).setWidth 64)
  let mas := Function.update mas 1 ((mas 1 &&& 0xFFFFEFFF) ||| (entry.ts <<< 12).setWidth 64)
  let mas := Function.update mas 1 ((mas 1 &&& 0xFF00FFFF) ||| (entry.tid <<< 16).setWidth 64)
  let mas := Function.update mas 1 ((mas 1 &&& 0xFFFFF0FF) ||| (entry.size <<< 8).setWidth 64)
  let mas := Function.update mas 2 ((mas 2 &&& 0xFFFFFFE0) ||| entry.wimge.setWidth 64)
  let mas := Function.update mas 2 ((mas 2 &&& 0xFFFFFF9F) ||| (entry.x <<< 5).setWidth 64)
  let mas := Function.update mas 2 ((mas 2 &&& 0xFFF) ||| (entry.epn <<< 12).setWidth 64)
  let mas := Function.update mas 3 ((mas 3 &&& 0xFFFFFFC0) ||| entry.usxrw.setWidth 64)
  let mas := Function.update mas 3 ((mas 3 &&& 0xFFFFFFC3F) ||| (entry.u <<< 6).setWidth 64)
  Function.update mas 3 ((mas 3 &&& 0xFFF) ||| (entry.rpn <<< 12).setWidth 64)

/-- MAS2 and MAS3 for the entry found, the same lines for both TLBs. -/
def searchPage (mas : Nat → BitVec 64) (entry : TlbEntry) : Nat → BitVec 64 :=
  let mas := Function.update mas 2 ((mas 2 &&& 0xFFFFF000) ||| (entry.epn <<< 12).setWidth 64)
  let mas := Function.update mas 3 ((mas 3 &&& 0xFFFFFFC0) ||| entry.usxrw.setWidth 64)
  Function.update mas 3 ((mas 3 &&& 0xFFF) ||| (entry.rpn <<< 12).setWidth 64)

namespace E500Core

variable {M : Type} (behind : TlbEntry) (s : E500Core M)

/-- `mmu.mas = mas` -/
def setMas (mas : Nat → BitVec 64) : E500Core M := { s with mmu := { s.mmu with mas := mas } }

/-- `mmu.l2_tlb0_4k[n] = e` -/
def setTlb0 (n : Fin l2Tlb0Size) (e : TlbEntry) : E500Core M :=
  { s with mmu := { s.mmu with l2Tlb0_4k := Function.update s.mmu.l2Tlb0_4k n e } }

/-- `mmu.l2_tlb1_vsp[n] = e` -/
def setTlb1 (n : Fin l2Tlb1Size) (e : TlbEntry) : E500Core M :=
  { s with mmu := { s.mmu with l2Tlb1Vsp := Function.update s.mmu.l2Tlb1Vsp n e } }

/-- `mmu.tlb0_nv = mas[0] & 0x3` -/
def nextVictim : E500Core M :=
  { s with mmu := { s.mmu with tlb0Nv := (s.mmu.mas 0 &&& 0x3).setWidth 32 } }

/-! ## Writing and reading -/

/-- `ppc_opc_tlbwe`; none where the simulator exits. -/
def ppcOpcTlbwe : Option (E500Core M) :=
  let entry := masEntry s.mmu.mas
  if tlbsel (s.mmu.mas 0) = 0 then
    let offset := tlb0Offset s.mmu.mas
    if h : offset < l2Tlb0Size then some (s.setTlb0 ⟨offset, h⟩ entry).nextVictim else none
  else
    let offset := tlb1Offset s.mmu.mas
    if h : offset < l2Tlb1Size then some (s.setTlb1 ⟨offset, h⟩ entry).nextVictim else none

/-- `mas[0] = (mas[0] & 0xFFFFFFFC) | (tlb0_nv & 0x3)` -/
def masVictim (mas : Nat → BitVec 64) : Nat → BitVec 64 :=
  Function.update mas 0 ((mas 0 &&& 0xFFFFFFFC) ||| (s.mmu.tlb0Nv &&& 0x3).setWidth 64)

/-- `ppc_opc_tlbrehi`; none where the simulator exits. The bounds let one index too many
through, and TLB1 lies right behind TLB0. -/
def ppcOpcTlbrehi : Option (E500Core M) :=
  if tlbsel (s.mmu.mas 0) = 0 then
    let offset := tlb0Offset s.mmu.mas
    if offset > l2Tlb0Size then none
    else some (s.setMas (readBack (s.masVictim s.mmu.mas) (s.entryAt behind offset)))
  else
    let offset := tlb1Offset s.mmu.mas
    if offset > l2Tlb1Size then none
    else some (s.setMas (readBack s.mmu.mas (s.entryAt behind (l2Tlb0Size + offset))))

/-! ## Searching -/

/-- The mask that `ppc_opc_tlbsx` computes at `i`. -/
def searchMask (i : Nat) : Uint32 :=
  if i > l2Tlb0Size - 1 then ~~~(1024 * pageUnits (s.entryAt behind i).size.toNat - 0x1)
  else ~~~(1024 * 4 - 0x1)

/-- The tests of `ppc_opc_tlbsx` on the entry at `i`. -/
def searchHit (ea : Uint32) (i : Nat) : Bool :=
  let entry := s.entryAt behind i
  if entry.v = 0 then false
  else if entry.ts &&& 0x0 ≠ 0 then false
  else if entry.tid ≠ 0 ∧ entry.tid.setWidth 64 ≠ (s.mmu.mas 6 &&& 0xFF0000) >>> 16 then false
  else ea &&& s.searchMask behind i == entry.epn <<< 12

/-- The MAS registers for the entry found at `i`. -/
def searchMas (i : Nat) : Nat → BitVec 64 :=
  let entry := s.entryAt behind i
  let mas := s.mmu.mas
  let mas :=
    if i > l2Tlb0Size - 1 then
      let tlb1Index : BitVec 64 := BitVec.ofNat 64 (i - l2Tlb0Size)
      let mas := Function.update mas 0 (mas 0 ||| ((0x1 : BitVec 64) <<< 28))
      let mas := Function.update mas 0
        (mas 0 ||| ((mas 0 &&& 0xFFF0FFFF) ||| ((tlb1Index &&& 0xC) <<< 16)))
      searchPage mas entry
    else
      let mas := Function.update mas 0 (mas 0 &&& ~~~((0x1 : BitVec 64) <<< 28))
      let mas := s.masVictim mas
      let mas := Function.update mas 0
        ((mas 0 &&& 0xFFF0FFFF) ||| (((BitVec.ofNat 64 i &&& 0xC0) >>> 4) <<< 16))
      searchPage mas entry
  let mas := Function.update mas 1 ((mas 1 &&& 0xFF0000) ||| (entry.tid <<< 16).setWidth 64)
  Function.update mas 1 (mas 1 ||| 0x80000000)

def ppcOpcTlbsx : E500Core M :=
  match walkIndices.find? (s.searchHit behind (s.gpr (rB s.currentOpc))) with
  | some i => s.setMas (s.searchMas behind i)
  | none => s

/-! ## Invalidating -/

/-- The address of `ppc_opc_tlbivax`. -/
def tlbivaxAddr : Uint32 :=
  if rA s.currentOpc ≠ 0 then s.gpr (rA s.currentOpc) + s.gpr (rB s.currentOpc)
  else s.gpr (rB s.currentOpc)

/-- The tests of `ppc_opc_tlbivax` on the entry at `i`. -/
def invalidates (addr : Uint32) (i : Nat) : Bool :=
  let entry := s.entryAt behind i
  if entry.iprot ≠ 0 then false
  else if entry.ts &&& 0x0 ≠ 0 then false
  else if entry.tid ≠ 0 ∧ s.mmu.pid 0 ≠ entry.tid.setWidth 64 then false
  else if entry.size ≠ 0xB then
    addr &&& s.maskAt behind i == (entry.epn <<< 12) &&& s.maskAt behind i
  else !decide (addr < entry.epn <<< 12)

/-- `v = 0` at `i`; what lies behind the TLBs is for `clearBehind`. -/
def clearValid (clearBehind : E500Core M → E500Core M) (i : Nat) : E500Core M :=
  if h0 : i < l2Tlb0Size then
    s.setTlb0 ⟨i, h0⟩ { s.mmu.l2Tlb0_4k ⟨i, h0⟩ with v := 0 }
  else if h1 : i - l2Tlb0Size < l2Tlb1Size then
    s.setTlb1 ⟨i - l2Tlb0Size, h1⟩ { s.mmu.l2Tlb1Vsp ⟨i - l2Tlb0Size, h1⟩ with v := 0 }
  else clearBehind s

/-- `if (!iprot) v = 0` -/
def unlessProtected (entry : TlbEntry) : TlbEntry :=
  if entry.iprot = 0 then { entry with v := 0 } else entry

/-- The body of the loop of `ppc_opc_tlbivax`. -/
def invalidateAt (clearBehind : E500Core M → E500Core M) (addr : Uint32) (s : E500Core M)
    (i : Nat) : E500Core M :=
  if s.invalidates behind addr i then s.clearValid clearBehind i else s

def ppcOpcTlbivax (clearBehind : E500Core M → E500Core M) : E500Core M :=
  let addr := s.tlbivaxAddr
  if addr &&& 0x4 ≠ 0 then
    if (addr >>> 3) &&& 0x3 > 1 then s
    else if (addr >>> 3) &&& 0x3 ≠ 0 then
      { s with mmu := { s.mmu with l2Tlb1Vsp := fun j => unlessProtected (s.mmu.l2Tlb1Vsp j) } }
    else
      { s with mmu := { s.mmu with l2Tlb0_4k := fun i => unlessProtected (s.mmu.l2Tlb0_4k i) } }
  else walkIndices.foldl (invalidateAt behind clearBehind addr) s

end E500Core

/-! ## Fields -/

/-- The field of a MAS register from bit `m` up to bit `n`, counted from the low end. -/
def field (x : BitVec 64) (n m : Nat) : Uint32 := Sparc.bits (x.setWidth 32) n m

/-- The fields of an entry, as MAS0 to MAS3 have them. -/
structure MasFields where
  tlbsel : Uint32
  esel : Uint32
  v : Uint32
  iprot : Uint32
  ts : Uint32
  tid : Uint32
  size : Uint32
  wimge : Uint32
  x : Uint32
  epn : Uint32
  usxrw : Uint32
  u : Uint32
  rpn : Uint32
  deriving DecidableEq

def masFields (mas : Nat → BitVec 64) : MasFields where
  tlbsel := field (mas 0) 28 28
  esel := field (mas 0) 19 16
  v := field (mas 1) 31 31
  iprot := field (mas 1) 30 30
  ts := field (mas 1) 12 12
  tid := field (mas 1) 23 16
  size := field (mas 1) 11 8
  wimge := field (mas 2) 4 0
  x := field (mas 2) 6 5
  epn := field (mas 2) 31 12
  usxrw := field (mas 3) 5 0
  u := field (mas 3) 9 6
  rpn := field (mas 3) 31 12

/-- Nothing of `e` is above bit `k`. -/
def Narrow (e : Uint32) (k : Nat) : Prop := ∀ i, k < i → e.getLsbD i = false

/-- `e` in the place of the field of `x`. -/
def put (x : Uint32) (n m : Nat) (e : Uint32) : Uint32 := Sparc.clearBits x n m ||| (e <<< m)

section

variable {n m n' m' : Nat}

theorem getLsbD_put (hn : n < 32) (hm : m ≤ n) (x e : Uint32) {i : Nat} (hi : i < 32) :
    (put x n m e).getLsbD i =
      ((x.getLsbD i && !(decide (m ≤ i) && decide (i ≤ n))) ||
        (!decide (i < m) && e.getLsbD (i - m))) := by
  have hc : (Sparc.clearBits x n m).getLsbD i = _ := Sparc.bit_clearBits hn hm x i
  unfold put
  rw [BitVec.getLsbD_or, hc, BitVec.getLsbD_shiftLeft, decide_eq_true hi, Bool.true_and]
  rfl

theorem bits_put_self (hn : n < 32) (hm : m ≤ n) (x e : Uint32) :
    Sparc.bits (put x n m e) n m = Sparc.bits e (n - m) 0 := by
  apply BitVec.eq_of_getLsbD_eq
  intro i _
  rw [Sparc.getLsbD_bits hn hm, Sparc.getLsbD_bits (by omega) (Nat.zero_le _)]
  by_cases h : m + i ≤ n
  · have hsub : m + i - m = i := by omega
    have hle : 0 + i ≤ n - m := by omega
    have hlt : ¬m + i < m := by omega
    rw [getLsbD_put hn hm x e (by omega), hsub, decide_eq_true h, decide_eq_true hle,
      decide_eq_false hlt, decide_eq_true (Nat.le_add_right m i), Nat.zero_add]
    simp
  · have hle : ¬0 + i ≤ n - m := by omega
    rw [decide_eq_false h, decide_eq_false hle, Bool.false_and, Bool.false_and]

theorem bits_put_of_disjoint (hn : n < 32) (hm : m ≤ n) (hn' : n' < 32) (hm' : m' ≤ n')
    (x : Uint32) {e : Uint32} (he : n' < m ∨ (n < m' ∧ Narrow e (n - m))) :
    Sparc.bits (put x n m e) n' m' = Sparc.bits x n' m' := by
  apply BitVec.eq_of_getLsbD_eq
  intro i _
  rw [Sparc.getLsbD_bits hn' hm', Sparc.getLsbD_bits hn' hm']
  by_cases h : m' + i ≤ n'
  · rw [getLsbD_put hn hm x e (by omega)]
    rcases he with he | ⟨he, hnarrow⟩
    · have h1 : ¬m ≤ m' + i := by omega
      have h2 : m' + i < m := by omega
      simp [h1, h2]
    · have h1 : ¬m' + i ≤ n := by omega
      simp [h1, hnarrow (m' + i - m) (by omega)]
  · rw [decide_eq_false h, Bool.false_and, Bool.false_and]

theorem bits_put_above (hn : n < 32) (hm : m ≤ n) (hn' : n' < 32) (hm' : m' ≤ n')
    (h : n < m') {x e : Uint32} (he : Narrow e (n - m)) :
    Sparc.bits (put x n m e) n' m' = Sparc.bits x n' m' :=
  bits_put_of_disjoint hn hm hn' hm' x (.inr ⟨h, he⟩)

theorem bits_put_below (hn : n < 32) (hm : m ≤ n) (hn' : n' < 32) (hm' : m' ≤ n')
    (h : n' < m) {x e : Uint32} : Sparc.bits (put x n m e) n' m' = Sparc.bits x n' m' :=
  bits_put_of_disjoint hn hm hn' hm' x (.inl h)

theorem narrow_field (hn : n < 32) (hm : m ≤ n) (x : BitVec 64) : Narrow (field x n m) (n - m) := by
  intro i hi
  unfold field
  rw [Sparc.getLsbD_bits hn hm, decide_eq_false (by omega), Bool.false_and]

theorem bits_field (hn : n < 32) (hm : m ≤ n) (x : BitVec 64) :
    Sparc.bits (field x n m) (n - m) 0 = field x n m := by
  apply BitVec.eq_of_getLsbD_eq
  intro i _
  rw [Sparc.getLsbD_bits (by omega) (Nat.zero_le _), Nat.zero_add]
  by_cases h : i ≤ n - m
  · rw [decide_eq_true h, Bool.true_and]
  · rw [decide_eq_false h, narrow_field hn hm x i (by omega), Bool.false_and]

/-- `(x >> m) & c` is a field, for a mask `c` of its width. -/
theorem shift_and_eq_field (hn : n < 32) (hm : m ≤ n) (x : BitVec 64) {c : BitVec 64}
    (hc : c = BitVec.ofNat 64 (2 ^ (n + 1 - m) - 1)) :
    ((x >>> m) &&& c).setWidth 32 = field x n m := by
  apply BitVec.eq_of_getLsbD_eq
  intro i hi
  have h64 : i < 64 := by omega
  unfold field
  rw [Sparc.getLsbD_bits hn hm, BitVec.getLsbD_setWidth, BitVec.getLsbD_setWidth,
    BitVec.getLsbD_and, BitVec.getLsbD_ushiftRight, hc, BitVec.getLsbD_ofNat,
    Nat.testBit_two_pow_sub_one, decide_eq_true hi, decide_eq_true h64]
  by_cases h : m + i ≤ n
  · have h1 : i < n + 1 - m := by omega
    have h2 : m + i < 32 := by omega
    simp [h, h1, h2]
  · have h1 : ¬i < n + 1 - m := by omega
    simp [h, h1]

/-- A line that replaces a field of a MAS register. -/
theorem setWidth_replace (x : BitVec 64) {c : BitVec 64} (e : Uint32)
    (hc : c.setWidth 32 = ~~~Sparc.bitsmask n m) :
    ((x &&& c) ||| (e <<< m).setWidth 64).setWidth 32 = put (x.setWidth 32) n m e := by
  unfold put Sparc.clearBits
  rw [BitVec.setWidth_or, BitVec.setWidth_and, hc, BitVec.setWidth_setWidth_of_le _ (by decide),
    BitVec.setWidth_eq]

theorem setWidth_replace_low (x : BitVec 64) {c : BitVec 64} (e : Uint32)
    (hc : c.setWidth 32 = ~~~Sparc.bitsmask n 0) :
    ((x &&& c) ||| e.setWidth 64).setWidth 32 = put (x.setWidth 32) n 0 e := by
  rw [← setWidth_replace x e hc, BitVec.shiftLeft_zero]

end

/-! ## Reading back -/

section

variable (mas : Nat → BitVec 64) (e : TlbEntry)

theorem readBack_mas1 : (readBack mas e 1).setWidth 32 =
    put (put (put (put (put ((mas 1).setWidth 32) 31 31 e.v) 30 30 e.iprot) 12 12 e.ts)
      23 16 e.tid) 11 8 e.size := by
  have h : readBack mas e 1 = (((((((((mas 1 &&& 0x7FFFFFFF) ||| (e.v <<< 31).setWidth 64) &&&
      0xBFFFFFFF) ||| (e.iprot <<< 30).setWidth 64) &&& 0xFFFFEFFF) |||
      (e.ts <<< 12).setWidth 64) &&& 0xFF00FFFF) ||| (e.tid <<< 16).setWidth 64) &&&
      0xFFFFF0FF) ||| (e.size <<< 8).setWidth 64 := rfl
  rw [h, setWidth_replace (n := 11) _ _ (by decide), setWidth_replace (n := 23) _ _ (by decide),
    setWidth_replace (n := 12) _ _ (by decide), setWidth_replace (n := 30) _ _ (by decide),
    setWidth_replace (n := 31) _ _ (by decide)]

theorem readBack_mas2 : (readBack mas e 2).setWidth 32 =
    put (put (put ((mas 2).setWidth 32) 4 0 e.wimge) 6 5 e.x) 31 12 e.epn := by
  have h : readBack mas e 2 = (((((mas 2 &&& 0xFFFFFFE0) ||| e.wimge.setWidth 64) &&&
      0xFFFFFF9F) ||| (e.x <<< 5).setWidth 64) &&& 0xFFF) ||| (e.epn <<< 12).setWidth 64 := rfl
  rw [h, setWidth_replace (n := 31) _ _ (by decide), setWidth_replace (n := 6) _ _ (by decide),
    setWidth_replace_low (n := 4) _ _ (by decide)]

theorem readBack_mas3 : (readBack mas e 3).setWidth 32 =
    put (put (put ((mas 3).setWidth 32) 5 0 e.usxrw) 9 6 e.u) 31 12 e.rpn := by
  have h : readBack mas e 3 = (((((mas 3 &&& 0xFFFFFFC0) ||| e.usxrw.setWidth 64) &&&
      0xFFFFFFC3F) ||| (e.u <<< 6).setWidth 64) &&& 0xFFF) ||| (e.rpn <<< 12).setWidth 64 := rfl
  rw [h, setWidth_replace (n := 31) _ _ (by decide), setWidth_replace (n := 9) _ _ (by decide),
    setWidth_replace_low (n := 5) _ _ (by decide)]

theorem masEntry_v : Sparc.bits (masEntry mas).v 0 0 = field (mas 1) 31 31 := by
  apply BitVec.eq_of_getLsbD_eq
  intro i hi
  unfold masEntry field
  rw [Sparc.getLsbD_bits (by decide) (by decide), Sparc.getLsbD_bits (by decide) (by decide),
    BitVec.getLsbD_setWidth, BitVec.getLsbD_setWidth, BitVec.getLsbD_ushiftRight, Nat.zero_add,
    decide_eq_true hi]
  by_cases h : i = 0
  · subst h
    rfl
  · have h1 : ¬i ≤ 0 := by omega
    have h2 : ¬31 + i ≤ 31 := by omega
    simp [h, h2]

theorem masEntry_iprot : (masEntry mas).iprot = field (mas 1) 30 30 :=
  shift_and_eq_field (by decide) (by decide) _ (by decide)

theorem masEntry_ts : (masEntry mas).ts = field (mas 1) 12 12 :=
  shift_and_eq_field (by decide) (by decide) _ (by decide)

theorem masEntry_tid : (masEntry mas).tid = field (mas 1) 23 16 :=
  shift_and_eq_field (by decide) (by decide) _ (by decide)

theorem masEntry_size : (masEntry mas).size = field (mas 1) 11 8 :=
  shift_and_eq_field (by decide) (by decide) _ (by decide)

theorem masEntry_wimge : (masEntry mas).wimge = field (mas 2) 4 0 := by
  rw [← shift_and_eq_field (by decide) (by decide) (mas 2)
    (show (0x1F : BitVec 64) = BitVec.ofNat 64 (2 ^ (4 + 1 - 0) - 1) by decide),
    BitVec.ushiftRight_zero]
  rfl

theorem masEntry_x : (masEntry mas).x = field (mas 2) 6 5 :=
  shift_and_eq_field (by decide) (by decide) _ (by decide)

theorem masEntry_epn : (masEntry mas).epn = field (mas 2) 31 12 :=
  shift_and_eq_field (by decide) (by decide) _ (by decide)

theorem masEntry_usxrw : (masEntry mas).usxrw = field (mas 3) 5 0 := by
  rw [← shift_and_eq_field (by decide) (by decide) (mas 3)
    (show (0x3F : BitVec 64) = BitVec.ofNat 64 (2 ^ (5 + 1 - 0) - 1) by decide),
    BitVec.ushiftRight_zero]
  rfl

theorem masEntry_u : (masEntry mas).u = field (mas 3) 9 6 :=
  shift_and_eq_field (by decide) (by decide) _ (by decide)

theorem masEntry_rpn : (masEntry mas).rpn = field (mas 3) 31 12 :=
  shift_and_eq_field (by decide) (by decide) _ (by decide)

/-- The entry of the registers `mas'`, read back into `mas`. -/
theorem masFields_readBack (mas' : Nat → BitVec 64) :
    masFields (readBack mas (masEntry mas')) = { masFields mas' with
      tlbsel := (masFields mas).tlbsel, esel := (masFields mas).esel } := by
  have h0 : readBack mas (masEntry mas') 0 = mas 0 := rfl
  have hiprot : Narrow (masEntry mas').iprot (30 - 30) := by
    rw [masEntry_iprot]
    exact narrow_field (by decide) (by decide) _
  have hts : Narrow (masEntry mas').ts (12 - 12) := by
    rw [masEntry_ts]
    exact narrow_field (by decide) (by decide) _
  have htid : Narrow (masEntry mas').tid (23 - 16) := by
    rw [masEntry_tid]
    exact narrow_field (by decide) (by decide) _
  have hsize : Narrow (masEntry mas').size (11 - 8) := by
    rw [masEntry_size]
    exact narrow_field (by decide) (by decide) _
  have hx : Narrow (masEntry mas').x (6 - 5) := by
    rw [masEntry_x]
    exact narrow_field (by decide) (by decide) _
  have hu : Narrow (masEntry mas').u (9 - 6) := by
    rw [masEntry_u]
    exact narrow_field (by decide) (by decide) _
  have hf1 (n m : Nat) : field (readBack mas (masEntry mas') 1) n m = Sparc.bits _ n m :=
    congrArg (Sparc.bits · n m) (readBack_mas1 mas (masEntry mas'))
  have hf2 (n m : Nat) : field (readBack mas (masEntry mas') 2) n m = Sparc.bits _ n m :=
    congrArg (Sparc.bits · n m) (readBack_mas2 mas (masEntry mas'))
  have hf3 (n m : Nat) : field (readBack mas (masEntry mas') 3) n m = Sparc.bits _ n m :=
    congrArg (Sparc.bits · n m) (readBack_mas3 mas (masEntry mas'))
  unfold masFields
  rw [MasFields.mk.injEq, h0]
  simp (disch := first | assumption | decide) only [hf1, hf2, hf3, bits_put_above,
    bits_put_below, bits_put_self]
  rw [masEntry_iprot, masEntry_ts, masEntry_tid, masEntry_size, masEntry_wimge, masEntry_x,
    masEntry_epn, masEntry_usxrw, masEntry_u, masEntry_rpn]
  exact ⟨trivial, trivial, masEntry_v mas', bits_field (by decide) (by decide) _,
    bits_field (by decide) (by decide) _, bits_field (by decide) (by decide) _,
    bits_field (by decide) (by decide) _, bits_field (by decide) (by decide) _,
    bits_field (by decide) (by decide) _, bits_field (by decide) (by decide) _,
    bits_field (by decide) (by decide) _, bits_field (by decide) (by decide) _,
    bits_field (by decide) (by decide) _⟩

end

/-! ## Slots -/

/-- The index of the slot that MAS0 and MAS2 select. -/
def slotOf (mas : Nat → BitVec 64) : Nat :=
  if tlbsel (mas 0) = 0 then tlb0Offset mas else l2Tlb0Size + tlb1Offset mas

theorem tlb0Offset_lt (mas : Nat → BitVec 64) : tlb0Offset mas < l2Tlb0Size := by
  have h1 : ((esel (mas 0) &&& 0xC) <<< 4).toNat < 2 ^ 8 := by
    have hc : (0xC : BitVec 64).toNat = 12 := rfl
    have hle : (esel (mas 0) &&& 0xC).toNat ≤ 12 := by
      rw [BitVec.toNat_and, hc]
      exact Nat.and_le_right
    rw [BitVec.toNat_shiftLeft, Nat.shiftLeft_eq]
    omega
  have h2 : (epnOf (mas 2) &&& 0x3F).toNat < 2 ^ 8 := by
    have hc : (0x3F : BitVec 64).toNat = 63 := rfl
    have hle : (epnOf (mas 2) &&& 0x3F).toNat ≤ 63 := by
      rw [BitVec.toNat_and, hc]
      exact Nat.and_le_right
    omega
  unfold tlb0Offset
  rw [BitVec.toNat_or]
  exact Nat.or_lt_two_pow h1 h2

theorem tlb1Offset_lt (mas : Nat → BitVec 64) : tlb1Offset mas < l2Tlb1Size := by
  have hc : (0xF : BitVec 64).toNat = 15 := rfl
  have hle : tlb1Offset mas ≤ 15 := by
    unfold tlb1Offset esel
    rw [BitVec.toNat_and, hc]
    exact Nat.and_le_right
  exact Nat.lt_succ_of_le hle

theorem slotOf_lt (mas : Nat → BitVec 64) : slotOf mas < E500Core.entries := by
  have h0 : tlb0Offset mas < 256 := tlb0Offset_lt mas
  have h1 : tlb1Offset mas < 16 := tlb1Offset_lt mas
  unfold slotOf
  show _ < 272
  split
  · omega
  · show 256 + tlb1Offset mas < 272
    omega

/-- The registers select the same slot. -/
structure SameSelection (mas mas' : Nat → BitVec 64) : Prop where
  tlbsel : tlbsel (mas 0) = tlbsel (mas' 0)
  esel : esel (mas 0) = esel (mas' 0)
  epn : epnOf (mas 2) &&& 0x3F = epnOf (mas' 2) &&& 0x3F

theorem SameSelection.slotOf {mas mas' : Nat → BitVec 64} (h : SameSelection mas mas') :
    slotOf mas = slotOf mas' := by
  unfold Ppc.slotOf tlb0Offset tlb1Offset
  rw [h.tlbsel, h.esel, h.epn]

theorem SameSelection.fields {mas mas' : Nat → BitVec 64} (h : SameSelection mas mas') :
    (masFields mas).tlbsel = (masFields mas').tlbsel ∧
      (masFields mas).esel = (masFields mas').esel := by
  have h28 (x : BitVec 64) : (Ppc.tlbsel x).setWidth 32 = field x 28 28 :=
    shift_and_eq_field (by decide) (by decide) x (by decide)
  have h16 (x : BitVec 64) : (Ppc.esel x).setWidth 32 = field x 19 16 :=
    shift_and_eq_field (by decide) (by decide) x (by decide)
  constructor
  · show field (mas 0) 28 28 = field (mas' 0) 28 28
    rw [← h28, ← h28, h.tlbsel]
  · show field (mas 0) 19 16 = field (mas' 0) 19 16
    rw [← h16, ← h16, h.esel]

namespace E500Core

variable {M : Type} {behind : TlbEntry} {s t u : E500Core M}

/-- The two cores have the same entries. -/
def SameTlbs (s t : E500Core M) : Prop :=
  s.mmu.l2Tlb0_4k = t.mmu.l2Tlb0_4k ∧ s.mmu.l2Tlb1Vsp = t.mmu.l2Tlb1Vsp

theorem SameTlbs.entryAt (h : s.SameTlbs t) (i : Nat) :
    s.entryAt behind i = t.entryAt behind i := by
  unfold E500Core.entryAt
  rw [h.1, h.2]

theorem entryAt_setTlb0 (n : Fin l2Tlb0Size) (e : TlbEntry) (i : Nat) :
    (s.setTlb0 n e).entryAt behind i = if i = n then e else s.entryAt behind i := by
  unfold entryAt setTlb0
  by_cases h0 : i < l2Tlb0Size
  · by_cases hn : i = n
    · subst hn
      simp
    · have hne : (⟨i, h0⟩ : Fin l2Tlb0Size) ≠ n := fun e => hn (congrArg Fin.val e)
      rw [dif_pos h0, dif_pos h0, if_neg hn]
      exact Function.update_of_ne hne _ _
  · have hn : i ≠ n := fun e => h0 (e ▸ n.isLt)
    rw [dif_neg h0, dif_neg h0, if_neg hn]

theorem entryAt_setTlb1 (n : Fin l2Tlb1Size) (e : TlbEntry) (i : Nat) :
    (s.setTlb1 n e).entryAt behind i =
      if i = l2Tlb0Size + n then e else s.entryAt behind i := by
  unfold entryAt setTlb1
  by_cases h0 : i < l2Tlb0Size
  · have hn : i ≠ l2Tlb0Size + n := by omega
    rw [dif_pos h0, dif_pos h0, if_neg hn]
  · rw [dif_neg h0, dif_neg h0]
    by_cases h1 : i - l2Tlb0Size < l2Tlb1Size
    · rw [dif_pos h1, dif_pos h1]
      by_cases hn : i = l2Tlb0Size + n
      · have he : (⟨i - l2Tlb0Size, h1⟩ : Fin l2Tlb1Size) = n := Fin.ext (by
          show i - l2Tlb0Size = n
          omega)
        rw [if_pos hn, he]
        exact Function.update_self ..
      · have hne : (⟨i - l2Tlb0Size, h1⟩ : Fin l2Tlb1Size) ≠ n := by
          intro e
          have hv := Fin.ext_iff.mp e
          dsimp only at hv
          omega
        rw [if_neg hn]
        dsimp only
        rw [Function.update_of_ne hne]
    · have hn : i ≠ l2Tlb0Size + n := by
        intro e
        have := n.isLt
        omega
      rw [dif_neg h1, dif_neg h1, if_neg hn]

theorem entryAt_nextVictim (s : E500Core M) (i : Nat) :
    s.nextVictim.entryAt behind i = s.entryAt behind i := rfl

/-- `tlbwe` writes the slot that MAS0 and MAS2 select, and no other. -/
theorem ppcOpcTlbwe_spec (s : E500Core M) : ∃ t, s.ppcOpcTlbwe = some t ∧
    ∀ behind i, t.entryAt behind i =
      if i = slotOf s.mmu.mas then masEntry s.mmu.mas else s.entryAt behind i := by
  unfold ppcOpcTlbwe slotOf
  dsimp only
  split
  · rw [dif_pos (tlb0Offset_lt _)]
    refine ⟨_, rfl, fun behind i => ?_⟩
    rw [entryAt_nextVictim, entryAt_setTlb0]
  · rw [dif_pos (tlb1Offset_lt _)]
    refine ⟨_, rfl, fun behind i => ?_⟩
    rw [entryAt_nextVictim, entryAt_setTlb1]

/-- NV is in the two lowest bits. -/
theorem field_masVictim {n m : Nat} (hn : n < 32) (hm : m ≤ n) (h : 1 < m)
    (mas : Nat → BitVec 64) : field (s.masVictim mas 0) n m = field (mas 0) n m := by
  have hnarrow : Narrow (s.mmu.tlb0Nv &&& 0x3) (1 - 0) := by
    intro i hi
    have hc : (0x3 : Uint32) = BitVec.ofNat 32 (2 ^ 2 - 1) := by decide
    have h2 : ¬i < 2 := by omega
    rw [BitVec.getLsbD_and, hc, BitVec.getLsbD_ofNat, Nat.testBit_two_pow_sub_one,
      decide_eq_false h2, Bool.and_false, Bool.and_false]
  have hw : (s.masVictim mas 0).setWidth 32 =
      put ((mas 0).setWidth 32) 1 0 (s.mmu.tlb0Nv &&& 0x3) :=
    setWidth_replace_low (mas 0) _ (by decide)
  unfold field
  rw [hw]
  exact bits_put_above (by decide) (by decide) hn hm h hnarrow

theorem masFields_masVictim (mas : Nat → BitVec 64) :
    (masFields (s.masVictim mas)).tlbsel = (masFields mas).tlbsel ∧
      (masFields (s.masVictim mas)).esel = (masFields mas).esel :=
  ⟨field_masVictim (by decide) (by decide) (by decide) mas,
    field_masVictim (by decide) (by decide) (by decide) mas⟩

/-- `tlbrehi` reads the slot that they select. -/
theorem ppcOpcTlbrehi_spec (u : E500Core M) : ∃ mas : Nat → BitVec 64,
    (masFields mas).tlbsel = (masFields u.mmu.mas).tlbsel ∧
    (masFields mas).esel = (masFields u.mmu.mas).esel ∧
    ∀ behind, u.ppcOpcTlbrehi behind =
      some (u.setMas (readBack mas (u.entryAt behind (slotOf u.mmu.mas)))) := by
  have h0 := tlb0Offset_lt u.mmu.mas
  have h1 := tlb1Offset_lt u.mmu.mas
  unfold ppcOpcTlbrehi slotOf
  dsimp only
  split
  · obtain ⟨ht, he⟩ := masFields_masVictim (s := u) u.mmu.mas
    exact ⟨_, ht, he, fun _ => if_neg (by omega)⟩
  · exact ⟨_, rfl, rfl, fun _ => if_neg (by omega)⟩

/-- What `tlbwe` writes `tlbrehi` reads back, from the slot that is selected again; neither
touches another slot or one that there is not. -/
def ReadsBack (s : E500Core M) : Prop :=
  ∃ t, s.ppcOpcTlbwe = some t ∧ slotOf s.mmu.mas < entries ∧
    (∀ behind i, i ≠ slotOf s.mmu.mas → t.entryAt behind i = s.entryAt behind i) ∧
    ∀ u : E500Core M, u.SameTlbs t → SameSelection u.mmu.mas s.mmu.mas →
      ∃ r, (∀ behind, u.ppcOpcTlbrehi behind = some r) ∧ r.SameTlbs u ∧
        masFields r.mmu.mas = masFields s.mmu.mas

theorem readsBack (s : E500Core M) : s.ReadsBack := by
  obtain ⟨t, ht, hentry⟩ := s.ppcOpcTlbwe_spec
  refine ⟨t, ht, slotOf_lt _, fun behind i hi => by rw [hentry, if_neg hi], ?_⟩
  intro u hu hsel
  obtain ⟨mas, htlbsel, hesel, hread⟩ := u.ppcOpcTlbrehi_spec
  refine ⟨u.setMas (readBack mas (masEntry s.mmu.mas)), fun behind => ?_, ⟨rfl, rfl⟩, ?_⟩
  · rw [hread, hu.entryAt, hentry, if_pos hsel.slotOf]
  · show masFields (readBack mas (masEntry s.mmu.mas)) = _
    rw [masFields_readBack, htlbsel, hesel, hsel.fields.1, hsel.fields.2]

/-! ## Pages -/

theorem pageUnits_large (k : Nat) : 1024 * pageUnits (11 + k) = 0 := by
  induction k with
  | zero => decide
  | succ k ih =>
    show 1024 * (pageUnits (11 + k) * 4) = 0
    rw [← BitVec.mul_assoc, ih]
    exact BitVec.zero_mul

/-- The mask of a page of any size; from 4 GB on it is 0. -/
theorem pageMask_eq_shift (size : Uint32) :
    pageMask size = BitVec.allOnes 32 <<< (10 + 2 * size.toNat) := by
  by_cases h : size.toNat ≤ 10
  · unfold pageMask
    generalize size.toNat = n at *
    interval_cases n <;> decide
  · obtain ⟨k, hk⟩ := Nat.exists_eq_add_of_le (show 11 ≤ size.toNat by omega)
    have hz : BitVec.allOnes 32 <<< (10 + 2 * (11 + k)) = 0 :=
      BitVec.shiftLeft_eq_zero (by omega)
    unfold pageMask
    rw [hk, hz, BitVec.mul_sub, pageUnits_large]
    decide

theorem maskAt_eq_shift (i : Nat) :
    s.maskAt behind i = BitVec.allOnes 32 <<< s.pageBits behind i := by
  unfold maskAt pageBits
  by_cases h0 : i < 256
  · rw [if_neg (show ¬i > 256 - 1 by omega), if_pos h0]
    decide
  · rw [if_pos (show i > 256 - 1 by omega), if_neg h0]
    exact pageMask_eq_shift _

/-- What `tlbivax` asks of an entry. -/
theorem invalidates_iff (addr : Uint32) (i : Nat) : s.invalidates behind addr i = true ↔
    (s.entryAt behind i).iprot = 0 ∧
    ((s.entryAt behind i).tid = 0 ∨ s.mmu.pid 0 = (s.entryAt behind i).tid.setWidth 64) ∧
    (if (s.entryAt behind i).size ≠ 0xB then s.Covers behind addr i
      else (s.entryAt behind i).epn <<< 12 ≤ addr) := by
  have hts : ¬(s.entryAt behind i).ts &&& 0x0 ≠ 0 := not_not.mpr BitVec.and_zero
  unfold invalidates Covers
  dsimp only
  by_cases hp : (s.entryAt behind i).iprot = 0
  · rw [if_neg (not_not.mpr hp), if_neg hts]
    by_cases ht : (s.entryAt behind i).tid ≠ 0 ∧
        s.mmu.pid 0 ≠ (s.entryAt behind i).tid.setWidth 64
    · rw [if_pos ht]
      constructor
      · intro h
        cases h
      · rintro ⟨-, h | h, -⟩
        · exact absurd h ht.1
        · exact absurd h ht.2
    · have ht' : (s.entryAt behind i).tid = 0 ∨
          s.mmu.pid 0 = (s.entryAt behind i).tid.setWidth 64 := by
        by_contra hn
        exact ht (not_or.mp hn)
      rw [if_neg ht, and_iff_right hp, and_iff_right ht']
      by_cases hz : (s.entryAt behind i).size ≠ 0xB
      · rw [if_pos hz, if_pos hz, beq_iff_eq, maskAt_eq_shift, and_mask_eq_iff]
      · rw [if_neg hz, if_neg hz, Bool.not_eq_true', decide_eq_false_iff_not, BitVec.not_lt]
  · rw [if_pos hp]
    constructor
    · intro h
      cases h
    · exact fun h => absurd h.1 hp

/-! ## The loop of `tlbivax` -/

section

variable {clearBehind : E500Core M → E500Core M}

theorem entryAt_clearValid (hc : ∀ s : E500Core M, (clearBehind s).mmu = s.mmu) (k : Nat)
    {i : Nat} (hi : i < entries) : (s.clearValid clearBehind k).entryAt behind i =
      if i = k then { s.entryAt behind i with v := 0 } else s.entryAt behind i := by
  have hi' : i < 256 + 16 := hi
  unfold clearValid
  by_cases h0 : k < l2Tlb0Size
  · rw [dif_pos h0, entryAt_setTlb0]
    by_cases hk : i = k
    · subst hk
      have he : s.entryAt behind i = s.mmu.l2Tlb0_4k ⟨i, h0⟩ := by
        unfold entryAt
        rw [dif_pos h0]
      rw [if_pos rfl, if_pos rfl, he]
    · rw [if_neg hk, if_neg hk]
  · rw [dif_neg h0]
    by_cases h1 : k - l2Tlb0Size < l2Tlb1Size
    · have hsub : l2Tlb0Size + (k - l2Tlb0Size) = k := by omega
      rw [dif_pos h1, entryAt_setTlb1]
      dsimp only
      rw [hsub]
      by_cases hk : i = k
      · subst hk
        have he : s.entryAt behind i = s.mmu.l2Tlb1Vsp ⟨i - l2Tlb0Size, h1⟩ := by
          unfold entryAt
          rw [dif_neg h0, dif_pos h1]
        rw [if_pos rfl, if_pos rfl, he]
      · rw [if_neg hk, if_neg hk]
    · have hk : i ≠ k := by
        intro e
        have h256 : ¬k < 256 := h0
        have h16 : ¬k - 256 < 16 := h1
        omega
      rw [dif_neg h1, if_neg hk]
      unfold entryAt
      rw [hc]

theorem pid_clearValid (hc : ∀ s : E500Core M, (clearBehind s).mmu = s.mmu) (k : Nat) :
    (s.clearValid clearBehind k).mmu.pid = s.mmu.pid := by
  unfold clearValid
  split
  · rfl
  · split
    · rfl
    · rw [hc]

theorem invalidates_congr (he : s.entryAt behind i = t.entryAt behind i)
    (hp : s.mmu.pid = t.mmu.pid) (addr : Uint32) :
    s.invalidates behind addr i = t.invalidates behind addr i := by
  unfold invalidates maskAt
  rw [he, hp]

/-- The loop clears what passes the tests, of the entries it gets to. -/
theorem entryAt_foldl (hc : ∀ s : E500Core M, (clearBehind s).mmu = s.mmu) (addr : Uint32)
    {is : List Nat} (hnd : is.Nodup) {i : Nat} (hi : i < entries) :
    (is.foldl (invalidateAt behind clearBehind addr) s).entryAt behind i =
      if i ∈ is ∧ s.invalidates behind addr i = true then
        { s.entryAt behind i with v := 0 } else s.entryAt behind i := by
  induction is generalizing s with
  | nil =>
    rw [if_neg (fun h => List.not_mem_nil h.1)]
    rfl
  | cons k is ih =>
    obtain ⟨hk, hnd⟩ := List.nodup_cons.mp hnd
    rw [List.foldl_cons, ih hnd]
    by_cases hpass : s.invalidates behind addr k = true
    · have hs : invalidateAt behind clearBehind addr s k = s.clearValid clearBehind k :=
        if_pos hpass
      rw [hs, entryAt_clearValid hc k hi]
      by_cases hik : i = k
      · subst hik
        rw [if_neg (fun h => hk h.1), if_pos rfl, if_pos ⟨List.mem_cons_self, hpass⟩]
      · have hsame : (s.clearValid clearBehind k).invalidates behind addr i =
            s.invalidates behind addr i := by
          refine invalidates_congr ?_ (pid_clearValid hc k) addr
          rw [entryAt_clearValid hc k hi, if_neg hik]
        have hmem : i ∈ k :: is ↔ i ∈ is := by
          rw [List.mem_cons, or_iff_right hik]
        simp only [if_neg hik, hsame, hmem]
    · have hs : invalidateAt behind clearBehind addr s k = s := if_neg hpass
      rw [hs]
      by_cases hik : i = k
      · subst hik
        rw [if_neg (fun h => hpass h.2), if_neg (fun h => hpass h.2)]
      · have hmem : i ∈ k :: is ↔ i ∈ is := by
          rw [List.mem_cons, or_iff_right hik]
        simp only [hmem]

theorem nodup_walkIndices : walkIndices.Nodup :=
  List.Nodup.map (fun _ _ h => Nat.succ.inj h) List.nodup_range

theorem mem_walkIndices {i : Nat} (hi : i < entries) : i ∈ walkIndices ↔ i ≠ 0 := by
  have hi' : i < 272 := hi
  unfold walkIndices
  rw [List.mem_map]
  constructor
  · rintro ⟨k, -, rfl⟩
    exact Nat.succ_ne_zero k
  · intro h
    refine ⟨i - 1, List.mem_range.mpr ?_, by omega⟩
    show i - 1 < 272
    omega

/-- `tlbivax` clears the valid bit of every entry of the arrays that is not protected and has
the address in its page. -/
def InvalidatesCovering (behind : TlbEntry) (clearBehind : E500Core M → E500Core M)
    (s : E500Core M) : Prop :=
  s.tlbivaxAddr &&& 0x4 = 0 → ∀ i < entries, (s.entryAt behind i).iprot = 0 →
    s.Covers behind s.tlbivaxAddr i →
      ((s.ppcOpcTlbivax behind clearBehind).entryAt behind i).v = 0

/-- No valid entry that it is to clear is the entry 0 of TLB0, of another PID than PID0, or of
4 GB with an EPN behind the address. -/
def InvalidateFits (behind : TlbEntry) (s : E500Core M) : Prop :=
  s.tlbivaxAddr &&& 0x4 = 0 → ∀ i < entries, (s.entryAt behind i).iprot = 0 →
    s.Covers behind s.tlbivaxAddr i → (s.entryAt behind i).v ≠ 0 →
      i ≠ 0 ∧
      ((s.entryAt behind i).tid = 0 ∨ s.mmu.pid 0 = (s.entryAt behind i).tid.setWidth 64) ∧
      ((s.entryAt behind i).size = 0xB → (s.entryAt behind i).epn <<< 12 ≤ s.tlbivaxAddr)

theorem invalidatesCovering_iff (hc : ∀ s : E500Core M, (clearBehind s).mmu = s.mmu) :
    s.InvalidatesCovering behind clearBehind ↔ s.InvalidateFits behind := by
  have hrun (ha : s.tlbivaxAddr &&& 0x4 = 0) {i : Nat} (hi : i < entries) :
      ((s.ppcOpcTlbivax behind clearBehind).entryAt behind i).v =
        if i ≠ 0 ∧ s.invalidates behind s.tlbivaxAddr i = true then 0
        else (s.entryAt behind i).v := by
    unfold ppcOpcTlbivax
    dsimp only
    rw [if_neg (not_not.mpr ha), entryAt_foldl hc _ nodup_walkIndices hi]
    simp only [mem_walkIndices hi]
    split <;> rfl
  unfold InvalidatesCovering InvalidateFits
  refine forall_congr' fun ha => forall_congr' fun i => forall_congr' fun hi =>
    forall_congr' fun hp => forall_congr' fun hcov => ?_
  rw [hrun ha hi]
  have hif : (if (s.entryAt behind i).size ≠ 0xB then s.Covers behind s.tlbivaxAddr i
      else (s.entryAt behind i).epn <<< 12 ≤ s.tlbivaxAddr) ↔
      ((s.entryAt behind i).size = 0xB → (s.entryAt behind i).epn <<< 12 ≤ s.tlbivaxAddr) := by
    by_cases hz : (s.entryAt behind i).size = 0xB
    · rw [if_neg (not_not.mpr hz), forall_prop_of_true hz]
    · rw [if_pos hz]
      exact ⟨fun _ h => absurd h hz, fun _ => hcov⟩
  have hinv : s.invalidates behind s.tlbivaxAddr i = true ↔ _ := invalidates_iff s.tlbivaxAddr i
  rw [and_iff_right hp, hif] at hinv
  rw [← hinv]
  constructor
  · intro h hv
    by_contra hn
    rw [if_neg hn] at h
    exact hv h
  · intro h
    by_cases hv : (s.entryAt behind i).v = 0
    · split
      · rfl
      · exact hv
    · rw [if_pos (h hv)]

end

end E500Core

end SkyEye.Ppc
