import SkyEye.Ppc.TlbInstr

/-!
# `tlbsx` against the translation

`translatedBy` is the entry that `ppc_effective_to_physical` takes for an address, under the
PID of MAS6. `tlbsx` is to leave its fields in MAS0 to MAS3; `searchFields` is what it
leaves.
-/

namespace SkyEye.Ppc

open Sparc (Uint32)

/-! ## Fields of the results -/

section

variable {n m k : Nat}

theorem field_or (a b : BitVec 64) : field (a ||| b) n m = field a n m ||| field b n m := by
  unfold field Sparc.bits
  rw [BitVec.setWidth_or, BitVec.shiftLeft_or_distrib, BitVec.ushiftRight_or_distrib]

theorem field_and (a b : BitVec 64) : field (a &&& b) n m = field a n m &&& field b n m := by
  unfold field Sparc.bits
  rw [BitVec.setWidth_and, BitVec.shiftLeft_and_distrib, BitVec.ushiftRight_and_distrib]

theorem field_and_of_ones {a c : BitVec 64} (hc : field c n m = field (BitVec.allOnes 64) n m) :
    field (a &&& c) n m = field a n m := by
  rw [field_and, hc, ← field_and, BitVec.and_allOnes]

theorem field_and_of_zero {a c : BitVec 64} (hc : field c n m = 0) : field (a &&& c) n m = 0 := by
  rw [field_and, hc]
  exact BitVec.and_zero

theorem field_or_of_ones {a c : BitVec 64} (hc : field c n m = field (BitVec.allOnes 64) n m) :
    field (a ||| c) n m = field (BitVec.allOnes 64) n m := by
  rw [field_or, hc, ← field_or, BitVec.or_allOnes]

theorem field_widen (e : Uint32) : field (e.setWidth 64) n m = Sparc.bits e n m := by
  unfold field
  rw [BitVec.setWidth_setWidth_of_le _ (by decide), BitVec.setWidth_eq]

theorem field_or_of_zero {a c : BitVec 64} (hc : field c n m = 0) :
    field (a ||| c) n m = field a n m := by
  rw [field_or, hc]
  exact BitVec.or_zero

/-- A line that replaces the field. -/
theorem field_replace {c : BitVec 64} (hc : field c n m = 0) (x : BitVec 64) (e : Uint32) :
    field ((x &&& c) ||| e.setWidth 64) n m = Sparc.bits e n m := by
  rw [field_or, field_and_of_zero hc, field_widen]
  exact BitVec.zero_or

/-- A line that lays over the field. -/
theorem field_overlay {c : BitVec 64} (hc : field c n m = field (BitVec.allOnes 64) n m)
    (x : BitVec 64) (e : Uint32) :
    field ((x &&& c) ||| e.setWidth 64) n m = field x n m ||| Sparc.bits e n m := by
  rw [field_or, field_and_of_ones hc, field_widen]

/-- A part of an index, in 32 bits as in 64. -/
theorem ofNat_and_widen (x : Nat) (c : Uint32) :
    BitVec.ofNat 64 x &&& c.setWidth 64 = (BitVec.ofNat 32 x &&& c).setWidth 64 := by
  apply BitVec.eq_of_getLsbD_eq
  intro j hj
  rw [BitVec.getLsbD_and, BitVec.getLsbD_setWidth, BitVec.getLsbD_setWidth, BitVec.getLsbD_and,
    BitVec.getLsbD_ofNat, BitVec.getLsbD_ofNat, decide_eq_true hj]
  by_cases h : j < 32
  · rw [decide_eq_true h, Bool.true_and, Bool.true_and, Bool.true_and]
  · rw [BitVec.getLsbD_of_ge c j (by omega), Bool.and_false, Bool.and_false, Bool.and_false,
      Bool.and_false]

theorem toNat_and_le (x c : Uint32) : (x &&& c).toNat ≤ c.toNat := by
  rw [BitVec.toNat_and]
  exact Nat.and_le_right

theorem bits_shiftLeft (hn : n < 32) (hm : m ≤ n) (hk : k ≤ m) (e : Uint32) :
    Sparc.bits (e <<< k) n m = Sparc.bits e (n - k) (m - k) := by
  apply BitVec.eq_of_getLsbD_eq
  intro i _
  rw [Sparc.getLsbD_bits hn hm, Sparc.getLsbD_bits (by omega) (by omega),
    BitVec.getLsbD_shiftLeft]
  by_cases h : m + i ≤ n
  · have h1 : m - k + i ≤ n - k := by omega
    have h2 : m + i < 32 := by omega
    have h3 : ¬m + i < k := by omega
    have h4 : m + i - k = m - k + i := by omega
    rw [decide_eq_true h, decide_eq_true h1, decide_eq_true h2, decide_eq_false h3, h4]
    rfl
  · have h1 : ¬m - k + i ≤ n - k := by omega
    rw [decide_eq_false h, decide_eq_false h1, Bool.false_and, Bool.false_and]

theorem bits_shiftLeft_below (hn : n < 32) (hm : m ≤ n) (hk : n < k) (e : Uint32) :
    Sparc.bits (e <<< k) n m = 0 := by
  apply BitVec.eq_of_getLsbD_eq
  intro i _
  have h0 : (0 : Uint32).getLsbD i = false := BitVec.getLsbD_zero
  rw [Sparc.getLsbD_bits hn hm, BitVec.getLsbD_shiftLeft, h0]
  by_cases h : m + i ≤ n
  · have h1 : m + i < k := by omega
    simp [h1]
  · rw [decide_eq_false h, Bool.false_and]

theorem bits_of_narrow (hn : n < 32) (hm : m ≤ n) {e : Uint32} (he : Narrow e k) (hk : k < m) :
    Sparc.bits e n m = 0 := by
  apply BitVec.eq_of_getLsbD_eq
  intro i _
  have h0 : (0 : Uint32).getLsbD i = false := BitVec.getLsbD_zero
  rw [Sparc.getLsbD_bits hn hm, h0, he (m + i) (by omega), Bool.and_false]

theorem narrow_of_lt {e : Uint32} (he : e.toNat < 2 ^ (k + 1)) : Narrow e k := by
  intro i hi
  have hlt : e.toNat < 2 ^ i := Nat.lt_of_lt_of_le he (Nat.pow_le_pow_right (by decide) hi)
  exact Nat.testBit_lt_two_pow hlt

theorem bits_narrow (hn : n < 32) {e : Uint32} (he : Narrow e n) : Sparc.bits e n 0 = e := by
  apply BitVec.eq_of_getLsbD_eq
  intro i _
  rw [Sparc.getLsbD_bits hn (Nat.zero_le n), Nat.zero_add]
  by_cases h : i ≤ n
  · rw [decide_eq_true h, Bool.true_and]
  · rw [he i (by omega), Bool.and_false]

end

namespace E500Core

variable {M : Type} (behind : TlbEntry) (s : E500Core M)

/-! ## The entry of the translation -/

/-- The PID that MAS6 has `tlbsx` search for. -/
def searchedPid : BitVec 64 := (s.mmu.mas 6 &&& 0xFF0000) >>> 16

/-- The core with that PID in PID0. -/
def underSearchedPid : E500Core M :=
  { s with mmu := { s.mmu with pid := Function.update s.mmu.pid 0 s.searchedPid } }

/-- The index at which the lookup of `ppc_effective_to_physical` returns for a load. -/
def translatedBy (ea : Uint32) : Option Nat :=
  walkIndices.find? fun i => (s.examine behind ea mmuRead i).isSome

variable {behind s} in
theorem walk_eq_find (addr : Uint32) (flags : Nat) (is : List Nat) :
    (s.walk behind addr flags is).2 =
      (is.find? fun i => (s.examine behind addr flags i).isSome).bind
        (s.examine behind addr flags) := by
  induction is with
  | nil => rfl
  | cons i is ih =>
    rw [walk, List.find?_cons]
    cases he : s.examine behind addr flags i with
    | none => exact ih
    | some r => exact he.symm

/-- The address that the translation returns is the one of that entry. -/
theorem lookup_eq_translatedBy (ea : Uint32) : s.lookup behind ea mmuRead =
    match (s.translatedBy behind ea).bind (s.examine behind ea mmuRead) with
    | some r => r
    | none => .exc .dataTlb := by
  unfold lookup translatedBy
  rw [walk_eq_find]
  rfl

/-! ## What the search is to leave, and what it leaves -/

/-- The fields of the entry at `i`; for TLB0 ESEL has the upper bits of the index. -/
def entryFields (i : Nat) : MasFields where
  tlbsel := if i < l2Tlb0Size then 0 else 1
  esel :=
    if i < l2Tlb0Size then (BitVec.ofNat 32 i &&& 0xC0) >>> 4 else BitVec.ofNat 32 (i - l2Tlb0Size)
  v := 1
  iprot := (s.entryAt behind i).iprot
  ts := (s.entryAt behind i).ts
  tid := (s.entryAt behind i).tid
  size := (s.entryAt behind i).size
  wimge := (s.entryAt behind i).wimge
  x := (s.entryAt behind i).x
  epn := (s.entryAt behind i).epn
  usxrw := (s.entryAt behind i).usxrw
  u := (s.entryAt behind i).u
  rpn := (s.entryAt behind i).rpn

/-- The fields after `tlbsx` has found the entry at `i`: ESEL of TLB1, TID, EPN and U are laid
over what the registers held. -/
def searchFields (i : Nat) : MasFields where
  tlbsel := if i < l2Tlb0Size then 0 else 1
  esel :=
    if i < l2Tlb0Size then (BitVec.ofNat 32 i &&& 0xC0) >>> 4
    else field (s.mmu.mas 0) 19 16 ||| (BitVec.ofNat 32 (i - l2Tlb0Size) &&& 0xC)
  v := 1
  iprot := 0
  ts := 0
  tid := field (s.mmu.mas 1) 23 16 ||| (s.entryAt behind i).tid
  size := 0
  wimge := 0
  x := 0
  epn := field (s.mmu.mas 2) 31 12 ||| Sparc.bits (s.entryAt behind i).epn 19 0
  usxrw := Sparc.bits (s.entryAt behind i).usxrw 5 0
  u := field (s.mmu.mas 3) 9 6 ||| Sparc.bits (s.entryAt behind i).usxrw 9 6
  rpn := Sparc.bits (s.entryAt behind i).rpn 19 0

variable {behind s}

/-- An entry that is found has a TID of 8 bits. -/
theorem narrow_tid_of_hit {ea : Uint32} {i : Nat} (h : s.searchHit behind ea i = true) :
    Narrow (s.entryAt behind i).tid 7 := by
  unfold searchHit at h
  dsimp only at h
  split at h
  · cases h
  split at h
  · cases h
  split at h
  · cases h
  rename_i ht
  intro j hj
  by_cases h0 : (s.entryAt behind i).tid = 0
  · rw [h0]
    exact BitVec.getLsbD_zero
  · have he : (s.entryAt behind i).tid.setWidth 64 = (s.mmu.mas 6 &&& 0xFF0000) >>> 16 := by
      by_contra hn
      exact ht ⟨h0, hn⟩
    have hb := congrArg (fun y : BitVec 64 => y.getLsbD j) he
    have hc : (0xFF0000 : BitVec 64) >>> 16 = BitVec.ofNat 64 (2 ^ 8 - 1) := by decide
    have h8 : ¬j < 8 := by omega
    simp only [BitVec.ushiftRight_and_distrib, hc, BitVec.getLsbD_and, BitVec.getLsbD_ofNat,
      Nat.testBit_two_pow_sub_one, decide_eq_false h8, Bool.and_false,
      BitVec.getLsbD_setWidth] at hb
    by_cases h64 : j < 64
    · rwa [decide_eq_true h64, Bool.true_and] at hb
    · exact BitVec.getLsbD_of_ge _ _ (by omega)

section

variable (i : Nat)

theorem searchMas_mas1 : s.searchMas behind i 1 =
    ((s.mmu.mas 1 &&& 0xFF0000) ||| ((s.entryAt behind i).tid <<< 16).setWidth 64) |||
      0x80000000 := by
  unfold searchMas
  dsimp only
  split <;> rfl

theorem searchMas_mas2 : s.searchMas behind i 2 =
    (s.mmu.mas 2 &&& 0xFFFFF000) ||| ((s.entryAt behind i).epn <<< 12).setWidth 64 := by
  unfold searchMas
  dsimp only
  split <;> rfl

theorem searchMas_mas3 : s.searchMas behind i 3 =
    (((s.mmu.mas 3 &&& 0xFFFFFFC0) ||| (s.entryAt behind i).usxrw.setWidth 64) &&& 0xFFF) |||
      ((s.entryAt behind i).rpn <<< 12).setWidth 64 := by
  unfold searchMas
  dsimp only
  split <;> rfl

/-- An index of 4 bits in the place of ESEL. -/
theorem field_index {Y : BitVec 64} {y : Uint32} (hY : Y = y.setWidth 64) (hy : y.toNat < 16) :
    field (Y <<< 16) 28 28 = 0 ∧ field (Y <<< 16) 19 16 = y := by
  have hs : Y <<< 16 = (y <<< 16).setWidth 64 := by
    apply BitVec.eq_of_toNat_eq
    rw [hY, BitVec.toNat_shiftLeft, BitVec.toNat_setWidth, BitVec.toNat_setWidth,
      BitVec.toNat_shiftLeft, Nat.shiftLeft_eq, Nat.shiftLeft_eq]
    omega
  have hn : Narrow y 3 := narrow_of_lt hy
  rw [hs, field_widen, field_widen]
  constructor
  · rw [bits_shiftLeft (by decide) (by decide) (by decide)]
    exact bits_of_narrow (by decide) (by decide) hn (by decide)
  · rw [bits_shiftLeft (by decide) (by decide) (by decide)]
    exact bits_narrow (by decide) hn

theorem way_lt : ((BitVec.ofNat 32 i &&& 0xC0) >>> 4 : Uint32).toNat < 16 := by
  have hle : (BitVec.ofNat 32 i &&& 0xC0 : Uint32).toNat ≤ 0xC0 := toNat_and_le _ 0xC0
  rw [BitVec.toNat_ushiftRight, Nat.shiftRight_eq_div_pow]
  omega

theorem part_lt (x : Nat) : (BitVec.ofNat 32 x &&& 0xC : Uint32).toNat < 16 := by
  have hle : (BitVec.ofNat 32 x &&& 0xC : Uint32).toNat ≤ 0xC := toNat_and_le _ 0xC
  omega

theorem way_widen : (BitVec.ofNat 64 i &&& 0xC0) >>> 4 =
    ((BitVec.ofNat 32 i &&& 0xC0) >>> 4 : Uint32).setWidth 64 := by
  have hw : BitVec.ofNat 64 i &&& 0xC0 = (BitVec.ofNat 32 i &&& 0xC0).setWidth 64 :=
    ofNat_and_widen i 0xC0
  rw [hw]
  apply BitVec.eq_of_toNat_eq
  have hlt := (BitVec.ofNat 32 i &&& 0xC0 : Uint32).isLt
  rw [BitVec.toNat_ushiftRight, BitVec.toNat_setWidth, BitVec.toNat_setWidth,
    BitVec.toNat_ushiftRight, Nat.shiftRight_eq_div_pow, Nat.shiftRight_eq_div_pow]
  omega

theorem searchMas_mas0 : field (s.searchMas behind i 0) 28 28 = (s.searchFields behind i).tlbsel ∧
    field (s.searchMas behind i 0) 19 16 = (s.searchFields behind i).esel := by
  by_cases hi : i < 256
  · obtain ⟨h28, h16⟩ := field_index (way_widen i) (way_lt i)
    let mas := Function.update s.mmu.mas 0 (s.mmu.mas 0 &&& ~~~((0x1 : BitVec 64) <<< 28))
    have h0 : s.searchMas behind i 0 = (s.masVictim mas 0 &&& 0xFFF0FFFF) |||
        (((BitVec.ofNat 64 i &&& 0xC0) >>> 4) <<< 16) := by
      unfold searchMas
      dsimp only
      rw [if_neg (show ¬i > 256 - 1 by omega)]
      rfl
    have hv : field (s.masVictim mas 0) 28 28 = 0 :=
      (field_masVictim (by decide) (by decide) (by decide) mas).trans
        (field_and_of_zero (by decide))
    have ht : (s.searchFields behind i).tlbsel = 0 := if_pos hi
    have he : (s.searchFields behind i).esel = (BitVec.ofNat 32 i &&& 0xC0) >>> 4 := if_pos hi
    rw [h0, ht, he, field_or, field_or, h28, h16, field_and_of_ones (by decide), hv,
      field_and_of_zero (by decide)]
    exact ⟨BitVec.or_zero, BitVec.zero_or⟩
  · have hw : BitVec.ofNat 64 (i - 256) &&& 0xC = (BitVec.ofNat 32 (i - 256) &&& 0xC).setWidth 64 :=
      ofNat_and_widen (i - 256) 0xC
    obtain ⟨h28, h16⟩ := field_index hw (part_lt (i - 256))
    let set28 := s.mmu.mas 0 ||| ((0x1 : BitVec 64) <<< 28)
    let index := (BitVec.ofNat 64 (i - 256) &&& 0xC) <<< 16
    let low := (set28 &&& 0xFFF0FFFF) ||| index
    have h0 : s.searchMas behind i 0 = set28 ||| low := by
      unfold searchMas
      dsimp only
      rw [if_pos (show i > 256 - 1 by omega)]
      rfl
    have ht : (s.searchFields behind i).tlbsel = 1 := if_neg hi
    have he : (s.searchFields behind i).esel =
        field (s.mmu.mas 0) 19 16 ||| (BitVec.ofNat 32 (i - 256) &&& 0xC) := if_neg hi
    have hc : field ((0x1 : BitVec 64) <<< 28) 19 16 = 0 := by decide
    have hset28 : field set28 28 28 = 1 := field_or_of_ones (by decide)
    have hset16 : field set28 19 16 = field (s.mmu.mas 0) 19 16 := by
      rw [field_or, hc]
      exact BitVec.or_zero
    have hlow28 : field low 28 28 = 1 := by
      rw [field_or, h28, field_and_of_ones (by decide), hset28]
      decide
    have hlow16 : field low 19 16 = BitVec.ofNat 32 (i - 256) &&& 0xC := by
      rw [field_or, h16, field_and_of_zero (by decide)]
      exact BitVec.zero_or
    rw [h0, ht, he, field_or set28 low, field_or set28 low, hset28, hlow28, hset16, hlow16]
    exact ⟨by decide, rfl⟩

/-- The registers after a search have these fields. -/
theorem masFields_searchMas {ea : Uint32} (h : s.searchHit behind ea i = true) :
    masFields (s.searchMas behind i) = s.searchFields behind i := by
  have hnarrow := narrow_tid_of_hit h
  have hmas0 : field (s.searchMas behind i 0) 28 28 = (s.searchFields behind i).tlbsel ∧
      field (s.searchMas behind i 0) 19 16 = (s.searchFields behind i).esel := searchMas_mas0 i
  obtain ⟨h28, h16⟩ := hmas0
  have htid30 : Sparc.bits (s.entryAt behind i).tid 14 14 = 0 :=
    bits_of_narrow (by decide) (by decide) hnarrow (by decide)
  have htid : Sparc.bits (s.entryAt behind i).tid 7 0 = (s.entryAt behind i).tid :=
    bits_narrow (by decide) hnarrow
  unfold masFields
  rw [h28, h16, searchMas_mas1, searchMas_mas2, searchMas_mas3]
  unfold searchFields
  have hv : field (BitVec.allOnes 64) 31 31 = 1 := by decide
  rw [MasFields.mk.injEq]
  refine ⟨rfl, rfl, (field_or_of_ones (by decide)).trans hv, ?_, ?_, ?_, ?_, ?_, ?_, ?_, ?_, ?_, ?_⟩
  · rw [field_or_of_zero (by decide), field_replace (by decide),
      bits_shiftLeft (by decide) (by decide) (by decide)]
    exact htid30
  · rw [field_or_of_zero (by decide), field_replace (by decide)]
    exact bits_shiftLeft_below (by decide) (by decide) (by decide) _
  · rw [field_or_of_zero (by decide), field_overlay (by decide),
      bits_shiftLeft (by decide) (by decide) (by decide)]
    exact congrArg (field (s.mmu.mas 1) 23 16 ||| ·) htid
  · rw [field_or_of_zero (by decide), field_replace (by decide)]
    exact bits_shiftLeft_below (by decide) (by decide) (by decide) _
  · rw [field_replace (by decide)]
    exact bits_shiftLeft_below (by decide) (by decide) (by decide) _
  · rw [field_replace (by decide)]
    exact bits_shiftLeft_below (by decide) (by decide) (by decide) _
  · rw [field_overlay (by decide), bits_shiftLeft (by decide) (by decide) (by decide)]
  · rw [field_overlay (by decide), bits_shiftLeft_below (by decide) (by decide) (by decide),
      field_replace (by decide)]
    exact BitVec.or_zero
  · rw [field_overlay (by decide), bits_shiftLeft_below (by decide) (by decide) (by decide),
      field_overlay (by decide)]
    exact BitVec.or_zero
  · rw [field_replace (by decide), bits_shiftLeft (by decide) (by decide) (by decide)]

end

/-! ## Agreement -/

section

variable (behind s) {clearBehind : E500Core M → E500Core M}

/-- The address of `tlbsx`. -/
def tlbsxAddr : Uint32 := s.gpr (rB s.currentOpc)

/-- `tlbsx` leaves the fields of the entry that the translation under the PID of MAS6 takes, and
a clear valid bit where it takes none. -/
def SearchAgrees : Prop :=
  match s.underSearchedPid.translatedBy behind s.tlbsxAddr with
  | some k => masFields (s.ppcOpcTlbsx behind).mmu.mas = s.entryFields behind k
  | none => field ((s.ppcOpcTlbsx behind).mmu.mas 1) 31 31 = 0

/-- The fields that the search leaves for `i` are those of `k`: what it sets to 0 is 0 there,
and what it lays over the registers does not mix with what they held. -/
structure FieldsFit (i k : Nat) : Prop where
  tlbsel : i < l2Tlb0Size ↔ k < l2Tlb0Size
  esel :
    (if i < l2Tlb0Size then (BitVec.ofNat 32 i &&& 0xC0) >>> 4
      else field (s.mmu.mas 0) 19 16 ||| (BitVec.ofNat 32 (i - l2Tlb0Size) &&& 0xC)) =
    if k < l2Tlb0Size then (BitVec.ofNat 32 k &&& 0xC0) >>> 4
      else BitVec.ofNat 32 (k - l2Tlb0Size)
  iprot : (s.entryAt behind k).iprot = 0
  ts : (s.entryAt behind k).ts = 0
  tid : field (s.mmu.mas 1) 23 16 ||| (s.entryAt behind i).tid = (s.entryAt behind k).tid
  size : (s.entryAt behind k).size = 0
  wimge : (s.entryAt behind k).wimge = 0
  x : (s.entryAt behind k).x = 0
  epn : field (s.mmu.mas 2) 31 12 ||| Sparc.bits (s.entryAt behind i).epn 19 0 =
    (s.entryAt behind k).epn
  usxrw : Sparc.bits (s.entryAt behind i).usxrw 5 0 = (s.entryAt behind k).usxrw
  u : field (s.mmu.mas 3) 9 6 ||| Sparc.bits (s.entryAt behind i).usxrw 9 6 =
    (s.entryAt behind k).u
  rpn : Sparc.bits (s.entryAt behind i).rpn 19 0 = (s.entryAt behind k).rpn

/-- The first entry that the tests of `tlbsx` let through against the first that the translation
takes: their fields fit; where only the translation has one the registers hold its fields
already; and where neither has one V is clear already. -/
def SearchFits : Prop :=
  match s.underSearchedPid.translatedBy behind s.tlbsxAddr,
    walkIndices.find? (s.searchHit behind s.tlbsxAddr) with
  | some k, some i => s.FieldsFit behind i k
  | some k, none => masFields s.mmu.mas = s.entryFields behind k
  | none, some _ => False
  | none, none => field (s.mmu.mas 1) 31 31 = 0

/-- The four instructions agree, with each other and with the translation. -/
structure TlbAgreed (behind : TlbEntry) (clearBehind : E500Core M → E500Core M)
    (s : E500Core M) : Prop where
  reads : s.ReadsBack
  searches : s.SearchAgrees behind
  invalidates : s.InvalidatesCovering behind clearBehind

variable {behind s}

theorem fieldsFit_iff (i k : Nat) :
    s.FieldsFit behind i k ↔ s.searchFields behind i = s.entryFields behind k := by
  have hsel : ((if i < l2Tlb0Size then 0 else 1 : Uint32) = if k < l2Tlb0Size then 0 else 1) ↔
      (i < l2Tlb0Size ↔ k < l2Tlb0Size) := by
    by_cases hi : i < l2Tlb0Size <;> by_cases hk : k < l2Tlb0Size <;> simp [hi, hk]
  constructor
  · intro h
    unfold searchFields entryFields
    rw [MasFields.mk.injEq]
    exact ⟨hsel.mpr h.tlbsel, h.esel, rfl, h.iprot.symm, h.ts.symm, h.tid, h.size.symm,
      h.wimge.symm, h.x.symm, h.epn, h.usxrw, h.u, h.rpn⟩
  · intro h
    exact ⟨hsel.mp (congrArg MasFields.tlbsel h), congrArg MasFields.esel h,
      (congrArg MasFields.iprot h).symm, (congrArg MasFields.ts h).symm,
      congrArg MasFields.tid h, (congrArg MasFields.size h).symm,
      (congrArg MasFields.wimge h).symm, (congrArg MasFields.x h).symm,
      congrArg MasFields.epn h, congrArg MasFields.usxrw h, congrArg MasFields.u h,
      congrArg MasFields.rpn h⟩

theorem searchAgrees_iff : s.SearchAgrees behind ↔ s.SearchFits behind := by
  have hrun : s.ppcOpcTlbsx behind =
      match walkIndices.find? (s.searchHit behind s.tlbsxAddr) with
      | some i => s.setMas (s.searchMas behind i)
      | none => s := rfl
  unfold SearchAgrees SearchFits
  rw [hrun]
  cases hfind : walkIndices.find? (s.searchHit behind s.tlbsxAddr) with
  | none => cases s.underSearchedPid.translatedBy behind s.tlbsxAddr <;> exact Iff.rfl
  | some i =>
    have hhit := List.find?_some hfind
    cases s.underSearchedPid.translatedBy behind s.tlbsxAddr with
    | none =>
      -- the search sets V
      have hv : field (s.searchMas behind i 1) 31 31 = 1 :=
        congrArg MasFields.v (masFields_searchMas i hhit)
      show field (s.searchMas behind i 1) 31 31 = 0 ↔ False
      rw [hv]
      decide
    | some k =>
      show masFields (s.searchMas behind i) = s.entryFields behind k ↔ s.FieldsFit behind i k
      rw [masFields_searchMas i hhit, fieldsFit_iff]

/-- When the instructions agree. -/
theorem tlbAgreed_iff (hc : ∀ s : E500Core M, (clearBehind s).mmu = s.mmu) :
    s.TlbAgreed behind clearBehind ↔ s.SearchFits behind ∧ s.InvalidateFits behind := by
  constructor
  · intro h
    exact ⟨searchAgrees_iff.mp h.searches, (invalidatesCovering_iff hc).mp h.invalidates⟩
  · rintro ⟨hsearch, hinv⟩
    exact ⟨readsBack s, searchAgrees_iff.mpr hsearch, (invalidatesCovering_iff hc).mpr hinv⟩

end

end E500Core

/-- `pageEntry` with the size left 0, as for TLB0. -/
def soughtEntry : TlbEntry := ⟨1, 0, 0, 0x40, 5, 0, 0x3F, 0, 0, 0, 0⟩

/-- `onePage` with that entry and its address in the registers. -/
def onePageSought (n : Fin l2Tlb0Size) : E500Core Unit :=
  { onePage n with
    gpr _ := 0x40000
    mmu := { (onePage n).mmu with
      l2Tlb0_4k i := if i = n then soughtEntry else noEntry } }

theorem entryAt_onePageSought (n : Fin l2Tlb0Size) (i : Nat) :
    (onePageSought n).entryAt noEntry i =
      if i = n then soughtEntry else noEntry := by
  unfold E500Core.entryAt
  by_cases h0 : i < l2Tlb0Size
  · rw [dif_pos h0]
    have hn : (⟨i, h0⟩ : Fin l2Tlb0Size) = n ↔ i = n := Fin.ext_iff
    exact if_congr hn rfl rfl
  · have hn : i ≠ n := fun e => h0 (e ▸ n.isLt)
    rw [dif_neg h0, if_neg hn]
    split <;> rfl

theorem covers_onePageSought (n : Fin l2Tlb0Size) :
    (onePageSought n).Covers noEntry 0x40000 n := by
  have hb : (onePageSought n).pageBits noEntry n = 12 := if_pos n.isLt
  unfold E500Core.Covers
  rw [entryAt_onePageSought, if_pos rfl, hb]
  decide

/-- The entry 0 of TLB0 stays valid under `tlbivax`. -/
theorem not_tlbAgreed : ¬∀ (s : E500Core Unit) (behind : TlbEntry)
    (clearBehind : E500Core Unit → E500Core Unit),
      (∀ s, (clearBehind s).mmu = s.mmu) → s.TlbAgreed behind clearBehind := by
  intro hall
  have h := (hall (onePageSought 0) noEntry id fun _ => rfl).invalidates
  have hfits := (E500Core.invalidatesCovering_iff fun _ => rfl).mp h
  have he := entryAt_onePageSought 0 0
  have hv : ((onePageSought 0).entryAt noEntry 0).v ≠ 0 := by
    rw [he]
    decide
  have hp : ((onePageSought 0).entryAt noEntry 0).iprot = 0 := by
    rw [he]
    rfl
  exact (hfits rfl 0 (by decide) hp (covers_onePageSought 0) hv).1 rfl

/-- At the second way they agree. -/
theorem tlbAgreed_iff_second : (onePageSought 64).TlbAgreed noEntry id := by
  have hne {i : Nat} (hv : ((onePageSought 64).entryAt noEntry i).v ≠ 0) : i = 64 := by
    rw [entryAt_onePageSought] at hv
    by_contra hi
    exact hv (congrArg TlbEntry.v (if_neg hi))
  have htrans : (onePageSought 64).underSearchedPid.translatedBy noEntry
      (onePageSought 64).tlbsxAddr = some 64 := by decide +kernel
  have hfind : E500Core.walkIndices.find? ((onePageSought 64).searchHit noEntry
      (onePageSought 64).tlbsxAddr) = some 64 := by decide +kernel
  refine (E500Core.tlbAgreed_iff fun _ => rfl).mpr ⟨?_, fun _ i _ _ _ hv => ?_⟩
  · unfold E500Core.SearchFits
    rw [htrans, hfind]
    exact (E500Core.fieldsFit_iff 64 64).mpr (by decide +kernel)
  · have he := entryAt_onePageSought 64 64
    rw [hne hv, he]
    exact ⟨by decide, .inl rfl, fun h => absurd h (by decide)⟩

end SkyEye.Ppc
