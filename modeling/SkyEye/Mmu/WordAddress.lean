import SkyEye.Mmu.Tlb
import SkyEye.Mmu.CacheWords
import SkyEye.Mmu.Translation

/-!
# The two low bits of an address

Page tables, caches and the memory behind them find the word of an address without its two
low bits. Only the alignment check and the lanes of a datum see these.
-/

namespace SkyEye

/-! ## Translation -/

namespace MmuState

variable {U : Type} {mmu : MmuState U}

/-- No mask of the page tables keeps the two low bits. -/
theorem and_word_and {N : ARMword} (hN : ~~~3 &&& N = N) (va : ARMword) :
    (va &&& ~~~3) &&& N = va &&& N := by
  rw [BitVec.and_assoc, hN]

theorem and_word_and_mask (k : TlbMapping) (va : ARMword) :
    (va &&& ~~~3) &&& k.mask = va &&& k.mask :=
  and_word_and (by cases k <;> rfl) va

theorem l1desc_word (va : ARMword) : mmu.l1desc (va &&& ~~~3) = mmu.l1desc va :=
  l1desc_congr (and_word_and rfl va)

theorem l2desc_word (va : ARMword) : mmu.l2desc (va &&& ~~~3) = mmu.l2desc va :=
  l2desc_congr (and_word_and rfl va)

theorem decodeDescs_word (x : Bool) (l1 l2 va : ARMword) :
    decodeDescs x l1 l2 (va &&& ~~~3) = decodeDescs x l1 l2 va := by
  simp only [decodeDescs, walkEntry, and_word_and_mask]

theorem search_word (tlb : Tlb) (va : ARMword) : tlb.search (va &&& ~~~3) = tlb.search va := by
  simp only [Tlb.search, TlbEntry.hit, and_word_and_mask]

theorem translate_word (x : Bool) (tlb : Tlb) (va : ARMword) :
    mmu.translate x tlb (va &&& ~~~3) = mmu.translate x tlb va := by
  simp only [translate, search_word, walk, l1desc_word, l2desc_word, decodeDescs_word]

theorem shift_word {n : Nat} (hn : 2 ≤ n) (va : ARMword) : (va &&& ~~~3) >>> n = va >>> n := by
  apply BitVec.eq_of_toNat_eq
  have hm : (~~~3 : ARMword) = BitVec.allOnes 32 <<< 2 := rfl
  obtain ⟨k, rfl⟩ := Nat.exists_eq_add_of_le hn
  rw [BitVec.toNat_ushiftRight, BitVec.toNat_ushiftRight, hm, Word.toNat_and_high,
    Nat.shiftRight_add, Nat.shiftRight_add, Nat.shiftRight_eq_div_pow _ 2,
    Nat.shiftRight_eq_div_pow _ 2, Nat.mul_div_cancel _ (by decide)]

theorem subpage_word (e : TlbEntry) (va : ARMword) : subpage e (va &&& ~~~3) = subpage e va := by
  simp only [subpage, shift_word (show 2 ≤ 10 by decide), shift_word (show 2 ≤ 14 by decide)]

theorem authorise_word (cpu : Cpu) (tlb : Tlb) (va : ARMword) (read : Bool) :
    mmu.authorise cpu tlb (va &&& ~~~3) read = mmu.authorise cpu tlb va read := by
  simp only [authorise, translate_word, checkAccess, subpage_word]

theorem pidVaMap_word (va : ARMword) :
    mmu.pidVaMap (va &&& ~~~3) = mmu.pidVaMap va &&& ~~~3 := by
  have hm : PID_VA_MAP_MASK &&& ~~~3 = PID_VA_MAP_MASK := rfl
  rw [pidVaMap, pidVaMap, and_word_and rfl]
  split
  · rfl
  · rw [BitVec.and_or_distrib_right, BitVec.and_assoc, hm]

theorem pidVaMap_lane (va : ARMword) : mmu.pidVaMap va &&& 3 = va &&& 3 := by
  have hm : PID_VA_MAP_MASK &&& 3 = 0#32 := rfl
  rw [pidVaMap]
  split
  · rfl
  · rw [BitVec.and_or_distrib_right, BitVec.and_assoc, hm, BitVec.and_zero, BitVec.or_zero]

theorem misaligned_word (va : ARMword) :
    mmu.misaligned va .word = (va &&& 3 != 0 && mmu.mmuAligned) := by
  rw [misaligned, show (DataType.word == .word) = true from rfl,
    show (DataType.word == .halfword) = false from rfl, Bool.and_true, Bool.and_false,
    Bool.false_and, Bool.or_false]

theorem and_word_word (va : ARMword) : va &&& ~~~3 &&& ~~~3 = va &&& ~~~3 :=
  and_word_and rfl va

theorem and_word_lane (va : ARMword) : va &&& ~~~3 &&& 3 = 0 := by
  rw [BitVec.and_assoc]
  exact BitVec.and_zero

/-- The address of a word passes the alignment check. -/
theorem misaligned_and_word (va : ARMword) : mmu.misaligned (va &&& ~~~3) .word = false := by
  rw [misaligned_word, and_word_lane]
  rfl

end MmuState

/-! ## Memory and caches -/

namespace Ram

theorem index_word (a : ARMword) : index (a &&& ~~~3) = index a := by
  rw [← addr_index, index_addr]

theorem busRead_word (ram : Ram) (a : ARMword) :
    ram.busRead .word (a &&& ~~~3) = ram.busRead .word a :=
  busRead_congr (index_word a) rfl

end Ram

namespace CacheDesc

variable {d : CacheDesc} (hd : d.width = 16 ∨ d.width = 32)

include hd

theorem vaCacheAlign_word (va : ARMword) : d.vaCacheAlign (va &&& ~~~3) = d.vaCacheAlign va := by
  rcases hd with h | h <;> rw [vaCacheAlign, vaCacheAlign, h] <;>
    exact MmuState.and_word_and rfl va

theorem vaCacheSet_word (va : ARMword) : d.vaCacheSet (va &&& ~~~3) = d.vaCacheSet va := by
  have hm : (~~~3 : ARMword) = BitVec.allOnes 32 <<< 2 := rfl
  have hv : (va &&& ~~~3) / BitVec.ofNat 32 d.width = va / BitVec.ofNat 32 d.width := by
    apply BitVec.eq_of_toNat_eq
    rw [BitVec.toNat_udiv, BitVec.toNat_udiv, hm, Word.toNat_and_high]
    rcases hd with h | h <;> rw [h]
    · change va.toNat / 2 ^ 2 * 2 ^ 2 / 16 = va.toNat / 16
      omega
    · change va.toNat / 2 ^ 2 * 2 ^ 2 / 32 = va.toNat / 32
      omega
  simp only [vaCacheSet, hv]

omit hd in
theorem vaCacheIndex_word (va : ARMword) : d.vaCacheIndex (va &&& ~~~3) = d.vaCacheIndex va := by
  rw [vaCacheIndex, vaCacheIndex, BitVec.and_assoc, BitVec.and_comm (~~~3), ← BitVec.and_assoc,
    MmuState.shift_word (Nat.le_refl 2)]

end CacheDesc

namespace Cache

variable {d : CacheDesc} {c : Cache d} (hd : d.width = 16 ∨ d.width = 32)

include hd

theorem searchLine_word (va : ARMword) : c.searchLine (va &&& ~~~3) = c.searchLine va := by
  simp only [searchLine, search, CacheLine.hit, CacheDesc.vaCacheSet_word hd,
    CacheDesc.vaCacheAlign_word hd]

theorem alloc_word (va pa : ARMword) (ram : Ram) :
    c.alloc (va &&& ~~~3) pa ram = c.alloc va pa ram := by
  simp only [alloc, CacheDesc.vaCacheAlign_word hd]

theorem alloc_word_pa (va pa : ARMword) (ram : Ram) :
    c.alloc va (pa &&& ~~~3) ram = c.alloc va pa ram := by
  simp only [alloc, CacheDesc.vaCacheAlign_word hd]

end Cache

end SkyEye
