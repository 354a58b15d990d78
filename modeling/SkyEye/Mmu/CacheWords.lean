import SkyEye.Mmu.Cache
import SkyEye.Lib.WriteBack
import Mathlib.Logic.Relation

/-!
# A cache as copies of words

A cache of 32-byte lines, word by word: the copy a search finds of each word of memory
and whether its half of the line is dirty. In a cache where every line is in the set of
its tag and no set has two lines of one tag (`Cache.Ok`), writing lines back, dropping
and filling them move each word as a write-back cache does (`Moves`).
-/

namespace SkyEye

open WriteBack

/-! ## Lines of words -/

namespace CacheDesc

variable {d : CacheDesc} (hw : d.width = 32) {va va' : ARMword}

include hw

theorem vaCacheAlign_eq (va : ARMword) : d.vaCacheAlign va = va &&& 0xFFFFFFE0 := by
  rw [vaCacheAlign, hw]
  rfl

theorem toNat_vaCacheAlign (va : ARMword) : (d.vaCacheAlign va).toNat = va.toNat / 32 * 32 := by
  rw [vaCacheAlign_eq hw]
  exact Word.toNat_and_high va 5

theorem vaCacheAlign_eq_iff : d.vaCacheAlign va = d.vaCacheAlign va' ↔
    va.toNat / 32 = va'.toNat / 32 := by
  rw [← BitVec.toNat_inj, toNat_vaCacheAlign hw, toNat_vaCacheAlign hw]
  omega

theorem vaCacheSet_congr (h : d.vaCacheAlign va = d.vaCacheAlign va') :
    d.vaCacheSet va = d.vaCacheSet va' := by
  have hd : va / BitVec.ofNat 32 d.width = va' / BitVec.ofNat 32 d.width := by
    apply BitVec.eq_of_toNat_eq
    rw [hw, BitVec.toNat_udiv, BitVec.toNat_udiv]
    exact (vaCacheAlign_eq_iff hw).mp h
  simp only [vaCacheSet, hd]

theorem vaCacheIndex_eq (va : ARMword) : d.vaCacheIndex va = va.toNat % 32 / 4 := by
  have h : (va &&& BitVec.ofNat 32 (32 - 1)).toNat = va.toNat % 32 :=
    Word.toNat_and_low va 5 (by omega)
  rw [vaCacheIndex, hw, BitVec.toNat_ushiftRight, h, Nat.shiftRight_eq_div_pow]

theorem vaCacheIndex_addr (i : BitVec 30) : d.vaCacheIndex (Ram.addr i) = i.toNat % 8 := by
  rw [vaCacheIndex_eq hw, Ram.toNat_addr]
  omega

theorem vaCacheAlign_addr_index (va : ARMword) :
    d.vaCacheAlign (Ram.addr (Ram.index va)) = d.vaCacheAlign va := by
  rw [vaCacheAlign_eq_iff hw, Ram.toNat_addr, Ram.toNat_index]
  omega

theorem vaCacheIndex_eq_index (va : ARMword) : d.vaCacheIndex va = (Ram.index va).toNat % 8 := by
  rw [vaCacheIndex_eq hw, Ram.toNat_index]
  omega

theorem index_line {k : Nat} (hk : k < 8) (i : BitVec 30) :
    i = Ram.index (d.vaCacheAlign va + BitVec.ofNat 32 (4 * k)) ↔
      d.vaCacheAlign (Ram.addr i) = d.vaCacheAlign va ∧ i.toNat % 8 = k := by
  rw [← BitVec.toNat_inj, Ram.toNat_index, BitVec.toNat_add, toNat_vaCacheAlign hw,
    BitVec.toNat_ofNat, vaCacheAlign_eq_iff hw, Ram.toNat_addr]
  have := va.isLt
  have := i.isLt
  omega

end CacheDesc

/-! ## Lines -/

namespace CacheLine

variable {d : CacheDesc} {l : CacheLine}

/-- The half of a word is dirty. -/
def dirty (d : CacheDesc) (l : CacheLine) (index : Nat) : Bool := l.tag &&& halfDirty d index != 0

/-- The copy of a word in a line of eight. -/
def word (d : CacheDesc) (l : CacheLine) (i : BitVec 30) : ARMword × Bool :=
  (l.data (i.toNat % 8), l.dirty d (i.toNat % 8))

theorem hit_iff {va : ARMword} :
    l.hit d va = true ↔ l.valid = true ∧ d.vaCacheAlign va = d.vaCacheAlign l.tag := by
  rw [hit, Bool.and_eq_true, beq_iff_eq]

theorem storeWords_bigEndian (ram : Ram) (first nw : Nat) :
    (l.storeWords ram first nw).bigEndian = ram.bigEndian := by
  induction nw with
  | zero => rfl
  | succ nw ih =>
    rw [← ih]
    simp only [storeWords, List.range_succ, List.foldl_append, List.foldl_cons, List.foldl_nil]
    rfl

variable (hw : d.width = 32)

include hw

theorem halfDirty_eq (k : Nat) :
    halfDirty d k = if k < 4 then TAG_FIRST_HALF_DIRTY else TAG_LAST_HALF_DIRTY := by
  rw [halfDirty, hw]

/-- The words that a stretch of a line writes. -/
theorem storeWords_word (hp : l.pa = d.vaCacheAlign l.tag) (ram : Ram) (first nw : Nat)
    (hn : first + nw ≤ 8) (i : BitVec 30) :
    (l.storeWords ram first nw).word i =
      if d.vaCacheAlign (Ram.addr i) = d.vaCacheAlign l.tag ∧ first ≤ i.toNat % 8 ∧
          i.toNat % 8 < first + nw then l.data (i.toNat % 8)
      else ram.word i := by
  induction nw with
  | zero =>
    rw [if_neg (by omega)]
    rfl
  | succ nw ih =>
    have hk : first + nw < 8 := by omega
    have hs : l.storeWords ram first (nw + 1) =
        (l.storeWords ram first nw).busWrite .word
          (l.pa + BitVec.ofNat 32 (4 * (first + nw))) (l.data (first + nw)) := by
      simp only [storeWords, List.range_succ, List.foldl_append, List.foldl_cons, List.foldl_nil]
    rw [hs, Ram.busWrite_word, Function.update_apply, ih (by omega), hp]
    simp only [CacheDesc.index_line hw hk]
    by_cases ha : d.vaCacheAlign (Ram.addr i) = d.vaCacheAlign l.tag
    · by_cases hi : i.toNat % 8 = first + nw
      · simp [ha, hi]
      · have hlt : i.toNat % 8 < first + nw ↔ i.toNat % 8 < first + (nw + 1) := by omega
        simp only [ha, hi, true_and, and_false, if_false, hlt]
    · simp [ha]

theorem writeBack_eq (hv : l.valid = true) (hp : l.pa = d.vaCacheAlign l.tag) (ram : Ram) :
    (l.writeBack d ram).1 =
        { l with tag := l.tag &&& ~~~(TAG_FIRST_HALF_DIRTY ||| TAG_LAST_HALF_DIRTY) } ∧
      (l.writeBack d ram).2.bigEndian = ram.bigEndian ∧
      ∀ i, (l.writeBack d ram).2.word i =
        if d.vaCacheAlign (Ram.addr i) = d.vaCacheAlign l.tag ∧ l.dirty d (i.toNat % 8) = true then
          l.data (i.toNat % 8)
        else ram.word i := by
  have hwords : d.words = 8 := by rw [CacheDesc.words, hw]
  have hd (k : Nat) : l.dirty d k = if k < 4 then l.tag &&& TAG_FIRST_HALF_DIRTY != 0
      else l.tag &&& TAG_LAST_HALF_DIRTY != 0 := by
    rw [dirty, halfDirty_eq hw]
    split <;> rfl
  simp only [writeBack, hv, if_true, hwords, hd]
  have hk (i : BitVec 30) : i.toNat % 8 < 8 := Nat.mod_lt _ (by omega)
  cases h1 : l.tag &&& TAG_FIRST_HALF_DIRTY != 0 <;> cases h2 : l.tag &&& TAG_LAST_HALF_DIRTY != 0
  · have ht : l.tag &&& ~~~(TAG_FIRST_HALF_DIRTY ||| TAG_LAST_HALF_DIRTY) = l.tag := by
      apply Word.and_not_eq_self
      rw [BitVec.and_or_distrib_left, bne_eq_false_iff_eq.mp h1, bne_eq_false_iff_eq.mp h2]
      rfl
    rw [ht]
    refine ⟨rfl, rfl, fun i => ?_⟩
    rw [if_neg (by split <;> simp)]
  · refine ⟨rfl, storeWords_bigEndian .., fun i => ?_⟩
    have hi : 4 ≤ i.toNat % 8 ↔ ¬ i.toNat % 8 < 4 := by omega
    rw [storeWords_word hw hp _ _ _ (by omega)]
    by_cases h4 : i.toNat % 8 < 4 <;> simp [h4, hi, hk i]
  · refine ⟨rfl, storeWords_bigEndian .., fun i => ?_⟩
    rw [storeWords_word hw hp _ _ _ (by omega)]
    by_cases h4 : i.toNat % 8 < 4 <;> simp [h4]
  · refine ⟨rfl, storeWords_bigEndian .., fun i => ?_⟩
    rw [storeWords_word hw hp _ _ _ (by omega)]
    by_cases h4 : i.toNat % 8 < 4 <;> simp [h4, hk i]

/-- Bits below a line's alignment do not matter for what it hits. -/
theorem vaCacheAlign_and_clean (tag : ARMword) :
    d.vaCacheAlign (tag &&& ~~~(TAG_FIRST_HALF_DIRTY ||| TAG_LAST_HALF_DIRTY)) =
      d.vaCacheAlign tag := by
  rw [CacheDesc.vaCacheAlign_eq hw, CacheDesc.vaCacheAlign_eq hw, BitVec.and_assoc]
  rfl

theorem vaCacheAlign_or_halfDirty (tag : ARMword) (k : Nat) :
    d.vaCacheAlign (tag ||| halfDirty d k) = d.vaCacheAlign tag := by
  have hh : halfDirty d k &&& 0xFFFFFFE0 = 0#32 := by
    rw [halfDirty_eq hw]
    split <;> rfl
  rw [CacheDesc.vaCacheAlign_eq hw, CacheDesc.vaCacheAlign_eq hw, BitVec.and_or_distrib_right, hh,
    BitVec.or_zero]

omit hw

theorem valid_and_clean (tag pa : ARMword) (data : Nat → ARMword) :
    (CacheLine.mk (tag &&& ~~~(TAG_FIRST_HALF_DIRTY ||| TAG_LAST_HALF_DIRTY)) pa data).valid =
      (CacheLine.mk tag pa data).valid := by
  simp only [valid, BitVec.and_assoc]
  rfl

theorem dirty_and_clean (tag pa : ARMword) (data : Nat → ARMword) (k : Nat) :
    (CacheLine.mk (tag &&& ~~~(TAG_FIRST_HALF_DIRTY ||| TAG_LAST_HALF_DIRTY)) pa data).dirty d k =
      false := by
  simp only [dirty, halfDirty, BitVec.and_assoc]
  split
  · exact bne_eq_false_iff_eq.mpr BitVec.and_zero
  · exact bne_eq_false_iff_eq.mpr BitVec.and_zero

theorem valid_or_halfDirty (tag pa : ARMword) (data : Nat → ARMword) (k : Nat) :
    (CacheLine.mk (tag ||| halfDirty d k) pa data).valid = (CacheLine.mk tag pa data).valid := by
  have hf : halfDirty d k &&& TAG_VALID_FLAG = 0#32 := by
    rw [halfDirty]
    split <;> rfl
  simp only [valid, BitVec.and_or_distrib_right, hf, BitVec.or_zero]

/-- Making a half dirty leaves the other half as it is. -/
theorem dirty_or_halfDirty (tag pa : ARMword) (data data' : Nat → ARMword) (k k' : Nat) :
    (CacheLine.mk (tag ||| halfDirty d k) pa data).dirty d k' =
      (decide (halfDirty d k' = halfDirty d k) || (CacheLine.mk tag pa data').dirty d k') := by
  by_cases hk : halfDirty d k' = halfDirty d k
  · have hne : halfDirty d k ≠ 0 := by
      rw [halfDirty]
      split <;> decide
    simp only [dirty, hk, Word.or_and_right, decide_true, Bool.true_or]
    exact bne_iff_ne.mpr hne
  · have hz : halfDirty d k &&& halfDirty d k' = 0#32 := by
      revert hk
      unfold halfDirty
      split <;> split <;> decide
    simp [dirty, hk, BitVec.and_or_distrib_right, hz]

include hw

/-- What writing a line back does: the line keeps its words and is clean, and memory has them. -/
theorem writeBack_spec (hp : l.valid = true → l.pa = d.vaCacheAlign l.tag) (ram : Ram) :
    ((l.writeBack d ram).1.valid = l.valid ∧
      d.vaCacheAlign (l.writeBack d ram).1.tag = d.vaCacheAlign l.tag ∧
      (l.writeBack d ram).1.pa = l.pa) ∧
    (l.writeBack d ram).2.bigEndian = ram.bigEndian ∧
    (∀ i, l.hit d (Ram.addr i) = true →
      (l.writeBack d ram).1.word d i = (l.data (i.toNat % 8), false) ∧
      (l.writeBack d ram).2.word i =
        if l.dirty d (i.toNat % 8) then l.data (i.toNat % 8) else ram.word i) ∧
    (∀ i, l.hit d (Ram.addr i) = false → (l.writeBack d ram).2.word i = ram.word i) := by
  cases hv : l.valid with
  | false =>
    have he : l.writeBack d ram = (l, ram) := by
      rw [writeBack, hv]
      rfl
    rw [he]
    refine ⟨⟨hv, rfl, rfl⟩, rfl, fun i hh => ?_, fun _ _ => rfl⟩
    rw [hit, hv] at hh
    cases hh
  | true =>
    obtain ⟨hl, hb, hword⟩ := writeBack_eq hw hv (hp hv) ram
    rw [hl]
    refine ⟨⟨?_, vaCacheAlign_and_clean hw _, rfl⟩, hb, fun i hh => ⟨?_, ?_⟩, fun i hh => ?_⟩
    · rw [valid_and_clean]
      exact hv
    · rw [word, dirty_and_clean]
    · simp only [hword, (hit_iff.mp hh).2, true_and]
    · rw [hword, if_neg]
      rintro ⟨ha, -⟩
      rw [hit_iff.mpr ⟨hv, ha⟩] at hh
      cases hh

theorem hit_update (hv : l.valid = true) (bigend : Bool) (datatype : DataType)
    (va realVa data va' : ARMword) :
    (l.update d bigend datatype va realVa data).hit d va' = l.hit d va' := by
  have hlv : (l.update d bigend datatype va realVa data).valid = true :=
    (valid_or_halfDirty _ _ _ _).trans hv
  rw [hit, hit, hlv, hv, update]
  exact congrArg _ (congrArg _ (vaCacheAlign_or_halfDirty hw _ _))

theorem word_update (bigend : Bool) (datatype : DataType) (va realVa data : ARMword)
    (i : BitVec 30) :
    (l.update d bigend datatype va realVa data).word d i =
      (Function.update l.data ((Ram.index va).toNat % 8)
          (writeLane bigend datatype realVa data (l.data ((Ram.index va).toNat % 8)))
          (i.toNat % 8),
        decide (halfDirty d (i.toNat % 8) = halfDirty d ((Ram.index va).toNat % 8)) ||
          l.dirty d (i.toNat % 8)) := by
  rw [← CacheDesc.vaCacheIndex_eq_index hw va]
  exact congrArg (Prod.mk _) (dirty_or_halfDirty _ _ _ _ _ _)

/-- The words of a line have different places in it. -/
theorem ne_of_hit {va : ARMword} {i : BitVec 30} (hva : l.hit d va = true)
    (hi : l.hit d (Ram.addr i) = true) (hne : i ≠ Ram.index va) :
    i.toNat % 8 ≠ (Ram.index va).toNat % 8 := by
  have ha := (hit_iff.mp hi).2.trans (hit_iff.mp hva).2.symm
  rw [CacheDesc.vaCacheAlign_eq_iff hw, Ram.toNat_addr] at ha
  intro he
  rw [Ram.toNat_index] at he
  apply hne
  apply BitVec.eq_of_toNat_eq
  rw [Ram.toNat_index]
  omega

end CacheLine

/-! ## Copies -/

namespace Cache

variable {d : CacheDesc} {c : Cache d}

/-- Every valid line is in the set of its tag, at its own address, and alone with its tag. -/
structure Ok (c : Cache d) : Prop where
  home : ∀ s w, (c.line s w).valid = true → d.vaCacheSet (c.line s w).tag = s
  pa : ∀ s w, (c.line s w).valid = true → (c.line s w).pa = d.vaCacheAlign (c.line s w).tag
  unique : ∀ s w w', (c.line s w).valid = true → (c.line s w').valid = true →
    d.vaCacheAlign (c.line s w).tag = d.vaCacheAlign (c.line s w').tag → w = w'

/-- The copy of a word that a search finds. -/
def copy (c : Cache d) (i : BitVec 30) : Copy ARMword :=
  (c.searchLine (Ram.addr i)).map fun l => l.word d i

theorem line_setLine (s s' : Fin d.set) (w w' : Fin d.way) (l : CacheLine) :
    (c.setLine s w l).line s' w' = if s' = s ∧ w' = w then l else c.line s' w' := by
  unfold setLine line
  by_cases hs : s' = s
  · subst hs
    by_cases hw : w' = w
    · subst hw
      simp
    · simp [hw]
  · simp [hs]

variable (hw : d.width = 32)

include hw

theorem Ok.home_of_hit (h : c.Ok) {s : Fin d.set} {w : Fin d.way} {va : ARMword}
    (hh : (c.line s w).hit d va = true) : d.vaCacheSet va = s := by
  obtain ⟨hv, ha⟩ := CacheLine.hit_iff.mp hh
  rw [CacheDesc.vaCacheSet_congr hw ha]
  exact h.home s w hv

theorem Ok.searchLine_of_hit (h : c.Ok) {s : Fin d.set} {w : Fin d.way} {va : ARMword}
    (hh : (c.line s w).hit d va = true) : c.search va = some w ∧ c.searchLine va = some (c.line s w) := by
  have hs := h.home_of_hit hw hh
  subst hs
  have hsome : c.search va = some w := by
    cases hc : c.search va with
    | none =>
      have hn := search_eq_none.mp hc w
      rw [hh] at hn
      cases hn
    | some w' =>
      obtain ⟨hv, ha⟩ := CacheLine.hit_iff.mp hh
      obtain ⟨hv', ha'⟩ := CacheLine.hit_iff.mp (hit_of_search hc)
      rw [h.unique _ w w' hv hv' (ha.symm.trans ha')]
  exact ⟨hsome, by rw [searchLine, hsome]; rfl⟩

theorem Ok.copy_of_hit (h : c.Ok) {s : Fin d.set} {w : Fin d.way} {i : BitVec 30}
    (hh : (c.line s w).hit d (Ram.addr i) = true) : c.copy i = some ((c.line s w).word d i) := by
  rw [copy, (h.searchLine_of_hit hw hh).2]
  rfl

omit hw

theorem copy_eq_none_of_not_hit {i : BitVec 30}
    (hn : ∀ s w, (c.line s w).hit d (Ram.addr i) = false) : c.copy i = none := by
  rw [copy, searchLine, search_eq_none.mpr (hn _)]
  rfl

theorem exists_hit_of_copy {i : BitVec 30} (hc : c.copy i ≠ none) :
    ∃ s w, (c.line s w).hit d (Ram.addr i) = true := by
  by_contra hn
  exact hc (copy_eq_none_of_not_hit fun s w => by
    cases hh : (c.line s w).hit d (Ram.addr i) with
    | false => rfl
    | true => exact absurd ⟨s, w, hh⟩ hn)

include hw

theorem copy_setLine (h : c.Ok) {s : Fin d.set} {w : Fin d.way} {l : CacheLine}
    (h' : (c.setLine s w l).Ok) (i : BitVec 30) :
    (c.setLine s w l).copy i =
      if l.hit d (Ram.addr i) then some (l.word d i)
      else if (c.line s w).hit d (Ram.addr i) then none
      else c.copy i := by
  have hl : (c.setLine s w l).line s w = l := by rw [line_setLine, if_pos ⟨rfl, rfl⟩]
  split
  · rename_i hh
    have := h'.copy_of_hit hw (s := s) (w := w) (i := i) (by rw [hl]; exact hh)
    rwa [hl] at this
  · rename_i hh
    split
    · rename_i ho
      apply copy_eq_none_of_not_hit
      intro s' w'
      rw [line_setLine]
      split
      · exact Bool.not_eq_true _ ▸ hh
      · rename_i hne
        cases hh' : (c.line s' w').hit d (Ram.addr i) with
        | false => rfl
        | true =>
          have hs := (h.home_of_hit hw hh').symm.trans (h.home_of_hit hw ho)
          subst hs
          obtain ⟨hv, ha⟩ := CacheLine.hit_iff.mp ho
          obtain ⟨hv', ha'⟩ := CacheLine.hit_iff.mp hh'
          exact absurd ⟨rfl, h.unique _ w' w hv' hv (ha'.symm.trans ha)⟩ hne
    · rename_i ho
      cases hc : c.copy i with
      | none =>
        apply copy_eq_none_of_not_hit
        intro s' w'
        rw [line_setLine]
        split
        · exact Bool.not_eq_true _ ▸ hh
        · cases hh' : (c.line s' w').hit d (Ram.addr i) with
          | false => rfl
          | true =>
            rw [h.copy_of_hit hw hh'] at hc
            cases hc
      | some x =>
        obtain ⟨s', w', hh'⟩ := exists_hit_of_copy (c := c) (i := i) (by rw [hc]; simp)
        have hne : ¬ (s' = s ∧ w' = w) := by
          rintro ⟨rfl, rfl⟩
          exact ho hh'
        have hl' : (c.setLine s w l).line s' w' = c.line s' w' := by
          rw [line_setLine, if_neg hne]
        have hx := h'.copy_of_hit hw (s := s') (w := w') (i := i) (by rw [hl']; exact hh')
        rw [hx, hl', ← h.copy_of_hit hw hh', hc]

/-- A line may be replaced by one of its own address, or by an invalid one. -/
theorem Ok.setLine (h : c.Ok) {s : Fin d.set} {w : Fin d.way} {l : CacheLine}
    (hl : l.valid = true → (c.line s w).valid = true ∧
      d.vaCacheAlign l.tag = d.vaCacheAlign (c.line s w).tag ∧ l.pa = (c.line s w).pa) :
    (c.setLine s w l).Ok where
  home s' w' := by
    rw [line_setLine]
    split
    · rename_i he
      intro hv
      obtain ⟨hv', ha, -⟩ := hl hv
      rw [CacheDesc.vaCacheSet_congr hw ha, h.home s w hv', he.1]
    · exact h.home s' w'
  pa s' w' := by
    rw [line_setLine]
    split
    · intro hv
      obtain ⟨hv', ha, hp⟩ := hl hv
      rw [hp, ha, h.pa s w hv']
    · exact h.pa s' w'
  unique s' w' w'' := by
    rw [line_setLine, line_setLine]
    split
    · rename_i he
      obtain ⟨rfl, rfl⟩ := he
      split
      · rename_i he'
        exact fun _ _ _ => he'.2.symm
      · intro hv hv'' ha
        obtain ⟨hv', ha', -⟩ := hl hv
        exact h.unique _ _ _ hv' hv'' (ha' ▸ ha)
    · split
      · rename_i he'
        obtain ⟨rfl, rfl⟩ := he'
        intro hv'' hv ha
        obtain ⟨hv', ha', -⟩ := hl hv
        exact h.unique _ _ _ hv'' hv' (ha' ▸ ha)
      · exact h.unique s' w' w''

omit hw

/-- What an operation on the cache and the memory behind it does, word by word. Only words in
`new` may get a copy. -/
structure Moves (new : BitVec 30 → Prop) (c : Cache d) (ram : Ram) (cr : Cache d × Ram) : Prop where
  ok : cr.1.Ok
  bigEndian : cr.2.bigEndian = ram.bigEndian
  move : ∀ i, Move (c.copy i) (ram.word i) (cr.1.copy i) (cr.2.word i)
  new : ∀ i, cr.1.copy i ≠ none → c.copy i ≠ none ∨ new i

include hw

theorem Moves.setLine (h : c.Ok) {s : Fin d.set} {w : Fin d.way} {l : CacheLine} {ram ram' : Ram}
    (hl : l.valid = true → (c.line s w).valid = true ∧
      d.vaCacheAlign l.tag = d.vaCacheAlign (c.line s w).tag ∧ l.pa = (c.line s w).pa)
    (hb : ram'.bigEndian = ram.bigEndian)
    (hin : ∀ i, (c.line s w).hit d (Ram.addr i) = true →
      Move (some ((c.line s w).word d i)) (ram.word i)
        (if l.valid then some (l.word d i) else none) (ram'.word i))
    (hout : ∀ i, (c.line s w).hit d (Ram.addr i) = false → ram'.word i = ram.word i) :
    Moves (fun _ => False) c ram (c.setLine s w l, ram') := by
  have hok := h.setLine hw hl
  have hcopy (i : BitVec 30) : (c.setLine s w l).copy i =
      if (c.line s w).hit d (Ram.addr i) then if l.valid then some (l.word d i) else none
      else c.copy i := by
    rw [copy_setLine hw h hok i]
    cases hv : l.valid with
    | false => simp [CacheLine.hit, hv]
    | true =>
      obtain ⟨hv', ha, -⟩ := hl hv
      simp only [CacheLine.hit, hv, hv', ha, if_true]
      split <;> rfl
  refine ⟨hok, hb, fun i => ?_, fun i => ?_⟩
  · rw [hcopy]
    cases hh : (c.line s w).hit d (Ram.addr i) with
    | true =>
      rw [h.copy_of_hit hw hh]
      exact hin i hh
    | false =>
      rw [hout i hh]
      exact .stay _ _
  · rw [hcopy]
    cases hh : (c.line s w).hit d (Ram.addr i) with
    | true =>
      rw [h.copy_of_hit hw hh]
      exact fun _ => .inl (by simp)
    | false => exact .inl

/-! ## Operations -/

omit hw in
theorem onLine_eq (s : Fin d.set) (w : Fin d.way) (ram : Ram)
    (f : CacheLine → Ram → CacheLine × Ram) :
    c.onLine s w ram f = (c.setLine s w (f (c.line s w) ram).1, (f (c.line s w) ram).2) := rfl

theorem moves_writeBack (h : c.Ok) (s : Fin d.set) (w : Fin d.way) (ram : Ram) :
    Moves (fun _ => False) c ram (c.onLine s w ram (·.writeBack d)) := by
  obtain ⟨⟨hv, ha, hp⟩, hb, hin, hout⟩ := CacheLine.writeBack_spec hw (h.pa s w) ram
  rw [onLine_eq]
  refine Moves.setLine hw h (fun hl => ⟨hv ▸ hl, ha, hp⟩) hb (fun i hh => ?_) hout
  obtain ⟨hx, hm⟩ := hin i hh
  rw [hx, hm, hv, (CacheLine.hit_iff.mp hh).1, if_pos rfl]
  exact .cleanIf _ _ _

theorem moves_invalidate (h : c.Ok) (s : Fin d.set) (w : Fin d.way) (ram : Ram) :
    Moves (fun _ => False) c ram (c.onLine s w ram (·.invalidate d)) := by
  obtain ⟨-, hb, hin, hout⟩ := CacheLine.writeBack_spec hw (h.pa s w) ram
  have hv : ((c.line s w).invalidate d ram).1.valid = false := by
    simp [CacheLine.invalidate, CacheLine.valid]
  rw [onLine_eq]
  refine Moves.setLine hw h (fun hl => ?_) hb (fun i hh => ?_) hout
  · rw [hv] at hl
    cases hl
  · rw [hv]
    exact (hin i hh).2 ▸ .evictIf _ _ _

/-! ## Maintenance -/

omit hw

/-- Steps that only clean and drop copies. -/
abbrev MovesTo : Cache d × Ram → Cache d × Ram → Prop :=
  Relation.ReflTransGen fun a b => Moves (fun _ => False) a.1 a.2 b

/-- A line operation that only cleans or drops. -/
def LineOp (d : CacheDesc) (f : CacheLine → Ram → CacheLine × Ram) : Prop :=
  ∀ ⦃c : Cache d⦄, c.Ok → ∀ s w ram, Moves (fun _ => False) c ram (c.onLine s w ram f)

variable {f : CacheLine → Ram → CacheLine × Ram}

theorem LineOp.onLine (hf : LineOp d f) (h : c.Ok) (s : Fin d.set) (w : Fin d.way) (ram : Ram) :
    MovesTo (c, ram) (c.onLine s w ram f) := .single (hf h s w ram)

theorem LineOp.onSearch (hf : LineOp d f) (h : c.Ok) (va : ARMword) (ram : Ram) :
    MovesTo (c, ram) (c.onSearch va ram f) := by
  unfold Cache.onSearch
  split
  · exact hf.onLine h _ _ ram
  · exact .refl

theorem LineOp.onIndex (hf : LineOp d f) (h : c.Ok) (index : ARMword) (ram : Ram) :
    MovesTo (c, ram) (c.onIndex index ram f) := by
  unfold Cache.onIndex
  split
  · exact hf.onLine h _ _ ram
  · exact .refl

theorem MovesTo.ok {a b : Cache d × Ram} (hm : MovesTo a b) (h : a.1.Ok) : b.1.Ok := by
  induction hm with
  | refl => exact h
  | tail _ hs _ => exact hs.ok

/-- Going through lines one after the other. -/
theorem movesTo_foldl {ι : Type} (step : Cache d × Ram → ι → Cache d × Ram)
    (hstep : ∀ a x, a.1.Ok → MovesTo a (step a x)) (xs : List ι) (a : Cache d × Ram) (h : a.1.Ok) :
    MovesTo a (xs.foldl step a) := by
  induction xs generalizing a with
  | nil => exact .refl
  | cons x xs ih =>
    have hx := hstep a x h
    exact hx.trans (ih _ (hx.ok h))

include hw

theorem lineOp_writeBack : LineOp d (·.writeBack d) := fun _ => moves_writeBack hw

theorem lineOp_invalidate : LineOp d (·.invalidate d) := fun _ => moves_invalidate hw

theorem movesTo_invalidateAll (h : c.Ok) (ram : Ram) : MovesTo (c, ram) (c.invalidateAll ram) :=
  movesTo_foldl _ (fun _ s ha => movesTo_foldl _
    (fun a w ha => (lineOp_invalidate hw).onLine ha s w a.2) _ _ ha) _ _ h

theorem movesTo_softFlush (h : c.Ok) (pa : ARMword) (ram : Ram) :
    MovesTo (c, ram) (c.softFlush pa ram) := by
  simp only [softFlush]
  split
  · exact (lineOp_invalidate hw).onLine h _ _ ram
  · exact .refl

/-! ## Filling a line -/

omit hw

theorem Ok.congr {c' : Cache d} (h : c.Ok) (hl : ∀ s w, c'.line s w = c.line s w) : c'.Ok where
  home s w := by rw [hl]; exact h.home s w
  pa s w := by rw [hl]; exact h.pa s w
  unique s w w' := by rw [hl, hl]; exact h.unique s w w'

theorem search_congr {c' : Cache d} (hl : ∀ s w, c'.line s w = c.line s w) (va : ARMword) :
    c'.search va = c.search va := by
  simp only [search, hl]

theorem copy_congr {c' : Cache d} (hl : ∀ s w, c'.line s w = c.line s w) (i : BitVec 30) :
    c'.copy i = c.copy i := by
  have hf : c'.line (d.vaCacheSet (Ram.addr i)) = c.line (d.vaCacheSet (Ram.addr i)) :=
    funext fun w => hl _ w
  rw [copy, copy, searchLine, searchLine, search_congr hl, hf]

/-- The cache after the cycle of a set has moved on. -/
def advance (c : Cache d) (s : Fin d.set) : Cache d :=
  ⟨Function.update c.sets s { c.sets s with cycle := nextCycle (c.sets s).cycle }⟩

theorem line_advance (s s' : Fin d.set) (w : Fin d.way) :
    (c.advance s).line s' w = c.line s' w := by
  unfold advance line
  by_cases h : s' = s
  · subst h
    simp
  · simp [h]

/-- The line that is filled for `va` from memory at `pa`. -/
def filled (d : CacheDesc) (old : CacheLine) (va pa : ARMword) (ram : Ram) : CacheLine where
  tag := d.vaCacheAlign va ||| TAG_VALID_FLAG
  pa := d.vaCacheAlign pa
  data i :=
    if i < d.words then ram.busRead .word (d.vaCacheAlign pa + BitVec.ofNat 32 (4 * i))
    else old.data i

theorem alloc_eq (hm : d.wMode = .writeBack) {s : Fin d.set} {va : ARMword}
    (hs : d.vaCacheSet (d.vaCacheAlign va) = s) (pa : ARMword) (ram : Ram) :
    ∃ w, c.alloc va pa ram =
      ((c.advance s).setLine s w (filled d ((c.line s w).writeBack d ram).1 va pa
        ((c.line s w).writeBack d ram).2), ((c.line s w).writeBack d ram).2, w) := by
  subst hs
  refine ⟨(c.sets (d.vaCacheSet (d.vaCacheAlign va))).cycle, ?_⟩
  rw [← line_advance (d.vaCacheSet (d.vaCacheAlign va))]
  simp only [alloc, hm]
  rfl

include hw

theorem vaCacheAlign_idem (va : ARMword) : d.vaCacheAlign (d.vaCacheAlign va) = d.vaCacheAlign va := by
  rw [CacheDesc.vaCacheAlign_eq_iff hw, CacheDesc.toNat_vaCacheAlign hw]
  omega

theorem vaCacheAlign_filled (old : CacheLine) (va pa : ARMword) (ram : Ram) :
    d.vaCacheAlign (filled d old va pa ram).tag = d.vaCacheAlign va := by
  refine CacheDesc.vaCacheAlign_tag ?_ va
  rw [hw]
  rfl

theorem hit_filled (old : CacheLine) (va pa va' : ARMword) (ram : Ram) :
    (filled d old va pa ram).hit d va' = true ↔ d.vaCacheAlign va' = d.vaCacheAlign va := by
  rw [CacheLine.hit_iff, vaCacheAlign_filled hw]
  exact and_iff_right (CacheLine.valid_of_tag rfl)

theorem dirty_filled (old : CacheLine) (va pa : ARMword) (ram : Ram) (k : Nat) :
    (filled d old va pa ram).dirty d k = false := by
  simp only [CacheLine.dirty, filled, CacheLine.halfDirty_eq hw, CacheDesc.vaCacheAlign_eq hw,
    BitVec.and_or_distrib_right, BitVec.and_assoc]
  split
  · exact bne_eq_false_iff_eq.mpr ((congrArg (· ||| _) BitVec.and_zero).trans rfl)
  · exact bne_eq_false_iff_eq.mpr ((congrArg (· ||| _) BitVec.and_zero).trans rfl)

theorem word_filled (old : CacheLine) {va pa : ARMword} {ram : Ram}
    (hp : d.vaCacheAlign pa = d.vaCacheAlign va) {i : BitVec 30}
    (hi : d.vaCacheAlign (Ram.addr i) = d.vaCacheAlign va) :
    (filled d old va pa ram).word d i = (ram.word i, false) := by
  have hk : i.toNat % 8 < 8 := Nat.mod_lt _ (by omega)
  have hwords : d.words = 8 := by rw [CacheDesc.words, hw]
  have hx : i = Ram.index (d.vaCacheAlign va + BitVec.ofNat 32 (4 * (i.toNat % 8))) :=
    (CacheDesc.index_line hw hk i).mpr ⟨hi, rfl⟩
  rw [CacheLine.word, dirty_filled hw]
  simp only [filled, hwords, hk, if_true, hp, Ram.busRead, readLane_word, ← hx]

omit hw in
theorem hit_congr {l : CacheLine} {va va' : ARMword} (h : d.vaCacheAlign va' = d.vaCacheAlign va) :
    l.hit d va' = l.hit d va := by
  rw [CacheLine.hit, CacheLine.hit, h]

/-- A missed line may take any place of its set. -/
theorem Ok.setLine_filled (h : c.Ok) {va pa : ARMword} (hp : d.vaCacheAlign pa = d.vaCacheAlign va)
    (hmiss : c.search va = none) (w : Fin d.way) (old : CacheLine) (ram : Ram) :
    (c.setLine (d.vaCacheSet va) w (filled d old va pa ram)).Ok := by
  have ht := vaCacheAlign_filled hw old va pa ram
  have hno (w' : Fin d.way) (hv : (c.line (d.vaCacheSet va) w').valid = true) :
      d.vaCacheAlign (c.line (d.vaCacheSet va) w').tag ≠ d.vaCacheAlign va := by
    intro ha
    have hh := search_eq_none.mp hmiss w'
    rw [CacheLine.hit_iff.mpr ⟨hv, ha.symm⟩] at hh
    cases hh
  constructor
  · intro s' w'
    rw [line_setLine]
    split
    · rename_i he
      intro _
      rw [he.1, CacheDesc.vaCacheSet_congr hw ht]
    · exact h.home s' w'
  · intro s' w'
    rw [line_setLine]
    split
    · intro _
      rw [ht, ← hp]
      rfl
    · exact h.pa s' w'
  · intro s' w' w''
    rw [line_setLine, line_setLine]
    split
    · rename_i he
      obtain ⟨rfl, rfl⟩ := he
      split
      · rename_i he'
        exact fun _ _ _ => he'.2.symm
      · intro _ hv ha
        exact absurd (ha.symm.trans ht) (hno w'' hv)
    · split
      · rename_i he'
        obtain ⟨rfl, rfl⟩ := he'
        intro hv _ ha
        exact absurd (ha.trans ht) (hno w' hv)
      · exact h.unique s' w' w''

theorem moves_alloc (hm : d.wMode = .writeBack) (h : c.Ok) {va pa : ARMword}
    (hp : d.vaCacheAlign pa = d.vaCacheAlign va) (hmiss : c.search va = none) (ram : Ram) :
    let a := c.alloc va pa ram
    Moves (fun i => d.vaCacheAlign (Ram.addr i) = d.vaCacheAlign va) c ram (a.1, a.2.1) ∧
      ∀ i, d.vaCacheAlign (Ram.addr i) = d.vaCacheAlign va →
        (a.1.line (d.vaCacheSet (d.vaCacheAlign va)) a.2.2).word d i = (ram.word i, false) := by
  have hs : d.vaCacheSet (d.vaCacheAlign va) = d.vaCacheSet va :=
    CacheDesc.vaCacheSet_congr hw (vaCacheAlign_idem hw va)
  have hno (i : BitVec 30) (hi : d.vaCacheAlign (Ram.addr i) = d.vaCacheAlign va) (w : Fin d.way) :
      (c.line (d.vaCacheSet va) w).hit d (Ram.addr i) = false := by
    rw [hit_congr hi]
    exact search_eq_none.mp hmiss w
  obtain ⟨w, ha⟩ := alloc_eq (c := c) hm hs pa ram
  rw [hs, ha]
  obtain ⟨-, hb, hin, hout⟩ :=
    CacheLine.writeBack_spec hw (h.pa (d.vaCacheSet va) w) ram
  generalize (c.line (d.vaCacheSet va) w).writeBack d ram = old at hb hin hout
  have hl := fun s' w' => line_advance (c := c) (d.vaCacheSet va) s' w'
  have h' := h.congr hl
  have hok := h'.setLine_filled hw hp (w := w) ((search_congr hl va).trans hmiss) old.1 old.2
  have hcopy (i : BitVec 30) := copy_setLine hw h' hok i
  simp only [hl, copy_congr hl] at hcopy
  refine ⟨⟨hok, hb, fun i => ?_, fun i => ?_⟩, fun i hi => ?_⟩
  · rw [hcopy]
    by_cases hi : d.vaCacheAlign (Ram.addr i) = d.vaCacheAlign va
    · have hc : c.copy i = none := by
        rw [copy, searchLine, search_eq_none.mpr fun w' => ?_]
        · rfl
        · rw [CacheDesc.vaCacheSet_congr hw hi]
          exact hno i hi w'
      rw [if_pos ((hit_filled hw _ va pa _ _).mpr hi), word_filled hw _ hp hi, hc,
        hout i (hno i hi w)]
      exact .fill _
    · rw [if_neg (mt (hit_filled hw _ va pa _ _).mp hi)]
      cases hh : (c.line (d.vaCacheSet va) w).hit d (Ram.addr i) with
      | true =>
        rw [if_pos rfl, h.copy_of_hit hw hh, (hin i hh).2]
        exact .evictIf _ _ _
      | false =>
        rw [hout i hh]
        exact .stay _ _
  · rw [hcopy]
    by_cases hi : d.vaCacheAlign (Ram.addr i) = d.vaCacheAlign va
    · exact fun _ => .inr hi
    · rw [if_neg (mt (hit_filled hw _ va pa _ _).mp hi)]
      split
      · exact fun hc => absurd rfl hc
      · exact .inl
  · rw [line_setLine, if_pos ⟨rfl, rfl⟩, word_filled hw _ hp hi, hout i (hno i hi w)]

/-! ## Storing into a line -/

/-- A store into a line of the cache makes the word's copy the new value, and dirty. -/
theorem store_hit (h : c.Ok) {va : ARMword} {w : Fin d.way} (hs : c.search va = some w)
    (bigend : Bool) (datatype : DataType) (realVa data : ARMword) :
    let l := (c.line (d.vaCacheSet va) w).update d bigend datatype va realVa data
    let c' := c.setLine (d.vaCacheSet va) w l
    c'.Ok ∧
      (∃ x dirty, c.copy (Ram.index va) = some (x, dirty) ∧
        c'.copy (Ram.index va) = some (writeLane bigend datatype realVa data x, true)) ∧
      (∀ i, i ≠ Ram.index va → ∀ m, Move (c.copy i) m (c'.copy i) m) ∧
      ∀ i, c'.copy i ≠ none → c.copy i ≠ none := by
  intro l c'
  have hhit := hit_of_search hs
  obtain ⟨hv, -⟩ := CacheLine.hit_iff.mp hhit
  have hok : c'.Ok :=
    h.setLine hw fun _ => ⟨hv, CacheLine.vaCacheAlign_or_halfDirty hw _ _, rfl⟩
  have hlh (va' : ARMword) : l.hit d va' = (c.line (d.vaCacheSet va) w).hit d va' :=
    CacheLine.hit_update hw hv ..
  have hcopy (i : BitVec 30) := copy_setLine hw h hok i
  simp only [hlh] at hcopy
  have hword (i : BitVec 30) := CacheLine.word_update (l := c.line (d.vaCacheSet va) w) hw bigend
    datatype va realVa data i
  have hk : (c.line (d.vaCacheSet va) w).hit d (Ram.addr (Ram.index va)) = true :=
    (hit_congr (CacheDesc.vaCacheAlign_addr_index hw va)).trans hhit
  refine ⟨hok, ⟨_, _, h.copy_of_hit hw hk, ?_⟩, fun i hi m => ?_, fun i => ?_⟩
  · rw [hcopy, if_pos hk, hword, Function.update_self, decide_eq_true rfl, Bool.true_or]
  · rw [hcopy]
    cases hh : (c.line (d.vaCacheSet va) w).hit d (Ram.addr i) with
    | false => exact .stay _ _
    | true =>
      rw [if_pos rfl, h.copy_of_hit hw hh, hword,
        Function.update_of_ne (CacheLine.ne_of_hit hw hhit hh hi)]
      cases decide (CacheLine.halfDirty d (i.toNat % 8) =
          CacheLine.halfDirty d ((Ram.index va).toNat % 8)) with
      | false => exact .stay _ _
      | true => exact .soil _ _ _
  · rw [hcopy]
    cases hh : (c.line (d.vaCacheSet va) w).hit d (Ram.addr i) with
    | false => exact id
    | true =>
      rw [h.copy_of_hit hw hh]
      exact fun _ => by simp

/-! ## Caches without dirty lines -/

omit hw

/-- No valid line is dirty. -/
def Clean (c : Cache d) : Prop :=
  ∀ s w, (c.line s w).valid = true → ∀ k, (c.line s w).dirty d k = false

/-- Memory is the same, and every line is as it was or invalid. -/
def Dropped (c : Cache d) (ram : Ram) (cr : Cache d × Ram) : Prop :=
  cr.2 = ram ∧ ∀ s w, cr.1.line s w = c.line s w ∨ (cr.1.line s w).valid = false

theorem Dropped.clean {ram : Ram} {cr : Cache d × Ram} (h : Dropped c ram cr) (hc : c.Clean) :
    cr.1.Clean := by
  intro s w hv
  rcases h.2 s w with hl | hl
  · rw [hl] at hv ⊢
    exact hc s w hv
  · rw [hl] at hv
    cases hv

theorem Dropped.trans {ram : Ram} {cr cr' : Cache d × Ram} (h : Dropped c ram cr)
    (h' : Dropped cr.1 cr.2 cr') : Dropped c ram cr' := by
  refine ⟨h'.1.trans h.1, fun s w => ?_⟩
  rcases h'.2 s w with hl | hl
  · rw [hl]
    exact h.2 s w
  · exact .inr hl

include hw

theorem writeBack_of_not_dirty {l : CacheLine} (hl : l.valid = true → ∀ k, l.dirty d k = false)
    (ram : Ram) : l.writeBack d ram = (l, ram) := by
  rw [CacheLine.writeBack]
  cases hv : l.valid with
  | false => rfl
  | true =>
    have h0 := hl hv 0
    have h4 := hl hv 4
    rw [CacheLine.dirty, CacheLine.halfDirty_eq hw] at h0 h4
    simp only [if_true]
    rw [if_pos (by decide)] at h0
    rw [if_neg (by decide)] at h4
    rw [h0, h4]

theorem Clean.alloc (hm : d.wMode = .writeBack) (hc : c.Clean) (va pa : ARMword) (ram : Ram) :
    (c.alloc va pa ram).1.Clean := by
  have hs : d.vaCacheSet (d.vaCacheAlign va) = d.vaCacheSet (d.vaCacheAlign va) := rfl
  obtain ⟨w, ha⟩ := alloc_eq (c := c) hm hs pa ram
  rw [ha]
  intro s' w'
  rw [line_setLine]
  split
  · exact fun _ => dirty_filled hw _ va pa _
  · rw [line_advance]
    exact hc s' w'

theorem Clean.onLine_invalidate (hc : c.Clean) (s : Fin d.set) (w : Fin d.way) (ram : Ram) :
    Dropped c ram (c.onLine s w ram (·.invalidate d)) := by
  have hi : (c.line s w).invalidate d ram = ({ c.line s w with tag := 0 }, ram) := by
    rw [CacheLine.invalidate, writeBack_of_not_dirty hw (hc s w)]
  rw [onLine_eq, hi]
  refine ⟨rfl, fun s' w' => ?_⟩
  rw [line_setLine]
  split
  · exact .inr (by simp [CacheLine.valid])
  · exact .inl rfl

theorem Clean.invalidate (hc : c.Clean) (va : ARMword) (ram : Ram) :
    Dropped c ram (c.invalidate va ram) := by
  rw [Cache.invalidate, onSearch]
  split
  · exact hc.onLine_invalidate hw _ _ ram
  · exact ⟨rfl, fun _ _ => .inl rfl⟩

theorem Clean.invalidateAll (hc : c.Clean) (ram : Ram) : Dropped c ram (c.invalidateAll ram) := by
  have hline (cr : Cache d × Ram) (h : Dropped c ram cr) (s : Fin d.set) (w : Fin d.way) :
      Dropped c ram (cr.1.onLine s w cr.2 (·.invalidate d)) :=
    h.trans ((h.clean hc).onLine_invalidate hw s w cr.2)
  refine List.foldlRecOn _ _ ⟨rfl, fun _ _ => .inl rfl⟩ fun cr h s _ => ?_
  exact List.foldlRecOn _ _ h fun cr h w _ => hline cr h s w

end Cache

end SkyEye
