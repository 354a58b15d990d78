import SkyEye.Mmu.CacheWords
import SkyEye.Mmu.Wb

/-!
# A cache, a write buffer and memory as one memory

A word may be in a line of the data cache, in the write buffer and in memory. `Layers`
says that together they are a plain memory: the cache is a write-back cache over the
memory that the buffer will leave, and no buffered byte belongs to a cached word. Every
operation of the three keeps this, maintenance with the same plain memory and a store
with that store done to it.
-/

namespace SkyEye

open WriteBack

variable {d : CacheDesc} {e : WbDesc}

/-- The three stores are the plain memory `plain`. Only words in `buffered` are in the buffer,
and memory itself has the plain value of those in `frozen`. -/
structure Layers (buffered frozen : BitVec 30 → Prop) (plain : Ram) (c : Cache d) (wb : Wb e)
    (ram : Ram) : Prop where
  ok : c.Ok
  littleEndian : plain.bigEndian = false ∧ ram.bigEndian = false
  agrees : Agrees c.copy (wb.onto ram).word plain.word
  disjoint : ∀ i, c.copy i ≠ none → ¬ wb.Touches i
  touches : ∀ i, wb.Touches i → buffered i
  frozen : ∀ i, frozen i → ram.word i = plain.word i ∧ ¬ wb.Touches i

namespace Layers

variable {buffered frozen : BitVec 30 → Prop} {plain ram : Ram} {c : Cache d} {wb : Wb e}

/-- An empty cache and an empty buffer. -/
theorem of_empty (hc : ∀ s w, (c.line s w).valid = false) (hwb : wb.entrys.used = 0)
    (hr : ram.bigEndian = false) : Layers buffered frozen ram c wb ram where
  ok := by
    constructor
    · intro s w hv; rw [hc] at hv; cases hv
    · intro s w hv; rw [hc] at hv; cases hv
    · intro s w w' hv; rw [hc] at hv; cases hv
  littleEndian := ⟨hr, hr⟩
  agrees i := by
    have hn : c.copy i = none :=
      Cache.copy_eq_none_of_not_hit fun s w => by rw [CacheLine.hit, hc]; rfl
    rw [hn, Wb.onto_of_unused hwb]
    rfl
  disjoint i _ := Wb.not_touches_of_unused hwb i
  touches i ht := absurd ht (Wb.not_touches_of_unused hwb i)
  frozen i _ := ⟨rfl, Wb.not_touches_of_unused hwb i⟩

/-! ## Reading -/

theorem read_hit (h : Layers buffered frozen plain c wb ram) {i : BitVec 30} {x : ARMword}
    {dirty : Bool} (hc : c.copy i = some (x, dirty)) : x = plain.word i := h.agrees.hit hc

/-- A word that is neither cached nor buffered is read from memory. -/
theorem read_miss (h : Layers buffered frozen plain c wb ram) {i : BitVec 30}
    (hc : c.copy i = none) (ht : ¬ wb.Touches i) : ram.word i = plain.word i :=
  (wb.onto_word_of_not_touches ht).symm.trans (h.agrees.miss hc)

/-! ## Maintenance -/

/-- Cache lines come and go; a new line must not be of buffered words. -/
theorem moves (h : Layers buffered frozen plain c wb ram) {new : BitVec 30 → Prop}
    {cr : Cache d × Ram} (hm : Cache.Moves new c ram cr) (hnew : ∀ i, new i → ¬ wb.Touches i) :
    Layers buffered frozen plain cr.1 wb cr.2 := by
  have hb : cr.2.bigEndian = ram.bigEndian := hm.bigEndian
  have hcopied (i : BitVec 30) (hc : cr.1.copy i ≠ none) : ¬ wb.Touches i :=
    (hm.new i hc).elim (h.disjoint i) (hnew i)
  refine ⟨hm.ok, ⟨h.littleEndian.1, hb.trans h.littleEndian.2⟩, ?_, hcopied, h.touches, ?_⟩
  · refine h.agrees.moves fun i => ?_
    by_cases ht : wb.Touches i
    · -- The word has no copy, before or after, so memory keeps it too.
      have hc : c.copy i = none := by
        by_contra hc
        exact h.disjoint i hc ht
      have hc' : cr.1.copy i = none := by
        by_contra hc'
        exact hcopied i hc' ht
      have hi : cr.2.word i = ram.word i := by
        rcases (hm.move i).mem with hi | ⟨dirty, hd⟩
        · exact hi
        · rw [hc] at hd
          cases hd
      rw [hc, hc', wb.onto_word_congr hb hi]
      exact .stay _ _
    · rw [wb.onto_word_of_not_touches ht, wb.onto_word_of_not_touches ht]
      exact hm.move i
  · intro i hi
    refine ⟨?_, (h.frozen i hi).2⟩
    rcases (hm.move i).mem with hi' | ⟨dirty, hd⟩
    · rw [hi']
      exact (h.frozen i hi).1
    · exact h.read_hit hd

theorem movesTo (h : Layers buffered frozen plain c wb ram) {cr : Cache d × Ram}
    (hm : Cache.MovesTo (c, ram) cr) : Layers buffered frozen plain cr.1 wb cr.2 := by
  induction hm with
  | refl => exact h
  | tail _ hs ih => exact ih.moves hs fun _ => False.elim

theorem drain (h : Layers buffered frozen plain c wb ram) :
    Layers buffered frozen plain c (wb.drainAll ram).1 (wb.drainAll ram).2 := by
  obtain ⟨hm, hu⟩ := wb.drainAll_eq ram
  have ht := Wb.not_touches_of_unused hu
  refine ⟨h.ok, ⟨h.littleEndian.1, ?_⟩, ?_, fun i _ => ht i, fun i hi => absurd hi (ht i), ?_⟩
  · rw [hm, wb.onto_bigEndian]
    exact h.littleEndian.2
  · rw [Wb.onto_of_unused hu, hm]
    exact h.agrees
  · intro i hi
    rw [hm, wb.onto_word_of_not_touches (h.frozen i hi).2]
    exact ⟨(h.frozen i hi).1, ht i⟩

/-! ## Stores -/

/-- A store that the cache takes. `realVa` is an address of the same lane as `a`. -/
theorem store_hit (hw : d.width = 32) (h : Layers buffered frozen plain c wb ram) {va a : ARMword}
    {w : Fin d.way} (hs : c.search va = some w) (hi : Ram.index a = Ram.index va)
    (hf : ¬ frozen (Ram.index a)) (datatype : DataType) {realVa : ARMword} (data : ARMword)
    (hl : laneOffset false datatype realVa = laneOffset false datatype a) :
    Layers buffered frozen (plain.busWrite datatype a data)
      (c.setLine (d.vaCacheSet va) w
        ((c.line (d.vaCacheSet va) w).update d false datatype va realVa data)) wb ram := by
  obtain ⟨hok, ⟨x, dirty, hx, hx'⟩, hmove, hcopied⟩ := Cache.store_hit hw h.ok hs false datatype
    realVa data
  have hlane : writeLane false datatype realVa data x = writeLane false datatype a data x := by
    simp only [writeLane, hl]
  rw [← hi] at hx hx' hmove
  refine ⟨hok, h.littleEndian, ?_, fun i hc => h.disjoint i (hcopied i hc), h.touches, ?_⟩
  · rw [Ram.busWrite_word_eq h.littleEndian.1, ← h.read_hit hx, ← hlane]
    exact h.agrees.store (.inl hx') fun i hi' => hmove i hi' _
  · intro i hfi
    have hne : i ≠ Ram.index a := fun he => hf (he ▸ hfi)
    rw [Ram.busWrite_word_eq h.littleEndian.1, Function.update_of_ne hne]
    exact h.frozen i hfi

/-- A store past the cache into memory, after the buffer is drained. -/
theorem store_direct (h : Layers buffered frozen plain c wb ram) (hu : wb.entrys.used = 0)
    {a : ARMword} (hc : c.copy (Ram.index a) = none) (hf : ¬ frozen (Ram.index a))
    (datatype : DataType) (data : ARMword) :
    Layers buffered frozen (plain.busWrite datatype a data) c wb (ram.busWrite datatype a data) := by
  have ht := Wb.not_touches_of_unused hu
  refine ⟨h.ok, h.littleEndian, ?_, h.disjoint, h.touches, ?_⟩
  · rw [Wb.onto_of_unused hu, Ram.busWrite_word_eq h.littleEndian.1, Ram.busWrite_word_eq h.littleEndian.2,
      h.read_miss hc (ht _)]
    refine (h.agrees.store (.inr ⟨hc, Function.update_self ..⟩) fun i hi => ?_)
    rw [Function.update_of_ne hi, Wb.onto_of_unused hu]
    exact .stay _ _
  · intro i hfi
    have hne : i ≠ Ram.index a := fun he => hf (he ▸ hfi)
    rw [Ram.busWrite_word_eq h.littleEndian.1, Ram.busWrite_word_eq h.littleEndian.2,
      Function.update_of_ne hne, Function.update_of_ne hne]
    exact h.frozen i hfi

/-- A store past the cache into the buffer. -/
theorem store_buffered (h : Layers buffered frozen plain c wb ram) {a : ARMword}
    (hc : c.copy (Ram.index a) = none) (hf : ¬ frozen (Ram.index a)) (hb : buffered (Ram.index a))
    (datatype : DataType) (ha : a.toNat % (datatype.bits / 8) = 0) (data : ARMword) :
    Layers buffered frozen (plain.busWrite datatype a data) c
      (wb.writeBytes ram a (hostBytes datatype data)).1
      (wb.writeBytes ram a (hostBytes datatype data)).2 := by
  have hframe (i : BitVec 30) (hi : i ≠ Ram.index a) :=
    wb.writeBytes_frame ram a (hostBytes datatype data) (i := i) fun hb =>
      hi (Ram.index_of_bytesIn_hostBytes ha hb)
  have hbig : (wb.onto ram).bigEndian = false := (wb.onto_bigEndian ram).trans h.littleEndian.2
  have honto := wb.onto_writeBytes ram a (hostBytes datatype data)
  rw [Ram.busWriteBytes_hostBytes hbig datatype ha] at honto
  refine ⟨h.ok, ⟨h.littleEndian.1, ?_⟩, ?_, ?_, ?_, ?_⟩
  · exact ((Wb.onto_bigEndian _ _).symm.trans (congrArg Ram.bigEndian honto)).trans hbig
  · rw [honto, Ram.busWrite_word_eq h.littleEndian.1, Ram.busWrite_word_eq hbig, h.agrees.miss hc]
    refine h.agrees.store (.inr ⟨hc, Function.update_self ..⟩) fun i hi => ?_
    rw [Function.update_of_ne hi]
    exact .stay _ _
  · intro i hi ht
    have hne : i ≠ Ram.index a := fun he => hi (he ▸ hc)
    exact h.disjoint i hi ((hframe i hne).1 ht)
  · intro i ht
    by_cases hi : i = Ram.index a
    · exact hi ▸ hb
    · exact h.touches i ((hframe i hi).1 ht)
  · intro i hfi
    have hne : i ≠ Ram.index a := fun he => hf (he ▸ hfi)
    obtain ⟨hm, ht⟩ := h.frozen i hfi
    rw [Ram.busWrite_word_eq h.littleEndian.1, Function.update_of_ne hne]
    exact ⟨((hframe i hne).2.1 ht).trans hm, fun ht' => ht ((hframe i hne).1 ht')⟩

end Layers

end SkyEye
