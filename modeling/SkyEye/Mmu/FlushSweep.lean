import Mathlib.Data.List.Nodup
import Mathlib.Data.Nat.ModEq
import SkyEye.Mmu.CacheWords

/-!
# Flushing a cache by software

`mmu_cache_soft_flush` takes the low bits of a line's number for the way and the bits above
them for the set. A sweep over the line addresses of a region of the size of the cache comes
to every place once, if the numbers of ways and sets are powers of two.
-/

namespace SkyEye

/-- Words written to memory one after the other. -/
def Ram.writeWords (ram : Ram) (ws : List (ARMword × ARMword)) : Ram :=
  ws.foldl (fun ram w => ram.busWrite .word w.1 w.2) ram

namespace CacheLine

variable (d : CacheDesc) (l : CacheLine)

/-- `nw` words of the line from word `first` on, with their addresses. -/
def wordsFrom (first nw : Nat) : List (ARMword × ARMword) :=
  (List.range nw).map fun i => (l.pa + BitVec.ofNat 32 (4 * (first + i)), l.data (first + i))

/-- The writes of `mmu_cache_write_back`, in order. -/
def written : List (ARMword × ARMword) :=
  if l.valid then
    match l.tag &&& TAG_FIRST_HALF_DIRTY != 0, l.tag &&& TAG_LAST_HALF_DIRTY != 0 with
    | false, false => []
    | true, false => l.wordsFrom 0 (d.words / 2)
    | false, true => l.wordsFrom (d.words / 2) (d.words / 2)
    | true, true => l.wordsFrom 0 d.words
  else []

/-- The words of the dirty halves of a valid line, with their own addresses. -/
def dirtyStores : List (ARMword × ARMword) :=
  if l.valid then
    ((List.range d.words).filter (l.dirty d)).map fun k =>
      (l.pa + BitVec.ofNat 32 (4 * k), l.data k)
  else []

theorem storeWords_eq_writeWords (ram : Ram) (first nw : Nat) :
    l.storeWords ram first nw = ram.writeWords (l.wordsFrom first nw) := by
  rw [storeWords, Ram.writeWords, wordsFrom, List.foldl_map]

theorem invalidate_snd (ram : Ram) : (l.invalidate d ram).2 = ram.writeWords (l.written d) := by
  unfold invalidate writeBack written
  cases l.valid with
  | false => rfl
  | true =>
    cases l.tag &&& TAG_FIRST_HALF_DIRTY != 0 <;> cases l.tag &&& TAG_LAST_HALF_DIRTY != 0
    · rfl
    all_goals exact storeWords_eq_writeWords ..

theorem invalidate_not_valid (ram : Ram) : (l.invalidate d ram).1.valid = false := by
  simp [invalidate, valid]

/-- A line of an even number of words writes the words of its dirty halves. -/
theorem written_eq_dirtyStores (heven : d.words % 2 = 0) : l.written d = l.dirtyStores d := by
  have hhalf : d.width / 8 = d.words / 2 := by rw [CacheDesc.words, Nat.div_div_eq_div_mul]
  have hwords : d.words = d.words / 2 + d.words / 2 := by omega
  have hd (k : Nat) : l.dirty d k = if k < d.words / 2 then l.tag &&& TAG_FIRST_HALF_DIRTY != 0
      else l.tag &&& TAG_LAST_HALF_DIRTY != 0 := by
    rw [dirty, halfDirty, hhalf]
    split <;> rfl
  unfold written dirtyStores
  cases l.valid with
  | false => rfl
  | true =>
    have hfirst : (List.range (d.words / 2)).filter (l.dirty d) =
        if l.tag &&& TAG_FIRST_HALF_DIRTY != 0 then List.range (d.words / 2) else [] := by
      split
      · rename_i h
        exact List.filter_eq_self.mpr fun k hk => by rw [hd, if_pos (List.mem_range.mp hk), h]
      · rename_i h
        refine List.filter_eq_nil_iff.mpr fun k hk => ?_
        rw [hd, if_pos (List.mem_range.mp hk)]
        exact h
    have hlast : ((List.range (d.words / 2)).map (d.words / 2 + ·)).filter (l.dirty d) =
        if l.tag &&& TAG_LAST_HALF_DIRTY != 0 then
          (List.range (d.words / 2)).map (d.words / 2 + ·) else [] := by
      have hge : ∀ k ∈ (List.range (d.words / 2)).map (d.words / 2 + ·), ¬ k < d.words / 2 := by
        intro k hk
        obtain ⟨i, -, rfl⟩ := List.mem_map.mp hk
        omega
      split
      · rename_i h
        exact List.filter_eq_self.mpr fun k hk => by rw [hd, if_neg (hge k hk), h]
      · rename_i h
        refine List.filter_eq_nil_iff.mpr fun k hk => ?_
        rw [hd, if_neg (hge k hk)]
        exact h
    have hrange : List.range d.words =
        List.range (d.words / 2) ++ (List.range (d.words / 2)).map (d.words / 2 + ·) := by
      rw [← List.range_add, ← hwords]
    rw [if_pos rfl, if_pos rfl]
    cases h1 : l.tag &&& TAG_FIRST_HALF_DIRTY != 0 <;>
      cases h2 : l.tag &&& TAG_LAST_HALF_DIRTY != 0 <;>
      rw [h1] at hfirst <;> rw [h2] at hlast
    · rw [hrange, List.filter_append, hfirst, hlast]
      rfl
    · rw [hrange, List.filter_append, hfirst, hlast, if_neg Bool.false_ne_true, if_pos rfl,
        List.nil_append, List.map_map]
      rfl
    · rw [hrange, List.filter_append, hfirst, hlast, if_neg Bool.false_ne_true, if_pos rfl,
        List.append_nil]
      simp only [wordsFrom, Nat.zero_add]
    · rw [hrange, List.filter_append, hfirst, hlast, if_pos rfl, if_pos rfl, ← hrange]
      simp only [wordsFrom, Nat.zero_add]

end CacheLine

namespace Cache

variable {d : CacheDesc}

theorem softFlush_eq_onLine {c : Cache d} {pa : ARMword} {p : Fin d.set × Fin d.way}
    (h : softIndex d pa = some p) (ram : Ram) :
    c.softFlush pa ram = c.onLine p.1 p.2 ram (·.invalidate d) := by
  simp only [softIndex] at h
  split at h
  · rename_i hlt
    obtain rfl := Option.some.inj h
    exact dif_pos hlt
  · cases h

/-- `mmu_cache_soft_flush` at one address after the other: the cache and the memory, and the
words written. -/
def softFlushAll (c : Cache d) (ram : Ram) :
    List ARMword → (Cache d × Ram) × List (ARMword × ARMword)
  | [] => ((c, ram), [])
  | pa :: pas =>
    let cr := c.softFlush pa ram
    let rest := softFlushAll cr.1 cr.2 pas
    (rest.1, ((softIndex d pa).elim [] fun p => (c.line p.1 p.2).written d) ++ rest.2)

/-- Flushing different places: each line is written back as it was at the start. -/
theorem softFlushAll_spec {pas : List ARMword} {ps : List (Fin d.set × Fin d.way)}
    (hp : pas.map (softIndex d) = ps.map some) (hn : ps.Nodup) (c : Cache d) (ram : Ram) :
    let r := c.softFlushAll ram pas
    (∀ p ∈ ps, (r.1.1.line p.1 p.2).valid = false) ∧
      (∀ p ∉ ps, r.1.1.line p.1 p.2 = c.line p.1 p.2) ∧
      r.1.2 = ram.writeWords r.2 ∧ r.2 = ps.flatMap fun p => (c.line p.1 p.2).written d := by
  induction ps generalizing pas c ram with
  | nil =>
    obtain rfl := List.map_eq_nil_iff.mp hp
    exact ⟨fun _ h => (by cases h), fun _ _ => rfl, rfl, rfl⟩
  | cons p ps ih =>
    obtain ⟨pa, pas, rfl, hpa, hps⟩ := List.map_eq_cons_iff.mp hp
    obtain ⟨hnp, hn⟩ := List.nodup_cons.mp hn
    have hcr := softFlush_eq_onLine (c := c) hpa ram
    obtain ⟨hin, hout, hram, hlog⟩ := ih hps hn (c.softFlush pa ram).1 (c.softFlush pa ram).2
    have hline (q : Fin d.set × Fin d.way) : (c.softFlush pa ram).1.line q.1 q.2 =
        if q = p then ((c.line p.1 p.2).invalidate d ram).1 else c.line q.1 q.2 := by
      rw [hcr, onLine_eq, line_setLine]
      simp only [Prod.ext_iff]
    have hwritten : (softIndex d pa).elim [] (fun p => (c.line p.1 p.2).written d) =
        (c.line p.1 p.2).written d := by rw [hpa]; rfl
    simp only [softFlushAll, hwritten]
    refine ⟨fun q hq => ?_, fun q hq => ?_, ?_, ?_⟩
    · by_cases hqs : q ∈ ps
      · exact hin q hqs
      · obtain rfl := (List.mem_cons.mp hq).resolve_right hqs
        rw [hout q hqs, hline, if_pos rfl]
        exact CacheLine.invalidate_not_valid ..
    · obtain ⟨hqp, hqs⟩ := not_or.mp (mt List.mem_cons.mpr hq)
      rw [hout q hqs, hline, if_neg hqp]
    · have hfirst : (c.softFlush pa ram).2 = ram.writeWords ((c.line p.1 p.2).written d) := by
        rw [hcr, onLine_eq]
        exact CacheLine.invalidate_snd ..
      rw [hram, hfirst, Ram.writeWords, Ram.writeWords, Ram.writeWords, List.foldl_append]
    · rw [hlog, List.flatMap_cons]
      congr 1
      refine List.flatMap_congr fun q hq => ?_
      have hne : q ≠ p := fun he => hnp (he ▸ hq)
      rw [hline, if_neg hne]

/-! ## The places of a region -/

/-- The place of a line by its number. -/
def place (d : CacheDesc) (n : Nat) : Fin d.set × Fin d.way :=
  (⟨n / d.way % d.set, Nat.mod_lt _ d.set_pos⟩, ⟨n % d.way, Nat.mod_lt _ d.way_pos⟩)

theorem place_eq_iff {n m : Nat} :
    place d n = place d m ↔ n % (d.way * d.set) = m % (d.way * d.set) := by
  rw [place, place, Prod.mk.injEq, Fin.mk.injEq, Fin.mk.injEq, Nat.mod_mul, Nat.mod_mul]
  have hn := Nat.mod_lt n d.way_pos
  have hm := Nat.mod_lt m d.way_pos
  constructor
  · rintro ⟨hs, hw⟩
    rw [hs, hw]
  · intro h
    have hw := congrArg (· % d.way) h
    simp only [Nat.add_mul_mod_self_left, Nat.mod_mod] at hw
    rw [hw] at h
    exact ⟨Nat.eq_of_mul_eq_mul_left d.way_pos (Nat.add_left_cancel h), hw⟩

/-- Consecutive numbers, as many as there are places, come to every place once. -/
theorem places_of_consecutive (d : CacheDesc) (n : Nat) :
    ((List.range (d.way * d.set)).map fun i => place d (n + i)).Nodup ∧
      ∀ p, p ∈ (List.range (d.way * d.set)).map fun i => place d (n + i) := by
  have hpos := Nat.mul_pos d.way_pos d.set_pos
  constructor
  · refine List.Nodup.map_on (fun i hi j hj h => ?_) List.nodup_range
    have hij := Nat.ModEq.add_left_cancel' n (place_eq_iff.mp h)
    exact Nat.ModEq.eq_of_lt_of_lt hij (List.mem_range.mp hi) (List.mem_range.mp hj)
  · rintro ⟨s, w⟩
    -- the number of the place, and the number from `n` on that is the same modulo the places
    have hr : w.val + d.way * s.val < d.way * d.set := by
      have h1 := Nat.mul_le_mul_left d.way (Nat.succ_le_of_lt s.isLt)
      have h2 := w.isLt
      rw [Nat.mul_succ] at h1
      omega
    have hplace : place d (w.val + d.way * s.val) = (s, w) := by
      rw [place, Prod.mk.injEq, Fin.ext_iff, Fin.ext_iff]
      simp only [Nat.add_mul_mod_self_left, Nat.mod_eq_of_lt w.isLt,
        Nat.add_mul_div_left _ _ d.way_pos, Nat.div_eq_of_lt w.isLt, Nat.zero_add,
        Nat.mod_eq_of_lt s.isLt, and_self]
    refine List.mem_map.mpr ⟨(w.val + d.way * s.val + (d.way * d.set - n % (d.way * d.set))) %
      (d.way * d.set), List.mem_range.mpr (Nat.mod_lt _ hpos), ?_⟩
    have hsum : n + (w.val + d.way * s.val + (d.way * d.set - n % (d.way * d.set))) =
        w.val + d.way * s.val + d.way * d.set * (n / (d.way * d.set) + 1) := by
      have hn := Nat.mod_lt n hpos
      have hdiv := Nat.div_add_mod n (d.way * d.set)
      rw [Nat.mul_succ]
      generalize d.way * d.set * (n / (d.way * d.set)) = q at hdiv ⊢
      omega
    rw [← hplace, place_eq_iff, Nat.add_mod_mod, hsum, Nat.add_mul_mod_self_left]

/-- The geometry fits the registers and the address space. -/
structure Addressable (d : CacheDesc) : Prop where
  width_pos : 0 < d.width
  fits : d.width * d.way * d.set < 2 ^ 32

/-- With powers of two, the masks of `mmu_cache_soft_flush` find the place of the line. -/
theorem softIndex_eq_place (h : Addressable d) (hway : d.way.isPowerOfTwo)
    (hset : d.set.isPowerOfTwo) (pa : ARMword) :
    softIndex d pa = some (place d (pa.toNat / d.width)) := by
  obtain ⟨a, ha⟩ := hway
  obtain ⟨b, hb⟩ := hset
  have hlt (n m : Nat) (hm : 0 < m) (hn : n * m < 2 ^ 32) : n < 2 ^ 32 :=
    Nat.lt_of_le_of_lt (Nat.le_mul_of_pos_right n hm) hn
  have hww : d.width * d.way < 2 ^ 32 := hlt _ _ d.set_pos h.fits
  have hwidth : d.width < 2 ^ 32 := hlt _ _ d.way_pos hww
  have hway : d.way < 2 ^ 32 := hlt _ _ h.width_pos (by rwa [Nat.mul_comm] at hww)
  have hset : d.set < 2 ^ 32 := by
    refine hlt _ _ (Nat.mul_pos h.width_pos d.way_pos) ?_
    rw [Nat.mul_comm]
    exact h.fits
  have hmask (x : ARMword) (k n : Nat) (hn : n = 2 ^ k) (h32 : n < 2 ^ 32) :
      (x &&& BitVec.ofNat 32 (n - 1)).toNat = x.toNat % n := by
    rw [BitVec.toNat_and, BitVec.toNat_ofNat, Nat.mod_eq_of_lt (by omega), hn,
      Nat.and_two_pow_sub_one_eq_mod]
  have hdiv (x : ARMword) (n : Nat) (h32 : n < 2 ^ 32) :
      (x / BitVec.ofNat 32 n).toNat = x.toNat / n := by
    rw [BitVec.toNat_udiv, BitVec.toNat_ofNat, Nat.mod_eq_of_lt h32]
  simp only [softIndex, hmask _ a _ ha hway, hmask _ b _ hb hset, hdiv _ _ hwidth, hdiv _ _ hway]
  exact dif_pos ⟨Nat.mod_lt _ d.way_pos, Nat.mod_lt _ d.set_pos⟩

/-- The line addresses of the region of the size of the cache from `base` on. -/
def lineAddrs (d : CacheDesc) (base : ARMword) : List ARMword :=
  (List.range (d.way * d.set)).map fun i => base + BitVec.ofNat 32 (i * d.width)

theorem lineAddrs_softIndex (h : Addressable d) (hway : d.way.isPowerOfTwo)
    (hset : d.set.isPowerOfTwo) {base : ARMword}
    (hb : base.toNat + d.width * d.way * d.set ≤ 2 ^ 32) :
    (lineAddrs d base).map (softIndex d) =
      ((List.range (d.way * d.set)).map fun i => place d (base.toNat / d.width + i)).map some := by
  rw [lineAddrs, List.map_map, List.map_map]
  refine List.map_congr_left fun i hi => ?_
  have hin : i * d.width < d.width * d.way * d.set := by
    have := Nat.mul_lt_mul_of_pos_right (List.mem_range.mp hi) h.width_pos
    rwa [Nat.mul_comm (d.way * d.set), ← Nat.mul_assoc] at this
  have hnat : (base + BitVec.ofNat 32 (i * d.width)).toNat = base.toNat + i * d.width := by
    have := h.fits
    rw [BitVec.toNat_add, BitVec.toNat_ofNat, Nat.mod_eq_of_lt (a := i * d.width) (by omega),
      Nat.mod_eq_of_lt (by omega)]
  rw [Function.comp_apply, Function.comp_apply, softIndex_eq_place h hway hset, hnat,
    Nat.add_mul_div_right _ _ h.width_pos]

/-- A sweep over any aligned region of the size of the cache leaves no valid line, and writes
the words of the dirty half lines to their addresses, each once, and nothing else. -/
def SweepsClean (d : CacheDesc) : Prop :=
  ∀ (c : Cache d) (ram : Ram) (base : ARMword),
    base.toNat % (d.width * d.way * d.set) = 0 →
    base.toNat + d.width * d.way * d.set ≤ 2 ^ 32 →
    let r := c.softFlushAll ram (lineAddrs d base)
    (∀ s w, (r.1.1.line s w).valid = false) ∧ r.1.2 = ram.writeWords r.2 ∧
      r.2.Perm ((List.finRange d.set ×ˢ List.finRange d.way).flatMap fun p =>
        (c.line p.1 p.2).dirtyStores d)

/-- In a cache of as many ways and sets as powers of two, with lines of an even number of
words, a software sweep cleans everything. -/
theorem soft_flush_sweeps_clean (h : Addressable d) (hway : d.way.isPowerOfTwo)
    (hset : d.set.isPowerOfTwo) (heven : d.words % 2 = 0) : SweepsClean d := by
  intro c ram base _ hb
  obtain ⟨hn, hmem⟩ := places_of_consecutive d (base.toNat / d.width)
  obtain ⟨hin, -, hram, hlog⟩ :=
    softFlushAll_spec (lineAddrs_softIndex h hway hset hb) hn c ram
  refine ⟨fun s w => hin (s, w) (hmem _), hram, ?_⟩
  rw [hlog]
  simp only [CacheLine.written_eq_dirtyStores d _ heven]
  refine List.Perm.flatMap_right _ ((List.perm_ext_iff_of_nodup hn
    ((List.nodup_finRange _).product (List.nodup_finRange _))).mpr fun p => ?_)
  exact iff_of_true (hmem p) (List.pair_mem_product.mpr
    ⟨List.mem_finRange _, List.mem_finRange _⟩)

/-- A cache of lines that are all alike. -/
def uniform (d : CacheDesc) (tag : ARMword) : Cache d :=
  ⟨fun _ => ⟨fun _ => ⟨tag, 0, fun _ => 0⟩, ⟨0, d.way_pos⟩⟩⟩

/-- A sweep of a cache of two ways and two sets, of lines of two dirty words. -/
theorem soft_flush_sweeps_clean_four :
    let d : CacheDesc := ⟨8, 2, 2, .writeBack, by decide, by decide⟩
    let r := (uniform d 7).softFlushAll .cleared (lineAddrs d 0x40)
    (∀ s w, (r.1.1.line s w).valid = false) ∧ r.2.length = 8 := by
  intro d r
  have hs : SweepsClean d :=
    soft_flush_sweeps_clean ⟨by decide, by decide⟩ ⟨1, rfl⟩ ⟨1, rfl⟩ (by decide)
  obtain ⟨hv, -, hp⟩ := hs (uniform d 7) .cleared 0x40 (by decide) (by decide)
  exact ⟨hv, hp.length_eq.trans (by decide)⟩

/-- The masks pass over the middle one of three ways and of three sets, and half of a line of
three words leaves out one. -/
theorem sweep_leaves_lines :
    ¬ (∀ d : CacheDesc, Addressable d → SweepsClean d) ∧
      ¬ SweepsClean ⟨8, 3, 1, .writeBack, by decide, by decide⟩ ∧
      ¬ SweepsClean ⟨8, 1, 3, .writeBack, by decide, by decide⟩ ∧
      ¬ SweepsClean ⟨12, 1, 1, .writeBack, by decide, by decide⟩ := by
  have hways : ¬ SweepsClean ⟨8, 3, 1, .writeBack, by decide, by decide⟩ := by
    intro h
    exact absurd ((h (uniform _ 1) .cleared 0 rfl (by decide)).1 0 1) (by decide)
  refine ⟨fun h => hways (h _ ⟨by decide, by decide⟩), hways, fun h => ?_, fun h => ?_⟩
  · exact absurd ((h (uniform _ 1) .cleared 0 rfl (by decide)).1 1 0) (by decide)
  · exact absurd (h (uniform _ 5) .cleared 0 rfl (by decide)).2.2.length_eq (by decide)

end Cache

end SkyEye
