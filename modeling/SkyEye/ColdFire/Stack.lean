import SkyEye.ColdFire.Defs
import Mathlib.Tactic.Common

/-!
# Words of the stack

A long word that is stored in a RAM segment is read back, also where its bytes go past the
end of the segment, and longs a multiple of four apart do not overlap. With this
`stackPush` and `stackPop` are a store and a load of one word each.
-/

namespace SkyEye.ColdFire

open Sparc (Uint32)

/-! ## Bytes -/

/-- The byte of `v` from bit `n` on, at its place, has the bits `n` to `n + 7` of `v`. -/
theorem getLsbD_byte (v : Uint32) {n i : Nat} (hi : i < 32) :
    (((v >>> n).setWidth 8).setWidth 32 <<< n).getLsbD i =
      (decide (n ≤ i ∧ i < n + 8) && v.getLsbD i) := by
  simp only [BitVec.getLsbD_shiftLeft, BitVec.getLsbD_setWidth, BitVec.getLsbD_ushiftRight, hi,
    decide_true, Bool.true_and]
  by_cases hn : n ≤ i
  · have hadd : n + (i - n) = i := by omega
    have h1 : ¬i < n := by omega
    have h2 : i - n < 32 := by omega
    by_cases hb : i < n + 8
    · have h3 : i - n < 8 := by omega
      simp [hn, hb, h1, h2, h3, hadd]
    · have h3 : ¬i - n < 8 := by omega
      simp [hb, h3]
  · have h1 : i < n := by omega
    simp [hn, h1]

theorem bytes_or (v : Uint32) :
    ((v >>> 24).setWidth 8).setWidth 32 <<< 24 ||| ((v >>> 16).setWidth 8).setWidth 32 <<< 16 |||
      ((v >>> 8).setWidth 8).setWidth 32 <<< 8 ||| ((v >>> 0).setWidth 8).setWidth 32 = v := by
  have h0 : ((v >>> 0).setWidth 8).setWidth 32 = ((v >>> 0).setWidth 8).setWidth 32 <<< 0 := by
    rw [BitVec.shiftLeft_zero]
  rw [h0]
  apply BitVec.eq_of_getLsbD_eq
  intro i hi
  simp only [BitVec.getLsbD_or, getLsbD_byte v hi]
  have h : 24 ≤ i ∧ i < 24 + 8 ∨ 16 ≤ i ∧ i < 16 + 8 ∨ 8 ≤ i ∧ i < 8 + 8 ∨ 0 ≤ i ∧ i < 0 + 8 := by
    omega
  cases v.getLsbD i with
  | false => simp
  | true => simpa [or_assoc] using h

theorem ramRead_ramWrite (bytes : Nat → BitVec 8) (offset : Nat) (value : Uint32) :
    ramRead (ramWrite bytes 32 offset value) 32 offset = value := by
  have h0 : ramWrite bytes 32 offset value (offset + 0) = (value >>> 24).setWidth 8 := by
    simp [ramWrite]
  have h1 : ramWrite bytes 32 offset value (offset + 1) = (value >>> 16).setWidth 8 := by
    simp [ramWrite]
  have h2 : ramWrite bytes 32 offset value (offset + 2) = (value >>> 8).setWidth 8 := by
    simp [ramWrite]
  have h3 : ramWrite bytes 32 offset value (offset + 3) = (value >>> 0).setWidth 8 := by
    simp [ramWrite]
  simp only [ramRead, if_true, h0, h1, h2, h3, bytes_or]

theorem ramRead_ramWrite_of_disjoint (bytes : Nat → BitVec 8) {offset offset' : Nat}
    (h : offset + 4 ≤ offset' ∨ offset' + 4 ≤ offset) (value : Uint32) :
    ramRead (ramWrite bytes 32 offset value) 32 offset' = ramRead bytes 32 offset' := by
  have hkeep : ∀ i < 4, ramWrite bytes 32 offset value (offset' + i) = bytes (offset' + i) := by
    intro i hi
    have h0 : offset' + i ≠ offset := by omega
    have h1 : offset' + i ≠ offset + 1 := by omega
    have h2 : offset' + i ≠ offset + 2 := by omega
    have h3 : offset' + i ≠ offset + 3 := by omega
    simp only [ramWrite, if_true, Function.update_apply, h0, h1, h2, h3, if_false]
  simp only [ramRead, if_true, hkeep 0 (by decide), hkeep 1 (by decide), hkeep 2 (by decide),
    hkeep 3 (by decide)]

namespace State

variable {δ : Type} {b : Board δ} {s t : State δ}

/-! ## Words in the segments -/

/-- `A` is in a RAM segment. -/
def RamAt (b : Board δ) (s : State δ) (A : Uint32) : Prop :=
  ∃ g i, s.memoryFindSegmentFor b A = some (g, i) ∧ g.module = .ram

/-- The long word at `A`. -/
def word (b : Board δ) (s : State δ) (A : Uint32) : Uint32 :=
  match s.memoryFindSegmentFor b A with
  | some (g, i) => ramRead (s.ram i) 32 (A - g.start s.core).toNat
  | none => 0

/-- `s` with a long word stored at `A`. -/
def put (b : Board δ) (s : State δ) (A v : Uint32) : State δ :=
  match s.memoryFindSegmentFor b A with
  | some (g, i) =>
    let bytes := ramWrite (s.ram i) 32 (A - g.start s.core).toNat v
    { s with ram := Function.update s.ram i bytes }
  | none => s

@[simp] theorem base_setA7 (v : Uint32) : (s.setA7 v).core.base = s.core.base := by
  funext r
  cases r <;> rfl

@[simp] theorem base_setSr (v : Uint32) : (s.setSr v).core.base = s.core.base := by
  funext r
  cases r <;> rfl

@[simp] theorem base_setPc (v : Uint32) : (s.setPc v).core.base = s.core.base := by
  funext r
  cases r <;> rfl

@[simp] theorem core_put (A v : Uint32) : (s.put b A v).core = s.core := by
  unfold put
  split <;> rfl

@[simp] theorem a7_setSr (v : Uint32) : (s.setSr v).core.a = s.core.a := rfl
@[simp] theorem a7_setPc (v : Uint32) : (s.setPc v).core.a = s.core.a := rfl

@[simp] theorem setA7_a7 (v : Uint32) : (s.setA7 v).core.a 7 = v := by
  simp [setA7]

/-- The last value of the stack pointer counts. -/
theorem setA7_setSr_setA7 (v x y : Uint32) :
    (((s.setA7 x).setSr v).setA7 y) = (s.setA7 y).setSr v := by
  simp [setA7, setSr]

theorem setA7_put (A v x : Uint32) : (s.put b A v).setA7 x = (s.setA7 x).put b A v := by
  have hf : (s.setA7 x).memoryFindSegmentFor b A = s.memoryFindSegmentFor b A := by
    simp only [memoryFindSegmentFor, Segment.start, base_setA7]
  unfold put
  rw [hf]
  cases s.memoryFindSegmentFor b A with
  | none => rfl
  | some p => simp only [Segment.start, base_setA7]; rfl

theorem setA7_setA7 (x y : Uint32) : (s.setA7 x).setA7 y = s.setA7 y := by
  simp [setA7]

/-- The segment of an address depends on the base registers only. -/
theorem memoryFindSegmentFor_congr (h : s.core.base = t.core.base) (A : Uint32) :
    s.memoryFindSegmentFor b A = t.memoryFindSegmentFor b A := by
  simp only [memoryFindSegmentFor, Segment.start, h]

theorem memorySeek_congr (h : s.core.base = t.core.base) (A : Uint32) :
    s.memorySeek b A = t.memorySeek b A := by
  rw [memorySeek, memorySeek, memoryFindSegmentFor_congr h]

theorem RamAt.congr {A : Uint32} (ha : s.RamAt b A) (h : s.core.base = t.core.base) :
    t.RamAt b A := by
  obtain ⟨g, i, hf, hm⟩ := ha
  exact ⟨g, i, (memoryFindSegmentFor_congr h A).symm.trans hf, hm⟩

theorem word_congr (h : s.core.base = t.core.base) (hr : s.ram = t.ram) (A : Uint32) :
    s.word b A = t.word b A := by
  simp only [word, memoryFindSegmentFor_congr h, Segment.start, h, hr]

theorem memorySeek_of_ramAt {A : Uint32} (ha : s.RamAt b A) : s.memorySeek b A = true := by
  obtain ⟨g, i, hf, -⟩ := ha
  rw [memorySeek, hf]
  rfl

theorem memoryRetr_of_ramAt {A : Uint32} (ha : s.RamAt b A) (r : Uint32) :
    s.memoryRetr b r 32 A = some (true, s.word b A, s) := by
  obtain ⟨g, i, hf, -⟩ := ha
  simp only [memoryRetr, word, hf]

theorem memoryStor_of_ramAt {A : Uint32} (ha : s.RamAt b A) (v : Uint32) :
    s.memoryStor b 32 A v = some (true, s.put b A v) := by
  obtain ⟨g, i, hf, hm⟩ := ha
  simp only [memoryStor, put, hf, hm]

/-- One segment has one number. -/
theorem segment_of_index {A B : Uint32} {g g' : Segment} {i : Nat}
    (h : s.memoryFindSegmentFor b A = some (g, i))
    (h' : s.memoryFindSegmentFor b B = some (g', i)) : g = g' := by
  have hm := List.mem_zipIdx_iff_getElem?.mp (List.mem_of_find?_eq_some h)
  have hm' := List.mem_zipIdx_iff_getElem?.mp (List.mem_of_find?_eq_some h')
  exact Option.some.inj (hm.symm.trans hm')

theorem word_put {A : Uint32} (ha : s.RamAt b A) (v : Uint32) :
    (s.put b A v).word b A = v := by
  obtain ⟨g, i, hf, -⟩ := ha
  have hf' : (s.put b A v).memoryFindSegmentFor b A = some (g, i) := by
    rw [memoryFindSegmentFor_congr (s := s.put b A v) (t := s) (by rw [core_put]), hf]
  unfold word
  rw [hf']
  simp only [core_put]
  simp only [put, hf, Function.update_self, ramRead_ramWrite]

/-- The stack's words are a multiple of four apart. -/
theorem word_put_of_ne {A B : Uint32} (hne : A ≠ B) (hfour : (A - B).toNat % 4 = 0)
    (v : Uint32) : (s.put b A v).word b B = s.word b B := by
  unfold word
  rw [memoryFindSegmentFor_congr (s := s.put b A v) (t := s) (by rw [core_put])]
  cases hB : s.memoryFindSegmentFor b B with
  | none => rfl
  | some p =>
    obtain ⟨g', j⟩ := p
    simp only [core_put]
    unfold put
    cases hA : s.memoryFindSegmentFor b A with
    | none => rfl
    | some q =>
      obtain ⟨g, i⟩ := q
      by_cases hij : i = j
      · subst hij
        obtain rfl := segment_of_index hA hB
        simp only [Function.update_self]
        refine ramRead_ramWrite_of_disjoint _ ?_ v
        generalize g.start s.core = st
        have : (A - st) - (B - st) = A - B := by bv_omega
        bv_omega
      · simp only
        rw [Function.update_of_ne (Ne.symm hij)]

/-! ## The stack -/

theorem stackPush_of_ramAt (ha : s.RamAt b (s.core.a 7 - 4)) (v : Uint32) :
    s.stackPush b v =
      some ((s.setA7 (s.core.a 7 - 4)).put b (s.core.a 7 - 4) v) := by
  have ha' : (s.setA7 (s.core.a 7 - 4)).RamAt b (s.core.a 7 - 4) := ha.congr (base_setA7 _).symm
  unfold stackPush
  simp only [setA7_a7, memoryStor_of_ramAt ha', Option.bind_eq_bind, Option.bind_some]

theorem stackPop_of_ramAt (ha : s.RamAt b (s.core.a 7)) :
    s.stackPop b = some (s.word b (s.core.a 7), s.setA7 (s.core.a 7 + 4)) := by
  have ha' : (s.setA7 (s.core.a 7 + 4)).RamAt b (s.core.a 7) := ha.congr (base_setA7 _).symm
  unfold stackPop
  simp only [memoryRetr_of_ramAt ha', Option.bind_eq_bind, Option.bind_some]
  rw [word_congr (base_setA7 _) rfl]

/-- The two words of a frame at the stack pointer. -/
structure FrameAt (b : Board δ) (s : State δ) (frame pc : Uint32) : Prop where
  lower : s.RamAt b (s.core.a 7)
  upper : s.RamAt b (s.core.a 7 + 4)
  frame_eq : s.word b (s.core.a 7) = frame
  pc_eq : s.word b (s.core.a 7 + 4) = pc

theorem FrameAt.congr {frame pc : Uint32} (hf : s.FrameAt b frame pc)
    (hb : s.core.base = t.core.base) (ha : s.core.a 7 = t.core.a 7) (hr : s.ram = t.ram) :
    t.FrameAt b frame pc where
  lower := ha ▸ hf.lower.congr hb
  upper := ha ▸ hf.upper.congr hb
  frame_eq := by rw [← ha, ← word_congr hb hr, hf.frame_eq]
  pc_eq := by rw [← ha, ← word_congr hb hr, hf.pc_eq]

/-- `exception_restore_from_stack_frame` takes the frame at the stack pointer. -/
theorem exceptionRestoreFromStackFrame_of_frameAt {frame pc : Uint32}
    (hf : s.FrameAt b frame pc) :
    s.exceptionRestoreFromStackFrame b =
      some (((s.setA7 (s.core.a 7 + 8)).setSr (frame &&& 0xffff)).setPc pc) := by
  have hu : ((s.setA7 (s.core.a 7 + 4)).setSr (frame &&& 0xffff)).RamAt b (s.core.a 7 + 4) :=
    hf.upper.congr (by simp)
  have height : s.core.a 7 + 4 + 4 = s.core.a 7 + 8 := by
    rw [BitVec.add_assoc]
    rfl
  unfold exceptionRestoreFromStackFrame
  simp only [stackPop_of_ramAt hf.lower, Option.bind_eq_bind, Option.bind_some, hf.frame_eq]
  rw [stackPop_of_ramAt (by simpa using hu)]
  simp only [Option.bind_some, a7_setSr, setA7_a7, setA7_setSr_setA7, height]
  have hword : ((s.setA7 (s.core.a 7 + 4)).setSr (frame &&& 0xffff)).word b (s.core.a 7 + 4) =
      pc := (word_congr (by simp) rfl _).trans hf.pc_eq
  rw [hword]

/-- The stack has room for a frame, in RAM. -/
structure StackMapped (b : Board δ) (s : State δ) : Prop where
  four : s.RamAt b (s.core.a 7 - 4)
  eight : s.RamAt b (s.core.a 7 - 8)

/-- `s` after the frame is pushed. -/
def pushed (b : Board δ) (s : State δ) (vector : BitVec 16) (pc : Uint32) : State δ :=
  ((s.setA7 (s.core.a 7 - 8)).put b (s.core.a 7 - 4) pc).put b (s.core.a 7 - 8)
    (s.stackFrame vector)

theorem sub_four_sub_four (x : Uint32) : x - 4 - 4 = x - 8 := by bv_omega

theorem pushFrame_of_stackMapped (h : s.StackMapped b) (vector : BitVec 16) (pc : Uint32) :
    s.pushFrame b vector pc = some (s.pushed b vector pc) := by
  have h8 : ((s.setA7 (s.core.a 7 - 4)).put b (s.core.a 7 - 4) pc).RamAt b
      (s.core.a 7 - 4 - 4) := by
    rw [sub_four_sub_four]
    exact h.eight.congr (by simp)
  unfold pushFrame
  simp only [stackPush_of_ramAt h.four, Option.bind_eq_bind, Option.bind_some]
  rw [stackPush_of_ramAt (by simpa using h8)]
  simp only [core_put, setA7_a7, sub_four_sub_four, setA7_put, setA7_setA7]
  rfl

@[simp] theorem core_pushed (vector : BitVec 16) (pc : Uint32) :
    (s.pushed b vector pc).core = (s.setA7 (s.core.a 7 - 8)).core := by
  simp [pushed]

theorem frameAt_pushed (h : s.StackMapped b) (vector : BitVec 16) (pc : Uint32) :
    (s.pushed b vector pc).FrameAt b (s.stackFrame vector) pc := by
  have ha : (s.pushed b vector pc).core.a 7 = s.core.a 7 - 8 := by simp
  have hb : (s.pushed b vector pc).core.base = s.core.base := by simp
  have hup : s.core.a 7 - 8 + 4 = s.core.a 7 - 4 := by bv_omega
  have h4 : (s.setA7 (s.core.a 7 - 8)).RamAt b (s.core.a 7 - 4) := h.four.congr (by simp)
  have h8 : ((s.setA7 (s.core.a 7 - 8)).put b (s.core.a 7 - 4) pc).RamAt b
      (s.core.a 7 - 8) := h.eight.congr (by simp)
  refine ⟨?_, ?_, ?_, ?_⟩
  · rw [ha]
    exact h.eight.congr hb.symm
  · rw [ha, hup]
    exact h.four.congr hb.symm
  · rw [ha]
    exact word_put h8 _
  · rw [ha, hup, pushed, word_put_of_ne (by bv_omega) (by bv_omega), word_put h4]

end State

end SkyEye.ColdFire
