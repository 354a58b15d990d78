import SkyEye.ColdFire.Stack
import Mathlib.Data.List.TakeWhile
import Mathlib.Order.Fin.Basic

/-!
# Exception entry, RTE and nested interrupts

`exceptionDoException` followed by `rte` is the identity on the core, but for the program
counter that the frame saved and the upper half of `sr`, which is no part of the status
register. `exceptionCheckAndHandle` takes the highest posted level above the mask.
-/

namespace SkyEye.ColdFire

open Sparc (Uint32)

/-! ## The status register -/

/-- The priority mask after `exception_check_and_handle` set it. -/
theorem interruptPriorityMask_entry (sr x : Uint32) :
    interruptPriorityMask (clearT (setS (clearM (setInterruptPriorityMask sr x)))) = x &&& 7 := by
  have h7 : ∀ i < 32, ¬i < 3 → (7#32).getLsbD i = false := by decide
  apply BitVec.eq_of_getLsbD_eq
  intro i hi
  by_cases h3 : i < 3
  · have hc : i = 0 ∨ i = 1 ∨ i = 2 := by omega
    rcases hc with rfl | rfl | rfl <;>
      simp [interruptPriorityMask, clearT, setS, clearM, setInterruptPriorityMask]
  · simp [interruptPriorityMask, h7 i hi h3]

/-- The low half of the frame is the status register. -/
theorem stackFrame_and {δ : Type} (s : State δ) (vector : BitVec 16) :
    s.stackFrame vector &&& 0xffff = s.core.sr &&& 0xffff := by
  have hlow : ∀ i < 32, ¬i < 16 → (0xffff#32).getLsbD i = false := by decide
  apply BitVec.eq_of_getLsbD_eq
  intro i hi
  unfold State.stackFrame
  by_cases h : i < 16
  · have h18 : i < 18 := by omega
    have h28 : i < 28 := by omega
    simp [h18, h28]
  · simp [hlow i hi h]

theorem interruptPriorityMask_congr {sr sr' : Uint32} (h : sr &&& 0xffff = sr' &&& 0xffff) :
    interruptPriorityMask sr = interruptPriorityMask sr' := by
  have hbit : ∀ i < 16, sr.getLsbD i = sr'.getLsbD i := by
    intro i hi
    have hm : ∀ i < 16, (0xffff#32).getLsbD i = true := by decide
    have := congrArg (BitVec.getLsbD · i) h
    simpa [hm i hi] using this
  have h7 : ∀ i < 32, ¬i < 3 → (7#32).getLsbD i = false := by decide
  apply BitVec.eq_of_getLsbD_eq
  intro i hi
  by_cases h3 : i < 3
  · simp [interruptPriorityMask, hbit (8 + i) (by omega)]
  · simp [interruptPriorityMask, h7 i hi h3]

/-! ## The vectors -/

/-- The vectors whose frame saves the address of the instruction: access and address errors,
illegal instructions, privilege violations, line A and line F, and format errors. -/
def FaultVector (vector : BitVec 8) : Prop :=
  vector ∈ ([2, 3, 4, 8, 10, 11, 14] : List (BitVec 8))

instance (vector : BitVec 8) : Decidable (FaultVector vector) :=
  inferInstanceAs (Decidable (_ ∈ _))

theorem savesFault_eq {δ : Type} (b : Board δ) (vector : BitVec 8) :
    State.savesFault b (vector.setWidth 16) = decide (FaultVector vector) := by
  have htable : ∀ n : Fin 256, ((BitVec.ofNat 8 n).setWidth 16).slt (0 : BitVec 16) = false ∧
      (((BitVec.ofNat 8 n).setWidth 16).slt (16 : BitVec 16) &&
        exceptionPcLocation.getD ((BitVec.ofNat 8 n).setWidth 16).toNat 0 == 1) =
          decide (FaultVector (BitVec.ofNat 8 n)) := by
    decide +kernel
  obtain ⟨h0, h1⟩ := htable vector.toFin
  have hv : BitVec.ofNat 8 vector.toFin.val = vector := by simp
  rw [hv] at h0 h1
  unfold State.savesFault
  rw [h0, if_neg (by decide), h1]

/-! ## The level to take -/

/-- The first hit on the way down, while above a bound. -/
theorem find?_takeWhile_eq_some {p : Fin 8 → Bool} {m : Nat} {l : List (Fin 8)} {x : Fin 8}
    (hl : l.Pairwise (· > ·)) (hx : x ∈ l) (hm : m < x.val) (hp : p x = true)
    (hmax : ∀ y ∈ l, p y = true → y ≤ x) :
    (l.takeWhile (m + 1 ≤ ·.val)).find? p = some x := by
  induction l with
  | nil => cases hx
  | cons y l ih =>
    rw [List.pairwise_cons] at hl
    have hxy : x ≤ y := by
      rcases List.mem_cons.mp hx with rfl | hx
      · exact le_refl _
      · exact le_of_lt (hl.1 x hx)
    have hy : m + 1 ≤ y.val := Nat.lt_of_lt_of_le hm hxy
    rw [List.takeWhile_cons_of_pos (by simpa using hy)]
    by_cases hpy : p y = true
    · have : y = x := le_antisymm (hmax y (by simp) hpy) hxy
      rw [List.find?_cons_of_pos hpy, this]
    · rw [List.find?_cons_of_neg hpy]
      have hne : x ≠ y := by
        rintro rfl
        exact hpy hp
      exact ih hl.2 ((List.mem_cons.mp hx).resolve_left hne) fun z hz => hmax z (by simp [hz])

theorem find?_takeWhile_eq_none {p : Fin 8 → Bool} {m : Nat} {l : List (Fin 8)}
    (h : ∀ y, p y = true → y.val ≤ m) : (l.takeWhile (m + 1 ≤ ·.val)).find? p = none := by
  rw [List.find?_eq_none]
  intro y hy hp
  have h1 := List.mem_takeWhile_imp hy
  have h2 := h y hp
  simp only [decide_eq_true_eq] at h1
  omega

namespace State

variable {δ : Type} {b : Board δ} {s t : State δ}

theorem mem_levels : ∀ x : Fin 8, x ∈ ([7, 6, 5, 4, 3, 2, 1, 0] : List (Fin 8)) := by decide

theorem levelToTake_eq_some {x : Fin 8} (hm : s.mask < x.val) (hx : s.exc.Posted x)
    (hmax : ∀ y, s.exc.Posted y → y ≤ x) : s.levelToTake = some x :=
  find?_takeWhile_eq_some (by decide) (mem_levels x) hm hx fun y _ => hmax y

theorem levelToTake_eq_none (h : ∀ y, s.exc.Posted y → y.val ≤ s.mask) : s.levelToTake = none :=
  find?_takeWhile_eq_none h

theorem pending_ne_zero {x : Fin 8} (hx : s.exc.Posted x) : s.exc.pending ≠ 0 := by
  intro h
  have hp := (s.exc.pending_iff x).mpr ⟨x, rfl, hx⟩
  rw [h] at hp
  simp at hp

/-! ## Entry -/

theorem exceptionPushStackFrame_of_stackMapped (h : s.StackMapped b) (fuel : Nat)
    (vector : BitVec 16) :
    s.exceptionPushStackFrame b (fuel + 1) vector =
      some (s.pushed b vector
        (if savesFault b vector then s.core.pcInstructionBegin else s.core.pc)) := by
  unfold exceptionPushStackFrame
  simp only [memorySeek_of_ramAt h.four, memorySeek_of_ramAt h.eight, Bool.and_self, if_true,
    pushFrame_of_stackMapped h]

/-- A read leaves the core and the memory alone. -/
theorem memoryRetr_keeps {r : Uint32} {size : Nat} {A : Uint32} {ok : Bool} {v : Uint32}
    (h : s.memoryRetr b r size A = some (ok, v, t)) : t.core = s.core ∧ t.ram = s.ram := by
  have hwin : ∀ w : Window δ, ∀ B, s.windowRead w r size B = some (ok, v, t) →
      t.core = s.core ∧ t.ram = s.ram := by
    intro w B hw
    simp only [windowRead, Option.bind_eq_bind, Option.bind_eq_some_iff] at hw
    obtain ⟨p, -, hp⟩ := hw
    cases hp
    exact ⟨rfl, rfl⟩
  unfold memoryRetr at h
  split at h
  · cases h
    exact ⟨rfl, rfl⟩
  · split at h
    · exact hwin _ _ h
    · split at h
      · exact hwin _ _ h
      · cases h

/-- The vector holds `handler`, an address in a segment that is not the ROM's. -/
def HandlerAt (b : Board δ) (s : State δ) (vector : BitVec 16) (handler : Uint32) : Prop :=
  ∃ t, s.memoryRetr b 0 32 (s.vectorAddress vector) = some (true, handler, t) ∧
    ∃ g i, t.memoryFindSegmentFor b handler = some (g, i) ∧ g.baseRegister ≠ .rombar

theorem memoryRetr_setSr {r : Uint32} {size : Nat} {A : Uint32} {ok : Bool} {x : Uint32}
    (h : s.memoryRetr b r size A = some (ok, x, t)) (v : Uint32) :
    (s.setSr v).memoryRetr b r size A = some (ok, x, t.setSr v) := by
  have hwin : ∀ w : Window δ, ∀ B, s.windowRead w r size B = some (ok, x, t) →
      (s.setSr v).windowRead w r size B = some (ok, x, t.setSr v) := by
    intro w B hw
    simp only [windowRead, Option.bind_eq_bind, Option.bind_eq_some_iff] at hw
    obtain ⟨p, hp, hpt⟩ := hw
    cases hpt
    simp only [windowRead, State.setSr, hp, Option.bind_eq_bind, Option.bind_some]
  have hf : (s.setSr v).memoryFindSegmentFor b A = s.memoryFindSegmentFor b A :=
    memoryFindSegmentFor_congr (by simp) A
  unfold memoryRetr at h ⊢
  rw [hf]
  cases hA : s.memoryFindSegmentFor b A with
  | some p =>
    rw [hA] at h
    cases h
    simp only [Segment.start, base_setSr]
    rfl
  | none =>
    rw [hA] at h
    -- the windows are where they were
    change (if inWindow s.core.mbar s.core.mbarSize A = true then
        (s.setSr v).windowRead b.mbar r size (A - s.core.mbar)
      else if inWindow s.core.mbar2 s.core.mbar2Size A = true then
        (s.setSr v).windowRead b.mbar2 r size (A - s.core.mbar2)
      else none) = _
    simp only at h
    split at h
    · next hin =>
      rw [if_pos hin]
      exact hwin _ _ h
    · next hout =>
      rw [if_neg hout]
      split at h
      · next hin =>
        rw [if_pos hin]
        exact hwin _ _ h
      · cases h

/-- The read of a vector does not depend on `sr`. -/
theorem HandlerAt.setSr {vector : BitVec 16} {handler : Uint32}
    (h : s.HandlerAt b vector handler) (v : Uint32) : (s.setSr v).HandlerAt b vector handler := by
  obtain ⟨t, hr, g, i, hf, hg⟩ := h
  exact ⟨t.setSr v, memoryRetr_setSr hr v, g, i,
    (memoryFindSegmentFor_congr (by simp) _).trans hf, hg⟩

/-- The jump to the handler. -/
theorem exceptionDoRawException_of_handlerAt {vector : BitVec 16} {handler : Uint32}
    (h : s.HandlerAt b vector handler) :
    ∃ t, s.exceptionDoRawException b vector = some t ∧
      t.core = ((s.setSr (clearT (setS s.core.sr))).setPc handler).core ∧ t.ram = s.ram ∧
      t.memorySeek b handler = true := by
  obtain ⟨u, hr, g, i, hf, hg⟩ := h
  obtain ⟨hc, hram⟩ := memoryRetr_keeps hr
  have hf' : (u.setSr (clearT (setS u.core.sr))).memoryFindSegmentFor b handler = some (g, i) :=
    (memoryFindSegmentFor_congr (by simp) _).trans hf
  refine ⟨(u.setSr (clearT (setS u.core.sr))).setPc handler, ?_, ?_, hram, ?_⟩
  · unfold exceptionDoRawException
    simp only [hr, Option.bind_eq_bind, Option.bind_some, Bool.not_true, Bool.false_eq_true,
      if_false, hf', hg]
  · simp only [State.setSr, State.setPc, hc]
  · have hp : ((u.setSr (clearT (setS u.core.sr))).setPc handler).memoryFindSegmentFor b
        handler = some (g, i) := (memoryFindSegmentFor_congr (by simp) _).trans hf'
    rw [memorySeek, hp]
    rfl

/-! ## Return -/

/-- `rte` takes the frame at the stack pointer; the opcode is in some segment. -/
theorem rte_of_frameAt {frame pc : Uint32} (hf : s.FrameAt b frame pc)
    (hp : s.memorySeek b s.core.pc = true) :
    s.rte b = some (((s.setA7 (s.core.a 7 + 8)).setSr (frame &&& 0xffff)).setPc pc) := by
  obtain ⟨p, hpc⟩ := Option.isSome_iff_exists.mp hp
  have hf' : (s.setPc (s.core.pc + 2)).FrameAt b frame pc := hf.congr (by simp) rfl rfl
  unfold rte
  simp only [memoryRetr, hpc, Option.bind_eq_bind, Option.bind_some,
    exceptionRestoreFromStackFrame_of_frameAt hf']
  rfl

/-- The core in the handler: the frame is below the stack pointer of `s`. -/
def InHandler (s t : State δ) (handler : Uint32) : Prop :=
  t.core = { (s.setA7 (s.core.a 7 - 8)).core with pc := handler, sr := t.core.sr }

/-- `rte` in the handler, with the frame still there. -/
theorem rte_of_inHandler {vector : BitVec 16} {handler pc : Uint32}
    (hf : t.FrameAt b (s.stackFrame vector) pc) (hc : s.InHandler t handler)
    (hp : t.memorySeek b handler = true) :
    ∃ u, t.rte b = some u ∧ u.ram = t.ram ∧
      u.core = { s.core with pc := pc, sr := s.core.sr &&& 0xffff } := by
  have hpc : t.core.pc = handler := by rw [hc]
  have height : s.core.a 7 - 8 + 8 = s.core.a 7 := BitVec.sub_add_cancel _ _
  refine ⟨_, rte_of_frameAt hf (by rwa [hpc]), rfl, ?_⟩
  unfold InHandler at hc
  simp only [State.setA7, State.setSr, State.setPc] at hc ⊢
  rw [hc]
  simp only [stackFrame_and, Function.update_self, Function.update_idem, height,
    Function.update_eq_self]

/-- The frame is there after the entry. -/
theorem frameAt_of_entry (h : s.StackMapped b) {vector : BitVec 16} {sr handler pc : Uint32}
    (ht : t.core = (((s.pushed b vector pc).setSr sr).setPc handler).core)
    (hram : t.ram = (s.pushed b vector pc).ram) : t.FrameAt b (s.stackFrame vector) pc := by
  have hbase : t.core.base = (s.pushed b vector pc).core.base := by
    rw [ht, base_setPc, base_setSr]
  exact (frameAt_pushed h vector pc).congr hbase.symm (by rw [ht]; rfl) hram.symm

theorem inHandler_of_entry {vector : BitVec 16} {sr handler pc : Uint32}
    (ht : t.core = (((s.pushed b vector pc).setSr sr).setPc handler).core) :
    s.InHandler t handler := by
  unfold InHandler
  rw [ht]
  simp only [State.setSr, State.setPc, core_pushed]

/-! ## Exceptions -/

/-- The address that the frame of an exception in `s` saves. -/
def resumePc (b : Board δ) (s : State δ) (vector : BitVec 16) : Uint32 :=
  if savesFault b vector then s.core.pcInstructionBegin else s.core.pc

/-- The state in which the handler is looked up: `s` with the frame on the stack. -/
def framed (b : Board δ) (s : State δ) (vector : BitVec 16) : State δ :=
  s.pushed b vector (s.resumePc b vector)

theorem exceptionDoException_of_mapped (h : s.StackMapped b) {vector : BitVec 16}
    {handler : Uint32} (hh : (s.framed b vector).HandlerAt b vector handler) (fuel : Nat) :
    ∃ t, s.exceptionDoException b (fuel + 1) vector = some t ∧ t.core.pc = handler ∧
      ∃ u, t.rte b = some u ∧
        u.core = { s.core with pc := s.resumePc b vector, sr := s.core.sr &&& 0xffff } := by
  obtain ⟨t, hraw, hc, hram, hp⟩ := exceptionDoRawException_of_handlerAt hh
  obtain ⟨u, hrte, -, hu⟩ :=
    rte_of_inHandler (frameAt_of_entry h hc hram) (inHandler_of_entry hc) hp
  refine ⟨t, ?_, by rw [hc]; rfl, u, hrte, hu⟩
  unfold exceptionDoException
  rw [exceptionPushStackFrame_of_stackMapped h]
  exact hraw

/-- The status register in the handler of an interrupt of level `x`. -/
def interruptSr (sr : Uint32) (x : Fin 8) : Uint32 :=
  clearT (setS (clearM (setInterruptPriorityMask sr (BitVec.ofNat 32 x))))

theorem toNat_interruptPriorityMask_interruptSr (sr : Uint32) (x : Fin 8) :
    (interruptPriorityMask (interruptSr sr x)).toNat = x.val := by
  unfold interruptSr
  rw [interruptPriorityMask_entry]
  revert x
  decide

theorem takeInterrupt_of_mapped (h : s.StackMapped b) {vector : BitVec 16} {handler : Uint32}
    (hh : (s.framed b vector).HandlerAt b vector handler) (fuel : Nat) (x : Fin 8) :
    ∃ t, s.takeInterrupt b (fuel + 1) x vector = some t ∧
      t.core = (((s.framed b vector).setSr (interruptSr s.core.sr x)).setPc handler).core ∧
      t.ram = (s.framed b vector).ram ∧ t.memorySeek b handler = true := by
  obtain ⟨t, hraw, hc, hram, hp⟩ := exceptionDoRawException_of_handlerAt (hh.setSr
    (clearM (setInterruptPriorityMask (s.framed b vector).core.sr (BitVec.ofNat 32 x))))
  refine ⟨t, ?_, ?_, hram, hp⟩
  · unfold takeInterrupt
    rw [exceptionPushStackFrame_of_stackMapped h]
    exact hraw
  · rw [hc]
    simp only [State.setSr, State.setPc, framed, core_pushed, interruptSr]
    rfl

theorem exceptionCheckAndHandle_of_highest {x : Fin 8} (hm : s.mask < x.val)
    (hx : s.exc.Posted x) (hmax : ∀ y, s.exc.Posted y → y ≤ x) (fuel : Nat) :
    s.exceptionCheckAndHandle b fuel = s.takeInterrupt b fuel x (s.iackVector x) := by
  unfold exceptionCheckAndHandle
  rw [if_neg (pending_ne_zero hx), levelToTake_eq_some hm hx hmax]

theorem exceptionCheckAndHandle_of_masked (h : ∀ y, s.exc.Posted y → y.val ≤ s.mask)
    (fuel : Nat) : s.exceptionCheckAndHandle b fuel = some s := by
  unfold exceptionCheckAndHandle
  rw [levelToTake_eq_none h]
  split <;> rfl

end State

end SkyEye.ColdFire
