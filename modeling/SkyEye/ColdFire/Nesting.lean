import SkyEye.ColdFire.Exception

/-!
# Nested interrupts

A run in which interrupts are posted and withdrawn, taken and returned from, any number of
them inside one another. Each taken level is above the mask, which is then that level, so at
most seven frames are on the stack at once; whatever was there before is kept, and the core
is what it was.
-/

namespace SkyEye.ColdFire

open Sparc (Uint32)

namespace State

variable {δ : Type} {b : Board δ} {s t u v : State δ}

/-- A run from `s` to `v` in which the interrupts taken are all returned from. Between them
the devices do anything, posts and withdrawals included. -/
inductive Nested (b : Board δ) (fuel : Nat) : State δ → State δ → Prop where
  | refl (s : State δ) : Nested b fuel s s
  | devices {s t v : State δ} : t.core = s.core → t.ram = s.ram → Nested b fuel t v →
      Nested b fuel s v
  | interrupt {s t t' u v : State δ} {x : Fin 8} {handler : Uint32} :
      s.levelToTake = some x → s.StackMapped b →
      (s.framed b (s.iackVector x)).HandlerAt b (s.iackVector x) handler →
      savesFault b (s.iackVector x) = false → s.exceptionCheckAndHandle b (fuel + 1) = some t →
      Nested b fuel t t' → t'.rte b = some u → Nested b fuel u v → Nested b fuel s v

/-- The same registers, the upper half of `sr` apart. -/
def SameCore (s v : State δ) : Prop :=
  v.core = { s.core with sr := v.core.sr } ∧ v.core.sr &&& 0xffff = s.core.sr &&& 0xffff

/-- The words on the stack above the frames that can still be pushed are the same. -/
def SameStack (b : Board δ) (s v : State δ) : Prop :=
  ∀ B, (B - s.core.a 7).toNat % 4 = 0 → (B - s.core.a 7).toNat < 2 ^ 32 - 8 * (7 - s.mask) →
    v.word b B = s.word b B

theorem SameCore.refl (s : State δ) : SameCore s s := ⟨rfl, rfl⟩

theorem SameCore.trans (h : SameCore s t) (h' : SameCore t v) : SameCore s v := by
  refine ⟨?_, h'.2.trans h.2⟩
  rw [h'.1, h.1]

theorem SameCore.base (h : SameCore s v) : v.core.base = s.core.base := by
  rw [h.1]
  funext r
  cases r <;> rfl

theorem SameCore.a (h : SameCore s v) : v.core.a = s.core.a := by
  rw [h.1]

theorem SameCore.mask (h : SameCore s v) : v.mask = s.mask := by
  unfold State.mask
  rw [interruptPriorityMask_congr h.2]

theorem posted_of_levelToTake {x : Fin 8} (h : s.levelToTake = some x) : s.exc.Posted x := by
  have := List.find?_some h
  exact this

theorem mask_lt_of_levelToTake {x : Fin 8} (h : s.levelToTake = some x) : s.mask < x.val := by
  have := List.mem_takeWhile_imp (List.mem_of_find?_eq_some h)
  simpa [Nat.succ_le_iff] using this

theorem exceptionCheckAndHandle_of_level {x : Fin 8} (h : s.levelToTake = some x) (fuel : Nat) :
    s.exceptionCheckAndHandle b fuel = s.takeInterrupt b fuel x (s.iackVector x) := by
  unfold exceptionCheckAndHandle
  rw [if_neg (pending_ne_zero (posted_of_levelToTake h)), h]

/-- Pushing a frame keeps the other words of the stack. -/
theorem word_framed (vector : BitVec 16) {B : Uint32} (h4 : B ≠ s.core.a 7 - 4)
    (h8 : B ≠ s.core.a 7 - 8) (hB : (B - s.core.a 7).toNat % 4 = 0) :
    (s.framed b vector).word b B = s.word b B := by
  unfold framed pushed
  rw [word_put_of_ne h8.symm (by bv_omega), word_put_of_ne h4.symm (by bv_omega)]
  exact word_congr (base_setA7 _) rfl B

/-- The frame of the last entry is among the words that are kept. -/
theorem FrameAt.of_same {frame pc : Uint32} (hf : s.FrameAt b frame pc) (hc : SameCore s v)
    (hw : SameStack b s v) : v.FrameAt b frame pc := by
  have hm : 8 * (7 - s.mask) ≤ 56 := by omega
  have h0 : (s.core.a 7 - s.core.a 7).toNat = 0 := by bv_omega
  have h4 : (s.core.a 7 + 4 - s.core.a 7).toNat = 4 := by bv_omega
  refine ⟨?_, ?_, ?_, ?_⟩
  · rw [hc.a]
    exact hf.lower.congr hc.base.symm
  · rw [hc.a]
    exact hf.upper.congr hc.base.symm
  · rw [hc.a, hw _ (by rw [h0]) (by rw [h0]; omega), hf.frame_eq]
  · rw [hc.a, hw _ (by rw [h4]) (by rw [h4]; omega), hf.pc_eq]

/-- A nested run gives the core and the stack back. -/
theorem Nested.same {fuel : Nat} (h : Nested b fuel s v) : SameCore s v ∧ SameStack b s v := by
  induction h with
  | refl s => exact ⟨.refl s, fun _ _ _ => rfl⟩
  | @devices s t v hc hram _ ih =>
    have hm : t.mask = s.mask := by rw [State.mask, State.mask, hc]
    refine ⟨SameCore.trans ⟨by rw [hc], by rw [hc]⟩ ih.1, fun B h4 hlt => ?_⟩
    rw [ih.2 B (by rwa [hc]) (by rwa [hc, hm])]
    exact word_congr (by rw [hc]) hram B
  | @interrupt s t t' u v x handler hx hs hh hf hcheck _ hrte _ iht ihu =>
    have hmx := mask_lt_of_levelToTake hx
    rw [exceptionCheckAndHandle_of_level hx] at hcheck
    obtain ⟨t₁, ht₁, hc, hram, hp⟩ := takeInterrupt_of_mapped hs hh fuel x
    rw [ht₁] at hcheck
    obtain rfl := Option.some.inj hcheck
    have hmt : t₁.mask = x.val := by
      unfold State.mask
      rw [hc]
      exact toNat_interruptPriorityMask_interruptSr _ _
    have hat : t₁.core.a 7 = s.core.a 7 - 8 := by
      rw [hc]
      simp [framed]
    have hpc : s.resumePc b (s.iackVector x) = s.core.pc := by
      rw [resumePc, hf]
      rfl
    -- the nested run leaves the frame and the registers for `rte`
    have hin : s.InHandler t' handler := by
      have h₁ := inHandler_of_entry hc
      unfold InHandler at h₁ ⊢
      rw [iht.1.1, h₁]
    have hp' : t'.memorySeek b handler = true := by
      rwa [memorySeek_congr iht.1.base]
    obtain ⟨u', hu', huram, hucore⟩ :=
      rte_of_inHandler ((frameAt_of_entry hs hc hram).of_same iht.1 iht.2) hin hp'
    obtain rfl := Option.some.inj (hrte.symm.trans hu')
    have hsu : SameCore s u := by
      refine ⟨by rw [hucore, hpc], ?_⟩
      rw [hucore]
      simp only [BitVec.and_assoc, BitVec.and_self]
    refine ⟨hsu.trans ihu.1, fun B h4 hlt => ?_⟩
    have hB : (B - t₁.core.a 7).toNat = (B - s.core.a 7).toNat + 8 := by
      rw [hat]
      bv_omega
    calc v.word b B = u.word b B := ihu.2 B (by rwa [hsu.a]) (by rwa [hsu.a, hsu.mask])
      _ = t'.word b B := word_congr (hsu.base.trans (by
          rw [iht.1.base, hc, base_setPc, base_setSr, framed, core_pushed, base_setA7])) huram B
      _ = t₁.word b B := iht.2 B (by omega) (by omega)
      _ = (s.framed b (s.iackVector x)).word b B :=
          word_congr (by rw [hc, base_setPc, base_setSr]) hram B
      _ = s.word b B := word_framed _ (by bv_omega) (by bv_omega) h4

/-- Where RAM only is set up, a stack that `memory_seek` finds is mapped. -/
theorem stackMapped_of_memorySeek (hram : ∀ g ∈ b.segments, g.module = .ram)
    (h4 : s.memorySeek b (s.core.a 7 - 4) = true) (h8 : s.memorySeek b (s.core.a 7 - 8) = true) :
    s.StackMapped b := by
  have hat : ∀ A, s.memorySeek b A = true → s.RamAt b A := by
    intro A hA
    obtain ⟨⟨g, i⟩, hf⟩ := Option.isSome_iff_exists.mp hA
    have hg := List.mem_zipIdx_iff_getElem?.mp (List.mem_of_find?_eq_some hf)
    exact ⟨g, i, hf, hram g (List.mem_of_getElem? hg)⟩
  exact ⟨hat _ h4, hat _ h8⟩

/-- Entry and `rte` are inverse: all registers come back, the status register among them, and
execution resumes at the next instruction, or at the one that faulted. A posted level above
the mask is taken, the highest, and becomes the mask until `rte`; none is taken where all are
masked; and interrupts that nest leave the core as it was. -/
theorem exception_rte_inverse (b : Board δ) (s : State δ) (fuel : Nat) :
    (s.StackMapped b → ∀ (vector : BitVec 8) (handler : Uint32),
      (s.framed b (vector.setWidth 16)).HandlerAt b (vector.setWidth 16) handler →
      ∃ t, s.exceptionDoException b (fuel + 1) (vector.setWidth 16) = some t ∧
        t.core.pc = handler ∧ ∃ u, t.rte b = some u ∧
          u.core = { s.core with
            pc := if FaultVector vector then s.core.pcInstructionBegin else s.core.pc
            sr := s.core.sr &&& 0xffff }) ∧
    (∀ x, s.exc.Posted x → s.mask < x.val → (∀ y, s.exc.Posted y → y ≤ x) →
      s.exceptionCheckAndHandle b (fuel + 1) =
        s.takeInterrupt b (fuel + 1) x (s.iackVector x) ∧
      (s.StackMapped b → ∀ handler,
        (s.framed b (s.iackVector x)).HandlerAt b (s.iackVector x) handler →
        ∃ t, s.exceptionCheckAndHandle b (fuel + 1) = some t ∧ t.mask = x.val ∧
          t.core.pc = handler ∧ ∃ u, t.rte b = some u ∧
            u.core = { s.core with
              pc := s.resumePc b (s.iackVector x), sr := s.core.sr &&& 0xffff })) ∧
    ((∀ y, s.exc.Posted y → y.val ≤ s.mask) →
      s.exceptionCheckAndHandle b (fuel + 1) = some s) ∧
    ∀ v, Nested b fuel s v → SameCore s v := by
  refine ⟨fun hs vector handler hh => ?_, fun x hx hm hmax => ⟨?_, fun hs handler hh => ?_⟩,
    fun h => exceptionCheckAndHandle_of_masked h _, fun v hv => hv.same.1⟩
  · have h := exceptionDoException_of_mapped hs hh fuel
    simpa only [resumePc, savesFault_eq, decide_eq_true_eq] using h
  · exact exceptionCheckAndHandle_of_highest hm hx hmax _
  · obtain ⟨t, ht, hc, hram, hp⟩ := takeInterrupt_of_mapped hs hh fuel x
    obtain ⟨u, hrte, -, hu⟩ :=
      rte_of_inHandler (frameAt_of_entry hs hc hram) (inHandler_of_entry hc) hp
    refine ⟨t, (exceptionCheckAndHandle_of_highest hm hx hmax _).trans ht, ?_, ?_, u, hrte, hu⟩
    · unfold State.mask
      rw [hc]
      exact toNat_interruptPriorityMask_interruptSr _ _
    · rw [hc]
      rfl

end State

/-! ## A machine -/

/-- The segments of `coldfire_init_state`. -/
def initSegments : List Segment := [
  { base := 0, baseRegister := .zeroRegister, mask := ~~~(32 * 1024 * 1024 - 1#32),
    module := .ram },
  { base := 0x20000000, baseRegister := .zeroRegister, mask := ~~~(4096 - 1#32),
    module := .ram }]

/-- A board with these segments, whose devices do nothing. -/
def plainBoard : Board Unit where
  segments := initSegments
  mbar := ⟨fun r _ _ d e => some (true, r, d, e), fun _ _ _ d e => some (true, d, e)⟩
  mbar2 := ⟨fun r _ _ d e => some (true, r, d, e), fun _ _ _ d e => some (true, d, e)⟩
  uninit := 0
  beforeTable _ := 0

/-- A core with the priority mask 2 and the vectors in SRAM, and level 5 posted. -/
def plainState : State Unit where
  core :=
    { pc := 0x102, pcInstructionBegin := 0x100, sr := 0x2204, mbar := 0x10000000,
      mbarSize := 0x1024, mbar2 := 0x80000000, mbar2Size := 0x1024, rambar := 0, rambar1 := 0,
      rombar := 0, vbr := 0x20000000, cacr := 0, d := fun _ => 0, a := fun _ => 0x2000 }
  ram _ _ := 0
  exc := Exceptions.none.post 5 fun _ _ => 64
  dev := ()

/-- A privilege violation, and back. -/
theorem exception_rte_inverse_privilege :
    ∃ t, plainState.exceptionDoException plainBoard 1 8 = some t ∧ t.core.pc = 0 ∧
      ∃ u, t.rte plainBoard = some u ∧ u.core.pc = 0x100 ∧ u.core.sr = 0x2204 := by
  have hs : plainState.StackMapped plainBoard :=
    ⟨⟨_, 0, rfl, rfl⟩, ⟨_, 0, rfl, rfl⟩⟩
  have hh : (plainState.framed plainBoard 8).HandlerAt plainBoard 8 0 :=
    ⟨_, rfl, _, 0, rfl, by decide⟩
  obtain ⟨t, ht, hpc, u, hu, hcore⟩ :=
    (State.exception_rte_inverse plainBoard plainState 0).1 hs 8 0 hh
  exact ⟨t, ht, hpc, u, hu, by rw [hcore]; rfl, by rw [hcore]; rfl⟩

end SkyEye.ColdFire
