import SkyEye.Sparc.Windows
import SkyEye.Lib.StoreView

/-!
# Runs of the window file

Sequences of `save`, `restore`, trap entry, `rett`, `wrpsr` and register writes, from any
state that the processor reaches. The file that a state holds changes by what is written
and by nothing else, as long as no `wrpsr` moves between the last window and another.
-/

namespace SkyEye.Sparc

open StoreView

namespace SparcState

variable {M : Type} (h : Host M)

/-- The states between two instructions: from a reset on, by executing instructions, taking
traps, setting the PC, and whatever happens in memory and devices. -/
inductive Reachable : SparcState M → Prop where
  | reset (mem : M) : Reachable (staticState mem).iuInitState
  | cycle {s : SparcState M} (i : Instr) : Reachable s → Reachable (s.iuCycleStep h i)
  | trap {s t : SparcState M} : Reachable s → s.iuTrapCycle = some t → Reachable t
  | setPc {s : SparcState M} (addr : Uint32) : Reachable s → Reachable (s.iuSetPc addr)
  | io {s : SparcState M} (mem : M) : Reachable s → Reachable { s with mem := mem }

/-- What happens to the register windows. -/
inductive Event where
  | save (f : Fields)
  | restore (f : Fields)
  | rett (f : Fields)
  | wrpsr (f : Fields)
  | write (rd : RegNo) (v : Uint32)
  | signal (trap : Int)
  | trapCycle

/-- One event; none where the simulator exits. -/
def eventStep (s : SparcState M) : Event → Option (SparcState M)
  | .save f => some (s.iuCycleStep h (.save f))
  | .restore f => some (s.iuCycleStep h (.restore f))
  | .rett f => some (s.iuCycleStep h (.rett f))
  | .wrpsr f => some (s.iuCycleStep h (.wrpsr f))
  | .write rd v => some ((s.setReg rd v).setReg G0 0)
  | .signal trap => some (s.signal trap)
  | .trapCycle => s.iuTrapCycle

def runEvents (s : SparcState M) : List Event → Option (SparcState M)
  | [] => some s
  | e :: es => (s.eventStep h e).bind fun t => t.runEvents es

/-- A write of `v` to register `x` of window `w`; `%g0` takes none. -/
def written (w : Fin nWindows) (x : RegNo) (v : Uint32) : List (ArchReg × Uint32) :=
  if x = 0 then [] else [(archReg w x, v)]

/-- The registers of the architecture that an event writes. -/
def eventWrites (s : SparcState M) : Event → List (ArchReg × Uint32)
  | .save f => if s.invalidWindow s.prevCwp then [] else written (s.window - 1) f.rd (s.address f)
  | .restore f =>
    if s.invalidWindow s.nextCwp then [] else written (s.window + 1) f.rd (s.address f)
  | .write rd v => written s.window rd v
  | .trapCycle =>
    if s.irqPending then written (s.window - 1) 17 s.pc ++ written (s.window - 1) 18 s.npc else []
  | .rett _ | .wrpsr _ | .signal _ => []

/-- The writes of a run, oldest first. -/
def history (s : SparcState M) : List Event → List (ArchReg × Uint32)
  | [] => []
  | e :: es => s.eventWrites e ++ ((s.eventStep h e).map fun t => t.history es).getD []

/-- What `wrpsr` puts in the PSR, before the bits it clears. -/
def wrpsrValue (s : SparcState M) (f : Fields) : Uint32 := s.reg f.rs1 ^^^ s.operand2 f.op2

/-- A `wrpsr` that changes the PSR does not move between the last window and another, unless
the words behind the last window are those of window 0. -/
def EventOk (s : SparcState M) : Event → Prop
  | .wrpsr f =>
    bit s.psr PSR_S = true →
    (bits (s.wrpsrValue f) PSR_CWP_last PSR_CWP_first).toNat < nWindows →
      ((bits (s.wrpsrValue f) PSR_CWP_last PSR_CWP_first).toNat = nWindows - 1 ↔
        s.cwp.toNat = nWindows - 1) ∨ s.BlockCopied
  | _ => True

/-- Every event of a run meets `EventOk` where it happens. -/
def EventsOk (s : SparcState M) : List Event → Prop
  | [] => True
  | e :: es => s.EventOk e ∧ ∀ t, s.eventStep h e = some t → t.EventsOk es

variable {s : SparcState M}

/-! ## Reachable states -/

theorem setReg_g0 (hg : s.global 0 = 0) : s.setReg G0 0 = s := by
  have hu : Function.update s.global 0 0 = s.global := Function.update_eq_self_iff.mpr hg.symm
  change { s with global := Function.update s.global 0 0 } = s
  rw [hu]

theorem global_setReg_g0 (s : SparcState M) : (s.setReg G0 0).global 0 = 0 := by
  change Function.update s.global 0 0 0 = 0
  rw [Function.update_self]

theorem Windowed.cycle (hw : s.Windowed) (i : Instr) : (s.iuCycleStep h i).Windowed :=
  ⟨(hw.toInWindow.execute h i).setReg G0 0, global_setReg_g0 _⟩

theorem iuSubCwp_global_zero (s : SparcState M) : s.iuSubCwp.global 0 = 0 := by
  unfold iuSubCwp
  rw [iuSetCwp_global]
  exact global_setReg_g0 s

theorem iuAddCwp_global_zero (s : SparcState M) : s.iuAddCwp.global 0 = 0 := by
  unfold iuAddCwp
  rw [iuSetCwp_global]
  exact global_setReg_g0 s

theorem Windowed.trap {t : SparcState M} (hw : s.Windowed) (ht : s.iuTrapCycle = some t) :
    t.Windowed := by
  unfold iuTrapCycle at ht
  split at ht
  · obtain ⟨u, hu, rfl⟩ := Option.map_eq_some_iff.mp ht
    obtain ⟨-, rfl⟩ := trigger_eq_some.mp hu
    have hin := ((inWindow_iuSubCwp (s := { s with psr := trapPsr s.psr })).setReg L1 s.pc).setReg
      L2 s.npc
    exact ⟨⟨hin.cwp_lt, hin.regwptr⟩, iuSubCwp_global_zero _⟩
  · rw [← Option.some.inj ht]
    exact hw

theorem Reachable.windowed (hs : Reachable h s) : s.Windowed := by
  induction hs with
  | reset mem =>
    have hc : (staticState mem).iuInitState.cwp = 0 := by
      unfold iuInitState
      rw [setReg_cwp, setReg_cwp]
      exact (by decide : bits (setBit (setBit (setBit (setBit 0 PSR_S) PSR_PS) PSR_ET) PSR_EF)
        PSR_CWP_last PSR_CWP_first = 0)
    refine ⟨⟨by rw [hc]; decide, ?_⟩, rfl⟩
    rw [hc]
    rfl
  | cycle i _ ih => exact ih.cycle h i
  | trap _ ht ih => exact ih.trap ht
  | setPc addr _ ih => exact ⟨⟨ih.cwp_lt, ih.regwptr⟩, ih.g0⟩
  | io mem _ ih => exact ⟨⟨ih.cwp_lt, ih.regwptr⟩, ih.g0⟩

/-! ## One event -/

/-- A file is known from the registers and the `CWP`. -/
theorem windowFile_congr {t : SparcState M} (hg : s.global = t.global)
    (hb : s.regbase = t.regbase) (hc : s.cwp = t.cwp) : s.windowFile = t.windowFile := by
  unfold windowFile window
  rw [hg, hb, hc]

theorem prevCwp_toNat (s : SparcState M) : s.prevCwp.toNat = (s.cwp.toNat + 7) % 8 := by
  have h : s.prevCwp.toNat = (s.cwp - 1).toNat % 2 ^ 3 := Word.toNat_and_low _ 3 (by omega)
  rw [h]
  bv_omega

theorem nextCwp_toNat (s : SparcState M) : s.nextCwp.toNat = (s.cwp.toNat + 1) % 8 := by
  have h : s.nextCwp.toNat = (s.cwp + 1).toNat % 2 ^ 3 := Word.toNat_and_low _ 3 (by omega)
  rw [h]
  bv_omega

theorem window_iuSetCwp {newCwp : Uint32} (hn : newCwp.toNat < nWindows) :
    (s.iuSetCwp newCwp).window.val = newCwp.toNat :=
  (inWindow_iuSetCwp hn).window_val.trans (congrArg BitVec.toNat (iuSetCwp_cwp hn))

theorem window_iuSubCwp (hw : s.InWindow) : s.iuSubCwp.window = s.window - 1 := by
  have hp : (s.setReg G0 0).prevCwp = s.prevCwp := by unfold prevCwp; rw [setReg_cwp]
  have hc := hw.cwp_lt
  apply Fin.ext
  unfold iuSubCwp
  dsimp only
  rw [window_iuSetCwp (prevCwp_lt _), hp, prevCwp_toNat, Fin.sub_def, hw.window_val]
  change _ = (8 - 1 + s.cwp.toNat) % 8
  omega

theorem window_iuAddCwp (hw : s.InWindow) : s.iuAddCwp.window = s.window + 1 := by
  have hp : (s.setReg G0 0).nextCwp = s.nextCwp := by unfold nextCwp; rw [setReg_cwp]
  apply Fin.ext
  unfold iuAddCwp
  dsimp only
  rw [window_iuSetCwp (nextCwp_lt _), hp, nextCwp_toNat, Fin.add_def, hw.window_val]
  rfl

/-- Rotating the windows keeps the file. -/
theorem Windowed.iuSubCwp_windowFile (hw : s.Windowed) : s.iuSubCwp.windowFile = s.windowFile := by
  unfold iuSubCwp
  rw [setReg_g0 hw.g0]
  exact iuSetCwp_windowFile hw.cwp_lt (prevCwp_lt s)

theorem Windowed.iuAddCwp_windowFile (hw : s.Windowed) : s.iuAddCwp.windowFile = s.windowFile := by
  unfold iuAddCwp
  rw [setReg_g0 hw.g0]
  exact iuSetCwp_windowFile hw.cwp_lt (nextCwp_lt s)

/-- A register write with the `%g0` that the cycle clears. -/
theorem InWindow.windowFile_write (hw : s.InWindow) (hg : s.global 0 = 0) (x : RegNo) (v : Uint32) :
    ((s.setReg x v).setReg G0 0).windowFile = replay s.windowFile (written s.window x v) := by
  unfold written
  split
  · subst x
    have hup : (s.setReg G0 v).setReg G0 0 = s.setReg G0 0 := by
      change { s with global := Function.update (Function.update s.global 0 v) 0 0 } =
        { s with global := Function.update s.global 0 0 }
      rw [Function.update_idem]
    exact congrArg windowFile (hup.trans (setReg_g0 hg))
  · rename_i hx
    have hg' : (s.setReg x v).global 0 = 0 := by
      unfold SparcState.setReg
      split
      · exact hg
      · exact (Function.update_of_ne (fun h0 => hx (Fin.ext h0.symm)) ..).trans hg
    rw [setReg_g0 hg']
    exact hw.windowFile_setReg x v

/-- An instruction that ends in a state `u` with the same file writes nothing. -/
theorem windowFile_cycle_of_eq {i : Instr} {u : SparcState M} (hu : s.execute h i = u)
    (hg : u.global 0 = 0) (hf : u.windowFile = s.windowFile) :
    (s.iuCycleStep h i).windowFile = s.windowFile := by
  unfold iuCycleStep
  rw [hu, setReg_g0 hg, hf]

theorem windowFile_signal (s : SparcState M) (trap : Int) :
    (s.signal trap).windowFile = s.windowFile := by
  obtain he | ⟨tbr, he⟩ := s.signal_eq trap <;> rw [he]
  exact windowFile_congr rfl rfl rfl

theorem signal_global (s : SparcState M) (trap : Int) : (s.signal trap).global = s.global := by
  obtain he | ⟨tbr, he⟩ := s.signal_eq trap <;> rw [he]

theorem Windowed.windowFile_cycle_signal (hw : s.Windowed) {i : Instr} {trap : Int}
    (hu : s.execute h i = s.signal trap) : (s.iuCycleStep h i).windowFile = s.windowFile :=
  windowFile_cycle_of_eq h hu ((congrFun (s.signal_global trap) 0).trans hw.g0)
    (s.windowFile_signal trap)

/-- The end of `save` and `restore`: the write happens in the new window. -/
theorem windowFile_rotated {i : Instr} {u : SparcState M} {rd : RegNo} {v : Uint32}
    (hu : s.execute h i = (u.setReg rd v).advance) (hin : u.InWindow) (hg : u.global 0 = 0)
    (hf : u.windowFile = s.windowFile) :
    (s.iuCycleStep h i).windowFile = replay s.windowFile (written u.window rd v) := by
  have hadv : ((u.setReg rd v).advance.setReg G0 0).windowFile =
      ((u.setReg rd v).setReg G0 0).windowFile := windowFile_congr rfl rfl rfl
  unfold iuCycleStep
  rw [hu, hadv, hin.windowFile_write hg, hf]

theorem Windowed.windowFile_save (hw : s.Windowed) (f : Fields) :
    (s.iuCycleStep h (.save f)).windowFile = replay s.windowFile (s.eventWrites (.save f)) := by
  unfold eventWrites
  dsimp only
  by_cases hov : s.invalidWindow s.prevCwp = true
  · rw [if_pos hov]
    exact hw.windowFile_cycle_signal h (if_pos hov)
  · rw [if_neg hov, ← window_iuSubCwp hw.toInWindow]
    exact windowFile_rotated h (if_neg hov) inWindow_iuSubCwp (iuSubCwp_global_zero s)
      hw.iuSubCwp_windowFile

theorem Windowed.windowFile_restore (hw : s.Windowed) (f : Fields) :
    (s.iuCycleStep h (.restore f)).windowFile = replay s.windowFile (s.eventWrites (.restore f)) := by
  unfold eventWrites
  dsimp only
  by_cases hov : s.invalidWindow s.nextCwp = true
  · rw [if_pos hov]
    exact hw.windowFile_cycle_signal h (if_pos hov)
  · rw [if_neg hov, ← window_iuAddCwp hw.toInWindow]
    exact windowFile_rotated h (if_neg hov) inWindow_iuAddCwp (iuAddCwp_global_zero s)
      hw.iuAddCwp_windowFile

/-- `rett` rotates the windows and changes no bit of the `CWP` after that. -/
theorem Windowed.windowFile_rett (hw : s.Windowed) (f : Fields) :
    (s.iuCycleStep h (.rett f)).windowFile = s.windowFile := by
  have hcases : (∃ trap, s.iRett f = s.signal trap) ∨ s.iRett f = s.rettTo (s.address f) := by
    unfold iRett
    dsimp only
    repeat' split
    all_goals first | exact .inl ⟨_, rfl⟩ | exact .inr rfl
  rcases hcases with ⟨trap, hu⟩ | hu
  · exact hw.windowFile_cycle_signal h hu
  · refine windowFile_cycle_of_eq h hu s.iuAddCwp_global_zero ?_
    have hf : (s.rettTo (s.address f)).windowFile = s.iuAddCwp.windowFile :=
      windowFile_congr rfl rfl (s.rettTo_cwp _)
    exact hf.trans hw.iuAddCwp_windowFile

theorem wrpsr_cases (s : SparcState M) (f : Fields) :
    (∃ trap, s.iWrpsr f = s.signal trap) ∨
      bit s.psr PSR_S = true ∧
      (bits (s.wrpsrValue f) PSR_CWP_last PSR_CWP_first).toNat < nWindows ∧
      s.iWrpsr f = (s.setPsr (s.wrpsrValue f)).advance := by
  unfold iWrpsr privileged
  dsimp only
  by_cases hS : bit s.psr PSR_S = true
  · by_cases hn : (bits (s.wrpsrValue f) PSR_CWP_last PSR_CWP_first).toNat ≥ nWindows
    · exact .inl ⟨ILLEGAL_INSTR, (if_pos hS).trans (if_pos hn)⟩
    · exact .inr ⟨hS, Nat.lt_of_not_le hn, (if_pos hS).trans (if_neg hn)⟩
  · exact .inl ⟨PRIVILEGED_INSTR, if_neg hS⟩

/-- A new PSR leaves the file as it was exactly where its `CWP` is no move between the last
window and another, or the words behind the last window are those of window 0. -/
theorem Windowed.setPsr_windowFile_iff (hw : s.Windowed) {value : Uint32}
    (hn : (bits value PSR_CWP_last PSR_CWP_first).toNat < nWindows) :
    (s.setPsr value).windowFile = s.windowFile ↔
      ((bits value PSR_CWP_last PSR_CWP_first).toNat = nWindows - 1 ↔
        s.cwp.toNat = nWindows - 1) ∨ s.BlockCopied := by
  have hbits : bits (clearBits (clearBits value PSR_reserved_last PSR_reserved_first)
      PSR_impl_last PSR_ver_first) PSR_CWP_last PSR_CWP_first =
        bits value PSR_CWP_last PSR_CWP_first := by
    rw [bits_cwp_clearBits (by decide) (by decide) (by decide),
      bits_cwp_clearBits (by decide) (by decide) (by decide)]
  have hn' := hn
  rw [← hbits] at hn'
  have hset := iuSetCwp_windowFile (s := { s with
    psr := clearBits (clearBits value PSR_reserved_last PSR_reserved_first) PSR_impl_last
      PSR_ver_first }) hn' hn
  unfold setPsr
  dsimp only
  rw [hset, windowFile_setPsr_iff hw.cwp_lt hn', hbits]

theorem Windowed.windowFile_wrpsr (hw : s.Windowed) {f : Fields} (hok : s.EventOk (.wrpsr f)) :
    (s.iuCycleStep h (.wrpsr f)).windowFile = s.windowFile := by
  rcases s.wrpsr_cases f with ⟨trap, hu⟩ | ⟨hS, hn, hu⟩
  · exact hw.windowFile_cycle_signal h hu
  · have hg : (s.setPsr (s.wrpsrValue f)).advance.global 0 = 0 := by
      unfold setPsr
      exact (congrFun (iuSetCwp_global _) 0).trans hw.g0
    have hadv : (s.setPsr (s.wrpsrValue f)).advance.windowFile =
        (s.setPsr (s.wrpsrValue f)).windowFile := windowFile_congr rfl rfl rfl
    refine windowFile_cycle_of_eq h hu hg ?_
    exact hadv.trans ((hw.setPsr_windowFile_iff hn).mpr (hok hS hn))

theorem Windowed.windowFile_trigger {t : SparcState M} (hw : s.Windowed)
    (ht : s.trigger = some t) :
    t.windowFile = replay s.windowFile
      (written (s.window - 1) 17 s.pc ++ written (s.window - 1) 18 s.npc) := by
  obtain ⟨-, rfl⟩ := trigger_eq_some.mp ht
  have hcwp : { s with psr := trapPsr s.psr }.cwp = s.cwp := bits_cwp_trapPsr s.psr
  have hw' : { s with psr := trapPsr s.psr }.Windowed :=
    ⟨⟨by rw [hcwp]; exact hw.cwp_lt, by rw [hcwp]; exact hw.regwptr⟩, hw.g0⟩
  have hin : s.enterTrap.InWindow := inWindow_iuSubCwp
  have hwin : s.enterTrap.window = s.window - 1 := by
    have hwin' : { s with psr := trapPsr s.psr }.window = s.window := by unfold window; rw [hcwp]
    rw [← hwin']
    exact window_iuSubCwp hw'.toInWindow
  have hfile : s.enterTrap.windowFile = s.windowFile :=
    hw'.iuSubCwp_windowFile.trans (windowFile_congr rfl rfl hcwp)
  have h1 := hin.windowFile_setReg 17 s.pc
  have h2 := (hin.setReg L1 s.pc).windowFile_setReg 18 s.npc
  rw [setReg_window, hwin] at h2
  rw [hwin, hfile] at h1
  have hgoto : (((s.enterTrap.setReg L1 s.pc).setReg L2 s.npc).goto s.tbr
      (s.tbr + 4)).windowFile = ((s.enterTrap.setReg L1 s.pc).setReg L2 s.npc).windowFile :=
    windowFile_congr rfl rfl rfl
  have hreplay : replay s.windowFile
      (written (s.window - 1) 17 s.pc ++ written (s.window - 1) 18 s.npc) =
      Function.update (Function.update s.windowFile (archReg (s.window - 1) 17) s.pc)
        (archReg (s.window - 1) 18) s.npc := rfl
  rw [hgoto, hreplay, ← h1]
  exact h2

theorem Windowed.windowFile_trap {t : SparcState M} (hw : s.Windowed)
    (ht : s.iuTrapCycle = some t) :
    t.windowFile = replay s.windowFile (s.eventWrites .trapCycle) := by
  unfold iuTrapCycle at ht
  unfold eventWrites
  dsimp only
  split at ht
  · rename_i hp
    obtain ⟨u, hu, rfl⟩ := Option.map_eq_some_iff.mp ht
    rw [if_pos hp, ← hw.windowFile_trigger hu]
    exact windowFile_congr rfl rfl rfl
  · rename_i hp
    rw [if_neg hp, ← Option.some.inj ht, replay_nil]

theorem Windowed.step {t : SparcState M} (hw : s.Windowed) {e : Event} (hok : s.EventOk e)
    (ht : s.eventStep h e = some t) :
    t.Windowed ∧ t.windowFile = replay s.windowFile (s.eventWrites e) := by
  cases e with
  | save f => cases ht; exact ⟨hw.cycle h _, hw.windowFile_save h f⟩
  | restore f => cases ht; exact ⟨hw.cycle h _, hw.windowFile_restore h f⟩
  | rett f => cases ht; exact ⟨hw.cycle h _, hw.windowFile_rett h f⟩
  | wrpsr f => cases ht; exact ⟨hw.cycle h _, hw.windowFile_wrpsr h hok⟩
  | write rd v =>
    cases ht
    exact ⟨⟨(hw.toInWindow.setReg rd v).setReg G0 0, global_setReg_g0 _⟩,
      hw.toInWindow.windowFile_write hw.g0 rd v⟩
  | signal trap =>
    cases ht
    exact ⟨⟨hw.toInWindow.signal trap, (congrFun (s.signal_global trap) 0).trans hw.g0⟩,
      s.windowFile_signal trap⟩
  | trapCycle => exact ⟨hw.trap ht, hw.windowFile_trap ht⟩

/-- After a run the file is the old one with the run's writes replayed. -/
theorem Windowed.run {t : SparcState M} {es : List Event} (hw : s.Windowed)
    (hok : s.EventsOk h es) (hrun : s.runEvents h es = some t) :
    t.Windowed ∧ t.windowFile = replay s.windowFile (s.history h es) := by
  induction es generalizing s with
  | nil => cases hrun; exact ⟨hw, rfl⟩
  | cons e es ih =>
    obtain ⟨u, hu, hrun⟩ := Option.bind_eq_some_iff.mp hrun
    obtain ⟨hwu, hfu⟩ := hw.step h hok.1 hu
    obtain ⟨hwt, hft⟩ := ih hwu (hok.2 u hu) hrun
    refine ⟨hwt, ?_⟩
    rw [hft, hfu, history, hu, replay_append]
    rfl

end SparcState

open SparcState in
/-- Whatever the processor does before and whatever happens to the windows then, a register
reads as the last value written to the register of the architecture that it names, as long
as no `wrpsr` moves between the last window and another one. -/
theorem windows_read_last_write {M : Type} (h : Host M) {s t : SparcState M} {es : List Event}
    (hs : Reachable h s) (hok : s.EventsOk h es) (hrun : s.runEvents h es = some t) (x : RegNo) :
    t.reg x = lastWrite (fun w => w.1 = archReg t.window x) Prod.snd
      (s.windowFile (archReg t.window x)) (s.history h es) := by
  obtain ⟨hw, hf⟩ := (hs.windowed h).run h hok hrun
  rw [hw.toInWindow.reg, hf, replay_apply]

/-- `%o0` of window 0, written before a `save` to the last window and again as `%i0` there. -/
theorem windows_read_last_write_wrap :
    let es : List SparcState.Event :=
      [.wrpsr ⟨0, 0, .simm13 0xA0⟩, .write 8 5, .save ⟨0, 0, .simm13 0⟩, .write 25 6,
        .restore ⟨0, 0, .simm13 0⟩]
    let t := (resetState.runEvents bareHost es).getD resetState
    t.reg 8 = 5 ∧ t.reg 9 = 6 := by
  intro es t
  have hok : resetState.EventsOk bareHost es :=
    ⟨fun _ _ => .inl (by decide), fun _ _ => ⟨trivial, fun _ _ => ⟨trivial, fun _ _ =>
      ⟨trivial, fun _ _ => ⟨trivial, fun _ _ => trivial⟩⟩⟩⟩⟩
  have hrun : resetState.runEvents bareHost es = some t := rfl
  have hread := windows_read_last_write bareHost (.reset ()) hok hrun
  exact ⟨(hread 8).trans (by decide), (hread 9).trans (by decide)⟩

/-- `wrpsr` from window 0 to the last window: the `%i0` there is not the `%o0` just written. -/
theorem wrpsr_loses_outs :
    ¬∀ (s t : SparcState Unit) (es : List SparcState.Event), s.Reachable bareHost →
      s.runEvents bareHost es = some t → ∀ x : RegNo,
      t.reg x = lastWrite (fun w => w.1 = archReg t.window x) Prod.snd
        (s.windowFile (archReg t.window x)) (s.history bareHost es) := by
  intro hall
  let es : List SparcState.Event := [.write 8 5, .wrpsr ⟨0, 0, .simm13 0xA7⟩]
  have hread := hall resetState ((resetState.runEvents bareHost es).getD resetState) es
    (.reset ()) rfl 24
  exact absurd hread (by decide)

end SkyEye.Sparc
