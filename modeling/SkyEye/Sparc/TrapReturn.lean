import SkyEye.Sparc.Rotation
import SkyEye.Sparc.Precise

/-!
# Trap entry and return

A trap followed by `jmpl %l1, %g0` and `rett %l2` comes back to where it was taken, with
the registers, the `CWP` and the condition codes of before. What it leaves behind is the
TBR, `PS`, and `%l1` and `%l2` of the handler's window.
-/

namespace SkyEye.Sparc

open StoreView

/-- The `tt` of a trap: the table's for the numbers that it has, the number for others. -/
def trapType (trap : Int) : BitVec 8 :=
  match SparcState.ttTable[trap.toNat]? with
  | some tt => BitVec.ofNat 8 tt
  | none => BitVec.ofInt 8 trap

namespace SparcState

variable {M : Type} (h : Host M) {s t : SparcState M}

/-! ## The trap base register -/

/-- Bit `i` of the TBR with a new `tt`. -/
theorem getLsbD_tbrSetTt (s : SparcState M) (tt : BitVec 16) {i : Nat} (hi : i < 32) :
    (s.tbrSetTt tt).tbr.getLsbD i =
      if 12 ≤ i then s.tbr.getLsbD i else decide (4 ≤ i) && tt.getLsbD (i - 4) := by
  have hbase : TBR_BASE_MASK = bitsmask 31 12 := by decide
  have htt : TBR_TT_MASK = bitsmask 11 4 := by decide
  unfold tbrSetTt
  dsimp only
  rw [hbase, htt]
  simp only [BitVec.getLsbD_or, BitVec.getLsbD_and, BitVec.getLsbD_shiftLeft,
    BitVec.getLsbD_setWidth, getLsbD_bitsmask (n := 31) (m := 12) (by omega) (by omega),
    getLsbD_bitsmask (n := 11) (m := 4) (by omega) (by omega)]
  by_cases h12 : 12 ≤ i
  · have h31 : i ≤ 31 := by omega
    have h11 : ¬i ≤ 11 := by omega
    simp [h12, h31, h11]
  · have h11 : i ≤ 11 := by omega
    have h4 : i < 4 ↔ ¬4 ≤ i := by omega
    have h32 : i - 4 < 32 := by omega
    by_cases h : 4 ≤ i <;> simp [h12, h11, h4, h, hi, h32]

theorem tbrSetTt_base (s : SparcState M) (tt : BitVec 16) :
    (s.tbrSetTt tt).tbr &&& TBR_BASE_MASK = s.tbr &&& TBR_BASE_MASK := by
  have hbase : TBR_BASE_MASK = bitsmask 31 12 := by decide
  apply BitVec.eq_of_getLsbD_eq
  intro i hi
  rw [BitVec.getLsbD_and, BitVec.getLsbD_and, getLsbD_tbrSetTt s tt hi, hbase,
    getLsbD_bitsmask (by omega) (by omega)]
  by_cases h12 : 12 ≤ i <;> simp [h12]

theorem tbrSetTt_tt (s : SparcState M) (tt : BitVec 16) :
    bits (s.tbrSetTt tt).tbr 11 4 = (tt.setWidth 8).setWidth 32 := by
  apply BitVec.eq_of_getLsbD_eq
  intro i hi
  rw [getLsbD_bits (by omega) (by omega), BitVec.getLsbD_setWidth, BitVec.getLsbD_setWidth]
  by_cases h8 : i < 8
  · have h12 : ¬12 ≤ 4 + i := by omega
    have h11 : 4 + i ≤ 11 := by omega
    rw [getLsbD_tbrSetTt s tt (by omega), if_neg h12, Nat.add_sub_cancel_left]
    simp [h8, hi, h11]
  · have h11 : ¬4 + i ≤ 11 := by omega
    simp [h8, h11]

theorem signal_eq_of_nonneg (s : SparcState M) {trap : Int} (ht : 0 ≤ trap) :
    ∃ tt : BitVec 16, tt.setWidth 8 = trapType trap ∧
      s.signal trap = { s with tbr := (s.tbrSetTt tt).tbr, irqPending := true } := by
  obtain ⟨n, rfl⟩ := Int.eq_ofNat_of_zero_le ht
  unfold signal trapType
  rw [if_neg (by omega), BitVec.ofInt_natCast, BitVec.ofInt_natCast]
  cases ttTable[(n : Int).toNat]? with
  | none => exact ⟨BitVec.ofNat 16 n, BitVec.setWidth_ofNat_of_le (by omega) n, rfl⟩
  | some tt => exact ⟨BitVec.ofNat 16 tt, BitVec.setWidth_ofNat_of_le (by omega) tt, rfl⟩

/-! ## The handler's state -/

theorem bit_trapPsr (psr : Uint32) (i : Nat) :
    bit (trapPsr psr) i =
      if i = PSR_S then true else if i = PSR_PS then bit psr PSR_S
      else if i = PSR_ET then false else bit psr i := by
  have hs : bit (clearBit psr PSR_ET) PSR_S = bit psr PSR_S := by
    rw [bit_clearBit (by decide)]
    exact Bool.and_true _
  unfold trapPsr
  dsimp only
  rw [bit_setBit (by decide), hs]
  by_cases h1 : i = PSR_S
  · rw [if_pos h1, decide_eq_true h1, Bool.or_true]
  · rw [if_neg h1, decide_eq_false h1, Bool.or_false]
    by_cases h2 : i = PSR_PS
    · rw [if_pos h2]
      cases bit psr PSR_S with
      | true => rw [if_pos rfl, bit_setBit (by decide), decide_eq_true h2, Bool.or_true]
      | false =>
        rw [if_neg (by decide), bit_clearBit (by decide), decide_eq_true h2, Bool.not_true,
          Bool.and_false]
    · rw [if_neg h2]
      have hps : ∀ c : Bool, bit (if c then setBit (clearBit psr PSR_ET) PSR_PS
          else clearBit (clearBit psr PSR_ET) PSR_PS) i = bit (clearBit psr PSR_ET) i := by
        intro c
        cases c with
        | true => exact (bit_setBit (by decide) _ i).trans (by rw [decide_eq_false h2, Bool.or_false])
        | false =>
          exact (bit_clearBit (by decide) _ i).trans
            (by rw [decide_eq_false h2, Bool.not_false, Bool.and_true])
      rw [hps, bit_clearBit (by decide)]
      by_cases h3 : i = PSR_ET <;> simp [h3]

/-- What a handler finds: the PSR, the program counters of the trap in `%l1` and `%l2`. -/
structure Handler (s t : SparcState M) : Prop where
  windowed : t.Windowed
  psr : ∀ i, PSR_CWP_last < i → bit t.psr i = bit (trapPsr s.psr) i
  cwp : t.cwp = s.prevCwp
  wim : t.wim = s.wim
  l1 : t.reg L1 = s.pc
  l2 : t.reg L2 = s.npc
  file : t.windowFile = replay s.windowFile
    (written (s.window - 1) 17 s.pc ++ written (s.window - 1) 18 s.npc)

theorem iuSubCwp_cwp (s : SparcState M) : s.iuSubCwp.cwp = s.prevCwp := by
  have hp : (s.setReg G0 0).prevCwp = s.prevCwp := by unfold prevCwp; rw [setReg_cwp]
  unfold iuSubCwp
  dsimp only
  rw [iuSetCwp_cwp (prevCwp_lt _), hp]

theorem iuAddCwp_cwp (s : SparcState M) : s.iuAddCwp.cwp = s.nextCwp := by
  have hp : (s.setReg G0 0).nextCwp = s.nextCwp := by unfold nextCwp; rw [setReg_cwp]
  unfold iuAddCwp
  dsimp only
  rw [iuSetCwp_cwp (nextCwp_lt _), hp]

theorem iuSetCwp_wim (s : SparcState M) (newCwp : Uint32) : (s.iuSetCwp newCwp).wim = s.wim := by
  unfold iuSetCwp; dsimp only; split <;> split <;> rfl

theorem trigger_tbr (ht : s.trigger = some t) : t.tbr = s.tbr := by
  obtain ⟨-, rfl⟩ := trigger_eq_some.mp ht
  change ((s.enterTrap.setReg L1 s.pc).setReg L2 s.npc).tbr = s.tbr
  rw [setReg_tbr, setReg_tbr]
  unfold enterTrap iuSubCwp
  dsimp only
  rw [iuSetCwp_tbr, setReg_tbr]

theorem Windowed.handler (hw : s.Windowed) (ht : s.trigger = some t) : Handler s t := by
  have hsaved := trigger_saves ht
  have hfile := hw.windowFile_trigger ht
  obtain ⟨-, rfl⟩ := trigger_eq_some.mp ht
  have hcwp : { s with psr := trapPsr s.psr }.prevCwp = s.prevCwp :=
    congrArg (fun c : Uint32 => (c - 1) &&& 7) (bits_cwp_trapPsr s.psr)
  have hin := ((inWindow_iuSubCwp (s := { s with psr := trapPsr s.psr })).setReg L1 s.pc).setReg
    L2 s.npc
  refine ⟨⟨⟨hin.cwp_lt, hin.regwptr⟩, iuSubCwp_global_zero _⟩, fun i hi => ?_, ?_, ?_,
    hsaved.1, hsaved.2, hfile⟩
  · change bit ((s.enterTrap.setReg L1 s.pc).setReg L2 s.npc).psr i = _
    rw [setReg_psr, setReg_psr]
    unfold enterTrap iuSubCwp
    dsimp only
    rw [bit_iuSetCwp (prevCwp_lt _) hi, setReg_psr]
  · change ((s.enterTrap.setReg L1 s.pc).setReg L2 s.npc).cwp = _
    rw [setReg_cwp, setReg_cwp]
    exact (iuSubCwp_cwp _).trans hcwp
  · change ((s.enterTrap.setReg L1 s.pc).setReg L2 s.npc).wim = _
    rw [setReg_wim, setReg_wim]
    unfold enterTrap iuSubCwp
    dsimp only
    rw [iuSetCwp_wim, setReg_wim]

/-! ## The way back -/

theorem address_zero (hg : t.global 0 = 0) {o : Operand} (ho : o = .reg 0 ∨ o = .simm13 0)
    (rd rs1 : RegNo) : t.address ⟨rd, rs1, o⟩ = t.reg rs1 := by
  have hz : t.operand2 o = 0 := by
    rcases ho with rfl | rfl
    · exact hg
    · rfl
  unfold address
  rw [hz]
  exact BitVec.add_zero _

/-- `jmpl` that keeps no return address. -/
theorem Windowed.cycle_jmpl (hw : t.Windowed) {rs1 : RegNo} {o : Operand} {daddr : Uint32}
    (ha : t.address ⟨0, rs1, o⟩ = daddr) (hal : daddr &&& 3 = 0) :
    t.iuCycleStep h (.jmpl ⟨0, rs1, o⟩) = t.goto t.npc daddr := by
  have hu : Function.update (Function.update t.global 0 t.pc) 0 0 = t.global := by
    rw [Function.update_idem]
    exact Function.update_eq_self_iff.mpr hw.g0.symm
  have hj : t.execute h (.jmpl ⟨0, rs1, o⟩) =
      { t with global := Function.update t.global 0 t.pc, pc := t.npc, npc := daddr } := by
    change (if t.address ⟨0, rs1, o⟩ &&& 3 ≠ 0 then _ else _) = _
    rw [ha, if_neg (fun hc => hc hal)]
    rfl
  unfold iuCycleStep
  rw [hj]
  change { t with
    global := Function.update (Function.update t.global 0 t.pc) 0 0, pc := t.npc, npc := daddr } = _
  rw [hu]
  rfl

theorem cycle_rett {f : Fields} {daddr : Uint32} (ha : t.address f = daddr)
    (het : bit t.psr PSR_ET = false) (hS : bit t.psr PSR_S = true)
    (hwim : t.invalidWindow t.nextCwp = false) (hal : daddr &&& 3 = 0) :
    t.iuCycleStep h (.rett f) = t.rettTo daddr := by
  have hr : t.execute h (.rett f) = t.rettTo daddr := by
    change t.iRett f = _
    unfold iRett
    dsimp only
    rw [het, hS, hwim, ha, if_neg (by decide), if_neg (by decide), if_neg (by decide),
      if_neg (by decide), if_neg (fun hc => hc hal)]
  unfold iuCycleStep
  rw [hr]
  exact setReg_g0 t.iuAddCwp_global_zero

theorem bit_rettTo (s : SparcState M) (daddr : Uint32) {i : Nat} (hi : PSR_CWP_last < i) :
    bit (s.rettTo daddr).psr i =
      if i = PSR_ET then true else if i = PSR_S then bit s.psr PSR_PS else bit s.psr i := by
  have hp : ∀ {j}, PSR_CWP_last < j → bit s.iuAddCwp.psr j = bit s.psr j := fun hj =>
    (bit_iuSetCwp (nextCwp_lt _) hj).trans (by rw [setReg_psr])
  have hS : ∀ c : Bool, bit (if c then setBit s.iuAddCwp.psr PSR_S
      else clearBit s.iuAddCwp.psr PSR_S) i = if i = PSR_S then c else bit s.psr i := by
    intro c
    rw [← hp hi]
    cases c with
    | true =>
      refine (bit_setBit (by decide) _ i).trans ?_
      by_cases h : i = PSR_S <;> simp [h]
    | false =>
      refine (bit_clearBit (by decide) _ i).trans ?_
      by_cases h : i = PSR_S <;> simp [h]
  refine (bit_setBit (by decide) _ i).trans ?_
  rw [← hp (by decide : PSR_CWP_last < PSR_PS)]
  by_cases h : i = PSR_ET
  · rw [decide_eq_true h, Bool.or_true, if_pos h]
  · rw [decide_eq_false h, Bool.or_false, if_neg h]
    exact hS _

/-- The context of `s` is back in `u`: the program counters, the PSR but for `PS` (with `S`,
`ET`, the condition codes and the `CWP`), and the registers in sight. -/
structure Restored (s u : SparcState M) : Prop where
  pc : u.pc = s.pc
  npc : u.npc = s.npc
  psr : ∀ i, PSR_CWP_last < i → i ≠ PSR_PS → bit u.psr i = bit s.psr i
  cwp : u.cwp = s.cwp
  reg : ∀ x : RegNo, u.reg x = s.reg x

theorem Handler.nextCwp (ht : Handler s t) (hw : s.Windowed) : t.nextCwp = s.cwp := by
  apply BitVec.eq_of_toNat_eq
  have hc := hw.cwp_lt
  rw [nextCwp_toNat, ht.cwp, prevCwp_toNat]
  change s.cwp.toNat < 8 at hc
  omega

theorem archReg_eq_loc {w v : Fin nWindows} {x : RegNo} {i : Fin 8}
    (he : archReg w x = .loc v i) : v = w := by
  unfold archReg at he
  split at he
  · cases he
  · split at he
    · cases he
    · split at he <;> cases he
      rfl

/-- The registers of the trapped window are none of those that the trap writes. -/
theorem Handler.file_archReg (ht : Handler s t) (x : RegNo) :
    t.windowFile (archReg s.window x) = s.windowFile (archReg s.window x) := by
  have hne : ∀ w : Fin nWindows, w - 1 ≠ w := by decide
  have hloc : ∀ i, archReg s.window x ≠ .loc (s.window - 1) i :=
    fun i he => hne _ (archReg_eq_loc he)
  rw [ht.file]
  refine replay_of_notMem fun hmem => ?_
  rcases List.mem_cons.mp hmem with he | hmem
  · exact hloc 1 he
  · exact hloc 2 (List.mem_singleton.mp hmem)

theorem Handler.cycle_jmpl (ht : Handler s t) {o : Operand} (ho : o = .reg 0 ∨ o = .simm13 0)
    (hpc : s.pc &&& 3 = 0) : t.iuCycleStep h (.jmpl ⟨0, 17, o⟩) = t.goto t.npc s.pc :=
  ht.windowed.cycle_jmpl h ((address_zero ht.windowed.g0 ho 0 17).trans ht.l1) hpc

theorem Handler.cycle_rett (ht : Handler s t) (hw : s.Windowed)
    (hwim : s.invalidWindow s.cwp = false) {o : Operand} (ho : o = .reg 0 ∨ o = .simm13 0)
    (hnpc : s.npc &&& 3 = 0) :
    (t.goto t.npc s.pc).iuCycleStep h (.rett ⟨0, 18, o⟩) = (t.goto t.npc s.pc).rettTo s.npc := by
  have hET : bit t.psr PSR_ET = false := by
    rw [ht.psr _ (by decide), bit_trapPsr, if_neg (by decide), if_neg (by decide), if_pos rfl]
  have hS : bit t.psr PSR_S = true := by
    rw [ht.psr _ (by decide), bit_trapPsr, if_pos rfl]
  have hvalid : t.invalidWindow t.nextCwp = false := by
    unfold invalidWindow
    rw [ht.nextCwp hw, ht.wim]
    exact hwim
  have ha : (t.goto t.npc s.pc).address ⟨0, 18, o⟩ = s.npc :=
    (address_zero ht.windowed.g0 ho 0 18).trans ht.l2
  exact SparcState.cycle_rett h ha hET hS hvalid hnpc

theorem Handler.restored (ht : Handler s t) (hw : s.Windowed) (het : bit s.psr PSR_ET = true) :
    Restored s ((t.goto t.npc s.pc).rettTo s.npc) := by
  have hcwp : ((t.goto t.npc s.pc).rettTo s.npc).cwp = s.cwp :=
    (rettTo_cwp _ _).trans ((iuAddCwp_cwp _).trans (ht.nextCwp hw))
  have hin := inWindow_rettTo (t.goto t.npc s.pc) s.npc
  have hwin : ((t.goto t.npc s.pc).rettTo s.npc).window = s.window := by
    unfold window
    rw [hcwp]
  have hwt : (t.goto t.npc s.pc).Windowed :=
    ⟨⟨ht.windowed.cwp_lt, ht.windowed.regwptr⟩, ht.windowed.g0⟩
  have hfile : ((t.goto t.npc s.pc).rettTo s.npc).windowFile = t.windowFile := by
    have h1 : ((t.goto t.npc s.pc).rettTo s.npc).windowFile =
        (t.goto t.npc s.pc).iuAddCwp.windowFile := windowFile_congr rfl rfl (rettTo_cwp _ _)
    have h2 : (t.goto t.npc s.pc).windowFile = t.windowFile := windowFile_congr rfl rfl rfl
    rw [h1, hwt.iuAddCwp_windowFile, h2]
  refine ⟨?_, rfl, fun i hi hps => ?_, hcwp, fun x => ?_⟩
  · change (t.goto t.npc s.pc).iuAddCwp.npc = s.pc
    unfold iuAddCwp
    dsimp only
    rw [iuSetCwp_npc, setReg_npc]
    rfl
  · have hpsr : ∀ {j}, PSR_CWP_last < j → bit (t.goto t.npc s.pc).psr j = bit (trapPsr s.psr) j :=
      fun hj => ht.psr _ hj
    rw [bit_rettTo _ _ hi, hpsr hi, hpsr (by decide), bit_trapPsr, bit_trapPsr]
    by_cases h1 : i = PSR_ET
    · rw [if_pos h1, h1, het]
    · rw [if_neg h1]
      by_cases h2 : i = PSR_S
      · rw [if_pos h2, if_neg (by omega), if_pos rfl, h2]
      · rw [if_neg h2, if_neg h2, if_neg hps, if_neg h1]
  · rw [hin.reg, hwin, hfile, ht.file_archReg, ← hw.toInWindow.reg]

end SparcState

open SparcState in
/-- A trap and the return from it bring back what the trap found, and the TBR has its type. -/
theorem trap_return_restores {M : Type} (h : Host M) {s : SparcState M} (hw : s.Windowed)
    (het : bit s.psr PSR_ET = true) (hpc : s.pc &&& 3 = 0) (hnpc : s.npc &&& 3 = 0)
    (hwim : s.invalidWindow s.cwp = false) {trap : Int} (htrap : 0 ≤ trap) {o o' : Operand}
    (ho : o = .reg 0 ∨ o = .simm13 0) (ho' : o' = .reg 0 ∨ o' = .simm13 0) :
    ∃ t, (s.signal trap).iuTrapCycle = some t ∧
      bits t.tbr 11 4 = (trapType trap).setWidth 32 ∧
      t.tbr &&& TBR_BASE_MASK = s.tbr &&& TBR_BASE_MASK ∧
      Restored s ((t.iuCycleStep h (.jmpl ⟨0, 17, o⟩)).iuCycleStep h (.rett ⟨0, 18, o'⟩)) := by
  obtain ⟨tt, htt, hs⟩ := s.signal_eq_of_nonneg htrap
  have hws : (s.signal trap).Windowed := by
    rw [hs]
    exact ⟨⟨hw.cwp_lt, hw.regwptr⟩, hw.g0⟩
  obtain ⟨u, hu⟩ : ∃ u, (s.signal trap).trigger = some u := by
    refine ⟨_, trigger_eq_some.mpr ⟨?_, rfl⟩⟩
    rw [hs]
    exact het
  have hh := hws.handler hu
  have htbr : u.tbr = (s.tbrSetTt tt).tbr := (trigger_tbr hu).trans (by rw [hs])
  rw [hs] at hh
  have ht : Handler s { u with irqPending := false } :=
    ⟨⟨⟨hh.windowed.cwp_lt, hh.windowed.regwptr⟩, hh.windowed.g0⟩, hh.psr, hh.cwp, hh.wim, hh.l1,
      hh.l2, hh.file⟩
  refine ⟨{ u with irqPending := false }, ?_, ?_, ?_, ?_⟩
  · have hp : (s.signal trap).irqPending = true := by rw [hs]
    rw [iuTrapCycle, if_pos hp, hu]
    rfl
  · rw [← htt, ← tbrSetTt_tt s tt]
    exact congrArg (bits · 11 4) htbr
  · rw [← tbrSetTt_base s tt]
    exact congrArg (· &&& TBR_BASE_MASK) htbr
  · rw [ht.cycle_jmpl h ho hpc, ht.cycle_rett h hw hwim ho' hnpc]
    exact ht.restored hw het

/-- `ta 3` in window 0, whose handler runs in the last window. -/
theorem trap_return_restores_wrap : ∃ t, (resetState.signal 131).iuTrapCycle = some t ∧
    SparcState.Restored resetState ((t.iuCycleStep bareHost (.jmpl ⟨0, 17, .reg 0⟩)).iuCycleStep
      bareHost (.rett ⟨0, 18, .simm13 0⟩)) := by
  obtain ⟨t, ht, -, -, hr⟩ := trap_return_restores bareHost
    ((SparcState.Reachable.reset ()).windowed bareHost) (by decide : bit resetState.psr PSR_ET = true)
    (by decide) (by decide) (by decide) (by decide : (0 : Int) ≤ 131) (.inl rfl) (.inr rfl)
  exact ⟨t, ht, hr⟩

end SkyEye.Sparc
