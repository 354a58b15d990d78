import SkyEye.Sparc.Frame
import SkyEye.Lib.Word

/-!
# The circular window file

The registers of the architecture, which register `x` names in which window, and the file
that a state holds: where each register of each window is kept while the current window
is in sight. Register writes and `iu_set_cwp` act on that file as they should, provided
the PSR still has the window that is left; `wrpsr` has changed it before.
-/

namespace SkyEye.Sparc

/-- A register of the architecture: a global, or an out or local of a window. -/
inductive ArchReg where
  | glob (i : Fin 8)
  | out (w : Fin nWindows) (i : Fin 8)
  | loc (w : Fin nWindows) (i : Fin 8)
  deriving DecidableEq

/-- The register that `x` is in window `w`. The ins of `w` are the outs of the next window. -/
def archReg (w : Fin nWindows) (x : RegNo) : ArchReg :=
  if h : x.val < 8 then .glob ⟨x, h⟩
  else if h : x.val < 16 then .out w ⟨x - 8, by omega⟩
  else if h : x.val < 24 then .loc w ⟨x - 16, by omega⟩
  else .out (w + 1) ⟨x - 24, by omega⟩

/-- Where a register is kept: in `global` or in `regbase`. While the last window is in
sight, the outs of window 0 are the words behind it. -/
def place (w : Fin nWindows) : ArchReg → Nat ⊕ Nat
  | .glob i => .inl i
  | .out v i => .inr (if v = 0 ∧ w = Fin.last 7 then nWindows * 16 + i else v * 16 + i)
  | .loc v i => .inr (v * 16 + 8 + i)

theorem place_injective (w : Fin nWindows) : Function.Injective (place w) := by
  intro a b hab
  have hN : nWindows * 16 = 128 := rfl
  cases a <;> cases b <;> simp only [place, hN, Sum.inl.injEq, Sum.inr.injEq, reduceCtorEq] at hab
  case glob.glob i j => rw [Fin.ext hab]
  case out.out v i u j =>
    have hv := v.isLt
    have hu := u.isLt
    have hvu : v.val = u.val ∧ i.val = j.val := by split at hab <;> split at hab <;> grind
    rw [Fin.ext hvu.1, Fin.ext hvu.2]
  case out.loc v i u j =>
    have hu := u.isLt
    split at hab <;> omega
  case loc.out v i u j =>
    have hv := v.isLt
    split at hab <;> omega
  case loc.loc v i u j =>
    have hvu : v.val = u.val ∧ i.val = j.val := by omega
    rw [Fin.ext hvu.1, Fin.ext hvu.2]

/-- `REG(x)` is kept where `regwptr` points. -/
theorem place_archReg (w : Fin nWindows) (x : RegNo) :
    place w (archReg w x) = if x.val > 7 then .inr (w * 16 + (x - 8)) else .inl x.val := by
  have hx := x.isLt
  have hw := w.isLt
  unfold archReg
  split
  · rw [if_neg (by omega)]; rfl
  · rw [if_pos (by omega)]
    split
    · -- outs of the last window are not those of window 0
      have hne : ¬(w = 0 ∧ w = Fin.last 7) := by rintro ⟨rfl, h⟩; exact absurd h (by decide)
      simp only [place, hne, if_false]
    · split
      · simp only [place, Sum.inr.injEq]
        omega
      · simp only [place, Sum.inr.injEq]
        by_cases hl : w = Fin.last 7
        · subst hl
          have h0 : (Fin.last 7 + 1 : Fin nWindows) = 0 := by decide
          rw [if_pos ⟨h0, rfl⟩, Fin.val_last]
          have hN : nWindows * 16 = 128 := rfl
          omega
        · have hv : (w + 1).val = w.val + 1 :=
            Fin.val_add_one_of_lt (Fin.val_lt_last hl)
          rw [if_neg (fun hc => hl hc.2), hv]
          omega

namespace SparcState

variable {M : Type} (s : SparcState M)

/-- The window of the `CWP`. -/
def window : Fin nWindows := Fin.ofNat nWindows s.cwp.toNat

/-- The register file of the architecture that `s` holds. -/
def windowFile (r : ArchReg) : Uint32 :=
  match place s.window r with
  | .inl i => s.global i
  | .inr k => s.regbase k

/-- `regwptr` points to the window of the `CWP`. -/
structure InWindow : Prop where
  cwp_lt : s.cwp.toNat < nWindows
  regwptr : s.regwptr = s.cwp.toNat * 16

/-- Between two instructions `%g0` is 0, too. -/
structure Windowed : Prop extends s.InWindow where
  g0 : s.global 0 = 0

variable {s}

theorem InWindow.window_val (hw : s.InWindow) : s.window.val = s.cwp.toNat :=
  Nat.mod_eq_of_lt hw.cwp_lt

/-- What is read is the file's register. -/
theorem InWindow.reg (hw : s.InWindow) (x : RegNo) : s.reg x = s.windowFile (archReg s.window x) := by
  unfold windowFile SparcState.reg
  rw [place_archReg, hw.regwptr, hw.window_val]
  split <;> rfl

@[simp] theorem setReg_window (x : Nat) (v : Uint32) : (s.setReg x v).window = s.window := by
  unfold window; rw [setReg_cwp]

theorem InWindow.setReg (hw : s.InWindow) (x : Nat) (v : Uint32) : (s.setReg x v).InWindow :=
  ⟨by rw [setReg_cwp]; exact hw.cwp_lt, by rw [setReg_cwp, setReg_regwptr]; exact hw.regwptr⟩

/-- What is written is the file's register. -/
theorem InWindow.windowFile_setReg (hw : s.InWindow) (x : RegNo) (v : Uint32) :
    (s.setReg x v).windowFile = Function.update s.windowFile (archReg s.window x) v := by
  funext r
  by_cases hr : r = archReg s.window x
  · subst hr
    rw [Function.update_self, ← setReg_window x v, ← (hw.setReg x v).reg, reg_setReg, if_pos rfl]
  · rw [Function.update_of_ne hr]
    have hne : place s.window r ≠ place s.window (archReg s.window x) :=
      fun he => hr (place_injective s.window he)
    rw [place_archReg, hw.window_val] at hne
    unfold windowFile
    rw [setReg_window]
    unfold SparcState.setReg
    rw [hw.regwptr]
    split at hne
    · rename_i hx
      rw [if_pos hx]
      cases hp : place s.window r with
      | inl i => rfl
      | inr k => exact Function.update_of_ne (fun hk => hne (hp.trans (congrArg Sum.inr hk))) ..
    · rename_i hx
      rw [if_neg hx]
      cases hp : place s.window r with
      | inl i => exact Function.update_of_ne (fun hi => hne (hp.trans (congrArg Sum.inl hi))) ..
      | inr k => rfl

/-! ## Changing the window -/

theorem iuSetCwp_psr (newCwp : Uint32) :
    (s.iuSetCwp newCwp).psr = clearBits s.psr PSR_CWP_last PSR_CWP_first ||| newCwp := by
  unfold iuSetCwp; dsimp only; split <;> split <;> rfl

theorem iuSetCwp_global (newCwp : Uint32) : (s.iuSetCwp newCwp).global = s.global := by
  unfold iuSetCwp; dsimp only; split <;> split <;> rfl

theorem iuSetCwp_regwptr (newCwp : Uint32) :
    (s.iuSetCwp newCwp).regwptr = newCwp.toNat * 16 := rfl

/-- The bits of the PSR that are not the `CWP` stay. -/
theorem bit_iuSetCwp {newCwp : Uint32} (hn : newCwp.toNat < nWindows) {i : Nat}
    (hi : PSR_CWP_last < i) : bit (s.iuSetCwp newCwp).psr i = bit s.psr i := by
  have hlt : newCwp.toNat < 2 ^ i :=
    Nat.lt_trans hn (Nat.pow_lt_pow_right (by omega) (Nat.lt_trans (by decide) hi) : 2 ^ 3 < 2 ^ i)
  rw [iuSetCwp_psr, bit_or, bit_of_toNat_lt hlt, Bool.or_false,
    bit_clearBits (by decide) (by decide), decide_eq_false (Nat.not_le.mpr hi), Bool.and_false,
    Bool.not_false, Bool.and_true]

theorem iuSetCwp_cwp {newCwp : Uint32} (hn : newCwp.toNat < nWindows) :
    (s.iuSetCwp newCwp).cwp = newCwp := by
  unfold cwp
  rw [iuSetCwp_psr]
  exact bits_clearBits_or (by decide) s.psr (Nat.lt_trans hn (by decide))

theorem inWindow_iuSetCwp {newCwp : Uint32} (hn : newCwp.toNat < nWindows) :
    (s.iuSetCwp newCwp).InWindow :=
  ⟨by rw [iuSetCwp_cwp hn]; exact hn, by rw [iuSetCwp_cwp hn, iuSetCwp_regwptr]⟩

/-- The words that `iu_set_cwp` leaves: those behind the last window are copied to window 0
where that window is left, and copied from there where it is entered. -/
theorem iuSetCwp_regbase (newCwp : Uint32) (k : Nat) :
    (s.iuSetCwp newCwp).regbase k =
      if newCwp.toNat = nWindows - 1 ∧ nWindows * 16 ≤ k ∧ k < nWindows * 16 + 8 then
        if s.cwp.toNat = nWindows - 1 then s.regbase k else s.regbase (k - nWindows * 16)
      else if s.cwp.toNat = nWindows - 1 ∧ k < 8 then s.regbase (nWindows * 16 + k)
      else s.regbase k := by
  have hN : nWindows * 16 = 128 := rfl
  unfold iuSetCwp memcpy32
  by_cases hc : s.cwp.toNat = nWindows - 1 <;> by_cases hn : newCwp.toNat = nWindows - 1 <;>
    simp only [hc, hn, hN, if_true, if_false, true_and, false_and, Nat.zero_add, Nat.sub_zero,
      Nat.zero_le]
  -- both copies: what went to window 0 comes back
  by_cases hk : 128 ≤ k ∧ k < 128 + 8
  · rw [if_pos hk, if_pos hk, if_pos (by omega), Nat.add_sub_cancel' hk.1]
  · rw [if_neg hk, if_neg hk]

/-- `iu_set_cwp` keeps the file that the PSR tells of. -/
theorem iuSetCwp_windowFile (hc : s.cwp.toNat < nWindows) {newCwp : Uint32}
    (hn : newCwp.toNat < nWindows) : (s.iuSetCwp newCwp).windowFile = s.windowFile := by
  have hw : s.window.val = s.cwp.toNat := Nat.mod_eq_of_lt hc
  have hw' : (s.iuSetCwp newCwp).window.val = newCwp.toNat :=
    (inWindow_iuSetCwp hn).window_val.trans (congrArg BitVec.toNat (iuSetCwp_cwp hn))
  funext r
  unfold windowFile
  cases r with
  | glob i => exact congrFun (iuSetCwp_global newCwp) i.val
  | loc v i =>
    have hv := v.isLt
    change (s.iuSetCwp newCwp).regbase (v * 16 + 8 + i) = s.regbase (v * 16 + 8 + i)
    rw [iuSetCwp_regbase, if_neg (by omega), if_neg (by omega)]
  | out v i =>
    have hv := v.isLt
    have hi := i.isLt
    have hN : nWindows * 16 = 128 := rfl
    have hlast : ∀ w : Fin nWindows, w = Fin.last 7 ↔ w.val = nWindows - 1 := fun w => by
      rw [Fin.ext_iff]; rfl
    have hzero : v = 0 ↔ v.val = 0 := Fin.ext_iff
    simp only [place, hlast, hw, hw', hzero, iuSetCwp_regbase, hN]
    by_cases hv0 : v.val = 0
    · -- the outs of window 0: in `regbase`, or behind the last window
      simp only [hv0, true_and, Nat.zero_mul, Nat.zero_add]
      by_cases hn7 : newCwp.toNat = nWindows - 1
      · rw [if_pos hn7, if_pos ⟨hn7, by omega⟩, Nat.add_sub_cancel_left]
        split <;> rfl
      · rw [if_neg hn7, if_neg (fun hc => hn7 hc.1)]
        simp only [hi, and_true]
        split <;> rfl
    · simp only [hv0, false_and, if_false]
      rw [if_neg (by omega), if_neg (by omega)]

theorem prevCwp_lt (s : SparcState M) : s.prevCwp.toNat < nWindows := by
  have h : s.prevCwp.toNat = (s.cwp - 1).toNat % 2 ^ 3 := Word.toNat_and_low _ 3 (by omega)
  exact h ▸ Nat.mod_lt _ (by omega)

theorem nextCwp_lt (s : SparcState M) : s.nextCwp.toNat < nWindows := by
  have h : s.nextCwp.toNat = (s.cwp + 1).toNat % 2 ^ 3 := Word.toNat_and_low _ 3 (by omega)
  exact h ▸ Nat.mod_lt _ (by omega)

/-- The words behind the last window are those of window 0. -/
def BlockCopied (s : SparcState M) : Prop :=
  ∀ i : Fin 8, s.regbase (nWindows * 16 + i) = s.regbase i

theorem windowFile_out_zero (hc : s.cwp.toNat < nWindows) (i : Fin 8) :
    s.windowFile (.out 0 i) =
      if s.cwp.toNat = nWindows - 1 then s.regbase (nWindows * 16 + i) else s.regbase i := by
  have hw : s.window = Fin.last 7 ↔ s.cwp.toNat = nWindows - 1 := by
    rw [Fin.ext_iff, show s.window.val = s.cwp.toNat from Nat.mod_eq_of_lt hc]; rfl
  unfold windowFile
  simp only [place, hw, true_and, Fin.val_zero, Nat.zero_mul, Nat.zero_add]
  split <;> rfl

/-- Only the outs of window 0 move when the `CWP` changes. -/
theorem windowFile_setPsr_of_ne (value : Uint32) {r : ArchReg} (hr : ∀ i, r ≠ .out 0 i) :
    { s with psr := value }.windowFile r = s.windowFile r := by
  unfold windowFile
  cases r with
  | glob i => rfl
  | loc v i => rfl
  | out v i =>
    have hv : v ≠ 0 := fun h0 => hr i (h0 ▸ rfl)
    simp only [place, hv, false_and, if_false]

/-- A PSR with another `CWP` tells of the same file only between windows that are both the
last or both not, or when the words behind the last window are those of window 0. -/
theorem windowFile_setPsr_iff (hc : s.cwp.toNat < nWindows) {value : Uint32}
    (hv : (bits value PSR_CWP_last PSR_CWP_first).toNat < nWindows) :
    { s with psr := value }.windowFile = s.windowFile ↔
      ((bits value PSR_CWP_last PSR_CWP_first).toNat = nWindows - 1 ↔
        s.cwp.toNat = nWindows - 1) ∨ s.BlockCopied := by
  have hnew := windowFile_out_zero (s := { s with psr := value }) hv
  have hold := windowFile_out_zero hc
  change ∀ i : Fin 8, _ = if (bits value PSR_CWP_last PSR_CWP_first).toNat = nWindows - 1 then
    s.regbase (nWindows * 16 + i) else s.regbase i at hnew
  constructor
  · intro he
    by_cases hn : (bits value PSR_CWP_last PSR_CWP_first).toNat = nWindows - 1 <;>
      by_cases ho : s.cwp.toNat = nWindows - 1
    · exact .inl (iff_of_true hn ho)
    · refine .inr fun i => ?_
      have hi := congrFun he (.out 0 i)
      rwa [hnew, hold, if_pos hn, if_neg ho] at hi
    · refine .inr fun i => ?_
      have hi := congrFun he (.out 0 i)
      rw [hnew, hold, if_neg hn, if_pos ho] at hi
      exact hi.symm
    · exact .inl (iff_of_false hn ho)
  · intro hcond
    funext r
    by_cases hr : ∃ i, r = .out 0 i
    · obtain ⟨i, rfl⟩ := hr
      rw [hnew, hold]
      rcases hcond with hiff | hblock
      · simp only [hiff]
      · rw [hblock i]; simp only [ite_self]
    · exact windowFile_setPsr_of_ne value fun i hi => hr ⟨i, hi⟩

/-! ## Every instruction keeps the window pointer -/

namespace InWindow

theorem advance (hw : s.InWindow) : s.advance.InWindow := ⟨hw.cwp_lt, hw.regwptr⟩

theorem signal (hw : s.InWindow) (trap : Int) : (s.signal trap).InWindow :=
  ⟨by rw [signal_cwp]; exact hw.cwp_lt, by rw [signal_cwp, signal_regwptr]; exact hw.regwptr⟩

theorem clearIcc (hw : s.InWindow) : s.clearIcc.InWindow :=
  ⟨by rw [clearIcc_cwp]; exact hw.cwp_lt, by rw [clearIcc_cwp]; exact hw.regwptr⟩

theorem setIcc (hw : s.InWindow) {b : Nat} (hb : b < 32) (hc : PSR_CWP_last < b) (c : Bool) :
    (s.setIcc b c).InWindow :=
  ⟨by rw [setIcc_cwp s hb hc]; exact hw.cwp_lt,
    by rw [setIcc_cwp s hb hc, setIcc_regwptr]; exact hw.regwptr⟩

theorem iccZN (hw : s.InWindow) (z : Uint32) : (s.iccZN z).InWindow :=
  (hw.clearIcc.setIcc (by decide) (by decide) _).setIcc (by decide) (by decide) _

/-- N, Z, V and C, in the order in which most instructions set them. -/
theorem flags (hw : s.InWindow) (n z v c : Bool) :
    ((((s.setIcc PSR_icc_N n).setIcc PSR_icc_Z z).setIcc PSR_icc_V v).setIcc PSR_icc_C c).InWindow :=
  (((hw.setIcc (by decide) (by decide) n).setIcc (by decide) (by decide) z).setIcc (by decide)
    (by decide) v).setIcc (by decide) (by decide) c

theorem ite {c : Prop} [Decidable c] {t u : SparcState M} (ht : t.InWindow) (hu : u.InWindow) :
    (if c then t else u).InWindow := by
  split
  · exact ht
  · exact hu

theorem subtract (hw : s.InWindow) (z : Uint32) (f : Fields) : (s.subtract z f).InWindow :=
  ((hw.setReg f.rd z).clearIcc.flags _ _ _ _).advance

theorem multiply (hw : s.InWindow) (f : Fields) : (s.multiply f).InWindow :=
  ⟨(hw.setReg f.rd _).cwp_lt, (hw.setReg f.rd _).regwptr⟩

theorem branch (hw : s.InWindow) (icc : Bool) (f : BranchFields) : (s.branch icc f).InWindow :=
  .ite ⟨hw.cwp_lt, hw.regwptr⟩ (.ite ⟨hw.cwp_lt, hw.regwptr⟩ hw.advance)

theorem privileged (hw : s.InWindow) {body : SparcState M} (hb : body.InWindow) :
    (s.privileged body).InWindow :=
  .ite hb (hw.signal _)

theorem setFpReg (hw : s.InWindow) (x : Nat) (v : Uint32) : (s.setFpReg x v).InWindow :=
  ⟨hw.cwp_lt, hw.regwptr⟩

theorem setMem (hw : s.InWindow) (mem : M) : { s with mem := mem }.InWindow :=
  ⟨hw.cwp_lt, hw.regwptr⟩

variable (h : Host M)

theorem load (hw : s.InWindow) (size : Nat) (align : Uint32) (extend : Uint32 → Uint32)
    {put : SparcState M → Uint32 → SparcState M}
    (hput : ∀ {s : SparcState M} v, s.InWindow → (put s v).InWindow) (f : Fields) :
    (s.load h size align extend put f).InWindow := by
  obtain ⟨value, mem, hr⟩ := s.busRead_eq h size (s.address f) 0
  unfold SparcState.load
  dsimp only
  rw [hr]
  have hput' := hput (extend value) (hw.setMem mem)
  exact .ite (hw.signal _) (.ite (hput'.signal _) hput'.advance)

theorem loadDouble (hw : s.InWindow) {put : SparcState M → Nat → Uint32 → SparcState M}
    (hput : ∀ {s : SparcState M} x v, s.InWindow → (put s x v).InWindow) (f : Fields) :
    (s.loadDouble h put f).InWindow := by
  obtain ⟨value, mem, hr⟩ := s.busRead_eq h 32 (s.address f) 0
  obtain ⟨value', mem', hr'⟩ :=
    (put { s with mem := mem } f.rd value).busRead_eq h 32 (s.address f + 4) value
  unfold SparcState.loadDouble
  dsimp only
  rw [hr]
  dsimp only
  rw [hr']
  have hput' := hput (f.rd + 1) value' ((hput f.rd value (hw.setMem mem)).setMem mem')
  exact .ite (hw.signal _) (.ite (hw.signal _) (.ite (hput'.signal _) hput'.advance))

theorem stored (hw : s.InWindow) (size : Nat) (addr data : Uint32) :
    (stored (s.busWrite h size addr data)).InWindow := by
  obtain ⟨mem, hr⟩ := s.busWrite_eq h size addr data
  rw [hr]
  exact .ite ((hw.setMem mem).signal _) (hw.setMem mem).advance

theorem store (hw : s.InWindow) (size : Nat) (align data : Uint32) (f : Fields) :
    (s.store h size align data f).InWindow :=
  .ite (hw.signal _) (hw.stored h size (s.address f) data)

theorem storeTwice (hw : s.InWindow) (addr data data' : Uint32) :
    (s.storeTwice h addr data data').InWindow := by
  obtain ⟨mem, hr⟩ := s.busWrite_eq h 32 addr data
  unfold SparcState.storeTwice
  rw [hr]
  exact (hw.setMem mem).stored h 32 (addr + 4) data'

end InWindow

theorem inWindow_iuSubCwp : s.iuSubCwp.InWindow :=
  inWindow_iuSetCwp (prevCwp_lt _)

theorem inWindow_iuAddCwp : s.iuAddCwp.InWindow :=
  inWindow_iuSetCwp (nextCwp_lt _)

theorem InWindow.wrpsr (hw : s.InWindow) (f : Fields) : (s.iWrpsr f).InWindow := by
  refine hw.privileged ?_
  split
  · exact hw.signal _
  · rename_i hn
    exact (inWindow_iuSetCwp (Nat.lt_of_not_le hn)).advance

theorem inWindow_rettTo (s : SparcState M) (daddr : Uint32) : (s.rettTo daddr).InWindow := by
  have hadd := inWindow_iuAddCwp (s := s)
  refine ⟨?_, ?_⟩
  · rw [rettTo_cwp]; exact hadd.cwp_lt
  · rw [rettTo_cwp]; exact hadd.regwptr

theorem InWindow.rett (hw : s.InWindow) (f : Fields) : (s.iRett f).InWindow := by
  refine .ite (hw.signal _) (.ite (hw.signal _) (.ite (hw.signal _) ?_))
  exact .ite (hw.signal _) (.ite (hw.signal _) (s.inWindow_rettTo _))

theorem InWindow.udiv (hw : s.InWindow) (f : Fields) : (s.iUdiv f).InWindow := by
  unfold iUdiv
  cases f.op2 with
  | reg rs2 => exact (InWindow.ite (hw.signal _) (hw.setReg f.rd _)).advance
  | simm13 imm => exact (InWindow.ite (hw.signal _) (hw.setReg f.rd _)).advance

theorem InWindow.orcc (hw : s.InWindow) (f : Fields) : (s.iOrcc f).InWindow := by
  unfold iOrcc
  cases f.op2 with
  | reg rs2 => exact (hw.iccZN 0).advance
  | simm13 imm => exact ((hw.setReg f.rd _).iccZN _).advance

theorem InWindow.setY (hw : s.InWindow) (y : Uint32) : { s with y := y }.InWindow :=
  ⟨hw.cwp_lt, hw.regwptr⟩

theorem InWindow.mulscc (hw : s.InWindow) (f : Fields) : (s.iMulscc f).InWindow := by
  exact (((hw.setReg f.rd _).setY _).setY _).clearIcc.flags _ _ _ _ |>.advance

theorem InWindow.execute (hw : s.InWindow) (h : Host M) (i : Instr) :
    (s.execute h i).InWindow := by
  cases i
  case nop | flush => exact hw.advance
  case or f | and f | andn f | orn f | xor f | xnor f | add f | addx f | sub f | subx f =>
    exact (hw.setReg f.rd _).advance
  case andcc f | andncc f => exact ((hw.setReg f.rd _).iccZN _).advance
  case addcc f =>
    have hz := (hw.setReg f.rd (s.address f)).clearIcc
    have hc := hz.setIcc (b := PSR_icc_C) (by decide) (by decide)
    have hv := fun c => (hc c).setIcc (b := PSR_icc_V) (by decide) (by decide)
    exact (((hv _ _).setIcc (by decide) (by decide) _).setIcc (by decide) (by decide) _).advance
  case mulscc f => exact hw.mulscc f
  case orcc f => exact hw.orcc f
  case subcc f | subxcc f => exact hw.subtract _ f
  case sll f | srl f => exact (hw.setReg f.rd _).advance
  case sra f => exact (InWindow.ite ((hw.setReg f.rd _).setReg f.rd _) (hw.setReg f.rd _)).advance
  case smul f | umul f => exact hw.multiply f
  case udiv f => exact hw.udiv f
  case sethi rd imm22 => exact (hw.setReg rd _).advance
  case call disp30 => exact ⟨(hw.setReg O7 s.pc).cwp_lt, (hw.setReg O7 s.pc).regwptr⟩
  case ba f => exact .ite ⟨hw.cwp_lt, hw.regwptr⟩ ⟨hw.cwp_lt, hw.regwptr⟩
  case bn f => exact .ite ⟨hw.cwp_lt, hw.regwptr⟩ hw.advance
  case bne f | be f | bg f | ble f | bge f | bl f | bgu f | bleu f | bcc f | bcs f | bpos f |
      bneg f | bvc f | bvs f =>
    exact hw.branch _ f
  case rdy rd => exact (hw.setReg rd s.y).advance
  case wry f => exact ⟨hw.cwp_lt, hw.regwptr⟩
  case rdpsr rd | rdwim rd | rdtbr rd => exact hw.privileged (hw.setReg rd _).advance
  case wrwim f | wrtbr f => exact hw.privileged ⟨hw.cwp_lt, hw.regwptr⟩
  case wrpsr f => exact hw.wrpsr f
  case rett f => exact hw.rett f
  case jmpl f =>
    have hj := hw.setReg f.rd s.pc
    exact .ite (hw.signal _) ⟨hj.cwp_lt, hj.regwptr⟩
  case ta rs1 op => exact hw.signal (s.taNumber rs1 op)
  case save f => exact .ite (hw.signal _) (inWindow_iuSubCwp.setReg f.rd _).advance
  case restore f => exact .ite (hw.signal _) (inWindow_iuAddCwp.setReg f.rd _).advance
  case ldsb f | ldsh f | ldub f | lduh f | ld f =>
    exact hw.load h _ _ _ (fun v hs => hs.setReg f.rd v) f
  case ldf f => exact .ite (hw.signal _) (hw.load h _ _ _ (fun v hs => hs.setFpReg f.rd v) f)
  case ldd f => exact hw.loadDouble h (fun x v hs => hs.setReg x v) f
  case lddf f =>
    exact .ite (hw.signal _) (hw.loadDouble h (fun x v hs => hs.setFpReg x v) f)
  case stb f | sth f | st f => exact hw.store h _ _ _ f
  case stf f | stfsr f => exact .ite (hw.signal _) (hw.store h _ _ _ f)
  case std f => exact .ite (hw.signal _) (.ite (hw.signal _) (hw.storeTwice h _ _ _))
  case stdf f =>
    exact .ite (hw.signal _) (.ite (hw.signal _) (.ite (hw.signal _) (hw.storeTwice h _ _ _)))

end SparcState

end SkyEye.Sparc
