import SkyEye.Ppc.FpuSingle

/-!
# Runs of floating-point instructions

The two groups of `ppc_dec.c`, one word after the other. Only the moves to FPSCR change the
mode or clear a flag; the others write one register, the condition field of a compare and
flags that stay.
-/

namespace SkyEye.Ppc.Fpu

open Sparc (Uint32)
open BinaryFloat (Mode)

def ppcOpcMain (opc : Uint32) : Nat := ((opc >>> 26) &&& 0x3F).toNat

/-- The entries of `ppc_opc_table_main` for the two groups. -/
def fpuDecode (opc : Uint32) : Option FpuInstr :=
  if ppcOpcMain opc = 59 then groupF1 opc else if ppcOpcMain opc = 63 then groupF2 opc else none

/-- A word of the two groups, with what the local variables hold at its start. With MSR[FP] clear
`ppc_exception` makes the simulator exit; other words are none of this. PC and NPC, which no word
of these groups reads, are not stepped. -/
def fpuStep {M : Type} (s : FpuCore M) (op : Uint32 × PpcDouble) : Option (FpuCore M) :=
  if s.msr &&& msrFp = 0 then none
  else
    match fpuDecode op.1 with
    | some i => some (i.exec op.2 { s with currentOpc := op.1 })
    | none => none

def fpuRun {M : Type} (s : FpuCore M) (ops : List (Uint32 × PpcDouble)) : Option (FpuCore M) :=
  ops.foldlM fpuStep s

/-- The moves to FPSCR. -/
def FpuInstr.writesFpscr : FpuInstr → Bool
  | mtfsb0 | mtfsb1 | mtfsf | mtfsfi => true
  | _ => false

def FpuInstr.compares : FpuInstr → Bool
  | fcmpu | fcmpo => true
  | _ => false

variable {M : Type}

/-- What is kept while the registers of `regs` and, if `cmp` holds, CR may change. -/
structure Kept (regs : Nat → Prop) (cmp : Prop) (s t : FpuCore M) : Prop where
  mode : t.fpscr &&& 3 = s.fpscr &&& 3
  sticky : ∀ i, i < 12 ∨ 17 ≤ i → s.fpscr.getLsbD i = true → t.fpscr.getLsbD i = true
  fpr : ∀ r, ¬regs r → t.fpr r = s.fpr r
  cr : ¬cmp → t.cr = s.cr
  rest : ∃ opc fpr cr fpscr,
    t = { s with currentOpc := opc, fpr := fpr, cr := cr, fpscr := fpscr }

variable {regs : Nat → Prop} {cmp : Prop} {s t u : FpuCore M}

theorem Kept.refl (s : FpuCore M) : Kept regs cmp s s :=
  ⟨rfl, fun _ _ h => h, fun _ _ => rfl, fun _ => rfl, ⟨_, _, _, _, rfl⟩⟩

theorem Kept.trans (h : Kept regs cmp s t) (h' : Kept regs cmp t u) : Kept regs cmp s u where
  mode := h'.mode.trans h.mode
  sticky i hi hs := h'.sticky i hi (h.sticky i hi hs)
  fpr r hr := (h'.fpr r hr).trans (h.fpr r hr)
  cr hc := (h'.cr hc).trans (h.cr hc)
  rest := by
    obtain ⟨_, _, _, _, rfl⟩ := h.rest
    obtain ⟨_, _, _, _, rfl⟩ := h'.rest
    exact ⟨_, _, _, _, rfl⟩

theorem Kept.mono {regs' : Nat → Prop} {cmp' : Prop} (h : Kept regs cmp s t)
    (hr : ∀ r, regs r → regs' r) (hc : cmp → cmp') : Kept regs' cmp' s t :=
  { h with
    fpr := fun r hn => h.fpr r fun hr' => hn (hr r hr')
    cr := fun hn => h.cr fun hc' => hn (hc hc') }

/-! ## What the parts of an instruction do -/

theorem kept_setFrD (v : BitVec 64) : Kept (· = rD s.currentOpc) cmp s (s.setFrD v) where
  mode := rfl
  sticky _ _ h := h
  fpr _ hr := Function.update_of_ne hr ..
  cr _ := rfl
  rest := ⟨_, _, _, _, rfl⟩

theorem kept_raise {flags : Uint32} (h : flags &&& 3 = 0) : Kept regs cmp s (s.raise flags) where
  mode := by
    show (s.fpscr ||| flags) &&& 3 = _
    rw [BitVec.and_or_distrib_right, h]
    simp
  sticky i _ hs := by
    show (s.fpscr ||| flags).getLsbD i = true
    rw [BitVec.getLsbD_or, hs, Bool.true_or]
  fpr _ _ := rfl
  cr _ := rfl
  rest := ⟨_, _, _, _, rfl⟩

theorem raiseIf_eq (c : Bool) (flags : Uint32) :
    s.raiseIf c flags = s.raise (if c then flags else 0) := by
  cases c with
  | false => simp [FpuCore.raiseIf, FpuCore.raise]
  | true => rfl

theorem kept_raiseIf {flags : Uint32} (c : Bool) (h : flags &&& 3 = 0) :
    Kept regs cmp s (s.raise (if c then flags else 0)) := by
  refine kept_raise ?_
  split
  · exact h
  · rfl

/-- The flags that the operations raise are none of the low bits. -/
theorem low_flags : fpscrXx &&& 3 = 0 ∧ fpscrOx &&& 3 = 0 ∧ fpscrUx &&& 3 = 0 ∧
    fpscrVxsqrt &&& 3 = 0 ∧ (0 : Uint32) &&& 3 = 0 := by decide

theorem ppcFpuRound_flags {w : Nat} (fpscr sign : Uint32) (m : BitVec w) :
    (ppcFpuRound fpscr sign m).2 &&& 3 = 0 := by
  obtain ⟨hxx, -, -, -, h0⟩ := low_flags
  rw [ppcFpuRound]
  cases fpscrRn fpscr <;> simp only <;> split_ifs <;> first | exact hxx | exact h0

theorem or_flags {a b : Uint32} (ha : a &&& 3 = 0) (hb : b &&& 3 = 0) : (a ||| b) &&& 3 = 0 := by
  rw [BitVec.and_or_distrib_right, ha, hb]
  rfl

theorem ppcFpuPackDouble_flags (fpscr : Uint32) (d : PpcDouble) :
    (ppcFpuPackDouble fpscr d).2 &&& 3 = 0 := by
  obtain ⟨-, hox, hux, -, h0⟩ := low_flags
  rw [ppcFpuPackDouble, packFields]
  cases d.type with
  | norm =>
    have hr := fun m : BitVec 64 => ppcFpuRound_flags fpscr d.s m
    simp only [packNorm]
    split_ifs
    all_goals first
      | exact hr _
      | exact or_flags (hr _) hox
      | exact or_flags (hr _) hux
      | exact hux
  | zero => exact h0
  | nan => exact h0
  | inf => exact h0

theorem roundToSingle_flags (fpscr : Uint32) (d : PpcDouble) :
    (roundToSingle fpscr d).2.2.2 &&& 3 = 0 := by
  obtain ⟨-, hox, hux, -, -⟩ := low_flags
  have hr := fun m : Uint32 => ppcFpuRound_flags fpscr d.s m
  rw [roundToSingle]
  simp only
  split_ifs
  all_goals first
    | exact hr _
    | exact or_flags (hr _) hox
    | exact or_flags (hr _) hux
    | exact hux

theorem ppcFpuPackDoubleAsSingle_flags (fpscr : Uint32) (d : PpcDouble) :
    (ppcFpuPackDoubleAsSingle fpscr d).2 &&& 3 = 0 := by
  rw [ppcFpuPackDoubleAsSingle]
  cases d.type with
  | norm => exact or_flags (roundToSingle_flags fpscr d) (ppcFpuPackDouble_flags _ _)
  | zero => exact or_flags low_flags.2.2.2.2 (ppcFpuPackDouble_flags _ _)
  | nan => exact or_flags low_flags.2.2.2.2 (ppcFpuPackDouble_flags _ _)
  | inf => exact or_flags low_flags.2.2.2.2 (ppcFpuPackDouble_flags _ _)

theorem ppcFpuSqrt_flags (fpscr : Uint32) (res b : PpcDouble) :
    (ppcFpuSqrt fpscr res b).2 &&& 3 = 0 := by
  obtain ⟨-, -, -, hsqrt, h0⟩ := low_flags
  rw [ppcFpuSqrt]
  cases b.type with
  | norm =>
    simp only
    split
    · exact hsqrt
    · exact h0
  | zero => exact h0
  | inf =>
    simp only
    split
    · exact hsqrt
    · exact h0
  | nan => exact h0

theorem kept_finish (d : PpcDouble) : Kept (· = rD s.currentOpc) cmp s (s.finish d) :=
  (kept_setFrD _).trans (kept_raise (ppcFpuPackDouble_flags _ _))

theorem kept_finishSingle (d : PpcDouble) : Kept (· = rD s.currentOpc) cmp s (s.finishSingle d) :=
  (kept_setFrD _).trans (kept_raise (ppcFpuPackDoubleAsSingle_flags _ _))

/-- The low two bits are those of RN. -/
theorem low_bits_eq {a b : Uint32} (h : ∀ i < 2, a.getLsbD i = b.getLsbD i) : a &&& 3 = b &&& 3 := by
  have hmask : ∀ i < 32, (3 : Uint32).getLsbD i = decide (i < 2) := by decide
  refine BitVec.eq_of_getLsbD_eq fun i hi => ?_
  rw [BitVec.getLsbD_and, BitVec.getLsbD_and, hmask i hi]
  by_cases h2 : i < 2
  · rw [h i h2]
  · rw [decide_eq_false h2, Bool.and_false, Bool.and_false]

theorem kept_of_compared {flags : Uint32} {c : BitVec 4} (h : FloatCompared s flags c t)
    (hf : flags &&& 3 = 0) (hcmp : cmp) : Kept regs cmp s t where
  mode := by
    refine (low_bits_eq fun i hi => h.kept i (by omega) (.inl (by omega))).trans ?_
    rw [BitVec.and_or_distrib_right, hf]
    simp
  sticky i hi hs := by
    rw [h.kept i (BitVec.lt_of_getLsbD hs) hi, BitVec.getLsbD_or, hs, Bool.true_or]
  fpr r _ := by
    obtain ⟨_, _, rfl⟩ := h.rest
    rfl
  cr hn := absurd hcmp hn
  rest := by
    obtain ⟨_, _, rfl⟩ := h.rest
    exact ⟨_, _, _, _, rfl⟩

theorem kept_compareWith {flags : Uint32} (hf : flags &&& 3 = 0) (hcmp : cmp) :
    Kept regs cmp s (s.compareWith flags) := by
  refine kept_of_compared (fcmp_verdict s flags) ?_ hcmp
  split
  · exact hf
  · rfl

/-- An end that keeps all but the register, as `finish` and `finishSingle`. -/
def KeepingEnd (cmp : Prop) (end_ : FpuCore M → PpcDouble → FpuCore M) : Prop :=
  ∀ (t : FpuCore M) (d : PpcDouble), Kept (· = rD t.currentOpc) cmp t (end_ t d)

section
variable (v : PpcDouble) {end_ : FpuCore M → PpcDouble → FpuCore M}

theorem KeepingEnd.after (h : KeepingEnd cmp end_)
    (hk : Kept (· = rD s.currentOpc) cmp s t) (hopc : t.currentOpc = s.currentOpc)
    (d : PpcDouble) : Kept (· = rD s.currentOpc) cmp s (end_ t d) := by
  refine hk.trans ?_
  rw [← hopc]
  exact h t d

theorem KeepingEnd.addWith (h : KeepingEnd cmp end_) (b : PpcDouble) :
    Kept (· = rD s.currentOpc) cmp s (s.addWith v b end_) := by
  have hisi : fpscrVxisi &&& 3 = 0 := by decide
  rw [FpuCore.addWith]
  simp only [raiseIf_eq]
  exact h.after (kept_raiseIf _ hisi) rfl _

theorem KeepingEnd.mulWith (h : KeepingEnd cmp end_) :
    Kept (· = rD s.currentOpc) cmp s (s.mulWith v end_) := by
  have himz : fpscrVximz &&& 3 = 0 := by decide
  rw [FpuCore.mulWith]
  simp only [raiseIf_eq]
  exact h.after (kept_raiseIf _ himz) rfl _

theorem KeepingEnd.divWith (h : KeepingEnd cmp end_) :
    Kept (· = rD s.currentOpc) cmp s (s.divWith v end_) := by
  have hzdz : fpscrVxzdz &&& 3 = 0 := by decide
  have hidi : fpscrVxidi &&& 3 = 0 := by decide
  rw [FpuCore.divWith]
  simp only [raiseIf_eq]
  exact h.after ((kept_raiseIf _ hzdz).trans <| (kept_raiseIf _ hidi).trans <|
    kept_raiseIf _ hidi) rfl _

end

theorem keepingEnd_finish : KeepingEnd (M := M) cmp FpuCore.finish :=
  fun _ d => kept_finish d

theorem keepingEnd_finishSingle : KeepingEnd (M := M) cmp FpuCore.finishSingle :=
  fun _ d => kept_finishSingle d

/-- What every instruction but the moves to FPSCR keeps. -/
theorem kept_exec (v : PpcDouble) (i : FpuInstr) (hi : i.writesFpscr = false) :
    Kept (· = rD s.currentOpc) (i.compares = true) s (i.exec v s) := by
  have hsqrt := ppcFpuSqrt_flags s.fpscr v s.frB
  have hcmp : fpscrVxsnan &&& 3 = 0 ∧ (fpscrVxsnan ||| fpscrVxvc) &&& 3 = 0 := by decide
  cases i with
  | mtfsb1 => cases hi
  | mtfsb0 => cases hi
  | mtfsfi => cases hi
  | mtfsf => cases hi
  | fsqrts => exact .refl s
  | fres => exact .refl s
  | mcrfs => exact .refl s
  | fcmpu => exact kept_compareWith hcmp.1 rfl
  | fcmpo => exact kept_compareWith hcmp.2 rfl
  | fadd => exact keepingEnd_finish.addWith v _
  | fsub => exact keepingEnd_finish.addWith v _
  | fmul => exact keepingEnd_finish.mulWith v
  | fdiv => exact keepingEnd_finish.divWith v
  | fadds => exact keepingEnd_finishSingle.addWith v _
  | fsubs => exact keepingEnd_finishSingle.addWith v _
  | fmuls => exact keepingEnd_finishSingle.mulWith v
  | fdivs => exact keepingEnd_finishSingle.divWith v
  | fmsubs => exact kept_finishSingle _
  | fmadds => exact kept_finishSingle _
  | fnmsubs => exact kept_finishSingle _
  | fnmadds => exact kept_finishSingle _
  | fmsub => exact kept_finish _
  | fmadd => exact kept_finish _
  | fnmsub => exact kept_finish _
  | fnmadd => exact kept_finish _
  | frsp => exact kept_finishSingle _
  | fsqrt =>
    exact keepingEnd_finish.after (t := s.raise (ppcFpuSqrt s.fpscr v s.frB).2)
      (kept_raise hsqrt) rfl (ppcFpuSqrt s.fpscr v s.frB).1
  | frsqrte =>
    exact keepingEnd_finish.after (t := s.raise (ppcFpuSqrt s.fpscr v s.frB).2)
      (kept_raise hsqrt) rfl
      (ppcFpuDiv v ⟨.norm, 0, 0, 0x80000000000000⟩ (ppcFpuSqrt s.fpscr v s.frB).1)
  | fsel => exact kept_setFrD _
  | fctiw => exact kept_setFrD _
  | fctiwz => exact kept_setFrD _
  | fneg => exact kept_setFrD _
  | fmr => exact kept_setFrD _
  | fnabs => exact kept_setFrD _
  | fabs => exact kept_setFrD _
  | mffs => exact kept_setFrD _

/-! ## Runs -/

/-- The word decodes to an instruction with the property. -/
def Decodes (p : FpuInstr → Prop) (opc : Uint32) : Prop := ∃ i, fpuDecode opc = some i ∧ p i

theorem kept_step {op : Uint32 × PpcDouble} (h : fpuStep s op = some t)
    (hw : ¬Decodes (·.writesFpscr = true) op.1) :
    Kept (· = rD op.1) (Decodes (·.compares = true) op.1) s t := by
  rw [fpuStep] at h
  split at h
  · cases h
  cases hd : fpuDecode op.1 with
  | none =>
    rw [hd] at h
    cases h
  | some i =>
    rw [hd] at h
    obtain rfl := Option.some.inj h
    have hi : i.writesFpscr = false := Bool.eq_false_iff.mpr fun hi => hw ⟨i, hd, hi⟩
    have hopc : Kept (· = rD op.1) (i.compares = true) s { s with currentOpc := op.1 } :=
      ⟨rfl, fun _ _ h => h, fun _ _ => rfl, fun _ => rfl, ⟨_, _, _, _, rfl⟩⟩
    exact (hopc.trans (kept_exec (s := { s with currentOpc := op.1 }) op.2 i hi)).mono
      (fun _ hr => hr) fun hc => ⟨i, hd, hc⟩

/-- A run without moves to FPSCR keeps the rounding mode, every flag outside FPRF once it is raised,
the registers that it does not name, CR if it compares nothing, and the rest of the core. -/
theorem fpuRun_keeps (ops : List (Uint32 × PpcDouble)) (h : fpuRun s ops = some t)
    (hw : ∀ op ∈ ops, ¬Decodes (·.writesFpscr = true) op.1) :
    Kept (fun r => ∃ op ∈ ops, r = rD op.1)
      (∃ op ∈ ops, Decodes (·.compares = true) op.1) s t := by
  induction ops generalizing s with
  | nil =>
    obtain rfl := Option.some.inj h
    exact .refl s
  | cons op ops ih =>
    rw [fpuRun, List.foldlM_cons, Option.bind_eq_bind, Option.bind_eq_some_iff] at h
    obtain ⟨u, hu, hrest⟩ := h
    have hstep := kept_step hu (hw op List.mem_cons_self)
    have hrun := ih hrest fun o ho => hw o (List.mem_cons_of_mem _ ho)
    refine (hstep.mono (fun r hr => ⟨op, List.mem_cons_self, hr⟩)
      fun hc => ⟨op, List.mem_cons_self, hc⟩).trans (hrun.mono ?_ ?_)
    · rintro r ⟨o, ho, hr⟩
      exact ⟨o, List.mem_cons_of_mem _ ho, hr⟩
    · rintro ⟨o, ho, hc⟩
      exact ⟨o, List.mem_cons_of_mem _ ho, hc⟩

/-- `halves` with MSR[FP]. -/
def halvesFp : FpuCore Unit := { halves with msr := msrFp }

/-- `fadd f3,f1,f2` and `fcmpu cr0,f3,f1` -/
def addCompare : List (Uint32 × PpcDouble) :=
  [(0xFC61102A, ⟨.norm, 0, 0, 0⟩), (0xFC030800, ⟨.norm, 0, 0, 0⟩)]

theorem fpuRun_keeps_addCompare : ∃ t, fpuRun halvesFp addCompare = some t ∧
    Kept (fun r => ∃ op ∈ addCompare, r = rD op.1)
      (∃ op ∈ addCompare, Decodes (·.compares = true) op.1) halvesFp t := by
  obtain ⟨t, ht⟩ : ∃ t, fpuRun halvesFp addCompare = some t := ⟨_, rfl⟩
  refine ⟨t, ht, fpuRun_keeps addCompare ht fun op hop => ?_⟩
  rcases List.mem_pair.mp hop with rfl | rfl
  · rintro ⟨i, hi, hw⟩
    obtain rfl : FpuInstr.fadd = i := Option.some.inj hi
    cases hw
  · rintro ⟨i, hi, hw⟩
    obtain rfl : FpuInstr.fcmpu = i := Option.some.inj hi
    cases hw

end SkyEye.Ppc.Fpu
