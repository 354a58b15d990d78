import SkyEye.Mips.Precise
import SkyEye.Mips.Shifts
import SkyEye.Mips.Timer

/-!
# Delay slots

`branchOf` is the branch that an instruction is by the manual. A step executes it and leaves
its result in `pipeline` and `branch_target`; the next step executes the slot and goes where
they say. A jump to an unaligned address raises its exception behind the slot, the branches
and links that are likely are not implemented, and a slot has no place for a branch or ERET.
-/

namespace SkyEye.Mips

open Sparc (Uint32 bit bitsmask setBit clearBit clearBits)

variable {M : Type} {h : Host M}

/-! ## Branches by the manual -/

/-- A branch, as its condition comes out. -/
structure Branch where
  taken : Bool
  target : Uint32
  likely : Bool
  link : Option Nat
  deriving DecidableEq, Repr

/-- A likely branch that is not taken leaves out its slot. -/
def Branch.skips (j : Branch) : Bool := j.likely && !j.taken

namespace MipsState

/-- The target of a branch: the offset counts words behind the slot's address. -/
def relative (f : MipsState M) (instr : Uint32) : Uint32 :=
  f.pc + 4 + 4 * ((offset instr).setWidth 16).signExtend 32

/-- The target of a jump, in the region of the slot. -/
def region (f : MipsState M) (instr : Uint32) : Uint32 :=
  ((f.pc + 4) &&& 0xF0000000) ||| (target instr <<< 2)

/-- The branch or jump that `instr` is, if it is one. -/
def branchOf (f : MipsState M) (instr : Uint32) : Option Branch :=
  let x := f.gpr (rs instr)
  let y := f.gpr (rt instr)
  let dest := f.relative instr
  match opcode instr with
  | 0o00 =>
    match funct instr with
    | 0o10 => some ⟨true, x, false, none⟩
    | 0o11 => some ⟨true, x, false, some (rd instr)⟩
    | _ => none
  | 0o01 =>
    match rt instr with
    | 0o00 => some ⟨decide (x.toInt < 0), dest, false, none⟩
    | 0o01 => some ⟨decide (0 ≤ x.toInt), dest, false, none⟩
    | 0o02 => some ⟨decide (x.toInt < 0), dest, true, none⟩
    | 0o03 => some ⟨decide (0 ≤ x.toInt), dest, true, none⟩
    | 0o20 => some ⟨decide (x.toInt < 0), dest, false, some 31⟩
    | 0o21 => some ⟨decide (0 ≤ x.toInt), dest, false, some 31⟩
    | 0o22 => some ⟨decide (x.toInt < 0), dest, true, some 31⟩
    | 0o23 => some ⟨decide (0 ≤ x.toInt), dest, true, some 31⟩
    | _ => none
  | 0o02 => some ⟨true, f.region instr, false, none⟩
  | 0o03 => some ⟨true, f.region instr, false, some 31⟩
  | 0o04 => some ⟨decide (x = y), dest, false, none⟩
  | 0o05 => some ⟨decide (x ≠ y), dest, false, none⟩
  | 0o06 => some ⟨decide (x.toInt ≤ 0), dest, false, none⟩
  | 0o07 => some ⟨decide (0 < x.toInt), dest, false, none⟩
  | 0o24 => some ⟨decide (x = y), dest, true, none⟩
  | 0o25 => some ⟨decide (x ≠ y), dest, true, none⟩
  | 0o26 => some ⟨decide (x.toInt ≤ 0), dest, true, none⟩
  | 0o27 => some ⟨decide (0 < x.toInt), dest, true, none⟩
  | _ => none

end MipsState

/-- ERET goes to EPC. -/
def IsEret (instr : Uint32) : Prop :=
  opcode instr = 0o20 ∧ bit instr 25 = true ∧ funct instr = 0o30

/-- BLTZALL and BGEZALL are reserved instructions here, and a jump through a register wants
a word address. -/
def Supported (instr : Uint32) (j : Branch) : Prop :=
  (j.likely = true → j.link = none) ∧ (opcode instr = 0o00 → Sparc.bits j.target 1 0 = 0)

/-! ## What an instruction leaves to the step -/

/-- The two states agree on where the step goes. -/
structure SameFlow (s s' : MipsState M) : Prop where
  pc : s'.pc = s.pc
  pipeline : s'.pipeline = s.pipeline
  branchTarget : s'.branchTarget = s.branchTarget

namespace SameFlow

variable {s s' s'' : MipsState M}

theorem refl (s : MipsState M) : SameFlow s s := ⟨rfl, rfl, rfl⟩

theorem trans (h : SameFlow s s') (h' : SameFlow s' s'') : SameFlow s s'' :=
  ⟨h'.pc.trans h.pc, h'.pipeline.trans h.pipeline, h'.branchTarget.trans h.branchTarget⟩

theorem setGpr (s : MipsState M) (n : Nat) (v : Uint32) : SameFlow s (s.setGpr n v) :=
  ⟨rfl, rfl, rfl⟩

theorem setCp0 (s : MipsState M) (n : Nat) (v : Uint32) : SameFlow s (s.setCp0 n v) :=
  ⟨rfl, rfl, rfl⟩

theorem memRead (s : MipsState M) (pa data : Uint32) (len : Nat) :
    SameFlow s (s.memRead h pa data len).2 := by
  unfold MipsState.memRead
  split
  · exact ⟨rfl, rfl, rfl⟩
  · exact .refl s

theorem memWrite (s : MipsState M) (pa data : Uint32) (len : Nat) :
    SameFlow s (s.memWrite h pa data len) := by
  unfold MipsState.memWrite
  split
  · exact ⟨rfl, rfl, rfl⟩
  · exact .refl s

theorem setTlbEntry (s : MipsState M) (n : Uint32) : SameFlow s (s.setTlbEntry n) := by
  have hr := MipsState.rest_setTlbEntry (s := s) n
  have hpc := congrArg MipsState.pc hr
  have hpipe := congrArg MipsState.pipeline hr
  have ht := congrArg MipsState.branchTarget hr
  exact ⟨hpc, hpipe, ht⟩

theorem writeCp0 (s : MipsState M) (n : Nat) (x : Uint32) : SameFlow s (s.writeCp0 n x) := by
  obtain ⟨_, _, _, _, he, -⟩ := MipsState.writeCp0_spec (s := s) n x
  rw [he]
  exact ⟨rfl, rfl, rfl⟩

theorem leaveKernelMode (s : MipsState M) : SameFlow s s.leaveKernelMode := ⟨rfl, rfl, rfl⟩

end SameFlow

/-- An instruction that leaves the flow alone: the PC moves on to the next one. -/
def Straight (f : MipsState M) (o : MipsState.Outcome M) : Prop :=
  ∀ g n, o = some (g, n) → n = .nothingSpecial ∧ SameFlow f g

section

variable {f g : MipsState M}

theorem straight_none : Straight f none := by
  intro g n e
  cases e

theorem straight_plain (hg : SameFlow f g) : Straight f g.plain := by
  intro g' n e
  cases e
  exact ⟨rfl, hg⟩

theorem straight_map {o : Option (MipsState M)} (ho : ∀ g, o = some g → SameFlow f g) :
    Straight f (o.map fun g => (g, .nothingSpecial)) := by
  intro g n e
  obtain ⟨g', hg, e⟩ := Option.map_eq_some_iff.mp e
  cases e
  exact ⟨rfl, ho _ hg⟩

theorem straight_bind {o : Option (MipsState M)} (ho : ∀ g, o = some g → SameFlow f g) :
    Straight f (o.bind MipsState.plain) := by
  intro g n e
  obtain ⟨g', hg, e⟩ := Option.bind_eq_some_iff.mp e
  cases e
  exact ⟨rfl, ho _ hg⟩

/-- An access that raises nothing goes on with its address. -/
theorem straight_translated {va : Uint32} {type : AccessType}
    {k : Uint32 → MipsState M → MipsState.Outcome M} (hf : f.faultOf va type = none)
    (hk : ∀ pa, Straight f (k pa f)) : Straight f (f.translated va type k) := by
  rcases translated_of_none (k := k) hf with ht | ⟨pa, ht⟩
  · rw [ht]
    exact straight_none
  · rw [ht]
    exact hk pa

/-! ## The instruction of a slot -/

variable {instr : Uint32}

theorem straight_setGpr (n : Nat) (v : Uint32) : Straight f (f.setGpr n v).plain :=
  straight_plain (.setGpr f n v)

theorem straight_addOverflow {r : Nat} {x y : Uint32}
    (hr : (if MipsState.addOverflows x y then some Exc.overflow else none) = none) :
    Straight f (f.addOverflow r x y) := by
  split at hr
  · cases hr
  · rename_i ho
    unfold MipsState.addOverflow
    unfold MipsState.addOverflows at ho
    dsimp only
    rw [if_neg ho]
    exact straight_setGpr _ _

theorem straight_subOverflow {r : Nat} {x y : Uint32}
    (hr : (if MipsState.subOverflows x y then some Exc.overflow else none) = none) :
    Straight f (f.subOverflow r x y) := by
  split at hr
  · cases hr
  · rename_i ho
    unfold MipsState.subOverflow
    unfold MipsState.subOverflows at ho
    dsimp only
    rw [if_neg ho]
    exact straight_setGpr _ _

theorem straight_divide {x y : Uint32} : Straight f ((f.divideInt32 x y).bind MipsState.plain) ∧
    Straight f ((f.divideUInt32 x y).bind MipsState.plain) := by
  constructor
  · refine straight_bind fun g e => ?_
    unfold MipsState.divideInt32 at e
    split at e
    · cases e
    · cases e
      exact ⟨rfl, rfl, rfl⟩
  · refine straight_bind fun g e => ?_
    unfold MipsState.divideUInt32 at e
    split at e
    · cases e
    · cases e
      exact ⟨rfl, rfl, rfl⟩

theorem straight_decodeSpecial (hj : funct instr ≠ 0o10) (hjr : funct instr ≠ 0o11)
    (hr : f.raisedSpecial instr = none) : Straight f (f.decodeSpecial instr) := by
  unfold MipsState.raisedSpecial at hr
  unfold MipsState.decodeSpecial
  extract_lets x y write
  have hw (v : Uint32) : Straight f (write v) := straight_setGpr _ v
  have hp : Straight f f.plain := straight_plain (.refl f)
  split
  · split
    · exact hw _
    · exact hp
  · exact hw _
  · exact hw _
  · exact hw _
  · exact hw _
  · exact hw _
  · exact absurd ‹_› hj
  · exact absurd ‹_› hjr
  · split
    · exact hw _
    · exact hp
  · split
    · exact hw _
    · exact hp
  · rename_i hfn
    rw [hfn] at hr
    cases hr
  · exact hp
  · exact hp
  · exact hw _
  · exact straight_plain ⟨rfl, rfl, rfl⟩
  · exact hw _
  · exact straight_plain ⟨rfl, rfl, rfl⟩
  · exact straight_plain ⟨rfl, rfl, rfl⟩
  · exact straight_plain ⟨rfl, rfl, rfl⟩
  · exact straight_divide.1
  · exact straight_divide.2
  · rename_i hfn
    rw [hfn] at hr
    exact straight_addOverflow hr
  · exact hw _
  · rename_i hfn
    rw [hfn] at hr
    exact straight_subOverflow hr
  · exact hw _
  · exact hw _
  · exact hw _
  · exact hw _
  · exact hw _
  · exact hw _
  · exact hw _
  · exact hp
  · exact hp
  · exact straight_none

theorem straight_decodeSpecial2 : Straight f (f.decodeSpecial2 instr) := by
  unfold MipsState.decodeSpecial2
  split
  · exact straight_plain ⟨rfl, rfl, rfl⟩
  · exact straight_setGpr _ _
  · exact straight_setGpr _ _
  · exact straight_none

theorem straight_decodeImmediate (hr : opcode instr = 0o10 →
    (if MipsState.addOverflows (f.gpr (rs instr)) (signedOffset instr) then some Exc.overflow
      else none) = none) : Straight f (f.decodeImmediate instr) := by
  unfold MipsState.decodeImmediate
  dsimp only
  split
  · exact straight_addOverflow (hr ‹_›)
  all_goals exact straight_setGpr _ _

theorem straight_loadInstr {len : Nat} {extend : Uint32 → Uint32}
    (hf : f.faultOf (f.effective instr) .dataLoad = none) :
    Straight f (f.loadInstr h instr len extend) := straight_translated hf fun pa =>
  straight_plain ((SameFlow.memRead f pa 0 len).trans (.setGpr _ _ _))

theorem straight_storeInstr {len : Nat} (hf : f.faultOf (f.effective instr) .dataStore = none) :
    Straight f (f.storeInstr h instr len) := straight_translated hf fun pa =>
  straight_plain (.memWrite f pa _ len)

/-- An access that wants its address aligned and raises nothing. -/
theorem alignedFault_none {aligned : Bool} {va : Uint32} {type : AccessType}
    (hf : f.alignedFault aligned va type = none) :
    f.checkAligned aligned va type = f ∧ f.faultOf va type = none := by
  unfold MipsState.alignedFault at hf
  unfold MipsState.checkAligned
  split at hf
  · rw [if_pos ‹_›]
    exact ⟨rfl, hf⟩
  · cases hf

theorem straight_loadHalf {extend : Uint32 → Uint32}
    (hf : f.alignedFault (!bit (f.effective instr) 0) (f.effective instr) .dataLoad = none) :
    Straight f (f.loadHalf h instr extend) := by
  obtain ⟨hc, hf⟩ := alignedFault_none hf
  unfold MipsState.loadHalf
  dsimp only
  rw [hc]
  exact straight_translated hf fun pa =>
    straight_plain ((SameFlow.memRead f pa 0 2).trans (.setGpr _ _ _))

theorem straight_loadWord
    (hf : f.alignedFault (f.effective instr &&& 0x3 == 0) (f.effective instr) .dataLoad = none) :
    Straight f (f.loadWord h instr) := by
  obtain ⟨hc, hf⟩ := alignedFault_none hf
  unfold MipsState.loadWord
  dsimp only
  rw [hc]
  exact straight_translated hf fun pa =>
    straight_plain ((SameFlow.memRead f pa 0 4).trans (.setGpr _ _ _))

theorem straight_storeHalf
    (hf : f.alignedFault (!bit (f.effective instr) 0) (f.effective instr) .dataStore = none) :
    Straight f (f.storeHalf h instr) := by
  obtain ⟨hc, hf⟩ := alignedFault_none hf
  unfold MipsState.storeHalf
  dsimp only
  rw [hc]
  exact straight_translated hf fun pa => straight_plain (.memWrite f pa _ 2)

theorem straight_storeWord (hf : f.alignedFault (Sparc.bits (f.effective instr) 1 0 == 0)
    (f.effective instr) .dataStore = none) : Straight f (f.storeWord h instr) := by
  unfold MipsState.storeWord
  split
  · exact straight_none
  · exact straight_storeInstr (alignedFault_none hf).2

theorem straight_loadPart {left : Bool} {merge : Uint32 → Uint32 → Nat → Uint32}
    (hf : f.faultOf (f.effective instr) .dataLoad = none) :
    Straight f (f.loadPart h instr left merge) := straight_translated hf fun pa =>
  straight_plain ((SameFlow.memRead f (MipsState.roundDown4 pa) 0 4).trans (.setGpr _ _ _))

theorem straight_storePart {left : Bool} {merge : Uint32 → Uint32 → Nat → Uint32}
    (hf : f.faultOf (f.effective instr) .dataStore = none) :
    Straight f (f.storePart h instr left merge) := straight_translated hf fun pa =>
  straight_plain ((SameFlow.memRead f (MipsState.roundDown4 pa) 0 4).trans (.memWrite _ _ _ _))

theorem straight_loadLinked (hf : f.faultOf (f.effective instr) .dataLoad = none) :
    Straight f (f.loadLinked h instr) := straight_translated hf fun pa =>
  straight_plain ((SameFlow.memRead f pa h.uninit 4).trans (.setGpr _ _ _))

theorem straight_storeConditional (hf : f.faultOf (f.effective instr) .dataLoad = none) :
    Straight f (f.storeConditional h instr) := straight_translated hf fun pa =>
  straight_plain ((SameFlow.memWrite f pa _ 4).trans (.setGpr _ _ _))

theorem straight_decodeCop0 (heret : ¬IsEret instr) (hop : opcode instr = 0o20)
    (hr : (if !f.inKmode && !bit (f.cp0 SR) SR_CU0 then some Exc.coprocessorUnusable else none) =
      none) : Straight f (f.decodeCop0 h instr) := by
  have hu : ¬(!f.inKmode && !bit (f.cp0 SR) SR_CU0) = true := by
    intro hu
    rw [if_pos hu] at hr
    cases hr
  unfold MipsState.decodeCop0
  dsimp only
  rw [if_neg hu]
  refine straight_map fun g e => ?_
  split at e
  · unfold MipsState.decodeCop0Funct at e
    split at e
    · cases e
      exact ⟨rfl, rfl, rfl⟩
    · cases e
      exact .setTlbEntry f _
    · obtain ⟨n, -, rfl⟩ := Option.map_eq_some_iff.mp e
      exact .setTlbEntry f n
    · obtain ⟨n, -, rfl⟩ := Option.map_eq_some_iff.mp e
      exact .setCp0 f _ _
    · cases e
      exact .leaveKernelMode f
    · exact absurd ⟨hop, ‹_›, ‹_›⟩ heret
    · cases e
  · unfold MipsState.decodeCop0Rs at e
    split at e
    · obtain ⟨v, -, rfl⟩ := Option.map_eq_some_iff.mp e
      exact .setGpr f _ v
    · cases e
      exact .refl f
    · cases e
      exact .writeCp0 f _ _
    · cases e

theorem straight_decodeCop1
    (hr : (if !bit (f.cp0 SR) SR_CU1 then some Exc.coprocessorUnusable else none) = none) :
    Straight f (some (f.decodeCop1 instr)) := by
  have hu : ¬(!bit (f.cp0 SR) SR_CU1) = true := by
    intro hu
    rw [if_pos hu] at hr
    cases hr
  unfold MipsState.decodeCop1
  rw [if_neg hu]
  split
  · exact straight_plain (.refl f)
  · split
    · exact straight_setGpr _ _
    · exact straight_plain (.refl f)

/-- An instruction that is no branch and raises nothing leaves the PC to the step. -/
theorem straight_decode (hb : f.branchOf instr = none) (heret : ¬IsEret instr)
    (hr : f.raised instr = none) : Straight f (f.decode h instr) := by
  have hp : Straight f f.plain := straight_plain (.refl f)
  unfold MipsState.raised at hr
  unfold MipsState.branchOf at hb
  unfold MipsState.decode
  dsimp only at hr hb ⊢
  split
  all_goals first
    | (rename_i hop; rw [hop] at hr hb)
    | exact straight_none
  · refine straight_decodeSpecial ?_ ?_ hr
    · intro hfn
      rw [hfn] at hb
      cases hb
    · intro hfn
      rw [hfn] at hb
      cases hb
  · unfold MipsState.decodeRegimm
    dsimp only
    split
    all_goals first
      | exact straight_none
      | (rename_i hrt; rw [hrt] at hb; cases hb)
  · cases hb
  · cases hb
  · cases hb
  · cases hb
  · cases hb
  · cases hb
  · exact straight_decodeImmediate fun _ => hr
  · exact straight_decodeImmediate fun h => absurd (hop.symm.trans h) (by decide)
  · exact straight_decodeImmediate fun h => absurd (hop.symm.trans h) (by decide)
  · exact straight_decodeImmediate fun h => absurd (hop.symm.trans h) (by decide)
  · exact straight_decodeImmediate fun h => absurd (hop.symm.trans h) (by decide)
  · exact straight_decodeImmediate fun h => absurd (hop.symm.trans h) (by decide)
  · exact straight_decodeImmediate fun h => absurd (hop.symm.trans h) (by decide)
  · exact straight_decodeImmediate fun h => absurd (hop.symm.trans h) (by decide)
  · exact straight_decodeCop0 heret hop hr
  · exact straight_decodeCop1 hr
  · cases hb
  · cases hb
  · cases hb
  · cases hb
  · exact straight_decodeSpecial2
  · exact straight_loadInstr hr
  · exact straight_loadHalf hr
  · exact straight_loadPart hr
  · exact straight_loadWord hr
  · exact straight_loadInstr hr
  · exact straight_loadHalf hr
  · exact straight_loadPart hr
  · exact straight_storeInstr hr
  · exact straight_storeHalf hr
  · exact straight_storePart hr
  · exact straight_storeWord hr
  · exact straight_storePart hr
  · exact hp
  · exact straight_loadLinked hr
  · exact hp
  · exact hp
  · exact straight_storeConditional hr
  · exact hp

end

/-! ## What a branch leaves -/

/-- The state `g` and the result `n` of the branch `j`, executed in `f`. -/
structure Decided (f : MipsState M) (j : Branch) (g : MipsState M) (n : Pipeline) : Prop where
  pc : g.pc = f.pc
  branchTarget : g.branchTarget = if j.taken then j.target else f.pc + 8
  link : ∀ r, j.link = some r → g.gpr r = f.pc + 8
  flow : if j.skips then g.pipeline = .branchDelay ∧ n = .nothingSpecial
    else g.pipeline = f.pipeline ∧ n = .branchDelay

def Decides (f : MipsState M) (j : Branch) (o : MipsState.Outcome M) : Prop :=
  ∃ g n, o = some (g, n) ∧ Decided f j g n

theorem signedOffset_eq (instr : Uint32) :
    signedOffset instr = ((offset instr).setWidth 16).signExtend 32 := by
  unfold signedOffset
  apply BitVec.eq_of_getLsbD_eq
  intro i hi
  rw [ShiftOp.getLsbD_signExtendUInt32 (by decide) (by decide) _ hi, BitVec.getLsbD_signExtend,
    decide_eq_true hi, Bool.true_and, BitVec.msb_eq_getLsbD_last, BitVec.getLsbD_setWidth,
    BitVec.getLsbD_setWidth]
  split
  · rw [decide_eq_true ‹_›, Bool.true_and]
  · rfl

theorem slt_zero (x : Uint32) : x.slt 0 = decide (x.toInt < 0) := rfl

theorem not_slt_zero (x : Uint32) : (!x.slt 0) = decide (0 ≤ x.toInt) := by
  rw [slt_zero, ← decide_not, decide_eq_decide]
  exact Int.not_lt

theorem zero_slt (x : Uint32) : (0 : Uint32).slt x = decide (0 < x.toInt) := rfl

theorem not_zero_slt (x : Uint32) : (!(0 : Uint32).slt x) = decide (x.toInt ≤ 0) := by
  rw [zero_slt, ← decide_not, decide_eq_decide]
  exact Int.not_lt

theorem bne_eq_decide (x y : Uint32) : (x != y) = decide (x ≠ y) := by
  rw [decide_not]
  rfl

section

variable {f : MipsState M} {instr : Uint32} {taken : Bool}

theorem relative_eq (f : MipsState M) (instr : Uint32) :
    f.pc + 4 + (signedOffset instr <<< 2) = f.relative instr := by
  have h4 : BitVec.twoPow 32 2 = (4 : Uint32) := by decide
  unfold MipsState.relative
  rw [signedOffset_eq, BitVec.shiftLeft_eq_mul_twoPow, h4, BitVec.mul_comm]
  rfl

theorem region_eq (f : MipsState M) (instr : Uint32) : f.jumpTarget instr = f.region instr := by
  have hm : ~~~bitsmask 27 0 = (0xF0000000 : Uint32) := by decide
  unfold MipsState.jumpTarget MipsState.region clearBits
  rw [hm]
  rfl

theorem decides_branch {t : Bool} (ht : t = taken) :
    Decides f ⟨taken, f.relative instr, false, none⟩ (f.branch t instr) := by
  subst ht
  refine ⟨_, _, rfl, rfl, ?_, fun r h => (Option.some_ne_none r h.symm).elim, ⟨rfl, rfl⟩⟩
  show (if t then f.pc + 4 + (signedOffset instr <<< 2) else f.pc + 8) = _
  rw [relative_eq]

theorem decides_branch_link {t : Bool} (ht : t = taken) :
    Decides f ⟨taken, f.relative instr, false, some 31⟩
      ((f.setGpr 31 (f.pc + 8)).branch t instr) := by
  subst ht
  refine ⟨_, _, rfl, rfl, ?_, fun r h => ?_, ⟨rfl, rfl⟩⟩
  · show (if t then f.pc + 4 + (signedOffset instr <<< 2) else f.pc + 8) = _
    rw [relative_eq]
  · cases h
    rfl

theorem decides_branchLikely {t : Bool} (ht : t = taken) :
    Decides f ⟨taken, f.relative instr, true, none⟩ (f.branchLikely t instr) := by
  subst ht
  cases t with
  | true =>
    refine ⟨_, _, rfl, rfl, ?_, fun r h => (Option.some_ne_none r h.symm).elim, ⟨rfl, rfl⟩⟩
    exact relative_eq f instr
  | false =>
    exact ⟨_, _, rfl, rfl, rfl, fun r h => (Option.some_ne_none r h.symm).elim, ⟨rfl, rfl⟩⟩

theorem jumpRegister_aligned {g : MipsState M} (ha : Sparc.bits g.branchTarget 1 0 = 0) :
    g.jumpRegister = some (g, .branchDelay) := by
  unfold MipsState.jumpRegister
  rw [if_neg (not_not.mpr ha)]

/-- Every branch that is supported leaves what the manual says. -/
theorem decides_decode {j : Branch} (hb : f.branchOf instr = some j) (hs : Supported instr j) :
    Decides f j (f.decode h instr) := by
  have hlink : ∀ (r r' : Nat), (none : Option Nat) = some r → f.gpr r' = f.pc + 8 :=
    fun r _ e => (Option.some_ne_none r e.symm).elim
  unfold MipsState.branchOf at hb
  unfold MipsState.decode
  dsimp only at hb ⊢
  split at hb
  · rename_i hop
    have ha := hs.2 hop
    rw [hop]
    unfold MipsState.decodeSpecial
    dsimp only
    split at hb
    · rename_i hfn
      cases hb
      rw [hfn]
      exact ⟨_, _, jumpRegister_aligned ha, rfl, rfl, fun r => hlink r r, ⟨rfl, rfl⟩⟩
    · rename_i hfn
      cases hb
      rw [hfn]
      refine ⟨_, _, jumpRegister_aligned ha, rfl, rfl, fun r e => ?_, ⟨rfl, rfl⟩⟩
      cases e
      exact Function.update_self ..
    · cases hb
  · rename_i hop
    rw [hop]
    unfold MipsState.decodeRegimm
    dsimp only
    split at hb
    · rename_i hrt
      cases hb
      rw [hrt]
      exact decides_branch (slt_zero _)
    · rename_i hrt
      cases hb
      rw [hrt]
      exact decides_branch (not_slt_zero _)
    · rename_i hrt
      cases hb
      rw [hrt]
      exact decides_branchLikely (slt_zero _)
    · rename_i hrt
      cases hb
      rw [hrt]
      exact decides_branchLikely (not_slt_zero _)
    · rename_i hrt
      cases hb
      rw [hrt]
      exact decides_branch_link (slt_zero _)
    · rename_i hrt
      cases hb
      rw [hrt]
      exact decides_branch_link (not_slt_zero _)
    · cases hb
      exact (Option.some_ne_none 31 (hs.1 rfl)).elim
    · cases hb
      exact (Option.some_ne_none 31 (hs.1 rfl)).elim
    · cases hb
  · rename_i hop
    cases hb
    rw [hop]
    exact ⟨_, _, rfl, rfl, region_eq f instr, fun r => hlink r r, ⟨rfl, rfl⟩⟩
  · rename_i hop
    cases hb
    rw [hop]
    refine ⟨_, _, rfl, rfl, region_eq f instr, fun r e => ?_, ⟨rfl, rfl⟩⟩
    cases e
    rfl
  · rename_i hop
    cases hb
    rw [hop]
    exact decides_branch rfl
  · rename_i hop
    cases hb
    rw [hop]
    exact decides_branch (bne_eq_decide _ _)
  · rename_i hop
    cases hb
    rw [hop]
    exact decides_branch (not_zero_slt _)
  · rename_i hop
    cases hb
    rw [hop]
    exact decides_branch (zero_slt _)
  · rename_i hop
    cases hb
    rw [hop]
    exact decides_branchLikely rfl
  · rename_i hop
    cases hb
    rw [hop]
    exact decides_branchLikely (bne_eq_decide _ _)
  · rename_i hop
    cases hb
    rw [hop]
    exact decides_branchLikely (not_zero_slt _)
  · rename_i hop
    cases hb
    rw [hop]
    exact decides_branchLikely (zero_slt _)
  · cases hb

end

/-! ## The steps -/

/-- Neither the timer nor the board takes an interrupt behind the instruction. -/
structure Idle (h : Host M) (b : MipsState M) : Prop where
  timer : ¬(b.Reaches ∧ b.TimerEnabled ∧ bit (b.cp0 Cause) Cause_IP7 = false)
  flow : SameFlow b.tick (h.machIoDoCycle b.tick)
  gpr : (h.machIoDoCycle b.tick).gpr = b.tick.gpr

/-- A step without an interrupt. -/
structure Uninterrupted (h : Host M) (s : MipsState M) : Prop where
  pending : s.irqPending = false
  idle : ∀ b, s.tickState h = some b → Idle h b

/-- The slot behind the branch `j` at `a`: it is executed, and left for where the branch goes.
`counts` says which instructions a slot may hold. -/
def SlotFollows (h : Host M) (a : Uint32) (j : Branch) (counts : Uint32 → Prop)
    (s : MipsState M) : Prop :=
  s.pc = a + 4 ∧ ∀ instr f r, Uninterrupted h s → s.prepare.fetch h = some (instr, f) →
    f.branchOf instr = none → counts instr → f.raised instr = none →
    f.decode h instr = some r → ∃ s', s.stepOnce h = some s' ∧
      s'.pc = (if j.taken then j.target else a + 8) ∧ s'.pipeline = .nothingSpecial

/-- The step of the branch `j` and, where it is not left out, the slot's. -/
def Sequenced (h : Host M) (s : MipsState M) (j : Branch) (counts : Uint32 → Prop) : Prop :=
  ∃ s', s.stepOnce h = some s' ∧ (∀ r, j.link = some r → s'.gpr r = s.pc + 8) ∧
    if j.skips then s'.pc = s.pc + 8 ∧ s'.pipeline = .nothingSpecial
    else SlotFollows h s.pc j counts s'

theorem tick_of_idle {b : MipsState M}
    (hb : ¬(b.Reaches ∧ b.TimerEnabled ∧ bit (b.cp0 Cause) Cause_IP7 = false)) :
    SameFlow b b.tick ∧ b.tick.gpr = b.gpr := by
  unfold MipsState.tick
  split
  · exact ⟨.refl b, rfl⟩
  · rename_i hc
    dsimp only
    split
    · exact ⟨⟨rfl, rfl, rfl⟩, rfl⟩
    · rename_i hlt
      rw [MipsState.cp0_setCp0_self,
        MipsState.cp0_setCp0_of_ne _ (show Compare ≠ Count by decide)] at hlt
      split
      · rename_i he
        simp only [MipsState.cp0_setCp0_of_ne _ (show SR ≠ Count by decide),
          MipsState.cp0_setCp0_of_ne _ (show Cause ≠ Count by decide), Bool.and_eq_true,
          Bool.not_eq_true'] at he
        exact absurd ⟨⟨hc, BitVec.not_lt.mp hlt⟩, ⟨he.1.1.1, he.1.1.2, he.2⟩, he.1.2⟩ hb
      · exact ⟨⟨rfl, rfl, rfl⟩, rfl⟩

theorem fetch_sameFlow {p f : MipsState M} {instr : Uint32}
    (hf : p.fetch h = some (instr, f)) : SameFlow p f ∧ f.gpr = p.gpr := by
  unfold MipsState.fetch at hf
  cases he : p.faultOf p.pc .instrFetch with
  | some e =>
    rcases MipsState.translateVaddr_of_fault he with ⟨-, ht⟩ | ⟨-, ht⟩
    · rw [ht] at hf
      cases hf
    · rw [ht] at hf
      cases hf
  | none =>
    rcases MipsState.translateVaddr_of_none he with ht | ⟨pa, ht⟩
    · rw [ht] at hf
      cases hf
    · rw [ht] at hf
      have hs : f = (p.memRead h pa h.uninit 4).2 := (congrArg Prod.snd (Option.some.inj hf)).symm
      rw [hs]
      refine ⟨.memRead p pa _ 4, ?_⟩
      unfold MipsState.memRead
      split
      · rfl
      · rfl

theorem prepare_of_not_pending {s : MipsState M} (hs : s.irqPending = false) :
    s.prepare = s.setGpr 0 0 := by
  unfold MipsState.prepare
  have hp : ¬(s.setGpr 0 0).irqPending = true := Bool.eq_false_iff.mp hs
  dsimp only
  rw [if_neg hp]

/-- An uninterrupted step ends where `pipeline` has it go. -/
theorem step_of_decode {s f g b : MipsState M} {instr : Uint32} {n : Pipeline}
    (hu : Uninterrupted h s) (hf : s.prepare.fetch h = some (instr, f))
    (hd : f.decode h instr = some (g, n)) (hb : g.comparing n = some b) :
    ∃ s', s.stepOnce h = some s' ∧ SameFlow b s' ∧ s'.gpr = b.gpr := by
  have hfd := (MipsState.fetchDecode_of_fetch hf).trans hd
  have ht : s.tickState h = some b := by
    unfold MipsState.tickState
    rw [hfd]
    exact hb
  have hi := hu.idle b ht
  obtain ⟨hflow, hgpr⟩ := tick_of_idle hi.timer
  refine ⟨h.machIoDoCycle b.tick, ?_, hflow.trans hi.flow, hi.gpr.trans hgpr⟩
  unfold MipsState.stepOnce
  rw [hfd]
  exact congrArg some (MipsState.finish_of_comparing hb)

/-- The slot's step takes the branch. -/
theorem slot_step {s : MipsState M} (hp : s.pipeline = .branchDelay) {instr : Uint32}
    {f : MipsState M} {r : MipsState M × Pipeline} (hu : Uninterrupted h s)
    (hf : s.prepare.fetch h = some (instr, f)) (hb : f.branchOf instr = none)
    (heret : ¬IsEret instr) (hr : f.raised instr = none) (hd : f.decode h instr = some r) :
    ∃ s', s.stepOnce h = some s' ∧ s'.pc = s.branchTarget ∧ s'.pipeline = .nothingSpecial := by
  obtain ⟨g, n⟩ := r
  obtain ⟨rfl, hg⟩ := straight_decode hb heret hr g n hd
  obtain ⟨hff, -⟩ := fetch_sameFlow hf
  rw [prepare_of_not_pending hu.pending] at hff
  have hsg : SameFlow s g := ((SameFlow.setGpr s 0 0).trans hff).trans hg
  have hc : g.comparing .nothingSpecial =
      some { g with pc := g.branchTarget, pipeline := .nothingSpecial } := by
    unfold MipsState.comparing
    rw [hsg.pipeline, hp]
  obtain ⟨s', hs', hflow, -⟩ := step_of_decode hu hf hd hc
  exact ⟨s', hs', hflow.pc.trans hsg.branchTarget, hflow.pipeline⟩

/-- A branch outside a slot is followed by its slot and then by its target, or by the
instruction behind the slot where it is not taken; a likely one leaves the slot out there. -/
theorem branch_sequenced {s f : MipsState M} {instr : Uint32} {j : Branch}
    (hp : s.pipeline = .nothingSpecial) (hu : Uninterrupted h s)
    (hf : s.prepare.fetch h = some (instr, f)) (hb : f.branchOf instr = some j)
    (hs : Supported instr j) : Sequenced h s j fun i => ¬IsEret i := by
  obtain ⟨hff, -⟩ := fetch_sameFlow hf
  rw [prepare_of_not_pending hu.pending] at hff
  have hsf : SameFlow s f := (SameFlow.setGpr s 0 0).trans hff
  obtain ⟨g, n, hd, hg⟩ := decides_decode (h := h) hb hs
  have hflow := hg.flow
  by_cases hskip : j.skips = true
  · rw [if_pos hskip] at hflow
    obtain ⟨hpipe, rfl⟩ := hflow
    have hc : g.comparing .nothingSpecial =
        some { g with pc := g.branchTarget, pipeline := .nothingSpecial } := by
      unfold MipsState.comparing
      rw [hpipe]
    obtain ⟨s', hs', hflow, hgpr⟩ := step_of_decode hu hf hd hc
    have htaken : j.taken = false := by
      unfold Branch.skips at hskip
      rw [Bool.and_eq_true, Bool.not_eq_true'] at hskip
      exact hskip.2
    refine ⟨s', hs', fun r hr => ?_, ?_⟩
    · rw [hgpr, ← hsf.pc]
      exact hg.link r hr
    · rw [if_pos hskip, hflow.pc, ← hsf.pc]
      refine ⟨?_, hflow.pipeline⟩
      show g.branchTarget = _
      rw [hg.branchTarget, htaken]
      rfl
  · rw [if_neg hskip] at hflow
    obtain ⟨hpipe, rfl⟩ := hflow
    have hc : g.comparing .branchDelay =
        some { g with pc := g.pc + 4, pipeline := .branchDelay } := by
      unfold MipsState.comparing
      rw [hpipe, hsf.pipeline, hp]
    obtain ⟨s', hs', hflow, hgpr⟩ := step_of_decode hu hf hd hc
    refine ⟨s', hs', fun r hr => ?_, ?_⟩
    · rw [hgpr, ← hsf.pc]
      exact hg.link r hr
    · rw [if_neg hskip]
      refine ⟨?_, fun instr' f' r hu' hf' hb' he' hr' hd' => ?_⟩
      · rw [hflow.pc, ← hsf.pc, ← hg.pc]
      · obtain ⟨s'', hs'', hpc, hpipe''⟩ := slot_step hflow.pipeline hu' hf' hb' he' hr' hd'
        refine ⟨s'', hs'', hpc.trans ?_, hpipe''⟩
        rw [hflow.branchTarget, ← hsf.pc]
        exact hg.branchTarget

/-! ## Where the slot goes wrong -/

/-- A board with a program at physical address 0 and no devices. -/
def programHost (program : List Uint32) : Host Unit :=
  { bareHost with bankRead := fun _ _ addr => some (program.getD (addr.toNat / 4) 0, (), 0) }

/-- The core at the start of the program, with `target` in register 1. -/
def atStart (target : Uint32) : MipsState Unit :=
  { (blankState ()).setGpr 1 target with pc := 0x80000000 }

/-- Compare is 0 behind the step, so that the timer is off. -/
def timerOff (h : Host M) (s : MipsState M) : Bool :=
  !s.irqPending && (s.tickState h).all fun b => b.cp0 Compare == 0

theorem uninterrupted_program {program : List Uint32} {s : MipsState Unit}
    (hs : timerOff (programHost program) s = true) : Uninterrupted (programHost program) s := by
  unfold timerOff at hs
  rw [Bool.and_eq_true, Bool.not_eq_true'] at hs
  refine ⟨hs.1, fun b hb => ?_⟩
  have hc := hs.2
  rw [hb] at hc
  exact ⟨fun h => h.1.1 (eq_of_beq hc), .refl _, rfl⟩

/-- The branch that the step of `s` executes. -/
def fetchedBranch (h : Host M) (s : MipsState M) : Option Branch :=
  (s.prepare.fetch h).bind fun r => r.2.branchOf r.1

/-- The step executes a slot that counts for a branch. -/
def plainSlot (h : Host M) (s : MipsState M) : Bool :=
  timerOff h s && (s.prepare.fetch h).any fun r =>
    (r.2.branchOf r.1).isNone && (r.2.raised r.1).isNone && (r.2.decode h r.1).isSome

/-- Every branch is sequenced, whatever its slot holds. -/
def BranchesSequenced (h : Host M) (s : MipsState M) : Prop :=
  ∀ instr f j, Uninterrupted h s → s.prepare.fetch h = some (instr, f) →
    f.branchOf instr = some j → Sequenced h s j fun _ => True

theorem BranchesSequenced.apply {program : List Uint32} {s : MipsState Unit} {j : Branch}
    (hs : BranchesSequenced (programHost program) s) (ht : timerOff (programHost program) s = true)
    (hj : fetchedBranch (programHost program) s = some j) :
    Sequenced (programHost program) s j fun _ => True := by
  obtain ⟨⟨instr, f⟩, hf, hb⟩ := Option.bind_eq_some_iff.mp hj
  exact hs instr f j (uninterrupted_program ht) hf hb

/-- The PC behind a slot. -/
theorem SlotFollows.behind {program : List Uint32} {s : MipsState Unit} {a : Uint32} {j : Branch}
    (hs : SlotFollows (programHost program) a j (fun _ => True) s)
    (hp : plainSlot (programHost program) s = true) :
    (s.stepOnce (programHost program)).map (·.pc) = some (if j.taken then j.target else a + 8) := by
  unfold plainSlot at hp
  rw [Bool.and_eq_true] at hp
  obtain ⟨⟨instr, f⟩, hf, hx⟩ := (Option.any_eq_true _ _).mp hp.2
  rw [Bool.and_eq_true, Bool.and_eq_true, Option.isNone_iff_eq_none,
    Option.isNone_iff_eq_none] at hx
  obtain ⟨r, hr⟩ := Option.isSome_iff_exists.mp hx.2
  obtain ⟨s', hs', hpc, -⟩ :=
    hs.2 instr f r (uninterrupted_program hp.1) hf hx.1.1 trivial hx.1.2 hr
  rw [hs', Option.map_some, hpc]

/-- The two steps of a branch and its slot. -/
def twoSteps (h : Host M) (s : MipsState M) : Option (MipsState M) :=
  (s.stepOnce h).bind fun s' => if plainSlot h s' then s'.stepOnce h else none

theorem twoSteps_of_sequenced {program : List Uint32} {s : MipsState Unit} {j : Branch}
    (hs : BranchesSequenced (programHost program) s) (ht : timerOff (programHost program) s = true)
    (hj : fetchedBranch (programHost program) s = some j) (hskip : j.skips = false)
    {s2 : MipsState Unit} (h2 : twoSteps (programHost program) s = some s2) :
    s2.pc = if j.taken then j.target else s.pc + 8 := by
  obtain ⟨s1, h1, -, hslot⟩ := hs.apply ht hj
  rw [hskip, if_neg Bool.false_ne_true] at hslot
  unfold twoSteps at h2
  rw [h1, Option.bind_some] at h2
  split at h2
  · have hb := hslot.behind ‹_›
    rw [h2] at hb
    exact Option.some.inj hb
  · cases h2

/-- BGEZALL stops the simulator, a jump to an unaligned address ends in the handler, a branch
in a slot has none of its own, and ERET in one drops the branch. -/
theorem not_branch_sequenced :
    ¬BranchesSequenced (programHost [0x04130004]) (atStart 0) ∧
    ¬BranchesSequenced (programHost [0x00200008]) (atStart 0x80000102) ∧
    ¬BranchesSequenced (programHost [0x08000010]) { atStart 0 with
      pipeline := .branchDelay, branchTarget := 0x80000200 } ∧
    ¬BranchesSequenced (programHost [0x08000010, 0x42000018]) (atStart 0) := by
  refine ⟨fun hs => ?_, fun hs => ?_, fun hs => ?_, fun hs => ?_⟩
  · have hj : fetchedBranch (programHost [0x04130004]) (atStart 0) =
        some ⟨true, 0x80000014, true, some 31⟩ := by decide +kernel
    obtain ⟨s1, h1, -⟩ := hs.apply (by decide +kernel) hj
    have hnone : ((atStart 0).stepOnce (programHost [0x04130004])).isSome = false := by
      decide +kernel
    rw [h1] at hnone
    cases hnone
  · have hj : fetchedBranch (programHost [0x00200008]) (atStart 0x80000102) =
        some ⟨true, 0x80000102, false, none⟩ := by decide +kernel
    have hrun : (twoSteps (programHost [0x00200008]) (atStart 0x80000102)).map (·.pc) =
        some 0x80000180 := by decide +kernel
    obtain ⟨s2, h2, hpc⟩ := Option.map_eq_some_iff.mp hrun
    have := twoSteps_of_sequenced hs (by decide +kernel) hj rfl h2
    exact absurd (hpc.symm.trans this) (by decide)
  · have hj : fetchedBranch (programHost [0x08000010]) { atStart 0 with
        pipeline := .branchDelay, branchTarget := 0x80000200 } =
        some ⟨true, 0x80000040, false, none⟩ := by decide +kernel
    obtain ⟨s1, h1, -, hslot⟩ := hs.apply (by decide +kernel) hj
    have hpc : (MipsState.stepOnce (programHost [0x08000010]) { atStart 0 with
        pipeline := .branchDelay, branchTarget := 0x80000200 }).map (·.pc) =
        some 0x80000040 := by decide +kernel
    rw [h1] at hpc
    exact absurd ((Option.some.inj hpc).symm.trans hslot.1) (by decide)
  · have hj : fetchedBranch (programHost [0x08000010, 0x42000018]) (atStart 0) =
        some ⟨true, 0x80000040, false, none⟩ := by decide +kernel
    have hrun : (twoSteps (programHost [0x08000010, 0x42000018]) (atStart 0)).map (·.pc) =
        some 0 := by decide +kernel
    obtain ⟨s2, h2, hpc⟩ := Option.map_eq_some_iff.mp hrun
    have := twoSteps_of_sequenced hs (by decide +kernel) hj rfl h2
    exact absurd (hpc.symm.trans this) (by decide)

/-- A jump and link with a nop in its slot. -/
theorem branch_sequenced_jal : ∃ j : Branch, j.link = some 31 ∧ j.target = 0x80000040 ∧
    Sequenced (programHost [0x0C000010]) (atStart 0) j fun i => ¬IsEret i := by
  have hj : fetchedBranch (programHost [0x0C000010]) (atStart 0) =
      some ⟨true, 0x80000040, false, some 31⟩ := by decide +kernel
  obtain ⟨⟨instr, f⟩, hf, hb⟩ := Option.bind_eq_some_iff.mp hj
  exact ⟨_, rfl, rfl, branch_sequenced rfl (uninterrupted_program (by decide +kernel)) hf hb
    ⟨fun h => (Bool.false_ne_true h).elim, fun _ => by decide⟩⟩

end SkyEye.Mips
