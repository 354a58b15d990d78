import SkyEye.Gdb.TracepointTable

/-!
# Counting hits and steps

What a tracepoint traces in a run: one frame for each of its first `pass_count` hits, and
after a hit one for each of the next instructions that its while-stepping action counts.
The hit itself is the first of those steps, so one frame less than the step count follows
it.
-/

namespace SkyEye.Gdb

/-! ## The counter -/

/-- The hits traced so far, and the steps that are left. -/
structure TraceCounter where
  hits : Nat
  steps : Nat

namespace TraceCounter

/-- The frames of a tracepoint with pass count `n` and `k` steps at an instruction, `at_` or
not at its address. -/
def step (n k : Nat) (c : TraceCounter) (atAddress : Bool) : Nat × TraceCounter :=
  if 0 < c.steps then (1, { c with steps := c.steps - 1 })
  else if atAddress ∧ (n = 0 ∨ c.hits < n) then (1, { hits := c.hits + 1, steps := k })
  else (0, c)

/-- The frames at each instruction of a run. -/
def frames (n k : Nat) : TraceCounter → List Bool → List Nat
  | _, [] => []
  | c, b :: bs => (c.step n k b).1 :: frames n k (c.step n k b).2 bs

variable {n k : Nat}

/-- Away from the address only the steps are traced. -/
theorem sum_frames_away (c : TraceCounter) (m : Nat) :
    (frames n k c (List.replicate m false)).sum = min m c.steps := by
  induction m generalizing c with
  | zero => simp [frames]
  | succ m ih =>
    rw [List.replicate_succ, frames, List.sum_cons, ih]
    by_cases hs : 0 < c.steps
    · have hstep : c.step n k false = (1, { c with steps := c.steps - 1 }) := if_pos hs
      rw [hstep]
      dsimp only
      omega
    · have hstep : c.step n k false = (0, c) := by simp [step, hs]
      rw [hstep]
      dsimp only
      omega

/-- The first hit is traced whatever the pass count. -/
theorem step_first (n k : Nat) : step n k ⟨0, 0⟩ true = (1, ⟨1, k⟩) := by
  have hn : n = 0 ∨ 0 < n := Nat.eq_zero_or_pos n
  simp [step, hn]

/-- A hit and what follows it tell the step counts apart. -/
theorem frames_ne_of_lt {k' : Nat} (h : k' < k) :
    frames n k ⟨0, 0⟩ (true :: List.replicate k false) ≠
      frames n k' ⟨0, 0⟩ (true :: List.replicate k false) := by
  intro he
  have hsum := congrArg List.sum he
  rw [frames, frames, step_first, step_first, List.sum_cons, List.sum_cons, sum_frames_away,
    sum_frames_away] at hsum
  dsimp only at hsum
  omega

end TraceCounter

/-! ## Actions that step together -/

/-- Every while-stepping action has the step count `count`, and `left` steps left. -/
def Action.Steps (count left : Addr) : Action → Prop
  | .nil => True
  | .collect _ sibling => sibling.Steps count left
  | .while_ c l child sibling =>
    c = count ∧ l = left ∧ child.Steps count left ∧ sibling.Steps count left

/-- Whether there is a while-stepping action. -/
def Action.HasWhile (a : Action) : Prop := a.fromWhile.isSome

instance (a : Action) : Decidable a.HasWhile := inferInstanceAs (Decidable (_ = _))

/-- The steps that a round leaves before they are reset. -/
def leftAfter (left : Addr) : Addr := if left ≠ 0 then left - 1 else 0

/-- The steps after a round. -/
def nextLeft (count left : Addr) : Addr := if leftAfter left = 0 then count else leftAfter left

namespace Action

variable {count left : Addr}

theorem steps_of_not_hasWhile {a : Action} (h : ¬ a.HasWhile) : a.Steps count left := by
  induction a with
  | nil => trivial
  | collect ca sibling ih => exact ih h
  | while_ c l child sibling => exact absurd rfl h

theorem HasWhile.fromWhile {a : Action} (h : a.HasWhile) :
    ∃ c l child sibling, a.fromWhile = some (.while_ c l child sibling) := by
  induction a with
  | nil => cases h
  | collect ca sibling ih => exact ih h
  | while_ c l child sibling => exact ⟨c, l, child, sibling, rfl⟩

theorem Steps.fromWhile {a b : Action} (h : a.Steps count left) (hb : a.fromWhile = some b) :
    b.Steps count left := by
  induction a with
  | nil => cases hb
  | collect ca sibling ih => exact ih h hb
  | while_ c l child sibling =>
    cases hb
    exact h

theorem steps_setFromWhile (a : Action) {new : Action} (h : new.Steps count left) :
    (a.setFromWhile new).Steps count left := by
  induction a with
  | nil => trivial
  | collect ca sibling ih => exact ih
  | while_ => exact h

theorem hasWhile_setFromWhile {a new : Action} (ha : a.HasWhile) (h : new.HasWhile) :
    (a.setFromWhile new).HasWhile := by
  induction a with
  | nil => cases ha
  | collect ca sibling ih => exact ih ha
  | while_ => exact h

theorem hasWhile_doActionList (t : Target) (a : Action) (status : TracepointStatus) :
    (doActionList t a status).2.1.HasWhile ↔ a.HasWhile := by
  induction a generalizing status with
  | nil => rfl
  | collect ca sibling ih => exact ih status
  | while_ => exact Iff.rfl

theorem steps_doActionList (t : Target) {a : Action} (h : a.Steps count left)
    (h0 : left = 0 → count = 0) (status : TracepointStatus) :
    (doActionList t a status).2.1.Steps count (nextLeft count left) := by
  induction a generalizing status with
  | nil => trivial
  | collect ca sibling ih => exact ih h status
  | while_ c l child sibling ihc ihs =>
    obtain ⟨rfl, rfl, hc, hs⟩ := h
    refine ⟨rfl, rfl, ?_, ihs hs _⟩
    by_cases hl : l = 0
    · obtain rfl := hl
      obtain rfl := h0 rfl
      exact hc
    · have hchild := ihc hc .stepping
      simp only [ne_eq, hl, not_false_eq_true, ↓reduceIte]
      exact hchild

theorem status_doActionList (t : Target) {a : Action} (h : a.Steps count left)
    (status : TracepointStatus) :
    (doActionList t a status).2.2 =
      if a.HasWhile then (if leftAfter left = 0 then .enabled else .stepping) else status := by
  induction a generalizing status with
  | nil => rfl
  | collect ca sibling ih => exact ih h status
  | while_ c l child sibling ihc ihs =>
    obtain ⟨rfl, rfl, hc, hs⟩ := h
    have hw : (while_ c l child sibling).HasWhile := rfl
    rw [if_pos hw, doActionList]
    dsimp only
    rw [ihs hs]
    by_cases hleft : leftAfter l = 0
    · have hleft' : (if l ≠ 0 then l - 1 else 0) = 0 := hleft
      rw [if_pos hleft, if_pos hleft', ite_self]
    · have hleft' : (if l ≠ 0 then l - 1 else 0) ≠ 0 := hleft
      have hl : l ≠ 0 := fun hl => hleft (if_neg (not_not.mpr hl))
      rw [if_neg hleft, if_neg hleft', if_pos hl, ihc hc, if_neg hleft, ite_self, ite_self]

end Action

/-! ## One tracepoint -/

namespace Tracepoint

/-- What `handle_tracepoint` does to its tracepoint. -/
def handled (tp : Tracepoint) (t : Target) : Tracepoint :=
  match tp.status with
  | .disabled => tp
  | .stepping =>
    match tp.actions.fromWhile with
    | none => tp
    | some a =>
      let r := doActionList t a tp.status
      { tp with actions := tp.actions.setFromWhile r.2.1, status := r.2.2 }
  | .enabled =>
    if tp.passCount ≠ 0 ∧ tp.remainingPass = 0 then tp
    else
      let r := doActionList t tp.actions tp.status
      { tp with
        actions := r.2.1
        status := r.2.2
        remainingPass := if tp.passCount ≠ 0 then tp.remainingPass - 1 else tp.remainingPass }

/-- The frames that it adds. -/
def newFrames (tp : Tracepoint) : Nat :=
  match tp.status with
  | .disabled => 0
  | .stepping => if tp.actions.HasWhile then 1 else 0
  | .enabled => if tp.passCount ≠ 0 ∧ tp.remainingPass = 0 then 0 else 1

/-- The test for a call of `handle_tracepoint`. -/
def isHit (tp : Tracepoint) (atAddress : Bool) : Bool :=
  (atAddress && tp.status == .enabled) || tp.status == .stepping

/-- What an instruction does to the tracepoint: the frames and the tracepoint after it. -/
def executed (tp : Tracepoint) (t : Target) (atAddress : Bool) : Nat × Tracepoint :=
  if tp.isHit atAddress then (tp.newFrames, tp.handled t) else (0, tp)

end Tracepoint

theorem Ice.handleTracepoint_tps (s : Ice) (t : Target) (i : Nat) :
    (s.handleTracepoint t i).tps = Function.update s.tps i ((s.tps i).handled t) := by
  cases hst : (s.tps i).status with
  | disabled => simp [Ice.handleTracepoint, Tracepoint.handled, hst]
  | stepping =>
    simp only [Ice.handleTracepoint, Tracepoint.handled, hst]
    cases (s.tps i).actions.fromWhile with
    | none => simp
    | some a => rfl
  | enabled =>
    simp only [Ice.handleTracepoint, Tracepoint.handled, hst]
    split
    · simp
    · rfl

theorem Ice.handleTracepoint_tpsStatus (s : Ice) (t : Target) (i : Nat) :
    (s.handleTracepoint t i).tpsStatus = s.tpsStatus := by
  cases hst : (s.tps i).status with
  | disabled => simp [Ice.handleTracepoint, hst]
  | stepping =>
    simp only [Ice.handleTracepoint, hst]
    cases (s.tps i).actions.fromWhile with
    | none => rfl
    | some a => rfl
  | enabled =>
    simp only [Ice.handleTracepoint, hst]
    split <;> rfl

theorem Ice.handleTracepoint_length (s : Ice) (t : Target) (i : Nat) :
    (s.handleTracepoint t i).fb.length - s.fb.length = (s.tps i).newFrames := by
  have hlen : (s.doneActions i).toList.length = (s.tps i).newFrames := by
    cases hst : (s.tps i).status with
    | disabled => simp [Ice.doneActions, Tracepoint.newFrames, hst]
    | stepping =>
      simp only [Ice.doneActions, Tracepoint.newFrames, hst]
      split
      · rename_i hw
        obtain ⟨c, l, child, sibling, hfrom⟩ := Action.HasWhile.fromWhile hw
        rw [hfrom]
        rfl
      · rename_i hw
        rw [Option.not_isSome_iff_eq_none.mp hw]
        rfl
    | enabled =>
      simp only [Ice.doneActions, Tracepoint.newFrames, hst]
      split <;> rfl
  rw [Ice.handleTracepoint_fb, List.length_append, Nat.add_sub_cancel_left, ← hlen]
  cases s.doneActions i <;> rfl

/-- The tracepoint is as far as the counter says. -/
structure Tracepoint.Counts (n : Nat) (count : Addr) (hasWhile : Prop) (tp : Tracepoint)
    (c : TraceCounter) : Prop where
  pass : tp.passCount.toNat = n
  hits : n ≠ 0 → tp.remainingPass.toNat + c.hits = n
  hasWhile_iff : tp.actions.HasWhile ↔ hasWhile
  phase : (tp.status = .enabled ∧ c.steps = 0 ∧ tp.actions.Steps count count) ∨
    (tp.status = .stepping ∧ hasWhile ∧
      ∃ left, left ≠ 0 ∧ c.steps = left.toNat ∧ tp.actions.Steps count left)

/-- The steps that follow a hit: one less than the step count. -/
def stepsAfterHit (count : Addr) (hasWhile : Prop) [Decidable hasWhile] : Nat :=
  if hasWhile then count.toNat - 1 else 0

namespace Tracepoint

variable {n : Nat} {count : Addr} {hasWhile : Prop} {tp : Tracepoint} {c : TraceCounter}

theorem phase_after {a : Action} {left : Addr} {status : TracepointStatus} (hw : hasWhile)
    (ha : a.Steps count (nextLeft count left))
    (hst : status = if leftAfter left = 0 then .enabled else .stepping) :
    (status = .enabled ∧ left.toNat - 1 = 0 ∧ a.Steps count count) ∨
      (status = .stepping ∧ hasWhile ∧
        ∃ left', left' ≠ 0 ∧ left.toNat - 1 = left'.toNat ∧ a.Steps count left') := by
  have hsub : (leftAfter left).toNat = left.toNat - 1 := by
    unfold leftAfter
    split
    · rename_i h
      have hpos : left.toNat ≠ 0 := fun h0 => h (BitVec.eq_of_toNat_eq h0)
      have hlt := left.isLt
      rw [BitVec.toNat_sub]
      simp
      omega
    · rename_i h
      obtain rfl := not_not.mp h
      rfl
  by_cases hl : leftAfter left = 0
  · rw [if_pos hl] at hst
    rw [nextLeft, if_pos hl] at ha
    exact .inl ⟨hst, by rw [← hsub, hl]; rfl, ha⟩
  · rw [if_neg hl] at hst
    rw [nextLeft, if_neg hl] at ha
    exact .inr ⟨hst, hw, leftAfter left, hl, hsub.symm, ha⟩

/-- Whether a hit is traced: the pass count is not used up. -/
theorem Counts.usedUp_iff (h : tp.Counts n count hasWhile c) :
    (tp.passCount ≠ 0 ∧ tp.remainingPass = 0) ↔ ¬ (n = 0 ∨ c.hits < n) := by
  have hpass := h.pass
  have hp : tp.passCount = 0 ↔ n = 0 := by
    rw [← hpass, ← BitVec.toNat_inj]
    rfl
  have hr : tp.remainingPass = 0 ↔ tp.remainingPass.toNat = 0 := by
    rw [← BitVec.toNat_inj]
    rfl
  have hh := h.hits
  rw [ne_eq, hp, hr, not_or]
  refine and_congr_right fun hn => ?_
  have := hh hn
  omega

theorem Counts.hit [Decidable hasWhile] (h : tp.Counts n count hasWhile c) (t : Target)
    (hst : tp.status = .enabled) (ha : tp.actions.Steps count count)
    (htr : ¬ (tp.passCount ≠ 0 ∧ tp.remainingPass = 0)) :
    (tp.handled t).Counts n count hasWhile ⟨c.hits + 1, stepsAfterHit count hasWhile⟩ := by
  have hnot := mt h.usedUp_iff.mpr htr
  rw [handled, hst]
  dsimp only
  rw [if_neg htr]
  have hstat := Action.status_doActionList t ha .enabled
  refine ⟨h.pass, fun hn => ?_, (Action.hasWhile_doActionList t _ _).trans h.hasWhile_iff, ?_⟩
  · have hsum := h.hits hn
    have hp : tp.passCount ≠ 0 := fun h0 => hn (by rw [← h.pass, h0]; rfl)
    have hr : tp.remainingPass ≠ 0 := fun h0 => htr ⟨hp, h0⟩
    have hrn : tp.remainingPass.toNat ≠ 0 := fun h0 => hr (BitVec.eq_of_toNat_eq h0)
    have hlt := tp.remainingPass.isLt
    dsimp only
    rw [if_pos hp, BitVec.toNat_sub]
    simp
    omega
  · by_cases hw : hasWhile
    · rw [if_pos (h.hasWhile_iff.mpr hw)] at hstat
      rw [stepsAfterHit, if_pos hw]
      exact phase_after hw (Action.steps_doActionList t ha id _) hstat
    · have hno : ¬ tp.actions.HasWhile := mt h.hasWhile_iff.mp hw
      rw [if_neg hno] at hstat
      rw [stepsAfterHit, if_neg hw]
      exact .inl ⟨hstat, rfl,
        Action.steps_of_not_hasWhile (mt (Action.hasWhile_doActionList t _ _).mp hno)⟩

theorem Counts.stepped (h : tp.Counts n count hasWhile c) (t : Target) {left : Addr}
    (hst : tp.status = .stepping) (hw : hasWhile) (hleft : left ≠ 0)
    (hc : c.steps = left.toNat) (ha : tp.actions.Steps count left) :
    (tp.handled t).Counts n count hasWhile { c with steps := c.steps - 1 } := by
  obtain ⟨k, l, child, sibling, hfrom⟩ := (h.hasWhile_iff.mpr hw).fromWhile
  have hsteps := ha.fromWhile hfrom
  have hstat := Action.status_doActionList t hsteps .stepping
  have hwhile : (Action.while_ k l child sibling).HasWhile := rfl
  rw [if_pos hwhile] at hstat
  rw [handled, hst, hfrom]
  refine ⟨h.pass, h.hits, ?_, ?_⟩
  · refine iff_of_true ?_ hw
    exact Action.hasWhile_setFromWhile (h.hasWhile_iff.mpr hw)
      ((Action.hasWhile_doActionList t _ _).mpr hwhile)
  · rw [hc]
    refine phase_after hw (Action.steps_setFromWhile _ ?_) hstat
    exact Action.steps_doActionList t hsteps (fun h0 => absurd h0 hleft) _

theorem Counts.executed [Decidable hasWhile] (h : tp.Counts n count hasWhile c) (t : Target)
    (b : Bool) :
    (tp.executed t b).1 = (c.step n (stepsAfterHit count hasWhile) b).1 ∧
      (tp.executed t b).2.Counts n count hasWhile
        (c.step n (stepsAfterHit count hasWhile) b).2 := by
  rcases h.phase with ⟨hst, hc, ha⟩ | ⟨hst, hw, left, hleft, hc, ha⟩
  · have hhit : tp.isHit b = b := by simp [isHit, hst]
    have hno : ¬ 0 < c.steps := by omega
    rw [Tracepoint.executed, hhit, TraceCounter.step, if_neg hno]
    cases b with
    | false => simpa using h
    | true =>
      by_cases hu : tp.passCount ≠ 0 ∧ tp.remainingPass = 0
      · have hnot := h.usedUp_iff.mp hu
        have hsame : tp.handled t = tp := by
          rw [handled, hst]
          exact if_pos hu
        have hzero : tp.newFrames = 0 := by
          rw [newFrames, hst]
          exact if_pos hu
        rw [if_pos rfl, if_neg fun hh => hnot hh.2, hsame, hzero]
        exact ⟨rfl, h⟩
      · have hyes := not_not.mp (mt h.usedUp_iff.mpr hu)
        have hone : tp.newFrames = 1 := by
          rw [newFrames, hst]
          exact if_neg hu
        rw [if_pos rfl, if_pos ⟨rfl, hyes⟩, hone]
        exact ⟨rfl, h.hit t hst ha hu⟩
  · have hhit : tp.isHit b = true := by simp [isHit, hst]
    have hpos : 0 < c.steps := by
      rw [hc]
      exact Nat.pos_of_ne_zero fun h0 => hleft (BitVec.eq_of_toNat_eq h0)
    have hone : tp.newFrames = 1 := by
      rw [newFrames, hst]
      exact if_pos (h.hasWhile_iff.mpr hw)
    rw [Tracepoint.executed, hhit, if_pos rfl, TraceCounter.step, if_pos hpos, hone]
    exact ⟨rfl, h.stepped t hst hw hleft hc ha⟩

end Tracepoint

/-! ## The table -/

/-- The frames that the calls for tracepoint `i` add. -/
def framesOf (i : Nat) (calls : List (Nat × Nat)) : Nat :=
  ((calls.filter fun c => c.1 == i).map Prod.snd).sum

theorem framesOf_append (i : Nat) (cs ds : List (Nat × Nat)) :
    framesOf i (cs ++ ds) = framesOf i cs + framesOf i ds := by
  simp [framesOf]

namespace TraceIce

variable {s : TraceIce}

theorem handleAt_executed (t : Target) (addr : Addr) (r : List (Nat × Nat) × TraceIce) (i : Nat) :
    (handleAt t addr r i).2.tps =
        Function.update r.2.tps i ((r.2.tps i).executed t (r.2.tpAddress i == addr)).2 ∧
      (handleAt t addr r i).2.tpsStatus = r.2.tpsStatus ∧
      ∀ j, framesOf j (handleAt t addr r i).1 = framesOf j r.1 +
        if j = i then ((r.2.tps i).executed t (r.2.tpAddress i == addr)).1 else 0 := by
  have hhits : r.2.hits i addr = (r.2.tps i).isHit (r.2.tpAddress i == addr) := rfl
  rw [handleAt, hhits, Tracepoint.executed]
  by_cases h : (r.2.tps i).isHit (r.2.tpAddress i == addr)
  · rw [if_pos h, if_pos h]
    refine ⟨Ice.handleTracepoint_tps .., Ice.handleTracepoint_tpsStatus .., fun j => ?_⟩
    rw [framesOf_append, Ice.handleTracepoint_length]
    by_cases hj : j = i
    · simp [framesOf, hj]
    · simp [framesOf, hj, Ne.symm hj]
  · rw [if_neg h, if_neg h]
    exact ⟨(Function.update_eq_self ..).symm, rfl, fun j => by simp⟩

/-- The loop does to every tracepoint before its end what an instruction does to it. -/
theorem foldl_handleAt_executed (t : Target) (addr : Addr) (n : Nat) :
    let r := (List.range n).foldl (handleAt t addr) ([], s)
    r.2.tpsStatus = s.tpsStatus ∧
      ∀ j, (r.2.tps j = if j < n then ((s.tps j).executed t (s.tpAddress j == addr)).2
          else s.tps j) ∧
        framesOf j r.1 = if j < n then ((s.tps j).executed t (s.tpAddress j == addr)).1 else 0 := by
  induction n with
  | zero => exact ⟨rfl, fun j => ⟨rfl, rfl⟩⟩
  | succ n ih =>
    obtain ⟨hst, hj⟩ := ih
    obtain ⟨-, haddr, -⟩ := foldl_handleAt (s := s) t addr n
    simp only [List.range_succ, List.foldl_append, List.foldl_cons, List.foldl_nil]
    obtain ⟨htps, hst', hframes⟩ := handleAt_executed t addr
      ((List.range n).foldl (handleAt t addr) ([], s)) n
    refine ⟨hst'.trans hst, fun j => ?_⟩
    have hn : ((List.range n).foldl (handleAt t addr) ([], s)).2.tps n = s.tps n := by
      rw [(hj n).1, if_neg (Nat.lt_irrefl n)]
    rw [htps, hframes, hn, haddr, (hj j).2]
    rcases Nat.lt_trichotomy j n with hlt | rfl | hgt
    · rw [Function.update_of_ne (Nat.ne_of_lt hlt), (hj j).1, if_pos hlt, if_pos hlt,
        if_neg (Nat.ne_of_lt hlt), if_pos (Nat.lt_succ_of_lt hlt),
        if_pos (Nat.lt_succ_of_lt hlt)]
      exact ⟨rfl, rfl⟩
    · rw [Function.update_self, if_neg (Nat.lt_irrefl j), if_pos rfl,
        if_pos (Nat.lt_succ_self j), if_pos (Nat.lt_succ_self j), Nat.zero_add]
      exact ⟨rfl, rfl⟩
    · have hno : ¬ j < n := by omega
      have hle : ¬ j < n + 1 := by omega
      rw [Function.update_of_ne (Nat.ne_of_gt hgt), (hj j).1]
      simp only [if_neg hno, if_neg hle, if_neg (Nat.ne_of_gt hgt), and_self]

/-- The hook treats every tracepoint of the table, whatever the others do. -/
theorem hook_executed (hs : s.tpsStatus = .started) (t : Target) (addr : Addr) {i : Nat}
    (hi : i < s.numTps) :
    framesOf i (s.hook t addr).1 = ((s.tps i).executed t (s.tpAddress i == addr)).1 ∧
      (s.hook t addr).2.tps i = ((s.tps i).executed t (s.tpAddress i == addr)).2 ∧
      (s.hook t addr).2.tpsStatus = .started := by
  obtain ⟨hst, hj⟩ := foldl_handleAt_executed (s := s) t addr s.numTps
  obtain ⟨htps, hframes⟩ := hj i
  rw [if_pos hi] at htps hframes
  rw [hook, if_pos hs]
  exact ⟨hframes, htps, hst.trans hs⟩

/-- The calls of `handle_tracepoint` at each instruction of a run. -/
def execute (s : TraceIce) : List (Target × Addr) → List (List (Nat × Nat))
  | [] => []
  | (t, addr) :: rest => (s.hook t addr).1 :: execute (s.hook t addr).2 rest

/-- The frames of tracepoint `i` at each instruction of a run. -/
def framesIn (s : TraceIce) (i : Nat) (run : List (Target × Addr)) : List Nat :=
  (s.execute run).map (framesOf i)

/-- A run traces what the counter counts. -/
theorem framesIn_eq {n : Nat} {count : Addr} {hasWhile : Prop} [Decidable hasWhile] {i : Nat}
    (run : List (Target × Addr)) {c : TraceCounter} (hs : s.tpsStatus = .started)
    (hi : i < s.numTps) (hc : (s.tps i).Counts n count hasWhile c) :
    s.framesIn i run = TraceCounter.frames n (stepsAfterHit count hasWhile) c
      (run.map fun x => s.tpAddress i == x.2) := by
  induction run generalizing s c with
  | nil => rfl
  | cons x run ih =>
    obtain ⟨t, addr⟩ := x
    obtain ⟨hframes, htps, hst⟩ := hook_executed hs t addr hi
    obtain ⟨hnum, haddr, -⟩ := hook_keeps (s := s) t addr
    obtain ⟨hone, hnext⟩ := hc.executed t (s.tpAddress i == addr)
    have hrest := ih hst (hi.trans_eq hnum.symm) (htps ▸ hnext)
    rw [haddr] at hrest
    rw [framesIn, execute, List.map_cons, hframes, hone, List.map_cons, TraceCounter.frames]
    exact congrArg _ hrest

end TraceIce

/-- A tracepoint of a table that has been defined and enabled, when tracing starts: its
while-stepping actions have its step count. -/
structure Armed where
  ice : TraceIce
  tpId : Nat
  started : ice.tpsStatus = .started
  tpId_lt : tpId < ice.numTps
  enabled : (ice.tps tpId).status = .enabled
  fresh : (ice.tps tpId).remainingPass = (ice.tps tpId).passCount
  steps : (ice.tps tpId).actions.Steps (ice.remainingStep tpId) (ice.remainingStep tpId)

namespace Armed

variable (a : Armed)

def tracepoint : Tracepoint := a.ice.tps a.tpId

/-- The number of frames that are to follow a hit. -/
def stepCount : Nat :=
  if a.tracepoint.actions.HasWhile then (a.ice.remainingStep a.tpId).toNat else 0

theorem counts : a.tracepoint.Counts a.tracepoint.passCount.toNat (a.ice.remainingStep a.tpId)
    a.tracepoint.actions.HasWhile ⟨0, 0⟩ where
  pass := rfl
  hits _ := congrArg BitVec.toNat a.fresh
  hasWhile_iff := Iff.rfl
  phase := .inl ⟨a.enabled, rfl, a.steps⟩

/-- The frames that the definition of the tracepoint asks for in a run. -/
def Obeys (run : List (Target × Addr)) : Prop :=
  a.ice.framesIn a.tpId run = TraceCounter.frames a.tracepoint.passCount.toNat a.stepCount ⟨0, 0⟩
    (run.map fun x => a.ice.tpAddress a.tpId == x.2)

theorem stepsAfterHit_eq :
    stepsAfterHit (a.ice.remainingStep a.tpId) a.tracepoint.actions.HasWhile =
      a.stepCount - 1 := by
  unfold stepsAfterHit stepCount
  split <;> rfl

/-- What the code traces: one frame less than the step count after a hit. -/
theorem framesIn_eq (run : List (Target × Addr)) :
    a.ice.framesIn a.tpId run =
      TraceCounter.frames a.tracepoint.passCount.toNat (a.stepCount - 1) ⟨0, 0⟩
        (run.map fun x => a.ice.tpAddress a.tpId == x.2) := by
  rw [← stepsAfterHit_eq]
  exact TraceIce.framesIn_eq run a.started a.tpId_lt a.counts

/-- A run that hits the tracepoint and goes on behind it. -/
def passing (t : Target) : List (Target × Addr) :=
  (t, a.ice.tpAddress a.tpId) :: List.replicate a.stepCount (t, a.ice.tpAddress a.tpId + 1)

theorem map_passing (t : Target) :
    ((a.passing t).map fun x => a.ice.tpAddress a.tpId == x.2) =
      true :: List.replicate a.stepCount false := by
  have hne : (a.ice.tpAddress a.tpId == a.ice.tpAddress a.tpId + 1) = false := by
    simp
  rw [passing, List.map_cons, List.map_replicate, hne, beq_self_eq_true]

/-- Every run is traced as the definition says exactly if the tracepoint has no
while-stepping action or no step to take. -/
theorem trace_counting_iff : (∀ run, a.Obeys run) ↔ a.stepCount = 0 := by
  constructor
  · intro h
    by_contra hne
    have hrun := h (a.passing ⟨fun _ => none, [], fun _ => 0, false⟩)
    rw [Obeys, framesIn_eq, map_passing] at hrun
    exact TraceCounter.frames_ne_of_lt (Nat.sub_one_lt hne) hrun.symm
  · intro h0 run
    rw [Obeys, framesIn_eq, h0]

end Armed

/-- A tracepoint that collects the registers at a hit and in two further steps. -/
def twoSteps : Armed where
  ice :=
    { tpsStatus := .started
      tps := fun _ =>
        { number := 1
          actions := .while_ 2 2 (.collect (.registers 0) .nil) .nil
          status := .enabled
          passCount := 0
          remainingPass := 0 }
      fb := []
      selectedFb := none
      numTps := 1
      tpAddress := fun _ => 0x100
      remainingStep := fun _ => 2 }
  tpId := 0
  started := rfl
  tpId_lt := Nat.one_pos
  enabled := rfl
  fresh := rfl
  steps := ⟨rfl, rfl, trivial, trivial⟩

/-- Two instructions behind the hit there is no frame any more. -/
theorem two_steps_one_frame :
    twoSteps.ice.framesIn 0
        [(stackTarget, 0x100), (stackTarget, 0x104), (stackTarget, 0x108)] = [1, 1, 0] ∧
      TraceCounter.frames 0 2 ⟨0, 0⟩ [true, false, false] = [1, 1, 1] := by
  decide

end SkyEye.Gdb
