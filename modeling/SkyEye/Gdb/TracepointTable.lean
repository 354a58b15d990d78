import SkyEye.Gdb.TracePacket
import SkyEye.Gdb.Replay

/-!
# The tracepoint table

The table of `gdb_tracepoint.c` with its count, as the trace packets and the execution use
it. A packet that defines a tracepoint looks it up by number and address, or adds it; the
position found is the index of everything that is done next, also when it is -1.
-/

namespace SkyEye.Gdb

def maxTracepoints : Nat := 64

/-- The trace part of `SkyEye_ICE` with `num_tps` and the fields of `tps` that packets look
at. -/
structure TraceIce extends Ice where
  numTps : Nat
  tpAddress : Nat → Addr
  remainingStep : Nat → Addr

/-- `prepare_action`: behind the last sibling. -/
def Action.append : Action → Action → Action
  | .nil, new => new
  | .collect ca sibling, new => .collect ca (sibling.append new)
  | .while_ count left child sibling, new => .while_ count left child (sibling.append new)

/-- The action that a payload adds; `S` takes the tracepoint's step for both counts. -/
def Payload.action (step : Addr) : Payload → Action
  | .registers mask => .collect (.registers mask) .nil
  | .memory mc => .collect (.memory mc) .nil
  | .whileStepping p => .while_ step step (p.action step) .nil
  | _ => .nil

/-- The status, step and pass count that a payload sets. -/
def Payload.setting : Payload → Option (TracepointStatus × Addr × Addr)
  | .enable step pass => some (.enabled, step, pass)
  | .disable step pass => some (.disabled, step, pass)
  | .whileStepping p => p.setting
  | _ => none

/-- The calls of `decode_DP_playload` that have `tp_id` for an index; under a parent action
`prepare_action` has none. -/
def Payload.indexUses (parent : Bool) : Payload → Nat
  | .enable .. | .disable .. => 4
  | .registers _ | .memory _ => if parent then 0 else 1
  | .whileStepping p => (if parent then 0 else 1) + 2 + p.indexUses true
  | .nothing => 0

namespace TraceIce

variable (s : TraceIce)

/-- `find_tp_id`; none for -1. -/
def findTpId (tpNumber tpAddress : Addr) : Option Nat :=
  (List.range s.numTps).find? fun i =>
    (s.tps i).number == tpNumber && s.tpAddress i == tpAddress

def addTracepoint (tpNumber tpAddress : Addr) : Option Nat × TraceIce :=
  if s.numTps < maxTracepoints then
    let i := s.numTps
    (some i,
      { s with
        tps := Function.update s.tps i
          { s.tps i with
            number := tpNumber
            status := .disabled
            passCount := 0
            remainingPass := 0 }
        tpAddress := Function.update s.tpAddress i tpAddress
        remainingStep := Function.update s.remainingStep i 0
        numTps := i + 1 })
  else (none, s)

/-- What `decode_DP_playload` does to the tracepoint at `i`. -/
def applyPayload (i : Nat) (p : Payload) : TraceIce :=
  let tp := s.tps i
  let actions := tp.actions.append (p.action (s.remainingStep i))
  match p.setting with
  | none => { s with tps := Function.update s.tps i { tp with actions } }
  | some (status, step, pass) =>
    { s with
      tps := Function.update s.tps i
        { tp with actions, status, passCount := pass, remainingPass := pass }
      remainingStep := Function.update s.remainingStep i step }

/-- `decode_DP_packet`: the indices used, and the table after it. What an index of -1 does to
the memory before the table is not followed. -/
def define (tpNumber tpAddress : Addr) (p : Payload) : List (Option Nat) × TraceIce :=
  let (tpId, s) := match s.findTpId tpNumber tpAddress with
    | some i => (some i, s)
    | none => s.addTracepoint tpNumber tpAddress
  (List.replicate (p.indexUses false) tpId,
    match tpId with
    | some i => s.applyPayload i p
    | none => s)

/-- `init_tracepoints` -/
def init : TraceIce :=
  { s with
    toIce := { s.toIce.initTracepoints with tps := fun i => { s.tps i with actions := .nil } }
    numTps := 0 }

/-- `decode_Frame_packet` -/
def frame : FrameRequest → TraceIce
  | .pc | .range | .outside => { s with toIce := s.toIce.startTraceFocusing }
  | .tdp n => { s with toIce := (s.toIce.startTraceFocusing.selectFrameBufferByTpn n).2 }
  | .number n =>
    if n = 0xFFFFFFFF then { s with toIce := s.toIce.startTraceFocusing.stopTraceFocusing }
    else { s with toIce := (s.toIce.startTraceFocusing.selectFrameBufferByFn n).2 }

/-- `decode_Q_packet`: the indices used and the state after it. -/
def packet : QPacket → List (Option Nat) × TraceIce
  | .init => ([], s.init)
  | .start => ([], { s with tpsStatus := .started })
  | .stop => ([], { s with tpsStatus := .stopped })
  | .define tpNumber tpAddress p => s.define tpNumber tpAddress p
  | .frame f => ([], s.frame f)
  | .readOnly _ | .unknown => ([], s)

/-- The test that `ARMul_ICE_debug` and `sim_resume` make. -/
def hits (i : Nat) (addr : Addr) : Bool :=
  (s.tpAddress i == addr && (s.tps i).status == .enabled) || (s.tps i).status == .stepping

/-- One round of their loop; a call of `handle_tracepoint` is on record with the number of
frames it adds. -/
def handleAt (t : Target) (addr : Addr) (r : List (Nat × Nat) × TraceIce) (i : Nat) :
    List (Nat × Nat) × TraceIce :=
  if r.2.hits i addr then
    let ice := r.2.toIce.handleTracepoint t i
    (r.1 ++ [(i, ice.fb.length - r.2.fb.length)], { r.2 with toIce := ice })
  else r

/-- The loop over the tracepoints, before an instruction at which no breakpoint stops. -/
def hook (t : Target) (addr : Addr) : List (Nat × Nat) × TraceIce :=
  if s.tpsStatus = .started then (List.range s.numTps).foldl (handleAt t addr) ([], s)
  else ([], s)

end TraceIce

/-- What reaches the table: a packet or an instruction. -/
inductive TableOp where
  | packet (q : QPacket)
  | execute (t : Target) (addr : Addr)

namespace TraceIce

variable (s : TraceIce)

/-- The indices of the table that are used, and the state after it. -/
def step : TableOp → List (Option Nat) × TraceIce
  | .packet q => s.packet q
  | .execute t addr => ((s.hook t addr).1.map fun c => some c.1, (s.hook t addr).2)

def run (ops : List TableOp) : TraceIce := ops.foldl (fun s op => (s.step op).2) s

/-- No tracepoints yet. -/
def boot (ice : Ice) (tpAddress remainingStep : Nat → Addr) : TraceIce where
  toIce := ice
  numTps := 0
  tpAddress := tpAddress
  remainingStep := remainingStep

/-- The index is one of a tracepoint in the table. -/
def Within (u : Option Nat) : Prop := ∃ i, u = some i ∧ i < s.numTps

/-- A packet that defines something finds its tracepoint or room for it. -/
def HasRoom : TableOp → Prop
  | .packet (.define tpNumber tpAddress p) =>
    p.indexUses false = 0 ∨ (s.findTpId tpNumber tpAddress).isSome ∨ s.numTps < maxTracepoints
  | _ => True

variable {s}

/-! ## Packets -/

theorem findTpId_lt {n a : Addr} {i : Nat} (h : s.findTpId n a = some i) : i < s.numTps :=
  List.mem_range.mp (List.mem_of_find?_eq_some h)

theorem addTracepoint_of_room {n a : Addr} (h : s.numTps < maxTracepoints) :
    (s.addTracepoint n a).1 = some s.numTps ∧ (s.addTracepoint n a).2.numTps = s.numTps + 1 := by
  rw [addTracepoint, if_pos h]
  exact ⟨rfl, rfl⟩

theorem addTracepoint_of_full {n a : Addr} (h : maxTracepoints ≤ s.numTps) :
    s.addTracepoint n a = (none, s) := by
  rw [addTracepoint, if_neg (Nat.not_lt.mpr h)]

@[simp] theorem numTps_applyPayload (i : Nat) (p : Payload) :
    (s.applyPayload i p).numTps = s.numTps := by
  unfold applyPayload
  split <;> rfl

/-- A definition of a tracepoint that is found. -/
theorem define_of_found {n a : Addr} {p : Payload} {i : Nat} (h : s.findTpId n a = some i) :
    s.define n a p = (List.replicate (p.indexUses false) (some i), s.applyPayload i p) := by
  rw [define, h]

/-- A definition that adds a tracepoint. -/
theorem define_of_room {n a : Addr} {p : Payload} (h : s.findTpId n a = none)
    (hr : s.numTps < maxTracepoints) :
    s.define n a p = (List.replicate (p.indexUses false) (some s.numTps),
      (s.addTracepoint n a).2.applyPayload s.numTps p) := by
  rw [define, h, addTracepoint, if_pos hr]

/-- A definition that has no place. -/
theorem define_of_full {n a : Addr} {p : Payload} (h : s.findTpId n a = none)
    (hr : maxTracepoints ≤ s.numTps) :
    s.define n a p = (List.replicate (p.indexUses false) none, s) := by
  rw [define, h, addTracepoint_of_full hr]

theorem within_replicate {s' : TraceIce} {k : Nat} {u : Option Nat} :
    (∀ v ∈ List.replicate k u, s'.Within v) ↔ k = 0 ∨ s'.Within u := by
  constructor
  · intro h
    by_cases hk : k = 0
    · exact .inl hk
    · exact .inr (h u (List.mem_replicate.mpr ⟨hk, rfl⟩))
  · rintro h v hv
    obtain ⟨hk, rfl⟩ := List.mem_replicate.mp hv
    exact h.resolve_left hk

/-- The indices that a definition uses are of the table exactly if it has room. -/
theorem define_within_iff (n a : Addr) (p : Payload) :
    (∀ u ∈ (s.define n a p).1, (s.define n a p).2.Within u) ↔
      s.HasRoom (.packet (.define n a p)) := by
  cases hf : s.findTpId n a with
  | some i =>
    rw [define_of_found hf, within_replicate]
    refine iff_of_true (.inr ⟨i, rfl, ?_⟩) (.inr (.inl (by rw [hf]; rfl)))
    rw [numTps_applyPayload]
    exact findTpId_lt hf
  | none =>
    by_cases hr : s.numTps < maxTracepoints
    · rw [define_of_room hf hr, within_replicate]
      refine iff_of_true (.inr ⟨_, rfl, ?_⟩) (.inr (.inr hr))
      rw [numTps_applyPayload, (addTracepoint_of_room hr).2]
      exact Nat.lt_succ_self _
    · rw [define_of_full hf (Nat.le_of_not_lt hr), within_replicate]
      have hnone : ¬ s.Within none := fun ⟨_, h, _⟩ => nomatch h
      simp only [hnone, or_false, HasRoom, hf, Option.isSome_none, Bool.false_eq_true, hr]

theorem numTps_define_le {n a : Addr} {p : Payload} (h : s.numTps ≤ maxTracepoints) :
    (s.define n a p).2.numTps ≤ maxTracepoints := by
  cases hf : s.findTpId n a with
  | some i => rw [define_of_found hf, numTps_applyPayload]; exact h
  | none =>
    by_cases hr : s.numTps < maxTracepoints
    · rw [define_of_room hf hr, numTps_applyPayload, (addTracepoint_of_room hr).2]
      exact hr
    · rw [define_of_full hf (Nat.le_of_not_lt hr)]
      exact h

@[simp] theorem numTps_frame (f : FrameRequest) : (s.frame f).numTps = s.numTps := by
  cases f with
  | number n => rw [frame]; split <;> rfl
  | _ => rfl

/-! ## Instructions -/

/-- What a call of `handle_tracepoint` does besides tracing is nothing. -/
theorem handleAt_keeps (t : Target) (addr : Addr) (r : List (Nat × Nat) × TraceIce) (i : Nat) :
    (handleAt t addr r i).2.numTps = r.2.numTps ∧
      (handleAt t addr r i).2.tpAddress = r.2.tpAddress := by
  unfold handleAt
  split <;> exact ⟨rfl, rfl⟩

theorem handleAt_calls (t : Target) (addr : Addr) (r : List (Nat × Nat) × TraceIce) (i : Nat) :
    ∀ c ∈ (handleAt t addr r i).1, c ∈ r.1 ∨ c.1 = i := by
  unfold handleAt
  split
  · intro c hc
    rcases List.mem_append.mp hc with hc | hc
    · exact .inl hc
    · exact .inr (by rw [List.mem_singleton.mp hc])
  · exact fun c hc => .inl hc

/-- The loop calls `handle_tracepoint` with indices below its end. -/
theorem foldl_handleAt (t : Target) (addr : Addr) (n : Nat) :
    ((List.range n).foldl (handleAt t addr) ([], s)).2.numTps = s.numTps ∧
      ((List.range n).foldl (handleAt t addr) ([], s)).2.tpAddress = s.tpAddress ∧
      ∀ c ∈ ((List.range n).foldl (handleAt t addr) ([], s)).1, c.1 < n := by
  induction n with
  | zero => exact ⟨rfl, rfl, fun c hc => nomatch hc⟩
  | succ n ih =>
    obtain ⟨hn, ha, hc⟩ := ih
    rw [List.range_succ, List.foldl_append, List.foldl_cons, List.foldl_nil]
    obtain ⟨hn', ha'⟩ := handleAt_keeps t addr
      ((List.range n).foldl (handleAt t addr) ([], s)) n
    refine ⟨hn'.trans hn, ha'.trans ha, fun c hm => ?_⟩
    rcases handleAt_calls t addr _ n c hm with h | rfl
    · exact Nat.lt_succ_of_lt (hc c h)
    · exact Nat.lt_succ_self _

theorem hook_keeps (t : Target) (addr : Addr) :
    (s.hook t addr).2.numTps = s.numTps ∧ (s.hook t addr).2.tpAddress = s.tpAddress ∧
      ∀ c ∈ (s.hook t addr).1, c.1 < s.numTps := by
  unfold hook
  split
  · exact foldl_handleAt t addr s.numTps
  · exact ⟨rfl, rfl, fun c hc => nomatch hc⟩

/-! ## Runs -/

theorem step_within_iff (op : TableOp) :
    (∀ u ∈ (s.step op).1, (s.step op).2.Within u) ↔ s.HasRoom op := by
  cases op with
  | packet q =>
    cases q with
    | define n a p => exact define_within_iff n a p
    | init => exact iff_of_true (fun u hu => nomatch hu) trivial
    | start => exact iff_of_true (fun u hu => nomatch hu) trivial
    | stop => exact iff_of_true (fun u hu => nomatch hu) trivial
    | frame f => exact iff_of_true (fun u hu => nomatch hu) trivial
    | readOnly rs => exact iff_of_true (fun u hu => nomatch hu) trivial
    | unknown => exact iff_of_true (fun u hu => nomatch hu) trivial
  | execute t addr =>
    obtain ⟨hn, -, hc⟩ := s.hook_keeps t addr
    refine iff_of_true (fun u hu => ?_) trivial
    obtain ⟨c, hcm, rfl⟩ := List.mem_map.mp hu
    exact ⟨c.1, rfl, (hc c hcm).trans_eq hn.symm⟩

theorem numTps_step_le (h : s.numTps ≤ maxTracepoints) (op : TableOp) :
    (s.step op).2.numTps ≤ maxTracepoints := by
  cases op with
  | packet q =>
    cases q with
    | define n a p => exact numTps_define_le h
    | init => exact Nat.zero_le _
    | frame f => exact (numTps_frame f).trans_le h
    | start => exact h
    | stop => exact h
    | readOnly rs => exact h
    | unknown => exact h
  | execute t addr => exact (s.hook_keeps t addr).1.trans_le h

theorem numTps_run_le (h : s.numTps ≤ maxTracepoints) (ops : List TableOp) :
    (s.run ops).numTps ≤ maxTracepoints := by
  induction ops generalizing s with
  | nil => exact h
  | cons op ops ih => exact ih (numTps_step_le h op)

/-- In a run the table stays within its array, and every index used is of a tracepoint in
it exactly if every packet that defines something finds its tracepoint or room for it. -/
theorem indices_within_iff (ice : Ice) (tpAddress remainingStep : Nat → Addr)
    (ops : List TableOp) :
    let s := boot ice tpAddress remainingStep
    (∀ pre post, ops = pre ++ post → (s.run pre).numTps ≤ maxTracepoints) ∧
      ((∀ pre op post, ops = pre ++ op :: post →
        ∀ u ∈ ((s.run pre).step op).1, ((s.run pre).step op).2.Within u) ↔
      ∀ pre op post, ops = pre ++ op :: post → (s.run pre).HasRoom op) := by
  intro s
  have hstep : ∀ pre op, (∀ u ∈ ((s.run pre).step op).1, ((s.run pre).step op).2.Within u) ↔
      (s.run pre).HasRoom op := fun pre op => step_within_iff op
  refine ⟨fun pre _ _ => numTps_run_le (Nat.zero_le _) pre, ?_⟩
  simp only [hstep]

/-! ## A table that is filled -/

/-- Definitions of `k` tracepoints with different numbers. -/
def fill (k : Nat) : List TableOp :=
  (List.range k).map fun i => .packet (.define (BitVec.ofNat 32 i) 0 (.enable 0 0))

/-- The state the program starts with. -/
def noTracepoints : TraceIce :=
  boot (Traced.start fun _ => ⟨0, .nil, .disabled, 0, 0⟩).ice (fun _ => 0) fun _ => 0

theorem findTpId_eq_none {n a : Addr} (h : ∀ i < s.numTps, (s.tps i).number ≠ n) :
    s.findTpId n a = none := by
  refine List.find?_eq_none.mpr fun i hi => ?_
  simp [h i (List.mem_range.mp hi)]

/-- A definition that adds a tracepoint leaves the numbers of the others. -/
theorem number_define_of_room {n a : Addr} {p : Payload} (h : s.findTpId n a = none)
    (hr : s.numTps < maxTracepoints) :
    (s.define n a p).2.numTps = s.numTps + 1 ∧
      ((s.define n a p).2.tps s.numTps).number = n ∧
      ∀ i < s.numTps, ((s.define n a p).2.tps i).number = (s.tps i).number := by
  rw [define_of_room h hr, numTps_applyPayload]
  refine ⟨(addTracepoint_of_room hr).2, ?_, fun i hi => ?_⟩
  · rw [addTracepoint, if_pos hr, applyPayload]
    split <;> simp
  · have hne : i ≠ s.numTps := Nat.ne_of_lt hi
    rw [addTracepoint, if_pos hr, applyPayload]
    split <;> simp [hne]

theorem run_fill {k : Nat} (hk : k ≤ maxTracepoints) :
    (noTracepoints.run (fill k)).numTps = k ∧
      ∀ i < k, ((noTracepoints.run (fill k)).tps i).number = BitVec.ofNat 32 i := by
  induction k with
  | zero => exact ⟨rfl, fun i hi => absurd hi (Nat.not_lt_zero i)⟩
  | succ k ih =>
    obtain ⟨hn, hnum⟩ := ih (Nat.le_of_succ_le hk)
    have hrun : noTracepoints.run (fill (k + 1)) =
        ((noTracepoints.run (fill k)).define (BitVec.ofNat 32 k) 0 (.enable 0 0)).2 := by
      rw [fill, List.range_succ, List.map_append, run, List.foldl_append]
      rfl
    have hnone : (noTracepoints.run (fill k)).findTpId (BitVec.ofNat 32 k) 0 = none := by
      refine findTpId_eq_none fun i hi he => ?_
      rw [hn] at hi
      rw [hnum i hi] at he
      have hmod := congrArg BitVec.toNat he
      rw [BitVec.toNat_ofNat, BitVec.toNat_ofNat] at hmod
      unfold maxTracepoints at hk
      omega
    have hroom : (noTracepoints.run (fill k)).numTps < maxTracepoints := hn.trans_lt hk
    obtain ⟨hn', hk', hi'⟩ := number_define_of_room (p := .enable 0 0) hnone hroom
    rw [hrun]
    refine ⟨hn'.trans (congrArg (· + 1) hn), fun i hi => ?_⟩
    rw [hn] at hk' hi'
    rcases Nat.lt_succ_iff_lt_or_eq.mp hi with hlt | rfl
    · rw [hi' i hlt, hnum i hlt]
    · exact hk'

/-- The 65th tracepoint is written to at index -1. -/
theorem table_full_index :
    let r := (noTracepoints.run (fill maxTracepoints)).step (.packet (.define 64 0 (.enable 0 0)))
    (¬ ∀ u ∈ r.1, r.2.Within u) ∧ r.1 = [none, none, none, none] := by
  intro r
  obtain ⟨hn, hnum⟩ := run_fill (Nat.le_refl maxTracepoints)
  have hnone : (noTracepoints.run (fill maxTracepoints)).findTpId 64 0 = none := by
    refine findTpId_eq_none fun i hi he => ?_
    rw [hn] at hi
    rw [hnum i hi] at he
    have hmod := congrArg BitVec.toNat he
    have h64 : (64 : Addr).toNat = 64 := rfl
    rw [BitVec.toNat_ofNat, h64] at hmod
    unfold maxTracepoints at hi
    omega
  have hused : r.1 = [none, none, none, none] :=
    congrArg Prod.fst (define_of_full (p := .enable 0 0) hnone hn.ge)
  refine ⟨fun h => ?_, hused⟩
  obtain ⟨i, hi, -⟩ := h none (by rw [hused]; exact List.mem_cons_self)
  cases hi

end TraceIce

end SkyEye.Gdb

/-!
## Selecting a frame

`select_frame_buffer_by_fn` looks for a frame number from the first frame on, wherever the
selection is; `select_frame_buffer_by_tpn` goes on behind the selected frame. A packet that
asks for a pc or a range selects nothing.
-/

namespace SkyEye.Gdb

/-- The `i`th frame is the first from `start` on that satisfies the criterion. -/
def FirstMatch (fb : List FrameBuffer) (p : FrameBuffer → Prop) (start i : Nat) : Prop :=
  start ≤ i ∧ (∃ f ∈ fb[i]?, p f) ∧ ∀ j, start ≤ j → j < i → ∀ f ∈ fb[j]?, ¬ p f

/-- No frame from `start` on satisfies it. -/
def NoMatch (fb : List FrameBuffer) (p : FrameBuffer → Prop) (start : Nat) : Prop :=
  ∀ j, start ≤ j → ∀ f ∈ fb[j]?, ¬ p f

variable {fb : List FrameBuffer} {p : FrameBuffer → Prop} [DecidablePred p] {start i : Nat}

theorem FirstMatch.findIdx? (h : FirstMatch fb p start i) :
    (fb.drop start).findIdx? (fun f => p f) = some (i - start) := by
  obtain ⟨hle, ⟨f, hf, hp⟩, hbefore⟩ := h
  obtain ⟨hi, rfl⟩ := List.getElem?_eq_some_iff.mp hf
  rw [List.findIdx?_eq_some_iff_getElem]
  refine ⟨by rw [List.length_drop]; omega, ?_, fun j hj => ?_⟩
  · rw [List.getElem_drop]
    simp only [Nat.add_sub_cancel' hle, decide_eq_true_eq]
    exact hp
  · have hlt : start + j < fb.length := by omega
    rw [List.getElem_drop]
    simpa using hbefore (start + j) (Nat.le_add_right _ _) (by omega) _
      (List.getElem?_eq_getElem hlt)

theorem NoMatch.findIdx? (h : NoMatch fb p start) :
    (fb.drop start).findIdx? (fun f => p f) = none := by
  rw [List.findIdx?_eq_none_iff]
  intro f hf
  obtain ⟨j, hj, rfl⟩ := List.getElem_of_mem hf
  rw [List.length_drop] at hj
  have hlt : start + j < fb.length := by omega
  rw [List.getElem_drop]
  simpa using h (start + j) (Nat.le_add_right _ _) _ (List.getElem?_eq_getElem hlt)

namespace Ice

variable {s : Ice} {n : Addr}

/-- A number beyond the count of frames fails at once. -/
theorem selectFn_beyond (h : BitVec.ofNat 32 s.fb.length < n) :
    s.selectFrameBufferByFn n = (none, s) := by
  rw [selectFrameBufferByFn, if_pos h]

theorem selectFn_first (hn : n ≤ BitVec.ofNat 32 s.fb.length)
    (h : FirstMatch s.fb (·.frameNumber = n) 0 i) :
    s.selectFrameBufferByFn n =
      ((s.fb[i]?).map (·.tpNumber), { s with selectedFb := some i }) := by
  have hfind := h.findIdx?
  rw [List.drop_zero, Nat.sub_zero] at hfind
  rw [selectFrameBufferByFn, if_neg (BitVec.not_lt.mpr hn), hfind]

theorem selectTpn_first {k : Nat} (hk : s.selectedFb = some k)
    (h : FirstMatch s.fb (·.tpNumber = n) (k + 1) i) :
    s.selectFrameBufferByTpn n =
      ((s.fb[i]?).map (·.frameNumber), { s with selectedFb := some i }) := by
  rw [selectFrameBufferByTpn, hk, Option.some_or]
  dsimp only
  rw [h.findIdx?]
  dsimp only
  rw [Nat.add_sub_cancel' h.1]

theorem selectTpn_none {k : Nat} (hk : s.selectedFb = some k)
    (h : NoMatch s.fb (·.tpNumber = n) (k + 1)) :
    s.selectFrameBufferByTpn n = (none, s) := by
  rw [selectFrameBufferByTpn, hk, Option.some_or]
  dsimp only
  rw [h.findIdx?, ← hk]

end Ice

/-- A frame number is looked for in the whole buffer, a tracepoint behind the selected
frame: the first match is selected, and a search that fails leaves the selection. A pc
selects nothing. -/
theorem selection_first_match (s : TraceIce) (n : Addr) :
    (n ≤ BitVec.ofNat 32 s.fb.length →
      ∀ i, FirstMatch s.fb (·.frameNumber = n) 0 i →
        s.toIce.selectFrameBufferByFn n =
          ((s.fb[i]?).map (·.tpNumber), { s.toIce with selectedFb := some i })) ∧
    (BitVec.ofNat 32 s.fb.length < n → s.toIce.selectFrameBufferByFn n = (none, s.toIce)) ∧
    (∀ k, s.selectedFb = some k →
      (∀ i, FirstMatch s.fb (·.tpNumber = n) (k + 1) i →
        s.toIce.selectFrameBufferByTpn n =
          ((s.fb[i]?).map (·.frameNumber), { s.toIce with selectedFb := some i })) ∧
      (NoMatch s.fb (·.tpNumber = n) (k + 1) →
        s.toIce.selectFrameBufferByTpn n = (none, s.toIce))) ∧
    (s.frame .pc).selectedFb = s.selectedFb :=
  ⟨fun hn _ h => Ice.selectFn_first hn h, Ice.selectFn_beyond,
    fun _ hk => ⟨fun _ h => Ice.selectTpn_first hk h, Ice.selectTpn_none hk⟩, rfl⟩

/-- Two frames, of which the second is selected. -/
def secondSelected : Ice where
  tpsStatus := .focusing
  tps _ := ⟨0, .nil, .disabled, 0, 0⟩
  fb := [⟨7, 0, []⟩, ⟨7, 1, []⟩]
  selectedFb := some 1

/-- Frame 0 is selected by its number although it is before the selected frame. -/
theorem selection_by_number_restarts :
    NoMatch secondSelected.fb (·.frameNumber = 0) 2 ∧
      (secondSelected.selectFrameBufferByFn 0).1 = some 7 ∧
      (secondSelected.selectFrameBufferByFn 0).2.selectedFb = some 0 := by
  refine ⟨fun j hj f hf => ?_, by decide, by decide⟩
  have hlen : secondSelected.fb.length ≤ j := hj
  rw [List.getElem?_eq_none hlen] at hf
  cases hf

end SkyEye.Gdb
