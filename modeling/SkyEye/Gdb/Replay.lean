import SkyEye.Gdb.Tracepoint

/-!
# Reading memory back from trace frames

A run of the debugger hits tracepoints, defines them and selects frames. Beside the frames
`Traced` keeps what each was collected from: the target at that moment and the actions
carried out. `trace_read` tests a request against an action's offset and length only, so
what it returns is the collected memory under the condition `Faithful`
(`trace_read_replays_iff`). Absolute actions that were read without a fault meet it for
every request that does not wrap (`absolute_faithful`).
-/

namespace SkyEye.Gdb

/-! ## What a frame has collected -/

/-- The first address of a memory action. -/
def MemoryCollect.start (mc : MemoryCollect) (t : Target) : Addr :=
  (if mc.baseReg = -1 then 0 else t.register mc.baseReg) + mc.offset

/-- The request lies within the action's range, and the target could read that range. -/
def MemoryCollect.Covers (mc : MemoryCollect) (t : Target) (addr size : Addr) : Prop :=
  (addr - mc.start t).toNat + size.toNat ≤ mc.length.toNat ∧
    ∀ i < mc.length.toNat, t.readByte (mc.start t + BitVec.ofNat 32 i) ≠ none

/-- The request falls inside a collected range. -/
def Collected (t : Target) (cas : List CollectAction) (addr size : Addr) : Prop :=
  ∃ mc, .memory mc ∈ cas ∧ mc.Covers t addr size

/-- The target's bytes from `addr` on. -/
def Target.bytes (t : Target) (addr size : Addr) : List (Option Byte) :=
  (List.range size.toNat).map fun i => t.readByte (addr + BitVec.ofNat 32 i)

/-- `trace_read` returns what the target's memory held, for requests that fall inside a
collected range, and fails for the others. -/
def Replays (s : Ice) (t : Target) (cas : List CollectAction) (addr size : Addr) : Prop :=
  (Collected t cas addr size → s.traceRead addr size = some (t.bytes addr size)) ∧
    (¬ Collected t cas addr size → s.traceRead addr size = none)

/-- A byte inside a collected range can be read. -/
theorem Collected.readable {t : Target} {cas : List CollectAction} {addr size : Addr}
    (h : Collected t cas addr size) {i : Nat} (hi : i < size.toNat) :
    t.readByte (addr + BitVec.ofNat 32 i) ≠ none := by
  obtain ⟨mc, -, hle, hread⟩ := h
  have := hread ((addr - mc.start t).toNat + i) (by omega)
  rwa [BitVec.ofNat_add, BitVec.ofNat_toNat, BitVec.setWidth_eq, ← BitVec.add_assoc,
    BitVec.add_comm (mc.start t), BitVec.sub_add_cancel] at this

/-! ## What `trace_read` goes by -/

/-- The first memory action that passes the test of `trace_read`. -/
def firstHit (addr size : Addr) : List CollectAction → Option MemoryCollect
  | [] => none
  | .registers _ :: cas => firstHit addr size cas
  | .memory mc :: cas => if mc.hit addr size then some mc else firstHit addr size cas

/-- The bytes that `sim_read` got for a memory action. -/
def MemoryCollect.data (mc : MemoryCollect) (t : Target) : List Byte :=
  t.readBytes (t.baseRegVal mc + mc.offset) mc.length.toInt.toNat

/-- The read of `mc` got as far as the request, and the bytes it got there are those
at the request's own address. -/
def MemoryCollect.SameBytes (mc : MemoryCollect) (t : Target) (addr size : Addr) : Prop :=
  ∀ i < size.toNat, (addr - mc.offset).toNat + i < (mc.data t).length ∧
    t.readByte (t.baseRegVal mc + (addr + BitVec.ofNat 32 i)) =
      t.readByte (addr + BitVec.ofNat 32 i)

/-- No action passes the test and none has collected the request; or one has, and the
first that passes the test has the same bytes. -/
def Faithful (t : Target) (cas : List CollectAction) (addr size : Addr) : Prop :=
  match firstHit addr size cas with
  | none => ¬ Collected t cas addr size
  | some mc => Collected t cas addr size ∧ mc.SameBytes t addr size

theorem traceReadRecords_map (t : Target) (addr size : Addr) : ∀ cas : List CollectAction,
    traceReadRecords addr size (cas.map (doAction t)) =
      (firstHit addr size cas).map fun mc =>
        (List.range size.toNat).map fun i => (mc.data t)[(addr - mc.offset).toNat + i]?
  | [] => rfl
  | .registers mask :: cas => by
    simp only [List.map_cons, traceReadRecords, doAction, firstHit]
    exact traceReadRecords_map t addr size cas
  | .memory mc :: cas => by
    simp only [List.map_cons, traceReadRecords, doAction, firstHit]
    split
    · rfl
    · exact traceReadRecords_map t addr size cas

/-- A byte of the data is the target's byte, displaced by the base that was added. -/
theorem MemoryCollect.data_get {mc : MemoryCollect} {t : Target} {addr : Addr} {i : Nat}
    (h : (addr - mc.offset).toNat + i < (mc.data t).length) :
    (mc.data t)[(addr - mc.offset).toNat + i]? =
      t.readByte (t.baseRegVal mc + (addr + BitVec.ofNat 32 i)) := by
  rw [MemoryCollect.data, t.readBytes_get h]
  congr 1
  rw [BitVec.ofNat_add, BitVec.ofNat_toNat, BitVec.setWidth_eq, BitVec.add_assoc,
    ← BitVec.add_assoc mc.offset, BitVec.add_comm mc.offset, BitVec.sub_add_cancel]

theorem MemoryCollect.data_eq_bytes_iff {mc : MemoryCollect} {t : Target}
    {cas : List CollectAction} {addr size : Addr} (hc : Collected t cas addr size) :
    ((List.range size.toNat).map fun i => (mc.data t)[(addr - mc.offset).toNat + i]?) =
      t.bytes addr size ↔ mc.SameBytes t addr size := by
  rw [Target.bytes, List.map_inj_left]
  simp only [List.mem_range]
  refine forall₂_congr fun i hi => ?_
  have hread := hc.readable hi
  constructor
  · intro h
    have hlt : (addr - mc.offset).toNat + i < (mc.data t).length := by
      by_contra hge
      rw [List.getElem?_eq_none (by omega)] at h
      exact hread h.symm
    exact ⟨hlt, (data_get hlt).symm.trans h⟩
  · rintro ⟨hlt, h⟩
    exact (data_get hlt).trans h

/-! ## Runs -/

/-- What the stub and the emulation do to the trace state. -/
inductive TraceOp where
  /-- A tracepoint is hit, or stepped, with the target as it is then. -/
  | handle (t : Target) (tpId : Nat)
  /-- The tracepoints are defined by packets. -/
  | define (tps : Nat → Tracepoint)
  | selectFn (frameNumber : Addr)
  | selectTpn (tracepointNumber : Addr)
  | init
  | focus
  | unfocus

/-- The trace state, and for every frame the target and the actions it was collected by. -/
structure Traced where
  ice : Ice
  taken : List (Target × List CollectAction)

/-- The action list that `handle_tracepoint` goes through. -/
def Ice.doneActions (s : Ice) (tpId : Nat) : Option Action :=
  let tp := s.tps tpId
  match tp.status with
  | .disabled => none
  | .stepping => tp.actions.fromWhile
  | .enabled => if tp.passCount ≠ 0 ∧ tp.remainingPass = 0 then none else some tp.actions

theorem Ice.handleTracepoint_fb (s : Ice) (t : Target) (tpId : Nat) :
    (s.handleTracepoint t tpId).fb =
      s.fb ++ ((s.doneActions tpId).map (s.addFrame t tpId)).toList := by
  cases hst : (s.tps tpId).status with
  | disabled => simp [Ice.handleTracepoint, Ice.doneActions, hst]
  | stepping =>
    simp only [Ice.handleTracepoint, Ice.doneActions, hst]
    cases (s.tps tpId).actions.fromWhile with
    | none => simp
    | some a => simp
  | enabled =>
    simp only [Ice.handleTracepoint, Ice.doneActions, hst]
    split <;> simp

theorem Ice.handleTracepoint_selectedFb (s : Ice) (t : Target) (tpId : Nat) :
    (s.handleTracepoint t tpId).selectedFb = s.selectedFb := by
  cases hst : (s.tps tpId).status with
  | disabled => simp [Ice.handleTracepoint, hst]
  | stepping =>
    simp only [Ice.handleTracepoint, hst]
    cases (s.tps tpId).actions.fromWhile with
    | none => rfl
    | some a => rfl
  | enabled =>
    simp only [Ice.handleTracepoint, hst]
    split <;> rfl

def Traced.step (s : Traced) : TraceOp → Traced
  | .handle t tpId =>
    { ice := s.ice.handleTracepoint t tpId
      taken := s.taken ++ ((s.ice.doneActions tpId).map fun a => (t, a.collected)).toList }
  | .define tps => { s with ice := { s.ice with tps := tps } }
  | .selectFn n => { s with ice := (s.ice.selectFrameBufferByFn n).2 }
  | .selectTpn n => { s with ice := (s.ice.selectFrameBufferByTpn n).2 }
  | .init => { ice := s.ice.initTracepoints, taken := [] }
  | .focus => { s with ice := s.ice.startTraceFocusing }
  | .unfocus => { s with ice := s.ice.stopTraceFocusing }

/-- No frames yet. -/
def Traced.start (tps : Nat → Tracepoint) : Traced where
  ice := { tpsStatus := .stopped, tps := tps, fb := [], selectedFb := none }
  taken := []

def Traced.run (s : Traced) (ops : List TraceOp) : Traced := ops.foldl Traced.step s

/-- Every frame has the records of what it was collected by, and one of them is selected. -/
structure Traced.Kept (s : Traced) : Prop where
  records : s.ice.fb.map (·.records) = s.taken.map fun p => p.2.map (doAction p.1)
  selected : ∀ k ∈ s.ice.selectedFb, k < s.ice.fb.length

theorem Traced.Kept.start (tps : Nat → Tracepoint) : (Traced.start tps).Kept where
  records := rfl
  selected := by simp [Traced.start]

theorem Traced.Kept.handle {s : Traced} (h : s.Kept) (t : Target) (tpId : Nat) :
    (s.step (.handle t tpId)).Kept where
  records := by
    simp only [Traced.step, Ice.handleTracepoint_fb, List.map_append, h.records]
    cases s.ice.doneActions tpId with
    | none => rfl
    | some a => simp [Ice.addFrame, doActionList_records]
  selected := by
    intro k hk
    rw [Traced.step, Ice.handleTracepoint_selectedFb] at hk
    have := h.selected k hk
    simp only [Traced.step, Ice.handleTracepoint_fb, List.length_append]
    omega

/-- Selecting a frame keeps the frames and selects one of them. -/
theorem Traced.Kept.select {s : Traced} (h : s.Kept) {sel : Option Nat}
    (hsel : ∀ k ∈ sel, k < s.ice.fb.length) :
    Traced.Kept { s with ice := { s.ice with selectedFb := sel } } where
  records := h.records
  selected := hsel

theorem Traced.Kept.selectFn {s : Traced} (h : s.Kept) (n : Addr) :
    (s.step (.selectFn n)).Kept := by
  have hfirst : ∀ k ∈ (if s.ice.fb = [] then none else some 0 : Option Nat),
      k < s.ice.fb.length := by
    intro k hk
    split at hk
    · cases hk
    · rename_i hne
      obtain rfl : 0 = k := by simpa using hk
      exact List.length_pos_iff.mpr hne
  simp only [Traced.step, Ice.selectFrameBufferByFn]
  split
  · exact h
  · cases hf : s.ice.fb.findIdx? (·.frameNumber = n) with
    | none => exact h.select hfirst
    | some i =>
      refine h.select fun k hk => ?_
      obtain rfl : i = k := by simpa using hk
      exact (List.findIdx?_eq_some_iff_findIdx_eq.mp hf).1

theorem Traced.Kept.selectTpn {s : Traced} (h : s.Kept) (n : Addr) :
    (s.step (.selectTpn n)).Kept := by
  have hcur : ∀ i ∈ s.ice.selectedFb.or (if s.ice.fb = [] then none else some 0),
      i < s.ice.fb.length := by
    intro i hi
    cases hs : s.ice.selectedFb with
    | some k =>
      rw [hs] at hi
      obtain rfl : k = i := by simpa using hi
      exact h.selected k (by rw [hs]; rfl)
    | none =>
      rw [hs] at hi
      by_cases hne : s.ice.fb = []
      · simp [hne] at hi
      · obtain rfl : 0 = i := by simpa [hne] using hi
        exact List.length_pos_iff.mpr hne
  simp only [Traced.step, Ice.selectFrameBufferByTpn]
  cases hc : s.ice.selectedFb.or (if s.ice.fb = [] then none else some 0) with
  | none => exact h.select (by simp)
  | some i =>
    have hi := hcur i (by rw [hc]; rfl)
    dsimp only
    cases hf : (s.ice.fb.drop (i + 1)).findIdx? (·.tpNumber = n) with
    | none =>
      refine h.select fun k hk => ?_
      obtain rfl : i = k := by simpa using hk
      exact hi
    | some j =>
      refine h.select fun k hk => ?_
      obtain rfl : i + 1 + j = k := by simpa using hk
      have := (List.findIdx?_eq_some_iff_findIdx_eq.mp hf).1
      rw [List.length_drop] at this
      omega

theorem Traced.Kept.step {s : Traced} (h : s.Kept) (op : TraceOp) : (s.step op).Kept := by
  cases op with
  | handle t tpId => exact h.handle t tpId
  | define tps => exact ⟨h.records, h.selected⟩
  | selectFn n => exact h.selectFn n
  | selectTpn n => exact h.selectTpn n
  | init => exact ⟨rfl, by simp [Traced.step, Ice.initTracepoints]⟩
  | focus => exact ⟨h.records, h.selected⟩
  | unfocus => exact ⟨h.records, by simp [Traced.step, Ice.stopTraceFocusing]⟩

theorem Traced.Kept.run {s : Traced} (h : s.Kept) : ∀ ops : List TraceOp, (s.run ops).Kept := by
  intro ops
  induction ops generalizing s with
  | nil => exact h
  | cons op ops ih => exact ih (h.step op)

/-- Reading from the selected frame. -/
theorem Traced.Kept.traceRead {s : Traced} (h : s.Kept) {k : Nat}
    (hk : s.ice.selectedFb = some k) : ∃ t cas, s.taken[k]? = some (t, cas) ∧
      ∀ addr size, s.ice.traceRead addr size =
        (firstHit addr size cas).map fun mc =>
          (List.range size.toNat).map fun i => (mc.data t)[(addr - mc.offset).toNat + i]? := by
  have hlt := h.selected k (by rw [hk]; rfl)
  have hget := congrArg (·[k]?) h.records
  simp only [List.getElem?_map, List.getElem?_eq_getElem hlt, Option.map_some] at hget
  obtain ⟨⟨t, cas⟩, htaken, hrec⟩ := Option.map_eq_some_iff.mp hget.symm
  refine ⟨t, cas, htaken, fun addr size => ?_⟩
  simp only [Ice.traceRead, hk, Option.bind_some, List.getElem?_eq_getElem hlt]
  rw [← hrec, traceReadRecords_map]

/-- In every state of a run, the selected frame replays a request exactly when it is
faithful to the request. -/
theorem trace_read_replays_iff (tps : Nat → Tracepoint) (ops : List TraceOp) {k : Nat}
    (hk : ((Traced.start tps).run ops).ice.selectedFb = some k) :
    ∃ t cas, ((Traced.start tps).run ops).taken[k]? = some (t, cas) ∧
      ∀ addr size, Replays ((Traced.start tps).run ops).ice t cas addr size ↔
        Faithful t cas addr size := by
  obtain ⟨t, cas, htaken, hread⟩ := ((Traced.Kept.start tps).run ops).traceRead hk
  refine ⟨t, cas, htaken, fun addr size => ?_⟩
  rw [Replays, hread, Faithful]
  cases firstHit addr size cas with
  | none => simp
  | some mc =>
    simp only [Option.map_some, Option.some.injEq, reduceCtorEq, imp_false, not_not]
    constructor
    · rintro ⟨hsame, hc⟩
      exact ⟨hc, (MemoryCollect.data_eq_bytes_iff hc).mp (hsame hc)⟩
    · rintro ⟨hc, hsame⟩
      exact ⟨fun _ => (MemoryCollect.data_eq_bytes_iff hc).mpr hsame, hc⟩

/-! ## Absolute actions -/

theorem firstHit_mem {addr size : Addr} {mc : MemoryCollect} : ∀ {cas : List CollectAction},
    firstHit addr size cas = some mc → .memory mc ∈ cas ∧ mc.hit addr size = true
  | .registers _ :: cas, h => by
    have : .memory mc ∈ cas ∧ mc.hit addr size = true := firstHit_mem h
    exact ⟨List.mem_cons_of_mem _ this.1, this.2⟩
  | .memory mc' :: cas, h => by
    rw [firstHit] at h
    split at h
    · rename_i hit
      obtain rfl := Option.some.inj h
      exact ⟨List.mem_cons_self, hit⟩
    · have := firstHit_mem h
      exact ⟨List.mem_cons_of_mem _ this.1, this.2⟩

theorem firstHit_none {addr size : Addr} : ∀ {cas : List CollectAction},
    firstHit addr size cas = none → ∀ mc, .memory mc ∈ cas → mc.hit addr size = false
  | .registers _ :: cas, h, mc, hmem => by
    rcases List.mem_cons.mp hmem with heq | hmem
    · cases heq
    · have hnone : firstHit addr size cas = none := h
      exact firstHit_none hnone mc hmem
  | .memory mc' :: cas, h, mc, hmem => by
    rw [firstHit] at h
    split at h
    · cases h
    · rename_i hno
      rcases List.mem_cons.mp hmem with heq | hmem
      · obtain rfl : mc = mc' := by simpa using heq
        simpa using hno
      · exact firstHit_none h mc hmem

/-- An absolute action whose range does not wrap and was read without a fault. -/
structure MemoryCollect.Absolute (mc : MemoryCollect) (t : Target) : Prop where
  base : mc.baseReg = -1
  wrap : mc.offset.toNat + mc.length.toNat < 2 ^ 32
  size : mc.length.toNat < 2 ^ 31
  read : ∀ i < mc.length.toNat, t.readByte (mc.offset + BitVec.ofNat 32 i) ≠ none

theorem MemoryCollect.Absolute.start {mc : MemoryCollect} {t : Target} (h : mc.Absolute t) :
    mc.start t = mc.offset := by
  rw [MemoryCollect.start, if_pos h.base]
  exact BitVec.zero_add _

/-- For such an action the test of `trace_read` is the right one. -/
theorem MemoryCollect.Absolute.hit_iff {mc : MemoryCollect} {t : Target} (h : mc.Absolute t)
    {addr size : Addr} (hreq : addr.toNat + size.toNat < 2 ^ 32) :
    mc.hit addr size = true ↔ mc.Covers t addr size := by
  have hwrap := h.wrap
  have ho := mc.offset.isLt
  have hread := h.read
  have hhit : mc.hit addr size = true ↔ mc.offset.toNat ≤ addr.toNat ∧
      addr.toNat + size.toNat ≤ mc.offset.toNat + mc.length.toNat := by
    simp only [MemoryCollect.hit, Bool.and_eq_true, decide_eq_true_eq, BitVec.le_def,
      BitVec.toNat_add, Nat.mod_eq_of_lt hreq, Nat.mod_eq_of_lt hwrap]
  rw [hhit, MemoryCollect.Covers, h.start, BitVec.toNat_sub]
  constructor
  · rintro ⟨h1, h2⟩
    exact ⟨by omega, hread⟩
  · rintro ⟨h1, -⟩
    omega

/-- Frames of such actions are faithful to every request that does not wrap. -/
theorem absolute_faithful {t : Target} {cas : List CollectAction}
    (h : ∀ mc, .memory mc ∈ cas → mc.Absolute t) {addr size : Addr}
    (hreq : addr.toNat + size.toNat < 2 ^ 32) : Faithful t cas addr size := by
  unfold Faithful
  cases hf : firstHit addr size cas with
  | none =>
    rintro ⟨mc, hmem, hcov⟩
    have := firstHit_none hf mc hmem
    rw [((h mc hmem).hit_iff hreq).mpr hcov] at this
    cases this
  | some mc =>
    obtain ⟨hmem, hhit⟩ := firstHit_mem hf
    have habs := h mc hmem
    have hcov := (habs.hit_iff hreq).mp hhit
    have hsize := habs.size
    have hle := hcov.1
    rw [habs.start] at hle
    have hbase (x : Addr) : t.baseRegVal mc + x = x := by
      rw [Target.baseRegVal, if_pos habs.base]
      exact BitVec.zero_add x
    have hlen : (mc.data t).length = mc.length.toNat := by
      have hint : mc.length.toInt.toNat = mc.length.toNat := by
        rw [BitVec.toInt_eq_toNat_of_lt (by omega), Int.toNat_natCast]
      rw [MemoryCollect.data, hint, hbase]
      exact t.readBytes_length_of_readable habs.read
    refine ⟨⟨mc, hmem, hcov⟩, fun i hi => ⟨by omega, ?_⟩⟩
    rw [hbase]

/-! ## A register-relative action -/

/-- Every byte holds the low byte of its address, and register 13 is `0x1000`. -/
def stackTarget : Target where
  readByte a := some (a.setWidth 8)
  image := List.replicate 53 0 ++ [0x10, 0, 0]
  registerByte r := (4 * r).toNat
  bigEndian := false

/-- Tracepoint 0 collects what `mc` says. -/
def tracing (mc : MemoryCollect) (_ : Nat) : Tracepoint where
  number := 1
  actions := .collect (.memory mc) .nil
  status := .enabled
  passCount := 0
  remainingPass := 0

theorem trace_read_replays_iff_absolute : ∃ t cas,
    ((Traced.start (tracing ⟨-1, 0x1000, 4⟩)).run
      [.handle stackTarget 0, .selectFn 0]).taken[0]? = some (t, cas) ∧
    ∀ addr size, Replays ((Traced.start (tracing ⟨-1, 0x1000, 4⟩)).run
      [.handle stackTarget 0, .selectFn 0]).ice t cas addr size ↔ Faithful t cas addr size :=
  trace_read_replays_iff (tracing ⟨-1, 0x1000, 4⟩) [.handle stackTarget 0, .selectFn 0] rfl

/-- Four bytes collected at register 13 plus 4 are not found at `0x1004`. -/
theorem trace_read_misses_relative :
    ¬ ∀ tps ops k t cas, ((Traced.start tps).run ops).ice.selectedFb = some k →
      ((Traced.start tps).run ops).taken[k]? = some (t, cas) →
      ∀ addr size, Replays ((Traced.start tps).run ops).ice t cas addr size := by
  intro h
  have hc : Collected stackTarget [.memory ⟨13, 4, 4⟩] 0x1004 4 :=
    ⟨⟨13, 4, 4⟩, by decide, by decide, fun _ _ => by simp [stackTarget]⟩
  have hread := (h (tracing ⟨13, 4, 4⟩) [.handle stackTarget 0, .selectFn 0] 0 stackTarget
    [.memory ⟨13, 4, 4⟩] rfl rfl 0x1004 4).1 hc
  revert hread
  decide

end SkyEye.Gdb
