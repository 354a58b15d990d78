import SkyEye.Gdb.Packet

/-!
# Tracepoints

`gdb_tracepoint.c`: a tracepoint that is hit collects registers and memory into the
records of a new frame; later a frame is selected and memory is read from its records.
What the code asks of the target is its byte read and its register image. A record holds
the bytes that were read into it; what else `malloc` gave it has no known contents.
-/

namespace SkyEye.Gdb

abbrev Addr := BitVec 32

/-- The target as the debugger sees it. -/
structure Target where
  /-- `ICE_read_byte`: none if it reports a fault. -/
  readByte : Addr → Option Byte
  /-- What `fetch_inferior_registers (-1, ..)` fills in. -/
  image : List Byte
  /-- `register_byte` -/
  registerByte : Int → Nat
  /-- `endian_flag` -/
  bigEndian : Bool

def frommem (bigEndian : Bool) (m0 m1 m2 m3 : Byte) : Addr :=
  if bigEndian then (m0 ++ m1 ++ m2 ++ m3 : BitVec 32) else (m3 ++ m2 ++ m1 ++ m0 : BitVec 32)

namespace Target

variable (t : Target)

/-- A byte of the register image. -/
def imageByte (i : Nat) : Byte := t.image.getD i 0

/-- The value of a register. -/
def register (r : Int) : Addr :=
  let i := t.registerByte r
  frommem t.bigEndian (t.imageByte i) (t.imageByte (i + 1)) (t.imageByte (i + 2))
    (t.imageByte (i + 3))

/-- The bytes from `a` on, up to `n` of them or the first fault. -/
def readBytes (a : Addr) : Nat → List Byte
  | 0 => []
  | n + 1 =>
    match t.readByte a with
    | none => []
    | some b => b :: readBytes (a + 1) n

/-- `sim_read`: the bytes that get into the buffer, and what is returned. -/
def simRead (a : Addr) (size : Int) : List Byte × Int :=
  let bytes := t.readBytes a size.toNat
  (bytes, if bytes.length = size.toNat then size else -1)

/-- A byte that was read is the target's. -/
theorem readBytes_get : ∀ {n i : Nat} {a : Addr}, i < (t.readBytes a n).length →
    (t.readBytes a n)[i]? = t.readByte (a + BitVec.ofNat 32 i)
  | 0, i, a, h => absurd h (Nat.not_lt_zero i)
  | n + 1, i, a, h => by
    rw [readBytes] at h ⊢
    split at h
    · exact absurd h (Nat.not_lt_zero i)
    · rename_i b hb
      cases i with
      | zero => simp [hb]
      | succ i =>
        have hi : i < (t.readBytes (a + 1) n).length := by simpa using h
        simp only [List.getElem?_cons_succ, readBytes_get hi]
        congr 1
        rw [BitVec.add_assoc, BitVec.ofNat_add, BitVec.add_comm (BitVec.ofNat 32 i)]
        rfl

/-- Where every byte can be read all of them are. -/
theorem readBytes_length_of_readable : ∀ {n : Nat} {a : Addr},
    (∀ i < n, t.readByte (a + BitVec.ofNat 32 i) ≠ none) → (t.readBytes a n).length = n
  | 0, _, _ => rfl
  | n + 1, a, h => by
    have h0 : t.readByte a ≠ none := by simpa using h 0 (Nat.succ_pos n)
    obtain ⟨b, hb⟩ := Option.ne_none_iff_exists'.mp h0
    have hrest : (t.readBytes (a + 1) n).length = n := by
      refine readBytes_length_of_readable fun i hi => ?_
      have := h (i + 1) (Nat.succ_lt_succ hi)
      rwa [BitVec.ofNat_add, BitVec.add_comm (BitVec.ofNat 32 i), ← BitVec.add_assoc] at this
    rw [readBytes, hb]
    exact congrArg Nat.succ hrest

end Target

/-! ## Actions -/

/-- `memory_collect`: `base_reg` is -1 for absolute addresses. -/
structure MemoryCollect where
  baseReg : Int
  offset : Addr
  length : Addr
  deriving DecidableEq

inductive CollectAction where
  | registers (mask : Addr)
  | memory (mc : MemoryCollect)
  deriving DecidableEq

/-- `action`, with its `sibling` and `child`. -/
inductive Action where
  | nil
  | collect (ca : CollectAction) (sibling : Action)
  | while_ (stepCount remainingSteps : Addr) (child sibling : Action)

structure CollectRecord where
  ca : CollectAction
  collectData : List Byte
  collectDataLength : Addr
  deriving DecidableEq

/-- What `do_action` adds to the base of a memory action: a `char` of the image. -/
def Target.baseRegVal (t : Target) (mc : MemoryCollect) : Addr :=
  if mc.baseReg = -1 then 0 else (t.imageByte (t.registerByte mc.baseReg)).signExtend 32

def doAction (t : Target) (ca : CollectAction) : CollectRecord :=
  match ca with
  | .registers _ =>
    { ca := ca
      collectData := t.image
      collectDataLength := BitVec.ofNat 32 t.image.length }
  | .memory mc =>
    let r := t.simRead (t.baseRegVal mc + mc.offset) mc.length.toInt
    { ca := ca
      collectData := r.1
      collectDataLength := BitVec.ofInt 32 r.2 }

inductive TracepointStatus where
  | disabled
  | enabled
  | stepping
  deriving DecidableEq

/-- `do_action_list`: the records added to the frame, the actions with their remaining
steps, and the tracepoint's status. -/
def doActionList (t : Target) : Action → TracepointStatus →
    List CollectRecord × Action × TracepointStatus
  | .nil, status => ([], .nil, status)
  | .collect ca sibling, status =>
    let r := doActionList t sibling status
    (doAction t ca :: r.1, .collect ca r.2.1, r.2.2)
  | .while_ stepCount remainingSteps child sibling, status =>
    let c := if remainingSteps ≠ 0 then doActionList t child .stepping else ([], child, status)
    let left := if remainingSteps ≠ 0 then remainingSteps - 1 else 0
    let r := doActionList t sibling (if left = 0 then .enabled else c.2.2)
    (c.1 ++ r.1, .while_ stepCount (if left = 0 then stepCount else left) c.2.1 r.2.1, r.2.2)

/-- The collect actions that `do_action_list` carries out, in order. -/
def Action.collected : Action → List CollectAction
  | .nil => []
  | .collect ca sibling => ca :: sibling.collected
  | .while_ _ remainingSteps child sibling =>
    (if remainingSteps ≠ 0 then child.collected else []) ++ sibling.collected

/-- The records are those of the actions carried out, on one and the same target. -/
theorem doActionList_records (t : Target) : ∀ (a : Action) (status : TracepointStatus),
    (doActionList t a status).1 = a.collected.map (doAction t)
  | .nil, _ => rfl
  | .collect ca sibling, status => by
    simp only [doActionList, Action.collected, List.map_cons, doActionList_records t sibling]
  | .while_ stepCount remainingSteps child sibling, status => by
    simp only [doActionList, Action.collected, List.map_append, doActionList_records t sibling]
    split
    · rw [doActionList_records t child]
    · rfl

/-- The first `ACTION_WHILE` and what follows it. -/
def Action.fromWhile : Action → Option Action
  | .nil => none
  | .collect _ sibling => sibling.fromWhile
  | a@(.while_ ..) => some a

/-- The list with what follows from its first `ACTION_WHILE` on replaced. -/
def Action.setFromWhile : Action → Action → Action
  | .nil, _ => .nil
  | .collect ca sibling, new => .collect ca (sibling.setFromWhile new)
  | .while_ .., new => new

/-! ## Frames -/

structure FrameBuffer where
  tpNumber : Addr
  frameNumber : Addr
  records : List CollectRecord

/-- `tracepoint_def`, as far as hitting it goes. -/
structure Tracepoint where
  number : Addr
  actions : Action
  status : TracepointStatus
  passCount : Addr
  remainingPass : Addr

inductive TraceStatus where
  | started
  | stopped
  | focusing
  deriving DecidableEq

/-- The trace part of `SkyEye_ICE`; `selected_fb` is a position in `fb`. -/
structure Ice where
  tpsStatus : TraceStatus
  tps : Nat → Tracepoint
  fb : List FrameBuffer
  selectedFb : Option Nat

namespace Ice

variable (s : Ice)

/-- A frame with the records of an action list. -/
def addFrame (t : Target) (tpId : Nat) (actions : Action) : FrameBuffer where
  tpNumber := (s.tps tpId).number
  frameNumber := BitVec.ofNat 32 s.fb.length
  records := (doActionList t actions (s.tps tpId).status).1

def handleTracepoint (t : Target) (tpId : Nat) : Ice :=
  let tp := s.tps tpId
  match tp.status with
  | .disabled => s
  | .stepping =>
    match tp.actions.fromWhile with
    | none => s
    | some a =>
      let r := doActionList t a tp.status
      { s with
        fb := s.fb ++ [s.addFrame t tpId a]
        tps := Function.update s.tps tpId
          { tp with actions := tp.actions.setFromWhile r.2.1, status := r.2.2 } }
  | .enabled =>
    if tp.passCount ≠ 0 ∧ tp.remainingPass = 0 then s
    else
      let r := doActionList t tp.actions tp.status
      { s with
        fb := s.fb ++ [s.addFrame t tpId tp.actions]
        tps := Function.update s.tps tpId
          { tp with
            actions := r.2.1
            status := r.2.2
            remainingPass :=
              if tp.passCount ≠ 0 then tp.remainingPass - 1 else tp.remainingPass } }

/-- `select_frame_buffer_by_fn`: what it returns, and the frame selected after it. -/
def selectFrameBufferByFn (frameNumber : Addr) : Option Addr × Ice :=
  if BitVec.ofNat 32 s.fb.length < frameNumber then (none, s)
  else
    match s.fb.findIdx? (·.frameNumber = frameNumber) with
    | some i => ((s.fb[i]?).map (·.tpNumber), { s with selectedFb := some i })
    | none => (none, { s with selectedFb := if s.fb = [] then none else some 0 })

/-- `select_frame_buffer_by_tpn`: the search goes on after the frame selected before. -/
def selectFrameBufferByTpn (tracepointNumber : Addr) : Option Addr × Ice :=
  match s.selectedFb.or (if s.fb = [] then none else some 0) with
  | none => (none, { s with selectedFb := none })
  | some i =>
    match (s.fb.drop (i + 1)).findIdx? (·.tpNumber = tracepointNumber) with
    | some j =>
      ((s.fb[i + 1 + j]?).map (·.frameNumber), { s with selectedFb := some (i + 1 + j) })
    | none => (none, { s with selectedFb := some i })

/-- `init_tracepoints`, as far as frames go. -/
def initTracepoints : Ice :=
  { s with tpsStatus := .stopped, fb := [], selectedFb := none }

def startTraceFocusing : Ice := { s with tpsStatus := .focusing }

def stopTraceFocusing : Ice := { s with tpsStatus := .started, selectedFb := none }

end Ice

/-- The test of `trace_read`, in 32-bit arithmetic and without the base register. -/
def MemoryCollect.hit (mc : MemoryCollect) (addr size : Addr) : Bool :=
  decide (mc.offset ≤ addr) && decide (addr + size ≤ mc.offset + mc.length)

/-- `trace_read` over the records of a frame: the bytes copied, none for -1. A byte that
was never read into the record is `none`. -/
def traceReadRecords (addr size : Addr) : List CollectRecord → Option (List (Option Byte))
  | [] => none
  | r :: rest =>
    match r.ca with
    | .registers _ => traceReadRecords addr size rest
    | .memory mc =>
      if mc.hit addr size then
        some ((List.range size.toNat).map fun i => r.collectData[(addr - mc.offset).toNat + i]?)
      else traceReadRecords addr size rest

def Ice.traceRead (s : Ice) (addr size : Addr) : Option (List (Option Byte)) :=
  match s.selectedFb.bind (s.fb[·]?) with
  | none => none
  | some f => traceReadRecords addr size f.records

end SkyEye.Gdb
