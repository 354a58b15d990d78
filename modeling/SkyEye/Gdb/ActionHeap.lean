import SkyEye.Gdb.TracepointTable

/-!
# Action lists in memory

The actions of a tracepoint as `gdb_tracepoint.c` has them: nodes from `malloc` with a
`sibling` and a `child`. The packets link a new node behind the last sibling or under its
parent, `do_action_list` follows the pointers, `delete_action` frees the nodes. A walk that
meets a pointer without a node, and one that has not ended after as many steps as there were
calls of `malloc`, is stuck.
-/

namespace SkyEye.Gdb.ActionHeap

/-- A pointer; 0 is `NULL`. -/
abbrev Ptr := Nat

/-- `type` and `action_data` of an `action`. -/
inductive ActionData where
  | unassigned
  | collect (ca : CollectAction)
  | while_ (stepCount remainingSteps : Addr)

/-- `action` -/
structure ActionNode where
  data : ActionData
  sibling : Ptr
  child : Ptr

/-- `populate_default_action` -/
def ActionNode.default : ActionNode := ⟨.unassigned, 0, 0⟩

/-- The nodes that are allocated, and how many have been. -/
structure Heap where
  node : Ptr → Option ActionNode
  mallocs : Nat

/-- The `actions` of all tracepoints. -/
structure Lists where
  actions : Nat → Ptr
  heap : Heap

/-- Why the program stops: `malloc` returned `NULL`, or a walk does not end well. -/
inductive Stop where
  | noMemory
  | stuck
  deriving DecidableEq

namespace Heap

variable (h : Heap)

/-- A change of the node at `p`. -/
def modify (p : Ptr) (f : ActionNode → ActionNode) : Heap :=
  { h with node := Function.update h.node p ((h.node p).map f) }

def setSibling (p q : Ptr) : Heap := h.modify p fun n => { n with sibling := q }

def setChild (p q : Ptr) : Heap := h.modify p fun n => { n with child := q }

def setData (p : Ptr) (data : ActionData) : Heap := h.modify p fun n => { n with data := data }

def free (p : Ptr) : Heap := { h with node := Function.update h.node p none }

/-- A node from `malloc`, with its defaults. -/
def alloc (malloc : (Ptr → Option ActionNode) → Option Ptr) : Except Stop (Ptr × Heap) :=
  match malloc h.node with
  | none => .error .noMemory
  | some p =>
    .ok (p, ⟨Function.update h.node p (some ActionNode.default), h.mallocs + 1⟩)

/-- More steps than a walk over distinct nodes takes. -/
def fuel : Nat := h.mallocs + 1

end Heap

/-- The loop of `prepare_action`. -/
def lastSibling : Nat → Heap → Ptr → Option Ptr
  | 0, _, _ => none
  | fuel + 1, h, p =>
    match h.node p with
    | none => none
    | some n => if n.sibling = 0 then some p else lastSibling fuel h n.sibling

def deleteAction : Nat → Heap → Ptr → Option Heap
  | 0, _, _ => none
  | fuel + 1, h, p => do
    let n ← h.node p
    let h ← (if n.sibling = 0 then some h
      else (deleteAction fuel h n.sibling).map fun h => h.setSibling p 0)
    let n ← h.node p
    let h ← (if n.child = 0 then some h
      else (deleteAction fuel h n.child).map fun h => h.setChild p 0)
    let n ← h.node p
    return if n.sibling = 0 ∧ n.child = 0 then h.free p else h

/-- What a run of `do_action_list` goes through, collects and leaves. -/
structure Walk where
  visited : List Ptr
  records : List CollectRecord
  heap : Heap
  status : TracepointStatus

/-- `do_action_list`; an action that has no type is looked at again and again. -/
def doActionList (t : Target) : Nat → Heap → Ptr → TracepointStatus → Option Walk
  | 0, _, _, _ => none
  | fuel + 1, h, p, status =>
    if p = 0 then some ⟨[], [], h, status⟩
    else
      match h.node p with
      | none => none
      | some ⟨.unassigned, _, _⟩ => doActionList t fuel h p status
      | some ⟨.collect ca, sibling, _⟩ =>
        (doActionList t fuel h sibling status).map fun r =>
          { r with visited := p :: r.visited, records := doAction t ca :: r.records }
      | some ⟨.while_ stepCount left, _, child⟩ => do
        let c ← (if left ≠ 0 then
            doActionList t fuel (h.setData p (.while_ stepCount (left - 1))) child .stepping
          else some ⟨[], [], h, status⟩)
        let n ← c.heap.node p
        let .while_ stepCount left := n.data | none
        let ended := left = 0
        let r ← doActionList t fuel
          (if ended then c.heap.setData p (.while_ stepCount stepCount) else c.heap) n.sibling
          (if ended then .enabled else c.status)
        return { r with
          visited := p :: (c.visited ++ r.visited)
          records := c.records ++ r.records }

/-- The search of `handle_tracepoint` for a `ACTION_WHILE`: none if there is none. -/
def findWhile : Nat → Heap → Ptr → Option (Option Ptr)
  | 0, _, _ => none
  | fuel + 1, h, p =>
    match h.node p with
    | none => none
    | some ⟨.while_ .., _, _⟩ => some (some p)
    | some n => if n.sibling = 0 then some none else findWhile fuel h n.sibling

namespace Lists

variable (malloc : (Ptr → Option ActionNode) → Option Ptr) (s : Lists)

/-- The list that `prepare_action` adds to. -/
def listOf (tpId : Nat) : Option Ptr → Option Ptr
  | none => some (s.actions tpId)
  | some parent => (s.heap.node parent).map (·.child)

/-- The list that `prepare_action` adds to, which was empty, with its first node. -/
def setListOf (tpId : Nat) (p : Ptr) (h : Heap) : Option Ptr → Lists
  | none => ⟨Function.update s.actions tpId p, h⟩
  | some parent => ⟨s.actions, h.setChild parent p⟩

def prepareAction (tpId : Nat) (parent : Option Ptr) : Except Stop (Ptr × Lists) :=
  match s.listOf tpId parent with
  | none => .error .stuck
  | some 0 => do
    let (p, h) ← s.heap.alloc malloc
    return (p, s.setListOf tpId p h parent)
  | some current =>
    match lastSibling s.heap.fuel s.heap current with
    | none => .error .stuck
    | some last => do
      let (p, h) ← s.heap.alloc malloc
      return (p, ⟨s.actions, h.setSibling last p⟩)

/-- The actions that `decode_DP_playload` makes; `step` is the tracepoint's. -/
def decodeDPPlayload (tpId : Nat) (step : Addr) :
    Option Ptr → Payload → Lists → Except Stop Lists
  | parent, .registers mask, s => do
    let (p, s) ← s.prepareAction malloc tpId parent
    return { s with heap := s.heap.setData p (.collect (.registers mask)) }
  | parent, .memory mc, s => do
    let (p, s) ← s.prepareAction malloc tpId parent
    return { s with heap := s.heap.setData p (.collect (.memory mc)) }
  | parent, .whileStepping q, s => do
    let (p, s) ← s.prepareAction malloc tpId parent
    decodeDPPlayload tpId step (some p) q
      { s with heap := s.heap.setData p (.while_ step step) }
  | _, _, s => .ok s

/-- One round of the loop of `clear_tracepoints`. -/
def clearAt (s : Option Lists) (i : Nat) : Option Lists := do
  let s ← s
  let h ← (if s.actions i = 0 then some s.heap
    else deleteAction s.heap.fuel s.heap (s.actions i))
  return ⟨Function.update s.actions i 0, h⟩

def clearTracepoints : Option Lists := (List.range maxTracepoints).foldl clearAt (some s)

/-- `do_action_list` from a node on. -/
def walkFrom (t : Target) (p : Ptr) (status : TracepointStatus) : Option Lists :=
  (doActionList t s.heap.fuel s.heap p status).map fun r => { s with heap := r.heap }

/-- The walk of `handle_tracepoint`. -/
def handleTracepoint (t : Target) (tp : Tracepoint) (tpId : Nat) : Option Lists :=
  match tp.status with
  | .disabled => some s
  | .stepping =>
    match findWhile s.heap.fuel s.heap (s.actions tpId) with
    | none => none
    | some none => some s
    | some (some p) => s.walkFrom t p .stepping
  | .enabled =>
    if tp.passCount ≠ 0 ∧ tp.remainingPass = 0 then some s
    else s.walkFrom t (s.actions tpId) .enabled

end Lists

/-- The table with the trees that its tracepoints' lists stand for, and the lists. -/
structure HeapIce where
  ice : TraceIce
  lists : Lists

def Stop.of {α : Type} : Option α → Except Stop α
  | none => .error .stuck
  | some a => .ok a

namespace HeapIce

variable (malloc : (Ptr → Option ActionNode) → Option Ptr) (s : HeapIce)

/-- `decode_DP_packet`. An index of -1, which a full table gives, does nothing here, as in
`TraceIce.define`, and `malloc` goes by the map of the nodes alone. -/
def define (tpNumber tpAddress : Addr) (p : Payload) : Except Stop HeapIce :=
  let (tpId, ice) := match s.ice.findTpId tpNumber tpAddress with
    | some i => (some i, s.ice)
    | none => s.ice.addTracepoint tpNumber tpAddress
  match tpId with
  | none => .ok { s with ice := ice }
  | some i => do
    let lists ← s.lists.decodeDPPlayload malloc i (ice.remainingStep i) none p
    return ⟨ice.applyPayload i p, lists⟩

/-- One round of the loop over the tracepoints. -/
def handleAt (t : Target) (addr : Addr) (s : Option HeapIce) (i : Nat) : Option HeapIce := do
  let s ← s
  if s.ice.hits i addr then
    let lists ← s.lists.handleTracepoint t (s.ice.tps i) i
    return ⟨{ s.ice with toIce := s.ice.toIce.handleTracepoint t i }, lists⟩
  else return s

/-- The loop over the tracepoints. -/
def hook (t : Target) (addr : Addr) : Option HeapIce :=
  if s.ice.tpsStatus = .started then
    (List.range s.ice.numTps).foldl (handleAt t addr) (some s)
  else some s

/-- What reaches the table. -/
def step : TableOp → Except Stop HeapIce
  | .packet .init => Stop.of (s.lists.clearTracepoints.map fun lists => ⟨s.ice.init, lists⟩)
  | .packet (.define tpNumber tpAddress p) => s.define malloc tpNumber tpAddress p
  | .packet q => .ok { s with ice := (s.ice.packet q).2 }
  | .execute t addr => Stop.of (s.hook t addr)

def run : List TableOp → HeapIce → Except Stop HeapIce
  | [], s => .ok s
  | op :: ops, s => do
    let s ← s.step malloc op
    run ops s

/-- No tracepoints, no actions and an empty heap. -/
def boot (ice : Ice) (tpAddress remainingStep : Nat → Addr) : HeapIce where
  ice := TraceIce.boot { ice with tps := fun i => { ice.tps i with actions := .nil } }
    tpAddress remainingStep
  lists := ⟨fun _ => 0, ⟨fun _ => none, 0⟩⟩

end HeapIce

/-- What is relied on of `malloc`: a pointer that it returns is not `NULL` and not in use. -/
def MallocFresh (malloc : (Ptr → Option ActionNode) → Option Ptr) : Prop :=
  ∀ node p, malloc node = some p → p ≠ 0 ∧ node p = none

end SkyEye.Gdb.ActionHeap
