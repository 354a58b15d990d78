import SkyEye.Sparc.Bits
import Mathlib.Logic.Function.Basic

/-!
# The ColdFire core

`memory_core`, the memory segments of `memory.c` and `ram.c`, the stack of `addressing.c`,
and `exception.c`. The exception functions end the process, or recurse for ever, where the
result is none: `skyeye_exit(1)` for an address in no segment and no window, a handler in no
segment, and a stack that stays unmapped after it is reset, for which the fuel is.
-/

namespace SkyEye.ColdFire

open Sparc (Uint32)

/-- What the `base_register` of a segment points to. -/
inductive BaseRegister where
  | zeroRegister
  | mbar
  | rambar
  | rambar1
  | rombar
  deriving DecidableEq

/-- The modules of `ram_init`. -/
inductive Module where
  | ram
  | rom
  deriving DecidableEq

/-- `struct _memory_segment` -/
structure Segment where
  base : Uint32
  baseRegister : BaseRegister
  mask : Uint32
  module : Module

structure MemoryCore where
  pc : Uint32
  pcInstructionBegin : Uint32
  sr : Uint32
  mbar : Uint32
  mbarSize : Uint32
  mbar2 : Uint32
  mbar2Size : Uint32
  rambar : Uint32
  rambar1 : Uint32
  rombar : Uint32
  vbr : Uint32
  cacr : Uint32
  d : Fin 8 → Uint32
  a : Fin 8 → Uint32

def MemoryCore.base (c : MemoryCore) : BaseRegister → Uint32
  | .zeroRegister => 0
  | .mbar => c.mbar
  | .rambar => c.rambar
  | .rambar1 => c.rambar1
  | .rombar => c.rombar

/-- The fields of `SRBits`. -/
def interruptPriorityMask (sr : Uint32) : Uint32 := sr >>> 8 &&& 7
def setInterruptPriorityMask (sr x : Uint32) : Uint32 := (sr &&& ~~~0x700#32) ||| (x &&& 7) <<< 8
def clearM (sr : Uint32) : Uint32 := sr &&& ~~~0x1000#32
def setS (sr : Uint32) : Uint32 := sr ||| 0x2000
def clearT (sr : Uint32) : Uint32 := sr &&& ~~~0x8000#32

/-- `exception_pending` and `iack_func`: a level is pending where it has a function, which is
of the state of the devices. -/
structure Exceptions (δ : Type) where
  pending : BitVec 16
  iackFunc : Fin 8 → Option (δ → Fin 8 → Uint32)
  pending_iff : ∀ i, pending.getLsbD i = true ↔ ∃ x : Fin 8, x.val = i ∧ (iackFunc x).isSome

namespace Exceptions

variable {δ : Type}

/-- Nothing posted. -/
def none : Exceptions δ where
  pending := 0
  iackFunc _ := Option.none
  pending_iff := by simp

theorem getLsbD_level (level : Fin 8) (i : Nat) :
    (BitVec.twoPow 16 level.val).getLsbD i = decide (level.val = i) := by
  have h : level.val < 16 := by omega
  simp [BitVec.getLsbD_twoPow, h]

/-- `exception_post` -/
def post (e : Exceptions δ) (level : Fin 8) (func : δ → Fin 8 → Uint32) : Exceptions δ where
  pending := e.pending ||| BitVec.twoPow 16 level
  iackFunc := Function.update e.iackFunc level (some func)
  pending_iff := by
    intro i
    rw [BitVec.getLsbD_or, getLsbD_level, Bool.or_eq_true, e.pending_iff, decide_eq_true_eq]
    constructor
    · rintro (⟨x, hx, h⟩ | hi)
      · refine ⟨x, hx, ?_⟩
        by_cases hxl : x = level
        · simp [hxl]
        · simpa [hxl] using h
      · exact ⟨level, hi, by simp⟩
    · rintro ⟨x, hx, h⟩
      by_cases hxl : x = level
      · exact .inr (by rw [← hx, hxl])
      · exact .inl ⟨x, hx, by simpa [hxl] using h⟩

/-- `exception_withdraw` -/
def withdraw (e : Exceptions δ) (level : Fin 8) : Exceptions δ where
  pending := e.pending &&& ~~~BitVec.twoPow 16 level
  iackFunc := Function.update e.iackFunc level Option.none
  pending_iff := by
    intro i
    rw [BitVec.getLsbD_and, Bool.and_eq_true, e.pending_iff]
    constructor
    · rintro ⟨⟨x, hx, h⟩, hi⟩
      have hxl : x ≠ level := by
        rintro rfl
        rw [BitVec.getLsbD_not, getLsbD_level] at hi
        simp [hx] at hi
      exact ⟨x, hx, by simpa [hxl] using h⟩
    · rintro ⟨x, hx, h⟩
      have hxl : x ≠ level := by
        rintro rfl
        simp at h
      have hil : level.val ≠ i := fun hli => hxl (Fin.ext (hx.trans hli.symm))
      refine ⟨⟨x, hx, by simpa [hxl] using h⟩, ?_⟩
      have hi : i < 16 := by omega
      rw [BitVec.getLsbD_not, getLsbD_level]
      simp [hi, hil]

/-- The levels posted and not withdrawn. -/
def Posted (e : Exceptions δ) (level : Fin 8) : Prop := (e.iackFunc level).isSome = true

end Exceptions

/-- The core with its memory: the bytes of the data of each segment, and the state of the
devices. -/
structure State (δ : Type) where
  core : MemoryCore
  ram : Nat → Nat → BitVec 8
  exc : Exceptions δ
  dev : δ

/-- An access to a device window: what it returns and, for a read, `*Result`. The devices
post and withdraw interrupts. None where the process ends. -/
structure Window (δ : Type) where
  read : Uint32 → Nat → Uint32 → δ → Exceptions δ → Option (Bool × Uint32 × δ × Exceptions δ)
  write : Nat → Uint32 → Uint32 → δ → Exceptions δ → Option (Bool × δ × Exceptions δ)

/-- What the machine brings: the segments and the device windows; and what C leaves open, the
value of a variable that was not set and the bytes before `exception_pc_location`. -/
structure Board (δ : Type) where
  segments : List Segment
  mbar : Window δ
  mbar2 : Window δ
  uninit : Uint32
  beforeTable : Int → BitVec 8

/-! ## Memory -/

/-- `ram_read`, big-endian. -/
def ramRead (bytes : Nat → BitVec 8) (size offset : Nat) : Uint32 :=
  let byte i := (bytes (offset + i)).setWidth 32
  if size = 32 then byte 0 <<< 24 ||| byte 1 <<< 16 ||| byte 2 <<< 8 ||| byte 3
  else if size = 16 then byte 0 <<< 8 ||| byte 1
  else byte 0

def ramWrite (bytes : Nat → BitVec 8) (size offset : Nat) (value : Uint32) : Nat → BitVec 8 :=
  let byte n := (value >>> n).setWidth 8
  if size = 32 then
    Function.update (Function.update (Function.update (Function.update bytes offset (byte 24))
      (offset + 1) (byte 16)) (offset + 2) (byte 8)) (offset + 3) (byte 0)
  else if size = 16 then
    Function.update (Function.update bytes offset (byte 8)) (offset + 1) (byte 0)
  else Function.update bytes offset (byte 0)

/-- Where a segment starts. -/
def Segment.start (g : Segment) (c : MemoryCore) : Uint32 := c.base g.baseRegister + g.base

/-- `offset` is in the window of `size` bytes from `base`. -/
def inWindow (base size offset : Uint32) : Bool :=
  decide (base ≤ offset) && decide (offset < base + size)

/-- What the frames of the first sixteen vectors save the address of: 1 for the instruction
that faulted, 0 for the next one. -/
def exceptionPcLocation : List (BitVec 8) := [0, 0, 1, 1, 1, 0, 0, 0, 1, 0, 1, 1, 0, 0, 1, 0]

namespace State

variable {δ : Type} (b : Board δ) (s : State δ)

/-- `memory_find_segment_for`, with the number of the segment. -/
def memoryFindSegmentFor (offset : Uint32) : Option (Segment × Nat) :=
  b.segments.zipIdx.find? fun p => offset &&& p.1.mask == p.1.start s.core

def memorySeek (offset : Uint32) : Bool := (s.memoryFindSegmentFor b offset).isSome

/-- `mbar_read` and `mbar2_read` -/
def windowRead (w : Window δ) (result : Uint32) (size : Nat) (offset : Uint32) :
    Option (Bool × Uint32 × State δ) := do
  let (ok, value, dev, exc) ← w.read result size offset s.dev s.exc
  some (ok, value, { s with dev := dev, exc := exc })

/-- `mbar_write` and `mbar2_write` -/
def windowWrite (w : Window δ) (size : Nat) (offset value : Uint32) :
    Option (Bool × State δ) := do
  let (ok, dev, exc) ← w.write size offset value s.dev s.exc
  some (ok, { s with dev := dev, exc := exc })

/-- `Memory_Retr`. `result` is the value of `*Result` before. -/
def memoryRetr (result : Uint32) (size : Nat) (offset : Uint32) :
    Option (Bool × Uint32 × State δ) :=
  match s.memoryFindSegmentFor b offset with
  | some (g, i) => some (true, ramRead (s.ram i) size (offset - g.start s.core).toNat, s)
  | none =>
    if inWindow s.core.mbar s.core.mbarSize offset then
      s.windowRead b.mbar result size (offset - s.core.mbar)
    else if inWindow s.core.mbar2 s.core.mbar2Size offset then
      s.windowRead b.mbar2 result size (offset - s.core.mbar2)
    else none

/-- `Memory_Stor`. `rom_write` stores nothing. -/
def memoryStor (size : Nat) (offset value : Uint32) : Option (Bool × State δ) :=
  match s.memoryFindSegmentFor b offset with
  | some (g, i) =>
    match g.module with
    | .ram =>
      let bytes := ramWrite (s.ram i) size (offset - g.start s.core).toNat value
      some (true, { s with ram := Function.update s.ram i bytes })
    | .rom => some (true, s)
  | none =>
    if inWindow s.core.mbar s.core.mbarSize offset then
      s.windowWrite b.mbar size (offset - s.core.mbar) value
    else if inWindow s.core.mbar2 s.core.mbar2Size offset then
      s.windowWrite b.mbar2 size (offset - s.core.mbar2) value
    else none

/-- The stack pointer. -/
def setA7 (value : Uint32) : State δ :=
  { s with core := { s.core with a := Function.update s.core.a 7 value } }

def setSr (value : Uint32) : State δ := { s with core := { s.core with sr := value } }

def setPc (value : Uint32) : State δ := { s with core := { s.core with pc := value } }

/-- `Stack_Push`: `EA_GetFromPC` in mode 4 and `EA_PutValue`. -/
def stackPush (value : Uint32) : Option (State δ) := do
  let s := s.setA7 (s.core.a 7 - 4)
  let (_, s) ← s.memoryStor b 32 (s.core.a 7) value
  some s

/-- `Stack_Pop`: `EA_GetFromPC` in mode 3 and `EA_GetValue`. The register is changed first. -/
def stackPop : Option (Uint32 × State δ) := do
  let address := s.core.a 7
  let (_, value, s) ← (s.setA7 (address + 4)).memoryRetr b b.uninit 32 address
  some (value, s)

/-! ## Exceptions -/

/-- Whether the saved address is that of the instruction. A `short` below 0 indexes what is
before the table. -/
def savesFault (vector : BitVec 16) : Bool :=
  vector.slt 16 &&
    (if vector.slt 0 then b.beforeTable vector.toInt
      else exceptionPcLocation.getD vector.toNat 0) == 1

def stackFrame (vector : BitVec 16) : Uint32 :=
  (0x4 ||| s.core.a 7 &&& 0x3) <<< 28 ||| (vector &&& 0xff).setWidth 32 <<< 18 |||
    s.core.sr &&& 0xffff

/-- The frame goes to the stack. -/
def pushFrame (vector : BitVec 16) (pcToPush : Uint32) : Option (State δ) := do
  let frame := s.stackFrame vector
  let s ← s.stackPush b pcToPush
  s.stackPush b frame

def exceptionRestoreFromStackFrame : Option (State δ) := do
  let (frame, s) ← s.stackPop b
  let (pc, s) ← (s.setSr (frame &&& 0x0000ffff)).stackPop b
  some (s.setPc pc)

/-- `exception_push_stack_frame`. Where the frame does not fit the stack pointer is reset,
and a frame for vector 31 is pushed and popped. -/
def exceptionPushStackFrame : Nat → BitVec 16 → State δ → Option (State δ)
  | 0, _, _ => none
  | fuel + 1, vector, s => do
    let pcToPush := if savesFault b vector then s.core.pcInstructionBegin else s.core.pc
    if s.memorySeek b (s.core.a 7 - 4) && s.memorySeek b (s.core.a 7 - 8) then
      s.pushFrame b vector pcToPush
    else
      let (_, a7, s) ← s.memoryRetr b (s.core.a 7) 32 s.core.vbr
      let s ← exceptionPushStackFrame fuel 31 (s.setA7 a7)
      let s ← s.exceptionRestoreFromStackFrame b
      s.pushFrame b vector pcToPush

/-- Where the address of the handler is. -/
def vectorAddress (vector : BitVec 16) : Uint32 := s.core.vbr + vector.signExtend 32 * 4

/-- `exception_do_raw_exception`. A handler in the ROM is left to the monitor. -/
def exceptionDoRawException (vector : BitVec 16) : Option (State δ) := do
  let (ok, offset, s) ← s.memoryRetr b 0 32 (s.vectorAddress vector)
  if !ok then some s
  else
    let s := s.setSr (clearT (setS s.core.sr))
    let (seg, _) ← s.memoryFindSegmentFor b offset
    if seg.baseRegister = .rombar then s.exceptionRestoreFromStackFrame b
    else some (s.setPc offset)

def exceptionDoException (fuel : Nat) (vector : BitVec 16) : Option (State δ) := do
  let s ← s.exceptionPushStackFrame b fuel vector
  s.exceptionDoRawException b vector

/-- The interrupt priority mask. -/
def mask : Nat := (interruptPriorityMask s.core.sr).toNat

/-- The level that `exception_check_and_handle` finds on its way down from 7. -/
def levelToTake : Option (Fin 8) :=
  (([7, 6, 5, 4, 3, 2, 1, 0] : List (Fin 8)).takeWhile (s.mask + 1 ≤ ·.val)).find?
    fun x => (s.exc.iackFunc x).isSome

/-- What `exception_check_and_handle` does for the level `x` and the vector of its
function. -/
def takeInterrupt (fuel : Nat) (x : Fin 8) (vector : BitVec 16) : Option (State δ) := do
  let s ← s.exceptionPushStackFrame b fuel vector
  let s := s.setSr (clearM (setInterruptPriorityMask s.core.sr (BitVec.ofNat 32 x)))
  s.exceptionDoRawException b vector

/-- The vector that the function of a level returns, as a `short`. -/
def iackVector (x : Fin 8) : BitVec 16 :=
  match s.exc.iackFunc x with
  | some func => (func s.dev x).setWidth 16
  | none => 0

def exceptionCheckAndHandle (fuel : Nat) : Option (State δ) :=
  if s.exc.pending = 0 then some s
  else
    match s.levelToTake with
    | some x => s.takeInterrupt b fuel x (s.iackVector x)
    | none => some s

/-- `rte`. The opcode is fetched again. -/
def rte : Option (State δ) := do
  let (_, _, s) ← s.memoryRetr b b.uninit 16 s.core.pc
  (s.setPc (s.core.pc + 2)).exceptionRestoreFromStackFrame b

end State

end SkyEye.ColdFire
