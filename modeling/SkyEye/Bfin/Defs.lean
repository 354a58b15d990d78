import SkyEye.Sparc.Bits
import Mathlib.Logic.Function.Basic

/-!
# The Blackfin core

The registers, the accumulators and the flags of `saved_state_type` of `bfin-sim.h`, and the
operations of `bfin-dis.c` on two registers. The result is none where the simulator ends: a word
that reaches `unhandled_instruction`, or an `abort` for what is not simulated.
-/

namespace SkyEye.Bfin

open Sparc (Uint32)

abbrev Uint16 := BitVec 16

/-- The flags are `int`s that hold 0 or 1. -/
structure Flags where
  ac0 : Bool
  an : Bool
  aq : Bool
  az : Bool
  v : Bool
  vs : Bool
  vInternal : Bool
  deriving DecidableEq

structure SavedState where
  dpregs : Fin 16 → Uint32
  a0 : BitVec 64
  a1 : BitVec 64
  flags : Flags
  pc : Uint32

/-- The index of `DREG` -/
def dreg (x : BitVec 3) : Fin 16 := ⟨x.toNat, by omega⟩

namespace SavedState

def setDpreg (s : SavedState) (r : Fin 16) (v : Uint32) : SavedState :=
  { s with dpregs := Function.update s.dpregs r v }

/-- `PCREG += n` -/
def advance (s : SavedState) (n : Uint32) : SavedState := { s with pc := s.pc + n }

/-! ## Flags -/

def setflagsNz (s : SavedState) (val : Uint32) : SavedState :=
  { s with flags := { s.flags with az := val == 0, an := val.msb } }

def setflagsLogical (s : SavedState) (val : Uint32) : SavedState :=
  let s := s.setflagsNz val
  { s with flags := { s.flags with ac0 := false, v := false } }

/-- The flags that the three shifts set. -/
def setflagsShift (s : SavedState) (val : Uint32) : SavedState :=
  { s with flags := { s.flags with an := val.msb, az := val == 0, v := false } }

end SavedState

/-! ## Shifts and sums -/

/-- `ashiftrt`. A shift of 32 is made of two of 16. -/
def ashiftrt (val : Uint32) (cnt : Nat) : Uint32 :=
  let realCnt := if cnt > 32 then 32 else cnt
  let sgn := ~~~(val >>> 31 - 1)
  let sgncnt := 32 - realCnt
  let (sgn, sgncnt) := if sgncnt > 16 then (sgn <<< 16, sgncnt - 16) else (sgn, sgncnt)
  let sgn := sgn <<< sgncnt
  let (val, realCnt) := if realCnt > 16 then (val >>> 16, realCnt - 16) else (val, realCnt)
  val >>> realCnt ||| sgn

def lshiftrt (val : Uint32) (cnt : Nat) : Uint32 :=
  let realCnt := if cnt > 32 then 32 else cnt
  let (val, realCnt) := if realCnt > 16 then (val >>> 16, realCnt - 16) else (val, realCnt)
  val >>> realCnt

def lshift (val : Uint32) (cnt : Nat) : Uint32 :=
  let realCnt := if cnt > 32 then 32 else cnt
  let (val, realCnt) := if realCnt > 16 then (val <<< 16, realCnt - 16) else (val, realCnt)
  val <<< realCnt

namespace SavedState

def add32 (s : SavedState) (a b : Uint32) (carry : Bool) : Uint32 × SavedState :=
  let v := a + b
  let overflow := (a.msb ^^ v.msb) && (b.msb ^^ v.msb)
  (v, { s with flags := { s.flags with
    an := v.msb
    vs := s.flags.vs || overflow
    v := overflow
    vInternal := s.flags.vInternal || overflow
    az := v == 0
    ac0 := if carry then decide (~~~a < b) else s.flags.ac0 } })

/-- The loop of `add_and_shift`: `v` is an `int`, and the shift by 30 keeps its sign. -/
def shiftOverflow : Nat → Uint32 → Bool → Uint32 × Bool
  | 0, v, o => (v, o)
  | n + 1, v, o =>
    let x := v.sshiftRight 30
    shiftOverflow n (v <<< 1) (o || x == 1 || x == 2)

def addAndShift (s : SavedState) (a b : Uint32) (shift : Nat) : Uint32 × SavedState :=
  let s := { s with flags := { s.flags with vInternal := false } }
  let (v, s) := s.add32 a b false
  let (v, o) := shiftOverflow shift v s.flags.vInternal
  (v, { s with flags := { s.flags with vInternal := o, v := o, vs := s.flags.vs || o } })

end SavedState

/-! ## Operations on two registers -/

/-- `DREG (dst) = v` with the flags of a shift. -/
def shiftTo (s : SavedState) (dst : Fin 16) (v : Uint32) : SavedState :=
  (s.setDpreg dst v).setflagsShift v

/-- `DREG (dst) = v` and `setflags_logical`. -/
def logicalTo (s : SavedState) (dst : Fin 16) (v : Uint32) : SavedState :=
  (s.setDpreg dst v).setflagsLogical v

/-- DIVQ of `decode_ALU2op_0` -/
def divq (s : SavedState) (dst src : Fin 16) : SavedState :=
  let s := s.setDpreg src (s.dpregs src <<< 16)
  let s := s.setDpreg dst
    (if s.flags.aq then s.dpregs dst + s.dpregs src else s.dpregs dst - s.dpregs src)
  let aq := (s.dpregs dst).msb ^^ (s.dpregs src).msb
  let s := { s with flags := { s.flags with aq := aq } }
  let s := s.setDpreg dst (s.dpregs dst <<< 1)
  let s := if aq then s else s.setDpreg dst (s.dpregs dst + 1)
  s.setDpreg src (s.dpregs src >>> 16)

/-- DIVS of `decode_ALU2op_0` -/
def divs (s : SavedState) (dst src : Fin 16) : SavedState :=
  let aq := (s.dpregs dst).msb ^^ (s.dpregs src).msb
  let s := { s with flags := { s.flags with aq := aq } }
  let s := s.setDpreg dst (s.dpregs dst <<< 1)
  if aq then s else s.setDpreg dst (s.dpregs dst + 1)

/-- `decode_ALU2op_0`. A count that is negative as an `int` has no meaning in C. -/
def decodeALU2op (iw0 : Uint16) (s : SavedState) : Option SavedState :=
  let src := dreg (iw0.extractLsb' 3 3)
  let dst := dreg (iw0.extractLsb' 0 3)
  let x := s.dpregs dst
  let y := s.dpregs src
  (match (iw0.extractLsb' 6 4).toNat with
  | 0 => if y.msb then none else some (shiftTo s dst (ashiftrt x y.toNat))
  | 1 => if y.msb then none else some (shiftTo s dst (lshiftrt x y.toNat))
  | 2 => if y.msb then none else some (shiftTo s dst (lshift x y.toNat))
  | 3 => some (s.setDpreg dst (x * y))
  | 4 => let (v, s) := s.addAndShift x y 1; some (s.setDpreg dst v)
  | 5 => let (v, s) := s.addAndShift x y 2; some (s.setDpreg dst v)
  | 8 => some (divq s dst src)
  | 9 => some (divs s dst src)
  | 10 => some (logicalTo s dst ((y.setWidth 16).signExtend 32))
  | 11 => some (logicalTo s dst ((y.setWidth 16).setWidth 32))
  | 12 => some (logicalTo s dst ((y.setWidth 8).signExtend 32))
  | 13 => some (logicalTo s dst ((y.setWidth 8).setWidth 32))
  | 14 =>
    let s := (s.setDpreg dst (-y)).setflagsNz (-y)
    some (if y = 0x80000000 then { s with flags := { s.flags with v := true, vs := true } } else s)
  | 15 => some (logicalTo s dst (~~~y))
  | _ => none).map (SavedState.advance · 2)

/-- Static storage, in which `saved_state` lies. -/
def zeros : SavedState := ⟨fun _ => 0, 0, 0, ⟨false, false, false, false, false, false, false⟩, 0⟩

end SkyEye.Bfin
