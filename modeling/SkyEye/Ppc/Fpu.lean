import SkyEye.Lib.BinaryFloat
import SkyEye.Ppc.CompareBranch

/-!
# The floating-point unit

The doubles and singles of `ppc_fpu.h` taken apart and put together as in `ppc_tools.c`, and
the operations and instructions of `ppc_fpu.c`. A significand carries three bits behind the
last one of the format. FPSCR, which the C reads off the current core, is an argument; so is
what a local variable holds before anything is assigned to it.
-/

namespace SkyEye.Ppc.Fpu

open Sparc (Uint32)
open BinaryFloat (Mode)

/-- `ppc_fpr_type` -/
inductive FprType where
  | norm
  | zero
  | nan
  | inf
  deriving DecidableEq, Repr

structure PpcDouble where
  type : FprType
  s : Uint32
  e : Int
  m : BitVec 64

structure PpcSingle where
  type : FprType
  s : Uint32
  e : Int
  m : Uint32

/-- `ppc_quadro`, with the more significant half first. -/
structure PpcQuadro where
  type : FprType
  s : Uint32
  e : Int
  m0 : BitVec 64
  m1 : BitVec 64

abbrev fpuSignBit : BitVec 64 := 0x8000000000000000

abbrev fpscrOx : Uint32 := 1 <<< 28
abbrev fpscrUx : Uint32 := 1 <<< 27
abbrev fpscrXx : Uint32 := 1 <<< 25
abbrev fpscrVxsnan : Uint32 := 1 <<< 24
abbrev fpscrVxisi : Uint32 := 1 <<< 23
abbrev fpscrVxidi : Uint32 := 1 <<< 22
abbrev fpscrVxzdz : Uint32 := 1 <<< 21
abbrev fpscrVximz : Uint32 := 1 <<< 20
abbrev fpscrVxvc : Uint32 := 1 <<< 19
abbrev fpscrVxsqrt : Uint32 := 1 <<< 9

/-- `FPSCR_RN`, with the names of its values. -/
def fpscrRn (fpscr : Uint32) : Mode :=
  let rn := fpscr &&& 3
  if rn = 0 then .near else if rn = 1 then .zero else if rn = 2 then .up else .down

/-! ## Leading zeros -/

/-- The halves of `ppc_count_leading_zeros` and `ppc_fpu_normalize_single`, from `ret`. -/
def countFrom (ret : Int) (dd : Uint32) : Int :=
  let (ret, dd) := if 0xFFFF < dd then (ret - 16, dd >>> 16) else (ret, dd)
  let (ret, dd) := if 0xFF < dd then (ret - 8, dd >>> 8) else (ret, dd)
  let (ret, dd) := if dd &&& 0xF0 ≠ 0 then (ret - 4, dd >>> 4) else (ret, dd)
  let (ret, dd) := if dd &&& 0xC ≠ 0 then (ret - 2, dd >>> 2) else (ret, dd)
  if dd &&& 0x2 ≠ 0 then ret - 1 else ret

def ppcCountLeadingZeros (i : BitVec 64) : Int :=
  let dd := (i >>> 32).setWidth 32
  if dd ≠ 0 then countFrom 31 dd else countFrom 63 (i.setWidth 32)

/-- `ppc_fpu_normalize`, `ppc_fpu_normalize_single` and `ppc_fpu_normalize_quadro` -/
def ppcFpuNormalize (d : PpcDouble) : Int := ppcCountLeadingZeros d.m
def ppcFpuNormalizeSingle (s : PpcSingle) : Int := countFrom 31 s.m
def ppcFpuNormalizeQuadro (d : PpcQuadro) : Int :=
  if d.m0 ≠ 0 then ppcCountLeadingZeros d.m0 else 64 + ppcCountLeadingZeros d.m1

/-! ## Taking apart -/

def ppcFpuUnpackDouble (d : BitVec 64) : PpcDouble :=
  let s : Uint32 := if d &&& fpuSignBit ≠ 0 then 1 else 0
  let e : Int := ((d >>> 52) &&& 0x7FF).toNat
  let m := d &&& 0x000FFFFFFFFFFFFF
  if e = 2047 then ⟨if m = 0 then .inf else .nan, s, e, m⟩
  else if e = 0 then
    if m = 0 then ⟨.zero, s, e, m⟩
    else
      let diff := ppcFpuNormalize ⟨.norm, s, e, m⟩ - 8
      ⟨.norm, s, e - (1023 - 1 + diff), m <<< (diff + 3).toNat⟩
  else ⟨.norm, s, e - 1023, (m ||| BitVec.twoPow 64 52) <<< 3⟩

/-- `ppc_fpu_unpack_single`: the sign stays where it is. -/
def ppcFpuUnpackSingle (d : Uint32) : PpcSingle :=
  let s := d &&& 0x80000000
  let e : Int := ((d >>> 23) &&& 0xFF).toNat
  let m := d &&& 0x007FFFFF
  if e = 255 then ⟨if m = 0 then .inf else .nan, s, e, m⟩
  else if e = 0 then
    if m = 0 then ⟨.zero, s, e, m⟩
    else
      let diff := ppcFpuNormalizeSingle ⟨.norm, s, e, m⟩ - 8
      ⟨.norm, s, e - (127 - 1 + diff), m <<< (diff + 3).toNat⟩
  else ⟨.norm, s, e - 127, (m ||| BitVec.twoPow 32 23) <<< 3⟩

def ppcFpuSingleToDouble (s : PpcSingle) : PpcDouble :=
  ⟨s.type, s.s, s.e, s.m.setWidth 64 <<< 29⟩

/-! ## Putting together -/

/-- `ppc_fpu_round`, `ppc_fpu_round_double` and `ppc_fpu_round_single`: the significand, whose last
three bits are still to be cut off, and the flags. -/
def ppcFpuRound {w : Nat} (fpscr s : Uint32) (m : BitVec w) : BitVec w × Uint32 :=
  match fpscrRn fpscr with
  | .near =>
    if m &&& 7 ≠ 0 then
      if m &&& 7 ≠ 4 then (m + 4, fpscrXx)
      else if m &&& 8 ≠ 0 then (m + 4, fpscrXx)
      else (m, fpscrXx)
    else (m, 0)
  | .zero => if m &&& 7 ≠ 0 then (m, fpscrXx) else (m, 0)
  | .up => if s = 0 ∧ m &&& 7 ≠ 0 then (m + 8, fpscrXx) else (m, 0)
  | .down => if s ≠ 0 ∧ m &&& 7 ≠ 0 then (m + 8, fpscrXx) else (m, 0)

/-- The case of a number in `ppc_fpu_pack_double` and `ppc_fpu_pack_single`, for a significand of
`top` bits: the fields for the exponent and the fraction, and the flags. -/
def packNorm (bias top infExp : Nat) (fpscr s : Uint32) (e : Int) (m : BitVec 64) :
    Int × BitVec 64 × Uint32 :=
  let e := e + bias
  if 0 < e then
    let (m, ret) := ppcFpuRound fpscr s m
    let (e, m) := if m &&& BitVec.twoPow 64 top ≠ 0 then (e + 1, m >>> 4) else (e, m >>> 3)
    if (infExp : Int) ≤ e then (infExp, 0, ret ||| fpscrOx) else (e, m, ret)
  else
    let e := -e + 1
    if e ≤ top then
      let (m, ret) := ppcFpuRound fpscr s (m >>> e.toNat)
      let m := m <<< 1
      if m &&& BitVec.twoPow 64 top ≠ 0 then (1, 0, ret) else (0, m >>> 4, ret ||| fpscrUx)
    else (0, 0, fpscrUx)

/-- The `switch` of `ppc_fpu_pack_double` and `ppc_fpu_pack_single`; `m` is the significand that a
number is packed from. -/
def packFields (bias top infExp : Nat) (fpscr : Uint32) (d : PpcDouble) (m : BitVec 64) :
    Int × BitVec 64 × Uint32 :=
  match d.type with
  | .norm => packNorm bias top infExp fpscr d.s d.e m
  | .zero => (0, 0, 0)
  | .nan => (infExp, 1, 0)
  | .inf => (infExp, 0, 0)

def fpdPackVar (s : Uint32) (e : Int) (m : BitVec 64) : BitVec 64 :=
  (if s ≠ 0 then fpuSignBit else 0) ||| ((BitVec.ofInt 64 e &&& 0x7FF) <<< 52) |||
    (m &&& 0x000FFFFFFFFFFFFF)

def fpsPackVar (s : Uint32) (e : Int) (m : BitVec 64) : Uint32 :=
  (if s ≠ 0 then (0x80000000 : Uint32) else 0) ||| (BitVec.ofInt 32 e <<< 23) |||
    (m &&& 0x7FFFFF).setWidth 32

/-- `ppc_fpu_pack_double`: the double and the flags. -/
def ppcFpuPackDouble (fpscr : Uint32) (d : PpcDouble) : BitVec 64 × Uint32 :=
  let (e, m, ret) := packFields 1023 56 2047 fpscr d d.m
  (fpdPackVar d.s e m, ret)

def ppcFpuPackSingle (fpscr : Uint32) (d : PpcDouble) : Uint32 × Uint32 :=
  let (e, m, ret) := packFields 127 27 255 fpscr d (d.m >>> 29)
  (fpsPackVar d.s e m, ret)

/-- The case of a number in `ppc_fpu_pack_double_as_single`: the type and the significand of the
single, the exponent of the double and the flags. The exponent changes where the single is not
denormalized, and the type of the double never does. -/
def roundToSingle (fpscr : Uint32) (d : PpcDouble) : FprType × Uint32 × Int × Uint32 :=
  let m : Uint32 := (d.m >>> 29).setWidth 32
  let e := d.e + 127
  if 0 < e then
    let (m, ret) := ppcFpuRound fpscr d.s m
    let (e, m) := if m &&& BitVec.twoPow 32 27 ≠ 0 then (e + 1, m >>> 4) else (e, m >>> 3)
    if 255 ≤ e then (.inf, 0, 255 - 127, ret ||| fpscrOx) else (.norm, m, e - 127, ret)
  else
    let e := -e + 1
    if e ≤ 27 then
      let (m, ret) := ppcFpuRound fpscr d.s (m >>> e.toNat)
      let m := m <<< 1
      if m &&& BitVec.twoPow 32 27 ≠ 0 then (.norm, 0, d.e, ret)
      else (.norm, m >>> 4, d.e, ret ||| fpscrUx)
    else (.zero, 0, d.e, fpscrUx)

def ppcFpuPackDoubleAsSingle (fpscr : Uint32) (d : PpcDouble) : BitVec 64 × Uint32 :=
  let (type, m, e, ret) : FprType × Uint32 × Int × Uint32 :=
    match d.type with
    | .norm => roundToSingle fpscr d
    | .zero => (.zero, 0, d.e, 0)
    | .nan => (.nan, 1, d.e, 0)
    | .inf => (.inf, 0, d.e, 0)
  let m := if type = .norm then m.setWidth 64 <<< 32 else m.setWidth 64
  let (r, flags) := ppcFpuPackDouble fpscr { d with e := e, m := m }
  (r, ret ||| flags)

def ppcFpuDoubleToInt (fpscr : Uint32) (d : PpcDouble) : Uint32 :=
  let neg := d.s ≠ 0
  match d.type with
  | .norm =>
    if d.e < 0 then
      match fpscrRn fpscr with
      | .near => if d.e < -1 then 0 else if neg then -1 else 1
      | .zero => 0
      | .up => if neg then 0 else 1
      | .down => if neg then -1 else 0
    else if 31 ≤ d.e then if neg then 0x80000000 else 0x7FFFFFFF
    else
      let shift := (56 - d.e - 1).toNat
      let mask := BitVec.twoPow 64 shift - 1
      let i : BitVec 64 :=
        match fpscrRn fpscr with
        | .near => if d.m &&& mask ≠ 0 ∧ d.m &&& BitVec.twoPow 64 (shift - 1) ≠ 0 then 1 else 0
        | .zero => 0
        | .up => if ¬neg ∧ d.m &&& mask ≠ 0 then 1 else 0
        | .down => if neg ∧ d.m &&& mask ≠ 0 then 1 else 0
      let m := (d.m >>> shift) + i
      if neg then (-m).setWidth 32 else m.setWidth 32
  | .zero => 0
  | .inf => if neg then 0x80000000 else 0x7FFFFFFF
  | .nan => if neg then 0x80000000 else 0x7FFFFFFF

/-! ## The operations -/

/-- The significand of the smaller operand, moved by the difference of the exponents. -/
def alignM (m : BitVec 64) (diff : Nat) : BitVec 64 :=
  if diff ≤ 56 then m >>> diff else if m ≠ 0 then 1 else 0

/-- The sign of an exact zero, from the sign of the first operand. -/
def zeroSign (fpscr s t : Uint32) : Uint32 := if fpscrRn fpscr = .down then s ||| t else s &&& t

/-- `ppc_fpu_add`; `res` is what the result holds before. -/
def ppcFpuAdd (fpscr : Uint32) (res a b : PpcDouble) : PpcDouble :=
  match a.type, b.type with
  | .norm, .norm =>
    let diff := a.e - b.e
    let (am, bm, e) :=
      if diff < 0 then (alignM a.m (-diff).toNat, b.m, b.e) else (a.m, alignM b.m diff.toNat, a.e)
    if a.s = b.s then
      let m := am + bm
      if m &&& BitVec.twoPow 64 56 ≠ 0 then ⟨.norm, a.s, e + 1, m >>> 1⟩ else ⟨.norm, a.s, e, m⟩
    else
      let m := am - bm
      if m = 0 then ⟨.zero, zeroSign fpscr a.s b.s, e, m⟩
      else
        let (m, s) := if m.slt 0 then (bm - am, b.s) else (m, a.s)
        let diff := ppcFpuNormalize ⟨.norm, s, e, m⟩ - 8
        ⟨.norm, s, e - diff, m <<< diff.toNat⟩
  | .nan, .nan => { res with s := a.s, type := .nan }
  | .norm, .zero => a
  | .nan, .norm => { a with e := res.e }
  | .nan, .inf => { a with e := res.e }
  | .nan, .zero => { a with e := res.e }
  | .zero, .norm => b
  | .norm, .nan => { b with e := res.e }
  | .inf, .nan => { b with e := res.e }
  | .zero, .nan => { b with e := res.e }
  | .inf, .inf =>
    if a.s ≠ b.s then { res with s := a.s ^^^ b.s, type := .nan }
    else { res with s := a.s, type := .inf }
  | .inf, .norm => { res with s := a.s, type := .inf }
  | .inf, .zero => { res with s := a.s, type := .inf }
  | .norm, .inf => { res with s := b.s, type := .inf }
  | .zero, .inf => { res with s := b.s, type := .inf }
  | .zero, .zero => { res with type := .zero, s := if a.s ≠ 0 ∧ b.s ≠ 0 then 1 else 0 }

/-- The lower and the upper half of a word. -/
def lowHalf (a : BitVec 64) : BitVec 64 := a &&& 0xFFFFFFFF
def highHalf (a : BitVec 64) : BitVec 64 := a >>> 32

/-- `rH` and `rL` of `ppc_fpu_mul`: the product of two significands in two words. -/
def mulWide (a b : BitVec 64) : BitVec 64 × BitVec 64 :=
  let fL := lowHalf a * lowHalf b
  let fM1 := highHalf a * lowHalf b
  let fM2 := lowHalf a * highHalf b
  let fH := highHalf a * highHalf b
  let split := fM1 + fM2
  let low := lowHalf split <<< 32
  let carry : BitVec 64 := if fL + low < fL then 1 else 0
  (fH + carry + highHalf split, fL + low)

/-- The cases of `ppc_fpu_mul` and `ppc_fpu_mul_quadro` that are not a product of two numbers: the
type and the sign. -/
def mulSpecial (a b : PpcDouble) : FprType × Uint32 :=
  let s := a.s ^^^ b.s
  match a.type, b.type with
  | .nan, .nan => (.nan, s)
  | .nan, _ => (.nan, a.s)
  | .norm, .nan => (.nan, b.s)
  | .inf, .nan => (.nan, b.s)
  | .zero, .nan => (.nan, b.s)
  | .norm, t => (t, s)
  | .zero, .inf => (.nan, s)
  | .inf, .zero => (.nan, s)
  | .zero, _ => (.zero, s)
  | .inf, _ => (.inf, s)

def ppcFpuMul (res a b : PpcDouble) : PpcDouble :=
  if a.type = .norm ∧ b.type = .norm then
    let s := a.s ^^^ b.s
    let e := a.e + b.e
    let (rH, rL) := mulWide a.m b.m
    let m := (rH <<< 9) ||| (rL >>> (64 - 9))
    if m &&& BitVec.twoPow 64 57 ≠ 0 then ⟨.norm, s, e + 2, m >>> 2⟩
    else if m &&& BitVec.twoPow 64 56 ≠ 0 then ⟨.norm, s, e + 1, m >>> 1⟩
    else ⟨.norm, s, e, m⟩
  else
    { res with
      type := (mulSpecial a b).1
      s := (mulSpecial a b).2
      e := if a.type = .nan ∧ b.type = .nan then a.e else res.e }

/-- The loop of `ppc_fpu_div`, with `left` rounds to go: the quotient, and what is left then. -/
def divLoop (bm : BitVec 64) : Nat → BitVec 64 → BitVec 64 → BitVec 64 × Nat
  | 0, rm, _ => (rm, 0)
  | left + 1, rm, am =>
    if am = 0 then (rm, left + 1)
    else
      let rm := rm <<< 1
      let (rm, am) := if bm ≤ am then (rm ||| 1, am - bm) else (rm, am)
      divLoop bm left rm (am <<< 1)

def ppcFpuDiv (res a b : PpcDouble) : PpcDouble :=
  let s := a.s ^^^ b.s
  match a.type, b.type with
  | .norm, .norm =>
    let e := a.e - b.e
    let (rm, left) := divLoop b.m 56 0 a.m
    let m := rm <<< (left + 1)
    if m &&& BitVec.twoPow 64 56 ≠ 0 then ⟨.norm, s, e, m >>> 1⟩ else ⟨.norm, s, e - 1, m⟩
  | .nan, .nan => { res with type := .nan, s := a.s, e := a.e }
  | .nan, _ => { res with type := .nan, s := a.s }
  | .inf, .norm => { res with type := .inf, s := s }
  | .zero, .norm => { res with type := .zero, s := s }
  | .norm, .nan => { res with type := .nan, s := b.s }
  | .inf, .nan => { res with type := .nan, s := b.s }
  | .zero, .nan => { res with type := .nan, s := b.s }
  | .norm, .inf => { res with type := .zero, s := s }
  | .norm, .zero => { res with type := .inf, s := s }
  | .inf, .inf => { res with type := .nan, s := s }
  | .inf, .zero => { res with type := .nan, s := s }
  | .zero, .inf => { res with type := .nan, s := s }
  | .zero, .zero => { res with type := .nan, s := s }

/-- The loop of `ppc_fpu_sqrt`, with `n` rounds to go. -/
def sqrtLoop (fpscr : Uint32) (b : PpcDouble) : Nat → PpcDouble → PpcDouble
  | 0, d => d
  | n + 1, d =>
    let q := ppcFpuDiv ⟨.norm, 0, 0, 0⟩ b d
    let d := ppcFpuAdd fpscr d d q
    sqrtLoop fpscr b n { d with e := d.e - 1 }

/-- `ppc_fpu_sqrt`: the result and the flags. -/
def ppcFpuSqrt (fpscr : Uint32) (res b : PpcDouble) : PpcDouble × Uint32 :=
  match b.type with
  | .norm =>
    if b.s ≠ 0 then ({ res with type := .nan }, fpscrVxsqrt)
    else (sqrtLoop fpscr b 6 { b with e := b.e.tdiv 2 }, 0)
  | .zero => ({ res with type := .zero, s := b.s }, 0)
  | .inf =>
    if b.s ≠ 0 then ({ res with type := .nan }, fpscrVxsqrt)
    else ({ res with type := .inf, s := 0 }, 0)
  | .nan => ({ res with type := .nan }, 0)

def ppcFpuCompare (a b : PpcDouble) : Uint32 :=
  if a.type = .zero then
    if b.type = .zero then 2 else if b.s ≠ 0 then 4 else 8
  else if b.type = .zero then if a.s ≠ 0 then 8 else 4
  else if a.s ≠ b.s then if a.s ≠ 0 then 8 else 4
  else if b.e < a.e then if a.s ≠ 0 then 8 else 4
  else if a.e < b.e then if a.s ≠ 0 then 4 else 8
  else if b.m < a.m then if a.s ≠ 0 then 8 else 4
  else if a.m < b.m then if a.s ≠ 0 then 4 else 8
  else 2

/-! ## Multiply and add -/

def ppcFpuQuadroMshr (q : PpcQuadro) (exp : Nat) : PpcQuadro :=
  let (m0, m1, exp) := if 64 ≤ exp then (0, q.m0, exp - 64) else (q.m0, q.m1, exp)
  let t := m0 &&& (BitVec.twoPow 64 exp - 1)
  { q with m0 := m0 >>> exp, m1 := (m1 >>> exp) ||| (t <<< (64 - exp)) }

def ppcFpuQuadroMshl (q : PpcQuadro) (exp : Nat) : PpcQuadro :=
  let (m0, m1, exp) := if 64 ≤ exp then (q.m1, 0, exp - 64) else (q.m0, q.m1, exp)
  let t := (m1 >>> (64 - exp)) &&& (BitVec.twoPow 64 exp - 1)
  { q with m0 := (m0 <<< exp) ||| t, m1 := m1 <<< exp }

def ppcFpuAddQuadroM (a b : PpcQuadro) : BitVec 64 × BitVec 64 :=
  let m1 := a.m1 + b.m1
  (if m1 < a.m1 then a.m0 + b.m0 + 1 else a.m0 + b.m0, m1)

def ppcFpuSubQuadroM (a b : PpcQuadro) : BitVec 64 × BitVec 64 :=
  (if a.m1 < b.m1 then a.m0 - b.m0 - 1 else a.m0 - b.m0, a.m1 - b.m1)

/-- The significand of the smaller operand, moved by the difference of the exponents. -/
def alignQuadro (q : PpcQuadro) (diff : Nat) : PpcQuadro :=
  if diff ≤ 107 then ppcFpuQuadroMshr q diff
  else if q.m0 ≠ 0 ∨ q.m1 ≠ 0 then { q with m0 := 0, m1 := 1 }
  else { q with m0 := 0, m1 := 0 }

/-- The sum of two numbers in `ppc_fpu_add_quadro`, with the exponent they were brought to. -/
def addQuadroNorm (fpscr : Uint32) (a b : PpcQuadro) (e : Int) : PpcQuadro :=
  if a.s = b.s then
    let (m0, m1) := ppcFpuAddQuadroM a b
    let x := m1 &&& 1
    let q : PpcQuadro := ⟨.norm, a.s, e, m0, m1⟩
    let q :=
      if m0 &&& BitVec.twoPow 64 (107 - 64) ≠ 0 then { ppcFpuQuadroMshr q 1 with e := e + 1 } else q
    { q with m1 := (q.m1 &&& 0xFFFFFFFFFFFFFFFE) ||| x }
  else if a.m0 = b.m0 ∧ a.m1 = b.m1 then ⟨.zero, zeroSign fpscr a.s b.s, e, 0, 0⟩
  else
    let less := a.m0 < b.m0 ∨ a.m0 = b.m0 ∧ a.m1 < b.m1
    let (m0, m1) := if less then ppcFpuSubQuadroM b a else ppcFpuSubQuadroM a b
    let q : PpcQuadro := ⟨.norm, if less then b.s else a.s, e, m0, m1⟩
    let diff := ppcFpuNormalizeQuadro q - (128 - 107)
    let x := m1 &&& 1
    let q := ppcFpuQuadroMshl { q with m1 := m1 &&& 0xFFFFFFFFFFFFFFFE } diff.toNat
    { q with e := e - diff, m1 := q.m1 ||| x }

def ppcFpuAddQuadro (fpscr : Uint32) (res a b : PpcQuadro) : PpcQuadro :=
  let a := if a.type = .norm then ppcFpuQuadroMshl a 1 else a
  let b := if b.type = .norm then ppcFpuQuadroMshl b 1 else b
  match a.type, b.type with
  | .norm, .norm =>
    let diff := a.e - b.e
    if diff < 0 then addQuadroNorm fpscr (alignQuadro a (-diff).toNat) b b.e
    else addQuadroNorm fpscr a (alignQuadro b diff.toNat) a.e
  | .nan, .nan => { res with s := a.s, type := .nan }
  | .norm, .zero => a
  | .nan, .norm => a
  | .nan, .inf => a
  | .nan, .zero => a
  | .zero, .norm => b
  | .norm, .nan => b
  | .inf, .nan => b
  | .zero, .nan => b
  | .inf, .inf =>
    if a.s ≠ b.s then { res with s := a.s ^^^ b.s, type := .nan }
    else { res with s := a.s, type := .inf }
  | .inf, .norm => { res with s := a.s, type := .inf }
  | .inf, .zero => { res with s := a.s, type := .inf }
  | .norm, .inf => { res with s := b.s, type := .inf }
  | .zero, .inf => { res with s := b.s, type := .inf }
  | .zero, .zero => { res with type := .zero, s := if a.s ≠ 0 ∧ b.s ≠ 0 then 1 else 0 }

def ppcFpuMulQuadro (res : PpcQuadro) (a b : PpcDouble) (prec : Nat) : PpcQuadro :=
  if a.type = .norm ∧ b.type = .norm then
    let (rH, rL) := mulWide a.m b.m
    let e := a.e + b.e
    let q : PpcQuadro := ⟨.norm, a.s ^^^ b.s, e, rH, rL⟩
    if rH &&& BitVec.twoPow 64 48 ≠ 0 then
      { ppcFpuQuadroMshr q (2 + (111 - prec)) with e := e + 2 }
    else if rH &&& BitVec.twoPow 64 47 ≠ 0 then
      { ppcFpuQuadroMshr q (1 + (111 - prec)) with e := e + 1 }
    else ppcFpuQuadroMshr q (111 - prec)
  else
    { res with
      type := (mulSpecial a b).1
      s := (mulSpecial a b).2
      e := if a.type = .nan ∧ b.type = .nan then a.e else res.e }

def ppcFpuMulAdd (fpscr : Uint32) (res m1 m2 s : PpcDouble) : PpcDouble :=
  let p := ppcFpuMulQuadro ⟨.norm, 0, 0, 0, 0⟩ m1 m2 106
  let q := ppcFpuQuadroMshl ⟨s.type, s.s, s.e, 0, s.m⟩ (106 - 56)
  let x := ppcFpuAddQuadro fpscr ⟨.norm, 0, 0, 0, 0⟩ p q
  let m :=
    if x.type = .norm then (x.m0 <<< 13) ||| ((x.m1 >>> (64 - 12)) <<< 1) ||| (x.m1 &&& 1)
    else res.m
  ⟨x.type, x.s, x.e, m⟩

/-! ## The instructions -/

/-- The core with FPSCR. -/
structure FpuCore (M : Type) extends E500Core M where
  fpscr : Uint32

/-- The fourth register of `PPC_OPC_TEMPL_A`. -/
def rC (opc : Uint32) : Nat := ((opc >>> 6) &&& 0x1F).toNat

namespace FpuCore

variable {M : Type} (uninit : PpcDouble) (s : FpuCore M)

/-- `fpr[frD] = v` -/
def setFrD (v : BitVec 64) : FpuCore M :=
  { s with fpr := Function.update s.fpr (rD s.currentOpc) v }

/-- `current_core->fpscr |= flags` -/
def raise (flags : Uint32) : FpuCore M := { s with fpscr := s.fpscr ||| flags }
def raiseIf (c : Bool) (flags : Uint32) : FpuCore M := if c then s.raise flags else s

/-- `fpscr |= ppc_fpu_pack_double(&D, &fpr[frD])`, and the same for a single. -/
def finish (d : PpcDouble) : FpuCore M :=
  (s.setFrD (ppcFpuPackDouble s.fpscr d).1).raise (ppcFpuPackDouble s.fpscr d).2
def finishSingle (d : PpcDouble) : FpuCore M :=
  (s.setFrD (ppcFpuPackDoubleAsSingle s.fpscr d).1).raise (ppcFpuPackDoubleAsSingle s.fpscr d).2

/-- `fpr[frA]`, `fpr[frB]` and `fpr[frC]`, and what they are taken apart into. -/
def opA : BitVec 64 := s.fpr (rA s.currentOpc)
def opB : BitVec 64 := s.fpr (rB s.currentOpc)
def opC : BitVec 64 := s.fpr (rC s.currentOpc)
def frA : PpcDouble := ppcFpuUnpackDouble s.opA
def frB : PpcDouble := ppcFpuUnpackDouble s.opB
def frC : PpcDouble := ppcFpuUnpackDouble s.opC

/-- `B.s ^= 1` -/
def negate (d : PpcDouble) : PpcDouble := { d with s := d.s ^^^ 1 }

/-- The flag and the sum of the additions. -/
def addWith (b : PpcDouble) (end_ : FpuCore M → PpcDouble → FpuCore M) : FpuCore M :=
  let a := s.frA
  let s := s.raiseIf (a.s ≠ b.s && a.type = .inf && b.type = .inf) fpscrVxisi
  end_ s (ppcFpuAdd s.fpscr uninit a b)

/-- The second operand of the subtractions. -/
def subtrahend : PpcDouble := if s.frB.type ≠ .nan then negate s.frB else s.frB

def ppcOpcFaddx : FpuCore M := s.addWith uninit s.frB finish
def ppcOpcFaddsx : FpuCore M := s.addWith uninit s.frB finishSingle
def ppcOpcFsubx : FpuCore M := s.addWith uninit s.subtrahend finish
def ppcOpcFsubsx : FpuCore M := s.addWith uninit s.subtrahend finishSingle

/-- The flags and the quotient of the divisions. -/
def divWith (end_ : FpuCore M → PpcDouble → FpuCore M) : FpuCore M :=
  let a := s.frA
  let b := s.frB
  let s := s.raiseIf (a.type = .zero && b.type = .zero) fpscrVxzdz
  let s := s.raiseIf (a.type = .inf && b.type = .inf) fpscrVxidi
  let s := s.raiseIf (b.type = .zero && a.type ≠ .zero) fpscrVxidi
  end_ s (ppcFpuDiv uninit a b)

def ppcOpcFdivx : FpuCore M := s.divWith uninit finish
def ppcOpcFdivsx : FpuCore M := s.divWith uninit finishSingle

/-- The flag and the product of the multiplications. -/
def mulWith (end_ : FpuCore M → PpcDouble → FpuCore M) : FpuCore M :=
  let a := s.frA
  let c := s.frC
  let s := s.raiseIf (a.type = .inf && c.type = .zero || a.type = .zero && c.type = .inf)
    fpscrVximz
  end_ s (ppcFpuMul uninit a c)

def ppcOpcFmulx : FpuCore M := s.mulWith uninit finish
def ppcOpcFmulsx : FpuCore M := s.mulWith uninit finishSingle

/-- The multiply-adds, with the addend as it is passed. -/
def mulAdd (b : PpcDouble) : PpcDouble := ppcFpuMulAdd s.fpscr uninit s.frA s.frC b

def ppcOpcFmaddx : FpuCore M := s.finish (s.mulAdd uninit s.frB)
def ppcOpcFmaddsx : FpuCore M := s.finishSingle (s.mulAdd uninit s.frB)
def ppcOpcFmsubx : FpuCore M := s.finish (s.mulAdd uninit (negate s.frB))
/-- The addend is not negated here. -/
def ppcOpcFmsubsx : FpuCore M := s.finishSingle (s.mulAdd uninit s.frB)
def ppcOpcFnmaddx : FpuCore M := s.finish (negate (s.mulAdd uninit s.frB))
def ppcOpcFnmaddsx : FpuCore M := s.finishSingle (negate (s.mulAdd uninit s.frB))
def ppcOpcFnmsubx : FpuCore M := s.finish (negate (s.mulAdd uninit (negate s.frB)))
def ppcOpcFnmsubsx : FpuCore M := s.finishSingle (negate (s.mulAdd uninit (negate s.frB)))

/-- The end of the compares. -/
def compareEnd (cmp : Uint32) : FpuCore M :=
  let crfD := 7 - Branch.crfD s.currentOpc
  { s with
    fpscr := (s.fpscr &&& ~~~(0x1F000 : Uint32)) ||| (cmp <<< 12)
    cr := (s.cr &&& Branch.ppcCmpAndMask crfD) ||| (cmp <<< (crfD * 4)) }

/-- `ppc_opc_fcmpo` and `ppc_opc_fcmpu`: the flags for a NaN, then the end. -/
def compareWith (flags : Uint32) : FpuCore M :=
  let a := s.frA
  let b := s.frB
  if a.type = .nan ∨ b.type = .nan then (s.raise flags).compareEnd 1
  else s.compareEnd (ppcFpuCompare a b)

def ppcOpcFcmpo : FpuCore M := s.compareWith (fpscrVxsnan ||| fpscrVxvc)
def ppcOpcFcmpu : FpuCore M := s.compareWith fpscrVxsnan

def ppcOpcFctiwx : FpuCore M := s.setFrD ((ppcFpuDoubleToInt s.fpscr s.frB).setWidth 64)

/-- `ppc_opc_fctiwzx`: the mode is that of FPSCR with 1 for RN. -/
def ppcOpcFctiwzx : FpuCore M :=
  s.setFrD ((ppcFpuDoubleToInt ((s.fpscr &&& ~~~(3 : Uint32)) ||| 1) s.frB).setWidth 64)

def ppcOpcFabsx : FpuCore M := s.setFrD (s.opB &&& ~~~fpuSignBit)
def ppcOpcFmrx : FpuCore M := s.setFrD s.opB
def ppcOpcFnabsx : FpuCore M := s.setFrD (s.opB ||| fpuSignBit)
def ppcOpcFnegx : FpuCore M := s.setFrD (s.opB ^^^ fpuSignBit)

def ppcOpcFrspx : FpuCore M := s.finishSingle s.frB

def ppcOpcFselx : FpuCore M :=
  let a := s.frA
  s.setFrD (if a.type = .nan ∨ a.type ≠ .zero ∧ a.s ≠ 0 then s.opB else s.opC)

def ppcOpcFsqrtx : FpuCore M :=
  let (d, flags) := ppcFpuSqrt s.fpscr uninit s.frB
  (s.raise flags).finish d

def ppcOpcFrsqrtex : FpuCore M :=
  let (q, flags) := ppcFpuSqrt s.fpscr uninit s.frB
  (s.raise flags).finish (ppcFpuDiv uninit ⟨.norm, 0, 0, 0x80000000000000⟩ q)

/-- The moves to and from FPSCR of `ppc_opc.c`. -/
def ppcOpcMffsx : FpuCore M := s.setFrD (s.fpscr.setWidth 64)
def ppcOpcMtfsb0x : FpuCore M :=
  let crbD := rD s.currentOpc
  if crbD ≠ 1 ∧ crbD ≠ 2 then { s with fpscr := s.fpscr &&& ~~~((1 : Uint32) <<< (31 - crbD)) } else s
def ppcOpcMtfsb1x : FpuCore M :=
  let crbD := rD s.currentOpc
  if crbD ≠ 1 ∧ crbD ≠ 2 then { s with fpscr := s.fpscr ||| (1 <<< (31 - crbD)) } else s
def ppcOpcMtfsfx : FpuCore M :=
  let fm := (s.currentOpc >>> 17) &&& 0xFF
  let field (bit mask : Uint32) : Uint32 := if fm &&& bit ≠ 0 then mask else 0
  let mask := field 0x80 0xF0000000 ||| field 0x40 0x0F000000 ||| field 0x20 0x00F00000 |||
    field 0x10 0x000F0000 ||| field 0x08 0x0000F000 ||| field 0x04 0x00000F00 |||
    field 0x02 0x000000F0 ||| field 0x01 0x0000000F
  { s with
    fpscr := (s.opB.setWidth 32 &&& mask) ||| (s.fpscr &&& ~~~mask) }
def ppcOpcMtfsfix : FpuCore M :=
  let crfD := 7 - Branch.crfD s.currentOpc
  let imm : Uint32 := ((s.currentOpc >>> 11) &&& 0x1F) >>> 1
  { s with fpscr := (s.fpscr &&& Branch.ppcCmpAndMask crfD) ||| (imm <<< (crfD * 4)) }

end FpuCore

/-- The instructions of the two groups. `fres`, `fsqrts` and `mcrfs` do nothing. -/
inductive FpuInstr where
  | fdivs | fsubs | fadds | fsqrts | fres | fmuls | fmsubs | fmadds | fnmsubs | fnmadds
  | fdiv | fsub | fadd | fsqrt | fsel | fmul | frsqrte | fmsub | fmadd | fnmsub | fnmadd
  | fcmpu | frsp | fctiw | fctiwz | fcmpo | mtfsb1 | fneg | mcrfs | mtfsb0 | fmr | mtfsfi
  | fnabs | fabs | mffs | mtfsf
  deriving DecidableEq, Repr

/-- `PPC_OPC_EXT` -/
def opcExt (opc : Uint32) : Nat := ((opc >>> 1) &&& 0x3FF).toNat

/-- The `switch` of `ppc_opc_group_f1`, main opcode 59; none is `ppc_opc_invalid`. -/
def groupF1 (opc : Uint32) : Option FpuInstr :=
  match opcExt opc % 32 with
  | 18 => some .fdivs
  | 20 => some .fsubs
  | 21 => some .fadds
  | 22 => some .fsqrts
  | 24 => some .fres
  | 25 => some .fmuls
  | 28 => some .fmsubs
  | 29 => some .fmadds
  | 30 => some .fnmsubs
  | 31 => some .fnmadds
  | _ => none

/-- The `switch` of `ppc_opc_group_f2`, main opcode 63. -/
def groupF2 (opc : Uint32) : Option FpuInstr :=
  let ext := opcExt opc
  if ext / 16 % 2 = 1 then
    match ext % 32 with
    | 18 => some .fdiv
    | 20 => some .fsub
    | 21 => some .fadd
    | 22 => some .fsqrt
    | 23 => some .fsel
    | 25 => some .fmul
    | 26 => some .frsqrte
    | 28 => some .fmsub
    | 29 => some .fmadd
    | 30 => some .fnmsub
    | 31 => some .fnmadd
    | _ => none
  else
    match ext with
    | 0 => some .fcmpu
    | 12 => some .frsp
    | 14 => some .fctiw
    | 15 => some .fctiwz
    | 32 => some .fcmpo
    | 38 => some .mtfsb1
    | 40 => some .fneg
    | 64 => some .mcrfs
    | 70 => some .mtfsb0
    | 72 => some .fmr
    | 134 => some .mtfsfi
    | 136 => some .fnabs
    | 264 => some .fabs
    | 583 => some .mffs
    | 711 => some .mtfsf
    | _ => none

/-- What the instruction does. -/
def FpuInstr.exec {M : Type} (uninit : PpcDouble) (s : FpuCore M) : FpuInstr → FpuCore M
  | fdivs => s.ppcOpcFdivsx uninit
  | fsubs => s.ppcOpcFsubsx uninit
  | fadds => s.ppcOpcFaddsx uninit
  | fsqrts => s
  | fres => s
  | fmuls => s.ppcOpcFmulsx uninit
  | fmsubs => s.ppcOpcFmsubsx uninit
  | fmadds => s.ppcOpcFmaddsx uninit
  | fnmsubs => s.ppcOpcFnmsubsx uninit
  | fnmadds => s.ppcOpcFnmaddsx uninit
  | fdiv => s.ppcOpcFdivx uninit
  | fsub => s.ppcOpcFsubx uninit
  | fadd => s.ppcOpcFaddx uninit
  | fsqrt => s.ppcOpcFsqrtx uninit
  | fsel => s.ppcOpcFselx
  | fmul => s.ppcOpcFmulx uninit
  | frsqrte => s.ppcOpcFrsqrtex uninit
  | fmsub => s.ppcOpcFmsubx uninit
  | fmadd => s.ppcOpcFmaddx uninit
  | fnmsub => s.ppcOpcFnmsubx uninit
  | fnmadd => s.ppcOpcFnmaddx uninit
  | fcmpu => s.ppcOpcFcmpu
  | frsp => s.ppcOpcFrspx
  | fctiw => s.ppcOpcFctiwx
  | fctiwz => s.ppcOpcFctiwzx
  | fcmpo => s.ppcOpcFcmpo
  | mtfsb1 => s.ppcOpcMtfsb1x
  | fneg => s.ppcOpcFnegx
  | mcrfs => s
  | mtfsb0 => s.ppcOpcMtfsb0x
  | fmr => s.ppcOpcFmrx
  | mtfsfi => s.ppcOpcMtfsfix
  | fnabs => s.ppcOpcFnabsx
  | fabs => s.ppcOpcFabsx
  | mffs => s.ppcOpcMffsx
  | mtfsf => s.ppcOpcMtfsfx

end SkyEye.Ppc.Fpu
