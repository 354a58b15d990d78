import SkyEye.Ppc.Defs

/-!
# Loads and stores

The accesses of `ppc_io.c` and `ppc_mmu.c` at effective addresses and the load and store
instructions of `ppc_mmu.c`, with the two that `ppc_opc_invalid` does. An access that gets no
address has raised its exception and returns; nothing makes the instruction stop but its own
test of the result.
-/

namespace SkyEye.Ppc

open Sparc (Uint32)

/-- What is around the core. `read` and `write` are the accesses at a physical address, of 1,
2 or 4 bytes: a read returns no value where there is nothing, or makes the simulator exit, and
a write tells whether it has the interrupt controller interrupt this core. `writeDword` is
`ppc_write_physical_dword`, none where it returns `PPC_MMU_FATAL`, and `writeAcross` the copy
of a double word over a page boundary in the boot ROM. `behind` is what lies behind TLB1,
`uninit` what a local variable holds that nothing was assigned to. -/
structure Host (M : Type) where
  bptr : M → Uint32
  behind : M → TlbEntry
  read : M → Nat → Uint32 → Option (Option Uint32 × M)
  write : M → Nat → Uint32 → Uint32 → M × Bool
  writeDword : M → Uint32 → BitVec 64 → Option M
  writeAcross : M → Uint32 → Uint32 → Nat → BitVec 64 → M
  bootRomSize : Uint32
  singleToDouble : Uint32 → BitVec 64
  doubleToSingle : BitVec 64 → Uint32
  uninit : Uint32

/-- How a function with a `PPC_MMU_` result ends: with `PPC_MMU_OK` or another one. -/
inductive Outcome (M α : Type) where
  | ok (a : α) (s : E500Core M)
  | fault (s : E500Core M)
  | exit

/-- The fields of an instruction. -/
def rD (opc : Uint32) : Nat := ((opc >>> 21) &&& 0x1F).toNat
def rA (opc : Uint32) : Nat := ((opc >>> 16) &&& 0x1F).toNat
def rB (opc : Uint32) : Nat := ((opc >>> 11) &&& 0x1F).toNat
def uimm (opc : Uint32) : Uint32 := opc &&& 0xFFFF
def simm (opc : Uint32) : Uint32 :=
  if opc &&& 0x8000 ≠ 0 then (opc &&& 0xFFFF) ||| 0xFFFF0000 else opc &&& 0xFFFF

def xerN (v : Uint32) : Nat := (v &&& 0x7F).toNat

def eaOffset (v : Uint32) : Uint32 := v &&& 0xFFF

abbrev msrFp : Uint32 := 1 <<< 13
abbrev xerSo : Uint32 := 1 <<< 31
abbrev crCr0Eq : Uint32 := 1 <<< 29
abbrev crCr0So : Uint32 := 1 <<< 28

/-- A value as a variable of `len` bytes holds it. -/
def truncate (len : Nat) (v : Uint32) : Uint32 :=
  if len = 1 then v &&& 0xFF else if len = 2 then v &&& 0xFFFF else v

/-- `ppc_bswap_half` and `ppc_bswap_word` -/
def bswapHalf (v : Uint32) : Uint32 := ((v >>> 8) &&& 0xFF) ||| ((v &&& 0xFF) <<< 8)
def bswapWord (v : Uint32) : Uint32 :=
  (v >>> 24) ||| ((v >>> 8) &&& 0xFF00) ||| ((v &&& 0xFF00) <<< 8) ||| (v <<< 24)

/-- `(r & 0x8000) ? (r | 0xffff0000) : r` -/
def algebraic (r : Uint32) : Uint32 := if r &&& 0x8000 ≠ 0 then r ||| 0xFFFF0000 else r

namespace E500Core

variable {M : Type} (h : Host M) (s : E500Core M)

/-! ## Accesses -/

/-- `ppc_effective_to_physical` for the current core. -/
def translate (addr : Uint32) (flags : Nat) : Outcome M Uint32 :=
  match s.effectiveToPhysical (h.behind s.mem) (h.bptr s.mem) addr flags with
  | some (some pa, s) => .ok pa s
  | some (none, s) => .fault s
  | none => .exit

/-- `ppc_read_effective_byte`, `_half` and `_word`; `old` is in the variable before. -/
def readEffective (addr : Uint32) (len : Nat) (old : Uint32) : Outcome M Uint32 :=
  match s.translate h addr mmuRead with
  | .ok p s =>
    match h.read s.mem len p with
    | some (v, mem) => .ok (truncate len (v.getD old)) { s with mem := mem }
    | none => .exit
  | .fault s => .fault s
  | .exit => .exit

/-- An interrupt that a device takes to the core, `ppc_exception(core, EXT_INT, 0, 0)`. -/
def interrupted : E500Core M := (s.ppcException .extInt 0 0).getD s

/-- The write at a physical address. -/
def writePhysical (p : Uint32) (len : Nat) (data : Uint32) : E500Core M :=
  let (mem, interrupt) := h.write s.mem len p (truncate len data)
  let s := { s with mem := mem, written := s.written ++ [p] }
  if interrupt then s.interrupted else s

/-- `ppc_write_effective_byte`, `_half` and `_word` -/
def writeEffective (addr : Uint32) (len : Nat) (data : Uint32) : Outcome M Unit :=
  match s.translate h addr mmuWrite with
  | .ok p s => .ok () (s.writePhysical h p len data)
  | .fault s => .fault s
  | .exit => .exit

/-- `ppc_read_effective_dword`: it reads nothing. -/
def readEffectiveDword (addr : Uint32) : Outcome M Unit :=
  match s.translate h addr mmuRead with
  | .ok _ s => .ok () s
  | .fault s => .fault s
  | .exit => .exit

/-- The second half of a double word over a page boundary; `r1` is the first one. -/
def writeSecond (addr r1 : Uint32) (data : BitVec 64) : Outcome M Unit :=
  match s.translate h ((addr &&& ~~~0xFFF) + 4096) mmuWrite with
  | .ok r2 s =>
    if r2 < h.bootRomSize then
      .ok () { s with
        mem := h.writeAcross s.mem r1 r2 (eaOffset addr).toNat data
        written := s.written ++ [r1, r2] }
    else .fault s
  | .fault s => .fault s
  | .exit => .exit

/-- A double word over a page boundary: the result of the second translation is not tested. -/
def writeOverPages (addr p : Uint32) (data : BitVec 64) : Outcome M Unit :=
  match s.translate h ((addr &&& ~~~0xFFF) + 4089) mmuWrite with
  | .ok p s => if p < h.bootRomSize then s.writeSecond h addr p data else .fault s
  | .fault s => if p < h.bootRomSize then s.writeSecond h addr p data else .fault s
  | .exit => .exit

/-- `ppc_write_effective_dword` -/
def writeEffectiveDword (addr : Uint32) (data : BitVec 64) : Outcome M Unit :=
  match s.translate h addr mmuWrite with
  | .ok p s =>
    if eaOffset addr > 4088 then s.writeOverPages h addr p data
    else
      match h.writeDword s.mem p data with
      | some mem => .ok () { s with mem := mem, written := s.written ++ [p] }
      | none => .fault s
  | .fault s => .fault s
  | .exit => .exit

/-! ## Effective addresses -/

/-- `rA ? gpr[rA] : 0` -/
def gprOrZero : Uint32 := if rA s.currentOpc ≠ 0 then s.gpr (rA s.currentOpc) else 0

/-- The addresses of the forms D and X, with update or without. -/
def eaD : Uint32 := s.gprOrZero + simm s.currentOpc
def eaDU : Uint32 := s.gpr (rA s.currentOpc) + simm s.currentOpc
def eaX : Uint32 := s.gprOrZero + s.gpr (rB s.currentOpc)
def eaXU : Uint32 := s.gpr (rA s.currentOpc) + s.gpr (rB s.currentOpc)
def eaSpe : Uint32 := s.gpr (rA s.currentOpc) + (uimm s.currentOpc >>> 11) * 8

/-- The register that the instruction loads or stores, and the base register. -/
def setD (v : Uint32) : E500Core M := s.setGpr (rD s.currentOpc) v
def setBase (v : Uint32) : E500Core M := s.setGpr (rA s.currentOpc) v
def gprS : Uint32 := s.gpr (rD s.currentOpc)
def fprS : BitVec 64 := s.fpr (rD s.currentOpc)
def setFpr (v : BitVec 64) : E500Core M :=
  { s with fpr := Function.update s.fpr (rD s.currentOpc) v }

/-- `gpr[rA] += imm` and `gpr[rA] += gpr[rB]` -/
def updateD : E500Core M := s.setBase s.eaDU
def updateX : E500Core M := s.setBase s.eaXU

/-- An instruction around one access: `finish` is done where that returns `PPC_MMU_OK`. -/
def around {α : Type} (r : Outcome M α) (finish : α → E500Core M → E500Core M) :
    Option (E500Core M) :=
  match r with
  | .ok a s => some (finish a s)
  | .fault s => some s
  | .exit => none

/-- A load and a store at `ea`. -/
def loadAt (ea : Uint32) (len : Nat) (finish : Uint32 → E500Core M → E500Core M) :
    Option (E500Core M) := around (s.readEffective h ea len h.uninit) finish
def storeAt (ea : Uint32) (len : Nat) (data : Uint32) (finish : E500Core M → E500Core M) :
    Option (E500Core M) := around (s.writeEffective h ea len data) fun _ => finish

/-- The test of MSR[FP]: `ppc_exception` does not know `PPC_EXC_NO_FPU`, and exits. -/
def withFpu (k : Option (E500Core M)) : Option (E500Core M) :=
  if s.msr &&& msrFp = 0 then none else k

/-! ## The instructions -/

def lbz := s.loadAt h s.eaD 1 fun r s => s.setD r
def lbzu := s.loadAt h s.eaDU 1 fun r s => s.updateD.setD r
def lbzux := s.loadAt h s.eaXU 1 fun r s => s.updateX.setD r
def lbzx := s.loadAt h s.eaX 1 fun r s => s.setD r
def lha := s.loadAt h s.eaD 2 fun r s => s.setD (algebraic r)
def lhau := s.loadAt h s.eaDU 2 fun r s => s.updateD.setD (algebraic r)
def lhaux := s.loadAt h s.eaXU 2 fun r s => s.updateX.setD (algebraic r)
def lhax := s.loadAt h s.eaX 2 fun r s => s.setD (algebraic r)
def lhbrx := s.loadAt h s.eaX 2 fun r s => s.setD (bswapHalf r)
def lhz := s.loadAt h s.eaD 2 fun r s => s.setD r
/-- The base register is updated last here: it wins where it is the destination too. -/
def lhzu := s.loadAt h s.eaDU 2 fun r s => (s.setD r).updateD
def lhzux := s.loadAt h s.eaXU 2 fun r s => s.updateX.setD r
def lhzx := s.loadAt h s.eaX 2 fun r s => s.setD r
def lwarx := s.loadAt h s.eaX 4 fun r s =>
  { s.setD r with reserve := r, haveReservation := true }
def lwbrx := s.loadAt h s.eaX 4 fun r s => s.setD (bswapWord r)
def lwz := s.loadAt h s.eaD 4 fun r s => s.setD r
def lwzu := s.loadAt h s.eaDU 4 fun r s => s.updateD.setD r
def lwzux := s.loadAt h s.eaXU 4 fun r s => s.updateX.setD r
def lwzx := s.loadAt h s.eaX 4 fun r s => s.setD r
/-- The load under `ppc_opc_invalid`: a byte, into the low byte of the register. -/
def evldd := s.loadAt h s.eaSpe 1 fun r s => s.setD ((s.gprS &&& ~~~0xFF) ||| r)

def stb := s.storeAt h s.eaD 1 s.gprS id
def stbu := s.storeAt h s.eaDU 1 s.gprS updateD
def stbux := s.storeAt h s.eaXU 1 s.gprS updateX
def stbx := s.storeAt h s.eaX 1 s.gprS id
def sth := s.storeAt h s.eaD 2 s.gprS id
def sthbrx := s.storeAt h s.eaX 2 (bswapHalf s.gprS) id
def sthu := s.storeAt h s.eaDU 2 s.gprS updateD
def sthux := s.storeAt h s.eaXU 2 s.gprS updateX
def sthx := s.storeAt h s.eaX 2 s.gprS id
def stw := s.storeAt h s.eaD 4 s.gprS id
def stwbrx := s.storeAt h s.eaX 4 (bswapWord s.gprS) id
def stwu := s.storeAt h s.eaDU 4 s.gprS updateD
def stwux := s.storeAt h s.eaXU 4 s.gprS updateX
def stwx := s.storeAt h s.eaX 4 s.gprS id
/-- The store under `ppc_opc_invalid`: a word. -/
def evstdd := s.storeAt h s.eaSpe 4 s.gprS id

/-- The value that the instructions on doubles load: nothing is assigned to it but 0. -/
def loadDouble (ea : Uint32) (finish : E500Core M → E500Core M) : Option (E500Core M) :=
  s.withFpu (around (s.readEffectiveDword h ea) fun _ => finish)
def loadSingle (ea : Uint32) (finish : E500Core M → E500Core M) : Option (E500Core M) :=
  s.withFpu (s.loadAt h ea 4 fun r s => finish (s.setFpr (h.singleToDouble r)))
def storeDouble (ea : Uint32) (finish : E500Core M → E500Core M) : Option (E500Core M) :=
  s.withFpu (around (s.writeEffectiveDword h ea s.fprS) fun _ => finish)
def storeSingle (ea : Uint32) (finish : E500Core M → E500Core M) : Option (E500Core M) :=
  s.withFpu (s.storeAt h ea 4 (h.doubleToSingle s.fprS) finish)

def lfd := s.loadDouble h s.eaD fun s => s.setFpr 0
def lfdu := s.loadDouble h s.eaDU fun s => (s.setFpr 0).updateD
def lfdux := s.loadDouble h s.eaXU fun s => s.updateX.setFpr 0
def lfdx := s.loadDouble h s.eaX fun s => s.setFpr 0
def lfs := s.loadSingle h s.eaD id
def lfsu := s.loadSingle h s.eaDU updateD
def lfsux := s.loadSingle h s.eaXU updateX
def lfsx := s.loadSingle h s.eaX id
def stfd := s.storeDouble h s.eaD id
def stfdu := s.storeDouble h s.eaDU updateD
def stfdux := s.storeDouble h s.eaXU updateX
def stfdx := s.storeDouble h s.eaX id
def stfiwx := s.withFpu (s.storeAt h s.eaX 4 (s.fprS.setWidth 32) id)
def stfs := s.storeSingle h s.eaD id
def stfsu := s.storeSingle h s.eaDU updateD
def stfsux := s.storeSingle h s.eaXU updateX
def stfsx := s.storeSingle h s.eaX id

/-- The loop of `ppc_opc_lmw`, with `n` registers to go. -/
def lmwLoop (s : E500Core M) (r : Nat) (ea : Uint32) : Nat → Option (E500Core M)
  | 0 => some s
  | n + 1 =>
    match s.readEffective h ea 4 (s.gpr r) with
    | .ok v s => lmwLoop (s.setGpr r v) (r + 1) (ea + 4) n
    | .fault s => some s
    | .exit => none

def lmw := lmwLoop h s (rD s.currentOpc) s.eaD (32 - rD s.currentOpc)

/-- The loop of `ppc_opc_stmw`. -/
def stmwLoop (s : E500Core M) (r : Nat) (ea : Uint32) : Nat → Option (E500Core M)
  | 0 => some s
  | n + 1 =>
    match s.writeEffective h ea 4 (s.gpr r) with
    | .ok _ s => stmwLoop s (r + 1) (ea + 4) n
    | .fault s => some s
    | .exit => none

def stmw := stmwLoop h s (rD s.currentOpc) s.eaD (32 - rD s.currentOpc)

/-- The loops of `ppc_opc_lswi` and `ppc_opc_lswx`, with `nb` bytes to go: `i` bytes are free
in `r`, which goes to `gpr[d]`. -/
def lswLoop (s : E500Core M) (d : Nat) (r : Uint32) (i : Nat) (ea : Uint32) :
    Nat → Option (E500Core M)
  | 0 => some (s.setGpr d (r <<< (8 * i)))
  | nb + 1 =>
    let (s, d, r, i) := if i = 0 then (s.setGpr d r, (d + 1) % 32, 0, 4) else (s, d, r, i)
    match s.readEffective h ea 1 h.uninit with
    | .ok v s => lswLoop s d ((r <<< 8) ||| v) (i - 1) (ea + 1) nb
    | .fault s => some s
    | .exit => none

/-- The count of LSWI and STSWI. -/
def nb : Nat := if rB s.currentOpc = 0 then 32 else rB s.currentOpc

def lswi := lswLoop h s (rD s.currentOpc) 0 4 s.gprOrZero s.nb
def lswx := lswLoop h s (rD s.currentOpc) 0 4 s.eaX (xerN s.xer)

/-- The loops of `ppc_opc_stswi` and `ppc_opc_stswx`. -/
def stswLoop (s : E500Core M) (d : Nat) (r : Uint32) (i : Nat) (ea : Uint32) :
    Nat → Option (E500Core M)
  | 0 => some s
  | nb + 1 =>
    let (d, r, i) := if i = 0 then ((d + 1) % 32, s.gpr d, 4) else (d, r, i)
    match s.writeEffective h ea 1 (r >>> 24) with
    | .ok _ s => stswLoop s d (r <<< 8) (i - 1) (ea + 1) nb
    | .fault s => some s
    | .exit => none

def stswi := stswLoop h s (rD s.currentOpc) 0 0 s.gprOrZero s.nb
def stswx := stswLoop h s (rD s.currentOpc) 0 0 s.eaX (xerN s.xer)

/-- The loop of `ppc_opc_dcbz`, with `n` words to go: no result is tested. -/
def dcbzLoop (s : E500Core M) (a : Uint32) : Nat → Option (E500Core M)
  | 0 => some s
  | n + 1 =>
    match s.writeEffective h a 4 0 with
    | .ok _ s => dcbzLoop s (a + 4) n
    | .fault s => dcbzLoop s (a + 4) n
    | .exit => none

def dcbz := dcbzLoop h s s.eaX 8

/-- The end of `ppc_opc_stwcx_`. -/
def stwcxEnd : E500Core M :=
  if s.xer &&& xerSo ≠ 0 then { s with cr := s.cr ||| crCr0So } else s

/-- `ppc_opc_stwcx_` behind its read. -/
def stwcxStore (v : Uint32) : Option (E500Core M) :=
  if v = s.reserve then
    s.storeAt h s.eaX 4 s.gprS fun s => { s with cr := s.cr ||| crCr0Eq }.stwcxEnd
  else some s.stwcxEnd

def stwcx : Option (E500Core M) :=
  let s := { s with cr := s.cr &&& 0x0FFFFFFF }
  if s.haveReservation then
    let s := { s with haveReservation := false }
    match s.readEffective h s.eaX 4 h.uninit with
    | .ok v s => s.stwcxStore h v
    | .fault s => some s
    | .exit => none
  else some s

end E500Core

end SkyEye.Ppc
