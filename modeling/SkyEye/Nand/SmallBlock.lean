import Mathlib.Logic.Function.Basic
import Mathlib.Tactic.Common
import SkyEye.Lib.Word

/-!
# The small-block NAND flash

`nandflash_smallblock.c` for its one device, the K9F1208U0B, where the backing array is mapped.
A pin is high where its `Bool` is true.
-/

namespace SkyEye.Nand

abbrev Byte := BitVec 8

/-! ## The device -/

abbrev pagesize : Nat := 512
abbrev pagenum : Nat := 32
abbrev blocknum : Nat := 4096
abbrev pagedumpsize : Nat := 528
abbrev erasesize : Nat := pagedumpsize * pagenum
abbrev devicesize : Nat := erasesize * blocknum

/-- `dev->ID` -/
def idByte : Nat → Byte
  | 0 => 0xEC
  | 1 => 0x76
  | 2 => 0xA5
  | 3 => 0xC0
  | _ => 0x0

/-- `cmdstatustype` -/
inductive CmdStatus where
  | noStatus
  | addr1st
  | addr2nd
  | addr3rd
  | addr4th
  | addrFinish
  | status
  | readID (n : Fin 4)
  | readIDAddr
  deriving DecidableEq

/-- `iostatustype` -/
inductive IoStatus where
  | cmd
  | addr
  | dataRead
  | dataWrite
  | statusRead
  | idRead
  | none
  deriving DecidableEq

/-- `NAND_CMD_READ0` and so on -/
abbrev cmdRead0 : Byte := 0x00
abbrev cmdRead1 : Byte := 0x01
abbrev cmdPageProg : Byte := 0x10
abbrev cmdReadOob : Byte := 0x50
abbrev cmdErase1 : Byte := 0x60
abbrev cmdStatus : Byte := 0x70
abbrev cmdSeqIn : Byte := 0x80
abbrev cmdReadID : Byte := 0x90
abbrev cmdErase2 : Byte := 0xd0
abbrev cmdReset : Byte := 0xff
/-- −1 in a byte -/
abbrev cmdNone : Byte := 0xff

/-- `struct nandflash_sb_status`. `backing` keeps the first index and the number of the bytes of
the backing array that were accessed, `buffer` the indices into the write buffer; nothing reads
them. -/
structure SbStatus where
  iopin : Byte
  status : Byte
  cle : Bool
  ale : Bool
  ce : Bool
  we : Bool
  re : Bool
  wp : Bool
  cmd : Byte
  cmdstatus : CmdStatus
  iostatus : IoStatus
  address : Nat
  writebuffer : Nat → Byte
  pageoffset : Nat
  addrspace : Nat → Byte
  backing : List (Nat × Nat)
  buffer : List Nat

namespace SbStatus

/-- `memset(nf->writebuffer,0xFF,dev->pagedumpsize)` -/
def clearBuffer (writebuffer : Nat → Byte) : Nat → Byte :=
  fun i => if i < pagedumpsize then 0xff else writebuffer i

variable (nf : SbStatus)

/-- `nandflash_sb_reset` -/
def reset : SbStatus :=
  { nf with
    ale := false
    cle := false
    iopin := 0
    re := true
    we := true
    wp := true
    status := 192
    pageoffset := 0
    cmd := cmdRead0
    cmdstatus := .noStatus
    iostatus := .none
    writebuffer := clearBuffer nf.writebuffer }

/-- `nandflash_sb_poweron` -/
def poweron : SbStatus := { nf.reset with ce := true }

/-! ## Cycles -/

/-- `nandflash_sb_doerase` -/
def doErase : SbStatus :=
  if nf.wp then
    let base := nf.address - nf.address % erasesize
    { nf with
      addrspace := fun i => if base ≤ i ∧ i < base + erasesize then 0xff else nf.addrspace i
      backing := (base, erasesize) :: nf.backing }
  else nf

/-- `nandflash_sb_dodatawrite` -/
def doDataWrite : SbStatus :=
  if nf.wp then
    { nf with
      writebuffer := Function.update nf.writebuffer nf.pageoffset nf.iopin
      pageoffset := (nf.pageoffset + 1) % 2 ^ 16
      buffer := nf.pageoffset :: nf.buffer }
  else nf

/-- `nandflash_sb_finishwrite` -/
def finishWrite : SbStatus :=
  if nf.wp then
    let base := nf.address - nf.address % pagedumpsize
    { nf with
      addrspace := fun i =>
        if base ≤ i ∧ i < base + pagedumpsize then nf.addrspace i &&& nf.writebuffer (i - base)
        else nf.addrspace i
      backing := (base, pagedumpsize) :: nf.backing }
  else nf

/-- The address after a read. -/
def nextAddress (cmd : Byte) (address : Nat) : Nat :=
  if (address + 1) % pagedumpsize = 0 ∧ cmd = cmdReadOob then address + 1 + pagesize
  else address + 1

/-- `nandflash_sb_doread` -/
def doRead : SbStatus :=
  if nf.address < devicesize then
    { nf with
      iopin := nf.addrspace nf.address
      address := nextAddress nf.cmd nf.address
      backing := (nf.address, 1) :: nf.backing }
  else nf

/-- `nandflash_sb_doreadid` -/
def doReadID : SbStatus :=
  match nf.cmdstatus with
  | .readID n =>
    { nf with
      iopin := idByte n
      cmdstatus := if h : n.val + 1 < 4 then .readID ⟨n + 1, h⟩ else .noStatus
      iostatus := if n.val + 1 < 4 then nf.iostatus else .none }
  | _ => nf

/-- The commands that are followed by addresses. -/
def expect (cmd : Byte) (cmdstatus : CmdStatus) (pageoffset : Nat) : SbStatus :=
  { nf with
    cmd := cmd
    cmdstatus := cmdstatus
    address := 0
    iostatus := .addr
    pageoffset := pageoffset }

/-- `nandflash_sb_docmd` -/
def doCmd : SbStatus :=
  let b := nf.iopin
  if b = cmdRead0 then nf.expect cmdRead0 .addr1st 0
  else if b = cmdRead1 then nf.expect cmdRead1 .addr1st 256
  else if b = cmdReadOob then nf.expect cmdReadOob .addr1st 512
  else if b = cmdReset then nf.reset
  else if b = cmdSeqIn then
    { nf.expect cmdSeqIn .addr1st nf.pageoffset with writebuffer := clearBuffer nf.writebuffer }
  else if b = cmdErase1 then nf.expect cmdErase1 .addr2nd 0
  else if b = cmdErase2 then
    let nf := if nf.cmd = cmdErase1 ∧ nf.cmdstatus = .addrFinish then nf.doErase else nf
    { nf with cmd := cmdNone }
  else if b = cmdStatus then
    { nf with cmd := cmdStatus, cmdstatus := .status, iostatus := .statusRead }
  else if b = cmdReadID then nf.expect cmdReadID .addr4th 0
  else if b = cmdPageProg then
    if nf.cmd = cmdSeqIn ∧ nf.cmdstatus = .addrFinish then
      finishWrite { nf with cmd := cmdPageProg }
    else nf
  else nf

/-- What the last address cycle makes of the command. -/
def addressed : SbStatus :=
  if nf.cmd = cmdRead0 ∨ nf.cmd = cmdRead1 ∨ nf.cmd = cmdReadOob then
    { nf with iostatus := .dataRead }
  else if nf.cmd = cmdSeqIn then { nf with iostatus := .dataWrite, cmdstatus := .addrFinish }
  else if nf.cmd = cmdReadID then { nf with iostatus := .idRead, cmdstatus := .readID 0 }
  else if nf.cmd = cmdErase1 then { nf with iostatus := .cmd, cmdstatus := .addrFinish }
  else nf

/-- `nandflash_sb_doaddr`; `address` has 32 bits and `pageoffset` 16. -/
def doAddr : SbStatus :=
  let tmp := nf.iopin.toNat
  match nf.cmdstatus with
  | .addr1st =>
    { nf with
      address := 0
      pageoffset := (tmp + nf.pageoffset) % 2 ^ 16
      cmdstatus := .addr2nd }
  | .addr2nd => { nf with address := nf.address ||| tmp <<< 9, cmdstatus := .addr3rd }
  | .addr3rd => { nf with address := nf.address ||| tmp <<< 17, cmdstatus := .addr4th }
  | .addr4th =>
    let address := nf.address ||| (tmp <<< 25) % 2 ^ 32
    addressed { nf with address := ((address >>> 9) * 528 + nf.pageoffset) % 2 ^ 32 }
  -- `NF_addr_finish` as an `iostatus` is `NF_IDREAD`
  | .readIDAddr => { nf with cmdstatus := .readID 0, iostatus := .idRead }
  | _ => nf

/-! ## Pins -/

inductive Pin where
  | ce
  | cle
  | ale
  | we
  | re
  | wp
  deriving DecidableEq

/-- A call of a pin function; `readio` changes nothing. -/
inductive Event where
  | set (pin : Pin) (state : Bool)
  | writeio (iodata : Byte)

/-- `nandflash_sb_readio` -/
def readio : Byte := if nf.ce = false then nf.iopin else 0

/-- `nandflash_sb_setCE` and so on -/
def setCE (state : Bool) : SbStatus :=
  { nf with
    ce := state
    iostatus := if state = true ∧ nf.iostatus = .dataRead then .none else nf.iostatus }
def setCLE (state : Bool) : SbStatus :=
  { nf with cle := state, iostatus := if state && !nf.ce then .cmd else nf.iostatus }
def setALE (state : Bool) : SbStatus :=
  { nf with ale := state, iostatus := if state && !nf.ce then .addr else nf.iostatus }
def setWP (state : Bool) : SbStatus :=
  { nf with wp := state, status := if state then nf.status ||| 128 else nf.status &&& 127 }

/-- The cycle of a rising WE. -/
def latch : SbStatus :=
  match nf.iostatus with
  | .cmd => nf.doCmd
  | .addr => nf.doAddr
  | .dataWrite => nf.doDataWrite
  | _ => nf

/-- That of a falling RE. -/
def output : SbStatus :=
  match nf.iostatus with
  | .dataRead => nf.doRead
  | .idRead => nf.doReadID
  | .statusRead => { nf with iopin := nf.status, iostatus := .none }
  | _ => nf

def setWE (state : Bool) : SbStatus :=
  { (if nf.we = false ∧ state = true ∧ nf.ce = false then nf.latch else nf) with we := state }
def setRE (state : Bool) : SbStatus :=
  { (if nf.re = true ∧ state = false ∧ nf.ce = false then nf.output else nf) with re := state }

/-- A call. -/
def step : Event → SbStatus
  | .set .ce state => nf.setCE state
  | .set .cle state => nf.setCLE state
  | .set .ale state => nf.setALE state
  | .set .we state => nf.setWE state
  | .set .re state => nf.setRE state
  | .set .wp state => nf.setWP state
  | .writeio iodata => if nf.ce = false then { nf with iopin := iodata } else nf

end SbStatus

end SkyEye.Nand
