import SkyEye.Net.Rtl8019

/-!
# Remote DMA of the RTL8019

The registers of `dev_net_rtl8019.c` as the guest writes them, the command register with its
transmit and remote-DMA commands, and the DMA port in bytes and halfwords. Every index of
`sram` that is used is on record. A transfer is a command and the accesses of the port after
it; `RoundTrip` is what a write and the read after it have to do.
-/

namespace SkyEye.Rtl8019

abbrev pageNum : Nat := endPage - startPage

/-- `CMD_RUN` and so on -/
abbrev cmdRun : Byte := 0x02
abbrev cmdXmit : Byte := 0x04
abbrev cmdRead : Byte := 0x08
abbrev cmdWrite : Byte := 0x10
abbrev cmdNodma : Byte := 0x20
abbrev isrPtx : Byte := 0x02
abbrev isrRdc : Byte := 0x40
abbrev isrRst : Byte := 0x80
abbrev tsrPtx : Byte := 0x01
abbrev tsrCol : Byte := 0x04

/-- `struct net_rtl8019_io` with the registers that receiving does not use; `used` has the
indices of `sram`, and nothing reads it. -/
structure DmaIo extends Io where
  TPSR : Byte
  TSR : Byte
  TBCR0 : Byte
  TBCR1 : Byte
  RSAR0 : Byte
  RSAR1 : Byte
  RBCR0 : Byte
  RBCR1 : Byte
  RCR : Byte
  DCR : Byte
  remote_read_offset : BitVec 32
  remote_write_offset : BitVec 32
  remote_read_count : BitVec 32
  remote_write_count : BitVec 32
  used : List Nat

namespace DmaIo

variable (io : DmaIo)

def rsar : BitVec 32 := (io.RSAR1 ++ io.RSAR0).setWidth 32

def rbcr : BitVec 32 := (io.RBCR1 ++ io.RBCR0).setWidth 32

def packetLen : Nat := (io.TBCR1 ++ io.TBCR0).toNat

/-- `startpage`, a `u8` -/
def startpage : Byte := io.TPSR - 0x40

/-- The interrupt of a bit of ISR. -/
def raise (bit : Byte) : DmaIo :=
  { io with
    ISR := io.ISR ||| bit
    intr := if bit &&& io.IMR ≠ 0 then io.intr + 1 else io.intr }

/-- `rtl8019_output` takes the bytes from `sram` unless the chip is stopped. -/
def outputIndices : List Nat :=
  if io.CR &&& cmdStop ≠ 0 then []
  else (List.range io.packetLen).map (io.startpage.toNat * pageSize + ·)

/-- The transmit command; `sent` tells whether `net_write` takes the packet. -/
def xmit (sent : Bool) : DmaIo :=
  { io with
    TSR := if io.CR &&& cmdStop ≠ 0 || sent then tsrPtx else tsrCol
    ISR := io.ISR ||| isrPtx
    need_update := true
    used := io.used ++ io.outputIndices }

def startRead : DmaIo :=
  { io with
    remote_read_offset := (io.rsar - 0x4000) &&& 0xffff
    remote_read_count := io.rbcr }

def startWrite : DmaIo :=
  { io with
    remote_write_offset := io.rsar - 0x4000
    remote_write_count := io.rbcr &&& 0xffff }

def writeCr (data : Byte) (sent : Bool) : DmaIo :=
  if data &&& 0x38 = 0 then io
  else
    let io := if data &&& cmdXmit ≠ 0 then io.xmit sent else io
    let io := if data &&& cmdRead ≠ 0 ∧ data &&& cmdRun ≠ 0 then io.startRead else io
    let io :=
      if data &&& cmdWrite ≠ 0 ∧ data &&& cmdRun ≠ 0 ∧ data &&& cmdNodma = 0 then io.startWrite
      else io
    { io with CR := data }

/-- The command `cmd` is over. -/
def complete (cmd : Byte) : DmaIo :=
  { io with CR := (io.CR &&& ~~~cmd) ||| cmdNodma }.raise isrRdc

/-- `if (remote_write_count == 0)`; `<= 0` is the same for an unsigned count. -/
def writeEnd : DmaIo := if io.remote_write_count = 0 then io.complete cmdWrite else io

/-- `if (remote_read_count == 0)`, and `<= 0` -/
def readEnd : DmaIo := if io.remote_read_count = 0 then io.complete cmdRead else io

def poke (index : BitVec 32) (data : Byte) : DmaIo :=
  { io with
    sram := Function.update io.sram index.toNat data
    used := io.used ++ [index.toNat] }

def remoteWriteWord (data : BitVec 16) : DmaIo :=
  if io.CR &&& cmdWrite ≠ 0 then
    if io.remote_write_offset + 1 ≥ 0x4000 then io.raise isrOvw
    else
      let io := io.poke io.remote_write_offset (data.setWidth 8)
      let io := io.poke (io.remote_write_offset + 1) ((data >>> 8).setWidth 8)
      { io with
        remote_write_offset := io.remote_write_offset + 2
        remote_write_count := io.remote_write_count - 2 }.writeEnd
  else io

def remoteWriteByte (data : Byte) : DmaIo :=
  if io.CR &&& cmdWrite ≠ 0 then
    if io.remote_write_offset ≥ 0x4000 then io.raise isrOvw
    else
      let io := io.poke io.remote_write_offset data
      { io with
        remote_write_offset := io.remote_write_offset + 1
        remote_write_count := io.remote_write_count - 1 }.writeEnd
  else io

def peek (index : BitVec 32) : Byte := io.sram index.toNat

def remoteReadHalfword : DmaIo × BitVec 16 :=
  if io.CR &&& cmdRead ≠ 0 then
    let offset := io.remote_read_offset
    ({ io with
        remote_read_offset := offset + 2
        remote_read_count := io.remote_read_count - 2
        used := io.used ++ [offset.toNat, (offset + 1).toNat] }.readEnd,
      io.peek (offset + 1) ++ io.peek offset)
  else (io, 0)

def remoteReadByte : DmaIo × Byte :=
  if io.CR &&& cmdRead ≠ 0 then
    let offset := io.remote_read_offset
    ({ io with
        remote_read_offset := offset + 1
        remote_read_count := io.remote_read_count - 1
        used := io.used ++ [offset.toNat] }.readEnd,
      io.peek offset)
  else (io, 0)

def reset : DmaIo :=
  { io with
    CR := 0x21, PSTART := 0, PSTOP := 0, BNRY := 0, TPSR := 0, TBCR0 := 0, TBCR1 := 0
    ISR := isrRst, RSAR0 := 0, RSAR1 := 0, RBCR0 := 0, RBCR1 := 0, RCR := 0, TCR := 0
    DCR := 0x84, IMR := 0, CURR := 0, sram := fun _ => 0
    remote_read_offset := 0, remote_write_offset := 0
    remote_read_count := 0, remote_write_count := 0, need_update := false }

/-- The registers of page 0 and of page 1, CR apart. -/
def writeRegister (offset : Nat) (data : Byte) : DmaIo :=
  if io.CR >>> 6 = 0 then
    match offset with
    | 0x01 => { io with PSTART := data.toNat }
    | 0x02 => { io with PSTOP := data.toNat }
    | 0x03 => { io with BNRY := data.toNat }
    | 0x04 => { io with TPSR := data }
    | 0x05 => { io with TBCR0 := data }
    | 0x06 => { io with TBCR1 := data }
    | 0x07 => { io with ISR := io.ISR &&& ~~~data }
    | 0x08 => { io with RSAR0 := data }
    | 0x09 => { io with RSAR1 := data }
    | 0x0a => { io with RBCR0 := data }
    | 0x0b => { io with RBCR1 := data }
    | 0x0c => { io with RCR := data }
    | 0x0d => { io with TCR := data }
    | 0x0e => { io with DCR := data }
    | 0x0f => { io with IMR := data }
    | _ => io
  else if io.CR >>> 6 = 1 then
    match offset with
    | 0x07 => { io with CURR := data.toNat }
    | _ => io
  else io

def writeByte (offset : Nat) (data : Byte) (sent : Bool) : DmaIo :=
  if offset = 0x10 then io.remoteWriteByte data
  else if offset = 0x1f then io.reset
  else if offset = 0x00 then io.writeCr data sent
  else io.writeRegister offset data

def writeHalfword (offset : Nat) (data : BitVec 16) : DmaIo :=
  if offset = 0x10 then
    if io.DCR &&& 1 ≠ 0 then io.remoteWriteWord data else io
  else io

/-- `net_rtl8019_read_halfword` at the port -/
def readHalfword : DmaIo × BitVec 16 :=
  if io.DCR &&& 1 ≠ 0 then io.remoteReadHalfword else (io, 0)

/-- `net_rtl8019_read_byte` at the port -/
def readByte : DmaIo × Byte := io.remoteReadByte

end DmaIo

/-- What the guest does, with the offset of the register. -/
inductive Access where
  | writeByte (offset : Nat) (data : Byte) (sent : Bool)
  | writeHalfword (offset : Nat) (data : BitVec 16)
  | readByte
  | readHalfword

def DmaIo.step (io : DmaIo) : Access → DmaIo × BitVec 16
  | .writeByte offset data sent => (io.writeByte offset data sent, 0)
  | .writeHalfword offset data => (io.writeHalfword offset data, 0)
  | .readByte => (io.readByte.1, io.readByte.2.setWidth 16)
  | .readHalfword => io.readHalfword

def DmaIo.run (io : DmaIo) (accesses : List Access) : DmaIo :=
  accesses.foldl (fun io access => (io.step access).1) io

/-! ## What the chip has to do -/

abbrev sramSize : Nat := pageNum * pageSize

/-- The access takes no index of `sram` from a register that leads out of it: a remote read
finds its offset inside, a halfword is not written at the offset `0xFFFFFFFF`, and a packet
that is sent lies inside. -/
def AccessOk (io : DmaIo) : Access → Prop
  | .writeByte offset data _ => offset = 0x00 → data &&& 0x38 ≠ 0 → data &&& cmdXmit ≠ 0 →
      io.CR &&& cmdStop = 0 → io.packetLen ≠ 0 →
      io.startpage.toNat * pageSize + io.packetLen ≤ sramSize
  | .writeHalfword offset _ => offset = 0x10 → io.DCR &&& 1 ≠ 0 → io.CR &&& cmdWrite ≠ 0 →
      io.remote_write_offset ≠ 0xFFFFFFFF
  | .readByte => io.CR &&& cmdRead ≠ 0 → io.remote_read_offset.toNat < sramSize
  | .readHalfword => io.DCR &&& 1 ≠ 0 → io.CR &&& cmdRead ≠ 0 →
      io.remote_read_offset.toNat + 1 < sramSize

/-- Every access is such a one in the state that it finds. -/
def RunOk : DmaIo → List Access → Prop
  | _, [] => True
  | io, access :: accesses => AccessOk io access ∧ RunOk (io.step access).1 accesses

inductive Mode where
  | byte
  | halfword
  deriving DecidableEq

def Mode.width : Mode → Nat
  | .byte => 1
  | .halfword => 2

/-- The accesses of a transfer of `n` bytes. -/
def Mode.accesses (mode : Mode) (n : Nat) : Nat := (n + mode.width - 1) / mode.width

/-- The access that writes the bytes of `f` from `i * width` on. -/
def writeAccess (f : Nat → Byte) : Mode → Nat → Access
  | .byte, i => .writeByte 0x10 (f i) true
  | .halfword, i => .writeHalfword 0x10 (f (2 * i + 1) ++ f (2 * i))

def readAccess : Mode → Access
  | .byte => .readByte
  | .halfword => .readHalfword

def DmaIo.writing (io : DmaIo) (f : Nat → Byte) (mode : Mode) (k : Nat) : DmaIo :=
  io.run ((List.range k).map (writeAccess f mode))

def DmaIo.reading (io : DmaIo) (mode : Mode) (k : Nat) : DmaIo :=
  io.run (List.replicate k (readAccess mode))

def DmaIo.byteRead (io : DmaIo) (mode : Mode) (j : Nat) : Byte :=
  (((io.reading mode (j / mode.width)).step (readAccess mode)).2 >>>
    (8 * (j % mode.width))).setWidth 8

/-- The command `cmd` is over exactly at the last of `n` accesses. -/
structure CompletesAt (cmd : Byte) (io : Nat → DmaIo) (n : Nat) : Prop where
  going : ∀ k < n, (io k).CR = (io 0).CR ∧ (io k).ISR = (io 0).ISR
  cr : (io n).CR = ((io 0).CR &&& ~~~cmd) ||| cmdNodma
  isr : (io n).ISR = (io 0).ISR ||| isrRdc

def IsWrite (data : Byte) : Prop :=
  data &&& cmdWrite ≠ 0 ∧ data &&& cmdRun ≠ 0 ∧ data &&& cmdNodma = 0
def IsRead (data : Byte) : Prop := data &&& cmdRead ≠ 0 ∧ data &&& cmdRun ≠ 0

/-- The registers ask for `n` bytes inside the packet memory, and the port takes halfwords if
they come in these. -/
structure Asks (io : DmaIo) (mode : Mode) (n : Nat) : Prop where
  pos : 0 < n
  start_le : 0x4000 ≤ io.rsar.toNat
  le_end : io.rsar.toNat + n ≤ 0x8000
  count : io.rbcr.toNat = n
  halfword : mode = .halfword → io.DCR &&& 1 ≠ 0

/-- A remote write of `n` bytes after the command `data`, and a remote read of them after the
command `data'`. -/
structure RoundTrip (io : DmaIo) (data data' : Byte) (sent sent' : Bool) (f : Nat → Byte)
    (mode : Mode) (n : Nat) : Prop where
  write : CompletesAt cmdWrite ((io.writeCr data sent).writing f mode) (mode.accesses n)
  read : CompletesAt cmdRead
    ((((io.writeCr data sent).writing f mode (mode.accesses n)).writeCr data' sent').reading mode)
    (mode.accesses n)
  same : ∀ j < n,
    (((io.writeCr data sent).writing f mode (mode.accesses n)).writeCr data' sent').byteRead
      mode j = f j

end SkyEye.Rtl8019
