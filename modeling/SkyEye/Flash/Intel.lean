import SkyEye.Arm.Defs
import Mathlib.Logic.Function.Basic

/-!
# The Intel 28F128

The command machine of `dev_flash_intel.c`. The words of the flash are what `mem_read` and
`mem_write` find at their addresses.
-/

namespace SkyEye.Flash

/-- `WSM_READ_ARRAY` and so on, the values of `read_mode`. -/
inductive ReadMode where
  | array
  | id
  | status
  | query
  deriving DecidableEq

/-- The values of `wsm_mode`. -/
inductive WsmMode where
  | ready
  | writeBuffer
  | program
  | blockErase
  | lockAccess
  deriving DecidableEq

/-- `WORD_ADDR` -/
abbrev Word := BitVec 30

def wordAddr (addr : ARMword) : Word := addr.extractLsb' 2 30

/-- `SECTOR_ADDR` of an address and of the address of a word. -/
def sectorAddr (addr : ARMword) : Nat := (addr >>> 18).toNat
def Word.sector (w : Word) : Nat := (w >>> 16).toNat

/-- `INTEL_WRITEBUFFER_MASK` on a word address -/
def bufferIndex (w : Word) : Word := w &&& 0xf

/-- `struct flash_intel_io`, and the words of the flash. The array of locks has 128 entries;
what is behind them can be anything. `loads` keeps the words that were loaded since the
`WSM_WRITE_BUFFER`, the latest one first; nothing reads it. -/
structure Intel where
  lock : Nat → BitVec 8
  readMode : ReadMode
  wsmMode : WsmMode
  vpen : Bool
  programLatchAddr : ARMword
  progbufLatchAddr : ARMword
  eraseLatchAddr : ARMword
  pbCount : Nat
  pbLoaded : Nat
  pbStart : ARMword
  pbBuf : Word → ARMword
  programSuspended : Bool
  progbufSuspended : Bool
  eraseSuspended : Bool
  protectionError : Bool
  programSetlbError : Bool
  eraseClearlbError : Bool
  programVoltError : Bool
  mem : Word → ARMword
  loads : List (Word × ARMword)

namespace Intel

abbrev writeBufferSize : Nat := 0x10
abbrev lockCount : Nat := 0x2000000 / 0x40000
abbrev confirm : ARMword := 0xd0

/-- `flash_intel_reset`; the latches and the buffer are as `io` was. -/
def reset (io : Intel) : Intel :=
  { io with
    lock := fun i => if i < lockCount then 0 else io.lock i
    readMode := .array
    wsmMode := .ready
    vpen := true
    pbCount := 0
    pbLoaded := 0
    programSuspended := false
    progbufSuspended := false
    eraseSuspended := false
    protectionError := false
    programSetlbError := false
    eraseClearlbError := false
    programVoltError := false
    loads := [] }

variable (io : Intel)

def isLocked (addr : ARMword) : Bool := io.lock (sectorAddr addr) != 0

/-- `ADDR_SUSPENDED` and `DEVICE_SUSPENDED` -/
def addrSuspended (addr : ARMword) : Bool :=
  (io.programSuspended && addr == io.programLatchAddr) ||
    (io.progbufSuspended && io.pbStart ≤ addr && addr < io.pbStart + BitVec.ofNat 32 io.pbCount) ||
    (io.eraseSuspended && addr &&& 0xfffc0000 == io.eraseLatchAddr &&& 0xfffc0000)
def deviceSuspended : Bool := io.programSuspended || io.progbufSuspended || io.eraseSuspended

/-! ## Reads -/

def bothChip (x : ARMword) : ARMword := ((x &&& 0xffff) <<< 16) ||| (x &&& 0xffff)

def flag (b : Bool) : ARMword := if b then 1 else 0

/-- The status register; no operation is busy between two accesses. -/
def status : ARMword :=
  bothChip ((1 <<< 7) ||| (flag io.eraseSuspended <<< 6) ||| (flag io.eraseClearlbError <<< 5) |||
    (flag io.programSetlbError <<< 4) ||| (flag io.programVoltError <<< 3) |||
    (flag io.programSuspended <<< 2) ||| (flag io.protectionError <<< 1))

/-- The entries of `query` that are not 0. -/
def queryTable : List (Nat × ARMword) :=
  [(0x00, 0x00890089), (0x01, 0x00180018), (0x02, 0x00010001), (0x10, 0x00510051),
    (0x11, 0x00520052), (0x12, 0x00590059), (0x13, 0x00010001), (0x15, 0x00310031),
    (0x1b, 0x00270027), (0x1c, 0x00360036), (0x1f, 0x00070007), (0x20, 0x00070007),
    (0x21, 0x000A000A), (0x23, 0x00040004), (0x24, 0x00040004), (0x25, 0x00040004),
    (0x27, 0x00180018), (0x28, 0x00020002), (0x2a, 0x00050005), (0x2c, 0x00010001),
    (0x2d, 0x007F007F), (0x30, 0x00020002), (0x31, 0x00500050), (0x32, 0x00520052),
    (0x33, 0x00490049), (0x34, 0x00310031), (0x35, 0x00320032), (0x36, 0x00CE00CE),
    (0x3a, 0x00010001), (0x3b, 0x00010001), (0x3c, 0x00010001), (0x3d, 0x00330033),
    (0x3f, 0x00010001), (0x41, 0x00010001), (0x42, 0x00030003), (0x43, 0x00030003),
    (0x44, 0x00030003)]

/-- `flash_intel_read_word` -/
def readWord (addr : ARMword) : ARMword :=
  match io.readMode with
  | .array => io.mem (wordAddr addr)
  | .id =>
    -- of the word address one bit is left, so the lock state is never read
    let temp := wordAddr addr &&& 1
    if temp = 0 then bothChip 0x89
    else if temp = 1 then bothChip 0x18
    else if (addr &&& 0x3ffff) >>> 2 = 2 then
      bothChip ((io.lock (sectorAddr addr)).setWidth 32 &&& 0x1)
    else 0
  | .status => io.status
  | .query =>
    let temp := (wordAddr (addr &&& 0xffff)).toNat
    if temp < 0x47 then (queryTable.lookup temp).getD 0 else 0

/-! ## Writes -/

/-- `io->read_mode = mode` and `io->wsm_mode = mode` -/
def reading (mode : ReadMode) : Intel := { io with readMode := mode }
def entering (mode : WsmMode) : Intel := { io with wsmMode := mode }

/-- The case of `WSM_CLEAR_STATUS`. -/
def clearStatus : Intel :=
  { io with
    protectionError := false
    programSetlbError := false
    eraseClearlbError := false
    programVoltError := false
    readMode := .array }

/-- The case of `WSM_WRITE_BUFFER`. -/
def startBuffer : Intel :=
  { io with
    wsmMode := .writeBuffer
    readMode := .status
    pbCount := 0
    pbLoaded := 0
    pbBuf := fun _ => 0xffffffff
    loads := [] }

/-- The case of `WSM_RESUME`. -/
def resume : Intel :=
  if io.programSuspended then { io with programSuspended := false }
  else if io.progbufSuspended then { io with progbufSuspended := false }
  else if io.eraseSuspended then { io with eraseSuspended := false }
  else io

/-- `init_wsm`; nothing is busy here, so Suspend has no effect. -/
def initWsm (data : ARMword) : Intel :=
  let cmd := data &&& 0xff
  if cmd = 0xff then io.reading .array
  else if cmd = 0x90 then io.reading .id
  else if cmd = 0x70 then io.reading .status
  else if cmd = 0x98 then io.reading .query
  else if cmd = 0x50 then io.clearStatus
  else if cmd = 0x40 ∨ cmd = 0x10 then io.entering .program
  else if cmd = 0xe8 then io.startBuffer
  else if cmd = 0x20 then io.entering .blockErase
  else if cmd = 0xb0 then io
  else if cmd = 0xd0 then io.resume
  else if cmd = 0x60 then io.entering .lockAccess
  else io

/-- A loop over `n` words from `w` on. -/
def onWords (f : Word → ARMword → ARMword) (w : Word) : Nat → (Word → ARMword) → Word → ARMword
  | 0, mem => mem
  | n + 1, mem =>
    let mem := onWords f w n mem
    let j := w + BitVec.ofNat 30 n
    Function.update mem j (f j (mem j))

/-- A command that is out of sequence. -/
def failSequence : Intel :=
  { io with programSetlbError := true, eraseClearlbError := true, wsmMode := .ready }

/-- The step of `WSM_WRITE_BUFFER` that gets the count. -/
def bufferCount (addr data : ARMword) : Intel :=
  let count := (data &&& 0xff).toNat + 1
  let io := { io with pbCount := count, progbufLatchAddr := addr }
  if count > writeBufferSize then io.failSequence
  else if sectorAddr addr ≠ sectorAddr (addr + BitVec.ofNat 32 count - 1) then io.failSequence
  else io

/-- The one that loads a word. -/
def bufferLoad (addr data : ARMword) : Intel :=
  if sectorAddr addr ≠ sectorAddr io.progbufLatchAddr then io.failSequence
  else
    { io with
      pbStart := if io.pbLoaded = 0 then addr else io.pbStart
      pbBuf := Function.update io.pbBuf (bufferIndex (wordAddr addr)) data
      pbLoaded := io.pbLoaded + 1
      loads := (wordAddr addr, data) :: io.loads }

/-- The one that confirms the program. -/
def bufferConfirm (data : ARMword) : Intel :=
  if data &&& 0xff = confirm then
    let io := { io with readMode := .status, wsmMode := .ready }
    if io.isLocked io.progbufLatchAddr then
      { io with programSetlbError := true, protectionError := true }
    else if io.deviceSuspended then { io with programSetlbError := true }
    else if !io.vpen then { io with programSetlbError := true, programVoltError := true }
    else
      { io with
        mem := onWords (fun j v => v &&& io.pbBuf (bufferIndex j)) (wordAddr io.pbStart)
          writeBufferSize io.mem }
  else io.failSequence

/-- The case of `WSM_PROGRAM`. -/
def program (addr data : ARMword) : Intel :=
  let io := { io with programLatchAddr := addr, readMode := .status, wsmMode := .ready }
  if io.isLocked addr then { io with programSetlbError := true, protectionError := true }
  else if io.addrSuspended addr then { io with programSetlbError := true }
  else if !io.vpen then { io with programSetlbError := true, programVoltError := true }
  else { io with mem := Function.update io.mem (wordAddr addr) (io.mem (wordAddr addr) &&& data) }

/-- The case of `WSM_BLOCK_ERASE`. -/
def blockErase (addr data : ARMword) : Intel :=
  if data &&& 0xff = confirm then
    let latch := addr &&& 0xfffc0000
    let io := { io with eraseLatchAddr := latch, readMode := .status, wsmMode := .ready }
    if io.isLocked latch then { io with eraseClearlbError := true, protectionError := true }
    else if io.deviceSuspended then { io with eraseClearlbError := true }
    else if !io.vpen then { io with eraseClearlbError := true, programVoltError := true }
    else { io with mem := onWords (fun _ _ => 0xffffffff) (wordAddr latch) 0x10000 io.mem }
  else { io with wsmMode := .ready }

/-- The case of `WSM_LOCK_ACCESS`. -/
def lockAccess (addr data : ARMword) : Intel :=
  if data &&& 0xff = 0x01 then
    let io := { io with readMode := .status, wsmMode := .ready }
    if io.deviceSuspended then { io with programSetlbError := true }
    else if !io.vpen then { io with programSetlbError := true, programVoltError := true }
    else { io with lock := Function.update io.lock (sectorAddr addr) 1 }
  else if data &&& 0xff = confirm then
    let io := { io with readMode := .status, wsmMode := .ready }
    if io.deviceSuspended then { io with eraseClearlbError := true }
    else if !io.vpen then { io with eraseClearlbError := true, programVoltError := true }
    else { io with lock := fun i => if i < lockCount then 0 else io.lock i }
  else { io with wsmMode := .ready }

/-- `flash_intel_write_word` -/
def writeWord (addr data : ARMword) : Intel :=
  match io.wsmMode with
  | .ready => io.initWsm data
  | .writeBuffer =>
    if io.pbCount = 0 then io.bufferCount addr data
    else if io.pbLoaded < io.pbCount then io.bufferLoad addr data
    else io.bufferConfirm data
  | .program => io.program addr data
  | .blockErase => io.blockErase addr data
  | .lockAccess => io.lockAccess addr data

end Intel

end SkyEye.Flash
