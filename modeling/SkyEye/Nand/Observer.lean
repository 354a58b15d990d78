import SkyEye.Nand.SmallBlock

/-!
# What a NAND flash has to do

An observer of the pins tells command, address, data-in and data-out cycles from the levels of
CLE and ALE, and knows from them what a page program, a block erasure and a read have to do. The
code goes by the last edge of CLE and ALE, keeps one pointer into the page for the column and the
data, and checks no address: `Proper` is where that makes no difference.
-/

namespace SkyEye.Nand

/-! ## The observer -/

/-- The operation under way: the area of the page that a pointer command has selected, the
address cycles so far, and the data-out cycles or the bytes of the data-in cycles so far. -/
inductive Op where
  | none
  | read (area : Nat) (args : List Byte) (count : Nat)
  | program (area : Nat) (args : List Byte) (data : List Byte)
  | erase (args : List Byte)

/-- The levels of the pins CLE, ALE and WP, the area selected last, and the operation. -/
structure Seen where
  cle : Bool
  ale : Bool
  wp : Bool
  area : Nat
  op : Op

def page : List Byte → Nat
  | [] => 0
  | a :: args => a.toNat + 256 * page args

def column (area : Nat) : List Byte → Nat
  | [] => area
  | a :: _ => area + a.toNat

/-- An operation whose addresses are complete has four cycles, an erasure three. -/
def Op.complete : Op → Bool
  | .none => false
  | .read _ args _ => args.length == 4
  | .program _ args _ => args.length == 4
  | .erase args => args.length == 3

/-- A program whose addresses are complete ends. -/
def Op.programEnd : Op → Op
  | .program area args data => if args.length = 4 then .none else .program area args data
  | op => op

/-- A command cycle: the area and the operation after it. -/
def Op.command (b : Byte) (area : Nat) (op : Op) : Nat × Op :=
  if b = cmdRead0 then (0, .read 0 [] 0)
  else if b = cmdRead1 then (256, .read 256 [] 0)
  else if b = cmdReadOob then (512, .read 512 [] 0)
  else if b = cmdReset then (0, .none)
  else if b = cmdSeqIn then (area, .program area [] [])
  else if b = cmdErase1 then (area, .erase [])
  else if b = cmdErase2 ∨ b = cmdStatus ∨ b = cmdReadID then (area, .none)
  else if b = cmdPageProg then (area, op.programEnd)
  else (area, op)

/-- An address cycle; more than an operation has are ignored. -/
def Op.address (b : Byte) : Op → Op
  | .read area args count =>
    if args.length < 4 then .read area (args ++ [b]) count else .read area args count
  | .program area args data =>
    if args.length < 4 then .program area (args ++ [b]) data else .program area args data
  | .erase args => if args.length < 3 then .erase (args ++ [b]) else .erase args
  | .none => .none

def Op.dataIn (b : Byte) : Op → Op
  | .program area args data =>
    if args.length = 4 then .program area args (data ++ [b]) else .program area args data
  | op => op

def Op.dataOut : Op → Op
  | .read area args count => .read area args (if args.length = 4 then count + 1 else count)
  | op => op

namespace Seen

/-- A rising WE: the byte `b` is latched. -/
def latch (seen : Seen) (b : Byte) : Seen :=
  match seen.cle, seen.ale with
  | true, false =>
    { seen with area := (seen.op.command b seen.area).1, op := (seen.op.command b seen.area).2 }
  | false, true => { seen with op := seen.op.address b }
  | false, false => { seen with op := seen.op.dataIn b }
  | true, true => seen

def step (nf : SbStatus) (seen : Seen) : SbStatus.Event → Seen
  | .set .cle state => { seen with cle := state }
  | .set .ale state => { seen with ale := state }
  | .set .wp state => { seen with wp := state }
  | .set .we state =>
    if nf.we = false ∧ state = true ∧ nf.ce = false then seen.latch nf.iopin else seen
  | .set .re state =>
    if nf.re = true ∧ state = false ∧ nf.ce = false then { seen with op := seen.op.dataOut }
    else seen
  | _ => seen

end Seen

/-! ## What a call has to do -/

def programmed (args data : List Byte) (area : Nat) (mem : Nat → Byte) : Nat → Byte := fun i =>
  let base := page args.tail * pagedumpsize + column area args
  if base ≤ i ∧ i < base + data.length then mem i &&& data.getD (i - base) 0xff else mem i

def erased (args : List Byte) (mem : Nat → Byte) : Nat → Byte := fun i =>
  let base := page args / pagenum * erasesize
  if base ≤ i ∧ i < base + erasesize then 0xff else mem i

/-- The address of the byte that the data-out cycle `count` of a read gets: from the column up,
or from one spare area to the next. -/
def readAddress (area : Nat) (args : List Byte) (count : Nat) : Nat :=
  if area = 512 then
    let n := column area args - 512 + count
    (page args.tail + n / 16) * pagedumpsize + 512 + n % 16
  else page args.tail * pagedumpsize + column area args + count

/-- The memory that the command `b` should leave at a level of WP. -/
def Op.commandMem (b : Byte) (wp : Bool) (mem : Nat → Byte) : Op → Nat → Byte
  | .program area args data =>
    if b = cmdPageProg ∧ args.length = 4 ∧ wp = true then programmed args data area mem else mem
  | .erase args =>
    if b = cmdErase2 ∧ args.length = 3 ∧ wp = true then erased args mem else mem
  | _ => mem

/-- The memory that a call should leave: only a command cycle changes it. -/
def expected (nf : SbStatus) (seen : Seen) (ev : SbStatus.Event) : Nat → Byte :=
  match ev with
  | .set .we true =>
    if nf.we = false ∧ nf.ce = false ∧ seen.cle = true ∧ seen.ale = false then
      seen.op.commandMem nf.iopin seen.wp nf.addrspace
    else nf.addrspace
  | _ => nf.addrspace

/-- The indices so far were within the backing array and the write buffer. -/
def SbStatus.InBounds (nf : SbStatus) : Prop :=
  (∀ r ∈ nf.backing, r.1 + r.2 ≤ devicesize) ∧ ∀ i ∈ nf.buffer, i < pagedumpsize

/-- The call takes `nf` to `nf'` as it should. -/
structure Meets (nf : SbStatus) (seen : Seen) (ev : SbStatus.Event) (nf' : SbStatus) : Prop where
  inBounds : nf.InBounds → nf'.InBounds
  mem : nf'.addrspace = expected nf seen ev
  read : ∀ area args count, seen.op = .read area args count → args.length = 4 → nf.re = true →
    nf.ce = false → ev = .set .re false → readAddress area args count < devicesize →
    nf'.readio = nf.addrspace (readAddress area args count)

/-! ## Proper cycles -/

/-- The byte latched as a command: nothing has moved the pointer since its area was selected, or
the data of a program while WP was low; and no reset while WP is low. -/
def ProperCommand (nf : SbStatus) (seen : Seen) : Prop :=
  (nf.iopin = cmdSeqIn → nf.pageoffset = seen.area) ∧
    (nf.iopin = cmdReset → seen.wp = true) ∧
    match seen.op with
    | .program area args data => nf.iopin = cmdPageProg → args.length = 4 → seen.wp = true →
      nf.pageoffset = column area args + data.length
    | _ => True

/-- The byte latched as an address: a column of the spare area has four bits, a page is one of
the device, and no more cycles come than a read has. -/
def ProperAddress (nf : SbStatus) (op : Op) : Prop :=
  let b := nf.iopin
  match op with
  | .none => True
  | .read area args _ => args.length < 4 ∧ (args = [] → area = 512 → b.toNat < 16) ∧
      (args.length = 3 → page (args.tail ++ [b]) < pagenum * blocknum)
  | .program area args _ => (args = [] → area = 512 → b.toNat < 16) ∧
      (args.length = 3 → page (args.tail ++ [b]) < pagenum * blocknum)
  | .erase args => args.length = 2 → page (args ++ [b]) < pagenum * blocknum

def ProperData (nf : SbStatus) (op : Op) : Prop :=
  op.complete = true → nf.wp = true → nf.pageoffset < pagedumpsize

/-- In a cycle the last edges of CLE, ALE and CE are those that its levels come from. -/
def Proper (nf : SbStatus) (seen : Seen) (ev : SbStatus.Event) : Prop :=
  match ev with
  | .set .we true => nf.we = false → nf.ce = false →
    match seen.cle, seen.ale with
    | true, false => nf.iostatus = .cmd ∧ ProperCommand nf seen
    | false, true => nf.iostatus = .addr ∧ ProperAddress nf seen.op
    | false, false => nf.iostatus ≠ .cmd ∧ nf.iostatus ≠ .addr ∧ ProperData nf seen.op
    | true, true => False
  | .set .re false => nf.re = true → nf.ce = false →
    match seen.op with
    | .read _ args _ => args.length = 4 → nf.iostatus = .dataRead
    | _ => True
  | _ => True

def Seen.start : Seen := ⟨false, false, true, 0, .none⟩

/-- A flash at power on; nothing has been accessed. -/
def SbStatus.start (nf₀ : SbStatus) : SbStatus := { nf₀.poweron with backing := [], buffer := [] }

/-- The runs from power on whose calls are `ok`. -/
inductive Run (ok : SbStatus → Seen → SbStatus.Event → Prop) (nf₀ : SbStatus) :
    SbStatus → Seen → Prop
  | start : Run ok nf₀ nf₀.start .start
  | step {nf seen} (hrun : Run ok nf₀ nf seen) (ev : SbStatus.Event) (hok : ok nf seen ev) :
      Run ok nf₀ (nf.step ev) (seen.step nf ev)

/-! ## The invariant -/

def areaCommand (area : Nat) : Byte :=
  if area = 0 then cmdRead0 else if area = 256 then cmdRead1 else cmdReadOob

/-- The address cycle that comes after `n` of them. -/
def stage : Nat → CmdStatus
  | 0 => .addr1st
  | 1 => .addr2nd
  | 2 => .addr3rd
  | _ => .addr4th

/-- The code in the address cycles of a read or a program. -/
structure Addressing (nf : SbStatus) (area : Nat) (args : List Byte) : Prop where
  waits : nf.iostatus = .cmd ∨ nf.iostatus = .addr
  status : nf.cmdstatus = stage args.length
  offset : nf.pageoffset = column area args
  address : nf.address = page args.tail * 512
  spare : args ≠ [] → area = 512 → column area args < 528

structure Reading (nf : SbStatus) (area : Nat) (args : List Byte) (count : Nat) : Prop where
  ready : nf.iostatus ≠ .dataWrite ∧ nf.iostatus ≠ .idRead ∧ nf.iostatus ≠ .statusRead
  status : nf.cmdstatus = .addr4th
  address : nf.iostatus = .dataRead → nf.address = readAddress area args count ∨
    devicesize ≤ nf.address ∧ devicesize ≤ readAddress area args count

/-- The write buffer with the data from the column up. -/
def Filled (nf : SbStatus) (col : Nat) (data : List Byte) : Prop :=
  ∀ j < pagedumpsize, nf.writebuffer j =
    if col ≤ j ∧ j < col + data.length then data.getD (j - col) 0xff else 0xff

/-- The code in the data-in cycles of a program. -/
structure Loading (nf : SbStatus) (area : Nat) (args data : List Byte) : Prop where
  ready : nf.iostatus = .cmd ∨ nf.iostatus = .addr ∨ nf.iostatus = .dataWrite
  status : nf.cmdstatus = .addrFinish
  inPage : column area args < pagedumpsize
  inDevice : page args.tail < pagenum * blocknum
  address : nf.address = page args.tail * pagedumpsize + column area args
  offset : nf.pageoffset ≤ column area args + data.length
  bound : nf.pageoffset ≤ pagedumpsize
  filled : nf.pageoffset = column area args + data.length →
    Filled nf (column area args) data

structure Erasing (nf : SbStatus) (args : List Byte) : Prop where
  waits : nf.iostatus = .cmd ∨ nf.iostatus = .addr
  offset : nf.pageoffset = 0
  progress :
    args.length < 3 ∧ nf.address = page args * 512 ∧ nf.cmdstatus = stage (args.length + 1) ∨
    args.length = 3 ∧ page args < pagenum * blocknum ∧ nf.address = page args * pagedumpsize ∧
      nf.cmdstatus = .addrFinish

/-- What the code knows of the operation. -/
def Tracks (nf : SbStatus) : Op → Prop
  | .none => nf.iostatus ≠ .dataRead ∧ nf.iostatus ≠ .dataWrite ∧ (nf.cmdstatus = .noStatus ∨
      nf.cmd ∈ [cmdPageProg, cmdStatus, cmdReadID, cmdNone])
  | .read area args count => nf.cmd = areaCommand area ∧ area ∈ [0, 256, 512] ∧
      (args.length < 4 ∧ count = 0 ∧ Addressing nf area args ∨
        args.length = 4 ∧ Reading nf area args count)
  | .program area args data => nf.cmd = cmdSeqIn ∧ area ∈ [0, 256, 512] ∧
      (args.length < 4 ∧ data = [] ∧ Addressing nf area args ∧ Filled nf 0 [] ∨
        args.length = 4 ∧ Loading nf area args data)
  | .erase args => nf.cmd = cmdErase1 ∧ Erasing nf args

structure Inv (nf : SbStatus) (seen : Seen) : Prop where
  wp : nf.wp = seen.wp
  area : seen.area ∈ [0, 256, 512]
  tracks : Tracks nf seen.op

end SkyEye.Nand
