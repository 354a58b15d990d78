import SkyEye.Lib.RingBuffer
import SkyEye.Lib.Word

/-!
# Receiving in the RTL8019

`rtl8019_input` of `dev_net_rtl8019.c` with the registers it reads and writes. A page register
has eight bits; the packet memory `sram` holds the pages from `START_PAGE` up.
-/

namespace SkyEye.Rtl8019

abbrev Byte := BitVec 8

abbrev startPage : Nat := 0x40
abbrev endPage : Nat := 0x80
abbrev pageSize : Nat := 0x100

/-- `CMD_STOP` and so on -/
abbrev cmdStop : Byte := 0x01
abbrev tcrLoopExt : Byte := 0x06
abbrev rsrRxok : Byte := 0x01
abbrev isrPrx : Byte := 0x01
abbrev isrOvw : Byte := 0x10

/-- `struct net_rtl8019_io`. `intr` counts the calls of `net_rtl8019_set_update_intr`. -/
structure Io where
  CR : Byte
  PSTART : Nat
  PSTOP : Nat
  BNRY : Nat
  ISR : Byte
  RSR : Byte
  TCR : Byte
  IMR : Byte
  CURR : Nat
  sram : Nat → Byte
  need_update : Bool
  intr : Nat

/-- What `net_read` puts into `buf[1600]`. -/
abbrev Packet := { bytes : List Byte // bytes.length ≤ 1600 }

/-- The packet with zeros up to 60 bytes. -/
def padded (packet : Packet) : List Byte :=
  packet.val ++ List.replicate (60 - packet.val.length) 0

def rtl8019Len (packet : Packet) : Nat := (padded packet).length + 4

def occupyPages (packet : Packet) : Nat := (rtl8019Len packet + 255) / pageSize

def frameHeader (next_page : Nat) (packet : Packet) : List Byte :=
  [rsrRxok, BitVec.ofNat 8 next_page, BitVec.ofNat 8 (rtl8019Len packet),
    BitVec.ofNat 8 (rtl8019Len packet / 256)]

namespace Io

variable (io : Io)

/-- `free_pages`, an `int` difference in a `u32` -/
def freePages : Nat :=
  if io.CURR < io.BNRY then io.BNRY - io.CURR
  else (((io.PSTOP - io.PSTART : Int) - (io.CURR - io.BNRY)) % 2 ^ 32).toNat

def nextPage (occupy_pages : Nat) : Nat :=
  if io.CURR + occupy_pages ≥ io.PSTOP then io.CURR + occupy_pages + io.PSTART - io.PSTOP
  else io.CURR + occupy_pages

/-- The index of a page in `sram`. -/
def pageIndex (page : Nat) : Nat := (page - startPage) * pageSize

/-- The packet memory with the frame of a packet from `CURR` on. -/
def store (packet : Packet) : Nat → Byte :=
  let next_page := io.nextPage (occupyPages packet)
  let sramptr := pageIndex io.CURR
  let sram := Block.copy io.sram sramptr (frameHeader next_page packet)
  if next_page > io.CURR ∨ io.CURR + occupyPages packet = io.PSTOP then
    Block.copy sram (sramptr + 4) (padded packet)
  else
    let copy_bytes := (io.PSTOP - io.CURR) * pageSize
    Block.copy (Block.copy sram (sramptr + 4) ((padded packet).take (copy_bytes - 4)))
      (pageIndex io.PSTART) ((padded packet).drop (copy_bytes - 4))

/-- Not stopped and not looped back. -/
def ready : Bool := io.CR &&& cmdStop == 0 && io.TCR &&& tcrLoopExt == 0

/-- `rtl8019_input`; `net_read` gives no packet where it fails. -/
def input (net_read : Option Packet) : Io :=
  if io.ready then
    match net_read with
    | none => io
    | some packet =>
      if occupyPages packet > io.freePages then
        { io with
          ISR := io.ISR ||| isrOvw
          intr := if io.IMR &&& isrOvw ≠ 0 then io.intr + 1 else io.intr }
      else
        { io with
          sram := io.store packet
          CURR := io.nextPage (occupyPages packet) % 2 ^ 8
          RSR := io.RSR ||| rsrRxok
          ISR := io.ISR ||| isrPrx
          need_update := if io.IMR &&& isrPrx ≠ 0 then true else io.need_update
          intr := if io.IMR &&& isrPrx ≠ 0 then io.intr + 1 else io.intr }
  else io

/-- A byte of the frame that starts on a page, round the ring of the pages. -/
def index (page k : Nat) : Nat :=
  Ring.shift (io.PSTART * pageSize) (io.PSTOP * pageSize) (page * pageSize) k -
    startPage * pageSize

/-- The byte of a frame. -/
def byte (page k : Nat) : Byte := io.sram (io.index page k)

/-! ## The guest -/

/-- The next-page pointer in the header of a frame. -/
def pointer (page : Nat) : Nat := (io.byte page 1).toNat

/-- The length in the header. -/
def frameLen (page : Nat) : Nat := (io.byte page 2).toNat + 256 * (io.byte page 3).toNat

/-- The guest follows `n` next-page pointers. -/
def follow : Nat → Nat → Nat
  | 0, page => page
  | n + 1, page => follow n (io.pointer page)

/-- BNRY is written with the next-page pointer of the frame after `n` others. -/
def release (n : Nat) : Io := { io with BNRY := io.follow (n + 1) io.BNRY }

/-- The packets that the guest finds on its way from a page to CURR; a frame has one page at
least. -/
def visit : Nat → Nat → Option (List (List Byte))
  | fuel, page =>
    if page = io.CURR then some []
    else match fuel with
      | 0 => none
      | fuel + 1 =>
        (visit fuel (io.pointer page)).map
          (((List.range (io.frameLen page - 4)).map fun k => io.byte page (4 + k)) :: ·)

/-- The packets from BNRY on. -/
def visited : Option (List (List Byte)) := io.visit (io.PSTOP - io.PSTART) io.BNRY

end Io

end SkyEye.Rtl8019
