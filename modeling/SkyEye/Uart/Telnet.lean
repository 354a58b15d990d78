import SkyEye.Lib.RingBuffer
import SkyEye.Lib.Word

/-!
# Telnet connections of the UART

`telnet_input` of `telnet_server.c`, which takes telnet out of the bytes of a connection, and
the FIFO of `skyeye_uart_telnet.c` between it and the guest. A call decodes the bytes that
one `recv` gives; of its state only the IAC commands survive to the next call. What a stream
means, however it is cut, is `Scan`.
-/

namespace SkyEye.Telnet

abbrev Byte := BitVec 8

/-- `'\xff'`, `'\r'` and `'\n'` -/
def IAC : Byte := 0xff
def CR : Byte := 0x0d
def LF : Byte := 0x0a

/-! ## `telnet_input` -/

/-- `enum telnet_states` -/
inductive TelnetState where
  | data
  | iac
  | sb
  | se
  | will
  | wont
  | «do»
  | dont
  | escape
  deriving DecidableEq

/-- `char *p` is put into the FIFO before what comes after it. -/
def put (p : Byte) : Option (TelnetState × List Byte) → Option (TelnetState × List Byte)
  | none => none
  | some (state, chars) => some (state, p :: chars)

/-- The loop over the bytes of a chunk: the state it leaves and the characters given to
`uart_telnet_putch`. None if the simulator exits, for a state that it does not know. -/
def telnetLoop : TelnetState → List Byte → Option (TelnetState × List Byte)
  | state, [] => some (state, [])
  | .data, b :: rest =>
    if b = IAC then telnetLoop .iac rest
    else
      match rest with
      | [] => some (.data, [b])
      | c :: rest' =>
        -- The second byte of a pair is eaten; of `\n\r` it is the one that is put.
        if b = CR ∧ c = LF then put CR (telnetLoop .data rest')
        else if b = LF ∧ c = CR then put c (telnetLoop .data rest')
        else put b (telnetLoop .data (c :: rest'))
  | .iac, b :: rest =>
    telnetLoop
      (if b = 0xfe then .dont else if b = 0xfd then .do else if b = 0xfc then .wont
      else if b = 0xfb then .will else .iac) rest
  | .sb, _ :: rest => telnetLoop .sb rest
  | .se, _ :: rest => telnetLoop .se rest
  | .will, _ :: rest => telnetLoop .data rest
  | .wont, _ :: rest => telnetLoop .data rest
  | .do, _ :: rest => telnetLoop .data rest
  | .dont, _ :: rest => telnetLoop .data rest
  | .escape, _ :: _ => none

/-- Calls of `telnet_input`, one for each chunk that is read. -/
def telnetInputs : TelnetState → List (List Byte) → Option (TelnetState × List Byte)
  | state, [] => some (state, [])
  | state, chunk :: chunks =>
    match telnetLoop state chunk with
    | none => none
    | some (state, chars) =>
      match telnetInputs state chunks with
      | none => none
      | some (state, chars') => some (state, chars ++ chars')

/-! ## The FIFO -/

abbrev BUF_SIZE : Nat := 16

/-- The FIFO of `uart_telnet_device`. -/
structure Dev where
  buf : Nat → Byte
  bptr : Nat
  cnt : Nat

def uartTelnetGetch (netdev : Dev) : Option Byte × Dev :=
  if netdev.cnt = 0 then (none, netdev)
  else
    let bptr := netdev.bptr + 1
    (some (netdev.buf netdev.bptr),
      { netdev with
        cnt := netdev.cnt - 1
        bptr := if bptr ≥ BUF_SIZE then bptr - BUF_SIZE else bptr })

def uartTelnetPutch (netdev : Dev) (p : Byte) : Bool × Dev :=
  if netdev.cnt ≥ BUF_SIZE then (false, netdev)
  else
    let w := netdev.bptr + netdev.cnt
    let w := if w ≥ BUF_SIZE then w - BUF_SIZE else w
    (true, { netdev with buf := Function.update netdev.buf w p, cnt := netdev.cnt + 1 })

/-- What the two threads do with the FIFO. -/
inductive FifoOp where
  | putch (p : Byte)
  | getch
  deriving DecidableEq

/-- The character of a put. -/
def FifoOp.char : FifoOp → Option Byte
  | .putch p => some p
  | .getch => none

/-- The FIFO, the characters accepted and delivered so far, and the bells for those refused. -/
structure Fifo where
  netdev : Dev
  accepted : List Byte
  delivered : List Byte
  bells : Nat

/-- The device that `uart_telnet_open` has cleared. -/
def openFifo : Fifo := ⟨⟨fun _ => 0, 0, 0⟩, [], [], 0⟩

def Fifo.step (f : Fifo) : FifoOp → Fifo
  | .putch p =>
    match uartTelnetPutch f.netdev p with
    | (true, netdev) => { f with netdev := netdev, accepted := f.accepted ++ [p] }
    | (false, netdev) => { f with netdev := netdev, bells := f.bells + 1 }
  | .getch =>
    match uartTelnetGetch f.netdev with
    | (some p, netdev) => { f with netdev := netdev, delivered := f.delivered ++ [p] }
    | (none, netdev) => { f with netdev := netdev }

def Fifo.run (f : Fifo) (ops : List FifoOp) : Fifo := ops.foldl Fifo.step f

/-- The characters in the FIFO, oldest first. -/
def Fifo.contents (f : Fifo) : List Byte :=
  (List.range f.netdev.cnt).map fun i => f.netdev.buf ((f.netdev.bptr + i) % BUF_SIZE)

/-- The guest reads until the FIFO is empty. -/
def Fifo.drain (f : Fifo) : Fifo := f.run (List.replicate f.netdev.cnt .getch)

/-! ## Telnet -/

/-- Where a reader of the stream is: in data, after a CR in it, after IAC, or at the option of
a negotiation. -/
inductive Scan where
  | data
  | afterCr
  | iac
  | option
  deriving DecidableEq

/-- WILL, WONT, DO or DONT. -/
def IsNegotiation (b : Byte) : Prop := 0xfb ≤ b.toNat ∧ b.toNat ≤ 0xfe

instance (b : Byte) : Decidable (IsNegotiation b) := by unfold IsNegotiation; infer_instance

namespace Scan

/-- A byte of data; an LF that ends a CR LF is no character of its own. -/
def dataByte (afterCr : Bool) (b : Byte) : Scan × List Byte :=
  if b = IAC then (.iac, [])
  else if b = CR then (.afterCr, [CR])
  else if b = LF ∧ afterCr = true then (.data, [])
  else (.data, [b])

/-- A byte of the stream, and the characters it stands for. -/
def next : Scan → Byte → Scan × List Byte
  | .data, b => dataByte false b
  | .afterCr, b => dataByte true b
  | .iac, b =>
    if b = IAC then (.data, [IAC])
    else if IsNegotiation b then (.option, [])
    else (.data, [])
  | .option, _ => (.data, [])

/-- The place after some bytes. -/
def after : Scan → List Byte → Scan
  | s, [] => s
  | s, b :: bytes => (s.next b).1.after bytes

/-- The telnet decoding of some bytes. -/
def decode : Scan → List Byte → List Byte
  | _, [] => []
  | s, b :: bytes => (s.next b).2 ++ (s.next b).1.decode bytes

end Scan

/-- A byte `b` of a chunk, at the place `s`, with `pre` before it and `post` after it in the
chunk: it is no command but a negotiation, no LF whose CR ended the chunk before, and no LF of
its own with a CR after it. -/
structure ByteOk (s : Scan) (pre : List Byte) (b : Byte) (post : List Byte) : Prop where
  command : s = .iac → IsNegotiation b
  whole : s = .afterCr → b = LF → pre ≠ []
  noLfCr : s = .data → b = LF → post.head? ≠ some CR

/-- Every byte of the chunk is one that is decoded right. -/
def ChunkOk (s : Scan) (chunk : List Byte) : Prop :=
  ∀ pre b post, chunk = pre ++ b :: post → ByteOk (s.after pre) pre b post

/-- Every chunk is such a one. -/
def ChunksOk : Scan → List (List Byte) → Prop
  | _, [] => True
  | s, chunk :: chunks => ChunkOk s chunk ∧ ChunksOk (s.after chunk) chunks

end SkyEye.Telnet
