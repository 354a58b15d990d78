import SkyEye.Gdb.Tracepoint

/-!
# The command loop

The loop of `sim_debug`, as far as its buffers go: `getpkt` fills `own_buf`, the command
is answered in `own_buf`, for memory by way of `mem_buf`, and `putpkt` puts the frame
together in its `buf2`. Every position written is on record. `own` is memory from
`own_buf` on to where it ends; a command that reads past that ends the program.
-/

namespace SkyEye.Gdb

/-- The buffers on the way of a packet. -/
inductive Buffer where
  | ownBuf
  | memBuf
  | buf2
  deriving DecidableEq

def Buffer.size : Buffer → Nat
  | .ownBuf => 8000
  | .memBuf => 8000
  | .buf2 => 2000

/-- A position of a buffer that is written to. -/
abbrev Write := Buffer × Nat

def upTo (b : Buffer) (n : Nat) : List Write := (List.range n).map (b, ·)

/-- What the loop has to do with besides its buffers. -/
structure Env where
  target : Target
  ice : Ice
  /-- The list of `ro_region`s. -/
  roRegions : List (Addr × Addr)
  /-- The contents of `registers` for `g`. -/
  registers : List Byte
  /-- A byte that was never written. -/
  junk : Byte
  registerRawSize : Nat → Nat
  pcRegnum : Fin 256
  fpRegnum : Fin 256
  spRegnum : Fin 256
  /-- `status` and `signal`, which only `?` sets. -/
  status : Byte
  signal : Byte
  /-- What `sim_write` returns is the length. -/
  simWrite : Addr → Addr → Bool
  /-- `sim_ice_breakpoint_insert` and `_remove` find the packet's breakpoint right. -/
  breakpoint : List Byte → Bool

/-! ## Texts -/

def convertIntToAscii (bytes : List Byte) : List Byte :=
  bytes.flatMap fun b => [tohex (b.toNat / 16), tohex (b.toNat % 16)]

def printHex : Nat → Nat → List Byte
  | 0, _ => []
  | k + 1, n => if n < 16 then [tohex n] else printHex k (n / 16) ++ [tohex (n % 16)]

def okText : List Byte := [0x4f, 0x4b]

/-- `E01` -/
def ennText : List Byte := [0x45, 0x30, 0x31]

/-- `F-1` -/
def noFrameText : List Byte := [0x46, 0x2d, 0x31]

/-- `F%xT%x` -/
def frameText (frameNumber tracepointNumber : Addr) : List Byte :=
  0x46 :: printHex 8 frameNumber.toNat ++ 0x54 :: printHex 8 tracepointNumber.toNat

/-- `outreg`: the number, a colon, the value and a semicolon. -/
def outreg (env : Env) (regno : Fin 256) : List Byte :=
  let i := env.target.registerByte regno
  let bytes := (List.range (env.registerRawSize regno)).map fun j => env.registers.getD (i + j) 0
  tohex (regno / 16) :: tohex (regno % 16) :: 0x3a :: convertIntToAscii bytes ++ [0x3b]

/-- `prepare_resume_reply` -/
def resumeText (env : Env) (status signal : Byte) : List Byte :=
  let regs := if Char.ofNat status.toNat = 'T' then
    outreg env env.pcRegnum ++ outreg env env.fpRegnum ++ outreg env env.spRegnum else []
  status :: tohex (signal.toNat / 16) :: tohex (signal.toNat % 16) :: regs

/-! ## Packets -/

/-- Hex digits up to the character `stop`, and what comes after it. -/
def hexUntil (stop : Byte) (acc : Addr) : List Byte → Option (Addr × List Byte)
  | [] => none
  | ch :: s =>
    if ch = stop then some (acc, s)
    else hexUntil stop (acc <<< 4 ||| BitVec.ofNat 32 (fromhex ch.toInt)) s

def hexUpTo (acc : Addr) : Nat → List Byte → Option Addr
  | 0, _ => some acc
  | _ + 1, [] => none
  | k + 1, ch :: s =>
    if ch = 0 then some acc
    else hexUpTo (acc <<< 4 ||| BitVec.ofNat 32 (fromhex ch.toInt)) k s

/-- `decode_m_packet`: address and length. -/
def decodemPacket (s : List Byte) : Option (Addr × Addr) :=
  match hexUntil 0x2c 0 s with
  | none => none
  | some (addr, s) => (hexUpTo 0 4 s).map (addr, ·)

/-- `decode_M_packet`: address, length, and the digits that go to `mem_buf`. -/
def decodeMPacket (s : List Byte) : Option (Addr × Addr × List Byte) :=
  match hexUntil 0x2c 0 s with
  | none => none
  | some (addr, s) =>
    match hexUntil 0x3a 0 s with
    | none => none
    | some (len, s) => some (addr, len, s)

def Env.isInRoRegion (env : Env) (addr len : Addr) : Bool :=
  env.roRegions.any fun r => decide (r.1 ≤ addr) && decide (addr + len ≤ r.2)

/-- The reads of an `m` packet: how many positions of `mem_buf` are written, and the bytes
there unless the read fails. -/
def Env.readMemory (env : Env) (addr len : Addr) : Nat × Option (List Byte) :=
  if env.ice.tpsStatus = .focusing ∧ env.isInRoRegion addr len = false then
    match env.ice.traceRead addr len with
    | none => (0, none)
    | some bytes => (bytes.length, some (bytes.map (·.getD env.junk)))
  else
    let r := env.target.simRead addr len.toInt
    (r.1.length, if r.2 = -1 then none else some r.1)

/-- What handling a packet writes, and memory from `own_buf` on after it. -/
abbrev Handled := List Write × Option (List Byte)

/-- A text is put at the start of `own_buf`. -/
def answer (own text : List Byte) : Handled :=
  (upTo .ownBuf (text.length + 1), some (text ++ 0 :: own.drop (text.length + 1)))

def charAt (own : List Byte) (i : Nat) : Char := Char.ofNat (own.getD i 0).toNat

/-- The frame number of a `QTFrame` packet, from a position of `own_buf`. -/
def frameNumberAt (own : List Byte) (i : Nat) : Option Addr :=
  (hexUntil 0 0 (own.drop i)).map (·.1)

/-- `decode_Frame_packet`; some forms leave `own_buf` as it is. -/
def decodeFramePacket (env : Env) (own : List Byte) : Handled :=
  match charAt own 8 with
  | 'p' | 'r' | 'o' => ([], some own)
  | 't' =>
    match frameNumberAt own 12 with
    | none => ([], none)
    | some tracepointNumber =>
      match (env.ice.selectFrameBufferByTpn tracepointNumber).1 with
      | some frameNumber => answer own (frameText frameNumber tracepointNumber)
      | none => answer own noFrameText
  | _ =>
    match frameNumberAt own 8 with
    | none => ([], none)
    | some frameNumber =>
      if frameNumber = 0xFFFFFFFF then answer own okText
      else
        match (env.ice.selectFrameBufferByFn frameNumber).1 with
        | some tracepointNumber => answer own (frameText frameNumber tracepointNumber)
        | none => answer own noFrameText

/-- `decode_Q_packet`; what it does not know is answered with an empty packet. -/
def decodeQPacket (env : Env) (own : List Byte) : Handled :=
  if charAt own 1 ≠ 'T' then answer own []
  else
    match charAt own 2 with
    | 'i' | 'D' | 'r' => answer own okText
    | 'S' =>
      if charAt own 4 = 'a' ∨ charAt own 4 = 'o' then answer own okText else answer own []
    | 'F' => decodeFramePacket env own
    | _ => answer own []

/-- The `switch` of `sim_debug`. -/
def dispatch (env : Env) (own : List Byte) : Handled :=
  match charAt own 0 with
  | 'd' => ([], some own)
  | '?' => answer own (resumeText env 0x53 5)
  | 'g' => answer own (convertIntToAscii env.registers)
  | 'G' => answer own okText
  | 'm' =>
    match decodemPacket (own.drop 1) with
    | none => ([], none)
    | some (addr, len) =>
      let r := env.readMemory addr len
      let a := match r.2 with
        | some bytes => answer own (convertIntToAscii bytes)
        | none => answer own ennText
      (upTo .memBuf r.1 ++ a.1, a.2)
  | 'M' =>
    match decodeMPacket (own.drop 1) with
    | none => ([], none)
    | some (addr, len, digits) =>
      if digits.length < 2 * len.toNat then (upTo .memBuf (digits.length / 2), none)
      else
        let a := answer own (if env.simWrite addr len then okText else ennText)
        (upTo .memBuf len.toNat ++ a.1, a.2)
  | 'Q' => decodeQPacket env own
  | 'c' | 's' => answer own (resumeText env env.status env.signal)
  | 'z' | 'Z' => answer own (if env.breakpoint (own.drop 1) then okText else ennText)
  | _ => answer own []

def cstring (own : List Byte) : List Byte := own.takeWhile (· ≠ 0)

/-- `putpkt`: the frame and the zero after it go to `buf2`. -/
def putpktWrites (buf : List Byte) : List Write := upTo .buf2 ((frameOf buf).length + 1)

/-- What a packet's handling writes, and then `putpkt`. -/
def finish (h : Handled) : List Write :=
  h.1 ++ (h.2.map fun own => putpktWrites (cstring own)).getD []

/-- Memory from `own_buf` on after `getpkt`. -/
def received (own : List Byte) (r : Received) : List Byte :=
  r.written.foldl (fun m w => m.set w.1 w.2) own

/-- One turn of the loop on the input `s`: a packet is read, handled and answered. An empty
payload ends the loop. -/
def turn (env : Env) (own s : List Byte) : Handled :=
  let r := getpkt s
  let own := received own r
  let h : Handled := match r.packet with
    | some (_ :: _, _) => (finish (dispatch env own), (dispatch env own).2)
    | _ => ([], none)
  (r.positions.map (.ownBuf, ·) ++ h.1, h.2)

/-- Turns of the loop, each on the input that comes in and with the target as it is then. -/
def session (own : List Byte) : List (Env × List Byte) → List Write
  | [] => []
  | (env, s) :: turns =>
    let r := turn env own s
    r.1 ++ (r.2.map fun own => session own turns).getD []

end SkyEye.Gdb
