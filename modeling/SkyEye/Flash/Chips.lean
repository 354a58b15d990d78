import SkyEye.Memory.Banks

/-!
# Flash chips behind the bus

The command cycles of `dev_flash_am29.c` and `dev_flash_sst39lvf160.c`, the loops over the
devices of `flash.c` and `io.c`, and `bus_read` and `bus_write`. A handler of a chip calls the
bus again, which is a parameter of it; `access` ties the knot with a bound on the nesting of the
calls.
-/

namespace SkyEye.Flash

/-! ## Command cycles -/

/-- `struct flash_am29_bus` -/
structure Cycle where
  addr : ARMword
  data : ARMword
  deriving DecidableEq

/-- The cycles of a command: `bcnt`, `n_bbus` and `bbus`, and the same of words and of the SST39. -/
structure Cycles where
  cnt : Nat
  n : Nat
  bus : Nat → Cycle

namespace Cycles

variable (c : Cycles)

/-- After `reset:` -/
def reset : Cycles := ⟨0, 0, fun _ => ⟨0, 0⟩⟩

/-- `CMD_CHECK` -/
def check (n : Nat) (o v : ARMword) : Bool := (c.bus n).addr == o && (c.bus n).data == v

/-- The commands of three cycles with the last value `v`; `a` and `b` are the unlock addresses. -/
def command (a b v : ARMword) : Bool :=
  c.cnt == 3 && c.check 0 a 0xaa && c.check 1 b 0x55 && c.check 2 a v

/-- `CMD_ERASE` -/
def erase (a b : ARMword) : Bool :=
  c.cnt == 5 && c.check 0 a 0xaa && c.check 1 b 0x55 && c.check 2 a 0x80 && c.check 3 a 0xaa &&
    c.check 4 b 0x55

/-- `CMD_BYTE_UNLOCK_BYPASS_PROGRAM_RESET` -/
def bypassReset : Bool :=
  (c.cnt == 2 && (c.bus 0).data == 0xa0) || (c.bus 0).data == 0x90

/-- `CMD_QUERY_EXIT` -/
def queryExit : Bool := (c.cnt == 1 && (c.bus 0).data == 0xf0) || c.command 0x5555 0x2aaa 0xf0

/-- The next cycle is kept. -/
def push (addr data : ARMword) : Cycles :=
  { cnt := c.n + 1, n := c.n + 1, bus := Function.update c.bus c.n ⟨addr, data⟩ }

/-- A read ends the sequence of writes. -/
def afterRead : Cycles := { c with n := 0 }

end Cycles

/-! ## Chips -/

/-- `struct flash_am29_io`; a chip has one of the two `autoselect` functions. -/
structure Am29 where
  byte : Cycles
  half : Cycles
  query : Option (List ARMword)
  bautoselect : Option (ARMword → ARMword)
  wautoselect : Option (ARMword → ARMword)
  chipSize : ARMword
  sectorSize : ARMword

/-- `struct flash_sst39lvf160_io`; `lf` tells the two types apart. -/
structure Sst39 where
  cycles : Cycles
  lf : Bool

/-- A device of the machine; `D` is the state of those that are no such chips. -/
inductive Chip (D : Type) where
  | am29 (c : Am29)
  | sst39 (c : Sst39)
  | other (d : D)

/-- `struct device_desc` -/
structure Device (D : Type) where
  base : ARMword
  size : ARMword
  chip : Chip D

/-- `bank_read` and `bank_write` of a bank. -/
inductive Routine where
  | mem
  | io
  | flash
  | warn
  deriving DecidableEq

/-- The banks with their routines, the devices and the machine. -/
structure Sys (D : Type) where
  banks : Banks
  routine : Nat → Routine × Routine
  devices : List (Device D)
  mach : D

/-- The other devices and `mach_io_read_` and `mach_io_write_`. A device without the handler, or
whose handler returns `ADDR_NOHIT`, is as it was. `uninit` is in `data` of `flash.c`. -/
structure Around (D : Type) where
  read : DataType → D → ARMword → Option (ARMword × D)
  write : DataType → D → ARMword → ARMword → Option D
  machRead : DataType → D → ARMword → ARMword × D
  machWrite : DataType → D → ARMword → ARMword → D
  uninit : ARMword

/-- `bus_read`, with what `*value` holds before, and `bus_write`; none where they do not return
within the bound on the nesting. -/
structure Bus (D : Type) where
  read : DataType → ARMword → ARMword → Sys D → Option (ARMword × Sys D)
  write : DataType → ARMword → ARMword → Sys D → Option (Sys D)

variable {D : Type}

/-- The range test of the loops; a device of size 0 is always asked. -/
def Device.covers (d : Device D) (addr : ARMword) : Bool :=
  d.size == 0 || (d.base ≤ addr && addr < d.base + d.size)

/-- `io->…` of the device `i`. -/
def Sys.setChip (s : Sys D) (i : Nat) (chip : Chip D) : Sys D :=
  { s with devices := s.devices.modify i fun d => { d with chip := chip } }

/-- A change of the chip as it is now. -/
def Sys.modifyChip (s : Sys D) (i : Nat) (f : Chip D → Chip D) : Sys D :=
  { s with devices := s.devices.modify i fun d => { d with chip := f d.chip } }

/-! ## Reads -/

/-- The cycles of the bytes or of the halfwords of an Am29, and its constants: the unlock
addresses, the query address, and the shift of an address into an offset. -/
def Am29.cycles (c : Am29) : DataType → Cycles
  | .byte => c.byte
  | _ => c.half
def Am29.autoselect (c : Am29) : DataType → Option (ARMword → ARMword)
  | .byte => c.bautoselect
  | _ => c.wautoselect
def unlock : DataType → ARMword × ARMword
  | .byte => (0xaaa, 0x555)
  | _ => (0x555, 0x2aa)
def queryAddr : DataType → ARMword
  | .byte => 0xaa
  | _ => 0x55
def toOffset : DataType → ARMword → ARMword
  | .byte, d => d
  | _, d => d >>> 1
def toQuery : DataType → ARMword → Nat
  | .byte, offset => (offset >>> 1).toNat
  | _, offset => offset.toNat

def Chip.setCycles (datatype : DataType) (f : Cycles → Cycles) : Chip D → Chip D
  | .am29 c =>
    match datatype with
    | .byte => .am29 { c with byte := f c.byte }
    | _ => .am29 { c with half := f c.half }
  | .sst39 c => .sst39 { c with cycles := f c.cycles }
  | .other d => .other d

/-- What `flash_am29_read_byte` and `_halfword` find in `*data` before they read the array. -/
def Am29.identify (c : Am29) (datatype : DataType) (offset data : ARMword) : ARMword :=
  match c.autoselect datatype with
  | none => data
  | some autoselect =>
    let k := c.cycles datatype
    if k.cnt = 0 then data
    else
      let data :=
        match c.query with
        | some query =>
          if k.cnt == 1 && k.check 0 (queryAddr datatype) 0x98 then
            query.getD (toQuery datatype offset) 0
          else data
        | none => data
      if k.command (unlock datatype).1 (unlock datatype).2 0x90 then autoselect offset else data

/-- The CFI query of the SST39, from offset 0x10 on. -/
def Sst39.cfi (c : Sst39) : List ARMword :=
  [0x51, 0x52, 0x59, 0x1, 0x7, 0, 0, 0, 0, 0, 0, if c.lf then 0x30 else 0x27, 0x36, 0, 0, 0x4, 0,
    0x4, 0x6, 0x1, 0, 0x1, 0x1, 0x15, 0x1, 0, 0, 0, 0x2, 0xff, 0x1, 0x10, 0, 0x1f, 0, 0, 0x1]

/-- The same of `flash_sst39lvf160_read_halfword`. -/
def Sst39.identify (c : Sst39) (offset data : ARMword) : ARMword :=
  let data :=
    if c.cycles.command 0x5555 0x2aaa 0x90 then
      if offset = 0 then 0xbf else if offset = 1 then 0x2782 else 0
    else data
  if c.cycles.command 0x5555 0x2aaa 0x98 then
    if offset.toNat < 0x10 then 0 else c.cfi.getD (offset.toNat - 0x10) 0
  else data

/-- The chip's handler reads the array. -/
def Chip.readsArray : Chip D → DataType → Bool
  | .am29 _, .word => true
  | .am29 c, datatype => (c.cycles datatype).cnt == 0
  | .sst39 c, .halfword => c.cycles.cnt == 0
  | .sst39 _, _ => true
  | .other _, _ => false

/-- What the handler finds in `*data` before that; `d` is the address from the base up. -/
def Chip.identify (chip : Chip D) (datatype : DataType) (d data : ARMword) : ARMword :=
  match chip, datatype with
  | _, .word => data
  | .am29 c, datatype => c.identify datatype (toOffset datatype d) data
  | .sst39 c, .halfword => c.identify (d >>> 1) data
  | _, _ => data

/-- `dev->read_byte`, `read_halfword` and `read_word` of the device `i`; none inside is
`ADDR_NOHIT`. The word handlers of the chips, and the byte handler of the SST39, have no state. -/
def Device.read (around : Around D) (bus : Bus D) (datatype : DataType) (addr data : ARMword)
    (i : Nat) (dev : Device D) (s : Sys D) : Option (Option ARMword × Sys D) :=
  match dev.chip with
  | .other d =>
    match around.read datatype d addr with
    | some (v, d) => some (some v, s.setChip i (.other d))
    | none => some (none, s)
  | chip =>
    let data := chip.identify datatype (addr - dev.base) data
    let r := if chip.readsArray datatype then bus.read datatype addr data s else some (data, s)
    r.map fun (v, s) =>
      match datatype, chip with
      | .word, _ => (some v, s)
      | .byte, .sst39 _ => (some v, s)
      | datatype, _ => (some v, s.modifyChip i (Chip.setCycles datatype Cycles.afterRead))

/-! ## Writes -/

/-- The loop of an erasure: `n` words from `addr` on. -/
def eraseLoop (bus : Bus D) (addr : ARMword) : Nat → Sys D → Option (Sys D)
  | 0, s => some s
  | n + 1, s => (bus.write .word addr 0xffffffff s).bind (eraseLoop bus (addr + 4) n)

/-- The erasure from `start` to `stop` of a chip that ends at `limit`; an address that wraps
makes it go on for ever. -/
def eraseRange (bus : Bus D) (start stop limit : ARMword) (s : Sys D) : Option (Sys D) :=
  if stop > start ∧ stop ≤ limit then
    let n := ((stop - start).toNat + 3) / 4
    if start.toNat + 4 * n < 2 ^ 32 then eraseLoop bus start n s else none
  else some s

/-- The handler is to program. -/
def Chip.programs : Chip D → DataType → Bool
  | .am29 _, .word => false
  | .am29 c, datatype =>
    (c.cycles datatype).command (unlock datatype).1 (unlock datatype).2 0xa0
  | .sst39 c, .halfword => c.cycles.command 0x5555 0x2aaa 0xa0
  | _, _ => false

/-- It takes the write: there is a function for the width, and no Suspend or Resume. -/
def Chip.takesWrite (around : Around D) (chip : Chip D) (datatype : DataType)
    (addr data : ARMword) : Bool :=
  match chip, datatype with
  | .am29 _, .word => false
  | .am29 c, datatype =>
    (c.autoselect datatype).isSome && !((c.cycles datatype).n == 0 && (data == 0xb0 || data == 0x30))
  | .sst39 _, .halfword => true
  | .sst39 _, _ => false
  | .other d, datatype => (around.write datatype d addr data).isSome

/-- `flash_am29_write_byte` and `_halfword` where they take the write. -/
def Am29.write (c : Am29) (bus : Bus D) (datatype : DataType) (addr data base : ARMword) (i : Nat)
    (s : Sys D) : Option (Sys D) :=
  let k := c.cycles datatype
  let set (f : Cycles → Cycles) (s : Sys D) := s.modifyChip i (Chip.setCycles datatype f)
  let reset := set fun _ => Cycles.reset
  if k.command (unlock datatype).1 (unlock datatype).2 0xa0 then
    (bus.write datatype addr data s).map reset
  else if k.erase (unlock datatype).1 (unlock datatype).2 then
    let limit := base + c.chipSize
    let range :=
      if data = 0x10 then (base, base + c.chipSize)
      else if data = 0x30 then (addr, addr + c.sectorSize)
      else (0, 0)
    (eraseRange bus range.1 range.2 limit s).map reset
  else
    let k' := if k.n < 6 then k.push (toOffset datatype (addr - base)) data else k
    if k.n < 6 ∧ data = 0xf0 then some (reset s)
    else if k'.command (unlock datatype).1 (unlock datatype).2 0x20 || k'.bypassReset then
      some (reset s)
    else some (set (fun _ => k') s)

/-- `flash_sst39lvf160_write_halfword` -/
def Sst39.write (c : Sst39) (bus : Bus D) (addr data base : ARMword) (i : Nat) (s : Sys D) :
    Option (Sys D) :=
  let k := c.cycles
  let set (f : Cycles → Cycles) (s : Sys D) := s.modifyChip i (Chip.setCycles .halfword f)
  let reset := set fun _ => Cycles.reset
  if k.command 0x5555 0x2aaa 0xa0 then (bus.write .halfword addr data s).map reset
  else if k.erase 0x5555 0x2aaa then
    let range :=
      if data = 0x10 then (base, base + 0x200000)
      else if data = 0x30 then (addr, addr + 0x1000)
      else if data = 0x50 then (addr, addr + 0x10000)
      else (0, 0)
    (eraseRange bus range.1 range.2 (base + 0x200000) s).map reset
  else if k.n < 6 then
    let k := k.push ((addr - base) >>> 1) data
    some (if k.queryExit then reset s else set (fun _ => k) s)
  else some s

/-- `dev->write_byte`, `write_halfword` and `write_word` of the device `i`. -/
def Device.write (around : Around D) (bus : Bus D) (datatype : DataType) (addr data : ARMword)
    (i : Nat) (dev : Device D) (s : Sys D) : Option (Option Unit × Sys D) :=
  if dev.chip.takesWrite around datatype addr data then
    match dev.chip with
    | .am29 c => (c.write bus datatype addr data dev.base i s).map (some (), ·)
    | .sst39 c => (c.write bus addr data dev.base i s).map (some (), ·)
    | .other d => some (some (), (around.write datatype d addr data).elim s (s.setChip i <| .other ·))
  else some (none, s)

/-! ## The bus -/

/-- The loops of `flash.c` and `io.c`: the devices are asked in turn. -/
def ask {α : Type} (addr : ARMword) (call : Nat → Device D → Sys D → Option (Option α × Sys D)) :
    List Nat → Sys D → Option (Option α × Sys D)
  | [], s => some (none, s)
  | i :: is, s =>
    match (s.devices[i]?).filter (·.covers addr) with
    | none => ask addr call is s
    | some dev =>
      match call i dev s with
      | none => none
      | some (some a, s) => some (some a, s)
      | some (none, s) => ask addr call is s

/-- `skyeye_config.mach->devices` -/
def Sys.indices (s : Sys D) : List Nat := List.range s.devices.length

/-- `bus_read` and `bus_write`, with a bus for the handlers. -/
def Bus.next (around : Around D) (bus : Bus D) : Bus D where
  read datatype addr old s :=
    let mbp := s.banks.bankPtr addr
    let s := { s with banks := { s.banks with mbp := mbp } }
    let asked := ask addr (Device.read around bus datatype addr around.uninit) s.indices s
    match mbp.map fun b => (s.routine b).1 with
    | none => some (old, s)
    | some .mem =>
      let (v, banks) := s.banks.memRead datatype addr
      some (v.getD old, { s with banks := banks })
    | some .flash => asked.map fun (v, s) => (v.elim around.uninit (· &&& laneMask datatype), s)
    | some .io => asked.map fun (v, s) =>
      match v with
      | some v => (v &&& laneMask datatype, s)
      | none =>
        let (v, mach) := around.machRead datatype s.mach addr
        (v, { s with mach := mach })
    | some .warn => some (old, s)
  write datatype addr data s :=
    let mbp := s.banks.bankPtr addr
    let s := { s with banks := { s.banks with mbp := mbp } }
    let asked := ask addr (Device.write around bus datatype addr (data &&& laneMask datatype))
      s.indices s
    match mbp.map fun b => (s.routine b).2 with
    | none => some s
    | some .mem => some { s with banks := s.banks.memWrite datatype addr data }
    | some .flash => asked.map (·.2)
    | some .io => asked.map fun (a, s) =>
      match a with
      | some () => s
      | none => { s with mach := around.machWrite datatype s.mach addr data }
    | some .warn => some s

/-- The bus where calls nest at most `fuel` deep. -/
def access (around : Around D) : Nat → Bus D
  | 0 => ⟨fun _ _ _ _ => none, fun _ _ _ _ => none⟩
  | fuel + 1 => (access around fuel).next around

end SkyEye.Flash
