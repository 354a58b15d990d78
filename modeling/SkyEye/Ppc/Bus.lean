import SkyEye.Ppc.LoadStore

/-!
# The memory of the board

What `ppc_io.c` finds at a physical address: the devices, the boot ROM, which a write never
reaches, and two arrays of RAM, big-endian.
-/

namespace SkyEye.Ppc

open Sparc (Uint32)

/-- `init_ram` and `ddr_ram` -/
inductive Ram where
  | init
  | ddr
  deriving DecidableEq, Repr

/-- A place in RAM: the array and the index. -/
abbrev Place := Ram × Nat

/-- The RAM, the register that tells where CCSR is, and everything else. -/
structure Bus (D : Type) where
  ram : Ram → Nat → BitVec 8
  ccsr : Uint32
  dev : D

/-- The devices and the boot ROM. `ioRead` and `ioWrite` are `mach_io_read_` and
`mach_io_write_`, at an offset into CCSR, which a write can move; the other functions are those
of `Host`. -/
structure Board (D : Type) where
  bootRom : D → Nat → Nat → Uint32
  ioRead : D → Nat → Uint32 → Option (Uint32 × D)
  ioWrite : D → Uint32 → Nat → Uint32 → Uint32 → (Uint32 × D) × Bool
  bptr : D → Uint32
  behind : D → TlbEntry
  writeDword : D → Uint32 → BitVec 64 → Option D
  writeAcross : D → Uint32 → Uint32 → Nat → BitVec 64 → D
  singleToDouble : Uint32 → BitVec 64
  doubleToSingle : BitVec 64 → Uint32
  uninit : Uint32

/-! ## Addresses -/

/-- `GET_CCSR_BASE` -/
def ccsrBase (reg : Uint32) : Uint32 := ((reg >>> 8) &&& 0xFFF) <<< 20

def inCcsr (reg p : Uint32) : Bool := ccsrBase reg ≤ p && p < ccsrBase reg + 0x100000

abbrev bootRomStart : Uint32 := 0xFF800000
abbrev bootRomSize : Uint32 := 0x800000

/-- The test of a read; that of a write has no `- 1` and its bound wraps to 0. -/
def inBootRomRead (p : Uint32) : Bool := bootRomStart ≤ p && p < bootRomStart - 1 + bootRomSize
def inBootRomWrite (p : Uint32) : Bool := bootRomStart ≤ p && p < bootRomStart + bootRomSize

/-- The place of an address that is in neither. -/
def ramPlace (p : Uint32) : Option Place :=
  if 0xE4010000 ≤ p.toNat ∧ p.toNat < 0xE4010000 + 0x4000 then
    some (.init, p.toNat - 0xE4010000)
  else if p.toNat < 0x4000000 then some (.ddr, p.toNat)
  else none

/-! ## RAM -/

namespace Bus

variable {D : Type} (bus : Bus D)

/-- The number of `len` bytes from a place up. -/
def value (p : Place) : Nat → Uint32
  | 0 => 0
  | len + 1 => (value p len <<< 8) ||| (bus.ram p.1 (p.2 + len)).setWidth 32

/-- The RAM after a store of `len` bytes. -/
def store (p : Place) (len : Nat) (data : Uint32) : Bus D :=
  { bus with
    ram := fun r i =>
      if r = p.1 ∧ p.2 ≤ i ∧ i < p.2 + len then
        (data >>> (8 * (len - 1 - (i - p.2)))).setWidth 8
      else bus.ram r i }

end Bus

/-- The places of a store of `len` bytes and of the word at `w` meet. -/
def overlaps (p : Place) (len : Nat) (w : Place) : Bool :=
  p.1 = w.1 && p.2 < w.2 + 4 && w.2 < p.2 + len

variable {D : Type}

theorem Bus.value_congr {bus bus' : Bus D} {p : Place} : ∀ {len : Nat},
    (∀ i < len, bus'.ram p.1 (p.2 + i) = bus.ram p.1 (p.2 + i)) → bus'.value p len = bus.value p len
  | 0, _ => rfl
  | len + 1, h => by
    rw [value, value, value_congr fun i hi => h i (Nat.lt_succ_of_lt hi),
      h len (Nat.lt_succ_self len)]

/-- A store elsewhere leaves a word. -/
theorem Bus.value_store {bus : Bus D} {p w : Place} {len : Nat} (data : Uint32)
    (h : overlaps p len w = false) : (bus.store p len data).value w 4 = bus.value w 4 := by
  refine Bus.value_congr fun i hi => if_neg ?_
  rintro ⟨hr, hlo, hup⟩
  simp only [overlaps, Bool.and_eq_false_iff, decide_eq_false_iff_not] at h
  rcases h with (h | h) | h
  · exact h hr.symm
  · omega
  · omega

/-! ## The accesses -/

namespace Board

variable (b : Board D)

/-- `ppc_read_effective_byte`, `_half` and `_word` behind the translation. -/
def read (bus : Bus D) (len : Nat) (p : Uint32) : Option (Option Uint32 × Bus D) :=
  if inCcsr bus.ccsr p then
    (b.ioRead bus.dev len (p - ccsrBase bus.ccsr)).map fun (v, dev) =>
      (some v, { bus with dev := dev })
  else if inBootRomRead p then some (some (b.bootRom bus.dev len (p - bootRomStart).toNat), bus)
  else
    match ramPlace p with
    | some place => some (some (bus.value place len), bus)
    | none => if len = 1 then none else some (none, bus)

/-- `ppc_write_effective_byte`, `_half` and `_word` behind the translation. -/
def write (bus : Bus D) (len : Nat) (p data : Uint32) : Bus D × Bool :=
  if inCcsr bus.ccsr p then
    let ((ccsr, dev), interrupt) := b.ioWrite bus.dev bus.ccsr len (p - ccsrBase bus.ccsr) data
    ({ bus with ccsr := ccsr, dev := dev }, interrupt)
  else if inBootRomWrite p then (bus, false)
  else
    match ramPlace p with
    | some place => (bus.store place len data, false)
    | none => (bus, false)

/-- What the instructions see. -/
def host : Host (Bus D) where
  bptr bus := b.bptr bus.dev
  behind bus := b.behind bus.dev
  read := b.read
  write := b.write
  writeDword bus p data := (b.writeDword bus.dev p data).map fun dev => { bus with dev := dev }
  writeAcross bus p q offset data :=
    { bus with dev := b.writeAcross bus.dev p q offset data }
  bootRomSize := bootRomSize
  singleToDouble := b.singleToDouble
  doubleToSingle := b.doubleToSingle
  uninit := b.uninit

theorem host_read : b.host.read = b.read := by rw [host]

theorem host_write : b.host.write = b.write := by rw [host]

end Board

/-- The place in RAM that an access at a physical address gets to. -/
def Bus.placeOf (bus : Bus D) (p : Uint32) : Option Place :=
  if inCcsr bus.ccsr p then none else ramPlace p

/-- The RAM is not where the boot ROM is. -/
theorem inBootRomRead_eq_false {p : Uint32} {place : Place} (h : ramPlace p = some place) :
    inBootRomRead p = false := by
  rw [inBootRomRead, Bool.and_eq_false_iff]
  refine .inl (decide_eq_false ?_)
  intro hle
  have hle : 0xFF800000 ≤ p.toNat := hle
  unfold ramPlace at h
  rw [if_neg (by omega), if_neg (by omega)] at h
  cases h

theorem Bus.placeOf_eq_some {bus : Bus D} {p : Uint32} {place : Place}
    (h : bus.placeOf p = some place) : inCcsr bus.ccsr p = false ∧ ramPlace p = some place := by
  unfold Bus.placeOf at h
  split at h
  · cases h
  · exact ⟨Bool.not_eq_true _ ▸ ‹_›, h⟩

namespace Board

variable {b : Board D} {bus : Bus D} {p data : Uint32} {len : Nat} {place : Place}

/-- The bound of the boot ROM of a write is 0. -/
theorem inBootRomWrite_eq_false (p : Uint32) : inBootRomWrite p = false := by
  have h0 : bootRomStart + bootRomSize = 0 := by decide
  have hlt : ¬p < (0 : Uint32) := Nat.not_lt_zero _
  rw [inBootRomWrite, h0, decide_eq_false hlt, Bool.and_false]

theorem read_ram (h : bus.placeOf p = some place) :
    b.read bus len p = some (some (bus.value place len), bus) := by
  obtain ⟨hc, hp⟩ := Bus.placeOf_eq_some h
  rw [read, hc, if_neg Bool.false_ne_true, inBootRomRead_eq_false hp, if_neg Bool.false_ne_true,
    hp]

/-- A read leaves the RAM and the place of CCSR. -/
theorem read_keeps {v : Option Uint32} {bus' : Bus D} (h : b.read bus len p = some (v, bus')) :
    bus'.ram = bus.ram ∧ bus'.ccsr = bus.ccsr := by
  unfold read at h
  split at h
  · obtain ⟨⟨v', dev⟩, -, h⟩ := Option.map_eq_some_iff.mp h
    cases h
    exact ⟨rfl, rfl⟩
  split at h
  · cases h
    exact ⟨rfl, rfl⟩
  split at h
  · cases h
    exact ⟨rfl, rfl⟩
  split at h
  · cases h
  · cases h
    exact ⟨rfl, rfl⟩

theorem write_ram (h : bus.placeOf p = some place) :
    b.write bus len p data = (bus.store place len data, false) := by
  obtain ⟨hc, hp⟩ := Bus.placeOf_eq_some h
  rw [write, hc, if_neg Bool.false_ne_true, inBootRomWrite_eq_false, if_neg Bool.false_ne_true, hp]

/-- A write elsewhere leaves the RAM. -/
theorem write_elsewhere (h : bus.placeOf p = none) :
    (b.write bus len p data).1.ram = bus.ram := by
  unfold Bus.placeOf at h
  unfold write
  split
  · rfl
  · rw [if_neg ‹_›] at h
    rw [inBootRomWrite_eq_false, if_neg Bool.false_ne_true, h]

end Board

end SkyEye.Ppc
