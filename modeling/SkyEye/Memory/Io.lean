import SkyEye.Lib.FirstAnswer
import Mathlib.Data.BitVec
import SkyEye.Lib.Word

/-!
# I/O dispatch

`io_read` and `io_write` of `memory/io.c`: the devices of the machine are tried in the
order of the table, and an access that none of them takes goes to the machine's own
handler. What a handler changes is the state; the value that a read handler fills in is
part of its answer.
-/

namespace SkyEye.Io

open FirstAnswer

def addrNohit : Int := 0

/-- The access sizes. -/
inductive Width where
  | byte
  | halfword
  | word
  deriving DecidableEq

def Width.bits : Width → Nat
  | byte => 8
  | halfword => 16
  | word => 32

/-- A read handler of a device: its return value and the value it fills in. -/
abbrev ReadHandler (σ : Type) (w : Nat) := BitVec 32 → σ → Int × BitVec w × σ

abbrev WriteHandler (σ : Type) (w : Nat) := BitVec 32 → BitVec w → σ → Int × σ

/-- `struct device_desc`; a handler may be `NULL`. -/
structure DeviceDesc (σ : Type) where
  base : BitVec 32
  size : BitVec 32
  readByte : Option (ReadHandler σ 8)
  readHalfword : Option (ReadHandler σ 16)
  readWord : Option (ReadHandler σ 32)
  writeByte : Option (WriteHandler σ 8)
  writeHalfword : Option (WriteHandler σ 16)
  writeWord : Option (WriteHandler σ 32)

/-- `machine_config_t`: the device table and the machine's own handlers. -/
structure MachineConfig (σ : Type) where
  devices : List (DeviceDesc σ)
  machIoReadByte : BitVec 32 → σ → BitVec 32 × σ
  machIoReadHalfword : BitVec 32 → σ → BitVec 32 × σ
  machIoReadWord : BitVec 32 → σ → BitVec 32 × σ
  machIoWriteByte : BitVec 32 → BitVec 32 → σ → σ
  machIoWriteHalfword : BitVec 32 → BitVec 32 → σ → σ
  machIoWriteWord : BitVec 32 → BitVec 32 → σ → σ

variable {σ : Type} {R : Type}

/-- A device takes the access unless its handler answers `ADDR_NOHIT`. -/
def taken (answer : Int × R × σ) : Option R × σ :=
  (if answer.1 ≠ addrNohit then some answer.2.1 else none, answer.2.2)

/-- The test of the loops; a device of size 0 is asked about every address. -/
def DeviceDesc.asks (dev : DeviceDesc σ) (addr : BitVec 32) : Bool :=
  dev.size == 0 || (decide (addr ≥ dev.base) && decide (addr < dev.base + dev.size))

/-- The body of the loops, for the handler of the size and direction. -/
def tryDevice (call : DeviceDesc σ → Option (σ → Int × R × σ)) (addr : BitVec 32)
    (dev : DeviceDesc σ) (s : σ) : Option R × σ :=
  match call dev with
  | none => (none, s)
  | some f => if dev.asks addr then taken (f s) else (none, s)

/-- The call of a read handler. -/
def callRead {w : Nat} (handler : DeviceDesc σ → Option (ReadHandler σ w)) (addr : BitVec 32)
    (dev : DeviceDesc σ) : Option (σ → Int × BitVec w × σ) :=
  (handler dev).map (· addr)

/-- The call of a write handler, which gets the low bits of the data. -/
def callWrite {w : Nat} (handler : DeviceDesc σ → Option (WriteHandler σ w))
    (addr data : BitVec 32) (dev : DeviceDesc σ) : Option (σ → Int × Unit × σ) :=
  (handler dev).map fun f s =>
    let (answer, s') := f addr (data.setWidth w) s
    (answer, (), s')

/-- One of the `io_read_*`. -/
def readWith {w : Nat} (handler : DeviceDesc σ → Option (ReadHandler σ w))
    (mach : BitVec 32 → σ → BitVec 32 × σ) (devices : List (DeviceDesc σ)) (addr : BitVec 32)
    (s : σ) : BitVec 32 × σ :=
  match firstAnswer (tryDevice (callRead handler addr) addr) devices s with
  | (some data, s') => (data.setWidth 32, s')
  | (none, s') => mach addr s'

/-- One of the `io_write_*`. -/
def writeWith {w : Nat} (handler : DeviceDesc σ → Option (WriteHandler σ w))
    (mach : BitVec 32 → BitVec 32 → σ → σ) (devices : List (DeviceDesc σ))
    (addr data : BitVec 32) (s : σ) : σ :=
  match firstAnswer (tryDevice (callWrite handler addr data) addr) devices s with
  | (some _, s') => s'
  | (none, s') => mach addr data s'

namespace MachineConfig

variable (m : MachineConfig σ)

def ioReadByte := readWith DeviceDesc.readByte m.machIoReadByte m.devices

def ioReadHalfword := readWith DeviceDesc.readHalfword m.machIoReadHalfword m.devices

def ioReadWord := readWith DeviceDesc.readWord m.machIoReadWord m.devices

def ioWriteByte := writeWith DeviceDesc.writeByte m.machIoWriteByte m.devices

def ioWriteHalfword := writeWith DeviceDesc.writeHalfword m.machIoWriteHalfword m.devices

def ioWriteWord := writeWith DeviceDesc.writeWord m.machIoWriteWord m.devices

/-- `io_read`: none for the answer -1, which leaves `*value` as it is. -/
def ioRead (size : Int) (addr : BitVec 32) (s : σ) : Option (BitVec 32) × σ :=
  match size with
  | 8 => (m.ioReadByte addr s).map some id
  | 16 => (m.ioReadHalfword addr s).map some id
  | 32 => (m.ioReadWord addr s).map some id
  | _ => (none, s)

/-- `io_write`: the result code and the state. -/
def ioWrite (size : Int) (addr value : BitVec 32) (s : σ) : Int × σ :=
  match size with
  | 8 => (0, m.ioWriteByte addr value s)
  | 16 => (0, m.ioWriteHalfword addr value s)
  | 32 => (0, m.ioWriteWord addr value s)
  | _ => (-1, s)

end MachineConfig

/-! ## The device that an access reaches -/

/-- The address is in the range of the device, without wrapping around. -/
def DeviceDesc.InRange (addr : BitVec 32) (dev : DeviceDesc σ) : Prop :=
  dev.base.toNat ≤ addr.toNat ∧ addr.toNat < dev.base.toNat + dev.size.toNat

instance (addr : BitVec 32) (dev : DeviceDesc σ) : Decidable (dev.InRange addr) :=
  inferInstanceAs (Decidable (_ ∧ _))

/-- The address is one for the device: a device of size 0 has no range and sees all. -/
def DeviceDesc.Covers (addr : BitVec 32) (dev : DeviceDesc σ) : Prop :=
  dev.size = 0 ∨ dev.InRange addr

instance (addr : BitVec 32) (dev : DeviceDesc σ) : Decidable (dev.Covers addr) :=
  inferInstanceAs (Decidable (_ ∨ _))

/-- What a device does with an access: if it has a handler and `covers` the address, the
handler is called. -/
def offer (covers : DeviceDesc σ → Prop) [DecidablePred covers]
    (call : DeviceDesc σ → Option (σ → Int × R × σ)) (dev : DeviceDesc σ) (s : σ) :
    Option R × σ :=
  match call dev with
  | none => (none, s)
  | some f => if covers dev then taken (f s) else (none, s)

section Specification

variable (covers : DeviceDesc σ → Prop) [DecidablePred covers]
  (call : DeviceDesc σ → Option (σ → Int × R × σ)) (devices : List (DeviceDesc σ)) (s : σ)

/-- No device takes the access when they are asked in order. -/
def NoneTakes : Prop := Declines (offer covers call) devices s

/-- `f` is the handler of the first device that takes the access, and `s'` the state it
meets. -/
def FirstTaker (f : σ → Int × R × σ) (s' : σ) : Prop :=
  ∃ pre dev post, devices = pre ++ dev :: post ∧ NoneTakes covers call pre s ∧
    s' = after (offer covers call) pre s ∧ covers dev ∧ call dev = some f ∧
    (f s').1 ≠ addrNohit

variable {covers call devices s}

theorem taken_of_taker {f : σ → Int × R × σ} (h : (f s).1 ≠ addrNohit) :
    taken (f s) = (some (f s).2.1, (f s).2.2) := by
  rw [taken, if_pos h]

theorem FirstTaker.firstAnswer {f : σ → Int × R × σ} {s' : σ}
    (h : FirstTaker covers call devices s f s') :
    firstAnswer (offer covers call) devices s = (some (f s').2.1, (f s').2.2) := by
  obtain ⟨pre, dev, post, rfl, hpre, rfl, hc, hf, hn⟩ := h
  have hask : offer covers call dev (after (offer covers call) pre s) =
      taken (f (after (offer covers call) pre s)) := by
    simp only [offer, hf, if_pos hc]
  rw [taken_of_taker hn] at hask
  rw [firstAnswer_append hpre (congrArg Prod.fst hask), hask]

/-- An offer that is answered names a handler. -/
theorem offer_eq_some {dev : DeviceDesc σ} {r : R} (h : (offer covers call dev s).1 = some r) :
    ∃ f, covers dev ∧ call dev = some f ∧ (f s).1 ≠ addrNohit := by
  unfold offer at h
  split at h
  · cases h
  · rename_i f hf
    split at h
    · rename_i hc
      refine ⟨f, hc, hf, fun hn => ?_⟩
      simp [taken, hn] at h
    · cases h

theorem exists_firstTaker_iff :
    (∃ f s', FirstTaker covers call devices s f s') ↔ ¬ NoneTakes covers call devices s := by
  constructor
  · rintro ⟨f, s', h⟩ hd
    have he := h.firstAnswer.symm.trans (firstAnswer_of_declines hd)
    cases congrArg Prod.fst he
  · intro h
    obtain ⟨pre, dev, post, r, rfl, hpre, hr⟩ := exists_first h
    obtain ⟨f, hc, hf, hn⟩ := offer_eq_some hr
    exact ⟨f, _, pre, dev, post, rfl, hpre, rfl, hc, hf, hn⟩

end Specification

/-- The test with its sum of 32 bits: a range that reaches the end of the address space is
never hit. -/
theorem DeviceDesc.asks_iff (dev : DeviceDesc σ) (addr : BitVec 32) :
    dev.asks addr ↔
      dev.size = 0 ∨ dev.InRange addr ∧ dev.base.toNat + dev.size.toNat < 2 ^ 32 := by
  have hb := dev.base.isLt
  have hs := dev.size.isLt
  simp only [asks, InRange, Bool.or_eq_true, beq_iff_eq, Bool.and_eq_true, decide_eq_true_eq,
    ge_iff_le, BitVec.le_def, BitVec.lt_def, BitVec.toNat_add]
  refine or_congr_right ⟨fun ⟨hl, hu⟩ => ?_, fun ⟨⟨hl, hu⟩, hend⟩ => ?_⟩
  · have hend : dev.base.toNat + dev.size.toNat < 2 ^ 32 := by
      by_contra hge
      have hmod : (dev.base.toNat + dev.size.toNat) % 2 ^ 32 =
          dev.base.toNat + dev.size.toNat - 2 ^ 32 := by omega
      omega
    rw [Nat.mod_eq_of_lt hend] at hu
    exact ⟨⟨hl, hu⟩, hend⟩
  · rw [Nat.mod_eq_of_lt hend]
    exact ⟨hl, hu⟩

/-- The range of the device ends below the end of the address space. -/
def DeviceDesc.EndsBelow (dev : DeviceDesc σ) : Prop :=
  dev.size ≠ 0 → dev.base.toNat + dev.size.toNat < 2 ^ 32

theorem DeviceDesc.EndsBelow.asks_iff {dev : DeviceDesc σ} (h : dev.EndsBelow)
    (addr : BitVec 32) : dev.asks addr ↔ dev.Covers addr := by
  rw [DeviceDesc.asks_iff]
  by_cases h0 : dev.size = 0
  · simp [Covers, h0]
  · have hend := h h0
    simp only [Covers, h0, false_or, hend, and_true]

theorem tryDevice_eq_offer {call : DeviceDesc σ → Option (σ → Int × R × σ)}
    {dev : DeviceDesc σ} (h : dev.EndsBelow) (addr : BitVec 32) :
    tryDevice call addr dev = offer (DeviceDesc.Covers addr) call dev := by
  funext s
  simp only [tryDevice, offer, h.asks_iff addr]

/-- The loops over the devices. -/
theorem firstAnswer_tryDevice {devices : List (DeviceDesc σ)}
    (hr : ∀ dev ∈ devices, dev.EndsBelow) (call : DeviceDesc σ → Option (σ → Int × R × σ))
    (addr : BitVec 32) (s : σ) :
    firstAnswer (tryDevice call addr) devices s =
      firstAnswer (offer (DeviceDesc.Covers addr) call) devices s :=
  firstAnswer_congr fun dev hdev => tryDevice_eq_offer (hr dev hdev) addr

/-- The read handler of a size. -/
def DeviceDesc.read : (w : Width) → DeviceDesc σ → Option (ReadHandler σ w.bits)
  | .byte => readByte
  | .halfword => readHalfword
  | .word => readWord

/-- The write handler of a size. -/
def DeviceDesc.write : (w : Width) → DeviceDesc σ → Option (WriteHandler σ w.bits)
  | .byte => writeByte
  | .halfword => writeHalfword
  | .word => writeWord

def MachineConfig.machIoRead (m : MachineConfig σ) : Width → BitVec 32 → σ → BitVec 32 × σ
  | .byte => m.machIoReadByte
  | .halfword => m.machIoReadHalfword
  | .word => m.machIoReadWord

def MachineConfig.machIoWrite (m : MachineConfig σ) : Width → BitVec 32 → BitVec 32 → σ → σ
  | .byte => m.machIoWriteByte
  | .halfword => m.machIoWriteHalfword
  | .word => m.machIoWriteWord

section Loops

variable {w : Nat} {devices : List (DeviceDesc σ)} {s s' : σ} {addr data : BitVec 32}

theorem readWith_of_firstTaker {handler : DeviceDesc σ → Option (ReadHandler σ w)}
    {f : σ → Int × BitVec w × σ} (hr : ∀ dev ∈ devices, dev.EndsBelow)
    (mach : BitVec 32 → σ → BitVec 32 × σ)
    (h : FirstTaker (DeviceDesc.Covers addr) (callRead handler addr) devices s
      f s') :
    readWith handler mach devices addr s = ((f s').2.1.setWidth 32, (f s').2.2) := by
  rw [readWith, firstAnswer_tryDevice hr, h.firstAnswer]

theorem readWith_of_noneTakes {handler : DeviceDesc σ → Option (ReadHandler σ w)}
    (hr : ∀ dev ∈ devices, dev.EndsBelow) (mach : BitVec 32 → σ → BitVec 32 × σ)
    (h : NoneTakes (DeviceDesc.Covers addr) (callRead handler addr) devices s) :
    readWith handler mach devices addr s =
      mach addr (after (offer (DeviceDesc.Covers addr) (callRead handler addr)) devices s) := by
  rw [readWith, firstAnswer_tryDevice hr, firstAnswer_of_declines h]

theorem writeWith_of_firstTaker {handler : DeviceDesc σ → Option (WriteHandler σ w)}
    {f : σ → Int × Unit × σ} (hr : ∀ dev ∈ devices, dev.EndsBelow)
    (mach : BitVec 32 → BitVec 32 → σ → σ)
    (h : FirstTaker (DeviceDesc.Covers addr) (callWrite handler addr data) devices s f s') :
    writeWith handler mach devices addr data s = (f s').2.2 := by
  rw [writeWith, firstAnswer_tryDevice hr, h.firstAnswer]

theorem writeWith_of_noneTakes {handler : DeviceDesc σ → Option (WriteHandler σ w)}
    (hr : ∀ dev ∈ devices, dev.EndsBelow) (mach : BitVec 32 → BitVec 32 → σ → σ)
    (h : NoneTakes (DeviceDesc.Covers addr) (callWrite handler addr data) devices s) :
    writeWith handler mach devices addr data s =
      mach addr data
        (after (offer (DeviceDesc.Covers addr) (callWrite handler addr data)) devices s) := by
  rw [writeWith, firstAnswer_tryDevice hr, firstAnswer_of_declines h]

end Loops

/-- The call of the read handler of a size. -/
def readCall (w : Width) (addr : BitVec 32) (dev : DeviceDesc σ) :
    Option (σ → Int × BitVec w.bits × σ) :=
  callRead (DeviceDesc.read w) addr dev

/-- The call of the write handler of a size. -/
def writeCall (w : Width) (addr data : BitVec 32) (dev : DeviceDesc σ) :
    Option (σ → Int × Unit × σ) :=
  callWrite (DeviceDesc.write w) addr data dev

section Dispatch

variable (m : MachineConfig σ) (w : Width) (addr data : BitVec 32) (s : σ)

theorem ioRead_bits :
    m.ioRead w.bits addr s =
      (readWith (DeviceDesc.read w) (m.machIoRead w) m.devices addr s).map some id := by
  cases w <;> rfl

theorem ioWrite_bits :
    m.ioWrite w.bits addr data s =
      (0, writeWith (DeviceDesc.write w) (m.machIoWrite w) m.devices addr data s) := by
  cases w <;> rfl

/-- An access goes to the handler of the first device that covers the address and takes
it, and to the machine's own handler exactly if there is none. -/
theorem io_reaches_first_taker (hr : ∀ dev ∈ m.devices, dev.EndsBelow) :
    let covers := DeviceDesc.Covers (σ := σ) addr
    (∀ f s', FirstTaker covers (readCall w addr) m.devices s f s' →
      m.ioRead w.bits addr s = (some ((f s').2.1.setWidth 32), (f s').2.2)) ∧
    ((∃ f s', FirstTaker covers (readCall w addr) m.devices s f s') ↔
      ¬ NoneTakes covers (readCall w addr) m.devices s) ∧
    (NoneTakes covers (readCall w addr) m.devices s →
      m.ioRead w.bits addr s =
        (m.machIoRead w addr (after (offer covers (readCall w addr)) m.devices s)).map some id) ∧
    (∀ f s', FirstTaker covers (writeCall w addr data) m.devices s f s' →
      m.ioWrite w.bits addr data s = (0, (f s').2.2)) ∧
    ((∃ f s', FirstTaker covers (writeCall w addr data) m.devices s f s') ↔
      ¬ NoneTakes covers (writeCall w addr data) m.devices s) ∧
    (NoneTakes covers (writeCall w addr data) m.devices s →
      m.ioWrite w.bits addr data s =
        (0, m.machIoWrite w addr data
          (after (offer covers (writeCall w addr data)) m.devices s))) := by
  intro covers
  rw [ioRead_bits, ioWrite_bits]
  refine ⟨fun f s' h => ?_, exists_firstTaker_iff, fun h => ?_, fun f s' h => ?_,
    exists_firstTaker_iff, fun h => ?_⟩
  · rw [readWith_of_firstTaker hr _ h]
    rfl
  · rw [readWith_of_noneTakes hr _ h]
    rfl
  · rw [writeWith_of_firstTaker hr _ h]
  · rw [writeWith_of_noneTakes hr _ h]
    rfl

end Dispatch

/-- A machine with one device, which answers byte reads. -/
def oneDevice (base size : BitVec 32) : MachineConfig (List String) where
  devices := [{
    base, size
    readByte := some fun _ s => (1, 7, s ++ ["device"])
    readHalfword := none
    readWord := none
    writeByte := none
    writeHalfword := none
    writeWord := none }]
  machIoReadByte _ s := (3, s ++ ["machine"])
  machIoReadHalfword _ s := (3, s ++ ["machine"])
  machIoReadWord _ s := (3, s ++ ["machine"])
  machIoWriteByte _ _ s := s ++ ["machine"]
  machIoWriteHalfword _ _ s := s ++ ["machine"]
  machIoWriteWord _ _ s := s ++ ["machine"]

theorem io_reaches_first_taker_uart :
    (oneDevice 0x80000000 0x1000).ioRead 8 0x80000010 [] = (some 7, ["device"]) := by
  refine (io_reaches_first_taker (oneDevice 0x80000000 0x1000) .byte 0x80000010 0 [] ?_).1 _ []
    ⟨[], _, [], rfl, declines_nil, rfl, ?_, rfl, ?_⟩
  · intro dev hdev _
    obtain rfl := List.mem_singleton.mp hdev
    decide
  · decide
  · decide

/-- A device of size 0 has no range; it gets the accesses outside of it. -/
theorem io_size_zero_takes_all :
    NoneTakes (DeviceDesc.InRange 0x2000) (readCall .byte 0x2000) (oneDevice 0x1000 0).devices
      [] ∧
      (oneDevice 0x1000 0).ioRead 8 0x2000 [] = (some 7, ["device"]) ∧
      ((oneDevice 0x1000 0).machIoRead .byte 0x2000 []).map some id =
        (some 3, ["machine"]) := by
  refine ⟨declines_cons.mpr ⟨?_, declines_nil⟩, ?_, ?_⟩ <;> decide

end SkyEye.Io
