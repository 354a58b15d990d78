import SkyEye.Flash.Chips

/-!
# The recognisers of the Am29 and the SST39

The command cycles of `dev_flash_am29.c` and `dev_flash_sst39lvf160.c` with the array in a memory
that `bus_write` stores into: what one write or read does to the cycles and to the memory. The
handlers of the chips do that on such a bus (`write_backing`, `read_backing`).
-/

namespace SkyEye.Flash.Jedec

/-- The bytes of the array and of what is around it. -/
abbrev Memory := ARMword → BitVec 8

def width : DataType → Nat
  | .byte => 1
  | .halfword => 2
  | .word => 4

/-- The byte of `data` that is stored at `x` when it is stored from `addr` on. -/
def lane (addr data x : ARMword) : BitVec 8 := data.extractLsb' (8 * (x - addr).toNat) 8

/-- `bus_write` -/
def Memory.store (m : Memory) (datatype : DataType) (addr data : ARMword) : Memory := fun x =>
  if (x - addr).toNat < width datatype then lane addr data x else m x

/-- `bus_read` -/
def Memory.load (m : Memory) (datatype : DataType) (addr : ARMword) : ARMword :=
  match datatype with
  | .byte => (m addr).setWidth 32
  | .halfword => (m (addr + 1) ++ m addr : BitVec 16).setWidth 32
  | .word => m (addr + 3) ++ m (addr + 2) ++ m (addr + 1) ++ m addr

/-- The loop of an erasure: `n` words from `addr` on. -/
def Memory.erase (m : Memory) (addr : ARMword) : Nat → Memory
  | 0 => m
  | n + 1 => Memory.erase (m.store .word addr 0xffffffff) (addr + 4) n

/-- `chip_size` and `sector_size` of an Am29: whole sectors of whole words. -/
structure Sizes where
  chip : ARMword
  sector : ARMword
  chip_pos : 0 < chip.toNat
  words : 4 ∣ sector.toNat
  sectors : sector.toNat ∣ chip.toNat

/-- The recognisers: of the bytes and of the halfwords of an Am29, and of the SST39. -/
inductive Kind where
  | am29Byte (sizes : Sizes)
  | am29Halfword (sizes : Sizes)
  | sst39

namespace Kind

def datatype : Kind → DataType
  | .am29Byte _ => .byte
  | _ => .halfword

/-- The unlock addresses. -/
def unlock : Kind → ARMword × ARMword
  | .am29Byte _ => (0xaaa, 0x555)
  | .am29Halfword _ => (0x555, 0x2aa)
  | .sst39 => (0x5555, 0x2aaa)

def chipSize : Kind → ARMword
  | .am29Byte sizes | .am29Halfword sizes => sizes.chip
  | .sst39 => 0x200000

def offset (k : Kind) (base addr : ARMword) : ARMword := toOffset k.datatype (addr - base)

end Kind

/-- The cycles of a recogniser, and the memory. -/
structure State where
  cycles : Cycles
  mem : Memory

section

variable (k : Kind) (base : ARMword) (s : State) (addr data : ARMword)

/-- `CMD_BYTE_PROGRAM` and so on. -/
def programs (c : Cycles) : Bool := c.command k.unlock.1 k.unlock.2 0xa0

/-- `CMD_BYTE_ERASE` and so on. -/
def erases (c : Cycles) : Bool := c.erase k.unlock.1 k.unlock.2

/-- Erase Suspend and Resume, which the Am29 does not take. -/
def suspends (c : Cycles) : Bool :=
  match k with
  | .sst39 => false
  | _ => c.n == 0 && (data == 0xb0 || data == 0x30)

/-- A write that is no datum of a command: the cycles after it. -/
def accept (c : Cycles) (offset : ARMword) : Cycles :=
  match k with
  | .sst39 =>
    if c.n < 6 then
      let c := c.push offset data
      if c.queryExit then Cycles.reset else c
    else c
  | _ =>
    let c' := if c.n < 6 then c.push offset data else c
    if c.n < 6 ∧ data = 0xf0 then Cycles.reset
    else if c'.command k.unlock.1 k.unlock.2 0x20 || c'.bypassReset then Cycles.reset
    else c'

/-- `start` and `end` -/
def eraseRange : ARMword × ARMword :=
  if data = 0x10 then (base, base + k.chipSize)
  else
    match k with
    | .am29Byte sizes | .am29Halfword sizes =>
      if data = 0x30 then (addr, addr + sizes.sector) else (0, 0)
    | .sst39 =>
      if data = 0x30 then (addr, addr + 0x1000)
      else if data = 0x50 then (addr, addr + 0x10000)
      else (0, 0)

/-- The erasure; none where an address that wraps makes it go on for ever. -/
def eraseMem (m : Memory) : Option Memory :=
  let (start, stop) := eraseRange k base addr data
  if stop > start ∧ stop ≤ base + k.chipSize then
    let n := ((stop - start).toNat + 3) / 4
    if start.toNat + 4 * n < 2 ^ 32 then some (m.erase start n) else none
  else some m

/-- `flash_am29_write_byte` and `_halfword`, `flash_sst39lvf160_write_halfword` -/
def write : Option State :=
  if suspends k data s.cycles then some s
  else if programs k s.cycles then some ⟨Cycles.reset, s.mem.store k.datatype addr data⟩
  else if erases k s.cycles then
    (eraseMem k base addr data s.mem).map fun m => ⟨Cycles.reset, m⟩
  else some ⟨accept k data s.cycles (k.offset base addr), s.mem⟩

/-- The reads of the width. -/
def State.read : State := { s with cycles := s.cycles.afterRead }

/-- A read gets what is in the memory. -/
def readsMemory : Bool := s.cycles.cnt == 0

end

/-! ## The handlers on such a bus -/

/-- A bus with nothing but the memory. -/
def backing : Bus Memory where
  read datatype addr _ s := some (s.mach.load datatype addr, s)
  write datatype addr data s := some { s with mach := s.mach.store datatype addr data }

/-- The chip of a recogniser, with cycles `c`; `other` are the cycles of the other width. -/
def Kind.chip (k : Kind) (query : Option (List ARMword)) (ident : ARMword → ARMword) (lf : Bool)
    (other c : Cycles) : Chip Memory :=
  match k with
  | .am29Byte sizes => .am29 ⟨c, other, query, some ident, none, sizes.chip, sizes.sector⟩
  | .am29Halfword sizes => .am29 ⟨other, c, query, none, some ident, sizes.chip, sizes.sector⟩
  | .sst39 => .sst39 ⟨c, lf⟩

section

variable {k : Kind} (base size : ARMword) (query : Option (List ARMword))
  (ident : ARMword → ARMword) (lf : Bool) (other : Cycles) (banks : Banks)
  (routine : Nat → Routine × Routine) (around : Around Memory)

theorem eraseLoop_backing (s : Sys Memory) : ∀ (n : Nat) (addr : ARMword) (m : Memory),
    eraseLoop backing addr n { s with mach := m } = some { s with mach := m.erase addr n }
  | 0, _, _ => rfl
  | n + 1, addr, m => by
    show eraseLoop backing (addr + 4) n { s with mach := m.store .word addr 0xffffffff } = _
    rw [eraseLoop_backing s n]
    rfl

theorem eraseRange_backing (s : Sys Memory) (start stop limit : ARMword) (m : Memory) :
    Flash.eraseRange backing start stop limit { s with mach := m } =
      (if stop > start ∧ stop ≤ limit then
        let n := ((stop - start).toNat + 3) / 4
        if start.toNat + 4 * n < 2 ^ 32 then some (m.erase start n) else none
      else some m).map fun m => { s with mach := m } := by
  unfold Flash.eraseRange
  dsimp only
  split
  · split
    · rw [eraseLoop_backing]
      rfl
    · rfl
  · rfl

/-- The erasure of a recogniser. -/
theorem eraseMem_backing (s : Sys Memory) (k : Kind) (base addr data : ARMword) (m : Memory) :
    Flash.eraseRange backing (eraseRange k base addr data).1 (eraseRange k base addr data).2
        (base + k.chipSize) { s with mach := m } =
      (eraseMem k base addr data m).map fun m => { s with mach := m } :=
  eraseRange_backing s _ _ _ m

/-- The system with a chip alone on the bus. -/
def alone (banks : Banks) (routine : Nat → Routine × Routine) (dev : Device Memory)
    (m : Memory) : Sys Memory := ⟨banks, routine, [dev], m⟩

/-- An Am29 with the cycles of one width as its recogniser `k` has them. -/
structure Recognises (c : Am29) (datatype : DataType) (k : Kind) : Prop where
  width : k.datatype = datatype
  unlock : k.unlock = Flash.unlock datatype
  chipSize : k.chipSize = c.chipSize
  range : ∀ base addr data, eraseRange k base addr data =
    if data = 0x10 then (base, base + c.chipSize)
    else if data = 0x30 then (addr, addr + c.sectorSize)
    else (0, 0)
  accept : ∀ (k' : Cycles) offset data, accept k data k' offset =
    let k'' := if k'.n < 6 then k'.push offset data else k'
    if k'.n < 6 ∧ data = 0xf0 then Cycles.reset
    else if k''.command k.unlock.1 k.unlock.2 0x20 || k''.bypassReset then Cycles.reset
    else k''

theorem am29_write_backing {c : Am29} {datatype : DataType} (hk : Recognises c datatype k)
    (addr data : ARMword) (m : Memory) (hn : suspends k data (c.cycles datatype) = false) :
    c.write backing datatype addr data base 0 (alone banks routine ⟨base, size, .am29 c⟩ m) =
      (write k base ⟨c.cycles datatype, m⟩ addr data).map fun s' =>
        alone banks routine ⟨base, size,
          Chip.setCycles datatype (fun _ => s'.cycles) (.am29 c)⟩ s'.mem := by
  unfold Am29.write write programs erases
  simp only [hn, Bool.false_eq_true, if_false, hk.unlock]
  split
  · rw [hk.width]
    rfl
  · split
    · have he := eraseMem_backing (alone banks routine ⟨base, size, .am29 c⟩ m) k base addr data m
      rw [hk.range, hk.chipSize] at he
      have hm : ({ alone banks routine ⟨base, size, .am29 c⟩ m with mach := m } : Sys Memory) =
          alone banks routine ⟨base, size, .am29 c⟩ m := rfl
      rw [hm] at he
      rw [he, Option.map_map, Option.map_map]
      rfl
    · rw [hk.accept, Kind.offset, hk.width, hk.unlock]
      dsimp only
      generalize (if (c.cycles datatype).n < 6 then
        (c.cycles datatype).push (toOffset datatype (addr - base)) data else _) = k''
      split
      · rfl
      · split <;> rfl

theorem recognises_byte (sizes : Sizes) (other c : Cycles) :
    Recognises ⟨c, other, query, some ident, none, sizes.chip, sizes.sector⟩ .byte
      (.am29Byte sizes) where
  width := rfl
  unlock := rfl
  chipSize := rfl
  range _ _ _ := rfl
  accept _ _ _ := rfl

theorem recognises_halfword (sizes : Sizes) (other c : Cycles) :
    Recognises ⟨other, c, query, none, some ident, sizes.chip, sizes.sector⟩ .halfword
      (.am29Halfword sizes) where
  width := rfl
  unlock := rfl
  chipSize := rfl
  range _ _ _ := rfl
  accept _ _ _ := rfl

theorem sst39_write_backing (c : Sst39) (addr data : ARMword) (m : Memory) :
    c.write backing addr data base 0 (alone banks routine ⟨base, size, .sst39 c⟩ m) =
      (write .sst39 base ⟨c.cycles, m⟩ addr data).map fun s' =>
        alone banks routine ⟨base, size, .sst39 { c with cycles := s'.cycles }⟩ s'.mem := by
  have hu : Kind.sst39.unlock = (0x5555, 0x2aaa) := rfl
  have hoff : Kind.sst39.offset base addr = (addr - base) >>> 1 := rfl
  have he := eraseMem_backing (alone banks routine ⟨base, size, .sst39 c⟩ m) .sst39 base addr
    data m
  have hm : ({ alone banks routine ⟨base, size, .sst39 c⟩ m with mach := m } : Sys Memory) =
      alone banks routine ⟨base, size, .sst39 c⟩ m := rfl
  rw [hm] at he
  unfold Sst39.write write programs erases suspends accept
  simp only [Bool.false_eq_true, if_false, hu, hoff]
  split
  · rfl
  · split
    · refine (congrArg (Option.map _) he).trans ?_
      rw [Option.map_map, Option.map_map]
      rfl
    · split
      · split <;> rfl
      · rfl

/-- The write handler of a chip that is alone on the bus. -/
theorem write_backing (s : State) (addr data : ARMword) :
    Device.write around backing k.datatype addr data 0
        ⟨base, size, k.chip query ident lf other s.cycles⟩
        (alone banks routine ⟨base, size, k.chip query ident lf other s.cycles⟩ s.mem) =
      (write k base s addr data).map fun s' =>
        (if suspends k data s.cycles then none else some (),
          alone banks routine ⟨base, size, k.chip query ident lf other s'.cycles⟩ s'.mem) := by
  have hnone (k : Kind) (hs : suspends k data s.cycles = true) :
      write k base s addr data = some s := if_pos hs
  cases k with
  | am29Byte sizes =>
    unfold Device.write
    cases hs : suspends (.am29Byte sizes) data s.cycles with
    | true =>
      have htakes : ¬(true && !(suspends (.am29Byte sizes) data s.cycles)) = true := by
        rw [hs]
        decide
      exact (if_neg htakes).trans (by rw [hnone _ hs]; rfl)
    | false =>
      have htakes : (true && !(suspends (.am29Byte sizes) data s.cycles)) = true := by
        rw [hs]
        rfl
      refine (if_pos htakes).trans ?_
      have h := am29_write_backing base size banks routine
        (recognises_byte query ident sizes other s.cycles) addr data s.mem hs
      refine (congrArg (Option.map _) h).trans ?_
      rw [Option.map_map]
      rfl
  | am29Halfword sizes =>
    unfold Device.write
    cases hs : suspends (.am29Halfword sizes) data s.cycles with
    | true =>
      have htakes : ¬(true && !(suspends (.am29Halfword sizes) data s.cycles)) = true := by
        rw [hs]
        decide
      exact (if_neg htakes).trans (by rw [hnone _ hs]; rfl)
    | false =>
      have htakes : (true && !(suspends (.am29Halfword sizes) data s.cycles)) = true := by
        rw [hs]
        rfl
      refine (if_pos htakes).trans ?_
      have h := am29_write_backing base size banks routine
        (recognises_halfword query ident sizes other s.cycles) addr data s.mem hs
      refine (congrArg (Option.map _) h).trans ?_
      rw [Option.map_map]
      rfl
  | sst39 =>
    unfold Device.write
    refine (if_pos rfl).trans ?_
    have h := sst39_write_backing base size banks routine ⟨s.cycles, lf⟩ addr data s.mem
    refine (congrArg (Option.map _) h).trans ?_
    rw [Option.map_map]
    rfl

/-- Its read handler, when the recogniser reads the memory. -/
theorem read_backing (s : State) (addr data : ARMword) (h : readsMemory s = true) :
    Device.read around backing k.datatype addr data 0
        ⟨base, size, k.chip query ident lf other s.cycles⟩
        (alone banks routine ⟨base, size, k.chip query ident lf other s.cycles⟩ s.mem) =
      some (some (s.mem.load k.datatype addr),
        alone banks routine ⟨base, size, k.chip query ident lf other s.read.cycles⟩ s.mem) := by
  have hif {α : Type} (x y : α) : (if readsMemory s = true then x else y) = x := if_pos h
  unfold Device.read
  cases k with
  | am29Byte | am29Halfword | sst39 => exact (congrArg (Option.map _) (hif _ _)).trans rfl

end

end SkyEye.Flash.Jedec
