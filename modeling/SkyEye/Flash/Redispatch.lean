import SkyEye.Flash.Chips

/-!
# Flash chips do not reach the memory

A handler of a chip that is to read or to program the array calls the bus with the address that
it was called with. The bus has the same bank and the same device for it, and the cycles of the
chip are still those of the call: the calls nest without end. Words are erased through a handler
that takes no words. So no access that the chips make of the array does what it has to, unless
the words are erased before (`flash_access_meets_iff`).
-/

namespace SkyEye.Flash

variable {D : Type} {around : Around D}

/-! ## What the accesses have to do -/

/-- The accesses to the array: a read in the state in which a chip reads it, the last write of a
program command, and a write that an erasure makes. -/
inductive FlashAccess where
  | read (datatype : DataType) (addr old : ARMword)
  | program (datatype : DataType) (addr data : ARMword)
  | erase (addr : ARMword)

/-- The first device of the loops that takes a read, and that takes a write. -/
def Sys.reader (around : Around D) (s : Sys D) (datatype : DataType) (addr : ARMword) :
    Option Nat :=
  s.indices.find? fun i => ((s.devices[i]?).filter (·.covers addr)).any fun dev =>
    match dev.chip with
    | .other d => (around.read datatype d addr).isSome
    | _ => true
def Sys.writer (around : Around D) (s : Sys D) (datatype : DataType) (addr data : ARMword) :
    Option Nat :=
  s.indices.find? fun i => ((s.devices[i]?).filter (·.covers addr)).any fun dev =>
    dev.chip.takesWrite around datatype addr data

/-- The routines of the bank at an address. -/
def Sys.routineAt (s : Sys D) (addr : ARMword) : Option (Routine × Routine) :=
  (s.banks.bankPtr addr).map s.routine

/-- The access is to a bank of `flash_read` and `flash_write`, and a read or the last write of a
command gets to a chip that is to read or to program. -/
def Dispatched (around : Around D) (s : Sys D) : FlashAccess → Prop
  | .read datatype addr _ => (s.routineAt addr).map (·.1) = some .flash ∧
      ∃ i dev, s.reader around datatype addr = some i ∧ s.devices[i]? = some dev ∧
        dev.chip.readsArray datatype = true
  | .program datatype addr data => (s.routineAt addr).map (·.2) = some .flash ∧
      ∃ i dev, s.writer around datatype addr (data &&& laneMask datatype) = some i ∧
        s.devices[i]? = some dev ∧ dev.chip.programs datatype = true
  | .erase addr => (s.routineAt addr).map (·.2) = some .flash

/-- The access ends, and reads or writes the memory of the bank. -/
def Meets (around : Around D) (s : Sys D) : FlashAccess → Prop
  | .read datatype addr old => ∃ fuel v s',
      (access around fuel).read datatype addr old s = some (v, s') ∧
        (s.banks.memRead datatype addr).1 = some v
  | .program datatype addr data => ∃ fuel s',
      (access around fuel).write datatype addr data s = some s' ∧
        s'.banks.rom = (s.banks.memWrite datatype addr data).rom
  | .erase addr => ∃ fuel s', (access around fuel).write .word addr 0xffffffff s = some s' ∧
      s'.banks.rom = (s.banks.memWrite .word addr 0xffffffff).rom

/-! ## The bank found again -/

/-- The system after `bank_ptr`. -/
def Sys.found (s : Sys D) (addr : ARMword) : Sys D :=
  { s with banks := { s.banks with mbp := s.banks.bankPtr addr } }

theorem bankPtr_found {m : Banks} {addr : ARMword} {b : Nat} (h : m.bankPtr addr = some b) :
    ({ m with mbp := m.bankPtr addr } : Banks).bankPtr addr = some b := by
  have hb : (m.memBanks[b]?).any (·.contains addr) = true := by
    unfold Banks.bankPtr at h
    split at h
    · rename_i i hi
      cases h
      exact (Option.filter_eq_some_iff.mp hi).2
    · obtain ⟨hlt, hc, -⟩ := List.findIdx?_eq_some_iff_getElem.mp h
      rw [List.getElem?_eq_getElem hlt]
      exact hc
  rw [h]
  unfold Banks.bankPtr
  dsimp only
  have hf : (some b).filter (fun i => (m.memBanks[i]?).any (·.contains addr)) = some b :=
    Option.filter_eq_some_iff.mpr ⟨rfl, hb⟩
  rw [hf]

theorem routineAt_found {s : Sys D} {addr : ARMword} {r : Routine × Routine}
    (h : s.routineAt addr = some r) : (s.found addr).routineAt addr = some r := by
  obtain ⟨b, hb, rfl⟩ := Option.map_eq_some_iff.mp h
  exact Option.map_eq_some_iff.mpr ⟨b, bankPtr_found hb, rfl⟩

/-! ## The loops over the devices -/

section Ask

variable {α : Type} {addr : ARMword} {call : Nat → Device D → Sys D → Option (Option α × Sys D)}
  {s : Sys D}

/-- Devices that do not take the call are passed over: the loop does not return where the first
one that takes it does not. -/
theorem ask_of_find {takes : Device D → Bool} {i : Nat} {dev : Device D}
    (hpass : ∀ j e, takes e = false → call j e s = some (none, s)) {is : List Nat}
    (hi : is.find? (fun j => ((s.devices[j]?).filter (·.covers addr)).any takes) = some i)
    (hdev : s.devices[i]? = some dev) (hcall : call i dev s = none) :
    ask addr call is s = none := by
  induction is with
  | nil => cases hi
  | cons j is ih =>
    unfold ask
    rw [List.find?_cons] at hi
    cases he : (s.devices[j]?).filter (·.covers addr) with
    | none =>
      rw [he] at hi
      exact ih hi
    | some e =>
      rw [he] at hi
      dsimp only at hi ⊢
      cases ht : takes e with
      | false =>
        rw [Option.any_some, ht] at hi
        rw [hpass j e ht]
        exact ih hi
      | true =>
        rw [Option.any_some, ht] at hi
        obtain rfl : j = i := Option.some.inj hi
        have hed : e = dev := by
          have := (Option.filter_eq_some_iff.mp he).1
          exact Option.some.inj (this.symm.trans hdev)
        rw [hed, hcall]

/-- Calls that return and leave the banks make a loop that does. -/
theorem ask_returns (hcall : ∀ j e (s : Sys D), ∃ a s', call j e s = some (a, s') ∧
    s'.banks = s.banks) : ∀ (is : List Nat) (s : Sys D),
    ∃ a s', ask addr call is s = some (a, s') ∧ s'.banks = s.banks
  | [], s => ⟨none, s, rfl, rfl⟩
  | i :: is, s => by
    unfold ask
    cases (s.devices[i]?).filter (·.covers addr) with
    | none => exact ask_returns hcall is s
    | some dev =>
      obtain ⟨a, s', h, hb⟩ := hcall i dev s
      dsimp only
      rw [h]
      cases a with
      | some a => exact ⟨some a, s', rfl, hb⟩
      | none =>
        obtain ⟨a, t, ht, hbt⟩ := ask_returns hcall is s'
        exact ⟨a, t, ht, hbt.trans hb⟩

end Ask

/-! ## Reads -/

theorem dispatched_read_found {s : Sys D} {datatype : DataType} {addr old old' : ARMword}
    (h : Dispatched around s (.read datatype addr old)) :
    Dispatched around (s.found addr) (.read datatype addr old') := by
  obtain ⟨hb, hd⟩ := h
  obtain ⟨r, hr, hf⟩ := Option.map_eq_some_iff.mp hb
  exact ⟨Option.map_eq_some_iff.mpr ⟨r, routineAt_found hr, hf⟩, hd⟩

theorem read_of_bus {bus : Bus D} {datatype : DataType} {addr data : ARMword} {i : Nat}
    {dev : Device D} {s : Sys D} (hreads : dev.chip.readsArray datatype = true)
    (hbus : ∀ old, bus.read datatype addr old s = none) :
    dev.read around bus datatype addr data i s = none := by
  unfold Device.read
  cases hc : dev.chip with
  | am29 c | sst39 c =>
    rw [hc] at hreads
    dsimp only
    rw [if_pos hreads, hbus]
    rfl
  | other d =>
    rw [hc] at hreads
    cases hreads

theorem next_read_flash {datatype : DataType} {addr : ARMword} {s : Sys D} (bus : Bus D)
    (old : ARMword) (h : (s.routineAt addr).map (·.1) = some .flash) :
    (bus.next around).read datatype addr old s =
      (ask addr (Device.read around bus datatype addr around.uninit) (s.found addr).indices
        (s.found addr)).map fun r => (r.1.elim around.uninit (· &&& laneMask datatype), r.2) := by
  rw [Sys.routineAt, Option.map_map] at h
  have hflash : ((s.banks.bankPtr addr).map fun b => (s.routine b).1) = some .flash := h
  unfold Bus.next
  dsimp only
  rw [hflash]
  rfl

theorem next_write_flash {datatype : DataType} {addr : ARMword} {s : Sys D} (bus : Bus D)
    (data : ARMword) (h : (s.routineAt addr).map (·.2) = some .flash) :
    (bus.next around).write datatype addr data s =
      (ask addr (Device.write around bus datatype addr (data &&& laneMask datatype))
        (s.found addr).indices (s.found addr)).map (·.2) := by
  rw [Sys.routineAt, Option.map_map] at h
  have hflash : ((s.banks.bankPtr addr).map fun b => (s.routine b).2) = some .flash := h
  unfold Bus.next
  dsimp only
  rw [hflash]
  rfl

/-- Every read of the array nests without end: the induction is on the bound. -/
theorem read_never {datatype : DataType} {addr : ARMword} : ∀ (fuel : Nat) (s : Sys D)
    (old : ARMword), Dispatched around s (.read datatype addr old) →
      (access around fuel).read datatype addr old s = none
  | 0, _, _, _ => rfl
  | fuel + 1, s, old, h => by
    have hbus old' : (access around fuel).read datatype addr old' (s.found addr) = none :=
      read_never fuel (s.found addr) old' (dispatched_read_found h)
    obtain ⟨hb, i, dev, hi, hdev, hreads⟩ := h
    have hasked : ask addr (Device.read around (access around fuel) datatype addr around.uninit)
        (s.found addr).indices (s.found addr) = none := by
      refine ask_of_find (fun j e he => ?_) hi hdev (read_of_bus hreads hbus)
      unfold Device.read
      cases hc : e.chip with
      | am29 c | sst39 c =>
        rw [hc] at he
        cases he
      | other d =>
        rw [hc] at he
        dsimp only at he ⊢
        rw [Option.isSome_eq_false_iff, Option.isNone_iff_eq_none] at he
        rw [he]
    rw [access, next_read_flash _ _ hb, hasked]
    rfl

/-! ## Programs -/

theorem and_laneMask_idem (datatype : DataType) (data : ARMword) :
    data &&& laneMask datatype &&& laneMask datatype = data &&& laneMask datatype := by
  rw [BitVec.and_assoc, BitVec.and_self]

theorem dispatched_program_found {s : Sys D} {datatype : DataType} {addr data : ARMword}
    (h : Dispatched around s (.program datatype addr data)) :
    Dispatched around (s.found addr) (.program datatype addr (data &&& laneMask datatype)) := by
  obtain ⟨hb, i, dev, hi, hdev, hprog⟩ := h
  obtain ⟨r, hr, hf⟩ := Option.map_eq_some_iff.mp hb
  refine ⟨Option.map_eq_some_iff.mpr ⟨r, routineAt_found hr, hf⟩, i, dev, ?_, hdev, hprog⟩
  rw [and_laneMask_idem]
  exact hi

theorem write_of_bus {bus : Bus D} {datatype : DataType} {addr data : ARMword} {i : Nat}
    {dev : Device D} {s : Sys D} (hprog : dev.chip.programs datatype = true)
    (htakes : dev.chip.takesWrite around datatype addr data = true)
    (hbus : bus.write datatype addr data s = none) :
    dev.write around bus datatype addr data i s = none := by
  unfold Device.write
  rw [if_pos htakes]
  cases hc : dev.chip with
  | am29 c =>
    rw [hc] at hprog
    cases datatype with
    | word => cases hprog
    | byte | halfword =>
      unfold Chip.programs at hprog
      dsimp only at hprog ⊢
      unfold Am29.write
      dsimp only
      rw [if_pos hprog, hbus]
      rfl
  | sst39 c =>
    rw [hc] at hprog
    cases datatype with
    | word | byte => cases hprog
    | halfword =>
      unfold Chip.programs at hprog
      dsimp only at hprog ⊢
      unfold Sst39.write
      dsimp only
      rw [if_pos hprog, hbus]
      rfl
  | other d =>
    rw [hc] at hprog
    cases hprog

/-- So does every program. -/
theorem program_never {datatype : DataType} {addr : ARMword} : ∀ (fuel : Nat) (s : Sys D)
    (data : ARMword), Dispatched around s (.program datatype addr data) →
      (access around fuel).write datatype addr data s = none
  | 0, _, _, _ => rfl
  | fuel + 1, s, data, h => by
    have hbus : (access around fuel).write datatype addr (data &&& laneMask datatype)
        (s.found addr) = none :=
      program_never fuel (s.found addr) _ (dispatched_program_found h)
    obtain ⟨hb, i, dev, hi, hdev, hprog⟩ := h
    have htakes : dev.chip.takesWrite around datatype addr (data &&& laneMask datatype) = true := by
      have := List.find?_some hi
      rw [hdev] at this
      cases hcov : (some dev).filter (·.covers addr) with
      | none =>
        rw [hcov] at this
        cases this
      | some e =>
        rw [hcov] at this
        obtain rfl : dev = e := Option.some.inj (Option.filter_eq_some_iff.mp hcov).1
        exact this
    have hasked : ask addr (Device.write around (access around fuel) datatype addr
        (data &&& laneMask datatype)) (s.found addr).indices (s.found addr) = none := by
      refine ask_of_find (fun j e he => ?_) hi hdev (write_of_bus hprog htakes hbus)
      unfold Device.write
      rw [he, if_neg Bool.false_ne_true]
    rw [access, next_write_flash _ _ hb, hasked]
    rfl

/-! ## Erasures -/

theorem write_word_banks (bus : Bus D) (addr data : ARMword) (i : Nat) (dev : Device D)
    (s : Sys D) : ∃ a s', dev.write around bus .word addr data i s = some (a, s') ∧
      s'.banks = s.banks := by
  unfold Device.write Chip.takesWrite
  cases hc : dev.chip with
  | am29 c | sst39 c => exact ⟨none, s, rfl, rfl⟩
  | other d =>
    dsimp only
    by_cases hw : (around.write .word d addr data).isSome = true
    · rw [if_pos hw]
      obtain ⟨d', hd⟩ := Option.isSome_iff_exists.mp hw
      rw [hd]
      exact ⟨some (), s.setChip i (.other d'), rfl, rfl⟩
    · rw [if_neg hw]
      exact ⟨none, s, rfl, rfl⟩

/-- A word that is written to a bank of `flash_write` is lost. -/
theorem erase_lost {s : Sys D} {addr data : ARMword}
    (h : (s.routineAt addr).map (·.2) = some .flash) (fuel : Nat) :
    ∃ s', (access around (fuel + 1)).write .word addr data s = some s' ∧
      s'.banks.rom = s.banks.rom := by
  obtain ⟨a, s', hasked, hbanks⟩ := ask_returns
    (write_word_banks (access around fuel) addr (data &&& laneMask .word))
    (s.found addr).indices (s.found addr)
  refine ⟨s', ?_, (congrArg Banks.rom hbanks).trans rfl⟩
  rw [access, next_write_flash _ _ h, hasked]
  rfl

theorem getElem?_of_bankPtr {m : Banks} {addr : ARMword} {b : Nat} (h : m.bankPtr addr = some b) :
    ∃ bank, m.memBanks[b]? = some bank := by
  unfold Banks.bankPtr at h
  split at h
  · rename_i i hi
    cases h
    obtain ⟨bank, hbank, -⟩ := Option.any_eq_true _ _ |>.mp (Option.filter_eq_some_iff.mp hi).2
    exact ⟨bank, hbank⟩
  · obtain ⟨hlt, -, -⟩ := List.findIdx?_eq_some_iff_getElem.mp h
    exact ⟨_, List.getElem?_eq_getElem hlt⟩

/-- A word stored changes nothing exactly if it was there. -/
theorem memWrite_word_iff {m : Banks} {addr data : ARMword} {b : Nat}
    (h : m.bankPtr addr = some b) :
    m.rom = (m.memWrite .word addr data).rom ↔ (m.memRead .word addr).1 = some data := by
  obtain ⟨bank, hbank⟩ := getElem?_of_bankPtr h
  unfold Banks.memWrite Banks.memRead
  simp only [h, Option.bind_some, hbank, Option.map_some, writeLane_word, readLane_word]
  constructor
  · intro hrom
    have hword := congrFun (congrFun hrom b) (bank.wordIndex addr)
    rw [Function.update_self, Function.update_self] at hword
    rw [hword]
  · intro hword
    rw [← Option.some.inj hword, Function.update_eq_self, Function.update_eq_self]

/-- What ends is an erasure, and what it does is right exactly if the word was erased before. -/
theorem flash_access_meets_iff {s : Sys D} {a : FlashAccess} (h : Dispatched around s a) :
    Meets around s a ↔
      ∃ addr, a = .erase addr ∧ (s.banks.memRead .word addr).1 = some 0xffffffff := by
  cases a with
  | read datatype addr old =>
    refine iff_of_false ?_ fun ⟨_, ha, _⟩ => by cases ha
    rintro ⟨fuel, v, s', hread, -⟩
    rw [read_never fuel s old h] at hread
    cases hread
  | program datatype addr data =>
    refine iff_of_false ?_ fun ⟨_, ha, _⟩ => by cases ha
    rintro ⟨fuel, s', hwrite, -⟩
    rw [program_never fuel s data h] at hwrite
    cases hwrite
  | erase addr =>
    obtain ⟨r, hr, -⟩ := Option.map_eq_some_iff.mp h
    obtain ⟨b, hb, -⟩ := Option.map_eq_some_iff.mp hr
    have hlost (fuel : Nat) : ∃ t, (access around (fuel + 1)).write .word addr 0xffffffff s =
        some t ∧ t.banks.rom = s.banks.rom := erase_lost h fuel
    constructor
    · rintro ⟨fuel, s', hwrite, hrom⟩
      cases fuel with
      | zero => cases hwrite
      | succ fuel =>
        obtain ⟨t, ht, hkept⟩ := hlost fuel
        obtain rfl : t = s' := Option.some.inj (ht.symm.trans hwrite)
        exact ⟨addr, rfl, (memWrite_word_iff hb).mp (hkept.symm.trans hrom)⟩
    · rintro ⟨addr', ha, hword⟩
      cases ha
      obtain ⟨t, ht, hkept⟩ := hlost 0
      exact ⟨1, t, ht, hkept.trans ((memWrite_word_iff hb).mpr hword)⟩

/-! ## A chip -/

/-- An SST39 after reset, alone on a bank of `flash_read` and `flash_write`. -/
def bareChip : Sys Unit where
  banks := ⟨[⟨0, 0x200000, .noName, .flash⟩], fun _ _ => 0, false, none⟩
  routine _ := (.flash, .flash)
  devices := [⟨0, 0x200000, .sst39 ⟨.reset, false⟩⟩]
  mach := ()

def nothing : Around Unit where
  read _ _ _ := none
  write _ _ _ _ := none
  machRead _ _ _ := (0, ())
  machWrite _ _ _ _ := ()
  uninit := 0

theorem dispatched_bareChip : Dispatched nothing bareChip (.read .halfword 0 0) :=
  ⟨by decide +kernel, 0, ⟨0, 0x200000, .sst39 ⟨.reset, false⟩⟩, by decide +kernel, rfl,
    by decide +kernel⟩

/-- It cannot be read. -/
theorem flash_read_never_returns : ¬∀ (around : Around Unit) (s : Sys Unit) (a : FlashAccess),
    Dispatched around s a → Meets around s a := by
  intro hall
  obtain ⟨fuel, v, s', hread, -⟩ := hall nothing bareChip _ dispatched_bareChip
  rw [read_never fuel bareChip 0 dispatched_bareChip] at hread
  cases hread

/-- An erasure of it loses its writes: the word at 0 stays 0. -/
theorem flash_access_meets_iff_erase :
    Meets nothing bareChip (.erase 0) ↔ ∃ addr, FlashAccess.erase 0 = .erase addr ∧
      (bareChip.banks.memRead .word addr).1 = some 0xffffffff :=
  flash_access_meets_iff (show _ = _ by decide +kernel)

end SkyEye.Flash
