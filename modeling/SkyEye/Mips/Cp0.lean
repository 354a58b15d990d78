import SkyEye.Mips.Defs

/-!
# The system coprocessor

`cp0.c`, with `get_random` and `leave_kernel_mode` of `emul.c` and the accesses to the bus of
`mips_arch_interface.c`. A result of none is where the simulator exits.
-/

namespace SkyEye.Mips

open Sparc (Uint32 bit bitsmask setBit clearBit clearBits)

/-- What is around the core. `bankRead` and `bankWrite` are the functions of the bank found
at a physical address, for the sizes 8, 16 and 32, none where there is no bank; besides the
devices they return the bits of Cause that the access clears. `machIoDoCycle` and
`machSetIntr` are the functions of the board, the latter one of its devices alone.
`strayEntry` is what lies behind the TLB, read as the tag and the two words of an entry, and
`uninit` what a local variable holds that nothing was assigned to. -/
structure Host (M : Type) where
  bankRead : M → Nat → Uint32 → Option (Uint32 × M × Uint32)
  bankWrite : M → Nat → Uint32 → Uint32 → Option (M × Uint32)
  machIoDoCycle : MipsState M → MipsState M
  machSetIntr : Uint32 → M → M
  strayEntry : MipsState M → Nat → Uint32 × Uint32 × Uint32
  uninit : Uint32

/-- A host without memory and devices. -/
def bareHost : Host Unit where
  bankRead _ _ _ := none
  bankWrite _ _ _ _ := none
  machIoDoCycle s := s
  machSetIntr _ m := m
  strayEntry _ _ := (0, 0, 0)
  uninit := 0

/-- `copy_bits(x, y, n, m)` -/
def copyBits (x y : Uint32) (n m : Nat) : Uint32 :=
  clearBits x n m ||| (Sparc.bits y (n - m) 0 <<< m)

/-- The fields of an instruction. -/
def opcode (instr : Uint32) : Nat := (Sparc.bits instr 31 26).toNat
def rs (instr : Uint32) : Nat := (Sparc.bits instr 25 21).toNat
def rt (instr : Uint32) : Nat := (Sparc.bits instr 20 16).toNat
def rd (instr : Uint32) : Nat := (Sparc.bits instr 15 11).toNat
def shamt (instr : Uint32) : Nat := (Sparc.bits instr 10 6).toNat
def funct (instr : Uint32) : Nat := (Sparc.bits instr 5 0).toNat
def sel (instr : Uint32) : Nat := (Sparc.bits instr 2 0).toNat
def offset (instr : Uint32) : Uint32 := Sparc.bits instr 15 0
def target (instr : Uint32) : Uint32 := Sparc.bits instr 25 0

namespace MipsState

variable {M : Type} (h : Host M) (s : MipsState M)

/-! ## The bus -/

/-- The physical address that `mips_mem_read` and `mips_mem_write` put on the bus. -/
def busAddress (pa : Uint32) : Uint32 :=
  let pa := if 0x80000000 ≤ pa ∧ pa < 0xA0000000 then pa &&& ~~~0x80000000 else pa
  if 0xA0000000 ≤ pa ∧ pa < 0xC0000000 then pa &&& ~~~0xE0000000 else pa

/-- An access that leaves the devices as `mem` and clears the bits `lines` of Cause. -/
def accessed (mem : M) (lines : Uint32) : MipsState M :=
  { s with mem := mem }.setCp0 Cause (s.cp0 Cause &&& ~~~lines)

/-- `mips_mem_read(pa, &data, len)`: `data` after it, as it was where there is no bank. -/
def memRead (pa data : Uint32) (len : Nat) : Uint32 × MipsState M :=
  match h.bankRead s.mem (len * 8) (busAddress pa) with
  | some (value, mem, lines) => (value, s.accessed mem lines)
  | none => (data, s)

/-- `mips_mem_write(pa, &data, len)` -/
def memWrite (pa data : Uint32) (len : Nat) : MipsState M :=
  match h.bankWrite s.mem (len * 8) (busAddress pa) data with
  | some (mem, lines) => s.accessed mem lines
  | none => s

/-! ## The registers -/

/-- `get_random`; none where every entry is wired, a division by 0. -/
def getRandom : Option Uint32 :=
  let wired := s.cp0 Wired
  let free := 48 - wired
  if free = 0 then none
  else some ((((47 - wired).signExtend 64 + (s.now - s.randomSeed)) % free.signExtend 64 +
    wired.signExtend 64).setWidth 32)

def readCp0 (n sel : Nat) : Option Uint32 :=
  if n = Random then s.getRandom
  else if n = Count then some (s.cp0 Count + ((s.now - s.countSeed) / 2).setWidth 32)
  else if n = Config then some (if sel ≠ 0 then s.cp0Config1 else s.cp0 Config)
  else some (s.cp0 n)

/-- The clock after a write of Count or Compare. -/
def retimed : BitVec 64 :=
  s.now + ((s.cp0 Compare).setWidth 64 -
    ((s.cp0 Count).setWidth 64 + (s.now - s.countSeed) / 2)) * 2

def writeCp0 (n : Nat) (x : Uint32) : MipsState M :=
  if n = Index then s.setCp0 Index x
  else if n = EntryLo0 then s.setCp0 EntryLo0 x
  else if n = EntryLo1 then s.setCp0 EntryLo1 x
  else if n = Context then s.setCp0 Context (clearBits x 1 0)
  else if n = Count then
    let s := { s with countSeed := s.now }
    let s := s.setCp0 Count x
    { s with now := s.retimed }
  else if n = EntryHi then s.setCp0 EntryHi x
  else if n = Compare then
    let s := s.setCp0 Compare x
    let s := { s with events := s.events &&& 0x7FFF }
    let s := { s with now := s.retimed }
    s.setCp0 Cause (s.cp0 Cause &&& 0xFFFF7FFF)
  else if n = SR then
    s.setCp0 SR (x &&& ~~~(bitsmask 27 26 ||| bitsmask 24 23 ||| bitsmask 7 6))
  else if n = Cause then { s with events := s.events ||| (x &&& bitsmask 9 8).setWidth 16 }
  else if n = EPC then s.setCp0 EPC x
  else s

/-- A register other than Cause and Compare takes the value, and no other changes. -/
theorem update_cp0_spec {n : Nat} {v x : Uint32} (cp0 : Nat → Uint32) (hn : n ≠ Cause)
    (hc : n ≠ Compare) (hx : n = EPC → v = x) :
    (∀ k, k ≠ n → k ≠ Cause → Function.update cp0 n v k = cp0 k) ∧
    (Function.update cp0 n v Cause = if n = Compare then cp0 Cause &&& 0xFFFF7FFF else cp0 Cause) ∧
    (n = EPC → Function.update cp0 n v EPC = x) := by
  refine ⟨fun k hk _ => Function.update_of_ne hk v cp0, ?_, ?_⟩
  · rw [if_neg hc]
    exact Function.update_of_ne hn.symm v cp0
  · rintro rfl
    rw [Function.update_self, hx rfl]

variable {s} in
/-- What a write changes: the register itself, the clock, and for Compare the timer's bit of
Cause. -/
theorem writeCp0_spec (n : Nat) (x : Uint32) : ∃ cp0' now' events' seed',
    s.writeCp0 n x =
      { s with cp0 := cp0', now := now', events := events', countSeed := seed' } ∧
    (∀ k, k ≠ n → k ≠ Cause → cp0' k = s.cp0 k) ∧
    (cp0' Cause = if n = Compare then s.cp0 Cause &&& 0xFFFF7FFF else s.cp0 Cause) ∧
    (n = EPC → cp0' EPC = x) := by
  unfold writeCp0
  by_cases h1 : n = Index
  · subst h1
    exact ⟨_, _, _, _, rfl, update_cp0_spec s.cp0 (by decide) (by decide)
      fun h => absurd h (by decide)⟩
  rw [if_neg h1]
  by_cases h2 : n = EntryLo0
  · subst h2
    exact ⟨_, _, _, _, rfl, update_cp0_spec s.cp0 (by decide) (by decide)
      fun h => absurd h (by decide)⟩
  rw [if_neg h2]
  by_cases h3 : n = EntryLo1
  · subst h3
    exact ⟨_, _, _, _, rfl, update_cp0_spec s.cp0 (by decide) (by decide)
      fun h => absurd h (by decide)⟩
  rw [if_neg h3]
  by_cases h4 : n = Context
  · subst h4
    exact ⟨_, _, _, _, rfl, update_cp0_spec s.cp0 (by decide) (by decide)
      fun h => absurd h (by decide)⟩
  rw [if_neg h4]
  by_cases h5 : n = Count
  · subst h5
    exact ⟨_, _, _, _, rfl, update_cp0_spec s.cp0 (by decide) (by decide)
      fun h => absurd h (by decide)⟩
  rw [if_neg h5]
  by_cases h6 : n = EntryHi
  · subst h6
    exact ⟨_, _, _, _, rfl, update_cp0_spec s.cp0 (by decide) (by decide)
      fun h => absurd h (by decide)⟩
  rw [if_neg h6]
  by_cases h7 : n = Compare
  · subst h7
    refine ⟨_, _, _, _, rfl, fun k hk hc => ?_, ?_, fun h => absurd h (by decide)⟩
    · exact (Function.update_of_ne hc _ _).trans (Function.update_of_ne hk _ _)
    · rw [if_pos rfl]
      exact (Function.update_self ..).trans
        (congrArg (· &&& 0xFFFF7FFF) (s.cp0_setCp0_of_ne (show Cause ≠ Compare by decide) x))
  rw [if_neg h7]
  by_cases h8 : n = SR
  · subst h8
    exact ⟨_, _, _, _, rfl, update_cp0_spec s.cp0 (by decide) (by decide)
      fun h => absurd h (by decide)⟩
  rw [if_neg h8]
  by_cases h9 : n = Cause
  · subst h9
    exact ⟨_, _, _, _, rfl, fun _ _ _ => rfl, rfl, fun h => absurd h (by decide)⟩
  rw [if_neg h9]
  by_cases h10 : n = EPC
  · subst h10
    exact ⟨_, _, _, _, rfl, update_cp0_spec s.cp0 (by decide) (by decide) fun _ => rfl⟩
  rw [if_neg h10, if_neg h7]
  exact ⟨_, _, _, _, rfl, fun _ _ _ => rfl, rfl, fun h => absurd h h10⟩

def leaveKernelMode : MipsState M :=
  let s := s.setCp0 SR (copyBits (s.cp0 SR) (Sparc.bits (s.cp0 SR) 5 2) 3 0)
  let s := s.setCp0 SR (copyBits (s.cp0 SR) (Sparc.bits (s.cp0 SR) 3 2 <<< 4) 5 4)
  { s with mode := if bit (s.cp0 SR) 1 then umode else s.mode ||| kmode }

/-! ## The instructions -/

/-- TLBR; the index is in bits 13 to 6, and nothing keeps it within the table. -/
def tlbr : MipsState M :=
  let n := (Sparc.bits (s.cp0 Index) 13 6).toNat
  let (hi, lo0, lo1) :=
    if hn : n < tlbSize then
      ((s.tlb ⟨n, hn⟩).hi, (s.tlb ⟨n, hn⟩).loReg 0, (s.tlb ⟨n, hn⟩).loReg 1)
    else h.strayEntry s n
  ((s.setCp0 EntryHi hi).setCp0 EntryLo0 lo0).setCp0 EntryLo1 lo1

/-- TLBWI -/
def tlbwi : MipsState M := s.setTlbEntry (s.cp0 Index)

/-- TLBWR -/
def tlbwr : Option (MipsState M) := s.getRandom.map s.setTlbEntry

/-- TLBP -/
def tlbp : Option (MipsState M) :=
  (s.probeTlb (s.cp0 EntryHi)).map fun e =>
    s.setCp0 Index (match e with
      | some e => (s.tlb e).index.setWidth 32
      | none => 0x80000000)

/-- ERET -/
def eret : MipsState M :=
  let s := s.setCp0 SR (s.cp0 SR ||| 0x1)
  let s := { s with pc := s.cp0 EPC }
  let s := if bit (s.cp0 Cause) Cause_IP2 then { s with mem := h.machSetIntr 0 s.mem } else s
  { s with pipeline := .branchNodelay }

/-- The `switch` of `decode_cop0` where bit 25 is set. -/
def decodeCop0Funct (instr : Uint32) : Option (MipsState M) :=
  match funct instr with
  | 0o01 => some (s.tlbr h)
  | 0o02 => some s.tlbwi
  | 0o06 => s.tlbwr
  | 0o10 => s.tlbp
  | 0o20 => some s.leaveKernelMode
  | 0o30 => some (s.eret h)
  | _ => none

/-- The `switch` of `decode_cop0` where it is clear: MFC0, CFC0 and MTC0. -/
def decodeCop0Rs (instr : Uint32) : Option (MipsState M) :=
  match rs instr with
  | 0o00 => (s.readCp0 (rd instr) (sel instr)).map (s.setGpr (rt instr))
  | 0o02 => some s
  | 0o04 => some (s.writeCp0 (rd instr) (s.gpr (rt instr)))
  | _ => none

/-- `decode_cop0`; it goes on after a coprocessor unusable exception. -/
def decodeCop0 (instr : Uint32) : Option (MipsState M × Pipeline) :=
  let s := if !s.inKmode && !bit (s.cp0 SR) SR_CU0 then s.processCoprocessorUnusable 0 else s
  let s' := if bit instr 25 then s.decodeCop0Funct h instr else s.decodeCop0Rs instr
  s'.map fun s => (s, .nothingSpecial)

/-- `decode_cop1`: WAIT and CFC1 of register 0; the others are not implemented. -/
def decodeCop1 (instr : Uint32) : MipsState M × Pipeline :=
  if !bit (s.cp0 SR) SR_CU1 then (s.processCoprocessorUnusable 1, .nothingSpecial)
  else if funct instr = 0o40 then (s, .nothingSpecial)
  else if rs instr = 2 ∧ rd instr = 0 then (s.setGpr (rt instr) s.fir, .nothingSpecial)
  else (s, .nothingSpecial)

end MipsState

end SkyEye.Mips
