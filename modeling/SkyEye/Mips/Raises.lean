import SkyEye.Mips.Decoder

/-!
# Which exception an instruction raises

The tests of `translate_vaddr` and of the decoder, without what they lead to: `faultOf` is
the exception of an access, `raised` the first one of an instruction, `raisedIn` the first
one of a step. `translateVaddr_of_fault` says what the access leaves.
-/

namespace SkyEye.Mips

open Sparc (Uint32 bit bitsmask setBit clearBit clearBits)

variable {M : Type}

/-- An exception: its code, in place in Cause, and its vector. -/
structure Exc where
  code : Uint32
  vector : Uint32
  deriving DecidableEq, Repr

namespace Exc

def addressError (type : AccessType) : Exc :=
  ⟨if type = .dataStore then EXC_AdES else EXC_AdEL, commonVector⟩

def tlbRefill (type : AccessType) : Exc :=
  ⟨if type = .dataStore then EXC_TLBS else EXC_TLBL, tlbRefillVector⟩

def tlbInvalid (type : AccessType) : Exc :=
  ⟨if type = .dataStore then EXC_TLBS else EXC_TLBL, commonVector⟩

def tlbModified : Exc := ⟨EXC_Mod, commonVector⟩
def overflow : Exc := ⟨EXC_Ov, commonVector⟩
def syscall : Exc := ⟨EXC_Sys, commonVector⟩
def coprocessorUnusable : Exc := ⟨EXC_CpU, commonVector⟩

/-- The exceptions after which `process_exception` has the PC left alone. -/
def Held (e : Exc) : Prop :=
  e.code = EXC_Sys ∨ e.code = EXC_TLBL ∨ e.code = EXC_CpU ∨ e.code = EXC_TLBS ∨ e.code = EXC_Mod

instance (e : Exc) : Decidable e.Held := by unfold Held; infer_instance

end Exc

namespace MipsState

variable (s : MipsState M)

/-- The fetch: the instruction and the state after it, where the address translates. -/
def fetch (h : Host M) : Option (Uint32 × MipsState M) :=
  match s.translateVaddr s.pc .instrFetch with
  | some (some pa, s) => some (s.memRead h pa h.uninit 4)
  | _ => none

/-- The exception of an access behind the checks of the region. -/
def mappedFault (va : Uint32) (type : AccessType) : Option Exc :=
  match s.probeTlb va with
  | none => none
  | some none => some (.tlbRefill type)
  | some (some entry) =>
    let lo := (s.tlb entry).loReg (if bit va 12 then 1 else 0)
    if lo &&& 0x2 = 0 then some (.tlbInvalid type)
    else if type = .dataStore ∧ lo &&& 0x4 = 0 then some .tlbModified
    else none

/-- The exception of an access. -/
def faultOf (va : Uint32) (type : AccessType) : Option Exc :=
  if vaddrRegion va < 4 then s.mappedFault va type
  else if s.inUmode then some (.addressError type)
  else if vaddrRegion va = 4 then none
  else if vaddrRegion va = 5 then none
  else s.mappedFault va type

/-- The test of ADD and ADDI. -/
def addOverflows (x y : Uint32) : Bool := !bit (x ^^^ y) 31 && bit (x ^^^ (x + y)) 31

/-- The test of SUB. -/
def subOverflows (x y : Uint32) : Bool :=
  (y.slt 0 && (x - y).slt x) || ((0 : Uint32).slt y && x.slt (x - y))

/-- The exception of a load or store that wants its address aligned. -/
def alignedFault (aligned : Bool) (va : Uint32) (type : AccessType) : Option Exc :=
  if aligned then s.faultOf va type else some (.addressError type)

/-- The exceptions under SPECIAL. -/
def raisedSpecial (instr : Uint32) : Option Exc :=
  match funct instr with
  | 0o14 => some .syscall
  | 0o40 => if addOverflows (s.gpr (rs instr)) (s.gpr (rt instr)) then some .overflow else none
  | 0o42 => if subOverflows (s.gpr (rs instr)) (s.gpr (rt instr)) then some .overflow else none
  | _ => none

/-- The first exception of an instruction. -/
def raised (instr : Uint32) : Option Exc :=
  let va := s.effective instr
  match opcode instr with
  | 0o00 => s.raisedSpecial instr
  | 0o10 =>
    if addOverflows (s.gpr (rs instr)) (signedOffset instr) then some .overflow else none
  | 0o20 => if !s.inKmode && !bit (s.cp0 SR) SR_CU0 then some .coprocessorUnusable else none
  | 0o21 => if !bit (s.cp0 SR) SR_CU1 then some .coprocessorUnusable else none
  | 0o40 => s.faultOf va .dataLoad
  | 0o41 => s.alignedFault (!bit va 0) va .dataLoad
  | 0o42 => s.faultOf va .dataLoad
  | 0o43 => s.alignedFault (va &&& 0x3 == 0) va .dataLoad
  | 0o44 => s.faultOf va .dataLoad
  | 0o45 => s.alignedFault (!bit va 0) va .dataLoad
  | 0o46 => s.faultOf va .dataLoad
  | 0o50 => s.faultOf va .dataStore
  | 0o51 => s.alignedFault (!bit va 0) va .dataStore
  | 0o52 => s.faultOf va .dataStore
  | 0o53 => s.alignedFault (Sparc.bits va 1 0 == 0) va .dataStore
  | 0o56 => s.faultOf va .dataStore
  | 0o60 => s.faultOf va .dataLoad
  | 0o70 => s.faultOf va .dataLoad
  | _ => none

/-- The first exception of a step, with the state it is raised in: by the fetch, by the
instruction, or behind the slot of a jump to an unaligned address. -/
def raisedIn (h : Host M) : Option (MipsState M × Exc) :=
  let p := s.prepare
  match p.faultOf p.pc .instrFetch, p.fetch h with
  | some e, _ => some (p, e)
  | none, none => none
  | none, some (instr, f) =>
    match f.raised instr, f.decode h instr with
    | some e, _ => some (f, e)
    | none, some (s, _) =>
      if s.pipeline = .instrAddrError then some (s, .addressError .instrFetch) else none
    | none, none => none

variable {s}

theorem fetchDecode_of_fetch {h : Host M} {r : Uint32 × MipsState M} (hf : s.fetch h = some r) :
    s.fetchDecode h = r.2.decode h r.1 := by
  unfold fetch at hf
  unfold fetchDecode translated
  split at hf
  · rename_i pa s' ht
    rw [ht]
    cases hf
    rfl
  · cases hf

theorem translateMapped_of_fault {va : Uint32} {type : AccessType} {e : Exc}
    (hf : s.mappedFault va type = some e) :
    s.translateMapped va type = some (none, (s.tlbFault va).processException e.code e.vector) ∧
      e.Held := by
  unfold mappedFault at hf
  unfold translateMapped
  rcases hp : s.probeTlb va with _ | _ | entry <;> rw [hp] at hf
  · cases hf
  · cases hf
    exact ⟨rfl, by cases type <;> decide⟩
  · dsimp only at hf ⊢
    generalize (s.tlb entry).loReg (if bit va 12 then 1 else 0) = lo at hf ⊢
    split at hf
    · cases hf
      rw [if_pos ‹_›]
      exact ⟨rfl, by cases type <;> decide⟩
    · split at hf
      · cases hf
        rw [if_neg ‹_›, if_pos ‹_›]
        exact ⟨rfl, by decide⟩
      · cases hf

/-- The exceptions of an access that are no address errors hold the PC. -/
theorem translateVaddr_of_fault {va : Uint32} {type : AccessType} {e : Exc}
    (hf : s.faultOf va type = some e) :
    (e.Held ∧ s.translateVaddr va type =
        some (none, (s.tlbFault va).processException e.code e.vector)) ∨
    (e = .addressError type ∧
      s.translateVaddr va type = some (none, s.processAddressError type va)) := by
  unfold faultOf at hf
  unfold translateVaddr
  split at hf
  · rw [if_pos ‹_›]
    exact .inl (translateMapped_of_fault hf).symm
  rw [if_neg ‹_›]
  split at hf
  · rw [if_pos ‹_›]
    cases hf
    exact .inr ⟨rfl, rfl⟩
  rw [if_neg ‹_›]
  split at hf
  · cases hf
  rw [if_neg ‹_›]
  split at hf
  · cases hf
  rw [if_neg ‹_›]
  exact .inl (translateMapped_of_fault hf).symm

/-- Without a fault the access gets its address, or the search of the TLB does not end. -/
theorem translateMapped_of_none {va : Uint32} {type : AccessType}
    (hf : s.mappedFault va type = none) :
    s.translateMapped va type = none ∨ ∃ pa, s.translateMapped va type = some (some pa, s) := by
  unfold mappedFault at hf
  unfold translateMapped
  rcases hp : s.probeTlb va with _ | _ | entry <;> rw [hp] at hf
  · exact .inl rfl
  · cases hf
  · dsimp only at hf ⊢
    generalize (s.tlb entry).loReg (if bit va 12 then 1 else 0) = lo at hf ⊢
    split at hf
    · cases hf
    · split at hf
      · cases hf
      · rw [if_neg ‹_›, if_neg ‹_›]
        exact .inr ⟨_, rfl⟩

theorem translateVaddr_of_none {va : Uint32} {type : AccessType}
    (hf : s.faultOf va type = none) :
    s.translateVaddr va type = none ∨ ∃ pa, s.translateVaddr va type = some (some pa, s) := by
  unfold faultOf at hf
  unfold translateVaddr
  split at hf
  · rw [if_pos ‹_›]
    exact translateMapped_of_none hf
  rw [if_neg ‹_›]
  split at hf
  · cases hf
  rw [if_neg ‹_›]
  split at hf
  · rw [if_pos ‹_›]
    exact .inr ⟨_, rfl⟩
  rw [if_neg ‹_›]
  split at hf
  · rw [if_pos ‹_›]
    exact .inr ⟨_, rfl⟩
  rw [if_neg ‹_›]
  exact translateMapped_of_none hf

end MipsState

end SkyEye.Mips
