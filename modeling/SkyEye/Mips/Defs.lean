import SkyEye.Sparc.Bits
import Mathlib.Logic.Function.Basic
import Mathlib.Data.List.FinRange

/-!
# The MIPS core

`MIPS_State` of `emul.h`, the translation lookaside buffer of `tlb.c` and the exceptions of
`exception.c` and `emul.c`. The entries of the TLB sit on chains, one for each value of
`tlb_hash` and a last one for the entries not written yet; their pointers point into the
table, so they are indices of it. `inttypes.h` has the macros of `bits.h` once more.
-/

namespace SkyEye.Mips

open Sparc (Uint32 bit bitsmask setBit clearBit clearBits)

abbrev tlbSize : Nat := 48
abbrev tlbMapSize : Nat := 64

/-! ## Registers and fields -/

abbrev Index : Nat := 0
abbrev Random : Nat := 1
abbrev EntryLo0 : Nat := 2
abbrev EntryLo1 : Nat := 3
abbrev Context : Nat := 4
abbrev Wired : Nat := 6
abbrev BadVAddr : Nat := 8
abbrev Count : Nat := 9
abbrev EntryHi : Nat := 10
abbrev Compare : Nat := 11
abbrev SR : Nat := 12
abbrev Cause : Nat := 13
abbrev EPC : Nat := 14
abbrev Config : Nat := 16

abbrev EntryLo_G : Nat := 8
abbrev SR_IEC : Nat := 0
abbrev SR_IM7 : Nat := 15
abbrev SR_BEV : Nat := 22
abbrev SR_CU0 : Nat := 28
abbrev SR_CU1 : Nat := 29
abbrev Cause_IP2 : Nat := 10
abbrev Cause_IP7 : Nat := 15
abbrev Cause_CE_First : Nat := 28
abbrev Cause_BD : Nat := 31

/-- The exception codes, as `process_exception` gets them: in place in Cause. -/
abbrev EXC_Int : Uint32 := 0 <<< 2
abbrev EXC_Mod : Uint32 := 1 <<< 2
abbrev EXC_TLBL : Uint32 := 2 <<< 2
abbrev EXC_TLBS : Uint32 := 3 <<< 2
abbrev EXC_AdEL : Uint32 := 4 <<< 2
abbrev EXC_AdES : Uint32 := 5 <<< 2
abbrev EXC_Sys : Uint32 := 8 <<< 2
abbrev EXC_CpU : Uint32 := 11 <<< 2
abbrev EXC_Ov : Uint32 := 12 <<< 2

abbrev tlbRefillVector : Uint32 := 0x000
abbrev commonVector : Uint32 := 0x180
abbrev generalVectorBase : Uint32 := 0x80000000
abbrev bootVectorBase : Uint32 := 0x80000000

/-- Bits of `mode`. -/
abbrev bmode : BitVec 8 := 1 <<< 2
abbrev umode : BitVec 8 := 1 <<< 4
abbrev kmode : BitVec 8 := 1 <<< 6

/-- The values of `pipeline`. -/
inductive Pipeline where
  | nothingSpecial
  | branchDelay
  | instrAddrError
  | branchNodelay
  deriving DecidableEq, Repr

/-- The access types of `translate_vaddr`. -/
inductive AccessType where
  | instrFetch
  | dataLoad
  | dataStore
  deriving DecidableEq, Repr

structure TlbEntry where
  next : Option (Fin tlbSize)
  prev : Option (Fin tlbSize)
  hi : Uint32
  loReg : Fin 2 → Uint32
  index : BitVec 16
  hash : Fin (tlbMapSize + 1)

/-- `MIPS_State`, with the memory and the devices behind the bus. -/
structure MipsState (M : Type) where
  pc : Uint32
  gpr : Nat → Uint32
  fir : Uint32
  cp0 : Nat → Uint32
  cp0Config1 : Uint32
  hi : Uint32
  lo : Uint32
  now : BitVec 64
  events : BitVec 16
  pipeline : Pipeline
  mode : BitVec 8
  branchTarget : Uint32
  randomSeed : BitVec 64
  countSeed : BitVec 64
  tlb : Fin tlbSize → TlbEntry
  tlbMap : Fin (tlbMapSize + 1) → Option (Fin tlbSize)
  irqPending : Bool
  mem : M

namespace MipsState

variable {M : Type} (s : MipsState M)

/-- `cp0[n] = v` -/
def setCp0 (n : Nat) (v : Uint32) : MipsState M := { s with cp0 := Function.update s.cp0 n v }

@[simp] theorem cp0_setCp0_self (n : Nat) (v : Uint32) : (s.setCp0 n v).cp0 n = v := by
  simp [setCp0]

theorem cp0_setCp0_of_ne {n k : Nat} (h : k ≠ n) (v : Uint32) :
    (s.setCp0 n v).cp0 k = s.cp0 k := by
  simp [setCp0, h]

/-- `gpr[n] = v` -/
def setGpr (n : Nat) (v : Uint32) : MipsState M := { s with gpr := Function.update s.gpr n v }

def branchDelaySlot : Bool := s.pipeline == .branchDelay

/-- `mode & umode` -/
def inUmode : Bool := s.mode &&& umode != 0

/-- `mode & kmode` -/
def inKmode : Bool := s.mode &&& kmode != 0

/-! ## Exceptions -/

def processException (cause vec : Uint32) : MipsState M :=
  let excCode := cause &&& 0x7F
  let slot := s.branchDelaySlot
  let epc := if slot then s.pc - 4 else s.pc
  let cause := if slot then setBit cause Cause_BD else cause
  let s := { s with
    now := s.now + 5
    pipeline :=
      if excCode = EXC_Sys ∨ excCode = EXC_TLBL ∨ excCode = EXC_CpU ∨ excCode = EXC_TLBS ∨
        excCode = EXC_Mod then .branchNodelay else .nothingSpecial }
  let s := s.setCp0 Cause (s.cp0 Cause &&& 0xFFFFFF83)
  let s := s.setCp0 Cause (s.cp0 Cause ||| cause)
  let s := s.setCp0 EPC epc
  let s := { s with
    pc := vec + if bit (s.cp0 SR) SR_BEV then generalVectorBase else bootVectorBase }
  let s := s.setCp0 SR (s.cp0 SR ||| 0x2)
  let s := s.setCp0 SR (s.cp0 SR &&& 0xFFFFFFFD)
  { s with mode := kmode }

def processAddressError (type : AccessType) (va : Uint32) : MipsState M :=
  let exc := if type = .dataStore then EXC_AdES else EXC_AdEL
  (s.setCp0 BadVAddr va).processException exc commonVector

/-- The registers that every TLB exception fills in; `>>` binds before `&`. -/
def tlbFault (va : Uint32) : MipsState M :=
  let s := s.setCp0 BadVAddr va
  let s := s.setCp0 Context ((va &&& (0xFFFFE000 >>> 9)) ||| (s.cp0 Context &&& 0x7FFFF0))
  s.setCp0 EntryHi ((va &&& 0xFFFFE000) ||| (s.cp0 EntryHi &&& 0x1FFF))

def processTlbRefill (type : AccessType) (va : Uint32) : MipsState M :=
  let exc := if type = .dataStore then EXC_TLBS else EXC_TLBL
  (s.tlbFault va).processException exc tlbRefillVector

def processTlbInvalid (type : AccessType) (va : Uint32) : MipsState M :=
  let exc := if type = .dataStore then EXC_TLBS else EXC_TLBL
  (s.tlbFault va).processException exc commonVector

def processTlbModified (va : Uint32) : MipsState M :=
  (s.tlbFault va).processException EXC_Mod commonVector

def processIntegerOverflow : MipsState M := s.processException EXC_Ov commonVector

def processSyscall : MipsState M := s.processException EXC_Sys commonVector

def processCoprocessorUnusable (c : Uint32) : MipsState M :=
  s.processException (EXC_CpU ||| (c <<< Cause_CE_First)) commonVector

end MipsState

/-! ## The TLB -/

def tlbHash (va : Uint32) : Fin (tlbMapSize + 1) :=
  ⟨(Sparc.bits va 31 13).toNat % tlbMapSize, Nat.lt_succ_of_lt (Nat.mod_lt _ (by decide))⟩

/-- The extra chain of `tlb_map`. -/
abbrev unusedChain : Fin (tlbMapSize + 1) := 64

namespace MipsState

variable {M : Type} (s : MipsState M)

/-- `tlb[e].next = p` -/
def setTlbNext (e : Fin tlbSize) (p : Option (Fin tlbSize)) : MipsState M :=
  { s with tlb := Function.update s.tlb e { s.tlb e with next := p } }

/-- `tlb[e].prev = p` -/
def setTlbPrev (e : Fin tlbSize) (p : Option (Fin tlbSize)) : MipsState M :=
  { s with tlb := Function.update s.tlb e { s.tlb e with prev := p } }

/-- `tlb_map[hash] = p` -/
def setTlbMap (hash : Fin (tlbMapSize + 1)) (p : Option (Fin tlbSize)) : MipsState M :=
  { s with tlbMap := Function.update s.tlbMap hash p }

/-- The lines of `reset_tlb` and `set_tlb_entry` that put `tlb[n]` at the head of a chain. -/
def addToChain (hash : Fin (tlbMapSize + 1)) (n : Fin tlbSize) : MipsState M :=
  let s := match s.tlbMap hash with
    | some e => s.setTlbPrev e (some n)
    | none => s
  let s := s.setTlbNext n (s.tlbMap hash)
  let s := s.setTlbPrev n none
  s.setTlbMap hash (some n)

/-- `if (tlb[n].next) tlb[n].next->prev = tlb[n].prev` -/
def unlinkNext (n : Fin tlbSize) : MipsState M :=
  match (s.tlb n).next with
  | some e => s.setTlbPrev e (s.tlb n).prev
  | none => s

/-- The lines of `set_tlb_entry` that take `tlb[n]` off its chain. -/
def removeFromChain (n : Fin tlbSize) : MipsState M :=
  let s := s.unlinkNext n
  match (s.tlb n).prev with
  | some e => s.setTlbNext e (s.tlb n).next
  | none => s.setTlbMap (s.tlb n).hash (s.tlb n).next

/-- The body of the loop of `reset_tlb`. -/
def resetTlbEntry (i : Fin tlbSize) : MipsState M :=
  let s := { s with
    tlb := Function.update s.tlb i
      { s.tlb i with index := BitVec.ofNat 16 i, hash := unusedChain } }
  s.addToChain unusedChain i

def resetTlb : MipsState M :=
  (List.finRange tlbSize).foldl resetTlbEntry { s with tlbMap := fun _ => none }

/-- The tag that `set_tlb_entry` stores: EntryHi, bit 12 set for a global entry. -/
def entryTag : Uint32 :=
  if bit (s.cp0 EntryLo0) EntryLo_G then s.cp0 EntryHi ||| 0x1000 else s.cp0 EntryHi

def setTlbEntry (n : Uint32) : MipsState M :=
  let hash := tlbHash (s.cp0 EntryHi)
  if h : n.toNat < tlbSize then
    let n : Fin tlbSize := ⟨n.toNat, h⟩
    let s := s.removeFromChain n
    let s := { s with
      tlb := Function.update s.tlb n
        { s.tlb n with
          hi := s.entryTag
          loReg := fun i => if i = 0 then s.cp0 EntryLo0 else s.cp0 EntryLo1
          index := BitVec.ofNat 16 n
          hash := hash } }
    s.addToChain hash n
  else s

/-- The test of `probe_tlb` on the entry `e`. -/
def hit (va : Uint32) (e : Fin tlbSize) : Bool :=
  ((s.tlb e).hi &&& 0x1000 != 0 || (s.tlb e).hi &&& 0xFF == s.cp0 EntryHi &&& 0xFF) &&
    va >>> 13 == (s.tlb e).hi >>> 13

/-- The loop of `probe_tlb` from `e` on; none where it is still running after `fuel` steps. -/
def probeFrom (va : Uint32) : Nat → Option (Fin tlbSize) → Option (Option (Fin tlbSize))
  | 0, _ => none
  | _ + 1, none => some none
  | fuel + 1, some e => if s.hit va e then some (some e) else probeFrom va fuel (s.tlb e).next

/-- `probe_tlb`; none outside where the loop visits more entries than there are. -/
def probeTlb (va : Uint32) : Option (Option (Fin tlbSize)) :=
  s.probeFrom va (tlbSize + 1) (s.tlbMap (tlbHash va))

/-- `translate_vaddr` behind the checks of the region: the physical address and the state,
with no address where the result is not `TLB_SUCC`. -/
def translateMapped (va : Uint32) (type : AccessType) : Option (Option Uint32 × MipsState M) :=
  match s.probeTlb va with
  | none => none
  | some none => some (none, s.processTlbRefill type va)
  | some (some entry) =>
    let lo := (s.tlb entry).loReg (if bit va 12 then 1 else 0)
    if lo &&& 0x2 = 0 then some (none, s.processTlbInvalid type va)
    else if type = .dataStore ∧ lo &&& 0x4 = 0 then some (none, s.processTlbModified va)
    else some (some (((lo <<< 6) &&& 0xFFFFF000) ||| (va &&& 0xFFF)), s)

def vaddrRegion (va : Uint32) : Nat := (Sparc.bits va 31 29).toNat

def translateVaddr (va : Uint32) (type : AccessType) : Option (Option Uint32 × MipsState M) :=
  if vaddrRegion va < 4 then s.translateMapped va type
  else if s.inUmode then some (none, s.processAddressError type va)
  else if vaddrRegion va = 4 then some (some (va &&& ~~~0x80000000), s)
  else if vaddrRegion va = 5 then some (some (va &&& ~~~0xE0000000), s)
  else s.translateMapped va type

end MipsState

/-- A core whose registers are all 0, in kernel mode. -/
def blankState {M : Type} (mem : M) : MipsState M where
  pc := 0
  gpr _ := 0
  fir := 0
  cp0 _ := 0
  cp0Config1 := 0
  hi := 0
  lo := 0
  now := 0
  events := 0
  pipeline := .nothingSpecial
  mode := kmode
  branchTarget := 0
  randomSeed := 0
  countSeed := 0
  tlb _ := ⟨none, none, 0, fun _ => 0, 0, unusedChain⟩
  tlbMap _ := none
  irqPending := false
  mem := mem

end SkyEye.Mips
