import SkyEye.Mmu.Ram

/-!
# Address translation

`tlb.c`: the walk of the page tables, the table of remembered translations in front
of it, and the check of the access permissions. Entries of all page sizes share the
table, are searched in order and replaced round robin.
-/

namespace SkyEye

inductive TlbMapping where
  | invalid
  | smallpage
  | largepage
  | sect
  | esmallpage
  | tinypage
  deriving DecidableEq, Repr

/-- `tlb_masks` -/
def TlbMapping.mask : TlbMapping → ARMword
  | invalid => 0x00000000
  | smallpage => 0xFFFFF000
  | largepage => 0xFFFF0000
  | sect => 0xFFF00000
  | esmallpage => 0xFFFFF000
  | tinypage => 0xFFFFFC00

structure TlbEntry where
  virtAddr : ARMword
  physAddr : ARMword
  perms : ARMword
  domain : ARMword
  mapping : TlbMapping
  deriving DecidableEq, Repr

namespace TlbEntry

/-- The test of `mmu_tlb_search`. -/
def hit (e : TlbEntry) (va : ARMword) : Bool :=
  e.mapping != .invalid && va &&& e.mapping.mask == e.virtAddr &&& e.mapping.mask

def cFlag (e : TlbEntry) : Bool := e.perms &&& 0x8 != 0
def bFlag (e : TlbEntry) : Bool := e.perms &&& 0x4 != 0

/-- `tlb_va_to_pa` -/
def vaToPa (e : TlbEntry) (va : ARMword) : ARMword :=
  (e.physAddr &&& e.mapping.mask) ||| (va &&& ~~~e.mapping.mask)

end TlbEntry

/-- `tlb_t`; the next entry to replace is one of the table. -/
structure Tlb where
  entrys : List TlbEntry
  cycle : Nat
  cycle_lt : cycle < entrys.length

namespace Tlb

/-- `mmu_tlb_init` -/
def init (num : Nat) (h : 0 < num) : Tlb where
  entrys := List.replicate num ⟨0, 0, 0, 0, .invalid⟩
  cycle := 0
  cycle_lt := by simpa using h

/-- `mmu_tlb_invalidate_all` -/
def invalidateAll (tlb : Tlb) : Tlb where
  entrys := tlb.entrys.map fun e => { e with mapping := .invalid }
  cycle := 0
  cycle_lt := by simpa using Nat.zero_lt_of_lt tlb.cycle_lt

/-- `mmu_tlb_search` -/
def search (tlb : Tlb) (va : ARMword) : Option TlbEntry := tlb.entrys.find? (·.hit va)

/-- `mmu_tlb_invalidate_entry` -/
def invalidateEntry (tlb : Tlb) (va : ARMword) : Tlb where
  entrys := tlb.entrys.modify (tlb.entrys.findIdx (·.hit va)) fun e => { e with mapping := .invalid }
  cycle := tlb.cycle
  cycle_lt := by simpa using tlb.cycle_lt

/-- Place `e` at the cycle position. -/
def place (tlb : Tlb) (e : TlbEntry) : Tlb where
  entrys := tlb.entrys.set tlb.cycle e
  cycle := (tlb.cycle + 1) % tlb.entrys.length
  cycle_lt := by simpa using Nat.mod_lt _ (Nat.zero_lt_of_lt tlb.cycle_lt)

end Tlb

namespace MmuState

variable {U : Type} (mmu : MmuState U)

/-! ## The walk -/

def l1addr (va : ARMword) : ARMword :=
  ((mmu.translationTableBase &&& (0xFFFFC000 : ARMword)) ||| (va >>> 18)) &&& ~~~3

def l1desc (va : ARMword) : ARMword := mmu.ram.busRead .word (mmu.l1addr va)

/-- The second-level descriptor's address in a coarse table (type 1) or a fine one. -/
def l2addr (va : ARMword) : ARMword :=
  if mmu.l1desc va &&& 3 = 1 then
    ((mmu.l1desc va &&& (0xFFFFFC00 : ARMword)) ||| ((va &&& 0x000FF000) >>> 10)) &&& ~~~3
  else ((mmu.l1desc va &&& (0xFFFFF000 : ARMword)) ||| ((va &&& 0x000FFC00) >>> 8)) &&& ~~~3

def l2desc (va : ARMword) : ARMword := mmu.ram.busRead .word (mmu.l2addr va)

/-- A failed walk: the fault, and the domain it records, if any. -/
structure WalkFault where
  fault : Fault
  domain : Option ARMword

/-- An entry for `va`, with its addresses masked to the size of the page. -/
def walkEntry (va desc perms domain : ARMword) (mapping : TlbMapping) : TlbEntry where
  virtAddr := va &&& mapping.mask
  physAddr := desc &&& mapping.mask
  perms := perms
  domain := domain
  mapping := mapping

/-- The translation of `va` that two descriptors describe. -/
def decodeDescs (isXScale : Bool) (l1desc l2desc va : ARMword) : Except WalkFault TlbEntry :=
  let domain := (l1desc >>> 5) &&& 0xF
  let page := walkEntry va l2desc (l2desc &&& 0xFFC) domain
  if l1desc &&& 3 = 0 then .error ⟨.pageTranslation, none⟩
  else if l1desc &&& 3 = 2 then
    .ok (walkEntry va l1desc (l1desc &&& 0xC0C) domain .sect)
  else if l2desc &&& 3 = 0 then .error ⟨.pageTranslation, some domain⟩
  else if l2desc &&& 3 = 1 then .ok (page .largepage)
  else if l2desc &&& 3 = 2 then .ok (page .smallpage)
  else if l1desc &&& 3 = 3 then .ok (page .tinypage)
  else if isXScale then .ok (page .esmallpage)
  else .error ⟨.pageTranslation, some domain⟩

/-- The page tables' answer for `va`. -/
def walk (isXScale : Bool) (va : ARMword) : Except WalkFault TlbEntry :=
  decodeDescs isXScale (mmu.l1desc va) (mmu.l2desc va) va

/-- What `translate` returns: the fault or the entry, the domain recorded in
`last_domain`, and the table. -/
structure Translated where
  result : Except Fault TlbEntry
  lastDomain : ARMword
  tlb : Tlb

def translate (isXScale : Bool) (tlb : Tlb) (va : ARMword) : Translated :=
  match tlb.search va with
  | some e => ⟨.ok e, e.domain, tlb⟩
  | none =>
    match mmu.walk isXScale va with
    | .error f => ⟨.error f.fault, f.domain.getD mmu.lastDomain, tlb⟩
    | .ok e => ⟨.ok e, e.domain, tlb.place e⟩

/-! ## Permissions -/

/-- `check_perms`: table 8-2, interpreting the access permission bits. -/
def checkPerms (mode ap : ARMword) (read : Bool) : Bool :=
  let s := mmu.ctl CONTROL_SYSTEM
  let r := mmu.ctl CONTROL_ROM
  let user := mode == USER32MODE || mode == USER26MODE || mode == SYSTEM32MODE
  match ap.toNat with
  | 0 => read && ((s && !user) || r)
  | 1 => !user
  | 2 => read || !user
  | 3 => true
  | _ => false

/-- The number of the access permission field that governs `va`. -/
def subpage (e : TlbEntry) (va : ARMword) : Nat :=
  match e.mapping with
  | .invalid | .esmallpage | .tinypage => 0
  | .smallpage => ((va >>> 10) &&& 3).toNat
  | .largepage => ((va >>> 14) &&& 3).toNat
  | .sect => 3

/-- `check_access`; the domain it records is the one `translate` has recorded. -/
def checkAccess (mode va : ARMword) (e : TlbEntry) (read : Bool) : Option Fault :=
  let access := (mmu.domainAccessControl >>> (e.domain * 2).toNat) &&& 3
  if access = 0 ∨ access = 2 then some .sectionDomain
  else if access = 1 then
    let ap := (e.perms >>> (subpage e va * 2 + 4)) &&& 3
    if mmu.checkPerms mode ap read then none
    else if e.mapping = .sect then some .sectionPermission
    else some .subpagePermission
  else none

end MmuState

end SkyEye

/-!
## Checks before an access

What every MMU model does first: the alignment check, the translation and the check of
the permissions.
-/

namespace SkyEye

/-- What an access depends on besides the MMU: the mode, the endianness of the data bus,
and whether the processor is an XScale. -/
structure Cpu where
  mode : ARMword
  bigend : Bool
  isXScale : Bool

namespace MmuState

variable {U : Type} (mmu : MmuState U)

/-- An access the alignment check refuses. -/
def misaligned (va : ARMword) (datatype : DataType) : Bool :=
  (va &&& 3 != 0 && datatype == .word && mmu.mmuAligned) ||
    (va &&& 1 != 0 && datatype == .halfword && mmu.mmuAligned)

/-- Translation and permission check: the entry to use, or why there is none. -/
def authorise (cpu : Cpu) (tlb : Tlb) (va : ARMword) (read : Bool) : Except Fault TlbEntry :=
  match (mmu.translate cpu.isXScale tlb va).result with
  | .error f => .error f
  | .ok e =>
    match mmu.checkAccess cpu.mode va e read with
    | some f => .error f
    | none => .ok e

end MmuState

end SkyEye
