import SkyEye.Ppc.LoadStore
import SkyEye.Ppc.Lookup

/-!
# Storage faults

What a load or store accesses, in order, and what is left where one of the accesses raises a
storage or data TLB exception. The instructions stop there by testing the result of the
access; `ppc_opc_dcbz` does not. And a store to the interrupt controller can interrupt the
core in the middle of a store multiple. Nothing else goes wrong.
-/

namespace SkyEye.Ppc

open Sparc (Uint32)

variable {M : Type}

/-- An access of an instruction: a load, a store, or a translation alone. -/
inductive BusAccess where
  | load (ea : Uint32) (len : Nat)
  | store (ea : Uint32) (len : Nat) (data : Uint32)
  | touch (ea : Uint32) (flags : Nat)

namespace BusAccess

def ea : BusAccess → Uint32
  | load ea _ => ea
  | store ea _ _ => ea
  | touch ea _ => ea

def flags : BusAccess → Nat
  | load _ _ => mmuRead
  | store _ _ _ => mmuWrite
  | touch _ flags => flags

/-- The core after the access, where it gets its address. -/
def perform (h : Host M) (s : E500Core M) : BusAccess → Option (E500Core M)
  | load ea len =>
    match s.readEffective h ea len h.uninit with
    | .ok _ s => some s
    | _ => none
  | store ea len data =>
    match s.writeEffective h ea len data with
    | .ok _ s => some s
    | _ => none
  | touch _ _ => some s

end BusAccess

/-- The exception of a translation. -/
def E500Core.faultAt (h : Host M) (s : E500Core M) (ea : Uint32) (flags : Nat) :
    Option ExcType :=
  if E500Core.inBootPage (h.bptr s.mem) ea then none
  else
    match s.lookup (h.behind s.mem) ea flags with
    | .ok _ => none
    | .exc type => some type

/-- The first of the accesses that faults: the core before it, its address, the exception and
the accesses that would have followed. -/
def firstFault (h : Host M) (s : E500Core M) :
    List BusAccess → Option (E500Core M × Uint32 × ExcType × List BusAccess)
  | [] => none
  | a :: rest =>
    match s.faultAt h a.ea a.flags, a.perform h s with
    | some type, _ => some (s, a.ea, type, rest)
    | none, some s => firstFault h s rest
    | none, none => none

/-- The core `t` is `u` after the exception `type` for the address `a`; the general registers
can be others. -/
structure Faulted (u : E500Core M) (a : Uint32) (type : ExcType) (t : E500Core M) : Prop where
  raised : t.raised = u.raised ++ [type]
  srr0 : t.srr0 = u.pc
  srr1 : t.srr1 = u.msr
  dear : t.dear = a
  npc : t.npc = u.vector type.number
  written : t.written = u.written
  mem : t.mem = u.mem

/-- The core with the registers of `d` that instructions change and translations do not read. -/
def E500Core.dressed (u d : E500Core M) : E500Core M :=
  { u with
    gpr := d.gpr
    fpr := d.fpr
    cr := d.cr
    xer := d.xer
    currentOpc := d.currentOpc
    reserve := d.reserve
    haveReservation := d.haveReservation }

/-! ## The lookup -/

namespace E500Core

section

variable {behind : TlbEntry} {s u : E500Core M} {addr : Uint32} {flags : Nat}

theorem examine_congr (hm : s.mmu = u.mmu) (hr : s.msr = u.msr) (i : Nat) :
    s.examine behind addr flags i = u.examine behind addr flags i := by
  unfold examine maskAt entryAt writeDenied
  rw [hm, hr]

theorem walk_congr (hm : s.mmu = u.mmu) (hr : s.msr = u.msr) (is : List Nat) :
    s.walk behind addr flags is = u.walk behind addr flags is := by
  induction is with
  | nil => rfl
  | cons i is ih =>
    unfold walk
    rw [examine_congr hm hr, ih]

theorem lookup_congr (hm : s.mmu = u.mmu) (hr : s.msr = u.msr) :
    s.lookup behind addr flags = u.lookup behind addr flags := by
  unfold lookup
  rw [walk_congr hm hr]

theorem examine_exc {i : Nat} {type : ExcType}
    (he : s.examine behind addr flags i = some (.exc type)) : type = .dataSt := by
  unfold examine at he
  dsimp only at he
  split at he
  · cases he
  split at he
  · cases he
  split at he
  · cases he
  split at he
  · split at he
    · cases he
    split at he
    · cases he
      rfl
    · cases he
  · split at he
    · cases he
    · cases he

theorem walk_exc {is : List Nat} {type : ExcType}
    (hw : (s.walk behind addr flags is).2 = some (.exc type)) : type = .dataSt := by
  induction is with
  | nil => cases hw
  | cons i is ih =>
    unfold walk at hw
    split at hw
    · rename_i he
      cases hw
      exact examine_exc he
    · exact ih hw

theorem lookup_exc {type : ExcType} (hf : flags ≠ mmuCode)
    (hl : s.lookup behind addr flags = .exc type) : type = .dataSt ∨ type = .dataTlb := by
  unfold lookup at hl
  split at hl
  · rename_i hw
    rw [hl] at hw
    exact .inl (walk_exc hw)
  · rw [if_neg hf] at hl
    cases hl
    exact .inr rfl

end

end E500Core

section

variable {h : Host M} {u d : E500Core M} {ea : Uint32} {flags : Nat}

theorem lookup_dressed (u d : E500Core M) (ea : Uint32) (flags : Nat) :
    (u.dressed d).lookup (h.behind u.mem) ea flags = u.lookup (h.behind u.mem) ea flags :=
  E500Core.lookup_congr (s := u.dressed d) (u := u) rfl rfl

theorem translate_dressed (u d : E500Core M) (ea : Uint32) (flags : Nat) :
    (u.dressed d).translate h ea flags =
      match (if E500Core.inBootPage (h.bptr u.mem) ea then
          some (some ((ea &&& 0xFFF) ||| (h.bptr u.mem <<< 12)), u.dressed d)
        else
          match u.lookup (h.behind u.mem) ea flags with
          | .ok pa => some (some pa, u.dressed d)
          | .exc type => ((u.dressed d).ppcException type flags ea).map fun s => (none, s)) with
      | some (some pa, s) => .ok pa s
      | some (none, s) => .fault s
      | none => .exit := by
  rw [← lookup_dressed u d ea flags]
  rfl

theorem translate_of_fault {type : ExcType} (hf : flags ≠ mmuCode)
    (he : u.faultAt h ea flags = some type) (d : E500Core M) :
    ∃ t, (u.dressed d).translate h ea flags = .fault t ∧ Faulted u ea type t ∧
      t.gpr = d.gpr ∧ t.fpr = d.fpr := by
  unfold E500Core.faultAt at he
  rw [translate_dressed]
  split at he
  · cases he
  · rename_i hb
    rw [if_neg hb]
    split at he
    · cases he
    · rename_i type' hl
      cases he
      rcases E500Core.lookup_exc hf hl with rfl | rfl
      · exact ⟨_, rfl, ⟨rfl, rfl, rfl, rfl, rfl, rfl, rfl⟩, rfl, rfl⟩
      · exact ⟨_, rfl, ⟨rfl, rfl, rfl, rfl, rfl, rfl, rfl⟩, rfl, rfl⟩

theorem translate_of_none (he : u.faultAt h ea flags = none) :
    ∃ pa, ∀ d, (u.dressed d).translate h ea flags = .ok pa (u.dressed d) := by
  unfold E500Core.faultAt at he
  split at he
  · rename_i hb
    refine ⟨(ea &&& 0xFFF) ||| (h.bptr u.mem <<< 12), fun d => ?_⟩
    rw [translate_dressed, if_pos hb]
  · rename_i hb
    split at he
    · rename_i pa hl
      refine ⟨pa, fun d => ?_⟩
      rw [translate_dressed, if_neg hb, hl]
    · cases he

theorem readEffective_of_fault {type : ExcType} (he : u.faultAt h ea mmuRead = some type)
    (d : E500Core M) (len : Nat) (old : Uint32) :
    ∃ t, (u.dressed d).readEffective h ea len old = .fault t ∧ Faulted u ea type t ∧
      t.gpr = d.gpr ∧ t.fpr = d.fpr := by
  obtain ⟨t, ht, hrest⟩ := translate_of_fault (by decide) he d
  refine ⟨t, ?_, hrest⟩
  unfold E500Core.readEffective
  rw [ht]

theorem writeEffective_of_fault {type : ExcType} (he : u.faultAt h ea mmuWrite = some type)
    (d : E500Core M) (len : Nat) (data : Uint32) :
    ∃ t, (u.dressed d).writeEffective h ea len data = .fault t ∧ Faulted u ea type t ∧
      t.gpr = d.gpr ∧ t.fpr = d.fpr := by
  obtain ⟨t, ht, hrest⟩ := translate_of_fault (by decide) he d
  refine ⟨t, ?_, hrest⟩
  unfold E500Core.writeEffective
  rw [ht]

theorem load_of_perform {u' : E500Core M} {len : Nat} (he : u.faultAt h ea mmuRead = none)
    (hp : (BusAccess.load ea len).perform h u = some u') :
    ∃ pa v mem, (∀ d, (u.dressed d).translate h ea mmuRead = .ok pa (u.dressed d)) ∧
      h.read u.mem len pa = some (v, mem) ∧ u' = { u with mem := mem } := by
  obtain ⟨pa, hpa⟩ := translate_of_none he
  have hu : u.translate h ea mmuRead = .ok pa u := hpa u
  change (match u.readEffective h ea len h.uninit with
    | .ok _ s => some s
    | _ => none) = some u' at hp
  unfold E500Core.readEffective at hp
  rw [hu] at hp
  dsimp only at hp
  cases hr : h.read u.mem len pa with
  | none =>
    rw [hr] at hp
    cases hp
  | some r =>
    rw [hr] at hp
    cases hp
    exact ⟨pa, r.1, r.2, hpa, hr, rfl⟩

theorem readEffective_of_perform {u' : E500Core M} {len : Nat}
    (he : u.faultAt h ea mmuRead = none) (hp : (BusAccess.load ea len).perform h u = some u')
    (old : Uint32) : ∃ v, ∀ d, (u.dressed d).readEffective h ea len old =
      .ok v (u'.dressed d) := by
  obtain ⟨pa, v, mem, hpa, hr, rfl⟩ := load_of_perform he hp
  refine ⟨truncate len (v.getD old), fun d => ?_⟩
  unfold E500Core.readEffective
  rw [hpa d]
  dsimp only
  rw [show (u.dressed d).mem = u.mem from rfl, hr]
  rfl

theorem store_of_perform {u' : E500Core M} {len : Nat} {data : Uint32}
    (he : u.faultAt h ea mmuWrite = none)
    (hp : (BusAccess.store ea len data).perform h u = some u') :
    ∃ pa, (∀ d, (u.dressed d).translate h ea mmuWrite = .ok pa (u.dressed d)) ∧
      u' = u.writePhysical h pa len data := by
  obtain ⟨pa, hpa⟩ := translate_of_none he
  have hu : u.translate h ea mmuWrite = .ok pa u := hpa u
  change (match u.writeEffective h ea len data with
    | .ok _ s => some s
    | _ => none) = some u' at hp
  unfold E500Core.writeEffective at hp
  rw [hu] at hp
  cases hp
  exact ⟨pa, hpa, rfl⟩

theorem writePhysical_dressed (u d : E500Core M) (p : Uint32) (len : Nat) (data : Uint32) :
    (u.dressed d).writePhysical h p len data = (u.writePhysical h p len data).dressed d := by
  unfold E500Core.writePhysical
  rw [show (u.dressed d).mem = u.mem from rfl]
  dsimp only
  split <;> rfl

theorem writeEffective_of_perform {u' : E500Core M} {len : Nat} {data : Uint32}
    (he : u.faultAt h ea mmuWrite = none)
    (hp : (BusAccess.store ea len data).perform h u = some u') :
    u.writeEffective h ea len data = .ok () u' ∧ u'.gpr = u.gpr ∧ u'.fpr = u.fpr := by
  obtain ⟨pa, hpa, rfl⟩ := store_of_perform he hp
  have hu : u.translate h ea mmuWrite = .ok pa u := hpa u
  have hd : u.writePhysical h pa len data = (u.writePhysical h pa len data).dressed u :=
    writePhysical_dressed u u pa len data
  refine ⟨?_, by rw [hd]; rfl, by rw [hd]; rfl⟩
  unfold E500Core.writeEffective
  rw [hu]

end

/-! ## The instructions and their accesses -/

/-- The load and store instructions of the decoder's table. -/
inductive Instr where
  | lbz | lbzu | lbzux | lbzx | lha | lhau | lhaux | lhax | lhbrx | lhz | lhzu | lhzux | lhzx
  | lwarx | lwbrx | lwz | lwzu | lwzux | lwzx | evldd
  | stb | stbu | stbux | stbx | sth | sthbrx | sthu | sthux | sthx
  | stw | stwbrx | stwu | stwux | stwx | evstdd | stwcx
  | lfd | lfdu | lfdux | lfdx | lfs | lfsu | lfsux | lfsx
  | stfd | stfdu | stfdux | stfdx | stfiwx | stfs | stfsu | stfsux | stfsx
  | lmw | stmw | lswi | lswx | stswi | stswx | dcbz
  deriving DecidableEq

namespace Instr

def exec (h : Host M) (s : E500Core M) : Instr → Option (E500Core M)
  | lbz => s.lbz h
  | lbzu => s.lbzu h
  | lbzux => s.lbzux h
  | lbzx => s.lbzx h
  | lha => s.lha h
  | lhau => s.lhau h
  | lhaux => s.lhaux h
  | lhax => s.lhax h
  | lhbrx => s.lhbrx h
  | lhz => s.lhz h
  | lhzu => s.lhzu h
  | lhzux => s.lhzux h
  | lhzx => s.lhzx h
  | lwarx => s.lwarx h
  | lwbrx => s.lwbrx h
  | lwz => s.lwz h
  | lwzu => s.lwzu h
  | lwzux => s.lwzux h
  | lwzx => s.lwzx h
  | evldd => s.evldd h
  | stb => s.stb h
  | stbu => s.stbu h
  | stbux => s.stbux h
  | stbx => s.stbx h
  | sth => s.sth h
  | sthbrx => s.sthbrx h
  | sthu => s.sthu h
  | sthux => s.sthux h
  | sthx => s.sthx h
  | stw => s.stw h
  | stwbrx => s.stwbrx h
  | stwu => s.stwu h
  | stwux => s.stwux h
  | stwx => s.stwx h
  | evstdd => s.evstdd h
  | stwcx => s.stwcx h
  | lfd => s.lfd h
  | lfdu => s.lfdu h
  | lfdux => s.lfdux h
  | lfdx => s.lfdx h
  | lfs => s.lfs h
  | lfsu => s.lfsu h
  | lfsux => s.lfsux h
  | lfsx => s.lfsx h
  | stfd => s.stfd h
  | stfdu => s.stfdu h
  | stfdux => s.stfdux h
  | stfdx => s.stfdx h
  | stfiwx => s.stfiwx h
  | stfs => s.stfs h
  | stfsu => s.stfsu h
  | stfsux => s.stfsux h
  | stfsx => s.stfsx h
  | lmw => s.lmw h
  | stmw => s.stmw h
  | lswi => s.lswi h
  | lswx => s.lswx h
  | stswi => s.stswi h
  | stswx => s.stswx h
  | dcbz => s.dcbz h

end Instr

/-- `n` loads of `len` bytes from `ea` on. -/
def loads (len : Nat) (ea : Uint32) : Nat → List BusAccess
  | 0 => []
  | n + 1 => .load ea len :: loads len (ea + BitVec.ofNat 32 len) n

/-- The stores of the words of the registers from `r` on. -/
def storesFrom (s : E500Core M) (r : Nat) (ea : Uint32) : Nat → List BusAccess
  | 0 => []
  | n + 1 => .store ea 4 (s.gpr r) :: storesFrom s (r + 1) (ea + 4) n

theorem storesFrom_congr {s u : E500Core M} (hg : u.gpr = s.gpr) (n : Nat) (r : Nat)
    (ea : Uint32) : storesFrom s r ea n = storesFrom u r ea n := by
  induction n generalizing r ea with
  | zero => rfl
  | succ n ih =>
    unfold storesFrom
    rw [hg, ih]

/-- The stores of the bytes of the registers from `d` on; `i` bytes of `r` are left. -/
def storeBytes (s : E500Core M) (d : Nat) (r : Uint32) (i : Nat) (ea : Uint32) :
    Nat → List BusAccess
  | 0 => []
  | nb + 1 =>
    let (d, r, i) := if i = 0 then ((d + 1) % 32, s.gpr d, 4) else (d, r, i)
    .store ea 1 (r >>> 24) :: storeBytes s d (r <<< 8) (i - 1) (ea + 1) nb

theorem storeBytes_congr {s u : E500Core M} (hg : u.gpr = s.gpr) (n : Nat) (d : Nat)
    (r : Uint32) (i : Nat) (ea : Uint32) :
    storeBytes s d r i ea n = storeBytes u d r i ea n := by
  induction n generalizing d r i ea with
  | zero => rfl
  | succ n ih =>
    unfold storeBytes
    rw [hg]
    split
    exact congrArg _ (ih ..)

/-- The stores of zeros. -/
def zeros (ea : Uint32) : Nat → List BusAccess
  | 0 => []
  | n + 1 => .store ea 4 0 :: zeros (ea + 4) n

/-- The first half of a double word over a page boundary is in the boot ROM. -/
def firstInRom (h : Host M) (s : E500Core M) (ea : Uint32) : Bool :=
  match s.translate h ((ea &&& ~~~0xFFF) + 4089) mmuWrite with
  | .ok p _ => p < h.bootRomSize
  | _ => false

/-- The translations of a store of a double word: of its second page only where the first
half is in the boot ROM. -/
def doubleStore (h : Host M) (s : E500Core M) (ea : Uint32) : List BusAccess :=
  .touch ea mmuWrite ::
    if eaOffset ea > 4088 ∧ firstInRom h s ea = true then
      [.touch ((ea &&& ~~~0xFFF) + 4096) mmuWrite] else []

/-- Accesses that MSR[FP] has to allow. -/
def fpAccesses (s : E500Core M) (as : List BusAccess) : List BusAccess :=
  if s.msr &&& msrFp = 0 then [] else as

/-- The accesses of STWCX.: it stores where the word is the reserved one. -/
def conditionalAccesses (h : Host M) (s : E500Core M) : List BusAccess :=
  if s.haveReservation then
    .load s.eaX 4 ::
      match s.readEffective h s.eaX 4 h.uninit with
      | .ok v _ => if v = s.reserve then [.store s.eaX 4 s.gprS] else []
      | _ => []
  else []

namespace Instr

/-- The accesses of an instruction, in order. -/
def accesses (h : Host M) (s : E500Core M) : Instr → List BusAccess
  | lbz => [.load s.eaD 1]
  | lbzu => [.load s.eaDU 1]
  | lbzux => [.load s.eaXU 1]
  | lbzx => [.load s.eaX 1]
  | lha => [.load s.eaD 2]
  | lhau => [.load s.eaDU 2]
  | lhaux => [.load s.eaXU 2]
  | lhax => [.load s.eaX 2]
  | lhbrx => [.load s.eaX 2]
  | lhz => [.load s.eaD 2]
  | lhzu => [.load s.eaDU 2]
  | lhzux => [.load s.eaXU 2]
  | lhzx => [.load s.eaX 2]
  | lwarx => [.load s.eaX 4]
  | lwbrx => [.load s.eaX 4]
  | lwz => [.load s.eaD 4]
  | lwzu => [.load s.eaDU 4]
  | lwzux => [.load s.eaXU 4]
  | lwzx => [.load s.eaX 4]
  | evldd => [.load s.eaSpe 1]
  | stb => [.store s.eaD 1 s.gprS]
  | stbu => [.store s.eaDU 1 s.gprS]
  | stbux => [.store s.eaXU 1 s.gprS]
  | stbx => [.store s.eaX 1 s.gprS]
  | sth => [.store s.eaD 2 s.gprS]
  | sthbrx => [.store s.eaX 2 (bswapHalf s.gprS)]
  | sthu => [.store s.eaDU 2 s.gprS]
  | sthux => [.store s.eaXU 2 s.gprS]
  | sthx => [.store s.eaX 2 s.gprS]
  | stw => [.store s.eaD 4 s.gprS]
  | stwbrx => [.store s.eaX 4 (bswapWord s.gprS)]
  | stwu => [.store s.eaDU 4 s.gprS]
  | stwux => [.store s.eaXU 4 s.gprS]
  | stwx => [.store s.eaX 4 s.gprS]
  | evstdd => [.store s.eaSpe 4 s.gprS]
  | stwcx => conditionalAccesses h s
  | lfd => fpAccesses s [.touch s.eaD mmuRead]
  | lfdu => fpAccesses s [.touch s.eaDU mmuRead]
  | lfdux => fpAccesses s [.touch s.eaXU mmuRead]
  | lfdx => fpAccesses s [.touch s.eaX mmuRead]
  | lfs => fpAccesses s [.load s.eaD 4]
  | lfsu => fpAccesses s [.load s.eaDU 4]
  | lfsux => fpAccesses s [.load s.eaXU 4]
  | lfsx => fpAccesses s [.load s.eaX 4]
  | stfd => fpAccesses s (doubleStore h s s.eaD)
  | stfdu => fpAccesses s (doubleStore h s s.eaDU)
  | stfdux => fpAccesses s (doubleStore h s s.eaXU)
  | stfdx => fpAccesses s (doubleStore h s s.eaX)
  | stfiwx => fpAccesses s [.store s.eaX 4 (s.fprS.setWidth 32)]
  | stfs => fpAccesses s [.store s.eaD 4 (h.doubleToSingle s.fprS)]
  | stfsu => fpAccesses s [.store s.eaDU 4 (h.doubleToSingle s.fprS)]
  | stfsux => fpAccesses s [.store s.eaXU 4 (h.doubleToSingle s.fprS)]
  | stfsx => fpAccesses s [.store s.eaX 4 (h.doubleToSingle s.fprS)]
  | lmw => loads 4 s.eaD (32 - rD s.currentOpc)
  | stmw => storesFrom s (rD s.currentOpc) s.eaD (32 - rD s.currentOpc)
  | lswi => loads 1 s.gprOrZero s.nb
  | lswx => loads 1 s.eaX (xerN s.xer)
  | stswi => storeBytes s (rD s.currentOpc) 0 0 s.gprOrZero s.nb
  | stswx => storeBytes s (rD s.currentOpc) 0 0 s.eaX (xerN s.xer)
  | dcbz => zeros s.eaX 8

/-- The instructions that load more than one register. -/
def LoadsMany (i : Instr) : Prop := i = lmw ∨ i = lswi ∨ i = lswx

end Instr

/-- The fault of an instruction is precise: `s` is the core before the instruction, `u` before
the access that faults, at `a`, and `t` behind the instruction. -/
structure PreciseIn (i : Instr) (s u : E500Core M) (a : Uint32) (type : ExcType)
    (t : E500Core M) : Prop where
  raised : t.raised = s.raised ++ [type]
  srr0 : t.srr0 = s.pc
  srr1 : t.srr1 = s.msr
  dear : t.dear = a
  npc : t.npc = s.vector type.number
  written : t.written = u.written
  mem : t.mem = u.mem
  gpr : ¬i.LoadsMany → t.gpr = s.gpr
  fpr : t.fpr = s.fpr

/-- The instruction stops at its first fault. -/
def Stops (h : Host M) (i : Instr) (s : E500Core M) : Prop :=
  ∀ u a type rest, firstFault h s (i.accesses h s) = some (u, a, type, rest) →
    ∃ t, i.exec h s = some t ∧ Faulted u a type t ∧ (¬i.LoadsMany → t.gpr = s.gpr) ∧
      t.fpr = s.fpr

section

variable {h : Host M} {s u v : E500Core M} {a : Uint32} {type : ExcType}
  {rest : List BusAccess}

/-! ## Single accesses -/

theorem firstFault_single {b : BusAccess} (hf : firstFault h s [b] = some (u, a, type, rest)) :
    s.faultAt h b.ea b.flags = some type ∧ u = s ∧ a = b.ea := by
  unfold firstFault at hf
  split at hf
  · rename_i type' _ hfa
    simp only [Option.some.injEq, Prod.mk.injEq] at hf
    obtain ⟨rfl, rfl, rfl, -⟩ := hf
    exact ⟨hfa, rfl, rfl⟩
  · cases hf
  · cases hf

theorem loadAt_of_fault {ea : Uint32} {len : Nat} {finish : Uint32 → E500Core M → E500Core M}
    (hf : firstFault h s [.load ea len] = some (u, a, type, rest)) :
    ∃ t, s.loadAt h ea len finish = some t ∧ Faulted u a type t ∧ t.gpr = s.gpr ∧
      t.fpr = s.fpr := by
  obtain ⟨hfa, rfl, rfl⟩ := firstFault_single hf
  obtain ⟨t, ht, hrest⟩ := readEffective_of_fault hfa u len h.uninit
  exact ⟨t, congrArg (E500Core.around · finish) ht, hrest⟩

theorem storeAt_of_fault {ea data : Uint32} {len : Nat} {finish : E500Core M → E500Core M}
    (hf : firstFault h s [.store ea len data] = some (u, a, type, rest)) :
    ∃ t, s.storeAt h ea len data finish = some t ∧ Faulted u a type t ∧ t.gpr = s.gpr ∧
      t.fpr = s.fpr := by
  obtain ⟨hfa, rfl, rfl⟩ := firstFault_single hf
  obtain ⟨t, ht, hrest⟩ := writeEffective_of_fault hfa u len data
  exact ⟨t, congrArg (E500Core.around · fun _ => finish) ht, hrest⟩

theorem firstFault_fpAccesses {as : List BusAccess}
    (hf : firstFault h s (fpAccesses s as) = some (u, a, type, rest)) :
    firstFault h s as = some (u, a, type, rest) ∧ ∀ k, s.withFpu k = k := by
  unfold fpAccesses at hf
  split at hf
  · cases hf
  · exact ⟨hf, fun k => if_neg ‹_›⟩

/-! ## Several accesses -/

theorem firstFault_cons {b : BusAccess} {bs : List BusAccess}
    (hf : firstFault h s (b :: bs) = some (u, a, type, rest)) :
    (s.faultAt h b.ea b.flags = some type ∧ u = s ∧ a = b.ea ∧ rest = bs) ∨
    (s.faultAt h b.ea b.flags = none ∧ ∃ s', b.perform h s = some s' ∧
      firstFault h s' bs = some (u, a, type, rest)) := by
  unfold firstFault at hf
  split at hf
  · rename_i type' _ hfa
    simp only [Option.some.injEq, Prod.mk.injEq] at hf
    obtain ⟨rfl, rfl, rfl, rfl⟩ := hf
    exact .inl ⟨hfa, rfl, rfl, rfl⟩
  · rename_i s' hfa hp
    exact .inr ⟨hfa, s', hp, hf⟩
  · cases hf

/-- A load and what follows stop where what follows does; the registers are those of `d`. -/
theorem load_stops {ea : Uint32} {len : Nat} {bs : List BusAccess}
    {next : Uint32 → E500Core M → Option (E500Core M)} {d : E500Core M} (old : Uint32)
    (hf : firstFault h s (.load ea len :: bs) = some (u, a, type, rest))
    (hnext : ∀ s' v, firstFault h s' bs = some (u, a, type, rest) →
      ∃ t, next v (s'.dressed d) = some t ∧ Faulted u a type t ∧ t.fpr = d.fpr) :
    ∃ t, (match (s.dressed d).readEffective h ea len old with
      | .ok v s => next v s
      | .fault s => some s
      | .exit => none) = some t ∧ Faulted u a type t ∧ t.fpr = d.fpr := by
  rcases firstFault_cons hf with ⟨hfa, rfl, ha, -⟩ | ⟨hfa, s', hp, hf'⟩
  · obtain ⟨t, ht, hft, -, hfpr⟩ := readEffective_of_fault hfa d len old
    rw [show (u.dressed d).readEffective h ea len old = .fault t from ht, ha]
    exact ⟨t, rfl, hft, hfpr⟩
  · obtain ⟨v, hv⟩ := readEffective_of_perform hfa hp old
    rw [show (s.dressed d).readEffective h ea len old = _ from hv d]
    exact hnext s' v hf'

theorem setGpr_dressed (s d : E500Core M) (r : Nat) (v : Uint32) :
    (s.dressed d).setGpr r v = s.dressed (d.setGpr r v) := rfl

theorem lmwLoop_stops (n : Nat) : ∀ (s d : E500Core M) (r : Nat) (ea : Uint32),
    firstFault h s (loads 4 ea n) = some (u, a, type, rest) →
    ∃ t, E500Core.lmwLoop h (s.dressed d) r ea n = some t ∧ Faulted u a type t ∧
      t.fpr = d.fpr := by
  induction n with
  | zero => exact fun s d r ea hf => by cases hf
  | succ n ih =>
    intro s d r ea hf
    unfold E500Core.lmwLoop
    exact load_stops _ hf fun s' v hf' => ih s' (d.setGpr r v) (r + 1) (ea + 4) hf'

theorem lswLoop_stops (n : Nat) : ∀ (s d : E500Core M) (k : Nat) (r : Uint32) (i : Nat)
    (ea : Uint32), firstFault h s (loads 1 ea n) = some (u, a, type, rest) →
    ∃ t, E500Core.lswLoop h (s.dressed d) k r i ea n = some t ∧ Faulted u a type t ∧
      t.fpr = d.fpr := by
  induction n with
  | zero => exact fun s d k r i ea hf => by cases hf
  | succ n ih =>
    intro s d k r i ea hf
    unfold E500Core.lswLoop
    -- a full register goes to the core before the read
    by_cases hi : i = 0
    · rw [if_pos hi, setGpr_dressed]
      dsimp only
      exact load_stops _ hf fun s' v hf' => ih s' (d.setGpr k r) _ _ _ (ea + 1) hf'
    · rw [if_neg hi]
      dsimp only
      exact load_stops _ hf fun s' v hf' => ih s' d _ _ _ (ea + 1) hf'

/-- A store and what follows stop where what follows does. -/
theorem store_stops {ea data : Uint32} {len : Nat} {bs : List BusAccess}
    {next : E500Core M → Option (E500Core M)}
    (hf : firstFault h s (.store ea len data :: bs) = some (u, a, type, rest))
    (hnext : ∀ s' : E500Core M, s'.gpr = s.gpr → firstFault h s' bs = some (u, a, type, rest) →
      ∃ t, next s' = some t ∧ Faulted u a type t ∧ t.gpr = s'.gpr ∧ t.fpr = s'.fpr) :
    ∃ t, (match s.writeEffective h ea len data with
      | .ok _ s => next s
      | .fault s => some s
      | .exit => none) = some t ∧ Faulted u a type t ∧ t.gpr = s.gpr ∧ t.fpr = s.fpr := by
  rcases firstFault_cons hf with ⟨hfa, rfl, ha, -⟩ | ⟨hfa, s', hp, hf'⟩
  · obtain ⟨t, ht, hft, hregs⟩ := writeEffective_of_fault hfa u len data
    rw [show u.writeEffective h ea len data = .fault t from ht, ha]
    exact ⟨t, rfl, hft, hregs⟩
  · obtain ⟨hw, hgpr', hfpr'⟩ := writeEffective_of_perform hfa hp
    obtain ⟨t, ht, hft, hgpr, hfpr⟩ := hnext s' hgpr' hf'
    rw [show s.writeEffective h ea len data = .ok () s' from hw]
    exact ⟨t, ht, hft, hgpr.trans hgpr', hfpr.trans hfpr'⟩

theorem stmwLoop_stops (n : Nat) : ∀ (s : E500Core M) (r : Nat) (ea : Uint32),
    firstFault h s (storesFrom s r ea n) = some (u, a, type, rest) →
    ∃ t, E500Core.stmwLoop h s r ea n = some t ∧ Faulted u a type t ∧ t.gpr = s.gpr ∧
      t.fpr = s.fpr := by
  induction n with
  | zero => exact fun s r ea hf => by cases hf
  | succ n ih =>
    intro s r ea hf
    unfold E500Core.stmwLoop
    refine store_stops hf fun s' hg hf' => ih s' (r + 1) (ea + 4) ?_
    rw [← storesFrom_congr hg]
    exact hf'

theorem stswLoop_stops (n : Nat) : ∀ (s : E500Core M) (d : Nat) (r : Uint32) (i : Nat)
    (ea : Uint32), firstFault h s (storeBytes s d r i ea n) = some (u, a, type, rest) →
    ∃ t, E500Core.stswLoop h s d r i ea n = some t ∧ Faulted u a type t ∧ t.gpr = s.gpr ∧
      t.fpr = s.fpr := by
  induction n with
  | zero => exact fun s d r i ea hf => by cases hf
  | succ n ih =>
    intro s d r i ea hf
    unfold E500Core.stswLoop
    unfold storeBytes at hf
    -- a new register is taken before the write
    by_cases hi : i = 0
    · rw [if_pos hi] at hf ⊢
      refine store_stops hf fun s' hg hf' => ih s' _ _ _ _ ?_
      rw [← storeBytes_congr hg]
      exact hf'
    · rw [if_neg hi] at hf ⊢
      refine store_stops hf fun s' hg hf' => ih s' _ _ _ _ ?_
      rw [← storeBytes_congr hg]
      exact hf'

theorem stwcx_stops (hf : firstFault h s (conditionalAccesses h s) = some (u, a, type, rest)) :
    ∃ t, s.stwcx h = some t ∧ Faulted u a type t ∧ t.gpr = s.gpr ∧ t.fpr = s.fpr := by
  unfold conditionalAccesses at hf
  unfold E500Core.stwcx
  split at hf
  · rename_i hres
    dsimp only
    rw [if_pos hres]
    -- the core that the read starts from
    generalize hd : ({ s with
      cr := s.cr &&& 0x0FFFFFFF, haveReservation := false } : E500Core M) = d
    have hsd : d = s.dressed d := by rw [← hd]; rfl
    have hregs : d.gpr = s.gpr ∧ d.fpr = s.fpr ∧ d.reserve = s.reserve ∧ d.eaX = s.eaX ∧
        d.gprS = s.gprS := by
      rw [← hd]
      exact ⟨rfl, rfl, rfl, rfl, rfl⟩
    rcases firstFault_cons hf with ⟨hfa, rfl, ha, -⟩ | ⟨hfa, s', hp, hf'⟩
    · obtain ⟨t, ht, hft, hgpr, hfpr⟩ := readEffective_of_fault hfa d 4 h.uninit
      have ht' : d.readEffective h d.eaX 4 h.uninit = .fault t := by
        rw [hregs.2.2.2.1, hsd]
        exact ht
      rw [ht', ha]
      exact ⟨t, rfl, hft, hgpr.trans hregs.1, hfpr.trans hregs.2.1⟩
    · obtain ⟨v, hv⟩ := readEffective_of_perform hfa hp h.uninit
      have hs : s.readEffective h s.eaX 4 h.uninit = .ok v (s'.dressed s) := hv s
      have hd' : d.readEffective h d.eaX 4 h.uninit = .ok v (s'.dressed d) := by
        rw [hregs.2.2.2.1]
        nth_rewrite 1 [hsd]
        exact hv d
      rw [hs] at hf'
      rw [hd']
      dsimp only at hf' ⊢
      split at hf'
      · rename_i hv
        unfold E500Core.stwcxStore
        rw [if_pos (show v = (s'.dressed d).reserve from hv.trans hregs.2.2.1.symm)]
        obtain ⟨hfa', rfl, ha⟩ := firstFault_single hf'
        obtain ⟨t, ht, hft, hgpr, hfpr⟩ := writeEffective_of_fault hfa' d 4 s.gprS
        have hst : (u.dressed d).writeEffective h (u.dressed d).eaX 4 (u.dressed d).gprS =
            .fault t := by
          rw [show (u.dressed d).eaX = s.eaX from hregs.2.2.2.1,
            show (u.dressed d).gprS = s.gprS from hregs.2.2.2.2]
          exact ht
        unfold E500Core.storeAt
        rw [hst, ha]
        exact ⟨t, rfl, hft, hgpr.trans hregs.1, hfpr.trans hregs.2.1⟩
      · cases hf'
  · cases hf

end

/-! ## Double words -/

/-- The exception that a lookup comes to. -/
def Access.type : Access → Option ExcType
  | ok _ => none
  | exc type => some type

namespace E500Core

variable {behind : TlbEntry} {s : E500Core M} {a b : Uint32} {flags : Nat}

theorem maskAt_high (i : Nat) :
    s.maskAt behind i &&& (BitVec.allOnes 32 <<< 10) = s.maskAt behind i := by
  unfold maskAt
  split
  · unfold pageMask
    generalize pageUnits _ = n
    have hx : (1024 * (n - 1) - 0x1 + 1024 : Uint32).toNat % 1024 = 1023 := by bv_omega
    rw [← BitVec.toNat_inj, Word.toNat_and_high, BitVec.toNat_not]
    have hlt := (1024 * (n - 1) - 0x1 + 1024 : Uint32).isLt
    omega
  · decide

/-- Within 1 KB the translations come to the same exception or none. -/
theorem examine_block (hab : a.toNat / 1024 = b.toNat / 1024) (i : Nat) :
    (s.examine behind a flags i).map Access.type =
      (s.examine behind b flags i).map Access.type := by
  have hand : a &&& s.maskAt behind i = b &&& s.maskAt behind i := by
    have hhigh : a &&& (BitVec.allOnes 32 <<< 10) = b &&& (BitVec.allOnes 32 <<< 10) := by
      rw [← BitVec.toNat_inj, Word.toNat_and_high, Word.toNat_and_high]
      exact congrArg (· * 1024) hab
    rw [← maskAt_high, BitVec.and_comm _ (BitVec.allOnes 32 <<< 10), ← BitVec.and_assoc, hhigh,
      BitVec.and_assoc]
  have hlt : a < (s.entryAt behind i).epn <<< 12 ↔ b < (s.entryAt behind i).epn <<< 12 := by
    rw [BitVec.lt_def, BitVec.lt_def, BitVec.toNat_shiftLeft, Nat.shiftLeft_eq]
    omega
  unfold examine
  dsimp only
  rw [hand]
  simp only [hlt]
  split
  · rfl
  split
  · rfl
  split
  · rfl
  split
  · split
    · rfl
    · split
      · rfl
      · rfl
  · split
    · rfl
    · rfl

theorem walk_block (hab : a.toNat / 1024 = b.toNat / 1024) (is : List Nat) :
    (s.walk behind a flags is).2.map Access.type =
      (s.walk behind b flags is).2.map Access.type := by
  induction is with
  | nil => rfl
  | cons i is ih =>
    have he := @examine_block M behind s a b flags hab i
    unfold walk
    cases ha : s.examine behind a flags i with
    | none =>
      rw [ha] at he
      rw [Option.map_eq_none_iff.mp he.symm]
      exact ih
    | some r =>
      rw [ha] at he
      obtain ⟨r', hr', heq⟩ := Option.map_eq_some_iff.mp he.symm
      rw [hr']
      exact congrArg some heq.symm

theorem lookup_block (hab : a.toNat / 1024 = b.toNat / 1024) :
    (s.lookup behind a flags).type = (s.lookup behind b flags).type := by
  have hw := @walk_block M behind s a b flags hab walkIndices
  unfold lookup
  cases ha : (s.walk behind a flags walkIndices).2 with
  | none =>
    rw [ha] at hw
    rw [Option.map_eq_none_iff.mp hw.symm]
  | some r =>
    rw [ha] at hw
    obtain ⟨r', hr', heq⟩ := Option.map_eq_some_iff.mp hw.symm
    rw [hr']
    exact heq.symm

theorem faultAt_block {h : Host M} (hab : a.toNat / 1024 = b.toNat / 1024) :
    s.faultAt h a flags = s.faultAt h b flags := by
  have hboot : inBootPage (h.bptr s.mem) a = inBootPage (h.bptr s.mem) b := by
    have hs : a >>> 12 = b >>> 12 := by
      rw [← BitVec.toNat_inj, BitVec.toNat_ushiftRight, BitVec.toNat_ushiftRight,
        Nat.shiftRight_eq_div_pow, Nat.shiftRight_eq_div_pow]
      omega
    unfold inBootPage
    rw [hs]
  have hl := @lookup_block M (h.behind s.mem) s a b flags hab
  have htype (r : Access) : (match r with
      | .ok _ => none
      | .exc type => some type) = r.type := by
    cases r <;> rfl
  unfold faultAt
  rw [hboot, htype, htype, hl]

/-- The second translation of a double word over a page boundary is in the page of the first. -/
theorem block_of_offset {ea : Uint32} (ho : eaOffset ea > 4088) :
    ea.toNat / 1024 = ((ea &&& ~~~0xFFF) + 4089 : Uint32).toNat / 1024 := by
  have hlow : (eaOffset ea).toNat = ea.toNat % 4096 := Word.toNat_and_low ea 12 (by omega)
  have hhigh : (ea &&& ~~~0xFFF : Uint32).toNat = ea.toNat / 4096 * 4096 := by
    rw [show (~~~0xFFF : Uint32) = BitVec.allOnes 32 <<< 12 by decide]
    exact Word.toNat_and_high ea 12
  have hgt : 4088 < (eaOffset ea).toNat := ho
  have hlt := ea.isLt
  rw [BitVec.toNat_add, hhigh]
  change _ = (ea.toNat / 4096 * 4096 + 4089) % 4294967296 / 1024
  omega

end E500Core

section

variable {h : Host M} {s u v : E500Core M} {a : Uint32} {type : ExcType}
  {rest : List BusAccess}

theorem readDword_stops {ea : Uint32} {finish : E500Core M → E500Core M}
    (hf : firstFault h s [.touch ea mmuRead] = some (u, a, type, rest)) :
    ∃ t, E500Core.around (s.readEffectiveDword h ea) (fun _ => finish) = some t ∧
      Faulted u a type t ∧ t.gpr = s.gpr ∧ t.fpr = s.fpr := by
  obtain ⟨hfa, rfl, ha⟩ := firstFault_single hf
  obtain ⟨t, ht, hft, hregs⟩ := translate_of_fault (show mmuRead ≠ mmuCode by decide) hfa u
  have ht' : u.translate h ea mmuRead = .fault t := ht
  unfold E500Core.readEffectiveDword
  rw [ht', ha]
  exact ⟨t, rfl, hft, hregs⟩

theorem writeDword_stops {ea : Uint32} {data : BitVec 64} {finish : E500Core M → E500Core M}
    (hf : firstFault h s (doubleStore h s ea) = some (u, a, type, rest)) :
    ∃ t, E500Core.around (s.writeEffectiveDword h ea data) (fun _ => finish) = some t ∧
      Faulted u a type t ∧ t.gpr = s.gpr ∧ t.fpr = s.fpr := by
  unfold E500Core.writeEffectiveDword
  rcases firstFault_cons hf with ⟨hfa, rfl, ha, -⟩ | ⟨hfa, s', hp, hf'⟩
  · obtain ⟨t, ht, hft, hregs⟩ := translate_of_fault (show mmuWrite ≠ mmuCode by decide) hfa u
    have ht' : u.translate h ea mmuWrite = .fault t := ht
    rw [ht', ha]
    exact ⟨t, rfl, hft, hregs⟩
  · cases hp
    split at hf'
    · rename_i hc
      obtain ⟨ho, hrom⟩ := hc
      obtain ⟨p, hp⟩ := translate_of_none hfa
      have hp' : s.translate h ea mmuWrite = .ok p s := hp s
      have hnext := (E500Core.faultAt_block (E500Core.block_of_offset ho)).symm.trans hfa
      obtain ⟨q, hq⟩ := translate_of_none hnext
      have hq' : s.translate h ((ea &&& ~~~0xFFF) + 4089) mmuWrite = .ok q s := hq s
      unfold firstInRom at hrom
      rw [hq'] at hrom
      have hlt : q < h.bootRomSize := of_decide_eq_true hrom
      obtain ⟨hfa', rfl, ha⟩ := firstFault_single hf'
      obtain ⟨t, ht, hft, hregs⟩ := translate_of_fault (show mmuWrite ≠ mmuCode by decide) hfa' u
      have ht' : u.translate h ((ea &&& ~~~0xFFF) + 4096) mmuWrite = .fault t := ht
      rw [hp', ha]
      dsimp only
      rw [if_pos ho]
      unfold E500Core.writeOverPages
      rw [hq']
      dsimp only
      rw [if_pos hlt]
      unfold E500Core.writeSecond
      rw [ht']
      exact ⟨t, rfl, hft, hregs⟩
    · cases hf'

/-! ## All instructions -/

theorem stops_of_regs {i : Instr} (hregs : ∀ u a type rest,
    firstFault h s (i.accesses h s) = some (u, a, type, rest) →
      ∃ t, i.exec h s = some t ∧ Faulted u a type t ∧ t.gpr = s.gpr ∧ t.fpr = s.fpr) :
    Stops h i s := by
  intro u a type rest hf
  obtain ⟨t, ht, hft, hgpr, hfpr⟩ := hregs u a type rest hf
  exact ⟨t, ht, hft, fun _ => hgpr, hfpr⟩

theorem stops_fp {i : Instr} {as : List BusAccess} {k : Option (E500Core M)}
    (ha : i.accesses h s = fpAccesses s as) (he : i.exec h s = s.withFpu k)
    (hk : ∀ u a type rest, firstFault h s as = some (u, a, type, rest) →
      ∃ t, k = some t ∧ Faulted u a type t ∧ t.gpr = s.gpr ∧ t.fpr = s.fpr) :
    Stops h i s := by
  refine stops_of_regs fun u a type rest hf => ?_
  rw [ha] at hf
  obtain ⟨hf, hfpu⟩ := firstFault_fpAccesses hf
  rw [he, hfpu]
  exact hk u a type rest hf

/-- Every instruction but DCBZ stops at its first fault. -/
theorem stops_of_ne_dcbz {i : Instr} (hi : i ≠ .dcbz) : Stops h i s := by
  cases i
  case lbz | lbzu | lbzux | lbzx | lha | lhau | lhaux | lhax | lhbrx | lhz | lhzu | lhzux
      | lhzx | lwarx | lwbrx | lwz | lwzu | lwzux | lwzx | evldd =>
    exact stops_of_regs fun _ _ _ _ hf => loadAt_of_fault hf
  case stb | stbu | stbux | stbx | sth | sthbrx | sthu | sthux | sthx | stw | stwbrx | stwu
      | stwux | stwx | evstdd =>
    exact stops_of_regs fun _ _ _ _ hf => storeAt_of_fault hf
  case stwcx => exact stops_of_regs fun _ _ _ _ hf => stwcx_stops hf
  case lfd | lfdu | lfdux | lfdx =>
    exact stops_fp rfl rfl fun _ _ _ _ hf => readDword_stops hf
  case lfs | lfsu | lfsux | lfsx =>
    exact stops_fp rfl rfl fun _ _ _ _ hf => loadAt_of_fault hf
  case stfd | stfdu | stfdux | stfdx =>
    exact stops_fp rfl rfl fun _ _ _ _ hf => writeDword_stops hf
  case stfiwx | stfs | stfsu | stfsux | stfsx =>
    exact stops_fp rfl rfl fun _ _ _ _ hf => storeAt_of_fault hf
  case lmw =>
    intro u a type rest hf
    obtain ⟨t, ht, hft, hfpr⟩ := lmwLoop_stops _ s s _ _ hf
    exact ⟨t, ht, hft, fun hm => absurd (.inl rfl) hm, hfpr⟩
  case lswi =>
    intro u a type rest hf
    obtain ⟨t, ht, hft, hfpr⟩ := lswLoop_stops _ s s _ 0 4 _ hf
    exact ⟨t, ht, hft, fun hm => absurd (.inr (.inl rfl)) hm, hfpr⟩
  case lswx =>
    intro u a type rest hf
    obtain ⟨t, ht, hft, hfpr⟩ := lswLoop_stops _ s s _ 0 4 _ hf
    exact ⟨t, ht, hft, fun hm => absurd (.inr (.inr rfl)) hm, hfpr⟩
  case stmw => exact stops_of_regs fun _ _ _ _ hf => stmwLoop_stops _ s _ _ hf
  case stswi | stswx => exact stops_of_regs fun _ _ _ _ hf => stswLoop_stops _ s _ 0 0 _ hf
  case dcbz => exact absurd rfl hi

/-! ## Interrupts in between -/

theorem E500Core.writePhysical_cases (h : Host M) (s : E500Core M) (p : Uint32) (len : Nat)
    (data : Uint32) :
    ((s.writePhysical h p len data).raised = s.raised ++ [.extInt] ∧
      (s.writePhysical h p len data).written = s.written ++ [p]) ∨
    ∃ mem, s.writePhysical h p len data =
      { s with mem := mem, written := s.written ++ [p] } := by
  unfold writePhysical
  dsimp only
  split
  · exact .inl ⟨rfl, rfl⟩
  · exact .inr ⟨_, rfl⟩

/-- The accesses before the fault leave the core as it was but for the memory. -/
structure Quiet (s u : E500Core M) : Prop where
  raised : u.raised = s.raised
  pc : u.pc = s.pc
  msr : u.msr = s.msr
  ivpr : u.ivpr = s.ivpr
  ivor : u.ivor = s.ivor

/-- They do, or one of them interrupted the core. -/
def Along (s u : E500Core M) : Prop := Quiet s u ∨ s.raised.length < u.raised.length

theorem along_perform {b : BusAccess} {u' : E500Core M} (ha : Along s u)
    (hfa : u.faultAt h b.ea b.flags = none) (hp : b.perform h u = some u') : Along s u' := by
  cases b with
  | load ea len =>
    obtain ⟨pa, v, mem, -, -, rfl⟩ := load_of_perform hfa hp
    rcases ha with ha | ha
    · exact .inl ⟨ha.raised, ha.pc, ha.msr, ha.ivpr, ha.ivor⟩
    · exact .inr ha
  | store ea len data =>
    obtain ⟨pa, -, rfl⟩ := store_of_perform hfa hp
    rcases E500Core.writePhysical_cases h u pa len data with ⟨hr, -⟩ | ⟨mem, hw⟩
    · refine .inr ?_
      rw [hr, List.length_append]
      rcases ha with ha | ha
      · rw [show u.raised = s.raised from ha.raised]
        exact Nat.lt_succ_self _
      · exact Nat.lt_succ_of_lt ha
    · rw [hw]
      rcases ha with ha | ha
      · exact .inl ⟨ha.raised, ha.pc, ha.msr, ha.ivpr, ha.ivor⟩
      · exact .inr ha
  | touch ea flags =>
    cases hp
    exact ha

theorem along_firstFault {as : List BusAccess} (ha : Along s v)
    (hf : firstFault h v as = some (u, a, type, rest)) : Along s u := by
  induction as generalizing v with
  | nil => cases hf
  | cons b as ih =>
    rcases firstFault_cons hf with ⟨-, rfl, -, -⟩ | ⟨hfa, v', hp, hf'⟩
    · exact ha
    · exact ih (along_perform ha hfa hp) hf'

theorem Along.refl (s : E500Core M) : Along s s := .inl ⟨rfl, rfl, rfl, rfl, rfl⟩

/-- A fault is precise where no access before it interrupted the core. -/
theorem Faulted.precise_iff {i : Instr} {t : E500Core M} (ha : Along s u)
    (hft : Faulted u a type t) (hgpr : ¬i.LoadsMany → t.gpr = s.gpr) (hfpr : t.fpr = s.fpr) :
    PreciseIn i s u a type t ↔ u.raised = s.raised := by
  constructor
  · intro hp
    have hr := hp.raised.symm.trans hft.raised
    exact (List.append_cancel_right hr).symm
  · intro hr
    have hq : Quiet s u := by
      refine ha.resolve_right fun hlt => ?_
      rw [hr] at hlt
      exact Nat.lt_irrefl _ hlt
    refine ⟨hft.raised.trans (by rw [hr]), hft.srr0.trans hq.pc, hft.srr1.trans hq.msr, hft.dear,
      hft.npc.trans ?_, hft.written, hft.mem, hgpr, hfpr⟩
    unfold E500Core.vector
    rw [hq.ivpr, hq.ivor]

/-! ## DCBZ -/

theorem zeros_eq_nil {ea : Uint32} {n : Nat} (hz : zeros ea n = []) : n = 0 := by
  cases n with
  | zero => rfl
  | succ n => cases hz

theorem writeEffective_grows (s : E500Core M) (ea : Uint32) (len : Nat) (data : Uint32) :
    (∃ s', s.writeEffective h ea len data = .ok () s' ∧ s.raised.length ≤ s'.raised.length ∧
      s.written.length < s'.written.length) ∨
    (∃ s', s.writeEffective h ea len data = .fault s' ∧ s.raised.length < s'.raised.length ∧
      s.written.length ≤ s'.written.length) := by
  cases hfa : s.faultAt h ea mmuWrite with
  | none =>
    obtain ⟨pa, hpa⟩ := translate_of_none hfa
    have hs : s.translate h ea mmuWrite = .ok pa s := hpa s
    have hw : s.writeEffective h ea len data = .ok () (s.writePhysical h pa len data) := by
      unfold E500Core.writeEffective
      rw [hs]
    refine .inl ⟨_, hw, ?_⟩
    rcases E500Core.writePhysical_cases h s pa len data with ⟨hr, hwr⟩ | ⟨mem, hp⟩
    · rw [hr, hwr]
      simp
    · rw [hp]
      simp
  | some type =>
    obtain ⟨t, ht, hft, -⟩ := writeEffective_of_fault hfa s len data
    refine .inr ⟨t, ht, ?_⟩
    rw [hft.raised, hft.written]
    simp

theorem dcbzLoop_grows (n : Nat) : ∀ (s t : E500Core M) (ea : Uint32),
    E500Core.dcbzLoop h s ea n = some t →
    s.raised.length ≤ t.raised.length ∧ s.written.length ≤ t.written.length ∧
      (0 < n → s.raised.length < t.raised.length ∨ s.written.length < t.written.length) := by
  induction n with
  | zero =>
    intro s t ea he
    cases he
    exact ⟨Nat.le_refl _, Nat.le_refl _, fun h0 => absurd h0 (Nat.lt_irrefl _)⟩
  | succ n ih =>
    intro s t ea he
    unfold E500Core.dcbzLoop at he
    rcases writeEffective_grows (h := h) s ea 4 0 with ⟨s', hw, h1, h2⟩ | ⟨s', hw, h1, h2⟩
    · rw [hw] at he
      obtain ⟨h3, h4, -⟩ := ih s' t (ea + 4) he
      exact ⟨by omega, by omega, fun _ => by omega⟩
    · rw [hw] at he
      obtain ⟨h3, h4, -⟩ := ih s' t (ea + 4) he
      exact ⟨by omega, by omega, fun _ => by omega⟩

theorem dcbzLoop_cases (n : Nat) : ∀ (s : E500Core M) (ea : Uint32),
    firstFault h s (zeros ea n) = some (u, a, type, rest) →
    (rest = [] ∧ ∃ t, E500Core.dcbzLoop h s ea n = some t ∧ Faulted u a type t ∧
      t.gpr = s.gpr ∧ t.fpr = s.fpr) ∨
    (rest ≠ [] ∧ ∀ t, E500Core.dcbzLoop h s ea n = some t →
      u.raised.length + 1 < t.raised.length ∨ u.written.length < t.written.length) := by
  induction n with
  | zero => exact fun s ea hf => by cases hf
  | succ n ih =>
    intro s ea hf
    unfold E500Core.dcbzLoop
    rcases firstFault_cons hf with ⟨hfa, rfl, ha, hrest⟩ | ⟨hfa, s', hp, hf'⟩
    · obtain ⟨t0, ht, hft, hregs⟩ := writeEffective_of_fault hfa u 4 0
      rw [show u.writeEffective h ea 4 0 = .fault t0 from ht, ha]
      by_cases hr : rest = []
      · obtain rfl : n = 0 := zeros_eq_nil (hrest.symm.trans hr)
        exact .inl ⟨hr, t0, rfl, hft, hregs⟩
      · refine .inr ⟨hr, fun t he => ?_⟩
        have hn : 0 < n := by
          refine Nat.pos_of_ne_zero fun h0 => hr ?_
          rw [hrest, h0]
          rfl
        obtain ⟨-, -, h3⟩ := dcbzLoop_grows n t0 t (ea + 4) he
        have h4 := h3 hn
        rw [hft.raised, hft.written, List.length_append] at h4
        exact h4
    · obtain ⟨hw, hgpr', hfpr'⟩ := writeEffective_of_perform hfa hp
      rw [show s.writeEffective h ea 4 0 = .ok () s' from hw]
      rcases ih s' (ea + 4) hf' with ⟨hr, t, ht, hft, hgpr, hfpr⟩ | hr
      · exact .inl ⟨hr, t, ht, hft, hgpr.trans hgpr', hfpr.trans hfpr'⟩
      · exact .inr hr

end

/-- A storage fault is precise exactly where no access before it interrupted the core and,
for DCBZ, it is the fault of the last word. -/
theorem storage_precise_iff {h : Host M} {i : Instr} {s u : E500Core M} {a : Uint32}
    {type : ExcType} {rest : List BusAccess}
    (hf : firstFault h s (i.accesses h s) = some (u, a, type, rest)) :
    (∃ t, i.exec h s = some t ∧ PreciseIn i s u a type t) ↔
      u.raised = s.raised ∧ (i = .dcbz → rest = []) := by
  have ha : Along s u := along_firstFault (.refl s) hf
  by_cases hi : i = .dcbz
  · subst hi
    rcases dcbzLoop_cases 8 s s.eaX hf with ⟨hr, t, ht, hft, hgpr, hfpr⟩ | ⟨hr, hgo⟩
    · have hiff := hft.precise_iff (i := .dcbz) ha (fun _ => hgpr) hfpr
      constructor
      · rintro ⟨t', ht', hp⟩
        obtain rfl : t = t' := Option.some.inj (ht.symm.trans ht')
        exact ⟨hiff.mp hp, fun _ => hr⟩
      · rintro ⟨hu, -⟩
        exact ⟨t, ht, hiff.mpr hu⟩
    · refine iff_of_false ?_ fun hc => hr (hc.2 rfl)
      rintro ⟨t, ht, hp⟩
      have hlen : s.raised.length ≤ u.raised.length := by
        rcases ha with hq | hlt
        · exact Nat.le_of_eq (congrArg List.length hq.raised.symm)
        · exact Nat.le_of_lt hlt
      have hgrow := hgo t ht
      rw [hp.raised, hp.written, List.length_append, List.length_singleton] at hgrow
      omega
  · obtain ⟨t, ht, hft, hgpr, hfpr⟩ := stops_of_ne_dcbz hi u a type rest hf
    have hiff := hft.precise_iff ha hgpr hfpr
    constructor
    · rintro ⟨t', ht', hp⟩
      obtain rfl : t = t' := Option.some.inj (ht.symm.trans ht')
      exact ⟨hiff.mp hp, fun h => absurd h hi⟩
    · rintro ⟨hu, -⟩
      exact ⟨t, ht, hiff.mpr hu⟩

/-- A host without memory and devices. -/
def bareHost : Host Unit where
  bptr _ := 0
  behind _ := noEntry
  read _ _ _ := some (none, ())
  write _ _ _ _ := ((), false)
  writeDword _ _ _ := none
  writeAcross _ _ _ _ _ := ()
  bootRomSize := 0
  singleToDouble _ := 0
  doubleToSingle _ := 0
  uninit := 0

theorem firstFault_of_fault {h : Host M} {s : E500Core M} {b : BusAccess} {type : ExcType}
    (hfa : s.faultAt h b.ea b.flags = some type) (bs : List BusAccess) :
    firstFault h s (b :: bs) = some (s, b.ea, type, bs) := by
  unfold firstFault
  rw [hfa]

/-- `dcbz 0, 0` where address 0 is not mapped: the seven other words raise exceptions too. -/
theorem not_precise_dcbz : ¬∀ (h : Host Unit) (i : Instr) (s u : E500Core Unit) (a : Uint32)
    (type : ExcType) (rest : List BusAccess),
    firstFault h s (i.accesses h s) = some (u, a, type, rest) →
      ∃ t, i.exec h s = some t ∧ PreciseIn i s u a type t := by
  intro hall
  have hfa : (onePage 1).faultAt bareHost 0 mmuWrite = some .dataTlb := by decide +kernel
  have hf : firstFault bareHost (onePage 1) (zeros (onePage 1).eaX 8) =
      some (onePage 1, 0, .dataTlb, zeros 4 7) :=
    firstFault_of_fault (b := .store 0 4 0) hfa (zeros 4 7)
  obtain ⟨t, ht, hp⟩ := hall bareHost .dcbz (onePage 1) _ _ _ _ hf
  rcases dcbzLoop_cases 8 _ _ hf with ⟨hr, -⟩ | ⟨-, hgo⟩
  · cases hr
  · have hgrow := hgo t ht
    rw [hp.raised, hp.written, List.length_append] at hgrow
    exact hgrow.elim (Nat.lt_irrefl _) (Nat.lt_irrefl _)

/-- `stw 0, 0(0)` is precise there. -/
theorem storage_precise_iff_stw :
    ∃ t, Instr.stw.exec bareHost (onePage 1) = some t ∧
      PreciseIn .stw (onePage 1) (onePage 1) 0 .dataTlb t := by
  have hfa : (onePage 1).faultAt bareHost 0 mmuWrite = some .dataTlb := by decide +kernel
  exact (storage_precise_iff (i := .stw)
    (firstFault_of_fault (b := .store 0 4 0) hfa [])).mpr ⟨rfl, fun h => by cases h⟩

end SkyEye.Ppc
