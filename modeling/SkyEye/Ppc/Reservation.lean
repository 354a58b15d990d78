import SkyEye.Lib.Reservation
import SkyEye.Ppc.Bus
import SkyEye.Ppc.Rfi
import SkyEye.Ppc.Storage

/-!
# Load and reserve, store conditional

The two cores of the board share its memory and step in any order. A reservation of the code is
the value that `lwarx` loaded (`reserve`), not the word, and no store ends it. So a `stwcx.` does
what it has to do exactly if no word that is not reserved holds the reserved value
(`stwcx_meets_iff`).
-/

namespace SkyEye.Ppc

open Sparc (Uint32)
open Reservation (Event held armed)

variable {D : Type}

/-! ## The machine -/

/-- `gCPU.core` and the memory; the `mem` of a core is not used between its steps. -/
structure Machine (D : Type) where
  core : Bool → E500Core (Bus D)
  bus : Bus D

namespace Machine

variable (m : Machine D) (c : Bool)

/-- The core `c` at its step, and the machine after it. -/
def view : E500Core (Bus D) := { m.core c with mem := m.bus }
def put (t : E500Core (Bus D)) : Machine D :=
  { core := Function.update m.core c t, bus := t.mem }

end Machine

/-- The physical address of an access, if its translation does not fault. -/
def E500Core.physical {M : Type} (h : Host M) (s : E500Core M) (ea : Uint32) (flags : Nat) :
    Option Uint32 :=
  if E500Core.inBootPage (h.bptr s.mem) ea then
    some ((ea &&& 0xFFF) ||| (h.bptr s.mem <<< 12))
  else
    match s.lookup (h.behind s.mem) ea flags with
    | .ok pa => some pa
    | .exc _ => none

/-- The word of RAM at an effective address. -/
def E500Core.placeAt (b : Board D) (s : E500Core (Bus D)) (ea : Uint32) (flags : Nat) :
    Option Place := (s.physical b.host ea flags).bind s.mem.placeOf

/-- The stores of a step to the addresses that `t` has written and `s` had not. -/
def storesOf (s t : E500Core (Bus D)) (len : Nat) : List (Event Bool Place) :=
  (t.written.drop s.written.length).filterMap fun p =>
    (s.mem.placeOf p).map fun place => .store (overlaps place len)

/-- What only `lwarx` and `stwcx.` change. -/
structure SameReservation (s t : E500Core (Bus D)) : Prop where
  reserve : t.reserve = s.reserve
  haveReservation : t.haveReservation = s.haveReservation

/-- A step of the machine, with the events so far, the latest one first. The instructions that
store, and those that load and compute, are sequences of `store` and `other`: a write, and
anything else that leaves the RAM and the reservation; `io` is `mach_io_do_cycle`. -/
inductive Step (b : Board D) :
    Machine D × List (Event Bool Place) → Machine D × List (Event Bool Place) → Prop
  | lwarx {m H c t} (h : (m.view c).lwarx b.host = some t)
      (hp : ((m.view c).physical b.host (m.view c).eaX mmuRead).isSome) :
      Step b (m, H) (m.put c t, .link c ((m.view c).placeAt b (m.view c).eaX mmuRead) :: H)
  | stwcx {m H c t} (h : (m.view c).stwcx b.host = some t) :
      Step b (m, H) (m.put c t, storesOf (m.view c) t 4 ++ .conditional c :: H)
  | store {m H c t ea len data} (h : (m.view c).writeEffective b.host ea len data = .ok () t) :
      Step b (m, H) (m.put c t, storesOf (m.view c) t len ++ H)
  | other {m H c t} (hr : SameReservation (m.view c) t) (hm : t.mem.ram = m.bus.ram) :
      Step b (m, H) (m.put c t, H)
  | io {m H} {m' : Machine D} (hr : ∀ c, SameReservation (m.core c) (m'.core c))
      (hm : m'.bus.ram = m.bus.ram) : Step b (m, H) (m', H)

/-- The runs from a machine without reservations. -/
inductive Run (b : Board D) (m₀ : Machine D) : Machine D × List (Event Bool Place) → Prop
  | nil (h : ∀ c, (m₀.core c).haveReservation = false) : Run b m₀ (m₀, [])
  | step {x y} (hrun : Run b m₀ x) (h : Step b x y) : Run b m₀ y

/-! ## What a conditional store has to do -/

/-- XER[SO] as a bit of CR0. -/
def soBit (s : E500Core (Bus D)) : Uint32 := if s.xer &&& xerSo ≠ 0 then crCr0So else 0

/-- The `stwcx.` of `c` to the word `w` leaves `t`: a store and CR0 = 0b001 and SO with a
reservation, the old memory and CR0 = 0b000 and SO without. -/
def StwcxMeets (m : Machine D) (H : List (Event Bool Place)) (c : Bool) (w : Place)
    (t : E500Core (Bus D)) : Prop :=
  let s := m.view c
  if held c H = some w then
    t.mem = s.mem.store w 4 s.gprS ∧
      t.cr = (s.cr &&& 0x0FFFFFFF) ||| crCr0Eq ||| soBit s
  else t.mem = s.mem ∧ t.cr = (s.cr &&& 0x0FFFFFFF) ||| soBit s

/-- No word that is not reserved holds the reserved value, and SO is clear where the core has
linked nothing. -/
def NoneOther (m : Machine D) (H : List (Event Bool Place)) (c : Bool) (w : Place) : Prop :=
  if armed c H then held c H = some w ∨ m.bus.value w 4 ≠ (m.core c).reserve
  else (m.core c).xer &&& xerSo = 0

/-! ## The reservation of the code -/

/-- The flag tells whether the core is armed, and a word that it holds has the value that it
linked. -/
structure Linked (m : Machine D) (H : List (Event Bool Place)) : Prop where
  armed : ∀ c, (m.core c).haveReservation = armed c H
  value : ∀ c w, held c H = some w → m.bus.value w 4 = (m.core c).reserve

section Translation

variable {M : Type} {h : Host M} {s u : E500Core M} {ea p : Uint32} {flags : Nat}

theorem translate_of_physical (hp : s.physical h ea flags = some p) :
    s.translate h ea flags = .ok p s := by
  unfold E500Core.physical at hp
  unfold E500Core.translate E500Core.effectiveToPhysical
  split at hp
  · rw [if_pos ‹_›]
    cases hp
    rfl
  · rw [if_neg ‹_›]
    cases hl : s.lookup (h.behind s.mem) ea flags with
    | ok pa =>
      rw [hl] at hp
      cases hp
      rfl
    | exc type =>
      rw [hl] at hp
      cases hp

theorem physical_of_translate (ht : s.translate h ea flags = .ok p u) :
    s.physical h ea flags = some p ∧ u = s := by
  unfold E500Core.translate E500Core.effectiveToPhysical at ht
  unfold E500Core.physical
  by_cases hb : E500Core.inBootPage (h.bptr s.mem) ea = true
  · rw [if_pos hb] at ht
    rw [if_pos hb]
    cases ht
    exact ⟨rfl, rfl⟩
  · rw [if_neg hb] at ht
    rw [if_neg hb]
    generalize s.lookup (h.behind s.mem) ea flags = r at ht ⊢
    cases r with
    | ok pa =>
      cases ht
      exact ⟨rfl, rfl⟩
    | exc type =>
      dsimp only at ht
      cases hx : s.ppcException type flags ea with
      | none =>
        rw [hx] at ht
        cases ht
      | some u =>
        rw [hx] at ht
        cases ht

theorem examine_read {behind : TlbEntry} {i : Nat} :
    (s.examine behind ea mmuWrite i = none → s.examine behind ea mmuRead i = none) ∧
      ∀ pa, s.examine behind ea mmuWrite i = some (.ok pa) →
        s.examine behind ea mmuRead i = some (.ok pa) := by
  have hne : ¬(mmuRead = mmuWrite ∧ s.writeDenied (s.entryAt behind i) = true) := by
    rintro ⟨h, -⟩
    exact absurd h (by decide)
  unfold E500Core.examine
  dsimp only
  rw [if_neg hne]
  by_cases hd : mmuWrite = mmuWrite ∧ s.writeDenied (s.entryAt behind i) = true
  · rw [if_pos hd]
    -- the two differ only where the entry is used and denies the store
    split_ifs
    all_goals first
      | exact ⟨id, fun _ => id⟩
      | exact ⟨id, fun pa h => by cases h⟩
  · rw [if_neg hd]
    exact ⟨id, fun _ => id⟩

theorem walk_read {behind : TlbEntry} {is : List Nat} {pa : Uint32}
    (hw : (s.walk behind ea mmuWrite is).2 = some (.ok pa)) :
    (s.walk behind ea mmuRead is).2 = some (.ok pa) := by
  induction is with
  | nil => cases hw
  | cons i is ih =>
    rw [E500Core.walk] at hw ⊢
    cases he : s.examine behind ea mmuWrite i with
    | none =>
      rw [he] at hw
      rw [examine_read.1 he]
      exact ih hw
    | some r =>
      rw [he] at hw
      obtain rfl : r = .ok pa := Option.some.inj hw
      rw [examine_read.2 pa he]

theorem physical_read (hp : s.physical h ea mmuWrite = some p) :
    s.physical h ea mmuRead = some p := by
  unfold E500Core.physical E500Core.lookup at hp ⊢
  split at hp
  · rwa [if_pos ‹_›]
  rw [if_neg ‹_›]
  generalize hw : (s.walk (h.behind s.mem) ea mmuWrite E500Core.walkIndices).2 = r at hp
  cases r with
  | none => cases hp
  | some r =>
    cases r with
    | ok pa =>
      rw [walk_read hw]
      exact hp
    | exc type => cases hp

theorem physical_congr (hm : u.mmu = s.mmu) (hr : u.msr = s.msr) (hb : u.mem = s.mem) :
    u.physical h ea flags = s.physical h ea flags := by
  unfold E500Core.physical
  rw [hb, E500Core.lookup_congr hm hr]

/-- What an exception keeps. -/
structure Kept (s u : E500Core M) : Prop where
  mem : u.mem = s.mem
  written : u.written = s.written
  reserve : u.reserve = s.reserve
  haveReservation : u.haveReservation = s.haveReservation

theorem exceptionCase_kept {type : ExcType} {flags : Nat} {a : Uint32}
    (he : s.exceptionCase type flags a = some u) : Kept s u := by
  cases type with
  | criInput | machCheck | dataSt | extInt | syscall | dec | dataTlb | insnTlb =>
    obtain rfl := Option.some.inj he
    exact ⟨rfl, rfl, rfl, rfl⟩
  | _ => cases he

theorem ppcException_kept {type : ExcType} {flags : Nat} {a : Uint32}
    (he : s.ppcException type flags a = some u) : Kept s u := by
  obtain ⟨v, hcase, rfl⟩ := Option.map_eq_some_iff.mp he
  obtain ⟨hm, hw, hr, hh⟩ := exceptionCase_kept hcase
  exact ⟨hm, hw, hr, hh⟩

theorem translate_fault_kept (ht : s.translate h ea flags = .fault u) : Kept s u := by
  unfold E500Core.translate E500Core.effectiveToPhysical at ht
  by_cases hb : E500Core.inBootPage (h.bptr s.mem) ea = true
  · rw [if_pos hb] at ht
    cases ht
  · rw [if_neg hb] at ht
    generalize s.lookup (h.behind s.mem) ea flags = r at ht
    cases r with
    | ok pa => cases ht
    | exc type =>
      dsimp only at ht
      generalize hx : s.ppcException type flags ea = x at ht
      cases x with
      | none => cases ht
      | some u' =>
        obtain rfl := Outcome.fault.inj ht
        exact ppcException_kept hx

end Translation

/-! ## What the accesses do -/

/-- From `s` to `t` at most one write of `len` bytes is done, and the reservation is kept but
for the flag. -/
inductive Wrote (b : Board D) (s t : E500Core (Bus D)) (len : Nat) : Prop
  | none (hw : t.written = s.written) (hm : t.mem.ram = s.mem.ram)
  | one (p data : Uint32) (mem : Bus D) (hw : t.written = s.written ++ [p])
    (hram : mem.ram = s.mem.ram) (hccsr : mem.ccsr = s.mem.ccsr)
    (hm : t.mem.ram = (b.write mem len p data).1.ram)

section Accesses

variable {b : Board D} {s t : E500Core (Bus D)} {ea data : Uint32} {len : Nat}

theorem interrupted_kept {M : Type} (s : E500Core M) : Kept s s.interrupted :=
  ⟨rfl, rfl, rfl, rfl⟩

theorem writePhysical_keeps {M : Type} (h : Host M) (s : E500Core M) (p : Uint32) (len : Nat)
    (data : Uint32) :
    (s.writePhysical h p len data).mem = (h.write s.mem len p (truncate len data)).1 ∧
      (s.writePhysical h p len data).written = s.written ++ [p] ∧
      (s.writePhysical h p len data).reserve = s.reserve ∧
      (s.writePhysical h p len data).haveReservation = s.haveReservation := by
  unfold E500Core.writePhysical
  generalize h.write s.mem len p (truncate len data) = r
  obtain ⟨mem, interrupt⟩ := r
  cases interrupt with
  | false => exact ⟨rfl, rfl, rfl, rfl⟩
  | true =>
    obtain ⟨hm, hw, hr, hh⟩ := interrupted_kept ({ s with mem := mem, written := s.written ++ [p] })
    exact ⟨hm, hw, hr, hh⟩

theorem writeEffective_wrote (hw : s.writeEffective b.host ea len data = .ok () t) :
    Wrote b s t len ∧ t.reserve = s.reserve ∧ t.haveReservation = s.haveReservation := by
  unfold E500Core.writeEffective at hw
  generalize ht : s.translate b.host ea mmuWrite = r at hw
  cases r with
  | ok p u =>
    obtain ⟨-, rfl⟩ := physical_of_translate ht
    obtain ⟨hm, hwr, hres, hhave⟩ := writePhysical_keeps b.host u p len data
    have ht : u.writePhysical b.host p len data = t := (Outcome.ok.inj hw).2
    rw [ht] at hm hwr hres hhave
    rw [Board.host_write] at hm
    refine ⟨.one p (truncate len data) u.mem hwr rfl rfl ?_, hres, hhave⟩
    rw [hm]
  | fault u => cases hw
  | exit => cases hw

theorem readEffective_ok {v old : Uint32} (hr : s.readEffective b.host ea len old = .ok v t) :
    ∃ p v' bus, s.physical b.host ea mmuRead = some p ∧ b.read s.mem len p = some (v', bus) ∧
      v = truncate len (v'.getD old) ∧ t = { s with mem := bus } := by
  unfold E500Core.readEffective at hr
  generalize ht : s.translate b.host ea mmuRead = r at hr
  cases r with
  | ok p u =>
    obtain ⟨hp, rfl⟩ := physical_of_translate ht
    dsimp only at hr
    rw [Board.host_read] at hr
    generalize hread : b.read u.mem len p = x at hr
    cases x with
    | none => cases hr
    | some x =>
      obtain ⟨v', bus⟩ := x
      obtain ⟨hv, ht⟩ := Outcome.ok.inj hr
      exact ⟨p, v', bus, hp, hread, hv.symm, ht.symm⟩
  | fault u => cases hr
  | exit => cases hr

theorem readEffective_fault {old : Uint32}
    (hr : s.readEffective b.host ea len old = .fault t) : Kept s t := by
  unfold E500Core.readEffective at hr
  generalize ht : s.translate b.host ea mmuRead = r at hr
  cases r with
  | ok p u =>
    dsimp only at hr
    generalize b.host.read u.mem len p = x at hr
    cases x with
    | none => cases hr
    | some x => cases hr
  | fault u =>
    obtain rfl := Outcome.fault.inj hr
    exact translate_fault_kept ht
  | exit => cases hr

theorem writeEffective_fault (hw : s.writeEffective b.host ea len data = .fault t) :
    Kept s t := by
  unfold E500Core.writeEffective at hw
  generalize ht : s.translate b.host ea mmuWrite = r at hw
  cases r with
  | ok p u => cases hw
  | fault u =>
    obtain rfl := Outcome.fault.inj hw
    exact translate_fault_kept ht
  | exit => cases hw

/-- A read goes before the write. -/
theorem Wrote.of_read {u v : E500Core (Bus D)} (h : Wrote b u v len)
    (hu : u.written = s.written) (hram : u.mem.ram = s.mem.ram)
    (hccsr : u.mem.ccsr = s.mem.ccsr) (hv : t.written = v.written) (hm : t.mem.ram = v.mem.ram) :
    Wrote b s t len := by
  cases h with
  | none hw hmem => exact .none (hv.trans (hw.trans hu)) (hm.trans (hmem.trans hram))
  | one p data mem hw hr hc hmem =>
    refine .one p data mem ?_ (hr.trans hram) (hc.trans hccsr) (hm.trans hmem)
    rw [hv, hw, hu]

/-- The events of a step say which words it can have changed. -/
theorem Wrote.value_kept (h : Wrote b s t len) {H : List (Event Bool Place)} {c : Bool}
    {v : Uint32} (hknown : ∀ w, held c H = some w → s.mem.value w 4 = v) {w : Place}
    (hheld : held c (storesOf s t len ++ H) = some w) :
    t.mem.value w 4 = v ∧ held c H = some w := by
  have hvalue {bus bus' : Bus D} (hr : bus'.ram = bus.ram) : bus'.value w 4 = bus.value w 4 :=
    Bus.value_congr fun i _ => by rw [hr]
  cases h with
  | none hw hm =>
    have hs : storesOf s t len = [] := by
      rw [storesOf, hw, List.drop_length]
      rfl
    rw [hs, List.nil_append] at hheld
    exact ⟨(hvalue hm).trans (hknown w hheld), hheld⟩
  | one p data mem hw hram hccsr hm =>
    have hplace : mem.placeOf p = s.mem.placeOf p := by
      unfold Bus.placeOf
      rw [hccsr]
    have hs : storesOf s t len =
        ((s.mem.placeOf p).map fun place => .store (overlaps place len)).toList := by
      rw [storesOf, hw, List.drop_left, List.filterMap_cons, List.filterMap_nil]
      generalize s.mem.placeOf p = place
      cases place <;> rfl
    cases hp : s.mem.placeOf p with
    | none =>
      rw [hs, hp] at hheld
      have hheld : held c H = some w := hheld
      rw [hp] at hplace
      exact ⟨(hvalue (hm.trans ((Board.write_elsewhere hplace).trans hram))).trans
        (hknown w hheld), hheld⟩
    | some place =>
      rw [hs, hp] at hheld
      rw [hp] at hplace
      obtain ⟨hheld, hmiss⟩ := Reservation.held_store hheld
      rw [Board.write_ram hplace] at hm
      refine ⟨?_, hheld⟩
      rw [hvalue hm, Bus.value_store data hmiss, hvalue hram]
      exact hknown w hheld

/-- Stores leave a core armed. -/
theorem armed_storesOf (c : Bool) (H : List (Event Bool Place)) :
    armed c (storesOf s t len ++ H) = armed c H := by
  unfold storesOf
  generalize t.written.drop s.written.length = l
  induction l with
  | nil => rfl
  | cons p l ih =>
    rw [List.filterMap_cons]
    cases s.mem.placeOf p with
    | none => exact ih
    | some place => exact ih

end Accesses

/-! ## The two instructions -/

section Instructions

variable {b : Board D} {s t : E500Core (Bus D)}

theorem lwarx_links {p : Uint32} (h : s.lwarx b.host = some t)
    (hp : s.physical b.host s.eaX mmuRead = some p) :
    t.haveReservation = true ∧ t.mem.ram = s.mem.ram ∧
      ∀ w, s.mem.placeOf p = some w → t.reserve = s.mem.value w 4 := by
  unfold E500Core.lwarx E500Core.loadAt E500Core.around at h
  generalize hr : s.readEffective b.host s.eaX 4 b.host.uninit = r at h
  cases r with
  | ok v u =>
    obtain ⟨q, v', bus, hq, hread, hv, rfl⟩ := readEffective_ok hr
    obtain rfl : p = q := Option.some.inj (hp.symm.trans hq)
    obtain rfl := Option.some.inj h
    refine ⟨rfl, (Board.read_keeps hread).1, fun w hw => ?_⟩
    rw [Board.read_ram hw] at hread
    cases hread
    exact hv
  | fault u =>
    exfalso
    unfold E500Core.readEffective at hr
    rw [translate_of_physical hp] at hr
    dsimp only at hr
    generalize b.host.read s.mem 4 p = x at hr
    cases x with
    | none => cases hr
    | some x => cases hr
  | exit => cases h

/-- The core of `stwcx.` behind its first lines. -/
def E500Core.unreserved {M : Type} (s : E500Core M) : E500Core M :=
  { s with cr := s.cr &&& 0x0FFFFFFF, haveReservation := false }

theorem unreserved_mem {M : Type} (s : E500Core M) : s.unreserved.mem = s.mem := rfl

theorem unreserved_reserve {M : Type} (s : E500Core M) : s.unreserved.reserve = s.reserve := rfl

theorem unreserved_eaX {M : Type} (s : E500Core M) : s.unreserved.eaX = s.eaX := by
  unfold E500Core.eaX E500Core.gprOrZero E500Core.unreserved
  rfl

theorem unreserved_gprS {M : Type} (s : E500Core M) : s.unreserved.gprS = s.gprS := by
  unfold E500Core.gprS E500Core.unreserved
  rfl

theorem unreserved_physical {M : Type} (h : Host M) (s : E500Core M) (ea : Uint32)
    (flags : Nat) : s.unreserved.physical h ea flags = s.physical h ea flags :=
  physical_congr rfl rfl rfl

theorem stwcx_of_unarmed (hr : s.haveReservation = false) :
    s.stwcx b.host = some { s with cr := s.cr &&& 0x0FFFFFFF } := by
  unfold E500Core.stwcx
  dsimp only
  rw [hr, if_neg Bool.false_ne_true]

theorem stwcx_of_armed (hr : s.haveReservation = true) :
    s.stwcx b.host =
      match s.unreserved.readEffective b.host s.eaX 4 b.host.uninit with
      | .ok v s => s.stwcxStore b.host v
      | .fault s => some s
      | .exit => none := by
  rw [← unreserved_eaX]
  unfold E500Core.stwcx E500Core.unreserved
  dsimp only
  rw [hr, if_pos rfl]
  generalize E500Core.readEffective b.host _ _ 4 b.host.uninit = r
  cases r with
  | ok v u => rfl
  | fault u => rfl
  | exit => rfl

/-- The end of `stwcx.` sets CR0 alone. -/
theorem stwcxEnd_eq (s : E500Core (Bus D)) :
    s.stwcxEnd = { s with cr := s.cr ||| soBit s } := by
  unfold E500Core.stwcxEnd soBit
  split
  · rfl
  · have hcr : s.cr ||| 0 = s.cr := BitVec.or_zero
    rw [hcr]

/-- What `stwcx.` does with the value that it reads. -/
theorem stwcxStore_cases {v : Uint32} (h : s.stwcxStore b.host v = some t) :
    (v ≠ s.reserve ∧ t = { s with cr := s.cr ||| soBit s }) ∨
      (v = s.reserve ∧ s.writeEffective b.host s.eaX 4 s.gprS = .fault t) ∨
      (v = s.reserve ∧ ∃ u, s.writeEffective b.host s.eaX 4 s.gprS = .ok () u ∧
        t = { u with cr := (u.cr ||| crCr0Eq) ||| soBit u }) := by
  unfold E500Core.stwcxStore at h
  by_cases hv : v = s.reserve
  · rw [if_pos hv] at h
    unfold E500Core.storeAt E500Core.around at h
    generalize hw : s.writeEffective b.host s.eaX 4 s.gprS = r at h
    cases r with
    | ok x u =>
      dsimp only at h
      rw [stwcxEnd_eq] at h
      exact .inr (.inr ⟨hv, u, rfl, (Option.some.inj h).symm⟩)
    | fault u =>
      obtain rfl := Option.some.inj h
      exact .inr (.inl ⟨hv, rfl⟩)
    | exit => cases h
  · rw [if_neg hv, stwcxEnd_eq] at h
    exact .inl ⟨hv, (Option.some.inj h).symm⟩

/-- A `stwcx.` does at most one write and ends the reservation. -/
theorem stwcx_wrote (h : s.stwcx b.host = some t) :
    Wrote b s t 4 ∧ t.reserve = s.reserve ∧ t.haveReservation = false := by
  cases hr : s.haveReservation with
  | false =>
    rw [stwcx_of_unarmed hr] at h
    obtain rfl := Option.some.inj h
    exact ⟨.none rfl rfl, rfl, hr⟩
  | true =>
    rw [stwcx_of_armed hr] at h
    generalize hread : s.unreserved.readEffective b.host s.eaX 4 b.host.uninit = r at h
    cases r with
    | ok v u =>
      obtain ⟨p, v', bus, -, hbus, -, rfl⟩ := readEffective_ok hread
      obtain ⟨hram, hccsr⟩ := Board.read_keeps hbus
      obtain ⟨-, rfl⟩ | ⟨-, hw⟩ | ⟨-, u, hw, rfl⟩ := stwcxStore_cases h
      · exact ⟨.none rfl hram, rfl, rfl⟩
      · obtain ⟨hm, hwr, hres, hhave⟩ := writeEffective_fault hw
        exact ⟨.none hwr (hm ▸ hram), hres, hhave⟩
      · obtain ⟨hwrote, hres, hhave⟩ := writeEffective_wrote hw
        exact ⟨hwrote.of_read rfl hram hccsr rfl rfl, hres, hhave⟩
    | fault u =>
      obtain rfl := Option.some.inj h
      obtain ⟨hm, hw, hres, hhave⟩ := readEffective_fault hread
      exact ⟨.none hw (congrArg Bus.ram hm), hres, hhave⟩
    | exit => cases h

end Instructions

/-! ## Runs -/

section Runs

variable {b : Board D} {m m' : Machine D} {H H' : List (Event Bool Place)}

theorem Machine.view_mem (c : Bool) : (m.view c).mem = m.bus := rfl

theorem Machine.put_bus (c : Bool) (t : E500Core (Bus D)) : (m.put c t).bus = t.mem := rfl

theorem Machine.put_core_self (c : Bool) (t : E500Core (Bus D)) : (m.put c t).core c = t :=
  Function.update_self ..

theorem Machine.put_core_of_ne {c d : Bool} (t : E500Core (Bus D)) (h : d ≠ c) :
    (m.put c t).core d = m.core d := Function.update_of_ne h ..

theorem value_of_ram {bus bus' : Bus D} (hr : bus'.ram = bus.ram) (w : Place) :
    bus'.value w 4 = bus.value w 4 := Bus.value_congr fun i _ => by rw [hr]

theorem Linked.lwarx (hl : Linked m H) {c : Bool} {t : E500Core (Bus D)}
    (h : (m.view c).lwarx b.host = some t)
    (hp : ((m.view c).physical b.host (m.view c).eaX mmuRead).isSome) :
    Linked (m.put c t) (.link c ((m.view c).placeAt b (m.view c).eaX mmuRead) :: H) := by
  obtain ⟨p, hp⟩ := Option.isSome_iff_exists.mp hp
  obtain ⟨hhave, hram, hval⟩ := lwarx_links h hp
  have hplace : (m.view c).placeAt b (m.view c).eaX mmuRead = m.bus.placeOf p := by
    rw [E500Core.placeAt, hp, Option.bind_some, Machine.view_mem]
  constructor
  · intro d
    rw [Reservation.armed]
    by_cases hd : d = c
    · rw [hd, if_pos rfl, Machine.put_core_self, hhave]
    · rw [if_neg (Ne.symm hd), Machine.put_core_of_ne t hd, hl.armed]
  · intro d w hw
    rw [held] at hw
    rw [Machine.put_bus, value_of_ram hram]
    by_cases hd : d = c
    · rw [hd, if_pos rfl, hplace] at hw
      rw [hd, Machine.put_core_self, hval w hw]
    · rw [if_neg (Ne.symm hd)] at hw
      rw [Machine.put_core_of_ne t hd]
      exact hl.value d w hw

/-- A step of a core that stores as its events say. -/
theorem Linked.stores {c : Bool} {t : E500Core (Bus D)} {len : Nat} (hw : Wrote b (m.view c) t len)
    (harmed : ∀ d, ((m.put c t).core d).haveReservation = Reservation.armed d H)
    (hvalue : ∀ d w, held d H = some w → m.bus.value w 4 = ((m.put c t).core d).reserve) :
    Linked (m.put c t) (storesOf (m.view c) t len ++ H) := by
  constructor
  · intro d
    rw [armed_storesOf, harmed]
  · intro d w hheld
    rw [Machine.put_bus, (hw.value_kept (hvalue d) hheld).1]

theorem Linked.stwcx (hl : Linked m H) {c : Bool} {t : E500Core (Bus D)}
    (h : (m.view c).stwcx b.host = some t) :
    Linked (m.put c t) (storesOf (m.view c) t 4 ++ .conditional c :: H) := by
  obtain ⟨hw, -, hhave⟩ := stwcx_wrote h
  refine .stores hw (fun d => ?_) fun d w hheld => ?_
  · rw [Reservation.armed]
    by_cases hd : d = c
    · rw [hd, if_pos rfl, Machine.put_core_self, hhave]
    · rw [if_neg (Ne.symm hd), Machine.put_core_of_ne t hd, hl.armed]
  · rw [held] at hheld
    by_cases hd : d = c
    · rw [hd, if_pos rfl] at hheld
      cases hheld
    · rw [if_neg (Ne.symm hd)] at hheld
      rw [Machine.put_core_of_ne t hd]
      exact hl.value d w hheld

theorem SameReservation.put {c : Bool} {t : E500Core (Bus D)}
    (hr : SameReservation (m.view c) t) (d : Bool) :
    SameReservation (m.core d) ((m.put c t).core d) := by
  by_cases hd : d = c
  · rw [hd, Machine.put_core_self]
    exact ⟨hr.reserve, hr.haveReservation⟩
  · rw [Machine.put_core_of_ne t hd]
    exact ⟨rfl, rfl⟩

theorem Linked.of_same (hl : Linked m H) (hr : ∀ c, SameReservation (m.core c) (m'.core c))
    (hm : m'.bus.ram = m.bus.ram) : Linked m' H := by
  constructor
  · intro c
    rw [(hr c).haveReservation, hl.armed]
  · intro c w hw
    rw [value_of_ram hm, (hr c).reserve, hl.value c w hw]

theorem Linked.step (hl : Linked m H) (h : Step b (m, H) (m', H')) : Linked m' H' := by
  cases h with
  | lwarx h hp => exact hl.lwarx h hp
  | stwcx h => exact hl.stwcx h
  | store h =>
    obtain ⟨hw, hres, hhave⟩ := writeEffective_wrote h
    have hr := SameReservation.put (m := m) ⟨hres, hhave⟩
    refine .stores hw (fun d => ?_) fun d w hheld => ?_
    · rw [(hr d).haveReservation, hl.armed]
    · rw [(hr d).reserve, hl.value d w hheld]
  | other hr hm => exact hl.of_same hr.put hm
  | io hr hm => exact hl.of_same hr hm

theorem Run.linked {m₀ : Machine D} {x : Machine D × List (Event Bool Place)}
    (h : Run b m₀ x) : Linked x.1 x.2 := by
  induction h with
  | nil h =>
    constructor
    · exact h
    · intro c w hw
      cases hw
  | step hrun h ih => exact ih.step h

end Runs

/-! ## Conditional stores -/

/-- CR0 tells what `stwcx.` did. -/
theorem cr_or_so (s : E500Core (Bus D)) (cr : Uint32) :
    cr &&& 0x0FFFFFFF = (cr &&& 0x0FFFFFFF) ||| soBit s ↔ s.xer &&& xerSo = 0 := by
  unfold soBit
  split
  · rename_i hso
    refine iff_of_false (fun h => ?_) hso
    have hbit := congrArg (fun x : Uint32 => x.getLsbD 28) h
    simp at hbit
  · rename_i hso
    exact iff_of_true BitVec.or_zero.symm (not_not.mp hso)

theorem cr_or_eq_ne (s : E500Core (Bus D)) (cr : Uint32) :
    (cr &&& 0x0FFFFFFF) ||| crCr0Eq ||| soBit s ≠ (cr &&& 0x0FFFFFFF) ||| soBit s := by
  intro h
  have hbit := congrArg (fun x : Uint32 => x.getLsbD 29) h
  unfold soBit at hbit
  split at hbit <;> simp at hbit

section Conditional

variable {b : Board D} {s t : E500Core (Bus D)} {ea : Uint32} {w : Place}

theorem placeAt_eq_some {flags : Nat} (h : s.placeAt b ea flags = some w) :
    ∃ p, s.physical b.host ea flags = some p ∧ s.mem.placeOf p = some w :=
  Option.bind_eq_some_iff.mp h

theorem readEffective_place (h : s.placeAt b ea mmuWrite = some w) (old : Uint32) :
    s.readEffective b.host ea 4 old = .ok (s.mem.value w 4) s := by
  obtain ⟨p, hp, hw⟩ := placeAt_eq_some h
  unfold E500Core.readEffective
  rw [translate_of_physical (physical_read hp)]
  dsimp only
  rw [Board.host_read, Board.read_ram hw]
  rfl

theorem writeEffective_place (h : s.placeAt b ea mmuWrite = some w) (data : Uint32) :
    ∃ t, s.writeEffective b.host ea 4 data = .ok () t ∧ t.mem = s.mem.store w 4 data ∧
      t.cr = s.cr ∧ t.xer = s.xer := by
  obtain ⟨p, hp, hw⟩ := placeAt_eq_some h
  refine ⟨{ s with mem := s.mem.store w 4 data, written := s.written ++ [p] }, ?_, rfl, rfl, rfl⟩
  unfold E500Core.writeEffective
  rw [translate_of_physical hp]
  dsimp only
  unfold E500Core.writePhysical
  rw [Board.host_write, Board.write_ram hw]
  rfl

theorem stwcx_unarmed (hr : s.haveReservation = false) (h : s.stwcx b.host = some t) :
    t.mem = s.mem ∧ t.cr = s.cr &&& 0x0FFFFFFF := by
  rw [stwcx_of_unarmed hr] at h
  obtain rfl := Option.some.inj h
  exact ⟨rfl, rfl⟩

/-- A core with one: what is stored hangs on the value of the word. -/
theorem stwcx_armed (hr : s.haveReservation = true)
    (hw : s.placeAt b s.eaX mmuWrite = some w) (h : s.stwcx b.host = some t) :
    if s.mem.value w 4 = s.reserve then
      t.mem = s.mem.store w 4 s.gprS ∧ t.cr = (s.cr &&& 0x0FFFFFFF) ||| crCr0Eq ||| soBit s
    else t.mem = s.mem ∧ t.cr = (s.cr &&& 0x0FFFFFFF) ||| soBit s := by
  have hw' : s.unreserved.placeAt b s.eaX mmuWrite = some w := by
    rw [E500Core.placeAt, unreserved_physical]
    exact hw
  rw [stwcx_of_armed hr, readEffective_place hw'] at h
  obtain ⟨hv, rfl⟩ | ⟨hv, hf⟩ | ⟨hv, u, hok, rfl⟩ := stwcxStore_cases h
  all_goals rw [unreserved_mem, unreserved_reserve] at hv
  · rw [if_neg hv]
    exact ⟨rfl, rfl⟩
  · rw [unreserved_eaX, unreserved_gprS] at hf
    obtain ⟨u, hok, -⟩ := writeEffective_place hw' s.gprS
    rw [hok] at hf
    cases hf
  · rw [unreserved_eaX, unreserved_gprS] at hok
    obtain ⟨u', hok', hmem, hcr, hxer⟩ := writeEffective_place hw' s.gprS
    rw [hok'] at hok
    obtain rfl := (Outcome.ok.inj hok).2
    rw [if_pos hv]
    refine ⟨hmem, ?_⟩
    dsimp only
    have hso : soBit u' = soBit s := by
      unfold soBit
      rw [hxer]
      rfl
    rw [hcr, hso]
    rfl

theorem stwcx_returns (hr : s.haveReservation = true)
    (hw : s.placeAt b s.eaX mmuWrite = some w) : ∃ t, s.stwcx b.host = some t := by
  have hw' : s.unreserved.placeAt b s.eaX mmuWrite = some w := by
    rw [E500Core.placeAt, unreserved_physical]
    exact hw
  rw [stwcx_of_armed hr, readEffective_place hw']
  dsimp only
  unfold E500Core.stwcxStore E500Core.storeAt E500Core.around
  rw [unreserved_eaX, unreserved_gprS]
  split
  · obtain ⟨u, hok, -⟩ := writeEffective_place hw' s.gprS
    rw [hok]
    exact ⟨_, rfl⟩
  · exact ⟨_, rfl⟩

/-- The core behind `lwarx`. -/
def E500Core.reserved {M : Type} (s : E500Core M) (v : Uint32) : E500Core M :=
  { s.setD v with reserve := v, haveReservation := true }

theorem lwarx_place (h : s.placeAt b s.eaX mmuWrite = some w) :
    s.lwarx b.host = some (s.reserved (s.mem.value w 4)) := by
  unfold E500Core.lwarx E500Core.loadAt E500Core.around
  rw [readEffective_place h]
  rfl

end Conditional

/-- In every run a `stwcx.` to a word of RAM that can be stored to does what it has to exactly
if no word that is not reserved holds the reserved value, or, of a core that has linked nothing
since its last `stwcx.`, XER[SO] is clear. -/
theorem stwcx_meets_iff {b : Board D} {m₀ m : Machine D} {H : List (Event Bool Place)} {c : Bool}
    {w : Place} {t : E500Core (Bus D)} (hrun : Run b m₀ (m, H))
    (hw : (m.view c).placeAt b (m.view c).eaX mmuWrite = some w)
    (h : (m.view c).stwcx b.host = some t) : StwcxMeets m H c w t ↔ NoneOther m H c w := by
  have hl := hrun.linked
  have hhave : (m.view c).haveReservation = armed c H := hl.armed c
  unfold StwcxMeets NoneOther
  dsimp only
  cases ha : armed c H with
  | false =>
    have hheld : held c H ≠ some w := by
      intro hheld
      rw [Reservation.armed_of_held hheld] at ha
      cases ha
    obtain ⟨hm, hcr⟩ := stwcx_unarmed (hhave.trans ha) h
    rw [if_neg hheld, if_neg Bool.false_ne_true, hm, hcr]
    exact (and_iff_right rfl).trans (cr_or_so _ _)
  | true =>
    have hdid := stwcx_armed (hhave.trans ha) hw h
    rw [if_pos rfl]
    by_cases hheld : held c H = some w
    · have hv : (m.view c).mem.value w 4 = (m.view c).reserve := hl.value c w hheld
      rw [if_pos hv] at hdid
      rw [if_pos hheld]
      exact iff_of_true hdid (.inl hheld)
    · rw [if_neg hheld]
      by_cases hv : m.bus.value w 4 = (m.core c).reserve
      · have hv' : (m.view c).mem.value w 4 = (m.view c).reserve := hv
        rw [if_pos hv'] at hdid
        rw [hdid.2]
        refine iff_of_false (fun hmeets => cr_or_eq_ne _ _ hmeets.2) ?_
        rintro (h | h)
        · exact hheld h
        · exact h hv
      · have hv' : ¬(m.view c).mem.value w 4 = (m.view c).reserve := hv
        rw [if_neg hv'] at hdid
        exact iff_of_true hdid (.inr hv)

/-! ## A run -/

/-- No devices, and the boot page at address 0. -/
def ramBoard : Board Unit where
  bootRom _ _ _ := 0
  ioRead _ _ _ := none
  ioWrite dev ccsr _ _ _ := ((ccsr, dev), false)
  bptr _ := 0x80000000
  behind _ := ⟨0, 0, 0, 0, 0, 0, 0, 0, 0, 0, 0⟩
  writeDword _ _ _ := none
  writeAcross dev _ _ _ _ := dev
  singleToDouble _ := 0
  doubleToSingle _ := 0
  uninit := 0

/-- Memory that is 0, with CCSR behind it. -/
def zeroBus : Bus Unit := ⟨fun _ _ => 0, 0xFF700, ()⟩

/-- `lwarx 3, 0, 4`, and `stwcx. 6, 0, 4` and `stwcx. 6, 0, 5` -/
abbrev link4 : Uint32 := 0x7C602028
abbrev store4 : Uint32 := 0x7CC0212D
abbrev store5 : Uint32 := 0x7CC0292D

/-- A core with the address of a word in GPR4, the next word in GPR5, and 1 in GPR6. -/
def twoWords : E500Core (Bus Unit) :=
  { E500Core.critical with
    gpr := fun n => if n = 4 then 0xFFFFF000 else if n = 5 then 0xFFFFF004 else n / 6
    currentOpc := link4
    mem := zeroBus }

def twoCores : Machine Unit := ⟨fun _ => twoWords, zeroBus⟩

/-- The machine when the first core has linked the word of GPR4 and is at `opc`. -/
def linkedAt (opc : Uint32) : Machine Unit :=
  (twoCores.put false (twoWords.reserved 0)).put false
    { twoWords.reserved 0 with currentOpc := opc }

abbrev linkedWord : List (Event Bool Place) := [.link false (some (.ddr, 0))]

theorem run_linkedAt (opc : Uint32) : Run ramBoard twoCores (linkedAt opc, linkedWord) := by
  have hw : (twoCores.view false).placeAt ramBoard (twoCores.view false).eaX mmuWrite =
      some (.ddr, 0) := by decide +kernel
  have hr : (twoCores.view false).placeAt ramBoard (twoCores.view false).eaX mmuRead =
      some (.ddr, 0) := by decide +kernel
  have hlink := Step.lwarx (m := twoCores) (H := []) (lwarx_place hw) (by decide +kernel)
  rw [hr] at hlink
  exact .step (.step (.nil fun _ => rfl) hlink) (.other ⟨rfl, rfl⟩ rfl)

/-- The word of GPR5 was not linked, and a `stwcx.` stores into it. -/
theorem stwcx_stores_elsewhere : ¬∀ (b : Board Unit) (m₀ m : Machine Unit)
    (H : List (Event Bool Place)) (c : Bool) (w : Place) (t : E500Core (Bus Unit)),
    Run b m₀ (m, H) → (m.view c).placeAt b (m.view c).eaX mmuWrite = some w →
      (m.view c).stwcx b.host = some t → StwcxMeets m H c w t := by
  intro hall
  have hw : ((linkedAt store5).view false).placeAt ramBoard ((linkedAt store5).view false).eaX
      mmuWrite = some (.ddr, 4) := by decide +kernel
  obtain ⟨t, ht⟩ := stwcx_returns rfl hw
  have hdid := stwcx_armed rfl hw ht
  have hmeets := hall ramBoard twoCores _ _ false _ t (run_linkedAt store5) hw ht
  have hheld : held false linkedWord ≠ some (.ddr, 4) := by decide
  unfold StwcxMeets at hmeets
  dsimp only at hmeets
  rw [if_neg hheld] at hmeets
  rw [if_pos (by decide +kernel)] at hdid
  exact cr_or_eq_ne _ _ (hdid.2.symm.trans hmeets.2)

/-- The word of GPR4 was. -/
theorem stwcx_meets_iff_linked : ∃ t, ((linkedAt store4).view false).stwcx ramBoard.host = some t ∧
    (StwcxMeets (linkedAt store4) linkedWord false (.ddr, 0) t ↔
      NoneOther (linkedAt store4) linkedWord false (.ddr, 0)) := by
  have hw : ((linkedAt store4).view false).placeAt ramBoard ((linkedAt store4).view false).eaX
      mmuWrite = some (.ddr, 0) := by decide +kernel
  obtain ⟨t, ht⟩ := stwcx_returns rfl hw
  exact ⟨t, ht, stwcx_meets_iff (run_linkedAt store4) hw ht⟩

end SkyEye.Ppc
