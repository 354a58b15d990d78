import SkyEye.Mips.TlbChains
import SkyEye.Mips.Decoder

/-!
# Address spaces

An entry is for one address space unless the G bits of both EntryLo registers are set. The
code takes globality from bit 8 of EntryLo0, a bit of the page frame number, and from bit 12
of EntryHi, which TLBR and the TLB exceptions hand on (`EntryRegs.global_eq`). Address spaces
are isolated in every state of a run whose writes had both in step with the G bits
(`TlbRun.isolated`); with frame 4 they are not.
-/

namespace SkyEye.Mips

open Sparc (Uint32 bit)

variable {M : Type}

namespace EntryRegs

variable (e : EntryRegs)

/-- The G bits are clear in both EntryLo registers. -/
def GClear : Prop := bit e.entryLo0 0 = false ∧ bit e.entryLo1 0 = false

/-- The G bits are set in both. -/
def GSet : Prop := bit e.entryLo0 0 = true ∧ bit e.entryLo1 0 = true

/-- The bits the code goes by agree with the G bits. -/
def GRecorded : Prop :=
  (e.GClear → bit e.entryLo0 EntryLo_G = false ∧ bit e.entryHi 12 = false) ∧
  (e.GSet → bit e.entryLo0 EntryLo_G = true ∨ bit e.entryHi 12 = true)

/-- What makes an entry global in the code. -/
theorem global_eq : e.global = (bit e.entryLo0 EntryLo_G || bit e.entryHi 12) := by
  unfold global tag
  cases h : bit e.entryLo0 EntryLo_G with
  | true =>
    rw [if_pos rfl, Bool.true_or]
    unfold bit
    rw [BitVec.getLsbD_or, show BitVec.getLsbD (0x1000 : Uint32) 12 = true by decide,
      Bool.or_true]
  | false => rw [if_neg Bool.false_ne_true, Bool.false_or]

theorem global_of_gClear (h : e.GRecorded) (hg : e.GClear) : e.global = false := by
  rw [global_eq, (h.1 hg).1, (h.1 hg).2]
  rfl

theorem global_of_gSet (h : e.GRecorded) (hg : e.GSet) : e.global = true := by
  rw [global_eq]
  rcases h.2 hg with h | h
  · rw [h, Bool.true_or]
  · rw [h, Bool.or_true]

end EntryRegs

/-- An entry written for one address space translates no address for another; one written for
all of them translates its addresses for each, itself where no other entry has its page. -/
structure Isolated (s : MipsState M) (w : AssocTlb) : Prop where
  own : ∀ (n : Fin tlbSize) (e : EntryRegs) (va : Uint32), w n = some e → e.GClear →
    s.probeTlb va = some (some n) → s.asid = e.asid
  shared : ∀ (n : Fin tlbSize) (e : EntryRegs) (va : Uint32), w n = some e → e.GSet →
    va >>> 13 = e.vpn2 → ∃ m, s.probeTlb va = some (some m) ∧
      ((∀ k e', w k = some e' → e'.vpn2 = e.vpn2 → k = n) → m = n)

theorem EntryRegs.translates_iff (e : EntryRegs) (va asid : Uint32) :
    e.translates va asid ↔ va >>> 13 = e.vpn2 ∧ (e.global = true ∨ e.asid = asid) := by
  unfold translates
  rw [Bool.and_eq_true, Bool.or_eq_true, beq_iff_eq, beq_iff_eq]

/-- In every state of a run whose writes recorded the G bits, address spaces are isolated. -/
theorem TlbRun.isolated {s : MipsState M} {w : AssocTlb} (h : TlbRun s w)
    (hw : ∀ n e, w n = some e → e.GRecorded) : Isolated s w where
  own n e va he hg hp := by
    obtain ⟨r, hr, hsome, -⟩ := h.refines.probeTlb va
    rw [hp] at hr
    cases hr
    obtain ⟨e', he', ht⟩ := hsome n rfl
    rw [he] at he'
    cases he'
    rcases ((e.translates_iff va s.asid).mp ht).2 with hglobal | hasid
    · rw [e.global_of_gClear (hw n e he) hg] at hglobal
      cases hglobal
    · exact hasid.symm
  shared n e va he hg hva := by
    obtain ⟨r, hr, hsome, hnone⟩ := h.refines.probeTlb va
    have ht : e.translates va s.asid :=
      (e.translates_iff va s.asid).mpr ⟨hva, .inl (e.global_of_gSet (hw n e he) hg)⟩
    cases r with
    | none => exact absurd ht (hnone rfl n e he)
    | some m =>
      refine ⟨m, hr, fun honly => ?_⟩
      obtain ⟨e', he', ht'⟩ := hsome m rfl
      refine honly m e' he' ?_
      rw [← ((e'.translates_iff va s.asid).mp ht').1, hva]

/-! ## The instructions as steps of a run -/

namespace TlbRun

variable {s : MipsState M} {w : AssocTlb}

theorem tlbwi (h : TlbRun s w) : TlbRun s.tlbwi (w.write (s.cp0 Index) s.entryRegs) :=
  .write _ h

theorem tlbwr (h : TlbRun s w) {s' : MipsState M} (hs : s.tlbwr = some s') :
    ∃ n, TlbRun s' (w.write n s.entryRegs) := by
  obtain ⟨n, -, rfl⟩ := Option.map_eq_some_iff.mp hs
  exact ⟨n, .write n h⟩

theorem tlbr (host : Host M) (h : TlbRun s w) : TlbRun (s.tlbr host) w := .other h rfl rfl

/-- A change of the address space, and of any other register. -/
theorem writeCp0 (h : TlbRun s w) (n : Nat) (x : Uint32) : TlbRun (s.writeCp0 n x) w := by
  obtain ⟨_, _, _, _, he, -⟩ := MipsState.writeCp0_spec (s := s) n x
  rw [he]
  exact .other h rfl rfl

/-- An exception leaves the TLB as it is, the ones of `translate_vaddr` included. -/
theorem processException (h : TlbRun s w) (cause vec : Uint32) :
    TlbRun (s.processException cause vec) w := .other h rfl rfl

theorem tlbFault (h : TlbRun s w) (va : Uint32) : TlbRun (s.tlbFault va) w := .other h rfl rfl

end TlbRun

/-! ## Frame 4 -/

/-- Under ASID 1, page 4 is mapped to frame 4, G clear; then the ASID changes to 2. -/
def frameFour : MipsState Unit :=
  let s := (blankState ()).resetTlb
  let s := ((s.writeCp0 EntryHi 0x4001).writeCp0 EntryLo0 0x102).writeCp0 EntryLo1 0x2
  (s.tlbwi).writeCp0 EntryHi 0x2

/-- The entry of address space 1 translates for address space 2. -/
theorem not_isolated_frameFour : ¬∀ (s : MipsState Unit) (w : AssocTlb),
    TlbRun s w → Isolated s w := by
  intro hall
  have h : TlbRun frameFour _ := .writeCp0 (.tlbwi (.writeCp0 (.writeCp0 (.writeCp0
    (.reset (blankState ())) EntryHi 0x4001) EntryLo0 0x102) EntryLo1 0x2)) EntryHi 0x2
  have hi := (hall _ _ h).own 0 ⟨0x4001, 0x102, 0x2⟩ 0x4000 rfl ⟨by decide, by decide⟩
    (by decide +kernel)
  exact absurd hi (by decide +kernel)

/-- The same pages with frame 8. -/
theorem TlbRun.isolated_frameEight :
    let s := (((((blankState ()).resetTlb.writeCp0 EntryHi 0x4001).writeCp0 EntryLo0 0x202).writeCp0
      EntryLo1 0x2).tlbwi).writeCp0 EntryHi 0x2
    ∃ w : AssocTlb, (w 0).isSome ∧ Isolated s w := by
  intro s
  have h : TlbRun s _ := .writeCp0 (.tlbwi (.writeCp0 (.writeCp0 (.writeCp0
    (.reset (blankState ())) EntryHi 0x4001) EntryLo0 0x202) EntryLo1 0x2)) EntryHi 0x2
  refine ⟨_, ?_, TlbRun.isolated h ?_⟩
  · rfl
  · intro n e he
    by_cases hn : n = 0
    · subst hn
      cases he
      exact ⟨fun _ => ⟨by decide, by decide⟩, fun hg => absurd hg.1 (by decide)⟩
    · change Function.update (fun _ => none) (0 : Fin tlbSize) _ n = some e at he
      rw [Function.update_of_ne hn] at he
      cases he

end SkyEye.Mips
