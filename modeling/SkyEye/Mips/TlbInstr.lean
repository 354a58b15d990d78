import SkyEye.Mips.Cp0
import SkyEye.Mips.TlbChains

/-!
# The instructions of the TLB

TLBWI writes the entry that Index names, and TLBP leaves its number in Index. TLBR takes the
number from bits 13 to 6 of Index instead, where an index of 0 to 47 has none, and looks at
no bound. What it reads back is the entry written where that is entry 0, or where entry 0
holds the same registers.
-/

namespace SkyEye.Mips

open Sparc (Uint32 bit)

variable {M : Type}

namespace MipsState

variable {h : Host M} {s : MipsState M}

/-- `u` has the TLB of `s`; the registers may be others. -/
def SameTlb (u s : MipsState M) : Prop := u.tlb = s.tlb ∧ u.tlbMap = s.tlbMap

/-! ## TLBR -/

/-- The entry that TLBR reads, where there is one. -/
def tlbrIndex (s : MipsState M) : Nat := (Sparc.bits (s.cp0 Index) 13 6).toNat

theorem tlbrIndex_of_lt (hi : (s.cp0 Index).toNat < tlbSize) : s.tlbrIndex = 0 := by
  have h48 : (s.cp0 Index).toNat < 48 := hi
  unfold tlbrIndex
  rw [Sparc.toNat_bits (by decide) (by decide)]
  omega

theorem entryRegs_setCp0 (hi lo0 lo1 : Uint32) :
    (((s.setCp0 EntryHi hi).setCp0 EntryLo0 lo0).setCp0 EntryLo1 lo1).entryRegs =
      ⟨hi, lo0, lo1⟩ := rfl

theorem entryRegs_tlbr_of_lt (hn : s.tlbrIndex < tlbSize) : (s.tlbr h).entryRegs =
    ⟨(s.tlb ⟨s.tlbrIndex, hn⟩).hi, (s.tlb ⟨s.tlbrIndex, hn⟩).loReg 0,
      (s.tlb ⟨s.tlbrIndex, hn⟩).loReg 1⟩ := by
  unfold tlbrIndex at hn
  unfold tlbr tlbrIndex
  simp only [dif_pos hn]
  exact entryRegs_setCp0 ..

theorem tlbr_host_of_lt (hn : s.tlbrIndex < tlbSize) (h' : Host M) : s.tlbr h' = s.tlbr h := by
  unfold tlbrIndex at hn
  unfold tlbr
  simp only [dif_pos hn]

theorem entryRegs_tlbr_of_le (hn : tlbSize ≤ s.tlbrIndex) : (s.tlbr h).entryRegs =
    ⟨(h.strayEntry s s.tlbrIndex).1, (h.strayEntry s s.tlbrIndex).2.1,
      (h.strayEntry s s.tlbrIndex).2.2⟩ := by
  unfold tlbrIndex at hn
  unfold tlbr tlbrIndex
  simp only [dif_neg (Nat.not_lt.mpr hn)]
  exact entryRegs_setCp0 ..

/-! ## TLBWI -/

theorem tlbwi_content_self (hi : (s.cp0 Index).toNat < tlbSize) :
    (s.tlbwi.tlb ⟨(s.cp0 Index).toNat, hi⟩).SameContent
      (s.writtenEntry ⟨(s.cp0 Index).toNat, hi⟩) := by
  have hc := content_setTlbEntry (s := s) hi ⟨(s.cp0 Index).toNat, hi⟩
  rw [if_pos rfl] at hc
  exact hc

theorem tlbwi_content_of_ne {k : Fin tlbSize} (hk : k.val ≠ (s.cp0 Index).toNat) :
    (s.tlbwi.tlb k).SameContent (s.tlb k) := by
  unfold tlbwi
  by_cases hi : (s.cp0 Index).toNat < tlbSize
  · have hc := content_setTlbEntry (s := s) hi k
    rw [if_neg (fun e => hk (congrArg Fin.val e))] at hc
    exact hc
  · rw [setTlbEntry_of_le (Nat.not_lt.mp hi)]
    exact ⟨rfl, rfl, rfl, rfl⟩

/-! ## What the instructions promise each other -/

/-- TLBWI, then TLBR under the same index: the registers are those written. -/
def ReadsBack (h : Host M) (s : MipsState M) : Prop :=
  ∀ u : MipsState M, u.SameTlb s.tlbwi → u.cp0 Index = s.cp0 Index →
    (u.tlbr h).entryRegs = s.entryRegs

/-- TLBWI, then TLBP with the same EntryHi: Index names the entry again, unless another of
the entries written so far matches too. -/
def ProbesBack (w : AssocTlb) (s : MipsState M) : Prop :=
  ∀ u : MipsState M, u.SameTlb s.tlbwi → u.cp0 EntryHi = s.cp0 EntryHi →
    (∀ n e, w n = some e → n.val ≠ (s.cp0 Index).toNat →
      ¬e.translates (s.cp0 EntryHi) s.asid) →
    u.tlbp.map (·.cp0 Index) = some (s.cp0 Index)

/-- TLBR does not depend on what lies behind the TLB, and TLBWI changes no entry but the one
of the index. -/
structure StaysInTlb (h : Host M) (s : MipsState M) : Prop where
  tlbr : ∀ h' : Host M, s.tlbr h' = s.tlbr h
  tlbwi : ∀ k : Fin tlbSize, k.val ≠ (s.cp0 Index).toNat → (s.tlbwi.tlb k).SameContent (s.tlb k)
  dropped : tlbSize ≤ (s.cp0 Index).toNat → s.tlbwi = s

/-- The instructions agree on the index that `s` has. -/
structure IndexAgreed (h : Host M) (w : AssocTlb) (s : MipsState M) : Prop where
  readsBack : (s.cp0 Index).toNat < tlbSize → s.ReadsBack h
  probesBack : (s.cp0 Index).toNat < tlbSize → s.ProbesBack w
  stays : s.StaysInTlb h

/-- Entry 0 is the one written and its tag is EntryHi, or it holds the registers already. -/
def ZeroHolds (s : MipsState M) : Prop :=
  if s.cp0 Index = 0 then bit (s.cp0 EntryLo0) EntryLo_G → bit (s.cp0 EntryHi) 12
  else (⟨(s.tlb 0).hi, (s.tlb 0).loReg 0, (s.tlb 0).loReg 1⟩ : EntryRegs) = s.entryRegs

theorem or_bit12_eq_iff (x : Uint32) : x ||| 0x1000 = x ↔ bit x 12 := by
  constructor
  · intro h
    have hb := congrArg (fun y : Uint32 => y.getLsbD 12) h
    simp only [BitVec.getLsbD_or] at hb
    have h1 : (0x1000 : Uint32).getLsbD 12 = true := by decide
    rw [h1, Bool.or_true] at hb
    exact hb.symm
  · intro h
    apply BitVec.eq_of_getLsbD_eq
    intro i _
    have ht : (0x1000 : Uint32) = BitVec.twoPow 32 12 := by decide
    rw [BitVec.getLsbD_or, ht, BitVec.getLsbD_twoPow]
    by_cases hi : 12 = i
    · subst hi
      have hx : x.getLsbD 12 = true := h
      simp [hx]
    · simp [hi]

theorem entryTag_eq_iff :
    s.entryTag = s.cp0 EntryHi ↔ (bit (s.cp0 EntryLo0) EntryLo_G → bit (s.cp0 EntryHi) 12) := by
  unfold entryTag
  by_cases hg : bit (s.cp0 EntryLo0) EntryLo_G = true
  · rw [if_pos hg, or_bit12_eq_iff]
    exact ⟨fun h _ => h, fun h => h hg⟩
  · rw [if_neg hg]
    exact ⟨fun _ h => absurd h hg, fun _ => rfl⟩

theorem entryRegs_mk_iff {hi : Uint32} :
    (⟨hi, s.cp0 EntryLo0, s.cp0 EntryLo1⟩ : EntryRegs) = s.entryRegs ↔ hi = s.cp0 EntryHi := by
  unfold entryRegs
  rw [EntryRegs.mk.injEq]
  exact ⟨And.left, fun h => ⟨h, rfl, rfl⟩⟩

/-- What TLBR reads after TLBWI: the contents of entry 0. -/
theorem readsBack_iff_zero (hi : (s.cp0 Index).toNat < tlbSize) : s.ReadsBack h ↔
    (⟨(s.tlbwi.tlb 0).hi, (s.tlbwi.tlb 0).loReg 0, (s.tlbwi.tlb 0).loReg 1⟩ : EntryRegs) =
      s.entryRegs := by
  have hread : ∀ u : MipsState M, u.SameTlb s.tlbwi → u.cp0 Index = s.cp0 Index →
      (u.tlbr h).entryRegs =
        ⟨(s.tlbwi.tlb 0).hi, (s.tlbwi.tlb 0).loReg 0, (s.tlbwi.tlb 0).loReg 1⟩ := by
    intro u hu hx
    have h0 : u.tlbrIndex = 0 := tlbrIndex_of_lt (hx ▸ hi)
    have hlt : u.tlbrIndex < tlbSize := by rw [h0]; decide
    have he : (⟨u.tlbrIndex, hlt⟩ : Fin tlbSize) = 0 := Fin.ext h0
    rw [entryRegs_tlbr_of_lt hlt, he, hu.1]
  constructor
  · intro hr
    have hx : s.tlbwi.cp0 Index = s.cp0 Index := congrFun (cp0_setTlbEntry _) Index
    rw [← hr s.tlbwi ⟨rfl, rfl⟩ hx]
    exact (hread s.tlbwi ⟨rfl, rfl⟩ hx).symm
  · intro hz u hu hx
    rw [hread u hu hx, hz]

theorem readsBack_iff (hi : (s.cp0 Index).toNat < tlbSize) : s.ReadsBack h ↔ s.ZeroHolds := by
  rw [readsBack_iff_zero hi]
  unfold ZeroHolds
  by_cases h0 : s.cp0 Index = 0
  · have h00 : (s.cp0 Index).toNat = 0 := by rw [h0]; rfl
    have hn : (⟨(s.cp0 Index).toNat, hi⟩ : Fin tlbSize) = 0 := Fin.ext h00
    obtain ⟨h1, h2, -, -⟩ := tlbwi_content_self hi
    rw [hn] at h1 h2
    rw [if_pos h0, h1, h2]
    exact entryRegs_mk_iff.trans entryTag_eq_iff
  · have hne : ((0 : Fin tlbSize)).val ≠ (s.cp0 Index).toNat :=
      fun e => h0 (BitVec.eq_of_toNat_eq e.symm)
    obtain ⟨h1, h2, -, -⟩ := tlbwi_content_of_ne hne
    rw [if_neg h0, h1, h2]

/-- TLBP finds what TLBWI wrote, whatever the index. -/
theorem probesBack {w : AssocTlb} (hw : Refines s w) (hi : (s.cp0 Index).toNat < tlbSize) :
    s.ProbesBack w := by
  intro u hu hx hother
  have hr : Refines u (w.write (s.cp0 Index) s.entryRegs) :=
    (hw.setTlbEntry (s.cp0 Index)).of_tlb_eq hu.1 hu.2
  have hasid : u.asid = s.asid := by
    unfold asid
    rw [hx]
  obtain ⟨r, hp, hsome, hnone⟩ := hr.probeTlb (s.cp0 EntryHi)
  rw [hasid] at hsome hnone
  have hwrite : ∀ n, w.write (s.cp0 Index) s.entryRegs n =
      if n = ⟨(s.cp0 Index).toNat, hi⟩ then some s.entryRegs else w n := by
    intro n
    unfold AssocTlb.write
    rw [dif_pos hi, Function.update_apply]
  have hself : s.entryRegs.translates (s.cp0 EntryHi) s.asid = true := by
    unfold EntryRegs.translates EntryRegs.vpn2 EntryRegs.asid entryRegs asid
    rw [BEq.rfl, BEq.rfl, Bool.or_true, Bool.and_true]
  unfold tlbp
  rw [hx, hp]
  cases r with
  | none =>
    have hx := hnone rfl ⟨(s.cp0 Index).toNat, hi⟩ s.entryRegs (by rw [hwrite, if_pos rfl])
    exact absurd hself hx
  | some n =>
    obtain ⟨e, he, ht⟩ := hsome n rfl
    have hn : n = ⟨(s.cp0 Index).toNat, hi⟩ := by
      by_contra hne
      rw [hwrite, if_neg hne] at he
      exact hother n e he (fun e => hne (Fin.ext e)) ht
    have hc := (tlbwi_content_self hi).2.2.1
    rw [← hn, ← hu.1] at hc
    have hv : (u.tlb n).index.setWidth 32 = s.cp0 Index := by
      apply BitVec.eq_of_toNat_eq
      have h48 : (s.cp0 Index).toNat < 48 := hi
      rw [hc]
      unfold writtenEntry
      rw [BitVec.toNat_setWidth, BitVec.toNat_ofNat, hn]
      dsimp only
      omega
    simp only [Option.map_some, cp0_setCp0_self, hv]

theorem staysInTlb_iff : s.StaysInTlb h ↔ s.tlbrIndex < tlbSize := by
  constructor
  · intro hs
    by_contra hn
    let h' : Host M := { h with
      strayEntry := fun s n => (~~~(h.strayEntry s n).1, (h.strayEntry s n).2) }
    have he := congrArg (fun t : MipsState M => t.entryRegs.entryHi) (hs.tlbr h')
    simp only [entryRegs_tlbr_of_le (Nat.not_lt.mp hn)] at he
    have hb := congrArg (fun x : Uint32 => x.getLsbD 0) he
    simp only [h', BitVec.getLsbD_not] at hb
    cases h0 : (h.strayEntry s s.tlbrIndex).1.getLsbD 0 <;> rw [h0] at hb <;>
      exact absurd hb (by decide)
  · intro hn
    exact ⟨tlbr_host_of_lt hn, fun k hk => tlbwi_content_of_ne hk, setTlbEntry_of_le⟩

/-- TLBWI, TLBR and TLBP agree on an index exactly where entry 0, the one that TLBR reads,
holds what was written, or where the index is outside the TLB and its bits 13 to 6 name an
entry all the same. -/
theorem index_agreed_iff {w : AssocTlb} (hw : TlbRun s w) : s.IndexAgreed h w ↔
    if (s.cp0 Index).toNat < tlbSize then s.ZeroHolds else s.tlbrIndex < tlbSize := by
  by_cases hi : (s.cp0 Index).toNat < tlbSize
  · rw [if_pos hi]
    constructor
    · intro ha
      exact (readsBack_iff hi).mp (ha.readsBack hi)
    · intro hz
      refine ⟨fun _ => (readsBack_iff hi).mpr hz, fun hi => probesBack hw.refines hi, ?_⟩
      rw [staysInTlb_iff, tlbrIndex_of_lt hi]
      decide
  · rw [if_neg hi]
    constructor
    · intro ha
      exact staysInTlb_iff.mp ha.stays
    · intro hn
      exact ⟨fun h => absurd h hi, fun h => absurd h hi, staysInTlb_iff.mpr hn⟩

/-- A core out of reset about to write a page to entry 0. -/
def firstPage : MipsState Unit :=
  (((blankState ()).resetTlb.setCp0 EntryHi 0x2000).setCp0 EntryLo0 0).setCp0 Index 0

/-- And to write another one to entry 1 after it. -/
def secondPage : MipsState Unit := (firstPage.tlbwi.setCp0 EntryHi 0x4007).setCp0 Index 1

theorem tlb_secondPage : secondPage.tlb = firstPage.tlbwi.tlb := by
  unfold secondPage setCp0
  rfl

theorem tlbRun_secondPage : ∃ w, TlbRun secondPage w := by
  have h : TlbRun firstPage _ :=
    (((TlbRun.reset _).setCp0 EntryHi 0x2000).setCp0 EntryLo0 0).setCp0 Index 0
  exact ⟨_, ((TlbRun.write _ h).setCp0 EntryHi 0x4007).setCp0 Index 1⟩

theorem index_agreed_iff_second : ∃ w, secondPage.IndexAgreed bareHost w ↔
    if (secondPage.cp0 Index).toNat < tlbSize then secondPage.ZeroHolds
    else secondPage.tlbrIndex < tlbSize := by
  obtain ⟨w, hw⟩ := tlbRun_secondPage
  exact ⟨w, index_agreed_iff hw⟩

/-- TLBR reads the page of entry 0 instead. -/
theorem not_index_agreed : ¬∀ (s : MipsState Unit) (w : AssocTlb), TlbRun s w →
    s.IndexAgreed bareHost w := by
  intro hall
  obtain ⟨w, hw⟩ := tlbRun_secondPage
  have hi : (secondPage.cp0 Index).toNat < tlbSize := by decide
  have hz := (readsBack_iff hi).mp ((hall secondPage w hw).readsBack hi)
  unfold ZeroHolds entryRegs at hz
  rw [if_neg (by decide), EntryRegs.mk.injEq] at hz
  have he := hz.1
  have hx : (firstPage.cp0 Index).toNat < tlbSize := by decide
  have h00 : (firstPage.cp0 Index).toNat = 0 := by decide
  have hn : (⟨(firstPage.cp0 Index).toNat, hx⟩ : Fin tlbSize) = 0 := Fin.ext h00
  have h0 := (tlbwi_content_self hx).1
  rw [hn, ← tlb_secondPage] at h0
  rw [h0] at he
  exact absurd he (by decide)

end MipsState

end SkyEye.Mips
