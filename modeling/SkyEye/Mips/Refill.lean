import SkyEye.Mips.Raises
import SkyEye.Mips.TlbInstr

/-!
# Refilling the TLB

A translation that misses leaves the address in BadVAddr and EntryHi, and the entry that the
handler then writes with TLBWR serves the same translation, wherever `get_random` puts it.
Context gets the address masked in place instead of shifted, over what Context held.
-/

namespace SkyEye.Mips

open Sparc (Uint32 bit)

variable {M : Type}

namespace MipsState

variable {s t u v : MipsState M} {va : Uint32}

/-- An access that the TLB translates, for the mode of the core. -/
def Mapped (s : MipsState M) (va : Uint32) : Prop :=
  vaddrRegion va < 4 ∨ (6 ≤ vaddrRegion va ∧ s.inUmode = false)

theorem translateVaddr_of_mapped (hm : s.Mapped va) (type : AccessType) :
    s.translateVaddr va type = s.translateMapped va type := by
  unfold translateVaddr
  rcases hm with h | ⟨h6, hu⟩
  · rw [if_pos h]
  · rw [if_neg (by omega), hu, if_neg Bool.false_ne_true, if_neg (by omega), if_neg (by omega)]

/-- The translation reaches the TLB and finds no entry. -/
structure Misses (s : MipsState M) (va : Uint32) : Prop where
  mapped : s.Mapped va
  probe : s.probeTlb va = some none

theorem Misses.translateVaddr (h : s.Misses va) (type : AccessType) :
    s.translateVaddr va type = some (none, s.processTlbRefill type va) := by
  rw [translateVaddr_of_mapped h.mapped]
  unfold translateMapped
  rw [h.probe]

theorem Misses.state_eq (h : s.Misses va) {type : AccessType}
    (ht : s.translateVaddr va type = some (none, t)) : t = s.processTlbRefill type va := by
  rw [h.translateVaddr type] at ht
  exact (congrArg Prod.snd (Option.some.inj ht)).symm

/-! ## The registers of a miss -/

/-- What `t` holds of a miss at `va` in `s`. -/
structure MissRegs (s t : MipsState M) (va : Uint32) : Prop where
  badVAddr : t.cp0 BadVAddr = va
  entryHi : t.cp0 EntryHi = (va &&& 0xFFFFE000) ||| s.asid
  pteBase : Sparc.bits (t.cp0 Context) 31 23 = Sparc.bits (s.cp0 Context) 31 23
  badVpn2 : Sparc.bits (t.cp0 Context) 22 4 = Sparc.bits va 31 13

/-- Context has no PTEBase, and its BadVPN2 comes out right with the address laid over it. -/
def ContextFits (s : MipsState M) (va : Uint32) : Prop :=
  Sparc.bits (s.cp0 Context) 31 23 = 0 ∧
    Sparc.bits (va ||| s.cp0 Context) 22 4 = Sparc.bits va 31 13

/-- Nothing stands in EntryHi between the VPN2 and the ASID. -/
def EntryHiFits (s : MipsState M) : Prop := Sparc.bits (s.cp0 EntryHi) 12 8 = 0

theorem refill_badVAddr (type : AccessType) :
    (s.processTlbRefill type va).cp0 BadVAddr = va := rfl

theorem refill_context (type : AccessType) : (s.processTlbRefill type va).cp0 Context =
    (va ||| s.cp0 Context) &&& 0x7FFFF0 := by
  have hc : (s.processTlbRefill type va).cp0 Context =
      (va &&& (0xFFFFE000 >>> 9)) ||| (s.cp0 Context &&& 0x7FFFF0) := rfl
  have hm : (0xFFFFE000 >>> 9 : Uint32) = 0x7FFFF0 := by decide
  rw [hc, hm, BitVec.and_comm va, BitVec.and_comm (s.cp0 Context), ← BitVec.and_or_distrib_left,
    BitVec.and_comm]

theorem refill_entryHi (type : AccessType) : (s.processTlbRefill type va).cp0 EntryHi =
    (va &&& 0xFFFFE000) ||| (s.cp0 EntryHi &&& 0x1FFF) := rfl

theorem refill_wired (type : AccessType) :
    (s.processTlbRefill type va).cp0 Wired = s.cp0 Wired := rfl

theorem SameTlb.trans {t u : MipsState M} (h : u.SameTlb t) (h' : t.SameTlb s) : u.SameTlb s :=
  ⟨h.1.trans h'.1, h.2.trans h'.2⟩

theorem sameTlb_processException (s : MipsState M) (cause vec : Uint32) :
    (s.processException cause vec).SameTlb s := ⟨rfl, rfl⟩

theorem sameTlb_tlbFault (s : MipsState M) (va : Uint32) : (s.tlbFault va).SameTlb s := ⟨rfl, rfl⟩

theorem refill_sameTlb (type : AccessType) : (s.processTlbRefill type va).SameTlb s :=
  (sameTlb_processException _ _ _).trans (sameTlb_tlbFault s va)

theorem pageBits_shift (x y : Uint32) : (x &&& 0xFFFFE000 ||| y &&& 0x1FFF) >>> 13 = x >>> 13 := by
  have hx : (0xFFFFE000 : Uint32) >>> 13 = BitVec.allOnes 32 >>> 13 := by decide
  have hy : (0x1FFF : Uint32) >>> 13 = 0#32 := by decide
  rw [BitVec.ushiftRight_or_distrib, BitVec.ushiftRight_and_distrib,
    BitVec.ushiftRight_and_distrib, hx, hy, BitVec.and_zero, BitVec.or_zero,
    ← BitVec.ushiftRight_and_distrib, BitVec.and_allOnes]

theorem pageBits_asid (x y : Uint32) :
    (x &&& 0xFFFFE000 ||| y &&& 0x1FFF) &&& 0xFF = y &&& 0xFF := by
  have hx : (0xFFFFE000 : Uint32) &&& 0xFF = 0#32 := by decide
  have hy : (0x1FFF : Uint32) &&& 0xFF = 0xFF := by decide
  rw [BitVec.and_comm _ 0xFF, BitVec.and_or_distrib_left, BitVec.and_comm 0xFF,
    BitVec.and_comm 0xFF, BitVec.and_assoc, BitVec.and_assoc, hx, hy, BitVec.and_zero,
    BitVec.zero_or]

theorem bits_pteBase (x : Uint32) : Sparc.bits (x &&& 0x7FFFF0) 31 23 = 0 := by
  apply BitVec.eq_of_getLsbD_eq
  intro i _
  have hm : (0x7FFFF0 : Uint32) = Sparc.bitsmask 22 4 := by decide
  rw [Sparc.getLsbD_bits (by decide) (by decide), BitVec.getLsbD_and, hm,
    Sparc.getLsbD_bitsmask (by decide) (by decide)]
  have h22 : ¬23 + i ≤ 22 := by omega
  have h0 : (0 : Uint32).getLsbD i = false := BitVec.getLsbD_zero
  rw [h0, decide_eq_false h22, Bool.and_false, Bool.and_false, Bool.and_false]

theorem bits_badVpn2 (x : Uint32) : Sparc.bits (x &&& 0x7FFFF0) 22 4 = Sparc.bits x 22 4 := by
  apply BitVec.eq_of_getLsbD_eq
  intro i _
  have hm : (0x7FFFF0 : Uint32) = Sparc.bitsmask 22 4 := by decide
  rw [Sparc.getLsbD_bits (by decide) (by decide), Sparc.getLsbD_bits (by decide) (by decide),
    BitVec.getLsbD_and, hm, Sparc.getLsbD_bitsmask (by decide) (by decide)]
  by_cases h : 4 + i ≤ 22 <;> simp [h]

/-- The bits that stay are those of the ASID exactly where the five above it are clear. -/
theorem pageBits_eq_iff (x y : Uint32) :
    (x &&& 0xFFFFE000 ||| y &&& 0x1FFF) = (x &&& 0xFFFFE000 ||| y &&& 0xFF) ↔
      Sparc.bits y 12 8 = 0 := by
  have hpage : (0xFFFFE000 : Uint32) = Sparc.bitsmask 31 13 := by decide
  have hlow : (0x1FFF : Uint32) = Sparc.bitsmask 12 0 := by decide
  have hasid : (0xFF : Uint32) = Sparc.bitsmask 7 0 := by decide
  have hbit (m : Uint32) (i : Nat) : (x &&& 0xFFFFE000 ||| y &&& m).getLsbD i =
      (x.getLsbD i && (decide (13 ≤ i) && decide (i ≤ 31)) || y.getLsbD i && m.getLsbD i) := by
    rw [BitVec.getLsbD_or, BitVec.getLsbD_and, BitVec.getLsbD_and, hpage,
      Sparc.getLsbD_bitsmask (by decide) (by decide)]
  constructor
  · intro h
    apply BitVec.eq_of_getLsbD_eq
    intro i _
    have h0 : (0 : Uint32).getLsbD i = false := BitVec.getLsbD_zero
    have hi := congrArg (BitVec.getLsbD · (8 + i)) h
    simp only [hbit] at hi
    rw [hlow, hasid, Sparc.getLsbD_bitsmask (by decide) (by decide),
      Sparc.getLsbD_bitsmask (by decide) (by decide)] at hi
    rw [Sparc.getLsbD_bits (by decide) (by decide), h0]
    by_cases h12 : 8 + i ≤ 12
    · have h13 : ¬13 ≤ 8 + i := by omega
      have h7 : ¬8 + i ≤ 7 := by omega
      simpa [h12, h13, h7] using hi
    · rw [decide_eq_false h12, Bool.false_and]
  · intro h
    apply BitVec.eq_of_getLsbD_eq
    intro i _
    rw [hbit, hbit, hlow, hasid, Sparc.getLsbD_bitsmask (by decide) (by decide),
      Sparc.getLsbD_bitsmask (by decide) (by decide)]
    by_cases hi : 8 ≤ i ∧ i ≤ 12
    · have hy := congrArg (BitVec.getLsbD · (i - 8)) h
      have h8 : 8 + (i - 8) = i := by omega
      have h0 : (0 : Uint32).getLsbD (i - 8) = false := BitVec.getLsbD_zero
      rw [Sparc.getLsbD_bits (by decide) (by decide), h8, decide_eq_true hi.2, Bool.true_and,
        h0] at hy
      rw [hy, Bool.false_and, Bool.false_and]
    · have he : i ≤ 12 ↔ i ≤ 7 := by omega
      simp only [he]

theorem missRegs_iff (type : AccessType) :
    s.MissRegs (s.processTlbRefill type va) va ↔ s.ContextFits va ∧ s.EntryHiFits := by
  have hentryHi : (s.processTlbRefill type va).cp0 EntryHi = (va &&& 0xFFFFE000) ||| s.asid ↔
      s.EntryHiFits := by
    rw [refill_entryHi]
    exact pageBits_eq_iff va (s.cp0 EntryHi)
  unfold ContextFits
  constructor
  · intro h
    have hp := h.pteBase
    have hv := h.badVpn2
    rw [refill_context, bits_pteBase] at hp
    rw [refill_context, bits_badVpn2] at hv
    exact ⟨⟨hp.symm, hv⟩, hentryHi.mp h.entryHi⟩
  · rintro ⟨⟨hp, hv⟩, he⟩
    refine ⟨refill_badVAddr type, hentryHi.mpr he, ?_, ?_⟩
    · rw [refill_context, bits_pteBase, hp]
    · rw [refill_context, bits_badVpn2, hv]

/-! ## The random index -/

/-- `get_random` stays within the entries that are not wired, where there are any. -/
theorem getRandom_of_lt (hw : (s.cp0 Wired).toNat < tlbSize) :
    ∃ n, s.getRandom = some n ∧ n.toNat < tlbSize := by
  have h48 : (s.cp0 Wired).toNat < 48 := hw
  unfold getRandom
  generalize s.cp0 Wired = wired at h48
  have hsub : (48 - wired).toNat = 48 - wired.toNat := by
    have h : (48 : Uint32).toNat = 48 := rfl
    rw [BitVec.toNat_sub, h]
    omega
  have hfree : 48 - wired ≠ 0 := by
    intro h
    rw [h] at hsub
    have h0 : (0 : Uint32).toNat = 0 := rfl
    omega
  have hsext : ∀ x : Uint32, x.toNat ≤ 48 → (x.signExtend 64).toNat = x.toNat := by
    intro x hx
    have hmsb : x.msb = false := by
      rw [BitVec.msb_eq_decide]
      exact decide_eq_false (by omega)
    rw [BitVec.signExtend_eq_setWidth_of_msb_false hmsb, BitVec.toNat_setWidth]
    omega
  dsimp only
  rw [if_neg hfree]
  refine ⟨_, rfl, ?_⟩
  generalize (47 - wired).signExtend 64 + (s.now - s.randomSeed) = x
  have hf := hsext (48 - wired) (by omega)
  have hm : (x % (48 - wired).signExtend 64).toNat < 48 - wired.toNat := by
    rw [BitVec.toNat_umod, hf, hsub]
    exact Nat.mod_lt _ (by omega)
  rw [BitVec.toNat_setWidth, BitVec.toNat_add, hsext wired (by omega)]
  show _ < 48
  omega

theorem signExtend_succ {y : Uint32} (hy : y ≠ 0x7FFFFFFF) :
    y.signExtend 64 + 1 = (y + 1).signExtend 64 := by
  have hlt := BitVec.toInt_lt (x := y)
  have hle := BitVec.le_toInt y
  have hmax : y.toInt ≠ 2147483647 := by
    intro h
    exact hy (BitVec.eq_of_toInt_eq h)
  have h1 : (1 : Uint32).toInt = 1 := by decide
  have h1' : (1 : BitVec 64).toInt = 1 := by decide
  apply BitVec.eq_of_toInt_eq
  rw [BitVec.toInt_add, BitVec.toInt_signExtend_of_le (by decide),
    BitVec.toInt_signExtend_of_le (by decide), BitVec.toInt_add, h1, h1',
    Int.bmod_eq_of_le (by omega) (by omega), Int.bmod_eq_of_le (by omega) (by omega)]

/-- One cycle behind `random_seed` it names the last wired entry. -/
theorem getRandom_of_le (hw : tlbSize ≤ (s.cp0 Wired).toNat) (hn : s.now = s.randomSeed + 1) :
    ∀ n, s.getRandom = some n → tlbSize ≤ n.toNat := by
  intro n hr
  unfold getRandom at hr
  generalize s.cp0 Wired = wired at hw hr
  have h1 : s.now - s.randomSeed = 1 := by
    rw [hn, BitVec.add_comm, BitVec.add_sub_cancel]
  have h48 : 48 - wired = 47 - wired + 1 := by bv_omega
  dsimp only at hr
  split at hr
  · cases hr
  rw [h1] at hr
  cases hr
  by_cases hmax : 47 - wired = 0x7FFFFFFF
  · -- there `48 - wired` wraps
    have hwired : wired = 0x80000030 := by bv_omega
    rw [hwired]
    decide
  · rw [signExtend_succ hmax, ← h48, BitVec.umod_self, BitVec.zero_add]
    have hs : (wired.signExtend 64).setWidth 32 = wired := by
      apply BitVec.eq_of_getLsbD_eq
      intro i hi
      have h64 : i < 64 := by omega
      rw [BitVec.getLsbD_setWidth, BitVec.getLsbD_signExtend, if_pos hi, decide_eq_true hi,
        decide_eq_true h64, Bool.true_and, Bool.true_and]
    rw [hs]
    exact hw

/-! ## The handler -/

/-- The handler of a miss: it loads two valid entries and leaves EntryHi as the miss `t` set
it. It cannot write Wired. -/
structure Handled (t u : MipsState M) : Prop where
  tlb : u.SameTlb t
  entryHi : u.cp0 EntryHi = t.cp0 EntryHi
  wired : u.cp0 Wired = t.cp0 Wired
  valid0 : bit (u.cp0 EntryLo0) 1
  valid1 : bit (u.cp0 EntryLo1) 1

/-- Back from the handler, in the mode and the address space of `s`. -/
structure Resumed (s u v : MipsState M) : Prop where
  tlb : v.SameTlb u
  asid : v.asid = s.asid
  mode : v.mode = s.mode

/-- The word of the pair that translates `va`. -/
def pte (u : MipsState M) (va : Uint32) : Uint32 :=
  if bit va 12 then u.cp0 EntryLo1 else u.cp0 EntryLo0

/-- The frame of the word, followed by the offset in the page. -/
def frameAddress (lo va : Uint32) : Uint32 :=
  (Sparc.bits lo 25 6 <<< 12) ||| Sparc.bits va 11 0

/-- What `v` translates `va` to by `lo`. -/
def served (v : MipsState M) (lo va : Uint32) (type : AccessType) :
    Option Uint32 × MipsState M :=
  if type = .dataStore ∧ bit lo 2 = false then (none, v.processTlbModified va)
  else (some (frameAddress lo va), v)

/-- From the miss at `va` to the same translation again. -/
def RefillWorks (s : MipsState M) (va : Uint32) : Prop :=
  ∀ type, ∃ t, s.translateVaddr va type = some (none, t) ∧ s.MissRegs t va ∧
    ∀ u, t.Handled u → ∃ u', u.tlbwr = some u' ∧
      ∀ v, s.Resumed u' v → ∀ type', v.translateVaddr va type' = some (v.served (u.pte va) va type')

theorem frameAddress_eq (lo va : Uint32) :
    ((lo <<< 6) &&& 0xFFFFF000) ||| (va &&& 0xFFF) = frameAddress lo va := by
  have hh : (0xFFFFF000 : Uint32) = Sparc.bitsmask 31 12 := by decide
  have hl : (0xFFF : Uint32) = Sparc.bitsmask 11 0 := by decide
  unfold frameAddress
  apply BitVec.eq_of_getLsbD_eq
  intro i hi
  rw [BitVec.getLsbD_or, BitVec.getLsbD_or, BitVec.getLsbD_and, BitVec.getLsbD_and, hh, hl,
    Sparc.getLsbD_bitsmask (by decide) (by decide), Sparc.getLsbD_bitsmask (by decide) (by decide),
    BitVec.getLsbD_shiftLeft, BitVec.getLsbD_shiftLeft, Sparc.getLsbD_bits (by decide) (by decide),
    Sparc.getLsbD_bits (by decide) (by decide)]
  by_cases h12 : 12 ≤ i
  · have h6 : ¬i < 6 := by omega
    have h11 : ¬i ≤ 11 := by omega
    have hi12 : ¬i < 12 := by omega
    have he : 6 + (i - 12) = i - 6 := by omega
    have h31 : i ≤ 31 := by omega
    simp [h12, h6, h11, hi12, he, hi, h31]
  · have h11 : i ≤ 11 := by omega
    have hi12 : i < 12 := by omega
    simp [h12, h11, hi12]

/-! ## The translation after it -/

/-- The search after TLBWR finds the entry it has written. -/
theorem probeTlb_written {w : AssocTlb} {n : Uint32} (hr : Refines s w)
    (hm : s.probeTlb va = some none) (hn : n.toNat < tlbSize) (hu : u.SameTlb s)
    (hv : v.SameTlb (u.setTlbEntry n))
    (hpage : u.cp0 EntryHi >>> 13 = va >>> 13) (huasid : u.asid = s.asid)
    (hasid : v.asid = s.asid) : v.probeTlb va = some (some ⟨n.toNat, hn⟩) ∧
      (v.tlb ⟨n.toNat, hn⟩).loReg 0 = u.cp0 EntryLo0 ∧
      (v.tlb ⟨n.toNat, hn⟩).loReg 1 = u.cp0 EntryLo1 := by
  have hrv : Refines v (w.write n u.entryRegs) :=
    ((hr.of_tlb_eq hu.1 hu.2).setTlbEntry n).of_tlb_eq hv.1 hv.2
  have hwrite : ∀ k, w.write n u.entryRegs k =
      if k = ⟨n.toNat, hn⟩ then some u.entryRegs else w k := by
    intro k
    unfold AssocTlb.write
    rw [dif_pos hn, Function.update_apply]
  have hself : w.write n u.entryRegs ⟨n.toNat, hn⟩ = some u.entryRegs := by rw [hwrite, if_pos rfl]
  have hmiss : ∀ k e, w k = some e → ¬e.translates va s.asid := by
    obtain ⟨r, hp, -, hnone⟩ := hr.probeTlb va
    rw [hm] at hp
    exact hnone (Option.some.inj hp).symm
  have htrans : u.entryRegs.translates va s.asid = true := by
    have hvpn : va >>> 13 = u.entryRegs.vpn2 := hpage.symm
    have has : u.entryRegs.asid = s.asid := huasid
    unfold EntryRegs.translates
    rw [hvpn, has, BEq.rfl, BEq.rfl, Bool.or_true, Bool.and_true]
  obtain ⟨r, hp, hsome, hnone⟩ := hrv.probeTlb va
  rw [hasid] at hsome hnone
  cases r with
  | none => exact absurd htrans (hnone rfl _ _ hself)
  | some k =>
    obtain ⟨e, he, ht⟩ := hsome k rfl
    have hk : k = ⟨n.toNat, hn⟩ := by
      by_contra hne
      rw [hwrite, if_neg hne] at he
      exact hmiss k e he ht
    obtain ⟨-, h0, h1, -⟩ := hrv.written _ _ hself
    exact ⟨by rw [hp, hk], h0, h1⟩

theorem translateMapped_of_probe {e : Fin tlbSize} {lo : Uint32}
    (hp : v.probeTlb va = some (some e))
    (hlo : (v.tlb e).loReg (if bit va 12 then 1 else 0) = lo) (hvalid : bit lo 1)
    (type : AccessType) : v.translateMapped va type = some (v.served lo va type) := by
  have h1 : ¬lo &&& 0x2 = 0 := by
    intro h
    have hb := congrArg (fun x : Uint32 => x.getLsbD 1) h
    have h2 : (0x2 : Uint32).getLsbD 1 = true := by decide
    have hx : lo.getLsbD 1 = true := hvalid
    simp only [BitVec.getLsbD_and, h2, hx] at hb
    exact absurd hb (by decide)
  have h2 : lo &&& 0x4 = 0 ↔ bit lo 2 = false := by
    have hb := BitVec.and_twoPow lo 2
    have ht : BitVec.twoPow 32 2 = (0x4 : Uint32) := by decide
    unfold bit
    rw [← ht, hb]
    cases lo.getLsbD 2 <;> decide
  unfold translateMapped served
  rw [hp]
  dsimp only
  rw [hlo, if_neg h1, frameAddress_eq]
  simp only [h2]
  split <;> rfl

theorem Mapped.of_mode (hm : s.Mapped va) (hv : v.mode = s.mode) : v.Mapped va := by
  unfold Mapped inUmode at hm ⊢
  rw [hv]
  exact hm

/-- A miss stays one while the TLB, the address space and the mode stay. -/
theorem Misses.of_same {w : AssocTlb} (hm : s.Misses va) (hr : Refines s w) (hv : s.Resumed s v) :
    v.Misses va := by
  refine ⟨hm.mapped.of_mode hv.mode, ?_⟩
  obtain ⟨r, hp, -, hnone⟩ := hr.probeTlb va
  obtain ⟨r', hp', hsome', -⟩ := (hr.of_tlb_eq hv.tlb.1 hv.tlb.2).probeTlb va
  rw [hm.probe] at hp
  rw [hv.asid] at hsome'
  cases r' with
  | none => exact hp'
  | some n =>
    obtain ⟨e, he, ht⟩ := hsome' n rfl
    exact absurd ht (hnone (Option.some.inj hp).symm n e he)

theorem asid_refill (type : AccessType) (va : Uint32) :
    (s.processTlbRefill type va).asid = s.asid := by
  unfold asid
  rw [refill_entryHi, pageBits_asid]

theorem Handled.page {type : AccessType} (hu : (s.processTlbRefill type va).Handled u) :
    u.cp0 EntryHi >>> 13 = va >>> 13 ∧ u.asid = s.asid := by
  constructor
  · rw [hu.entryHi, refill_entryHi, pageBits_shift]
  · have he : u.asid = (s.processTlbRefill type va).asid := by
      unfold asid
      rw [hu.entryHi]
    rw [he, asid_refill]

/-- With an entry left to replace, the handler's entry serves the translation. -/
theorem served_of_handled {w : AssocTlb} (hr : Refines s w) (hmiss : s.Misses va)
    (hw : (s.cp0 Wired).toNat < tlbSize) {type : AccessType}
    (hu : (s.processTlbRefill type va).Handled u) : ∃ u', u.tlbwr = some u' ∧
      ∀ v, s.Resumed u' v → ∀ type', v.translateVaddr va type' =
        some (v.served (u.pte va) va type') := by
  have hwired : (u.cp0 Wired).toNat < tlbSize := by rw [hu.wired, refill_wired]; exact hw
  obtain ⟨n, hrand, hn⟩ := getRandom_of_lt hwired
  refine ⟨u.setTlbEntry n, by unfold tlbwr; rw [hrand]; rfl, fun v hv type' => ?_⟩
  obtain ⟨hpage, hasid⟩ := hu.page
  obtain ⟨hp, h0, h1⟩ :=
    probeTlb_written hr hmiss.probe hn (hu.tlb.trans (refill_sameTlb type)) hv.tlb hpage hasid
      hv.asid
  rw [translateVaddr_of_mapped (hmiss.mapped.of_mode hv.mode)]
  refine translateMapped_of_probe hp ?_ ?_ type'
  · unfold pte
    split
    · exact h1
    · exact h0
  · unfold pte
    split
    · exact hu.valid1
    · exact hu.valid0

/-- A handler that is done one cycle behind `random_seed`. -/
def earlyHandler (t : MipsState M) : MipsState M :=
  { (t.setCp0 EntryLo0 2).setCp0 EntryLo1 2 with now := t.randomSeed + 1 }

theorem handled_earlyHandler (t : MipsState M) : t.Handled t.earlyHandler := by
  have hvalid : bit (2 : Uint32) 1 = true := by decide
  exact ⟨⟨rfl, rfl⟩, rfl, rfl, hvalid, hvalid⟩

/-- Where every entry is wired, TLBWR divides by 0 or writes none. -/
theorem wired_of_refillWorks {w : AssocTlb} (hr : Refines s w) (hmiss : s.Misses va)
    (h : s.RefillWorks va) : (s.cp0 Wired).toNat < tlbSize := by
  by_contra hw
  obtain ⟨t, ht, -, hall⟩ := h .dataLoad
  have he := hmiss.state_eq ht
  have htlb : t.SameTlb s := by
    rw [he]
    exact refill_sameTlb _
  have hasid : t.asid = s.asid := by rw [he, asid_refill]
  have hu := handled_earlyHandler t
  obtain ⟨u', htlbwr, hserve⟩ := hall _ hu
  obtain ⟨n, hrand, rfl⟩ := Option.map_eq_some_iff.mp htlbwr
  have hwired : tlbSize ≤ (t.earlyHandler.cp0 Wired).toNat := by
    rw [hu.wired, he, refill_wired]
    exact Nat.not_lt.mp hw
  rw [setTlbEntry_of_le (getRandom_of_le hwired rfl n hrand)] at hserve
  -- nothing was written, so it misses again
  have hv : s.Resumed t.earlyHandler { t.earlyHandler with mode := s.mode } :=
    ⟨⟨rfl, rfl⟩, hasid, rfl⟩
  have hvs : s.Resumed s { t.earlyHandler with mode := s.mode } :=
    ⟨⟨htlb.1, htlb.2⟩, hasid, rfl⟩
  have hload := hserve _ hv .dataLoad
  rw [(hmiss.of_same hr hvs).translateVaddr] at hload
  unfold served at hload
  rw [if_neg (fun h => nomatch h.1)] at hload
  have hf : none = some (frameAddress (t.earlyHandler.pte va) va) :=
    congrArg Prod.fst (Option.some.inj hload)
  cases hf

/-- The refill of the TLB works for a miss at `va` exactly where Context holds no PTEBase and
its low half fits the address, EntryHi has no bits between its fields, and an entry is not
wired. -/
theorem refill_works_iff {w : AssocTlb} (hrun : TlbRun s w) (hmiss : s.Misses va) :
    s.RefillWorks va ↔
      s.ContextFits va ∧ s.EntryHiFits ∧ (s.cp0 Wired).toNat < tlbSize := by
  constructor
  · intro h
    obtain ⟨t, ht, hregs, -⟩ := h .dataLoad
    rw [hmiss.state_eq ht] at hregs
    obtain ⟨hc, he⟩ := (missRegs_iff .dataLoad).mp hregs
    exact ⟨hc, he, wired_of_refillWorks hrun.refines hmiss h⟩
  · rintro ⟨hc, he, hw⟩ type
    exact ⟨_, hmiss.translateVaddr type, (missRegs_iff type).mpr ⟨hc, he⟩,
      fun u hu => served_of_handled hrun.refines hmiss hw hu⟩

theorem misses_resetTlb (s : MipsState M) (hm : s.resetTlb.Mapped va) : s.resetTlb.Misses va := by
  refine ⟨hm, ?_⟩
  obtain ⟨r, hp, hsome, -⟩ := (refines_resetTlb s).probeTlb va
  cases r with
  | none => exact hp
  | some n =>
    obtain ⟨e, he, -⟩ := hsome n rfl
    cases he

theorem refill_works_iff_reset :
    (blankState ()).resetTlb.RefillWorks 0x2000 ↔
      (blankState ()).resetTlb.ContextFits 0x2000 ∧ (blankState ()).resetTlb.EntryHiFits ∧
        ((blankState ()).resetTlb.cp0 Wired).toNat < tlbSize :=
  refill_works_iff (.reset (blankState ())) (misses_resetTlb _ (.inl (by decide)))

/-- After reset, with the page table at 0x80000000. -/
def tableSet : MipsState Unit := ((blankState ()).setCp0 Context 0x80000000).resetTlb

/-- The miss clears PTEBase. -/
theorem not_refill_works : ¬∀ (s : MipsState Unit) (w : AssocTlb) (va : Uint32), TlbRun s w →
    s.cp0 Wired = 0 → s.Misses va → s.RefillWorks va := by
  intro hall
  have hm : tableSet.Misses 0x2000 := misses_resetTlb _ (.inl (by decide))
  have hrun := TlbRun.reset ((blankState ()).setCp0 Context 0x80000000)
  have hwired : tableSet.cp0 Wired = 0 := by decide +kernel
  obtain ⟨t, ht, hregs, -⟩ := hall tableSet _ 0x2000 hrun hwired hm .dataLoad
  rw [hm.state_eq ht] at hregs
  have hc := ((missRegs_iff .dataLoad).mp hregs).1.1
  exact absurd hc (by decide +kernel)

end MipsState

end SkyEye.Mips
