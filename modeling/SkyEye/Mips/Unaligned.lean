import SkyEye.Memory.ReadBack
import SkyEye.Mips.Decoder

/-!
# Unaligned words

LWL, LWR, SWL and SWR in RAM. A pair of them reads or writes the word at any address, each
of the two the bytes in its own aligned word, if `big_endian_cpu` is the byte order of the
memory. The code takes it from a bit of `mode` that `enter_kernel_mode` does not keep.
-/

namespace SkyEye.Mips

open Sparc (Uint32 bit bitsmask clearBits)

/-- A host whose memory is RAM: `bank_read` and `bank_write` are `mem_read` and `mem_write`. -/
def ramHost : Host Banks where
  bankRead m size addr := (busType size).bind fun datatype =>
    (m.memRead datatype addr).1.map fun value => (value, (m.memRead datatype addr).2, 0)
  bankWrite m size addr value := (busType size).bind fun datatype =>
    (m.bankPtr addr).map fun _ => (m.memWrite datatype addr value, 0)
  machIoDoCycle s := s
  machSetIntr _ m := m
  strayEntry _ _ := (0, 0, 0)
  uninit := 0

namespace Unaligned

/-- LWL and LWR, SWL and SWR. -/
structure Is (store left : Bool) (instr : Uint32) : Prop where
  opcode : opcode instr =
    if store then if left then 0o52 else 0o56 else if left then 0o42 else 0o46

/-- How the instruction translates its address. -/
def type (store : Bool) : AccessType := if store then .dataStore else .dataLoad

/-- The address that the instruction has for the word at `a`, in each byte order. -/
def address (bigEndian left : Bool) (a : Uint32) : Uint32 := if bigEndian = left then a else a + 3

/-- Two addresses in one aligned word. -/
def SameWord (a b : Uint32) : Prop := a.toNat / 4 = b.toNat / 4

variable (s t : MipsState Banks) (store left : Bool) (a : Uint32)

def bigEndianCpu : Bool := s.mode &&& bmode != 0

/-- The address on the bus for a virtual address. -/
def physical (type : AccessType) (va : Uint32) : Option Uint32 :=
  ((s.translateVaddr va type).bind Prod.fst).map MipsState.busAddress

/-- The byte of memory at a virtual address. -/
def byteAt (type : AccessType) (va : Uint32) : Option (BitVec 8) :=
  (physical s type va).map s.mem.byteAt

/-- The four bytes from `a` on are in RAM. -/
structure InRam (type : AccessType) : Prop where
  laid : s.mem.Laid
  mapped : ∀ k < 4, ∃ p, physical s type (a + BitVec.ofNat 32 k) = some p ∧ s.mem.Has p

/-- Byte `k` of a register, as the byte order of the memory counts. -/
def regByte (k : Nat) (v : Uint32) : BitVec 8 := datumByte s.mem.bigEndian .word k v

/-- The states that differ from `s` in the registers and in the bytes of memory only. -/
structure Frame : Prop where
  eq : ∃ g m, t = { s with gpr := g, mem := m }
  map : s.mem.SameMap t.mem

/-- `t` has the bytes `part` of the word at `a` in the register `r`. -/
structure Loaded (r : Nat) (part : Nat → Prop) : Prop where
  bytes : ∀ k < 4, part k →
    byteAt s .dataLoad (a + BitVec.ofNat 32 k) = some (regByte s k (t.gpr r))
  kept : ∀ k < 4, ¬part k → regByte s k (t.gpr r) = regByte s k (s.gpr r)
  gpr : ∀ x, x ≠ r → t.gpr x = s.gpr x
  mem : t.mem.byteAt = s.mem.byteAt

/-- `t` has the bytes `part` of the register `r` in the word at `a`. -/
structure Stored (r : Nat) (part : Nat → Prop) : Prop where
  bytes : ∀ k < 4, part k →
    byteAt t .dataStore (a + BitVec.ofNat 32 k) = some (regByte s k (s.gpr r))
  kept : ∀ q, (∀ k < 4, part k → physical s .dataStore (a + BitVec.ofNat 32 k) ≠ some q) →
    t.mem.byteAt q = s.mem.byteAt q
  gpr : t.gpr = s.gpr

/-- What the access of the bytes `part` leaves. -/
def Accessed (r : Nat) (part : Nat → Prop) : Prop :=
  if store then Stored s t a r part else Loaded s t a r part

/-- The instructions for the word at `a`: each accesses the bytes in the aligned word of its
address, and a pair in either order all four of them. -/
structure Composes : Prop where
  single : ∀ left i, Is store left i → s.effective i = address s.mem.bigEndian left a →
    ∃ t, s.decode ramHost i = some (t, .nothingSpecial) ∧ Frame s t ∧
      Accessed s t store a (rt i) fun k => SameWord (a + BitVec.ofNat 32 k) (s.effective i)
  pair : ∀ left i j t n, Is store left i → Is store (!left) j → rt j = rt i →
    s.effective i = address s.mem.bigEndian left a → s.decode ramHost i = some (t, n) →
    t.effective j = address s.mem.bigEndian (!left) a →
    ∃ u, t.decode ramHost j = some (u, .nothingSpecial) ∧ Frame s u ∧
      Accessed s u store a (rt i) fun _ => True

/-! ## Bytes of words -/

/-- Byte `n` of a word, from the low end. -/
def byteOf (x : Uint32) (n : Nat) : BitVec 8 := (x >>> (8 * n)).setWidth 8

theorem getLsbD_byteOf (x : Uint32) (n : Nat) {j : Nat} (hj : j < 8) :
    (byteOf x n).getLsbD j = x.getLsbD (8 * n + j) := by
  rw [byteOf, BitVec.getLsbD_setWidth, BitVec.getLsbD_ushiftRight, decide_eq_true hj,
    Bool.true_and]

theorem getLsbD_copyBits {n m : Nat} (hn : n < 32) (hm : m ≤ n) (x y : Uint32) {i : Nat}
    (hi : i < 32) : (copyBits x y n m).getLsbD i =
      if m ≤ i ∧ i ≤ n then y.getLsbD (i - m) else x.getLsbD i := by
  have hc := Sparc.bit_clearBits hn hm x i
  unfold bit at hc
  rw [copyBits, BitVec.getLsbD_or, hc, BitVec.getLsbD_shiftLeft,
    Sparc.getLsbD_bits (by omega) (by omega), decide_eq_true hi, Nat.zero_add]
  by_cases h1 : m ≤ i
  · by_cases h2 : i ≤ n
    · have h3 : i - m ≤ n - m := by omega
      simp [h1, h2, h3, Nat.not_lt.mpr h1]
    · have h3 : ¬i - m ≤ n - m := by omega
      simp [h1, h2, h3]
  · simp [h1, Nat.lt_of_not_le h1]

theorem byteOf_mergeHigh (x y : Uint32) {c n : Nat} (hc : c < 4) (hn : n < 4) :
    byteOf (MipsState.mergeHigh x y c) n = if c ≤ n then byteOf y (n - c) else byteOf x n := by
  apply BitVec.eq_of_getLsbD_eq
  intro j hj
  rw [getLsbD_byteOf _ _ hj, MipsState.mergeHigh,
    getLsbD_copyBits (by omega) (by omega) _ _ (by omega)]
  by_cases h : c ≤ n
  · rw [if_pos (by omega), if_pos h, getLsbD_byteOf _ _ hj]
    congr 1
    omega
  · rw [if_neg (by omega), if_neg h, getLsbD_byteOf _ _ hj]

theorem byteOf_mergeLow (x y : Uint32) {c n : Nat} (hc : c < 4) (hn : n < 4) :
    byteOf (MipsState.mergeLow x y c) n = if n + c < 4 then byteOf y (n + c) else byteOf x n := by
  apply BitVec.eq_of_getLsbD_eq
  intro j hj
  rw [getLsbD_byteOf _ _ hj, MipsState.mergeLow,
    getLsbD_copyBits (by omega) (by omega) _ _ (by omega)]
  by_cases h : n + c < 4
  · rw [if_pos (by omega), if_pos h, getLsbD_byteOf _ _ hj,
      Sparc.getLsbD_bits (by omega) (by omega), decide_eq_true (by omega), Bool.true_and]
    congr 1
    omega
  · rw [if_neg (by omega), if_neg h, getLsbD_byteOf _ _ hj]

theorem regByte_eq {k : Nat} (v : Uint32) :
    regByte s k v = byteOf v (if s.mem.bigEndian then 3 - k else k) := rfl

theorem laneByte_eq (bigEndian : Bool) (q w : Uint32) :
    laneByte bigEndian q w =
      byteOf w (if bigEndian then 3 - q.toNat % 4 else q.toNat % 4) := by
  apply BitVec.eq_of_getLsbD_eq
  intro j hj
  rw [getLsbD_laneByte _ _ _ hj, getLsbD_byteOf _ _ hj]
  congr 1
  split <;> rfl

theorem toNat_syscmd (va : Uint32) : s.syscmd left va =
    if bigEndianCpu s = left then va.toNat % 4 else 3 - va.toNat % 4 := by
  have hb : (Sparc.bits va 1 0).toNat = va.toNat % 4 := Sparc.toNat_low_bits (by omega) va
  have hx : ∀ c : Uint32, c.toNat < 4 → (c ^^^ bitsmask 1 0).toNat = 3 - c.toNat := by
    intro c hc
    obtain h | h | h | h : c = 0 ∨ c = 1 ∨ c = 2 ∨ c = 3 := by bv_omega
    all_goals
      rw [h]
      decide
  unfold MipsState.syscmd
  dsimp only
  rw [show (s.mode &&& bmode != 0) = bigEndianCpu s from rfl]
  by_cases hl : bigEndianCpu s = left
  · rw [if_pos (beq_iff_eq.mpr hl), if_pos hl, hb]
  · rw [if_neg fun hc => hl (beq_iff_eq.mp hc), if_neg hl, hx _ (by omega), hb]

/-! ## Addresses of one word -/

/-- `y'` stands to `y` as `x'` does to `x`: in one word, at the place of `x'` in its word. -/
structure Follows (x' y y' : Uint32) : Prop where
  word : y' >>> 2 = y >>> 2
  low : y' &&& 3 = x' &&& 3

theorem sameWord_iff (x y : Uint32) : SameWord x y ↔ x >>> 2 = y >>> 2 := by
  rw [SameWord, ← BitVec.toNat_inj, BitVec.toNat_ushiftRight, BitVec.toNat_ushiftRight,
    Nat.shiftRight_eq_div_pow, Nat.shiftRight_eq_div_pow]

theorem Follows.toNat {x' y y' : Uint32} (h : Follows x' y y') :
    y'.toNat / 4 = y.toNat / 4 ∧ y'.toNat % 4 = x'.toNat % 4 := by
  refine ⟨(sameWord_iff _ _).mpr h.word, ?_⟩
  have hl := congrArg BitVec.toNat h.low
  rwa [show (3 : Uint32) = BitVec.ofNat 32 (2 ^ 2 - 1) from rfl, Word.toNat_and_low _ 2 (by omega),
    Word.toNat_and_low _ 2 (by omega)] at hl

theorem follows_and {x x' mask : Uint32} (hw : x' >>> 2 = x >>> 2) (hm : mask &&& 3 = 3) :
    Follows x' (x &&& mask) (x' &&& mask) where
  word := by rw [BitVec.ushiftRight_and_distrib, BitVec.ushiftRight_and_distrib, hw]
  low := by rw [BitVec.and_assoc, hm]

theorem follows_or_and {x x' lo mask high : Uint32} (hw : x' >>> 2 = x >>> 2)
    (hm : mask &&& 3 = 3) (hh : high &&& 3 = 0) :
    Follows x' ((lo &&& high) ||| (x &&& mask)) ((lo &&& high) ||| (x' &&& mask)) where
  word := by
    rw [BitVec.ushiftRight_or_distrib, BitVec.ushiftRight_or_distrib, (follows_and hw hm).word]
  low := by
    rw [BitVec.and_or_distrib_right, BitVec.and_assoc, hh, (follows_and hw hm).low]
    simp

theorem shiftRight_of_sameWord {x x' : Uint32} (hw : x' >>> 2 = x >>> 2) {n : Nat} (hn : 2 ≤ n) :
    x' >>> n = x >>> n := by
  obtain ⟨m, rfl⟩ := Nat.exists_eq_add_of_le hn
  rw [BitVec.shiftRight_add, BitVec.shiftRight_add, hw]

theorem bits_of_sameWord {x x' : Uint32} (hw : x' >>> 2 = x >>> 2) {m : Nat} (hm : 2 ≤ m) :
    Sparc.bits x' 31 m = Sparc.bits x 31 m := by
  have hb : ∀ y : Uint32, Sparc.bits y 31 m = y >>> m := fun y => by simp [Sparc.bits]
  rw [hb, hb, shiftRight_of_sameWord hw hm]

theorem bit_of_sameWord {x x' : Uint32} (hw : x' >>> 2 = x >>> 2) {n : Nat} (hn : 2 ≤ n) :
    bit x' n = bit x n := by
  have hb : ∀ y : Uint32, bit y n = (y >>> n).getLsbD 0 := fun y => by
    rw [BitVec.getLsbD_ushiftRight]
    rfl
  rw [hb, hb, shiftRight_of_sameWord hw hn]

variable {s t}

theorem probeFrom_congr {va va' : Uint32} (hw : va' >>> 2 = va >>> 2) (fuel : Nat)
    (e : Option (Fin tlbSize)) : s.probeFrom va' fuel e = s.probeFrom va fuel e := by
  induction fuel generalizing e with
  | zero => rfl
  | succ fuel ih =>
    cases e with
    | none => rfl
    | some e =>
      have hh : s.hit va' e = s.hit va e := by
        rw [MipsState.hit, MipsState.hit, shiftRight_of_sameWord hw (by omega)]
      rw [MipsState.probeFrom, MipsState.probeFrom, hh, ih]

theorem probeTlb_congr {va va' : Uint32} (hw : va' >>> 2 = va >>> 2) :
    s.probeTlb va' = s.probeTlb va := by
  have hh : tlbHash va' = tlbHash va := by
    apply Fin.ext
    simp only [tlbHash, bits_of_sameWord hw (show 2 ≤ 13 by omega)]
  rw [MipsState.probeTlb, MipsState.probeTlb, hh, probeFrom_congr hw]

theorem translateMapped_of_sameWord {type : AccessType} {va va' pa : Uint32}
    {u : MipsState Banks} (ht : s.translateMapped va type = some (some pa, u))
    (hw : va' >>> 2 = va >>> 2) :
    u = s ∧ ∃ pa', s.translateMapped va' type = some (some pa', s) ∧ Follows va' pa pa' := by
  unfold MipsState.translateMapped at ht ⊢
  rw [probeTlb_congr hw, bit_of_sameWord hw (show 2 ≤ 12 by omega)]
  split at ht
  · cases ht
  · cases ht
  · rename_i entry _
    dsimp only
    generalize (s.tlb entry).loReg (if bit va 12 then 1 else 0) = lo at ht ⊢
    dsimp only at ht
    split at ht
    · cases ht
    · rename_i hv
      split at ht
      · cases ht
      · rename_i hd
        cases ht
        rw [if_neg hv, if_neg hd]
        exact ⟨rfl, _, rfl, follows_or_and hw (by decide) (by decide)⟩

theorem translateVaddr_of_sameWord {type : AccessType} {va va' pa : Uint32} {u : MipsState Banks}
    (ht : s.translateVaddr va type = some (some pa, u)) (hw : va' >>> 2 = va >>> 2) :
    u = s ∧ ∃ pa', s.translateVaddr va' type = some (some pa', s) ∧ Follows va' pa pa' := by
  have hr : MipsState.vaddrRegion va' = MipsState.vaddrRegion va := by
    rw [MipsState.vaddrRegion, MipsState.vaddrRegion, bits_of_sameWord hw (by omega)]
  unfold MipsState.translateVaddr at ht ⊢
  rw [hr]
  split at ht
  · rw [if_pos ‹_›]
    exact translateMapped_of_sameWord ht hw
  rw [if_neg ‹_›]
  split at ht
  · cases ht
  rw [if_neg ‹_›]
  split at ht
  · cases ht
    rw [if_pos ‹_›]
    exact ⟨rfl, _, rfl, follows_and hw (by decide)⟩
  rw [if_neg ‹_›]
  split at ht
  · cases ht
    rw [if_pos ‹_›]
    exact ⟨rfl, _, rfl, follows_and hw (by decide)⟩
  rw [if_neg ‹_›]
  exact translateMapped_of_sameWord ht hw

theorem follows_region {x y y' lo hi mask : Uint32} (hf : Follows x y y')
    (hlo : lo.toNat % 4 = 0) (hhi : hi.toNat % 4 = 0) (hm : mask &&& 3 = 3) :
    Follows x (if lo ≤ y ∧ y < hi then y &&& mask else y)
      (if lo ≤ y' ∧ y' < hi then y' &&& mask else y') := by
  have hw := (sameWord_iff y' y).mpr hf.word
  have hc : (lo ≤ y' ∧ y' < hi) ↔ (lo ≤ y ∧ y < hi) := by
    rw [BitVec.le_def, BitVec.lt_def, BitVec.le_def, BitVec.lt_def]
    unfold SameWord at hw
    omega
  simp only [hc]
  by_cases h : lo ≤ y ∧ y < hi
  · rw [if_pos h, if_pos h]
    exact ⟨(follows_and hf.word hm).word, by rw [BitVec.and_assoc, hm, hf.low]⟩
  · rw [if_neg h, if_neg h]
    exact hf

/-- The segments that `mips_mem_read` maps are made of whole words. -/
theorem follows_busAddress {x pa pa' : Uint32} (hf : Follows x pa pa') :
    Follows x (MipsState.busAddress pa) (MipsState.busAddress pa') := by
  unfold MipsState.busAddress
  exact follows_region (follows_region hf (by decide) (by decide) (by decide)) (by decide)
    (by decide) (by decide)

theorem physical_eq_some {type : AccessType} {va p : Uint32} (hp : physical s type va = some p) :
    ∃ pa u, s.translateVaddr va type = some (some pa, u) ∧ p = MipsState.busAddress pa := by
  obtain ⟨pa, hb, rfl⟩ := Option.map_eq_some_iff.mp hp
  obtain ⟨⟨r, u⟩, ht, hr⟩ := Option.bind_eq_some_iff.mp hb
  obtain rfl : r = some pa := hr
  exact ⟨pa, u, ht, rfl⟩

theorem physical_of_sameWord {type : AccessType} {va va' p : Uint32}
    (hp : physical s type va = some p) (hw : va' >>> 2 = va >>> 2) :
    ∃ p', physical s type va' = some p' ∧ Follows va' p p' := by
  obtain ⟨pa, u, ht, rfl⟩ := physical_eq_some hp
  obtain ⟨-, pa', ht', hf⟩ := translateVaddr_of_sameWord ht hw
  exact ⟨_, by rw [physical, ht']; rfl, follows_busAddress hf⟩

theorem follows_roundDown4 (pa : Uint32) : Follows 0 pa (MipsState.roundDown4 pa) where
  word := by
    rw [MipsState.roundDown4, BitVec.ushiftRight_and_distrib]
    apply BitVec.eq_of_getLsbD_eq
    intro i hi
    have hm : ((0xFFFFFFFC : Uint32) >>> 2) = BitVec.allOnes 32 >>> 2 := by decide
    rw [hm, BitVec.getLsbD_and, BitVec.getLsbD_ushiftRight, BitVec.getLsbD_ushiftRight,
      BitVec.getLsbD_allOnes]
    by_cases h : 2 + i < 32
    · simp [h]
    · simp [BitVec.getLsbD_of_ge pa (2 + i) (by omega)]
  low := by
    rw [MipsState.roundDown4, BitVec.and_assoc]
    simp

/-! ## The instructions -/

/-- The word that the instruction reads has the bytes of memory in its lanes. -/
theorem word_of_physical {type : AccessType} {va p : Uint32} (hl : s.mem.Laid)
    (hp : physical s type va = some p) (hh : s.mem.Has p) :
    ∃ pa w, s.translateVaddr va type = some (some pa, s) ∧
      (s.mem.memRead .word (MipsState.busAddress (MipsState.roundDown4 pa))).1 = some w ∧
      s.mem.Has (MipsState.busAddress (MipsState.roundDown4 pa)) ∧
      (MipsState.busAddress (MipsState.roundDown4 pa)).toNat / 4 = p.toNat / 4 ∧
      ∀ q, s.mem.Has q → q.toNat / 4 = p.toNat / 4 →
        s.mem.byteAt q = laneByte s.mem.bigEndian q w := by
  obtain ⟨pa, u, ht, rfl⟩ := physical_eq_some hp
  obtain ⟨rfl, -⟩ := translateVaddr_of_sameWord ht rfl
  obtain ⟨hw, h0⟩ := (follows_busAddress (follows_roundDown4 pa)).toNat
  obtain ⟨i, b, hb, hc⟩ := hh
  have hstart := Banks.contains_start (hl.aligned b (List.mem_of_getElem? hb)) hc h0 hw
  obtain ⟨w, hr, hq⟩ := hl.memRead_lanes ⟨i, b, hb, hstart⟩
  exact ⟨pa, w, ht, hr, ⟨i, b, hb, hstart⟩, hw, fun q hhq hqw => hq q hhq (hqw.trans hw.symm)⟩

theorem accessed_zero (mem : Banks) : s.accessed mem 0 = { s with mem := mem } := by
  have hc : s.cp0 Cause &&& ~~~(0 : Uint32) = s.cp0 Cause := BitVec.and_allOnes
  rw [MipsState.accessed, hc]
  unfold MipsState.setCp0
  dsimp only
  rw [Function.update_eq_self]

theorem memRead_ramHost {a v : Uint32} (pa : Uint32) (data : Uint32)
    (ha : MipsState.busAddress pa = a) (hr : (s.mem.memRead .word a).1 = some v) :
    s.memRead ramHost pa data 4 = (v, { s with mem := (s.mem.memRead .word a).2 }) := by
  have hb : ramHost.bankRead s.mem (4 * 8) (MipsState.busAddress pa) =
      some (v, (s.mem.memRead .word a).2, 0) := by
    simp only [ramHost, busType, Option.bind_some, ha, hr, Option.map_some]
  rw [MipsState.memRead, hb]
  dsimp only
  rw [accessed_zero]

theorem memWrite_ramHost {a : Uint32} (pa data : Uint32) (hl : s.mem.Laid)
    (ha : MipsState.busAddress pa = a) (hh : s.mem.Has a) :
    s.memWrite ramHost pa data 4 = { s with mem := s.mem.memWrite .word a data } := by
  obtain ⟨i, b, hb, hc⟩ := hh
  have hp := hl.disjoint.bankPtr hb hc
  have hw : ramHost.bankWrite s.mem (4 * 8) (MipsState.busAddress pa) data =
      some (s.mem.memWrite .word a data, 0) := by
    simp only [ramHost, busType, Option.bind_some, ha, hp, Option.map_some]
  rw [MipsState.memWrite, hw]
  dsimp only
  rw [accessed_zero]

/-- How the instruction puts one word into the other. -/
def merge (store left : Bool) : Uint32 → Uint32 → Nat → Uint32 :=
  if store = left then MipsState.mergeLow else MipsState.mergeHigh

variable {left a}

theorem decode_load {h : Host Banks} {i : Uint32} (hi : Is false left i) :
    s.decode h i = s.loadPart h i left (merge false left) := by
  have hop := hi.opcode
  unfold MipsState.decode
  cases left <;> rw [hop] <;> rfl

theorem decode_store {h : Host Banks} {i : Uint32} (hi : Is true left i) :
    s.decode h i = s.storePart h i left (merge true left) := by
  have hop := hi.opcode
  unfold MipsState.decode
  cases left <;> rw [hop] <;> rfl

/-- A load in RAM. -/
theorem load_eq {i p : Uint32} (hi : Is false left i) (hl : s.mem.Laid)
    (hp : physical s .dataLoad (s.effective i) = some p) (hh : s.mem.Has p) :
    ∃ w d mem, s.decode ramHost i = some ({ s with
        gpr := Function.update s.gpr (rt i)
          (merge false left (s.gpr (rt i)) w (s.syscmd left (s.effective i)))
        mem := mem }, .nothingSpecial) ∧
      (s.mem.memRead .word d).1 = some w ∧ mem.byteAt = s.mem.byteAt ∧ s.mem.SameMap mem ∧
      ∀ q, s.mem.Has q → q.toNat / 4 = p.toNat / 4 →
        s.mem.byteAt q = laneByte s.mem.bigEndian q w := by
  obtain ⟨pa, w, ht, hr, -, -, hq⟩ := word_of_physical hl hp hh
  refine ⟨w, _, (s.mem.memRead .word (MipsState.busAddress (MipsState.roundDown4 pa))).2, ?_,
    hr, Banks.byteAt_memRead hl _, ⟨rfl, rfl⟩, hq⟩
  rw [decode_load hi, MipsState.loadPart, MipsState.translated, ht]
  dsimp only
  rw [memRead_ramHost _ _ rfl hr]
  rfl

/-- A store in RAM has the merged word in the lanes of its word and nothing else. -/
theorem store_eq {i p : Uint32} (hi : Is true left i) (hl : s.mem.Laid)
    (hp : physical s .dataStore (s.effective i) = some p) (hh : s.mem.Has p) :
    ∃ w d mem, s.decode ramHost i = some ({ s with mem := mem }, .nothingSpecial) ∧
      (s.mem.memRead .word d).1 = some w ∧ s.mem.SameMap mem ∧
      (∀ q, s.mem.Has q → q.toNat / 4 = p.toNat / 4 →
        s.mem.byteAt q = laneByte s.mem.bigEndian q w ∧
          mem.byteAt q = laneByte s.mem.bigEndian q
            (merge true left w (s.gpr (rt i)) (s.syscmd left (s.effective i)))) ∧
      ∀ q, q.toNat / 4 ≠ p.toNat / 4 → mem.byteAt q = s.mem.byteAt q := by
  obtain ⟨pa, w, ht, hr, hd, hdp, hq⟩ := word_of_physical hl hp hh
  have hs : s.mem.SameMap
      (s.mem.memRead .word (MipsState.busAddress (MipsState.roundDown4 pa))).2 := ⟨rfl, rfl⟩
  have hl' := hs.laid hl
  have hd' := (hs.has _).mpr hd
  refine ⟨w, _, (s.mem.memRead .word (MipsState.busAddress (MipsState.roundDown4 pa))).2.memWrite
    .word (MipsState.busAddress (MipsState.roundDown4 pa))
    (merge true left w (s.gpr (rt i)) (s.syscmd left (s.effective i))), ?_, hr, ⟨rfl, rfl⟩,
    fun q hhq hqp => ⟨hq q hhq hqp, ?_⟩, fun q hqp => ?_⟩
  · rw [decode_store hi, MipsState.storePart, MipsState.translated, ht]
    dsimp only
    rw [memRead_ramHost _ _ rfl hr]
    dsimp only
    rw [memWrite_ramHost (s := { s with mem := _ }) _ _ hl' rfl hd']
    rfl
  · rw [hl'.byteAt_memWrite_lanes hd' ((hs.has q).mpr hhq) (hqp.trans hdp.symm), hs.bigEndian]
  · rw [hl'.byteAt_memWrite_of_ne .word _ _ (by omega), Banks.byteAt_memRead hl]

/-! ## Bytes that a part moves -/

theorem toNat_add_ofNat (a : Uint32) (k : Nat) :
    (a + BitVec.ofNat 32 k).toNat = (a.toNat + k) % 2 ^ 32 := by
  rw [BitVec.toNat_add, BitVec.toNat_ofNat]
  omega

theorem toNat_address (bigEndian left : Bool) (a : Uint32) :
    (address bigEndian left a).toNat =
      if bigEndian = left then a.toNat else (a.toNat + 3) % 2 ^ 32 := by
  unfold address
  split
  · rfl
  · exact toNat_add_ofNat a 3

/-- The bytes of two words, chosen by conditions that agree. -/
theorem ite_byteOf {P Q : Prop} [Decidable P] [Decidable Q] (hpq : P ↔ Q) {y x : Uint32}
    {i j m n : Nat} (hij : P → i = j) (hmn : m = n) :
    (if P then byteOf y i else byteOf x m) = if Q then byteOf y j else byteOf x n := by
  by_cases h : P
  · rw [if_pos h, if_pos (hpq.mp h), hij h]
  · rw [if_neg h, if_neg fun hq => h (hpq.mpr hq), hmn]

/-- A load has the bytes in the word of its address from memory. -/
theorem regByte_merge (hc : bigEndianCpu s = s.mem.bigEndian) (a v w : Uint32) {k : Nat}
    (hk : k < 4) (left : Bool) :
    regByte s k (merge false left v w (s.syscmd left (address s.mem.bigEndian left a))) =
      if (a.toNat + k) % 2 ^ 32 / 4 = (address s.mem.bigEndian left a).toNat / 4 then
        laneByte s.mem.bigEndian (a + BitVec.ofNat 32 k) w
      else regByte s k v := by
  have ha := a.isLt
  rw [regByte_eq, regByte_eq, laneByte_eq, toNat_add_ofNat a k, toNat_syscmd, hc, toNat_address]
  cases s.mem.bigEndian <;> cases left <;>
    simp only [merge, Bool.false_eq_true, Bool.true_eq_false, if_true, if_false]
  · rw [byteOf_mergeLow _ _ (by omega) (by omega)]
    exact ite_byteOf (by omega) (by omega) rfl
  · rw [byteOf_mergeHigh _ _ (by omega) (by omega)]
    exact ite_byteOf (by omega) (by omega) rfl
  · rw [byteOf_mergeLow _ _ (by omega) (by omega)]
    exact ite_byteOf (by omega) (by omega) rfl
  · rw [byteOf_mergeHigh _ _ (by omega) (by omega)]
    exact ite_byteOf (by omega) (by omega) rfl

/-- A store has the bytes in the word of its address from the register, and leaves the others
in that word as they were. -/
theorem laneByte_merge (hc : bigEndianCpu s = s.mem.bigEndian) (a q v w : Uint32) {k : Nat}
    (hk : k < 4) (hq : q.toNat % 4 = (a.toNat + k) % 4) (left : Bool) :
    laneByte s.mem.bigEndian q
        (merge true left w v (s.syscmd left (address s.mem.bigEndian left a))) =
      if (a.toNat + k) % 2 ^ 32 / 4 = (address s.mem.bigEndian left a).toNat / 4 then
        regByte s k v
      else laneByte s.mem.bigEndian q w := by
  have ha := a.isLt
  rw [regByte_eq, laneByte_eq, laneByte_eq, toNat_syscmd, hc, toNat_address]
  cases s.mem.bigEndian <;> cases left <;>
    simp only [merge, Bool.false_eq_true, Bool.true_eq_false, if_true, if_false]
  · rw [byteOf_mergeHigh _ _ (by omega) (by omega)]
    exact ite_byteOf (by omega) (by omega) rfl
  · rw [byteOf_mergeLow _ _ (by omega) (by omega)]
    exact ite_byteOf (by omega) (by omega) rfl
  · rw [byteOf_mergeHigh _ _ (by omega) (by omega)]
    exact ite_byteOf (by omega) (by omega) rfl
  · rw [byteOf_mergeLow _ _ (by omega) (by omega)]
    exact ite_byteOf (by omega) (by omega) rfl

/-! ## One instruction -/

theorem probeFrom_withMem (s : MipsState Banks) (g : Nat → Uint32) (m : Banks) (va : Uint32)
    (fuel : Nat) (e : Option (Fin tlbSize)) :
    MipsState.probeFrom { s with gpr := g, mem := m } va fuel e = s.probeFrom va fuel e := by
  induction fuel generalizing e with
  | zero => rfl
  | succ fuel ih =>
    cases e with
    | none => rfl
    | some e =>
      rw [MipsState.probeFrom, MipsState.probeFrom, ih]
      rfl

theorem translateMapped_withMem (s : MipsState Banks) (g : Nat → Uint32) (m : Banks)
    (type : AccessType) (va : Uint32) :
    (MipsState.translateMapped { s with gpr := g, mem := m } va type).bind Prod.fst =
      (s.translateMapped va type).bind Prod.fst := by
  have hp : MipsState.probeTlb { s with gpr := g, mem := m } va = s.probeTlb va :=
    probeFrom_withMem s g m va _ _
  unfold MipsState.translateMapped
  rw [hp]
  cases s.probeTlb va with
  | none => rfl
  | some e =>
    cases e with
    | none => rfl
    | some e =>
      dsimp only
      generalize (s.tlb e).loReg (if bit va 12 then 1 else 0) = lo
      by_cases hv : lo &&& 0x2 = 0
      · rw [if_pos hv, if_pos hv]
        rfl
      rw [if_neg hv, if_neg hv]
      by_cases hd : type = .dataStore ∧ lo &&& 0x4 = 0
      · rw [if_pos hd, if_pos hd]
        rfl
      rw [if_neg hd, if_neg hd]
      rfl

/-- Neither the registers nor the memory matter for the translation. -/
theorem physical_withMem (s : MipsState Banks) (g : Nat → Uint32) (m : Banks)
    (type : AccessType) (va : Uint32) :
    physical { s with gpr := g, mem := m } type va = physical s type va := by
  have hm := translateMapped_withMem s g m type va
  have hu : MipsState.inUmode { s with gpr := g, mem := m } = s.inUmode := rfl
  rw [physical, physical]
  refine congrArg (Option.map _) ?_
  unfold MipsState.translateVaddr
  rw [hu]
  by_cases h4 : MipsState.vaddrRegion va < 4
  · rw [if_pos h4, if_pos h4, hm]
  rw [if_neg h4, if_neg h4]
  by_cases hu : s.inUmode
  · rw [if_pos hu, if_pos hu]
    rfl
  rw [if_neg hu, if_neg hu]
  by_cases h0 : MipsState.vaddrRegion va = 4
  · rw [if_pos h0, if_pos h0]
    rfl
  rw [if_neg h0, if_neg h0]
  by_cases h1 : MipsState.vaddrRegion va = 5
  · rw [if_pos h1, if_pos h1]
    rfl
  rw [if_neg h1, if_neg h1, hm]

theorem Frame.physical (h : Frame s t) (type : AccessType) (va : Uint32) :
    physical t type va = physical s type va := by
  obtain ⟨⟨g, m, rfl⟩, -⟩ := h
  exact physical_withMem s g m type va

theorem Frame.bigEndianCpu (h : Frame s t) : bigEndianCpu t = bigEndianCpu s := by
  obtain ⟨⟨g, m, rfl⟩, -⟩ := h
  rfl

theorem Frame.regByte (h : Frame s t) (k : Nat) (v : Uint32) : regByte t k v = regByte s k v := by
  rw [Unaligned.regByte, h.map.bigEndian, Unaligned.regByte]

theorem Frame.inRam (h : Frame s t) {type : AccessType} (hr : InRam s a type) :
    InRam t a type where
  laid := h.map.laid hr.laid
  mapped := fun k hk => by
    obtain ⟨p, hp, hh⟩ := hr.mapped k hk
    exact ⟨p, (h.physical type _).trans hp, (h.map.has p).mpr hh⟩

theorem InRam.address {type : AccessType} (h : InRam s a type) (bigEndian left : Bool) :
    ∃ p, physical s type (address bigEndian left a) = some p ∧ s.mem.Has p := by
  unfold Unaligned.address
  split
  · have h0 := h.mapped 0 (by omega)
    rwa [BitVec.add_zero] at h0
  · exact h.mapped 3 (by omega)

/-- The bytes of the word at `a` that are in the word of the address. -/
theorem InRam.part {type : AccessType} (h : InRam s a type) {va p : Uint32}
    (hp : Unaligned.physical s type va = some p) {k : Nat} (hk : k < 4)
    (hw : SameWord (a + BitVec.ofNat 32 k) va) :
    ∃ q, Unaligned.physical s type (a + BitVec.ofNat 32 k) = some q ∧ s.mem.Has q ∧
      q.toNat / 4 = p.toNat / 4 ∧ q.toNat % 4 = (a + BitVec.ofNat 32 k).toNat % 4 := by
  obtain ⟨q, hq, hh⟩ := h.mapped k hk
  obtain ⟨q', hq', hf⟩ := physical_of_sameWord hp ((sameWord_iff _ _).mp hw)
  obtain rfl := Option.some.inj (hq.symm.trans hq')
  exact ⟨q, hq, hh, hf.toNat⟩

theorem laneByte_congr {bigEndian : Bool} {q q' : Uint32} (h : q.toNat % 4 = q'.toNat % 4)
    (w : Uint32) : laneByte bigEndian q w = laneByte bigEndian q' w := by
  rw [laneByte_eq, laneByte_eq, h]

/-- Every lane has a byte of the word at `a`. -/
theorem exists_byte (a q : Uint32) : ∃ k < 4, q.toNat % 4 = (a.toNat + k) % 4 :=
  ⟨(q.toNat % 4 + 4 - a.toNat % 4) % 4, by omega, by omega⟩

theorem loaded_single (hr : InRam s a .dataLoad) (hc : bigEndianCpu s = s.mem.bigEndian)
    {i : Uint32} (hi : Is false left i) (he : s.effective i = address s.mem.bigEndian left a) :
    ∃ t, s.decode ramHost i = some (t, .nothingSpecial) ∧ Frame s t ∧
      Loaded s t a (rt i) fun k => SameWord (a + BitVec.ofNat 32 k) (s.effective i) := by
  obtain ⟨p, hp, hh⟩ := hr.address s.mem.bigEndian left
  obtain ⟨w, d, mem, hd, -, hmem, hs, hq⟩ := load_eq hi hr.laid (he ▸ hp) hh
  refine ⟨_, hd, ⟨⟨_, _, rfl⟩, hs⟩, ?_⟩
  have hm := fun k (hk : k < 4) => regByte_merge hc a (s.gpr (rt i)) w hk left
  have hw : ∀ k, (a.toNat + k) % 2 ^ 32 / 4 = (address s.mem.bigEndian left a).toNat / 4 ↔
      SameWord (a + BitVec.ofNat 32 k) (s.effective i) := fun k => by
    rw [SameWord, toNat_add_ofNat, he]
  rw [← he] at hm
  constructor
  · intro k hk hpart
    obtain ⟨q, hpq, hhq, hqw, hql⟩ := hr.part (he ▸ hp) hk hpart
    have hb := hm k hk
    rw [if_pos (he ▸ (hw k).mpr hpart)] at hb
    rw [byteAt, hpq, Option.map_some, hq q hhq hqw, laneByte_congr hql, ← hb]
    dsimp only
    rw [Function.update_self]
  · intro k hk hpart
    dsimp only
    rw [Function.update_self, hm k hk, if_neg fun hc => hpart ((hw k).mp (he ▸ hc))]
  · intro x hx
    exact Function.update_of_ne hx _ _
  · exact hmem

theorem stored_single (hr : InRam s a .dataStore) (hc : bigEndianCpu s = s.mem.bigEndian)
    {i : Uint32} (hi : Is true left i) (he : s.effective i = address s.mem.bigEndian left a) :
    ∃ t, s.decode ramHost i = some (t, .nothingSpecial) ∧ Frame s t ∧
      Stored s t a (rt i) fun k => SameWord (a + BitVec.ofNat 32 k) (s.effective i) := by
  obtain ⟨p, hp, hh⟩ := hr.address s.mem.bigEndian left
  obtain ⟨w, d, mem, hd, -, hs, hin, hout⟩ := store_eq hi hr.laid (he ▸ hp) hh
  have hm := fun q k (hk : k < 4) (hqk : q.toNat % 4 = (a.toNat + k) % 4) =>
    laneByte_merge hc a q (s.gpr (rt i)) w hk hqk left
  rw [← he] at hm
  have hw : ∀ k, (a.toNat + k) % 2 ^ 32 / 4 = (s.effective i).toNat / 4 ↔
      SameWord (a + BitVec.ofNat 32 k) (s.effective i) := fun k => by
    rw [SameWord, toNat_add_ofNat]
  have hframe : Frame s { s with mem := mem } := ⟨⟨s.gpr, mem, rfl⟩, hs⟩
  refine ⟨_, hd, hframe, ?_⟩
  constructor
  · intro k hk hpart
    obtain ⟨q, hpq, hhq, hqw, hql⟩ := hr.part (he ▸ hp) hk hpart
    have hqk : q.toNat % 4 = (a.toNat + k) % 4 := by
      rw [hql, toNat_add_ofNat]
      omega
    have hb := hm q k hk hqk
    rw [if_pos ((hw k).mpr hpart)] at hb
    rw [byteAt, hframe.physical, hpq, Option.map_some, ← hb]
    exact congrArg some (hin q hhq hqw).2
  · intro q hq'
    show mem.byteAt q = s.mem.byteAt q
    by_cases hqp : q.toNat / 4 = p.toNat / 4
    · by_cases hhq : s.mem.Has q
      · -- the byte of the register that would be at `q`
        obtain ⟨k, hk, hqk⟩ := exists_byte a q
        have hpart : ¬SameWord (a + BitVec.ofNat 32 k) (s.effective i) := fun hpart => by
          obtain ⟨q', hpq, -, hqw, hql⟩ := hr.part (he ▸ hp) hk hpart
          rw [toNat_add_ofNat] at hql
          exact hq' k hk hpart (hpq.trans (congrArg some (BitVec.eq_of_toNat_eq (by omega))))
        obtain ⟨hold, hnew⟩ := hin q hhq hqp
        rw [hnew, hm q k hk hqk, if_neg fun hc => hpart ((hw k).mp hc), hold]
      · have hno : ¬mem.Has q := fun hc => hhq ((hs.has q).mp hc)
        rw [Banks.byteAt_of_not_has hno, Banks.byteAt_of_not_has hhq]
    · exact hout q hqp
  · rfl

/-! ## A pair -/

/-- The words of the two addresses have the four bytes. -/
theorem sameWord_address (bigEndian left : Bool) (a : Uint32) {k : Nat} (hk : k < 4) :
    SameWord (a + BitVec.ofNat 32 k) (address bigEndian left a) ∨
      SameWord (a + BitVec.ofNat 32 k) (address bigEndian (!left) a) := by
  have ha := a.isLt
  rw [SameWord, SameWord, toNat_add_ofNat, toNat_address, toNat_address]
  cases bigEndian <;> cases left <;>
    simp only [Bool.not_true, Bool.not_false, Bool.false_eq_true, Bool.true_eq_false, if_true,
      if_false] <;>
    omega

theorem Frame.trans {u : MipsState Banks} (h : Frame s t) (h' : Frame t u) : Frame s u := by
  obtain ⟨⟨g, m, rfl⟩, hm⟩ := h
  obtain ⟨⟨g', m', rfl⟩, hm'⟩ := h'
  exact ⟨⟨g', m', rfl⟩, ⟨hm'.memBanks.trans hm.memBanks, hm'.bigEndian.trans hm.bigEndian⟩⟩

theorem Frame.byteAt_congr (h : Frame s t) (hm : t.mem.byteAt = s.mem.byteAt)
    (type : AccessType) (va : Uint32) : byteAt t type va = byteAt s type va := by
  rw [byteAt, byteAt, h.physical, hm]

theorem Loaded.pair {u : MipsState Banks} {r : Nat} {P Q : Nat → Prop} (hf : Frame s t)
    (hp : Loaded s t a r P) (hq : Loaded t u a r Q) (hpq : ∀ k < 4, P k ∨ Q k) :
    Loaded s u a r fun _ => True where
  bytes := fun k hk _ => by
    by_cases hQ : Q k
    · rw [← hf.byteAt_congr hp.mem, hq.bytes k hk hQ, hf.regByte]
    · rw [hp.bytes k hk ((hpq k hk).resolve_right hQ), ← hf.regByte, ← hq.kept k hk hQ, hf.regByte]
  kept := fun _ _ h => absurd trivial h
  gpr := fun x hx => (hq.gpr x hx).trans (hp.gpr x hx)
  mem := hq.mem.trans hp.mem

/-- Different bytes of the word are at different addresses. -/
theorem physical_inj {type : AccessType} {k j : Nat} {q : Uint32} (hk : k < 4) (hj : j < 4)
    (h1 : physical s type (a + BitVec.ofNat 32 k) = some q)
    (h2 : physical s type (a + BitVec.ofNat 32 j) = some q) : k = j := by
  obtain ⟨q₁, hq₁, hf₁⟩ := physical_of_sameWord h1 rfl
  obtain ⟨q₂, hq₂, hf₂⟩ := physical_of_sameWord h2 rfl
  obtain rfl := Option.some.inj (h1.symm.trans hq₁)
  obtain rfl := Option.some.inj (h2.symm.trans hq₂)
  have e1 := hf₁.toNat.2
  have e2 := hf₂.toNat.2
  rw [toNat_add_ofNat] at e1 e2
  omega

theorem Stored.pair {u : MipsState Banks} {r : Nat} {P Q : Nat → Prop}
    (hr : InRam s a .dataStore) (hf : Frame s t) (hf' : Frame t u) (hp : Stored s t a r P)
    (hq : Stored t u a r Q) (hpq : ∀ k < 4, P k ∨ Q k) : Stored s u a r fun _ => True where
  bytes := fun k hk _ => by
    by_cases hQ : Q k
    · rw [hq.bytes k hk hQ, hf.regByte, hp.gpr]
    · obtain ⟨p, hpk, -⟩ := hr.mapped k hk
      have hkeep := hq.kept p fun j hj hQj hpj => by
        rw [hf.physical] at hpj
        obtain rfl := physical_inj hk hj hpk hpj
        exact hQ hQj
      have hb := hp.bytes k hk ((hpq k hk).resolve_right hQ)
      rw [byteAt, hf.physical, hpk, Option.map_some] at hb
      rw [byteAt, (hf.trans hf').physical, hpk, Option.map_some, hkeep, hb]
  kept := fun q hno => by
    have h1 := hp.kept q fun k hk _ => hno k hk trivial
    have h2 := hq.kept q fun k hk _ => by
      rw [hf.physical]
      exact hno k hk trivial
    rw [h2, h1]
  gpr := hq.gpr.trans hp.gpr

variable {store}

theorem accessed_single (hr : InRam s a (type store)) (hc : bigEndianCpu s = s.mem.bigEndian)
    {i : Uint32} (hi : Is store left i) (he : s.effective i = address s.mem.bigEndian left a) :
    ∃ t, s.decode ramHost i = some (t, .nothingSpecial) ∧ Frame s t ∧
      Accessed s t store a (rt i) fun k => SameWord (a + BitVec.ofNat 32 k) (s.effective i) := by
  cases store
  · exact loaded_single hr hc hi he
  · exact stored_single hr hc hi he

theorem composes_of_eq (hr : InRam s a (type store)) (hc : bigEndianCpu s = s.mem.bigEndian) :
    Composes s store a where
  single := fun _ _ hi he => accessed_single hr hc hi he
  pair := fun left i j t n hi hj hrt he hd he' => by
    obtain ⟨t', hd', hf, ht⟩ := accessed_single hr hc hi he
    obtain ⟨rfl, -⟩ := Prod.mk.inj (Option.some.inj (hd'.symm.trans hd))
    have hc' : bigEndianCpu t' = t'.mem.bigEndian := by
      rw [hf.bigEndianCpu, hf.map.bigEndian, hc]
    obtain ⟨u, hu, hfu, htu⟩ :=
      accessed_single (hf.inRam hr) hc' hj (hf.map.bigEndian.symm ▸ he')
    have hcover : ∀ k < 4, SameWord (a + BitVec.ofNat 32 k) (s.effective i) ∨
        SameWord (a + BitVec.ofNat 32 k) (t'.effective j) := fun k hk => by
      rw [he, he']
      exact sameWord_address _ left a hk
    rw [hrt] at htu
    refine ⟨u, hu, hf.trans hfu, ?_⟩
    cases store
    · exact Loaded.pair hf ht htu hcover
    · exact Stored.pair hr hf hfu ht htu hcover

/-! ## The other byte order -/

/-- `lwl $2, 0($1)` and `swl $2, 0($1)` -/
def probe (store : Bool) : Uint32 := if store then 0xA8220000 else 0x88220000

theorem is_probe : Is store true (probe store) := by
  constructor
  cases store <;> decide

/-- The registers and the contents of memory that show a wrong byte. -/
def probeGpr (store bigEndian : Bool) (a : Uint32) (x : Nat) : Uint32 :=
  if x = 1 then address bigEndian true a else if store then 0x11223344 else 0

def probeRom (store : Bool) (_ _ : Nat) : Uint32 := if store then 0 else 0x11223344

variable (s store a) in
def probeState : MipsState Banks :=
  { s with
    gpr := probeGpr store s.mem.bigEndian a
    mem := { s.mem with rom := probeRom store } }

theorem frame_probeState : Frame s (probeState s store a) := ⟨⟨_, _, rfl⟩, ⟨rfl, rfl⟩⟩

theorem effective_probe :
    (probeState s store a).effective (probe store) = address s.mem.bigEndian true a := by
  have ho : signedOffset (probe store) = 0 := by cases store <;> decide
  have hs : rs (probe store) = 1 := by cases store <;> decide
  rw [MipsState.effective, ho, hs]
  exact BitVec.zero_add _

theorem memRead_probe {d w : Uint32}
    (hr : ((probeState s store a).mem.memRead .word d).1 = some w) :
    w = if store then 0 else 0x11223344 := by
  obtain ⟨i, -, hi⟩ := Option.bind_eq_some_iff.mp hr
  obtain ⟨b, -, hb⟩ := Option.map_eq_some_iff.mp hi
  rw [readLane_word] at hb
  exact hb.symm

/-- The byte of the word at `a` that is at the address of the probe: the highest. -/
def probeByte (bigEndian : Bool) : Nat := if bigEndian then 0 else 3

theorem probeByte_lt (bigEndian : Bool) : probeByte bigEndian < 4 := by
  cases bigEndian <;> decide

theorem add_probeByte (bigEndian : Bool) (a : Uint32) :
    a + BitVec.ofNat 32 (probeByte bigEndian) = address bigEndian true a := by
  cases bigEndian
  · rfl
  · exact BitVec.add_zero a

/-- The lane of an address, from the low end. -/
def lane (bigEndian : Bool) (q : Uint32) : Nat := if bigEndian then 3 - q.toNat % 4 else q.toNat % 4

theorem lane_lt (bigEndian : Bool) (q : Uint32) : lane bigEndian q < 4 := by
  unfold lane
  split <;> omega

theorem lane_congr {bigEndian : Bool} {q q' : Uint32} (h : q.toNat % 4 = q'.toNat % 4) :
    lane bigEndian q = lane bigEndian q' := by
  rw [lane, lane, h]

/-- With the other byte order the count of LWL and SWL is that of the lane of the address. -/
theorem syscmd_of_ne (hne : bigEndianCpu s ≠ s.mem.bigEndian) (va : Uint32) :
    s.syscmd true va = lane s.mem.bigEndian va := by
  rw [toNat_syscmd, lane]
  cases hc : bigEndianCpu s <;> cases hb : s.mem.bigEndian <;> simp_all

theorem regByte_probeByte (v : Uint32) : regByte s (probeByte s.mem.bigEndian) v = byteOf v 3 := by
  rw [regByte_eq, probeByte]
  cases s.mem.bigEndian <;> rfl

theorem laneByte_lane (bigEndian : Bool) (q w : Uint32) :
    laneByte bigEndian q w = byteOf w (lane bigEndian q) := laneByte_eq bigEndian q w

/-- Where the probe accesses memory, and its byte of the word at `a`. -/
theorem InRam.probe (hr : InRam s a (type store))
    (he : s.effective (Unaligned.probe store) = Unaligned.address s.mem.bigEndian true a) :
    ∃ p q, Unaligned.physical s (type store) (s.effective (Unaligned.probe store)) = some p ∧
      s.mem.Has p ∧
      SameWord (a + BitVec.ofNat 32 (probeByte s.mem.bigEndian))
        (s.effective (Unaligned.probe store)) ∧
      Unaligned.physical s (type store) (a + BitVec.ofNat 32 (probeByte s.mem.bigEndian)) =
        some q ∧
      s.mem.Has q ∧ q.toNat / 4 = p.toNat / 4 ∧
      lane s.mem.bigEndian q = lane s.mem.bigEndian (s.effective (Unaligned.probe store)) := by
  obtain ⟨p, hp, hh⟩ := hr.address s.mem.bigEndian true
  rw [← he] at hp
  have hsame : SameWord (a + BitVec.ofNat 32 (probeByte s.mem.bigEndian))
      (s.effective (Unaligned.probe store)) := by
    rw [add_probeByte, he]
    rfl
  obtain ⟨q, hpq, hhq, hqp, hql⟩ := hr.part hp (probeByte_lt _) hsame
  rw [add_probeByte, ← he] at hql
  exact ⟨p, q, hp, hh, hsame, hpq, hhq, hqp, lane_congr hql⟩

theorem not_composes_load (hr : InRam s a .dataLoad) (hne : bigEndianCpu s ≠ s.mem.bigEndian) :
    ¬Composes (probeState s false a) false a := by
  intro hcomp
  have hf : Frame s (probeState s false a) := frame_probeState
  have he : (probeState s false a).effective (probe false) = _ := effective_probe
  have hne' : bigEndianCpu (probeState s false a) ≠ (probeState s false a).mem.bigEndian := hne
  have hw' : ∀ d w, ((probeState s false a).mem.memRead .word d).1 = some w → w = 0x11223344 :=
    fun _ _ => memRead_probe
  have hr' := hf.inRam hr
  generalize probeState s false a = s' at hcomp hf he hne' hw' hr'
  rw [← hf.map.bigEndian] at he
  obtain ⟨p, q, hp, hh, hsame, hpq, hhq, hqp, hql⟩ := InRam.probe hr' he
  rw [show type false = .dataLoad from rfl] at hp hpq
  obtain ⟨w, d, mem, hd, hw, -, -, hq⟩ := load_eq is_probe hr'.laid hp hh
  obtain ⟨t, hd', -, ht⟩ := hcomp.single true (probe false) is_probe he
  obtain ⟨rfl, -⟩ := Prod.mk.inj (Option.some.inj (hd.symm.trans hd'))
  have hb := Loaded.bytes ht _ (probeByte_lt _) hsame
  have hlane := lane_lt s'.mem.bigEndian (s'.effective (probe false))
  rw [byteAt, hpq, Option.map_some, Option.some.injEq, hq q hhq hqp, laneByte_lane, hql,
    regByte_probeByte] at hb
  dsimp only at hb
  rw [Function.update_self, syscmd_of_ne hne', hw' d w hw,
    show merge false true = MipsState.mergeHigh from rfl,
    byteOf_mergeHigh _ _ hlane (by omega), if_pos (by omega)] at hb
  have hno : ∀ n < 4, byteOf 0x11223344 n ≠ byteOf 0x11223344 (3 - n) := by decide
  exact hno _ hlane hb

theorem not_composes_store (hr : InRam s a .dataStore) (hne : bigEndianCpu s ≠ s.mem.bigEndian) :
    ¬Composes (probeState s true a) true a := by
  intro hcomp
  have hf : Frame s (probeState s true a) := frame_probeState
  have he : (probeState s true a).effective (probe true) = _ := effective_probe
  have hne' : bigEndianCpu (probeState s true a) ≠ (probeState s true a).mem.bigEndian := hne
  have hw' : ∀ d w, ((probeState s true a).mem.memRead .word d).1 = some w → w = 0 :=
    fun _ _ => memRead_probe
  have hg : (probeState s true a).gpr (rt (probe true)) = 0x11223344 := by
    have hrt : rt (probe true) = 2 := by decide
    rw [hrt]
    rfl
  have hr' := hf.inRam hr
  generalize probeState s true a = s' at hcomp hf he hne' hw' hg hr'
  rw [← hf.map.bigEndian] at he
  obtain ⟨p, q, hp, hh, hsame, hpq, hhq, hqp, hql⟩ := InRam.probe hr' he
  rw [show type true = .dataStore from rfl] at hp hpq
  obtain ⟨w, d, mem, hd, hw, -, hin, -⟩ := store_eq is_probe hr'.laid hp hh
  obtain ⟨t, hd', -, ht⟩ := hcomp.single true (probe true) is_probe he
  obtain ⟨rfl, -⟩ := Prod.mk.inj (Option.some.inj (hd.symm.trans hd'))
  have hb := Stored.bytes ht _ (probeByte_lt _) hsame
  have hlane := lane_lt s'.mem.bigEndian (s'.effective (probe true))
  rw [byteAt, physical_withMem s' s'.gpr, hpq, Option.map_some, Option.some.injEq,
    regByte_probeByte, hg] at hb
  dsimp only at hb
  rw [(hin q hhq hqp).2, laneByte_lane, hql, hw' d w hw, hg, syscmd_of_ne hne',
    show merge true true = MipsState.mergeLow from rfl, byteOf_mergeLow _ _ hlane hlane] at hb
  have hno : ∀ n < 4, (if n + n < 4 then byteOf 0x11223344 (n + n) else byteOf 0 n) ≠
      byteOf 0x11223344 3 := by decide
  exact hno _ hlane hb

/-- The state with other registers and other contents of memory. -/
def withContents (s : MipsState Banks) (gpr : Nat → Uint32) (rom : Nat → Nat → ARMword) :
    MipsState Banks :=
  { s with gpr := gpr, mem := { s.mem with rom := rom } }

/-- The unaligned accesses to a word in RAM are right, whatever the registers and the memory
hold, if and only if `big_endian_cpu` is the byte order of the memory. -/
theorem unaligned_iff (hr : InRam s a (type store)) :
    (∀ gpr rom, Composes (withContents s gpr rom) store a) ↔
      bigEndianCpu s = s.mem.bigEndian := by
  constructor
  · intro hall
    by_contra hne
    cases store
    · exact not_composes_load hr hne (hall _ _)
    · exact not_composes_store hr hne (hall _ _)
  · intro hc gpr rom
    have hf : Frame s (withContents s gpr rom) := ⟨⟨_, _, rfl⟩, ⟨rfl, rfl⟩⟩
    exact composes_of_eq (hf.inRam hr) hc

/-- A bank at 0 in kernel mode, as `process_reset` leaves it. -/
def kernelState (bigEndian : Bool) : MipsState Banks :=
  blankState { Banks.oneBank 0 with bigEndian := bigEndian }

theorem kernelState_inRam (bigEndian store : Bool) :
    InRam (kernelState bigEndian) 0x80000001 (type store) where
  laid := ⟨(Banks.oneBank_laid 0 rfl).aligned, (Banks.oneBank_laid 0 rfl).disjoint⟩
  mapped := fun k hk => by
    refine ⟨BitVec.ofNat 32 (1 + k), ?_, 0, ⟨0, 16, .noName, .ram⟩, rfl, ?_⟩
    · obtain rfl | rfl | rfl | rfl : k = 0 ∨ k = 1 ∨ k = 2 ∨ k = 3 := by omega
      all_goals
        cases bigEndian <;> cases store <;> decide
    · obtain rfl | rfl | rfl | rfl : k = 0 ∨ k = 1 ∨ k = 2 ∨ k = 3 := by omega
      all_goals
        decide

/-- The word at 1 in a little-endian memory. -/
theorem unaligned_iff_kernel :
    (∀ gpr rom, Composes (withContents (kernelState false) gpr rom) true 0x80000001) ↔
      bigEndianCpu (kernelState false) = false :=
  unaligned_iff (kernelState_inRam false true)

/-- In kernel mode with a big-endian memory, LWL loads the bytes of the opposite lanes. -/
theorem bigEndian_not_composes :
    ¬∀ (s : MipsState Banks) (a : Uint32) (store : Bool), InRam s a (type store) →
      Composes s store a := by
  intro hall
  have hr := kernelState_inRam true false
  have hf : Frame (kernelState true) (probeState (kernelState true) false 0x80000001) :=
    frame_probeState
  exact not_composes_load hr (by decide) (hall _ _ false (hf.inRam hr))

end Unaligned

end SkyEye.Mips
