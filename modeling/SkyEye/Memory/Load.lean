import Mathlib.Data.Nat.Init
import SkyEye.Memory.Law

/-!
# Loading ROM images

`mem_reset` reads a bank's file and makes words of its bytes. The bytes go through `char`,
which is signed, so that one with its top bit set fills all that lies above it in the word
with ones. A bank holds its file exactly if no byte is spoilt in this way and, where the
bank does not start at a word boundary, rotating a word does not matter
(`loadsFaithfully_iff`).
-/

namespace SkyEye

/-- `j` lies below `k` in a word of this byte order. -/
def below (bigEndian : Bool) (j k : Nat) : Prop := if bigEndian then k < j else j < k

instance (bigEndian : Bool) (j k : Nat) : Decidable (below bigEndian j k) := by
  unfold below; infer_instance

/-- Four bytes of a file, none of which fills another that is not all ones already. -/
def Unspoilt (bigEndian : Bool) (q : Nat → BitVec 8) : Prop :=
  ∀ j < 4, ∀ k < 4, below bigEndian j k → (q j).msb = true → q k = 0xFF

/-- Four bytes that are the same when rotated by `r`. -/
def Rotated (r : Nat) (q : Nat → BitVec 8) : Prop := ∀ i < 4, q ((r + i) % 4) = q i

/-- Byte `k` of the word that is made of four bytes. -/
def spoilt (bigEndian : Bool) (q : Nat → BitVec 8) (k : Nat) : BitVec 8 :=
  if (List.range 4).any fun j => decide (below bigEndian j k) && (q j).msb then 0xFF else q k

theorem getLsbD_ones (j : Nat) (hj : j < 8) : (0xFF : BitVec 8).getLsbD j = true := by
  have : (0xFF : BitVec 8) = BitVec.allOnes 8 := rfl
  rw [this, BitVec.getLsbD_allOnes, decide_eq_true hj]

theorem getLsbD_placed (p : BitVec 8) (k : Nat) {i : Nat} (hi : i < 32) :
    (p.signExtend 32 <<< (8 * k)).getLsbD i =
      (decide (8 * k ≤ i) && if i - 8 * k < 8 then p.getLsbD (i - 8 * k) else p.msb) := by
  have hlt : i - 8 * k < 32 := by omega
  rw [BitVec.getLsbD_shiftLeft, BitVec.getLsbD_signExtend, decide_eq_true hi, decide_eq_true hlt,
    Bool.true_and, Bool.true_and]
  by_cases h : i < 8 * k
  · have h' : ¬ 8 * k ≤ i := by omega
    simp [h, h']
  · have h' : 8 * k ≤ i := by omega
    simp [h, h']

theorem getLsbD_four (p0 p1 p2 p3 : BitVec 8) {k j : Nat} (hk : k < 4) (hj : j < 8) :
    (p0.signExtend 32 ||| p1.signExtend 32 <<< 8 ||| p2.signExtend 32 <<< 16 |||
      p3.signExtend 32 <<< 24).getLsbD (8 * k + j) =
      match k with
      | 0 => p0.getLsbD j
      | 1 => p0.msb || p1.getLsbD j
      | 2 => p0.msb || p1.msb || p2.getLsbD j
      | _ => p0.msb || p1.msb || p2.msb || p3.getLsbD j := by
  have hi : 8 * k + j < 32 := by omega
  have h0 := getLsbD_placed p0 0 hi
  have h1 := getLsbD_placed p1 1 hi
  have h2 := getLsbD_placed p2 2 hi
  have h3 := getLsbD_placed p3 3 hi
  simp only [Nat.mul_zero, BitVec.shiftLeft_zero, Nat.mul_one] at h0 h1 h2 h3
  rw [BitVec.getLsbD_or, BitVec.getLsbD_or, BitVec.getLsbD_or, h0, h1, h2, h3]
  match k, hk with
  | 0, _ => simp [hj]; grind
  | 1, _ => simp [hj]; grind
  | 2, _ => simp [hj]; grind
  | 3, _ => simp [hj]; grind

theorem laneByte_swap (bigEndian : Bool) (q : Nat → BitVec 8) (a : ARMword) :
    laneByte bigEndian a (Banks.swap bigEndian (q 0) (q 1) (q 2) (q 3)) =
      spoilt bigEndian q (a.toNat % 4) := by
  apply BitVec.eq_of_getLsbD_eq
  intro j hj
  have hk : a.toNat % 4 < 4 := Nat.mod_lt _ (by omega)
  rw [getLsbD_laneByte _ _ _ hj]
  generalize a.toNat % 4 = k at hk
  have hones := getLsbD_ones j hj
  have hpick : ∀ c : Bool, (if c then (0xFF : BitVec 8) else q k).getLsbD j =
      (c || (q k).getLsbD j) := by
    intro c
    cases c
    · simp
    · simpa using hones
  rw [spoilt, hpick]
  cases bigEndian
  · simp only [Bool.false_eq_true, if_false, Banks.swap]
    rw [getLsbD_four _ _ _ _ hk hj]
    match k, hk with
    | 0, _ => simp [below]
    | 1, _ => simp [below, List.range_succ]
    | 2, _ => simp [below, List.range_succ]
    | 3, _ => simp [below, List.range_succ, Bool.or_assoc]
  · simp only [if_true, Banks.swap]
    rw [getLsbD_four _ _ _ _ (by omega) hj]
    match k, hk with
    | 0, _ => simp [below, List.range_succ]; grind
    | 1, _ => simp [below, List.range_succ]; grind
    | 2, _ => simp [below, List.range_succ]
    | 3, _ => simp [below, List.range_succ]

theorem spoilt_of_unspoilt {bigEndian : Bool} {q : Nat → BitVec 8} (h : Unspoilt bigEndian q)
    {k : Nat} (hk : k < 4) : spoilt bigEndian q k = q k := by
  rw [spoilt]
  split
  · rename_i hany
    obtain ⟨j, hj, hb⟩ := List.any_eq_true.mp hany
    simp only [Bool.and_eq_true, decide_eq_true_eq] at hb
    exact (h j (List.mem_range.mp hj) k hk hb.1 hb.2).symm
  · rfl

theorem unspoilt_of_spoilt {bigEndian : Bool} {q : Nat → BitVec 8}
    (h : ∀ k < 4, spoilt bigEndian q k = q k) : Unspoilt bigEndian q := by
  intro j hj k hk hb hm
  have hany : ((List.range 4).any fun j => decide (below bigEndian j k) && (q j).msb) = true :=
    List.any_eq_true.mpr ⟨j, List.mem_range.mpr hj, by simp [hb, hm]⟩
  have := h k hk
  rw [spoilt, if_pos hany] at this
  exact this.symm

theorem le_spoilt (bigEndian : Bool) (q : Nat → BitVec 8) (k : Nat) :
    (q k).toNat ≤ (spoilt bigEndian q k).toNat := by
  rw [spoilt]
  split
  · have hlt := (q k).isLt
    have : (0xFF : BitVec 8).toNat = 255 := rfl
    omega
  · exact Nat.le_refl _

/-- A loaded word read from `r` on gives the file's bytes only if nothing is spoilt and the
rotation does not matter: filling only makes bytes larger, and the rotation closes the
circle. -/
theorem spoilt_eq_iff (bigEndian : Bool) (q : Nat → BitVec 8) {r : Nat} (hr : r < 4) :
    (∀ i < 4, spoilt bigEndian q ((r + i) % 4) = q i) ↔
      Unspoilt bigEndian q ∧ Rotated r q := by
  constructor
  · intro h
    have hle : ∀ i < 4, (q ((r + i) % 4)).toNat ≤ (q i).toNat := fun i hi => by
      rw [← h i hi]
      exact le_spoilt bigEndian q _
    have hrot : Rotated r q := by
      intro i hi
      apply BitVec.eq_of_toNat_eq
      have h0 := hle 0 (by decide)
      have h1 := hle 1 (by decide)
      have h2 := hle 2 (by decide)
      have h3 := hle 3 (by decide)
      match r, hr, i, hi with
      | 0, _, i, hi => rw [Nat.zero_add, Nat.mod_eq_of_lt hi]
      | 1, _, 0, _ | 1, _, 1, _ | 1, _, 2, _ | 1, _, 3, _ => simp at h0 h1 h2 h3 ⊢; omega
      | 2, _, 0, _ | 2, _, 1, _ | 2, _, 2, _ | 2, _, 3, _ => simp at h0 h1 h2 h3 ⊢; omega
      | 3, _, 0, _ | 3, _, 1, _ | 3, _, 2, _ | 3, _, 3, _ => simp at h0 h1 h2 h3 ⊢; omega
    refine ⟨unspoilt_of_spoilt fun k hk => ?_, hrot⟩
    -- position `k` is position `k - r` rotated by `r`
    have hi : (k + 4 - r) % 4 < 4 := Nat.mod_lt _ (by omega)
    have hk' : (r + (k + 4 - r) % 4) % 4 = k := by omega
    have h1 := h _ hi
    have h2 := hrot _ hi
    rw [hk'] at h1 h2
    rw [h1, h2]
  · rintro ⟨h, hrot⟩ i hi
    rw [spoilt_of_unspoilt h (Nat.mod_lt _ (by omega)), hrot i hi]

/-! ## The banks of a map -/

/-- `mem_reset` can load the bank: it needs no file, or its file is read and not empty. -/
def MemBank.Loads (b : MemBank) : Prop :=
  match b.type with
  | .io => True
  | _ =>
    match b.file with
    | .noName => True
    | .unreadable => False
    | .contents bytes => (bytes.take b.len.toNat).length ≠ 0

namespace Banks

theorem loadBank_isSome (bigEndian : Bool) (b : MemBank) (old : Nat → ARMword) :
    (∃ words, loadBank bigEndian b old = some words) ↔ b.Loads := by
  unfold loadBank MemBank.Loads
  cases b.type with
  | io => simp
  | ram | rom | flash =>
    cases b.file with
    | noName => simp
    | unreadable => simp
    | contents bytes =>
      by_cases h : (bytes.take b.len.toNat).length = 0
      · simp [h]
      · simp only [if_neg h]
        simpa using h

/-- The loop succeeds if every bank loads, and then every bank has what was loaded. -/
theorem resetFrom_isSome (bigEndian : Bool) : ∀ (banks : List MemBank) (i : Nat)
    (rom : Nat → Nat → ARMword),
    (∃ rom', resetFrom bigEndian banks i rom = some rom') ↔ ∀ b ∈ banks, b.Loads
  | [], _, _ => by simp [resetFrom]
  | b :: banks, i, rom => by
    rw [resetFrom, List.forall_mem_cons, ← loadBank_isSome bigEndian b (rom i)]
    cases hl : loadBank bigEndian b (rom i) with
    | none => simp
    | some words => simp [resetFrom_isSome bigEndian banks]

theorem resetFrom_low (bigEndian : Bool) : ∀ {banks : List MemBank} {i : Nat}
    {rom rom' : Nat → Nat → ARMword}, resetFrom bigEndian banks i rom = some rom' →
    ∀ j < i, rom' j = rom j
  | [], _, _, _, h, _, _ => by
    obtain rfl := Option.some.inj h
    rfl
  | b :: banks, i, rom, rom', h, j, hj => by
    rw [resetFrom] at h
    cases hl : loadBank bigEndian b (rom i) with
    | none => simp [hl] at h
    | some words =>
      simp only [hl] at h
      rw [resetFrom_low bigEndian h j (Nat.lt_succ_of_lt hj), Function.update_of_ne (by omega)]

theorem resetFrom_get (bigEndian : Bool) : ∀ {banks : List MemBank} {i : Nat}
    {rom rom' : Nat → Nat → ARMword}, resetFrom bigEndian banks i rom = some rom' →
    ∀ {j : Nat} {b : MemBank}, banks[j]? = some b →
      ∃ old, loadBank bigEndian b old = some (rom' (i + j))
  | b :: banks, i, rom, rom', h, j, c, hc => by
    rw [resetFrom] at h
    cases hl : loadBank bigEndian b (rom i) with
    | none => simp [hl] at h
    | some words =>
      simp only [hl] at h
      cases j with
      | zero =>
        obtain rfl := Option.some.inj hc
        refine ⟨rom i, ?_⟩
        rw [hl, Nat.add_zero, resetFrom_low bigEndian h i (Nat.lt_succ_self i),
          Function.update_self]
      | succ j =>
        obtain ⟨old, ho⟩ := resetFrom_get bigEndian h (j := j) hc
        refine ⟨old, ?_⟩
        rw [ho, Nat.add_assoc, Nat.add_comm 1]

variable {m : Banks}

/-- After `mem_reset`, every byte of the bank is the file's, and 0 after the file's end. -/
def LoadsFaithfully (m : Banks) (b : MemBank) (bytes : List (BitVec 8)) : Prop :=
  ∃ m', m.memReset = some m' ∧ ∀ i < b.len.toNat,
    (m'.memRead .byte (b.addr + BitVec.ofNat 32 i)).1 = some ((bytes.getD i 0).setWidth 32)

/-- Four bytes of a file from `4 * g` on. -/
def group (bytes : List (BitVec 8)) (g : Nat) : Nat → BitVec 8 := fun i => bytes.getD (4 * g + i) 0

theorem readLane_byte_eq (bigEndian : Bool) (a word : ARMword) (x : BitVec 8) :
    readLane bigEndian .byte a word = x.setWidth 32 ↔ laneByte bigEndian a word = x := by
  constructor
  · intro h
    rw [laneByte, h]
    exact BitVec.setWidth_setWidth_of_le x (by decide)
  · rintro rfl
    apply BitVec.eq_of_getLsbD_eq
    intro i hi
    have hb : DataType.byte.bits = 8 := rfl
    rw [laneByte, BitVec.getLsbD_setWidth, BitVec.getLsbD_setWidth, getLsbD_readLane, hb,
      decide_eq_true hi, Bool.true_and]
    by_cases h : i < 8
    · simp [h]
    · simp [h]

theorem memRead_loaded (hd : m.Disjoint) {j : Nat} {b : MemBank} {bytes : List (BitVec 8)}
    (hb : m.memBanks[j]? = some b) (hio : b.type ≠ .io) (hf : b.file = .contents bytes)
    (hlen : bytes.length ≤ b.len.toNat) (hwrap : b.addr.toNat + b.len.toNat ≤ 2 ^ 32)
    {m' : Banks} (hr : m.memReset = some m') {i : Nat} (hi : i < b.len.toNat) :
    (m'.memRead .byte (b.addr + BitVec.ofNat 32 i)).1 = some ((bytes.getD i 0).setWidth 32) ↔
      spoilt m.bigEndian (group bytes (i / 4)) ((b.addr.toNat % 4 + i % 4) % 4) =
        group bytes (i / 4) (i % 4) := by
  obtain ⟨rom', hrom, rfl⟩ := Option.map_eq_some_iff.mp hr
  obtain ⟨old, hload⟩ := resetFrom_get m.bigEndian hrom hb
  rw [Nat.zero_add] at hload
  have haddr : (b.addr + BitVec.ofNat 32 i).toNat = b.addr.toNat + i := by
    rw [BitVec.toNat_add, BitVec.toNat_ofNat]
    omega
  have hc : b.contains (b.addr + BitVec.ofNat 32 i) = true :=
    contains_iff.mpr ⟨by omega, by omega⟩
  have hidx : b.wordIndex (b.addr + BitVec.ofNat 32 i) = i / 4 := by
    have hsub : (b.addr + BitVec.ofNat 32 i - b.addr).toNat = i := by
      rw [BitVec.toNat_sub, haddr]
      have := b.addr.isLt
      omega
    rw [MemBank.wordIndex, BitVec.toNat_ushiftRight, hsub, Nat.shiftRight_eq_div_pow]
  have hword : rom' j (i / 4) = swap m.bigEndian (group bytes (i / 4) 0) (group bytes (i / 4) 1)
      (group bytes (i / 4) 2) (group bytes (i / 4) 3) := by
    have hp : ∀ n, fileByte b.len.toNat bytes n = bytes.getD n 0 := by
      intro n
      rw [fileByte, List.take_of_length_le hlen]
    have hin : 4 * (i / 4) < b.len.toNat := by omega
    unfold loadBank at hload
    rw [hf] at hload
    have hsome : ∀ {w : Nat → ARMword}, (if (bytes.take b.len.toNat).length = 0 then none
        else some w) = some (rom' j) → w = rom' j := by
      intro w h
      split at h
      · cases h
      · exact Option.some.inj h
    cases htype : b.type with
    | io => exact absurd htype hio
    | ram | rom | flash =>
      rw [htype] at hload
      rw [← hsome hload]
      simp only [if_pos hin, hp, group, Nat.add_zero]
  have hd' : ({ m with rom := rom' } : Banks).Disjoint := hd
  have hsplit : bytes.getD i 0 = group bytes (i / 4) (i % 4) := by
    rw [group, Nat.div_add_mod]
  have hlane : (b.addr + BitVec.ofNat 32 i).toNat % 4 = (b.addr.toNat % 4 + i % 4) % 4 := by
    rw [haddr]
    omega
  rw [hd'.memRead hb hc, Option.some.injEq, readLane_byte_eq, hidx]
  dsimp only
  rw [hword, laneByte_swap, hlane, hsplit]

/-- When a bank holds its file after `mem_reset`. -/
theorem loadsFaithfully_iff (hd : m.Disjoint) {j : Nat} {b : MemBank} {bytes : List (BitVec 8)}
    (hb : m.memBanks[j]? = some b) (hio : b.type ≠ .io) (hf : b.file = .contents bytes)
    (hlen : bytes.length ≤ b.len.toNat) (h4 : b.len.toNat % 4 = 0)
    (hwrap : b.addr.toNat + b.len.toNat ≤ 2 ^ 32) :
    LoadsFaithfully m b bytes ↔ (∀ c ∈ m.memBanks, c.Loads) ∧
      ∀ g < b.len.toNat / 4, Unspoilt m.bigEndian (group bytes g) ∧
        Rotated (b.addr.toNat % 4) (group bytes g) := by
  have hr4 : b.addr.toNat % 4 < 4 := Nat.mod_lt _ (by omega)
  have hreset : (∃ m', m.memReset = some m') ↔ ∀ c ∈ m.memBanks, c.Loads := by
    rw [← resetFrom_isSome m.bigEndian m.memBanks 0 m.rom]
    simp [memReset]
  constructor
  · rintro ⟨m', hr, hbytes⟩
    refine ⟨hreset.mp ⟨m', hr⟩, fun g hg => (spoilt_eq_iff _ _ hr4).mp fun i hi => ?_⟩
    have hlt : 4 * g + i < b.len.toNat := by omega
    have hdiv : (4 * g + i) / 4 = g := by omega
    have hmod : (4 * g + i) % 4 = i := by omega
    have := (memRead_loaded hd hb hio hf hlen hwrap hr hlt).mp (hbytes _ hlt)
    rwa [hdiv, hmod] at this
  · rintro ⟨hloads, hgroups⟩
    obtain ⟨m', hr⟩ := hreset.mpr hloads
    refine ⟨m', hr, fun i hi => (memRead_loaded hd hb hio hf hlen hwrap hr hi).mpr ?_⟩
    have hg : i / 4 < b.len.toNat / 4 := by omega
    exact (spoilt_eq_iff _ _ hr4).mpr (hgroups _ hg) _ (Nat.mod_lt _ (by omega))

/-- A map of one bank of four bytes with a file. -/
def romBank (bytes : List (BitVec 8)) : Banks where
  memBanks := [⟨0, 4, .contents bytes, .rom⟩]
  rom _ _ := 0
  bigEndian := false
  mbp := none

theorem romBank_disjoint (bytes : List (BitVec 8)) : (romBank bytes).Disjoint := by
  intro i j b c a hi hj _ _
  simp only [romBank, List.getElem?_singleton] at hi hj
  split at hi
  · split at hj
    · omega
    · cases hj
  · cases hi

/-- Bytes with and without their top bits set, the first two alone. -/
theorem loadsFaithfully_iff_plain :
    LoadsFaithfully (romBank [1, 2]) ⟨0, 4, .contents [1, 2], .rom⟩ [1, 2] :=
  (loadsFaithfully_iff (romBank_disjoint [1, 2]) (j := 0) rfl (by decide) rfl (by decide)
    (by decide) (by decide)).mpr
    ⟨by simp [romBank, MemBank.Loads], by
      intro g hg
      have h0 : g = 0 := by
        have hlt : g < 1 := hg
        omega
      subst h0
      refine ⟨?_, ?_⟩
      · unfold Unspoilt
        decide
      · unfold Rotated
        decide⟩

/-- The byte `0x80` fills the rest of its word with ones. -/
theorem load_spoils_word : ¬ ∀ (m : Banks) (j : Nat) (b : MemBank) (bytes : List (BitVec 8)),
    m.memBanks[j]? = some b → b.type ≠ .io → b.file = .contents bytes →
    bytes.length ≤ b.len.toNat → b.len.toNat % 4 = 0 → LoadsFaithfully m b bytes := by
  intro h
  obtain ⟨m', hr, hbytes⟩ := h (romBank [0x80, 0, 0, 0]) 0 _ [0x80, 0, 0, 0] rfl (by decide) rfl
    (by decide) (by decide)
  have hread : ((romBank [0x80, 0, 0, 0]).memReset.map fun m => (m.memRead .byte 1).1) =
      some (some 0xFF) := by decide
  rw [hr] at hread
  have h1 := hbytes 1 (by decide)
  have h2 : (m'.memRead .byte 1).1 = some 0xFF := Option.some.inj hread
  revert h1
  rw [show (0 : ARMword) + BitVec.ofNat 32 1 = 1 from rfl, h2]
  decide

end Banks

end SkyEye
