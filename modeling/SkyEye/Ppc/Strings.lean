import SkyEye.Ppc.Pages

/-!
# Strings and multiple words

The loops of STSWI, STSWX, LSWI, LSWX, STMW and LMW on pages of RAM: what a store leaves, byte
by byte, at the translations of the effective addresses, and what a load with the same operands
makes of the registers.
-/

namespace SkyEye.Ppc

open Sparc (Uint32)

/-! ## Bytes of registers -/

/-- Byte `j` of a word, from the top. -/
def byteOf (v : Uint32) (j : Nat) : BitVec 8 := (v >>> (8 * (3 - j))).setWidth 8

/-- Byte `i` of the registers from `d` on, which wrap from r31 to r0. -/
def regByte (gpr : Nat → Uint32) (d i : Nat) : BitVec 8 := byteOf (gpr ((d + i / 4) % 32)) (i % 4)

/-- The first `j` bytes of a word; the others are 0. -/
def keepTop (j : Nat) (v : Uint32) : Uint32 := (v >>> (8 * (4 - j))) <<< (8 * (4 - j))

/-- The register has some of `n` bytes in the registers from `d` on. -/
def InRange (d n q : Nat) : Prop := q < 32 ∧ 4 * ((q + 32 - d) % 32) < n

instance (d n q : Nat) : Decidable (InRange d n q) := inferInstanceAs (Decidable (_ ∧ _))

/-- The registers after `n` bytes of `old` are loaded into the registers `gpr`, from `d` on. -/
def restored (gpr old : Nat → Uint32) (d n : Nat) : Nat → Uint32 := fun q =>
  if InRange d n q then keepTop (min 4 (n - 4 * ((q + 32 - d) % 32))) (old q) else gpr q

theorem push_byte (v : Uint32) (i : Nat) (hi : i < 4) :
    ((v >>> (8 * (i + 1))) <<< 8) ||| (byteOf v (3 - i)).setWidth 32 = v >>> (8 * i) := by
  apply BitVec.eq_of_getLsbD_eq
  intro k hk
  have h3 : 3 - (3 - i) = i := by omega
  simp only [byteOf, h3, BitVec.getLsbD_or, BitVec.getLsbD_shiftLeft, BitVec.getLsbD_ushiftRight,
    BitVec.getLsbD_setWidth]
  by_cases hk8 : k < 8
  · simp [hk8, hk]
  · have hadd : 8 * (i + 1) + (k - 8) = 8 * i + k := by omega
    simp [hk8, hk, hadd]

theorem next_byte (v : Uint32) (j : Nat) (hj : j < 4) :
    (truncate 1 ((v <<< (8 * j)) >>> 24)).setWidth 8 = byteOf v j := by
  apply BitVec.eq_of_getLsbD_eq
  intro k hk
  have h255 : (0xFF : Uint32).getLsbD k = true := by
    have hk' : k = 0 ∨ k = 1 ∨ k = 2 ∨ k = 3 ∨ k = 4 ∨ k = 5 ∨ k = 6 ∨ k = 7 := by omega
    rcases hk' with rfl | rfl | rfl | rfl | rfl | rfl | rfl | rfl <;> rfl
  have hsub : 24 + k - 8 * j = 8 * (3 - j) + k := by omega
  have hge : ¬24 + k < 8 * j := by omega
  have hlt : 24 + k < 32 := by omega
  have htr : truncate 1 ((v <<< (8 * j)) >>> 24) = (v <<< (8 * j)) >>> 24 &&& 0xFF := if_pos rfl
  simp only [htr, byteOf, BitVec.getLsbD_setWidth, BitVec.getLsbD_and, BitVec.getLsbD_ushiftRight,
    BitVec.getLsbD_shiftLeft, h255, hsub, hge, hlt, decide_true, decide_false, Bool.not_false,
    Bool.and_true, Bool.true_and]

/-! ## Places of a range -/

variable {D : Type}

/-- The `n` bytes at `ea` are in pages that are mapped to RAM. -/
def Mapped (b : Board D) (s : E500Core (Bus D)) (ea : Uint32) (n : Nat) : Prop :=
  ∀ i < n, ∃ p place, s.physical b.host (ea + BitVec.ofNat 32 i) mmuWrite = some p ∧
    s.mem.placeOf p = some place

/-- The place that byte `i` of a range is stored at: the translation of its own address. -/
def target (b : Board D) (s : E500Core (Bus D)) (ea : Uint32) (i : Nat) : Option Place :=
  s.placeAt b (ea + BitVec.ofNat 32 i) mmuWrite

/-- The byte `k` behind a place. -/
def Place.behind (q : Place) (k : Nat) : Place := (q.1, q.2 + k)

/-- The place of byte `i` of accesses of `len` bytes at the physical addresses `ps`. -/
def touched (bus : Bus D) (len : Nat) (ps : List Uint32) (i : Nat) : Option Place :=
  (ps[i / len]?).bind fun p => (bus.placeOf p).map (Place.behind · (i % len))

/-- Every word of the range is in RAM in one piece. -/
def WordsWhole (b : Board D) (s : E500Core (Bus D)) (ea : Uint32) (n : Nat) : Prop :=
  ∀ i < n, target b s ea i = (target b s ea (4 * (i / 4))).map (Place.behind · (i % 4))

/-- The byte at a place. -/
def Bus.byteAt (bus : Bus D) (q : Place) : BitVec 8 := bus.ram q.1 q.2

/-- A store of `n` bytes of the registers from `d` on, with accesses of `len` bytes from `ea` up,
and then a load with the same operands, the registers of the range changed in between to those
of `gpr`: every byte is stored at the translation of its own address, no other byte of RAM and
no register is changed, and the load restores the bytes. -/
def RoundTrips (b : Board D) (store load : E500Core (Bus D) → Option (E500Core (Bus D)))
    (s : E500Core (Bus D)) (ea : Uint32) (d n len : Nat) : Prop :=
  ∃ (mem : Bus D) (ps : List Uint32),
    store s = some { s with mem := mem, written := s.written ++ ps } ∧
    mem.dev = s.mem.dev ∧ mem.ccsr = s.mem.ccsr ∧ ps.length * len = n ∧
    (∀ i < n, touched s.mem len ps i = target b s ea i) ∧
    (∀ i < n, ∀ q, target b s ea i = some q → mem.byteAt q = regByte s.gpr d i) ∧
    (∀ q, (∀ i < n, target b s ea i ≠ some q) → mem.byteAt q = s.mem.byteAt q) ∧
    ∀ gpr : Nat → Uint32, (∀ q, ¬InRange d n q → gpr q = s.gpr q) →
      load { s with mem := mem, written := s.written ++ ps, gpr := gpr } =
        some { s with
          mem := mem
          written := s.written ++ ps
          gpr := restored gpr s.gpr d n }

/-! ## The accesses -/

section

variable {b : Board D} {s u : E500Core (Bus D)} {ea : Uint32} {n : Nat} {p : Nat → Uint32}
  {pl : Nat → Place}

/-- The physical addresses and the places of a range; different bytes are at different places. -/
structure Sees (b : Board D) (s : E500Core (Bus D)) (ea : Uint32) (n : Nat) (p : Nat → Uint32)
    (pl : Nat → Place) : Prop where
  physical : ∀ i < n, s.physical b.host (ea + BitVec.ofNat 32 i) mmuWrite = some (p i)
  placeOf : ∀ i < n, s.mem.placeOf (p i) = some (pl i)
  inj : ∀ i < n, ∀ j < n, pl i = pl j → i = j

theorem Sees.congr (hs : Sees b s ea n p pl) (hm : u.mmu = s.mmu) (hr : u.msr = s.msr)
    (hd : u.mem.dev = s.mem.dev) (hc : u.mem.ccsr = s.mem.ccsr) : Sees b u ea n p pl where
  physical i hi := by
    have hb : b.host.bptr u.mem = b.host.bptr s.mem := congrArg b.bptr hd
    have hbe : b.host.behind u.mem = b.host.behind s.mem := congrArg b.behind hd
    have := hs.physical i hi
    unfold E500Core.physical at this ⊢
    rw [hb, hbe, E500Core.lookup_congr hm hr]
    exact this
  placeOf i hi := by
    have := hs.placeOf i hi
    unfold Bus.placeOf at this ⊢
    rw [hc]
    exact this
  inj := hs.inj

theorem Sees.target_eq (hs : Sees b s ea n p pl) {i : Nat} (hi : i < n) :
    target b s ea i = some (pl i) := by
  rw [target, E500Core.placeAt, hs.physical i hi, Option.bind_some, hs.placeOf i hi]

/-- The places of RAM are those of different addresses. -/
theorem ramPlace_inj {x y : Uint32} {q : Place} (hx : ramPlace x = some q)
    (hy : ramPlace y = some q) : x = y := by
  unfold ramPlace at hx hy
  refine BitVec.eq_of_toNat_eq ?_
  split at hx
  · obtain rfl := Option.some.inj hx
    split at hy
    · have := (Prod.mk.inj (Option.some.inj hy)).2
      omega
    · split at hy
      · exact absurd (Prod.mk.inj (Option.some.inj hy)).1 (by decide)
      · cases hy
  · split at hx
    · obtain rfl := Option.some.inj hx
      split at hy
      · exact absurd (Prod.mk.inj (Option.some.inj hy)).1 (by decide)
      · split at hy
        · exact ((Prod.mk.inj (Option.some.inj hy)).2).symm
        · cases hy
    · cases hx

/-- A range that is mapped, of less than a page. -/
theorem Mapped.sees (h : Mapped b s ea n) (hn : n ≤ 4096) : ∃ p pl, Sees b s ea n p pl := by
  have hall : ∀ i, ∃ r : Uint32 × Place, i < n →
      s.physical b.host (ea + BitVec.ofNat 32 i) mmuWrite = some r.1 ∧
      s.mem.placeOf r.1 = some r.2 := by
    intro i
    by_cases hi : i < n
    · obtain ⟨p, pl, hp⟩ := h i hi
      exact ⟨(p, pl), fun _ => hp⟩
    · exact ⟨(0, (.init, 0)), fun hi' => absurd hi' hi⟩
  choose r hr using hall
  refine ⟨fun i => (r i).1, fun i => (r i).2, fun i hi => (hr i hi).1,
    fun i hi => (hr i hi).2, fun i hi j hj hij => ?_⟩
  have hpi := (Bus.placeOf_eq_some (hr i hi).2).2
  have hpj := (Bus.placeOf_eq_some (hr j hj).2).2
  rw [hij] at hpi
  have heq : (r i).1 = (r j).1 := ramPlace_inj hpi hpj
  have hoff : eaOffset (ea + BitVec.ofNat 32 i) = eaOffset (ea + BitVec.ofNat 32 j) := by
    rw [← physical_offset (hr i hi).1, ← physical_offset (hr j hj).1, heq]
  have hmod := congrArg BitVec.toNat hoff
  rw [toNat_eaOffset, toNat_eaOffset, BitVec.toNat_add, BitVec.toNat_add, BitVec.toNat_ofNat,
    BitVec.toNat_ofNat] at hmod
  omega

theorem Sees.write (hs : Sees b s ea n p pl) {i : Nat} (hi : i < n) (len : Nat) (v : Uint32) :
    s.writeEffective b.host (ea + BitVec.ofNat 32 i) len v =
      .ok () { s with
        mem := s.mem.store (pl i) len (truncate len v)
        written := s.written ++ [p i] } := by
  unfold E500Core.writeEffective
  rw [translate_of_physical (hs.physical i hi)]
  dsimp only
  unfold E500Core.writePhysical
  rw [Board.host_write, Board.write_ram (hs.placeOf i hi)]
  rfl

theorem Sees.read (hs : Sees b s ea n p pl) {i : Nat} (hi : i < n) (len : Nat) (old : Uint32) :
    s.readEffective b.host (ea + BitVec.ofNat 32 i) len old =
      .ok (truncate len (s.mem.value (pl i) len)) s := by
  unfold E500Core.readEffective
  rw [translate_of_physical (physical_read (hs.physical i hi))]
  dsimp only
  rw [Board.host_read, Board.read_ram (hs.placeOf i hi)]
  rfl

/-! ## The bytes stored -/

/-- The bytes from `k` up to `n` are stored at their places, and no others. -/
def Stored (pl : Nat → Place) (f : Nat → BitVec 8) (k n : Nat) (bus bus' : Bus D) : Prop :=
  (∀ i, k ≤ i → i < n → bus'.byteAt (pl i) = f i) ∧
    ∀ q, (∀ i, k ≤ i → i < n → q ≠ pl i) → bus'.byteAt q = bus.byteAt q

theorem stored_none (pl : Nat → Place) (f : Nat → BitVec 8) (k : Nat) (bus : Bus D) :
    Stored pl f k k bus bus :=
  ⟨fun _ h1 h2 => absurd h2 (Nat.not_lt.mpr h1), fun _ _ => rfl⟩

theorem Stored.trans {f : Nat → BitVec 8} {k m n : Nat} {bus bus1 bus2 : Bus D} (hkm : k ≤ m)
    (hmn : m ≤ n) (hinj : ∀ i < n, ∀ j < n, pl i = pl j → i = j)
    (h1 : Stored pl f k m bus bus1) (h2 : Stored pl f m n bus1 bus2) :
    Stored pl f k n bus bus2 := by
  refine ⟨fun i hki hin => ?_, fun q hq => ?_⟩
  · by_cases hi : i < m
    · rw [h2.2 (pl i) fun j hmj hjn he => ?_, h1.1 i hki hi]
      have := hinj i hin j hjn he
      omega
    · exact h2.1 i (Nat.le_of_not_lt hi) hin
  · rw [h2.2 q fun j hmj hjn => hq j (Nat.le_trans hkm hmj) hjn,
      h1.2 q fun j hkj hjm => hq j hkj (Nat.lt_of_lt_of_le hjm hmn)]

/-- A store of `len` bytes, which are at one place behind the other. -/
theorem stored_store {f : Nat → BitVec 8} {k len : Nat} {bus : Bus D} {data : Uint32}
    (hpl : ∀ j < len, pl (k + j) = (pl k).behind j)
    (hf : ∀ j < len, (data >>> (8 * (len - 1 - j))).setWidth 8 = f (k + j)) :
    Stored pl f k (k + len) bus (bus.store (pl k) len data) := by
  refine ⟨fun i hki hin => ?_, fun q hq => ?_⟩
  · obtain ⟨j, rfl⟩ := Nat.exists_eq_add_of_le hki
    have hj : j < len := by omega
    rw [hpl j hj, ← hf j hj]
    have hsub : (pl k).2 + j - (pl k).2 = j := by omega
    refine (if_pos ⟨rfl, Nat.le_add_right _ _, Nat.add_lt_add_left hj _⟩).trans ?_
    show (data >>> (8 * (len - 1 - ((pl k).2 + j - (pl k).2)))).setWidth 8 = _
    rw [hsub]
  · refine if_neg fun ⟨hr, hlo, hup⟩ => ?_
    have hj : q.2 - (pl k).2 < len := by omega
    refine hq (k + (q.2 - (pl k).2)) (Nat.le_add_right _ _) (by omega) ?_
    rw [hpl _ hj]
    exact Prod.ext hr (by show q.2 = (pl k).2 + (q.2 - (pl k).2); omega)

/-! ## The loops of the stores -/

theorem add_byte (ea : Uint32) (k : Nat) :
    ea + BitVec.ofNat 32 k + 1 = ea + BitVec.ofNat 32 (k + 1) := by
  rw [BitVec.ofNat_add, BitVec.add_assoc]
  rfl

theorem add_word (ea : Uint32) (w : Nat) :
    ea + BitVec.ofNat 32 (4 * w) + 4 = ea + BitVec.ofNat 32 (4 * (w + 1)) := by
  rw [Nat.mul_succ, BitVec.ofNat_add, BitVec.add_assoc]
  rfl

theorem word_byte (w : Nat) {j : Nat} (hj : j < 4) :
    (4 * w + j) / 4 = w ∧ (4 * w + j) % 4 = j := by
  omega

/-- The loop of a string store before byte `k`: `i` bytes of `r` are left, or `d'` is the next
register. -/
def StoreAt (gpr : Nat → Uint32) (d k d' : Nat) (r : Uint32) (i : Nat) : Prop :=
  if k % 4 = 0 then i = 0 ∧ d' = (d + k / 4) % 32
  else i = 4 - k % 4 ∧ d' = (d + k / 4 + 1) % 32 ∧
    r = gpr ((d + k / 4) % 32) <<< (8 * (k % 4))

theorem StoreAt.next {gpr : Nat → Uint32} {d k d' i : Nat} {r : Uint32}
    (h : StoreAt gpr d k d' r i) :
    let x := if i = 0 then ((d' + 1) % 32, gpr d', 4) else (d', r, i)
    (truncate 1 (x.2.1 >>> 24)).setWidth 8 = regByte gpr d k ∧
      StoreAt gpr d (k + 1) x.1 (x.2.1 <<< 8) (x.2.2 - 1) := by
  have hshift (v : Uint32) (j : Nat) : (v <<< (8 * j)) <<< 8 = v <<< (8 * (j + 1)) := by
    rw [← BitVec.shiftLeft_add, Nat.mul_succ]
  unfold StoreAt at h
  by_cases hk : k % 4 = 0
  · rw [if_pos hk] at h
    obtain ⟨rfl, rfl⟩ := h
    have hk1 : (k + 1) % 4 = 1 := by omega
    have hd1 : (k + 1) / 4 = k / 4 := by omega
    refine ⟨?_, ?_⟩
    · have hb := next_byte (gpr ((d + k / 4) % 32)) 0 (by decide)
      rw [Nat.mul_zero, BitVec.shiftLeft_zero] at hb
      rw [regByte, hk]
      exact hb
    · unfold StoreAt
      rw [hk1, hd1, if_neg (by decide)]
      refine ⟨rfl, ?_, rfl⟩
      show ((d + k / 4) % 32 + 1) % 32 = _
      omega
  · rw [if_neg hk] at h
    obtain ⟨rfl, rfl, rfl⟩ := h
    have hi : ¬4 - k % 4 = 0 := by omega
    rw [if_neg hi]
    refine ⟨next_byte _ (k % 4) (by omega), ?_⟩
    unfold StoreAt
    dsimp only
    by_cases h3 : k % 4 = 3
    · have hk1 : (k + 1) % 4 = 0 := by omega
      rw [if_pos hk1]
      omega
    · have hk1 : (k + 1) % 4 = k % 4 + 1 := by omega
      have hd1 : (k + 1) / 4 = k / 4 := by omega
      rw [hk1, hd1, if_neg (by omega)]
      exact ⟨by omega, rfl, hshift _ _⟩

/-- The loop of STSWI and STSWX from byte `k` on. -/
theorem stswLoop_spec {d : Nat} : ∀ (nb k d' i : Nat) (r : Uint32) (u : E500Core (Bus D)),
    Sees b u ea n p pl → k + nb = n → StoreAt u.gpr d k d' r i →
    ∃ mem, u.stswLoop b.host d' r i (ea + BitVec.ofNat 32 k) nb =
        some { u with mem := mem, written := u.written ++ (List.range' k nb).map p } ∧
      mem.dev = u.mem.dev ∧ mem.ccsr = u.mem.ccsr ∧ Stored pl (regByte u.gpr d) k n u.mem mem
  | 0, k, d', i, r, u, _, hk, _ => by
    obtain rfl : k = n := hk
    refine ⟨u.mem, ?_, rfl, rfl, stored_none pl _ k u.mem⟩
    rw [E500Core.stswLoop, List.range'_zero, List.map_nil, List.append_nil]
  | nb + 1, k, d', i, r, u, hu, hk, hat => by
    have hkn : k < n := by omega
    obtain ⟨hbyte, hnext⟩ := hat.next
    rw [E500Core.stswLoop]
    generalize hx : (if i = 0 then ((d' + 1) % 32, u.gpr d', 4) else (d', r, i)) = x at hbyte hnext
    dsimp only at hbyte hnext ⊢
    rw [hu.write hkn]
    dsimp only
    rw [add_byte]
    have hu1 : Sees b ({ u with
        mem := u.mem.store (pl k) 1 (truncate 1 (x.2.1 >>> 24))
        written := u.written ++ [p k] } : E500Core (Bus D)) ea n p pl :=
      hu.congr rfl rfl rfl rfl
    obtain ⟨mem, hrun, hd, hc, hst⟩ := stswLoop_spec nb (k + 1) x.1 (x.2.2 - 1) (x.2.1 <<< 8) _
      hu1 (by omega) hnext
    refine ⟨mem, ?_, hd, hc, ?_⟩
    · rw [hrun, List.range'_succ, List.map_cons, List.append_assoc]
      rfl
    · have hone : Stored pl (regByte u.gpr d) k (k + 1) u.mem
          (u.mem.store (pl k) 1 (truncate 1 (x.2.1 >>> 24))) := by
        refine stored_store (fun j hj => ?_) fun j hj => ?_
        · obtain rfl : j = 0 := by omega
          rfl
        · obtain rfl : j = 0 := by omega
          exact hbyte
      exact hone.trans (Nat.le_succ k) hkn hu.inj hst

/-- The bytes of a word are at one place behind the other. -/
def Whole (pl : Nat → Place) (n : Nat) : Prop :=
  ∀ i < n, pl i = (pl (4 * (i / 4))).behind (i % 4)

/-- The loop of STMW from word `w` on. -/
theorem stmwLoop_spec (hw : Whole pl n) {d : Nat} : ∀ (nw w : Nat) (u : E500Core (Bus D)),
    Sees b u ea n p pl → 4 * (w + nw) = n → d + (w + nw) = 32 →
    ∃ mem, u.stmwLoop b.host (d + w) (ea + BitVec.ofNat 32 (4 * w)) nw =
        some { u with
          mem := mem
          written := u.written ++ (List.range' w nw).map fun k => p (4 * k) } ∧
      mem.dev = u.mem.dev ∧ mem.ccsr = u.mem.ccsr ∧
      Stored pl (regByte u.gpr d) (4 * w) n u.mem mem
  | 0, w, u, _, hn, _ => by
    obtain rfl : 4 * w = n := hn
    refine ⟨u.mem, ?_, rfl, rfl, stored_none pl _ (4 * w) u.mem⟩
    rw [E500Core.stmwLoop, List.range'_zero, List.map_nil, List.append_nil]
  | nw + 1, w, u, hu, hn, hd => by
    have hwn : 4 * w < n := by omega
    rw [E500Core.stmwLoop, hu.write hwn]
    dsimp only
    rw [add_word]
    have hu1 : Sees b ({ u with
        mem := u.mem.store (pl (4 * w)) 4 (truncate 4 (u.gpr (d + w)))
        written := u.written ++ [p (4 * w)] } : E500Core (Bus D)) ea n p pl :=
      hu.congr rfl rfl rfl rfl
    obtain ⟨mem, hrun, hdev, hc, hst⟩ :=
      stmwLoop_spec hw (d := d) nw (w + 1) _ hu1 (by omega) (by omega)
    refine ⟨mem, ?_, hdev, hc, ?_⟩
    · rw [Nat.add_assoc, hrun, List.range'_succ, List.map_cons, List.append_assoc]
      rfl
    · have hone : Stored pl (regByte u.gpr d) (4 * w) (4 * w + 4) u.mem
          (u.mem.store (pl (4 * w)) 4 (truncate 4 (u.gpr (d + w)))) := by
        refine stored_store (fun j hj => ?_) fun j hj => ?_
        · obtain ⟨hdiv, hmod⟩ := word_byte w hj
          have := hw (4 * w + j) (by omega)
          rw [hdiv, hmod] at this
          exact this
        · obtain ⟨hdiv, hmod⟩ := word_byte w hj
          have hreg : (d + w) % 32 = d + w := Nat.mod_eq_of_lt (by omega)
          rw [regByte, hdiv, hmod, hreg]
          rfl
      exact hone.trans (Nat.le_add_right (4 * w) 4) (by omega) hu.inj hst

/-! ## The loops of the loads -/

theorem keepTop_four (v : Uint32) : keepTop 4 v = v := by
  simp [keepTop]

theorem restored_next (gpr old : Nat → Uint32) {d m j : Nat} (hd : d < 32) (hm : m < 32)
    (h0 : 0 < j) (hj : j ≤ 4) :
    Function.update (restored gpr old d (4 * m)) ((d + m) % 32) (keepTop j (old ((d + m) % 32))) =
      restored gpr old d (4 * m + j) := by
  funext q
  by_cases hq : q = (d + m) % 32
  · subst hq
    have he : ((d + m) % 32 + 32 - d) % 32 = m := by omega
    have hin : InRange d (4 * m + j) ((d + m) % 32) := ⟨Nat.mod_lt _ (by decide), by omega⟩
    have hmin : min 4 (4 * m + j - 4 * m) = j := by omega
    rw [Function.update_self, restored, if_pos hin, he, hmin]
  · rw [Function.update_of_ne hq, restored, restored]
    have hiff : InRange d (4 * m) q ↔ InRange d (4 * m + j) q := by
      unfold InRange
      omega
    by_cases hin : InRange d (4 * m) q
    · have hmin : min 4 (4 * m - 4 * ((q + 32 - d) % 32)) =
          min 4 (4 * m + j - 4 * ((q + 32 - d) % 32)) := by
        unfold InRange at hin
        omega
      rw [if_pos hin, if_pos (hiff.mp hin), hmin]
    · rw [if_neg hin, if_neg fun h => hin (hiff.mpr h)]

theorem restored_none (gpr old : Nat → Uint32) (d : Nat) : restored gpr old d 0 = gpr :=
  funext fun _ => if_neg fun h => Nat.not_lt_zero _ h.2

/-- The loop of a string load before byte `k`: `m` registers are done, and `i` bytes are free in
`r`, which goes to the next one. -/
structure LoadAt (old gpr : Nat → Uint32) (d m k d' : Nat) (r : Uint32) (i : Nat)
    (now : Nat → Uint32) : Prop where
  lower : 4 * m ≤ k
  upper : k ≤ 4 * m + 4
  reg : d' = (d + m) % 32
  free : i = 4 * m + 4 - k
  word : r = old ((d + m) % 32) >>> (8 * i)
  now_eq : now = restored gpr old d (4 * m)

/-- Nothing is left of a word behind its four bytes. -/
theorem word_done (v : Uint32) : v >>> (8 * 4) = 0 :=
  BitVec.eq_of_toNat_eq (by
    rw [BitVec.toNat_ushiftRight, Nat.shiftRight_eq_div_pow]
    exact Nat.div_eq_of_lt v.isLt)

/-- A full register is written, and the next one begins. -/
theorem LoadAt.flush {old gpr now : Nat → Uint32} {d m k d' : Nat} {r : Uint32}
    (h : LoadAt old gpr d m k d' r 0 now) (hd : d < 32) (hm : m < 32) :
    LoadAt old gpr d (m + 1) k ((d' + 1) % 32) 0 4 (Function.update now d' r) := by
  have hk : k = 4 * m + 4 := by
    have := h.free
    have := h.upper
    omega
  refine ⟨Nat.le_of_eq (by omega), by omega, by rw [h.reg]; omega, by omega,
    (word_done _).symm, ?_⟩
  · have hword : r = keepTop 4 (old ((d + m) % 32)) := by
      rw [keepTop_four]
      exact h.word.trans (BitVec.ushiftRight_zero _)
    rw [h.now_eq, h.reg, hword, restored_next gpr old hd hm (by decide) (Nat.le_refl 4)]
    rfl

theorem LoadAt.push {old gpr now : Nat → Uint32} {d m k d' i : Nat} {r : Uint32}
    (h : LoadAt old gpr d m k d' r i now) (hi : i ≠ 0) :
    LoadAt old gpr d m (k + 1) d' ((r <<< 8) ||| (regByte old d k).setWidth 32) (i - 1) now := by
  have hk := h.free
  have hlow := h.lower
  refine ⟨by omega, by omega, h.reg, by omega, ?_, h.now_eq⟩
  have hdiv : k / 4 = m := by omega
  have hmod : k % 4 = 3 - (i - 1) := by omega
  have hi1 : i = i - 1 + 1 := by omega
  rw [regByte, hdiv, hmod, ← push_byte _ (i - 1) (by omega), ← hi1, h.word]

theorem value_byte (bus : Bus D) (q : Place) :
    truncate 1 (bus.value q 1) = (bus.byteAt q).setWidth 32 := by
  have hv : bus.value q 1 = (bus.byteAt q).setWidth 32 := by
    show (0 <<< 8) ||| (bus.byteAt q).setWidth 32 = _
    simp
  have hlt : (bus.byteAt q).toNat < 2 ^ 8 := (bus.byteAt q).isLt
  have hnat : ((bus.byteAt q).setWidth 32).toNat = (bus.byteAt q).toNat := by
    rw [BitVec.toNat_setWidth]
    exact Nat.mod_eq_of_lt (by omega)
  have hlow : ((bus.byteAt q).setWidth 32 &&& 0xFF).toNat = _ :=
    Word.toNat_and_low _ 8 (by omega)
  rw [hv, truncate, if_pos rfl]
  refine BitVec.eq_of_toNat_eq (hlow.trans ?_)
  rw [hnat, Nat.mod_eq_of_lt hlt]

/-- The loop of LSWI and LSWX from byte `k` on. -/
theorem lswLoop_spec {old gpr : Nat → Uint32} {d : Nat} (hd : d < 32) (hn : n ≤ 128) :
    ∀ (nb k m d' i : Nat) (r : Uint32) (u : E500Core (Bus D)), Sees b u ea n p pl →
    (∀ i < n, u.mem.byteAt (pl i) = regByte old d i) → k + nb = n → (nb = 0 → 4 * m < k) →
    LoadAt old gpr d m k d' r i u.gpr →
    u.lswLoop b.host d' r i (ea + BitVec.ofNat 32 k) nb =
      some { u with gpr := restored gpr old d n }
  | 0, k, m, d', i, r, u, _, _, hk, hlast, hat => by
    obtain rfl : k = n := hk
    have hlow := hlast rfl
    have hup := hat.upper
    have hkm : 4 * m + (k - 4 * m) = k := by omega
    have hfree : i = 4 - (k - 4 * m) := by
      have := hat.free
      omega
    have hword : r <<< (8 * i) = keepTop (k - 4 * m) (old ((d + m) % 32)) := by
      rw [hat.word, hfree]
      rfl
    rw [E500Core.lswLoop, E500Core.setGpr, hword, hat.now_eq, hat.reg,
      restored_next gpr old hd (by omega) (by omega) (by omega), hkm]
  | nb + 1, k, m, d', i, r, u, hu, hbytes, hk, _, hat => by
    have hkn : k < n := by omega
    rw [E500Core.lswLoop]
    by_cases hi : i = 0
    · subst hi
      have hm : m < 32 := by
        have := hat.lower
        omega
      have hf := hat.flush hd hm
      have hu1 : Sees b (u.setGpr d' r) ea n p pl := hu.congr rfl rfl rfl rfl
      rw [if_pos rfl]
      dsimp only
      rw [hu1.read hkn, value_byte]
      dsimp only
      rw [add_byte, show (u.setGpr d' r).mem = u.mem from rfl, hbytes k hkn]
      have hlow := hf.lower
      rw [lswLoop_spec hd hn nb (k + 1) (m + 1) _ 3 _ (u.setGpr d' r) hu1 hbytes (by omega)
        (fun _ => by omega) (hf.push (by decide))]
      rfl
    · rw [if_neg hi]
      dsimp only
      rw [hu.read hkn, value_byte]
      dsimp only
      rw [add_byte, hbytes k hkn]
      have hlow := hat.lower
      exact lswLoop_spec hd hn nb (k + 1) m _ (i - 1) _ u hu hbytes (by omega)
        (fun _ => by omega) (hat.push hi)

theorem value_word {bus : Bus D} {q : Place} {v : Uint32}
    (h : ∀ j < 4, bus.byteAt (q.behind j) = byteOf v j) : bus.value q 4 = v := by
  have hall : ∀ j ≤ 4, bus.value q j = v >>> (8 * (4 - j)) := by
    intro j
    induction j with
    | zero =>
      intro _
      exact (word_done v).symm
    | succ j ih =>
      intro hj
      have hb := h j (by omega)
      have h3 : 3 - (3 - j) = j := by omega
      have h4 : 4 - j = 3 - j + 1 := by omega
      have h5 : 4 - (j + 1) = 3 - j := by omega
      have hpush := push_byte v (3 - j) (by omega)
      rw [h3, ← h4, ← h5] at hpush
      rw [← hpush, ← ih (by omega), ← hb]
      rfl
  exact hall 4 (Nat.le_refl 4)

/-- The loop of LMW from word `w` on. -/
theorem lmwLoop_spec {old gpr : Nat → Uint32} {d : Nat} (hw : Whole pl n) :
    ∀ (nw w : Nat) (u : E500Core (Bus D)), Sees b u ea n p pl →
    (∀ i < n, u.mem.byteAt (pl i) = regByte old d i) → 4 * (w + nw) = n → d + (w + nw) = 32 →
    u.gpr = restored gpr old d (4 * w) →
    u.lmwLoop b.host (d + w) (ea + BitVec.ofNat 32 (4 * w)) nw =
      some { u with gpr := restored gpr old d n }
  | 0, w, u, _, _, hn, _, hg => by
    obtain rfl : 4 * w = n := hn
    rw [E500Core.lmwLoop, ← hg]
  | nw + 1, w, u, hu, hbytes, hn, hd, hg => by
    have hwn : 4 * w < n := by omega
    have hreg : (d + w) % 32 = d + w := Nat.mod_eq_of_lt (by omega)
    have hword : u.mem.value (pl (4 * w)) 4 = old (d + w) := by
      refine value_word fun j hj => ?_
      obtain ⟨hdiv, hmod⟩ := word_byte w hj
      have hpl := hw (4 * w + j) (by omega)
      rw [hdiv, hmod] at hpl
      rw [← hpl, hbytes _ (by omega), regByte, hdiv, hmod, hreg]
    have hnext : (u.setGpr (d + w) (old (d + w))).gpr = restored gpr old d (4 * (w + 1)) := by
      have := restored_next gpr old (d := d) (m := w) (j := 4) (by omega) (by omega) (by decide)
        (Nat.le_refl 4)
      rw [hreg, ← hg, keepTop_four] at this
      exact this
    rw [E500Core.lmwLoop, hu.read hwn]
    dsimp only
    rw [add_word, hword, Nat.add_assoc]
    have hrun := lmwLoop_spec hw nw (w + 1) (u.setGpr (d + w) (old (d + w)))
      (hu.congr rfl rfl rfl rfl) hbytes (by omega) (by omega) hnext
    exact hrun

end

/-! ## Round trips -/

/-- A store and the load with the same operands. -/
inductive Transfer where
  | immediate | indexed | multiple

namespace Transfer

variable {M : Type}

def store (t : Transfer) (h : Host M) (s : E500Core M) : Option (E500Core M) :=
  match t with
  | immediate => s.stswi h
  | indexed => s.stswx h
  | multiple => s.stmw h

def load (t : Transfer) (h : Host M) (s : E500Core M) : Option (E500Core M) :=
  match t with
  | immediate => s.lswi h
  | indexed => s.lswx h
  | multiple => s.lmw h

/-- The effective address. -/
def ea (t : Transfer) (s : E500Core M) : Uint32 :=
  match t with
  | immediate => s.gprOrZero
  | indexed => s.eaX
  | multiple => s.eaD

/-- The count of bytes, and the bytes of one access. -/
def count (t : Transfer) (s : E500Core M) : Nat :=
  match t with
  | immediate => s.nb
  | indexed => xerN s.xer
  | multiple => 4 * (32 - rD s.currentOpc)

def width : Transfer → Nat
  | immediate | indexed => 1
  | multiple => 4

/-- The address registers are outside the registers of the range. As rA, 0 is no register. -/
def Apart (t : Transfer) (s : E500Core M) : Prop :=
  (rA s.currentOpc = 0 ∨ ¬InRange (rD s.currentOpc) (t.count s) (rA s.currentOpc)) ∧
    (t = indexed → ¬InRange (rD s.currentOpc) (t.count s) (rB s.currentOpc))

/-- Where the pair does what it has to: LSWX has a count, or a first register that is 0 anyway,
and the words of STMW are in RAM in one piece. -/
def Sound (t : Transfer) (b : Board D) (s : E500Core (Bus D)) : Prop :=
  match t with
  | immediate => True
  | indexed => xerN s.xer ≠ 0 ∨ s.gpr (rD s.currentOpc) = 0
  | multiple => WordsWhole b s (t.ea s) (t.count s)

/-- The pair makes the round trip. -/
def Restores (t : Transfer) (b : Board D) (s : E500Core (Bus D)) : Prop :=
  RoundTrips b (t.store b.host) (t.load b.host) s (t.ea s) (rD s.currentOpc) (t.count s) t.width

end Transfer

section

variable {b : Board D} {s : E500Core (Bus D)} {ea : Uint32} {n d len : Nat} {p : Nat → Uint32}
  {pl : Nat → Place} {store load : E500Core (Bus D) → Option (E500Core (Bus D))}

/-- The places of the accesses are those of the addresses. -/
theorem Sees.roundTrips {mem : Bus D} {ps : List Uint32} (hs : Sees b s ea n p pl)
    (hstore : store s = some { s with mem := mem, written := s.written ++ ps })
    (hdev : mem.dev = s.mem.dev) (hccsr : mem.ccsr = s.mem.ccsr) (hlen : ps.length * len = n)
    (ht : ∀ i < n, touched s.mem len ps i = some (pl i))
    (hst : Stored pl (regByte s.gpr d) 0 n s.mem mem)
    (hload : ∀ gpr : Nat → Uint32, (∀ q, ¬InRange d n q → gpr q = s.gpr q) →
      load { s with mem := mem, written := s.written ++ ps, gpr := gpr } =
        some { s with
          mem := mem
          written := s.written ++ ps
          gpr := restored gpr s.gpr d n }) :
    RoundTrips b store load s ea d n len := by
  refine ⟨mem, ps, hstore, hdev, hccsr, hlen, fun i hi => ?_, fun i hi q hq => ?_,
    fun q hq => ?_, hload⟩
  · rw [ht i hi, hs.target_eq hi]
  · rw [hs.target_eq hi] at hq
    obtain rfl := Option.some.inj hq
    exact hst.1 i (Nat.zero_le i) hi
  · refine hst.2 q fun i _ hi he => hq i hi ?_
    rw [hs.target_eq hi, he]

theorem string_roundTrips (hm : Mapped b s ea n) (h0 : 0 < n) (hn : n ≤ 128) (hd : d < 32)
    (hstore : store s = s.stswLoop b.host d 0 0 ea n)
    (hload : ∀ (mem : Bus D) (ws : List Uint32) (gpr : Nat → Uint32),
      (∀ q, ¬InRange d n q → gpr q = s.gpr q) →
        load { s with mem := mem, written := ws, gpr := gpr } =
          E500Core.lswLoop b.host { s with mem := mem, written := ws, gpr := gpr } d 0 4 ea n) :
    RoundTrips b store load s ea d n 1 := by
  obtain ⟨p, pl, hs⟩ := hm.sees (Nat.le_trans hn (by decide))
  have hea : ea + BitVec.ofNat 32 0 = ea := BitVec.add_zero ea
  have hat : StoreAt s.gpr d 0 d 0 0 := by
    rw [StoreAt, if_pos rfl]
    exact ⟨rfl, by omega⟩
  obtain ⟨mem, hrun, hdev, hc, hst⟩ := stswLoop_spec n 0 d 0 0 s hs (Nat.zero_add n) hat
  rw [hea, ← hstore] at hrun
  refine hs.roundTrips hrun hdev hc ?_ (fun i hi => ?_) hst fun gpr hgpr => ?_
  · rw [List.length_map, List.length_range', Nat.mul_one]
  · have hget : (List.range' 0 n)[i]? = some i := by
      rw [List.getElem?_range' hi]
      exact congrArg some (by omega)
    rw [touched, Nat.div_one, Nat.mod_one, List.getElem?_map, hget, Option.map_some,
      Option.bind_some, hs.placeOf i hi]
    rfl
  · rw [hload mem _ gpr hgpr]
    have hl : LoadAt s.gpr gpr d 0 0 d 0 4 gpr := by
      refine ⟨Nat.le_refl 0, by decide, by omega, rfl, ?_, (restored_none gpr s.gpr d).symm⟩
      exact (word_done _).symm
    have hrun := lswLoop_spec hd hn n 0 0 d 4 0
      ({ s with
        mem := mem
        written := s.written ++ (List.range' 0 n).map p
        gpr := gpr } : E500Core (Bus D))
      (hs.congr rfl rfl hdev hc) (fun i hi => hst.1 i (Nat.zero_le i) hi) (Nat.zero_add n)
      (fun h => absurd h0 (h ▸ Nat.lt_irrefl 0)) hl
    rw [hea] at hrun
    exact hrun

theorem multiple_roundTrips (hm : Mapped b s ea n) (hd : d < 32) (hn : n = 4 * (32 - d))
    (hw : WordsWhole b s ea n) (hstore : store s = s.stmwLoop b.host d ea (32 - d))
    (hload : ∀ (mem : Bus D) (ws : List Uint32) (gpr : Nat → Uint32),
      (∀ q, ¬InRange d n q → gpr q = s.gpr q) →
        load { s with mem := mem, written := ws, gpr := gpr } =
          E500Core.lmwLoop b.host { s with mem := mem, written := ws, gpr := gpr } d ea (32 - d)) :
    RoundTrips b store load s ea d n 4 := by
  obtain ⟨p, pl, hs⟩ := hm.sees (by omega)
  have hwhole : Whole pl n := by
    intro i hi
    have := hw i hi
    rw [hs.target_eq hi, hs.target_eq (by omega)] at this
    exact Option.some.inj this
  have hea : ea + BitVec.ofNat 32 (4 * 0) = ea := BitVec.add_zero ea
  obtain ⟨mem, hrun, hdev, hc, hst⟩ :=
    stmwLoop_spec hwhole (d := d) (32 - d) 0 s hs (by omega) (by omega)
  rw [hea, Nat.add_zero, ← hstore] at hrun
  refine hs.roundTrips hrun hdev hc ?_ (fun i hi => ?_) hst fun gpr hgpr => ?_
  · rw [List.length_map, List.length_range', hn, Nat.mul_comm]
  · have hget : (List.range' 0 (32 - d))[i / 4]? = some (i / 4) := by
      rw [List.getElem?_range' (by omega)]
      exact congrArg some (by omega)
    rw [touched, List.getElem?_map, hget, Option.map_some, Option.bind_some,
      hs.placeOf _ (by omega), hwhole i hi]
    rfl
  · rw [hload mem _ gpr hgpr]
    have hgpr0 : gpr = restored gpr s.gpr d (4 * 0) := (restored_none gpr s.gpr d).symm
    have hrun := lmwLoop_spec hwhole (32 - d) 0
      ({ s with
        mem := mem
        written := s.written ++ (List.range' 0 (32 - d)).map fun k => p (4 * k)
        gpr := gpr } : E500Core (Bus D))
      (hs.congr rfl rfl hdev hc) (fun i hi => hst.1 i (Nat.zero_le i) hi) (by omega) (by omega)
      hgpr0
    rw [hea] at hrun
    exact hrun

theorem RoundTrips.wordsWhole (h : RoundTrips b store load s ea d n 4) : WordsWhole b s ea n := by
  obtain ⟨_, ps, _, _, _, _, ht, _⟩ := h
  intro i hi
  have hdiv : 4 * (i / 4) / 4 = i / 4 := by omega
  have hmod : 4 * (i / 4) % 4 = 0 := by omega
  rw [← ht i hi, ← ht (4 * (i / 4)) (by omega), touched, touched, hdiv, hmod]
  cases ps[i / 4]? with
  | none => rfl
  | some p =>
    rw [Option.bind_some, Option.bind_some, Option.map_map]
    rfl

end

/-! ## The instructions -/

namespace Transfer

theorem field_lt (opc : Uint32) (k : Nat) : ((opc >>> k) &&& 0x1F).toNat < 32 :=
  Word.toNat_and_low_lt _ 5 (by decide)

theorem xerN_lt (v : Uint32) : xerN v < 128 := Word.toNat_and_low_lt v 7 (by decide)

variable {b : Board D} {s : E500Core (Bus D)} {t : Transfer}

theorem gprOrZero_congr {M : Type} {s : E500Core M} {mem : M} {ws : List Uint32}
    {gpr : Nat → Uint32}
    (h : rA s.currentOpc = 0 ∨ gpr (rA s.currentOpc) = s.gpr (rA s.currentOpc)) :
    E500Core.gprOrZero { s with mem := mem, written := ws, gpr := gpr } = s.gprOrZero := by
  unfold E500Core.gprOrZero
  dsimp only
  rcases h with h | h
  · rw [if_neg (not_not_intro h), if_neg (not_not_intro h)]
  · rw [h]

theorem Apart.gprOrZero (ha : t.Apart s) {mem : Bus D} {ws : List Uint32} {gpr : Nat → Uint32}
    (hgpr : ∀ q, ¬InRange (rD s.currentOpc) (t.count s) q → gpr q = s.gpr q) :
    E500Core.gprOrZero { s with mem := mem, written := ws, gpr := gpr } = s.gprOrZero :=
  gprOrZero_congr (ha.1.imp id (hgpr _))

theorem immediate_restores (hm : Mapped b s s.gprOrZero s.nb) (ha : immediate.Apart s) :
    immediate.Restores b s := by
  have hnb : 0 < s.nb ∧ s.nb ≤ 128 := by
    have hlt : rB s.currentOpc < 32 := field_lt _ _
    unfold E500Core.nb
    split <;> omega
  refine string_roundTrips hm hnb.1 hnb.2 (field_lt _ _) rfl fun mem ws gpr hgpr => ?_
  show E500Core.lswLoop b.host _ _ 0 4 (E500Core.gprOrZero _) _ = _
  rw [ha.gprOrZero hgpr]
  rfl

theorem indexed_restores (hm : Mapped b s s.eaX (xerN s.xer)) (ha : indexed.Apart s)
    (h0 : xerN s.xer ≠ 0) : indexed.Restores b s := by
  refine string_roundTrips hm (Nat.pos_of_ne_zero h0) (Nat.le_of_lt (xerN_lt _)) (field_lt _ _)
    rfl fun mem ws gpr hgpr => ?_
  have hea : E500Core.eaX { s with mem := mem, written := ws, gpr := gpr } = s.eaX := by
    unfold E500Core.eaX
    rw [ha.gprOrZero hgpr]
    exact congrArg (s.gprOrZero + ·) (hgpr _ (ha.2 rfl))
  show E500Core.lswLoop b.host _ _ 0 4 (E500Core.eaX _) _ = _
  rw [hea]
  rfl

/-- With a count of 0, LSWX sets its first register to 0. -/
theorem indexed_none (h0 : xerN s.xer = 0) :
    indexed.Restores b s ↔ s.gpr (rD s.currentOpc) = 0 := by
  have hstore : s.stswx b.host = some s := by
    rw [E500Core.stswx, h0]
    rfl
  have hload (u : E500Core (Bus D)) (hu : xerN u.xer = 0) :
      u.lswx b.host = some (u.setGpr (rD u.currentOpc) 0) := by
    rw [E500Core.lswx, hu]
    rfl
  have hcount : indexed.count s = 0 := h0
  unfold Restores
  rw [hcount]
  constructor
  · rintro ⟨mem, ps, -, -, -, -, -, -, -, hback⟩
    have h := hback s.gpr fun _ _ => rfl
    have hl := hload { s with mem := mem, written := s.written ++ ps, gpr := s.gpr } h0
    have hg := congrArg (fun c => E500Core.gpr c (rD s.currentOpc))
      (Option.some.inj (hl.symm.trans h))
    dsimp only [E500Core.setGpr] at hg
    rw [Function.update_self, restored_none] at hg
    exact hg.symm
  · intro hzero
    refine ⟨s.mem, [], ?_, rfl, rfl, rfl, fun i hi => absurd hi (Nat.not_lt_zero i),
      fun i hi => absurd hi (Nat.not_lt_zero i), fun _ _ => rfl, fun gpr hgpr => ?_⟩
    · rw [List.append_nil]
      exact hstore
    · refine (hload { s with mem := s.mem, written := s.written ++ [], gpr := gpr } h0).trans ?_
      have hg : gpr (rD s.currentOpc) = 0 :=
        (hgpr _ fun h => Nat.not_lt_zero _ h.2).trans hzero
      have hup : Function.update gpr (rD s.currentOpc) 0 = gpr := by
        rw [← hg, Function.update_eq_self]
      rw [restored_none]
      unfold E500Core.setGpr
      dsimp only
      rw [hup]

theorem multiple_restores (hm : Mapped b s s.eaD (4 * (32 - rD s.currentOpc)))
    (ha : multiple.Apart s) (hw : WordsWhole b s s.eaD (4 * (32 - rD s.currentOpc))) :
    multiple.Restores b s := by
  refine multiple_roundTrips hm (field_lt _ _) rfl hw rfl fun mem ws gpr hgpr => ?_
  have hea : E500Core.eaD { s with mem := mem, written := ws, gpr := gpr } = s.eaD := by
    unfold E500Core.eaD
    rw [ha.gprOrZero hgpr]
  show E500Core.lmwLoop b.host _ _ (E500Core.eaD _) _ = _
  rw [hea]
  rfl

/-- On pages of RAM, with the address registers apart, the store and the load make the round
trip exactly if LSWX has a count, or a first register that is 0, and STMW whole words. -/
theorem restores_iff (hm : Mapped b s (t.ea s) (t.count s)) (ha : t.Apart s) :
    t.Restores b s ↔ t.Sound b s := by
  cases t with
  | immediate => exact iff_of_true (immediate_restores hm ha) trivial
  | indexed =>
    by_cases h0 : xerN s.xer = 0
    · rw [indexed_none h0]
      exact (or_iff_right (not_not_intro h0)).symm
    · exact iff_of_true (indexed_restores hm ha h0) (.inl h0)
  | multiple => exact ⟨fun h => RoundTrips.wordsWhole h, multiple_restores hm ha⟩

end Transfer

/-! ## Two transfers -/

/-- `stswx 6, 4, 0`, with a count in XER. -/
def stringAt (xer : Uint32) : E500Core (Bus Unit) :=
  { twoWords with xer := xer, currentOpc := 0x7CC4052A }

/-- Six bytes of GPR6 and GPR7. -/
theorem six_restored : Transfer.indexed.Restores ramBoard (stringAt 6) := by
  have hall : ∀ i < 6,
      (stringAt 6).physical ramBoard.host ((stringAt 6).eaX + BitVec.ofNat 32 i) mmuWrite =
        some (BitVec.ofNat 32 i) ∧
      (stringAt 6).mem.placeOf (BitVec.ofNat 32 i) = some (.ddr, i) := by decide +kernel
  have hm : Mapped ramBoard (stringAt 6) (Transfer.indexed.ea (stringAt 6))
      (Transfer.indexed.count (stringAt 6)) := fun i hi => ⟨_, _, hall i hi⟩
  have ha : Transfer.indexed.Apart (stringAt 6) :=
    ⟨.inr (by decide +kernel), fun _ => by decide +kernel⟩
  exact (Transfer.restores_iff hm ha).mpr (.inl (by decide +kernel))

/-- With a count of 0, GPR6 is lost. -/
theorem none_lost : ¬∀ (b : Board Unit) (s : E500Core (Bus Unit)) (t : Transfer),
    Mapped b s (t.ea s) (t.count s) → t.Apart s → t.Restores b s := by
  intro hall
  have hcount : xerN (stringAt 0).xer = 0 := by decide +kernel
  have hm : Mapped ramBoard (stringAt 0) (Transfer.indexed.ea (stringAt 0))
      (Transfer.indexed.count (stringAt 0)) :=
    fun i hi => absurd (Nat.lt_of_lt_of_eq hi hcount) (Nat.not_lt_zero i)
  have ha : Transfer.indexed.Apart (stringAt 0) :=
    ⟨.inr (by decide +kernel), fun _ => by decide +kernel⟩
  have h := (Transfer.indexed_none hcount).mp (hall ramBoard (stringAt 0) .indexed hm ha)
  exact absurd h (by decide +kernel)

end SkyEye.Ppc
