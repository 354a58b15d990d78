import SkyEye.Lib.StoreView
import SkyEye.Memory.Banks

/-!
# Memory is a store of bytes

In a memory map of disjoint banks that start at word boundaries, memory is a store of
bytes in either byte order: a write of any size is the writes of its bytes, and a read
returns the bytes last written at its addresses.
-/

namespace SkyEye

/-- Byte `k` of a datum, as the byte order counts its addresses. -/
def datumByte (bigEndian : Bool) (datatype : DataType) (k : Nat) (data : ARMword) : BitVec 8 :=
  (data >>> (8 * if bigEndian then datatype.bytes - 1 - k else k)).setWidth 8

/-- The bytes of a datum with their addresses. -/
def datumBytes (bigEndian : Bool) (datatype : DataType) (a data : ARMword) :
    List (ARMword × BitVec 8) :=
  (List.range datatype.bytes).map fun k =>
    (a + BitVec.ofNat 32 k, datumByte bigEndian datatype k data)

/-! ## Lanes as bytes -/

/-- An aligned access stays within its word. -/
theorem DataType.bytes_fit {datatype : DataType} {a : ARMword}
    (ha : a.toNat % datatype.bytes = 0) : a.toNat % 4 + datatype.bytes ≤ 4 := by
  cases datatype <;> simp only [DataType.bytes] at ha ⊢ <;> omega

theorem getLsbD_datumByte (bigEndian : Bool) (datatype : DataType) (k : Nat) (data : ARMword)
    {j : Nat} (hj : j < 8) :
    (datumByte bigEndian datatype k data).getLsbD j =
      data.getLsbD (8 * (if bigEndian then datatype.bytes - 1 - k else k) + j) := by
  rw [datumByte, BitVec.getLsbD_setWidth, BitVec.getLsbD_ushiftRight, decide_eq_true hj,
    Bool.true_and]

/-- A byte lane of a word. -/
def laneByte (bigEndian : Bool) (a word : ARMword) : BitVec 8 :=
  (readLane bigEndian .byte a word).setWidth 8

theorem getLsbD_laneByte (bigEndian : Bool) (a word : ARMword) {j : Nat} (hj : j < 8) :
    (laneByte bigEndian a word).getLsbD j =
      word.getLsbD ((if bigEndian then 8 * (3 - a.toNat % 4) else 8 * (a.toNat % 4)) + j) := by
  have hb : DataType.byte.bits = 8 := rfl
  rw [laneByte, BitVec.getLsbD_setWidth, getLsbD_readLane,
    laneOffset_aligned bigEndian (Nat.mod_one _), hb, decide_eq_true hj, Bool.true_and,
    Bool.true_and]
  rfl

/-- A lane that is written has the bytes of the datum, the others stay. -/
theorem laneByte_writeLane (bigEndian : Bool) {datatype : DataType} {a a' data word : ARMword}
    (ha : a.toNat % datatype.bytes = 0) (hw : a'.toNat / 4 = a.toNat / 4) :
    laneByte bigEndian a' (writeLane bigEndian datatype a data word) =
      if a.toNat ≤ a'.toNat ∧ a'.toNat < a.toNat + datatype.bytes then
        datumByte bigEndian datatype (a'.toNat - a.toNat) data
      else laneByte bigEndian a' word := by
  have hfit := DataType.bytes_fit ha
  have hbits := datatype.bits_eq
  apply BitVec.eq_of_getLsbD_eq
  intro j hj
  have hi : (if bigEndian then 8 * (3 - a'.toNat % 4) else 8 * (a'.toNat % 4)) + j < 32 := by
    split <;> omega
  rw [getLsbD_laneByte _ _ _ hj, getLsbD_writeLane _ _ _ _ _ hi, laneOffset_aligned bigEndian ha]
  by_cases hin : a.toNat ≤ a'.toNat ∧ a'.toNat < a.toNat + datatype.bytes
  · rw [if_pos hin, getLsbD_datumByte _ _ _ _ hj]
    cases bigEndian
    · rw [if_pos (by simp only [Bool.false_eq_true, if_false]; omega)]
      congr 1
      simp only [Bool.false_eq_true, if_false]
      omega
    · rw [if_pos (by simp only [if_true]; omega)]
      congr 1
      simp only [if_true]
      omega
  · rw [if_neg hin, getLsbD_laneByte _ _ _ hj, if_neg]
    cases bigEndian
    · simp only [Bool.false_eq_true, if_false]
      omega
    · simp only [if_true]
      omega

theorem datumByte_readLane (bigEndian : Bool) {datatype : DataType} {a a' word : ARMword} {k : Nat}
    (ha : a.toNat % datatype.bytes = 0) (hk : k < datatype.bytes)
    (ha' : a'.toNat = a.toNat + k) :
    datumByte bigEndian datatype k (readLane bigEndian datatype a word) =
      laneByte bigEndian a' word := by
  have hfit := DataType.bytes_fit ha
  have hbits := datatype.bits_eq
  apply BitVec.eq_of_getLsbD_eq
  intro j hj
  rw [getLsbD_datumByte _ _ _ _ hj, getLsbD_readLane, getLsbD_laneByte _ _ _ hj,
    laneOffset_aligned bigEndian ha, decide_eq_true, Bool.true_and]
  · congr 1
    cases bigEndian
    · simp only [Bool.false_eq_true, if_false]
      omega
    · simp only [if_true]
      omega
  · cases bigEndian
    · simp only [Bool.false_eq_true, if_false]
      omega
    · simp only [if_true]
      omega

/-! ## The bytes of a datum -/

theorem toNat_add_byte {datatype : DataType} {a : ARMword} (ha : a.toNat % datatype.bytes = 0)
    {k : Nat} (hk : k < datatype.bytes) : (a + BitVec.ofNat 32 k).toNat = a.toNat + k := by
  have hfit := DataType.bytes_fit ha
  have hlt := a.isLt
  rw [BitVec.toNat_add, BitVec.toNat_ofNat]
  omega

theorem datumBytes_nodup (bigEndian : Bool) {datatype : DataType} {a : ARMword}
    (ha : a.toNat % datatype.bytes = 0) (data : ARMword) :
    ((datumBytes bigEndian datatype a data).map Prod.fst).Nodup := by
  rw [datumBytes, List.map_map]
  refine List.Nodup.map_on ?_ List.nodup_range
  intro k hk j hj h
  have := congrArg BitVec.toNat h
  simp only [Function.comp_apply, toNat_add_byte ha (List.mem_range.mp hk),
    toNat_add_byte ha (List.mem_range.mp hj)] at this
  omega

theorem replay_datumBytes (f : ARMword → BitVec 8) (bigEndian : Bool) {datatype : DataType}
    {a : ARMword} (ha : a.toNat % datatype.bytes = 0) (data a' : ARMword) :
    StoreView.replay f (datumBytes bigEndian datatype a data) a' =
      if a.toNat ≤ a'.toNat ∧ a'.toNat < a.toNat + datatype.bytes then
        datumByte bigEndian datatype (a'.toNat - a.toNat) data
      else f a' := by
  by_cases hin : a.toNat ≤ a'.toNat ∧ a'.toNat < a.toNat + datatype.bytes
  · have hk : a'.toNat - a.toNat < datatype.bytes := by omega
    have hmem : (a + BitVec.ofNat 32 (a'.toNat - a.toNat),
        datumByte bigEndian datatype (a'.toNat - a.toNat) data) ∈
        datumBytes bigEndian datatype a data :=
      List.mem_map_of_mem (List.mem_range.mpr hk)
    have haddr : a + BitVec.ofNat 32 (a'.toNat - a.toNat) = a' := by
      apply BitVec.eq_of_toNat_eq
      rw [toNat_add_byte ha hk]
      omega
    have hset : StoreView.replay f (datumBytes bigEndian datatype a data)
        (a + BitVec.ofNat 32 (a'.toNat - a.toNat)) = _ :=
      StoreView.replay_of_nodup (datumBytes_nodup bigEndian ha data) hmem
    rw [haddr] at hset
    rw [if_pos hin, hset]
  · rw [if_neg hin]
    refine StoreView.replay_of_notMem fun hmem => hin ?_
    simp only [datumBytes, List.map_map, List.mem_map, List.mem_range,
      Function.comp_apply] at hmem
    obtain ⟨k, hk, rfl⟩ := hmem
    rw [toNat_add_byte ha hk]
    omega

/-! ## Banks -/

namespace Banks

variable {m : Banks}

/-- No address is in two banks. -/
def Disjoint (m : Banks) : Prop :=
  ∀ (i j : Nat) (b c : MemBank) (a : ARMword), m.memBanks[i]? = some b →
    m.memBanks[j]? = some c → b.contains a = true → c.contains a = true → i = j

/-- Disjoint banks at word boundaries. -/
structure Laid (m : Banks) : Prop where
  aligned : ∀ b ∈ m.memBanks, b.addr.toNat % 4 = 0
  disjoint : m.Disjoint

theorem contains_iff {b : MemBank} {a : ARMword} :
    b.contains a = true ↔
      b.addr.toNat ≤ a.toNat ∧ a.toNat < b.addr.toNat + b.len.toNat := by
  have ha := a.isLt
  have hb := b.addr.isLt
  have hl := b.len.isLt
  simp only [MemBank.contains, Bool.and_eq_true, decide_eq_true_eq, BitVec.le_def, BitVec.lt_def,
    BitVec.toNat_sub]
  omega

/-- Whatever bank was found last, an address is found in its bank. -/
theorem Disjoint.bankPtr (h : m.Disjoint) {i : Nat} {b : MemBank} {a : ARMword}
    (hb : m.memBanks[i]? = some b) (hc : b.contains a = true) : m.bankPtr a = some i := by
  unfold Banks.bankPtr
  split
  · rename_i j hj
    obtain ⟨-, hany⟩ := Option.filter_eq_some_iff.mp hj
    obtain ⟨c, hcj, hca⟩ := (Option.any_eq_true _ _).mp hany
    rw [h _ _ _ _ _ hcj hb hca hc]
  · obtain ⟨j, hj⟩ := Option.isSome_iff_exists.mp
      (List.findIdx?_isSome.trans (List.any_eq_true.mpr
        ⟨b, List.mem_of_getElem? hb, hc⟩) :
        (m.memBanks.findIdx? (·.contains a)).isSome = true)
    obtain ⟨hlt, hfound, -⟩ := List.findIdx?_eq_some_iff_getElem.mp hj
    rw [hj, h _ _ _ _ _ (List.getElem?_eq_getElem hlt) hb hfound hc]

/-- The byte of memory at an address. -/
def byteAt (m : Banks) (a : ARMword) : BitVec 8 := ((m.memRead .byte a).1.getD 0).setWidth 8

theorem Disjoint.memRead (h : m.Disjoint) {i : Nat} {b : MemBank} {a : ARMword}
    (hb : m.memBanks[i]? = some b) (hc : b.contains a = true) (datatype : DataType) :
    (m.memRead datatype a).1 =
      some (readLane m.bigEndian datatype a (m.rom i (b.wordIndex a))) := by
  simp [Banks.memRead, h.bankPtr hb hc, hb]

theorem Laid.byteAt (h : m.Laid) {i : Nat} {b : MemBank} {a : ARMword}
    (hb : m.memBanks[i]? = some b) (hc : b.contains a = true) :
    m.byteAt a = laneByte m.bigEndian a (m.rom i (b.wordIndex a)) := by
  rw [Banks.byteAt, h.disjoint.memRead hb hc]
  rfl

theorem Laid.memWrite (h : m.Laid) {i : Nat} {b : MemBank} {a : ARMword}
    (hb : m.memBanks[i]? = some b) (hc : b.contains a = true) (datatype : DataType)
    (data : ARMword) :
    m.memWrite datatype a data =
      { m with
        mbp := some i
        rom := Function.update m.rom i (Function.update (m.rom i) (b.wordIndex a)
          (writeLane m.bigEndian datatype a data (m.rom i (b.wordIndex a)))) } := by
  simp [Banks.memWrite, h.disjoint.bankPtr hb hc, hb]

theorem wordIndex_eq {b : MemBank} {a : ARMword} (hal : b.addr.toNat % 4 = 0)
    (hc : b.contains a = true) : b.wordIndex a = a.toNat / 4 - b.addr.toNat / 4 := by
  have := contains_iff.mp hc
  have ha := a.isLt
  rw [MemBank.wordIndex, BitVec.toNat_ushiftRight, Nat.shiftRight_eq_div_pow, BitVec.toNat_sub]
  omega

/-! ## Accesses -/

/-- A naturally aligned access within a bank. -/
def Mapped (m : Banks) (datatype : DataType) (a : ARMword) : Prop :=
  a.toNat % datatype.bytes = 0 ∧ ∃ (i : Nat) (b : MemBank), m.memBanks[i]? = some b ∧
    b.addr.toNat ≤ a.toNat ∧ a.toNat + datatype.bytes ≤ b.addr.toNat + b.len.toNat

/-- The bank of an access, and the word that all its bytes are in. -/
theorem Mapped.bank {datatype : DataType} {a : ARMword} (h : m.Mapped datatype a) :
    ∃ (i : Nat) (b : MemBank), m.memBanks[i]? = some b ∧ b.contains a = true ∧
      ∀ a' : ARMword, a.toNat ≤ a'.toNat → a'.toNat < a.toNat + datatype.bytes →
        b.contains a' = true ∧ a'.toNat / 4 = a.toNat / 4 := by
  obtain ⟨hal, i, b, hb, hlo, hhi⟩ := h
  have hfit := DataType.bytes_fit hal
  have hpos : 0 < datatype.bytes := by cases datatype <;> decide
  refine ⟨i, b, hb, contains_iff.mpr ⟨hlo, by omega⟩, fun a' h1 h2 => ?_⟩
  exact ⟨contains_iff.mpr ⟨by omega, by omega⟩, by omega⟩

theorem Laid.byteAt_memWrite (h : m.Laid) {datatype : DataType} {a : ARMword}
    (hm : m.Mapped datatype a) (data : ARMword) :
    (m.memWrite datatype a data).byteAt =
      StoreView.replay m.byteAt (datumBytes m.bigEndian datatype a data) := by
  obtain ⟨i, b, hb, hc, hbytes⟩ := hm.bank
  have hw := h.memWrite hb hc datatype data
  have h' : (m.memWrite datatype a data).Laid := by
    rw [hw]
    exact ⟨h.aligned, h.disjoint⟩
  have hal := h.aligned b (List.mem_of_getElem? hb)
  funext a'
  rw [replay_datumBytes _ _ hm.1]
  by_cases hfound : ∃ (j : Nat) (c : MemBank), m.memBanks[j]? = some c ∧ c.contains a' = true
  · obtain ⟨j, c, hcj, hca⟩ := hfound
    have halc := h.aligned c (List.mem_of_getElem? hcj)
    have hcj' : (m.memWrite datatype a data).memBanks[j]? = some c := by rw [hw]; exact hcj
    rw [h'.byteAt hcj' hca, h.byteAt hcj hca, hw]
    dsimp only
    by_cases hsame : j = i ∧ a'.toNat / 4 = a.toNat / 4
    · obtain ⟨rfl, hword⟩ := hsame
      obtain rfl := Option.some.inj (hcj.symm.trans hb)
      have hidx : c.wordIndex a' = c.wordIndex a := by
        rw [wordIndex_eq hal hca, wordIndex_eq hal hc, hword]
      rw [Function.update_self, hidx, Function.update_self, laneByte_writeLane _ hm.1 hword]
    · rw [if_neg fun hin => hsame ⟨h.disjoint _ _ _ _ _ hcj hb hca (hbytes a' hin.1 hin.2).1,
        (hbytes a' hin.1 hin.2).2⟩]
      by_cases hji : j = i
      · subst hji
        obtain rfl := Option.some.inj (hcj.symm.trans hb)
        have hidx : c.wordIndex a' ≠ c.wordIndex a := by
          have h1 := contains_iff.mp hca
          have h2 := contains_iff.mp hc
          rw [wordIndex_eq hal hca, wordIndex_eq hal hc]
          exact fun he => hsame ⟨rfl, by omega⟩
        rw [Function.update_self, Function.update_of_ne hidx]
      · rw [Function.update_of_ne hji]
  · have hnone : ∀ m' : Banks, m'.memBanks = m.memBanks → m'.byteAt a' = 0 := by
      intro m' hm'
      have hptr : m'.bankPtr a' = none := by
        have hno : ∀ c ∈ m.memBanks, c.contains a' = false := by
          intro c hmem
          obtain ⟨j, hj⟩ := List.getElem?_of_mem hmem
          exact Bool.eq_false_iff.mpr fun hca => hfound ⟨j, c, hj, hca⟩
        unfold Banks.bankPtr
        split
        · rename_i j hj
          obtain ⟨-, hany⟩ := Option.filter_eq_some_iff.mp hj
          obtain ⟨c, hcj, hca⟩ := (Option.any_eq_true _ _).mp hany
          rw [hm'] at hcj
          exact absurd ⟨j, c, hcj, hca⟩ hfound
        · rw [hm']
          exact List.findIdx?_eq_none_iff.mpr hno
      simp [Banks.byteAt, Banks.memRead, hptr]
    rw [hnone _ (by rw [hw]), hnone m rfl, if_neg]
    exact fun hin => hfound ⟨i, b, hb, (hbytes a' hin.1 hin.2).1⟩

theorem Laid.memRead_bytes (h : m.Laid) {datatype : DataType} {a : ARMword}
    (hm : m.Mapped datatype a) :
    ∃ v, (m.memRead datatype a).1 = some v ∧ ∀ k < datatype.bytes,
      datumByte m.bigEndian datatype k v = m.byteAt (a + BitVec.ofNat 32 k) := by
  obtain ⟨i, b, hb, hc, hbytes⟩ := hm.bank
  refine ⟨_, h.disjoint.memRead hb hc datatype, fun k hk => ?_⟩
  have hnat := toNat_add_byte hm.1 hk
  have hal := h.aligned b (List.mem_of_getElem? hb)
  obtain ⟨hck, hword⟩ := hbytes (a + BitVec.ofNat 32 k) (by omega) (by omega)
  have hidx : b.wordIndex (a + BitVec.ofNat 32 k) = b.wordIndex a := by
    rw [wordIndex_eq hal hck, wordIndex_eq hal hc, hword]
  rw [h.byteAt hb hck, datumByte_readLane _ hm.1 hk hnat, hidx]

/-! ## Runs -/

/-- A call of `mem_write`, or of `mem_read`, which may change the bank found last. -/
inductive Access where
  | write (datatype : DataType) (a data : ARMword)
  | read (datatype : DataType) (a : ARMword)

def Access.Mapped (m : Banks) : Access → Prop
  | .write datatype a _ => m.Mapped datatype a
  | .read datatype a => m.Mapped datatype a

def step (m : Banks) : Access → Banks
  | .write datatype a data => m.memWrite datatype a data
  | .read datatype a => (m.memRead datatype a).2

/-- The bytes an access writes. -/
def Access.bytes (bigEndian : Bool) : Access → List (ARMword × BitVec 8)
  | .write datatype a data => datumBytes bigEndian datatype a data
  | .read _ _ => []

/-- The memory map of `m`, with other contents. -/
structure SameMap (m m' : Banks) : Prop where
  memBanks : m'.memBanks = m.memBanks
  bigEndian : m'.bigEndian = m.bigEndian

theorem SameMap.laid {m' : Banks} (hs : m.SameMap m') (h : m.Laid) : m'.Laid where
  aligned := by rw [hs.memBanks]; exact h.aligned
  disjoint := by unfold Disjoint; rw [hs.memBanks]; exact h.disjoint

theorem SameMap.mapped {m' : Banks} (hs : m.SameMap m') {datatype : DataType} {a : ARMword}
    (h : m.Mapped datatype a) : m'.Mapped datatype a := by
  rw [Banks.Mapped, hs.memBanks]
  exact h

/-- After a read only the bank found last may be another. -/
theorem byteAt_memRead (h : m.Laid) {datatype : DataType} (a : ARMword) :
    (m.memRead datatype a).2.byteAt = m.byteAt := by
  funext a'
  have hptr : ∀ mbp, ({ m with mbp := mbp } : Banks).bankPtr a' = m.bankPtr a' := by
    intro mbp
    by_cases hfound : ∃ (j : Nat) (c : MemBank), m.memBanks[j]? = some c ∧ c.contains a' = true
    · obtain ⟨j, c, hcj, hca⟩ := hfound
      have h' : ({ m with mbp := mbp } : Banks).Laid := ⟨h.aligned, h.disjoint⟩
      rw [h.disjoint.bankPtr hcj hca, h'.disjoint.bankPtr hcj hca]
    · have hno : ∀ i : Nat, (m.memBanks[i]?).any (·.contains a') = false := by
        intro i
        refine Bool.eq_false_iff.mpr fun hany => ?_
        obtain ⟨c, hcj, hca⟩ := (Option.any_eq_true _ _).mp hany
        exact hfound ⟨i, c, hcj, hca⟩
      simp [Banks.bankPtr, hno]
  simp only [Banks.byteAt, Banks.memRead, hptr]

/-- The banks as a store of bytes. -/
def bytesView (m₀ : Banks) (h : m₀.Laid) :
    StoreView Banks Access (List (BitVec 8)) ARMword (BitVec 8) where
  step := step
  out m op := match op with
    | .write _ _ _ => []
    | .read datatype a => (List.range datatype.bytes).map fun k =>
        datumByte m₀.bigEndian datatype k ((m.memRead datatype a).1.getD 0)
  Inv m := m₀.SameMap m
  Ok op := op.Mapped m₀
  view := byteAt
  writes _ op := op.bytes m₀.bigEndian
  answer view op := match op with
    | .write _ _ _ => []
    | .read datatype a => (List.range datatype.bytes).map fun k => view (a + BitVec.ofNat 32 k)
  inv_step := by
    intro m op hs hok
    cases op with
    | write datatype a data => exact ⟨hs.memBanks, hs.bigEndian⟩
    | read datatype a => exact ⟨hs.memBanks, hs.bigEndian⟩
  view_step := by
    intro m op hs hok
    cases op with
    | write datatype a data =>
      rw [← hs.bigEndian]
      exact (hs.laid h).byteAt_memWrite (hs.mapped hok) data
    | read datatype a => exact byteAt_memRead (hs.laid h) a
  out_step := by
    intro m op hs hok
    cases op with
    | write datatype a data => rfl
    | read datatype a =>
      obtain ⟨v, hv, hbytes⟩ := (hs.laid h).memRead_bytes (hs.mapped hok)
      rw [hs.bigEndian] at hbytes
      refine List.map_congr_left fun k hk => ?_
      rw [hv, ← hbytes k (List.mem_range.mp hk)]
      rfl

/-- After the accesses `ops`, a read returns for each of its bytes the last byte written
there, or the one that was there at the start. -/
def ReadsLastWrites (m : Banks) (ops : List Access) (datatype : DataType) (a : ARMword) : Prop :=
  ∃ v, ((ops.foldl step m).memRead datatype a).1 = some v ∧ ∀ k < datatype.bytes,
    datumByte m.bigEndian datatype k v =
      StoreView.lastWrite (fun w => w.1 = a + BitVec.ofNat 32 k) Prod.snd
        (m.byteAt (a + BitVec.ofNat 32 k)) (ops.flatMap (Access.bytes m.bigEndian))

theorem Laid.readsLastWrites (h : m.Laid) {ops : List Access} (hok : ∀ op ∈ ops, op.Mapped m)
    {datatype : DataType} {a : ARMword} (hm : m.Mapped datatype a) :
    m.ReadsLastWrites ops datatype a := by
  have hs : m.SameMap m := ⟨rfl, rfl⟩
  have hs' := (bytesView m h).inv_run hs hok
  have htrace : ∀ (ops : List Access) (s : Banks),
      (bytesView m h).trace s ops = ops.flatMap (Access.bytes m.bigEndian) := by
    intro ops
    induction ops with
    | nil => exact fun _ => rfl
    | cons op ops ih =>
      intro s
      rw [StoreView.trace, ih, List.flatMap_cons]
      rfl
  obtain ⟨v, hv, hbytes⟩ := (hs'.laid h).memRead_bytes (hs'.mapped hm)
  rw [hs'.bigEndian] at hbytes
  refine ⟨v, hv, fun k hk => ?_⟩
  rw [hbytes k hk, ← htrace ops m]
  exact (bytesView m h).view_run_eq_lastWrite hs hok _

theorem Laid.memWrite_comm (h : m.Laid) {datatype datatype' : DataType} {a a' : ARMword}
    (hm : m.Mapped datatype a) (hm' : m.Mapped datatype' a')
    (hd : a.toNat + datatype.bytes ≤ a'.toNat ∨ a'.toNat + datatype'.bytes ≤ a.toNat)
    (data data' : ARMword) :
    ((m.memWrite datatype a data).memWrite datatype' a' data').byteAt =
      ((m.memWrite datatype' a' data').memWrite datatype a data).byteAt := by
  have hs : m.SameMap (m.memWrite datatype a data) := ⟨rfl, rfl⟩
  have hs' : m.SameMap (m.memWrite datatype' a' data') := ⟨rfl, rfl⟩
  rw [(hs.laid h).byteAt_memWrite (hs.mapped hm'), (hs'.laid h).byteAt_memWrite (hs'.mapped hm),
    h.byteAt_memWrite hm, h.byteAt_memWrite hm', hs.bigEndian, hs'.bigEndian]
  funext x
  simp only [replay_datumBytes _ _ hm.1, replay_datumBytes _ _ hm'.1]
  by_cases h1 : a.toNat ≤ x.toNat ∧ x.toNat < a.toNat + datatype.bytes
  · have h2 : ¬ (a'.toNat ≤ x.toNat ∧ x.toNat < a'.toNat + datatype'.bytes) := by omega
    rw [if_neg h2, if_pos h1, if_pos h1]
  · rw [if_neg h1, if_neg h1]

/-- The read and write laws of memory in disjoint banks at word boundaries: what a read
returns after any accesses, what a read is made of, and that disjoint writes commute. -/
theorem read_write_laws (h : m.Laid) :
    (∀ ops datatype a, (∀ op ∈ ops, Access.Mapped m op) → m.Mapped datatype a →
      m.ReadsLastWrites ops datatype a) ∧
    (∀ datatype a, m.Mapped datatype a → ∃ v, (m.memRead datatype a).1 = some v ∧
      ∀ k < datatype.bytes,
        datumByte m.bigEndian datatype k v = m.byteAt (a + BitVec.ofNat 32 k)) ∧
    ∀ datatype datatype' a a' data data', m.Mapped datatype a → m.Mapped datatype' a' →
      a.toNat + datatype.bytes ≤ a'.toNat ∨ a'.toNat + datatype'.bytes ≤ a.toNat →
      ((m.memWrite datatype a data).memWrite datatype' a' data').byteAt =
        ((m.memWrite datatype' a' data').memWrite datatype a data).byteAt :=
  ⟨fun _ _ _ hok hm => h.readsLastWrites hok hm, fun _ _ hm => h.memRead_bytes hm,
    fun _ _ _ _ data data' hm hm' hd => h.memWrite_comm hm hm' hd data data'⟩

/-- A map of one cleared RAM bank of 16 bytes. -/
def oneBank (addr : ARMword) : Banks where
  memBanks := [⟨addr, 16, .noName, .ram⟩]
  rom _ _ := 0
  bigEndian := false
  mbp := none

theorem oneBank_laid (addr : ARMword) (h : addr.toNat % 4 = 0) : (oneBank addr).Laid where
  aligned := by simpa [oneBank] using h
  disjoint := by
    intro i j b c a hi hj _ _
    simp only [oneBank, List.getElem?_singleton] at hi hj
    split at hi
    · split at hj
      · omega
      · cases hj
    · cases hi

theorem oneBank_mapped_word : (oneBank 0).Mapped .word 4 :=
  ⟨rfl, 0, ⟨0, 16, .noName, .ram⟩, rfl, by decide, by decide⟩

theorem read_write_laws_word :
    (oneBank 0).ReadsLastWrites [.write .word 4 0x11223344] .word 4 :=
  (read_write_laws (oneBank_laid 0 rfl)).1 _ _ _
    (by simpa [Access.Mapped] using oneBank_mapped_word) oneBank_mapped_word

/-- In a bank from 2 on, the byte at 6 of a word written at 4 is in another word. -/
theorem byte_of_word_lost :
    ¬ ∀ (m : Banks) ops datatype a, (∀ op ∈ ops, Access.Mapped m op) → m.Mapped datatype a →
      m.ReadsLastWrites ops datatype a := by
  intro h
  have hword : (oneBank 2).Mapped .word 4 :=
    ⟨rfl, 0, ⟨2, 16, .noName, .ram⟩, rfl, by decide, by decide⟩
  have hbyte : (oneBank 2).Mapped .byte 6 :=
    ⟨rfl, 0, ⟨2, 16, .noName, .ram⟩, rfl, by decide, by decide⟩
  obtain ⟨v, hv, hk⟩ := h (oneBank 2) [.write .word 4 0x11223344] .byte 6
    (by simpa [Access.Mapped] using hword) hbyte
  have hread : (([.write .word 4 0x11223344].foldl step (oneBank 2)).memRead .byte 6).1 =
      some 0 := by decide
  obtain rfl := Option.some.inj (hread.symm.trans hv)
  have := hk 0 (by decide)
  revert this
  decide

end Banks

end SkyEye
