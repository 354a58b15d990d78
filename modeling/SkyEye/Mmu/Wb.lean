import SkyEye.Lib.RingBuffer
import SkyEye.Mmu.Ram
import SkyEye.Lib.StoreView

/-!
# The write buffer

`wb.c`: a ring of entries, each some bytes for consecutive addresses. A store is cut
into pieces of at most `nb` bytes; a full buffer first writes its oldest entry to
memory. What the buffer and the memory hold together is the memory once the buffer
is drained (`Wb.onto`), and a store changes that as if it went to memory at once.
-/

namespace SkyEye

/-- `wb_entry_t` -/
structure WbEntry where
  pa : ARMword
  data : List (BitVec 8)

/-- `wb_desc_t`: entries, and bytes of an entry. -/
structure WbDesc where
  num : Nat
  nb : Nat
  num_pos : 0 < num
  nb_pos : 0 < nb

/-- `wb_t` -/
structure Wb (d : WbDesc) where
  entrys : RingBuffer d.num WbEntry

/-- Bytes for consecutive addresses, written one by one. -/
def Ram.busWriteBytes (ram : Ram) (pa : ARMword) : List (BitVec 8) → Ram
  | [] => ram
  | b :: bs => (ram.busWrite .byte pa (b.setWidth 32)).busWriteBytes (pa + 1) bs

/-- Write an entry to memory. -/
def WbEntry.drain (ram : Ram) (e : WbEntry) : Ram := ram.busWriteBytes e.pa e.data

/-- The bytes of a datum in the order of the (little-endian) host. -/
def hostBytes (datatype : DataType) (data : ARMword) : List (BitVec 8) :=
  (List.range (datatype.bits / 8)).map fun i => (data >>> (8 * i)).setWidth 8

namespace Wb

variable {d : WbDesc}

/-- `mmu_wb_init`; the entries are arbitrary. -/
def init (d : WbDesc) : Wb d := ⟨.empty d.num_pos ⟨0, []⟩⟩

/-- Place an entry, after writing the oldest one to memory if there is no room. -/
def place (wb : Wb d) (ram : Ram) (e : WbEntry) : Wb d × Ram :=
  if h : wb.entrys.used < d.num then (⟨wb.entrys.push h e⟩, ram)
  else
    have h0 : 0 < wb.entrys.used := Nat.lt_of_lt_of_le d.num_pos (Nat.le_of_not_lt h)
    have h1 : (wb.entrys.pop h0).used < d.num :=
      Nat.lt_of_lt_of_le (Nat.sub_lt h0 Nat.one_pos) wb.entrys.used_le
    (⟨(wb.entrys.pop h0).push h1 e⟩, wb.entrys.oldest.drain ram)

/-- `mmu_wb_write_bytes` -/
def writeBytes (wb : Wb d) (ram : Ram) (pa : ARMword) (data : List (BitVec 8)) : Wb d × Ram :=
  if _h : data = [] then (wb, ram)
  else
    let i := min data.length d.nb
    let (wb, ram) := wb.place ram ⟨pa, data.take i⟩
    writeBytes wb ram (pa + BitVec.ofNat 32 i) (data.drop i)
termination_by data.length
decreasing_by
  have h0 := List.length_pos_iff.mpr _h
  have h1 := d.nb_pos
  simp only [List.length_drop]
  omega

/-- The loop of `mmu_wb_drain_all`, over a ring with `k` entries in use. -/
def drainLoop : (k : Nat) → (r : RingBuffer d.num WbEntry) → r.used = k → Ram → Wb d × Ram
  | 0, r, _, ram => (⟨r⟩, ram)
  | k + 1, r, h, ram =>
    drainLoop k (r.pop (h ▸ Nat.succ_pos k)) (by simp [RingBuffer.pop, h]) (r.oldest.drain ram)

/-- `mmu_wb_drain_all` -/
def drainAll (wb : Wb d) (ram : Ram) : Wb d × Ram := drainLoop _ wb.entrys rfl ram

/-- The memory once the buffer is drained. -/
def onto (wb : Wb d) (ram : Ram) : Ram := wb.entrys.toList.foldl WbEntry.drain ram

/-! ## The buffer and the memory together -/

theorem onto_of_unused {wb : Wb d} (h : wb.entrys.used = 0) (ram : Ram) : wb.onto ram = ram := by
  rw [onto, RingBuffer.toList_eq_nil h]
  rfl

theorem drainLoop_eq (k : Nat) (r : RingBuffer d.num WbEntry) (h : r.used = k) (ram : Ram) :
    (drainLoop k r h ram).2 = r.toList.foldl WbEntry.drain ram ∧
      (drainLoop k r h ram).1.entrys.used = 0 := by
  induction k generalizing r ram with
  | zero =>
    rw [RingBuffer.toList_eq_nil h]
    exact ⟨rfl, h⟩
  | succ k ih =>
    rw [RingBuffer.toList_pop r (h ▸ Nat.succ_pos k)]
    exact ih _ _ _

/-- Draining makes the memory what both held together, and leaves nothing behind. -/
theorem drainAll_eq (wb : Wb d) (ram : Ram) :
    (wb.drainAll ram).2 = wb.onto ram ∧ (wb.drainAll ram).1.entrys.used = 0 :=
  drainLoop_eq _ _ _ _

theorem onto_place (wb : Wb d) (ram : Ram) (e : WbEntry) :
    (wb.place ram e).1.onto (wb.place ram e).2 = e.drain (wb.onto ram) := by
  unfold place
  split
  · simp only [onto, RingBuffer.toList_push, List.foldl_append, List.foldl_cons, List.foldl_nil]
  · rename_i h
    have h0 : 0 < wb.entrys.used := Nat.lt_of_lt_of_le d.num_pos (Nat.le_of_not_lt h)
    simp only [onto, RingBuffer.toList_push, List.foldl_append, List.foldl_cons, List.foldl_nil,
      RingBuffer.toList_pop wb.entrys h0]

theorem busWriteBytes_append (ram : Ram) (pa : ARMword) (bs bs' : List (BitVec 8)) :
    ram.busWriteBytes pa (bs ++ bs') =
      (ram.busWriteBytes pa bs).busWriteBytes (pa + BitVec.ofNat 32 bs.length) bs' := by
  induction bs generalizing ram pa with
  | nil => simp [Ram.busWriteBytes]
  | cons b bs ih =>
    have hp : pa + BitVec.ofNat 32 (bs.length + 1) = pa + 1 + BitVec.ofNat 32 bs.length := by
      rw [BitVec.add_assoc, BitVec.ofNat_add, BitVec.add_comm (BitVec.ofNat 32 bs.length)]
      rfl
    rw [List.cons_append, Ram.busWriteBytes, ih, List.length_cons, hp, Ram.busWriteBytes]

/-- A store into the buffer changes both together as a store to memory does. -/
theorem onto_writeBytes (wb : Wb d) (ram : Ram) (pa : ARMword) (data : List (BitVec 8)) :
    (wb.writeBytes ram pa data).1.onto (wb.writeBytes ram pa data).2 =
      (wb.onto ram).busWriteBytes pa data := by
  fun_induction writeBytes wb ram pa data with
  | case1 wb ram pa => rfl
  | case2 wb ram pa data h i wb' ram' hp ih =>
    have ho := onto_place wb ram ⟨pa, data.take i⟩
    rw [hp] at ho
    rw [ih, ho, WbEntry.drain]
    conv_rhs => rw [← List.take_append_drop i data, busWriteBytes_append]
    rw [List.length_take_of_le (Nat.min_le_left _ _)]

end Wb

/-! ## Word by word -/

namespace Ram

theorem busWriteBytes_bigEndian (ram : Ram) (pa : ARMword) (bs : List (BitVec 8)) :
    (ram.busWriteBytes pa bs).bigEndian = ram.bigEndian := by
  induction bs generalizing ram pa with
  | nil => rfl
  | cons b bs ih => exact ih _ _

/-- What a word becomes depends on nothing but the word. -/
theorem busWriteBytes_word_congr {ram ram' : Ram} (hb : ram.bigEndian = ram'.bigEndian)
    {i : BitVec 30} (hi : ram.word i = ram'.word i) (pa : ARMword) (bs : List (BitVec 8)) :
    (ram.busWriteBytes pa bs).word i = (ram'.busWriteBytes pa bs).word i := by
  induction bs generalizing ram ram' pa with
  | nil => exact hi
  | cons b bs ih =>
    rw [busWriteBytes, busWriteBytes]
    refine ih (by exact hb) ?_ _
    simp only [busWrite, Function.update_apply]
    split
    · rename_i hp
      rw [← hp, hi, hb]
    · exact hi

/-- Bytes at `pa` and after it are in the word. -/
def BytesIn (pa : ARMword) (n : Nat) (i : BitVec 30) : Prop :=
  ∃ k, k < n ∧ index (pa + BitVec.ofNat 32 k) = i

theorem BytesIn.succ {pa : ARMword} {n : Nat} {i : BitVec 30} (h : BytesIn (pa + 1) n i) :
    BytesIn pa (n + 1) i := by
  obtain ⟨k, hk, hi⟩ := h
  refine ⟨k + 1, Nat.succ_lt_succ hk, ?_⟩
  rw [← hi, BitVec.ofNat_add, BitVec.add_comm (BitVec.ofNat 32 k), ← BitVec.add_assoc]
  rfl

theorem busWriteBytes_word_of_not_bytesIn {ram : Ram} {pa : ARMword} {bs : List (BitVec 8)}
    {i : BitVec 30} (h : ¬ BytesIn pa bs.length i) :
    (ram.busWriteBytes pa bs).word i = ram.word i := by
  induction bs generalizing ram pa with
  | nil => rfl
  | cons b bs ih =>
    refine (ih fun hb => h hb.succ).trans ?_
    have hne : i ≠ index pa := fun hi =>
      h ⟨0, Nat.succ_pos _, by rw [hi]; exact congrArg index (BitVec.add_zero pa)⟩
    exact Function.update_of_ne hne _ _

end Ram

namespace Wb

variable {d : WbDesc}

/-- Some entry has bytes of the word. -/
def Touches (wb : Wb d) (i : BitVec 30) : Prop :=
  ∃ e ∈ wb.entrys.toList, Ram.BytesIn e.pa e.data.length i

theorem drainList_bigEndian (es : List WbEntry) (ram : Ram) :
    (es.foldl WbEntry.drain ram).bigEndian = ram.bigEndian := by
  induction es generalizing ram with
  | nil => rfl
  | cons e es ih => exact (ih _).trans (Ram.busWriteBytes_bigEndian _ _ _)

theorem drainList_word_congr (es : List WbEntry) {ram ram' : Ram}
    (hb : ram.bigEndian = ram'.bigEndian) {i : BitVec 30} (hi : ram.word i = ram'.word i) :
    (es.foldl WbEntry.drain ram).word i = (es.foldl WbEntry.drain ram').word i := by
  induction es generalizing ram ram' with
  | nil => exact hi
  | cons e es ih =>
    refine ih ?_ (Ram.busWriteBytes_word_congr hb hi _ _)
    exact ((Ram.busWriteBytes_bigEndian _ _ _).trans hb).trans
      (Ram.busWriteBytes_bigEndian _ _ _).symm

theorem drainList_word_of_not_touches (es : List WbEntry) {ram : Ram} {i : BitVec 30}
    (h : ∀ e ∈ es, ¬ Ram.BytesIn e.pa e.data.length i) :
    (es.foldl WbEntry.drain ram).word i = ram.word i := by
  induction es generalizing ram with
  | nil => rfl
  | cons e es ih =>
    refine (ih fun e' he => h e' (List.mem_cons_of_mem _ he)).trans ?_
    exact Ram.busWriteBytes_word_of_not_bytesIn (h e List.mem_cons_self)

theorem onto_bigEndian (wb : Wb d) (ram : Ram) : (wb.onto ram).bigEndian = ram.bigEndian :=
  drainList_bigEndian _ _

theorem onto_word_congr (wb : Wb d) {ram ram' : Ram} (hb : ram.bigEndian = ram'.bigEndian)
    {i : BitVec 30} (hi : ram.word i = ram'.word i) :
    (wb.onto ram).word i = (wb.onto ram').word i :=
  drainList_word_congr _ hb hi

theorem onto_word_of_not_touches (wb : Wb d) {ram : Ram} {i : BitVec 30} (h : ¬ wb.Touches i) :
    (wb.onto ram).word i = ram.word i :=
  drainList_word_of_not_touches _ fun e he hb => h ⟨e, he, hb⟩

theorem not_touches_of_unused {wb : Wb d} (h : wb.entrys.used = 0) (i : BitVec 30) :
    ¬ wb.Touches i := by
  rintro ⟨e, he, -⟩
  rw [RingBuffer.toList_eq_nil h] at he
  cases he

/-- Placing an entry adds its bytes to the buffer and writes only what the buffer held. -/
theorem place_frame (wb : Wb d) (ram : Ram) (e : WbEntry) (i : BitVec 30) :
    ((wb.place ram e).1.Touches i → wb.Touches i ∨ Ram.BytesIn e.pa e.data.length i) ∧
      (¬ wb.Touches i → (wb.place ram e).2.word i = ram.word i) ∧
      (wb.place ram e).2.bigEndian = ram.bigEndian := by
  unfold place
  split
  · refine ⟨?_, fun _ => rfl, rfl⟩
    rintro ⟨e', he', hb⟩
    rw [RingBuffer.toList_push, List.mem_append, List.mem_singleton] at he'
    rcases he' with he' | rfl
    · exact .inl ⟨e', he', hb⟩
    · exact .inr hb
  · rename_i h
    have h0 : 0 < wb.entrys.used := Nat.lt_of_lt_of_le d.num_pos (Nat.le_of_not_lt h)
    have hq := RingBuffer.toList_pop wb.entrys h0
    refine ⟨?_, fun hn => ?_, Ram.busWriteBytes_bigEndian _ _ _⟩
    · rintro ⟨e', he', hb⟩
      rw [RingBuffer.toList_push, List.mem_append, List.mem_singleton] at he'
      rcases he' with he' | rfl
      · exact .inl ⟨e', hq ▸ List.mem_cons_of_mem _ he', hb⟩
      · exact .inr hb
    · exact Ram.busWriteBytes_word_of_not_bytesIn fun hb =>
        hn ⟨_, hq ▸ List.mem_cons_self, hb⟩

theorem writeBytes_frame (wb : Wb d) (ram : Ram) (pa : ARMword) (data : List (BitVec 8))
    {i : BitVec 30} (hi : ¬ Ram.BytesIn pa data.length i) :
    ((wb.writeBytes ram pa data).1.Touches i → wb.Touches i) ∧
      (¬ wb.Touches i → (wb.writeBytes ram pa data).2.word i = ram.word i) ∧
      (wb.writeBytes ram pa data).2.bigEndian = ram.bigEndian := by
  fun_induction writeBytes wb ram pa data with
  | case1 wb ram pa => exact ⟨id, fun _ => rfl, rfl⟩
  | case2 wb ram pa data h n wb' ram' hp ih =>
    obtain ⟨ht, hm, hb⟩ := place_frame wb ram ⟨pa, data.take n⟩ i
    rw [hp] at ht hm hb
    have hn : n ≤ data.length := Nat.min_le_left _ _
    have hhead : ¬ Ram.BytesIn pa (data.take n).length i := by
      rintro ⟨k, hk, he⟩
      rw [List.length_take_of_le hn] at hk
      exact hi ⟨k, Nat.lt_of_lt_of_le hk hn, he⟩
    have htail : ¬ Ram.BytesIn (pa + BitVec.ofNat 32 n) (data.drop n).length i := by
      rintro ⟨k, hk, he⟩
      rw [List.length_drop] at hk
      rw [BitVec.add_assoc, ← BitVec.ofNat_add] at he
      exact hi ⟨n + k, by omega, he⟩
    have hback (h' : wb'.Touches i) : wb.Touches i := (ht h').resolve_right hhead
    obtain ⟨ht', hm', hb'⟩ := ih htail
    exact ⟨fun h' => hback (ht' h'), fun h' => (hm' fun h'' => h' (hback h'')).trans (hm h'),
      hb'.trans hb⟩

end Wb

/-! ## Bytes of a datum -/

theorem getLsbD_hostByte (data : ARMword) (k j : Nat) :
    (((data >>> (8 * k)).setWidth 8).setWidth 32).getLsbD j =
      (decide (j < 8) && data.getLsbD (8 * k + j)) := by
  simp only [BitVec.getLsbD_setWidth, BitVec.getLsbD_ushiftRight]
  by_cases hj : j < 8
  · have h32 : j < 32 := by omega
    simp [hj, h32]
  · simp [hj]

namespace Ram

theorem toNat_add_ofNat {a : ARMword} {n : Nat} (hn : a.toNat % 4 + n < 4) :
    (a + BitVec.ofNat 32 n).toNat = a.toNat + n := by
  have := a.isLt
  rw [BitVec.toNat_add, BitVec.toNat_ofNat]
  omega

/-- Bytes at following addresses of one word change its bits from the first byte's on. -/
theorem busWriteBytes_in_word {ram : Ram} (he : ram.bigEndian = false) (a data : ARMword) {n : Nat}
    (hn : a.toNat % 4 + n ≤ 4) :
    ∃ w, ram.busWriteBytes a ((List.range n).map fun k => (data >>> (8 * k)).setWidth 8) =
        { ram with word := Function.update ram.word (index a) w } ∧
      ∀ j < 32, w.getLsbD j =
        if 8 * (a.toNat % 4) ≤ j ∧ j < 8 * (a.toNat % 4) + 8 * n then
          data.getLsbD (j - 8 * (a.toNat % 4))
        else (ram.word (index a)).getLsbD j := by
  induction n with
  | zero =>
    refine ⟨ram.word (index a), ?_, fun j _ => ?_⟩
    · rw [Function.update_eq_self]
      rfl
    · rw [if_neg (by omega)]
  | succ n ih =>
    obtain ⟨w, hw, hbits⟩ := ih (by omega)
    have hnat := toNat_add_ofNat (a := a) (n := n) (by omega)
    have hidx : index (a + BitVec.ofNat 32 n) = index a := by
      apply BitVec.eq_of_toNat_eq
      rw [toNat_index, toNat_index, hnat]
      omega
    have hoff : laneOffset false .byte (a + BitVec.ofNat 32 n) = 8 * (a.toNat % 4) + 8 * n := by
      simp only [laneOffset_false, hnat]
      omega
    refine ⟨writeLane false .byte (a + BitVec.ofNat 32 n)
      (((data >>> (8 * n)).setWidth 8).setWidth 32) w, ?_, fun j hj => ?_⟩
    · rw [List.range_succ, List.map_append, Wb.busWriteBytes_append, hw, List.length_map,
        List.length_range]
      simp only [List.map_cons, List.map_nil, busWriteBytes, busWrite, hidx, he,
        Function.update_self, Function.update_idem]
    · rw [getLsbD_writeLane _ _ _ _ _ hj, hoff, getLsbD_hostByte, hbits j hj]
      have hb : DataType.byte.bits = 8 := rfl
      rw [hb]
      by_cases h1 : 8 * (a.toNat % 4) + 8 * n ≤ j ∧ j < 8 * (a.toNat % 4) + 8 * n + 8
      · have h2 : j - (8 * (a.toNat % 4) + 8 * n) < 8 := by omega
        have h3 : 8 * n + (j - (8 * (a.toNat % 4) + 8 * n)) = j - 8 * (a.toNat % 4) := by omega
        rw [if_pos h1, if_pos (by omega), decide_eq_true h2, Bool.true_and, h3]
      · rw [if_neg h1]
        congr 1
        apply propext
        omega

/-- The bytes of an aligned datum, written one by one, are the datum. -/
theorem busWriteBytes_hostBytes {ram : Ram} (he : ram.bigEndian = false) (datatype : DataType)
    {a : ARMword} (ha : a.toNat % (datatype.bits / 8) = 0) (data : ARMword) :
    ram.busWriteBytes a (hostBytes datatype data) = ram.busWrite datatype a data := by
  have hin : a.toNat % 4 + datatype.bits / 8 ≤ 4 := by
    cases datatype <;> simp only [DataType.bits] at ha ⊢ <;> omega
  have hbits : 8 * (datatype.bits / 8) = datatype.bits := by cases datatype <;> rfl
  have hoff : laneOffset false datatype a = 8 * (a.toNat % 4) := by
    rw [laneOffset_false]
    cases datatype <;> simp only [DataType.bits] at ha ⊢ <;> omega
  obtain ⟨w, hw, hb⟩ := busWriteBytes_in_word he a data hin
  have hwl : w = writeLane false datatype a data (ram.word (index a)) := by
    apply BitVec.eq_of_getLsbD_eq
    intro j hj
    rw [hb j hj, getLsbD_writeLane _ _ _ _ _ hj, hoff, hbits]
  rw [hostBytes, hw, hwl, busWrite, he]

/-- The bytes of an aligned datum are in one word. -/
theorem index_of_bytesIn_hostBytes {datatype : DataType} {a data : ARMword} {i : BitVec 30}
    (ha : a.toNat % (datatype.bits / 8) = 0)
    (h : BytesIn a (hostBytes datatype data).length i) : i = index a := by
  obtain ⟨k, hk, rfl⟩ := h
  rw [hostBytes, List.length_map, List.length_range] at hk
  have hin : a.toNat % 4 + k < 4 := by
    cases datatype <;> simp only [DataType.bits] at ha hk <;> omega
  apply BitVec.eq_of_toNat_eq
  rw [toNat_index, toNat_index, toNat_add_ofNat hin]
  omega

end Ram

end SkyEye

/-!
## Memory as bytes

Little-endian memory is a store of bytes: a byte write is an update of it, and a larger
write is the writes of its bytes. A read gives the bytes at its addresses.
-/

namespace SkyEye.Ram

/-- The byte at an address. -/
def byte (ram : Ram) (a : ARMword) : BitVec 8 := (ram.busRead .byte a).setWidth 8

/-- Bytes with the addresses they are for. -/
def bytesAt (a : ARMword) : List (BitVec 8) → List (ARMword × BitVec 8)
  | [] => []
  | b :: bs => (a, b) :: bytesAt (a + 1) bs

theorem getLsbD_byte {ram : Ram} (he : ram.bigEndian = false) (a : ARMword) {j : Nat} (hj : j < 8) :
    (ram.byte a).getLsbD j = (ram.word (index a)).getLsbD (8 * (a.toNat % 4) + j) := by
  have hb : DataType.byte.bits = 8 := rfl
  rw [byte, BitVec.getLsbD_setWidth, busRead, getLsbD_readLane, he, laneOffset_false, hb,
    decide_eq_true hj, Bool.true_and, Bool.true_and]

/-- Addresses of one word with one lane are one address. -/
theorem eq_of_index_eq {a a' : ARMword} (hi : index a = index a')
    (hl : a.toNat % 4 = a'.toNat % 4) : a = a' := by
  have hq := congrArg BitVec.toNat hi
  rw [toNat_index, toNat_index] at hq
  apply BitVec.eq_of_toNat_eq
  omega

/-- Writing a byte updates that byte. -/
theorem byte_busWrite {ram : Ram} (he : ram.bigEndian = false) (a : ARMword) (b : BitVec 8) :
    (ram.busWrite .byte a (b.setWidth 32)).byte = Function.update ram.byte a b := by
  funext a'
  apply BitVec.eq_of_getLsbD_eq
  intro j hj
  have hword : (ram.busWrite .byte a (b.setWidth 32)).word (index a') =
      if index a' = index a then writeLane false .byte a (b.setWidth 32) (ram.word (index a))
      else ram.word (index a') := by
    rw [busWrite_word_eq he, Function.update_apply]
  have he' : (ram.busWrite .byte a (b.setWidth 32)).bigEndian = false := he
  rw [getLsbD_byte he' _ hj, hword, Function.update_apply]
  by_cases hi : index a' = index a
  · have hk : 8 * (a'.toNat % 4) + j < 32 := by omega
    have hb : DataType.byte.bits = 8 := rfl
    rw [if_pos hi, getLsbD_writeLane _ _ _ _ _ hk, laneOffset_false, hb]
    by_cases hl : a'.toNat % 4 = a.toNat % 4
    · rw [if_pos (eq_of_index_eq hi hl), if_pos (by simp only; omega), hl]
      have hs : 8 * (a.toNat % 4) + j - 8 * (a.toNat % 4) = j := by omega
      have h32 : j < 32 := by omega
      simp only [hs, BitVec.getLsbD_setWidth, h32, decide_true, Bool.true_and]
    · have hne : a' ≠ a := fun he => hl (congrArg (·.toNat % 4) he)
      rw [if_neg hne, if_neg (by simp only; omega), getLsbD_byte he _ hj, hi]
  · have hne : a' ≠ a := fun he => hi (congrArg index he)
    rw [if_neg hi, if_neg hne, getLsbD_byte he _ hj]

theorem byte_busWriteBytes {ram : Ram} (he : ram.bigEndian = false) (a : ARMword)
    (bs : List (BitVec 8)) :
    (ram.busWriteBytes a bs).byte = StoreView.replay ram.byte (bytesAt a bs) := by
  induction bs generalizing ram a with
  | nil => rfl
  | cons b bs ih =>
    rw [busWriteBytes, ih (by exact he), byte_busWrite he]
    rfl

/-- The bytes of an aligned read. -/
theorem byte_busRead {ram : Ram} (he : ram.bigEndian = false) (datatype : DataType) {a : ARMword}
    (ha : a.toNat % (datatype.bits / 8) = 0) {k : Nat} (hk : k < datatype.bits / 8) :
    ((ram.busRead datatype a) >>> (8 * k)).setWidth 8 = ram.byte (a + BitVec.ofNat 32 k) := by
  have hin : a.toNat % 4 + k < 4 := by
    cases datatype <;> simp only [DataType.bits] at ha hk <;> omega
  have hoff : laneOffset false datatype a = 8 * (a.toNat % 4) := by
    rw [laneOffset_false]
    cases datatype <;> simp only [DataType.bits] at ha ⊢ <;> omega
  have hnat := toNat_add_ofNat hin
  have hidx : index (a + BitVec.ofNat 32 k) = index a := by
    apply BitVec.eq_of_toNat_eq
    rw [toNat_index, toNat_index, hnat]
    omega
  apply BitVec.eq_of_getLsbD_eq
  intro j hj
  have hbits : 8 * k + j < datatype.bits := by
    cases datatype <;> simp only [DataType.bits] at hk ⊢ <;> omega
  have hpos : 8 * (a.toNat % 4) + (8 * k + j) = 8 * ((a.toNat + k) % 4) + j := by omega
  rw [getLsbD_byte he _ hj, hidx, hnat, BitVec.getLsbD_setWidth, BitVec.getLsbD_ushiftRight, busRead,
    getLsbD_readLane, he, hoff, hpos, decide_eq_true hj, decide_eq_true hbits, Bool.true_and,
    Bool.true_and]

end SkyEye.Ram
