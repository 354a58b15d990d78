import SkyEye.Memory.Law
import SkyEye.Mmu.Wb
import SkyEye.Mmu.Split

/-!
# Buffered stores

A store that goes through the write buffer is cut into the bytes that the host keeps the
datum in, lowest first, and drained byte by byte; a store to memory puts the datum into its
lane. Both are stores of bytes, and the bytes come in the order of a little-endian memory
in one case and of the configured one in the other.
-/

namespace SkyEye

open StoreView

namespace Ram

variable {ram ram' : Ram} {datatype : DataType} {a : ARMword}

theorem index_eq_iff {a a' : ARMword} : index a' = index a ↔ a'.toNat / 4 = a.toNat / 4 := by
  rw [← BitVec.toNat_inj, toNat_index, toNat_index]

/-- A write of any size is the writes of its bytes, in either byte order. -/
theorem byte_busWrite_datum (ha : a.toNat % datatype.bytes = 0) (data : ARMword) :
    (ram.busWrite datatype a data).byte =
      replay ram.byte (datumBytes ram.bigEndian datatype a data) := by
  funext a'
  have hfit := DataType.bytes_fit ha
  rw [replay_datumBytes ram.byte ram.bigEndian ha]
  show laneByte ram.bigEndian a' (Function.update ram.word (index a) _ (index a')) = _
  by_cases hi : index a' = index a
  · rw [hi, Function.update_self, laneByte_writeLane ram.bigEndian ha (index_eq_iff.mp hi), ← hi]
    rfl
  · rw [Function.update_of_ne hi, if_neg]
    · rfl
    · intro hin
      exact hi (index_eq_iff.mpr (by omega))

theorem byte_busWriteBytes_lanes (ram : Ram) (a : ARMword) (bs : List (BitVec 8)) :
    (ram.busWriteBytes a bs).byte = replay ram.byte (bytesAt a bs) := by
  induction bs generalizing ram a with
  | nil => rfl
  | cons b bs ih =>
    have hb : datumBytes ram.bigEndian .byte a (b.setWidth 32) = [(a, b)] := by
      have h0 : a + BitVec.ofNat 32 0 = a := BitVec.add_zero a
      have hd : datumByte ram.bigEndian .byte 0 (b.setWidth 32) = b := by
        apply BitVec.eq_of_getLsbD_eq
        intro j hj
        rw [getLsbD_datumByte _ _ _ _ hj]
        cases ram.bigEndian <;> simp [DataType.bytes, show j < 32 by omega]
      show [(a + BitVec.ofNat 32 0, _)] = _
      rw [h0, hd]
    rw [busWriteBytes, ih, byte_busWrite_datum (Nat.mod_one _), hb]
    rfl

/-- The bytes of the host, at following addresses. -/
theorem bytesAt_hostBytes (datatype : DataType) (a data : ARMword) :
    bytesAt a (hostBytes datatype data) = datumBytes false datatype a data := by
  have hat (bs : List (BitVec 8)) (a : ARMword) : bytesAt a bs =
      (List.range bs.length).map fun k => (a + BitVec.ofNat 32 k, bs.getD k 0) := by
    induction bs generalizing a with
    | nil => rfl
    | cons b bs ih =>
      rw [bytesAt, ih, List.length_cons, List.range_succ_eq_map, List.map_cons, List.map_map]
      refine List.cons_eq_cons.mpr ⟨?_, List.map_congr_left fun k _ => ?_⟩
      · exact congrArg (·, b) (BitVec.add_zero a).symm
      · rw [Function.comp_apply, List.getD_cons_succ, BitVec.add_assoc]
        congr 2
        exact (BitVec.add_comm _ _).trans (BitVec.ofNat_add ..).symm
  rw [hat, datumBytes, hostBytes, List.length_map, List.length_range,
    show datatype.bits / 8 = datatype.bytes by cases datatype <;> rfl]
  refine List.map_congr_left fun k hk => congrArg _ ?_
  have hk' := List.mem_range.mp hk
  rw [List.getD_eq_getElem?_getD, List.getElem?_map, List.getElem?_range hk']
  rfl

theorem byte_eq_laneByte (ram : Ram) (a : ARMword) :
    ram.byte a = laneByte ram.bigEndian a (ram.word (index a)) := rfl

/-- Where bit `8 * k + j` of a word is: in the byte that counts as its `k`th. -/
theorem getLsbD_word (ram : Ram) (i : BitVec 30) {k j : Nat} (hk : k < 4) (hj : j < 8) :
    (ram.word i).getLsbD (8 * k + j) =
      (ram.byte (addr i + BitVec.ofNat 32 (if ram.bigEndian then 3 - k else k))).getLsbD j := by
  have hlane : (if ram.bigEndian then 3 - k else k) < 4 := by split <;> omega
  have h0 := toNat_addr i
  have hnat : (addr i + BitVec.ofNat 32 (if ram.bigEndian then 3 - k else k)).toNat =
      4 * i.toNat + if ram.bigEndian then 3 - k else k := by
    rw [toNat_add_ofNat (by omega), h0]
  have hindex : index (addr i + BitVec.ofNat 32 (if ram.bigEndian then 3 - k else k)) = i := by
    apply BitVec.eq_of_toNat_eq
    rw [toNat_index, hnat]
    omega
  rw [byte_eq_laneByte, hindex, getLsbD_laneByte _ _ _ hj, hnat]
  congr 1
  cases ram.bigEndian <;> simp <;> omega

/-- A memory is its bytes. -/
theorem ext_byte (he : ram.bigEndian = ram'.bigEndian) (h : ram.byte = ram'.byte) :
    ram = ram' := by
  obtain ⟨word, bigEndian⟩ := ram
  obtain ⟨word', bigEndian'⟩ := ram'
  obtain rfl : bigEndian = bigEndian' := he
  congr 1
  funext i
  apply BitVec.eq_of_getLsbD_eq
  intro n hn
  have hsplit : n = 8 * (n / 8) + n % 8 := (Nat.div_add_mod n 8).symm
  have hw := getLsbD_word ⟨word, bigEndian⟩ i (k := n / 8) (j := n % 8) (by omega) (by omega)
  have hw' := getLsbD_word ⟨word', bigEndian⟩ i (k := n / 8) (j := n % 8) (by omega) (by omega)
  rw [hsplit, hw, hw', h]

/-- Writing a datum and writing the host's bytes of it agree if memory is little-endian, or the
datum reads the same in both orders. -/
theorem busWriteBytes_eq_busWrite_iff (ha : a.toNat % datatype.bytes = 0) (data : ARMword) :
    ram.busWriteBytes a (hostBytes datatype data) = ram.busWrite datatype a data ↔
      ram.bigEndian = false ∨
        ∀ k < datatype.bytes, datumByte true datatype k data = datumByte false datatype k data := by
  have hfit := DataType.bytes_fit ha
  have hbytes : (ram.busWriteBytes a (hostBytes datatype data)).byte =
      replay ram.byte (datumBytes false datatype a data) := by
    rw [byte_busWriteBytes_lanes, bytesAt_hostBytes]
  have hdatum : (ram.busWrite datatype a data).byte = _ := byte_busWrite_datum ha data
  constructor
  · intro h
    by_cases he : ram.bigEndian = false
    · exact .inl he
    · rw [Bool.not_eq_false] at he
      rw [h, hdatum, he] at hbytes
      refine .inr fun k hk => ?_
      have hnat := toNat_add_byte ha hk
      have hk' := congrFun hbytes (a + BitVec.ofNat 32 k)
      rw [replay_datumBytes _ _ ha, replay_datumBytes _ _ ha, if_pos (by omega),
        if_pos (by omega), hnat, Nat.add_sub_cancel_left] at hk'
      exact hk'
  · intro h
    refine ext_byte (busWriteBytes_bigEndian ..) ?_
    rw [hbytes, hdatum]
    cases he : ram.bigEndian
    · rfl
    · have hsame := h.resolve_left (by rw [he]; decide)
      rw [datumBytes, datumBytes]
      congr 1
      exact List.map_congr_left fun k hk => by rw [hsame k (List.mem_range.mp hk)]

end Ram

namespace Wb

variable {d : WbDesc}

theorem drained_writeBytes_iff (wb : Wb d) (ram : Ram) {datatype : DataType} {a : ARMword}
    (ha : a.toNat % datatype.bytes = 0) (data : ARMword) :
    let buffered := wb.writeBytes ram a (hostBytes datatype data)
    (buffered.1.drainAll buffered.2).2 = (wb.drainAll ram).2.busWrite datatype a data ↔
      ram.bigEndian = false ∨
        ∀ k < datatype.bytes, datumByte true datatype k data = datumByte false datatype k data := by
  have he : (wb.onto ram).bigEndian = ram.bigEndian := onto_bigEndian wb ram
  intro buffered
  rw [(drainAll_eq _ _).1, (drainAll_eq _ _).1, onto_writeBytes, ← he]
  exact Ram.busWriteBytes_eq_busWrite_iff ha data

/-- A store through the buffer leaves memory, once the buffer is drained, as the store to memory
does exactly if memory is little-endian, or the datum reads the same in both byte orders. -/
theorem buffered_store_exact_iff (byteType : DataType) (wb : Wb d) (ram : Ram)
    (datatype : DataType) (pa data : ARMword) :
    let buffered := storeMiss byteType true true wb ram datatype (pa &&& ~~~3) pa data
    let direct := (wb.drainAll ram).2.busWrite datatype (laneAddr datatype (pa &&& ~~~3) pa) data
    (buffered.1.drainAll buffered.2).2 = direct ↔
      ram.bigEndian = false ∨
        ∀ k < datatype.bytes, datumByte true datatype k data = datumByte false datatype k data := by
  have ha : (laneAddr datatype (pa &&& ~~~3) pa).toNat % datatype.bytes = 0 := by
    have h := (laneAddr_spec datatype pa).2.2
    rw [Ram.addr_index, datatype.bits_eq, Nat.mul_div_cancel_left _ (by decide)] at h
    exact h
  exact drained_writeBytes_iff wb ram ha data

/-- A word comes out of the buffer with its bytes the other way round in big-endian memory. -/
theorem buffered_word_reversed :
    ¬ ∀ (d : WbDesc) (wb : Wb d) (ram : Ram) (datatype : DataType) (pa data : ARMword),
      let buffered := storeMiss .word true true wb ram datatype (pa &&& ~~~3) pa data
      (buffered.1.drainAll buffered.2).2 =
        (wb.drainAll ram).2.busWrite datatype (laneAddr datatype (pa &&& ~~~3) pa) data := by
  intro h
  have hbad := h ⟨8, 16, by decide, by decide⟩ (init _) ⟨fun _ => 0, true⟩ .word 0 0x12345678
  rcases (drained_writeBytes_iff _ _ (a := 0) rfl _).mp hbad with he | hk
  · cases he
  · exact absurd (hk 0 (by decide)) (by decide)

end Wb

end SkyEye
