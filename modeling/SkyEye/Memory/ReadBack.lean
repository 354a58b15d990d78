import SkyEye.Memory.Law

/-!
# What is read back

A read returns the datum whose bytes are in memory, and a write changes no byte outside
its word, also where its bank ends within the word.
-/

namespace SkyEye

/-- The datum of `bus_read(size, ...)` in the banks. -/
def busType : Nat → Option DataType
  | 8 => some .byte
  | 16 => some .halfword
  | 32 => some .word
  | _ => none

namespace Banks

variable {m : Banks}

/-- The bytes of a datum determine the bits of its size. -/
theorem and_laneMask_eq_of_datumByte (bigEndian : Bool) {datatype : DataType} {x y : ARMword}
    (h : ∀ k < datatype.bytes, datumByte bigEndian datatype k x = datumByte bigEndian datatype k y) :
    x &&& laneMask datatype = y &&& laneMask datatype := by
  have hbits := datatype.bits_eq
  apply BitVec.eq_of_getLsbD_eq
  intro i _
  rw [BitVec.getLsbD_and, BitVec.getLsbD_and, getLsbD_laneMask]
  by_cases hi : i < datatype.bits
  · -- bit `i` is bit `i % 8` of one of the bytes
    have hk : (if bigEndian then datatype.bytes - 1 - i / 8 else i / 8) < datatype.bytes := by
      split <;> omega
    have hb := congrArg (·.getLsbD (i % 8)) (h _ hk)
    simp only [getLsbD_datumByte _ _ _ _ (Nat.mod_lt i (show 0 < 8 by omega))] at hb
    have hpos : 8 * (if bigEndian then
        datatype.bytes - 1 - (if bigEndian then datatype.bytes - 1 - i / 8 else i / 8)
        else (if bigEndian then datatype.bytes - 1 - i / 8 else i / 8)) + i % 8 = i := by
      cases bigEndian
      · simp only [Bool.false_eq_true, if_false]
        omega
      · simp only [if_true]
        omega
    rw [hpos] at hb
    rw [hb]
  · rw [decide_eq_false hi, Bool.and_false, Bool.and_false]

theorem Laid.memRead_of_bytes (h : m.Laid) {datatype : DataType} {a data : ARMword}
    (hm : m.Mapped datatype a) (hb : ∀ k < datatype.bytes,
      m.byteAt (a + BitVec.ofNat 32 k) = datumByte m.bigEndian datatype k data) :
    (m.memRead datatype a).1 = some (data &&& laneMask datatype) := by
  obtain ⟨v, hv, hbytes⟩ := h.memRead_bytes hm
  obtain ⟨i, b, hbank, hc, -⟩ := hm.bank
  have hlane := h.disjoint.memRead hbank hc datatype
  have hmask : v &&& laneMask datatype = v := by
    obtain rfl := Option.some.inj (hv.symm.trans hlane)
    rw [readLane, BitVec.and_assoc, BitVec.and_self]
  rw [hv, ← hmask, and_laneMask_eq_of_datumByte m.bigEndian fun k hk =>
    (hbytes k hk).trans (hb k hk)]

theorem Laid.byteAt_memWrite_of_outside (h : m.Laid) {datatype : DataType} {a a' : ARMword}
    (hm : m.Mapped datatype a) (ha : a'.toNat < a.toNat ∨ a.toNat + datatype.bytes ≤ a'.toNat)
    (data : ARMword) : (m.memWrite datatype a data).byteAt a' = m.byteAt a' := by
  rw [h.byteAt_memWrite hm, replay_datumBytes _ _ hm.1, if_neg (by omega)]

theorem Laid.memRead_memWrite (h : m.Laid) {datatype : DataType} {a : ARMword}
    (hm : m.Mapped datatype a) (data : ARMword) :
    ((m.memWrite datatype a data).memRead datatype a).1 = some (data &&& laneMask datatype) := by
  have hs : m.SameMap (m.memWrite datatype a data) := ⟨rfl, rfl⟩
  refine (hs.laid h).memRead_of_bytes (hs.mapped hm) fun k hk => ?_
  have hnat := toNat_add_byte hm.1 hk
  have hsub : a.toNat + k - a.toNat = k := by omega
  rw [h.byteAt_memWrite hm, replay_datumBytes _ _ hm.1, hnat, if_pos (by omega), hsub, hs.bigEndian]

theorem Laid.memRead_congr {m' : Banks} (h : m.Laid) (hs : m.SameMap m') {datatype : DataType}
    {a : ARMword} (hm : m.Mapped datatype a) (hb : ∀ k < datatype.bytes,
      m'.byteAt (a + BitVec.ofNat 32 k) = m.byteAt (a + BitVec.ofNat 32 k)) :
    (m'.memRead datatype a).1 = (m.memRead datatype a).1 := by
  obtain ⟨v, -, hbytes⟩ := h.memRead_bytes hm
  rw [h.memRead_of_bytes hm fun k hk => (hbytes k hk).symm]
  refine (hs.laid h).memRead_of_bytes (hs.mapped hm) fun k hk => ?_
  rw [hb k hk, hs.bigEndian]
  exact (hbytes k hk).symm

theorem Laid.memRead_memWrite_of_disjoint (h : m.Laid) {datatype datatype' : DataType}
    {a a' : ARMword} (hm : m.Mapped datatype a) (hm' : m.Mapped datatype' a')
    (hd : a.toNat + datatype.bytes ≤ a'.toNat ∨ a'.toNat + datatype'.bytes ≤ a.toNat)
    (data : ARMword) :
    ((m.memWrite datatype' a' data).memRead datatype a).1 = (m.memRead datatype a).1 := by
  have hs : m.SameMap (m.memWrite datatype' a' data) := ⟨rfl, rfl⟩
  refine h.memRead_congr hs hm fun k hk => ?_
  rw [h.byteAt_memWrite_of_outside hm' (by rw [toNat_add_byte hm.1 hk]; omega)]

theorem Laid.memRead_memRead (h : m.Laid) {datatype : DataType} {a : ARMword}
    (hm : m.Mapped datatype a) (datatype' : DataType) (a' : ARMword) :
    ((m.memRead datatype' a').2.memRead datatype a).1 = (m.memRead datatype a).1 := by
  have hs : m.SameMap (m.memRead datatype' a').2 := ⟨rfl, rfl⟩
  refine h.memRead_congr hs hm fun k _ => ?_
  rw [byteAt_memRead h]

theorem bankPtr_contains {i : Nat} {a : ARMword} (hp : m.bankPtr a = some i) :
    ∃ b, m.memBanks[i]? = some b ∧ b.contains a = true := by
  unfold Banks.bankPtr at hp
  split at hp
  · rename_i j hj
    obtain rfl := Option.some.inj hp
    obtain ⟨-, hany⟩ := Option.filter_eq_some_iff.mp hj
    exact (Option.any_eq_true _ _).mp hany
  · obtain ⟨hlt, hfound, -⟩ := List.findIdx?_eq_some_iff_getElem.mp hp
    exact ⟨m.memBanks[i], List.getElem?_eq_getElem hlt, hfound⟩

/-- No bank is found for an address that none holds, and its byte reads as 0. -/
theorem byteAt_of_not_contains {a : ARMword}
    (hno : ∀ (i : Nat) (b : MemBank), m.memBanks[i]? = some b → b.contains a = false) :
    m.byteAt a = 0 := by
  have hp : m.bankPtr a = none := by
    cases hp : m.bankPtr a with
    | none => rfl
    | some i =>
      obtain ⟨b, hb, hc⟩ := bankPtr_contains hp
      rw [hno i b hb] at hc
      cases hc
  simp [Banks.byteAt, Banks.memRead, hp]

/-- A write changes no byte outside its word, wherever its bank ends. -/
theorem Laid.byteAt_memWrite_of_ne (h : m.Laid) (datatype : DataType) (a data : ARMword)
    {a' : ARMword} (hne : a'.toNat / 4 ≠ a.toNat / 4) :
    (m.memWrite datatype a data).byteAt a' = m.byteAt a' := by
  cases hp : m.bankPtr a with
  | none =>
    have hw : m.memWrite datatype a data = (m.memRead datatype a).2 := by
      simp [Banks.memWrite, Banks.memRead, hp]
    rw [hw, byteAt_memRead h]
  | some i =>
    obtain ⟨b, hb, hc⟩ := bankPtr_contains hp
    have hw := h.memWrite hb hc datatype data
    have h' : (m.memWrite datatype a data).Laid := by
      rw [hw]
      exact ⟨h.aligned, h.disjoint⟩
    have hbanks : (m.memWrite datatype a data).memBanks = m.memBanks := rfl
    by_cases hfound : ∃ (j : Nat) (c : MemBank), m.memBanks[j]? = some c ∧ c.contains a' = true
    · obtain ⟨j, c, hcj, hca⟩ := hfound
      rw [h'.byteAt (hbanks ▸ hcj) hca, h.byteAt hcj hca, hw]
      dsimp only
      by_cases hji : j = i
      · subst hji
        obtain rfl := Option.some.inj (hcj.symm.trans hb)
        have hal := h.aligned c (List.mem_of_getElem? hb)
        have hidx : c.wordIndex a' ≠ c.wordIndex a := by
          have h1 := contains_iff.mp hca
          have h2 := contains_iff.mp hc
          rw [wordIndex_eq hal hca, wordIndex_eq hal hc]
          omega
        rw [Function.update_self, Function.update_of_ne hidx]
      · rw [Function.update_of_ne hji]
    · have hno : ∀ (i : Nat) (b : MemBank), m.memBanks[i]? = some b →
          b.contains a' = false := fun i b hb =>
        Bool.eq_false_iff.mpr fun hca => hfound ⟨i, b, hb, hca⟩
      rw [byteAt_of_not_contains hno, byteAt_of_not_contains (by rw [hbanks]; exact hno)]

/-! ## Words -/

/-- The address is in a bank. -/
def Has (m : Banks) (a : ARMword) : Prop :=
  ∃ (i : Nat) (b : MemBank), m.memBanks[i]? = some b ∧ b.contains a = true

theorem SameMap.has {m' : Banks} (hs : m.SameMap m') (a : ARMword) : m'.Has a ↔ m.Has a := by
  rw [Has, Has, hs.memBanks]

theorem contains_start {b : MemBank} {a d : ARMword} (hal : b.addr.toNat % 4 = 0)
    (hc : b.contains a = true) (hd : d.toNat % 4 = 0) (hw : d.toNat / 4 = a.toNat / 4) :
    b.contains d = true := by
  have := contains_iff.mp hc
  exact contains_iff.mpr (by omega)

/-- The bytes of a word are in one bank, as far as they are in any. -/
theorem Laid.bank_of_word (h : m.Laid) {i j : Nat} {b c : MemBank} {a q : ARMword}
    (hb : m.memBanks[i]? = some b) (hba : b.contains a = true) (hc : m.memBanks[j]? = some c)
    (hcq : c.contains q = true) (hw : q.toNat / 4 = a.toNat / 4) : j = i := by
  have ha := a.isLt
  have hd : (BitVec.ofNat 32 (4 * (a.toNat / 4))).toNat = 4 * (a.toNat / 4) := by
    rw [BitVec.toNat_ofNat]
    omega
  have h1 := contains_start (h.aligned b (List.mem_of_getElem? hb)) hba
    (d := BitVec.ofNat 32 (4 * (a.toNat / 4))) (by omega) (by omega)
  have h2 := contains_start (h.aligned c (List.mem_of_getElem? hc)) hcq
    (d := BitVec.ofNat 32 (4 * (a.toNat / 4))) (by omega) (by omega)
  exact h.disjoint j i c b _ hc hb h2 h1

/-- A word that is read has the bytes of memory in its lanes. -/
theorem Laid.memRead_lanes (h : m.Laid) {a : ARMword} (ha : m.Has a) :
    ∃ w, (m.memRead .word a).1 = some w ∧
      ∀ q, m.Has q → q.toNat / 4 = a.toNat / 4 → m.byteAt q = laneByte m.bigEndian q w := by
  obtain ⟨i, b, hb, hc⟩ := ha
  refine ⟨m.rom i (b.wordIndex a), ?_, fun q hq hw => ?_⟩
  · rw [h.disjoint.memRead hb hc, readLane_word]
  · obtain ⟨j, c, hcj, hcq⟩ := hq
    obtain rfl := h.bank_of_word hb hc hcj hcq hw
    obtain rfl := Option.some.inj (hcj.symm.trans hb)
    have hal := h.aligned c (List.mem_of_getElem? hcj)
    rw [h.byteAt hcj hcq, wordIndex_eq hal hcq, wordIndex_eq hal hc, hw]

/-- A word that is written sets the bytes of its lanes. -/
theorem Laid.byteAt_memWrite_lanes (h : m.Laid) {a q : ARMword} (ha : m.Has a) (hq : m.Has q)
    (hw : q.toNat / 4 = a.toNat / 4) (v : ARMword) :
    (m.memWrite .word a v).byteAt q = laneByte m.bigEndian q v := by
  obtain ⟨i, b, hb, hc⟩ := ha
  obtain ⟨j, c, hcj, hcq⟩ := hq
  obtain rfl := h.bank_of_word hb hc hcj hcq hw
  obtain rfl := Option.some.inj (hcj.symm.trans hb)
  have hs : m.SameMap (m.memWrite .word a v) := ⟨rfl, rfl⟩
  have hal := h.aligned c (List.mem_of_getElem? hcj)
  have hi : c.wordIndex q = c.wordIndex a := by
    rw [wordIndex_eq hal hcq, wordIndex_eq hal hc, hw]
  rw [(hs.laid h).byteAt (i := j) (b := c) hcj hcq, h.memWrite hb hc]
  dsimp only
  rw [Function.update_self, hi, Function.update_self, writeLane_word]

theorem byteAt_of_not_has {a : ARMword} (hno : ¬m.Has a) : m.byteAt a = 0 :=
  byteAt_of_not_contains fun i b hb => Bool.eq_false_iff.mpr fun hc => hno ⟨i, b, hb, hc⟩

end Banks

end SkyEye
