import Mathlib.Data.List.Basic
import SkyEye.Net.RemoteDma

/-!
# Transfers through the DMA port

Which accesses use an index outside the packet memory (`step_inSram`), and what a command and
the accesses after it do: bytes are counted down to zero, and so are halfwords if the count is
even; an odd count of halfwords goes past zero.
-/

namespace SkyEye.Rtl8019

namespace DmaIo

/-! ## Indices -/

/-- Every index used lies in the packet memory. -/
def InSram (io : DmaIo) : Prop := ∀ i ∈ io.used, i < sramSize

theorem used_writeEnd (io : DmaIo) : io.writeEnd.used = io.used := by
  unfold writeEnd
  split <;> rfl

theorem used_readEnd (io : DmaIo) : io.readEnd.used = io.used := by
  unfold readEnd
  split <;> rfl

theorem used_writeRegister (io : DmaIo) (offset : Nat) (data : Byte) :
    (io.writeRegister offset data).used = io.used := by
  unfold writeRegister
  split
  · split <;> rfl
  · split
    · split <;> rfl
    · rfl

theorem used_writeCr (io : DmaIo) (data : Byte) (sent : Bool) :
    (io.writeCr data sent).used =
      io.used ++ (if data &&& 0x38 ≠ 0 ∧ data &&& cmdXmit ≠ 0 then io.outputIndices else []) := by
  have hread (io : DmaIo) (p : Prop) [Decidable p] :
      (if p then io.startRead else io).used = io.used := by split <;> rfl
  have hwrite (io : DmaIo) (p : Prop) [Decidable p] :
      (if p then io.startWrite else io).used = io.used := by split <;> rfl
  unfold writeCr
  by_cases h38 : data &&& 0x38 = 0
  · rw [if_pos h38, if_neg fun h => h.1 h38, List.append_nil]
  · rw [if_neg h38]
    show DmaIo.used (if _ then _ else _) = _
    rw [hwrite, hread]
    by_cases hx : data &&& cmdXmit ≠ 0
    · rw [if_pos hx, if_pos ⟨h38, hx⟩]
      rfl
    · rw [if_neg hx, if_neg fun h => hx h.2, List.append_nil]

theorem inSram_append {used more : List Nat} :
    (∀ i ∈ used ++ more, i < sramSize) ↔
      (∀ i ∈ used, i < sramSize) ∧ ∀ i ∈ more, i < sramSize := by
  simp only [List.mem_append]
  exact ⟨fun h => ⟨fun i hi => h i (.inl hi), fun i hi => h i (.inr hi)⟩,
    fun h i hi => hi.elim (h.1 i) (h.2 i)⟩

/-- A packet lies in the packet memory if its last byte does. -/
theorem output_inSram (io : DmaIo) :
    (∀ i ∈ io.outputIndices, i < sramSize) ↔
      (io.CR &&& cmdStop = 0 → io.packetLen ≠ 0 →
        io.startpage.toNat * pageSize + io.packetLen ≤ sramSize) := by
  unfold outputIndices
  by_cases hstop : io.CR &&& cmdStop = 0
  · rw [if_neg (not_not.mpr hstop)]
    constructor
    · intro h _ hlen
      have hlast := h (io.startpage.toNat * pageSize + (io.packetLen - 1))
        (List.mem_map.mpr ⟨io.packetLen - 1, List.mem_range.mpr (by omega), rfl⟩)
      omega
    · intro h i hi
      obtain ⟨k, hk, rfl⟩ := List.mem_map.mp hi
      rw [List.mem_range] at hk
      have hend := h hstop (by omega)
      omega
  · rw [if_pos hstop]
    exact iff_of_true (fun i hi => by cases hi) fun h => absurd h hstop

theorem remoteWriteByte_inSram (io : DmaIo) (data : Byte) :
    (io.remoteWriteByte data).InSram ↔ io.InSram := by
  unfold remoteWriteByte
  by_cases hcr : io.CR &&& cmdWrite ≠ 0
  · rw [if_pos hcr]
    by_cases hover : io.remote_write_offset ≥ 0x4000
    · rw [if_pos hover]
      rfl
    · rw [if_neg hover]
      have hlt : io.remote_write_offset.toNat < sramSize :=
        BitVec.lt_def.mp (BitVec.not_le.mp hover)
      rw [InSram, used_writeEnd]
      show (∀ i ∈ io.used ++ [_], i < sramSize) ↔ _
      rw [inSram_append]
      exact and_iff_left (by simpa using hlt)
  · rw [if_neg hcr]

theorem remoteWriteWord_inSram (io : DmaIo) (data : BitVec 16) :
    (io.remoteWriteWord data).InSram ↔
      io.InSram ∧ (io.CR &&& cmdWrite ≠ 0 → io.remote_write_offset ≠ 0xFFFFFFFF) := by
  unfold remoteWriteWord
  by_cases hcr : io.CR &&& cmdWrite ≠ 0
  · rw [if_pos hcr]
    have hlt := io.remote_write_offset.isLt
    have hadd : (io.remote_write_offset + 1).toNat = (io.remote_write_offset.toNat + 1) % 2 ^ 32 :=
      BitVec.toNat_add _ _
    have hones : io.remote_write_offset = 0xFFFFFFFF ↔
        io.remote_write_offset.toNat = 2 ^ 32 - 1 := by
      rw [← BitVec.toNat_inj]
      rfl
    by_cases hover : io.remote_write_offset + 1 ≥ 0x4000
    · rw [if_pos hover]
      have hge : 0x4000 ≤ (io.remote_write_offset + 1).toNat := BitVec.le_def.mp hover
      refine (and_iff_left fun _ => ?_).symm
      rw [Ne, hones]
      omega
    · rw [if_neg hover]
      have hno : (io.remote_write_offset + 1).toNat < 0x4000 :=
        BitVec.lt_def.mp (BitVec.not_le.mp hover)
      rw [InSram, used_writeEnd]
      show (∀ i ∈ io.used ++ [_] ++ [_], i < sramSize) ↔ _
      rw [List.append_assoc, inSram_append]
      refine and_congr_right fun _ => ?_
      have hsize : sramSize = 0x4000 := rfl
      simp only [List.cons_append, List.nil_append, List.mem_cons, List.not_mem_nil, or_false,
        forall_eq_or_imp, forall_eq, poke, hcr, true_implies, Ne, hones, hsize, not_false_eq_true]
      omega
  · rw [if_neg hcr]
    exact (and_iff_left fun h => absurd h hcr).symm

theorem remoteReadByte_inSram (io : DmaIo) :
    io.remoteReadByte.1.InSram ↔
      io.InSram ∧ (io.CR &&& cmdRead ≠ 0 → io.remote_read_offset.toNat < sramSize) := by
  unfold remoteReadByte
  by_cases hcr : io.CR &&& cmdRead ≠ 0
  · rw [if_pos hcr, InSram, used_readEnd]
    show (∀ i ∈ io.used ++ [_], i < sramSize) ↔ _
    rw [inSram_append]
    refine and_congr_right fun _ => ?_
    simp only [List.mem_singleton, forall_eq]
    exact ⟨fun h _ => h, fun h => h hcr⟩
  · rw [if_neg hcr]
    exact (and_iff_left fun h => absurd h hcr).symm

theorem remoteReadHalfword_inSram (io : DmaIo) :
    io.remoteReadHalfword.1.InSram ↔
      io.InSram ∧ (io.CR &&& cmdRead ≠ 0 → io.remote_read_offset.toNat + 1 < sramSize) := by
  unfold remoteReadHalfword
  by_cases hcr : io.CR &&& cmdRead ≠ 0
  · rw [if_pos hcr, InSram, used_readEnd]
    show (∀ i ∈ io.used ++ [_, _], i < sramSize) ↔ _
    rw [inSram_append]
    refine and_congr_right fun _ => ?_
    have hlt := io.remote_read_offset.isLt
    have hadd : (io.remote_read_offset + 1).toNat = (io.remote_read_offset.toNat + 1) % 2 ^ 32 :=
      BitVec.toNat_add _ _
    have hsize : sramSize = 0x4000 := rfl
    simp only [List.mem_cons, List.not_mem_nil, or_false, forall_eq_or_imp, forall_eq, hcr,
      true_implies, hadd, hsize, Ne, not_false_eq_true]
    omega
  · rw [if_neg hcr]
    exact (and_iff_left fun h => absurd h hcr).symm

/-- An access stays in the packet memory just when it is one that may be made. -/
theorem step_inSram (io : DmaIo) (access : Access) :
    (io.step access).1.InSram ↔ io.InSram ∧ AccessOk io access := by
  cases access with
  | writeByte offset data sent =>
    show (io.writeByte offset data sent).InSram ↔ io.InSram ∧ AccessOk io _
    unfold writeByte
    by_cases h10 : offset = 0x10
    · subst h10
      rw [if_pos rfl, remoteWriteByte_inSram]
      exact (and_iff_left fun h => by cases h).symm
    · rw [if_neg h10]
      by_cases h1f : offset = 0x1f
      · subst h1f
        rw [if_pos rfl]
        exact (and_iff_left fun h => by cases h).symm
      · rw [if_neg h1f]
        by_cases h0 : offset = 0x00
        · subst h0
          rw [if_pos rfl, InSram, used_writeCr, inSram_append]
          refine and_congr_right fun _ => ?_
          by_cases hx : data &&& 0x38 ≠ 0 ∧ data &&& cmdXmit ≠ 0
          · rw [if_pos hx, output_inSram]
            exact ⟨fun h _ _ _ => h, fun h => h rfl hx.1 hx.2⟩
          · rw [if_neg hx]
            exact iff_of_true (fun i hi => by cases hi) fun _ h38 hxm => absurd ⟨h38, hxm⟩ hx
        · rw [if_neg h0, InSram, used_writeRegister]
          exact (and_iff_left fun h => absurd h h0).symm
  | writeHalfword offset data =>
    show (io.writeHalfword offset data).InSram ↔ io.InSram ∧ AccessOk io _
    unfold writeHalfword
    by_cases h10 : offset = 0x10
    · rw [if_pos h10]
      by_cases hdcr : io.DCR &&& 1 ≠ 0
      · rw [if_pos hdcr, remoteWriteWord_inSram]
        exact and_congr_right fun _ => ⟨fun h _ _ => h, fun h => h h10 hdcr⟩
      · rw [if_neg hdcr]
        exact (and_iff_left fun _ h => absurd h hdcr).symm
    · rw [if_neg h10]
      exact (and_iff_left fun h => absurd h h10).symm
  | readByte => exact io.remoteReadByte_inSram
  | readHalfword =>
    show io.readHalfword.1.InSram ↔ io.InSram ∧ AccessOk io _
    unfold readHalfword
    by_cases hdcr : io.DCR &&& 1 ≠ 0
    · rw [if_pos hdcr, remoteReadHalfword_inSram]
      exact and_congr_right fun _ => ⟨fun h _ => h, fun h => h hdcr⟩
    · rw [if_neg hdcr]
      exact (and_iff_left fun h => absurd h hdcr).symm

theorem run_inSram (accesses : List Access) : ∀ io : DmaIo,
    (io.run accesses).InSram ↔ io.InSram ∧ RunOk io accesses := by
  induction accesses with
  | nil => exact fun io => (and_iff_left trivial).symm
  | cons access accesses ih =>
    intro io
    show ((io.step access).1.run accesses).InSram ↔ _
    rw [ih, step_inSram, RunOk, and_assoc]

/-! ## One access of a write -/

theorem writeEnd_of_ne {io : DmaIo} (h : io.remote_write_count.toNat ≠ 0) : io.writeEnd = io :=
  if_neg fun h0 => h (congrArg BitVec.toNat h0)

theorem writeEnd_of_eq {io : DmaIo} (h : io.remote_write_count.toNat = 0) :
    io.writeEnd = io.complete cmdWrite := if_pos (BitVec.eq_of_toNat_eq h)

theorem readEnd_of_ne {io : DmaIo} (h : io.remote_read_count.toNat ≠ 0) : io.readEnd = io :=
  if_neg fun h0 => h (congrArg BitVec.toNat h0)

theorem readEnd_of_eq {io : DmaIo} (h : io.remote_read_count.toNat = 0) :
    io.readEnd = io.complete cmdRead := if_pos (BitVec.eq_of_toNat_eq h)

theorem toNat_add_small {x : BitVec 32} {k : Nat} (h : x.toNat + k < 2 ^ 32) :
    (x + BitVec.ofNat 32 k).toNat = x.toNat + k := by
  rw [BitVec.toNat_add, BitVec.toNat_ofNat]
  omega

theorem toNat_sub_small {x : BitVec 32} {k : Nat} (h : k ≤ x.toNat) :
    (x - BitVec.ofNat 32 k).toNat = x.toNat - k := by
  have hx := x.isLt
  rw [BitVec.toNat_sub, BitVec.toNat_ofNat]
  omega

theorem low_append (a b : BitVec 8) : (a ++ b).setWidth 8 = b := by
  refine BitVec.eq_of_getLsbD_eq fun i hi => ?_
  rw [BitVec.getLsbD_setWidth, BitVec.getLsbD_append, if_pos hi, decide_eq_true hi, Bool.true_and]

theorem high_append (a b : BitVec 8) : ((a ++ b) >>> 8).setWidth 8 = a := by
  refine BitVec.eq_of_getLsbD_eq fun i hi => ?_
  rw [BitVec.getLsbD_setWidth, BitVec.getLsbD_ushiftRight, BitVec.getLsbD_append,
    if_neg (by omega), Nat.add_sub_cancel_left, decide_eq_true hi, Bool.true_and]

/-- `k` of the `n` bytes of `f` are at the offset `off`, and the others are to come. -/
structure Writing (init : DmaIo) (f : Nat → Byte) (off n k : Nat) (io : DmaIo) : Prop where
  dcr : io.DCR = init.DCR
  rsar : io.rsar = init.rsar
  rbcr : io.rbcr = init.rbcr
  offset : io.remote_write_offset.toNat = off + k
  count : io.remote_write_count.toNat = n - k
  stored : ∀ j < k, io.sram (off + j) = f j

variable {init io : DmaIo} {f : Nat → Byte} {off n k : Nat}

theorem Writing.byte (h : Writing init f off n k io) (hcr : io.CR &&& cmdWrite ≠ 0)
    (hk : k < n) (hend : off + n ≤ 0x4000) :
    ∃ u, Writing init f off n (k + 1) u ∧ u.CR = io.CR ∧ u.ISR = io.ISR ∧
      (io.step (.writeByte 0x10 (f k) true)).1 = u.writeEnd := by
  have hoff := h.offset
  have hno : ¬ io.remote_write_offset ≥ 0x4000 := by
    intro hge
    have hnat : 0x4000 ≤ io.remote_write_offset.toNat := BitVec.le_def.mp hge
    omega
  refine ⟨{ io.poke io.remote_write_offset (f k) with
      remote_write_offset := io.remote_write_offset + 1
      remote_write_count := io.remote_write_count - 1 },
    ⟨h.dcr, h.rsar, h.rbcr, ?_, ?_, fun j hj => ?_⟩, rfl, rfl, ?_⟩
  · exact (toNat_add_small (k := 1) (by omega)).trans (by omega)
  · have hcount := h.count
    exact (toNat_sub_small (k := 1) (by omega)).trans (by omega)
  · show Function.update io.sram io.remote_write_offset.toNat (f k) (off + j) = f j
    rw [hoff]
    by_cases hjk : j = k
    · rw [hjk, Function.update_self]
    · rw [Function.update_of_ne (by omega)]
      exact h.stored j (by omega)
  · show (io.writeByte 0x10 (f k) true) = _
    rw [writeByte, if_pos rfl, remoteWriteByte, if_pos hcr, if_neg hno]
    rfl

theorem Writing.halfword (h : Writing init f off n k io) (hcr : io.CR &&& cmdWrite ≠ 0)
    (hdcr : init.DCR &&& 1 ≠ 0) (hk : k + 2 ≤ n) (hend : off + n ≤ 0x4000) :
    ∃ u, Writing init f off n (k + 2) u ∧ u.CR = io.CR ∧ u.ISR = io.ISR ∧
      (io.step (.writeHalfword 0x10 (f (k + 1) ++ f k))).1 = u.writeEnd := by
  have hoff := h.offset
  have hadd : (io.remote_write_offset + 1).toNat = off + k + 1 :=
    (toNat_add_small (k := 1) (by omega)).trans (by omega)
  have hno : ¬ io.remote_write_offset + 1 ≥ 0x4000 := by
    intro hge
    have hnat : 0x4000 ≤ (io.remote_write_offset + 1).toNat := BitVec.le_def.mp hge
    omega
  refine ⟨{ (io.poke io.remote_write_offset (f k)).poke (io.remote_write_offset + 1) (f (k + 1))
      with
      remote_write_offset := io.remote_write_offset + 2
      remote_write_count := io.remote_write_count - 2 },
    ⟨h.dcr, h.rsar, h.rbcr, ?_, ?_, fun j hj => ?_⟩, rfl, rfl, ?_⟩
  · exact (toNat_add_small (k := 2) (by omega)).trans (by omega)
  · have hcount := h.count
    exact (toNat_sub_small (k := 2) (by omega)).trans (by omega)
  · show Function.update (Function.update io.sram io.remote_write_offset.toNat (f k))
      (io.remote_write_offset + 1).toNat (f (k + 1)) (off + j) = f j
    rw [hoff, hadd]
    by_cases hj1 : j = k + 1
    · rw [hj1, Nat.add_assoc, Function.update_self]
    · rw [Function.update_of_ne (by omega)]
      by_cases hj0 : j = k
      · rw [hj0, Function.update_self]
      · rw [Function.update_of_ne (by omega)]
        exact h.stored j (by omega)
  · show (io.writeHalfword 0x10 (f (k + 1) ++ f k)) = _
    rw [writeHalfword, if_pos rfl, if_pos (h.dcr ▸ hdcr), remoteWriteWord, if_pos hcr, if_neg hno,
      low_append, high_append]
    rfl

/-- A halfword that counts past zero does not end the command. -/
theorem halfword_past (hcr : io.CR &&& cmdWrite ≠ 0) (hcount : io.remote_write_count.toNat = 1)
    (data : BitVec 16) : (io.step (.writeHalfword 0x10 data)).1.CR = io.CR := by
  show (io.writeHalfword 0x10 data).CR = io.CR
  rw [writeHalfword, if_pos rfl]
  split
  · rw [remoteWriteWord, if_pos hcr]
    split
    · rfl
    · have hone : io.remote_write_count = 1 := BitVec.eq_of_toNat_eq hcount
      rw [writeEnd_of_ne]
      · rfl
      · show (io.remote_write_count - 2).toNat ≠ 0
        rw [hone]
        decide
  · rfl

/-! ## One access of a read -/

/-- `k` of `n` bytes at the offset `off` are read. -/
structure Reading (init : DmaIo) (off n k : Nat) (io : DmaIo) : Prop where
  dcr : io.DCR = init.DCR
  sram : io.sram = init.sram
  offset : io.remote_read_offset.toNat = off + k
  count : io.remote_read_count.toNat = n - k

theorem Reading.byte (h : Reading init off n k io) (hcr : io.CR &&& cmdRead ≠ 0)
    (hk : k < n) (hend : off + n ≤ 0x4000) :
    (∃ u, Reading init off n (k + 1) u ∧ u.CR = io.CR ∧ u.ISR = io.ISR ∧
      (io.step .readByte).1 = u.readEnd) ∧
      (io.step .readByte).2 = (init.sram (off + k)).setWidth 16 := by
  have hoff := h.offset
  have hcount := h.count
  constructor
  · refine ⟨{ io with
        remote_read_offset := io.remote_read_offset + 1
        remote_read_count := io.remote_read_count - 1
        used := io.used ++ [io.remote_read_offset.toNat] },
      ⟨h.dcr, h.sram, ?_, ?_⟩, rfl, rfl, ?_⟩
    · exact (toNat_add_small (k := 1) (by omega)).trans (by omega)
    · exact (toNat_sub_small (k := 1) (by omega)).trans (by omega)
    · show io.remoteReadByte.1 = _
      rw [remoteReadByte, if_pos hcr]
  · show io.remoteReadByte.2.setWidth 16 = _
    rw [remoteReadByte, if_pos hcr]
    show (io.sram io.remote_read_offset.toNat).setWidth 16 = _
    rw [h.sram, hoff]

theorem Reading.halfword (h : Reading init off n k io) (hcr : io.CR &&& cmdRead ≠ 0)
    (hdcr : init.DCR &&& 1 ≠ 0) (hk : k + 2 ≤ n) (hend : off + n ≤ 0x4000) :
    (∃ u, Reading init off n (k + 2) u ∧ u.CR = io.CR ∧ u.ISR = io.ISR ∧
      (io.step .readHalfword).1 = u.readEnd) ∧
      (io.step .readHalfword).2 = init.sram (off + k + 1) ++ init.sram (off + k) := by
  have hoff := h.offset
  have hcount := h.count
  have hadd : (io.remote_read_offset + 1).toNat = off + k + 1 :=
    (toNat_add_small (k := 1) (by omega)).trans (by omega)
  have hstep : io.step .readHalfword = io.remoteReadHalfword := by
    show io.readHalfword = _
    rw [readHalfword, if_pos (h.dcr ▸ hdcr)]
  rw [hstep, remoteReadHalfword, if_pos hcr]
  refine ⟨⟨{ io with
      remote_read_offset := io.remote_read_offset + 2
      remote_read_count := io.remote_read_count - 2
      used := io.used ++ [io.remote_read_offset.toNat, (io.remote_read_offset + 1).toNat] },
    ⟨h.dcr, h.sram, ?_, ?_⟩, rfl, rfl, rfl⟩, ?_⟩
  · exact (toNat_add_small (k := 2) (by omega)).trans (by omega)
  · exact (toNat_sub_small (k := 2) (by omega)).trans (by omega)
  · show (io.sram (io.remote_read_offset + 1).toNat ++ io.sram io.remote_read_offset.toNat :
      BitVec 16) = _
    rw [h.sram, hoff, hadd]

/-! ## All accesses -/

variable {mode : Mode} {i : Nat}

theorem width_pos (mode : Mode) : 0 < mode.width := by cases mode <;> decide

theorem Writing.step (h : Writing init f off n (i * mode.width) io) (hcr : io.CR &&& cmdWrite ≠ 0)
    (hdcr : mode = .halfword → init.DCR &&& 1 ≠ 0) (hi : (i + 1) * mode.width ≤ n)
    (hend : off + n ≤ 0x4000) :
    ∃ u, Writing init f off n ((i + 1) * mode.width) u ∧ u.CR = io.CR ∧ u.ISR = io.ISR ∧
      (io.step (writeAccess f mode i)).1 = u.writeEnd := by
  cases mode with
  | byte =>
    simp only [Mode.width, Nat.mul_one] at h hi ⊢
    exact h.byte hcr hi hend
  | halfword =>
    simp only [Mode.width, Nat.succ_mul] at h hi ⊢
    rw [writeAccess, Nat.mul_comm 2 i]
    exact h.halfword hcr (hdcr rfl) hi hend

theorem writing_succ (io : DmaIo) (f : Nat → Byte) (mode : Mode) (i : Nat) :
    io.writing f mode (i + 1) = ((io.writing f mode i).step (writeAccess f mode i)).1 := by
  rw [writing, List.range_succ, List.map_append, run, List.foldl_append]
  rfl

theorem reading_succ (io : DmaIo) (mode : Mode) (i : Nat) :
    io.reading mode (i + 1) = ((io.reading mode i).step (readAccess mode)).1 := by
  rw [reading, List.replicate_succ', run, List.foldl_append]
  rfl

/-- Until the last byte the command goes on. -/
theorem writing_going (h : Writing init f off n 0 init) (hcr : init.CR &&& cmdWrite ≠ 0)
    (hdcr : mode = .halfword → init.DCR &&& 1 ≠ 0) (hend : off + n ≤ 0x4000) (i : Nat) :
    i * mode.width < n → Writing init f off n (i * mode.width) (init.writing f mode i) ∧
      (init.writing f mode i).CR = init.CR ∧ (init.writing f mode i).ISR = init.ISR := by
  induction i with
  | zero =>
    intro _
    rw [Nat.zero_mul]
    exact ⟨h, rfl, rfl⟩
  | succ i ih =>
    intro hi
    have hlt : i * mode.width < n := Nat.lt_of_le_of_lt (Nat.mul_le_mul_right _ (by omega)) hi
    obtain ⟨hw, hcr', hisr'⟩ := ih hlt
    obtain ⟨u, hu, hucr, huisr, hstep⟩ := hw.step (hcr' ▸ hcr) hdcr (Nat.le_of_lt hi) hend
    have hne : u.remote_write_count.toNat ≠ 0 := by
      rw [hu.count]
      omega
    rw [writing_succ, hstep, writeEnd_of_ne hne]
    exact ⟨hu, hucr.trans hcr', huisr.trans hisr'⟩

/-- A count that is a number of accesses is counted down to zero. -/
theorem write_completes (h : Writing init f off n 0 init) (hcr : init.CR &&& cmdWrite ≠ 0)
    (hdcr : mode = .halfword → init.DCR &&& 1 ≠ 0) (hend : off + n ≤ 0x4000) {m : Nat}
    (hm : m * mode.width = n) (hpos : 0 < n) :
    CompletesAt cmdWrite (init.writing f mode) m ∧
      ∃ u, Writing init f off n n u ∧ init.writing f mode m = u.complete cmdWrite := by
  have hw := width_pos mode
  obtain ⟨k, rfl⟩ : ∃ k, m = k + 1 := ⟨m - 1, by
    have hm0 : m ≠ 0 := by
      rintro rfl
      omega
    omega⟩
  have hk : k * mode.width < n := by
    rw [← hm, Nat.succ_mul]
    omega
  obtain ⟨hwr, hcr', hisr'⟩ := writing_going h hcr hdcr hend k hk
  obtain ⟨u, hu, hucr, huisr, hstep⟩ := hwr.step (hcr' ▸ hcr) hdcr (Nat.le_of_eq hm) hend
  have hzero : u.remote_write_count.toNat = 0 := by
    rw [hu.count]
    omega
  have hlast : init.writing f mode (k + 1) = u.complete cmdWrite := by
    rw [writing_succ, hstep, writeEnd_of_eq hzero]
  refine ⟨⟨fun j hj => ?_, ?_, ?_⟩, u, hm ▸ hu, hlast⟩
  · have hjn : j * mode.width < n :=
      Nat.lt_of_le_of_lt (Nat.mul_le_mul_right _ (by omega)) hk
    exact (writing_going h hcr hdcr hend j hjn).2
  · rw [hlast]
    show (u.CR &&& ~~~cmdWrite) ||| cmdNodma = (init.CR &&& ~~~cmdWrite) ||| cmdNodma
    rw [hucr, hcr']
  · rw [hlast]
    show u.ISR ||| isrRdc = init.ISR ||| isrRdc
    rw [huisr, hisr']

/-- An odd count of halfwords is counted past zero, and the command goes on. -/
theorem write_odd (h : Writing init f off n 0 init) (hcr : init.CR &&& cmdWrite ≠ 0)
    (hdcr : init.DCR &&& 1 ≠ 0) (hend : off + n ≤ 0x4000) (hodd : n % 2 = 1) :
    ¬ CompletesAt cmdWrite (init.writing f .halfword) (Mode.halfword.accesses n) := by
  intro hc
  have hm : Mode.halfword.accesses n = n / 2 + 1 := by
    simp only [Mode.accesses, Mode.width]
    omega
  have hlt : n / 2 * Mode.halfword.width < n := by
    simp only [Mode.width]
    omega
  obtain ⟨hw, hcr', -⟩ := writing_going h hcr (fun _ => hdcr) hend (n / 2) hlt
  have hcount := hw.count
  simp only [Mode.width] at hcount
  have hlast := hc.cr
  rw [hm, writing_succ, writeAccess,
    halfword_past (hcr' ▸ hcr) (by omega) (f (2 * (n / 2) + 1) ++ f (2 * (n / 2))), hcr'] at hlast
  -- The command would have been cleared, but its bit is still there.
  have hbit : ∀ x : Byte, x &&& cmdWrite ≠ 0 → x ≠ (x &&& ~~~cmdWrite) ||| cmdNodma := by
    decide +kernel
  exact hbit _ hcr hlast

theorem Reading.step (h : Reading init off n (i * mode.width) io) (hcr : io.CR &&& cmdRead ≠ 0)
    (hdcr : mode = .halfword → init.DCR &&& 1 ≠ 0) (hi : (i + 1) * mode.width ≤ n)
    (hend : off + n ≤ 0x4000) :
    (∃ u, Reading init off n ((i + 1) * mode.width) u ∧ u.CR = io.CR ∧ u.ISR = io.ISR ∧
      (io.step (readAccess mode)).1 = u.readEnd) ∧
      ∀ j < mode.width, ((io.step (readAccess mode)).2 >>> (8 * j)).setWidth 8 =
        init.sram (off + (i * mode.width + j)) := by
  cases mode with
  | byte =>
    simp only [Mode.width, Nat.mul_one] at h hi ⊢
    obtain ⟨hu, hdata⟩ := h.byte hcr hi hend
    refine ⟨hu, fun j hj => ?_⟩
    obtain rfl : j = 0 := by omega
    rw [readAccess, hdata]
    refine BitVec.eq_of_getLsbD_eq fun k hk => ?_
    simp only [Nat.mul_zero, BitVec.ushiftRight_zero, BitVec.getLsbD_setWidth, decide_eq_true hk,
      decide_eq_true (by omega : k < 16), Bool.true_and, Nat.add_zero]
  | halfword =>
    simp only [Mode.width, Nat.succ_mul] at h hi ⊢
    obtain ⟨hu, hdata⟩ := h.halfword hcr (hdcr rfl) hi hend
    refine ⟨hu, fun j hj => ?_⟩
    rw [readAccess, hdata]
    obtain rfl | rfl : j = 0 ∨ j = 1 := by omega
    · exact low_append _ _
    · exact high_append _ _

theorem reading_going (h : Reading init off n 0 init) (hcr : init.CR &&& cmdRead ≠ 0)
    (hdcr : mode = .halfword → init.DCR &&& 1 ≠ 0) (hend : off + n ≤ 0x4000) (i : Nat) :
    i * mode.width < n → Reading init off n (i * mode.width) (init.reading mode i) ∧
      (init.reading mode i).CR = init.CR ∧ (init.reading mode i).ISR = init.ISR := by
  induction i with
  | zero =>
    intro _
    rw [Nat.zero_mul]
    exact ⟨h, rfl, rfl⟩
  | succ i ih =>
    intro hi
    have hlt : i * mode.width < n := Nat.lt_of_le_of_lt (Nat.mul_le_mul_right _ (by omega)) hi
    obtain ⟨hr, hcr', hisr'⟩ := ih hlt
    obtain ⟨⟨u, hu, hucr, huisr, hstep⟩, -⟩ := hr.step (hcr' ▸ hcr) hdcr (Nat.le_of_lt hi) hend
    have hne : u.remote_read_count.toNat ≠ 0 := by
      rw [hu.count]
      omega
    rw [reading_succ, hstep, readEnd_of_ne hne]
    exact ⟨hu, hucr.trans hcr', huisr.trans hisr'⟩

theorem read_completes (h : Reading init off n 0 init) (hcr : init.CR &&& cmdRead ≠ 0)
    (hdcr : mode = .halfword → init.DCR &&& 1 ≠ 0) (hend : off + n ≤ 0x4000) {m : Nat}
    (hm : m * mode.width = n) (hpos : 0 < n) :
    CompletesAt cmdRead (init.reading mode) m ∧
      ∀ j < n, init.byteRead mode j = init.sram (off + j) := by
  have hw := width_pos mode
  obtain ⟨k, rfl⟩ : ∃ k, m = k + 1 := ⟨m - 1, by
    have hm0 : m ≠ 0 := by
      rintro rfl
      omega
    omega⟩
  have hk : k * mode.width < n := by
    rw [← hm, Nat.succ_mul]
    omega
  obtain ⟨hrd, hcr', hisr'⟩ := reading_going h hcr hdcr hend k hk
  obtain ⟨⟨u, hu, hucr, huisr, hstep⟩, -⟩ := hrd.step (hcr' ▸ hcr) hdcr (Nat.le_of_eq hm) hend
  have hzero : u.remote_read_count.toNat = 0 := by
    rw [hu.count]
    omega
  have hlast : init.reading mode (k + 1) = u.complete cmdRead := by
    rw [reading_succ, hstep, readEnd_of_eq hzero]
  refine ⟨⟨fun j hj => ?_, ?_, ?_⟩, fun j hj => ?_⟩
  · have hjn : j * mode.width < n :=
      Nat.lt_of_le_of_lt (Nat.mul_le_mul_right _ (by omega)) hk
    exact (reading_going h hcr hdcr hend j hjn).2
  · rw [hlast]
    show (u.CR &&& ~~~cmdRead) ||| cmdNodma = (init.CR &&& ~~~cmdRead) ||| cmdNodma
    rw [hucr, hcr']
  · rw [hlast]
    show u.ISR ||| isrRdc = init.ISR ||| isrRdc
    rw [huisr, hisr']
  · have hdiv : j / mode.width * mode.width ≤ j := Nat.div_mul_le_self j mode.width
    have hmod : j / mode.width * mode.width + j % mode.width = j := by
      rw [Nat.mul_comm]
      exact Nat.div_add_mod j mode.width
    have hle : (j / mode.width + 1) * mode.width ≤ n := by
      have hjm : j / mode.width < k + 1 := (Nat.div_lt_iff_lt_mul hw).mpr (hm ▸ hj)
      exact hm ▸ Nat.mul_le_mul_right _ hjm
    obtain ⟨hr, hcrj, -⟩ := reading_going h hcr hdcr hend (j / mode.width) (by omega)
    have hbyte := (hr.step (hcrj ▸ hcr) hdcr hle hend).2 (j % mode.width) (Nat.mod_lt _ hw)
    rw [hmod] at hbyte
    exact hbyte

/-! ## The commands -/

theorem rbcr_lt (io : DmaIo) : io.rbcr.toNat < 2 ^ 16 := by
  rw [rbcr, BitVec.toNat_setWidth]
  exact Nat.lt_of_le_of_lt (Nat.mod_le _ _) (io.RBCR1 ++ io.RBCR0).isLt

theorem and_ffff {x : BitVec 32} (h : x.toNat < 2 ^ 16) : x &&& 0xffff = x := by
  apply BitVec.eq_of_toNat_eq
  rw [BitVec.toNat_and]
  exact (Nat.and_two_pow_sub_one_eq_mod x.toNat 16).trans (Nat.mod_eq_of_lt h)

/-- What the commands leave alone. -/
structure SameRegs (io u : DmaIo) : Prop where
  dcr : u.DCR = io.DCR
  rsar : u.rsar = io.rsar
  rbcr : u.rbcr = io.rbcr
  sram : u.sram = io.sram

/-- The three parts of `write_cr`, of which the middle one may be left out. -/
theorem sameRegs_parts (io : DmaIo) (sent : Bool) (p q : Prop) [Decidable p] [Decidable q] :
    SameRegs io (if q then (if p then io.xmit sent else io).startRead
      else if p then io.xmit sent else io) := by
  by_cases hq : q
  · rw [if_pos hq]
    by_cases hp : p
    · rw [if_pos hp]
      exact ⟨rfl, rfl, rfl, rfl⟩
    · rw [if_neg hp]
      exact ⟨rfl, rfl, rfl, rfl⟩
  · rw [if_neg hq]
    by_cases hp : p
    · rw [if_pos hp]
      exact ⟨rfl, rfl, rfl, rfl⟩
    · rw [if_neg hp]
      exact ⟨rfl, rfl, rfl, rfl⟩

theorem writeCr_of_write {data : Byte} (hd : IsWrite data) (io : DmaIo) (sent : Bool) :
    ∃ u, SameRegs io u ∧ io.writeCr data sent = { u.startWrite with CR := data } := by
  have h38 : data &&& 0x38 ≠ 0 := by
    have h : ∀ d : Byte, d &&& cmdWrite ≠ 0 → d &&& 0x38 ≠ 0 := by decide +kernel
    exact h data hd.1
  have hw : data &&& cmdWrite ≠ 0 ∧ data &&& cmdRun ≠ 0 ∧ data &&& cmdNodma = 0 := hd
  refine ⟨_, sameRegs_parts io sent (data &&& cmdXmit ≠ 0)
    (data &&& cmdRead ≠ 0 ∧ data &&& cmdRun ≠ 0), ?_⟩
  unfold writeCr
  rw [if_neg h38]
  simp only [if_pos hw]

theorem writeCr_of_read {data : Byte} (hd : IsRead data) (io : DmaIo) (sent : Bool) :
    ∃ u, SameRegs io u ∧ io.writeCr data sent =
      { (if data &&& cmdWrite ≠ 0 ∧ data &&& cmdRun ≠ 0 ∧ data &&& cmdNodma = 0 then
          u.startRead.startWrite else u.startRead) with CR := data } := by
  have h38 : data &&& 0x38 ≠ 0 := by
    have h : ∀ d : Byte, d &&& cmdRead ≠ 0 → d &&& 0x38 ≠ 0 := by decide +kernel
    exact h data hd.1
  have hr : data &&& cmdRead ≠ 0 ∧ data &&& cmdRun ≠ 0 := hd
  refine ⟨_, sameRegs_parts io sent (data &&& cmdXmit ≠ 0) False, ?_⟩
  unfold writeCr
  rw [if_neg h38]
  simp only [if_pos hr, if_false]

theorem writing_start {io : DmaIo} (ha : Asks io mode n) {data : Byte} (hd : IsWrite data)
    (sent : Bool) :
    Writing (io.writeCr data sent) f (io.rsar.toNat - 0x4000) n 0 (io.writeCr data sent) ∧
      (io.writeCr data sent).CR = data ∧ SameRegs io (io.writeCr data sent) := by
  obtain ⟨u, hsame, hu⟩ := writeCr_of_write hd io sent
  have hoff : (u.rsar - BitVec.ofNat 32 0x4000).toNat = io.rsar.toNat - 0x4000 := by
    rw [hsame.rsar]
    exact toNat_sub_small ha.start_le
  have hcount : (u.rbcr &&& 0xffff).toNat = n := by
    rw [and_ffff (rbcr_lt u), hsame.rbcr, ha.count]
  rw [hu]
  exact ⟨⟨rfl, rfl, rfl, hoff.trans (Nat.add_zero _).symm, hcount,
      fun j hj => absurd hj (by omega)⟩,
    rfl,
    ⟨hsame.dcr, hsame.rsar, hsame.rbcr, hsame.sram⟩⟩

theorem reading_start {io : DmaIo} (ha : Asks io mode n) {data : Byte} (hd : IsRead data)
    (sent : Bool) :
    Reading (io.writeCr data sent) (io.rsar.toNat - 0x4000) n 0 (io.writeCr data sent) ∧
      (io.writeCr data sent).CR = data ∧ SameRegs io (io.writeCr data sent) := by
  obtain ⟨u, hsame, hu⟩ := writeCr_of_read hd io sent
  have hend := ha.le_end
  have hoff : ((u.rsar - BitVec.ofNat 32 0x4000) &&& 0xffff).toNat = io.rsar.toNat - 0x4000 := by
    have hsub : (io.rsar - BitVec.ofNat 32 0x4000).toNat = io.rsar.toNat - 0x4000 :=
      toNat_sub_small ha.start_le
    rw [hsame.rsar, and_ffff (by omega), hsub]
  have hcount : u.rbcr.toNat = n := by rw [hsame.rbcr, ha.count]
  rw [hu]
  split <;> exact ⟨⟨rfl, rfl, hoff.trans (Nat.add_zero _).symm, hcount⟩, rfl,
    ⟨hsame.dcr, hsame.rsar, hsame.rbcr, hsame.sram⟩⟩

end DmaIo

/-! ## Both parts -/

open DmaIo

/-- What is written comes back, unless the count of halfwords is odd. -/
theorem roundTrip_iff {io : DmaIo} {mode : Mode} {n : Nat} (ha : Asks io mode n)
    {data data' : Byte} (hd : IsWrite data) (hd' : IsRead data') (sent sent' : Bool)
    (f : Nat → Byte) :
    RoundTrip io data data' sent sent' f mode n ↔ (mode = .halfword → n % 2 = 0) := by
  obtain ⟨hw, hcr, hsame⟩ := writing_start (f := f) ha hd sent
  have hend : io.rsar.toNat - 0x4000 + n ≤ 0x4000 := by
    have := ha.start_le
    have := ha.le_end
    omega
  have hdcr : mode = .halfword → (io.writeCr data sent).DCR &&& 1 ≠ 0 :=
    fun h => hsame.dcr ▸ ha.halfword h
  have hcr1 : (io.writeCr data sent).CR &&& cmdWrite ≠ 0 := by
    rw [hcr]
    exact hd.1
  constructor
  · rintro htrip rfl
    by_contra hodd
    exact write_odd hw hcr1 (hdcr rfl) hend (by omega) htrip.write
  · intro heven
    have hm : mode.accesses n * mode.width = n := by
      cases mode with
      | byte =>
        simp only [Mode.accesses, Mode.width]
        omega
      | halfword =>
        have h := heven rfl
        simp only [Mode.accesses, Mode.width]
        omega
    obtain ⟨hwrite, u, hu, hlast⟩ := write_completes hw hcr1 hdcr hend hm ha.pos
    have ha' : Asks (u.complete cmdWrite) mode n := by
      have hrsar : (u.complete cmdWrite).rsar = io.rsar := hu.rsar.trans hsame.rsar
      have hrbcr : (u.complete cmdWrite).rbcr = io.rbcr := hu.rbcr.trans hsame.rbcr
      refine ⟨ha.pos, hrsar ▸ ha.start_le, hrsar ▸ ha.le_end, hrbcr ▸ ha.count, fun h => ?_⟩
      show u.DCR &&& 1 ≠ 0
      rw [hu.dcr]
      exact hdcr h
    obtain ⟨hr, hcr', hsame'⟩ := reading_start ha' hd' sent'
    have hrsar : (u.complete cmdWrite).rsar = io.rsar := hu.rsar.trans hsame.rsar
    rw [hrsar] at hr
    have hcr2 : ((u.complete cmdWrite).writeCr data' sent').CR &&& cmdRead ≠ 0 := by
      rw [hcr']
      exact hd'.1
    obtain ⟨hread, hbytes⟩ := read_completes hr hcr2
      (fun h => hsame'.dcr ▸ ha'.halfword h) hend hm ha.pos
    refine ⟨hwrite, hlast ▸ hread, fun j hj => ?_⟩
    rw [hlast, hbytes j hj, hsame'.sram]
    exact hu.stored j hj

/-- From the reset chip on, every index of `sram` lies in it just when the accesses are ones
that may be made; and what is written comes back, in bytes and in even counts of halfwords. -/
theorem dma_meets (io : DmaIo) (hio : io.used = []) :
    (∀ accesses : List Access,
      (∀ i ∈ (io.reset.run accesses).used, i < sramSize) ↔ RunOk io.reset accesses) ∧
      ∀ (accesses : List Access) (mode : Mode) (n : Nat), Asks (io.reset.run accesses) mode n →
        ∀ (data data' : Byte), IsWrite data → IsRead data' →
          ∀ (sent sent' : Bool) (f : Nat → Byte),
            RoundTrip (io.reset.run accesses) data data' sent sent' f mode n ↔
              (mode = .halfword → n % 2 = 0) := by
  constructor
  · intro accesses
    have hused : io.reset.InSram := by
      intro i hi
      rw [show io.reset.used = [] from hio] at hi
      cases hi
    exact (run_inSram accesses io.reset).trans (and_iff_right hused)
  · intro accesses mode n ha data data' hd hd' sent sent' f
    exact roundTrip_iff ha hd hd' sent sent' f

/-! ## On a chip that was just set up -/

/-- What `net_rtl8019_setup` resets. -/
def blank : DmaIo where
  CR := 0
  PSTART := 0
  PSTOP := 0
  BNRY := 0
  ISR := 0
  RSR := 0
  TCR := 0
  IMR := 0
  CURR := 0
  sram _ := 0
  need_update := false
  intr := 0
  TPSR := 0
  TSR := 0
  TBCR0 := 0
  TBCR1 := 0
  RSAR0 := 0
  RSAR1 := 0
  RBCR0 := 0
  RBCR1 := 0
  RCR := 0
  DCR := 0
  remote_read_offset := 0
  remote_write_offset := 0
  remote_read_count := 0
  remote_write_count := 0
  used := []

/-- `count` bytes from 0x4000 on, in halfwords. -/
def askFor (count : Byte) : List Access :=
  [.writeByte 0x08 0x00 true, .writeByte 0x09 0x40 true, .writeByte 0x0a count true,
    .writeByte 0x0b 0x00 true, .writeByte 0x0e 0x01 true]

/-- Two bytes in a halfword. -/
theorem dma_meets_two :
    RoundTrip (blank.reset.run (askFor 2)) 0x12 0x0a true true (fun j => BitVec.ofNat 8 j)
      .halfword 2 := by
  have ha : Asks (blank.reset.run (askFor 2)) .halfword 2 :=
    ⟨by decide, by decide, by decide, by decide, fun _ => by decide⟩
  have h := (dma_meets blank rfl).2 (askFor 2) .halfword 2 ha 0x12 0x0a
    ⟨by decide, by decide, by decide⟩ ⟨by decide, by decide⟩ true true fun j => BitVec.ofNat 8 j
  exact h.mpr fun _ => by decide

/-- A remote read from page 0, which is no page of the packet memory. -/
def readPage0 : List Access := [.writeByte 0x00 0x0a true, .readByte]

/-- A halfword written at 0x3FFF. -/
def writeBelow : List Access :=
  [.writeByte 0x08 0xff true, .writeByte 0x09 0x3f true, .writeByte 0x0e 0x01 true,
    .writeByte 0x00 0x12 true, .writeHalfword 0x10 0]

/-- A packet sent from page 0. -/
def sendPage0 : List Access :=
  [.writeByte 0x05 0x01 true, .writeByte 0x00 0x22 true, .writeByte 0x00 0x26 true]

/-- All three use indices outside; and one byte in a halfword never ends the command. -/
theorem dma_outside :
    (∀ accesses ∈ [readPage0, writeBelow, sendPage0],
      ¬ ∀ i ∈ (blank.reset.run accesses).used, i < sramSize) ∧
      (blank.reset.run readPage0).used = [0xC000] ∧
      (blank.reset.run writeBelow).used = [0xFFFFFFFF, 0] ∧
      (blank.reset.run sendPage0).used = [0xC000] ∧
      ¬ RoundTrip (blank.reset.run (askFor 1)) 0x12 0x0a true true (fun _ => 0) .halfword 1 := by
  refine ⟨by decide, by decide, by decide, by decide, fun h => ?_⟩
  have ha : Asks (blank.reset.run (askFor 1)) .halfword 1 :=
    ⟨by decide, by decide, by decide, by decide, fun _ => by decide⟩
  have heven := (roundTrip_iff ha ⟨by decide, by decide, by decide⟩ ⟨by decide, by decide⟩ true true
    _).mp h rfl
  exact absurd heven (by decide)

end SkyEye.Rtl8019
