import SkyEye.Flash.Protection

/-!
# The indices of the Intel 28F128

`ISLOCKED` and `SECTOR_ADDR` shift guest addresses, and the array of locks has an entry for each
sector of the chip. What a run looks up there, and in the program buffer, for a device at any
base.
-/

namespace SkyEye.Flash.Intel

/-- A read (of a byte, halfword or word) or a write of a word. -/
inductive Access where
  | read (addr : ARMword)
  | write (addr data : ARMword)

def Access.addr : Access → ARMword
  | .read addr | .write addr _ => addr

/-- An index into `io->lock`, and the address that it is looked up for. -/
structure Lookup where
  index : Nat
  address : ARMword

section

variable (io : Intel)

/-- What an access leaves. -/
def access : Access → Intel
  | .read _ => io
  | .write addr data => io.writeWord addr data

def accesses (accs : List Access) : Intel := accs.foldl access io

/-- The lock that `flash_intel_read_word` reads. -/
def readLookups (addr : ARMword) : List Lookup :=
  let temp := wordAddr addr &&& 1
  if io.readMode = .id ∧ temp ≠ 0 ∧ temp ≠ 1 ∧ (addr &&& 0x3ffff) >>> 2 = 2 then
    [⟨sectorAddr addr, addr⟩]
  else []

/-- The locks that `flash_intel_write_word` reads or sets, one by one. -/
def writeLookups (addr data : ARMword) : List Lookup :=
  match io.wsmMode with
  | .ready => []
  | .writeBuffer =>
    if io.pbCount ≠ 0 ∧ io.pbCount ≤ io.pbLoaded ∧ data &&& 0xff = confirm then
      [⟨sectorAddr io.progbufLatchAddr, io.progbufLatchAddr⟩]
    else []
  | .program => [⟨sectorAddr addr, addr⟩]
  | .blockErase =>
    if data &&& 0xff = confirm then [⟨sectorAddr (addr &&& 0xfffc0000), addr⟩] else []
  | .lockAccess =>
    if data &&& 0xff = 0x01 ∧ io.deviceSuspended = false ∧ io.vpen = true then
      [⟨sectorAddr addr, addr⟩]
    else []

def lookups : Access → List Lookup
  | .read addr => io.readLookups addr
  | .write addr data => io.writeLookups addr data

/-- The indices into `io->pb_buf`: all of it is set, one word is loaded, or the words are
programmed from `pb_start` on. -/
def bufferUses : Access → List Nat
  | .read _ => []
  | .write addr data =>
    match io.wsmMode with
    | .ready => if data &&& 0xff = 0xe8 then List.range writeBufferSize else []
    | .writeBuffer =>
      if io.pbCount = 0 then []
      else if io.pbLoaded < io.pbCount then
        if sectorAddr addr = sectorAddr io.progbufLatchAddr then
          [(bufferIndex (wordAddr addr)).toNat]
        else []
      else if data &&& 0xff = confirm then
        (List.range writeBufferSize).map fun k =>
          (bufferIndex (wordAddr io.pbStart + BitVec.ofNat 30 k)).toNat
      else []
    | _ => []

end

/-! ## What the indices should be -/

/-- An address of the device that is configured at `base`. -/
def InDevice (base addr : ARMword) : Prop :=
  base.toNat ≤ addr.toNat ∧ addr.toNat - base.toNat < 0x2000000

/-- The number of the sector of the device that contains the address. -/
def deviceSector (base addr : ARMword) : Nat := (addr.toNat - base.toNat) / 0x40000

/-- The indices of an access: in the arrays, of the right sector, and of a lock that clearing
all locks clears. -/
structure RightIndices (base : ARMword) (io : Intel) (acc : Access) : Prop where
  lock : ∀ u ∈ io.lookups acc, u.index < lockCount
  sector : ∀ u ∈ io.lookups acc, u.index = deviceSector base u.address
  cleared : ∀ u ∈ io.lookups acc, ∀ (io' : Intel) (addr : ARMword),
    io'.wsmMode = .lockAccess → io'.deviceSuspended = false → io'.vpen = true →
      (io'.writeWord addr confirm).lock u.index = 0
  buffer : ∀ i ∈ io.bufferUses acc, i < writeBufferSize

/-- Every lock is looked up for an address at least `base` bytes into its sector. -/
def LooksUpFrom (base : ARMword) (io : Intel) (acc : Access) : Prop :=
  ∀ u ∈ io.lookups acc, base.toNat ≤ u.address.toNat % 0x40000

/-! ## One access -/

section

variable {io : Intel} {base addr data : ARMword}

/-- One bit of the word address is left for the tests. -/
theorem wordAddr_low (addr : ARMword) : wordAddr addr &&& 1 = 0 ∨ wordAddr addr &&& 1 = 1 := by
  have hlow : (wordAddr addr &&& 1).toNat = (wordAddr addr).toNat % 2 :=
    Word.toNat_and_low _ 1 (by omega)
  rcases Nat.mod_two_eq_zero_or_one (wordAddr addr).toNat with h | h
  · exact .inl (BitVec.eq_of_toNat_eq (hlow.trans h))
  · exact .inr (BitVec.eq_of_toNat_eq (hlow.trans h))

theorem readLookups_eq (io : Intel) (addr : ARMword) : io.readLookups addr = [] := by
  refine if_neg ?_
  rintro ⟨-, h0, h1, -⟩
  rcases wordAddr_low addr with h | h
  · exact h0 h
  · exact h1 h

theorem toNat_sectorAddr (addr : ARMword) : sectorAddr addr = addr.toNat / 0x40000 := by
  rw [sectorAddr, BitVec.toNat_ushiftRight, Nat.shiftRight_eq_div_pow]

theorem lookup_index (acc : Access) :
    ∀ u ∈ io.lookups acc, u.index = sectorAddr u.address := by
  cases acc with
  | read addr =>
    intro u hu
    rw [lookups, readLookups_eq] at hu
    cases hu
  | write addr data =>
    intro u hu
    rw [lookups, writeLookups] at hu
    split at hu
    · cases hu
    · split at hu
      · rw [List.mem_singleton.mp hu]
      · cases hu
    · rw [List.mem_singleton.mp hu]
    · split at hu
      · rw [List.mem_singleton.mp hu]
        exact sectorAddr_latch addr
      · cases hu
    · split at hu
      · rw [List.mem_singleton.mp hu]
      · cases hu

/-- Of the sectors of the chip and of the guest. -/
theorem sectorAddr_right_iff (h : InDevice base addr) :
    (sectorAddr addr < lockCount ∧ sectorAddr addr = deviceSector base addr) ↔
      base.toNat ≤ addr.toNat % 0x40000 := by
  obtain ⟨hle, hlt⟩ := h
  have hcount : lockCount = 128 := rfl
  rw [toNat_sectorAddr, deviceSector, hcount]
  omega

theorem lock_clear {i : Nat} (hi : i < lockCount) (hmode : io.wsmMode = .lockAccess)
    (hs : io.deviceSuspended = false) (hv : io.vpen = true) :
    (io.writeWord addr confirm).lock i = 0 := by
  have hs' : (io.programSuspended || io.progbufSuspended || io.eraseSuspended) = false := hs
  have hcase : io.writeWord addr confirm = io.lockAccess addr confirm := by
    rw [writeWord, hmode]
  rw [hcase, lockAccess, if_neg (show ¬confirm &&& 0xff = 0x01 by decide),
    if_pos (show confirm &&& 0xff = confirm by decide)]
  unfold deviceSuspended
  dsimp only
  rw [if_neg (by rw [hs']; exact Bool.false_ne_true), if_neg (by rw [hv]; decide)]
  exact if_pos hi

theorem bufferIndex_lt (w : Word) : (bufferIndex w).toNat < writeBufferSize :=
  Word.toNat_and_low_lt w 4 (by decide)

/-- Every index into the program buffer is in it. -/
theorem bufferUses_lt (io : Intel) (acc : Access) :
    ∀ i ∈ io.bufferUses acc, i < writeBufferSize := by
  intro i hi
  cases acc with
  | read addr => cases hi
  | write addr data =>
    rw [bufferUses] at hi
    split at hi
    · split at hi
      · exact List.mem_range.mp hi
      · cases hi
    · split at hi
      · cases hi
      · split at hi
        · split at hi
          · rw [List.mem_singleton.mp hi]
            exact bufferIndex_lt _
          · cases hi
        · split at hi
          · obtain ⟨k, -, rfl⟩ := List.mem_map.mp hi
            exact bufferIndex_lt _
          · cases hi
    · cases hi

/-- An access has the right indices exactly if its lookups are far enough into their sectors. -/
theorem rightIndices_iff {acc : Access} (h : ∀ u ∈ io.lookups acc, InDevice base u.address) :
    RightIndices base io acc ↔ LooksUpFrom base io acc := by
  constructor
  · intro hr u hu
    have hidx := lookup_index acc u hu
    refine (sectorAddr_right_iff (h u hu)).mp ⟨?_, ?_⟩
    · exact hidx ▸ hr.lock u hu
    · exact hidx ▸ hr.sector u hu
  · intro hl
    have hright : ∀ u ∈ io.lookups acc, u.index < lockCount ∧
        u.index = deviceSector base u.address := fun u hu => by
      rw [lookup_index acc u hu]
      exact (sectorAddr_right_iff (h u hu)).mpr (hl u hu)
    exact ⟨fun u hu => (hright u hu).1, fun u hu => (hright u hu).2,
      fun u hu io' addr hm hs hv => lock_clear (hright u hu).1 hm hs hv, bufferUses_lt io acc⟩

/-! ## Runs -/

/-- A buffer program that has a count was begun at an address of the device. -/
def LatchInDevice (base : ARMword) (io : Intel) : Prop :=
  io.wsmMode = .writeBuffer → io.pbCount ≠ 0 → InDevice base io.progbufLatchAddr

theorem latch_of_mode (h : io.wsmMode ≠ .writeBuffer) : LatchInDevice base io :=
  fun hm => absurd hm h

theorem latch_ite {c : Prop} [Decidable c] {io io' : Intel} (h : LatchInDevice base io)
    (h' : LatchInDevice base io') : LatchInDevice base (if c then io else io') := by
  split
  · exact h
  · exact h'

theorem latch_initWsm (hmode : io.wsmMode = .ready) (data : ARMword) :
    LatchInDevice base (io.initWsm data) := by
  have hkeep : ∀ io' : Intel, io'.wsmMode = io.wsmMode → LatchInDevice base io' :=
    fun io' h => latch_of_mode (by rw [h, hmode]; decide)
  have hresume : io.resume.wsmMode = io.wsmMode := by
    unfold resume
    split
    · rfl
    · split
      · rfl
      · split <;> rfl
  unfold initWsm
  dsimp only
  iterate 5 refine latch_ite (hkeep _ rfl) ?_
  refine latch_ite (latch_of_mode (show WsmMode.program ≠ .writeBuffer by decide)) ?_
  refine latch_ite (fun _ h => absurd rfl h) ?_
  refine latch_ite (latch_of_mode (show WsmMode.blockErase ≠ .writeBuffer by decide)) ?_
  refine latch_ite (hkeep _ rfl) ?_
  refine latch_ite (hkeep _ hresume) ?_
  exact latch_ite (latch_of_mode (show WsmMode.lockAccess ≠ .writeBuffer by decide)) (hkeep _ rfl)

theorem latch_bufferCount (h : InDevice base addr) :
    LatchInDevice base (io.bufferCount addr data) := by
  unfold bufferCount
  dsimp only
  refine latch_ite (latch_of_mode (show WsmMode.ready ≠ .writeBuffer by decide)) ?_
  refine latch_ite (latch_of_mode (show WsmMode.ready ≠ .writeBuffer by decide)) ?_
  exact fun _ _ => h

theorem latch_bufferLoad (hmode : io.wsmMode = .writeBuffer) (hcount : io.pbCount ≠ 0)
    (h : LatchInDevice base io) : LatchInDevice base (io.bufferLoad addr data) := by
  unfold bufferLoad
  refine latch_ite (latch_of_mode (show WsmMode.ready ≠ .writeBuffer by decide)) ?_
  exact fun _ _ => h hmode hcount

theorem mode_done (io : Intel) (addr data : ARMword) :
    (io.bufferConfirm data).wsmMode = .ready ∧ (io.program addr data).wsmMode = .ready ∧
      (io.blockErase addr data).wsmMode = .ready ∧
      (io.lockAccess addr data).wsmMode = .ready := by
  unfold bufferConfirm program blockErase lockAccess failSequence
  dsimp only
  refine ⟨?_, ?_, ?_, ?_⟩ <;> (repeat' split) <;> rfl

theorem LatchInDevice.access (h : LatchInDevice base io) {acc : Access}
    (ha : InDevice base acc.addr) : LatchInDevice base (io.access acc) := by
  cases acc with
  | read addr => exact h
  | write addr data =>
    have hdone : ∀ io' : Intel, io'.wsmMode = .ready → LatchInDevice base io' :=
      fun io' h => latch_of_mode (by rw [h]; decide)
    obtain ⟨hc, hp, he, hl⟩ := mode_done io addr data
    show LatchInDevice base (io.writeWord addr data)
    unfold writeWord
    cases hmode : io.wsmMode with
    | ready => exact latch_initWsm hmode data
    | writeBuffer =>
      dsimp only
      split
      · exact latch_bufferCount ha
      · split
        · exact latch_bufferLoad hmode ‹_› h
        · exact hdone _ hc
    | program => exact hdone _ hp
    | blockErase => exact hdone _ he
    | lockAccess => exact hdone _ hl

theorem LatchInDevice.accesses (h : LatchInDevice base io) {accs : List Access}
    (ha : ∀ acc ∈ accs, InDevice base acc.addr) : LatchInDevice base (io.accesses accs) := by
  induction accs generalizing io with
  | nil => exact h
  | cons acc accs ih =>
    exact ih (h.access (ha acc List.mem_cons_self)) fun a hm => ha a (List.mem_cons_of_mem _ hm)

theorem LatchInDevice.lookups (h : LatchInDevice base io) {acc : Access}
    (ha : InDevice base acc.addr) : ∀ u ∈ io.lookups acc, InDevice base u.address := by
  intro u hu
  cases acc with
  | read addr =>
    rw [Intel.lookups, readLookups_eq] at hu
    cases hu
  | write addr data =>
    rw [Intel.lookups, writeLookups] at hu
    split at hu
    · cases hu
    · rename_i hmode
      split at hu
      · rename_i hc
        rw [List.mem_singleton.mp hu]
        exact h hmode hc.1
      · cases hu
    · rw [List.mem_singleton.mp hu]
      exact ha
    · split at hu
      · rw [List.mem_singleton.mp hu]
        exact ha
      · cases hu
    · split at hu
      · rw [List.mem_singleton.mp hu]
        exact ha
      · cases hu

end

/-- Two writes that look up the lock of an address. -/
def programAt (addr : ARMword) : List Access := [.write addr 0x40, .write addr 0]

theorem programAt_lookups (io : Intel) (addr : ARMword) :
    (io.reset.accesses [.write addr 0x40]).lookups (.write addr 0) =
      [⟨sectorAddr addr, addr⟩] := rfl

/-- In a run of accesses to a device at `base`, all indices are right exactly if every lock is
looked up for an address at least `base` bytes into its sector. So they are right in every run
exactly if the device is at 0. -/
theorem indices_right_iff (base : ARMword) (io : Intel) :
    (∀ accs : List Access, (∀ acc ∈ accs, InDevice base acc.addr) →
      ((∀ pre acc post, accs = pre ++ acc :: post →
        RightIndices base (io.reset.accesses pre) acc) ↔
      ∀ pre acc post, accs = pre ++ acc :: post →
        LooksUpFrom base (io.reset.accesses pre) acc)) ∧
    ((∀ accs : List Access, (∀ acc ∈ accs, InDevice base acc.addr) →
      ∀ pre acc post, accs = pre ++ acc :: post →
        RightIndices base (io.reset.accesses pre) acc) ↔ base = 0) := by
  have hstep : ∀ accs : List Access, (∀ acc ∈ accs, InDevice base acc.addr) →
      ∀ pre acc post, accs = pre ++ acc :: post →
      (RightIndices base (io.reset.accesses pre) acc ↔
        LooksUpFrom base (io.reset.accesses pre) acc) := by
    rintro accs ha pre acc post rfl
    have hlatch : LatchInDevice base (io.reset.accesses pre) :=
      (latch_of_mode (show WsmMode.ready ≠ .writeBuffer by decide)).accesses fun a hm =>
        ha a (List.mem_append_left _ hm)
    refine rightIndices_iff (hlatch.lookups (ha acc ?_))
    exact List.mem_append_right _ List.mem_cons_self
  refine ⟨fun accs ha => ?_, fun hall => ?_, ?_⟩
  · exact ⟨fun h pre acc post he => (hstep accs ha pre acc post he).mp (h pre acc post he),
      fun h pre acc post he => (hstep accs ha pre acc post he).mpr (h pre acc post he)⟩
  · -- a program at the base, or at the next sector if that is below
    by_contra hbase
    have hpos : base.toNat ≠ 0 := fun h => hbase (BitVec.eq_of_toNat_eq h)
    obtain ⟨addr, haddr, hlow⟩ : ∃ addr : ARMword, InDevice base addr ∧
        ¬base.toNat ≤ addr.toNat % 0x40000 := by
      by_cases hlt : base.toNat < 0x40000
      · refine ⟨0x40000, ⟨Nat.le_of_lt hlt, ?_⟩, ?_⟩
        · show 0x40000 - base.toNat < 0x2000000
          omega
        · show ¬base.toNat ≤ 0x40000 % 0x40000
          omega
      · exact ⟨base, ⟨Nat.le_refl _, by omega⟩, by omega⟩
    have ha : ∀ acc ∈ programAt addr, InDevice base acc.addr := by
      intro acc hm
      rcases List.mem_cons.mp hm with rfl | hm
      · exact haddr
      · rw [List.mem_singleton.mp hm]
        exact haddr
    have hr := (hstep _ ha [.write addr 0x40] (.write addr 0) [] rfl).mp (hall _ ha _ _ _ rfl)
    refine hlow (hr ⟨sectorAddr addr, addr⟩ ?_)
    rw [programAt_lookups]
    exact List.mem_singleton_self _
  · rintro rfl accs ha pre acc post he
    exact (hstep accs ha pre acc post he).mpr fun u _ => Nat.zero_le _

/-- The first sector of a device at 0x02000000 is locked: the lock is behind the array. -/
theorem lock_behind_array : ¬∀ (base : ARMword) (io : Intel) (accs : List Access),
    (∀ acc ∈ accs, InDevice base acc.addr) → ∀ pre acc post, accs = pre ++ acc :: post →
      RightIndices base (io.reset.accesses pre) acc := by
  intro hall
  have ha : ∀ acc ∈ [Access.write 0x02000000 0x60, .write 0x02000000 0x01],
      InDevice 0x02000000 acc.addr := by
    intro acc hm
    have haddr : acc.addr = 0x02000000 := by
      rcases List.mem_cons.mp hm with rfl | hm
      · rfl
      · rw [List.mem_singleton.mp hm]
        rfl
    rw [haddr]
    exact ⟨Nat.le_refl _, by decide⟩
  have hr := hall 0x02000000 blank _ ha [.write 0x02000000 0x60] (.write 0x02000000 0x01) [] rfl
  exact absurd (hr.lock ⟨128, 0x02000000⟩ (List.mem_singleton_self _)) (by decide)

end SkyEye.Flash.Intel
