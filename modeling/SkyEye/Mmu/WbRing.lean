import Mathlib.Data.Finset.Card
import Mathlib.Data.Finset.Dedup
import SkyEye.Mmu.Wb

/-!
# The ring of the write buffer

`wb.c` as it keeps its counters: entries are filled at `first` and written to memory at
`last`, byte by byte, and what reaches the bus is on record. The ring is a `RingBuffer`
(`Represents`), so that a store cut into pieces, with the oldest entry forced out for each
piece that finds no room, still comes out in order (`Holds`).
-/

namespace SkyEye.WbRing

/-- A byte that reaches memory. -/
abbrev ByteWrite := ARMword × BitVec 8

/-- Bytes at consecutive addresses. -/
def bytesFrom : ARMword → List (BitVec 8) → List ByteWrite
  | _, [] => []
  | pa, b :: bs => (pa, b) :: bytesFrom (pa + 1) bs

/-- `wb_entry_t`; `data` is the memory its pointer leads to. -/
structure Entry where
  pa : ARMword
  data : Nat → BitVec 8
  nb : Nat

/-- The loop of `bus_write` over an entry. -/
def Entry.writes (e : Entry) : List ByteWrite := bytesFrom e.pa ((List.range e.nb).map e.data)

/-- The counters and the entries of `wb_t`. -/
structure WbT where
  first : Nat
  last : Nat
  used : Nat
  entrys : Nat → Entry

/-- The buffer, the bytes written to memory so far, and, besides what the code keeps, the
entries filled and not yet written. -/
structure Machine where
  wb : WbT
  bus : List ByteWrite
  occupied : Finset Nat

/-- `mmu_wb_init`; `malloc` does not clear the entries. -/
def mmuWbInit (junk : Nat → Entry) : Machine := ⟨⟨0, 0, 0, junk⟩, [], ∅⟩

section
variable (d : WbDesc)

/-- `i++; if (i == num) i = 0;` -/
def bump (i : Nat) : Nat := if i + 1 = d.num then 0 else i + 1

/-- Write the entry at `last` to memory, as both functions do. -/
def drainOne (m : Machine) : Machine where
  wb := { m.wb with last := bump d m.wb.last, used := m.wb.used - 1 }
  bus := m.bus ++ (m.wb.entrys m.wb.last).writes
  occupied := m.occupied.erase m.wb.last

/-- Fill the entry at `first`; `memcpy` leaves the rest of its memory as it was. -/
def fill (m : Machine) (pa : ARMword) (bytes : List (BitVec 8)) : Machine where
  wb := { m.wb with
    first := bump d m.wb.first
    used := m.wb.used + 1
    entrys := Function.update m.wb.entrys m.wb.first
      ⟨pa, fun k => bytes.getD k ((m.wb.entrys m.wb.first).data k), bytes.length⟩ }
  bus := m.bus
  occupied := insert m.wb.first m.occupied

/-- `if (num == used)`: clean the last entry. -/
def makeRoom (m : Machine) : Machine := if d.num = m.wb.used then drainOne d m else m

/-- `i = (n < nb) ? n : nb` -/
def piece (n : Nat) : Nat := if n < d.nb then n else d.nb

/-- `mmu_wb_write_bytes`, with the `n` bytes at `data` -/
def mmuWbWriteBytes (m : Machine) (pa : ARMword) (data : List (BitVec 8)) : Machine :=
  if _h : data = [] then m
  else
    let i := piece d data.length
    mmuWbWriteBytes (fill d (makeRoom d m) pa (data.take i)) (pa + BitVec.ofNat 32 i)
      (data.drop i)
termination_by data.length
decreasing_by
  have h0 := List.length_pos_iff.mpr _h
  have h1 := d.nb_pos
  rw [List.length_drop, piece]
  split <;> omega

def mmuWbDrainAll (m : Machine) : Machine :=
  if _h : m.wb.used = 0 then m else mmuWbDrainAll (drainOne d m)
termination_by m.wb.used
decreasing_by exact Nat.sub_lt (Nat.pos_of_ne_zero _h) Nat.one_pos

/-- A call from outside. -/
inductive Op where
  | writeBytes (pa : ARMword) (data : List (BitVec 8))
  | drainAll

def step (m : Machine) : Op → Machine
  | .writeBytes pa data => mmuWbWriteBytes d m pa data
  | .drainAll => mmuWbDrainAll d m

def run (m : Machine) (ops : List Op) : Machine := ops.foldl (step d) m

end

/-- The bytes a call is given. -/
def Op.bytes : Op → List ByteWrite
  | .writeBytes pa data => bytesFrom pa data
  | .drainAll => []

variable {d : WbDesc}

/-! ## Bytes -/

theorem bytesFrom_append (pa : ARMword) (bs bs' : List (BitVec 8)) :
    bytesFrom pa (bs ++ bs') =
      bytesFrom pa bs ++ bytesFrom (pa + BitVec.ofNat 32 bs.length) bs' := by
  induction bs generalizing pa with
  | nil => simp [bytesFrom]
  | cons b bs ih =>
    have hp : pa + BitVec.ofNat 32 (bs.length + 1) = pa + 1 + BitVec.ofNat 32 bs.length := by
      rw [BitVec.add_assoc, BitVec.ofNat_add, BitVec.add_comm (BitVec.ofNat 32 bs.length)]
      rfl
    rw [List.cons_append, bytesFrom, ih, List.length_cons, hp, bytesFrom, List.cons_append]

/-- An entry filled with some bytes writes just these. -/
theorem writes_of_filled (pa : ARMword) (bytes : List (BitVec 8)) (old : Nat → BitVec 8) :
    (Entry.mk pa (fun k => bytes.getD k (old k)) bytes.length).writes = bytesFrom pa bytes := by
  have hmap : (List.range bytes.length).map (fun k => bytes.getD k (old k)) = bytes := by
    refine List.ext_getElem (by simp) fun k hk _ => ?_
    rw [List.length_map, List.length_range] at hk
    simp [hk]
  rw [Entry.writes, hmap]

/-! ## The counters are those of a ring -/

/-- The buffer keeps the queue `r`, and no entry has more bytes than its memory. -/
structure Represents (d : WbDesc) (m : Machine) (r : RingBuffer d.num Entry) : Prop where
  first : m.wb.first = r.first.val
  last : m.wb.last = r.last.val
  used : m.wb.used = r.used
  slot : ∀ i : Fin d.num, m.wb.entrys i = r.slot i
  occupied : m.occupied = r.held.toFinset
  fits : ∀ e ∈ r.toList, e.nb ≤ d.nb

theorem bump_val (i : Fin d.num) : bump d i.val = (RingBuffer.next i).val := by
  have hi := i.isLt
  unfold bump RingBuffer.next
  by_cases h : i.val + 1 = d.num
  · rw [if_pos h, dif_neg (by omega)]
  · rw [if_neg h, dif_pos (by omega)]

theorem represents_init (d : WbDesc) (junk : Nat → Entry) :
    Represents d (mmuWbInit junk)
      { RingBuffer.empty d.num_pos (junk 0) with slot := fun i => junk i } where
  first := rfl
  last := rfl
  used := rfl
  slot _ := rfl
  occupied := rfl
  fits e he := by rw [RingBuffer.toList_eq_nil rfl] at he; cases he

theorem Represents.drainOne {m : Machine} {r : RingBuffer d.num Entry} (hr : Represents d m r)
    (h : 0 < r.used) : Represents d (drainOne d m) (r.pop h) where
  first := hr.first
  last := by rw [WbRing.drainOne, hr.last]; exact bump_val r.last
  used := congrArg (· - 1) hr.used
  slot := hr.slot
  occupied := by
    have hnd := r.nodup_held
    rw [r.held_pop h, List.nodup_cons] at hnd
    rw [WbRing.drainOne, hr.occupied, hr.last, r.held_pop h, List.toFinset_cons,
      Finset.erase_insert (by simpa using hnd.1)]
  fits e he := hr.fits e (r.toList_pop h ▸ List.mem_cons_of_mem _ he)

theorem Represents.oldest {m : Machine} {r : RingBuffer d.num Entry} (hr : Represents d m r) :
    m.wb.entrys m.wb.last = r.oldest := by
  rw [hr.last]
  exact hr.slot r.last

theorem Represents.fill {m : Machine} {r : RingBuffer d.num Entry} (hr : Represents d m r)
    (h : r.used < d.num) (pa : ARMword) {bytes : List (BitVec 8)} (hn : bytes.length ≤ d.nb) :
    Represents d (fill d m pa bytes)
      (r.push h ⟨pa, fun k => bytes.getD k ((m.wb.entrys m.wb.first).data k), bytes.length⟩) where
  first := by rw [WbRing.fill, hr.first]; exact bump_val r.first
  last := hr.last
  used := congrArg (· + 1) hr.used
  slot i := by
    rw [WbRing.fill, hr.first]
    show Function.update m.wb.entrys r.first.val _ i.val = Function.update r.slot r.first _ i
    by_cases hi : i = r.first
    · rw [hi, Function.update_self, Function.update_self]
    · rw [Function.update_of_ne (fun he => hi (Fin.ext he)), Function.update_of_ne hi, hr.slot]
  occupied := by
    rw [WbRing.fill, hr.occupied, hr.first, r.held_push h, List.toFinset_append,
      List.toFinset_cons, List.toFinset_nil, Finset.insert_eq, Finset.union_comm]
    rfl
  fits e he := by
    rw [RingBuffer.toList_push, List.mem_append, List.mem_singleton] at he
    rcases he with he | rfl
    · exact hr.fits e he
    · exact hn

/-! ## Nothing is lost, doubled or out of order -/

/-- What reached memory and what the ring still has are the bytes written. -/
def Holds (d : WbDesc) (m : Machine) (written : List ByteWrite) : Prop :=
  ∃ r, Represents d m r ∧ m.bus ++ r.toList.flatMap Entry.writes = written

theorem Holds.drainOne {m : Machine} {written : List ByteWrite} (hm : Holds d m written)
    (h : 0 < m.wb.used) : Holds d (drainOne d m) written := by
  obtain ⟨r, hr, hb⟩ := hm
  have h0 : 0 < r.used := hr.used ▸ h
  refine ⟨r.pop h0, hr.drainOne h0, ?_⟩
  rw [WbRing.drainOne, hr.oldest, ← hb, r.toList_pop h0, List.flatMap_cons, List.append_assoc]

theorem Holds.fill {m : Machine} {written : List ByteWrite} (hm : Holds d m written)
    (h : m.wb.used < d.num) (pa : ARMword) {bytes : List (BitVec 8)} (hn : bytes.length ≤ d.nb) :
    Holds d (fill d m pa bytes) (written ++ bytesFrom pa bytes) := by
  obtain ⟨r, hr, hb⟩ := hm
  have h0 : r.used < d.num := hr.used ▸ h
  refine ⟨_, hr.fill h0 pa hn, ?_⟩
  rw [WbRing.fill, RingBuffer.toList_push, List.flatMap_append, ← List.append_assoc, hb,
    List.flatMap_singleton, writes_of_filled]

/-- A full ring has room once its oldest entry is written. -/
theorem Holds.makeRoom {m : Machine} {written : List ByteWrite} (hm : Holds d m written) :
    Holds d (makeRoom d m) written ∧ (makeRoom d m).wb.used < d.num := by
  have hpos := d.num_pos
  unfold WbRing.makeRoom
  split
  · rename_i h
    refine ⟨hm.drainOne (h ▸ hpos), ?_⟩
    show m.wb.used - 1 < d.num
    omega
  · rename_i h
    obtain ⟨r, hr, hb⟩ := hm
    have hle := r.used_le
    have hused := hr.used
    exact ⟨⟨r, hr, hb⟩, by omega⟩

theorem piece_le (d : WbDesc) (n : Nat) : piece d n ≤ n ∧ piece d n ≤ d.nb := by
  unfold piece
  split <;> constructor <;> omega

theorem Holds.writeBytes (m : Machine) (pa : ARMword) (data : List (BitVec 8)) :
    ∀ written, Holds d m written →
      Holds d (mmuWbWriteBytes d m pa data) (written ++ bytesFrom pa data) := by
  fun_induction mmuWbWriteBytes d m pa data with
  | case1 m pa =>
    intro written hm
    simpa [bytesFrom] using hm
  | case2 m pa data h i ih =>
    intro written hm
    obtain ⟨hroom, hlt⟩ := hm.makeRoom
    obtain ⟨hle, hnb⟩ := piece_le d data.length
    have hlen : (data.take i).length = i := List.length_take_of_le hle
    have hfill := hroom.fill hlt pa (le_of_eq_of_le hlen hnb)
    have hsplit := bytesFrom_append pa (data.take i) (data.drop i)
    rw [List.take_append_drop, hlen] at hsplit
    rw [hsplit, ← List.append_assoc]
    exact ih _ hfill

theorem Holds.drainAll {m : Machine} {written : List ByteWrite} (hm : Holds d m written) :
    Holds d (mmuWbDrainAll d m) written ∧ (mmuWbDrainAll d m).wb.used = 0 := by
  fun_induction mmuWbDrainAll d m with
  | case1 m h => exact ⟨hm, h⟩
  | case2 m h ih => exact ih (hm.drainOne (Nat.pos_of_ne_zero h))

theorem Holds.bus_of_unused {m : Machine} {written : List ByteWrite} (hm : Holds d m written)
    (h : m.wb.used = 0) : m.bus = written := by
  obtain ⟨r, hr, hb⟩ := hm
  rw [RingBuffer.toList_eq_nil (hr.used.symm.trans h), List.flatMap_nil, List.append_nil] at hb
  exact hb

theorem Holds.step {m : Machine} {written : List ByteWrite} (hm : Holds d m written) (op : Op) :
    Holds d (step d m op) (written ++ op.bytes) := by
  cases op with
  | writeBytes pa data => exact Holds.writeBytes m pa data written hm
  | drainAll =>
    rw [Op.bytes, List.append_nil]
    exact hm.drainAll.1

theorem Holds.run (ops : List Op) : ∀ {m : Machine} {written : List ByteWrite},
    Holds d m written → Holds d (run d m ops) (written ++ ops.flatMap Op.bytes) := by
  induction ops with
  | nil =>
    intro m written hm
    simpa [WbRing.run] using hm
  | cons op ops ih =>
    intro m written hm
    rw [List.flatMap_cons, ← List.append_assoc]
    exact ih (hm.step op)

theorem holds_init (d : WbDesc) (junk : Nat → Entry) : Holds d (mmuWbInit junk) [] :=
  ⟨_, represents_init d junk, by rw [RingBuffer.toList_eq_nil rfl]; rfl⟩

/-- The counters stay where they belong. -/
structure RingOk (d : WbDesc) (m : Machine) : Prop where
  first_lt : m.wb.first < d.num
  last_lt : m.wb.last < d.num
  used_le : m.wb.used ≤ d.num
  first_eq : m.wb.first = (m.wb.last + m.wb.used) % d.num
  occupied_lt : ∀ i ∈ m.occupied, i < d.num
  used_eq : m.wb.used = m.occupied.card

theorem Represents.ringOk {m : Machine} {r : RingBuffer d.num Entry} (hr : Represents d m r) :
    RingOk d m where
  first_lt := hr.first ▸ r.first.isLt
  last_lt := hr.last ▸ r.last.isLt
  used_le := hr.used ▸ r.used_le
  first_eq := by rw [hr.first, hr.last, hr.used, r.first_eq]
  occupied_lt i hi := by
    rw [hr.occupied, List.mem_toFinset] at hi
    exact r.mem_held_lt hi
  used_eq := by
    rw [hr.occupied, List.toFinset_card_of_nodup r.nodup_held, r.length_held, hr.used]

/-- Whatever was written and drained since the buffer was made, its counters are in order,
and once it is drained memory has got the bytes written, in their order, and no others. -/
theorem writeBuffer_fifo (d : WbDesc) (junk : Nat → Entry) (ops : List Op) :
    RingOk d (run d (mmuWbInit junk) ops) ∧
      (mmuWbDrainAll d (run d (mmuWbInit junk) ops)).bus = ops.flatMap Op.bytes ∧
      RingOk d (mmuWbDrainAll d (run d (mmuWbInit junk) ops)) ∧
      (mmuWbDrainAll d (run d (mmuWbInit junk) ops)).wb.used = 0 := by
  have hrun := Holds.run ops (holds_init d junk)
  rw [List.nil_append] at hrun
  obtain ⟨hdrained, hunused⟩ := hrun.drainAll
  have hbus := hdrained.bus_of_unused hunused
  obtain ⟨r, hr, -⟩ := hrun
  obtain ⟨r', hr', -⟩ := hdrained
  exact ⟨hr.ringOk, hbus, hr'.ringOk, hunused⟩

end SkyEye.WbRing
