import SkyEye.Net.Rtl8019
import Mathlib.Algebra.BigOperators.Group.List.Basic

/-!
# The receive ring of the RTL8019

The packets that the guest has not released are stored one after the other from BNRY to CURR. A
packet that fills the ring to the last page brings CURR to BNRY, which says that the ring is
empty. Without one (`ring_keeps`) no unread packet is lost.
-/

namespace SkyEye.Rtl8019

/-! ## What the ring has to do -/

/-- The pages of packets. -/
def used (unread : List Packet) : Nat := (unread.map occupyPages).sum

/-- The header and the packet. -/
def frame (next_page : Nat) (packet : Packet) : List Byte :=
  frameHeader next_page packet ++ padded packet

namespace Io

variable (io : Io)

/-- A ring of pages on the chip. -/
structure Configured : Prop where
  start_le : startPage ≤ io.PSTART
  lt : io.PSTART < io.PSTOP
  stop_le : io.PSTOP ≤ endPage

/-- The pages that no unread packet has. -/
def free (unread : List Packet) : Nat := io.PSTOP - io.PSTART - used unread

/-- The page that is `n` pages on. -/
def onward (page n : Nat) : Nat := Ring.shift io.PSTART io.PSTOP page n

/-- The frame of a packet from the page on, round the ring. -/
def Stored (page : Nat) (packet : Packet) : Prop :=
  ∀ (k : Nat) (hk : k < (frame (io.onward page (occupyPages packet)) packet).length),
    io.byte page k = (frame (io.onward page (occupyPages packet)) packet).get ⟨k, hk⟩

/-- The frames of packets one after the other. -/
def Chain : Nat → List Packet → Prop
  | _, [] => True
  | page, packet :: packets =>
    io.Stored page packet ∧ Chain (io.onward page (occupyPages packet)) packets

/-- The ring holds the unread packets from BNRY to CURR and has a page that they do not. -/
structure Holds (unread : List Packet) : Prop where
  ring : io.Configured
  bnry : io.PSTART ≤ io.BNRY ∧ io.BNRY < io.PSTOP
  room : used unread < io.PSTOP - io.PSTART
  curr : io.CURR = io.onward io.BNRY (used unread)
  chain : io.Chain io.BNRY unread

/-- The unread packets after a packet has come. -/
def receive (unread : List Packet) (packet : Packet) : List Packet :=
  if io.ready = true ∧ occupyPages packet ≤ io.free unread then unread ++ [packet] else unread

end Io

/-- What a packet that has come should do. One that fits exactly is to be stored and visited too,
which no ring without a mark of being full can do: CURR at BNRY is the empty one. -/
structure InputMeets (io : Io) (unread : List Packet) (packet : Packet) (io' : Io) : Prop where
  overflow : io.ready = true → io.free unread < occupyPages packet →
    io'.ISR &&& isrOvw ≠ 0 ∧ io'.sram = io.sram ∧ io'.CURR = io.CURR
  stored : io.ready = true → occupyPages packet ≤ io.free unread →
    io'.Stored io.CURR packet ∧ io'.CURR = io.onward io.CURR (occupyPages packet)
  kept : ∀ k < used unread * pageSize, io'.byte io.BNRY k = io.byte io.BNRY k
  visited : io'.visited = some ((io.receive unread packet).map padded)

/-- The packet does not fill the free pages to the last. -/
def NotExact (io : Io) (unread : List Packet) (packet : Packet) : Prop :=
  io.ready = true → occupyPages packet ≠ io.free unread

/-- The runs of `rtl8019_input` and of the guest's updates of BNRY where the packets that come
are `ok`, with the unread packets. -/
inductive Run (ok : Io → List Packet → Packet → Prop) (io₀ : Io) (unread₀ : List Packet) :
    Io → List Packet → Prop
  | start : Run ok io₀ unread₀ io₀ unread₀
  | none {io unread} (hrun : Run ok io₀ unread₀ io unread) :
      Run ok io₀ unread₀ (io.input .none) unread
  | input {io unread} (hrun : Run ok io₀ unread₀ io unread) (packet : Packet)
      (hok : ok io unread packet) :
      Run ok io₀ unread₀ (io.input (some packet)) (io.receive unread packet)
  | release {io unread} (hrun : Run ok io₀ unread₀ io unread) (n : Nat) (hn : n < unread.length) :
      Run ok io₀ unread₀ (io.release n) (unread.drop (n + 1))

/-! ## Frames -/

theorem used_nil : used [] = 0 := rfl

theorem used_cons (packet : Packet) (packets : List Packet) :
    used (packet :: packets) = occupyPages packet + used packets := rfl

theorem used_append (packets : List Packet) (packet : Packet) :
    used (packets ++ [packet]) = used packets + occupyPages packet := by
  simp [used]

theorem used_take_le (packets : List Packet) (n : Nat) : used (packets.take n) ≤ used packets := by
  have h : used (packets.take n) + used (packets.drop n) = used packets := by
    rw [used, used, ← List.sum_append, ← List.map_append, List.take_append_drop, used]
  omega

theorem frame_length (next_page : Nat) (packet : Packet) :
    (frame next_page packet).length = rtl8019Len packet := by
  rw [frame, List.length_append, rtl8019Len, Nat.add_comm]
  rfl

theorem padded_length (packet : Packet) :
    60 ≤ (padded packet).length ∧ (padded packet).length ≤ 1600 := by
  have h := packet.property
  rw [padded, List.length_append, List.length_replicate]
  omega

/-- The pages of a frame are the fewest that hold it. -/
theorem len_le_pages (packet : Packet) : rtl8019Len packet ≤ occupyPages packet * pageSize ∧
    occupyPages packet * pageSize < rtl8019Len packet + pageSize := by
  simp only [occupyPages, pageSize]
  omega

theorem occupyPages_pos (packet : Packet) : 0 < occupyPages packet := by
  have h := (len_le_pages packet).1
  have hlen : 0 < rtl8019Len packet := Nat.succ_pos _
  rcases Nat.eq_zero_or_pos (occupyPages packet) with h0 | h0
  · rw [h0] at h
    omega
  · exact h0

section

variable {io : Io} {unread : List Packet} {page : Nat}

theorem index_onward (hlo : io.PSTART ≤ page) (hhi : page < io.PSTOP) {n k : Nat}
    (h : n * pageSize + k ≤ (io.PSTOP - io.PSTART) * pageSize) :
    io.index (io.onward page n) k = io.index page (n * pageSize + k) := by
  rw [Nat.sub_mul] at h
  unfold Io.index Io.onward
  rw [← Ring.shift_mul (by decide), Ring.shift_shift (Nat.mul_le_mul_right _ hlo)
    ((Nat.mul_lt_mul_right (by decide)).mpr hhi) h]

theorem index_inj (hring : io.Configured) (hlo : io.PSTART ≤ page) (hhi : page < io.PSTOP)
    {j k : Nat} (hj : j < (io.PSTOP - io.PSTART) * pageSize)
    (hk : k < (io.PSTOP - io.PSTART) * pageSize) (h : io.index page j = io.index page k) :
    j = k := by
  rw [Nat.sub_mul] at hj hk
  have hlo' : io.PSTART * pageSize ≤ page * pageSize := Nat.mul_le_mul_right _ hlo
  have hhi' : page * pageSize < io.PSTOP * pageSize :=
    (Nat.mul_lt_mul_right (by decide)).mpr hhi
  have hstart : startPage * pageSize ≤ io.PSTART * pageSize :=
    Nat.mul_le_mul_right _ hring.start_le
  have hmj := (Ring.shift_mem hlo' hhi' (Nat.le_of_lt hj)).1
  have hmk := (Ring.shift_mem hlo' hhi' (Nat.le_of_lt hk)).1
  unfold Io.index at h
  exact Ring.shift_inj (x := page * pageSize) hj hk (by omega)

theorem onward_mem (hlo : io.PSTART ≤ page) (hhi : page < io.PSTOP) {n : Nat}
    (hn : n ≤ io.PSTOP - io.PSTART) :
    io.PSTART ≤ io.onward page n ∧ io.onward page n < io.PSTOP :=
  Ring.shift_mem hlo hhi hn

theorem onward_onward (hlo : io.PSTART ≤ page) (hhi : page < io.PSTOP) {m n : Nat}
    (h : m + n ≤ io.PSTOP - io.PSTART) :
    io.onward (io.onward page m) n = io.onward page (m + n) :=
  Ring.shift_shift hlo hhi h

/-! ## Chains -/

theorem Io.Stored.congr {io' : Io} (hstart : io'.PSTART = io.PSTART) (hstop : io'.PSTOP = io.PSTOP)
    {packet : Packet}
    (hsame : ∀ k < occupyPages packet * pageSize, io'.byte page k = io.byte page k)
    (hstored : io.Stored page packet) : io'.Stored page packet := by
  have honward : io'.onward page (occupyPages packet) = io.onward page (occupyPages packet) := by
    unfold Io.onward
    rw [hstart, hstop]
  have hlen := (len_le_pages packet).1
  unfold Io.Stored
  rw [honward]
  intro k hk
  have hk' := hk
  rw [frame_length] at hk'
  rw [hsame k (Nat.lt_of_lt_of_le hk' hlen)]
  exact hstored k hk

theorem Io.Chain.congr {io' : Io} (hstart : io'.PSTART = io.PSTART) (hstop : io'.PSTOP = io.PSTOP)
    (packets : List Packet) (hlo : io.PSTART ≤ page) (hhi : page < io.PSTOP)
    (hused : used packets ≤ io.PSTOP - io.PSTART)
    (hsame : ∀ k < used packets * pageSize, io'.byte page k = io.byte page k)
    (hchain : io.Chain page packets) : io'.Chain page packets := by
  induction packets generalizing page with
  | nil => trivial
  | cons packet packets ih =>
    obtain ⟨hstored, hchain⟩ := hchain
    rw [used_cons] at hused hsame
    rw [Nat.add_mul] at hsame
    have hsplit := Nat.mul_le_mul_right pageSize hused
    rw [Nat.add_mul] at hsplit
    have honward : io'.onward page (occupyPages packet) = io.onward page (occupyPages packet) := by
      unfold Io.onward
      rw [hstart, hstop]
    obtain ⟨hlo', hhi'⟩ := onward_mem hlo hhi (Nat.le_trans (Nat.le_add_right _ _) hused)
    refine ⟨hstored.congr hstart hstop fun k hk =>
      hsame k (Nat.lt_of_lt_of_le hk (Nat.le_add_right _ _)), ?_⟩
    rw [honward]
    refine ih hlo' hhi' (Nat.le_trans (Nat.le_add_left _ _) hused) (fun k hk => ?_) hchain
    have hle : occupyPages packet * pageSize + k ≤ (io.PSTOP - io.PSTART) * pageSize :=
      Nat.le_trans (Nat.add_le_add_left (Nat.le_of_lt hk) _) hsplit
    have hidx := index_onward hlo hhi hle
    have hidx' : io'.index (io'.onward page (occupyPages packet)) k =
        io'.index page (occupyPages packet * pageSize + k) :=
      index_onward (hstart.symm ▸ hlo) (hstop.symm ▸ hhi) (by rw [hstart, hstop]; exact hle)
    have hb := hsame _ (Nat.add_lt_add_left hk _)
    unfold Io.byte at hb ⊢
    rw [hidx, ← honward, hidx']
    exact hb

theorem Io.Chain.append (packets : List Packet) {packet : Packet} (hlo : io.PSTART ≤ page)
    (hhi : page < io.PSTOP) (hused : used packets + occupyPages packet ≤ io.PSTOP - io.PSTART)
    (hchain : io.Chain page packets)
    (hstored : io.Stored (io.onward page (used packets)) packet) :
    io.Chain page (packets ++ [packet]) := by
  induction packets generalizing page with
  | nil =>
    rw [used_nil, Io.onward, Ring.shift_zero hhi] at hstored
    exact ⟨hstored, trivial⟩
  | cons first packets ih =>
    rw [used_cons] at hused hstored
    obtain ⟨hlo', hhi'⟩ := onward_mem (n := occupyPages first) hlo hhi (by omega)
    refine ⟨hchain.1, ih hlo' hhi' (by omega) hchain.2 ?_⟩
    rw [onward_onward hlo hhi (by omega)]
    exact hstored

theorem Io.Chain.drop (packets : List Packet) (n : Nat) (hlo : io.PSTART ≤ page)
    (hhi : page < io.PSTOP) (hused : used packets ≤ io.PSTOP - io.PSTART)
    (hchain : io.Chain page packets) :
    io.Chain (io.onward page (used (packets.take n))) (packets.drop n) := by
  induction n generalizing page packets with
  | zero =>
    rw [List.take_zero, used_nil, Io.onward, Ring.shift_zero hhi]
    exact hchain
  | succ n ih =>
    cases packets with
    | nil => trivial
    | cons packet packets =>
      rw [used_cons] at hused
      obtain ⟨hlo', hhi'⟩ := onward_mem (n := occupyPages packet) hlo hhi (by omega)
      have hrest := ih packets hlo' hhi' (by omega) hchain.2
      have htake : used (packets.take n) ≤ used packets := used_take_le packets n
      rw [onward_onward hlo hhi (by omega)] at hrest
      exact hrest

/-! ## The guest's way -/

theorem ofNat_toNat {n : Nat} (h : n < 2 ^ 8) : (BitVec.ofNat 8 n).toNat = n := by
  rw [BitVec.toNat_ofNat, Nat.mod_eq_of_lt h]

theorem Io.Stored.reads {packet : Packet} (hring : io.Configured) (hlo : io.PSTART ≤ page)
    (hhi : page < io.PSTOP) (hpages : occupyPages packet ≤ io.PSTOP - io.PSTART)
    (h : io.Stored page packet) :
    io.pointer page = io.onward page (occupyPages packet) ∧
      (List.range (io.frameLen page - 4)).map (fun k => io.byte page (4 + k)) = padded packet := by
  obtain ⟨hmin, hmax⟩ := padded_length packet
  have hlen : (frame (io.onward page (occupyPages packet)) packet).length =
      (padded packet).length + 4 := frame_length _ _
  have hnext := (onward_mem hlo hhi hpages).2
  have hstop := hring.stop_le
  have h1 := h 1 (by omega)
  have h2 := h 2 (by omega)
  have h3 := h 3 (by omega)
  have hlow : (io.byte page 2).toNat = rtl8019Len packet % 256 := by
    rw [h2]
    exact BitVec.toNat_ofNat _ _
  have hhigh : (io.byte page 3).toNat = rtl8019Len packet / 256 := by
    rw [h3]
    exact ofNat_toNat (by unfold rtl8019Len; omega)
  have hframe : io.frameLen page = rtl8019Len packet := by
    unfold Io.frameLen
    rw [hlow, hhigh]
    omega
  refine ⟨?_, ?_⟩
  · unfold Io.pointer
    rw [h1]
    exact ofNat_toNat (Nat.lt_of_lt_of_le hnext (Nat.le_trans hstop (by decide)))
  · rw [hframe, rtl8019Len, Nat.add_sub_cancel]
    refine List.ext_getElem (by rw [List.length_map, List.length_range]) fun k _ hk => ?_
    rw [List.getElem_map, List.getElem_range, h (4 + k) (by omega)]
    have hsplit : frame (io.onward page (occupyPages packet)) packet =
        frameHeader (io.onward page (occupyPages packet)) packet ++ padded packet := rfl
    simp only [List.get_eq_getElem, hsplit]
    rw [List.getElem_append_right (Nat.le_add_right 4 k)]
    congr 1
    exact Nat.add_sub_cancel_left 4 k

/-- A chain of pages that are not all is found as it is. -/
theorem Io.Chain.visit (packets : List Packet) {fuel : Nat} (hring : io.Configured)
    (hlo : io.PSTART ≤ page) (hhi : page < io.PSTOP)
    (hused : used packets < io.PSTOP - io.PSTART) (hfuel : used packets ≤ fuel)
    (hcurr : io.CURR = io.onward page (used packets)) (hchain : io.Chain page packets) :
    io.visit fuel page = some (packets.map padded) := by
  induction packets generalizing page fuel with
  | nil =>
    have heq : page = io.CURR := by
      rw [hcurr, used_nil, Io.onward, Ring.shift_zero hhi]
    unfold Io.visit
    rw [if_pos heq]
    rfl
  | cons packet packets ih =>
    rw [used_cons] at hused hfuel hcurr
    have hpos := occupyPages_pos packet
    have hne : page ≠ io.CURR := fun heq => by
      have h0 : Ring.shift io.PSTART io.PSTOP page (occupyPages packet + used packets) =
          Ring.shift io.PSTART io.PSTOP page 0 := by
        rw [Ring.shift_zero hhi]
        exact hcurr.symm.trans heq.symm
      have := Ring.shift_inj hused (by omega) h0
      omega
    obtain ⟨fuel, rfl⟩ : ∃ f, fuel = f + 1 := ⟨fuel - 1, by omega⟩
    obtain ⟨hlo', hhi'⟩ := onward_mem (n := occupyPages packet) hlo hhi (by omega)
    obtain ⟨hpointer, hbytes⟩ := hchain.1.reads hring hlo hhi (by omega)
    have hrest := @ih _ fuel hlo' hhi' (by omega) (by omega)
      (by rw [onward_onward hlo hhi (by omega)]; exact hcurr) hchain.2
    unfold Io.visit
    rw [if_neg hne]
    dsimp only
    rw [hpointer, hrest, hbytes]
    rfl

theorem Io.Chain.follow (packets : List Packet) (n : Nat) (hring : io.Configured)
    (hlo : io.PSTART ≤ page) (hhi : page < io.PSTOP)
    (hused : used packets ≤ io.PSTOP - io.PSTART) (hn : n ≤ packets.length)
    (hchain : io.Chain page packets) :
    io.follow n page = io.onward page (used (packets.take n)) := by
  induction n generalizing page packets with
  | zero =>
    rw [List.take_zero, used_nil, Io.onward, Ring.shift_zero hhi]
    rfl
  | succ n ih =>
    cases packets with
    | nil => exact absurd hn (Nat.not_succ_le_zero n)
    | cons packet packets =>
      rw [used_cons] at hused
      obtain ⟨hlo', hhi'⟩ := onward_mem (n := occupyPages packet) hlo hhi (by omega)
      have hpointer := (hchain.1.reads hring hlo hhi (by omega)).1
      have hrest := ih packets hlo' hhi' (by omega) (Nat.le_of_succ_le_succ hn) hchain.2
      have htake := used_take_le packets n
      rw [Io.follow, hpointer, hrest, onward_onward hlo hhi (by omega)]
      rfl

theorem Io.Holds.visited (h : io.Holds unread) : io.visited = some (unread.map padded) :=
  h.chain.visit unread h.ring h.bnry.1 h.bnry.2 h.room (Nat.le_of_lt h.room) h.curr

theorem Io.Holds.release (h : io.Holds unread) {n : Nat} (hn : n < unread.length) :
    (io.release n).Holds (unread.drop (n + 1)) := by
  obtain ⟨hring, ⟨hlo, hhi⟩, hroom, hcurr, hchain⟩ := h
  have hsum : used (unread.take (n + 1)) + used (unread.drop (n + 1)) = used unread := by
    rw [used, used, ← List.sum_append, ← List.map_append, List.take_append_drop, used]
  have hfollow := hchain.follow unread (n + 1) hring hlo hhi (Nat.le_of_lt hroom) hn
  have hdrop := hchain.drop unread (n + 1) hlo hhi (Nat.le_of_lt hroom)
  rw [← hfollow] at hdrop
  refine ⟨⟨hring.1, hring.2, hring.3⟩, ?_, ?_, ?_, ?_⟩
  · have hmem := onward_mem (n := used (unread.take (n + 1))) hlo hhi (by omega)
    rw [← hfollow] at hmem
    exact hmem
  · exact Nat.lt_of_le_of_lt (by omega) hroom
  · have honward := onward_onward hlo hhi (m := used (unread.take (n + 1)))
      (n := used (unread.drop (n + 1))) (by omega)
    rw [hsum, ← hcurr, ← hfollow] at honward
    exact honward.symm
  · have hstart : (io.release n).PSTART = io.PSTART := rfl
    have hstop : (io.release n).PSTOP = io.PSTOP := rfl
    have hmem := onward_mem (n := used (unread.take (n + 1))) hlo hhi (by omega)
    rw [← hfollow] at hmem
    exact hdrop.congr hstart hstop _ hmem.1 hmem.2 (by omega) fun _ _ => rfl

/-! ## Storing -/

theorem nextPage_eq (n : Nat) : io.nextPage n = io.onward io.CURR n := by
  unfold Io.nextPage Io.onward Ring.shift
  by_cases h : io.CURR + n < io.PSTOP
  · rw [if_neg (by omega), if_pos h]
  · rw [if_pos (by omega), if_neg h]

/-- The bytes up to the end of the ring, and those after it. -/
theorem index_eq (hring : io.Configured) (hlo : io.PSTART ≤ page) (hhi : page < io.PSTOP)
    (k : Nat) : io.index page k =
      if k < (io.PSTOP - page) * pageSize then Io.pageIndex page + k
      else Io.pageIndex io.PSTART + (k - (io.PSTOP - page) * pageSize) := by
  have hstart := hring.start_le
  unfold Io.index Io.pageIndex Ring.shift
  simp only [startPage, pageSize] at hstart ⊢
  split <;> split <;> omega

/-- Both ways of storing a frame are of one list. -/
theorem store_eq (packet : Packet) (hhi : io.CURR < io.PSTOP)
    (hpages : occupyPages packet ≤ io.PSTOP - io.PSTART) :
    io.store packet =
      let l := frame (io.onward io.CURR (occupyPages packet)) packet
      let c := (io.PSTOP - io.CURR) * pageSize
      Block.copy (Block.copy io.sram (Io.pageIndex io.CURR) (l.take c))
        (Io.pageIndex io.PSTART) (l.drop c) := by
  have hpos := occupyPages_pos packet
  have hlen := len_le_pages packet
  have hfour : 4 ≤ (io.PSTOP - io.CURR) * pageSize := by
    simp only [pageSize]
    omega
  have hnext : io.onward io.CURR (occupyPages packet) > io.CURR ∨
      io.CURR + occupyPages packet = io.PSTOP ↔ io.CURR + occupyPages packet ≤ io.PSTOP := by
    unfold Io.onward Ring.shift
    split <;> omega
  unfold Io.store
  dsimp only
  rw [nextPage_eq]
  generalize hnp : io.onward io.CURR (occupyPages packet) = np at hnext ⊢
  have hheader : (frameHeader np packet).length = 4 := rfl
  by_cases hle : io.CURR + occupyPages packet ≤ io.PSTOP
  · have hfit : (frame np packet).length ≤ (io.PSTOP - io.CURR) * pageSize := by
      rw [frame_length]
      simp only [pageSize] at hlen ⊢
      omega
    rw [if_pos (hnext.mpr hle), List.take_of_length_le hfit, List.drop_of_length_le hfit,
      Block.copy_nil, frame, ← Block.copy_copy, hheader]
  · have htake : (frame np packet).take ((io.PSTOP - io.CURR) * pageSize) =
        frameHeader np packet ++ (padded packet).take ((io.PSTOP - io.CURR) * pageSize - 4) := by
      rw [frame, List.take_append, hheader, List.take_of_length_le hfour]
    have hdrop : (frame np packet).drop ((io.PSTOP - io.CURR) * pageSize) =
        (padded packet).drop ((io.PSTOP - io.CURR) * pageSize - 4) := by
      rw [frame, List.drop_append, hheader, List.drop_of_length_le hfour, List.nil_append]
    rw [if_neg fun h => hle (hnext.mp h), htake, hdrop, ← Block.copy_copy, hheader]

/-- What goes to the start of the ring ends before CURR. -/
theorem tail_le {pages len : Nat} (hring : io.Configured) (hlo : io.PSTART ≤ page)
    (hpages : pages ≤ io.PSTOP - io.PSTART) (hlen : len ≤ pages * pageSize) :
    Io.pageIndex io.PSTART + (len - (io.PSTOP - page) * pageSize) ≤ Io.pageIndex page := by
  have hstart := hring.start_le
  simp only [Io.pageIndex, startPage, pageSize] at hlen hstart ⊢
  omega

/-- The frame is stored from CURR on, and nothing else changes. -/
theorem store_at (packet : Packet) (hring : io.Configured) (hlo : io.PSTART ≤ io.CURR)
    (hhi : io.CURR < io.PSTOP) (hpages : occupyPages packet ≤ io.PSTOP - io.PSTART) (k : Nat)
    (hk : k < (frame (io.onward io.CURR (occupyPages packet)) packet).length) :
    io.store packet (io.index io.CURR k) =
      (frame (io.onward io.CURR (occupyPages packet)) packet).get ⟨k, hk⟩ := by
  have hlen := (len_le_pages packet).1
  have hk' := hk
  rw [frame_length] at hk'
  rw [store_eq packet hhi hpages, index_eq hring hlo hhi]
  dsimp only
  have hlength := frame_length (io.onward io.CURR (occupyPages packet)) packet
  generalize frame (io.onward io.CURR (occupyPages packet)) packet = l at hk hlength ⊢
  have hc : (io.PSTOP - io.CURR) * pageSize ≤ (io.PSTOP - io.PSTART) * pageSize :=
    Nat.mul_le_mul_right _ (by omega)
  by_cases hlt : k < (io.PSTOP - io.CURR) * pageSize
  · have hbefore : Io.pageIndex io.PSTART + (l.drop ((io.PSTOP - io.CURR) * pageSize)).length ≤
        Io.pageIndex io.CURR + k := by
      rw [List.length_drop, hlength]
      exact Nat.le_trans (tail_le hring hlo hpages hlen) (Nat.le_add_right _ _)
    rw [if_pos hlt, Block.copy_of_ge _ _ hbefore,
      Block.copy_at _ _ _ (by rw [List.length_take]; omega), List.getElem_take]
    rfl
  · have hdrop : k - (io.PSTOP - io.CURR) * pageSize <
        (l.drop ((io.PSTOP - io.CURR) * pageSize)).length := by
      rw [List.length_drop]
      omega
    rw [if_neg hlt, Block.copy_at _ _ _ hdrop, List.getElem_drop]
    exact congrArg l.get (Fin.ext (by dsimp only; omega))

theorem store_of_ne (packet : Packet) (hring : io.Configured) (hlo : io.PSTART ≤ io.CURR)
    (hhi : io.CURR < io.PSTOP) (hpages : occupyPages packet ≤ io.PSTOP - io.PSTART) {i : Nat}
    (hi : ∀ k < occupyPages packet * pageSize, i ≠ io.index io.CURR k) :
    io.store packet i = io.sram i := by
  have hlen := (len_le_pages packet).1
  have hidx := index_eq hring hlo hhi
  rw [store_eq packet hhi hpages]
  dsimp only
  have hlength := frame_length (io.onward io.CURR (occupyPages packet)) packet
  generalize frame (io.onward io.CURR (occupyPages packet)) packet = l at hlength ⊢
  rw [Block.copy_of_not, Block.copy_of_not]
  · rintro ⟨hle, hlt⟩
    rw [List.length_take, hlength] at hlt
    refine hi (i - Io.pageIndex io.CURR) (by omega) ?_
    rw [hidx, if_pos (by omega)]
    omega
  · rintro ⟨hle, hlt⟩
    rw [List.length_drop, hlength] at hlt
    refine hi (i - Io.pageIndex io.PSTART + (io.PSTOP - io.CURR) * pageSize) (by omega) ?_
    rw [hidx, if_neg (by omega)]
    omega

/-! ## Packets that come -/

theorem Io.Holds.freePages (h : io.Holds unread) : io.freePages = io.free unread := by
  obtain ⟨⟨hstart, hlt, hstop⟩, ⟨hlo, hhi⟩, hroom, hcurr, -⟩ := h
  unfold Io.onward Ring.shift at hcurr
  unfold Io.freePages Io.free
  simp only [startPage, endPage] at hstart hstop
  split at hcurr <;> split <;> omega

theorem Io.Holds.curr_mem (h : io.Holds unread) : io.PSTART ≤ io.CURR ∧ io.CURR < io.PSTOP := by
  rw [h.curr]
  exact onward_mem h.bnry.1 h.bnry.2 (Nat.le_of_lt h.room)

theorem input_accepted {packet : Packet} (h : io.Holds unread) (hready : io.ready = true)
    (hfit : occupyPages packet ≤ io.free unread) {io' : Io} (hio' : io.input (some packet) = io') :
    io'.PSTART = io.PSTART ∧ io'.PSTOP = io.PSTOP ∧ io'.BNRY = io.BNRY ∧
      io'.CURR = io.onward io.CURR (occupyPages packet) ∧ io'.sram = io.store packet := by
  have hpages : occupyPages packet ≤ io.PSTOP - io.PSTART :=
    Nat.le_trans hfit (Nat.sub_le _ _)
  obtain ⟨hlo, hhi⟩ := h.curr_mem
  have hmem := (onward_mem hlo hhi hpages).2
  have hstop := h.ring.stop_le
  have hcurr : io.nextPage (occupyPages packet) % 2 ^ 8 =
      io.onward io.CURR (occupyPages packet) := by
    rw [nextPage_eq]
    exact Nat.mod_eq_of_lt (Nat.lt_of_lt_of_le hmem (Nat.le_trans hstop (by decide)))
  subst hio'
  unfold Io.input
  rw [if_pos hready]
  dsimp only
  rw [if_neg (by rw [h.freePages]; omega)]
  exact ⟨rfl, rfl, rfl, hcurr, rfl⟩

/-- It is stored as it should be, and the unread packets stay. -/
theorem input_stores {packet : Packet} (h : io.Holds unread) (hready : io.ready = true)
    (hfit : occupyPages packet ≤ io.free unread) {io' : Io} (hio' : io.input (some packet) = io') :
    io'.Stored io.CURR packet ∧ ∀ k < used unread * pageSize, io'.byte io.BNRY k =
      io.byte io.BNRY k := by
  obtain ⟨hstart, hstop, -, -, hsram⟩ := input_accepted h hready hfit hio'
  have hpages : occupyPages packet ≤ io.PSTOP - io.PSTART :=
    Nat.le_trans hfit (Nat.sub_le _ _)
  obtain ⟨hlo, hhi⟩ := h.curr_mem
  have hindex (page k : Nat) : io'.index page k = io.index page k := by
    unfold Io.index
    rw [hstart, hstop]
  have honward : io'.onward io.CURR (occupyPages packet) =
      io.onward io.CURR (occupyPages packet) := by
    unfold Io.onward
    rw [hstart, hstop]
  refine ⟨?_, fun k hk => ?_⟩
  · unfold Io.Stored Io.byte
    rw [honward, hsram]
    intro k hk
    rw [hindex]
    exact store_at packet h.ring hlo hhi hpages k hk
  · unfold Io.byte
    rw [hindex, hsram]
    refine store_of_ne packet h.ring hlo hhi hpages fun j hj heq => ?_
    have hsum : used unread * pageSize + occupyPages packet * pageSize ≤
        (io.PSTOP - io.PSTART) * pageSize := by
      rw [← Nat.add_mul]
      refine Nat.mul_le_mul_right _ ?_
      have hroom := h.room
      unfold Io.free at hfit
      omega
    have hlt : used unread * pageSize + j < (io.PSTOP - io.PSTART) * pageSize :=
      Nat.lt_of_lt_of_le (Nat.add_lt_add_left hj _) hsum
    have hj' : io.index io.CURR j = io.index io.BNRY (used unread * pageSize + j) := by
      rw [h.curr]
      exact index_onward h.bnry.1 h.bnry.2 (Nat.le_of_lt hlt)
    have hkj : k < used unread * pageSize + j := Nat.lt_of_lt_of_le hk (Nat.le_add_right _ _)
    have heq' := index_inj h.ring h.bnry.1 h.bnry.2 (Nat.lt_trans hkj hlt) hlt (heq.trans hj')
    exact absurd heq' (Nat.ne_of_lt hkj)

theorem Io.Holds.accept {packet : Packet} (h : io.Holds unread) (hready : io.ready = true)
    (hfit : occupyPages packet < io.free unread) :
    (io.input (some packet)).Holds (unread ++ [packet]) := by
  generalize hio' : io.input (some packet) = io'
  obtain ⟨hstart, hstop, hbnry, hcurr, -⟩ := input_accepted h hready (Nat.le_of_lt hfit) hio'
  obtain ⟨hstored, hkept⟩ := input_stores h hready (Nat.le_of_lt hfit) hio'
  have hroom : used unread + occupyPages packet < io.PSTOP - io.PSTART := by
    unfold Io.free at hfit
    omega
  have honward (page n : Nat) : io'.onward page n = io.onward page n := by
    unfold Io.onward
    rw [hstart, hstop]
  refine ⟨⟨?_, ?_, ?_⟩, ?_, ?_, ?_, ?_⟩
  · rw [hstart]
    exact h.ring.start_le
  · rw [hstart, hstop]
    exact h.ring.lt
  · rw [hstop]
    exact h.ring.stop_le
  · rw [hstart, hstop, hbnry]
    exact h.bnry
  · rw [hstart, hstop, used_append]
    exact hroom
  · rw [hcurr, hbnry, honward, used_append, h.curr]
    exact onward_onward h.bnry.1 h.bnry.2 (Nat.le_of_lt hroom)
  · rw [hbnry]
    refine Io.Chain.append unread (hstart.symm ▸ h.bnry.1) (hstop.symm ▸ h.bnry.2)
      (by rw [hstart, hstop]; exact Nat.le_of_lt hroom)
      (h.chain.congr hstart hstop unread h.bnry.1 h.bnry.2 (by omega) hkept) ?_
    rw [honward, ← h.curr]
    exact hstored

/-- One that fills the ring brings CURR to BNRY. -/
theorem visited_of_exact {packet : Packet} (h : io.Holds unread) (hready : io.ready = true)
    (hfit : occupyPages packet = io.free unread) : (io.input (some packet)).visited = some [] := by
  generalize hio' : io.input (some packet) = io'
  obtain ⟨-, -, hbnry, hcurr, -⟩ := input_accepted h hready (Nat.le_of_eq hfit) hio'
  have hroom := h.room
  have hall : used unread + occupyPages packet = io.PSTOP - io.PSTART := by
    unfold Io.free at hfit
    omega
  have heq : io'.BNRY = io'.CURR := by
    rw [hbnry, hcurr, h.curr, onward_onward h.bnry.1 h.bnry.2 (Nat.le_of_eq hall), hall]
    exact (Ring.shift_length h.bnry.1 h.bnry.2).symm
  unfold Io.visited Io.visit
  rw [if_pos heq]

theorem input_refused {packet : Packet} (h : io.Holds unread)
    (hno : ¬(io.ready = true ∧ occupyPages packet ≤ io.free unread)) :
    ∃ isr intr, io.input (some packet) = { io with ISR := isr, intr := intr } ∧
      (io.ready = true → isr = io.ISR ||| isrOvw) := by
  unfold Io.input
  by_cases hready : io.ready = true
  · rw [if_pos hready]
    dsimp only
    rw [if_pos (by rw [h.freePages]; exact Nat.lt_of_not_le fun hle => hno ⟨hready, hle⟩)]
    exact ⟨_, _, rfl, fun _ => rfl⟩
  · rw [if_neg hready]
    exact ⟨_, _, rfl, fun h => absurd h hready⟩

theorem isrOvw_set (isr : Byte) : (isr ||| isrOvw) &&& isrOvw ≠ 0 := by
  intro h
  have hbit := congrArg (·.getLsbD 4) h
  simp at hbit

/-- A packet that does not fill the ring. -/
theorem Io.Holds.input {packet : Packet} (h : io.Holds unread) (hok : NotExact io unread packet) :
    (io.input (some packet)).Holds (io.receive unread packet) := by
  by_cases hin : io.ready = true ∧ occupyPages packet ≤ io.free unread
  · rw [Io.receive, if_pos hin]
    exact h.accept hin.1 (Nat.lt_of_le_of_ne hin.2 (hok hin.1))
  · rw [Io.receive, if_neg hin]
    obtain ⟨isr, intr, hio', -⟩ := input_refused h hin
    rw [hio']
    obtain ⟨⟨h1, h2, h3⟩, h4, h5, h6, h7⟩ := h
    have hstart : Io.PSTART { io with ISR := isr, intr := intr } = io.PSTART := rfl
    exact ⟨⟨h1, h2, h3⟩, h4, h5, h6, h7.congr hstart rfl unread h4.1 h4.2 (Nat.le_of_lt h5)
      fun _ _ => rfl⟩

/-- A packet does what it should but where it fills the ring. -/
theorem input_meets_iff {packet : Packet} (h : io.Holds unread) :
    InputMeets io unread packet (io.input (some packet)) ↔ NotExact io unread packet := by
  constructor
  · intro hmeets hready hexact
    have hvisited := hmeets.visited
    rw [visited_of_exact h hready hexact, Io.receive,
      if_pos ⟨hready, Nat.le_of_eq hexact⟩] at hvisited
    simp at hvisited
  · intro hok
    by_cases hin : io.ready = true ∧ occupyPages packet ≤ io.free unread
    · obtain ⟨hstored, hkept⟩ := input_stores h hin.1 hin.2 rfl
      obtain ⟨-, -, -, hcurr, -⟩ := input_accepted h hin.1 hin.2 rfl
      exact ⟨fun _ hlt => absurd hin.2 (by omega), fun _ _ => ⟨hstored, hcurr⟩, hkept,
        (h.input hok).visited⟩
    · have hvisited := (h.input hok).visited
      obtain ⟨isr, intr, hio', hisr⟩ := input_refused h hin
      rw [hio'] at hvisited ⊢
      exact ⟨fun hready _ => ⟨hisr hready ▸ isrOvw_set io.ISR, rfl, rfl⟩,
        fun hready hfit => absurd ⟨hready, hfit⟩ hin, fun _ _ => rfl, hvisited⟩

theorem Io.Holds.none (h : io.Holds unread) : (io.input .none).Holds unread := by
  have hsame : io.input .none = io := by
    unfold Io.input
    split <;> rfl
  rw [hsame]
  exact h

end

/-! ## Runs -/

theorem Run.holds {io₀ io : Io} {unread₀ unread : List Packet} (hstart : io₀.Holds unread₀)
    (hrun : Run NotExact io₀ unread₀ io unread) : io.Holds unread := by
  induction hrun with
  | start => exact hstart
  | none _ ih => exact ih.none
  | input _ packet hok ih => exact ih.input hok
  | release _ n hn ih => exact ih.release hn

/-- While no packet fills the ring to its last page the guest finds the unread packets, and a
further packet does what it should but where it does that. -/
theorem ring_keeps {io₀ io : Io} {unread₀ unread : List Packet} (hstart : io₀.Holds unread₀)
    (hrun : Run NotExact io₀ unread₀ io unread) :
    io.visited = some (unread.map padded) ∧ ∀ packet,
      InputMeets io unread packet (io.input (some packet)) ↔ NotExact io unread packet := by
  have hholds := hrun.holds hstart
  exact ⟨hholds.visited, fun _ => input_meets_iff hholds⟩

/-- A running device with an empty ring. -/
def emptyRing (PSTART PSTOP : Nat) : Io :=
  ⟨0x22, PSTART, PSTOP, PSTART, 0, 0, 0, 0, PSTART, fun _ => 0, false, 0⟩

theorem holds_emptyRing {PSTART PSTOP : Nat} (hstart : startPage ≤ PSTART) (hlt : PSTART < PSTOP)
    (hstop : PSTOP ≤ endPage) : (emptyRing PSTART PSTOP).Holds [] :=
  ⟨⟨hstart, hlt, hstop⟩, ⟨Nat.le_refl PSTART, hlt⟩, Nat.sub_pos_of_lt hlt,
    (Ring.shift_zero hlt).symm, trivial⟩

/-- A packet of one byte. -/
def ping (b : Byte) : Packet := ⟨[b], Nat.succ_le_succ (Nat.zero_le 1599)⟩

theorem ring_keeps_second :
    let io := (emptyRing 0x4c 0x4f).input (some (ping 0xaa))
    io.visited = some [padded (ping 0xaa)] ∧
      InputMeets io [ping 0xaa] (ping 0xbb) (io.input (some (ping 0xbb))) := by
  intro io
  have hrun : Run NotExact (emptyRing 0x4c 0x4f) [] io [ping 0xaa] :=
    Run.start.input (ping 0xaa) fun _ => by decide
  obtain ⟨hvisited, hmeets⟩ := ring_keeps (holds_emptyRing (by decide) (by decide) (by decide)) hrun
  exact ⟨hvisited, (hmeets (ping 0xbb)).mpr fun _ => by decide⟩

/-- In two pages the second packet fills the ring, and the third overwrites the first. -/
theorem third_packet_overwrites :
    ¬∀ io₀ unread₀ io unread, Io.Holds io₀ unread₀ → Run (fun _ _ _ => True) io₀ unread₀ io unread →
      io.visited = some (unread.map padded) ∧ ∀ packet,
        InputMeets io unread packet (io.input (some packet)) := by
  intro h
  have hstart : Run (fun _ _ _ => True) (emptyRing 0x4c 0x4e) [] (emptyRing 0x4c 0x4e) [] := .start
  have hrun := (hstart.input (ping 0xaa) trivial).input (ping 0xbb) trivial
  have hmeets := (h _ _ _ _ (holds_emptyRing (by decide) (by decide) (by decide)) hrun).2
  exact absurd ((hmeets (ping 0xcc)).kept 4 (by decide)) (by decide)

end SkyEye.Rtl8019
