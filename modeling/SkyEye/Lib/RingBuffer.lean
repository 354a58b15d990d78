import Mathlib.Tactic.Common
import Mathlib.Logic.Function.Basic
import Mathlib.Data.List.Nodup
import Mathlib.Data.Nat.ModEq

/-!
# Rings of positions

The positions from `lo` up to `hi` with the step from the last to the first, and blocks of bytes
copied into a memory.
-/

namespace Ring

variable {lo hi x : Nat}

/-- `k` positions on from `x`, round the ring at most once. -/
def shift (lo hi x k : Nat) : Nat :=
  if x + k < hi then x + k else x + k + lo - hi

theorem shift_zero (hx : x < hi) : shift lo hi x 0 = x := if_pos hx

theorem shift_mem (hlo : lo ≤ x) (hx : x < hi) {k : Nat} (hk : k ≤ hi - lo) :
    lo ≤ shift lo hi x k ∧ shift lo hi x k < hi := by
  unfold shift
  split <;> omega

theorem shift_shift (hlo : lo ≤ x) (hx : x < hi) {j k : Nat} (h : j + k ≤ hi - lo) :
    shift lo hi (shift lo hi x j) k = shift lo hi x (j + k) := by
  unfold shift
  split <;> split <;> split <;> omega

/-- Less than once round the ring no position comes twice. -/
theorem shift_inj {j k : Nat} (hj : j < hi - lo) (hk : k < hi - lo)
    (h : shift lo hi x j = shift lo hi x k) : j = k := by
  unfold shift at h
  split at h <;> split at h <;> omega

/-- Once round the ring. -/
theorem shift_length (hlo : lo ≤ x) (hx : x < hi) : shift lo hi x (hi - lo) = x := by
  unfold shift
  split <;> omega

/-- The ring of the parts of a position. -/
theorem shift_mul {c : Nat} (hc : 0 < c) (lo hi x k : Nat) :
    shift (lo * c) (hi * c) (x * c) (k * c) = shift lo hi x k * c := by
  have hiff : x * c + k * c < hi * c ↔ x + k < hi := by
    rw [← Nat.add_mul]
    exact Nat.mul_lt_mul_right hc
  unfold shift
  by_cases h : x + k < hi
  · rw [if_pos h, if_pos (hiff.mpr h), Nat.add_mul]
  · rw [if_neg h, if_neg (fun hlt => h (hiff.mp hlt)), Nat.sub_mul, Nat.add_mul, Nat.add_mul]

end Ring

/-! ## Blocks -/

namespace Block

variable {α : Type*}

/-- The memory with the list at `base`. -/
def copy (mem : Nat → α) (base : Nat) (l : List α) : Nat → α := fun i =>
  if h : base ≤ i ∧ i - base < l.length then l.get ⟨i - base, h.2⟩ else mem i

theorem copy_at (mem : Nat → α) (base : Nat) (l : List α) {k : Nat} (hk : k < l.length) :
    copy mem base l (base + k) = l[k] := by
  have hsub : base + k - base = k := Nat.add_sub_cancel_left base k
  unfold copy
  rw [dif_pos ⟨Nat.le_add_right base k, hsub.symm ▸ hk⟩]
  exact congrArg l.get (Fin.ext hsub)

theorem copy_of_not (mem : Nat → α) {base : Nat} (l : List α) {i : Nat}
    (hi : ¬(base ≤ i ∧ i - base < l.length)) : copy mem base l i = mem i := dif_neg hi

theorem copy_of_lt (mem : Nat → α) {base : Nat} (l : List α) {i : Nat} (hi : i < base) :
    copy mem base l i = mem i := dif_neg fun h => absurd h.1 (by omega)

theorem copy_of_ge (mem : Nat → α) {base : Nat} (l : List α) {i : Nat}
    (hi : base + l.length ≤ i) : copy mem base l i = mem i := dif_neg fun h => by omega

theorem copy_nil (mem : Nat → α) (base : Nat) : copy mem base [] = mem :=
  funext fun _ => dif_neg fun h => absurd h.2 (Nat.not_lt_zero _)

/-- A list copied in two parts. -/
theorem copy_copy (mem : Nat → α) (base : Nat) (l m : List α) :
    copy (copy mem base l) (base + l.length) m = copy mem base (l ++ m) := by
  funext i
  by_cases hlow : i < base
  · rw [copy_of_lt _ _ (by omega), copy_of_lt _ _ hlow, copy_of_lt _ _ hlow]
  obtain ⟨k, rfl⟩ := Nat.exists_eq_add_of_le (Nat.le_of_not_lt hlow)
  by_cases hl : k < l.length
  · rw [copy_of_lt _ _ (by omega), copy_at _ _ _ hl,
      copy_at _ _ _ (by rw [List.length_append]; omega), List.getElem_append_left hl]
  obtain ⟨j, rfl⟩ := Nat.exists_eq_add_of_le (Nat.le_of_not_lt hl)
  by_cases hm : j < m.length
  · rw [← Nat.add_assoc, copy_at _ _ _ hm, Nat.add_assoc,
      copy_at _ _ _ (by rw [List.length_append]; omega),
      List.getElem_append_right (Nat.le_add_right _ _)]
    congr 1
    omega
  · rw [copy_of_ge _ _ (by omega), copy_of_ge _ _ (by omega),
      copy_of_ge _ _ (by rw [List.length_append]; omega)]

end Block

/-!
## Ring buffers

A bounded queue in an array: elements are put in at `first` and taken out at `last`,
and both positions wrap around. `toList` is the queue the array holds, oldest element
first; `push` and `pop` are the queue's operations on it.
-/

/-- `used` elements from position `last` on; `first` is the position after them. -/
structure RingBuffer (n : Nat) (α : Type*) where
  slot : Fin n → α
  first : Fin n
  last : Fin n
  used : Nat
  used_le : used ≤ n
  first_eq : first.val = (last.val + used) % n

namespace RingBuffer

variable {n : Nat} {α : Type*}

/-- The position after `i`, round the ring. -/
def next (i : Fin n) : Fin n :=
  if h : i.val + 1 < n then ⟨i.val + 1, h⟩ else ⟨0, Nat.zero_lt_of_lt i.isLt⟩

theorem next_val (i : Fin n) : (next i).val = (i.val + 1) % n := by
  have hi := i.isLt
  unfold next
  split
  · rename_i h
    exact (Nat.mod_eq_of_lt h).symm
  · have h : i.val + 1 = n := by omega
    simp [h]

def empty (h : 0 < n) (x : α) : RingBuffer n α where
  slot _ := x
  first := ⟨0, h⟩
  last := ⟨0, h⟩
  used := 0
  used_le := Nat.zero_le n
  first_eq := by simp

/-- Put an element in; a full ring has no room. -/
def push (r : RingBuffer n α) (h : r.used < n) (x : α) : RingBuffer n α where
  slot := Function.update r.slot r.first x
  first := next r.first
  last := r.last
  used := r.used + 1
  used_le := h
  first_eq := by rw [next_val, r.first_eq, Nat.mod_add_mod, Nat.add_assoc]

/-- Take the oldest element out. -/
def pop (r : RingBuffer n α) (h : 0 < r.used) : RingBuffer n α where
  slot := r.slot
  first := r.first
  last := next r.last
  used := r.used - 1
  used_le := Nat.le_trans (Nat.sub_le _ _) r.used_le
  first_eq := by
    have hu : r.last.val + 1 + (r.used - 1) = r.last.val + r.used := by omega
    rw [next_val, Nat.mod_add_mod, hu, r.first_eq]

/-- The oldest element. -/
def oldest (r : RingBuffer n α) : α := r.slot r.last

/-- The element that has `i` elements before it. -/
def get (r : RingBuffer n α) (i : Nat) : α :=
  r.slot ⟨(r.last.val + i) % n, Nat.mod_lt _ (Nat.zero_lt_of_lt r.last.isLt)⟩

/-- The queue, oldest element first. -/
def toList (r : RingBuffer n α) : List α := (List.range r.used).map r.get

theorem toList_eq_nil {r : RingBuffer n α} (h : r.used = 0) : r.toList = [] := by simp [toList, h]

theorem get_zero (r : RingBuffer n α) : r.get 0 = r.oldest := by
  have h : (r.last.val + 0) % n = r.last.val := Nat.mod_eq_of_lt r.last.isLt
  simp only [get, oldest, h]

theorem get_pop (r : RingBuffer n α) (h : 0 < r.used) (i : Nat) : (r.pop h).get i = r.get (i + 1) := by
  have hi : ((next r.last).val + i) % n = (r.last.val + (i + 1)) % n := by
    rw [next_val, Nat.mod_add_mod, Nat.add_assoc, Nat.add_comm 1 i]
  simp only [get, pop, hi]

/-- Putting an element in moves none of the queue. -/
theorem get_push_of_lt (r : RingBuffer n α) (h : r.used < n) (x : α) {i : Nat} (hi : i < r.used) :
    (r.push h x).get i = r.get i := by
  have hne : (r.last.val + i) % n ≠ r.first.val := by
    rw [r.first_eq]
    intro he
    have hm := Nat.ModEq.add_left_cancel' r.last.val he
    rw [Nat.ModEq, Nat.mod_eq_of_lt (Nat.lt_trans hi h), Nat.mod_eq_of_lt h] at hm
    omega
  exact Function.update_of_ne (fun he => hne (congrArg Fin.val he)) _ _

theorem get_push_used (r : RingBuffer n α) (h : r.used < n) (x : α) :
    (r.push h x).get r.used = x := by
  have he : (⟨(r.last.val + r.used) % n, Nat.mod_lt _ (Nat.zero_lt_of_lt h)⟩ : Fin n) = r.first :=
    Fin.ext r.first_eq.symm
  simp only [get, push, he, Function.update_self]

theorem toList_push (r : RingBuffer n α) (h : r.used < n) (x : α) :
    (r.push h x).toList = r.toList ++ [x] := by
  have hq : (List.range r.used).map (r.push h x).get = r.toList :=
    List.map_congr_left fun i hi => r.get_push_of_lt h x (List.mem_range.mp hi)
  have hu : (r.push h x).used = r.used + 1 := rfl
  rw [toList, hu, List.range_succ, List.map_append, hq, List.map_singleton, get_push_used]

theorem toList_pop (r : RingBuffer n α) (h : 0 < r.used) : r.toList = r.oldest :: (r.pop h).toList := by
  have hu : r.used = (r.pop h).used + 1 := (Nat.sub_add_cancel h).symm
  rw [toList, hu, List.range_succ_eq_map, List.map_cons, get_zero, List.map_map]
  refine congrArg (r.oldest :: ·) (List.map_congr_left fun i _ => ?_)
  exact (r.get_pop h i).symm

/-! ## The positions in use -/

/-- The positions of the queue's elements, oldest first. -/
def held (r : RingBuffer n α) : List Nat :=
  (List.range r.used).map fun i => (r.last.val + i) % n

@[simp] theorem length_held (r : RingBuffer n α) : r.held.length = r.used := by simp [held]

theorem held_push (r : RingBuffer n α) (h : r.used < n) (x : α) :
    (r.push h x).held = r.held ++ [r.first.val] := by
  rw [r.first_eq]
  show (List.range (r.used + 1)).map _ = _
  rw [List.range_succ, List.map_append, List.map_singleton]
  rfl

theorem held_pop (r : RingBuffer n α) (h : 0 < r.used) :
    r.held = r.last.val :: (r.pop h).held := by
  have hu : r.used = (r.pop h).used + 1 := (Nat.sub_add_cancel h).symm
  have hlast : (r.last.val + 0) % n = r.last.val := Nat.mod_eq_of_lt r.last.isLt
  rw [held, hu, List.range_succ_eq_map, List.map_cons, hlast, List.map_map]
  refine congrArg (r.last.val :: ·) (List.map_congr_left fun i _ => ?_)
  show (r.last.val + (i + 1)) % n = ((next r.last).val + i) % n
  rw [next_val, Nat.mod_add_mod, Nat.add_assoc, Nat.add_comm 1 i]

/-- No position is held twice. -/
theorem nodup_held (r : RingBuffer n α) : r.held.Nodup := by
  refine List.Nodup.map_on ?_ List.nodup_range
  intro i hi j hj he
  rw [List.mem_range] at hi hj
  have hm := Nat.ModEq.add_left_cancel' r.last.val he
  have hle := r.used_le
  rwa [Nat.ModEq, Nat.mod_eq_of_lt (by omega), Nat.mod_eq_of_lt (by omega)] at hm

theorem mem_held_lt (r : RingBuffer n α) {i : Nat} (hi : i ∈ r.held) : i < n := by
  obtain ⟨k, -, rfl⟩ := List.mem_map.mp hi
  exact Nat.mod_lt _ (Nat.zero_lt_of_lt r.last.isLt)

end RingBuffer
