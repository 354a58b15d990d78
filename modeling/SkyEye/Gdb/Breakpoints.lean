import SkyEye.Gdb.Tracepoint
import SkyEye.Lib.SlotSet

/-!
# The breakpoint table

`sim_ice_breakpoint_insert` and `sim_ice_breakpoint_remove` of `skyeye2gdb.c`: the
breakpoints are in the first `num_bps` places of the array, and the last one fills the
place of one that is removed. The table is a bounded set of addresses.
-/

namespace SkyEye.Gdb

open SlotSet

def maxBreakpoints : Nat := 64

/-- The breakpoints of `struct SkyEye_ICE`. -/
structure BreakpointTable where
  bps : Nat → Addr
  numBps : Nat

namespace BreakpointTable

variable (s : BreakpointTable) (addr : Addr)

/-- The loop that both functions start with: the first place that holds the address. -/
def find : Option Nat := (List.range s.numBps).find? fun i => s.bps i == addr

/-- `sim_ice_breakpoint_insert` -/
def breakpointInsert : Int × BreakpointTable :=
  if (s.find addr).isSome then (1, s)
  else if s.numBps ≥ maxBreakpoints then (-1, s)
  else (0, { bps := Function.update s.bps s.numBps addr, numBps := s.numBps + 1 })

/-- `sim_ice_breakpoint_remove` -/
def breakpointRemove : Int × BreakpointTable :=
  match s.find addr with
  | none => (0, s)
  | some i =>
    let numBps := s.numBps - 1
    let bps := if i < numBps then Function.update s.bps i (s.bps numBps) else s.bps
    (1, { bps, numBps })

/-- The addresses in the table. -/
def addresses : Finset Addr := elements s.bps s.numBps

/-- What every call keeps. -/
structure Ok : Prop where
  nodup : (held s.bps s.numBps).Nodup
  le : s.numBps ≤ maxBreakpoints

variable {s addr}

theorem find_some {i : Nat} (h : s.find addr = some i) : i < s.numBps ∧ s.bps i = addr := by
  have hi := List.mem_range.mp (List.mem_of_find?_eq_some h)
  have ha := List.find?_some h
  exact ⟨hi, by simpa using ha⟩

theorem isSome_find : (s.find addr).isSome ↔ addr ∈ s.addresses := by
  simp [find, addresses, mem_held]

theorem Ok.card (h : s.Ok) : s.addresses.card = s.numBps := card_elements h.nodup

/-! ## Insertion -/

theorem breakpointInsert_of_mem (h : addr ∈ s.addresses) : s.breakpointInsert addr = (1, s) := by
  rw [breakpointInsert, if_pos (isSome_find.mpr h)]

theorem breakpointInsert_of_full (h : addr ∉ s.addresses) (hf : s.numBps ≥ maxBreakpoints) :
    s.breakpointInsert addr = (-1, s) := by
  rw [breakpointInsert, if_neg (mt isSome_find.mp h), if_pos hf]

theorem breakpointInsert_of_room (h : addr ∉ s.addresses) (hf : s.numBps < maxBreakpoints) :
    s.breakpointInsert addr =
      (0, { bps := Function.update s.bps s.numBps addr, numBps := s.numBps + 1 }) := by
  rw [breakpointInsert, if_neg (mt isSome_find.mp h), if_neg (Nat.not_le.mpr hf)]

theorem addresses_insert_of_room (h : addr ∉ s.addresses) (hf : s.numBps < maxBreakpoints) :
    (s.breakpointInsert addr).2.addresses = insert addr s.addresses := by
  rw [breakpointInsert_of_room h hf]
  exact elements_push addr

theorem Ok.breakpointInsert (h : s.Ok) (addr : Addr) : (s.breakpointInsert addr).2.Ok := by
  by_cases hm : addr ∈ s.addresses
  · rw [breakpointInsert_of_mem hm]
    exact h
  · by_cases hf : s.numBps < maxBreakpoints
    · rw [breakpointInsert_of_room hm hf]
      exact ⟨nodup_push h.nodup (mt mem_elements.mpr hm), hf⟩
    · rw [breakpointInsert_of_full hm (Nat.le_of_not_lt hf)]
      exact h

/-! ## Removal -/

theorem breakpointRemove_of_notMem (h : addr ∉ s.addresses) : s.breakpointRemove addr = (0, s) := by
  have hn : s.find addr = none := by
    rw [← Option.not_isSome_iff_eq_none]
    exact mt isSome_find.mp h
  rw [breakpointRemove, hn]

/-- A removal of an address that is there takes one place away. -/
theorem breakpointRemove_of_mem (h : addr ∈ s.addresses) :
    ∃ n i, s.numBps = n + 1 ∧ i < n + 1 ∧ s.bps i = addr ∧
      s.breakpointRemove addr = (1, { bps := pull s.bps n i, numBps := n }) := by
  obtain ⟨i, hi⟩ := Option.isSome_iff_exists.mp (isSome_find.mpr h)
  obtain ⟨hlt, ha⟩ := find_some hi
  obtain ⟨n, hn⟩ := Nat.exists_eq_succ_of_ne_zero (Nat.ne_zero_of_lt hlt)
  rw [hn] at hlt
  refine ⟨n, i, hn, hlt, ha, ?_⟩
  rw [breakpointRemove, hi]
  simp [hn, pull]

theorem Ok.breakpointRemove (h : s.Ok) (addr : Addr) : (s.breakpointRemove addr).2.Ok := by
  by_cases hm : addr ∈ s.addresses
  · obtain ⟨n, i, hn, hi, -, he⟩ := breakpointRemove_of_mem hm
    have hd : (held s.bps (n + 1)).Nodup := hn ▸ h.nodup
    have hle := h.le
    rw [he]
    exact ⟨nodup_pull hd hi, by rw [hn] at hle; exact Nat.le_of_succ_le hle⟩
  · rw [breakpointRemove_of_notMem hm]
    exact h

theorem Ok.addresses_remove (h : s.Ok) (addr : Addr) :
    (s.breakpointRemove addr).2.addresses = s.addresses.erase addr := by
  by_cases hm : addr ∈ s.addresses
  · obtain ⟨n, i, hn, hi, ha, he⟩ := breakpointRemove_of_mem hm
    have hd : (held s.bps (n + 1)).Nodup := hn ▸ h.nodup
    rw [he, addresses, addresses, hn, ← ha]
    exact elements_pull hd hi
  · rw [breakpointRemove_of_notMem hm, Finset.erase_eq_of_notMem hm]

/-! ## The bounded set -/

end BreakpointTable

/-- A call from the debugger. -/
inductive BreakpointOp where
  | insert (addr : Addr)
  | remove (addr : Addr)

/-- A call on the table: its result code and the table after it. -/
def BreakpointTable.call (s : BreakpointTable) : BreakpointOp → Int × BreakpointTable
  | .insert addr => s.breakpointInsert addr
  | .remove addr => s.breakpointRemove addr

/-- The call on a set that holds at most `maxBreakpoints` addresses. -/
def callOnSet (S : Finset Addr) : BreakpointOp → Int × Finset Addr
  | .insert addr =>
    if addr ∈ S then (1, S)
    else if S.card = maxBreakpoints then (-1, S)
    else (0, insert addr S)
  | .remove addr => if addr ∈ S then (1, S.erase addr) else (0, S)

namespace BreakpointTable

variable {s : BreakpointTable}

theorem Ok.call (h : s.Ok) (op : BreakpointOp) : (s.call op).2.Ok := by
  cases op with
  | insert addr => exact h.breakpointInsert addr
  | remove addr => exact h.breakpointRemove addr

/-- One call does on the table what it does on the set. -/
theorem Ok.call_eq_callOnSet (h : s.Ok) (op : BreakpointOp) :
    ((s.call op).1, (s.call op).2.addresses) = callOnSet s.addresses op := by
  cases op with
  | insert addr =>
    rw [BreakpointTable.call, callOnSet]
    split
    · rename_i hm
      rw [breakpointInsert_of_mem hm]
    · rename_i hm
      split
      · rename_i hf
        rw [breakpointInsert_of_full hm (h.card ▸ hf.ge)]
      · rename_i hf
        have hlt : s.numBps < maxBreakpoints := lt_of_le_of_ne h.le (h.card ▸ hf)
        rw [addresses_insert_of_room hm hlt, breakpointInsert_of_room hm hlt]
  | remove addr =>
    rw [BreakpointTable.call, callOnSet, h.addresses_remove addr]
    split
    · rename_i hm
      obtain ⟨n, i, -, -, -, he⟩ := breakpointRemove_of_mem hm
      rw [he]
    · rename_i hm
      rw [breakpointRemove_of_notMem hm, Finset.erase_eq_of_notMem hm]

/-- The table after a run of calls. -/
def run (s : BreakpointTable) (ops : List BreakpointOp) : BreakpointTable :=
  ops.foldl (fun s op => (s.call op).2) s

theorem Ok.run (h : s.Ok) (ops : List BreakpointOp) : (s.run ops).Ok := by
  induction ops generalizing s with
  | nil => exact h
  | cons op ops ih => exact ih (h.call op)

theorem Ok.addresses_run (h : s.Ok) (ops : List BreakpointOp) :
    (s.run ops).addresses = ops.foldl (fun S op => (callOnSet S op).2) s.addresses := by
  induction ops generalizing s with
  | nil => rfl
  | cons op ops ih =>
    have hop := congrArg Prod.snd (h.call_eq_callOnSet op)
    rw [List.foldl_cons, ← hop]
    exact ih (h.call op)

/-- No breakpoint yet; the array holds whatever it holds. -/
def empty (bps : Nat → Addr) : BreakpointTable where
  bps := bps
  numBps := 0

theorem ok_empty (bps : Nat → Addr) : (empty bps).Ok := ⟨List.nodup_nil, Nat.zero_le _⟩

/-- After every run of calls the table is a set of at most `maxBreakpoints` addresses, and
the next call does on it, and answers, what it does on the set. -/
theorem breakpoints_refine_set (bps : Nat → Addr) (ops : List BreakpointOp) :
    let s := (empty bps).run ops
    let S := ops.foldl (fun S op => (callOnSet S op).2) ∅
    s.addresses = S ∧ (held s.bps s.numBps).Nodup ∧ s.numBps = S.card ∧
      s.numBps ≤ maxBreakpoints ∧
      ∀ addr,
        ((s.breakpointInsert addr).1 < 0 ↔ addr ∉ S ∧ S.card = maxBreakpoints) ∧
        (0 ≤ (s.breakpointInsert addr).1 → (s.breakpointInsert addr).2.addresses = insert addr S) ∧
        ((s.breakpointInsert addr).1 < 0 → (s.breakpointInsert addr).2.addresses = S) ∧
        (s.breakpointRemove addr).2.addresses = S.erase addr ∧
        ((s.breakpointInsert addr).1 = 1 ↔ addr ∈ S) ∧
        ((s.breakpointRemove addr).1 = if addr ∈ S then 1 else 0) := by
  intro s S
  have hok : s.Ok := (ok_empty bps).run ops
  have hS : s.addresses = S := (ok_empty bps).addresses_run ops
  refine ⟨hS, hok.nodup, by rw [← hS, hok.card], hok.le, fun addr => ?_⟩
  have hi := hok.call_eq_callOnSet (.insert addr)
  have hr := hok.call_eq_callOnSet (.remove addr)
  rw [hS] at hi hr
  obtain ⟨hi1, hi2⟩ := Prod.ext_iff.mp hi
  obtain ⟨hr1, hr2⟩ := Prod.ext_iff.mp hr
  dsimp only [call] at hi1 hi2 hr1 hr2
  rw [hi1, hi2, hr1, hr2]
  by_cases hm : addr ∈ S
  · simp [callOnSet, hm, Finset.insert_eq_of_mem]
  · by_cases hf : S.card = maxBreakpoints <;>
      simp [callOnSet, hm, hf, Finset.erase_eq_of_notMem]

end BreakpointTable

end SkyEye.Gdb
