import SkyEye.Arm.Defs
import SkyEye.Lib.TimingWheel

/-!
# The event queue

`ARMul_ScheduleEvent` and `ARMul_EnvokeEvent` of `armsupp.c`: functions to be called
after a number of cycles wait in a ring of `EVENTLISTSIZE` lists. The cycle counters
count without end here; `armulTime` is what the code adds up of them in an `unsigned int`.

`Now` is reduced to a ring index by `ARMul_EnvokeEvent` only. An event scheduled on an
empty queue later than the first turn leaves it unreduced, and the next scan then starts
at index 0. Events do come on time in the runs that keep `InTime`
(`events_fire_on_time`).
-/

namespace SkyEye

open TimingWheel

/-- `NumScycles`, `NumNcycles`, `NumIcycles`, `NumCcycles` and `NumFcycles`. -/
structure Cycles where
  numScycles : Nat
  numNcycles : Nat
  numIcycles : Nat
  numCcycles : Nat
  numFcycles : Nat

/-- The cycles counted since the last reset. -/
def Cycles.total (c : Cycles) : Nat :=
  c.numScycles + c.numNcycles + c.numIcycles + c.numCcycles + c.numFcycles

def armulTime (c : Cycles) : ARMword :=
  BitVec.ofNat 32 c.numScycles + BitVec.ofNat 32 c.numNcycles + BitVec.ofNat 32 c.numIcycles +
    BitVec.ofNat 32 c.numCcycles + BitVec.ofNat 32 c.numFcycles

theorem armulTime_eq (c : Cycles) : armulTime c = BitVec.ofNat 32 c.total := by
  simp only [armulTime, Cycles.total, BitVec.ofNat_add]

def EVENTLISTSIZE : Nat := 1024

/-- `EventSet`, `Now` and `EventPtr` -/
structure EventQueue (E : Type) where
  eventSet : ARMword
  now : ARMword
  eventPtr : Nat → List E

namespace EventQueue

variable {E : Type}

/-- As `ARMul_NewState` leaves it. -/
def new : EventQueue E where
  eventSet := 0
  now := 0
  eventPtr _ := []

def scheduleEvent (time delay : ARMword) (what : E) (q : EventQueue E) : EventQueue E :=
  let now := if q.eventSet = 0 then time else q.now
  let slot := (now + delay).toNat % EVENTLISTSIZE
  { eventSet := q.eventSet + 1
    now := now
    eventPtr := Function.update q.eventPtr slot (what :: q.eventPtr slot) }

/-- The body of the loop of `EnvokeList`: the functions in one list are called, after
those in `fired`, and the list is cleared. -/
def envokeSlot (s : List E × EventQueue E) (i : Nat) : List E × EventQueue E :=
  (s.1 ++ s.2.eventPtr i,
    { s.2 with
      eventSet := s.2.eventSet - BitVec.ofNat 32 (s.2.eventPtr i).length
      eventPtr := Function.update s.2.eventPtr i [] })

def envokeList (start stop : Nat) (s : List E × EventQueue E) : List E × EventQueue E :=
  (List.range' start (stop + 1 - start)).foldl envokeSlot s

/-- `ARMul_EnvokeEvent`: the functions called, and the queue after them. -/
def envokeEvent (time : ARMword) (q : EventQueue E) : List E × EventQueue E :=
  let thn := q.now.toNat
  let now := time.toNat % EVENTLISTSIZE
  let s := ([], { q with now := BitVec.ofNat 32 now })
  if thn < now then envokeList thn now s
  else if now < thn then envokeList 0 now (envokeList thn (EVENTLISTSIZE - 1) s)
  else s

/-! ## The scan -/

/-- The lists a scan from `thn` to `now` goes through. -/
def scan (thn now : Nat) : List Nat :=
  if thn < now then List.range' thn (now + 1 - thn)
  else if now < thn then
    List.range' thn (EVENTLISTSIZE - thn) ++ List.range' 0 (now + 1)
  else []

/-- A queue with the lists `is` called and cleared. -/
def cleared (is : List Nat) (q : EventQueue E) : EventQueue E where
  eventSet := q.eventSet - BitVec.ofNat 32 (is.flatMap q.eventPtr).length
  now := q.now
  eventPtr i := if i ∈ is then [] else q.eventPtr i

theorem envokeSlot_foldl : ∀ {is : List Nat}, is.Nodup → ∀ (fired : List E) (q : EventQueue E),
    is.foldl envokeSlot (fired, q) = (fired ++ is.flatMap q.eventPtr, q.cleared is)
  | [], _, fired, q => by simp [cleared]
  | i :: is, hnd, fired, q => by
    obtain ⟨hi, hnd⟩ := List.nodup_cons.mp hnd
    have hrest : is.flatMap (Function.update q.eventPtr i []) = is.flatMap q.eventPtr :=
      List.flatMap_congr fun j hj => Function.update_of_ne (ne_of_mem_of_not_mem hj hi) _ _
    rw [List.foldl_cons, envokeSlot, envokeSlot_foldl hnd]
    simp only [cleared, hrest, List.flatMap_cons, List.append_assoc, List.length_append,
      BitVec.ofNat_add, Prod.mk.injEq, true_and, mk.injEq]
    refine ⟨BitVec.sub_sub _ _ _, ?_⟩
    funext j
    by_cases hj : j = i
    · subst hj
      simp
    · simp [hj]

theorem scan_lt {thn now : Nat} (h : now < EVENTLISTSIZE) :
    ∀ i ∈ scan thn now, i < EVENTLISTSIZE := by
  intro i hi
  unfold scan at hi
  split at hi
  · simp only [List.mem_range'_1] at hi
    omega
  · split at hi
    · simp only [List.mem_append, List.mem_range'_1] at hi
      omega
    · cases hi

theorem scan_nodup (thn now : Nat) : (scan thn now).Nodup := by
  unfold scan
  split
  · exact List.nodup_range'
  · split
    · refine List.nodup_append.mpr ⟨List.nodup_range', List.nodup_range', ?_⟩
      intro i hi j hj
      simp only [List.mem_range'_1] at hi hj
      omega
    · exact List.nodup_nil

theorem envokeEvent_eq (time : ARMword) (q : EventQueue E) :
    let now := time.toNat % EVENTLISTSIZE
    q.envokeEvent time = ((scan q.now.toNat now).flatMap q.eventPtr,
      { q with now := BitVec.ofNat 32 now }.cleared (scan q.now.toNat now)) := by
  intro now
  have hfold : q.envokeEvent time = (scan q.now.toNat now).foldl envokeSlot
      ([], { q with now := BitVec.ofNat 32 now }) := by
    unfold envokeEvent scan envokeList
    dsimp only
    split
    · rfl
    · split
      · rw [List.foldl_append, Nat.sub_add_cancel (by decide), Nat.sub_zero]
      · rfl
  rw [hfold, envokeSlot_foldl (scan_nodup _ _), List.nil_append]

/-! ## Runs -/

/-- A call of `ARMul_ScheduleEvent` or of `ARMul_EnvokeEvent`. -/
inductive Call (E : Type) where
  | schedule (at_ : Cycles) (delay : ARMword) (what : E)
  | envoke (at_ : Cycles)

def Call.time : Call E → Nat
  | .schedule c _ _ => c.total
  | .envoke c => c.total

/-- What the call asks of an agenda. -/
def Call.op : Call E → Op E
  | .schedule c delay what => .wait what (c.total + delay.toNat)
  | .envoke c => .poll c.total

/-- Delays are positive and shorter than the ring. -/
def Call.DelayInRing : Call E → Prop
  | .schedule _ delay _ => 0 < delay.toNat ∧ delay.toNat < EVENTLISTSIZE
  | .envoke _ => True

/-- Calls at non-decreasing times, with delays that fit the ring. -/
def Legal (calls : List (Call E)) : Prop :=
  calls.Pairwise (fun a b => a.time ≤ b.time) ∧ ∀ a ∈ calls, a.DelayInRing

/-- A queue, and the time that its `now` stands for. -/
structure Timed (E : Type) where
  queue : EventQueue E
  base : Nat

def Timed.start : Timed E := ⟨new, 0⟩

def Timed.step (s : Timed E) : Call E → Timed E
  | .schedule c delay what =>
    { queue := s.queue.scheduleEvent (armulTime c) delay what
      base := if s.queue.eventSet = 0 then c.total else s.base }
  | .envoke c => { queue := (s.queue.envokeEvent (armulTime c)).2, base := c.total }

/-- The queue after a list of calls. -/
def Timed.after (calls : List (Call E)) : Timed E := calls.foldl Timed.step .start

/-- Every call of `ARMul_EnvokeEvent` calls the functions whose time has come since the
call before it, each as often as it was scheduled for then. -/
def OnTime (calls : List (Call E)) : Prop :=
  ∀ before c rest, calls = before ++ .envoke c :: rest →
    ((Timed.after before).queue.envokeEvent (armulTime c)).1.Perm
      (firstDue (before.map Call.op) c.total)

/-- The scan starts at a ring index, or no list that has a function lies on the other
side of `now`'s ring index than the scan goes. -/
def Reduced (q : EventQueue E) (t : Nat) : Prop :=
  q.now.toNat < EVENTLISTSIZE ∨ ∀ i < EVENTLISTSIZE, q.eventPtr i ≠ [] →
    (q.now.toNat % EVENTLISTSIZE ≤ t % EVENTLISTSIZE ↔ q.now.toNat % EVENTLISTSIZE < i)

/-- When the queue is not empty, functions are scheduled at the time `now` stands for and
the queue is scanned less than one turn after it. -/
def Timed.InTime (s : Timed E) : Call E → Prop
  | .schedule c _ _ => s.queue.eventSet = 0 ∨ (c.total = s.base ∧ s.queue.eventSet + 1 ≠ 0)
  | .envoke c =>
    s.queue.eventSet = 0 ∨ (c.total < s.base + EVENTLISTSIZE ∧ s.queue.Reduced c.total)

/-- Every call of the list keeps `InTime`. -/
def Timed.AllInTime : Timed E → List (Call E) → Prop
  | _, [] => True
  | s, a :: calls => s.InTime a ∧ (s.step a).AllInTime calls

/-! ## The queue follows the agenda -/

/-- The queue has the functions of `w`, all less than one turn ahead. -/
structure Timed.Follows (s : Timed E) (w : Waiting E) : Prop where
  now : s.queue.now.toNat % EVENTLISTSIZE = s.base % EVENTLISTSIZE
  eventSet : s.queue.eventSet.toNat = w.length
  holds : Holds EVENTLISTSIZE s.queue.eventPtr w
  ahead : ∀ p ∈ w, s.base < p.2 ∧ p.2 < s.base + EVENTLISTSIZE

theorem Timed.Follows.start : (Timed.start (E := E)).Follows [] where
  now := rfl
  eventSet := rfl
  holds := Holds.empty
  ahead := by simp

theorem armulTime_mod (c : Cycles) :
    (armulTime c).toNat % EVENTLISTSIZE = c.total % EVENTLISTSIZE := by
  rw [armulTime_eq, BitVec.toNat_ofNat]
  exact Nat.mod_mod_of_dvd _ (by decide)

theorem Timed.Follows.eq_nil {s : Timed E} {w : Waiting E} (h : s.Follows w)
    (h0 : s.queue.eventSet = 0) : w = [] := by
  have := h.eventSet
  rw [h0] at this
  exact List.length_eq_zero_iff.mp this.symm

/-- Scheduling a function puts it on the agenda. -/
theorem Timed.Follows.schedule {s : Timed E} {w : Waiting E} (h : s.Follows w) {c : Cycles}
    {delay : ARMword} {what : E} (hd : (Call.schedule c delay what).DelayInRing)
    (hin : s.InTime (.schedule c delay what)) :
    (s.step (.schedule c delay what)).Follows ((what, c.total + delay.toNat) :: w) := by
  obtain ⟨hpos, hlt⟩ := hd
  have hslot : ∀ {now : ARMword}, now.toNat % EVENTLISTSIZE = c.total % EVENTLISTSIZE →
      (now + delay).toNat % EVENTLISTSIZE = (c.total + delay.toNat) % EVENTLISTSIZE := by
    intro now hnow
    rw [BitVec.toNat_add, Nat.mod_mod_of_dvd _ (by decide), Nat.add_mod, hnow, ← Nat.add_mod]
  by_cases h0 : s.queue.eventSet = 0
  · obtain rfl := h.eq_nil h0
    refine ⟨?_, ?_, ?_, ?_⟩
    · simpa [Timed.step, scheduleEvent, h0] using armulTime_mod c
    · simp [Timed.step, scheduleEvent, h0]
    · simp only [Timed.step, scheduleEvent, h0, if_true, hslot (armulTime_mod c)]
      exact h.holds.push _ _
    · simp only [Timed.step, h0, if_true, List.mem_singleton, forall_eq]
      omega
  · obtain ⟨hbase, hfull⟩ := hin.resolve_left h0
    refine ⟨?_, ?_, ?_, ?_⟩
    · simp only [Timed.step, scheduleEvent, if_neg h0]
      exact h.now
    · have hne : s.queue.eventSet.toNat + 1 < 2 ^ 32 := by
        have := s.queue.eventSet.isLt
        have : s.queue.eventSet.toNat + 1 ≠ 2 ^ 32 := fun he =>
          hfull (BitVec.eq_of_toNat_eq (by simp [BitVec.toNat_add, he]))
        omega
      simp only [Timed.step, scheduleEvent, BitVec.toNat_add, List.length_cons, ← h.eventSet]
      exact Nat.mod_eq_of_lt hne
    · simp only [Timed.step, scheduleEvent, if_neg h0, hslot (h.now.trans (by rw [hbase]))]
      exact h.holds.push _ _
    · simp only [Timed.step, if_neg h0, List.mem_cons, forall_eq_or_imp]
      exact ⟨by omega, h.ahead⟩

/-- The scan goes through the ring index of `i` if the hand of the ring passes it. -/
theorem mem_scan {q : EventQueue E} {t i : Nat} (hi : i < EVENTLISTSIZE)
    (hne : i ≠ q.now.toNat % EVENTLISTSIZE) (hp : q.eventPtr i ≠ []) (hr : q.Reduced t) :
    i ∈ scan q.now.toNat (t % EVENTLISTSIZE) ↔
      Passed (q.now.toNat % EVENTLISTSIZE) (t % EVENTLISTSIZE) i := by
  have ht : t % EVENTLISTSIZE < EVENTLISTSIZE := Nat.mod_lt _ (by omega)
  have hmem : i ∈ scan q.now.toNat (t % EVENTLISTSIZE) ↔
      (q.now.toNat < t % EVENTLISTSIZE ∧ q.now.toNat ≤ i ∧ i ≤ t % EVENTLISTSIZE) ∨
      (t % EVENTLISTSIZE < q.now.toNat ∧ (q.now.toNat ≤ i ∨ i ≤ t % EVENTLISTSIZE)) := by
    unfold scan
    split
    · simp only [List.mem_range'_1]
      omega
    · split
      · simp only [List.mem_append, List.mem_range'_1]
        omega
      · simp only [List.not_mem_nil, false_iff]
        omega
  rw [hmem]
  unfold Passed
  by_cases hred : q.now.toNat < EVENTLISTSIZE
  · rw [Nat.mod_eq_of_lt hred] at hne ⊢
    split <;> omega
  · have hside := hr.resolve_left hred i hi hp
    split <;> omega

/-- In time, the scan meets the functions that have expired. -/
theorem Timed.Follows.mem_scan_iff {s : Timed E} {w : Waiting E} (h : s.Follows w) {c : Cycles}
    (hle : s.base ≤ c.total) (hin : s.InTime (.envoke c)) {p : E × Nat} (hp : p ∈ w) :
    p.2 % EVENTLISTSIZE ∈ scan s.queue.now.toNat (c.total % EVENTLISTSIZE) ↔
      p.2 ≤ c.total := by
  have h0 : s.queue.eventSet ≠ 0 := by
    intro h0
    rw [h.eq_nil h0] at hp
    cases hp
  obtain ⟨hturn, hred⟩ := hin.resolve_left h0
  obtain ⟨hafter, hwithin⟩ := h.ahead p hp
  have hlt : p.2 % EVENTLISTSIZE < EVENTLISTSIZE := Nat.mod_lt _ (by omega)
  have hne : p.2 % EVENTLISTSIZE ≠ s.base % EVENTLISTSIZE := by
    simp only [EVENTLISTSIZE] at hwithin ⊢
    omega
  have hptr : s.queue.eventPtr (p.2 % EVENTLISTSIZE) ≠ [] := by
    intro he
    have hmem : p.1 ∈ s.queue.eventPtr (p.2 % EVENTLISTSIZE) :=
      (h.holds _ hlt).mem_iff.mpr (List.mem_map_of_mem (List.mem_filter.mpr ⟨hp, by simp⟩))
    rw [he] at hmem
    cases hmem
  rw [mem_scan hlt (by rwa [h.now]) hptr hred, h.now]
  exact passed_iff hle hturn hafter hwithin

theorem length_expired_add_later (w : Waiting E) (now : Nat) :
    (expired w now).length + (later w now).length = w.length := by
  have hsplit := List.length_eq_length_filter_add (l := w) (fun p => decide (p.2 ≤ now))
  have hnot : (fun p : E × Nat => !decide (p.2 ≤ now)) = fun p => decide (now < p.2) := by
    funext p
    rw [← decide_not, decide_eq_decide]
    exact Nat.not_le
  rw [hnot] at hsplit
  rw [expired, later, List.length_map, hsplit]

/-- `ARMul_EnvokeEvent` calls the functions that have expired; the later ones stay. -/
theorem Timed.Follows.envoke {s : Timed E} {w : Waiting E} (h : s.Follows w) {c : Cycles}
    (hle : s.base ≤ c.total) (hin : s.InTime (.envoke c)) :
    (s.queue.envokeEvent (armulTime c)).1.Perm (expired w c.total) ∧
      (s.step (.envoke c)).Follows (later w c.total) := by
  have hscan {p : E × Nat} (hp : p ∈ w) := h.mem_scan_iff hle hin hp
  have hfired : ((scan s.queue.now.toNat (c.total % EVENTLISTSIZE)).flatMap
      s.queue.eventPtr).Perm (expired w c.total) := by
    refine (h.holds.flatMap (scan_nodup _ _)
      (scan_lt (Nat.mod_lt _ (by decide)))).trans (.of_eq (congrArg _ ?_))
    exact List.filter_congr fun p hp => decide_eq_decide.mpr (hscan hp)
  have hlater : w.filter (fun p => p.2 % EVENTLISTSIZE ∉
      scan s.queue.now.toNat (c.total % EVENTLISTSIZE)) = later w c.total :=
    List.filter_congr fun p hp =>
      decide_eq_decide.mpr ((not_congr (hscan hp)).trans Nat.not_le)
  have hcount := length_expired_add_later w c.total
  have hevent := envokeEvent_eq (armulTime c) s.queue
  simp only [armulTime_mod] at hevent
  rw [Timed.step, hevent]
  refine ⟨hfired, ?_, ?_, ?_, ?_⟩
  · have : c.total % EVENTLISTSIZE < EVENTLISTSIZE := Nat.mod_lt _ (by decide)
    simp only [cleared, BitVec.toNat_ofNat]
    rw [Nat.mod_eq_of_lt (this.trans (by decide)), Nat.mod_mod]
  · have hset := h.eventSet
    have := s.queue.eventSet.isLt
    simp only [cleared, hfired.length_eq, BitVec.toNat_sub, BitVec.toNat_ofNat]
    omega
  · rw [← hlater]
    exact h.holds.clear _
  · intro p hp
    obtain ⟨hmem, hlt⟩ := List.mem_filter.mp hp
    have := (h.ahead p hmem).2
    simp only [decide_eq_true_eq] at hlt
    exact ⟨hlt, by simp only; omega⟩

theorem Timed.step_base_le {s : Timed E} {a b : Call E} (hs : s.base ≤ b.time)
    (hab : a.time ≤ b.time) : (s.step a).base ≤ b.time := by
  cases a with
  | schedule c delay what =>
    simp only [Timed.step]
    split
    · exact hab
    · exact hs
  | envoke c => exact hab

/-- One call keeps the queue on its agenda. -/
theorem Timed.Follows.step {s : Timed E} {w : Waiting E} (h : s.Follows w) {a : Call E}
    (hle : s.base ≤ a.time) (hd : a.DelayInRing) (hin : s.InTime a) :
    (s.step a).Follows (a.op.apply w) := by
  cases a with
  | schedule c delay what => exact h.schedule hd hin
  | envoke c => exact (h.envoke hle hin).2

/-- So does a run, whatever calls come after it. -/
theorem Timed.Follows.run {rest : List (Call E)} : ∀ {calls : List (Call E)} {s : Timed E}
    {w : Waiting E}, s.Follows w → (∀ a ∈ calls ++ rest, s.base ≤ a.time) →
      Legal (calls ++ rest) → s.AllInTime (calls ++ rest) →
      (calls.foldl Timed.step s).Follows ((calls.map Call.op).foldl Op.apply w) ∧
        (∀ a ∈ rest, (calls.foldl Timed.step s).base ≤ a.time) ∧
        (calls.foldl Timed.step s).AllInTime rest
  | [], s, w, h, hle, _, hin => ⟨h, hle, hin⟩
  | a :: calls, s, w, h, hle, ⟨hsorted, hdelay⟩, hin => by
    obtain ⟨hfirst, hsorted⟩ := List.pairwise_cons.mp hsorted
    have hle' : ∀ b ∈ calls ++ rest, (s.step a).base ≤ b.time := fun b hb =>
      Timed.step_base_le (hle b (List.mem_cons_of_mem _ hb)) (hfirst b hb)
    have hstep := h.step (hle a List.mem_cons_self) (hdelay a List.mem_cons_self) hin.1
    exact hstep.run hle' ⟨hsorted, fun b hb => hdelay b (List.mem_cons_of_mem _ hb)⟩ hin.2

/-- Functions are called on time in every run whose calls keep `InTime`. -/
theorem events_fire_on_time {calls : List (Call E)} (hl : Legal calls)
    (hin : Timed.start.AllInTime calls) : OnTime calls := by
  rintro before c rest rfl
  obtain ⟨hf, hle, hin⟩ := Timed.Follows.start.run (fun a _ => Nat.zero_le _) hl hin
  have henvoke := (hf.envoke (hle _ List.mem_cons_self) hin.1).1
  refine henvoke.trans ((expired_foldl c.total (before.map Call.op) []).trans (.of_eq ?_))
  simp [expired]

/-- A count of `n` cycles. -/
def cyclesOf (n : Nat) : Cycles := ⟨n, 0, 0, 0, 0⟩

/-- Round the end of the ring: ten cycles after cycle 1020, with scans at 1023 and 1031. -/
theorem events_fire_on_time_round : OnTime
    [.schedule (cyclesOf 1020) 10 (), .envoke (cyclesOf 1023), .envoke (cyclesOf 1031)] :=
  events_fire_on_time
    ⟨by simp [Call.time, cyclesOf, Cycles.total],
      by simp [Call.DelayInRing, EVENTLISTSIZE]⟩
    ⟨.inl rfl, .inr ⟨by decide, .inl (by decide)⟩, .inr ⟨by decide, .inl (by decide)⟩, trivial⟩

/-- Scheduled at cycle 1025 for 1023 cycles later, called at cycle 1026. -/
theorem event_fires_early :
    ¬ ∀ calls : List (Call Unit), Legal calls → OnTime calls := by
  intro h
  have hlegal : Legal [.schedule (cyclesOf 1025) 1023 (), .envoke (cyclesOf 1026)] :=
    ⟨by simp [Call.time, cyclesOf, Cycles.total], by simp [Call.DelayInRing, EVENTLISTSIZE]⟩
  have := (h _ hlegal [.schedule (cyclesOf 1025) 1023 ()] (cyclesOf 1026) [] rfl).length_eq
  revert this
  decide

end EventQueue

end SkyEye
