import Mathlib.Logic.Function.Basic
import Mathlib.Tactic.Common

/-!
# Write-back caches

A cache holds copies of some keys of a memory, and a copy may be dirty, that is newer
than the memory. What a reader of both sees is a third store, the view. The three agree
(`Agrees`) if every copy is the view's value, and memory is too except under a dirty
copy. What happens to a key between two stores to it is a `Move`: its copy is filled,
cleaned or dropped, and the view stays (`Agrees.moves`); a store changes the view at one
key (`Agrees.store`). Of several writes to memory the last of each key stays (`writes`).
-/

namespace WriteBack

variable {K V : Type*}

/-- A copy of a key, or none: its value, and whether it is dirty. -/
abbrev Copy (V : Type*) := Option (V × Bool)

/-- A copy `c` and a memory value `m` that together stand for the value `v`. -/
def Agree (c : Copy V) (m v : V) : Prop :=
  match c with
  | none => m = v
  | some (x, dirty) => x = v ∧ (dirty = false → m = v)

/-- What becomes of a copy and a memory value when nothing is stored. -/
inductive Move : Copy V → V → Copy V → V → Prop where
  | stay (c : Copy V) (m : V) : Move c m c m
  | fill (m : V) : Move none m (some (m, false)) m
  | soil (x : V) (dirty : Bool) (m : V) : Move (some (x, dirty)) m (some (x, true)) m
  | clean (x : V) (dirty : Bool) (m : V) : Move (some (x, dirty)) m (some (x, false)) x
  | evict (x : V) (dirty : Bool) (m : V) : Move (some (x, dirty)) m none x
  | drop (x m : V) : Move (some (x, false)) m none m

theorem Move.agree {c c' : Copy V} {m m' v : V} (h : Move c m c' m') (ha : Agree c m v) :
    Agree c' m' v := by
  cases h with
  | stay => exact ha
  | fill => exact ⟨ha, fun _ => ha⟩
  | soil => exact ⟨ha.1, fun hd => absurd hd (by decide)⟩
  | clean => exact ⟨ha.1, fun _ => ha.1⟩
  | evict => exact ha.1
  | drop => exact ha.2 rfl

/-- A copy is written to memory if it is dirty. -/
theorem Move.cleanIf (x : V) (dirty : Bool) (m : V) :
    Move (some (x, dirty)) m (some (x, false)) (if dirty then x else m) := by
  cases dirty with
  | false => exact .stay _ _
  | true => exact .clean x true m

theorem Move.evictIf (x : V) (dirty : Bool) (m : V) :
    Move (some (x, dirty)) m none (if dirty then x else m) := by
  cases dirty with
  | false => exact .drop x m
  | true => exact .evict x true m

/-- Memory takes a new value only from a copy. -/
theorem Move.mem {c c' : Copy V} {m m' : V} (h : Move c m c' m') :
    m' = m ∨ ∃ dirty, c = some (m', dirty) := by
  cases h with
  | stay | fill | soil | drop => exact .inl rfl
  | clean x dirty | evict x dirty => exact .inr ⟨dirty, rfl⟩

/-- The copies, the memory and the view agree at every key. -/
def Agrees (copy : K → Copy V) (mem view : K → V) : Prop := ∀ k, Agree (copy k) (mem k) (view k)

variable {copy copy' : K → Copy V} {mem mem' view : K → V}

theorem Agrees.moves (h : Agrees copy mem view)
    (hm : ∀ k, Move (copy k) (mem k) (copy' k) (mem' k)) : Agrees copy' mem' view :=
  fun k => (hm k).agree (h k)

/-- A store leaves a dirty copy of the key, or none and the new value in memory. -/
theorem Agrees.store [DecidableEq K] (h : Agrees copy mem view) {k : K} {v : V}
    (hk : copy' k = some (v, true) ∨ copy' k = none ∧ mem' k = v)
    (hm : ∀ j, j ≠ k → Move (copy j) (mem j) (copy' j) (mem' j)) :
    Agrees copy' mem' (Function.update view k v) := by
  intro j
  by_cases hj : j = k
  · subst hj
    rw [Function.update_self]
    rcases hk with hk | ⟨hk, hv⟩
    · rw [hk]
      exact ⟨rfl, fun hd => absurd hd (by decide)⟩
    · rw [hk]
      exact hv
  · rw [Function.update_of_ne hj]
    exact (hm j hj).agree (h j)

/-- A hit reads the view. -/
theorem Agrees.hit (h : Agrees copy mem view) {k : K} {x : V} {dirty : Bool}
    (hc : copy k = some (x, dirty)) : x = view k := by
  have hk := h k
  rw [hc] at hk
  exact hk.1

/-- A miss reads the view from memory. -/
theorem Agrees.miss (h : Agrees copy mem view) {k : K} (hc : copy k = none) :
    mem k = view k := by
  have hk := h k
  rw [hc] at hk
  exact hk

/-! ## Writes in order -/

variable [DecidableEq K]

/-- Memory after writes, first to last. -/
def writes (mem : K → V) (ws : List (K × V)) : K → V :=
  ws.foldl (fun mem w => Function.update mem w.1 w.2) mem

@[simp] theorem writes_nil : writes mem [] = mem := rfl

@[simp] theorem writes_cons (w : K × V) (ws : List (K × V)) :
    writes mem (w :: ws) = writes (Function.update mem w.1 w.2) ws := rfl

theorem writes_append (ws ws' : List (K × V)) :
    writes mem (ws ++ ws') = writes (writes mem ws) ws' := List.foldl_append

/-- The last write of a key is the one that stays. -/
theorem writes_apply (ws : List (K × V)) (k : K) :
    writes mem ws k = (ws.reverse.lookup k).getD (mem k) := by
  induction ws generalizing mem with
  | nil => rfl
  | cons w ws ih =>
    rw [writes_cons, ih, List.reverse_cons, List.lookup_append]
    cases ws.reverse.lookup k with
    | some v => rfl
    | none =>
      obtain ⟨j, v⟩ := w
      by_cases hj : k = j
      · simp [hj]
      · have hb : (k == j) = false := beq_false_of_ne hj
        have hl : [(j, v)].lookup k = none := by
          rw [List.lookup_cons, hb]
          rfl
        simp [hj, hl]

/-- Writes change nothing exactly if the last write of each key has the key's value. -/
theorem writes_eq_self_iff {ws : List (K × V)} :
    writes mem ws = mem ↔ ∀ k v, ws.reverse.lookup k = some v → mem k = v := by
  constructor
  · intro h k v hv
    rw [← congrFun h k, writes_apply, hv]
    rfl
  · intro h
    funext k
    rw [writes_apply]
    cases hl : ws.reverse.lookup k with
    | none => rfl
    | some v => exact (h k v hl).symm

end WriteBack
