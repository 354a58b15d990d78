import Mathlib.Data.List.Nodup
import Mathlib.Data.List.Permutation
import Mathlib.Logic.Function.Basic
import Mathlib.Tactic.Common

/-!
# Timing wheels

Events wait for times of their own, and a poll takes out those whose time has come: the
list `Waiting` is the abstract agenda, `expired` and `later` what a poll does to it. A
wheel of `n` slots keeps an event in the slot of its time modulo `n` (`Holds`). As long
as every time lies less than one turn ahead of `base`, the slots passed between `base`
and the poll hold exactly the expired events (`passed_iff`).
-/

namespace TimingWheel

variable {E : Type*} {n : Nat}

/-- Events with the times they wait for. -/
abbrev Waiting (E : Type*) := List (E × Nat)

/-- The events whose time has come at `t`. -/
def expired (w : Waiting E) (t : Nat) : List E := (w.filter (·.2 ≤ t)).map Prod.fst

/-- What still waits after `t`. -/
def later (w : Waiting E) (t : Nat) : Waiting E := w.filter (t < ·.2)

/-! ## Waits and polls -/

/-- An event starts to wait, or a poll takes out what is due. -/
inductive Op (E : Type*) where
  | wait (e : E) (due : Nat)
  | poll (t : Nat)

/-- The times of the polls. -/
def polls : List (Op E) → List Nat
  | [] => []
  | .wait _ _ :: ops => polls ops
  | .poll t :: ops => t :: polls ops

/-- The events that a poll at `t` is the first to find due, of those put in by `ops`. -/
def firstDue : List (Op E) → Nat → List E
  | [], _ => []
  | .wait e due :: ops, t =>
    if due ≤ t ∧ ∀ u ∈ polls ops, u < due then e :: firstDue ops t else firstDue ops t
  | .poll _ :: ops, t => firstDue ops t

/-- What waits after one operation. -/
def Op.apply (w : Waiting E) : Op E → Waiting E
  | .wait e due => (e, due) :: w
  | .poll t => later w t

/-- A poll after `ops` finds what it is the first to find due. -/
theorem expired_foldl (t : Nat) : ∀ (ops : List (Op E)) (w : Waiting E),
    (expired (ops.foldl Op.apply w) t).Perm
      (firstDue ops t ++ expired (w.filter fun p => ∀ u ∈ polls ops, u < p.2) t)
  | [], w => by simp [firstDue, polls]
  | .poll u :: ops, w => by
    refine (expired_foldl t ops (later w u)).trans (.of_eq ?_)
    rw [later, List.filter_filter]
    simp only [firstDue, polls]
    congr 3
    funext p
    rw [Bool.and_comm]
    simp
  | .wait e due :: ops, w => by
    refine (expired_foldl t ops ((e, due) :: w)).trans ?_
    by_cases hlive : ∀ u ∈ polls ops, u < due
    · by_cases hdue : due ≤ t
      · have hnow : firstDue (.wait e due :: ops) t = e :: firstDue ops t :=
          if_pos ⟨hdue, hlive⟩
        rw [hnow, List.filter_cons_of_pos (by simpa using hlive), expired,
          List.filter_cons_of_pos (by simpa using hdue)]
        exact List.perm_middle
      · have hnow : firstDue (.wait e due :: ops) t = firstDue ops t :=
          if_neg fun h => hdue h.1
        rw [hnow, List.filter_cons_of_pos (by simpa using hlive), expired,
          List.filter_cons_of_neg (by simpa using hdue)]
        exact .refl _
    · have hnow : firstDue (.wait e due :: ops) t = firstDue ops t :=
        if_neg fun h => hlive h.2
      rw [hnow, List.filter_cons_of_neg (by simpa using hlive)]
      exact .refl _

/-! ## The wheel -/

/-- Every slot of the wheel has the events of its times. -/
def Holds (n : Nat) (slots : Nat → List E) (w : Waiting E) : Prop :=
  ∀ i < n, (slots i).Perm ((w.filter (·.2 % n = i)).map Prod.fst)

theorem Holds.empty : Holds n (fun _ => []) ([] : Waiting E) := fun _ _ => .refl []

/-- An event put into the slot of its time. -/
theorem Holds.push {slots : Nat → List E} {w : Waiting E} (h : Holds n slots w) (e : E)
    (due : Nat) :
    Holds n (Function.update slots (due % n) (e :: slots (due % n))) ((e, due) :: w) := by
  intro i hi
  by_cases hs : due % n = i
  · subst hs
    simpa using h _ hi
  · simpa [hs, Function.update_of_ne (Ne.symm hs)] using h i hi

/-- Slots of a wheel taken one after another hold the events of their times. -/
theorem Holds.flatMap {slots : Nat → List E} {w : Waiting E} (h : Holds n slots w) :
    ∀ {is : List Nat}, is.Nodup → (∀ i ∈ is, i < n) →
      (is.flatMap slots).Perm ((w.filter (·.2 % n ∈ is)).map Prod.fst)
  | [], _, _ => by simp
  | i :: is, hnd, hlt => by
    obtain ⟨hi, hnd⟩ := List.nodup_cons.mp hnd
    have hrest := h.flatMap hnd fun j hj => hlt j (List.mem_cons_of_mem _ hj)
    have hsplit : (w.filter (·.2 % n ∈ i :: is)).Perm
        (w.filter (·.2 % n = i) ++ w.filter (·.2 % n ∈ is)) := by
      refine ((List.filter_append_perm (·.2 % n = i) _).symm.trans ?_)
      rw [List.filter_filter, List.filter_filter]
      refine .append (.of_eq (List.filter_congr ?_)) (.of_eq (List.filter_congr ?_))
      · intro p _
        simp only [List.mem_cons]
        grind
      · intro p _
        simp only [List.mem_cons]
        grind
    rw [List.flatMap_cons]
    refine .trans (.append (h i (hlt i List.mem_cons_self)) hrest) ?_
    rw [← List.map_append]
    exact (hsplit.map _).symm

/-- Slots that were emptied leave the events of the other slots. -/
theorem Holds.clear {slots : Nat → List E} {w : Waiting E} (h : Holds n slots w)
    (is : List Nat) :
    Holds n (fun i => if i ∈ is then [] else slots i) (w.filter (·.2 % n ∉ is)) := by
  intro i hi
  rw [List.filter_filter]
  by_cases hmem : i ∈ is
  · have : ∀ p ∈ w, ¬ (decide (p.2 % n = i) && decide (p.2 % n ∉ is)) = true := by grind
    simp only [if_pos hmem, List.filter_eq_nil_iff.mpr this, List.map_nil, List.Perm.refl]
  · simp only [if_neg hmem]
    refine (h i hi).trans (.of_eq (congrArg _ (List.filter_congr ?_)))
    grind

/-- The hand has passed slot `i` on its way from `b` to `t`: round the end of the wheel
if `t` comes before `b`. -/
def Passed (b t i : Nat) : Prop := if b ≤ t then b < i ∧ i ≤ t else b < i ∨ i ≤ t

instance (b t i : Nat) : Decidable (Passed b t i) := by unfold Passed; infer_instance

/-- Less than one turn after `base`, the slots passed are those of the times up to `t`. -/
theorem passed_iff {base t due : Nat} (hb : base ≤ t) (ht : t < base + n)
    (hd : base < due) (hn : due < base + n) :
    Passed (base % n) (t % n) (due % n) ↔ due ≤ t := by
  have mod_of_lt : ∀ {x : Nat}, base ≤ x → x < base + n →
      x % n = if base % n + (x - base) < n then base % n + (x - base)
        else base % n + (x - base) - n := by
    intro x hx hlt
    have hbn : base % n < n := Nat.mod_lt _ (by omega)
    have hsum : x % n = (base % n + (x - base)) % n := by
      rw [Nat.mod_add_mod]
      congr 1
      omega
    split
    · rename_i hs
      rw [hsum, Nat.mod_eq_of_lt hs]
    · rename_i hs
      rw [hsum, Nat.mod_eq_sub_mod (by omega), Nat.mod_eq_of_lt (by omega)]
  have hbn : base % n < n := Nat.mod_lt _ (by omega)
  rw [mod_of_lt hb ht, mod_of_lt hd.le hn]
  unfold Passed
  split <;> split <;> split <;> omega

end TimingWheel
