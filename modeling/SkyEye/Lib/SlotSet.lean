import Mathlib.Data.List.Perm.Basic
import Mathlib.Data.Finset.Card
import Mathlib.Logic.Function.Basic
import Mathlib.Tactic.Common

/-!
# Sets in the first slots of an array

A finite set is kept in the first slots of an array, in no order: an element is added
behind the last one, and the place of a removed one is taken by the last one. `held` is
what the first slots hold; adding and removing are, up to the order, `cons` and its
inverse on it.
-/

namespace SlotSet

open scoped List

variable {α : Type*} {slot : Nat → α} {n i : Nat}

/-- What the first `n` slots hold. -/
def held (slot : Nat → α) (n : Nat) : List α := (List.range n).map slot

@[simp] theorem held_zero : held slot 0 = [] := rfl

@[simp] theorem length_held : (held slot n).length = n := by simp [held]

theorem mem_held {a : α} : a ∈ held slot n ↔ ∃ i < n, slot i = a := by simp [held]

theorem held_succ : held slot (n + 1) = held slot n ++ [slot n] := by
  simp [held, List.range_succ]

theorem held_congr {slot' : Nat → α} (h : ∀ i < n, slot i = slot' i) :
    held slot n = held slot' n :=
  List.map_congr_left fun i hi => h i (List.mem_range.mp hi)

/-- Adding behind the last element. -/
theorem held_push (a : α) : held (Function.update slot n a) (n + 1) = held slot n ++ [a] := by
  rw [held_succ, Function.update_self]
  congr 1
  exact held_congr fun i hi => Function.update_of_ne (Nat.ne_of_lt hi) ..

theorem held_update (a : α) (hi : i < n) :
    held (Function.update slot i a) n = (held slot n).set i a := by
  refine List.ext_getElem (by simp) fun j _ _ => ?_
  by_cases hj : j = i
  · subst hj
    simp [held]
  · simp [held, hj, Ne.symm hj]

/-- The last element taken to the place of the `i`th. -/
def pull (slot : Nat → α) (n i : Nat) : Nat → α :=
  if i < n then Function.update slot i (slot n) else slot

/-- Removing is the inverse of `cons`. -/
theorem held_pull (hi : i < n + 1) :
    held slot (n + 1) ~ slot i :: held (pull slot n i) n := by
  unfold pull
  split
  · rename_i hn
    have hl : i < (held slot n).length := by simpa using hn
    have hget : (held slot n)[i] = slot i := by simp [held]
    rw [held_succ, held_update _ hn, ← hget]
    calc held slot n ++ [slot n]
      _ ~ slot n :: held slot n := List.perm_append_singleton ..
      _ ~ slot n :: (held slot n)[i] :: (held slot n).eraseIdx i :=
        (List.getElem_cons_eraseIdx_perm hl).symm.cons _
      _ ~ (held slot n)[i] :: slot n :: (held slot n).eraseIdx i := .swap ..
      _ ~ (held slot n)[i] :: (held slot n).set i (slot n) :=
        (List.set_perm_cons_eraseIdx hl _).symm.cons _
  · rename_i hn
    obtain rfl : i = n := by omega
    rw [held_succ]
    exact List.perm_append_singleton ..

theorem nodup_push {a : α} (h : (held slot n).Nodup) (ha : a ∉ held slot n) :
    (held (Function.update slot n a) (n + 1)).Nodup := by
  rw [held_push]
  exact List.nodup_append.mpr ⟨h, List.nodup_singleton a, fun x hx y hy => by
    rintro rfl
    rw [List.mem_singleton] at hy
    exact ha (hy ▸ hx)⟩

theorem nodup_pull (h : (held slot (n + 1)).Nodup) (hi : i < n + 1) :
    (held (pull slot n i) n).Nodup :=
  (List.nodup_cons.mp ((held_pull hi).nodup_iff.mp h)).2

section Elements

variable [DecidableEq α]

/-- The set that is kept. -/
def elements (slot : Nat → α) (n : Nat) : Finset α := (held slot n).toFinset

@[simp] theorem mem_elements {a : α} : a ∈ elements slot n ↔ a ∈ held slot n :=
  List.mem_toFinset

/-- No element twice: the count is that of the set. -/
theorem card_elements (h : (held slot n).Nodup) : (elements slot n).card = n := by
  rw [elements, List.toFinset_card_of_nodup h, length_held]

theorem elements_push (a : α) :
    elements (Function.update slot n a) (n + 1) = insert a (elements slot n) := by
  ext x
  simp [held_push, or_comm]

theorem elements_pull (h : (held slot (n + 1)).Nodup) (hi : i < n + 1) :
    elements (pull slot n i) n = (elements slot (n + 1)).erase (slot i) := by
  have hp : held slot (n + 1) ~ slot i :: held (pull slot n i) n := held_pull hi
  have hnot := (List.nodup_cons.mp (hp.nodup_iff.mp h)).1
  ext x
  rw [Finset.mem_erase, mem_elements, mem_elements, hp.mem_iff, List.mem_cons]
  constructor
  · intro hx
    exact ⟨fun he => hnot (he ▸ hx), .inr hx⟩
  · rintro ⟨hne, hx⟩
    exact hx.resolve_left hne

end Elements

end SlotSet
