import Mathlib.Tactic.Common

/-!
# Reservations

Processors that link a word by a load and store to it conditionally, as a history of events,
the latest one first: who holds a reservation of which word, and what the holder knows of it.
-/

namespace Reservation

variable {C W : Type} [DecidableEq C]

/-- A load that links a word, or none that can be reserved; a conditional store, done or not;
and a store to some words. -/
inductive Event (C W : Type) where
  | link (c : C) (w : Option W)
  | conditional (c : C)
  | store (hits : W → Bool)

/-- The word that `c` has reserved: of its latest link, with no conditional store of `c` and no
store to the word since. -/
def held (c : C) : List (Event C W) → Option W
  | [] => none
  | .link d w :: history => if d = c then w else held c history
  | .conditional d :: history => if d = c then none else held c history
  | .store hits :: history => (held c history).filter fun w => !hits w

/-- There was a link of `c` and no conditional store since. -/
def armed (c : C) : List (Event C W) → Bool
  | [] => false
  | .link d _ :: history => if d = c then true else armed c history
  | .conditional d :: history => if d = c then false else armed c history
  | .store _ :: history => armed c history

theorem armed_of_held {c : C} {w : W} : ∀ {history : List (Event C W)},
    held c history = some w → armed c history = true
  | [], h => by cases h
  | .link d _ :: history, h => by
    rw [held] at h
    rw [armed]
    split at h
    · rw [if_pos ‹_›]
    · rw [if_neg ‹_›]
      exact armed_of_held h
  | .conditional d :: history, h => by
    rw [held] at h
    rw [armed]
    split at h
    · cases h
    · rw [if_neg ‹_›]
      exact armed_of_held h
  | .store hits :: history, h => by
    rw [held, Option.filter_eq_some_iff] at h
    have harmed : armed c history = true := armed_of_held h.1
    exact harmed

theorem held_store {c : C} {w : W} {hits : W → Bool} {history : List (Event C W)}
    (h : held c (.store hits :: history) = some w) : held c history = some w ∧ hits w = false := by
  rw [held, Option.filter_eq_some_iff] at h
  exact ⟨h.1, by simpa using h.2⟩

end Reservation
