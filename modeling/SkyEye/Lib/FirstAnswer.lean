import Mathlib.Data.List.Basic
import Mathlib.Tactic.Common

/-!
# The first that answers

The members of a list are asked in order, each in the state that those before it leave,
until one answers.
-/

namespace FirstAnswer

variable {ι σ R : Type*} {ask ask' : ι → σ → Option R × σ} {s : σ}

/-- Ask until one answers. -/
def firstAnswer (ask : ι → σ → Option R × σ) : List ι → σ → Option R × σ
  | [], s => (none, s)
  | x :: xs, s =>
    match ask x s with
    | (some r, s') => (some r, s')
    | (none, s') => firstAnswer ask xs s'

/-- The state when all of them have been asked. -/
def after (ask : ι → σ → Option R × σ) (xs : List ι) (s : σ) : σ :=
  xs.foldl (fun s x => (ask x s).2) s

/-- None of them answers when they are asked in order. -/
def Declines (ask : ι → σ → Option R × σ) (xs : List ι) (s : σ) : Prop :=
  ∀ pre x post, xs = pre ++ x :: post → (ask x (after ask pre s)).1 = none

theorem declines_nil : Declines ask [] s := fun pre _ _ h => by
  cases pre <;> cases h

theorem declines_cons {x : ι} {xs : List ι} :
    Declines ask (x :: xs) s ↔ (ask x s).1 = none ∧ Declines ask xs (ask x s).2 := by
  constructor
  · intro h
    exact ⟨h [] x xs rfl, fun pre y post he => h (x :: pre) y post (by rw [he]; rfl)⟩
  · rintro ⟨hx, hxs⟩ pre y post he
    cases pre with
    | nil =>
      obtain ⟨rfl, -⟩ := List.cons.inj he
      exact hx
    | cons z pre =>
      obtain ⟨rfl, hrest⟩ := List.cons.inj he
      exact hxs pre y post hrest

theorem firstAnswer_cons_of_none {x : ι} {xs : List ι} (h : (ask x s).1 = none) :
    firstAnswer ask (x :: xs) s = firstAnswer ask xs (ask x s).2 := by
  cases hx : ask x s with
  | mk a s' =>
    rw [hx] at h
    obtain rfl : a = _ := h
    rw [firstAnswer, hx]

theorem firstAnswer_cons_of_some {x : ι} {xs : List ι} {r : R} (h : (ask x s).1 = some r) :
    firstAnswer ask (x :: xs) s = ask x s := by
  cases hx : ask x s with
  | mk a s' =>
    rw [hx] at h
    obtain rfl : a = _ := h
    rw [firstAnswer, hx]

/-- Those before the first that answers decline. -/
theorem firstAnswer_append {pre post : List ι} {x : ι} {r : R} (hpre : Declines ask pre s)
    (hx : (ask x (after ask pre s)).1 = some r) :
    firstAnswer ask (pre ++ x :: post) s = ask x (after ask pre s) := by
  induction pre generalizing s with
  | nil => exact firstAnswer_cons_of_some hx
  | cons y pre ih =>
    obtain ⟨hy, hpre⟩ := declines_cons.mp hpre
    rw [List.cons_append, firstAnswer_cons_of_none hy]
    exact ih hpre hx

theorem firstAnswer_of_declines {xs : List ι} (h : Declines ask xs s) :
    firstAnswer ask xs s = (none, after ask xs s) := by
  induction xs generalizing s with
  | nil => rfl
  | cons x xs ih =>
    obtain ⟨hx, hxs⟩ := declines_cons.mp h
    rw [firstAnswer_cons_of_none hx]
    exact ih hxs

/-- If not all of them decline, there is a first that answers. -/
theorem exists_first {xs : List ι} (h : ¬ Declines ask xs s) :
    ∃ pre x post r, xs = pre ++ x :: post ∧ Declines ask pre s ∧
      (ask x (after ask pre s)).1 = some r := by
  induction xs generalizing s with
  | nil => exact absurd declines_nil h
  | cons x xs ih =>
    cases hx : (ask x s).1 with
    | some r => exact ⟨[], x, xs, r, rfl, declines_nil, hx⟩
    | none =>
      obtain ⟨pre, y, post, r, rfl, hpre, hy⟩ := ih fun hd => h (declines_cons.mpr ⟨hx, hd⟩)
      exact ⟨x :: pre, y, post, r, rfl, declines_cons.mpr ⟨hx, hpre⟩, hy⟩

theorem firstAnswer_congr {xs : List ι} (h : ∀ x ∈ xs, ask x = ask' x) :
    firstAnswer ask xs s = firstAnswer ask' xs s := by
  induction xs generalizing s with
  | nil => rfl
  | cons x xs ih =>
    simp only [firstAnswer, h x List.mem_cons_self]
    split
    · rfl
    · exact ih fun y hy => h y (List.mem_cons_of_mem _ hy)

end FirstAnswer
