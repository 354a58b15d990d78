import Mathlib.Data.List.Basic
import Mathlib.Tactic.Common

/-!
# Tables of remembered results

A table of entries, each standing for all the keys it hits. If every entry is the
result of the function at every key it hits (`Sound`), the first hit may be used in
place of the function (`find?_sound`), whatever the order and the age of the
entries; storing a result and dropping an entry keep the table sound. Dropping the
first hit drops them all exactly if no two entries hit one key (`Apart`).
-/

namespace Memo

variable {K E R : Type*}

/-- Every entry is what `f` gives at every key the entry hits. -/
def Sound (hit : E → K → Bool) (f : K → Except R E) (table : List E) : Prop :=
  ∀ e ∈ table, ∀ k, hit e k = true → f k = .ok e

variable {hit : E → K → Bool} {f g : K → Except R E} {table : List E}

theorem find?_sound (h : Sound hit f table) {k : K} {e : E}
    (hf : table.find? (hit · k) = some e) : f k = .ok e := by
  have hk := List.find?_some hf
  exact h e (List.mem_of_find?_eq_some hf) k hk

/-- A table whose entries hit nothing. -/
theorem sound_of_not_hit (h : ∀ e ∈ table, ∀ k, hit e k = false) : Sound hit f table := by
  intro e he k hk
  rw [h e he k] at hk
  cases hk

/-- Replacing an entry by the result at a key, if that is the result at all the keys it hits. -/
theorem Sound.set (h : Sound hit f table) {e : E} (he : ∀ k, hit e k = true → f k = .ok e)
    (i : Nat) : Sound hit f (table.set i e) := by
  intro e' he' k hk
  rcases List.mem_or_eq_of_mem_set he' with hm | rfl
  · exact h e' hm k hk
  · exact he k hk

/-- Changing an entry into one that hits nothing. -/
theorem Sound.modify (h : Sound hit f table) {g : E → E} (hg : ∀ e k, hit (g e) k = false)
    (i : Nat) : Sound hit f (table.modify i g) := by
  intro e he k hk
  obtain ⟨j, hj⟩ := List.mem_iff_getElem?.mp he
  rw [List.getElem?_modify] at hj
  obtain ⟨a, ha, rfl⟩ := Option.map_eq_some_iff.mp hj
  by_cases hi : i = j
  · rw [if_pos hi, hg] at hk; cases hk
  · rw [if_neg hi] at hk ⊢
    exact h a (List.mem_of_getElem? ha) k hk

theorem Sound.congr (h : Sound hit f table) (hfg : ∀ k, f k = g k) : Sound hit g table := by
  intro e he k hk
  rw [← hfg]
  exact h e he k hk

/-! ## One entry for a key -/

/-- No key is hit by two entries. -/
def Apart (hit : E → K → Bool) (table : List E) : Prop :=
  ∀ (i j : Nat) (e e' : E), table[i]? = some e → table[j]? = some e' → i ≠ j →
    ∀ k, hit e k = true → hit e' k = false

theorem apart_of_not_hit (h : ∀ e ∈ table, ∀ k, hit e k = false) : Apart hit table := by
  intro i j e e' hi hj _ k _
  exact h e' (List.mem_of_getElem? hj) k

theorem Apart.map (h : Apart hit table) {g : E → E}
    (hg : ∀ e k, hit (g e) k = true → hit e k = true) : Apart hit (table.map g) := by
  intro i j e e' hi hj hij k hk
  rw [List.getElem?_map] at hi hj
  obtain ⟨a, ha, rfl⟩ := Option.map_eq_some_iff.mp hi
  obtain ⟨a', ha', rfl⟩ := Option.map_eq_some_iff.mp hj
  rw [← Bool.not_eq_true]
  intro hk'
  have := h i j a a' ha ha' hij k (hg a k hk)
  rw [hg a' k hk'] at this
  cases this

/-- A table stays apart under a new entry exactly if the new one is apart from the others. -/
theorem Apart.set_iff (h : Apart hit table) {n : Nat} (hn : n < table.length) {e : E} :
    Apart hit (table.set n e) ↔ ∀ (j : Nat) (e' : E), j ≠ n → table[j]? = some e' →
      ∀ k, hit e k = true → hit e' k = false := by
  have hself : (table.set n e)[n]? = some e := by rw [List.getElem?_set_self hn]
  constructor
  · intro hs j e' hj he'
    exact hs n j e e' hself (by rwa [List.getElem?_set_ne (Ne.symm hj)]) (Ne.symm hj)
  · intro hs i j a b hi hj hij k hk
    by_cases hin : i = n
    · subst hin
      rw [hself] at hi
      cases hi
      rw [List.getElem?_set_ne hij] at hj
      exact hs j b (Ne.symm hij) hj k hk
    · rw [List.getElem?_set_ne (Ne.symm hin)] at hi
      by_cases hjn : j = n
      · subst hjn
        rw [hself] at hj
        cases hj
        rw [← Bool.not_eq_true]
        intro hk'
        rw [hs i a hij hi k hk'] at hk
        cases hk
      · rw [List.getElem?_set_ne (Ne.symm hjn)] at hj
        exact h i j a b hi hj hij k hk

theorem Apart.modify (h : Apart hit table) {n : Nat} {g : E → E}
    (hg : ∀ e, table[n]? = some e → ∀ (j : Nat) (e' : E), j ≠ n → table[j]? = some e' →
      ∀ k, hit (g e) k = true → hit e' k = false) : Apart hit (table.modify n g) := by
  rw [List.modify_eq_set_getElem?]
  cases he : table[n]? with
  | none => exact h
  | some e => exact (h.set_iff (List.getElem?_eq_some_iff.mp he).1).mpr (hg e he)

theorem Apart.modify_of_not_hit (h : Apart hit table) {g : E → E}
    (hg : ∀ e k, hit (g e) k = false) (n : Nat) : Apart hit (table.modify n g) := by
  refine h.modify fun e _ j e' _ _ k hk => ?_
  rw [hg] at hk
  cases hk

/-- Dropping the first entry that hits a key leaves no other, for every key, exactly if the
table is apart. -/
theorem not_hit_modify_findIdx_iff {g : E → E} (hg : ∀ e k, hit (g e) k = false) :
    (∀ k, ∀ e ∈ table.modify (table.findIdx (hit · k)) g, hit e k = false) ↔
      Apart hit table := by
  constructor
  · intro h i j e e' hi hj hij k hk
    rw [← Bool.not_eq_true]
    intro hk'
    -- one of the two is not the first hit
    have hkeep : ∀ (n : Nat) (a : E), table[n]? = some a → hit a k = true →
        table.findIdx (hit · k) = n := by
      intro n a hn hka
      by_contra hne
      have hmem : a ∈ table.modify (table.findIdx (hit · k)) g := by
        refine List.mem_of_getElem? (i := n) ?_
        rw [List.getElem?_modify, hn]
        exact congrArg some (if_neg hne)
      rw [h k a hmem] at hka
      cases hka
    exact hij ((hkeep i e hi hk).symm.trans (hkeep j e' hj hk'))
  · intro h k e he
    obtain ⟨n, hn⟩ := List.mem_iff_getElem?.mp he
    rw [List.getElem?_modify] at hn
    obtain ⟨a, ha, rfl⟩ := Option.map_eq_some_iff.mp hn
    by_cases hfirst : table.findIdx (hit · k) = n
    · rw [if_pos hfirst]
      exact hg a k
    · rw [if_neg hfirst, ← Bool.not_eq_true]
      intro hka
      have hlt : table.findIdx (hit · k) < table.length :=
        List.findIdx_lt_length_of_exists ⟨a, List.mem_of_getElem? ha, hka⟩
      have hhit := List.findIdx_getElem (w := hlt)
      have := h _ n _ a (List.getElem?_eq_getElem hlt) ha hfirst k hhit
      rw [hka] at this
      cases this

end Memo
