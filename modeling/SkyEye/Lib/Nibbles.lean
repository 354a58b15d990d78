import Mathlib.Data.BitVec
import Mathlib.Logic.Function.Basic

/-!
# Packed nibbles

An array of 4-bit entries, two of them in a byte, the even one in its low half. An entry
placed where it belongs changes no other (`entry_place`), and two bytes are equal if both
their halves are (`nibble_ext`).
-/

namespace Nibbles

/-- The half `i` of a byte. -/
def nibble (b : BitVec 8) (i : Nat) : BitVec 4 := (b >>> (4 * i)).setWidth 4

/-- The entry `k` of the array. -/
def entry (mem : Nat → BitVec 8) (k : Nat) : BitVec 4 := nibble (mem (k / 2)) (k % 2)

/-- The byte that has `f` as its half `i`, and nothing else. -/
def place (f : BitVec 4) (i : Nat) : BitVec 8 := f.setWidth 8 <<< (4 * i)

theorem nibble_or (a b : BitVec 8) (i : Nat) :
    nibble (a ||| b) i = nibble a i ||| nibble b i := by
  unfold nibble
  ext j hj
  simp

theorem nibble_ext {a b : BitVec 8} (h0 : nibble a 0 = nibble b 0)
    (h1 : nibble a 1 = nibble b 1) : a = b := by
  refine BitVec.eq_of_getLsbD_eq fun j hj => ?_
  by_cases hlow : j < 4
  · have hbit := congrArg (BitVec.getLsbD · j) h0
    simpa [nibble, hlow] using hbit
  · have hbit := congrArg (BitVec.getLsbD · (j - 4)) h1
    have hsub : j - 4 < 4 := by omega
    have hadd : 4 + (j - 4) = j := by omega
    simpa [nibble, hsub, hadd] using hbit

/-- Two bytes set the same bits if they differ only where the bits are set already. -/
theorem or_eq_or_iff {b x y : BitVec 8} :
    b ||| x = b ||| y ↔ ∀ i < 8, x.getLsbD i ≠ y.getLsbD i → b.getLsbD i := by
  constructor
  · intro h i _ hne
    have hbit := congrArg (BitVec.getLsbD · i) h
    simp only [BitVec.getLsbD_or] at hbit
    by_contra hb
    rw [Bool.not_eq_true] at hb
    rw [hb, Bool.false_or, Bool.false_or] at hbit
    exact hne hbit
  · intro h
    refine BitVec.eq_of_getLsbD_eq fun i hi => ?_
    rw [BitVec.getLsbD_or, BitVec.getLsbD_or]
    by_cases hxy : x.getLsbD i = y.getLsbD i
    · rw [hxy]
    · rw [h i hi hxy, Bool.true_or, Bool.true_or]

theorem nibble_place (f : BitVec 4) {i j : Nat} (hi : i < 2) (hj : j < 2) :
    nibble (place f i) j = if j = i then f else 0 := by
  have hi' : i = 0 ∨ i = 1 := by omega
  have hj' : j = 0 ∨ j = 1 := by omega
  rcases hi' with rfl | rfl <;> rcases hj' with rfl | rfl <;> revert f <;> decide

/-- The entries after a write to one byte. -/
theorem entry_update (mem : Nat → BitVec 8) (j : Nat) (b : BitVec 8) (k : Nat) :
    entry (Function.update mem j b) k = if k / 2 = j then nibble b (k % 2) else entry mem k := by
  unfold entry
  split
  · rename_i h
    rw [h, Function.update_self]
  · rename_i h
    rw [Function.update_of_ne h]

/-- The flags of entry `k` are set, and the other entries stay. -/
theorem entry_place (mem : Nat → BitVec 8) (f : BitVec 4) (k m : Nat) :
    entry (Function.update mem (k / 2) (mem (k / 2) ||| place f (k % 2))) m =
      entry mem m ||| if m = k then f else 0 := by
  rw [entry_update]
  by_cases hbyte : m / 2 = k / 2
  · have hhalf : m % 2 = k % 2 ↔ m = k := by omega
    have hm := Nat.mod_lt m Nat.two_pos
    have hk := Nat.mod_lt k Nat.two_pos
    rw [if_pos hbyte, nibble_or, nibble_place f hk hm, ← hbyte]
    simp only [hhalf]
    rfl
  · have hne : m ≠ k := fun h => hbyte (congrArg (· / 2) h)
    rw [if_neg hbyte, if_neg hne]
    exact (BitVec.or_zero ..).symm

/-- Setting the bits of `b` in the byte of entry `k` is setting the flags `f` of the entry,
exactly if both entries of the byte read so. -/
theorem or_eq_place_iff (mem : Nat → BitVec 8) (f : BitVec 4) (k : Nat) (b : BitVec 8) :
    mem (k / 2) ||| b = mem (k / 2) ||| place f (k % 2) ↔
      ∀ m, m / 2 = k / 2 →
        entry (Function.update mem (k / 2) (mem (k / 2) ||| b)) m =
          entry mem m ||| if m = k then f else 0 := by
  constructor
  · intro h m hm
    rw [h, entry_place]
  · intro h
    have half : ∀ i, i < 2 → nibble (mem (k / 2) ||| b) i =
        nibble (mem (k / 2) ||| place f (k % 2)) i := by
      intro i hi
      have hdiv : (2 * (k / 2) + i) / 2 = k / 2 := by omega
      have hmod : (2 * (k / 2) + i) % 2 = i := by omega
      have hwritten := h _ hdiv
      rw [← entry_place, entry_update, entry_update, if_pos hdiv, if_pos hdiv, hmod] at hwritten
      exact hwritten
    exact nibble_ext (half 0 Nat.two_pos) (half 1 Nat.one_lt_two)

end Nibbles
