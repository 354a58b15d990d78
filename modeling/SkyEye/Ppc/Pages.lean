import SkyEye.Ppc.Reservation

/-!
# Addresses in a page

`ppc_effective_to_physical` keeps the offset of an address in its page.
-/

namespace SkyEye.Ppc

open Sparc (Uint32)

variable {M : Type} {h : Host M} {s : E500Core M} {ea p : Uint32} {flags : Nat}

theorem eaOffset_congr {x y : Uint32} (hxy : ∀ i < 12, x.getLsbD i = y.getLsbD i) :
    eaOffset x = eaOffset y := by
  have hmask : ∀ i < 32, (0xFFF : Uint32).getLsbD i = decide (i < 12) := by decide
  refine BitVec.eq_of_getLsbD_eq fun i hi => ?_
  rw [eaOffset, eaOffset, BitVec.getLsbD_and, BitVec.getLsbD_and, hmask i hi]
  by_cases hi12 : i < 12
  · rw [hxy i hi12]
  · simp [hi12]

theorem toNat_eaOffset (x : Uint32) : (eaOffset x).toNat = x.toNat % 4096 :=
  Word.toNat_and_low x 12 (by omega)

/-- The number of a page does not reach into the offset. -/
theorem page_or_low (n x : Uint32) {i : Nat} (hi : i < 12) :
    ((n <<< 12) ||| x).getLsbD i = x.getLsbD i := by
  rw [BitVec.getLsbD_or, BitVec.getLsbD_shiftLeft, decide_eq_true hi]
  simp

/-- An entry keeps the offset of the address that it is for. -/
theorem examine_offset {behind : TlbEntry} {i : Nat}
    (he : s.examine behind ea flags i = some (.ok p)) : eaOffset p = eaOffset ea := by
  unfold E500Core.examine at he
  dsimp only at he
  split at he
  · cases he
  split at he
  · cases he
  split at he
  · cases he
  split at he
  · split at he
    · cases he
    · rename_i _ _ _ _ hmatch
      split at he
      · cases he
      · cases he
        refine eaOffset_congr fun j hj => ?_
        have hbit := congrArg (·.getLsbD j) (not_not.mp hmatch)
        simp only [BitVec.getLsbD_and, BitVec.getLsbD_shiftLeft, decide_eq_true hj,
          Bool.not_true, Bool.and_false, Bool.false_and] at hbit
        rw [page_or_low _ _ hj, BitVec.getLsbD_and, BitVec.getLsbD_not,
          decide_eq_true (Nat.lt_trans hj (by decide)), Bool.true_and]
        cases hm : (s.maskAt behind i).getLsbD j with
        | false => simp
        | true =>
          rw [hm, Bool.and_true] at hbit
          rw [hbit]
          rfl
  · split at he
    · cases he
    · cases he
      have hpage (n x : Uint32) : eaOffset ((n <<< 12) ||| x) = eaOffset x :=
        eaOffset_congr fun j hj => page_or_low n x hj
      rw [hpage]
      refine BitVec.eq_of_toNat_eq ?_
      rw [toNat_eaOffset, toNat_eaOffset, BitVec.toNat_sub, BitVec.toNat_shiftLeft,
        Nat.shiftLeft_eq]
      omega

theorem walk_offset {behind : TlbEntry} {is : List Nat}
    (hw : (s.walk behind ea flags is).2 = some (.ok p)) : eaOffset p = eaOffset ea := by
  induction is with
  | nil => cases hw
  | cons i is ih =>
    rw [E500Core.walk] at hw
    cases he : s.examine behind ea flags i with
    | none =>
      rw [he] at hw
      exact ih hw
    | some r =>
      rw [he] at hw
      obtain rfl : r = .ok p := Option.some.inj hw
      exact examine_offset he

/-- A translation keeps the offset in the page. -/
theorem physical_offset (hp : s.physical h ea flags = some p) : eaOffset p = eaOffset ea := by
  unfold E500Core.physical E500Core.lookup at hp
  split at hp
  · obtain rfl := Option.some.inj hp
    refine eaOffset_congr fun j hj => ?_
    have hmask : ∀ i < 12, (0xFFF : Uint32).getLsbD i = true := by decide
    rw [BitVec.or_comm, page_or_low _ _ hj, BitVec.getLsbD_and]
    exact (congrArg (ea.getLsbD j && ·) (hmask j hj)).trans (Bool.and_true _)
  · generalize hw : (s.walk (h.behind s.mem) ea flags E500Core.walkIndices).2 = r at hp
    cases r with
    | none => cases hp
    | some r =>
      cases r with
      | ok pa =>
        obtain rfl := Option.some.inj hp
        exact walk_offset hw
      | exc type => cases hp

end SkyEye.Ppc
