import Mathlib.Data.List.Basic
import Mathlib.Data.List.Induction

/-!
# Runs as folds

A run is the fold of a step over its operations, and its states are those after the
prefixes of the operations. Where an operation keeps the invariant only if it is
admissible in the state that it meets, the invariant holds all along if every
operation is (`inv_prefix`), and only then if an operation that is not breaks it
(`inv_prefix_iff`).
-/

namespace Runs

variable {σ ι : Type*} {step : σ → ι → σ} {I : σ → Prop} {A : σ → ι → Prop} {s : σ}
  {ops : List ι}

theorem inv_prefix (hstep : ∀ s op, I s → A s op → I (step s op)) (hs : I s)
    (hok : ∀ pre op post, ops = pre ++ op :: post → A (pre.foldl step s) op)
    (pre : List ι) : ∀ post, ops = pre ++ post → I (pre.foldl step s) := by
  -- from the front, one operation after the other
  induction pre using List.reverseRecOn with
  | nil => exact fun _ _ => hs
  | append_singleton pre op ih =>
    intro post he
    rw [List.append_assoc, List.singleton_append] at he
    rw [List.foldl_concat]
    exact hstep _ _ (ih _ he) (hok pre op post he)

theorem inv_prefix_iff (hstep : ∀ s op, I s → (I (step s op) ↔ A s op)) (hs : I s) :
    (∀ pre post, ops = pre ++ post → I (pre.foldl step s)) ↔
      ∀ pre op post, ops = pre ++ op :: post → A (pre.foldl step s) op := by
  constructor
  · intro hi pre op post he
    have hnext := hi (pre ++ [op]) post (by rw [he, List.append_assoc, List.singleton_append])
    rw [List.foldl_concat] at hnext
    exact (hstep _ op (hi pre (op :: post) he)).mp hnext
  · exact inv_prefix (fun s op h hok => (hstep s op h).mpr hok) hs

/-- A run of one operation meets it at the start. -/
theorem forall_split_singleton {P : List ι → ι → Prop} {op : ι} (h : P [] op) (pre : List ι)
    (o : ι) (post : List ι) (he : [op] = pre ++ o :: post) : P pre o := by
  cases pre with
  | nil =>
    obtain ⟨rfl, -⟩ := List.cons.inj he
    exact h
  | cons o' pre => cases pre <;> cases he

/-! ## Runs that may fail

A step with an option as its result tracks a total one as long as every operation is admissible
where the total one has it, and no longer (`tracks_iff`). -/

section Tracks

variable {τ : Type*} {step : σ → ι → Option σ} {spec : τ → ι → τ} {Rel : σ → τ → Prop}
  {J : τ → Prop} {A : τ → ι → Prop}

theorem tracks_iff (hJ : ∀ v op, J v → J (spec v op))
    (hstep : ∀ s v op, J v → Rel s v →
      ((∃ t, step s op = some t ∧ Rel t (spec v op)) ↔ A v op)) :
    ∀ (ops : List ι) (s : σ) (v : τ), J v → Rel s v →
      ((∀ pre post, ops = pre ++ post →
          ∃ t, pre.foldlM step s = some t ∧ Rel t (pre.foldl spec v)) ↔
        ∀ pre op post, ops = pre ++ op :: post → A (pre.foldl spec v) op) := by
  intro ops
  induction ops with
  | nil =>
    intro s v _ hr
    constructor
    · intro _ pre op post he
      cases pre <;> cases he
    · intro _ pre post he
      obtain ⟨rfl, -⟩ := List.append_eq_nil_iff.mp he.symm
      exact ⟨s, rfl, hr⟩
  | cons op ops ih =>
    intro s v hv hr
    constructor
    · intro hall pre op' post he
      obtain ⟨t, ht, hrt⟩ := hall [op] ops rfl
      have hex : step s op = some t := by simpa using ht
      cases pre with
      | nil =>
        obtain ⟨rfl, -⟩ := List.cons.inj he
        exact (hstep s v op hv hr).mp ⟨t, hex, hrt⟩
      | cons op₁ pre =>
        obtain ⟨rfl, he'⟩ := List.cons.inj he
        refine (ih t (spec v op) (hJ v op hv) hrt).mp (fun pre post hp => ?_) pre op' post he'
        obtain ⟨u, hu, hru⟩ := hall (op :: pre) post (by rw [hp, List.cons_append])
        exact ⟨u, by simpa [hex] using hu, hru⟩
    · intro hall pre post he
      cases pre with
      | nil => exact ⟨s, rfl, hr⟩
      | cons op₁ pre =>
        obtain ⟨rfl, he'⟩ := List.cons.inj he
        obtain ⟨t, hex, hrt⟩ := (hstep s v op hv hr).mpr (hall [] op ops rfl)
        obtain ⟨u, hu, hru⟩ := (ih t (spec v op) (hJ v op hv) hrt).mpr
          (fun pre op' post hp => hall (op :: pre) op' post (by rw [hp, List.cons_append]))
          pre post he'
        exact ⟨u, by simpa [hex] using hu, hru⟩

end Tracks

end Runs
