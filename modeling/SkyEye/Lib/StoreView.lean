import Mathlib.Logic.Function.Basic
import Mathlib.Tactic.Common
import Mathlib.Data.List.Nodup

/-!
# Systems that act as a store

A system whose steps write keys of an abstract store: `view` reads the store off
a state, `writes` lists what a step writes. If every step's view is the old view
with its writes replayed (`view_step`), the view after a run is the initial view
with the run's trace replayed (`view_run`), and a key holds what the last write
of it left there (`view_run_eq_lastWrite`). A step may also answer something; an
answer computed from the view alone (`out_step`) is the answer of the store.
-/

namespace StoreView

variable {K V W W' : Type*}

/-- The value of the last of the writes `ws` (oldest first) that satisfies `p`, or `dflt`. -/
def lastWrite (p : W → Prop) [DecidablePred p] (value : W → V) (dflt : V) (ws : List W) : V :=
  ws.foldl (fun v w => if p w then value w else v) dflt

theorem lastWrite_map (f : W' → W) (p : W → Prop) [DecidablePred p] (value : W → V) (dflt : V)
    (ws : List W') :
    lastWrite p value dflt (ws.map f) = lastWrite (fun w => p (f w)) (fun w => value (f w)) dflt ws :=
  List.foldl_map

theorem lastWrite_congr {p q : W → Prop} [DecidablePred p] [DecidablePred q] (value : W → V)
    (dflt : V) {ws : List W} (h : ∀ w ∈ ws, p w ↔ q w) :
    lastWrite p value dflt ws = lastWrite q value dflt ws := by
  induction ws generalizing dflt with
  | nil => rfl
  | cons w ws ih =>
    have hw := h w List.mem_cons_self
    simp only [lastWrite, List.foldl_cons, hw]
    exact ih _ fun u hu => h u (List.mem_cons_of_mem _ hu)

variable [DecidableEq K]

/-- The store after the writes `ws`, oldest first. -/
def replay (init : K → V) (ws : List (K × V)) : K → V :=
  ws.foldl (fun f w => Function.update f w.1 w.2) init

theorem replay_nil (init : K → V) : replay init [] = init := rfl

theorem replay_append (init : K → V) (ws ws' : List (K × V)) :
    replay init (ws ++ ws') = replay (replay init ws) ws' :=
  List.foldl_append

theorem replay_apply (init : K → V) (ws : List (K × V)) (k : K) :
    replay init ws k = lastWrite (fun w => w.1 = k) Prod.snd (init k) ws := by
  induction ws generalizing init with
  | nil => rfl
  | cons w ws ih =>
    have hw : Function.update init w.1 w.2 k = if w.1 = k then w.2 else init k := by
      rw [Function.update_apply]; simp only [eq_comm]
    rw [replay, List.foldl_cons, ← replay, ih, hw]
    rfl

theorem replay_of_notMem {init : K → V} {ws : List (K × V)} {k : K}
    (h : k ∉ ws.map Prod.fst) : replay init ws k = init k := by
  induction ws generalizing init with
  | nil => rfl
  | cons w ws ih =>
    rw [List.map_cons, List.mem_cons, not_or] at h
    refine (ih h.2).trans ?_
    exact Function.update_of_ne h.1 ..

/-- A key holds what it held, or something written to it. -/
theorem replay_eq_or_mem (init : K → V) (ws : List (K × V)) (k : K) :
    replay init ws k = init k ∨ (k, replay init ws k) ∈ ws := by
  induction ws generalizing init with
  | nil => exact .inl rfl
  | cons w ws ih =>
    rcases ih (Function.update init w.1 w.2) with h | h
    · by_cases hk : k = w.1
      · subst hk
        have hv : replay init (w :: ws) w.1 = w.2 := h.trans (Function.update_self ..)
        rw [hv]
        exact .inr List.mem_cons_self
      · exact .inl (h.trans (Function.update_of_ne hk ..))
    · exact .inr (List.mem_cons_of_mem _ h)

/-- With distinct keys, each of them holds what was written to it. -/
theorem replay_of_nodup {init : K → V} {ws : List (K × V)} (hd : (ws.map Prod.fst).Nodup)
    {w : K × V} (hw : w ∈ ws) : replay init ws w.1 = w.2 := by
  induction ws generalizing init with
  | nil => cases hw
  | cons u ws ih =>
    rw [List.map_cons, List.nodup_cons] at hd
    rcases List.mem_cons.mp hw with rfl | hw
    · -- no later write has this key
      refine (replay_of_notMem hd.1).trans ?_
      exact Function.update_self ..
    · exact ih hd.2 hw

end StoreView

/-- A system whose operations act on a store: what it does, and what the store sees of it. -/
structure StoreView (σ Op Out K V : Type*) [DecidableEq K] where
  step : σ → Op → σ
  out : σ → Op → Out
  Inv : σ → Prop
  Ok : Op → Prop
  view : σ → K → V
  writes : σ → Op → List (K × V)
  answer : (K → V) → Op → Out
  inv_step : ∀ {s op}, Inv s → Ok op → Inv (step s op)
  view_step : ∀ {s op}, Inv s → Ok op → view (step s op) = StoreView.replay (view s) (writes s op)
  out_step : ∀ {s op}, Inv s → Ok op → out s op = answer (view s) op

namespace StoreView

variable {σ Op Out K V : Type*} [DecidableEq K] (M : StoreView σ Op Out K V)

def run (s : σ) (ops : List Op) : σ := ops.foldl M.step s

/-- What the operations of a run write, oldest first. -/
def trace : σ → List Op → List (K × V)
  | _, [] => []
  | s, op :: ops => M.writes s op ++ trace (M.step s op) ops

theorem inv_run {s : σ} {ops : List Op} (hs : M.Inv s) (hok : ∀ op ∈ ops, M.Ok op) :
    M.Inv (M.run s ops) := by
  induction ops generalizing s with
  | nil => exact hs
  | cons op ops ih =>
    exact ih (M.inv_step hs (hok op List.mem_cons_self))
      fun o ho => hok o (List.mem_cons_of_mem _ ho)

theorem view_run {s : σ} {ops : List Op} (hs : M.Inv s) (hok : ∀ op ∈ ops, M.Ok op) :
    M.view (M.run s ops) = replay (M.view s) (M.trace s ops) := by
  induction ops generalizing s with
  | nil => rfl
  | cons op ops ih =>
    have h := hok op List.mem_cons_self
    rw [trace, replay_append, ← M.view_step hs h]
    exact ih (M.inv_step hs h) fun o ho => hok o (List.mem_cons_of_mem _ ho)

/-- After a run, a key holds the last value written to it, or what it held at the start. -/
theorem view_run_eq_lastWrite {s : σ} {ops : List Op} (hs : M.Inv s) (hok : ∀ op ∈ ops, M.Ok op)
    (k : K) :
    M.view (M.run s ops) k =
      lastWrite (fun w => w.1 = k) Prod.snd (M.view s k) (M.trace s ops) := by
  rw [M.view_run hs hok, replay_apply]

end StoreView

/-!
## Cells accessed in sequence

Reads and writes of a memory that may fail, one after the other. Where they act on a
store of cells (`CellStore`), a sequence of writes replays into the store, and reading
distinct cells that were just written gives the values back (`readAll_writeAll`).
-/

namespace Cells

open StoreView

variable {M A V : Type*}

/-- Read at each address in order; `none` as soon as a read fails. -/
def readAll (read : M → A → Option (V × M)) (m : M) : List A → Option (List V × M)
  | [] => some ([], m)
  | a :: as =>
    match read m a with
    | none => none
    | some (v, m) => (readAll read m as).map fun r => (v :: r.1, r.2)

/-- What is read at each address up to the first read that fails. -/
def readUntil (read : M → A → Option (V × M)) (m : M) : List A → List V
  | [] => []
  | a :: as =>
    match read m a with
    | none => []
    | some (v, m) => v :: readUntil read m as

/-- Write at each address in order; `none` as soon as a write fails. -/
def writeAll (write : M → A → V → Option M) (m : M) : List (A × V) → Option M
  | [] => some m
  | (a, v) :: avs =>
    match write m a v with
    | none => none
    | some m => writeAll write m avs

variable {read : M → A → Option (V × M)} {write : M → A → V → Option M} {m m' : M}

theorem readAll_cons {a : A} {as : List A} {vs : List V} :
    readAll read m (a :: as) = some (vs, m') ↔
      ∃ v m₁ vs', read m a = some (v, m₁) ∧ readAll read m₁ as = some (vs', m') ∧ vs = v :: vs' := by
  rw [readAll]
  cases read m a with
  | none => simp
  | some r =>
    obtain ⟨v, m₁⟩ := r
    simp only [Option.map_eq_some_iff, Prod.mk.injEq, Prod.exists, Option.some.injEq]
    constructor
    · rintro ⟨vs', m₂, h, rfl, rfl⟩
      exact ⟨v, m₁, vs', ⟨rfl, rfl⟩, h, rfl⟩
    · rintro ⟨_, _, vs', ⟨rfl, rfl⟩, h, rfl⟩
      exact ⟨vs', m', h, rfl, rfl⟩

theorem writeAll_cons {a : A} {v : V} {avs : List (A × V)} :
    writeAll write m ((a, v) :: avs) = some m' ↔
      ∃ m₁, write m a v = some m₁ ∧ writeAll write m₁ avs = some m' := by
  rw [writeAll]
  cases write m a v with
  | none => simp
  | some m₁ => simp

theorem readAll_length {as : List A} {vs : List V} (h : readAll read m as = some (vs, m')) :
    vs.length = as.length := by
  induction as generalizing m vs with
  | nil =>
    cases h
    rfl
  | cons a as ih =>
    obtain ⟨v, m₁, vs', -, hvs, rfl⟩ := readAll_cons.mp h
    rw [List.length_cons, List.length_cons, ih hvs]

end Cells

/-- Reads and writes that act on a store: at the addresses that are `Ok` none fails. -/
structure CellStore {M A V : Type*} (read : M → A → Option (V × M))
    (write : M → A → V → Option M) (K : Type*) [DecidableEq K] where
  Inv : M → Prop
  Ok : A → Prop
  cell : A → K
  view : M → K → V
  read_spec : ∀ {m a}, Inv m → Ok a →
    ∃ m', read m a = some (view m (cell a), m') ∧ Inv m' ∧ view m' = view m
  write_spec : ∀ {m a} (v : V), Inv m → Ok a →
    ∃ m', write m a v = some m' ∧ Inv m' ∧ view m' = Function.update (view m) (cell a) v

namespace CellStore

open StoreView Cells

variable {M A V K : Type*} [DecidableEq K] {read : M → A → Option (V × M)}
  {write : M → A → V → Option M} (C : CellStore read write K) {m : M}

theorem writeAll_spec {avs : List (A × V)} (hm : C.Inv m) (hok : ∀ p ∈ avs, C.Ok p.1) :
    ∃ m', writeAll write m avs = some m' ∧ C.Inv m' ∧
      C.view m' = replay (C.view m) (avs.map fun p => (C.cell p.1, p.2)) := by
  induction avs generalizing m with
  | nil => exact ⟨m, rfl, hm, rfl⟩
  | cons p avs ih =>
    obtain ⟨m₁, h₁, hi₁, hv₁⟩ := C.write_spec p.2 hm (hok p List.mem_cons_self)
    obtain ⟨m₂, h₂, hi₂, hv₂⟩ := ih hi₁ fun q hq => hok q (List.mem_cons_of_mem _ hq)
    refine ⟨m₂, ?_, hi₂, ?_⟩
    · rw [writeAll, h₁]
      exact h₂
    · rw [hv₂, hv₁]
      rfl

theorem readAll_spec {as : List A} (hm : C.Inv m) (hok : ∀ a ∈ as, C.Ok a) :
    ∃ m', readAll read m as = some (as.map fun a => C.view m (C.cell a), m') ∧ C.Inv m' ∧
      C.view m' = C.view m := by
  induction as generalizing m with
  | nil => exact ⟨m, rfl, hm, rfl⟩
  | cons a as ih =>
    obtain ⟨m₁, h₁, hi₁, hv₁⟩ := C.read_spec hm (hok a List.mem_cons_self)
    obtain ⟨m₂, h₂, hi₂, hv₂⟩ := ih hi₁ fun q hq => hok q (List.mem_cons_of_mem _ hq)
    refine ⟨m₂, ?_, hi₂, hv₂.trans hv₁⟩
    rw [readAll, h₁]
    simp only [h₂, Option.map_some, hv₁, List.map_cons]

/-- Values written to distinct cells are read back. -/
theorem readAll_writeAll {avs : List (A × V)} (hm : C.Inv m) (hok : ∀ p ∈ avs, C.Ok p.1)
    (hd : (avs.map fun p => C.cell p.1).Nodup) :
    ∃ m', writeAll write m avs = some m' ∧ C.Inv m' ∧
      ∃ m'', readAll read m' (avs.map Prod.fst) = some (avs.map Prod.snd, m'') ∧ C.Inv m'' ∧
        C.view m'' = C.view m' := by
  obtain ⟨m', hw, hi', hv'⟩ := C.writeAll_spec hm hok
  have hok' : ∀ a ∈ avs.map Prod.fst, C.Ok a := fun a ha => by
    obtain ⟨p, hp, rfl⟩ := List.mem_map.mp ha
    exact hok p hp
  obtain ⟨m'', hr, hi'', hv''⟩ := C.readAll_spec hi' hok'
  refine ⟨m', hw, hi', m'', ?_, hi'', hv''⟩
  rw [hr, List.map_map, hv']
  congr 2
  apply List.map_congr_left
  intro p hp
  exact replay_of_nodup (by rwa [List.map_map]) (List.mem_map_of_mem hp)

end CellStore
