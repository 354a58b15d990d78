import Mathlib.Data.List.Nodup
import Mathlib.Logic.Function.Basic
import Mathlib.Data.Fintype.Card

/-!
# Doubly linked chains with a head for each bucket

Nodes carry a pointer to the next and to the previous node of their chain, buckets a
pointer to the first node. `unlink` and `push` are the usual relinking code. `Held` says
which node is on which chain and in which order; both operations keep it, and a walk along
a held chain is a search of its list.
-/

/-- The pointers: of the buckets to their first node, of the nodes to their neighbours. -/
structure Chains (β α : Type*) where
  head : β → Option α
  next : α → Option α
  prev : α → Option α

namespace Chains

variable {β α : Type*}

/-- Lets the node after `x` point back past it. -/
def unlinkNext [DecidableEq α] (c : Chains β α) (x : α) : Chains β α :=
  match c.next x with
  | some y => { c with prev := Function.update c.prev y (c.prev x) }
  | none => c

/-- Takes `x` off the chain of bucket `b`. -/
def unlink [DecidableEq β] [DecidableEq α] (c : Chains β α) (b : β) (x : α) : Chains β α :=
  let c := c.unlinkNext x
  match c.prev x with
  | some z => { c with next := Function.update c.next z (c.next x) }
  | none => { c with head := Function.update c.head b (c.next x) }

/-- Puts `x` before the first node of bucket `b`. -/
def push [DecidableEq β] [DecidableEq α] (c : Chains β α) (b : β) (x : α) : Chains β α :=
  let c := match c.head b with
    | some y => { c with prev := Function.update c.prev y (some x) }
    | none => c
  { head := Function.update c.head b (some x)
    next := Function.update c.next x (c.head b)
    prev := Function.update c.prev x none }

/-- The walk from `p`: the first node that satisfies `f`, none inside where the chain ends
without one, none outside where the fuel is used up. -/
def search (c : Chains β α) (f : α → Bool) : Nat → Option α → Option (Option α)
  | 0, _ => none
  | _ + 1, none => some none
  | fuel + 1, some x => if f x then some (some x) else c.search f fuel (c.next x)

/-! ## One chain -/

/-- The nodes from `p` on are those of the list, linked both ways, `q` before the first. -/
def Linked (c : Chains β α) : Option α → Option α → List α → Prop
  | _, p, [] => p = none
  | q, p, x :: l => p = some x ∧ c.prev x = q ∧ c.Linked (some x) (c.next x) l

variable {c c' : Chains β α} {q p : Option α} {l l₁ l₂ : List α} {x : α}

theorem Linked.eq_head? (h : c.Linked q p l) : p = l.head? := by
  cases l with
  | nil => exact h
  | cons x l => exact h.1

/-- A chain reads the pointers of its own nodes only. -/
theorem Linked.congr (h : c.Linked q p l)
    (hn : ∀ x ∈ l, c'.next x = c.next x) (hp : ∀ x ∈ l, c'.prev x = c.prev x) :
    c'.Linked q p l := by
  induction l generalizing q p with
  | nil => exact h
  | cons x l ih =>
    obtain ⟨h1, h2, h3⟩ := h
    have hx : x ∈ x :: l := List.mem_cons_self
    refine ⟨h1, (hp x hx).trans h2, ?_⟩
    rw [hn x hx]
    exact ih h3 (fun y hy => hn y (List.mem_cons_of_mem x hy))
      fun y hy => hp y (List.mem_cons_of_mem x hy)

/-- What stands before a node in the list is what its `prev` names. -/
theorem Linked.prev_eq (h : c.Linked q p (l₁ ++ x :: l₂)) :
    c.prev x = (l₁.getLast?).or q := by
  induction l₁ generalizing q p with
  | nil => exact h.2.1
  | cons w l₁ ih =>
    rw [ih h.2.2]
    cases l₁ with
    | nil => rfl
    | cons v l₁ => simp [List.getLast?_cons]

theorem Linked.next_eq (h : c.Linked q p (l₁ ++ x :: l₂)) : c.next x = l₂.head? := by
  induction l₁ generalizing q p with
  | nil => exact h.2.2.eq_head?
  | cons w l₁ ih => exact ih h.2.2

/-- A new predecessor for the first node: only that node's `prev` has to follow. -/
theorem Linked.relink {q' : Option α} (h : c.Linked q p l) (hl : l.Nodup)
    (hn : ∀ x ∈ l, c'.next x = c.next x) (hp : ∀ x ∈ l, p ≠ some x → c'.prev x = c.prev x)
    (hq : ∀ x, p = some x → c'.prev x = q') : c'.Linked q' p l := by
  cases l with
  | nil => exact h
  | cons x l =>
    obtain ⟨h1, h2, h3⟩ := h
    have hx := (List.nodup_cons.mp hl).1
    refine ⟨h1, hq x h1, ?_⟩
    rw [hn x List.mem_cons_self]
    refine h3.congr (fun y hy => hn y (List.mem_cons_of_mem x hy)) fun y hy => ?_
    refine hp y (List.mem_cons_of_mem x hy) fun e => hx ?_
    rw [h1] at e
    cases e
    exact hy

theorem search_of_linked {f : α → Bool} {fuel : Nat} (h : c.Linked q p l)
    (hf : l.length < fuel) : c.search f fuel p = some (l.find? f) := by
  induction l generalizing q p fuel with
  | nil =>
    obtain ⟨n, rfl⟩ := Nat.exists_eq_succ_of_ne_zero (show fuel ≠ 0 by omega)
    have hp : p = none := h
    subst hp
    rfl
  | cons x l ih =>
    obtain ⟨n, rfl⟩ := Nat.exists_eq_succ_of_ne_zero (show fuel ≠ 0 by omega)
    obtain ⟨rfl, h2, h3⟩ := h
    rw [List.length_cons] at hf
    unfold search
    rw [List.find?_cons]
    cases hx : f x with
    | true => simp
    | false =>
      simp only [Bool.false_eq_true, ↓reduceIte]
      exact ih h3 (by omega)

/-- Taking out `x`: the node before it now points past it, the node after it back past it. -/
theorem Linked.splice (h : c.Linked q p (l₁ ++ x :: l₂)) (hl : (l₁ ++ x :: l₂).Nodup)
    (hn : ∀ w ∈ l₁ ++ l₂, l₁.getLast? ≠ some w → c'.next w = c.next w)
    (hn' : ∀ w, l₁.getLast? = some w → c'.next w = c.next x)
    (hp : ∀ w ∈ l₁ ++ l₂, l₂.head? ≠ some w → c'.prev w = c.prev w)
    (hp' : ∀ w, l₂.head? = some w → c'.prev w = c.prev x) :
    c'.Linked q (if l₁ = [] then c.next x else p) (l₁ ++ l₂) := by
  induction l₁ generalizing q p with
  | nil =>
    obtain ⟨h1, h2, h3⟩ := h
    have hx : c.next x = l₂.head? := h3.eq_head?
    refine h3.relink (List.nodup_cons.mp hl).2 (fun w hw => hn w hw (by simp)) ?_ ?_
    · intro w hw hne
      exact hp w hw (hx ▸ hne)
    · intro w hw
      rw [hp' w (hx ▸ hw), h2]
  | cons w l₁ ih =>
    obtain ⟨h1, h2, h3⟩ := h
    have hw : w ∉ l₁ ++ x :: l₂ := (List.nodup_cons.mp hl).1
    have hw1 : w ∉ l₁ := fun hm => hw (List.mem_append_left _ hm)
    have hw2 : w ∉ l₂ := fun hm => hw (by simp [hm])
    have hin : ∀ u ∈ l₁ ++ l₂, u ≠ w := by
      rintro u hu rfl
      rcases List.mem_append.mp hu with hu | hu
      · exact hw1 hu
      · exact hw2 hu
    have hlast : ∀ u, u ≠ w → (w :: l₁).getLast? = some u → l₁.getLast? = some u := by
      intro u hu e
      rw [List.getLast?_cons] at e
      cases hl₁ : l₁.getLast? with
      | none => simp [hl₁] at e; exact absurd e.symm hu
      | some v => simpa [hl₁] using e
    have hrest := ih h3 (List.nodup_cons.mp hl).2
      (fun u hu hne => hn u (List.mem_cons_of_mem w hu) fun e => hne (hlast u (hin u hu) e))
      (fun u hu => hn' u (by rw [List.getLast?_cons, hu]; rfl))
      (fun u hu => hp u (List.mem_cons_of_mem w hu))
    have hprev : c'.prev w = q := by
      rw [hp w List.mem_cons_self fun e => hw2 (List.mem_of_mem_head? e), h2]
    have hnext : c'.next w = if l₁ = [] then c.next x else c.next w := by
      by_cases he : l₁ = []
      · subst he
        rw [hn' w rfl]
        rfl
      · rw [if_neg he, hn w List.mem_cons_self]
        intro e
        rw [List.getLast?_cons] at e
        cases hl₁ : l₁.getLast? with
        | none => exact he (List.getLast?_eq_none_iff.mp hl₁)
        | some v =>
          rw [hl₁, Option.getD_some] at e
          cases e
          exact hw1 (List.mem_of_getLast? hl₁)
    rw [if_neg (List.cons_ne_nil w l₁)]
    refine ⟨h1, hprev, ?_⟩
    rw [hnext]
    exact hrest

/-! ## All chains -/

/-- `l` lists the chains: each is linked, meets no node twice and has the nodes that
`bucket` assigns to it. -/
structure Held (c : Chains β α) (bucket : α → Option β) (l : β → List α) : Prop where
  linked : ∀ b, c.Linked none (c.head b) (l b)
  nodup : ∀ b, (l b).Nodup
  mem_iff : ∀ b x, x ∈ l b ↔ bucket x = some b

variable {bucket : α → Option β} {ls : β → List α} {b : β}

theorem Held.bucket_unique (h : c.Held bucket ls) {b b' : β} (hx : x ∈ ls b)
    (hx' : x ∈ ls b') : b = b' := by
  have e := (h.mem_iff b x).mp hx
  rw [(h.mem_iff b' x).mp hx'] at e
  exact (Option.some.inj e).symm

/-- The walk along a held chain finds what a search of its list finds. -/
theorem Held.search_eq (h : c.Held bucket ls) {f : α → Bool} {fuel : Nat} (b : β)
    (hf : (ls b).length < fuel) : c.search f fuel (c.head b) = some ((ls b).find? f) :=
  search_of_linked (h.linked b) hf

theorem Held.length_le [Fintype α] (h : c.Held bucket ls) (b : β) :
    (ls b).length ≤ Fintype.card α :=
  (h.nodup b).length_le_card

theorem held_empty (next prev : α → Option α) :
    (Chains.mk (fun _ : β => none) next prev).Held (fun _ => none) fun _ => [] where
  linked _ := rfl
  nodup _ := List.nodup_nil
  mem_iff b x := by simp

theorem Held.next_ne_self (h : c.Held bucket ls) (hl : ls b = l₁ ++ x :: l₂) :
    c.next x ≠ some x := by
  have hnd := h.nodup b
  have hlk := h.linked b
  rw [hl] at hnd hlk
  rw [hlk.next_eq]
  intro e
  exact (List.nodup_cons.mp (List.Nodup.of_append_right hnd)).1 (List.mem_of_mem_head? e)

variable [DecidableEq α]

theorem next_unlinkNext : (c.unlinkNext x).next = c.next := by
  unfold unlinkNext
  split <;> rfl

theorem head_unlinkNext : (c.unlinkNext x).head = c.head := by
  unfold unlinkNext
  split <;> rfl

theorem prev_unlinkNext (w : α) : (c.unlinkNext x).prev w =
    if c.next x = some w then c.prev x else c.prev w := by
  unfold unlinkNext
  cases hn : c.next x with
  | none => simp
  | some y =>
    by_cases hw : w = y
    · subst hw
      simp
    · have hyw : ¬some y = some w := fun e => hw (Option.some.inj e).symm
      simp [hw, hyw]

variable [DecidableEq β]

theorem prev_unlink (w : α) : (c.unlink b x).prev w =
    if c.next x = some w then c.prev x else c.prev w := by
  rw [← prev_unlinkNext]
  unfold unlink
  dsimp only
  split <;> rfl

theorem next_unlink (hx : c.next x ≠ some x) (w : α) : (c.unlink b x).next w =
    if c.prev x = some w then c.next x else c.next w := by
  have hp := prev_unlinkNext (c := c) (x := x) x
  rw [if_neg hx] at hp
  unfold unlink
  dsimp only
  rw [hp, next_unlinkNext]
  cases c.prev x with
  | none => simp
  | some z => by_cases hw : w = z <;> simp [hw, eq_comm]

theorem head_unlink (hx : c.next x ≠ some x) (b' : β) : (c.unlink b x).head b' =
    if b' = b ∧ c.prev x = none then c.next x else c.head b' := by
  have hp := prev_unlinkNext (c := c) (x := x) x
  rw [if_neg hx] at hp
  unfold unlink
  dsimp only
  rw [hp, next_unlinkNext, head_unlinkNext]
  cases c.prev x with
  | none => by_cases hb : b' = b <;> simp [hb]
  | some z => simp

theorem Held.linked_unlink_self (h : c.Held bucket ls) (hl : ls b = l₁ ++ x :: l₂) :
    (c.unlink b x).Linked none ((c.unlink b x).head b) (l₁ ++ l₂) := by
  have hself := h.next_ne_self hl
  have hnd := h.nodup b
  have hlk := h.linked b
  rw [hl] at hnd hlk
  have hnext := hlk.next_eq
  have hprev := hlk.prev_eq
  rw [Option.or_none] at hprev
  have hs : (c.unlink b x).Linked _ _ _ := hlk.splice hnd
    (fun w _ hne => by rw [next_unlink hself, if_neg (hprev ▸ hne)])
    (fun w e => by rw [next_unlink hself, if_pos (hprev ▸ e)])
    (fun w _ hne => by rw [prev_unlink, if_neg (hnext ▸ hne)])
    (fun w e => by rw [prev_unlink, if_pos (hnext ▸ e)])
  rw [head_unlink hself]
  by_cases hl₁ : l₁ = []
  · subst hl₁
    simpa [hprev] using hs
  · have hne : c.prev x ≠ none := by
      rw [hprev]
      exact fun e => hl₁ (List.getLast?_eq_none_iff.mp e)
    simpa [hl₁, hne] using hs

theorem Held.linked_unlink_of_ne (h : c.Held bucket ls) (hl : ls b = l₁ ++ x :: l₂) {b' : β}
    (hb : b' ≠ b) : (c.unlink b x).Linked none ((c.unlink b x).head b') (ls b') := by
  have hself := h.next_ne_self hl
  have hlk := h.linked b
  rw [hl] at hlk
  have hnext := hlk.next_eq
  have hprev := hlk.prev_eq
  rw [Option.or_none] at hprev
  rw [head_unlink hself, if_neg fun e => hb e.1]
  refine (h.linked b').congr (fun w hw => ?_) fun w hw => ?_
  · rw [next_unlink hself, if_neg]
    intro e
    refine hb (h.bucket_unique hw ?_)
    rw [hl]
    exact List.mem_append_left _ (List.mem_of_getLast? (hprev ▸ e))
  · rw [prev_unlink, if_neg]
    intro e
    refine hb (h.bucket_unique hw ?_)
    rw [hl]
    exact List.mem_append_right _ (List.mem_cons_of_mem x (List.mem_of_mem_head? (hnext ▸ e)))

/-- The chains without the node hold the nodes of the buckets without it. -/
theorem Held.mem_erase_iff (h : c.Held bucket ls) (hx : bucket x = some b) (b' : β) (w : α) :
    w ∈ Function.update ls b ((ls b).erase x) b' ↔
      Function.update bucket x none w = some b' := by
  by_cases hw : w = x
  · subst hw
    rw [Function.update_self]
    by_cases hb : b' = b
    · subst hb
      simp [(h.nodup b').not_mem_erase]
    · rw [Function.update_of_ne hb, h.mem_iff, hx]
      simp [Ne.symm hb]
  · rw [Function.update_of_ne hw]
    by_cases hb : b' = b
    · subst hb
      rw [Function.update_self, List.mem_erase_of_ne hw, h.mem_iff]
    · rw [Function.update_of_ne hb, h.mem_iff]

/-- `unlink` takes the node off its chain and leaves the others as they are. -/
theorem Held.unlink (h : c.Held bucket ls) (hx : bucket x = some b) :
    (c.unlink b x).Held (Function.update bucket x none)
      (Function.update ls b ((ls b).erase x)) := by
  have hmem : x ∈ ls b := (h.mem_iff b x).mpr hx
  obtain ⟨l₁, l₂, hl⟩ := List.append_of_mem hmem
  have hx1 : x ∉ l₁ := by
    have hnd := h.nodup b
    rw [hl] at hnd
    exact fun hm => (List.disjoint_of_nodup_append hnd) hm List.mem_cons_self
  have herase : (ls b).erase x = l₁ ++ l₂ := by
    rw [hl, List.erase_append_right _ hx1, List.erase_cons_head]
  refine ⟨fun b' => ?_, fun b' => ?_, h.mem_erase_iff hx⟩
  · by_cases hb : b' = b
    · subst hb
      rw [Function.update_self, herase]
      exact h.linked_unlink_self hl
    · rw [Function.update_of_ne hb]
      exact h.linked_unlink_of_ne hl hb
  · by_cases hb : b' = b
    · subst hb
      rw [Function.update_self]
      exact (h.nodup b').erase x
    · rw [Function.update_of_ne hb]
      exact h.nodup b'

theorem head_push : (c.push b x).head = Function.update c.head b (some x) := by
  unfold push
  cases hb : c.head b <;> simp

theorem next_push : (c.push b x).next = Function.update c.next x (c.head b) := by
  unfold push
  cases hb : c.head b <;> simp [hb]

theorem prev_push (w : α) : (c.push b x).prev w =
    if w = x then none else if c.head b = some w then some x else c.prev w := by
  unfold push
  by_cases hw : w = x
  · simp [hw]
  · cases hb : c.head b with
    | none => simp [hw]
    | some y =>
      by_cases hy : w = y
      · subst hy
        simp [hw]
      · simp [hw, hy, eq_comm]

/-- `push` makes a node that is on no chain the first of one. -/
theorem Held.push (h : c.Held bucket ls) (hx : bucket x = none) :
    (c.push b x).Held (Function.update bucket x (some b))
      (Function.update ls b (x :: ls b)) := by
  have hout : ∀ b', x ∉ ls b' := by
    intro b' hm
    rw [h.mem_iff, hx] at hm
    cases hm
  have hnext : ∀ w, w ≠ x → (c.push b x).next w = c.next w := by
    intro w hw
    rw [next_push, Function.update_of_ne hw]
  have hprev : ∀ w, w ≠ x → c.head b ≠ some w → (c.push b x).prev w = c.prev w := by
    intro w hw hne
    rw [prev_push, if_neg hw, if_neg hne]
  have hfirst : ∀ w, w ≠ x → c.head b = some w → (c.push b x).prev w = some x := by
    intro w hw e
    rw [prev_push, if_neg hw, if_pos e]
  have hne : ∀ {b' w}, w ∈ ls b' → w ≠ x := fun hw e => hout _ (e ▸ hw)
  refine ⟨fun b' => ?_, fun b' => ?_, fun b' w => ?_⟩
  · by_cases hb : b' = b
    · subst hb
      rw [Function.update_self]
      refine ⟨by rw [head_push, Function.update_self], by rw [prev_push, if_pos rfl], ?_⟩
      rw [next_push, Function.update_self]
      refine (h.linked b').relink (h.nodup b') (fun w hw => hnext w (hne hw))
        (fun w hw => hprev w (hne hw)) fun w hw => hfirst w (@hne b' w ?_) hw
      have := (h.linked b').eq_head?
      exact List.mem_of_mem_head? (this ▸ hw)
    · rw [Function.update_of_ne hb, head_push, Function.update_of_ne hb]
      refine (h.linked b').congr (fun w hw => hnext w (hne hw)) fun w hw => ?_
      refine hprev w (hne hw) fun e => hb (h.bucket_unique hw ?_)
      have := (h.linked b).eq_head?
      exact List.mem_of_mem_head? (this ▸ e)
  · by_cases hb : b' = b
    · subst hb
      rw [Function.update_self]
      exact List.nodup_cons.mpr ⟨hout b', h.nodup b'⟩
    · rw [Function.update_of_ne hb]
      exact h.nodup b'
  · by_cases hb : b' = b
    · subst hb
      rw [Function.update_self, List.mem_cons, h.mem_iff]
      by_cases hw : w = x
      · simp [hw]
      · simp [hw]
    · rw [Function.update_of_ne hb, h.mem_iff]
      by_cases hw : w = x
      · subst hw
        simp [hx, Ne.symm hb]
      · rw [Function.update_of_ne hw]

end Chains
