import SkyEye.Gdb.ActionWalk

/-!
# Action lists in every run

What the trace packets build are trees: each new node comes from `malloc` and is linked from one
place. So the lists of all tracepoints stand for the trees that the table has for them, in
every run, and no two of them have a node in common.
-/

namespace SkyEye.Gdb.ActionHeap

/-- The program stops only for want of memory, else `P` holds of what it does. -/
def Ends {α : Type} (P : α → Prop) : Except Stop α → Prop
  | .error e => e = .noMemory
  | .ok a => P a

theorem Ends.bind {α β : Type} {P : α → Prop} {Q : β → Prop} {x : Except Stop α}
    {f : α → Except Stop β} (hx : Ends P x) (hf : ∀ a, P a → Ends Q (f a)) :
    Ends Q (x >>= f) := by
  cases x with
  | error e => exact hx
  | ok a => exact hf a hx

theorem Ends.mono {α : Type} {P Q : α → Prop} {x : Except Stop α} (hx : Ends P x)
    (hPQ : ∀ a, P a → Q a) : Ends Q x := by
  cases x with
  | error e => exact hx
  | ok a => exact hPQ a hx

theorem Ends.of_some {α : Type} {P : α → Prop} {x : Option α} (hx : ∃ a, x = some a ∧ P a) :
    Ends P (Stop.of x) := by
  obtain ⟨a, rfl, ha⟩ := hx
  exact ha

@[simp] theorem Action.append_nil (a : Action) : a.append .nil = a := by
  induction a with
  | nil => rfl
  | collect ca sibling ih => rw [Action.append, ih]
  | while_ c l child sibling _ ih => rw [Action.append, ih]

section Parser

variable {malloc : (Ptr → Option ActionNode) → Option Ptr} {s s' : Lists} {i : Nat}

/-- A new node, and what of the heap is as before. -/
def Allocated (h : Heap) (p : Ptr) (h' : Heap) : Prop :=
  p ≠ 0 ∧ h.node p = none ∧ h'.node p = some ActionNode.default ∧ h'.mallocs = h.mallocs + 1 ∧
    ∀ x, x ≠ p → h'.node x = h.node x

theorem alloc_spec (hm : MallocFresh malloc) (h : Heap) :
    Ends (fun r => Allocated h r.1 r.2) (h.alloc malloc) := by
  unfold Heap.alloc
  cases hp : malloc h.node with
  | none => rfl
  | some p =>
    obtain ⟨h0, hfree⟩ := hm h.node p hp
    exact ⟨h0, hfree, Function.update_self _ _ _, rfl, fun x hx => Function.update_of_ne hx _ _⟩

theorem prepareAction_child (hm : MallocFresh malloc) {q : Ptr} {n : ActionNode}
    (hn : s.heap.node q = some n) (h0 : n.child = 0) :
    Ends (fun r => ∃ h, Allocated s.heap r.1 h ∧ r.2 = ⟨s.actions, h.setChild q r.1⟩)
      (s.prepareAction malloc i (some q)) := by
  have hl : s.listOf i (some q) = some 0 := by rw [Lists.listOf, hn, ← h0]; rfl
  unfold Lists.prepareAction
  rw [hl]
  exact (alloc_spec hm s.heap).bind fun r hr => ⟨r.2, hr, rfl⟩

/-- Behind the list of a tracepoint: the node can be made any tree. -/
theorem prepareAction_top (hm : MallocFresh malloc) {a : Action} {fp : List Ptr}
    (hr : Rep s.heap.node (s.actions i) a fp) (hnd : fp.Nodup)
    (hlen : fp.length ≤ s.heap.mallocs) :
    Ends (fun r => r.1 ≠ 0 ∧ s.heap.node r.1 = none ∧
      r.2.heap.node r.1 = some ActionNode.default ∧
      r.2.heap.mallocs = s.heap.mallocs + 1 ∧ (∀ j, j ≠ i → r.2.actions j = s.actions j) ∧
      (∀ x ∉ fp, x ≠ r.1 → r.2.heap.node x = s.heap.node x) ∧
      (∀ x, r.2.heap.node x = none → s.heap.node x = none) ∧
      ∀ node' b fb, (∀ x ∈ fp, node' x = r.2.heap.node x) → Rep node' r.1 b fb →
        Rep node' (r.2.actions i) (a.append b) (fp ++ fb))
      (s.prepareAction malloc i none) := by
  unfold Lists.prepareAction
  by_cases h0 : s.actions i = 0
  · have hl : s.listOf i none = some 0 := congrArg some h0
    rw [hl]
    rw [h0] at hr
    obtain ⟨rfl, rfl⟩ := rep_null hr
    refine (alloc_spec hm s.heap).bind fun r ⟨hp, hfree, hself, hmal, hkeep⟩ => ?_
    refine ⟨hp, hfree, hself, hmal, fun j hj => Function.update_of_ne hj _ _,
      fun x _ hx => hkeep x hx, fun x hx => ?_, fun node' b fb _ hb => ?_⟩
    · have hxp : x ≠ r.1 := fun he => by rw [he] at hx; exact nomatch hself.symm.trans hx
      exact (hkeep x hxp).symm.trans hx
    have hi : (s.setListOf i r.1 r.2 none).actions i = r.1 := Function.update_self _ _ _
    show Rep node' ((s.setListOf i r.1 r.2 none).actions i) b fb
    rwa [hi]
  · have hl : s.listOf i none = some (s.actions i) := rfl
    obtain ⟨l, n, hlast, hmem, hn, hback⟩ :=
      lastSibling_spec s.heap.fuel hr h0 hnd (Nat.le_succ_of_le hlen)
    rw [hl]
    split
    · rename_i he; cases he
    · rename_i he; exact absurd (Option.some.inj he) h0
    · rename_i current _ he
      obtain rfl := Option.some.inj he
      rw [hlast]
      refine (alloc_spec hm s.heap).bind fun r ⟨hp, hfree, hself, hmal, hkeep⟩ => ?_
      have hlp : r.1 ≠ l := fun he => by rw [he, hn] at hfree; cases hfree
      refine ⟨hp, hfree, (Heap.modify_other hlp).trans hself, hmal, fun j _ => rfl,
        fun x hx hxp => ?_, fun x hx => ?_, fun node' b fb hag hb => ?_⟩
      · have hxl : x ≠ l := fun he => hx (he ▸ hmem)
        exact (Heap.modify_other hxl).trans (hkeep x hxp)
      · have hln := Heap.modify_self (f := fun n => { n with sibling := r.1 })
          ((hkeep l hlp.symm).trans hn)
        have hxl : x ≠ l := fun he => by rw [he] at hx; exact nomatch hln.symm.trans hx
        have hx' : r.2.node x = none := (Heap.modify_other hxl).symm.trans hx
        have hxp : x ≠ r.1 := fun he => by rw [he] at hx'; exact nomatch hself.symm.trans hx'
        exact (hkeep x hxp).symm.trans hx'
      · have hnew : ∀ x ∈ fp, x ≠ r.1 := fun x hx he => hr.not_mem_of_none hfree (he ▸ hx)
        refine hback node' r.1 b fb (fun x hx hxl => ?_) ?_ hb
        · exact (hag x hx).trans ((Heap.modify_other hxl).trans (hkeep x (hnew x hx)))
        · rw [hag l hmem]
          exact Heap.modify_self ((hkeep l (hnew l hmem)).trans hn)

/-! ## What a payload makes of a new node -/

/-- The payload adds an action. -/
def Payload.IsAction : Payload → Prop
  | .registers _ | .memory _ | .whileStepping _ => True
  | _ => False

/-- `decode_DP_playload` behind its `prepare_action`. -/
def fillAction (malloc : (Ptr → Option ActionNode) → Option Ptr) (i : Nat) (step : Addr)
    (p : Ptr) (s : Lists) : Payload → Except Stop Lists
  | .registers mask => .ok { s with heap := s.heap.setData p (.collect (.registers mask)) }
  | .memory mc => .ok { s with heap := s.heap.setData p (.collect (.memory mc)) }
  | .whileStepping q => Lists.decodeDPPlayload malloc i step (some p) q
      { s with heap := s.heap.setData p (.while_ step step) }
  | _ => .ok s

theorem decodeDPPlayload_of_action {step : Addr} {parent : Option Ptr} {q : Payload}
    (hq : Payload.IsAction q) : Lists.decodeDPPlayload malloc i step parent q s =
      (s.prepareAction malloc i parent >>= fun r => fillAction malloc i step r.1 r.2 q) := by
  cases q with
  | registers | memory | whileStepping => rfl
  | enable | disable | nothing => exact absurd hq id

theorem decodeDPPlayload_of_not (malloc : (Ptr → Option ActionNode) → Option Ptr) (s : Lists)
    (i : Nat) (step : Addr) (parent : Option Ptr) {q : Payload} (hq : ¬ Payload.IsAction q) :
    Lists.decodeDPPlayload malloc i step parent q s = .ok s ∧ q.action step = .nil := by
  cases q with
  | registers | memory | whileStepping => exact absurd trivial hq
  | enable | disable | nothing => exact ⟨rfl, rfl⟩

/-- The node at `p` has become the tree `b`, with new nodes below it. -/
def Made (p : Ptr) (s : Lists) (b : Action) (s' : Lists) : Prop :=
  ∃ fb, Rep s'.heap.node p b (p :: fb) ∧ (p :: fb).Nodup ∧ (∀ x ∈ fb, s.heap.node x = none) ∧
    s'.actions = s.actions ∧ (∀ x ∉ p :: fb, s'.heap.node x = s.heap.node x) ∧
    s'.heap.mallocs = s.heap.mallocs + fb.length

theorem made_collect {p : Ptr} (hp : p ≠ 0) (hn : s.heap.node p = some ActionNode.default)
    (ca : CollectAction) :
    Made p s (.collect ca .nil) { s with heap := s.heap.setData p (.collect ca) } := by
  refine ⟨[], ⟨0, [], hp, Heap.setData_self hn, ⟨rfl, rfl⟩, rfl⟩, List.nodup_singleton p,
    fun x hx => absurd hx List.not_mem_nil, rfl, fun x hx => ?_, rfl⟩
  exact Heap.setData_other fun he => hx (he ▸ List.mem_cons_self)

theorem fillAction_spec (hm : MallocFresh malloc) {step : Addr} {q : Payload}
    (hq : Payload.IsAction q) {p : Ptr} (hp : p ≠ 0)
    (hn : s.heap.node p = some ActionNode.default) :
    Ends (Made p s (q.action step)) (fillAction malloc i step p s q) := by
  induction q generalizing p s with
  | registers mask => exact made_collect hp hn _
  | memory mc => exact made_collect hp hn _
  | enable | disable | nothing => exact absurd hq id
  | whileStepping q ih =>
    have hself : (s.heap.setData p (.while_ step step)).node p =
        some ⟨.while_ step step, 0, 0⟩ := Heap.setData_self hn
    by_cases hq' : Payload.IsAction q
    · show Ends _ (Lists.decodeDPPlayload malloc i step (some p) q _)
      rw [decodeDPPlayload_of_action hq']
      refine (prepareAction_child hm hself rfl).bind fun r hr => ?_
      obtain ⟨h, ⟨hr0, hfree, hrself, hmal, hkeep⟩, hr2⟩ := hr
      have hrp : r.1 ≠ p := fun he => by rw [he, hself] at hfree; cases hfree
      have hpself : r.2.heap.node p = some ⟨.while_ step step, 0, r.1⟩ := by
        rw [hr2]
        exact Heap.modify_self ((hkeep p hrp.symm).trans hself)
      have hrdef : r.2.heap.node r.1 = some ActionNode.default := by
        rw [hr2]
        exact (Heap.modify_other hrp).trans hrself
      have hother : ∀ x, x ≠ p → x ≠ r.1 → r.2.heap.node x = s.heap.node x := fun x hxp hxr => by
        rw [hr2]
        exact (Heap.modify_other hxp).trans ((hkeep x hxr).trans (Heap.setData_other hxp))
      refine (ih hq' hr0 hrdef).mono fun s' hs' => ?_
      obtain ⟨fb, hrep, hnd, hnew, hact, hkeep', hmal'⟩ := hs'
      have hpfb : p ∉ r.1 :: fb := by
        rintro hx
        rcases List.mem_cons.mp hx with hx | hx
        · exact hrp hx.symm
        · have := hnew p hx
          rw [hpself] at this
          cases this
      refine ⟨(r.1 :: fb) ++ [], ⟨0, r.1, r.1 :: fb, [], hp, (hkeep' p hpfb).trans hpself, hrep,
        ⟨rfl, rfl⟩, rfl⟩, ?_, fun x hx => ?_, ?_, fun x hx => ?_, ?_⟩
      · rw [List.append_nil]
        exact List.nodup_cons.mpr ⟨hpfb, hnd⟩
      · rw [List.append_nil] at hx
        have hxp : x ≠ p := fun he => hpfb (he ▸ hx)
        rcases List.mem_cons.mp hx with rfl | hx
        · exact (Heap.setData_other hxp).symm.trans hfree
        · have hxr : x ≠ r.1 := fun he => (List.nodup_cons.mp hnd).1 (he ▸ hx)
          exact (hother x hxp hxr).symm.trans (hnew x hx)
      · rw [hact, hr2]
      · rw [List.append_nil] at hx
        obtain ⟨hxp, hx⟩ := not_or.mp (mt List.mem_cons.mpr hx)
        rw [hkeep' x hx, hother x hxp fun he => hx (he ▸ List.mem_cons_self)]
      · have hmalr : r.2.heap.mallocs = s.heap.mallocs + 1 := by rw [hr2]; exact hmal
        rw [hmal', hmalr, List.append_nil, List.length_cons]
        omega
    · obtain ⟨hdec, hnil⟩ := decodeDPPlayload_of_not malloc
        { s with heap := s.heap.setData p (.while_ step step) } i step (some p) hq'
      show Ends _ (Lists.decodeDPPlayload malloc i step (some p) q _)
      rw [hdec]
      refine ⟨[], ⟨0, 0, [], [], hp, hself, ?_, ⟨rfl, rfl⟩, rfl⟩, List.nodup_singleton p,
        fun x hx => absurd hx List.not_mem_nil, rfl, fun x hx => ?_, rfl⟩
      · rw [hnil]
        exact ⟨rfl, rfl⟩
      · exact Heap.setData_other fun he => hx (he ▸ List.mem_cons_self)

end Parser

/-! ## The lists of all tracepoints -/

/-- The lists stand for the trees, with different nodes. -/
structure Reps (tree : Nat → Action) (s : Lists) (fp : Nat → List Ptr) : Prop where
  rep : ∀ i, Rep s.heap.node (s.actions i) (tree i) (fp i)
  nodup : ∀ i, (fp i).Nodup
  disjoint : ∀ i j, i ≠ j → ∀ x ∈ fp i, x ∉ fp j
  length : ∀ i, (fp i).length ≤ s.heap.mallocs
  outside : ∀ i, maxTracepoints ≤ i → s.actions i = 0

namespace Reps

variable {malloc : (Ptr → Option ActionNode) → Option Ptr} {tree : Nat → Action} {s s' : Lists}
  {fp : Nat → List Ptr} {i : Nat}

theorem update (hs : Reps tree s fp) (hi : i < maxTracepoints) {b : Action} {fb : List Ptr}
    (hrep : Rep s'.heap.node (s'.actions i) b fb) (hnd : fb.Nodup)
    (hlen : fb.length ≤ s'.heap.mallocs) (hmal : s.heap.mallocs ≤ s'.heap.mallocs)
    (hact : ∀ j, j ≠ i → s'.actions j = s.actions j)
    (hkeep : ∀ j, j ≠ i → ∀ x ∈ fp j, s'.heap.node x = s.heap.node x)
    (hdis : ∀ j, j ≠ i → ∀ x ∈ fb, x ∉ fp j) :
    Reps (Function.update tree i b) s' (Function.update fp i fb) where
  rep j := by
    by_cases hj : j = i
    · subst hj
      rwa [Function.update_self, Function.update_self]
    · rw [Function.update_of_ne hj, Function.update_of_ne hj, hact j hj]
      exact (hs.rep j).congr (hkeep j hj)
  nodup j := by
    by_cases hj : j = i
    · subst hj
      rwa [Function.update_self]
    · rw [Function.update_of_ne hj]
      exact hs.nodup j
  disjoint j k hjk x hx hk := by
    by_cases hj : j = i
    · subst hj
      rw [Function.update_self] at hx
      rw [Function.update_of_ne hjk.symm] at hk
      exact hdis k hjk.symm x hx hk
    · rw [Function.update_of_ne hj] at hx
      by_cases hki : k = i
      · subst hki
        rw [Function.update_self] at hk
        exact hdis j hj x hk hx
      · rw [Function.update_of_ne hki] at hk
        exact hs.disjoint j k hjk x hx hk
  length j := by
    by_cases hj : j = i
    · subst hj
      rwa [Function.update_self]
    · rw [Function.update_of_ne hj]
      exact (hs.length j).trans hmal
  outside j hj := (hact j fun he => Nat.not_lt.mpr hj (he ▸ hi)).trans (hs.outside j hj)

theorem decode (hm : MallocFresh malloc) (hs : Reps tree s fp) (hi : i < maxTracepoints)
    (step : Addr) (q : Payload) :
    Ends (fun s' => ∃ fp', Reps (Function.update tree i ((tree i).append (q.action step))) s' fp')
      (Lists.decodeDPPlayload malloc i step none q s) := by
  by_cases hq : Payload.IsAction q
  · rw [decodeDPPlayload_of_action hq]
    refine (prepareAction_top hm (hs.rep i) (hs.nodup i) (hs.length i)).bind fun r hr => ?_
    obtain ⟨hp, hfree, hself, hmal, hact, hkeep, hfresh, hback⟩ := hr
    refine (fillAction_spec hm hq hp hself).mono fun s' hs' => ?_
    obtain ⟨fb, hrep, hnd, hnew, hact', hkeep', hmal'⟩ := hs'
    -- the nodes of the payload are in no list
    have hout : ∀ j, ∀ x ∈ fp j, x ∉ r.1 :: fb := by
      intro j x hxj hx
      rcases List.mem_cons.mp hx with rfl | hx
      · exact (hs.rep j).not_mem_of_none hfree hxj
      · exact (hs.rep j).not_mem_of_none (hfresh x (hnew x hx)) hxj
    have hs'i := hback s'.heap.node _ _ (fun x hx => hkeep' x (hout i x hx)) hrep
    rw [← hact'] at hs'i
    refine ⟨_, hs.update hi hs'i ?_ ?_ ?_ (fun j hj => ?_) (fun j hj x hx => ?_)
      fun j hj x hx hxj => ?_⟩
    · refine List.nodup_append.mpr ⟨hs.nodup i, hnd, ?_⟩
      rintro x hx y hy rfl
      exact hout i x hx hy
    · have := hs.length i
      rw [List.length_append, List.length_cons, hmal', hmal]
      omega
    · rw [hmal', hmal]
      omega
    · rw [hact', hact j hj]
    · have hxr : x ≠ r.1 := fun he => hout j x hx (he ▸ List.mem_cons_self)
      rw [hkeep' x (hout j x hx), hkeep x (hs.disjoint j i hj x hx) hxr]
    · rcases List.mem_append.mp hx with hx | hx
      · exact hs.disjoint i j (Ne.symm hj) x hx hxj
      · exact hout j x hxj hx
  · obtain ⟨hdec, hnil⟩ := decodeDPPlayload_of_not malloc s i step none hq
    rw [hdec, hnil, Action.append_nil, Function.update_eq_self]
    exact ⟨fp, hs⟩

theorem walk (hs : Reps tree s fp) (hi : i < maxTracepoints) (t : Target) {p : Ptr} {a : Action}
    {status : TracepointStatus} (pre : List Ptr) {fq : List Ptr} {f : Action → Action}
    (hp : Rep s.heap.node p a fq) (hfp : fp i = pre ++ fq)
    (hback : ∀ node' new, (∀ x ∈ pre, node' x = s.heap.node x) →
      Rep node' p new fq → Rep node' (s.actions i) (f new) (fp i)) :
    (∃ r, doActionList t s.heap.fuel s.heap p status = some r ∧ r.visited.Nodup) ∧
      ∃ s', s.walkFrom t p status = some s' ∧ Reps (Function.update tree i
        (f (Gdb.doActionList t a status).2.1)) s' (Function.update fp i (fp i)) := by
  have hnd := hs.nodup i
  rw [hfp] at hnd
  obtain ⟨-, hndq, hdis⟩ := List.nodup_append.mp hnd
  have hlen : fq.length < s.heap.fuel := by
    have := hs.length i
    rw [hfp, List.length_append] at this
    unfold Heap.fuel
    omega
  obtain ⟨r, hrun, hsub, -, -, hrep, hkeep, hmal⟩ :=
    doActionList_spec t status hp hndq hlen
  have hfq : ∀ x ∈ fq, x ∈ fp i := fun x hx => hfp ▸ List.mem_append_right pre hx
  refine ⟨⟨r, hrun, hndq.sublist hsub⟩, _, by rw [Lists.walkFrom, hrun]; rfl, ?_⟩
  refine hs.update hi (hback _ _ (fun x hx => hkeep x fun hx' => hdis x hx x hx' rfl) hrep)
    (hs.nodup i) ((hs.length i).trans_eq hmal.symm) hmal.ge (fun j _ => rfl)
    (fun j hj x hx => hkeep x fun hx' => hs.disjoint j i hj x hx (hfq x hx'))
    fun j hj x hx => hs.disjoint i j (Ne.symm hj) x hx

theorem walk_all (hs : Reps tree s fp) (hi : i < maxTracepoints) (t : Target)
    (status : TracepointStatus) :
    (∃ r, doActionList t s.heap.fuel s.heap (s.actions i) status = some r ∧ r.visited.Nodup) ∧
      ∃ s', s.walkFrom t (s.actions i) status = some s' ∧ Reps (Function.update tree i
        (Gdb.doActionList t (tree i) status).2.1) s' (Function.update fp i (fp i)) :=
  hs.walk hi t [] (f := id) (hs.rep i) rfl fun _ _ _ hr => hr

/-- The search for the first `ACTION_WHILE`, and the walk from there on. -/
theorem walk_while (hs : Reps tree s fp) (hi : i < maxTracepoints) (t : Target)
    (status : TracepointStatus) (hne : tree i ≠ .nil) :
    match (tree i).fromWhile with
    | none => findWhile s.heap.fuel s.heap (s.actions i) = some none
    | some a => ∃ p, findWhile s.heap.fuel s.heap (s.actions i) = some (some p) ∧
        (∃ r, doActionList t s.heap.fuel s.heap p status = some r ∧ r.visited.Nodup) ∧
        ∃ s', s.walkFrom t p status = some s' ∧ Reps (Function.update tree i
          ((tree i).setFromWhile (Gdb.doActionList t a status).2.1)) s'
            (Function.update fp i (fp i)) := by
  have h0 : s.actions i ≠ 0 := mt (hs.rep i).eq_zero_iff.mp hne
  have hfind := findWhile_spec s.heap.fuel (hs.rep i) h0 (hs.nodup i)
    (Nat.le_succ_of_le (hs.length i))
  cases hw : (tree i).fromWhile with
  | none => rw [hw] at hfind; exact hfind
  | some a =>
    rw [hw] at hfind
    obtain ⟨p, pre, fq, hp, hfp, hrep, hback⟩ := hfind
    exact ⟨p, hp, hs.walk hi t pre hrep hfp hback⟩

theorem clearAt (hs : Reps tree s fp) (hi : i < maxTracepoints) :
    ∃ s', Lists.clearAt (some s) i = some s' ∧
      Reps (Function.update tree i .nil) s' (Function.update fp i []) := by
  by_cases h0 : s.actions i = 0
  · refine ⟨⟨Function.update s.actions i 0, s.heap⟩, ?_, hs.update hi
      ⟨Function.update_self _ _ _, rfl⟩ List.nodup_nil (Nat.zero_le _) (Nat.le_refl _)
      (fun j hj => Function.update_of_ne hj _ _) (fun _ _ _ _ => rfl)
      fun _ _ x hx => absurd hx List.not_mem_nil⟩
    simp only [Lists.clearAt, Option.bind_eq_bind, Option.bind_some, if_pos h0, Option.pure_def]
  · obtain ⟨h, hrun, hgone, hkeep, hmal⟩ := deleteAction_spec s.heap.fuel (hs.rep i) h0
      (hs.nodup i) (Nat.le_succ_of_le (hs.length i))
    refine ⟨⟨Function.update s.actions i 0, h⟩, ?_, hs.update hi
      ⟨Function.update_self _ _ _, rfl⟩ List.nodup_nil (Nat.zero_le _) hmal.ge
      (fun j hj => Function.update_of_ne hj _ _)
      (fun j hj x hx => hkeep x (hs.disjoint j i hj x hx))
      fun _ _ x hx => absurd hx List.not_mem_nil⟩
    simp only [Lists.clearAt, Option.bind_eq_bind, Option.bind_some, if_neg h0, hrun,
      Option.pure_def]

theorem clear (hs : Reps tree s fp) {n : Nat} (hn : n ≤ maxTracepoints) :
    ∃ s', (List.range n).foldl Lists.clearAt (some s) = some s' ∧
      Reps (fun i => if i < n then .nil else tree i) s' (fun i => if i < n then [] else fp i) := by
  induction n with
  | zero => exact ⟨s, rfl, by simpa using hs⟩
  | succ n ih =>
    obtain ⟨s1, hrun, hs1⟩ := ih (Nat.le_of_succ_le hn)
    obtain ⟨s2, hrun2, hs2⟩ := hs1.clearAt hn
    refine ⟨s2, ?_, ?_⟩
    · rw [List.range_succ, List.foldl_append, hrun]
      exact hrun2
    · convert hs2 using 1 <;>
      · funext j
        by_cases hj : j = n
        · subst hj
          rw [Function.update_self, if_pos (Nat.lt_succ_self j)]
        · have hlt : j < n + 1 ↔ j < n := by omega
          rw [Function.update_of_ne hj]
          simp only [hlt]

/-- After `clear_tracepoints` every list is empty. -/
theorem clearTracepoints (hs : Reps tree s fp) :
    ∃ s', s.clearTracepoints = some s' ∧ ∃ fp', Reps (fun _ => .nil) s' fp' := by
  obtain ⟨s', hrun, hs'⟩ := hs.clear (Nat.le_refl maxTracepoints)
  refine ⟨s', hrun, fun i => if i < maxTracepoints then [] else fp i, ?_⟩
  convert hs' using 1
  funext i
  by_cases hi : i < maxTracepoints
  · rw [if_pos hi]
  · have h0 := hs.outside i (Nat.le_of_not_lt hi)
    rw [if_neg hi, (hs.rep i).eq_zero_iff.mp h0]

end Reps

/-! ## Runs -/

theorem doActionList_ne_nil {t : Target} {a : Action} {status : TracepointStatus}
    (ha : a ≠ .nil) : (Gdb.doActionList t a status).2.1 ≠ .nil := by
  cases a with
  | nil => exact absurd rfl ha
  | collect | while_ => intro h; cases h

theorem fromWhile_ne_nil {a b : Action} (h : a.fromWhile = some b) : b ≠ .nil := by
  induction a with
  | nil => cases h
  | collect ca sibling ih => exact ih h
  | while_ c l child sibling =>
    obtain rfl := Option.some.inj h
    intro he
    cases he

theorem setFromWhile_ne_nil {a new : Action} (ha : a ≠ .nil) (hnew : new ≠ .nil) :
    a.setFromWhile new ≠ .nil := by
  cases a with
  | nil => exact absurd rfl ha
  | collect => intro h; cases h
  | while_ => exact hnew

/-- The trees of the table. -/
def trees (ice : Ice) (i : Nat) : Action := (ice.tps i).actions

theorem trees_update (ice : Ice) (tps : Nat → Tracepoint) (i : Nat) (tp : Tracepoint)
    (h : ice.tps = Function.update tps i tp) :
    trees ice = Function.update (fun j => (tps j).actions) i tp.actions := by
  funext j
  rw [trees, h]
  by_cases hj : j = i
  · rw [hj, Function.update_self, Function.update_self]
  · rw [Function.update_of_ne hj, Function.update_of_ne hj]

/-- A tracepoint that is stepping has actions. -/
def SteppingHasActions (ice : Ice) (i : Nat) : Prop :=
  (ice.tps i).status = .stepping → trees ice i ≠ .nil

namespace HeapIce

/-- The lists are those of the table's trees, and the table keeps to its array. -/
structure Inv (s : HeapIce) : Prop where
  reps : ∃ fp, Reps (trees s.ice.toIce) s.lists fp
  numTps : s.ice.numTps ≤ maxTracepoints
  stepping : ∀ i < s.ice.numTps, SteppingHasActions s.ice.toIce i

variable {malloc : (Ptr → Option ActionNode) → Option Ptr} {s : HeapIce}

/-- Each call of `handle_tracepoint` walks a list as its tree is walked. -/
theorem handleTracepoint_spec {ice : Ice} {l : Lists} {fp : Nat → List Ptr} {i : Nat}
    (hr : Reps (trees ice) l fp) (hi : i < maxTracepoints) (hst : SteppingHasActions ice i)
    (t : Target) :
    ∃ l', l.handleTracepoint t (ice.tps i) i = some l' ∧
      (∃ fp', Reps (trees (ice.handleTracepoint t i)) l' fp') ∧
      ∀ j, SteppingHasActions ice j → SteppingHasActions (ice.handleTracepoint t i) j := by
  have hupd : ∀ (ice' : Ice) (tp : Tracepoint), ice'.tps = Function.update ice.tps i tp →
      (tp.status = .stepping → tp.actions ≠ .nil) → ∀ j, SteppingHasActions ice j →
        SteppingHasActions ice' j := by
    intro ice' tp h htp j hj
    rw [SteppingHasActions, trees_update ice' ice.tps i tp h, h]
    by_cases hji : j = i
    · rw [hji, Function.update_self, Function.update_self]
      exact htp
    · rw [Function.update_of_ne hji, Function.update_of_ne hji]
      exact hj
  unfold Lists.handleTracepoint
  cases hs : (ice.tps i).status with
  | disabled =>
    have hice : ice.handleTracepoint t i = ice := by simp only [Ice.handleTracepoint, hs]
    rw [hice]
    exact ⟨l, rfl, ⟨fp, hr⟩, fun _ h => h⟩
  | stepping =>
    have hne := hst hs
    have hw := hr.walk_while hi t .stepping hne
    cases hf : (ice.tps i).actions.fromWhile with
    | none =>
      have hice : ice.handleTracepoint t i = ice := by simp only [Ice.handleTracepoint, hs, hf]
      rw [trees, hf] at hw
      simp only [hw, hice]
      exact ⟨l, rfl, ⟨fp, hr⟩, fun _ h => h⟩
    | some a =>
      have htps : (ice.handleTracepoint t i).tps = Function.update ice.tps i
          { ice.tps i with
            actions := (ice.tps i).actions.setFromWhile (Gdb.doActionList t a .stepping).2.1
            status := (Gdb.doActionList t a .stepping).2.2 } := by
        simp only [Ice.handleTracepoint, hs, hf]
      rw [trees, hf] at hw
      obtain ⟨p, hp, -, l', hl', hr'⟩ := hw
      simp only [hp]
      refine ⟨l', hl', ⟨Function.update fp i (fp i), ?_⟩, hupd _ _ htps fun _ => ?_⟩
      · rw [trees_update _ _ _ _ htps]
        exact hr'
      · exact setFromWhile_ne_nil hne (doActionList_ne_nil (fromWhile_ne_nil hf))
  | enabled =>
    by_cases hp : (ice.tps i).passCount ≠ 0 ∧ (ice.tps i).remainingPass = 0
    · have hice : ice.handleTracepoint t i = ice := by
        simp only [Ice.handleTracepoint, hs, if_pos hp]
      simp only [if_pos hp, hice]
      exact ⟨l, rfl, ⟨fp, hr⟩, fun _ h => h⟩
    · obtain ⟨tp, htps, hact, hstat⟩ : ∃ tp : Tracepoint,
          (ice.handleTracepoint t i).tps = Function.update ice.tps i tp ∧
          tp.actions = (Gdb.doActionList t (trees ice i) .enabled).2.1 ∧
          tp.status = (Gdb.doActionList t (trees ice i) .enabled).2.2 := by
        simp only [Ice.handleTracepoint, hs, if_neg hp]
        exact ⟨_, rfl, rfl, rfl⟩
      simp only [if_neg hp]
      obtain ⟨-, l', hl', hr'⟩ := hr.walk_all hi t .enabled
      refine ⟨l', hl', ⟨Function.update fp i (fp i), ?_⟩, hupd _ tp htps fun he => ?_⟩
      · rw [trees_update _ _ _ _ htps, hact]
        exact hr'
      · rw [hact]
        refine doActionList_ne_nil fun hnil => ?_
        rw [hstat, hnil] at he
        cases he

theorem Inv.handleAt (hs : s.Inv) (t : Target) (addr : Addr) {i : Nat} (hi : i < s.ice.numTps) :
    ∃ s', HeapIce.handleAt t addr (some s) i = some s' ∧ s'.Inv ∧
      s'.ice.numTps = s.ice.numTps := by
  obtain ⟨⟨fp, hr⟩, hn, hst⟩ := hs
  by_cases hh : s.ice.hits i addr
  · obtain ⟨l', hl', hr', hst'⟩ := handleTracepoint_spec hr (Nat.lt_of_lt_of_le hi hn)
      (hst i hi) t
    refine ⟨⟨{ s.ice with toIce := s.ice.toIce.handleTracepoint t i }, l'⟩, ?_,
      ⟨hr', hn, fun j hj => hst' j (hst j hj)⟩, rfl⟩
    simp only [HeapIce.handleAt, Option.bind_eq_bind, Option.bind_some, if_pos hh, hl',
      Option.pure_def]
  · refine ⟨s, ?_, ⟨⟨fp, hr⟩, hn, hst⟩, rfl⟩
    simp only [HeapIce.handleAt, Option.bind_eq_bind, Option.bind_some, if_neg hh,
      Option.pure_def]

theorem Inv.hook (hs : s.Inv) (t : Target) (addr : Addr) :
    ∃ s', s.hook t addr = some s' ∧ s'.Inv := by
  unfold HeapIce.hook
  split
  · have key : ∀ n ≤ s.ice.numTps, ∃ s', (List.range n).foldl (HeapIce.handleAt t addr) (some s) =
        some s' ∧ s'.Inv ∧ s'.ice.numTps = s.ice.numTps := by
      intro n hn
      induction n with
      | zero => exact ⟨s, rfl, hs, rfl⟩
      | succ n ih =>
        obtain ⟨s1, hrun, hs1, hn1⟩ := ih (Nat.le_of_succ_le hn)
        obtain ⟨s2, hrun2, hs2, hn2⟩ := hs1.handleAt t addr (i := n) (hn1 ▸ hn)
        refine ⟨s2, ?_, hs2, hn2.trans hn1⟩
        rw [List.range_succ, List.foldl_append, hrun]
        exact hrun2
    obtain ⟨s', hrun, hs', -⟩ := key s.ice.numTps (Nat.le_refl _)
    exact ⟨s', hrun, hs'⟩
  · exact ⟨s, rfl, hs⟩

theorem applyPayload_spec (hm : MallocFresh malloc) {ice : TraceIce} {l : Lists}
    (hs : (⟨ice, l⟩ : HeapIce).Inv) {i : Nat} (hi : i < ice.numTps) (q : Payload) :
    Ends Inv (l.decodeDPPlayload malloc i (ice.remainingStep i) none q >>= fun l' =>
      (.ok ⟨ice.applyPayload i q, l'⟩ : Except Stop HeapIce)) := by
  obtain ⟨⟨fp, hr⟩, hn, hst⟩ := hs
  have happ : ∃ tp : Tracepoint,
      (ice.applyPayload i q).tps = Function.update ice.tps i tp ∧
      tp.actions = (ice.tps i).actions.append (q.action (ice.remainingStep i)) ∧
      (tp.status = .stepping → (ice.tps i).status = .stepping) := by
    unfold TraceIce.applyPayload
    cases hset : q.setting with
    | none => exact ⟨_, rfl, rfl, id⟩
    | some r =>
      refine ⟨_, rfl, rfl, fun h => ?_⟩
      have hne : r.1 ≠ .stepping := by
        clear h
        induction q with
        | enable | disable => cases hset; intro h; cases h
        | whileStepping q ih => exact ih hset
        | registers | memory | nothing => cases hset
      exact absurd h hne
  obtain ⟨tp, htps, hact, hstat⟩ := happ
  refine (hr.decode hm (Nat.lt_of_lt_of_le hi hn) (ice.remainingStep i) q).bind fun l' hl' => ?_
  obtain ⟨fp', hr'⟩ := hl'
  have htree : trees (ice.applyPayload i q).toIce = Function.update (trees ice.toIce) i
      ((trees ice.toIce i).append (q.action (ice.remainingStep i))) := by
    rw [trees_update _ _ _ _ htps, hact]
    rfl
  refine ⟨⟨fp', ?_⟩, ?_, fun j hj => ?_⟩
  · rw [← htree] at hr'
    exact hr'
  · exact (TraceIce.numTps_applyPayload i q).trans_le hn
  · show SteppingHasActions (ice.applyPayload i q).toIce j
    rw [SteppingHasActions, htree, htps]
    have hj' : j < ice.numTps := (TraceIce.numTps_applyPayload i q) ▸ hj
    by_cases hji : j = i
    · rw [hji, Function.update_self, Function.update_self]
      intro he hnil
      have hne : trees ice.toIce i ≠ .nil := hst i hi (hstat he)
      cases ha : trees ice.toIce i with
      | nil => exact hne ha
      | collect | while_ => rw [ha] at hnil; cases hnil
    · rw [Function.update_of_ne hji, Function.update_of_ne hji]
      exact hst j hj'

theorem Inv.define (hm : MallocFresh malloc) (hs : s.Inv) (n a : Addr) (q : Payload) :
    Ends Inv (s.define malloc n a q) := by
  unfold HeapIce.define
  cases hf : s.ice.findTpId n a with
  | some i => exact applyPayload_spec hm hs (TraceIce.findTpId_lt hf) q
  | none =>
    by_cases hroom : s.ice.numTps < maxTracepoints
    · obtain ⟨ice, tp, hadd, hn, htps, hact, hstat⟩ : ∃ ice : TraceIce, ∃ tp : Tracepoint,
          s.ice.addTracepoint n a = (some s.ice.numTps, ice) ∧ ice.numTps = s.ice.numTps + 1 ∧
          ice.tps = Function.update s.ice.tps s.ice.numTps tp ∧
          tp.actions = trees s.ice.toIce s.ice.numTps ∧ tp.status = .disabled := by
        rw [TraceIce.addTracepoint, if_pos hroom]
        exact ⟨_, _, rfl, rfl, rfl, rfl, rfl⟩
      have htree : trees ice.toIce = trees s.ice.toIce := by
        rw [trees_update _ _ _ _ htps, hact]
        exact Function.update_eq_self _ _
      simp only [hadd]
      refine applyPayload_spec hm ⟨?_, hn.trans_le hroom, fun j hj he => ?_⟩
        (hn.symm ▸ Nat.lt_succ_self _) q
      · show ∃ fp, Reps (trees ice.toIce) s.lists fp
        rw [htree]
        exact hs.reps
      · show trees ice.toIce j ≠ .nil
        have he' : (ice.tps j).status = .stepping := he
        rw [htree]
        by_cases hjn : j = s.ice.numTps
        · rw [htps, hjn, Function.update_self, hstat] at he'
          cases he'
        · have hj' : j < s.ice.numTps + 1 := hn ▸ hj
          rw [htps, Function.update_of_ne hjn] at he'
          exact hs.stepping j (Nat.lt_of_le_of_ne (Nat.lt_succ_iff.mp hj') hjn) he'
    · simp only [TraceIce.addTracepoint_of_full (Nat.le_of_not_lt hroom)]
      exact hs

/-- Looking at frames changes no tracepoint. -/
theorem tps_frame (ice : TraceIce) (f : FrameRequest) : (ice.frame f).tps = ice.tps := by
  cases f with
  | pc | range | outside => rfl
  | tdp n =>
    show (ice.toIce.startTraceFocusing.selectFrameBufferByTpn n).2.tps = _
    unfold Ice.selectFrameBufferByTpn
    split
    · rfl
    · split <;> rfl
  | number n =>
    rw [TraceIce.frame]
    split
    · rfl
    · show (ice.toIce.startTraceFocusing.selectFrameBufferByFn n).2.tps = _
      unfold Ice.selectFrameBufferByFn
      split
      · rfl
      · split <;> rfl

theorem Inv.step (hm : MallocFresh malloc) (hs : s.Inv) (op : TableOp) :
    Ends Inv (s.step malloc op) := by
  cases op with
  | execute t addr =>
    obtain ⟨s', hrun, hs'⟩ := hs.hook t addr
    exact Ends.of_some ⟨s', hrun, hs'⟩
  | packet q =>
    cases q with
    | init =>
      obtain ⟨fp, hr⟩ := hs.reps
      obtain ⟨l', hrun, hr'⟩ := hr.clearTracepoints
      exact Ends.of_some ⟨⟨s.ice.init, l'⟩, by rw [hrun]; rfl, hr', Nat.zero_le _,
        fun i hi => absurd hi (Nat.not_lt_zero i)⟩
    | define n a p => exact hs.define hm n a p
    | frame f =>
      have htree : trees (s.ice.frame f).toIce = trees s.ice.toIce := by
        funext i
        rw [trees, tps_frame]
        rfl
      refine ⟨?_, (TraceIce.numTps_frame f).trans_le hs.numTps, fun i hi => ?_⟩
      · show ∃ fp, Reps (trees (s.ice.frame f).toIce) s.lists fp
        rw [htree]
        exact hs.reps
      · show SteppingHasActions (s.ice.frame f).toIce i
        rw [SteppingHasActions, htree, tps_frame]
        exact hs.stepping i ((TraceIce.numTps_frame f) ▸ hi)
    | start | stop => exact ⟨hs.reps, hs.numTps, hs.stepping⟩
    | readOnly | unknown => exact hs

theorem Inv.run (hm : MallocFresh malloc) (hs : s.Inv) (ops : List TableOp) :
    Ends Inv (run malloc ops s) := by
  induction ops generalizing s with
  | nil => exact hs
  | cons op ops ih => exact (hs.step hm op).bind fun s' hs' => ih hs'

theorem inv_boot (ice : Ice) (tpAddress remainingStep : Nat → Addr) :
    (boot ice tpAddress remainingStep).Inv where
  reps := ⟨fun _ => [], ⟨fun _ => ⟨rfl, rfl⟩, fun _ => List.nodup_nil,
    fun _ _ _ _ hx => absurd hx List.not_mem_nil, fun _ => Nat.zero_le _, fun _ _ => rfl⟩⟩
  numTps := Nat.zero_le _
  stepping i hi := absurd hi (Nat.not_lt_zero i)

/-- `do_action_list` ends on the list of every tracepoint, and from its first `ACTION_WHILE` on,
which the search finds if there is one; it meets no action twice. -/
def WalksEnd (s : HeapIce) : Prop :=
  ∀ (t : Target) (tpId : Nat) (status : TracepointStatus), tpId < maxTracepoints →
    (∃ r, doActionList t s.lists.heap.fuel s.lists.heap (s.lists.actions tpId) status = some r ∧
      r.visited.Nodup) ∧
    (s.lists.actions tpId ≠ 0 → ∃ found,
      findWhile s.lists.heap.fuel s.lists.heap (s.lists.actions tpId) = some found ∧
      ∀ p, found = some p → ∃ r,
        doActionList t s.lists.heap.fuel s.lists.heap p status = some r ∧ r.visited.Nodup)

/-- In every run of packets and instructions `do_action_list` ends wherever it can be called, and
meets no action twice; the run itself stops only where `malloc` has no memory. -/
theorem action_walks_end (hm : MallocFresh malloc) (ice : Ice)
    (tpAddress remainingStep : Nat → Addr) (ops : List TableOp) :
    Ends WalksEnd (run malloc ops (boot ice tpAddress remainingStep)) := by
  refine ((inv_boot ice tpAddress remainingStep).run hm ops).mono fun s hs => ?_
  obtain ⟨fp, hr⟩ := hs.reps
  intro t tpId status hi
  refine ⟨(hr.walk_all hi t status).1, fun h0 => ?_⟩
  have hw := hr.walk_while hi t status (mt (hr.rep tpId).eq_zero_iff.mpr h0)
  cases hf : (trees s.ice.toIce tpId).fromWhile with
  | none =>
    rw [hf] at hw
    exact ⟨none, hw, fun p hp => nomatch hp⟩
  | some a =>
    rw [hf] at hw
    obtain ⟨q, hq, hwalk, -⟩ := hw
    refine ⟨some q, hq, fun p hp => ?_⟩
    obtain rfl := Option.some.inj hp
    exact hwalk

/-- A heap with room for two nodes. -/
def twoNodes (node : Ptr → Option ActionNode) : Option Ptr :=
  match node 8, node 16 with
  | none, _ => some 8
  | some _, none => some 16
  | some _, some _ => none

theorem twoNodes_fresh : MallocFresh twoNodes := by
  intro node p hp
  unfold twoNodes at hp
  split at hp
  · rename_i h
    obtain rfl := Option.some.inj hp
    exact ⟨by decide, h⟩
  · rename_i h
    obtain rfl := Option.some.inj hp
    exact ⟨by decide, h⟩
  · cases hp

/-- A tracepoint that collects registers while it steps, and is hit. -/
def whileSteppingOps : List TableOp :=
  [.packet (.define 1 0x8000 (.enable 2 0)),
    .packet (.define 1 0x8000 (.whileStepping (.registers 1))), .packet .start,
    .execute ⟨fun _ => some 0, [], fun _ => 0, false⟩ 0x8000]

/-- The state the program starts with. -/
def noActions : HeapIce :=
  boot (Traced.start fun _ => ⟨0, .nil, .disabled, 0, 0⟩).ice (fun _ => 0) fun _ => 0

theorem action_walks_end_stepping :
    Ends (fun s => s.lists.actions 0 = 8 ∧ s.lists.heap.mallocs = 2)
      (run twoNodes whileSteppingOps noActions) ∧
    Ends WalksEnd (run twoNodes whileSteppingOps noActions) :=
  ⟨⟨rfl, rfl⟩, action_walks_end twoNodes_fresh _ _ _ whileSteppingOps⟩

end HeapIce

end SkyEye.Gdb.ActionHeap
