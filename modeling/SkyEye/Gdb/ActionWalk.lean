import SkyEye.Gdb.ActionHeap
import Mathlib.Data.List.Nodup

/-!
# Lists that stand for trees

A pointer stands for a tree if the nodes below it are the tree's, each of them once. The walks
of `gdb_tracepoint.c` over such nodes end, and do on them what the functions on trees do.
-/

namespace SkyEye.Gdb.ActionHeap

/-- The nodes at `fp`, in the order of a walk, are the tree `a` with root `p`. -/
def Rep (node : Ptr → Option ActionNode) : Ptr → Action → List Ptr → Prop
  | p, .nil, fp => p = 0 ∧ fp = []
  | p, .collect ca sibling, fp => ∃ q fs, p ≠ 0 ∧ node p = some ⟨.collect ca, q, 0⟩ ∧
      Rep node q sibling fs ∧ fp = p :: fs
  | p, .while_ stepCount left child sibling, fp => ∃ q r fc fs, p ≠ 0 ∧
      node p = some ⟨.while_ stepCount left, q, r⟩ ∧ Rep node r child fc ∧
      Rep node q sibling fs ∧ fp = p :: (fc ++ fs)

variable {node node' : Ptr → Option ActionNode} {h : Heap} {p : Ptr} {a : Action} {fp : List Ptr}

theorem Rep.congr (hag : ∀ x ∈ fp, node' x = node x) (hr : Rep node p a fp) :
    Rep node' p a fp := by
  induction a generalizing p fp with
  | nil => exact hr
  | collect ca sibling ih =>
    obtain ⟨q, fs, hp, hn, hs, rfl⟩ := hr
    refine ⟨q, fs, hp, (hag p List.mem_cons_self).trans hn, ih (fun x hx => ?_) hs, rfl⟩
    exact hag x (List.mem_cons_of_mem p hx)
  | while_ c l child sibling ihc ihs =>
    obtain ⟨q, r, fc, fs, hp, hn, hc, hs, rfl⟩ := hr
    refine ⟨q, r, fc, fs, hp, (hag p List.mem_cons_self).trans hn, ihc (fun x hx => ?_) hc,
      ihs (fun x hx => ?_) hs, rfl⟩
    · exact hag x (List.mem_cons_of_mem p (List.mem_append_left fs hx))
    · exact hag x (List.mem_cons_of_mem p (List.mem_append_right fc hx))

/-- What is free is not in a tree. -/
theorem Rep.not_mem_of_none (hr : Rep node p a fp) {x : Ptr} (hx : node x = none) : x ∉ fp := by
  induction a generalizing p fp with
  | nil => rw [hr.2]; exact List.not_mem_nil
  | collect ca sibling ih =>
    obtain ⟨q, fs, -, hn, hs, rfl⟩ := hr
    rintro hm
    rcases List.mem_cons.mp hm with rfl | hm
    · rw [hn] at hx; cases hx
    · exact ih hs hm
  | while_ c l child sibling ihc ihs =>
    obtain ⟨q, r, fc, fs, -, hn, hc, hs, rfl⟩ := hr
    rintro hm
    rcases List.mem_cons.mp hm with rfl | hm
    · rw [hn] at hx; cases hx
    · exact (List.mem_append.mp hm).elim (ihc hc) (ihs hs)

theorem Rep.eq_zero_iff (hr : Rep node p a fp) : p = 0 ↔ a = .nil := by
  cases a with
  | nil => exact iff_of_true hr.1 rfl
  | collect ca sibling =>
    obtain ⟨q, fs, hp, -⟩ := hr
    exact iff_of_false hp (by intro h; cases h)
  | while_ c l child sibling =>
    obtain ⟨q, r, fc, fs, hp, -⟩ := hr
    exact iff_of_false hp (by intro h; cases h)

theorem rep_null (hr : Rep node 0 a fp) : a = .nil ∧ fp = [] := by
  obtain rfl := hr.eq_zero_iff.mp rfl
  exact ⟨rfl, hr.2⟩

/-! ## Changes of the heap -/

theorem Heap.modify_other {x : Ptr} {f : ActionNode → ActionNode} (hx : x ≠ p) :
    (h.modify p f).node x = h.node x := Function.update_of_ne hx _ _

theorem Heap.modify_self {n : ActionNode} {f : ActionNode → ActionNode}
    (hn : h.node p = some n) : (h.modify p f).node p = some (f n) := by
  show Function.update _ _ _ p = _
  rw [Function.update_self, hn]
  rfl

theorem Heap.setData_other {x : Ptr} {d : ActionData} (hx : x ≠ p) :
    (h.setData p d).node x = h.node x := Heap.modify_other hx

theorem Heap.setData_self {n : ActionNode} {d : ActionData} (hn : h.node p = some n) :
    (h.setData p d).node p = some { n with data := d } := Heap.modify_self hn

theorem Heap.free_other {x : Ptr} (hx : x ≠ p) : (h.free p).node x = h.node x :=
  Function.update_of_ne hx _ _

theorem Heap.free_self : (h.free p).node p = none := Function.update_self _ _ _

/-! ## Appending -/

/-- The last sibling is found, and a tree linked behind it is appended. -/
theorem lastSibling_spec (fuel : Nat) (hr : Rep h.node p a fp) (hp : p ≠ 0)
    (hnd : fp.Nodup) (hf : fp.length ≤ fuel) :
    ∃ l n, lastSibling fuel h p = some l ∧ l ∈ fp ∧ h.node l = some n ∧
      ∀ node' q b fb, (∀ x ∈ fp, x ≠ l → node' x = h.node x) →
        node' l = some { n with sibling := q } → Rep node' q b fb →
        Rep node' p (a.append b) (fp ++ fb) := by
  induction a generalizing p fp fuel with
  | nil => exact absurd hr.1 hp
  | collect ca sibling ih =>
    obtain ⟨q, fs, -, hn, hs, rfl⟩ := hr
    obtain ⟨hpn, hnd⟩ := List.nodup_cons.mp hnd
    cases fuel with
    | zero => exact absurd hf (Nat.not_succ_le_zero _)
    | succ fuel =>
      by_cases hq : q = 0
      · subst hq
        obtain ⟨rfl, rfl⟩ := rep_null hs
        refine ⟨p, _, by simp only [lastSibling, hn, if_pos], List.mem_cons_self, hn, ?_⟩
        intro node' q b fb _ hself hb
        exact ⟨q, fb, hp, hself, hb, rfl⟩
      · obtain ⟨l, n, hl, hmem, hln, hk⟩ := ih fuel hs hq hnd (Nat.le_of_succ_le_succ hf)
        refine ⟨l, n, ?_, List.mem_cons_of_mem p hmem, hln, ?_⟩
        · simp only [lastSibling, hn, if_neg hq, hl]
        · intro node' q' b fb hag hself hb
          have hpl : p ≠ l := fun he => hpn (he ▸ hmem)
          refine ⟨q, fs ++ fb, hp, ?_, hk node' q' b fb (fun x hx => ?_) hself hb, rfl⟩
          · rw [hag p List.mem_cons_self hpl, hn]
          · exact hag x (List.mem_cons_of_mem p hx)
  | while_ c left child sibling ihc ih =>
    obtain ⟨q, r, fc, fs, -, hn, hc, hs, rfl⟩ := hr
    obtain ⟨hpn, hnd⟩ := List.nodup_cons.mp hnd
    obtain ⟨-, hnds, hdis⟩ := List.nodup_append.mp hnd
    cases fuel with
    | zero => exact absurd hf (Nat.not_succ_le_zero _)
    | succ fuel =>
      have hch : ∀ node' l, (∀ x ∈ p :: (fc ++ fs), x ≠ l → node' x = h.node x) →
          (∀ x ∈ fc, x ≠ l) → Rep node' r child fc := fun node' l hag hne =>
        hc.congr fun x hx =>
          hag x (List.mem_cons_of_mem p (List.mem_append_left fs hx)) (hne x hx)
      by_cases hq : q = 0
      · subst hq
        obtain ⟨rfl, rfl⟩ := rep_null hs
        refine ⟨p, _, by simp only [lastSibling, hn, if_pos], List.mem_cons_self, hn, ?_⟩
        intro node' q b fb hag hself hb
        refine ⟨q, r, fc, fb, hp, hself, hch node' p hag fun x hx he => ?_, hb, by simp⟩
        exact hpn (he ▸ List.mem_append_left [] hx)
      · have hlen : fs.length ≤ fuel := by
          rw [List.length_cons, List.length_append] at hf
          omega
        obtain ⟨l, n, hl, hmem, hln, hk⟩ := ih fuel hs hq hnds hlen
        have hml : l ∈ fc ++ fs := List.mem_append_right fc hmem
        refine ⟨l, n, ?_, List.mem_cons_of_mem p hml, hln, ?_⟩
        · simp only [lastSibling, hn, if_neg hq, hl]
        · intro node' q' b fb hag hself hb
          have hpl : p ≠ l := fun he => hpn (he ▸ hml)
          refine ⟨q, r, fc, fs ++ fb, hp, ?_, hch node' l hag fun x hx he => ?_,
            hk node' q' b fb (fun x hx => ?_) hself hb, by simp⟩
          · rw [hag p List.mem_cons_self hpl, hn]
          · exact hdis x hx l hmem he
          · exact hag x (List.mem_cons_of_mem p (List.mem_append_right fc hx))

/-! ## The walk of `do_action_list` -/

/-- The walk over the nodes of a tree ends, meets no node twice, and does what the function on
trees does; the other nodes stay. -/
theorem doActionList_spec (t : Target) {fuel : Nat} (status : TracepointStatus)
    (hr : Rep h.node p a fp) (hnd : fp.Nodup) (hf : fp.length < fuel) :
    ∃ r, doActionList t fuel h p status = some r ∧ r.visited.Sublist fp ∧
      r.records = (Gdb.doActionList t a status).1 ∧
      r.status = (Gdb.doActionList t a status).2.2 ∧
      Rep r.heap.node p (Gdb.doActionList t a status).2.1 fp ∧
      (∀ x ∉ fp, r.heap.node x = h.node x) ∧ r.heap.mallocs = h.mallocs := by
  induction a generalizing p fp fuel h status with
  | nil =>
    obtain ⟨rfl, rfl⟩ := hr
    cases fuel with
    | zero => exact absurd hf (Nat.not_lt_zero _)
    | succ fuel =>
      exact ⟨_, by rw [doActionList, if_pos rfl], List.Sublist.slnil, rfl, rfl, ⟨rfl, rfl⟩,
        fun x _ => rfl, rfl⟩
  | collect ca sibling ih =>
    obtain ⟨q, fs, hp, hn, hs, rfl⟩ := hr
    obtain ⟨hpn, hnd⟩ := List.nodup_cons.mp hnd
    cases fuel with
    | zero => exact absurd hf (Nat.not_lt_zero _)
    | succ fuel =>
      obtain ⟨r, hrun, hsub, hrec, hst, hrep, hkeep, hm⟩ :=
        ih status hs hnd (Nat.lt_of_succ_lt_succ hf)
      refine ⟨{ r with visited := p :: r.visited, records := doAction t ca :: r.records }, ?_,
        hsub.cons_cons p, ?_, hst, ?_,
        fun x hx => hkeep x fun hx' => hx (List.mem_cons_of_mem p hx'), hm⟩
      · rw [doActionList, if_neg hp, hn]
        simp only [hrun, Option.map_some]
      · exact congrArg (doAction t ca :: ·) hrec
      · exact ⟨q, fs, hp, (hkeep p hpn).trans hn, hrep, rfl⟩
  | while_ stepCount left child sibling ihc ihs =>
    obtain ⟨q, k, fc, fs, hp, hn, hc, hs, rfl⟩ := hr
    obtain ⟨hpn, hnd⟩ := List.nodup_cons.mp hnd
    obtain ⟨hndc, hnds, hdis⟩ := List.nodup_append.mp hnd
    have hpc : p ∉ fc := fun hx => hpn (List.mem_append_left fs hx)
    have hps : p ∉ fs := fun hx => hpn (List.mem_append_right fc hx)
    cases fuel with
    | zero => exact absurd hf (Nat.not_lt_zero _)
    | succ fuel =>
      have hlen : fc.length < fuel ∧ fs.length < fuel := by
        rw [List.length_cons, List.length_append] at hf
        omega
      -- the child, if there are steps left
      have hchild : ∃ c, (if left ≠ 0 then
            doActionList t fuel (h.setData p (.while_ stepCount (left - 1))) k .stepping
          else some ⟨[], [], h, status⟩) = some c ∧ c.visited.Sublist fc ∧
          c.records = (if left ≠ 0 then Gdb.doActionList t child .stepping
            else ([], child, status)).1 ∧
          c.status = (if left ≠ 0 then Gdb.doActionList t child .stepping
            else ([], child, status)).2.2 ∧
          Rep c.heap.node k (if left ≠ 0 then Gdb.doActionList t child .stepping
            else ([], child, status)).2.1 fc ∧
          c.heap.node p = some ⟨.while_ stepCount (if left ≠ 0 then left - 1 else 0), q, k⟩ ∧
          (∀ x ∉ fc, x ≠ p → c.heap.node x = h.node x) ∧ c.heap.mallocs = h.mallocs := by
        by_cases hl : left ≠ 0
        · simp only [if_pos hl]
          have hc' : Rep (h.setData p (.while_ stepCount (left - 1))).node k child fc :=
            hc.congr fun x hx => Heap.setData_other fun he => hpc (he ▸ hx)
          obtain ⟨c, hrun, hsub, hrec, hst, hrep, hkeep, hm⟩ :=
            ihc .stepping hc' hndc hlen.1
          refine ⟨c, hrun, hsub, hrec, hst, hrep, ?_, fun x hx hxp => ?_, hm⟩
          · rw [hkeep p hpc, Heap.setData_self hn]
          · rw [hkeep x hx, Heap.setData_other hxp]
        · simp only [if_neg hl]
          refine ⟨_, rfl, List.nil_sublist fc, rfl, rfl, hc, ?_, fun _ _ _ => rfl, rfl⟩
          rw [hn, Decidable.not_not.mp hl]
      obtain ⟨c, hcrun, hcsub, hcrec, hcst, hcrep, hcp, hckeep, hcm⟩ := hchild
      generalize hcT : (if left ≠ 0 then Gdb.doActionList t child .stepping
        else ([], child, status)) = cT at hcrec hcst hcrep
      generalize hlT : (if left ≠ 0 then left - 1 else 0) = left' at hcp
      -- the counts start again when the last step is done
      obtain ⟨h2, hh2, h2p, h2keep, h2m⟩ : ∃ h2, (if left' = 0 then
            c.heap.setData p (.while_ stepCount stepCount) else c.heap) = h2 ∧
          h2.node p = some ⟨.while_ stepCount (if left' = 0 then stepCount else left'), q, k⟩ ∧
          (∀ x, x ≠ p → h2.node x = c.heap.node x) ∧ h2.mallocs = c.heap.mallocs := by
        by_cases hl : left' = 0
        · simp only [if_pos hl]
          exact ⟨_, rfl, Heap.setData_self hcp, fun x hx => Heap.setData_other hx, rfl⟩
        · simp only [if_neg hl]
          exact ⟨_, rfl, hcp, fun x _ => rfl, rfl⟩
      have hs' : Rep h2.node q sibling fs := hs.congr fun x hx => by
        have hxp : x ≠ p := fun he => hps (he ▸ hx)
        rw [h2keep x hxp, hckeep x (fun hx' => hdis x hx' x hx rfl) hxp]
      obtain ⟨r, hrun, hsub, hrec, hst, hrep, hkeep, hm⟩ :=
        ihs (if left' = 0 then .enabled else c.status) hs' hnds hlen.2
      have htree : Gdb.doActionList t (.while_ stepCount left child sibling) status =
          (cT.1 ++ (Gdb.doActionList t sibling (if left' = 0 then .enabled else c.status)).1,
            .while_ stepCount (if left' = 0 then stepCount else left') cT.2.1
              (Gdb.doActionList t sibling (if left' = 0 then .enabled else c.status)).2.1,
            (Gdb.doActionList t sibling (if left' = 0 then .enabled else c.status)).2.2) := by
        rw [hcst, ← hcT, ← hlT]
        rfl
      rw [htree]
      refine ⟨{ r with visited := p :: (c.visited ++ r.visited),
                       records := c.records ++ r.records }, ?_, ?_, ?_, hst, ?_, ?_, ?_⟩
      · rw [doActionList, if_neg hp, hn]
        simp only [hcrun, Option.bind_eq_bind, Option.bind_some, hcp]
        rw [hh2, hrun]
        rfl
      · exact (hcsub.append hsub).cons_cons p
      · exact congrArg₂ (· ++ ·) hcrec hrec
      · refine ⟨q, k, fc, fs, hp, (hkeep p hps).trans h2p, hcrep.congr fun x hx => ?_, hrep, rfl⟩
        have hxs : x ∉ fs := fun hx' => hdis x hx x hx' rfl
        rw [hkeep x hxs, h2keep x fun he => hpc (he ▸ hx)]
      · intro x hx
        obtain ⟨hxp, hx⟩ := not_or.mp (mt List.mem_cons.mpr hx)
        obtain ⟨hxc, hxs⟩ := not_or.mp (mt List.mem_append.mpr hx)
        rw [hkeep x hxs, h2keep x hxp, hckeep x hxc hxp]
      · exact hm.trans (h2m.trans hcm)

/-! ## The search of `handle_tracepoint` -/

/-- The first `ACTION_WHILE` of a list is found; what the list from there on is changed to is
its end afterwards. -/
theorem findWhile_spec (fuel : Nat) (hr : Rep h.node p a fp) (hp : p ≠ 0) (hnd : fp.Nodup)
    (hf : fp.length ≤ fuel) :
    match a.fromWhile with
    | none => findWhile fuel h p = some none
    | some b => ∃ q pre fq, findWhile fuel h p = some (some q) ∧ fp = pre ++ fq ∧
        Rep h.node q b fq ∧ ∀ node' new, (∀ x ∈ pre, node' x = h.node x) →
          Rep node' q new fq → Rep node' p (a.setFromWhile new) fp := by
  induction a generalizing p fp fuel with
  | nil => exact absurd hr.1 hp
  | collect ca sibling ih =>
    obtain ⟨q, fs, -, hn, hs, rfl⟩ := hr
    obtain ⟨-, hnd⟩ := List.nodup_cons.mp hnd
    cases fuel with
    | zero => exact absurd hf (Nat.not_succ_le_zero _)
    | succ fuel =>
      by_cases hq : q = 0
      · subst hq
        obtain ⟨rfl, rfl⟩ := rep_null hs
        simp only [Action.fromWhile, findWhile, hn, if_pos]
      · have ih := ih fuel hs hq hnd (Nat.le_of_succ_le_succ hf)
        simp only [Action.fromWhile, findWhile, hn, if_neg hq]
        cases hw : sibling.fromWhile with
        | none => rw [hw] at ih; exact ih
        | some b =>
          rw [hw] at ih
          obtain ⟨k, pre, fq, hfind, rfl, hrep, hback⟩ := ih
          refine ⟨k, p :: pre, fq, hfind, rfl, hrep, fun node' new hag hnew => ?_⟩
          refine ⟨q, pre ++ fq, hp, (hag p List.mem_cons_self).trans hn,
            hback node' new (fun x hx => hag x (List.mem_cons_of_mem p hx)) hnew, rfl⟩
  | while_ c left child sibling _ _ =>
    have hroot := hr
    obtain ⟨q, r, fc, fs, -, hn, -⟩ := hr
    cases fuel with
    | zero =>
      obtain ⟨q, r, fc, fs, -, -, -, -, rfl⟩ := hroot
      exact absurd hf (Nat.not_succ_le_zero _)
    | succ fuel =>
      refine ⟨p, [], fp, ?_, rfl, hroot, fun node' new _ hnew => hnew⟩
      simp only [findWhile, hn]

/-! ## The walk of `delete_action` -/

/-- The nodes of `fp` are freed, and nothing else. -/
def Freed (h h' : Heap) (fp : List Ptr) : Prop :=
  (∀ x ∈ fp, h'.node x = none) ∧ (∀ x ∉ fp, h'.node x = h.node x) ∧ h'.mallocs = h.mallocs

theorem deleteAction_link {fuel : Nat} {q : Ptr} {fq : List Ptr} {n : ActionNode}
    {f : ActionNode → ActionNode} (hq : Rep h.node q a fq) (hp : p ∉ fq)
    (hn : h.node p = some n) (hf : q = 0 → f n = n)
    (hdel : q ≠ 0 → ∃ h', deleteAction fuel h q = some h' ∧ Freed h h' fq) :
    ∃ h', (if q = 0 then some h else (deleteAction fuel h q).map fun h => h.modify p f) =
        some h' ∧ h'.node p = some (f n) ∧ (∀ x ∈ fq, h'.node x = none) ∧
      (∀ x ∉ fq, x ≠ p → h'.node x = h.node x) ∧ h'.mallocs = h.mallocs := by
  by_cases h0 : q = 0
  · subst h0
    obtain ⟨rfl, rfl⟩ := rep_null hq
    exact ⟨h, if_pos rfl, by rw [hf rfl, hn], fun x hx => absurd hx List.not_mem_nil,
      fun _ _ _ => rfl, rfl⟩
  · obtain ⟨h', hrun, hgone, hkeep, hm⟩ := hdel h0
    refine ⟨h'.modify p f, by rw [if_neg h0, hrun]; rfl,
      Heap.modify_self ((hkeep p hp).trans hn), fun x hx => ?_, fun x hx hxp => ?_, hm⟩
    · have hxp : x ≠ p := fun he => hp (he ▸ hx)
      rw [Heap.modify_other hxp, hgone x hx]
    · rw [Heap.modify_other hxp, hkeep x hx]

theorem deleteAction_node {fuel : Nat} {n : ActionNode} {b c : Action} {fc fs : List Ptr}
    (hn : h.node p = some n) (hc : Rep h.node n.child c fc) (hs : Rep h.node n.sibling b fs)
    (hnd : (p :: (fc ++ fs)).Nodup)
    (hdels : n.sibling ≠ 0 → ∃ h', deleteAction fuel h n.sibling = some h' ∧ Freed h h' fs)
    (hdelc : ∀ h1 : Heap, Rep h1.node n.child c fc → n.child ≠ 0 →
      ∃ h', deleteAction fuel h1 n.child = some h' ∧ Freed h1 h' fc) :
    ∃ h', deleteAction (fuel + 1) h p = some h' ∧ Freed h h' (p :: (fc ++ fs)) := by
  obtain ⟨hpn, hnd⟩ := List.nodup_cons.mp hnd
  obtain ⟨-, -, hdis⟩ := List.nodup_append.mp hnd
  have hpc : p ∉ fc := fun hx => hpn (List.mem_append_left fs hx)
  have hps : p ∉ fs := fun hx => hpn (List.mem_append_right fc hx)
  obtain ⟨h1, hrun1, hp1, hgone1, hkeep1, hm1⟩ := deleteAction_link
    (f := fun n => { n with sibling := 0 }) hs hps hn (by intro h0; rw [← h0]) hdels
  have hc1 : Rep h1.node n.child c fc := hc.congr fun x hx =>
    hkeep1 x (fun hx' => hdis x hx x hx' rfl) fun he => hpc (he ▸ hx)
  obtain ⟨h2, hrun2, hp2, hgone2, hkeep2, hm2⟩ := deleteAction_link
    (f := fun n => { n with child := 0 }) hc1 hpc hp1
    (by intro h0; show (⟨_, _, _⟩ : ActionNode) = _; rw [h0]) (hdelc h1 hc1)
  refine ⟨h2.free p, ?_, fun x hx => ?_, fun x hx => ?_, hm2.trans hm1⟩
  · have hrun1' : (if n.sibling = 0 then some h
        else (deleteAction fuel h n.sibling).map fun h => h.setSibling p 0) = some h1 := hrun1
    have hrun2' : (if n.child = 0 then some h1
        else (deleteAction fuel h1 n.child).map fun h => h.setChild p 0) = some h2 := hrun2
    simp only [deleteAction, hn, Option.bind_eq_bind, Option.bind_some, hrun1', hp1, hrun2', hp2,
      and_self, if_true, Option.pure_def]
  · by_cases hxp : x = p
    · rw [hxp, Heap.free_self]
    · rw [Heap.free_other hxp]
      rcases List.mem_append.mp (List.mem_of_ne_of_mem hxp hx) with hx | hx
      · exact hgone2 x hx
      · rw [hkeep2 x (fun hx' => hdis x hx' x hx rfl) hxp, hgone1 x hx]
  · obtain ⟨hxp, hx⟩ := not_or.mp (mt List.mem_cons.mpr hx)
    obtain ⟨hxc, hxs⟩ := not_or.mp (mt List.mem_append.mpr hx)
    rw [Heap.free_other hxp, hkeep2 x hxc hxp, hkeep1 x hxs hxp]

theorem deleteAction_spec (fuel : Nat) (hr : Rep h.node p a fp) (hp : p ≠ 0) (hnd : fp.Nodup)
    (hf : fp.length ≤ fuel) : ∃ h', deleteAction fuel h p = some h' ∧ Freed h h' fp := by
  induction a generalizing p fp fuel h with
  | nil => exact absurd hr.1 hp
  | collect ca sibling ih =>
    obtain ⟨q, fs, -, hn, hs, rfl⟩ := hr
    cases fuel with
    | zero => exact absurd hf (Nat.not_succ_le_zero _)
    | succ fuel =>
      refine deleteAction_node hn (show Rep _ 0 .nil [] from ⟨rfl, rfl⟩) hs hnd (fun hq => ?_)
        fun h1 _ h0 => absurd rfl h0
      exact ih fuel hs hq (List.nodup_cons.mp hnd).2 (Nat.le_of_succ_le_succ hf)
  | while_ c left child sibling ihc ihs =>
    obtain ⟨q, r, fc, fs, -, hn, hc, hs, rfl⟩ := hr
    obtain ⟨hndc, hnds, -⟩ := List.nodup_append.mp (List.nodup_cons.mp hnd).2
    cases fuel with
    | zero => exact absurd hf (Nat.not_succ_le_zero _)
    | succ fuel =>
      have hlen : fc.length ≤ fuel ∧ fs.length ≤ fuel := by
        rw [List.length_cons, List.length_append] at hf
        omega
      exact deleteAction_node hn hc hs hnd (fun hq => ihs fuel hs hq hnds hlen.2)
        fun h1 hc1 hr0 => ihc fuel hc1 hr0 hndc hlen.1

end SkyEye.Gdb.ActionHeap
