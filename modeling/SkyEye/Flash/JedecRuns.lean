import SkyEye.Flash.Jedec

/-!
# What the recognisers should do

In a run from reset the memory should change only on the write that ends a command, as the
command says, and the reset command should get the chip back to its array. That is so where no
read comes between the cycles of a command and its datum, what is programmed has no one where the
memory has a zero, an erasure is of an address at the start of its sector, and the reset command
comes where the recogniser still keeps cycles (`jedec_meets`).
-/

namespace SkyEye.Flash.Jedec

/-! ## The protocol -/

inductive Access where
  | read (addr : ARMword)
  | write (addr data : ARMword)

/-- The cycle of a write. -/
def cycleOf (k : Kind) (base : ARMword) : Access → Option Cycle
  | .read _ => none
  | .write addr data => some ⟨k.offset base addr, data⟩

/-- The cycles before the datum of a program and of an erasure. -/
def programUnlock (k : Kind) : List Cycle :=
  [⟨k.unlock.1, 0xaa⟩, ⟨k.unlock.2, 0x55⟩, ⟨k.unlock.1, 0xa0⟩]
def eraseUnlock (k : Kind) : List Cycle :=
  [⟨k.unlock.1, 0xaa⟩, ⟨k.unlock.2, 0x55⟩, ⟨k.unlock.1, 0x80⟩, ⟨k.unlock.1, 0xaa⟩,
    ⟨k.unlock.2, 0x55⟩]

/-- The last accesses, the latest first, are the writes of these cycles. -/
def EndsWith (k : Kind) (base : ARMword) (trace : List Access) (command : List Cycle) : Prop :=
  (trace.take command.length).map (cycleOf k base) = (command.map some).reverse

/-- Programming turns ones to zeros where it stores. -/
def Memory.program (m : Memory) (datatype : DataType) (addr data : ARMword) : Memory := fun x =>
  if (x - addr).toNat < width datatype then lane addr data x &&& m x else m x

/-- The size of the sector or block that an erasure with the datum `data` is of. -/
def Kind.unit (k : Kind) (data : ARMword) : Option Nat :=
  match k with
  | .am29Byte sizes | .am29Halfword sizes =>
    if data = 0x30 then some sizes.sector.toNat else none
  | .sst39 => if data = 0x30 then some 0x1000 else if data = 0x50 then some 0x10000 else none

/-- The bytes of the chip that an erasure is of: all, or those of the sector of `addr`. -/
def Kind.erased (k : Kind) (base addr data x : ARMword) : Bool :=
  if data = 0x10 then base.toNat ≤ x.toNat && x.toNat - base.toNat < k.chipSize.toNat
  else
    match k.unit data with
    | some u => base.toNat ≤ x.toNat &&
        (x.toNat - base.toNat) / u == (addr.toNat - base.toNat) / u
    | none => false

/-- The bytes that `p` selects are all ones. -/
def Memory.ones (m : Memory) (p : ARMword → Bool) : Memory := fun x => if p x then 0xff else m x

/-- Writes one after the other. -/
def writes (k : Kind) (base : ARMword) : State → List (ARMword × ARMword) → Option State
  | s, [] => some s
  | s, w :: ws => (write k base s w.1 w.2).bind fun s => writes k base s ws

/-- The array is read, and full sequences are recognised. -/
structure ReadArray (k : Kind) (base : ARMword) (s : State) : Prop where
  reads : readsMemory s = true
  program : ∀ ws : List (ARMword × ARMword),
    ws.map (fun w => (⟨k.offset base w.1, w.2⟩ : Cycle)) = programUnlock k →
      ∃ s', writes k base s ws = some s' ∧ programs k s'.cycles = true ∧ s'.mem = s.mem
  erase : ∀ ws : List (ARMword × ARMword),
    ws.map (fun w => (⟨k.offset base w.1, w.2⟩ : Cycle)) = eraseUnlock k →
      ∃ s', writes k base s ws = some s' ∧ erases k s'.cycles = true ∧ s'.mem = s.mem

/-- The write takes `s`, after the accesses `trace`, to `s'` as it should. -/
structure Meets (k : Kind) (base : ARMword) (trace : List Access) (s : State)
    (addr data : ARMword) (s' : State) : Prop where
  changes : s'.mem ≠ s.mem →
    EndsWith k base trace (programUnlock k) ∨ EndsWith k base trace (eraseUnlock k)
  program : programs k s.cycles = true → s'.mem = s.mem.program k.datatype addr data
  erase : erases k s.cycles = true → s'.mem = s.mem.ones (k.erased base addr data)
  reset : data = 0xf0 → programs k s.cycles = false → erases k s.cycles = false →
    ReadArray k base s'

/-- The recogniser takes the reset command. -/
def takesReset (k : Kind) (c : Cycles) (offset : ARMword) : Prop :=
  match k with
  | .sst39 => c.n < 6 ∧ (c.push offset 0xf0).queryExit = true
  | _ => c.n < 6

/-- No read before the datum of a command; no one is programmed over a zero; an erasure is of the
start of a sector, on a chip that ends below 2^32; the reset command is one that is taken. -/
structure Proper (k : Kind) (base : ARMword) (s : State) (addr data : ARMword) : Prop where
  unread : programs k s.cycles = true ∨ erases k s.cycles = true → s.cycles.n = s.cycles.cnt
  zeros : programs k s.cycles = true → ∀ x, (x - addr).toNat < width k.datatype →
    lane addr data x &&& s.mem x = lane addr data x
  chip : erases k s.cycles = true → base.toNat + k.chipSize.toNat < 2 ^ 32
  aligned : erases k s.cycles = true → ∀ u, k.unit data = some u → base.toNat ≤ addr.toNat ∧
    addr.toNat - base.toNat < k.chipSize.toNat ∧ u ∣ addr.toNat - base.toNat
  reset : data = 0xf0 → programs k s.cycles = false → erases k s.cycles = false →
    takesReset k s.cycles (k.offset base addr)

/-- The runs from reset whose writes are `ok`, with the accesses made, the latest first. -/
inductive Run (k : Kind) (base : ARMword) (ok : State → ARMword → ARMword → Prop) :
    List Access → State → Prop
  | reset (m : Memory) : Run k base ok [] ⟨Cycles.reset, m⟩
  | read {trace : List Access} {s : State} (hrun : Run k base ok trace s) (addr : ARMword) :
      Run k base ok (.read addr :: trace) s.read
  | write {trace : List Access} {s s' : State} (hrun : Run k base ok trace s)
      (addr data : ARMword) (hok : ok s addr data) (hw : write k base s addr data = some s') :
      Run k base ok (.write addr data :: trace) s'

variable {k : Kind} {base : ARMword} {s s' : State} {addr data : ARMword} {trace : List Access}
  {m : Memory}

/-! ## Erasures -/

theorem lane_ones {x : ARMword} (h : (x - addr).toNat < 4) : lane addr 0xffffffff x = 0xff := by
  unfold lane
  generalize (x - addr).toNat = d at h
  have hd : d = 0 ∨ d = 1 ∨ d = 2 ∨ d = 3 := by omega
  rcases hd with rfl | rfl | rfl | rfl <;> rfl

theorem erase_apply : ∀ (n : Nat) (m : Memory) (start x : ARMword), start.toNat + 4 * n ≤ 2 ^ 32 →
    m.erase start n x = if (x - start).toNat < 4 * n then 0xff else m x
  | 0, m, start, x, _ => by rw [Memory.erase, if_neg (Nat.not_lt_zero _)]
  | n + 1, m, start, x, h => by
    have h4 : (4 : ARMword).toNat = 4 := rfl
    have hnext : (start + 4).toNat = (start.toNat + 4) % 2 ^ 32 := BitVec.toNat_add start 4
    have hd : (x - start).toNat = (2 ^ 32 - start.toNat + x.toNat) % 2 ^ 32 := BitVec.toNat_sub ..
    have hd' : (x - (start + 4)).toNat = (2 ^ 32 - (start + 4).toNat + x.toNat) % 2 ^ 32 :=
      BitVec.toNat_sub ..
    have hs := start.isLt
    have hx := x.isLt
    rw [Memory.erase, erase_apply n _ (start + 4) x (by omega)]
    by_cases hlow : (x - start).toNat < 4
    · have hst : m.store .word start 0xffffffff x = 0xff := by
        unfold Memory.store
        rw [if_pos (show (x - start).toNat < width .word from hlow), lane_ones hlow]
      rw [hst, ite_self, if_pos (by omega)]
    · have hst : m.store .word start 0xffffffff x = m x :=
        if_neg (show ¬(x - start).toNat < width .word from hlow)
      rw [hst]
      refine if_congr ?_ rfl rfl
      omega

/-- The erasure of `size` bytes from `start` on. -/
theorem eraseMem_of_range {start : ARMword} {size : Nat}
    (hr : eraseRange k base addr data = (start, start + BitVec.ofNat 32 size))
    (hpos : 0 < size) (hwords : 4 ∣ size)
    (hend : start.toNat + size ≤ base.toNat + k.chipSize.toNat)
    (hchip : base.toNat + k.chipSize.toNat < 2 ^ 32) :
    eraseMem k base addr data m =
      some (m.ones fun x => decide ((x - start).toNat < size)) := by
  have hsize : (BitVec.ofNat 32 size).toNat = size := by
    rw [BitVec.toNat_ofNat, Nat.mod_eq_of_lt (by omega)]
  have hstop : (start + BitVec.ofNat 32 size).toNat = start.toNat + size := by
    rw [BitVec.toNat_add, hsize, Nat.mod_eq_of_lt (by omega)]
  have hlimit : (base + k.chipSize).toNat = base.toNat + k.chipSize.toNat := by
    rw [BitVec.toNat_add, Nat.mod_eq_of_lt hchip]
  have hlen : (start + BitVec.ofNat 32 size - start).toNat = size := by
    rw [BitVec.toNat_sub, hstop]
    omega
  obtain ⟨q, rfl⟩ := hwords
  unfold eraseMem
  rw [hr]
  dsimp only
  rw [if_pos ⟨BitVec.lt_def.mpr (by omega), BitVec.le_def.mpr (by omega)⟩, hlen,
    if_pos (by omega)]
  refine congrArg some (funext fun x => ?_)
  rw [erase_apply _ _ _ _ (by omega)]
  unfold Memory.ones
  refine if_congr ?_ rfl rfl
  rw [decide_eq_true_eq]
  omega

theorem unit_spec {u : Nat} (hu : k.unit data = some u) : data ≠ 0x10 ∧ 0 < u ∧ 4 ∣ u ∧
    u ∣ k.chipSize.toNat ∧
    ∀ base addr, eraseRange k base addr data = (addr, addr + BitVec.ofNat 32 u) := by
  have hsect (z : Sizes) : 0 < z.sector.toNat :=
    Nat.pos_of_dvd_of_pos z.sectors z.chip_pos
  cases k with
  | am29Byte z =>
    rw [Kind.unit] at hu
    split at hu
    · rename_i hd
      obtain rfl := Option.some.inj hu
      subst hd
      refine ⟨by decide, hsect z, z.words, z.sectors, fun base addr => ?_⟩
      rw [BitVec.ofNat_toNat, BitVec.setWidth_eq]
      rfl
    · cases hu
  | am29Halfword z =>
    rw [Kind.unit] at hu
    split at hu
    · rename_i hd
      obtain rfl := Option.some.inj hu
      subst hd
      refine ⟨by decide, hsect z, z.words, z.sectors, fun base addr => ?_⟩
      rw [BitVec.ofNat_toNat, BitVec.setWidth_eq]
      rfl
    · cases hu
  | sst39 =>
    have hchip : Kind.sst39.chipSize.toNat = 0x200000 := rfl
    rw [Kind.unit] at hu
    split at hu
    · rename_i hd
      obtain rfl := Option.some.inj hu
      subst hd
      exact ⟨by decide, by decide, by decide, by rw [hchip]; decide, fun base addr => rfl⟩
    · split at hu
      · rename_i hd
        obtain rfl := Option.some.inj hu
        subst hd
        exact ⟨by decide, by decide, by decide, by rw [hchip]; decide, fun base addr => rfl⟩
      · cases hu

/-- The sector that begins at `addr`. -/
theorem sector_iff {u : Nat} (hu : 0 < u) (hbase : base.toNat ≤ addr.toNat)
    (hal : u ∣ addr.toNat - base.toNat) (hend : addr.toNat + u ≤ 2 ^ 32) (x : ARMword) :
    (x - addr).toNat < u ↔ base.toNat ≤ x.toNat ∧
      (x.toNat - base.toNat) / u = (addr.toNat - base.toNat) / u := by
  obtain ⟨q, hq⟩ := hal
  have hd : (x - addr).toNat = (2 ^ 32 - addr.toNat + x.toNat) % 2 ^ 32 := BitVec.toNat_sub ..
  have hx := x.isLt
  have ha := addr.isLt
  rw [hq, Nat.mul_div_cancel_left q hu, Nat.div_eq_iff hu]
  generalize hp : q * u = p
  rw [Nat.mul_comm] at hq
  rw [hp] at hq
  constructor
  · intro h
    omega
  · rintro ⟨h0, h1⟩
    omega

/-- A proper erasure is of the whole chip or of the whole sector. -/
theorem eraseMem_eq (h : Proper k base s addr data) (he : erases k s.cycles = true) (m : Memory) :
    eraseMem k base addr data m = some (m.ones (k.erased base addr data)) := by
  have hchip := h.chip he
  by_cases hd : data = 0x10
  · have hcs : 0 < k.chipSize.toNat ∧ 4 ∣ k.chipSize.toNat := by
      cases k with
      | am29Byte z | am29Halfword z => exact ⟨z.chip_pos, Nat.dvd_trans z.words z.sectors⟩
      | sst39 => exact ⟨by decide, by decide⟩
    have hr : eraseRange k base addr data =
        (base, base + BitVec.ofNat 32 k.chipSize.toNat) := by
      rw [BitVec.ofNat_toNat, BitVec.setWidth_eq]
      exact if_pos hd
    rw [eraseMem_of_range hr hcs.1 hcs.2 (Nat.le_refl _) hchip]
    refine congrArg (some <| m.ones ·) (funext fun x => ?_)
    have hdx : (x - base).toNat = (2 ^ 32 - base.toNat + x.toNat) % 2 ^ 32 := BitVec.toNat_sub ..
    have hx := x.isLt
    rw [Kind.erased, if_pos hd, ← Bool.decide_and, decide_eq_decide]
    omega
  · cases hu : k.unit data with
    | some u =>
      obtain ⟨-, hpos, hwords, hdvd, hr⟩ := unit_spec hu
      obtain ⟨hbase, hin, hal⟩ := h.aligned he u hu
      -- a sector that begins in the chip ends in it
      have hend : addr.toNat - base.toNat + u ≤ k.chipSize.toNat := by
        obtain ⟨q, hq⟩ := hal
        obtain ⟨c, hc⟩ := hdvd
        rw [hq, hc] at hin ⊢
        have hqc : q + 1 ≤ c := Nat.lt_of_mul_lt_mul_left hin
        calc u * q + u = u * (q + 1) := rfl
          _ ≤ u * c := Nat.mul_le_mul_left u hqc
      rw [eraseMem_of_range (hr base addr) hpos hwords (by omega) hchip]
      refine congrArg (some <| m.ones ·) (funext fun x => ?_)
      rw [Kind.erased, if_neg hd, hu]
      rw [Bool.eq_iff_iff]
      simp only [Bool.and_eq_true, decide_eq_true_eq, beq_iff_eq]
      exact sector_iff hpos hbase hal (by omega) x
    | none =>
      have hr : eraseRange k base addr data = (0, 0) := by
        cases k with
        | am29Byte z | am29Halfword z =>
          rw [Kind.unit] at hu
          split at hu
          · cases hu
          · exact (if_neg hd).trans (if_neg ‹_›)
        | sst39 =>
          rw [Kind.unit] at hu
          split at hu
          · cases hu
          · split at hu
            · cases hu
            · exact (if_neg hd).trans ((if_neg ‹_›).trans (if_neg ‹_›))
      unfold eraseMem
      rw [hr]
      dsimp only
      rw [if_neg fun h => absurd h.1 (by decide)]
      refine congrArg some (funext fun x => ?_)
      rw [Memory.ones, Kind.erased, if_neg hd, hu]
      rfl

/-! ## The cycles -/

theorem accept_cases (k : Kind) (data : ARMword) (c : Cycles) (offset : ARMword) :
    accept k data c offset = Cycles.reset ∨
      (c.n < 6 ∧ accept k data c offset = c.push offset data) ∨
      (¬c.n < 6 ∧ accept k data c offset = c) := by
  cases k with
  | sst39 =>
    unfold accept
    dsimp only
    by_cases hn : c.n < 6
    · rw [if_pos hn]
      split
      · exact .inl rfl
      · exact .inr (.inl ⟨hn, rfl⟩)
    · rw [if_neg hn]
      exact .inr (.inr ⟨hn, rfl⟩)
  | am29Byte | am29Halfword =>
    unfold accept
    dsimp only
    by_cases hn : c.n < 6
    · simp only [if_pos hn]
      split
      · exact .inl rfl
      · split
        · exact .inl rfl
        · exact .inr (.inl ⟨hn, rfl⟩)
    · simp only [if_neg hn]
      split
      · exact .inl rfl
      · split
        · exact .inl rfl
        · exact .inr (.inr ⟨hn, rfl⟩)

/-- The cycles kept are those of the last accesses, unless there is no more room. -/
def Recent (k : Kind) (base : ARMword) (trace : List Access) (c : Cycles) : Prop :=
  c.n < 6 → (trace.take c.n).map (cycleOf k base) =
    ((List.range c.n).map fun i => some (c.bus i)).reverse

theorem recent_zero {c : Cycles} (h : c.n = 0) : Recent k base trace c := by
  intro _
  rw [h]
  rfl

theorem Recent.push {c : Cycles} (h : Recent k base trace c) (hn : c.n < 6)
    (addr data : ARMword) :
    Recent k base (.write addr data :: trace) (c.push (k.offset base addr) data) := by
  intro _
  show List.map (cycleOf k base) (List.take (c.n + 1) _) = List.reverse (List.map _
    (List.range (c.n + 1)))
  rw [List.take_succ_cons, List.map_cons, h hn, List.range_succ, List.map_append,
    List.reverse_append]
  refine congrArg₂ List.cons ?_ (congrArg List.reverse (List.map_congr_left fun i hi => ?_))
  · exact congrArg some (Function.update_self c.n _ c.bus).symm
  · have hne : i ≠ c.n := Nat.ne_of_lt (List.mem_range.mp hi)
    exact congrArg some (Function.update_of_ne hne _ c.bus).symm

theorem write_eq (k : Kind) (base : ARMword) (s : State) (addr data : ARMword) :
    (suspends k data s.cycles = true → write k base s addr data = some s) ∧
    (suspends k data s.cycles = false → programs k s.cycles = true → write k base s addr data =
      some ⟨Cycles.reset, s.mem.store k.datatype addr data⟩) ∧
    (suspends k data s.cycles = false → programs k s.cycles = false → erases k s.cycles = true →
      write k base s addr data = (eraseMem k base addr data s.mem).map fun m =>
        ⟨Cycles.reset, m⟩) ∧
    (suspends k data s.cycles = false → programs k s.cycles = false →
      erases k s.cycles = false → write k base s addr data =
        some ⟨accept k data s.cycles (k.offset base addr), s.mem⟩) := by
  unfold write
  refine ⟨fun h => if_pos h, fun h hp => ?_, fun h hp he => ?_, fun h hp he => ?_⟩
  · rw [h, hp]
    rfl
  · rw [h, hp, he]
    rfl
  · rw [h, hp, he]
    rfl

theorem Recent.write (h : Recent k base trace s.cycles)
    (hw : Jedec.write k base s addr data = some s') :
    Recent k base (.write addr data :: trace) s'.cycles := by
  obtain ⟨h1, h2, h3, h4⟩ := write_eq k base s addr data
  cases hs : suspends k data s.cycles with
  | true =>
    obtain rfl := Option.some.inj ((h1 hs).symm.trans hw)
    have hn : s.cycles.n = 0 := by
      cases k with
      | sst39 => cases hs
      | am29Byte | am29Halfword => exact beq_iff_eq.mp (Bool.and_eq_true_iff.mp hs).1
    exact recent_zero hn
  | false =>
    cases hp : programs k s.cycles with
    | true =>
      obtain rfl := Option.some.inj ((h2 hs hp).symm.trans hw)
      exact recent_zero rfl
    | false =>
      cases he : erases k s.cycles with
      | true =>
        rw [h3 hs hp he] at hw
        obtain ⟨m, -, rfl⟩ := Option.map_eq_some_iff.mp hw
        exact recent_zero rfl
      | false =>
        obtain rfl := Option.some.inj ((h4 hs hp he).symm.trans hw)
        rcases accept_cases k data s.cycles (k.offset base addr) with ha | ⟨hn, ha⟩ | ⟨hn, ha⟩
        · exact recent_zero (congrArg Cycles.n ha)
        · show Recent k base _ (accept k data s.cycles (k.offset base addr))
          rw [ha]
          exact h.push hn addr data
        · show Recent k base _ (accept k data s.cycles (k.offset base addr))
          rw [ha]
          exact fun hlt => absurd hlt hn

theorem Run.recent {ok : State → ARMword → ARMword → Prop} (hrun : Run k base ok trace s) :
    Recent k base trace s.cycles := by
  induction hrun with
  | reset m => exact recent_zero rfl
  | read hrun addr ih => exact recent_zero rfl
  | write hrun addr data hok hw ih => exact ih.write hw

/-- The check of one cycle. -/
theorem check_iff (c : Cycles) (n : Nat) (o v : ARMword) : c.check n o v = true ↔
    c.bus n = ⟨o, v⟩ := by
  rw [Cycles.check, Bool.and_eq_true, beq_iff_eq, beq_iff_eq]
  exact ⟨fun ⟨h1, h2⟩ => by rw [← h1, ← h2], fun h => by rw [h]; exact ⟨rfl, rfl⟩⟩

theorem programs_iff (c : Cycles) : programs k c = true ↔ c.cnt = 3 ∧
    c.bus 0 = ⟨k.unlock.1, 0xaa⟩ ∧ c.bus 1 = ⟨k.unlock.2, 0x55⟩ ∧
    c.bus 2 = ⟨k.unlock.1, 0xa0⟩ := by
  simp only [programs, Cycles.command, Bool.and_eq_true, beq_iff_eq, check_iff, and_assoc]

theorem erases_iff (c : Cycles) : erases k c = true ↔ c.cnt = 5 ∧
    c.bus 0 = ⟨k.unlock.1, 0xaa⟩ ∧ c.bus 1 = ⟨k.unlock.2, 0x55⟩ ∧
    c.bus 2 = ⟨k.unlock.1, 0x80⟩ ∧ c.bus 3 = ⟨k.unlock.1, 0xaa⟩ ∧
    c.bus 4 = ⟨k.unlock.2, 0x55⟩ := by
  simp only [erases, Cycles.erase, Bool.and_eq_true, beq_iff_eq, check_iff, and_assoc]

/-- What is recognised is what was written last. -/
theorem Recent.endsWith_program {c : Cycles} (h : Recent k base trace c)
    (hp : programs k c = true) (hn : c.n = c.cnt) : EndsWith k base trace (programUnlock k) := by
  obtain ⟨hc, h0, h1, h2⟩ := (programs_iff c).mp hp
  have hr := h (by omega)
  rw [hn, hc] at hr
  refine hr.trans ?_
  show [some (c.bus 2), some (c.bus 1), some (c.bus 0)] = _
  rw [h0, h1, h2]
  rfl

theorem Recent.endsWith_erase {c : Cycles} (h : Recent k base trace c)
    (he : erases k c = true) (hn : c.n = c.cnt) : EndsWith k base trace (eraseUnlock k) := by
  obtain ⟨hc, h0, h1, h2, h3, h4⟩ := (erases_iff c).mp he
  have hr := h (by omega)
  rw [hn, hc] at hr
  refine hr.trans ?_
  show [some (c.bus 4), some (c.bus 3), some (c.bus 2), some (c.bus 1), some (c.bus 0)] = _
  rw [h0, h1, h2, h3, h4]
  rfl

/-! ## Sequences from the array -/

/-- The cycles after writes none of which ends a command. -/
def accepts (k : Kind) : Cycles → List Cycle → Option Cycles
  | c, [] => some c
  | c, w :: ws =>
    if suspends k w.data c || programs k c || erases k c then none
    else accepts k (accept k w.data c w.addr) ws

theorem writes_of_accepts (m : Memory) : ∀ (ws : List (ARMword × ARMword)) (c c' : Cycles),
    accepts k c (ws.map fun w => ⟨k.offset base w.1, w.2⟩) = some c' →
      writes k base ⟨c, m⟩ ws = some ⟨c', m⟩
  | [], c, c', h => by rw [Option.some.inj h]; rfl
  | w :: ws, c, c', h => by
    rw [List.map_cons, accepts] at h
    split at h
    · cases h
    · rename_i hq
      obtain ⟨hsp, he⟩ := not_or.mp (mt Bool.or_eq_true_iff.mpr hq)
      obtain ⟨hs, hp⟩ := not_or.mp (mt Bool.or_eq_true_iff.mpr hsp)
      have hw := (write_eq k base ⟨c, m⟩ w.1 w.2).2.2.2 (Bool.eq_false_iff.mpr hs)
        (Bool.eq_false_iff.mpr hp) (Bool.eq_false_iff.mpr he)
      rw [writes, hw]
      exact writes_of_accepts m ws _ c' h

theorem accepts_program (k : Kind) : ∃ c, accepts k Cycles.reset (programUnlock k) = some c ∧
    programs k c = true ∧ c.n = c.cnt := by
  cases k <;>
  simp [accepts, programUnlock, accept, suspends, programs, erases, Kind.unlock, Cycles.command,
    Cycles.erase, Cycles.check, Cycles.push, Cycles.reset, Cycles.bypassReset, Cycles.queryExit,
    Function.update]

theorem accepts_erase (k : Kind) : ∃ c, accepts k Cycles.reset (eraseUnlock k) = some c ∧
    erases k c = true := by
  cases k <;>
  simp [accepts, eraseUnlock, accept, suspends, programs, erases, Kind.unlock, Cycles.command,
    Cycles.erase, Cycles.check, Cycles.push, Cycles.reset, Cycles.bypassReset, Cycles.queryExit,
    Function.update]

theorem readArray_reset (k : Kind) (base : ARMword) (m : Memory) :
    ReadArray k base ⟨Cycles.reset, m⟩ where
  reads := rfl
  program ws hws := by
    obtain ⟨c, hc, hp, -⟩ := accepts_program k
    exact ⟨⟨c, m⟩, writes_of_accepts m ws Cycles.reset c (hws ▸ hc), hp, rfl⟩
  erase ws hws := by
    obtain ⟨c, hc, he⟩ := accepts_erase k
    exact ⟨⟨c, m⟩, writes_of_accepts m ws Cycles.reset c (hws ▸ hc), he, rfl⟩

theorem accept_reset {c : Cycles} {offset : ARMword} (h : takesReset k c offset) :
    accept k 0xf0 c offset = Cycles.reset := by
  cases k with
  | sst39 => exact (if_pos h.1).trans (if_pos h.2)
  | am29Byte | am29Halfword => exact if_pos ⟨h, rfl⟩

/-! ## Runs -/

/-- In a run of proper writes every one ends and does what it should. -/
theorem jedec_meets (hrun : Run k base (Proper k base) trace s) (hok : Proper k base s addr data) :
    ∃ s', write k base s addr data = some s' ∧ Meets k base trace s addr data s' := by
  obtain ⟨h1, h2, h3, h4⟩ := write_eq k base s addr data
  have hrec := hrun.recent
  -- a recognised command has cycles, so its datum is no Suspend
  have hcmd : programs k s.cycles = true ∨ erases k s.cycles = true → s.cycles.n ≠ 0 := by
    intro h
    rw [hok.unread h]
    rcases h with h | h
    · rw [((programs_iff _).mp h).1]
      decide
    · rw [((erases_iff _).mp h).1]
      decide
  cases hs : suspends k data s.cycles with
  | true =>
    have hsus : s.cycles.n = 0 ∧ data ≠ 0xf0 := by
      cases k with
      | sst39 => cases hs
      | am29Byte | am29Halfword =>
        obtain ⟨hn, hd⟩ := Bool.and_eq_true_iff.mp hs
        refine ⟨beq_iff_eq.mp hn, fun he => ?_⟩
        rw [he] at hd
        exact absurd hd (by decide)
    exact ⟨s, h1 hs, fun h => absurd rfl h, fun h => absurd hsus.1 (hcmd (.inl h)),
      fun h => absurd hsus.1 (hcmd (.inr h)), fun h => absurd h hsus.2⟩
  | false =>
    cases hp : programs k s.cycles with
    | true =>
      have he : erases k s.cycles ≠ true := by
        intro he
        have h3 := ((programs_iff _).mp hp).1
        have h5 := ((erases_iff _).mp he).1
        omega
      refine ⟨_, h2 hs hp, fun _ => .inl (hrec.endsWith_program hp (hok.unread (.inl hp))),
        fun _ => ?_, fun h => absurd h he, fun _ h => (by rw [hp] at h; cases h)⟩
      funext x
      show (if _ then _ else _) = if _ then _ else _
      by_cases hx : (x - addr).toNat < width k.datatype
      · rw [if_pos hx, if_pos hx, hok.zeros hp x hx]
      · rw [if_neg hx, if_neg hx]
    | false =>
      cases he : erases k s.cycles with
      | true =>
        have hm := eraseMem_eq hok he s.mem
        refine ⟨_, by rw [h3 hs hp he, hm]; rfl,
          fun _ => .inr (hrec.endsWith_erase he (hok.unread (.inr he))),
          fun h => (by rw [hp] at h; cases h), fun _ => rfl,
          fun _ _ h => (by rw [he] at h; cases h)⟩
      | false =>
        refine ⟨_, h4 hs hp he, fun h => absurd rfl h, fun h => (by rw [hp] at h; cases h),
          fun h => (by rw [he] at h; cases h), fun hd _ _ => ?_⟩
        rw [hd, accept_reset (hok.reset hd hp he)]
        exact readArray_reset k base s.mem

/-- A write that is no datum of a command and no reset command. -/
theorem proper_of_quiet (hp : programs k s.cycles = false) (he : erases k s.cycles = false)
    (hd : data ≠ 0xf0) : Proper k base s addr data where
  unread h := by
    rw [hp, he] at h
    exact absurd h (by decide)
  zeros h := by rw [hp] at h; cases h
  chip h := by rw [he] at h; cases h
  aligned h := by rw [he] at h; cases h
  reset h := absurd h hd

theorem run_of_accepts (m : Memory) : ∀ (ws : List (ARMword × ARMword)) (trace : List Access)
    (c c' : Cycles), Run k base (Proper k base) trace ⟨c, m⟩ → (∀ w ∈ ws, w.2 ≠ 0xf0) →
      accepts k c (ws.map fun w => ⟨k.offset base w.1, w.2⟩) = some c' →
      ∃ trace', Run k base (Proper k base) trace' ⟨c', m⟩
  | [], trace, c, c', hrun, _, h => ⟨trace, Option.some.inj h ▸ hrun⟩
  | w :: ws, trace, c, c', hrun, hd, h => by
    rw [List.map_cons, accepts] at h
    split at h
    · cases h
    · rename_i hq
      obtain ⟨hsp, he⟩ := not_or.mp (mt Bool.or_eq_true_iff.mpr hq)
      obtain ⟨hs, hp⟩ := not_or.mp (mt Bool.or_eq_true_iff.mpr hsp)
      rw [Bool.not_eq_true] at hs hp he
      have hw := (write_eq k base ⟨c, m⟩ w.1 w.2).2.2.2 hs hp he
      exact run_of_accepts m ws _ _ c'
        (.write hrun w.1 w.2 (proper_of_quiet hp he (hd w List.mem_cons_self)) hw)
        (fun w hm => hd w (List.mem_cons_of_mem _ hm)) h

/-- The unlock cycles of a program on an SST39 at 0. -/
def sstUnlock : List (ARMword × ARMword) := [(0xaaaa, 0xaa), (0x5554, 0x55), (0xaaaa, 0xa0)]

theorem sstUnlock_cycles : sstUnlock.map (fun w => (⟨Kind.sst39.offset 0 w.1, w.2⟩ : Cycle)) =
    programUnlock .sst39 := by
  decide

theorem sstUnlock_data : ∀ w ∈ sstUnlock, w.2 ≠ 0xf0 := by
  simp [sstUnlock]

/-- A halfword that is programmed in an erased chip. -/
theorem jedec_meets_program : ∃ trace s s', programs .sst39 s.cycles = true ∧
    write .sst39 0 s 0x1000 0x1234 = some s' ∧ Meets .sst39 0 trace s 0x1000 0x1234 s' := by
  obtain ⟨c, hc, hp, hn⟩ := accepts_program .sst39
  obtain ⟨trace, hrun⟩ := run_of_accepts (fun _ => 0xff) sstUnlock [] Cycles.reset c
    (.reset _) sstUnlock_data (sstUnlock_cycles ▸ hc)
  have he : erases .sst39 c ≠ true := by
    intro he
    have h3 := ((programs_iff c).mp hp).1
    have h5 := ((erases_iff c).mp he).1
    omega
  have hok : Proper .sst39 0 ⟨c, fun _ => 0xff⟩ 0x1000 0x1234 :=
    ⟨fun _ => hn, fun _ x _ => BitVec.and_allOnes, fun h => absurd h he, fun h => absurd h he,
      fun h => absurd h (by decide)⟩
  obtain ⟨s', hw, hmeets⟩ := jedec_meets hrun hok
  exact ⟨trace, _, s', hp, hw, hmeets⟩

/-- Ones that are programmed over zeros. -/
theorem program_sets_ones : ¬∀ (k : Kind) (base : ARMword) (trace : List Access) (s : State),
    Run k base (fun _ _ _ => True) trace s → ∀ addr data,
      ∃ s', write k base s addr data = some s' ∧ Meets k base trace s addr data s' := by
  intro hall
  obtain ⟨c, hc, hp, -⟩ := accepts_program .sst39
  have hmono : ∀ {trace s}, Run .sst39 0 (Proper .sst39 0) trace s →
      Run .sst39 0 (fun _ _ _ => True) trace s := by
    intro trace s h
    induction h with
    | reset m => exact .reset m
    | read _ addr ih => exact .read ih addr
    | write _ addr data _ hw ih => exact .write ih addr data trivial hw
  obtain ⟨trace, hrun⟩ := run_of_accepts (fun _ => 0) sstUnlock [] Cycles.reset c
    (.reset _) sstUnlock_data (sstUnlock_cycles ▸ hc)
  obtain ⟨s', hw, hmeets⟩ := hall .sst39 0 trace _ (hmono hrun) 0x1000 0xffff
  have hs' := Option.some.inj
    (((write_eq .sst39 0 ⟨c, fun _ => 0⟩ 0x1000 0xffff).2.1 rfl hp).symm.trans hw)
  have hmem := hmeets.program hp
  rw [← hs'] at hmem
  have hbyte : Memory.store (fun _ => 0) .halfword 0x1000 0xffff 0x1000 =
      Memory.program (fun _ => 0) .halfword 0x1000 0xffff 0x1000 := congrFun hmem 0x1000
  exact absurd hbyte (by decide)

end SkyEye.Flash.Jedec
