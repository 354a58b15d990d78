import SkyEye.ColdFire.Arith

/-!
# Conditions

The branches of `i_bcc.c` and the byte sets of `i_scc.c`, each with its own table of the
conditions, after a CMP. SHI does not have the condition of BHI: its comment says what the
documentation has and what the processor seems to do.
-/

namespace SkyEye.ColdFire

open Sparc (Uint32)

/-- `code_mnemonic` -/
inductive Condition where
  | t
  | f
  | hi
  | ls
  | cc
  | cs
  | ne
  | eq
  | vc
  | vs
  | pl
  | mi
  | ge
  | lt
  | gt
  | le
  deriving DecidableEq

/-- `Instr.Bits.Condition` -/
def condition (code : Uint32) : Condition :=
  match (code >>> 8 &&& 15).toNat with
  | 0 => .t
  | 1 => .f
  | 2 => .hi
  | 3 => .ls
  | 4 => .cc
  | 5 => .cs
  | 6 => .ne
  | 7 => .eq
  | 8 => .vc
  | 9 => .vs
  | 10 => .pl
  | 11 => .mi
  | 12 => .ge
  | 13 => .lt
  | 14 => .gt
  | _ => .le

/-- The branch is taken. Codes 0 and 1 are BRA and BSR. -/
def bccTaken (cond : Condition) (f : Flags) : Bool :=
  match cond with
  | .t => true
  | .f => true
  | .hi => !f.c && !f.z
  | .ls => f.c || f.z
  | .cc => !f.c
  | .cs => f.c
  | .ne => !f.z
  | .eq => f.z
  | .vc => !f.v
  | .vs => f.v
  | .pl => !f.n
  | .mi => f.n
  | .ge => f.n && f.v || !f.n && !f.v
  | .lt => f.n && !f.v || !f.n && f.v
  | .gt => f.n && f.v && !f.z || !f.n && !f.v && !f.z
  | .le => f.z || f.n && !f.v || !f.n && f.v

/-- `Result` of `i_scc.c`. -/
def sccResult (cond : Condition) (f : Flags) : Bool :=
  match cond with
  | .t => true
  | .f => false
  | .hi => f.c || !f.z
  | .ls => f.c || f.z
  | .cc => !f.c
  | .cs => f.c
  | .ne => !f.z
  | .eq => f.z
  | .vc => !f.v
  | .vs => f.v
  | .pl => !f.n
  | .mi => f.n
  | .ge => f.n && f.v || !f.n && !f.v
  | .lt => f.n && !f.v || !f.n && f.v
  | .gt => f.n && f.v && !f.z || !f.n && !f.v && !f.z
  | .le => f.z || f.n && !f.v || !f.n && f.v

namespace State

variable {δ : Type} (b : Board δ) (s : State δ)

/-- `Displacement`, with the second word of the instruction where the byte is 0. -/
def bccDisplacement (code : Uint32) : Option (Uint32 × State δ) :=
  let displacement := toChar code
  if displacement = 0 then do
    let (_, displacement, s) ← s.memoryRetrFromPc b displacement 16
    some (toShort displacement, s)
  else some (displacement, s)

/-- `execute` of Bcc, BRA and BSR. -/
def executeBcc : Option (State δ) := do
  let referencePc := s.core.pc + 2
  let (_, code, s) ← s.memoryRetrFromPc b b.uninit 16
  let (displacement, s) ← s.bccDisplacement b code
  match condition code with
  | .t => some (s.setPc (referencePc + displacement))
  | .f => do
    let s ← s.stackPush b s.core.pc
    some (s.setPc (referencePc + displacement))
  | cond =>
    if bccTaken cond (flags s.core.sr) then some (s.setPc (referencePc + displacement)) else some s

/-- `execute` of Scc. -/
def executeScc : Option (State δ) := do
  let (_, code, s) ← s.memoryRetrFromPc b b.uninit 16
  let (ok, destination, s) ← s.eaGetFromPc b 8 0 (bits3 code 0)
  if !ok then some s
  else
    let result := sccResult (condition code) (flags s.core.sr)
    s.eaPutValue b destination (if result then 0xFF else 0)

end State

/-- What a condition says of `d` and `s` after they were compared. -/
def Condition.Relation (d s : Uint32) : Condition → Prop
  | .t => True
  | .f => False
  | .hi => s.toNat < d.toNat
  | .ls => d.toNat ≤ s.toNat
  | .cc => s.toNat ≤ d.toNat
  | .cs => d.toNat < s.toNat
  | .ne => d ≠ s
  | .eq => d = s
  | .vc => (d - s).toInt = d.toInt - s.toInt
  | .vs => (d - s).toInt ≠ d.toInt - s.toInt
  | .pl => 0 ≤ (d - s).toInt
  | .mi => (d - s).toInt < 0
  | .ge => s.toInt ≤ d.toInt
  | .lt => d.toInt < s.toInt
  | .gt => s.toInt < d.toInt
  | .le => d.toInt ≤ s.toInt

/-- The codes that are a condition of a branch. -/
def Condition.IsBcc (c : Condition) : Prop := c ≠ .t ∧ c ≠ .f

/-- The flags that say how `d` and `s` compare. -/
structure Compared (d s : Uint32) (f : Flags) : Prop where
  c : f.c = true ↔ d.toNat < s.toNat
  z : f.z = true ↔ d = s
  n : f.n = true ↔ (d - s).toInt < 0
  v : f.v = true ↔ (d - s).toInt ≠ d.toInt - s.toInt
  less : (f.n ^^ f.v) = true ↔ d.toInt < s.toInt

theorem compared_srSet (d s sr : Uint32) (x : Bool) :
    Compared d s { flags (srSet .sub s d (d - s) sr) with x := x } := by
  have hr : d - s = SubWithBorrow.diff d s false := (SubWithBorrow.diff_false d s).symm
  have hf := flags_diff false false s d sr
  simp only [srSet, not_sle_zero, hr] at hf ⊢
  rw [hf]
  refine ⟨SubWithBorrow.borrow_false_eq_true_iff d s, ?_, ?_, ?_, ?_⟩
  · simp only [Flags.of, zAfter, Bool.not_false, Bool.true_or, Bool.and_true, beq_iff_eq]
    exact SubWithBorrow.diff_false_eq_zero_iff d s
  · rw [hr]
    change (SubWithBorrow.diff d s false).msb = true ↔ _
    rw [BitVec.msb_eq_toInt, decide_eq_true_iff]
  · simp [Flags.of, SubWithBorrow.overflow]
  · exact SubWithBorrow.msb_xor_overflow_eq_true_iff d s (by decide)

/-- A branch is taken where its relation holds. -/
theorem bccTaken_iff {d s : Uint32} {f : Flags} (h : Compared d s f) {cond : Condition}
    (hc : cond.IsBcc) : bccTaken cond f = true ↔ cond.Relation d s := by
  obtain ⟨hcy, hz, hn, hv, hl⟩ := h
  have hd : d = s ↔ d.toNat = s.toNat := BitVec.toNat_inj.symm
  have hi : d = s ↔ d.toInt = s.toInt := BitVec.toInt_inj.symm
  have hge : (f.n && f.v || !f.n && !f.v) = !(f.n ^^ f.v) := by
    cases f.n <;> cases f.v <;> rfl
  have hlt : (f.n && !f.v || !f.n && f.v) = (f.n ^^ f.v) := by
    cases f.n <;> cases f.v <;> rfl
  have hgt : (f.n && f.v && !f.z || !f.n && !f.v && !f.z) = (!(f.n ^^ f.v) && !f.z) := by
    cases f.n <;> cases f.v <;> cases f.z <;> rfl
  have hle : (f.z || f.n && !f.v || !f.n && f.v) = (f.z || (f.n ^^ f.v)) := by
    cases f.n <;> cases f.v <;> cases f.z <;> rfl
  cases cond with
  | t => exact absurd rfl hc.1
  | f => exact absurd rfl hc.2
  | hi =>
    simp only [bccTaken, Condition.Relation, Bool.and_eq_true, Bool.not_eq_true',
      ← Bool.not_eq_true, hcy, hz, hd]
    omega
  | ls =>
    simp only [bccTaken, Condition.Relation, Bool.or_eq_true, hcy, hz, hd]
    omega
  | cc =>
    simp only [bccTaken, Condition.Relation, Bool.not_eq_true', ← Bool.not_eq_true, hcy]
    omega
  | cs => exact hcy
  | ne => simp only [bccTaken, Condition.Relation, Bool.not_eq_true', ← Bool.not_eq_true, hz, ne_eq]
  | eq => exact hz
  | vc =>
    simp only [bccTaken, Condition.Relation, Bool.not_eq_true', ← Bool.not_eq_true, hv, not_not,
      ne_eq]
  | vs => exact hv
  | pl =>
    simp only [bccTaken, Condition.Relation, Bool.not_eq_true', ← Bool.not_eq_true, hn]
    omega
  | mi => exact hn
  | ge =>
    simp only [bccTaken, Condition.Relation, hge, Bool.not_eq_true', ← Bool.not_eq_true, hl]
    omega
  | lt =>
    rw [bccTaken, hlt]
    exact hl
  | gt =>
    simp only [bccTaken, Condition.Relation, hgt, Bool.and_eq_true, Bool.not_eq_true',
      ← Bool.not_eq_true, hl, hz, hi]
    omega
  | le =>
    simp only [bccTaken, Condition.Relation, hle, Bool.or_eq_true, hl, hz, hi]
    omega

/-- SHI is the one set that differs from its branch, where the carry is set. -/
theorem sccResult_eq_iff {cond : Condition} (hc : cond.IsBcc) (f : Flags) :
    sccResult cond f = bccTaken cond f ↔ ¬(cond = .hi ∧ f.c = true) := by
  cases cond with
  | t => exact absurd rfl hc.1
  | f => exact absurd rfl hc.2
  | hi => cases hf : f.c <;> simp [sccResult, bccTaken, hf]
  | _ => simp [sccResult, bccTaken]

namespace State

variable {δ : Type} {b : Board δ} {s t u v w : State δ}

/-- A branch fetched: `w` is the state after it, `displacement` its byte, or its second word
where the byte is 0. -/
structure BccFetched (b : Board δ) (s : State δ) (code displacement : Uint32) (w : State δ) :
    Prop where
  pc : w.core.pc = s.core.pc + (if signed 8 code = 0 then 4 else 2)
  byte : signed 8 code ≠ 0 → displacement = signed 8 code
  word : signed 8 code = 0 → ∃ (u : State δ) (ok : Bool) (ext : Uint32),
    u.core.pc = s.core.pc + 2 ∧ u.memoryRetrFromPc b 0 16 = some (ok, ext, w) ∧
      displacement = signed 16 ext
  sr : w.core.sr = s.core.sr

theorem bccFetched {ok : Bool} {code displacement : Uint32}
    (hu : s.memoryRetrFromPc b b.uninit 16 = some (ok, code, u))
    (hw : u.bccDisplacement b code = some (displacement, w)) :
    s.BccFetched b code displacement w := by
  have hpc : u.core.pc = s.core.pc + 2 := by
    rw [(memoryRetrFromPc_keeps (.inr (.inl rfl)) hu).core]
    rfl
  have hsr := (fetchOnly_memoryRetrFromPc hu).sr
  unfold bccDisplacement at hw
  by_cases h0 : signed 8 code = 0
  · rw [show toChar code = 0 from h0, if_pos rfl] at hw
    simp only [Option.bind_eq_bind] at hw
    obtain ⟨⟨ok', ext, x⟩, hx, hw⟩ := Option.bind_eq_some_iff.mp hw
    cases hw
    refine ⟨?_, fun h => absurd h0 h, fun _ => ⟨u, ok', ext, hpc, hx, rfl⟩, ?_⟩
    · rw [if_pos h0, (memoryRetrFromPc_keeps (.inr (.inl rfl)) hx).core]
      simp only [hpc, bytesFromPc]
      rw [BitVec.add_assoc]
      rfl
    · exact (fetchOnly_memoryRetrFromPc hx).sr.trans hsr
  · change (if signed 8 code = 0 then _ else some (signed 8 code, u)) = _ at hw
    rw [if_neg h0] at hw
    cases hw
    refine ⟨?_, fun _ => rfl, fun h => absurd h h0, hsr⟩
    rw [if_neg h0, hpc]

/-- What a branch does, when its condition is that of the flags. -/
structure BccRuns (b : Board δ) (s : State δ) (code displacement : Uint32) (w : State δ)
    (relation : Condition → Prop) : Prop where
  bra : condition code = .t → s.executeBcc b = some (w.setPc (s.core.pc + 2 + displacement))
  bsr : condition code = .f → s.executeBcc b = (w.stackPush b w.core.pc).map
    (·.setPc (s.core.pc + 2 + displacement))
  taken : (condition code).IsBcc → relation (condition code) →
    s.executeBcc b = some (w.setPc (s.core.pc + 2 + displacement))
  notTaken : (condition code).IsBcc → ¬relation (condition code) → s.executeBcc b = some w

theorem bccRuns {ok : Bool} {code displacement : Uint32} {relation : Condition → Prop}
    (hu : s.memoryRetrFromPc b b.uninit 16 = some (ok, code, u))
    (hw : u.bccDisplacement b code = some (displacement, w))
    (hrel : ∀ c : Condition, c.IsBcc → (bccTaken c (flags s.core.sr) = true ↔ relation c)) :
    s.BccRuns b code displacement w relation := by
  have hsr := (bccFetched hu hw).sr
  have he : ∀ c, condition code = c → c.IsBcc → s.executeBcc b =
      if bccTaken c (flags s.core.sr) then some (w.setPc (s.core.pc + 2 + displacement))
      else some w := by
    intro c hc hb
    simp only [executeBcc, hu, hw, hc, hsr, Option.bind_eq_bind, Option.bind_some]
    cases c <;> first | rfl | exact absurd rfl hb.1 | exact absurd rfl hb.2
  refine ⟨fun hc => ?_, fun hc => ?_, fun hc hr => ?_, fun hc hr => ?_⟩
  · simp only [executeBcc, hu, hw, hc, Option.bind_eq_bind, Option.bind_some]
  · simp only [executeBcc, hu, hw, hc, Option.bind_eq_bind, Option.bind_some]
    cases w.stackPush b w.core.pc <;> rfl
  · rw [he _ rfl hc, if_pos ((hrel _ hc).mpr hr)]
  · rw [he _ rfl hc, if_neg fun h => hr ((hrel _ hc).mp h)]

/-- What a set writes to the low byte of its register. -/
structure SccRuns (b : Board δ) (s : State δ) (code : Uint32) (low : BitVec 8) : Prop where
  runs : ∃ t w, s.executeScc b = some t ∧ s.FetchOnly w ∧
    t = w.setD (bits3 code 0) (t.core.d (bits3 code 0)) ∧
    (t.core.d (bits3 code 0)).setWidth 8 = low ∧
    ∀ i, 8 ≤ i → (t.core.d (bits3 code 0)).getLsbD i = (s.core.d (bits3 code 0)).getLsbD i

theorem sccRuns {ok : Bool} {code : Uint32}
    (hu : s.memoryRetrFromPc b b.uninit 16 = some (ok, code, u)) :
    s.SccRuns b code (if sccResult (condition code) (flags s.core.sr) then 0xFF else 0) := by
  have hf := fetchOnly_memoryRetrFromPc hu
  rw [← hf.sr]
  let value : Uint32 := if sccResult (condition code) (flags u.core.sr) then 0xFF else 0
  let x := inserted 8 (u.core.d (bits3 code 0)) value
  have he : s.executeScc b = some (u.setD (bits3 code 0) x) := by
    simp only [executeScc, hu, Option.bind_eq_bind, Option.bind_some]
    exact eaPutValue_of_d (b := b) (s := u) (a := ⟨8, 0, bits3 code 0, 0xdeadbeef, 0⟩) rfl value
  have hx : (u.setD (bits3 code 0) x).core.d (bits3 code 0) = x := Function.update_self ..
  refine ⟨⟨_, u, he, hf, by rw [hx], ?_, fun i hi => ?_⟩⟩
  · rw [hx]
    refine (setWidth_insert_char _ _).trans ?_
    simp only [value]
    split <;> rfl
  · rw [hx, getLsbD_inserted (.inl rfl) _ _ hi, hf.d]

/-- A compare and what comes after it with its flags: a branch is taken where its relation holds,
to the documented address; and a set has the condition of its branch but for SHI with `d` below
`s`. -/
theorem compare_branch (b : Board δ) {s t u : State δ} {o : Operands}
    (ho : s.operands b .cmp = some (some o, u)) (ht : s.executeArith b .cmp = some t)
    {v w : State δ} (hv : v.core.sr = t.core.sr) {ok : Bool} {code : Uint32}
    (hw : v.memoryRetrFromPc b b.uninit 16 = some (ok, code, w)) :
    (∀ displacement x, w.bccDisplacement b code = some (displacement, x) →
      v.BccFetched b code displacement x ∧
        v.BccRuns b code displacement x (·.Relation o.dvalue o.svalue)) ∧
    ((condition code).IsBcc →
      (v.SccRuns b code (if bccTaken (condition code) (flags v.core.sr) then 0xFF else 0) ↔
        ¬(condition code = .hi ∧ o.dvalue.toNat < o.svalue.toNat))) ∧
    (condition code = .t → v.SccRuns b code 0xFF) ∧ (condition code = .f → v.SccRuns b code 0) := by
  have hcmp : Compared o.dvalue o.svalue (flags v.core.sr) := by
    rw [hv, (executeCmp ho ht).2]
    exact compared_srSet _ _ _ _
  have hs := sccRuns hw
  refine ⟨fun displacement x hx => ⟨bccFetched hw hx, bccRuns hw hx fun c hc =>
    bccTaken_iff hcmp hc⟩, fun hc => ?_, fun hc => ?_, fun hc => ?_⟩
  · rw [← hcmp.c, ← sccResult_eq_iff hc]
    constructor
    · intro h
      obtain ⟨y, -, hy, -, -, hlow, -⟩ := hs.runs
      obtain ⟨y', -, hy', -, -, hlow', -⟩ := h.runs
      obtain rfl := Option.some.inj (hy.symm.trans hy')
      have := hlow.symm.trans hlow'
      revert this
      cases sccResult (condition code) (flags v.core.sr) <;>
        cases bccTaken (condition code) (flags v.core.sr) <;> decide
    · intro h
      rwa [h] at hs
  · rwa [hc] at hs
  · rwa [hc] at hs

/-- CMP.L D0,D1 and SHI D2, with D1 below D0. -/
def comparePair : State Unit :=
  { plainState with
    core := { plainState.core with d := fun r => if r = 0 then 1 else 0 }
    ram := fun _ k => if k = 0x102 then 0xB2 else if k = 0x103 then 0x80 else if k = 0x104 then 0x52
      else 0xC2 }

/-- The state after the compare. -/
def comparePairAfter : State Unit := (comparePair.executeArith plainBoard .cmp).getD comparePair

/-- The set after the compare is not that of its branch. -/
theorem compare_branch_pair :
    ∃ code, condition code = .hi ∧
      ¬comparePairAfter.SccRuns plainBoard code
        (if bccTaken (condition code) (flags comparePairAfter.core.sr) then 0xFF else 0) := by
  have hcode : comparePairAfter.memoryRetrFromPc plainBoard plainBoard.uninit 16 =
      some (true, 0x52C2, comparePairAfter.setPc 0x106) := rfl
  have h := (compare_branch plainBoard (s := comparePair) (t := comparePairAfter)
    (o := ⟨1, 0, ⟨32, 0, 1, 0xdeadbeef, 0⟩⟩) rfl rfl (v := comparePairAfter) rfl hcode).2.1
      ⟨by decide, by decide⟩
  exact ⟨0x52C2, rfl, fun hr => h.mp hr ⟨rfl, by decide⟩⟩

/-- SHI writes 0xFF and BHI would not be taken. -/
theorem not_compare_branch : ¬∀ (b : Board Unit) (s t u v w : State Unit) (o : Operands) (ok : Bool)
    (code : Uint32), s.operands b .cmp = some (some o, u) → s.executeArith b .cmp = some t →
      v.core.sr = t.core.sr → v.memoryRetrFromPc b b.uninit 16 = some (ok, code, w) →
      (condition code).IsBcc →
      v.SccRuns b code (if bccTaken (condition code) (flags v.core.sr) then 0xFF else 0) := by
  intro h
  have hs := h plainBoard comparePair comparePairAfter _ comparePairAfter _
    ⟨1, 0, ⟨32, 0, 1, 0xdeadbeef, 0⟩⟩ true 0x52C2 rfl rfl rfl rfl ⟨by decide, by decide⟩
  obtain ⟨y, -, hy, -, -, hlow, -⟩ := hs.runs
  have hr : (comparePairAfter.executeScc plainBoard).map (fun y => (y.core.d 2).setWidth 8) =
      some 0xFF#8 := by decide
  rw [hy] at hr
  exact absurd ((Option.some.inj hr).symm.trans hlow) (by decide)

end State

end SkyEye.ColdFire
