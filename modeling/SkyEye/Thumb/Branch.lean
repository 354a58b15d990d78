import SkyEye.Thumb.Preserves

/-!
# Thumb branches

The decoder carries out branches itself. A `BL` is two instructions; when the decoder sees
the second one behind the first it does both at once, otherwise the emulation loop goes
round once more. Both ways lead to one state, and every branch to its target.
-/

namespace SkyEye

namespace State

variable {U : Type}

/-- The switch over `state->NextInstr` at the head of the emulation loop: the address of the
next instruction, with register 15 two instructions ahead of it. -/
def nextInstruction (s : State U) (pc : ARMword) : ARMword × State U :=
  if s.nextInstr = 0 ∨ s.nextInstr = 1 then
    (pc + s.insnSize, { s.setReg 15 (s.reg 15 + s.insnSize) with nextInstr := 0 })
  else if s.nextInstr = 2 ∨ s.nextInstr = 3 then (pc + s.insnSize, { s with nextInstr := 0 })
  else
    (s.reg 15,
      { s.setReg 15 (s.reg 15 + s.insnSize * 2) with nextInstr := 0, aborted := 0, abortAddr := 1 })

end State

namespace Thumb

variable {U : Type}

/-- The loop is about to decode the Thumb instruction at `pc`. -/
structure Fetched (s : State U) (pc : ARMword) : Prop where
  tFlag : s.tFlag = true
  pc : s.reg 15 = pc + 4
  nextInstr : s.nextInstr = 0

/-- An instruction and the one behind it, as the decoder gets them. -/
def fetchedWord (bigend : Bool) (instr next : BitVec 16) : ARMword :=
  if bigend then instr ++ next else next ++ instr

/-! ## Targets -/

/-- The two parts of a `BL` -/
def IsBlPrefix (h : BitVec 16) : Prop := field h 11 5 = 30
def IsBlSuffix (h : BitVec 16) : Prop := field h 11 5 = 31

instance (h : BitVec 16) : Decidable (IsBlSuffix h) := Nat.decEq ..

/-- A number of halfwords, with a sign. -/
def halfwords {n : Nat} (v : BitVec n) : ARMword := v.signExtend 32 <<< 1

/-- The target of the `BL` at `pc`: 22 bits of offset. -/
def blTarget (pc : ARMword) (p q : BitVec 16) : ARMword :=
  pc + 4 + halfwords (p.extractLsb' 0 11 ++ q.extractLsb' 0 11)

/-- `Bcc`: no condition is 14 or 15. -/
def IsCondBranch (h : BitVec 16) : Prop := field h 12 4 = 13 ∧ field h 8 4 < 14

def condTarget (pc : ARMword) (h : BitVec 16) : ARMword :=
  pc + 4 + halfwords (h.extractLsb' 0 8)

/-- `B` -/
def IsBranch (h : BitVec 16) : Prop := field h 11 5 = 28

def branchTarget (pc : ARMword) (h : BitVec 16) : ARMword :=
  pc + 4 + halfwords (h.extractLsb' 0 11)

/-- The conditions come in pairs; the low bit negates. -/
def condPassed (s : State U) (cond : BitVec 4) : Bool :=
  cond.getLsbD 0 ^^
    match (cond.extractLsb' 1 3).toNat with
    | 0 => s.zFlag
    | 1 => s.cFlag
    | 2 => s.nFlag
    | 3 => s.vFlag
    | 4 => s.cFlag && !s.zFlag
    | 5 => s.nFlag == s.vFlag
    | 6 => !s.zFlag && s.nFlag == s.vFlag
    | _ => true

variable {s : State U} {pc : ARMword} {p q x y h : BitVec 16}

/-! ## The halves -/

theorem append_low (a b : BitVec 16) : (a ++ b : ARMword) &&& 0xFFFF = b.setWidth 32 := by
  have hm : (0xFFFF : ARMword) = BitVec.ofNat 32 (2 ^ 16 - 1) := by decide
  apply BitVec.eq_of_getLsbD_eq
  intro i hi
  rw [BitVec.getLsbD_and, BitVec.getLsbD_append, BitVec.getLsbD_setWidth, hm,
    BitVec.getLsbD_ofNat, Nat.testBit_two_pow_sub_one]
  by_cases h : i < 16
  · simp [h, hi]
  · rw [BitVec.getLsbD_of_ge b i (by omega), decide_eq_false h, Bool.and_false, Bool.and_false]

theorem append_high (a b : BitVec 16) : (a ++ b : ARMword) >>> 16 = a.setWidth 32 := by
  apply BitVec.eq_of_getLsbD_eq
  intro i hi
  have h16 : ¬16 + i < 16 := by omega
  rw [BitVec.getLsbD_ushiftRight, BitVec.getLsbD_append, BitVec.getLsbD_setWidth,
    if_neg h16, decide_eq_true hi, Nat.add_sub_cancel_left, Bool.true_and]

/-- The decoder takes the halves apart as they were put together. -/
theorem fetchedWord_instr (bigend : Bool) (a b : BitVec 16) :
    (if bigend then fetchedWord bigend a b >>> 16 else fetchedWord bigend a b &&& 0xFFFF) =
      a.setWidth 32 := by
  cases bigend
  · exact append_low b a
  · exact append_high a b

theorem fetchedWord_next (bigend : Bool) (a b : BitVec 16) :
    (if bigend then fetchedWord bigend a b &&& 0xFFFF else fetchedWord bigend a b >>> 16) =
      b.setWidth 32 := by
  cases bigend
  · exact append_high b a
  · exact append_low a b

theorem opcode_eq (h : BitVec 16) : ((h.setWidth 32 &&& 0xF800) >>> 11).toNat = field h 11 5 :=
  ThumbFormat.code_eq h 0xF800 11 5 (by decide)

/-! ## Offsets -/

/-- A number of `n + 1` bits moved up by one, its sign put in apart. -/
theorem offset_eq (h : BitVec 16) {n : Nat} (hn : n < 16) {sign mask top : ARMword}
    (hsign : isSet (h.setWidth 32) sign = h.getLsbD n)
    (hmask : ∀ i < 32, mask.getLsbD i = decide (i < n))
    (htop : ∀ i < 32, top.getLsbD i = decide (n < i)) :
    ((h.setWidth 32 &&& mask) <<< 1 ||| if isSet (h.setWidth 32) sign then top else 0) =
      halfwords (h.extractLsb' 0 (n + 1)) := by
  have hm : (h.extractLsb' 0 (n + 1)).msb = h.getLsbD n := by
    rw [BitVec.msb_eq_getLsbD_last, BitVec.getLsbD_extractLsb', decide_eq_true (by omega),
      Bool.true_and, Nat.add_sub_cancel, Nat.zero_add]
  have htop' : ∀ i < 32, (if h.getLsbD n then top else 0).getLsbD i =
      (decide (n < i) && h.getLsbD n) := by
    intro i hi
    cases h.getLsbD n
    · simp
    · simp [htop i hi]
  rw [hsign, halfwords]
  apply BitVec.eq_of_getLsbD_eq
  intro i hi
  rw [BitVec.getLsbD_or, htop' i hi, BitVec.getLsbD_shiftLeft, BitVec.getLsbD_shiftLeft]
  rcases i with _ | i
  · simp
  · rw [BitVec.getLsbD_and, hmask _ (by omega), BitVec.getLsbD_setWidth,
      BitVec.getLsbD_signExtend, BitVec.getLsbD_extractLsb', hm, Nat.zero_add,
      Nat.add_sub_cancel]
    rcases Nat.lt_trichotomy i n with hlt | rfl | hgt
    · simp [hlt, hi, show i < n + 1 by omega, show i < 32 by omega, show ¬n < i + 1 by omega]
    · simp [hi, show i < 32 by omega]
    · simp [hi, show ¬i < n by omega, show ¬i < n + 1 by omega, show n < i + 1 by omega,
        show i < 32 by omega]

theorem offset8_eq (h : BitVec 16) :
    ((h.setWidth 32 &&& 0x7F) <<< 1 ||| if isSet (h.setWidth 32) 0x80 then 0xFFFFFF00 else 0) =
      halfwords (h.extractLsb' 0 8) :=
  offset_eq h (n := 7) (by omega) (ThumbFormat.isSet_twoPow h (k := 7) (by omega)) (by decide)
    (by decide)

theorem offset11_eq (h : BitVec 16) :
    ((h.setWidth 32 &&& 0x3FF) <<< 1 ||| if isSet (h.setWidth 32) 0x400 then 0xFFFFF800 else 0) =
      halfwords (h.extractLsb' 0 11) :=
  offset_eq h (n := 10) (by omega) (ThumbFormat.isSet_twoPow h (k := 10) (by omega)) (by decide)
    (by decide)

/-- The two parts of a `BL`'s offset. -/
theorem offset22_eq (p q : BitVec 16) {tp tq : ARMword} (hp : tp = p.setWidth 32)
    (hq : tq = q.setWidth 32) :
    (((tp &&& 0x07FF) <<< 12) ||| (if isSet tp 0x400 then 0xFF800000 else 0 : ARMword)) +
        ((tq &&& 0x07FF) <<< 1) =
      halfwords (p.extractLsb' 0 11 ++ q.extractLsb' 0 11) := by
  subst hp hq
  have hb : isSet (p.setWidth 32) 0x400 = p[10] :=
    ThumbFormat.isSet_twoPow p (k := 10) (by decide)
  have hm : (p.extractLsb' 0 11 ++ q.extractLsb' 0 11).msb = p[10] := by
    rw [BitVec.msb_eq_getLsbD_last, BitVec.getLsbD_append, BitVec.getLsbD_extractLsb',
      BitVec.getLsbD_extractLsb']
    rfl
  have hlow : (0x07FF : ARMword) = BitVec.ofNat 32 (2 ^ 11 - 1) := by decide
  have htop : ∀ i < 32, (if p[10] then 0xFF800000 else 0 : ARMword).getLsbD i =
      (decide (22 < i) && p[10]) := by
    have h : ∀ i < 32, (0xFF800000 : ARMword).getLsbD i = decide (22 < i) := by decide
    intro i hi
    cases p[10]
    · simp
    · rw [if_pos rfl, h i hi, Bool.and_true]
  rw [hb, BitVec.add_eq_or_of_and_eq_zero, halfwords]
  · apply BitVec.eq_of_getLsbD_eq
    intro i hi
    rw [BitVec.getLsbD_or, BitVec.getLsbD_or, htop i hi, BitVec.getLsbD_shiftLeft,
      BitVec.getLsbD_shiftLeft, BitVec.getLsbD_shiftLeft]
    rcases i with _ | i
    · simp
    rw [BitVec.getLsbD_and, BitVec.getLsbD_and, hlow, BitVec.getLsbD_ofNat, BitVec.getLsbD_ofNat,
      Nat.testBit_two_pow_sub_one, Nat.testBit_two_pow_sub_one, BitVec.getLsbD_setWidth,
      BitVec.getLsbD_setWidth, BitVec.getLsbD_signExtend, BitVec.getLsbD_append,
      BitVec.getLsbD_extractLsb', BitVec.getLsbD_extractLsb', hm]
    rcases Nat.lt_or_ge i 11 with h11 | h11
    · simp [h11, hi, show i + 1 < 12 by omega, show ¬22 < i + 1 by omega, show i < 32 by omega,
        show i < 22 by omega]
    rcases Nat.lt_or_ge i 22 with h22 | h22
    · simp [h22, hi, show ¬i < 11 by omega, show ¬i + 1 < 12 by omega, show ¬22 < i + 1 by omega,
        show i < 32 by omega, show i - 11 < 11 by omega, show i - 11 < 32 by omega]
    · simp [hi, show ¬i < 11 by omega, show ¬i < 22 by omega, show ¬i + 1 < 12 by omega,
        show ¬i - 11 < 11 by omega, show 22 < i + 1 by omega, show i < 32 by omega]
  · -- the suffix has the low twelve bits for itself
    apply BitVec.eq_of_getLsbD_eq
    intro i hi
    rw [BitVec.getLsbD_and, BitVec.getLsbD_or, htop i hi, BitVec.getLsbD_shiftLeft,
      BitVec.getLsbD_shiftLeft, BitVec.getLsbD_and, BitVec.getLsbD_and, hlow,
      BitVec.getLsbD_ofNat, BitVec.getLsbD_ofNat, Nat.testBit_two_pow_sub_one,
      Nat.testBit_two_pow_sub_one]
    by_cases h12 : i < 12
    · simp [h12, show ¬22 < i by omega]
    · simp [show ¬i - 1 < 11 by omega]

/-! ## Decoding -/

theorem decode_prefix (s : State U) (pc : ARMword) (hp : IsBlPrefix p) :
    s.thumbDecode pc (fetchedWord s.bigendSig p q) = .branch
      (if IsBlSuffix q then (s.thumbBlPrefix (p.setWidth 32)).thumbBlSuffix (pc + 2) (q.setWidth 32)
        else s.thumbBlPrefix (p.setWidth 32)) := by
  rw [State.thumbDecode]
  dsimp only
  rw [fetchedWord_instr, fetchedWord_next, opcode_eq, opcode_eq, show field p 11 5 = 30 from hp]
  by_cases hq : IsBlSuffix q
  · rw [if_pos hq]
    exact if_pos hq
  · rw [if_neg hq]
    exact if_neg hq

theorem decode_suffix (s : State U) (pc : ARMword) (hq : IsBlSuffix q) :
    s.thumbDecode pc (fetchedWord s.bigendSig q x) =
      .branch (s.thumbBlSuffix pc (q.setWidth 32)) := by
  rw [State.thumbDecode]
  dsimp only
  rw [fetchedWord_instr, opcode_eq, show field q 11 5 = 31 from hq]
  rfl

theorem decode_branch (s : State U) (pc : ARMword) (hh : IsBranch h) :
    s.thumbDecode pc (fetchedWord s.bigendSig h x) =
      .branch (s.thumbBranch pc (h.setWidth 32)) := by
  rw [State.thumbDecode]
  dsimp only
  rw [fetchedWord_instr, opcode_eq, show field h 11 5 = 28 from hh]
  rfl

theorem cond_field (h : BitVec 16) :
    ((h.setWidth 32 &&& 0x0F00) >>> 8).toNat = field h 8 4 :=
  ThumbFormat.code_eq h 0x0F00 8 4 (by decide)

theorem decode_condBranch (s : State U) (pc : ARMword) (hh : IsCondBranch h) :
    s.thumbDecode pc (fetchedWord s.bigendSig h x) =
      .branch (s.thumbCondBranch pc (h.setWidth 32)) := by
  obtain ⟨h13, h14⟩ := hh
  have hop : field h 11 5 = 26 ∨ field h 11 5 = 27 := by
    have : field h 11 5 / 2 = field h 12 4 := field_div h 11 1 4
    omega
  have hF : ¬ h.setWidth 32 &&& 0x0F00 = 0x0F00 := fun he => by
    have hc := cond_field h
    rw [he] at hc
    have : 15 = field h 8 4 := hc
    omega
  have hE : ¬ h.setWidth 32 &&& 0x0F00 = 0x0E00 := fun he => by
    have hc := cond_field h
    rw [he] at hc
    have : 14 = field h 8 4 := hc
    omega
  rw [State.thumbDecode]
  dsimp only
  rw [fetchedWord_instr, opcode_eq]
  rcases hop with hop | hop <;> rw [hop]
  · exact (if_neg hF).trans (if_neg hE)
  · exact (if_neg hF).trans (if_neg hE)

/-- The conditions of the source are the architecture's. -/
theorem thumbCondition_eq (s : State U) (hh : IsCondBranch h) :
    s.thumbCondition (field h 8 4) = condPassed s (h.extractLsb' 8 4) := by
  have h14 : (h.extractLsb' 8 4).toNat < 14 := hh.2
  rw [field]
  generalize h.extractLsb' 8 4 = c at h14
  obtain ⟨n, rfl, hn⟩ : ∃ n : Nat, c = BitVec.ofNat 4 n ∧ n < 14 :=
    ⟨c.toNat, (BitVec.ofNat_toNat 4 c).symm, h14⟩
  rw [condPassed]
  interval_cases n <;> simp [State.thumbCondition] <;>
    cases s.nFlag <;> cases s.zFlag <;> cases s.cFlag <;> cases s.vFlag <;> rfl

/-! ## What a branch leaves -/

/-- The loop goes on at `target`, with `link` in register 14. -/
structure BranchedTo (s t : State U) (pc target link : ARMword) : Prop where
  reg : ∀ r, r ≠ 15 → t.reg r = if r = 14 then link else s.reg r
  next : (t.nextInstruction pc).1 = target
  fetched : Fetched (t.nextInstruction pc).2 target

theorem flushed_nextInstruction (hn : s.nextInstr = 0) (v : ARMword) :
    ((s.setReg 15 v).flushPipe.nextInstruction pc) = (v,
      { s.setReg 15 (v + s.insnSize * 2) with nextInstr := 0, aborted := 0, abortAddr := 1 }) := by
  have hz : (s.setReg 15 v).flushPipe.insnSize = s.insnSize := rfl
  have h4 : (s.setReg 15 v).flushPipe.nextInstr = 4 := by
    show s.nextInstr ||| PRIMEPIPE = 4
    rw [hn]
    rfl
  rw [State.nextInstruction, h4, hz, if_neg (by decide), if_neg (by decide)]
  simp [State.flushPipe, State.setReg]

theorem branchedTo (hs : Fetched s pc) (pc' v : ARMword) :
    BranchedTo s (s.setReg 15 v).flushPipe pc' v (s.reg 14) := by
  refine ⟨fun r hr => ?_, ?_, ?_⟩
  · show (s.setReg 15 v).reg r = _
    rw [State.setReg_reg_of_ne hr]
    split
    · rename_i h
      rw [h]
    · rfl
  · rw [flushed_nextInstruction hs.nextInstr]
  · rw [flushed_nextInstruction hs.nextInstr]
    refine ⟨hs.tFlag, ?_, rfl⟩
    rw [State.insnSize, hs.tFlag]
    exact State.setReg_reg_self (s := s) 15 _

theorem sequential (hs : Fetched s pc) :
    s.nextInstruction pc = (pc + 2, { s.setReg 15 (pc + 2 + 4) with nextInstr := 0 }) := by
  rw [State.nextInstruction, hs.nextInstr, if_pos (.inl rfl), State.insnSize, hs.tFlag, hs.pc,
    if_pos rfl, BitVec.add_assoc, BitVec.add_comm 4, ← BitVec.add_assoc]

theorem blSuffix_eq (hs : Fetched s pc) (pc' : ARMword) (p q : BitVec 16) :
    (s.thumbBlPrefix (p.setWidth 32)).thumbBlSuffix pc' (q.setWidth 32) =
      ((s.setReg 14 (pc' + 2 ||| 1)).setReg 15 (blTarget pc p q)).flushPipe := by
  have ht : (s.thumbBlPrefix (p.setWidth 32)).reg 14 + ((q.setWidth 32 &&& 0x07FF) <<< 1) =
      blTarget pc p q := by
    rw [State.thumbBlPrefix, State.setReg_reg_self, hs.pc, blTarget, ← offset22_eq p q rfl rfl,
      BitVec.add_assoc]
  rw [State.thumbBlSuffix, ht]
  refine congrArg State.flushPipe ?_
  simp only [State.thumbBlPrefix, State.setReg]
  rw [Function.update_comm (by decide : (15 : RegNo) ≠ 14), Function.update_idem]

/-- A suffix looks at register 14 alone. -/
theorem blSuffix_reg15 (hn : s.nextInstr = 0) (v pc' tinstr : ARMword) :
    ({ s.setReg 15 v with nextInstr := 0 } : State U).thumbBlSuffix pc' tinstr =
      s.thumbBlSuffix pc' tinstr := by
  have h14 : (s.setReg 15 v).reg 14 = s.reg 14 := State.setReg_reg_of_ne (by decide) v
  simp only [State.thumbBlSuffix, State.setReg, Function.update_idem, State.flushPipe, hn]
  rw [Function.update_of_ne (by decide : (14 : RegNo) ≠ 15)]

theorem blPrefix_fetched (hs : Fetched s pc) (tinstr : ARMword) :
    Fetched (s.thumbBlPrefix tinstr) pc :=
  ⟨hs.tFlag, (State.setReg_reg_of_ne (by decide) _).trans hs.pc, hs.nextInstr⟩

theorem linked_branchedTo (hs : Fetched s pc) (pc' l v : ARMword) :
    BranchedTo s ((s.setReg 14 l).setReg 15 v).flushPipe pc' v l := by
  have hl : Fetched (s.setReg 14 l) pc :=
    ⟨hs.tFlag, (State.setReg_reg_of_ne (by decide) _).trans hs.pc, hs.nextInstr⟩
  have h14 : (s.setReg 14 l).reg 14 = l := State.setReg_reg_self ..
  have h := branchedTo hl pc' v
  rw [h14] at h
  refine ⟨fun r hr => (h.reg r hr).trans ?_, h.next, h.fetched⟩
  split
  · rfl
  · rename_i hne
    exact State.setReg_reg_of_ne hne l

/-- The second half of a `BL` decoded on its own does what it does behind the first. -/
theorem split_eq (hs : Fetched s pc) (p q y : BitVec 16) (hq : IsBlSuffix q) :
    let r := (s.thumbBlPrefix (p.setWidth 32)).nextInstruction pc
    r.2.thumbDecode r.1 (fetchedWord s.bigendSig q y) =
      .branch ((s.thumbBlPrefix (p.setWidth 32)).thumbBlSuffix (pc + 2) (q.setWidth 32)) := by
  have hp := blPrefix_fetched hs (p.setWidth 32)
  intro r
  have hr : r = _ := sequential hp
  have hb : r.2.bigendSig = s.bigendSig := by
    rw [hr]
    rfl
  rw [← hb, decode_suffix r.2 r.1 hq, hr, blSuffix_reg15 hp.nextInstr]

/-- Every branch goes where the architecture says. A `BL` sets register 14 to the address
behind it, and it makes no difference whether the decoder sees its two halves together. -/
theorem branches_exact (s : State U) (pc : ARMword) (hs : Fetched s pc) :
    (∀ p q x y : BitVec 16, IsBlPrefix p → IsBlSuffix q → ¬ IsBlSuffix x →
      ∃ t t₁ s₁ : State U,
        s.thumbDecode pc (fetchedWord s.bigendSig p q) = .branch t ∧
        s.thumbDecode pc (fetchedWord s.bigendSig p x) = .branch t₁ ∧
        t₁.nextInstruction pc = (pc + 2, s₁) ∧
        s₁.thumbDecode (pc + 2) (fetchedWord s.bigendSig q y) = .branch t ∧
        BranchedTo s t pc (blTarget pc p q) (pc + 4 ||| 1) ∧
        BranchedTo s t (pc + 2) (blTarget pc p q) (pc + 4 ||| 1)) ∧
    (∀ h x : BitVec 16, IsCondBranch h → ∃ t : State U,
      s.thumbDecode pc (fetchedWord s.bigendSig h x) = .branch t ∧
      BranchedTo s t pc
        (if condPassed s (h.extractLsb' 8 4) then condTarget pc h else pc + 2) (s.reg 14)) ∧
    ∀ h x : BitVec 16, IsBranch h → ∃ t : State U,
      s.thumbDecode pc (fetchedWord s.bigendSig h x) = .branch t ∧
      BranchedTo s t pc (branchTarget pc h) (s.reg 14) := by
  refine ⟨fun p q x y hp hq hx => ?_, fun h x hh => ?_, fun h x hh => ?_⟩
  · have hl : pc + 2 + 2 = pc + 4 := by rw [BitVec.add_assoc]; rfl
    have ht := blSuffix_eq hs (pc + 2) p q
    have hd := decode_prefix (q := q) s pc hp
    rw [if_pos hq] at hd
    have hd₁ := decode_prefix (q := x) s pc hp
    rw [if_neg hx] at hd₁
    have hn := sequential (blPrefix_fetched hs (p.setWidth 32))
    have hd₂ := split_eq hs p q y hq
    rw [hn] at hd₂
    rw [hl] at ht
    have hb := fun pc' => linked_branchedTo hs pc' (pc + 4 ||| 1) (blTarget pc p q)
    rw [← ht] at hb
    exact ⟨_, _, _, hd, hd₁, hn, hd₂, hb pc, hb (pc + 2)⟩
  · refine ⟨_, decode_condBranch s pc hh, ?_⟩
    rw [State.thumbCondBranch, cond_field, thumbCondition_eq s hh, offset8_eq]
    split
    · exact branchedTo hs pc _
    · refine ⟨fun r _ => ?_, ?_, ?_⟩
      · split
        · rename_i h14
          rw [h14]
        · rfl
      · rw [sequential hs]
      · rw [sequential hs]
        exact ⟨hs.tFlag, State.setReg_reg_self (s := s) 15 _, rfl⟩
  · refine ⟨_, decode_branch s pc hh, ?_⟩
    rw [State.thumbBranch, offset11_eq]
    exact branchedTo hs pc _


/-- `BL` four bytes on, its two halves apart -/
theorem branches_exact_bl :
    let s : State Arm7100 := { Arm7100.thumb with nextInstr := 0 }
    ∃ t t₁ s₁ : State Arm7100,
      s.thumbDecode 0 0xF802F000 = .branch t ∧ s.thumbDecode 0 0x0000F000 = .branch t₁ ∧
      t₁.nextInstruction 0 = (2, s₁) ∧ s₁.thumbDecode 2 0x0000F802 = .branch t ∧
      BranchedTo s t 0 8 5 := by
  intro s
  have hs : Fetched s 0 := ⟨rfl, rfl, rfl⟩
  obtain ⟨t, t₁, s₁, h, h₁, hn, h₂, hb, -⟩ :=
    (branches_exact s 0 hs).1 0xF000 0xF802 0 0 rfl rfl (by decide)
  exact ⟨t, t₁, s₁, h, h₁, hn, h₂, hb⟩

end Thumb

end SkyEye
