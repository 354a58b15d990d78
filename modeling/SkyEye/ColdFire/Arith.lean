import SkyEye.ColdFire.Addressing
import SkyEye.Lib.MultiWord

/-!
# Arithmetic

`SR_Set` and the instructions ADD, ADDX, SUB, SUBX, NEG, NEGX and CMP. `SR_Set` finds the carry
and the overflow from the signs of the operands and the result. Instructions in a row, each
with the X flag of the one before, add, subtract and negate numbers of any length.
-/

namespace SkyEye.ColdFire

open Sparc (Uint32)

/-- The flags of `SR_Set`. -/
abbrev srC : Uint32 := 0x0001
abbrev srV : Uint32 := 0x0002
abbrev srZ : Uint32 := 0x0004
abbrev srN : Uint32 := 0x0008
abbrev srX : Uint32 := 0x0010

/-- The instructions that `SR_Set` tells apart. -/
inductive SrInstr where
  | add
  | addx
  | sub
  | subx
  | cmp
  | neg
  | negx
  deriving DecidableEq

/-- `if(c) memory_core.sr |= m` -/
def orIf (c : Bool) (m sr : Uint32) : Uint32 := if c then sr ||| m else sr

/-- `SR_Z` of an instruction that only clears it. -/
def stickyZ (result backup sr : Uint32) : Uint32 :=
  if result ≠ 0 then sr else sr ||| backup &&& srZ

/-- `SR_Set` for I_ADD and I_ADDX. -/
def srSetAdd (sticky sm dm rm : Bool) (result backup sr : Uint32) : Uint32 :=
  let sr := orIf rm srN sr
  let sr := if sticky then stickyZ result backup sr else orIf (result == 0) srZ sr
  let sr := orIf (sm && dm && !rm || !sm && !dm && rm) srV sr
  orIf (sm && dm || !rm && dm || sm && !rm) srX (orIf (sm && dm || !rm && dm || sm && !rm) srC sr)

/-- `SR_Set` for I_SUB and I_SUBX. -/
def srSetSub (sticky sm dm rm : Bool) (result backup sr : Uint32) : Uint32 :=
  let sr := orIf rm srN sr
  let sr := if sticky then stickyZ result backup sr else orIf (result == 0) srZ sr
  let sr := orIf (!sm && dm && !rm || sm && !dm && rm) srV sr
  orIf (sm && !dm || rm && !dm || sm && rm) srX (orIf (sm && !dm || rm && !dm || sm && rm) srC sr)

/-- `SR_Set` for I_CMP. -/
def srSetCmp (sm dm rm : Bool) (result backup sr : Uint32) : Uint32 :=
  let sr := orIf rm srN sr
  let sr := orIf (result == 0) srZ sr
  let sr := orIf (!sm && dm && !rm || sm && !dm && rm) srV sr
  let sr := orIf (sm && !dm || rm && !dm || sm && rm) srC sr
  sr ||| backup &&& srX

/-- `SR_Set` for I_NEG and I_NEGX. -/
def srSetNeg (sticky dm rm : Bool) (result backup sr : Uint32) : Uint32 :=
  let sr := orIf rm srN sr
  let sr :=
    if sticky then (if result = 0 then sr ||| backup &&& srZ else sr)
    else orIf (result == 0) srZ sr
  let sr := orIf (dm && rm) srV sr
  orIf (dm || rm) (srC ||| srX) sr

def srSet (instr : SrInstr) (source destination result sr : Uint32) : Uint32 :=
  let sm := !BitVec.sle 0 source
  let dm := !BitVec.sle 0 destination
  let rm := !BitVec.sle 0 result
  let backup := sr
  let sr := sr &&& 0xFFE0
  match instr with
  | .addx => srSetAdd true sm dm rm result backup sr
  | .add => srSetAdd false sm dm rm result backup sr
  | .subx => srSetSub true sm dm rm result backup sr
  | .sub => srSetSub false sm dm rm result backup sr
  | .cmp => srSetCmp sm dm rm result backup sr
  | .neg => srSetNeg false dm rm result backup sr
  | .negx => srSetNeg true dm rm result backup sr

/-- The operands of an instruction, read. -/
structure Operands where
  svalue : Uint32
  dvalue : Uint32
  destination : Address

/-- `Instr.Bits` of ADD, SUB and CMP. -/
def eaMode (code : Uint32) : Fin 8 := bits3 code 3
def eaRegister (code : Uint32) : Fin 8 := bits3 code 0
def opMode (code : Uint32) : Fin 8 := bits3 code 6
def register (code : Uint32) : Fin 8 := bits3 code 9

/-- `SRBits->X` -/
def extendBit (sr : Uint32) : Uint32 := if sr.getLsbD 4 then 1 else 0

namespace State

variable {δ : Type} (b : Board δ) (s : State δ)

/-- Two operands of 32 bits; none where `EA_GetFromPC` fails and the instruction ends. -/
def twoOperands (source destination : Fin 8 × Fin 8) : Option (Option Operands × State δ) := do
  let (ok, src, s) ← s.eaGetFromPc b 32 source.1 source.2
  if !ok then some (none, s)
  else
    let (ok, dst, s) ← s.eaGetFromPc b 32 destination.1 destination.2
    if !ok then some (none, s)
    else
      let (_, svalue, s) ← s.eaGetValue b b.uninit src
      let (_, dvalue, s) ← s.eaGetValue b b.uninit dst
      some (some ⟨svalue, dvalue, dst⟩, s)

/-- The operands of ADD. -/
def operandsAdd (code : Uint32) : Option (Option Operands × State δ) :=
  if opMode code = 2 then s.twoOperands b (eaMode code, eaRegister code) (0, register code)
  else if eaMode code = 0 then some (none, s)
  else if eaMode code = 1 then some (none, s)
  else s.twoOperands b (0, register code) (eaMode code, eaRegister code)

/-- The operands of SUB. -/
def operandsSub (code : Uint32) : Option (Option Operands × State δ) :=
  if opMode code = 2 then s.twoOperands b (eaMode code, eaRegister code) (0, register code)
  else if opMode code = 6 then
    if eaMode code = 0 then some (none, s)
    else if eaMode code = 1 then some (none, s)
    else s.twoOperands b (0, register code) (eaMode code, eaRegister code)
  else some (none, s)

/-- The operands of ADDX and SUBX. -/
def operandsX (code : Uint32) : Option (Option Operands × State δ) :=
  s.twoOperands b (0, bits3 code 0) (0, bits3 code 9)

/-- The operand of NEG and NEGX. `SR_Set` has 0 for the source. -/
def operandsNeg (code : Uint32) : Option (Option Operands × State δ) := do
  let (ok, dst, s) ← s.eaGetFromPc b 32 0 (bits3 code 0)
  if !ok then some (none, s)
  else
    let (_, dvalue, s) ← s.eaGetValue b b.uninit dst
    some (some ⟨0, dvalue, dst⟩, s)

/-- The operands of CMP. -/
def operandsCmp (code : Uint32) : Option (Option Operands × State δ) :=
  s.twoOperands b (eaMode code, eaRegister code) (0, register code)

/-- The operands of the instruction at the program counter. -/
def operands (instr : SrInstr) : Option (Option Operands × State δ) := do
  let (_, code, s) ← s.memoryRetrFromPc b b.uninit 16
  match instr with
  | .add => s.operandsAdd b code
  | .addx => s.operandsX b code
  | .sub => s.operandsSub b code
  | .subx => s.operandsX b code
  | .cmp => s.operandsCmp b code
  | .neg => s.operandsNeg b code
  | .negx => s.operandsNeg b code

def result (instr : SrInstr) (o : Operands) (sr : Uint32) : Uint32 :=
  match instr with
  | .add => o.svalue + o.dvalue
  | .addx => o.svalue + o.dvalue + extendBit sr
  | .sub => o.dvalue - o.svalue
  | .subx => o.dvalue - o.svalue - extendBit sr
  | .cmp => o.dvalue - o.svalue
  | .neg => 0 - o.dvalue
  | .negx => 0 - o.dvalue - extendBit sr

/-- `execute` of the instruction. CMP writes no result. -/
def executeArith (instr : SrInstr) : Option (State δ) := do
  let (o, s) ← s.operands b instr
  match o with
  | none => some s
  | some o =>
    let r := result instr o s.core.sr
    let s := s.setSr (srSet instr o.svalue o.dvalue r s.core.sr)
    if instr = .cmp then some s else s.eaPutValue b o.destination r

end State

/-! ## The flags -/

/-- The flags of a status register. -/
structure Flags where
  x : Bool
  n : Bool
  z : Bool
  v : Bool
  c : Bool
  deriving DecidableEq

def flags (sr : Uint32) : Flags where
  x := sr.getLsbD 4
  n := sr.getLsbD 3
  z := sr.getLsbD 2
  v := sr.getLsbD 1
  c := sr.getLsbD 0

theorem getLsbD_orIf (c : Bool) (m sr : Uint32) (i : Nat) :
    (orIf c m sr).getLsbD i = (sr.getLsbD i || c && m.getLsbD i) := by
  cases c <;> simp [orIf]

theorem getLsbD_stickyZ (result backup sr : Uint32) (i : Nat) :
    (stickyZ result backup sr).getLsbD i =
      (sr.getLsbD i || (result == 0) && (backup &&& srZ).getLsbD i) := by
  unfold stickyZ
  by_cases h : result = 0
  · rw [if_neg (not_not_intro h), BitVec.getLsbD_or, h]
    rfl
  · rw [if_pos h, beq_false_of_ne h, Bool.false_and, Bool.or_false]

theorem not_sle_zero (v : Uint32) : (!BitVec.sle 0 v) = v.msb := by
  rw [show BitVec.sle 0 v = !v.msb from BitVec.zero_sle_eq_not_msb, Bool.not_not]

/-- Z, which the extended instructions only clear. -/
def zAfter (sticky : Bool) (result backup : Uint32) : Bool :=
  (result == 0) && (!sticky || backup.getLsbD 2)

theorem flags_srSetAdd (sticky sm dm rm : Bool) (result backup sr : Uint32) :
    flags (srSetAdd sticky sm dm rm result backup (sr &&& 0xFFE0)) =
      { x := sm && dm || !rm && dm || sm && !rm
        n := rm
        z := zAfter sticky result backup
        v := sm && dm && !rm || !sm && !dm && rm
        c := sm && dm || !rm && dm || sm && !rm } := by
  cases sticky <;>
    simp [-BitVec.getLsbD_eq_getElem, flags, srSetAdd, getLsbD_orIf, getLsbD_stickyZ, zAfter]

theorem flags_srSetSub (sticky sm dm rm : Bool) (result backup sr : Uint32) :
    flags (srSetSub sticky sm dm rm result backup (sr &&& 0xFFE0)) =
      { x := sm && !dm || rm && !dm || sm && rm
        n := rm
        z := zAfter sticky result backup
        v := !sm && dm && !rm || sm && !dm && rm
        c := sm && !dm || rm && !dm || sm && rm } := by
  cases sticky <;>
    simp [-BitVec.getLsbD_eq_getElem, flags, srSetSub, getLsbD_orIf, getLsbD_stickyZ, zAfter]

theorem flags_srSetCmp (sm dm rm : Bool) (result backup sr : Uint32) :
    flags (srSetCmp sm dm rm result backup (sr &&& 0xFFE0)) =
      { flags (srSetSub false sm dm rm result backup (sr &&& 0xFFE0)) with
        x := backup.getLsbD 4 } := by
  rw [flags_srSetSub]
  simp [-BitVec.getLsbD_eq_getElem, flags, srSetCmp, getLsbD_orIf, zAfter]

theorem flags_srSetNeg (sticky dm rm : Bool) (result backup sr : Uint32) :
    flags (srSetNeg sticky dm rm result backup (sr &&& 0xFFE0)) =
      { x := dm || rm
        n := rm
        z := zAfter sticky result backup
        v := dm && rm
        c := dm || rm } := by
  have hz : ∀ sr, (if result = 0 then sr ||| backup &&& srZ else sr) =
      stickyZ result backup sr := fun sr => by
    unfold stickyZ
    split <;> simp_all
  unfold srSetNeg
  simp only [hz]
  cases sticky <;> simp [-BitVec.getLsbD_eq_getElem, flags, getLsbD_orIf, getLsbD_stickyZ, zAfter]

/-- The flags of a result. -/
def Flags.of (r : Uint32) (z carry overflow : Bool) : Flags := ⟨carry, r.msb, z, overflow, carry⟩

theorem flags_sum (sticky c : Bool) (x y sr : Uint32) :
    let r := AddWithCarry.sum x y c
    flags (srSetAdd sticky x.msb y.msb r.msb r sr (sr &&& 0xFFE0)) =
      .of r (zAfter sticky r sr) (AddWithCarry.carry x y c) (AddWithCarry.overflow x y c) := by
  intro r
  simp only [flags_srSetAdd, Flags.of, AddWithCarry.carry_eq_msb x y c (by decide),
    AddWithCarry.overflow_eq_msb x y c (by decide)]
  cases x.msb <;> cases y.msb <;> simp [r]

theorem flags_diff (sticky c : Bool) (x y sr : Uint32) :
    let r := SubWithBorrow.diff y x c
    flags (srSetSub sticky x.msb y.msb r.msb r sr (sr &&& 0xFFE0)) =
      .of r (zAfter sticky r sr) (SubWithBorrow.borrow y x c) (SubWithBorrow.overflow y x c) := by
  intro r
  simp only [flags_srSetSub, Flags.of, SubWithBorrow.borrow_eq_msb y x c (by decide),
    SubWithBorrow.overflow_eq_msb y x c (by decide)]
  cases x.msb <;> cases y.msb <;> simp [r]

theorem flags_negation (sticky c : Bool) (y sr : Uint32) :
    let r := SubWithBorrow.diff 0 y c
    flags (srSetNeg sticky y.msb r.msb r sr (sr &&& 0xFFE0)) =
      .of r (zAfter sticky r sr) (SubWithBorrow.borrow 0 y c) (SubWithBorrow.overflow 0 y c) := by
  intro r
  have h0 : (0 : Uint32).msb = false := rfl
  simp only [flags_srSetNeg, Flags.of, SubWithBorrow.borrow_eq_msb 0 y c (by decide),
    SubWithBorrow.overflow_eq_msb 0 y c (by decide), h0]
  cases y.msb <;> simp [r]

/-! ## One instruction -/

namespace State

variable {δ : Type} {b : Board δ} {s t u : State δ} {instr : SrInstr}

theorem twoOperands_keeps {source destination : Fin 8 × Fin 8} {o : Option Operands}
    (h : s.twoOperands b source destination = some (o, t)) :
    s.FetchOnly t ∧ ∀ x, o = some x → x.destination.size = 32 := by
  simp only [twoOperands, Option.bind_eq_bind] at h
  obtain ⟨⟨ok, src, u⟩, hu, h⟩ := Option.bind_eq_some_iff.mp h
  have hf := (fetchOnly_eaGetFromPc hu).1
  cases ok
  · cases h
    exact ⟨hf, nofun⟩
  · obtain ⟨⟨ok', dst, v⟩, hv, h⟩ := Option.bind_eq_some_iff.mp h
    obtain ⟨hg, hsize⟩ := fetchOnly_eaGetFromPc hv
    cases ok'
    · cases h
      exact ⟨hf.trans hg, nofun⟩
    · obtain ⟨⟨_, svalue, w⟩, hw, h⟩ := Option.bind_eq_some_iff.mp h
      obtain ⟨⟨_, dvalue, z⟩, hz, h⟩ := Option.bind_eq_some_iff.mp h
      cases h
      refine ⟨((hf.trans hg).trans (fetchOnly_eaGetValue hw)).trans (fetchOnly_eaGetValue hz), ?_⟩
      intro x hx
      cases hx
      exact hsize

theorem operandsNeg_keeps {code : Uint32} {o : Option Operands}
    (h : s.operandsNeg b code = some (o, t)) :
    s.FetchOnly t ∧ ∀ x, o = some x → x.destination.size = 32 ∧ x.svalue = 0 := by
  simp only [operandsNeg, Option.bind_eq_bind] at h
  obtain ⟨⟨ok, dst, v⟩, hv, h⟩ := Option.bind_eq_some_iff.mp h
  obtain ⟨hg, hsize⟩ := fetchOnly_eaGetFromPc hv
  cases ok
  · cases h
    exact ⟨hg, nofun⟩
  · obtain ⟨⟨_, dvalue, z⟩, hz, h⟩ := Option.bind_eq_some_iff.mp h
    cases h
    refine ⟨hg.trans (fetchOnly_eaGetValue hz), ?_⟩
    intro x hx
    cases hx
    exact ⟨hsize, rfl⟩

theorem operands_keeps {o : Option Operands} (h : s.operands b instr = some (o, t)) :
    s.FetchOnly t ∧ ∀ x, o = some x →
      x.destination.size = 32 ∧ (instr = .neg ∨ instr = .negx → x.svalue = 0) := by
  simp only [operands, Option.bind_eq_bind] at h
  obtain ⟨⟨_, code, u⟩, hu, h⟩ := Option.bind_eq_some_iff.mp h
  have hf := fetchOnly_memoryRetrFromPc hu
  have two : ∀ {source destination}, u.twoOperands b source destination = some (o, t) →
      s.FetchOnly t ∧ ∀ x, o = some x → x.destination.size = 32 := fun h =>
    ⟨hf.trans (twoOperands_keeps h).1, (twoOperands_keeps h).2⟩
  have none : some (Option.none, u) = some (o, t) →
      s.FetchOnly t ∧ ∀ x, o = some x → x.destination.size = 32 := by
    rintro h
    cases h
    exact ⟨hf, nofun⟩
  have lift : (s.FetchOnly t ∧ ∀ x, o = some x → x.destination.size = 32) →
      ¬(instr = .neg ∨ instr = .negx) → s.FetchOnly t ∧ ∀ x, o = some x →
        x.destination.size = 32 ∧ (instr = .neg ∨ instr = .negx → x.svalue = 0) :=
    fun h hn => ⟨h.1, fun x hx => ⟨h.2 x hx, fun hi => absurd hi hn⟩⟩
  have neg : u.operandsNeg b code = some (o, t) → s.FetchOnly t ∧ ∀ x, o = some x →
        x.destination.size = 32 ∧ (instr = .neg ∨ instr = .negx → x.svalue = 0) := fun h =>
    ⟨hf.trans (operandsNeg_keeps h).1, fun x hx =>
      ⟨((operandsNeg_keeps h).2 x hx).1, fun _ => ((operandsNeg_keeps h).2 x hx).2⟩⟩
  cases instr with
  | add =>
    refine lift ?_ (by decide)
    simp only [operandsAdd] at h
    split_ifs at h
    exacts [two h, none h, none h, two h]
  | addx => exact lift (two h) (by decide)
  | sub =>
    refine lift ?_ (by decide)
    simp only [operandsSub] at h
    split_ifs at h
    exacts [two h, none h, none h, two h, none h]
  | subx => exact lift (two h) (by decide)
  | cmp => exact lift (two h) (by decide)
  | neg => exact neg h
  | negx => exact neg h

/-- An instruction, when its operands are read. -/
theorem executeArith_of_operands {o : Operands} (ho : s.operands b instr = some (some o, u)) :
    s.executeArith b instr =
      let r := result instr o s.core.sr
      let v := u.setSr (srSet instr o.svalue o.dvalue r s.core.sr)
      if instr = .cmp then some v else v.eaPutValue b o.destination r := by
  have hsr := (operands_keeps ho).1.sr
  simp only [executeArith, ho, Option.bind_eq_bind, Option.bind_some, hsr]

/-- The destination has the result, and the flags are those of `SR_Set`. -/
theorem executeArith_result {o : Operands} (hc : instr ≠ .cmp)
    (ho : s.operands b instr = some (some o, u)) (ht : s.executeArith b instr = some t)
    (ha : o.destination.Alterable b s) :
    t.core.sr = srSet instr o.svalue o.dvalue (result instr o s.core.sr) s.core.sr ∧
      ∀ r, t.eaGetValue b r o.destination = some (true, result instr o s.core.sr, t) := by
  obtain ⟨hf, hsize⟩ := operands_keeps ho
  have h32 := (hsize o rfl).1
  rw [executeArith_of_operands ho] at ht
  simp only [if_neg hc] at ht
  have hbase : (u.setSr (srSet instr o.svalue o.dvalue (result instr o s.core.sr)
      s.core.sr)).core.base = s.core.base := by
    rw [base_setSr, hf.base]
  obtain ⟨t', hpg, honly⟩ := putGet_of_alterable (.inr (.inr h32))
    (ha.imp_right (Or.imp_right fun h => ⟨h.1, h.2.congr hbase.symm⟩)) (result instr o s.core.sr)
  obtain rfl : t' = t := Option.some.inj (hpg.put.symm.trans ht)
  rw [if_neg (by rw [h32]; exact fun h => absurd h.2 (by decide))] at honly
  refine ⟨Address.OnlyOperand.sr honly, fun r => ?_⟩
  rw [hpg.get, h32, signed_long]

/-! ## Operands in data registers -/

/-- The register of the source, where it is a data register. -/
def sourceRegister (instr : SrInstr) (code : Uint32) : Option (Fin 8) :=
  let ofBoth :=
    if opMode code ≠ 2 then some (register code)
    else if eaMode code = 0 then some (eaRegister code)
    else none
  match instr with
  | .add => ofBoth
  | .sub => ofBoth
  | .addx => some (bits3 code 0)
  | .subx => some (bits3 code 0)
  | _ => none

theorem twoOperands_d {source destination : Fin 8 × Fin 8} {o : Operands}
    (h : s.twoOperands b source destination = some (some o, t)) :
    (source.1 = 0 → o.svalue = s.core.d source.2) ∧
      (o.destination.mode = 0 → o.dvalue = s.core.d o.destination.register) := by
  simp only [twoOperands, Option.bind_eq_bind] at h
  obtain ⟨⟨ok, src, u⟩, hu, h⟩ := Option.bind_eq_some_iff.mp h
  have hf := (fetchOnly_eaGetFromPc hu).1
  cases ok
  · cases h
  · obtain ⟨⟨ok', dst, v⟩, hv, h⟩ := Option.bind_eq_some_iff.mp h
    obtain ⟨hg, hsize⟩ := fetchOnly_eaGetFromPc hv
    cases ok'
    · cases h
    · obtain ⟨⟨_, svalue, w⟩, hw, h⟩ := Option.bind_eq_some_iff.mp h
      obtain ⟨⟨_, dvalue, z⟩, hz, h⟩ := Option.bind_eq_some_iff.mp h
      cases h
      have hd : v.core.d = s.core.d := (hf.trans hg).d
      constructor
      · intro hm
        rw [hm] at hu
        cases hu
        rw [eaGetValue_register rfl rfl] at hw
        cases hw
        exact congrFun hd source.2
      · intro hm
        rw [eaGetValue_register hm hsize] at hz
        have hval : w.core.d dst.register = dvalue :=
          congrArg (fun p : Bool × Uint32 × State δ => p.2.1) (Option.some.inj hz)
        exact hval.symm.trans (congrFun ((fetchOnly_eaGetValue hw).d.trans hd) _)

theorem operandsNeg_d {code : Uint32} {o : Operands}
    (h : s.operandsNeg b code = some (some o, t)) (hm : o.destination.mode = 0) :
    o.dvalue = s.core.d o.destination.register := by
  simp only [operandsNeg, Option.bind_eq_bind] at h
  obtain ⟨⟨ok, dst, v⟩, hv, h⟩ := Option.bind_eq_some_iff.mp h
  obtain ⟨hg, hsize⟩ := fetchOnly_eaGetFromPc hv
  cases ok
  · cases h
  · obtain ⟨⟨_, dvalue, z⟩, hz, h⟩ := Option.bind_eq_some_iff.mp h
    cases h
    rw [eaGetValue_register hm hsize] at hz
    have hval : v.core.d dst.register = dvalue :=
      congrArg (fun p : Bool × Uint32 × State δ => p.2.1) (Option.some.inj hz)
    exact hval.symm.trans (congrFun hg.d _)

/-- Operands in data registers have the words that the registers had. -/
theorem operands_d {o : Operands} (h : s.operands b instr = some (some o, t)) :
    (o.destination.mode = 0 → o.dvalue = s.core.d o.destination.register) ∧
      ∀ ok code u y, s.memoryRetrFromPc b b.uninit 16 = some (ok, code, u) →
        sourceRegister instr code = some y → o.svalue = s.core.d y := by
  simp only [operands, Option.bind_eq_bind] at h
  obtain ⟨⟨ok, code, u⟩, hu, h⟩ := Option.bind_eq_some_iff.mp h
  have hd : u.core.d = s.core.d := (fetchOnly_memoryRetrFromPc hu).d
  rw [← hd]
  have two : ∀ {source destination : Fin 8 × Fin 8},
      u.twoOperands b source destination = some (some o, t) →
      (∀ y, sourceRegister instr code = some y → source = (0, y)) →
      (o.destination.mode = 0 → o.dvalue = u.core.d o.destination.register) ∧
        ∀ y, sourceRegister instr code = some y → o.svalue = u.core.d y := by
    intro source destination h hsrc
    refine ⟨(twoOperands_d h).2, fun y hy => ?_⟩
    obtain rfl := hsrc y hy
    exact (twoOperands_d h).1 rfl
  suffices hs : (o.destination.mode = 0 → o.dvalue = u.core.d o.destination.register) ∧
      ∀ y, sourceRegister instr code = some y → o.svalue = u.core.d y by
    refine ⟨hs.1, fun ok' code' u' y hu' hy => hs.2 y ?_⟩
    rw [hu] at hu'
    cases hu'
    exact hy
  have ofBoth : ∀ {y}, (if opMode code ≠ 2 then some (register code)
      else if eaMode code = 0 then some (eaRegister code) else none) = some y →
        (opMode code = 2 → (eaMode code, eaRegister code) = (0, y)) ∧
          (opMode code ≠ 2 → (0, register code) = ((0, y) : Fin 8 × Fin 8)) := by
    intro y hy
    by_cases h2 : opMode code = 2
    · rw [if_neg (not_not.mpr h2)] at hy
      refine ⟨fun _ => ?_, fun hn => absurd h2 hn⟩
      split at hy
      · rename_i h0
        cases hy
        rw [h0]
      · cases hy
    · rw [if_pos h2] at hy
      cases hy
      exact ⟨fun h => absurd h h2, fun _ => rfl⟩
  cases instr with
  | add =>
    simp only [operandsAdd] at h
    split_ifs at h with h2
    · exact two h fun y hy => (ofBoth hy).1 h2
    · cases h
    · cases h
    · exact two h fun y hy => (ofBoth hy).2 h2
  | addx => exact two h fun y hy => congrArg (Prod.mk 0) (Option.some.inj hy)
  | sub =>
    simp only [operandsSub] at h
    split_ifs at h with h2
    · exact two h fun y hy => (ofBoth hy).1 h2
    · cases h
    · cases h
    · exact two h fun y hy => (ofBoth hy).2 h2
    · cases h
  | subx => exact two h fun y hy => congrArg (Prod.mk 0) (Option.some.inj hy)
  | cmp => exact ⟨fun hm => (twoOperands_d h).2 hm, nofun⟩
  | neg => exact ⟨operandsNeg_d h, nofun⟩
  | negx => exact ⟨operandsNeg_d h, nofun⟩

/-- The result in a data register, and the other registers as they were. -/
theorem executeArith_d {o : Operands} (hc : instr ≠ .cmp)
    (ho : s.operands b instr = some (some o, u)) (ht : s.executeArith b instr = some t)
    (hm : o.destination.mode = 0) :
    t.core.d = Function.update s.core.d o.destination.register (result instr o s.core.sr) := by
  obtain ⟨hf, hsize⟩ := operands_keeps ho
  have h32 := (hsize o rfl).1
  rw [executeArith_of_operands ho] at ht
  simp only [if_neg hc, eaPutValue_of_d hm, inserted, h32] at ht
  rw [if_pos (by decide)] at ht
  cases ht
  exact congrArg (Function.update · _ _) hf.d

/-! ## Instructions in a row -/

/-- The instruction at the word `k`. -/
def instrAt (first next : SrInstr) (k : Nat) : SrInstr := if k = 0 then first else next

/-- `n` instructions, of which the first is `first` and the others are `next`, between the
states `s k` and `t k`. From one to the next anything may change but the status register. -/
structure Chain (b : Board δ) (first next : SrInstr) (n : Nat) (s t : Nat → State δ)
    (o : Nat → Operands) : Prop where
  pos : 0 < n
  reads : ∀ k < n, ∃ u, (s k).operands b (instrAt first next k) = some (some (o k), u)
  runs : ∀ k < n, (s k).executeArith b (instrAt first next k) = some (t k)
  sr : ∀ k, k + 1 < n → (s (k + 1)).core.sr = (t k).core.sr
  alterable : ∀ k < n, (o k).destination.Alterable b (s k)

/-- The destinations are data registers, each word its own, and between the instructions no data
register changes. -/
structure InRegisters (n : Nat) (s t : Nat → State δ) (o : Nat → Operands) : Prop where
  mode : ∀ k < n, (o k).destination.mode = 0
  apart : ∀ i j, i < j → j < n → (o i).destination.register ≠ (o j).destination.register
  between : ∀ k, k + 1 < n → (s (k + 1)).core.d = (t k).core.d

/-- The operands are those of the state before the first instruction; a source may not be the
destination of a word before it. -/
def Held (b : Board δ) (first next : SrInstr) (n : Nat) (s : Nat → State δ)
    (o : Nat → Operands) : Prop :=
  ∀ k < n, (o k).dvalue = (s 0).core.d (o k).destination.register ∧
    ∀ ok code u y, (s k).memoryRetrFromPc b b.uninit 16 = some (ok, code, u) →
      sourceRegister (instrAt first next k) code = some y →
      (∀ j < k, (o j).destination.register ≠ y) → (o k).svalue = (s 0).core.d y

/-- What they leave: the words of `R` in the destinations, and its flags. In data registers the
operands are those before the first instruction, and the words are there after the last. -/
structure Leaves (b : Board δ) (first next : SrInstr) (n : Nat) (s t : Nat → State δ)
    (o : Nat → Operands) (R : BitVec (MultiWord.size 32 n)) (carry overflow : Bool) : Prop where
  words : ∃ W : Nat → Uint32, MultiWord.wide W n = R ∧
    (∀ k < n, ∀ r, (t k).eaGetValue b r (o k).destination = some (true, W k, t k)) ∧
    (InRegisters n s t o → ∀ k < n, (t (n - 1)).core.d (o k).destination.register = W k)
  held : InRegisters n s t o → Held b first next n s o
  flags : flags (t (n - 1)).core.sr = ⟨carry, R.msb, R == 0, overflow, carry⟩

/-- The X flag before the word `k`. -/
def carryBefore (t : Nat → State δ) : Nat → Bool
  | 0 => false
  | k + 1 => (t k).core.sr.getLsbD 4

/-- The Z flag after the word `k`, which all words so far have to be 0 for. -/
theorem z_chain {W : Nat → Uint32} {z : Nat → Bool} {n : Nat} (h0 : 0 < n → z 0 = (W 0 == 0))
    (hs : ∀ k, k + 1 < n → z (k + 1) = ((W (k + 1) == 0) && z k)) :
    ∀ k < n, z k = (MultiWord.wide W (k + 1) == 0) := by
  intro k
  induction k with
  | zero =>
    intro hk
    rw [h0 hk, Bool.eq_iff_iff, beq_iff_eq, beq_iff_eq, MultiWord.wide_eq_zero_iff]
    exact ⟨fun h k hk => by rwa [Nat.lt_one_iff.mp hk], fun h => h 0 (by decide)⟩
  | succ k ih =>
    intro hk
    rw [hs k hk, ih (by omega), Bool.eq_iff_iff, Bool.and_eq_true, beq_iff_eq, beq_iff_eq,
      beq_iff_eq, MultiWord.wide_eq_zero_iff, MultiWord.wide_eq_zero_iff]
    constructor
    · rintro ⟨hw, h⟩ j hj
      rcases Nat.lt_succ_iff_lt_or_eq.mp hj with hlt | rfl
      · exact h j hlt
      · exact hw
    · exact fun h => ⟨h _ (Nat.lt_succ_self _), fun j hj => h j (by omega)⟩

namespace Chain

variable {first next : SrInstr} {n : Nat} {s t : Nat → State δ} {o : Nat → Operands}

/-- The word `k` of the result. -/
def wordAt (first next : SrInstr) (s : Nat → State δ) (o : Nat → Operands) (k : Nat) : Uint32 :=
  result (instrAt first next k) (o k) (s k).core.sr

theorem result_at (h : Chain b first next n s t o) (hf : first ≠ .cmp) (hn : next ≠ .cmp) {k : Nat}
    (hk : k < n) :
    (t k).core.sr = srSet (instrAt first next k) (o k).svalue (o k).dvalue
        (wordAt first next s o k) (s k).core.sr ∧
      ∀ r, (t k).eaGetValue b r (o k).destination =
        some (true, wordAt first next s o k, t k) := by
  obtain ⟨u, hu⟩ := h.reads k hk
  refine executeArith_result ?_ hu (h.runs k hk) (h.alterable k hk)
  unfold instrAt
  split
  · exact hf
  · exact hn

/-- In data registers an instruction changes its own destination. -/
theorem d_at (h : Chain b first next n s t o) (hr : InRegisters n s t o) (hf : first ≠ .cmp)
    (hn : next ≠ .cmp) {k : Nat} (hk : k < n) : (t k).core.d =
      Function.update (s k).core.d (o k).destination.register (wordAt first next s o k) := by
  obtain ⟨u, hu⟩ := h.reads k hk
  refine executeArith_d ?_ hu (h.runs k hk) (hr.mode k hk)
  unfold instrAt
  split
  · exact hf
  · exact hn

/-- A register that no word before `k` has for its destination. -/
theorem d_before (h : Chain b first next n s t o) (hr : InRegisters n s t o) (hf : first ≠ .cmp)
    (hn : next ≠ .cmp) {y : Fin 8} : ∀ k < n, (∀ j < k, (o j).destination.register ≠ y) →
      (s k).core.d y = (s 0).core.d y := by
  intro k
  induction k with
  | zero => exact fun _ _ => rfl
  | succ k ih =>
    intro hk hy
    have hlt : k < n := Nat.lt_of_succ_lt hk
    rw [hr.between k hk, h.d_at hr hf hn hlt,
      Function.update_of_ne (hy k (Nat.lt_succ_self k)).symm]
    exact ih hlt fun j hj => hy j (Nat.lt_succ_of_lt hj)

/-- A word stays in its register. -/
theorem d_after (h : Chain b first next n s t o) (hr : InRegisters n s t o) (hf : first ≠ .cmp)
    (hn : next ≠ .cmp) {k : Nat} (hk : k < n) : ∀ m, k ≤ m → m < n →
      (t m).core.d (o k).destination.register = wordAt first next s o k := by
  intro m hm
  induction m, hm using Nat.le_induction with
  | base =>
    intro _
    rw [h.d_at hr hf hn hk]
    exact Function.update_self ..
  | succ m hm ih =>
    intro hlt
    rw [h.d_at hr hf hn hlt,
      Function.update_of_ne (hr.apart k (m + 1) (Nat.lt_succ_of_le hm) hlt), hr.between m hlt]
    exact ih (Nat.lt_of_succ_lt hlt)

theorem held (h : Chain b first next n s t o) (hf : first ≠ .cmp) (hn : next ≠ .cmp)
    (hr : InRegisters n s t o) : Held b first next n s o := by
  intro k hk
  obtain ⟨u, hu⟩ := h.reads k hk
  obtain ⟨hd, hs⟩ := operands_d hu
  constructor
  · rw [hd (hr.mode k hk)]
    exact h.d_before hr hf hn k hk fun j hj => hr.apart j k hj hk
  · intro ok code v y hv hy hapart
    rw [hs ok code v y hv hy]
    exact h.d_before hr hf hn k hk hapart

/-- The chain from its flags: each instruction has the carry and the overflow of its word, and
Z is cleared where a word is not 0. -/
theorem leaves (h : Chain b first next n s t o) (hf : first ≠ .cmp) (hn : next ≠ .cmp)
    {R : BitVec (MultiWord.size 32 n)} {carry overflow : Bool} {cy ov : Nat → Bool}
    (hflags : ∀ k < n, flags (t k).core.sr =
      .of (wordAt first next s o k) (zAfter (k != 0) (wordAt first next s o k) (s k).core.sr)
        (cy k) (ov k))
    (hR : MultiWord.wide (wordAt first next s o) n = R) (hcarry : cy (n - 1) = carry)
    (hov : ov (n - 1) = overflow) : Leaves b first next n s t o R carry overflow := by
  have hpos := h.pos
  refine ⟨⟨_, hR, fun k hk => (h.result_at hf hn hk).2, fun hr k hk => ?_⟩, h.held hf hn, ?_⟩
  · exact h.d_after hr hf hn hk (n - 1) (by omega) (by omega)
  have hz := z_chain (W := wordAt first next s o) (z := fun k => (flags (t k).core.sr).z) (n := n)
    (fun h0 => by rw [hflags 0 h0]; simp [Flags.of, zAfter]) (fun k hk => by
      rw [hflags (k + 1) hk, h.sr k hk]
      simp [Flags.of, zAfter, SkyEye.ColdFire.flags])
  obtain ⟨m, rfl⟩ := Nat.exists_eq_succ_of_ne_zero (Nat.pos_iff_ne_zero.mp hpos)
  have hzm := hz m (Nat.lt_succ_self m)
  have hm := hflags m (Nat.lt_succ_self m)
  rw [hm] at hzm
  rw [Nat.succ_sub_one] at hcarry hov ⊢
  rw [hm, ← hR, ← hcarry, ← hov, Flags.of, MultiWord.msb_wide (by decide)]
  exact congrArg (fun z => (⟨cy m, _, z, ov m, cy m⟩ : Flags)) hzm

/-- The word `k` has the X flag that the word before it left. -/
theorem extended_sr (h : Chain b first next n s t o) {k : Nat} (hk : k + 1 < n) :
    (s (k + 1)).core.sr.getLsbD 4 = carryBefore t (k + 1) := by
  rw [h.sr k hk]
  rfl

/-- The operands as numbers. -/
def source (o : Nat → Operands) (n : Nat) : BitVec (MultiWord.size 32 n) :=
  MultiWord.wide (fun k => (o k).svalue) n

def destination (o : Nat → Operands) (n : Nat) : BitVec (MultiWord.size 32 n) :=
  MultiWord.wide (fun k => (o k).dvalue) n

theorem flags_add (h : Chain b .add .addx n s t o) :
    ∀ k < n, wordAt .add .addx s o k =
        AddWithCarry.sum (o k).svalue (o k).dvalue (carryBefore t k) ∧
      flags (t k).core.sr = .of (wordAt .add .addx s o k)
        (zAfter (k != 0) (wordAt .add .addx s o k) (s k).core.sr)
        (AddWithCarry.carry (o k).svalue (o k).dvalue (carryBefore t k))
        (AddWithCarry.overflow (o k).svalue (o k).dvalue (carryBefore t k)) := by
  intro k hk
  have hr := (h.result_at (by decide) (by decide) hk).1
  rw [hr]
  simp only [srSet, not_sle_zero]
  cases k with
  | zero =>
    have hw : wordAt .add .addx s o 0 =
        AddWithCarry.sum (o 0).svalue (o 0).dvalue (carryBefore t 0) := by
      simp [wordAt, instrAt, result, carryBefore, AddWithCarry.sum]
    rw [hw]
    exact ⟨rfl, flags_sum false false _ _ _⟩
  | succ k =>
    have hw : wordAt .add .addx s o (k + 1) =
        AddWithCarry.sum (o (k + 1)).svalue (o (k + 1)).dvalue (carryBefore t (k + 1)) := by
      rw [← h.extended_sr hk]
      rfl
    rw [hw]
    exact ⟨rfl, flags_sum true _ _ _ _⟩

theorem flags_sub (h : Chain b .sub .subx n s t o) :
    ∀ k < n, wordAt .sub .subx s o k =
        SubWithBorrow.diff (o k).dvalue (o k).svalue (carryBefore t k) ∧
      flags (t k).core.sr = .of (wordAt .sub .subx s o k)
        (zAfter (k != 0) (wordAt .sub .subx s o k) (s k).core.sr)
        (SubWithBorrow.borrow (o k).dvalue (o k).svalue (carryBefore t k))
        (SubWithBorrow.overflow (o k).dvalue (o k).svalue (carryBefore t k)) := by
  intro k hk
  have hr := (h.result_at (by decide) (by decide) hk).1
  rw [hr]
  simp only [srSet, not_sle_zero]
  cases k with
  | zero =>
    have hw : wordAt .sub .subx s o 0 =
        SubWithBorrow.diff (o 0).dvalue (o 0).svalue (carryBefore t 0) := by
      simp [wordAt, instrAt, result, carryBefore]
    rw [hw]
    exact ⟨rfl, flags_diff false false _ _ _⟩
  | succ k =>
    have hw : wordAt .sub .subx s o (k + 1) =
        SubWithBorrow.diff (o (k + 1)).dvalue (o (k + 1)).svalue (carryBefore t (k + 1)) := by
      rw [← h.extended_sr hk]
      rfl
    rw [hw]
    exact ⟨rfl, flags_diff true _ _ _ _⟩

theorem flags_neg (h : Chain b .neg .negx n s t o) :
    ∀ k < n, wordAt .neg .negx s o k = SubWithBorrow.diff 0 (o k).dvalue (carryBefore t k) ∧
      flags (t k).core.sr = .of (wordAt .neg .negx s o k)
        (zAfter (k != 0) (wordAt .neg .negx s o k) (s k).core.sr)
        (SubWithBorrow.borrow 0 (o k).dvalue (carryBefore t k))
        (SubWithBorrow.overflow 0 (o k).dvalue (carryBefore t k)) := by
  intro k hk
  have hr := (h.result_at (by decide) (by decide) hk).1
  rw [hr]
  simp only [srSet, not_sle_zero]
  cases k with
  | zero =>
    have hw : wordAt .neg .negx s o 0 = SubWithBorrow.diff 0 (o 0).dvalue (carryBefore t 0) := by
      simp [wordAt, instrAt, result, carryBefore]
    rw [hw]
    exact ⟨rfl, flags_negation false false _ _⟩
  | succ k =>
    have hw : wordAt .neg .negx s o (k + 1) =
        SubWithBorrow.diff 0 (o (k + 1)).dvalue (carryBefore t (k + 1)) := by
      rw [← h.extended_sr hk]
      rfl
    rw [hw]
    exact ⟨rfl, flags_negation true _ _ _⟩

theorem carryBefore_succ {first next : SrInstr} {s t : Nat → State δ} {o : Nat → Operands}
    {k : Nat} {z carry overflow : Bool}
    (h : flags (t k).core.sr = .of (wordAt first next s o k) z carry overflow) :
    carryBefore t (k + 1) = carry := congrArg Flags.x h

theorem leaves_add (h : Chain b .add .addx n s t o) :
    Leaves b .add .addx n s t o (source o n + destination o n)
      (AddWithCarry.carry (source o n) (destination o n) false)
      (AddWithCarry.overflow (source o n) (destination o n) false) := by
  have hk := h.flags_add
  have hr := fun k hlt => (hk k hlt).1
  have hc := fun k hlt => carryBefore_succ (hk k hlt).2
  obtain ⟨hsum, hcarry⟩ := MultiWord.wide_sum hr hc
  obtain ⟨m, rfl⟩ := Nat.exists_eq_succ_of_ne_zero (Nat.pos_iff_ne_zero.mp h.pos)
  have hov := MultiWord.overflow_sum (by decide) hr hc
  refine h.leaves (by decide) (by decide) (fun k hlt => (hk k hlt).2) ?_ ?_ hov
  · rw [hsum]
    simp [AddWithCarry.sum, carryBefore, source, destination]
  · exact (hc m (Nat.lt_succ_self m)).symm.trans hcarry

theorem leaves_sub (h : Chain b .sub .subx n s t o) :
    Leaves b .sub .subx n s t o (destination o n - source o n)
      (SubWithBorrow.borrow (destination o n) (source o n) false)
      (SubWithBorrow.overflow (destination o n) (source o n) false) := by
  have hk := h.flags_sub
  have hr := fun k hlt => (hk k hlt).1
  have hc := fun k hlt => carryBefore_succ (hk k hlt).2
  obtain ⟨hdiff, hborrow⟩ := MultiWord.wide_diff hr hc
  obtain ⟨m, rfl⟩ := Nat.exists_eq_succ_of_ne_zero (Nat.pos_iff_ne_zero.mp h.pos)
  have hov := MultiWord.overflow_diff (by decide) hr hc
  refine h.leaves (by decide) (by decide) (fun k hlt => (hk k hlt).2) ?_ ?_ hov
  · rw [hdiff]
    exact SubWithBorrow.diff_false _ _
  · exact (hc m (Nat.lt_succ_self m)).symm.trans hborrow

theorem leaves_neg (h : Chain b .neg .negx n s t o) :
    Leaves b .neg .negx n s t o (-destination o n)
      (SubWithBorrow.borrow 0 (destination o n) false)
      (SubWithBorrow.overflow 0 (destination o n) false) := by
  have hk := h.flags_neg
  have hr := fun k hlt => (hk k hlt).1
  have hc := fun k hlt => carryBefore_succ (hk k hlt).2
  have h0 : ∀ n, MultiWord.wide (fun _ => (0 : Uint32)) n = 0 := fun n =>
    (MultiWord.wide_eq_zero_iff _ n).mpr fun _ _ => rfl
  obtain ⟨hdiff, hborrow⟩ := MultiWord.wide_diff (X := fun _ => 0) hr hc
  obtain ⟨m, rfl⟩ := Nat.exists_eq_succ_of_ne_zero (Nat.pos_iff_ne_zero.mp h.pos)
  have hov := MultiWord.overflow_diff (X := fun _ => 0) (by decide) hr hc
  rw [h0] at hdiff hborrow hov
  refine h.leaves (by decide) (by decide) (fun k hlt => (hk k hlt).2) ?_ ?_ hov
  · rw [hdiff]
    exact (SubWithBorrow.diff_false _ _).trans (BitVec.zero_sub _)
  · exact (hc m (Nat.lt_succ_self m)).symm.trans hborrow

end Chain

/-- The flags of SUB, and X as it was. -/
def Flags.compare (s : State δ) (o : Operands) : Flags :=
  { flags (srSet .sub o.svalue o.dvalue (result .sub o s.core.sr) s.core.sr) with
    x := s.core.sr.getLsbD 4 }

theorem executeCmp {o : Operands} (ho : s.operands b .cmp = some (some o, u))
    (ht : s.executeArith b .cmp = some t) :
    t = u.setSr t.core.sr ∧ flags t.core.sr = Flags.compare s o := by
  rw [executeArith_of_operands ho] at ht
  cases ht
  exact ⟨rfl, flags_srSetCmp _ _ _ _ _ _⟩

/-- Extended arithmetic is exact for numbers of any length, and CMP sets the flags of SUB. -/
theorem extended_exact (b : Board δ) (n : Nat) (s t : Nat → State δ) (o : Nat → Operands) :
    (Chain b .add .addx n s t o →
      Leaves b .add .addx n s t o (Chain.source o n + Chain.destination o n)
        (AddWithCarry.carry (Chain.source o n) (Chain.destination o n) false)
        (AddWithCarry.overflow (Chain.source o n) (Chain.destination o n) false)) ∧
    (Chain b .sub .subx n s t o →
      Leaves b .sub .subx n s t o (Chain.destination o n - Chain.source o n)
        (SubWithBorrow.borrow (Chain.destination o n) (Chain.source o n) false)
        (SubWithBorrow.overflow (Chain.destination o n) (Chain.source o n) false)) ∧
    (Chain b .neg .negx n s t o →
      Leaves b .neg .negx n s t o (-Chain.destination o n)
        (SubWithBorrow.borrow 0 (Chain.destination o n) false)
        (SubWithBorrow.overflow 0 (Chain.destination o n) false)) ∧
    ∀ (s t u : State δ) (o : Operands), s.operands b .cmp = some (some o, u) →
      s.executeArith b .cmp = some t →
        t = u.setSr t.core.sr ∧ flags t.core.sr = Flags.compare s o :=
  ⟨Chain.leaves_add, Chain.leaves_sub, Chain.leaves_neg, fun _ _ _ _ => executeCmp⟩

/-- ADD.L D0,D1 and ADDX.L D2,D3. -/
def addPair : State Unit :=
  { plainState with
    core := { plainState.core with d := fun r => if r ≤ 1 then 0xFFFFFFFF else 1 }
    ram := fun _ k => if k = 0x102 then 0xD2 else if k = 0x103 then 0x80 else if k = 0x104 then 0xD7
      else 0x82 }

/-- The state after each of the two. -/
def addPairAfter : Nat → State Unit
  | 0 => (addPair.executeArith plainBoard .add).getD addPair
  | k + 1 => ((addPairAfter k).executeArith plainBoard .addx).getD addPair

def addPairBefore : Nat → State Unit
  | 0 => addPair
  | k + 1 => addPairAfter k

/-- Their operands. -/
def addPairOperands (k : Nat) : Operands :=
  ⟨if k = 0 then 0xFFFFFFFF else 1, if k = 0 then 0xFFFFFFFF else 1,
    ⟨32, 0, if k = 0 then 1 else 3, 0xdeadbeef, 0⟩⟩

/-- 0x1FFFFFFFF + 0x1FFFFFFFF. -/
theorem extended_exact_pair :
    Chain plainBoard .add .addx 2 addPairBefore addPairAfter addPairOperands ∧
      flags (addPairAfter 1).core.sr = ⟨false, false, false, false, false⟩ := by
  have hc : Chain plainBoard .add .addx 2 addPairBefore addPairAfter addPairOperands := by
    refine ⟨by decide, ?_, ?_, fun _ _ => rfl, fun k _ => .inl rfl⟩
    · intro k hk
      interval_cases k
      · exact ⟨_, rfl⟩
      · exact ⟨_, rfl⟩
    · intro k hk
      interval_cases k
      · rfl
      · rfl
  exact ⟨hc, ((extended_exact plainBoard 2 _ _ _).1 hc).flags⟩

end State

end SkyEye.ColdFire
