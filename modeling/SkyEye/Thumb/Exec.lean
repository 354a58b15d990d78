import SkyEye.Arm.Alu
import SkyEye.Thumb.Instr

/-!
# ARM instructions with the effect of Thumb instructions

What the main switch does with the words of the decoder, in the terms of `Thumb.effect`.
-/

namespace SkyEye

variable {U : Type}

/-- The emulator carries out `w` with this effect and this step `p` of its pipeline. -/
def Does (ops : MmuOps U) (s : State U) (pc w : ARMword) (p : State U → State U) :
    Except (State U) (State U) → Prop
  | .ok t => s.mainswitch ops pc w = some (p t)
  | .error t => s.mainswitch ops pc w = some ((p t).abort DATAABORTV)

/-- The step of the pipeline in an instruction. Register 15 stays as it is, for the main loop to
move it on, or moves on here with a note of that in `NextInstr`. The cycles inside the processor
lower the abort signal of the bus. -/
def Thumb.pipeline : Thumb → State U → State U
  | .alu .lsl _ _ | .alu .lsr _ _ | .alu .asr _ _ | .alu .ror _ _ => fun s => s.incPc.icycles
  | .alu .mul _ _ => State.icycles
  | .transfer k _ _ _ => if k.isLoad then State.busUsedIncPcS else State.busUsedIncPcN
  | _ => id

/-- The emulator carries out `w` as the instruction `i` at `pc`. -/
def Carries (ops : MmuOps U) (s : State U) (pc w : ARMword) (i : Thumb) : Prop :=
  Does ops s pc w i.pipeline (i.effect ops pc s)

/-- Bytes and halfwords are read as numbers of eight and sixteen bits. -/
structure MmuOps.Narrow (ops : MmuOps U) : Prop where
  read : ∀ {cpu mmu address dt data mmu'}, ops.read cpu mmu address dt = (.ok data, mmu') →
    data.toNat < 2 ^ dt.bits

namespace State

variable {ops : MmuOps U} {s t : State U} {pc w v : ARMword} {d l : RegNo}

/-! ## Data processing -/

variable {o : DpOp}

theorem does_arith (hm : s.mainswitch ops pc w =
      some (if o.isTest then s.test w o else s.dataProcessingS w o))
    (hop : o.isLogical = false) (hd : destReg w = d) (hd15 : d ≠ 15) (hl : lhsReg w = l)
    (hl15 : l ≠ 15) (hr : s.dpRHS w = (v, s)) :
    Does ops s pc w id (.ok (if o.isTest then
        s.withSum (o.addends (s.reg l) v s.cFlag).1 (o.addends (s.reg l) v s.cFlag).2.1
          (o.addends (s.reg l) v s.cFlag).2.2
      else s.sumTo (o.addends (s.reg l) v s.cFlag).1 (o.addends (s.reg l) v s.cFlag).2.1
        (o.addends (s.reg l) v s.cFlag).2.2 d)) := by
  subst hd hl
  have hlhs : s.lhs w = s.reg (lhsReg w) := if_neg hl15
  refine hm.trans (congrArg some ?_)
  split
  · rw [test_arith hop ‹_› hd15 hr, hlhs]
    rfl
  · rw [dataProcessingS_arith hop hd15 hr, hlhs]
    rfl

theorem does_logical (hm : s.mainswitch ops pc w =
      some (if o.isTest then s.test w o else s.dataProcessingS w o))
    (hop : o.isLogical = true) (hd : destReg w = d) (hd15 : d ≠ 15) (hl : lhsReg w = l)
    (hl15 : l ≠ 15) (hr : s.dpsRHS w = (v, s)) :
    Does ops s pc w id (.ok (if o.isTest then s.withNZ (o.value (s.reg l) v s.cFlag)
      else s.valueTo (o.value (s.reg l) v s.cFlag) d)) := by
  subst hd hl
  have hlhs : s.lhs w = s.reg (lhsReg w) := if_neg hl15
  refine hm.trans (congrArg some ?_)
  split
  · rw [test_logical hop hd15 hr, hlhs]
    rfl
  · rw [dataProcessingS_logical hop hd15 hr, hlhs]
    rfl

/-- A move of an operand that leaves `t`. -/
theorem does_move {p : State U → State U} (hm : s.mainswitch ops pc w =
      some (if DpOp.mov.isTest then s.test w .mov else s.dataProcessingS w .mov))
    (hd : destReg w = d) (hd15 : d ≠ 15) (hr : s.dpsRHS w = (v, t)) {u : State U}
    (hu : t.valueTo v d = p (u.valueTo v d)) : Does ops s pc w p (.ok (u.valueTo v d)) := by
  subst hd
  refine hm.trans (congrArg some ?_)
  rw [← hu]
  exact dataProcessingS_logical (show DpOp.isLogical .mov = true from rfl) hd15 hr

/-- A sum without flags. -/
theorem does_address (hm : s.mainswitch ops pc w = some (s.immediateCase w))
    (h20 : w.getLsbD 20 = false) (h25 : w.getLsbD 25 = true) {o : DpOp}
    (ho : DpOp.ofInstr w = o) (hop : o.isTest = false) (hd : destReg w = d) (hd15 : d ≠ 15) :
    Does ops s pc w id (.ok (s.setReg d (o.value (s.lhs w) (dpImmRHS w) s.cFlag))) := by
  subst hd ho
  refine hm.trans (congrArg some ?_)
  rw [immediateCase, h20, if_neg Bool.false_ne_true, hop, if_neg Bool.false_ne_true,
    dataProcessing, dpRHS, h25, if_pos rfl]
  dsimp only
  rw [writeDest, if_neg hd15]
  rfl

/-- A product. -/
theorem does_multiply (hm : s.mainswitch ops pc w = some (s.multiply w))
    (h20 : w.getLsbD 20 = true) (h21 : w.getLsbD 21 = false) (hd : mulDestReg w = d)
    (hd15 : d ≠ 15) (hl : mulLhsReg w = l) (hr : mulRhsReg w = d) (hld : l ≠ d) :
    Does ops s pc w icycles (.ok (s.valueTo (s.reg d * s.reg l) d)) := by
  subst hl
  refine hm.trans (congrArg some ?_)
  rw [multiply, hd, hr, h20, h21]
  dsimp only
  rw [if_neg hld, if_pos hd15, negZero_eq, BitVec.mul_comm (s.reg d)]
  generalize s.reg (mulLhsReg w) * s.reg d = p
  change ((s.withNZ (p + 0)).setReg d (p + 0)).icycles = _
  rw [show p + 0 = p from BitVec.add_zero p]
  rfl

/-! ## Transfers -/

variable {address : ARMword}

/-- A step of the pipeline that keeps clear of an access and its result. -/
structure Clear (p : State U → State U) : Prop where
  setReg : ∀ (s : State U) {d : RegNo} (v : ARMword), d ≠ 15 → p (s.setReg d v) = (p s).setReg d v
  accessed : ∀ (s : State U) mmu, p (s.accessed mmu) = (p s).accessed mmu
  dataAbort : ∀ (s : State U) mmu f a, p (s.dataAbort mmu f a) = (p s).dataAbort mmu f a
  cpu : ∀ s : State U, (p s).cpu = s.cpu
  mmu : ∀ s : State U, (p s).mmu = s.mmu
  aborted : ∀ s : State U, (p s).aborted = s.aborted
  reg : ∀ (s : State U) {r : RegNo}, r ≠ 15 → (p s).reg r = s.reg r

/-- Register 15 moved on, with a note `n`. -/
theorem setReg_advance (hd : d ≠ 15) (v : ARMword) (n : ARMword → ARMword) :
    ({ (s.setReg d v).setReg 15 ((s.setReg d v).reg 15 + s.insnSize) with
        nextInstr := n s.nextInstr } : State U) =
      ({ s.setReg 15 (s.reg 15 + s.insnSize) with nextInstr := n s.nextInstr } : State U).setReg
        d v := by
  unfold setReg
  dsimp only
  rw [Function.update_of_ne hd.symm, Function.update_comm hd]

theorem clear_busUsedIncPcS : Clear (U := U) busUsedIncPcS where
  setReg s d v hd := by
    unfold busUsedIncPcS
    change (if s.isV4 then _ else _) = _
    split
    · rfl
    · exact setReg_advance hd v fun n => (n &&& 0xff) ||| 2
  accessed s mmu := by
    unfold busUsedIncPcS
    change (if s.isV4 then _ else _) = _
    split <;> rfl
  dataAbort s mmu f a := by
    unfold busUsedIncPcS
    change (if s.isV4 then _ else _) = _
    split <;> rfl
  cpu s := by unfold busUsedIncPcS; split <;> rfl
  mmu s := by unfold busUsedIncPcS; split <;> rfl
  aborted s := by unfold busUsedIncPcS; split <;> rfl
  reg s r hr := by
    unfold busUsedIncPcS
    split
    · rfl
    · exact Function.update_of_ne hr _ _

theorem clear_busUsedIncPcN : Clear (U := U) busUsedIncPcN where
  setReg s d v hd := by
    unfold busUsedIncPcN
    change (if s.isV4 then _ else _) = _
    split
    · rfl
    · exact setReg_advance hd v fun n => n ||| 3
  accessed s mmu := by
    unfold busUsedIncPcN
    change (if s.isV4 then _ else _) = _
    split <;> rfl
  dataAbort s mmu f a := by
    unfold busUsedIncPcN
    change (if s.isV4 then _ else _) = _
    split <;> rfl
  cpu s := by unfold busUsedIncPcN; split <;> rfl
  mmu s := by unfold busUsedIncPcN; split <;> rfl
  aborted s := by unfold busUsedIncPcN; split <;> rfl
  reg s r hr := by
    unfold busUsedIncPcN
    split
    · rfl
    · exact Function.update_of_ne hr _ _

/-- The effect of a load, up to what `put` makes of the datum. -/
theorem does_load {p : State U → State U} (hp : Clear p) (dt : DataType) (address : ARMword)
    (hab : s.aborted = 0) (hd15 : d ≠ 15) {r : Bool × State U} {wb : Bool}
    (hm : s.mainswitch ops pc w = some r.2) (put : ARMword → State U → State U)
    (hr : r = (if (ops.readData (p s) dt address).2.aborted ≠ 0 then
        (ops.readData (p s) dt address).2.takeAbort
      else (wb, put (ops.readData (p s) dt address).1 (ops.readData (p s) dt address).2)))
    (ext : ARMword → ARMword)
    (hput : ∀ data mmu, ops.read s.cpu s.mmu address dt = (.ok data, mmu) →
      ∀ u : State U, put data u = (u.setReg d (ext data)).icycles) :
    Does ops s pc w p (match ops.read s.cpu s.mmu address dt with
      | (.ok data, mmu) => .ok ((s.accessed mmu).setReg d (ext data))
      | (.error f, mmu) => .error (s.dataAbort mmu f address)) := by
  have hcpu := hp.cpu s
  have hmmu := hp.mmu s
  rcases hread : ops.read s.cpu s.mmu address dt with ⟨f | data, mmu⟩
  · have hq := MmuOps.readData_error (s := p s) (hcpu ▸ hmmu ▸ hread)
    rw [hq] at hr
    rw [hr.trans (if_pos (show DATAABORTV ≠ 0 by decide))] at hm
    refine hm.trans (congrArg some ?_)
    rw [hp.dataAbort]
    rfl
  · have hq := MmuOps.readData_ok (s := p s) (hcpu ▸ hmmu ▸ hread)
    have h0 : ¬((p s).accessed mmu).aborted ≠ 0 := not_not.mpr ((hp.aborted s).trans hab)
    rw [hq] at hr
    rw [hr.trans (if_neg h0)] at hm
    dsimp only at hm
    rw [hput data mmu hread] at hm
    refine hm.trans (congrArg some ?_)
    rw [hp.setReg _ _ hd15, hp.accessed]
    rfl

/-- The effect of a store. -/
theorem does_store {p : State U → State U} (hp : Clear p) (dt : DataType) (address : ARMword)
    (hab : s.aborted = 0) (hd15 : d ≠ 15) {r : Bool × State U}
    (hm : s.mainswitch ops pc w = some r.2)
    (hr : r = (if (ops.writeData (p s) dt address ((p s).reg d)).aborted ≠ 0
      then (ops.writeData (p s) dt address ((p s).reg d)).takeAbort
      else (true, ops.writeData (p s) dt address ((p s).reg d)))) :
    Does ops s pc w p (match ops.write s.cpu s.mmu address dt (s.reg d) with
      | (none, mmu) => .ok (s.accessed mmu)
      | (some f, mmu) => .error (s.dataAbort mmu f address)) := by
  have hcpu := hp.cpu s
  have hmmu := hp.mmu s
  rw [hp.reg s hd15] at hr
  rcases hwrite : ops.write s.cpu s.mmu address dt (s.reg d) with ⟨_ | f, mmu⟩
  · have hq := MmuOps.writeData_ok (s := p s) (hcpu ▸ hmmu ▸ hwrite)
    have h0 : ¬((p s).accessed mmu).aborted ≠ 0 := not_not.mpr ((hp.aborted s).trans hab)
    rw [hq] at hr
    rw [hr.trans (if_neg h0)] at hm
    refine hm.trans (congrArg some ?_)
    rw [hp.accessed]
  · have hq := MmuOps.writeData_error (s := p s) (hcpu ▸ hmmu ▸ hwrite)
    rw [hq] at hr
    rw [hr.trans (if_pos (show DATAABORTV ≠ 0 by decide))] at hm
    refine hm.trans (congrArg some ?_)
    rw [hp.dataAbort]
    rfl

/-- A sign extension by a subtraction. -/
theorem signExtend_eq {data : ARMword} {n : Nat} (h0 : 0 < n) (hn : n < 32)
    (hlt : data.toNat < 2 ^ n) :
    (if data.getLsbD (n - 1) then
      (data &&& BitVec.ofNat 32 (2 ^ n - 1)) - BitVec.ofNat 32 (2 ^ n) else data) =
      (data.setWidth n).signExtend 32 := by
  have hp : 2 ^ n < 2 ^ 32 := Nat.pow_lt_pow_right (by omega) hn
  have hmod : data.toNat % 2 ^ n = data.toNat := Nat.mod_eq_of_lt hlt
  have hmsb : (data.setWidth n).msb = data.getLsbD (n - 1) := by
    rw [BitVec.msb_eq_getLsbD_last, BitVec.getLsbD_setWidth, decide_eq_true (by omega),
      Bool.true_and]
  apply BitVec.eq_of_toNat_eq
  rw [BitVec.toNat_signExtend, hmsb, BitVec.toNat_setWidth, BitVec.toNat_setWidth, hmod]
  cases data.getLsbD (n - 1) with
  | false =>
    have := data.isLt
    simp only [Bool.false_eq_true, if_false]
    omega
  | true =>
    simp only [if_true]
    rw [BitVec.toNat_sub, Word.toNat_and_low data n (by omega), hmod, BitVec.toNat_ofNat,
      Nat.mod_eq_of_lt hp]
    omega

/-- The access of the main switch for a transfer. -/
def access (ops : MmuOps U) (s : State U) (w address : ARMword) : ThumbTransfer → Bool × State U
  | .str => s.storeWord ops w address
  | .strh => s.storeHalfWord ops w address
  | .strb => s.storeByte ops w address
  | .ldrsb => s.loadByte ops w address true
  | .ldr => s.loadWord ops w address
  | .ldrh => s.loadHalfWord ops w address false
  | .ldrb => s.loadByte ops w address false
  | .ldrsh => s.loadHalfWord ops w address true

theorem does_access (hn : ops.Narrow) (hab : s.aborted = 0) (hd : destReg w = d) (hd15 : d ≠ 15)
    {k : ThumbTransfer} (ha : ∀ {t}, Thumb.transferEffect ops s k d address = .ok t →
      address.toNat % (k.datatype.bits / 8) = 0)
    (hm : s.mainswitch ops pc w = some (access ops s w address k).2) :
    Does ops s pc w (if k.isLoad then busUsedIncPcS else busUsedIncPcN)
      (Thumb.transferEffect ops s k d address) := by
  have hput (u : State U) (v : ARMword) : u.writeDest w v = u.setReg d v := by
    rw [writeDest, hd, if_neg hd15]
  have hputB (u : State U) (v : ARMword) : u.writeDestB w v = u.setReg d v := by
    rw [writeDestB, hd, if_neg hd15]
  cases k with
  | str =>
    refine does_store clear_busUsedIncPcN .word address hab hd15 hm ?_
    rw [← hd]
    rfl
  | strh =>
    refine does_store clear_busUsedIncPcN .halfword address hab hd15 hm ?_
    rw [← hd]
    rfl
  | strb =>
    refine does_store clear_busUsedIncPcN .byte address hab hd15 hm ?_
    rw [← hd]
    rfl
  | ldr =>
    refine does_load clear_busUsedIncPcS .word address hab hd15 hm (fun data u => (u.writeDestB w
      (if address &&& 3 ≠ 0 then align address data else data)).icycles) rfl id
      fun data mmu hr u => ?_
    have hok : Thumb.transferEffect ops s .ldr d address =
        .ok ((s.accessed mmu).setReg d data) := by
      rw [Thumb.transferEffect, if_pos (show ThumbTransfer.isLoad .ldr = true from rfl),
        show ThumbTransfer.datatype .ldr = .word from rfl, hr]
      rfl
    have h3 : address &&& 3 = 0 :=
      BitVec.eq_of_toNat_eq ((Word.toNat_and_low address 2 (by omega)).trans (ha hok))
    rw [if_neg (not_not.mpr h3), hputB]
    rfl
  | ldrb =>
    refine does_load clear_busUsedIncPcS .byte address hab hd15 hm (fun data u => (u.writeDest w
      (if false && data.getLsbD 7 then (data &&& 0xff) - 0x100 else data)).icycles) rfl id
      fun data _ _ u => ?_
    exact congrArg icycles (hput u data)
  | ldrh =>
    refine does_load clear_busUsedIncPcS .halfword address hab hd15 hm (fun data u => (u.writeDest w
      (if false && data.getLsbD 15 then (data &&& 0xffff) - 0x10000 else data)).icycles) rfl id
      fun data _ _ u => ?_
    exact congrArg icycles (hput u data)
  | ldrsb =>
    refine does_load clear_busUsedIncPcS .byte address hab hd15 hm (fun data u => (u.writeDest w
      (if true && data.getLsbD 7 then (data &&& 0xff) - 0x100 else data)).icycles) rfl
      (fun data => (data.setWidth 8).signExtend 32) fun data mmu hr u => ?_
    rw [← signExtend_eq (n := 8) (by decide) (by decide) (hn.read hr)]
    exact congrArg icycles (hput u _)
  | ldrsh =>
    refine does_load clear_busUsedIncPcS .halfword address hab hd15 hm (fun data u => (u.writeDest w
      (if true && data.getLsbD 15 then (data &&& 0xffff) - 0x10000 else data)).icycles) rfl
      (fun data => (data.setWidth 16).signExtend 32) fun data mmu hr u => ?_
    rw [← signExtend_eq (n := 16) (by decide) (by decide) (hn.read hr)]
    exact congrArg icycles (hput u _)

end State

end SkyEye
