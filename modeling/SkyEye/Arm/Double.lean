import SkyEye.Arm.AbortModel

/-!
# `LDRD` and `STRD`

An XScale has the pair transfers in front of the main switch, the other processors in
`Handle_Load_Double` and `Handle_Store_Double`. The two disagree on the encodings that only
the second refuses, on the exception for a misaligned pair and on faults, which only the
second takes.
-/

namespace SkyEye.State

variable {U : Type} (ops : MmuOps U) (s : State U) (instr : ARMword)

/-- `BIT (21) || (!BIT (24))` -/
def doubleWriteBack : Bool := instr.getLsbD 21 || !instr.getLsbD 24

/-! ## The XScale's -/

/-- `LHS` with the offset. -/
def doubleSum : ARMword := offsetBy instr (s.lhs instr) (s.getLS7RHS instr)

def doubleAddr : ARMword := if instr.getLsbD 24 then s.doubleSum instr else s.lhs instr

/-- "XScale Load Consecutive insn." -/
def xscaleLoadDouble : State U :=
  let temp2 := s.doubleSum instr
  let addr := s.doubleAddr instr
  if instr.getLsbD 12 then s.abort UNDEFINEDINSTRV
  else if addr &&& 7 ≠ 0 then s.abort DATAABORTV
  else
    let (v, s) := ops.loadWordN s addr
    let s := s.setReg (destReg instr) v
    let (v, s) := ops.loadWordN s (addr + 4)
    let s := s.setReg (destReg instr + 1) v
    if doubleWriteBack instr then s.setLSBase instr temp2 else s

/-- "XScale Store Consecutive insn." -/
def xscaleStoreDouble : State U :=
  let temp2 := s.doubleSum instr
  let addr := s.doubleAddr instr
  if instr.getLsbD 12 then s.abort UNDEFINEDINSTRV
  else if addr &&& 7 ≠ 0 then s.abort DATAABORTV
  else
    let s := ops.storeWordN s addr (s.reg (destReg instr))
    let s := ops.storeWordN s (addr + 4) (s.reg (destReg instr + 1))
    if doubleWriteBack instr then s.setLSBase instr temp2 else s

/-! ## The other processors' -/

/-- `sum`: the base, register 15 as it is, with the offset. -/
def handleSum : ARMword := offsetBy instr (s.reg (lhsReg instr)) (s.getLS7RHS instr)

def handleAddr : ARMword :=
  if instr.getLsbD 24 then s.handleSum instr else s.reg (lhsReg instr)

/-- The base is one of the pair, and written back. -/
def doubleOverlap : Bool :=
  doubleWriteBack instr && (lhsReg instr == destReg instr || lhsReg instr == destReg instr + 1)

def handleLoadDouble : State U :=
  let s := s.busUsedIncPcS
  let sum := s.handleSum instr
  let addr := s.handleAddr instr
  if instr.getLsbD 21 && !instr.getLsbD 24 then s.abort UNDEFINEDINSTRV
  else if instr.getLsbD 12 || destReg instr == 14 then s.abort UNDEFINEDINSTRV
  else if addr &&& 7 ≠ 0 then s.abort UNDEFINEDINSTRV
  else if doubleOverlap instr then s.abort UNDEFINEDINSTRV
  else
    let (value1, s) := ops.loadWordN s addr
    let (value2, s) := ops.loadWordN s (addr + 4)
    if s.aborted ≠ 0 then s.abort DATAABORTV
    else
      let s := (s.icycles.setReg (destReg instr) value1).setReg (destReg instr + 1) value2
      if doubleWriteBack instr then s.setLSBase instr sum else s

def handleStoreDouble : State U :=
  let s := s.busUsedIncPcS
  let sum := s.handleSum instr
  let addr := s.handleAddr instr
  if instr.getLsbD 21 && !instr.getLsbD 24 then s.abort UNDEFINEDINSTRV
  else if lhsReg instr == 15 then s.abort UNDEFINEDINSTRV
  else if instr.getLsbD 12 then s.abort UNDEFINEDINSTRV
  else if addr &&& 7 ≠ 0 then s.abort UNDEFINEDINSTRV
  else if doubleOverlap instr then s.abort UNDEFINEDINSTRV
  else
    let s := ops.storeWordN s addr (s.reg (destReg instr))
    let s := ops.storeWordN s (addr + 4) (s.reg (destReg instr + 1))
    if s.aborted ≠ 0 then s.abort DATAABORTV
    else if doubleWriteBack instr then s.setLSBase instr sum else s

/-- The words of `LDRD` and `STRD` with an even register. -/
structure IsDouble : Prop where
  op : bits instr 25 27 = 0 ∧ instr.getLsbD 20 = false
  pair : bits instr 4 7 = 0xD ∨ bits instr 4 7 = 0xF
  even : instr.getLsbD 12 = false

/-- What an XScale does in front of the main switch. -/
def xscaleFront : Option (State U) :=
  if s.isXScale && !instr.getLsbD 20 && bits instr 25 27 == 0 then
    if bits instr 4 7 = 0xD then some (s.xscaleLoadDouble ops instr)
    else if bits instr 4 7 = 0xF then some (s.xscaleStoreDouble ops instr)
    else none
  else none

/-- The XScale's by `BITS (4, 7)`. -/
def xscaleDouble : State U :=
  if bits instr 4 7 = 0xD then s.xscaleLoadDouble ops instr else s.xscaleStoreDouble ops instr

/-- The others' by `BITS (4, 7)`. -/
def handleDouble : State U :=
  if bits instr 4 7 = 0xD then s.handleLoadDouble ops instr else s.handleStoreDouble ops instr

/-! ## The two accesses -/

/-- The state after both accesses of the pair, and what a load returns. -/
def pairAccess : (ARMword × ARMword) × State U :=
  let addr := s.doubleAddr instr
  if bits instr 4 7 = 0xD then
    let (v, s) := ops.loadWordN s addr
    let (v', s) := ops.loadWordN s (addr + 4)
    ((v, v'), s)
  else
    let t := ops.storeWordN s addr (s.reg (destReg instr))
    ((s.reg (destReg instr), s.reg (destReg instr + 1)),
      ops.storeWordN t (addr + 4) (s.reg (destReg instr + 1)))

/-- The memory system faults one of the two words: `Aborted` is raised. -/
def PairFaults : Prop := (pairAccess ops { s with aborted := 0 } instr).2.aborted ≠ 0

/-- An encoding that both carry out. -/
structure DoubleLegal : Prop where
  indexing : ¬ (instr.getLsbD 21 = true ∧ instr.getLsbD 24 = false)
  regs : if bits instr 4 7 = 0xD then destReg instr ≠ 14 else lhsReg instr ≠ 15
  overlap : doubleOverlap instr = false

/-- The pair is at a doubleword boundary, the encoding one that both carry out, no abort is
left over and neither word faults. -/
structure DoubleFits : Prop where
  legal : DoubleLegal instr
  aligned : s.doubleAddr instr &&& 7 = 0
  pending : s.aborted = 0
  faults : ¬ s.PairFaults ops instr

/-- The state executes the ARM instruction at `a`, a word boundary, on a version 4 processor. -/
structure AtDouble (m : Mode32) (a : ARMword) : Prop extends s.Executing m a where
  isV4 : s.isV4 = true
  nextInstr : s.nextInstr = 0
  word : a &&& 3 = 0

/-- What both leave of the pair and of the base. -/
def doubleDone (p : (ARMword × ARMword) × State U) (sum : ARMword) : State U :=
  let t :=
    if bits instr 4 7 = 0xD then
      (p.2.setReg (destReg instr) p.1.1).setReg (destReg instr + 1) p.1.2
    else p.2
  if doubleWriteBack instr then t.setLSBase instr sum else t

variable {ops s instr}

theorem readData_cases (ops : MmuOps U) (s : State U) (datatype : DataType) (a : ARMword) :
    (∃ data mmu, ops.readData s datatype a = (data, s.accessed mmu)) ∨
      ∃ mmu f, ops.readData s datatype a = (s.abortWord, s.dataAbort mmu f a) := by
  rw [MmuOps.readData]
  rcases ops.read s.cpu s.mmu a datatype with ⟨f | data, mmu⟩
  · exact .inr ⟨mmu, f, rfl⟩
  · exact .inl ⟨data, mmu, rfl⟩

theorem writeData_cases (ops : MmuOps U) (s : State U) (datatype : DataType) (a data : ARMword) :
    (∃ mmu, ops.writeData s datatype a data = s.accessed mmu) ∨
      ∃ mmu f, ops.writeData s datatype a data = s.dataAbort mmu f a := by
  rw [MmuOps.writeData]
  rcases ops.write s.cpu s.mmu a datatype data with ⟨_ | f, mmu⟩
  · exact .inl ⟨mmu, rfl⟩
  · exact .inr ⟨mmu, f, rfl⟩

/-- A load does not look at the registers. -/
theorem readData_setReg (ops : MmuOps U) (s : State U) (datatype : DataType) (a : ARMword)
    (r : RegNo) (v : ARMword) : ops.readData (s.setReg r v) datatype a =
      ((ops.readData s datatype a).1, (ops.readData s datatype a).2.setReg r v) := by
  simp only [MmuOps.readData]
  have hc : ops.read (s.setReg r v).cpu (s.setReg r v).mmu a datatype =
      ops.read s.cpu s.mmu a datatype := rfl
  rw [hc]
  rcases ops.read s.cpu s.mmu a datatype with ⟨f | data, mmu⟩ <;> rfl

/-- An access, as the next one and the test for an abort see it. -/
structure Accessed (s t : State U) : Prop where
  nextInstr : t.nextInstr = s.nextInstr
  reg : t.reg = s.reg
  aborted : t.aborted = 0 → s.aborted = 0 ∧ t.abortSig = false

theorem Accessed.trans {s t u : State U} (h : s.Accessed t) (h' : t.Accessed u) :
    s.Accessed u where
  nextInstr := h'.nextInstr.trans h.nextInstr
  reg := h'.reg.trans h.reg
  aborted ha := ⟨(h.aborted (h'.aborted ha).1).1, (h'.aborted ha).2⟩

theorem accessed_readData (ops : MmuOps U) (s : State U) (datatype : DataType) (a : ARMword) :
    s.Accessed (ops.readData s datatype a).2 := by
  rcases readData_cases ops s datatype a with ⟨data, mmu, h⟩ | ⟨mmu, f, h⟩ <;> rw [h]
  · exact ⟨rfl, rfl, fun ha => ⟨ha, rfl⟩⟩
  · exact ⟨rfl, rfl, fun ha => absurd ha (show DATAABORTV ≠ 0 by decide)⟩

theorem accessed_writeData (ops : MmuOps U) (s : State U) (datatype : DataType)
    (a data : ARMword) : s.Accessed (ops.writeData s datatype a data) := by
  rcases writeData_cases ops s datatype a data with ⟨mmu, h⟩ | ⟨mmu, f, h⟩ <;> rw [h]
  · exact ⟨rfl, rfl, fun ha => ⟨ha, rfl⟩⟩
  · exact ⟨rfl, rfl, fun ha => absurd ha (show DATAABORTV ≠ 0 by decide)⟩

theorem accessed_pairAccess : s.Accessed (s.pairAccess ops instr).2 := by
  unfold pairAccess
  split
  · exact (accessed_readData ops s .word _).trans (accessed_readData ops _ .word _)
  · exact (accessed_writeData ops s .word _ _).trans (accessed_writeData ops _ .word _ _)

/-- `Aborted` is clear after the pair if it was before, and neither word faults. -/
theorem pairAccess_aborted_iff :
    (s.pairAccess ops instr).2.aborted = 0 ↔ s.aborted = 0 ∧ ¬ s.PairFaults ops instr := by
  have hsame (h : s.aborted = 0) : ({ s with aborted := 0 } : State U) = s := by
    rw [← h]
  constructor
  · intro h
    have h0 := (accessed_pairAccess.aborted h).1
    refine ⟨h0, fun hf => hf ?_⟩
    rw [hsame h0]
    exact h
  · rintro ⟨h0, hf⟩
    rw [PairFaults, hsame h0, not_not] at hf
    exact hf

theorem xscaleDouble_eq (he : instr.getLsbD 12 = false) (ha : s.doubleAddr instr &&& 7 = 0) :
    s.xscaleDouble ops instr = doubleDone instr (s.pairAccess ops instr) (s.doubleSum instr) := by
  unfold xscaleDouble pairAccess doubleDone
  by_cases hp : bits instr 4 7 = 0xD
  · simp only [hp, if_true, xscaleLoadDouble, he, Bool.false_eq_true, if_false, ha, ne_eq,
      not_true, MmuOps.loadWordN, readData_setReg]
  · have hreg := (accessed_writeData ops s .word (s.doubleAddr instr) (s.reg (destReg instr))).reg
    simp only [hp, if_false, xscaleStoreDouble, he, Bool.false_eq_true, ha, ne_eq, not_true,
      MmuOps.storeWordN, hreg]

theorem xscaleDouble_misaligned (he : instr.getLsbD 12 = false)
    (ha : s.doubleAddr instr &&& 7 ≠ 0) : s.xscaleDouble ops instr = s.abort DATAABORTV := by
  unfold xscaleDouble
  split
  · simp only [xscaleLoadDouble, he, Bool.false_eq_true, if_false]
    exact if_pos ha
  · simp only [xscaleStoreDouble, he, Bool.false_eq_true, if_false]
    exact if_pos ha

section At

variable {m : Mode32} {a : ARMword}

theorem AtDouble.lhs_eq (hs : s.AtDouble m a) : s.lhs instr = s.reg (lhsReg instr) := by
  unfold lhs
  split
  · rename_i h
    rw [h, hs.pc]
    have hm : (0xFFFFFFFC : ARMword) = BitVec.allOnes 32 <<< 2 := rfl
    have h3 := Word.toNat_and_low a 2 (by omega)
    have hw := congrArg BitVec.toNat hs.word
    apply BitVec.eq_of_toNat_eq
    rw [hm, Word.toNat_and_high, BitVec.toNat_add]
    change (a &&& 3).toNat = 0 at hw
    change (a &&& 3).toNat = a.toNat % 4 at h3
    have h8 : (8 : ARMword).toNat = 8 := rfl
    omega
  · rfl

theorem AtDouble.sum_eq (hs : s.AtDouble m a) : s.handleSum instr = s.doubleSum instr := by
  rw [handleSum, doubleSum, hs.lhs_eq]

theorem AtDouble.addr_eq (hs : s.AtDouble m a) : s.handleAddr instr = s.doubleAddr instr := by
  rw [handleAddr, doubleAddr, hs.lhs_eq, hs.sum_eq]

theorem AtDouble.busUsedIncPcS (hs : s.AtDouble m a) : s.busUsedIncPcS = s := if_pos hs.isV4

theorem handleDouble_refuses (hs : s.AtDouble m a)
    (h : ¬ (DoubleLegal instr ∧ s.doubleAddr instr &&& 7 = 0)) :
    s.handleDouble ops instr = s.abort UNDEFINEDINSTRV := by
  unfold handleDouble
  split
  · rename_i hp
    simp only [handleLoadDouble, hs.busUsedIncPcS, hs.addr_eq]
    split
    · rfl
    · split
      · rfl
      · split
        · rfl
        · split
          · rfl
          · rename_i h1 h2 h3 h4
            refine absurd ⟨⟨?_, ?_, ?_⟩, not_not.mp h3⟩ h
            · simpa using h1
            · rw [if_pos hp]
              intro h14
              rw [h14] at h2
              exact h2 (Bool.or_true _)
            · simpa using h4
  · rename_i hp
    simp only [handleStoreDouble, hs.busUsedIncPcS, hs.addr_eq]
    split
    · rfl
    · split
      · rfl
      · split
        · rfl
        · split
          · rfl
          · split
            · rfl
            · rename_i h1 h2 h3 h4 h5
              refine absurd ⟨⟨?_, ?_, ?_⟩, not_not.mp h4⟩ h
              · simpa using h1
              · rw [if_neg hp]
                simpa using h2
              · simpa using h5

theorem handleDouble_eq (hs : s.AtDouble m a) (he : instr.getLsbD 12 = false)
    (hl : DoubleLegal instr) (ha : s.doubleAddr instr &&& 7 = 0) :
    s.handleDouble ops instr =
      if (s.pairAccess ops instr).2.aborted ≠ 0 then (s.pairAccess ops instr).2.abort DATAABORTV
      else doubleDone instr (s.pairAccess ops instr) (s.doubleSum instr) := by
  have hidx : (instr.getLsbD 21 && !instr.getLsbD 24) = false := by
    have := hl.indexing
    revert this
    cases instr.getLsbD 21 <;> cases instr.getLsbD 24 <;> decide
  have hregs := hl.regs
  have hic : (s.pairAccess ops instr).2.aborted = 0 →
      (s.pairAccess ops instr).2.icycles = (s.pairAccess ops instr).2 := by
    intro h
    rw [icycles, ← (accessed_pairAccess.aborted h).2]
  unfold handleDouble
  by_cases hp : bits instr 4 7 = 0xD
  · rw [if_pos hp] at hregs
    have hd : (destReg instr == 14) = false := beq_eq_false_iff_ne.mpr hregs
    simp only [pairAccess, doubleDone, hp, if_true, handleLoadDouble, hs.busUsedIncPcS,
      hs.addr_eq, hs.sum_eq, hidx, he, hd, hl.overlap, Bool.false_eq_true, if_false, Bool.or_self,
      ha, ne_eq, not_true] at hic ⊢
    split
    · rfl
    · rename_i h
      rw [hic (not_not.mp h)]
  · rw [if_neg hp] at hregs
    have hb : (lhsReg instr == 15) = false := beq_eq_false_iff_ne.mpr hregs
    have hreg := (accessed_writeData ops s .word (s.doubleAddr instr) (s.reg (destReg instr))).reg
    simp only [pairAccess, doubleDone, hp, if_false, handleStoreDouble, hs.busUsedIncPcS,
      hs.addr_eq, hs.sum_eq, hidx, he, hb, hl.overlap, Bool.false_eq_true,
      ha, ne_eq, not_true, MmuOps.storeWordN, hreg]

/-- An exception refills the pipeline. -/
theorem abort_nextInstr (s : State U) (vector : ARMword) :
    (s.abort vector).nextInstr &&& PRIMEPIPE = PRIMEPIPE := by
  have h15 (t : State U) (v : ARMword) : (t.setR15 v).nextInstr &&& PRIMEPIPE = PRIMEPIPE :=
    Word.or_and_right _ _
  unfold abort
  simp only
  split
  · exact h15 _ _
  · exact h15 _ _

theorem doubleDone_nextInstr (p : (ARMword × ARMword) × State U) (sum : ARMword) :
    (doubleDone instr p sum).nextInstr = p.2.nextInstr := by
  unfold doubleDone
  simp only
  split <;> split <;> rfl

theorem xscaleFront_eq (hi : IsDouble instr) (hx : s.isXScale = true) :
    s.xscaleFront ops instr = some (s.xscaleDouble ops instr) := by
  unfold xscaleFront xscaleDouble
  rw [hx, hi.op.1, hi.op.2]
  rcases hi.pair with hp | hp <;> rw [hp] <;> rfl

/-- The paths agree on a pair transfer, and take its faults, exactly if it fits. -/
theorem double_paths_agree_iff (ops : MmuOps U) (instr : ARMword) (hi : IsDouble instr)
    (hs : s.AtDouble m a) :
    (s.isXScale = true → s.xscaleFront ops instr = some (s.xscaleDouble ops instr)) ∧
    ((s.xscaleDouble ops instr = s.handleDouble ops instr ∧
      (s.PairFaults ops instr → s.Aborted (s.xscaleDouble ops instr) (s.reg 15))) ↔
      s.DoubleFits ops instr) := by
  refine ⟨xscaleFront_eq hi, ?_⟩
  have hflow : (doubleDone instr (s.pairAccess ops instr) (s.doubleSum instr)).nextInstr = 0 := by
    rw [doubleDone_nextInstr, accessed_pairAccess.nextInstr, hs.nextInstr]
  have hne (t : State U) (v : ARMword) :
      doubleDone instr (s.pairAccess ops instr) (s.doubleSum instr) ≠ t.abort v := by
    intro h
    have hp := abort_nextInstr t v
    rw [← h, hflow] at hp
    exact absurd hp (by decide)
  constructor
  · rintro ⟨hx, -⟩
    by_cases ha : s.doubleAddr instr &&& 7 = 0
    · rw [xscaleDouble_eq hi.even ha] at hx
      by_cases hl : DoubleLegal instr
      · rw [handleDouble_eq hs hi.even hl ha] at hx
        split at hx
        · exact absurd hx (hne _ _)
        · rename_i h0
          obtain ⟨hp, hf⟩ := pairAccess_aborted_iff.mp (not_not.mp h0)
          exact ⟨hl, ha, hp, hf⟩
      · rw [handleDouble_refuses hs fun h => hl h.1] at hx
        exact absurd hx (hne _ _)
    · rw [xscaleDouble_misaligned hi.even ha, handleDouble_refuses hs fun h => ha h.2] at hx
      -- one is in Abort mode, the other in Undefined mode
      have h1 := (entered_abort hs.prog32Sig hs.inMode.validMode .dataAbort).mode
      have h2 := (entered_abort hs.prog32Sig hs.inMode.validMode .undef).mode
      change (s.abort DATAABORTV).mode = _ at h1
      change (s.abort UNDEFINEDINSTRV).mode = _ at h2
      rw [hx, h2] at h1
      exact absurd h1 (by decide)
  · intro h
    have h0 := pairAccess_aborted_iff.mpr ⟨h.pending, h.faults⟩
    refine ⟨?_, fun hf => absurd hf h.faults⟩
    rw [xscaleDouble_eq hi.even h.aligned, handleDouble_eq hs hi.even h.legal h.aligned,
      if_neg (not_not.mpr h0)]

/-- Before an instruction at 0 of supervisor code, on a machine with one section. -/
def atStart (mmu : MmuState Arm920t) : State Arm920t :=
  { (Arm920t.boot.setReg 15 8) with nextInstr := 0, mmu := mmu }

theorem atDouble_atStart (mmu : MmuState Arm920t) : (atStart mmu).AtDouble .svc 0 where
  inMode := ⟨rfl, rfl⟩
  prog32Sig := rfl
  tFlag := rfl
  pc := rfl
  isV4 := rfl
  nextInstr := rfl
  word := rfl

theorem isDouble_ldrd : IsDouble 0xE1C200D8 := ⟨by decide, by decide, by decide⟩

/-- `LDRD r0, [r2, #8]` from a mapped page -/
theorem double_paths_agree_iff_ldrd :
    (atStart (Arm920t.oneSection 0x802 1)).xscaleDouble (Arm920t.ops 0) 0xE1C200D8 =
      (atStart (Arm920t.oneSection 0x802 1)).handleDouble (Arm920t.ops 0) 0xE1C200D8 :=
  ((double_paths_agree_iff (Arm920t.ops 0) 0xE1C200D8 isDouble_ldrd
    (atDouble_atStart (Arm920t.oneSection 0x802 1))).2.mpr
      ⟨⟨by decide, by decide, by decide⟩, by decide, rfl,
        fun h => h (by decide +kernel)⟩).1

/-- From a page that is not mapped: the XScale's takes no abort. -/
theorem xscale_double_drops_fault :
    ¬ ∀ (s : State Arm920t) (m : Mode32) (a instr : ARMword), IsDouble instr →
      s.AtDouble m a →
        s.xscaleDouble (Arm920t.ops 0) instr = s.handleDouble (Arm920t.ops 0) instr ∧
          (s.PairFaults (Arm920t.ops 0) instr →
            s.Aborted (s.xscaleDouble (Arm920t.ops 0) instr) (s.reg 15)) := by
  intro h
  have ht := (h (atStart Arm920t.unmapped.mmu) .svc 0 0xE1C200D8 isDouble_ldrd
    (atDouble_atStart _)).2 (show _ ≠ _ by decide +kernel)
  exact absurd ht.inMode.mode (by decide +kernel)

end At

end SkyEye.State
