import SkyEye.Mips.Decoder

/-!
# Properties the decoder keeps

A property of the state that the elementary changes keep (`Stable`) is kept by every
instruction outside coprocessor 0 (`Stable.decode`), by the translation of addresses and by
the step around the instruction. The coprocessor's own instructions are for each property to
look at.
-/

namespace SkyEye.Mips

open Sparc (Uint32 bit bitsmask setBit clearBit clearBits)

variable {M : Type} {h : Host M} {P : MipsState M → Prop}

/-- `s'` differs from `s` in the PC, the general registers, HI, LO and the branch only. -/
def MipsState.SameSystem (s s' : MipsState M) : Prop :=
  s' = { s with
    pc := s'.pc, gpr := s'.gpr, hi := s'.hi, lo := s'.lo, pipeline := s'.pipeline,
    branchTarget := s'.branchTarget }

/-- The property survives each change that the decoder is made of. -/
structure Stable (h : Host M) (P : MipsState M → Prop) : Prop where
  core : ∀ {s s' : MipsState M}, s.SameSystem s' → P s → P s'
  exception : ∀ {s : MipsState M} (cause vec : Uint32), P s → P (s.processException cause vec)
  badVAddr : ∀ {s : MipsState M} (va : Uint32), P s → P (s.setCp0 BadVAddr va)
  tlbFault : ∀ {s : MipsState M} (va : Uint32), P s → P (s.tlbFault va)
  read : ∀ {s : MipsState M} (pa data : Uint32) (len : Nat), P s → P (s.memRead h pa data len).2
  write : ∀ {s : MipsState M} (pa data : Uint32) (len : Nat), P s → P (s.memWrite h pa data len)

/-- The state an instruction leaves, if any, has the property. -/
def Leaves (P : MipsState M → Prop) (o : MipsState.Outcome M) : Prop :=
  ∀ s n, o = some (s, n) → P s

theorem leaves_none : Leaves P none := by
  intro s n e
  cases e

theorem leaves_some {s : MipsState M} {n : Pipeline} (hs : P s) : Leaves P (some (s, n)) := by
  intro s' n' e
  cases e
  exact hs

theorem leaves_plain {s : MipsState M} (hs : P s) : Leaves P s.plain := leaves_some hs

namespace Stable

variable (hP : Stable h P) {s : MipsState M}

include hP

theorem setGpr (n : Nat) (v : Uint32) (hs : P s) : P (s.setGpr n v) := hP.core rfl hs

theorem addressError (type : AccessType) (va : Uint32) (hs : P s) :
    P (s.processAddressError type va) := hP.exception _ _ (hP.badVAddr va hs)

/-- Where the translation does not succeed it has raised an exception. -/
theorem translateMapped (va : Uint32) (type : AccessType) (hs : P s)
    {r : Option Uint32 × MipsState M} (e : s.translateMapped va type = some r) : P r.2 := by
  unfold MipsState.translateMapped at e
  split at e
  · cases e
  · cases e
    exact hP.exception _ _ (hP.tlbFault va hs)
  · extract_lets lo at e
    split at e
    · cases e
      exact hP.exception _ _ (hP.tlbFault va hs)
    · split at e
      · cases e
        exact hP.exception _ _ (hP.tlbFault va hs)
      · cases e
        exact hs

theorem translateVaddr (va : Uint32) (type : AccessType) (hs : P s)
    {r : Option Uint32 × MipsState M} (e : s.translateVaddr va type = some r) : P r.2 := by
  unfold MipsState.translateVaddr at e
  split at e
  · exact hP.translateMapped va type hs e
  · split at e
    · cases e
      exact hP.addressError type va hs
    · split at e
      · cases e
        exact hs
      · split at e
        · cases e
          exact hs
        · exact hP.translateMapped va type hs e

theorem translated (va : Uint32) (type : AccessType) (hs : P s)
    {k : Uint32 → MipsState M → MipsState.Outcome M}
    (hk : ∀ pa s, P s → Leaves P (k pa s)) : Leaves P (s.translated va type k) := by
  unfold MipsState.translated
  split
  · exact leaves_none
  · rename_i s' e
    exact leaves_plain (hP.translateVaddr va type hs e)
  · rename_i pa s' e
    exact hk pa s' (hP.translateVaddr va type hs e)

theorem branch (taken : Bool) (instr : Uint32) (hs : P s) : Leaves P (s.branch taken instr) :=
  leaves_some (hP.core rfl hs)

theorem branchLikely (taken : Bool) (instr : Uint32) (hs : P s) :
    Leaves P (s.branchLikely taken instr) := by
  unfold MipsState.branchLikely
  split
  · exact hP.branch true instr hs
  · exact leaves_some (hP.core rfl hs)

theorem loadInstr (instr : Uint32) (len : Nat) (extend : Uint32 → Uint32) (hs : P s) :
    Leaves P (s.loadInstr h instr len extend) :=
  hP.translated _ _ hs fun pa _ hs => leaves_plain (hP.setGpr _ _ (hP.read pa _ _ hs))

theorem storeInstr (instr : Uint32) (len : Nat) (hs : P s) :
    Leaves P (s.storeInstr h instr len) :=
  hP.translated _ _ hs fun pa _ hs => leaves_plain (hP.write pa _ _ hs)

theorem checkAligned (aligned : Bool) (va : Uint32) (type : AccessType) (hs : P s) :
    P (s.checkAligned aligned va type) := by
  unfold MipsState.checkAligned
  split
  · exact hs
  · exact hP.addressError type va hs

theorem loadHalf (instr : Uint32) (extend : Uint32 → Uint32) (hs : P s) :
    Leaves P (s.loadHalf h instr extend) :=
  hP.translated _ _ (hP.checkAligned _ _ _ hs) fun pa _ hs =>
    leaves_plain (hP.setGpr _ _ (hP.read pa _ _ hs))

theorem loadWord (instr : Uint32) (hs : P s) : Leaves P (s.loadWord h instr) :=
  hP.translated _ _ (hP.checkAligned _ _ _ hs) fun pa _ hs =>
    leaves_plain (hP.setGpr _ _ (hP.read pa _ _ hs))

theorem storeHalf (instr : Uint32) (hs : P s) : Leaves P (s.storeHalf h instr) :=
  hP.translated _ _ (hP.checkAligned _ _ _ hs) fun pa _ hs => leaves_plain (hP.write pa _ _ hs)

theorem storeWord (instr : Uint32) (hs : P s) : Leaves P (s.storeWord h instr) := by
  unfold MipsState.storeWord
  split
  · exact leaves_none
  · exact hP.storeInstr instr 4 hs

theorem loadPart (instr : Uint32) (left : Bool) (merge : Uint32 → Uint32 → Nat → Uint32)
    (hs : P s) : Leaves P (s.loadPart h instr left merge) :=
  hP.translated _ _ hs fun _ _ hs => leaves_plain (hP.setGpr _ _ (hP.read _ _ _ hs))

theorem storePart (instr : Uint32) (left : Bool) (merge : Uint32 → Uint32 → Nat → Uint32)
    (hs : P s) : Leaves P (s.storePart h instr left merge) :=
  hP.translated _ _ hs fun _ _ hs => leaves_plain (hP.write _ _ _ (hP.read _ _ _ hs))

theorem loadLinked (instr : Uint32) (hs : P s) : Leaves P (s.loadLinked h instr) :=
  hP.translated _ _ hs fun pa _ hs => leaves_plain (hP.setGpr _ _ (hP.read pa _ _ hs))

theorem storeConditional (instr : Uint32) (hs : P s) : Leaves P (s.storeConditional h instr) :=
  hP.translated _ _ hs fun pa _ hs => leaves_plain (hP.setGpr _ _ (hP.write pa _ _ hs))

theorem addOverflow (r : Nat) (x y : Uint32) (hs : P s) : Leaves P (s.addOverflow r x y) := by
  unfold MipsState.addOverflow
  refine leaves_plain (hP.setGpr _ _ ?_)
  split
  · exact hP.exception _ _ hs
  · exact hs

theorem subOverflow (r : Nat) (x y : Uint32) (hs : P s) : Leaves P (s.subOverflow r x y) := by
  unfold MipsState.subOverflow
  refine leaves_plain (hP.setGpr _ _ ?_)
  split
  · exact hP.exception _ _ hs
  · exact hs

theorem divideInt32 (x y : Uint32) (hs : P s) :
    Leaves P ((s.divideInt32 x y).bind MipsState.plain) := by
  unfold MipsState.divideInt32
  split
  · exact leaves_none
  · exact leaves_plain (hP.core rfl hs)

theorem divideUInt32 (x y : Uint32) (hs : P s) :
    Leaves P ((s.divideUInt32 x y).bind MipsState.plain) := by
  unfold MipsState.divideUInt32
  split
  · exact leaves_none
  · exact leaves_plain (hP.core rfl hs)

theorem decodeSpecial (instr : Uint32) (hs : P s) : Leaves P (s.decodeSpecial instr) := by
  have hw (v : Uint32) : Leaves P (s.setGpr (rd instr) v).plain := leaves_plain (hP.setGpr _ _ hs)
  unfold MipsState.decodeSpecial
  extract_lets x y write
  split
  · split
    · exact hw _
    · exact leaves_plain hs
  · exact hw _
  · exact hw _
  · exact hw _
  · exact hw _
  · exact hw _
  · exact leaves_some (hP.core rfl hs)
  · exact leaves_some (hP.core (s := s) rfl hs)
  · split
    · exact hw _
    · exact leaves_plain hs
  · split
    · exact hw _
    · exact leaves_plain hs
  · exact leaves_plain (hP.exception _ _ hs)
  · exact leaves_plain hs
  · exact leaves_plain hs
  · exact hw _
  · exact leaves_plain (hP.core rfl hs)
  · exact hw _
  · exact leaves_plain (hP.core rfl hs)
  · exact leaves_plain (hP.core rfl hs)
  · exact leaves_plain (hP.core rfl hs)
  · exact hP.divideInt32 _ _ hs
  · exact hP.divideUInt32 _ _ hs
  · exact hP.addOverflow _ _ _ hs
  · exact hw _
  · exact hP.subOverflow _ _ _ hs
  · exact hw _
  · exact hw _
  · exact hw _
  · exact hw _
  · exact hw _
  · exact hw _
  · exact hw _
  · exact leaves_plain hs
  · exact leaves_plain hs
  · exact leaves_none

theorem decodeRegimm (instr : Uint32) (hs : P s) : Leaves P (s.decodeRegimm instr) := by
  unfold MipsState.decodeRegimm
  split
  all_goals first
    | exact hP.branch _ _ hs
    | exact hP.branchLikely _ _ hs
    | exact hP.branch _ _ (hP.setGpr _ _ hs)
    | exact leaves_none

theorem decodeSpecial2 (instr : Uint32) (hs : P s) : Leaves P (s.decodeSpecial2 instr) := by
  unfold MipsState.decodeSpecial2
  split
  all_goals first
    | exact leaves_plain (hP.core rfl hs)
    | exact leaves_none

theorem decodeImmediate (instr : Uint32) (hs : P s) : Leaves P (s.decodeImmediate instr) := by
  unfold MipsState.decodeImmediate
  split
  all_goals first
    | exact hP.addOverflow _ _ _ hs
    | exact leaves_plain (hP.setGpr _ _ hs)

theorem decodeCop1 (instr : Uint32) (hs : P s) : P (s.decodeCop1 instr).1 := by
  unfold MipsState.decodeCop1
  repeat' split
  · exact hP.exception _ _ hs
  · exact hs
  · exact hP.setGpr _ _ hs
  · exact hs

/-- Every instruction but those of coprocessor 0. -/
theorem decode (instr : Uint32) (hcop : opcode instr = 0o20 → Leaves P (s.decodeCop0 h instr))
    (hs : P s) : Leaves P (s.decode h instr) := by
  unfold MipsState.decode
  extract_lets x y
  split
  · exact hP.decodeSpecial _ hs
  · exact hP.decodeRegimm _ hs
  · exact leaves_some (hP.core rfl hs)
  · exact leaves_some (hP.core rfl (hP.setGpr 31 (s.pc + 8) hs))
  · exact hP.branch _ _ hs
  · exact hP.branch _ _ hs
  · exact hP.branch _ _ hs
  · exact hP.branch _ _ hs
  · exact hP.decodeImmediate _ hs
  · exact hP.decodeImmediate _ hs
  · exact hP.decodeImmediate _ hs
  · exact hP.decodeImmediate _ hs
  · exact hP.decodeImmediate _ hs
  · exact hP.decodeImmediate _ hs
  · exact hP.decodeImmediate _ hs
  · exact hP.decodeImmediate _ hs
  · exact hcop ‹_›
  · exact leaves_some (hP.decodeCop1 _ hs)
  · exact hP.branchLikely _ _ hs
  · exact hP.branchLikely _ _ hs
  · exact hP.branchLikely _ _ hs
  · exact hP.branchLikely _ _ hs
  · exact hP.decodeSpecial2 _ hs
  · exact hP.loadInstr _ _ _ hs
  · exact hP.loadHalf _ _ hs
  · exact hP.loadPart _ _ _ hs
  · exact hP.loadWord _ hs
  · exact hP.loadInstr _ _ _ hs
  · exact hP.loadHalf _ _ hs
  · exact hP.loadPart _ _ _ hs
  · exact hP.storeInstr _ _ hs
  · exact hP.storeHalf _ hs
  · exact hP.storePart _ _ _ hs
  · exact hP.storeWord _ hs
  · exact hP.storePart _ _ _ hs
  · exact leaves_plain hs
  · exact hP.loadLinked _ hs
  · exact leaves_plain hs
  · exact leaves_plain hs
  · exact hP.storeConditional _ hs
  · exact leaves_plain hs
  · exact leaves_none

end Stable

end SkyEye.Mips
