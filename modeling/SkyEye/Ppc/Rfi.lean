import SkyEye.Ppc.Defs

/-!
# Return from an exception

`ppc_opc_rfi` and `ppc_set_msr` of `ppc_opc.c` against the entry of an exception: what of the
interrupted context comes back.
-/

namespace SkyEye.Ppc

open Sparc (Uint32)

/-- Bits of the MSR. -/
abbrev msrCe : Uint32 := 1 <<< 17
abbrev msrPow : Uint32 := 1 <<< 18
abbrev msrEe : Uint32 := 1 <<< 15
abbrev msrPr : Uint32 := 1 <<< 14

abbrev msrRfiSaveMask : Uint32 := 0xFF73

/-- CE, EE, PR, FP, ME, DE, IS and DS. -/
abbrev msrContext : Uint32 := 0x2F230

namespace E500Core

variable {M : Type} (s : E500Core M)

def ppcSetMsr (newmsr : Uint32) : E500Core M :=
  { s with msr := if newmsr &&& msrPow ≠ 0 then newmsr &&& ~~~msrPow else newmsr }

/-- `ppc_opc_rfi`; none in user mode, where `ppc_exception` does not know the type and the
simulator exits. -/
def ppcOpcRfi : Option (E500Core M) :=
  if s.msr &&& msrPr ≠ 0 then none
  else some { s.ppcSetMsr (s.srr1 &&& msrRfiSaveMask) with npc := s.srr0 &&& 0xFFFFFFFC }

/-- Where the interrupted program goes on: with the instruction that faulted, or with the next
one. -/
def resumeAddress (type : ExcType) : Uint32 :=
  match type with
  | .dataSt | .dataTlb | .insnTlb => s.pc
  | _ => s.npc

end E500Core

/-- The exceptions of storage and the TLBs, of system calls and of interrupts. -/
def ExcType.returns : ExcType → Bool
  | .dataSt | .dataTlb | .insnTlb | .syscall | .dec | .extInt => true
  | _ => false

namespace E500Core

variable {M : Type} {s e u : E500Core M} {type : ExcType} {flags : Nat} {a : Uint32}

/-- What an exception saves, and the mode it leaves. -/
theorem ppcException_saves (htype : type.returns = true) :
    ∃ e, s.ppcException type flags a = some e ∧ e.srr0 = s.resumeAddress type ∧ e.srr1 = s.msr ∧
      e.msr &&& msrPr = 0 := by
  have hmask : (s.msr &&& 0x21200) &&& msrPr = 0 := by
    rw [BitVec.and_assoc, show (0x21200 : Uint32) &&& msrPr = 0 from by decide]
    exact BitVec.and_zero
  have hcall : (s.msr &&& ~~~0x2E930) &&& msrPr = 0 := by
    rw [BitVec.and_assoc, show ~~~(0x2E930 : Uint32) &&& msrPr = 0 from by decide]
    exact BitVec.and_zero
  cases type with
  | syscall => exact ⟨_, rfl, rfl, rfl, hcall⟩
  | dataSt | dataTlb | insnTlb | dec | extInt => exact ⟨_, rfl, rfl, rfl, hmask⟩
  | _ => cases htype

theorem ppcOpcRfi_eq (h : u.msr &&& msrPr = 0) : ∃ t, u.ppcOpcRfi = some t ∧
    t.msr = u.srr1 &&& msrRfiSaveMask ∧ t.npc = u.srr0 &&& 0xFFFFFFFC := by
  refine ⟨_, if_neg (not_not.mpr h), ?_, rfl⟩
  have hpow : u.srr1 &&& msrRfiSaveMask &&& msrPow = 0 := by
    rw [BitVec.and_assoc, show msrRfiSaveMask &&& msrPow = 0 from by decide]
    exact BitVec.and_zero
  exact if_neg (not_not.mpr hpow)

/-- `rfi` keeps the context of an exception, but for CE. -/
theorem saveMask_eq_iff {msr : Uint32} (h : msr &&& ~~~msrContext = 0) :
    msr &&& msrRfiSaveMask = msr ↔ msr &&& msrCe = 0 := by
  have hctx : msr = msr &&& msrContext := by
    apply BitVec.eq_of_getLsbD_eq
    intro i hi
    have := congrArg (BitVec.getLsbD · i) h
    simp only [BitVec.getLsbD_and, BitVec.getLsbD_not, hi, decide_true, Bool.true_and] at this ⊢
    rw [show (0 : Uint32).getLsbD i = false from BitVec.getLsbD_zero] at this
    revert this
    cases msr.getLsbD i <;> cases msrContext.getLsbD i <;> decide
  have hmask : msrRfiSaveMask &&& msrContext = msrContext &&& ~~~msrCe := by decide
  have hkeep : msr &&& msrRfiSaveMask = msr &&& ~~~msrCe := by
    rw [hctx, BitVec.and_assoc, BitVec.and_comm msrContext, hmask, ← BitVec.and_assoc]
  rw [hkeep]
  constructor
  · intro h
    rw [← h, BitVec.and_assoc, show ~~~msrCe &&& msrCe = 0 from by decide]
    exact BitVec.and_zero
  · exact fun h => Word.and_not_eq_self h

theorem aligned_iff (p : Uint32) : p &&& 0xFFFFFFFC = p ↔ p &&& 3 = 0 := by
  have hnot : (0xFFFFFFFC : Uint32) = ~~~3 := by decide
  rw [hnot]
  constructor
  · intro h
    rw [← h, BitVec.and_assoc, show ~~~(3 : Uint32) &&& 3 = 0 from by decide]
    exact BitVec.and_zero
  · exact fun h => Word.and_not_eq_self h

/-- An exception and an `rfi` with SRR0 and SRR1 untouched give the MSR and the address back
exactly if CE was clear and the address is a word's. -/
theorem exception_rfi_restores_iff (htype : type.returns = true)
    (hmsr : s.msr &&& ~~~msrContext = 0) :
    ∃ e, s.ppcException type flags a = some e ∧ e.msr &&& msrPr = 0 ∧
      ∀ u : E500Core M, u.srr0 = e.srr0 → u.srr1 = e.srr1 → u.msr &&& msrPr = 0 →
        ∃ t, u.ppcOpcRfi = some t ∧
          (t.msr = s.msr ∧ t.npc = s.resumeAddress type ↔
            s.msr &&& msrCe = 0 ∧ s.resumeAddress type &&& 3 = 0) := by
  obtain ⟨e, he, h0, h1, hpr⟩ := @ppcException_saves M s type flags a htype
  refine ⟨e, he, hpr, fun u hu0 hu1 hu => ?_⟩
  obtain ⟨t, ht, hmsr', hnpc⟩ := ppcOpcRfi_eq hu
  refine ⟨t, ht, ?_⟩
  rw [hmsr', hnpc, hu0, hu1, h0, h1, saveMask_eq_iff hmsr, aligned_iff]

/-- A core in supervisor mode with critical interrupts enabled. -/
def critical : E500Core Unit where
  gpr _ := 0
  fpr _ := 0
  cr := 0
  xer := 0
  msr := 0x21000
  srr0 := 0
  srr1 := 0
  pc := 0x1000
  npc := 0x1004
  currentOpc := 0
  reserve := 0
  haveReservation := false
  esr := 0
  dear := 0
  tsr := 0
  ivpr := 0
  ivor _ := 0
  mmu := ⟨fun _ => 0, fun _ => 0, 0, fun _ => ⟨0, 0, 0, 0, 0, 0, 0, 0, 0, 0, 0⟩,
    fun _ => ⟨0, 0, 0, 0, 0, 0, 0, 0, 0, 0, 0⟩⟩
  mem := ()
  raised := []
  written := []

theorem exception_rfi_loses_ce :
    critical.msr &&& ~~~msrContext = 0 ∧
      ∃ e, critical.ppcException .syscall 0 0 = some e ∧
        ∃ t, e.ppcOpcRfi = some t ∧ t.msr ≠ critical.msr :=
  ⟨by decide, _, rfl, _, rfl, by decide⟩

/-- The same core without CE comes back. -/
theorem exception_rfi_restores_iff_without_ce :
    ∃ e, { critical with msr := 0x1000 }.ppcException .syscall 0 0 = some e ∧
      e.msr &&& msrPr = 0 ∧
      ∀ u : E500Core Unit, u.srr0 = e.srr0 → u.srr1 = e.srr1 → u.msr &&& msrPr = 0 →
        ∃ t, u.ppcOpcRfi = some t ∧
          (t.msr = 0x1000 ∧ t.npc = 0x1004 ↔
            (0x1000 : Uint32) &&& msrCe = 0 ∧ (0x1004 : Uint32) &&& 3 = 0) :=
  exception_rfi_restores_iff rfl (by decide)

end E500Core

end SkyEye.Ppc
