import SkyEye.Arm.Init
import SkyEye.Lib.StoreView

/-!
# Register banking refines a per-mode register file

Over any sequence of mode switches, writes of visible registers and writes of
SPSRs, a register of the current mode reads as the last value written to it in a
mode that shares it, and an SPSR as the last value written to it. The machine is
a `StoreView` whose keys are the homes of the registers.
-/

namespace SkyEye

open StoreView

/-- A register of some mode: one of `r0`–`r15`, or the SPSR. -/
inductive Target where
  | reg (r : RegNo)
  | spsr
  deriving DecidableEq

/-- What the register banks are asked to do. -/
inductive BankOp where
  | switch (m : Mode32)
  | writeReg (r : RegNo) (v : ARMword)
  | writeSpsr (m : Mode32) (v : ARMword)

/-- A write, with the mode it was made for. -/
structure BankWrite where
  mode : Mode32
  target : Target
  value : ARMword

/-- The register file of the architecture: which modes share a register. -/
def Shares (r : RegNo) (m m' : Mode32) : Prop :=
  if r.val < 8 ∨ r.val = 15 then True
  else if r.val < 13 then m = .fiq ↔ m' = .fiq
  else m = m' ∨ (m ∈ [.user, .system] ∧ m' ∈ [.user, .system])

instance (r : RegNo) (m m' : Mode32) : Decidable (Shares r m m') := by
  unfold Shares; infer_instance

/-- The modes that have an SPSR. -/
def Mode32.hasSpsr (m : Mode32) : Bool := m != .user && m != .system

namespace State

variable {U : Type}

/-- The state runs in mode `m`, with `m`'s registers in sight. -/
structure InMode (s : State U) (m : Mode32) : Prop where
  mode : s.mode = m.bits
  bank : s.bank = m.bank

/-- One operation on the banks, as `ARMul_CPSRAltered`, a write of `state->Reg` and
`ARMul_SetSPSR` do it. -/
def bankStep (s : State U) : BankOp → State U
  | .switch m => { s.switchMode s.mode m.bits with mode := m.bits }
  | .writeReg r v => s.setReg r v
  | .writeSpsr m v => s.setSPSR m.bits v

def bankRun (s : State U) (ops : List BankOp) : State U := ops.foldl bankStep s

end State

/-- The mode after `ops` from mode `m`. -/
def lastMode : Mode32 → List BankOp → Mode32
  | m, [] => m
  | _, .switch m' :: ops => lastMode m' ops
  | m, .writeReg _ _ :: ops => lastMode m ops
  | m, .writeSpsr _ _ :: ops => lastMode m ops

/-- The writes that `ops` make from mode `m`, oldest first. -/
def history : Mode32 → List BankOp → List BankWrite
  | _, [] => []
  | _, .switch m' :: ops => history m' ops
  | m, .writeReg r v :: ops => ⟨m, .reg r, v⟩ :: history m ops
  | m, .writeSpsr m' v :: ops =>
    if m'.hasSpsr then ⟨m', .spsr, v⟩ :: history m ops else history m ops

/-! ## The banks as a store -/

theorem homeBank_eq_iff (m m' : Mode32) (r : RegNo) :
    homeBank m.bank r = homeBank m'.bank r ↔ Shares r m m' := by
  simp only [homeBank, Shares]
  split
  · simp
  · split <;> cases m <;> cases m' <;> simp [Mode32.bank]

theorem canAccessSpsr_bank (m : Mode32) : m.bank.canAccessSpsr = m.hasSpsr := by
  cases m <;> rfl

/-- Where a write is kept. -/
def BankWrite.home (w : BankWrite) : Bank × Target :=
  match w.target with
  | .reg r => (homeBank w.mode.bank r, .reg r)
  | .spsr => (w.mode.bank, .spsr)

namespace State

variable {U : Type} {s : State U}

def bankView (s : State U) : Bank × Target → ARMword
  | (b, .reg r) => s.slot b r
  | (b, .spsr) => s.spsr b

theorem InMode.switch {m : Mode32} (h : s.InMode m) (m' : Mode32) :
    (s.bankStep (.switch m')).InMode m' ∧
      bankView (s.bankStep (.switch m')) = bankView s := by
  refine ⟨⟨rfl, by simp [bankStep]⟩, ?_⟩
  funext ⟨b, t⟩
  cases t with
  | reg r =>
    have hs := slot_switchMode s.mode m'.bits
      (by rw [h.mode, h.bank, modeToBank_bits])
      (by rw [h.mode, modeToBank_bits]; exact m.bank_ne_dummy)
      (by rw [modeToBank_bits]; exact m'.bank_ne_dummy)
    exact congrFun (congrFun hs b) r
  | spsr => simp [bankView, bankStep]

theorem InMode.writeReg {m : Mode32} (h : s.InMode m) (r : RegNo) (v : ARMword) :
    (s.bankStep (.writeReg r v)).InMode m ∧
      bankView (s.bankStep (.writeReg r v)) =
        Function.update (bankView s) (homeBank m.bank r, .reg r) v := by
  refine ⟨⟨h.mode, h.bank⟩, ?_⟩
  funext ⟨b, t⟩
  cases t with
  | reg r' =>
    simp only [bankView, bankStep, slot_setReg, Function.update_apply, h.bank, Prod.mk.injEq,
      Target.reg.injEq]
    grind
  | spsr => simp [bankView, bankStep, setReg]

theorem InMode.writeSpsr {m : Mode32} (h : s.InMode m) (m' : Mode32) (v : ARMword) :
    (s.bankStep (.writeSpsr m' v)).InMode m ∧
      bankView (s.bankStep (.writeSpsr m' v)) =
        if m'.hasSpsr then Function.update (bankView s) (m'.bank, .spsr) v else bankView s := by
  simp only [bankStep, setSPSR, modeToBank_bits_and, canAccessSpsr_bank]
  cases hs : m'.hasSpsr with
  | false => exact ⟨h, rfl⟩
  | true =>
    refine ⟨⟨h.mode, h.bank⟩, ?_⟩
    funext ⟨b, t⟩
    cases t <;> simp [bankView, slot, Function.update_apply]

/-- The keys an operation writes. -/
def bankWrites (s : State U) : BankOp → List ((Bank × Target) × ARMword)
  | .switch _ => []
  | .writeReg r v => [((homeBank s.bank r, .reg r), v)]
  | .writeSpsr m v => if m.hasSpsr then [((m.bank, .spsr), v)] else []

theorem InMode.step {m : Mode32} (h : s.InMode m) (op : BankOp) :
    (s.bankStep op).InMode (lastMode m [op]) ∧
      bankView (s.bankStep op) = replay (bankView s) (s.bankWrites op) := by
  cases op with
  | switch m' => exact h.switch m'
  | writeReg r v => simpa [bankWrites, h.bank, replay, lastMode] using h.writeReg r v
  | writeSpsr m' v =>
    have hw := h.writeSpsr m' v
    cases hs : m'.hasSpsr <;> simpa [bankWrites, hs, replay, lastMode] using hw

/-- The register banks as a store of the homes. -/
def bankStore (U : Type) : StoreView (State U) BankOp Unit (Bank × Target) ARMword where
  step := bankStep
  out _ _ := ()
  Inv s := ∃ m, s.InMode m
  Ok _ := True
  view := bankView
  writes := bankWrites
  answer _ _ := ()
  inv_step := fun ⟨_, h⟩ _ => ⟨_, (h.step _).1⟩
  view_step := fun ⟨_, h⟩ _ => (h.step _).2
  out_step := fun _ _ => rfl

theorem lastMode_cons (m : Mode32) (op : BankOp) (ops : List BankOp) :
    lastMode m (op :: ops) = lastMode (lastMode m [op]) ops := by
  cases op <;> rfl

theorem InMode.run {m : Mode32} (h : s.InMode m) (ops : List BankOp) :
    (s.bankRun ops).InMode (lastMode m ops) := by
  induction ops generalizing s m with
  | nil => exact h
  | cons op ops ih =>
    rw [lastMode_cons]
    exact ih (h.step op).1

/-- The store's trace is the history of the writes, at their homes. -/
theorem InMode.trace {m : Mode32} (h : s.InMode m) (ops : List BankOp) :
    (bankStore U).trace s ops = (history m ops).map fun w => (w.home, w.value) := by
  induction ops generalizing s m with
  | nil => rfl
  | cons op ops ih =>
    have hn := ih (h.step op).1
    rw [StoreView.trace, show (bankStore U).step s op = s.bankStep op from rfl, hn]
    cases op with
    | switch m' => rfl
    | writeReg r v => simp [bankStore, bankWrites, history, lastMode, BankWrite.home, h.bank]
    | writeSpsr m' v =>
      cases hs : m'.hasSpsr <;>
        simp [bankStore, bankWrites, history, lastMode, BankWrite.home, hs]

theorem InMode.view_run {m : Mode32} (h : s.InMode m) (ops : List BankOp) (b : Bank)
    (t : Target) :
    bankView (s.bankRun ops) (b, t) =
      lastWrite (fun w => w.home = (b, t)) BankWrite.value (bankView s (b, t)) (history m ops) := by
  have hi : (bankStore U).Inv s := ⟨m, h⟩
  have hv := (bankStore U).view_run_eq_lastWrite hi (fun op (_ : op ∈ ops) => trivial) (b, t)
  rw [h.trace, lastWrite_map] at hv
  exact hv

end State

open State in
/-- Where nothing was written, a register reads as a single switch to the mode would show it. -/
theorem banked_registers_read_last_write {U : Type} {s : State U} {m : Mode32}
    (h : s.InMode m) (ops : List BankOp) :
    (∀ r, (s.bankRun ops).reg r =
      lastWrite (fun w => w.target = .reg r ∧ Shares r w.mode (lastMode m ops)) BankWrite.value
        ((s.switchMode s.mode (lastMode m ops).bits).reg r) (history m ops)) ∧
    (∀ m', m'.hasSpsr → (s.bankRun ops).getSPSR m'.bits =
      lastWrite (fun w => w.target = .spsr ∧ w.mode = m') BankWrite.value
        (s.getSPSR m'.bits) (history m ops)) := by
  constructor
  · intro r
    have hi : (s.switchMode s.mode (lastMode m ops).bits).reg r =
        bankView s (homeBank (lastMode m ops).bank r, .reg r) := by
      rw [switchMode_reg _ _ (by rw [h.mode, h.bank, modeToBank_bits])
        (by rw [h.mode, modeToBank_bits]; exact m.bank_ne_dummy)
        (by rw [modeToBank_bits]; exact (lastMode m ops).bank_ne_dummy), modeToBank_bits]
      rfl
    rw [hi, reg_eq_slot, (h.run ops).bank]
    refine (h.view_run ops _ (.reg r)).trans (lastWrite_congr _ _ fun w _ => ?_)
    cases ht : w.target with
    | spsr => simp [BankWrite.home, ht]
    | reg r' =>
      by_cases hr : r' = r
      · subst hr; simp [BankWrite.home, ht, homeBank_eq_iff]
      · simp [BankWrite.home, ht, hr]
  · intro m' hm'
    simp only [getSPSR, modeToBank_bits_and, canAccessSpsr_bank, hm', if_true]
    refine (h.view_run ops _ .spsr).trans (lastWrite_congr _ _ fun w _ => ?_)
    cases ht : w.target with
    | reg r => simp [BankWrite.home, ht]
    | spsr =>
      simp only [BankWrite.home, ht, Prod.mk.injEq, and_true, true_and]
      cases m' <;> cases w.mode <;> simp [Mode32.bank, Mode32.hasSpsr] at hm' ⊢

/-- FIQ keeps its own `r8`, System shares User's `r13`, and the SPSR of IRQ survives. -/
theorem banked_registers_read_last_write_boot :
    let ops : List BankOp :=
      [.writeReg 8 5, .switch .system, .writeReg 13 6, .writeSpsr .irq 7, .switch .fiq,
        .writeReg 8 9, .writeReg 13 9, .switch .user]
    let t := (State.bootState ()).bankRun ops
    t.reg 8 = 5 ∧ t.reg 13 = 6 ∧ t.getSPSR Mode32.irq.bits = 7 := by
  have h : (State.bootState ()).InMode .svc := ⟨rfl, rfl⟩
  have hr := banked_registers_read_last_write h
    [.writeReg 8 5, .switch .system, .writeReg 13 6, .writeSpsr .irq 7, .switch .fiq,
      .writeReg 8 9, .writeReg 13 9, .switch .user]
  exact ⟨(hr.1 8).trans rfl, (hr.1 13).trans rfl, (hr.2 .irq rfl).trans rfl⟩

end SkyEye
