import SkyEye.Flash.Intel
import SkyEye.Lib.Word
import Mathlib.Tactic.Linarith

/-!
# What the Intel 28F128 protects

From reset, whatever is written, the flash should change only as the commands say, not in a
locked sector, and a command that is not carried out should leave an error bit. That is so in a
run whose buffer programs load from their first address up, within a buffer, and whose sequences
are complete (`meets_of_run`).
-/

namespace SkyEye.Flash.Intel

/-! ## What a write has to do -/

/-- The words `loads` that `p` selects, ANDed into `v`. -/
def andLoads (p : Word → Bool) (v : ARMword) : List (Word × ARMword) → ARMword
  | [] => v
  | l :: loads => if p l.1 then andLoads p v loads &&& l.2 else andLoads p v loads

/-- The memory that a write should leave. -/
def expected (io : Intel) (addr data : ARMword) : Word → ARMword :=
  match io.wsmMode with
  | .program =>
    if io.isLocked addr then io.mem
    else Function.update io.mem (wordAddr addr) (io.mem (wordAddr addr) &&& data)
  | .writeBuffer =>
    if io.pbCount ≠ 0 ∧ io.pbCount ≤ io.pbLoaded ∧ data &&& 0xff = confirm ∧
        io.isLocked io.progbufLatchAddr = false then
      fun w => andLoads (· == w) (io.mem w) io.loads
    else io.mem
  | .blockErase =>
    if data &&& 0xff = confirm ∧ io.isLocked addr = false then
      fun w => if w.sector = sectorAddr addr then 0xffffffff else io.mem w
    else io.mem
  | _ => io.mem

/-- The commands of `init_wsm` that are supported. -/
def commands : List ARMword :=
  [0xff, 0x90, 0x70, 0x98, 0x50, 0x40, 0x10, 0xe8, 0x20, 0xb0, 0xd0, 0x60]

/-- A write that ends a command without carrying it out. -/
def Rejects (io : Intel) (addr data : ARMword) : Prop :=
  match io.wsmMode with
  | .ready => data &&& 0xff ∉ commands
  | .writeBuffer =>
    if io.pbCount = 0 then
      (data &&& 0xff).toNat + 1 > writeBufferSize ∨
        sectorAddr addr ≠ sectorAddr (addr + BitVec.ofNat 32 ((data &&& 0xff).toNat + 1) - 1)
    else if io.pbLoaded < io.pbCount then sectorAddr addr ≠ sectorAddr io.progbufLatchAddr
    else data &&& 0xff ≠ confirm ∨ io.isLocked io.progbufLatchAddr = true
  | .program => io.isLocked addr = true
  | .blockErase => data &&& 0xff ≠ confirm ∨ io.isLocked addr = true
  | .lockAccess => data &&& 0xff ≠ 0x01 ∧ data &&& 0xff ≠ confirm

/-- The error bits of the status register. -/
def errorBits : List Nat := [1, 3, 4, 5]

/-- The write `data` at `addr` takes `io` to `io'` as it should. -/
structure Meets (io : Intel) (addr data : ARMword) (io' : Intel) : Prop where
  mem : io'.mem = io.expected addr data
  unlocked : ∀ w, io'.mem w ≠ io.mem w → io.lock w.sector = 0
  rejected : io.Rejects addr data → io'.mem = io.mem ∧ io'.wsmMode = .ready ∧
    ∃ k ∈ errorBits, io'.status.getLsbD k = true
  kept : ¬(io.wsmMode = .ready ∧ data &&& 0xff = 0x50) →
    ∀ k ∈ errorBits, io.status.getLsbD k = true → io'.status.getLsbD k = true

/-- A supported command; a word that is loaded at most 15 words above the first one, with no bit
that an earlier load of the same word has cleared; a complete sequence. -/
def Proper (io : Intel) (addr data : ARMword) : Prop :=
  match io.wsmMode with
  | .ready => data &&& 0xff ∈ commands
  | .writeBuffer =>
    io.pbCount = 0 ∨ io.pbCount ≤ io.pbLoaded ∨ io.pbLoaded = 0 ∨
      sectorAddr addr ≠ sectorAddr io.progbufLatchAddr ∨
      ((wordAddr addr - wordAddr io.pbStart).toNat < writeBufferSize ∧
        data &&& io.pbBuf (bufferIndex (wordAddr addr)) = data)
  | .program => True
  | .blockErase => data &&& 0xff = confirm
  | .lockAccess => data &&& 0xff = 0x01 ∨ data &&& 0xff = confirm

/-- The runs from reset whose writes are `ok`. -/
inductive Run (ok : Intel → ARMword → ARMword → Prop) : Intel → Prop
  | reset (io : Intel) : Run ok io.reset
  | step {io : Intel} (hrun : Run ok io) (addr data : ARMword) (hok : ok io addr data) :
      Run ok (io.writeWord addr data)

/-! ## The invariant -/

/-- What the buffer holds: the words loaded so far. -/
structure Buffered (io : Intel) : Prop where
  loaded : io.pbLoaded = io.loads.length
  count : io.pbCount = 0 → io.loads = []
  sector : ∀ l ∈ io.loads, l.1.sector = sectorAddr io.progbufLatchAddr
  window : ∀ l ∈ io.loads, (l.1 - wordAddr io.pbStart).toNat < writeBufferSize
  buf : ∀ w, io.pbBuf (bufferIndex w) =
    andLoads (fun u => bufferIndex u == bufferIndex w) 0xffffffff io.loads

/-- Nothing is suspended, since nothing is busy when a command comes, and VPEN is high. -/
structure Inv (io : Intel) : Prop where
  program : io.programSuspended = false
  progbuf : io.progbufSuspended = false
  erase : io.eraseSuspended = false
  vpen : io.vpen = true
  buffered : io.wsmMode = .writeBuffer → io.Buffered

/-! ## Words and sectors -/

theorem toNat_wordAddr (addr : ARMword) : (wordAddr addr).toNat = addr.toNat / 4 := by
  have hlt := addr.isLt
  simp only [wordAddr, BitVec.extractLsb'_toNat, Nat.shiftRight_eq_div_pow]
  omega

theorem sector_wordAddr (addr : ARMword) : (wordAddr addr).sector = sectorAddr addr := by
  unfold Word.sector sectorAddr
  rw [BitVec.toNat_ushiftRight, BitVec.toNat_ushiftRight, toNat_wordAddr,
    Nat.shiftRight_eq_div_pow, Nat.shiftRight_eq_div_pow]
  omega

theorem eq_of_bufferIndex {u w s : Word} (hu : (u - s).toNat < writeBufferSize)
    (hw : (w - s).toNat < writeBufferSize) (h : bufferIndex u = bufferIndex w) : u = w := by
  have hidx (x : Word) : (bufferIndex x).toNat = x.toNat % 16 :=
    Word.toNat_and_low x 4 (by omega)
  have hmod : u.toNat % 16 = w.toNat % 16 := by rw [← hidx, ← hidx, h]
  unfold writeBufferSize at hu hw
  bv_omega

theorem erase_window (w : Word) (addr : ARMword) :
    (w - wordAddr (addr &&& 0xfffc0000)).toNat < 0x10000 ↔ w.sector = sectorAddr addr := by
  have hlatch : (addr &&& 0xfffc0000).toNat = addr.toNat / 2 ^ 18 * 2 ^ 18 :=
    Word.toNat_and_high addr 18
  have hlt := addr.isLt
  have hw := w.isLt
  unfold Word.sector sectorAddr
  rw [BitVec.toNat_ushiftRight, BitVec.toNat_ushiftRight, BitVec.toNat_sub, toNat_wordAddr, hlatch,
    Nat.shiftRight_eq_div_pow, Nat.shiftRight_eq_div_pow]
  omega

theorem onWords_apply (f : Word → ARMword → ARMword) (w : Word) (mem : Word → ARMword) (x : Word) :
    ∀ n : Nat, n ≤ 2 ^ 30 →
      onWords f w n mem x = if (x - w).toNat < n then f x (mem x) else mem x
  | 0, _ => rfl
  | n + 1, hn => by
    have hx := x.isLt
    have hw := w.isLt
    have hj : x = w + BitVec.ofNat 30 n ↔ (x - w).toNat = n := by bv_omega
    unfold onWords
    dsimp only
    by_cases h : x = w + BitVec.ofNat 30 n
    · have hlast := hj.mp h
      rw [← h, Function.update_self, onWords_apply f w mem x n (by omega), if_neg (by omega),
        if_pos (by omega)]
    · have hne : (x - w).toNat ≠ n := fun hlast => h (hj.mpr hlast)
      rw [Function.update_of_ne h, onWords_apply f w mem x n (by omega)]
      exact if_congr (by omega) rfl rfl

/-! ## The status register -/

/-- The flag behind an error bit. -/
def errorFlag (io : Intel) : Nat → Bool
  | 1 => io.protectionError
  | 3 => io.programVoltError
  | 4 => io.programSetlbError
  | 5 => io.eraseClearlbError
  | _ => false

/-- The status register shows the flags. -/
theorem status_getLsbD (io : Intel) {k : Nat} (hk : k ∈ errorBits) :
    io.status.getLsbD k = io.errorFlag k := by
  unfold status
  simp only [errorBits, List.mem_cons, List.not_mem_nil, or_false] at hk
  obtain rfl | rfl | rfl | rfl := hk
  all_goals
    unfold errorFlag
    cases io.eraseSuspended <;> cases io.eraseClearlbError <;> cases io.programSetlbError <;>
      cases io.programVoltError <;> cases io.programSuspended <;> cases io.protectionError <;> rfl

section

variable {io io' : Intel} {addr data : ARMword}

theorem kept_of_flags (h : ∀ k, io.errorFlag k = true → io'.errorFlag k = true) :
    ∀ k ∈ errorBits, io.status.getLsbD k = true → io'.status.getLsbD k = true := by
  intro k hk hbit
  rw [status_getLsbD io' hk]
  rw [status_getLsbD io hk] at hbit
  exact h k hbit

theorem flags_kept (hp : io.protectionError = true → io'.protectionError = true)
    (hv : io.programVoltError = true → io'.programVoltError = true)
    (hs : io.programSetlbError = true → io'.programSetlbError = true)
    (he : io.eraseClearlbError = true → io'.eraseClearlbError = true) (k : Nat)
    (h : io.errorFlag k = true) : io'.errorFlag k = true := by
  unfold errorFlag at h ⊢
  split at h
  · exact hp h
  · exact hv h
  · exact hs h
  · exact he h
  · cases h

/-! ## The commands -/

/-- The cases of `init_wsm` with nothing suspended. -/
theorem initWsm_cases {P : Intel → Prop} (h : io.Inv) (hread : ∀ mode, P (io.reading mode))
    (hclear : data &&& 0xff = 0x50 → P io.clearStatus)
    (henter : ∀ mode, mode ≠ .writeBuffer → P (io.entering mode)) (hbuffer : P io.startBuffer)
    (hsame : P io) : P (io.initWsm data) := by
  have hresume : io.resume = io := by
    rw [resume, h.program, h.progbuf, h.erase]
    rfl
  unfold initWsm
  dsimp only
  rw [hresume]
  refine iteInduction (fun _ => hread _) fun _ => ?_
  refine iteInduction (fun _ => hread _) fun _ => ?_
  refine iteInduction (fun _ => hread _) fun _ => ?_
  refine iteInduction (fun _ => hread _) fun _ => ?_
  refine iteInduction hclear fun _ => ?_
  refine iteInduction (fun _ => henter _ (by decide)) fun _ => ?_
  refine iteInduction (fun _ => hbuffer) fun _ => ?_
  refine iteInduction (fun _ => henter _ (by decide)) fun _ => ?_
  refine iteInduction (fun _ => hsame) fun _ => ?_
  refine iteInduction (fun _ => hsame) fun _ => ?_
  exact iteInduction (fun _ => henter _ (by decide)) fun _ => hsame

/-- A write that keeps the memory, and is to keep it. -/
theorem Meets.of_kept (hmem : io'.mem = io.mem) (hexp : io.expected addr data = io.mem)
    (hrej : io.Rejects addr data →
      io'.wsmMode = .ready ∧ ∃ k ∈ errorBits, io'.errorFlag k = true)
    (hflags : ¬(io.wsmMode = .ready ∧ data &&& 0xff = 0x50) →
      ∀ k, io.errorFlag k = true → io'.errorFlag k = true) : Meets io addr data io' where
  mem := hmem.trans hexp.symm
  unlocked w hw := absurd (congrFun hmem w) hw
  rejected hr := by
    obtain ⟨hmode, k, hk, hflag⟩ := hrej hr
    exact ⟨hmem, hmode, k, hk, (status_getLsbD io' hk).trans hflag⟩
  kept h := kept_of_flags (hflags h)

theorem Meets.of_done (hmem : io'.mem = io.expected addr data)
    (hunlocked : ∀ w, io.expected addr data w ≠ io.mem w → io.lock w.sector = 0)
    (hrej : ¬io.Rejects addr data) (hflags : ∀ k, io.errorFlag k = true → io'.errorFlag k = true) :
    Meets io addr data io' where
  mem := hmem
  unlocked w hw := hunlocked w (hmem ▸ hw)
  rejected hr := absurd hr hrej
  kept _ := kept_of_flags hflags

theorem meets_initWsm (h : io.Inv) (hmode : io.wsmMode = .ready) (hok : io.Proper addr data) :
    Meets io addr data (io.initWsm data) := by
  have hcmd : data &&& 0xff ∈ commands := by
    unfold Proper at hok
    rwa [hmode] at hok
  refine .of_kept ?_ ?_ (fun hrej => ?_) fun hclear => ?_
  · exact initWsm_cases (P := fun io' => io'.mem = io.mem) h (fun _ => rfl) (fun _ => rfl)
      (fun _ _ => rfl) rfl rfl
  · rw [expected, hmode]
  · unfold Rejects at hrej
    rw [hmode] at hrej
    exact absurd hcmd hrej
  · exact initWsm_cases (P := fun io' => ∀ k, io.errorFlag k = true → io'.errorFlag k = true) h
      (fun _ _ => id) (fun hc => absurd ⟨hmode, hc⟩ hclear) (fun _ _ _ => id) (fun _ => id)
      fun _ => id

theorem inv_initWsm (h : io.Inv) (hmode : io.wsmMode = .ready) : (io.initWsm data).Inv := by
  have hbuffered : io.wsmMode ≠ .writeBuffer := by
    rw [hmode]
    decide
  refine initWsm_cases (P := Inv) h (fun _ => ?_) (fun _ => ?_) (fun mode hne => ?_) ?_ h
  · exact ⟨h.program, h.progbuf, h.erase, h.vpen, fun hw => absurd hw hbuffered⟩
  · exact ⟨h.program, h.progbuf, h.erase, h.vpen, fun hw => absurd hw hbuffered⟩
  · exact ⟨h.program, h.progbuf, h.erase, h.vpen, fun hw => absurd hw hne⟩
  · refine ⟨h.program, h.progbuf, h.erase, h.vpen, fun _ => ⟨rfl, fun _ => rfl, ?_, ?_, ?_⟩⟩
    · exact fun l hl => absurd hl List.not_mem_nil
    · exact fun l hl => absurd hl List.not_mem_nil
    · exact fun w => rfl

/-! ## Buffer programs -/

theorem failSequence_flags (io : Intel) (k : Nat) (h : io.errorFlag k = true) :
    io.failSequence.errorFlag k = true :=
  @flags_kept io io.failSequence id id (fun _ => rfl) (fun _ => rfl) k h

theorem failSequence_shown (io : Intel) :
    io.failSequence.wsmMode = .ready ∧ ∃ k ∈ errorBits, io.failSequence.errorFlag k = true :=
  ⟨rfl, 4, by decide, rfl⟩

theorem inv_failSequence (h : io.Inv) : io.failSequence.Inv :=
  ⟨h.program, h.progbuf, h.erase, h.vpen, fun hw => by cases hw⟩

theorem meets_bufferCount (hmode : io.wsmMode = .writeBuffer) (hcount : io.pbCount = 0) :
    Meets io addr data (io.bufferCount addr data) := by
  have hexp : io.expected addr data = io.mem := by
    rw [expected, hmode]
    exact if_neg fun h => h.1 hcount
  have hnot : ¬(io.wsmMode = .ready ∧ data &&& 0xff = 0x50) := by
    rw [hmode]
    exact fun h => by cases h.1
  unfold bufferCount
  dsimp only
  split
  · exact .of_kept rfl hexp (fun _ => failSequence_shown _) fun _ => failSequence_flags _
  · rename_i hsize
    split
    · exact .of_kept rfl hexp (fun _ => failSequence_shown _) fun _ => failSequence_flags _
    · rename_i hsector
      refine .of_kept rfl hexp (fun hrej => ?_) fun _ _ => id
      unfold Rejects at hrej
      rw [hmode] at hrej
      dsimp only at hrej
      rw [if_pos hcount] at hrej
      rcases hrej with h | h
      · exact absurd h hsize
      · exact absurd h hsector

theorem inv_bufferCount (h : io.Inv) (hmode : io.wsmMode = .writeBuffer)
    (hcount : io.pbCount = 0) : (io.bufferCount addr data).Inv := by
  have hb := h.buffered hmode
  have hloads := hb.count hcount
  have hinv : ({ io with
      pbCount := (data &&& 0xff).toNat + 1, progbufLatchAddr := addr } : Intel).Inv := by
    refine ⟨h.program, h.progbuf, h.erase, h.vpen, fun _ => ⟨hb.loaded, fun hz => ?_, ?_, ?_, hb.buf⟩⟩
    · exact absurd hz (Nat.succ_ne_zero _)
    · exact fun l hl => absurd (hloads ▸ hl) List.not_mem_nil
    · exact fun l hl => absurd (hloads ▸ hl) List.not_mem_nil
  unfold bufferCount
  dsimp only
  split
  · exact inv_failSequence hinv
  · split
    · exact inv_failSequence hinv
    · exact hinv

theorem meets_bufferLoad (hmode : io.wsmMode = .writeBuffer) (hcount : io.pbCount ≠ 0)
    (hload : io.pbLoaded < io.pbCount) : Meets io addr data (io.bufferLoad addr data) := by
  have hexp : io.expected addr data = io.mem := by
    rw [expected, hmode]
    exact if_neg fun h => absurd h.2.1 (Nat.not_le.mpr hload)
  unfold bufferLoad
  split
  · exact .of_kept rfl hexp (fun _ => failSequence_shown _) fun _ => failSequence_flags _
  · rename_i hsector
    refine .of_kept rfl hexp (fun hrej => ?_) fun _ _ => id
    unfold Rejects at hrej
    rw [hmode] at hrej
    dsimp only at hrej
    rw [if_neg hcount, if_pos hload] at hrej
    exact absurd hrej hsector

theorem Buffered.load (hb : io.Buffered) (hcount : io.pbCount ≠ 0)
    (hsector : sectorAddr addr = sectorAddr io.progbufLatchAddr)
    (hwindow : io.pbLoaded = 0 ∨ ((wordAddr addr - wordAddr io.pbStart).toNat < writeBufferSize ∧
      data &&& io.pbBuf (bufferIndex (wordAddr addr)) = data)) :
    ({ io with
      pbStart := if io.pbLoaded = 0 then addr else io.pbStart
      pbBuf := Function.update io.pbBuf (bufferIndex (wordAddr addr)) data
      pbLoaded := io.pbLoaded + 1
      loads := (wordAddr addr, data) :: io.loads } : Intel).Buffered := by
  have hempty (h0 : io.pbLoaded = 0) : io.loads = [] :=
    List.eq_nil_of_length_eq_zero (hb.loaded.symm.trans h0)
  have hdata : data &&& io.pbBuf (bufferIndex (wordAddr addr)) = data := by
    rcases hwindow with h0 | h
    · rw [hb.buf, hempty h0]
      exact BitVec.and_allOnes
    · exact h.2
  constructor
  · dsimp only
    rw [List.length_cons, hb.loaded]
  · exact fun h => absurd h hcount
  · intro l hl
    rcases List.mem_cons.mp hl with rfl | hl
    · exact (sector_wordAddr addr).trans hsector
    · exact hb.sector l hl
  · intro l hl
    dsimp only
    by_cases h0 : io.pbLoaded = 0
    · have hl : l ∈ [(wordAddr addr, data)] := by
        rw [hempty h0] at hl
        exact hl
      obtain rfl := List.mem_singleton.mp hl
      rw [if_pos h0, BitVec.sub_self]
      decide
    · rw [if_neg h0]
      rcases List.mem_cons.mp hl with rfl | hl
      · exact (hwindow.resolve_left h0).1
      · exact hb.window l hl
  · intro w
    dsimp only
    unfold andLoads
    by_cases hw : bufferIndex w = bufferIndex (wordAddr addr)
    · rw [hw, Function.update_self, if_pos (beq_self_eq_true _), ← hb.buf, BitVec.and_comm, hdata]
    · rw [Function.update_of_ne hw, hb.buf, if_neg]
      exact fun h => hw (beq_iff_eq.mp h).symm

theorem inv_bufferLoad (h : io.Inv) (hmode : io.wsmMode = .writeBuffer) (hcount : io.pbCount ≠ 0)
    (hload : io.pbLoaded < io.pbCount) (hok : io.Proper addr data) :
    (io.bufferLoad addr data).Inv := by
  unfold bufferLoad
  split
  · exact inv_failSequence h
  · rename_i hsector
    refine ⟨h.program, h.progbuf, h.erase, h.vpen, fun _ => ?_⟩
    refine (h.buffered hmode).load hcount (not_not.mp hsector) ?_
    unfold Proper at hok
    rw [hmode] at hok
    rcases hok with h0 | h0 | h0 | h0 | h0
    · exact absurd h0 hcount
    · exact absurd h0 (Nat.not_le.mpr hload)
    · exact .inl h0
    · exact absurd h0 hsector
    · exact .inr h0

theorem andLoads_eq_and (p : Word → Bool) (v : ARMword) : ∀ loads : List (Word × ARMword),
    andLoads p v loads = v &&& andLoads p 0xffffffff loads
  | [] => BitVec.and_allOnes.symm
  | l :: loads => by
    unfold andLoads
    rw [andLoads_eq_and p v loads]
    split
    · rw [BitVec.and_assoc]
    · rfl

theorem andLoads_congr {p q : Word → Bool} {v : ARMword} : ∀ {loads : List (Word × ARMword)},
    (∀ l ∈ loads, p l.1 = q l.1) → andLoads p v loads = andLoads q v loads
  | [], _ => rfl
  | l :: loads, h => by
    unfold andLoads
    rw [h l List.mem_cons_self, andLoads_congr fun l hl => h l (List.mem_cons_of_mem _ hl)]

theorem andLoads_of_none {p : Word → Bool} {v : ARMword} : ∀ {loads : List (Word × ARMword)},
    (∀ l ∈ loads, p l.1 = false) → andLoads p v loads = v
  | [], _ => rfl
  | l :: loads, h => by
    unfold andLoads
    rw [h l List.mem_cons_self, if_neg Bool.false_ne_true,
      andLoads_of_none fun l hl => h l (List.mem_cons_of_mem _ hl)]

/-- The loop over the buffer puts every word where it was loaded for. -/
theorem Buffered.program_eq (hb : io.Buffered) :
    onWords (fun j v => v &&& io.pbBuf (bufferIndex j)) (wordAddr io.pbStart) writeBufferSize
        io.mem = fun w => andLoads (· == w) (io.mem w) io.loads := by
  funext w
  rw [onWords_apply _ _ _ _ _ (by decide)]
  split
  · rename_i hw
    rw [hb.buf, andLoads_eq_and (· == w)]
    refine congrArg (io.mem w &&& ·) (andLoads_congr fun l hl => ?_)
    rw [Bool.eq_iff_iff, beq_iff_eq, beq_iff_eq]
    exact ⟨eq_of_bufferIndex (hb.window l hl) hw, fun h => by rw [h]⟩
  · rename_i hw
    have hnone : ∀ l ∈ io.loads, (l.1 == w) = false := fun l hl =>
      beq_eq_false_iff_ne.mpr fun h => hw (h ▸ hb.window l hl)
    exact (andLoads_of_none hnone).symm

theorem isLocked_eq_false : io.isLocked addr = false ↔ io.lock (sectorAddr addr) = 0 := by
  rw [isLocked, bne_eq_false_iff_eq]

/-- Nothing but a lock keeps a command from being carried out. -/
theorem Inv.not_suspended (h : io.Inv) :
    ¬(io.programSuspended || io.progbufSuspended || io.eraseSuspended) = true := by
  rw [h.program, h.progbuf, h.erase]
  exact Bool.false_ne_true

theorem Inv.not_low (h : io.Inv) : ¬(!io.vpen) = true := by
  rw [h.vpen]
  exact Bool.false_ne_true

theorem Inv.not_addrSuspended (h : io.Inv) (addr : ARMword) : ¬io.addrSuspended addr = true := by
  rw [addrSuspended, h.program, h.progbuf, h.erase]
  exact Bool.false_ne_true

theorem andLoads_ne {w : Word} {v : ARMword} {loads : List (Word × ARMword)}
    (h : andLoads (· == w) v loads ≠ v) : ∃ l ∈ loads, l.1 = w := by
  by_contra hno
  exact h (andLoads_of_none fun l hl => beq_eq_false_iff_ne.mpr fun hw => hno ⟨l, hl, hw⟩)

theorem meets_bufferConfirm (h : io.Inv) (hmode : io.wsmMode = .writeBuffer)
    (hcount : io.pbCount ≠ 0) (hload : ¬io.pbLoaded < io.pbCount) :
    Meets io addr data (io.bufferConfirm data) ∧ (io.bufferConfirm data).Inv := by
  have hb := h.buffered hmode
  have hrejects : io.Rejects addr data ↔
      data &&& 0xff ≠ confirm ∨ io.isLocked io.progbufLatchAddr = true := by
    rw [Rejects, hmode]
    dsimp only
    rw [if_neg hcount, if_neg hload]
  have hexp : io.expected addr data =
      if data &&& 0xff = confirm ∧ io.isLocked io.progbufLatchAddr = false then
        fun w => andLoads (· == w) (io.mem w) io.loads
      else io.mem := by
    rw [expected, hmode]
    exact if_congr ⟨fun h => h.2.2, fun h => ⟨hcount, Nat.not_lt.mp hload, h⟩⟩ rfl rfl
  unfold bufferConfirm
  dsimp only
  by_cases hc : data &&& 0xff = confirm
  · rw [if_pos hc]
    cases hlock : io.isLocked io.progbufLatchAddr with
    | true =>
      have hlock' : io.lock (sectorAddr io.progbufLatchAddr) != 0 := hlock
      rw [isLocked]
      dsimp only
      rw [if_pos hlock']
      refine ⟨.of_kept rfl ?_ (fun _ => ⟨rfl, 4, by decide, rfl⟩) fun _ => ?_, ?_⟩
      · rw [hexp, if_neg fun h => by simp [hlock] at h]
      · exact flags_kept (fun _ => rfl) id (fun _ => rfl) id
      · exact ⟨h.program, h.progbuf, h.erase, h.vpen, fun hw => by cases hw⟩
    | false =>
      have hlock' : ¬(io.lock (sectorAddr io.progbufLatchAddr) != 0) = true := by
        rw [show (io.lock (sectorAddr io.progbufLatchAddr) != 0) = false from hlock]
        exact Bool.false_ne_true
      unfold isLocked deviceSuspended
      dsimp only
      rw [if_neg hlock', if_neg h.not_suspended, if_neg h.not_low]
      rw [if_pos ⟨hc, hlock⟩] at hexp
      refine ⟨.of_done ?_ (fun w hw => ?_) ?_ fun _ => id, ?_⟩
      · rw [hexp]
        exact hb.program_eq
      · rw [hexp] at hw
        obtain ⟨l, hl, rfl⟩ := andLoads_ne hw
        rw [hb.sector l hl]
        exact isLocked_eq_false.mp hlock
      · rw [hrejects]
        rintro (h | h)
        · exact h hc
        · rw [hlock] at h
          cases h
      · exact ⟨h.program, h.progbuf, h.erase, h.vpen, fun hw => by cases hw⟩
  · rw [if_neg hc]
    refine ⟨.of_kept rfl ?_ (fun _ => failSequence_shown io) fun _ => failSequence_flags io,
      inv_failSequence h⟩
    rw [hexp, if_neg fun h => hc h.1]

/-! ## Words, sectors and locks -/

theorem meets_program (h : io.Inv) (hmode : io.wsmMode = .program) :
    Meets io addr data (io.program addr data) ∧ (io.program addr data).Inv := by
  have hexp : io.expected addr data =
      if io.isLocked addr then io.mem
      else Function.update io.mem (wordAddr addr) (io.mem (wordAddr addr) &&& data) := by
    rw [expected, hmode]
  have hrejects : io.Rejects addr data ↔ io.isLocked addr = true := by rw [Rejects, hmode]
  unfold program
  dsimp only
  cases hlock : io.isLocked addr with
  | true =>
    have hlock' : (io.lock (sectorAddr addr) != 0) = true := hlock
    rw [isLocked]
    dsimp only
    rw [if_pos hlock']
    refine ⟨.of_kept rfl ?_ (fun _ => ⟨rfl, 4, by decide, rfl⟩) fun _ => ?_, ?_⟩
    · rw [hexp, if_pos hlock]
    · exact flags_kept (fun _ => rfl) id (fun _ => rfl) id
    · exact ⟨h.program, h.progbuf, h.erase, h.vpen, fun hw => by cases hw⟩
  | false =>
    have hnot : ¬io.isLocked addr = true := by
      rw [hlock]
      exact Bool.false_ne_true
    have hlock' : ¬(io.lock (sectorAddr addr) != 0) = true := hnot
    have hinv : ({ io with
        programLatchAddr := addr, readMode := .status, wsmMode := .ready } : Intel).Inv :=
      ⟨h.program, h.progbuf, h.erase, h.vpen, fun hw => by cases hw⟩
    rw [if_neg (hinv.not_addrSuspended addr), isLocked]
    dsimp only
    rw [if_neg hlock', if_neg h.not_low]
    rw [if_neg hnot] at hexp
    refine ⟨.of_done hexp.symm (fun w hw => ?_) (fun hr => hnot (hrejects.mp hr)) fun _ => id, ?_⟩
    · rw [hexp] at hw
      have hword : w = wordAddr addr := by
        by_contra hne
        exact hw (Function.update_of_ne hne ..)
      rw [hword, sector_wordAddr]
      exact isLocked_eq_false.mp hlock
    · exact ⟨h.program, h.progbuf, h.erase, h.vpen, fun hw => by cases hw⟩

theorem sectorAddr_latch (addr : ARMword) :
    sectorAddr (addr &&& 0xfffc0000) = sectorAddr addr := by
  have hlatch : (addr &&& 0xfffc0000).toNat = addr.toNat / 2 ^ 18 * 2 ^ 18 :=
    Word.toNat_and_high addr 18
  unfold sectorAddr
  rw [BitVec.toNat_ushiftRight, BitVec.toNat_ushiftRight, hlatch, Nat.shiftRight_eq_div_pow,
    Nat.shiftRight_eq_div_pow, Nat.mul_div_cancel _ (by decide)]

theorem erase_eq (io : Intel) (addr : ARMword) :
    onWords (fun _ _ => 0xffffffff) (wordAddr (addr &&& 0xfffc0000)) 0x10000 io.mem =
      fun w => if w.sector = sectorAddr addr then 0xffffffff else io.mem w := by
  funext w
  rw [onWords_apply _ _ _ _ _ (by decide)]
  exact if_congr (erase_window w addr) rfl rfl

theorem meets_blockErase (h : io.Inv) (hmode : io.wsmMode = .blockErase)
    (hc : data &&& 0xff = confirm) :
    Meets io addr data (io.blockErase addr data) ∧ (io.blockErase addr data).Inv := by
  have hexp : io.expected addr data =
      if data &&& 0xff = confirm ∧ io.isLocked addr = false then
        fun w => if w.sector = sectorAddr addr then 0xffffffff else io.mem w
      else io.mem := by
    rw [expected, hmode]
  have hrejects : io.Rejects addr data ↔ data &&& 0xff ≠ confirm ∨ io.isLocked addr = true := by
    rw [Rejects, hmode]
  have hlatch : (io.lock (sectorAddr (addr &&& 0xfffc0000)) != 0) = io.isLocked addr := by
    rw [sectorAddr_latch]
    rfl
  unfold blockErase
  dsimp only
  rw [if_pos hc]
  unfold isLocked deviceSuspended
  dsimp only
  rw [hlatch]
  cases hlock : io.isLocked addr with
  | true =>
    rw [if_pos rfl]
    refine ⟨.of_kept rfl ?_ (fun _ => ⟨rfl, 5, by decide, rfl⟩) fun _ => ?_, ?_⟩
    · rw [hexp, hlock, if_neg fun h => by cases h.2]
    · exact flags_kept (fun _ => rfl) id id (fun _ => rfl)
    · exact ⟨h.program, h.progbuf, h.erase, h.vpen, fun hw => by cases hw⟩
  | false =>
    rw [if_neg Bool.false_ne_true, if_neg h.not_suspended, if_neg h.not_low]
    rw [if_pos ⟨hc, hlock⟩] at hexp
    refine ⟨.of_done ?_ (fun w hw => ?_) (fun hr => ?_) fun _ => id, ?_⟩
    · rw [hexp]
      exact erase_eq io addr
    · rw [hexp] at hw
      have hsector : w.sector = sectorAddr addr := by
        by_contra hne
        exact hw (if_neg hne)
      rw [hsector]
      exact isLocked_eq_false.mp hlock
    · rcases hrejects.mp hr with hr | hr
      · exact hr hc
      · rw [hlock] at hr
        cases hr
    · exact ⟨h.program, h.progbuf, h.erase, h.vpen, fun hw => by cases hw⟩

theorem meets_lockAccess (h : io.Inv) (hmode : io.wsmMode = .lockAccess)
    (hok : io.Proper addr data) :
    Meets io addr data (io.lockAccess addr data) ∧ (io.lockAccess addr data).Inv := by
  have hok : data &&& 0xff = 0x01 ∨ data &&& 0xff = confirm := by
    rwa [Proper, hmode] at hok
  have hexp : io.expected addr data = io.mem := by rw [expected, hmode]
  have hnot : ¬io.Rejects addr data := by
    rw [Rejects, hmode]
    exact fun hr => hok.elim hr.1 hr.2
  unfold lockAccess deviceSuspended
  dsimp only
  rw [if_neg h.not_suspended, if_neg h.not_low, if_neg h.not_suspended, if_neg h.not_low]
  split
  · exact ⟨.of_kept rfl hexp (fun hr => absurd hr hnot) fun _ _ => id,
      h.program, h.progbuf, h.erase, h.vpen, fun hw => by cases hw⟩
  · rw [if_pos (hok.resolve_left ‹_›)]
    exact ⟨.of_kept rfl hexp (fun hr => absurd hr hnot) fun _ _ => id,
      h.program, h.progbuf, h.erase, h.vpen, fun hw => by cases hw⟩

/-! ## Runs -/

theorem inv_reset (io : Intel) : io.reset.Inv :=
  ⟨rfl, rfl, rfl, rfl, fun hw => by cases hw⟩

theorem Inv.writeWord (h : io.Inv) (hok : io.Proper addr data) :
    Meets io addr data (io.writeWord addr data) ∧ (io.writeWord addr data).Inv := by
  unfold Intel.writeWord
  cases hmode : io.wsmMode with
  | ready => exact ⟨meets_initWsm h hmode hok, inv_initWsm h hmode⟩
  | writeBuffer =>
    dsimp only
    split
    · exact ⟨meets_bufferCount hmode ‹_›, inv_bufferCount h hmode ‹_›⟩
    · split
      · exact ⟨meets_bufferLoad hmode ‹_› ‹_›, inv_bufferLoad h hmode ‹_› ‹_› hok⟩
      · exact meets_bufferConfirm h hmode ‹_› ‹_›
  | program => exact meets_program h hmode
  | blockErase =>
    have hc : data &&& 0xff = confirm := by rwa [Proper, hmode] at hok
    exact meets_blockErase h hmode hc
  | lockAccess => exact meets_lockAccess h hmode hok

theorem Run.inv (hrun : Run Proper io) : io.Inv := by
  induction hrun with
  | reset io => exact inv_reset io
  | step hrun addr data hok ih => exact (ih.writeWord hok).2

/-- In a run of proper writes every one does what it should. -/
theorem meets_of_run (hrun : Run Proper io) (hok : io.Proper addr data) :
    Meets io addr data (io.writeWord addr data) := (hrun.inv.writeWord hok).1

end

/-- A flash that is erased. -/
def blank : Intel where
  lock _ := 0
  readMode := .array
  wsmMode := .ready
  vpen := true
  programLatchAddr := 0
  progbufLatchAddr := 0
  eraseLatchAddr := 0
  pbCount := 0
  pbLoaded := 0
  pbStart := 0
  pbBuf _ := 0
  programSuspended := false
  progbufSuspended := false
  eraseSuspended := false
  protectionError := false
  programSetlbError := false
  eraseClearlbError := false
  programVoltError := false
  mem _ := 0xffffffff
  loads := []

theorem meets_of_run_program :
    Meets (blank.reset.writeWord 0 0x40) 8 0x1234
      ((blank.reset.writeWord 0 0x40).writeWord 8 0x1234) :=
  meets_of_run (.step (.reset blank) 0 0x40 (show _ ∈ commands by decide)) trivial

/-- Any writes, one after the other. -/
def writes (io : Intel) : List (ARMword × ARMword) → Intel
  | [] => io
  | (addr, data) :: ws => writes (io.writeWord addr data) ws

theorem run_writes {io : Intel} (h : Run (fun _ _ _ => True) io) :
    ∀ ws, Run (fun _ _ _ => True) (writes io ws)
  | [] => h
  | (addr, data) :: ws => run_writes (.step h addr data trivial) ws

/-- Sector 1 is locked, and two words are loaded at the end of sector 0, the last one first. -/
def downwards : List (ARMword × ARMword) :=
  [(0x40000, 0x60), (0x40000, 0x01), (0x3fffc, 0xe8), (0x3fffc, 0x01), (0x3fffc, 0xffffffff),
    (0x3fff8, 0)]

/-- The confirmation programs the locked sector. -/
theorem programs_locked_sector : ¬∀ io, Run (fun _ _ _ => True) io → ∀ addr data,
    Meets io addr data (io.writeWord addr data) := by
  intro hall
  have hmeets := hall (writes blank.reset downwards) (run_writes (.reset blank) downwards) 0x3fffc 0xd0
  have hlock := hmeets.unlocked 0x1000e (by decide +kernel)
  exact absurd hlock (by decide +kernel)

end SkyEye.Flash.Intel
