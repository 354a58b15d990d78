import SkyEye.Bfin.Defs
import SkyEye.Lib.NonRestoring
import Mathlib.Tactic.Ring

/-!
# Runs of DIVQ

DIVQ is a step of a division without restoring, by the low half of the divisor: the partial
remainder and the bits of the quotient share the register of the dividend, and AQ is the sign of
the partial remainder. So `n` of them leave the first `n` bits of the quotient
(`divq_run_divides`). The upper half of the divisor is lost on the way.
-/

namespace SkyEye.Bfin

open Sparc (Uint32)
open NonRestoring (Inv trial step run start)

variable {dst src : Fin 16}

/-! ## One step -/

/-- The divisor in the upper half, where DIVQ adds or subtracts it. -/
def divisor (s : SavedState) (src : Fin 16) : Uint32 := s.dpregs src <<< 16

/-- The sum or difference of DIVQ. -/
def divqTrial (s : SavedState) (dst src : Fin 16) : Uint32 :=
  if s.flags.aq then s.dpregs dst + divisor s src else s.dpregs dst - divisor s src

def divqSign (s : SavedState) (dst src : Fin 16) : Bool :=
  (divqTrial s dst src).msb ^^ (divisor s src).msb

theorem divq_eq (s : SavedState) (hne : dst ≠ src) :
    divq s dst src = { s with
      dpregs := Function.update (Function.update s.dpregs src (divisor s src >>> 16)) dst
        (if divqSign s dst src then divqTrial s dst src <<< 1 else divqTrial s dst src <<< 1 + 1)
      flags := { s.flags with aq := divqSign s dst src } } := by
  have h1 : ∀ (f : Fin 16 → Uint32) a b c,
      Function.update (Function.update (Function.update f src a) dst b) src c =
        Function.update (Function.update f src c) dst b := by
    intro f a b c
    rw [Function.update_comm hne, Function.update_idem, Function.update_comm hne.symm]
  unfold divq divqSign divqTrial divisor
  simp only [SavedState.setDpreg, Function.update_self, Function.update_of_ne hne,
    Function.update_of_ne hne.symm, Function.update_idem]
  generalize (if s.flags.aq = true then s.dpregs dst + s.dpregs src <<< 16
    else s.dpregs dst - s.dpregs src <<< 16) = t
  cases t.msb ^^ (s.dpregs src <<< 16).msb <;>
    simp only [Bool.false_eq_true, if_true, if_false, Function.update_self,
      Function.update_of_ne hne.symm, h1]

theorem divq_dst (s : SavedState) (hne : dst ≠ src) : (divq s dst src).dpregs dst =
    if divqSign s dst src then divqTrial s dst src <<< 1 else divqTrial s dst src <<< 1 + 1 := by
  rw [divq_eq s hne]
  exact Function.update_self ..

theorem divq_src (s : SavedState) (hne : dst ≠ src) :
    (divq s dst src).dpregs src = divisor s src >>> 16 := by
  rw [divq_eq s hne]
  exact (Function.update_of_ne hne.symm ..).trans (Function.update_self ..)

theorem divq_other (s : SavedState) (hne : dst ≠ src) {r : Fin 16} (hd : r ≠ dst) (hs : r ≠ src) :
    (divq s dst src).dpregs r = s.dpregs r := by
  rw [divq_eq s hne]
  exact (Function.update_of_ne hd ..).trans (Function.update_of_ne hs ..)

theorem divq_flags (s : SavedState) (hne : dst ≠ src) :
    (divq s dst src).flags = { s.flags with aq := divqSign s dst src } := by
  rw [divq_eq s hne]

/-- The state of a division by `65536 * d`, as the two registers and AQ hold it. -/
structure Holds (s : SavedState) (dst src : Fin 16) (d : Nat) (S : NonRestoring.State) :
    Prop where
  word : s.dpregs dst = BitVec.ofInt 32 (S.rest + S.quot)
  aq : s.flags.aq = !S.pos
  low : (s.dpregs src).toNat % 65536 = d

variable {s : SavedState} {d n : Nat} {a : Int} {S : NonRestoring.State}

theorem holds_divisor (h : Holds s dst src d S) :
    divisor s src = BitVec.ofInt 32 (65536 * d) := by
  apply BitVec.eq_of_toNat_eq
  rw [divisor, BitVec.toNat_shiftLeft, Nat.shiftLeft_eq, ← h.low,
    show (65536 * (((s.dpregs src).toNat % 65536 : Nat) : Int)) =
      ((65536 * ((s.dpregs src).toNat % 65536) : Nat) : Int) by push_cast; rfl,
    BitVec.ofInt_natCast, BitVec.toNat_ofNat]
  omega

theorem holds_trial (h : Holds s dst src d S) :
    divqTrial s dst src = BitVec.ofInt 32 (trial (65536 * d) S + S.quot) := by
  unfold divqTrial trial
  rw [holds_divisor h, h.word, h.aq]
  cases S.pos with
  | true =>
    simp only [Bool.not_true, Bool.false_eq_true, if_false, if_true, BitVec.sub_eq_add_neg,
      ← BitVec.ofInt_neg, ← BitVec.ofInt_add]
    congr 1
    omega
  | false =>
    simp only [Bool.not_false, Bool.false_eq_true, if_false, if_true, ← BitVec.ofInt_add]
    congr 1
    omega

theorem two_pow_dvd (hn : n ≤ 16) : (2 : Int) ^ n ∣ 65536 * d :=
  (pow_dvd_pow 2 hn).mul_right _

/-- The sign that DIVQ finds is that of the partial remainder. -/
theorem holds_sign (h : Holds s dst src d S) (hd : d < 32768) (hn : n ≤ 16)
    (hi : Inv (65536 * d) a n S) : divqSign s dst src = !decide (0 ≤ trial (65536 * d) S) := by
  obtain ⟨hlo, hhi⟩ := NonRestoring.trial_bounds hi
  have hq := hi.quot_nonneg
  have hq' : S.quot < 65536 :=
    lt_of_lt_of_le hi.quot_lt (by exact_mod_cast Nat.pow_le_pow_right (by omega) hn)
  have hiff := NonRestoring.trial_nonneg_iff hi (two_pow_dvd hn)
  have hD : (BitVec.ofInt 32 (65536 * (d : Int))).msb = false := by
    rw [BitVec.msb_eq_toInt, BitVec.toInt_ofInt, Int.bmod_eq_of_le (by omega) (by omega)]
    exact decide_eq_false (by omega)
  rw [divqSign, holds_trial h, holds_divisor h, hD, Bool.xor_false, BitVec.msb_eq_toInt,
    BitVec.toInt_ofInt, Int.bmod_eq_of_le (by omega) (by omega)]
  by_cases ht : 0 ≤ trial (65536 * (d : Int)) S
  · rw [decide_eq_true ht]
    exact decide_eq_false (by omega)
  · rw [decide_eq_false ht]
    exact decide_eq_true (by omega)

theorem divisor_low (s : SavedState) (src : Fin 16) :
    (divisor s src >>> 16).toNat = (s.dpregs src).toNat % 65536 := by
  rw [divisor, BitVec.toNat_ushiftRight, BitVec.toNat_shiftLeft, Nat.shiftLeft_eq,
    Nat.shiftRight_eq_div_pow]
  omega

/-- DIVQ is a step of the division. -/
theorem holds_divq (h : Holds s dst src d S) (hne : dst ≠ src) (hd : d < 32768) (hn : n ≤ 16)
    (hi : Inv (65536 * d) a n S) :
    Holds (divq s dst src) dst src d (step (65536 * d) S) where
  word := by
    have hshift : ∀ v : Int, BitVec.ofInt 32 v <<< 1 = BitVec.ofInt 32 (2 * v) := by
      intro v
      rw [BitVec.shiftLeft_eq_mul_twoPow, Int.mul_comm, BitVec.ofInt_mul]
      rfl
    rw [divq_dst s hne, holds_sign h hd hn hi, holds_trial h, hshift]
    by_cases ht : 0 ≤ trial (65536 * (d : Int)) S
    · rw [NonRestoring.step_of_nonneg ht, decide_eq_true ht, Bool.not_true,
        if_neg Bool.false_ne_true, show (1 : Uint32) = BitVec.ofInt 32 1 from rfl,
        ← BitVec.ofInt_add]
      congr 1
      ring
    · rw [NonRestoring.step_of_neg ht, decide_eq_false ht, Bool.not_false, if_pos rfl]
      congr 1
      ring
  aq := by
    rw [divq_flags s hne, holds_sign h hd hn hi]
    rfl
  low := by
    rw [divq_src s hne, divisor_low, Nat.mod_mod, h.low]

/-! ## Runs -/

/-- DIVQ of two registers, as a word of `decode_ALU2op_0`. -/
structure IsDivq (iw0 : Uint16) (dst src : Fin 16) : Prop where
  opc : iw0.extractLsb' 6 4 = 8
  dst_eq : dreg (iw0.extractLsb' 0 3) = dst
  src_eq : dreg (iw0.extractLsb' 3 3) = src

/-- The instructions of a run. -/
def alu2opRun (s : SavedState) (words : List Uint16) : Option SavedState :=
  words.foldlM (fun s iw0 => decodeALU2op iw0 s) s

theorem decodeALU2op_divq {iw0 : Uint16} (h : IsDivq iw0 dst src) (s : SavedState) :
    decodeALU2op iw0 s = some ((divq s dst src).advance 2) := by
  unfold decodeALU2op
  rw [h.opc, h.dst_eq, h.src_eq]
  rfl

/-- What `n` steps change beside the dividend. -/
structure DivqFrame (s t : SavedState) (dst src : Fin 16) (n : Nat) : Prop where
  src_eq : t.dpregs src = if n = 0 then s.dpregs src else (s.dpregs src).setWidth 16 |>.setWidth 32
  other : ∀ r, r ≠ dst → r ≠ src → t.dpregs r = s.dpregs r
  flags : t.flags = { s.flags with aq := t.flags.aq }
  a0 : t.a0 = s.a0
  a1 : t.a1 = s.a1
  pc : t.pc = s.pc + BitVec.ofNat 32 (2 * n)

theorem DivqFrame.refl (s : SavedState) : DivqFrame s s dst src 0 :=
  ⟨rfl, fun _ _ _ => rfl, rfl, rfl, rfl, (BitVec.add_zero _).symm⟩

theorem DivqFrame.cons {t : SavedState} (hne : dst ≠ src)
    (h : DivqFrame ((divq s dst src).advance 2) t dst src n) :
    DivqFrame s t dst src (n + 1) := by
  have hlow : (divq s dst src).dpregs src = ((s.dpregs src).setWidth 16).setWidth 32 := by
    rw [divq_src s hne]
    apply BitVec.eq_of_toNat_eq
    rw [divisor_low, BitVec.toNat_setWidth, BitVec.toNat_setWidth]
    omega
  have heq := divq_eq s hne
  constructor
  case src_eq =>
    rw [h.src_eq, if_neg (Nat.succ_ne_zero n), SavedState.advance, hlow]
    split
    · rfl
    · exact congrArg _ ((BitVec.setWidth_setWidth_of_le _ (by decide)).trans (BitVec.setWidth_eq _))
  case other => exact fun r hd hs => (h.other r hd hs).trans (divq_other s hne hd hs)
  case flags =>
    rw [h.flags, SavedState.advance, divq_flags s hne]
  case a0 =>
    rw [h.a0, SavedState.advance, heq]
  case a1 =>
    rw [h.a1, SavedState.advance, heq]
  case pc =>
    rw [h.pc, SavedState.advance, heq]
    change s.pc + 2 + _ = _
    rw [BitVec.add_assoc, Nat.mul_add, BitVec.ofNat_add, BitVec.add_comm 2]
    rfl

theorem holds_start (haq : s.flags.aq = false) : Holds s dst src ((s.dpregs src).toNat % 65536)
    (start (s.dpregs dst).toNat) where
  word := by simp [start]
  aq := haq
  low := rfl

theorem holds_run (hne : dst ≠ src) (hd : d < 32768) (ha : 0 ≤ a) (hlt : a < 2 * (65536 * d))
    {words : List Uint16} (hw : ∀ iw0 ∈ words, IsDivq iw0 dst src) :
    ∀ (s : SavedState) (k : Nat), k + words.length ≤ 17 →
      Holds s dst src d (run (65536 * d) a k) →
      ∃ t, alu2opRun s words = some t ∧
        Holds t dst src d (run (65536 * d) a (k + words.length)) ∧
        DivqFrame s t dst src words.length := by
  induction words with
  | nil => exact fun s _ _ h => ⟨s, rfl, h, .refl s⟩
  | cons iw0 words ih =>
    intro s k hk h
    rw [List.length_cons] at hk
    have hstep := holds_divq h hne hd (by omega) (NonRestoring.inv_run ha hlt k)
    obtain ⟨t, ht, hold, hframe⟩ := ih (fun w hm => hw w (List.mem_cons_of_mem _ hm))
      ((divq s dst src).advance 2) (k + 1) (by omega) ⟨hstep.word, hstep.aq, hstep.low⟩
    refine ⟨t, ?_, ?_, hframe.cons hne⟩
    · rw [alu2opRun, List.foldlM_cons, decodeALU2op_divq (hw iw0 List.mem_cons_self)]
      exact ht
    · rwa [List.length_cons, Nat.add_comm words.length 1, ← Nat.add_assoc]

/-- The outcome of `n` steps from the dividend `a`: below the rest are the first `n` bits of the
quotient of `a` by 2 ^ 17 times the divisor. -/
structure Divided (s t : SavedState) (dst src : Fin 16) (a d : Int) (n : Nat) : Prop where
  word : t.dpregs dst = BitVec.ofInt 32
    (2 ^ n * a % (131072 * d) - (if t.flags.aq then 131072 * d else 0) + 2 ^ n * a / (131072 * d))
  quotient : (t.dpregs dst).toNat % 2 ^ n = 2 ^ n * a / (131072 * d)
  frame : DivqFrame s t dst src n

/-- A dividend below 2 ^ 17 times a divisor of 15 bits, with AQ clear: up to 17 words of DIVQ
leave the first bits of the quotient and the rest above them, short of one divisor where AQ is
set, and no other register changes. -/
theorem divq_run_divides {s : SavedState} (hne : dst ≠ src) (haq : s.flags.aq = false)
    (hd : (s.dpregs src).toNat % 65536 < 32768)
    (ha : (s.dpregs dst).toNat < 131072 * ((s.dpregs src).toNat % 65536))
    {words : List Uint16} (hw : ∀ iw0 ∈ words, IsDivq iw0 dst src) (hn : words.length ≤ 17) :
    ∃ t, alu2opRun s words = some t ∧ Divided s t dst src (s.dpregs dst).toNat
      ((s.dpregs src).toNat % 65536 : Nat) words.length := by
  generalize hdd : (s.dpregs src).toNat % 65536 = d at hd ha
  generalize haa : (s.dpregs dst).toNat = a at ha
  have ha0 : (0 : Int) ≤ a := Int.natCast_nonneg a
  have hlt : (a : Int) < 2 * (65536 * d) := by omega
  have hD : (2 : Int) * (65536 * d) = 131072 * d := by ring
  obtain ⟨t, ht, hold, hframe⟩ := holds_run hne hd ha0 hlt hw s 0 (by omega)
    (by rw [← hdd, ← haa]; exact holds_start haq)
  rw [Nat.zero_add] at hold
  have hinv := NonRestoring.inv_run ha0 hlt words.length
  have hquot := NonRestoring.quotient_run ha0 hlt words.length
  have hrest := NonRestoring.remainder_run ha0 hlt words.length
  generalize run (65536 * (d : Int)) a words.length = S at hold hinv hquot hrest
  rw [hD] at hquot hrest
  have hrest' : S.rest = 2 ^ words.length * a % (131072 * d) -
      if t.flags.aq then 131072 * (d : Int) else 0 := by
    rw [← hrest, NonRestoring.remainder, NonRestoring.owed, hold.aq, hD]
    cases S.pos <;> simp
  refine ⟨t, ht, ?_, ?_, hframe⟩
  · rw [hold.word, hrest', hquot]
  · -- the rest is a multiple of what the bits are less than
    have hdvd : (2 : Int) ^ words.length ∣ S.rest := by
      refine NonRestoring.dvd_rest hinv ?_
      rw [hD]
      exact (pow_dvd_pow 2 hn).mul_right _
    have h32 : (2 : Int) ^ words.length ∣ 2 ^ 32 := pow_dvd_pow 2 (by omega)
    have hnat : ((t.dpregs dst).toNat : Int) = (S.rest + S.quot) % 2 ^ 32 := by
      rw [hold.word, BitVec.toNat_ofInt]
      omega
    rw [← hquot, hnat, Int.emod_emod_of_dvd _ h32, Int.add_emod, Int.emod_eq_zero_of_dvd hdvd,
      zero_add, Int.emod_emod_of_dvd _ (dvd_refl _),
      Int.emod_eq_of_lt hinv.quot_nonneg hinv.quot_lt]

/-- 1000 by 7: the dividend is doubled before, and 16 words of DIVQ follow. -/
theorem divq_run_divides_seven : ∃ t,
    alu2opRun { zeros with dpregs := fun r => if r = 0 then 2000 else 7 }
      (List.replicate 16 0x4208) = some t ∧
    Divided { zeros with dpregs := fun r => if r = 0 then 2000 else 7 } t 0 1 2000 7 16 :=
  divq_run_divides (by decide) rfl (by decide) (by decide)
    (fun _ h => List.eq_of_mem_replicate h ▸ ⟨by decide, by decide, by decide⟩) (by decide)

end SkyEye.Bfin
