import SkyEye.Mips.Precise
import SkyEye.Mips.Timer

/-!
# Load linked and store conditional

LL is a load and SC a store that always succeeds: `MIPS_State` has an `ll_bit`, but only
`mips_reset_state` uses it. SC also translates its address as a load does. So an SC does what
it has to do only where its page is writable and nothing came between it and its LL
(`sc_meets_iff`).
-/

namespace SkyEye.Mips

open Sparc (Uint32 bit)

variable {M : Type} {h : Host M}

namespace MipsState

variable (s : MipsState M)

/-- The physical word at a virtual address, where the access gets there. -/
def wordAt (va : Uint32) (type : AccessType) : Option Uint32 :=
  match s.translateVaddr va type with
  | some (some pa, _) => some (pa &&& ~~~0x3)
  | _ => none

/-- The address of the instruction that the step executes, if it is a load or store `op`. -/
def addressOf (h : Host M) (op : Nat) : Option Uint32 :=
  (s.prepare.fetch h).bind fun (instr, f) =>
    if opcode instr = op then some (f.effective instr) else none

/-- The word that the step links, if it executes LL. -/
def linkedWord (h : Host M) : Option Uint32 :=
  (s.prepare.fetch h).bind fun (instr, f) =>
    if opcode instr = 0o60 then f.wordAt (f.effective instr) .dataLoad else none

/-- The word that the step stores to: SB, SH, SWL, SW, SWR and SC. -/
def storedWord (h : Host M) : Option Uint32 :=
  (s.prepare.fetch h).bind fun (instr, f) =>
    match opcode instr with
    | 0o50 => f.wordAt (f.effective instr) .dataStore
    | 0o51 => f.wordAt (f.effective instr) .dataStore
    | 0o52 => f.wordAt (f.effective instr) .dataStore
    | 0o53 => f.wordAt (f.effective instr) .dataStore
    | 0o56 => f.wordAt (f.effective instr) .dataStore
    | 0o70 => f.wordAt (f.effective instr) .dataLoad
    | _ => none

/-- The step executes ERET. -/
def ExecutesEret (h : Host M) : Prop :=
  ∃ instr, s.fetched h = some instr ∧
    opcode instr = 0o20 ∧ bit instr 25 = true ∧ funct instr = 0o30

/-- The step ends with an interrupt: of the timer, or of the board, of which `takes` says in
which states it takes one. -/
def EndsInterrupted (h : Host M) (takes : MipsState M → Prop) : Prop :=
  (s.ReachesIn h ∧ s.ReadyIn h) ∨ ∃ b, s.tickState h = some b ∧ takes b.tick

end MipsState

/-- The step `i` of a run is an LL that loads, and the step `j` an SC to the same address, with
no other LL to it in between. -/
structure LlSc (h : Host M) (st : Nat → MipsState M) (i j : Nat) : Prop where
  lt : i < j
  linked : (st i).linkedWord h ≠ none
  address : ∃ va, (st i).addressOf h 0o60 = some va ∧ (st j).addressOf h 0o70 = some va
  last : ∀ k, i < k → k < j → (st k).addressOf h 0o60 ≠ (st j).addressOf h 0o70

/-- Between the steps `i` and `j` there is no exception, no ERET and no store to the word that
`i` links. -/
structure Undisturbed (h : Host M) (takes : MipsState M → Prop) (st : Nat → MipsState M)
    (i j : Nat) : Prop where
  raised : ∀ k, i < k → k < j → (st k).raisedIn h = none
  pending : ∀ k, i < k → k ≤ j → (st k).irqPending = false
  interrupted : ∀ k, i ≤ k → k < j → ¬(st k).EndsInterrupted h takes
  eret : ∀ k, i < k → k < j → ¬(st k).ExecutesEret h
  stored : ∀ k, i < k → k < j → (st k).storedWord h ≠ (st i).linkedWord h

/-- What the SC of the step `j`, which is `instr` in `f`, has to leave: what a store would
where that raises an exception, and otherwise the word stored and 1 in its register, but only
if nothing was in between, or the memory as it was and 0 in its register. -/
def ScLeaves (h : Host M) (instr : Uint32) (f t : MipsState M) (undisturbed : Prop) : Prop :=
  match f.translateVaddr (f.effective instr) .dataStore with
  | none => False
  | some (none, t') => t = t' ∧ t.mem = f.mem
  | some (some pa, _) =>
    (t.mem = (f.memWrite h pa (f.gpr (rt instr)) 4).mem ∧ t.gpr (rt instr) = 1 ∧ undisturbed) ∨
      (t.mem = f.mem ∧ t.gpr (rt instr) = 0)

/-- The SC of the step `j` does what it has to do, with its LL in the step `i`. -/
def ScMeets (h : Host M) (takes : MipsState M → Prop) (st : Nat → MipsState M)
    (i j : Nat) : Prop :=
  ∃ instr f t n, (st j).prepare.fetch h = some (instr, f) ∧ f.decode h instr = some (t, n) ∧
    ScLeaves h instr f t (Undisturbed h takes st i j)

/-- The SC of the step `j` is to a page that is writable. -/
def ScWritable (h : Host M) (st : Nat → MipsState M) (j : Nat) : Prop :=
  ∃ instr f, (st j).prepare.fetch h = some (instr, f) ∧
    f.wordAt (f.effective instr) .dataStore ≠ none

section

variable {f t : MipsState M} {instr : Uint32} {n : Pipeline} {va : Uint32}

/-- An address that translates for a store translates for a load, to the same. -/
theorem translateMapped_load {pa : Uint32} {t : MipsState M}
    (ht : f.translateMapped va .dataStore = some (some pa, t)) :
    f.translateMapped va .dataLoad = some (some pa, f) ∧ t = f := by
  unfold MipsState.translateMapped at ht ⊢
  split at ht
  · cases ht
  · cases ht
  · rename_i entry _
    dsimp only at ht ⊢
    generalize (f.tlb entry).loReg (if bit va 12 then 1 else 0) = lo at ht ⊢
    split at ht
    · cases ht
    · rename_i hv
      split at ht
      · cases ht
      · cases ht
        rw [if_neg hv, if_neg (by simp)]
        exact ⟨rfl, rfl⟩

theorem translateVaddr_load {pa : Uint32} {t : MipsState M}
    (ht : f.translateVaddr va .dataStore = some (some pa, t)) :
    f.translateVaddr va .dataLoad = some (some pa, f) ∧ t = f := by
  unfold MipsState.translateVaddr at ht ⊢
  split at ht
  · rw [if_pos ‹_›]
    exact translateMapped_load ht
  rw [if_neg ‹_›]
  split at ht
  · cases ht
  rw [if_neg ‹_›]
  split at ht
  · cases ht
    rw [if_pos ‹_›]
    exact ⟨rfl, rfl⟩
  rw [if_neg ‹_›]
  split at ht
  · cases ht
    rw [if_pos ‹_›]
    exact ⟨rfl, rfl⟩
  rw [if_neg ‹_›]
  exact translateMapped_load ht

theorem faultOf_cases {type : AccessType} {e : Exc} (hf : f.faultOf va type = some e) :
    e = .addressError type ∨ e = .tlbRefill type ∨ e = .tlbInvalid type ∨
      (e = .tlbModified ∧ type = .dataStore) := by
  have hm (hf : f.mappedFault va type = some e) : e = .tlbRefill type ∨ e = .tlbInvalid type ∨
      (e = .tlbModified ∧ type = .dataStore) := by
    unfold MipsState.mappedFault at hf
    split at hf
    · cases hf
    · cases hf
      exact .inl rfl
    · rename_i entry _
      dsimp only at hf
      generalize (f.tlb entry).loReg (if bit va 12 then 1 else 0) = lo at hf
      split at hf
      · cases hf
        exact .inr (.inl rfl)
      · split at hf
        · rename_i hs
          cases hf
          exact .inr (.inr ⟨rfl, hs.1⟩)
        · cases hf
  unfold MipsState.faultOf at hf
  split at hf
  · exact .inr (hm hf)
  split at hf
  · cases hf
    exact .inl rfl
  split at hf
  · cases hf
  split at hf
  · cases hf
  exact .inr (hm hf)

theorem code_load_ne_store {va' : Uint32} {e e' : Exc} (hl : f.faultOf va .dataLoad = some e)
    (hs : f.faultOf va' .dataStore = some e') : e.code ≠ e'.code := by
  rcases faultOf_cases hl with rfl | rfl | rfl | ⟨-, hn⟩
  · rcases faultOf_cases hs with rfl | rfl | rfl | ⟨rfl, -⟩ <;> decide
  · rcases faultOf_cases hs with rfl | rfl | rfl | ⟨rfl, -⟩ <;> decide
  · rcases faultOf_cases hs with rfl | rfl | rfl | ⟨rfl, -⟩ <;> decide
  · cases hn

theorem raised_of_translateVaddr (ht : f.translateVaddr va .dataStore = some (none, t)) :
    ∃ e, f.faultOf va .dataStore = some e ∧ Raised f e t ∧ t.now = f.now + 5 := by
  cases hf : f.faultOf va .dataStore with
  | none =>
    rcases MipsState.translateVaddr_of_none hf with ht' | ⟨pa, ht'⟩
    · rw [ht'] at ht
      cases ht
    · rw [ht'] at ht
      cases ht
  | some e =>
    refine ⟨e, rfl, ?_⟩
    rcases MipsState.translateVaddr_of_fault hf with ⟨hh, ht'⟩ | ⟨rfl, ht'⟩
    · rw [ht'] at ht
      cases ht
      exact ⟨raised_tlbFault f va (causeOf_held hh), rfl⟩
    · rw [ht'] at ht
      cases ht
      exact ⟨raised_addressError f .dataStore va, rfl⟩

theorem now_memWrite (s : MipsState M) (pa data : Uint32) (len : Nat) :
    (s.memWrite h pa data len).now = s.now := by
  unfold MipsState.memWrite
  split <;> rfl

theorem decode_storeConditional (hop : opcode instr = 0o70) :
    f.decode h instr = f.storeConditional h instr := by
  unfold MipsState.decode
  dsimp only
  rw [hop]
  rfl

/-- Where a store raises an exception, SC raises another one, or none at all. -/
theorem sc_ne_of_fault {t' : MipsState M} (hop : opcode instr = 0o70)
    (hd : f.decode h instr = some (t, n))
    (ht : f.translateVaddr (f.effective instr) .dataStore = some (none, t')) : t ≠ t' := by
  obtain ⟨e', hf', hr', hnow⟩ := raised_of_translateVaddr ht
  rw [decode_storeConditional hop] at hd
  unfold MipsState.storeConditional at hd
  rintro rfl
  cases hf : f.faultOf (f.effective instr) .dataLoad with
  | none =>
    rcases translated_of_none (k := fun pa s =>
      ((s.memWrite h pa (s.gpr (rt instr)) 4).setGpr (rt instr) 1).plain) hf with he | ⟨pa, he⟩
    · rw [he] at hd
      cases hd
    · rw [he] at hd
      cases hd
      have hsame := (now_memWrite (h := h) f pa (f.gpr (rt instr)) 4).symm.trans hnow
      bv_omega
  | some e =>
    obtain ⟨s, he, hr, -⟩ := translated_of_fault (k := fun pa s =>
      ((s.memWrite h pa (s.gpr (rt instr)) 4).setGpr (rt instr) 1).plain) hf
    rw [he] at hd
    cases hd
    exact code_load_ne_store hf hf' (hr.code.symm.trans hr'.code)

/-- What SC leaves is right where its page is writable and nothing was in between. -/
theorem scLeaves_iff (hop : opcode instr = 0o70) (hd : f.decode h instr = some (t, n))
    (u : Prop) : ScLeaves h instr f t u ↔
      f.wordAt (f.effective instr) .dataStore ≠ none ∧ u := by
  unfold ScLeaves MipsState.wordAt
  cases ht : f.translateVaddr (f.effective instr) .dataStore with
  | none => simp
  | some r =>
    obtain ⟨_ | pa, t'⟩ := r
    · refine iff_of_false (fun hl => ?_) fun hr => hr.1 rfl
      exact sc_ne_of_fault hop hd ht hl.1
    · rw [decode_storeConditional hop] at hd
      unfold MipsState.storeConditional MipsState.translated at hd
      rw [(translateVaddr_load ht).1] at hd
      cases hd
      have hgpr : ((f.memWrite h pa (f.gpr (rt instr)) 4).setGpr (rt instr) 1).gpr (rt instr) =
          1 := Function.update_self ..
      dsimp only
      rw [hgpr]
      constructor
      · rintro (⟨-, -, hu⟩ | ⟨-, h0⟩)
        · exact ⟨Option.some_ne_none _, hu⟩
        · exact absurd h0 (by decide)
      · rintro ⟨-, hu⟩
        exact .inl ⟨rfl, rfl, hu⟩

end

/-- In every run an SC does what it has to do exactly where its page is writable and nothing
came between it and its LL. -/
theorem sc_meets_iff {takes : MipsState M → Prop} {st : Nat → MipsState M} {N i j : Nat}
    (hrun : IsRun h st N) (hp : LlSc h st i j) (hj : j < N) :
    ScMeets h takes st i j ↔ ScWritable h st j ∧ Undisturbed h takes st i j := by
  obtain ⟨va, -, hsc⟩ := hp.address
  obtain ⟨⟨instr, f⟩, hf, hop⟩ := Option.bind_eq_some_iff.mp hsc
  dsimp only at hop
  split at hop
  · obtain ⟨⟨t, n⟩, hd, -⟩ := Option.map_eq_some_iff.mp (hrun j hj)
    rw [MipsState.fetchDecode_of_fetch hf] at hd
    have hiff := scLeaves_iff ‹_› hd (Undisturbed h takes st i j)
    constructor
    · rintro ⟨instr', f', t', n', hf', hd', hl⟩
      rw [hf] at hf'
      cases hf'
      rw [hd] at hd'
      cases hd'
      exact ⟨⟨instr, f, hf, (hiff.mp hl).1⟩, (hiff.mp hl).2⟩
    · rintro ⟨⟨instr', f', hf', hw⟩, hu⟩
      rw [hf] at hf'
      cases hf'
      exact ⟨instr, f, t, n, hf, hd, hiff.mpr ⟨hw, hu⟩⟩
  · cases hop

/-- A host with an LL, the instruction `instr` and an SC; everything else reads as one word,
the last that was stored. -/
def linkHost (instr : Uint32) : Host Uint32 where
  bankRead word _ pa :=
    some (if pa = 0x1000 then 0xC0220000 else if pa = 0x1004 then instr
      else if pa = 0x1008 then 0xE0220000 else word, word, 0)
  bankWrite _ _ _ data := some (data, 0)
  machIoDoCycle s := s
  machSetIntr _ word := word
  strayEntry _ _ := (0, 0, 0)
  uninit := 0

/-- The run of these instructions. -/
def linkRun (instr : Uint32) : Nat → MipsState Uint32
  | 0 => { (((blankState 5).setGpr 1 0x80002000).setGpr 3 7) with pc := 0x80001000 }
  | i + 1 => ((linkRun instr i).stepOnce (linkHost instr)).getD (linkRun instr i)

theorem isRun_linkRun {instr : Uint32} {N : Nat}
    (hs : ∀ i < N, ((linkRun instr i).stepOnce (linkHost instr)).isSome) :
    IsRun (linkHost instr) (linkRun instr) N := by
  intro i hi
  obtain ⟨s', hs'⟩ := Option.isSome_iff_exists.mp (hs i hi)
  show (linkRun instr i).stepOnce (linkHost instr) =
    some (((linkRun instr i).stepOnce (linkHost instr)).getD (linkRun instr i))
  rw [hs']
  rfl

theorem llSc_linkRun {instr : Uint32}
    (hl : (linkRun instr 0).linkedWord (linkHost instr) = some 0x2000)
    (hll : (linkRun instr 0).addressOf (linkHost instr) 0o60 = some 0x80002000)
    (hsc : (linkRun instr 2).addressOf (linkHost instr) 0o70 = some 0x80002000)
    (hn : (linkRun instr 1).addressOf (linkHost instr) 0o60 = none) :
    LlSc (linkHost instr) (linkRun instr) 0 2 where
  lt := by decide
  linked := by rw [hl]; exact Option.some_ne_none _
  address := ⟨_, hll, hsc⟩
  last k h0 h2 := by
    obtain rfl : k = 1 := by omega
    rw [hn, hsc]
    exact (Option.some_ne_none _).symm

/-- `sw $3, 0($1)` between `ll $2, 0($1)` and `sc $2, 0($1)`. -/
theorem not_scMeets_store : ¬∀ (h : Host Uint32) (takes : MipsState Uint32 → Prop)
    (st : Nat → MipsState Uint32) (N i j : Nat), IsRun h st N → LlSc h st i j → j < N →
      ScMeets h takes st i j := by
  intro hall
  have hlink : (linkRun 0xAC230000 0).linkedWord (linkHost 0xAC230000) = some 0x2000 := by
    decide +kernel
  have hstored : (linkRun 0xAC230000 1).storedWord (linkHost 0xAC230000) = some 0x2000 := by
    decide +kernel
  have hop : ((linkRun 0xAC230000 2).prepare.fetch (linkHost 0xAC230000)).map Prod.fst =
      some 0xE0220000 := by decide +kernel
  obtain ⟨instr, f, t, n, hf, hd, hl⟩ := hall (linkHost 0xAC230000) (fun _ => False) _ 3 0 2
    (isRun_linkRun (by decide +kernel))
    (llSc_linkRun hlink (by decide +kernel) (by decide +kernel) (by decide +kernel)) (by decide)
  rw [hf] at hop
  cases hop
  obtain ⟨-, hu⟩ := (scLeaves_iff (by decide) hd _).mp hl
  exact hu.stored 1 (by decide) (by decide) (hstored.trans hlink.symm)

theorem sc_meets_iff_nop : ScMeets (linkHost 0) (fun _ => False) (linkRun 0) 0 2 := by
  have hlink : (linkRun 0 0).linkedWord (linkHost 0) = some 0x2000 := by decide +kernel
  refine (sc_meets_iff (N := 3) (isRun_linkRun (by decide +kernel))
    (llSc_linkRun hlink (by decide +kernel) (by decide +kernel) (by decide +kernel))
    (by decide)).mpr ⟨?_, ?_, ?_, ?_, ?_, ?_⟩
  · have hw : ((linkRun 0 2).prepare.fetch (linkHost 0)).any (fun p =>
        (p.2.wordAt (p.2.effective p.1) .dataStore).isSome) = true := by decide +kernel
    obtain ⟨⟨instr, f⟩, hf, hw⟩ := (Option.any_eq_true _ _).mp hw
    exact ⟨instr, f, hf, Option.isSome_iff_ne_none.mp hw⟩
  · intro k h0 h2
    obtain rfl : k = 1 := by omega
    exact Option.isNone_iff_eq_none.mp (by decide +kernel)
  · have hp : ∀ k < 3, (linkRun 0 k).irqPending = false := by decide +kernel
    exact fun k _ h2 => hp k (by omega)
  · have hc : ∀ k < 2, ((linkRun 0 k).tickState (linkHost 0)).all
        (fun b => b.cp0 Compare == 0) = true := by decide +kernel
    rintro k - h2 (⟨⟨b, hb, hr, -⟩, -⟩ | ⟨b, -, ht⟩)
    · have hk := hc k h2
      rw [hb] at hk
      exact hr (eq_of_beq hk)
    · exact ht
  · rintro k h0 h2 ⟨instr, hi, hop, -⟩
    obtain rfl : k = 1 := by omega
    have h1 : (linkRun 0 1).fetched (linkHost 0) = some 0 := by decide +kernel
    rw [h1] at hi
    cases hi
    exact absurd hop (by decide)
  · intro k h0 h2
    obtain rfl : k = 1 := by omega
    have h1 : (linkRun 0 1).storedWord (linkHost 0) = none := by decide +kernel
    rw [h1, hlink]
    exact (Option.some_ne_none _).symm

end SkyEye.Mips
