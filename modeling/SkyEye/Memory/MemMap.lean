import SkyEye.Arm.Defs
import SkyEye.Memory.Banks

/-!
# The memory map of a configuration

`parse_line_formatted` and `parse_mem` fill the table of banks from the `mem_bank` lines of
the configuration, and `bank_ptr` searches it: the bank found last first, then from the
start up to the first slot of length 0. `MAX_BANK` lines are accepted, and the table has
that many slots; a full table has no slot left to end the search.
-/

namespace SkyEye

/-- What `bank_ptr` reads of a `mem_bank_t`. -/
structure MemSlot where
  addr : ARMword
  len : ARMword
  deriving DecidableEq, Repr

/-- The test of `bank_ptr`. -/
def MemSlot.contains (b : MemSlot) (addr : ARMword) : Bool :=
  decide (b.addr ≤ addr) && decide (addr - b.addr < b.len)

namespace MemMap

/-! ## The configuration -/

def MAX_BANK : Nat := 32

/-- A digit of `strtoul` -/
def digitOf (base : Nat) (c : Char) : Option Nat :=
  let d :=
    if c.isDigit then c.toNat - '0'.toNat
    else if c.isAlpha then c.toLower.toNat - 'a'.toNat + 10
    else base
  if d < base then some d else none

/-- The digits at the head of a text, after those that gave `acc`. -/
def digits (base : Nat) : Nat → List Char → Nat
  | acc, [] => acc
  | acc, c :: cs =>
    match digitOf base c with
    | some d => digits base (acc * base + d) cs
    | none => acc

/-- A `0x` that a digit follows, in base 16. -/
def skipPrefix (base : Nat) : List Char → List Char
  | '0' :: x :: c :: cs =>
    if base = 16 ∧ x.toLower = 'x' ∧ (digitOf base c).isSome then c :: cs else '0' :: x :: c :: cs
  | cs => cs

/-- `strtoul`, with an `unsigned long` of eight bytes. -/
def strtoul (value : List Char) (base : Nat) : Nat :=
  let cs := value.dropWhile Char.isWhitespace
  let negative := cs.head? = some '-'
  let cs := if negative ∨ cs.head? = some '+' then cs.tail else cs
  let n := digits base 0 (skipPrefix base cs)
  if 2 ^ 64 ≤ n then 2 ^ 64 - 1 else if negative then (2 ^ 64 - n) % 2 ^ 64 else n

/-- `split_param`; without a `=` the buffer for the value stays as it is. -/
def splitParam (param value : List Char) : List Char × List Char :=
  match param.dropWhile (· ≠ '=') with
  | [] => (param, value)
  | _ :: v => (param.takeWhile (· ≠ '='), v)

/-- An address or a size of a bank. -/
def parseNumber (value : List Char) : ARMword :=
  if value.head? = some '0' ∧ value[1]? = some 'x' then BitVec.ofNat 32 (strtoul value 16)
  else BitVec.ofNat 32 (strtoul value 10)

/-- `!strncmp (option, name, strlen (name))` -/
def names (name : List Char) (option : String) : Bool := name.isPrefixOf option.toList

/-- One round of the loop of `parse_mem`. -/
def parseParam (slot : MemSlot) (name value : List Char) : MemSlot :=
  if names name "map" then slot
  else if names name "type" then slot
  else if names name "addr" then { slot with addr := parseNumber value }
  else if names name "size" then { slot with len := parseNumber value }
  else slot

/-- The loop of `parse_mem`, with what the buffer for values holds. -/
def parseParams (slot : MemSlot) (value : List Char) : List (List Char) → MemSlot
  | [] => slot
  | param :: params =>
    let (name, value) := splitParam param value
    parseParams (parseParam slot name value) value params

end MemMap

/-- `mem_config_t`, and the count of `mem_bank` lines in `skyeye_options`. -/
structure MemConfig where
  memBanks : List MemSlot
  currentNum : Nat
  doNum : Nat

namespace MemConfig

open MemMap

/-- The table before the configuration is read. -/
def initial : MemConfig where
  memBanks := List.replicate MAX_BANK ⟨0, 0⟩
  currentNum := 0
  doNum := 0

/-- `parse_mem`; `stale` is what the uninitialised buffer for values holds. -/
def parseMem (mc : MemConfig) (stale : List Char) (params : List (List Char)) : MemConfig :=
  let num := mc.currentNum
  { mc with
    memBanks := mc.memBanks.modify num fun slot => parseParams slot stale params
    currentNum := mc.currentNum + 1 }

/-- `parse_line_formatted` on a `mem_bank` line: none if there are too many. -/
def parseLine (mc : MemConfig) (stale : List Char) (params : List (List Char)) :
    Option MemConfig :=
  let mc := { mc with doNum := mc.doNum + 1 }
  if MAX_BANK < mc.doNum then none else some (mc.parseMem stale params)

/-- The `mem_bank` lines of a configuration, each with the stale buffer it finds. -/
def parse (mc : MemConfig) : List (List Char × List (List Char)) → Option MemConfig
  | [] => some mc
  | (stale, params) :: lines => (mc.parseLine stale params).bind (·.parse lines)

end MemConfig

namespace MemMap

variable (memBanks : List MemSlot)

/-! ## The search -/

/-- The slots from number `i` on; none if the search runs out of the table. -/
def scanFrom (i : Nat) (addr : ARMword) : List MemSlot → Option (Nat × Bool)
  | [] => none
  | b :: bs =>
    if b.len = 0 then some (i, false)
    else if b.contains addr then some (i, true)
    else scanFrom (i + 1) addr bs

/-- `bank_ptr`: the bank, if one was found, and the slot that `mbp` is left at; none if a slot
behind the table is examined. -/
def bankPtr (mbp : Option Nat) (addr : ARMword) : Option (Option Nat × Nat) :=
  match mbp.filter fun i => (memBanks[i]?).any (·.contains addr) with
  | some i => some (some i, i)
  | none =>
    (scanFrom 0 addr memBanks).map fun (i, found) => (if found then some i else none, i)

/-- The answers to a history of lookups. -/
def lookups (mbp : Option Nat) : List ARMword → Option (List (Option Nat))
  | [] => some []
  | addr :: addrs =>
    match bankPtr memBanks mbp addr with
    | none => none
    | some (answer, mbp) => (lookups (some mbp) addrs).map (answer :: ·)

/-! ## What a lookup is for -/

/-- Bank `i` holds the address. -/
def Holds (i : Nat) (addr : ARMword) : Prop :=
  ∃ b, memBanks[i]? = some b ∧ b.addr.toNat ≤ addr.toNat ∧
    addr.toNat < b.addr.toNat + b.len.toNat

/-- No address is held by two banks. -/
def Disjoint : Prop := ∀ i j addr, Holds memBanks i addr → Holds memBanks j addr → i = j

/-- The bank that holds the address, or none if none does. -/
def IsAnswer (addr : ARMword) : Option Nat → Prop
  | some i => Holds memBanks i addr ∧ ∀ j, Holds memBanks j addr → j = i
  | none => ∀ i, ¬ Holds memBanks i addr

/-- Every history of lookups stays in the table and gets the right answers. -/
def LookupsSound : Prop :=
  ∀ addrs, ∃ answers, lookups memBanks none addrs = some answers ∧
    List.Forall₂ (IsAnswer memBanks) addrs answers

variable {memBanks} {addr : ARMword} {i j : Nat}

theorem contains_slot_iff {b : MemSlot} : b.contains addr = true ↔
    b.addr.toNat ≤ addr.toNat ∧ addr.toNat < b.addr.toNat + b.len.toNat := by
  have ha := addr.isLt
  have hb := b.addr.isLt
  have hl := b.len.isLt
  simp only [MemSlot.contains, Bool.and_eq_true, decide_eq_true_eq, BitVec.le_def, BitVec.lt_def,
    BitVec.toNat_sub]
  omega

theorem holds_iff : Holds memBanks i addr ↔ ∃ b, memBanks[i]? = some b ∧ b.contains addr = true := by
  simp only [Holds, contains_slot_iff]

/-- A slot of length 0 holds nothing. -/
theorem Holds.len_ne_zero (h : Holds memBanks i addr) {b : MemSlot} (hb : memBanks[i]? = some b) :
    b.len ≠ 0 := by
  obtain ⟨c, hc, hle, hlt⟩ := h
  cases hb.symm.trans hc
  intro h0
  have hz : (0 : ARMword).toNat = 0 := rfl
  rw [h0] at hlt
  omega

theorem isAnswer_some (hd : Disjoint memBanks) (h : Holds memBanks i addr) :
    IsAnswer memBanks addr (some i) :=
  ⟨h, fun j hj => hd j i addr hj h⟩

/-! ## The scan -/

/-- The scan goes past a slot. -/
def Passed (addr : ARMword) (b : MemSlot) : Prop := b.len ≠ 0 ∧ b.contains addr = false

theorem scanFrom_eq_none {bs : List MemSlot} (h : scanFrom i addr bs = none) :
    ∀ b ∈ bs, Passed addr b := by
  induction bs generalizing i with
  | nil => exact fun b hb => by cases hb
  | cons b bs ih =>
    rw [scanFrom] at h
    split at h
    · cases h
    · split at h
      · cases h
      · rename_i h0 hc
        exact List.forall_mem_cons.mpr ⟨⟨h0, Bool.eq_false_iff.mpr hc⟩, ih h⟩

/-- The scan stops at the first slot that it does not go past. -/
theorem scanFrom_eq_some {bs : List MemSlot} {k : Nat} {found : Bool}
    (h : scanFrom i addr bs = some (k, found)) :
    ∃ n b, k = i + n ∧ bs[n]? = some b ∧ (if found then b.contains addr = true else b.len = 0) ∧
      ∀ m < n, ∀ c, bs[m]? = some c → Passed addr c := by
  induction bs generalizing i with
  | nil => cases h
  | cons b bs ih =>
    rw [scanFrom] at h
    split at h
    · rename_i h0
      cases h
      exact ⟨0, b, rfl, rfl, h0, fun m hm => absurd hm (Nat.not_lt_zero m)⟩
    · split at h
      · rename_i hc
        cases h
        exact ⟨0, b, rfl, rfl, hc, fun m hm => absurd hm (Nat.not_lt_zero m)⟩
      · rename_i h0 hc
        obtain ⟨n, c, hk, hget, hstop, hpass⟩ := ih h
        refine ⟨n + 1, c, by omega, hget, hstop, fun m hm d hd => ?_⟩
        cases m with
        | zero =>
          cases hd
          exact ⟨h0, Bool.eq_false_iff.mpr hc⟩
        | succ m => exact hpass m (by omega) d hd

/-! ## Soundness -/

/-- No bank stands behind a slot of length 0. -/
def NoGap (memBanks : List MemSlot) : Prop :=
  ∀ (i j : Nat) (b c : MemSlot), memBanks[i]? = some b → memBanks[j]? = some c → i < j →
    b.len = 0 → c.len = 0

/-- The search for any address ends in the table: at a slot of length 0, or because every address
is held by a bank. -/
def Ends (memBanks : List MemSlot) : Prop :=
  (∃ b ∈ memBanks, b.len = 0) ∨ ∀ addr, ∃ i, Holds memBanks i addr

theorem bankPtr_answers (hd : Disjoint memBanks) (hg : NoGap memBanks) (he : Ends memBanks)
    (mbp : Option Nat) (addr : ARMword) :
    ∃ answer k, bankPtr memBanks mbp addr = some (answer, k) ∧ IsAnswer memBanks addr answer := by
  rw [bankPtr]
  split
  · -- the bank found last
    rename_i i hi
    obtain ⟨-, hany⟩ := Option.filter_eq_some_iff.mp hi
    obtain ⟨b, hb, hc⟩ := (Option.any_eq_true _ _).mp hany
    exact ⟨some i, i, rfl, isAnswer_some hd (holds_iff.mpr ⟨b, hb, hc⟩)⟩
  · cases hscan : scanFrom 0 addr memBanks with
    | none =>
      have hpass := scanFrom_eq_none hscan
      exfalso
      rcases he with ⟨b, hb, h0⟩ | hall
      · exact (hpass b hb).1 h0
      · obtain ⟨i, hi⟩ := hall addr
        obtain ⟨b, hb, hc⟩ := holds_iff.mp hi
        rw [(hpass b (List.mem_of_getElem? hb)).2] at hc
        cases hc
    | some r =>
      obtain ⟨k, found⟩ := r
      obtain ⟨n, b, hk, hb, hstop, hpass⟩ := scanFrom_eq_some hscan
      rw [Nat.zero_add] at hk
      subst hk
      refine ⟨_, k, rfl, ?_⟩
      cases found with
      | true => exact isAnswer_some hd (holds_iff.mpr ⟨b, hb, hstop⟩)
      | false =>
        -- a bank before the slot was passed, one behind it would leave a gap
        intro j hj
        obtain ⟨c, hc, hcontains⟩ := holds_iff.mp hj
        rcases Nat.lt_trichotomy j k with hlt | rfl | hgt
        · rw [(hpass j hlt c hc).2] at hcontains
          cases hcontains
        · exact hj.len_ne_zero hb hstop
        · exact hj.len_ne_zero hc (hg k j b c hb hc hgt hstop)

theorem lookupsSound_of_ends (hd : Disjoint memBanks) (hg : NoGap memBanks) (he : Ends memBanks) :
    LookupsSound memBanks := by
  intro addrs
  generalize (none : Option Nat) = mbp
  induction addrs generalizing mbp with
  | nil => exact ⟨[], rfl, .nil⟩
  | cons addr addrs ih =>
    obtain ⟨answer, k, hptr, hans⟩ := bankPtr_answers hd hg he mbp addr
    obtain ⟨answers, hrest, hall⟩ := ih (some k)
    refine ⟨answer :: answers, ?_, .cons hans hall⟩
    rw [lookups, hptr]
    exact congrArg (Option.map (answer :: ·)) hrest

/-- The first lookup scans the table. -/
theorem LookupsSound.scan (h : LookupsSound memBanks) (addr : ARMword) :
    ∃ k found, scanFrom 0 addr memBanks = some (k, found) ∧
      IsAnswer memBanks addr (if found then some k else none) := by
  obtain ⟨answers, hl, hall⟩ := h [addr]
  rw [lookups, bankPtr, Option.filter_none] at hl
  cases hscan : scanFrom 0 addr memBanks with
  | none =>
    rw [hscan] at hl
    cases hl
  | some r =>
    rw [hscan] at hl
    cases hl
    obtain ⟨ha, -⟩ := List.forall₂_cons.mp hall
    exact ⟨r.1, r.2, rfl, ha⟩

theorem LookupsSound.noGap (h : LookupsSound memBanks) : NoGap memBanks := by
  intro i j b c hb hc hij h0
  by_contra hne
  -- look up the first address of the bank behind the gap
  have hpos : 0 < c.len.toNat := Nat.pos_of_ne_zero fun hz =>
    hne (BitVec.eq_of_toNat_eq (hz.trans BitVec.toNat_zero.symm))
  have hj : Holds memBanks j c.addr := ⟨c, hc, Nat.le_refl _, by omega⟩
  obtain ⟨k, found, hscan, hans⟩ := h.scan c.addr
  obtain ⟨n, d, hk, -, hstop, hpass⟩ := scanFrom_eq_some hscan
  rw [Nat.zero_add] at hk
  cases found with
  | false => exact hans j hj
  | true =>
    have hjk : j = k := hans.2 j hj
    exact (hpass i (by omega) b hb).1 h0

theorem LookupsSound.ends (h : LookupsSound memBanks) : Ends memBanks := by
  by_contra hc
  rw [Ends, not_or, not_exists, not_forall] at hc
  obtain ⟨hzero, addr, hnone⟩ := hc
  obtain ⟨k, found, hscan, hans⟩ := h.scan addr
  obtain ⟨n, b, -, hb, hstop, -⟩ := scanFrom_eq_some hscan
  cases found with
  | false => exact hzero b ⟨List.mem_of_getElem? hb, hstop⟩
  | true => exact hnone ⟨k, hans.1⟩

/-! ## The banks of a running machine -/

/-- What `bank_ptr` reads of a bank. -/
def slotOf (b : MemBank) : MemSlot := ⟨b.addr, b.len⟩

theorem scanFrom_banks (banks : List MemBank) (rest : List MemSlot)
    (hlen : ∀ b ∈ banks, b.len ≠ 0) (i : Nat) (addr : ARMword) :
    scanFrom i addr (banks.map slotOf ++ ⟨0, 0⟩ :: rest) =
      some (match banks.findIdx? (·.contains addr) with
        | some k => (i + k, true)
        | none => (i + banks.length, false)) := by
  induction banks generalizing i with
  | nil => rfl
  | cons b banks ih =>
    obtain ⟨hb, hbanks⟩ := List.forall_mem_cons.mp hlen
    rw [List.map_cons, List.cons_append, scanFrom, if_neg (show (slotOf b).len ≠ 0 from hb),
      List.findIdx?_cons]
    cases hc : b.contains addr with
    | true => exact if_pos hc
    | false =>
      rw [if_neg (show ¬ (slotOf b).contains addr = true from Bool.eq_false_iff.mp hc),
        ih hbanks, if_neg Bool.false_ne_true]
      cases banks.findIdx? (·.contains addr) with
      | none =>
        rw [Option.map_none, List.length_cons]
        exact congrArg (fun n => some (n, false)) (by omega)
      | some k =>
        rw [Option.map_some]
        exact congrArg (fun n => some (n, true)) (by omega)

/-- With a slot of length 0 behind the banks, `bank_ptr` is the search of `Banks`. -/
theorem bankPtr_banks (m : Banks) (rest : List MemSlot) (hlen : ∀ b ∈ m.memBanks, b.len ≠ 0)
    (hm : ∀ i, m.mbp = some i → i < m.memBanks.length) (addr : ARMword) :
    (bankPtr (m.memBanks.map slotOf ++ ⟨0, 0⟩ :: rest) m.mbp addr).map Prod.fst =
      some (m.bankPtr addr) := by
  have hcache : (m.mbp.filter fun i =>
        ((m.memBanks.map slotOf ++ ⟨0, 0⟩ :: rest)[i]?).any (·.contains addr)) =
      m.mbp.filter fun i => (m.memBanks[i]?).any (·.contains addr) := by
    cases hi : m.mbp with
    | none => rfl
    | some i =>
      have hlt := hm i hi
      rw [Option.filter_some, Option.filter_some,
        List.getElem?_append_left (by rw [List.length_map]; exact hlt), List.getElem?_map,
        Option.any_map]
      rfl
  rw [bankPtr, Banks.bankPtr, hcache]
  cases m.mbp.filter fun i => (m.memBanks[i]?).any (·.contains addr) with
  | some i => rfl
  | none =>
    rw [scanFrom_banks m.memBanks rest hlen]
    cases m.memBanks.findIdx? (·.contains addr) with
    | none => rfl
    | some k => exact congrArg (fun n => some (some n)) (Nat.zero_add k)

end MemMap

/-! ## What the parser accepts -/

namespace MemConfig

open MemMap

/-- After `n` lines of banks: the slots behind them are as they were. -/
structure Filled (mc : MemConfig) (n : Nat) : Prop where
  length : mc.memBanks.length = MAX_BANK
  currentNum : mc.currentNum = n
  doNum : mc.doNum = n
  le : n ≤ MAX_BANK
  rest : ∀ i, n ≤ i → i < MAX_BANK → mc.memBanks[i]? = some ⟨0, 0⟩

theorem filled_initial : initial.Filled 0 where
  length := List.length_replicate
  currentNum := rfl
  doNum := rfl
  le := Nat.zero_le _
  rest _ _ hi := List.getElem?_replicate_of_lt hi

variable {mc mc' : MemConfig} {n : Nat}

theorem Filled.parseLine (h : mc.Filled n) {stale : List Char} {params : List (List Char)}
    (hp : mc.parseLine stale params = some mc') : mc'.Filled (n + 1) := by
  rw [MemConfig.parseLine] at hp
  dsimp only at hp
  split at hp
  · cases hp
  · rename_i hle
    cases hp
    rw [h.doNum] at hle
    refine ⟨?_, ?_, ?_, by omega, fun i hi hlt => ?_⟩
    · exact (List.length_modify ..).trans h.length
    · exact congrArg (· + 1) h.currentNum
    · exact congrArg (· + 1) h.doNum
    · have hne : mc.currentNum ≠ i := by
        rw [h.currentNum]
        omega
      refine (List.getElem?_modify ..).trans ?_
      rw [h.rest i (by omega) hlt, Option.map_eq_map, Option.map_some, if_neg hne]

theorem Filled.parse {lines : List (List Char × List (List Char))} (h : mc.Filled n)
    (hp : mc.parse lines = some mc') : mc'.Filled (n + lines.length) := by
  induction lines generalizing mc n with
  | nil =>
    cases hp
    exact h
  | cons line lines ih =>
    obtain ⟨stale, params⟩ := line
    rw [MemConfig.parse] at hp
    obtain ⟨mc₁, hline, hrest⟩ := Option.bind_eq_some_iff.mp hp
    rw [List.length_cons, Nat.add_comm lines.length 1, ← Nat.add_assoc]
    exact ih (h.parseLine hline) hrest

/-- With a slot to spare the search ends. -/
theorem Filled.ends (h : mc.Filled n) (hn : n < MAX_BANK) : Ends mc.memBanks :=
  .inl ⟨⟨0, 0⟩, List.mem_of_getElem? (h.rest n (Nat.le_refl n) hn), rfl⟩

/-- Over the disjoint banks of an accepted configuration the lookups are sound if and only if no
bank is behind a bank of length 0, and there are fewer than `MAX_BANK`, or one of length 0, or
every address is held by a bank. -/
theorem lookups_sound_iff {lines : List (List Char × List (List Char))}
    (hp : initial.parse lines = some mc) (hd : Disjoint mc.memBanks) :
    LookupsSound mc.memBanks ↔
      NoGap mc.memBanks ∧ (lines.length < MAX_BANK ∨ (∃ b ∈ mc.memBanks, b.len = 0) ∨
        ∀ addr, ∃ i, Holds mc.memBanks i addr) := by
  have hf := filled_initial.parse hp
  rw [Nat.zero_add] at hf
  constructor
  · exact fun h => ⟨h.noGap, .inr h.ends⟩
  · rintro ⟨hg, hlt | he⟩
    · exact lookupsSound_of_ends hd hg (hf.ends hlt)
    · exact lookupsSound_of_ends hd hg he

/-- `mem_bank: addr=00, size=1` and so on, for `n` addresses. -/
def byteBanks (n : Nat) : List (List Char × List (List Char)) :=
  (List.range n).map fun i =>
    ([], ["addr=".toList ++ [Char.ofNat (48 + i / 10), Char.ofNat (48 + i % 10)],
      "size=1".toList])

/-- The table they give. -/
def byteTable (n : Nat) : List MemSlot :=
  (List.range n).map (fun i => ⟨BitVec.ofNat 32 i, 1⟩) ++ List.replicate (MAX_BANK - n) ⟨0, 0⟩

theorem byteTable_slot {n i : Nat} {b : MemSlot} (hb : (byteTable n)[i]? = some b) :
    if i < n then b = ⟨BitVec.ofNat 32 i, 1⟩ else b = ⟨0, 0⟩ := by
  rw [byteTable, List.getElem?_append, List.length_map, List.length_range] at hb
  split at hb
  · rename_i hi
    rw [List.getElem?_map, List.getElem?_range hi] at hb
    rw [if_pos hi]
    exact (Option.some.inj hb).symm
  · rename_i hi
    rw [if_neg hi]
    exact (List.mem_replicate.mp (List.mem_of_getElem? hb)).2

theorem holds_byteTable {n i : Nat} {addr : ARMword} (hn : n ≤ MAX_BANK)
    (h : Holds (byteTable n) i addr) : addr.toNat = i := by
  obtain ⟨b, hb, hle, hlt⟩ := h
  have hn' : n ≤ 32 := hn
  have h1 : (1 : ARMword).toNat = 1 := rfl
  have h0 : (0 : ARMword).toNat = 0 := rfl
  have hslot := byteTable_slot hb
  split at hslot
  · rw [hslot, BitVec.toNat_ofNat, Nat.mod_eq_of_lt (by omega)] at hle hlt
    dsimp only at hlt
    omega
  · rw [hslot] at hlt
    dsimp only at hlt
    omega

theorem disjoint_byteTable {n : Nat} (hn : n ≤ MAX_BANK) : Disjoint (byteTable n) :=
  fun _ _ _ hi hj => (holds_byteTable hn hi).symm.trans (holds_byteTable hn hj)

theorem noGap_byteTable (n : Nat) : NoGap (byteTable n) := by
  intro i j b c hb hc hij h0
  have hi := byteTable_slot hb
  have hj := byteTable_slot hc
  split at hi
  · rw [hi] at h0
    exact absurd (show (1 : ARMword) = 0 from h0) (by decide)
  · rw [if_neg (by omega)] at hj
    rw [hj]

/-- Two banks of a byte. -/
theorem lookups_sound_iff_two : LookupsSound (byteTable 2) := by
  have hp : initial.parse (byteBanks 2) = some ⟨byteTable 2, 2, 2⟩ := by rfl
  exact (lookups_sound_iff hp (disjoint_byteTable (by decide))).mpr
    ⟨noGap_byteTable 2, .inl (by decide)⟩

/-- `MAX_BANK` banks of a byte are accepted, and a lookup of any other address examines a slot
behind the table. -/
theorem full_table_overruns :
    initial.parse (byteBanks 32) = some ⟨byteTable 32, 32, 32⟩ ∧ Disjoint (byteTable 32) ∧
      bankPtr (byteTable 32) none 100 = none ∧ ¬ LookupsSound (byteTable 32) := by
  have hnone : bankPtr (byteTable 32) none 100 = none := by decide
  refine ⟨by rfl, disjoint_byteTable (by decide), hnone, fun h => ?_⟩
  obtain ⟨answers, hl, -⟩ := h [100]
  rw [lookups, hnone] at hl
  cases hl

end MemConfig

end SkyEye
