import SkyEye.Gdb.TracePacket
import SkyEye.Gdb.Frames
import Mathlib.Tactic.Ring

/-!
# Memory actions

The `M` action of a `QTDP` packet names a base register, or `-1`, an offset and a length.
`decode_DP_playload` takes one action from a packet. It skips the first digit of a base
register and then takes the offset to begin at the comma, so that only actions without a
base register come out as they are.
-/

namespace SkyEye.Gdb

/-- The number that hex digits stand for. -/
def natValue (digits : List Byte) : Nat :=
  digits.foldl (fun v d => v * 16 + fromhex d.toInt) 0

/-- A hex number of a packet. -/
structure HexField where
  digits : List Byte
  ne_nil : digits ≠ []
  hex : ∀ d ∈ digits, IsHexDigit d

def HexField.value (f : HexField) : Nat := natValue f.digits

/-- A well-formed memory action, from behind the `M`, and what follows in the packet. -/
structure MemoryAction where
  /-- None for `-1`. -/
  base : Option HexField
  offset : HexField
  length : HexField
  rest : List Byte
  base_lt : ∀ b ∈ base, b.value < 2 ^ 31
  offset_lt : offset.value < 2 ^ 32
  length_lt : length.value < 2 ^ 32
  noNul : 0 ∉ rest
  ends : ∀ c ∈ rest.head?, ¬ IsHexDigit c

namespace MemoryAction

variable (a : MemoryAction)

def baseText : List Byte :=
  match a.base with
  | none => [MINUS, 0x31]
  | some b => b.digits

/-- The characters of the action and what follows. -/
def text : List Byte :=
  a.baseText ++ COMMA :: (a.offset.digits ++ COMMA :: (a.length.digits ++ a.rest))

/-- What the action says is to be collected. -/
def collect : MemoryCollect where
  baseReg :=
    match a.base with
    | none => -1
    | some b => b.value
  offset := BitVec.ofNat 32 a.offset.value
  length := BitVec.ofNat 32 a.length.value

/-- The action is stored as it is, and the parser stops at what follows it. -/
def Exact : Prop :=
  decodeDPPlayload (0x4d :: (a.text ++ [0])) = some (.memory a.collect, a.rest ++ [0])

/-- The packet ends, or its `-` comes. -/
def Last : Prop := ∀ c ∈ a.rest.head?, c = MINUS

end MemoryAction

/-! ## Digits -/

theorem fromhex_lt (a : Int) : fromhex a < 16 := by
  unfold fromhex
  split
  · omega
  · split
    · omega
    · split <;> omega

theorem pushDigit_ofNat (n : Nat) (d : Byte) :
    pushDigit (BitVec.ofNat 32 n) d = BitVec.ofNat 32 (n * 16 + fromhex d.toInt) := by
  have hd := fromhex_lt d.toInt
  apply BitVec.eq_of_toNat_eq
  have hshift : (n % 2 ^ 32) <<< 4 % 2 ^ 32 = 2 ^ 4 * (n % 2 ^ 28) := by
    rw [Nat.shiftLeft_eq]
    omega
  rw [pushDigit, BitVec.toNat_or, BitVec.toNat_shiftLeft, BitVec.toNat_ofNat, BitVec.toNat_ofNat,
    BitVec.toNat_ofNat, hshift, Nat.mod_eq_of_lt (by omega : fromhex d.toInt < 2 ^ 32),
    ← Nat.two_pow_add_eq_or_of_lt hd]
  omega

theorem foldl_digits (n : Nat) (digits : List Byte) :
    digits.foldl (fun v d => v * 16 + fromhex d.toInt) n =
      n * 16 ^ digits.length + natValue digits := by
  induction digits generalizing n with
  | nil => simp [natValue]
  | cons d digits ih =>
    rw [natValue, List.foldl_cons, List.foldl_cons, ih, ih, List.length_cons]
    ring

theorem natValue_append (ds es : List Byte) :
    natValue (ds ++ es) = natValue ds * 16 ^ es.length + natValue es := by
  rw [natValue, List.foldl_append, foldl_digits, ← natValue]

theorem natValue_cons (d : Byte) (ds : List Byte) :
    natValue (d :: ds) = fromhex d.toInt * 16 ^ ds.length + natValue ds := by
  rw [natValue, List.foldl_cons, foldl_digits, Nat.zero_mul, Nat.zero_add]

/-- The parser's value is the number, in 32 bits. -/
theorem hexValue_eq (n : Nat) (digits : List Byte) :
    hexValue (BitVec.ofNat 32 n) digits =
      BitVec.ofNat 32 (digits.foldl (fun v d => v * 16 + fromhex d.toInt) n) := by
  induction digits generalizing n with
  | nil => rfl
  | cons d digits ih =>
    rw [hexValue, List.foldl_cons, pushDigit_ofNat]
    exact ih _

theorem hexValue_zero (digits : List Byte) :
    hexValue 0 digits = BitVec.ofNat 32 (natValue digits) := hexValue_eq 0 digits

theorem isHexDigit_ne : ∀ d : Byte, IsHexDigit d → d ≠ 0 ∧ d ≠ COMMA ∧ d ≠ MINUS := by decide

theorem fromhex_eq_zero : ∀ d : Byte, IsHexDigit d → (fromhex d.toInt = 0 ↔ d = 0x30) := by
  decide

theorem fromhex_comma : fromhex COMMA.toInt = 0 := by decide

theorem HexField.notMem (f : HexField) : 0 ∉ f.digits ∧ COMMA ∉ f.digits ∧ MINUS ∉ f.digits :=
  ⟨fun h => (isHexDigit_ne _ (f.hex _ h)).1 rfl, fun h => (isHexDigit_ne _ (f.hex _ h)).2.1 rfl,
    fun h => (isHexDigit_ne _ (f.hex _ h)).2.2 rfl⟩

namespace MemoryAction

variable (a : MemoryAction)

/-! ## Where the parser stops -/

/-- What the length loop takes besides the length, and where it stops. -/
theorem exists_stop : ∃ taken ch left, a.rest ++ [0] = taken ++ ch :: left ∧
    MINUS ∉ taken ∧ 0 ∉ taken ∧ (ch = MINUS ∨ ch = 0) ∧ (taken = [] ↔ a.Last) := by
  by_cases hm : MINUS ∈ a.rest
  · obtain ⟨taken, left, he, ht⟩ := List.eq_append_cons_of_mem hm
    have h0 : 0 ∉ taken := fun h => a.noNul (he ▸ List.mem_append_left _ h)
    refine ⟨taken, MINUS, left ++ [0], by rw [he, List.append_assoc, List.cons_append], ht, h0,
      .inl rfl, ?_⟩
    rw [Last, he]
    cases taken with
    | nil => simp
    | cons c taken =>
      have hc : c ≠ MINUS := fun hc => ht (hc ▸ List.mem_cons_self)
      simp [hc]
  · refine ⟨a.rest, 0, [], rfl, hm, a.noNul, .inr rfl, ?_⟩
    rw [Last]
    cases hr : a.rest with
    | nil => simp
    | cons c rest =>
      have hc : c ≠ MINUS := fun hc => hm (hr ▸ hc ▸ List.mem_cons_self)
      simp [hc]

/-- The length loop on the length field, behind `pre`. -/
theorem length_loop {pre : List Byte} (hpre : MINUS ∉ pre ∧ 0 ∉ pre) :
    ∃ taken left, hexBefore MINUS 0 (pre ++ (a.length.digits ++ (a.rest ++ [0]))) =
        some (hexValue 0 (pre ++ (a.length.digits ++ taken)), left) ∧
      a.rest ++ [0] = taken ++ left ∧ (taken = [] ↔ a.Last) := by
  obtain ⟨taken, ch, left, he, hm, h0, hch, hlast⟩ := a.exists_stop
  obtain ⟨hl0, -, hlm⟩ := a.length.notMem
  refine ⟨taken, ch :: left, ?_, he, hlast⟩
  have hm' : MINUS ∉ pre ++ (a.length.digits ++ taken) := by
    simp only [List.mem_append, not_or]
    exact ⟨hpre.1, hlm, hm⟩
  have h0' : 0 ∉ pre ++ (a.length.digits ++ taken) := by
    simp only [List.mem_append, not_or]
    exact ⟨hpre.2, hl0, h0⟩
  rw [he, ← List.append_assoc, ← List.append_assoc, List.append_assoc pre]
  exact hexBefore_append 0 hm' h0' hch

/-- Without a base register: offset and length are where the parser looks for them. -/
theorem decodeMemory_none (h : a.base = none) :
    ∃ taken left, decodeMemory (a.text ++ [0]) =
        some ({ baseReg := -1
                offset := hexValue 0 a.offset.digits
                length := hexValue 0 (a.length.digits ++ taken) }, left) ∧
      a.rest ++ [0] = taken ++ left ∧ (taken = [] ↔ a.Last) := by
  obtain ⟨taken, left, hl, he, hlast⟩ :=
    @length_loop a [] ⟨List.not_mem_nil, List.not_mem_nil⟩
  obtain ⟨ho0, hoc, -⟩ := a.offset.notMem
  refine ⟨taken, left, ?_, he, hlast⟩
  have htext : a.text ++ [0] = MINUS :: ([0x31] ++ COMMA ::
      (a.offset.digits ++ COMMA :: (a.length.digits ++ (a.rest ++ [0])))) := by
    simp [text, baseText, h]
  rw [htext, decodeMemory, decodeBaseReg_minus (by decide)]
  have hext : decodeExtent (a.offset.digits ++ COMMA :: (a.length.digits ++ (a.rest ++ [0]))) =
      some (hexValue 0 a.offset.digits, hexValue 0 (a.length.digits ++ taken), left) := by
    rw [decodeExtent, hexBefore_append 0 hoc ho0 (.inl rfl)]
    rw [List.nil_append, List.nil_append] at hl
    change (hexBefore MINUS 0 (a.length.digits ++ (a.rest ++ [0])) >>= _) = _
    rw [hl]
    rfl
  change (decodeExtent _ >>= _) = _
  rw [hext]
  rfl

/-- With a base register: its first digit is skipped, the offset is empty, and the offset
field is taken for the beginning of the length. -/
theorem decodeMemory_some {b : HexField} {d : Byte} {ds : List Byte} (h : a.base = some b)
    (hb : b.digits = d :: ds) :
    ∃ taken left, decodeMemory (a.text ++ [0]) =
        some ({ baseReg := (hexValue 0 ds).toInt
                offset := 0
                length := hexValue 0 (a.offset.digits ++ COMMA :: (a.length.digits ++ taken)) },
          left) ∧
      a.rest ++ [0] = taken ++ left ∧ (taken = [] ↔ a.Last) := by
  obtain ⟨ho0, -, hom⟩ := a.offset.notMem
  have hpre : MINUS ∉ a.offset.digits ++ [COMMA] ∧ 0 ∉ a.offset.digits ++ [COMMA] := by
    simp only [List.mem_append, List.mem_singleton, not_or]
    exact ⟨⟨hom, by decide⟩, ho0, by decide⟩
  obtain ⟨taken, left, hl, he, hlast⟩ := a.length_loop hpre
  refine ⟨taken, left, ?_, he, hlast⟩
  have hnot := b.notMem
  rw [hb] at hnot
  obtain ⟨hb0, hbc, hbm⟩ := hnot
  rw [List.mem_cons, not_or] at hb0 hbc hbm
  have htext : a.text ++ [0] = d :: (ds ++ COMMA ::
      (a.offset.digits ++ COMMA :: (a.length.digits ++ (a.rest ++ [0])))) := by
    simp [text, baseText, h, hb]
  have hbase : decodeBaseReg (d :: (ds ++ COMMA ::
      (a.offset.digits ++ COMMA :: (a.length.digits ++ (a.rest ++ [0]))))) =
      some ((hexValue 0 ds).toInt, COMMA ::
        (a.offset.digits ++ COMMA :: (a.length.digits ++ (a.rest ++ [0])))) := by
    rw [decodeBaseReg, if_neg (Ne.symm hbm.1), hexBefore_append 0 hbc.2 hb0.2 (.inl rfl)]
    rfl
  have hext : decodeExtent (COMMA ::
      (a.offset.digits ++ COMMA :: (a.length.digits ++ (a.rest ++ [0])))) =
      some (0, hexValue 0 (a.offset.digits ++ COMMA :: (a.length.digits ++ taken)), left) := by
    have hl' : hexBefore MINUS 0
        (a.offset.digits ++ COMMA :: (a.length.digits ++ (a.rest ++ [0]))) =
        some (hexValue 0 (a.offset.digits ++ COMMA :: (a.length.digits ++ taken)), left) := by
      simpa only [List.append_assoc, List.singleton_append] using hl
    rw [decodeExtent, hexBefore, if_pos (.inl rfl)]
    change (hexBefore MINUS 0
      (a.offset.digits ++ COMMA :: (a.length.digits ++ (a.rest ++ [0]))) >>= _) = _
    rw [hl']
    rfl
  rw [htext, decodeMemory, hbase]
  change (decodeExtent _ >>= _) = _
  rw [hext]
  rfl

/-! ## When the action comes out as it is -/

theorem decodeDPPlayload_memory (s : List Byte) :
    decodeDPPlayload (0x4d :: s) = (decodeMemory s).map fun r => (.memory r.1, r.2) := rfl

/-- The result is the action and the cursor, so each has to be right. -/
theorem exact_iff_of_decode {mc : MemoryCollect} {taken left : List Byte}
    (h : decodeMemory (a.text ++ [0]) = some (mc, left)) (he : a.rest ++ [0] = taken ++ left) :
    a.Exact ↔ mc = a.collect ∧ taken = [] := by
  rw [Exact, decodeDPPlayload_memory, h, Option.map_some, Option.some_inj, Prod.mk.injEq,
    Payload.memory.injEq]
  refine and_congr_right fun _ => ?_
  rw [he]
  exact List.self_eq_append_left

theorem toInt_ofNat_of_lt {n : Nat} (h : n < 2 ^ 31) : (BitVec.ofNat 32 n).toInt = n := by
  rw [BitVec.toInt_eq_toNat_of_lt]
  · rw [BitVec.toNat_ofNat, Nat.mod_eq_of_lt (by omega)]
  · rw [BitVec.toNat_ofNat, Nat.mod_eq_of_lt (by omega)]
    omega

/-- With a base register the action comes out only if what is skipped and what is shifted
are zeros. -/
theorem collect_eq_iff {b : HexField} {d : Byte} {ds : List Byte} (h : a.base = some b)
    (hb : b.digits = d :: ds) :
    ({ baseReg := (hexValue 0 ds).toInt
       offset := 0
       length := hexValue 0 (a.offset.digits ++ COMMA :: (a.length.digits ++ [])) } :
      MemoryCollect) = a.collect ↔ d = 0x30 ∧ a.offset.value = 0 := by
  have hlt : b.value < 2 ^ 31 := a.base_lt b h
  have hval : b.value = fromhex d.toInt * 16 ^ ds.length + natValue ds := by
    rw [HexField.value, hb, natValue_cons]
  have hds : (hexValue 0 ds).toInt = natValue ds := by
    rw [hexValue_zero]
    exact toInt_ofNat_of_lt (by omega)
  have hd := fromhex_eq_zero d (b.hex d (hb ▸ List.mem_cons_self))
  rw [collect, h, MemoryCollect.mk.injEq, hds, List.append_nil]
  dsimp only
  constructor
  · rintro ⟨hbase, hoff, -⟩
    have hzero : fromhex d.toInt * 16 ^ ds.length = 0 := by
      have hbase' : natValue ds = b.value := by exact_mod_cast hbase
      omega
    have hoff' : BitVec.ofNat 32 0 = BitVec.ofNat 32 a.offset.value := hoff
    have hmod := congrArg BitVec.toNat hoff'
    rw [BitVec.toNat_ofNat, BitVec.toNat_ofNat, Nat.mod_eq_of_lt a.offset_lt] at hmod
    refine ⟨hd.mp ((Nat.mul_eq_zero.mp hzero).resolve_right ?_), by omega⟩
    exact Nat.ne_of_gt (Nat.pow_pos (by omega))
  · rintro ⟨hd0, hoff⟩
    rw [hd.mpr hd0, Nat.zero_mul, Nat.zero_add] at hval
    have hoff' : natValue a.offset.digits = 0 := hoff
    rw [hval, hoff, hexValue_zero, natValue_append, natValue_cons, hoff', fromhex_comma,
      Nat.zero_mul, Nat.zero_mul, Nat.zero_add, Nat.zero_add]
    exact ⟨rfl, rfl, rfl⟩

/-- A memory action is stored exactly if it is the last action of its packet and either has
no base register or only zeros where the parser goes wrong. -/
theorem memory_action_exact_iff :
    a.Exact ↔ a.Last ∧
      (a.base = none ∨
        ∃ b ∈ a.base, b.digits.head? = some 0x30 ∧ a.offset.value = 0) := by
  cases h : a.base with
  | none =>
    obtain ⟨taken, left, hdec, he, hlast⟩ := a.decodeMemory_none h
    rw [a.exact_iff_of_decode hdec he, ← hlast]
    simp only [true_or, and_true, and_iff_right_iff_imp]
    rintro rfl
    rw [collect, h, List.append_nil, hexValue_zero, hexValue_zero]
    rfl
  | some b =>
    obtain ⟨d, ds, hb⟩ := List.exists_cons_of_ne_nil b.ne_nil
    obtain ⟨taken, left, hdec, he, hlast⟩ := a.decodeMemory_some h hb
    rw [a.exact_iff_of_decode hdec he, ← hlast, and_comm]
    refine and_congr_right fun ht => ?_
    subst ht
    rw [a.collect_eq_iff h hb]
    simp [hb]

end MemoryAction

/-- The action `M0,1c,4`. -/
def baseZero : MemoryAction where
  base := some ⟨[0x30], by decide, by decide⟩
  offset := ⟨[0x31, 0x63], by decide, by decide⟩
  length := ⟨[0x34], by decide, by decide⟩
  rest := []
  base_lt := by rintro b ⟨⟩; decide
  offset_lt := by decide
  length_lt := by decide
  noNul := by decide
  ends := by simp

/-- `M0,1c,4` is stored with offset 0 and length `1c04`. -/
theorem memory_action_base_zero :
    ¬ baseZero.Exact ∧
      decodeDPPlayload (0x4d :: (baseZero.text ++ [0])) =
        some (.memory { baseReg := 0, offset := 0, length := 0x1c04 }, [0]) ∧
      baseZero.collect = { baseReg := 0, offset := 0x1c, length := 4 } := by
  refine ⟨fun h => ?_, rfl, rfl⟩
  have h' : some (Payload.memory { baseReg := 0, offset := 0, length := 0x1c04 }, [(0 : Byte)]) =
      some (.memory { baseReg := 0, offset := 0x1c, length := 4 }, [0]) := h
  injection h' with hp
  injection hp with hm
  injection hm with hm
  injection hm with _ hoff
  exact absurd hoff (by decide)

end SkyEye.Gdb
