import SkyEye.Sparc.CondCodes
import SkyEye.Memory.ReadBack
import Mathlib.Tactic.Positivity

/-!
# Stores and loads

`stb`, `sth`, `st` and `std` in RAM and the loads of the same size: the load gives back
what was stored, and a store changes no other byte. The immediate form of `std` checks one
address and stores to another, which is 0.
-/

namespace SkyEye.Sparc

/-- A host whose memory is RAM: `bank_read` and `bank_write` are `mem_read` and `mem_write`. -/
def ramHost : Host Banks where
  bankRead m size addr := (busType size).bind fun datatype =>
    (m.memRead datatype addr).1.map fun value => (value, (m.memRead datatype addr).2)
  bankWrite m size addr value := (busType size).bind fun datatype =>
    (m.bankPtr addr).map fun _ => m.memWrite datatype addr value
  shl x n := x <<< (n.toNat % 32)
  shr x n := x >>> (n.toNat % 32)
  shl_of_lt := shl_mod_of_lt
  shr_of_lt := shr_mod_of_lt

/-- The sizes of loads and stores. -/
inductive Width where
  | byte
  | half
  | word
  | double
  deriving DecidableEq

namespace Width

def bytes : Width → Nat
  | byte => 1
  | half => 2
  | word => 4
  | double => 8

def store : Width → Fields → Instr
  | byte => .stb
  | half => .sth
  | word => .st
  | double => .std

/-- The loads of a size, signed or unsigned where there are both. -/
def load (signed : Bool) : Width → Fields → Instr
  | byte => if signed then .ldsb else .ldub
  | half => if signed then .ldsh else .lduh
  | word => .ld
  | double => .ldd

/-- What a register has when the bits stored from `v` are loaded. -/
def loaded (signed : Bool) (v : Uint32) : Width → Uint32
  | byte => if signed then (v.setWidth 8).signExtend 32 else (v.setWidth 8).setWidth 32
  | half => if signed then (v.setWidth 16).signExtend 32 else (v.setWidth 16).setWidth 32
  | word | double => v

/-- An aligned address in a bank. -/
def InRam (w : Width) (m : Banks) (a : Uint32) : Prop :=
  a.toNat % w.bytes = 0 ∧ ∃ (i : Nat) (b : MemBank), m.memBanks[i]? = some b ∧
    b.addr.toNat ≤ a.toNat ∧ a.toNat + w.bytes ≤ b.addr.toNat + b.len.toNat

/-- `std` and `ldd` of an odd register are illegal instructions. -/
def Legal (w : Width) (rd : RegNo) : Prop := w = double → rd.val % 2 = 0

variable (s : SparcState Banks) (w : Width) (signed : Bool) (f g : Fields)

/-- The state after the store. -/
def stored : SparcState Banks := s.iuCycleStep ramHost (w.store f)

/-- The state after the store and the load. -/
def reloaded : SparcState Banks := (w.stored s f).iuCycleStep ramHost (w.load signed g)

/-- What a store to the address of `f` and a load from there do: the registers of the load
have what was stored, the others and the bytes elsewhere are as before. -/
structure RoundTrip : Prop where
  frame : ∀ a : Uint32,
    a.toNat < (s.address f).toNat ∨ (s.address f).toNat + w.bytes ≤ a.toNat →
    (w.stored s f).mem.byteAt a = s.mem.byteAt a
  reg : ∀ x : RegNo, (w.reloaded s signed f g).reg x =
    if x = 0 then 0
    else if x = g.rd then w.loaded signed (s.reg f.rd)
    else if w = double ∧ x.val = g.rd.val + 1 then s.reg (f.rd.val + 1)
    else s.reg x

/-- The state with other contents of memory. -/
def withRom (rom : Nat → Nat → ARMword) : SparcState Banks :=
  { s with mem := { s.mem with rom := rom } }

end Width

namespace SparcState

/-! ## The bus in RAM -/

variable (s : SparcState Banks)

theorem busWrite_of_mapped {datatype : DataType} {a : Uint32} (hl : s.mem.Laid)
    (hm : s.mem.Mapped datatype a) (v : Uint32) :
    s.busWrite ramHost datatype.bits a v =
      (0, { s with mem := s.mem.memWrite datatype a v }) := by
  obtain ⟨i, b, hb, hc, -⟩ := hm.bank
  have hp := hl.disjoint.bankPtr hb hc
  cases datatype <;>
    simp only [busWrite, ramHost, DataType.bits, busType, Option.bind_some, hp, Option.map_some]

theorem busRead_of_some {datatype : DataType} {a v : Uint32}
    (hr : (s.mem.memRead datatype a).1 = some v) (v₀ : Uint32) :
    s.busRead ramHost datatype.bits a v₀ =
      (0, v, { s with mem := (s.mem.memRead datatype a).2 }) := by
  cases datatype <;>
    simp only [busRead, ramHost, DataType.bits, busType, Option.bind_some, hr, Option.map_some]

theorem store_of_mapped {datatype : DataType} {align : Uint32} {f : Fields} (hl : s.mem.Laid)
    (hm : s.mem.Mapped datatype (s.address f)) (ha : s.address f &&& align = 0) (v : Uint32) :
    s.store ramHost datatype.bits align v f =
      { s with mem := s.mem.memWrite datatype (s.address f) v }.advance := by
  unfold store
  dsimp only
  rw [if_neg (not_not.mpr ha), s.busWrite_of_mapped hl hm]
  rfl

theorem storeTwice_of_mapped {a : Uint32} (hl : s.mem.Laid) (hm : s.mem.Mapped .word a)
    (hm' : s.mem.Mapped .word (a + 4)) (v v' : Uint32) :
    s.storeTwice ramHost a v v' =
      { s with mem := (s.mem.memWrite .word a v).memWrite .word (a + 4) v' }.advance := by
  have hs : s.mem.SameMap (s.mem.memWrite .word a v) := ⟨rfl, rfl⟩
  have h1 : s.busWrite ramHost 32 a v = (0, { s with mem := s.mem.memWrite .word a v }) :=
    s.busWrite_of_mapped hl hm v
  have h2 := { s with mem := s.mem.memWrite .word a v }.busWrite_of_mapped (hs.laid hl)
    (hs.mapped hm') v'
  unfold storeTwice
  rw [h1]
  exact (congrArg stored h2).trans rfl

theorem load_of_some {datatype : DataType} {align v : Uint32} {f : Fields}
    (extend : Uint32 → Uint32) (ha : s.address f &&& align = 0)
    (hr : (s.mem.memRead datatype (s.address f)).1 = some v) :
    s.load ramHost datatype.bits align extend (·.setReg f.rd) f =
      ({ s with mem := (s.mem.memRead datatype (s.address f)).2 }.setReg f.rd
        (extend v)).advance := by
  unfold load
  dsimp only
  rw [if_neg (not_not.mpr ha), s.busRead_of_some hr]
  rfl

end SparcState

namespace Width

variable {s : SparcState Banks} {w : Width} {signed : Bool} {f g : Fields}

/-! ## The store -/

/-- The memory after the store. -/
def written (s : SparcState Banks) (f : Fields) : Width → Banks
  | byte => s.mem.memWrite .byte (s.address f) (s.reg f.rd &&& 0x000000ff)
  | half => s.mem.memWrite .halfword (s.address f) (s.reg f.rd &&& 0x0000ffff)
  | word => s.mem.memWrite .word (s.address f) (s.reg f.rd &&& 0xffffffff)
  | double => (s.mem.memWrite .word (s.address f) (s.reg f.rd &&& 0xffffffff)).memWrite .word
      (s.address f + 4) (s.reg (f.rd + 1) &&& 0xffffffff)

theorem and_low_eq_zero {a : Uint32} (k : Nat) (hk : k ≤ 32) (ha : a.toNat % 2 ^ k = 0) :
    a &&& BitVec.ofNat 32 (2 ^ k - 1) = 0 := by
  apply BitVec.eq_of_toNat_eq
  rw [Word.toNat_and_low a k hk, ha]
  rfl

theorem InRam.mapped_byte {m : Banks} {a : Uint32} (hm : byte.InRam m a) : m.Mapped .byte a := hm
theorem InRam.mapped_half {m : Banks} {a : Uint32} (hm : half.InRam m a) :
    m.Mapped .halfword a := hm
theorem InRam.mapped_word {m : Banks} {a : Uint32} (hm : word.InRam m a) : m.Mapped .word a := hm

theorem InRam.double {m : Banks} {a : Uint32} (hm : double.InRam m a) :
    m.Mapped .word a ∧ m.Mapped .word (a + 4) ∧ (a + 4).toNat = a.toNat + 4 := by
  obtain ⟨ha, i, b, hb, hlo, hhi⟩ := hm
  have hlt := a.isLt
  simp only [bytes] at ha hhi
  have h4 : (a + 4).toNat = a.toNat + 4 := by
    rw [BitVec.toNat_add]
    show (a.toNat + 4) % 2 ^ 32 = _
    omega
  refine ⟨⟨?_, i, b, hb, hlo, ?_⟩, ⟨?_, i, b, hb, ?_, ?_⟩, h4⟩ <;>
    simp only [DataType.bytes, h4] <;> omega

/-- The address of `std` is that of its fields, or it is 0 already. -/
def Straight (s : SparcState Banks) (w : Width) (f : Fields) : Prop :=
  w = double → ∀ imm, f.op2 = .simm13 imm → s.address f = 0

theorem execute_store (hl : s.mem.Laid) (hm : w.InRam s.mem (s.address f)) (hr : w.Legal f.rd)
    (hd : Straight s w f) :
    s.execute ramHost (w.store f) = { s with mem := w.written s f }.advance := by
  cases w with
  | byte => exact s.store_of_mapped hl hm.mapped_byte (and_low_eq_zero 0 (by omega) hm.1) _
  | half => exact s.store_of_mapped hl hm.mapped_half (and_low_eq_zero 1 (by omega) hm.1) _
  | word => exact s.store_of_mapped hl hm.mapped_word (and_low_eq_zero 2 (by omega) hm.1) _
  | double =>
    obtain ⟨h1, h2, -⟩ := hm.double
    have ha : s.address f &&& 7 = 0 := and_low_eq_zero 3 (by omega) hm.1
    have hodd : ¬f.rd.val % 2 = 1 := by
      have := hr rfl
      omega
    show s.iStd ramHost f = _
    unfold SparcState.iStd
    rw [if_neg hodd, if_neg (not_not.mpr ha)]
    dsimp only
    split
    · exact s.storeTwice_of_mapped hl h1 h2 _ _
    · rename_i imm ho
      have h0 : 0 = s.address f := (hd rfl imm ho).symm
      exact (congrArg (fun a => s.storeTwice ramHost a _ _) h0).trans
        (s.storeTwice_of_mapped hl h1 h2 _ _)

theorem sameMap_written (s : SparcState Banks) (f : Fields) (w : Width) :
    s.mem.SameMap (w.written s f) := by
  cases w <;> exact ⟨rfl, rfl⟩

theorem byteAt_written (hl : s.mem.Laid) (hm : w.InRam s.mem (s.address f)) {a : Uint32}
    (ha : a.toNat < (s.address f).toNat ∨ (s.address f).toNat + w.bytes ≤ a.toNat) :
    (w.written s f).byteAt a = s.mem.byteAt a := by
  cases w with
  | byte => exact hl.byteAt_memWrite_of_outside hm.mapped_byte ha _
  | half => exact hl.byteAt_memWrite_of_outside hm.mapped_half ha _
  | word => exact hl.byteAt_memWrite_of_outside hm.mapped_word ha _
  | double =>
    obtain ⟨h1, h2, h4⟩ := hm.double
    have hs : s.mem.SameMap (s.mem.memWrite .word (s.address f) (s.reg f.rd &&& 0xffffffff)) :=
      ⟨rfl, rfl⟩
    simp only [bytes] at ha
    rw [written, (hs.laid hl).byteAt_memWrite_of_outside (hs.mapped h2)
      (by simp only [DataType.bytes, h4]; omega),
      hl.byteAt_memWrite_of_outside h1 (by simp only [DataType.bytes]; omega)]

/-! ## The load -/

theorem and_0xffffffff (v : Uint32) : v &&& 0xffffffff &&& laneMask .word = v :=
  (congrArg (· &&& _) BitVec.and_allOnes).trans BitVec.and_allOnes

/-- Either half of what `std` has stored. -/
theorem memRead_written_double (hl : s.mem.Laid) (hm : double.InRam s.mem (s.address f)) :
    ((double.written s f).memRead .word (s.address f)).1 = some (s.reg f.rd) ∧
      ((double.written s f).memRead .word (s.address f + 4)).1 = some (s.reg (f.rd + 1)) := by
  obtain ⟨h1, h2, h4⟩ := hm.double
  have hs : s.mem.SameMap (s.mem.memWrite .word (s.address f) (s.reg f.rd &&& 0xffffffff)) :=
    ⟨rfl, rfl⟩
  constructor
  · rw [written, (hs.laid hl).memRead_memWrite_of_disjoint (hs.mapped h1) (hs.mapped h2)
      (by simp only [DataType.bytes, h4]; omega), hl.memRead_memWrite h1, and_0xffffffff]
  · rw [written, (hs.laid hl).memRead_memWrite (hs.mapped h2), and_0xffffffff]

/-- The code's sign extension of a field of `n` bits. -/
theorem signExtend_eq_or {n : Nat} (hn : 0 < n) (hle : n ≤ 32) (x : BitVec n) :
    x.signExtend 32 =
      if x.setWidth 32 >>> (n - 1) ≠ 0 then x.setWidth 32 ||| BitVec.allOnes 32 <<< n
      else x.setWidth 32 := by
  have hm : x.setWidth 32 >>> (n - 1) ≠ 0 ↔ x.msb = true := by
    rw [BitVec.msb_eq_decide, decide_eq_true_eq, ne_eq, ← BitVec.toNat_inj,
      BitVec.toNat_ushiftRight, Nat.shiftRight_eq_div_pow, BitVec.toNat_setWidth_of_le hle]
    show ¬_ = 0 ↔ _
    rw [Nat.div_eq_zero_iff, not_or, Nat.not_lt]
    exact and_iff_right (by positivity)
  simp only [hm]
  cases hx : x.msb with
  | false => exact BitVec.signExtend_eq_setWidth_of_msb_false hx
  | true =>
    rw [if_pos rfl]
    apply BitVec.eq_of_getLsbD_eq
    intro i hi
    rw [BitVec.getLsbD_signExtend, BitVec.getLsbD_or, BitVec.getLsbD_setWidth,
      BitVec.getLsbD_shiftLeft, BitVec.getLsbD_allOnes, hx]
    by_cases hin : i < n
    · simp [hin, hi]
    · have hlt : i - n < 32 := by omega
      simp [hin, hi, hlt]

theorem reg_load {t : SparcState Banks} {datatype : DataType} {i : Instr} {align v z : Uint32}
    {g : Fields} (extend : Uint32 → Uint32) (ha : t.address g &&& align = 0)
    (hr : (t.mem.memRead datatype (t.address g)).1 = some v) (hz : extend v = z)
    (hi : t.execute ramHost i = t.load ramHost datatype.bits align extend (·.setReg g.rd) g)
    (x : RegNo) :
    (t.iuCycleStep ramHost i).reg x = if x = 0 then 0 else if x = g.rd then z else t.reg x := by
  refine t.reg_cycle_of_reg ramHost i g.rd z (fun k => ?_) x
  rw [hi, t.load_of_some extend ha hr, hz, SparcState.reg_advance, SparcState.reg_setReg,
    SparcState.reg_setReg]
  rfl

theorem and_0xff (v : Uint32) : v &&& 0x000000ff &&& laneMask .byte = (v.setWidth 8).setWidth 32 := by
  rw [BitVec.and_assoc]
  show v &&& 0xff = _
  apply BitVec.eq_of_toNat_eq
  rw [show (0xff : Uint32) = BitVec.ofNat 32 (2 ^ 8 - 1) from rfl, Word.toNat_and_low v 8 (by omega),
    BitVec.toNat_setWidth, BitVec.toNat_setWidth]
  omega

theorem and_0xffff (v : Uint32) :
    v &&& 0x0000ffff &&& laneMask .halfword = (v.setWidth 16).setWidth 32 := by
  rw [BitVec.and_assoc]
  show v &&& 0xffff = _
  apply BitVec.eq_of_toNat_eq
  rw [show (0xffff : Uint32) = BitVec.ofNat 32 (2 ^ 16 - 1) from rfl,
    Word.toNat_and_low v 16 (by omega), BitVec.toNat_setWidth, BitVec.toNat_setWidth]
  omega

theorem setReg_mem (t : SparcState Banks) (x : Nat) (v : Uint32) : (t.setReg x v).mem = t.mem := by
  unfold SparcState.setReg
  split <;> rfl

theorem reg_ldd {t : SparcState Banks} {v v' : Uint32} {g : Fields} (hl : t.mem.Laid)
    (hm : double.InRam t.mem (t.address g)) (hrd : double.Legal g.rd)
    (hr : (t.mem.memRead .word (t.address g)).1 = some v)
    (hr' : (t.mem.memRead .word (t.address g + 4)).1 = some v') (x : RegNo) :
    (t.iuCycleStep ramHost (.ldd g)).reg x =
      if x = 0 then 0 else if x = g.rd then v else if x.val = g.rd.val + 1 then v' else t.reg x := by
  obtain ⟨-, h2, -⟩ := hm.double
  have ha : t.address g &&& 7 = 0 := and_low_eq_zero 3 (by omega) hm.1
  have hodd : ¬g.rd.val % 2 = 1 := by
    have := hrd rfl
    omega
  have h1 : t.busRead ramHost 32 (t.address g) 0 =
      (0, v, { t with mem := (t.mem.memRead .word (t.address g)).2 }) := t.busRead_of_some hr 0
  have hmem : ({ t with mem := (t.mem.memRead .word (t.address g)).2 }.setReg g.rd v).mem =
      (t.mem.memRead .word (t.address g)).2 := setReg_mem _ _ _
  have hr2 : (({ t with mem := (t.mem.memRead .word (t.address g)).2 }.setReg g.rd v).mem.memRead
      .word (t.address g + 4)).1 = some v' := by
    rw [hmem, hl.memRead_memRead h2, hr']
  have hldd : ∀ k, (t.execute ramHost (.ldd g)).reg k =
      ((t.setReg g.rd v).setReg (g.rd + 1) v').reg k := by
    intro k
    show (t.iLdd ramHost g).reg k = _
    unfold SparcState.iLdd SparcState.loadDouble
    dsimp only
    rw [if_neg (not_not.mpr ha), if_neg hodd, h1]
    dsimp only
    have hb := SparcState.busRead_of_some _ hr2 v
    rw [show DataType.word.bits = 32 from rfl] at hb
    rw [hb]
    dsimp only
    rw [if_neg (by omega), SparcState.reg_advance]
    simp only [SparcState.reg_setReg]
    by_cases hk : k = g.rd.val + 1
    · rw [if_pos hk, if_pos hk]
    · rw [if_neg hk, if_neg hk]
      exact (SparcState.reg_congr rfl rfl rfl k).trans (SparcState.reg_setReg _ _ _ _)
  have h0 : (x : Nat) = G0 ↔ x = 0 := by
    rw [Fin.ext_iff]
    rfl
  have hx : (x : Nat) = g.rd ↔ x = g.rd := Fin.ext_iff.symm
  rw [SparcState.iuCycleStep, SparcState.reg_setReg, hldd]
  simp only [SparcState.reg_setReg, h0, hx]
  by_cases hxr : x = g.rd
  · have hne : ¬x.val = g.rd.val + 1 := by
      rw [hxr]
      omega
    rw [if_neg hne, if_pos hxr, if_pos hxr]
  · rw [if_neg hxr, if_neg hxr]

/-! ## Round trips -/

theorem address_congr {t u : SparcState Banks} (hr : ∀ x, t.reg x = u.reg x) (g : Fields) :
    t.address g = u.address g := by
  unfold SparcState.address
  rw [hr]
  cases g.op2 with
  | reg rs2 => rw [SparcState.operand2, SparcState.operand2, hr]
  | simm13 imm => rfl

/-- What is known of a state after a store that left the memory `m'`. -/
theorem stored_cases {m' : Banks}
    (he : s.execute ramHost (w.store f) = { s with mem := m' }.advance)
    (ha : (s.setReg G0 0).address g = s.address f) :
    (w.stored s f).mem = m' ∧ (w.stored s f).address g = s.address f ∧
      ∀ x : RegNo, x ≠ 0 → (w.stored s f).reg x = s.reg x := by
  have ht : w.stored s f = ({ s with mem := m' }.advance).setReg G0 0 := by
    rw [stored, SparcState.iuCycleStep, he]
  refine ⟨?_, ?_, fun x hx => ?_⟩
  · rw [ht, setReg_mem]
    rfl
  · rw [← ha, ht]
    refine address_congr (fun x => ?_) g
    rw [SparcState.reg_setReg, SparcState.reg_setReg]
    rfl
  · have hne : (x : Nat) ≠ G0 := fun h0 => hx (Fin.ext h0)
    rw [ht, SparcState.reg_setReg_of_ne _ hne]
    rfl

/-- The datum of a single load. -/
def datatype : Width → DataType
  | byte => .byte
  | half => .halfword
  | word | double => .word

/-- What the bus gives for the bits of `v`. -/
def raw (v : Uint32) : Width → Uint32
  | byte => (v.setWidth 8).setWidth 32
  | half => (v.setWidth 16).setWidth 32
  | word | double => v

theorem memRead_written (hl : s.mem.Laid) (hm : w.InRam s.mem (s.address f)) :
    ((w.written s f).memRead w.datatype (s.address f)).1 = some (w.raw (s.reg f.rd)) := by
  cases w with
  | byte => exact (hl.memRead_memWrite hm.mapped_byte _).trans (congrArg some (and_0xff _))
  | half => exact (hl.memRead_memWrite hm.mapped_half _).trans (congrArg some (and_0xffff _))
  | word => exact (hl.memRead_memWrite hm.mapped_word _).trans (congrArg some (and_0xffffffff _))
  | double => exact (memRead_written_double hl hm).1

/-- The registers after a load of one datum that was stored from `v`. -/
theorem reg_load_width {t : SparcState Banks} {v : Uint32} (hw : w ≠ double)
    (ha : (t.address g).toNat % w.bytes = 0)
    (hr : (t.mem.memRead w.datatype (t.address g)).1 = some (w.raw v)) (x : RegNo) :
    (t.iuCycleStep ramHost (w.load signed g)).reg x =
      if x = 0 then 0 else if x = g.rd then w.loaded signed v else t.reg x := by
  cases w with
  | byte =>
    have hal := and_low_eq_zero 0 (by omega) ha
    cases signed with
    | false => exact reg_load id hal hr rfl rfl x
    | true =>
      have hz := (signExtend_eq_or (by omega) (by omega) (v.setWidth 8)).symm
      exact reg_load (fun v => if v >>> 7 ≠ 0 then v ||| 0xffffff00 else v) hal hr hz rfl x
  | half =>
    have hal := and_low_eq_zero 1 (by omega) ha
    cases signed with
    | false => exact reg_load id hal hr rfl rfl x
    | true =>
      have hz := (signExtend_eq_or (by omega) (by omega) (v.setWidth 16)).symm
      exact reg_load (fun v => if v >>> 15 ≠ 0 then v ||| 0xffff0000 else v) hal hr hz rfl x
  | word => exact reg_load id (and_low_eq_zero 2 (by omega) ha) hr rfl rfl x
  | double => exact absurd rfl hw

theorem roundTrip_of_straight (hl : s.mem.Laid) (hm : w.InRam s.mem (s.address f))
    (hf : w.Legal f.rd) (hg : w.Legal g.rd) (ha : (s.setReg G0 0).address g = s.address f)
    (hd : Straight s w f) : RoundTrip s w signed f g := by
  obtain ⟨hmem, haddr, hreg⟩ := stored_cases (execute_store hl hm hf hd) ha
  refine ⟨fun a hout => ?_, fun x => ?_⟩
  · rw [hmem, byteAt_written hl hm hout]
  · unfold reloaded
    by_cases hw : w = double
    · subst hw
      obtain ⟨h1, h2⟩ := memRead_written_double hl hm
      rw [← haddr, ← hmem] at h1 h2
      have hs := sameMap_written s f double
      rw [← hmem] at hs
      have hl' := hs.laid hl
      have hm' : double.InRam (double.stored s f).mem ((double.stored s f).address g) := by
        rw [haddr, InRam, hs.memBanks]
        exact hm
      refine (reg_ldd hl' hm' hg h1 h2 x).trans ?_
      by_cases hx0 : x = 0
      · rw [if_pos hx0, if_pos hx0]
      · rw [if_neg hx0, if_neg hx0, hreg x hx0]
        simp only [true_and]
        rfl
    · have hr := memRead_written hl hm
      rw [← haddr, ← hmem] at hr
      rw [reg_load_width hw (haddr ▸ hm.1) hr x, if_neg (fun hc : w = double ∧ _ => hw hc.1)]
      by_cases hx0 : x = 0
      · rw [if_pos hx0, if_pos hx0]
      · rw [if_neg hx0, if_neg hx0, hreg x hx0]

/-! ## `std` to the wrong address -/

/-- A word written by the bus changes nothing outside it, whether it is mapped or not. -/
theorem byteAt_busWrite_word (hl : s.mem.Laid) (a v : Uint32) :
    s.mem.SameMap (s.busWrite ramHost 32 a v).2.mem ∧
      ∀ a' : Uint32, a'.toNat / 4 ≠ a.toNat / 4 →
        (s.busWrite ramHost 32 a v).2.mem.byteAt a' = s.mem.byteAt a' := by
  unfold SparcState.busWrite
  cases hp : s.mem.bankPtr a with
  | none =>
    have hb : ramHost.bankWrite s.mem 32 a v = none := by simp [ramHost, busType, hp]
    rw [hb]
    exact ⟨⟨rfl, rfl⟩, fun _ _ => rfl⟩
  | some i =>
    have hb : ramHost.bankWrite s.mem 32 a v = some (s.mem.memWrite .word a v) := by
      simp [ramHost, busType, hp]
    rw [hb]
    exact ⟨⟨rfl, rfl⟩, fun a' hne => hl.byteAt_memWrite_of_ne .word a v hne⟩

/-- The immediate form of `std` writes to 0 and 4. -/
theorem execute_std_simm13 (hl : s.mem.Laid) (hm : double.InRam s.mem (s.address f))
    (hr : double.Legal f.rd) {imm : BitVec 13} (ho : f.op2 = .simm13 imm) :
    ∃ m', s.execute ramHost (.std f) = { s with mem := m' }.advance ∧ s.mem.SameMap m' ∧
      ∀ a : Uint32, 8 ≤ a.toNat → m'.byteAt a = s.mem.byteAt a := by
  have ha : s.address f &&& 7 = 0 := and_low_eq_zero 3 (by omega) hm.1
  have hodd : ¬f.rd.val % 2 = 1 := by
    have := hr rfl
    omega
  obtain ⟨hs1, hb1⟩ := byteAt_busWrite_word (s := s) hl 0 (s.reg f.rd &&& 0xffffffff)
  obtain ⟨m1, h1⟩ := s.busWrite_eq ramHost 32 0 (s.reg f.rd &&& 0xffffffff)
  rw [h1] at hs1 hb1
  obtain ⟨hs2, hb2⟩ := byteAt_busWrite_word (s := { s with mem := m1 }) (hs1.laid hl) (0 + 4)
    (s.reg (f.rd + 1) &&& 0xffffffff)
  obtain ⟨m2, h2⟩ := SparcState.busWrite_eq ramHost { s with mem := m1 } 32 (0 + 4)
    (s.reg (f.rd + 1) &&& 0xffffffff)
  rw [h2] at hs2 hb2
  refine ⟨m2, ?_, ⟨hs2.memBanks.trans hs1.memBanks, hs2.bigEndian.trans hs1.bigEndian⟩,
    fun a h8 => ?_⟩
  · show s.iStd ramHost f = _
    unfold SparcState.iStd
    rw [if_neg hodd, if_neg (not_not.mpr ha), ho]
    dsimp only
    unfold SparcState.storeTwice
    rw [h1]
    dsimp only
    rw [h2]
    rfl
  · have h0 : (0 : Uint32).toNat = 0 := rfl
    have h4 : (0 + 4 : Uint32).toNat = 4 := rfl
    rw [hb2 a (by rw [h4]; omega), hb1 a (by rw [h0]; omega)]

/-- In a memory of one word, the bank of an address reads as that word. -/
theorem memRead_withRom {word : ARMword} {a : Uint32} (hl : s.mem.Laid)
    (hm : s.mem.Mapped .word a) :
    ((withRom s fun _ _ => word).mem.memRead .word a).1 = some word := by
  obtain ⟨i, b, hb, hc, -⟩ := hm.bank
  have hl' : (withRom s fun _ _ => word).mem.Laid := ⟨hl.aligned, hl.disjoint⟩
  rw [hl'.disjoint.memRead (show (withRom s fun _ _ => word).mem.memBanks[i]? = some b from hb) hc,
    readLane_word]
  rfl

theorem not_roundTrip_of_astray (hl : s.mem.Laid) (hm : double.InRam s.mem (s.address f))
    (hf : double.Legal f.rd) (hg : double.Legal g.rd)
    (ha : (s.setReg G0 0).address g = s.address f) {imm : BitVec 13} (ho : f.op2 = .simm13 imm)
    (h0 : s.address f ≠ 0) :
    ¬RoundTrip (withRom s fun _ _ => ~~~s.reg (f.rd.val + 1)) double signed f g := by
  generalize hs' : withRom s (fun _ _ => ~~~s.reg (f.rd.val + 1)) = s'
  intro hrt
  have hl' : s'.mem.Laid := hs' ▸ ⟨hl.aligned, hl.disjoint⟩
  have haddr : s'.address f = s.address f := hs' ▸ rfl
  have hm' : double.InRam s'.mem (s'.address f) := hs' ▸ hm
  have hword : ∀ a, s.mem.Mapped .word a →
      (s'.mem.memRead .word a).1 = some (~~~s.reg (f.rd.val + 1)) := by
    intro a hma
    rw [← hs']
    exact memRead_withRom hl hma
  obtain ⟨m', he, hsame, hbytes⟩ := execute_std_simm13 hl' hm' hf ho
  obtain ⟨hmem, haddr', -⟩ := stored_cases (w := double) (g := g) he (hs' ▸ ha)
  obtain ⟨h1, h2, h4⟩ := hm.double
  -- the address is 8 or more, so the words there are what they were
  have h8 : 8 ≤ (s.address f).toNat := by
    have h0' : (s.address f).toNat ≠ 0 := fun h => h0 (BitVec.eq_of_toNat_eq h)
    have := hm.1
    simp only [bytes] at this
    omega
  have hread : ∀ a, s.mem.Mapped .word a → 8 ≤ a.toNat →
      (m'.memRead .word a).1 = some (~~~s.reg (f.rd.val + 1)) := by
    intro a hma ha8
    have hma' : s'.mem.Mapped .word a := hs' ▸ hma
    rw [← hword a hma]
    refine hl'.memRead_congr hsame hma' fun k hk => hbytes _ ?_
    rw [toNat_add_byte hma.1 hk]
    omega
  have hu := reg_ldd (g := g) (t := double.stored s' f)
    (by rw [hmem]; exact hsame.laid hl')
    (by rw [hmem, haddr', InRam, hsame.memBanks]; exact hm')
    hg (by rw [hmem, haddr', haddr]; exact hread _ h1 h8)
    (by rw [hmem, haddr', haddr]; exact hread _ h2 (by omega))
  have hodd := hg rfl
  have hlt := g.rd.isLt
  let x : RegNo := ⟨g.rd.val + 1, by omega⟩
  have hx0 : x ≠ 0 := fun h => by
    have := congrArg Fin.val h
    simp [x] at this
  have hxr : x ≠ g.rd := fun h => by
    have := congrArg Fin.val h
    simp [x] at this
  have hgot := (hu x).symm.trans (hrt.reg x)
  rw [if_neg hx0, if_neg hx0, if_neg hxr, if_neg hxr, if_pos rfl, if_pos ⟨rfl, rfl⟩, ← hs'] at hgot
  have hbit := congrArg (·.getLsbD 0) hgot
  simp [withRom, SparcState.reg] at hbit

/-- Stores and loads round-trip in every memory exactly if the store is not a `std` with an
immediate and an address other than 0. -/
theorem ram_roundTrip_iff (hl : s.mem.Laid) (hm : w.InRam s.mem (s.address f)) (hf : w.Legal f.rd)
    (hg : w.Legal g.rd) (ha : (s.setReg G0 0).address g = s.address f) :
    (∀ rom, RoundTrip (withRom s rom) w signed f g) ↔ Straight s w f := by
  constructor
  · intro hall hw imm ho
    subst hw
    by_contra h0
    exact not_roundTrip_of_astray hl hm hf hg ha ho h0 (hall _)
  · intro hd rom
    exact roundTrip_of_straight ⟨hl.aligned, hl.disjoint⟩ hm hf hg ha hd

/-- `%o0` is the base of 16 bytes of RAM at 16, `std %o2, [%o0 + 0]` is followed by
`ldd [%o0 + %g0], %o4`. -/
def stdState : SparcState Banks :=
  { ((staticState (Banks.oneBank 16)).iuInitState.setReg 8 16).setReg 10 1 with
    mem := Banks.oneBank 16 }

theorem stdState_laid : stdState.mem.Laid := Banks.oneBank_laid 16 rfl

theorem stdState_inRam : double.InRam stdState.mem (stdState.address ⟨10, 8, .simm13 0⟩) :=
  ⟨by decide, 0, ⟨16, 16, .noName, .ram⟩, rfl, by decide, by decide⟩

theorem ram_roundTrip_iff_std :
    (∀ rom, RoundTrip (withRom stdState rom) double false ⟨10, 8, .simm13 0⟩ ⟨12, 8, .reg 0⟩) ↔
      Straight stdState double ⟨10, 8, .simm13 0⟩ :=
  ram_roundTrip_iff stdState_laid stdState_inRam (fun _ => by decide) (fun _ => by decide) (by decide)

/-- `std` stores nothing at its address. -/
theorem std_not_roundTrip :
    ¬∀ (s : SparcState Banks) (w : Width) (signed : Bool) (f g : Fields), s.mem.Laid →
      w.InRam s.mem (s.address f) → w.Legal f.rd → w.Legal g.rd →
      (s.setReg G0 0).address g = s.address f → RoundTrip s w signed f g := by
  intro hall
  have hno := @not_roundTrip_of_astray stdState false ⟨10, 8, .simm13 0⟩ ⟨12, 8, .reg 0⟩
    stdState_laid stdState_inRam (fun _ => by decide) (fun _ => by decide) (by decide) _ rfl
    (by decide)
  refine hno (hall _ double false _ _ ⟨stdState_laid.aligned, stdState_laid.disjoint⟩
    stdState_inRam (fun _ => by decide) (fun _ => by decide) ?_)
  show (stdState.setReg G0 0).address _ = stdState.address _
  decide

end Width

end SkyEye.Sparc
