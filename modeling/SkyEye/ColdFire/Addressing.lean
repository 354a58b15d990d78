import SkyEye.ColdFire.Nesting
import Mathlib.Tactic.IntervalCases

/-!
# Operands

`Memory_RetrFromPC` and the `EA_` functions of `addressing.c`: an operand is fetched once,
with its extension words and the change of its address register, and is then read and written
any number of times. A function returns false where a window refuses the access.
-/

namespace SkyEye.ColdFire

open Sparc (Uint32)

structure Address where
  size : Nat
  mode : Fin 8
  register : Fin 8
  address : Uint32
  data : Uint32
  deriving DecidableEq

/-- The casts to `short` and to `char` and back. -/
def toShort (v : Uint32) : Uint32 := (v.setWidth 16).signExtend 32
def toChar (v : Uint32) : Uint32 := (v.setWidth 8).signExtend 32

/-- Three bits of an instruction word. -/
def bits3 (code : Uint32) (n : Nat) : Fin 8 := Fin.ofNat 8 (code >>> n).toNat

/-- `struct _InstructionExtensionWord` -/
def ewDisplacement (w : Uint32) : Uint32 := toChar w
def ewScale (w : Uint32) : Uint32 := w >>> 9 &&& 3
def ewRegister (w : Uint32) : Fin 8 := bits3 w 12
def ewAd (w : Uint32) : Bool := w.getLsbD 15

def scale (w : Uint32) : Uint32 :=
  if ewScale w = 0 then 1 else if ewScale w = 1 then 2 else if ewScale w = 2 then 4 else 1

/-- The index register times the scale. -/
def MemoryCore.scaledIndex (c : MemoryCore) (w : Uint32) : Uint32 :=
  (if ewAd w then c.a (ewRegister w) else c.d (ewRegister w)) * scale w

namespace State

variable {δ : Type} (b : Board δ) (s : State δ)

/-- `memory_core.a[n] = v` and `memory_core.d[n] = v` -/
def setA (n : Fin 8) (v : Uint32) : State δ :=
  { s with core := { s.core with a := Function.update s.core.a n v } }

def setD (n : Fin 8) (v : Uint32) : State δ :=
  { s with core := { s.core with d := Function.update s.core.d n v } }

/-- `Memory_RetrFromPC`. A byte is the second one of a word. -/
def memoryRetrFromPc (result : Uint32) (size : Nat) : Option (Bool × Uint32 × State δ) :=
  if size = 32 then do
    let (ok, v, s) ← s.memoryRetr b result 32 s.core.pc
    some (ok, v, s.setPc (s.core.pc + 4))
  else if size = 16 then do
    let (ok, v, s) ← s.memoryRetr b result 16 s.core.pc
    some (ok, v, s.setPc (s.core.pc + 2))
  else if size = 8 then do
    let s := s.setPc (s.core.pc + 1)
    let (ok, v, s) ← s.memoryRetr b result 8 s.core.pc
    some (ok, v, s.setPc (s.core.pc + 1))
  else some (false, result, s)

/-- An operand with an extension word or long word, which is read into `Data`. -/
def eaWithData (addr : Address) (size : Nat) (address : Uint32 → MemoryCore → Uint32) :
    Option (Bool × Address × State δ) := do
  let (ok, data, s) ← s.memoryRetrFromPc b addr.data size
  if !ok then some (false, { addr with data := data }, s)
  else some (true, { addr with data := data, address := address data s.core }, s)

def eaGetFromPc (size : Nat) (mode register : Fin 8) : Option (Bool × Address × State δ) :=
  let addr : Address := ⟨size, mode, register, 0xdeadbeef, 0⟩
  match mode with
  | 0 => some (true, addr, s)
  | 1 => some (true, addr, s)
  | 2 => some (true, { addr with address := s.core.a register }, s)
  | 3 =>
    let address := s.core.a register
    some (true, { addr with address := address },
      s.setA register (address + BitVec.ofNat 32 (size >>> 3)))
  | 4 =>
    let address := s.core.a register - BitVec.ofNat 32 (size >>> 3)
    some (true, { addr with address := address }, s.setA register address)
  | 5 => s.eaWithData b addr 16 fun data c => c.a register + toShort data
  | 6 => s.eaWithData b addr 16 fun data c =>
      c.a register + ewDisplacement data + c.scaledIndex data
  | 7 =>
    let pc := s.core.pc
    match register with
    | 0 => s.eaWithData b addr 16 fun data _ => data
    | 1 => s.eaWithData b addr 32 fun data _ => data
    | 2 => s.eaWithData b { addr with address := pc } 16 fun data _ => pc + toShort data
    | 3 => s.eaWithData b { addr with address := pc } 16 fun data c =>
        pc + ewDisplacement data + c.scaledIndex data
    | 4 => s.eaWithData b addr size fun _ _ => 0xdeadbeef
    | _ => some (false, addr, s)

/-- What `EA_GetValue` reads, before it is cut to the size. -/
def eaRead (result : Uint32) (addr : Address) : Option (Bool × Uint32 × State δ) :=
  match addr.mode with
  | 0 => some (true, s.core.d addr.register, s)
  | 1 => some (true, s.core.a addr.register, s)
  | 7 =>
    match addr.register with
    | 4 => some (true, addr.data, s)
    | 5 => some (true, result, s)
    | 6 => some (true, result, s)
    | 7 => some (true, result, s)
    | _ => s.memoryRetr b result addr.size addr.address
  | _ => s.memoryRetr b result addr.size addr.address

/-- `EA_GetValue`. A long word counts as read. -/
def eaGetValue (result : Uint32) (addr : Address) : Option (Bool × Uint32 × State δ) := do
  let (ok, v, s) ← s.eaRead b result addr
  if addr.size &&& 0x20 ≠ 0 then some (true, v, s)
  else if addr.size &&& 0x10 ≠ 0 then some (ok, toShort v, s)
  else some (ok, toChar v, s)

/-- The store of `EA_PutValue`. -/
def eaStor (addr : Address) (value : Uint32) : Option (State δ) := do
  let value :=
    if addr.size &&& 0x20 ≠ 0 then value
    else if addr.size &&& 0x10 ≠ 0 then value &&& 0xFFFF
    else value &&& 0xFF
  let (_, s) ← s.memoryStor b addr.size addr.address value
  some s

/-- `EA_PutValue`. A word for an address register is taken for sign-extended. -/
def eaPutValue (addr : Address) (value : Uint32) : Option (State δ) :=
  match addr.mode with
  | 0 =>
    let d := s.core.d addr.register
    if addr.size &&& 0x20 ≠ 0 then some (s.setD addr.register value)
    else if addr.size &&& 0x10 ≠ 0 then
      some (s.setD addr.register (d &&& 0xFFFF0000 ||| value &&& 0xFFFF))
    else some (s.setD addr.register (d &&& 0xFFFFFF00 ||| value &&& 0xFF))
  | 1 =>
    let a := s.core.a addr.register
    if addr.size &&& 0x30 ≠ 0 then some (s.setA addr.register value)
    else some (s.setA addr.register (a &&& 0xFFFFFF00 ||| value &&& 0xFF))
  | 7 =>
    match addr.register with
    | 0 => s.eaStor b addr value
    | 1 => s.eaStor b addr value
    | _ => some s
  | _ => s.eaStor b addr value

end State

/-! ## Parts of words -/

theorem setWidth_short (v : Uint32) : (v &&& 0xFFFF).setWidth 16 = v.setWidth 16 := by
  rw [BitVec.setWidth_and]
  exact BitVec.and_allOnes

theorem setWidth_char (v : Uint32) : (v &&& 0xFF).setWidth 8 = v.setWidth 8 := by
  rw [BitVec.setWidth_and]
  exact BitVec.and_allOnes

theorem setWidth_bytes (v : Uint32) :
    (((v >>> 8).setWidth 8).setWidth 32 <<< 8 ||| ((v >>> 0).setWidth 8).setWidth 32).setWidth 16 =
      v.setWidth 16 := by
  have h0 : ((v >>> 0).setWidth 8).setWidth 32 = ((v >>> 0).setWidth 8).setWidth 32 <<< 0 := by
    rw [BitVec.shiftLeft_zero]
  rw [h0]
  apply BitVec.eq_of_getLsbD_eq
  intro i hi
  simp only [BitVec.getLsbD_setWidth, BitVec.getLsbD_or, getLsbD_byte v (show i < 32 by omega)]
  have h : 8 ≤ i ∧ i < 8 + 8 ∨ 0 ≤ i ∧ i < 0 + 8 := by
    omega
  cases v.getLsbD i with
  | false => simp
  | true => simpa [hi] using h

theorem setWidth_insert_short (d v : Uint32) :
    (d &&& 0xFFFF0000 ||| v &&& 0xFFFF).setWidth 16 = v.setWidth 16 := by
  rw [BitVec.setWidth_or, setWidth_short, BitVec.setWidth_and]
  exact (congrArg (· ||| v.setWidth 16) (BitVec.and_zero)).trans BitVec.zero_or

theorem setWidth_insert_char (d v : Uint32) :
    (d &&& 0xFFFFFF00 ||| v &&& 0xFF).setWidth 8 = v.setWidth 8 := by
  rw [BitVec.setWidth_or, setWidth_char, BitVec.setWidth_and]
  exact (congrArg (· ||| v.setWidth 8) (BitVec.and_zero)).trans BitVec.zero_or

theorem getLsbD_insert_short (d v : Uint32) {i : Nat} (hi : 16 ≤ i) :
    (d &&& 0xFFFF0000 ||| v &&& 0xFFFF).getLsbD i = d.getLsbD i := by
  by_cases h : i < 32
  · have hm : (0xFFFF0000 : Uint32) = ~~~(BitVec.setWidth 32 (BitVec.allOnes 16)) := by decide
    have hl : (0xFFFF : Uint32) = BitVec.setWidth 32 (BitVec.allOnes 16) := by decide
    have h16 : ¬ i < 16 := by omega
    rw [hm, hl]
    simp only [BitVec.getLsbD_or, BitVec.getLsbD_and, BitVec.getLsbD_not, BitVec.getLsbD_setWidth,
      BitVec.getLsbD_allOnes, h, h16, decide_true, decide_false, Bool.and_false, Bool.not_false,
      Bool.and_true, Bool.or_false]
  · rw [BitVec.getLsbD_of_ge _ _ (by omega), BitVec.getLsbD_of_ge _ _ (by omega)]

theorem getLsbD_insert_char (d v : Uint32) {i : Nat} (hi : 8 ≤ i) :
    (d &&& 0xFFFFFF00 ||| v &&& 0xFF).getLsbD i = d.getLsbD i := by
  by_cases h : i < 32
  · have hm : (0xFFFFFF00 : Uint32) = ~~~(BitVec.setWidth 32 (BitVec.allOnes 8)) := by decide
    have hl : (0xFF : Uint32) = BitVec.setWidth 32 (BitVec.allOnes 8) := by decide
    have h8 : ¬ i < 8 := by omega
    rw [hm, hl]
    simp only [BitVec.getLsbD_or, BitVec.getLsbD_and, BitVec.getLsbD_not, BitVec.getLsbD_setWidth,
      BitVec.getLsbD_allOnes, h, h8, decide_true, decide_false, Bool.and_false, Bool.not_false,
      Bool.and_true, Bool.or_false]
  · rw [BitVec.getLsbD_of_ge _ _ (by omega), BitVec.getLsbD_of_ge _ _ (by omega)]

/-- A value cut to `size` bits and extended by its sign. -/
def signed (size : Nat) (v : Uint32) : Uint32 := (v.setWidth size).signExtend 32

theorem signed_long (v : Uint32) : signed 32 v = v := by
  rw [signed, BitVec.setWidth_eq, BitVec.signExtend_eq]

theorem signed_congr {size : Nat} {v v' : Uint32} (h : v.setWidth size = v'.setWidth size) :
    signed size v = signed size v' := by
  rw [signed, signed, h]

/-- The sizes of operands, in bits. -/
def IsSize (size : Nat) : Prop := size = 8 ∨ size = 16 ∨ size = 32

/-- What `EA_PutValue` stores is read back. -/
theorem signed_ramRead_ramWrite (bytes : Nat → BitVec 8) {size : Nat} (hsize : IsSize size)
    (offset : Nat) (v : Uint32) :
    signed size (ramRead (ramWrite bytes size offset v) size offset) = signed size v := by
  rcases hsize with rfl | rfl | rfl
  · have h0 : ramWrite bytes 8 offset v (offset + 0) = (v >>> 0).setWidth 8 := by
      simp [ramWrite]
    refine signed_congr ?_
    simp only [ramRead, Nat.reduceEqDiff, if_false, h0]
    simp
  · have h0 : ramWrite bytes 16 offset v (offset + 0) = (v >>> 8).setWidth 8 := by
      simp [ramWrite]
    have h1 : ramWrite bytes 16 offset v (offset + 1) = (v >>> 0).setWidth 8 := by
      simp [ramWrite]
    refine signed_congr ?_
    simp only [ramRead, Nat.reduceEqDiff, if_false, if_true, h0, h1]
    exact setWidth_bytes v
  · rw [ramRead_ramWrite]

theorem ramWrite_of_outside (bytes : Nat → BitVec 8) {size : Nat} (hsize : IsSize size)
    {offset k : Nat} (hk : k < offset ∨ offset + size / 8 ≤ k) (v : Uint32) :
    ramWrite bytes size offset v k = bytes k := by
  have h0 : k ≠ offset := by rcases hsize with rfl | rfl | rfl <;> omega
  rcases hsize with rfl | rfl | rfl
  · simp [ramWrite, h0]
  · have h1 : k ≠ offset + 1 := by omega
    simp [ramWrite, h0, h1]
  · have h1 : k ≠ offset + 1 := by omega
    have h2 : k ≠ offset + 2 := by omega
    have h3 : k ≠ offset + 3 := by omega
    simp [ramWrite, h0, h1, h2, h3]

variable {δ : Type} {b : Board δ} {s t : State δ}

namespace State

/-- `t` differs from `s` in the program counter, the devices and what they have posted. -/
structure OnlyPc (s t : State δ) (pc : Uint32) : Prop where
  core : t.core = { s.core with pc := pc }
  ram : t.ram = s.ram

theorem OnlyPc.of_retr {r : Uint32} {size : Nat} {A : Uint32} {ok : Bool} {v : Uint32}
    (h : s.memoryRetr b r size A = some (ok, v, t)) (pc : Uint32) : s.OnlyPc (t.setPc pc) pc := by
  obtain ⟨hc, hr⟩ := memoryRetr_keeps h
  exact ⟨by rw [setPc, hc], hr⟩

/-- How many bytes of the instruction a datum of `size` bits takes. -/
def bytesFromPc (size : Nat) : Uint32 := if size = 32 then 4 else 2

theorem memoryRetrFromPc_keeps {r : Uint32} {size : Nat} (hsize : size = 8 ∨ size = 16 ∨ size = 32)
    {ok : Bool} {v : Uint32} (h : s.memoryRetrFromPc b r size = some (ok, v, t)) :
    s.OnlyPc t (s.core.pc + bytesFromPc size) := by
  rcases hsize with rfl | rfl | rfl
  · simp only [memoryRetrFromPc, Nat.reduceEqDiff, if_false, if_true, Option.bind_eq_bind,
      Option.bind_eq_some_iff] at h
    obtain ⟨⟨ok, v, u⟩, hu, h⟩ := h
    cases h
    obtain ⟨hc, hr⟩ := memoryRetr_keeps hu
    refine ⟨?_, hr⟩
    simp only [setPc, hc, bytesFromPc]
    congr 1
    simp [BitVec.add_assoc]
  · simp only [memoryRetrFromPc, Nat.reduceEqDiff, if_false, if_true, Option.bind_eq_bind,
      Option.bind_eq_some_iff] at h
    obtain ⟨⟨ok, v, u⟩, hu, h⟩ := h
    cases h
    rw [(memoryRetr_keeps hu).1]
    exact .of_retr hu _
  · simp only [memoryRetrFromPc, if_true, Option.bind_eq_bind, Option.bind_eq_some_iff] at h
    obtain ⟨⟨ok, v, u⟩, hu, h⟩ := h
    cases h
    rw [(memoryRetr_keeps hu).1]
    exact .of_retr hu _

end State

/-! ## An operand written and read -/

namespace Address

/-- The operand is in memory that instructions may write: (An), (An)+, -(An), (d16,An),
(d8,An,Xi), (xxx).W or (xxx).L. -/
def InMemory (a : Address) : Prop :=
  a.mode = 2 ∨ a.mode = 3 ∨ a.mode = 4 ∨ a.mode = 5 ∨ a.mode = 6 ∨
    a.mode = 7 ∧ (a.register = 0 ∨ a.register = 1)

/-- An operand that instructions may write; in memory, it is in RAM. -/
def Alterable (b : Board δ) (s : State δ) (a : Address) : Prop :=
  a.mode = 0 ∨ a.mode = 1 ∨ a.InMemory ∧ s.RamAt b a.address

/-- `t` is `s` but for the low bits of the register or the bytes of the operand. -/
def OnlyOperand (b : Board δ) (a : Address) (s t : State δ) : Prop :=
  if a.mode = 0 then
    t = s.setD a.register (t.core.d a.register) ∧
      ∀ i, a.size ≤ i → (t.core.d a.register).getLsbD i = (s.core.d a.register).getLsbD i
  else if a.mode = 1 then
    t = s.setA a.register (t.core.a a.register) ∧
      ∀ i, a.size ≤ i → (t.core.a a.register).getLsbD i = (s.core.a a.register).getLsbD i
  else
    ∃ g j bytes, s.memoryFindSegmentFor b a.address = some (g, j) ∧
      t = { s with ram := Function.update s.ram j bytes } ∧
      ∀ k, k < (a.address - g.start s.core).toNat ∨
        (a.address - g.start s.core).toNat + a.size / 8 ≤ k → bytes k = s.ram j k

end Address

namespace State

/-- `s` with a datum stored in the segment of number `j`. -/
def stored (s : State δ) (j size offset : Nat) (w : Uint32) : State δ :=
  let bytes := ramWrite (s.ram j) size offset w
  { s with ram := Function.update s.ram j bytes }

theorem eaRead_of_inMemory {a : Address} (ha : a.InMemory) (r : Uint32) :
    s.eaRead b r a = s.memoryRetr b r a.size a.address := by
  obtain ⟨size, mode, register, address, data⟩ := a
  rcases ha with h | h | h | h | h | ⟨h, hr | hr⟩
  all_goals cases h
  all_goals first | rfl | (cases hr; rfl)

theorem eaPutValue_of_inMemory {a : Address} (ha : a.InMemory) (v : Uint32) :
    s.eaPutValue b a v = s.eaStor b a v := by
  obtain ⟨size, mode, register, address, data⟩ := a
  rcases ha with h | h | h | h | h | ⟨h, hr | hr⟩
  all_goals cases h
  all_goals first | rfl | (cases hr; rfl)

theorem ne_of_inMemory {a : Address} (ha : a.InMemory) : a.mode ≠ 0 ∧ a.mode ≠ 1 := by
  rcases ha with h | h | h | h | h | ⟨h, -⟩
  all_goals exact ⟨by rw [h]; decide, by rw [h]; decide⟩

/-- `EA_GetValue` is the read, cut to the size. -/
theorem eaGetValue_of_eaRead {r : Uint32} {a : Address} {v : Uint32} (hsize : IsSize a.size)
    (h : s.eaRead b r a = some (true, v, t)) :
    s.eaGetValue b r a = some (true, signed a.size v, t) := by
  rw [eaGetValue, h]
  rcases hsize with hz | hz | hz
  · simp [hz]
    rfl
  · simp [hz]
    rfl
  · simp [hz, signed_long]

/-- A long word of a data register. -/
theorem eaGetValue_register {r : Uint32} {a : Address} (hm : a.mode = 0) (hsize : a.size = 32) :
    s.eaGetValue b r a = some (true, s.core.d a.register, s) := by
  have hread : s.eaRead b r a = some (true, s.core.d a.register, s) := by
    simp only [eaRead, hm]
  rw [eaGetValue_of_eaRead (.inr (.inr hsize)) hread, hsize, signed_long]

/-- A store of an operand in RAM. -/
theorem eaStor_of_ramAt {a : Address} (hsize : IsSize a.size) (hram : s.RamAt b a.address)
    (v : Uint32) :
    ∃ g j w, s.memoryFindSegmentFor b a.address = some (g, j) ∧
      signed a.size w = signed a.size v ∧
      s.eaStor b a v = some (s.stored j a.size (a.address - g.start s.core).toNat w) := by
  obtain ⟨g, j, hf, hm⟩ := hram
  refine ⟨g, j, if a.size &&& 0x20 ≠ 0 then v else if a.size &&& 0x10 ≠ 0 then v &&& 0xFFFF
    else v &&& 0xFF, hf, ?_, ?_⟩
  · rcases hsize with hz | hz | hz
    · rw [hz]
      exact signed_congr (setWidth_char v)
    · rw [hz]
      exact signed_congr (setWidth_short v)
    · rw [hz]
      rfl
  · simp only [eaStor, memoryStor, hf, hm]
    rfl

/-- What is put into an operand is got from it, cut to the size and extended by its sign. -/
structure PutGet (b : Board δ) (s : State δ) (a : Address) (v : Uint32) (t : State δ) : Prop where
  put : s.eaPutValue b a v = some t
  get : ∀ r, t.eaGetValue b r a = some (true, signed a.size v, t)

theorem putGet_of_ramAt {a : Address} (hsize : IsSize a.size) (hmem : a.InMemory)
    (hram : s.RamAt b a.address) (v : Uint32) : ∃ t, s.PutGet b a v t ∧ a.OnlyOperand b s t := by
  obtain ⟨g, j, w, hf, hw, hs⟩ := eaStor_of_ramAt hsize hram v
  refine ⟨_, ⟨(eaPutValue_of_inMemory hmem v).trans hs, fun r => ?_⟩, ?_⟩
  · have hread := eaRead_of_inMemory (b := b)
      (s := s.stored j a.size (a.address - g.start s.core).toNat w) hmem r
    have hf' : (s.stored j a.size (a.address - g.start s.core).toNat w).memoryFindSegmentFor b
        a.address = some (g, j) := hf
    simp only [memoryRetr, hf'] at hread
    rw [eaGetValue_of_eaRead hsize hread, ← hw]
    congr 3
    simp only [stored, Function.update_self]
    exact signed_ramRead_ramWrite _ hsize _ w
  · rw [Address.OnlyOperand, if_neg (ne_of_inMemory hmem).1, if_neg (ne_of_inMemory hmem).2]
    exact ⟨g, j, _, hf, rfl, fun k hk => ramWrite_of_outside _ hsize hk w⟩

/-- The new value of a register, of which the low bits are written. -/
def inserted (size : Nat) (x v : Uint32) : Uint32 :=
  if size &&& 0x20 ≠ 0 then v
  else if size &&& 0x10 ≠ 0 then x &&& 0xFFFF0000 ||| v &&& 0xFFFF
  else x &&& 0xFFFFFF00 ||| v &&& 0xFF

theorem signed_inserted {size : Nat} (hsize : IsSize size) (x v : Uint32) :
    signed size (inserted size x v) = signed size v := by
  rcases hsize with rfl | rfl | rfl
  · exact signed_congr (setWidth_insert_char x v)
  · exact signed_congr (setWidth_insert_short x v)
  · rfl

theorem getLsbD_inserted {size i : Nat} (hsize : IsSize size) (x v : Uint32) (hi : size ≤ i) :
    (inserted size x v).getLsbD i = x.getLsbD i := by
  rcases hsize with rfl | rfl | rfl
  · exact getLsbD_insert_char x v hi
  · exact getLsbD_insert_short x v hi
  · rw [BitVec.getLsbD_of_ge _ _ hi, BitVec.getLsbD_of_ge _ _ hi]

theorem eaPutValue_of_d {a : Address} (hmode : a.mode = 0) (v : Uint32) :
    s.eaPutValue b a v = some (s.setD a.register (inserted a.size (s.core.d a.register) v)) := by
  simp only [eaPutValue, hmode, inserted]
  split
  · rfl
  · split <;> rfl

/-- A long word in a data register. -/
theorem eaPutValue_long (n : Fin 8) (A d v : Uint32) :
    s.eaPutValue b ⟨32, 0, n, A, d⟩ v = some (s.setD n v) := by
  rw [eaPutValue_of_d rfl, show inserted (Address.size ⟨32, 0, n, A, d⟩) (s.core.d n) v = v from
    if_pos (by decide : 32 &&& 0x20 ≠ 0)]

/-- A data register. -/
theorem putGet_of_d {a : Address} (hsize : IsSize a.size) (hmode : a.mode = 0) (v : Uint32) :
    ∃ t, s.PutGet b a v t ∧ a.OnlyOperand b s t := by
  refine ⟨_, ⟨eaPutValue_of_d hmode v, fun r => ?_⟩, ?_⟩
  · have hread : (s.setD a.register (inserted a.size (s.core.d a.register) v)).eaRead b r a =
        some (true, inserted a.size (s.core.d a.register) v,
          s.setD a.register (inserted a.size (s.core.d a.register) v)) := by
      simp only [eaRead, hmode, setD, Function.update_self]
    rw [eaGetValue_of_eaRead hsize hread, signed_inserted hsize]
  · rw [Address.OnlyOperand, if_pos hmode]
    simp only [setD, Function.update_self]
    exact ⟨trivial, fun i hi => getLsbD_inserted hsize _ v hi⟩

/-- An address register. -/
theorem putGet_of_a {a : Address} (hsize : IsSize a.size) (hmode : a.mode = 1) (v : Uint32) :
    ∃ t, s.PutGet b a v t ∧
      if a.size = 16 then t = s.setA a.register v else a.OnlyOperand b s t := by
  have hread : ∀ w r, (s.setA a.register w).eaRead b r a = some (true, w, s.setA a.register w) := by
    intro w r
    simp only [eaRead, hmode, setA, Function.update_self]
  by_cases h16 : a.size = 16
  · have hput : s.eaPutValue b a v = some (s.setA a.register v) := by
      simp only [eaPutValue, hmode, h16]
      rfl
    refine ⟨_, ⟨hput, fun r => eaGetValue_of_eaRead hsize (hread v r)⟩, ?_⟩
    rw [if_pos h16]
  · have hput : s.eaPutValue b a v =
        some (s.setA a.register (inserted a.size (s.core.a a.register) v)) := by
      simp only [eaPutValue, hmode, inserted]
      rcases hsize with hz | hz | hz
      · rw [hz]
        rfl
      · exact absurd hz h16
      · rw [hz]
        rfl
    refine ⟨_, ⟨hput, fun r => ?_⟩, ?_⟩
    · rw [eaGetValue_of_eaRead hsize (hread _ r), signed_inserted hsize]
    · rw [if_neg h16, Address.OnlyOperand, if_neg (by rw [hmode]; decide), if_pos hmode]
      simp only [setA, Function.update_self]
      exact ⟨trivial, fun i hi => getLsbD_inserted hsize _ v hi⟩

/-! ## An operand fetched -/

/-- The size of the extension word, long word or datum that an operand has. -/
def extension (size : Nat) (mode register : Fin 8) : Option Nat :=
  if mode = 5 ∨ mode = 6 then some 16
  else if mode = 7 then
    if register = 1 then some 32 else if register = 4 then some size else some 16
  else none

/-- The address registers after an operand was fetched. -/
def steppedA (size : Nat) (mode register : Fin 8) (a : Fin 8 → Uint32) : Fin 8 → Uint32 :=
  let n := BitVec.ofNat 32 (size / 8)
  if mode = 3 then Function.update a register (a register + n)
  else if mode = 4 then Function.update a register (a register - n)
  else a

/-- The documented effective address, for the extension `ext` at `pc`: that of (An)+ before
the increment, and that of -(An) after the decrement. -/
def effectiveAddress (size : Nat) (mode register : Fin 8) (c : MemoryCore) (ext : Uint32) :
    Option Uint32 :=
  match mode.val, register.val with
  | 2, _ => some (c.a register)
  | 3, _ => some (c.a register)
  | 4, _ => some (c.a register - BitVec.ofNat 32 (size / 8))
  | 5, _ => some (c.a register + signed 16 ext)
  | 6, _ => some (c.a register + signed 8 ext + c.scaledIndex ext)
  | 7, 0 => some (signed 16 ext)
  | 7, 1 => some ext
  | 7, 2 => some (c.pc + signed 16 ext)
  | 7, 3 => some (c.pc + signed 8 ext + c.scaledIndex ext)
  | _, _ => none

/-- An operand that was fetched in the state `s`, with the extension `ext`. Nothing is said of
the address of (xxx).W. -/
structure Fetched (s : State δ) (size : Nat) (mode register : Fin 8) (ext : Uint32) (a : Address) :
    Prop where
  fields : a.size = size ∧ a.mode = mode ∧ a.register = register ∧ a.data = ext
  address : ¬(mode = 7 ∧ register = 0) →
    ∀ A, effectiveAddress size mode register s.core ext = some A → a.address = A

/-- `t` is `s` but for the program counter, which is `n` bytes on, the address registers `a`,
and what a read of the extension does to the devices. -/
structure Consumed (s t : State δ) (n : Uint32) (a : Fin 8 → Uint32) : Prop where
  core : t.core = { s.core with pc := s.core.pc + n, a := a }
  ram : t.ram = s.ram

theorem eaWithData_eq {addr : Address} {size : Nat} (f : Uint32 → MemoryCore → Uint32)
    {ext : Uint32} (h : s.memoryRetrFromPc b addr.data size = some (true, ext, t)) :
    s.eaWithData b addr size f =
      some (true, { addr with data := ext, address := f ext t.core }, t) := by
  simp [eaWithData, h]

theorem Consumed.of_a (a : Fin 8 → Uint32) :
    s.Consumed { s with core := { s.core with a := a } } 0 a where
  core := by rw [show s.core.pc + 0 = s.core.pc from BitVec.add_zero _]
  ram := rfl

/-- An operand without an extension. -/
theorem eaGetFromPc_none {size : Nat} {mode register : Fin 8}
    (h : extension size mode register = none) :
    ∃ a t, s.eaGetFromPc b size mode register = some (true, a, t) ∧
      s.Fetched size mode register 0 a ∧ s.Consumed t 0 (steppedA size mode register s.core.a) := by
  have h8 : size >>> 3 = size / 8 := Nat.shiftRight_eq_div_pow size 3
  obtain ⟨m, hm⟩ := mode
  interval_cases m
  · exact ⟨_, s, rfl, ⟨⟨rfl, rfl, rfl, rfl⟩, nofun⟩, .of_a s.core.a⟩
  · exact ⟨_, s, rfl, ⟨⟨rfl, rfl, rfl, rfl⟩, nofun⟩, .of_a s.core.a⟩
  · exact ⟨_, s, rfl, ⟨⟨rfl, rfl, rfl, rfl⟩, fun _ A hA => Option.some.inj hA⟩, .of_a s.core.a⟩
  · refine ⟨_, _, rfl, ⟨⟨rfl, rfl, rfl, rfl⟩, fun _ A hA => Option.some.inj hA⟩, ?_⟩
    rw [h8]
    exact .of_a _
  · refine ⟨_, _, rfl, ⟨⟨rfl, rfl, rfl, rfl⟩, fun _ A hA => ?_⟩, ?_⟩
    · rw [h8]
      exact Option.some.inj hA
    · rw [h8]
      exact .of_a _
  all_goals
    simp [extension] at h
  split at h
  · cases h
  · split at h <;> cases h

/-! The modes with an extension. -/

theorem eaGetFromPc_d16 (size : Nat) (register : Fin 8) :
    s.eaGetFromPc b size 5 register = s.eaWithData b ⟨size, 5, register, 0xdeadbeef, 0⟩ 16
      (fun data c => c.a register + toShort data) := rfl

theorem eaGetFromPc_d8Xi (size : Nat) (register : Fin 8) :
    s.eaGetFromPc b size 6 register = s.eaWithData b ⟨size, 6, register, 0xdeadbeef, 0⟩ 16
      (fun data c => c.a register + ewDisplacement data + c.scaledIndex data) := rfl

theorem eaGetFromPc_absW (size : Nat) :
    s.eaGetFromPc b size 7 0 = s.eaWithData b ⟨size, 7, 0, 0xdeadbeef, 0⟩ 16
      (fun data _ => data) := rfl

theorem eaGetFromPc_absL (size : Nat) :
    s.eaGetFromPc b size 7 1 = s.eaWithData b ⟨size, 7, 1, 0xdeadbeef, 0⟩ 32
      (fun data _ => data) := rfl

theorem eaGetFromPc_pcD16 (size : Nat) :
    s.eaGetFromPc b size 7 2 = s.eaWithData b ⟨size, 7, 2, s.core.pc, 0⟩ 16
      (fun data _ => s.core.pc + toShort data) := rfl

theorem eaGetFromPc_pcD8Xi (size : Nat) :
    s.eaGetFromPc b size 7 3 = s.eaWithData b ⟨size, 7, 3, s.core.pc, 0⟩ 16
      (fun data c => s.core.pc + ewDisplacement data + c.scaledIndex data) := rfl

theorem eaGetFromPc_imm (size : Nat) :
    s.eaGetFromPc b size 7 4 = s.eaWithData b ⟨size, 7, 4, 0xdeadbeef, 0⟩ size
      (fun _ _ => 0xdeadbeef) := rfl

/-- An operand with an extension. -/
theorem eaGetFromPc_some {size z : Nat} {mode register : Fin 8} (hsize : IsSize size)
    (hvalid : mode = 7 → register ≤ 4) (h : extension size mode register = some z) {ext : Uint32}
    (hr : s.memoryRetrFromPc b 0 z = some (true, ext, t)) :
    ∃ a, s.eaGetFromPc b size mode register = some (true, a, t) ∧
      s.Fetched size mode register ext a ∧
      s.Consumed t (bytesFromPc z) (steppedA size mode register s.core.a) := by
  have hz : IsSize z := by
    unfold extension at h
    split_ifs at h <;> cases h
    exacts [.inr (.inl rfl), .inr (.inr rfl), hsize, .inr (.inl rfl)]
  have hpc := memoryRetrFromPc_keeps hz hr
  have hs : s.Consumed t (bytesFromPc z) s.core.a := ⟨hpc.core, hpc.ram⟩
  obtain ⟨m, hm⟩ := mode
  interval_cases m
  iterate 5 cases h
  · cases (show some 16 = some z from h)
    refine ⟨_, (eaGetFromPc_d16 _ _).trans (eaWithData_eq _ hr),
      ⟨⟨rfl, rfl, rfl, rfl⟩, fun _ A hA => ?_⟩, hs⟩
    rw [hpc.core]
    exact Option.some.inj hA
  · cases (show some 16 = some z from h)
    refine ⟨_, (eaGetFromPc_d8Xi _ _).trans (eaWithData_eq _ hr),
      ⟨⟨rfl, rfl, rfl, rfl⟩, fun _ A hA => ?_⟩, hs⟩
    rw [hpc.core]
    exact Option.some.inj hA
  · obtain ⟨r, hlt⟩ := register
    have hle : r ≤ 4 := hvalid rfl
    interval_cases r
    · cases (show some 16 = some z from h)
      exact ⟨_, (eaGetFromPc_absW _).trans (eaWithData_eq _ hr),
        ⟨⟨rfl, rfl, rfl, rfl⟩, fun hn => absurd ⟨rfl, rfl⟩ hn⟩, hs⟩
    · cases (show some 32 = some z from h)
      exact ⟨_, (eaGetFromPc_absL _).trans (eaWithData_eq _ hr),
        ⟨⟨rfl, rfl, rfl, rfl⟩, fun _ A hA => Option.some.inj hA⟩, hs⟩
    · cases (show some 16 = some z from h)
      exact ⟨_, (eaGetFromPc_pcD16 _).trans (eaWithData_eq _ hr),
        ⟨⟨rfl, rfl, rfl, rfl⟩, fun _ A hA => Option.some.inj hA⟩, hs⟩
    · cases (show some 16 = some z from h)
      refine ⟨_, (eaGetFromPc_pcD8Xi _).trans (eaWithData_eq _ hr),
        ⟨⟨rfl, rfl, rfl, rfl⟩, fun _ A hA => ?_⟩, hs⟩
      rw [hpc.core]
      exact Option.some.inj hA
    · cases (show some size = some z from h)
      exact ⟨_, (eaGetFromPc_imm _).trans (eaWithData_eq _ hr),
        ⟨⟨rfl, rfl, rfl, rfl⟩, nofun⟩, hs⟩

/-! ## What a fetch leaves alone -/

/-- `t` is `s` but for the program counter, the address registers and the devices. -/
structure FetchOnly (s t : State δ) : Prop where
  core : ∃ pc a, t.core = { s.core with pc := pc, a := a }
  ram : t.ram = s.ram

theorem FetchOnly.refl (s : State δ) : s.FetchOnly s := ⟨⟨_, _, rfl⟩, rfl⟩

theorem FetchOnly.trans {u : State δ} (h : s.FetchOnly t) (h' : t.FetchOnly u) :
    s.FetchOnly u := by
  obtain ⟨⟨pc, a, hc⟩, hr⟩ := h
  obtain ⟨⟨pc', a', hc'⟩, hr'⟩ := h'
  exact ⟨⟨pc', a', by rw [hc', hc]⟩, hr'.trans hr⟩

theorem FetchOnly.sr (h : s.FetchOnly t) : t.core.sr = s.core.sr := by
  obtain ⟨⟨pc, a, hc⟩, -⟩ := h
  rw [hc]

theorem FetchOnly.d (h : s.FetchOnly t) : t.core.d = s.core.d := by
  obtain ⟨⟨pc, a, hc⟩, -⟩ := h
  rw [hc]

theorem FetchOnly.base (h : s.FetchOnly t) : t.core.base = s.core.base := by
  obtain ⟨⟨pc, a, hc⟩, -⟩ := h
  rw [hc]
  funext r
  cases r <;> rfl

theorem FetchOnly.of_retr {r : Uint32} {size : Nat} {A : Uint32} {ok : Bool} {v : Uint32}
    (h : s.memoryRetr b r size A = some (ok, v, t)) : s.FetchOnly t := by
  obtain ⟨hc, hr⟩ := memoryRetr_keeps h
  exact ⟨⟨_, _, hc⟩, hr⟩

theorem FetchOnly.setPc (pc : Uint32) : s.FetchOnly (s.setPc pc) := ⟨⟨_, _, rfl⟩, rfl⟩

theorem fetchOnly_memoryRetrFromPc {r : Uint32} {size : Nat} {ok : Bool} {v : Uint32}
    (h : s.memoryRetrFromPc b r size = some (ok, v, t)) : s.FetchOnly t := by
  unfold memoryRetrFromPc at h
  simp only [Option.bind_eq_bind] at h
  split at h
  · obtain ⟨⟨ok, v, u⟩, hu, h⟩ := Option.bind_eq_some_iff.mp h
    cases h
    exact (FetchOnly.of_retr hu).trans (.setPc _)
  · split at h
    · obtain ⟨⟨ok, v, u⟩, hu, h⟩ := Option.bind_eq_some_iff.mp h
      cases h
      exact (FetchOnly.of_retr hu).trans (.setPc _)
    · split at h
      · obtain ⟨⟨ok, v, u⟩, hu, h⟩ := Option.bind_eq_some_iff.mp h
        cases h
        exact ((FetchOnly.setPc _).trans (.of_retr hu)).trans (.setPc _)
      · cases h
        exact .refl s

theorem fetchOnly_eaWithData {addr a : Address} {size : Nat} {f : Uint32 → MemoryCore → Uint32}
    {ok : Bool} (h : s.eaWithData b addr size f = some (ok, a, t)) :
    s.FetchOnly t ∧ a.size = addr.size := by
  unfold eaWithData at h
  simp only [Option.bind_eq_bind] at h
  obtain ⟨⟨ok', v, u⟩, hu, h⟩ := Option.bind_eq_some_iff.mp h
  have hf := fetchOnly_memoryRetrFromPc hu
  cases ok' <;> cases h <;> exact ⟨hf, rfl⟩

theorem fetchOnly_eaGetFromPc {size : Nat} {mode register : Fin 8} {ok : Bool} {a : Address}
    (h : s.eaGetFromPc b size mode register = some (ok, a, t)) :
    s.FetchOnly t ∧ a.size = size := by
  obtain ⟨m, hm⟩ := mode
  interval_cases m
  · cases h
    exact ⟨.refl s, rfl⟩
  · cases h
    exact ⟨.refl s, rfl⟩
  · cases h
    exact ⟨.refl s, rfl⟩
  · cases h
    exact ⟨⟨⟨_, _, rfl⟩, rfl⟩, rfl⟩
  · cases h
    exact ⟨⟨⟨_, _, rfl⟩, rfl⟩, rfl⟩
  · exact fetchOnly_eaWithData ((eaGetFromPc_d16 _ _).symm.trans h)
  · exact fetchOnly_eaWithData ((eaGetFromPc_d8Xi _ _).symm.trans h)
  · obtain ⟨r, hr⟩ := register
    interval_cases r
    · exact fetchOnly_eaWithData ((eaGetFromPc_absW _).symm.trans h)
    · exact fetchOnly_eaWithData ((eaGetFromPc_absL _).symm.trans h)
    · exact fetchOnly_eaWithData ((eaGetFromPc_pcD16 _).symm.trans h)
    · exact fetchOnly_eaWithData ((eaGetFromPc_pcD8Xi _).symm.trans h)
    · exact fetchOnly_eaWithData ((eaGetFromPc_imm _).symm.trans h)
    all_goals
      cases h
      exact ⟨.refl s, rfl⟩

theorem fetchOnly_eaGetValue {r : Uint32} {a : Address} {ok : Bool} {v : Uint32}
    (h : s.eaGetValue b r a = some (ok, v, t)) : s.FetchOnly t := by
  unfold eaGetValue at h
  simp only [Option.bind_eq_bind] at h
  obtain ⟨⟨ok', v', u⟩, hu, h⟩ := Option.bind_eq_some_iff.mp h
  have hf : s.FetchOnly u := by
    unfold eaRead at hu
    split at hu
    · cases hu
      exact .refl s
    · cases hu
      exact .refl s
    · split at hu
      iterate 4
        cases hu
        exact .refl s
      exact .of_retr hu
    · exact .of_retr hu
  split at h
  · cases h
    exact hf
  · split at h <;> cases h <;> exact hf

theorem Address.OnlyOperand.sr {a : Address} (h : a.OnlyOperand b s t) :
    t.core.sr = s.core.sr := by
  unfold Address.OnlyOperand at h
  split_ifs at h
  · rw [h.1]
    rfl
  · rw [h.1]
    rfl
  · obtain ⟨g, j, bytes, -, rfl, -⟩ := h
    rfl

/-- An alterable operand is read as it was written. -/
theorem putGet_of_alterable {a : Address} (hsize : IsSize a.size) (ha : a.Alterable b s)
    (v : Uint32) : ∃ t, s.PutGet b a v t ∧
      if a.mode = 1 ∧ a.size = 16 then t = s.setA a.register v else a.OnlyOperand b s t := by
  rcases ha with h0 | h1 | ⟨hmem, hram⟩
  · obtain ⟨t, ht, ho⟩ := putGet_of_d (b := b) (s := s) hsize h0 v
    refine ⟨t, ht, ?_⟩
    rwa [if_neg (by rw [h0]; exact fun h => absurd h.1 (by decide))]
  · obtain ⟨t, ht, ho⟩ := putGet_of_a (b := b) (s := s) hsize h1 v
    refine ⟨t, ht, ?_⟩
    simpa only [h1, true_and] using ho
  · obtain ⟨t, ht, ho⟩ := putGet_of_ramAt hsize hmem hram v
    refine ⟨t, ht, ?_⟩
    rwa [if_neg fun h => (ne_of_inMemory hmem).2 h.1]

/-- Operand access: a fetch computes the documented address, takes the extension and steps the
address register once, and an alterable operand is read as it was written. -/
theorem operand_consistent (b : Board δ) (s : State δ) {size : Nat} (hsize : IsSize size) :
    (∀ mode register, (mode = 7 → register ≤ 4) →
      (extension size mode register = none → ∃ a t,
        s.eaGetFromPc b size mode register = some (true, a, t) ∧
          s.Fetched size mode register 0 a ∧
          s.Consumed t 0 (steppedA size mode register s.core.a)) ∧
      ∀ z, extension size mode register = some z → ∀ ext t,
        s.memoryRetrFromPc b 0 z = some (true, ext, t) → ∃ a,
          s.eaGetFromPc b size mode register = some (true, a, t) ∧
            s.Fetched size mode register ext a ∧
            s.Consumed t (bytesFromPc z) (steppedA size mode register s.core.a)) ∧
    ∀ a v, a.size = size → a.Alterable b s → ∃ t, s.PutGet b a v t ∧
      if a.mode = 1 ∧ size = 16 then t = s.setA a.register v else a.OnlyOperand b s t := by
  refine ⟨fun mode register hvalid => ⟨eaGetFromPc_none, fun z hz ext t hr =>
    eaGetFromPc_some hsize hvalid hz hr⟩, ?_⟩
  rintro a v rfl ha
  exact putGet_of_alterable hsize ha v

/-- A word at -(A0), in RAM. -/
theorem operand_consistent_predecrement :
    let a : Address := ⟨16, 4, 0, 0x1FFE, 0⟩
    (plainState.eaGetFromPc plainBoard 16 4 0).map (·.2.1) = some a ∧
      ∃ t, plainState.PutGet plainBoard a 0x1FFFF t ∧ a.OnlyOperand plainBoard plainState t := by
  refine ⟨rfl, ?_⟩
  have hram : plainState.RamAt plainBoard 0x1FFE := ⟨_, _, rfl, rfl⟩
  obtain ⟨t, ht, ho⟩ := (operand_consistent plainBoard plainState (.inr (.inl rfl))).2
    ⟨16, 4, 0, 0x1FFE, 0⟩ 0x1FFFF rfl (.inr (.inr ⟨.inr (.inr (.inl rfl)), hram⟩))
  exact ⟨t, ht, ho⟩

/-- A word in an address register replaces its high half, and the address of (xxx).W has none
of its sign. -/
theorem not_operand_consistent :
    (¬∀ (b : Board Unit) (s : State Unit) (a : Address) (v : Uint32), IsSize a.size →
      a.Alterable b s → ∃ t, s.PutGet b a v t ∧ a.OnlyOperand b s t) ∧
    ¬∀ (b : Board Unit) (s t : State Unit) (a : Address) (ext : Uint32),
      s.memoryRetrFromPc b 0 16 = some (true, ext, t) →
      s.eaGetFromPc b 16 7 0 = some (true, a, t) → a.address = signed 16 ext := by
  constructor
  · intro h
    obtain ⟨t, ht, ho⟩ := h plainBoard plainState ⟨16, 1, 0, 0, 0⟩ 0x12345678 (.inr (.inl rfl))
      (.inr (.inl rfl))
    obtain rfl : plainState.setA 0 0x12345678 = t := Option.some.inj ht.put
    exact absurd (ho.2 28 (by decide)) (by decide)
  · intro h
    let s : State Unit := { plainState with ram := fun _ _ => 0x80 }
    have hv : ∀ n, ramRead (fun _ => 0x80) 16 n = 0x8080 := fun _ =>
      (by decide : ramRead (fun _ => 0x80) 16 0 = 0x8080)
    have hr : s.memoryRetr plainBoard 0 16 0x102 = some (true, 0x8080, s) := by
      rw [← hv 0x102]
      rfl
    have hpc : s.memoryRetrFromPc plainBoard 0 16 = some (true, 0x8080, s.setPc (0x102 + 2)) := by
      rw [memoryRetrFromPc, if_neg (by decide), if_pos rfl, show s.core.pc = 0x102 from rfl, hr]
      rfl
    exact absurd (h plainBoard s _ _ _ hpc (eaWithData_eq (fun data _ => data) hpc)) (by decide)

end State

end SkyEye.ColdFire
