import SkyEye.Gdb.Qtdp
import SkyEye.Gdb.Server

/-!
# Bytes as hex digits

`convert_int_to_ascii` and `convert_ascii_to_int`, which every register and every piece of
memory in a packet goes through. `from` is a pointer, here the bytes from where it points
on, and what is stored through `to` is the result. Whether `char` has a sign is up to the
host's compiler.
-/

namespace SkyEye.Gdb.HexText

/-- The bytes from a pointer on. -/
abbrev Chars := Nat → Byte

/-- The pointer `k` further on. -/
def Chars.next (p : Chars) (k : Nat) : Chars := fun i => p (i + k)

/-- A `char` where an `int` is wanted. -/
def charInt (signedChar : Bool) (c : Byte) : BitVec 32 :=
  if signedChar then c.signExtend 32 else c.setWidth 32

section
variable (signedChar : Bool)

/-- `nib = ((ch & 0xf0) >> 4) & 0x0f` -/
def highNib (ch : Byte) : BitVec 32 := ((charInt signedChar ch &&& 0xf0).sshiftRight 4) &&& 0x0f

/-- `nib = ch & 0x0f` -/
def lowNib (ch : Byte) : BitVec 32 := charInt signedChar ch &&& 0x0f

def convertIntToAscii (p : Chars) : Nat → List Byte
  | 0 => [0]
  | n + 1 =>
    tohex (highNib signedChar (p 0)).toNat :: tohex (lowNib signedChar (p 0)).toNat ::
      convertIntToAscii (p.next 1) n

/-- `fromhex(*from++)` -/
def nibAt (c : Byte) : BitVec 32 := BitVec.ofNat 32 (fromhex (charInt signedChar c).toInt)

/-- `(((nib1 & 0x0f) << 4) & 0xf0) | (nib2 & 0x0f)` -/
def packNibs (nib1 nib2 : BitVec 32) : Byte :=
  ((((nib1 &&& 0x0f) <<< 4) &&& 0xf0) ||| (nib2 &&& 0x0f)).setWidth 8

def convertAsciiToInt (p : Chars) : Nat → List Byte
  | 0 => []
  | n + 1 =>
    packNibs (nibAt signedChar (p 0)) (nibAt signedChar (p 1)) ::
      convertAsciiToInt (p.next 2) n

end

/-- The memory at a pointer through which `l` was stored, over what was there before. -/
def stored (l : List Byte) (old : Chars) : Chars := fun i => l.getD i (old i)

/-- The first `n` bytes from a pointer on. -/
def Chars.take (p : Chars) (n : Nat) : List Byte := (List.range n).map p

/-- A letter in lower case. -/
def toLower (c : Byte) : Byte := if 0x41 ≤ c ∧ c ≤ 0x5a then c + 0x20 else c

/-! ## One byte -/

@[simp] theorem highNib_toNat (s : Bool) (ch : Byte) :
    (highNib s ch).toNat = ch.toNat / 16 := by
  have h : ∀ (s : Bool) (ch : Byte), (highNib s ch).toNat = ch.toNat / 16 := by decide +kernel
  exact h s ch

@[simp] theorem lowNib_toNat (s : Bool) (ch : Byte) :
    (lowNib s ch).toNat = ch.toNat % 16 := by
  have h : ∀ (s : Bool) (ch : Byte), (lowNib s ch).toNat = ch.toNat % 16 := by decide +kernel
  exact h s ch

/-- A digit is ASCII, so that the sign of a `char` is nothing to it. -/
theorem nibAt_tohex (s : Bool) {n : Nat} (hn : n < 16) :
    nibAt s (tohex n) = BitVec.ofNat 32 n := by
  have h : ∀ (s : Bool) (n : Fin 16), nibAt s (tohex n) = BitVec.ofNat 32 n := by decide
  exact h s ⟨n, hn⟩

theorem packNibs_ofNat {a b : Nat} (ha : a < 16) (hb : b < 16) :
    packNibs (BitVec.ofNat 32 a) (BitVec.ofNat 32 b) = BitVec.ofNat 8 (16 * a + b) := by
  have h : ∀ a b : Fin 16,
      packNibs (BitVec.ofNat 32 a) (BitVec.ofNat 32 b) = BitVec.ofNat 8 (16 * a + b) := by
    decide +kernel
  exact h ⟨a, ha⟩ ⟨b, hb⟩

/-- The two digits of a byte are read back as the byte. -/
theorem packNibs_digits (s : Bool) (ch : Byte) :
    packNibs (nibAt s (tohex (highNib s ch).toNat)) (nibAt s (tohex (lowNib s ch).toNat)) = ch := by
  have hch : ch.toNat < 256 := ch.isLt
  rw [highNib_toNat, lowNib_toNat, nibAt_tohex s (by omega), nibAt_tohex s (by omega),
    packNibs_ofNat (by omega) (by omega)]
  apply BitVec.eq_of_toNat_eq
  rw [BitVec.toNat_ofNat]
  omega

/-- A digit stands for itself in lower case. -/
theorem tohex_nibAt (s : Bool) {c : Byte} (hc : IsHexDigit c) :
    (nibAt s c).toNat < 16 ∧ tohex (nibAt s c).toNat = toLower c := by
  have h : ∀ (s : Bool) (c : Byte), IsHexDigit c →
      (nibAt s c).toNat < 16 ∧ tohex (nibAt s c).toNat = toLower c := by decide +kernel
  exact h s c hc

/-- The byte made of two digits has them as its nibbles. -/
theorem packNibs_toNat {x y : BitVec 32} (hx : x.toNat < 16) (hy : y.toNat < 16) :
    (packNibs x y).toNat = 16 * x.toNat + y.toNat := by
  have h := packNibs_ofNat hx hy
  rw [BitVec.ofNat_toNat, BitVec.ofNat_toNat, BitVec.setWidth_eq, BitVec.setWidth_eq] at h
  rw [h, BitVec.toNat_ofNat]
  omega

/-! ## Whole strings -/

theorem take_succ (p : Chars) (n : Nat) : p.take (n + 1) = p 0 :: (p.next 1).take n := by
  rw [Chars.take, List.range_succ_eq_map, List.map_cons, List.map_map]
  rfl

theorem take_two_mul_succ (p : Chars) (n : Nat) :
    p.take (2 * (n + 1)) = p 0 :: p 1 :: (p.next 2).take (2 * n) := by
  rw [show 2 * (n + 1) = 2 * n + 1 + 1 by omega, take_succ, take_succ]
  rfl

theorem stored_next (a b : Byte) (l : List Byte) (old : Chars) :
    (stored (a :: b :: l) old).next 2 = stored l (old.next 2) := rfl

theorem convertAsciiToInt_convertIntToAscii (s : Bool) (n : Nat) : ∀ p old : Chars,
    convertAsciiToInt s (stored (convertIntToAscii s p n) old) n = p.take n := by
  induction n with
  | zero => intro p old; rfl
  | succ n ih =>
    intro p old
    rw [convertIntToAscii, convertAsciiToInt, stored_next, ih, take_succ]
    exact congrArg (· :: _) (packNibs_digits s (p 0))

theorem convertIntToAscii_convertAsciiToInt (s : Bool) (n : Nat) : ∀ p old : Chars,
    (∀ c ∈ p.take (2 * n), IsHexDigit c) →
    convertIntToAscii s (stored (convertAsciiToInt s p n) old) n =
      (p.take (2 * n)).map toLower ++ [0] := by
  induction n with
  | zero => intro p old _; rfl
  | succ n ih =>
    intro p old hp
    rw [take_two_mul_succ] at hp ⊢
    obtain ⟨hx, hxc⟩ := tohex_nibAt s (hp (p 0) (by simp))
    obtain ⟨hy, hyc⟩ := tohex_nibAt s (hp (p 1) (by simp))
    have hrest := ih (p.next 2) (old.next 1) fun c hc => hp c (by simp [hc])
    have hbyte := packNibs_toNat hx hy
    have hhigh : (packNibs (nibAt s (p 0)) (nibAt s (p 1))).toNat / 16 = (nibAt s (p 0)).toNat := by
      omega
    have hlow : (packNibs (nibAt s (p 0)) (nibAt s (p 1))).toNat % 16 = (nibAt s (p 1)).toNat := by
      omega
    rw [convertAsciiToInt, convertIntToAscii, highNib_toNat, lowNib_toNat]
    show tohex ((packNibs _ _).toNat / 16) :: tohex ((packNibs _ _).toNat % 16) :: _ = _
    rw [hhigh, hlow, hxc, hyc]
    exact congrArg (fun l => toLower (p 0) :: toLower (p 1) :: l) hrest

/-- What is encoded is decoded again, whatever the bytes, and what is decoded is encoded
again as the same digits in lower case. -/
theorem hexText_roundTrip (s : Bool) (n : Nat) (p old : Chars) :
    convertAsciiToInt s (stored (convertIntToAscii s p n) old) n = p.take n ∧
      ((∀ c ∈ p.take (2 * n), IsHexDigit c) →
        convertIntToAscii s (stored (convertAsciiToInt s p n) old) n =
          (p.take (2 * n)).map toLower ++ [0]) :=
  ⟨convertAsciiToInt_convertIntToAscii s n p old, convertIntToAscii_convertAsciiToInt s n p old⟩

theorem hexText_roundTrip_beef :
    convertIntToAscii true
        (stored (convertAsciiToInt true (stored [0x42, 0x65, 0x45, 0x66] fun _ => 0) 2)
          fun _ => 0xff) 2 =
      [0x62, 0x65, 0x65, 0x66, 0] := by
  have h := (hexText_roundTrip true 2 (stored [0x42, 0x65, 0x45, 0x66] fun _ => 0)
    fun _ => 0xff).2 (by decide)
  exact h.trans (by decide)

end SkyEye.Gdb.HexText
