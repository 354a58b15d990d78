import Mathlib.Data.List.Basic
import Mathlib.Data.BitVec
import Mathlib.Tactic.Common
import SkyEye.Lib.Word

/-!
# Packets of the remote protocol

The packet layer of `gdbserver.c`. A packet travels as `$`, its payload, `#` and two hex
digits of the payload's sum; the receiver answers `+` or `-`. What the socket delivers is
a list of bytes, and its end is the end of input.
-/

namespace SkyEye.Gdb

abbrev Byte := BitVec 8

/-- `$` -/
def DOLLAR : Byte := 0x24
/-- `#` -/
def HASH : Byte := 0x23
/-- `+` -/
def ACK : Byte := 0x2b
/-- `-` -/
def NAK : Byte := 0x2d

/-- `fromhex`: what is no hex digit, `-1` included, counts as 0. -/
def fromhex (a : Int) : Nat :=
  if 48 ≤ a ∧ a ≤ 57 then (a - 48).toNat
  else if 97 ≤ a ∧ a ≤ 102 then (a - 97 + 10).toNat
  else if 65 ≤ a ∧ a ≤ 70 then (a - 65 + 10).toNat
  else 0

def tohex (nib : Nat) : Byte :=
  if nib < 10 then BitVec.ofNat 8 (48 + nib) else BitVec.ofNat 8 (97 + nib - 10)

/-! ## Sending -/

/-- The frame that `putpkt` puts together in `buf2`. -/
def frameOf (buf : List Byte) : List Byte :=
  let csum := buf.foldl (· + ·) 0
  DOLLAR :: buf ++ [HASH, tohex (csum.toNat / 16 % 16), tohex (csum.toNat % 16)]

/-- `putpkt`: the frame is sent until an answer is `+`. The bytes sent, and the answers
left over; none if they run out. -/
def putpkt (buf : List Byte) : List Byte → List Byte × Option (List Byte)
  | [] => (frameOf buf, none)
  | c :: answers =>
    if c = ACK then (frameOf buf, some answers)
    else
      let r := putpkt buf answers
      (frameOf buf ++ r.1, r.2)

/-! ## Receiving -/

/-- What `readchar` makes of a byte. -/
def sevenBit (b : Byte) : Byte := b &&& 0x7f

/-- What `readchar` returns, with `none` for the end of input. -/
def readchar : Option Byte → Int
  | none => -1
  | some b => (sevenBit b).toNat

/-- The comparison at the end of `getpkt`'s loop. -/
def checks (csum : Byte) (c1 c2 : Int) : Bool :=
  csum.toNat == (fromhex c1 <<< 4) + fromhex c2

/-- The answers `getpkt` sends, the bytes it puts at positions of `buf`, and the payload it
returns with the input after it. -/
structure Received where
  answers : List Byte
  written : List (Nat × Byte)
  packet : Option (List Byte × List Byte)
  deriving DecidableEq

/-- The end of input. -/
def Received.failed : Received := ⟨[], [], none⟩

/-- A payload that passed the test. -/
def Received.done (buf rest : List Byte) : Received := ⟨[ACK], [], some (buf, rest)⟩

/-- A frame with a bad checksum is answered before the next is looked for. -/
def Received.refused (r : Received) : Received := { r with answers := NAK :: r.answers }

/-- A byte is written before the rest is done. -/
def Received.wrote (r : Received) (i : Nat) (b : Byte) : Received :=
  { r with written := (i, b) :: r.written }

/-- The positions written to. -/
def Received.positions (r : Received) : List Nat := r.written.map Prod.fst

@[simp] theorem Received.packet_wrote (r : Received) (i : Nat) (b : Byte) :
    (r.wrote i b).packet = r.packet := rfl

@[simp] theorem Received.positions_wrote (r : Received) (i : Nat) (b : Byte) :
    (r.wrote i b).positions = i :: r.positions := rfl

mutual

/-- `getpkt`, in the loop that discards up to a `$`. -/
def getpkt : List Byte → Received
  | [] => .failed
  | b :: s => if sevenBit b = DOLLAR then getpktPayload [] 0 s else getpkt s

/-- The loop that collects the payload up to a `#`, and puts a zero after it. -/
def getpktPayload (buf : List Byte) (csum : Byte) : List Byte → Received
  | [] => .failed
  | b :: s =>
    if sevenBit b = HASH then (getpktCheck buf csum s).wrote buf.length 0
    else
      (getpktPayload (buf ++ [sevenBit b]) (csum + sevenBit b) s).wrote buf.length (sevenBit b)

/-- The two characters after the `#`. -/
def getpktCheck (buf : List Byte) (csum : Byte) : List Byte → Received
  | [] => if checks csum (readchar none) (readchar none) then .done buf []
    else Received.refused .failed
  | [b] => if checks csum (readchar (some b)) (readchar none) then .done buf []
    else Received.refused .failed
  | b :: b' :: s =>
    if checks csum (readchar (some b)) (readchar (some b')) then .done buf s
    else (getpkt s).refused

end

/-- `$`, `OK`, `#`, `9a` and a byte of the next frame. -/
example : (getpkt [0x24, 0x4f, 0x4b, 0x23, 0x39, 0x61, 0x24]).packet =
    some ([0x4f, 0x4b], [0x24]) := by decide

/-! ## One section -/

/-- The sum of what was read. -/
def sum7 (body : List Byte) : Byte := (body.map sevenBit).foldl (· + ·) 0

/-- A section as the receiver reads it: a `$` and the bytes up to the `#`. -/
structure Section (s gap : List Byte) (c : Byte) (body : List Byte) (sep : Byte)
    (tail : List Byte) : Prop where
  split : s = gap ++ c :: (body ++ sep :: tail)
  gap : ∀ b ∈ gap, sevenBit b ≠ DOLLAR
  start : sevenBit c = DOLLAR
  body : ∀ b ∈ body, sevenBit b ≠ HASH
  sep : sevenBit sep = HASH

theorem getpkt_gap : ∀ {gap : List Byte} (s : List Byte), (∀ b ∈ gap, sevenBit b ≠ DOLLAR) →
    getpkt (gap ++ s) = getpkt s
  | [], _, _ => rfl
  | b :: gap, s, h => by
    rw [List.cons_append, getpkt, if_neg (h b List.mem_cons_self)]
    exact getpkt_gap s fun x hx => h x (List.mem_cons_of_mem b hx)

theorem getpktCheck_eq (buf : List Byte) (csum : Byte) (tail : List Byte) :
    getpktCheck buf csum tail =
      if checks csum (readchar tail[0]?) (readchar tail[1]?) then .done buf (tail.drop 2)
      else (getpkt (tail.drop 2)).refused := by
  match tail with
  | [] => rw [getpktCheck]; simp [getpkt]
  | [b] => rw [getpktCheck]; simp [getpkt]
  | b :: b' :: s => rw [getpktCheck]; simp

/-- Without a `#` nothing is returned; the bytes of the payload are written all the same. -/
theorem getpktPayload_open : ∀ {body : List Byte} (buf : List Byte) (csum : Byte),
    (∀ b ∈ body, sevenBit b ≠ HASH) →
    (getpktPayload buf csum body).packet = none ∧
      (getpktPayload buf csum body).positions = List.range' buf.length body.length
  | [], _, _, _ => by rw [getpktPayload]; exact ⟨rfl, rfl⟩
  | b :: body, buf, csum, h => by
    have hrest := getpktPayload_open (buf ++ [sevenBit b]) (csum + sevenBit b)
      fun x hx => h x (List.mem_cons_of_mem b hx)
    rw [getpktPayload, if_neg (h b List.mem_cons_self)]
    simpa [List.range'_succ] using hrest

/-- With a `#` so is the zero after them. -/
theorem getpktPayload_body : ∀ {body : List Byte} (buf : List Byte) (csum sep : Byte)
    (tail : List Byte), (∀ b ∈ body, sevenBit b ≠ HASH) → sevenBit sep = HASH →
    let r := getpktCheck (buf ++ body.map sevenBit) ((body.map sevenBit).foldl (· + ·) csum) tail
    (getpktPayload buf csum (body ++ sep :: tail)).packet = r.packet ∧
      (getpktPayload buf csum (body ++ sep :: tail)).positions =
        List.range' buf.length (body.length + 1) ++ r.positions
  | [], buf, csum, sep, tail, _, hs => by
    simp [getpktPayload, if_pos hs]
  | b :: body, buf, csum, sep, tail, h, hs => by
    have hrest := getpktPayload_body (buf ++ [sevenBit b]) (csum + sevenBit b) sep tail
      (fun x hx => h x (List.mem_cons_of_mem b hx)) hs
    simp only [List.append_assoc, List.singleton_append, List.length_append,
      List.length_singleton] at hrest
    rw [List.cons_append, getpktPayload, if_neg (h b List.mem_cons_self)]
    simp only [Received.packet_wrote, Received.positions_wrote, hrest, List.map_cons,
      List.foldl_cons, List.length_cons, List.range'_succ,
      List.cons_append, and_self]

section

variable {s gap : List Byte} {c : Byte} {body : List Byte} {sep : Byte} {tail : List Byte}

theorem Section.packet (h : Section s gap c body sep tail) :
    (getpkt s).packet =
      if checks (sum7 body) (readchar tail[0]?) (readchar tail[1]?) then
        some (body.map sevenBit, tail.drop 2)
      else (getpkt (tail.drop 2)).packet := by
  rw [h.split, getpkt_gap _ h.gap, getpkt, if_pos h.start,
    (getpktPayload_body [] 0 sep tail h.body h.sep).1, List.nil_append, getpktCheck_eq, sum7]
  split <;> rfl

theorem Section.positions (h : Section s gap c body sep tail) :
    (getpkt s).positions = List.range (body.length + 1) ++
      if checks (sum7 body) (readchar tail[0]?) (readchar tail[1]?) then []
      else (getpkt (tail.drop 2)).positions := by
  rw [h.split, getpkt_gap _ h.gap, getpkt, if_pos h.start,
    (getpktPayload_body [] 0 sep tail h.body h.sep).2, List.nil_append, getpktCheck_eq, sum7,
    List.range_eq_range']
  split <;> rfl

/-- Without a `$`, or without a `#` after it, the input ends first. -/
theorem getpkt_of_no_dollar (h : ∀ b ∈ s, sevenBit b ≠ DOLLAR) : getpkt s = .failed := by
  have := getpkt_gap [] h
  rwa [List.append_nil, getpkt] at this

theorem getpkt_of_no_hash (hg : ∀ b ∈ gap, sevenBit b ≠ DOLLAR) (hc : sevenBit c = DOLLAR)
    (hb : ∀ b ∈ body, sevenBit b ≠ HASH) :
    (getpkt (gap ++ c :: body)).packet = none ∧
      (getpkt (gap ++ c :: body)).positions = List.range body.length := by
  rw [getpkt_gap _ hg, getpkt, if_pos hc, List.range_eq_range']
  exact getpktPayload_open [] 0 hb

end

/-- A list up to its first element with a property. -/
theorem split_at_first (P : Byte → Prop) [DecidablePred P] : ∀ s : List Byte,
    (∀ b ∈ s, ¬ P b) ∨ ∃ a c t, s = a ++ c :: t ∧ (∀ b ∈ a, ¬ P b) ∧ P c
  | [] => .inl (by simp)
  | b :: s => by
    by_cases hb : P b
    · exact .inr ⟨[], b, s, rfl, by simp, hb⟩
    · rcases split_at_first P s with h | ⟨a, c, t, rfl, ha, hc⟩
      · exact .inl (by simpa [hb] using h)
      · exact .inr ⟨b :: a, c, t, rfl, by simpa [hb] using ha, hc⟩

/-- Input has no `$`, or no `#` after its first `$`, or a section. -/
theorem exists_section (s : List Byte) :
    (∀ b ∈ s, sevenBit b ≠ DOLLAR) ∨
    (∃ gap c body, s = gap ++ c :: body ∧ (∀ b ∈ gap, sevenBit b ≠ DOLLAR) ∧
      sevenBit c = DOLLAR ∧ ∀ b ∈ body, sevenBit b ≠ HASH) ∨
    ∃ gap c body sep tail, Section s gap c body sep tail := by
  rcases split_at_first (sevenBit · = DOLLAR) s with h | ⟨gap, c, t, rfl, hg, hc⟩
  · exact .inl h
  · rcases split_at_first (sevenBit · = HASH) t with h | ⟨body, sep, tail, rfl, hb, hs⟩
    · exact .inr (.inl ⟨gap, c, t, rfl, hg, hc, h⟩)
    · exact .inr (.inr ⟨gap, c, body, sep, tail, rfl, hg, hc, hb, hs⟩)

theorem Section.drop_lt {s gap : List Byte} {c : Byte} {body : List Byte} {sep : Byte}
    {tail : List Byte} (h : Section s gap c body sep tail) :
    tail.length - 2 < s.length := by
  rw [h.split]
  simp only [List.length_append, List.length_cons]
  omega

/-- A payload was read between some `$` and the `#` after it. -/
theorem getpkt_source {p r : List Byte} : ∀ {s : List Byte}, (getpkt s).packet = some (p, r) →
    ∃ before body sep tail, s = before ++ (body ++ sep :: tail) ∧ before ≠ [] ∧
      p = body.map sevenBit ∧ r = tail.drop 2 ∧ sevenBit sep = HASH := by
  intro s hp
  rcases exists_section s with h | ⟨gap, c, body, rfl, hg, hc, hb⟩ | ⟨gap, c, body, sep, tail, h⟩
  · rw [getpkt_of_no_dollar h] at hp
    cases hp
  · rw [(getpkt_of_no_hash hg hc hb).1] at hp
    cases hp
  · rw [h.packet] at hp
    split at hp
    · obtain ⟨rfl, rfl⟩ : body.map sevenBit = p ∧ tail.drop 2 = r := by simpa using hp
      refine ⟨gap ++ [c], body, sep, tail, ?_, by simp, rfl, rfl, h.sep⟩
      rw [h.split]
      simp
    · have hlt := h.drop_lt
      obtain ⟨before, body', sep', tail', hs, hne, hp', hr, hsep⟩ := getpkt_source hp
      refine ⟨gap ++ c :: (body ++ sep :: tail.take 2) ++ before, body', sep', tail', ?_,
        by simp, hp', hr, hsep⟩
      rw [h.split]
      conv_lhs => rw [← List.take_append_drop 2 tail, hs]
      simp
termination_by s => s.length

end SkyEye.Gdb
