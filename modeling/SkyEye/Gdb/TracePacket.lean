import SkyEye.Gdb.Server

/-!
# Packets with fields

The parsers of `gdbserver.c` for `m`, `M` and the trace packets. A packet is a string with
a NUL behind it; a parser goes through it from a position on and has no result where it
would read a byte behind the NUL. Some of its loops look for a separator only, others for
the NUL as well.
-/

namespace SkyEye.Gdb

def COMMA : Byte := 0x2c

def COLON : Byte := 0x3a

def MINUS : Byte := 0x2d

/-- What a packet holds, up to its NUL. -/
structure CString where
  chars : List Byte
  noNul : 0 ∉ chars

/-- The bytes of the packet, the NUL included. -/
def CString.bytes (s : CString) : List Byte := s.chars ++ [0]

/-- One more digit. -/
def pushDigit (acc : Addr) (ch : Byte) : Addr := acc <<< 4 ||| BitVec.ofNat 32 (fromhex ch.toInt)

/-- The value of digits. -/
def hexValue (acc : Addr) (digits : List Byte) : Addr := digits.foldl pushDigit acc

/-- Hex digits up to the character `stop` or the NUL, which stay. -/
def hexBefore (stop : Byte) (acc : Addr) : List Byte → Option (Addr × List Byte)
  | [] => none
  | ch :: s =>
    if ch = stop ∨ ch = 0 then some (acc, ch :: s) else hexBefore stop (pushDigit acc ch) s

/-- What comes after the next character `stop`. -/
def skipUntil (stop : Byte) : List Byte → Option (List Byte)
  | [] => none
  | ch :: s => if ch = stop then some s else skipUntil stop s

/-! ## Memory packets -/

/-- The digits that `convert_ascii_to_int` reads for `n` bytes. -/
def convertAsciiToInt : Nat → List Byte → Option (List Byte)
  | 0, _ => some []
  | n + 1, nib1 :: nib2 :: s =>
    (convertAsciiToInt n s).map
      (BitVec.ofNat 8 (fromhex nib1.toInt * 16 + fromhex nib2.toInt) :: ·)
  | _ + 1, _ => none

/-- `decode_M_packet` with the bytes that go to `to`. -/
def decodeMPacketBytes (s : List Byte) : Option (Addr × Addr × List Byte) := do
  let (addr, len, s) ← decodeMPacket s
  let bytes ← convertAsciiToInt len.toNat s
  return (addr, len, bytes)

/-! ## Tracepoint packets -/

/-- The letter that says what an action is. -/
inductive PayloadTag where
  | E | D | R | M | X | S | other

def payloadTag (b : Byte) : PayloadTag :=
  if b = 0x45 then .E else if b = 0x44 then .D else if b = 0x52 then .R
  else if b = 0x4d then .M else if b = 0x58 then .X else if b = 0x53 then .S else .other

/-- What `decode_DP_playload` is asked to do. -/
inductive Payload where
  | enable (remainingStep passCount : Addr)
  | disable (remainingStep passCount : Addr)
  | registers (mask : Addr)
  | memory (mc : MemoryCollect)
  | whileStepping (p : Payload)
  | nothing

/-- The `E` and `D` cases, from behind the letter: step and pass count. -/
def decodeStatus (s : List Byte) : Option (Addr × Addr × List Byte) := do
  let (remainingStep, s) ← hexUntil COLON 0 (s.drop 1)
  let (passCount, s) ← hexBefore MINUS 0 s
  return (remainingStep, passCount, s)

/-- The base register of the `M` case. -/
def decodeBaseReg : List Byte → Option (Int × List Byte)
  | [] => none
  | ch :: s =>
    if ch = MINUS then do
      let s ← skipUntil COMMA (ch :: s)
      return (-1, s)
    else do
      -- the digit `ch` has been skipped
      let (baseReg, s) ← hexBefore COMMA 0 s
      return (baseReg.toInt, s)

/-- Offset and length of the `M` case. -/
def decodeExtent (s : List Byte) : Option (Addr × Addr × List Byte) := do
  let (offset, s) ← hexBefore COMMA 0 s
  let (length, s) ← hexBefore MINUS 0 (s.drop 1)
  return (offset, length, s)

/-- The `M` case, from behind the letter. -/
def decodeMemory (s : List Byte) : Option (MemoryCollect × List Byte) := do
  let (baseReg, s) ← decodeBaseReg s
  let (offset, length, s) ← decodeExtent s
  return ({ baseReg, offset, length }, s)

/-- `decode_DP_playload`, as far as reading goes: what it does, and where it stops. -/
def decodeDPPlayload : List Byte → Option (Payload × List Byte)
  | [] => none
  | tag :: s =>
    match payloadTag tag with
    | .E => (decodeStatus s).map fun r => (.enable r.1 r.2.1, r.2.2)
    | .D => (decodeStatus s).map fun r => (.disable r.1 r.2.1, r.2.2)
    | .R => (hexBefore MINUS 0 s).map fun r => (.registers r.1, r.2)
    | .M => (decodeMemory s).map fun r => (.memory r.1, r.2)
    | .S => (decodeDPPlayload s).map fun r => (.whileStepping r.1, r.2)
    | .X | .other => some (.nothing, tag :: s)

/-- `decode_DP_packet`, as far as reading goes: number, address and payload. -/
def decodeDPPacket (s : List Byte) : Option (Addr × Addr × Payload) := do
  let (tpNumber, s) ← hexUntil COLON 0 (if s.head? = some MINUS then s.drop 1 else s)
  let (tpAddress, s) ← hexUntil COLON 0 s
  let (payload, _) ← decodeDPPlayload s
  return (tpNumber, tpAddress, payload)

/-- What a `QTFrame` packet asks for. -/
inductive FrameRequest where
  | pc | tdp (tracepointNumber : Addr) | range | outside
  | number (frameNumber : Addr)

/-- `decode_Frame_packet`, as far as reading goes. -/
def decodeFrameRequest : List Byte → Option FrameRequest
  | [] => none
  | ch :: s =>
    if ch = 0x70 then some .pc
    else if ch = 0x74 then (hexBefore 0 0 ((ch :: s).drop 4)).map fun r => .tdp r.1
    else if ch = 0x72 then some .range
    else if ch = 0x6f then some .outside
    else (hexBefore 0 0 (ch :: s)).map fun r => .number r.1

/-- The loop of `decode_ro_packet`: the regions that it adds. -/
def decodeRoPacket (start stop : Addr) (atStop : Bool) (regions : List (Addr × Addr)) :
    List Byte → Option (List (Addr × Addr))
  | [] => none
  | ch :: s =>
    if ch = 0 then
      some (if start ≠ 0 ∨ stop ≠ 0 then regions ++ [(start, stop)] else regions)
    else if ch = COMMA then decodeRoPacket start stop true regions s
    else if ch = COLON then decodeRoPacket 0 0 false (regions ++ [(start, stop)]) s
    else if atStop then decodeRoPacket start (pushDigit stop ch) atStop regions s
    else decodeRoPacket (pushDigit start ch) stop atStop regions s

/-- The letter behind `QT`. -/
inductive QTTag where
  | i | S | D | F | r | other

def qtTag (b : Byte) : QTTag :=
  if b = 0x69 then .i else if b = 0x53 then .S else if b = 0x44 then .D
  else if b = 0x46 then .F else if b = 0x72 then .r else .other

/-- What a `Q` packet asks for. -/
inductive QPacket where
  | init
  | start
  | stop
  | define (tpNumber tpAddress : Addr) (p : Payload)
  | frame (f : FrameRequest)
  | readOnly (regions : List (Addr × Addr))
  | unknown

/-- `decode_Q_packet`, as far as reading goes, from behind the `Q`. -/
def readQPacket (s : List Byte) : Option QPacket :=
  match s with
  | [] => none
  | ch :: s' =>
    if ch ≠ 0x54 then some .unknown
    else
      match s' with
      | [] => none
      | tag :: _ =>
        match qtTag tag with
        | .i => some .init
        | .S =>
          (s[3]?).map fun c => if c = 0x61 then .start else if c = 0x6f then .stop else .unknown
        | .D => (decodeDPPacket (s.drop 4)).map fun r => .define r.1 r.2.1 r.2.2
        | .F => (decodeFrameRequest (s.drop 7)).map .frame
        | .r => (decodeRoPacket 0 0 false [] (s.drop 4)).map .readOnly
        | .other => some .unknown

/-! ## Where the loops stop -/

section Loops

variable {stop ch : Byte} {pre s : List Byte}

theorem hexUntil_append (acc : Addr) (h : stop ∉ pre) :
    hexUntil stop acc (pre ++ stop :: s) = some (hexValue acc pre, s) := by
  induction pre generalizing acc with
  | nil => rw [List.nil_append, hexUntil, if_pos rfl]; rfl
  | cons c pre ih =>
    have hc : c ≠ stop := fun he => h (he ▸ List.mem_cons_self)
    rw [List.cons_append, hexUntil, if_neg hc]
    exact ih _ fun hm => h (List.mem_cons_of_mem _ hm)

theorem hexUntil_of_notMem (acc : Addr) (h : stop ∉ s) : hexUntil stop acc s = none := by
  induction s generalizing acc with
  | nil => rfl
  | cons c s ih =>
    have hc : c ≠ stop := fun he => h (he ▸ List.mem_cons_self)
    rw [hexUntil, if_neg hc]
    exact ih _ fun hm => h (List.mem_cons_of_mem _ hm)

theorem skipUntil_append (h : stop ∉ pre) : skipUntil stop (pre ++ stop :: s) = some s := by
  induction pre with
  | nil => rw [List.nil_append, skipUntil, if_pos rfl]
  | cons c pre ih =>
    have hc : c ≠ stop := fun he => h (he ▸ List.mem_cons_self)
    rw [List.cons_append, skipUntil, if_neg hc]
    exact ih fun hm => h (List.mem_cons_of_mem _ hm)

theorem skipUntil_of_notMem (h : stop ∉ s) : skipUntil stop s = none := by
  induction s with
  | nil => rfl
  | cons c s ih =>
    have hc : c ≠ stop := fun he => h (he ▸ List.mem_cons_self)
    rw [skipUntil, if_neg hc]
    exact ih fun hm => h (List.mem_cons_of_mem _ hm)

theorem hexBefore_append (acc : Addr) (h : stop ∉ pre) (h0 : 0 ∉ pre) (hch : ch = stop ∨ ch = 0) :
    hexBefore stop acc (pre ++ ch :: s) = some (hexValue acc pre, ch :: s) := by
  induction pre generalizing acc with
  | nil => rw [List.nil_append, hexBefore, if_pos hch]; rfl
  | cons c pre ih =>
    rw [List.mem_cons, not_or] at h h0
    have hc : ¬ (c = stop ∨ c = 0) := not_or.mpr ⟨Ne.symm h.1, Ne.symm h0.1⟩
    rw [List.cons_append, hexBefore, if_neg hc]
    exact ih _ h.2 h0.2

/-- A loop that looks for the NUL ends. -/
theorem isSome_hexBefore (acc : Addr) (h : 0 ∈ s) : (hexBefore stop acc s).isSome := by
  induction s generalizing acc with
  | nil => cases h
  | cons c s ih =>
    rw [hexBefore]
    split
    · rfl
    · rename_i hc
      refine ih _ ((List.mem_cons.mp h).resolve_left fun he => hc (.inr he.symm))

theorem isSome_hexUpTo (acc : Addr) (k : Nat) (h : 0 ∈ s) : (hexUpTo acc k s).isSome := by
  induction s generalizing acc k with
  | nil => cases h
  | cons c s ih =>
    cases k with
    | zero => rfl
    | succ k =>
      rw [hexUpTo]
      split
      · rfl
      · rename_i hc
        exact ih _ k ((List.mem_cons.mp h).resolve_left fun he => hc he.symm)

theorem isSome_convertAsciiToInt {n : Nat} :
    (convertAsciiToInt n s).isSome ↔ 2 * n ≤ s.length := by
  induction n, s using convertAsciiToInt.induct with
  | case1 => simp [convertAsciiToInt]
  | case2 n nib1 nib2 s ih =>
    rw [convertAsciiToInt, Option.isSome_map, ih, List.length_cons, List.length_cons]
    omega
  | case3 n s h =>
    match s, h with
    | [], _ => simp [convertAsciiToInt]
    | [_], _ =>
      simp only [convertAsciiToInt, Option.isSome_none, Bool.false_eq_true, List.length_singleton,
        false_iff]
      omega
    | a :: b :: s, h => exact absurd rfl (h a b s)

theorem mem_terminated (s : List Byte) : 0 ∈ s ++ [0] := by simp

theorem notMem_terminated (hs : stop ∉ s) (h : stop ≠ 0) : stop ∉ s ++ [0] := by
  rw [List.mem_append, List.mem_singleton]
  exact not_or.mpr ⟨hs, h⟩

end Loops

/-! ## Packets that are read within their bytes -/

/-- The `M` packet has its separators, and its digits with the NUL are enough for its
length. -/
def MPacketOk (s : List Byte) : Prop :=
  ∃ addr len data, s = addr ++ COMMA :: (len ++ COLON :: data) ∧ COMMA ∉ addr ∧ COLON ∉ len ∧
    2 * (hexValue 0 len).toNat ≤ data.length + 1

/-- The commas of a memory action: behind a `-`, or else behind the first digit. -/
def MemoryOk : List Byte → Prop
  | [] => False
  | ch :: s => if ch = MINUS then 2 ≤ s.count COMMA else COMMA ∈ s

/-- The separators of a payload. -/
def PayloadOk : List Byte → Prop
  | [] => True
  | tag :: s =>
    match payloadTag tag with
    | .E | .D => COLON ∈ s.drop 1
    | .M => MemoryOk s
    | .S => PayloadOk s
    | .R | .X | .other => True

/-- Number and address end with a colon each, and the payload has its separators. -/
def DPPacketOk (s : List Byte) : Prop :=
  ∃ number address payload,
    (if s.head? = some MINUS then s.drop 1 else s) =
      number ++ COLON :: (address ++ COLON :: payload) ∧
    COLON ∉ number ∧ COLON ∉ address ∧ PayloadOk payload

def FramePacketOk : List Byte → Prop
  | [] => True
  | ch :: s => ch = 0x74 → 3 ≤ s.length

/-- A `Q` packet that is long enough for its kind, with its separators. -/
def QPacketOk (s : List Byte) : Prop :=
  match s with
  | ch :: tag :: _ =>
    ch = 0x54 →
      match qtTag tag with
      | .i | .other => True
      | .S => 3 ≤ s.length
      | .D => 4 ≤ s.length ∧ DPPacketOk (s.drop 4)
      | .F => 7 ≤ s.length ∧ FramePacketOk (s.drop 7)
      | .r => 4 ≤ s.length
  | _ => True

section Reads

variable {s : List Byte} {β : Type}

theorem isSome_map_iff {α : Type} {x : Option α} {f : α → β} : (x.map f).isSome ↔ x.isSome := by
  rw [Option.isSome_map]

/-- What is read to the end is put together without reading. -/
theorem isSome_bind_pure {α : Type} {x : Option α} {f : α → β} :
    (x >>= fun r => pure (f r)).isSome ↔ x.isSome := by
  cases x <;> simp

theorem comma_ne_zero : COMMA ≠ 0 := by decide

theorem colon_ne_zero : COLON ≠ 0 := by decide

/-- What follows a loop that looks for its separator only. -/
theorem isSome_hexUntil_bind {stop : Byte} (hstop : stop ≠ 0) (acc : Addr)
    (k : Addr × List Byte → Option β) :
    (hexUntil stop acc (s ++ [0]) >>= k).isSome ↔
      ∃ pre post, s = pre ++ stop :: post ∧ stop ∉ pre ∧
        (k (hexValue acc pre, post ++ [0])).isSome := by
  constructor
  · intro h
    by_cases hm : stop ∈ s
    · obtain ⟨pre, post, rfl, hpre⟩ := List.eq_append_cons_of_mem hm
      rw [List.append_assoc, List.cons_append, hexUntil_append acc hpre] at h
      exact ⟨pre, post, rfl, hpre, h⟩
    · rw [hexUntil_of_notMem acc (notMem_terminated hm hstop)] at h
      cases h
  · rintro ⟨pre, post, rfl, hpre, h⟩
    rw [List.append_assoc, List.cons_append, hexUntil_append acc hpre]
    exact h

theorem decodemPacket_eq :
    decodemPacket s = hexUntil COMMA 0 s >>= fun r => (hexUpTo 0 4 r.2).map (r.1, ·) := by
  rw [decodemPacket, COMMA]
  cases hexUntil 0x2c 0 s <;> rfl

theorem decodeMPacket_eq :
    decodeMPacket s = hexUntil COMMA 0 s >>= fun r => hexUntil COLON 0 r.2 >>= fun q =>
      some (r.1, q.1, q.2) := by
  rw [decodeMPacket, COMMA, COLON]
  cases hexUntil 0x2c 0 s with
  | none => rfl
  | some r =>
    obtain ⟨addr, s⟩ := r
    rw [Option.bind_eq_bind, Option.bind_some]
    dsimp only
    cases hexUntil 0x3a 0 s <;> rfl

theorem isSome_decodemPacket : (decodemPacket (s ++ [0])).isSome ↔ COMMA ∈ s := by
  rw [decodemPacket_eq, isSome_hexUntil_bind comma_ne_zero]
  constructor
  · rintro ⟨pre, post, rfl, -, -⟩
    exact List.mem_append_right _ List.mem_cons_self
  · intro hm
    obtain ⟨pre, post, rfl, hpre⟩ := List.eq_append_cons_of_mem hm
    exact ⟨pre, post, rfl, hpre, isSome_map_iff.mpr (isSome_hexUpTo 0 4 (mem_terminated post))⟩

theorem isSome_decodeMPacketBytes : (decodeMPacketBytes (s ++ [0])).isSome ↔ MPacketOk s := by
  have hlen : ∀ data : List Byte, (data ++ [0]).length = data.length + 1 := fun data => by simp
  rw [decodeMPacketBytes, decodeMPacket_eq]
  simp only [bind_assoc]
  rw [isSome_hexUntil_bind comma_ne_zero]
  constructor
  · rintro ⟨addr, rest, rfl, haddr, h⟩
    rw [isSome_hexUntil_bind colon_ne_zero] at h
    obtain ⟨len, data, rfl, hlen', h⟩ := h
    have hd : (convertAsciiToInt (hexValue 0 len).toNat (data ++ [0])).isSome :=
      isSome_bind_pure.mp h
    rw [isSome_convertAsciiToInt, hlen] at hd
    exact ⟨addr, len, data, rfl, haddr, hlen', hd⟩
  · rintro ⟨addr, len, data, rfl, haddr, hl, h⟩
    refine ⟨addr, len ++ COLON :: data, rfl, haddr, ?_⟩
    rw [isSome_hexUntil_bind colon_ne_zero]
    rw [← hlen, ← isSome_convertAsciiToInt] at h
    exact ⟨len, data, rfl, hl, isSome_bind_pure.mpr h⟩

/-! ## Trace packets -/

/-- What follows a loop that looks for the NUL as well, if it does not fail. -/
theorem isSome_hexBefore_bind_pure {stop : Byte} (acc : Addr) (h : 0 ∈ s)
    (k : Addr × List Byte → β) : (hexBefore stop acc s >>= fun r => pure (k r)).isSome :=
  isSome_bind_pure.mpr (isSome_hexBefore acc h)

theorem drop_terminated (k : Nat) :
    (s ++ [0]).drop k = if k ≤ s.length then s.drop k ++ [0] else [] := by
  split
  · rename_i hk
    exact List.drop_append_of_le_length hk
  · rename_i hk
    exact List.drop_of_length_le (by rw [List.length_append, List.length_singleton]; omega)

/-- What is read from the offset `k` on: the packet has to be as long. -/
theorem isSome_drop_iff {f : List Byte → Option β} (hf : f [] = none) (k : Nat) :
    (f ((s ++ [0]).drop k)).isSome ↔ k ≤ s.length ∧ (f (s.drop k ++ [0])).isSome := by
  rw [drop_terminated]
  by_cases hk : k ≤ s.length
  · rw [if_pos hk, and_iff_right hk]
  · rw [if_neg hk, hf]
    exact iff_of_false Bool.false_ne_true fun h => hk h.1

theorem isSome_decodeStatus : (decodeStatus (s ++ [0])).isSome ↔ COLON ∈ s.drop 1 := by
  rw [decodeStatus, drop_terminated]
  split
  · rw [isSome_hexUntil_bind colon_ne_zero]
    constructor
    · rintro ⟨pre, post, he, -, -⟩
      rw [he]
      exact List.mem_append_right _ List.mem_cons_self
    · intro hm
      obtain ⟨pre, post, he, hpre⟩ := List.eq_append_cons_of_mem hm
      exact ⟨pre, post, he, hpre, isSome_hexBefore_bind_pure 0 (mem_terminated post) _⟩
  · rename_i hk
    have hs : s = [] := List.eq_nil_of_length_eq_zero (by omega)
    simp [hs, hexUntil]

/-- Behind the base register there has to be one more comma. -/
theorem isSome_decodeExtent (h0 : 0 ∉ s) : (decodeExtent (s ++ [0])).isSome ↔ COMMA ∈ s := by
  rw [decodeExtent]
  by_cases hm : COMMA ∈ s
  · obtain ⟨pre, post, rfl, hpre⟩ := List.eq_append_cons_of_mem hm
    have hnul : 0 ∉ pre := fun h => h0 (List.mem_append_left _ h)
    rw [List.append_assoc, List.cons_append, hexBefore_append 0 hpre hnul (.inl rfl)]
    simp only [hm, iff_true]
    exact isSome_hexBefore_bind_pure 0 (mem_terminated post) _
  · rw [hexBefore_append 0 hm h0 (.inr rfl)]
    simp only [hm, iff_false]
    exact Bool.false_ne_true

/-- The base register and where the offset is taken to begin. -/
theorem decodeBaseReg_minus {post pre : List Byte} (h : COMMA ∉ pre) :
    decodeBaseReg (MINUS :: (pre ++ COMMA :: post)) = some (-1, post) := by
  have hskip : skipUntil COMMA (MINUS :: (pre ++ COMMA :: post)) = some post := by
    rw [skipUntil, if_neg (by decide), skipUntil_append h]
  rw [decodeBaseReg, if_pos rfl, hskip]
  rfl

theorem isSome_decodeMemory (h0 : 0 ∉ s) : (decodeMemory (s ++ [0])).isSome ↔ MemoryOk s := by
  cases s with
  | nil => simp [decodeMemory, decodeBaseReg, hexBefore, MemoryOk, MINUS]
  | cons ch s =>
    rw [List.mem_cons, not_or] at h0
    rw [MemoryOk, List.cons_append]
    split
    · rename_i hch
      subst hch
      by_cases hm : COMMA ∈ s
      · obtain ⟨pre, post, rfl, hpre⟩ := List.eq_append_cons_of_mem hm
        have hnul : 0 ∉ post := fun h =>
          h0.2 (List.mem_append_right _ (List.mem_cons_of_mem _ h))
        rw [decodeMemory, List.append_assoc, List.cons_append, decodeBaseReg_minus hpre]
        have hcount : (pre ++ COMMA :: post).count COMMA = post.count COMMA + 1 := by
          rw [List.count_append, List.count_eq_zero.mpr hpre, List.count_cons_self]
          omega
        rw [hcount, Nat.succ_le_succ_iff, Nat.one_le_iff_ne_zero, ← Nat.pos_iff_ne_zero,
          List.count_pos_iff, ← isSome_decodeExtent hnul]
        exact isSome_bind_pure
      · have hskip : skipUntil COMMA (MINUS :: (s ++ [0])) = none := by
          rw [skipUntil, if_neg (by decide)]
          exact skipUntil_of_notMem (notMem_terminated hm (by decide))
        rw [decodeMemory, decodeBaseReg, if_pos rfl, hskip, List.count_eq_zero.mpr hm]
        simp
    · rename_i hch
      rw [decodeMemory, decodeBaseReg, if_neg hch]
      by_cases hm : COMMA ∈ s
      · obtain ⟨pre, post, rfl, hpre⟩ := List.eq_append_cons_of_mem hm
        have hnul : 0 ∉ pre := fun h => h0.2 (List.mem_append_left _ h)
        have hnul' : 0 ∉ COMMA :: post := fun h => h0.2 (List.mem_append_right _ h)
        rw [List.append_assoc, List.cons_append, hexBefore_append 0 hpre hnul (.inl rfl)]
        simp only [hm, iff_true]
        exact isSome_bind_pure.mpr ((isSome_decodeExtent hnul').mpr List.mem_cons_self)
      · rw [hexBefore_append 0 hm h0.2 (.inr rfl)]
        simp only [hm, iff_false]
        exact Bool.false_ne_true

theorem isSome_decodeDPPlayload (h0 : 0 ∉ s) :
    (decodeDPPlayload (s ++ [0])).isSome ↔ PayloadOk s := by
  induction s with
  | nil => exact ⟨fun _ => trivial, fun _ => rfl⟩
  | cons tag s ih =>
    rw [List.mem_cons, not_or] at h0
    rw [List.cons_append, decodeDPPlayload, PayloadOk]
    cases payloadTag tag with
    | E => exact isSome_map_iff.trans isSome_decodeStatus
    | D => exact isSome_map_iff.trans isSome_decodeStatus
    | R => exact iff_true_intro (isSome_map_iff.mpr (isSome_hexBefore 0 (mem_terminated s)))
    | M => exact isSome_map_iff.trans (isSome_decodeMemory h0.2)
    | S => exact isSome_map_iff.trans (ih h0.2)
    | X => exact iff_true_intro rfl
    | other => exact iff_true_intro rfl

theorem isSome_decodeDPPacket (h0 : 0 ∉ s) :
    (decodeDPPacket (s ++ [0])).isSome ↔ DPPacketOk s := by
  have hhead : (if (s ++ [0]).head? = some MINUS then (s ++ [0]).drop 1 else s ++ [0]) =
      (if s.head? = some MINUS then s.drop 1 else s) ++ [0] := by
    cases s with
    | nil => rfl
    | cons c s =>
      by_cases hc : c = MINUS <;> simp [hc]
  have hsub : 0 ∉ (if s.head? = some MINUS then s.drop 1 else s) := by
    split
    · exact fun h => h0 (List.mem_of_mem_drop h)
    · exact h0
  rw [decodeDPPacket, hhead, DPPacketOk]
  generalize (if s.head? = some MINUS then s.drop 1 else s) = r at hsub
  rw [isSome_hexUntil_bind colon_ne_zero]
  constructor
  · rintro ⟨number, rest, rfl, hn, h⟩
    rw [isSome_hexUntil_bind colon_ne_zero] at h
    obtain ⟨address, payload, rfl, ha, h⟩ := h
    have hp : 0 ∉ payload := fun hm => hsub (List.mem_append_right _ (List.mem_cons_of_mem _
      (List.mem_append_right _ (List.mem_cons_of_mem _ hm))))
    exact ⟨number, address, payload, rfl, hn, ha,
      (isSome_decodeDPPlayload hp).mp (isSome_bind_pure.mp h)⟩
  · rintro ⟨number, address, payload, rfl, hn, ha, h⟩
    have hp : 0 ∉ payload := fun hm => hsub (List.mem_append_right _ (List.mem_cons_of_mem _
      (List.mem_append_right _ (List.mem_cons_of_mem _ hm))))
    refine ⟨number, _, rfl, hn, ?_⟩
    rw [isSome_hexUntil_bind colon_ne_zero]
    exact ⟨address, payload, rfl, ha,
      isSome_bind_pure.mpr ((isSome_decodeDPPlayload hp).mpr h)⟩

theorem isSome_decodeFrameRequest :
    (decodeFrameRequest (s ++ [0])).isSome ↔ FramePacketOk s := by
  cases s with
  | nil => exact ⟨fun _ => trivial, fun _ => rfl⟩
  | cons ch s =>
    rw [List.cons_append, decodeFrameRequest, FramePacketOk]
    by_cases hp : ch = 0x70
    · subst hp
      simp
    · rw [if_neg hp]
      by_cases ht : ch = 0x74
      · rw [if_pos ht, ← List.cons_append, isSome_map_iff, isSome_drop_iff rfl,
          forall_prop_of_true ht, and_iff_left (isSome_hexBefore 0 (mem_terminated _)),
          List.length_cons]
        omega
      · rw [if_neg ht]
        simp only [ht, false_imp_iff, iff_true]
        split
        · rfl
        · split
          · rfl
          · exact isSome_map_iff.mpr (isSome_hexBefore 0 (mem_terminated (ch :: s)))

theorem isSome_decodeRoPacket (start stop : Addr) (atStop : Bool) (regions : List (Addr × Addr))
    (h : 0 ∈ s) : (decodeRoPacket start stop atStop regions s).isSome := by
  induction s generalizing start stop atStop regions with
  | nil => cases h
  | cons ch s ih =>
    rw [decodeRoPacket]
    split
    · rfl
    · rename_i hch
      have hs : 0 ∈ s := (List.mem_cons.mp h).resolve_left fun he => hch he.symm
      split
      · exact ih _ _ _ _ hs
      · split
        · exact ih _ _ _ _ hs
        · split
          · exact ih _ _ _ _ hs
          · exact ih _ _ _ _ hs

theorem isSome_readQPacket (h0 : 0 ∉ s) : (readQPacket (s ++ [0])).isSome ↔ QPacketOk s := by
  match s with
  | [] => exact ⟨fun _ => trivial, fun _ => rfl⟩
  | [ch] =>
    refine ⟨fun _ => trivial, fun _ => ?_⟩
    rw [List.singleton_append, readQPacket]
    split <;> rfl
  | ch :: tag :: s =>
    rw [List.cons_append, List.cons_append, readQPacket, QPacketOk]
    by_cases hch : ch = 0x54
    · have hnul : ∀ k, 0 ∉ (ch :: tag :: s).drop k := fun k hm => h0 (List.mem_of_mem_drop hm)
      rw [if_neg (not_not.mpr hch), forall_prop_of_true hch, ← List.cons_append,
        ← List.cons_append]
      cases qtTag tag with
      | i => exact iff_of_true rfl trivial
      | other => exact iff_of_true rfl trivial
      | S =>
        dsimp only
        rw [isSome_map_iff, Option.isSome_iff_ne_none, Ne, List.getElem?_eq_none_iff,
          List.length_append, List.length_singleton]
        omega
      | D =>
        dsimp only
        rw [isSome_map_iff, isSome_drop_iff rfl, isSome_decodeDPPacket (hnul 4)]
      | F =>
        dsimp only
        rw [isSome_map_iff, isSome_drop_iff rfl, isSome_decodeFrameRequest]
      | r =>
        dsimp only
        rw [isSome_map_iff, isSome_drop_iff rfl]
        exact and_iff_left (isSome_decodeRoPacket _ _ _ _ (mem_terminated _))
    · rw [if_pos hch]
      exact iff_of_true rfl fun h => absurd h hch

/-- A packet is read within its bytes exactly if it has the separators that the loops look
for. -/
theorem packets_read_within_iff (s : CString) :
    ((decodemPacket s.bytes).isSome ↔ COMMA ∈ s.chars) ∧
      ((decodeMPacketBytes s.bytes).isSome ↔ MPacketOk s.chars) ∧
      ((readQPacket s.bytes).isSome ↔ QPacketOk s.chars) :=
  ⟨isSome_decodemPacket, isSome_decodeMPacketBytes, isSome_readQPacket s.noNul⟩

end Reads

/-- `m10`, `M10,4` and `QTDP:1` without their separators are read on behind the NUL. -/
theorem packets_read_beyond :
    decodemPacket (CString.bytes ⟨[0x31, 0x30], by decide⟩) = none ∧
      decodeMPacketBytes (CString.bytes ⟨[0x31, 0x30, 0x2c, 0x34], by decide⟩) = none ∧
      readQPacket (CString.bytes ⟨[0x54, 0x44, 0x50, 0x3a, 0x31], by decide⟩) = none := by
  decide

end SkyEye.Gdb
