import SkyEye.Gdb.Server

/-!
# When the command loop stays within its buffers

No length is checked on the way of a packet: `getpkt` writes what comes in, `m` and `M`
move as many bytes as they ask for, and `putpkt` copies any reply into 2000 bytes. The
positions written are within the declared sizes exactly if every section that `getpkt`
reads and every reply is short enough (`session_inBounds_iff`).
-/

namespace SkyEye.Gdb

/-- Every position is within its buffer. -/
def InBounds (ws : List Write) : Prop := ∀ w ∈ ws, w.2 < w.1.size

theorem inBounds_nil : InBounds [] := by simp [InBounds]

theorem inBounds_append {ws ws' : List Write} :
    InBounds (ws ++ ws') ↔ InBounds ws ∧ InBounds ws' := by
  simp only [InBounds, List.mem_append, or_imp, forall_and]

theorem inBounds_positions {b : Buffer} {is : List Nat} :
    InBounds (is.map (b, ·)) ↔ ∀ i ∈ is, i < b.size := by
  simp [InBounds]

theorem forall_range_lt {n k : Nat} : (∀ i ∈ List.range n, i < k) ↔ n ≤ k := by
  simp only [List.mem_range]
  constructor
  · intro h
    by_contra hlt
    exact absurd (h k (by omega)) (Nat.lt_irrefl k)
  · intro h i hi
    omega

theorem inBounds_upTo {b : Buffer} {n : Nat} : InBounds (upTo b n) ↔ n ≤ b.size :=
  inBounds_positions.trans forall_range_lt

/-! ## Receiving -/

/-- Every section that the receiver reads, and what it reads of an unfinished one, has room
in `own_buf`. -/
inductive SectionsShort : List Byte → Prop where
  | no_dollar {s : List Byte} : (∀ b ∈ s, sevenBit b ≠ DOLLAR) → SectionsShort s
  | no_hash {gap body : List Byte} {c : Byte} : (∀ b ∈ gap, sevenBit b ≠ DOLLAR) →
      sevenBit c = DOLLAR → (∀ b ∈ body, sevenBit b ≠ HASH) → body.length ≤ 8000 →
      SectionsShort (gap ++ c :: body)
  | accepted {s gap body tail : List Byte} {c sep : Byte} : Section s gap c body sep tail →
      checks (sum7 body) (readchar tail[0]?) (readchar tail[1]?) = true →
      body.length < 8000 → SectionsShort s
  | refused {s gap body tail : List Byte} {c sep : Byte} : Section s gap c body sep tail →
      checks (sum7 body) (readchar tail[0]?) (readchar tail[1]?) = false →
      body.length < 8000 → SectionsShort (tail.drop 2) → SectionsShort s

theorem positions_lt_of_short {s : List Byte} (h : SectionsShort s) :
    ∀ i ∈ (getpkt s).positions, i < 8000 := by
  induction h with
  | no_dollar h =>
    rw [getpkt_of_no_dollar h]
    exact fun _ hi => absurd hi (List.not_mem_nil)
  | no_hash hg hc hb hlen =>
    rw [(getpkt_of_no_hash hg hc hb).2]
    exact forall_range_lt.mpr hlen
  | accepted h hchk hlen =>
    rw [h.positions, if_pos hchk, List.append_nil]
    exact forall_range_lt.mpr hlen
  | refused h hchk hlen _ ih =>
    rw [h.positions, if_neg (by simp [hchk])]
    simp only [List.mem_append, or_imp, forall_and]
    exact ⟨forall_range_lt.mpr hlen, ih⟩

theorem short_of_positions_lt : ∀ {s : List Byte},
    (∀ i ∈ (getpkt s).positions, i < 8000) → SectionsShort s := by
  intro s hpos
  rcases exists_section s with h | ⟨gap, c, body, rfl, hg, hc, hb⟩ | ⟨gap, c, body, sep, tail, h⟩
  · exact .no_dollar h
  · rw [(getpkt_of_no_hash hg hc hb).2] at hpos
    exact .no_hash hg hc hb (forall_range_lt.mp hpos)
  · rw [h.positions] at hpos
    simp only [List.mem_append, or_imp, forall_and] at hpos
    have hlen := forall_range_lt.mp hpos.1
    by_cases hchk : checks (sum7 body) (readchar tail[0]?) (readchar tail[1]?) = true
    · exact .accepted h hchk hlen
    · have hlt := h.drop_lt
      rw [if_neg hchk] at hpos
      exact .refused h (by simpa using hchk) hlen (short_of_positions_lt hpos.2)
termination_by s => s.length

theorem getpkt_inBounds_iff {s : List Byte} :
    InBounds ((getpkt s).positions.map (.ownBuf, ·)) ↔ SectionsShort s :=
  inBounds_positions.trans ⟨short_of_positions_lt, positions_lt_of_short⟩

/-! ## Texts -/

theorem tohex_ne_zero : ∀ n : Fin 16, tohex n ≠ 0 := by decide

theorem tohex_ne_zero_of_lt {n : Nat} (h : n < 16) : tohex n ≠ 0 := tohex_ne_zero ⟨n, h⟩

theorem convertIntToAscii_length (bytes : List Byte) :
    (convertIntToAscii bytes).length = 2 * bytes.length := by
  induction bytes with
  | nil => rfl
  | cons b bytes ih =>
    rw [convertIntToAscii, List.flatMap_cons, List.length_append, List.length_cons]
    rw [convertIntToAscii] at ih
    rw [ih]
    simp only [List.length_cons, List.length_nil]
    omega

theorem convertIntToAscii_ne_zero {bytes : List Byte} :
    ∀ b ∈ convertIntToAscii bytes, b ≠ 0 := by
  intro b hb
  obtain ⟨x, -, hx⟩ := List.mem_flatMap.mp hb
  have hlt := x.isLt
  rcases List.mem_pair.mp hx with rfl | rfl
  · exact tohex_ne_zero_of_lt (by omega)
  · exact tohex_ne_zero_of_lt (by omega)

theorem printHex_length_le : ∀ k n : Nat, (printHex k n).length ≤ k
  | 0, _ => Nat.le_refl 0
  | k + 1, n => by
    have := printHex_length_le k (n / 16)
    rw [printHex]
    split
    · simp
    · simpa using this

theorem printHex_ne_zero : ∀ k n : Nat, ∀ b ∈ printHex k n, b ≠ 0
  | 0, _, _, hb => absurd hb (List.not_mem_nil)
  | k + 1, n, b, hb => by
    rw [printHex] at hb
    split at hb
    · rename_i hn
      obtain rfl := List.mem_singleton.mp hb
      exact tohex_ne_zero_of_lt hn
    · rcases List.mem_append.mp hb with hb | hb
      · exact printHex_ne_zero k _ b hb
      · obtain rfl := List.mem_singleton.mp hb
        exact tohex_ne_zero_of_lt (Nat.mod_lt _ (by omega))

theorem frameText_ne_zero {a b : Addr} : ∀ x ∈ frameText a b, x ≠ 0 := by
  intro x hx
  simp only [frameText, List.cons_append, List.mem_cons, List.mem_append] at hx
  rcases hx with rfl | hx | rfl | hx
  · decide
  · exact printHex_ne_zero 8 _ x hx
  · decide
  · exact printHex_ne_zero 8 _ x hx

theorem frameText_length_le (a b : Addr) : (frameText a b).length ≤ 18 := by
  have ha := printHex_length_le 8 a.toNat
  have hb := printHex_length_le 8 b.toNat
  simp only [frameText, List.cons_append, List.length_cons, List.length_append]
  omega

/-! ## Replies -/

theorem cstring_text {text rest : List Byte} (h : ∀ b ∈ text, b ≠ 0) :
    cstring (text ++ 0 :: rest) = text := by
  rw [cstring, List.takeWhile_append_of_pos (by simpa using h)]
  simp

theorem putpkt_inBounds_iff {buf : List Byte} :
    InBounds (putpktWrites buf) ↔ buf.length ≤ 1995 := by
  rw [putpktWrites, inBounds_upTo]
  simp only [frameOf, Buffer.size, List.length_append, List.length_cons, List.length_nil]
  omega

/-- What is left in `own_buf` is sent. -/
theorem finish_unchanged {own : List Byte} :
    InBounds (finish ([], some own)) ↔ (cstring own).length ≤ 1995 :=
  putpkt_inBounds_iff

theorem finish_ended {ws : List Write} : InBounds (finish (ws, none)) ↔ InBounds ws := by
  simp [finish]

/-- A reply text needs room for five more bytes in `buf2`. -/
theorem finish_answer {own text : List Byte} (h : ∀ b ∈ text, b ≠ 0) :
    InBounds (finish (answer own text)) ↔ text.length ≤ 1995 := by
  have hfin : finish (answer own text) =
      upTo .ownBuf (text.length + 1) ++ putpktWrites text := by
    simp only [finish, answer, Option.map_some, Option.getD_some, cstring_text h]
  rw [hfin, inBounds_append, inBounds_upTo, putpkt_inBounds_iff]
  simp only [Buffer.size]
  omega

theorem finish_short {own text : List Byte} (h : ∀ b ∈ text, b ≠ 0) (hlen : text.length ≤ 18) :
    InBounds (finish (answer own text)) :=
  (finish_answer h).mpr (by omega)

/-- Two digits for a byte. -/
theorem finish_convert {own bytes : List Byte} :
    InBounds (finish (answer own (convertIntToAscii bytes))) ↔ 2 * bytes.length ≤ 1995 := by
  rw [finish_answer convertIntToAscii_ne_zero, convertIntToAscii_length]

theorem finish_memBuf {n : Nat} {a : Handled} :
    InBounds (finish (upTo .memBuf n ++ a.1, a.2)) ↔ n ≤ 8000 ∧ InBounds (finish a) := by
  rw [finish, List.append_assoc, inBounds_append, inBounds_upTo]
  rfl

/-! ## The commands -/

/-- The register part of a `T` reply. -/
def Env.regsLength (env : Env) : Nat :=
  12 + 2 * (env.registerRawSize env.pcRegnum + env.registerRawSize env.fpRegnum +
    env.registerRawSize env.spRegnum)

theorem outreg_length (env : Env) (regno : Fin 256) :
    (outreg env regno).length = 4 + 2 * env.registerRawSize regno := by
  simp only [outreg, List.cons_append, List.length_cons, List.length_append,
    convertIntToAscii_length, List.length_map, List.length_range, List.length_nil]
  omega

theorem outreg_ne_zero {env : Env} {regno : Fin 256} : ∀ b ∈ outreg env regno, b ≠ 0 := by
  intro b hb
  have hlt := regno.isLt
  simp only [outreg, List.cons_append, List.mem_cons, List.mem_append, List.not_mem_nil,
    or_false] at hb
  rcases hb with rfl | rfl | rfl | hb | rfl
  · exact tohex_ne_zero_of_lt (by omega)
  · exact tohex_ne_zero_of_lt (by omega)
  · decide
  · exact convertIntToAscii_ne_zero b hb
  · decide

/-- A resume reply has room unless its registers are too long. -/
theorem finish_resume {env : Env} {own : List Byte} (status signal : Byte) :
    InBounds (finish (answer own (resumeText env status signal))) ↔
      (Char.ofNat status.toNat = 'T' → 3 + env.regsLength ≤ 1995) := by
  have hsig := signal.isLt
  have hhex : ∀ b ∈ [tohex (signal.toNat / 16), tohex (signal.toNat % 16)], b ≠ 0 := by
    intro b hb
    rcases List.mem_pair.mp hb with rfl | rfl
    · exact tohex_ne_zero_of_lt (by omega)
    · exact tohex_ne_zero_of_lt (by omega)
  by_cases hT : Char.ofNat status.toNat = 'T'
  · have hne : status ≠ 0 := by
      rintro rfl
      exact absurd hT (by decide)
    have htext : ∀ b ∈ resumeText env status signal, b ≠ 0 := by
      intro b hb
      simp only [resumeText, if_pos hT, List.mem_cons, List.mem_append] at hb
      rcases hb with rfl | rfl | rfl | (hb | hb) | hb
      · exact hne
      · exact hhex _ (by simp)
      · exact hhex _ (by simp)
      · exact outreg_ne_zero b hb
      · exact outreg_ne_zero b hb
      · exact outreg_ne_zero b hb
    rw [finish_answer htext]
    have hlen : (resumeText env status signal).length = 3 + env.regsLength := by
      simp only [resumeText, if_pos hT, List.length_cons, List.length_append, outreg_length,
        Env.regsLength]
      omega
    rw [hlen]
    exact ⟨fun h _ => h, fun h => h hT⟩
  · have htext : resumeText env status signal =
        [status, tohex (signal.toNat / 16), tohex (signal.toNat % 16)] := by
      rw [resumeText, if_neg hT]
    refine iff_of_true ?_ fun h => absurd h hT
    rw [htext]
    by_cases h0 : status = 0
    · subst h0
      rw [finish, inBounds_append]
      refine ⟨inBounds_upTo.mpr (by simp [Buffer.size]), ?_⟩
      simp only [answer, Option.map_some, Option.getD_some]
      exact putpkt_inBounds_iff.mpr (by simp [cstring])
    · refine finish_short ?_ (by simp)
      intro b hb
      rcases List.mem_cons.mp hb with rfl | hb
      · exact h0
      · exact hhex b hb

/-- `QTFrame` packets that are answered with themselves. -/
def echoes (own : List Byte) : Prop :=
  charAt own 1 = 'T' ∧ charAt own 2 = 'F' ∧
    (charAt own 8 = 'p' ∨ charAt own 8 = 'r' ∨ charAt own 8 = 'o')

/-- What the packet asks for has room in the buffers. -/
def PacketFits (env : Env) (own : List Byte) : Prop :=
  match charAt own 0 with
  | 'd' => (cstring own).length ≤ 1995
  | 'g' => 2 * env.registers.length ≤ 1995
  | 'm' => ∀ addr len, decodemPacket (own.drop 1) = some (addr, len) →
      (env.readMemory addr len).1 ≤ 8000 ∧
        ∀ bytes ∈ (env.readMemory addr len).2, 2 * bytes.length ≤ 1995
  | 'M' => ∀ addr len digits, decodeMPacket (own.drop 1) = some (addr, len, digits) →
      min len.toNat (digits.length / 2) ≤ 8000
  | 'Q' => echoes own → (cstring own).length ≤ 1995
  | 'c' | 's' => Char.ofNat env.status.toNat = 'T' → 3 + env.regsLength ≤ 1995
  | _ => True

theorem finish_frame {env : Env} {own : List Byte} :
    InBounds (finish (decodeFramePacket env own)) ↔
      ((charAt own 8 = 'p' ∨ charAt own 8 = 'r' ∨ charAt own 8 = 'o') →
        (cstring own).length ≤ 1995) := by
  have hframe : ∀ a b : Addr, InBounds (finish (answer own (frameText a b))) := fun a b =>
    finish_short frameText_ne_zero (frameText_length_le a b)
  have hno : InBounds (finish (answer own noFrameText)) := finish_short (by decide) (by decide)
  have hok : InBounds (finish (answer own okText)) := finish_short (by decide) (by decide)
  unfold decodeFramePacket
  split
  · rename_i h
    simp [h, finish_unchanged]
  · rename_i h
    simp [h, finish_unchanged]
  · rename_i h
    simp [h, finish_unchanged]
  · rename_i h
    refine iff_of_true ?_ fun hc => absurd hc (by rw [h]; decide)
    cases frameNumberAt own 12 with
    | none => exact inBounds_nil
    | some n =>
      dsimp only
      cases (env.ice.selectFrameBufferByTpn n).1 with
      | none => exact hno
      | some a => exact hframe _ _
  · rename_i hp hr ho _
    refine iff_of_true ?_ fun hc => (hc.elim hp fun hc => hc.elim hr ho).elim
    cases frameNumberAt own 8 with
    | none => exact inBounds_nil
    | some n =>
      dsimp only
      split
      · exact hok
      · cases (env.ice.selectFrameBufferByFn n).1 with
        | none => exact hno
        | some a => exact hframe _ _

theorem finish_decodeQ {env : Env} {own : List Byte} :
    InBounds (finish (decodeQPacket env own)) ↔ (echoes own → (cstring own).length ≤ 1995) := by
  have hok : InBounds (finish (answer own okText)) := finish_short (by decide) (by decide)
  have hempty : InBounds (finish (answer own [])) := finish_short (by simp) (by simp)
  unfold decodeQPacket echoes
  split
  · rename_i hT
    exact iff_of_true hempty fun h => absurd h.1 hT
  · rename_i hT
    simp only [ne_eq, not_not] at hT
    by_cases hF : charAt own 2 = 'F'
    · simp only [hF, hT, true_and]
      exact finish_frame
    · refine iff_of_true ?_ fun h => absurd h.2.1 hF
      split
      · exact hok
      · exact hok
      · exact hok
      · split
        · exact hok
        · exact hempty
      · contradiction
      · exact hempty

/-- A packet stays within the buffers exactly if what it asks for has room. -/
theorem finish_dispatch {env : Env} {own : List Byte} :
    InBounds (finish (dispatch env own)) ↔ PacketFits env own := by
  have hok : InBounds (finish (answer own okText)) := finish_short (by decide) (by decide)
  have henn : InBounds (finish (answer own ennText)) := finish_short (by decide) (by decide)
  have hif (c : Bool) : InBounds (finish (answer own (if c then okText else ennText))) := by
    cases c
    · exact henn
    · exact hok
  unfold dispatch PacketFits
  generalize charAt own 0 = c
  split
  · exact finish_unchanged
  · exact iff_of_true ((finish_resume _ _).mpr fun h => absurd h (by decide)) trivial
  · exact finish_convert
  · exact iff_of_true hok trivial
  · cases hd : decodemPacket (own.drop 1) with
    | none => exact iff_of_true inBounds_nil (by simp)
    | some p =>
      obtain ⟨addr, len⟩ := p
      have hone : (∀ a l, some (addr, len) = some (a, l) →
          (env.readMemory a l).1 ≤ 8000 ∧
            ∀ bytes ∈ (env.readMemory a l).2, 2 * bytes.length ≤ 1995) ↔
          ((env.readMemory addr len).1 ≤ 8000 ∧
            ∀ bytes ∈ (env.readMemory addr len).2, 2 * bytes.length ≤ 1995) := by
        constructor
        · exact fun h => h addr len rfl
        · rintro h a l heq
          obtain ⟨rfl, rfl⟩ := Prod.mk.inj (Option.some.inj heq)
          exact h
      refine Iff.trans ?_ hone.symm
      dsimp only
      rw [finish_memBuf]
      refine and_congr_right fun _ => ?_
      cases (env.readMemory addr len).2 with
      | none => simpa using henn
      | some bytes =>
        simp only [Option.mem_def, Option.some.injEq, forall_eq']
        exact finish_convert
  · cases hd : decodeMPacket (own.drop 1) with
    | none => exact iff_of_true inBounds_nil (by simp)
    | some p =>
      obtain ⟨addr, len, digits⟩ := p
      have hone : (∀ a l d, some (addr, len, digits) = some (a, l, d) →
          min l.toNat (d.length / 2) ≤ 8000) ↔ min len.toNat (digits.length / 2) ≤ 8000 := by
        constructor
        · exact fun h => h addr len digits rfl
        · rintro h a l d heq
          simp only [Option.some.injEq, Prod.mk.injEq] at heq
          obtain ⟨rfl, rfl, rfl⟩ := heq
          exact h
      refine Iff.trans ?_ hone.symm
      dsimp only
      split
      · rw [finish_ended, inBounds_upTo]
        simp only [Buffer.size]
        omega
      · rw [finish_memBuf, and_iff_left (hif _)]
        omega
  · exact finish_decodeQ
  · exact finish_resume _ _
  · exact finish_resume _ _
  · exact iff_of_true (hif _) trivial
  · exact iff_of_true (hif _) trivial
  · refine iff_of_true (finish_short (by simp) (by simp)) ?_
    -- no other command has a condition
    split <;> trivial

/-! ## The loop -/

/-- The input's sections and the packet found in it have room. -/
def TurnFits (env : Env) (own s : List Byte) : Prop :=
  SectionsShort s ∧ ∀ p rest, (getpkt s).packet = some (p, rest) → p ≠ [] →
    PacketFits env (received own (getpkt s))

/-- So have those of every turn, as long as the loop goes on. -/
def SessionFits (own : List Byte) : List (Env × List Byte) → Prop
  | [] => True
  | (env, s) :: turns =>
    TurnFits env own s ∧ ∀ own' ∈ (turn env own s).2, SessionFits own' turns

theorem turn_inBounds_iff {env : Env} {own s : List Byte} :
    InBounds (turn env own s).1 ↔ TurnFits env own s := by
  rw [turn, inBounds_append, getpkt_inBounds_iff, TurnFits]
  refine and_congr_right fun _ => ?_
  cases (getpkt s).packet with
  | none => exact iff_of_true inBounds_nil (by simp)
  | some r =>
    obtain ⟨p, rest⟩ := r
    cases p with
    | nil => exact iff_of_true inBounds_nil (by simp)
    | cons b p =>
      refine finish_dispatch.trans ⟨fun h _ _ _ _ => h, fun h => h _ _ rfl (by simp)⟩

/-- The command loop stays within its buffers exactly if what it reads and what is asked of
it is short enough. -/
theorem session_inBounds_iff : ∀ (turns : List (Env × List Byte)) (own : List Byte),
    InBounds (session own turns) ↔ SessionFits own turns
  | [], _ => iff_of_true inBounds_nil trivial
  | (env, s) :: turns, own => by
    rw [session, inBounds_append, turn_inBounds_iff, SessionFits]
    refine and_congr_right fun _ => ?_
    cases (turn env own s).2 with
    | none => exact iff_of_true inBounds_nil (by simp)
    | some own' => simpa using session_inBounds_iff turns own'

/-- A target with memory everywhere, and nothing traced. -/
def plainEnv : Env where
  target :=
    { readByte := fun _ => some 0
      image := []
      registerByte := fun r => (4 * r).toNat
      bigEndian := false }
  ice :=
    { tpsStatus := .stopped
      tps := fun _ => ⟨0, .nil, .disabled, 0, 0⟩
      fb := []
      selectedFb := none }
  roRegions := []
  registers := List.replicate 168 0
  junk := 0
  registerRawSize _ := 4
  pcRegnum := 15
  fpRegnum := 11
  spRegnum := 13
  status := 0
  signal := 0
  simWrite _ _ := true
  breakpoint _ := true

/-- `$m0,3e6#97` asks for 998 bytes; the last of the 1996 digits, the checksum and the zero
do not fit `buf2`. -/
theorem m_packet_overruns :
    ¬ ∀ own turns, 8000 ≤ own.length → InBounds (session own turns) := by
  intro h
  have hown : 8000 ≤ ([0, 0, 0, 0, 0, 0, 0] ++ List.replicate 7993 (0 : Byte)).length := by
    rw [List.length_append, List.length_replicate]
    decide
  have hfits := turn_inBounds_iff.mp (inBounds_append.mp
    (h _ [(plainEnv, [0x24, 0x6d, 0x30, 0x2c, 0x33, 0x65, 0x36, 0x23, 0x39, 0x37])] hown)).1
  generalize List.replicate 7993 (0 : Byte) = rest at hfits
  have hpkt : (getpkt [0x24, 0x6d, 0x30, 0x2c, 0x33, 0x65, 0x36, 0x23, 0x39, 0x37]).packet =
      some ([0x6d, 0x30, 0x2c, 0x33, 0x65, 0x36], []) := by decide
  have hpacket := hfits.2 _ _ hpkt (by simp)
  have hmem : (plainEnv.readMemory 0 998).2 = some (plainEnv.target.readBytes 0 998) := by
    have hlen : (plainEnv.target.readBytes 0 998).length = 998 :=
      plainEnv.target.readBytes_length_of_readable fun _ _ => by simp [plainEnv]
    have hsim : plainEnv.target.simRead 0 998 = (plainEnv.target.readBytes 0 998, 998) := by
      have hnat : (998 : Int).toNat = 998 := rfl
      rw [Target.simRead, hnat, if_pos hlen]
    have hint : (998 : Addr).toInt = 998 := by decide
    rw [Env.readMemory, if_neg (by simp [plainEnv]), hint, hsim]
    rfl
  have := (hpacket 0 998 rfl).2 _ hmem
  rw [Target.readBytes_length_of_readable _ fun _ _ => by simp [plainEnv]] at this
  omega

end SkyEye.Gdb
