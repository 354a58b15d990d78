import SkyEye.Gdb.Packet

/-!
# The receiver and the frames of the protocol

A frame is `$`, a payload without `$` and `#`, `#` and two hex digits of the payload's
sum; a receiver should return the first frame of its input (`FirstFrame`). `getpkt` reads
sections instead: from a `$` to the next `#` and the two characters after it, whatever
they are. It returns the first frame exactly when every section it reads is a frame or
else fails its checksum test with no frame inside it (`accepts_of_inStep`).
-/

namespace SkyEye.Gdb

/-- A hex digit. -/
def IsHexDigit (b : Byte) : Prop :=
  (48 ≤ b.toNat ∧ b.toNat ≤ 57) ∨ (97 ≤ b.toNat ∧ b.toNat ≤ 102) ∨
    (65 ≤ b.toNat ∧ b.toNat ≤ 70)

instance (b : Byte) : Decidable (IsHexDigit b) := by unfold IsHexDigit; infer_instance

/-- The 8-bit sum of a payload. -/
def sum8 (p : List Byte) : Byte := p.foldl (· + ·) 0

/-- `s` begins with the frame of payload `p`, and `rest` comes after it. -/
structure Frame (s p rest : List Byte) (h1 h2 : Byte) : Prop where
  split : s = DOLLAR :: (p ++ HASH :: h1 :: h2 :: rest)
  plain : ∀ b ∈ p, b ≠ DOLLAR ∧ b ≠ HASH
  hex1 : IsHexDigit h1
  hex2 : IsHexDigit h2
  sum : (sum8 p).toNat = 16 * fromhex h1.toNat + fromhex h2.toNat

def FrameAt (s p rest : List Byte) : Prop := ∃ h1 h2, Frame s p rest h1 h2

/-- The first frame in `s` has payload `p`, and `rest` comes after it. -/
inductive FirstFrame : List Byte → List Byte → List Byte → Prop where
  | here {s p rest : List Byte} : FrameAt s p rest → FirstFrame s p rest
  | later {b : Byte} {s p rest : List Byte} : (∀ p r, ¬ FrameAt (b :: s) p r) →
      FirstFrame s p rest → FirstFrame (b :: s) p rest

/-- `getpkt` returns the first frame of its input, and nothing if there is none. -/
def Accepts (s : List Byte) : Prop :=
  ∀ p rest, (getpkt s).packet = some (p, rest) ↔ FirstFrame s p rest

/-! ## First frames -/

theorem append_hash_inj : ∀ {p p' x x' : List Byte}, (∀ b ∈ p, b ≠ HASH) →
    (∀ b ∈ p', b ≠ HASH) → p ++ HASH :: x = p' ++ HASH :: x' → p = p' ∧ x = x'
  | [], [], x, x', _, _, h => ⟨rfl, (List.cons.inj h).2⟩
  | [], b :: p', x, x', _, hp', h =>
    absurd (List.cons.inj h).1.symm (hp' b List.mem_cons_self)
  | b :: p, [], x, x', hp, _, h => absurd (List.cons.inj h).1 (hp b List.mem_cons_self)
  | b :: p, b' :: p', x, x', hp, hp', h => by
    obtain ⟨rfl, hrest⟩ := List.cons.inj h
    obtain ⟨rfl, hx⟩ := append_hash_inj (fun y hy => hp y (List.mem_cons_of_mem b hy))
      (fun y hy => hp' y (List.mem_cons_of_mem b hy)) hrest
    exact ⟨rfl, hx⟩

theorem FrameAt.unique {s p p' r r' : List Byte} (h : FrameAt s p r) (h' : FrameAt s p' r') :
    p = p' ∧ r = r' := by
  obtain ⟨h1, h2, h⟩ := h
  obtain ⟨h1', h2', h'⟩ := h'
  have heq := (List.cons.inj (h.split.symm.trans h'.split)).2
  obtain ⟨rfl, hx⟩ := append_hash_inj (fun b hb => (h.plain b hb).2)
    (fun b hb => (h'.plain b hb).2) heq
  simp only [List.cons.injEq] at hx
  exact ⟨rfl, hx.2.2⟩

theorem FrameAt.length {s p r : List Byte} (h : FrameAt s p r) :
    s.length = p.length + r.length + 4 := by
  obtain ⟨h1, h2, h⟩ := h
  rw [h.split]
  simp only [List.length_cons, List.length_append]
  omega

theorem FirstFrame.unique {s p p' r r' : List Byte} (h : FirstFrame s p r)
    (h' : FirstFrame s p' r') : p = p' ∧ r = r' := by
  induction h with
  | here hf =>
    cases h' with
    | here hf' => exact hf.unique hf'
    | later hno _ => exact absurd hf (hno _ _)
  | later hno _ ih =>
    cases h' with
    | here hf' => exact absurd hf' (hno _ _)
    | later _ h' => exact ih h'

theorem FirstFrame.at_suffix {s p r : List Byte} (h : FirstFrame s p r) :
    ∃ before t, s = before ++ t ∧ FrameAt t p r := by
  induction h with
  | here hf => exact ⟨[], _, rfl, hf⟩
  | later _ _ ih =>
    obtain ⟨before, t, rfl, hf⟩ := ih
    exact ⟨_ :: before, t, rfl, hf⟩

/-- No frame starts within `sec`, with `rest` after it. -/
def NoFrameIn : List Byte → List Byte → Prop
  | [], _ => True
  | b :: sec, rest => (∀ p r, ¬ FrameAt (b :: (sec ++ rest)) p r) ∧ NoFrameIn sec rest

theorem NoFrameIn.firstFrame_iff {rest p r : List Byte} : ∀ {sec : List Byte},
    NoFrameIn sec rest → (FirstFrame (sec ++ rest) p r ↔ FirstFrame rest p r)
  | [], _ => Iff.rfl
  | b :: sec, h => by
    rw [← h.2.firstFrame_iff]
    constructor
    · intro hf
      cases hf with
      | here hf => exact absurd hf (h.1 _ _)
      | later _ hf => exact hf
    · exact .later h.1

/-- Otherwise the first frame starts within `sec`. -/
theorem exists_firstFrame {rest : List Byte} : ∀ {sec : List Byte}, ¬ NoFrameIn sec rest →
    ∃ p r, FirstFrame (sec ++ rest) p r ∧ rest.length < p.length + r.length + 4
  | [], h => absurd trivial h
  | b :: sec, h => by
    by_cases hf : ∃ p r, FrameAt (b :: (sec ++ rest)) p r
    · obtain ⟨p, r, hf⟩ := hf
      have hlen := hf.length
      simp only [List.length_cons, List.length_append] at hlen
      exact ⟨p, r, .here hf, by omega⟩
    · have hno : ∀ p r, ¬ FrameAt (b :: (sec ++ rest)) p r := fun p r h => hf ⟨p, r, h⟩
      obtain ⟨p, r, hfirst, hlen⟩ := exists_firstFrame (fun hn => h ⟨hno, hn⟩)
      exact ⟨p, r, .later hno hfirst, hlen⟩

theorem noFrameIn_of_no_dollar {rest : List Byte} : ∀ {sec : List Byte},
    (∀ b ∈ sec, b ≠ DOLLAR) → NoFrameIn sec rest
  | [], _ => trivial
  | b :: _, h =>
    ⟨fun _ _ ⟨_, _, hf⟩ => h b List.mem_cons_self (List.cons.inj hf.split).1,
      noFrameIn_of_no_dollar fun x hx => h x (List.mem_cons_of_mem b hx)⟩

theorem noFrameIn_of_no_hash : ∀ {sec : List Byte}, (∀ b ∈ sec, b ≠ HASH) → NoFrameIn sec []
  | [], _ => trivial
  | b :: sec, h => by
    refine ⟨fun p r ⟨h1, h2, hf⟩ => h HASH ?_ rfl,
      noFrameIn_of_no_hash fun x hx => h x (List.mem_cons_of_mem b hx)⟩
    have hmem : HASH ∈ b :: (sec ++ []) := by
      rw [hf.split]
      simp
    simpa using hmem

theorem not_firstFrame_nil {p r : List Byte} : ¬ FirstFrame [] p r := by
  rintro (⟨_, _, hf⟩ | _)
  exact absurd hf.split (by simp)

/-! ## Sections and frames -/

/-- Every section that the receiver reads is a frame of seven-bit characters, or fails
its checksum test and has no frame that starts within it. -/
inductive InStep : List Byte → Prop where
  | no_dollar {s : List Byte} : (∀ b ∈ s, sevenBit b ≠ DOLLAR) → InStep s
  | no_hash {gap body : List Byte} {c : Byte} : (∀ b ∈ gap, sevenBit b ≠ DOLLAR) →
      sevenBit c = DOLLAR → (∀ b ∈ body, sevenBit b ≠ HASH) → InStep (gap ++ c :: body)
  | frame {s gap body tail : List Byte} {c sep : Byte} : Section s gap c body sep tail →
      FrameAt (c :: (body ++ sep :: tail)) body (tail.drop 2) →
      (∀ b ∈ body, b.toNat < 0x80) → InStep s
  | bad {s gap body tail : List Byte} {c sep : Byte} : Section s gap c body sep tail →
      checks (sum7 body) (readchar tail[0]?) (readchar tail[1]?) = false →
      NoFrameIn (c :: (body ++ sep :: tail.take 2)) (tail.drop 2) →
      InStep (tail.drop 2) → InStep s

theorem sevenBit_eq_iff : ∀ b : Byte, sevenBit b = b ↔ b.toNat < 0x80 := by decide

theorem sevenBit_of_hex : ∀ b : Byte, IsHexDigit b → sevenBit b = b := by decide

theorem ne_of_sevenBit_ne {b c : Byte} (hc : sevenBit c = c) (h : sevenBit b ≠ c) : b ≠ c := by
  rintro rfl
  exact h hc

theorem map_sevenBit {body : List Byte} (h : ∀ b ∈ body, b.toNat < 0x80) :
    body.map sevenBit = body :=
  (List.map_congr_left fun b hb => (sevenBit_eq_iff b).mpr (h b hb)).trans (List.map_id body)

/-- The digits of a frame pass the receiver's test. -/
theorem Frame.checks {s p rest : List Byte} {h1 h2 : Byte} (h : Frame s p rest h1 h2) :
    Gdb.checks (sum8 p) (readchar (some h1)) (readchar (some h2)) = true := by
  simp only [Gdb.checks, readchar, sevenBit_of_hex h1 h.hex1, sevenBit_of_hex h2 h.hex2,
    beq_iff_eq, h.sum, Nat.shiftLeft_eq]
  omega

/-- A section in pieces: what comes before the check digits, the digits, the rest. -/
theorem Section.eq_append {s gap : List Byte} {c : Byte} {body : List Byte} {sep : Byte}
    {tail : List Byte} (h : Section s gap c body sep tail) :
    s = gap ++ (c :: (body ++ sep :: tail.take 2) ++ tail.drop 2) := by
  conv_lhs => rw [h.split, ← List.take_append_drop 2 tail]
  simp

theorem Section.gap_no_frame {s gap : List Byte} {c : Byte} {body : List Byte} {sep : Byte}
    {tail rest : List Byte} (h : Section s gap c body sep tail) : NoFrameIn gap rest :=
  noFrameIn_of_no_dollar fun b hb => ne_of_sevenBit_ne (by decide) (h.gap b hb)

/-- Past a section without frames the first frame is that of the rest. -/
theorem Section.firstFrame_iff {s gap : List Byte} {c : Byte} {body : List Byte} {sep : Byte}
    {tail : List Byte} (h : Section s gap c body sep tail)
    (hno : NoFrameIn (c :: (body ++ sep :: tail.take 2)) (tail.drop 2)) {p r : List Byte} :
    FirstFrame s p r ↔ FirstFrame (tail.drop 2) p r := by
  rw [h.eq_append, h.gap_no_frame.firstFrame_iff, hno.firstFrame_iff]

theorem not_accepted {s : List Byte} (hg : (getpkt s).packet = none)
    (hf : ∀ p r, ¬ FirstFrame s p r) : Accepts s := by
  intro p r
  rw [hg]
  simpa using hf p r

theorem accepts_of_inStep {s : List Byte} (h : InStep s) : Accepts s := by
  induction h with
  | no_dollar h =>
    refine not_accepted (by rw [getpkt_of_no_dollar h]; rfl) fun p r hf => ?_
    have hno : NoFrameIn _ [] := noFrameIn_of_no_dollar
      fun b hb => ne_of_sevenBit_ne (by decide) (h b hb)
    exact not_firstFrame_nil (hno.firstFrame_iff.mp (by simpa using hf))
  | @no_hash gap body c hg hc hb =>
    refine not_accepted (getpkt_of_no_hash hg hc hb).1 fun p r hf => ?_
    have hgap : NoFrameIn _ (c :: body) := noFrameIn_of_no_dollar
      fun b hb => ne_of_sevenBit_ne (by decide) (hg b hb)
    have hbody : NoFrameIn (c :: body) [] := by
      refine noFrameIn_of_no_hash fun b hmem => ?_
      rcases List.mem_cons.mp hmem with rfl | hmem
      · rintro rfl
        exact absurd hc (by decide)
      · exact ne_of_sevenBit_ne (by decide) (hb b hmem)
    have := hgap.firstFrame_iff.mp hf
    exact not_firstFrame_nil (hbody.firstFrame_iff.mp (by simpa using this))
  | @frame s gap body tail c sep h hf h7 =>
    have hpkt : (getpkt s).packet = some (body, tail.drop 2) := by
      obtain ⟨h1, h2, hf⟩ := hf
      have hsplit := hf.split
      simp only [List.cons.injEq, List.append_cancel_left_eq] at hsplit
      have hchk := hf.checks
      have hsum : sum7 body = sum8 body := by rw [sum7, map_sevenBit h7, sum8]
      rw [h.packet, hsum, map_sevenBit h7, hsplit.2.2]
      simp only [List.getElem?_cons_zero, List.getElem?_cons_succ]
      rw [if_pos hchk]
    have hfirst : FirstFrame s body (tail.drop 2) := by
      rw [h.split, h.gap_no_frame.firstFrame_iff]
      exact .here hf
    intro p r
    rw [hpkt]
    constructor
    · intro heq
      obtain ⟨rfl, rfl⟩ : body = p ∧ tail.drop 2 = r := by simpa using heq
      exact hfirst
    · intro hf'
      obtain ⟨rfl, rfl⟩ := hfirst.unique hf'
      rfl
  | @bad s gap body tail c sep h hchk hno _ ih =>
    intro p r
    rw [h.firstFrame_iff hno, ← ih p r, h.packet, if_neg (by simp [hchk])]

/-- A payload of length `p` takes four more characters, but for those missing at the end
of input. -/
theorem getpkt_length {s p r : List Byte} (h : (getpkt s).packet = some (p, r)) :
    p.length + r.length + 4 ≤ s.length ∨
      r = [] ∧ ∃ x m, sevenBit m = HASH ∧ (s = x ++ [m] ∨ ∃ d, s = x ++ [m, d]) := by
  obtain ⟨before, body, sep, tail, rfl, hne, rfl, rfl, hsep⟩ := getpkt_source h
  match tail with
  | [] => exact .inr ⟨rfl, before ++ body, sep, hsep, .inl (by simp)⟩
  | [d] => exact .inr ⟨rfl, before ++ body, sep, hsep, .inr ⟨d, by simp⟩⟩
  | d :: d' :: tail =>
    have := List.length_pos_iff.mpr hne
    refine .inl ?_
    simp only [List.length_append, List.length_map, List.length_cons, List.drop_succ_cons,
      List.drop_zero]
    omega

/-- Input whose last or last but one character is a `#` does not end with a frame. -/
theorem not_firstFrame_of_hash {sec rest p : List Byte} (h : FirstFrame (sec ++ rest) p [])
    {x : List Byte} {m : Byte} (hm : sevenBit m = HASH)
    (hr : rest = x ++ [m] ∨ ∃ d, rest = x ++ [m, d]) : False := by
  obtain ⟨before, t, hs, h1, h2, hf⟩ := h.at_suffix
  have hend : sec ++ rest = (before ++ DOLLAR :: (p ++ [HASH])) ++ [h1] ++ [h2] := by
    rw [hs, hf.split]
    simp
  have not_hex : ∀ b, IsHexDigit b → sevenBit b ≠ HASH := by decide
  rcases hr with rfl | ⟨d, rfl⟩
  · rw [← List.append_assoc] at hend
    obtain ⟨-, hl⟩ := List.append_inj' hend rfl
    obtain rfl := (List.cons.inj hl).1
    exact not_hex m hf.hex2 hm
  · have hsplit : sec ++ (x ++ [m, d]) = (sec ++ x) ++ [m] ++ [d] := by simp
    rw [hsplit] at hend
    obtain ⟨hend, -⟩ := List.append_inj' hend rfl
    obtain ⟨-, hl⟩ := List.append_inj' hend rfl
    obtain rfl := (List.cons.inj hl).1
    exact not_hex m hf.hex1 hm

/-- A section that passes the test is a frame if the receiver accepts its input. -/
theorem Section.frameAt_of_firstFrame {s gap : List Byte} {c : Byte} {body : List Byte}
    {sep : Byte} {tail : List Byte} (h : Section s gap c body sep tail)
    (hf : FirstFrame s (body.map sevenBit) (tail.drop 2)) :
    FrameAt (c :: (body ++ sep :: tail)) body (tail.drop 2) ∧ body.map sevenBit = body := by
  rw [h.split, h.gap_no_frame.firstFrame_iff] at hf
  obtain ⟨before, t, hs, hat⟩ := hf.at_suffix
  have hlen := congrArg List.length hs
  have htlen := hat.length
  simp only [List.length_cons, List.length_append, List.length_map, List.length_drop] at hlen htlen
  have hnil : before = [] := List.length_eq_zero_iff.mp (by omega)
  subst hnil
  rw [List.nil_append] at hs
  subst hs
  have hmap : body.map sevenBit = body := by
    obtain ⟨h1, h2, hat⟩ := hat
    have hsplit := (List.cons.inj hat.split).2
    exact (List.append_inj hsplit (by simp)).1.symm
  rw [hmap] at hat
  exact ⟨hat, hmap⟩

theorem inStep_of_accepts : ∀ {s : List Byte}, Accepts s → InStep s := by
  intro s ha
  rcases exists_section s with h | ⟨gap, c, body, rfl, hg, hc, hb⟩ | ⟨gap, c, body, sep, tail, h⟩
  · exact .no_dollar h
  · exact .no_hash hg hc hb
  · by_cases hchk : checks (sum7 body) (readchar tail[0]?) (readchar tail[1]?) = true
    · have hpkt : (getpkt s).packet = some (body.map sevenBit, tail.drop 2) := by
        rw [h.packet, if_pos hchk]
      obtain ⟨hf, hmap⟩ := h.frameAt_of_firstFrame ((ha _ _).mp hpkt)
      exact .frame h hf fun b hb => (sevenBit_eq_iff b).mp
        (List.map_inj_left.mp (hmap.trans (List.map_id body).symm) b hb)
    · have hpkt : (getpkt s).packet = (getpkt (tail.drop 2)).packet := by
        rw [h.packet, if_neg hchk]
      have hno : NoFrameIn (c :: (body ++ sep :: tail.take 2)) (tail.drop 2) := by
        by_contra hno
        obtain ⟨p, r, hfirst, hlen⟩ := exists_firstFrame hno
        have hs : FirstFrame s p r := by
          rw [h.eq_append, h.gap_no_frame.firstFrame_iff]
          exact hfirst
        have hgot := (ha p r).mpr hs
        rw [hpkt] at hgot
        rcases getpkt_length hgot with hle | ⟨rfl, x, m, hm, hr⟩
        · omega
        · exact not_firstFrame_of_hash hfirst hm hr
      have hlt := h.drop_lt
      refine .bad h (by simpa using hchk) hno (inStep_of_accepts fun p r => ?_)
      rw [← hpkt, ha p r, h.firstFrame_iff hno]
termination_by s => s.length

/-! ## The round trip -/

/-- `getpkt` returns the payload from what `putpkt` sends. -/
def RoundTrip (p answers : List Byte) : Prop :=
  (getpkt (putpkt p answers).1).packet.map Prod.fst = some p

theorem putpkt_sent (p : List Byte) : ∀ answers : List Byte,
    ∃ more, (putpkt p answers).1 = frameOf p ++ more
  | [] => ⟨[], by simp [putpkt]⟩
  | c :: answers => by
    rw [putpkt]
    split
    · exact ⟨[], by simp⟩
    · exact ⟨(putpkt p answers).1, rfl⟩

theorem fromhex_tohex : ∀ n : Fin 16,
    fromhex (readchar (some (tohex n))) = n := by decide

theorem getpkt_frameOf {p : List Byte} (hp : ∀ b ∈ p, b ≠ HASH)
    (h7 : ∀ b ∈ p, b.toNat < 0x80) (more : List Byte) :
    (getpkt (frameOf p ++ more)).packet = some (p, more) := by
  have hsec : Section (frameOf p ++ more) [] DOLLAR p HASH
      (tohex ((sum8 p).toNat / 16 % 16) :: tohex ((sum8 p).toNat % 16) :: more) :=
    { split := by simp [frameOf, sum8]
      gap := by simp
      start := by decide
      body := fun b hb => by
        rw [(sevenBit_eq_iff b).mpr (h7 b hb)]
        exact hp b hb
      sep := by decide }
  have hhi := fromhex_tohex ⟨(sum8 p).toNat / 16 % 16, Nat.mod_lt _ (by omega)⟩
  have hlo := fromhex_tohex ⟨(sum8 p).toNat % 16, Nat.mod_lt _ (by omega)⟩
  have hlt := (sum8 p).isLt
  have hchk : checks (sum8 p) (readchar (some (tohex ((sum8 p).toNat / 16 % 16))))
      (readchar (some (tohex ((sum8 p).toNat % 16)))) = true := by
    simp only [checks, beq_iff_eq, hhi, hlo, Nat.shiftLeft_eq]
    omega
  have hsum : sum7 p = sum8 p := by rw [sum7, map_sevenBit h7, sum8]
  rw [hsec.packet, hsum, map_sevenBit h7]
  simp only [List.getElem?_cons_zero, List.getElem?_cons_succ]
  rw [if_pos hchk]
  simp

theorem getpkt_sevenBit {s p r : List Byte} (h : (getpkt s).packet = some (p, r)) :
    ∀ b ∈ p, b.toNat < 0x80 := by
  obtain ⟨before, body, sep, tail, -, -, rfl, -, -⟩ := getpkt_source h
  have h7 : ∀ b : Byte, (sevenBit b).toNat < 0x80 := by decide
  intro b hb
  obtain ⟨x, -, rfl⟩ := List.mem_map.mp hb
  exact h7 x

/-- A payload comes back if it is plain seven-bit text. -/
theorem roundTrip_iff {p : List Byte} (hp : ∀ b ∈ p, b ≠ HASH) (answers : List Byte) :
    RoundTrip p answers ↔ ∀ b ∈ p, b.toNat < 0x80 := by
  obtain ⟨more, hsent⟩ := putpkt_sent p answers
  rw [RoundTrip, hsent]
  constructor
  · intro h
    obtain ⟨⟨p', r⟩, hpkt, rfl⟩ := Option.map_eq_some_iff.mp h
    exact getpkt_sevenBit hpkt
  · intro h7
    rw [getpkt_frameOf hp h7 more]
    rfl

/-- `own_buf` and `buf2` have room for the payload. -/
def FitsBuffers (p : List Byte) : Prop := p.length + 5 ≤ 2000

/-- When the packet layer accepts exactly the frames of the protocol, for an input stream
and for a payload that is sent and received. -/
theorem packet_layer_exact_iff (s p answers : List Byte) :
    (Accepts s ↔ InStep s) ∧
      ((∀ b ∈ p, b ≠ DOLLAR ∧ b ≠ HASH ∧ b ≠ 0) → FitsBuffers p →
        (RoundTrip p answers ↔ ∀ b ∈ p, b.toNat < 0x80)) :=
  ⟨⟨inStep_of_accepts, accepts_of_inStep⟩,
    fun hp _ => roundTrip_iff (fun b hb => (hp b hb).2.1) answers⟩

/-- `OK`, acknowledged at once. -/
theorem packet_layer_exact_iff_ok : RoundTrip [0x4f, 0x4b] [ACK] :=
  ((packet_layer_exact_iff [] [0x4f, 0x4b] [ACK]).2 (by decide) (by simp [FitsBuffers])).mpr
    (by decide)

/-- `$#zz`: the empty payload is returned although `zz` are no hex digits. -/
theorem packet_layer_accepts_bad_digits :
    ¬ ((∀ s, Accepts s) ∧ ∀ p answers, (∀ b ∈ p, b ≠ DOLLAR ∧ b ≠ HASH ∧ b ≠ 0) →
      FitsBuffers p → RoundTrip p answers) := by
  rintro ⟨h, -⟩
  have hpkt : (getpkt [0x24, 0x23, 0x7a, 0x7a]).packet = some ([], []) := by decide
  obtain ⟨before, t, hs, h1, h2, hf⟩ := ((h _ [] []).mp hpkt).at_suffix
  have hend : [0x24, 0x23] ++ [0x7a] ++ [(0x7a : Byte)] =
      (before ++ [DOLLAR, HASH]) ++ [h1] ++ [h2] := by
    rw [hf.split] at hs
    simpa using hs
  obtain ⟨-, hl⟩ := List.append_inj' hend rfl
  obtain rfl := (List.cons.inj hl).1
  exact absurd hf.hex2 (by decide)

end SkyEye.Gdb
