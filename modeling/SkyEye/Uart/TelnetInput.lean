import Mathlib.Data.List.Basic
import SkyEye.Uart.Telnet

/-!
# What a telnet connection delivers

The loop of `telnet_input` against the decoding of the stream (`telnetLoop_eq`), the FIFO as a
queue (`FifoLaw`), and both together: whatever the chunks, the guest gets the decoding of
their stream as long as the bytes that the loop gets wrong do not come.
-/

namespace SkyEye.Telnet

namespace Scan

theorem after_append (s : Scan) (xs ys : List Byte) :
    s.after (xs ++ ys) = (s.after xs).after ys := by
  induction xs generalizing s with
  | nil => rfl
  | cons b xs ih => exact ih _

theorem decode_append (s : Scan) (xs ys : List Byte) :
    s.decode (xs ++ ys) = s.decode xs ++ (s.after xs).decode ys := by
  induction xs generalizing s with
  | nil => rfl
  | cons b xs ih => rw [List.cons_append, decode, ih, decode, after, List.append_assoc]

/-- Data that is no IAC and no LF after a CR stands for itself. -/
theorem decode_data {s : Scan} (hs : s = .data ∨ s = .afterCr) {b : Byte} (hb : b ≠ IAC)
    (hlf : s = .afterCr → b ≠ LF) :
    s.next b = (if b = CR then .afterCr else .data, [b]) := by
  by_cases hcr : b = CR
  · subst hcr
    rcases hs with rfl | rfl <;> rfl
  · rcases hs with rfl | rfl
    · simp [next, dataByte, hb, hcr]
    · simp [next, dataByte, hb, hcr, hlf rfl]

end Scan

/-! ## The loop -/

/-- The state that `telnet_input` is in at a place of the stream. -/
def Matches (state : TelnetState) : Scan → Prop
  | .data => state = .data
  | .afterCr => state = .data
  | .iac => state = .iac
  | .option => state = .will ∨ state = .wont ∨ state = .do ∨ state = .dont

theorem Matches.eq_data {state : TelnetState} {s : Scan} (hs : s = .data ∨ s = .afterCr)
    (h : Matches state s) : state = .data := by
  rcases hs with rfl | rfl <;> exact h

/-- What `ChunkOk` says of the bytes of a chunk that are left. -/
def RestOk (s : Scan) (rest : List Byte) : Prop :=
  ∀ pre b post, rest = pre ++ b :: post →
    (s.after pre = .iac → IsNegotiation b) ∧
      (s.after pre = .data → b = LF → post.head? ≠ some CR)

theorem RestOk.tail {s : Scan} {b : Byte} {rest : List Byte} (h : RestOk s (b :: rest)) :
    RestOk (s.next b).1 rest := fun pre c post hrest => h (b :: pre) c post (by rw [hrest]; rfl)

theorem telnetLoop_iac {b : Byte} (hb : IsNegotiation b) :
    ∃ state, Matches state .option ∧
      ∀ rest, telnetLoop .iac (b :: rest) = telnetLoop state rest := by
  refine ⟨if b = 0xfe then .dont else if b = 0xfd then .do else if b = 0xfc then .wont
    else if b = 0xfb then .will else .iac, ?_, fun rest => rfl⟩
  have h : ∀ b : Byte, IsNegotiation b → b = 0xfe ∨ b = 0xfd ∨ b = 0xfc ∨ b = 0xfb := by decide
  rcases h b hb with rfl | rfl | rfl | rfl
  · exact .inr (.inr (.inr rfl))
  · exact .inr (.inr (.inl rfl))
  · exact .inr (.inl rfl)
  · exact .inl rfl

theorem telnetLoop_option {state : TelnetState} (h : Matches state .option) (b : Byte)
    (rest : List Byte) : telnetLoop state (b :: rest) = telnetLoop .data rest := by
  rcases h with rfl | rfl | rfl | rfl <;> rfl

/-- A byte of data that does not begin a pair. -/
theorem telnetLoop_single {b : Byte} (hb : b ≠ IAC) {rest : List Byte}
    (hcr : b = CR → rest.head? ≠ some LF) (hlf : b = LF → rest.head? ≠ some CR) :
    telnetLoop .data (b :: rest) = put b (telnetLoop .data rest) := by
  cases rest with
  | nil => simp [telnetLoop, hb, put]
  | cons c rest =>
    have hpair : ¬ (b = CR ∧ c = LF) := fun ⟨h, hc⟩ => hcr h (congrArg some hc)
    have hpair' : ¬ (b = LF ∧ c = CR) := fun ⟨h, hc⟩ => hlf h (congrArg some hc)
    rw [telnetLoop, if_neg hb]
    show (if b = CR ∧ c = LF then _ else if b = LF ∧ c = CR then _ else _) = _
    rw [if_neg hpair, if_neg hpair']

/-- A chunk that begins with data. -/
theorem after_crLf {s : Scan} (hs : s = .data ∨ s = .afterCr) (rest : List Byte) :
    s.after (CR :: LF :: rest) = Scan.data.after rest ∧
      s.decode (CR :: LF :: rest) = CR :: Scan.data.decode rest := by
  rcases hs with rfl | rfl <;> exact ⟨rfl, rfl⟩

theorem next_negotiation {b : Byte} (hb : IsNegotiation b) : Scan.iac.next b = (.option, []) := by
  have hne : b ≠ IAC := by
    rintro rfl
    exact absurd hb (by decide)
  rw [Scan.next, if_neg hne, if_pos hb]

/-- What the induction over the loop has for shorter lists. -/
def LoopEq (n : Nat) : Prop :=
  ∀ (rest : List Byte) (state : TelnetState) (s : Scan),
    rest.length ≤ n → Matches state s → RestOk s rest →
    (s = .afterCr → rest.head? ≠ some LF) →
    ∃ state', telnetLoop state rest = some (state', s.decode rest) ∧
      Matches state' (s.after rest)

/-- The loop at a byte of data. -/
theorem data_step {n : Nat} (ih : LoopEq n) {b : Byte} {rest : List Byte} {state : TelnetState}
    {s : Scan} (hlen : rest.length ≤ n) (hdata : s = .data ∨ s = .afterCr)
    (hm : Matches state s) (hok : RestOk s (b :: rest))
    (hhead : s = .afterCr → (b :: rest).head? ≠ some LF) :
    ∃ state', telnetLoop state (b :: rest) = some (state', s.decode (b :: rest)) ∧
      Matches state' (s.after (b :: rest)) := by
  obtain rfl := hm.eq_data hdata
  have hok' := hok.tail
  by_cases hb : b = IAC
  · subst hb
    have hnext : s.next IAC = (.iac, []) := by rcases hdata with rfl | rfl <;> rfl
    rw [hnext] at hok'
    obtain ⟨state', heq, hm'⟩ := ih rest .iac .iac hlen rfl hok' (fun h => by cases h)
    refine ⟨state', ?_, ?_⟩
    · rw [telnetLoop.eq_def]
      show (if IAC = IAC then telnetLoop .iac rest else _) = _
      rw [if_pos rfl, heq, Scan.decode, hnext, List.nil_append]
    · rwa [Scan.after, hnext]
  · have hlf : s = .afterCr → b ≠ LF := fun h hlf => hhead h (congrArg some hlf)
    have hnext := Scan.decode_data hdata hb hlf
    by_cases hpair : b = CR ∧ rest.head? = some LF
    · obtain ⟨rfl, hr⟩ := hpair
      cases rest with
      | nil => cases hr
      | cons c rest =>
        obtain rfl : c = LF := Option.some.inj hr
        have hok'' := hok'.tail
        rw [hnext, if_pos rfl] at hok''
        obtain ⟨state', heq, hm'⟩ :=
          ih rest .data .data (by rw [List.length_cons] at hlen; omega) rfl hok''
            (fun h => by cases h)
        obtain ⟨hafter, hdecode⟩ := after_crLf hdata rest
        refine ⟨state', ?_, hafter ▸ hm'⟩
        rw [hdecode]
        show put CR (telnetLoop .data rest) = _
        rw [heq]
        rfl
    · have hcr : b = CR → rest.head? ≠ some LF := fun h h' => hpair ⟨h, h'⟩
      have hlf' : b = LF → rest.head? ≠ some CR := by
        intro h
        rcases hdata with rfl | rfl
        · exact (hok [] b rest rfl).2 rfl h
        · exact absurd h (hlf rfl)
      have hm' : Matches .data (if b = CR then .afterCr else .data) := by split <;> rfl
      have hhead' : (if b = CR then Scan.afterCr else .data) = .afterCr →
          rest.head? ≠ some LF := by
        split
        · rename_i h
          exact fun _ => hcr h
        · exact fun h => by cases h
      rw [hnext] at hok'
      obtain ⟨state', heq, hm''⟩ := ih rest .data _ hlen hm' hok' hhead'
      refine ⟨state', ?_, ?_⟩
      · rw [telnetLoop_single hb hcr hlf', heq, Scan.decode, hnext]
        rfl
      · rwa [Scan.after, hnext]

/-- The loop puts the decoding of its bytes. The induction is on how many are left, since a
CR LF takes two; what carries it is that no CR before them waits for an LF. -/
theorem telnetLoop_eq (n : Nat) : LoopEq n := by
  induction n with
  | zero =>
    intro rest state s hn hm _ _
    obtain rfl := List.length_eq_zero_iff.mp (Nat.le_zero.mp hn)
    refine ⟨state, ?_, hm⟩
    cases state <;> rfl
  | succ n ih =>
    intro rest state s hn hm hok hhead
    cases rest with
    | nil =>
      refine ⟨state, ?_, hm⟩
      cases state <;> rfl
    | cons b rest =>
      have hlen : rest.length ≤ n := Nat.le_of_succ_le_succ hn
      have hok' := hok.tail
      cases s with
      | iac =>
        obtain rfl : state = .iac := hm
        have hneg := (hok [] b rest rfl).1 rfl
        obtain ⟨st, hst, hloop⟩ := telnetLoop_iac hneg
        rw [next_negotiation hneg] at hok'
        obtain ⟨state', heq, hm'⟩ := ih rest st .option hlen hst hok' (fun h => by cases h)
        refine ⟨state', ?_, ?_⟩
        · rw [hloop, heq, Scan.decode, next_negotiation hneg, List.nil_append]
        · rwa [Scan.after, next_negotiation hneg]
      | option =>
        obtain ⟨state', heq, hm'⟩ := ih rest .data .data hlen rfl hok' (fun h => by cases h)
        refine ⟨state', ?_, hm'⟩
        rw [telnetLoop_option hm, heq]
        rfl
      | data => exact data_step ih hlen (.inl rfl) hm hok hhead
      | afterCr => exact data_step ih hlen (.inr rfl) hm hok hhead

/-- What a chunk that is decoded right says of its bytes from the first one on. -/
theorem ChunkOk.restOk {s : Scan} {chunk : List Byte} (h : ChunkOk s chunk) :
    RestOk s chunk ∧ (s = .afterCr → chunk.head? ≠ some LF) := by
  refine ⟨fun pre b post hp => ⟨(h pre b post hp).command, (h pre b post hp).noLfCr⟩, ?_⟩
  intro hs hlf
  cases chunk with
  | nil => cases hlf
  | cons b rest => exact (h [] b rest rfl).whole hs (Option.some.inj hlf) rfl

/-- Chunk after chunk, the decoding of the stream. -/
theorem telnetInputs_eq (chunks : List (List Byte)) : ∀ {state : TelnetState} {s : Scan},
    Matches state s → ChunksOk s chunks →
    ∃ state', telnetInputs state chunks = some (state', s.decode chunks.flatten) ∧
      Matches state' (s.after chunks.flatten) := by
  induction chunks with
  | nil => exact fun hm _ => ⟨_, rfl, hm⟩
  | cons chunk chunks ih =>
    intro state s hm hok
    obtain ⟨hrest, hhead⟩ := hok.1.restOk
    obtain ⟨state', heq, hm'⟩ := telnetLoop_eq chunk.length chunk state s le_rfl hm hrest hhead
    obtain ⟨state'', heq', hm''⟩ := ih hm' hok.2
    refine ⟨state'', ?_, ?_⟩
    · rw [telnetInputs, heq, List.flatten_cons, Scan.decode_append]
      simp only [heq']
    · rwa [List.flatten_cons, Scan.after_append]

/-! ## The FIFO -/

/-- The device keeps the queue `r`. -/
structure Represents (netdev : Dev) (r : RingBuffer BUF_SIZE Byte) : Prop where
  bptr : netdev.bptr = r.last.val
  cnt : netdev.cnt = r.used
  buf : ∀ i : Fin BUF_SIZE, netdev.buf i = r.slot i

/-- What was delivered and what is in the FIFO is what was accepted, and the counters are in
order. -/
structure FifoLaw (f : Fifo) : Prop where
  bptr_lt : f.netdev.bptr < BUF_SIZE
  cnt_le : f.netdev.cnt ≤ BUF_SIZE
  conserved : f.delivered ++ f.contents = f.accepted

theorem Represents.contents_eq {f : Fifo} {r : RingBuffer BUF_SIZE Byte}
    (hr : Represents f.netdev r) : f.contents = r.toList := by
  rw [Fifo.contents, hr.cnt, RingBuffer.toList]
  refine List.map_congr_left fun i _ => ?_
  rw [hr.bptr]
  exact hr.buf ⟨(r.last.val + i) % BUF_SIZE, Nat.mod_lt _ (by decide)⟩

/-- The FIFO keeps a queue that has what was accepted and not delivered. -/
def Queues (f : Fifo) : Prop :=
  ∃ r, Represents f.netdev r ∧ f.delivered ++ r.toList = f.accepted

theorem queues_open : Queues openFifo :=
  ⟨.empty (by decide) 0, ⟨rfl, rfl, fun _ => rfl⟩, rfl⟩

theorem wrap_eq_next (i : Fin BUF_SIZE) :
    (if i.val + 1 ≥ BUF_SIZE then i.val + 1 - BUF_SIZE else i.val + 1) =
      (RingBuffer.next i).val := by
  have hi : i.val < 16 := i.isLt
  rw [RingBuffer.next_val]
  show (if i.val + 1 ≥ 16 then i.val + 1 - 16 else i.val + 1) = (i.val + 1) % 16
  split <;> omega

theorem Queues.getch {f : Fifo} (h : Queues f) :
    Queues (f.step .getch) ∧ (f.step .getch).netdev.cnt = f.netdev.cnt - 1 ∧
      (f.step .getch).accepted = f.accepted := by
  obtain ⟨r, hr, hq⟩ := h
  rw [Fifo.step, uartTelnetGetch]
  by_cases h0 : f.netdev.cnt = 0
  · rw [if_pos h0]
    exact ⟨⟨r, hr, hq⟩, by show f.netdev.cnt = _; omega, rfl⟩
  · rw [if_neg h0]
    have hpos : 0 < r.used := hr.cnt ▸ Nat.pos_of_ne_zero h0
    refine ⟨⟨r.pop hpos, ⟨?_, congrArg (· - 1) hr.cnt, hr.buf⟩, ?_⟩, rfl, rfl⟩
    · show (if f.netdev.bptr + 1 ≥ BUF_SIZE then f.netdev.bptr + 1 - BUF_SIZE
        else f.netdev.bptr + 1) = _
      rw [hr.bptr]
      exact wrap_eq_next r.last
    · have hold : f.netdev.buf f.netdev.bptr = r.oldest := by
        rw [hr.bptr]
        exact hr.buf r.last
      show f.delivered ++ [f.netdev.buf f.netdev.bptr] ++ _ = f.accepted
      rw [hold, ← hq, r.toList_pop hpos, List.append_assoc]
      rfl

theorem Queues.putch {f : Fifo} (h : Queues f) (p : Byte) : Queues (f.step (.putch p)) := by
  obtain ⟨r, hr, hq⟩ := h
  rw [Fifo.step, uartTelnetPutch]
  by_cases hfull : f.netdev.cnt ≥ BUF_SIZE
  · rw [if_pos hfull]
    exact ⟨r, hr, hq⟩
  · rw [if_neg hfull]
    have hlt : r.used < BUF_SIZE := hr.cnt ▸ Nat.lt_of_not_le hfull
    have hw : (if f.netdev.bptr + f.netdev.cnt ≥ BUF_SIZE then
        f.netdev.bptr + f.netdev.cnt - BUF_SIZE else f.netdev.bptr + f.netdev.cnt) =
        r.first.val := by
      have hlast : r.last.val < 16 := r.last.isLt
      have hused : r.used < 16 := hlt
      rw [hr.bptr, hr.cnt, r.first_eq]
      show (if r.last.val + r.used ≥ 16 then r.last.val + r.used - 16 else r.last.val + r.used) =
        (r.last.val + r.used) % 16
      split <;> omega
    refine ⟨r.push hlt p, ⟨hr.bptr, congrArg (· + 1) hr.cnt, fun i => ?_⟩, ?_⟩
    · show Function.update f.netdev.buf _ p i.val = Function.update r.slot r.first p i
      rw [hw]
      by_cases hi : i = r.first
      · rw [hi, Function.update_self, Function.update_self]
      · rw [Function.update_of_ne (fun he => hi (Fin.ext he)), Function.update_of_ne hi, hr.buf]
    · rw [RingBuffer.toList_push, ← List.append_assoc, hq]

theorem Queues.step {f : Fifo} (h : Queues f) (op : FifoOp) : Queues (f.step op) := by
  cases op with
  | putch p => exact h.putch p
  | getch => exact h.getch.1

theorem Queues.run (ops : List FifoOp) : ∀ {f : Fifo}, Queues f → Queues (f.run ops) := by
  induction ops with
  | nil => exact fun h => h
  | cons op ops ih => exact fun h => ih (h.step op)

theorem Queues.law {f : Fifo} (h : Queues f) : FifoLaw f := by
  obtain ⟨r, hr, hq⟩ := h
  exact ⟨hr.bptr ▸ r.last.isLt, hr.cnt ▸ r.used_le, by rw [hr.contents_eq, hq]⟩

theorem drain_getch (n : Nat) : ∀ {f : Fifo}, Queues f → f.netdev.cnt = n →
    (f.run (List.replicate n .getch)).delivered = f.accepted := by
  induction n with
  | zero =>
    intro f h h0
    have hlaw := h.law.conserved
    rw [Fifo.contents, h0] at hlaw
    exact (List.append_nil _).symm.trans hlaw
  | succ n ih =>
    intro f h hn
    obtain ⟨h', hcnt, hacc⟩ := h.getch
    rw [List.replicate_succ, ← hacc]
    exact ih h' (by rw [hcnt, hn]; rfl)

/-- Every character is accepted as long as no bell sounds. -/
theorem accepted_of_bells (ops : List FifoOp) : ∀ {f : Fifo},
    f.bells ≤ (f.run ops).bells ∧ ((f.run ops).bells = f.bells →
      (f.run ops).accepted = f.accepted ++ ops.filterMap FifoOp.char) := by
  induction ops with
  | nil => exact ⟨le_rfl, fun _ => (List.append_nil _).symm⟩
  | cons op ops ih =>
    intro f
    obtain ⟨hle, hacc⟩ := @ih (f.step op)
    show f.bells ≤ ((f.step op).run ops).bells ∧ (((f.step op).run ops).bells = f.bells →
      ((f.step op).run ops).accepted = _)
    cases op with
    | getch =>
      have hb : (f.step .getch).bells = f.bells := by
        rw [Fifo.step]
        split <;> rfl
      have ha : (f.step .getch).accepted = f.accepted := by
        rw [Fifo.step]
        split <;> rfl
      rw [hb, ha] at hacc
      exact ⟨hb ▸ hle, hacc⟩
    | putch p =>
      by_cases hfull : f.netdev.cnt ≥ BUF_SIZE
      · have hb : (f.step (.putch p)).bells = f.bells + 1 := by
          rw [Fifo.step, uartTelnetPutch, if_pos hfull]
        refine ⟨by omega, fun h => ?_⟩
        omega
      · have hb : (f.step (.putch p)).bells = f.bells := by
          rw [Fifo.step, uartTelnetPutch, if_neg hfull]
        have ha : (f.step (.putch p)).accepted = f.accepted ++ [p] := by
          rw [Fifo.step, uartTelnetPutch, if_neg hfull]
        rw [hb, ha, List.append_assoc] at hacc
        exact ⟨hb ▸ hle, hacc⟩

/-! ## Both together -/

/-- Whatever puts and gets come, the FIFO delivers what it accepts, once and in order. And
whatever the chunks of a stream, as long as their bytes are ones that the loop decodes right,
the guest gets the decoding of the stream if it reads often enough that no bell sounds. -/
theorem telnet_delivers (ops : List FifoOp) (chunks : List (List Byte)) :
    FifoLaw (openFifo.run ops) ∧
      (ChunksOk .data chunks →
        ∃ state puts, telnetInputs .data chunks = some (state, puts) ∧
          ∀ ops : List FifoOp, ops.filterMap FifoOp.char = puts → (openFifo.run ops).bells = 0 →
            (openFifo.run ops).drain.delivered = Scan.data.decode chunks.flatten) := by
  refine ⟨(queues_open.run ops).law, fun hok => ?_⟩
  have hdata : Matches .data .data := rfl
  obtain ⟨state, heq, -⟩ := telnetInputs_eq chunks hdata hok
  refine ⟨state, _, heq, fun ops hputs hbells => ?_⟩
  have hacc := (accepted_of_bells ops).2 hbells
  rw [Fifo.drain, drain_getch _ (queues_open.run ops) rfl, hacc, hputs]
  rfl

instance (s : Scan) (pre : List Byte) (b : Byte) (post : List Byte) :
    Decidable (ByteOk s pre b post) :=
  decidable_of_iff ((s = .iac → IsNegotiation b) ∧ (s = .afterCr → b = LF → pre ≠ []) ∧
      (s = .data → b = LF → post.head? ≠ some CR))
    ⟨fun h => ⟨h.1, h.2.1, h.2.2⟩, fun h => ⟨h.command, h.whole, h.noLfCr⟩⟩

/-- The condition of a chunk, byte by byte. -/
theorem chunkOk_of_forall {s : Scan} {chunk : List Byte}
    (h : ∀ i < chunk.length,
      ByteOk (s.after (chunk.take i)) (chunk.take i) (chunk.getD i 0) (chunk.drop (i + 1))) :
    ChunkOk s chunk := by
  intro pre b post hp
  have hi : pre.length < chunk.length := by
    rw [hp, List.length_append, List.length_cons]
    omega
  have htake : (pre ++ b :: post).take pre.length = pre := List.take_left
  have hget : (pre ++ b :: post).getD pre.length 0 = b := by simp
  have hdrop : (pre ++ b :: post).drop (pre.length + 1) = post := by simp
  have hok := h pre.length hi
  rwa [hp, htake, hget, hdrop] at hok

/-- A line and a negotiation that two reads cut in two. -/
theorem telnet_delivers_line :
    ∃ ops, (openFifo.run ops).drain.delivered = [0x61, CR, 0x62] ∧
      ∃ state puts, telnetInputs .data [[0x61, CR, LF, IAC], [0xfd, 0x01, 0x62]] =
        some (state, puts) ∧ ops.filterMap FifoOp.char = puts := by
  have hok : ChunksOk .data [[0x61, CR, LF, IAC], [0xfd, 0x01, 0x62]] :=
    ⟨chunkOk_of_forall (by decide), chunkOk_of_forall (by decide), trivial⟩
  obtain ⟨state, puts, heq, hdel⟩ := (telnet_delivers [] _).2 hok
  have hputs : puts = [0x61, CR, 0x62] :=
    (congrArg (fun r => r.elim [] Prod.snd) heq).symm
  refine ⟨[.putch 0x61, .getch, .putch CR, .putch 0x62], ?_, state, puts, heq, hputs.symm⟩
  exact hdel _ hputs.symm (by decide)

/-- IAC IAC is no 0xFF, but leaves the decoder waiting for a command; and a CR LF is one CR in
one chunk and two characters in two. -/
theorem telnet_loses :
    (∀ chunks ∈ [[[IAC, IAC, 0x61]], [[CR], [LF]]],
      ¬ ∃ state puts, telnetInputs .data chunks = some (state, puts) ∧
        ∀ ops : List FifoOp, ops.filterMap FifoOp.char = puts → (openFifo.run ops).bells = 0 →
          (openFifo.run ops).drain.delivered = Scan.data.decode chunks.flatten) ∧
      telnetInputs .data [[IAC, IAC, 0x61]] = some (.iac, []) ∧
      Scan.data.decode [IAC, IAC, 0x61] = [IAC, 0x61] ∧
      telnetInputs .data [[CR, LF]] = some (.data, [CR]) ∧
      telnetInputs .data [[CR], [LF]] = some (.data, [CR, LF]) ∧
      Scan.data.decode [CR, LF] = [CR] := by
  refine ⟨?_, by decide⟩
  intro chunks hc
  rcases List.mem_pair.mp hc with rfl | rfl
  · rintro ⟨state, puts, heq, hdel⟩
    obtain ⟨-, rfl⟩ := Prod.mk.inj (Option.some.inj heq)
    exact absurd (hdel [] rfl rfl) (by decide)
  · rintro ⟨state, puts, heq, hdel⟩
    obtain ⟨-, rfl⟩ := Prod.mk.inj (Option.some.inj heq)
    exact absurd (hdel [.putch CR, .getch, .putch LF, .getch] rfl rfl) (by decide)

end SkyEye.Telnet
