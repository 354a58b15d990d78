import SkyEye.Config.ReadConfig
import SkyEye.Lib.SlotSet

/-!
# Parsing a configuration line

`parse_line_unformatted` of `skyeye_config.c` and `split_param` of `skyeye_options.c`: the
line is cut at its first `:` and then at every `,`; of each piece what is not a quote, not
white space outside quotes and not behind a `#` goes through a buffer of 512 bytes into the
next of 40 parameters. A write outside of a buffer ends the model's run.
-/

namespace SkyEye.Config

open SlotSet

def isspace (c : Byte) : Bool := c == 32 || (decide (9 ≤ c.toNat) && decide (c.toNat ≤ 13))

def quote : Byte := 34
def hash : Byte := 35
def colon : Byte := 58
def comma : Byte := 44
def equalsSign : Byte := 61

/-- A write to a buffer of `size` bytes; none outside of it. -/
def put (size : Nat) (buf : Nat → Byte) (i : Nat) (b : Byte) : Option (Nat → Byte) :=
  if i < size then some (Function.update buf i b) else none

/-- `strtok` with one delimiter: the next token and what is saved for the next call. -/
def strtok (delim : Byte) (s : List Byte) : Option (List Byte × List Byte) :=
  match s.dropWhile (· == delim) with
  | [] => none
  | s' => some (s'.takeWhile (· != delim), (s'.dropWhile (· != delim)).drop 1)

/-- The size of `string`. -/
def stringSize : Nat := 512

def maxParamsLen : Nat := 40

/-- The loop over the characters of a token: the buffer, `string_i`, `inquotes` and
`comment` after it. -/
def scanToken : List Byte → (Nat → Byte) → Nat → Bool → Option ((Nat → Byte) × Nat × Bool × Bool)
  | [], string, i, inquotes => some (string, i, inquotes, false)
  | c :: cs, string, i, inquotes =>
    if c = quote then scanToken cs string i (!inquotes)
    else if c = hash ∧ !inquotes then some (string, i, inquotes, true)
    else if !isspace c ∨ inquotes then
      match put stringSize string i c with
      | none => none
      | some string => scanToken cs string (i + 1) inquotes
    else scanToken cs string i inquotes

/-- `strncpy` of the string, and its NUL, to the `(string_i + 16) & 0xfffffff0` bytes that
are allocated for it. -/
def copyParam (string : Nat → Byte) (i : Nat) : Option (List Byte) :=
  if i < (i + 16) / 16 * 16 then some (held string i) else none

/-- The variables of `parse_line_unformatted`; `params` holds the first `num_params`. -/
structure Scan where
  ptr : Option (List Byte)
  saved : List Byte
  params : List (List Byte)
  inquotes : Bool
  string : Nat → Byte

/-- `strtok (NULL, ",")` -/
def Scan.next (s : Scan) : Scan :=
  match strtok comma s.saved with
  | none => { s with ptr := none, saved := [] }
  | some (tok, saved) => { s with ptr := some tok, saved }

inductive Outcome where
  /-- A write outside of a buffer. -/
  | overrun
  /-- White space only. -/
  | blank
  /-- What `parse_line_formatted` is called with. -/
  | params (ps : List (List Byte))

/-- The loop over the tokens, for at most `fuel` rounds. `beyond` says whether the word
after `params`, which is looked at for a parameter too many, happens not to be `NULL`; it
is then freed and overwritten. -/
def parseLoop (beyond : Bool) : Nat → Scan → Option Outcome
  | 0, _ => none
  | fuel + 1, s =>
    match s.ptr with
    | none => some (.params s.params)
    | some tok =>
      match scanToken tok s.string 0 s.inquotes with
      | none => some .overrun
      | some (string, i, inquotes, comment) =>
        match put stringSize string i 0 with
        | none => some .overrun
        | some string =>
          if i = 0 then some (.params s.params)
          else if s.params.length < maxParamsLen then
            match copyParam string i with
            | none => some .overrun
            | some param =>
              let s' := { s with params := s.params ++ [param], inquotes, string }.next
              if comment then some (.params s'.params) else parseLoop beyond fuel s'
          else if beyond then some .overrun
          else if comment then some (.params s.params)
          -- too many parameters: the token is not advanced
          else parseLoop beyond fuel { s with inquotes, string }

/-- The scan of a line when its first token has been taken. -/
def Scan.start (string : Nat → Byte) (line : List Byte) : Scan :=
  match strtok colon line with
  | none => { ptr := none, saved := [], params := [], inquotes := false, string }
  | some (tok, saved) => { ptr := some tok, saved, params := [], inquotes := false, string }

/-- `parse_line_unformatted`, for at most `fuel` rounds; `string` is what the buffer holds
at first. -/
def parseLineUnformatted (beyond : Bool) (string : Nat → Byte) (fuel : Nat)
    (buffer : List Byte) : Option Outcome :=
  let line := buffer.takeWhile (· ≠ 0)
  if line.all isspace then some .blank else parseLoop beyond fuel (.start string line)

def maxParamName : Nat := 32

/-- The first loop of `split_param`, with the NUL behind the name: what is left of `param`
and the name buffer. -/
def copyName : List Byte → (Nat → Byte) → Nat → Option (List Byte × (Nat → Byte))
  | [], name, i => (put maxParamName name i 0).map ([], ·)
  | c :: src, name, i =>
    if c ≠ equalsSign then
      match put maxParamName name i c with
      | none => none
      | some name => copyName src name (i + 1)
    else (put maxParamName name i 0).map (c :: src, ·)

/-- `strcpy` to a buffer of `size` bytes. -/
def strcpy (size : Nat) : List Byte → (Nat → Byte) → Nat → Option (Nat → Byte)
  | [], dst, i => put size dst i 0
  | c :: src, dst, i =>
    match put size dst i c with
    | none => none
    | some dst => strcpy size src dst (i + 1)

/-- `split_param`: the result code and the two buffers; none for a write outside of them. -/
def splitParam (valueSize : Nat) (param : List Byte) (name value : Nat → Byte) :
    Option (Int × (Nat → Byte) × (Nat → Byte)) :=
  match copyName param name 0 with
  | none => none
  | some ([], name) => some (-1, name, value)
  | some (_ :: src, name) => (strcpy valueSize src value 0).map (0, name, ·)

/-! ## What a line asks for -/

/-- The text of a token: what it keeps of its characters, whether a quotation is open at its
end, and whether a comment begins in it. -/
def tokenText : Bool → List Byte → List Byte × Bool × Bool
  | q, [] => ([], q, false)
  | q, c :: cs =>
    if c = quote then tokenText (!q) cs
    else if c = hash ∧ !q then ([], q, true)
    else if !isspace c ∨ q then
      let (text, rest) := tokenText q cs
      (c :: text, rest)
    else tokenText q cs

/-- The pieces between commas that are not empty. -/
def pieces (s : List Byte) : List (List Byte) := (s.splitOn comma).filter (· ≠ [])

/-- The texts of the tokens up to the comment or the first one without text. -/
def texts : Bool → List (List Byte) → List (List Byte)
  | _, [] => []
  | q, tok :: toks =>
    match tokenText q tok with
    | ([], _, _) => []
    | (text, q', comment) => text :: if comment then [] else texts q' toks

/-- The tokens of a line: what is before the first `:`, and the pieces of the rest. -/
def tokens (line : List Byte) : List (List Byte) :=
  match strtok colon line with
  | none => []
  | some (tok, rest) => tok :: pieces rest

/-- The texts in a line. -/
def lineTexts (line : List Byte) : List (List Byte) := texts false (tokens line)

/-- Not too many texts, and each with its NUL fits the buffer. -/
def Fits (n : Nat) (ts : List (List Byte)) : Prop :=
  n + ts.length ≤ maxParamsLen ∧ ∀ t ∈ ts, t.length < stringSize

theorem put_of_lt {size i : Nat} (buf : Nat → Byte) (b : Byte) (h : i < size) :
    put size buf i b = some (Function.update buf i b) := if_pos h

theorem put_of_le {size i : Nat} (buf : Nat → Byte) (b : Byte) (h : size ≤ i) :
    put size buf i b = none := if_neg (Nat.not_lt.mpr h)

/-- A token whose text fits goes into the buffer behind what is there. -/
theorem scanToken_of_fits {tok : List Byte} (string : Nat → Byte) (i : Nat) {q : Bool}
    (h : i + (tokenText q tok).1.length ≤ stringSize) :
    ∃ string', scanToken tok string i q =
        some (string', i + (tokenText q tok).1.length, (tokenText q tok).2) ∧
      held string' (i + (tokenText q tok).1.length) = held string i ++ (tokenText q tok).1 := by
  induction tok generalizing string i q with
  | nil => exact ⟨string, rfl, by simp [tokenText]⟩
  | cons c cs ih =>
    rw [tokenText] at h ⊢
    rw [scanToken]
    by_cases hq : c = quote
    · rw [if_pos hq] at h ⊢
      rw [if_pos hq]
      exact ih string i h
    · rw [if_neg hq] at h ⊢
      rw [if_neg hq]
      by_cases hh : c = hash ∧ !q
      · rw [if_pos hh] at h ⊢
        rw [if_pos hh]
        exact ⟨string, by simp, by simp⟩
      · rw [if_neg hh] at h ⊢
        rw [if_neg hh]
        by_cases hk : !isspace c ∨ q
        · rw [if_pos hk] at h ⊢
          rw [if_pos hk]
          dsimp only at h ⊢
          rw [List.length_cons] at h ⊢
          rw [put_of_lt string c (by omega)]
          obtain ⟨string', he, ht⟩ := ih (Function.update string i c) (i + 1) (q := q) (by omega)
          have hi : i + ((tokenText q cs).1.length + 1) = i + 1 + (tokenText q cs).1.length := by
            omega
          refine ⟨string', by rw [hi]; exact he, ?_⟩
          rw [hi, ht, held_push, List.append_assoc, List.singleton_append]
        · rw [if_neg hk] at h ⊢
          rw [if_neg hk]
          exact ih string i h

/-- A longer one is written over the end. -/
theorem scanToken_of_long {tok : List Byte} {string : Nat → Byte} {i : Nat} {q : Bool}
    (hi : i ≤ stringSize) (h : stringSize < i + (tokenText q tok).1.length) :
    scanToken tok string i q = none := by
  induction tok generalizing string i q with
  | nil =>
    rw [tokenText, List.length_nil] at h
    omega
  | cons c cs ih =>
    rw [tokenText] at h
    rw [scanToken]
    by_cases hq : c = quote
    · rw [if_pos hq] at h ⊢
      exact ih hi h
    · rw [if_neg hq] at h ⊢
      by_cases hh : c = hash ∧ !q
      · rw [if_pos hh] at h
        exact absurd h (by simpa using hi)
      · rw [if_neg hh] at h ⊢
        by_cases hk : !isspace c ∨ q
        · rw [if_pos hk] at h ⊢
          dsimp only at h
          rw [List.length_cons] at h
          by_cases hlt : i < stringSize
          · rw [put_of_lt string c hlt]
            exact ih hlt (by omega)
          · rw [put_of_le string c (Nat.le_of_not_lt hlt)]
        · rw [if_neg hk] at h ⊢
          exact ih hi h

theorem pieces_cons_comma (s : List Byte) : pieces (comma :: s) = pieces s := by
  rw [pieces, List.splitOn_cons_eq_if_modifyHead]
  simp [pieces]

theorem pieces_dropWhile (s : List Byte) : pieces (s.dropWhile (· == comma)) = pieces s := by
  induction s with
  | nil => rfl
  | cons c s ih =>
    rw [List.dropWhile_cons]
    split
    · rename_i hc
      rw [ih, eq_of_beq hc, pieces_cons_comma]
    · rfl

/-- `strtok` takes the first piece. -/
theorem pieces_strtok (s : List Byte) :
    pieces s = match strtok comma s with
      | none => []
      | some (tok, rest) => tok :: pieces rest := by
  rw [← pieces_dropWhile, strtok]
  have hhead := List.head?_dropWhile_not (· == comma) s
  cases hd : s.dropWhile (· == comma) with
  | nil => simp [pieces]
  | cons c s' =>
    rw [hd] at hhead
    have hc : c ≠ comma := by simpa using hhead
    have htok : (c :: s').takeWhile (· != comma) ≠ [] := by simp [hc]
    have hmem : comma ∉ (c :: s').takeWhile (· != comma) := fun hm => by
      simpa using List.mem_takeWhile_imp hm
    have happ := List.takeWhile_append_dropWhile (p := (· != comma)) (l := c :: s')
    dsimp only
    cases hr : (c :: s').dropWhile (· != comma) with
    | nil =>
      rw [hr, List.append_nil] at happ
      have hnot : comma ∉ c :: s' := happ ▸ hmem
      rw [pieces, List.splitOn_eq_singleton hnot, happ]
      simp [pieces]
    | cons d rest =>
      have hdhead := List.head?_dropWhile_not (· != comma) (c :: s')
      rw [hr] at hdhead
      obtain rfl : d = comma := by simpa using hdhead
      rw [hr] at happ
      conv_lhs => rw [← happ]
      rw [pieces, List.splitOn_append_cons_self_of_not_mem hmem, List.filter_cons_of_pos
        (by simpa using htok)]
      rfl

/-! ## The loop over the tokens -/

/-- The tokens that are still to come. -/
def Scan.pending (s : Scan) : List (List Byte) :=
  match s.ptr with
  | none => []
  | some tok => tok :: pieces s.saved

theorem Scan.pending_next (s : Scan) : s.next.pending = pieces s.saved := by
  rw [pieces_strtok, next]
  split <;> rfl

@[simp] theorem Scan.params_next (s : Scan) : s.next.params = s.params := by
  unfold next
  split <;> rfl

@[simp] theorem Scan.inquotes_next (s : Scan) : s.next.inquotes = s.inquotes := by
  unfold next
  split <;> rfl

theorem copyParam_eq (string : Nat → Byte) (i : Nat) :
    copyParam string i = some (held string i) := if_pos (by omega)

/-- The NUL behind the text leaves the text. -/
theorem held_terminated (string : Nat → Byte) (i : Nat) :
    held (Function.update string i 0) i = held string i :=
  held_congr fun _ hj => Function.update_of_ne (Nat.ne_of_lt hj) ..

section Round

variable (beyond : Bool) (fuel : Nat) {s : Scan} {tok : List Byte}

theorem parseLoop_done (h : s.ptr = none) :
    parseLoop beyond (fuel + 1) s = some (.params s.params) := by
  rw [parseLoop, h]

/-- A round on a token whose text fits the buffer. -/
theorem parseLoop_round (h : s.ptr = some tok)
    (hfit : (tokenText s.inquotes tok).1.length < stringSize) :
    ∃ string, held string (tokenText s.inquotes tok).1.length = (tokenText s.inquotes tok).1 ∧
      parseLoop beyond (fuel + 1) s =
        if (tokenText s.inquotes tok).1.length = 0 then some (.params s.params)
        else if s.params.length < maxParamsLen then
          let s' := { s with
            params := s.params ++ [(tokenText s.inquotes tok).1]
            inquotes := (tokenText s.inquotes tok).2.1
            string }.next
          if (tokenText s.inquotes tok).2.2 then some (.params s'.params)
          else parseLoop beyond fuel s'
        else if beyond then some .overrun
        else if (tokenText s.inquotes tok).2.2 then some (.params s.params)
        else
          parseLoop beyond fuel { s with inquotes := (tokenText s.inquotes tok).2.1, string } := by
  have hle : 0 + (tokenText s.inquotes tok).1.length ≤ stringSize := by omega
  obtain ⟨string, he, ht⟩ := scanToken_of_fits s.string 0 hle
  rw [Nat.zero_add] at he ht
  refine ⟨Function.update string (tokenText s.inquotes tok).1.length 0, ?_, ?_⟩
  · rw [held_terminated, ht]
    rfl
  · rw [parseLoop, h]
    dsimp only
    rw [he]
    dsimp only
    rw [put_of_lt string 0 hfit]
    dsimp only
    rw [copyParam_eq, held_terminated, ht]
    rfl

/-- A round on a token whose text does not. -/
theorem parseLoop_long (h : s.ptr = some tok)
    (hlong : stringSize ≤ (tokenText s.inquotes tok).1.length) :
    parseLoop beyond (fuel + 1) s = some .overrun := by
  rw [parseLoop, h]
  dsimp only
  rcases Nat.eq_or_lt_of_le hlong with heq | hlt
  · have hle : 0 + (tokenText s.inquotes tok).1.length ≤ stringSize := by omega
    obtain ⟨string, he, -⟩ := scanToken_of_fits s.string 0 hle
    rw [he]
    dsimp only
    rw [put_of_le _ _ (by omega)]
  · rw [scanToken_of_long (Nat.zero_le _) (by omega)]

end Round

/-- The texts of a token and those behind it. -/
theorem texts_cons (q : Bool) (tok : List Byte) (toks : List (List Byte)) :
    texts q (tok :: toks) =
      if (tokenText q tok).1.length = 0 then []
      else (tokenText q tok).1 ::
        if (tokenText q tok).2.2 then [] else texts (tokenText q tok).2.1 toks := by
  rw [texts]
  split
  · rename_i h
    rw [h]
    rfl
  · rename_i text q' comment hne h
    rw [h, if_neg fun hl => hne (List.length_eq_zero_iff.mp hl)]

/-- Texts that fit become the parameters, whatever is behind the array. -/
theorem parseLoop_of_fits (beyond : Bool) {fuel : Nat} {s : Scan}
    (hfuel : s.pending.length < fuel)
    (h : Fits s.params.length (texts s.inquotes s.pending)) :
    parseLoop beyond fuel s = some (.params (s.params ++ texts s.inquotes s.pending)) := by
  induction fuel generalizing s with
  | zero => exact absurd hfuel (Nat.not_lt_zero _)
  | succ fuel ih =>
    cases hp : s.ptr with
    | none =>
      have hpend : s.pending = [] := by rw [Scan.pending, hp]
      rw [parseLoop_done beyond fuel hp, hpend, texts, List.append_nil]
    | some tok =>
      have hpend : s.pending = tok :: pieces s.saved := by rw [Scan.pending, hp]
      rw [hpend, texts_cons] at h
      rw [hpend, List.length_cons] at hfuel
      rw [hpend, texts_cons]
      by_cases hnil : (tokenText s.inquotes tok).1.length = 0
      · obtain ⟨string, -, he⟩ := parseLoop_round beyond fuel hp
          (by rw [hnil]; decide)
        rw [he, if_pos hnil, if_pos hnil, List.append_nil]
      · rw [if_neg hnil] at h
        obtain ⟨hn, hall⟩ := h
        rw [List.length_cons] at hn
        obtain ⟨hfit, hrest⟩ := List.forall_mem_cons.mp hall
        obtain ⟨string, -, he⟩ := parseLoop_round beyond fuel hp hfit
        rw [he, if_neg hnil, if_neg hnil, if_pos (by omega)]
        dsimp only
        by_cases hc : (tokenText s.inquotes tok).2.2
        · rw [if_pos hc, if_pos hc, Scan.params_next]
        · rw [if_neg hc] at hn hrest
          rw [if_neg hc, if_neg hc, ih]
          · rw [Scan.params_next, Scan.inquotes_next, Scan.pending_next, List.append_assoc,
              List.singleton_append]
          · rw [Scan.pending_next]
            exact Nat.lt_of_succ_lt_succ hfuel
          · rw [Scan.params_next, Scan.inquotes_next, Scan.pending_next]
            dsimp only
            rw [List.length_append, List.length_singleton]
            exact ⟨by omega, hrest⟩

/-- Texts that do not are written over an end, at the latest when something is behind the
array. -/
theorem parseLoop_of_not_fits (fuel : Nat) {s : Scan} (hs : s.params.length ≤ maxParamsLen)
    (h : ¬ Fits s.params.length (texts s.inquotes s.pending)) :
    parseLoop true fuel s = none ∨ parseLoop true fuel s = some .overrun := by
  induction fuel generalizing s with
  | zero => exact .inl rfl
  | succ fuel ih =>
    cases hp : s.ptr with
    | none =>
      have hpend : s.pending = [] := by rw [Scan.pending, hp]
      rw [hpend, texts] at h
      exact absurd ⟨hs, by simp⟩ h
    | some tok =>
      have hpend : s.pending = tok :: pieces s.saved := by rw [Scan.pending, hp]
      rw [hpend, texts_cons] at h
      by_cases hfit : (tokenText s.inquotes tok).1.length < stringSize
      · obtain ⟨string, -, he⟩ := parseLoop_round true fuel hp hfit
        by_cases hnil : (tokenText s.inquotes tok).1.length = 0
        · rw [if_pos hnil] at h
          exact absurd ⟨hs, by simp⟩ h
        · rw [if_neg hnil] at h
          rw [he, if_neg hnil]
          by_cases hlt : s.params.length < maxParamsLen
          · rw [if_pos hlt]
            dsimp only
            by_cases hc : (tokenText s.inquotes tok).2.2
            · rw [if_pos hc] at h
              exact absurd ⟨hlt, by simpa using hfit⟩ h
            · rw [if_neg hc] at h ⊢
              refine ih ?_ fun hf => h ?_
              · rw [Scan.params_next, List.length_append, List.length_singleton]
                exact hlt
              · rw [Scan.params_next, Scan.inquotes_next, Scan.pending_next] at hf
                obtain ⟨hn, hall⟩ := hf
                dsimp only at hn
                rw [List.length_append, List.length_singleton] at hn
                exact ⟨by rw [List.length_cons]; omega, List.forall_mem_cons.mpr ⟨hfit, hall⟩⟩
          · rw [if_neg hlt]
            exact .inr rfl
      · exact .inr (parseLoop_long true fuel hp (Nat.le_of_not_lt hfit))

/-! ## Lines -/

/-- The call ends, and within the buffers, whatever is on the stack behind and in them. -/
def LineSafe (buffer : List Byte) : Prop :=
  ∀ beyond string, ∃ fuel o, parseLineUnformatted beyond string fuel buffer = some o ∧
    o ≠ .overrun

/-- The texts in the C string that the buffer holds. -/
def bufferTexts (buffer : List Byte) : List (List Byte) := lineTexts (buffer.takeWhile (· ≠ 0))

theorem Scan.pending_start (string : Nat → Byte) (line : List Byte) :
    (Scan.start string line).pending = tokens line := by
  unfold start tokens
  split <;> rfl

@[simp] theorem Scan.params_start (string : Nat → Byte) (line : List Byte) :
    (Scan.start string line).params = [] := by
  unfold start
  split <;> rfl

@[simp] theorem Scan.inquotes_start (string : Nat → Byte) (line : List Byte) :
    (Scan.start string line).inquotes = false := by
  unfold start
  split <;> rfl

theorem tokenText_of_blank {tok : List Byte} (h : ∀ c ∈ tok, isspace c) :
    (tokenText false tok).1 = [] := by
  induction tok with
  | nil => rfl
  | cons c cs ih =>
    obtain ⟨hc, hcs⟩ := List.forall_mem_cons.mp h
    have hquote : c ≠ quote := by
      rintro rfl
      cases hc
    have hhash : c ≠ hash := by
      rintro rfl
      cases hc
    rw [tokenText, if_neg hquote, if_neg fun hh => hhash hh.1, if_neg (by simp [hc])]
    exact ih hcs

theorem mem_of_strtok {delim : Byte} {s tok rest : List Byte}
    (h : strtok delim s = some (tok, rest)) {c : Byte} (hc : c ∈ tok) : c ∈ s := by
  unfold strtok at h
  split at h
  · cases h
  · obtain ⟨rfl, -⟩ := Prod.mk.inj (Option.some.inj h)
    exact (List.dropWhile_sublist _).subset ((List.takeWhile_sublist _).subset hc)

theorem lineTexts_of_blank {line : List Byte} (h : line.all isspace) : lineTexts line = [] := by
  rw [lineTexts, tokens]
  split
  · rfl
  · rename_i tok rest hs
    have htok : ∀ c ∈ tok, isspace c := fun c hc =>
      List.all_eq_true.mp h c (mem_of_strtok hs hc)
    rw [texts_cons, if_pos (by rw [tokenText_of_blank htok]; rfl)]

/-- A line is safe exactly if its texts fit. -/
theorem lineSafe_iff (buffer : List Byte) : LineSafe buffer ↔ Fits 0 (bufferTexts buffer) := by
  by_cases hb : (buffer.takeWhile (· ≠ 0)).all isspace
  · refine ⟨fun _ => ?_, fun _ beyond string => ⟨0, .blank, if_pos hb, by simp⟩⟩
    rw [bufferTexts, lineTexts_of_blank hb]
    exact ⟨by decide, by simp⟩
  · have hloop : ∀ beyond string fuel, parseLineUnformatted beyond string fuel buffer =
        parseLoop beyond fuel (.start string (buffer.takeWhile (· ≠ 0))) := fun _ _ _ => if_neg hb
    have htexts : ∀ string, texts (Scan.start string (buffer.takeWhile (· ≠ 0))).inquotes
        (Scan.start string (buffer.takeWhile (· ≠ 0))).pending = bufferTexts buffer := by
      intro string
      rw [Scan.inquotes_start, Scan.pending_start]
      rfl
    constructor
    · intro h
      by_contra hnot
      obtain ⟨fuel, o, ho, hne⟩ := h true fun _ => 0
      rw [hloop] at ho
      have hfits : ¬ Fits (Scan.start (fun _ => 0) (buffer.takeWhile (· ≠ 0))).params.length
          (bufferTexts buffer) := by
        rw [Scan.params_start]
        exact hnot
      rw [← htexts fun _ => 0] at hfits
      rcases parseLoop_of_not_fits fuel (by simp) hfits with hn | hn
      · cases ho.symm.trans hn
      · exact hne (Option.some.inj (ho.symm.trans hn))
    · intro h beyond string
      refine ⟨_, _, (hloop ..).trans (parseLoop_of_fits beyond (Nat.lt_succ_self _) ?_), by simp⟩
      rw [htexts, Scan.params_start]
      exact h

/-! ## Names and values -/

theorem copyName_of_fits {src : List Byte} (name : Nat → Byte) (i : Nat)
    (h : i + (src.takeWhile (· ≠ equalsSign)).length < maxParamName) :
    ∃ name', copyName src name i = some (src.dropWhile (· ≠ equalsSign), name') := by
  induction src generalizing name i with
  | nil =>
    rw [copyName, put_of_lt name 0 (by simpa using h)]
    exact ⟨_, rfl⟩
  | cons c src ih =>
    rw [copyName]
    by_cases hc : c ≠ equalsSign
    · rw [List.takeWhile_cons_of_pos (by simpa using hc), List.length_cons] at h
      rw [if_pos hc, put_of_lt name c (by omega), List.dropWhile_cons_of_pos (by simpa using hc)]
      exact ih _ (i + 1) (by omega)
    · rw [List.takeWhile_cons_of_neg (by simpa using hc)] at h
      rw [if_neg hc, put_of_lt name 0 (by simpa using h),
        List.dropWhile_cons_of_neg (by simpa using hc)]
      exact ⟨_, rfl⟩

theorem copyName_of_long {src : List Byte} (name : Nat → Byte) (i : Nat)
    (h : maxParamName ≤ i + (src.takeWhile (· ≠ equalsSign)).length) :
    copyName src name i = none := by
  induction src generalizing name i with
  | nil => rw [copyName, put_of_le name 0 (by simpa using h)]; rfl
  | cons c src ih =>
    rw [copyName]
    by_cases hc : c ≠ equalsSign
    · rw [List.takeWhile_cons_of_pos (by simpa using hc), List.length_cons] at h
      rw [if_pos hc]
      by_cases hi : i < maxParamName
      · rw [put_of_lt name c hi]
        exact ih _ (i + 1) (by omega)
      · rw [put_of_le name c (Nat.le_of_not_lt hi)]
    · rw [List.takeWhile_cons_of_neg (by simpa using hc)] at h
      rw [if_neg hc, put_of_le name 0 (by simpa using h)]
      rfl

theorem isSome_strcpy {size : Nat} {src : List Byte} (dst : Nat → Byte) (i : Nat) :
    (strcpy size src dst i).isSome ↔ i + src.length < size := by
  induction src generalizing dst i with
  | nil => simp [strcpy, put]
  | cons c src ih =>
    rw [strcpy, List.length_cons]
    by_cases hi : i < size
    · rw [put_of_lt dst c hi]
      dsimp only
      rw [ih]
      omega
    · rw [put_of_le dst c (Nat.le_of_not_lt hi)]
      simp only [Option.isSome_none, Bool.false_eq_true, false_iff]
      omega

/-- The name fits its buffer, and the value its own if there is one. -/
def ParamFits (valueSize : Nat) (param : List Byte) : Prop :=
  (param.takeWhile (· ≠ equalsSign)).length < maxParamName ∧
    (equalsSign ∈ param → (param.dropWhile (· ≠ equalsSign)).tail.length < valueSize)

theorem isSome_splitParam {valueSize : Nat} {param : List Byte} (name value : Nat → Byte) :
    (splitParam valueSize param name value).isSome ↔ ParamFits valueSize param := by
  rw [splitParam, ParamFits]
  by_cases hn : (param.takeWhile (· ≠ equalsSign)).length < maxParamName
  · obtain ⟨name', he⟩ := copyName_of_fits name 0 (by rwa [Nat.zero_add])
    rw [he]
    cases hd : param.dropWhile (· ≠ equalsSign) with
    | nil =>
      have hmem : equalsSign ∉ param := fun hm => by
        simpa using List.dropWhile_eq_nil_iff.mp hd _ hm
      simp only [hn, hmem, true_and, false_imp_iff, Option.isSome_some]
    | cons c src =>
      have hmem : equalsSign ∈ param := by
        by_contra hnot
        have hnil : param.dropWhile (· ≠ equalsSign) = [] :=
          List.dropWhile_eq_nil_iff.mpr fun x hx => by
            simpa using fun he : x = equalsSign => hnot (he ▸ hx)
        cases hd.symm.trans hnil
      simp only [hn, hmem, true_and, forall_const, List.tail_cons, Option.isSome_map, isSome_strcpy,
        Nat.zero_add]
  · rw [copyName_of_long name 0 (by omega)]
    simp only [hn, false_and, Option.isSome_none, Bool.false_eq_true]

/-- A line is parsed within the buffers exactly if its texts are at most `maxParamsLen` and
fit `string`, and a parameter is split within them exactly if its name and value fit. -/
theorem parse_in_bounds_iff (buffer param : List Byte) (valueSize : Nat) :
    (LineSafe buffer ↔ Fits 0 (bufferTexts buffer)) ∧
      ((∀ name value, (splitParam valueSize param name value).isSome) ↔
        ParamFits valueSize param) :=
  ⟨lineSafe_iff buffer, fun h => (isSome_splitParam _ _).mp (h (fun _ => 0) fun _ => 0),
    fun h name value => (isSome_splitParam name value).mpr h⟩

/-- `a:b,b,..,b` with one parameter too many. -/
def tooManyParams : List Byte := 97 :: colon :: (List.replicate maxParamsLen [98, comma]).flatten

/-- A line with 41 parameters is not safe, nor is a name of 32 characters. -/
theorem parse_out_of_bounds :
    ¬ LineSafe tooManyParams ∧
      splitParam maxParamName (List.replicate 32 97 ++ [equalsSign]) (fun _ => 0) (fun _ => 0) =
        none := by
  constructor
  · rw [lineSafe_iff]
    rintro ⟨hn, -⟩
    revert hn
    decide
  · rw [splitParam, copyName_of_long _ _ (by decide)]

end SkyEye.Config
