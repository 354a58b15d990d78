import Mathlib.Data.BitVec
import Mathlib.Data.List.TakeWhile
import Mathlib.Algebra.BigOperators.Group.List.Basic
import SkyEye.Lib.Word

/-!
# Reading the configuration file

The loop of `skyeye_read_config` in `skyeye_config.c`: `fgets` takes the file apart into
chunks that fit the buffer, the last character of each chunk is cut off, and what is left
goes to `parse_line_unformatted` until one line is refused.
-/

namespace SkyEye.Config

abbrev Byte := BitVec 8

def newline : Byte := 10

def maxStr : Nat := 1024

/-- What `fgets` reads with room for `n` characters: the chunk, the rest of the file and
whether the end of the file was met. -/
def fgets : Nat → List Byte → List Byte × List Byte × Bool
  | 0, file => ([], file, false)
  | _ + 1, [] => ([], [], true)
  | n + 1, b :: file =>
    if b = newline then ([b], file, false)
    else
      let (chunk, rest, eof) := fgets n file
      (b :: chunk, rest, eof)

/-- The C string in the buffer, less its last character. -/
def trimmed (chunk : List Byte) : List Byte := (chunk.takeWhile (· ≠ 0)).dropLast

/-- The characters that `fgets (line, sizeof (line) - 1, ..)` has room for. -/
def room : Nat := maxStr - 1 - 1

/-- While the end of the file is not met, a read takes something off. -/
theorem length_fgets : ∀ {n : Nat} {file chunk rest : List Byte},
    fgets (n + 1) file = (chunk, rest, false) → rest.length < file.length
  | n, [], chunk, rest, h => by simp [fgets] at h
  | n, b :: file, chunk, rest, h => by
    rw [fgets] at h
    split at h
    · simp_all
    · cases n with
      | zero =>
        simp only [fgets, Prod.mk.injEq] at h
        rw [← h.2.1]
        exact Nat.lt_succ_self _
      | succ n =>
        rw [Prod.mk.injEq, Prod.mk.injEq] at h
        have hlt := length_fgets (Prod.ext rfl (Prod.ext h.2.1 h.2.2))
        exact Nat.lt_succ_of_lt hlt

/-- The loop of `skyeye_read_config`. At the end of the file `fgets` returns `NULL`, and
nothing is handed over. -/
def readConfig {σ : Type} (parseLine : List Byte → σ → Int × σ) (file : List Byte) (s : σ) :
    Int × σ :=
  match _h : fgets room file with
  | (chunk, rest, eof) =>
    let line := trimmed chunk
    let (ret, s') := if chunk ≠ [] ∧ line ≠ [] then parseLine line s else (0, s)
    if ret < 0 then (-1, s')
    else if _he : eof then (0, s')
    else readConfig parseLine rest s'
termination_by file.length
decreasing_by
  obtain rfl : eof = false := by simpa using _he
  exact length_fgets _h

/-! ## The lines that are handed over -/

/-- The chunks that the file is read in. -/
def chunks (file : List Byte) : List (List Byte) :=
  match _h : fgets room file with
  | (chunk, rest, eof) =>
    if _he : eof then [chunk] else chunk :: chunks rest
termination_by file.length
decreasing_by
  obtain rfl : eof = false := by simpa using _he
  exact length_fgets _h

/-- The lines that are handed over when none is refused. -/
def handed (file : List Byte) : List (List Byte) := ((chunks file).map trimmed).filter (· ≠ [])

/-- Lines are parsed in order until one is refused. -/
def parseLines {σ : Type} (parseLine : List Byte → σ → Int × σ) :
    List (List Byte) → σ → Int × σ
  | [], s => (0, s)
  | line :: lines, s =>
    let (ret, s') := parseLine line s
    if ret < 0 then (-1, s') else parseLines parseLine lines s'

theorem chunks_of_eof {file chunk rest : List Byte} (h : fgets room file = (chunk, rest, true)) :
    chunks file = [chunk] := by
  rw [chunks]
  split
  rename_i h'
  cases h.symm.trans h'
  rfl

theorem chunks_of_more {file chunk rest : List Byte}
    (h : fgets room file = (chunk, rest, false)) : chunks file = chunk :: chunks rest := by
  rw [chunks]
  split
  rename_i h'
  cases h.symm.trans h'
  rfl

/-- Induction over the reads. -/
theorem reads_induction {P : List Byte → Prop}
    (eof : ∀ file chunk rest, fgets room file = (chunk, rest, true) → P file)
    (more : ∀ file chunk rest, fgets room file = (chunk, rest, false) → P rest → P file)
    (file : List Byte) : P file := by
  induction file using chunks.induct with
  | case1 file chunk rest h => exact eof file chunk rest h
  | case2 file chunk rest b h he ih =>
    obtain rfl : b = false := by simpa using he
    exact more file chunk rest h ih

theorem handed_of_eof {file chunk rest : List Byte} (h : fgets room file = (chunk, rest, true)) :
    handed file = [trimmed chunk].filter (· ≠ []) := by
  rw [handed, chunks_of_eof h, List.map_singleton]

theorem handed_of_more {file chunk rest : List Byte}
    (h : fgets room file = (chunk, rest, false)) :
    handed file = [trimmed chunk].filter (· ≠ []) ++ handed rest := by
  rw [handed, chunks_of_more h, List.map_cons, ← List.singleton_append, List.filter_append]
  rfl

section Parse

variable {σ : Type} (parseLine : List Byte → σ → Int × σ)

theorem trimmed_ne_nil {chunk : List Byte} (h : trimmed chunk ≠ []) : chunk ≠ [] := by
  rintro rfl
  exact h rfl

theorem readConfig_eq (file : List Byte) (s : σ) :
    readConfig parseLine file s = parseLines parseLine (handed file) s := by
  induction file using reads_induction generalizing s with
  | eof file chunk rest h =>
    rw [handed_of_eof h, readConfig]
    split
    rename_i h'
    cases h.symm.trans h'
    by_cases ht : trimmed chunk = []
    · simp [ht, parseLines]
    · simp [ht, trimmed_ne_nil ht, parseLines]
  | more file chunk rest h ih =>
    rw [handed_of_more h, readConfig]
    split
    rename_i h'
    cases h.symm.trans h'
    by_cases ht : trimmed chunk = []
    · simp [ht, ih]
    · simp [ht, trimmed_ne_nil ht, parseLines, ih]

end Parse

/-- The lines of the file that are not empty, without their newlines. -/
def fileLines (file : List Byte) : List (List Byte) := (file.splitOn newline).filter (· ≠ [])

/-- The file consists of lines that the buffer holds, each with its newline, and no
character of it is NUL. -/
def LineFile (file : List Byte) : Prop :=
  ∃ ls : List (List Byte), (∀ l ∈ ls, l.length < room ∧ ∀ b ∈ l, b ≠ 0 ∧ b ≠ newline) ∧
    file = (ls.map (· ++ [newline])).flatten

/-! ## Counting characters -/

/-- The characters of the lines. -/
def size (ls : List (List Byte)) : Nat := (ls.map List.length).sum

/-- The characters of a file that are not newlines. -/
def textCount (file : List Byte) : Nat := file.countP (· ≠ newline)

theorem size_cons (l : List Byte) (ls : List (List Byte)) :
    size (l :: ls) = l.length + size ls := by
  simp [size]

theorem size_append (ls ls' : List (List Byte)) : size (ls ++ ls') = size ls + size ls' := by
  simp [size]

theorem size_filter (ls : List (List Byte)) : size (ls.filter (· ≠ [])) = size ls := by
  induction ls with
  | nil => rfl
  | cons l ls ih =>
    by_cases hl : l = []
    · rw [List.filter_cons_of_neg (by simpa using hl), ih, size_cons, hl]
      simp
    · rw [List.filter_cons_of_pos (by simpa using hl), size_cons, size_cons, ih]

theorem size_fileLines (file : List Byte) : size (fileLines file) = textCount file := by
  rw [fileLines, size_filter]
  induction file with
  | nil => rfl
  | cons b file ih =>
    rw [List.splitOn_cons_eq_if_modifyHead, textCount, List.countP_cons, ← textCount, ← ih]
    split
    · rename_i hb
      simp [size_cons, eq_of_beq hb]
    · rename_i hb
      obtain ⟨l, ls, hls⟩ := List.exists_cons_of_ne_nil (List.splitOn_ne_nil newline file)
      have hne : b ≠ newline := by simpa using hb
      simp [hls, size_cons, hne]
      omega

theorem textCount_of_notMem {l : List Byte} (h : newline ∉ l) : textCount l = l.length := by
  refine List.countP_eq_length.mpr fun b hb => ?_
  simpa using fun he : b = newline => h (he ▸ hb)

theorem length_takeWhile_le (l : List Byte) : (l.takeWhile (· ≠ 0)).length ≤ l.length :=
  (List.takeWhile_sublist _).length_le

/-- A chunk without a newline loses a character. -/
theorem length_trimmed_lt {chunk : List Byte} (hne : chunk ≠ []) (h : newline ∉ chunk) :
    (trimmed chunk).length < textCount chunk := by
  have hpos := List.length_pos_iff.mpr hne
  have hle := length_takeWhile_le chunk
  rw [textCount_of_notMem h, trimmed, List.length_dropLast]
  omega

theorem trimmed_line {l : List Byte} (h : ∀ b ∈ l, b ≠ 0) : trimmed (l ++ [newline]) = l := by
  have ht : (l ++ [newline]).takeWhile (· ≠ 0) = l ++ [newline] := by
    refine List.takeWhile_eq_self_iff.mpr fun b hb => ?_
    rcases List.mem_append.mp hb with hb | hb
    · simpa using h b hb
    · rw [List.mem_singleton.mp hb]
      rfl
  rw [trimmed, ht, List.dropLast_concat]

theorem textCount_line {l : List Byte} (h : newline ∉ l) :
    textCount (l ++ [newline]) = l.length := by
  rw [textCount, List.countP_append, ← textCount, textCount_of_notMem h]
  rfl

/-- A line keeps its characters only if none of them is NUL. -/
theorem length_trimmed_line {l : List Byte} (h : newline ∉ l) :
    (trimmed (l ++ [newline])).length ≤ textCount (l ++ [newline]) ∧
      ((trimmed (l ++ [newline])).length = textCount (l ++ [newline]) → ∀ b ∈ l, b ≠ 0) := by
  have hle := length_takeWhile_le (l ++ [newline])
  rw [textCount_line h, trimmed, List.length_dropLast]
  rw [List.length_append, List.length_singleton] at hle
  refine ⟨by omega, fun he b hb => ?_⟩
  have hpos := List.length_pos_of_mem hb
  have hlen : ((l ++ [newline]).takeWhile (· ≠ 0)).length = (l ++ [newline]).length := by
    rw [List.length_append, List.length_singleton]
    omega
  have hsub := List.takeWhile_sublist (p := (· ≠ (0 : Byte))) (l := l ++ [newline])
  have hall := hsub.eq_of_length hlen
  have hb' := List.takeWhile_eq_self_iff.mp hall b (List.mem_append_left _ hb)
  simpa using hb'

/-! ## What a read takes -/

/-- A read takes a line with its newline, or characters among which there is none. -/
theorem fgets_spec : ∀ {n : Nat} {file chunk rest : List Byte} {eof : Bool},
    fgets n file = (chunk, rest, eof) →
      file = chunk ++ rest ∧ (eof = true → rest = [] ∧ newline ∉ chunk) ∧
        (newline ∉ chunk ∨
          ∃ l, chunk = l ++ [newline] ∧ newline ∉ l ∧ l.length < n)
  | 0, file, chunk, rest, eof, h => by
    obtain ⟨rfl, rfl, rfl⟩ : [] = chunk ∧ file = rest ∧ false = eof := by simpa [fgets] using h
    simp
  | n + 1, [], chunk, rest, eof, h => by
    obtain ⟨rfl, rfl, rfl⟩ : [] = chunk ∧ [] = rest ∧ true = eof := by simpa [fgets] using h
    simp
  | n + 1, b :: file, chunk, rest, eof, h => by
    rw [fgets] at h
    split at h
    · rename_i hb
      obtain ⟨rfl, rfl, rfl⟩ : [b] = chunk ∧ file = rest ∧ false = eof := by simpa using h
      exact ⟨rfl, fun he => by simp at he, .inr ⟨[], by rw [hb]; rfl, by simp, Nat.zero_lt_succ _⟩⟩
    · rename_i hb
      obtain ⟨rfl, rfl, rfl⟩ : b :: (fgets n file).1 = chunk ∧ (fgets n file).2.1 = rest ∧
          (fgets n file).2.2 = eof := by simpa [Prod.ext_iff] using h
      obtain ⟨hf, he, hc⟩ := @fgets_spec n file _ _ _ rfl
      have hne : newline ≠ b := Ne.symm hb
      refine ⟨congrArg (b :: ·) hf, fun h => ⟨(he h).1, by simpa [hne] using (he h).2⟩, ?_⟩
      rcases hc with hc | ⟨l, hl, hnl, hlen⟩
      · exact .inl (by simpa [hne] using hc)
      · exact .inr ⟨b :: l, by rw [hl]; rfl, by simpa [hne] using hnl, Nat.succ_lt_succ hlen⟩

theorem fgets_line : ∀ {n : Nat} {l : List Byte} (rest : List Byte), l.length < n → newline ∉ l →
    fgets n (l ++ newline :: rest) = (l ++ [newline], rest, false)
  | n + 1, [], rest, _, _ => by simp [fgets]
  | n + 1, b :: l, rest, hlen, hl => by
    have hb : b ≠ newline := fun he => hl (he ▸ List.mem_cons_self)
    have hrec := fgets_line (n := n) rest (Nat.lt_of_succ_lt_succ hlen)
      fun hm => hl (List.mem_cons_of_mem _ hm)
    rw [List.cons_append, fgets, if_neg hb, hrec]
    rfl

/-! ## The lines of the file -/

theorem fileLines_line {l : List Byte} (rest : List Byte) (h : newline ∉ l) :
    fileLines (l ++ newline :: rest) = [l].filter (· ≠ []) ++ fileLines rest := by
  rw [fileLines, List.splitOn_append_cons_self_of_not_mem h, ← List.singleton_append,
    List.filter_append]
  rfl

theorem lineFile_line {l rest : List Byte} (hlen : l.length < room)
    (hl : ∀ b ∈ l, b ≠ 0 ∧ b ≠ newline) (h : LineFile rest) : LineFile (l ++ newline :: rest) := by
  obtain ⟨ls, hls, rfl⟩ := h
  exact ⟨l :: ls, List.forall_mem_cons.mpr ⟨⟨hlen, hl⟩, hls⟩, by simp⟩

theorem handed_of_lineFile {file : List Byte} (h : LineFile file) :
    handed file = fileLines file := by
  obtain ⟨ls, hls, rfl⟩ := h
  induction ls with
  | nil =>
    have hread : fgets room [] = ([], [], true) := rfl
    rw [List.map_nil, List.flatten_nil, handed_of_eof hread]
    rfl
  | cons l ls ih =>
    obtain ⟨⟨hlen, hl⟩, hls⟩ := List.forall_mem_cons.mp hls
    have hnl : newline ∉ l := fun hm => (hl newline hm).2 rfl
    rw [List.map_cons, List.flatten_cons, List.append_assoc, List.singleton_append,
      handed_of_more (fgets_line _ hlen hnl), trimmed_line fun b hb => (hl b hb).1,
      fileLines_line _ hnl, ih hls]

/-- Characters are lost, or the file is one of lines. -/
theorem size_handed (file : List Byte) :
    size (handed file) ≤ textCount file ∧
      (size (handed file) = textCount file → LineFile file) := by
  induction file using reads_induction with
  | eof file chunk rest h =>
    obtain ⟨rfl, he, -⟩ := fgets_spec h
    obtain ⟨rfl, hnl⟩ := he rfl
    rw [handed_of_eof h, size_filter, List.append_nil]
    by_cases hc : chunk = []
    · subst hc
      exact ⟨Nat.le_refl _, fun _ => ⟨[], by simp, rfl⟩⟩
    · have hlt := length_trimmed_lt hc hnl
      rw [size_cons]
      exact ⟨Nat.le_of_lt hlt, fun he => absurd he (Nat.ne_of_lt hlt)⟩
  | more file chunk rest h ih =>
    have hrest := length_fgets h
    obtain ⟨rfl, -, hc⟩ := fgets_spec h
    rw [handed_of_more h, size_append, size_filter, size_cons]
    have hcount : textCount (chunk ++ rest) = textCount chunk + textCount rest :=
      List.countP_append
    rw [hcount]
    rcases hc with hnl | ⟨l, rfl, hnl, hlen⟩
    · have hc : chunk ≠ [] := by
        rintro rfl
        exact absurd hrest (Nat.lt_irrefl _)
      have hlt := length_trimmed_lt hc hnl
      have hsum : (trimmed chunk).length + size [] + size (handed rest) <
          textCount chunk + textCount rest := Nat.add_lt_add_of_lt_of_le hlt ih.1
      exact ⟨Nat.le_of_lt hsum, fun he => absurd he (Nat.ne_of_lt hsum)⟩
    · obtain ⟨hle, heq⟩ := length_trimmed_line hnl
      have h0 : size [] = 0 := rfl
      refine ⟨by omega, fun he => ?_⟩
      have hl := heq (by omega)
      rw [List.append_assoc, List.singleton_append]
      exact lineFile_line hlen (fun b hb => ⟨hl b hb, fun hn => hnl (hn ▸ hb)⟩)
        (ih.2 (by omega))

theorem handed_iff (file : List Byte) : handed file = fileLines file ↔ LineFile file := by
  refine ⟨fun h => (size_handed file).2 ?_, handed_of_lineFile⟩
  rw [h, size_fileLines]

/-! ## The configuration that is read -/

theorem LineFile.append_newline {file : List Byte} (h : LineFile file) :
    LineFile (file ++ [newline]) := by
  obtain ⟨ls, hls, rfl⟩ := h
  refine ⟨ls ++ [[]], fun l hl => ?_, by simp⟩
  rcases List.mem_append.mp hl with hl | hl
  · exact hls l hl
  · rw [List.mem_singleton.mp hl]
    exact ⟨by decide, by simp⟩

theorem fileLines_append_newline (file : List Byte) :
    fileLines (file ++ [newline]) = fileLines file := by
  rw [fileLines, List.splitOn_append_cons_self, List.filter_append]
  simp [fileLines]

/-- A parser that takes every line down. -/
def record (line : List Byte) (s : List (List Byte)) : Int × List (List Byte) := (0, s ++ [line])

theorem parseLines_record (ls s : List (List Byte)) : parseLines record ls s = (0, s ++ ls) := by
  induction ls generalizing s with
  | nil => simp [parseLines]
  | cons l ls ih => simp [parseLines, record, ih]

/-- Whatever a line does, the configuration is that of the lines of the file, and a newline
at the end makes no difference, exactly if the file consists of whole lines. -/
theorem readConfig_lines_iff (file : List Byte) :
    (∀ (σ : Type) (parseLine : List Byte → σ → Int × σ) (s : σ),
      readConfig parseLine file s = parseLines parseLine (fileLines file) s ∧
        readConfig parseLine (file ++ [newline]) s = readConfig parseLine file s) ↔
      LineFile file := by
  constructor
  · intro h
    have hr := (h _ record []).1
    rw [readConfig_eq, parseLines_record, parseLines_record] at hr
    exact (handed_iff file).mp (congrArg Prod.snd hr)
  · intro h σ parseLine s
    rw [readConfig_eq, readConfig_eq, handed_of_lineFile h, handed_of_lineFile h.append_newline,
      fileLines_append_newline]
    exact ⟨rfl, rfl⟩

/-- A last line without a newline loses its last character: `a:b` is read as `a:`. -/
theorem readConfig_last_line :
    readConfig record [97, 58, 98] [] = (0, [[97, 58]]) ∧
      readConfig record [97, 58, 98] [] ≠ parseLines record (fileLines [97, 58, 98]) [] := by
  have hr : readConfig record [97, 58, 98] [] = (0, [[97, 58]]) := by
    have hread : fgets room [97, 58, 98] = ([97, 58, 98], [], true) := rfl
    rw [readConfig_eq, parseLines_record, handed_of_eof hread]
    decide
  refine ⟨hr, ?_⟩
  rw [hr, parseLines_record]
  decide

end SkyEye.Config
