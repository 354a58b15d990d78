import SkyEye.Lib.Nibbles
import SkyEye.Lib.Runs
import Mathlib.Data.List.GetD
import Mathlib.Algebra.Order.Ring.Int
import SkyEye.Lib.Word

/-!
# Code coverage

`cov_init` and `cov_prof` of `profile/code_cov.c`: a block of memory with a header and four
bits for each word of the configured range, in which the flags of the accesses to the word
are collected. The words are counted from the start of the range.
-/

namespace SkyEye.CodeCov

open Nibbles

abbrev Addr := BitVec 32

abbrev Byte := BitVec 8

/-- The contents of `prof_mem`. -/
abbrev Mem := Nat → Byte

/-- `sizeof(prof_header_t)` -/
def headerLength : Nat := 48

/-- The bytes of an `int` of the header. -/
def intBytes (v : BitVec 32) : List Byte :=
  [v.setWidth 8, (v >>> 8).setWidth 8, (v >>> 16).setWidth 8, (v >>> 24).setWidth 8]

/-- The description with its end, as `strcpy` copies it; the test on its size measures the
pointer and holds. -/
def desc : List Byte := "raw data of code coverage".toList.map (BitVec.ofNat 8 ·.toNat) ++ [0]

/-- `prof_start` and `prof_end` -/
structure Coverage where
  profStart : Addr
  profEnd : Addr

namespace Coverage

variable (c : Coverage)

/-- `prof_header_t` up to the end of the description. -/
def header : List Byte :=
  intBytes 1 ++ intBytes (BitVec.ofNat 32 headerLength) ++ intBytes c.profStart ++
    intBytes c.profEnd ++ desc

def headerInit (mem : Mem) : Mem := fun i => c.header.getD i (mem i)

/-- `prof_size`, an `int` -/
def profSize : Int := (c.profEnd - c.profStart).toInt

def memAlloc : Int := headerLength + (c.profSize.tdiv 4).tdiv 2

/-- `cov_init` in the block that `malloc` returns. -/
def covInit (block : Mem) : Mem := c.headerInit block

/-- An address that is in the range. -/
def InRange (addr : Addr) : Prop := ¬ (addr < c.profStart ∨ c.profEnd ≤ addr)

instance (addr : Addr) : Decidable (c.InRange addr) := inferInstanceAs (Decidable (¬ _))

/-- The index that `cov_prof` uses for an address in the range. -/
def offset (addr : Addr) : Nat := ((addr - c.profStart) / 8).toNat + headerLength

/-- The bits that `cov_prof` sets in the byte. -/
def flagBits (flags : BitVec 32) (addr : Addr) : Byte :=
  (flags <<< ((addr - c.profStart) % 8)).setWidth 8

def covProf (mem : Mem) (flags : BitVec 32) (addr : Addr) : Mem :=
  if addr < c.profStart ∨ c.profEnd ≤ addr then mem
  else
    Function.update mem (c.offset addr) (mem (c.offset addr) ||| c.flagBits flags addr)

end Coverage

/-- A call of `cov_prof`; the flags are those of an entry: 4 for a read, 2 for a write, 1 for
an execution. -/
structure Access where
  flags : BitVec 4
  addr : Addr

namespace Coverage

variable (c : Coverage)

/-- The memory after some calls. -/
def run (mem : Mem) (calls : List Access) : Mem :=
  calls.foldl (fun m a => c.covProf m (a.flags.setWidth 32) a.addr) mem

/-- The four bits of word `k`: behind the header, two words in a byte. -/
def wordEntry (mem : Mem) (k : Nat) : BitVec 4 := entry (fun i => mem (i + headerLength)) k

/-- Word `k` is in the range. -/
def HasWord (k : Nat) : Prop := c.profStart.toNat + 4 * k + 4 ≤ c.profEnd.toNat

/-- The address lies in word `k`. -/
def InWord (k : Nat) (addr : Addr) : Prop :=
  c.profStart.toNat + 4 * k ≤ addr.toNat ∧ addr.toNat < c.profStart.toNat + 4 * k + 4

instance (k : Nat) (addr : Addr) : Decidable (c.InWord k addr) :=
  inferInstanceAs (Decidable (_ ∧ _))

/-- What the entry of word `k` is to hold: the flags of the calls whose address lies in it. -/
def recorded (calls : List Access) (k : Nat) : BitVec 4 :=
  (calls.filter fun a => c.InWord k a.addr).foldl (fun f a => f ||| a.flags) 0

/-- The index of a call is within the allocation. -/
def Allocated (addr : Addr) : Prop := (c.offset addr : Int) < c.memAlloc

/-- The calls are recorded: the entry of every word is that of its calls, which a call to
another word leaves as it is, and no index is beyond the allocation. -/
structure Records (mem : Mem) (calls : List Access) : Prop where
  entries : ∀ k, c.HasWord k → wordEntry mem k = c.recorded calls k
  within : ∀ a ∈ calls, c.InRange a.addr → c.Allocated a.addr

/-- The address starts a word, or every bit that is set in the wrong place or missed in the
right one is set already. -/
def WellPlaced (mem : Mem) (a : Access) : Prop :=
  (a.addr - c.profStart).toNat % 4 = 0 ∨
    ∀ i < 8, (c.flagBits (a.flags.setWidth 32) a.addr).getLsbD i ≠
      (place a.flags ((a.addr - c.profStart).toNat / 4 % 2)).getLsbD i →
        (mem (c.offset a.addr)).getLsbD i

/-! ## Words and bytes -/

variable {c}

theorem toNat_offset (addr : Addr) :
    c.offset addr = (addr - c.profStart).toNat / 4 / 2 + headerLength := by
  have h8 : (8 : BitVec 32).toNat = 8 := rfl
  rw [offset, BitVec.toNat_udiv, h8, Nat.div_div_eq_div_mul]

theorem inRange_iff {addr : Addr} :
    c.InRange addr ↔ c.profStart.toNat ≤ addr.toNat ∧ addr.toNat < c.profEnd.toNat := by
  rw [InRange, BitVec.lt_def, BitVec.le_def]
  omega

theorem toNat_sub_start {addr : Addr} (h : c.profStart.toNat ≤ addr.toNat) :
    (addr - c.profStart).toNat = addr.toNat - c.profStart.toNat :=
  BitVec.toNat_sub_of_le (BitVec.le_def.mpr h)

theorem inWord_iff {addr : Addr} (h : c.InRange addr) (k : Nat) :
    c.InWord k addr ↔ k = (addr - c.profStart).toNat / 4 := by
  obtain ⟨hstart, -⟩ := inRange_iff.mp h
  rw [toNat_sub_start hstart, InWord]
  omega

theorem inRange_of_inWord {k : Nat} {addr : Addr} (hk : c.HasWord k) (h : c.InWord k addr) :
    c.InRange addr := by
  unfold HasWord InWord at *
  exact inRange_iff.mpr (by omega)

theorem tdiv_nonpos {a b : Int} (ha : a ≤ 0) (hb : 0 ≤ b) : a.tdiv b ≤ 0 := by
  have h := Int.tdiv_nonneg (neg_nonneg.mpr ha) hb
  rw [Int.neg_tdiv] at h
  exact neg_nonneg.mp h

/-- The bytes that are allocated hold eight addresses of the range each. -/
theorem le_profSize_of_allocated {addr : Addr} (h : c.Allocated addr) :
    8 * (((addr - c.profStart).toNat / 4 / 2 : Nat) : Int) + 8 ≤ c.profSize := by
  rw [Allocated, toNat_offset, memAlloc] at h
  have hlt : (((addr - c.profStart).toNat / 4 / 2 : Nat) : Int) <
      (c.profSize.tdiv 4).tdiv 2 := by
    omega
  by_cases hneg : c.profSize ≤ 0
  · have hle : (c.profSize.tdiv 4).tdiv 2 ≤ 0 :=
      tdiv_nonpos (tdiv_nonpos hneg (by omega)) (by omega)
    omega
  · have hpos : 0 ≤ c.profSize := by omega
    rw [Int.tdiv_eq_ediv_of_nonneg hpos, Int.tdiv_eq_ediv_of_nonneg (by omega)] at hlt
    omega

/-- A byte of the allocation is that of two words of the range. -/
theorem hasWord_of_allocated {addr : Addr} (h : c.InRange addr) (ha : c.Allocated addr) {k : Nat}
    (hk : k / 2 = (addr - c.profStart).toNat / 4 / 2) : c.HasWord k := by
  obtain ⟨hstart, hend⟩ := inRange_iff.mp h
  have hsize : (c.profEnd - c.profStart).toNat = c.profEnd.toNat - c.profStart.toNat :=
    toNat_sub_start (by omega)
  have hle : c.profSize ≤ (c.profEnd - c.profStart).toNat := by
    rw [profSize, BitVec.toInt_eq_toNat_cond]
    split <;> omega
  have hbytes := le_profSize_of_allocated ha
  rw [HasWord]
  omega

/-! ## The initial memory -/

theorem length_header : c.header.length = 42 := rfl

theorem wordEntry_covInit (block : Mem) (k : Nat) :
    wordEntry (c.covInit block) k = wordEntry block k := by
  have hbehind : c.header.length ≤ k / 2 + headerLength := by
    rw [length_header, headerLength]
    omega
  unfold wordEntry covInit headerInit entry
  beta_reduce
  rw [List.getD_eq_default _ _ hbehind]

/-! ## A call -/

theorem recorded_concat (calls : List Access) (a : Access) (k : Nat) :
    c.recorded (calls ++ [a]) k =
      c.recorded calls k ||| if c.InWord k a.addr then a.flags else 0 := by
  unfold recorded
  rw [List.filter_append, List.foldl_append]
  by_cases h : c.InWord k a.addr
  · simp [h]
  · simp [h]

theorem covProf_of_not_inRange {mem : Mem} {flags : BitVec 32} {addr : Addr}
    (h : ¬ c.InRange addr) : c.covProf mem flags addr = mem :=
  if_pos (not_not.mp h)

theorem data_covProf {mem : Mem} {flags : BitVec 32} {addr : Addr} (h : c.InRange addr) :
    (fun i => c.covProf mem flags addr (i + headerLength)) =
      Function.update (fun i => mem (i + headerLength)) ((addr - c.profStart).toNat / 4 / 2)
        (mem (c.offset addr) ||| c.flagBits flags addr) := by
  funext i
  rw [covProf, if_neg h, toNat_offset]
  by_cases hi : i = (addr - c.profStart).toNat / 4 / 2
  · rw [hi, Function.update_self, Function.update_self]
  · have hne : i + headerLength ≠ (addr - c.profStart).toNat / 4 / 2 + headerLength := by omega
    rw [Function.update_of_ne hi, Function.update_of_ne hne]

/-- At the start of a word the shift is the place of the entry. -/
theorem flagBits_eq_place (flags : BitVec 4) {addr : Addr}
    (h : (addr - c.profStart).toNat % 4 = 0) :
    c.flagBits (flags.setWidth 32) addr = place flags ((addr - c.profStart).toNat / 4 % 2) := by
  have h8 : (8 : BitVec 32).toNat = 8 := rfl
  have hmod : ((addr - c.profStart) % 8).toNat = 4 * ((addr - c.profStart).toNat / 4 % 2) := by
    rw [BitVec.toNat_umod, h8]
    omega
  rw [flagBits, BitVec.shiftLeft_eq', hmod]
  rcases Nat.mod_two_eq_zero_or_one ((addr - c.profStart).toNat / 4) with h0 | h1
  · rw [h0]
    revert flags
    decide
  · rw [h1]
    revert flags
    decide

/-- A call is well placed exactly if it sets the flags of its entry and nothing else. -/
theorem wellPlaced_iff {mem : Mem} {a : Access} :
    c.WellPlaced mem a ↔
      mem (c.offset a.addr) ||| c.flagBits (a.flags.setWidth 32) a.addr =
        mem (c.offset a.addr) ||| place a.flags ((a.addr - c.profStart).toNat / 4 % 2) := by
  rw [or_eq_or_iff]
  refine or_iff_right_of_imp fun h i _ hne => ?_
  rw [flagBits_eq_place _ h] at hne
  exact absurd rfl hne

theorem wellPlaced_iff_entries {mem : Mem} {a : Access} (h : c.InRange a.addr)
    (ha : c.Allocated a.addr) :
    c.WellPlaced mem a ↔ ∀ k, c.HasWord k →
      wordEntry (c.covProf mem (a.flags.setWidth 32) a.addr) k =
        wordEntry mem k ||| if c.InWord k a.addr then a.flags else 0 := by
  have hbyte := or_eq_place_iff (fun i => mem (i + headerLength)) a.flags
    ((a.addr - c.profStart).toNat / 4)
    (c.flagBits (a.flags.setWidth 32) a.addr)
  rw [wellPlaced_iff, toNat_offset, hbyte]
  unfold wordEntry
  rw [data_covProf h, toNat_offset]
  simp only [inWord_iff h]
  constructor
  · intro hw k _
    by_cases hk : k / 2 = (a.addr - c.profStart).toNat / 4 / 2
    · exact hw k hk
    · have hne : k ≠ (a.addr - c.profStart).toNat / 4 := fun he => hk (congrArg (· / 2) he)
      rw [entry_update, if_neg hk, if_neg hne]
      exact (BitVec.or_zero ..).symm
  · exact fun hw k hk => hw k (hasWord_of_allocated h ha hk)

/-- What one call keeps: it is to be within the allocation and well placed. -/
theorem records_covProf_iff {mem : Mem} {calls : List Access} (h : c.Records mem calls)
    (a : Access) :
    c.Records (c.covProf mem (a.flags.setWidth 32) a.addr) (calls ++ [a]) ↔
      (c.InRange a.addr → c.Allocated a.addr ∧ c.WellPlaced mem a) := by
  constructor
  · intro hr hin
    have ha := hr.within a (List.mem_append_right _ (List.mem_singleton_self a)) hin
    refine ⟨ha, (wellPlaced_iff_entries hin ha).mpr fun k hk => ?_⟩
    rw [hr.entries k hk, recorded_concat, h.entries k hk]
  · intro hok
    refine ⟨fun k hk => ?_, fun b hb hin => ?_⟩
    · rw [recorded_concat, ← h.entries k hk]
      by_cases hin : c.InRange a.addr
      · obtain ⟨ha, hw⟩ := hok hin
        exact (wellPlaced_iff_entries hin ha).mp hw k hk
      · have hno : ¬ c.InWord k a.addr := fun hw => hin (inRange_of_inWord hk hw)
        rw [covProf_of_not_inRange hin, if_neg hno]
        exact (BitVec.or_zero ..).symm
    · rcases List.mem_append.mp hb with hb | hb
      · exact h.within b hb hin
      · obtain rfl := List.mem_singleton.mp hb
        exact (hok hin).1

/-! ## A run -/

/-- A call, with the calls before it. -/
def stepWith (c : Coverage) (s : Mem × List Access) (a : Access) : Mem × List Access :=
  (c.covProf s.1 (a.flags.setWidth 32) a.addr, s.2 ++ [a])

theorem foldl_stepWith (calls : List Access) (mem : Mem) (before : List Access) :
    calls.foldl c.stepWith (mem, before) = (c.run mem calls, before ++ calls) := by
  induction calls generalizing mem before with
  | nil => rw [List.append_nil]; rfl
  | cons a calls ih =>
    rw [List.foldl_cons, stepWith, ih, List.append_assoc]
    rfl

theorem records_nil_iff {mem : Mem} :
    c.Records mem [] ↔ ∀ k, c.HasWord k → wordEntry mem k = 0 :=
  ⟨fun h => h.entries, fun h => ⟨h, fun _ hb => absurd hb List.not_mem_nil⟩⟩

/-- The calls are recorded all along exactly if the block that `malloc` returns is clear, and
every call in the range has its byte within the allocation and is well placed. -/
theorem coverage_exact_iff (c : Coverage) (block : Mem) (calls : List Access) :
    (∀ pre post, calls = pre ++ post → c.Records (c.run (c.covInit block) pre) pre) ↔
      (∀ k, c.HasWord k → wordEntry block k = 0) ∧
        ∀ pre a post, calls = pre ++ a :: post → c.InRange a.addr →
          c.Allocated a.addr ∧ c.WellPlaced (c.run (c.covInit block) pre) a := by
  have hinit : c.Records (c.covInit block) [] ↔ ∀ k, c.HasWord k → wordEntry block k = 0 := by
    rw [records_nil_iff]
    simp only [wordEntry_covInit]
  rw [← hinit]
  have hruns (hs : c.Records (c.covInit block) []) :=
    @Runs.inv_prefix_iff _ _ c.stepWith (fun s => c.Records s.1 s.2)
      (fun s a => c.InRange a.addr → c.Allocated a.addr ∧ c.WellPlaced s.1 a)
      (c.covInit block, []) calls (fun _ a h => records_covProf_iff h a) hs
  simp only [foldl_stepWith, List.nil_append] at hruns
  constructor
  · intro h
    have hs : c.Records (c.covInit block) [] := h [] calls rfl
    exact ⟨hs, (hruns hs).mp h⟩
  · rintro ⟨hs, h⟩
    exact (hruns hs).mpr h

end Coverage

def fourWords : Coverage := ⟨0x1000, 0x1010⟩

/-- An execution in a word away from its start, in clear memory, sets the flag of a write. -/
theorem coverage_unaligned :
    Coverage.wordEntry (fourWords.run (fourWords.covInit fun _ => 0) [⟨1, 0x1001⟩]) 0 = 2 ∧
      ¬ fourWords.Records (fourWords.run (fourWords.covInit fun _ => 0) [⟨1, 0x1001⟩])
        [⟨1, 0x1001⟩] := by
  have hentry : Coverage.wordEntry
      (fourWords.run (fourWords.covInit fun _ => 0) [⟨1, 0x1001⟩]) 0 = 2 := by
    decide
  have hword : fourWords.HasWord 0 := by
    unfold Coverage.HasWord
    decide
  refine ⟨hentry, fun h => ?_⟩
  have hrecorded := h.entries 0 hword
  rw [hentry] at hrecorded
  exact absurd hrecorded (by decide)

end SkyEye.CodeCov
