import Mathlib.Data.List.DropRight
import Mathlib.Data.List.Basic
import Mathlib.Data.List.Induction
import Mathlib.Tactic.Common

/-! The part of `core:strings` the program calls, on byte strings: searching, cutting
and replacing, and the `Builder` whose backing array outlives a reset. -/

namespace GrebballPlus

abbrev Bytes := List UInt8

def NUL : UInt8 := 0
def LF : UInt8 := 10
def CR : UInt8 := 13
def EQ : UInt8 := 61

def ascii (s : String) : Bytes := s.toList.map fun c => UInt8.ofNat c.toNat

theorem ascii_append (s t : String) : ascii (s ++ t) = ascii s ++ ascii t := by
  simp [ascii]

section

variable {c : UInt8} {s : Bytes}

theorem forall_ne_of_not_mem (h : c ∉ s) : ∀ b ∈ s, decide (b ≠ c) = true := by
  intro b hb
  exact decide_eq_true (ne_of_mem_of_not_mem hb h)

theorem takeWhile_of_not_mem (h : c ∉ s) : s.takeWhile (· ≠ c) = s :=
  List.takeWhile_eq_self_iff.mpr (forall_ne_of_not_mem h)

theorem takeWhile_append_self (s rest : Bytes) :
    (s ++ c :: rest).takeWhile (· ≠ c) = s.takeWhile (· ≠ c) := by
  induction s with
  | nil => simp
  | cons b s ih =>
    rw [List.cons_append, List.takeWhile_cons, List.takeWhile_cons, ih]

theorem takeWhile_append_cons (h : c ∉ s) (rest : Bytes) :
    (s ++ c :: rest).takeWhile (· ≠ c) = s := by
  rw [takeWhile_append_self, takeWhile_of_not_mem h]

theorem dropWhile_append_cons (h : c ∉ s) (rest : Bytes) :
    (s ++ c :: rest).dropWhile (· ≠ c) = c :: rest := by
  rw [List.dropWhile_append_of_pos (forall_ne_of_not_mem h)]
  simp

end

namespace Strings

def index : Bytes → Bytes → Option ℕ
  | [], sep => if sep = [] then some 0 else none
  | b :: s, sep => if sep.isPrefixOf (b :: s) then some 0 else (index s sep).map (· + 1)

theorem index_of_not_mem {c : UInt8} {s : Bytes} (h : c ∉ s) : index s [c] = none := by
  induction s with
  | nil => simp [index]
  | cons b s ih =>
    rw [List.mem_cons, not_or] at h
    simp [index, h.1, ih h.2]

theorem index_append_cons {c : UInt8} {pre : Bytes} (h : c ∉ pre) (post : Bytes) :
    index (pre ++ c :: post) [c] = some pre.length := by
  induction pre with
  | nil => simp [index]
  | cons b pre ih =>
    rw [List.mem_cons, not_or] at h
    simp [index, h.1, ih h.2]

def trimRight (s cutset : Bytes) : Bytes := s.rdropWhile fun b => cutset.contains b

/-- One piece up to `sep` and what is left; nothing once `s` is used up. -/
def splitIterator (s sep : Bytes) : Option (Bytes × Bytes) :=
  match index s sep with
  | none => if s = [] then none else some (s, [])
  | some m => some (s.take m, s.drop (m + sep.length))

def trimCr (line : Bytes) : Bytes := if line.getLast? = some CR then line.dropLast else line

def splitLinesIterator (s : Bytes) : Option (Bytes × Bytes) :=
  (splitIterator s [LF]).map fun (line, rest) => (trimCr line, rest)

/-- At most `n` pieces of `s`, the last one being all that is left. -/
def splitN (s sep : Bytes) : ℕ → List Bytes
  | 0 => []
  | 1 => [s]
  | n + 2 =>
    match index s sep with
    | none => [s]
    | some m => s.take m :: splitN (s.drop (m + sep.length)) sep (n + 1)

/-- `s` with its first `n` occurrences of `old` replaced by `new`. -/
def replace (s old new : Bytes) : ℕ → Bytes
  | 0 => s
  | n + 1 =>
    match index s old with
    | none => s
    | some j => s.take j ++ new ++ replace (s.drop (j + old.length)) old new n

theorem splitIterator_append_cons {c : UInt8} {pre : Bytes} (h : c ∉ pre) (post : Bytes) :
    splitIterator (pre ++ c :: post) [c] = some (pre, post) := by
  simp [splitIterator, index_append_cons h]

theorem splitIterator_of_not_mem {c : UInt8} {s : Bytes} (h : c ∉ s) (hs : s ≠ []) :
    splitIterator s [c] = some (s, []) := by
  simp [splitIterator, index_of_not_mem h, hs]

@[simp] theorem splitLinesIterator_nil : splitLinesIterator [] = none := by
  simp [splitLinesIterator, splitIterator, index]

theorem splitN_two_append_cons {c : UInt8} {pre : Bytes} (h : c ∉ pre) (post : Bytes) :
    splitN (pre ++ c :: post) [c] 2 = [pre, post] := by
  simp [splitN, index_append_cons h]

theorem splitN_two_of_not_mem {c : UInt8} {s : Bytes} (h : c ∉ s) : splitN s [c] 2 = [s] := by
  simp [splitN, index_of_not_mem h]

theorem replace_one_append_cons {c : UInt8} {pre : Bytes} (h : c ∉ pre) (post new : Bytes) :
    replace (pre ++ c :: post) [c] new 1 = pre ++ new ++ post := by
  simp [replace, index_append_cons h]

theorem trimRight_append (s cutset : Bytes) :
    ∃ tail, s = trimRight s cutset ++ tail ∧ ∀ b ∈ tail, b ∈ cutset := by
  refine ⟨s.rtakeWhile fun b => cutset.contains b, ?_, fun b hb => ?_⟩
  · exact List.rdropWhile_append_rtakeWhile.symm
  · simpa using List.mem_rtakeWhile_imp hb

theorem trimRight_getLast {s cutset : Bytes} {b : UInt8}
    (h : (trimRight s cutset).getLast? = some b) : b ∉ cutset := by
  unfold trimRight at h
  have hne : s.rdropWhile (fun b => cutset.contains b) ≠ [] := by
    intro hnil
    rw [hnil] at h
    cases h
  have hlast := List.rdropWhile_last_not _ _ hne
  rw [List.getLast?_eq_some_getLast hne, Option.some.injEq] at h
  rw [h] at hlast
  simpa using hlast

theorem trimRight_append_of_mem {tail cutset : Bytes} (h : ∀ b ∈ tail, b ∈ cutset) (s : Bytes) :
    trimRight (s ++ tail) cutset = trimRight s cutset := by
  induction tail using List.reverseRecOn with
  | nil => rw [List.append_nil]
  | append_singleton tail b ih =>
    have hb : cutset.contains b = true := by
      simpa using h b (List.mem_append_right _ (List.mem_singleton_self b))
    rw [← List.append_assoc, trimRight, List.rdropWhile_concat_pos _ _ _ hb]
    exact ih fun c hc => h c (List.mem_append_left _ hc)

theorem trimRight_of_getLast {s cutset : Bytes} {b : UInt8} (h : s.getLast? = some b)
    (hb : b ∉ cutset) : trimRight s cutset = s := by
  obtain ⟨init, rfl⟩ := List.getLast?_eq_some_iff.mp h
  exact List.rdropWhile_concat_neg _ _ _ (by simpa using hb)

theorem trimCr_append_cr (line : Bytes) : trimCr (line ++ [CR]) = line := by
  simp [trimCr]

theorem trimCr_of_getLast {line : Bytes} (h : line.getLast? ≠ some CR) : trimCr line = line :=
  if_neg h

theorem mem_trimCr {b : UInt8} {line : Bytes} (h : b ∈ trimCr line) : b ∈ line := by
  unfold trimCr at h
  split_ifs at h
  · exact List.dropLast_subset _ h
  · exact h

theorem eq_trimCr_or (line : Bytes) :
    line = trimCr line ∧ line.getLast? ≠ some CR ∨ line = trimCr line ++ [CR] := by
  by_cases h : line.getLast? = some CR
  · obtain ⟨init, rfl⟩ := List.getLast?_eq_some_iff.mp h
    exact Or.inr (by rw [trimCr_append_cr])
  · exact Or.inl ⟨(trimCr_of_getLast h).symm, h⟩

end Strings

/-- `mem` is the backing array, of which the first `len` bytes are the contents. What
an earlier use wrote stays behind them. -/
structure Builder where
  mem : Bytes
  len : ℕ
  len_le : len ≤ mem.length

namespace Builder

def buf (b : Builder) : Bytes := b.mem.take b.len

/-- `builder_init_len_cap` with length 0. -/
def initCap (cap : ℕ) : Builder := ⟨List.replicate cap 0, 0, Nat.zero_le _⟩

def reset (b : Builder) : Builder := ⟨b.mem, 0, Nat.zero_le _⟩

/-- Appending overwrites the stale bytes and grows the array where they end. -/
def writeBytes (b : Builder) (data : Bytes) : Builder :=
  ⟨b.buf ++ data ++ b.mem.drop (b.len + data.length), b.len + data.length, by
    have := b.len_le
    simp only [buf, List.length_append, List.length_take, List.length_drop]
    omega⟩

/-- `to_cstring` appends a NUL and takes it off again: the byte stays behind the
contents, and the C string is what stands before the first NUL of the array. -/
def toCstring (b : Builder) : Bytes × Builder :=
  let b' := b.writeBytes [NUL]
  (b'.mem.takeWhile (· ≠ NUL), ⟨b'.mem, b.len, by
    have := b'.len_le
    have hlen : b'.len = b.len + 1 := rfl
    omega⟩)

@[simp] theorem buf_initCap (cap : ℕ) : (initCap cap).buf = [] := by simp [buf, initCap]

@[simp] theorem buf_reset (b : Builder) : b.reset.buf = [] := by simp [buf, reset]

theorem length_buf (b : Builder) : b.buf.length = b.len := by
  simp [buf, b.len_le]

@[simp] theorem buf_writeBytes (b : Builder) (data : Bytes) :
    (b.writeBytes data).buf = b.buf ++ data := by
  have hlen : (b.buf ++ data).length = b.len + data.length := by
    rw [List.length_append, length_buf]
  rw [buf]
  exact List.take_left' hlen

@[simp] theorem buf_toCstring (b : Builder) : b.toCstring.2.buf = b.buf := by
  simp only [buf, toCstring, writeBytes, List.append_assoc]
  exact List.take_left' b.length_buf

theorem toCstring_fst (b : Builder) : b.toCstring.1 = b.buf.takeWhile (· ≠ NUL) := by
  simp only [toCstring, writeBytes, List.append_assoc, List.singleton_append]
  exact takeWhile_append_self _ _

end Builder

end GrebballPlus
