import GrebballPlus.Config.Init

/-! The grammar `config.init` accepts and the table it builds. A content is cut into
lines once and for all; the loop with its iterator is shown to be a fold over them. -/

namespace GrebballPlus.Config

open Strings

/-- The lines of a text: split at LF, each less one trailing CR, none if it is empty. -/
def linesOf (text : Bytes) : List Bytes :=
  if text = [] then [] else (text.splitOn LF).map trimCr

/-- The lines of a file, whose trailing CR and LF bytes do not count. -/
def lines (content : Bytes) : List Bytes :=
  linesOf (content.rdropWhile fun b => b = CR || b = LF)

def keyOf (line : Bytes) : Bytes := line.takeWhile (· ≠ EQ)

def valueOf (line : Bytes) : Bytes := (line.dropWhile (· ≠ EQ)).tail

/-- The copies the loop makes of the lines' keys and values, numbered from `n`. -/
def pairs : ℕ → List Bytes → List (Copy × Copy)
  | _, [] => []
  | n, l :: ls => (⟨n, keyOf l⟩, ⟨n + 1, valueOf l⟩) :: pairs (n + 2) ls

theorem keyOf_append_cons {pre : Bytes} (h : EQ ∉ pre) (post : Bytes) :
    keyOf (pre ++ EQ :: post) = pre :=
  takeWhile_append_cons h post

theorem valueOf_append_cons {pre : Bytes} (h : EQ ∉ pre) (post : Bytes) :
    valueOf (pre ++ EQ :: post) = post := by
  rw [valueOf, dropWhile_append_cons h, List.tail_cons]

theorem linesOf_append_cons {pre post : Bytes} (h : LF ∉ pre) (hpost : post ≠ []) :
    linesOf (pre ++ LF :: post) = trimCr pre :: linesOf post := by
  unfold linesOf
  rw [if_neg (by simp), if_neg hpost, List.splitOn_append_cons_self_of_not_mem h, List.map_cons]

theorem linesOf_of_not_mem {text : Bytes} (h : LF ∉ text) (ht : text ≠ []) :
    linesOf text = [trimCr text] := by
  unfold linesOf
  rw [if_neg ht, List.splitOn_eq_singleton h, List.map_singleton]

/-- The text does not end in LF, so the iterator reports all of its lines. -/
def Closed (text : Bytes) : Prop := text.getLast? ≠ some LF

theorem Closed.tail {pre post : Bytes} (h : Closed (pre ++ LF :: post)) :
    post ≠ [] ∧ Closed post := by
  have hpost : post ≠ [] := by
    rintro rfl
    simp [Closed] at h
  refine ⟨hpost, fun hlast => h ?_⟩
  rw [List.append_cons, List.getLast?_append, hlast, Option.some_or]

theorem closed_trimRight (content : Bytes) : Closed (trimRight content [CR, LF]) :=
  fun h => trimRight_getLast h (by decide)

theorem length_linesOf_le (text : Bytes) (hclosed : Closed text) :
    (linesOf text).length ≤ text.length := by
  induction hn : text.length using Nat.strong_induction_on generalizing text with
  | _ n ih =>
    subst hn
    by_cases hc : LF ∈ text
    · obtain ⟨pre, post, rfl, hpre⟩ := List.eq_append_cons_of_mem hc
      obtain ⟨hpost, hclosed'⟩ := hclosed.tail
      have hlen : (pre ++ LF :: post).length = pre.length + (post.length + 1) := by simp
      have hle := ih post.length (by omega) post hclosed' rfl
      rw [linesOf_append_cons hpre hpost, List.length_cons]
      omega
    · rcases eq_or_ne text [] with rfl | ht
      · simp [linesOf]
      · rw [linesOf_of_not_mem hc ht]
        exact List.length_pos_iff.mpr ht

theorem loop_nil (n : ℕ) (s : Store) : loop n [] s = .ok s := by
  cases n <;> simp [loop]

/-- Turns of the loop are lines of the text: `n` turns consume the first `n` of them. -/
theorem loop_eq_foldlM (n : ℕ) (text : Bytes) (s : Store) (hclosed : Closed text) :
    loop n text s = ((linesOf text).take n).foldlM addLine s := by
  induction n generalizing text s with
  | zero => rfl
  | succ n ih =>
    by_cases hc : LF ∈ text
    · obtain ⟨pre, post, rfl, hpre⟩ := List.eq_append_cons_of_mem hc
      obtain ⟨hpost, hclosed'⟩ := hclosed.tail
      rw [loop, splitLinesIterator, splitIterator_append_cons hpre,
        linesOf_append_cons hpre hpost, List.take_succ_cons, List.foldlM_cons]
      simp only [Option.map_some]
      congr 1
      funext s'
      exact ih post s' hclosed'
    · rcases eq_or_ne text [] with rfl | ht
      · simp only [loop, splitLinesIterator_nil, linesOf, if_true, List.take_nil]
        rfl
      · rw [loop, splitLinesIterator, splitIterator_of_not_mem hc ht, linesOf_of_not_mem hc ht,
          List.take_succ_cons, List.foldlM_cons, List.take_nil]
        simp only [Option.map_some]
        congr 1
        funext s'
        exact loop_nil n s'

theorem lines_eq (content : Bytes) : lines content = linesOf (trimRight content [CR, LF]) := by
  unfold lines trimRight
  congr 2
  funext b
  by_cases h1 : b = CR <;> by_cases h2 : b = LF <;> simp [h1, h2]

theorem mem_of_mem_linesOf {text l : Bytes} (hclosed : Closed text) (hl : l ∈ linesOf text)
    {b : UInt8} (hb : b ∈ l) : b ∈ text := by
  induction hn : text.length using Nat.strong_induction_on generalizing text with
  | _ n ih =>
    subst hn
    by_cases hc : LF ∈ text
    · obtain ⟨pre, post, rfl, hpre⟩ := List.eq_append_cons_of_mem hc
      obtain ⟨hpost, hclosed'⟩ := hclosed.tail
      rw [linesOf_append_cons hpre hpost] at hl
      rcases List.mem_cons.mp hl with rfl | hl
      · exact List.mem_append_left _ (mem_trimCr hb)
      · have hlt : post.length < (pre ++ LF :: post).length := by
          simp only [List.length_append, List.length_cons]
          omega
        exact List.mem_append_right _ (List.mem_cons_of_mem _ (ih _ hlt hclosed' hl rfl))
    · rcases eq_or_ne text [] with rfl | ht
      · simp [linesOf] at hl
      · rw [linesOf_of_not_mem hc ht, List.mem_singleton] at hl
        rw [hl] at hb
        exact mem_trimCr hb

theorem mem_of_mem_lines {content l : Bytes} (hl : l ∈ lines content) {b : UInt8} (hb : b ∈ l) :
    b ∈ content := by
  obtain ⟨tail, hcontent, -⟩ := trimRight_append content [CR, LF]
  rw [lines_eq] at hl
  rw [hcontent]
  exact List.mem_append_left _ (mem_of_mem_linesOf (closed_trimRight content) hl hb)

theorem init_eq_foldlM (content : Bytes) :
    init (some (.whole content)) = (lines content).foldlM addLine .empty := by
  have hclosed := closed_trimRight content
  simp only [init, buffer_whole]
  rw [loop_eq_foldlM _ _ _ hclosed, List.take_of_length_le (length_linesOf_le _ hclosed),
    lines_eq]

theorem addLine_ok (s : Store) {line : Bytes} (h : EQ ∈ line) :
    addLine s line = .ok ⟨s.table.set ⟨s.log.length, keyOf line⟩ ⟨s.log.length + 1, valueOf line⟩,
      s.log ++ [⟨s.log.length, keyOf line⟩, ⟨s.log.length + 1, valueOf line⟩]⟩ := by
  obtain ⟨pre, post, rfl, hpre⟩ := List.eq_append_cons_of_mem h
  rw [keyOf_append_cons hpre, valueOf_append_cons hpre]
  simp [addLine, splitN_two_append_cons hpre, elemAt, clone, bind, Except.bind, pure, Except.pure]

theorem addLine_error (s : Store) {line : Bytes} (h : EQ ∉ line) :
    addLine s line = .error .indexOutOfRange := by
  simp [addLine, splitN_two_of_not_mem h, elemAt, bind, Except.bind]

theorem foldlM_addLine_error (s : Store) {ls : List Bytes} (h : ∃ l ∈ ls, EQ ∉ l) :
    ls.foldlM addLine s = .error .indexOutOfRange := by
  induction ls generalizing s with
  | nil => simp at h
  | cons l ls ih =>
    rw [List.foldlM_cons]
    by_cases hl : EQ ∈ l
    · rw [addLine_ok s hl]
      apply ih
      obtain ⟨l', hl', hno⟩ := h
      rcases List.mem_cons.mp hl' with rfl | hmem
      · exact absurd hl hno
      · exact ⟨l', hmem, hno⟩
    · rw [addLine_error s hl]
      rfl

theorem foldlM_addLine_ok (s : Store) {ls : List Bytes} (h : ∀ l ∈ ls, EQ ∈ l) :
    ∃ s', ls.foldlM addLine s = .ok s' ∧
      s'.table.entries = Lib.upsertAll Copy.text s.table.entries (pairs s.log.length ls) ∧
      s'.log = s.log ++ (pairs s.log.length ls).flatMap fun (k, v) => [k, v] := by
  induction ls generalizing s with
  | nil => exact ⟨s, rfl, rfl, by simp [pairs]⟩
  | cons l ls ih =>
    rw [List.foldlM_cons, addLine_ok s (h l (by simp))]
    obtain ⟨s', hs', htab, hlog⟩ := ih ⟨s.table.set ⟨s.log.length, keyOf l⟩
      ⟨s.log.length + 1, valueOf l⟩, s.log ++ [⟨s.log.length, keyOf l⟩,
        ⟨s.log.length + 1, valueOf l⟩]⟩ (fun l' hl' => h l' (by simp [hl']))
    refine ⟨s', hs', ?_, ?_⟩
    · rw [htab]
      simp [pairs, Table.set, Lib.upsertAll]
    · rw [hlog]
      simp [pairs]

theorem init_ok (content : Bytes) (h : ∀ l ∈ lines content, EQ ∈ l) :
    ∃ s, init (some (.whole content)) = .ok s ∧
      s.table.entries = Lib.upsertAll Copy.text [] (pairs 0 (lines content)) ∧
      s.log = (pairs 0 (lines content)).flatMap fun (k, v) => [k, v] := by
  rw [init_eq_foldlM]
  obtain ⟨s, hs, htab, hlog⟩ := foldlM_addLine_ok .empty h
  exact ⟨s, hs, htab, by simpa [Store.empty] using hlog⟩

theorem init_eq_ok {content : Bytes} {s : Store} (h : init (some (.whole content)) = .ok s) :
    (∀ l ∈ lines content, EQ ∈ l) ∧
      s.table.entries = Lib.upsertAll Copy.text [] (pairs 0 (lines content)) ∧
      s.log = (pairs 0 (lines content)).flatMap fun (k, v) => [k, v] := by
  have hall : ∀ l ∈ lines content, EQ ∈ l := by
    by_contra hno
    push Not at hno
    rw [init_eq_foldlM, foldlM_addLine_error _ hno] at h
    cases h
  obtain ⟨s', hs', htab, hlog⟩ := init_ok content hall
  obtain rfl : s' = s := Except.ok.inj (hs'.symm.trans h)
  exact ⟨hall, htab, hlog⟩

theorem keys_pairs (n : ℕ) (ls : List Bytes) :
    Lib.keys Copy.text (pairs n ls) = ls.map keyOf := by
  induction ls generalizing n with
  | nil => rfl
  | cons l ls ih => exact congrArg (keyOf l :: ·) (ih (n + 2))

theorem last_pair (n : ℕ) (ls : List Bytes) (k : Bytes) :
    (((pairs n ls).filter fun e => e.1.text = k).getLast?).map (fun e => e.2.text) =
      ((ls.filter fun l => keyOf l = k).getLast?).map valueOf := by
  have hmap : ((pairs n ls).filter fun e => e.1.text = k).map (fun e => e.2.text) =
      (ls.filter fun l => keyOf l = k).map valueOf := by
    induction ls generalizing n with
    | nil => rfl
    | cons l ls ih =>
      by_cases hk : keyOf l = k <;> simp [pairs, hk, ih (n + 2)]
  rw [← List.getLast?_map, hmap, List.getLast?_map]

theorem init_lookup {content : Bytes} (h : ∀ l ∈ lines content, EQ ∈ l) :
    ∃ s, init (some (.whole content)) = .ok s ∧
      (∀ k, k ∈ s.table.keys ↔ ∃ l ∈ lines content, keyOf l = k) ∧
      ∀ k, s.table.find k =
        (((lines content).filter fun l => keyOf l = k).getLast?).map valueOf := by
  obtain ⟨s, hs, htab, -⟩ := init_ok content h
  refine ⟨s, hs, fun k => ?_, fun k => ?_⟩
  · rw [Table.keys, htab, Lib.mem_keys_upsertAll, keys_pairs, List.mem_map]
  · rw [Table.find, htab, Lib.lookup_upsertAll, Option.map_map]
    exact last_pair 0 _ k

/-- `init` stays within the bounds of `elems` exactly when every line holds a `=`, and
then `Table` maps the key of each line to the value of the last line that has it. -/
theorem init_table (content : Bytes) :
    (init (some (.whole content)) ≠ .error .indexOutOfRange ↔ ∀ l ∈ lines content, EQ ∈ l) ∧
    ((∀ l ∈ lines content, EQ ∈ l) → ∃ s, init (some (.whole content)) = .ok s ∧
      (∀ k, k ∈ s.table.keys ↔ ∃ l ∈ lines content, keyOf l = k) ∧
      ∀ k, s.table.find k =
        (((lines content).filter fun l => keyOf l = k).getLast?).map valueOf) := by
  refine ⟨⟨fun h => ?_, fun h => ?_⟩, init_lookup⟩
  · by_contra hno
    push Not at hno
    exact h (by rw [init_eq_foldlM, foldlM_addLine_error _ hno])
  · obtain ⟨s, hs, -⟩ := init_ok content h
    rw [hs]
    simp

end GrebballPlus.Config
