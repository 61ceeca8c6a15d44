import GrebballPlus.Config.Grammar

/-! `os.read` may store less than the file's size; the count it returns is not looked
at. The zeros behind what was read then belong to the last line. -/

namespace GrebballPlus.Config

open Strings

def openLine (data : Bytes) : Bytes := data.rtakeWhile (· ≠ LF)

def File.unread (f : File) : Bytes := List.replicate (f.size - f.data.length) 0

theorem init_buffer (f : File) : init (some f) = init (some (.whole f.buffer)) := by
  simp only [init, buffer_whole]

theorem lf_not_mem_openLine (data : Bytes) : LF ∉ openLine data := fun h => by
  simpa using List.mem_rtakeWhile_imp h

theorem openLine_cases (data : Bytes) :
    data = openLine data ∨ ∃ ended, data = ended ++ LF :: openLine data := by
  have hdata : data.rdropWhile (· ≠ LF) ++ openLine data = data :=
    List.rdropWhile_append_rtakeWhile
  by_cases hnil : data.rdropWhile (· ≠ LF) = []
  · rw [hnil, List.nil_append] at hdata
    exact Or.inl hdata.symm
  · have hlast : (data.rdropWhile (· ≠ LF)).getLast hnil = LF := by
      simpa using List.rdropWhile_last_not (· ≠ LF) data hnil
    refine Or.inr ⟨(data.rdropWhile (· ≠ LF)).dropLast, ?_⟩
    conv_lhs => rw [← hdata, ← List.dropLast_append_getLast hnil, hlast]
    rw [List.append_assoc, List.singleton_append]

theorem getLast_linesOf {post : Bytes} (h : LF ∉ post) (pre : Bytes) :
    (linesOf (pre ++ LF :: post)).getLast? = some (trimCr post) := by
  rw [linesOf, if_neg (by simp), List.splitOn_append_cons_self, List.splitOn_eq_singleton h]
  simp

theorem getLast_unread {f : File} (hshort : f.data.length < f.size) (s : Bytes) :
    (s ++ f.unread).getLast? = some 0 := by
  obtain ⟨k, hk⟩ : ∃ k, f.size - f.data.length = k + 1 :=
    Nat.exists_eq_succ_of_ne_zero (by omega)
  rw [File.unread, hk, List.replicate_succ', ← List.append_assoc, List.getLast?_concat]

theorem getLast_lines {f : File} (hshort : f.data.length < f.size) :
    (lines f.buffer).getLast? = some (openLine f.data ++ f.unread) := by
  have hbuffer : f.buffer = f.data ++ f.unread := rfl
  have hzero := getLast_unread hshort
  have hlf : LF ∉ openLine f.data ++ f.unread := by
    intro hm
    rcases List.mem_append.mp hm with hm | hm
    · exact lf_not_mem_openLine _ hm
    · exact absurd (List.eq_of_mem_replicate hm) (by decide)
  have htrim : trimCr (openLine f.data ++ f.unread) = openLine f.data ++ f.unread :=
    trimCr_of_getLast (by rw [hzero]; decide)
  rw [lines_eq, trimRight_of_getLast (by rw [hbuffer, hzero]) (by decide), hbuffer]
  rcases openLine_cases f.data with hdata | ⟨ended, hdata⟩
  · have hne : openLine f.data ++ f.unread ≠ [] := by
      intro hnil
      have hlast := hzero (openLine f.data)
      rw [hnil] at hlast
      cases hlast
    conv_lhs => rw [hdata]
    rw [linesOf_of_not_mem hlf hne, htrim]
    rfl
  · conv_lhs => rw [hdata]
    rw [List.append_assoc, List.cons_append, getLast_linesOf hlf, htrim]

/-- The table of a file that was not read to its end: the value of its last key carries
the zeros. A line cut before its `=`, or an ended one, stops the program. -/
theorem init_short {f : File} (hshort : f.data.length < f.size) :
    (EQ ∉ openLine f.data → init (some f) = .error .indexOutOfRange) ∧
      ∀ s, init (some f) = .ok s → EQ ∈ openLine f.data ∧
        s.table.find (keyOf (openLine f.data)) = some (valueOf (openLine f.data) ++ f.unread) := by
  have hlast := getLast_lines hshort
  have hmem := List.mem_of_getLast? hlast
  have hopen : EQ ∉ openLine f.data → init (some f) = .error .indexOutOfRange := by
    intro hno
    rw [init_buffer, init_eq_foldlM]
    refine foldlM_addLine_error _ ⟨_, hmem, fun hm => ?_⟩
    rcases List.mem_append.mp hm with hm | hm
    · exact hno hm
    · exact absurd (List.eq_of_mem_replicate hm) (by decide)
  refine ⟨hopen, fun s hs => ?_⟩
  have heq : EQ ∈ openLine f.data := by
    by_contra hno
    rw [hopen hno] at hs
    cases hs
  refine ⟨heq, ?_⟩
  rw [init_buffer] at hs
  obtain ⟨s', hs', -, hfind⟩ := init_lookup (init_eq_ok hs).1
  obtain rfl : s' = s := Except.ok.inj (hs'.symm.trans hs)
  obtain ⟨pre, post, hline, hpre⟩ := List.eq_append_cons_of_mem heq
  rw [hline] at hlast ⊢
  rw [List.append_assoc, List.cons_append] at hlast
  obtain ⟨before, hlines⟩ := List.getLast?_eq_some_iff.mp hlast
  rw [keyOf_append_cons hpre, valueOf_append_cons hpre, hfind, hlines, List.filter_append]
  simp [keyOf_append_cons hpre, valueOf_append_cons hpre]

end GrebballPlus.Config
