import GrebballPlus.Config.Grammar

/-! Writing a config file and reading it back. An entry that can stand on a line is
written as `key=value`; `init` reads the entries of a file so written, with LF or CRLF
line ends, with any line ends or none behind the last line. -/

namespace GrebballPlus.Config

open Strings

structure Entry where
  key : Bytes
  value : Bytes
  key_eq : EQ ∉ key
  key_lf : LF ∉ key
  value_lf : LF ∉ value
  value_cr : value.getLast? ≠ some CR

def Entry.line (e : Entry) : Bytes := e.key ++ EQ :: e.value

/-- The lines of the entries with `cr` and LF between them: `cr` is empty or one CR. -/
def body (cr : Bytes) : List Entry → Bytes
  | [] => []
  | [e] => e.line
  | e :: e' :: es => e.line ++ cr ++ LF :: body cr (e' :: es)

theorem lf_not_mem_line (e : Entry) : LF ∉ e.line := by
  intro h
  rcases List.mem_append.mp h with h | h
  · exact e.key_lf h
  · rcases List.mem_cons.mp h with h | h
    · exact absurd h (by decide)
    · exact e.value_lf h

theorem getLast_line (e : Entry) : ∃ b, e.line.getLast? = some b ∧ b ∉ [CR, LF] := by
  unfold Entry.line
  rw [List.getLast?_append, List.getLast?_cons]
  rcases hv : e.value.getLast? with _ | b
  · exact ⟨EQ, rfl, by decide⟩
  · refine ⟨b, rfl, fun hb => ?_⟩
    rcases List.mem_cons.mp hb with rfl | hb
    · exact e.value_cr hv
    · obtain rfl := List.mem_singleton.mp hb
      exact e.value_lf (List.mem_of_getLast? hv)

theorem line_not_cr (e : Entry) : e.line.getLast? ≠ some CR := by
  obtain ⟨b, hb, hnot⟩ := getLast_line e
  intro h
  rw [hb] at h
  rw [Option.some.inj h] at hnot
  exact hnot List.mem_cons_self

theorem trimCr_line (e : Entry) {cr : Bytes} (hcr : cr = [] ∨ cr = [CR]) :
    trimCr (e.line ++ cr) = e.line := by
  rcases hcr with rfl | rfl
  · rw [List.append_nil]
    exact trimCr_of_getLast (line_not_cr e)
  · exact trimCr_append_cr _

theorem getLast_body (cr : Bytes) (e : Entry) (es : List Entry) :
    ∃ b, (body cr (e :: es)).getLast? = some b ∧ b ∉ [CR, LF] := by
  induction es generalizing e with
  | nil => exact getLast_line e
  | cons e' es ih =>
    obtain ⟨b, hb, hnot⟩ := ih e'
    refine ⟨b, ?_, hnot⟩
    rw [body, List.getLast?_append, List.getLast?_cons, hb]
    rfl

theorem linesOf_body {cr : Bytes} (hcr : cr = [] ∨ cr = [CR]) (es : List Entry) :
    linesOf (body cr es) = es.map Entry.line := by
  induction es with
  | nil => rfl
  | cons e es ih =>
    cases es with
    | nil =>
      have hne : e.line ≠ [] := by simp [Entry.line]
      have htrim := trimCr_line e (Or.inl rfl)
      rw [List.append_nil] at htrim
      rw [body, linesOf_of_not_mem (lf_not_mem_line e) hne, htrim]
      rfl
    | cons e' es =>
      have hlf : LF ∉ e.line ++ cr := by
        intro h
        rcases List.mem_append.mp h with h | h
        · exact lf_not_mem_line e h
        · rcases hcr with rfl | rfl
          · cases h
          · exact absurd h (by decide)
      have hne : body cr (e' :: es) ≠ [] := by
        intro hnil
        obtain ⟨b, hb, -⟩ := getLast_body cr e' es
        rw [hnil] at hb
        cases hb
      rw [body, linesOf_append_cons hlf hne, ih, trimCr_line e hcr]
      rfl

theorem lines_body {cr tail : Bytes} (hcr : cr = [] ∨ cr = [CR])
    (htail : ∀ b ∈ tail, b ∈ [CR, LF]) (es : List Entry) :
    lines (body cr es ++ tail) = es.map Entry.line := by
  have htrim : trimRight (body cr es ++ tail) [CR, LF] = body cr es := by
    rw [trimRight_append_of_mem htail]
    cases es with
    | nil => rfl
    | cons e es =>
      obtain ⟨b, hb, hnot⟩ := getLast_body cr e es
      exact trimRight_of_getLast hb hnot
  rw [lines_eq, htrim, linesOf_body hcr]

theorem keyOf_line (e : Entry) : keyOf e.line = e.key := keyOf_append_cons e.key_eq e.value

theorem valueOf_line (e : Entry) : valueOf e.line = e.value := valueOf_append_cons e.key_eq e.value

/-- The round trip: `init` accepts what was written and finds for each key the value of
its last entry. -/
theorem init_body {cr tail : Bytes} (hcr : cr = [] ∨ cr = [CR])
    (htail : ∀ b ∈ tail, b ∈ [CR, LF]) (es : List Entry) :
    ∃ s, init (some (.whole (body cr es ++ tail))) = .ok s ∧
      (∀ k, k ∈ s.table.keys ↔ ∃ e ∈ es, e.key = k) ∧
      ∀ k, s.table.find k = ((es.filter fun e => e.key = k).getLast?).map Entry.value := by
  have hlines := lines_body hcr htail es
  have hall : ∀ l ∈ lines (body cr es ++ tail), EQ ∈ l := by
    rw [hlines]
    intro l hl
    obtain ⟨e, -, rfl⟩ := List.mem_map.mp hl
    exact List.mem_append_right _ List.mem_cons_self
  obtain ⟨s, hs, hkeys, hfind⟩ := init_lookup hall
  refine ⟨s, hs, fun k => ?_, fun k => ?_⟩
  · rw [hkeys, hlines]
    simp [keyOf_line]
  · rw [hfind, hlines, List.filter_map, List.getLast?_map, Option.map_map]
    simp only [Function.comp_def, keyOf_line, valueOf_line]

end GrebballPlus.Config
