import GrebballPlus.Odin.Time

/-! Texts of minutes sort as the minutes do: their fields have fixed widths and stand in
the order of their weight. -/

namespace GrebballPlus.Time

open Lib

def UtcMinute.fields (m : UtcMinute) : List ℕ := [m.year, m.month, m.day, m.hour, m.minute]

theorem pad2_append_lt_iff {n n' : ℕ} (h : n < 100) (h' : n' < 100) (s s' : Bytes) :
    pad2 n ++ s < pad2 n' ++ s' ↔ n < n' ∨ n = n' ∧ s < s' := by
  have h1 : n / 10 < 10 := by omega
  have h1' : n' / 10 < 10 := by omega
  have h2 : n % 10 < 10 := by omega
  have h2' : n' % 10 < 10 := by omega
  rw [← div_mod_lt_iff 10]
  simp only [pad2, List.cons_append, List.nil_append, List.cons_lt_cons_iff,
    digit_lt_digit_iff h1 h1', digit_lt_digit_iff h2 h2', digit_inj h1 h1', digit_inj h2 h2']

theorem pad4_append_lt_iff {n n' : ℕ} (h : n < 10000) (h' : n' < 10000) (s s' : Bytes) :
    pad4 n ++ s < pad4 n' ++ s' ↔ n < n' ∨ n = n' ∧ s < s' := by
  have h1 : n / 100 < 100 := by omega
  have h1' : n' / 100 < 100 := by omega
  have h2 : n % 100 < 100 := by omega
  have h2' : n' % 100 < 100 := by omega
  rw [← div_mod_lt_iff 100, pad4, pad4, List.append_assoc, List.append_assoc,
    pad2_append_lt_iff h1 h1', pad2_append_lt_iff h2 h2']

theorem UtcMinute.lt_hundred (m : UtcMinute) :
    m.month < 100 ∧ m.day < 100 ∧ m.hour < 100 ∧ m.minute < 100 := by
  have hm := m.month_mem
  have hd := m.day_mem
  have hle : daysInMonth m.year m.month ≤ 31 := by
    unfold daysInMonth
    split_ifs <;> omega
  have hh := m.hour_le
  have hmi := m.minute_le
  omega

variable {m m' : UtcMinute}

theorem text_lt_iff_fields : m.text < m'.text ↔ m.fields < m'.fields := by
  have hy : m.year < 10000 := Nat.lt_succ_of_le m.year_le
  have hy' : m'.year < 10000 := Nat.lt_succ_of_le m'.year_le
  obtain ⟨hmo, hd, hh, hmi⟩ := m.lt_hundred
  obtain ⟨hmo', hd', hh', hmi'⟩ := m'.lt_hundred
  have hz : ¬ ([90] : Bytes) < [90] := List.lt_irrefl _
  have hnil : ¬ ([] : List ℕ) < [] := List.lt_irrefl _
  simp only [UtcMinute.text, UtcMinute.stem, List.append_assoc, List.cons_append,
    pad4_append_lt_iff hy hy', pad2_append_lt_iff hmo hmo', pad2_append_lt_iff hd hd',
    pad2_append_lt_iff hh hh', pad2_append_lt_iff hmi hmi', List.cons_lt_cons_iff,
    UtcMinute.fields, UInt8.lt_irrefl, false_or, true_and, hz, hnil, and_false, or_false]

theorem UtcMinute.eq_of_fields (h : m.fields = m'.fields) : m = m' := by
  obtain ⟨⟨y, mo, d, _, _⟩, hour, minute, _, _, _⟩ := m
  obtain ⟨⟨y', mo', d', _, _⟩, hour', minute', _, _, _⟩ := m'
  simp only [UtcMinute.fields, List.cons.injEq, and_true] at h
  obtain ⟨rfl, rfl, rfl, rfl, rfl⟩ := h
  rfl

theorem instant_lt_of_fields (h : m.fields < m'.fields) : m.instant < m'.instant := by
  have hh := m.hour_le
  have hh' := m'.hour_le
  have hmi := m.minute_le
  have hmi' := m'.minute_le
  have hsplit : [m.year, m.month, m.day] < [m'.year, m'.month, m'.day] ∨
      (m.year = m'.year ∧ m.month = m'.month ∧ m.day = m'.day) ∧
        (m.hour < m'.hour ∨ m.hour = m'.hour ∧ m.minute < m'.minute) := by
    have hnil : ¬ ([] : List ℕ) < [] := List.lt_irrefl _
    simp only [UtcMinute.fields, List.cons_lt_cons_iff, hnil, and_false, or_false] at h ⊢
    tauto
  unfold UtcMinute.instant
  rcases hsplit with hdate | ⟨⟨hy, hm, hd⟩, htime⟩
  · have hday := dayNumber_lt hdate
    omega
  · have hday : m.dayNumber = m'.dayNumber := by
      rw [Date.dayNumber, Date.dayNumber, hy, hm, hd]
    omega

/-- The text of a minute sorts before that of another exactly when it comes earlier. -/
theorem text_lt_iff : m.text < m'.text ↔ m.instant < m'.instant := by
  rw [text_lt_iff_fields]
  refine ⟨instant_lt_of_fields, fun h => ?_⟩
  rcases lt_trichotomy m.fields m'.fields with hlt | heq | hgt
  · exact hlt
  · rw [UtcMinute.eq_of_fields heq] at h
    exact absurd h (lt_irrefl _)
  · exact absurd (instant_lt_of_fields hgt) h.asymm

theorem UtcMinute.eq_of_instant (h : m.instant = m'.instant) : m = m' := by
  apply UtcMinute.eq_of_fields
  rcases lt_trichotomy m.fields m'.fields with hlt | heq | hgt
  · exact absurd (instant_lt_of_fields hlt) h.not_lt
  · exact heq
  · exact absurd (instant_lt_of_fields hgt) h.not_gt

end GrebballPlus.Time
