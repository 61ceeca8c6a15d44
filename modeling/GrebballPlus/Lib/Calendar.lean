import Mathlib.Data.Int.Cast.Basic
import Mathlib.Algebra.BigOperators.Group.List.Basic
import Mathlib.Tactic.Common
import Mathlib.Tactic.IntervalCases

/-! The proleptic Gregorian calendar from year 0 on. A date's day number is the count of
the days before it; the closed formula of the rata die agrees with that count, and the
count orders dates as their fields do. -/

namespace Lib

def leap (y : ℕ) : Prop := y % 4 = 0 ∧ (y % 100 ≠ 0 ∨ y % 400 = 0)

instance (y : ℕ) : Decidable (leap y) := inferInstanceAs (Decidable (_ ∧ _))

def daysInMonth (y m : ℕ) : ℕ :=
  if m = 2 then (if leap y then 29 else 28)
  else if m = 4 ∨ m = 6 ∨ m = 9 ∨ m = 11 then 30 else 31

def daysInYear (y : ℕ) : ℕ := if leap y then 366 else 365

structure Date where
  year : ℕ
  month : ℕ
  day : ℕ
  month_mem : 1 ≤ month ∧ month ≤ 12
  day_mem : 1 ≤ day ∧ day ≤ daysInMonth year month

def Date.dayNumber (d : Date) : ℕ :=
  ((List.range d.year).map daysInYear).sum +
    ((List.range' 1 (d.month - 1)).map (daysInMonth d.year)).sum + (d.day - 1)

/-- Days before the `m`-th month, were February to have 30 days. -/
def daysBefore (m : ℕ) : ℕ := (367 * m - 362) / 12

/-- The day's number, day 1 being 1 January of year 1, in closed form. -/
def rataDie (y m d : ℕ) : ℤ :=
  365 * ((y : ℤ) - 1) + ((y : ℤ) - 1) / 4 - ((y : ℤ) - 1) / 100 + ((y : ℤ) - 1) / 400 +
    daysBefore m + (if m ≤ 2 then 0 else if leap y then -1 else -2) + d

theorem sum_daysInYear (y : ℕ) :
    (((List.range y).map daysInYear).sum : ℤ) =
      365 * ((y : ℤ) - 1) + ((y : ℤ) - 1) / 4 - ((y : ℤ) - 1) / 100 + ((y : ℤ) - 1) / 400 + 366 := by
  induction y with
  | zero => decide
  | succ y ih =>
    rw [List.range_succ, List.map_append, List.sum_append, Nat.cast_add, ih]
    simp only [List.map_cons, List.map_nil, List.sum_cons, List.sum_nil, daysInYear]
    split_ifs with h <;> unfold leap at h <;> push_cast <;> omega

theorem sum_daysInMonth (y : ℕ) {m : ℕ} (hm : 1 ≤ m ∧ m ≤ 12) :
    (((List.range' 1 (m - 1)).map (daysInMonth y)).sum : ℤ) =
      daysBefore m + (if m ≤ 2 then 0 else if leap y then -1 else -2) := by
  obtain ⟨h1, h12⟩ := hm
  interval_cases m <;> by_cases hl : leap y <;>
    simp [daysBefore, daysInMonth, hl, List.range'_succ]

theorem rataDie_eq (d : Date) : rataDie d.year d.month d.day = d.dayNumber - 365 := by
  have hy := sum_daysInYear d.year
  have hm := sum_daysInMonth d.year d.month_mem
  have hd := d.day_mem.1
  unfold rataDie Date.dayNumber
  rw [Nat.cast_add, Nat.cast_add, Nat.cast_sub hd, hy, hm]
  omega

theorem sum_range_add_lt {f : ℕ → ℕ} {n n' r : ℕ} (hn : n < n') (hr : r < f n) (r' : ℕ) :
    ((List.range n).map f).sum + r < ((List.range n').map f).sum + r' := by
  have hnext : ((List.range n).map f).sum + r < ((List.range (n + 1)).map f).sum := by
    rw [List.range_succ, List.map_append, List.sum_append]
    simpa using hr
  have hmore : ((List.range (n + 1)).map f).sum ≤ ((List.range n').map f).sum := by
    obtain ⟨k, rfl⟩ := Nat.exists_eq_add_of_lt hn
    rw [Nat.add_right_comm, List.range_add (n := n + 1) (m := k), List.map_append, List.sum_append]
    exact Nat.le_add_right _ _
  omega

theorem sum_year (y : ℕ) :
    ((List.range 12).map fun i => daysInMonth y (1 + i)).sum = daysInYear y := by
  by_cases hl : leap y <;> simp [List.range_succ, daysInMonth, daysInYear, hl]

def Date.dayOfYear (d : Date) : ℕ :=
  ((List.range (d.month - 1)).map fun i => daysInMonth d.year (1 + i)).sum + (d.day - 1)

theorem dayNumber_eq (d : Date) :
    d.dayNumber = ((List.range d.year).map daysInYear).sum + d.dayOfYear := by
  rw [Date.dayNumber, Date.dayOfYear, List.range'_eq_map_range, List.map_map, Nat.add_assoc]
  rfl

theorem dayOfYear_lt (d : Date) : d.dayOfYear < daysInYear d.year := by
  have hm := d.month_mem
  have hd := d.day_mem
  have hmonth : 1 + (d.month - 1) = d.month := by omega
  have hlt : d.month - 1 < 12 := by omega
  rw [← sum_year]
  exact sum_range_add_lt (f := fun i => daysInMonth d.year (1 + i)) hlt
    (by simp only [hmonth]; omega) 0

theorem dayNumber_lt {d d' : Date}
    (h : [d.year, d.month, d.day] < [d'.year, d'.month, d'.day]) :
    d.dayNumber < d'.dayNumber := by
  have hm := d.month_mem
  have hm' := d'.month_mem
  have hd := d.day_mem
  have hd' := d'.day_mem
  rw [dayNumber_eq, dayNumber_eq]
  rcases List.cons_lt_cons_iff.mp h with hy | ⟨hy, h⟩
  · exact sum_range_add_lt hy (dayOfYear_lt d) _
  · rw [hy]
    apply Nat.add_lt_add_left
    rw [Date.dayOfYear, Date.dayOfYear, ← hy]
    rcases List.cons_lt_cons_iff.mp h with hlt | ⟨heq, h⟩
    · have hmonth : 1 + (d.month - 1) = d.month := by omega
      have hlt' : d.month - 1 < d'.month - 1 := by omega
      exact sum_range_add_lt (f := fun i => daysInMonth d.year (1 + i)) hlt'
        (by simp only [hmonth]; omega) _
    · rw [heq]
      rcases List.cons_lt_cons_iff.mp h with hlt | ⟨-, hnil⟩
      · omega
      · exact absurd hnil (List.lt_irrefl [])

end Lib
