import GrebballPlus.Lib.Calendar
import GrebballPlus.Lib.Decimal
import GrebballPlus.Odin.Strings

/-! `time.Time` and `time.iso8601_to_time_utc` of `core:time`, which reads
`YYYY-MM-DD[Tt]HH:mm:ss[.nn]` and then `[Zz]` or an offset `[+-]HH:mm`. -/

namespace GrebballPlus

open Lib

/-- Nanoseconds since 1970-01-01T00:00Z. -/
structure Time where
  nsec : Int64
deriving DecidableEq

namespace Time

structure DateTime where
  year : ℕ
  month : ℕ
  day : ℕ
  hour : ℕ
  minute : ℕ
  second : ℕ
  nano : ℕ

/-- `count` digits, with one of `sep` behind them if there is any in `sep`. -/
def scanDigits (s sep : Bytes) (count : ℕ) : Option ℕ :=
  if s.length < count + min 1 sep.length then none
  else if (s.take count).all isDigit && (sep.isEmpty || sep.any fun c => s[count]? == some c) then
    some (ofDecimal (s.take count))
  else none

/-- The nanoseconds of a fraction and the digits it takes, of which nine count. -/
def scanFraction : ℕ → Bytes → ℕ × ℕ
  | k + 1, b :: s =>
    if isDigit b then ((b.toNat - 48) * 10 ^ k + (scanFraction k s).1, (scanFraction k s).2 + 1)
    else (0, 0)
  | _, _ => (0, 0)

def componentsToDatetime (t : DateTime) : Option DateTime :=
  if 1 ≤ t.month ∧ t.month ≤ 12 ∧ 1 ≤ t.day ∧ t.day ≤ daysInMonth t.year t.month ∧
      t.hour ≤ 23 ∧ t.minute ≤ 59 ∧ t.second ≤ 59 then some t
  else none

/-- The date and time, the offset in minutes and the bytes consumed. The leap second
23:59:60 is read as 23:59:59. -/
def iso8601ToComponents (s : Bytes) : Option (DateTime × ℤ × ℕ) := do
  let year ← scanDigits s (ascii "-") 4
  let month ← scanDigits (s.drop 5) (ascii "-") 2
  let day ← scanDigits (s.drop 8) (ascii "Tt") 2
  let hour ← scanDigits (s.drop 11) (ascii ":") 2
  let minute ← scanDigits (s.drop 14) (ascii ":") 2
  let second ← scanDigits (s.drop 17) [] 2
  let second := if minute = 59 ∧ second = 60 then 59 else second
  let (nano, count) : ℕ × ℕ :=
    if s[19]? = some 46 then ((scanFraction 9 (s.drop 20)).1, 20 + (scanFraction 9 (s.drop 20)).2)
    else (0, 19)
  let t ← componentsToDatetime ⟨year, month, day, hour, minute, second, nano⟩
  match s[count]? with
  | some 90 => some (t, 0, count + 1)
  | some 122 => some (t, 0, count + 1)
  | some 43 =>
    let h ← scanDigits (s.drop (count + 1)) (ascii ":") 2
    let m ← scanDigits (s.drop (count + 4)) [] 2
    some (t, 60 * h + m, count + 6)
  | some 45 =>
    let h ← scanDigits (s.drop (count + 1)) (ascii ":") 2
    let m ← scanDigits (s.drop (count + 4)) [] 2
    some (t, -(60 * h + m), count + 6)
  | _ => some (t, 0, count)

/-- Fails where the nanoseconds do not fit in an `i64`: before 1677-09-21T00:12:44 and
after 2262-04-11T23:47:16. -/
def datetimeToTime (t : DateTime) : Option Time :=
  let days := rataDie t.year t.month t.day - rataDie 1970 1 1
  let seconds := days * 86400 + (t.hour * 3600 + t.minute * 60 + t.second : ℕ)
  let nanoseconds := seconds * 1000000000 + t.nano
  if nanoseconds < -2 ^ 63 ∨ 2 ^ 63 ≤ nanoseconds then none
  else some ⟨Int64.ofInt nanoseconds⟩

/-- The time and the bytes consumed; a text that is refused gives zero for both. -/
def iso8601ToTimeUtc (s : Bytes) : Time × ℕ :=
  match iso8601ToComponents s with
  | none => (⟨0⟩, 0)
  | some (t, offset, consumed) =>
    match datetimeToTime t with
    | none => (⟨0⟩, 0)
    | some res => (⟨res.nsec - Int64.ofInt (offset * 60000000000)⟩, consumed)

structure UtcMinute extends Date where
  hour : ℕ
  minute : ℕ
  year_le : year ≤ 9999
  hour_le : hour ≤ 23
  minute_le : minute ≤ 59

def pad2 (n : ℕ) : Bytes := [digit (n / 10), digit (n % 10)]

def pad4 (n : ℕ) : Bytes := pad2 (n / 100) ++ pad2 (n % 100)

namespace UtcMinute

/-- `YYYY-MM-DDTHH:MM` -/
def stem (m : UtcMinute) : Bytes :=
  pad4 m.year ++ 45 :: (pad2 m.month ++ 45 :: (pad2 m.day ++ 84 :: (pad2 m.hour ++ 58 ::
    pad2 m.minute)))

/-- `YYYY-MM-DDTHH:MMZ` -/
def text (m : UtcMinute) : Bytes := m.stem ++ [90]

/-- The minute's nanoseconds since 1970-01-01T00:00Z, which is 719528 days into the
calendar. -/
def instant (m : UtcMinute) : ℤ :=
  (((m.dayNumber : ℤ) - 719528) * 86400 + m.hour * 3600 + m.minute * 60) * 1000000000

def Representable (m : UtcMinute) : Prop :=
  -2 ^ 63 ≤ m.instant ∧ m.instant < 2 ^ 63

instance (m : UtcMinute) : Decidable m.Representable := inferInstanceAs (Decidable (_ ∧ _))

end UtcMinute

theorem UtcMinute.length_text (m : UtcMinute) : m.text.length = 17 := rfl

theorem isDigit_of_mem_pad2 {n : ℕ} (h : n < 100) {b : UInt8} (hb : b ∈ pad2 n) :
    isDigit b = true := by
  simp only [pad2, List.mem_cons, List.not_mem_nil, or_false] at hb
  rcases hb with rfl | rfl
  · exact isDigit_digit (by omega)
  · exact isDigit_digit (by omega)

theorem ofDecimal_pad2 {n : ℕ} (h : n < 100) : ofDecimal (pad2 n) = n := by
  simp only [ofDecimal, pad2, List.foldl_cons, List.foldl_nil]
  rw [toNat_digit (by omega), toNat_digit (by omega)]
  omega

theorem ofDecimal_pad4 {n : ℕ} (h : n < 10000) : ofDecimal (pad4 n) = n := by
  simp only [ofDecimal, pad4, pad2, List.cons_append, List.nil_append, List.foldl_cons,
    List.foldl_nil]
  rw [toNat_digit (by omega), toNat_digit (by omega), toNat_digit (by omega),
    toNat_digit (by omega)]
  omega

theorem scanDigits_append {field rest sep : Bytes} {count : ℕ} (hlen : field.length = count)
    (hdig : ∀ b ∈ field, isDigit b = true) (hsep : sep = [] ∨ ∃ c ∈ sep, rest.head? = some c) :
    scanDigits (field ++ rest) sep count = some (ofDecimal field) := by
  subst hlen
  have hall : field.all isDigit = true := List.all_eq_true.mpr hdig
  unfold scanDigits
  rcases hsep with rfl | ⟨c, hc, hhead⟩
  · rw [if_neg (by simp), List.take_left' rfl, hall]
    simp
  · obtain ⟨rest', rfl⟩ := List.head?_eq_some_iff.mp hhead
    have hany : sep.any (fun c' => (field ++ c :: rest')[field.length]? == some c') = true := by
      rw [List.any_eq_true]
      exact ⟨c, hc, by simp⟩
    rw [if_neg (by simp only [List.length_append, List.length_cons]; omega),
      List.take_left' rfl, hall, hany]
    simp

theorem scanDigits_pad2 {n : ℕ} (h : n < 100) {rest sep : Bytes}
    (hsep : sep = [] ∨ ∃ c ∈ sep, rest.head? = some c) :
    scanDigits (pad2 n ++ rest) sep 2 = some n := by
  have hlen : (pad2 n).length = 2 := rfl
  rw [scanDigits_append hlen (fun b => isDigit_of_mem_pad2 h) hsep, ofDecimal_pad2 h]

theorem scanDigits_pad4 {n : ℕ} (h : n < 10000) {rest sep : Bytes}
    (hsep : sep = [] ∨ ∃ c ∈ sep, rest.head? = some c) :
    scanDigits (pad4 n ++ rest) sep 4 = some n := by
  have hlen : (pad4 n).length = 4 := rfl
  rw [scanDigits_append hlen ?_ hsep, ofDecimal_pad4 h]
  intro b hb
  rcases List.mem_append.mp hb with hb | hb
  · exact isDigit_of_mem_pad2 (by omega) hb
  · exact isDigit_of_mem_pad2 (by omega) hb

section

variable (m : UtcMinute)

theorem not_mem_stem : (90 : UInt8) ∉ m.stem := by
  intro h
  have hpad : ∀ n, n < 100 → (90 : UInt8) ∉ pad2 n := fun n hn hb =>
    absurd (isDigit_of_mem_pad2 hn hb) (by decide)
  have hy := m.year_le
  have hmo := m.month_mem
  have hd := m.day_mem
  have hle : daysInMonth m.year m.month ≤ 31 := by
    unfold daysInMonth
    split_ifs <;> omega
  have hh := m.hour_le
  have hmi := m.minute_le
  simp only [UtcMinute.stem, pad4, List.mem_append, List.mem_cons] at h
  rcases h with (h | h) | h | h | h | h | h | h | h | h
  · exact hpad _ (by omega) h
  · exact hpad _ (by omega) h
  · exact absurd h (by decide)
  · exact hpad _ (by omega) h
  · exact absurd h (by decide)
  · exact hpad _ (by omega) h
  · exact absurd h (by decide)
  · exact hpad _ (by omega) h
  · exact absurd h (by decide)
  · exact hpad _ (by omega) h

theorem iso8601ToComponents_stem :
    iso8601ToComponents (m.stem ++ ascii ":00Z") =
      some (⟨m.year, m.month, m.day, m.hour, m.minute, 0, 0⟩, 0, 20) := by
  have hy := m.year_le
  have hmo := m.month_mem
  have hd := m.day_mem
  have hle : daysInMonth m.year m.month ≤ 31 := by
    unfold daysInMonth
    split_ifs <;> omega
  have hh := m.hour_le
  have hmi := m.minute_le
  have hs : m.stem ++ ascii ":00Z" = pad4 m.year ++ 45 :: (pad2 m.month ++ 45 ::
      (pad2 m.day ++ 84 :: (pad2 m.hour ++ 58 :: (pad2 m.minute ++ 58 ::
        (pad2 0 ++ [90]))))) := by
    simp [UtcMinute.stem, ascii, pad2, digit]
  have hyear : scanDigits (m.stem ++ ascii ":00Z") (ascii "-") 4 = some m.year := by
    rw [hs]
    exact scanDigits_pad4 (by omega) (Or.inr ⟨45, by decide, rfl⟩)
  have hmonth : scanDigits ((m.stem ++ ascii ":00Z").drop 5) (ascii "-") 2 = some m.month := by
    rw [hs]
    exact scanDigits_pad2 (by omega) (Or.inr ⟨45, by decide, rfl⟩)
  have hday : scanDigits ((m.stem ++ ascii ":00Z").drop 8) (ascii "Tt") 2 = some m.day := by
    rw [hs]
    exact scanDigits_pad2 (by omega) (Or.inr ⟨84, by decide, rfl⟩)
  have hhour : scanDigits ((m.stem ++ ascii ":00Z").drop 11) (ascii ":") 2 = some m.hour := by
    rw [hs]
    exact scanDigits_pad2 (by omega) (Or.inr ⟨58, by decide, rfl⟩)
  have hminute : scanDigits ((m.stem ++ ascii ":00Z").drop 14) (ascii ":") 2 = some m.minute := by
    rw [hs]
    exact scanDigits_pad2 (by omega) (Or.inr ⟨58, by decide, rfl⟩)
  have hsecond : scanDigits ((m.stem ++ ascii ":00Z").drop 17) [] 2 = some 0 := by
    rw [hs]
    exact scanDigits_pad2 (by omega) (Or.inl rfl)
  have hend : (m.stem ++ ascii ":00Z")[19]? = some 90 := by
    rw [hs]
    rfl
  have hvalid : componentsToDatetime ⟨m.year, m.month, m.day, m.hour, m.minute, 0, 0⟩ =
      some ⟨m.year, m.month, m.day, m.hour, m.minute, 0, 0⟩ :=
    if_pos ⟨hmo.1, hmo.2, hd.1, hd.2, hh, hmi, Nat.zero_le _⟩
  simp [iso8601ToComponents, hyear, hmonth, hday, hhour, hminute, hsecond, hend, hvalid]

theorem nanoseconds_eq :
    ((rataDie m.year m.month m.day - rataDie 1970 1 1) * 86400 +
      (m.hour * 3600 + m.minute * 60 + 0 : ℕ)) * 1000000000 + (0 : ℕ) = m.instant := by
  have hepoch : rataDie 1970 1 1 = 719163 := by decide
  have hdate := rataDie_eq m.toDate
  unfold UtcMinute.instant
  rw [hepoch, hdate]
  push_cast
  omega

theorem iso8601ToTimeUtc_stem :
    (iso8601ToTimeUtc (m.stem ++ ascii ":00Z")).1 =
      if m.Representable then ⟨Int64.ofInt m.instant⟩ else ⟨0⟩ := by
  have hns := nanoseconds_eq m
  unfold iso8601ToTimeUtc
  rw [iso8601ToComponents_stem m]
  simp only [datetimeToTime, hns]
  by_cases hrep : m.Representable
  · have hin : ¬ (m.instant < -2 ^ 63 ∨ 2 ^ 63 ≤ m.instant) := by
      unfold UtcMinute.Representable at hrep
      omega
    rw [if_neg hin, if_pos hrep]
    simp
  · have hout : m.instant < -2 ^ 63 ∨ 2 ^ 63 ≤ m.instant := by
      unfold UtcMinute.Representable at hrep
      omega
    rw [if_pos hout, if_neg hrep]

theorem toInt_ofInt_instant (h : m.Representable) :
    (Int64.ofInt m.instant).toInt = m.instant :=
  Int64.toInt_ofInt_of_le h.1 h.2

end

end Time

end GrebballPlus
