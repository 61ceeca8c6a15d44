import GrebballPlus.Lib.Decimal
import GrebballPlus.Odin.Strings

/-! `strconv.itoa` into a caller's array and `strconv.atoi`. -/

namespace GrebballPlus.Strconv

open Lib

/-- The digits of `u` in front of `out`, as `append_bits` fills its array from the back.
`room` is what the array has left. -/
def appendDigits : ℕ → ℕ → Bytes → Bytes
  | 0, _, out => out
  | room + 1, u, out =>
    if 10 ≤ u then appendDigits room (u / 10) (digit (u % 10) :: out) else digit u :: out

/-- `append_bits` in base 10 over `a: [129]byte`, less the copy into the caller's array. -/
def appendInt (i : Int64) : Bytes :=
  let out := appendDigits 129 i.toInt.natAbs []
  if i.toInt < 0 then 45 :: out else out

/-- `itoa` overwrites the front of `buf` and returns that part of it. -/
def itoa (buf : Bytes) (i : Int64) : Bytes × Bytes :=
  let out := appendInt i
  let buf := out.take buf.length ++ buf.drop out.length
  (buf, buf.take out.length)

/-- The value of a digit in a base up to 36. Other bytes count as 16 and up. -/
def digitValue (r : UInt8) : ℕ :=
  if 48 ≤ r ∧ r ≤ 57 then r.toNat - 48
  else if 97 ≤ r ∧ r ≤ 122 then r.toNat - 97 + 10
  else if 65 ≤ r ∧ r ≤ 90 then r.toNat - 65 + 10
  else 16

/-- Digits up to the first byte that is none, `_` being skipped; `i64` wraps. -/
def parseDigits (base : ℕ) : Bytes → Int64 → Int64
  | [], value => value
  | r :: s, value =>
    if r = 95 then parseDigits base s value
    else if base ≤ digitValue r then value
    else parseDigits base s (value * Int64.ofNat base + Int64.ofNat (digitValue r))

def parsePrefixed (s : Bytes) : Int64 :=
  match s with
  | 48 :: 98 :: r :: s => parseDigits 2 (r :: s) 0
  | 48 :: 111 :: r :: s => parseDigits 8 (r :: s) 0
  | 48 :: 100 :: r :: s => parseDigits 10 (r :: s) 0
  | 48 :: 122 :: r :: s => parseDigits 12 (r :: s) 0
  | 48 :: 120 :: r :: s => parseDigits 16 (r :: s) 0
  | s => parseDigits 10 s 0

/-- `atoi` returns what it could read; a sign alone is no sign. -/
def atoi (s : Bytes) : Int64 :=
  match s with
  | 45 :: r :: s => -parsePrefixed (r :: s)
  | 43 :: r :: s => parsePrefixed (r :: s)
  | s => parsePrefixed s

theorem appendDigits_eq {room u : ℕ} (h : u < 10 ^ room) (hr : 0 < room) (out : Bytes) :
    appendDigits room u out = decimalNat u ++ out := by
  induction room generalizing u out with
  | zero => omega
  | succ room ih =>
    unfold appendDigits
    split_ifs with hu
    · have hroom : 0 < room := by
        rcases Nat.eq_zero_or_pos room with rfl | hpos
        · simp only [Nat.zero_add, pow_one] at h
          omega
        · exact hpos
      rw [ih (by rw [pow_succ] at h; omega) hroom, decimalNat_of_le hu, List.append_assoc]
      rfl
    · rw [decimalNat_of_lt (by omega)]
      rfl

theorem natAbs_toInt_lt (i : Int64) : i.toInt.natAbs < 10 ^ 19 := by
  have hlo := i.le_toInt
  have hhi := i.toInt_lt
  norm_num at hlo hhi ⊢
  omega

theorem appendInt_eq (i : Int64) : appendInt i = decimal i.toInt := by
  have hu : i.toInt.natAbs < 10 ^ 129 :=
    lt_trans (natAbs_toInt_lt i) (Nat.pow_lt_pow_right (by decide) (by decide))
  simp only [appendInt, decimal, appendDigits_eq hu (by decide), List.append_nil]

theorem length_appendInt_le (i : Int64) : (appendInt i).length ≤ 20 := by
  rw [appendInt_eq]
  have hlen : (decimalNat i.toInt.natAbs).length ≤ 19 :=
    length_decimalNat_le (by decide) (natAbs_toInt_lt i)
  unfold decimal
  split_ifs
  · rw [List.length_cons]
    omega
  · omega

theorem itoa_eq {buf : Bytes} (h : 20 ≤ buf.length) (i : Int64) :
    (itoa buf i).2 = decimal i.toInt ∧
      (itoa buf i).1.take (itoa buf i).2.length = decimal i.toInt := by
  have hlen := length_appendInt_le i
  have htext : (itoa buf i).2 = appendInt i := by
    simp only [itoa]
    rw [List.take_of_length_le (i := buf.length) (by omega)]
    exact List.take_left' rfl
  refine ⟨by rw [htext, appendInt_eq], ?_⟩
  rw [htext, ← appendInt_eq]
  simp only [itoa]
  rw [List.take_of_length_le (i := buf.length) (by omega)]
  exact List.take_left' rfl

theorem length_itoa (buf : Bytes) (h : 20 ≤ buf.length) (i : Int64) :
    (itoa buf i).1.length = buf.length := by
  have hlen := length_appendInt_le i
  simp only [itoa, List.length_append, List.length_take, List.length_drop]
  omega

theorem digitValue_of_isDigit {r : UInt8} (h : isDigit r = true) :
    digitValue r = r.toNat - 48 ∧ digitValue r < 10 ∧ r ≠ 95 := by
  simp only [isDigit, Bool.and_eq_true, decide_eq_true_eq, UInt8.le_iff_toNat_le] at h
  have h48 : (48 : UInt8).toNat = 48 := rfl
  have h57 : (57 : UInt8).toNat = 57 := rfl
  have hvalue : digitValue r = r.toNat - 48 :=
    if_pos ⟨UInt8.le_iff_toNat_le.mpr h.1, UInt8.le_iff_toNat_le.mpr h.2⟩
  refine ⟨hvalue, by omega, ?_⟩
  intro h95
  rw [h95] at h
  exact absurd h.2 (by decide)

theorem parseDigits_digits {s : Bytes} (h : ∀ b ∈ s, isDigit b = true) (n : ℕ) :
    parseDigits 10 s (Int64.ofNat n) =
      Int64.ofNat (s.foldl (fun v b => 10 * v + (b.toNat - 48)) n) := by
  induction s generalizing n with
  | nil => rfl
  | cons r s ih =>
    obtain ⟨hvalue, hlt, h95⟩ := digitValue_of_isDigit (h r List.mem_cons_self)
    have hacc : Int64.ofNat n * Int64.ofNat 10 + Int64.ofNat (digitValue r) =
        Int64.ofNat (10 * n + (r.toNat - 48)) := by
      rw [hvalue, ← Int64.ofNat_mul, ← Int64.ofNat_add, Nat.mul_comm]
    rw [parseDigits, if_neg h95, if_neg (Nat.not_le.mpr hlt), hacc, List.foldl_cons]
    exact ih (fun b hb => h b (List.mem_cons_of_mem _ hb)) _

theorem decimalNat_ne_append_cons {n : ℕ} {b : UInt8} (hb : isDigit b = false)
    (before after : Bytes) : decimalNat n ≠ before ++ b :: after := by
  intro heq
  have hdigit : isDigit b = true :=
    isDigit_of_mem_decimalNat (n := n) (by rw [heq]; exact List.mem_append_cons_self)
  rw [hb] at hdigit
  cases hdigit

theorem parsePrefixed_decimalNat (n : ℕ) : parsePrefixed (decimalNat n) = Int64.ofNat n := by
  have hread : parseDigits 10 (decimalNat n) 0 = Int64.ofNat n := by
    have hrun := parseDigits_digits (s := decimalNat n) (fun _ => isDigit_of_mem_decimalNat) 0
    rw [← ofDecimal, ofDecimal_decimalNat] at hrun
    exact hrun
  rw [← hread]
  unfold parsePrefixed
  split
  · exact absurd ‹_› (decimalNat_ne_append_cons (b := 98) rfl [48] _)
  · exact absurd ‹_› (decimalNat_ne_append_cons (b := 111) rfl [48] _)
  · exact absurd ‹_› (decimalNat_ne_append_cons (b := 100) rfl [48] _)
  · exact absurd ‹_› (decimalNat_ne_append_cons (b := 122) rfl [48] _)
  · exact absurd ‹_› (decimalNat_ne_append_cons (b := 120) rfl [48] _)
  · rfl

theorem atoi_decimalNat (n : ℕ) : atoi (decimalNat n) = Int64.ofNat n := by
  rw [← parsePrefixed_decimalNat]
  unfold atoi
  split
  · exact absurd ‹_› (decimalNat_ne_append_cons (b := 45) rfl [] _)
  · exact absurd ‹_› (decimalNat_ne_append_cons (b := 43) rfl [] _)
  · rfl

/-- The numeral of an `i64` is read back, the sign included. -/
theorem atoi_decimal (i : Int64) : atoi (decimal i.toInt) = i := by
  unfold decimal
  split_ifs with hneg
  · have habs : -(i.toInt.natAbs : ℤ) = i.toInt := by omega
    have hread := parsePrefixed_decimalNat i.toInt.natAbs
    obtain ⟨d, ds, hds⟩ := List.exists_cons_of_ne_nil (decimalNat_ne_nil i.toInt.natAbs)
    rw [hds] at hread ⊢
    calc atoi (45 :: d :: ds)
        = -parsePrefixed (d :: ds) := rfl
      _ = Int64.ofInt (-(i.toInt.natAbs : ℤ)) := by
          rw [hread, ← Int64.ofInt_eq_ofNat, ← Int64.ofInt_neg]
      _ = i := by rw [habs, Int64.ofInt_toInt]
  · have habs : (i.toInt.natAbs : ℤ) = i.toInt := by omega
    rw [atoi_decimalNat, ← Int64.ofInt_eq_ofNat, habs, Int64.ofInt_toInt]

end GrebballPlus.Strconv
