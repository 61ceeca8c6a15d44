import Mathlib.Data.Nat.Digits.Lemmas
import Mathlib.Tactic.Common

/-! Decimal numerals as ASCII bytes: the text of an integer, which determines it, and
the value of a run of digits. -/

namespace Lib

def digit (d : ℕ) : UInt8 := UInt8.ofNat (48 + d)

def isDigit (b : UInt8) : Bool := 48 ≤ b && b ≤ 57

/-- The value of a run of digits, most significant first. -/
def ofDecimal (s : List UInt8) : ℕ := s.foldl (fun v b => 10 * v + (b.toNat - 48)) 0

def decimalNat (n : ℕ) : List UInt8 :=
  if n = 0 then [digit 0] else ((Nat.digits 10 n).map digit).reverse

def decimal (z : ℤ) : List UInt8 :=
  if z < 0 then 45 :: decimalNat z.natAbs else decimalNat z.natAbs

theorem toNat_digit {d : ℕ} (h : d < 10) : (digit d).toNat = 48 + d := by
  rw [digit, UInt8.toNat_ofNat']
  omega

theorem digit_lt_digit_iff {d d' : ℕ} (h : d < 10) (h' : d' < 10) :
    digit d < digit d' ↔ d < d' := by
  rw [UInt8.lt_iff_toNat_lt, toNat_digit h, toNat_digit h']
  omega

theorem digit_inj {d d' : ℕ} (h : d < 10) (h' : d' < 10) : digit d = digit d' ↔ d = d' := by
  refine ⟨fun heq => ?_, fun heq => by rw [heq]⟩
  have hnat := congrArg UInt8.toNat heq
  rw [toNat_digit h, toNat_digit h'] at hnat
  omega

theorem isDigit_digit {d : ℕ} (h : d < 10) : isDigit (digit d) = true := by
  have hd := toNat_digit h
  simp only [isDigit, Bool.and_eq_true, decide_eq_true_eq, UInt8.le_iff_toNat_le, hd]
  exact ⟨Nat.le_add_right _ _, by change 48 + d ≤ 57; omega⟩

theorem ofDecimal_concat (s : List UInt8) (b : UInt8) :
    ofDecimal (s ++ [b]) = 10 * ofDecimal s + (b.toNat - 48) := by
  simp [ofDecimal]

theorem decimalNat_of_le {n : ℕ} (h : 10 ≤ n) :
    decimalNat n = decimalNat (n / 10) ++ [digit (n % 10)] := by
  have hdiv : n / 10 ≠ 0 := by omega
  unfold decimalNat
  rw [if_neg (by omega), if_neg hdiv, Nat.digits_def' (by omega) (by omega)]
  simp

theorem decimalNat_of_lt {n : ℕ} (h : n < 10) : decimalNat n = [digit n] := by
  unfold decimalNat
  split_ifs with h0
  · rw [h0]
  · rw [Nat.digits_of_lt 10 n h0 h]
    rfl

theorem isDigit_of_mem_decimalNat {n : ℕ} {b : UInt8} (h : b ∈ decimalNat n) :
    isDigit b = true := by
  induction n using Nat.strong_induction_on with
  | _ n ih =>
    rcases Nat.lt_or_ge n 10 with hn | hn
    · rw [decimalNat_of_lt hn, List.mem_singleton] at h
      rw [h]
      exact isDigit_digit hn
    · rw [decimalNat_of_le hn, List.mem_append, List.mem_singleton] at h
      rcases h with h | h
      · exact ih (n / 10) (by omega) h
      · rw [h]
        exact isDigit_digit (Nat.mod_lt _ (by omega))

theorem decimalNat_ne_nil (n : ℕ) : decimalNat n ≠ [] := by
  rcases Nat.lt_or_ge n 10 with hn | hn
  · rw [decimalNat_of_lt hn]
    exact List.cons_ne_nil _ _
  · rw [decimalNat_of_le hn]
    simp

theorem decimal_ne_nil (z : ℤ) : decimal z ≠ [] := by
  unfold decimal
  split_ifs
  · exact List.cons_ne_nil _ _
  · exact decimalNat_ne_nil _

theorem ofDecimal_decimalNat (n : ℕ) : ofDecimal (decimalNat n) = n := by
  induction n using Nat.strong_induction_on with
  | _ n ih =>
    rcases Nat.lt_or_ge n 10 with hn | hn
    · rw [decimalNat_of_lt hn]
      simp [ofDecimal, toNat_digit hn]
    · rw [decimalNat_of_le hn, ofDecimal_concat, ih (n / 10) (by omega),
        toNat_digit (Nat.mod_lt _ (by omega))]
      omega

theorem mem_decimal {z : ℤ} {b : UInt8} (h : b ∈ decimal z) : isDigit b = true ∨ b = 45 := by
  unfold decimal at h
  split_ifs at h
  · rcases List.mem_cons.mp h with h | h
    · exact Or.inr h
    · exact Or.inl (isDigit_of_mem_decimalNat h)
  · exact Or.inl (isDigit_of_mem_decimalNat h)

theorem decimal_injective {z z' : ℤ} (h : decimal z = decimal z') : z = z' := by
  have hsign : ∀ n n' : ℕ, 45 :: decimalNat n ≠ decimalNat n' := by
    intro n n' heq
    have hmem : (45 : UInt8) ∈ decimalNat n' := heq ▸ List.mem_cons_self
    exact absurd (isDigit_of_mem_decimalNat hmem) (by decide)
  have hinj : ∀ n n' : ℕ, decimalNat n = decimalNat n' → n = n' := fun n n' heq => by
    rw [← ofDecimal_decimalNat n, heq, ofDecimal_decimalNat]
  unfold decimal at h
  split_ifs at h with h1 h2 h2
  · have := hinj _ _ (List.cons.inj h).2
    omega
  · exact absurd h (hsign _ _)
  · exact absurd h.symm (hsign _ _)
  · have := hinj _ _ h
    omega

theorem length_decimalNat_le {n k : ℕ} (hk : 1 ≤ k) (h : n < 10 ^ k) :
    (decimalNat n).length ≤ k := by
  unfold decimalNat
  split_ifs
  · exact hk
  · rw [List.length_reverse, List.length_map]
    exact (Nat.digits_length_le_iff (by decide) n).mpr h

theorem div_mod_lt_iff {n n' : ℕ} (k : ℕ) (p : Prop) :
    n / k < n' / k ∨ n / k = n' / k ∧ (n % k < n' % k ∨ n % k = n' % k ∧ p) ↔
      n < n' ∨ n = n' ∧ p := by
  have hn := Nat.div_add_mod n k
  have hn' := Nat.div_add_mod n' k
  constructor
  · rintro (hlt | ⟨heq, hlt | ⟨heq', hp⟩⟩)
    · exact Or.inl (Nat.lt_of_div_lt_div hlt)
    · rw [heq] at hn
      exact Or.inl (by omega)
    · rw [heq, heq'] at hn
      exact Or.inr ⟨hn.symm.trans hn', hp⟩
  · rintro (hlt | ⟨rfl, hp⟩)
    · rcases (Nat.div_le_div_right hlt.le : n / k ≤ n' / k).lt_or_eq with hd | hd
      · exact Or.inl hd
      · rw [hd] at hn
        exact Or.inr ⟨hd, Or.inl (by omega)⟩
    · exact Or.inr ⟨rfl, Or.inr ⟨rfl, hp⟩⟩

end Lib
