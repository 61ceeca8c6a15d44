import GrebballPlus.Gateway.Refine

/-! The loop ends, after five heartbeats, and its `u32` arithmetic is that of the
numbers it stands for. -/

namespace GrebballPlus.Gateway

open Lib

def maxPasses (interval : UInt32) : ℕ := 5 * (interval.toNat ⌈/⌉ 3000 + 1)

variable {interval : UInt32} {s : Loop} {t₀ : ℕ} {es : List Iter}

theorem length_of_run (hrange : interval.toNat + 15 < 2 ^ 32)
    (h : Run (Step interval) (.start t₀) es s) : es.length ≤ maxPasses interval := by
  have hlen := Timer.length_of_run cap_pos (run_timer hrange h)
  rw [List.length_map] at hlen
  exact hlen

/-- For every `h` of 15 or more: each pass of each run computes without wrapping and asks
for a sleep of 1 to 3000, and under every timely environment the loop is over after five
heartbeats and at most `maxPasses` passes. -/
theorem heartbeat_loop_terminates (h : UInt32) (hh : 15 ≤ h) (t₀ : ℕ) :
    (∀ es s, Run (Step (h - 15)) (.start t₀) es s →
      es.length ≤ maxPasses (h - 15) ∧ s.passes.length = es.length ∧
      (∀ p ∈ s.passes, p.Sound (h - 15)) ∧
      s.hbCount ≤ 5 ∧ s.sent = List.replicate s.hbCount heartbeat) ∧
    ∀ env : ℕ → Iter,
      (∀ k s, Run (Step (h - 15)) (.start t₀) ((List.range k).map env) s → s.hbCount < 5 →
        Timely s (env k)) →
      ∃ k ≤ maxPasses (h - 15), ∃ s,
        Run (Step (h - 15)) (.start t₀) ((List.range k).map env) s ∧ s.hbCount = 5 ∧
        s.closed = List.replicate 5 heartbeat ++ [close] := by
  have hrange := sub_fifteen_lt hh
  refine ⟨?_, ?_⟩
  · intro es s hrun
    have hi := Inv.of_run hrange hrun
    exact ⟨length_of_run hrange hrun, length_passes hrange hrun, hi.sound, hi.count_le, hi.sent⟩
  · intro env henv
    obtain ⟨k, hk, s, hrun, hdone⟩ := Run.reaches_done (fun s => ¬ s.hbCount < 5)
      (maxPasses (h - 15)) env (fun es s hrun => length_of_run hrange hrun) (by
        intro k s hrun hgo
        have hlt := not_not.mp hgo
        have ht := henv k s hrun hlt
        obtain ⟨s', hpass, -⟩ := pass_spec hrange (Inv.of_run hrange hrun) hlt ht
        exact ⟨s', hlt, ht, hpass⟩)
    have hi := Inv.of_run hrange hrun
    have hfive : s.hbCount = 5 := Nat.le_antisymm hi.count_le (Nat.not_lt.mp hdone)
    refine ⟨k, hk, s, hrun, hfive, ?_⟩
    rw [Loop.closed, hi.sent, hfive]

/-- When the passes for an interval of 41235 come where every sleep takes as long as asked:
those that wait are 3000 apart, and every fourteenth finds the interval over. -/
def onTheDot (k : ℕ) : ℕ := 41235 * (k / 14) + 3000 * (k % 14)

theorem onTheDot_eq {q r : ℕ} (hr : r < 14) : onTheDot (14 * q + r) = 41235 * q + 3000 * r := by
  rw [onTheDot, Nat.mul_add_div (by decide), Nat.mul_add_mod, Nat.div_eq_of_lt hr,
    Nat.mod_eq_of_lt hr, Nat.add_zero]

theorem onTheDot_succ {q r : ℕ} (hr : r < 14) :
    r = 13 ∧ onTheDot (14 * q + r + 1) = 41235 * (q + 1) ∨
      r ≠ 13 ∧ onTheDot (14 * q + r + 1) = 41235 * q + 3000 * (r + 1) := by
  by_cases h13 : r = 13
  · rw [h13]
    exact Or.inl ⟨rfl, onTheDot_eq (q := q + 1) (r := 0) (by decide)⟩
  · exact Or.inr ⟨h13, onTheDot_eq (r := r + 1) (by omega)⟩

theorem clock_of_run {k : ℕ} (h : Run (Step (41250 - 15)) (.start 0)
      ((List.range k).map fun k => idle ⟨onTheDot k, onTheDot k⟩) s) :
    s.lastHb = 41235 * ((k - 1) / 14) ∧ s.clock + s.asked.toNat = onTheDot k := by
  have hrange : (41250 - 15 : UInt32).toNat + 15 < 2 ^ 32 := by decide
  have hinterval : (41250 - 15 : UInt32).toNat = 41235 := rfl
  have hwait : wait.toNat = 3000 := rfl
  induction k generalizing s with
  | zero =>
    rw [h.of_nil]
    exact ⟨rfl, rfl⟩
  | succ k ih =>
    rw [List.range_succ, List.map_append] at h
    obtain ⟨s₀, hrun, -, ht, hpass⟩ := h.of_concat
    obtain ⟨hlast, -⟩ := ih hrun
    have hi := (Inv.of_run hrange hrun).timer
    obtain ⟨q, r, hr, rfl⟩ : ∃ q r, r < 14 ∧ k = 14 * q + r :=
      ⟨k / 14, k % 14, Nat.mod_lt k (by decide), (Nat.div_add_mod k 14).symm⟩
    have hsince := onTheDot_eq (q := q) hr
    have hnext := onTheDot_succ (q := q) hr
    rw [show (14 * q + r + 1 - 1) / 14 = q by omega]
    by_cases hdue : (41250 - 15 : UInt32).toNat ≤ onTheDot (14 * q + r) - s₀.lastHb
    · obtain ⟨ms, -, hpass'⟩ := pass_send hrange hi ht hdue
      cases hpass'.symm.trans hpass
      -- only the first pass of fourteen finds the interval over
      have hzero : r = 0 := by
        by_contra hne
        have hlast' : (14 * q + r - 1) / 14 = q := by omega
        omega
      subst hzero
      simp only [idle, hsince, hwait]
      omega
    · obtain ⟨ms, left, asked, -, -, hasked, hpass'⟩ :=
        pass_wait hrange hi ht (Nat.not_le.mp hdue)
      cases hpass'.symm.trans hpass
      replace hlast : s₀.lastHb = 41235 * q := by
        rw [hlast]
        by_contra hne
        have hprev : (14 * q + r - 1) / 14 = q - 1 := by omega
        omega
      refine ⟨hlast, ?_⟩
      simp only [idle, hsince, hlast, hinterval, Nat.add_sub_cancel_left] at hasked ⊢
      omega

theorem heartbeat_loop_terminates_discord :
    ∃ k ≤ maxPasses (41250 - 15), ∃ s, Run (Step (41250 - 15)) (.start 0)
      ((List.range k).map fun k => idle ⟨onTheDot k, onTheDot k⟩) s ∧ s.hbCount = 5 := by
  obtain ⟨k, hk, s, hrun, hfive, -⟩ := (heartbeat_loop_terminates 41250 (by decide) 0).2 _ (by
    intro k s hrun _
    obtain ⟨-, hclock⟩ := clock_of_run hrun
    exact ⟨hclock.le, hclock.ge.trans (Nat.le_add_right _ 15), le_rfl⟩)
  exact ⟨k, hk, s, hrun, hfive⟩

end GrebballPlus.Gateway
