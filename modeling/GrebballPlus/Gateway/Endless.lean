import GrebballPlus.Gateway.Deadline
import GrebballPlus.Gateway.Termination

/-! What becomes of the loop when the subtraction wrapped. An `h` below 15 leaves an
interval of `2 ^ 32 - 15` or more, so that the 15 by which a pass may be late can carry
the elapsed time over the end of `u32`: the cast starts again from zero and the heartbeat
that was due is not seen. The loop can go on like that for ever. -/

namespace GrebballPlus.Gateway

open Lib

/-- Nothing was sent so far, and the wake-up asked for is not past the interval, the time
since `last_hb` being counted as the cast counts it. -/
structure Silent (interval : UInt32) (s : Loop) : Prop where
  count : s.hbCount = 0
  sent : s.sent = []
  last_le : s.lastHb ≤ s.clock
  wake_le : (s.clock - s.lastHb) % 2 ^ 32 + s.asked.toNat ≤ interval.toNat

variable {interval : UInt32} {s : Loop}

theorem silent_start (interval : UInt32) (t₀ : ℕ) : Silent interval (.start t₀) :=
  ⟨rfl, rfl, le_rfl, by simp [Loop.start]⟩

theorem silent_pass (hs : Silent interval s) (now : ℕ) (hslept : s.clock + s.asked.toNat ≤ now)
    (hslack : now ≤ s.clock + s.asked.toNat + 15) (hms : (now - s.lastHb) % 2 ^ 32 < interval.toNat) :
    ∃ s', Step interval s (idle ⟨now, now⟩) s' ∧ Silent interval s' ∧ s'.lastHb = s.lastHb ∧
      s'.clock = now ∧
      s'.asked.toNat = min 3000 (interval.toNat - (now - s.lastHb) % 2 ^ 32) := by
  have hlt : UInt32.ofNat (now - s.lastHb) < interval := UInt32.lt_iff_toNat_lt.mpr hms
  have hpass : pass interval s (idle ⟨now, now⟩) = .ok _ :=
    pass_of_not_le (UInt32.not_le.mpr hlt)
  have hlast := hs.last_le
  have hleft : (interval - UInt32.ofNat (now - s.lastHb)).toNat =
      interval.toNat - (now - s.lastHb) % 2 ^ 32 :=
    UInt32.toNat_sub_of_le _ _ (UInt32.le_of_lt hlt)
  have hasked : (min wait (min wait (interval - UInt32.ofNat (now - s.lastHb)))).toNat =
      min 3000 (interval.toNat - (now - s.lastHb) % 2 ^ 32) := by
    have h3000 : wait.toNat = 3000 := rfl
    rw [toNat_min, toNat_min, hleft, h3000]
    omega
  refine ⟨_, ⟨?_, ⟨hslept, hslack, le_rfl⟩, hpass⟩, ⟨hs.count, hs.sent, ?_, ?_⟩, rfl, rfl, hasked⟩
  · rw [hs.count]
    exact Nat.zero_lt_succ 4
  · simp only [idle]
    omega
  · simp only [idle, hasked]
    omega

/-- Where the interval ends 15 or less before the cast starts again, there is always such
a pass: on time while the interval is not over, and past the end of `u32` when it is. -/
theorem silent_next (hwrap : 2 ^ 32 ≤ interval.toNat + 15)
    (hs : Silent interval s) : ∃ it s', Step interval s it s' ∧ Silent interval s' := by
  have hlast := hs.last_le
  have hwake := hs.wake_le
  rcases Nat.lt_or_ge ((s.clock - s.lastHb) % 2 ^ 32 + s.asked.toNat) interval.toNat with hlt | hdue
  · obtain ⟨s', hstep, hs', -⟩ := silent_pass hs _ le_rfl (Nat.le_add_right _ 15) (by omega)
    exact ⟨_, s', hstep, hs'⟩
  · have hmax := interval.toNat_lt
    obtain ⟨s', hstep, hs', -⟩ := silent_pass hs
      (s.clock + s.asked.toNat + (2 ^ 32 - interval.toNat)) (by omega) (by omega) (by omega)
    exact ⟨_, s', hstep, hs'⟩

/-- An interval below 15 wraps, and then no heartbeat is sent for 4294967281
milliseconds or more. -/
theorem wrapped_interval_silent {h : UInt32} (hh : h < 15) {t₀ : ℕ} {es : List Iter} {s : Loop}
    (hrun : Run (Step (h - 15)) (.start t₀) es s) (hclock : s.clock < t₀ + 4294967281) :
    s.past = [] := by
  by_contra hne
  have hn := notEarly_of_run hrun
  have hfirst := hn.first hne
  have hlast := hn.last_le
  have hwrap : 4294967281 ≤ (h - 15).toNat := by
    rw [UInt32.lt_iff_toNat_lt] at hh
    rw [UInt32.toNat_sub]
    have h15 : (15 : UInt32).toNat = 15 := rfl
    omega
  omega

theorem sleeps_of_zero (k : ℕ) (hk : 3000 * k ≤ 4294967281) :
    ∃ es s, Run (Step (0 - 15)) (.start 0) es s ∧ es.length = k ∧ Silent (0 - 15) s ∧
      s.lastHb = 0 ∧ s.clock + s.asked.toNat = 3000 * k := by
  have hinterval : ((0 - 15 : UInt32)).toNat = 4294967281 := rfl
  induction k with
  | zero => exact ⟨[], _, .nil, rfl, silent_start _ 0, rfl, rfl⟩
  | succ k ih =>
    obtain ⟨es, s, hrun, hlen, hs, hlast, hwake⟩ := ih (by omega)
    have hms : (3000 * k - s.lastHb) % 2 ^ 32 = 3000 * k := by
      rw [hlast]
      exact Nat.mod_eq_of_lt (by omega)
    obtain ⟨s', hstep, hs', hlast', hclock, hasked⟩ := silent_pass hs (3000 * k)
      (by omega) (by omega) (by omega)
    refine ⟨_, s', .snoc hrun hstep, by simp [hlen], hs', hlast'.trans hlast, ?_⟩
    rw [hclock, hasked, hms, hinterval]
    omega

/-- The last wake-up short of the bound is the 1431655th. -/
theorem wrapped_interval_silent_zero :
    ∃ es s, Run (Step (0 - 15)) (.start 0) es s ∧ es.length = 1431655 ∧ s.past = [] := by
  obtain ⟨es, s, hrun, hlen, -, -, hwake⟩ := sleeps_of_zero 1431655 (by omega)
  have hclock : s.clock < 0 + 4294967281 := by omega
  exact ⟨es, s, hrun, hlen, wrapped_interval_silent (by decide) hrun hclock⟩

/-- Timely readings can keep the loop running for ever exactly when the subtraction
wrapped, and then without a single heartbeat. -/
theorem endless_iff (h : UInt32) (t₀ : ℕ) :
    ((∃ env : ℕ → Iter, ∀ k, ∃ s, Run (Step (h - 15)) (.start t₀) ((List.range k).map env) s) ↔
      h < 15) ∧
    (h < 15 → ∃ env : ℕ → Iter, ∀ k, ∃ s,
      Run (Step (h - 15)) (.start t₀) ((List.range k).map env) s ∧ s.sent = []) := by
  have hsilence : h < 15 → ∃ env : ℕ → Iter, ∀ k, ∃ s,
      Run (Step (h - 15)) (.start t₀) ((List.range k).map env) s ∧ s.sent = [] := by
    intro hh
    have h15 : (15 : UInt32).toNat = 15 := rfl
    have hlt := UInt32.lt_iff_toNat_lt.mp hh
    have hwrap : (h - 15).toNat = 2 ^ 32 - 15 + h.toNat := by
      rw [UInt32.toNat_sub, h15]
      omega
    obtain ⟨env, henv⟩ := Run.endless (Silent (h - 15)) (silent_start _ t₀)
      fun s hs => silent_next (by omega) hs
    refine ⟨env, fun k => ?_⟩
    obtain ⟨s, hrun, hs⟩ := henv k
    exact ⟨s, hrun, hs.sent⟩
  refine ⟨⟨fun ⟨env, henv⟩ => ?_, fun hh => ?_⟩, hsilence⟩
  · by_contra hge
    have hrange := sub_fifteen_lt (UInt32.not_lt.mp hge)
    obtain ⟨s, hrun⟩ := henv (maxPasses (h - 15) + 1)
    have hlen := length_of_run hrange hrun
    rw [List.length_map, List.length_range] at hlen
    omega
  · obtain ⟨env, henv⟩ := hsilence hh
    exact ⟨env, fun k => (henv k).imp fun s hs => hs.1⟩

end GrebballPlus.Gateway
