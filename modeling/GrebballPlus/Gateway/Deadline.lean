import GrebballPlus.Gateway.Refine

/-! How far apart the heartbeats are. The server asks for one every `h` milliseconds, the
loop works with `h - 15`. No heartbeat comes before the interval is over, also where the
subtraction wrapped and the interval is some 49 days. The sleep after a heartbeat does
not look at the interval. -/

namespace GrebballPlus.Gateway

open Lib

def Loop.GapsWithin (n : ℕ) (s : Loop) : Prop :=
  (s.lastHb :: s.past).IsChain fun b a => b ≤ a + n

def Loop.GapsAtLeast (n : ℕ) (s : Loop) : Prop :=
  (s.lastHb :: s.past).IsChain fun b a => a + n ≤ b

/-- What every pass keeps, of any interval and however long it takes. -/
structure NotEarly (interval : UInt32) (t₀ : ℕ) (s : Loop) : Prop where
  last_le : s.lastHb ≤ s.clock
  start_le : t₀ ≤ s.lastHb
  first : s.past ≠ [] → t₀ + interval.toNat ≤ s.lastHb
  gaps : s.GapsAtLeast interval.toNat

theorem notEarly_start (interval : UInt32) (t₀ : ℕ) : NotEarly interval t₀ (.start t₀) :=
  ⟨le_rfl, le_rfl, fun hne => absurd rfl hne, List.IsChain.singleton t₀⟩

theorem step_cases {interval : UInt32} {s s' : Loop} {it : Iter} (h : Step interval s it s') :
    (interval ≤ UInt32.ofNat (it.since - s.lastHb) ∧ s'.lastHb = it.now ∧
      s'.past = s.lastHb :: s.past ∧ s'.clock = it.now) ∨
    (s'.lastHb = s.lastHb ∧ s'.past = s.past ∧ s'.clock = it.since) := by
  obtain ⟨-, -, hpass⟩ := h
  by_cases hdue : interval ≤ UInt32.ofNat (it.since - s.lastHb)
  · cases (pass_of_le hdue).symm.trans hpass
    exact Or.inl ⟨hdue, rfl, rfl, rfl⟩
  · cases (pass_of_not_le hdue).symm.trans hpass
    exact Or.inr ⟨rfl, rfl, rfl⟩

/-- A cast to `u32` can only make the elapsed time smaller. -/
theorem notEarly_step {interval : UInt32} {t₀ : ℕ} {s s' : Loop} {it : Iter}
    (hn : NotEarly interval t₀ s) (h : Step interval s it s') : NotEarly interval t₀ s' := by
  have hlast := hn.last_le
  have hstart := hn.start_le
  have hslept := h.2.1.slept
  have horder := h.2.1.order
  rcases step_cases h with ⟨hdue, hhb, hpast, hclock⟩ | ⟨hhb, hpast, hclock⟩
  · have hle : interval.toNat ≤ it.since - s.lastHb :=
      (UInt32.le_iff_toNat_le.mp hdue).trans (Nat.mod_le _ _)
    refine ⟨by omega, by omega, fun _ => by omega, ?_⟩
    rw [Loop.GapsAtLeast, hhb, hpast]
    exact List.isChain_cons_cons.mpr ⟨by omega, hn.gaps⟩
  · refine ⟨by omega, by omega, ?_, ?_⟩
    · rw [hpast, hhb]
      exact hn.first
    · rw [Loop.GapsAtLeast, hhb, hpast]
      exact hn.gaps

theorem notEarly_of_run {interval : UInt32} {t₀ : ℕ} {es : List Iter} {s : Loop}
    (h : Run (Step interval) (.start t₀) es s) : NotEarly interval t₀ s :=
  h.invariant (NotEarly interval t₀) (notEarly_start interval t₀)
    fun _ _ _ hn hs => notEarly_step hn hs

theorem gapsWithin_iff {h : UInt32} (hh : 15 ≤ h) (d t₀ n : ℕ) :
    (∀ es s, Run (PromptStep (h - 15) d) (.start t₀) es s → s.GapsWithin n) ↔
      max (h.toNat - 15) 3000 + 15 + d ≤ n := by
  have hcap : 0 < (pace (h - 15)).cap := cap_pos
  have hquota : 2 ≤ (pace (h - 15)).quota := Nat.le_of_ble_eq_true rfl
  have htimer := Timer.gapsWithin_iff hcap hquota d t₀ n
  rw [← forall_run_iff (sub_fifteen_lt hh)] at htimer
  rw [← toNat_sub_fifteen hh]
  exact htimer

/-- Every run of the loop for `h` meets the server's deadline exactly when `h` is 3015
or more and `d` is 0: a pass, with the reading that becomes `last_hb`, takes at most 15
beyond the sleep before it. Counted from one `tick_since` to the next, a pass that sends
could read that clock up to 15 later still, as with `h` 41250 at 41265; that is a `d` of
1 or more. -/
theorem heartbeat_deadline_iff (h : UInt32) (hh : 15 ≤ h) (d : ℕ) :
    (∀ t₀ es s, Run (PromptStep (h - 15) d) (.start t₀) es s → s.GapsWithin h.toNat) ↔
      d = 0 ∧ 3015 ≤ h.toNat := by
  have hmin : 15 ≤ h.toNat := UInt32.le_iff_toNat_le.mp hh
  constructor
  · intro hall
    have := (gapsWithin_iff hh d 0 h.toNat).mp (hall 0)
    omega
  · rintro ⟨hd, hle⟩ t₀
    exact (gapsWithin_iff hh d t₀ h.toNat).mpr (by omega)

theorem heartbeat_deadline_discord :
    (15 : UInt32) ≤ 41250 ∧ ∀ t₀ es s, Run (PromptStep (41250 - 15) 0) (.start t₀) es s →
      s.GapsWithin 41250 :=
  ⟨by decide, (heartbeat_deadline_iff 41250 (by decide) 0).mpr ⟨rfl, by decide⟩⟩

/-- With such a reading no `h` is safe. -/
theorem late_reading_misses {h : UInt32} (hh : 15 ≤ h) {d : ℕ} (hd : d ≠ 0) (t₀ : ℕ) :
    ∃ es s, Run (PromptStep (h - 15) d) (.start t₀) es s ∧ ¬ s.GapsWithin h.toNat := by
  by_contra hnone
  push Not at hnone
  have hmin : 15 ≤ h.toNat := UInt32.le_iff_toNat_le.mp hh
  have hle := (gapsWithin_iff hh d t₀ h.toNat).mp hnone
  omega

theorem promptStep_idle {interval : UInt32} {s s' : Loop} {now : ℕ} (hcount : s.hbCount < 5)
    (hslept : s.clock + s.asked.toNat ≤ now) (hslack : now ≤ s.clock + s.asked.toNat + 15)
    (hpass : pass interval s (idle ⟨now, now⟩) = .ok s') :
    PromptStep interval 0 s (idle ⟨now, now⟩) s' :=
  ⟨⟨hcount, ⟨hslept, hslack, le_rfl⟩, hpass⟩, hslack⟩

/-- A server that asks for a heartbeat a second gets the second one 3015 after the first. -/
theorem short_interval_misses :
    ∃ es s, Run (PromptStep (1000 - 15) 0) (.start 0) es s ∧ s.lastHb = 4000 ∧
      s.past = [985, 0] ∧ ¬ s.GapsWithin 1000 := by
  have hwait : PromptStep (1000 - 15) 0 (.start 0) (idle ⟨0, 0⟩)
      ⟨0, 0, [], [], 0, 985, [⟨0, 0, some 985, 985⟩]⟩ :=
    promptStep_idle (Nat.zero_lt_succ 4) le_rfl (Nat.zero_le 15) rfl
  have hfirst : PromptStep (1000 - 15) 0 ⟨0, 0, [], [], 0, 985, [⟨0, 0, some 985, 985⟩]⟩
      (idle ⟨985, 985⟩) ⟨985, 1, [heartbeat], [0], 985, 3000,
        [⟨985, 985, none, 3000⟩, ⟨0, 0, some 985, 985⟩]⟩ :=
    promptStep_idle (Nat.zero_lt_succ 4) le_rfl (Nat.le_add_right 985 15) rfl
  refine ⟨_, _, .snoc (.snoc (.snoc .nil hwait) hfirst)
    (promptStep_idle (Nat.lt_of_sub_eq_succ rfl) (Nat.le_add_right 3985 15) le_rfl rfl),
    rfl, rfl, fun hgaps => ?_⟩
  exact absurd (List.isChain_cons_cons.mp hgaps).1 (by decide)

end GrebballPlus.Gateway
