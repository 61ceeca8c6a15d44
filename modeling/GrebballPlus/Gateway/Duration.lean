import GrebballPlus.Gateway.Termination
import GrebballPlus.Lib.Exact

/-! How long the five heartbeats take and how many passes are made for them, both with
exact bounds. -/

namespace GrebballPlus.Gateway

open Lib

/-- When the fifth heartbeat comes after the start of the loop if no pass is late. -/
def fifthOnTime (interval : UInt32) : ℕ := interval.toNat + 4 * max interval.toNat 3000

/-- The passes that send nothing, in a loop of which none is late: those that wait for the
first heartbeat, and those that wait for each other one behind its sleep of 3000. -/
def maxPolls (interval : UInt32) : ℕ :=
  interval.toNat ⌈/⌉ 3000 + 4 * ((interval.toNat - 3000) ⌈/⌉ 3000)

def worstPasses (interval : UInt32) : ℕ := maxPolls interval + 5

variable {interval : UInt32} {s : Loop} {d t₀ : ℕ} {es : List Iter}

theorem Inv.of_prompt_run (hrange : interval.toNat + 15 < 2 ^ 32)
    (h : Run (PromptStep interval d) (.start t₀) es s) : Inv interval s :=
  h.invariant (Inv interval) (inv_start interval t₀)
    fun _ _ _ hi hs => (promptStep_spec hrange hi hs).1

theorem onTime_pace (interval : UInt32) : Timer.onTime (pace interval) 5 = fifthOnTime interval := rfl

theorem passes_pace (interval : UInt32) : Timer.passes (pace interval) = worstPasses interval := by
  have hquota : (pace interval).quota = 5 := rfl
  have hcap : (pace interval).cap = 3000 := rfl
  have hinterval : (pace interval).interval = interval.toNat := rfl
  rw [Timer.passes, worstPasses, maxPolls, hquota, hcap, hinterval]
  omega

/-- The fifth heartbeat is sent no sooner than on time, and each heartbeat adds at most
the 15 of a pass and the `d` by which its reading may come later. No better bounds hold. -/
theorem fifth_heartbeat_iff (h : UInt32) (hh : 15 ≤ h) (d t₀ lo hi : ℕ) :
    (∀ es s, Run (PromptStep (h - 15) d) (.start t₀) es s → s.hbCount = 5 →
      t₀ + lo ≤ s.lastHb ∧ s.lastHb ≤ t₀ + hi) ↔
    lo ≤ fifthOnTime (h - 15) ∧ fifthOnTime (h - 15) + 5 * (15 + d) ≤ hi := by
  have hrange := sub_fifteen_lt hh
  have hcap : 0 < (pace (h - 15)).cap := cap_pos
  have hquota : 5 ≤ (pace (h - 15)).quota := le_rfl
  have htimer := Timer.lastBeat_iff hcap d t₀ lo hi hquota
  rw [← forall_run_iff hrange, onTime_pace] at htimer
  refine Iff.trans ?_ htimer
  -- the heartbeats counted are the beats of the timer
  constructor
  · intro hall es s hrun hlen
    have hcount : s.hbCount = 5 := (Inv.of_prompt_run hrange hrun).count.trans hlen
    exact hall es s hrun hcount
  · intro hall es s hrun hcount
    exact hall es s hrun ((Inv.of_prompt_run hrange hrun).count.symm.trans hcount)

theorem fifth_heartbeat_discord :
    (∀ es s, Run (PromptStep (41250 - 15) 0) (.start 0) es s → s.hbCount = 5 →
      0 + 206175 ≤ s.lastHb ∧ s.lastHb ≤ 0 + 206250) ∧
    ¬ ∀ es s, Run (PromptStep (41250 - 15) 0) (.start 0) es s → s.hbCount = 5 →
      0 + 206175 ≤ s.lastHb ∧ s.lastHb ≤ 0 + 206249 := by
  have hbounds := fifth_heartbeat_iff 41250 (by decide) 0 0 206175
  exact ⟨(hbounds 206250).mpr (by decide), fun h => absurd ((hbounds 206249).mp h) (by decide)⟩

theorem passes_of_run (hrange : interval.toNat + 15 < 2 ^ 32)
    (h : Run (Step interval) (.start t₀) es s) : es.length ≤ maxPolls interval + s.hbCount := by
  have hquota : (pace interval).quota = 5 := rfl
  have hlen := Timer.waits_of_run cap_pos (Nat.zero_lt_succ 4) (run_timer hrange h)
  have hcount : s.timer.past.length = s.hbCount := (Inv.of_run hrange h).count.symm
  rw [passes_pace, worstPasses, hquota, hcount, List.length_map] at hlen
  omega

theorem exists_longest_run (hrange : interval.toNat + 15 < 2 ^ 32) (d t₀ : ℕ) :
    ∃ es s, Run (PromptStep interval d) (.start t₀) es s ∧ es.length = worstPasses interval := by
  obtain ⟨rs, t, hrun, hlen⟩ :=
    Timer.exists_longest (p := pace interval) cap_pos (Nat.zero_lt_succ 4) d t₀
  obtain ⟨es, s, rfl, -, hrun'⟩ := Run.lifts Loop.timer Iter.reading (Inv interval)
    (inv_start _ t₀) (fun _ _ _ hi hs => (promptStep_spec hrange hi hs).1)
    (fun _ _ _ hi hs => promptStep_lifts hrange hi hs) hrun
  rw [List.length_map, passes_pace] at hlen
  exact ⟨es, s, hrun', hlen⟩

/-- The most passes the loop can make. -/
theorem passes_iff (h : UInt32) (hh : 15 ≤ h) (d t₀ n : ℕ) :
    (∀ es s, Run (PromptStep (h - 15) d) (.start t₀) es s → es.length ≤ n) ↔
      worstPasses (h - 15) ≤ n := by
  have hrange := sub_fifteen_lt hh
  constructor
  · intro hall
    obtain ⟨es, s, hrun, hlen⟩ := exists_longest_run hrange d t₀
    exact hlen ▸ hall es s hrun
  · intro hle es s hrun
    have hpasses := passes_of_run hrange (hrun.mono fun _ _ _ hs => hs.1)
    have hcount := (Inv.of_prompt_run hrange hrun).count_le
    rw [worstPasses] at hle
    omega

theorem passes_discord :
    (∀ es s, Run (PromptStep (41250 - 15) 0) (.start 0) es s → es.length ≤ 71) ∧
      ¬ ∀ es s, Run (PromptStep (41250 - 15) 0) (.start 0) es s → es.length ≤ 70 := by
  have hmost := passes_iff 41250 (by decide) 0 0
  exact ⟨(hmost 71).mpr (by decide), fun h => absurd ((hmost 70).mp h) (by decide)⟩

end GrebballPlus.Gateway
