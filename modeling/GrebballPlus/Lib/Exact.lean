import GrebballPlus.Lib.Polling

/-! The polled timer over a whole run, with exact bounds: when its `n`th beat comes, and
how many passes it makes. -/

namespace Lib.Timer

/-- When the `n`th beat comes after the start if nothing is ever late: the first waits
for the interval, the others for the interval or the sleep after a beat. -/
def onTime (p : Pace) : ℕ → ℕ
  | 0 => 0
  | n + 1 => p.interval + n * max p.interval p.cap

variable {p : Pace} {t t' : Timer} {r : Reading} {d t₀ : ℕ}

theorem onTime_succ {n : ℕ} (hn : n ≠ 0) :
    onTime p (n + 1) = onTime p n + max p.interval p.cap := by
  obtain ⟨k, rfl⟩ := Nat.exists_eq_succ_of_ne_zero hn
  rw [onTime, onTime, Nat.succ_mul, Nat.add_assoc]

/-- The last beat is no earlier than on time, and for each beat so far by `slack + d`
late at most. -/
structure Paced (p : Pace) (d t₀ : ℕ) (t : Timer) : Prop where
  early : t₀ + onTime p t.past.length ≤ t.last
  late : t.last ≤ t₀ + onTime p t.past.length + t.past.length * (p.slack + d)
  wait : t.past = [] → t.clock + t.asked ≤ t.last + p.interval
  slept : t.past ≠ [] → t.last + p.cap ≤ t.clock + t.asked

theorem paced_start (p : Pace) (d t₀ : ℕ) : Paced p d t₀ (start t₀) :=
  ⟨le_rfl, by simp [start, onTime], fun _ => Nat.le_add_right _ _, fun hne => absurd rfl hne⟩

theorem paced_step (hi : t.Inv p) (hp : t.Paced p d t₀) (h : t.PromptStep p d r t') :
    t'.Paced p d t₀ := by
  obtain ⟨hstep, hnow⟩ := h
  obtain ⟨-, ht, -⟩ := id hstep
  have hslept := ht.slept
  have horder := ht.order
  have hlast := hi.last_le
  have hearly := hp.early
  have hlate := hp.late
  rcases step_cases hstep with ⟨hdue, rfl⟩ | ⟨hwait, rfl⟩
  · refine ⟨?_, ?_, fun hnil => absurd hnil (List.cons_ne_nil _ _), fun _ => le_rfl⟩
    · simp only [List.length_cons]
      by_cases hnil : t.past = []
      · rw [hnil] at hearly ⊢
        simp only [List.length_nil, onTime] at hearly ⊢
        omega
      · have hcap := hp.slept hnil
        rw [onTime_succ (List.length_eq_zero_iff.not.mpr hnil)]
        omega
    · simp only [List.length_cons, Nat.succ_mul]
      by_cases hnil : t.past = []
      · have hfirst := hp.wait hnil
        rw [hnil] at hlate ⊢
        simp only [List.length_nil, onTime] at hlate ⊢
        omega
      · have hwake := hi.wake_le
        rw [onTime_succ (List.length_eq_zero_iff.not.mpr hnil)]
        omega
  · refine ⟨hearly, hlate, fun _ => by simp only; omega, fun hne => ?_⟩
    have hcap := hp.slept hne
    simp only at hcap ⊢
    omega

theorem paced_of_run {rs : List Reading} (h : Run (PromptStep p d) (start t₀) rs t) :
    t.Paced p d t₀ := by
  refine (h.invariant (fun t => t.Inv p ∧ t.Paced p d t₀)
    ⟨inv_start p t₀, paced_start p d t₀⟩ ?_).2
  exact fun _ _ _ ⟨hi, hp⟩ hs => ⟨inv_step hi hs.1, paced_step hi hp hs⟩

/-- Runs in which every beat is late by `a` and another `b`. -/
theorem run_beats (hcap : 0 < p.cap) {a b : ℕ} (ha : a ≤ p.slack) (hb : b ≤ d) {n : ℕ}
    (hn : n ≤ p.quota) : ∃ rs past, past.length = n ∧
      Run (PromptStep p d) (start t₀) rs ⟨t₀ + onTime p n + n * (a + b), past,
        t₀ + onTime p n + n * (a + b), if n = 0 then 0 else p.cap⟩ := by
  induction n with
  | zero =>
    have hnil : Run (PromptStep p d) (start t₀) [] (start t₀) := .nil
    exact ⟨[], [], rfl, by simpa [onTime, start] using hnil⟩
  | succ n ih =>
    obtain ⟨rs, past, hlen, hrun⟩ := ih (by omega)
    generalize hlast : t₀ + onTime p n + n * (a + b) = last at hrun
    have hquota : past.length < p.quota := by omega
    -- the wake-up at which the beat is due, which the sleep after a beat may pass
    obtain ⟨rs, clock, asked, hwake, hdue, hrun⟩ : ∃ rs clock asked,
        clock + asked + a + b = t₀ + onTime p (n + 1) + (n + 1) * (a + b) ∧
          last + p.interval ≤ clock + asked ∧
          Run (PromptStep p d) (start t₀) rs ⟨last, past, clock, asked⟩ := by
      rw [Nat.succ_mul]
      by_cases hzero : n = 0
      · subst hzero
        rw [if_pos rfl] at hrun
        obtain ⟨rs, clock, asked, hdue, -, hrun⟩ :=
          run_to_due_from hcap hquota le_rfl (Nat.le_add_right _ _) hrun
        simp only [onTime] at hlast ⊢
        exact ⟨rs, clock, asked, by omega, hdue.ge, hrun⟩
      · rw [if_neg hzero] at hrun
        rw [onTime_succ hzero]
        rcases le_total p.cap p.interval with hle | hle
        · obtain ⟨rs, clock, asked, hdue, -, hrun⟩ :=
            run_to_due_from hcap hquota le_rfl (by omega) hrun
          exact ⟨rs, clock, asked, by omega, hdue.ge, hrun⟩
        · exact ⟨rs, last, p.cap, by omega, by omega, hrun⟩
    have hbeat := beat_at ha hb hquota (by omega : last + p.interval ≤ clock + asked + a)
    rw [hwake] at hbeat
    exact ⟨_, _, by simp [hlen], .snoc hrun hbeat⟩

/-- The `n`th beat of a run: the bounds are exact at both ends. -/
theorem lastBeat_iff (hcap : 0 < p.cap) (d t₀ lo hi : ℕ) {n : ℕ} (hn : n ≤ p.quota) :
    (∀ rs t, Run (PromptStep p d) (start t₀) rs t → t.past.length = n →
      t₀ + lo ≤ t.last ∧ t.last ≤ t₀ + hi) ↔
    lo ≤ onTime p n ∧ onTime p n + n * (p.slack + d) ≤ hi := by
  constructor
  · intro h
    obtain ⟨_, _, hlen, hearly⟩ := run_beats hcap (Nat.zero_le _) (Nat.zero_le d) hn
    obtain ⟨_, _, hlen', hlate⟩ := run_beats hcap le_rfl (le_refl d) hn
    have hlo := (h _ _ hearly hlen).1
    have hhi := (h _ _ hlate hlen').2
    simp only [Nat.add_zero, Nat.mul_zero] at hlo
    simp only at hhi
    omega
  · rintro ⟨hlo, hhi⟩ rs t hrun rfl
    have hp := paced_of_run hrun
    have := hp.early
    have := hp.late
    omega

/-- The passes still to come, if none is late. After a beat the time left to the next one
is the interval less the sleep. -/
def owed (p : Pace) (t : Timer) : ℕ :=
  if t.past.length < p.quota then
    (p.quota - t.past.length - 1) * ((p.interval - p.cap) ⌈/⌉ p.cap + 1) + t.waits p + 1
  else 0

def passes (p : Pace) : ℕ :=
  (p.quota - 1) * ((p.interval - p.cap) ⌈/⌉ p.cap + 1) + p.interval ⌈/⌉ p.cap + 1

theorem owed_start (hquota : 0 < p.quota) (t₀ : ℕ) : owed p (start t₀) = passes p := by
  have hw : waits p (start t₀) = p.interval ⌈/⌉ p.cap := by simp [waits, start]
  have hlen : (start t₀).past.length = 0 := rfl
  rw [owed, hlen, if_pos hquota, hw, Nat.sub_zero]
  rfl

theorem waits_after_beat (now : ℕ) (past : List ℕ) :
    waits p ⟨now, past, now, p.cap⟩ = (p.interval - p.cap) ⌈/⌉ p.cap := by
  rw [waits, Nat.add_sub_add_left]

theorem owed_beat (now : ℕ) (hquota : t.past.length < p.quota) :
    owed p ⟨now, t.last :: t.past, now, p.cap⟩ + t.waits p + 1 = owed p t := by
  simp only [owed, if_pos hquota, List.length_cons, waits_after_beat]
  obtain ⟨q, hq⟩ : ∃ q, p.quota = t.past.length + 1 + q :=
    ⟨p.quota - (t.past.length + 1), by omega⟩
  cases q with
  | zero =>
    rw [if_neg (by omega), show p.quota - t.past.length - 1 = 0 by omega]
    omega
  | succ q =>
    rw [if_pos (by omega), show p.quota - t.past.length - 1 = q + 1 by omega,
      show p.quota - (t.past.length + 1) - 1 = q by omega, Nat.succ_mul]
    omega

theorem owed_step (hcap : 0 < p.cap) (hi : t.Inv p) (h : t.Step p r t') :
    owed p t' < owed p t := by
  obtain ⟨hq, ht, -⟩ := id h
  rcases step_cases h with ⟨-, rfl⟩ | ⟨hwait, rfl⟩
  · have := owed_beat r.now hq
    omega
  · have hw := waits_lt hcap hi ht hwait
    simp only [owed, if_pos hq]
    omega

theorem quota_le_owed (t : Timer) : p.quota ≤ t.past.length + owed p t := by
  unfold owed
  split_ifs with hquota
  · obtain ⟨q, hq⟩ : ∃ q, p.quota = t.past.length + 1 + q :=
      ⟨p.quota - (t.past.length + 1), by omega⟩
    rw [show p.quota - t.past.length - 1 = q by omega, Nat.mul_succ]
    omega
  · omega

theorem ceilDiv_sub_min {m c : ℕ} (hc : 0 < c) (hm : 0 < m) :
    m ⌈/⌉ c = (m - min c m) ⌈/⌉ c + 1 := by
  simp only [Nat.ceilDiv_eq_add_pred_div]
  rcases le_total c m with hle | hle
  · rw [min_eq_left hle, ← Nat.add_div_right _ hc]
    congr 1
    omega
  · rw [min_eq_right hle, Nat.sub_self, Nat.zero_add, Nat.div_eq_of_lt (by omega : c - 1 < c),
      show m + c - 1 = m - 1 + c by omega, Nat.add_div_right _ hc, Nat.div_eq_of_lt (by omega)]

theorem owed_prompt (hcap : 0 < p.cap) (d : ℕ) (hi : t.Inv p) (hne : owed p t ≠ 0) :
    ∃ r t', t.PromptStep p d r t' ∧ owed p t = owed p t' + 1 := by
  have hquota : t.past.length < p.quota := by
    by_contra hno
    exact hne (if_neg hno)
  have hlast := hi.last_le
  have htimely : t.Timely p ⟨t.clock + t.asked, t.clock + t.asked⟩ :=
    ⟨le_rfl, Nat.le_add_right _ _, le_rfl⟩
  refine ⟨⟨t.clock + t.asked, t.clock + t.asked⟩, _, ⟨⟨hquota, htimely, rfl⟩,
    by simp only; omega⟩, ?_⟩
  by_cases hdue : p.interval ≤ t.clock + t.asked - t.last
  · have hzero : t.waits p = 0 := by
      rw [waits, show t.last + p.interval - (t.clock + t.asked) = 0 by omega]
      simp
    have hbeat := owed_beat (p := p) (t.clock + t.asked) hquota
    rw [next, if_pos hdue]
    simp only
    omega
  · have hone := ceilDiv_sub_min hcap
      (by omega : 0 < t.last + p.interval - (t.clock + t.asked))
    have hleft : p.interval - (t.clock + t.asked - t.last) =
        t.last + p.interval - (t.clock + t.asked) := by omega
    have hrest : t.last + p.interval - (t.clock + t.asked +
        min p.cap (t.last + p.interval - (t.clock + t.asked))) =
        t.last + p.interval - (t.clock + t.asked) -
          min p.cap (t.last + p.interval - (t.clock + t.asked)) := by omega
    rw [next, if_neg hdue]
    simp only [owed, if_pos hquota, waits, hleft, hrest]
    omega

theorem exists_longest (hcap : 0 < p.cap) (hquota : 0 < p.quota) (d t₀ : ℕ) :
    ∃ rs t, Run (PromptStep p d) (start t₀) rs t ∧ rs.length = passes p := by
  obtain ⟨rs, t, hrun, -, hlen⟩ := Run.exists_length_eq (Inv p) (owed p) (inv_start p t₀)
    fun t hi hne => by
      obtain ⟨r, t', hstep, hone⟩ := owed_prompt hcap d hi hne
      exact ⟨r, t', hstep, inv_step hi hstep.1, hone⟩
  exact ⟨rs, t, hrun, hlen.trans (owed_start hquota t₀)⟩

theorem waits_of_run (hcap : 0 < p.cap) (hquota : 0 < p.quota) {rs : List Reading}
    (h : Run (Step p) (start t₀) rs t) : rs.length + p.quota ≤ passes p + t.past.length := by
  have hlen := h.length_add_le (Inv p) (owed p) (inv_start p t₀)
    (fun _ _ _ hi hs => inv_step hi hs) fun _ _ _ hi hs => owed_step hcap hi hs
  have howed : p.quota ≤ t.past.length + owed p t := quota_le_owed t
  rw [owed_start hquota] at hlen
  omega

end Lib.Timer
