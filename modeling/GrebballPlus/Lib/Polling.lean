import GrebballPlus.Lib.Runs
import Mathlib.Algebra.Order.Floor.Div
import Mathlib.Tactic.Common
import Mathlib.Tactic.Linarith

/-! A polled timer over the natural numbers. A loop looks at a clock, beats when
`interval` has passed since the last beat, and sleeps: `cap` after a beat, and the
time left to the next one, but at most `cap`, otherwise. A sleep is never short and
`slack` bounds what comes on top of it. The two results are the gap between beats,
whose exact bound is `max interval cap + slack`, and the number of passes. -/

namespace Lib

structure Pace where
  interval : ℕ
  cap : ℕ
  slack : ℕ
  quota : ℕ

/-- `last :: past` are the beats so far, newest first, the first being the start.
`clock` is the latest reading and `asked` the sleep asked for after it. -/
structure Timer where
  last : ℕ
  past : List ℕ
  clock : ℕ
  asked : ℕ

/-- What one pass reads: the clock when it looks, and the clock when it beats. -/
structure Reading where
  since : ℕ
  now : ℕ

namespace Timer

def start (t₀ : ℕ) : Timer := ⟨t₀, [], t₀, 0⟩

def next (p : Pace) (t : Timer) (r : Reading) : Timer :=
  if p.interval ≤ r.since - t.last then ⟨r.now, t.last :: t.past, r.now, p.cap⟩
  else ⟨t.last, t.past, r.since, min p.cap (p.interval - (r.since - t.last))⟩

/-- The clock never goes back, the sleep lasts as long as asked and the pass that
follows looks at the clock within the slack. -/
structure Timely (p : Pace) (t : Timer) (r : Reading) : Prop where
  slept : t.clock + t.asked ≤ r.since
  slack : r.since ≤ t.clock + t.asked + p.slack
  order : r.since ≤ r.now

def Step (p : Pace) (t : Timer) (r : Reading) (t' : Timer) : Prop :=
  t.past.length < p.quota ∧ t.Timely p r ∧ t' = t.next p r

def PromptStep (p : Pace) (d : ℕ) (t : Timer) (r : Reading) (t' : Timer) : Prop :=
  t.Step p r t' ∧ r.now ≤ t.clock + t.asked + p.slack + d

def GapsWithin (d : ℕ) (t : Timer) : Prop :=
  (t.last :: t.past).IsChain fun b a => b ≤ a + d

/-- What every pass leaves behind: the wake-up asked for is not past the interval,
except for the sleep that follows a beat. -/
structure Inv (p : Pace) (t : Timer) : Prop where
  last_le : t.last ≤ t.clock
  wake_le : t.clock + t.asked ≤ t.last + max p.interval p.cap
  quota : t.past.length ≤ p.quota

variable {p : Pace} {t t' : Timer} {r : Reading}

theorem inv_start (p : Pace) (t₀ : ℕ) : (start t₀).Inv p :=
  ⟨le_rfl, by simp [start], by simp [start]⟩

theorem step_cases (h : t.Step p r t') :
    (p.interval ≤ r.since - t.last ∧ t' = ⟨r.now, t.last :: t.past, r.now, p.cap⟩) ∨
    (r.since - t.last < p.interval ∧
      t' = ⟨t.last, t.past, r.since, min p.cap (p.interval - (r.since - t.last))⟩) := by
  obtain ⟨-, -, rfl⟩ := h
  by_cases hdue : p.interval ≤ r.since - t.last
  · exact Or.inl ⟨hdue, if_pos hdue⟩
  · exact Or.inr ⟨not_le.mp hdue, if_neg hdue⟩

theorem inv_step (hi : t.Inv p) (h : t.Step p r t') : t'.Inv p := by
  obtain ⟨hq, ht, -⟩ := id h
  have hslept := ht.slept
  have hlast := hi.last_le
  rcases step_cases h with ⟨-, rfl⟩ | ⟨hwait, rfl⟩
  · exact ⟨le_rfl, by simp, hq⟩
  · exact ⟨by simp only; omega, by simp only; omega, hi.quota⟩

theorem elapsed_le (hi : t.Inv p) (ht : t.Timely p r) :
    r.since - t.last ≤ max p.interval p.cap + p.slack := by
  have := hi.wake_le
  have := ht.slack
  omega

theorem gaps_step {d : ℕ} (hi : t.Inv p) (hg : t.GapsWithin (max p.interval p.cap + p.slack + d))
    (h : t.PromptStep p d r t') : t'.GapsWithin (max p.interval p.cap + p.slack + d) := by
  obtain ⟨hstep, hnow⟩ := h
  rcases step_cases hstep with ⟨-, rfl⟩ | ⟨-, rfl⟩
  · refine List.isChain_cons_cons.mpr ⟨?_, hg⟩
    have := hi.wake_le
    change r.now ≤ t.last + _
    omega
  · exact hg

theorem gaps_of_run {d t₀ : ℕ} {rs : List Reading} (h : Run (PromptStep p d) (start t₀) rs t) :
    t.GapsWithin (max p.interval p.cap + p.slack + d) := by
  refine (h.invariant (fun t => t.Inv p ∧ t.GapsWithin (max p.interval p.cap + p.slack + d))
    ⟨inv_start p t₀, List.IsChain.singleton _⟩ ?_).2
  exact fun _ _ _ ⟨hi, hg⟩ hs => ⟨inv_step hi hs.1, gaps_step hi hg hs⟩

/-- A clock without slack brings the loop to the moment its next beat is due. -/
theorem run_to_due_from {d t₀ last clock asked : ℕ} {past : List ℕ} {rs : List Reading}
    (hcap : 0 < p.cap) (hquota : past.length < p.quota) (hclock : last ≤ clock)
    (hwake : clock + asked ≤ last + p.interval)
    (hrun : Run (PromptStep p d) (start t₀) rs ⟨last, past, clock, asked⟩) :
    ∃ rs clock asked, clock + asked = last + p.interval ∧ last ≤ clock ∧
      Run (PromptStep p d) (start t₀) rs ⟨last, past, clock, asked⟩ := by
  obtain ⟨n, hleft⟩ := Nat.exists_eq_add_of_le hwake
  clear hwake
  -- each pass that waits lowers the time left by what it sleeps, which is not zero
  induction n using Nat.strong_induction_on generalizing rs clock asked with
  | _ n ih =>
    rcases Nat.eq_zero_or_pos n with rfl | hn
    · exact ⟨rs, clock, asked, hleft.symm, hclock, hrun⟩
    · have hstep : PromptStep p d ⟨last, past, clock, asked⟩ ⟨clock + asked, clock + asked⟩
          ⟨last, past, clock + asked, min p.cap n⟩ := by
        refine ⟨⟨hquota, ⟨le_rfl, Nat.le_add_right _ _, le_rfl⟩, ?_⟩, by simp only; omega⟩
        rw [next, if_neg (by simp only; omega)]
        congr 2
        simp only
        omega
      exact ih (n - min p.cap n) (by omega) (by omega) (.snoc hrun hstep) (by omega)

theorem run_to_due (hcap : 0 < p.cap) (hquota : 0 < p.quota) (d t₀ : ℕ) :
    ∃ rs clock asked, clock + asked = t₀ + p.interval ∧ t₀ ≤ clock ∧
      Run (PromptStep p d) (start t₀) rs ⟨t₀, [], clock, asked⟩ :=
  run_to_due_from hcap hquota le_rfl (Nat.le_add_right _ _) .nil

theorem beat_at {a b d last clock asked : ℕ} {past : List ℕ} (ha : a ≤ p.slack) (hb : b ≤ d)
    (hquota : past.length < p.quota) (hdue : last + p.interval ≤ clock + asked + a) :
    PromptStep p d ⟨last, past, clock, asked⟩ ⟨clock + asked + a, clock + asked + a + b⟩
      ⟨clock + asked + a + b, last :: past, clock + asked + a + b, p.cap⟩ := by
  refine ⟨⟨hquota, ⟨Nat.le_add_right _ _, by simp only; omega, Nat.le_add_right _ _⟩, ?_⟩,
    by simp only; omega⟩
  rw [next, if_pos (by simp only; omega)]

theorem late_beat {d last clock asked : ℕ} {past : List ℕ} (hquota : past.length < p.quota)
    (hdue : last + p.interval ≤ clock + asked + p.slack) :
    PromptStep p d ⟨last, past, clock, asked⟩
      ⟨clock + asked + p.slack, clock + asked + p.slack + d⟩
      ⟨clock + asked + p.slack + d, last :: past, clock + asked + p.slack + d, p.cap⟩ :=
  beat_at le_rfl le_rfl hquota hdue

/-- No smaller bound holds: the wait for the first beat, or the sleep after it, can take
all of `max interval cap + slack + d`. -/
theorem gapsWithin_iff (hcap : 0 < p.cap) (hquota : 2 ≤ p.quota) (d t₀ n : ℕ) :
    (∀ rs t, Run (PromptStep p d) (start t₀) rs t → t.GapsWithin n) ↔
      max p.interval p.cap + p.slack + d ≤ n := by
  constructor
  · intro h
    obtain ⟨rs, clock, asked, hdue, hclock, hrun⟩ := run_to_due hcap (by omega) d t₀
    have hfirst := Run.snoc hrun (late_beat (by simp only [List.length_nil]; omega) (by omega))
    rcases le_total p.cap p.interval with hle | hle
    · have hgap : clock + asked + p.slack + d ≤ t₀ + n :=
        (List.isChain_cons_cons.mp (h _ _ hfirst)).1
      omega
    · have hsecond := Run.snoc hfirst (late_beat hquota (by omega))
      have hgap : clock + asked + p.slack + d + p.cap + p.slack + d ≤
          clock + asked + p.slack + d + n := (List.isChain_cons_cons.mp (h _ _ hsecond)).1
      omega
  · intro hle rs t hrun
    exact (gaps_of_run hrun).imp fun b a hba => hba.trans (Nat.add_le_add_left hle a)

/-- Waiting passes still needed when the sleep asked for is over. -/
def waits (p : Pace) (t : Timer) : ℕ :=
  (t.last + p.interval - (t.clock + t.asked)) ⌈/⌉ p.cap

/-- Bounds the passes left: for each beat still owed one pass and the waits of a
whole interval, for the next beat only the waits left. -/
def variant (p : Pace) (t : Timer) : ℕ :=
  if t.past.length < p.quota then
    (p.quota - t.past.length - 1) * (p.interval ⌈/⌉ p.cap + 1) + t.waits p + 1
  else 0

theorem variant_start (p : Pace) (t₀ : ℕ) :
    variant p (start t₀) ≤ p.quota * (p.interval ⌈/⌉ p.cap + 1) := by
  unfold variant
  split_ifs with hq
  · have hw : waits p (start t₀) = p.interval ⌈/⌉ p.cap := by simp [waits, start]
    have hlen : (start t₀).past.length = 0 := rfl
    obtain ⟨q, hq'⟩ : ∃ q, p.quota = q + 1 := ⟨p.quota - 1, by omega⟩
    rw [hw, hlen, hq', Nat.sub_zero, Nat.add_sub_cancel, Nat.succ_mul]
    omega
  · exact Nat.zero_le _

theorem waits_lt (hcap : 0 < p.cap) (hi : t.Inv p) (ht : t.Timely p r)
    (hwait : r.since - t.last < p.interval) :
    waits p ⟨t.last, t.past, r.since, min p.cap (p.interval - (r.since - t.last))⟩ <
      waits p t := by
  have hslept := ht.slept
  have hlast := hi.last_le
  simp only [waits, Nat.ceilDiv_eq_add_pred_div]
  rcases le_total p.cap (p.interval - (r.since - t.last)) with hc | hc
  · -- a full sleep of `cap`, with `cap` or more still missing
    rw [min_eq_left hc]
    refine lt_of_lt_of_le ?_ (Nat.div_le_div_right (c := p.cap)
      (show t.last + p.interval - (r.since + p.cap) + p.cap + p.cap - 1 ≤ _ by omega))
    rw [show t.last + p.interval - (r.since + p.cap) + p.cap + p.cap - 1 =
      t.last + p.interval - (r.since + p.cap) + p.cap - 1 + p.cap by omega,
      Nat.add_div_right _ hcap]
    exact Nat.lt_succ_self _
  · -- the last sleep before the beat: nothing is missing after it
    rw [min_eq_right hc]
    have hz : (t.last + p.interval - (r.since + (p.interval - (r.since - t.last))) + p.cap - 1) /
        p.cap = 0 := Nat.div_eq_of_lt (by omega)
    rw [hz]
    exact Nat.div_pos (by omega) hcap

theorem variant_step (hcap : 0 < p.cap) (hi : t.Inv p) (h : t.Step p r t') :
    variant p t' < variant p t := by
  obtain ⟨hq, ht, -⟩ := id h
  rcases step_cases h with ⟨-, rfl⟩ | ⟨hwait, rfl⟩
  · simp only [variant, if_pos hq, List.length_cons]
    split_ifs with hq'
    · have hw : waits p ⟨r.now, t.last :: t.past, r.now, p.cap⟩ ≤ p.interval ⌈/⌉ p.cap := by
        simp only [waits, Nat.ceilDiv_eq_add_pred_div]
        exact Nat.div_le_div_right (by omega)
      obtain ⟨q, hq''⟩ : ∃ q, p.quota - t.past.length - 1 = q + 1 :=
        ⟨p.quota - t.past.length - 2, by omega⟩
      rw [show p.quota - (t.past.length + 1) - 1 = q by omega, hq'', Nat.succ_mul]
      omega
    · omega
  · have hw := waits_lt hcap hi ht hwait
    simp only [variant, if_pos hq]
    omega

theorem length_of_run (hcap : 0 < p.cap) {t₀ : ℕ} {rs : List Reading}
    (h : Run (Step p) (start t₀) rs t) :
    rs.length ≤ p.quota * (p.interval ⌈/⌉ p.cap + 1) := by
  have hle := h.length_add_le (Inv p) (variant p) (inv_start p t₀) (fun _ _ _ => inv_step)
    (fun _ _ _ => variant_step hcap)
  have := variant_start p t₀
  omega

end Timer

end Lib
