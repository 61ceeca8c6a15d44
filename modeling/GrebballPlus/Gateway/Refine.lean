import GrebballPlus.Gateway.WebSocket
import GrebballPlus.Lib.Polling

/-! The heartbeat loop is the polled timer of its interval, with sleeps of up to 3000,
a slack of 15 and five beats to make. The interval leaves room for the slack below
`2 ^ 32`, so the cast of the elapsed time loses nothing. -/

namespace GrebballPlus.Gateway

open Lib

def pace (interval : UInt32) : Pace := ⟨interval.toNat, wait.toNat, 15, 5⟩

def Loop.timer (s : Loop) : Timer := ⟨s.lastHb, s.past, s.clock, s.asked.toNat⟩

def Iter.reading (it : Iter) : Reading := ⟨it.since, it.now⟩

def idle (r : Reading) : Iter where
  since := r.since
  now := r.now
  recv := ⟨.AGAIN, none, [], by decide, fun _ => ⟨rfl, rfl⟩⟩
  frame := by decide

/-- The pass computed without wrapping, and asked for a sleep of 1 to 3000. -/
structure Pass.Sound (interval : UInt32) (p : Pass) : Prop where
  ms : p.ms.toNat = p.elapsed
  left : ∀ l ∈ p.left, p.ms < interval ∧ l.toNat = interval.toNat - p.ms.toNat
  asked : 1 ≤ p.asked.toNat ∧ p.asked.toNat ≤ 3000

structure Inv (interval : UInt32) (s : Loop) : Prop where
  timer : s.timer.Inv (pace interval)
  count : s.hbCount = s.past.length
  sent : s.sent = List.replicate s.hbCount heartbeat
  sound : ∀ p ∈ s.passes, p.Sound interval

theorem toNat_min (a b : UInt32) : (min a b).toNat = min a.toNat b.toNat := by
  change (if a ≤ b then a else b).toNat = _
  split_ifs with h
  · rw [Nat.min_eq_left (UInt32.le_iff_toNat_le.mp h)]
  · rw [Nat.min_eq_right (Nat.le_of_lt (UInt32.lt_iff_toNat_lt.mp (UInt32.not_le.mp h)))]

theorem toNat_sub_fifteen {h : UInt32} (hh : 15 ≤ h) : (h - 15).toNat = h.toNat - 15 :=
  UInt32.toNat_sub_of_le h 15 hh

variable {interval : UInt32} {s s' : Loop} {it : Iter} {d t₀ : ℕ} {es : List Iter}

theorem sub_fifteen_lt {h : UInt32} (hh : 15 ≤ h) : (h - 15).toNat + 15 < 2 ^ 32 := by
  have hle : (15 : UInt32).toNat ≤ h.toNat := UInt32.le_iff_toNat_le.mp hh
  have h15 : (15 : UInt32).toNat = 15 := rfl
  have hlt := h.toNat_lt
  rw [toNat_sub_fifteen hh]
  omega

theorem cap_pos : 0 < (pace interval).cap := Nat.zero_lt_succ _

theorem inv_start (interval : UInt32) (t₀ : ℕ) : Inv interval (.start t₀) :=
  ⟨Timer.inv_start _ t₀, rfl, rfl, fun _ hp => absurd hp List.not_mem_nil⟩

theorem Inv.count_le (hi : Inv interval s) : s.hbCount ≤ 5 := by
  rw [hi.count]
  exact hi.timer.quota

theorem timely_iff : Timely s it ↔ s.timer.Timely (pace interval) it.reading :=
  ⟨fun ⟨h1, h2, h3⟩ => ⟨h1, h2, h3⟩, fun ⟨h1, h2, h3⟩ => ⟨h1, h2, h3⟩⟩

theorem pass_of_le (h : interval ≤ UInt32.ofNat (it.since - s.lastHb)) :
    pass interval s it = .ok ⟨it.now, s.hbCount + 1, s.sent ++ [heartbeat], s.lastHb :: s.past,
      it.now, wait, ⟨it.since - s.lastHb, UInt32.ofNat (it.since - s.lastHb), none, wait⟩ ::
        s.passes⟩ := by
  rw [pass, if_pos h]

/-- The nil check of a message that arrived is passed, so no pass stops the program. -/
theorem pass_of_not_le (h : ¬ interval ≤ UInt32.ofNat (it.since - s.lastHb)) :
    pass interval s it = .ok ⟨s.lastHb, s.hbCount, s.sent, s.past, it.since,
      min wait (min wait (interval - UInt32.ofNat (it.since - s.lastHb))),
      ⟨it.since - s.lastHb, UInt32.ofNat (it.since - s.lastHb),
        some (interval - UInt32.ofNat (it.since - s.lastHb)),
        min wait (min wait (interval - UInt32.ofNat (it.since - s.lastHb)))⟩ :: s.passes⟩ := by
  rw [pass, if_neg h]
  by_cases hcode : it.recv.code = .OK
  · obtain ⟨frame, hframe⟩ := Option.ne_none_iff_exists'.mp (it.frame hcode)
    simp [hcode, hframe, deref, bind, Except.bind, pure, Except.pure]
  · simp [hcode, pure, Except.pure]

section

variable (hrange : interval.toNat + 15 < 2 ^ 32)
include hrange

theorem toNat_ms (hi : s.timer.Inv (pace interval)) (ht : Timely s it) :
    (UInt32.ofNat (it.since - s.lastHb)).toNat = it.since - s.lastHb := by
  have hle : it.since - s.lastHb ≤ max interval.toNat wait.toNat + 15 :=
    Timer.elapsed_le hi (timely_iff.mp ht)
  have hwait : wait.toNat = 3000 := rfl
  have hsize : it.since - s.lastHb < 2 ^ 32 := by omega
  exact UInt32.toNat_ofNat_of_lt' hsize

theorem pass_send (hi : s.timer.Inv (pace interval)) (ht : Timely s it)
    (hdue : interval.toNat ≤ it.since - s.lastHb) :
    ∃ ms, ms.toNat = it.since - s.lastHb ∧ pass interval s it = .ok
      ⟨it.now, s.hbCount + 1, s.sent ++ [heartbeat], s.lastHb :: s.past, it.now, wait,
        ⟨it.since - s.lastHb, ms, none, wait⟩ :: s.passes⟩ := by
  have hms := toNat_ms hrange hi ht
  exact ⟨_, hms, pass_of_le (UInt32.le_iff_toNat_le.mpr (by rw [hms]; exact hdue))⟩

theorem pass_wait (hi : s.timer.Inv (pace interval)) (ht : Timely s it)
    (hwait : it.since - s.lastHb < interval.toNat) :
    ∃ ms left asked, ms.toNat = it.since - s.lastHb ∧
      left.toNat = interval.toNat - (it.since - s.lastHb) ∧
      asked.toNat = min 3000 (interval.toNat - (it.since - s.lastHb)) ∧
      pass interval s it = .ok ⟨s.lastHb, s.hbCount, s.sent, s.past, it.since, asked,
        ⟨it.since - s.lastHb, ms, some left, asked⟩ :: s.passes⟩ := by
  have hms := toNat_ms hrange hi ht
  have hlt : UInt32.ofNat (it.since - s.lastHb) < interval := by
    rw [UInt32.lt_iff_toNat_lt, hms]
    exact hwait
  have hleft : (interval - UInt32.ofNat (it.since - s.lastHb)).toNat =
      interval.toNat - (it.since - s.lastHb) := by
    rw [UInt32.toNat_sub_of_le _ _ (UInt32.le_of_lt hlt), hms]
  have hasked : (min wait (min wait (interval - UInt32.ofNat (it.since - s.lastHb)))).toNat =
      min 3000 (interval.toNat - (it.since - s.lastHb)) := by
    have h3000 : wait.toNat = 3000 := rfl
    rw [toNat_min, toNat_min, hleft, h3000]
    omega
  exact ⟨_, _, _, hms, hleft, hasked, pass_of_not_le (UInt32.not_le.mpr hlt)⟩

/-- Every timely pass of a loop that goes on is one of the two, and is the timer's. -/
theorem pass_spec (hi : Inv interval s) (hcount : s.hbCount < 5) (ht : Timely s it) :
    ∃ s', pass interval s it = .ok s' ∧ Inv interval s' ∧
      s'.timer = s.timer.next (pace interval) it.reading ∧
      s'.passes.length = s.passes.length + 1 := by
  have hstep : s.timer.Step (pace interval) it.reading (s.timer.next (pace interval) it.reading) :=
    ⟨hi.count ▸ hcount, timely_iff.mp ht, rfl⟩
  have htimer := Timer.inv_step hi.timer hstep
  rcases Nat.lt_or_ge (it.since - s.lastHb) interval.toNat with hlt | hdue
  · obtain ⟨ms, left, asked, hms, hleft, hasked, hpass⟩ := pass_wait hrange hi.timer ht hlt
    have hnext : s.timer.next (pace interval) it.reading =
        ⟨s.lastHb, s.past, it.since, asked.toNat⟩ := by
      rw [hasked]
      exact if_neg (Nat.not_le.mpr hlt)
    rw [hnext] at htimer
    refine ⟨_, hpass, ⟨htimer, hi.count, hi.sent, ?_⟩, hnext.symm, rfl⟩
    intro p hp
    rcases List.mem_cons.mp hp with rfl | hp
    · refine ⟨hms, ?_, by simp only [hasked]; omega⟩
      rintro _ ⟨⟩
      rw [hms]
      exact ⟨UInt32.lt_iff_toNat_lt.mpr (hms ▸ hlt), hleft⟩
    · exact hi.sound p hp
  · obtain ⟨ms, hms, hpass⟩ := pass_send hrange hi.timer ht hdue
    have hnext : s.timer.next (pace interval) it.reading =
        ⟨it.now, s.lastHb :: s.past, it.now, wait.toNat⟩ := if_pos hdue
    rw [hnext] at htimer
    refine ⟨_, hpass, ⟨htimer, by simp [hi.count], ?_, ?_⟩, hnext.symm, rfl⟩
    · simp only [hi.sent, List.replicate_succ']
    · intro p hp
      rcases List.mem_cons.mp hp with rfl | hp
      · exact ⟨hms, by simp, by simp only; decide⟩
      · exact hi.sound p hp

theorem step_spec (hi : Inv interval s) (h : Step interval s it s') :
    Inv interval s' ∧ s.timer.Step (pace interval) it.reading s'.timer := by
  obtain ⟨hcount, ht, hpass⟩ := h
  obtain ⟨s'', hpass', hinv, htimer, -⟩ := pass_spec hrange hi hcount ht
  obtain rfl : s'' = s' := Except.ok.inj (hpass'.symm.trans hpass)
  exact ⟨hinv, hi.count ▸ hcount, timely_iff.mp ht, htimer⟩

theorem Inv.of_run (h : Run (Step interval) (.start t₀) es s) : Inv interval s :=
  h.invariant (Inv interval) (inv_start interval t₀) fun _ _ _ hi hs => (step_spec hrange hi hs).1

theorem length_passes (h : Run (Step interval) (.start t₀) es s) :
    s.passes.length = es.length := by
  induction h with
  | nil => rfl
  | snoc hrun hs ih =>
    obtain ⟨hcount, ht, hpass⟩ := hs
    obtain ⟨s'', hpass', -, -, hlen⟩ := pass_spec hrange (Inv.of_run hrange hrun) hcount ht
    cases hpass'.symm.trans hpass
    rw [hlen, ih, List.length_append, List.length_singleton]

theorem run_timer (h : Run (Step interval) (.start t₀) es s) :
    Run (Timer.Step (pace interval)) (.start t₀) (es.map Iter.reading) s.timer :=
  h.simulates Loop.timer Iter.reading (Inv interval) (inv_start interval t₀)
    (fun _ _ _ hi hs => (step_spec hrange hi hs).1) fun _ _ _ hi hs => (step_spec hrange hi hs).2

theorem promptStep_spec (hi : Inv interval s) (h : PromptStep interval d s it s') :
    Inv interval s' ∧ s.timer.PromptStep (pace interval) d it.reading s'.timer :=
  ⟨(step_spec hrange hi h.1).1, (step_spec hrange hi h.1).2, h.2⟩

theorem promptStep_lifts {t' : Timer} {r : Reading} (hi : Inv interval s)
    (h : s.timer.PromptStep (pace interval) d r t') :
    ∃ it s', it.reading = r ∧ s'.timer = t' ∧ PromptStep interval d s it s' := by
  obtain ⟨⟨hquota, ht, rfl⟩, hnow⟩ := h
  have hcount : s.hbCount < 5 := by
    rw [hi.count]
    exact hquota
  have hidle : Timely s (idle r) := timely_iff.mpr ht
  obtain ⟨s', hpass, -, htimer, -⟩ := pass_spec hrange hi hcount hidle
  exact ⟨idle r, s', rfl, htimer, ⟨hcount, hidle, hpass⟩, hnow⟩

theorem forall_run_iff {P : Timer → Prop} :
    (∀ es s, Run (PromptStep interval d) (.start t₀) es s → P s.timer) ↔
      ∀ rs t, Run (Timer.PromptStep (pace interval) d) (.start t₀) rs t → P t := by
  constructor
  · intro h rs t hrun
    obtain ⟨es, s, rfl, rfl, hrun'⟩ := Run.lifts Loop.timer Iter.reading (Inv interval)
      (inv_start interval t₀) (fun _ _ _ hi hs => (promptStep_spec hrange hi hs).1)
      (fun _ _ _ hi hs => promptStep_lifts hrange hi hs) hrun
    exact h es s hrun'
  · intro h es s hrun
    exact h _ _ (hrun.simulates Loop.timer Iter.reading (Inv interval) (inv_start interval t₀)
      (fun _ _ _ hi hs => (promptStep_spec hrange hi hs).1)
      fun _ _ _ hi hs => (promptStep_spec hrange hi hs).2)

end

end GrebballPlus.Gateway
