import GrebballPlus.Gateway.Hello
import GrebballPlus.Gateway.Termination

/-! `web_socket` from its first `ws_recv` to its return, on given readings of the clock
and the socket. A session that opens with a Hello sends five heartbeats and closes; one
that does not receive a frame stops before it sends anything. -/

namespace GrebballPlus.Gateway

open Curl Lib

/-- `for hb_count < 5`. It is still running if the readings are used up before. -/
def runLoop (interval : UInt32) : List Iter → Loop → Except Panic (Option Loop)
  | [], s => .ok (if s.hbCount < 5 then none else some s)
  | it :: its, s =>
    if s.hbCount < 5 then pass interval s it >>= runLoop interval its else .ok (some s)

variable {ε : Type} (unmarshal : Bytes → Option ε × HelloEvt) (connect : CURLcode) (r : WsRecv)

def webSocket (t₀ : ℕ) (its : List Iter) : Except Panic (Option (List WsSend)) := do
  match ← (readHello unmarshal connect r).2 with
  | none => return some []
  | some interval => return (← runLoop interval its (.start t₀)).map Loop.closed

def TimelyTrace (interval : UInt32) : List Iter → Loop → Prop
  | [], _ => True
  | it :: its, s => s.hbCount < 5 → Timely s it ∧
    ∀ s', pass interval s it = .ok s' → TimelyTrace interval its s'

variable {interval : UInt32} {s : Loop} {its : List Iter} {t₀ : ℕ}

theorem runLoop_spec (hrange : interval.toNat + 15 < 2 ^ 32) (hi : Inv interval s)
    (ht : TimelyTrace interval its s) (hlen : s.timer.variant (pace interval) ≤ its.length) :
    ∃ s', runLoop interval its s = .ok (some s') ∧ Inv interval s' ∧ s'.hbCount = 5 := by
  induction its generalizing s with
  | nil =>
    have hdone : ¬ s.hbCount < 5 := by
      intro hlt
      have hpast : s.timer.past.length < (pace interval).quota := hi.count ▸ hlt
      rw [Timer.variant, if_pos hpast] at hlen
      exact absurd hlen (Nat.not_succ_le_zero _)
    have hle := hi.count_le
    exact ⟨s, by rw [runLoop, if_neg hdone], hi, by omega⟩
  | cons it its ih =>
    by_cases hlt : s.hbCount < 5
    · obtain ⟨htimely, hrest⟩ := ht hlt
      obtain ⟨s₁, hpass, hi₁, -, -⟩ := pass_spec hrange hi hlt htimely
      have hstep := (step_spec hrange hi ⟨hlt, htimely, hpass⟩).2
      have hvar := Timer.variant_step cap_pos hi.timer hstep
      rw [List.length_cons] at hlen
      obtain ⟨s', hrun, hi', hfive⟩ := ih hi₁ (hrest s₁ hpass) (by omega)
      refine ⟨s', ?_, hi', hfive⟩
      rw [runLoop, if_pos hlt, hpass]
      exact hrun
    · have hle := hi.count_le
      exact ⟨s, by rw [runLoop, if_neg hlt], hi, by omega⟩

theorem webSocket_sends (hframe : r.frame ≠ none) (hasked : 15 ≤ helloInterval unmarshal r)
    (ht : TimelyTrace (helloInterval unmarshal r - 15) its (.start t₀))
    (hlen : maxPasses (helloInterval unmarshal r - 15) ≤ its.length) :
    webSocket unmarshal connect r t₀ its =
      .ok (some (List.replicate 5 heartbeat ++ [close])) := by
  obtain ⟨frame, hsome⟩ := Option.ne_none_iff_exists'.mp hframe
  have hvar := Timer.variant_start (pace (helloInterval unmarshal r - 15)) t₀
  obtain ⟨s, hrun, hi, hfive⟩ := runLoop_spec (sub_fifteen_lt hasked)
    (inv_start _ t₀) ht (hvar.trans hlen)
  have hclosed : s.closed = List.replicate 5 heartbeat ++ [close] := by
    rw [Loop.closed, hi.sent, hfive]
  rw [webSocket, readHello_of_frame unmarshal connect r hsome]
  simp only [bind, Except.bind, pure, Except.pure, hrun, Option.map_some, hclosed]

theorem webSocket_stops (hframe : r.frame = none) :
    webSocket unmarshal connect r t₀ its = .error .nilDereference := by
  rw [webSocket, readHello_of_nil unmarshal connect r hframe]
  rfl

end GrebballPlus.Gateway
