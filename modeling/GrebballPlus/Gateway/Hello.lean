import GrebballPlus.Gateway.WebSocket

/-! What the Hello event has to be for the loop to start as it should. Nothing that can
go wrong before the loop is looked at, so each of these is a way to miss it. -/

namespace GrebballPlus.Gateway

open Curl

/-- The opcode Discord's gateway gives a Hello. The source decodes `op` and compares it
with nothing. -/
def OP_HELLO : Int64 := 10

variable {ε : Type} (unmarshal : Bytes → Option ε × HelloEvt) (connect : CURLcode) (r : WsRecv)

def IsHello : Prop := (unmarshal (received r)).1 = none ∧ (unmarshal (received r)).2.op = OP_HELLO

def helloInterval : UInt32 := (unmarshal (received r)).2.d.heartbeatInterval

/-- `meta^` is read after a success only, and the loop is entered for a Hello, with 15
less than it asks for, or not at all. -/
structure HelloHandled : Prop where
  derefs : ∀ c ∈ (readHello unmarshal connect r).1, c = .OK
  outcome : (readHello unmarshal connect r).2 = .ok none ∨
    ∃ interval, (readHello unmarshal connect r).2 = .ok (some interval) ∧
      IsHello unmarshal r ∧ (interval.toNat : ℤ) = (helloInterval unmarshal r).toNat - 15

theorem readHello_of_frame {frame : WsFrame} (h : r.frame = some frame) :
    (readHello unmarshal connect r).2 = .ok (some (helloInterval unmarshal r - 15)) := by
  simp [readHello, h, deref, helloInterval, bind, Except.bind, pure, Except.pure]

theorem readHello_of_nil (h : r.frame = none) :
    (readHello unmarshal connect r).2 = .error .nilDereference := by
  simp [readHello, h, deref, bind, Except.bind]

theorem toNat_sub_eq_iff (h : UInt32) : ((h - 15).toNat : ℤ) = h.toNat - 15 ↔ 15 ≤ h := by
  constructor
  · intro heq
    rw [UInt32.le_iff_toNat_le]
    have h15 : (15 : UInt32).toNat = 15 := rfl
    omega
  · intro hle
    have h15 : (15 : UInt32).toNat = 15 := rfl
    have hle' := UInt32.le_iff_toNat_le.mp hle
    rw [UInt32.toNat_sub_of_le _ _ hle]
    omega

/-- The only outcome that is handled: a frame was received, it decodes to a Hello, and
this asks for 15 or more. -/
theorem hello_handled_iff :
    HelloHandled unmarshal connect r ↔
      r.code = .OK ∧ r.frame ≠ none ∧ IsHello unmarshal r ∧ 15 ≤ helloInterval unmarshal r := by
  constructor
  · rintro ⟨hderefs, houtcome⟩
    have hcode : r.code = .OK := hderefs _ (List.mem_singleton_self _)
    cases hframe : r.frame with
    | none => simp [readHello_of_nil unmarshal connect r hframe] at houtcome
    | some frame =>
      rw [readHello_of_frame unmarshal connect r hframe] at houtcome
      rcases houtcome with hnone | ⟨interval, hsome, hhello, hinterval⟩
      · cases hnone
      · cases hsome
        exact ⟨hcode, by simp, hhello, (toNat_sub_eq_iff _).mp hinterval⟩
  · rintro ⟨hcode, hframe, hhello, hle⟩
    obtain ⟨frame, hframe⟩ := Option.ne_none_iff_exists'.mp hframe
    refine ⟨fun c hc => ?_, Or.inr ⟨_, readHello_of_frame unmarshal connect r hframe, hhello,
      (toNat_sub_eq_iff _).mpr hle⟩⟩
    rw [List.mem_singleton.mp hc, hcode]

/-- No message within the 100 milliseconds after the connect: `meta` is read, and nil. A
message that does not decode: the loop is entered, for 4294967281 milliseconds. -/
theorem hello_not_handled :
    let unmarshal : Bytes → Option Unit × HelloEvt := fun _ => (some (), ⟨0, ⟨0⟩⟩)
    let again : WsRecv := ⟨.AGAIN, none, [], by decide, fun _ => ⟨rfl, rfl⟩⟩
    let garbled : WsRecv := ⟨.OK, some ⟨0, 1, 0, 0, 1⟩, ascii "\x7b", by decide, by simp⟩
    readHello unmarshal .OK again = ([.AGAIN], .error .nilDereference) ∧
      readHello unmarshal .OK garbled = ([.OK], .ok (some 4294967281)) ∧
      ¬ HelloHandled unmarshal .OK again ∧ ¬ HelloHandled unmarshal .OK garbled := by
  intro unmarshal again garbled
  refine ⟨rfl, rfl, fun h => ?_, fun h => ?_⟩
  · exact absurd (h.derefs .AGAIN (List.mem_singleton_self _)) (by decide)
  · rcases h.outcome with hnone | ⟨_, -, ⟨herr, -⟩, -⟩
    · cases hnone
    · cases herr

end GrebballPlus.Gateway
