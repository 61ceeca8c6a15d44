import GrebballPlus.Gateway.Hello
import GrebballPlus.Gateway.Refine

/-! `web_socket` with its one buffer, into which every `ws_recv` receives, and with what it
prints of the messages. The buffer is zeroed before each call but the first, for which it
is fresh, so what is printed is one message and zeros. -/

namespace GrebballPlus.Gateway

open Curl Lib

/-- What is printed of a message: `meta^` and the whole of `buffer`. -/
structure Line where
  frame : WsFrame
  buffer : Bytes

structure Console where
  buffer : Bytes
  log : List Line
  size : buffer.length = 256

/-- `ws_recv` writes to the front of the buffer and leaves the rest. -/
def recvInto (buffer : Bytes) (r : WsRecv) : Bytes := r.data ++ buffer.drop r.data.length

theorem length_recvInto {buffer : Bytes} (h : buffer.length = 256) (r : WsRecv) :
    (recvInto buffer r).length = 256 := by
  have hfits := r.fits
  rw [recvInto, List.length_append, List.length_drop]
  omega

/-- `slice.fill(buffer[:], 0)`. -/
def zeroed (buffer : Bytes) : Bytes := List.replicate buffer.length 0

theorem length_zeroed (buffer : Bytes) : (zeroed buffer).length = buffer.length :=
  List.length_replicate

theorem recvInto_zeroed {buffer : Bytes} (h : buffer.length = 256) (r : WsRecv) :
    recvInto (zeroed buffer) r = received r := by
  rw [recvInto, zeroed, h, List.drop_replicate, received]

/-- `buffer: [buf_len]byte`. -/
def freshBuffer : Bytes := List.replicate 256 0

theorem length_freshBuffer : freshBuffer.length = 256 := List.length_replicate

theorem recvInto_freshBuffer (r : WsRecv) : recvInto freshBuffer r = received r := by
  rw [recvInto, freshBuffer, List.drop_replicate, received]

/-- The part of a pass from `slice.fill` to the end of the prints. -/
def receive (c : Console) (r : WsRecv) : Except Panic Console := do
  let buffer := recvInto (zeroed c.buffer) r
  have size : buffer.length = 256 := length_recvInto ((length_zeroed _).trans c.size) r
  if r.code = .OK then
    let frame ← deref r.frame
    return ⟨buffer, c.log ++ [⟨frame, buffer⟩], size⟩
  else
    return ⟨buffer, c.log, size⟩

variable {ε : Type} (unmarshal : Bytes → Option ε × HelloEvt) (connect : CURLcode)

/-- `readHello`, and the print before it, which does not ask for the result code. -/
def readHelloOn (r : WsRecv) : Except Panic (Option (UInt32 × Console)) := do
  let buffer := recvInto freshBuffer r
  have size : buffer.length = 256 := length_recvInto length_freshBuffer r
  let frame ← deref r.frame
  let interval ← (readHello unmarshal connect r).2
  return interval.map fun interval => (interval, ⟨buffer, [⟨frame, buffer⟩], size⟩)

/-- `if ms >= interval`. -/
def Due (interval : UInt32) (s : Loop) (it : Iter) : Prop :=
  interval ≤ UInt32.ofNat (it.since - s.lastHb)

instance (interval : UInt32) (s : Loop) (it : Iter) : Decidable (Due interval s it) :=
  inferInstanceAs (Decidable (interval ≤ _))

/-- `pass`, and what it does to the buffer. One that sends a heartbeat continues before the
buffer is touched. -/
def passOn (interval : UInt32) (s : Loop) (c : Console) (it : Iter) :
    Except Panic (Loop × Console) := do
  let s' ← pass interval s it
  if Due interval s it then return (s', c)
  else return (s', ← receive c it.recv)

variable {unmarshal connect} {interval : UInt32} {s s' : Loop} {c c' : Console} {it : Iter}
  {r : WsRecv}

theorem receive_cases (h : receive c r = .ok c') :
    (r.code ≠ .OK ∧ c'.log = c.log) ∨
      ∃ frame, r.code = .OK ∧ r.frame = some frame ∧ c'.log = c.log ++ [⟨frame, received r⟩] := by
  unfold receive at h
  by_cases hcode : r.code = .OK
  · cases hframe : r.frame with
    | none => simp [hcode, hframe, deref, bind, Except.bind] at h
    | some frame =>
      simp only [hcode, hframe, deref, bind, Except.bind, pure, Except.pure, if_true,
        recvInto_zeroed c.size] at h
      cases h
      exact Or.inr ⟨frame, hcode, rfl, rfl⟩
  · simp only [hcode, pure, Except.pure, if_false] at h
    cases h
    exact Or.inl ⟨hcode, rfl⟩

theorem receive_ok (h : r.code = .OK → r.frame ≠ none) (c : Console) :
    ∃ c', receive c r = .ok c' := by
  unfold receive
  by_cases hcode : r.code = .OK
  · obtain ⟨frame, hframe⟩ := Option.ne_none_iff_exists'.mp (h hcode)
    simp [hcode, hframe, deref, bind, Except.bind, pure, Except.pure]
  · simp [hcode, pure, Except.pure]

theorem log_of_receive (h : receive c r = .ok c') : c.log <+: c'.log := by
  rcases receive_cases h with ⟨-, hlog⟩ | ⟨_, -, -, hlog⟩
  · rw [hlog]
  · rw [hlog]
    exact List.prefix_append _ _

theorem readHelloOn_eq_ok (h : readHelloOn unmarshal connect r = .ok (some (interval, c))) :
    ∃ frame, r.frame = some frame ∧ interval = helloInterval unmarshal r - 15 ∧
      c.log = [⟨frame, received r⟩] := by
  cases hframe : r.frame with
  | none => simp [readHelloOn, hframe, deref, bind, Except.bind] at h
  | some frame =>
    simp only [readHelloOn, readHello_of_frame unmarshal connect r hframe, hframe, deref, bind,
      Except.bind, pure, Except.pure, Option.map_some, recvInto_freshBuffer] at h
    cases h
    exact ⟨frame, rfl, rfl, rfl⟩

theorem readHelloOn_ok (h : r.frame ≠ none) :
    ∃ c, readHelloOn unmarshal connect r = .ok (some (helloInterval unmarshal r - 15, c)) := by
  obtain ⟨frame, hframe⟩ := Option.ne_none_iff_exists'.mp h
  simp only [readHelloOn, readHello_of_frame unmarshal connect r hframe, hframe, deref, bind,
    Except.bind, pure, Except.pure, Option.map_some]
  exact ⟨_, rfl⟩

theorem passOn_eq_ok (h : passOn interval s c it = .ok (s', c')) :
    pass interval s it = .ok s' ∧
      (Due interval s it ∧ c' = c ∨ ¬ Due interval s it ∧ receive c it.recv = .ok c') := by
  unfold passOn at h
  cases hpass : pass interval s it with
  | error p =>
    rw [hpass] at h
    cases h
  | ok s₁ =>
    simp only [hpass, bind, Except.bind, pure, Except.pure] at h
    by_cases hdue : Due interval s it
    · rw [if_pos hdue] at h
      cases h
      exact ⟨rfl, Or.inl ⟨hdue, rfl⟩⟩
    · rw [if_neg hdue] at h
      cases hrecv : receive c it.recv with
      | error p =>
        rw [hrecv] at h
        cases h
      | ok c₁ =>
        rw [hrecv] at h
        cases h
        exact ⟨rfl, Or.inr ⟨hdue, rfl⟩⟩

theorem eq_of_due (h : passOn interval s c it = .ok (s', c')) (hdue : Due interval s it) :
    c' = c := by
  rcases (passOn_eq_ok h).2 with ⟨-, rfl⟩ | ⟨hnot, -⟩
  · rfl
  · exact absurd hdue hnot

theorem receive_of_not_due (h : passOn interval s c it = .ok (s', c'))
    (hdue : ¬ Due interval s it) : receive c it.recv = .ok c' := by
  rcases (passOn_eq_ok h).2 with ⟨hyes, -⟩ | ⟨-, hrecv⟩
  · exact absurd hyes hdue
  · exact hrecv

theorem passOn_of_not_due (hpass : pass interval s it = .ok s') (hdue : ¬ Due interval s it)
    (hrecv : receive c it.recv = .ok c') : passOn interval s c it = .ok (s', c') := by
  simp only [passOn, hpass, if_neg hdue, hrecv, bind, Except.bind, pure, Except.pure]

end GrebballPlus.Gateway
