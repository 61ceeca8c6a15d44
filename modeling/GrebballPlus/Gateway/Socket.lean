import GrebballPlus.Curl
import GrebballPlus.Lib.Inbox
import Mathlib.Algebra.Group.Nat.Defs

/-! libcurl's end of a web socket, which is not part of this program: what its
documentation promises of `ws_recv`, as laws, and a queue that obeys them. -/

namespace GrebballPlus.Gateway

open Curl Lib

/-- A socket at which the server's frames arrive, and what a `ws_recv` on it can come
back with. -/
structure Socket (σ : Type) where
  arrive : σ → Bytes → σ
  recv : σ → WsRecv → σ → Prop

/-- `meta` says where in its frame a piece stands. -/
structure Places (frame : WsFrame) (p : Piece UInt8) : Prop where
  offset : frame.offset.toInt = p.offset
  left : frame.bytesleft.toInt = p.left
  len : frame.len.toNat = p.data.length

/-- The next bytes of a frame, as many as there are and fit. -/
def HandsOut (b : Inbox UInt8) (r : WsRecv) (b' : Inbox UInt8) : Prop :=
  ∃ k p frame, 0 < k ∧ k ≤ 256 ∧ b.pull k = some (p, b') ∧ r.data = p.data ∧
    r.frame = some frame ∧ Places frame p

/-- The frames wait in the order in which they arrive. A call that fails takes nothing. -/
structure Socket.Lawful {σ : Type} (net : Socket σ) (inbox : σ → Inbox UInt8) : Prop where
  arrive : ∀ b frame, inbox (net.arrive b frame) = (inbox b).push frame
  failed : ∀ {b r b'}, net.recv b r b' → r.code ≠ .OK → inbox b' = inbox b
  handsOut : ∀ {b r b'}, net.recv b r b' → r.code = .OK → HandsOut (inbox b) r (inbox b')

/-- A queue, of which a call may take something or nothing. -/
def queue : Socket (Inbox UInt8) where
  arrive := Inbox.push
  recv b r b' := (r.code = .OK → HandsOut b r b') ∧ (r.code ≠ .OK → b' = b)

theorem queue_lawful : queue.Lawful id where
  arrive _ _ := rfl
  failed hr := hr.2
  handsOut hr := hr.1

def arrived (offset : ℕ) (data : Bytes) (left : ℕ) (hdata : data.length ≤ 256) : WsRecv :=
  ⟨.OK, some ⟨0, 1, Int64.ofNat offset, Int64.ofNat left, UInt64.ofNat data.length⟩, data, hdata,
    by simp⟩

theorem queue_failed {r : WsRecv} (h : r.code ≠ .OK) (b : Inbox UInt8) : queue.recv b r b :=
  ⟨fun hok => absurd hok h, fun _ => rfl⟩

theorem queue_arrived (taken k : ℕ) (frame : Bytes) (frames : List Bytes) (hpos : 0 < k)
    (hk : k ≤ 256) (htaken : taken < 2 ^ 63) (hframe : frame.length < 2 ^ 63)
    (hdata : (frame.take k).length ≤ 256) :
    queue.recv ⟨taken, frame :: frames⟩ (arrived taken (frame.take k) (frame.length - k) hdata)
      (if frame.length ≤ k then ⟨0, frames⟩ else ⟨taken + k, frame.drop k :: frames⟩) := by
  refine ⟨fun _ => ⟨k, ⟨taken, frame.take k, frame.length - k⟩, _, hpos, hk, rfl, rfl, rfl, ?_⟩,
    fun h => absurd rfl h⟩
  refine ⟨Int64.toInt_ofNat_of_lt htaken, Int64.toInt_ofNat_of_lt (by omega), ?_⟩
  exact UInt64.toNat_ofNat_of_lt' (hdata.trans_lt (by decide))

end GrebballPlus.Gateway
