import GrebballPlus.Curl
import GrebballPlus.Lib.Runs
import GrebballPlus.Odin.Runtime

/-! `web_socket` of package `main`: the Hello event that opens the connection, and the
loop that sends five heartbeats. Clocks are read in whole milliseconds; the two readings
of a pass, how long a `Sleep` takes and what `ws_recv` finds come from outside. -/

namespace GrebballPlus.Gateway

open Curl Lib

structure HeartbeatD where
  heartbeatInterval : UInt32

structure HelloEvt where
  op : Int64
  d : HeartbeatD

/-- `buffer: [256]byte`, zeroed, after `ws_recv`. -/
def received (r : WsRecv) : Bytes := r.data ++ List.replicate (256 - r.data.length) 0

/-- `web_socket` up to its loop. On the left the codes with which `meta^` was read, on
the right the interval the loop is entered with, `none` being a return without the loop.
The result of the connect, that of `ws_recv` and the decode error are not looked at. -/
def readHello {ε : Type} (unmarshal : Bytes → Option ε × HelloEvt) (_connect : CURLcode)
    (r : WsRecv) : List CURLcode × Except Panic (Option UInt32) :=
  ([r.code], do
    let _meta ← deref r.frame
    let (_err, hello) := unmarshal (received r)
    let interval := hello.d.heartbeatInterval - 15
    return some interval)

def wait : UInt32 := 3000

def heartbeat : WsSend := ⟨ascii "\x7b\"op\":1,\"d\":null\x7d", 256, CURLWS_TEXT⟩

def close : WsSend := ⟨[], 0, CURLWS_CLOSE⟩

/-- What one pass reads: the clock in `tick_since`, in `tick_now`, and the socket. A
`ws_recv` that succeeds hands out the frame. -/
structure Iter where
  since : ℕ
  now : ℕ
  recv : WsRecv
  frame : recv.code = .OK → recv.frame ≠ none

/-- What one pass computed: the time since the last heartbeat, its cast to `u32`, the
difference `interval - ms` if it came to that, and the argument of `Sleep`. -/
structure Pass where
  elapsed : ℕ
  ms : UInt32
  left : Option UInt32
  asked : UInt32

/-- The variables of the loop, what it has sent, and for the proofs the earlier values
of `last_hb`, newest first, the clock as last read, the sleep asked for after it and the
passes made. -/
structure Loop where
  lastHb : ℕ
  hbCount : ℕ
  sent : List WsSend
  past : List ℕ
  clock : ℕ
  asked : UInt32
  passes : List Pass

def Loop.start (t₀ : ℕ) : Loop := ⟨t₀, 0, [], [], t₀, 0, []⟩

variable (interval : UInt32)

def pass (s : Loop) (it : Iter) : Except Panic Loop :=
  let dur := it.since - s.lastHb
  -- `cast(u32)` of the milliseconds; where they do not fit it is taken to wrap
  let ms := UInt32.ofNat dur
  if interval ≤ ms then
    .ok { s with
      lastHb := it.now
      hbCount := s.hbCount + 1
      sent := s.sent ++ [heartbeat]
      past := s.lastHb :: s.past
      clock := it.now
      asked := wait
      passes := ⟨dur, ms, none, wait⟩ :: s.passes }
  else do
    -- only a message that arrived is printed, with its `meta^`
    if it.recv.code = .OK then
      let _meta ← deref it.recv.frame
    let left := interval - ms
    let w := min wait left
    return { s with
      clock := it.since
      asked := min wait w
      passes := ⟨dur, ms, some left, min wait w⟩ :: s.passes }

def Loop.closed (s : Loop) : List WsSend := s.sent ++ [close]

/-- The clock never goes back, `Sleep(n)` lasts `n` or more, and the next pass looks at
the clock at most 15 later. -/
structure Timely (s : Loop) (it : Iter) : Prop where
  slept : s.clock + s.asked.toNat ≤ it.since
  slack : it.since ≤ s.clock + s.asked.toNat + 15
  order : it.since ≤ it.now

/-- `for hb_count < 5`, one pass. -/
def Step (s : Loop) (it : Iter) (s' : Loop) : Prop :=
  s.hbCount < 5 ∧ Timely s it ∧ pass interval s it = .ok s'

/-- A pass whose own reading of `last_hb` comes at most `d` behind those 15. -/
def PromptStep (d : ℕ) (s : Loop) (it : Iter) (s' : Loop) : Prop :=
  Step interval s it s' ∧ it.now ≤ s.clock + s.asked.toNat + 15 + d

end GrebballPlus.Gateway
