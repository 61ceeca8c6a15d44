import GrebballPlus.Gateway.Console
import GrebballPlus.Gateway.Socket

/-! Both ends of the connection. The server sends frames whenever it likes; `web_socket`
receives the Hello and then runs its loop, on whatever libcurl hands out. -/

namespace GrebballPlus.Gateway

open Curl Lib

/-- `web_socket` before its first `ws_recv` and in its loop, of which `t₀` is the first
value of `last_hb`. -/
inductive Client
  | connected
  | looping (interval : UInt32) (t₀ : ℕ) (loop : Loop) (console : Console)

def Client.log : Client → List Line
  | .connected => []
  | .looping _ _ _ console => console.log

/-- The client, its socket, and the frames the server has sent. -/
structure Connection (σ : Type) where
  client : Client
  socket : σ
  served : List Bytes

variable {σ : Type}

def Connection.start (socket : σ) : Connection σ := ⟨.connected, socket, []⟩

def Connection.log (c : Connection σ) : List Line := c.client.log

inductive Move
  | serve (frame : Bytes)
  | hello (r : WsRecv) (t₀ : ℕ)
  | pass (it : Iter)

def Move.iter : Move → Option Iter
  | .pass it => some it
  | _ => none

section

variable {ε : Type} (net : Socket σ) (unmarshal : Bytes → Option ε × HelloEvt)

/-- The server sends, the client receives the Hello, or it makes a pass. One that sends a
heartbeat leaves the socket alone. -/
inductive Connection.Step : Connection σ → Move → Connection σ → Prop
  | serve (c : Connection σ) (frame : Bytes) :
      Step c (.serve frame) ⟨c.client, net.arrive c.socket frame, c.served ++ [frame]⟩
  | hello {socket socket' : σ} {served : List Bytes} {connect : CURLcode} {r : WsRecv} {t₀ : ℕ}
      {interval : UInt32} {console : Console} :
      net.recv socket r socket' → readHelloOn unmarshal connect r = .ok (some (interval, console)) →
      Step ⟨.connected, socket, served⟩ (.hello r t₀)
        ⟨.looping interval t₀ (.start t₀) console, socket', served⟩
  | beat {socket : σ} {served : List Bytes} {interval : UInt32} {t₀ : ℕ} {loop loop' : Loop}
      {console console' : Console} {it : Iter} :
      Due interval loop it → loop.hbCount < 5 → Timely loop it →
      passOn interval loop console it = .ok (loop', console') →
      Step ⟨.looping interval t₀ loop console, socket, served⟩ (.pass it)
        ⟨.looping interval t₀ loop' console', socket, served⟩
  | poll {socket socket' : σ} {served : List Bytes} {interval : UInt32} {t₀ : ℕ}
      {loop loop' : Loop} {console console' : Console} {it : Iter} :
      ¬ Due interval loop it → loop.hbCount < 5 → Timely loop it →
      net.recv socket it.recv socket' →
      passOn interval loop console it = .ok (loop', console') →
      Step ⟨.looping interval t₀ loop console, socket, served⟩ (.pass it)
        ⟨.looping interval t₀ loop' console', socket', served⟩

end

variable {ε : Type} {net : Socket σ} {unmarshal : Bytes → Option ε × HelloEvt}
  {c c' : Connection σ} {ms : List Move} {m : Move} {inbox : σ → Inbox UInt8} {socket : σ}
  {interval : UInt32} {t₀ : ℕ} {loop : Loop} {console : Console}

theorem exists_poll (unmarshal : Bytes → Option ε × HelloEvt) (t₀ : ℕ) (served : List Bytes)
    (console : Console) {socket' : σ} {it : Iter} (hdue : ¬ Due interval loop it)
    (hcount : loop.hbCount < 5) (ht : Timely loop it) (hr : net.recv socket it.recv socket') :
    ∃ loop' console', pass interval loop it = .ok loop' ∧ receive console it.recv = .ok console' ∧
      Connection.Step net unmarshal ⟨.looping interval t₀ loop console, socket, served⟩ (.pass it)
        ⟨.looping interval t₀ loop' console', socket', served⟩ := by
  obtain ⟨console', hrecv⟩ := receive_ok it.frame console
  have hpass := pass_of_not_le hdue
  exact ⟨_, console', hpass, hrecv, .poll hdue hcount ht hr (passOn_of_not_due hpass hdue hrecv)⟩

/-- Seen from its loop, the client makes a run of its own. -/
def Client.RunBy (es : List Iter) : Client → Prop
  | .connected => es = []
  | .looping interval t₀ loop _ => Run (Step interval) (.start t₀) es loop

theorem client_of_run (h : Run (Connection.Step net unmarshal) (.start socket) ms c) :
    c.client.RunBy (ms.filterMap Move.iter) := by
  induction h with
  | nil => exact rfl
  | @snoc ms c m c' _ hs ih =>
    rw [List.filterMap_append]
    cases hs with
    | serve _ frame =>
      rw [List.filterMap_cons_none rfl, List.filterMap_nil, List.append_nil]
      exact ih
    | hello _ _ =>
      have hnone : ms.filterMap Move.iter = [] := ih
      rw [hnone]
      exact Run.nil
    | beat _ hcount ht hpass => exact Run.snoc ih ⟨hcount, ht, (passOn_eq_ok hpass).1⟩
    | poll _ hcount ht _ hpass => exact Run.snoc ih ⟨hcount, ht, (passOn_eq_ok hpass).1⟩

theorem loop_of_run (h : Run (Connection.Step net unmarshal) (.start socket) ms c)
    (hc : c.client = .looping interval t₀ loop console) :
    Run (Step interval) (.start t₀) (ms.filterMap Move.iter) loop := by
  have hrun := client_of_run h
  rw [hc] at hrun
  exact hrun

/-- A pass does with the loop what its clock readings say, whatever was received. -/
theorem pass_congr {s : Loop} {it it' : Iter} (h : it.reading = it'.reading) :
    pass interval s it = pass interval s it' := by
  obtain ⟨hsince, hnow⟩ := Reading.mk.inj h
  by_cases hdue : interval ≤ UInt32.ofNat (it.since - s.lastHb)
  · rw [pass_of_le hdue, pass_of_le (hsince ▸ hdue), hsince, hnow]
  · rw [pass_of_not_le hdue, pass_of_not_le (hsince ▸ hdue), hsince]

theorem loop_of_readings {s₀ s s' : Loop} {es es' : List Iter} (h : Run (Step interval) s₀ es s)
    (h' : Run (Step interval) s₀ es' s') (hclock : es.map Iter.reading = es'.map Iter.reading) :
    s = s' := by
  induction h generalizing es' s' with
  | nil =>
    obtain rfl := List.map_eq_nil_iff.mp hclock.symm
    exact h'.of_nil.symm
  | @snoc es s it s₁ _ hs ih =>
    rw [List.map_append, List.map_singleton] at hclock
    obtain ⟨es₁, last, rfl, hinit, hlast⟩ := List.map_eq_append_iff.mp hclock.symm
    obtain ⟨it', rfl, hreading⟩ := List.map_eq_singleton_iff.mp hlast
    obtain ⟨s₂, hrun, -, -, hpass⟩ := h'.of_concat
    obtain rfl := ih hrun hinit.symm
    rw [pass_congr hreading] at hpass
    exact Except.ok.inj (hs.2.2.symm.trans hpass)

def readings (ms : List Move) : List Reading := (ms.filterMap Move.iter).map Iter.reading

/-- A Hello, and what decoding does on it. -/
def helloText : Bytes :=
  ascii "\x7b\"op\":10,\"d\":\x7b\"heartbeat_interval\":41250\x7d\x7d"

def padded (data : Bytes) : Bytes := data ++ List.replicate (256 - data.length) 0

def decodeHello (text : Bytes) : Option Unit × HelloEvt :=
  if text = padded helloText then (none, ⟨10, ⟨41250⟩⟩) else (some (), ⟨0, ⟨0⟩⟩)

theorem length_helloText : helloText.length ≤ 256 := by decide

def helloRecv : WsRecv :=
  arrived 0 (helloText.take 256) (helloText.length - 256) (List.length_take_le _ _)

theorem queue_helloRecv (frames : List Bytes) :
    queue.recv ⟨0, helloText :: frames⟩ helloRecv ⟨0, frames⟩ := by
  have hlen := length_helloText
  have hrecv := queue_arrived 0 256 helloText frames (by decide) le_rfl (by decide) (by omega)
    (List.length_take_le _ _)
  rw [if_pos hlen] at hrecv
  exact hrecv

theorem helloInterval_helloRecv : helloInterval decodeHello helloRecv = 41250 := by
  have hdata : helloRecv.data = helloText := List.take_of_length_le length_helloText
  have htext : received helloRecv = padded helloText := by rw [received, hdata, padded]
  rw [helloInterval, htext, decodeHello, if_pos rfl]

theorem frame_helloRecv : helloRecv.frame ≠ none := by simp [helloRecv, arrived]

theorem run_to_hello : ∃ console, console.log.length = 1 ∧
    Run (Connection.Step queue decodeHello) (.start ⟨0, []⟩) [.serve helloText, .hello helloRecv 0]
      ⟨.looping (41250 - 15) 0 (.start 0) console, ⟨0, []⟩, [helloText]⟩ := by
  have hok : ∃ console, readHelloOn decodeHello .OK helloRecv =
      .ok (some (helloInterval decodeHello helloRecv - 15, console)) :=
    readHelloOn_ok frame_helloRecv
  obtain ⟨console, hread⟩ := hok
  obtain ⟨_, -, -, hlog⟩ := readHelloOn_eq_ok hread
  rw [helloInterval_helloRecv] at hread
  refine ⟨console, by rw [hlog]; rfl, ?_⟩
  exact .snoc (.snoc .nil (.serve _ helloText)) (.hello (queue_helloRecv []) hread)

/-- The first pass is handed two bytes of three. -/
def halfPass : Iter :=
  ⟨0, 0, arrived 0 ((ascii "[1]").take 2) ((ascii "[1]").length - 2) (by decide), by
    simp [arrived]⟩

theorem run_to_half : ∃ ms loop console,
    Run (Connection.Step queue decodeHello) (.start ⟨0, []⟩) ms
      ⟨.looping (41250 - 15) 0 loop console, ⟨2, [ascii "]"]⟩, [helloText, ascii "[1]"]⟩ ∧
    readings ms = [⟨0, 0⟩] ∧ console.log.length = 2 := by
  obtain ⟨console, hone, hrun⟩ := run_to_hello
  have hr := queue_arrived 0 2 (ascii "[1]") [] (by decide) (by decide) (by decide) (by decide)
    (by decide)
  rw [if_neg (by decide)] at hr
  have hdue : ¬ Due (41250 - 15) (.start 0) halfPass := by decide
  obtain ⟨loop, console', -, hrecv, hstep⟩ := exists_poll decodeHello 0
    [helloText, ascii "[1]"] console hdue (by decide) ⟨le_rfl, Nat.zero_le 15, le_rfl⟩ hr
  refine ⟨_, loop, console', .snoc (.snoc hrun (.serve _ (ascii "[1]"))) hstep, rfl, ?_⟩
  rcases receive_cases hrecv with ⟨hcode, -⟩ | ⟨_, -, -, hlog⟩
  · exact absurd rfl hcode
  · rw [hlog, List.length_append, hone]
    rfl

/-- Two clients that were asked for the same interval, started at the same time and read
the same clock have sent the same at the same times, over whatever sockets and whatever
else their servers sent. -/
theorem sends_ignore_messages {σ' ε' : Type} {net' : Socket σ'}
    {unmarshal' : Bytes → Option ε' × HelloEvt} {socket' : σ'} {d : Connection σ'}
    {ms' : List Move} {loop' : Loop} {console' : Console}
    (h : Run (Connection.Step net unmarshal) (.start socket) ms c)
    (h' : Run (Connection.Step net' unmarshal') (.start socket') ms' d)
    (hc : c.client = .looping interval t₀ loop console)
    (hd : d.client = .looping interval t₀ loop' console') (hclock : readings ms = readings ms') :
    loop = loop' :=
  loop_of_readings (loop_of_run h hc) (loop_of_run h' hd) hclock

/-- The second client finds nothing to receive. -/
theorem sends_ignore_messages_half :
    ∃ ms ms' c c' loop loop' console console',
      Run (Connection.Step queue decodeHello) (.start ⟨0, []⟩) ms c ∧
      Run (Connection.Step queue decodeHello) (.start ⟨0, []⟩) ms' c' ∧
      c.client = .looping (41250 - 15) 0 loop console ∧
      c'.client = .looping (41250 - 15) 0 loop' console' ∧
      c.log.length ≠ c'.log.length ∧ loop = loop' := by
  obtain ⟨ms, loop, console, hrun, hclock, htwo⟩ := run_to_half
  obtain ⟨console₁, hone, hhello⟩ := run_to_hello
  have hdue : ¬ Due (41250 - 15) (.start 0) (idle ⟨0, 0⟩) := by decide
  obtain ⟨loop', console', -, hrecv, hstep⟩ := exists_poll decodeHello 0 [helloText] console₁ hdue
    (by decide) ⟨le_rfl, Nat.zero_le 15, le_rfl⟩ (queue_failed (by decide) ⟨0, []⟩)
  have hrun' := Run.snoc hhello hstep
  refine ⟨_, _, _, _, loop, loop', console, console', hrun, hrun', rfl, rfl, ?_,
    sends_ignore_messages hrun hrun' rfl rfl (hclock.trans rfl)⟩
  rcases receive_cases hrecv with ⟨-, hlog⟩ | ⟨_, hcode, -⟩
  · simp only [Connection.log, Client.log, htwo, hlog, hone]
    decide
  · cases hcode

end GrebballPlus.Gateway
