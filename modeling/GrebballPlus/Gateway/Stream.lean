import GrebballPlus.Gateway.Connection
import GrebballPlus.Gateway.Deadline

/-! What `web_socket` prints of the messages is the stream of the server's frames, in order
and with nothing twice, and the Hello it works with is the beginning of that stream. -/

namespace GrebballPlus.Gateway

open Curl Lib

variable {σ ε : Type} {net : Socket σ} {unmarshal : Bytes → Option ε × HelloEvt}
  {c c' : Connection σ} {ms : List Move} {m : Move} {inbox : σ → Inbox UInt8} {socket : σ}
  {interval : UInt32} {t₀ : ℕ} {loop : Loop} {console : Console}

/-- The piece of a frame that a printed message shows, by its `meta`. -/
def Line.piece (l : Line) : Piece UInt8 where
  offset := l.frame.offset.toInt.toNat
  data := l.buffer.take l.frame.len.toNat
  left := l.frame.bytesleft.toInt.toNat

def Line.Padded (l : Line) : Prop :=
  l.buffer = l.piece.data ++ List.replicate (256 - l.piece.data.length) 0

theorem piece_received {r : WsRecv} {frame : WsFrame} {p : Piece UInt8} (hdata : r.data = p.data)
    (hplaces : Places frame p) : (Line.mk frame (received r)).piece = p := by
  have htake : (received r).take frame.len.toNat = p.data := by
    rw [received, hplaces.len, ← hdata]
    exact List.take_left' rfl
  simp only [Line.piece, htake, hplaces.offset, hplaces.left, Int.toNat_natCast]

theorem padded_received {r : WsRecv} {frame : WsFrame} {p : Piece UInt8} (hdata : r.data = p.data)
    (hplaces : Places frame p) : (Line.mk frame (received r)).Padded := by
  rw [Line.Padded, piece_received hdata hplaces, ← hdata]
  rfl

/-- What was printed is what the socket has handed out of the frames. -/
structure Printed (inbox : σ → Inbox UInt8) (c : Connection σ) : Prop where
  delivered : (inbox c.socket).Delivered c.served (c.log.map Line.piece)
  padded : ∀ l ∈ c.log, l.Padded

theorem Printed.line {socket' : σ} {client' : Client} {r : WsRecv} {frame : WsFrame}
    (h : Printed inbox c) (hr : HandsOut (inbox c.socket) r (inbox socket'))
    (hframe : r.frame = some frame) (hlog : client'.log = c.log ++ [⟨frame, received r⟩]) :
    Printed inbox ⟨client', socket', c.served⟩ := by
  obtain ⟨k, p, frame', -, -, hpull, hdata, hframe', hplaces⟩ := hr
  obtain rfl : frame = frame' := Option.some.inj (hframe.symm.trans hframe')
  refine ⟨?_, ?_⟩
  · simp only [Connection.log, hlog, List.map_append, List.map_singleton,
      piece_received hdata hplaces]
    exact h.delivered.pull hpull
  · simp only [Connection.log, hlog, List.forall_mem_append, List.forall_mem_singleton]
    exact ⟨h.padded, padded_received hdata hplaces⟩

theorem printed_step (hnet : net.Lawful inbox) (h : Printed inbox c)
    (hs : c.Step net unmarshal m c') : Printed inbox c' := by
  cases hs with
  | serve _ frame =>
    refine ⟨?_, h.padded⟩
    simp only [hnet.arrive]
    exact h.delivered.push frame
  | @hello socket socket' served connect r t₀ interval console hr hread =>
    obtain ⟨frame, hframe, -, hlog⟩ := readHelloOn_eq_ok hread
    exact h.line (hnet.handsOut hr (WsRecv.code_of_frame hframe)) hframe hlog
  | beat hdue _ _ hpass =>
    obtain rfl := eq_of_due hpass hdue
    exact ⟨h.delivered, h.padded⟩
  | poll hdue _ _ hr hpass =>
    rcases receive_cases (receive_of_not_due hpass hdue) with
      ⟨hcode, hlog⟩ | ⟨frame, hcode, hframe, hlog⟩
    · refine ⟨?_, ?_⟩
      · simp only [Connection.log, Client.log, hlog, hnet.failed hr hcode]
        exact h.delivered
      · simp only [Connection.log, Client.log, hlog]
        exact h.padded
    · exact h.line (hnet.handsOut hr hcode) hframe hlog

theorem printed_of_run (hnet : net.Lawful inbox) (hempty : inbox socket = ⟨0, []⟩)
    (h : Run (Connection.Step net unmarshal) (.start socket) ms c) : Printed inbox c := by
  refine h.invariant (Printed inbox) ⟨?_, fun l hl => absurd hl List.not_mem_nil⟩
    fun _ _ _ hi hs => printed_step hnet hi hs
  simp only [Connection.start, hempty]
  exact Inbox.delivered_empty

/-- In every run what is printed of messages, put together by their `meta`, are the frames
the server sent, in order and none twice, up to those that wait; and each printed buffer is
a part of one of these frames, from the place its `meta` names, and zeros behind it. -/
theorem frames_in_order (hnet : net.Lawful inbox) (hempty : inbox socket = ⟨0, []⟩)
    (h : Run (Connection.Step net unmarshal) (.start socket) ms c) :
    (assemble (c.log.map Line.piece)).1 ++ unfinished (assemble (c.log.map Line.piece)).2
        (inbox c.socket).waiting = c.served ∧
      ∀ l ∈ c.log, ∃ f ∈ c.served,
        l.buffer = (f.drop l.piece.offset).take l.piece.data.length ++
          List.replicate (256 - l.piece.data.length) 0 ∧
        l.piece.offset + l.piece.data.length + l.piece.left = f.length := by
  have hp := printed_of_run hnet hempty h
  refine ⟨hp.delivered.sent_eq.symm, fun l hl => ?_⟩
  obtain ⟨f, hf, hdata, hlen⟩ := hp.delivered.placed _ (List.mem_map_of_mem hl)
  refine ⟨f, hf, ?_, hlen⟩
  rw [← hdata]
  exact hp.padded l hl

/-- One byte of the second frame still waits. -/
theorem frames_in_order_half : ∃ ms c,
    Run (Connection.Step queue decodeHello) (.start ⟨0, []⟩) ms c ∧ c.log.length = 2 ∧
    (assemble (c.log.map Line.piece)).1 ++
      unfinished (assemble (c.log.map Line.piece)).2 [ascii "]"] = [helloText, ascii "[1]"] := by
  obtain ⟨ms, loop, console, hrun, -, htwo⟩ := run_to_half
  exact ⟨ms, _, hrun, htwo, (frames_in_order queue_lawful rfl hrun).1⟩

/-- The loop was entered with what the beginning of the first frame decodes to, and that
beginning was printed. -/
def Opened (unmarshal : Bytes → Option ε × HelloEvt) (c : Connection σ) : Prop :=
  ∀ interval t₀ loop console, c.client = .looping interval t₀ loop console →
    ∃ first k l, [first] <+: c.served ∧ 0 < k ∧ k ≤ 256 ∧ [l] <+: c.log ∧
      l.piece.data = first.take k ∧
      interval = (unmarshal (padded (first.take k))).2.d.heartbeatInterval - 15

theorem opened_hello {socket' : σ} {served : List Bytes} {connect : CURLcode} {r : WsRecv}
    (hnet : net.Lawful inbox) (hp : Printed inbox ⟨.connected, socket, served⟩)
    (hr : net.recv socket r socket')
    (hread : readHelloOn unmarshal connect r = .ok (some (interval, console))) :
    Opened unmarshal ⟨.looping interval t₀ loop console, socket', served⟩ := by
  rintro _ _ _ _ ⟨⟩
  obtain ⟨frame, hframe, hinterval, hlog⟩ := readHelloOn_eq_ok hread
  obtain ⟨k, p, frame', hpos, hle, hpull, hdata, hframe', hplaces⟩ :=
    hnet.handsOut hr (WsRecv.code_of_frame hframe)
  obtain rfl : frame = frame' := Option.some.inj (hframe.symm.trans hframe')
  obtain ⟨first, more, hwaiting, hcase⟩ := Inbox.pull_eq_some hpull
  have htake : p.data = first.take k := by
    rcases hcase with ⟨hshort, rfl, -⟩ | ⟨-, rfl, -⟩
    · rw [List.take_of_length_le hshort]
    · rfl
  -- nothing was handed out before
  have hserved : served = first :: more := by
    have hsent := hp.delivered.sent_eq
    simpa [Connection.log, Client.log, assemble, hwaiting] using hsent
  refine ⟨first, k, ⟨frame, received r⟩, ?_, hpos, hle, ?_, ?_, ?_⟩
  · rw [hserved]
    exact List.prefix_append [first] more
  · rw [Connection.log, Client.log, hlog]
  · rw [piece_received hdata hplaces, htake]
  · rw [hinterval, helloInterval, padded, ← htake, ← hdata, received]

/-- Frames and messages are only added. -/
theorem grows_step (hs : c.Step net unmarshal m c') : c.served <+: c'.served ∧ c.log <+: c'.log := by
  cases hs with
  | serve _ frame => exact ⟨List.prefix_append _ _, List.prefix_refl _⟩
  | hello _ _ => exact ⟨List.prefix_refl _, List.nil_prefix⟩
  | beat hdue _ _ hpass =>
    obtain rfl := eq_of_due hpass hdue
    exact ⟨List.prefix_refl _, List.prefix_refl _⟩
  | poll hdue _ _ _ hpass =>
    exact ⟨List.prefix_refl _, log_of_receive (receive_of_not_due hpass hdue)⟩

theorem Opened.grows (h : Opened unmarshal c)
    (hgrows : c.served <+: c'.served ∧ c.log <+: c'.log)
    (hclient : ∀ interval t₀ loop console, c'.client = .looping interval t₀ loop console →
      ∃ loop' console', c.client = .looping interval t₀ loop' console') :
    Opened unmarshal c' := by
  intro interval t₀ loop console hc
  obtain ⟨loop', console', hbefore⟩ := hclient interval t₀ loop console hc
  obtain ⟨first, k, l, hserved, hpos, hle, hlog, hrest⟩ := h interval t₀ loop' console' hbefore
  exact ⟨first, k, l, hserved.trans hgrows.1, hpos, hle, hlog.trans hgrows.2, hrest⟩

theorem opened_step (hnet : net.Lawful inbox) (hp : Printed inbox c) (h : Opened unmarshal c)
    (hs : c.Step net unmarshal m c') : Opened unmarshal c' := by
  have hgrows := grows_step hs
  cases hs with
  | serve _ frame => exact h.grows hgrows fun _ _ loop console hc => ⟨loop, console, hc⟩
  | hello hr hread => exact opened_hello hnet hp hr hread
  | beat _ _ _ _ =>
    refine h.grows hgrows ?_
    rintro _ _ _ _ ⟨⟩
    exact ⟨_, _, rfl⟩
  | poll _ _ _ _ _ =>
    refine h.grows hgrows ?_
    rintro _ _ _ _ ⟨⟩
    exact ⟨_, _, rfl⟩

theorem opened_of_run (hnet : net.Lawful inbox) (hempty : inbox socket = ⟨0, []⟩)
    (h : Run (Connection.Step net unmarshal) (.start socket) ms c) : Opened unmarshal c := by
  induction h with
  | nil => exact fun _ _ _ _ hc => nomatch hc
  | snoc hrun hs ih => exact opened_step hnet (printed_of_run hnet hempty hrun) ih hs

/-- In every run the loop's interval is what the beginning of the server's first frame
decodes to, as far as it had arrived, less 15; no two heartbeats are sent closer together
than that; and the messages printed after the Hello are what is behind that beginning, up
to what still waits. -/
theorem hello_then_stream (hnet : net.Lawful inbox) (hempty : inbox socket = ⟨0, []⟩)
    (h : Run (Connection.Step net unmarshal) (.start socket) ms c)
    (hc : c.client = .looping interval t₀ loop console) :
    ∃ first more k, c.served = first :: more ∧ 0 < k ∧ k ≤ 256 ∧
      interval = (unmarshal (padded (first.take k))).2.d.heartbeatInterval - 15 ∧
      loop.GapsAtLeast interval.toNat ∧
      (c.log.tail.map fun l => l.piece.data).flatten ++ (inbox c.socket).waiting.flatten =
        first.drop k ++ more.flatten := by
  obtain ⟨first, k, l, ⟨more, hserved⟩, hpos, hle, ⟨lines, hlog⟩, htake, hinterval⟩ :=
    opened_of_run hnet hempty h interval t₀ loop console hc
  have hgaps := (notEarly_of_run (loop_of_run h hc)).gaps
  refine ⟨first, more, k, hserved.symm, hpos, hle, hinterval, hgaps, ?_⟩
  have hstream := (printed_of_run hnet hempty h).delivered.stream
  rw [← hserved, ← hlog] at hstream
  have hall : first.take k ++ ((lines.map fun l => l.piece.data).flatten ++
      (inbox c.socket).waiting.flatten) = first.take k ++ (first.drop k ++ more.flatten) := by
    rw [← List.append_assoc (first.take k) (first.drop k), List.take_append_drop, ← htake]
    simpa [List.map_map, Function.comp_def] using hstream
  rw [← hlog]
  exact List.append_cancel_left hall

theorem hello_then_stream_half : ∃ ms c loop console k,
    Run (Connection.Step queue decodeHello) (.start ⟨0, []⟩) ms c ∧
    c.client = .looping (41250 - 15) 0 loop console ∧ c.log.length = 2 ∧
    (41250 - 15 : UInt32) =
      (decodeHello (padded (helloText.take k))).2.d.heartbeatInterval - 15 ∧
    (c.log.tail.map fun l => l.piece.data).flatten ++ ascii "]" =
      helloText.drop k ++ ascii "[1]" := by
  obtain ⟨ms, loop, console, hrun, -, htwo⟩ := run_to_half
  obtain ⟨first, more, k, hserved, -, -, hinterval, -, hstream⟩ :=
    hello_then_stream queue_lawful rfl hrun rfl
  obtain ⟨rfl, rfl⟩ := List.cons.inj hserved
  exact ⟨ms, _, loop, console, k, hrun, rfl, htwo, hinterval, hstream⟩

end GrebballPlus.Gateway
