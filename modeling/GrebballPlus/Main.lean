import GrebballPlus.Config.Ownership
import GrebballPlus.Gateway.Session
import GrebballPlus.Lib.Tracking

/-! `main` of the Odin program, built with `TRACK_MEM`: the config is read, the socket
served, the config freed and the tracking allocator's findings reported. A program that
stops before that reports nothing. -/

namespace GrebballPlus

open Config Curl Gateway Lib

/-- The blocks of `config.init`: the copies of strings that are not empty, and for each
line the slice `split_n` returns. The storage of the map itself is left out. -/
inductive Owned
  | copy (c : Copy)
  | elems (turn : ℕ)
deriving DecidableEq

def ownedCopies (copies : List Copy) : List Owned :=
  (copies.filter fun c => c.text ≠ []).map Owned.copy

structure Traced where
  store : Store
  turns : ℕ
  ops : List (MemOp Owned)

def Traced.empty : Traced := ⟨.empty, 0, []⟩

/-- The body of the loop of `init`. The deferred `delete(elems)` comes at its end. -/
def addLineOn (s : Traced) (line : Bytes) : Except Panic Traced := do
  let store ← addLine s.store line
  let cloned := ownedCopies (store.log.drop s.store.log.length)
  return ⟨store, s.turns + 1, s.ops ++ ([.alloc (.elems s.turns)] ++ cloned.map .alloc ++
    [.free (.elems s.turns)])⟩

def loopOn : ℕ → Bytes → Traced → Except Panic Traced
  | 0, _, s => .ok s
  | n + 1, content, s =>
    match Strings.splitLinesIterator content with
    | none => .ok s
    | some (line, rest) => addLineOn s line >>= loopOn n rest

def initOn (opened : Option File) : Except Panic Traced :=
  match opened with
  | none => .error .assertFailed
  | some f =>
    let content := Strings.trimRight f.buffer [CR, LF]
    loopOn content.length content .empty

def freeOps (t : Table) : List (MemOp Owned) := (ownedCopies (free t)).map .free

variable {ε : Type} (unmarshal : Bytes → Option ε × HelloEvt) (connect : CURLcode) (r : WsRecv)

/-- What was sent and what is reported when `main` returns; `none` while the socket is
served, that is where the readings are used up. -/
def main (opened : Option File) (t₀ : ℕ) (its : List Iter) :
    Except Panic (Option (List WsSend × Tracker Owned)) := do
  let cfg ← initOn opened
  match ← webSocket unmarshal connect r t₀ its with
  | none => return none
  | some sent => return some (sent, Tracker.empty.run (cfg.ops ++ freeOps cfg.store.table))

theorem ownedCopies_append (cs cs' : List Copy) :
    ownedCopies (cs ++ cs') = ownedCopies cs ++ ownedCopies cs' := by
  simp [ownedCopies]

theorem ownedCopies_perm {cs cs' : List Copy} (h : cs.Perm cs') :
    (ownedCopies cs).Perm (ownedCopies cs') := (h.filter _).map _

theorem mem_ownedCopies {o : Owned} {cs : List Copy} :
    o ∈ ownedCopies cs ↔ ∃ c ∈ cs, c.text ≠ [] ∧ .copy c = o := by
  simp only [ownedCopies, List.mem_map, List.mem_filter, decide_eq_true_eq, and_assoc]

def Traced.Sound (s : Traced) : Prop :=
  Turns 0 s.ops (ownedCopies s.store.log : Multiset Owned)

/-- `x` ends as `y` does, with the store of `y` and its copies accounted for. -/
def Follows (x : Except Panic Traced) (y : Except Panic Store) : Prop :=
  (∀ p, y = .error p → x = .error p) ∧
    ∀ store, y = .ok store → ∃ s, x = .ok s ∧ s.store = store ∧ s.Sound

theorem Follows.of_ok {s : Traced} (hs : s.Sound) : Follows (.ok s) (.ok s.store) := by
  refine ⟨fun p hp => ?_, fun store hstore => ?_⟩
  · cases hp
  · cases hstore
    exact ⟨s, rfl, rfl, hs⟩

theorem Follows.of_error (p : Panic) : Follows (.error p) (.error p) := by
  refine ⟨fun q hq => ?_, fun store hstore => ?_⟩
  · cases hq
    rfl
  · cases hstore

theorem addLineOn_follows {s : Traced} (hs : s.Sound) (line : Bytes) :
    Follows (addLineOn s line) (addLine s.store line) := by
  unfold addLineOn
  by_cases heq : EQ ∈ line
  · rw [addLine_ok s.store heq]
    refine Follows.of_ok (s := ⟨_, _, _⟩) ?_
    simp only [Traced.Sound, List.drop_left, ownedCopies_append]
    unfold Traced.Sound at hs
    generalize ownedCopies s.store.log = held at hs ⊢
    generalize ownedCopies [⟨s.store.log.length, keyOf line⟩,
      ⟨s.store.log.length + 1, valueOf line⟩] = cloned
    -- the slice is there while the two strings are cloned
    have hclone := (Turns.allocs cloned).frame {Owned.elems s.turns}
    have hdelete := (Turns.free (Owned.elems s.turns)).frame (cloned : Multiset Owned)
    rw [zero_add] at hclone hdelete
    rw [add_comm] at hclone
    have hline := ((Turns.alloc _).append hclone).append hdelete
    have hframed := hline.frame (held : Multiset Owned)
    rw [zero_add, add_comm, Multiset.coe_add] at hframed
    exact hs.append hframed
  · rw [addLine_error s.store heq]
    exact Follows.of_error _

theorem loopOn_follows {s : Traced} (hs : s.Sound) (n : ℕ) (content : Bytes) :
    Follows (loopOn n content s) (loop n content s.store) := by
  induction n generalizing content s with
  | zero => exact Follows.of_ok hs
  | succ n ih =>
    unfold loopOn loop
    cases Strings.splitLinesIterator content with
    | none => exact Follows.of_ok hs
    | some cut =>
      obtain ⟨line, rest⟩ := cut
      obtain ⟨herror, hok⟩ := addLineOn_follows hs line
      cases hadd : addLine s.store line with
      | error p =>
        simp only [bind, Except.bind, hadd, herror p hadd]
        exact Follows.of_error p
      | ok store =>
        obtain ⟨s', hs', rfl, hsound⟩ := hok store hadd
        simp only [bind, Except.bind, hadd, hs']
        exact ih hsound rest

theorem initOn_follows (opened : Option File) : Follows (initOn opened) (Config.init opened) := by
  cases opened with
  | none => exact Follows.of_error _
  | some f =>
    have hempty : Traced.empty.Sound := Turns.nil 0
    exact loopOn_follows hempty _ _

/-- What the tracker finds after `init` and `free`: the copies lost on the way. -/
theorem report_of_init {content : Bytes} {s : Traced} (hs : s.Sound)
    (h : Config.init (some (.whole content)) = .ok s.store) :
    Tracker.empty.run (s.ops ++ freeOps s.store.table) = ⟨ownedCopies (lost content), 0⟩ := by
  have hledger := ownedCopies_perm (free_lost_perm h)
  rw [ownedCopies_append] at hledger
  have hfree := (Turns.frees (ownedCopies (free s.store.table))).frame
    (ownedCopies (lost content) : Multiset Owned)
  rw [zero_add, Multiset.coe_add, Multiset.coe_eq_coe.mpr hledger] at hfree
  exact (Turns.append hs hfree).report

theorem runLoop_sent {interval : UInt32} {s : Loop} {its : List Iter}
    (hsent : s.sent = List.replicate s.hbCount heartbeat) (hle : s.hbCount ≤ 5) :
    ∃ o, runLoop interval its s = .ok o ∧ ∀ s' ∈ o, s'.sent = List.replicate 5 heartbeat := by
  have hover : ¬ s.hbCount < 5 → s.sent = List.replicate 5 heartbeat := by
    intro hno
    rw [hsent, Nat.le_antisymm hle (Nat.not_lt.mp hno)]
  induction its generalizing s with
  | nil =>
    refine ⟨_, rfl, ?_⟩
    split_ifs with hlt
    · exact fun s' hs' => absurd hs' (Option.not_mem_none s')
    · exact fun s' hs' => Option.mem_some_iff.mp hs' ▸ hover hlt
  | cons it its ih =>
    by_cases hlt : s.hbCount < 5
    · simp only [runLoop, if_pos hlt]
      by_cases hdue : interval ≤ UInt32.ofNat (it.since - s.lastHb)
      · rw [pass_of_le hdue]
        have hnext : s.sent ++ [heartbeat] = List.replicate (s.hbCount + 1) heartbeat := by
          rw [hsent, List.replicate_succ']
        refine ih hnext hlt fun hno => ?_
        have hfive : s.hbCount + 1 = 5 := Nat.le_antisymm hlt (Nat.not_lt.mp hno)
        exact hfive ▸ hnext
      · rw [pass_of_not_le hdue]
        exact ih hsent hle hover
    · simp only [runLoop, if_neg hlt]
      exact ⟨_, rfl, fun s' hs' => Option.mem_some_iff.mp hs' ▸ hover hlt⟩

theorem webSocket_outcome (hframe : r.frame ≠ none) (t₀ : ℕ) (its : List Iter) :
    webSocket unmarshal connect r t₀ its = .ok none ∨
      webSocket unmarshal connect r t₀ its =
        .ok (some (List.replicate 5 heartbeat ++ [close])) := by
  obtain ⟨frame, hsome⟩ := Option.ne_none_iff_exists'.mp hframe
  have hloop : ∃ o, runLoop (helloInterval unmarshal r - 15) its (.start t₀) = .ok o ∧
      ∀ s ∈ o, s.sent = List.replicate 5 heartbeat := runLoop_sent rfl (Nat.zero_le 5)
  obtain ⟨o, hrun, hsent⟩ := hloop
  rw [webSocket, readHello_of_frame unmarshal connect r hsome]
  simp only [bind, Except.bind, pure, Except.pure, hrun]
  cases o with
  | none => exact Or.inl rfl
  | some s => exact Or.inr (by rw [Option.map_some, Loop.closed, hsent s rfl])

/-- Every end the program can come to: a line without `=`, no frame for the Hello, readings
that are used up, or a return, with the heartbeats and the close sent and nothing reported
but the copies that `init` lost. -/
theorem main_outcome (content : Bytes) (t₀ : ℕ) (its : List Iter) :
    ((∃ l ∈ lines content, EQ ∉ l) →
      main unmarshal connect r (some (.whole content)) t₀ its = .error .indexOutOfRange) ∧
    ((∀ l ∈ lines content, EQ ∈ l) → r.frame = none →
      main unmarshal connect r (some (.whole content)) t₀ its = .error .nilDereference) ∧
    ((∀ l ∈ lines content, EQ ∈ l) → r.frame ≠ none →
      main unmarshal connect r (some (.whole content)) t₀ its = .ok none ∨
      main unmarshal connect r (some (.whole content)) t₀ its =
        .ok (some (List.replicate 5 heartbeat ++ [close], ⟨ownedCopies (lost content), 0⟩))) ∧
    ((∀ l ∈ lines content, EQ ∈ l) → r.frame ≠ none → 15 ≤ helloInterval unmarshal r →
      TimelyTrace (helloInterval unmarshal r - 15) its (.start t₀) →
      maxPasses (helloInterval unmarshal r - 15) ≤ its.length →
      main unmarshal connect r (some (.whole content)) t₀ its =
        .ok (some (List.replicate 5 heartbeat ++ [close], ⟨ownedCopies (lost content), 0⟩))) := by
  obtain ⟨herror, hok⟩ := initOn_follows (some (.whole content))
  have hinit : (∀ l ∈ lines content, EQ ∈ l) → ∃ cfg, initOn (some (.whole content)) = .ok cfg ∧
      Tracker.empty.run (cfg.ops ++ freeOps cfg.store.table) =
        ⟨ownedCopies (lost content), 0⟩ := by
    intro hall
    obtain ⟨store, hstore, -⟩ := init_ok content hall
    obtain ⟨cfg, hcfg, rfl, hsound⟩ := hok store hstore
    exact ⟨cfg, hcfg, report_of_init hsound hstore⟩
  refine ⟨fun hno => ?_, fun hall hnone => ?_, fun hall hframe => ?_,
    fun hall hframe hasked htimely hlen => ?_⟩
  · have hpanic := herror .indexOutOfRange (by rw [init_eq_foldlM, foldlM_addLine_error _ hno])
    simp only [main, hpanic, bind, Except.bind]
  · obtain ⟨cfg, hcfg, -⟩ := hinit hall
    simp only [main, hcfg, webSocket_stops unmarshal connect r hnone, bind, Except.bind]
  · obtain ⟨cfg, hcfg, hreport⟩ := hinit hall
    rcases webSocket_outcome unmarshal connect r hframe t₀ its with hsocket | hsocket
    · left
      simp only [main, hcfg, hsocket, bind, Except.bind, pure, Except.pure]
    · right
      simp only [main, hcfg, hsocket, hreport, bind, Except.bind, pure, Except.pure]
  · obtain ⟨cfg, hcfg, hreport⟩ := hinit hall
    have hsocket := webSocket_sends unmarshal connect r hframe hasked htimely hlen
    simp only [main, hcfg, hsocket, hreport, bind, Except.bind, pure, Except.pure]

/-- Every block that is not freed, by the line it was made of: the copy of a key that an
earlier line has, or of a value whose key a later line has. -/
theorem leak_report {content : Bytes} (hall : ∀ l ∈ lines content, EQ ∈ l) :
    ∃ cfg live, initOn (some (.whole content)) = .ok cfg ∧
      Tracker.empty.run (cfg.ops ++ freeOps cfg.store.table) = ⟨live, 0⟩ ∧ live.Nodup ∧
      ∀ o, o ∈ live ↔ ∃ before l after, lines content = before ++ l :: after ∧
        (o = .copy ⟨2 * before.length, keyOf l⟩ ∧ keyOf l ≠ [] ∧ keyOf l ∈ before.map keyOf ∨
          o = .copy ⟨2 * before.length + 1, valueOf l⟩ ∧ valueOf l ≠ [] ∧
            keyOf l ∈ after.map keyOf) := by
  obtain ⟨store, hstore, -⟩ := init_ok content hall
  obtain ⟨cfg, hcfg, rfl, hsound⟩ := (initOn_follows (some (.whole content))).2 store hstore
  refine ⟨cfg, _, hcfg, report_of_init hsound hstore, ?_, fun o => ?_⟩
  · exact Multiset.coe_nodup.mpr (((nodup_lost hstore).filter _).map fun _ _ => Owned.copy.inj)
  · rw [Multiset.mem_coe, mem_ownedCopies]
    constructor
    · rintro ⟨c, hc, hne, rfl⟩
      obtain ⟨before, l, after, hlines, hcopy⟩ := line_of_mem_lost hstore hc
      obtain ⟨hkey, hvalue⟩ := mem_lost hlines
      refine ⟨before, l, after, hlines, ?_⟩
      rcases hcopy with rfl | rfl
      · exact Or.inl ⟨rfl, hne, hkey.mp hc⟩
      · exact Or.inr ⟨rfl, hne, hvalue.mp hc⟩
    · rintro ⟨before, l, after, hlines, hline⟩
      obtain ⟨hkey, hvalue⟩ := mem_lost hlines
      rcases hline with ⟨rfl, hne, hmem⟩ | ⟨rfl, hne, hmem⟩
      · exact ⟨_, hkey.mpr hmem, hne, rfl⟩
      · exact ⟨_, hvalue.mpr hmem, hne, rfl⟩

/-- The second line of `T=1`, `T=2` leaves its key and the value of the first. -/
theorem leak_report_two_lines :
    ∃ cfg live, initOn (some (.whole (ascii "T=1\nT=2"))) = .ok cfg ∧
      Tracker.empty.run (cfg.ops ++ freeOps cfg.store.table) = ⟨live, 0⟩ ∧
      .copy ⟨1, ascii "1"⟩ ∈ live ∧ .copy ⟨2, ascii "T"⟩ ∈ live := by
  have hall : ∀ l ∈ lines (ascii "T=1\nT=2"), EQ ∈ l := by decide
  obtain ⟨cfg, live, hcfg, hreport, -, hlive⟩ := leak_report hall
  have hlines : lines (ascii "T=1\nT=2") = [ascii "T=1", ascii "T=2"] := by decide
  refine ⟨cfg, live, hcfg, hreport, (hlive _).mpr ?_, (hlive _).mpr ?_⟩
  · exact ⟨[], ascii "T=1", [ascii "T=2"], hlines, Or.inr (by decide)⟩
  · exact ⟨[ascii "T=1"], ascii "T=2", [], hlines, Or.inl (by decide)⟩

end GrebballPlus
