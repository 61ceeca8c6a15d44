import GrebballPlus.Curl
import GrebballPlus.Odin.Runtime
import GrebballPlus.Odin.Strconv
import GrebballPlus.Odin.Time

/-! Package `football`: `fetch_week` asks for one week's scoreboard and maps the decoded
events to matches. `json.unmarshal` is a parameter: from the bytes of the body it gives
an error or none, and the `EspnRoot` it leaves behind in either case. -/

namespace GrebballPlus.Football

open Curl Strings Strconv Time

structure EspnTeam where
  displayName : Bytes
  abbreviation : Bytes
deriving DecidableEq

structure EspnCompetitior where
  team : EspnTeam
  score : Bytes
deriving DecidableEq

structure EspnCompetition where
  date : Bytes
  competitors : List EspnCompetitior
deriving DecidableEq

structure EspnEvent where
  id : Int64
  competitions : List EspnCompetition
deriving DecidableEq

structure EspnRoot where
  events : List EspnEvent
deriving DecidableEq

structure NFLMatch where
  id : Bytes
  awayTeam : Bytes
  homeTeam : Bytes
  awayScore : Int64
  homeScore : Int64
  startTime : Time
deriving DecidableEq

def NFLMatch.zero : NFLMatch := ⟨[], [], [], 0, 0, ⟨0⟩⟩

def URL_BASE : Bytes :=
  ascii "https://site.api.espn.com/apis/site/v2/sports/football/nfl/scoreboard"

structure Globals where
  urlStr : Builder
  response : Builder
  curlH : Handle

def init : Globals := ⟨.initCap 128, .initCap 1024, ⟨[]⟩⟩

structure Query where
  season : Int64
  type : Int64
  week : Int64

/-- `sbprintf` of `"%v?dates=%v&seasontype=%v&week=%v"`, piece by piece. -/
def printUrl (b : Builder) (q : Query) : Builder :=
  [URL_BASE, ascii "?dates=", appendInt q.season, ascii "&seasontype=", appendInt q.type,
    ascii "&week=", appendInt q.week].foldl Builder.writeBytes b

/-- The body of the result loop: the scratch array it leaves and the match it stores. -/
def readEvent (arr : Bytes) (e : EspnEvent) : Except Panic (Bytes × NFLMatch) := do
  let (arr, test) := itoa arr e.id
  let id := arr.take test.length
  let away_comp ← elemAt (← elemAt e.competitions 0).competitors 0
  let home_comp ← elemAt (← elemAt e.competitions 0).competitors 1
  let date_str := replace (← elemAt e.competitions 0).date (ascii "Z") (ascii ":00Z") 1
  return (arr, {
    id := id
    awayTeam := away_comp.team.abbreviation
    homeTeam := home_comp.team.abbreviation
    awayScore := atoi away_comp.score
    homeScore := atoi home_comp.score
    startTime := (iso8601ToTimeUtc date_str).1 })

/-- `for e, i in out.events`, with `results` allocated beforehand. -/
def resultLoop : ℕ → List EspnEvent → Bytes → List NFLMatch → Except Panic (List NFLMatch)
  | _, [], _, results => .ok results
  | i, e :: events, arr, results => do
    let (arr, m) ← readEvent arr e
    let _ ← elemAt results i
    resultLoop (i + 1) events arr (results.set i m)

structure Fetch where
  sent : Bytes
  result : Except Panic (List NFLMatch)

variable {ε : Type} (unmarshal : Bytes → Option ε × EspnRoot)

/-- `fetch_week`. The result code and the decode error are stored and not looked at. -/
def fetchWeek (g : Globals) (q : Query) (t : Transfer) : Globals × Fetch :=
  let url_str := printUrl g.urlStr.reset q
  let response := g.response.reset
  let (url, url_str) := url_str.toCstring
  let curl_h : Handle := ⟨url⟩
  let (response, _code) := easyPerform builderWrite t.chunks t.code response
  let (_err, out) := unmarshal response.buf
  let results := List.replicate out.events.length NFLMatch.zero
  let arr := List.replicate 32 0
  (⟨url_str, response, curl_h⟩, ⟨curl_h.url, resultLoop 0 out.events arr results⟩)

def weekUrl (q : Query) : Bytes :=
  URL_BASE ++ ascii "?dates=" ++ appendInt q.season ++ ascii "&seasontype=" ++
    appendInt q.type ++ ascii "&week=" ++ appendInt q.week

def toMatch (e : EspnEvent) (c : EspnCompetition) (away home : EspnCompetitior) : NFLMatch where
  id := Lib.decimal e.id.toInt
  awayTeam := away.team.abbreviation
  homeTeam := home.team.abbreviation
  awayScore := atoi away.score
  homeScore := atoi home.score
  startTime := (iso8601ToTimeUtc (replace c.date (ascii "Z") (ascii ":00Z") 1)).1

def eventMatch (e : EspnEvent) : Option NFLMatch :=
  match e.competitions with
  | [] => none
  | c :: _ =>
    match c.competitors with
    | away :: home :: _ => some (toMatch e c away home)
    | _ => none

/-- What a week's fetch is for: a function of the query and of the body. -/
def weekFetch (q : Query) (body : Bytes) : Fetch :=
  ⟨weekUrl q,
    match (unmarshal body).2.events.mapM eventMatch with
    | some ms => .ok ms
    | none => .error .indexOutOfRange⟩

theorem nul_not_mem_appendInt (i : Int64) : NUL ∉ appendInt i := by
  rw [appendInt_eq]
  intro h
  rcases Lib.mem_decimal h with h | h
  · exact absurd h (by decide)
  · exact absurd h (by decide)

theorem nul_not_mem_weekUrl (q : Query) : NUL ∉ weekUrl q := by
  have hbase : NUL ∉ URL_BASE := by decide
  have hdates : NUL ∉ ascii "?dates=" := by decide
  have htype : NUL ∉ ascii "&seasontype=" := by decide
  have hweek : NUL ∉ ascii "&week=" := by decide
  simp only [weekUrl, List.mem_append, not_or]
  exact ⟨⟨⟨⟨⟨⟨hbase, hdates⟩, nul_not_mem_appendInt _⟩, htype⟩, nul_not_mem_appendInt _⟩, hweek⟩,
    nul_not_mem_appendInt _⟩

theorem buf_printUrl (b : Builder) (q : Query) : (printUrl b q).buf = b.buf ++ weekUrl q := by
  simp [printUrl, weekUrl]

theorem eventMatch_eq_some {e : EspnEvent} {m : NFLMatch} :
    eventMatch e = some m ↔ ∃ c cs away home rest, e.competitions = c :: cs ∧
      c.competitors = away :: home :: rest ∧ m = toMatch e c away home := by
  unfold eventMatch
  constructor
  · intro h
    split at h
    · cases h
    · rename_i c cs hcs
      split at h
      · rename_i away home rest hcomp
        exact ⟨c, cs, away, home, rest, hcs, hcomp, (Option.some.inj h).symm⟩
      · cases h
  · rintro ⟨c, cs, away, home, rest, hcs, hcomp, rfl⟩
    rw [hcs]
    simp only [hcomp]

/-- One turn on a scratch array of 20 bytes or more: the match depends on the event
alone, and the array keeps its length. -/
theorem readEvent_ok {arr : Bytes} (harr : 20 ≤ arr.length) {e : EspnEvent} {m : NFLMatch}
    (h : eventMatch e = some m) :
    ∃ arr', readEvent arr e = .ok (arr', m) ∧ arr'.length = arr.length := by
  obtain ⟨c, cs, away, home, rest, hcs, hcomp, rfl⟩ := eventMatch_eq_some.mp h
  have hid := (itoa_eq harr e.id).2
  refine ⟨_, ?_, length_itoa arr harr e.id⟩
  simp [readEvent, elemAt, hcs, hcomp, bind, Except.bind, pure, Except.pure, toMatch, hid]

theorem readEvent_error (arr : Bytes) {e : EspnEvent} (h : eventMatch e = none) :
    readEvent arr e = .error .indexOutOfRange := by
  unfold eventMatch at h
  rcases hcs : e.competitions with _ | ⟨c, cs⟩
  · simp [readEvent, elemAt, hcs, bind, Except.bind]
  · rw [hcs] at h
    rcases hcomp : c.competitors with _ | ⟨away, _ | ⟨home, rest⟩⟩
    · simp [readEvent, elemAt, hcs, hcomp, bind, Except.bind]
    · simp [readEvent, elemAt, hcs, hcomp, bind, Except.bind]
    · simp [hcomp] at h

theorem resultLoop_spec (events : List EspnEvent) {arr : Bytes} (harr : 20 ≤ arr.length)
    (done : List NFLMatch) :
    resultLoop done.length events arr (done ++ List.replicate events.length .zero) =
      match events.mapM eventMatch with
      | some ms => .ok (done ++ ms)
      | none => .error .indexOutOfRange := by
  induction events generalizing arr done with
  | nil => rfl
  | cons e events ih =>
    rw [resultLoop, List.mapM_cons]
    cases hm : eventMatch e with
    | none =>
      rw [readEvent_error arr hm]
      rfl
    | some m =>
      obtain ⟨arr', hread, harr'⟩ := readEvent_ok harr hm
      have hih := ih (by rw [harr']; exact harr) (done ++ [m])
      rw [List.length_append, List.length_singleton] at hih
      simp only [hread, List.length_cons, elemAt_replicate, set_replicate, bind, Except.bind, hih]
      cases events.mapM eventMatch with
      | none => rfl
      | some ms => simp [pure]

/-- What the transfer leaves in the builder, whatever was in it before. -/
theorem buf_response (g : Globals) (t : Transfer) :
    (easyPerform builderWrite t.chunks t.code g.response.reset).1.buf = body t.chunks := by
  rw [(easyPerform_spec builderWrite_appends _ _ _).1, Builder.buf_reset, List.nil_append]

/-- Every call, in any state the package can be in, is the week's fetch of its query and
of the bytes its transfer delivered. -/
theorem fetchWeek_eq (g : Globals) (q : Query) (t : Transfer) :
    (fetchWeek unmarshal g q t).2 = weekFetch unmarshal q (body t.chunks) := by
  have hurl : (printUrl g.urlStr.reset q).buf = weekUrl q := by simp [buf_printUrl]
  have hsent : (printUrl g.urlStr.reset q).toCstring.1 = weekUrl q := by
    rw [Builder.toCstring_fst, hurl, takeWhile_of_not_mem (nul_not_mem_weekUrl q)]
  have hbody := buf_response g t
  have harr : 20 ≤ (List.replicate 32 (0 : UInt8)).length := by decide
  have hloop := resultLoop_spec (unmarshal (body t.chunks)).2.events harr []
  simp only [fetchWeek, weekFetch, hsent, hbody, Fetch.mk.injEq, true_and]
  exact hloop

end GrebballPlus.Football
