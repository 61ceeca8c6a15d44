import GrebballPlus.Football.Results
import GrebballPlus.Odin.Chronology

/-! What a scoreboard is about, and what of it survives `fetch_week`: every game with its
teams, scores and kickoff, and the order of the kickoffs. -/

namespace GrebballPlus.Football

open Curl Lib Strconv Time

structure Game where
  id : Int64
  awayTeam : Bytes
  homeTeam : Bytes
  awayScore : Int64
  homeScore : Int64
  kickoff : UtcMinute
  representable : kickoff.Representable

/-- The event shows the game: the scores as numerals, the kickoff as a text. -/
structure Shows (e : EspnEvent) (g : Game) : Prop where
  id : e.id = g.id
  shape : ∃ c cs away home rest, e.competitions = c :: cs ∧
    c.competitors = away :: home :: rest ∧ c.date = g.kickoff.text ∧
    away.team.abbreviation = g.awayTeam ∧ home.team.abbreviation = g.homeTeam ∧
    away.score = decimal g.awayScore.toInt ∧ home.score = decimal g.homeScore.toInt

def Game.nflMatch (g : Game) : NFLMatch where
  id := decimal g.id.toInt
  awayTeam := g.awayTeam
  homeTeam := g.homeTeam
  awayScore := g.awayScore
  homeScore := g.homeScore
  startTime := ⟨Int64.ofInt g.kickoff.instant⟩

theorem toInt_startTime (g : Game) : g.nflMatch.startTime.nsec.toInt = g.kickoff.instant :=
  toInt_ofInt_instant g.kickoff g.representable

theorem Shows.eventMatch {e : EspnEvent} {g : Game} (h : Shows e g) :
    eventMatch e = some g.nflMatch := by
  obtain ⟨c, cs, away, home, rest, hcs, hcomp, hdate, haway, hhome, hascore, hhscore⟩ := h.shape
  refine eventMatch_eq_some.mpr ⟨c, cs, away, home, rest, hcs, hcomp, ?_⟩
  have hstart : (toMatch e c away home).startTime = _ := toMatch_startTime hdate
  rw [if_pos g.representable] at hstart
  rw [Game.nflMatch, ← hstart]
  simp only [toMatch, h.id, haway, hhome, hascore, hhscore, atoi_decimal]

theorem nflMatch_injective : Function.Injective Game.nflMatch := by
  intro g g' h
  have hid : g.id = g'.id := Int64.toInt_inj.mp (decimal_injective (congrArg NFLMatch.id h))
  have hkickoff : g.kickoff = g'.kickoff := by
    apply UtcMinute.eq_of_instant
    rw [← toInt_startTime, ← toInt_startTime, h]
  have haway := congrArg NFLMatch.awayTeam h
  have hhome := congrArg NFLMatch.homeTeam h
  have hascore := congrArg NFLMatch.awayScore h
  have hhscore := congrArg NFLMatch.homeScore h
  obtain ⟨id, awayTeam, homeTeam, awayScore, homeScore, kickoff, _⟩ := g
  obtain ⟨id', awayTeam', homeTeam', awayScore', homeScore', kickoff', _⟩ := g'
  simp only [Game.nflMatch] at hid hkickoff haway hhome hascore hhscore
  subst hid hkickoff haway hhome hascore hhscore
  rfl

theorem startTime_le_iff (g g' : Game) :
    g.nflMatch.startTime.nsec ≤ g'.nflMatch.startTime.nsec ↔
      g.kickoff.text ≤ g'.kickoff.text := by
  rw [Int64.le_iff_toInt_le, toInt_startTime, toInt_startTime, ← not_lt, ← List.not_lt,
    text_lt_iff]

theorem result_of_shows {ε : Type} {unmarshal : Bytes → Option ε × EspnRoot} {t : Transfer}
    {games : List Game} (h : List.Forall₂ Shows (unmarshal (body t.chunks)).2.events games)
    (g : Globals) (q : Query) :
    (fetchWeek unmarshal g q t).2.result = .ok (games.map Game.nflMatch) := by
  rw [result_eq_ok_iff, mapM_eq_some_iff, List.forall₂_map_right_iff]
  exact h.imp fun _ _ => Shows.eventMatch

/-- Of a scoreboard that shows games every call returns the matches of these games, in
its order; two calls return the same matches only for the same games, and the matches
stand in the order of their start times exactly when the events stand in the order of
their dates. -/
theorem fetch_week_games {ε : Type} (unmarshal : Bytes → Option ε × EspnRoot) (g g' : Globals)
    (q q' : Query) (t t' : Transfer) {games games' : List Game}
    (h : List.Forall₂ Shows (unmarshal (body t.chunks)).2.events games)
    (h' : List.Forall₂ Shows (unmarshal (body t'.chunks)).2.events games') :
    ∃ ms, (fetchWeek unmarshal g q t).2.result = .ok ms ∧
      List.Forall₂ (fun game m => m = Game.nflMatch game) games ms ∧
      ((fetchWeek unmarshal g' q' t').2.result = .ok ms ↔ games = games') ∧
      (ms.Pairwise (fun m m' => m.startTime.nsec ≤ m'.startTime.nsec) ↔
        games.Pairwise fun a b => a.kickoff.text ≤ b.kickoff.text) := by
  refine ⟨_, result_of_shows h g q, ?_, ?_, ?_⟩
  · rw [List.forall₂_map_right_iff, List.forall₂_same]
    exact fun _ _ => rfl
  · rw [result_of_shows h' g' q', Except.ok.injEq, eq_comm]
    exact (List.map_injective_iff.mpr nflMatch_injective).eq_iff
  · rw [List.pairwise_map]
    simp only [startTime_le_iff]

def opener : Game where
  id := 7
  awayTeam := ascii "GB"
  homeTeam := ascii "CHI"
  awayScore := 22
  homeScore := 24
  kickoff := kickoff
  representable := by
    have hinstant : kickoff.instant = 1736100000000000000 :=
      (nanoseconds_eq kickoff).symm.trans (by decide)
    unfold UtcMinute.Representable
    omega

theorem shows_opener : List.Forall₂ Shows (oneGameRoot kickoff).events [opener] :=
  .cons ⟨rfl, _, _, _, _, _, rfl, rfl, rfl, rfl, rfl, by decide, by decide⟩ .nil

theorem decodeOneGame_nil : decodeOneGame kickoff [] = (some (), ⟨[]⟩) := by
  have hne : [] ≠ oneGame kickoff := by simp [oneGame, ascii]
  rw [decodeOneGame, if_neg hne]

theorem fetch_week_games_opener :
    ∃ ms, (fetchWeek (decodeOneGame kickoff) init ⟨2024, 2, 18⟩
        ⟨[oneGameChunk kickoff], .OK⟩).2.result = .ok ms ∧ ms.length = 1 ∧
      (fetchWeek (decodeOneGame kickoff) init ⟨2024, 2, 19⟩ ⟨[], .OK⟩).2.result ≠ .ok ms := by
  have hshows : List.Forall₂ Shows (decodeOneGame kickoff
      (body (Transfer.mk [oneGameChunk kickoff] .OK).chunks)).2.events [opener] := by
    rw [decodeOneGame_body]
    exact shows_opener
  have hempty : List.Forall₂ Shows (decodeOneGame kickoff
      (body (Transfer.mk [] .OK).chunks)).2.events [] := by
    have hbody : body (Transfer.mk [] .OK).chunks = [] := rfl
    rw [hbody, decodeOneGame_nil]
    exact .nil
  obtain ⟨ms, hok, hms, hsame, -⟩ := fetch_week_games (decodeOneGame kickoff) init init
    ⟨2024, 2, 18⟩ ⟨2024, 2, 19⟩ _ _ hshows hempty
  exact ⟨ms, hok, hms.length_eq.symm, fun h => List.cons_ne_nil _ _ (hsame.mp h)⟩

end GrebballPlus.Football
