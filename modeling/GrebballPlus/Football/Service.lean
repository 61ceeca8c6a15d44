import GrebballPlus.Football.Games
import GrebballPlus.Football.Url

/-! The client and its server. One call follows the other on the same builders; the
network may bring anything, whole answers in pieces among it; the server goes by the URL
alone, and its games change while it is asked. -/

namespace GrebballPlus.Football

open Curl

variable {ε : Type} {unmarshal : Bytes → Option ε × EspnRoot}

/-- Of each week the games as they stand at a moment, and the text a URL gets then, which
decodes to a scoreboard of the week the server reads from it. -/
structure Service (unmarshal : Bytes → Option ε × EspnRoot) where
  games : ℕ → Query → List Game
  respond : ℕ → Bytes → Bytes
  shows : ∀ moment url q, (readUrl url).address = URL_BASE → (readUrl url).query = some q →
    List.Forall₂ Shows (unmarshal (respond moment url)).2.events (games moment q)

/-- One call: when the server gets the request, what is asked for, and what arrives. -/
structure Poll where
  moment : ℕ
  query : Query
  transfer : Transfer

structure Exchange where
  poll : Poll
  fetch : Fetch

def session (unmarshal : Bytes → Option ε × EspnRoot) : Globals → List Poll → List Exchange
  | _, [] => []
  | g, p :: ps =>
    ⟨p, (fetchWeek unmarshal g p.query p.transfer).2⟩ ::
      session unmarshal (fetchWeek unmarshal g p.query p.transfer).1 ps

/-- What arrived is what the server gave for the URL that was sent. -/
def Service.Answered (s : Service unmarshal) (e : Exchange) : Prop :=
  body e.poll.transfer.chunks = s.respond e.poll.moment e.fetch.sent

theorem map_poll_session (g : Globals) (ps : List Poll) :
    (session unmarshal g ps).map Exchange.poll = ps := by
  induction ps generalizing g with
  | nil => rfl
  | cons p ps ih => rw [session, List.map_cons, ih]

theorem fetch_of_mem_session {g : Globals} {ps : List Poll} {e : Exchange}
    (h : e ∈ session unmarshal g ps) :
    ∃ g', e.fetch = (fetchWeek unmarshal g' e.poll.query e.poll.transfer).2 := by
  induction ps generalizing g with
  | nil => cases h
  | cons p ps ih =>
    rw [session, List.mem_cons] at h
    obtain rfl | h := h
    · exact ⟨g, rfl⟩
    · exact ih h

theorem Service.shows_of_answered (s : Service unmarshal) {e : Exchange}
    (hsent : e.fetch.sent = weekUrl e.poll.query) (h : s.Answered e) :
    List.Forall₂ Shows (unmarshal (body e.poll.transfer.chunks)).2.events
      (s.games e.poll.moment e.poll.query) := by
  rw [Service.Answered, hsent] at h
  rw [h]
  apply s.shows
  · rw [readUrl_weekUrl]
  · rw [readUrl_weekUrl, query_weekParams]

theorem Service.result_of_answered (s : Service unmarshal) {g : Globals} {ps : List Poll}
    {e : Exchange} (he : e ∈ session unmarshal g ps) (h : s.Answered e) :
    e.fetch.result = .ok ((s.games e.poll.moment e.poll.query).map Game.nflMatch) := by
  obtain ⟨g', hfetch⟩ := fetch_of_mem_session he
  have hsent : e.fetch.sent = weekUrl e.poll.query := by rw [hfetch, fetchWeek_eq, weekFetch]
  rw [hfetch]
  exact result_of_shows (s.shows_of_answered hsent h) g' e.poll.query

/-- In any session, whatever became of the other polls: each poll that is answered
returns the games its week has at that moment, and two of them return the same exactly
when these games are the same, with their scores and kickoffs. -/
theorem fetch_week_service (s : Service unmarshal) (g : Globals) (ps : List Poll) :
    (session unmarshal g ps).map Exchange.poll = ps ∧
      ∀ e ∈ session unmarshal g ps, s.Answered e →
        e.fetch.result = .ok ((s.games e.poll.moment e.poll.query).map Game.nflMatch) ∧
          ∀ e' ∈ session unmarshal g ps, s.Answered e' →
            (e.fetch.result = e'.fetch.result ↔
              s.games e.poll.moment e.poll.query = s.games e'.poll.moment e'.poll.query) := by
  refine ⟨map_poll_session g ps, fun e he h => ?_⟩
  have hresult := s.result_of_answered he h
  refine ⟨hresult, fun e' he' h' => ?_⟩
  rw [hresult, s.result_of_answered he' h', Except.ok.injEq]
  exact (List.map_injective_iff.mpr nflMatch_injective).eq_iff

/-- A server that puts the game up after the first moment, for whatever week. -/
def openerService : Service (decodeOneGame kickoff) where
  games moment _ := if moment = 0 then [] else [opener]
  respond moment _ := if moment = 0 then [] else oneGame kickoff
  shows moment _ _ _ _ := by
    by_cases h : moment = 0
    · rw [if_pos h, if_pos h, decodeOneGame_nil]
      exact .nil
    · rw [if_neg h, if_neg h, decodeOneGame, if_pos rfl]
      exact shows_opener

def openerPolls : List Poll :=
  [⟨0, ⟨2024, 2, 18⟩, ⟨[], .OK⟩⟩, ⟨1, ⟨2024, 2, 18⟩, ⟨[], .COULDNT_CONNECT⟩⟩,
    ⟨2, ⟨2024, 2, 18⟩, ⟨[oneGameChunk kickoff], .OK⟩⟩]

theorem fetch_week_service_opener :
    ∃ before broken later,
      session (decodeOneGame kickoff) init openerPolls = [before, broken, later] ∧
        later.fetch.result = .ok [opener.nflMatch] ∧
        before.fetch.result ≠ later.fetch.result := by
  obtain ⟨hpolls, hall⟩ := fetch_week_service openerService init openerPolls
  generalize session (decodeOneGame kickoff) init openerPolls = es at hpolls hall
  obtain ⟨before, es, rfl, hbefore, hpolls⟩ := List.map_eq_cons_iff.mp hpolls
  obtain ⟨broken, es, rfl, -, hpolls⟩ := List.map_eq_cons_iff.mp hpolls
  obtain ⟨later, es, rfl, hlater, hpolls⟩ := List.map_eq_cons_iff.mp hpolls
  cases List.map_eq_nil_iff.mp hpolls
  have hnothing : openerService.Answered before := by
    rw [Service.Answered, hbefore]
    rfl
  have hgame : openerService.Answered later := by
    rw [Service.Answered, hlater]
    simp [body, oneGameChunk, openerService]
  obtain ⟨hresult, hsame⟩ := hall later (by simp) hgame
  rw [hlater] at hresult hsame
  refine ⟨before, broken, later, rfl, hresult, fun h => ?_⟩
  have hgames := (hsame before (by simp) hnothing).mp h.symm
  rw [hbefore] at hgames
  exact List.cons_ne_nil _ _ hgames

end GrebballPlus.Football
