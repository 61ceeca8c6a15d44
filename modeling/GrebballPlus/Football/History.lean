import GrebballPlus.Football.Results

/-! Sequences of `fetch_week` calls. The two builders and the curl handle are shared by
all of them, and libcurl cuts a body as it likes; neither shows in what a call does. -/

namespace GrebballPlus.Football

open Curl

variable {ε : Type} (unmarshal : Bytes → Option ε × EspnRoot)

/-- The package after `init` and some calls, cut off or failed transfers included. -/
def after (calls : List (Query × Transfer)) : Globals :=
  calls.foldl (fun g c => (fetchWeek unmarshal g c.1 c.2).1) init

theorem buf_fetchWeek (g : Globals) (q : Query) (t : Transfer) :
    (fetchWeek unmarshal g q t).1.urlStr.buf = weekUrl q ∧
      (fetchWeek unmarshal g q t).1.response.buf = body t.chunks := by
  constructor
  · simp [fetchWeek, buf_printUrl]
  · exact buf_response g t

/-- After any calls and for any two ways of cutting a body, a call does what it does
right after `init` with the body in one piece. -/
theorem fetch_week_history (calls : List (Query × Transfer)) (q : Query)
    (cut₁ cut₂ : List Chunk) (whole : Chunk) (code₁ code₂ code : CURLcode)
    (h₁ : body cut₁ = whole.data) (h₂ : body cut₂ = whole.data) :
    (fetchWeek unmarshal (after unmarshal calls) q ⟨cut₁, code₁⟩).2 =
        (fetchWeek unmarshal init q ⟨[whole], code⟩).2 ∧
      (fetchWeek unmarshal (after unmarshal calls) q ⟨cut₂, code₂⟩).2 =
        (fetchWeek unmarshal init q ⟨[whole], code⟩).2 := by
  have hwhole : body [whole] = whole.data := by simp [body]
  constructor
  · rw [fetchWeek_eq, fetchWeek_eq, h₁, hwhole]
  · rw [fetchWeek_eq, fetchWeek_eq, h₂, hwhole]

def pieces (c : Chunk) (n : ℕ) : List Chunk :=
  [⟨c.data.take n, (List.length_take_le' n c.data).trans_lt c.fits⟩, ⟨[], by decide⟩,
    ⟨c.data.drop n, (List.drop_sublist n c.data).length_le.trans_lt c.fits⟩]

theorem body_pieces (c : Chunk) (n : ℕ) : body (pieces c n) = c.data := by
  simp [body, pieces]

/-- A transfer of one game that broke off behind its first 40 bytes. -/
def brokenOff : List (Query × Transfer) :=
  [(⟨2024, 3, 1⟩, ⟨(pieces (oneGameChunk kickoff) 40).take 1, .RECV_ERROR⟩)]

/-- Behind it two other cuts give the game, each as the whole text does. -/
theorem fetch_week_history_pieces :
    (fetchWeek (decodeOneGame kickoff) (after (decodeOneGame kickoff) brokenOff) ⟨2024, 2, 18⟩
        ⟨pieces (oneGameChunk kickoff) 40, .OK⟩).2.result = .ok [oneGameMatch kickoff] ∧
      (fetchWeek (decodeOneGame kickoff) (after (decodeOneGame kickoff) brokenOff) ⟨2024, 2, 18⟩
        ⟨pieces (oneGameChunk kickoff) 100, .OK⟩).2.result = .ok [oneGameMatch kickoff] := by
  obtain ⟨h₁, h₂⟩ := fetch_week_history (decodeOneGame kickoff) brokenOff ⟨2024, 2, 18⟩
    (pieces (oneGameChunk kickoff) 40) (pieces (oneGameChunk kickoff) 100) (oneGameChunk kickoff)
    .OK .OK .OK (body_pieces _ 40) (body_pieces _ 100)
  have hwhole := fetchWeek_oneGame kickoff init ⟨2024, 2, 18⟩ .OK
  rw [h₁, h₂]
  exact ⟨hwhole, hwhole⟩

end GrebballPlus.Football
