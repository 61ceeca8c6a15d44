import GrebballPlus.Football.Fetch

/-! What `fetch_week` returns: the match of each event when the scoreboard decodes, and
what becomes of a failed transfer or a decode error, which nothing looks at. -/

namespace GrebballPlus.Football

open Curl Strconv Time

variable {ε : Type} (unmarshal : Bytes → Option ε × EspnRoot)

def Shaped (e : EspnEvent) : Prop := ∃ c ∈ e.competitions.head?, 2 ≤ c.competitors.length

/-- `m` is built from the event's own id, first competition and first two competitors. -/
structure MatchOf (e : EspnEvent) (c : EspnCompetition) (away home : EspnCompetitior)
    (m : NFLMatch) : Prop where
  competition : e.competitions[0]? = some c
  away_eq : c.competitors[0]? = some away
  home_eq : c.competitors[1]? = some home
  id : m.id = Lib.decimal e.id.toInt
  awayTeam : m.awayTeam = away.team.abbreviation
  homeTeam : m.homeTeam = home.team.abbreviation
  awayScore : m.awayScore = atoi away.score
  homeScore : m.homeScore = atoi home.score
  startTime : ∀ minute : UtcMinute, c.date = minute.text → minute.Representable →
    m.startTime.nsec.toInt = minute.instant

theorem shaped_iff {e : EspnEvent} : Shaped e ↔ ∃ m, eventMatch e = some m := by
  constructor
  · rintro ⟨c, hc, hlen⟩
    obtain ⟨cs, hcs⟩ := List.head?_eq_some_iff.mp hc
    rcases hcomp : c.competitors with _ | ⟨away, _ | ⟨home, rest⟩⟩
    · simp [hcomp] at hlen
    · simp [hcomp] at hlen
    · exact ⟨_, eventMatch_eq_some.mpr ⟨c, cs, away, home, rest, hcs, hcomp, rfl⟩⟩
  · rintro ⟨m, hm⟩
    obtain ⟨c, cs, away, home, rest, hcs, hcomp, -⟩ := eventMatch_eq_some.mp hm
    exact ⟨c, by simp [hcs], by simp [hcomp]⟩

theorem toMatch_startTime {e : EspnEvent} {c : EspnCompetition} {away home : EspnCompetitior}
    {minute : UtcMinute} (hdate : c.date = minute.text) :
    (toMatch e c away home).startTime =
      if minute.Representable then ⟨Int64.ofInt minute.instant⟩ else ⟨0⟩ := by
  have hz : ascii "Z" = [90] := by decide
  have hreplace : Strings.replace c.date (ascii "Z") (ascii ":00Z") 1 =
      minute.stem ++ ascii ":00Z" := by
    rw [hdate, hz, UtcMinute.text, Strings.replace_one_append_cons (not_mem_stem minute),
      List.append_nil]
  unfold toMatch
  rw [hreplace, iso8601ToTimeUtc_stem]

theorem matchOf_of_eventMatch {e : EspnEvent} {m : NFLMatch} (h : eventMatch e = some m) :
    ∃ c away home, MatchOf e c away home m := by
  obtain ⟨c, cs, away, home, rest, hcs, hcomp, rfl⟩ := eventMatch_eq_some.mp h
  refine ⟨c, away, home, by simp [hcs], by simp [hcomp], by simp [hcomp], rfl, rfl, rfl, rfl, rfl,
    fun minute hdate hrep => ?_⟩
  rw [toMatch_startTime hdate, if_pos hrep]
  exact toInt_ofInt_instant minute hrep

theorem MatchOf.scores {e : EspnEvent} {c : EspnCompetition} {away home : EspnCompetitior}
    {m : NFLMatch} (h : MatchOf e c away home m) {a b : Int64}
    (haway : away.score = Lib.decimal a.toInt) (hhome : home.score = Lib.decimal b.toInt) :
    m.awayScore = a ∧ m.homeScore = b := by
  refine ⟨?_, ?_⟩
  · rw [h.awayScore, haway, atoi_decimal]
  · rw [h.homeScore, hhome, atoi_decimal]

theorem mapM_eq_some_iff {α β : Type} {f : α → Option β} {xs : List α} {ys : List β} :
    xs.mapM f = some ys ↔ List.Forall₂ (fun x y => f x = some y) xs ys := by
  constructor
  · intro h
    induction xs generalizing ys with
    | nil =>
      cases Option.some.inj h
      exact .nil
    | cons x xs ih =>
      rw [List.mapM_cons] at h
      obtain ⟨y, hy, h⟩ := Option.bind_eq_some_iff.mp h
      obtain ⟨ys', hys, h⟩ := Option.bind_eq_some_iff.mp h
      cases Option.some.inj h
      exact .cons hy (ih hys)
  · intro h
    induction h with
    | nil => rfl
    | cons hy _ ih => simp [List.mapM_cons, hy, ih]

theorem forall_shaped_iff {events : List EspnEvent} :
    (∀ e ∈ events, Shaped e) ↔ ∃ ms, events.mapM eventMatch = some ms := by
  induction events with
  | nil => simp
  | cons e events ih =>
    rw [List.forall_mem_cons, ih, shaped_iff, List.mapM_cons]
    cases eventMatch e with
    | none => simp
    | some m => cases events.mapM eventMatch <;> simp

theorem result_ne_error_iff (g : Globals) (q : Query) (t : Transfer) :
    (fetchWeek unmarshal g q t).2.result ≠ .error .indexOutOfRange ↔
      ∀ e ∈ (unmarshal (body t.chunks)).2.events, Shaped e := by
  rw [forall_shaped_iff, fetchWeek_eq, weekFetch]
  cases (unmarshal (body t.chunks)).2.events.mapM eventMatch <;> simp

theorem result_eq_ok_iff (g : Globals) (q : Query) (t : Transfer) {ms : List NFLMatch} :
    (fetchWeek unmarshal g q t).2.result = .ok ms ↔
      (unmarshal (body t.chunks)).2.events.mapM eventMatch = some ms := by
  rw [fetchWeek_eq, weekFetch]
  cases (unmarshal (body t.chunks)).2.events.mapM eventMatch <;> simp

/-- A decoded scoreboard is mapped without an index out of range exactly when all its
events are shaped, and then each event gets its own match, in order. -/
theorem scoreboard_mapping (g : Globals) (q : Query) (t : Transfer) (root : EspnRoot)
    (hroot : unmarshal (body t.chunks) = (none, root)) :
    ((fetchWeek unmarshal g q t).2.result ≠ .error .indexOutOfRange ↔
      ∀ e ∈ root.events, Shaped e) ∧
    ((∀ e ∈ root.events, Shaped e) → ∃ ms, (fetchWeek unmarshal g q t).2.result = .ok ms ∧
      ms.length = root.events.length ∧
      (∀ i (he : i < root.events.length) (hm : i < ms.length),
        ms[i] ≠ .zero ∧ ∃ c away home, MatchOf root.events[i] c away home ms[i]) ∧
      ∀ i j (hi : i < root.events.length) (hj : j < root.events.length)
        (hmi : i < ms.length) (hmj : j < ms.length),
        root.events[i].id ≠ root.events[j].id → ms[i].id ≠ ms[j].id) := by
  have hroot' : (unmarshal (body t.chunks)).2 = root := by rw [hroot]
  refine ⟨by rw [result_ne_error_iff, hroot'], fun hshaped => ?_⟩
  obtain ⟨ms, hms⟩ := forall_shaped_iff.mp hshaped
  obtain ⟨hlen, hget⟩ := List.forall₂_iff_get.mp (mapM_eq_some_iff.mp hms)
  have hmatch : ∀ i (he : i < root.events.length) (hm : i < ms.length),
      ∃ c away home, MatchOf root.events[i] c away home ms[i] :=
    fun i he hm => matchOf_of_eventMatch (hget i he hm)
  refine ⟨ms, (result_eq_ok_iff unmarshal g q t).mpr (by rw [hroot', hms]), hlen.symm, ?_, ?_⟩
  · intro i he hm
    obtain ⟨c, away, home, hof⟩ := hmatch i he hm
    refine ⟨fun hzero => ?_, c, away, home, hof⟩
    have hid := hof.id
    rw [hzero] at hid
    exact Lib.decimal_ne_nil _ hid.symm
  · intro i j hi hj hmi hmj hne hid
    obtain ⟨c, away, home, hof⟩ := hmatch i hi hmi
    obtain ⟨c', away', home', hof'⟩ := hmatch j hj hmj
    rw [hof.id, hof'.id] at hid
    exact hne (Int64.toInt_inj.mp (Lib.decimal_injective hid))

section

variable (minute : UtcMinute)

def oneGame : Bytes :=
  ascii "\x7b\"events\":[\x7b\"id\":7,\"competitions\":[\x7b\"date\":\"" ++ minute.text ++
    ascii "\",\"competitors\":[\x7b\"team\":\x7b\"abbreviation\":\"GB\"\x7d,\"score\":\"22\"\x7d," ++
    ascii "\x7b\"team\":\x7b\"abbreviation\":\"CHI\"\x7d,\"score\":\"24\"\x7d]\x7d]\x7d]\x7d"

def away : EspnCompetitior := ⟨⟨[], ascii "GB"⟩, ascii "22"⟩

def home : EspnCompetitior := ⟨⟨[], ascii "CHI"⟩, ascii "24"⟩

def oneGameRoot : EspnRoot := ⟨[⟨7, [⟨minute.text, [away, home]⟩]⟩]⟩

def oneGameMatch : NFLMatch :=
  toMatch ⟨7, [⟨minute.text, [away, home]⟩]⟩ ⟨minute.text, [away, home]⟩ away home

/-- What decoding does on that text. -/
def decodeOneGame (text : Bytes) : Option Unit × EspnRoot :=
  if text = oneGame minute then (none, oneGameRoot minute) else (some (), ⟨[]⟩)

def oneGameChunk : Chunk :=
  ⟨oneGame minute, by
    have hlen : (oneGame minute).length ≤ 200 := by
      simp only [oneGame, ascii, List.length_append, List.length_map, UtcMinute.length_text]
      simp
    exact hlen.trans_lt (by decide)⟩

theorem decodeOneGame_body :
    decodeOneGame minute (body [oneGameChunk minute]) = (none, oneGameRoot minute) := by
  simp [decodeOneGame, body, oneGameChunk]

theorem fetchWeek_oneGame (g : Globals) (q : Query) (code : CURLcode) :
    (fetchWeek (decodeOneGame minute) g q ⟨[oneGameChunk minute], code⟩).2.result =
      .ok [oneGameMatch minute] := by
  rw [result_eq_ok_iff, decodeOneGame_body]
  rfl

end

def kickoff : UtcMinute :=
  ⟨⟨2025, 1, 5, by decide, by decide⟩, 18, 0, by decide, by decide, by decide⟩

def newYear : UtcMinute :=
  ⟨⟨2300, 1, 1, by decide, by decide⟩, 0, 0, by decide, by decide, by decide⟩

/-- Two games, the one with the longer id first. -/
def twoGames : Bytes :=
  ascii "\x7b\"events\":[\x7b\"id\":401671,\"competitions\":[\x7b\"date\":\"2025-01-05T18:00Z\"," ++
    ascii "\"competitors\":[\x7b\"team\":\x7b\"abbreviation\":\"GB\"\x7d,\"score\":\"22\"\x7d," ++
    ascii "\x7b\"team\":\x7b\"abbreviation\":\"CHI\"\x7d,\"score\":\"24\"\x7d]\x7d]\x7d," ++
    ascii "\x7b\"id\":7,\"competitions\":[\x7b\"date\":\"2025-01-05T18:00Z\"," ++
    ascii "\"competitors\":[\x7b\"team\":\x7b\"abbreviation\":\"CHI\"\x7d,\"score\":\"24\"\x7d," ++
    ascii "\x7b\"team\":\x7b\"abbreviation\":\"GB\"\x7d,\"score\":\"22\"\x7d]\x7d]\x7d]\x7d"

def twoGamesRoot : EspnRoot :=
  ⟨[⟨401671, [⟨kickoff.text, [away, home]⟩]⟩, ⟨7, [⟨kickoff.text, [home, away]⟩]⟩]⟩

def decodeTwoGames (text : Bytes) : Option Unit × EspnRoot :=
  if text = twoGames then (none, twoGamesRoot) else (some (), ⟨[]⟩)

/-- The second id is written over the longer first one. -/
theorem scoreboard_mapping_two_games :
    ∃ chunk : Chunk, chunk.data = twoGames ∧ ∃ m₁ m₂,
      (fetchWeek decodeTwoGames init ⟨2024, 2, 18⟩ ⟨[chunk], .OK⟩).2.result = .ok [m₁, m₂] ∧
        m₁.id = ascii "401671" ∧ m₂.id = ascii "7" ∧ m₁.id ≠ m₂.id := by
  have hfits : twoGames.length < UInt64.size := by
    have hlen : twoGames.length ≤ 400 := by
      simp only [twoGames, ascii, List.length_append, List.length_map]
      simp
    exact hlen.trans_lt (by decide)
  have hbody : decodeTwoGames (body [⟨twoGames, hfits⟩]) = (none, twoGamesRoot) := by
    simp [decodeTwoGames, body]
  have hshaped : ∀ e ∈ twoGamesRoot.events, Shaped e := by
    rintro e he
    rcases List.mem_pair.mp he with rfl | rfl <;> exact ⟨_, rfl, Nat.le_refl 2⟩
  obtain ⟨ms, hok, hlen, hmatch, hdistinct⟩ := (scoreboard_mapping decodeTwoGames init
    ⟨2024, 2, 18⟩ ⟨[⟨twoGames, hfits⟩], .OK⟩ _ hbody).2 hshaped
  obtain ⟨m₁, m₂, rfl⟩ := List.length_eq_two.mp hlen
  have hzero : 0 < [m₁, m₂].length := Nat.zero_lt_two
  have hone : 1 < [m₁, m₂].length := Nat.one_lt_two
  obtain ⟨-, _, _, _, h₁⟩ := hmatch 0 (by decide) hzero
  obtain ⟨-, _, _, _, h₂⟩ := hmatch 1 (by decide) hone
  refine ⟨⟨twoGames, hfits⟩, rfl, m₁, m₂, hok, h₁.id.trans ?_, h₂.id.trans ?_, ?_⟩
  · decide
  · decide
  · exact hdistinct 0 1 (by decide) (by decide) hzero hone (by decide)

/-- A game in 2300 starts later than a `Time` reaches; its match starts at the epoch. -/
theorem late_game_start :
    newYear.text = ascii "2300-01-01T00:00Z" ∧
      decodeOneGame newYear (body [oneGameChunk newYear]) = (none, oneGameRoot newYear) ∧
      ∃ m, (fetchWeek (decodeOneGame newYear) init ⟨2299, 2, 18⟩
          ⟨[oneGameChunk newYear], .OK⟩).2.result = .ok [m] ∧
        m.startTime.nsec.toInt ≠ newYear.instant := by
  refine ⟨rfl, decodeOneGame_body newYear, _, fetchWeek_oneGame newYear init ⟨2299, 2, 18⟩ .OK, ?_⟩
  have hinstant : newYear.instant = 10413792000000000000 :=
    (nanoseconds_eq newYear).symm.trans (by decide)
  have hlate : ¬ newYear.Representable := by
    unfold UtcMinute.Representable
    omega
  have hstart : (oneGameMatch newYear).startTime = ⟨0⟩ := by
    rw [oneGameMatch, toMatch_startTime rfl, if_neg hlate]
  rw [hstart, hinstant]
  decide

/-- After a failed transfer or a decode error the call returns no matches exactly when
the decoder left no events: neither is looked at. -/
theorem fetch_week_error_iff (g : Globals) (q : Query) (t : Transfer) :
    ((t.code ≠ .OK ∨ (unmarshal (body t.chunks)).1 ≠ none) →
        (fetchWeek unmarshal g q t).2.result = .ok []) ↔
      (t.code = .OK ∧ (unmarshal (body t.chunks)).1 = none) ∨
        (unmarshal (body t.chunks)).2.events = [] := by
  have hempty : (fetchWeek unmarshal g q t).2.result = .ok [] ↔
      (unmarshal (body t.chunks)).2.events = [] := by
    rw [result_eq_ok_iff, mapM_eq_some_iff, List.forall₂_nil_right_iff]
  rw [hempty, ← not_and_or, imp_iff_not_or, not_not]

/-- An event whose id is of the wrong type stays zero and is indexed all the same, and a
connection lost behind a whole body leaves its match. -/
theorem fetch_week_error_unchecked :
    let bad : Chunk := ⟨ascii "\x7b\"events\":[\x7b\"id\":true\x7d]\x7d", by decide⟩
    let decodeBad : Bytes → Option Unit × EspnRoot := fun text =>
      if text = bad.data then (some (), ⟨[⟨0, []⟩]⟩) else (some (), ⟨[]⟩)
    (fetchWeek decodeBad init ⟨2024, 2, 18⟩ ⟨[bad], .OK⟩).2.result = .error .indexOutOfRange ∧
      ∃ m, (fetchWeek (decodeOneGame kickoff) init ⟨2024, 2, 18⟩
        ⟨[oneGameChunk kickoff], .RECV_ERROR⟩).2.result = .ok [m] := by
  intro bad decodeBad
  refine ⟨?_, _, fetchWeek_oneGame kickoff init ⟨2024, 2, 18⟩ .RECV_ERROR⟩
  rw [fetchWeek_eq]
  rfl

end GrebballPlus.Football
