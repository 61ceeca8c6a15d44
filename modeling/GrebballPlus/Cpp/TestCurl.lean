import GrebballPlus.Football.History

/-! `test_curl` of `main.cpp`, the first form of `fetch_week`: one fixed week, fetched
into a `std::string`. It sends the request `fetch_week` sends for that week and collects
the same response. -/

namespace GrebballPlus.Cpp

open Curl Football

/-- `write_res`: appends `size * len` bytes to the string. -/
def writeRes (contents : Bytes) (size len : UInt64) (res : Bytes) : Bytes × UInt64 :=
  (res ++ contents.take (size * len).toNat, size * len)

def sprintfUrl (dates seasontype week : Int32) : Bytes :=
  ascii "https://site.api.espn.com/apis/site/v2/sports/football/nfl/scoreboard?dates=" ++
    Lib.decimal dates.toInt ++ ascii "&seasontype=" ++ Lib.decimal seasontype.toInt ++
    ascii "&week=" ++ Lib.decimal week.toInt

def testCurl (t : Transfer) : Bytes × Bytes × CURLcode :=
  (sprintfUrl 2024 3 1, easyPerform writeRes t.chunks t.code [])

theorem writeRes_appends : Appends writeRes id := by
  intro c res
  simp only [writeRes, UInt64.one_mul, toNat_length, List.take_length, id_eq, and_self]

theorem sprintfUrl_eq (dates seasontype week : Int32) :
    sprintfUrl dates seasontype week =
      weekUrl ⟨dates.toInt64, seasontype.toInt64, week.toInt64⟩ := by
  have hbase : ascii "https://site.api.espn.com/apis/site/v2/sports/football/nfl/scoreboard?dates=" =
      URL_BASE ++ ascii "?dates=" := by
    rw [URL_BASE, ← ascii_append]
    rfl
  unfold sprintfUrl weekUrl
  rw [hbase, Strconv.appendInt_eq, Strconv.appendInt_eq, Strconv.appendInt_eq]
  simp

theorem length_sprintfUrl_lt (dates seasontype week : Int32) :
    (sprintfUrl dates seasontype week).length < 512 := by
  have hd := Strconv.length_appendInt_le dates.toInt64
  have hs := Strconv.length_appendInt_le seasontype.toInt64
  have hw := Strconv.length_appendInt_le week.toInt64
  have hbase : URL_BASE.length = 69 := rfl
  have hdates : (ascii "?dates=").length = 7 := rfl
  have htype : (ascii "&seasontype=").length = 12 := rfl
  have hweek : (ascii "&week=").length = 6 := rfl
  rw [sprintfUrl_eq]
  simp only [weekUrl, List.length_append, hbase, hdates, htype, hweek]
  omega

/-- The two programs agree on the week, from any state of the Odin package. -/
theorem testCurl_eq {ε : Type} (unmarshal : Bytes → Option ε × EspnRoot) (g : Globals)
    (t : Transfer) :
    testCurl t = ((fetchWeek unmarshal g ⟨2024, 3, 1⟩ t).2.sent,
      (fetchWeek unmarshal g ⟨2024, 3, 1⟩ t).1.response.buf, t.code) := by
  obtain ⟨hres, hcode⟩ := easyPerform_spec writeRes_appends t.chunks t.code []
  have hbuf := (buf_fetchWeek unmarshal g ⟨2024, 3, 1⟩ t).2
  have hsent : (fetchWeek unmarshal g ⟨2024, 3, 1⟩ t).2.sent = weekUrl ⟨2024, 3, 1⟩ := by
    rw [fetchWeek_eq]
    rfl
  have hurl : sprintfUrl 2024 3 1 = weekUrl ⟨2024, 3, 1⟩ := sprintfUrl_eq 2024 3 1
  rw [testCurl, hsent, hbuf, hurl]
  exact congrArg _ (Prod.ext hres hcode)

end GrebballPlus.Cpp
