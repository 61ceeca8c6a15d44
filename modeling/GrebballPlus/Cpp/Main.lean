import GrebballPlus.Cpp.Agree
import GrebballPlus.Cpp.TestCurl
import GrebballPlus.Gateway.WebSocket

/-! `main` of `main.cpp`: the config is loaded, a scoreboard fetched and one message of
the gateway logged. Two arrays are read to a mark that nothing puts there, so what the
program does hangs on what the arrays held. -/

namespace GrebballPlus.Cpp

open Curl Gateway

/-- What `curl_ws_recv` stores in `char buffer[1024]`; nothing where it fails. -/
structure HelloRecv where
  code : CURLcode
  data : Bytes
  fits : data.length ≤ 1024
  failed : code ≠ .OK → data = []

/-- `%s`: the bytes before the first NUL, which has to stand in the array. -/
def printString (array : Bytes) : Except Fault Bytes :=
  match (scan NUL 0 array).stop with
  | none => .error .outOfBounds
  | some i => .ok (array.take i)

/-- `test_websocket`: the message it logs, and the frame it sends. -/
def testWebsocket (r : HelloRecv) (buffer : Bytes) : Except Fault (Bytes × WsSend) := do
  let text ← printString (r.data ++ buffer.drop r.data.length)
  return (text, ⟨[], 0, CURLWS_CLOSE⟩)

structure Output where
  token : Bytes
  url : Bytes
  response : Bytes
  code : CURLcode
  message : Bytes
  sent : WsSend

/-- `main`, with the arrays `buf` and `buffer` as the stack has them. -/
def main (file : Bytes) (t : Transfer) (r : HelloRecv) (buf buffer : Bytes) :
    Except Fault Output := do
  let conf ← (loadConfig (textMode file) buf).conf
  let (url, response, code) := testCurl t
  let (message, sent) ← testWebsocket r buffer
  return ⟨conf.botToken, url, response, code, message, sent⟩

theorem printString_append {s : Bytes} (h : NUL ∈ s) (rest : Bytes) :
    printString (s ++ rest) = .ok (s.takeWhile (· ≠ NUL)) := by
  obtain ⟨pre, post, rfl, hpre⟩ := List.eq_append_cons_of_mem h
  rw [takeWhile_append_cons hpre, List.append_assoc, List.cons_append, printString,
    scan_append_cons hpre, Nat.zero_add]
  exact congrArg _ (List.take_left' rfl)

theorem printString_of_not_mem {array : Bytes} (h : NUL ∉ array) :
    printString array = .error .outOfBounds := by
  rw [printString, scan_of_not_mem h]

theorem testWebsocket_ok {r : HelloRecv} (h : NUL ∈ r.data) (buffer : Bytes) :
    testWebsocket r buffer = .ok (r.data.takeWhile (· ≠ NUL), close) := by
  rw [testWebsocket, printString_append h]
  rfl

theorem testWebsocket_error {r : HelloRecv} (h : NUL ∉ r.data) :
    testWebsocket r (List.replicate 1024 1) = .error .outOfBounds := by
  rw [testWebsocket, printString_of_not_mem]
  · rfl
  · intro hm
    rcases List.mem_append.mp hm with hm | hm
    · exact h hm
    · exact absurd (List.eq_of_mem_replicate (List.mem_of_mem_drop hm)) (by decide)

theorem scanBuf_open {pre rest : Bytes} (hpre : EQ ∉ pre) (hlf : LF ∉ rest) :
    (scanBuf (pre ++ EQ :: rest)).conf = .error .outOfBounds := by
  have hdrop : (pre ++ EQ :: rest).drop (pre.length + 1) = rest := by
    rw [List.append_cons]
    exact List.drop_left' (by simp)
  simp only [scanBuf, scan_append_cons hpre, Nat.zero_add, hdrop, scan_of_not_mem hlf]

theorem inDomain_of_zeros {content : Bytes} {conf : GppConfig}
    (h : (loadConfig content (List.replicate 1024 0)).conf = .ok conf) :
    InDomain (content.take 1024) := by
  have hbuf : (List.replicate 1024 (0 : UInt8)).length = 1024 := List.length_replicate
  rw [loadConfig_eq hbuf] at h
  have hzeros : ∀ b : UInt8, b ≠ 0 →
      b ∉ (List.replicate 1024 (0 : UInt8)).drop (content.take 1024).length :=
    fun b hb => not_mem_drop_zeros hb _
  generalize content.take 1024 = text, (List.replicate 1024 (0 : UInt8)).drop _ = zeros
    at h hzeros ⊢
  by_cases heq : EQ ∈ text
  · obtain ⟨pre, post, rfl, hpre⟩ := List.eq_append_cons_of_mem heq
    by_cases hlf : LF ∈ post
    · obtain ⟨token, post', rfl, htoken⟩ := List.eq_append_cons_of_mem hlf
      have hf : Field (pre ++ EQ :: (token ++ LF :: post')) pre token post' := ⟨rfl, hpre, htoken⟩
      rw [scanBuf_field hf] at h
      have hfits := conf.fits
      rw [strncpyS_fits h] at hfits
      exact ⟨pre, token, post', hf, Nat.le_of_lt_succ hfits⟩
    · have hopen : LF ∉ post ++ zeros := by
        intro hm
        rcases List.mem_append.mp hm with hm | hm
        · exact hlf hm
        · exact hzeros LF (by decide) hm
      rw [List.append_assoc, List.cons_append, scanBuf_open hpre hopen] at h
      cases h
  · have hnone : EQ ∉ text ++ zeros := by
      intro hm
      rcases List.mem_append.mp hm with hm | hm
      · exact heq hm
      · exact hzeros EQ (by decide) hm
    rw [scanBuf, scan_of_not_mem hnone] at h
    cases h

theorem main_ok {file pre token post : Bytes} (hf : Field ((textMode file).take 1024) pre token post)
    (hfit : (token.takeWhile (· ≠ NUL)).length ≤ 255) {r : HelloRecv} (hnul : NUL ∈ r.data)
    (t : Transfer) {buf : Bytes} (hbuf : buf.length = 1024) (buffer : Bytes) :
    main file t r buf buffer = .ok ⟨token.takeWhile (· ≠ NUL), sprintfUrl 2024 3 1, body t.chunks,
      t.code, r.data.takeWhile (· ≠ NUL), close⟩ := by
  obtain ⟨conf, hconf, htoken⟩ := loadConfig_ok hf hfit hbuf
  obtain ⟨hres, hcode⟩ := easyPerform_spec writeRes_appends t.chunks t.code []
  rw [id, id, List.nil_append] at hres
  simp only [main, hconf, testWebsocket_ok hnul, testCurl, hres, hcode, htoken, bind, Except.bind,
    pure, Except.pure]

/-- The program gets through whatever its arrays held before exactly when the config has a
token that fits and the message a NUL; then it does not depend on what they held. -/
theorem main_defined (file : Bytes) (t : Transfer) (r : HelloRecv) :
    ((∀ buf buffer : Bytes, buf.length = 1024 → buffer.length = 1024 →
        ∃ out, main file t r buf buffer = .ok out) ↔
      InDomain ((textMode file).take 1024) ∧ NUL ∈ r.data) ∧
    ∀ pre token post, Field ((textMode file).take 1024) pre token post →
      (token.takeWhile (· ≠ NUL)).length ≤ 255 → NUL ∈ r.data →
      ∀ buf buffer : Bytes, buf.length = 1024 → buffer.length = 1024 →
        main file t r buf buffer = .ok ⟨token.takeWhile (· ≠ NUL), sprintfUrl 2024 3 1,
          body t.chunks, t.code, r.data.takeWhile (· ≠ NUL), close⟩ := by
  refine ⟨⟨fun h => ?_, ?_⟩, ?_⟩
  · obtain ⟨out, hout⟩ := h (List.replicate 1024 0) (List.replicate 1024 1)
      List.length_replicate List.length_replicate
    simp only [main, bind, Except.bind] at hout
    cases hconf : (loadConfig (textMode file) (List.replicate 1024 0)).conf with
    | error f =>
      rw [hconf] at hout
      cases hout
    | ok conf =>
      refine ⟨inDomain_of_zeros hconf, ?_⟩
      by_contra hnul
      rw [hconf, testWebsocket_error hnul] at hout
      cases hout
  · rintro ⟨⟨pre, token, post, hf, hfit⟩, hnul⟩ buf buffer hbuf -
    exact ⟨_, main_ok hf hfit hnul t hbuf buffer⟩
  · intro pre token post hf hfit hnul buf buffer hbuf _
    exact main_ok hf hfit hnul t hbuf buffer

end GrebballPlus.Cpp
