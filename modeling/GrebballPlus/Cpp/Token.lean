import GrebballPlus.Cpp.Agree
import GrebballPlus.Gateway.Discord

/-! The bot token of the two programs. `load_config` takes what the first line sets,
whatever its name; the header of `discord_gateway` carries what the last line sets whose
name is `DISCORD_TOKEN`. -/

namespace GrebballPlus.Cpp

open Strings Config Curl Gateway

def lastToken (file : Bytes) : Bytes :=
  (((lines file).filter fun l => keyOf l = BOT_TOKEN).getLast?.map valueOf).getD []

/-- `load_config` sets `bot_token` to what goes into the header, whatever `buf` held. -/
def SameToken (file : Bytes) (headers : List Bytes) : Prop :=
  ∀ buf : Bytes, buf.length = 1024 → ∃ conf, (loadConfig (textMode file) buf).conf = .ok conf ∧
    headers = [ascii "Authorization: Bot " ++ conf.botToken]

variable {file : Bytes}

theorem mem_of_mem_valueOf {l : Bytes} {b : UInt8} (h : b ∈ valueOf l) : b ∈ l :=
  (List.dropWhile_suffix _).subset (List.mem_of_mem_tail h)

theorem nul_not_mem_lastToken (hnul : NUL ∉ file) : NUL ∉ lastToken file := by
  unfold lastToken
  cases hlast : ((lines file).filter fun l => keyOf l = BOT_TOKEN).getLast? with
  | none => exact List.not_mem_nil
  | some l =>
    have hl : l ∈ lines file := List.mem_of_mem_filter (List.mem_of_getLast? hlast)
    exact fun hm => hnul (mem_of_mem_lines hl (mem_of_mem_valueOf hm))

theorem firstLineEnded_of_cons {l l' : Bytes} {ls : List Bytes}
    (h : lines file = l :: l' :: ls) : FirstLineEnded file := by
  obtain ⟨tail, hfile, -⟩ := trimRight_append file [CR, LF]
  have hclosed := closed_trimRight file
  have hlines := h
  rw [lines_eq] at hlines
  generalize trimRight file [CR, LF] = t at hfile hclosed hlines
  by_cases hc : LF ∈ t
  · obtain ⟨pre, post, rfl, hpre⟩ := List.eq_append_cons_of_mem hc
    rw [linesOf_append_cons hpre hclosed.tail.1] at hlines
    obtain ⟨rfl, -⟩ := List.cons.inj hlines
    refine ⟨_, _, h, ?_⟩
    rw [hfile, List.append_assoc, List.cons_append]
    rcases eq_trimCr_or pre with ⟨heq, -⟩ | heq
    · rw [← heq]
      exact Or.inl ⟨post ++ tail, by simp⟩
    · refine Or.inr ⟨post ++ tail, ?_⟩
      conv_rhs => rw [heq]
      simp
  · rcases eq_or_ne t [] with rfl | ht
    · simp [linesOf] at hlines
    · rw [linesOf_of_not_mem hc ht] at hlines
      cases hlines

theorem not_agrees_of_no_line (hlen : file.length ≤ 1024) (hl : lines file = []) (w : Bytes) :
    ¬ Agrees file w := by
  intro hagree
  obtain ⟨tail, hfile, htail⟩ := trimRight_append file [CR, LF]
  have hempty : trimRight file [CR, LF] = [] := by
    by_contra hne
    rw [lines_eq, linesOf, if_neg hne, List.map_eq_nil_iff] at hl
    exact List.splitOn_ne_nil _ _ hl
  rw [hempty, List.nil_append] at hfile
  have heq : EQ ∉ file := by
    rw [hfile]
    exact fun hm => absurd (htail EQ hm) (by decide)
  have hbuf : (List.replicate 1024 (0 : UInt8)).length = 1024 := List.length_replicate
  obtain ⟨conf, hconf, -⟩ := hagree _ hbuf
  have hnone : EQ ∉ textMode file ++
      (List.replicate 1024 (0 : UInt8)).drop (textMode file).length := by
    intro hm
    rcases List.mem_append.mp hm with hm | hm
    · exact heq (mem_of_mem_textMode hm)
    · exact not_mem_drop_zeros (by decide) _ hm
  rw [loadConfig_textMode hlen hbuf, scanBuf, scan_of_not_mem hnone] at hconf
  cases hconf

theorem value_of_agrees (hlen : file.length ≤ 1024) (hnul : NUL ∉ file) {pre v rest : Bytes}
    (hpre : EQ ∉ pre) (hlf : LF ∉ pre ++ EQ :: v)
    (htext : textMode file = pre ++ EQ :: (v ++ LF :: rest)) {w : Bytes}
    (hagree : Agrees file w) : v = w ∧ v.length ≤ 255 := by
  have hbuf : (List.replicate 1024 (0 : UInt8)).length = 1024 := List.length_replicate
  have hlfv : LF ∉ v := fun hm => hlf (List.mem_append_right _ (List.mem_cons_of_mem _ hm))
  have hall : v.takeWhile (· ≠ NUL) = v := by
    apply takeWhile_of_not_mem
    intro hm
    apply hnul
    apply mem_of_mem_textMode
    rw [htext]
    exact List.mem_append_right _ (List.mem_cons_of_mem _ (List.mem_append_left _ hm))
  obtain ⟨conf, hconf, rfl⟩ := hagree _ hbuf
  rw [loadConfig_textMode hlen hbuf, scanBuf_field ⟨htext, hpre, hlfv⟩] at hconf
  have htoken : conf.botToken = v := (strncpyS_fits hconf).trans hall
  have hfits := conf.fits
  rw [htoken] at hfits
  exact ⟨htoken.symm, Nat.le_of_lt_succ hfits⟩

theorem lastToken_of_line {l : Bytes} (hl : lines file = [l]) :
    lastToken file = valueOf l ∨ lastToken file = [] := by
  unfold lastToken
  rw [hl]
  by_cases hkey : keyOf l = BOT_TOKEN
  · exact Or.inl (by simp [hkey])
  · exact Or.inr (by simp [hkey])

theorem agrees_lastToken_iff (hlen : file.length ≤ 1024) (hnul : NUL ∉ file) (hz : CTRLZ ∉ file)
    (hall : ∀ l ∈ lines file, EQ ∈ l) :
    Agrees file (lastToken file) ↔ FirstLineEnded file ∧ ∃ l, (lines file).head? = some l ∧
      valueOf l = lastToken file ∧ (valueOf l).length ≤ 255 := by
  cases hl : lines file with
  | nil =>
    refine iff_of_false (not_agrees_of_no_line hlen hl _) ?_
    rintro ⟨-, l, hhead, -⟩
    cases hhead
  | cons l ls =>
    obtain ⟨pre, v, rfl, hpre⟩ := List.eq_append_cons_of_mem (hall l (by simp [hl]))
    obtain ⟨hlf, hcases⟩ := first_line_cases hl
    simp only [List.head?_cons, Option.some.injEq, exists_eq_left', valueOf_append_cons hpre]
    -- a first line with its end behind it
    have hended : ∀ cr more, file = pre ++ EQ :: v ++ (cr ++ LF :: more) →
        (cr = [] ∧ (pre ++ EQ :: v).getLast? ≠ some CR ∨ cr = [CR]) → FirstLineEnded file →
        (Agrees file (lastToken file) ↔
          FirstLineEnded file ∧ v = lastToken file ∧ v.length ≤ 255) := by
      intro cr more hfile hcr hend
      refine ⟨fun hagree => ⟨hend, ?_⟩, fun ⟨_, heq, hfit⟩ => ?_⟩
      · exact value_of_agrees hlen hnul hpre hlf (textMode_line_end hz hlf hfile hcr) hagree
      · rw [← heq]
        exact agrees_of_line_end hlen hnul hz hfit hpre hlf hfile hcr
    rcases hcases with ⟨more, hfile, hcr⟩ | ⟨more, hfile⟩ | ⟨hcr, tail, hfile, htail⟩
    · refine hended [] more hfile (Or.inl ⟨rfl, hcr⟩) ⟨_, ls, hl, Or.inl ⟨more, ?_⟩⟩
      rw [hfile, List.append_assoc, List.singleton_append]
    · refine hended [CR] more hfile (Or.inr rfl) ⟨_, ls, hl, Or.inr ⟨more, ?_⟩⟩
      rw [hfile, List.append_assoc]
      rfl
    · -- a first line without one is the only line
      have hnot := not_ended_of_tail hl hfile htail
      refine iff_of_false (fun hagree => ?_) fun h => hnot h.1
      have hone : lines file = [pre ++ EQ :: v] := by
        cases ls with
        | nil => exact hl
        | cons l' ls => exact absurd (firstLineEnded_of_cons hl) hnot
      have hzl : CTRLZ ∉ pre ++ EQ :: v := fun hm =>
        hz (by rw [hfile]; exact List.mem_append_left _ hm)
      have htext : textMode file = pre ++ EQ :: v ++ textMode tail := by
        conv_lhs => rw [hfile]
        exact textMode_append hlf hzl (Or.inl hcr)
      have hrest : textMode tail = [] ∨ (textMode tail).head? = some CR := by
        rcases htail with rfl | ⟨more, rfl, hmore⟩
        · exact Or.inl rfl
        · exact Or.inr (by rw [textMode_cr hmore]; rfl)
      obtain ⟨run, hrun⟩ := token_of_cr hlen hnul hpre hlf htext hrest hagree
      rcases lastToken_of_line hone with hlast | hlast
      · rw [hlast, valueOf_append_cons hpre] at hrun
        have hlength := congrArg List.length hrun
        simp at hlength
      · rw [hlast] at hrun
        simp at hrun

/-- From one file the two programs get one token exactly when its first line is ended,
fits in `bot_token` and sets what the last `DISCORD_TOKEN` line sets. -/
theorem same_token_iff {ε : Type} (unmarshal : Bytes → Option ε × GatewayRes) {s : Store}
    (hlen : file.length ≤ 1024) (hnul : NUL ∉ file) (hz : CTRLZ ∉ file)
    (hs : Config.init (some (.whole file)) = .ok s) (t : Transfer) :
    SameToken file (discordGateway unmarshal s.table t).headers ↔
      FirstLineEnded file ∧ ∃ l, (lines file).head? = some l ∧ valueOf l = lastToken file ∧
        (valueOf l).length ≤ 255 := by
  obtain ⟨hall, -, -⟩ := init_eq_ok hs
  obtain ⟨s', hs', -, hfind⟩ := init_lookup hall
  obtain rfl : s' = s := Except.ok.inj (hs'.symm.trans hs)
  have htoken : lookupTable s'.table BOT_TOKEN = lastToken file := by
    rw [lookupTable, hfind, lastToken]
  rw [← agrees_lastToken_iff hlen hnul hz hall, discordGateway_eq, htoken,
    takeWhile_of_not_mem (nul_not_mem_lastToken hnul)]
  simp only [SameToken, Agrees, List.cons.injEq, and_true, List.append_cancel_left_eq, eq_comm]

def tokenFile : Bytes := ascii "DISCORD_TOKEN=abc\n"

theorem same_token_one_line :
    ∃ s, Config.init (some (.whole tokenFile)) = .ok s ∧
      SameToken tokenFile (discordGateway noResponse s.table ⟨[], .OK⟩).headers := by
  have hs : Config.init (some (.whole tokenFile)) = .ok _ := rfl
  refine ⟨_, hs, (same_token_iff noResponse (by decide) (by decide) (by decide) hs ⟨[], .OK⟩).mpr
    ⟨?_, ?_⟩⟩
  · exact ⟨ascii "DISCORD_TOKEN=abc", [], by decide, Or.inl ⟨[], by decide⟩⟩
  · exact ⟨ascii "DISCORD_TOKEN=abc", by decide, by decide, by decide⟩

end GrebballPlus.Cpp
