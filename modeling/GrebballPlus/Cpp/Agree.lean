import GrebballPlus.Config.Grammar
import GrebballPlus.Cpp.LoadConfig

/-! The two config readers on one file. `load_config` returns the value `config.init`
takes from the first line exactly when that line is followed by LF or CRLF: a scan for
LF neither notices the end of the file nor trims a run of CRs. -/

namespace GrebballPlus.Cpp

open Strings Config

def CTRLZ : UInt8 := 26

/-- What a stream opened with mode `"r"` delivers: CRLF is read as LF, and CTRL-Z ends
the file. -/
def textMode : Bytes → Bytes
  | [] => []
  | b :: file =>
    if b = CTRLZ then []
    else if b = CR ∧ file.head? = some LF then textMode file
    else b :: textMode file

/-- The value the loop of `config.init` takes from the first line: its second copy. -/
def firstValue (s : Store) : Option Bytes := s.log[1]?.map Copy.text

/-- `load_config` returns `v`, whatever `buf` held before. -/
def Agrees (file v : Bytes) : Prop :=
  ∀ buf : Bytes, buf.length = 1024 →
    ∃ conf, (loadConfig (textMode file) buf).conf = .ok conf ∧ conf.botToken = v

def FirstLineEnded (file : Bytes) : Prop :=
  ∃ l ls, lines file = l :: ls ∧ (l ++ [LF] <+: file ∨ l ++ [CR, LF] <+: file)

theorem length_textMode_le (file : Bytes) : (textMode file).length ≤ file.length := by
  induction file with
  | nil => rfl
  | cons b file ih =>
    unfold textMode
    split_ifs
    · exact Nat.zero_le _
    · exact Nat.le_succ_of_le ih
    · exact Nat.succ_le_succ ih

theorem mem_of_mem_textMode {b : UInt8} {file : Bytes} (h : b ∈ textMode file) : b ∈ file := by
  induction file with
  | nil => cases h
  | cons c file ih =>
    unfold textMode at h
    split_ifs at h
    · cases h
    · exact List.mem_cons_of_mem _ (ih h)
    · rcases List.mem_cons.mp h with rfl | h
      · exact List.mem_cons_self
      · exact List.mem_cons_of_mem _ (ih h)

theorem textMode_append {l x : Bytes} (hlf : LF ∉ l) (hz : CTRLZ ∉ l)
    (hx : l.getLast? ≠ some CR ∨ x.head? ≠ some LF) : textMode (l ++ x) = l ++ textMode x := by
  induction l with
  | nil => rfl
  | cons b l ih =>
    rw [List.mem_cons, not_or] at hlf hz
    have hkeep : ¬ (b = CR ∧ (l ++ x).head? = some LF) := by
      rintro ⟨rfl, hhead⟩
      cases l with
      | nil => simp_all
      | cons c l =>
        simp only [List.cons_append, List.head?_cons, Option.some.injEq] at hhead
        simp [hhead] at hlf
    rw [List.cons_append, textMode, if_neg (Ne.symm hz.1), if_neg hkeep, List.cons_append]
    apply congrArg (b :: ·)
    apply ih hlf.2 hz.2
    cases l with
    | nil => simp
    | cons c l => simpa [List.getLast?_cons_cons] using hx

theorem textMode_lf (x : Bytes) : textMode (LF :: x) = LF :: textMode x := by
  rw [textMode, if_neg (by decide), if_neg (by simp [LF, CR])]

theorem textMode_crlf (x : Bytes) : textMode (CR :: LF :: x) = LF :: textMode x := by
  rw [textMode, if_neg (by decide), if_pos (by simp), textMode_lf]

theorem textMode_cr {x : Bytes} (hx : x.head? ≠ some LF) :
    textMode (CR :: x) = CR :: textMode x := by
  rw [textMode, if_neg (by decide), if_neg (by simp [hx])]

/-- How the first line stands in the file: LF behind it, CRLF behind it, or nothing
but the CRs and LFs that `config.init` trims, and these do not begin with a line end. -/
theorem first_line_cases {file l : Bytes} {ls : List Bytes} (h : lines file = l :: ls) :
    LF ∉ l ∧ ((∃ more, file = l ++ LF :: more ∧ l.getLast? ≠ some CR) ∨
      (∃ more, file = l ++ CR :: LF :: more) ∨
      (l.getLast? ≠ some CR ∧ ∃ tail, file = l ++ tail ∧
        (tail = [] ∨ ∃ more, tail = CR :: more ∧ more.head? ≠ some LF))) := by
  obtain ⟨tail, hfile, htail⟩ := trimRight_append file [CR, LF]
  have hlast : (trimRight file [CR, LF]).getLast? ≠ some CR :=
    fun h' => trimRight_getLast h' (by decide)
  have hclosed := closed_trimRight file
  rw [lines_eq] at h
  generalize trimRight file [CR, LF] = t at hfile hlast hclosed h
  have ht : t ≠ [] := by
    rintro rfl
    simp [linesOf] at h
  by_cases hc : LF ∈ t
  · obtain ⟨pre, post, rfl, hpre⟩ := List.eq_append_cons_of_mem hc
    rw [linesOf_append_cons hpre hclosed.tail.1] at h
    obtain ⟨rfl, -⟩ := List.cons.inj h
    refine ⟨fun hm => hpre (mem_trimCr hm), ?_⟩
    rw [List.append_assoc, List.cons_append] at hfile
    rcases eq_trimCr_or pre with ⟨heq, hcr⟩ | heq
    · rw [← heq]
      exact Or.inl ⟨_, hfile, hcr⟩
    · refine Or.inr (Or.inl ⟨post ++ tail, ?_⟩)
      conv_lhs => rw [hfile, heq]
      simp
  · rw [linesOf_of_not_mem hc ht, trimCr_of_getLast hlast] at h
    obtain ⟨rfl, -⟩ := List.cons.inj h
    refine ⟨hc, ?_⟩
    cases tail with
    | nil => exact Or.inr (Or.inr ⟨hlast, [], hfile, Or.inl rfl⟩)
    | cons b more =>
      have hb := htail b List.mem_cons_self
      simp only [List.mem_cons, List.not_mem_nil, or_false] at hb
      rcases hb with rfl | rfl
      · by_cases hmore : more.head? = some LF
        · obtain ⟨more', rfl⟩ := List.head?_eq_some_iff.mp hmore
          exact Or.inr (Or.inl ⟨more', hfile⟩)
        · exact Or.inr (Or.inr ⟨hlast, _, hfile, Or.inr ⟨more, rfl, hmore⟩⟩)
      · exact Or.inl ⟨more, hfile, hlast⟩

theorem not_ended_of_tail {file l tail : Bytes} {ls : List Bytes} (hl : lines file = l :: ls)
    (hfile : file = l ++ tail)
    (htail : tail = [] ∨ ∃ more, tail = CR :: more ∧ more.head? ≠ some LF) :
    ¬ FirstLineEnded file := by
  rintro ⟨l', ls', hl', hend⟩
  obtain ⟨rfl, -⟩ := List.cons.inj (hl.symm.trans hl')
  rw [hfile, List.prefix_append_right_inj, List.prefix_append_right_inj] at hend
  rcases htail with rfl | ⟨more, rfl, hmore⟩
  · simp at hend
  · rcases hend with ⟨x, hx⟩ | ⟨x, hx⟩
    · simp [LF, CR] at hx
    · simp only [List.cons_append, List.nil_append, List.cons.injEq, true_and] at hx
      rw [← hx] at hmore
      exact hmore rfl

theorem firstValue_eq {file v : Bytes} {s : Store}
    (hs : Config.init (some (.whole file)) = .ok s) (hv : firstValue s = some v) :
    ∃ l ls pre, lines file = l :: ls ∧ l = pre ++ EQ :: v ∧ EQ ∉ pre := by
  obtain ⟨hall, -, hlog⟩ := init_eq_ok hs
  rw [firstValue, hlog] at hv
  cases hl : lines file with
  | nil =>
    rw [hl] at hv
    cases hv
  | cons l ls =>
    rw [hl] at hv
    obtain ⟨pre, post, rfl, hpre⟩ := List.eq_append_cons_of_mem (hall l (by simp [hl]))
    obtain rfl : valueOf (pre ++ EQ :: post) = v := Option.some.inj hv
    rw [valueOf_append_cons hpre]
    exact ⟨_, ls, pre, rfl, rfl, hpre⟩

theorem scanBuf_no_lf {buf : Bytes} (h : LF ∉ buf) (conf : GppConfig) :
    (scanBuf buf).conf ≠ .ok conf := by
  unfold scanBuf
  dsimp only
  split
  · simp
  · rename_i i _
    rw [scan_of_not_mem fun hm => h (List.mem_of_mem_drop hm)]
    simp

section

variable {file v pre : Bytes}

theorem loadConfig_textMode (hlen : file.length ≤ 1024) {buf : Bytes} (hbuf : buf.length = 1024) :
    loadConfig (textMode file) buf =
      scanBuf (textMode file ++ buf.drop (textMode file).length) := by
  have hle := length_textMode_le file
  rw [loadConfig_eq hbuf, List.take_of_length_le (by omega)]

theorem agrees_of_lf (hlen : file.length ≤ 1024) (hnul : NUL ∉ v) (hfit : v.length ≤ 255)
    (hpre : EQ ∉ pre) (hlf : LF ∉ v) {more : Bytes}
    (htext : textMode file = pre ++ EQ :: (v ++ LF :: more)) : Agrees file v := by
  intro buf hbuf
  have hall := takeWhile_of_not_mem hnul
  rw [loadConfig_textMode hlen hbuf, scanBuf_field ⟨htext, hpre, hlf⟩]
  have htoken : (v.takeWhile (· ≠ NUL)).length ≤ 255 := by rwa [hall]
  obtain ⟨conf, hconf, htok⟩ :=
    strncpyS_ok htoken (LF :: (more ++ buf.drop (textMode file).length))
  exact ⟨conf, hconf, htok.trans hall⟩

/-- Where nothing or a CR follows it there, the scan runs off the buffer or takes the CR
into the token. -/
theorem token_of_cr (hlen : file.length ≤ 1024) (hnul : NUL ∉ file) (hpre : EQ ∉ pre)
    (hlf : LF ∉ pre ++ EQ :: v) {rest : Bytes} (htext : textMode file = pre ++ EQ :: v ++ rest)
    (hrest : rest = [] ∨ rest.head? = some CR) {w : Bytes} (hagree : Agrees file w) :
    ∃ run, w = v ++ CR :: run := by
  have hbuf : (List.replicate 1024 (0 : UInt8)).length = 1024 := List.length_replicate
  obtain ⟨conf, hconf, htok⟩ := hagree _ hbuf
  rw [loadConfig_textMode hlen hbuf] at hconf
  have hzeros : ∀ n, LF ∉ (List.replicate 1024 (0 : UInt8)).drop n :=
    not_mem_drop_zeros (by decide)
  by_cases hc : LF ∈ rest
  · obtain ⟨run, more, rfl, hrun⟩ := List.eq_append_cons_of_mem hc
    have hfield : Field (textMode file) pre (v ++ run) more := by
      refine ⟨by rw [htext]; simp, hpre, fun hm => ?_⟩
      rcases List.mem_append.mp hm with hm | hm
      · exact hlf (List.mem_append_right _ (List.mem_cons_of_mem _ hm))
      · exact hrun hm
    rw [scanBuf_field hfield] at hconf
    have hall : (v ++ run).takeWhile (· ≠ NUL) = v ++ run := by
      apply takeWhile_of_not_mem
      intro hb
      apply hnul
      apply mem_of_mem_textMode
      rw [hfield.eq, List.append_cons, ← List.append_assoc]
      exact List.mem_append_left _ (List.mem_append_right _ hb)
    rw [strncpyS_fits hconf, hall] at htok
    cases run with
    | nil =>
      rcases hrest with hrest | hrest
      · cases hrest
      · exact absurd (Option.some.inj hrest) (by decide)
    | cons b run =>
      rcases hrest with hrest | hrest
      · cases hrest
      · obtain rfl : b = CR := Option.some.inj hrest
        exact ⟨run, htok.symm⟩
  · refine absurd hconf (scanBuf_no_lf (fun hm => ?_) conf)
    rw [htext] at hm
    rcases List.mem_append.mp hm with hm | hm
    · exact (List.mem_append.mp hm).elim hlf hc
    · exact hzeros _ hm

theorem not_agrees_of_cr (hlen : file.length ≤ 1024) (hnul : NUL ∉ file) (hpre : EQ ∉ pre)
    (hlf : LF ∉ pre ++ EQ :: v) {rest : Bytes} (htext : textMode file = pre ++ EQ :: v ++ rest)
    (hrest : rest = [] ∨ rest.head? = some CR) : ¬ Agrees file v := by
  intro hagree
  obtain ⟨run, hrun⟩ := token_of_cr hlen hnul hpre hlf htext hrest hagree
  have hlength := congrArg List.length hrun
  simp at hlength

theorem textMode_line_end (hz : CTRLZ ∉ file) (hlf : LF ∉ pre ++ EQ :: v) {cr more : Bytes}
    (hfile : file = pre ++ EQ :: v ++ (cr ++ LF :: more))
    (hcr : cr = [] ∧ (pre ++ EQ :: v).getLast? ≠ some CR ∨ cr = [CR]) :
    textMode file = pre ++ EQ :: (v ++ LF :: textMode more) := by
  have hzl : CTRLZ ∉ pre ++ EQ :: v := fun hm => hz (by rw [hfile]; exact List.mem_append_left _ hm)
  rw [hfile]
  rcases hcr with ⟨rfl, hlast⟩ | rfl
  · rw [textMode_append hlf hzl (Or.inl hlast), List.nil_append, textMode_lf]
    simp
  · rw [textMode_append hlf hzl (Or.inr (by simp [CR, LF])), List.singleton_append, textMode_crlf]
    simp

theorem agrees_of_line_end (hlen : file.length ≤ 1024) (hnul : NUL ∉ file) (hz : CTRLZ ∉ file)
    (hfit : v.length ≤ 255) (hpre : EQ ∉ pre) (hlf : LF ∉ pre ++ EQ :: v) {cr more : Bytes}
    (hfile : file = pre ++ EQ :: v ++ (cr ++ LF :: more))
    (hcr : cr = [] ∧ (pre ++ EQ :: v).getLast? ≠ some CR ∨ cr = [CR]) : Agrees file v := by
  have hnulv : NUL ∉ v := fun hm => hnul (by rw [hfile]; simp [hm])
  have hlfv : LF ∉ v := fun hm => hlf (List.mem_append_right _ (List.mem_cons_of_mem _ hm))
  exact agrees_of_lf hlen hnulv hfit hpre hlfv (textMode_line_end hz hlf hfile hcr)

/-- The readers agree on a file if and only if LF or CRLF follows its first line. -/
theorem load_config_agrees_iff {s : Store} (hlen : file.length ≤ 1024) (hnul : NUL ∉ file)
    (hz : CTRLZ ∉ file) (hs : Config.init (some (.whole file)) = .ok s)
    (hv : firstValue s = some v) (hfit : v.length ≤ 255) :
    Agrees file v ↔ FirstLineEnded file := by
  obtain ⟨l, ls, pre, hl, rfl, hpre⟩ := firstValue_eq hs hv
  obtain ⟨hlf, hcases⟩ := first_line_cases hl
  rcases hcases with ⟨more, hfile, hcr⟩ | ⟨more, hfile⟩ | ⟨hcr, tail, hfile, htail⟩
  · refine iff_of_true (agrees_of_line_end hlen hnul hz hfit hpre hlf hfile
      (Or.inl ⟨rfl, hcr⟩)) ⟨_, ls, hl, Or.inl ⟨more, ?_⟩⟩
    rw [hfile, List.append_assoc, List.singleton_append]
  · refine iff_of_true (agrees_of_line_end hlen hnul hz hfit hpre hlf hfile
      (Or.inr rfl)) ⟨_, ls, hl, Or.inr ⟨more, ?_⟩⟩
    rw [hfile, List.append_assoc]
    rfl
  · have hzl : CTRLZ ∉ pre ++ EQ :: v := fun hm =>
      hz (by rw [hfile]; exact List.mem_append_left _ hm)
    have htext : textMode file = pre ++ EQ :: v ++ textMode tail := by
      conv_lhs => rw [hfile]
      exact textMode_append hlf hzl (Or.inl hcr)
    refine iff_of_false (not_agrees_of_cr hlen hnul hpre hlf htext ?_) ?_
    · rcases htail with rfl | ⟨more, rfl, hmore⟩
      · exact Or.inl rfl
      · exact Or.inr (by rw [textMode_cr hmore]; rfl)
    · exact not_ended_of_tail hl hfile htail

end

theorem load_config_agrees_ended :
    Agrees (ascii "TOKEN=abc\n") (ascii "abc") ↔ FirstLineEnded (ascii "TOKEN=abc\n") := by
  have hs : Config.init (some (.whole (ascii "TOKEN=abc\n"))) = .ok _ := rfl
  exact load_config_agrees_iff (by decide) (by decide) (by decide) hs rfl (by decide)

/-- `TOKEN=abc` without a line end: `config.init` takes `abc`, `load_config` scans off
its buffer. -/
theorem unended_line_disagrees :
    (∃ s, Config.init (some (.whole (ascii "TOKEN=abc"))) = .ok s ∧
      firstValue s = some (ascii "abc")) ∧
    (∀ b ∈ ascii "TOKEN=abc", b ≠ NUL ∧ b ≠ CTRLZ) ∧ (ascii "TOKEN=abc").length ≤ 1024 ∧
    ¬ Agrees (ascii "TOKEN=abc") (ascii "abc") := by
  have htext : textMode (ascii "TOKEN=abc") = ascii "TOKEN" ++ EQ :: ascii "abc" ++ [] := rfl
  have hnul : NUL ∉ ascii "TOKEN=abc" := by decide
  have hctrlz : CTRLZ ∉ ascii "TOKEN=abc" := by decide
  refine ⟨⟨_, rfl, rfl⟩, fun b hb => ?_, by decide, ?_⟩
  · exact ⟨ne_of_mem_of_not_mem hb hnul, ne_of_mem_of_not_mem hb hctrlz⟩
  · exact not_agrees_of_cr (by decide) (by decide) (by decide) (by decide) htext (Or.inl rfl)

end GrebballPlus.Cpp
