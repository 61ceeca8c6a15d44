import GrebballPlus.Odin.Strings

/-! `load_config` of `main.cpp`: two pointer scans over a 1024-byte buffer of which
`fread_s` filled the front, and a bounded copy into `bot_token`. The scans never look
at how much was filled, so each index read is recorded. -/

namespace GrebballPlus.Cpp

/-- How `load_config` leaves the defined part of C++: it reads off the buffer, or
`strncpy_s` calls the invalid parameter handler. -/
inductive Fault
  | outOfBounds
  | invalidParameter
deriving DecidableEq

/-- `char bot_token[256]`, as the C string it holds. -/
structure GppConfig where
  botToken : Bytes
  noNul : NUL ∉ botToken
  fits : botToken.length < 256

structure Scan where
  reads : List ℕ
  stop : Option ℕ

/-- `while(*p != c) ++p;` with `p` at index `i` and the rest of the array ahead. The
read past the end is the last one that is followed. -/
def scan (c : UInt8) : ℕ → Bytes → Scan
  | i, [] => ⟨[i], none⟩
  | i, b :: ahead =>
    if b = c then ⟨[i], some i⟩
    else ⟨i :: (scan c (i + 1) ahead).reads, (scan c (i + 1) ahead).stop⟩

theorem nul_not_mem_takeWhile (s : Bytes) : NUL ∉ s.takeWhile (· ≠ NUL) := fun h => by
  simpa using List.mem_takeWhile_imp h

/-- `strncpy_s` into `char[256]`: the first `count` bytes of `src`, or those before its
first NUL, when they leave room for a terminator. -/
def strncpyS (src : Bytes) (count : ℕ) : Except Fault GppConfig :=
  if h : ((src.take count).takeWhile (· ≠ NUL)).length < 256 then
    .ok ⟨(src.take count).takeWhile (· ≠ NUL), nul_not_mem_takeWhile _, h⟩
  else .error .invalidParameter

/-- `fread_s` stores the front of the stream; the bytes behind keep what they were. -/
def freadS (buf content : Bytes) : Bytes :=
  content.take buf.length ++ buf.drop (content.take buf.length).length

structure Load where
  reads : List ℕ
  conf : Except Fault GppConfig

def scanBuf (buf : Bytes) : Load :=
  let start := scan EQ 0 buf
  match start.stop with
  | none => ⟨start.reads, .error .outOfBounds⟩
  | some i =>
    let fin := scan LF (i + 1) (buf.drop (i + 1))
    match fin.stop with
    | none => ⟨start.reads ++ fin.reads, .error .outOfBounds⟩
    | some j => ⟨start.reads ++ fin.reads, strncpyS (buf.drop (i + 1)) (j - (i + 1))⟩

def loadConfig (content buf : Bytes) : Load := scanBuf (freadS buf content)

/-- The bytes hold a token: `token` stands between the first `=` and the first LF
after it. -/
structure Field (b pre token post : Bytes) : Prop where
  eq : b = pre ++ EQ :: (token ++ LF :: post)
  pre_eq : EQ ∉ pre
  token_lf : LF ∉ token

/-- The domain of `load_config`: there is a token, and what stands before its first
NUL fits in `bot_token`. -/
def InDomain (b : Bytes) : Prop :=
  ∃ pre token post, Field b pre token post ∧ (token.takeWhile (· ≠ NUL)).length ≤ 255

theorem scan_append_cons {c : UInt8} {pre : Bytes} (h : c ∉ pre) (i : ℕ) (post : Bytes) :
    scan c i (pre ++ c :: post) = ⟨List.range' i (pre.length + 1), some (i + pre.length)⟩ := by
  induction pre generalizing i with
  | nil => simp [scan]
  | cons b pre ih =>
    rw [List.mem_cons, not_or] at h
    have hstop : i + 1 + pre.length = i + (pre.length + 1) := by omega
    rw [List.cons_append, scan, if_neg (Ne.symm h.1), ih h.2, List.length_cons]
    simp only [List.range'_succ, hstop]

theorem scan_reads_past {c : UInt8} {s : Bytes} (h : c ∉ s) (i : ℕ) (rest : Bytes) :
    i + s.length ∈ (scan c i (s ++ rest)).reads := by
  induction s generalizing i with
  | nil =>
    cases rest with
    | nil => simp [scan]
    | cons b rest => rw [List.nil_append, scan]; split_ifs <;> simp
  | cons b s ih =>
    rw [List.mem_cons, not_or] at h
    rw [List.cons_append, scan, if_neg (Ne.symm h.1), List.length_cons]
    apply List.mem_cons_of_mem
    rw [show i + (s.length + 1) = i + 1 + s.length by omega]
    exact ih h.2 (i + 1)

theorem scan_of_not_mem {c : UInt8} {s : Bytes} (h : c ∉ s) (i : ℕ) :
    (scan c i s).stop = none := by
  induction s generalizing i with
  | nil => rfl
  | cons b s ih =>
    rw [List.mem_cons, not_or] at h
    rw [scan, if_neg (Ne.symm h.1)]
    exact ih h.2 (i + 1)

/-- Where the stored bytes hold a token, the scans stop around it, whatever follows. -/
theorem scanBuf_field {b pre token post : Bytes} (h : Field b pre token post) (rest : Bytes) :
    scanBuf (b ++ rest) =
      ⟨List.range' 0 (pre.length + 1) ++ List.range' (pre.length + 1) (token.length + 1),
        strncpyS (token ++ LF :: (post ++ rest)) token.length⟩ := by
  have hbuf : b ++ rest = pre ++ EQ :: (token ++ LF :: (post ++ rest)) := by
    rw [h.eq]
    simp
  have hdrop : (pre ++ EQ :: (token ++ LF :: (post ++ rest))).drop (pre.length + 1) =
      token ++ LF :: (post ++ rest) := by
    rw [List.append_cons]
    exact List.drop_left' (by simp)
  simp only [scanBuf, hbuf, scan_append_cons h.pre_eq, Nat.zero_add, hdrop,
    scan_append_cons h.token_lf, Nat.add_sub_cancel_left]

theorem strncpyS_ok {token : Bytes} (h : (token.takeWhile (· ≠ NUL)).length ≤ 255)
    (rest : Bytes) : ∃ conf, strncpyS (token ++ rest) token.length = .ok conf ∧
      conf.botToken = token.takeWhile (· ≠ NUL) := by
  have htake : (token ++ rest).take token.length = token := List.take_left' rfl
  unfold strncpyS
  rw [dif_pos (by rw [htake]; omega)]
  exact ⟨_, rfl, congrArg _ htake⟩

theorem strncpyS_fits {token rest : Bytes} {conf : GppConfig}
    (h : strncpyS (token ++ rest) token.length = .ok conf) :
    conf.botToken = token.takeWhile (· ≠ NUL) := by
  unfold strncpyS at h
  split_ifs at h with hlt
  rw [← Except.ok.inj h]
  exact congrArg _ (List.take_left' rfl)

theorem field_of_reads {b rest : Bytes} (h : ∀ i ∈ (scanBuf (b ++ rest)).reads, i < b.length) :
    ∃ pre token post, Field b pre token post := by
  by_cases heq : EQ ∈ b
  · obtain ⟨pre, post, rfl, hnot⟩ := List.eq_append_cons_of_mem heq
    by_cases hlf : LF ∈ post
    · obtain ⟨token, post', rfl, htoken⟩ := List.eq_append_cons_of_mem hlf
      exact ⟨pre, token, post', rfl, hnot, htoken⟩
    · -- the second scan runs through `post` and reads the byte behind it
      exfalso
      have hbuf : pre ++ EQ :: post ++ rest = pre ++ EQ :: (post ++ rest) := by simp
      have hdrop : (pre ++ EQ :: (post ++ rest)).drop (pre.length + 1) = post ++ rest := by
        rw [List.append_cons]
        exact List.drop_left' (by simp)
      have hpast := scan_reads_past hlf (pre.length + 1) rest
      have hmem : pre.length + 1 + post.length ∈ (scanBuf (pre ++ EQ :: post ++ rest)).reads := by
        simp only [scanBuf, hbuf, scan_append_cons hnot, Nat.zero_add, hdrop]
        split <;> exact List.mem_append_right _ hpast
      have hlt := h _ hmem
      rw [List.length_append, List.length_cons] at hlt
      omega
  · -- the first scan runs through `b` already
    exfalso
    have hpast := scan_reads_past heq 0 rest
    rw [Nat.zero_add] at hpast
    refine absurd (h b.length ?_) (Nat.lt_irrefl _)
    unfold scanBuf
    dsimp only
    split
    · exact hpast
    · split <;> exact List.mem_append_left _ hpast

theorem not_mem_drop_zeros {c : UInt8} (hc : c ≠ 0) (n : ℕ) :
    c ∉ (List.replicate 1024 (0 : UInt8)).drop n :=
  fun hm => hc (List.eq_of_mem_replicate (List.mem_of_mem_drop hm))

theorem loadConfig_eq {buf : Bytes} (hbuf : buf.length = 1024) (content : Bytes) :
    loadConfig content buf =
      scanBuf (content.take 1024 ++ buf.drop (content.take 1024).length) := by
  unfold loadConfig freadS
  rw [hbuf]

theorem loadConfig_ok {content pre token post : Bytes}
    (hf : Field (content.take 1024) pre token post)
    (hfit : (token.takeWhile (· ≠ NUL)).length ≤ 255) {buf : Bytes} (hbuf : buf.length = 1024) :
    ∃ conf, (loadConfig content buf).conf = .ok conf ∧
      conf.botToken = token.takeWhile (· ≠ NUL) := by
  rw [loadConfig_eq hbuf, scanBuf_field hf]
  exact strncpyS_ok hfit _

/-- `load_config` reads only what `fread_s` stored and copies within `bot_token`, with
any uninitialised bytes, exactly on its domain; there it returns the token. -/
theorem load_config_domain (content : Bytes) :
    ((∀ buf : Bytes, buf.length = 1024 →
        (∀ i ∈ (loadConfig content buf).reads, i < (content.take 1024).length) ∧
        ∃ conf, (loadConfig content buf).conf = .ok conf) ↔ InDomain (content.take 1024)) ∧
    ∀ pre token post, Field (content.take 1024) pre token post →
      (token.takeWhile (· ≠ NUL)).length ≤ 255 → ∀ buf : Bytes, buf.length = 1024 →
        ∃ conf, (loadConfig content buf).conf = .ok conf ∧
          conf.botToken = token.takeWhile (· ≠ NUL) := by
  refine ⟨⟨fun h => ?_, ?_⟩, fun _ _ _ hf htok _ hbuf => loadConfig_ok hf htok hbuf⟩
  · have hbuf : (List.replicate 1024 (0 : UInt8)).length = 1024 := List.length_replicate
    obtain ⟨hreads, conf, hconf⟩ := h _ hbuf
    rw [loadConfig_eq hbuf] at hreads hconf
    obtain ⟨pre, token, post, hf⟩ := field_of_reads hreads
    rw [scanBuf_field hf] at hconf
    have hfits := conf.fits
    rw [strncpyS_fits hconf] at hfits
    exact ⟨pre, token, post, hf, by omega⟩
  · rintro ⟨pre, token, post, hf, htok⟩ buf hbuf
    obtain ⟨conf, hconf, -⟩ := loadConfig_ok hf htok hbuf
    refine ⟨fun i hi => ?_, conf, hconf⟩
    rw [loadConfig_eq hbuf, scanBuf_field hf] at hi
    have hlen : (content.take 1024).length = pre.length + (token.length + post.length + 2) := by
      rw [hf.eq]
      simp only [List.length_append, List.length_cons]
      omega
    rcases List.mem_append.mp hi with hi | hi
    · have := (List.mem_range'_1.mp hi).2
      omega
    · have := (List.mem_range'_1.mp hi).2
      omega

end GrebballPlus.Cpp
