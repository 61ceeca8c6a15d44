import GrebballPlus.Football.Fetch
import GrebballPlus.Lib.Params

/-! The URL of a call, as its server reads it: the address before the `?`, and behind it
the three numbers by their names. -/

namespace GrebballPlus.Football

open Curl Lib Strconv

def QUERY : UInt8 := 63
def AMP : UInt8 := 38

structure Request where
  address : Bytes
  params : List (Bytes × Bytes)
deriving DecidableEq

def readUrl (url : Bytes) : Request :=
  let (address, rest) := Params.readPair QUERY url
  ⟨address, Params.read AMP EQ rest⟩

def Request.query (r : Request) : Option Query := do
  let season ← r.params.lookup (ascii "dates")
  let type ← r.params.lookup (ascii "seasontype")
  let week ← r.params.lookup (ascii "week")
  return ⟨atoi season, atoi type, atoi week⟩

def weekParams (q : Query) : List (Bytes × Bytes) :=
  [(ascii "dates", decimal q.season.toInt), (ascii "seasontype", decimal q.type.toInt),
    (ascii "week", decimal q.week.toInt)]

/-- A byte that stands in a URL as it is: printable, and no space. -/
def printable (b : UInt8) : Bool := 33 ≤ b && b ≤ 126

theorem printable_of_mem_decimal {z : ℤ} {b : UInt8} (h : b ∈ decimal z) : printable b = true := by
  rcases mem_decimal h with h | rfl
  · simp only [isDigit, printable, Bool.and_eq_true, decide_eq_true_eq,
      UInt8.le_iff_toNat_le] at h ⊢
    have h48 : (48 : UInt8).toNat = 48 := rfl
    have h57 : (57 : UInt8).toNat = 57 := rfl
    have h33 : (33 : UInt8).toNat = 33 := rfl
    have h126 : (126 : UInt8).toNat = 126 := rfl
    omega
  · rfl

theorem not_mem_decimal {z : ℤ} {b : UInt8} (hd : isDigit b = false) (hb : b ≠ 45) :
    b ∉ decimal z := by
  intro h
  rcases mem_decimal h with h | h
  · rw [hd] at h
    cases h
  · exact hb h

theorem clean_decimal {name : Bytes} (hamp : AMP ∉ name) (heq : EQ ∉ name) (z : ℤ) :
    Params.Clean AMP EQ (name, decimal z) :=
  ⟨hamp, heq, not_mem_decimal rfl (by decide)⟩

theorem clean_weekParams (q : Query) : ∀ p ∈ weekParams q, Params.Clean AMP EQ p := by
  simp only [weekParams, List.forall_mem_cons, List.not_mem_nil, false_implies, implies_true,
    and_true]
  exact ⟨clean_decimal (by decide) (by decide) _, clean_decimal (by decide) (by decide) _,
    clean_decimal (by decide) (by decide) _⟩

theorem weekUrl_eq (q : Query) :
    weekUrl q = URL_BASE ++ QUERY :: Params.render AMP EQ (weekParams q) := by
  have hdates : ascii "?dates=" = QUERY :: ascii "dates" ++ [EQ] := by decide
  have htype : ascii "&seasontype=" = AMP :: ascii "seasontype" ++ [EQ] := by decide
  have hweek : ascii "&week=" = AMP :: ascii "week" ++ [EQ] := by decide
  rw [weekUrl, hdates, htype, hweek, appendInt_eq, appendInt_eq, appendInt_eq]
  simp [Params.render, Params.renderPair, weekParams, List.intercalate_cons_cons]

theorem readUrl_weekUrl (q : Query) : readUrl (weekUrl q) = ⟨URL_BASE, weekParams q⟩ := by
  have hbase : QUERY ∉ URL_BASE := by decide
  have hcut : Params.readPair QUERY (weekUrl q) =
      (URL_BASE, Params.render AMP EQ (weekParams q)) := by
    rw [weekUrl_eq]
    exact Params.readPair_renderPair (p := (URL_BASE, _)) hbase
  rw [readUrl, hcut]
  simp only [Request.mk.injEq, true_and]
  exact Params.read_render (by decide) (List.cons_ne_nil _ _) (clean_weekParams q)

theorem query_weekParams (address : Bytes) (q : Query) :
    (⟨address, weekParams q⟩ : Request).query = some q := by
  have htype : (ascii "seasontype" == ascii "dates") = false := by decide
  have hweek : (ascii "week" == ascii "dates") = false := by decide
  have hweek' : (ascii "week" == ascii "seasontype") = false := by decide
  simp only [Request.query, weekParams, List.lookup_cons, htype, hweek, hweek', beq_self_eq_true,
    atoi_decimal, bind, Option.bind, pure]

theorem printable_weekUrl (q : Query) : (weekUrl q).all printable = true := by
  have hbase : URL_BASE.all printable = true := by decide
  have hdates : (ascii "?dates=").all printable = true := by decide
  have htype : (ascii "&seasontype=").all printable = true := by decide
  have hweek : (ascii "&week=").all printable = true := by decide
  have hnum : ∀ i : Int64, (appendInt i).all printable = true := by
    intro i
    rw [appendInt_eq, List.all_eq_true]
    exact fun b => printable_of_mem_decimal
  simp only [weekUrl, List.all_append, hbase, hdates, htype, hweek, hnum, Bool.and_self]

/-- Whatever was fetched before and whatever `i64` are asked for, the server at the
address reads from the URL just these three numbers, and no byte of it needs an escape;
two calls share a URL exactly when they ask for the same week. -/
theorem fetch_week_url {ε : Type} (unmarshal : Bytes → Option ε × EspnRoot) (g g' : Globals)
    (q q' : Query) (t t' : Transfer) :
    (readUrl (fetchWeek unmarshal g q t).2.sent).address = URL_BASE ∧
      (readUrl (fetchWeek unmarshal g q t).2.sent).query = some q ∧
      (fetchWeek unmarshal g q t).2.sent.all printable = true ∧
      ((fetchWeek unmarshal g q t).2.sent = (fetchWeek unmarshal g' q' t').2.sent ↔ q = q') := by
  have hsent : ∀ g q t, (fetchWeek unmarshal g q t).2.sent = weekUrl q :=
    fun g q t => by rw [fetchWeek_eq, weekFetch]
  have hquery : ∀ q, (readUrl (weekUrl q)).query = some q :=
    fun q => by rw [readUrl_weekUrl, query_weekParams]
  rw [hsent, hsent]
  refine ⟨by rw [readUrl_weekUrl], hquery q, printable_weekUrl q, fun h => ?_, fun h => by rw [h]⟩
  exact Option.some.inj (by rw [← hquery q, h, hquery q'])

end GrebballPlus.Football
