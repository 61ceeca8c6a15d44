import Mathlib.Data.List.Basic
import Mathlib.Tactic.Common

/-! Named parameters in one line of text: each is a name, a sign and a value, and a
separator stands between them. Reading gives back what was written where neither mark
stands in a name and the separator in no value. -/

namespace Lib.Params

variable {α : Type*}

def renderPair (sign : α) (p : List α × List α) : List α := p.1 ++ sign :: p.2

def render (sep sign : α) (ps : List (List α × List α)) : List α :=
  [sep].intercalate (ps.map (renderPair sign))

/-- A parameter that can be told apart from its marks. -/
structure Clean (sep sign : α) (p : List α × List α) : Prop where
  sep_name : sep ∉ p.1
  sign_name : sign ∉ p.1
  sep_value : sep ∉ p.2

theorem Clean.sep_not_mem {sep sign : α} (hs : sep ≠ sign) {p : List α × List α}
    (h : Clean sep sign p) : sep ∉ renderPair sign p := by
  rw [renderPair, List.mem_append, List.mem_cons]
  rintro (hname | hsign | hvalue)
  · exact h.sep_name hname
  · exact hs hsign
  · exact h.sep_value hvalue

variable [DecidableEq α]

/-- The name is what stands before the first `sign`, the value all that is behind it. -/
def readPair (sign : α) (s : List α) : List α × List α :=
  (s.takeWhile (· ≠ sign), (s.dropWhile (· ≠ sign)).tail)

def read (sep sign : α) (s : List α) : List (List α × List α) :=
  (s.splitOn sep).map (readPair sign)

variable {sep sign : α} {ps : List (List α × List α)}

theorem readPair_renderPair {p : List α × List α} (h : sign ∉ p.1) :
    readPair sign (renderPair sign p) = p := by
  have hne : ∀ a ∈ p.1, decide (a ≠ sign) = true :=
    fun a ha => decide_eq_true (ne_of_mem_of_not_mem ha h)
  unfold readPair renderPair
  rw [List.takeWhile_append_of_pos hne, List.dropWhile_append_of_pos hne]
  simp

theorem read_render (hs : sep ≠ sign) (hps : ps ≠ []) (h : ∀ p ∈ ps, Clean sep sign p) :
    read sep sign (render sep sign ps) = ps := by
  have hsep : ∀ s ∈ ps.map (renderPair sign), sep ∉ s := by
    intro s hmem
    obtain ⟨p, hp, rfl⟩ := List.mem_map.mp hmem
    exact (h p hp).sep_not_mem hs
  have hpair : ∀ p ∈ ps, readPair sign (renderPair sign p) = p :=
    fun p hp => readPair_renderPair (h p hp).sign_name
  rw [read, render, List.splitOn_intercalate sep hsep (by simpa using hps), List.map_map]
  exact (List.map_congr_left hpair).trans (List.map_id ps)

end Lib.Params
