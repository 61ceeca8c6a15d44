import Mathlib.Data.List.Basic
import Mathlib.Data.List.Induction
import Mathlib.Tactic.Common

/-! Messages that wait in a queue and are taken out in pieces of some items or all, each
with its place in its message. However sending and taking are interleaved, and however
the messages are cut, the pieces put together are the messages that were sent, in order,
up to those that still wait. -/

namespace Lib

variable {α : Type*}

/-- Where a piece starts in its message, its items, and how many come behind them. -/
structure Piece (α : Type*) where
  offset : ℕ
  data : List α
  left : ℕ

/-- The messages that wait, oldest first; `taken` items of the first one are out. -/
structure Inbox (α : Type*) where
  taken : ℕ
  waiting : List (List α)

/-- What pieces put together: whole messages, and the beginning of one. -/
def assemble (pieces : List (Piece α)) : List (List α) × List α :=
  pieces.foldl (fun a p =>
    if p.left = 0 then (a.1 ++ [a.2 ++ p.data], []) else (a.1, a.2 ++ p.data)) ([], [])

/-- The messages not taken in full, of which the first has begun with `part`. -/
def unfinished (part : List α) : List (List α) → List (List α)
  | [] => []
  | m :: ms => (part ++ m) :: ms

namespace Inbox

def push (b : Inbox α) (m : List α) : Inbox α := ⟨b.taken, b.waiting ++ [m]⟩

/-- The first `k` items of what waits of a message, or all if there are no more. -/
def pull (k : ℕ) (b : Inbox α) : Option (Piece α × Inbox α) :=
  match b.waiting with
  | [] => none
  | m :: ms => some (⟨b.taken, m.take k, m.length - k⟩,
      if m.length ≤ k then ⟨0, ms⟩ else ⟨b.taken + k, m.drop k :: ms⟩)

/-- What was sent is what the pieces put together and what waits behind them, and each
piece stands in a message that was sent at the place it names. -/
structure Delivered (sent : List (List α)) (pieces : List (Piece α)) (b : Inbox α) : Prop where
  sent_eq : sent = (assemble pieces).1 ++ unfinished (assemble pieces).2 b.waiting
  part : b.waiting = [] → (assemble pieces).2 = []
  taken : b.taken = (assemble pieces).2.length
  placed : ∀ p ∈ pieces, ∃ m ∈ sent, p.data = (m.drop p.offset).take p.data.length ∧
    p.offset + p.data.length + p.left = m.length

variable {k : ℕ} {sent : List (List α)} {pieces : List (Piece α)} {b b' : Inbox α} {p : Piece α}

theorem assemble_concat (pieces : List (Piece α)) (p : Piece α) :
    assemble (pieces ++ [p]) = if p.left = 0
      then ((assemble pieces).1 ++ [(assemble pieces).2 ++ p.data], [])
      else ((assemble pieces).1, (assemble pieces).2 ++ p.data) := by
  simp [assemble, List.foldl_append]

theorem flatten_assemble (pieces : List (Piece α)) :
    (assemble pieces).1.flatten ++ (assemble pieces).2 = (pieces.map Piece.data).flatten := by
  induction pieces using List.reverseRecOn with
  | nil => rfl
  | append_singleton pieces p ih =>
    rw [assemble_concat, List.map_append, List.flatten_append, ← ih]
    split_ifs <;> simp

theorem flatten_unfinished {part : List α} {ms : List (List α)} (h : ms = [] → part = []) :
    (unfinished part ms).flatten = part ++ ms.flatten := by
  cases ms with
  | nil => simp [unfinished, h rfl]
  | cons m ms => simp [unfinished]

@[simp] theorem unfinished_nil (ms : List (List α)) : unfinished [] ms = ms := by
  cases ms <;> rfl

@[simp] theorem unfinished_cons (part m : List α) (ms : List (List α)) :
    unfinished part (m :: ms) = (part ++ m) :: ms := rfl

theorem pull_eq_some (h : b.pull k = some (p, b')) : ∃ m ms, b.waiting = m :: ms ∧
    ((m.length ≤ k ∧ p = ⟨b.taken, m, 0⟩ ∧ b' = ⟨0, ms⟩) ∨
      (k < m.length ∧ p = ⟨b.taken, m.take k, m.length - k⟩ ∧
        b' = ⟨b.taken + k, m.drop k :: ms⟩)) := by
  unfold pull at h
  split at h
  · cases h
  · rename_i m ms hw
    obtain ⟨rfl, rfl⟩ := Prod.mk.inj (Option.some.inj h)
    refine ⟨m, ms, hw, ?_⟩
    rcases Nat.lt_or_ge k m.length with hlt | hle
    · exact Or.inr ⟨hlt, rfl, if_neg (Nat.not_le.mpr hlt)⟩
    · refine Or.inl ⟨hle, ?_, if_pos hle⟩
      rw [List.take_of_length_le hle, Nat.sub_eq_zero_of_le hle]

theorem delivered_empty : Delivered [] [] (⟨0, []⟩ : Inbox α) :=
  ⟨rfl, fun _ => rfl, rfl, fun _ hp => absurd hp List.not_mem_nil⟩

theorem Delivered.push (h : Delivered sent pieces b) (m : List α) :
    Delivered (sent ++ [m]) pieces (b.push m) := by
  obtain ⟨taken, waiting⟩ := b
  refine ⟨?_, fun hnil => ?_, h.taken, fun p hp => ?_⟩
  · rw [h.sent_eq]
    cases waiting with
    | nil => simp [Inbox.push, unfinished, h.part rfl]
    | cons m' ms => simp [Inbox.push]
  · simp [Inbox.push] at hnil
  · obtain ⟨m', hm', hp'⟩ := h.placed p hp
    exact ⟨m', List.mem_append_left _ hm', hp'⟩

theorem Delivered.pull (h : Delivered sent pieces b) (hpull : b.pull k = some (p, b')) :
    Delivered sent (pieces ++ [p]) b' := by
  obtain ⟨m, ms, hw, hcase⟩ := pull_eq_some hpull
  have hsent := h.sent_eq
  rw [hw] at hsent
  -- the message the piece is taken from
  have hmem : (assemble pieces).2 ++ m ∈ sent := by
    rw [hsent]
    exact List.mem_append_right _ List.mem_cons_self
  have hdrop : ((assemble pieces).2 ++ m).drop b.taken = m := by
    rw [h.taken]
    exact List.drop_left
  have hlen : ((assemble pieces).2 ++ m).length = b.taken + m.length := by
    rw [List.length_append, h.taken]
  rcases hcase with ⟨hle, rfl, rfl⟩ | ⟨hlt, rfl, rfl⟩
  · refine ⟨?_, fun _ => ?_, ?_, fun q hq => ?_⟩
    · rw [assemble_concat, if_pos rfl, hsent]
      simp
    · rw [assemble_concat, if_pos rfl]
    · rw [assemble_concat, if_pos rfl, List.length_nil]
    · rcases List.mem_append.mp hq with hq | hq
      · exact h.placed q hq
      · obtain rfl := List.mem_singleton.mp hq
        refine ⟨_, hmem, ?_, by simp only [hlen]; omega⟩
        rw [hdrop, List.take_length]
  · have hleft : m.length - k ≠ 0 := by omega
    have htake : (m.take k).length = k := List.length_take_of_le (Nat.le_of_lt hlt)
    refine ⟨?_, fun hnil => absurd hnil (List.cons_ne_nil _ _), ?_, fun q hq => ?_⟩
    · rw [assemble_concat, if_neg hleft, hsent]
      simp
    · rw [assemble_concat, if_neg hleft, List.length_append, htake, h.taken]
    · rcases List.mem_append.mp hq with hq | hq
      · exact h.placed q hq
      · obtain rfl := List.mem_singleton.mp hq
        refine ⟨_, hmem, by rw [hdrop, htake], ?_⟩
        simp only [hlen, htake]
        omega

theorem Delivered.stream (h : Delivered sent pieces b) :
    (pieces.map Piece.data).flatten ++ b.waiting.flatten = sent.flatten := by
  rw [h.sent_eq, List.flatten_append, flatten_unfinished h.part, ← flatten_assemble,
    List.append_assoc]

end Inbox

end Lib
