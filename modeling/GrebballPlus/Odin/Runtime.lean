import Mathlib.Tactic.Common

/-! How an Odin procedure can stop instead of returning, and checked indexing. -/

namespace GrebballPlus

inductive Panic
  | assertFailed
  | indexOutOfRange
  | nilDereference
deriving DecidableEq

/-- `l[i]` with the bounds check of the language. -/
def elemAt {α : Type*} (l : List α) (i : ℕ) : Except Panic α :=
  match l[i]? with
  | some a => .ok a
  | none => .error .indexOutOfRange

theorem elemAt_replicate {α : Type*} (done : List α) (n : ℕ) (a : α) :
    elemAt (done ++ List.replicate (n + 1) a) done.length = .ok a := by
  simp [elemAt, List.replicate_succ]

theorem set_replicate {α : Type*} (done : List α) (n : ℕ) (a b : α) :
    (done ++ List.replicate (n + 1) a).set done.length b = done ++ [b] ++ List.replicate n a := by
  simp [List.replicate_succ]

/-- `p^`, which stops the program where `p` is nil. -/
def deref {α : Type*} : Option α → Except Panic α
  | some a => .ok a
  | none => .error .nilDereference

end GrebballPlus
