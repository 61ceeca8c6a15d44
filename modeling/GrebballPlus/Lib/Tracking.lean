import Mathlib.Algebra.Order.Group.Multiset
import Mathlib.Tactic.Common

/-! A tracking allocator, and what a stretch of a program does to the blocks it owns. A
stretch that `Turns` the blocks `P` into `Q` does so whatever else is allocated, and frees
nothing but what it owns. Stretches compose, so that the report at the end of a program is
read off the parts. -/

namespace Lib

inductive MemOp (α : Type*)
  | alloc (a : α)
  | free (a : α)

/-- The blocks that are allocated, and those that were freed when they were not. -/
structure Tracker (α : Type*) where
  live : Multiset α
  bad : Multiset α

variable {α : Type*} [DecidableEq α]

namespace Tracker

def empty : Tracker α := ⟨0, 0⟩

def step (t : Tracker α) : MemOp α → Tracker α
  | .alloc a => ⟨a ::ₘ t.live, t.bad⟩
  | .free a => if a ∈ t.live then ⟨t.live.erase a, t.bad⟩ else ⟨t.live, a ::ₘ t.bad⟩

def run (t : Tracker α) (ops : List (MemOp α)) : Tracker α := ops.foldl step t

theorem run_append (t : Tracker α) (ops ops' : List (MemOp α)) :
    t.run (ops ++ ops') = (t.run ops).run ops' := List.foldl_append

end Tracker

def Turns (P : Multiset α) (ops : List (MemOp α)) (Q : Multiset α) : Prop :=
  ∀ F bad, (⟨P + F, bad⟩ : Tracker α).run ops = ⟨Q + F, bad⟩

namespace Turns

variable {P Q R : Multiset α} {ops ops' : List (MemOp α)} {a : α}

theorem nil (P : Multiset α) : Turns P [] P := fun _ _ => rfl

theorem append (h : Turns P ops Q) (h' : Turns Q ops' R) : Turns P (ops ++ ops') R := by
  intro F bad
  rw [Tracker.run_append, h F bad, h' F bad]

theorem frame (h : Turns P ops Q) (F : Multiset α) : Turns (P + F) ops (Q + F) := by
  intro G bad
  rw [add_assoc, h (F + G) bad, add_assoc]

theorem alloc (a : α) : Turns 0 [.alloc a] {a} := by
  intro F bad
  simp [Tracker.run, Tracker.step]

theorem free (a : α) : Turns {a} [.free a] 0 := by
  intro F bad
  simp [Tracker.run, Tracker.step]

theorem allocs (l : List α) : Turns 0 (l.map .alloc) (l : Multiset α) := by
  induction l with
  | nil => exact nil 0
  | cons a l ih =>
    have hrest := ih.frame {a}
    rw [zero_add, add_comm, Multiset.singleton_add, Multiset.cons_coe] at hrest
    exact (alloc a).append hrest

theorem frees (l : List α) : Turns (l : Multiset α) (l.map .free) 0 := by
  induction l with
  | nil => exact nil 0
  | cons a l ih =>
    have hfirst := (free a).frame (l : Multiset α)
    rw [zero_add, Multiset.singleton_add, Multiset.cons_coe] at hfirst
    exact hfirst.append ih

/-- What is left at the end of a program that started with nothing. -/
theorem report (h : Turns 0 ops Q) : Tracker.empty.run ops = ⟨Q, 0⟩ := by
  have hrun := h 0 0
  rw [zero_add, add_zero] at hrun
  exact hrun

end Turns

end Lib
