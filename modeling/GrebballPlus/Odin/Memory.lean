import GrebballPlus.Lib.Tracking
import GrebballPlus.Odin.Strings

/-! Strings that own their bytes. The allocator of the context is asked for a block by
`clone` and `make` and given it back by `delete`; it is never asked for an empty one. -/

namespace GrebballPlus

open Lib

/-- Blocks are numbered in the order in which they are handed out. `text` is what a block
of a string holds; that of an array is left open. -/
structure Block where
  id : ℕ
  text : Bytes
deriving DecidableEq

structure Text where
  bytes : Bytes
  block : Option ℕ

def Text.blocks (t : Text) : List Block := t.block.toList.map fun id => ⟨id, t.bytes⟩

/-- The number of the next block, and what the allocator was asked so far. -/
structure Heap where
  next : ℕ
  ops : List (MemOp Block)

namespace Heap

def empty : Heap := ⟨0, []⟩

def alloc (h : Heap) (text : Bytes) : Heap := ⟨h.next + 1, h.ops ++ [.alloc ⟨h.next, text⟩]⟩

def free (h : Heap) (blocks : List Block) : Heap := ⟨h.next, h.ops ++ blocks.map .free⟩

def make (h : Heap) (len : ℕ) : Option ℕ × Heap :=
  if len = 0 then (none, h) else (some h.next, h.alloc [])

/-- `strings.clone` and `strings.clone_from_bytes`. -/
def clone (h : Heap) (s : Bytes) : Text × Heap :=
  if s = [] then (⟨s, none⟩, h) else (⟨s, some h.next⟩, h.alloc s)

/-- `strings.replace`: a string of its own, unless nothing is replaced. -/
def replace (h : Heap) (s old new : Bytes) (n : ℕ) : Text × Heap :=
  if old = new ∨ n = 0 ∨ Strings.index s old = none then (⟨s, none⟩, h)
  else h.clone (Strings.replace s old new n)

/-- From `h` to `h'` only the blocks `bs` were asked for, each a new one. -/
structure Grows (h h' : Heap) (bs : List Block) : Prop where
  ops : h'.ops = h.ops ++ bs.map .alloc
  ids : bs.map Block.id = List.range' h.next bs.length
  next : h'.next = h.next + bs.length

variable {h h' h'' : Heap} {bs cs : List Block}

theorem Grows.refl (h : Heap) : h.Grows h [] := ⟨by simp, rfl, rfl⟩

theorem Grows.trans (hb : h.Grows h' bs) (hc : h'.Grows h'' cs) : h.Grows h'' (bs ++ cs) := by
  refine ⟨?_, ?_, ?_⟩
  · rw [hc.ops, hb.ops, List.map_append, List.append_assoc]
  · rw [List.map_append, hb.ids, hc.ids, hb.next, List.length_append]
    exact List.range'_append_1
  · rw [hc.next, hb.next, List.length_append, Nat.add_assoc]

end Heap

end GrebballPlus
