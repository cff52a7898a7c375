import Mathlib.Data.List.Chain
import Mathlib.Logic.Function.Iterate
import Mathlib.Tactic.Common

/-!
# Rings

Following `next` from an element of a circular list visits every other element once
and comes back.  `Ring next x xs` says so for the walk from `x`: it visits `xs` in this
order.  A walk can start anywhere on the ring (`Ring.rotate`), and visits the same
elements then (`Ring.from_mem`).  `exists_iterate_of_isChain` is the open case: every
element of a chain is some number of steps away from the first.
-/

namespace Lib

variable {α : Type} {next : α → α} {x y : α} {xs l r : List α}

/-- The walk from `x` visits `xs` and returns to `x`. -/
def Ring (next : α → α) (x : α) (xs : List α) : Prop :=
  (x :: (xs ++ [x])).IsChain fun a b => next a = b

/-- Every element of a chain is reached from its first one. -/
theorem exists_iterate_of_isChain (h : (x :: xs).IsChain fun a b => next a = b) (hy : y ∈ x :: xs) :
    ∃ k, next^[k] x = y := by
  induction xs generalizing x with
  | nil => exact ⟨0, (List.mem_singleton.mp hy).symm⟩
  | cons z xs ih =>
    obtain ⟨hz, h'⟩ := List.isChain_cons_cons.mp h
    rcases List.mem_cons.mp hy with rfl | hy
    · exact ⟨0, rfl⟩
    · obtain ⟨k, hk⟩ := ih h' hy
      exact ⟨k + 1, by rw [Function.iterate_succ_apply, hz, hk]⟩

namespace Ring

theorem rotate (h : Ring next x (l ++ y :: r)) : Ring next y (r ++ x :: l) := by
  have hxy : ((x :: l) ++ (y :: r ++ [x])).IsChain fun a b => next a = b := by
    simpa [Ring] using h
  obtain ⟨hl, hr, hseam⟩ := List.isChain_append.mp hxy
  have hback : ((x :: l) ++ [y]).IsChain fun a b => next a = b := by
    refine List.isChain_append.mpr ⟨hl, List.isChain_singleton _, fun a ha b hb => ?_⟩
    cases hb
    exact hseam a ha y rfl
  obtain ⟨hr', -, hseam'⟩ := List.isChain_append.mp hr
  have hy : ((y :: r) ++ ((x :: l) ++ [y])).IsChain fun a b => next a = b := by
    refine List.isChain_append.mpr ⟨hr', hback, fun a ha b hb => ?_⟩
    cases hb
    exact hseam' a ha x rfl
  simpa [Ring] using hy

/-- The walk from any element of the ring. -/
theorem from_mem (h : Ring next x xs) (hy : y ∈ x :: xs) :
    ∃ ys, Ring next y ys ∧ (y :: ys).Perm (x :: xs) := by
  rcases List.mem_cons.mp hy with rfl | hy
  · exact ⟨xs, h, .refl _⟩
  · obtain ⟨l, r, rfl⟩ := List.append_of_mem hy
    refine ⟨r ++ x :: l, h.rotate, ?_⟩
    have hp : ((y :: r) ++ (x :: l)).Perm ((x :: l) ++ (y :: r)) := List.perm_append_comm
    simpa using hp

/-- A walk stays on the ring. -/
theorem iterate_mem (h : Ring next x xs) (hy : y ∈ x :: xs) (k : Nat) : next^[k] y ∈ x :: xs := by
  induction k with
  | zero => exact hy
  | succ k ih =>
    obtain ⟨ys, hring, hys⟩ := h.from_mem ih
    rw [Function.iterate_succ_apply', ← hys.mem_iff]
    cases ys with
    | nil =>
      rw [(List.isChain_cons_cons.mp hring).1]
      exact List.mem_cons_self
    | cons z ys =>
      rw [(List.isChain_cons_cons.mp hring).1]
      exact List.mem_cons_of_mem _ List.mem_cons_self

end Ring

end Lib
