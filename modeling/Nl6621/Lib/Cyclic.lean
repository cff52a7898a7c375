import Mathlib.Data.Nat.ModEq
import Mathlib.Tactic.Common

/-!
# Queues in a storage that is used in a circle

`held store first n` is what a queue of `n` entries contains whose oldest entry lies at the place
`first` of its storage: places are counted around the end.  An entry is put at the place behind the
last one (`held_put`) and taken from the first (`held_take`), and `wrap` is how a place goes on to
the next by a comparison with the end instead of a division.
-/

namespace Lib

variable {α : Type}

/-- The next place of `n`. -/
def wrap (n i : Nat) : Nat := if i + 1 = n then 0 else i + 1

theorem wrap_eq_mod {n i : Nat} (h : i < n) : wrap n i = (i + 1) % n := by
  rw [wrap]
  by_cases hend : i + 1 = n
  · rw [if_pos hend, hend, Nat.mod_self]
  · rw [if_neg hend, Nat.mod_eq_of_lt (by omega)]

theorem wrap_lt {n i : Nat} (h : i < n) : wrap n i < n := by
  rw [wrap_eq_mod h]
  exact Nat.mod_lt _ (by omega)

theorem mod_ne_of_lt {n first i j : Nat} (hij : i < j) (hj : j < n) :
    (first + i) % n ≠ (first + j) % n := by
  intro h
  have hmod : i % n = j % n := Nat.ModEq.add_left_cancel' first h
  rw [Nat.mod_eq_of_lt (hij.trans hj), Nat.mod_eq_of_lt hj] at hmod
  omega

/-- The entries from the oldest to the newest. -/
def held (store : List α) : Nat → Nat → List α
  | _, 0 => []
  | first, n + 1 => store[first % store.length]?.toList ++ held store (first + 1) n

theorem held_succ_last (store : List α) (first n : Nat) :
    held store first (n + 1) =
      held store first n ++ store[(first + n) % store.length]?.toList := by
  induction n generalizing first with
  | zero => rw [held, held, held, List.append_nil, List.nil_append, Nat.add_zero]
  | succ n ih => rw [held, ih, held, List.append_assoc, Nat.add_right_comm, Nat.add_assoc]

theorem held_mod (store : List α) (first n : Nat) :
    held store (first % store.length) n = held store first n := by
  induction n generalizing first with
  | zero => rw [held, held]
  | succ n ih =>
    rw [held, held, Nat.mod_mod, ← ih (first % store.length + 1), ← ih (first + 1),
      Nat.mod_add_mod]

theorem held_set {store : List α} {first n i : Nat} (a : α)
    (h : ∀ j, j < n → (first + j) % store.length ≠ i) :
    held (store.set i a) first n = held store first n := by
  induction n generalizing first with
  | zero => rw [held, held]
  | succ n ih =>
    have hfirst : first % store.length ≠ i := h 0 (Nat.succ_pos n)
    have hrest : ∀ j, j < n → (first + 1 + j) % store.length ≠ i := by
      intro j hj
      rw [Nat.add_right_comm, Nat.add_assoc]
      exact h (j + 1) (Nat.succ_lt_succ hj)
    rw [held, held, List.length_set, List.getElem?_set_ne hfirst.symm, ih hrest]

/-- **What is put at the free place is the newest entry.** -/
theorem held_put {store : List α} {first n : Nat} (h : n < store.length) (a : α) :
    held (store.set ((first + n) % store.length) a) first (n + 1) =
      held store first n ++ [a] := by
  have hplace : (first + n) % store.length < store.length := Nat.mod_lt _ (by omega)
  rw [held_succ_last, held_set a fun j hj => mod_ne_of_lt hj h, List.length_set,
    List.getElem?_set_self hplace]
  rfl

/-- **What is taken from the first place is the oldest entry.** -/
theorem held_take {store : List α} {first : Nat} (h : first < store.length) (n : Nat) :
    held store first (n + 1) = store[first] :: held store (wrap store.length first) n := by
  rw [held, wrap_eq_mod h, held_mod, Nat.mod_eq_of_lt h, List.getElem?_eq_getElem h]
  rfl

end Lib
