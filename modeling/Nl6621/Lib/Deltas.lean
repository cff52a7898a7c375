import Mathlib.Data.List.Sort
import Mathlib.Tactic.Common

/-!
# Lists of differences

A list of times in which every entry has only its distance to the one before, so that the passing of
time changes the first one alone.  `dues` is the list with the times themselves.

`insertDelta` and `eraseDelta` are the two edits.  On `dues` they are the insertion into a sorted
list, behind the entries of the same time, and the removal of an entry (`dues_insertDelta`,
`dues_eraseDelta`).
-/

namespace Lib

variable {α : Type}

def dues (now : Nat) : List (Nat × α) → List (Nat × α)
  | [] => []
  | t :: l => (now + t.1, t.2) :: dues (now + t.1) l

/-- `d` after the place in front of the list. -/
def insertDelta (d : Nat) (a : α) : List (Nat × α) → List (Nat × α)
  | [] => [(d, a)]
  | t :: l => if d < t.1 then (d, a) :: (t.1 - d, t.2) :: l else t :: insertDelta (d - t.1) a l

/-- The first distance, longer by `d`. -/
def delay (d : Nat) : List (Nat × α) → List (Nat × α)
  | [] => []
  | t :: l => (t.1 + d, t.2) :: l

/-- The entry behind the one that is removed takes over its distance. -/
def eraseDelta (p : α → Bool) : List (Nat × α) → List (Nat × α)
  | [] => []
  | t :: l => if p t.2 then delay t.1 l else t :: eraseDelta p l

/-- An earlier entry. -/
def Before (s t : Nat × α) : Prop := s.1 < t.1

instance : DecidableRel (Before (α := α)) := fun s t => inferInstanceAs (Decidable (s.1 < t.1))

theorem le_of_mem_dues {l : List (Nat × α)} {now : Nat} {t : Nat × α} (h : t ∈ dues now l) :
    now ≤ t.1 := by
  induction l generalizing now with
  | nil => cases h
  | cons s l ih =>
    rcases List.mem_cons.mp h with rfl | h
    · exact Nat.le_add_right _ _
    · exact Nat.le_trans (Nat.le_add_right _ _) (ih h)

/-- The times are in order. -/
theorem pairwise_dues (now : Nat) (l : List (Nat × α)) :
    (dues now l).Pairwise fun s t => s.1 ≤ t.1 := by
  induction l generalizing now with
  | nil => exact List.Pairwise.nil
  | cons s l ih => exact List.Pairwise.cons (fun t ht => le_of_mem_dues ht) (ih _)

theorem dues_delay (now d : Nat) (l : List (Nat × α)) :
    dues now (delay d l) = dues (now + d) l := by
  cases l with
  | nil => rfl
  | cons t l =>
    have h : now + (t.1 + d) = now + d + t.1 := by omega
    rw [delay, dues, dues, h]

theorem dues_insertDelta (now d : Nat) (a : α) (l : List (Nat × α)) :
    dues now (insertDelta d a l) = (dues now l).orderedInsert Before (now + d, a) := by
  induction l generalizing now d with
  | nil => rfl
  | cons t l ih =>
    rw [insertDelta, dues, List.orderedInsert_cons]
    by_cases hd : d < t.1
    · have hback : now + d + (t.1 - d) = now + t.1 := by omega
      have hbefore : Before (now + d, a) (now + t.1, t.2) := Nat.add_lt_add_left hd now
      rw [if_pos hd, if_pos hbefore, dues, dues, hback]
    · have hrest : now + t.1 + (d - t.1) = now + d := by omega
      have hnot : ¬Before (now + d, a) (now + t.1, t.2) := fun h =>
        hd (Nat.lt_of_add_lt_add_left h)
      rw [if_neg hd, if_neg hnot, dues, ih, hrest]

theorem dues_eraseDelta (now : Nat) (p : α → Bool) (l : List (Nat × α)) :
    dues now (eraseDelta p l) = (dues now l).eraseP fun t => p t.2 := by
  induction l generalizing now with
  | nil => rfl
  | cons t l ih =>
    rw [eraseDelta, dues]
    by_cases hp : p t.2 = true
    · have hfirst : ((now + t.1, t.2) :: dues (now + t.1) l).eraseP (fun s => p s.2) =
          dues (now + t.1) l := List.eraseP_cons_of_pos hp
      rw [if_pos hp, hfirst, dues_delay]
    · have hfirst : ((now + t.1, t.2) :: dues (now + t.1) l).eraseP (fun s => p s.2) =
          (now + t.1, t.2) :: (dues (now + t.1) l).eraseP (fun s => p s.2) :=
        List.eraseP_cons_of_neg hp
      rw [if_neg hp, hfirst, dues, ih]

/-- As time passes. -/
theorem dues_wait {now k : Nat} {t : Nat × α} {l : List (Nat × α)} (h : k ≤ t.1) :
    dues (now + k) ((t.1 - k, t.2) :: l) = dues now (t :: l) := by
  have hback : now + k + (t.1 - k) = now + t.1 := by omega
  rw [dues, dues, hback]

end Lib
