import Mathlib.Tactic.Common

/-!
# The last writer wins

A store is changed by operations one after the other, `step s a` being the store after the
operation `a`.  What can be read of it is `read s`, and `given a` is the value that the
operation writes, or nothing when it writes none.  If every operation leaves what it gives, and
what was there when it gives nothing, then what is read is the value that was given last:
`read_foldl`.  An operation that does not is found out as soon as it is made: `read_foldl_iff`.
-/

namespace Lib

variable {σ α β : Type}

/-- The value that was given last, and `b` when none was. -/
def lastGiven (given : α → Option β) (b : β) (as : List α) : β := (as.filterMap given).getLastD b

theorem lastGiven_cons (given : α → Option β) (b : β) (a : α) (as : List α) :
    lastGiven given b (a :: as) = lastGiven given ((given a).getD b) as := by
  rw [lastGiven, lastGiven, List.filterMap_cons]
  cases given a with
  | none => rfl
  | some v => exact List.getLastD_cons

/-- Every operation of the sequence meets `ok` where it is made. -/
def Throughout (step : σ → α → σ) (ok : σ → α → Prop) : σ → List α → Prop
  | _, [] => True
  | s, a :: as => ok s a ∧ Throughout step ok (step s a) as

theorem throughout_of_forall {step : σ → α → σ} {ok : σ → α → Prop} (h : ∀ s a, ok s a) :
    ∀ (as : List α) (s : σ), Throughout step ok s as := by
  intro as
  induction as with
  | nil => intro s; exact trivial
  | cons a as ih => intro s; exact ⟨h s a, ih _⟩

/-- **What is read is what was given last.** -/
theorem read_foldl {step : σ → α → σ} (read : σ → β) {given : α → Option β} {ok : σ → α → Prop}
    (hstep : ∀ s a, ok s a → read (step s a) = (given a).getD (read s)) :
    ∀ (as : List α) (s : σ), Throughout step ok s as →
      read (as.foldl step s) = lastGiven given (read s) as := by
  intro as
  induction as with
  | nil => intro s _; rfl
  | cons a as ih =>
    intro s h
    rw [List.foldl_cons, ih _ h.2, hstep s a h.1, lastGiven_cons]

/-- **What is read is what was given last, at every moment, exactly when every operation leaves
what it gives.** -/
theorem read_foldl_iff {step : σ → α → σ} (read : σ → β) {given : α → Option β}
    {ok : σ → α → Prop} (hstep : ∀ s a, read (step s a) = (given a).getD (read s) ↔ ok s a) :
    ∀ (as : List α) (s : σ),
      (∀ bs cs, as = bs ++ cs → read (bs.foldl step s) = lastGiven given (read s) bs) ↔
        Throughout step ok s as := by
  intro as
  induction as with
  | nil =>
    intro s
    refine iff_of_true ?_ trivial
    intro bs cs h
    rw [(List.append_eq_nil_iff.mp h.symm).1]
    rfl
  | cons a as ih =>
    intro s
    constructor
    · intro h
      have hone : read (step s a) = (given a).getD (read s) := by
        have h1 := h [a] as rfl
        rw [lastGiven_cons] at h1
        exact h1
      refine ⟨(hstep s a).mp hone, (ih (step s a)).mp ?_⟩
      intro bs cs hbs
      have hcons := h (a :: bs) cs (congrArg (List.cons a) hbs)
      rw [lastGiven_cons, ← hone] at hcons
      exact hcons
    · intro h bs cs hbs
      cases bs with
      | nil => rfl
      | cons b bs =>
        rw [List.cons_append] at hbs
        obtain ⟨rfl, htail⟩ := List.cons.inj hbs
        have hrest := (ih (step s a)).mpr h.2 bs cs htail
        rw [List.foldl_cons, hrest, (hstep s a).mpr h.1, lastGiven_cons]

end Lib
