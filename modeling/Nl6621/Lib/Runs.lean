import Mathlib.Tactic.Common

/-!
# Runs of a transition system

A system is a set of initial states and a partial step function: `step s a` is
the state after the action `a`, or nothing when `a` is not possible in `s`.
`Reach init step ok` is the set of states reached by runs all of whose steps meet
the condition `ok`; with a condition that is always true these are the reachable
states.  `Reach.invariant` is the induction that every safety result uses,
`exact_of_step` the one for a condition that cannot be weakened, and `reach_run`
puts a concrete list of actions to use.
-/

namespace Lib

variable {σ α : Type}

/-- The states reached from the initial ones by steps that meet `ok`. -/
inductive Reach (init : σ → Prop) (step : σ → α → Option σ) (ok : σ → α → Prop) : σ → Prop where
  | start {s : σ} (h : init s) : Reach init step ok s
  | next {s s' : σ} {a : α} (h : Reach init step ok s) (hok : ok s a) (hs : step s a = some s') :
      Reach init step ok s'

/-- Every action is admitted. -/
def Anything : σ → α → Prop := fun _ _ => True

/-- **What holds initially and is preserved by every admitted step holds
throughout.** -/
theorem Reach.invariant {init : σ → Prop} {step : σ → α → Option σ} {ok : σ → α → Prop}
    {I : σ → Prop} (hinit : ∀ s, init s → I s)
    (hstep : ∀ s a s', I s → ok s a → step s a = some s' → I s') {s : σ}
    (h : Reach init step ok s) : I s := by
  induction h with
  | start h => exact hinit _ h
  | next _ hok hs ih => exact hstep _ _ _ ih hok hs

/-- `ok` is what the property needs of the steps: with it the property holds throughout, and a
first step without it breaks the property. -/
def Exact (init : σ → Prop) (step : σ → α → Option σ) (ok : σ → α → Prop) (P : σ → Prop) : Prop :=
  (∀ s, Reach init step ok s → P s) ∧
    ∀ s a s', Reach init step ok s → step s a = some s' → ¬ok s a → ¬P s'

/-- **A condition is exact when one step under the invariant says so.** -/
theorem exact_of_step {init : σ → Prop} {step : σ → α → Option σ} {ok : σ → α → Prop}
    {I P : σ → Prop} (hinit : ∀ s, init s → I s ∧ P s)
    (hI : ∀ s a s', I s → P s → ok s a → step s a = some s' → I s')
    (hP : ∀ s a s', I s → P s → step s a = some s' → (P s' ↔ ok s a)) :
    Exact init step ok P := by
  have hboth : ∀ s, Reach init step ok s → I s ∧ P s := by
    intro s h
    refine h.invariant (I := fun s => I s ∧ P s) hinit ?_
    intro s a s' ⟨hi, hp⟩ hok hs
    exact ⟨hI s a s' hi hp hok hs, (hP s a s' hi hp hs).mpr hok⟩
  refine ⟨fun s h => (hboth s h).2, fun s a s' h hs hok hp => ?_⟩
  obtain ⟨hi, hp'⟩ := hboth s h
  exact hok ((hP s a s' hi hp' hs).mp hp)

/-- The state after a list of actions. -/
def run (step : σ → α → Option σ) : σ → List α → Option σ
  | s, [] => some s
  | s, a :: as => (step s a).bind fun s' => run step s' as

theorem run_append {step : σ → α → Option σ} {bs : List α} {s' : σ} : ∀ {as : List α} {s : σ},
    run step s as = some s' → run step s (as ++ bs) = run step s' bs := by
  intro as
  induction as with
  | nil =>
    intro s h
    cases h
    rfl
  | cons a as ih =>
    intro s h
    rw [run, Option.bind_eq_some_iff] at h
    obtain ⟨s₁, h1, h2⟩ := h
    rw [List.cons_append, run, h1, Option.bind_some, ih h2]

/-- Every step of the run meets `ok`. -/
def Along (step : σ → α → Option σ) (ok : σ → α → Prop) : σ → List α → Prop
  | _, [] => True
  | s, a :: as => ok s a ∧ ∀ s', step s a = some s' → Along step ok s' as

theorem along_anything {step : σ → α → Option σ} :
    ∀ (as : List α) (s : σ), Along step Anything s as := by
  intro as
  induction as with
  | nil => intro s; exact trivial
  | cons a as ih => intro s; exact ⟨trivial, fun s' _ => ih s'⟩

theorem reach_run {init : σ → Prop} {step : σ → α → Option σ} {ok : σ → α → Prop} :
    ∀ (as : List α) {s s' : σ}, Reach init step ok s → Along step ok s as →
      run step s as = some s' → Reach init step ok s' := by
  intro as
  induction as with
  | nil =>
    intro s s' h _ hr
    cases hr
    exact h
  | cons a as ih =>
    intro s s' h hok hr
    rw [run, Option.bind_eq_some_iff] at hr
    obtain ⟨s₁, h1, h2⟩ := hr
    exact ih (h.next hok.1 h1) (hok.2 s₁ h1) h2

end Lib
