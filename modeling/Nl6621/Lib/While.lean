import Mathlib.Tactic.Common
import Nl6621.Lib.Call

/-!
# Loops that are left by a break

A `Fueled` computation is one with loops in it: it gives no answer when the fuel runs out, and the
outcome of the call otherwise.  `whileLoop body fuel s` runs `while (1) { .. }`: a round of `body`
leaves the state of the next round (`.inl`), or breaks with a result (`.inr`).

`whileLoop_total` is the rule of total correctness: an invariant, a measure that every round makes
smaller, and what holds at the break.  Its conclusion speaks of every fuel above the measure, so it
also says that the loop ends.
-/

namespace Lib

/-- The outcome of a call, or nothing when the fuel ran out. -/
def Fueled (α : Type) : Type := Option (Outcome α)

namespace Fueled

variable {α β : Type}

def ok (a : α) : Fueled α := some (.ok a)

/-- A call without loops. -/
def of (o : Outcome α) : Fueled α := some o

def bind (p : Fueled α) (f : α → Fueled β) : Fueled β :=
  match p with
  | some (.ok a) => f a
  | some .assertFail => some .assertFail
  | some .fault => some .fault
  | none => none

instance : Monad Fueled where
  pure := ok
  bind := bind

@[simp] theorem ok_bind (a : α) (f : α → Fueled β) : (ok a >>= f) = f a := rfl

@[simp] theorem of_ok (a : α) : of (.ok a) = ok a := rfl

end Fueled

variable {σ β : Type} {body : σ → Fueled (σ ⊕ β)}

def whileLoop (body : σ → Fueled (σ ⊕ β)) : Nat → σ → Fueled β
  | 0, _ => none
  | fuel + 1, s => do
    match ← body s with
    | .inl s' => whileLoop body fuel s'
    | .inr b => .ok b

theorem whileLoop_next {fuel : Nat} {s s' : σ} (h : body s = .ok (.inl s')) :
    whileLoop body (fuel + 1) s = whileLoop body fuel s' := by
  rw [whileLoop, h, Fueled.ok_bind]

theorem whileLoop_break {fuel : Nat} {s : σ} {b : β} (h : body s = .ok (.inr b)) :
    whileLoop body (fuel + 1) s = .ok b := by
  rw [whileLoop, h, Fueled.ok_bind]

/-- **A loop with an invariant and a measure ends at a break.** -/
theorem whileLoop_total {I : σ → Prop} {m : σ → Nat} {Q : β → Prop}
    (hround : ∀ s, I s → (∃ b, body s = .ok (.inr b) ∧ Q b) ∨
      ∃ s', body s = .ok (.inl s') ∧ I s' ∧ m s' < m s) :
    ∀ (fuel : Nat) (s : σ), I s → m s < fuel → ∃ b, whileLoop body fuel s = .ok b ∧ Q b := by
  intro fuel
  induction fuel with
  | zero => intro s _ hm; omega
  | succ fuel ih =>
    intro s hs hm
    rcases hround s hs with ⟨b, hb, hq⟩ | ⟨s', hb, hs', hlt⟩
    · exact ⟨b, whileLoop_break hb, hq⟩
    · obtain ⟨b, hl, hq⟩ := ih s' hs' (by omega)
      exact ⟨b, (whileLoop_next hb).trans hl, hq⟩

/-- **A loop with a measure ends, whatever its rounds do.** -/
theorem whileLoop_ends {I : σ → Prop} {m : σ → Nat} (hfuel : ∀ s, I s → body s ≠ none)
    (hround : ∀ s s', I s → body s = .ok (.inl s') → I s' ∧ m s' < m s) :
    ∀ (fuel : Nat) (s : σ), I s → m s < fuel → whileLoop body fuel s ≠ none := by
  intro fuel
  induction fuel with
  | zero => intro s _ hm; omega
  | succ fuel ih =>
    intro s hs hm
    cases hb : body s with
    | none => exact absurd hb (hfuel s hs)
    | some o =>
      cases o with
      | ok r =>
        cases r with
        | inl s' =>
          obtain ⟨hs', hlt⟩ := hround s s' hs hb
          rw [whileLoop_next hb]
          exact ih s' hs' (by omega)
        | inr b =>
          rw [whileLoop_break hb]
          exact Option.some_ne_none _
      | assertFail =>
        rw [whileLoop, hb]
        exact Option.some_ne_none _
      | fault =>
        rw [whileLoop, hb]
        exact Option.some_ne_none _

/-- An invariant of the rounds holds at the break. -/
theorem whileLoop_invariant {I : σ → Prop} {Q : β → Prop}
    (hround : ∀ s s', I s → body s = .ok (.inl s') → I s')
    (hbreak : ∀ s b, I s → body s = .ok (.inr b) → Q b) :
    ∀ (fuel : Nat) (s : σ) (b : β), I s → whileLoop body fuel s = .ok b → Q b := by
  intro fuel
  induction fuel with
  | zero => intro s b _ h; cases h
  | succ fuel ih =>
    intro s b hs h
    cases hb : body s with
    | none => rw [whileLoop, hb] at h; cases h
    | some o =>
      cases o with
      | ok r =>
        cases r with
        | inl s' =>
          rw [whileLoop_next hb] at h
          exact ih s' b (hround s s' hs hb) h
        | inr b' =>
          rw [whileLoop_break hb] at h
          cases h
          exact hbreak s _ hs hb
      | assertFail => rw [whileLoop, hb] at h; cases h
      | fault => rw [whileLoop, hb] at h; cases h

/-- More fuel does not change the answer of a loop. -/
theorem whileLoop_more : ∀ (fuel : Nat) (s : σ),
    whileLoop body fuel s = none ∨ whileLoop body (fuel + 1) s = whileLoop body fuel s := by
  intro fuel
  induction fuel with
  | zero => exact fun _ => .inl rfl
  | succ fuel ih =>
    intro s
    cases hb : body s with
    | none =>
      rw [whileLoop, hb]
      exact .inl rfl
    | some o =>
      cases o with
      | ok r =>
        cases r with
        | inl s' =>
          rw [whileLoop_next hb, whileLoop_next hb]
          exact ih s'
        | inr b =>
          rw [whileLoop_break hb, whileLoop_break hb]
          exact .inr rfl
      | assertFail =>
        rw [whileLoop, whileLoop, hb]
        exact .inr rfl
      | fault =>
        rw [whileLoop, whileLoop, hb]
        exact .inr rfl

end Lib
