import Mathlib.Data.List.Basic
import Mathlib.Tactic.Common

/-!
# Calls that return and calls that do not

A call of a C function ends in one of three ways.  It returns, or an `assert`
in it fails, or it touches memory outside the object it was given.  `Outcome`
keeps the three apart.

`Proc σ α` is the body of such a function over a state `σ`.  A body that returns
leaves a state, and returns either a code (`.error`, the early `return -1;` of
C) or a value (`.ok`).  The state survives an early return: a function that
gives up half way has already moved its cursors and filled in some of its
out-parameters, and the caller sees that.

`orReturn` is `if (f(..)) return c;`, and `void` is a call whose code nobody
reads.  Every rule below is an equation about one run (`bind_ok`, `bind_error`
and their companions), so a proof follows a body call by call.  `Keeps f p`
is the frame rule: every return of `p` leaves `f` of the state as it was.
-/

namespace Lib

/-- How a call ends: it returns, one of its assertions fails, or it makes an
access outside the objects it was given. -/
inductive Outcome (α : Type) where
  | ok (a : α)
  | assertFail
  | fault
deriving DecidableEq, Repr

namespace Outcome

def bind {α β : Type} : Outcome α → (α → Outcome β) → Outcome β
  | ok a, f => f a
  | assertFail, _ => assertFail
  | fault, _ => fault

instance : Monad Outcome where
  pure := ok
  bind := bind

@[simp] theorem pure_eq {α : Type} (a : α) : (pure a : Outcome α) = ok a := rfl

@[simp] theorem ok_bind {α β : Type} (a : α) (f : α → Outcome β) : (ok a >>= f) = f a := rfl

theorem bind_eq_ok_iff {α β : Type} {o : Outcome α} {f : α → Outcome β} {b : β} :
    o.bind f = ok b ↔ ∃ a, o = ok a ∧ f a = ok b := by
  cases o with
  | ok a => exact ⟨fun h => ⟨a, rfl, h⟩, fun ⟨_, he, h⟩ => by cases he; exact h⟩
  | assertFail => exact ⟨fun h => (by cases h), fun ⟨_, he, _⟩ => (by cases he)⟩
  | fault => exact ⟨fun h => (by cases h), fun ⟨_, he, _⟩ => (by cases he)⟩

/-- The call came back. -/
def Returns {α : Type} (o : Outcome α) : Prop := ∃ a, o = ok a

@[simp] theorem returns_ok {α : Type} (a : α) : (ok a).Returns := ⟨a, rfl⟩

@[simp] theorem not_returns_assertFail {α : Type} : ¬ (assertFail : Outcome α).Returns := by
  rintro ⟨a, h⟩; cases h

@[simp] theorem not_returns_fault {α : Type} : ¬ (fault : Outcome α).Returns := by
  rintro ⟨a, h⟩; cases h

/-- What a call that returned gave back; nothing when it never came back. -/
def toOption {α : Type} : Outcome α → Option α
  | ok a => some a
  | _ => none

end Outcome

/-- The body of a C function over a state `σ`: it returns a code or a value and
leaves a state, or it never returns. -/
def Proc (σ α : Type) : Type := σ → Outcome (Except Int α × σ)

namespace Proc

variable {σ τ α β : Type}

def bind (p : Proc σ α) (f : α → Proc σ β) : Proc σ β := fun s =>
  match p s with
  | .ok (.ok a, s') => f a s'
  | .ok (.error c, s') => .ok (.error c, s')
  | .assertFail => .assertFail
  | .fault => .fault

instance : Monad (Proc σ) where
  pure a := fun s => .ok (.ok a, s)
  bind := bind

/-- Return the code `c` at once. -/
def ret (c : Int) : Proc σ α := fun s => .ok (.error c, s)

def get : Proc σ σ := fun s => .ok (.ok s, s)

def set (s : σ) : Proc σ Unit := fun _ => .ok (.ok (), s)

def modify (f : σ → σ) : Proc σ Unit := fun s => .ok (.ok (), f s)

/-- `assert(..)`. -/
def assert (P : σ → Prop) [DecidablePred P] : Proc σ Unit := fun s =>
  if P s then .ok (.ok (), s) else .assertFail

/-- An access to memory, which may fall outside its object. -/
def lift (o : Outcome α) : Proc σ α := fun s =>
  match o with
  | .ok a => .ok (.ok a, s)
  | .assertFail => .assertFail
  | .fault => .fault

/-- `if (f(..)) return c;`: a non-zero code of the callee becomes `c`. -/
def orReturn (p : Proc σ α) (c : Int) : Proc σ α := fun s =>
  match p s with
  | .ok (.ok a, s') => .ok (.ok a, s')
  | .ok (.error _, s') => .ok (.error c, s')
  | .assertFail => .assertFail
  | .fault => .fault

/-- A call whose code is not looked at. -/
def void (p : Proc σ Unit) : Proc σ Unit := fun s =>
  match p s with
  | .ok (_, s') => .ok (.ok (), s')
  | .assertFail => .assertFail
  | .fault => .fault

/-- `f(..) == 0`. -/
def succeeds (p : Proc σ Unit) : Proc σ Bool := fun s =>
  match p s with
  | .ok (.ok _, s') => .ok (.ok true, s')
  | .ok (.error _, s') => .ok (.ok false, s')
  | .assertFail => .assertFail
  | .fault => .fault

/-- A call that leaves its out-parameter at `a` when it fails, and whose code is
not looked at. -/
def orDefault (p : Proc σ α) (a : α) : Proc σ α := fun s =>
  match p s with
  | .ok (.ok b, s') => .ok (.ok b, s')
  | .ok (.error _, s') => .ok (.ok a, s')
  | .assertFail => .assertFail
  | .fault => .fault

/-- A function of one object, called by a function that has more in its state. -/
def onFst (p : Proc σ α) : Proc (σ × τ) α := fun s =>
  match p s.1 with
  | .ok (r, s') => .ok (r, (s', s.2))
  | .assertFail => .assertFail
  | .fault => .fault

/-! ### Following a body -/

@[simp] theorem pure_apply (a : α) (s : σ) : (pure a : Proc σ α) s = .ok (.ok a, s) := rfl

@[simp] theorem set_apply (s s' : σ) : (set s' : Proc σ Unit) s = .ok (.ok (), s') := rfl

@[simp] theorem modify_apply (f : σ → σ) (s : σ) :
    (modify f : Proc σ Unit) s = .ok (.ok (), f s) := rfl

theorem bind_ok {p : Proc σ α} {f : α → Proc σ β} {s s' : σ} {a : α}
    (h : p s = .ok (.ok a, s')) : (p >>= f) s = f a s' := by
  show bind p f s = _
  simp only [bind, h]

theorem bind_error {p : Proc σ α} {f : α → Proc σ β} {s s' : σ} {c : Int}
    (h : p s = .ok (.error c, s')) : (p >>= f) s = .ok (.error c, s') := by
  show bind p f s = _
  simp only [bind, h]

theorem bind_assertFail {p : Proc σ α} {f : α → Proc σ β} {s : σ}
    (h : p s = .assertFail) : (p >>= f) s = .assertFail := by
  show bind p f s = _
  simp only [bind, h]

theorem bind_fault {p : Proc σ α} {f : α → Proc σ β} {s : σ}
    (h : p s = .fault) : (p >>= f) s = .fault := by
  show bind p f s = _
  simp only [bind, h]

instance : LawfulMonad (Proc σ) := LawfulMonad.mk' _
  (by
    intro α p
    funext s
    show bind p (fun a s => .ok (.ok a, s)) s = p s
    unfold bind
    split <;> simp_all)
  (by
    intro α β a f
    rfl)
  (by
    intro α β γ p f g
    funext s
    show bind (bind p f) g s = bind p (fun a => bind (f a) g) s
    unfold bind
    cases p s with
    | ok r =>
      obtain ⟨e, s'⟩ := r
      cases e with
      | ok a => rfl
      | error c => rfl
    | assertFail => rfl
    | fault => rfl)

@[simp] theorem pure_bind_apply (a : α) (f : α → Proc σ β) (s : σ) :
    ((pure a : Proc σ α) >>= f) s = f a s := rfl

@[simp] theorem get_bind_apply (f : σ → Proc σ β) (s : σ) :
    ((get : Proc σ σ) >>= f) s = f s s := rfl

@[simp] theorem set_bind_apply (s s' : σ) (f : Unit → Proc σ β) :
    ((set s' : Proc σ Unit) >>= f) s = f () s' := rfl

@[simp] theorem modify_bind_apply (g : σ → σ) (f : Unit → Proc σ β) (s : σ) :
    ((modify g : Proc σ Unit) >>= f) s = f () (g s) := rfl

@[simp] theorem ret_bind_apply (c : Int) (f : α → Proc σ β) (s : σ) :
    ((ret c : Proc σ α) >>= f) s = .ok (.error c, s) := rfl

theorem assert_ok {P : σ → Prop} [DecidablePred P] {s : σ} (h : P s) :
    assert P s = .ok (.ok (), s) := by rw [assert, if_pos h]

theorem assert_fails {P : σ → Prop} [DecidablePred P] {s : σ} (h : ¬ P s) :
    assert P s = .assertFail := by rw [assert, if_neg h]

@[simp] theorem lift_ok (a : α) (s : σ) : (lift (.ok a) : Proc σ α) s = .ok (.ok a, s) := rfl

@[simp] theorem lift_fault (s : σ) : (lift .fault : Proc σ α) s = .fault := rfl

theorem lift_bind_ok_iff {o : Outcome α} {f : α → Proc σ β} {s s' : σ} {b : β} :
    (lift o >>= f) s = .ok (.ok b, s') ↔ ∃ a, o = .ok a ∧ f a s = .ok (.ok b, s') := by
  cases o with
  | ok a => exact ⟨fun h => ⟨a, rfl, h⟩, fun ⟨_, he, h⟩ => by cases he; exact h⟩
  | assertFail => exact ⟨fun h => (by cases h), fun ⟨_, he, _⟩ => (by cases he)⟩
  | fault => exact ⟨fun h => (by cases h), fun ⟨_, he, _⟩ => (by cases he)⟩

theorem orReturn_ok {p : Proc σ α} {c : Int} {s s' : σ} {a : α}
    (h : p s = .ok (.ok a, s')) : p.orReturn c s = .ok (.ok a, s') := by
  simp only [orReturn, h]

theorem orReturn_error {p : Proc σ α} {c d : Int} {s s' : σ}
    (h : p s = .ok (.error d, s')) : p.orReturn c s = .ok (.error c, s') := by
  simp only [orReturn, h]

theorem orReturn_fault {p : Proc σ α} {c : Int} {s : σ}
    (h : p s = .fault) : p.orReturn c s = .fault := by
  simp only [orReturn, h]

theorem void_ok {p : Proc σ Unit} {s s' : σ} {r : Except Int Unit}
    (h : p s = .ok (r, s')) : p.void s = .ok (.ok (), s') := by
  simp only [void, h]

theorem void_assertFail {p : Proc σ Unit} {s : σ} (h : p s = .assertFail) :
    p.void s = .assertFail := by
  simp only [void, h]

theorem void_fault {p : Proc σ Unit} {s : σ} (h : p s = .fault) : p.void s = .fault := by
  simp only [void, h]

theorem succeeds_ok {p : Proc σ Unit} {s s' : σ} (h : p s = .ok (.ok (), s')) :
    p.succeeds s = .ok (.ok true, s') := by
  simp only [succeeds, h]

theorem succeeds_error {p : Proc σ Unit} {s s' : σ} {c : Int} (h : p s = .ok (.error c, s')) :
    p.succeeds s = .ok (.ok false, s') := by
  simp only [succeeds, h]

theorem succeeds_assertFail {p : Proc σ Unit} {s : σ} (h : p s = .assertFail) :
    p.succeeds s = .assertFail := by
  simp only [succeeds, h]

theorem succeeds_fault {p : Proc σ Unit} {s : σ} (h : p s = .fault) : p.succeeds s = .fault := by
  simp only [succeeds, h]

theorem orDefault_ok {p : Proc σ α} {a b : α} {s s' : σ}
    (h : p s = .ok (.ok b, s')) : p.orDefault a s = .ok (.ok b, s') := by
  simp only [orDefault, h]

theorem onFst_ok {p : Proc σ α} {s s' : σ} {t : τ} {r : Except Int α}
    (h : p s = .ok (r, s')) : p.onFst (s, t) = .ok (r, (s', t)) := by
  simp only [onFst, h]

theorem onFst_fault {p : Proc σ α} {s : σ} {t : τ}
    (h : p s = .fault) : p.onFst (s, t) = .fault := by
  simp only [onFst, h]

end Proc

/-! ### What a procedure leaves alone -/

/-- Every return of `p` leaves `f` of the state as it was. -/
def Keeps {σ α β : Type} (f : σ → β) (p : Proc σ α) : Prop :=
  ∀ s r s', p s = .ok (r, s') → f s' = f s

namespace Keeps

variable {σ τ α β γ : Type} {f : σ → γ}

theorem pure (a : α) : Keeps f (Pure.pure a : Proc σ α) := by
  intro s r s' h
  cases h
  rfl

theorem ret (c : Int) : Keeps f (Proc.ret c : Proc σ α) := by
  intro s r s' h
  cases h
  rfl

theorem get : Keeps f (Proc.get : Proc σ σ) := by
  intro s r s' h
  cases h
  rfl

theorem lift (o : Outcome α) : Keeps f (Proc.lift o : Proc σ α) := by
  intro s r s' h
  cases o with
  | ok a => cases h; rfl
  | assertFail => cases h
  | fault => cases h

theorem assert (P : σ → Prop) [DecidablePred P] : Keeps f (Proc.assert P) := by
  intro s r s' h
  unfold Proc.assert at h
  split at h
  · cases h; rfl
  · cases h

theorem bind {p : Proc σ α} {g : α → Proc σ β} (hp : Keeps f p) (hg : ∀ a, Keeps f (g a)) :
    Keeps f (p >>= g) := by
  intro s r s' h
  cases hs : p s with
  | ok q =>
    obtain ⟨e, s₁⟩ := q
    cases e with
    | ok a =>
      rw [Proc.bind_ok hs] at h
      exact (hg a s₁ r s' h).trans (hp s _ s₁ hs)
    | error c =>
      rw [Proc.bind_error hs] at h
      cases h
      exact hp s _ _ hs
  | assertFail => rw [Proc.bind_assertFail hs] at h; cases h
  | fault => rw [Proc.bind_fault hs] at h; cases h

theorem orReturn {p : Proc σ α} (hp : Keeps f p) (c : Int) : Keeps f (p.orReturn c) := by
  intro s r s' h
  unfold Proc.orReturn at h
  split at h
  all_goals cases h
  all_goals exact hp _ _ _ (by assumption)

theorem void {p : Proc σ Unit} (hp : Keeps f p) : Keeps f p.void := by
  intro s r s' h
  unfold Proc.void at h
  split at h
  all_goals cases h
  all_goals exact hp _ _ _ (by assumption)

theorem succeeds {p : Proc σ Unit} (hp : Keeps f p) : Keeps f p.succeeds := by
  intro s r s' h
  unfold Proc.succeeds at h
  split at h
  all_goals cases h
  all_goals exact hp _ _ _ (by assumption)

/-- A call on the packet leaves the rest of the state alone. -/
theorem onFst (p : Proc σ α) {f : τ → γ} : Keeps (fun s : σ × τ => f s.2) p.onFst := by
  intro s r s' h
  unfold Proc.onFst at h
  split at h
  all_goals cases h
  rfl

end Keeps

end Lib
