import Mathlib.Logic.Function.Basic
import Mathlib.Tactic.Common

/-!
# Sets of bits in two levels

A set of pairs `(y, x)` is stored as one word for each `y`, and one more word that tells which of
them are not zero.  Finding the least pair of the set, by `y` first, then takes no loop: it is one
look for the lowest bit in the second level and one in the word that it leads to.

That the second level tells the truth is a field of the structure, so that `insert` and `erase`
come with the proof that it still does.  `lowest_spec` is what the scheduler of a kernel wants.
-/

namespace Lib

/-! ### Bits of a word -/

theorem getLsbD_bit {n : Nat} (i j : Fin n) : (1#n <<< i.val).getLsbD j.val = true ↔ j = i := by
  rw [← BitVec.twoPow_eq, BitVec.getLsbD_twoPow, Bool.and_eq_true, decide_eq_true_eq,
    decide_eq_true_eq]
  constructor
  · rintro ⟨-, h⟩
    exact Fin.ext h.symm
  · rintro rfl
    exact ⟨j.isLt, rfl⟩

theorem eq_zero_iff_getLsbD {n : Nat} {w : BitVec n} :
    w = 0#n ↔ ∀ i : Fin n, w.getLsbD i.val = false := by
  constructor
  · rintro rfl i
    exact BitVec.getLsbD_zero
  · intro h
    apply BitVec.eq_of_getLsbD_eq
    intro i hi
    rw [h ⟨i, hi⟩, BitVec.getLsbD_zero]

theorem ne_zero_iff_getLsbD {n : Nat} {w : BitVec n} :
    w ≠ 0#n ↔ ∃ i : Fin n, w.getLsbD i.val = true := by
  rw [Ne, eq_zero_iff_getLsbD, not_forall]
  refine exists_congr fun i => ?_
  rw [Bool.not_eq_false]

theorem getLsbD_set {n : Nat} (w : BitVec n) (i j : Fin n) :
    (w ||| 1#n <<< i.val).getLsbD j.val = true ↔ j = i ∨ w.getLsbD j.val = true := by
  rw [BitVec.getLsbD_or, Bool.or_eq_true, getLsbD_bit, or_comm]

theorem getLsbD_clear {n : Nat} (w : BitVec n) (i j : Fin n) :
    (w &&& ~~~(1#n <<< i.val)).getLsbD j.val = true ↔ j ≠ i ∧ w.getLsbD j.val = true := by
  rw [BitVec.getLsbD_and, Bool.and_eq_true, BitVec.getLsbD_not, Bool.and_eq_true,
    Bool.not_eq_true', and_comm]
  refine and_congr_left fun _ => ?_
  rw [← Bool.not_eq_true, getLsbD_bit]
  exact ⟨fun h => h.2, fun h => ⟨decide_eq_true j.isLt, h⟩⟩

/-- The lowest bit of a word that is set. -/
def IsFirst {n : Nat} (w : BitVec n) (i : Fin n) : Prop :=
  w.getLsbD i.val = true ∧ ∀ j : Fin n, j < i → w.getLsbD j.val = false

theorem IsFirst.le {n : Nat} {w : BitVec n} {i j : Fin n} (h : IsFirst w i)
    (hj : w.getLsbD j.val = true) : i ≤ j := by
  by_cases hlt : j < i
  · rw [h.2 j hlt] at hj
    cases hj
  · exact Fin.not_lt.mp hlt

/-! ### The two levels -/

structure TwoLevel (m n : Nat) where
  grp : BitVec m
  tbl : Fin m → BitVec n
  ok : ∀ y : Fin m, grp.getLsbD y.val = true ↔ tbl y ≠ 0#n

namespace TwoLevel

variable {m n : Nat} {b : TwoLevel m n} {y y' : Fin m} {x x' : Fin n}

def Has (b : TwoLevel m n) (y : Fin m) (x : Fin n) : Prop := (b.tbl y).getLsbD x.val = true

instance (b : TwoLevel m n) (y : Fin m) (x : Fin n) : Decidable (b.Has y x) := by
  unfold Has
  infer_instance

def empty : TwoLevel m n where
  grp := 0#m
  tbl _ := 0#n
  ok y := by
    rw [BitVec.getLsbD_zero]
    exact ⟨fun h => (by cases h), fun h => absurd rfl h⟩

def insert (b : TwoLevel m n) (y : Fin m) (x : Fin n) : TwoLevel m n where
  grp := b.grp ||| 1#m <<< y.val
  tbl := Function.update b.tbl y (b.tbl y ||| 1#n <<< x.val)
  ok y' := by
    rw [getLsbD_set]
    by_cases h : y' = y
    · subst h
      rw [Function.update_self, ne_zero_iff_getLsbD]
      exact ⟨fun _ => ⟨x, (getLsbD_set _ x x).mpr (.inl rfl)⟩, fun _ => .inl rfl⟩
    · rw [Function.update_of_ne h, ← b.ok y']
      exact ⟨fun hor => hor.resolve_left h, .inr⟩

/-- The second level loses its bit with the last bit of the word. -/
def erase (b : TwoLevel m n) (y : Fin m) (x : Fin n) : TwoLevel m n where
  grp := if b.tbl y &&& ~~~(1#n <<< x.val) = 0#n then b.grp &&& ~~~(1#m <<< y.val) else b.grp
  tbl := Function.update b.tbl y (b.tbl y &&& ~~~(1#n <<< x.val))
  ok y' := by
    by_cases h : y' = y
    · subst h
      rw [Function.update_self]
      by_cases hrow : b.tbl y' &&& ~~~(1#n <<< x.val) = 0#n
      · rw [if_pos hrow, getLsbD_clear]
        exact ⟨fun hne => absurd rfl hne.1, fun hne => absurd hrow hne⟩
      · rw [if_neg hrow, b.ok y']
        refine ⟨fun _ => hrow, fun _ hzero => hrow ?_⟩
        rw [hzero, BitVec.zero_and]
    · rw [Function.update_of_ne h, ← b.ok y']
      split
      · rw [getLsbD_clear]
        exact ⟨fun hand => hand.2, fun hg => ⟨h, hg⟩⟩
      · exact Iff.rfl

theorem not_has_empty : ¬(empty : TwoLevel m n).Has y x := by
  show ¬(0#n).getLsbD x.val = true
  rw [BitVec.getLsbD_zero]
  exact Bool.false_ne_true

theorem has_insert : (b.insert y x).Has y' x' ↔ (y' = y ∧ x' = x) ∨ b.Has y' x' := by
  show (Function.update b.tbl y (b.tbl y ||| 1#n <<< x.val) y').getLsbD x'.val = true ↔ _
  by_cases h : y' = y
  · subst h
    rw [Function.update_self, getLsbD_set]
    exact or_congr_left (and_iff_right rfl).symm
  · rw [Function.update_of_ne h]
    exact ⟨.inr, fun hor => hor.resolve_left fun hand => h hand.1⟩

theorem has_erase : (b.erase y x).Has y' x' ↔ ¬(y' = y ∧ x' = x) ∧ b.Has y' x' := by
  show (Function.update b.tbl y (b.tbl y &&& ~~~(1#n <<< x.val)) y').getLsbD x'.val = true ↔ _
  by_cases h : y' = y
  · subst h
    rw [Function.update_self, getLsbD_clear]
    exact and_congr_left fun _ => not_congr (and_iff_right rfl).symm
  · rw [Function.update_of_ne h]
    exact ⟨fun hb => ⟨fun hand => h hand.1, hb⟩, fun hand => hand.2⟩

/-- The second level alone tells whether there is anything in the set. -/
theorem grp_ne_zero_iff : b.grp ≠ 0#m ↔ ∃ y x, b.Has y x := by
  rw [ne_zero_iff_getLsbD]
  refine exists_congr fun y => ?_
  rw [b.ok y, ne_zero_iff_getLsbD]
  exact Iff.rfl

/-- The lowest bit of the second level, and the lowest one of the word behind it. -/
def lowest (findRow : BitVec m → Fin m) (findBit : BitVec n → Fin n) (b : TwoLevel m n) :
    Fin m × Fin n :=
  (findRow b.grp, findBit (b.tbl (findRow b.grp)))

/-- **Two looks find the least pair of a set that is not empty.** -/
theorem lowest_spec {findRow : BitVec m → Fin m} {findBit : BitVec n → Fin n}
    (hrow : ∀ w, w ≠ 0#m → IsFirst w (findRow w)) (hbit : ∀ w, w ≠ 0#n → IsFirst w (findBit w))
    (h : b.grp ≠ 0#m) :
    b.Has (b.lowest findRow findBit).1 (b.lowest findRow findBit).2 ∧
      ∀ y x, b.Has y x → (b.lowest findRow findBit).1 < y ∨
        (b.lowest findRow findBit).1 = y ∧ (b.lowest findRow findBit).2 ≤ x := by
  have hfirst := hrow b.grp h
  have hne : b.tbl (findRow b.grp) ≠ 0#n := (b.ok _).mp hfirst.1
  refine ⟨(hbit _ hne).1, fun y x hhas => ?_⟩
  have hy : b.grp.getLsbD y.val = true := (b.ok y).mpr (ne_zero_iff_getLsbD.mpr ⟨x, hhas⟩)
  by_cases heq : findRow b.grp = y
  · refine .inr ⟨heq, ?_⟩
    subst heq
    exact (hbit _ hne).le hhas
  · refine .inl (Nat.lt_of_le_of_ne (hfirst.le hy) fun hval => heq (Fin.ext hval))

end TwoLevel

end Lib
