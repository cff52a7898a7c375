import Mathlib.Algebra.CharP.Two
import Mathlib.Algebra.Field.ZMod
import Mathlib.RingTheory.AdjoinRoot

/-!
# Words as polynomials over two elements

A word of `w` bits is a polynomial of degree below `w` over `ZMod 2`, its bits being the
coefficients.  Modulo `X ^ w + poly` these are all there are: `ofWord poly` is a bijection from the
words to the quotient ring.  Exclusive or becomes addition there, the shift with feedback `mulX` the
multiplication with the root, and the shift-and-add product `mul` the product.

So what code does with shifts and exclusive ors can be read as calculation in that ring, which has
all the rules of a commutative ring.
-/

namespace Lib.BinaryField

open Polynomial

variable {w : Nat}

/-! ### The polynomial of a word -/

noncomputable def toPoly (b : BitVec w) : (ZMod 2)[X] :=
  ∑ i ∈ Finset.range w, if b.getLsbD i then X ^ i else 0

theorem coeff_toPoly (b : BitVec w) (i : Nat) :
    (toPoly b).coeff i = if b.getLsbD i then 1 else 0 := by
  have hterm : ∀ j, (if b.getLsbD j then (X : (ZMod 2)[X]) ^ j else 0).coeff i =
      if i = j then (if b.getLsbD i then 1 else 0) else 0 := by
    intro j
    by_cases hij : i = j
    · subst hij
      rw [if_pos rfl]
      split
      · rw [coeff_X_pow, if_pos rfl]
      · rw [coeff_zero]
    · rw [if_neg hij]
      split
      · rw [coeff_X_pow, if_neg hij]
      · rw [coeff_zero]
  rw [toPoly, finsetSum_coeff]
  simp only [hterm]
  rw [Finset.sum_ite_eq]
  by_cases hi : i < w
  · rw [if_pos (Finset.mem_range.mpr hi)]
  · rw [if_neg fun h => hi (Finset.mem_range.mp h), BitVec.getLsbD_of_ge b i (Nat.not_lt.mp hi)]
    rfl

theorem degree_toPoly_lt (b : BitVec w) : (toPoly b).degree < w := by
  rw [degree_lt_iff_coeff_zero]
  intro i hi
  rw [coeff_toPoly, BitVec.getLsbD_of_ge b i hi]
  rfl

theorem toPoly_injective : Function.Injective (toPoly (w := w)) := by
  intro a b h
  apply BitVec.eq_of_getLsbD_eq
  intro i _
  have hi := congrArg (fun p : (ZMod 2)[X] => p.coeff i) h
  simp only [coeff_toPoly] at hi
  cases ha : a.getLsbD i <;> cases hb : b.getLsbD i <;> simp_all

theorem toPoly_xor (a b : BitVec w) : toPoly (a ^^^ b) = toPoly a + toPoly b := by
  ext i
  rw [coeff_add, coeff_toPoly, coeff_toPoly, coeff_toPoly, BitVec.getLsbD_xor]
  cases a.getLsbD i <;> cases b.getLsbD i <;> decide

@[simp] theorem toPoly_zero : toPoly (0#w) = 0 := by
  ext i
  rw [coeff_toPoly, BitVec.getLsbD_zero, coeff_zero]
  rfl

/-- Every polynomial of low degree is that of a word. -/
theorem exists_toPoly {p : (ZMod 2)[X]} (hp : p.degree < w) : ∃ b : BitVec w, toPoly b = p := by
  have hlen : ((List.range w).map fun i => decide (p.coeff i = 1)).length = w := by
    rw [List.length_map, List.length_range]
  refine ⟨(BitVec.ofBoolListLE ((List.range w).map fun i => decide (p.coeff i = 1))).cast hlen, ?_⟩
  ext i
  rw [coeff_toPoly, BitVec.getLsbD_cast, BitVec.getLsbD_ofBoolListLE]
  by_cases hi : i < w
  · have htwo : ∀ x : ZMod 2, (if x = 1 then (1 : ZMod 2) else 0) = x := by decide
    simp [hi, htwo]
  · rw [(degree_lt_iff_coeff_zero p w).mp hp i (Nat.not_lt.mp hi)]
    simp [hi]

/-! ### The quotient -/

noncomputable def modulus (poly : BitVec w) : (ZMod 2)[X] := X ^ w + toPoly poly

theorem monic_modulus (poly : BitVec w) : (modulus poly).Monic :=
  monic_X_pow_add (degree_toPoly_lt poly)

theorem degree_modulus (poly : BitVec w) : (modulus poly).degree = w := by
  rw [modulus, degree_add_eq_left_of_degree_lt, degree_X_pow]
  rw [degree_X_pow]
  exact degree_toPoly_lt poly

/-- The polynomials over `ZMod 2` modulo `X ^ w + poly`. -/
abbrev Residue (poly : BitVec w) : Type := AdjoinRoot (modulus poly)

variable (poly : BitVec w)

noncomputable def toResidue (b : BitVec w) : Residue poly := AdjoinRoot.mk (modulus poly) (toPoly b)

noncomputable def root : Residue poly := AdjoinRoot.root (modulus poly)

theorem toResidue_xor (a b : BitVec w) :
    toResidue poly (a ^^^ b) = toResidue poly a + toResidue poly b := by
  rw [toResidue, toPoly_xor, map_add, toResidue, toResidue]

@[simp] theorem toResidue_zero : toResidue poly (0#w) = 0 := by
  rw [toResidue, toPoly_zero, map_zero]

theorem add_self (x : Residue poly) : x + x = 0 := by
  obtain ⟨p, rfl⟩ := AdjoinRoot.mk_surjective x
  rw [← map_add, CharTwo.add_self_eq_zero, map_zero]

theorem toResidue_injective : Function.Injective (toResidue poly) := by
  intro a b h
  by_contra hne
  have hpoly : toPoly (a ^^^ b) ≠ 0 := by
    intro hzero
    have hxor : a ^^^ b = 0#w := toPoly_injective (hzero.trans toPoly_zero.symm)
    exact hne (BitVec.xor_eq_zero_iff.mp hxor)
  have hlt : (toPoly (a ^^^ b)).degree < (modulus poly).degree := by
    rw [degree_modulus]
    exact degree_toPoly_lt _
  refine AdjoinRoot.mk_ne_zero_of_degree_lt (monic_modulus poly) hpoly hlt ?_
  have hxor := toResidue_xor poly a b
  rw [h, add_self] at hxor
  exact hxor

theorem toResidue_surjective : Function.Surjective (toResidue poly) := by
  intro x
  obtain ⟨p, rfl⟩ := AdjoinRoot.mk_surjective x
  have hlt : (p %ₘ modulus poly).degree < w := by
    rw [← degree_modulus poly]
    exact degree_modByMonic_lt p (monic_modulus poly)
  obtain ⟨b, hb⟩ := exists_toPoly hlt
  refine ⟨b, ?_⟩
  rw [toResidue, hb, AdjoinRoot.mk_eq_mk]
  exact dvd_modByMonic_sub p _

/-- **The words are the elements of the quotient.** -/
noncomputable def ofWord : BitVec w ≃ Residue poly :=
  Equiv.ofBijective (toResidue poly) ⟨toResidue_injective poly, toResidue_surjective poly⟩

@[simp] theorem ofWord_apply (b : BitVec w) : ofWord poly b = toResidue poly b := rfl

/-! ### The operations on words -/

/-- The shift by one bit; the bit that falls out adds the polynomial. -/
def mulX (b : BitVec w) : BitVec w := if b.msb then (b <<< 1) ^^^ poly else b <<< 1

theorem X_mul_toPoly (hw : 0 < w) (b : BitVec w) :
    X * toPoly b = toPoly (b <<< 1) + if b.msb then X ^ w else 0 := by
  ext i
  rw [coeff_add, coeff_toPoly, BitVec.getLsbD_shiftLeft]
  cases i with
  | zero =>
    rw [coeff_X_mul_zero]
    have hx : ((if b.msb then (X : (ZMod 2)[X]) ^ w else 0)).coeff 0 = 0 := by
      split
      · rw [coeff_X_pow, if_neg (by omega)]
      · rw [coeff_zero]
    rw [hx]
    simp
  | succ i =>
    rw [coeff_X_mul, coeff_toPoly]
    by_cases hi : i + 1 < w
    · have hx : ((if b.msb then (X : (ZMod 2)[X]) ^ w else 0)).coeff (i + 1) = 0 := by
        split
        · rw [coeff_X_pow, if_neg (by omega)]
        · rw [coeff_zero]
      rw [hx]
      simp [hi]
    · by_cases hi' : i + 1 = w
      · have hmsb : b.msb = b.getLsbD i := by
          rw [BitVec.msb_eq_getLsbD_last, show w - 1 = i by omega]
        rw [hmsb]
        cases b.getLsbD i <;> simp [hi', coeff_X_pow]
      · have hx : ((if b.msb then (X : (ZMod 2)[X]) ^ w else 0)).coeff (i + 1) = 0 := by
          split
          · rw [coeff_X_pow, if_neg hi']
          · rw [coeff_zero]
        rw [hx, BitVec.getLsbD_of_ge b i (by omega)]
        simp [hi]

/-- **A shift with feedback is a multiplication by the root.** -/
theorem toResidue_mulX (hw : 0 < w) (b : BitVec w) :
    toResidue poly (mulX poly b) = root poly * toResidue poly b := by
  have hmul : root poly * toResidue poly b = AdjoinRoot.mk (modulus poly) (X * toPoly b) := by
    rw [map_mul, AdjoinRoot.mk_X]
    rfl
  rw [hmul, X_mul_toPoly hw, mulX, map_add]
  cases b.msb with
  | false => rw [if_neg Bool.false_ne_true, if_neg Bool.false_ne_true, map_zero, add_zero, toResidue]
  | true =>
    have hself : AdjoinRoot.mk (modulus poly) (X ^ w) = toResidue poly poly := by
      rw [toResidue, AdjoinRoot.mk_eq_mk, CharTwo.sub_eq_add]
      exact dvd_rfl
    rw [if_pos rfl, if_pos rfl, toResidue_xor, hself, toResidue]

/-- The product of `a` with the `k` lowest bits of `b`, shifted and added. -/
def mulLow (a b : BitVec w) : Nat → BitVec w
  | 0 => 0#w
  | k + 1 => mulLow a b k ^^^ if b.getLsbD k then (mulX poly)^[k] a else 0#w

def mul (a b : BitVec w) : BitVec w := mulLow poly a b w

theorem toResidue_iterate_mulX (hw : 0 < w) (a : BitVec w) (k : Nat) :
    toResidue poly ((mulX poly)^[k] a) = root poly ^ k * toResidue poly a := by
  induction k with
  | zero => rw [Function.iterate_zero, id, pow_zero, one_mul]
  | succ k ih => rw [Function.iterate_succ_apply', toResidue_mulX poly hw, ih, pow_succ', mul_assoc]

theorem toResidue_mulLow (hw : 0 < w) (a b : BitVec w) (k : Nat) :
    toResidue poly (mulLow poly a b k) = toResidue poly a *
      AdjoinRoot.mk (modulus poly) (∑ i ∈ Finset.range k, if b.getLsbD i then X ^ i else 0) := by
  induction k with
  | zero => rw [mulLow, Finset.range_zero, Finset.sum_empty, map_zero, mul_zero, toResidue_zero]
  | succ k ih =>
    rw [mulLow, toResidue_xor, ih, Finset.sum_range_succ, map_add, mul_add]
    congr 1
    cases b.getLsbD k with
    | false =>
      rw [if_neg Bool.false_ne_true, if_neg Bool.false_ne_true, toResidue_zero, map_zero, mul_zero]
    | true =>
      rw [if_pos rfl, if_pos rfl, toResidue_iterate_mulX poly hw, map_pow, AdjoinRoot.mk_X, mul_comm]
      rfl

/-- **Shift and add is the product.** -/
theorem toResidue_mul (hw : 0 < w) (a b : BitVec w) :
    toResidue poly (mul poly a b) = toResidue poly a * toResidue poly b :=
  toResidue_mulLow poly hw a b w

theorem toResidue_one (hw : 0 < w) : toResidue poly (1#w) = 1 := by
  have hone : toPoly (1#w) = 1 := by
    ext i
    rw [coeff_toPoly, coeff_one, BitVec.getLsbD_one]
    by_cases hi : i = 0 <;> simp [hi, hw]
  rw [toResidue, hone, map_one]

end Lib.BinaryField
