import Mathlib.Data.Nat.Digits.Defs

/-!
# Numerals

A numeral writes a number with the most significant digit first and without leading zeros; zero is
the single digit.  There is one numeral for every number and radix (`IsNumeral.unique`), and it is
found by division: a digit is its own numeral, and the last digit of any other number is the
remainder (`IsNumeral.snoc`).
-/

namespace Lib

structure IsNumeral (radix n : Nat) (ds : List Nat) : Prop where
  lt : ∀ d ∈ ds, d < radix
  value : Nat.ofDigits radix ds.reverse = n
  head : ∀ t, ds = 0 :: t → t = []
  ne_nil : ds ≠ []

variable {radix n : Nat} {ds : List Nat}

theorem isNumeral_digit (h : n < radix) : IsNumeral radix n [n] where
  lt := by
    intro d hd
    rwa [List.mem_singleton.mp hd]
  value := Nat.ofDigits_singleton
  head := by
    intro t ht
    cases ht
    rfl
  ne_nil := List.cons_ne_nil n []

/-- **The last digit is the remainder.** -/
theorem IsNumeral.snoc (h : IsNumeral radix (n / radix) ds) (hn : radix ≤ n) (hr : 0 < radix) :
    IsNumeral radix n (ds ++ [n % radix]) where
  lt := by
    intro d hd
    rcases List.mem_append.mp hd with hd | hd
    · exact h.lt d hd
    · rw [List.mem_singleton.mp hd]
      exact Nat.mod_lt n hr
  value := by
    rw [List.reverse_append, List.reverse_singleton, List.singleton_append, Nat.ofDigits_cons,
      h.value]
    exact Nat.mod_add_div n radix
  head := by
    intro t ht
    obtain ⟨d, ds, rfl⟩ := List.exists_cons_of_ne_nil h.ne_nil
    rw [List.cons_append] at ht
    obtain ⟨rfl, -⟩ := List.cons.inj ht
    have hds := h.head ds rfl
    subst hds
    have hzero : (0 : Nat) = n / radix := by
      have := h.value
      rwa [List.reverse_singleton, Nat.ofDigits_singleton] at this
    exact absurd hzero (Nat.ne_of_lt (Nat.div_pos hn hr))
  ne_nil := List.append_ne_nil_of_right_ne_nil ds (List.cons_ne_nil _ _)

theorem IsNumeral.eq_singleton_or (h : IsNumeral radix n ds) (hr : 1 < radix) :
    ds = [0] ∧ n = 0 ∨ ds = (Nat.digits radix n).reverse ∧ n ≠ 0 := by
  obtain ⟨d, t, rfl⟩ := List.exists_cons_of_ne_nil h.ne_nil
  by_cases hd : d = 0
  · subst hd
    obtain rfl := h.head t rfl
    refine .inl ⟨rfl, ?_⟩
    have := h.value
    rw [List.reverse_singleton, Nat.ofDigits_singleton] at this
    exact this.symm
  · have hdigits := Nat.digits_ofDigits radix hr (d :: t).reverse
      (fun l hl => h.lt l (List.mem_reverse.mp hl)) fun hne => by
        rw [List.getLast_reverse]
        exact hd
    rw [h.value] at hdigits
    refine .inr ⟨?_, ?_⟩
    · rw [hdigits, List.reverse_reverse]
    · rintro rfl
      rw [Nat.digits_zero] at hdigits
      exact List.cons_ne_nil d t (List.reverse_eq_nil_iff.mp hdigits.symm)

/-- **There is one numeral for a number.** -/
theorem IsNumeral.unique {ds' : List Nat} (h : IsNumeral radix n ds) (h' : IsNumeral radix n ds')
    (hr : 1 < radix) : ds' = ds := by
  rcases h.eq_singleton_or hr with ⟨hd, hn⟩ | ⟨hd, hn⟩
  · rcases h'.eq_singleton_or hr with ⟨hd', -⟩ | ⟨-, hn'⟩
    · rw [hd, hd']
    · exact absurd hn hn'
  · rcases h'.eq_singleton_or hr with ⟨-, hn'⟩ | ⟨hd', -⟩
    · exact absurd hn' hn
    · rw [hd, hd']

/-- The value of a numeral, read from the left. -/
theorem IsNumeral.foldl (h : IsNumeral radix n ds) : ds.foldl (fun v d => v * radix + d) 0 = n := by
  rw [← h.value, Nat.ofDigits_eq_foldr, List.foldr_reverse]
  congr 1
  funext v d
  rw [Nat.mul_comm, Nat.add_comm]
  rfl

end Lib
