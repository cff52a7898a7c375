import Mathlib.Algebra.Group.Nat.Defs
import Mathlib.Data.List.Basic
import Mathlib.Tactic.Common

/-!
# Sums in one's complement

A sum of 16 bit words in which the carries are added at the low end again.  It is the sum modulo
65535, with 65535 in the place of 0 as soon as a word is not 0; `canon` is this number.  `fold` adds
the carries once, and `swap` exchanges the two bytes of a word, which is a product with 256.

`wordSum` takes a text as little endian words, from the low or from the high byte of a word on.  The
two differ by a product with 256 (`canon_wordSum_true`), so that the order of the bytes in memory
and the place at which a sum starts do not matter but for a swap at the end.
-/

namespace Lib

def fold (n : Nat) : Nat := n / 65536 + n % 65536

def swap (n : Nat) : Nat := n % 256 * 256 + n / 256 % 256

/-- The words of a text, the first byte the high one of its word if `high` says so. -/
def wordSum : Bool → List UInt8 → Nat
  | _, [] => 0
  | false, b :: bs => b.toNat + wordSum true bs
  | true, b :: bs => b.toNat * 256 + wordSum false bs

def canon (n : Nat) : Nat := if n = 0 then 0 else (n - 1) % 65535 + 1

theorem canon_lt (n : Nat) : canon n < 65536 := by
  unfold canon
  split <;> omega

theorem canon_of_lt {n : Nat} (h : n < 65536) : canon n = n := by
  unfold canon
  split <;> omega

/-- Two numbers have the same canonical one exactly if they differ by a multiple of 65535 and are
0 together. -/
theorem canon_eq_iff {m n : Nat} :
    canon m = canon n ↔ m % 65535 = n % 65535 ∧ (m = 0 ↔ n = 0) := by
  unfold canon
  split <;> split <;> omega

theorem canon_canon (n : Nat) : canon (canon n) = canon n := canon_of_lt (canon_lt n)

theorem fold_fold_lt {n : Nat} (h : n < 2 ^ 32) : fold (fold n) < 65536 := by
  unfold fold
  omega

theorem canon_fold (n : Nat) : canon (fold n) = canon n := by
  rw [canon_eq_iff]
  unfold fold
  omega

/-- Folding twice is enough. -/
theorem fold_fold {n : Nat} (h : n < 2 ^ 32) : fold (fold n) = canon n := by
  rw [← canon_of_lt (fold_fold_lt h), canon_fold, canon_fold]

theorem fold_eq {n : Nat} (h : n ≤ 65535 + 65535) : fold n = canon n := by
  have hlt : fold n < 65536 := by
    unfold fold
    omega
  rw [← canon_of_lt hlt, canon_fold]

theorem canon_add_left (m n : Nat) : canon (canon m + n) = canon (m + n) := by
  obtain ⟨hmod, hzero⟩ := canon_eq_iff.mp (canon_canon m)
  rw [canon_eq_iff]
  omega

theorem canon_add_right (m n : Nat) : canon (m + canon n) = canon (m + n) := by
  rw [Nat.add_comm, canon_add_left, Nat.add_comm]

theorem canon_mul_left (k n : Nat) : canon (k * canon n) = canon (k * n) := by
  obtain ⟨hmod, hzero⟩ := canon_eq_iff.mp (canon_canon n)
  rw [canon_eq_iff, Nat.mul_mod, hmod, ← Nat.mul_mod, Nat.mul_eq_zero, Nat.mul_eq_zero, hzero]
  exact ⟨rfl, Iff.rfl⟩

/-- A swap is a product. -/
theorem swap_eq {n : Nat} (h : n < 65536) : swap n = canon (256 * n) := by
  have hlt : swap n < 65536 := by
    unfold swap
    omega
  have hhigh : n / 256 % 256 = n / 256 := Nat.mod_eq_of_lt (by omega)
  have hmul : 256 * n = n % 256 * 256 + n / 256 + 65535 * (n / 256) := by omega
  rw [← canon_of_lt hlt, canon_eq_iff, swap, hhigh, hmul, Nat.add_mul_mod_self_left]
  omega

/-- Two of them cancel. -/
theorem canon_mul_mul (n : Nat) : canon (256 * (256 * n)) = canon n := by
  rw [canon_eq_iff]
  omega

/-! ### The words of a text -/

variable {xs ys : List UInt8}

theorem canon_wordSum_true (xs : List UInt8) :
    canon (wordSum true xs) = canon (256 * wordSum false xs) := by
  induction xs with
  | nil => rfl
  | cons b xs ih =>
    rw [wordSum, wordSum, Nat.mul_add, Nat.mul_comm]
    calc canon (256 * b.toNat + wordSum false xs)
        = canon (256 * b.toNat + canon (256 * (256 * wordSum false xs))) := by
          rw [canon_mul_mul, canon_add_right]
      _ = canon (256 * b.toNat + canon (256 * canon (wordSum true xs))) := by
          rw [ih, canon_mul_left]
      _ = canon (256 * b.toNat + 256 * wordSum true xs) := by
          rw [canon_mul_left, canon_add_right]

/-- The second text begins in the middle of a word if the first one ends there. -/
theorem wordSum_append (high : Bool) (xs ys : List UInt8) :
    wordSum high (xs ++ ys) =
      wordSum high xs + wordSum (high ^^ decide (xs.length % 2 = 1)) ys := by
  induction xs generalizing high with
  | nil =>
    rw [List.nil_append]
    cases high <;> simp [wordSum]
  | cons b xs ih =>
    have hpar : decide ((b :: xs).length % 2 = 1) = !decide (xs.length % 2 = 1) := by
      rw [List.length_cons, ← decide_not, decide_eq_decide]
      omega
    cases high with
    | false =>
      rw [List.cons_append, wordSum, wordSum, ih, hpar, Nat.add_assoc, Bool.true_xor,
        Bool.false_xor]
    | true =>
      rw [List.cons_append, wordSum, wordSum, ih, hpar, Nat.add_assoc, Bool.true_xor,
        Bool.false_xor, Bool.not_not]

end Lib
