import Mathlib.Logic.Function.Basic
import Mathlib.Tactic.Common

/-!
# NOR flash

A NOR flash is an array of bytes.  Erasing sets a sector to `0xff`, programming can only clear
bits: the byte sent is anded into the cell, and a program command that runs over the end of
its page goes on at the page's beginning.  `Nor` keeps the cells, and a log of the commands
that were sent.

`laid c a n d` is the array `c` with `n` bytes of `d` laid over it at `a`, and `anded c a n d` the
same with the bytes anded in.  A program command that stays inside its page ands
(`cell_program`), on erased cells anding is laying (`anded_erased`), and both can be done in
parts (`laid_laid`, `anded_anded`).
-/

namespace Lib

open Function

inductive NorCommand where
  | erase (a : Nat)
  | program (a n : Nat)

structure Nor where
  cell : Nat → UInt8
  log : List NorCommand

variable {c d : Nat → UInt8} {a n m k page sector : Nat} {f : Nor}

/-! ### Arrays with a range replaced -/

def laid (c : Nat → UInt8) (a n : Nat) (d : Nat → UInt8) : Nat → UInt8 :=
  fun k => if a ≤ k ∧ k < a + n then d (k - a) else c k

def anded (c : Nat → UInt8) (a n : Nat) (d : Nat → UInt8) : Nat → UInt8 :=
  fun k => if a ≤ k ∧ k < a + n then c k &&& d (k - a) else c k

theorem laid_inside (h : k < n) : laid c a n d (a + k) = d k := by
  rw [laid, if_pos ⟨by omega, by omega⟩, Nat.add_sub_cancel_left]

theorem laid_outside (h : k < a ∨ a + n ≤ k) : laid c a n d k = c k := if_neg (by omega)

theorem laid_congr {d' : Nat → UInt8} (h : ∀ i, i < n → d i = d' i) : laid c a n d = laid c a n d' := by
  funext k
  by_cases hk : a ≤ k ∧ k < a + n
  · rw [laid, laid, if_pos hk, if_pos hk, h (k - a) (by omega)]
  · rw [laid, laid, if_neg hk, if_neg hk]

theorem laid_zero : laid c a 0 d = c := by
  funext k
  exact laid_outside (by omega)

theorem anded_zero : anded c a 0 d = c := by
  funext k
  exact if_neg (by omega)

theorem laid_laid : laid (laid c a n d) (a + n) m (fun i => d (n + i)) = laid c a (n + m) d := by
  funext k
  by_cases h1 : a ≤ k ∧ k < a + n
  · rw [laid_outside (by omega), laid, laid, if_pos h1, if_pos (by omega)]
  by_cases h2 : a + n ≤ k ∧ k < a + n + m
  · rw [laid, if_pos h2, laid, if_pos (by omega)]
    congr 1
    omega
  · rw [laid_outside (by omega), laid_outside (by omega), laid_outside (by omega)]

theorem anded_anded :
    anded (anded c a n d) (a + n) m (fun i => d (n + i)) = anded c a (n + m) d := by
  funext k
  by_cases h1 : a ≤ k ∧ k < a + n
  · rw [anded, if_neg (by omega), anded, anded, if_pos h1, if_pos (by omega)]
  by_cases h2 : a + n ≤ k ∧ k < a + n + m
  · rw [anded, anded, anded, if_pos h2, if_neg (by omega), if_pos (by omega)]
    congr 2
    omega
  · rw [anded, anded, anded, if_neg h2, if_neg (by omega), if_neg (by omega)]

/-- **On erased cells anding is laying.** -/
theorem anded_erased (h : ∀ k, a ≤ k → k < a + n → c k = 0xff) : anded c a n d = laid c a n d := by
  funext k
  by_cases hk : a ≤ k ∧ k < a + n
  · rw [anded, laid, if_pos hk, if_pos hk, h k hk.1 hk.2]
    exact UInt8.neg_one_and
  · rw [anded, laid, if_neg hk, if_neg hk]

/-! ### The commands -/

/-- The cell of byte `i` of a program command at `a`. -/
def pageAt (page a i : Nat) : Nat := a / page * page + (a + i) % page

def programBytes (page : Nat) (c : Nat → UInt8) (a : Nat) (d : Nat → UInt8) : Nat → Nat → UInt8
  | 0 => c
  | i + 1 =>
    let c := programBytes page c a d i
    update c (pageAt page a i) (c (pageAt page a i) &&& d i)

def Nor.program (page a n : Nat) (d : Nat → UInt8) (f : Nor) : Nor :=
  ⟨programBytes page f.cell a d n, f.log ++ [.program a n]⟩

def Nor.erase (sector a : Nat) (f : Nor) : Nor :=
  ⟨laid f.cell (a / sector * sector) sector fun _ => 0xff, f.log ++ [.erase a]⟩

/-- The command does not run over the end of a page. -/
def NorCommand.InPage (page : Nat) : NorCommand → Prop
  | .erase _ => True
  | .program a n => a % page + n ≤ page

theorem pageAt_of_lt (h : a % page + k < page) : pageAt page a k = a + k := by
  have hdiv := Nat.div_add_mod' a page
  rw [pageAt, Nat.add_mod, Nat.mod_eq_of_lt (Nat.lt_of_le_of_lt (Nat.le_add_left k _) h),
    Nat.mod_eq_of_lt h]
  omega

theorem programBytes_eq (h : a % page + n ≤ page) : programBytes page c a d n = anded c a n d := by
  induction n with
  | zero => exact anded_zero.symm
  | succ n ih =>
    rw [programBytes, ih (by omega), pageAt_of_lt (by omega)]
    funext k
    by_cases hk : k = a + n
    · subst hk
      rw [update_self, anded, anded, if_neg (by omega), if_pos (by omega), Nat.add_sub_cancel_left]
    · rw [update_of_ne hk, anded, anded]
      by_cases hin : a ≤ k ∧ k < a + n
      · rw [if_pos hin, if_pos (by omega)]
      · rw [if_neg hin, if_neg (by omega)]

/-- **A program command inside its page ands its bytes in.** -/
theorem cell_program (h : a % page + n ≤ page) : (f.program page a n d).cell = anded f.cell a n d :=
  programBytes_eq h

end Lib
