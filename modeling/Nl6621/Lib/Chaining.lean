import Mathlib.Tactic.Common

/-!
# Cipher block chaining

Every block is added to the block of the cipher text before it and then enciphered; the first one is
added to an initial vector.  `E` and `D` are the two halves of a block cipher, and `add` undoes itself.

`unchain_chain` is the round trip, for blocks with a property that all operations keep.
`unchain_concat` looks at the chain from its end.
-/

namespace Lib

variable {α : Type} (E D : α → α) (add : α → α → α)

def chain : α → List α → List α
  | _, [] => []
  | iv, b :: bs => E (add b iv) :: chain (E (add b iv)) bs

def unchain : α → List α → List α
  | _, [] => []
  | iv, c :: cs => add (D c) iv :: unchain c cs

@[simp] theorem length_chain (iv : α) (bs : List α) : (chain E add iv bs).length = bs.length := by
  induction bs generalizing iv with
  | nil => rfl
  | cons b bs ih => rw [chain, List.length_cons, List.length_cons, ih]

@[simp] theorem length_unchain (iv : α) (cs : List α) :
    (unchain D add iv cs).length = cs.length := by
  induction cs generalizing iv with
  | nil => rfl
  | cons c cs ih => rw [unchain, List.length_cons, List.length_cons, ih]

theorem unchain_concat (iv : α) (cs : List α) (c : α) :
    unchain D add iv (cs ++ [c]) = unchain D add iv cs ++ [add (D c) (cs.getLastD iv)] := by
  induction cs generalizing iv with
  | nil => rfl
  | cons c' cs ih => rw [List.cons_append, unchain, ih, unchain, List.cons_append, List.getLastD_cons]

section

variable {E D add} {P : α → Prop} {iv : α} {bs : List α}

theorem forall_chain (hE : ∀ b, P b → P (E b)) (hadd : ∀ a b, P a → P b → P (add a b)) (hiv : P iv)
    (hbs : ∀ b ∈ bs, P b) : ∀ c ∈ chain E add iv bs, P c := by
  induction bs generalizing iv with
  | nil => exact hbs
  | cons b bs ih =>
    obtain ⟨hb, hbs⟩ := List.forall_mem_cons.mp hbs
    have hc : P (E (add b iv)) := hE _ (hadd b iv hb hiv)
    exact List.forall_mem_cons.mpr ⟨hc, ih hc hbs⟩

theorem forall_unchain (hD : ∀ b, P b → P (D b)) (hadd : ∀ a b, P a → P b → P (add a b))
    (hiv : P iv) (hbs : ∀ b ∈ bs, P b) : ∀ c ∈ unchain D add iv bs, P c := by
  induction bs generalizing iv with
  | nil => exact hbs
  | cons b bs ih =>
    obtain ⟨hb, hbs⟩ := List.forall_mem_cons.mp hbs
    exact List.forall_mem_cons.mpr ⟨hadd _ _ (hD b hb) hiv, ih hb hbs⟩

/-- **What has been chained comes back.** -/
theorem unchain_chain (hE : ∀ b, P b → P (E b)) (hadd : ∀ a b, P a → P b → P (add a b))
    (hDE : ∀ b, P b → D (E b) = b) (hself : ∀ a b, P a → P b → add (add a b) b = a) (hiv : P iv)
    (hbs : ∀ b ∈ bs, P b) : unchain D add iv (chain E add iv bs) = bs := by
  induction bs generalizing iv with
  | nil => rfl
  | cons b bs ih =>
    obtain ⟨hb, hbs⟩ := List.forall_mem_cons.mp hbs
    have hsum := hadd b iv hb hiv
    rw [chain, unchain, hDE _ hsum, hself b iv hb hiv, ih (hE _ hsum) hbs]

end

end Lib
