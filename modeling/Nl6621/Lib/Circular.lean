import Mathlib.Data.List.Cycle
import Mathlib.Tactic.Common

/-!
# Circular doubly linked lists

`Links` are the two link functions of a memory of nodes, and `L.Circular l` says that they
close the nodes of `l` to a ring: each is linked to the next one, the last one to the first, and
`next` and `prev` are inverse on it.  The ring has no beginning (`Circular.comm`).

`Circular.splice` puts a chain of nodes in at the end of the list, `Circular.cut` takes one out
there.  With the rotation these are the edits at any other place.  Both ask of the new links only
that the nodes at the seams are linked and that the others are as they were, so it does not
matter in which order a program writes them.
-/

namespace Lib

structure Links (α : Type) where
  next : α → α
  prev : α → α

namespace Links

variable {α : Type} {L L' : Links α} {a b : α} {l ys : List α}

/-- `b` comes after `a`, from both sides. -/
def Linked (L : Links α) (a b : α) : Prop := L.next a = b ∧ L.prev b = a

def Circular (L : Links α) (l : List α) : Prop := (l : Cycle α).Chain L.Linked

theorem circular_iff (hl : l ≠ []) :
    L.Circular l ↔ l.IsChain L.Linked ∧ L.Linked (l.getLast hl) (l.head hl) := by
  cases l with
  | nil => exact absurd rfl hl
  | cons a m =>
    rw [Circular, Cycle.chain_coe_cons, ← List.cons_append, List.isChain_append]
    refine ⟨fun h => ⟨h.1, h.2.2 _ (List.getLast?_eq_some_getLast hl) a rfl⟩, fun h => ?_⟩
    refine ⟨h.1, List.isChain_singleton _, fun x hx y hy => ?_⟩
    rw [List.getLast?_eq_some_getLast hl] at hx
    cases hx
    cases hy
    exact h.2

/-- A chain depends on the links inside it only. -/
theorem isChain_congr (hn : ∀ x ∈ l.dropLast, L'.next x = L.next x)
    (hp : ∀ x ∈ l.tail, L'.prev x = L.prev x) (h : l.IsChain L.Linked) : l.IsChain L'.Linked := by
  induction l with
  | nil => exact List.isChain_nil
  | cons a m ih =>
    cases m with
    | nil => exact List.isChain_singleton _
    | cons b m =>
      rw [List.isChain_cons_cons] at h ⊢
      refine ⟨⟨?_, ?_⟩, ih (fun x hx => hn x ?_) (fun x hx => hp x ?_) h.2⟩
      · rw [hn a List.mem_cons_self, h.1.1]
      · rw [hp b List.mem_cons_self, h.1.2]
      · exact List.mem_cons_of_mem a hx
      · exact List.mem_cons_of_mem b hx

namespace Circular

theorem congr (h : L.Circular l) (hn : ∀ x ∈ l, L'.next x = L.next x)
    (hp : ∀ x ∈ l, L'.prev x = L.prev x) : L'.Circular l := by
  by_cases hl : l = []
  · subst hl
    exact Cycle.Chain.nil _
  rw [circular_iff hl] at h ⊢
  refine ⟨isChain_congr (fun x hx => hn x (List.mem_of_mem_dropLast hx))
    (fun x hx => hp x (List.mem_of_mem_tail hx)) h.1, ?_, ?_⟩
  · rw [hn _ (List.getLast_mem hl), h.2.1]
  · rw [hp _ (List.head_mem hl), h.2.2]

/-- **A ring has no beginning.** -/
theorem comm (L : Links α) (l ys : List α) : L.Circular (l ++ ys) ↔ L.Circular (ys ++ l) := by
  have heq : ((l ++ ys : List α) : Cycle α) = (ys ++ l : List α) :=
    Cycle.coe_eq_coe.mpr List.isRotated_append
  rw [Circular, Circular, heq]

theorem isChain (h : L.Circular (l ++ ys)) : ys.IsChain L.Linked := by
  by_cases hne : l ++ ys = []
  · rw [(List.append_eq_nil_iff.mp hne).2]
    exact List.isChain_nil
  · exact (List.isChain_append.mp ((circular_iff hne).mp h).1).2.1

theorem prev_head (h : L.Circular (a :: l)) : L.prev a = (a :: l).getLast (List.cons_ne_nil a l) :=
  ((circular_iff (List.cons_ne_nil a l)).mp h).2.2

theorem next_head (h : L.Circular (a :: l)) :
    L.next a = (l ++ [a]).head (List.append_ne_nil_of_right_ne_nil l (List.cons_ne_nil a [])) := by
  have hr : L.Circular (l ++ [a]) := (comm L [a] l).mp h
  have hne : l ++ [a] ≠ [] := List.append_ne_nil_of_right_ne_nil l (List.cons_ne_nil a [])
  have hc := ((circular_iff hne).mp hr).2.1
  rwa [List.getLast_append_singleton] at hc

end Circular

theorem ne_getLast_of_mem_dropLast (hnd : l.Nodup) (hl : l ≠ []) {x : α} (hx : x ∈ l.dropLast) :
    x ≠ l.getLast hl := by
  rintro rfl
  rw [← List.dropLast_append_getLast hl] at hnd
  exact (List.nodup_append.mp hnd).2.2 _ hx _ (List.mem_singleton_self _) rfl

theorem ne_head_of_mem_tail (hnd : l.Nodup) (hl : l ≠ []) {x : α} (hx : x ∈ l.tail) :
    x ≠ l.head hl := by
  rintro rfl
  rw [← List.cons_head_tail hl] at hnd
  exact (List.nodup_cons.mp hnd).1 hx

/-- **Splicing a chain in behind the last node.** -/
theorem Circular.splice (h : L.Circular l) (hys : ys.IsChain L.Linked) (hl : l ≠ []) (hne : ys ≠ [])
    (hnd : (l ++ ys).Nodup) (hin : L'.Linked (l.getLast hl) (ys.head hne))
    (hout : L'.Linked (ys.getLast hne) (l.head hl))
    (hnext : ∀ x ∈ l ++ ys, x ≠ l.getLast hl → x ≠ ys.getLast hne → L'.next x = L.next x)
    (hprev : ∀ x ∈ l ++ ys, x ≠ l.head hl → x ≠ ys.head hne → L'.prev x = L.prev x) :
    L'.Circular (l ++ ys) := by
  obtain ⟨hndl, hndy, hdis⟩ := List.nodup_append.mp hnd
  have hchain := ((circular_iff hl).mp h).1
  have hall : l ++ ys ≠ [] := List.append_ne_nil_of_left_ne_nil hl ys
  rw [circular_iff hall, List.isChain_append]
  refine ⟨⟨isChain_congr ?_ ?_ hchain, isChain_congr ?_ ?_ hys, ?_⟩, ?_⟩
  · intro x hx
    have hxl := List.mem_of_mem_dropLast hx
    exact hnext x (List.mem_append_left _ hxl) (ne_getLast_of_mem_dropLast hndl hl hx)
      (hdis x hxl _ (List.getLast_mem hne))
  · intro x hx
    have hxl := List.mem_of_mem_tail hx
    exact hprev x (List.mem_append_left _ hxl) (ne_head_of_mem_tail hndl hl hx)
      (hdis x hxl _ (List.head_mem hne))
  · intro x hx
    have hxy := List.mem_of_mem_dropLast hx
    exact hnext x (List.mem_append_right _ hxy) (hdis _ (List.getLast_mem hl) x hxy).symm
      (ne_getLast_of_mem_dropLast hndy hne hx)
  · intro x hx
    have hxy := List.mem_of_mem_tail hx
    exact hprev x (List.mem_append_right _ hxy) (hdis _ (List.head_mem hl) x hxy).symm
      (ne_head_of_mem_tail hndy hne hx)
  · intro x hx y hy
    rw [List.getLast?_eq_some_getLast hl] at hx
    rw [List.head?_eq_some_head hne] at hy
    cases hx
    cases hy
    exact hin
  · rw [List.getLast_append_of_ne_nil hall hne, List.head_append_of_ne_nil hl]
    exact hout

/-- **Cutting out what lies behind the last node.** -/
theorem Circular.cut (h : L.Circular (l ++ ys)) (hl : l ≠ []) (hnd : l.Nodup)
    (hseam : L'.Linked (l.getLast hl) (l.head hl))
    (hnext : ∀ x ∈ l, x ≠ l.getLast hl → L'.next x = L.next x)
    (hprev : ∀ x ∈ l, x ≠ l.head hl → L'.prev x = L.prev x) : L'.Circular l := by
  have hall : l ++ ys ≠ [] := List.append_ne_nil_of_left_ne_nil hl ys
  have hchain := (List.isChain_append.mp ((circular_iff hall).mp h).1).1
  rw [circular_iff hl]
  refine ⟨isChain_congr ?_ ?_ hchain, hseam⟩
  · intro x hx
    exact hnext x (List.mem_of_mem_dropLast hx) (ne_getLast_of_mem_dropLast hnd hl hx)
  · intro x hx
    exact hprev x (List.mem_of_mem_tail hx) (ne_head_of_mem_tail hnd hl hx)

end Links

end Lib
