import Mathlib.Data.List.Induction
import Mathlib.Tactic.Common

/-!
# Scans of a table

A loop over the indices of a table looks for an entry with a property and keeps
the first one it meets, or the last one.  `FindsIn l p o` is what both loops
establish about the pointer `o` they keep once they have passed the indices `l`:
`o` has the property, and if `o` is null no entry of `l` has it.  The lemmas are
the steps of such a loop, `FindsIn.first` and `FindsIn.last`; `foldl_scan` is the
induction over its rounds.
-/

namespace Lib

variable {ι σ : Type} {l : List ι} {p : ι → Prop} {o : Option ι} {i : ι}

/-- The pointer kept by a scan of `l` for the property `p`. -/
def FindsIn (l : List ι) (p : ι → Prop) (o : Option ι) : Prop :=
  (∀ i, o = some i → p i) ∧ (o = none → ∀ i ∈ l, ¬ p i)

namespace FindsIn

theorem nil : FindsIn [] p none :=
  ⟨fun _ h => (nomatch h), fun _ _ h => (nomatch h)⟩

theorem skip (h : FindsIn l p o) (hi : ¬ p i) : FindsIn (l ++ [i]) p o := by
  refine ⟨h.1, fun ho j hj => ?_⟩
  rcases List.mem_append.mp hj with hj | hj
  · exact h.2 ho j hj
  · rw [List.mem_singleton.mp hj]
    exact hi

/-- A round of a scan that keeps the first entry. -/
theorem first [Decidable (p i)] (h : FindsIn l p o) :
    FindsIn (l ++ [i]) p (if o = none ∧ p i then some i else o) := by
  split
  · rename_i hc
    refine ⟨fun j hj => ?_, fun hn => nomatch hn⟩
    cases hj
    exact hc.2
  · rename_i hc
    cases o with
    | none => exact h.skip fun hp => hc ⟨rfl, hp⟩
    | some j => exact ⟨h.1, fun hn => nomatch hn⟩

/-- A round of a scan that keeps the last entry. -/
theorem last (hi : p i) : FindsIn (l ++ [i]) p (some i) := by
  refine ⟨fun j hj => ?_, fun hn => nomatch hn⟩
  cases hj
  exact hi

/-- A null pointer says that there is no such entry. -/
theorem eq_none_iff (h : FindsIn l p o) (hl : ∀ i, i ∈ l) : o = none ↔ ∀ i, ¬ p i := by
  refine ⟨fun ho i => h.2 ho i (hl i), fun hp => ?_⟩
  cases ho : o with
  | none => rfl
  | some i => exact absurd (h.1 i ho) (hp i)

end FindsIn

/-- **The induction over the rounds of a scan.** -/
theorem foldl_scan {f : σ → ι → σ} {s : σ} {P : List ι → σ → Prop} (h0 : P [] s)
    (hstep : ∀ l s i, P l s → P (l ++ [i]) (f s i)) (l : List ι) : P l (l.foldl f s) := by
  induction l using List.reverseRecOn with
  | nil => exact h0
  | append_singleton l i ih =>
    rw [List.foldl_append]
    exact hstep l _ i ih

end Lib
