import Mathlib.Data.List.Infix

/-!
# Searching for a substring

`OccursAt pat txt i` says that the pattern stands at the place `i` of the text, and `FirstAt` that
it does so there for the first time.  `lands` is a search that never goes back: it compares at a
place, returns behind the pattern if all of it was there, and otherwise goes on behind what it has
compared in vain, or at the next place if that was nothing.

Such a search can jump over an occurrence.  `Pieces pat u rest` describes the texts `u` in front of
`rest` it gets through without: `u` is cut into single bytes that do not start the pattern and into
attempts, starts of the pattern that the byte behind them does not continue.  `lands_eq_iff_pieces`
says that the search finds the first occurrence exactly in these cases, and `pieces_of_head_notMem`
that it always does for a pattern whose first byte does not come back.
-/

namespace Lib

variable {α : Type} {pat txt u rest : List α} {i : Nat}

/-! ### Occurrences -/

def OccursAt (pat txt : List α) (i : Nat) : Prop := pat <+: txt.drop i

/-- The first occurrence. -/
def FirstAt (pat txt : List α) (i : Nat) : Prop :=
  OccursAt pat txt i ∧ ∀ j, j < i → ¬OccursAt pat txt j

instance [DecidableEq α] : Decidable (OccursAt pat txt i) :=
  inferInstanceAs (Decidable (pat <+: txt.drop i))

instance [DecidableEq α] : Decidable (FirstAt pat txt i) :=
  inferInstanceAs (Decidable (_ ∧ ∀ j, j < i → ¬OccursAt pat txt j))

theorem OccursAt.le_length (hpat : pat ≠ []) (h : OccursAt pat txt i) :
    i + pat.length ≤ txt.length := by
  have hle := List.IsPrefix.length_le h
  have hpos := List.length_pos_iff.mpr hpat
  rw [List.length_drop] at hle
  omega

theorem FirstAt.unique {j : Nat} (hi : FirstAt pat txt i) (hj : FirstAt pat txt j) : i = j := by
  rcases Nat.lt_trichotomy i j with h | h | h
  · exact absurd hi.1 (hj.2 i h)
  · exact h
  · exact absurd hj.1 (hi.2 j h)

theorem exists_firstAt (h : OccursAt pat txt i) : ∃ j, FirstAt pat txt j := by
  induction i using Nat.strong_induction_on with
  | _ i ih =>
    by_cases hj : ∃ j, j < i ∧ OccursAt pat txt j
    · obtain ⟨j, hlt, hocc⟩ := hj
      exact ih j hlt hocc
    · exact ⟨i, h, fun j hlt hocc => hj ⟨j, hlt, hocc⟩⟩

theorem occursAt_drop {k : Nat} : OccursAt pat (txt.drop k) i ↔ OccursAt pat txt (k + i) := by
  rw [OccursAt, OccursAt, List.drop_drop]

theorem FirstAt.drop {k : Nat} (h : FirstAt pat txt (k + i)) : FirstAt pat (txt.drop k) i :=
  ⟨occursAt_drop.mpr h.1, fun j hj hocc => h.2 (k + j) (by omega) (occursAt_drop.mp hocc)⟩

theorem FirstAt.drop_left {k : Nat} (hk : k ≤ u.length) (h : FirstAt pat (u ++ rest) u.length) :
    FirstAt pat (u.drop k ++ rest) (u.drop k).length := by
  rw [← List.drop_append_of_le_length hk, List.length_drop]
  apply FirstAt.drop
  rwa [Nat.add_sub_cancel' hk]

/-! ### What two texts start with -/

variable [DecidableEq α]

/-- How many bytes the two texts share from their start. -/
def commonLen : List α → List α → Nat
  | a :: as, b :: bs => if a = b then commonLen as bs + 1 else 0
  | _, _ => 0

@[simp] theorem commonLen_nil_left (bs : List α) : commonLen [] bs = 0 := rfl

@[simp] theorem commonLen_nil_right (as : List α) : commonLen as [] = 0 := by cases as <;> rfl

theorem commonLen_le_left : ∀ as bs : List α, commonLen as bs ≤ as.length := by
  intro as
  induction as with
  | nil => intro bs; exact Nat.zero_le 0
  | cons a as ih =>
    intro bs
    cases bs with
    | nil => exact Nat.zero_le _
    | cons b bs =>
      rw [commonLen]
      split
      · exact Nat.succ_le_succ (ih bs)
      · exact Nat.zero_le _

theorem take_commonLen : ∀ as bs : List α,
    as.take (commonLen as bs) <+: bs ∧
      (commonLen as bs < as.length → bs[commonLen as bs]? ≠ as[commonLen as bs]?) := by
  intro as
  induction as with
  | nil => intro bs; exact ⟨List.nil_prefix, fun h => absurd h (Nat.not_lt_zero _)⟩
  | cons a as ih =>
    intro bs
    cases bs with
    | nil => exact ⟨List.nil_prefix, fun _ h => by cases h⟩
    | cons b bs =>
      rw [commonLen]
      by_cases hab : a = b
      · subst hab
        rw [if_pos rfl, List.take_succ_cons, List.prefix_cons_inj, List.getElem?_cons_succ,
          List.getElem?_cons_succ, List.length_cons, Nat.succ_lt_succ_iff]
        exact ih bs
      · rw [if_neg hab]
        refine ⟨List.nil_prefix, fun _ h => hab ?_⟩
        simpa using h.symm

theorem commonLen_comm : ∀ as bs : List α, commonLen as bs = commonLen bs as := by
  intro as
  induction as with
  | nil => intro bs; exact (commonLen_nil_right bs).symm
  | cons a as ih =>
    intro bs
    cases bs with
    | nil => rfl
    | cons b bs =>
      rw [commonLen, commonLen, ih]
      exact ite_congr (propext eq_comm) (fun _ => rfl) fun _ => rfl

theorem commonLen_le_right (as bs : List α) : commonLen as bs ≤ bs.length := by
  rw [commonLen_comm]
  exact commonLen_le_left bs as

/-- A common start is no longer than `commonLen`. -/
theorem length_le_commonLen : ∀ {p as bs : List α}, p <+: as → p <+: bs →
    p.length ≤ commonLen as bs := by
  intro p
  induction p with
  | nil => intro as bs _ _; exact Nat.zero_le _
  | cons c p ih =>
    intro as bs ha hb
    cases as with
    | nil => exact absurd (List.prefix_nil.mp ha) (List.cons_ne_nil c p)
    | cons a as =>
      cases bs with
      | nil => exact absurd (List.prefix_nil.mp hb) (List.cons_ne_nil c p)
      | cons b bs =>
        obtain ⟨rfl, ha'⟩ := List.cons_prefix_cons.mp ha
        obtain ⟨rfl, hb'⟩ := List.cons_prefix_cons.mp hb
        rw [commonLen, if_pos rfl]
        exact Nat.succ_le_succ (ih ha' hb')

theorem commonLen_eq_length_iff : commonLen pat txt = pat.length ↔ pat <+: txt := by
  constructor
  · intro h
    have := (take_commonLen pat txt).1
    rwa [h, List.take_length] at this
  · intro h
    exact Nat.le_antisymm (commonLen_le_left pat txt)
      (length_le_commonLen (List.prefix_refl pat) h)

theorem getElem?_of_lt_commonLen {as bs : List α} (h : i < commonLen as bs) : bs[i]? = as[i]? := by
  obtain ⟨r, hr⟩ := (take_commonLen as bs).1
  have hle := commonLen_le_left as bs
  have hlen : (as.take (commonLen as bs)).length = commonLen as bs := List.length_take_of_le hle
  calc bs[i]? = (as.take (commonLen as bs) ++ r)[i]? := by rw [hr]
    _ = (as.take (commonLen as bs))[i]? := List.getElem?_append_left (by omega)
    _ = as[i]? := List.getElem?_take_of_lt h

/-- A common start that does not go on is the whole of it. -/
theorem commonLen_eq {p as bs : List α} (ha : p <+: as) (hb : p <+: bs)
    (h : bs[p.length]? ≠ as[p.length]?) : commonLen as bs = p.length := by
  have hle := length_le_commonLen ha hb
  have hge : ¬p.length < commonLen as bs := fun hlt => h (getElem?_of_lt_commonLen hlt)
  omega

/-! ### A search that never goes back -/

/-- The place behind the pattern at which the search ends. -/
def lands (pat txt : List α) : Option Nat :=
  if commonLen pat txt = pat.length then some pat.length
  else if txt = [] then none
  else (lands pat (txt.drop (max 1 (commonLen pat txt)))).map (max 1 (commonLen pat txt) + ·)
termination_by txt.length
decreasing_by
  rename_i _ hne
  have := List.length_pos_iff.mpr hne
  rw [List.length_drop]
  omega

/-- What the search finds is an occurrence. -/
theorem occursAt_of_lands : ∀ (n : Nat) {txt : List α} {e : Nat}, txt.length = n →
    lands pat txt = some e → ∃ j, OccursAt pat txt j ∧ e = j + pat.length := by
  intro n
  induction n using Nat.strong_induction_on with
  | _ n ih =>
    intro txt e hn h
    rw [lands] at h
    by_cases hk : commonLen pat txt = pat.length
    · rw [if_pos hk] at h
      cases h
      exact ⟨0, commonLen_eq_length_iff.mp hk, (Nat.zero_add _).symm⟩
    · rw [if_neg hk] at h
      by_cases hne : txt = []
      · rw [if_pos hne] at h
        cases h
      · rw [if_neg hne] at h
        obtain ⟨e', he', rfl⟩ := Option.map_eq_some_iff.mp h
        have hpos := List.length_pos_iff.mpr hne
        obtain ⟨j, hj, rfl⟩ := ih _ (by rw [List.length_drop]; omega) rfl he'
        exact ⟨_, occursAt_drop.mp hj, (Nat.add_assoc ..).symm⟩

/-- The text `u` in front of `rest`, cut into bytes that do not start the pattern and attempts: starts
of the pattern that what follows does not continue. -/
inductive Pieces (pat rest : List α) : List α → Prop
  | nil : Pieces pat rest []
  | byte {c : α} {u : List α} : pat[0]? ≠ some c → Pieces pat rest u → Pieces pat rest (c :: u)
  | attempt {p u : List α} : p ≠ [] → p <+: pat → (u ++ rest)[0]? ≠ pat[p.length]? →
      Pieces pat rest u → Pieces pat rest (p ++ u)

/-- The first piece is as long as what the search compares there. -/
theorem Pieces.drop (h : Pieces pat rest u) (hu : u ≠ []) :
    max 1 (commonLen pat (u ++ rest)) ≤ u.length ∧
      Pieces pat rest (u.drop (max 1 (commonLen pat (u ++ rest)))) := by
  cases h with
  | nil => exact absurd rfl hu
  | @byte c u hc h =>
    have hk : commonLen pat (c :: u ++ rest) = 0 :=
      commonLen_eq List.nil_prefix List.nil_prefix fun he => hc he.symm
    rw [hk]
    exact ⟨Nat.succ_le_succ (Nat.zero_le _), h⟩
  | @attempt p u hp hpre hnext h =>
    have hk : commonLen pat (p ++ u ++ rest) = p.length := by
      refine commonLen_eq hpre ((List.prefix_append p u).trans (List.prefix_append _ rest)) ?_
      rw [List.append_assoc, List.getElem?_append_right (Nat.le_refl _), Nat.sub_self]
      exact hnext
    have hpos := List.length_pos_iff.mpr hp
    rw [hk, Nat.max_eq_right hpos, List.drop_left]
    exact ⟨by rw [List.length_append]; omega, h⟩

theorem pieces_of_drop (hk : commonLen pat (u ++ rest) < pat.length) (hu : u ≠ [])
    (hle : max 1 (commonLen pat (u ++ rest)) ≤ u.length)
    (h : Pieces pat rest (u.drop (max 1 (commonLen pat (u ++ rest))))) : Pieces pat rest u := by
  have hnext := (take_commonLen pat (u ++ rest)).2 hk
  have hpre := (take_commonLen pat (u ++ rest)).1
  generalize commonLen pat (u ++ rest) = k at *
  cases k with
  | zero =>
    cases u with
    | nil => exact absurd rfl hu
    | cons c u => exact .byte (fun he => hnext he.symm) h
  | succ k =>
    have hmax : max 1 (k + 1) = k + 1 := by omega
    rw [hmax] at h hle
    have htake : u.take (k + 1) = pat.take (k + 1) := by
      have hlen : (pat.take (k + 1)).length = k + 1 := by
        rw [List.length_take]
        omega
      have := List.prefix_iff_eq_take.mp hpre
      rw [hlen, List.take_append_of_le_length hle] at this
      exact this.symm
    rw [← List.take_append_drop (k + 1) u]
    refine .attempt (fun hn => ?_) (htake ▸ List.take_prefix _ _) ?_ h
    · have := congrArg List.length hn
      rw [List.length_take_of_le hle] at this
      cases this
    · rw [List.length_take_of_le hle]
      have hdrop : (u.drop (k + 1) ++ rest)[0]? = (u ++ rest)[k + 1]? := by
        rw [← List.drop_append_of_le_length hle, List.getElem?_drop]
      rw [hdrop]
      exact hnext

/-- **The search finds the first occurrence exactly when the text in front of it falls into
pieces.** -/
theorem lands_eq_iff_pieces : ∀ (n : Nat) {u : List α}, u.length = n →
    FirstAt pat (u ++ rest) u.length →
    (lands pat (u ++ rest) = some (u.length + pat.length) ↔ Pieces pat rest u) := by
  intro n
  induction n using Nat.strong_induction_on with
  | _ n ih =>
    intro u hn hfirst
    by_cases hu : u = []
    · subst hu
      refine iff_of_true ?_ .nil
      have hk := commonLen_eq_length_iff.mpr hfirst.1
      rw [List.length_nil, List.drop_zero, List.nil_append] at hk
      rw [List.nil_append, lands, if_pos hk, List.length_nil, Nat.zero_add]
    · have hpos := List.length_pos_iff.mpr hu
      have hne : commonLen pat (u ++ rest) ≠ pat.length := fun hk =>
        hfirst.2 0 hpos (commonLen_eq_length_iff.mp hk)
      have hlt : commonLen pat (u ++ rest) < pat.length :=
        Nat.lt_of_le_of_ne (commonLen_le_left _ _) hne
      rw [lands, if_neg hne, if_neg fun h => hu (List.append_eq_nil_iff.mp h).1]
      have hhop : 1 ≤ max 1 (commonLen pat (u ++ rest)) := Nat.le_max_left _ _
      have hpieces : Pieces pat rest u ↔ max 1 (commonLen pat (u ++ rest)) ≤ u.length ∧
          Pieces pat rest (u.drop (max 1 (commonLen pat (u ++ rest)))) :=
        ⟨fun h => h.drop hu, fun h => pieces_of_drop hlt hu h.1 h.2⟩
      rw [hpieces]
      generalize max 1 (commonLen pat (u ++ rest)) = hop at *
      by_cases hle : hop ≤ u.length
      · have hlen : (u.drop hop).length = u.length - hop := List.length_drop
        have hrec := ih (u.length - hop) (by omega) hlen (hfirst.drop_left hle)
        rw [List.drop_append_of_le_length hle, and_iff_right hle, ← hrec, hlen,
          Option.map_eq_some_iff]
        constructor
        · rintro ⟨e, he, hsum⟩
          rw [he, Option.some.injEq]
          omega
        · intro he
          exact ⟨_, he, by omega⟩
      · -- the attempt runs into the occurrence, and the search ends behind it if at all
        refine iff_of_false (fun h => ?_) fun h => hle h.1
        obtain ⟨e, he, hsum⟩ := Option.map_eq_some_iff.mp h
        obtain ⟨j, -, rfl⟩ := occursAt_of_lands _ rfl he
        omega

theorem lands_iff (hpat : pat ≠ []) (h : FirstAt pat txt i) :
    lands pat txt = some (i + pat.length) ↔ Pieces pat (txt.drop i) (txt.take i) := by
  have hi : i ≤ txt.length := by
    have := OccursAt.le_length hpat h.1
    omega
  have hlen : (txt.take i).length = i := List.length_take_of_le hi
  have hfirst : FirstAt pat (txt.take i ++ txt.drop i) (txt.take i).length := by
    rwa [List.take_append_drop, hlen]
  have hsplit := lands_eq_iff_pieces i hlen hfirst
  rwa [List.take_append_drop, hlen] at hsplit

/-- **A pattern whose first byte does not come back is never jumped over.** -/
theorem pieces_of_head_notMem {a : α} {p : List α} (ha : a ∉ p) : ∀ (n : Nat) {u : List α},
    u.length = n → FirstAt (a :: p) (u ++ rest) u.length → Pieces (a :: p) rest u := by
  intro n
  induction n using Nat.strong_induction_on with
  | _ n ih =>
    intro u hn hfirst
    by_cases hu : u = []
    · subst hu
      exact .nil
    · have hpos := List.length_pos_iff.mpr hu
      have hlt : commonLen (a :: p) (u ++ rest) < (a :: p).length :=
        Nat.lt_of_le_of_ne (commonLen_le_left _ _) fun hk =>
          hfirst.2 0 hpos (commonLen_eq_length_iff.mp hk)
      have hle : max 1 (commonLen (a :: p) (u ++ rest)) ≤ u.length := by
        by_contra hgt
        obtain ⟨m, hm⟩ := Nat.exists_eq_add_one_of_ne_zero (Nat.ne_of_gt hpos)
        have hshared : (u ++ rest)[u.length]? = (a :: p)[u.length]? :=
          getElem?_of_lt_commonLen (by omega)
        obtain ⟨r, hr⟩ := hfirst.1
        rw [List.drop_left] at hr
        rw [List.getElem?_append_right (Nat.le_refl _), Nat.sub_self, ← hr, hm,
          List.getElem?_cons_succ] at hshared
        exact ha (List.mem_of_getElem? hshared.symm)
      refine pieces_of_drop hlt hu hle ?_
      have hhop : 1 ≤ max 1 (commonLen (a :: p) (u ++ rest)) := Nat.le_max_left _ _
      refine ih _ ?_ rfl (hfirst.drop_left hle)
      rw [List.length_drop]
      omega

end Lib
