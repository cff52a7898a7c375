import Mathlib.Algebra.BigOperators.Group.List.Basic
import Mathlib.Algebra.Ring.Nat
import Mathlib.Data.List.Chain
import Mathlib.Tactic.Common

/-!
# Ranges tiled by blocks

The abstract side of a first-fit allocator.  A range of addresses is tiled by
blocks, each with an overhead of `k` bytes in front of its payload (`Tiles`); a
block is free or in use, and no two neighbours are free (`Separate`).  `freeTotal`
is the number of free bytes.  An allocation puts one or two blocks in the place of
one, a release puts one in the place of up to three; the lemmas say what holds of
the parts before and behind, and what the total becomes.
-/

namespace Lib

/-- A block of the range: where its overhead begins, the size of its payload, and
whether it is free. -/
structure Piece where
  addr : Nat
  size : Nat
  free : Bool
deriving DecidableEq

/-- The blocks follow each other from `s` to `e` without gap or overlap. -/
def Tiles (k : Nat) : Nat → List Piece → Nat → Prop
  | s, [], e => s = e
  | s, b :: bs, e => b.addr = s ∧ Tiles k (s + k + b.size) bs e

namespace Tiles

variable {k s e m : Nat} {b c : Piece} {bs l r : List Piece}

theorem append : Tiles k s (l ++ r) e ↔ ∃ m, Tiles k s l m ∧ Tiles k m r e := by
  induction l generalizing s with
  | nil => exact ⟨fun h => ⟨s, rfl, h⟩, fun ⟨m, hm, h⟩ => hm ▸ h⟩
  | cons b l ih =>
    constructor
    · rintro ⟨hb, h⟩
      obtain ⟨m, h1, h2⟩ := ih.mp h
      exact ⟨m, ⟨hb, h1⟩, h2⟩
    · rintro ⟨m, ⟨hb, h1⟩, h2⟩
      exact ⟨hb, ih.mpr ⟨m, h1, h2⟩⟩

theorem length_le (h : Tiles k s bs e) : s + k * bs.length ≤ e := by
  induction bs generalizing s with
  | nil => exact Nat.le_of_eq h
  | cons b bs ih =>
    have := ih h.2
    rw [List.length_cons, Nat.mul_succ]
    omega

theorem le (h : Tiles k s bs e) : s ≤ e := Nat.le_trans (Nat.le_add_right _ _) h.length_le

/-- A range is empty or has room for a block. -/
theorem eq_or_le (h : Tiles k s bs e) : s = e ∨ s + k ≤ e := by
  cases bs with
  | nil => exact .inl h
  | cons b bs =>
    have := h.2.le
    omega

/-- A block lies inside the range. -/
theorem inside (h : Tiles k s bs e) (hb : b ∈ bs) : s ≤ b.addr ∧ b.addr + k + b.size ≤ e := by
  induction bs generalizing s with
  | nil => cases hb
  | cons a bs ih =>
    rcases List.mem_cons.mp hb with rfl | hb
    · have := h.2.le
      rw [h.1]
      omega
    · have := ih h.2 hb
      omega

/-- A block starts the range or leaves room for another one before it. -/
theorem addr_or (h : Tiles k s bs e) (hb : b ∈ bs) : b.addr = s ∨ s + k ≤ b.addr := by
  cases bs with
  | nil => cases hb
  | cons a bs =>
    rcases List.mem_cons.mp hb with rfl | hb
    · exact .inl h.1
    · have := (h.2.inside hb).1
      omega

/-- A block ends the range or leaves room for another one behind it. -/
theorem stop_or (h : Tiles k s bs e) (hb : b ∈ bs) :
    b.addr + k + b.size = e ∨ b.addr + k + b.size + k ≤ e := by
  obtain ⟨l, r, rfl⟩ := List.append_of_mem hb
  obtain ⟨m, -, hba, hr⟩ := append.mp h
  have := hr.eq_or_le
  rw [hba]
  omega

/-- The parts of a tiling around one block. -/
theorem around (h : Tiles k s (l ++ b :: r) e) :
    Tiles k s l b.addr ∧ Tiles k (b.addr + k + b.size) r e := by
  obtain ⟨m, hl, hb, hr⟩ := append.mp h
  subst hb
  exact ⟨hl, hr⟩

/-- Two blocks of the range are the same or do not touch. -/
theorem apart (h : Tiles k s bs e) (hb : b ∈ bs) (hc : c ∈ bs) :
    b = c ∨ b.addr + k + b.size ≤ c.addr ∨ c.addr + k + c.size ≤ b.addr := by
  obtain ⟨l, r, rfl⟩ := List.append_of_mem hb
  obtain ⟨hl, hr⟩ := around h
  rcases List.mem_append.mp hc with hc | hc
  · exact .inr (.inr (hl.inside hc).2)
  · rcases List.mem_cons.mp hc with rfl | hc
    · exact .inl rfl
    · exact .inr (.inl (hr.inside hc).1)

/-- The addresses ascend. -/
theorem ascending (h : Tiles k s bs e) (hk : 0 < k) : (bs.map Piece.addr ++ [e]).Pairwise (· < ·) := by
  induction bs generalizing s with
  | nil => exact List.pairwise_singleton _ _
  | cons b bs ih =>
    refine List.Pairwise.cons ?_ (ih h.2)
    intro x hx
    rcases List.mem_append.mp hx with hx | hx
    · obtain ⟨c, hc, rfl⟩ := List.mem_map.mp hx
      have := (h.2.inside hc).1
      have := h.1
      omega
    · have := h.2.le
      have := h.1
      rw [List.mem_singleton.mp hx]
      omega

/-- Whatever comes behind the start of a range, a block ends there. -/
theorem exists_stop (h : Tiles k s bs e) {x : Nat} (hx : x ∈ bs.map Piece.addr ++ [e])
    (hne : x ≠ s) : ∃ b ∈ bs, b.addr + k + b.size = x := by
  induction bs generalizing s with
  | nil => exact absurd ((List.mem_singleton.mp hx).trans h.symm) hne
  | cons b bs ih =>
    by_cases hb : s + k + b.size = x
    · exact ⟨b, List.mem_cons_self, by rw [h.1]; exact hb⟩
    · rcases List.mem_cons.mp hx with rfl | hx
      · exact absurd h.1 hne
      · obtain ⟨c, hc, hstop⟩ := ih h.2 hx (Ne.symm hb)
        exact ⟨c, .tail _ hc, hstop⟩

end Tiles

/-! ### Free neighbours -/

/-- No two neighbours are free. -/
def Separate (bs : List Piece) : Prop :=
  bs.IsChain fun b c => ¬ (b.free = true ∧ c.free = true)

section

variable {b c : Piece} {l r : List Piece}

theorem separate_append : Separate (l ++ r) ↔ Separate l ∧ Separate r ∧
    ∀ b ∈ l.getLast?, ∀ c ∈ r.head?, ¬ (b.free = true ∧ c.free = true) :=
  List.isChain_append

theorem separate_cons : Separate (b :: r) ↔
    (∀ c ∈ r.head?, ¬ (b.free = true ∧ c.free = true)) ∧ Separate r :=
  List.isChain_cons

/-- A block between two parts of the range. -/
theorem separate_mid : Separate (l ++ b :: r) ↔ Separate l ∧ Separate r ∧
    (∀ c ∈ l.getLast?, ¬ (c.free = true ∧ b.free = true)) ∧
    ∀ c ∈ r.head?, ¬ (b.free = true ∧ c.free = true) := by
  rw [separate_append, separate_cons]
  constructor
  · rintro ⟨hl, ⟨hb, hr⟩, h⟩
    exact ⟨hl, hr, fun c hc => h c hc b rfl, hb⟩
  · rintro ⟨hl, hr, h, hb⟩
    refine ⟨hl, ⟨hb, hr⟩, fun c hc d hd => ?_⟩
    cases hd
    exact h c hc

/-- A block taken into use is separate from its neighbours. -/
theorem Separate.used (h : Separate (l ++ b :: r)) (hc : c.free = false) :
    Separate (l ++ c :: r) := by
  obtain ⟨hl, hr, -, -⟩ := separate_mid.mp h
  refine separate_mid.mpr ⟨hl, hr, fun d _ hd => ?_, fun d _ hd => ?_⟩
  · rw [hc] at hd
    cases hd.2
  · rw [hc] at hd
    cases hd.1

/-- What remains of a free block is free in its place. -/
theorem Separate.split (h : Separate (l ++ b :: r)) (hb : b.free = true) (hc : c.free = false)
    {d : Piece} : Separate (l ++ c :: d :: r) := by
  obtain ⟨hl, hr, -, hn⟩ := separate_mid.mp h
  have hd : Separate (d :: r) := by
    refine separate_cons.mpr ⟨fun x hx hf => hn x hx ⟨hb, hf.2⟩, hr⟩
  refine separate_mid.mpr ⟨hl, hd, fun x _ hf => ?_, fun x _ hf => ?_⟩
  · rw [hc] at hf
    cases hf.2
  · rw [hc] at hf
    cases hf.1

end

/-! ### Blocks in use -/

def used (bs : List Piece) : List Piece := bs.filter fun b => !b.free

section

variable {b : Piece} {l r bs : List Piece}

theorem used_append : used (l ++ r) = used l ++ used r := List.filter_append ..

theorem used_cons_free (hb : b.free = true) : used (b :: r) = used r := by
  simp [used, hb]

theorem used_cons_used (hb : b.free = false) : used (b :: r) = b :: used r := by
  simp [used, hb]

theorem mem_used : b ∈ used bs ↔ b ∈ bs ∧ b.free = false := by
  simp [used]

/-- If no block is in use, no two blocks are left. -/
theorem single_of_separate (h : Separate bs) (hu : used bs = []) :
    bs = [] ∨ ∃ b, bs = [b] ∧ b.free = true := by
  have hfree : ∀ b ∈ bs, b.free = true := by
    intro b hb
    cases hf : b.free with
    | true => rfl
    | false =>
      have hmem := mem_used.mpr ⟨hb, hf⟩
      rw [hu] at hmem
      cases hmem
  cases bs with
  | nil => exact .inl rfl
  | cons b bs =>
    cases bs with
    | nil => exact .inr ⟨b, rfl, hfree b (by simp)⟩
    | cons c bs =>
      exact absurd ⟨hfree b (by simp), hfree c (by simp)⟩ ((separate_cons.mp h).1 c rfl)

end

/-! ### The free bytes -/

/-- The payloads of the free blocks together. -/
def freeTotal (bs : List Piece) : Nat := ((bs.filter Piece.free).map Piece.size).sum

section

variable {b : Piece} {l r bs : List Piece}

theorem freeTotal_append : freeTotal (l ++ r) = freeTotal l + freeTotal r := by
  simp [freeTotal]

theorem freeTotal_cons_free (hb : b.free = true) : freeTotal (b :: r) = b.size + freeTotal r := by
  simp [freeTotal, hb]

theorem freeTotal_cons_used (hb : b.free = false) : freeTotal (b :: r) = freeTotal r := by
  simp [freeTotal, hb]

/-- There is room for the free bytes beside the overheads. -/
theorem freeTotal_le {k s e : Nat} (h : Tiles k s bs e) :
    s + freeTotal bs + k * bs.length ≤ e := by
  induction bs generalizing s with
  | nil => exact Nat.le_of_eq h
  | cons b bs ih =>
    have := ih h.2
    rw [List.length_cons, Nat.mul_succ]
    cases hb : b.free with
    | true =>
      rw [freeTotal_cons_free hb]
      omega
    | false =>
      rw [freeTotal_cons_used hb]
      omega

end

end Lib
