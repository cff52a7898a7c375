import Nl6621.Lib.Strings
import Nl6621.Lib.Substring
import Nl6621.Lib.While

/-!
# `Search_str`

The search of `str_lib.c`.  The outer loop looks for the first byte of the pattern, the inner one
goes on as long as source and pattern agree.  Where they do not, `temp` returns to the start of the
pattern and `source` stays where it is: an attempt is not taken back.

`source == ""` and `chars == ""` compare addresses with the one of a literal.  The empty string is
the only one that can stand there, and for an empty source or pattern the loop returns 0 as well, so
the two comparisons are left out.

`searchStr_eq` says that the code is the search that never goes back; it always returns and stays
inside both strings.  `searchStr_iff` says when the result is the right one.
-/

namespace Nl6621.NuAgent

open Lib

/-! ### The code -/

/-- The variables of `Search_str`; the pointers are places in the two strings. -/
structure SearchVars where
  source : Nat
  temp : Nat
  len : Int32

/-- A round of `while (*temp != '\0')`. -/
def matchRound (source chars : List UInt8) (s : SearchVars) : Fueled (SearchVars ⊕ SearchVars) := do
  let t ← .of (charAt chars s.temp)
  if t ≠ 0 then
    let c ← .of (charAt source s.source)
    if t = c then .ok (.inl ⟨s.source + 1, s.temp + 1, s.len + 1⟩)
    else .ok (.inr { s with temp := 0 })
  else .ok (.inr s)

/-- A round of `while (*source != '\0')`; the loop is left with the value that is returned. -/
def searchRound (fuel : Nat) (source chars : List UInt8) (s : SearchVars) :
    Fueled (SearchVars ⊕ Int32) := do
  let c ← .of (charAt source s.source)
  if c ≠ 0 then
    let t ← .of (charAt chars s.temp)
    if c = t then
      let s ← whileLoop (matchRound source chars) fuel s
      let t ← .of (charAt chars s.temp)
      if t = 0 then .ok (.inr s.len) else .ok (.inl s)
    else .ok (.inl { s with source := s.source + 1, len := s.len + 1 })
  else .ok (.inr 0)

/-- `Search_str`; a null pointer is `none`, and `NULL` is returned as 0. -/
def searchStr (fuel : Nat) (source chars : Option (List UInt8)) : Fueled Int32 :=
  match source, chars with
  | some source, some chars => whileLoop (searchRound fuel source chars) fuel ⟨0, 0, 0⟩
  | _, _ => .ok 0

/-! ### The loops -/

variable {source chars : CString}

theorem ofNat_succ (n : Nat) : Int32.ofNat (n + 1) = Int32.ofNat n + 1 := Int32.ofNat_add n 1

variable {i j : Nat} {t c : UInt8} {p u : List UInt8}

theorem matchRound_end (h : j = chars.bytes.length) :
    matchRound source.obj chars.obj ⟨i, j, Int32.ofNat i⟩ = .ok (.inr ⟨i, j, Int32.ofNat i⟩) := by
  rw [matchRound, of_charAt_end h]
  rfl

theorem matchRound_next (hj : chars.bytes.drop j = t :: p) (hi : source.bytes.drop i = t :: u) :
    matchRound source.obj chars.obj ⟨i, j, Int32.ofNat i⟩ =
      .ok (.inl ⟨i + 1, j + 1, Int32.ofNat (i + 1)⟩) := by
  rw [matchRound, of_charAt_cons hj, Fueled.ok_bind, if_pos (charAt_obj_cons hj).2,
    of_charAt_cons hi, Fueled.ok_bind, if_pos rfl, ofNat_succ]

/-- Another byte, or the end of the source. -/
theorem matchRound_stops (hj : chars.bytes.drop j = t :: p)
    (hc : Fueled.of (charAt source.obj i) = .ok c) (hne : t ≠ c) :
    matchRound source.obj chars.obj ⟨i, j, Int32.ofNat i⟩ = .ok (.inr ⟨i, 0, Int32.ofNat i⟩) := by
  rw [matchRound, of_charAt_cons hj, Fueled.ok_bind, if_pos (charAt_obj_cons hj).2, hc,
    Fueled.ok_bind, if_neg hne]

/-- The inner loop passes over what source and pattern share, and ends behind the pattern or at its
start. -/
theorem matchLoop_eq : ∀ (n i j : Nat), i ≤ source.bytes.length → j ≤ chars.bytes.length →
    commonLen (chars.bytes.drop j) (source.bytes.drop i) < n →
    whileLoop (matchRound source.obj chars.obj) n ⟨i, j, Int32.ofNat i⟩ =
      .ok ⟨i + commonLen (chars.bytes.drop j) (source.bytes.drop i),
        if j + commonLen (chars.bytes.drop j) (source.bytes.drop i) = chars.bytes.length then
          chars.bytes.length else 0,
        Int32.ofNat (i + commonLen (chars.bytes.drop j) (source.bytes.drop i))⟩ := by
  intro n
  induction n with
  | zero => intro i j _ _ h; exact absurd h (Nat.not_lt_zero _)
  | succ n ih =>
    intro i j hi hj hn
    rcases drop_eq_nil_or_cons hj with ⟨hjn, hje⟩ | ⟨t, hjc, hjlt⟩
    · rw [whileLoop_break (matchRound_end hje), hjn, commonLen_nil_left, Nat.add_zero,
        Nat.add_zero, if_pos hje, ← hje]
    · rcases drop_eq_nil_or_cons hi with ⟨hin, hie⟩ | ⟨c, hic, hilt⟩
      · have hstop := matchRound_stops hjc (of_charAt_end hie) (charAt_obj_cons hjc).2
        rw [whileLoop_break hstop, hin, commonLen_nil_right, Nat.add_zero, Nat.add_zero,
          if_neg (Nat.ne_of_lt hjlt)]
      · by_cases htc : t = c
        · subst htc
          have hnext := matchRound_next hjc hic
          rw [hjc, hic, commonLen, if_pos rfl] at hn ⊢
          have hrec := ih (i + 1) (j + 1) hilt hjlt (Nat.lt_of_succ_lt_succ hn)
          rw [whileLoop_next hnext]
          simp only [Nat.add_right_comm, ← Nat.add_assoc] at hrec ⊢
          exact hrec
        · have hstop := matchRound_stops hjc (of_charAt_cons hic) htc
          rw [whileLoop_break hstop, hjc, hic, commonLen, if_neg htc, Nat.add_zero, Nat.add_zero,
            if_neg (Nat.ne_of_lt hjlt)]

variable {fuel : Nat}

theorem searchRound_end (h : i = source.bytes.length) :
    searchRound fuel source.obj chars.obj ⟨i, j, Int32.ofNat i⟩ = .ok (.inr 0) := by
  rw [searchRound, of_charAt_end h]
  rfl

theorem searchRound_skip (hi : source.bytes.drop i = c :: u) (hp : chars.bytes.drop 0 = t :: p)
    (hct : c ≠ t) : searchRound fuel source.obj chars.obj ⟨i, 0, Int32.ofNat i⟩ =
      .ok (.inl ⟨i + 1, 0, Int32.ofNat (i + 1)⟩) := by
  rw [searchRound, of_charAt_cons hi, Fueled.ok_bind, if_pos (charAt_obj_cons hi).2,
    of_charAt_cons hp, Fueled.ok_bind, if_neg hct, ofNat_succ]

/-- At the first byte of the pattern, the round takes whatever of the pattern is there. -/
theorem searchRound_attempt (hfuel : source.bytes.length < fuel)
    (hi : source.bytes.drop i = t :: u) (hle : i ≤ source.bytes.length)
    (hp : chars.bytes.drop 0 = t :: p) {k : Nat}
    (hk : commonLen chars.bytes (source.bytes.drop i) = k) :
    searchRound fuel source.obj chars.obj ⟨i, 0, Int32.ofNat i⟩ =
      .ok (if k = chars.bytes.length then .inr (Int32.ofNat (i + k))
        else .inl ⟨i + k, 0, Int32.ofNat (i + k)⟩) := by
  have hklen := commonLen_le_right chars.bytes (source.bytes.drop i)
  rw [List.length_drop] at hklen
  have hinner : whileLoop (matchRound source.obj chars.obj) fuel ⟨i, 0, Int32.ofNat i⟩ = _ :=
    matchLoop_eq fuel i 0 hle (Nat.zero_le _) (by
      rw [List.drop_zero]
      omega)
  rw [List.drop_zero, Nat.zero_add, hk] at hinner
  rw [searchRound, of_charAt_cons hi, Fueled.ok_bind, if_pos (charAt_obj_cons hi).2,
    of_charAt_cons hp, Fueled.ok_bind, if_pos rfl, hinner, Fueled.ok_bind]
  by_cases hend : k = chars.bytes.length
  · rw [if_pos hend, if_pos hend, of_charAt_end rfl]
    rfl
  · rw [if_neg hend, if_neg hend, of_charAt_cons hp, Fueled.ok_bind,
      if_neg (charAt_obj_cons hp).2]

/-- What is returned for a search from the place `i` on. -/
def returned (i : Nat) : Option Nat → Int32
  | some e => Int32.ofNat (i + e)
  | none => 0

theorem returned_add (i k : Nat) (o : Option Nat) :
    returned (i + k) o = returned i (o.map (k + ·)) := by
  cases o with
  | none => rfl
  | some e => exact congrArg Int32.ofNat (Nat.add_assoc i k e)

/-- **The code is the search that never goes back.** -/
theorem searchLoop_eq (hchars : chars.bytes ≠ []) (hfuel : source.bytes.length < fuel) :
    ∀ (n i : Nat), i ≤ source.bytes.length → source.bytes.length - i < n →
      whileLoop (searchRound fuel source.obj chars.obj) n ⟨i, 0, Int32.ofNat i⟩ =
        .ok (returned i (lands chars.bytes (source.bytes.drop i))) := by
  intro n
  induction n with
  | zero => intro i _ h; exact absurd h (Nat.not_lt_zero _)
  | succ n ih =>
    intro i hi hn
    obtain ⟨t, p, hp⟩ := List.exists_cons_of_ne_nil hchars
    have hp0 : chars.bytes.drop 0 = t :: p := hp
    have hpos : 0 < chars.bytes.length := List.length_pos_iff.mpr hchars
    rw [lands]
    rcases drop_eq_nil_or_cons hi with ⟨hin, hie⟩ | ⟨c, hic, hilt⟩
    · rw [whileLoop_break (searchRound_end hie), hin, commonLen_nil_right,
        if_neg (Nat.ne_of_lt hpos), if_pos rfl]
      rfl
    · have hne : source.bytes.drop i ≠ [] := by
        rw [hic]
        exact List.cons_ne_nil _ _
      have hklen := commonLen_le_right chars.bytes (source.bytes.drop i)
      rw [List.length_drop] at hklen
      by_cases hct : c = t
      · subst hct
        have hone : 1 ≤ commonLen chars.bytes (source.bytes.drop i) := by
          rw [hp, hic, commonLen, if_pos rfl]
          exact Nat.succ_le_succ (Nat.zero_le _)
        have hround := searchRound_attempt hfuel hic hi hp0 rfl
        rw [Nat.max_eq_right hone]
        generalize commonLen chars.bytes (source.bytes.drop i) = k at *
        by_cases hk : k = chars.bytes.length
        · rw [if_pos hk] at hround
          rw [whileLoop_break hround, if_pos hk, ← hk]
          rfl
        · rw [if_neg hk] at hround
          rw [whileLoop_next hround, if_neg hk, if_neg hne, List.drop_drop, ← returned_add]
          exact ih (i + k) (by omega) (by omega)
      · have hk : commonLen chars.bytes (source.bytes.drop i) = 0 := by
          rw [hp, hic, commonLen, if_neg fun h => hct h.symm]
        rw [whileLoop_next (searchRound_skip hic hp0 hct), hk, if_neg (Nat.ne_of_lt hpos),
          if_neg hne, List.drop_drop, ← returned_add]
        exact ih (i + 1) hilt (by omega)

theorem searchStr_eq (hchars : chars.bytes ≠ []) {fuel : Nat}
    (hfuel : source.bytes.length < fuel) : searchStr fuel (some source.obj) (some chars.obj) =
      .ok (returned 0 (lands chars.bytes source.bytes)) :=
  searchLoop_eq hchars hfuel fuel 0 (Nat.zero_le _) (by omega)

/-! ### The right result -/

/-- The place behind the first occurrence, or 0 if there is none. -/
def FindsFirst (chars source : List UInt8) (result : Int32) : Prop :=
  (∃ i, FirstAt chars source i ∧ result.toInt = i + chars.length) ∨
    (∀ i, ¬OccursAt chars source i) ∧ result = 0

/-- The text in front of the first occurrence falls into pieces, and an `int` holds the place behind
it. -/
def Searchable (chars source : List UInt8) : Prop :=
  ∀ i, FirstAt chars source i →
    Pieces chars (source.drop i) (source.take i) ∧ i + chars.length < 2 ^ 31

theorem toInt_ofNat_eq_iff {e n : Nat} (he : e < 2 ^ 32) (hn : n < 2 ^ 32) :
    (Int32.ofNat e).toInt = n ↔ e = n ∧ n < 2 ^ 31 := by
  rw [Int32.toInt_ofNat', Int.bmod_def]
  have hsize : (Int32.size : Int) = 2 ^ 32 := rfl
  rw [hsize]
  omega

theorem searchStr_returns (hchars : chars.bytes ≠ []) {fuel : Nat}
    (hfuel : source.bytes.length < fuel) :
    ∃ result, searchStr fuel (some source.obj) (some chars.obj) = .ok result :=
  ⟨_, searchStr_eq hchars hfuel⟩

/-- **`Search_str` finds the first occurrence exactly when it does not jump over it.** -/
theorem searchStr_iff (source : CString32) (chars : CString) (hchars : chars.bytes ≠ [])
    {fuel : Nat} (hfuel : source.bytes.length < fuel) :
    (∃ result, searchStr fuel (some source.obj) (some chars.obj) = .ok result ∧
        FindsFirst chars.bytes source.bytes result) ↔ Searchable chars.bytes source.bytes := by
  rw [searchStr_eq hchars hfuel]
  have hright : (∃ result, Fueled.ok (returned 0 (lands chars.bytes source.bytes)) = .ok result ∧
      FindsFirst chars.bytes source.bytes result) ↔
      FindsFirst chars.bytes source.bytes (returned 0 (lands chars.bytes source.bytes)) := by
    constructor
    · rintro ⟨result, h, hr⟩
      cases h
      exact hr
    · intro hr
      exact ⟨_, rfl, hr⟩
  rw [hright]
  have hfits := source.fits
  by_cases hocc : ∃ i, OccursAt chars.bytes source.bytes i
  · obtain ⟨i, hi⟩ := hocc
    obtain ⟨i, hfirst⟩ := exists_firstAt hi
    have hle := OccursAt.le_length hchars hfirst.1
    have hpos := List.length_pos_iff.mpr hchars
    have hcond : Searchable chars.bytes source.bytes ↔
        Pieces chars.bytes (source.bytes.drop i) (source.bytes.take i) ∧
          i + chars.bytes.length < 2 ^ 31 :=
      ⟨fun h => h i hfirst, fun h j hj => hj.unique hfirst ▸ h⟩
    have hfinds : ∀ result, FindsFirst chars.bytes source.bytes result ↔
        result.toInt = (i + chars.bytes.length : Nat) := by
      intro result
      constructor
      · rintro (⟨j, hj, hr⟩ | ⟨hno, -⟩)
        · rw [hj.unique hfirst] at hr
          exact hr
        · exact absurd hfirst.1 (hno i)
      · intro hr
        exact .inl ⟨i, hfirst, hr⟩
    rw [hcond, hfinds, ← lands_iff hchars hfirst]
    cases hl : lands chars.bytes source.bytes with
    | none =>
      refine iff_of_false (fun h => ?_) fun h => by cases h.1
      have hz : (0 : Int) = (i + chars.bytes.length : Nat) := h
      omega
    | some e =>
      obtain ⟨j, hj, rfl⟩ := occursAt_of_lands _ rfl hl
      have hje := OccursAt.le_length hchars hj
      rw [returned, Nat.zero_add, toInt_ofNat_eq_iff (by omega) (by omega), Option.some.injEq]
  · have hno : ∀ i, ¬OccursAt chars.bytes source.bytes i := fun i hi => hocc ⟨i, hi⟩
    have hl : lands chars.bytes source.bytes = none := by
      cases hl : lands chars.bytes source.bytes with
      | none => rfl
      | some e =>
        obtain ⟨j, hj, -⟩ := occursAt_of_lands _ rfl hl
        exact absurd hj (hno j)
    rw [hl]
    exact iff_of_true (.inr ⟨hno, rfl⟩) fun i hi => absurd hi.1 (hno i)

def aab : CString := ⟨[0x61, 0x61, 0x62], by decide⟩

def xaab : CString32 := ⟨⟨[0x78, 0x61, 0x61, 0x62], by decide⟩, by decide⟩

def aaab : CString32 := ⟨⟨[0x61, 0x61, 0x61, 0x62], by decide⟩, by decide⟩

theorem searchStr_iff_xaab : aab.bytes ≠ [] ∧ xaab.bytes.length < 5 ∧
    ∃ result, searchStr 5 (some xaab.obj) (some aab.obj) = .ok result ∧
      FindsFirst aab.bytes xaab.bytes result := by
  refine ⟨by decide, by decide, (searchStr_iff xaab aab (by decide) (by decide)).mpr ?_⟩
  intro i hi
  obtain rfl := hi.unique (show FirstAt aab.bytes xaab.bytes 1 by decide)
  exact ⟨.byte (by decide) .nil, by decide⟩

/-- The attempt at the first byte takes the second one, where the occurrence starts. -/
theorem searchStr_jumps : aab.bytes ≠ [] ∧ FirstAt aab.bytes aaab.bytes 1 ∧
    searchStr 5 (some aaab.obj) (some aab.obj) = .ok 0 ∧
    ¬∃ result, searchStr 5 (some aaab.obj) (some aab.obj) = .ok result ∧
      FindsFirst aab.bytes aaab.bytes result := by
  have hfirst : FirstAt aab.bytes aaab.bytes 1 := by decide
  have hrun : searchStr 5 (some aaab.obj) (some aab.obj) = .ok 0 := by rfl
  refine ⟨by decide, hfirst, hrun, ?_⟩
  rw [hrun]
  rintro ⟨result, h, hr⟩
  cases h
  rcases hr with ⟨i, hi, hz⟩ | ⟨hno, -⟩
  · rw [hi.unique hfirst] at hz
    exact absurd hz (by decide)
  · exact hno 1 hfirst.1

/-! ### Patterns that are never jumped over -/

theorem searchable_of_head_notMem {a : UInt8} {p source : List UInt8} (ha : a ∉ p)
    (hlen : source.length < 2 ^ 31) : Searchable (a :: p) source := by
  intro i hi
  have hle := OccursAt.le_length (List.cons_ne_nil a p) hi.1
  have htake : (source.take i).length = i := List.length_take_of_le (by omega)
  refine ⟨pieces_of_head_notMem ha _ rfl ?_, by omega⟩
  rw [List.take_append_drop, htake]
  exact hi

end Nl6621.NuAgent
