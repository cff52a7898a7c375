import Mathlib.Data.List.DropRight
import Nl6621.Lib.Strings
import Nl6621.Lib.While

/-!
# `strrmvspace`

The trimming of `str_lib.c`.  The first loop passes over the leading white space of `src`, what is
left is copied, and the second loop goes backwards over `dst` and clears the trailing white space.
Its index is unsigned, and only a byte that is not white space stops it.

`dst` is the `strlen(src) + 1` bytes that may be touched, whatever they hold: an access outside them
is a fault.  An object does not fill the address space.

`strrmvspace_iff` says when the call is right: `src` is empty or has a byte that is not white space.
-/

namespace Nl6621.NuAgent

open Lib

/-! ### The code -/

/-- The space, and `\t`, `\n`, `\v`, `\f` and `\r`. -/
def isspace (c : UInt8) : Bool := c == 0x20 || (0x09 ≤ c && c ≤ 0x0d)

/-- `for (i = 0; isspace(src[i]); i++);` -/
def skipRound (src : List UInt8) (i : UInt32) : Fueled (UInt32 ⊕ UInt32) := do
  let c ← .of (charAt src i.toNat)
  .ok (if isspace c then .inl (i + 1) else .inr i)

/-- A round of the second loop, over `dst` and `i`. -/
def clearRound (v : Block × UInt32) : Fueled (Block × UInt32 ⊕ Block) := do
  let c ← .of (v.1.byteAt v.2.toNat)
  if isspace c then
    let dst ← .of (v.1.store v.2.toNat [some 0])
    .ok (.inl (dst, v.2 - 1))
  else .ok (.inr v.1)

/-- `strrmvspace`; `dst` is also what is returned.  `i = strlen(dst) - 1` is in the source twice,
before the loop and in its head. -/
def strrmvspace (fuel : Nat) (dst : Block) (src : List UInt8) : Fueled Block := do
  let c ← .of (charAt src 0)
  if c = 0 then .of (dst.store 0 [some 0])
  else
    let i ← whileLoop (skipRound src) fuel 0
    let dst ← .of (dst.strcpy (src.drop i.toNat))
    let n ← .of dst.strlen
    whileLoop clearRound fuel (dst, UInt32.ofNat n - 1)

/-! ### Trimming -/

/-- The string without its leading and trailing white space. -/
def trim (s : List UInt8) : List UInt8 := (s.dropWhile isspace).rdropWhile isspace

variable {src : CString} {dst : Block}

theorem drop_length_takeWhile (s : List UInt8) :
    s.drop (s.takeWhile isspace).length = s.dropWhile isspace := by
  have hs : s.takeWhile isspace ++ s.dropWhile isspace = s := List.takeWhile_append_dropWhile
  have hdrop : (s.takeWhile isspace ++ s.dropWhile isspace).drop (s.takeWhile isspace).length = _ :=
    List.drop_left
  rwa [hs] at hdrop

theorem pred_ofNat (n : Nat) : UInt32.ofNat (n + 1) - 1 = UInt32.ofNat n := by
  rw [UInt32.ofNat_add]
  exact UInt32.add_sub_cancel _ _

/-! ### The loops -/

/-- The first loop ends behind the leading white space. -/
theorem skipLoop_eq (hfits : src.obj.length < 2 ^ 32) : ∀ (n i : Nat), i ≤ src.bytes.length →
    src.bytes.length - i < n → whileLoop (skipRound src.obj) n (UInt32.ofNat i) =
      .ok (UInt32.ofNat (i + ((src.bytes.drop i).takeWhile isspace).length)) := by
  rw [CString.length_obj] at hfits
  intro n
  induction n with
  | zero => intro i _ h; exact absurd h (Nat.not_lt_zero _)
  | succ n ih =>
    intro i hi hn
    have hnat : (UInt32.ofNat i).toNat = i :=
      UInt32.toNat_ofNat_of_lt' (show i < 2 ^ 32 by omega)
    rcases drop_eq_nil_or_cons hi with ⟨hnil, he⟩ | ⟨c, hc, hlt⟩
    · have hround : skipRound src.obj (UInt32.ofNat i) = .ok (.inr (UInt32.ofNat i)) := by
        rw [skipRound, hnat, of_charAt_end he]
        rfl
      rw [whileLoop_break hround, hnil]
      rfl
    · by_cases hspace : isspace c
      · have hround : skipRound src.obj (UInt32.ofNat i) = .ok (.inl (UInt32.ofNat (i + 1))) := by
          rw [skipRound, hnat, of_charAt_cons hc, Fueled.ok_bind, if_pos hspace, UInt32.ofNat_add]
          rfl
        rw [whileLoop_next hround, hc, List.takeWhile_cons_of_pos hspace, List.length_cons,
          ← Nat.add_assoc, Nat.add_right_comm]
        exact ih (i + 1) hlt (by omega)
      · have hround : skipRound src.obj (UInt32.ofNat i) = .ok (.inr (UInt32.ofNat i)) := by
          rw [skipRound, hnat, of_charAt_cons hc, Fueled.ok_bind, if_neg hspace]
        rw [whileLoop_break hround, hc, List.takeWhile_cons_of_neg hspace]
        rfl

theorem clearRound_clears {n : Nat} {c : UInt8} (hfits : n < 2 ^ 32) (hget : dst.byteAt n = .ok c)
    (hroom : n + [some (0 : UInt8)].length ≤ dst.length) (hspace : isspace c = true) :
    clearRound (dst, UInt32.ofNat n) = .ok (.inl (dst.put n [some 0], UInt32.ofNat n - 1)) := by
  have hnat : (UInt32.ofNat n).toNat = n := UInt32.toNat_ofNat_of_lt' hfits
  rw [clearRound, hnat, hget, Fueled.of_ok, Fueled.ok_bind, if_pos hspace, Block.store_ok hroom,
    Fueled.of_ok, Fueled.ok_bind]

theorem clearRound_stops {n : Nat} {c : UInt8} (hfits : n < 2 ^ 32) (hget : dst.byteAt n = .ok c)
    (hspace : ¬isspace c = true) : clearRound (dst, UInt32.ofNat n) = .ok (.inr dst) := by
  have hnat : (UInt32.ofNat n).toNat = n := UInt32.toNat_ofNat_of_lt' hfits
  rw [clearRound, hnat, hget, Fueled.of_ok, Fueled.ok_bind, if_neg hspace]

/-- The second loop clears the trailing white space and stops at the byte before it. -/
theorem clearLoop_trims {t : List UInt8} : ∀ {n : Nat} {dst : Block},
    (∃ c ∈ t, isspace c = false) → dst.Holds (t ++ [0]) → t.length < 2 ^ 32 → t.length < n →
    ∃ dst', whileLoop clearRound n (dst, UInt32.ofNat t.length - 1) = .ok dst' ∧
      dst'.Holds (t.rdropWhile isspace ++ [0]) ∧ dst'.length = dst.length := by
  -- the string loses its last byte in a round that clears one
  induction t using List.reverseRecOn with
  | nil =>
    rintro n dst ⟨c, hc, -⟩
    exact absurd hc List.not_mem_nil
  | append_singleton x c ih =>
    rintro n dst ⟨b, hb, hbs⟩ hdst hfits hn
    rw [List.length_append, List.length_singleton] at hfits hn ⊢
    obtain ⟨n, rfl⟩ := Nat.exists_eq_add_one_of_ne_zero (Nat.ne_of_gt (Nat.zero_lt_of_lt hn))
    have hheld : dst.Holds (x ++ c :: [0]) := by rwa [List.append_assoc] at hdst
    have hget : dst.byteAt x.length = .ok c := Block.byteAt_of_holds hheld
    rw [pred_ofNat]
    by_cases hspace : isspace c = true
    · have hroom : x.length + [some (0 : UInt8)].length ≤ dst.length := by
        have := hdst.length_le
        simp only [List.length_append, List.length_singleton] at this ⊢
        omega
      have hbx : b ∈ x := by
        rcases List.mem_append.mp hb with hb | hb
        · exact hb
        · rw [List.mem_singleton.mp hb, hspace] at hbs
          cases hbs
      obtain ⟨dst', hrun, hheld', hlen⟩ := ih ⟨b, hbx, hbs⟩
        (Block.holds_put hheld.of_append [0]) (by omega) (show x.length < n by omega)
      rw [whileLoop_next (clearRound_clears (by omega) hget hroom hspace),
        List.rdropWhile_concat_pos _ _ _ hspace]
      exact ⟨dst', hrun, hheld', hlen.trans (Block.length_put hroom)⟩
    · rw [whileLoop_break (clearRound_stops (by omega) hget hspace),
        List.rdropWhile_concat_neg _ _ _ hspace]
      exact ⟨dst, rfl, hdst, rfl⟩

/-! ### The call -/

theorem strrmvspace_nil (hsrc : src.bytes = []) {fuel : Nat} (hdst : dst.length = src.obj.length) :
    ∃ dst', strrmvspace fuel dst src.obj = .ok dst' ∧ dst'.Holds (trim src.bytes ++ [0]) ∧
      dst'.length = dst.length := by
  have hroom : 0 + [some (0 : UInt8)].length ≤ dst.length := by
    rw [hdst, CString.length_obj, List.length_singleton]
    omega
  have hend : 0 = src.bytes.length := by rw [hsrc, List.length_nil]
  refine ⟨dst.put 0 [some 0], ?_, ?_, Block.length_put hroom⟩
  · rw [strrmvspace, of_charAt_end hend, Fueled.ok_bind, if_pos rfl, Block.store_ok hroom,
      Fueled.of_ok]
  · rw [hsrc]
    exact Block.holds_put (Block.holds_nil dst) [0]

/-- For a string that is not empty, the second loop runs on what the first one leaves. -/
theorem strrmvspace_eq (hsrc : src.bytes ≠ []) (hdst : dst.length = src.obj.length)
    (hfits : src.obj.length < 2 ^ 32) {fuel : Nat} (hfuel : src.bytes.length < fuel) :
    ∃ dst', dst'.Holds (src.bytes.dropWhile isspace ++ [0]) ∧ dst'.length = dst.length ∧
      strrmvspace fuel dst src.obj = whileLoop clearRound fuel
        (dst', UInt32.ofNat (src.bytes.dropWhile isspace).length - 1) := by
  have hskip : whileLoop (skipRound src.obj) fuel 0 = _ :=
    skipLoop_eq hfits fuel 0 (Nat.zero_le _) hfuel
  rw [List.drop_zero, Nat.zero_add] at hskip
  have hle : (src.bytes.takeWhile isspace).length ≤ src.bytes.length :=
    (List.takeWhile_sublist _).length_le
  have hleft : (src.bytes.dropWhile isspace).length ≤ src.bytes.length :=
    (List.dropWhile_sublist _).length_le
  rw [CString.length_obj] at hdst hfits
  have hrest : src.obj.drop (src.bytes.takeWhile isspace).length =
      src.bytes.dropWhile isspace ++ [0] := by
    rw [CString.obj, List.drop_append_of_le_length hle, drop_length_takeWhile]
  have hnul : (0 : UInt8) ∉ src.bytes.dropWhile isspace :=
    fun hm => src.nulFree ((List.dropWhile_sublist _).subset hm)
  obtain ⟨dst', hcpy, hheld, hlen⟩ := @Block.strcpy_holds dst _ hnul (by omega)
  refine ⟨dst', hheld, hlen, ?_⟩
  have hi : (UInt32.ofNat (src.bytes.takeWhile isspace).length).toNat = _ :=
    UInt32.toNat_ofNat_of_lt' (show (src.bytes.takeWhile isspace).length < 2 ^ 32 by omega)
  obtain ⟨c, t, hc⟩ := List.exists_cons_of_ne_nil hsrc
  have hc0 : src.bytes.drop 0 = c :: t := hc
  rw [strrmvspace, of_charAt_cons hc0, Fueled.ok_bind, if_neg (charAt_obj_cons hc0).2, hskip,
    Fueled.ok_bind, hi, hrest, hcpy, Fueled.of_ok, Fueled.ok_bind,
    Block.strlen_of_holds hnul hheld, Fueled.of_ok, Fueled.ok_bind]

theorem strrmvspace_trims (hsrc : ∃ c ∈ src.bytes, isspace c = false)
    (hdst : dst.length = src.obj.length) (hfits : src.obj.length < 2 ^ 32) {fuel : Nat}
    (hfuel : src.bytes.length < fuel) :
    ∃ dst', strrmvspace fuel dst src.obj = .ok dst' ∧ dst'.Holds (trim src.bytes ++ [0]) ∧
      dst'.length = dst.length := by
  obtain ⟨c, hc, hspace⟩ := hsrc
  obtain ⟨dst', hheld, hlen, hrun⟩ := strrmvspace_eq (List.ne_nil_of_mem hc) hdst hfits hfuel
  have hleft : (src.bytes.dropWhile isspace).length ≤ src.bytes.length :=
    (List.dropWhile_sublist _).length_le
  rw [CString.length_obj] at hfits
  have hne : src.bytes.dropWhile isspace ≠ [] := by
    intro hall
    rw [List.dropWhile_eq_nil_iff.mp hall c hc] at hspace
    cases hspace
  rw [hrun, ← hlen]
  exact clearLoop_trims ⟨_, List.head_mem hne, List.head_dropWhile_not isspace hne⟩ hheld
    (by omega) (by omega)

/-- Where nothing but white space was there, the second loop starts before `dst`. -/
theorem strrmvspace_faults (hsrc : src.bytes ≠ []) (hall : ∀ c ∈ src.bytes, isspace c = true)
    (hdst : dst.length = src.obj.length) (hfits : src.obj.length < 2 ^ 32) {fuel : Nat}
    (hfuel : src.bytes.length < fuel) : strrmvspace fuel dst src.obj = .of .fault := by
  obtain ⟨dst', -, hlen, hrun⟩ := strrmvspace_eq hsrc hdst hfits hfuel
  obtain ⟨fuel, rfl⟩ := Nat.exists_eq_add_one_of_ne_zero (Nat.ne_of_gt (Nat.zero_lt_of_lt hfuel))
  rw [hrun, List.dropWhile_eq_nil_iff.mpr hall, List.length_nil]
  have hget : dst'.byteAt (UInt32.ofNat 0 - 1).toNat = .fault := by
    have hnat : (UInt32.ofNat 0 - 1).toNat = 2 ^ 32 - 1 := rfl
    rw [hnat, Block.byteAt, List.getElem?_eq_none (by omega)]
  rw [whileLoop, clearRound, hget]
  rfl

/-- **Trimming is right exactly for the empty string and for one with a byte that is not white
space.** -/
theorem strrmvspace_iff (hdst : dst.length = src.obj.length) (hfits : src.obj.length < 2 ^ 32)
    {fuel : Nat} (hfuel : src.bytes.length < fuel) :
    (∃ dst', strrmvspace fuel dst src.obj = .ok dst' ∧ dst'.Holds (trim src.bytes ++ [0]) ∧
      dst'.length = dst.length) ↔ src.bytes = [] ∨ ∃ c ∈ src.bytes, isspace c = false := by
  constructor
  · rintro ⟨dst', hrun, -, -⟩
    by_cases hsrc : src.bytes = []
    · exact .inl hsrc
    · refine .inr ?_
      by_contra hno
      have hall : ∀ c ∈ src.bytes, isspace c = true := by
        intro c hc
        by_contra hspace
        exact hno ⟨c, hc, Bool.eq_false_iff.mpr hspace⟩
      rw [strrmvspace_faults hsrc hall hdst hfits hfuel] at hrun
      cases hrun
  · rintro (hsrc | hsrc)
    · exact strrmvspace_nil hsrc hdst
    · exact strrmvspace_trims hsrc hdst hfits hfuel

def spacedAb : CString := ⟨[0x20, 0x20, 0x61, 0x20, 0x62, 0x09], by decide⟩

def space : CString := ⟨[0x20], by decide⟩

theorem strrmvspace_iff_spacedAb : (Block.malloc 7).length = spacedAb.obj.length ∧
    spacedAb.obj.length < 2 ^ 32 ∧ spacedAb.bytes.length < 7 ∧
    trim spacedAb.bytes = [0x61, 0x20, 0x62] ∧
    ∃ dst', strrmvspace 7 (Block.malloc 7) spacedAb.obj = .ok dst' ∧
      dst'.Holds (trim spacedAb.bytes ++ [0]) ∧ dst'.length = (Block.malloc 7).length :=
  ⟨by decide, by decide, by decide, by decide,
    (strrmvspace_iff (by decide) (by decide) (by decide)).mpr (.inr ⟨0x61, by decide, by decide⟩)⟩

/-- One space: the second loop reads `dst[4294967295]`. -/
theorem strrmvspace_space : trim space.bytes = [] ∧
    ¬∃ fuel dst', strrmvspace fuel (Block.malloc 2) space.obj = .ok dst' := by
  refine ⟨by decide, ?_⟩
  rintro ⟨fuel, dst', h⟩
  cases fuel with
  | zero => cases h
  | succ fuel =>
    cases fuel with
    | zero => cases h
    | succ fuel =>
      have hrun : strrmvspace (fuel + 2) (Block.malloc 2) space.obj = .of .fault := by rfl
      rw [hrun] at h
      cases h

end Nl6621.NuAgent
