import Mathlib.Data.List.GetD
import Mathlib.Tactic.IntervalCases
import Nl6621.Lib.Numerals
import Nl6621.Lib.Strings
import Nl6621.Lib.While
import Nl6621.Lib.Words

/-!
# Numbers as strings

`utoa`, `itoa` and `atou_hex` of `str_lib.c`.  `utoa` calls itself for the quotient, looks for the
terminator of what that has written, and calls itself for the remainder there.  A pointer is a place
in the memory, or `none` for `NULL`; the digits are read from the literal, where an index behind its
terminator is a fault.

`putString` is a memory with a string written to it.  `utoa_eq` is the joint induction on the
number: the quotient's numeral stands at the buffer with its terminator, the scan ends at that
terminator, and the remainder's digit goes there (`utoa_snoc`).  The fuel bounds the depth of the
recursion and the scans at once, and 33 are enough for every number and radix.
-/

namespace Nl6621.NuAgent

open Lib

/-! ### The code -/

/-- The literal with the digits, and its terminator. -/
def digitChars : List UInt8 :=
  [0x30, 0x31, 0x32, 0x33, 0x34, 0x35, 0x36, 0x37, 0x38, 0x39, 0x61, 0x62, 0x63, 0x64, 0x65, 0x66,
    0x67, 0x68, 0x69, 0x6a, 0x6b, 0x6c, 0x6d, 0x6e, 0x6f, 0x70, 0x71, 0x72, 0x73, 0x74, 0x75, 0x76,
    0x77, 0x78, 0x79, 0x7a, 0x00]

/-- `mem[p] = c;` -/
def putChar (mem : Nat → UInt8) (p : Nat) (c : UInt8) : Nat → UInt8 :=
  fun i => if i = p then c else mem i

/-- `for (; *p; p++);` -/
def scanRound (mem : Nat → UInt8) (p : Nat) : Fueled (Nat ⊕ Nat) :=
  .ok (if mem p ≠ 0 then .inl (p + 1) else .inr p)

def scanEnd (fuel : Nat) (mem : Nat → UInt8) : Option Nat → Fueled Nat
  | none => .of .fault
  | some p => whileLoop (scanRound mem) fuel p

def utoa : Nat → UInt32 → Option Nat → Int32 → (Nat → UInt8) → Fueled (Option Nat × (Nat → UInt8))
  | 0, _, _, _, _ => none
  | fuel + 1, val, buf, radix, mem =>
    let radix := if radix = 0 then 10 else radix
    match buf with
    | none => .ok (none, mem)
    | some buf =>
      if val < radix.toUInt32 then do
        let c ← .of (charAt digitChars val.toNat)
        .ok (some buf, putChar (putChar mem buf c) (buf + 1) 0)
      else do
        let (p, mem) ← utoa fuel (val / radix.toUInt32) (some buf) radix mem
        let p ← scanEnd fuel mem p
        let (_, mem) ← utoa fuel (val % radix.toUInt32) (some p) radix mem
        .ok (some buf, mem)

/-- The negation wraps around at the most negative number. -/
def itoa (fuel : Nat) (val : Int32) (buf : Option Nat) (radix : Int32) (mem : Nat → UInt8) :
    Fueled (Option Nat × (Nat → UInt8)) :=
  let radix := if radix = 0 then 10 else radix
  match buf with
  | none => .ok (none, mem)
  | some buf => do
    if val < 0 then
      let (_, mem) ← utoa fuel (-val).toUInt32 (some (buf + 1)) radix (putChar mem buf 0x2d)
      .ok (some buf, mem)
    else
      let (_, mem) ← utoa fuel val.toUInt32 (some buf) radix mem
      .ok (some buf, mem)

/-- A round of the loop of `atou_hex`, over `s` and `value`. -/
def hexRound (mem : Nat → UInt8) (v : Nat × UInt32) : Fueled (Nat × UInt32 ⊕ UInt32) :=
  let c := mem v.1
  if c ≠ 0 then
    if 0x30 ≤ c ∧ c ≤ 0x39 then .ok (.inl (v.1 + 1, v.2 * 16 + (c - 0x30).toUInt32))
    else if 0x41 ≤ c ∧ c ≤ 0x46 then .ok (.inl (v.1 + 1, v.2 * 16 + (c - 0x41 + 10).toUInt32))
    else if 0x61 ≤ c ∧ c ≤ 0x66 then .ok (.inl (v.1 + 1, v.2 * 16 + (c - 0x61 + 10).toUInt32))
    else .ok (.inr v.2)
  else .ok (.inr v.2)

def atouHex (fuel : Nat) (mem : Nat → UInt8) : Option Nat → Fueled UInt32
  | none => .ok 0
  | some s => whileLoop (hexRound mem) fuel (s, 0)

/-! ### Strings in the memory -/

/-- The memory with the string and its terminator at `buf`. -/
def putString (mem : Nat → UInt8) (buf : Nat) (s : List UInt8) : Nat → UInt8 :=
  fun i => if buf ≤ i ∧ i ≤ buf + s.length then (s ++ [0]).getD (i - buf) 0 else mem i

theorem putString_append (mem : Nat → UInt8) (buf : Nat) (s t : List UInt8) :
    putString (putString mem buf s) (buf + s.length) t = putString mem buf (s ++ t) := by
  funext i
  simp only [putString, List.length_append]
  by_cases hlow : i < buf + s.length
  · rw [if_neg (by omega)]
    by_cases hbuf : buf ≤ i
    · rw [if_pos (by omega), if_pos (by omega), List.append_assoc,
        List.getD_append _ _ _ _ (by omega), List.getD_append _ _ _ _ (by omega)]
    · rw [if_neg (by omega), if_neg (by omega)]
  · by_cases hhigh : i ≤ buf + s.length + t.length
    · rw [if_pos (by omega), if_pos (by omega), List.append_assoc,
        List.getD_append_right s (t ++ [0]) 0 (i - buf) (by omega)]
      congr 1
      omega
    · rw [if_neg (by omega), if_neg (by omega), if_neg (by omega)]

theorem putString_singleton (mem : Nat → UInt8) (buf : Nat) (c : UInt8) :
    putChar (putChar mem buf c) (buf + 1) 0 = putString mem buf [c] := by
  funext i
  simp only [putChar, putString, List.length_singleton]
  rcases Nat.lt_trichotomy i buf with h | h | h
  · rw [if_neg (by omega), if_neg (by omega), if_neg (by omega)]
  · subst h
    rw [if_neg (by omega), if_pos rfl, if_pos (by omega), Nat.sub_self]
    rfl
  · by_cases h1 : i = buf + 1
    · subst h1
      rw [if_pos rfl, if_pos (by omega), Nat.add_sub_cancel_left]
      rfl
    · rw [if_neg h1, if_neg (by omega), if_neg (by omega)]

theorem putString_at {mem : Nat → UInt8} {buf : Nat} {s : List UInt8} {k : Nat} (h : k ≤ s.length) :
    putString mem buf s (buf + k) = (s ++ [0]).getD k 0 := by
  rw [putString, if_pos (by omega), Nat.add_sub_cancel_left]

/-- The scan ends at the terminator. -/
theorem scanEnd_putString {mem : Nat → UInt8} {buf : Nat} {s : List UInt8} (hs : (0 : UInt8) ∉ s)
    {fuel : Nat} (hfuel : s.length < fuel) :
    scanEnd fuel (putString mem buf s) (some buf) = .ok (buf + s.length) := by
  have hscan : ∀ n k, k ≤ s.length → s.length - k < n →
      whileLoop (scanRound (putString mem buf s)) n (buf + k) = .ok (buf + s.length) := by
    intro n
    induction n with
    | zero => intro k _ h; exact absurd h (Nat.not_lt_zero _)
    | succ n ih =>
      intro k hk hn
      have hget : putString mem buf s (buf + k) = _ := putString_at hk
      rcases Nat.eq_or_lt_of_le hk with rfl | hlt
      · rw [List.getD_append_right _ _ _ _ (Nat.le_refl _), Nat.sub_self] at hget
        have hend : putString mem buf s (buf + s.length) = 0 := hget
        have hround : scanRound (putString mem buf s) (buf + s.length) =
            .ok (.inr (buf + s.length)) := by
          rw [scanRound, if_neg (not_not_intro hend)]
        exact whileLoop_break hround
      · have hne : putString mem buf s (buf + k) ≠ 0 := by
          rw [hget, List.getD_append _ _ _ _ hlt, List.getD_eq_getElem _ _ hlt]
          exact fun hz => hs (hz ▸ List.getElem_mem hlt)
        have hround : scanRound (putString mem buf s) (buf + k) = .ok (.inl (buf + (k + 1))) := by
          rw [scanRound, if_pos hne, Nat.add_assoc]
        rw [whileLoop_next hround]
        exact ih (k + 1) hlt (by omega)
  exact hscan fuel 0 (Nat.zero_le _) (by omega)

/-! ### The numeral in the buffer -/

/-- 0 to 9, then a to z. -/
def digitChar (d : Nat) : UInt8 :=
  if d < 10 then UInt8.ofNat (0x30 + d) else UInt8.ofNat (0x61 + (d - 10))

/-- The radix that is used. -/
def radixOf (radix : Int32) : Nat := if radix = 0 then 10 else radix.toInt.toNat

/-- A radix from 2 to 36, or 0 for 10. -/
def RadixOk (radix : Int32) : Prop := radix = 0 ∨ 2 ≤ radix.toInt ∧ radix.toInt ≤ 36

theorem digitChar_ne_zero : ∀ d, d < 36 → digitChar d ≠ 0 := by decide

theorem charAt_digitChars : ∀ d, d < 36 → charAt digitChars d = .ok (digitChar d) := by decide

theorem nulFree_map_digitChar {ds : List Nat} (h : ∀ d ∈ ds, d < 36) :
    (0 : UInt8) ∉ ds.map digitChar := by
  intro hz
  obtain ⟨d, hd, hzero⟩ := List.mem_map.mp hz
  exact digitChar_ne_zero d (h d hd) hzero

/-- A radix that is not 0 and the number it stands for. -/
theorem radix_toNat {radix : Int32} (h : RadixOk radix) :
    (if radix = 0 then 10 else radix).toUInt32.toNat = radixOf radix ∧
      2 ≤ radixOf radix ∧ radixOf radix ≤ 36 ∧ (if radix = 0 then 10 else radix) ≠ 0 := by
  by_cases hz : radix = 0
  · rw [if_pos hz, radixOf, if_pos hz]
    decide
  · obtain ⟨hlo, hhi⟩ := h.resolve_left hz
    rw [if_neg hz, radixOf, if_neg hz, toNat_toUInt32 (by omega)]
    exact ⟨rfl, by omega, by omega, hz⟩

theorem utoa_digit {radix : Int32} (hradix : radix ≠ 0) {val : UInt32} (hlt : val < radix.toUInt32)
    (h36 : val.toNat < 36) (fuel buf : Nat) (mem : Nat → UInt8) :
    utoa (fuel + 1) val (some buf) radix mem =
      .ok (some buf, putString mem buf [digitChar val.toNat]) := by
  simp only [utoa, if_neg hradix, if_pos hlt, charAt_digitChars _ h36, Fueled.of_ok, Fueled.ok_bind,
    putString_singleton]

/-- The last digit goes to the terminator of what the quotient has written. -/
theorem utoa_snoc {radix : Int32} (hradix : radix ≠ 0) {r : Nat} (hr : radix.toUInt32.toNat = r)
    (hpos : 0 < r) (h36 : r ≤ 36) {val : UInt32} (hge : r ≤ val.toNat) {fuel buf : Nat}
    {mem : Nat → UInt8} {ds : List Nat} (hds : ∀ d ∈ ds, d < r) (hlen : ds.length < fuel + 1)
    (hrun : utoa (fuel + 1) (val / radix.toUInt32) (some buf) radix mem =
      .ok (some buf, putString mem buf (ds.map digitChar))) :
    utoa (fuel + 2) val (some buf) radix mem =
      .ok (some buf, putString mem buf ((ds ++ [val.toNat % r]).map digitChar)) := by
  have hrem : (val % radix.toUInt32).toNat = val.toNat % r := by rw [UInt32.toNat_mod, hr]
  have hmod : val.toNat % r < r := Nat.mod_lt _ hpos
  have hnul := nulFree_map_digitChar fun d hd => Nat.lt_of_lt_of_le (hds d hd) h36
  have hscan : scanEnd (fuel + 1) (putString mem buf (ds.map digitChar)) (some buf) = _ :=
    scanEnd_putString hnul (by rwa [List.length_map])
  have hsmall : val % radix.toUInt32 < radix.toUInt32 := UInt32.lt_iff_toNat_lt.mpr (by omega)
  have hlast := utoa_digit hradix hsmall (by omega) fuel (buf + (ds.map digitChar).length)
    (putString mem buf (ds.map digitChar))
  rw [hrem, putString_append] at hlast
  have hnlt : ¬val < radix.toUInt32 := by
    intro h
    have := UInt32.lt_iff_toNat_lt.mp h
    omega
  rw [utoa, if_neg hradix]
  simp only [if_neg hnlt, hrun, Fueled.ok_bind, hscan, hlast]
  rw [List.map_append]
  rfl

/-- **`utoa` writes the numeral and its terminator.** -/
theorem utoa_eq {radix : Int32} (hradix : radix ≠ 0) {r : Nat} (hr : radix.toUInt32.toNat = r)
    (h2 : 2 ≤ r) (h36 : r ≤ 36) : ∀ (n fuel : Nat) (val : UInt32) (buf : Nat) (mem : Nat → UInt8),
    val.toNat < r ^ n → n < fuel → ∃ ds, IsNumeral r val.toNat ds ∧ ds.length ≤ max 1 n ∧
      utoa fuel val (some buf) radix mem = .ok (some buf, putString mem buf (ds.map digitChar)) := by
  intro n
  induction n with
  | zero =>
    intro fuel val buf mem hval hfuel
    obtain ⟨fuel, rfl⟩ := Nat.exists_eq_add_one_of_ne_zero (Nat.ne_of_gt hfuel)
    have hone : val.toNat < 1 := by rwa [Nat.pow_zero] at hval
    have hlt : val.toNat < r := by omega
    exact ⟨[val.toNat], isNumeral_digit hlt, Nat.le_refl _,
      utoa_digit hradix (UInt32.lt_iff_toNat_lt.mpr (by omega)) (by omega) fuel buf mem⟩
  | succ n ih =>
    intro fuel val buf mem hval hfuel
    obtain ⟨fuel, rfl⟩ := Nat.exists_eq_add_one_of_ne_zero (Nat.ne_of_gt (Nat.zero_lt_of_lt hfuel))
    by_cases hlt : val.toNat < r
    · exact ⟨[val.toNat], isNumeral_digit hlt, Nat.le_max_left _ _,
        utoa_digit hradix (UInt32.lt_iff_toNat_lt.mpr (by omega)) (by omega) fuel buf mem⟩
    · have hge : r ≤ val.toNat := Nat.le_of_not_lt hlt
      have hquot : (val / radix.toUInt32).toNat = val.toNat / r := by rw [UInt32.toNat_div, hr]
      have hpow : val.toNat / r < r ^ n := by
        rw [Nat.div_lt_iff_lt_mul (by omega), ← Nat.pow_succ]
        exact hval
      have hn : 1 ≤ n := by
        rcases Nat.eq_zero_or_pos n with rfl | hn
        · have hone : val.toNat < r := by simpa using hval
          exact absurd hone hlt
        · exact hn
      obtain ⟨ds, hds, hlen, hrun⟩ := ih fuel (val / radix.toUInt32) buf mem
        (by rw [hquot]; exact hpow) (by omega)
      rw [hquot] at hds
      obtain ⟨fuel, rfl⟩ := Nat.exists_eq_add_one_of_ne_zero (show fuel ≠ 0 by omega)
      refine ⟨ds ++ [val.toNat % r], hds.snoc hge (by omega), ?_,
        utoa_snoc hradix hr (by omega) h36 hge hds.lt (by omega) hrun⟩
      rw [List.length_append, List.length_singleton]
      omega

/-! ### The sign -/

theorem putString_cons (mem : Nat → UInt8) (buf : Nat) (c : UInt8) (s : List UInt8) :
    putString (putChar mem buf c) (buf + 1) s = putString mem buf (c :: s) := by
  funext i
  simp only [putString, putChar, List.length_cons]
  rcases Nat.lt_trichotomy i buf with h | h | h
  · rw [if_neg (by omega), if_neg (by omega), if_neg (by omega)]
  · subst h
    rw [if_neg (by omega), if_pos rfl, if_pos (by omega), Nat.sub_self]
    rfl
  · obtain ⟨k, rfl⟩ : ∃ k, i = buf + 1 + k := ⟨i - (buf + 1), by omega⟩
    have hk : buf + 1 + k - buf = k + 1 := by omega
    rw [if_neg (show ¬buf + 1 + k = buf by omega), Nat.add_sub_cancel_left, hk]
    by_cases hle : k ≤ s.length
    · rw [if_pos (by omega), if_pos (by omega)]
      rfl
    · rw [if_neg (by omega), if_neg (by omega)]

/-! ### Reading a hexadecimal numeral -/

theorem hexRound_digit {mem : Nat → UInt8} {p d : Nat} (hd : d < 16) (h : mem p = digitChar d)
    (v : UInt32) : hexRound mem (p, v) = .ok (.inl (p + 1, v * 16 + UInt32.ofNat d)) := by
  rw [hexRound, h]
  interval_cases d <;> rfl

theorem putString_digit {mem : Nat → UInt8} {buf : Nat} (pre rest : List Nat) (d : Nat) :
    putString mem buf ((pre ++ d :: rest).map digitChar) (buf + pre.length) = digitChar d := by
  have hlen : (pre.map digitChar).length = pre.length := List.length_map _
  rw [putString_at (by rw [List.length_map, List.length_append]; omega), List.map_append,
    List.append_assoc, List.getD_append_right _ _ _ _ (Nat.le_of_eq hlen), hlen, Nat.sub_self]
  rfl

theorem putString_end {mem : Nat → UInt8} {buf : Nat} (pre : List Nat) :
    putString mem buf (pre.map digitChar) (buf + pre.length) = 0 := by
  have hlen : (pre.map digitChar).length = pre.length := List.length_map _
  rw [putString_at (Nat.le_of_eq hlen.symm),
    List.getD_append_right _ _ _ _ (Nat.le_of_eq hlen), hlen, Nat.sub_self]
  rfl

theorem hexLoop_eq {mem : Nat → UInt8} {buf : Nat} : ∀ (rest pre : List Nat) (n v : Nat),
    (∀ d ∈ rest, d < 16) → rest.length < n →
    whileLoop (hexRound (putString mem buf ((pre ++ rest).map digitChar))) n
        (buf + pre.length, UInt32.ofNat v) =
      .ok (UInt32.ofNat (rest.foldl (fun v d => v * 16 + d) v)) := by
  intro rest
  induction rest with
  | nil =>
    intro pre n v _ hn
    obtain ⟨n, rfl⟩ := Nat.exists_eq_add_one_of_ne_zero (Nat.ne_of_gt hn)
    have hround : hexRound (putString mem buf ((pre ++ []).map digitChar))
        (buf + pre.length, UInt32.ofNat v) = .ok (.inr (UInt32.ofNat v)) := by
      rw [List.append_nil, hexRound, putString_end]
      rfl
    rw [whileLoop_break hround]
    rfl
  | cons d rest ih =>
    intro pre n v hlt hn
    obtain ⟨n, rfl⟩ := Nat.exists_eq_add_one_of_ne_zero (Nat.ne_of_gt (Nat.zero_lt_of_lt hn))
    have hat : putString mem buf ((pre ++ d :: rest).map digitChar) (buf + pre.length) = _ :=
      putString_digit pre rest d
    have hround := hexRound_digit (hlt d List.mem_cons_self) hat (UInt32.ofNat v)
    have hrec := ih (pre ++ [d]) n (v * 16 + d) (fun e he => hlt e (List.mem_cons_of_mem d he))
      (Nat.lt_of_succ_lt_succ hn)
    rw [List.append_assoc, List.singleton_append, List.length_append, List.length_singleton,
      ← Nat.add_assoc, UInt32.ofNat_add, UInt32.ofNat_mul] at hrec
    rw [whileLoop_next hround]
    exact hrec

theorem atouHex_eq {mem : Nat → UInt8} {buf : Nat} {val : UInt32} {ds : List Nat}
    (hds : IsNumeral 16 val.toNat ds) {fuel : Nat} (hfuel : ds.length < fuel) :
    atouHex fuel (putString mem buf (ds.map digitChar)) (some buf) = .ok val := by
  have hloop : whileLoop (hexRound (putString mem buf (ds.map digitChar))) fuel (buf, 0) = _ :=
    hexLoop_eq ds [] fuel 0 hds.lt hfuel
  rw [hds.foldl, UInt32.ofNat_toNat] at hloop
  exact hloop

/-! ### The three functions -/

theorem toNat_lt_pow (val : UInt32) {r : Nat} (hr : 2 ≤ r) : val.toNat < r ^ 32 :=
  Nat.lt_of_lt_of_le val.toNat_lt (Nat.pow_le_pow_left hr 32)

theorem utoa_default {radix : Int32} (hradix : RadixOk radix) {fuel : Nat} (hfuel : 33 ≤ fuel)
    (val : UInt32) (buf : Nat) (mem : Nat → UInt8) :
    ∃ ds, IsNumeral (radixOf radix) val.toNat ds ∧ ds.length ≤ 32 ∧
      utoa fuel val (some buf) (if radix = 0 then 10 else radix) mem =
        .ok (some buf, putString mem buf (ds.map digitChar)) := by
  obtain ⟨hr, h2, h36, hne⟩ := radix_toNat hradix
  exact utoa_eq hne hr h2 h36 32 fuel val buf mem (toNat_lt_pow val h2) (by omega)

theorem utoa_numeral {radix : Int32} (hradix : RadixOk radix) {fuel : Nat} (hfuel : 33 ≤ fuel)
    (val : UInt32) (buf : Nat) (mem : Nat → UInt8) :
    ∃ ds, IsNumeral (radixOf radix) val.toNat ds ∧ ds.length ≤ 32 ∧
      utoa fuel val (some buf) radix mem = .ok (some buf, putString mem buf (ds.map digitChar)) := by
  obtain ⟨ds, hds, hlen, hrun⟩ := utoa_default hradix hfuel val buf mem
  refine ⟨ds, hds, hlen, ?_⟩
  obtain ⟨fuel, rfl⟩ := Nat.exists_eq_add_one_of_ne_zero (show fuel ≠ 0 by omega)
  by_cases hz : radix = 0
  · subst hz
    exact hrun
  · rwa [if_neg hz] at hrun

theorem itoa_numeral {radix : Int32} (hradix : RadixOk radix) {fuel : Nat} (hfuel : 33 ≤ fuel)
    (val : Int32) (buf : Nat) (mem : Nat → UInt8) :
    ∃ ds, IsNumeral (radixOf radix) val.toInt.natAbs ds ∧
      itoa fuel val (some buf) radix mem = .ok (some buf, putString mem buf
        ((if val < 0 then [0x2d] else []) ++ ds.map digitChar)) := by
  by_cases hneg : val < 0
  · obtain ⟨ds, hds, -, hrun⟩ := utoa_default hradix hfuel (-val).toUInt32 (buf + 1)
      (putChar mem buf 0x2d)
    rw [toNat_neg hneg] at hds
    rw [putString_cons] at hrun
    refine ⟨ds, hds, ?_⟩
    simp only [itoa, if_pos hneg, hrun, Fueled.ok_bind]
    rfl
  · obtain ⟨ds, hds, -, hrun⟩ := utoa_default hradix hfuel val.toUInt32 buf mem
    rw [toNat_of_nonneg hneg] at hds
    refine ⟨ds, hds, ?_⟩
    simp only [itoa, if_neg hneg, hrun, Fueled.ok_bind]
    rfl

/-- **The strings that are written, and back.** -/
theorem str_numbers :
    (∀ (val : UInt32) (radix : Int32) (buf fuel : Nat) (mem : Nat → UInt8), RadixOk radix →
      33 ≤ fuel → ∃ ds, IsNumeral (radixOf radix) val.toNat ds ∧
        (∀ ds', IsNumeral (radixOf radix) val.toNat ds' → ds' = ds) ∧
        utoa fuel val (some buf) radix mem =
          .ok (some buf, putString mem buf (ds.map digitChar))) ∧
    (∀ (val radix : Int32) (buf fuel : Nat) (mem : Nat → UInt8), RadixOk radix → 33 ≤ fuel →
      ∃ ds, IsNumeral (radixOf radix) val.toInt.natAbs ds ∧
        (∀ ds', IsNumeral (radixOf radix) val.toInt.natAbs ds' → ds' = ds) ∧
        itoa fuel val (some buf) radix mem =
          .ok (some buf, putString mem buf
            ((if val < 0 then [0x2d] else []) ++ ds.map digitChar))) ∧
    ∀ (val : UInt32) (buf fuel : Nat) (mem : Nat → UInt8), 33 ≤ fuel →
      ∃ mem', utoa fuel val (some buf) 16 mem = .ok (some buf, mem') ∧
        atouHex fuel mem' (some buf) = .ok val := by
  refine ⟨fun val radix buf fuel mem hradix hfuel => ?_,
    fun val radix buf fuel mem hradix hfuel => ?_, fun val buf fuel mem hfuel => ?_⟩
  · obtain ⟨-, h2, -, -⟩ := radix_toNat hradix
    obtain ⟨ds, hds, -, hrun⟩ := utoa_numeral hradix hfuel val buf mem
    exact ⟨ds, hds, fun ds' h => hds.unique h h2, hrun⟩
  · obtain ⟨-, h2, -, -⟩ := radix_toNat hradix
    obtain ⟨ds, hds, hrun⟩ := itoa_numeral hradix hfuel val buf mem
    exact ⟨ds, hds, fun ds' h => hds.unique h h2, hrun⟩
  · have hradix : RadixOk 16 := .inr (by decide)
    obtain ⟨ds, hds, hlen, hrun⟩ := utoa_numeral hradix hfuel val buf mem
    exact ⟨_, hrun, atouHex_eq hds (by omega)⟩

/-- 255 in radix 16 and back, and the most negative number in radix 10. -/
theorem str_numbers_least :
    (RadixOk 16 ∧ utoa 33 255 (some 4) 16 (fun _ => 7) =
      .ok (some 4, putString (fun _ => 7) 4 [0x66, 0x66])) ∧
    (RadixOk 0 ∧ itoa 33 (-2147483648) (some 4) 0 (fun _ => 7) =
      .ok (some 4, putString (fun _ => 7) 4
        [0x2d, 0x32, 0x31, 0x34, 0x37, 0x34, 0x38, 0x33, 0x36, 0x34, 0x38])) ∧
    ∃ mem', utoa 33 255 (some 4) 16 (fun _ => 7) = .ok (some 4, mem') ∧
      atouHex 33 mem' (some 4) = .ok 255 := by
  have hsixteen : RadixOk 16 := .inr (by decide)
  have hzero : RadixOk 0 := .inl rfl
  obtain ⟨hutoa, hitoa, hround⟩ := str_numbers
  refine ⟨⟨hsixteen, ?_⟩, ⟨hzero, ?_⟩, hround 255 4 33 (fun _ => 7) (Nat.le_refl _)⟩
  · obtain ⟨ds, -, huniq, hrun⟩ := hutoa 255 16 4 33 (fun _ => 7) hsixteen (Nat.le_refl _)
    have hds : IsNumeral 16 255 [15, 15] :=
      ⟨by decide, rfl, fun t h => (by cases h), List.cons_ne_nil _ _⟩
    rw [hrun, ← huniq _ hds]
    rfl
  · obtain ⟨ds, -, huniq, hrun⟩ :=
      hitoa (-2147483648) 0 4 33 (fun _ => 7) hzero (Nat.le_refl _)
    have hds : IsNumeral 10 2147483648 [2, 1, 4, 7, 4, 8, 3, 6, 4, 8] :=
      ⟨by decide, rfl, fun t h => (by cases h), List.cons_ne_nil _ _⟩
    rw [hrun, ← huniq _ hds]
    rfl

end Nl6621.NuAgent
