import Mathlib.Data.Nat.Bitwise
import Nl6621.Lib.Call

/-!
# Length fields in base 128

A length is written as digits in base 128, the least significant first; the top
bit of a byte says that another digit follows.  `lenDigits k v` writes `v` with
at most `k + 1` digits and `decodeLen k` reads at most `k + 1` of them back.

Reading can end in three ways, and the difference matters to a receiver: the
field is `done`, it is still `short` of a byte, or it is `long`, with a
continuation bit on its last admissible digit.

* `decodeLen_lenDigits`: reading undoes writing and stops right behind the
  field.
* `decodeLen_done`: whatever is read came from a prefix of one to `k + 1` bytes,
  and is below `128 ^ (k + 1)`.
* `pow_le_of_lt_length_lenDigits`: fewer digits would not do.
* `decodeLen_long_iff`: which fields are too long.
-/

namespace Lib

/-- The digits of `v` in base 128, at most `k + 1` of them. -/
def lenDigits : Nat → Nat → List UInt8
  | 0, v => [UInt8.ofNat (v % 128)]
  | k + 1, v =>
    if v / 128 = 0 then [UInt8.ofNat (v % 128)]
    else UInt8.ofNat (v % 128 + 128) :: lenDigits k (v / 128)

/-- How reading a length field ends. -/
inductive LenField where
  | done (v : Nat) (rest : List UInt8)
  | short
  | long
deriving DecidableEq, Repr

/-- The digit `d` in front of a field that has been read. -/
def LenField.push (d : Nat) : LenField → LenField
  | done v rest => done (d + 128 * v) rest
  | short => short
  | long => long

/-- Read a length field of at most `k + 1` digits. -/
def decodeLen : Nat → List UInt8 → LenField
  | _, [] => .short
  | 0, b :: rest => if b.toNat < 128 then .done b.toNat rest else .long
  | k + 1, b :: rest =>
    if b.toNat < 128 then .done b.toNat rest
    else (decodeLen k rest).push (b.toNat - 128)

/-! ### The bits of a digit -/

theorem land_127 (n : Nat) : n &&& 0x7f = n % 128 := Nat.and_two_pow_sub_one_eq_mod n 7

theorem lor_128 {n : Nat} (h : n < 128) : n ||| 0x80 = n + 128 :=
  calc n ||| 0x80 = 2 ^ 7 * 1 ||| n := Nat.or_comm n _
    _ = 2 ^ 7 * 1 + n := (Nat.two_pow_add_eq_or_of_lt h 1).symm
    _ = n + 128 := by omega

theorem testBit_seven {n : Nat} (h : n < 256) : n.testBit 7 = decide (128 ≤ n) := by
  have h7 : n / 2 ^ 7 = if 128 ≤ n then 1 else 0 := by
    split <;> omega
  rw [Nat.testBit_eq_decide_div_mod_eq, h7]
  by_cases hn : 128 ≤ n
  · simp [hn]
  · simp [hn]

theorem land_128_eq_zero {n : Nat} (h : n < 256) : n &&& 0x80 = 0 ↔ n < 128 := by
  rw [show (0x80 : Nat) = 2 ^ 7 from rfl, Nat.and_two_pow, testBit_seven h]
  by_cases hn : 128 ≤ n
  · simp [hn]
  · simp [hn]; omega

/-! ### Writing and reading -/

theorem length_lenDigits_pos : ∀ k v : Nat, 1 ≤ (lenDigits k v).length
  | 0, _ => by simp [lenDigits]
  | k + 1, v => by
    rw [lenDigits]
    split <;> simp

theorem length_lenDigits_le : ∀ k v : Nat, (lenDigits k v).length ≤ k + 1
  | 0, _ => by simp [lenDigits]
  | k + 1, v => by
    rw [lenDigits]
    split
    · simp
    · simpa using length_lenDigits_le k (v / 128)

/-- Fewer digits are not enough. -/
theorem pow_le_of_lt_length_lenDigits : ∀ k v n : Nat, 1 ≤ n → n < (lenDigits k v).length →
    128 ^ n ≤ v := by
  intro k
  induction k with
  | zero =>
    intro v n hn hlt
    rw [lenDigits, List.length_singleton] at hlt
    omega
  | succ k ih =>
    intro v n hn hlt
    rw [lenDigits] at hlt
    by_cases h0 : v / 128 = 0
    · rw [if_pos h0, List.length_singleton] at hlt
      omega
    · rw [if_neg h0, List.length_cons] at hlt
      obtain ⟨n, rfl⟩ : ∃ n', n = n' + 1 := ⟨n - 1, by omega⟩
      rw [Nat.pow_succ, ← Nat.le_div_iff_mul_le (by omega)]
      by_cases hz : n = 0
      · rw [hz]
        omega
      · exact ih (v / 128) n (by omega) (by omega)

/-- **Reading a length field undoes writing it.**  The reader stops exactly
behind the digits, whatever follows them. -/
theorem decodeLen_lenDigits : ∀ (k v : Nat), v < 128 ^ (k + 1) → ∀ rest : List UInt8,
    decodeLen k (lenDigits k v ++ rest) = .done v rest := by
  intro k
  induction k with
  | zero =>
    intro v hv rest
    have hv' : v < 128 := by simpa using hv
    have hb : (UInt8.ofNat (v % 128)).toNat = v := by
      rw [UInt8.toNat_ofNat']; omega
    rw [lenDigits, List.singleton_append, decodeLen, hb, if_pos hv']
  | succ k ih =>
    intro v hv rest
    rw [lenDigits]
    by_cases h0 : v / 128 = 0
    · have hb : (UInt8.ofNat (v % 128)).toNat = v := by
        rw [UInt8.toNat_ofNat']; omega
      rw [if_pos h0, List.singleton_append, decodeLen, hb, if_pos (by omega)]
    · have hb : (UInt8.ofNat (v % 128 + 128)).toNat = v % 128 + 128 := by
        rw [UInt8.toNat_ofNat']; omega
      have hv' : v / 128 < 128 ^ (k + 1) := by
        rw [Nat.div_lt_iff_lt_mul (by omega), ← Nat.pow_succ]
        exact hv
      rw [if_neg h0, List.cons_append, decodeLen, hb, if_neg (by omega), ih _ hv',
        LenField.push, Nat.add_sub_cancel, Nat.mod_add_div]

/-- **What a length field can be.**  A field that was read is a prefix of one to
`k + 1` bytes, and its value is below `128 ^ (k + 1)`. -/
theorem decodeLen_done : ∀ (k : Nat) (bs : List UInt8) (v : Nat) (rest : List UInt8),
    decodeLen k bs = .done v rest →
      ∃ ds, bs = ds ++ rest ∧ 1 ≤ ds.length ∧ ds.length ≤ k + 1 ∧ v < 128 ^ (k + 1) ∧
        ∀ rest', decodeLen k (ds ++ rest') = .done v rest' := by
  intro k
  induction k with
  | zero =>
    intro bs v rest h
    cases bs with
    | nil => simp [decodeLen] at h
    | cons b bs =>
      rw [decodeLen] at h
      by_cases hb : b.toNat < 128
      · rw [if_pos hb] at h
        cases h
        refine ⟨[b], rfl, by simp, by simp, by simpa using hb, fun rest' => ?_⟩
        rw [List.singleton_append, decodeLen, if_pos hb]
      · rw [if_neg hb] at h; cases h
  | succ k ih =>
    intro bs v rest h
    cases bs with
    | nil => simp [decodeLen] at h
    | cons b bs =>
      rw [decodeLen] at h
      by_cases hb : b.toNat < 128
      · rw [if_pos hb] at h
        cases h
        refine ⟨[b], rfl, by simp, by simp, ?_, fun rest' => ?_⟩
        · exact lt_of_lt_of_le hb (Nat.le_self_pow (by omega) 128)
        · rw [List.singleton_append, decodeLen, if_pos hb]
      · rw [if_neg hb] at h
        cases hd : decodeLen k bs with
        | short => rw [hd] at h; cases h
        | long => rw [hd] at h; cases h
        | done w rest₁ =>
          rw [hd, LenField.push] at h
          cases h
          obtain ⟨ds, rfl, h1, h2, h3, h4⟩ := ih bs w rest hd
          have hlt := b.toNat_lt
          refine ⟨b :: ds, rfl, by simp, by simpa using h2, ?_, fun rest' => ?_⟩
          · rw [Nat.pow_succ]
            omega
          · rw [List.cons_append, decodeLen, if_neg hb, h4, LenField.push]

/-- A field is too long exactly when all its admissible digits ask for another one. -/
theorem decodeLen_long_iff : ∀ (k : Nat) (bs : List UInt8),
    decodeLen k bs = .long ↔ k + 1 ≤ bs.length ∧ ∀ b ∈ bs.take (k + 1), 128 ≤ b.toNat := by
  intro k
  induction k with
  | zero =>
    intro bs
    cases bs with
    | nil => simp [decodeLen]
    | cons b bs =>
      rw [decodeLen]
      by_cases hb : b.toNat < 128
      · simp [hb]
      · simp [hb]
        omega
  | succ k ih =>
    intro bs
    cases bs with
    | nil => simp [decodeLen]
    | cons b bs =>
      have hpush : (decodeLen k bs).push (b.toNat - 128) = .long ↔ decodeLen k bs = .long := by
        cases decodeLen k bs <;> simp [LenField.push]
      rw [decodeLen, List.take_succ_cons, List.forall_mem_cons, List.length_cons]
      by_cases hb : b.toNat < 128
      · rw [if_pos hb]
        constructor
        · intro h
          cases h
        · intro h
          exact absurd h.2.1 (by omega)
      · rw [if_neg hb, hpush, ih]
        constructor
        · intro h
          exact ⟨by omega, by omega, h.2⟩
        · intro h
          exact ⟨by omega, h.2.2⟩

end Lib
