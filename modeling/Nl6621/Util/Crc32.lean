import Mathlib.Tactic.IntervalCases
import Nl6621.Lib.Crc

/-!
# `NST_GetCrc32`

An `INT32` is here the word of its 32 bits, on which `>>` copies the sign.  `_cal_crc32` spreads the
register and the data byte over arrays with a bit in each cell, computes each bit of the new
register by an equation of its own, and collects the bits again.  `NST_GetCrc32` lets it run over
the data and turns the register round at the end.

The equations are exclusive ors of cells, so that the byte step is linear; `calCrc32_eq` therefore
only has to look at the words with a single one, and gives eight steps of the bit-serial register.
-/

namespace Nl6621.Util

open Lib

/-! ### The code -/

/-- `for (i = 0; i < n; i++) if (p(i)) val |= (1 << pos(i));` -/
def setBits (p : Nat → Bool) (pos : Nat → Nat) : Nat → BitVec 32
  | 0 => 0#32
  | n + 1 => if p n then setBits p pos n ||| 1#32 <<< pos n else setBits p pos n

/-- `in_data_buf[i]` -/
def inDataBuf (data8 : BitVec 8) (i : Nat) : BitVec 8 := (data8 >>> i) &&& 1#8

/-- `crc_buf[i]` -/
def crcBuf (crcResult : BitVec 32) (i : Nat) : BitVec 8 :=
  (crcResult.sshiftRight i).setWidth 8 &&& 1#8

/-- `crc_out`, from the cells `d` of `in_data_buf` and `c` of `crc_buf`. -/
def crcOut (d c : Nat → BitVec 8) : List (BitVec 8) :=
  [ d 1 ^^^ d 7 ^^^ c 30 ^^^ c 24,
    d 0 ^^^ d 1 ^^^ d 6 ^^^ d 7 ^^^ c 31 ^^^ c 30 ^^^ c 25 ^^^ c 24,
    d 0 ^^^ d 1 ^^^ d 5 ^^^ d 6 ^^^ d 7 ^^^ c 31 ^^^ c 30 ^^^ c 26 ^^^ c 25 ^^^ c 24,
    d 0 ^^^ d 4 ^^^ d 5 ^^^ d 6 ^^^ c 31 ^^^ c 27 ^^^ c 26 ^^^ c 25,
    d 1 ^^^ d 3 ^^^ d 4 ^^^ d 5 ^^^ d 7 ^^^ c 30 ^^^ c 28 ^^^ c 27 ^^^ c 26 ^^^ c 24,
    d 0 ^^^ d 1 ^^^ d 2 ^^^ d 3 ^^^ d 4 ^^^ d 6 ^^^ d 7 ^^^ c 31 ^^^ c 30 ^^^ c 29 ^^^ c 28 ^^^
      c 27 ^^^ c 25 ^^^ c 24,
    d 0 ^^^ d 1 ^^^ d 2 ^^^ d 3 ^^^ d 5 ^^^ d 6 ^^^ c 31 ^^^ c 30 ^^^ c 29 ^^^ c 28 ^^^ c 26 ^^^
      c 25,
    d 0 ^^^ d 2 ^^^ d 4 ^^^ d 5 ^^^ d 7 ^^^ c 31 ^^^ c 29 ^^^ c 27 ^^^ c 26 ^^^ c 24,
    d 3 ^^^ d 4 ^^^ d 6 ^^^ d 7 ^^^ c 28 ^^^ c 27 ^^^ c 25 ^^^ c 24 ^^^ c 0,
    d 2 ^^^ d 3 ^^^ d 5 ^^^ d 6 ^^^ c 29 ^^^ c 28 ^^^ c 26 ^^^ c 25 ^^^ c 1,
    d 2 ^^^ d 4 ^^^ d 5 ^^^ d 7 ^^^ c 29 ^^^ c 27 ^^^ c 26 ^^^ c 24 ^^^ c 2,
    d 3 ^^^ d 4 ^^^ d 6 ^^^ d 7 ^^^ c 28 ^^^ c 27 ^^^ c 25 ^^^ c 24 ^^^ c 3,
    d 1 ^^^ d 2 ^^^ d 3 ^^^ d 5 ^^^ d 6 ^^^ d 7 ^^^ c 30 ^^^ c 29 ^^^ c 28 ^^^ c 26 ^^^ c 25 ^^^
      c 24 ^^^ c 4,
    d 0 ^^^ d 1 ^^^ d 2 ^^^ d 4 ^^^ d 5 ^^^ d 6 ^^^ c 31 ^^^ c 30 ^^^ c 29 ^^^ c 27 ^^^ c 26 ^^^
      c 25 ^^^ c 5,
    d 0 ^^^ d 1 ^^^ d 3 ^^^ d 4 ^^^ d 5 ^^^ c 31 ^^^ c 30 ^^^ c 28 ^^^ c 27 ^^^ c 26 ^^^ c 6,
    d 0 ^^^ d 2 ^^^ d 3 ^^^ d 4 ^^^ c 31 ^^^ c 29 ^^^ c 28 ^^^ c 27 ^^^ c 7,
    d 2 ^^^ d 3 ^^^ d 7 ^^^ c 29 ^^^ c 28 ^^^ c 24 ^^^ c 8,
    d 1 ^^^ d 2 ^^^ d 6 ^^^ c 30 ^^^ c 29 ^^^ c 25 ^^^ c 9,
    d 0 ^^^ d 1 ^^^ d 5 ^^^ c 31 ^^^ c 30 ^^^ c 26 ^^^ c 10,
    d 0 ^^^ d 4 ^^^ c 31 ^^^ c 27 ^^^ c 11,
    d 3 ^^^ c 28 ^^^ c 12,
    d 2 ^^^ c 29 ^^^ c 13,
    d 7 ^^^ c 24 ^^^ c 14,
    d 1 ^^^ d 6 ^^^ d 7 ^^^ c 30 ^^^ c 25 ^^^ c 24 ^^^ c 15,
    d 0 ^^^ d 5 ^^^ d 6 ^^^ c 31 ^^^ c 26 ^^^ c 25 ^^^ c 16,
    d 4 ^^^ d 5 ^^^ c 27 ^^^ c 26 ^^^ c 17,
    d 1 ^^^ d 3 ^^^ d 4 ^^^ d 7 ^^^ c 30 ^^^ c 28 ^^^ c 27 ^^^ c 24 ^^^ c 18,
    d 0 ^^^ d 2 ^^^ d 3 ^^^ d 6 ^^^ c 31 ^^^ c 29 ^^^ c 28 ^^^ c 25 ^^^ c 19,
    d 1 ^^^ d 2 ^^^ d 5 ^^^ c 30 ^^^ c 29 ^^^ c 26 ^^^ c 20,
    d 0 ^^^ d 1 ^^^ d 4 ^^^ c 31 ^^^ c 30 ^^^ c 27 ^^^ c 21,
    d 0 ^^^ d 3 ^^^ c 31 ^^^ c 28 ^^^ c 22,
    d 2 ^^^ c 23 ^^^ c 29 ]

/-- `_cal_crc32` -/
def calCrc32 (crcResult : BitVec 32) (data8 : BitVec 8) : BitVec 32 :=
  let crcOut := crcOut (inDataBuf data8) (crcBuf crcResult)
  setBits (fun i => crcOut.getD i 0#8 != 0#8) id 32

def nstGetCrc32 (pData : List UInt8) (dataSize : Int32) : Outcome (BitVec 32) :=
  (foldBytes (fun r b => calCrc32 r b.toBitVec) pData dataSize.toInt.toNat 0 0xFFFFFFFF#32).bind
    fun crcResult => .ok (~~~setBits (fun i => (crcResult.sshiftRight i) &&& 1#32 != 0#32) (31 - ·) 32)

/-! ### The purpose -/

/-- The bitwise reference CRC-32. -/
def crc32 (data : List UInt8) : BitVec 32 :=
  crcRun 0xEDB88320#32 0xFFFFFFFF#32 data ^^^ 0xFFFFFFFF#32

/-! ### The equations are linear -/

/-- A cell of the arrays as a function of register and data: linear, with one bit in it. -/
structure IsBit (f : BitVec 32 → BitVec 8 → BitVec 8) : Prop where
  linear : XorLinear f
  bit : ∀ a c, f a c = 0#8 ∨ f a c = 1#8

theorem IsBit.xor {f g : BitVec 32 → BitVec 8 → BitVec 8} (hf : IsBit f) (hg : IsBit g) :
    IsBit fun a c => f a c ^^^ g a c := by
  refine ⟨hf.linear.xor hg.linear, fun a c => ?_⟩
  rcases hf.bit a c with h | h <;> rcases hg.bit a c with h' | h' <;> simp [h, h']

theorem and_one_bit (a : BitVec 8) : a &&& 1#8 = 0#8 ∨ a &&& 1#8 = 1#8 := by
  rw [BitVec.and_one_eq_setWidth_ofBool_getLsbD]
  cases a.getLsbD 0
  · exact .inl rfl
  · exact .inr rfl

theorem xor_and_one (a b : BitVec 8) : (a ^^^ b) &&& 1#8 = (a &&& 1#8) ^^^ (b &&& 1#8) := by
  apply BitVec.eq_of_getLsbD_eq
  intro i _
  simp only [BitVec.getLsbD_and, BitVec.getLsbD_xor, Bool.and_xor_distrib_right]

theorem isBit_inDataBuf (i : Nat) : IsBit fun _ c => inDataBuf c i := by
  refine ⟨fun _ _ c d => ?_, fun _ c => and_one_bit _⟩
  show (c ^^^ d) >>> i &&& 1#8 = (c >>> i &&& 1#8) ^^^ (d >>> i &&& 1#8)
  rw [BitVec.ushiftRight_xor_distrib, xor_and_one]

theorem isBit_crcBuf (i : Nat) : IsBit fun a _ => crcBuf a i := by
  refine ⟨fun a b _ _ => ?_, fun a _ => and_one_bit _⟩
  show ((a ^^^ b).sshiftRight i).setWidth 8 &&& 1#8 = _
  rw [BitVec.sshiftRight_xor_distrib, BitVec.setWidth_xor, xor_and_one]
  rfl

theorem isBit_crcOut {k : Nat} (hk : k < 32) :
    IsBit fun a c => (crcOut (inDataBuf c) (crcBuf a)).getD k 0#8 := by
  interval_cases k
  all_goals
    simp only [crcOut, List.getD_cons_succ, List.getD_cons_zero]
    repeat first | exact isBit_inDataBuf _ | exact isBit_crcBuf _ | apply IsBit.xor

/-! ### The byte step -/

theorem getLsbD_setBits {p : Nat → Bool} {pos : Nat → Nat} {k : Nat} (hk : k < 32) : ∀ n,
    (setBits p pos n).getLsbD k = true ↔ ∃ i, i < n ∧ pos i = k ∧ p i = true := by
  intro n
  induction n with
  | zero =>
    constructor
    · intro h
      rw [setBits, BitVec.getLsbD_zero] at h
      cases h
    · rintro ⟨i, hi, -⟩
      exact absurd hi (Nat.not_lt_zero i)
  | succ n ih =>
    have hone : (1#32 <<< pos n).getLsbD k = true ↔ pos n = k := by
      rw [← BitVec.twoPow_eq, BitVec.getLsbD_twoPow]
      simp only [Bool.and_eq_true, decide_eq_true_eq]
      omega
    have hlast : (∃ i, i < n + 1 ∧ pos i = k ∧ p i = true) ↔
        (∃ i, i < n ∧ pos i = k ∧ p i = true) ∨ pos n = k ∧ p n = true := by
      constructor
      · rintro ⟨i, hi, h⟩
        rcases Nat.eq_or_lt_of_le (Nat.lt_succ_iff.mp hi) with rfl | hi
        · exact .inr h
        · exact .inl ⟨i, hi, h⟩
      · rintro (⟨i, hi, h⟩ | h)
        · exact ⟨i, Nat.lt_succ_of_lt hi, h⟩
        · exact ⟨n, Nat.lt_succ_self n, h⟩
    rw [hlast, ← ih, setBits]
    by_cases hp : p n = true
    · rw [if_pos hp, BitVec.getLsbD_or, Bool.or_eq_true, hone]
      exact or_congr_right (and_iff_left hp).symm
    · rw [if_neg hp]
      exact (or_iff_left fun h => hp h.2).symm

theorem getLsbD_calCrc32 {k : Nat} (hk : k < 32) (a : BitVec 32) (c : BitVec 8) :
    (calCrc32 a c).getLsbD k = ((crcOut (inDataBuf c) (crcBuf a)).getD k 0#8).getLsbD 0 := by
  have hset : (calCrc32 a c).getLsbD k = true ↔ ∃ i, i < 32 ∧ id i = k ∧
      ((crcOut (inDataBuf c) (crcBuf a)).getD i 0#8 != 0#8) = true := getLsbD_setBits hk 32
  have hone : (calCrc32 a c).getLsbD k = true ↔
      (crcOut (inDataBuf c) (crcBuf a)).getD k 0#8 ≠ 0#8 := by
    refine hset.trans ⟨?_, fun h => ⟨k, hk, rfl, bne_iff_ne.mpr h⟩⟩
    rintro ⟨i, -, rfl, h⟩
    exact bne_iff_ne.mp h
  rw [Bool.eq_iff_iff, hone]
  rcases (isBit_crcOut hk).bit a c with h | h
  · rw [h]
    decide
  · rw [h]
    decide

theorem xorLinear_calCrc32 : XorLinear calCrc32 := by
  intro a b c d
  apply BitVec.eq_of_getLsbD_eq
  intro k hk
  have hlin := congrArg (·.getLsbD 0) ((isBit_crcOut hk).linear a b c d)
  rw [BitVec.getLsbD_xor, getLsbD_calCrc32 hk, getLsbD_calCrc32 hk, getLsbD_calCrc32 hk,
    ← BitVec.getLsbD_xor]
  exact hlin

set_option maxRecDepth 4000 in
theorem calCrc32_twoPow_left : ∀ i, i < 32 → calCrc32 (BitVec.twoPow 32 i) 0#8 =
    (lsbFirst 0#8).foldl (crcStepMsb 0x04C11DB7#32) (BitVec.twoPow 32 i) := by
  decide

set_option maxRecDepth 4000 in
theorem calCrc32_twoPow_right : ∀ i, i < 8 → calCrc32 0#32 (BitVec.twoPow 8 i) =
    (lsbFirst (BitVec.twoPow 8 i)).foldl (crcStepMsb 0x04C11DB7#32) 0#32 := by
  decide

/-- **The equations are eight steps of the bit-serial register.** -/
theorem calCrc32_eq (a : BitVec 32) (c : BitVec 8) :
    calCrc32 a c = (lsbFirst c).foldl (crcStepMsb 0x04C11DB7#32) a :=
  xorLinear_calCrc32.ext (xorLinear_foldl_crcStepMsb _) calCrc32_twoPow_left
    calCrc32_twoPow_right a c

set_option maxRecDepth 2000 in
theorem reverse_poly : (0x04C11DB7#32).reverse = 0xEDB88320#32 := by decide

set_option maxRecDepth 2000 in
theorem reverse_ones : (0xFFFFFFFF#32).reverse = 0xFFFFFFFF#32 := by decide

theorem reverse_calCrc32 (a : BitVec 32) (c : BitVec 8) :
    (calCrc32 a c).reverse = crcByte 0xEDB88320#32 a.reverse c := by
  rw [calCrc32_eq, reverse_foldl_crcStepMsb, reverse_poly]
  rfl

/-! ### The data -/

theorem reverse_foldl_calCrc32 : ∀ (data : List UInt8) (a : BitVec 32),
    (data.foldl (fun r b => calCrc32 r b.toBitVec) a).reverse =
      crcRun 0xEDB88320#32 a.reverse data := by
  intro data
  induction data with
  | nil => intro a; rfl
  | cons b data ih =>
    intro a
    rw [List.foldl_cons, ih, reverse_calCrc32]
    rfl

/-- The last loop turns the register round. -/
theorem setBits_reverse (a : BitVec 32) :
    setBits (fun i => (a.sshiftRight i) &&& 1#32 != 0#32) (31 - ·) 32 = a.reverse := by
  apply BitVec.eq_of_getLsbD_eq
  intro k hk
  have hbit : ∀ i, i < 32 → (((a.sshiftRight i) &&& 1#32 != 0#32) = true ↔
      a.getLsbD i = true) := by
    intro i hi
    have hlow : (a.sshiftRight i).getLsbD 0 = a.getLsbD i := by
      rw [BitVec.getLsbD_sshiftRight, if_pos (by omega)]
      simp
    rw [BitVec.and_one_eq_setWidth_ofBool_getLsbD, hlow]
    cases a.getLsbD i <;> decide
  rw [Bool.eq_iff_iff, getLsbD_setBits hk, BitVec.getLsbD_reverse, BitVec.getMsbD_eq_getLsbD,
    Bool.and_eq_true, decide_eq_true_eq]
  constructor
  · rintro ⟨i, hi, rfl, h⟩
    have hpos : 32 - 1 - (31 - i) = i := by omega
    rw [hpos]
    exact ⟨hk, (hbit i hi).mp h⟩
  · rintro ⟨-, h⟩
    exact ⟨31 - k, by omega, by omega, (hbit _ (by omega)).mpr h⟩

/-- **`NST_GetCrc32` is the reference CRC-32**, and a byte is eight steps of the register, whichever
end the register is read from. -/
theorem nstGetCrc32_reference :
    (∀ data tail : List UInt8, data.length < 2 ^ 31 →
      nstGetCrc32 (data ++ tail) (Int32.ofNat data.length) = .ok (crc32 data)) ∧
    (∀ (crcResult : BitVec 32) (data8 : BitVec 8),
      calCrc32 crcResult data8 = (lsbFirst data8).foldl (crcStepMsb 0x04C11DB7#32) crcResult) ∧
    ∀ (crcResult : BitVec 32) (data8 : BitVec 8),
      (calCrc32 crcResult data8).reverse =
        (lsbFirst data8).foldl (crcStep 0xEDB88320#32) crcResult.reverse := by
  refine ⟨fun data tail h => ?_, calCrc32_eq, reverse_calCrc32⟩
  have hn : (Int32.ofNat data.length).toInt.toNat = data.length := by
    rw [Int32.toInt_ofNat_of_lt h]
    rfl
  have hrun := foldBytes_eq (fun r b => calCrc32 r b.toBitVec) tail data [] 0xFFFFFFFF#32
  have hrev := reverse_foldl_calCrc32 data 0xFFFFFFFF#32
  rw [reverse_ones] at hrev
  rw [nstGetCrc32, hn]
  refine (congrArg (fun o : Outcome (BitVec 32) => o.bind _) hrun).trans ?_
  show Outcome.ok (~~~setBits _ _ 32) = Outcome.ok _
  rw [setBits_reverse, hrev, crc32]
  exact congrArg Outcome.ok (BitVec.xor_allOnes ..).symm

set_option maxRecDepth 4000 in
/-- The digits from 1 to 9 have the check value of the standard. -/
theorem nstGetCrc32_digits :
    ([0x31, 0x32, 0x33, 0x34, 0x35, 0x36, 0x37, 0x38, 0x39] : List UInt8).length < 2 ^ 31 ∧
    nstGetCrc32 ([0x31, 0x32, 0x33, 0x34, 0x35, 0x36, 0x37, 0x38, 0x39] ++ []) (Int32.ofNat 9) =
      .ok 0xCBF43926#32 := by
  refine ⟨by decide, (nstGetCrc32_reference.1 _ [] (by decide)).trans ?_⟩
  exact congrArg Outcome.ok (by decide)

end Nl6621.Util
