import Mathlib.Algebra.Order.Floor.Semiring
import Mathlib.Data.Int.Log
import Mathlib.Data.Nat.Digits.Lemmas
import Mathlib.Data.Rat.Floor
import Mathlib.Tactic.Linarith
import Mathlib.Tactic.NormNum
import Mathlib.Tactic.Positivity

/-!
# Doubles and the texts of them

A `double` stands for a rational number within the range of the format, for one of the infinities or
for no number at all.  Which of the numbers in the range are doubles is not said, so that what holds
of all of them holds of the doubles; and there is one 0, as no comparison tells the two apart.

`fixed` and `scientific` are what `%.nf` and `%e` make of a number that is not negative: the nearest
decimal with so many digits, the even one of two.  They have no byte 0 in them, and
`length_fixed_le` and `length_scientific_le` say how long they are.
-/

namespace Lib

/-! ### The values -/

/-- Not above the finite doubles, and not between 0 and the least of them. -/
def InRange (q : ℚ) : Prop := |q| < 2 ^ 1024 ∧ (q = 0 ∨ 1 ≤ |q| * 2 ^ 1074)

instance (q : ℚ) : Decidable (InRange q) := inferInstanceAs (Decidable (_ ∧ _))

inductive Double where
  | nan
  | inf (neg : Bool)
  | finite (q : ℚ) (h : InRange q)
deriving DecidableEq

theorem inRange_of {q : ℚ} {k : ℕ} (hk : k ≤ 1024) (hlo : 1 ≤ |q| * 2 ^ k) (hhi : |q| < 2 ^ k) :
    InRange q := by
  have hmono : ∀ n, k ≤ n → (2 : ℚ) ^ k ≤ 2 ^ n := fun n h => pow_le_pow_right₀ (by norm_num) h
  exact ⟨hhi.trans_le (hmono 1024 hk),
    .inr (hlo.trans (mul_le_mul_of_nonneg_left (hmono 1074 (by omega)) (abs_nonneg q)))⟩

theorem inRange_toInt (n : Int32) : InRange n.toInt := by
  rcases eq_or_ne n.toInt 0 with hzero | hn
  · rw [hzero]
    decide +kernel
  · have habs : |(n.toInt : ℚ)| = ((|n.toInt| : ℤ) : ℚ) := Int.cast_abs.symm
    have hone : (1 : ℚ) ≤ |(n.toInt : ℚ)| := by
      rw [habs]
      exact_mod_cast Int.one_le_abs hn
    have hlt : |n.toInt| < 2 ^ 32 := by
      have hlo := n.le_toInt
      have hhi := n.toInt_lt
      rw [abs_lt]
      omega
    refine inRange_of (k := 32) (by decide) (one_le_mul_of_one_le_of_one_le hone (by norm_num)) ?_
    rw [habs]
    exact_mod_cast hlt

namespace Double

/-- `(double)n` -/
def ofInt (n : Int32) : Double := .finite n.toInt (inRange_toInt n)

/-- `d == 0` -/
def isZero : Double → Bool
  | finite q _ => decide (q = 0)
  | _ => false

/-- `fabs(d)` -/
def fabs : Double → Double
  | nan => nan
  | inf _ => inf false
  | finite q h => finite |q| (by rwa [InRange, abs_abs, abs_eq_zero])

theorem nonneg_of_fabs {d : Double} {q : ℚ} {h : InRange q} (hq : d.fabs = .finite q h) :
    0 ≤ q := by
  cases d with
  | nan => cases hq
  | inf neg => cases hq
  | finite p hp =>
    cases hq
    exact abs_nonneg p

theorem pos_of_fabs {d : Double} {q : ℚ} {h : InRange q} (hd : d.isZero = false)
    (hq : d.fabs = .finite q h) : 0 < q := by
  cases d with
  | nan => cases hq
  | inf neg => cases hq
  | finite p hp =>
    cases hq
    exact abs_pos.mpr (of_decide_eq_false hd)

/-- `a < b` -/
def lt : Double → Double → Bool
  | finite p _, finite q _ => decide (p < q)
  | inf neg, finite _ _ => neg
  | finite _ _, inf neg => !neg
  | inf neg, inf neg' => neg && !neg'
  | _, _ => false

/-- `a <= b` -/
def le (a b : Double) : Bool := a ≠ nan && b ≠ nan && !b.lt a

theorem le_ofInt {m n : Int32} (h : m.toInt ≤ n.toInt) : (ofInt m).le (ofInt n) = true := by
  simp [le, lt, ofInt, h]

/-- `fabs(a-b) <= eps`.  That the difference is rounded makes no difference: rounding keeps the
order, and `eps` is a double. -/
def near (eps : ℚ) : Double → Double → Bool
  | finite p _, finite q _ => decide (|p - q| ≤ eps)
  | _, _ => false

theorem near_self {eps : ℚ} (heps : 0 ≤ eps) (n : Int32) : (ofInt n).near eps (ofInt n) = true := by
  rw [ofInt, near, sub_self, abs_zero, decide_eq_true_eq]
  exact heps

/-- `fabs(floor(d)-d) <= eps` -/
def nearFloor (eps : ℚ) : Double → Bool
  | finite q _ => decide (|⌊q⌋ - q| ≤ eps)
  | _ => false

end Double

/-! ### The texts -/

/-- The nearest natural number, of two the even one. -/
def roundEven (q : ℚ) : ℕ :=
  if q - ⌊q⌋₊ < 1 / 2 ∨ q - ⌊q⌋₊ = 1 / 2 ∧ ⌊q⌋₊ % 2 = 0 then ⌊q⌋₊ else ⌊q⌋₊ + 1

/-- The digits, with zeros in front of them up to the width. -/
def decText (width n : ℕ) : List UInt8 :=
  (List.replicate (width - (Nat.digits 10 n).length) 0 ++ (Nat.digits 10 n).reverse).map
    fun d => 0x30 + UInt8.ofNat d

def fixed (prec : ℕ) (q : ℚ) : List UInt8 :=
  let n := roundEven (q * 10 ^ prec)
  decText 1 (n / 10 ^ prec) ++
    if prec = 0 then [] else [0x2e] ++ decText prec (n % 10 ^ prec)

/-- The digits of the mantissa as one number, and the exponent. -/
def mantissa (q : ℚ) : ℕ × ℤ :=
  let e := Int.log 10 q
  let n := roundEven (q / 10 ^ e * 10 ^ 6)
  -- all the digits can be nines that are rounded up
  if n = 10 ^ 7 then (10 ^ 6, e + 1) else (n, e)

def scientific (q : ℚ) : List UInt8 :=
  let m := mantissa q
  (decText 1 (m.1 / 10 ^ 6) ++ ([0x2e] ++ decText 6 (m.1 % 10 ^ 6))) ++
    ([0x65, if m.2 < 0 then 0x2d else 0x2b] ++ decText 2 m.2.natAbs)

/-- With the sign, and `inf` or `nan` where there are no digits. -/
def Double.text (f : ℚ → List UInt8) : Double → List UInt8
  | nan => [0x6e, 0x61, 0x6e]
  | inf neg => (if neg then [0x2d] else []) ++ [0x69, 0x6e, 0x66]
  | finite q _ => (if q < 0 then [0x2d] else []) ++ f |q|

/-! ### No terminator in them -/

theorem zero_notMem_decText (width n : ℕ) : (0 : UInt8) ∉ decText width n := by
  intro h
  obtain ⟨d, hd, hz⟩ := List.mem_map.mp h
  have hlt : d < 10 := by
    rcases List.mem_append.mp hd with hd | hd
    · rw [List.eq_of_mem_replicate hd]
      decide
    · exact Nat.digits_lt_base (by decide) (List.mem_reverse.mp hd)
  have hdigit : ∀ d, d < 10 → (0x30 : UInt8) + UInt8.ofNat d ≠ 0 := by decide
  exact hdigit d hlt hz

theorem zero_notMem_fixed (prec : ℕ) (q : ℚ) : (0 : UInt8) ∉ fixed prec q := by
  intro h
  rcases List.mem_append.mp h with h | h
  · exact zero_notMem_decText _ _ h
  · split at h
    · cases h
    · rcases List.mem_append.mp h with h | h
      · cases List.mem_singleton.mp h
      · exact zero_notMem_decText _ _ h

theorem zero_notMem_scientific (q : ℚ) : (0 : UInt8) ∉ scientific q := by
  intro h
  rcases List.mem_append.mp h with h | h
  · rcases List.mem_append.mp h with h | h
    · exact zero_notMem_decText _ _ h
    · rcases List.mem_append.mp h with h | h
      · cases List.mem_singleton.mp h
      · exact zero_notMem_decText _ _ h
  · rcases List.mem_append.mp h with h | h
    · rcases List.mem_cons.mp h with h | h
      · cases h
      · have hsign := List.mem_singleton.mp h
        split at hsign
        · cases hsign
        · cases hsign
    · exact zero_notMem_decText _ _ h

theorem Double.zero_notMem_text {f : ℚ → List UInt8} (hf : ∀ q, (0 : UInt8) ∉ f q) (d : Double) :
    (0 : UInt8) ∉ d.text f := by
  cases d with
  | nan =>
    show (0 : UInt8) ∉ [0x6e, 0x61, 0x6e]
    decide
  | inf neg =>
    show (0 : UInt8) ∉ (if neg then [0x2d] else []) ++ [0x69, 0x6e, 0x66]
    revert neg
    decide
  | finite q hq =>
    intro h
    rcases List.mem_append.mp h with h | h
    · split at h
      · cases List.mem_singleton.mp h
      · cases h
    · exact hf _ h

/-! ### How long they are -/

theorem roundEven_le {q : ℚ} (h0 : 0 ≤ q) {n : ℕ} (h : q < n) : roundEven q ≤ n := by
  have hfloor : ⌊q⌋₊ < n := (Nat.floor_lt h0).mpr h
  unfold roundEven
  split
  · exact hfloor.le
  · exact hfloor

theorem length_decText_le {width n k : ℕ} (hn : n < 10 ^ k) (hwidth : width ≤ k) :
    (decText width n).length ≤ k := by
  have hdigits : (Nat.digits 10 n).length ≤ k := (Nat.digits_length_le_iff (by decide) n).mpr hn
  rw [decText, List.length_map, List.length_append, List.length_replicate, List.length_reverse]
  omega

theorem length_fixed_le (prec : ℕ) {k : ℕ} (hk : 1 ≤ k) {q : ℚ}
    (h : roundEven (q * 10 ^ prec) < 10 ^ prec * 10 ^ k) :
    (fixed prec q).length ≤ k + (1 + prec) := by
  have hint := length_decText_le (Nat.div_lt_of_lt_mul h) hk
  have hfrac : (if prec = 0 then []
      else [0x2e] ++ decText prec (roundEven (q * 10 ^ prec) % 10 ^ prec)).length ≤ 1 + prec := by
    split
    · exact Nat.zero_le _
    · rw [List.length_append, List.length_singleton]
      exact Nat.add_le_add_left
        (length_decText_le (Nat.mod_lt _ (Nat.pow_pos (by decide))) (Nat.le_refl _)) 1
  rw [fixed, List.length_append]
  exact Nat.add_le_add hint hfrac

theorem two_pow_le {k n : ℕ} (h : k ≤ 2 * n) : (2 : ℚ) ^ k ≤ 10 ^ n := by
  calc (2 : ℚ) ^ k ≤ 2 ^ (2 * n) := pow_le_pow_right₀ (by norm_num) h
    _ = (2 ^ 2) ^ n := pow_mul 2 2 n
    _ ≤ 10 ^ n := pow_le_pow_left₀ (by norm_num) (by norm_num) n

theorem neg_le_log {q : ℚ} (h0 : 0 < q) {n : ℕ} (h : 1 ≤ q * 10 ^ n) : -(n : ℤ) ≤ Int.log 10 q := by
  refine (Int.zpow_le_iff_le_log (by norm_num) h0).mp ?_
  rw [zpow_neg, inv_le_iff_one_le_mul₀ (zpow_pos (by norm_num) _)]
  exact_mod_cast h

theorem log_lt {q : ℚ} (h0 : 0 < q) {n : ℕ} (h : q < 10 ^ n) : Int.log 10 q < n := by
  refine (Int.lt_zpow_iff_log_lt (by norm_num) h0).mp ?_
  exact_mod_cast h

/-- Three digits are enough for the exponent. -/
theorem log_bounds {q : ℚ} (h0 : 0 < q) (hq : InRange q) :
    -999 ≤ Int.log 10 q ∧ Int.log 10 q < 999 := by
  obtain ⟨hbig, hsmall⟩ := hq
  rw [abs_of_pos h0] at hbig hsmall
  have hone : 1 ≤ q * 2 ^ 1074 := hsmall.resolve_left h0.ne'
  constructor
  · exact neg_le_log h0 (hone.trans (mul_le_mul_of_nonneg_left (two_pow_le (by decide)) h0.le))
  · exact log_lt h0 (hbig.trans_le (two_pow_le (by decide)))

theorem mantissa_bounds {q : ℚ} (h0 : 0 < q) (hq : InRange q) :
    (mantissa q).1 < 10 ^ 7 ∧ (mantissa q).2.natAbs < 10 ^ 3 := by
  have hlog := log_bounds h0 hq
  have hpos : (0 : ℚ) < 10 ^ Int.log 10 q := zpow_pos (by norm_num) _
  have hlt : q / 10 ^ Int.log 10 q < 10 := by
    rw [div_lt_iff₀ hpos, ← zpow_one_add₀ (by norm_num), add_comm]
    exact_mod_cast Int.lt_zpow_succ_log_self (by norm_num : 1 < 10) q
  have hround : roundEven (q / 10 ^ Int.log 10 q * 10 ^ 6) ≤ 10 ^ 7 := by
    refine roundEven_le (by positivity) ?_
    push_cast
    linarith
  simp only [mantissa]
  split_ifs with hcarry
  · exact ⟨by norm_num, by simp only; omega⟩
  · exact ⟨lt_of_le_of_ne hround hcarry, by simp only; omega⟩

theorem length_scientific_le {q : ℚ} (h0 : 0 < q) (hq : InRange q) :
    (scientific q).length ≤ 13 := by
  obtain ⟨hn, he⟩ := mantissa_bounds h0 hq
  have hint : (decText 1 ((mantissa q).1 / 10 ^ 6)).length ≤ 1 :=
    length_decText_le (Nat.div_lt_of_lt_mul (by omega)) (Nat.le_refl 1)
  have hfrac : (decText 6 ((mantissa q).1 % 10 ^ 6)).length ≤ 6 :=
    length_decText_le (Nat.mod_lt _ (by norm_num)) (Nat.le_refl 6)
  have hexp : (decText 2 (mantissa q).2.natAbs).length ≤ 3 := length_decText_le he (by decide)
  simp only [scientific, List.length_append, List.length_cons, List.length_nil]
  omega

theorem Double.length_text_le {f : ℚ → List UInt8} {k : ℕ} (hk : 3 ≤ k) {d : Double}
    (hf : ∀ q h, d.fabs = .finite q h → (f q).length ≤ k) : (d.text f).length ≤ 1 + k := by
  cases d with
  | nan => exact Nat.le_trans hk (Nat.le_add_left k 1)
  | inf neg =>
    cases neg with
    | false => exact Nat.le_trans hk (Nat.le_add_left k 1)
    | true => exact Nat.add_le_add_left hk 1
  | finite q h =>
    have hlen := hf |q| _ rfl
    have hsign : (if q < 0 then [0x2d] else ([] : List UInt8)).length ≤ 1 := by
      split
      · exact Nat.le_refl 1
      · exact Nat.zero_le 1
    rw [Double.text, List.length_append]
    exact Nat.add_le_add hsign hlen

end Lib
