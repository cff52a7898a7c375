import Mathlib.Tactic.Common
import Nl6621.Lib.Call

/-!
# Cyclic redundancy checks, bit by bit

The reference CRC is a shift register that takes a message bit after bit.  `crcStep` is a step of
the reflected register: the bit that falls out at the right and the message bit make the feedback,
and the feedback decides whether the polynomial is added.  `crcByte` takes the eight bits of a byte,
the least significant one first, and `crcRun` the bytes of a message.  `crcStepMsb` is the register
that is not reflected; `reverse_foldl_crcStepMsb` says that it is the same register read backwards.

Everything here is linear over exclusive or: two linear functions are equal as soon as they agree
on the words with a single one (`XorLinear.ext`), and the register of the exclusive or of two
messages is the exclusive or of the registers (`crcRun_xor`).  A polynomial with its top bit set
makes the step one to one in the register (`crcStep_injective`), and so the whole run.
-/

namespace Lib

/-! ### Linear functions of two words -/

/-- The function respects exclusive or. -/
def XorLinear {n m k : Nat} (f : BitVec n → BitVec m → BitVec k) : Prop :=
  ∀ a b c d, f (a ^^^ b) (c ^^^ d) = f a c ^^^ f b d

theorem xor_xor_comm {n : Nat} (a b c d : BitVec n) :
    a ^^^ b ^^^ (c ^^^ d) = a ^^^ c ^^^ (b ^^^ d) := by
  ac_rfl

theorem xor_cancel_right {n : Nat} (a b : BitVec n) : a ^^^ b ^^^ b = a := by
  rw [BitVec.xor_assoc, BitVec.xor_self, BitVec.xor_zero]

/-- Only the bits below `k` are set. -/
def Below {n : Nat} (k : Nat) (a : BitVec n) : Prop := ∀ i, k ≤ i → a.getLsbD i = false

theorem below_xor_twoPow {n k : Nat} {a : BitVec n} (hk : k < n) (h : Below (k + 1) a)
    (hb : a.getLsbD k = true) : Below k (a ^^^ BitVec.twoPow n k) := by
  intro i hi
  rw [BitVec.getLsbD_xor, BitVec.getLsbD_twoPow]
  by_cases hik : k = i
  · subst hik
    simp [hb, hk]
  · rw [h i (by omega)]
    simp [hik]

theorem eq_zero_of_below_zero {n : Nat} {a : BitVec n} (h : Below 0 a) : a = 0#n := by
  apply BitVec.eq_of_getLsbD_eq
  intro i _
  rw [h i (Nat.zero_le i), BitVec.getLsbD_zero]

/-- What holds of zero, of the words with a single one and of exclusive ors holds of all words. -/
theorem xor_induction {n : Nat} {P : BitVec n → Prop} (h0 : P 0#n)
    (h1 : ∀ i, i < n → P (BitVec.twoPow n i)) (hx : ∀ a b, P a → P b → P (a ^^^ b))
    (a : BitVec n) : P a := by
  have hbelow : ∀ k, k ≤ n → ∀ a : BitVec n, Below k a → P a := by
    intro k
    induction k with
    | zero =>
      intro _ a ha
      rw [eq_zero_of_below_zero ha]
      exact h0
    | succ k ih =>
      intro hk a ha
      cases hb : a.getLsbD k with
      | false =>
        refine ih (by omega) a fun i hi => ?_
        rcases Nat.eq_or_lt_of_le hi with rfl | hi
        · exact hb
        · exact ha i hi
      | true =>
        have := hx _ _ (ih (by omega) _ (below_xor_twoPow (by omega) ha hb)) (h1 k (by omega))
        rwa [xor_cancel_right] at this
  exact hbelow n (Nat.le_refl n) a fun i hi => BitVec.getLsbD_of_ge a i hi

namespace XorLinear

variable {n m k : Nat} {f g : BitVec n → BitVec m → BitVec k}

theorem xor (hf : XorLinear f) (hg : XorLinear g) : XorLinear fun a c => f a c ^^^ g a c := by
  intro a b c d
  show f (a ^^^ b) (c ^^^ d) ^^^ g (a ^^^ b) (c ^^^ d) = _
  rw [hf, hg, xor_xor_comm]

theorem map_zero (hf : XorLinear f) : f 0#n 0#m = 0#k := by
  have h := hf 0#n 0#n 0#m 0#m
  rw [BitVec.xor_self, BitVec.xor_self, BitVec.xor_self] at h
  exact h

theorem split (hf : XorLinear f) (a : BitVec n) (c : BitVec m) :
    f a c = f a 0#m ^^^ f 0#n c := by
  rw [← hf, BitVec.xor_zero, BitVec.zero_xor]

/-- **Two linear functions that agree on the words with a single one are equal.** -/
theorem ext (hf : XorLinear f) (hg : XorLinear g)
    (hl : ∀ i, i < n → f (BitVec.twoPow n i) 0#m = g (BitVec.twoPow n i) 0#m)
    (hr : ∀ i, i < m → f 0#n (BitVec.twoPow m i) = g 0#n (BitVec.twoPow m i)) (a : BitVec n)
    (c : BitVec m) : f a c = g a c := by
  have hzero : f 0#n 0#m = g 0#n 0#m := by rw [hf.map_zero, hg.map_zero]
  have hleft : ∀ a, f a 0#m = g a 0#m := by
    refine xor_induction hzero hl fun a b ha hb => ?_
    have hxf := hf a b 0#m 0#m
    have hxg := hg a b 0#m 0#m
    rw [BitVec.xor_self] at hxf hxg
    rw [hxf, hxg, ha, hb]
  have hright : ∀ c, f 0#n c = g 0#n c := by
    refine xor_induction hzero hr fun c d hc hd => ?_
    have hxf := hf 0#n 0#n c d
    have hxg := hg 0#n 0#n c d
    rw [BitVec.xor_self] at hxf hxg
    rw [hxf, hxg, hc, hd]
  rw [hf.split, hg.split, hleft, hright]

end XorLinear

/-! ### The register -/

variable {w : Nat}

/-- A step of the reflected register. -/
def crcStep (poly r : BitVec w) (bit : Bool) : BitVec w :=
  if r.getLsbD 0 ^^ bit then (r >>> 1) ^^^ poly else r >>> 1

/-- A step of the register that is not reflected. -/
def crcStepMsb (poly r : BitVec w) (bit : Bool) : BitVec w :=
  if r.msb ^^ bit then (r <<< 1) ^^^ poly else r <<< 1

/-- The bits of a byte, the least significant one first. -/
def lsbFirst (b : BitVec 8) : List Bool := (List.range 8).map b.getLsbD

def crcByte (poly r : BitVec w) (b : BitVec 8) : BitVec w := (lsbFirst b).foldl (crcStep poly) r

def crcRun (poly r : BitVec w) (data : List UInt8) : BitVec w :=
  data.foldl (fun r b => crcByte poly r b.toBitVec) r

theorem crcStep_xor (poly a b : BitVec w) (x y : Bool) :
    crcStep poly (a ^^^ b) (x ^^ y) = crcStep poly a x ^^^ crcStep poly b y := by
  have hfeed : ((a ^^^ b).getLsbD 0 ^^ (x ^^ y)) = ((a.getLsbD 0 ^^ x) ^^ (b.getLsbD 0 ^^ y)) := by
    rw [BitVec.getLsbD_xor, Bool.xor_assoc, Bool.xor_assoc, Bool.xor_left_comm (b.getLsbD 0)]
  unfold crcStep
  rw [hfeed, BitVec.ushiftRight_xor_distrib]
  cases a.getLsbD 0 ^^ x <;> cases b.getLsbD 0 ^^ y
  · rfl
  · exact BitVec.xor_assoc _ _ _
  · show a >>> 1 ^^^ b >>> 1 ^^^ poly = a >>> 1 ^^^ poly ^^^ b >>> 1
    ac_rfl
  · show a >>> 1 ^^^ b >>> 1 = a >>> 1 ^^^ poly ^^^ (b >>> 1 ^^^ poly)
    rw [xor_xor_comm, BitVec.xor_self, BitVec.xor_zero]

theorem foldl_crcStep_xor (poly : BitVec w) (f g : Nat → Bool) : ∀ (is : List Nat) (a b : BitVec w),
    (is.map fun i => f i ^^ g i).foldl (crcStep poly) (a ^^^ b) =
      (is.map f).foldl (crcStep poly) a ^^^ (is.map g).foldl (crcStep poly) b := by
  intro is
  induction is with
  | nil => intro a b; rfl
  | cons i is ih =>
    intro a b
    rw [List.map_cons, List.foldl_cons, crcStep_xor, ih]
    rfl

theorem xorLinear_crcByte (poly : BitVec w) : XorLinear (crcByte poly) := by
  intro a b c d
  have hbits : lsbFirst (c ^^^ d) = (List.range 8).map fun i => c.getLsbD i ^^ d.getLsbD i :=
    List.map_congr_left fun i _ => BitVec.getLsbD_xor
  rw [crcByte, hbits, foldl_crcStep_xor]
  rfl

/-- **The register of an exclusive or is the exclusive or of the registers.** -/
theorem crcRun_xor (poly : BitVec w) : ∀ (xs ys : List UInt8) (a b : BitVec w),
    xs.length = ys.length →
    crcRun poly (a ^^^ b) (List.zipWith (· ^^^ ·) xs ys) = crcRun poly a xs ^^^ crcRun poly b ys := by
  intro xs
  induction xs with
  | nil =>
    intro ys a b h
    cases ys with
    | nil => rfl
    | cons y ys => cases h
  | cons x xs ih =>
    intro ys a b h
    cases ys with
    | nil => cases h
    | cons y ys =>
      rw [List.zipWith_cons_cons, crcRun, List.foldl_cons, UInt8.toBitVec_xor, xorLinear_crcByte]
      exact ih ys _ _ (Nat.succ.inj h)

/-! ### A byte that meets itself -/

theorem crcStep_shift (poly r : BitVec w) (i : Nat) :
    crcStep poly (r >>> i) (r.getLsbD i) = r >>> (i + 1) := by
  have hfeed : ((r >>> i).getLsbD 0 ^^ r.getLsbD i) = false := by
    rw [BitVec.getLsbD_ushiftRight, Nat.add_zero, Bool.xor_self]
  rw [crcStep, hfeed, if_neg Bool.false_ne_true, BitVec.shiftRight_add]

/-- Eight steps with the register's own bits shift it out. -/
theorem crcByte_self (poly b : BitVec 8) : crcByte poly b b = 0#8 := by
  have hrun : ∀ n, ((List.range n).map b.getLsbD).foldl (crcStep poly) b = b >>> n := by
    intro n
    induction n with
    | zero => exact (BitVec.ushiftRight_zero b).symm
    | succ n ih =>
      rw [List.range_succ, List.map_append, List.foldl_append, ih]
      exact crcStep_shift poly b n
  have h8 := hrun 8
  rw [BitVec.ushiftRight_eq_zero (Nat.le_refl 8)] at h8
  exact h8

/-- **The byte may be added to the register first.** -/
theorem crcByte_eq (poly r b : BitVec 8) : crcByte poly r b = crcByte poly (r ^^^ b) 0#8 := by
  have h := xorLinear_crcByte poly (r ^^^ b) b 0#8 b
  rw [xor_cancel_right, BitVec.zero_xor, crcByte_self, BitVec.xor_zero] at h
  exact h

/-! ### One to one -/

theorem getLsbD_crcStep (poly r : BitVec w) (bit : Bool) (i : Nat) :
    (crcStep poly r bit).getLsbD i =
      (r.getLsbD (1 + i) ^^ ((r.getLsbD 0 ^^ bit) && poly.getLsbD i)) := by
  unfold crcStep
  cases r.getLsbD 0 ^^ bit
  · simp
  · simp

/-- **A polynomial with its top bit set loses nothing.** -/
theorem crcStep_injective {poly r s : BitVec w} {bit : Bool} (hp : poly.msb = true)
    (h : crcStep poly r bit = crcStep poly s bit) : r = s := by
  have hbit : ∀ i, (r.getLsbD (1 + i) ^^ ((r.getLsbD 0 ^^ bit) && poly.getLsbD i)) =
      (s.getLsbD (1 + i) ^^ ((s.getLsbD 0 ^^ bit) && poly.getLsbD i)) := by
    intro i
    rw [← getLsbD_crcStep, ← getLsbD_crcStep, h]
  have hw : 0 < w := by
    rcases Nat.eq_zero_or_pos w with rfl | hw
    · rw [BitVec.of_length_zero (x := poly)] at hp
      cases hp
    · exact hw
  -- the top bit of the result is the feedback
  have hfeed : r.getLsbD 0 = s.getLsbD 0 := by
    have htop := hbit (w - 1)
    rw [BitVec.msb_eq_getLsbD_last] at hp
    rw [BitVec.getLsbD_of_ge r _ (by omega), BitVec.getLsbD_of_ge s _ (by omega), hp] at htop
    simpa using htop
  apply BitVec.eq_of_getLsbD_eq
  intro i _
  cases i with
  | zero => exact hfeed
  | succ i =>
    have := hbit i
    rw [hfeed] at this
    rw [Nat.add_comm i 1]
    exact (Bool.xor_left_inj ..).mp this

theorem foldl_crcStep_injective {poly : BitVec w} (hp : poly.msb = true) :
    ∀ (bits : List Bool) {r s : BitVec w},
      bits.foldl (crcStep poly) r = bits.foldl (crcStep poly) s → r = s := by
  intro bits
  induction bits with
  | nil => intro r s h; exact h
  | cons bit bits ih => intro r s h; exact crcStep_injective hp (ih h)

theorem crcRun_injective {poly : BitVec w} (hp : poly.msb = true) :
    ∀ (data : List UInt8) {r s : BitVec w}, crcRun poly r data = crcRun poly s data → r = s := by
  intro data
  induction data with
  | nil => intro r s h; exact h
  | cons b data ih => intro r s h; exact foldl_crcStep_injective hp _ (ih h)

/-- Two bytes that differ leave different registers. -/
theorem crcByte_byte_injective {poly r b c : BitVec 8} (hp : poly.msb = true)
    (h : crcByte poly r b = crcByte poly r c) : b = c := by
  rw [crcByte_eq, crcByte_eq poly r c] at h
  exact (BitVec.xor_right_inj r).mp (foldl_crcStep_injective hp _ h)

/-! ### The register read backwards -/

theorem reverse_xor (a b : BitVec w) : (a ^^^ b).reverse = a.reverse ^^^ b.reverse := by
  apply BitVec.eq_of_getLsbD_eq
  intro i _
  simp only [BitVec.getLsbD_reverse, BitVec.getLsbD_xor, BitVec.getMsbD_xor]

theorem reverse_shiftLeft (r : BitVec w) (i : Nat) : (r <<< i).reverse = r.reverse >>> i := by
  apply BitVec.eq_of_getLsbD_eq
  intro k _
  rw [BitVec.getLsbD_reverse, BitVec.getLsbD_ushiftRight, BitVec.getLsbD_reverse,
    BitVec.getMsbD_shiftLeft, Nat.add_comm]

theorem reverse_crcStepMsb (poly r : BitVec w) (bit : Bool) :
    (crcStepMsb poly r bit).reverse = crcStep poly.reverse r.reverse bit := by
  have hfeed : (r.reverse.getLsbD 0 ^^ bit) = (r.msb ^^ bit) := by
    rw [BitVec.getLsbD_reverse]
    rfl
  unfold crcStep crcStepMsb
  rw [hfeed]
  cases r.msb ^^ bit
  · exact reverse_shiftLeft r 1
  · show (r <<< 1 ^^^ poly).reverse = r.reverse >>> 1 ^^^ poly.reverse
    rw [reverse_xor, reverse_shiftLeft]

/-- **The two registers are one register, read from its two ends.** -/
theorem reverse_foldl_crcStepMsb (poly : BitVec w) : ∀ (bits : List Bool) (r : BitVec w),
    (bits.foldl (crcStepMsb poly) r).reverse = bits.foldl (crcStep poly.reverse) r.reverse := by
  intro bits
  induction bits with
  | nil => intro r; rfl
  | cons bit bits ih =>
    intro r
    rw [List.foldl_cons, List.foldl_cons, ih, reverse_crcStepMsb]

theorem xorLinear_foldl_crcStepMsb (poly : BitVec w) :
    XorLinear fun r (b : BitVec 8) => (lsbFirst b).foldl (crcStepMsb poly) r := by
  intro a b c d
  have h := xorLinear_crcByte poly.reverse a.reverse b.reverse c d
  unfold crcByte at h
  rw [← reverse_xor, ← reverse_foldl_crcStepMsb, ← reverse_foldl_crcStepMsb,
    ← reverse_foldl_crcStepMsb, ← reverse_xor] at h
  have h' := congrArg BitVec.reverse h
  rwa [BitVec.reverse_reverse_eq, BitVec.reverse_reverse_eq] at h'

/-! ### A loop over the bytes of an object -/

/-- `for (; n > 0; i++, n--) s = f(s, ptr[i]);` -/
def foldBytes {σ : Type} (f : σ → UInt8 → σ) (ptr : List UInt8) : Nat → Nat → σ → Outcome σ
  | 0, _, s => .ok s
  | n + 1, i, s =>
    match ptr[i]? with
    | none => .fault
    | some b => foldBytes f ptr n (i + 1) (f s b)

/-- The loop reads the bytes it is told of and none behind them. -/
theorem foldBytes_eq {σ : Type} (f : σ → UInt8 → σ) (tail : List UInt8) :
    ∀ (data pre : List UInt8) (s : σ),
      foldBytes f (pre ++ data ++ tail) data.length pre.length s = .ok (data.foldl f s) := by
  intro data
  induction data with
  | nil => intro pre s; rfl
  | cons b data ih =>
    intro pre s
    have hb : (pre ++ b :: data ++ tail)[pre.length]? = some b := by
      rw [List.append_assoc, List.getElem?_append_right (Nat.le_refl _), Nat.sub_self]
      rfl
    have hnext := ih (pre ++ [b]) (f s b)
    rw [List.length_append, List.append_assoc pre [b] data] at hnext
    rw [List.length_cons, foldBytes, hb]
    exact hnext

end Lib
