import Mathlib.Data.UInt
import Mathlib.Tactic.Common

/-!
# Bytes as sextets, and texts in lines

Three bytes and four sextets are the digits of the same 24 bit number, in base 256 and in base 64.
`sextets` and `octets` go from the one to the other; `octets_sextets` takes the bytes back.

`toNat_shl_or` and `toNat_shr` are the rules for the shifts and ors that a program makes such digits
with: where the two operands do not meet, they are a product and a sum, and a quotient.

`lines` ends a line after every `w` characters, and the last one if it is not empty.
-/

namespace Lib

theorem toNat_shl_or (x y : UInt8) {k : UInt8} (hk : k.toNat < 8) (hy : y.toNat < 2 ^ k.toNat) :
    (x <<< k ||| y).toNat = x.toNat * 2 ^ k.toNat % 256 + y.toNat := by
  have hpow : 2 ^ (8 - k.toNat) * 2 ^ k.toNat = 256 := by
    rw [← Nat.pow_add, Nat.sub_add_cancel (Nat.le_of_lt hk)]
  have hshl : x.toNat * 2 ^ k.toNat % 256 = (x.toNat % 2 ^ (8 - k.toNat)) <<< k.toNat := by
    rw [Nat.shiftLeft_eq, ← hpow, Nat.mul_mod_mul_right]
  rw [UInt8.toNat_or, UInt8.toNat_shiftLeft, Nat.mod_eq_of_lt hk, Nat.shiftLeft_eq, hshl,
    Nat.shiftLeft_add_eq_or_of_lt hy]

theorem toNat_shr (x : UInt8) {k : UInt8} (hk : k.toNat < 8) :
    (x >>> k).toNat = x.toNat / 2 ^ k.toNat := by
  rw [UInt8.toNat_shiftRight, Nat.mod_eq_of_lt hk, Nat.shiftRight_eq_div_pow]

/-! ### Three bytes and four sextets -/

def sextets (a b c : UInt8) : List Nat :=
  let n := (a.toNat * 256 + b.toNat) * 256 + c.toNat
  [n / 64 ^ 3, n / 64 ^ 2 % 64, n / 64 % 64, n % 64]

def octets (w x y z : Nat) : List UInt8 :=
  let n := ((w * 64 + x) * 64 + y) * 64 + z
  [UInt8.ofNat (n / 256 ^ 2), UInt8.ofNat (n / 256), UInt8.ofNat n]

theorem sextets_lt (a b c : UInt8) : ∀ s ∈ sextets a b c, s < 64 := by
  have ha := a.toNat_lt
  have hb := b.toNat_lt
  have hc := c.toNat_lt
  intro s hs
  simp only [sextets, List.mem_cons, List.not_mem_nil, or_false] at hs
  omega

theorem octets_sextets {a b c : UInt8} {w x y z : Nat} (h : sextets a b c = [w, x, y, z]) :
    octets w x y z = [a, b, c] := by
  have hb := b.toNat_lt
  have hc := c.toNat_lt
  simp only [sextets, List.cons.injEq, and_true] at h
  obtain ⟨hw, hx, hy, hz⟩ := h
  have hn : ((w * 64 + x) * 64 + y) * 64 + z = (a.toNat * 256 + b.toNat) * 256 + c.toNat := by omega
  have h0 : ((a.toNat * 256 + b.toNat) * 256 + c.toNat) / 256 ^ 2 = a.toNat := by omega
  have h1 : UInt8.ofNat (((a.toNat * 256 + b.toNat) * 256 + c.toNat) / 256) = b :=
    UInt8.toNat_inj.mp (by rw [UInt8.toNat_ofNat']; omega)
  have h2 : UInt8.ofNat ((a.toNat * 256 + b.toNat) * 256 + c.toNat) = c :=
    UInt8.toNat_inj.mp (by rw [UInt8.toNat_ofNat']; omega)
  simp only [octets, hn, h0, h1, h2, UInt8.ofNat_toNat]

/-! ### Lines -/

variable {α : Type}

/-- The text from column `col` on, with `eol` at the end of every line of `w` characters. -/
def lines (eol : α) (w : Nat) : Nat → List α → List α
  | col, [] => if col = 0 then [] else [eol]
  | col, c :: text =>
    c :: if col + 1 = w then eol :: lines eol w 0 text else lines eol w (col + 1) text

theorem length_lines {eol : α} {w : Nat} {text : List α} {col : Nat} (hcol : col < w) :
    (lines eol w col text).length = text.length + (col + text.length + (w - 1)) / w := by
  induction text generalizing col with
  | nil =>
    rw [lines, List.length_nil]
    split
    case isTrue h0 =>
      rw [h0, Nat.div_eq_of_lt (by omega)]
      rfl
    case isFalse h0 =>
      have hfull : col + 0 + (w - 1) = col - 1 + w := by omega
      rw [hfull, Nat.add_div_right _ (by omega), Nat.div_eq_of_lt (by omega)]
      rfl
  | cons c text ih =>
    rw [lines, List.length_cons, List.length_cons]
    split
    case isTrue hend =>
      have hdiv :
          (col + (text.length + 1) + (w - 1)) / w = (0 + text.length + (w - 1)) / w + 1 := by
        rw [← Nat.add_div_right _ (by omega)]
        congr 1
        omega
      rw [List.length_cons, ih (by omega), hdiv]
      omega
    case isFalse hend =>
      rw [ih (by omega)]
      have hcol' : col + 1 + text.length = col + (text.length + 1) := by omega
      rw [hcol']
      omega

/-- A filter that drops the ends of lines takes the text back. -/
theorem filter_lines {eol : α} {p : α → Bool} (heol : p eol = false) {w : Nat} {text : List α}
    (htext : ∀ c ∈ text, p c = true) {col : Nat} : (lines eol w col text).filter p = text := by
  induction text generalizing col with
  | nil =>
    rw [lines]
    split
    · rfl
    · rw [List.filter_cons_of_neg (by simp [heol]), List.filter_nil]
  | cons c text ih =>
    have htext' : ∀ d ∈ text, p d = true := fun d hd => htext d (List.mem_cons_of_mem c hd)
    rw [lines, List.filter_cons_of_pos (htext c List.mem_cons_self)]
    split
    · rw [List.filter_cons_of_neg (by simp [heol]), ih htext']
    · rw [ih htext']

end Lib
