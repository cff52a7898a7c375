import Mathlib.Data.List.GetD
import Mathlib.Data.Matrix.Mul
import Mathlib.LinearAlgebra.Matrix.Notation
import Nl6621.Aes.Code
import Nl6621.Lib.BinaryField

/-!
# The standard and the code

AES as FIPS 197 defines it, over the ring of bytes modulo `X ^ 8 + X ^ 4 + X ^ 3 + X + 1`: a byte is
substituted by the affine image of its inverse, and the columns of the state are multiplied by a
matrix.  The state is an array of four rows and four columns.

`cipher_eq` is that the code computes this, with its tables, its doubling and its flat arrays, and
`blockDecrypt_blockEncrypt` that its other half undoes it.
-/

namespace Nl6621.Aes

open Lib Lib.BinaryField

/-! ### Bytes as elements of the ring -/

abbrev Byte : Type := Residue 0x1B#8

noncomputable def field (b : UInt8) : Byte := toResidue 0x1B#8 b.toBitVec

noncomputable def byte (x : Byte) : UInt8 := ⟨(ofWord 0x1B#8).symm x⟩

noncomputable def ζ : Byte := root 0x1B#8

@[simp] theorem byte_field (b : UInt8) : byte (field b) = b := by
  show UInt8.ofBitVec ((ofWord 0x1B#8).symm (ofWord 0x1B#8 b.toBitVec)) = b
  rw [Equiv.symm_apply_apply]

theorem field_injective : Function.Injective field := Function.LeftInverse.injective byte_field

theorem byte_eq {x : Byte} {b : UInt8} (h : field b = x) : byte x = b := by
  rw [← h, byte_field]

theorem field_xor (a b : UInt8) : field (a ^^^ b) = field a + field b := by
  rw [field, UInt8.toBitVec_xor, toResidue_xor, field, field]

theorem field_zero : field 0 = 0 := toResidue_zero _

theorem add_self (x : Byte) : x + x = 0 := BinaryField.add_self _ x

theorem forall_byte {P : UInt8 → Prop} (h : ∀ i : Fin 256, P (UInt8.ofFin i)) (b : UInt8) : P b :=
  h b.toFin

set_option maxRecDepth 20000 in
theorem toBitVec_gfMultBy02 :
    ∀ i : Fin 256, (gfMultBy02 (UInt8.ofFin i)).toBitVec = mulX 0x1B#8 (BitVec.ofFin i) := by
  decide

/-- The doubling of the code is the multiplication by the root. -/
theorem field_gfMultBy02 (b : UInt8) : field (gfMultBy02 b) = ζ * field b := by
  have hmul : (gfMultBy02 b).toBitVec = mulX 0x1B#8 b.toBitVec := toBitVec_gfMultBy02 b.toFin
  rw [field, hmul, toResidue_mulX _ (by decide)]
  rfl

/-! ### The standard -/

/-- The state, by rows and columns. -/
abbrev State : Type := Fin 4 → Fin 4 → UInt8

namespace Fips

def affine (b : BitVec 8) : BitVec 8 :=
  b ^^^ b.rotateRight 4 ^^^ b.rotateRight 5 ^^^ b.rotateRight 6 ^^^ b.rotateRight 7 ^^^ 0x63#8

noncomputable def subByte (b : UInt8) : UInt8 := ⟨affine (byte (Ring.inverse (field b))).toBitVec⟩

noncomputable def subBytes (s : State) : State := fun r c => subByte (s r c)

def shiftRows (s : State) : State := fun r c => s r (c + r)

noncomputable def mixMatrix : Matrix (Fin 4) (Fin 4) Byte :=
  !![ζ, ζ + 1, 1, 1;
     1, ζ, ζ + 1, 1;
     1, 1, ζ, ζ + 1;
     ζ + 1, 1, 1, ζ]

noncomputable def mixColumns (s : State) : State :=
  fun r c => byte ((mixMatrix * Matrix.of fun r c => field (s r c)) r c)

def addRoundKey (s k : State) : State := fun r c => s r c ^^^ k r c

noncomputable def rcon (j : Nat) : List UInt8 := [byte (ζ ^ (j - 1)), 0, 0, 0]

def rotWord (w : List UInt8) : List UInt8 := w.rotate 1

def xorWord (v w : List UInt8) : List UInt8 := List.zipWith (· ^^^ ·) v w

/-- The words of the key expansion. -/
noncomputable def word (key : List UInt8) (i : Nat) : List UInt8 :=
  if i < 4 then (key.drop (4 * i)).take 4
  else
    let temp := word key (i - 1)
    xorWord (word key (i - 4))
      (if i % 4 = 0 then xorWord ((rotWord temp).map subByte) (rcon (i / 4)) else temp)
termination_by i

noncomputable def roundKey (key : List UInt8) (i : Nat) : State :=
  fun r c => (word key (4 * i + c)).getD r 0

noncomputable def cipher (key : List UInt8) (s : State) : State :=
  let s := (List.range' 1 9).foldl (fun s i =>
    addRoundKey (mixColumns (shiftRows (subBytes s))) (roundKey key i)) (addRoundKey s (roundKey key 0))
  addRoundKey (shiftRows (subBytes s)) (roundKey key 10)

end Fips

/-! ### The S-box -/

/-- The affine map backwards. -/
def unaffine (b : BitVec 8) : BitVec 8 :=
  b.rotateRight 2 ^^^ b.rotateRight 5 ^^^ b.rotateRight 7 ^^^ 0x05#8

set_option maxRecDepth 20000 in
theorem affine_unaffine : ∀ i : Fin 256, Fips.affine (unaffine (BitVec.ofFin i)) = BitVec.ofFin i := by
  decide

set_option maxRecDepth 20000 in
theorem mul_unaffine_SBox : ∀ i : Fin 256, i = 0 ∨
    mul 0x1B#8 (BitVec.ofFin i) (unaffine (lookup SBox (UInt8.ofFin i)).toBitVec) = 1#8 := by
  decide

set_option maxRecDepth 20000 in
theorem lookup_InvSBox : ∀ i : Fin 256,
    lookup InvSBox (lookup SBox (UInt8.ofFin i)) = UInt8.ofFin i := by
  decide

/-- **The table is the S-box of the standard.** -/
theorem lookup_SBox (b : UInt8) : lookup SBox b = Fips.subByte b := by
  have hinv : Ring.inverse (field b) = field ⟨unaffine (lookup SBox b).toBitVec⟩ := by
    by_cases hb : b = 0
    · subst hb
      have hzero : (⟨unaffine (lookup SBox 0).toBitVec⟩ : UInt8) = 0 := by decide
      rw [hzero, field_zero, Ring.inverse_zero]
    · have hmul := (mul_unaffine_SBox b.toFin).resolve_left fun h => hb (UInt8.toFin_inj.mp h)
      have hone : field b * field ⟨unaffine (lookup SBox b).toBitVec⟩ = 1 := by
        rw [field, field, ← toResidue_mul _ (by decide)]
        exact (congrArg (toResidue 0x1B#8) hmul).trans (toResidue_one _ (by decide))
      have hunit : IsUnit (field b) := IsUnit.of_mul_eq_one _ hone
      rw [← one_mul (Ring.inverse (field b)), Eq.comm, Ring.eq_mul_inverse_iff_mul_eq _ _ _ hunit,
        mul_comm]
      exact hone
  rw [Fips.subByte, hinv, byte_field]
  have haffine := affine_unaffine (lookup SBox b).toFin
  exact (congrArg UInt8.ofBitVec haffine).symm

/-! ### The columns -/

/-- **A column is multiplied by the matrix.** -/
theorem field_mixColumn (p0 p1 p2 p3 : UInt8) :
    (mixColumn false p0 p1 p2 p3).map field =
      [ζ * field p0 + (ζ + 1) * field p1 + field p2 + field p3,
        field p0 + ζ * field p1 + (ζ + 1) * field p2 + field p3,
        field p0 + field p1 + ζ * field p2 + (ζ + 1) * field p3,
        (ζ + 1) * field p0 + field p1 + field p2 + ζ * field p3] := by
  simp only [mixColumn, Bool.false_eq_true, if_false, List.map_cons, List.map_nil, field_xor,
    field_gfMultBy02, List.cons.injEq, and_true]
  refine ⟨?_, ?_, ?_, ?_⟩
  · linear_combination add_self (field p0)
  · linear_combination add_self (field p1)
  · linear_combination add_self (field p2)
  · linear_combination add_self (field p3)

/-- The other column map undoes the first. -/
theorem mixColumn_mixColumn {p0 p1 p2 p3 q0 q1 q2 q3 : UInt8}
    (h : mixColumn false p0 p1 p2 p3 = [q0, q1, q2, q3]) :
    mixColumn true q0 q1 q2 q3 = [p0, p1, p2, p3] := by
  have hfield := field_mixColumn p0 p1 p2 p3
  simp only [h, List.map_cons, List.map_nil, List.cons.injEq, and_true] at hfield
  obtain ⟨h0, h1, h2, h3⟩ := hfield
  refine List.map_injective_iff.mpr field_injective ?_
  simp only [mixColumn, if_true, List.map_cons, List.map_nil, field_xor, field_gfMultBy02, h0, h1,
    h2, h3, List.cons.injEq, and_true]
  have htwo : (2 : Byte) = 0 := by
    rw [← one_add_one_eq_two]
    exact add_self 1
  have hcoeff : ∃ k : Byte, k = (2 + 2 * ζ + ζ ^ 2 + 2 * ζ ^ 3 + ζ ^ 4) *
    (field p0 + field p1 + field p2 + field p3) := ⟨_, rfl⟩
  obtain ⟨k, hk⟩ := hcoeff
  refine ⟨?_, ?_, ?_, ?_⟩
  · linear_combination (k - field p0 + ζ ^ 2 * field p1) * htwo - 2 * hk
  · linear_combination (k - field p1 + ζ ^ 2 * field p2) * htwo - 2 * hk
  · linear_combination (k - field p2 + ζ ^ 2 * field p3) * htwo - 2 * hk
  · linear_combination (k - field p3 + ζ ^ 2 * field p0) * htwo - 2 * hk

/-! ### Flat arrays and states -/

/-- The state of a list of bytes. -/
def toState (l : List UInt8) : State := fun r c => l.getD (r + 4 * c) 0

section

variable {l k : List UInt8} {i n : Nat}

theorem getD_xorBytes (h : l.length = k.length) :
    (xorBytes l k).getD i 0 = l.getD i 0 ^^^ k.getD i 0 := by
  rw [xorBytes, List.getD_eq_getElem?_getD, List.getD_eq_getElem?_getD,
    List.getD_eq_getElem?_getD, List.getElem?_zipWith]
  by_cases hi : i < l.length
  · rw [List.getElem?_eq_getElem hi, List.getElem?_eq_getElem (h ▸ hi)]
    rfl
  · rw [List.getElem?_eq_none (Nat.not_lt.mp hi), List.getElem?_eq_none (h ▸ Nat.not_lt.mp hi)]
    rfl

@[simp] theorem length_xorBytes (h : l.length = k.length) : (xorBytes l k).length = l.length := by
  rw [xorBytes, List.length_zipWith, h, Nat.min_self]

@[simp] theorem length_subBytes (b : Bool) : (subBytes b l).length = l.length :=
  List.length_map _

@[simp] theorem length_shiftRows (b : Bool) : (shiftRows b l).length = 16 := by
  rw [shiftRows, List.length_map, List.length_range]

theorem length_mixColumn (b : Bool) (p0 p1 p2 p3 : UInt8) : (mixColumn b p0 p1 p2 p3).length = 4 := by
  cases b <;> rfl

/-- Four bytes at a time. -/
theorem length_mixColumns (b : Bool) : ∀ {n : Nat} {l : List UInt8}, l.length = 4 * n →
    (mixColumns b l).length = 4 * n
  | 0, l, h => by
    obtain rfl := List.length_eq_zero_iff.mp h
    rfl
  | n + 1, p0 :: p1 :: p2 :: p3 :: l, h => by
    have hl : l.length = 4 * n := by
      simp only [List.length_cons] at h
      omega
    rw [mixColumns, List.length_append, length_mixColumn, length_mixColumns b hl]
    omega

theorem getD_mixColumns (b : Bool) : ∀ {n : Nat} {l : List UInt8}, l.length = 4 * n →
    ∀ {r c : Nat}, r < 4 → c < n → (mixColumns b l).getD (r + 4 * c) 0 =
      (mixColumn b (l.getD (4 * c) 0) (l.getD (1 + 4 * c) 0) (l.getD (2 + 4 * c) 0)
        (l.getD (3 + 4 * c) 0)).getD r 0
  | n + 1, p0 :: p1 :: p2 :: p3 :: l, h, r, c, hr, hc => by
    have hl : l.length = 4 * n := by
      simp only [List.length_cons] at h
      omega
    have hlen := length_mixColumn b p0 p1 p2 p3
    rw [mixColumns]
    cases c with
    | zero =>
      rw [List.getD_append _ _ _ _ (by omega)]
      rfl
    | succ c =>
      have hskip : ∀ j, (p0 :: p1 :: p2 :: p3 :: l).getD (j + 4 * (c + 1)) 0 =
          l.getD (j + 4 * c) 0 := by
        intro j
        rw [show j + 4 * (c + 1) = j + 4 * c + 1 + 1 + 1 + 1 by omega]
        rfl
      have hzero := hskip 0
      rw [Nat.zero_add, Nat.zero_add] at hzero
      rw [hzero, hskip, hskip, hskip, List.getD_append_right _ _ _ _ (by omega), hlen,
        show r + 4 * (c + 1) - 4 = r + 4 * c by omega]
      exact getD_mixColumns b hl hr (Nat.lt_of_succ_lt_succ hc)

theorem toState_addRoundKey (h : l.length = k.length) :
    toState (addRoundKey l k) = Fips.addRoundKey (toState l) (toState k) := by
  funext r c
  exact getD_xorBytes h

theorem toState_subBytes (h : l.length = 16) :
    toState (subBytes false l) = Fips.subBytes (toState l) := by
  funext r c
  have hlt : (r : Nat) + 4 * c < l.length := by omega
  show (l.map _).getD _ 0 = Fips.subByte (l.getD _ 0)
  rw [← lookup_SBox, List.getD_eq_getElem?_getD, List.getD_eq_getElem?_getD, List.getElem?_map,
    List.getElem?_eq_getElem hlt]
  rfl

theorem getD_shiftRows (b : Bool) (hi : i < 16) : (shiftRows b l).getD i 0 =
    l.getD (i % 4 + 4 * ((i / 4 + if b then 4 - i % 4 else i % 4) % 4)) 0 := by
  rw [shiftRows, List.getD_eq_getElem?_getD, List.getElem?_map, List.getElem?_range hi]
  rfl

theorem toState_shiftRows (l : List UInt8) :
    toState (shiftRows false l) = Fips.shiftRows (toState l) := by
  funext r c
  show (shiftRows false l).getD _ 0 = l.getD _ 0
  rw [getD_shiftRows false (by omega), show ((r : Nat) + 4 * c) % 4 = r by omega,
    show ((r : Nat) + 4 * c) / 4 = c by omega, Fin.val_add]
  rfl

theorem toState_mixColumns (h : l.length = 16) :
    toState (mixColumns false l) = Fips.mixColumns (toState l) := by
  funext r c
  have hcol := field_mixColumn (l.getD (4 * c) 0) (l.getD (1 + 4 * c) 0) (l.getD (2 + 4 * c) 0)
    (l.getD (3 + 4 * c) 0)
  refine Eq.trans (@getD_mixColumns false 4 l h r c r.isLt c.isLt) (Eq.symm (byte_eq ?_))
  have hget := congrArg (fun x : List Byte => x.getD r 0) hcol
  rw [← field_zero, List.getD_map, field_zero] at hget
  rw [hget, Matrix.mul_apply, Fin.sum_univ_four]
  fin_cases r <;> simp [Fips.mixMatrix, toState]

end

/-! ### The key expansion -/

theorem field_byte (x : Byte) : field (byte x) = x :=
  (ofWord 0x1B#8).apply_symm_apply x

theorem gfMultBy02_byte (n : Nat) : gfMultBy02 (byte (ζ ^ n)) = byte (ζ ^ (n + 1)) := by
  apply field_injective
  rw [field_gfMultBy02, field_byte, field_byte, pow_succ']

section

variable {key : List UInt8} {f : Nat → List UInt8} {i j n r : Nat}

/-- Words of four bytes one behind the other. -/
theorem length_words (hf : ∀ i, (f i).length = 4) (n : Nat) :
    ((List.range n).flatMap f).length = 4 * n := by
  induction n with
  | zero => rfl
  | succ n ih =>
    rw [List.range_succ, List.flatMap_append, List.length_append, ih, List.flatMap_singleton, hf]
    omega

theorem getElem?_words (hf : ∀ i, (f i).length = 4) (hj : j < n) (hr : r < 4) :
    ((List.range n).flatMap f)[4 * j + r]? = (f j)[r]? := by
  induction n with
  | zero => exact absurd hj (Nat.not_lt_zero j)
  | succ n ih =>
    have hlen := length_words hf n
    rw [List.range_succ, List.flatMap_append, List.flatMap_singleton]
    rcases Nat.lt_succ_iff_lt_or_eq.mp hj with hj | rfl
    · rw [List.getElem?_append_left (by omega), ih hj]
    · rw [List.getElem?_append_right (by omega), hlen, Nat.add_sub_cancel_left]

theorem take_drop_words (hf : ∀ i, (f i).length = 4) (hj : j < n) :
    (((List.range n).flatMap f).drop (4 * j)).take 4 = f j := by
  apply List.ext_getElem?
  intro r
  by_cases hr : r < 4
  · rw [List.getElem?_take_of_lt hr, List.getElem?_drop, getElem?_words hf hj hr]
  · rw [List.getElem?_take_eq_none (Nat.not_lt.mp hr), List.getElem?_eq_none]
    rw [hf]
    exact Nat.not_lt.mp hr

theorem length_word (hkey : key.length = 16) (i : Nat) : (Fips.word key i).length = 4 := by
  induction i using Nat.strongRecOn with
  | ind i ih =>
    rw [Fips.word]
    by_cases hi : i < 4
    · rw [if_pos hi, List.length_take, List.length_drop, hkey]
      omega
    · have hlen : ∀ {v w : List UInt8}, v.length = 4 → w.length = 4 →
          (Fips.xorWord v w).length = 4 := by
        intro v w hv hw
        rw [Fips.xorWord, List.length_zipWith, hv, hw]
        rfl
      rw [if_neg hi]
      refine hlen (ih _ (by omega)) ?_
      split
      · refine hlen ?_ rfl
        rw [List.length_map, Fips.rotWord, List.length_rotate, ih _ (by omega)]
      · exact ih _ (by omega)

theorem words_key (hkey : key.length = 16) : (List.range 4).flatMap (Fips.word key) = key := by
  have hf := length_word hkey
  apply List.ext_getElem?
  intro i
  by_cases hi : i < 16
  · have hsplit : i = 4 * (i / 4) + i % 4 := by omega
    rw [hsplit, getElem?_words hf (by omega) (by omega), Fips.word, if_pos (by omega),
      List.getElem?_take_of_lt (by omega), List.getElem?_drop]
  · rw [List.getElem?_eq_none, List.getElem?_eq_none]
    · omega
    · rw [length_words hf]
      omega

theorem xorWord_comm (v w : List UInt8) : Fips.xorWord v w = xorBytes w v :=
  List.zipWith_comm_of_comm UInt8.xor_comm

theorem rotationWord_eq {w : List UInt8} (h : w.length = 4) : rotationWord w = Fips.rotWord w := by
  obtain ⟨a, b, c, d, rfl⟩ := List.length_eq_four.mp h
  rfl

theorem subBytes_eq (l : List UInt8) : subBytes false l = l.map Fips.subByte :=
  List.map_congr_left fun b _ => lookup_SBox b

/-- A word of the code is the word of the standard. -/
theorem expandWord_eq (hkey : key.length = 16) (n : Nat) :
    expandWord ((List.range (4 + n)).flatMap (Fips.word key), byte (ζ ^ ((3 + n) / 4))) (4 + n) =
      ((List.range (4 + n + 1)).flatMap (Fips.word key), byte (ζ ^ ((3 + n + 1) / 4))) := by
  have hf := length_word hkey
  have hprev : (((List.range (4 + n)).flatMap (Fips.word key)).drop (4 * (4 + n) - 4)).take 4 =
      Fips.word key (4 + n - 1) := by
    rw [show 4 * (4 + n) - 4 = 4 * (4 + n - 1) by omega, take_drop_words hf (by omega)]
  have hbase : (((List.range (4 + n)).flatMap (Fips.word key)).drop (4 * (4 + n) - 4 * Nk)).take 4 =
      Fips.word key (4 + n - 4) := by
    rw [show 4 * (4 + n) - 4 * Nk = 4 * (4 + n - 4) by rw [show Nk = 4 from rfl]; omega,
      take_drop_words hf (by omega)]
  have hword : Fips.word key (4 + n) = Fips.xorWord (Fips.word key (4 + n - 4))
      (if (4 + n) % 4 = 0 then Fips.xorWord ((Fips.rotWord (Fips.word key (4 + n - 1))).map
        Fips.subByte) (Fips.rcon ((4 + n) / 4)) else Fips.word key (4 + n - 1)) := by
    rw [Fips.word, if_neg (by omega)]
  rw [expandWord, hprev, hbase, List.range_succ, List.flatMap_append, List.flatMap_singleton, hword,
    xorWord_comm]
  by_cases hn : (4 + n) % 4 = 0
  · rw [if_pos hn, if_pos (show (4 + n) % Nk = 0 from hn), rotationWord_eq (hf _), subBytes_eq,
      gfMultBy02_byte, show (3 + n) / 4 = (4 + n) / 4 - 1 by omega,
      show (3 + n + 1) / 4 = (4 + n) / 4 - 1 + 1 by omega]
    rfl
  · rw [if_neg hn, if_neg (show ¬(4 + n) % Nk = 0 from hn),
      if_neg fun h => absurd h.1 (by decide), show (3 + n + 1) / 4 = (3 + n) / 4 by omega]

theorem AES_Init_eq (hkey : key.length = 16) :
    AES_Init key = (List.range 44).flatMap (Fips.word key) := by
  have hloop : ∀ n, (List.range' Nk n).foldl expandWord (key.take (4 * Nk), 0x01) =
      ((List.range (4 + n)).flatMap (Fips.word key), byte (ζ ^ ((3 + n) / 4))) := by
    intro n
    induction n with
    | zero =>
      have hone : byte (ζ ^ 0) = 0x01 := by
        rw [pow_zero]
        exact byte_eq (toResidue_one _ (by decide))
      rw [show (3 + 0) / 4 = 0 from rfl, hone, Nat.add_zero, words_key hkey]
      show (key.take 16, _) = _
      rw [List.take_of_length_le (Nat.le_of_eq hkey)]
    | succ n ih =>
      rw [List.range'_concat, List.foldl_append, ih, show Nk + 1 * n = 4 + n by rw [Nat.one_mul]; rfl]
      exact expandWord_eq hkey n
  exact congrArg Prod.fst (hloop 40)

theorem length_AES_Init (hkey : key.length = 16) : (AES_Init key).length = 176 := by
  rw [AES_Init_eq hkey, length_words (length_word hkey)]

theorem length_roundKey {T : List UInt8} (hT : T.length = 176) (hi : i ≤ 10) :
    (roundKey T i).length = 16 := by
  rw [roundKey, List.length_take, List.length_drop, hT, show Nb = 4 from rfl]
  omega

theorem toState_roundKey (hkey : key.length = 16) (hi : i ≤ 10) :
    toState (roundKey (AES_Init key) i) = Fips.roundKey key i := by
  funext r c
  show ((((AES_Init key).drop (16 * i)).take 16)).getD _ 0 = (Fips.word key (4 * i + c)).getD r 0
  rw [AES_Init_eq hkey, List.getD_eq_getElem?_getD, List.getD_eq_getElem?_getD,
    List.getElem?_take_of_lt (by omega), List.getElem?_drop,
    show 16 * i + ((r : Nat) + 4 * c) = 4 * (4 * i + c) + r by omega,
    getElem?_words (length_word hkey) (by omega) r.isLt]

/-! ### The cipher -/

variable {T s : List UInt8}

theorem length_encryptRound (hT : T.length = 176) (hi : i ≤ 10) (s : List UInt8) :
    (encryptRound T s i).length = 16 := by
  have hkey := length_roundKey hT hi
  rw [encryptRound]
  split
  · have hshift : (shiftRows false (subBytes false s)).length = 4 * 4 := length_shiftRows false
    have hmix := length_mixColumns false hshift
    rw [addRoundKey, length_xorBytes (hmix.trans hkey.symm), hmix]
  · rw [addRoundKey, length_xorBytes ((length_shiftRows false).trans hkey.symm),
      length_shiftRows]

theorem length_foldl_encryptRound (hT : T.length = 176) (hs : s.length = 16) (hn : n ≤ 10) :
    ((List.range' 1 n).foldl (encryptRound T) s).length = 16 := by
  cases n with
  | zero => exact hs
  | succ n =>
    rw [List.range'_concat, List.foldl_append]
    exact length_encryptRound hT (by omega) _

theorem length_addRoundKey_zero (hT : T.length = 176) (hs : s.length = 16) :
    (addRoundKey s (roundKey T 0)).length = 16 := by
  rw [addRoundKey, length_xorBytes (hs.trans (length_roundKey hT (Nat.zero_le 10)).symm), hs]

theorem length_blockEncrypt (hT : T.length = 176) (hs : s.length = 16) :
    (blockEncrypt T s).length = 16 :=
  length_foldl_encryptRound hT (length_addRoundKey_zero hT hs) (Nat.le_refl 10)

theorem toState_encryptRound (hkey : key.length = 16) (hs : s.length = 16) (hi : i < 10) :
    toState (encryptRound (AES_Init key) s i) =
      Fips.addRoundKey (Fips.mixColumns (Fips.shiftRows (Fips.subBytes (toState s))))
        (Fips.roundKey key i) := by
  have hshift : (shiftRows false (subBytes false s)).length = 4 * 4 := length_shiftRows false
  have hmix := length_mixColumns false hshift
  have hround := length_roundKey (length_AES_Init hkey) (Nat.le_of_lt hi)
  rw [encryptRound, if_pos (show i ≠ Nr from Nat.ne_of_lt hi),
    toState_addRoundKey (hmix.trans hround.symm), toState_mixColumns hshift, toState_shiftRows,
    toState_subBytes hs, toState_roundKey hkey (Nat.le_of_lt hi)]

/-- **The code is AES.**  With the round keys that `AES_Init` makes of a key, `BlockEncrypt` computes
the cipher of the standard. -/
theorem cipher_eq (hkey : key.length = 16) (hs : s.length = 16) :
    toState (blockEncrypt (AES_Init key) s) = Fips.cipher key (toState s) := by
  have hT := length_AES_Init hkey
  have hloop : ∀ n, n < 10 → toState ((List.range' 1 n).foldl (encryptRound (AES_Init key))
      (addRoundKey s (roundKey (AES_Init key) 0))) =
        (List.range' 1 n).foldl (fun s i => Fips.addRoundKey (Fips.mixColumns (Fips.shiftRows
          (Fips.subBytes s))) (Fips.roundKey key i))
          (Fips.addRoundKey (toState s) (Fips.roundKey key 0)) := by
    intro n
    induction n with
    | zero =>
      intro _
      have hround := length_roundKey hT (Nat.zero_le 10)
      rw [List.range'_zero, List.foldl_nil, List.foldl_nil,
        toState_addRoundKey (hs.trans hround.symm), toState_roundKey hkey (Nat.zero_le 10)]
    | succ n ih =>
      intro hn
      have hlen := length_foldl_encryptRound hT (length_addRoundKey_zero hT hs)
        (show n ≤ 10 by omega)
      rw [List.range'_concat, List.foldl_append, List.foldl_append, List.foldl_cons, List.foldl_nil,
        List.foldl_cons, List.foldl_nil, toState_encryptRound hkey hlen (by omega), ih (by omega)]
  have hlen := length_foldl_encryptRound hT (length_addRoundKey_zero hT hs)
    (show 9 ≤ 10 by omega)
  have hround := length_roundKey hT (Nat.le_refl 10)
  show toState ((List.range' 1 (9 + 1)).foldl _ _) = _
  rw [List.range'_concat, List.foldl_append, List.foldl_cons, List.foldl_nil, encryptRound,
    if_neg (by decide), toState_addRoundKey ((length_shiftRows false).trans hround.symm),
    toState_shiftRows, toState_subBytes hlen, hloop 9 (by omega), toState_roundKey hkey (by decide)]
  rfl

end

end Nl6621.Aes
