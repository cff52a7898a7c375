import Nl6621.Lib.Pen
import Nl6621.Lib.Sextets

/-!
# `base64.c`

`base64_encode` writes its text with an end of line after every 72 characters into an object whose
size it estimates before; `base64_decode` looks at the bytes of the alphabet alone.

Where `malloc` gives `NULL`, both functions call `free` with it.  `free` is `OSMFree` here, which
looks for the header of the block in front of what it is given, so that this is a fault.

`quads` is the text that is meant, four characters for every three bytes and `=` where the last
three are not complete; `digit` and `inAlphabet` are the characters, without the tables of the code.
`base64Encode_eq` says that the encoder writes just this text in lines and never leaves its object.
The decoder takes any bytes without leaving one of its objects (`base64Decode_eq`), and
`base64_round_trip` puts the two together: a text with the characters of the encoder is decoded to
its source, however it is laid out.
-/

namespace Nl6621.NuAgent.Base64

open Lib

/-! ### The code -/

def base64Table : List UInt8 := [
  0x41, 0x42, 0x43, 0x44, 0x45, 0x46, 0x47, 0x48, 0x49, 0x4a, 0x4b, 0x4c, 0x4d, 0x4e, 0x4f, 0x50,
  0x51, 0x52, 0x53, 0x54, 0x55, 0x56, 0x57, 0x58, 0x59, 0x5a, 0x61, 0x62, 0x63, 0x64, 0x65, 0x66,
  0x67, 0x68, 0x69, 0x6a, 0x6b, 0x6c, 0x6d, 0x6e, 0x6f, 0x70, 0x71, 0x72, 0x73, 0x74, 0x75, 0x76,
  0x77, 0x78, 0x79, 0x7a, 0x30, 0x31, 0x32, 0x33, 0x34, 0x35, 0x36, 0x37, 0x38, 0x39, 0x2b, 0x2f]

def newline : UInt8 := 0x0a

def equalsSign : UInt8 := 0x3d

/-- `base64_table[i]` -/
def char (i : UInt8) : UInt8 := base64Table.getD i.toNat 0

/-- `if (line_len) *pos++ = '\n';` -/
def endLine (lineLen : Nat) (p : Pen) : Outcome Pen :=
  if lineLen ≠ 0 then p.put [newline] else .ok p

/-- The bytes behind the last three, and the end of the last line. -/
def encodeEnd (rest : List UInt8) (lineLen : Nat) (p : Pen) : Outcome Pen :=
  match rest with
  | [in0] => do
    let p ← p.put [char (in0 >>> 2), char ((in0 &&& 0x03) <<< 4), equalsSign, equalsSign]
    endLine (lineLen + 4) p
  | [in0, in1] => do
    let p ← p.put [char (in0 >>> 2), char (((in0 &&& 0x03) <<< 4) ||| (in1 >>> 4)),
      char ((in1 &&& 0x0f) <<< 2), equalsSign]
    endLine (lineLen + 4) p
  | _ => endLine lineLen p

/-- From a place in the source on. -/
def encodeFrom : List UInt8 → Nat → Pen → Outcome Pen
  | in0 :: in1 :: in2 :: rest, lineLen, p => do
    let p ← p.put [char (in0 >>> 2), char (((in0 &&& 0x03) <<< 4) ||| (in1 >>> 4)),
      char (((in1 &&& 0x0f) <<< 2) ||| (in2 >>> 6)), char (in2 &&& 0x3f)]
    if lineLen + 4 ≥ 72 then do
      let p ← p.put [newline]
      encodeFrom rest 0 p
    else encodeFrom rest (lineLen + 4) p
  | rest, lineLen, p => encodeEnd rest lineLen p

/-- What is written to the object, and `*out_len`.  The product of `int`s must not overflow. -/
def base64Encode (malloc : Bool) (src : List UInt8) : Outcome (List UInt8 × Nat) :=
  if 2 ^ 31 ≤ src.length * 4 then .fault
  else
    let olen := src.length * 4 / 3 + 4
    let olen := olen + olen / 72
    let olen := olen + 1
    if malloc then do
      let p ← encodeFrom src 0 (Pen.malloc olen)
      let out_len := p.text.length
      let p ← p.put [0]
      .ok (p.text, out_len)
    else .fault -- `free(out);`

def dtable : List UInt8 :=
  (base64Table.zipIdx.foldl (fun d c => d.set c.1.toNat (UInt8.ofNat c.2))
    (List.replicate 256 0x80)).set equalsSign.toNat 0

def value (c : UInt8) : UInt8 := dtable.getD c.toNat 0x80

def known (c : UInt8) : Bool := value c != 0x80

/-- `in` and `block`, and how many of their cells are taken. -/
structure DecodeLoop where
  count : Nat
  chars : Block
  block : Block
  pen : Pen

/-- `pos` goes on by three. -/
def decodeQuad (block : Block) (p : Pen) : Outcome Pen := do
  let b0 ← block.byteAt 0
  let b1 ← block.byteAt 1
  let b2 ← block.byteAt 2
  let b3 ← block.byteAt 3
  p.put [(b0 <<< 2) ||| (b1 >>> 4), (b1 <<< 4) ||| (b2 >>> 2), (b2 <<< 6) ||| b3]

def decodeRound (s : DecodeLoop) (c : UInt8) : Outcome DecodeLoop :=
  let tmp := value c
  if tmp = 0x80 then .ok s
  else do
    let chars ← s.chars.store s.count [some c]
    let block ← s.block.store s.count [some tmp]
    if s.count + 1 = 4 then do
      let pen ← decodeQuad block s.pen
      .ok ⟨0, chars, block, pen⟩
    else .ok ⟨s.count + 1, chars, block, s.pen⟩

def decodeLoop : List UInt8 → DecodeLoop → Outcome DecodeLoop
  | [], s => .ok s
  | c :: src, s => do
    let s ← decodeRound s c
    decodeLoop src s

/-- `pos` goes back by what the `=` in the last four characters stand for. -/
def unpad (chars : Block) (out : List UInt8) : Outcome (List UInt8) :=
  if 0 < out.length then do
    let in2 ← chars.byteAt 2
    if in2 = equalsSign then .ok (out.take (out.length - 2))
    else do
      let in3 ← chars.byteAt 3
      if in3 = equalsSign then .ok (out.take (out.length - 1)) else .ok out
  else .ok out

/-- The bytes between `out` and `pos`. -/
def base64Decode (malloc : Bool) (src : List UInt8) : Outcome (Option (List UInt8)) :=
  let count := (src.filter known).length
  if count % 4 ≠ 0 then .ok none
  else if malloc then do
    let s ← decodeLoop src ⟨0, Block.malloc 4, Block.malloc 4, Pen.malloc count⟩
    let out ← unpad s.chars s.pen.text
    .ok (some out)
  else .fault -- `free(out);`

/-! ### The text that is meant -/

/-- The character for a sextet: `A` to `Z`, `a` to `z`, `0` to `9`, `+` and `/`. -/
def digit (s : Nat) : UInt8 :=
  if s < 26 then UInt8.ofNat (0x41 + s)
  else if s < 52 then UInt8.ofNat (0x61 + (s - 26))
  else if s < 62 then UInt8.ofNat (0x30 + (s - 52))
  else if s = 62 then 0x2b
  else 0x2f

/-- One of these, or `=`. -/
def inAlphabet (c : UInt8) : Bool :=
  decide (0x41 ≤ c ∧ c ≤ 0x5a ∨ 0x61 ≤ c ∧ c ≤ 0x7a ∨ 0x30 ≤ c ∧ c ≤ 0x39 ∨ c = 0x2b ∨ c = 0x2f ∨
    c = equalsSign)

/-- Four characters for every three bytes. -/
def quads : List UInt8 → List UInt8
  | [] => []
  | [a] => ((sextets a 0 0).take 2).map digit ++ [equalsSign, equalsSign]
  | [a, b] => ((sextets a b 0).take 3).map digit ++ [equalsSign]
  | a :: b :: c :: src => (sextets a b c).map digit ++ quads src

/-! ### Characters and sextets -/

variable {src : List UInt8}

theorem base64Table_eq : base64Table = (List.range 64).map digit := by decide

theorem char_eq {i : UInt8} (hi : i.toNat < 64) : char i = digit i.toNat := by
  rw [char, base64Table_eq, List.getD_eq_getElem?_getD, List.getElem?_map, List.getElem?_range hi]
  rfl

theorem toNat_and_mask (a m : UInt8) {k : Nat} (hm : m.toNat = 2 ^ k - 1) :
    (a &&& m).toNat = a.toNat % 2 ^ k := by
  rw [UInt8.toNat_and, hm, Nat.and_two_pow_sub_one_eq_mod]

theorem chars_three (a b c : UInt8) :
    [char (a >>> 2), char (((a &&& 0x03) <<< 4) ||| (b >>> 4)),
      char (((b &&& 0x0f) <<< 2) ||| (c >>> 6)), char (c &&& 0x3f)] =
        (sextets a b c).map digit := by
  have ha := a.toNat_lt
  have hb := b.toNat_lt
  have hc := c.toNat_lt
  have ha' : (a &&& 0x03).toNat = a.toNat % 2 ^ 2 := toNat_and_mask a 0x03 rfl
  have hb' : (b &&& 0x0f).toNat = b.toNat % 2 ^ 4 := toNat_and_mask b 0x0f rfl
  have ha2 : (a >>> 2).toNat = a.toNat / 4 := toNat_shr a (by decide)
  have hb4 : (b >>> 4).toNat = b.toNat / 16 := toNat_shr b (by decide)
  have hc6 : (c >>> 6).toNat = c.toNat / 64 := toNat_shr c (by decide)
  have h0 : (a >>> 2).toNat = ((a.toNat * 256 + b.toNat) * 256 + c.toNat) / 64 ^ 3 := by omega
  have h1 : (((a &&& 0x03) <<< 4) ||| (b >>> 4)).toNat =
      ((a.toNat * 256 + b.toNat) * 256 + c.toNat) / 64 ^ 2 % 64 := by
    rw [toNat_shl_or _ _ (by decide) (by rw [hb4]; change _ < 16; omega), ha', hb4]
    change a.toNat % 2 ^ 2 * 16 % 256 + _ = _
    omega
  have h2 : (((b &&& 0x0f) <<< 2) ||| (c >>> 6)).toNat =
      ((a.toNat * 256 + b.toNat) * 256 + c.toNat) / 64 % 64 := by
    rw [toNat_shl_or _ _ (by decide) (by rw [hc6]; change _ < 4; omega), hb', hc6]
    change b.toNat % 2 ^ 4 * 4 % 256 + _ = _
    omega
  have h3 : (c &&& 0x3f).toNat = ((a.toNat * 256 + b.toNat) * 256 + c.toNat) % 64 := by
    rw [toNat_and_mask c 0x3f (k := 6) rfl]
    omega
  rw [char_eq (by rw [h0]; omega), char_eq (by rw [h1]; omega), char_eq (by rw [h2]; omega),
    char_eq (by rw [h3]; omega), h0, h1, h2, h3]
  rfl

theorem chars_two (a b : UInt8) :
    [char (a >>> 2), char (((a &&& 0x03) <<< 4) ||| (b >>> 4)), char ((b &&& 0x0f) <<< 2)] =
      ((sextets a b 0).take 3).map digit := by
  rw [List.map_take, ← chars_three]
  simp only [List.take_succ_cons, List.take_zero, UInt8.zero_shiftRight, UInt8.or_zero]

theorem chars_one (a : UInt8) :
    [char (a >>> 2), char ((a &&& 0x03) <<< 4)] = ((sextets a 0 0).take 2).map digit := by
  rw [List.map_take, ← chars_three]
  simp only [List.take_succ_cons, List.take_zero, UInt8.zero_shiftRight, UInt8.or_zero]

/-! ### The alphabet -/

theorem values : base64Table.map value = (List.range 64).map UInt8.ofNat := by decide

theorem value_digit {s : Nat} (hs : s < 64) : (value (digit s)).toNat = s := by
  have h := congrArg (fun l => l[s]?) values
  simp only [base64Table_eq, List.getElem?_map, List.getElem?_range hs, Option.map_some,
    Option.some.injEq] at h
  rw [h, UInt8.toNat_ofNat', Nat.mod_eq_of_lt (by omega)]

set_option maxRecDepth 4000 in
theorem dtable_le : ∀ v ∈ dtable, v = 0x80 ∨ v.toNat < 64 := by decide

set_option maxRecDepth 4000 in
theorem dtable_known : dtable.map (fun v => v != 0x80) =
    (List.range 256).map fun n => inAlphabet (UInt8.ofNat n) := by decide

theorem known_eq : known = inAlphabet := by
  funext c
  have hc : c.toNat < 256 := c.toNat_lt
  have h := congrArg (fun l => l[c.toNat]?) dtable_known
  simp only [List.getElem?_map, List.getElem?_range hc, Option.map_some, UInt8.ofNat_toNat] at h
  obtain ⟨v, hv, hknown⟩ := Option.map_eq_some_iff.mp h
  rw [← hknown, known, value, List.getD_eq_getElem?_getD, hv, Option.getD_some]

theorem known_iff {c : UInt8} : known c = true ↔ value c ≠ 0x80 := bne_iff_ne

theorem value_lt {c : UInt8} (hc : known c = true) : (value c).toNat < 64 := by
  have hmem : value c = 0x80 ∨ value c ∈ dtable := by
    unfold value
    rw [List.getD_eq_getElem?_getD]
    cases h : dtable[c.toNat]? with
    | none => exact .inl rfl
    | some v => exact .inr (List.mem_of_getElem? h)
  rcases hmem with h | h
  · exact absurd h (known_iff.mp hc)
  · exact (dtable_le _ h).resolve_left (known_iff.mp hc)

theorem known_digit {s : Nat} (hs : s < 64) : known (digit s) = true := by
  rw [known_iff]
  intro h
  have hval := value_digit hs
  rw [h] at hval
  have h80 : (0x80 : UInt8).toNat = 128 := rfl
  omega

theorem known_newline : known newline = false := by decide

theorem known_equalsSign : known equalsSign = true := by decide

theorem value_equalsSign : value equalsSign = 0 := by decide

theorem digit_ne_equalsSign {s : Nat} (hs : s < 64) : digit s ≠ equalsSign := by
  -- only `A` has the value of `=`
  intro h
  have hval := value_digit hs
  rw [h, value_equalsSign] at hval
  cases hval
  exact absurd h (by decide)

/-! ### The encoder -/

theorem length_quads (src : List UInt8) : (quads src).length = 4 * ((src.length + 2) / 3) := by
  induction src using quads.induct with
  | case1 => rfl
  | case2 a =>
    rw [quads, ← chars_one]
    simp
  | case3 a b =>
    rw [quads, ← chars_two]
    simp
  | case4 a b c src ih =>
    rw [quads, List.length_append, List.length_map, ih]
    simp only [sextets, List.length_cons, List.length_nil]
    omega

theorem known_quads (src : List UInt8) : ∀ c ∈ quads src, known c = true := by
  have hdigits : ∀ a b c : UInt8, ∀ d ∈ (sextets a b c).map digit, known d = true := by
    intro a b c d hd
    obtain ⟨s, hs, rfl⟩ := List.mem_map.mp hd
    exact known_digit (sextets_lt a b c s hs)
  have hsigns : ∀ n, ∀ d ∈ List.replicate n equalsSign, known d = true := by
    intro n d hd
    rw [List.eq_of_mem_replicate hd]
    exact known_equalsSign
  induction src using quads.induct with
  | case1 => exact fun c hc => absurd hc List.not_mem_nil
  | case2 a =>
    intro d hd
    rcases List.mem_append.mp hd with hd | hd
    · rw [List.map_take] at hd
      exact hdigits a 0 0 d (List.mem_of_mem_take hd)
    · exact hsigns 2 d hd
  | case3 a b =>
    intro d hd
    rcases List.mem_append.mp hd with hd | hd
    · rw [List.map_take] at hd
      exact hdigits a b 0 d (List.mem_of_mem_take hd)
    · exact hsigns 1 d hd
  | case4 a b c src ih =>
    intro d hd
    rcases List.mem_append.mp hd with hd | hd
    · exact hdigits a b c d hd
    · exact ih d hd

/-- A line is not full within four characters. -/
theorem lines_quad {col : Nat} (h4 : 4 ∣ col) (hcol : col < 72) (w x y z : UInt8)
    (text : List UInt8) :
    lines newline 72 col (w :: x :: y :: z :: text) =
      [w, x, y, z] ++ if col + 4 ≥ 72 then newline :: lines newline 72 0 text
        else lines newline 72 (col + 4) text := by
  rw [lines, if_neg (by omega), lines, if_neg (by omega), lines, if_neg (by omega), lines]
  by_cases hend : col + 4 ≥ 72
  · rw [if_pos (by omega), if_pos hend]
    rfl
  · rw [if_neg (by omega), if_neg hend]
    rfl

theorem writes_endLine (lineLen : Nat) :
    Pen.Writes (endLine lineLen) (lines newline 72 lineLen []) := by
  unfold endLine
  rw [lines]
  by_cases h : lineLen = 0
  · simp only [h, ne_eq, not_true_eq_false, if_false, if_true]
    exact Pen.writes_none
  · simp only [h, ne_eq, not_false_eq_true, if_true, if_false]
    exact Pen.writes_put [newline]

/-- Four characters, and the end of the last line. -/
theorem writes_last {col : Nat} (h4 : 4 ∣ col) (hcol : col < 72) (w x y z : UInt8) :
    Pen.Writes (fun p => (p.put [w, x, y, z]).bind (endLine (col + 4)))
      (lines newline 72 col [w, x, y, z]) := by
  have hend : lines newline 72 col [w, x, y, z] = [w, x, y, z] ++ [newline] := by
    rw [lines_quad h4 hcol]
    split
    · rw [lines, if_pos rfl]
    · rw [lines, if_neg (by omega)]
  have hput : Pen.Writes (endLine (col + 4)) [newline] := by
    have h := writes_endLine (col + 4)
    rwa [lines, if_neg (by omega)] at h
  rw [hend]
  exact (Pen.writes_put [w, x, y, z]).andThen hput

/-- **The encoder writes the text that is meant**, in lines of 72 characters. -/
theorem writes_encodeFrom (src : List UInt8) {col : Nat} (h4 : 4 ∣ col) (hcol : col < 72) :
    Pen.Writes (encodeFrom src col) (lines newline 72 col (quads src)) := by
  induction src using quads.induct generalizing col with
  | case1 => exact writes_endLine col
  | case2 a =>
    rw [quads, ← chars_one]
    exact writes_last h4 hcol _ _ _ _
  | case3 a b =>
    rw [quads, ← chars_two]
    exact writes_last h4 hcol _ _ _ _
  | case4 a b c src ih =>
    have hrest : Pen.Writes
        (fun p => if col + 4 ≥ 72 then (p.put [newline]).bind (encodeFrom src 0)
          else encodeFrom src (col + 4) p)
        (if col + 4 ≥ 72 then newline :: lines newline 72 0 (quads src)
          else lines newline 72 (col + 4) (quads src)) := by
      by_cases hend : col + 4 ≥ 72
      · simp only [if_pos hend]
        exact (Pen.writes_put [newline]).andThen (ih (Nat.dvd_zero 4) (by omega))
      · simp only [if_neg hend]
        exact ih (by omega) (by omega)
    rw [quads, ← chars_three, List.cons_append, List.cons_append, List.cons_append,
      List.cons_append, List.nil_append, lines_quad h4 hcol]
    exact (Pen.writes_put _).andThen hrest

/-- The text of the encoder. -/
def textOf (src : List UInt8) : List UInt8 := lines newline 72 0 (quads src)

theorem base64Encode_eq (h : src.length < 2 ^ 29) :
    base64Encode true src = .ok (textOf src ++ [0], (textOf src).length) := by
  have hlen : (textOf src).length =
      4 * ((src.length + 2) / 3) + (4 * ((src.length + 2) / 3) + 71) / 72 := by
    rw [textOf, length_lines (by omega), length_quads, Nat.zero_add]
  have hroom : (textOf src).length <
      src.length * 4 / 3 + 4 + (src.length * 4 / 3 + 4) / 72 + 1 := by
    have hquads : 4 * ((src.length + 2) / 3) ≤ src.length * 4 / 3 + 3 := by omega
    generalize 4 * ((src.length + 2) / 3) = n at hlen hquads
    generalize src.length * 4 / 3 = olen at hquads ⊢
    omega
  have hwrites := writes_encodeFrom src (Nat.dvd_zero 4) (by omega) (Pen.malloc _) hroom
  have hput : ((Pen.malloc (src.length * 4 / 3 + 4 + (src.length * 4 / 3 + 4) / 72 + 1)).wrote
      (textOf src)).put [0] = _ := Pen.put_ok (by
    rw [Pen.room_wrote, Pen.room_malloc, List.length_singleton]
    omega)
  unfold base64Encode
  rw [if_neg (by omega)]
  simp only [if_true, hwrites, Outcome.ok_bind]
  rw [← textOf, hput, Outcome.ok_bind]
  simp only [Pen.text_wrote, Pen.text_malloc, List.nil_append]

/-! ### The decoder -/

/-- Three bytes for every four characters. -/
def bytesOf : List UInt8 → List UInt8
  | w :: x :: y :: z :: cs =>
    octets (value w).toNat (value x).toNat (value y).toNat (value z).toNat ++ bytesOf cs
  | _ => []

def lastQuad (cs : List UInt8) : List UInt8 := cs.drop (cs.length - 4)

/-- How many bytes the last four characters do not stand for. -/
def padding (cs : List UInt8) : Nat :=
  match lastQuad cs with
  | [_, _, y, z] => if y = equalsSign then 2 else if z = equalsSign then 1 else 0
  | _ => 0

/-- What the decoder makes of the characters of a text. -/
def decoded (cs : List UInt8) : Option (List UInt8) :=
  if cs.length % 4 ≠ 0 then none
  else some ((bytesOf cs).take ((bytesOf cs).length - padding cs))

theorem lastQuad_cons {w x y z : UInt8} {cs : List UInt8} (h : 4 ≤ cs.length) :
    lastQuad (w :: x :: y :: z :: cs) = lastQuad cs := by
  have hlen : (w :: x :: y :: z :: cs).length - 4 = cs.length - 4 + 1 + 1 + 1 + 1 := by
    simp only [List.length_cons]
    omega
  rw [lastQuad, hlen]
  rfl

theorem padding_cons {w x y z : UInt8} {cs : List UInt8} (h : 4 ≤ cs.length) :
    padding (w :: x :: y :: z :: cs) = padding cs := by
  rw [padding, padding, lastQuad_cons h]

theorem length_bytesOf (cs : List UInt8) : (bytesOf cs).length = 3 * (cs.length / 4) := by
  induction cs using bytesOf.induct with
  | case1 w x y z cs ih =>
    rw [bytesOf, List.length_append, ih]
    simp only [octets, List.length_cons, List.length_nil]
    omega
  | case2 cs h =>
    rw [bytesOf]
    · rcases cs with _ | ⟨w, _ | ⟨x, _ | ⟨y, _ | ⟨z, cs⟩⟩⟩⟩
      · simp
      · simp
      · simp
      · simp
      · exact absurd rfl (h w x y z cs)
    · exact h

/-- The bytes of a quad are those of its sextets. -/
theorem octets_eq {b0 b1 b2 b3 : UInt8} (h1 : b1.toNat < 64)
    (h2 : b2.toNat < 64) (h3 : b3.toNat < 64) :
    [(b0 <<< 2) ||| (b1 >>> 4), (b1 <<< 4) ||| (b2 >>> 2), (b2 <<< 6) ||| b3] =
      octets b0.toNat b1.toNat b2.toNat b3.toNat := by
  have h14 : (b1 >>> 4).toNat = b1.toNat / 16 := toNat_shr b1 (by decide)
  have h22 : (b2 >>> 2).toNat = b2.toNat / 4 := toNat_shr b2 (by decide)
  have hfirst : ((b0 <<< 2) ||| (b1 >>> 4)).toNat = b0.toNat * 4 % 256 + b1.toNat / 16 := by
    rw [toNat_shl_or _ _ (by decide) (by rw [h14]; change _ < 4; omega), h14]
    rfl
  have hsecond : ((b1 <<< 4) ||| (b2 >>> 2)).toNat = b1.toNat * 16 % 256 + b2.toNat / 4 := by
    rw [toNat_shl_or _ _ (by decide) (by rw [h22]; change _ < 16; omega), h22]
    rfl
  have hthird : ((b2 <<< 6) ||| b3).toNat = b2.toNat * 64 % 256 + b3.toNat := by
    rw [toNat_shl_or _ _ (by decide) h3]
    rfl
  simp only [octets, List.cons.injEq, and_true, ← UInt8.toNat_inj, hfirst, hsecond, hthird,
    UInt8.toNat_ofNat']
  omega

theorem decodeRound_unknown {c : UInt8} (hc : known c = false) (s : DecodeLoop) :
    decodeRound s c = .ok s := by
  have h : value c = 0x80 := by
    by_contra h
    rw [known_iff.mpr h] at hc
    cases hc
  rw [decodeRound, if_pos h]

/-- Only the characters of the alphabet count. -/
theorem decodeLoop_filter (src : List UInt8) (s : DecodeLoop) :
    decodeLoop src s = decodeLoop (src.filter known) s := by
  induction src generalizing s with
  | nil => rfl
  | cons c src ih =>
    cases hc : known c with
    | true =>
      rw [List.filter_cons_of_pos hc, decodeLoop, decodeLoop]
      congr 1
      exact funext ih
    | false =>
      rw [List.filter_cons_of_neg (by simp [hc]), decodeLoop, decodeRound_unknown hc,
        Outcome.ok_bind, ih]

/-- Four rounds. -/
theorem decodeLoop_quad {s : DecodeLoop} {w x y z : UInt8} {cs : List UInt8}
    (hw : known w = true) (hx : known x = true) (hy : known y = true) (hz : known z = true)
    (hcount : s.count = 0) (hchars : s.chars.length = 4) (hblock : s.block.length = 4)
    (hroom : 3 ≤ s.pen.room) :
    decodeLoop (w :: x :: y :: z :: cs) s =
      decodeLoop cs ⟨0, [w, x, y, z].map some, [value w, value x, value y, value z].map some,
        s.pen.wrote (octets (value w).toNat (value x).toNat (value y).toNat (value z).toNat)⟩ := by
  obtain ⟨count, chars, block, pen⟩ := s
  obtain ⟨c0, c1, c2, c3, rfl⟩ : ∃ c0 c1 c2 c3, chars = [c0, c1, c2, c3] :=
    List.length_eq_four.mp hchars
  obtain ⟨b0, b1, b2, b3, rfl⟩ : ∃ b0 b1 b2 b3, block = [b0, b1, b2, b3] :=
    List.length_eq_four.mp hblock
  cases hcount
  have hput : pen.put [(value w <<< 2) ||| (value x >>> 4), (value x <<< 4) ||| (value y >>> 2),
      (value y <<< 6) ||| value z] = .ok (pen.wrote
        (octets (value w).toNat (value x).toNat (value y).toNat (value z).toNat)) := by
    rw [Pen.put_ok (by exact hroom), octets_eq (value_lt hx) (value_lt hy) (value_lt hz)]
  have hquad :
      decodeQuad [some (value w), some (value x), some (value y), some (value z)] pen = _ := hput
  simp only [decodeLoop, decodeRound, if_neg (known_iff.mp hw), if_neg (known_iff.mp hx),
    if_neg (known_iff.mp hy), if_neg (known_iff.mp hz)]
  simp [Block.store, Block.put, hquad]

/-- **The decoder's loop.**  The characters make whole quads; `in` has the last of them then. -/
theorem decodeLoop_eq {cs : List UInt8} (hcs : ∀ c ∈ cs, known c = true) (h4 : 4 ∣ cs.length)
    {s : DecodeLoop} (hcount : s.count = 0) (hchars : s.chars.length = 4)
    (hblock : s.block.length = 4) (hroom : (bytesOf cs).length ≤ s.pen.room) :
    ∃ chars block, decodeLoop cs s = .ok ⟨0, chars, block, s.pen.wrote (bytesOf cs)⟩ ∧
      (cs ≠ [] → chars = (lastQuad cs).map some) := by
  induction cs using bytesOf.induct generalizing s with
  | case1 w x y z cs ih =>
    obtain ⟨hw, hx, hy, hz, hcs'⟩ : known w = true ∧ known x = true ∧ known y = true ∧
        known z = true ∧ ∀ c ∈ cs, known c = true := by simpa using hcs
    rw [bytesOf, List.length_append] at hroom
    have hthree : 3 ≤ s.pen.room := by
      have hlen :
          (octets (value w).toNat (value x).toNat (value y).toNat (value z).toNat).length = 3 := rfl
      omega
    have h4' : 4 ∣ cs.length := by
      simp only [List.length_cons] at h4
      omega
    rw [decodeLoop_quad hw hx hy hz hcount hchars hblock hthree]
    obtain ⟨chars, block, hloop, hlast⟩ := ih hcs' h4'
      (s := ⟨0, [w, x, y, z].map some, [value w, value x, value y, value z].map some,
        s.pen.wrote (octets (value w).toNat (value x).toNat (value y).toNat (value z).toNat)⟩)
      rfl rfl rfl (by rw [Pen.room_wrote]; omega)
    rcases cs with _ | ⟨c, cs⟩
    · have hbytes : bytesOf [w, x, y, z] = octets (value w).toNat (value x).toNat (value y).toNat
          (value z).toNat := by
        rw [bytesOf]
        exact List.append_nil _
      refine ⟨[w, x, y, z].map some, [value w, value x, value y, value z].map some, ?_,
        fun _ => rfl⟩
      rw [hbytes]
      rfl
    · refine ⟨chars, block, ?_, fun _ => ?_⟩
      · rw [hloop, Pen.wrote_wrote, bytesOf]
      · have hmore : 4 ≤ (c :: cs).length := Nat.le_of_dvd (Nat.succ_pos _) h4'
        rw [lastQuad_cons hmore]
        exact hlast (List.cons_ne_nil c cs)
  | case2 cs h =>
    have hnil : cs = [] := by
      rcases cs with _ | ⟨w, _ | ⟨x, _ | ⟨y, _ | ⟨z, cs⟩⟩⟩⟩
      · rfl
      · simp at h4
      · simp at h4
      · simp at h4
      · exact absurd rfl (h w x y z cs)
    subst hnil
    refine ⟨s.chars, s.block, ?_, fun h => absurd rfl h⟩
    obtain ⟨count, chars, block, pen⟩ := s
    cases hcount
    have hwrote : pen.wrote (bytesOf []) = pen := Pen.wrote_nil pen
    rw [decodeLoop, hwrote]

theorem unpad_eq {cs : List UInt8} (h4 : 4 ∣ cs.length) {chars : Block}
    (hlast : cs ≠ [] → chars = (lastQuad cs).map some) :
    unpad chars (bytesOf cs) = .ok ((bytesOf cs).take ((bytesOf cs).length - padding cs)) := by
  have hlen := length_bytesOf cs
  unfold unpad
  by_cases hnil : cs = []
  · subst hnil
    rfl
  · have hpos := List.length_pos_iff.mpr hnil
    have hlastlen : (lastQuad cs).length = 4 := by
      rw [lastQuad, List.length_drop]
      omega
    obtain ⟨w, x, y, z, hquad⟩ := List.length_eq_four.mp hlastlen
    have hy : Block.byteAt ([w, x, y, z].map some) 2 = .ok y := rfl
    have hz : Block.byteAt ([w, x, y, z].map some) 3 = .ok z := rfl
    have hpad : padding cs = if y = equalsSign then 2 else if z = equalsSign then 1 else 0 := by
      rw [padding, hquad]
    rw [if_pos (by omega), hlast hnil, hquad, hy, hz, hpad]
    simp only [Outcome.ok_bind]
    split
    · rfl
    · split
      · rfl
      · rw [Nat.sub_zero, List.take_length]

/-- **The decoder takes any bytes.**  It stays in its objects, reads no cell of `in` or `block`
before it is set, and gives what the characters of the text stand for. -/
theorem base64Decode_eq (src : List UInt8) :
    base64Decode true src = .ok (decoded (src.filter known)) := by
  have hknown : ∀ c ∈ src.filter known, known c = true := fun c hc => (List.mem_filter.mp hc).2
  unfold base64Decode decoded
  generalize hcs : src.filter known = cs at hknown
  by_cases h4 : cs.length % 4 ≠ 0
  · rw [if_pos h4, if_pos h4]
  · rw [if_neg h4, if_neg h4]
    have hlen := length_bytesOf cs
    obtain ⟨chars, block, hloop, hlast⟩ := decodeLoop_eq hknown (by omega)
      (s := ⟨0, Block.malloc 4, Block.malloc 4, Pen.malloc cs.length⟩) rfl rfl rfl
      (by rw [Pen.room_malloc]; omega)
    rw [decodeLoop_filter, hcs]
    simp only [if_true, hloop, Outcome.ok_bind, Pen.text_wrote, Pen.text_malloc, List.nil_append,
      unpad_eq (Nat.dvd_of_mod_eq_zero (not_not.mp h4)) hlast]

/-! ### There and back -/

theorem exists_sextets (a b c : UInt8) : ∃ w x y z, sextets a b c = [w, x, y, z] ∧
    w < 64 ∧ x < 64 ∧ y < 64 ∧ z < 64 := by
  refine ⟨_, _, _, _, rfl, ?_⟩
  simpa only [sextets, List.forall_mem_cons, List.not_mem_nil, false_implies, implies_true,
    and_true] using sextets_lt a b c

/-- The zeros that fill the last quad are what `padding` takes off. -/
theorem bytesOf_quads (src : List UInt8) :
    bytesOf (quads src) = src ++ List.replicate (padding (quads src)) 0 := by
  have hsign : (value equalsSign).toNat = 0 := congrArg UInt8.toNat value_equalsSign
  induction src using quads.induct with
  | case1 => rfl
  | case2 a =>
    obtain ⟨w, x, y, z, hs, hw, hx, -, -⟩ := exists_sextets a 0 0
    have hzero : y = 0 ∧ z = 0 := by
      simp only [sextets, List.cons.injEq] at hs
      have h0 : (0 : UInt8).toNat = 0 := rfl
      omega
    obtain ⟨rfl, rfl⟩ := hzero
    have hpad : padding [digit w, digit x, equalsSign, equalsSign] = 2 := rfl
    have hquads : quads [a] = [digit w, digit x, equalsSign, equalsSign] := by
      rw [quads, hs]
      rfl
    rw [hquads, hpad, bytesOf, value_digit hw, value_digit hx, hsign, octets_sextets hs]
    rfl
  | case3 a b =>
    obtain ⟨w, x, y, z, hs, hw, hx, hy, -⟩ := exists_sextets a b 0
    have hzero : z = 0 := by
      simp only [sextets, List.cons.injEq] at hs
      have h0 : (0 : UInt8).toNat = 0 := rfl
      omega
    subst hzero
    have hpad : padding [digit w, digit x, digit y, equalsSign] = 1 :=
      if_neg (digit_ne_equalsSign hy)
    have hquads : quads [a, b] = [digit w, digit x, digit y, equalsSign] := by
      rw [quads, hs]
      rfl
    rw [hquads, hpad, bytesOf, value_digit hw, value_digit hx, value_digit hy, hsign,
      octets_sextets hs]
    rfl
  | case4 a b c src ih =>
    obtain ⟨w, x, y, z, hs, hw, hx, hy, hz⟩ := exists_sextets a b c
    have hquads : quads (a :: b :: c :: src) =
        digit w :: digit x :: digit y :: digit z :: quads src := by
      rw [quads, hs]
      rfl
    have hpad : padding (quads (a :: b :: c :: src)) = padding (quads src) := by
      rw [hquads]
      rcases src with _ | ⟨d, src⟩
      · exact (if_neg (digit_ne_equalsSign hy)).trans (if_neg (digit_ne_equalsSign hz))
      · refine padding_cons ?_
        rw [length_quads, List.length_cons]
        omega
    rw [hpad, hquads, bytesOf, value_digit hw, value_digit hx, value_digit hy, value_digit hz,
      octets_sextets hs, ih]
    rfl

theorem decoded_quads (src : List UInt8) : decoded (quads src) = some src := by
  have hlen := length_quads src
  rw [decoded, if_neg (by omega), bytesOf_quads, List.length_append, List.length_replicate,
    Nat.add_sub_cancel, List.take_left]

/-- **A text is decoded to its source**, with memory for the two results.  Any text with the
characters of the encoder will do: other bytes, as the ends of the lines, may stand anywhere between
them. -/
theorem base64_round_trip (h : src.length < 2 ^ 29) :
    ∃ text : List UInt8, text = lines newline 72 0 (quads src) ∧
      base64Encode true src = .ok (text ++ [0], text.length) ∧
      ∀ received : List UInt8, received.filter inAlphabet = text.filter inAlphabet →
        base64Decode true received = .ok (some src) := by
  refine ⟨textOf src, rfl, base64Encode_eq h, fun received hreceived => ?_⟩
  have hfilter : (textOf src).filter known = quads src :=
    filter_lines known_newline (known_quads src)
  rw [← known_eq] at hreceived
  rw [base64Decode_eq, hreceived, hfilter, decoded_quads]

theorem base64_round_trip_two : ∃ text : List UInt8,
    text = lines newline 72 0 (quads [0x66, 0x6f]) ∧
    base64Encode true [0x66, 0x6f] = .ok (text ++ [0], text.length) ∧
    ∀ received : List UInt8, received.filter inAlphabet = text.filter inAlphabet →
      base64Decode true received = .ok (some [0x66, 0x6f]) :=
  base64_round_trip (by decide)

example : base64Encode true [0x66, 0x6f] = .ok ([0x5a, 0x6d, 0x38, 0x3d, 0x0a, 0], 5) := by
  decide

/-- **No text does harm**, if there is memory for the result.  Whatever the bytes are, the decoder
returns; it gives up exactly if the characters make no whole quads, and its result is never longer
than the object for it. -/
theorem base64_decode_returns (src : List UInt8) :
    ∃ out : Option (List UInt8), base64Decode true src = .ok out ∧
      (out = none ↔ (src.filter inAlphabet).length % 4 ≠ 0) ∧
      ∀ bytes ∈ out, bytes.length ≤ (src.filter inAlphabet).length := by
  rw [← known_eq]
  refine ⟨_, base64Decode_eq src, ?_, fun bytes hbytes => ?_⟩
  · unfold decoded
    split
    case isTrue h => exact iff_of_true rfl h
    case isFalse h => exact iff_of_false (Option.some_ne_none _) h
  · have hlen := length_bytesOf (src.filter known)
    unfold decoded at hbytes
    split at hbytes
    · cases hbytes
    · cases hbytes
      rw [List.length_take]
      omega

end Nl6621.NuAgent.Base64
