import Nl6621.Edp.Kit
import Nl6621.Edp.Read

/-!
# The bounds of the readers

Every reader compares the cursor plus the number of bytes it is about to read with the write
position, in 32-bit arithmetic.  `Bounded p value pkg` is what the comparison is for: the call
returns, the cursor stays below the write position, and a call that returns 0 has read a slice
`x` of the unread bytes, whose value is the result, and has moved the cursor by its length.

Each reader is bounded if and only if its sum does not reach `2 ^ 32`.  When it does, the
comparison is passed and the reader runs out of the object.  With the numbers of bytes that the
fixed fields take, the sum can only do so at the very end of the address space.  The number that
`ReadBytes` gets comes from the packet, and there it takes no more than a length close to
`2 ^ 32`.  `bounded_reads` collects the six.
-/

namespace Nl6621.Edp

open Lib

/-! ### Bounded reads -/

/-- **A bounded read.**  The call returns and leaves the cursor inside the packet; when it
returns 0, the bytes consumed are a slice of the unread ones. -/
def Bounded {α : Type} (p : Proc Buffer α) (value : List UInt8 → α → Prop) (pkg : Buffer) :
    Prop :=
  ∃ r pkg', p pkg = .ok (r, pkg') ∧ pkg'.readPos ≤ pkg'.writePos ∧
    ∀ v, r = .ok v → ∃ x, pkg.readPos + x.length ≤ pkg.writePos ∧
      pkg.data.read pkg.readPos x.length = .ok x ∧ value x v ∧
        pkg' = { pkg with readPos := pkg.readPos + x.length }

/-- The number of bytes that `ReadRemainlen` asks for, when `k` digits are still admissible. -/
def digitsAsked : Nat → List UInt8 → Nat
  | 0, _ => 1
  | _ + 1, [] => 1
  | k + 1, b :: rest => if b.toNat < 128 then 1 else 1 + digitsAsked k rest

section Bounded

variable {α : Type} {p : Proc Buffer α} {value : List UInt8 → α → Prop} {pkg pkg' : Buffer}
  {pre rest : List UInt8}

theorem Bounded.of_ok {x : List UInt8} {v : α} (h : Packet pkg pre (x ++ rest))
    (hp : p pkg = .ok (.ok v, { pkg with readPos := pkg.readPos + x.length })) (hv : value x v) :
    Bounded p value pkg := by
  have hw := h.writePos
  rw [List.length_append] at hw
  refine ⟨_, _, hp, h.advance.le, ?_⟩
  rintro v' ⟨⟩
  refine ⟨x, ?_, ?_, hv, rfl⟩
  · rw [h.readPos]
    omega
  · rw [h.readPos]
    have hh : pkg.data.Holds (pre ++ x ++ rest) := by
      rw [List.append_assoc]
      exact h.holds
    exact Block.read_of_holds hh

theorem Bounded.of_error {c : Int} {b : Buffer} (hp : p pkg = .ok (.error c, b))
    (hle : b.readPos ≤ b.writePos) : Bounded p value pkg := by
  refine ⟨_, _, hp, hle, ?_⟩
  rintro v ⟨⟩

theorem not_bounded_of_fault (hp : p pkg = .fault) : ¬ Bounded p value pkg := by
  rintro ⟨r, pkg', h, -⟩
  rw [hp] at h
  cases h

/-! ### One byte -/

theorem nextByte_cases (h : pkg.data.length < 2 ^ 32) :
    nextByte pkg = .fault ∨ pkg.readPos + 1 < 2 ^ 32 ∧
      ∃ v, nextByte pkg = .ok (.ok v, { pkg with readPos := pkg.readPos + 1 }) := by
  cases hb : pkg.data.byteAt pkg.readPos with
  | ok b =>
    have hlt : pkg.readPos < pkg.data.length := by
      by_contra hge
      rw [Block.byteAt, List.getElem?_eq_none (by omega)] at hb
      cases hb
    refine .inr ⟨by omega, b.toNat, ?_⟩
    rw [nextByte, Proc.get_bind_apply, hb, u32_of_lt (by omega)]
    rfl
  | assertFail =>
    rw [Block.byteAt] at hb
    split at hb <;> cases hb
  | fault =>
    left
    rw [nextByte, Proc.get_bind_apply, hb]
    rfl

/-- At the end of the address space the comparison is passed. -/
theorem Packet.readByte_fault (h : Packet pkg pre []) (hge : 2 ^ 32 ≤ pkg.readPos + 1) :
    Edp.readByte pkg = .fault := by
  have hle := h.le
  have hlt := h.lt
  have halloc := h.allocated
  have hb : pkg.data.byteAt pkg.readPos = .fault := by
    rw [Block.byteAt, List.getElem?_eq_none (by omega)]
  rw [Edp.readByte, Proc.get_bind_apply, if_neg (by rw [u32]; omega), hb]
  rfl

theorem readByte_bounded_iff (h : Packet pkg pre rest) :
    Bounded readByte (fun x v => x = [v]) pkg ↔ pkg.readPos + 1 < 2 ^ 32 := by
  cases rest with
  | nil =>
    constructor
    · intro hb
      by_contra hge
      exact not_bounded_of_fault (h.readByte_fault (by omega)) hb
    · intro hlt
      exact .of_error (h.readByte_end hlt) h.le
  | cons b rest =>
    have hr := h.readPos
    have hw := h.writePos
    have hlt := h.lt
    rw [List.length_cons] at hw
    exact ⟨fun _ => by omega, fun _ => .of_ok (x := [b]) h h.readByte rfl⟩

/-! ### Fields of two and four bytes -/

theorem FieldRead.bounded {p : Proc Buffer Nat} {take : List UInt8 → Option (Nat × List UInt8)}
    {n : Nat} (hf : FieldRead p take n pkg rest) (h : Packet pkg pre rest) :
    Bounded p (fun x v => take x = some (v, [])) pkg := by
  cases hf with
  | short _ _ he => exact .of_error he h.le
  | field hrest hy hv _ hok =>
    subst hrest
    exact .of_ok h (hy ▸ hok) hv

theorem FieldRead.packet {p : Proc Buffer Nat} {take : List UInt8 → Option (Nat × List UInt8)}
    {n v : Nat} (hf : FieldRead p take n pkg rest) (h : Packet pkg pre rest)
    (hok : p pkg = .ok (.ok v, pkg')) :
    ∃ y pre' rest', Packet pkg' pre' rest' ∧ take y = some (v, []) ∧
      pkg'.readPos = pkg.readPos + n := by
  cases hf with
  | short _ _ he =>
    rw [he] at hok
    cases hok
  | @field y rest' v hrest hy hv _ hok' =>
    subst hrest
    rw [hok'] at hok
    cases hok
    exact ⟨y, pre ++ y, rest', hy ▸ h.advance, hv, rfl⟩

theorem Packet.readUint16_fault (h : Packet pkg pre rest) (hge : 2 ^ 32 ≤ pkg.readPos + 2) :
    Edp.readUint16 pkg = .fault := by
  have hle := h.le
  have hlt := h.lt
  rw [Edp.readUint16, Proc.get_bind_apply, if_neg (by rw [u32]; omega)]
  rcases nextByte_cases h.allocated with hf | ⟨hlt1, v, hok⟩
  · rw [Proc.bind_fault hf]
  · rw [Proc.bind_ok hok]
    have halloc : ({ pkg with readPos := pkg.readPos + 1 } : Buffer).data.length < 2 ^ 32 :=
      h.allocated
    rcases nextByte_cases halloc with hf | ⟨hlt2, -⟩
    · rw [Proc.bind_fault hf]
    · exact absurd hlt2 (by show ¬ pkg.readPos + 1 + 1 < 2 ^ 32; omega)

theorem readUint16_bounded_iff (h : Packet pkg pre rest) :
    Bounded readUint16 (fun x v => takeU16 x = some (v, [])) pkg ↔ pkg.readPos + 2 < 2 ^ 32 := by
  constructor
  · intro hb
    by_contra hge
    exact not_bounded_of_fault (h.readUint16_fault (by omega)) hb
  · exact fun hlt => (h.readUint16 hlt).bounded h

/-- Bytes that reach the end of the address space are not all there. -/
theorem readUint32Loop_fault : ∀ (i tmpval : Nat) {pkg : Buffer}, pkg.data.length < 2 ^ 32 →
    pkg.readPos < 2 ^ 32 → 2 ^ 32 ≤ pkg.readPos + i → readUint32Loop i tmpval pkg = .fault := by
  intro i
  induction i with
  | zero =>
    intro tmpval pkg _ hlt hge
    omega
  | succ i ih =>
    intro tmpval pkg halloc hlt hge
    rw [readUint32Loop]
    rcases nextByte_cases halloc with hf | ⟨hlt1, v, hok⟩
    · rw [Proc.bind_fault hf]
    · rw [Proc.bind_ok hok]
      apply ih
      · exact halloc
      · exact hlt1
      · show 2 ^ 32 ≤ pkg.readPos + 1 + i
        omega

theorem Packet.readUint32_fault (h : Packet pkg pre rest) (hge : 2 ^ 32 ≤ pkg.readPos + 4) :
    Edp.readUint32 pkg = .fault := by
  have hle := h.le
  have hlt := h.lt
  rw [Edp.readUint32, Proc.get_bind_apply, if_neg (by rw [u32]; omega)]
  exact readUint32Loop_fault 4 0 h.allocated (by omega) hge

theorem readUint32_bounded_iff (h : Packet pkg pre rest) :
    Bounded readUint32 (fun x v => takeU32 x = some (v, [])) pkg ↔ pkg.readPos + 4 < 2 ^ 32 := by
  constructor
  · intro hb
    by_contra hge
    exact not_bounded_of_fault (h.readUint32_fault (by omega)) hb
  · exact fun hlt => (h.readUint32 hlt).bounded h

theorem Packet.readUint16_packet {n : Nat} (h : Packet pkg pre rest)
    (hok : Edp.readUint16 pkg = .ok (.ok n, pkg')) :
    ∃ pre' rest', Packet pkg' pre' rest' ∧ n < 2 ^ 16 ∧ pkg'.readPos = pkg.readPos + 2 := by
  by_cases hlt : pkg.readPos + 2 < 2 ^ 32
  · obtain ⟨y, pre', rest', h', hy, hpos⟩ := (h.readUint16 hlt).packet h hok
    exact ⟨pre', rest', h', (takeU16_lt hy).1, hpos⟩
  · rw [h.readUint16_fault (by omega)] at hok
    cases hok

theorem Packet.readUint32_packet {n : Nat} (h : Packet pkg pre rest)
    (hok : Edp.readUint32 pkg = .ok (.ok n, pkg')) :
    ∃ pre' rest', Packet pkg' pre' rest' ∧ n < 2 ^ 32 ∧ pkg'.readPos = pkg.readPos + 4 := by
  by_cases hlt : pkg.readPos + 4 < 2 ^ 32
  · obtain ⟨y, pre', rest', h', hy, hpos⟩ := (h.readUint32 hlt).packet h hok
    exact ⟨pre', rest', h', (takeU32_lt hy).1, hpos⟩
  · rw [h.readUint32_fault (by omega)] at hok
    cases hok

/-! ### Counted bytes -/

theorem readBytes_bounded_iff {count : Nat} (h : Packet pkg pre rest) (hc : count < 2 ^ 32) :
    Bounded (readBytes count) (fun x v => x = v ∧ x.length = count) pkg ↔
      pkg.readPos + count < 2 ^ 32 := by
  constructor
  · intro hb
    by_contra hge
    exact not_bounded_of_fault (h.readBytes_fault hc (by omega)) hb
  · intro hsum
    by_cases hlen : count ≤ rest.length
    · obtain ⟨x, rest', rfl, rfl⟩ := split_at hlen
      exact .of_ok h h.readBytes ⟨rfl, rfl⟩
    · exact .of_error (h.readBytes_end (by omega) hsum) h.le

/-! ### Strings -/

theorem takeU16_append {y : List UInt8} {n : Nat} (h : takeU16 y = some (n, []))
    (tail : List UInt8) : takeU16 (y ++ tail) = some (n, tail) := by
  match y, h with
  | a :: b :: y, h =>
    simp only [takeU16, Option.some.injEq, Prod.mk.injEq] at h
    rw [h.2, List.cons_append, List.cons_append, List.nil_append, takeU16, h.1]

theorem readStr_bounded_iff (h : Packet pkg pre rest) :
    Bounded readStr (fun x v => ∃ str, takeStr x = some (str, []) ∧ v = strncpy str) pkg ↔
      pkg.readPos + 2 < 2 ^ 32 ∧
        ∀ len tail, takeU16 rest = some (len, tail) → pkg.readPos + 2 + len < 2 ^ 32 := by
  by_cases hlt2 : pkg.readPos + 2 < 2 ^ 32
  · cases h.readUint16 hlt2 with
    | short _ hnone he =>
      rw [hnone]
      have hstr : readStr pkg = .ok (.error (-1), pkg) := by
        rw [readStr, Proc.bind_error he]
      exact ⟨fun _ => ⟨hlt2, fun len tail ht => by cases ht⟩, fun _ => .of_error hstr h.le⟩
    | @field y rest' n hrest hy hn htake hok =>
      subst hrest
      have h2 : Packet { pkg with readPos := pkg.readPos + 2 } (pre ++ y) rest' := hy ▸ h.advance
      have hn16 := (takeU16_lt hn).1
      rw [htake]
      constructor
      · intro hb
        refine ⟨hlt2, ?_⟩
        rintro len tail ⟨⟩
        by_contra hge
        refine not_bounded_of_fault ?_ hb
        rw [readStr_eq hok, Proc.bind_fault (h2.readBytes_fault (by omega) (Nat.le_of_not_lt hge))]
      · rintro ⟨-, hall⟩
        by_cases hlen : n ≤ rest'.length
        · obtain ⟨str, rest'', rfl, rfl⟩ := split_at hlen
          have hval : takeStr (y ++ str) = some (str, []) := by
            rw [takeStr, takeU16_append hn, Option.bind_some]
            show takeN str.length str = _
            rw [takeN, if_pos (Nat.le_refl _), List.take_length, List.drop_length]
          have hpos : pkg.readPos + (y ++ str).length = pkg.readPos + 2 + str.length := by
            rw [List.length_append, hy, Nat.add_assoc]
          rw [← List.append_assoc] at h
          refine .of_ok (x := y ++ str) (v := strncpy str) h ?_ ⟨str, hval, rfl⟩
          rw [readStr_eq hok, Proc.bind_ok h2.readBytes, hpos]
          rfl
        · have hstr : readStr pkg = .ok (.error (-1), { pkg with readPos := pkg.readPos + 2 }) := by
            rw [readStr_eq hok, Proc.bind_error (h2.readBytes_end (by omega) (hall n rest' rfl))]
          exact .of_error hstr h2.le
  · refine ⟨fun hb => absurd hb (not_bounded_of_fault ?_), fun hlt2' => absurd hlt2'.1 hlt2⟩
    rw [readStr, Proc.bind_fault (h.readUint16_fault (by omega))]

/-! ### The remaining length -/

/-- The digit loop of `ReadRemainlen`, with `i` digits consumed: it reads a length field that
is there, gives up, or asks for a byte at the end of the address space. -/
theorem readRemainlenLoop_cases : ∀ (k i lenVal : Nat) {pkg : Buffer} {pre rest : List UInt8},
    i + k = 3 → lenVal < 128 ^ i → Packet pkg pre rest →
    (∃ x rest' v, rest = x ++ rest' ∧ decodeLen k x = .done v [] ∧
      x.length = digitsAsked (k + 1) rest ∧
      readRemainlenLoop (k + 1) (128 ^ i) lenVal pkg =
        .ok (.ok (lenVal + 128 ^ i * v), { pkg with readPos := pkg.readPos + x.length })) ∨
    (pkg.readPos + digitsAsked (k + 1) rest < 2 ^ 32 ∧ ∃ pkg',
      readRemainlenLoop (k + 1) (128 ^ i) lenVal pkg = .ok (.error (-1), pkg') ∧
        pkg'.readPos ≤ pkg'.writePos) ∨
    (2 ^ 32 ≤ pkg.readPos + digitsAsked (k + 1) rest ∧
      readRemainlenLoop (k + 1) (128 ^ i) lenVal pkg = .fault) := by
  -- a byte that is not there ends the loop, in one of two ways
  have hend : ∀ (k multiplier lenVal : Nat) {pkg : Buffer} {pre : List UInt8}, Packet pkg pre [] →
      (pkg.readPos + 1 < 2 ^ 32 ∧
        readRemainlenLoop k multiplier lenVal pkg = .ok (.error (-1), pkg)) ∨
      (2 ^ 32 ≤ pkg.readPos + 1 ∧ readRemainlenLoop k multiplier lenVal pkg = .fault) := by
    intro k multiplier lenVal pkg pre h
    by_cases hlt : pkg.readPos + 1 < 2 ^ 32
    · refine .inl ⟨hlt, ?_⟩
      cases k <;> rw [readRemainlenLoop, Proc.bind_error (h.readByte_end hlt)]
    · refine .inr ⟨by omega, ?_⟩
      cases k <;> rw [readRemainlenLoop, Proc.bind_fault (h.readByte_fault (by omega))]
  intro k
  induction k with
  | zero =>
    intro i lenVal pkg pre rest hi hlv h
    obtain rfl : i = 3 := by omega
    cases rest with
    | nil =>
      rcases hend 1 (128 ^ 3) lenVal h with ⟨hlt, he⟩ | ⟨hge, hf⟩
      · exact .inr (.inl ⟨hlt, pkg, he, h.le⟩)
      · exact .inr (.inr ⟨hge, hf⟩)
    | cons b r =>
      have hb := b.toNat_lt
      have h1 : Packet { pkg with readPos := pkg.readPos + 1 } (pre ++ [b]) r :=
        h.advance (x := [b])
      by_cases hlast : b.toNat < 128
      · refine .inl ⟨[b], r, b.toNat, rfl, ?_, ?_, ?_⟩
        · rw [decodeLen, if_pos hlast]
        · rw [digitsAsked, if_pos hlast]
          rfl
        · rw [readRemainlenLoop, Proc.bind_ok h.readByte, if_neg (by
            rw [ne_eq, not_not]; exact (land_128_eq_zero hb).mpr hlast), Proc.pure_apply, land_127,
            Nat.mod_eq_of_lt hlast, u32_of_lt (by omega), Nat.mul_comm]
          rfl
      · -- the fourth digit asks for a fifth
        have hasked : digitsAsked 1 (b :: r) = 2 := by rw [digitsAsked, if_neg hlast]; rfl
        have hloop : readRemainlenLoop 1 (128 ^ 3) lenVal pkg =
            readRemainlenLoop 0 (u32 (128 ^ 3 * 0x80)) (u32 (lenVal + (b.toNat &&& 0x7f) * 128 ^ 3))
              { pkg with readPos := pkg.readPos + 1 } := by
          conv_lhs => rw [readRemainlenLoop]
          rw [Proc.bind_ok h.readByte, if_pos (by
            rw [ne_eq, land_128_eq_zero hb]; exact hlast)]
        rw [hasked, hloop]
        right
        cases r with
        | nil =>
          rcases hend 0 (u32 (128 ^ 3 * 0x80)) (u32 (lenVal + (b.toNat &&& 0x7f) * 128 ^ 3)) h1 with
            ⟨hlt, he⟩ | ⟨hge, hf⟩
          · exact .inl ⟨hlt, _, he, h1.le⟩
          · exact .inr ⟨hge, hf⟩
        | cons c r =>
          have h2 : Packet { pkg with readPos := pkg.readPos + 1 + 1 } (pre ++ [b] ++ [c]) r :=
            h1.advance (x := [c])
          have hle := h2.le
          have hlt := h2.lt
          have hr := h.readPos
          have hw := h.writePos
          simp only [List.length_cons] at hw hle hlt
          refine .inl ⟨by omega, _, ?_, h2.le⟩
          rw [readRemainlenLoop, Proc.bind_ok h1.readByte]
          rfl
  | succ k ih =>
    intro i lenVal pkg pre rest hi hlv h
    have hmul : (128 : Nat) ^ (i + 1) = 128 * 128 ^ i := by rw [Nat.pow_succ, Nat.mul_comm]
    have hsmall : (128 : Nat) ^ (i + 1) ≤ 128 ^ 3 := Nat.pow_le_pow_right (by omega) (by omega)
    cases rest with
    | nil =>
      rcases hend (k + 1 + 1) (128 ^ i) lenVal h with ⟨hlt, he⟩ | ⟨hge, hf⟩
      · exact .inr (.inl ⟨hlt, pkg, he, h.le⟩)
      · exact .inr (.inr ⟨hge, hf⟩)
    | cons b r =>
      have hb := b.toNat_lt
      have h1 : Packet { pkg with readPos := pkg.readPos + 1 } (pre ++ [b]) r :=
        h.advance (x := [b])
      have hdigit : (b.toNat &&& 0x7f) * 128 ^ i ≤ 127 * 128 ^ i := by
        rw [land_127]
        exact Nat.mul_le_mul_right _ (by omega)
      have hval : u32 (lenVal + (b.toNat &&& 0x7f) * 128 ^ i) =
          lenVal + (b.toNat &&& 0x7f) * 128 ^ i := u32_of_lt (by omega)
      by_cases hlast : b.toNat < 128
      · refine .inl ⟨[b], r, b.toNat, rfl, ?_, ?_, ?_⟩
        · rw [decodeLen, if_pos hlast]
        · rw [digitsAsked, if_pos hlast]
          rfl
        · rw [readRemainlenLoop, Proc.bind_ok h.readByte, if_neg (by
            rw [ne_eq, not_not]; exact (land_128_eq_zero hb).mpr hlast), Proc.pure_apply, hval,
            land_127, Nat.mod_eq_of_lt hlast, Nat.mul_comm]
          rfl
      · have hasked : digitsAsked (k + 1 + 1) (b :: r) = 1 + digitsAsked (k + 1) r := by
          rw [digitsAsked, if_neg hlast]
        have hloop : readRemainlenLoop (k + 1 + 1) (128 ^ i) lenVal pkg =
            readRemainlenLoop (k + 1) (128 ^ (i + 1)) (lenVal + (b.toNat &&& 0x7f) * 128 ^ i)
              { pkg with readPos := pkg.readPos + 1 } := by
          rw [readRemainlenLoop, Proc.bind_ok h.readByte, if_pos (by
            rw [ne_eq, land_128_eq_zero hb]; exact hlast), hval, u32_of_lt (by omega),
            Nat.pow_succ]
        have hrest := ih (i + 1) (lenVal + (b.toNat &&& 0x7f) * 128 ^ i) (by omega) (by omega) h1
        rw [hasked, hloop, ← Nat.add_assoc]
        rcases hrest with ⟨x, rest', v, rfl, hx, hlen, hok⟩ | hrest
        · refine .inl ⟨b :: x, rest', b.toNat - 128 + 128 * v, rfl, ?_, ?_, ?_⟩
          · rw [decodeLen, if_neg hlast, hx, LenField.push]
          · rw [List.length_cons, hlen, Nat.add_comm]
          · rw [hok, List.length_cons, land_127, hmul]
            have hsub : b.toNat % 128 = b.toNat - 128 := by omega
            rw [hsub, Nat.add_comm x.length 1, ← Nat.add_assoc]
            congr 3
            ring
        · exact .inr hrest

theorem readRemainlen_bounded_iff (h : Packet pkg pre rest) :
    Bounded readRemainlen (fun x v => decodeLen 3 x = .done v []) pkg ↔
      pkg.readPos + digitsAsked 4 rest < 2 ^ 32 := by
  have hloop := readRemainlenLoop_cases 3 0 0 rfl (by omega) h
  rw [Nat.pow_zero] at hloop
  rcases hloop with ⟨x, rest', v, rfl, hx, hlen, hok⟩ | ⟨hlt, pkg', he, hle⟩ | ⟨hge, hf⟩
  · have hle := h.advance.le
    have hlt := h.lt
    simp only at hle
    rw [← hlen]
    refine ⟨fun _ => by omega, fun _ => .of_ok (v := v) h ?_ hx⟩
    rw [readRemainlen, hok, Nat.zero_add, Nat.one_mul]
  · exact ⟨fun _ => hlt, fun _ => .of_error he hle⟩
  · exact ⟨fun hb => absurd hb (not_bounded_of_fault hf), fun hlt => absurd hlt (not_lt.mpr hge)⟩

/-! ### The law -/

/-- **When the six readers keep to their bounds.**  Each of them does if and only if the cursor
and the number of bytes it asks for do not add up to `2 ^ 32`; the last two parts are about a
count that was read from the packet itself. -/
theorem bounded_reads {pkg : Buffer} {pre rest : List UInt8} (h : Packet pkg pre rest) :
    (Bounded readByte (fun x v => x = [v]) pkg ↔ pkg.readPos + 1 < 2 ^ 32) ∧
    (Bounded readUint16 (fun x v => takeU16 x = some (v, [])) pkg ↔ pkg.readPos + 2 < 2 ^ 32) ∧
    (Bounded readUint32 (fun x v => takeU32 x = some (v, [])) pkg ↔ pkg.readPos + 4 < 2 ^ 32) ∧
    (∀ count : UInt32,
      Bounded (readBytes count.toNat) (fun x v => x = v ∧ x.length = count.toNat) pkg ↔
        pkg.readPos + count.toNat < 2 ^ 32) ∧
    (Bounded readStr (fun x v => ∃ str, takeStr x = some (str, []) ∧ v = strncpy str) pkg ↔
      pkg.readPos + 2 < 2 ^ 32 ∧
        ∀ len tail, takeU16 rest = some (len, tail) → pkg.readPos + 2 + len < 2 ^ 32) ∧
    (Bounded readRemainlen (fun x v => decodeLen 3 x = .done v []) pkg ↔
      pkg.readPos + digitsAsked 4 rest < 2 ^ 32) ∧
    (∀ n pkg', readUint16 pkg = .ok (.ok n, pkg') →
      (Bounded (readBytes n) (fun x v => x = v ∧ x.length = n) pkg' ↔
        pkg.readPos + 2 + n < 2 ^ 32)) ∧
    (∀ n pkg', readUint32 pkg = .ok (.ok n, pkg') →
      (Bounded (readBytes n) (fun x v => x = v ∧ x.length = n) pkg' ↔
        pkg.readPos + 4 + n < 2 ^ 32)) := by
  refine ⟨readByte_bounded_iff h, readUint16_bounded_iff h, readUint32_bounded_iff h,
    fun count => readBytes_bounded_iff h count.toNat_lt, readStr_bounded_iff h,
    readRemainlen_bounded_iff h, fun n pkg' hok => ?_, fun n pkg' hok => ?_⟩
  · obtain ⟨pre', rest', h', hn, hpos⟩ := h.readUint16_packet hok
    rw [readBytes_bounded_iff h' (by omega), hpos]
  · obtain ⟨pre', rest', h', hn, hpos⟩ := h.readUint32_packet hok
    rw [readBytes_bounded_iff h' hn, hpos]

end Bounded

/-- A command request whose `req_len` is the largest there is, with the cursor behind the type. -/
def greedyCmdReq : Buffer where
  data := [0xA0, 6, 0, 0, 255, 255, 255, 255].map some
  writePos := 8
  readPos := 1
  capacity := 8

theorem bounded_reads_greedyCmdReq :
    Bounded readRemainlen (fun x v => decodeLen 3 x = .done v []) greedyCmdReq := by
  have hpkt : Packet greedyCmdReq [0xA0] [6, 0, 0, 255, 255, 255, 255] :=
    ⟨rfl, rfl, rfl, by decide⟩
  exact (bounded_reads hpkt).2.2.2.2.2.1.mpr (by decide)

/-- `UnpackCmdReq` copies 4294967295 bytes from the end of that packet. -/
theorem readBytes_unbounded :
    ¬ Bounded (readBytes 4294967295) (fun x v => x = v ∧ x.length = 4294967295)
        { greedyCmdReq with readPos := 8 } ∧
      unpackCmdReq (fun _ => id) (fun _ => id) (fun _ => id) (fun _ => id) (greedyCmdReq, ()) =
        .fault := by
  refine ⟨fun hb => ?_, rfl⟩
  have hpkt : Packet { greedyCmdReq with readPos := 8 } [0xA0, 6, 0, 0, 255, 255, 255, 255] [] :=
    ⟨rfl, rfl, rfl, by decide⟩
  have hlt := (readBytes_bounded_iff hpkt (by omega)).mp hb
  exact absurd hlt (by decide)

end Nl6621.Edp
