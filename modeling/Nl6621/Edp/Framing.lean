import Nl6621.Edp.Kit
import Nl6621.Edp.Read

/-!
# Frames

A frame is a type byte, a length field and as many bytes as the field says.
`frameLen bs` is the length of the frame a byte list starts with: 0 when the
list is too short to tell or to hold it, -1 when the length field has no end.

`isPkgComplete_of_contains` says that `IsPkgComplete` computes exactly that, and
`getEdpPacket_some` and `getEdpPacket_none` say what `GetEdpPacket` does with
it: it copies the frame into a fresh packet, and the receive buffer keeps the
bytes behind the frame.
-/

namespace Nl6621.Edp

open Lib

/-- A packet of type `t` around `body`. -/
def frame (t : UInt8) (body : List UInt8) : List UInt8 :=
  t :: (encodeRemainlen body.length ++ body)

/-- The length of the frame the bytes start with. -/
def frameLen : List UInt8 → Int
  | [] => 0
  | _ :: tl =>
    match decodeLen 3 tl with
    | .short => 0
    | .long => -1
    | .done v rest => if v ≤ rest.length then ((1 + (tl.length - rest.length) + v : Nat) : Int) else 0

theorem frameLen_frame {t : UInt8} {body : List UInt8} (h : body.length < 2 ^ 28)
    (tail : List UInt8) : frameLen (frame t body ++ tail) = ((frame t body).length : Int) := by
  have hd : decodeLen 3 (encodeRemainlen body.length ++ (body ++ tail)) =
      .done body.length (body ++ tail) := decodeLen_lenDigits 3 _ (by omega) _
  simp only [frame, List.cons_append, List.append_assoc, frameLen, hd, List.length_append,
    List.length_cons]
  rw [if_pos (by omega)]
  congr 1
  omega

/-- **A frame is never longer than what it was found in.** -/
theorem frameLen_le (bs : List UInt8) : frameLen bs ≤ bs.length := by
  cases bs with
  | nil => simp [frameLen]
  | cons t tl =>
    rw [frameLen]
    cases hd : decodeLen 3 tl with
    | short => simp only [List.length_cons]; omega
    | long => simp only [List.length_cons]; omega
    | done v rest =>
      obtain ⟨ds, rfl, -⟩ := decodeLen_done 3 tl v rest hd
      simp only [List.length_append, List.length_cons]
      split <;> omega

/-- The bytes of a complete frame, taken apart. -/
theorem frameLen_pos {bs : List UInt8} (h : 0 < frameLen bs) :
    ∃ t tl v rest, bs = t :: tl ∧ decodeLen 3 tl = .done v rest ∧ v ≤ rest.length ∧
      frameLen bs = ((1 + (tl.length - rest.length) + v : Nat) : Int) := by
  cases bs with
  | nil => simp [frameLen] at h
  | cons t tl =>
    cases hd : decodeLen 3 tl with
    | short => simp [frameLen, hd] at h
    | long => simp [frameLen, hd] at h
    | done v rest =>
      by_cases hv : v ≤ rest.length
      · exact ⟨t, tl, v, rest, rfl, hd, hv, by simp only [frameLen, hd, if_pos hv]⟩
      · simp [frameLen, hd, hv] at h

/-! ### `IsPkgComplete` -/

/-- A buffer with the bytes `bs` to be cut into packets. -/
structure Received (buf : Buffer) (bs : List UInt8) : Prop where
  readPos : buf.readPos = 0
  writePos : buf.writePos = bs.length
  holds : buf.data.Holds bs
  small : bs.length < 2 ^ 31

theorem Filled.received {buf : Buffer} {bs : List UInt8} (h : Filled buf bs)
    (hs : bs.length < 2 ^ 31) : Received buf bs :=
  ⟨h.readPos, h.writePos, h.holds, hs⟩

/-- The bytes up to the write position. -/
structure Contains (buf : Buffer) (bs : List UInt8) : Prop where
  writePos : buf.writePos = bs.length
  holds : buf.data.Holds bs

theorem Received.contains {buf : Buffer} {bs : List UInt8} (h : Received buf bs) :
    Contains buf bs :=
  ⟨h.writePos, h.holds⟩

/-- What the digit loop leaves, for the bytes `r` behind the digits read so far. -/
def loopResult (total lenVal i : Nat) : LenField → Int ⊕ (Nat × Nat)
  | .short => .inl 0
  | .long => .inl (-1)
  | .done v rest => .inr (total - rest.length, lenVal + 128 ^ i * v)

theorem isPkgCompleteLoop_eq : ∀ (k i lenVal : Nat) {buf : Buffer} {pre r : List UInt8},
    i + k = 3 → lenVal < 128 ^ i → pre.length = i + 1 → Contains buf (pre ++ r) →
      isPkgCompleteLoop buf (k + 1) (i + 1) (128 ^ i) lenVal =
        .ok (loopResult (pre ++ r).length lenVal i (decodeLen k r)) := by
  intro k
  induction k with
  | zero =>
    intro i lenVal buf pre r hi hlv hpre h
    obtain rfl : i = 3 := by omega
    have hw := h.writePos
    rw [List.length_append] at hw
    cases r with
    | nil =>
      rw [isPkgCompleteLoop, if_pos (by rw [List.length_nil] at hw; omega)]
      rfl
    | cons b r =>
      have hb := b.toNat_lt
      rw [List.length_cons] at hw
      have hat : buf.data.byteAt (3 + 1) = .ok b := by
        rw [← hpre]; exact Block.byteAt_of_holds h.holds
      rw [isPkgCompleteLoop, if_neg (by omega), hat, Outcome.ok_bind, decodeLen]
      by_cases hlast : b.toNat < 128
      · rw [if_neg (by rw [ne_eq, not_not]; exact (land_128_eq_zero hb).mpr hlast), if_pos hlast,
          loopResult, land_127, Nat.mod_eq_of_lt hlast, u32_of_lt (by omega), List.length_append,
          List.length_cons, hpre, Nat.mul_comm (128 ^ 3)]
        congr 3
        omega
      · rw [if_pos (by rw [ne_eq, land_128_eq_zero hb]; exact hlast), if_neg hlast,
          isPkgCompleteLoop]
        rfl
  | succ k ih =>
    intro i lenVal buf pre r hi hlv hpre h
    have hw := h.writePos
    have hmul : (128 : Nat) ^ (i + 1) = 128 * 128 ^ i := by rw [Nat.pow_succ, Nat.mul_comm]
    have hsmall : (128 : Nat) ^ (i + 1) ≤ 128 ^ 3 := Nat.pow_le_pow_right (by omega) (by omega)
    rw [List.length_append] at hw
    cases r with
    | nil =>
      rw [isPkgCompleteLoop, if_pos (by rw [List.length_nil] at hw; omega)]
      rfl
    | cons b r =>
      have hb := b.toNat_lt
      rw [List.length_cons] at hw
      have hat : buf.data.byteAt (i + 1) = .ok b := by
        rw [← hpre]; exact Block.byteAt_of_holds h.holds
      have hdigit : b.toNat % 128 * 128 ^ i ≤ 127 * 128 ^ i :=
        Nat.mul_le_mul_right _ (by omega)
      rw [isPkgCompleteLoop, if_neg (by omega), hat, Outcome.ok_bind, decodeLen, land_127,
        u32_of_lt (by omega)]
      by_cases hlast : b.toNat < 128
      · rw [if_neg (by rw [ne_eq, not_not]; exact (land_128_eq_zero hb).mpr hlast), if_pos hlast,
          loopResult, Nat.mod_eq_of_lt hlast, List.length_append, List.length_cons, hpre,
          Nat.mul_comm (128 ^ i)]
        congr 3
        omega
      · have h' : Contains buf ((pre ++ [b]) ++ r) := by
          rw [List.append_assoc]; exact h
        rw [if_pos (by rw [ne_eq, land_128_eq_zero hb]; exact hlast), if_neg hlast,
          u32_of_lt (by omega), Nat.mul_comm (128 ^ i) 0x80, ← hmul,
          ih (i + 1) _ (by omega) (by omega) (by simp [hpre]) h']
        cases decodeLen k r with
        | short => rfl
        | long => rfl
        | done w rest =>
          simp only [loopResult, LenField.push]
          congr 3
          · simp
          · rw [hmul, show b.toNat % 128 = b.toNat - 128 by omega]
            ring

/-- **`IsPkgComplete` computes the length of the frame its buffer starts with**, and looks at
nothing behind the write position. -/
theorem isPkgComplete_of_contains {buf : Buffer} {bs : List UInt8} (h : Contains buf bs) :
    isPkgComplete buf = .ok (frameLen bs) := by
  have hw := h.writePos
  match bs, h with
  | [], _ => rw [isPkgComplete, if_pos (by rw [hw]; simp)]; rfl
  | [t], _ => rw [isPkgComplete, if_pos (by rw [hw]; simp)]; rfl
  | t :: b :: tl, h =>
    have h' : Contains buf ([t] ++ b :: tl) := h
    have hloop := isPkgCompleteLoop_eq 3 0 0 rfl (by omega) rfl h'
    rw [isPkgComplete, if_neg (by rw [hw]; simp)]
    rw [show isPkgCompleteLoop buf 4 1 1 0 = _ from hloop, Outcome.ok_bind, frameLen]
    cases hd : decodeLen 3 (b :: tl) with
    | short => rfl
    | long => rfl
    | done v rest =>
      obtain ⟨ds, he, hds1, hds2, hv, -⟩ := decodeLen_done 3 _ v rest hd
      have hlen : (b :: tl).length = ds.length + rest.length := by rw [he, List.length_append]
      simp only [List.length_cons] at hlen hw
      simp only [loopResult, List.singleton_append, List.length_cons, Nat.zero_add, Nat.pow_zero,
        Nat.one_mul, hw]
      rw [u32_of_lt (by omega)]
      by_cases hfit : v ≤ rest.length
      · rw [if_pos (by omega), if_pos hfit]
        congr 2
        omega
      · rw [if_neg (by omega), if_neg hfit]

theorem isPkgComplete_eq {buf : Buffer} {bs : List UInt8} (h : Received buf bs) :
    isPkgComplete buf = .ok (frameLen bs) :=
  isPkgComplete_of_contains h.contains

/-! ### `GetEdpPacket` -/

theorem getEdpPacket_none {buf : Buffer} {bs : List UInt8} (h : Received buf bs)
    (hn : frameLen bs ≤ 0) : getEdpPacket buf = .ok (none, buf) := by
  rw [getEdpPacket, isPkgComplete_eq h, Outcome.ok_bind, if_pos h.readPos, if_pos hn]

/-- Shifting the bytes behind the first `n` to the front of the buffer. -/
theorem shift_received {buf : Buffer} {bs : List UInt8} (h : Received buf bs) {n size : Nat}
    (hn : n ≤ bs.length) (hsize : size ≤ bs.length - n) :
    ∃ data, Sys.moveForward size 0 n buf.data = .ok data ∧ data.length = buf.data.length ∧
      (size = bs.length - n → data.Holds (bs.drop n)) := by
  have hlen := h.holds.length_le
  obtain ⟨data, hrun, hdl, hget⟩ := Sys.moveForward_spec size 0 n buf.data (by omega) (by omega)
  refine ⟨data, hrun, hdl, fun hall => ?_⟩
  rw [Block.holds_iff]
  intro i hi
  rw [List.length_drop] at hi
  rw [hget i, if_pos (by omega), Nat.sub_zero, Block.holds_iff.mp h.holds (n + i) (by omega),
    List.getElem?_drop]

/-- **`GetEdpPacket` cuts the first frame off.**  The packet holds the frame and
nothing else.  The shift takes a 16-bit size; when the bytes behind the frame
are fewer than `2 ^ 16`, the buffer is left with exactly these bytes. -/
theorem getEdpPacket_some {buf : Buffer} {bs : List UInt8} (h : Received buf bs)
    (hn : 0 < frameLen bs) :
    ∃ pkg buf', getEdpPacket buf = .ok (some pkg, buf') ∧
      Filled pkg (bs.take (frameLen bs).toNat) ∧ buf'.data.length = buf.data.length ∧
      (bs.length - (frameLen bs).toNat < 2 ^ 16 →
        Received buf' (bs.drop (frameLen bs).toNat)) := by
  have hle := frameLen_le bs
  have hs := h.small
  have hw := h.writePos
  obtain ⟨n, hfl⟩ : ∃ n : Nat, frameLen bs = n := ⟨(frameLen bs).toNat, by omega⟩
  rw [hfl] at hn hle ⊢
  rw [Int.toNat_natCast]
  have hn' : n ≤ bs.length := by omega
  have htake : (bs.take n).length = n := by rw [List.length_take]; omega
  have hread : buf.data.read 0 n = .ok (bs.take n) := by
    have hh : buf.data.Holds ([] ++ bs.take n ++ bs.drop n) := by simpa using h.holds
    have := Block.read_of_holds hh
    rwa [htake] at this
  obtain ⟨pkg, hwrite, hpkg⟩ := writeBytes_filled filled_newBuffer (bs.take n)
    (by rw [List.length_nil, htake]; omega)
  have hbuild : buildPacket (writeBytes (bs.take n)).void = .ok pkg := by
    rw [buildPacket, Proc.void_ok hwrite]
    rfl
  have hsub : sub32 buf.writePos n = bs.length - n := by
    rw [hw, sub32_of_le (by omega) hn']
  obtain ⟨data, hmove, hdl, hholds⟩ := shift_received h hn'
    (Nat.mod_le (bs.length - n) (2 ^ 16))
  refine ⟨pkg, { buf with data := data, writePos := bs.length - n }, ?_, hpkg, hdl, ?_⟩
  · rw [getEdpPacket, isPkgComplete_eq h, Outcome.ok_bind, if_pos h.readPos, hfl,
      if_neg (by omega), Int.toNat_natCast, hread, Outcome.ok_bind, hbuild, Outcome.ok_bind, hsub,
      Sys.nstMoveMemOvlap, if_neg (by omega), hmove, Outcome.ok_bind]
  · intro h16
    refine ⟨h.readPos, by rw [List.length_drop], hholds (Nat.mod_eq_of_lt h16), ?_⟩
    rw [List.length_drop]
    omega

end Nl6621.Edp
