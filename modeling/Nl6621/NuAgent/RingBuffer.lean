import Mathlib.Data.List.Basic
import Nl6621.Lib.Memory
import Nl6621.Lib.Fifo
import Nl6621.Lib.While
import Nl6621.Lib.Words

/-!
# The ring buffer

The ring of `ring_buffer.c`: `size`, `head` and `tail` are of type `unsigned int`, the
counts that go in and come out are of type `int`, and both are words here.  The bytes lie from
`head` up to `tail`, around the end of `buffer`, and one cell stays free because `head = tail`
means empty.

`Stores ring q` says that the ring holds the queue `q`.  Every index formula has one lemma that
reads it as a number in such a ring, and the two copies that the loops are made of have one
each: storing at `tail` appends (`Stores.copyIn`), loading at `head` removes
(`Stores.copyOut`).
-/

namespace Nl6621.NuAgent

open Lib

/-! ### The functions of the source -/

structure RingBuffer where
  size : UInt32
  head : UInt32
  tail : UInt32
  buffer : Block

def ringBufClear (ring : RingBuffer) : RingBuffer := { ring with tail := 0, head := 0 }

def ringBufEmpty (ring : RingBuffer) : Bool := ring.tail == ring.head

def ringBufFull (ring : RingBuffer) : Bool := (ring.tail + 1) % ring.size == ring.head

def ringBufCnt (ring : RingBuffer) : Int32 :=
  if ring.tail ≥ ring.head then (ring.tail - ring.head).toInt32
  else (ring.size + ring.tail - ring.head).toInt32

def ringBufSpace (ring : RingBuffer) : Int32 :=
  if ring.head > ring.tail then (ring.head - ring.tail - 1).toInt32
  else (ring.size - 1 + ring.head - ring.tail).toInt32

def ringBufCntToEnd (ring : RingBuffer) : Int32 :=
  if ring.tail ≥ ring.head then (ring.tail - ring.head).toInt32
  else (ring.size - ring.head).toInt32

def ringBufSpaceToEnd (ring : RingBuffer) : Int32 :=
  if ring.head > ring.tail then (ring.head - ring.tail - 1).toInt32
  else ((ring.size - 1) - ring.tail + (if ring.head > 0 then 1 else 0)).toInt32

def ringBufWriteChar (cb : RingBuffer) (data : UInt8) : Outcome (RingBuffer × Int32) :=
  if !ringBufFull cb then do
    let buffer ← cb.buffer.store cb.tail.toNat [some data]
    let cb := { cb with buffer, tail := cb.tail + 1 }
    let cb := if cb.tail ≥ cb.size then { cb with tail := cb.tail - cb.size } else cb
    .ok (cb, 1)
  else .ok (cb, 0)

/-- The variables of a copy loop; `off` is how far the pointer `buf` has moved. -/
structure WriteLoop where
  cb : RingBuffer
  off : Nat
  count : Int32
  ret : Int32

def writeRound (buf : List UInt8) (s : WriteLoop) : Outcome (WriteLoop ⊕ RingBuffer × Int32) :=
  let c := ringBufSpaceToEnd s.cb
  let c := if s.count < c then s.count else c
  if c ≤ 0 then .ok (.inr (s.cb, s.ret))
  else do
    let cells ← Block.load (buf.map some) s.off c.toUInt32.toNat
    let buffer ← s.cb.buffer.store s.cb.tail.toNat cells
    let cb := { s.cb with buffer, tail := s.cb.tail + c.toUInt32 }
    let cb := if cb.tail ≥ cb.size then { cb with tail := cb.tail - cb.size } else cb
    .ok (.inl ⟨cb, s.off + c.toUInt32.toNat, s.count - c, s.ret + c⟩)

def ringBufWrite (fuel : Nat) (cb : RingBuffer) (buf : List UInt8) (count : Int32) :
    Fueled (RingBuffer × Int32) :=
  whileLoop (fun s => .of (writeRound buf s)) fuel ⟨cb, 0, count, 0⟩

structure ReadLoop where
  cb : RingBuffer
  buf : Block
  off : Nat
  count : Int32
  ret : Int32

def readRound (s : ReadLoop) : Outcome (ReadLoop ⊕ RingBuffer × Block × Int32) :=
  let c := ringBufCntToEnd s.cb
  let c := if s.count < c then s.count else c
  if c ≤ 0 then .ok (.inr (s.cb, s.buf, s.ret))
  else do
    let cells ← s.cb.buffer.load s.cb.head.toNat c.toUInt32.toNat
    let buf ← s.buf.store s.off cells
    let cb := { s.cb with head := s.cb.head + c.toUInt32 }
    let cb := if cb.head ≥ cb.size then { cb with head := cb.head - cb.size } else cb
    .ok (.inl ⟨cb, buf, s.off + c.toUInt32.toNat, s.count - c, s.ret + c⟩)

def ringBufRead (fuel : Nat) (cb : RingBuffer) (buf : Block) (count : Int32) :
    Fueled (RingBuffer × Block × Int32) :=
  whileLoop (fun s => .of (readRound s)) fuel ⟨cb, buf, 0, count, 0⟩

/-- The ring after `OSMMalloc` has given the buffer. -/
def ringBufAlloc (data_len : UInt32) : RingBuffer :=
  { buffer := .malloc data_len.toNat, size := data_len, head := 0, tail := 0 }

/-! ### The queue in the ring -/

/-- The index `k` places on, around the end. -/
def wrap (size k : Nat) : Nat := if k < size then k else k - size

/-- The ring holds the queue `q`. -/
structure Stores (ring : RingBuffer) (q : List UInt8) : Prop where
  size_lt : ring.size.toNat < 2 ^ 31
  head_lt : ring.head.toNat < ring.size.toNat
  length_lt : q.length < ring.size.toNat
  tail_eq : ring.tail.toNat = wrap ring.size.toNat (ring.head.toNat + q.length)
  buffer_length : ring.buffer.length = ring.size.toNat
  cell : ∀ i, i < q.length →
    ring.buffer[wrap ring.size.toNat (ring.head.toNat + i)]? = q[i]?.map some

section

variable {ring : RingBuffer} {q xs : List UInt8}

theorem stores_alloc {size : UInt32} (h1 : 1 ≤ size.toNat) (h2 : size.toNat < 2 ^ 31) :
    Stores (ringBufAlloc size) [] where
  size_lt := h2
  head_lt := h1
  length_lt := h1
  tail_eq := (if_pos h1).symm
  buffer_length := Block.length_malloc _
  cell := fun i hi => absurd hi (Nat.not_lt_zero i)

theorem Stores.clear (h : Stores ring q) : Stores (ringBufClear ring) [] where
  size_lt := h.size_lt
  head_lt := Nat.lt_of_le_of_lt (Nat.zero_le _) h.head_lt
  length_lt := Nat.lt_of_le_of_lt (Nat.zero_le _) h.head_lt
  tail_eq := (if_pos (Nat.lt_of_le_of_lt (Nat.zero_le _) h.head_lt)).symm
  buffer_length := h.buffer_length
  cell := fun i hi => absurd hi (Nat.not_lt_zero i)

/-- Where the queue lies, and the bounds of the indices. -/
theorem Stores.place (h : Stores ring q) :
    (ring.head.toNat ≤ ring.tail.toNat ∧ ring.tail.toNat = ring.head.toNat + q.length ∨
      ring.tail.toNat < ring.head.toNat ∧
        ring.head.toNat + q.length = ring.size.toNat + ring.tail.toNat) ∧
    ring.head.toNat < ring.size.toNat ∧ ring.tail.toNat < ring.size.toNat ∧
    q.length < ring.size.toNat ∧ ring.size.toNat < 2 ^ 31 := by
  have h0 := h.size_lt
  have h1 := h.head_lt
  have h2 := h.length_lt
  have ht := h.tail_eq
  rw [wrap] at ht
  split at ht
  · exact ⟨.inl ⟨by omega, ht⟩, h1, by omega, h2, h0⟩
  · exact ⟨.inr ⟨by omega, by omega⟩, h1, by omega, h2, h0⟩

/-! ### The index formulas -/

theorem toNat_one : (1 : UInt32).toNat = 1 := rfl

theorem Stores.empty_iff (h : Stores ring q) : ringBufEmpty ring = true ↔ q.length = 0 := by
  obtain ⟨hp, h1, h2, h3, -⟩ := h.place
  rw [ringBufEmpty, beq_iff_eq, ← UInt32.toNat_inj]
  omega

theorem Stores.full_iff (h : Stores ring q) :
    ringBufFull ring = true ↔ q.length = ring.size.toNat - 1 := by
  obtain ⟨hp, h1, h2, h3, h0⟩ := h.place
  have hone := toNat_one
  have hadd : (ring.tail + 1).toNat = ring.tail.toNat + 1 := toNat_add_of_lt (by omega)
  rw [ringBufFull, beq_iff_eq, ← UInt32.toNat_inj, UInt32.toNat_mod, hadd]
  by_cases hlast : ring.tail.toNat + 1 = ring.size.toNat
  · rw [hlast, Nat.mod_self]
    omega
  · rw [Nat.mod_eq_of_lt (by omega)]
    omega

theorem Stores.cnt (h : Stores ring q) : (ringBufCnt ring).toInt = q.length := by
  obtain ⟨hp, h1, h2, h3, h0⟩ := h.place
  rw [ringBufCnt]
  by_cases hge : ring.head.toNat ≤ ring.tail.toNat
  · have hsub := toNat_sub_of_le hge
    rw [if_pos (UInt32.le_iff_toNat_le.mpr hge), toInt_toInt32 (by omega), hsub]
    omega
  · have hadd : (ring.size + ring.tail).toNat = ring.size.toNat + ring.tail.toNat :=
      toNat_add_of_lt (by omega)
    have hsub : (ring.size + ring.tail - ring.head).toNat =
        ring.size.toNat + ring.tail.toNat - ring.head.toNat := by
      rw [toNat_sub_of_le (by omega), hadd]
    rw [if_neg fun hc => hge (UInt32.le_iff_toNat_le.mp hc), toInt_toInt32 (by omega), hsub]
    omega

theorem toNat_gap {x y : UInt32} (h : y.toNat < x.toNat) :
    (x - y - 1).toNat = x.toNat - y.toNat - 1 := by
  have hin := toNat_sub_of_le (Nat.le_of_lt h)
  rw [toNat_sub_of_le (by rw [hin, toNat_one]; omega), hin, toNat_one]

theorem Stores.space (h : Stores ring q) :
    (ringBufSpace ring).toInt = (ring.size.toNat - 1 - q.length : Nat) := by
  obtain ⟨hp, h1, h2, h3, h0⟩ := h.place
  have hone := toNat_one
  rw [ringBufSpace]
  by_cases hgt : ring.tail.toNat < ring.head.toNat
  · have hsub := toNat_gap hgt
    rw [if_pos (UInt32.lt_iff_toNat_lt.mpr hgt), toInt_toInt32 (by omega), hsub]
    omega
  · have hin : (ring.size - 1).toNat = ring.size.toNat - 1 := toNat_sub_of_le (by omega)
    have hadd : (ring.size - 1 + ring.head).toNat = ring.size.toNat - 1 + ring.head.toNat := by
      rw [toNat_add_of_lt (by omega), hin]
    have hsub : (ring.size - 1 + ring.head - ring.tail).toNat =
        ring.size.toNat - 1 + ring.head.toNat - ring.tail.toNat := by
      rw [toNat_sub_of_le (by omega), hadd]
    rw [if_neg fun hc => hgt (UInt32.lt_iff_toNat_lt.mp hc), toInt_toInt32 (by omega), hsub]
    omega

theorem Stores.cntToEnd (h : Stores ring q) : (ringBufCntToEnd ring).toInt =
    (min q.length (ring.size.toNat - ring.head.toNat) : Nat) := by
  obtain ⟨hp, h1, h2, h3, h0⟩ := h.place
  rw [ringBufCntToEnd]
  by_cases hge : ring.head.toNat ≤ ring.tail.toNat
  · have hsub := toNat_sub_of_le hge
    rw [if_pos (UInt32.le_iff_toNat_le.mpr hge), toInt_toInt32 (by omega), hsub]
    omega
  · have hsub := toNat_sub_of_le (Nat.le_of_lt h1)
    rw [if_neg fun hc => hge (UInt32.le_iff_toNat_le.mp hc), toInt_toInt32 (by omega), hsub]
    omega

theorem Stores.spaceToEnd (h : Stores ring q) : (ringBufSpaceToEnd ring).toInt =
    (min (ring.size.toNat - 1 - q.length) (ring.size.toNat - ring.tail.toNat) : Nat) := by
  obtain ⟨hp, h1, h2, h3, h0⟩ := h.place
  have hone := toNat_one
  rw [ringBufSpaceToEnd]
  by_cases hgt : ring.tail.toNat < ring.head.toNat
  · have hsub := toNat_gap hgt
    rw [if_pos (UInt32.lt_iff_toNat_lt.mpr hgt), toInt_toInt32 (by omega), hsub]
    omega
  · have hin : (ring.size - 1).toNat = ring.size.toNat - 1 := toNat_sub_of_le (by omega)
    have hsub : (ring.size - 1 - ring.tail).toNat = ring.size.toNat - 1 - ring.tail.toNat := by
      rw [toNat_sub_of_le (by omega), hin]
    rw [if_neg fun hc => hgt (UInt32.lt_iff_toNat_lt.mp hc)]
    -- the last cell can be filled when the queue does not start at the first one
    have hadd : (ring.size - 1 - ring.tail + (if ring.head > 0 then 1 else 0)).toNat =
        ring.size.toNat - 1 - ring.tail.toNat + (if 0 < ring.head.toNat then 1 else 0) := by
      have hiff : ring.head > 0 ↔ 0 < ring.head.toNat := UInt32.lt_iff_toNat_lt
      by_cases hpos : 0 < ring.head.toNat
      · rw [if_pos (hiff.mpr hpos), if_pos hpos, toNat_add_of_lt (by omega), hsub, hone]
      · rw [if_neg fun hc => hpos (hiff.mp hc), if_neg hpos, UInt32.add_zero, hsub]
        rfl
    rw [toInt_toInt32 (by rw [hadd]; split <;> omega), hadd]
    split <;> omega

/-! ### The copies -/

/-- The index after `w` places, as the source computes it. -/
def advance (size x w : UInt32) : UInt32 := if x + w ≥ size then x + w - size else x + w

theorem toNat_advance {size x w : UInt32} (hs : size.toNat < 2 ^ 31) (hx : x.toNat < size.toNat)
    (hw : w.toNat ≤ size.toNat) :
    (advance size x w).toNat = wrap size.toNat (x.toNat + w.toNat) := by
  have hadd : (x + w).toNat = x.toNat + w.toNat := toNat_add_of_lt (by omega)
  rw [advance, wrap]
  by_cases hge : size.toNat ≤ x.toNat + w.toNat
  · rw [if_pos (UInt32.le_iff_toNat_le.mpr (by omega)), toNat_sub_of_le (by omega), hadd,
      if_neg (by omega)]
  · rw [if_neg fun hc => hge (by have := UInt32.le_iff_toNat_le.mp hc; omega), hadd,
      if_pos (by omega)]

theorem advance_tail (ring : RingBuffer) (buffer : Block) (w : UInt32) :
    (if ring.tail + w ≥ ring.size then
      { ring with buffer := buffer, tail := ring.tail + w - ring.size }
    else { ring with buffer := buffer, tail := ring.tail + w }) =
      { ring with buffer := buffer, tail := advance ring.size ring.tail w } := by
  rw [advance]
  split <;> rfl

theorem advance_head (ring : RingBuffer) (w : UInt32) :
    (if ring.head + w ≥ ring.size then { ring with head := ring.head + w - ring.size }
    else { ring with head := ring.head + w }) =
      { ring with head := advance ring.size ring.head w } := by
  rw [advance]
  split <;> rfl

/-- **Bytes stored at the tail are appended to the queue.** -/
theorem Stores.copyIn (h : Stores ring q) {w : UInt32} (hw : w.toNat = xs.length)
    (hroom : xs.length ≤ ring.size.toNat - 1 - q.length)
    (hend : xs.length ≤ ring.size.toNat - ring.tail.toNat) :
    Stores { ring with buffer := ring.buffer.put ring.tail.toNat (xs.map some),
                       tail := advance ring.size ring.tail w } (q ++ xs) := by
  obtain ⟨hp, h1, h2, h3, h0⟩ := h.place
  have hlen := h.buffer_length
  have hfit : ring.tail.toNat + (xs.map some).length ≤ ring.buffer.length := by
    rw [List.length_map]
    omega
  refine ⟨h0, h1, ?_, ?_, ?_, fun i hi => ?_⟩
  · rw [List.length_append]
    show q.length + xs.length < ring.size.toNat
    omega
  · rw [List.length_append]
    show (advance ring.size ring.tail w).toNat =
      wrap ring.size.toNat (ring.head.toNat + (q.length + xs.length))
    rw [toNat_advance h0 h2 (by omega), hw, wrap, wrap]
    split <;> split <;> omega
  · exact (Block.length_put hfit).trans hlen
  · rw [List.length_append] at hi
    show (ring.buffer.put ring.tail.toNat
      (xs.map some))[wrap ring.size.toNat (ring.head.toNat + i)]? = _
    by_cases hiq : i < q.length
    · -- the old bytes are not touched
      rw [List.getElem?_append_left hiq, ← h.cell i hiq]
      refine Block.getElem?_put_outside hfit ?_
      rw [List.length_map, wrap]
      split <;> omega
    · have hat : wrap ring.size.toNat (ring.head.toNat + i) = ring.tail.toNat + (i - q.length) := by
        rw [wrap]
        split <;> omega
      rw [hat, Block.getElem?_put_inside (by omega) (by omega) (by rw [List.length_map]; omega),
        Nat.add_sub_cancel_left, List.getElem?_append_right (by omega), List.getElem?_map]

/-- **What is loaded at the head is the front of the queue.** -/
theorem Stores.load (h : Stores ring q) {n : Nat} (hn : n ≤ q.length)
    (hend : n ≤ ring.size.toNat - ring.head.toNat) :
    ring.buffer.load ring.head.toNat n = .ok ((q.take n).map some) := by
  obtain ⟨-, h1, -, h3, -⟩ := h.place
  have hlen := h.buffer_length
  rw [Block.load, if_pos (by omega)]
  congr 1
  apply List.ext_getElem?
  intro i
  by_cases hi : i < n
  · have hcell := h.cell i (by omega)
    rw [wrap, if_pos (by omega)] at hcell
    rw [List.getElem?_take_of_lt hi, List.getElem?_drop, hcell, List.getElem?_map,
      List.getElem?_take_of_lt hi]
  · rw [List.getElem?_take_eq_none (by omega), List.getElem?_eq_none]
    rw [List.length_map, List.length_take]
    omega

/-- **Moving the head on removes the front of the queue.** -/
theorem Stores.copyOut (h : Stores ring q) {w : UInt32} (hn : w.toNat ≤ q.length) :
    Stores { ring with head := advance ring.size ring.head w } (q.drop w.toNat) := by
  obtain ⟨hp, h1, h2, h3, h0⟩ := h.place
  have hhead := toNat_advance h0 h1 (w := w) (by omega)
  rw [wrap] at hhead
  refine ⟨h0, ?_, ?_, ?_, h.buffer_length, fun i hi => ?_⟩
  · show (advance ring.size ring.head w).toNat < ring.size.toNat
    split at hhead <;> omega
  · rw [List.length_drop]
    show q.length - w.toNat < ring.size.toNat
    omega
  · rw [List.length_drop]
    show ring.tail.toNat = wrap ring.size.toNat ((advance ring.size ring.head w).toNat + _)
    rw [wrap]
    split at hhead <;> split <;> omega
  · rw [List.length_drop] at hi
    have hcell := h.cell (w.toNat + i) (by omega)
    have hat : wrap ring.size.toNat ((advance ring.size ring.head w).toNat + i) =
        wrap ring.size.toNat (ring.head.toNat + (w.toNat + i)) := by
      rw [wrap, wrap]
      split at hhead <;> split <;> split <;> omega
    rw [List.getElem?_drop, ← hcell, ← hat]

end

end Nl6621.NuAgent
