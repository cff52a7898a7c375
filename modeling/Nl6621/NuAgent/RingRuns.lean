import Nl6621.NuAgent.RingBuffer

/-!
# The ring buffer is a bounded queue

`fifoCall` is what a call means for a queue of capacity `size - 1`, and `ringCall` is the call
as the source computes it.  `ring_refines_fifo`: from the ring that was just allocated, any
sequence of calls gives the answers of the queue, and leaves a ring that holds the queue.

A copy loop moves its bytes in at most two parts, the second from the front of the buffer
again.  The proofs do not count the parts: each round moves at least one byte (`writeRound_step`,
`readRound_step`), so the loop ends, and when it does there is no room left, nothing stored, or
nothing asked for.
-/

namespace Nl6621.NuAgent

open Lib

variable {cap : Nat} {ring : RingBuffer} {q : List UInt8}

/-! ### The queue -/

inductive Call where
  | clear
  | writeChar (data : UInt8)
  | write (buf : List UInt8) (count : Int32)
  | read (buf : Block) (count : Int32)

/-- What a call gives back: a number, and the caller's buffer where it is written. -/
inductive Answer where
  | done
  | wrote (n : Int)
  | got (n : Int) (buf : Block)
deriving DecidableEq

/-- `min(max(count, 0), most)`. -/
def moved (count : Int32) (most : Nat) : Nat := min count.toInt.toNat most

def fifoCall (q : Fifo UInt8 cap) : Call → Fifo UInt8 cap × Answer
  | .clear => (.empty, .done)
  | .writeChar data => (q.push [data], .wrote (if 0 < q.room then 1 else 0))
  | .write buf count =>
    let n := moved count q.room
    (q.push (buf.take n), .wrote n)
  | .read buf count =>
    let n := moved count q.items.length
    (q.pop n, .got n (buf.put 0 ((q.items.take n).map some)))

/-- The caller's buffer has room for the bytes that are moved. -/
def Fits (q : Fifo UInt8 cap) : Call → Prop
  | .write buf count => moved count q.room ≤ buf.length
  | .read buf count => moved count q.items.length ≤ buf.length
  | _ => True

def fifoRun (q : Fifo UInt8 cap) : List Call → Fifo UInt8 cap × List Answer
  | [] => (q, [])
  | c :: calls =>
    let r := fifoRun (fifoCall q c).1 calls
    (r.1, (fifoCall q c).2 :: r.2)

/-- Every call of the sequence has a buffer that is large enough. -/
def AllFit (q : Fifo UInt8 cap) : List Call → Prop
  | [] => True
  | c :: calls => Fits q c ∧ AllFit (fifoCall q c).1 calls

/-! ### The calls of the source -/

def ringCall (fuel : Nat) (ring : RingBuffer) : Call → Fueled (RingBuffer × Answer)
  | .clear => .ok (ringBufClear ring, .done)
  | .writeChar data => do
    let (ring, ret) ← .of (ringBufWriteChar ring data)
    .ok (ring, .wrote ret.toInt)
  | .write buf count => do
    let (ring, ret) ← ringBufWrite fuel ring buf count
    .ok (ring, .wrote ret.toInt)
  | .read buf count => do
    let (ring, buf, ret) ← ringBufRead fuel ring buf count
    .ok (ring, .got ret.toInt buf)

/-- The calls one after the other, as long as they come back. -/
def ringRun (fuel : Nat) (ring : RingBuffer) : List Call → Fueled (RingBuffer × List Answer)
  | [] => .ok (ring, [])
  | c :: calls => do
    let (ring, a) ← ringCall fuel ring c
    let (ring, as) ← ringRun fuel ring calls
    .ok (ring, a :: as)

/-! ### The copy loops -/

/-- The part that is copied in a round: what is asked for, or what there is. -/
theorem toInt_part (count : Int32) {c : Int32} {most : Nat} (hc : c.toInt = most) :
    (if count < c then count else c).toInt = min count.toInt most := by
  by_cases hlt : count < c
  · have hle : count.toInt < c.toInt := Int32.lt_iff_toInt_lt.mp hlt
    rw [if_pos hlt]
    omega
  · have hge : ¬ count.toInt < c.toInt := fun h => hlt (Int32.lt_iff_toInt_lt.mpr h)
    rw [if_neg hlt]
    omega

/-- The counters of both loops behind a round that has moved `w` bytes. -/
theorem toInt_left {count left c : Int32} {off w : Nat} (h : left.toInt = count.toInt - off)
    (hc : c.toInt = w) (hle : c.toInt ≤ left.toInt) :
    (left - c).toInt = count.toInt - ((off + w : Nat) : Int) := by
  rw [toInt_sub_of_le (by omega) hle]
  omega

theorem toInt_done {ret c : Int32} {off w : Nat} (h : ret.toInt = off) (hc : c.toInt = w)
    (hlt : off + w < 2 ^ 31) : (ret + c).toInt = ((off + w : Nat) : Int) := by
  rw [toInt_add_of_lt (by omega) (by omega) (by omega)]
  omega

/-- The loop of `ring_buf_write` when `s.off` of the `n` bytes are appended. -/
structure Writing (ring : RingBuffer) (q buf : List UInt8) (count : Int32) (n : Nat)
    (s : WriteLoop) : Prop where
  size : s.cb.size = ring.size
  stores : Stores s.cb (q ++ buf.take s.off)
  off_le : s.off ≤ n
  count : s.count.toInt = count.toInt - s.off
  ret : s.ret.toInt = s.off

/-- A round appends at least one byte, or all are appended. -/
theorem writeRound_step {buf : List UInt8} {count : Int32} {n : Nat} {s : WriteLoop}
    (hn : n = moved count (ring.size.toNat - 1 - q.length)) (hbuf : n ≤ buf.length)
    (h : Writing ring q buf count n s) :
    (s.off = n ∧ writeRound buf s = .ok (.inr (s.cb, s.ret))) ∨
      ∃ s', writeRound buf s = .ok (.inl s') ∧ Writing ring q buf count n s' ∧ s.off < s'.off := by
  obtain ⟨-, h1, h2, h3, h0⟩ := h.stores.place
  have hcount := h.count
  have hret := h.ret
  have hoff := h.off_le
  have hlen : (q ++ buf.take s.off).length = q.length + s.off := by
    rw [List.length_append, List.length_take]
    omega
  rw [hlen] at h3
  have hsize : s.cb.size.toNat = ring.size.toNat := by rw [h.size]
  have hpart := toInt_part s.count h.stores.spaceToEnd
  rw [hlen] at hpart
  rw [moved] at hn
  unfold writeRound
  simp only
  generalize (if s.count < ringBufSpaceToEnd s.cb then s.count else ringBufSpaceToEnd s.cb) = c
    at hpart ⊢
  have hzero : (0 : Int32).toInt = 0 := rfl
  by_cases hle : c ≤ 0
  · have hc := Int32.le_iff_toInt_le.mp hle
    rw [if_pos hle]
    exact .inl ⟨by omega, rfl⟩
  · have hc : ¬ c.toInt ≤ (0 : Int32).toInt := fun hc => hle (Int32.le_iff_toInt_le.mpr hc)
    have hword := toNat_toUInt32 (a := c) (by omega)
    generalize hw : c.toUInt32 = w at hword ⊢
    have hchunk : ((buf.drop s.off).take w.toNat).length = w.toNat := by
      rw [List.length_take, List.length_drop]
      omega
    have hload : Block.load (buf.map some) s.off w.toNat =
        .ok (((buf.drop s.off).take w.toNat).map some) := by
      rw [Block.load, if_pos (by rw [List.length_map]; omega), List.map_take, List.map_drop]
    have hstore : s.cb.buffer.store s.cb.tail.toNat (((buf.drop s.off).take w.toNat).map some) =
        .ok (s.cb.buffer.put s.cb.tail.toNat (((buf.drop s.off).take w.toNat).map some)) := by
      have hb := h.stores.buffer_length
      refine Block.store_ok ?_
      rw [List.length_map]
      omega
    refine .inr ⟨⟨{ s.cb with
      buffer := s.cb.buffer.put s.cb.tail.toNat (((buf.drop s.off).take w.toNat).map some)
      tail := advance s.cb.size s.cb.tail w }, s.off + w.toNat, s.count - c, s.ret + c⟩,
      ?_, ⟨h.size, ?_, ?_, ?_, ?_⟩, ?_⟩
    · rw [if_neg hle, hload, Outcome.ok_bind, hstore, Outcome.ok_bind, advance_tail]
    · have hin := h.stores.copyIn hchunk.symm (by omega) (by omega)
      rw [List.append_assoc, ← List.take_add] at hin
      exact hin
    · show s.off + w.toNat ≤ n
      omega
    · exact toInt_left hcount (by omega) (by omega)
    · exact toInt_done hret (by omega) (by omega)
    · show s.off < s.off + w.toNat
      omega

/-- The loop of `ring_buf_read` when `s.off` of the `n` bytes are removed. -/
structure Reading (ring : RingBuffer) (q : List UInt8) (buf : Block) (count : Int32) (n : Nat)
    (s : ReadLoop) : Prop where
  size : s.cb.size = ring.size
  stores : Stores s.cb (q.drop s.off)
  buf : s.buf = buf.put 0 ((q.take s.off).map some)
  off_le : s.off ≤ n
  count : s.count.toInt = count.toInt - s.off
  ret : s.ret.toInt = s.off

/-- Storing behind what was stored at the front. -/
theorem put_put_zero (buf xs ys : Block) :
    (buf.put 0 xs).put xs.length ys = buf.put 0 (xs ++ ys) := by
  rw [Block.put, Block.put, Block.put, List.take_zero, List.nil_append, List.nil_append,
    Nat.zero_add, Nat.zero_add, List.take_left, List.drop_append, List.drop_eq_nil_of_le (by omega),
    List.nil_append, Nat.add_sub_cancel_left, List.drop_drop, List.length_append]

/-- A round removes at least one byte, or all are removed. -/
theorem readRound_step {buf : Block} {count : Int32} {n : Nat} {s : ReadLoop}
    (hq : q.length < 2 ^ 31) (hn : n = moved count q.length) (hbuf : n ≤ buf.length)
    (h : Reading ring q buf count n s) :
    (s.off = n ∧ readRound s = .ok (.inr (s.cb, s.buf, s.ret))) ∨
      ∃ s', readRound s = .ok (.inl s') ∧ Reading ring q buf count n s' ∧ s.off < s'.off := by
  obtain ⟨-, h1, h2, h3, h0⟩ := h.stores.place
  have hcount := h.count
  have hret := h.ret
  have hoff := h.off_le
  rw [List.length_drop] at h3
  have hpart := toInt_part s.count h.stores.cntToEnd
  rw [List.length_drop] at hpart
  rw [moved] at hn
  unfold readRound
  simp only
  generalize (if s.count < ringBufCntToEnd s.cb then s.count else ringBufCntToEnd s.cb) = c
    at hpart ⊢
  have hzero : (0 : Int32).toInt = 0 := rfl
  by_cases hle : c ≤ 0
  · have hc := Int32.le_iff_toInt_le.mp hle
    rw [if_pos hle]
    exact .inl ⟨by omega, rfl⟩
  · have hc : ¬ c.toInt ≤ (0 : Int32).toInt := fun hc => hle (Int32.le_iff_toInt_le.mpr hc)
    have hword := toNat_toUInt32 (a := c) (by omega)
    generalize hw : c.toUInt32 = w at hword ⊢
    have hload := h.stores.load (n := w.toNat) (by rw [List.length_drop]; omega) (by omega)
    have hfront : ((q.take s.off).map some).length = s.off := by
      rw [List.length_map, List.length_take]
      omega
    have hchunk : (((q.drop s.off).take w.toNat).map some).length = w.toNat := by
      rw [List.length_map, List.length_take, List.length_drop]
      omega
    have hlen : s.buf.length = buf.length := by
      rw [h.buf]
      exact Block.length_put (by omega)
    have hstore : s.buf.store s.off (((q.drop s.off).take w.toNat).map some) =
        .ok (buf.put 0 ((q.take (s.off + w.toNat)).map some)) := by
      have hput := put_put_zero buf ((q.take s.off).map some)
        (((q.drop s.off).take w.toNat).map some)
      rw [hfront, ← h.buf] at hput
      rw [Block.store_ok (by omega), hput, ← List.map_append, ← List.take_add]
    refine .inr ⟨⟨{ s.cb with head := advance s.cb.size s.cb.head w },
      buf.put 0 ((q.take (s.off + w.toNat)).map some), s.off + w.toNat, s.count - c, s.ret + c⟩,
      ?_, ⟨h.size, ?_, rfl, ?_, ?_, ?_⟩, ?_⟩
    · rw [if_neg hle, hload, Outcome.ok_bind, hstore, Outcome.ok_bind, advance_head]
    · have hout := h.stores.copyOut (w := w) (by rw [List.length_drop]; omega)
      rw [List.drop_drop] at hout
      exact hout
    · show s.off + w.toNat ≤ n
      omega
    · exact toInt_left hcount (by omega) (by omega)
    · exact toInt_done hret (by omega) (by omega)
    · show s.off < s.off + w.toNat
      omega

/-! ### The calls -/

theorem ringBufWrite_spec {fuel : Nat} {buf : List UInt8} {count : Int32} (h : Stores ring q)
    (hbuf : moved count (ring.size.toNat - 1 - q.length) ≤ buf.length)
    (hfuel : ring.size.toNat ≤ fuel) :
    ∃ ring' ret, ringBufWrite fuel ring buf count = .ok (ring', ret) ∧
      ret.toInt = moved count (ring.size.toNat - 1 - q.length) ∧ ring'.size = ring.size ∧
      Stores ring' (q ++ buf.take (moved count (ring.size.toNat - 1 - q.length))) := by
  generalize hn : moved count (ring.size.toNat - 1 - q.length) = n at hbuf ⊢
  have hlt : n < ring.size.toNat := by
    have := h.length_lt
    rw [moved] at hn
    omega
  have hinit : Writing ring q buf count n ⟨ring, 0, count, 0⟩ := by
    refine ⟨rfl, ?_, Nat.zero_le n, (Int.sub_zero _).symm, rfl⟩
    rw [List.take_zero, List.append_nil]
    exact h
  obtain ⟨⟨ring', ret⟩, hl, hq⟩ := whileLoop_total (I := Writing ring q buf count n)
    (m := fun s => n - s.off)
    (Q := fun b : RingBuffer × Int32 => b.2.toInt = n ∧ b.1.size = ring.size ∧
      Stores b.1 (q ++ buf.take n))
    (fun s hs => by
      rcases writeRound_step hn.symm hbuf hs with ⟨hoff, hb⟩ | ⟨s', hb, hs', hlt⟩
      · exact .inl ⟨_, congrArg Fueled.of hb, hoff ▸ hs.ret, hs.size, hoff ▸ hs.stores⟩
      · exact .inr ⟨s', congrArg Fueled.of hb, hs', by have := hs'.off_le; omega⟩)
    fuel _ hinit (by show n - 0 < fuel; omega)
  exact ⟨ring', ret, hl, hq⟩

theorem ringBufRead_spec {fuel : Nat} {buf : Block} {count : Int32} (h : Stores ring q)
    (hbuf : moved count q.length ≤ buf.length) (hfuel : ring.size.toNat ≤ fuel) :
    ∃ ring' ret, ringBufRead fuel ring buf count =
        .ok (ring', buf.put 0 ((q.take (moved count q.length)).map some), ret) ∧
      ret.toInt = moved count q.length ∧ ring'.size = ring.size ∧
      Stores ring' (q.drop (moved count q.length)) := by
  have hq := h.length_lt
  have hsize := h.size_lt
  generalize hn : moved count q.length = n at hbuf ⊢
  have hlt : n < ring.size.toNat := by
    rw [moved] at hn
    omega
  have hinit : Reading ring q buf count n ⟨ring, buf, 0, count, 0⟩ :=
    ⟨rfl, h, rfl, Nat.zero_le n, (Int.sub_zero _).symm, rfl⟩
  obtain ⟨⟨ring', buf', ret⟩, hl, hb, hq'⟩ := whileLoop_total (I := Reading ring q buf count n)
    (m := fun s => n - s.off)
    (Q := fun b : RingBuffer × Block × Int32 => b.2.1 = buf.put 0 ((q.take n).map some) ∧
      b.2.2.toInt = n ∧ b.1.size = ring.size ∧ Stores b.1 (q.drop n))
    (fun s hs => by
      rcases readRound_step (by omega) hn.symm hbuf hs with ⟨hoff, hb⟩ | ⟨s', hb, hs', hlt⟩
      · exact .inl ⟨_, congrArg Fueled.of hb, hoff ▸ hs.buf, hoff ▸ hs.ret, hs.size, hoff ▸ hs.stores⟩
      · exact .inr ⟨s', congrArg Fueled.of hb, hs', by have := hs'.off_le; omega⟩)
    fuel _ hinit (by show n - 0 < fuel; omega)
  exact ⟨ring', ret, hb ▸ hl, hq'⟩

/-- A byte that is accepted is stored at the tail. -/
theorem ringBufWriteChar_ok {data : UInt8} (hnot : ringBufFull ring = false)
    (hfit : ring.tail.toNat + 1 ≤ ring.buffer.length) : ringBufWriteChar ring data =
      .ok ({ ring with
        buffer := ring.buffer.put ring.tail.toNat ([data].map some)
        tail := advance ring.size ring.tail 1 }, 1) := by
  have hstore : ring.buffer.store ring.tail.toNat [some data] =
      .ok (ring.buffer.put ring.tail.toNat ([data].map some)) := Block.store_ok hfit
  rw [ringBufWriteChar, hnot, Bool.not_false, if_pos rfl, hstore, Outcome.ok_bind]
  simp only
  rw [advance_tail]

theorem ringBufWriteChar_full {data : UInt8} (hfull : ringBufFull ring = true) :
    ringBufWriteChar ring data = .ok (ring, 0) := by
  rw [ringBufWriteChar, hfull]
  rfl

theorem ringBufWriteChar_spec (h : Stores ring q) (data : UInt8) :
    ∃ ring' ret, ringBufWriteChar ring data = .ok (ring', ret) ∧ ring'.size = ring.size ∧
      ret.toInt = (if 0 < ring.size.toNat - 1 - q.length then 1 else 0) ∧
      Stores ring' (q ++ [data].take (ring.size.toNat - 1 - q.length)) := by
  obtain ⟨-, h1, h2, h3, h0⟩ := h.place
  have hb := h.buffer_length
  have hfull := h.full_iff
  by_cases hroom : 0 < ring.size.toNat - 1 - q.length
  · have hnot : ¬ ringBufFull ring = true := by
      rw [hfull]
      omega
    refine ⟨_, 1, ringBufWriteChar_ok (Bool.not_eq_true _ ▸ hnot) (by omega), rfl, ?_, ?_⟩
    · rw [if_pos hroom]
      rfl
    · rw [List.take_of_length_le (show [data].length ≤ _ from hroom)]
      have hone : (1 : UInt32).toNat = [data].length := rfl
      exact h.copyIn hone hroom (by show 1 ≤ _; omega)
  · refine ⟨ring, 0, ringBufWriteChar_full (hfull.mpr (by omega)), rfl, ?_, ?_⟩
    · rw [if_neg hroom]
      rfl
    · rw [show ring.size.toNat - 1 - q.length = 0 by omega, List.take_zero, List.append_nil]
      exact h

/-- **A call of the source does what the queue does.** -/
theorem ringCall_spec {fuel : Nat} {q : Fifo UInt8 cap} {c : Call} (h : Stores ring q.items)
    (hcap : cap = ring.size.toNat - 1) (hfit : Fits q c) (hfuel : ring.size.toNat ≤ fuel) :
    ∃ ring', ringCall fuel ring c = .ok (ring', (fifoCall q c).2) ∧
      ring'.size = ring.size ∧ Stores ring' (fifoCall q c).1.items := by
  have hroom : ring.size.toNat - 1 - q.items.length = q.room := by
    rw [Fifo.room]
    omega
  cases c with
  | clear => exact ⟨ringBufClear ring, rfl, rfl, h.clear⟩
  | writeChar data =>
    obtain ⟨ring', ret, hcall, hsize, hret, hs⟩ := ringBufWriteChar_spec h data
    rw [hroom] at hret hs
    refine ⟨ring', ?_, hsize, hs⟩
    rw [ringCall, hcall, fifoCall, ← hret]
    rfl
  | write buf count =>
    rw [Fits, ← hroom] at hfit
    obtain ⟨ring', ret, hcall, hret, hsize, hs⟩ := ringBufWrite_spec h hfit hfuel
    rw [hroom] at hret hs
    refine ⟨ring', ?_, hsize, ?_⟩
    · rw [ringCall, hcall, fifoCall]
      simp only [← hret]
      rfl
    · have hle : (buf.take (moved count q.room)).length ≤ q.room := by
        rw [List.length_take, moved]
        omega
      rw [fifoCall]
      simp only [Fifo.items_push hle]
      exact hs
  | read buf count =>
    obtain ⟨ring', ret, hcall, hret, hsize, hs⟩ := ringBufRead_spec h hfit hfuel
    refine ⟨ring', ?_, hsize, hs⟩
    rw [ringCall, hcall, fifoCall]
    simp only [← hret]
    rfl

theorem ringRun_spec {fuel : Nat} (calls : List Call) :
    ∀ {ring : RingBuffer} {q : Fifo UInt8 cap}, Stores ring q.items → cap = ring.size.toNat - 1 →
      AllFit q calls → ring.size.toNat ≤ fuel →
      ∃ ring', ringRun fuel ring calls = .ok (ring', (fifoRun q calls).2) ∧
        ring'.size = ring.size ∧ Stores ring' (fifoRun q calls).1.items := by
  induction calls with
  | nil =>
    intro ring q h _ _ _
    exact ⟨ring, rfl, rfl, h⟩
  | cons c calls ih =>
    intro ring q h hcap hfit hfuel
    obtain ⟨ring₁, hcall, hsize, h₁⟩ := ringCall_spec h hcap hfit.1 hfuel
    obtain ⟨ring', hrun, hsize', h'⟩ :=
      ih h₁ (by rw [hsize, hcap]) hfit.2 (by rw [hsize]; exact hfuel)
    refine ⟨ring', ?_, hsize'.trans hsize, h'⟩
    rw [ringRun, hcall]
    simp only [Fueled.ok_bind, hrun]
    rfl

/-- **The ring is a queue of capacity `size - 1`.**  After any sequence of calls on a fresh
ring, in which every caller's buffer has room for the bytes moved, the loops have ended
within `size` rounds, no access has left an object, the answers are those of the queue, and the
ring holds it. -/
theorem ring_refines_fifo {size : UInt32} (h1 : 1 ≤ size.toNat) (h2 : size.toNat < 2 ^ 31)
    (calls : List Call) (hfit : AllFit (.empty : Fifo UInt8 (size.toNat - 1)) calls) (fuel : Nat)
    (hfuel : size.toNat ≤ fuel) :
    let r := fifoRun (.empty : Fifo UInt8 (size.toNat - 1)) calls
    ∃ ring, ringRun fuel (ringBufAlloc size) calls = .ok (ring, r.2) ∧
      Stores ring r.1.items ∧ ring.size = size ∧
      ring.head.toNat < size.toNat ∧ ring.tail.toNat < size.toNat ∧
      (ringBufCnt ring).toInt = r.1.items.length ∧
      (ringBufCnt ring).toInt + (ringBufSpace ring).toInt = size.toNat - 1 ∧
      (ringBufEmpty ring = true ↔ ringBufCnt ring = 0) ∧
      (ringBufFull ring = true ↔ ringBufSpace ring = 0) := by
  intro r
  obtain ⟨ring, hrun, hsize, hs⟩ :=
    ringRun_spec calls (q := .empty) (stores_alloc h1 h2) rfl hfit hfuel
  have hsize : ring.size = size := hsize
  obtain ⟨-, hhead, htail, hlen, -⟩ := hs.place
  have hcnt := hs.cnt
  have hspace := hs.space
  have hzero : (0 : Int32).toInt = 0 := rfl
  rw [hsize] at hhead htail hlen hspace
  refine ⟨ring, hrun, hs, hsize, hhead, htail, hcnt, ?_, ?_, ?_⟩
  · rw [hcnt, hspace]
    omega
  · rw [hs.empty_iff, ← Int32.toInt_inj, hcnt, hzero]
    omega
  · rw [hs.full_iff, ← Int32.toInt_inj, hspace, hzero, hsize]
    omega

/-- A queue of two bytes: a write of three is cut short, and the second read goes around
the end of the buffer. -/
def smallCalls : List Call :=
  [.write [1, 2, 3] 3, .read [none, none] 1, .writeChar 4, .read [none, none] 9, .write [5] (-1)]

theorem ring_refines_fifo_small :
    ∃ ring, ringRun 3 (ringBufAlloc 3) smallCalls = .ok (ring,
        [.wrote 2, .got 1 [some 1, none], .wrote 1, .got 2 [some 2, some 4], .wrote 0]) ∧
      ringBufCnt ring = 0 := by
  have hone : 1 ≤ (3 : UInt32).toNat := by decide
  obtain ⟨ring, hrun, -, -, -, -, hcnt, -⟩ := ring_refines_fifo hone (by decide) smallCalls
    (by simp [smallCalls, AllFit, Fits, fifoCall]; decide) 3 (by decide)
  exact ⟨ring, hrun, Int32.toInt_inj.mp hcnt⟩

end Nl6621.NuAgent
