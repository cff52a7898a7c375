import Nl6621.Lib.Runs
import Nl6621.NuAgent.RingRuns

/-!
# The receive ring of the UART and its interrupt

`UartTaskThread` counts what is in the ring `uartrxbuf` and reads that much; the timer
interrupt stores into the ring with `uart_data_recv`.  Here the two run side by side.  A step of
the task is one access to `head` or `tail`, with the work on its own variables that follows; the
interrupt, which nothing interrupts, is one step and may come between any two of them.  `obtained`
and `accepted` collect, over the whole run, the bytes that `ring_buf_read` has taken out of the
ring and those that `ring_buf_write_char` has put in.

The two functions that count read `tail` twice, and `head` stands at `size`, where the interrupt
takes the ring for one that is never full, until it is wrapped.  `uart_in_order` says when this
is harmless, and that it is not harmless at any other time.
-/

namespace Nl6621.NuAgent.Uart

open Lib

/-! ### The task and the interrupt -/

def UART_RECV_BUF_SIZE : UInt32 := 512

/-- Where `UartTaskThread` stands. -/
inductive Pc where
  /-- in `OSSemPend` -/
  | pend
  /-- in front of the test of `ring_buf_cnt` -/
  | test
  /-- behind the test, in front of the second reading of `tail` -/
  | cnt (ge : Bool)
  /-- in `ring_buf_read`, in front of the test of `ring_buf_cnt_to_end` -/
  | read
  /-- behind the test -/
  | toEnd (ge : Bool)
  /-- in front of the `memcpy` -/
  | copy
  /-- in front of `cb->head += c` -/
  | advance (cells : Block)
  /-- in front of `cb->head >= cb->size` -/
  | compare
  /-- in front of `cb->head -= cb->size` -/
  | subtract
  /-- `ring_buf_read` has returned -/
  | done
deriving DecidableEq

structure Task where
  uartrxbuf : RingBuffer
  pc : Pc
  recv_size : UInt16
  c : Int32
  count : Int32
  ret : Int32
  /-- what `ring_buf_read` has copied to `recv_data` -/
  recv_data : Block
  obtained : Block
  accepted : List UInt8

/-- The end of a round of the loop of `ring_buf_read`. -/
def nextRound (s : Task) : Task := { s with count := s.count - s.c, ret := s.ret + s.c, pc := .read }

def taskStep (s : Task) : Task :=
  let cb := s.uartrxbuf
  match s.pc with
  | .pend => { s with pc := .test }
  | .test => { s with pc := .cnt (decide (cb.tail ≥ cb.head)) }
  | .cnt ge =>
    let cnt := if ge then (cb.tail - cb.head).toInt32 else (cb.size + cb.tail - cb.head).toInt32
    let recv_size := cnt.toUInt32.toUInt16
    if recv_size > 0 then
      { s with recv_size, pc := .read, count := recv_size.toUInt32.toInt32, ret := 0, recv_data := [] }
    else { s with recv_size, pc := .pend }
  | .read => { s with pc := .toEnd (decide (cb.tail ≥ cb.head)) }
  | .toEnd ge =>
    let c := if ge then (cb.tail - cb.head).toInt32 else (cb.size - cb.head).toInt32
    let c := if s.count < c then s.count else c
    if c ≤ 0 then { s with c, pc := .done } else { s with c, pc := .copy }
  | .copy =>
    { s with pc := .advance ((cb.buffer.drop cb.head.toNat).take s.c.toUInt32.toNat) }
  | .advance cells =>
    { s with
      uartrxbuf := { cb with head := cb.head + s.c.toUInt32 }
      recv_data := s.recv_data ++ cells
      obtained := s.obtained ++ cells
      pc := .compare }
  | .compare => if cb.head ≥ cb.size then { s with pc := .subtract } else nextRound s
  | .subtract => nextRound { s with uartrxbuf := { cb with head := cb.head - cb.size } }
  | .done => { s with pc := .pend }

/-- `uart_data_recv`, up to the semaphore. -/
def uartDataRecv (Dummy : UInt8) (s : Task) : Outcome Task := do
  let (cb, ret) ← ringBufWriteChar s.uartrxbuf Dummy
  .ok { s with
    uartrxbuf := cb, accepted := if ret = 1 then s.accepted ++ [Dummy] else s.accepted }

inductive Act where
  | task
  /-- a byte comes in -/
  | irq (Dummy : UInt8)
deriving DecidableEq

def step (s : Task) : Act → Option Task
  | .task => some (taskStep s)
  | .irq Dummy =>
    match uartDataRecv Dummy s with
    | .ok s' => some s'
    | _ => none

/-- Behind `uart_init`, with anything in the variables that are not set. -/
structure Boot (s : Task) : Prop where
  uartrxbuf : s.uartrxbuf = ringBufAlloc UART_RECV_BUF_SIZE
  pc : s.pc = .pend
  obtained : s.obtained = []
  accepted : s.accepted = []

/-! ### The property -/

/-- The ring with `head` wrapped. -/
def settled (ring : RingBuffer) : RingBuffer :=
  if ring.head ≥ ring.size then { ring with head := ring.head - ring.size } else ring

/-- What is in the ring, from `head` up to `tail`. -/
def pending (ring : RingBuffer) : Block :=
  let ring := settled ring
  if ring.tail ≥ ring.head then
    (ring.buffer.drop ring.head.toNat).take (ring.tail.toNat - ring.head.toNat)
  else ring.buffer.drop ring.head.toNat ++ ring.buffer.take ring.tail.toNat

/-- The task is in `ring_buf_read`. -/
def Pc.reading : Pc → Bool
  | .read | .toEnd _ | .copy | .advance _ | .compare | .subtract => true
  | .pend | .test | .cnt _ | .done => false

structure Good (s : Task) : Prop where
  order : s.accepted.map some = s.obtained ++ pending s.uartrxbuf
  stored : s.pc.reading = true → s.recv_size.toNat ≤ s.recv_data.length + (pending s.uartrxbuf).length
  delivered : s.pc = .done → s.recv_data.length = s.recv_size.toNat ∧ s.ret.toInt = s.recv_size.toNat

/-- **When an interruption is harmless.**  A byte that comes while `head` stands at `size` does not
fill the last cell, and the second reading of `tail`, where the first one has found it at or
behind `head`, does so too, or is made when nothing is left to be read. -/
def Undisturbed (s : Task) : Act → Prop
  | .task =>
    match s.pc with
    | .cnt true => s.uartrxbuf.head ≤ s.uartrxbuf.tail
    | .toEnd true => s.uartrxbuf.head ≤ s.uartrxbuf.tail ∨ s.count ≤ 0
    | _ => True
  | .irq _ => ¬(s.uartrxbuf.head = s.uartrxbuf.size ∧ s.uartrxbuf.tail + 1 = s.uartrxbuf.size)

/-! ### The queue behind the ring -/

section

variable {ring : RingBuffer} {q : List UInt8}

theorem settled_of_lt (h : ring.head.toNat < ring.size.toNat) : settled ring = ring :=
  if_neg fun hge => by
    have hle := UInt32.le_iff_toNat_le.mp hge
    omega

theorem settled_of_eq (h : ring.head = ring.size) : settled ring = { ring with head := 0 } := by
  have hsub : ring.head - ring.size = 0 := by rw [h, UInt32.sub_self]
  rw [settled, if_pos (UInt32.le_of_eq h.symm), hsub]

/-- **What is in the ring is the queue.** -/
theorem pending_eq (h : Stores (settled ring) q) : pending ring = q.map some := by
  rw [pending]
  generalize settled ring = ring at h
  obtain ⟨hp, h1, h2, h3, h0⟩ := h.place
  have hlen := h.buffer_length
  by_cases hge : ring.tail ≥ ring.head
  · have hle : ring.head.toNat ≤ ring.tail.toNat := UInt32.le_iff_toNat_le.mp hge
    have hload := h.load (n := q.length) (Nat.le_refl _) (by omega)
    rw [Block.load, if_pos (by omega), Outcome.ok.injEq, List.take_length] at hload
    rw [if_pos hge, ← hload, show ring.tail.toNat - ring.head.toNat = q.length by omega]
  · have hlt : ¬ring.head.toNat ≤ ring.tail.toNat := fun hle => hge (UInt32.le_iff_toNat_le.mpr hle)
    rw [if_neg hge]
    apply List.ext_getElem?
    intro i
    rw [List.getElem?_map]
    by_cases hi : i < q.length
    · rw [← h.cell i hi, wrap]
      by_cases hin : ring.head.toNat + i < ring.size.toNat
      · rw [if_pos hin, List.getElem?_append_left (by rw [List.length_drop]; omega),
          List.getElem?_drop]
      · rw [if_neg hin, List.getElem?_append_right (by rw [List.length_drop]; omega),
          List.length_drop, List.getElem?_take_of_lt (by omega)]
        exact congrArg (ring.buffer[·]?) (by omega)
    · have hnone : q[i]? = none := List.getElem?_eq_none (by omega)
      rw [hnone, List.getElem?_eq_none]
      · rfl
      · rw [List.length_append, List.length_drop, List.length_take]
        omega

theorem pending_length (h : Stores (settled ring) q) : (pending ring).length = q.length := by
  rw [pending_eq h, List.length_map]

/-- **The interrupt appends to the queue what it accepts.** -/
theorem irq_spec (h : Stores (settled ring) q) (hle : ring.head.toNat ≤ ring.size.toNat)
    (Dummy : UInt8) (hok : ¬(ring.head = ring.size ∧ ring.tail + 1 = ring.size)) :
    ∃ ring' ret, ringBufWriteChar ring Dummy = .ok (ring', ret) ∧ ring'.size = ring.size ∧
      ring'.head = ring.head ∧ Stores (settled ring') (q ++ if ret = 1 then [Dummy] else []) := by
  have hone : (1 : UInt32).toNat = [Dummy].length := rfl
  by_cases hlt : ring.head.toNat < ring.size.toNat
  · rw [settled_of_lt hlt] at h
    obtain ⟨-, h1, h2, h3, h0⟩ := h.place
    have hb := h.buffer_length
    by_cases hfull : ringBufFull ring = true
    · refine ⟨ring, 0, ringBufWriteChar_full hfull, rfl, rfl, ?_⟩
      rw [if_neg (by decide), List.append_nil, settled_of_lt hlt]
      exact h
    · have hroom : q.length ≠ ring.size.toNat - 1 := fun hq => hfull (h.full_iff.mpr hq)
      refine ⟨_, 1, ringBufWriteChar_ok (Bool.not_eq_true _ ▸ hfull) (by omega), rfl, rfl, ?_⟩
      rw [if_pos rfl, settled_of_lt (by exact hlt)]
      exact h.copyIn hone (by show 1 ≤ _; omega) (by show 1 ≤ _; omega)
  · have heq : ring.head = ring.size := UInt32.toNat_inj.mp (by omega)
    rw [settled_of_eq heq] at h
    obtain ⟨hp, h1, h2, h3, h0⟩ := h.place
    have hb := h.buffer_length
    have hzero : (0 : UInt32).toNat = 0 := rfl
    dsimp only at hp h1 h2 h3 h0 hb
    rw [hzero] at hp h1
    have hadd : (ring.tail + 1).toNat = ring.tail.toNat + 1 :=
      toNat_add_of_lt (by change ring.tail.toNat + 1 < 2 ^ 32; omega)
    have hlast : ring.tail.toNat + 1 ≠ ring.size.toNat := fun hc =>
      hok ⟨heq, UInt32.toNat_inj.mp (hadd.trans hc)⟩
    have hnot : ringBufFull ring = false := by
      rw [ringBufFull, beq_eq_false_iff_ne, Ne, ← UInt32.toNat_inj, UInt32.toNat_mod, hadd, heq,
        Nat.mod_eq_of_lt (by omega)]
      omega
    refine ⟨_, 1, ringBufWriteChar_ok hnot (by omega), rfl, rfl, ?_⟩
    rw [if_pos rfl, settled_of_eq (by exact heq)]
    exact h.copyIn hone (by show 1 ≤ ring.size.toNat - 1 - q.length; omega)
      (by show 1 ≤ ring.size.toNat - ring.tail.toNat; omega)

end

/-! ### The invariant -/

/-- In the loop of `ring_buf_read`. -/
structure Inside (s : Task) (q : List UInt8) : Prop where
  count : s.count.toInt + s.recv_data.length = s.recv_size.toNat
  count_nonneg : 0 ≤ s.count.toInt
  ret : s.ret.toInt = s.recv_data.length
  stored : s.recv_size.toNat ≤ s.recv_data.length + q.length

/-- `c` bytes are about to be copied. -/
structure Chunk (s : Task) (q : List UInt8) : Prop where
  inside : Inside s q
  pos : 0 < s.c.toInt
  asked : s.c.toInt ≤ s.count.toInt
  there : s.c.toInt ≤ q.length
  toEnd : s.uartrxbuf.head.toNat + s.c.toInt ≤ s.uartrxbuf.size.toNat

/-- `c` bytes are copied, and not counted yet. -/
structure Copied (s : Task) (q : List UInt8) : Prop where
  count : s.count.toInt - s.c.toInt + s.recv_data.length = s.recv_size.toNat
  pos : 0 < s.c.toInt
  asked : s.c.toInt ≤ s.count.toInt
  ret : s.ret.toInt + s.c.toInt = s.recv_data.length
  ret_nonneg : 0 ≤ s.ret.toInt
  stored : s.recv_size.toNat ≤ s.recv_data.length + q.length

/-- What the first reading of `tail` has found, as far as the interrupt cannot change it. -/
def Branch (s : Task) (ge : Bool) : Prop :=
  ge = false → s.uartrxbuf.tail.toNat < s.uartrxbuf.head.toNat

def At (s : Task) (q : List UInt8) : Pc → Prop
  | .pend | .test => s.uartrxbuf.head.toNat < s.uartrxbuf.size.toNat
  | .cnt ge => s.uartrxbuf.head.toNat < s.uartrxbuf.size.toNat ∧ Branch s ge
  | .read => s.uartrxbuf.head.toNat < s.uartrxbuf.size.toNat ∧ Inside s q
  | .toEnd ge => s.uartrxbuf.head.toNat < s.uartrxbuf.size.toNat ∧ Inside s q ∧ Branch s ge
  | .copy => s.uartrxbuf.head.toNat < s.uartrxbuf.size.toNat ∧ Chunk s q
  | .advance cells =>
    s.uartrxbuf.head.toNat < s.uartrxbuf.size.toNat ∧ Chunk s q ∧
      cells = (q.take s.c.toInt.toNat).map some
  | .compare => s.uartrxbuf.head.toNat ≤ s.uartrxbuf.size.toNat ∧ Copied s q
  | .subtract => s.uartrxbuf.head = s.uartrxbuf.size ∧ Copied s q
  | .done =>
    s.uartrxbuf.head.toNat < s.uartrxbuf.size.toNat ∧ s.recv_data.length = s.recv_size.toNat ∧
      s.ret.toInt = s.recv_size.toNat

structure Holds (s : Task) (q : List UInt8) : Prop where
  stores : Stores (settled s.uartrxbuf) q
  size : s.uartrxbuf.size = UART_RECV_BUF_SIZE
  order : s.accepted.map some = s.obtained ++ q.map some
  place : At s q s.pc

def Inv (s : Task) : Prop := ∃ q, Holds s q

section

variable {s s' : Task} {q : List UInt8}

theorem at_head_le (h : At s q s.pc) : s.uartrxbuf.head.toNat ≤ s.uartrxbuf.size.toNat := by
  cases hpc : s.pc <;> rw [hpc] at h
  case pend => exact Nat.le_of_lt h
  case test => exact Nat.le_of_lt h
  case cnt => exact Nat.le_of_lt h.1
  case read => exact Nat.le_of_lt h.1
  case toEnd => exact Nat.le_of_lt h.1
  case copy => exact Nat.le_of_lt h.1
  case advance => exact Nat.le_of_lt h.1
  case compare => exact h.1
  case subtract => exact Nat.le_of_eq (congrArg UInt32.toNat h.1)
  case done => exact Nat.le_of_lt h.1

theorem stored_of_reading (h : At s q s.pc) (hr : s.pc.reading = true) :
    s.recv_size.toNat ≤ s.recv_data.length + q.length := by
  cases hpc : s.pc <;> rw [hpc] at h hr
  case pend => cases hr
  case test => cases hr
  case cnt => cases hr
  case read => exact h.2.stored
  case toEnd => exact h.2.1.stored
  case copy => exact h.2.inside.stored
  case advance => exact h.2.1.inside.stored
  case compare => exact h.2.stored
  case subtract => exact h.2.stored
  case done => cases hr

theorem Holds.good (h : Holds s q) : Good s where
  order := by rw [h.order, pending_eq h.stores]
  stored := fun hr => by
    rw [pending_length h.stores]
    exact stored_of_reading h.place hr
  delivered := fun hd => by
    have hp := h.place
    rw [hd] at hp
    exact hp.2

theorem boot_holds (h : Boot s) : Holds s [] where
  stores := by
    rw [h.uartrxbuf, settled_of_lt (by decide)]
    exact stores_alloc (by decide) (by decide)
  size := by
    rw [h.uartrxbuf]
    rfl
  order := by
    rw [h.accepted, h.obtained]
    rfl
  place := by
    rw [h.pc]
    change s.uartrxbuf.head.toNat < s.uartrxbuf.size.toNat
    rw [h.uartrxbuf]
    decide

/-! ### The interrupt -/

theorem Inside.append (h : Inside s q) (q' : List UInt8) {s' : Task} (hcount : s'.count = s.count)
    (hdata : s'.recv_data = s.recv_data) (hsize : s'.recv_size = s.recv_size)
    (hret : s'.ret = s.ret) : Inside s' (q ++ q') := by
  refine ⟨?_, ?_, ?_, ?_⟩
  · rw [hcount, hdata, hsize]
    exact h.count
  · rw [hcount]
    exact h.count_nonneg
  · rw [hret, hdata]
    exact h.ret
  · rw [hsize, hdata, List.length_append]
    have hstored := h.stored
    omega

/-- What the task knows stays true when the ring has more at its end. -/
theorem at_append {ring' : RingBuffer} {q' : List UInt8} {acc : List UInt8} {pc : Pc}
    (h : Stores (settled s.uartrxbuf) q) (hp : At s q pc)
    (hsize : ring'.size = s.uartrxbuf.size) (hhead : ring'.head = s.uartrxbuf.head)
    (hs : Stores (settled ring') (q ++ q')) :
    At { s with uartrxbuf := ring', accepted := acc } (q ++ q') pc := by
  have hlt : s.uartrxbuf.head.toNat < s.uartrxbuf.size.toNat →
      ring'.head.toNat < ring'.size.toNat := fun hlt => by rwa [hsize, hhead]
  have hbranch : ∀ {ge}, s.uartrxbuf.head.toNat < s.uartrxbuf.size.toNat → Branch s ge →
      Branch { s with uartrxbuf := ring', accepted := acc } ge := by
    intro ge hlt' hb hge
    have hb' := hb hge
    rw [settled_of_lt hlt'] at h
    rw [settled_of_lt (hlt hlt')] at hs
    have hplace := h.place.1
    have hplace' := hs.place
    rw [hsize, hhead, List.length_append] at hplace'
    change ring'.tail.toNat < ring'.head.toNat
    rw [hhead]
    omega
  have hchunk : Chunk s q → Chunk { s with uartrxbuf := ring', accepted := acc } (q ++ q') := by
    intro hc
    have hthere := hc.there
    have hend := hc.toEnd
    refine ⟨hc.inside.append q' rfl rfl rfl rfl, hc.pos, hc.asked, ?_, ?_⟩
    · rw [List.length_append]
      change s.c.toInt ≤ _
      omega
    · change (ring'.head.toNat : Int) + s.c.toInt ≤ ring'.size.toNat
      rw [hsize, hhead]
      exact hend
  have hcopied : Copied s q → Copied { s with uartrxbuf := ring', accepted := acc } (q ++ q') := by
    intro hc
    have hstored := hc.stored
    refine ⟨hc.count, hc.pos, hc.asked, hc.ret, hc.ret_nonneg, ?_⟩
    rw [List.length_append]
    change s.recv_size.toNat ≤ s.recv_data.length + _
    omega
  cases pc
  case pend => exact hlt hp
  case test => exact hlt hp
  case cnt => exact ⟨hlt hp.1, hbranch hp.1 hp.2⟩
  case read => exact ⟨hlt hp.1, hp.2.append q' rfl rfl rfl rfl⟩
  case toEnd => exact ⟨hlt hp.1, hp.2.1.append q' rfl rfl rfl rfl, hbranch hp.1 hp.2.2⟩
  case copy => exact ⟨hlt hp.1, hchunk hp.2⟩
  case advance =>
    refine ⟨hlt hp.1, hchunk hp.2.1, ?_⟩
    have hthere := hp.2.1.there
    have hpos := hp.2.1.pos
    rw [hp.2.2, List.take_append_of_le_length (by change s.c.toInt.toNat ≤ _; omega)]
  case compare =>
    refine ⟨?_, hcopied hp.2⟩
    change ring'.head.toNat ≤ ring'.size.toNat
    rw [hsize, hhead]
    exact hp.1
  case subtract =>
    refine ⟨?_, hcopied hp.2⟩
    change ring'.head = ring'.size
    rw [hsize, hhead]
    exact hp.1
  case done => exact ⟨hlt hp.1, hp.2⟩

/-- **The interrupt keeps the invariant, unless it fills the last cell below a `head` that stands
at `size`.** -/
theorem irq_holds {Dummy : UInt8} (h : Holds s q) (hok : Undisturbed s (.irq Dummy))
    (hs : step s (.irq Dummy) = some s') : Inv s' := by
  obtain ⟨ring', ret, hw, hsize, hhead, hq⟩ := irq_spec h.stores (at_head_le h.place) Dummy hok
  rw [step, uartDataRecv, hw, Outcome.ok_bind] at hs
  simp only [Option.some.injEq] at hs
  subst hs
  refine ⟨_, hq, hsize.trans h.size, ?_, at_append h.stores h.place hsize hhead hq⟩
  have horder := h.order
  by_cases hret : ret = 1
  · simp only [if_pos hret]
    rw [List.map_append, List.map_append, ← List.append_assoc, horder]
  · simp only [if_neg hret]
    rw [List.append_nil]
    exact horder

/-- **A byte that fills the last cell below such a `head` empties the ring.** -/
theorem irq_not_good {Dummy : UInt8} (h : Holds s q) (hok : ¬Undisturbed s (.irq Dummy))
    (hs : step s (.irq Dummy) = some s') : ¬Good s' := by
  intro hgood
  have hnot := hok
  rw [Undisturbed, not_not] at hnot
  obtain ⟨heq, hlast⟩ := hnot
  have hstores := h.stores
  have hsize : s.uartrxbuf.size.toNat = 512 := by rw [h.size]; rfl
  rw [settled_of_eq heq] at hstores
  obtain ⟨-, h1, h2, h3, -⟩ := hstores.place
  have hb := hstores.buffer_length
  dsimp only at h2 h3 hb
  have hnotfull : ringBufFull s.uartrxbuf = false := by
    rw [ringBufFull, hlast, beq_eq_false_iff_ne, Ne, ← UInt32.toNat_inj, UInt32.toNat_mod,
      Nat.mod_self, heq, hsize]
    decide
  have htail : advance s.uartrxbuf.size s.uartrxbuf.tail 1 = 0 := by
    rw [advance, hlast, if_pos (UInt32.le_of_eq rfl), UInt32.sub_self]
  rw [step, uartDataRecv, ringBufWriteChar_ok hnotfull (by omega), Outcome.ok_bind] at hs
  simp only [Option.some.injEq] at hs
  rw [htail] at hs
  subst hs
  have horder := hgood.order
  have hold := congrArg List.length h.order
  simp only [if_pos] at horder
  rw [pending, settled_of_eq (by exact heq)] at horder
  have hnew := congrArg List.length horder
  rw [if_pos (UInt32.le_of_eq rfl)] at hnew
  simp only [List.length_map, List.length_append, List.length_cons, List.length_nil,
    List.length_take, Nat.sub_self] at hold hnew
  omega

/-! ### The steps of the task -/

theorem toInt_sub {a b : UInt32} (ha : a.toNat < 2 ^ 31) (h : b.toNat ≤ a.toNat) :
    (a - b).toInt32.toInt = (a.toNat : Int) - b.toNat := by
  have hsub := toNat_sub_of_le h
  rw [toInt_toInt32 (by omega), hsub]
  omega

theorem toNat_sub_wrapped {a b : UInt32} (h : a.toNat < b.toNat) :
    (a - b).toNat = 2 ^ 32 + a.toNat - b.toNat := by
  have hb := b.toNat_lt
  rw [UInt32.toNat_sub]
  omega

/-- The `int` of a difference that has wrapped is negative. -/
theorem toInt_sub_wrapped {a b : UInt32} (hb : b.toNat < 2 ^ 31) (h : a.toNat < b.toNat) :
    (a - b).toInt32.toInt < 0 := by
  have hsub := toNat_sub_wrapped h
  have hmod : (a - b).toInt32.toInt = ((a - b).toNat : Int).bmod (2 ^ 32) := by
    rw [← Int32.toInt_toBitVec, UInt32.toBitVec_toInt32, BitVec.toInt_eq_toNat_bmod]
    rfl
  rw [hmod, Int.bmod]
  omega

theorem toNat_recv_size (x : UInt32) : x.toInt32.toUInt32.toUInt16.toNat = x.toNat % 2 ^ 16 := by
  rw [UInt32.toUInt32_toInt32, UInt32.toNat_toUInt16]

theorem toInt_count (n : UInt16) : n.toUInt32.toInt32.toInt = n.toNat := by
  have hn := n.toNat_lt
  have hword : n.toUInt32.toNat = n.toNat := UInt16.toNat_toUInt32 n
  rw [toInt_toInt32 (by omega), hword]

/-- The ring at an index. -/
theorem Holds.ring (h : Holds s q) (hlt : s.uartrxbuf.head.toNat < s.uartrxbuf.size.toNat) :
    Stores s.uartrxbuf q := by
  have hs := h.stores
  rwa [settled_of_lt hlt] at hs

theorem Holds.size_eq (h : Holds s q) : s.uartrxbuf.size.toNat = 512 := by
  rw [h.size]
  rfl

/-- What `ring_buf_cnt` computes from its second reading of `tail`. -/
def cntAt (cb : RingBuffer) (ge : Bool) : UInt16 :=
  (if ge then (cb.tail - cb.head).toInt32 else (cb.size + cb.tail - cb.head).toInt32).toUInt32.toUInt16

theorem cntAt_eq (h : Holds s q) (hlt : s.uartrxbuf.head.toNat < s.uartrxbuf.size.toNat) {ge : Bool}
    (hge : ge = true → s.uartrxbuf.head.toNat ≤ s.uartrxbuf.tail.toNat)
    (hb : Branch s ge) : (cntAt s.uartrxbuf ge).toNat = q.length := by
  obtain ⟨hp, h1, h2, h3, h0⟩ := (h.ring hlt).place
  have hsize := h.size_eq
  cases ge with
  | true =>
    have hle := hge rfl
    have hsub := toNat_sub_of_le hle
    rw [cntAt, if_pos rfl, toNat_recv_size, hsub]
    omega
  | false =>
    have hb' := hb rfl
    have hadd : (s.uartrxbuf.size + s.uartrxbuf.tail).toNat =
        s.uartrxbuf.size.toNat + s.uartrxbuf.tail.toNat := toNat_add_of_lt (by omega)
    have hsub : (s.uartrxbuf.size + s.uartrxbuf.tail - s.uartrxbuf.head).toNat =
        s.uartrxbuf.size.toNat + s.uartrxbuf.tail.toNat - s.uartrxbuf.head.toNat := by
      rw [toNat_sub_of_le (by omega), hadd]
    rw [cntAt, if_neg Bool.false_ne_true, toNat_recv_size, hsub]
    omega

theorem task_cnt {ge : Bool} (hpc : s.pc = .cnt ge) : taskStep s =
    if cntAt s.uartrxbuf ge > 0 then
      { s with
        recv_size := cntAt s.uartrxbuf ge, pc := .read
        count := (cntAt s.uartrxbuf ge).toUInt32.toInt32, ret := 0, recv_data := [] }
    else { s with recv_size := cntAt s.uartrxbuf ge, pc := .pend } := by
  rw [taskStep, hpc]
  rfl

theorem cnt_holds {ge : Bool} (h : Holds s q) (hpc : s.pc = .cnt ge)
    (hok : ge = true → s.uartrxbuf.head.toNat ≤ s.uartrxbuf.tail.toNat) : Inv (taskStep s) := by
  have hp := h.place
  rw [hpc] at hp
  obtain ⟨hlt, hb⟩ := hp
  have hn := cntAt_eq h hlt hok hb
  refine ⟨q, ?_⟩
  rw [task_cnt hpc]
  by_cases hpos : cntAt s.uartrxbuf ge > 0
  · rw [if_pos hpos]
    have hcount := toInt_count (cntAt s.uartrxbuf ge)
    refine ⟨h.stores, h.size, h.order, hlt, ?_, ?_, rfl, ?_⟩
    · exact (Int.add_zero _).trans hcount
    · exact Int.le_trans (Int.natCast_nonneg _) (Int.le_of_eq hcount.symm)
    · show (cntAt s.uartrxbuf ge).toNat ≤ 0 + q.length
      omega
  · rw [if_neg hpos]
    exact ⟨h.stores, h.size, h.order, hlt⟩

/-- **A `tail` that has come round between the two readings is counted as far too much.** -/
theorem cnt_not_good (h : Holds s q) (hpc : s.pc = .cnt true)
    (hok : s.uartrxbuf.tail.toNat < s.uartrxbuf.head.toNat) : ¬Good (taskStep s) := by
  intro hgood
  have hp := h.place
  rw [hpc] at hp
  obtain ⟨hp, h1, h2, h3, h0⟩ := (h.ring hp.1).place
  have hsize := h.size_eq
  have hsub := toNat_sub_wrapped hok
  have hn : (cntAt s.uartrxbuf true).toNat = 2 ^ 16 + s.uartrxbuf.tail.toNat -
      s.uartrxbuf.head.toNat := by
    rw [cntAt, if_pos rfl, toNat_recv_size, hsub]
    omega
  have hpos : cntAt s.uartrxbuf true > 0 := by
    rw [gt_iff_lt, UInt16.lt_iff_toNat_lt, hn]
    change 0 < _
    omega
  rw [task_cnt hpc, if_pos hpos] at hgood
  have hstored := hgood.stored rfl
  have hlen := pending_length h.stores
  simp only [hlen, hn, List.length_nil] at hstored
  omega

/-- What `ring_buf_cnt_to_end` computes from its second reading of `tail`. -/
def toEndAt (cb : RingBuffer) (ge : Bool) : Int32 :=
  if ge then (cb.tail - cb.head).toInt32 else (cb.size - cb.head).toInt32

theorem task_toEnd {ge : Bool} (hpc : s.pc = .toEnd ge) : taskStep s =
    if (if s.count < toEndAt s.uartrxbuf ge then s.count else toEndAt s.uartrxbuf ge) ≤ 0 then
      { s with
        c := if s.count < toEndAt s.uartrxbuf ge then s.count else toEndAt s.uartrxbuf ge
        pc := .done }
    else
      { s with
        c := if s.count < toEndAt s.uartrxbuf ge then s.count else toEndAt s.uartrxbuf ge
        pc := .copy } := by
  rw [taskStep, hpc]
  rfl

/-- The part that is copied, as long as the count is right. -/
theorem toEndAt_eq (h : Holds s q) (hlt : s.uartrxbuf.head.toNat < s.uartrxbuf.size.toNat) {ge : Bool}
    (hge : ge = true → s.uartrxbuf.head.toNat ≤ s.uartrxbuf.tail.toNat) (hb : Branch s ge) :
    (toEndAt s.uartrxbuf ge).toInt =
      (min q.length (s.uartrxbuf.size.toNat - s.uartrxbuf.head.toNat) : Nat) := by
  obtain ⟨hp, h1, h2, h3, h0⟩ := (h.ring hlt).place
  cases ge with
  | true =>
    have hle := hge rfl
    rw [toEndAt, if_pos rfl, toInt_sub (by omega) hle]
    omega
  | false =>
    have hb' := hb rfl
    rw [toEndAt, if_neg Bool.false_ne_true, toInt_sub h0 (by omega)]
    omega

theorem le_zero_iff {c : Int32} : c ≤ 0 ↔ c.toInt ≤ 0 := Int32.le_iff_toInt_le

/-- Nothing left to be read. -/
theorem toEnd_done {x : Int32} (h : s.count ≤ 0) : (if s.count < x then s.count else x) ≤ 0 := by
  by_cases hlt : s.count < x
  · rw [if_pos hlt]
    exact h
  · have hx : ¬s.count.toInt < x.toInt := fun hc => hlt (Int32.lt_iff_toInt_lt.mpr hc)
    rw [if_neg hlt, le_zero_iff]
    have h' := le_zero_iff.mp h
    omega

theorem done_holds {c : Int32} (h : Holds s q) (hlt : s.uartrxbuf.head.toNat < s.uartrxbuf.size.toNat)
    (hin : Inside s q) (hcount : s.count.toInt ≤ 0) : Holds { s with c := c, pc := .done } q := by
  have h1 := hin.count
  have h2 := hin.count_nonneg
  have h3 := hin.ret
  refine ⟨h.stores, h.size, h.order, hlt, ?_, ?_⟩
  · show s.recv_data.length = s.recv_size.toNat
    omega
  · show s.ret.toInt = s.recv_size.toNat
    omega

theorem toEnd_holds {ge : Bool} (h : Holds s q) (hpc : s.pc = .toEnd ge)
    (hok : ge = true → s.uartrxbuf.head.toNat ≤ s.uartrxbuf.tail.toNat ∨ s.count ≤ 0) :
    Inv (taskStep s) := by
  have hp := h.place
  rw [hpc] at hp
  obtain ⟨hlt, hin, hb⟩ := hp
  refine ⟨q, ?_⟩
  rw [task_toEnd hpc]
  by_cases hzero : s.count ≤ 0
  · rw [if_pos (toEnd_done hzero)]
    exact done_holds h hlt hin (le_zero_iff.mp hzero)
  · have hpart := toInt_part s.count (toEndAt_eq h hlt (fun hge => (hok hge).resolve_right hzero) hb)
    generalize (if s.count < toEndAt s.uartrxbuf ge then s.count
      else toEndAt s.uartrxbuf ge) = c at hpart ⊢
    have hcount : ¬s.count.toInt ≤ 0 := fun hc => hzero (le_zero_iff.mpr hc)
    have h1 := hin.count
    have h3 := hin.stored
    by_cases hc : c ≤ 0
    · -- the ring would have to be empty, and it has as much as is asked for
      have hc' := le_zero_iff.mp hc
      omega
    · have hc' : ¬c.toInt ≤ 0 := fun hc' => hc (le_zero_iff.mpr hc')
      rw [if_neg hc]
      refine ⟨h.stores, h.size, h.order, hlt, ⟨hin.count, hin.count_nonneg, hin.ret, hin.stored⟩,
        ?_, ?_, ?_, ?_⟩
      · show 0 < c.toInt
        omega
      · show c.toInt ≤ s.count.toInt
        omega
      · show c.toInt ≤ q.length
        omega
      · show s.uartrxbuf.head.toNat + c.toInt ≤ s.uartrxbuf.size.toNat
        omega

/-- **A `tail` that has come round between the two readings ends the reading.** -/
theorem toEnd_not_good (h : Holds s q) (hpc : s.pc = .toEnd true)
    (htail : s.uartrxbuf.tail.toNat < s.uartrxbuf.head.toNat) (hcount : ¬s.count ≤ 0) :
    ¬Good (taskStep s) := by
  intro hgood
  have hp := h.place
  rw [hpc] at hp
  obtain ⟨hlt, hin, -⟩ := hp
  have hsize := h.size_eq
  have hneg : (toEndAt s.uartrxbuf true).toInt < 0 := by
    rw [toEndAt, if_pos rfl]
    exact toInt_sub_wrapped (by omega) htail
  have hcount' : ¬s.count.toInt ≤ 0 := fun hc => hcount (le_zero_iff.mpr hc)
  have hge : ¬s.count < toEndAt s.uartrxbuf true := fun hc => by
    have hc' := Int32.lt_iff_toInt_lt.mp hc
    omega
  rw [task_toEnd hpc, if_neg hge, if_pos (le_zero_iff.mpr (by omega))] at hgood
  have hdelivered := (hgood.delivered rfl).1
  have h1 := hin.count
  simp only at hdelivered
  omega

theorem copy_holds (h : Holds s q) (hpc : s.pc = .copy) : Inv (taskStep s) := by
  have hp := h.place
  rw [hpc] at hp
  obtain ⟨hlt, hc⟩ := hp
  have hpos := hc.pos
  have hthere := hc.there
  have hend := hc.toEnd
  have hb := (h.ring hlt).buffer_length
  have hword : s.c.toUInt32.toNat = s.c.toInt.toNat := toNat_toUInt32 (by omega)
  have hload := (h.ring hlt).load (n := s.c.toInt.toNat) (by omega) (by omega)
  rw [Block.load, if_pos (by omega), Outcome.ok.injEq] at hload
  have hs : taskStep s = { s with
      pc := .advance ((s.uartrxbuf.buffer.drop s.uartrxbuf.head.toNat).take s.c.toUInt32.toNat) } := by
    rw [taskStep, hpc]
  rw [hs, hword, hload]
  exact ⟨q, h.stores, h.size, h.order, hlt,
    ⟨⟨hc.inside.count, hc.inside.count_nonneg, hc.inside.ret, hc.inside.stored⟩, hc.pos, hc.asked,
      hc.there, hc.toEnd⟩, rfl⟩

theorem advance_holds {cells : Block} (h : Holds s q) (hpc : s.pc = .advance cells) :
    Inv (taskStep s) := by
  have hp := h.place
  rw [hpc] at hp
  obtain ⟨hlt, hc, hcells⟩ := hp
  have hsize := h.size_eq
  have hpos := hc.pos
  have hasked := hc.asked
  have hthere := hc.there
  have hend := hc.toEnd
  have hcount := hc.inside.count
  have hret := hc.inside.ret
  have hstored := hc.inside.stored
  have hword : s.c.toUInt32.toNat = s.c.toInt.toNat := toNat_toUInt32 (by omega)
  have hlen : cells.length = s.c.toInt.toNat := by
    rw [hcells, List.length_map, List.length_take]
    omega
  have hadd : (s.uartrxbuf.head + s.c.toUInt32).toNat = s.uartrxbuf.head.toNat + s.c.toInt.toNat := by
    rw [toNat_add_of_lt (by omega), hword]
  have hs : taskStep s = { s with
      uartrxbuf := { s.uartrxbuf with head := s.uartrxbuf.head + s.c.toUInt32 }
      recv_data := s.recv_data ++ cells
      obtained := s.obtained ++ cells
      pc := .compare } := by
    rw [taskStep, hpc]
  have hout := (h.ring hlt).copyOut (w := s.c.toUInt32) (by omega)
  rw [← advance_head, hword] at hout
  rw [hs]
  refine ⟨q.drop s.c.toInt.toNat, hout, h.size, ?_, ?_, ?_, hpos, hasked, ?_, ?_, ?_⟩
  · show s.accepted.map some = s.obtained ++ cells ++ (q.drop s.c.toInt.toNat).map some
    rw [h.order, hcells, List.append_assoc, ← List.map_append, List.take_append_drop]
  · show (s.uartrxbuf.head + s.c.toUInt32).toNat ≤ s.uartrxbuf.size.toNat
    omega
  · show s.count.toInt - s.c.toInt + ((s.recv_data ++ cells).length : Nat) = s.recv_size.toNat
    rw [List.length_append]
    omega
  · show s.ret.toInt + s.c.toInt = ((s.recv_data ++ cells).length : Nat)
    rw [List.length_append]
    omega
  · show 0 ≤ s.ret.toInt
    omega
  · show s.recv_size.toNat ≤ (s.recv_data ++ cells).length + (q.drop s.c.toInt.toNat).length
    rw [List.length_append, List.length_drop]
    omega

/-- The counts at the end of a round. -/
theorem Copied.next {ring' : RingBuffer} (h : Copied s q) :
    Inside (nextRound { s with uartrxbuf := ring' }) q := by
  have h1 := h.count
  have h2 := h.pos
  have h3 := h.asked
  have h4 := h.ret
  have h5 := h.ret_nonneg
  have hn := s.recv_size.toNat_lt
  have hsub := toInt_sub_of_le (a := s.count) (b := s.c) (by omega) (by omega)
  have hadd := toInt_add_of_lt (a := s.ret) (b := s.c) (by omega) (by omega) (by omega)
  refine ⟨?_, ?_, ?_, h.stored⟩
  · show (s.count - s.c).toInt + (s.recv_data.length : Nat) = s.recv_size.toNat
    omega
  · show 0 ≤ (s.count - s.c).toInt
    omega
  · show (s.ret + s.c).toInt = (s.recv_data.length : Nat)
    omega

theorem compare_holds (h : Holds s q) (hpc : s.pc = .compare) : Inv (taskStep s) := by
  have hp := h.place
  rw [hpc] at hp
  obtain ⟨hle, hc⟩ := hp
  refine ⟨q, ?_⟩
  by_cases hge : s.uartrxbuf.head ≥ s.uartrxbuf.size
  · have hs : taskStep s = { s with pc := .subtract } := by
      rw [taskStep, hpc]
      exact if_pos hge
    have hle' := UInt32.le_iff_toNat_le.mp hge
    have heq : s.uartrxbuf.head = s.uartrxbuf.size := UInt32.toNat_inj.mp (by omega)
    rw [hs]
    exact ⟨h.stores, h.size, h.order, heq,
      ⟨hc.count, hc.pos, hc.asked, hc.ret, hc.ret_nonneg, hc.stored⟩⟩
  · have hs : taskStep s = nextRound { s with uartrxbuf := s.uartrxbuf } := by
      rw [taskStep, hpc]
      exact if_neg hge
    have hlt : ¬s.uartrxbuf.size.toNat ≤ s.uartrxbuf.head.toNat := fun hle' =>
      hge (UInt32.le_iff_toNat_le.mpr hle')
    rw [hs]
    exact ⟨h.stores, h.size, h.order, Nat.lt_of_not_le hlt, hc.next⟩

theorem subtract_holds (h : Holds s q) (hpc : s.pc = .subtract) : Inv (taskStep s) := by
  have hp := h.place
  rw [hpc] at hp
  obtain ⟨heq, hc⟩ := hp
  have hsub : s.uartrxbuf.head - s.uartrxbuf.size = 0 := by rw [heq, UInt32.sub_self]
  have hstores := h.stores
  rw [settled_of_eq heq] at hstores
  have hs : taskStep s = nextRound { s with uartrxbuf := { s.uartrxbuf with head := 0 } } := by
    rw [taskStep, hpc]
    change nextRound { s with
      uartrxbuf := { s.uartrxbuf with head := s.uartrxbuf.head - s.uartrxbuf.size } } = _
    rw [hsub]
    rfl
  have hlt := hstores.head_lt
  refine ⟨q, ?_⟩
  rw [hs]
  refine ⟨?_, h.size, h.order, hlt, hc.next⟩
  show Stores (settled { s.uartrxbuf with head := 0 }) q
  rw [settled_of_lt (by exact hlt)]
  exact hstores

/-- **A step of the task keeps the invariant, or breaks the property.** -/
theorem task_cases (h : Holds s q) : Undisturbed s .task ∧ Inv (taskStep s) ∨
    ¬Undisturbed s .task ∧ ¬Good (taskStep s) := by
  have hle : s.uartrxbuf.head ≤ s.uartrxbuf.tail ↔
      s.uartrxbuf.head.toNat ≤ s.uartrxbuf.tail.toNat := UInt32.le_iff_toNat_le
  have hp := h.place
  cases hpc : s.pc with
  | pend =>
    have hs : taskStep s = { s with pc := .test } := by rw [taskStep, hpc]
    rw [hpc] at hp
    refine .inl ⟨by rw [Undisturbed, hpc]; exact trivial, q, ?_⟩
    rw [hs]
    exact ⟨h.stores, h.size, h.order, hp⟩
  | test =>
    have hs : taskStep s = { s with
        pc := .cnt (decide (s.uartrxbuf.tail ≥ s.uartrxbuf.head)) } := by rw [taskStep, hpc]
    rw [hpc] at hp
    refine .inl ⟨by rw [Undisturbed, hpc]; exact trivial, q, ?_⟩
    rw [hs]
    refine ⟨h.stores, h.size, h.order, hp, fun hfalse => ?_⟩
    exact Nat.lt_of_not_le fun hc => of_decide_eq_false hfalse (hle.mpr hc)
  | cnt ge =>
    cases ge with
    | true =>
      by_cases hok : s.uartrxbuf.head ≤ s.uartrxbuf.tail
      · exact .inl ⟨by rw [Undisturbed, hpc]; exact hok, cnt_holds h hpc fun _ => hle.mp hok⟩
      · exact .inr ⟨by rw [Undisturbed, hpc]; exact hok,
          cnt_not_good h hpc (Nat.lt_of_not_le fun hc => hok (hle.mpr hc))⟩
    | false =>
      exact .inl ⟨by rw [Undisturbed, hpc]; exact trivial, cnt_holds h hpc fun hf => by cases hf⟩
  | read =>
    have hs : taskStep s = { s with
        pc := .toEnd (decide (s.uartrxbuf.tail ≥ s.uartrxbuf.head)) } := by rw [taskStep, hpc]
    rw [hpc] at hp
    obtain ⟨hlt, hin⟩ := hp
    refine .inl ⟨by rw [Undisturbed, hpc]; exact trivial, q, ?_⟩
    rw [hs]
    refine ⟨h.stores, h.size, h.order, hlt,
      ⟨hin.count, hin.count_nonneg, hin.ret, hin.stored⟩, fun hfalse => ?_⟩
    exact Nat.lt_of_not_le fun hc => of_decide_eq_false hfalse (hle.mpr hc)
  | toEnd ge =>
    cases ge with
    | true =>
      by_cases hok : s.uartrxbuf.head ≤ s.uartrxbuf.tail ∨ s.count ≤ 0
      · exact .inl ⟨by rw [Undisturbed, hpc]; exact hok,
          toEnd_holds h hpc fun _ => hok.imp hle.mp id⟩
      · refine .inr ⟨by rw [Undisturbed, hpc]; exact hok, toEnd_not_good h hpc ?_ ?_⟩
        · exact Nat.lt_of_not_le fun hc => hok (.inl (hle.mpr hc))
        · exact fun hc => hok (.inr hc)
    | false =>
      exact .inl ⟨by rw [Undisturbed, hpc]; exact trivial, toEnd_holds h hpc fun hf => by cases hf⟩
  | copy => exact .inl ⟨by rw [Undisturbed, hpc]; exact trivial, copy_holds h hpc⟩
  | advance cells => exact .inl ⟨by rw [Undisturbed, hpc]; exact trivial, advance_holds h hpc⟩
  | compare => exact .inl ⟨by rw [Undisturbed, hpc]; exact trivial, compare_holds h hpc⟩
  | subtract => exact .inl ⟨by rw [Undisturbed, hpc]; exact trivial, subtract_holds h hpc⟩
  | done =>
    have hs : taskStep s = { s with pc := .pend } := by rw [taskStep, hpc]
    rw [hpc] at hp
    refine .inl ⟨by rw [Undisturbed, hpc]; exact trivial, q, ?_⟩
    rw [hs]
    exact ⟨h.stores, h.size, h.order, hp.1⟩

theorem step_inv {a : Act} (h : Inv s) (hok : Undisturbed s a) (hs : step s a = some s') :
    Inv s' := by
  obtain ⟨q, h⟩ := h
  cases a with
  | task =>
    cases hs
    rcases task_cases h with ⟨-, hinv⟩ | ⟨hno, -⟩
    · exact hinv
    · exact absurd hok hno
  | irq Dummy => exact irq_holds h hok hs

theorem step_good_iff {a : Act} (h : Inv s) (hs : step s a = some s') :
    Good s' ↔ Undisturbed s a := by
  constructor
  · intro hgood
    by_contra hok
    obtain ⟨q, h⟩ := h
    cases a with
    | task =>
      cases hs
      rcases task_cases h with ⟨hyes, -⟩ | ⟨-, hbad⟩
      · exact hok hyes
      · exact hbad hgood
    | irq Dummy => exact irq_not_good h hok hs hgood
  · intro hok
    obtain ⟨q, h'⟩ := step_inv h hok hs
    exact h'.good

end

theorem reached_inv {s : Task} (h : Reach Boot step Undisturbed s) : Inv s :=
  h.invariant (fun _ hs => ⟨[], boot_holds hs⟩) fun _ _ _ hi hok hs => step_inv hi hok hs

theorem settled_same (ring : RingBuffer) : (settled ring).size = ring.size ∧
    (settled ring).tail = ring.tail ∧ (settled ring).buffer = ring.buffer := by
  rw [settled]
  split <;> exact ⟨rfl, rfl, rfl⟩

/-- The interrupt stores inside the buffer, disturbed or not. -/
theorem reached_possible {s : Task} (h : Reach Boot step Undisturbed s) (a : Act) :
    ∃ s', step s a = some s' := by
  obtain ⟨q, hq⟩ := reached_inv h
  cases a with
  | task => exact ⟨_, rfl⟩
  | irq Dummy =>
    obtain ⟨h1, h2, h3⟩ := settled_same s.uartrxbuf
    have htail := hq.stores.place.2.2.1
    have hb := hq.stores.buffer_length
    rw [h1, h2] at htail
    rw [h1, h3] at hb
    rw [step, uartDataRecv]
    by_cases hfull : ringBufFull s.uartrxbuf = true
    · rw [ringBufWriteChar_full hfull, Outcome.ok_bind]
      exact ⟨_, rfl⟩
    · rw [ringBufWriteChar_ok (Bool.not_eq_true _ ▸ hfull) (by omega), Outcome.ok_bind]
      exact ⟨_, rfl⟩

/-- **The bytes come in order exactly while every interruption is harmless.**  They do in every
state that is reached by harmless steps, and the first step that is not harmless breaks it. -/
theorem uart_in_order {s : Task} (h : Reach Boot step Undisturbed s) :
    Good s ∧ ∀ a s', step s a = some s' → (Good s' ↔ Undisturbed s a) := by
  obtain ⟨q, hq⟩ := reached_inv h
  refine ⟨hq.good, fun a s' hs => ?_⟩
  exact step_good_iff ⟨q, hq⟩ hs

/-- The state behind `uart_init`. -/
def start : Task := ⟨ringBufAlloc UART_RECV_BUF_SIZE, .pend, 0, 0, 0, 0, [], [], []⟩

theorem start_boot : Boot start := ⟨rfl, rfl, rfl, rfl⟩

theorem uart_in_order_start : Good start ∧ ∀ a s', step start a = some s' →
    (Good s' ↔ Undisturbed start a) :=
  uart_in_order (.start start_boot)

/-! ### A run that breaks it -/

/-- The ring with `n` bytes at its front. -/
def filled (n : Nat) (b : Block) : RingBuffer := ⟨UART_RECV_BUF_SIZE, 0, UInt32.ofNat n, b⟩

theorem filled_writeChar {n : Nat} {b : Block} (hb : b.length = 512) (hn : n < 511) (Dummy : UInt8) :
    ∃ b', b'.length = 512 ∧ ringBufWriteChar (filled n b) Dummy = .ok (filled (n + 1) b', 1) := by
  have hsize : UART_RECV_BUF_SIZE.toNat = 512 := rfl
  have hone : (1 : UInt32).toNat = 1 := rfl
  have hzero : (0 : UInt32).toNat = 0 := rfl
  have htail : (UInt32.ofNat n).toNat = n := UInt32.toNat_ofNat_of_lt' (by change n < 2 ^ 32; omega)
  have htail' : (UInt32.ofNat (n + 1)).toNat = n + 1 :=
    UInt32.toNat_ofNat_of_lt' (by change n + 1 < 2 ^ 32; omega)
  have hadd : UInt32.ofNat n + 1 = UInt32.ofNat (n + 1) := by
    rw [← UInt32.toNat_inj, toNat_add_of_lt (by omega), htail, htail', hone]
  have hnot : ringBufFull (filled n b) = false := by
    have hne : (UInt32.ofNat n + 1) % UART_RECV_BUF_SIZE ≠ 0 := by
      rw [Ne, ← UInt32.toNat_inj, UInt32.toNat_mod, hadd, htail', hsize,
        Nat.mod_eq_of_lt (by omega), hzero]
      omega
    exact beq_eq_false_iff_ne.mpr hne
  have hadvance : advance UART_RECV_BUF_SIZE (UInt32.ofNat n) 1 = UInt32.ofNat (n + 1) := by
    rw [advance, hadd, if_neg fun hge => by
      have hle := UInt32.le_iff_toNat_le.mp hge
      omega]
  have hfit : (UInt32.ofNat n).toNat + 1 ≤ b.length := by omega
  refine ⟨b.put (UInt32.ofNat n).toNat ([Dummy].map some), (Block.length_put hfit).trans hb, ?_⟩
  rw [ringBufWriteChar_ok hnot (by exact hfit)]
  change Outcome.ok ((⟨UART_RECV_BUF_SIZE, 0, advance UART_RECV_BUF_SIZE (UInt32.ofNat n) 1,
    _⟩ : RingBuffer), (1 : Int32)) = _
  rw [hadvance]
  rfl

theorem run_fill : ∀ n, n ≤ 511 → ∃ b acc, b.length = 512 ∧
    run step start (List.replicate n (.irq 0)) =
      some { start with uartrxbuf := filled n b, accepted := acc } := by
  intro n
  induction n with
  | zero =>
    intro _
    exact ⟨_, [], Block.length_malloc _, rfl⟩
  | succ n ih =>
    intro hn
    obtain ⟨b, acc, hb, hrun⟩ := ih (by omega)
    obtain ⟨b', hb', hw⟩ := filled_writeChar (n := n) hb (by omega) 0
    refine ⟨b', acc ++ [0], hb', ?_⟩
    rw [List.replicate_succ', run_append hrun]
    rw [run, step, uartDataRecv, hw, Outcome.ok_bind]
    rfl

theorem run_task (s : Task) (as : List Act) : run step s (.task :: as) = run step (taskStep s) as := rfl

section

variable (b : Block) (r : UInt16) (c n t : Int32) (d o : Block) (a : List UInt8)

/-- The task counts 511 bytes. -/
theorem counts_all : run step ⟨filled 511 b, .pend, r, c, n, t, d, o, a⟩ [.task, .task, .task] =
    some ⟨filled 511 b, .read, 511, c, 511, 0, [], o, a⟩ := by
  have hcnt : cntAt (filled 511 b) true = 511 :=
    (by decide : ((511 : UInt32) - 0).toInt32.toUInt32.toUInt16 = 511)
  have hge : decide ((filled 511 b).tail ≥ (filled 511 b).head) = true :=
    (by decide : decide ((511 : UInt32) ≥ 0) = true)
  rw [run_task, run_task, run_task]
  have h1 : taskStep ⟨filled 511 b, .pend, r, c, n, t, d, o, a⟩ =
      ⟨filled 511 b, .test, r, c, n, t, d, o, a⟩ := rfl
  have h2 : taskStep ⟨filled 511 b, .test, r, c, n, t, d, o, a⟩ =
      ⟨filled 511 b, .cnt true, r, c, n, t, d, o, a⟩ := by
    rw [← hge]
    rfl
  have hcount : (511 : UInt16).toUInt32.toInt32 = 511 := by decide
  rw [h1, h2, task_cnt rfl]
  simp only [hcnt, hcount]
  rw [if_pos (by decide)]
  rfl

/-- The ring behind the bytes. -/
def drained (b : Block) : RingBuffer := ⟨UART_RECV_BUF_SIZE, 511, 511, b⟩

theorem copies_all : ∃ t' d' o', run step ⟨filled 511 b, .read, r, c, 511, t, d, o, a⟩
    [.task, .task, .task, .task, .task] = some ⟨drained b, .read, r, 511, 0, t', d', o', a⟩ := by
  have hge : decide ((filled 511 b).tail ≥ (filled 511 b).head) = true :=
    (by decide : decide ((511 : UInt32) ≥ 0) = true)
  have hend : toEndAt (filled 511 b) true = 511 :=
    (by decide : ((511 : UInt32) - 0).toInt32 = 511)
  have hhead : (filled 511 b).head + (511 : Int32).toUInt32 = 511 :=
    (by decide : (0 : UInt32) + (511 : Int32).toUInt32 = 511)
  refine ⟨t + 511, d ++ (b.drop 0).take (511 : Int32).toUInt32.toNat,
    o ++ (b.drop 0).take (511 : Int32).toUInt32.toNat, ?_⟩
  rw [run_task, run_task, run_task, run_task, run_task]
  have h1 : taskStep ⟨filled 511 b, .read, r, c, 511, t, d, o, a⟩ =
      ⟨filled 511 b, .toEnd true, r, c, 511, t, d, o, a⟩ := by
    rw [← hge]
    rfl
  have h2 : taskStep ⟨filled 511 b, .toEnd true, r, c, 511, t, d, o, a⟩ =
      ⟨filled 511 b, .copy, r, 511, 511, t, d, o, a⟩ := by
    rw [task_toEnd rfl]
    simp only [hend]
    rw [if_neg (by decide)]
    rfl
  have h3 : taskStep ⟨filled 511 b, .copy, r, 511, 511, t, d, o, a⟩ =
      ⟨filled 511 b, .advance ((b.drop 0).take (511 : Int32).toUInt32.toNat), r, 511, 511, t, d, o,
        a⟩ := rfl
  have h4 : taskStep ⟨filled 511 b, .advance ((b.drop 0).take (511 : Int32).toUInt32.toNat), r, 511,
      511, t, d, o, a⟩ = ⟨drained b, .compare, r, 511, 511, t,
        d ++ (b.drop 0).take (511 : Int32).toUInt32.toNat,
        o ++ (b.drop 0).take (511 : Int32).toUInt32.toNat, a⟩ := by
    rw [taskStep, drained]
    simp only [hhead]
    rfl
  have h5 : ∀ d o, taskStep ⟨drained b, .compare, r, 511, 511, t, d, o, a⟩ =
      ⟨drained b, .read, r, 511, 0, t + 511, d, o, a⟩ := by
    intro d o
    have hsub : (511 : Int32) - 511 = 0 := by decide
    rw [taskStep, ← hsub]
    exact if_neg (by decide : ¬(511 : UInt32) ≥ UART_RECV_BUF_SIZE)
  rw [h1, h2, h3, h4, h5]
  rfl

theorem ends_and_tests : run step ⟨drained b, .read, r, c, 0, t, d, o, a⟩
    [.task, .task, .task, .task, .task] = some ⟨drained b, .cnt true, r, 0, 0, t, d, o, a⟩ := by
  have hge : decide ((drained b).tail ≥ (drained b).head) = true :=
    (by decide : decide ((511 : UInt32) ≥ 511) = true)
  have hend : toEndAt (drained b) true = 0 :=
    (by decide : ((511 : UInt32) - 511).toInt32 = 0)
  rw [run_task, run_task, run_task, run_task, run_task]
  have h1 : taskStep ⟨drained b, .read, r, c, 0, t, d, o, a⟩ =
      ⟨drained b, .toEnd true, r, c, 0, t, d, o, a⟩ := by
    rw [← hge]
    rfl
  have h2 : taskStep ⟨drained b, .toEnd true, r, c, 0, t, d, o, a⟩ =
      ⟨drained b, .done, r, 0, 0, t, d, o, a⟩ := by
    rw [task_toEnd rfl]
    simp only [hend]
    rw [if_pos (by decide)]
    rfl
  have h3 : taskStep ⟨drained b, .done, r, 0, 0, t, d, o, a⟩ =
      ⟨drained b, .pend, r, 0, 0, t, d, o, a⟩ := rfl
  have h4 : taskStep ⟨drained b, .pend, r, 0, 0, t, d, o, a⟩ =
      ⟨drained b, .test, r, 0, 0, t, d, o, a⟩ := rfl
  have h5 : taskStep ⟨drained b, .test, r, 0, 0, t, d, o, a⟩ =
      ⟨drained b, .cnt true, r, 0, 0, t, d, o, a⟩ := by
    rw [← hge]
    rfl
  rw [h1, h2, h3, h4, h5]
  rfl

/-- A byte comes between the two readings, and `tail` is 0 again. -/
theorem comes_round (hb : b.length = 512) : ∃ b' : Block, b'.length = 512 ∧
    run step ⟨drained b, .cnt true, r, c, n, t, d, o, a⟩ [.irq 0, .task] =
      some ⟨⟨UART_RECV_BUF_SIZE, 511, 0, b'⟩, .read, 65025, c,
        (65025 : UInt16).toUInt32.toInt32, 0, [], o, a ++ [0]⟩ := by
  have hnot : ringBufFull (drained b) = false :=
    (by decide : ((511 + 1 : UInt32) % UART_RECV_BUF_SIZE == 511) = false)
  have htail : (drained b).tail.toNat + 1 ≤ b.length := by
    rw [hb]
    exact (by decide : (511 : UInt32).toNat + 1 ≤ 512)
  have hadvance : advance (drained b).size (drained b).tail 1 = 0 :=
    (by decide : advance UART_RECV_BUF_SIZE 511 1 = 0)
  refine ⟨b.put (drained b).tail.toNat ([(0 : UInt8)].map some), (Block.length_put htail).trans hb, ?_⟩
  have hcnt : ∀ b', cntAt ⟨UART_RECV_BUF_SIZE, 511, 0, b'⟩ true = 65025 := fun b' =>
    (by decide : ((0 : UInt32) - 511).toInt32.toUInt32.toUInt16 = 65025)
  have hirq : step ⟨drained b, .cnt true, r, c, n, t, d, o, a⟩ (.irq 0) =
      some ⟨⟨UART_RECV_BUF_SIZE, 511, 0, b.put (drained b).tail.toNat ([(0 : UInt8)].map some)⟩,
        .cnt true, r, c, n, t, d, o, a ++ [0]⟩ := by
    rw [step, uartDataRecv, ringBufWriteChar_ok hnot htail, Outcome.ok_bind, hadvance]
    rfl
  rw [run, hirq, Option.bind_some, run_task, task_cnt rfl]
  simp only [hcnt]
  rw [if_pos (by decide)]
  rfl

end

/-- 511 bytes come in and are read; one more comes while they are counted again. -/
def missed : List Act :=
  List.replicate 511 (.irq 0) ++ ([.task, .task, .task] ++ ([.task, .task, .task, .task, .task] ++
    ([.task, .task, .task, .task, .task] ++ [.irq 0, .task])))

/-- The one byte in the ring is counted as 65025. -/
theorem miscount : ∃ s, run step start missed = some s ∧ Boot start ∧ s.recv_size = 65025 ∧
    (pending s.uartrxbuf).length = 1 ∧ s.recv_data = [] ∧ ¬Good s := by
  obtain ⟨b, acc, hb, hfill⟩ := run_fill 511 (Nat.le_refl _)
  obtain ⟨t, d, o, hcopy⟩ := copies_all b 511 0 0 [] [] acc
  obtain ⟨b', hb', hround⟩ := comes_round b 511 0 0 t d o acc hb
  have hlen : (pending ⟨UART_RECV_BUF_SIZE, 511, 0, b'⟩).length = 1 := by
    have hsettled : settled ⟨UART_RECV_BUF_SIZE, 511, 0, b'⟩ = ⟨UART_RECV_BUF_SIZE, 511, 0, b'⟩ :=
      if_neg (by decide : ¬(511 : UInt32) ≥ UART_RECV_BUF_SIZE)
    have h511 : (511 : UInt32).toNat = 511 := rfl
    have h0 : (0 : UInt32).toNat = 0 := rfl
    rw [pending, hsettled, if_neg (by decide : ¬(0 : UInt32) ≥ 511), List.length_append,
      List.length_drop, List.length_take, hb', h511, h0]
    decide
  have h3 := (run_append (ends_and_tests b 511 511 t d o acc)).trans hround
  have h2 := (run_append hcopy).trans h3
  have h1 := (run_append (counts_all b 0 0 0 0 [] [] acc)).trans h2
  have hrun : run step start missed = _ := (run_append hfill).trans h1
  refine ⟨_, hrun, start_boot, rfl, hlen, rfl, fun hgood => ?_⟩
  have hstored := hgood.stored rfl
  simp only [hlen] at hstored
  exact absurd hstored (by decide)

end Nl6621.NuAgent.Uart
