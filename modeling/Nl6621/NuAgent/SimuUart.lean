import Mathlib.Data.List.Basic
import Mathlib.Tactic.Common
import Mathlib.Tactic.IntervalCases

/-!
# The UART on two pins

`simu_uart.c` sends a byte by setting a pin and waiting, and receives with two handlers: the
interrupt of the pin starts timer 1, and the timer takes a sample of the line in each bit time.  The
line has one level in each bit time.  In a bit time the interrupt comes first, if it is enabled and
the line is low, and then the timer, which goes on once it has been started (`bitTime`).

Between two bit times in which no frame is on the line the receiver is in one of two states
(`Ready`): it waits for the interrupt, or it listens with the timer for the next start bit.  An idle
bit time leads to the first (`Ready.idle`), and a whole frame leads from either to either, with one
byte more received (`Ready.frame`).  The receiver therefore gets every byte of every transmission
(`simuUart_receives`).
-/

namespace Nl6621.NuAgent.SimuUart

/-! ### The sender -/

/-- What `SimuSendOneByte` does: it sets the level of its pin, and waits. -/
inductive TxOp where
  | setValue (level : Bool)
  | usecDelay (us : Nat)
deriving DecidableEq

def simuSendOneByte (byte : UInt8) : List TxOp :=
  [.setValue false, .usecDelay 104] ++
    (List.range 8).flatMap (fun i =>
      if byte >>> UInt8.ofNat i &&& 0x01 = 0 then [.setValue false, .usecDelay 104]
      else [.setValue true, .usecDelay 104]) ++
    [.setValue true, .usecDelay 104]

/-- The levels of the line, one for each bit time of 104 microseconds. -/
def levels : Bool → List TxOp → List Bool
  | _, [] => []
  | _, .setValue level :: ops => levels level ops
  | level, .usecDelay us :: ops => List.replicate (us / 104) level ++ levels level ops

/-- The line while bytes are sent, with idle bit times in front of each. -/
def line : List (Nat × UInt8) → List Bool
  | [] => []
  | (gap, byte) :: frames =>
    List.replicate gap true ++ levels true (simuSendOneByte byte) ++ line frames

/-! ### The receiver -/

/-- The globals of the receiver, whether the interrupt of the pin is enabled and timer 1 runs, and the
bytes given to `uart_data_recv`.  The counters stay below 10 as long as they count. -/
structure Receiver where
  data_cnt : Int
  byte : UInt8
  recv_stop_flag : UInt8
  bytes_cnt : Nat
  gpioInt : Bool
  timer1 : Bool
  received : List UInt8

/-- `simu_uart_timer_task`; the argument is what `BSP_GPIOGetValue` returns. -/
def simuUartTimerTask (gpio_value : Int) (u : Receiver) : Int × Receiver :=
  if u.recv_stop_flag = 0 then
    if u.data_cnt = 0 then
      if gpio_value ≠ 0 then (-1, { u with recv_stop_flag := 1, gpioInt := true })
      else (0, { u with byte := 0, data_cnt := u.data_cnt + 1 })
    else if 1 ≤ u.data_cnt ∧ u.data_cnt ≤ 8 then
      let byte := u.byte >>> 1
      (0, { u with
        byte := if gpio_value = 1 then byte ||| 0x80 else byte
        data_cnt := u.data_cnt + 1 })
    else if 9 ≤ u.data_cnt then
      let u := if gpio_value = 1 then { u with received := u.received ++ [u.byte] } else u
      let u := { u with data_cnt := 0, bytes_cnt := u.bytes_cnt + 1 }
      (0, if u.bytes_cnt > 8 then { u with recv_stop_flag := 1, gpioInt := true } else u)
    else (0, { u with data_cnt := u.data_cnt + 1 })
  else (0, u)

def gpioIntFunc (gpio_value : Int) (u : Receiver) : Receiver :=
  let u := { u with gpioInt := false }
  if gpio_value = 0 then
    { u with bytes_cnt := 0, data_cnt := 0, recv_stop_flag := 0, timer1 := true }
  else { u with gpioInt := true }

/-- The value of the pin. -/
def gpioValue (level : Bool) : Int := if level then 1 else 0

/-- A bit time of the receiver. -/
def bitTime (u : Receiver) (level : Bool) : Receiver :=
  let u := if u.gpioInt ∧ level = false then gpioIntFunc (gpioValue level) u else u
  if u.timer1 then (simuUartTimerTask (gpioValue level) u).2 else u

/-! ### The line of a byte -/

/-- Bit `i` of a byte. -/
def bit (byte : UInt8) (i : Nat) : Bool := byte.toBitVec.getLsbD i

theorem shiftRight_and_one {byte : UInt8} {i : Nat} (hi : i < 8) :
    byte >>> UInt8.ofNat i &&& 0x01 = 0 ↔ bit byte i = false := by
  have hword : (byte >>> UInt8.ofNat i &&& 0x01).toBitVec =
      (BitVec.ofBool (bit byte i)).setWidth 8 := by
    have hshift : (byte >>> UInt8.ofNat i).toBitVec = byte.toBitVec >>> i := by
      rw [UInt8.toBitVec_shiftRight]
      have hmod : ((UInt8.ofNat i).toBitVec % 8).toNat = i := by
        rw [BitVec.toNat_umod]
        show i % 256 % 8 = i
        omega
      rw [BitVec.ushiftRight_eq', hmod]
    rw [UInt8.toBitVec_and, hshift]
    show byte.toBitVec >>> i &&& 1#8 = _
    rw [BitVec.and_one_eq_setWidth_ofBool_getLsbD, BitVec.getLsbD_ushiftRight, Nat.add_zero]
    rfl
  rw [← UInt8.toBitVec_inj, hword]
  cases bit byte i
  · decide
  · decide

theorem levels_bits (f : Nat → Bool) (level : Bool) (ops : List TxOp) : ∀ (is : List Nat) (v : Bool),
    levels v (is.flatMap (fun i => [.setValue (f i), .usecDelay 104]) ++ .setValue level :: ops) =
      is.map f ++ levels level ops := by
  intro is
  induction is with
  | nil => intro v; rfl
  | cons i is ih => intro v; exact congrArg (f i :: ·) (ih (f i))

/-- **A byte is a low level, its bits from the lowest on, and a high level.** -/
theorem levels_simuSendOneByte (level : Bool) (byte : UInt8) :
    levels level (simuSendOneByte byte) = false :: ((List.range 8).map (bit byte) ++ [true]) := by
  have hops : (List.range 8).flatMap (fun i =>
      if byte >>> UInt8.ofNat i &&& 0x01 = 0 then [TxOp.setValue false, .usecDelay 104]
      else [.setValue true, .usecDelay 104]) =
      (List.range 8).flatMap fun i => [.setValue (bit byte i), .usecDelay 104] := by
    refine List.flatMap_congr fun i hi => ?_
    have hbit : byte >>> UInt8.ofNat i &&& 0x01 = 0 ↔ bit byte i = false :=
      shiftRight_and_one (List.mem_range.mp hi)
    cases hb : bit byte i with
    | false => rw [if_pos (hbit.mpr hb)]
    | true => rw [if_neg fun h => by rw [hbit.mp h] at hb; cases hb]
  rw [simuSendOneByte, hops]
  exact congrArg (false :: ·) (levels_bits (bit byte) true [.usecDelay 104] (List.range 8) false)

/-! ### The handlers -/

/-- Between frames: the receiver waits for the interrupt, or the timer listens for a start bit. -/
def Ready (u : Receiver) : Prop :=
  u.recv_stop_flag = 1 ∧ u.gpioInt = true ∨
    u.recv_stop_flag = 0 ∧ u.gpioInt = false ∧ u.timer1 = true ∧ u.data_cnt = 0

/-- In a frame: `k` bits of the byte have been shifted in from above. -/
structure InFrame (u : Receiver) (byte : UInt8) (k : Nat) : Prop where
  going : u.recv_stop_flag = 0
  masked : u.gpioInt = false
  running : u.timer1 = true
  count : u.data_cnt = 1 + k
  shifted : u.byte.toBitVec = byte.toBitVec <<< (8 - k)

variable {u : Receiver} {byte : UInt8} {k : Nat}

theorem bitTime_masked (hint : u.gpioInt = false) (htimer : u.timer1 = true) (level : Bool) :
    bitTime u level = (simuUartTimerTask (gpioValue level) u).2 := by
  simp only [bitTime, hint, htimer, Bool.false_eq_true, false_and, if_false, if_true]

theorem Ready.idle (h : Ready u) :
    Ready (bitTime u true) ∧ (bitTime u true).received = u.received := by
  rcases h with ⟨hstop, hint⟩ | ⟨hgo, hmask, hrun, hcnt⟩
  · have hstep : bitTime u true = u := by
      have hne : ¬u.recv_stop_flag = 0 := by
        rw [hstop]
        decide
      simp only [bitTime, simuUartTimerTask, Bool.true_eq_false, and_false, if_false, if_neg hne,
        ite_self]
    rw [hstep]
    exact ⟨.inl ⟨hstop, hint⟩, rfl⟩
  · rw [bitTime_masked hmask hrun, simuUartTimerTask, if_pos hgo, if_pos hcnt, if_pos (by decide)]
    exact ⟨.inl ⟨rfl, rfl⟩, rfl⟩

theorem Ready.start (h : Ready u) (byte : UInt8) :
    InFrame (bitTime u false) byte 0 ∧ (bitTime u false).received = u.received := by
  have hzero : (0 : UInt8).toBitVec = byte.toBitVec <<< (8 - 0) := by
    apply BitVec.eq_of_getLsbD_eq
    intro i hi
    rw [BitVec.getLsbD_shiftLeft]
    simp [hi]
  rcases h with ⟨hstop, hint⟩ | ⟨hgo, hmask, hrun, hcnt⟩
  · have hstep : bitTime u false = { u with
        gpioInt := false, bytes_cnt := 0, data_cnt := 1, recv_stop_flag := 0, timer1 := true,
        byte := 0 } := by
      simp only [bitTime, hint, and_self, if_true]
      rfl
    rw [hstep]
    exact ⟨⟨rfl, rfl, rfl, rfl, hzero⟩, rfl⟩
  · rw [bitTime_masked hmask hrun, simuUartTimerTask, if_pos hgo, if_pos hcnt, if_neg (by decide)]
    exact ⟨⟨hgo, hmask, hrun, by rw [hcnt]; rfl, hzero⟩, rfl⟩

/-- Shifting right by one and setting the top bit brings in the next bit of the byte. -/
theorem shiftIn_eq (b : BitVec 8) (hk : k < 8) :
    (if b.getLsbD k then (b <<< (8 - k)) >>> 1 ||| 0x80#8 else (b <<< (8 - k)) >>> 1) =
      b <<< (8 - (k + 1)) := by
  apply BitVec.eq_of_getLsbD_eq
  intro i hi
  have hlow : ((b <<< (8 - k)) >>> 1).getLsbD i =
      (decide (i < 7) && (b <<< (8 - (k + 1))).getLsbD i) := by
    rw [BitVec.getLsbD_ushiftRight, BitVec.getLsbD_shiftLeft, BitVec.getLsbD_shiftLeft]
    have hsub : 1 + i - (8 - k) = i - (8 - (k + 1)) := by omega
    have h8 : decide (1 + i < 8) = decide (i < 7) := by
      rw [decide_eq_decide]
      omega
    have hge : decide (1 + i < 8 - k) = decide (i < 8 - (k + 1)) := by
      rw [decide_eq_decide]
      omega
    rw [hsub, h8, hge, decide_eq_true hi, Bool.true_and, Bool.and_assoc]
  have htop : (0x80#8).getLsbD i = decide (i = 7) := by
    interval_cases i <;> rfl
  by_cases h7 : i = 7
  · subst h7
    have hlast : (b <<< (8 - (k + 1))).getLsbD 7 = b.getLsbD k := by
      have hsub : 7 - (8 - (k + 1)) = k := by omega
      have hge : ¬7 < 8 - (k + 1) := by omega
      rw [BitVec.getLsbD_shiftLeft, hsub, decide_eq_false hge]
      rfl
    rw [hlast]
    cases hb : b.getLsbD k with
    | false =>
      rw [if_neg Bool.false_ne_true, hlow]
      rfl
    | true => rw [if_pos rfl, BitVec.getLsbD_or, htop, decide_eq_true rfl, Bool.or_true]
  · have hlt : i < 7 := by omega
    rw [decide_eq_true hlt, Bool.true_and] at hlow
    cases b.getLsbD k with
    | false => rw [if_neg Bool.false_ne_true, hlow]
    | true => rw [if_pos rfl, BitVec.getLsbD_or, htop, decide_eq_false h7, Bool.or_false, hlow]

theorem InFrame.bit (h : InFrame u byte k) (hk : k < 8) :
    InFrame (bitTime u (bit byte k)) byte (k + 1) ∧
      (bitTime u (bit byte k)).received = u.received := by
  have hcnt := h.count
  rw [bitTime_masked h.masked h.running, simuUartTimerTask, if_pos h.going, if_neg (by omega),
    if_pos (by omega)]
  refine ⟨⟨h.going, h.masked, h.running, by show u.data_cnt + 1 = _; omega, ?_⟩, rfl⟩
  have hnext := shiftIn_eq byte.toBitVec hk
  rw [← h.shifted] at hnext
  rw [← hnext]
  show UInt8.toBitVec (if gpioValue (byte.toBitVec.getLsbD k) = 1 then _ else _) = _
  cases byte.toBitVec.getLsbD k with
  | false => rfl
  | true => rfl

theorem InFrame.stop (h : InFrame u byte 8) :
    Ready (bitTime u true) ∧ (bitTime u true).received = u.received ++ [byte] := by
  have hcnt := h.count
  have hbyte : u.byte = byte := by
    have := h.shifted
    rw [Nat.sub_self, BitVec.shiftLeft_zero] at this
    exact UInt8.toBitVec_inj.mp this
  rw [bitTime_masked h.masked h.running, simuUartTimerTask, if_pos h.going, if_neg (by omega),
    if_neg (by omega), if_pos (by omega)]
  have hhigh : gpioValue true = 1 := rfl
  simp only [if_pos hhigh]
  by_cases hmany : u.bytes_cnt + 1 > 8
  · rw [if_pos hmany]
    exact ⟨.inl ⟨rfl, rfl⟩, by rw [← hbyte]⟩
  · rw [if_neg hmany]
    exact ⟨.inr ⟨h.going, h.masked, h.running, rfl⟩, by rw [← hbyte]⟩

/-! ### The transmission -/

def receive (u : Receiver) (levels : List Bool) : Receiver := levels.foldl bitTime u

theorem receive_append (u : Receiver) (xs ys : List Bool) :
    receive u (xs ++ ys) = receive (receive u xs) ys := List.foldl_append

theorem InFrame.bits (h : InFrame u byte 0) : ∀ n, n ≤ 8 →
    InFrame (receive u ((List.range n).map (SimuUart.bit byte))) byte n ∧
      (receive u ((List.range n).map (SimuUart.bit byte))).received = u.received := by
  intro n
  induction n with
  | zero => intro _; exact ⟨h, rfl⟩
  | succ n ih =>
    intro hn
    obtain ⟨hin, hrec⟩ := ih (Nat.le_of_succ_le hn)
    obtain ⟨hin', hrec'⟩ := hin.bit hn
    rw [List.range_succ, List.map_append, receive_append]
    exact ⟨hin', hrec'.trans hrec⟩

theorem Ready.gap (h : Ready u) : ∀ n, Ready (receive u (List.replicate n true)) ∧
    (receive u (List.replicate n true)).received = u.received := by
  intro n
  induction n with
  | zero => exact ⟨h, rfl⟩
  | succ n ih =>
    obtain ⟨hready, hrec⟩ := ih
    obtain ⟨hready', hrec'⟩ := hready.idle
    rw [List.replicate_succ', receive_append]
    exact ⟨hready', hrec'.trans hrec⟩

/-- **A frame is one byte, from either state to either.** -/
theorem Ready.frame (h : Ready u) (byte : UInt8) (level : Bool) :
    Ready (receive u (levels level (simuSendOneByte byte))) ∧
      (receive u (levels level (simuSendOneByte byte))).received = u.received ++ [byte] := by
  obtain ⟨hstart, hrec⟩ := h.start byte
  obtain ⟨hin, hrec'⟩ := hstart.bits 8 (Nat.le_refl 8)
  obtain ⟨hready, hrec''⟩ := hin.stop
  rw [levels_simuSendOneByte, ← List.singleton_append, receive_append, receive_append]
  refine ⟨hready, hrec''.trans ?_⟩
  rw [hrec', hrec]

theorem Ready.line : ∀ (frames : List (Nat × UInt8)) {u : Receiver}, Ready u →
    Ready (receive u (line frames)) ∧
      (receive u (line frames)).received = u.received ++ frames.map Prod.snd := by
  intro frames
  induction frames with
  | nil => intro u h; exact ⟨h, (List.append_nil _).symm⟩
  | cons frame frames ih =>
    intro u h
    obtain ⟨gap, byte⟩ := frame
    obtain ⟨hgap, hrec⟩ := h.gap gap
    obtain ⟨hframe, hrec'⟩ := hgap.frame byte true
    obtain ⟨hrest, hrec''⟩ := ih hframe
    rw [SimuUart.line, receive_append, receive_append]
    refine ⟨hrest, hrec''.trans ?_⟩
    rw [hrec', hrec, List.append_assoc]
    rfl

/-- **The receiver gets what the sender sends**, whatever the gaps and whatever the counters are when
it starts. -/
theorem simuUart_receives (u : Receiver) (hstop : u.recv_stop_flag = 1) (hint : u.gpioInt = true)
    (frames : List (Nat × UInt8)) (gap : Nat) :
    (receive u (line frames ++ List.replicate gap true)).received =
      u.received ++ frames.map Prod.snd := by
  obtain ⟨hready, hrec⟩ := Ready.line frames (.inl ⟨hstop, hint⟩)
  rw [receive_append]
  exact (hready.gap gap).2.trans hrec

/-- Ten bytes without a gap, past the forced restart behind the ninth, and one behind a gap. -/
theorem simuUart_receives_eleven :
    (⟨1, 0, 1, 0, true, false, []⟩ : Receiver).recv_stop_flag = 1 ∧
    (⟨1, 0, 1, 0, true, false, []⟩ : Receiver).gpioInt = true ∧
    (receive ⟨1, 0, 1, 0, true, false, []⟩
      (line (List.replicate 10 (0, 0xa5) ++ [(3, 0x5a)]) ++ List.replicate 2 true)).received =
      List.replicate 10 0xa5 ++ [0x5a] :=
  ⟨rfl, rfl, simuUart_receives ⟨1, 0, 1, 0, true, false, []⟩ rfl rfl _ 2⟩

end Nl6621.NuAgent.SimuUart
