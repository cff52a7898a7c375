import Mathlib.Logic.Function.Basic
import Nl6621.Lib.Cyclic
import Nl6621.Lib.TwoLevel
import Nl6621.Lib.While

/-!
# The kernel: tasks, ready list and wait lists

A task is its priority.  The ready list of the kernel and the wait list of every event are bitmaps
of priorities in two levels, in which `OSUnMapTbl` finds the lowest bit of a byte, so that the
highest priority is found by two looks into that table (`highest_spec`).

The functions here are those of `os_core.c`, `os_time.c` and `os_task.c`, and the context switch of
`os_cpu_a.asm`; a switch is only asked for by setting the pending bit of PendSV, whose handler then
takes the task that `OSPrioHighRdy` names at that time.  A function is one critical section of the
source: `Called` says how it leaves the kernel and where its caller goes on.  A pointer that is
NULL where the code follows it is a fault.

The tasks are those that `OSTCBPrioTbl` has at the start; what creates and deletes tasks, changes
their priorities or deletes events is not here.  A priority without a task may be reserved for a
mutex.
-/

namespace Nl6621.Ucos

open Lib

/-! ### Priorities and their sets -/

-- the literals of `Fin 8` and `Fin 64`
scoped instance neZero_eight : NeZero 8 := ⟨by decide⟩

scoped instance neZero_sixtyFour : NeZero 64 := ⟨by decide⟩

/-- `0 .. OS_LOWEST_PRIO` -/
abbrev Prio := Fin 64

def OS_LOWEST_PRIO : Prio := 63

def OS_TASK_IDLE_PRIO : Prio := OS_LOWEST_PRIO

def OSUnMapTbl : List (Fin 8) := [
  0, 0, 1, 0, 2, 0, 1, 0, 3, 0, 1, 0, 2, 0, 1, 0,
  4, 0, 1, 0, 2, 0, 1, 0, 3, 0, 1, 0, 2, 0, 1, 0,
  5, 0, 1, 0, 2, 0, 1, 0, 3, 0, 1, 0, 2, 0, 1, 0,
  4, 0, 1, 0, 2, 0, 1, 0, 3, 0, 1, 0, 2, 0, 1, 0,
  6, 0, 1, 0, 2, 0, 1, 0, 3, 0, 1, 0, 2, 0, 1, 0,
  4, 0, 1, 0, 2, 0, 1, 0, 3, 0, 1, 0, 2, 0, 1, 0,
  5, 0, 1, 0, 2, 0, 1, 0, 3, 0, 1, 0, 2, 0, 1, 0,
  4, 0, 1, 0, 2, 0, 1, 0, 3, 0, 1, 0, 2, 0, 1, 0,
  7, 0, 1, 0, 2, 0, 1, 0, 3, 0, 1, 0, 2, 0, 1, 0,
  4, 0, 1, 0, 2, 0, 1, 0, 3, 0, 1, 0, 2, 0, 1, 0,
  5, 0, 1, 0, 2, 0, 1, 0, 3, 0, 1, 0, 2, 0, 1, 0,
  4, 0, 1, 0, 2, 0, 1, 0, 3, 0, 1, 0, 2, 0, 1, 0,
  6, 0, 1, 0, 2, 0, 1, 0, 3, 0, 1, 0, 2, 0, 1, 0,
  4, 0, 1, 0, 2, 0, 1, 0, 3, 0, 1, 0, 2, 0, 1, 0,
  5, 0, 1, 0, 2, 0, 1, 0, 3, 0, 1, 0, 2, 0, 1, 0,
  4, 0, 1, 0, 2, 0, 1, 0, 3, 0, 1, 0, 2, 0, 1, 0]

def unMap (w : BitVec 8) : Fin 8 := OSUnMapTbl.getD w.toNat 0

def OSTCBY (prio : Prio) : Fin 8 := ⟨prio.val >>> 3, by
  rw [Nat.shiftRight_eq_div_pow]
  omega⟩

def OSTCBX (prio : Prio) : Fin 8 := ⟨prio.val &&& 7, Nat.and_lt_two_pow _ (by decide : 7 < 2 ^ 3)⟩

/-- `(y << 3) + x` -/
def prioAt (y x : Fin 8) : Prio := ⟨(y.val <<< 3) + x.val, by
  rw [Nat.shiftLeft_eq]
  omega⟩

/-- A group byte and a table of eight bytes: `OSRdyGrp` with `OSRdyTbl`, and `OSEventGrp` with the
`OSEventTbl` of an event. -/
abbrev PrioSet := TwoLevel 8 8

namespace PrioSet

def Holds (b : PrioSet) (prio : Prio) : Prop := b.Has (OSTCBY prio) (OSTCBX prio)

instance (b : PrioSet) (prio : Prio) : Decidable (b.Holds prio) := by
  unfold Holds
  infer_instance

/-- `|= OSTCBBitX` in the byte of the priority, and `|= OSTCBBitY` in the group. -/
def add (b : PrioSet) (prio : Prio) : PrioSet := b.insert (OSTCBY prio) (OSTCBX prio)

/-- `&= ~OSTCBBitX`, and `&= ~OSTCBBitY` in the group when nothing is left of the byte. -/
def remove (b : PrioSet) (prio : Prio) : PrioSet := b.erase (OSTCBY prio) (OSTCBX prio)

/-- The priority that the two looks into `OSUnMapTbl` lead to. -/
def highest (b : PrioSet) : Prio :=
  prioAt (b.lowest unMap unMap).1 (b.lowest unMap unMap).2

end PrioSet

set_option maxRecDepth 8000 in
theorem unMap_ofNat : ∀ i : Fin 255,
    (BitVec.ofNat 8 (i.val + 1)).getLsbD (OSUnMapTbl.getD (i.val + 1) 0).val = true ∧
      ∀ j : Fin 8, j < OSUnMapTbl.getD (i.val + 1) 0 →
        (BitVec.ofNat 8 (i.val + 1)).getLsbD j.val = false := by
  decide

theorem isFirst_unMap (w : BitVec 8) (h : w ≠ 0#8) : IsFirst w (unMap w) := by
  have hpos : 0 < w.toNat := by
    refine Nat.pos_of_ne_zero fun hzero => h ?_
    exact BitVec.eq_of_toNat_eq hzero
  have hlt : w.toNat - 1 < 255 := by
    have := w.isLt
    omega
  have htable := unMap_ofNat ⟨w.toNat - 1, hlt⟩
  rw [Nat.sub_add_cancel hpos, BitVec.ofNat_toNat, BitVec.setWidth_eq] at htable
  exact htable

theorem prioAt_bits (prio : Prio) : prioAt (OSTCBY prio) (OSTCBX prio) = prio := by
  revert prio
  decide

theorem bits_prioAt (y x : Fin 8) : OSTCBY (prioAt y x) = y ∧ OSTCBX (prioAt y x) = x := by
  revert y x
  decide

theorem bits_injective {p q : Prio} (hy : OSTCBY q = OSTCBY p) (hx : OSTCBX q = OSTCBX p) :
    q = p := by
  rw [← prioAt_bits q, hy, hx, prioAt_bits]

namespace PrioSet

variable {b : PrioSet} {p q : Prio}

theorem not_holds_empty : ¬Holds TwoLevel.empty p := TwoLevel.not_has_empty

@[simp] theorem holds_add : (b.add p).Holds q ↔ q = p ∨ b.Holds q := by
  rw [add, Holds, TwoLevel.has_insert]
  refine or_congr_left ⟨fun h => bits_injective h.1 h.2, ?_⟩
  rintro rfl
  exact ⟨rfl, rfl⟩

@[simp] theorem holds_remove : (b.remove p).Holds q ↔ q ≠ p ∧ b.Holds q := by
  rw [remove, Holds, TwoLevel.has_erase]
  refine and_congr_left fun _ => not_congr ⟨fun h => bits_injective h.1 h.2, ?_⟩
  rintro rfl
  exact ⟨rfl, rfl⟩

theorem grp_ne_zero_iff : b.grp ≠ 0#8 ↔ ∃ p, b.Holds p := by
  rw [TwoLevel.grp_ne_zero_iff]
  constructor
  · rintro ⟨y, x, h⟩
    refine ⟨prioAt y x, ?_⟩
    rw [Holds, (bits_prioAt y x).1, (bits_prioAt y x).2]
    exact h
  · rintro ⟨p, h⟩
    exact ⟨_, _, h⟩

/-- **The table finds the highest priority**, the one with the lowest number. -/
theorem highest_spec (h : ∃ p, b.Holds p) :
    b.Holds b.highest ∧ ∀ q, b.Holds q → b.highest ≤ q := by
  obtain ⟨hhas, hleast⟩ :=
    TwoLevel.lowest_spec isFirst_unMap isFirst_unMap (grp_ne_zero_iff.mpr h)
  have hbits := bits_prioAt (b.lowest unMap unMap).1 (b.lowest unMap unMap).2
  refine ⟨?_, fun q hq => ?_⟩
  · rw [Holds, highest, hbits.1, hbits.2]
    exact hhas
  · rw [← prioAt_bits q, highest]
    show (_ <<< 3) + _ ≤ (_ <<< 3) + _
    rw [Nat.shiftLeft_eq, Nat.shiftLeft_eq]
    have hx := (b.lowest unMap unMap).2.isLt
    rcases hleast _ _ hq with hlt | ⟨heq, hle⟩
    · have hval : (b.lowest unMap unMap).1.val < (OSTCBY q).val := hlt
      omega
    · have hval : (b.lowest unMap unMap).2.val ≤ (OSTCBX q).val := hle
      rw [heq]
      omega

end PrioSet

/-! ### Tasks and events -/

/-- A `void *`; NULL is 0. -/
abbrev Msg := UInt32

/-- A pointer to an event control block. -/
abbrev Ecb := Nat

def OS_STAT_RDY : BitVec 8 := 0x00#8
def OS_STAT_SEM : BitVec 8 := 0x01#8
def OS_STAT_MBOX : BitVec 8 := 0x02#8
def OS_STAT_Q : BitVec 8 := 0x04#8
def OS_STAT_SUSPEND : BitVec 8 := 0x08#8
def OS_STAT_MUTEX : BitVec 8 := 0x10#8
def OS_STAT_FLAG : BitVec 8 := 0x20#8

def OS_STAT_PEND_ANY : BitVec 8 :=
  OS_STAT_SEM ||| OS_STAT_MBOX ||| OS_STAT_Q ||| OS_STAT_MUTEX ||| OS_STAT_FLAG

inductive PendStat where
  | OS_STAT_PEND_OK | OS_STAT_PEND_TO | OS_STAT_PEND_ABORT
deriving DecidableEq, Repr

structure OS_TCB where
  OSTCBStat : BitVec 8
  OSTCBStatPend : PendStat
  OSTCBDly : Nat
  OSTCBMsg : Msg
  OSTCBEventPtr : Option Ecb
deriving DecidableEq

inductive EventType where
  | OS_EVENT_TYPE_UNUSED | OS_EVENT_TYPE_MBOX | OS_EVENT_TYPE_Q | OS_EVENT_TYPE_SEM
  | OS_EVENT_TYPE_MUTEX | OS_EVENT_TYPE_FLAG
deriving DecidableEq, Repr

/-- A queue control block, with places counted from `OSQStart`, and as many of them as `OSQSize`
says.  The fields say what `OSQCreate` sets up and every function keeps. -/
structure OS_Q where
  storage : List Msg
  OSQIn : Nat
  OSQOut : Nat
  OSQEntries : Nat
  entries_le : OSQEntries ≤ storage.length
  out_lt : 0 < storage.length → OSQOut < storage.length
  in_eq : 0 < storage.length → OSQIn = (OSQOut + OSQEntries) % storage.length

structure OS_EVENT where
  OSEventType : EventType
  OSEventCnt : Nat
  /-- the queue that `OSEventPtr` points to -/
  pq : OS_Q
  OSEventTbl : PrioSet

structure Kernel where
  OSTCBPrioTbl : Prio → Option OS_TCB
  /-- the entry is `OS_TCB_RESERVED`, where it is not a task -/
  reserved : Prio → Bool
  OSRdyTbl : PrioSet
  event : Ecb → OS_EVENT
  OSPrioCur : Prio
  OSPrioHighRdy : Prio
  OSIntNesting : Nat
  OSLockNesting : Nat
  /-- the pending bit of the PendSV exception -/
  pendSV : Bool

namespace Kernel

def ptcb (k : Kernel) (prio : Prio) : Outcome OS_TCB :=
  match k.OSTCBPrioTbl prio with
  | some t => .ok t
  | none => .fault

def setTcb (k : Kernel) (prio : Prio) (t : OS_TCB) : Kernel :=
  { k with OSTCBPrioTbl := Function.update k.OSTCBPrioTbl prio (some t) }

def setEvent (k : Kernel) (pevent : Ecb) (ev : OS_EVENT) : Kernel :=
  { k with event := Function.update k.event pevent ev }

def ready (k : Kernel) (prio : Prio) : Kernel := { k with OSRdyTbl := k.OSRdyTbl.add prio }

def unready (k : Kernel) (prio : Prio) : Kernel := { k with OSRdyTbl := k.OSRdyTbl.remove prio }

/-- `if ((ptcb->OSTCBStat & OS_STAT_SUSPEND) == OS_STAT_RDY)`: make it ready. -/
def readyUnlessSuspended (k : Kernel) (prio : Prio) (t : OS_TCB) : Kernel :=
  if t.OSTCBStat &&& OS_STAT_SUSPEND = OS_STAT_RDY then k.ready prio else k

end Kernel

/-! ### `os_core.c` -/

def OS_EventTaskRemove (prio : Prio) (pevent : Ecb) (k : Kernel) : Kernel :=
  let ev := k.event pevent
  k.setEvent pevent { ev with OSEventTbl := ev.OSEventTbl.remove prio }

/-- Ready the task of the highest priority that waits for the event. -/
def OS_EventTaskRdy (pevent : Ecb) (pmsg : Msg) (msk : BitVec 8) (pend_stat : PendStat)
    (k : Kernel) : Outcome (Prio × Kernel) :=
  let prio := (k.event pevent).OSEventTbl.highest
  (k.ptcb prio).bind fun ptcb =>
    let ptcb := { ptcb with
      OSTCBDly := 0
      OSTCBMsg := pmsg
      OSTCBStat := ptcb.OSTCBStat &&& ~~~msk
      OSTCBStatPend := pend_stat }
    .ok (prio, OS_EventTaskRemove prio pevent
      ((k.setTcb prio ptcb).readyUnlessSuspended prio ptcb))

/-- `t` is the block of the current task, as it is written back. -/
def OS_EventTaskWait (pevent : Ecb) (t : OS_TCB) (k : Kernel) : Kernel :=
  let ev := k.event pevent
  ((k.setTcb k.OSPrioCur { t with OSTCBEventPtr := some pevent }).setEvent pevent
    { ev with OSEventTbl := ev.OSEventTbl.add k.OSPrioCur }).unready k.OSPrioCur

def OS_SchedNew (k : Kernel) : Kernel := { k with OSPrioHighRdy := k.OSRdyTbl.highest }

/-- `OSCtxSw` and `OSIntCtxSw` -/
def OSCtxSw (k : Kernel) : Kernel := { k with pendSV := true }

def OS_Sched (k : Kernel) : Kernel :=
  if k.OSIntNesting = 0 then
    if k.OSLockNesting = 0 then
      let k := OS_SchedNew k
      if k.OSPrioHighRdy ≠ k.OSPrioCur then OSCtxSw k else k
    else k
  else k

/-- The handler of the exception. -/
def OSPendSV (k : Kernel) : Kernel := { k with OSPrioCur := k.OSPrioHighRdy, pendSV := false }

def OSIntEnter (k : Kernel) : Kernel :=
  if k.OSIntNesting < 255 then { k with OSIntNesting := k.OSIntNesting + 1 } else k

def OSIntExit (k : Kernel) : Kernel :=
  let k := if 0 < k.OSIntNesting then { k with OSIntNesting := k.OSIntNesting - 1 } else k
  if k.OSIntNesting = 0 then
    if k.OSLockNesting = 0 then
      let k := OS_SchedNew k
      if k.OSPrioHighRdy ≠ k.OSPrioCur then OSCtxSw k else k
    else k
  else k

/-- What `OSTimeTick` and `OSTimeDlyResume` do to a task whose time is over. -/
def timeOver (t : OS_TCB) : OS_TCB :=
  if t.OSTCBStat &&& OS_STAT_PEND_ANY ≠ OS_STAT_RDY then
    { t with
      OSTCBDly := 0
      OSTCBStat := t.OSTCBStat &&& ~~~OS_STAT_PEND_ANY
      OSTCBStatPend := .OS_STAT_PEND_TO }
  else { t with OSTCBDly := 0, OSTCBStatPend := .OS_STAT_PEND_OK }

/-- The critical section of the loop in `OSTimeTick`, for one task of the list. -/
def timeTick (prio : Prio) (k : Kernel) : Outcome Kernel :=
  (k.ptcb prio).bind fun ptcb =>
    if ptcb.OSTCBDly ≠ 0 then
      let ptcb := { ptcb with OSTCBDly := ptcb.OSTCBDly - 1 }
      if ptcb.OSTCBDly = 0 then
        .ok ((k.setTcb prio (timeOver ptcb)).readyUnlessSuspended prio (timeOver ptcb))
      else .ok (k.setTcb prio ptcb)
    else .ok k

/-! ### Calls -/

inductive Err where
  | OS_ERR_NONE | OS_ERR_EVENT_TYPE | OS_ERR_PEND_ISR | OS_ERR_TIMEOUT | OS_ERR_PEND_LOCKED
  | OS_ERR_PEND_ABORT | OS_ERR_Q_FULL | OS_ERR_SEM_OVF | OS_ERR_TASK_WAITING | OS_ERR_PRIO_INVALID
  | OS_ERR_TASK_NOT_EXIST | OS_ERR_TIME_NOT_DLY | OS_ERR_TASK_RESUME_PRIO
  | OS_ERR_TASK_NOT_SUSPENDED | OS_ERR_TASK_SUSPEND_PRIO
deriving DecidableEq, Repr

/-- The two kinds of event that tasks pend on here. -/
inductive Svc where
  | sem | q
deriving DecidableEq, Repr

/-- Where a task is in the kernel: outside, in front of the critical section of `OS_Sched`, or in
front of the second critical section of a pend. -/
inductive Point where
  | user
  | sched (pend : Option (Svc × Ecb))
  | leave (svc : Svc) (pevent : Ecb)
deriving DecidableEq, Repr

/-- What is seen from outside: a post that returned `OS_ERR_NONE`, a message that is handed to a
task or taken by it, a call that comes back with one, and a call that sets what an event contains.
An interrupt handler is `none`. -/
inductive Obs where
  | posted (pevent : Ecb) (pmsg : Msg)
  | given (pevent : Ecb) (who : Option Prio) (pmsg : Msg)
  | got (pevent : Ecb) (who : Option Prio) (pmsg : Msg)
  | reset (pevent : Ecb)
deriving DecidableEq, Repr

/-- How a critical section ends. -/
structure Called where
  k : Kernel
  perr : Option Err
  next : Point
  obs : List Obs

/-- Back to the caller at once. -/
def back (err : Err) (k : Kernel) : Called := ⟨k, some err, .user, []⟩

/-- Back to the caller by way of the scheduler. -/
def backBySched (err : Err) (k : Kernel) : Called := ⟨k, some err, .sched none, []⟩

/-! ### `os_time.c` and `os_task.c` -/

/-- For an entry of `OSTCBPrioTbl` that is no task. -/
def noTask (err : Err) (prio : Prio) (k : Kernel) : Called :=
  if k.reserved prio then back .OS_ERR_TASK_NOT_EXIST k else back err k

def OSTimeDly (ticks : Nat) (k : Kernel) : Outcome Called :=
  if 0 < k.OSIntNesting then .ok ⟨k, none, .user, []⟩
  else if 0 < k.OSLockNesting then .ok ⟨k, none, .user, []⟩
  else if 0 < ticks then
    (k.ptcb k.OSPrioCur).bind fun t =>
      .ok ⟨(k.unready k.OSPrioCur).setTcb k.OSPrioCur { t with OSTCBDly := ticks }, none,
        .sched none, []⟩
  else .ok ⟨k, none, .user, []⟩

def OSTimeDlyResume (prio : Prio) (k : Kernel) : Called :=
  if prio ≥ OS_LOWEST_PRIO then back .OS_ERR_PRIO_INVALID k
  else
    match k.OSTCBPrioTbl prio with
    | none => noTask .OS_ERR_TASK_NOT_EXIST prio k
    | some t =>
      if t.OSTCBDly = 0 then back .OS_ERR_TIME_NOT_DLY k
      else if (timeOver t).OSTCBStat &&& OS_STAT_SUSPEND = OS_STAT_RDY then
        backBySched .OS_ERR_NONE ((k.setTcb prio (timeOver t)).ready prio)
      else back .OS_ERR_NONE (k.setTcb prio (timeOver t))

def OSTaskSuspend (prio : Prio) (k : Kernel) : Called :=
  match k.OSTCBPrioTbl prio with
  | none => noTask Err.OS_ERR_TASK_SUSPEND_PRIO prio k
  | some t =>
    let k' := (k.unready prio).setTcb prio { t with OSTCBStat := t.OSTCBStat ||| OS_STAT_SUSPEND }
    if prio = k.OSPrioCur then backBySched .OS_ERR_NONE k' else back .OS_ERR_NONE k'

def OSTaskResume (prio : Prio) (k : Kernel) : Called :=
  match k.OSTCBPrioTbl prio with
  | none => noTask Err.OS_ERR_TASK_RESUME_PRIO prio k
  | some t =>
    if t.OSTCBStat &&& OS_STAT_SUSPEND ≠ OS_STAT_RDY then
      let t' := { t with OSTCBStat := t.OSTCBStat &&& ~~~OS_STAT_SUSPEND }
      if t'.OSTCBStat = OS_STAT_RDY then
        if t'.OSTCBDly = 0 then backBySched .OS_ERR_NONE ((k.setTcb prio t').ready prio)
        else back .OS_ERR_NONE (k.setTcb prio t')
      else back .OS_ERR_NONE (k.setTcb prio t')
    else back .OS_ERR_TASK_NOT_SUSPENDED k

def OSSchedLock (k : Kernel) : Called :=
  if k.OSIntNesting = 0 then
    if k.OSLockNesting < 255 then
      ⟨{ k with OSLockNesting := k.OSLockNesting + 1 }, none, .user, []⟩
    else ⟨k, none, .user, []⟩
  else ⟨k, none, .user, []⟩

def OSSchedUnlock (k : Kernel) : Called :=
  if 0 < k.OSLockNesting then
    let k := { k with OSLockNesting := k.OSLockNesting - 1 }
    if k.OSLockNesting = 0 then
      if k.OSIntNesting = 0 then ⟨k, none, .sched none, []⟩ else ⟨k, none, .user, []⟩
    else ⟨k, none, .user, []⟩
  else ⟨k, none, .user, []⟩

end Nl6621.Ucos
