import Nl6621.Lib.Runs
import Nl6621.Ucos.Events

/-!
# The kernel as a system

A run is any interleaving of what the running task does, interrupts, and the exception that
switches tasks.  The running task calls the kernel, and inside a call comes to the scheduler and
behind it; between any two critical sections interrupts can come, nest, call the kernel
themselves and move the clock on.  `OS_Sched` in a call that an interrupt makes does nothing and is
no step of its own.

A task goes on only when no interrupt is active and no switch is pending: PendSV has the lowest
priority of all exceptions, and comes before any instruction of a task.

The calls are those of `Call`, on semaphores, queues, delays, suspension and the lock of the
scheduler.  In a run there are no others: no task is created, deleted or given another priority, no
event is created or deleted, nothing is posted to the front of a queue, and no mutex, mailbox or
group of flags is used.
-/

namespace Nl6621.Ucos

open Lib

/-- The calls of a run. -/
inductive Call where
  | OSSemPend (pevent : Ecb) (timeout : Nat)
  | OSSemAccept (pevent : Ecb)
  | OSSemPost (pevent : Ecb)
  | OSSemPendAbort (pevent : Ecb) (broadcast : Bool)
  | OSSemSet (pevent : Ecb) (cnt : Nat)
  | OSQPend (pevent : Ecb) (timeout : Nat)
  | OSQAccept (pevent : Ecb)
  | OSQPost (pevent : Ecb) (pmsg : Msg)
  | OSQPendAbort (pevent : Ecb) (broadcast : Bool)
  | OSQFlush (pevent : Ecb)
  | OSTimeDly (ticks : Nat)
  | OSTimeDlyResume (prio : Prio)
  | OSTaskSuspend (prio : Prio)
  | OSTaskResume (prio : Prio)
  | OSSchedLock
  | OSSchedUnlock
deriving DecidableEq, Repr

namespace Call

/-- The loop over waiting tasks has no more rounds than there are priorities. -/
def fuel : Nat := 65

def run : Call → Kernel → Fueled Called
  | OSSemPend pevent timeout, k => .of (Ucos.OSSemPend pevent timeout k)
  | OSSemAccept pevent, k => .ok (Ucos.OSSemAccept pevent k)
  | OSSemPost pevent, k => .of (Ucos.OSSemPost pevent k)
  | OSSemPendAbort pevent broadcast, k => Ucos.OSSemPendAbort fuel pevent broadcast k
  | OSSemSet pevent cnt, k => .ok (Ucos.OSSemSet pevent cnt k)
  | OSQPend pevent timeout, k => .of (Ucos.OSQPend pevent timeout k)
  | OSQAccept pevent, k => .ok (Ucos.OSQAccept pevent k)
  | OSQPost pevent pmsg, k => .of (Ucos.OSQPost pevent pmsg k)
  | OSQPendAbort pevent broadcast, k => Ucos.OSQPendAbort fuel pevent broadcast k
  | OSQFlush pevent, k => .of (Ucos.OSQFlush pevent k)
  | OSTimeDly ticks, k => .of (Ucos.OSTimeDly ticks k)
  | OSTimeDlyResume prio, k => .ok (Ucos.OSTimeDlyResume prio k)
  | OSTaskSuspend prio, k => .ok (Ucos.OSTaskSuspend prio k)
  | OSTaskResume prio, k => .ok (Ucos.OSTaskResume prio k)
  | OSSchedLock, k => .ok (Ucos.OSSchedLock k)
  | OSSchedUnlock, k => .ok (Ucos.OSSchedUnlock k)

/-- The idle task is not suspended, which is not checked without `OS_ARG_CHK_EN`, and only queues
are flushed. -/
def Allowed (k : Kernel) : Call → Prop
  | OSTaskSuspend prio => prio ≠ OS_TASK_IDLE_PRIO
  | OSQFlush pevent => (k.event pevent).OSEventType = .OS_EVENT_TYPE_Q
  | _ => True

instance (k : Kernel) (c : Call) : Decidable (c.Allowed k) := by
  cases c <;> unfold Allowed <;> infer_instance

end Call

namespace Point

def AtSched : Point → Prop
  | sched _ => True
  | _ => False

def AtLeave : Point → Prop
  | leave _ _ => True
  | _ => False

instance (pt : Point) : Decidable pt.AtSched := by cases pt <;> unfold AtSched <;> infer_instance

instance (pt : Point) : Decidable pt.AtLeave := by cases pt <;> unfold AtLeave <;> infer_instance

end Point

/-- The kernel, where every task is in it, and what has been seen from outside so far. -/
structure Sys where
  k : Kernel
  point : Prio → Point
  log : List Obs

inductive Act where
  /-- the running task calls the kernel -/
  | call (c : Call)
  /-- the running task comes to `OS_Sched` -/
  | sched
  /-- the running task comes to the second critical section of a pend -/
  | leave
  /-- the switch -/
  | pendSV
  | intEnter
  /-- an interrupt handler calls the kernel -/
  | isr (c : Call)
  /-- the loop of `OSTimeTick`, in a handler, comes to a task -/
  | tick (prio : Prio)
  | intExit
deriving DecidableEq, Repr

namespace Sys

/-- The instructions of a task are executed. -/
def TaskRuns (s : Sys) : Prop := s.k.OSIntNesting = 0 ∧ s.k.pendSV = false

instance (s : Sys) : Decidable s.TaskRuns := by unfold TaskRuns; infer_instance

def here (s : Sys) : Point := s.point s.k.OSPrioCur

/-- The action can come next.  The idle task calls nothing, and interrupts nest less than 255
times. -/
def Enabled (s : Sys) : Act → Prop
  | .call c => s.TaskRuns ∧ s.here = .user ∧ s.k.OSPrioCur ≠ OS_TASK_IDLE_PRIO ∧ c.Allowed s.k
  | .sched => s.TaskRuns ∧ s.here.AtSched
  | .leave => s.TaskRuns ∧ s.here.AtLeave
  | .pendSV => s.k.OSIntNesting = 0 ∧ s.k.pendSV = true
  | .intEnter => s.k.OSIntNesting < 255
  | .isr c => 0 < s.k.OSIntNesting ∧ c.Allowed s.k
  | .tick prio => 0 < s.k.OSIntNesting ∧ prio ≠ OS_TASK_IDLE_PRIO ∧ s.k.OSTCBPrioTbl prio ≠ none
  | .intExit => 0 < s.k.OSIntNesting

instance (s : Sys) (a : Act) : Decidable (s.Enabled a) := by
  cases a <;> unfold Enabled <;> infer_instance

/-- The running task has been in a critical section. -/
def afterCall (s : Sys) (r : Called) : Sys where
  k := r.k
  point := Function.update s.point s.k.OSPrioCur r.next
  log := s.log ++ r.obs

/-- An interrupt handler has. -/
def afterIsr (s : Sys) (r : Called) : Sys := { s with k := r.k, log := s.log ++ r.obs }

def returned {α : Type} (r : Fueled α) : Option α :=
  match r with
  | some (.ok a) => some a
  | _ => none

/-- `OS_Sched` of the running task, which goes on behind it. -/
def doSched (s : Sys) : Sys :=
  match s.here with
  | .sched (some (svc, pevent)) =>
    { s with
      k := OS_Sched s.k
      point := Function.update s.point s.k.OSPrioCur (.leave svc pevent) }
  | .sched none =>
    { s with k := OS_Sched s.k, point := Function.update s.point s.k.OSPrioCur .user }
  | _ => s

def exec (s : Sys) : Act → Option Sys
  | .call c => (returned (c.run s.k)).map s.afterCall
  | .sched => some s.doSched
  | .leave =>
    match s.here with
    | .leave .sem pevent => (OSSemPendLeave pevent s.k).toOption.map s.afterCall
    | .leave .q pevent => (OSQPendLeave pevent s.k).toOption.map s.afterCall
    | _ => none
  | .pendSV => some { s with k := OSPendSV s.k }
  | .intEnter => some { s with k := OSIntEnter s.k }
  | .isr c => (returned (c.run s.k)).map s.afterIsr
  | .tick prio => (timeTick prio s.k).toOption.map fun k => { s with k := k }
  | .intExit => some { s with k := OSIntExit s.k }

end Sys

/-- One step: what is enabled is done; there is none when the code follows a NULL pointer. -/
def step (s : Sys) (a : Act) : Option Sys := if s.Enabled a then s.exec a else none

end Nl6621.Ucos
