import Nl6621.Ucos.Kernel

/-!
# Semaphores and message queues

`os_sem.c` and `os_q.c` are two instances of one pattern: a task that pends takes what is there or
waits, and a post hands what it brings to the waiting task of the highest priority or leaves it.
They differ in what is there: a count, or the messages in a circular storage.  `Svc.take` and
`Svc.put` are that difference; a token of a semaphore is the message NULL, which is what
`OSSemPost` gives to `OS_EventTaskRdy`.

`Svc.contents` is what an event contains, as a list of messages, the oldest first: `take` takes its
head and `put` appends to it (`take_eq_some`, `put_eq_ok`).

A pend has two critical sections, with the scheduler between them: `pend` and `leave`.
-/

namespace Nl6621.Ucos

open Lib

/-! ### The queue control block -/

namespace OS_Q

/-- No queue. -/
def none : OS_Q where
  storage := []
  OSQIn := 0
  OSQOut := 0
  OSQEntries := 0
  entries_le := Nat.le_refl 0
  out_lt := id
  in_eq _ := rfl

def msgs (pq : OS_Q) : List Msg := held pq.storage pq.OSQOut pq.OSQEntries

/-- `*pq->OSQIn++ = pmsg`, with the wrap of `OSQIn`. -/
def put (pq : OS_Q) (pmsg : Msg) (h : pq.OSQEntries < pq.storage.length) : OS_Q where
  storage := pq.storage.set pq.OSQIn pmsg
  OSQIn := wrap pq.storage.length pq.OSQIn
  OSQOut := pq.OSQOut
  OSQEntries := pq.OSQEntries + 1
  entries_le := by
    rw [List.length_set]
    exact h
  out_lt hpos := by
    rw [List.length_set] at hpos ⊢
    exact pq.out_lt hpos
  in_eq hpos := by
    rw [List.length_set] at hpos ⊢
    have hin := pq.in_eq hpos
    have hlt : pq.OSQIn < pq.storage.length := by
      rw [hin]
      exact Nat.mod_lt _ hpos
    rw [wrap_eq_mod hlt, hin, Nat.mod_add_mod, Nat.add_assoc]

/-- `*pq->OSQOut++`, with the wrap of `OSQOut`. -/
def take (pq : OS_Q) (h : 0 < pq.OSQEntries) : Msg × OS_Q :=
  have hpos : 0 < pq.storage.length := Nat.lt_of_lt_of_le h pq.entries_le
  (pq.storage.get ⟨pq.OSQOut, pq.out_lt hpos⟩, {
    storage := pq.storage
    OSQIn := pq.OSQIn
    OSQOut := wrap pq.storage.length pq.OSQOut
    OSQEntries := pq.OSQEntries - 1
    entries_le := Nat.le_trans (Nat.sub_le _ _) pq.entries_le
    out_lt := fun hpos => wrap_lt (pq.out_lt hpos)
    in_eq := fun hpos => by
      rw [wrap_eq_mod (pq.out_lt hpos), Nat.mod_add_mod, Nat.add_assoc,
        Nat.add_sub_cancel' h]
      exact pq.in_eq hpos })

/-- `OSQFlush` -/
def flush (pq : OS_Q) : OS_Q where
  storage := pq.storage
  OSQIn := 0
  OSQOut := 0
  OSQEntries := 0
  entries_le := Nat.zero_le _
  out_lt := id
  in_eq _ := (Nat.zero_mod _).symm

theorem msgs_put {pq : OS_Q} (pmsg : Msg) (h : pq.OSQEntries < pq.storage.length) :
    (pq.put pmsg h).msgs = pq.msgs ++ [pmsg] := by
  have hin := pq.in_eq (Nat.lt_of_le_of_lt (Nat.zero_le _) h)
  show held (pq.storage.set pq.OSQIn pmsg) pq.OSQOut (pq.OSQEntries + 1) = _
  rw [hin]
  exact held_put h pmsg

theorem msgs_take {pq : OS_Q} (h : 0 < pq.OSQEntries) :
    pq.msgs = (pq.take h).1 :: (pq.take h).2.msgs := by
  have hpos : 0 < pq.storage.length := Nat.lt_of_lt_of_le h pq.entries_le
  have htake := held_take (pq.out_lt hpos) (pq.OSQEntries - 1)
  rw [Nat.sub_add_cancel h] at htake
  exact htake

theorem msgs_nil {pq : OS_Q} (h : pq.OSQEntries = 0) : pq.msgs = [] := by
  rw [msgs, h, held]

end OS_Q

/-! ### What the two services do differently -/

namespace Svc

def type : Svc → EventType
  | sem => .OS_EVENT_TYPE_SEM
  | q => .OS_EVENT_TYPE_Q

def msk : Svc → BitVec 8
  | sem => OS_STAT_SEM
  | q => OS_STAT_Q

/-- What there is without waiting, and the event afterwards. -/
def take (svc : Svc) (ev : OS_EVENT) : Option (Msg × OS_EVENT) :=
  match svc with
  | sem => if 0 < ev.OSEventCnt then some (0, { ev with OSEventCnt := ev.OSEventCnt - 1 }) else none
  | q =>
    if h : 0 < ev.pq.OSQEntries then some ((ev.pq.take h).1, { ev with pq := (ev.pq.take h).2 })
    else none

/-- What is left of a post that nobody waits for. -/
def put (svc : Svc) (pmsg : Msg) (ev : OS_EVENT) : Except Err OS_EVENT :=
  match svc with
  | sem =>
    if ev.OSEventCnt < 65535 then .ok { ev with OSEventCnt := ev.OSEventCnt + 1 }
    else .error .OS_ERR_SEM_OVF
  | q =>
    if h : ev.pq.OSQEntries < ev.pq.storage.length then .ok { ev with pq := ev.pq.put pmsg h }
    else .error .OS_ERR_Q_FULL

/-- What the block of a task has in `OSTCBMsg` when a pend has come back. -/
def cleared (svc : Svc) (pmsg : Msg) : Msg :=
  match svc with
  | sem => pmsg
  | q => 0

def contents (svc : Svc) (ev : OS_EVENT) : List Msg :=
  match svc with
  | sem => List.replicate ev.OSEventCnt 0
  | q => ev.pq.msgs

end Svc

/-! ### Calls -/

/-- The task that calls, or an interrupt handler. -/
def Kernel.who (k : Kernel) : Option Prio := if 0 < k.OSIntNesting then none else some k.OSPrioCur

/-- A pend up to the scheduler. -/
def pend (svc : Svc) (pevent : Ecb) (timeout : Nat) (k : Kernel) : Outcome Called :=
  if (k.event pevent).OSEventType ≠ svc.type then .ok (back .OS_ERR_EVENT_TYPE k)
  else if 0 < k.OSIntNesting then .ok (back .OS_ERR_PEND_ISR k)
  else if 0 < k.OSLockNesting then .ok (back .OS_ERR_PEND_LOCKED k)
  else
    match svc.take (k.event pevent) with
    | some (pmsg, ev) =>
      .ok ⟨k.setEvent pevent ev, some .OS_ERR_NONE, .user,
        [.given pevent k.who pmsg, .got pevent k.who pmsg]⟩
    | none =>
      (k.ptcb k.OSPrioCur).bind fun t =>
        let t := { t with
          OSTCBStat := t.OSTCBStat ||| svc.msk
          OSTCBStatPend := .OS_STAT_PEND_OK
          OSTCBDly := timeout }
        .ok ⟨OS_EventTaskWait pevent t k, none, .sched (some (svc, pevent)), []⟩

/-- A pend behind the scheduler. -/
def leave (svc : Svc) (pevent : Ecb) (k : Kernel) : Outcome Called :=
  (k.ptcb k.OSPrioCur).bind fun t =>
    let t' := { t with
      OSTCBStat := OS_STAT_RDY
      OSTCBStatPend := .OS_STAT_PEND_OK
      OSTCBEventPtr := none
      OSTCBMsg := svc.cleared t.OSTCBMsg }
    match t.OSTCBStatPend with
    | .OS_STAT_PEND_OK =>
      .ok ⟨k.setTcb k.OSPrioCur t', some .OS_ERR_NONE, .user, [.got pevent k.who t.OSTCBMsg]⟩
    | .OS_STAT_PEND_ABORT => .ok (back .OS_ERR_PEND_ABORT (k.setTcb k.OSPrioCur t'))
    | .OS_STAT_PEND_TO =>
      .ok (back .OS_ERR_TIMEOUT
        ((OS_EventTaskRemove k.OSPrioCur pevent k).setTcb k.OSPrioCur t'))

/-- Take what is there, or go without. -/
def accept (svc : Svc) (pevent : Ecb) (k : Kernel) : Called :=
  if (k.event pevent).OSEventType ≠ svc.type then ⟨k, none, .user, []⟩
  else
    match svc.take (k.event pevent) with
    | some (pmsg, ev) =>
      ⟨k.setEvent pevent ev, none, .user, [.given pevent k.who pmsg, .got pevent k.who pmsg]⟩
    | none => ⟨k, none, .user, []⟩

def post (svc : Svc) (pevent : Ecb) (pmsg : Msg) (k : Kernel) : Outcome Called :=
  if (k.event pevent).OSEventType ≠ svc.type then .ok (back .OS_ERR_EVENT_TYPE k)
  else if (k.event pevent).OSEventTbl.grp ≠ 0#8 then
    (OS_EventTaskRdy pevent pmsg svc.msk .OS_STAT_PEND_OK k).bind fun r =>
      .ok ⟨r.2, some .OS_ERR_NONE, .sched none,
        [.posted pevent pmsg, .given pevent (some r.1) pmsg]⟩
  else
    match svc.put pmsg (k.event pevent) with
    | .ok ev => .ok ⟨k.setEvent pevent ev, some .OS_ERR_NONE, .user, [.posted pevent pmsg]⟩
    | .error err => .ok (back err k)

/-- A round of the loop that readies all tasks that wait. -/
def abortRound (svc : Svc) (pevent : Ecb) (k : Kernel) : Fueled (Kernel ⊕ Kernel) :=
  if (k.event pevent).OSEventTbl.grp ≠ 0#8 then do
    let r ← Fueled.of (OS_EventTaskRdy pevent 0 svc.msk .OS_STAT_PEND_ABORT k)
    .ok (.inl r.2)
  else .ok (.inr k)

/-- `broadcast` is `opt == OS_PEND_OPT_BROADCAST`.  Neither the number of tasks nor the code is
looked at by a caller here. -/
def pendAbort (svc : Svc) (fuel : Nat) (pevent : Ecb) (broadcast : Bool) (k : Kernel) :
    Fueled Called :=
  if (k.event pevent).OSEventType ≠ svc.type then .ok (back .OS_ERR_EVENT_TYPE k)
  else if (k.event pevent).OSEventTbl.grp ≠ 0#8 then
    if broadcast then do
      let k ← whileLoop (abortRound svc pevent) fuel k
      .ok (backBySched .OS_ERR_PEND_ABORT k)
    else do
      let r ← Fueled.of (OS_EventTaskRdy pevent 0 svc.msk .OS_STAT_PEND_ABORT k)
      .ok (backBySched .OS_ERR_PEND_ABORT r.2)
  else .ok (back .OS_ERR_NONE k)

/-! ### `os_sem.c` -/

def OSSemPend : Ecb → Nat → Kernel → Outcome Called := pend .sem
def OSSemPendLeave : Ecb → Kernel → Outcome Called := leave .sem
def OSSemAccept : Ecb → Kernel → Called := accept .sem
def OSSemPost (pevent : Ecb) : Kernel → Outcome Called := post .sem pevent 0
def OSSemPendAbort : Nat → Ecb → Bool → Kernel → Fueled Called := pendAbort .sem

def OSSemSet (pevent : Ecb) (cnt : Nat) (k : Kernel) : Called :=
  let ev := k.event pevent
  let set : Called :=
    ⟨k.setEvent pevent { ev with OSEventCnt := cnt }, some .OS_ERR_NONE, .user, [.reset pevent]⟩
  if ev.OSEventType ≠ .OS_EVENT_TYPE_SEM then back .OS_ERR_EVENT_TYPE k
  else if 0 < ev.OSEventCnt then set
  else if ev.OSEventTbl.grp = 0#8 then set
  else back .OS_ERR_TASK_WAITING k

/-! ### `os_q.c` -/

def OSQPend : Ecb → Nat → Kernel → Outcome Called := pend .q
def OSQPendLeave : Ecb → Kernel → Outcome Called := leave .q
def OSQAccept : Ecb → Kernel → Called := accept .q
def OSQPost : Ecb → Msg → Kernel → Outcome Called := post .q
def OSQPendAbort : Nat → Ecb → Bool → Kernel → Fueled Called := pendAbort .q

/-- There is no test of the type here: `OSEventPtr` of another event is no queue. -/
def OSQFlush (pevent : Ecb) (k : Kernel) : Outcome Called :=
  let ev := k.event pevent
  if ev.OSEventType = .OS_EVENT_TYPE_Q then
    .ok ⟨k.setEvent pevent { ev with pq := ev.pq.flush }, some .OS_ERR_NONE, .user, [.reset pevent]⟩
  else .fault

/-! ### What the services keep -/

theorem take_eq_none {svc : Svc} {ev : OS_EVENT} (h : svc.take ev = none) :
    svc.contents ev = [] := by
  cases svc with
  | sem =>
    rw [Svc.take] at h
    split at h
    · cases h
    · rename_i hcnt
      rw [Svc.contents, Nat.eq_zero_of_not_pos hcnt, List.replicate_zero]
  | q =>
    rw [Svc.take] at h
    split at h
    · cases h
    · rename_i hempty
      exact OS_Q.msgs_nil (Nat.eq_zero_of_not_pos hempty)

theorem take_eq_some {svc : Svc} {ev ev' : OS_EVENT} {pmsg : Msg}
    (h : svc.take ev = some (pmsg, ev')) :
    svc.contents ev = pmsg :: svc.contents ev' ∧ ev'.OSEventType = ev.OSEventType ∧
      ev'.OSEventTbl = ev.OSEventTbl := by
  cases svc with
  | sem =>
    rw [Svc.take] at h
    split at h
    · rename_i hcnt
      cases h
      refine ⟨?_, rfl, rfl⟩
      show List.replicate ev.OSEventCnt 0 = 0 :: List.replicate (ev.OSEventCnt - 1) 0
      rw [← List.replicate_succ, Nat.sub_add_cancel hcnt]
    · cases h
  | q =>
    rw [Svc.take] at h
    split at h
    · rename_i hentries
      cases h
      exact ⟨OS_Q.msgs_take hentries, rfl, rfl⟩
    · cases h

/-- A post to a semaphore brings a token. -/
def Svc.Brings (svc : Svc) (pmsg : Msg) : Prop := svc = .sem → pmsg = 0

theorem put_eq_ok {svc : Svc} {ev ev' : OS_EVENT} {pmsg : Msg} (hmsg : svc.Brings pmsg)
    (h : svc.put pmsg ev = .ok ev') :
    svc.contents ev' = svc.contents ev ++ [pmsg] ∧ ev'.OSEventType = ev.OSEventType ∧
      ev'.OSEventTbl = ev.OSEventTbl := by
  cases svc with
  | sem =>
    rw [Svc.put] at h
    split at h
    · cases h
      rw [hmsg rfl]
      refine ⟨?_, rfl, rfl⟩
      exact List.replicate_succ'
    · cases h
  | q =>
    rw [Svc.put] at h
    split at h
    · rename_i hroom
      cases h
      exact ⟨OS_Q.msgs_put pmsg hroom, rfl, rfl⟩
    · cases h

end Nl6621.Ucos
