import Nl6621.Ucos.Spec
import Nl6621.Ucos.System

/-!
# The kernel does what it is for

`Sys.abs` reads the phases of the tasks and the contents of the events off the control blocks.
`Faithful` says that the rest of the state agrees with them: the flags of a task are those of its
phase, the ready list holds the tasks that can run, the wait list of an event those that a post to
it can reach, and a pend has the type of its event.

`faithful_setTask` and `faithful_setStore` are how a critical section keeps that: it changes
one task, with its bits in the lists, or the contents of one event.
-/

namespace Nl6621.Ucos

open Lib

/-! ### The phase of a task -/

namespace Phase

/-- The flags in `OSTCBStat` besides the one of a suspended task. -/
def stat : Phase → BitVec 8
  | waits svc _ _ => svc.msk
  | _ => OS_STAT_RDY

/-- `OSTCBStatPend`, where it is looked at. -/
def statPend : Phase → Option PendStat
  | free _ => none
  | waits _ _ _ => some .OS_STAT_PEND_OK
  | late _ _ => some .OS_STAT_PEND_TO
  | given _ _ _ => some .OS_STAT_PEND_OK
  | aborted _ _ => some .OS_STAT_PEND_ABORT

def msg : Phase → Option Msg
  | given _ _ pmsg => some pmsg
  | _ => none

end Phase

def suspendFlag (b : Bool) : BitVec 8 := if b then OS_STAT_SUSPEND else OS_STAT_RDY

/-- The control block of a task in a phase. -/
structure Rep (ph : Phase) (b : Bool) (t : OS_TCB) : Prop where
  stat : t.OSTCBStat = ph.stat ||| suspendFlag b
  dly : t.OSTCBDly = ph.dly
  statPend : ∀ st, ph.statPend = some st → t.OSTCBStatPend = st
  msg : ∀ pmsg, ph.msg = some pmsg → t.OSTCBMsg = pmsg
  ptr : t.OSTCBEventPtr = ph.pend.map Prod.snd

/-- The phase that a control block shows, for a task in the given pend. -/
def phaseOf (t : OS_TCB) : Option (Svc × Ecb) → Phase
  | none => .free t.OSTCBDly
  | some (svc, pevent) =>
    if t.OSTCBStat &&& OS_STAT_PEND_ANY ≠ OS_STAT_RDY then .waits svc pevent t.OSTCBDly
    else
      match t.OSTCBStatPend with
      | .OS_STAT_PEND_OK => .given svc pevent t.OSTCBMsg
      | .OS_STAT_PEND_TO => .late svc pevent
      | .OS_STAT_PEND_ABORT => .aborted svc pevent

def suspended (t : OS_TCB) : Bool := decide (t.OSTCBStat &&& OS_STAT_SUSPEND ≠ OS_STAT_RDY)

theorem pend_phaseOf (t : OS_TCB) (o : Option (Svc × Ecb)) : (phaseOf t o).pend = o := by
  cases o with
  | none => rfl
  | some r =>
    rw [phaseOf]
    split
    · rfl
    · split <;> rfl

section

variable {ph : Phase} {b : Bool} {t : OS_TCB}

theorem stat_suspend (svc : Svc) (b : Bool) :
    (svc.msk ||| suspendFlag b) &&& OS_STAT_SUSPEND = suspendFlag b ∧
      (OS_STAT_RDY ||| suspendFlag b) &&& OS_STAT_SUSPEND = suspendFlag b := by
  cases svc <;> cases b <;> decide

theorem stat_pendAny (svc : Svc) (b : Bool) :
    (svc.msk ||| suspendFlag b) &&& OS_STAT_PEND_ANY ≠ OS_STAT_RDY ∧
      (OS_STAT_RDY ||| suspendFlag b) &&& OS_STAT_PEND_ANY = OS_STAT_RDY := by
  cases svc <;> cases b <;> decide

theorem suspendFlag_eq_rdy : suspendFlag b = OS_STAT_RDY ↔ b = false := by
  cases b <;> decide

theorem Phase.stat_suspend (ph : Phase) (b : Bool) :
    (ph.stat ||| suspendFlag b) &&& OS_STAT_SUSPEND = suspendFlag b := by
  cases ph with
  | waits svc pevent n => exact (Ucos.stat_suspend svc b).1
  | _ => exact (Ucos.stat_suspend .sem b).2

theorem Rep.suspended (h : Rep ph b t) : suspended t = b := by
  rw [Ucos.suspended, h.stat, Phase.stat_suspend]
  cases b <;> decide

theorem Rep.notSuspended (h : Rep ph b t) :
    t.OSTCBStat &&& OS_STAT_SUSPEND = OS_STAT_RDY ↔ b = false := by
  rw [h.stat, Phase.stat_suspend, suspendFlag_eq_rdy]

theorem Rep.phaseOf (h : Rep ph b t) : phaseOf t ph.pend = ph := by
  have hstat := h.stat
  have hdly := h.dly
  have hpend := h.statPend
  have hmsg := h.msg
  cases ph with
  | free n => exact congrArg Phase.free hdly
  | waits svc pevent n =>
    have hany : t.OSTCBStat &&& OS_STAT_PEND_ANY ≠ OS_STAT_RDY := by
      rw [hstat]
      exact (stat_pendAny svc b).1
    rw [Phase.pend, Ucos.phaseOf, if_pos hany]
    exact congrArg (Phase.waits svc pevent) hdly
  | late svc pevent =>
    have hany : t.OSTCBStat &&& OS_STAT_PEND_ANY = OS_STAT_RDY := by
      rw [hstat]
      exact (stat_pendAny svc b).2
    rw [Phase.pend, Ucos.phaseOf, if_neg (not_not.mpr hany), hpend _ rfl]
  | given svc pevent pmsg =>
    have hany : t.OSTCBStat &&& OS_STAT_PEND_ANY = OS_STAT_RDY := by
      rw [hstat]
      exact (stat_pendAny svc b).2
    rw [Phase.pend, Ucos.phaseOf, if_neg (not_not.mpr hany), hpend _ rfl]
    exact congrArg (Phase.given svc pevent) (hmsg _ rfl)
  | aborted svc pevent =>
    have hany : t.OSTCBStat &&& OS_STAT_PEND_ANY = OS_STAT_RDY := by
      rw [hstat]
      exact (stat_pendAny svc b).2
    rw [Phase.pend, Ucos.phaseOf, if_neg (not_not.mpr hany), hpend _ rfl]

end

/-! ### The abstract state -/

/-- The pend that a task at this point is in. -/
def Point.pend : Point → Option (Svc × Ecb)
  | user => none
  | sched o => o
  | leave svc pevent => some (svc, pevent)

def storeOf (ev : OS_EVENT) : List Msg :=
  match ev.OSEventType with
  | .OS_EVENT_TYPE_SEM => Svc.sem.contents ev
  | .OS_EVENT_TYPE_Q => Svc.q.contents ev
  | _ => []

theorem storeOf_eq {svc : Svc} {ev : OS_EVENT} (h : ev.OSEventType = svc.type) :
    storeOf ev = svc.contents ev := by
  cases svc <;> rw [storeOf, h] <;> rfl

/-- The kernel with the pends that the tasks are in, as it is meant. -/
def absOf (k : Kernel) (pends : Prio → Option (Svc × Ecb)) : Abs where
  task p := (k.OSTCBPrioTbl p).map fun t => (phaseOf t (pends p), suspended t)
  store pevent := storeOf (k.event pevent)

/-- The kernel, with the pends that the tasks are in, is what it means. -/
structure Faithful (k : Kernel) (pends : Prio → Option (Svc × Ecb)) : Prop where
  rep : ∀ p t, k.OSTCBPrioTbl p = some t → Rep (phaseOf t (pends p)) (suspended t) t
  ready : ∀ p, k.OSRdyTbl.Holds p ↔ ∃ ph, (absOf k pends).task p = some (ph, false) ∧ ph.Runnable
  listed : ∀ pevent p,
    (k.event pevent).OSEventTbl.Holds p ↔ (absOf k pends).Waits p pevent
  typed : ∀ p ph b svc pevent, (absOf k pends).task p = some (ph, b) →
    ph.pend = some (svc, pevent) → (k.event pevent).OSEventType = svc.type

section

variable {k k' : Kernel} {pends pends' : Prio → Option (Svc × Ecb)} {p : Prio} {ph : Phase}
  {b : Bool} {t : OS_TCB}

theorem task_absOf (h : k.OSTCBPrioTbl p = some t) :
    (absOf k pends).task p = some (phaseOf t (pends p), suspended t) := by
  show (k.OSTCBPrioTbl p).map _ = _
  rw [h, Option.map_some]

theorem task_absOf_iff : (absOf k pends).task p = some (ph, b) ↔
    ∃ t, k.OSTCBPrioTbl p = some t ∧ phaseOf t (pends p) = ph ∧ suspended t = b := by
  show (k.OSTCBPrioTbl p).map _ = _ ↔ _
  rw [Option.map_eq_some_iff]
  refine exists_congr fun t => and_congr_right fun _ => ?_
  rw [Prod.mk.injEq]

theorem Faithful.task (hf : Faithful k pends) (h : (absOf k pends).task p = some (ph, b)) :
    ∃ t, k.OSTCBPrioTbl p = some t ∧ Rep ph b t ∧ ph.pend = pends p := by
  obtain ⟨t, ht, rfl, rfl⟩ := task_absOf_iff.mp h
  exact ⟨t, ht, hf.rep p t ht, pend_phaseOf t _⟩

/-- Nothing is changed but what the scheduler looks at. -/
theorem Faithful.same (hf : Faithful k pends) (htask : k'.OSTCBPrioTbl = k.OSTCBPrioTbl)
    (hready : k'.OSRdyTbl = k.OSRdyTbl) (hevent : k'.event = k.event) :
    Faithful k' pends ∧ absOf k' pends = absOf k pends := by
  cases k
  cases k'
  cases htask
  cases hready
  cases hevent
  exact ⟨⟨hf.rep, hf.ready, hf.listed, hf.typed⟩, rfl⟩

/-- **One task comes into another phase.** -/
theorem faithful_setTask (hf : Faithful k pends)
    (htask : k'.OSTCBPrioTbl = Function.update k.OSTCBPrioTbl p (some t)) (hrep : Rep ph b t)
    (hpends : ∀ q, q ≠ p → pends' q = pends q) (hpend : pends' p = ph.pend)
    (hready : ∀ q, q ≠ p → (k'.OSRdyTbl.Holds q ↔ k.OSRdyTbl.Holds q))
    (hready' : k'.OSRdyTbl.Holds p ↔ b = false ∧ ph.Runnable)
    (hlisted : ∀ pevent q, q ≠ p →
      ((k'.event pevent).OSEventTbl.Holds q ↔ (k.event pevent).OSEventTbl.Holds q))
    (hlisted' : ∀ pevent, (k'.event pevent).OSEventTbl.Holds p ↔ ph.Listed pevent)
    (htype : ∀ pevent, (k'.event pevent).OSEventType = (k.event pevent).OSEventType)
    (hstore : ∀ pevent, storeOf (k'.event pevent) = storeOf (k.event pevent))
    (htyped : ∀ svc pevent, ph.pend = some (svc, pevent) →
      (k.event pevent).OSEventType = svc.type) :
    Faithful k' pends' ∧ absOf k' pends' = (absOf k pends).setTask p ph b := by
  have hself : k'.OSTCBPrioTbl p = some t := by rw [htask, Function.update_self]
  have hother : ∀ q, q ≠ p → k'.OSTCBPrioTbl q = k.OSTCBPrioTbl q := by
    intro q hq
    rw [htask, Function.update_of_ne hq]
  have hphase : phaseOf t (pends' p) = ph := by rw [hpend, hrep.phaseOf]
  have habs : absOf k' pends' = (absOf k pends).setTask p ph b := by
    have hboth : (absOf k' pends').task = ((absOf k pends).setTask p ph b).task := by
      funext q
      by_cases hq : q = p
      · subst hq
        rw [task_absOf hself, hphase, hrep.suspended, Abs.task_setTask_self]
      · rw [Abs.task_setTask_of_ne hq]
        show (k'.OSTCBPrioTbl q).map _ = (k.OSTCBPrioTbl q).map _
        rw [hother q hq, hpends q hq]
    have hstores : (absOf k' pends').store = (absOf k pends).store := funext hstore
    show Abs.mk (absOf k' pends').task (absOf k' pends').store = _
    rw [hboth, hstores]
    rfl
  refine ⟨⟨fun q t' ht' => ?_, fun q => ?_, fun pevent q => ?_, fun q ph' b' svc pevent => ?_⟩, habs⟩
  · by_cases hq : q = p
    · subst hq
      cases hself.symm.trans ht'
      rw [hphase, hrep.suspended]
      exact hrep
    · rw [hpends q hq]
      exact hf.rep q t' ((hother q hq).symm.trans ht')
  · rw [habs]
    by_cases hq : q = p
    · subst hq
      rw [hready', Abs.task_setTask_self]
      constructor
      · rintro ⟨rfl, hrun⟩
        exact ⟨ph, rfl, hrun⟩
      · rintro ⟨ph', h, hrun⟩
        cases h
        exact ⟨rfl, hrun⟩
    · rw [hready q hq, hf.ready q, Abs.task_setTask_of_ne hq]
  · rw [habs]
    by_cases hq : q = p
    · subst hq
      rw [hlisted', Abs.waits_setTask_self]
    · rw [hlisted pevent q hq, hf.listed pevent q, Abs.waits_setTask_of_ne hq]
  · rw [habs, htype]
    by_cases hq : q = p
    · subst hq
      rw [Abs.task_setTask_self]
      intro h hp
      cases h
      exact htyped svc pevent hp
    · rw [Abs.task_setTask_of_ne hq]
      exact hf.typed q ph' b' svc pevent

/-- **What one event contains is changed.** -/
theorem faithful_setStore (hf : Faithful k pends) {pevent : Ecb} {ev : OS_EVENT}
    (htype : ev.OSEventType = (k.event pevent).OSEventType)
    (htbl : ev.OSEventTbl = (k.event pevent).OSEventTbl) :
    Faithful (k.setEvent pevent ev) pends ∧
      absOf (k.setEvent pevent ev) pends = (absOf k pends).setStore pevent (storeOf ev) := by
  have hother : ∀ e, e ≠ pevent → (k.setEvent pevent ev).event e = k.event e :=
    fun e he => Function.update_of_ne he ..
  have hself : (k.setEvent pevent ev).event pevent = ev := Function.update_self ..
  have hstores : (absOf (k.setEvent pevent ev) pends).store =
      ((absOf k pends).setStore pevent (storeOf ev)).store := by
    funext e
    show storeOf ((k.setEvent pevent ev).event e) = _
    by_cases he : e = pevent
    · subst he
      rw [hself, Abs.store_setStore_self]
    · rw [hother e he, Abs.store_setStore_of_ne he]
      rfl
  have habs : absOf (k.setEvent pevent ev) pends =
      (absOf k pends).setStore pevent (storeOf ev) := by
    show Abs.mk _ (absOf (k.setEvent pevent ev) pends).store = _
    rw [hstores]
    rfl
  refine ⟨⟨hf.rep, hf.ready, fun e q => ?_, fun q ph' b' svc e h hp => ?_⟩, habs⟩
  · show ((k.setEvent pevent ev).event e).OSEventTbl.Holds q ↔ (absOf k pends).Waits q e
    rw [← hf.listed e q]
    by_cases he : e = pevent
    · subst he
      rw [hself, htbl]
    · rw [hother e he]
  · have htyped := hf.typed q ph' b' svc e h hp
    by_cases he : e = pevent
    · subst he
      rw [hself, htype, htyped]
    · rw [hother e he, htyped]

end

end Nl6621.Ucos
