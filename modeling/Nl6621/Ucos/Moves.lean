import Nl6621.Ucos.Refine

/-!
# What a critical section does to a task

`Moves k k' p ph b L` is all that a critical section that changes one task can do: the control
block of `p` becomes that of a task in the phase `ph`, its bit in the ready list is set right, it is
in the wait lists of the events in `L`, and nothing else happens, to other tasks, to what the events
contain or to what the scheduler looks at.  There is one lemma for every way in which the kernel
changes a task.
-/

namespace Nl6621.Ucos

open Lib

structure Moves (k k' : Kernel) (p : Prio) (ph : Phase) (b : Bool) (L : Ecb → Prop) : Prop where
  task : ∃ t, k'.OSTCBPrioTbl = Function.update k.OSTCBPrioTbl p (some t) ∧ Rep ph b t
  ready : ∀ q, q ≠ p → (k'.OSRdyTbl.Holds q ↔ k.OSRdyTbl.Holds q)
  ready_self : k'.OSRdyTbl.Holds p ↔ b = false ∧ ph.Runnable
  listed : ∀ pevent q, q ≠ p →
    ((k'.event pevent).OSEventTbl.Holds q ↔ (k.event pevent).OSEventTbl.Holds q)
  listed_self : ∀ pevent, (k'.event pevent).OSEventTbl.Holds p ↔ L pevent
  type : ∀ pevent, (k'.event pevent).OSEventType = (k.event pevent).OSEventType
  store : ∀ pevent, storeOf (k'.event pevent) = storeOf (k.event pevent)
  cur : k'.OSPrioCur = k.OSPrioCur
  high : k'.OSPrioHighRdy = k.OSPrioHighRdy
  nest : k'.OSIntNesting = k.OSIntNesting
  lock : k'.OSLockNesting = k.OSLockNesting
  pendSV : k'.pendSV = k.pendSV

variable {k k' : Kernel} {pends pends' : Prio → Option (Svc × Ecb)} {p : Prio} {ph ph' : Phase}
  {b b' : Bool} {t t' : OS_TCB} {L : Ecb → Prop}

theorem Moves.faithful (h : Moves k k' p ph b L) (hf : Faithful k pends)
    (hlisted : ∀ pevent, L pevent ↔ ph.Listed pevent)
    (hpends : ∀ q, q ≠ p → pends' q = pends q) (hpend : pends' p = ph.pend)
    (htyped : ∀ svc pevent, ph.pend = some (svc, pevent) →
      (k.event pevent).OSEventType = svc.type) :
    Faithful k' pends' ∧ absOf k' pends' = (absOf k pends).setTask p ph b := by
  obtain ⟨t, htask, hrep⟩ := h.task
  exact faithful_setTask hf htask hrep hpends hpend h.ready h.ready_self h.listed
    (fun pevent => (h.listed_self pevent).trans (hlisted pevent)) h.type h.store htyped

/-! ### The bits of a task -/

theorem Faithful.holds_iff (hf : Faithful k pends)
    (htask : (absOf k pends).task p = some (ph, b)) :
    k.OSRdyTbl.Holds p ↔ b = false ∧ ph.Runnable := by
  rw [hf.ready p, htask]
  constructor
  · rintro ⟨ph', h, hrun⟩
    cases h
    exact ⟨rfl, hrun⟩
  · rintro ⟨rfl, hrun⟩
    exact ⟨ph, rfl, hrun⟩

theorem Faithful.listed_iff (hf : Faithful k pends)
    (htask : (absOf k pends).task p = some (ph, b)) (pevent : Ecb) :
    (k.event pevent).OSEventTbl.Holds p ↔ ph.Listed pevent := by
  rw [hf.listed pevent p]
  constructor
  · rintro ⟨ph', b', h, hlisted⟩
    rw [htask] at h
    cases h
    exact hlisted
  · intro h
    exact ⟨ph, b, htask, h⟩

/-! ### Changes of the control block alone -/

/-- The bits of the task are right as they are. -/
theorem moves_setTcb (hf : Faithful k pends) (htask : (absOf k pends).task p = some (ph, b))
    (hrep : Rep ph' b' t') (hready : b = false ∧ ph.Runnable ↔ b' = false ∧ ph'.Runnable) :
    Moves k (k.setTcb p t') p ph' b' fun pevent => ph.Listed pevent where
  task := ⟨t', rfl, hrep⟩
  ready _ _ := Iff.rfl
  ready_self := (hf.holds_iff htask).trans hready
  listed _ _ _ := Iff.rfl
  listed_self pevent := hf.listed_iff htask pevent
  type _ := rfl
  store _ := rfl
  cur := rfl
  high := rfl
  nest := rfl
  lock := rfl
  pendSV := rfl

/-- The task is made ready. -/
theorem moves_ready (hf : Faithful k pends) (htask : (absOf k pends).task p = some (ph, b))
    (hrep : Rep ph' false t') (hrun : ph'.Runnable) :
    Moves k ((k.setTcb p t').ready p) p ph' false fun pevent => ph.Listed pevent where
  task := ⟨t', rfl, hrep⟩
  ready q hq := by
    show (k.OSRdyTbl.add p).Holds q ↔ _
    rw [PrioSet.holds_add]
    exact or_iff_right hq
  ready_self := by
    show (k.OSRdyTbl.add p).Holds p ↔ _
    rw [PrioSet.holds_add]
    exact iff_of_true (.inl rfl) ⟨rfl, hrun⟩
  listed _ _ _ := Iff.rfl
  listed_self pevent := hf.listed_iff htask pevent
  type _ := rfl
  store _ := rfl
  cur := rfl
  high := rfl
  nest := rfl
  lock := rfl
  pendSV := rfl

/-- The task is taken out of the ready list. -/
theorem moves_unready (hf : Faithful k pends) (htask : (absOf k pends).task p = some (ph, b))
    (hrep : Rep ph' b' t') (hrun : ¬(b' = false ∧ ph'.Runnable)) :
    Moves k ((k.unready p).setTcb p t') p ph' b' fun pevent => ph.Listed pevent where
  task := ⟨t', rfl, hrep⟩
  ready q hq := by
    show (k.OSRdyTbl.remove p).Holds q ↔ _
    rw [PrioSet.holds_remove]
    exact and_iff_right hq
  ready_self := by
    show (k.OSRdyTbl.remove p).Holds p ↔ _
    rw [PrioSet.holds_remove]
    exact iff_of_false (fun h => h.1 rfl) hrun
  listed _ _ _ := Iff.rfl
  listed_self pevent := hf.listed_iff htask pevent
  type _ := rfl
  store _ := rfl
  cur := rfl
  high := rfl
  nest := rfl
  lock := rfl
  pendSV := rfl

/-- A task that can run from now on is made ready unless it is suspended. -/
theorem moves_readyUnlessSuspended (hf : Faithful k pends)
    (htask : (absOf k pends).task p = some (ph, b)) (hrep : Rep ph' b t') (hrun : ph'.Runnable) :
    Moves k ((k.setTcb p t').readyUnlessSuspended p t') p ph' b fun pevent => ph.Listed pevent := by
  rw [Kernel.readyUnlessSuspended]
  cases b with
  | false =>
    rw [if_pos (hrep.notSuspended.mpr rfl)]
    exact moves_ready hf htask hrep hrun
  | true =>
    rw [if_neg fun h => Bool.noConfusion (hrep.notSuspended.mp h)]
    exact moves_setTcb hf htask hrep (iff_of_false (fun h => Bool.noConfusion h.1)
      fun h => Bool.noConfusion h.1)

/-! ### Changes that come with a wait list -/

theorem event_remove (k : Kernel) (p : Prio) (pevent e : Ecb) :
    (((OS_EventTaskRemove p pevent k).event e).OSEventType = (k.event e).OSEventType ∧
      storeOf ((OS_EventTaskRemove p pevent k).event e) = storeOf (k.event e)) ∧
    ∀ q, ((OS_EventTaskRemove p pevent k).event e).OSEventTbl.Holds q ↔
      ¬(e = pevent ∧ q = p) ∧ (k.event e).OSEventTbl.Holds q := by
  by_cases he : e = pevent
  · subst he
    have hself : (OS_EventTaskRemove p e k).event e =
        { k.event e with OSEventTbl := (k.event e).OSEventTbl.remove p } :=
      Function.update_self ..
    rw [hself]
    refine ⟨⟨rfl, rfl⟩, fun q => ?_⟩
    rw [PrioSet.holds_remove]
    exact and_congr_left fun _ => not_congr (and_iff_right rfl).symm
  · have hother : (OS_EventTaskRemove p pevent k).event e = k.event e :=
      Function.update_of_ne he ..
    rw [hother]
    exact ⟨⟨rfl, rfl⟩, fun q => ⟨fun h => ⟨fun hand => he hand.1, h⟩, fun h => h.2⟩⟩

/-- The task is taken out of the wait list of an event besides. -/
theorem Moves.remove (h : Moves k k' p ph b L) (pevent : Ecb) :
    Moves k (OS_EventTaskRemove p pevent k') p ph b fun e => e ≠ pevent ∧ L e where
  task := h.task
  ready := h.ready
  ready_self := h.ready_self
  listed e q hq := by
    rw [(event_remove k' p pevent e).2 q, ← h.listed e q hq]
    exact and_iff_right fun hand => hq hand.2
  listed_self e := by
    rw [(event_remove k' p pevent e).2 p, h.listed_self e]
    exact and_congr_left fun _ => not_congr (and_iff_left rfl)
  type e := (event_remove k' p pevent e).1.1.trans (h.type e)
  store e := (event_remove k' p pevent e).1.2.trans (h.store e)
  cur := h.cur
  high := h.high
  nest := h.nest
  lock := h.lock
  pendSV := h.pendSV

/-- The task is put into the wait list of an event besides. -/
theorem Moves.add (h : Moves k k' p ph b L) (pevent : Ecb) :
    Moves k (k'.setEvent pevent { k'.event pevent with
      OSEventTbl := (k'.event pevent).OSEventTbl.add p }) p ph b fun e => e = pevent ∨ L e := by
  have hself : ∀ ev, (k'.setEvent pevent ev).event pevent = ev := fun ev =>
    Function.update_self ..
  have hother : ∀ ev e, e ≠ pevent → (k'.setEvent pevent ev).event e = k'.event e :=
    fun ev e he => Function.update_of_ne he ..
  refine ⟨h.task, h.ready, h.ready_self, fun e q hq => ?_, fun e => ?_, fun e => ?_, fun e => ?_,
    h.cur, h.high, h.nest, h.lock, h.pendSV⟩
  · rw [← h.listed e q hq]
    by_cases he : e = pevent
    · subst he
      rw [hself, PrioSet.holds_add]
      exact or_iff_right hq
    · rw [hother _ e he]
  · rw [← h.listed_self e]
    by_cases he : e = pevent
    · subst he
      rw [hself, PrioSet.holds_add]
      exact or_congr_left (iff_of_true rfl rfl)
    · rw [hother _ e he]
      exact (or_iff_right he).symm
  · rw [← h.type e]
    by_cases he : e = pevent
    · subst he
      rw [hself]
    · rw [hother _ e he]
  · rw [← h.store e]
    by_cases he : e = pevent
    · subst he
      rw [hself]
      rfl
    · rw [hother _ e he]

end Nl6621.Ucos
