import Nl6621.Ucos.Calls

/-!
# Runs of the kernel

`Inv` holds in every state of every run (`inv_of_reach`).  Its last fields are about the scheduler:
behind every critical section the running task is the one of the highest priority, unless it is on
its way into the scheduler, or a switch is pending, or an interrupt is active and will look for
itself when it is left, or the scheduler is locked, in which case the task that has locked it is not
in a pend.
-/

namespace Nl6621.Ucos

open Lib

/-- All tasks that there are start ready, and nobody waits; the scheduler has run. -/
structure Starts (s : Sys) : Prop where
  tasks : ∀ p t, s.k.OSTCBPrioTbl p = some t →
    t.OSTCBStat = OS_STAT_RDY ∧ t.OSTCBDly = 0 ∧ t.OSTCBEventPtr = none
  ready : ∀ p, s.k.OSRdyTbl.Holds p ↔ s.k.OSTCBPrioTbl p ≠ none
  lists : ∀ pevent p, ¬(s.k.event pevent).OSEventTbl.Holds p
  idle : s.k.OSTCBPrioTbl OS_TASK_IDLE_PRIO ≠ none
  point : ∀ p, s.point p = .user
  cur : s.k.OSPrioCur = s.k.OSRdyTbl.highest
  nest : s.k.OSIntNesting = 0
  lock : s.k.OSLockNesting = 0
  pendSV : s.k.pendSV = false
  log : s.log = []

namespace Sys

def pends (s : Sys) (p : Prio) : Option (Svc × Ecb) := (s.point p).pend

def abs (s : Sys) : Abs := absOf s.k s.pends

end Sys

structure Inv (s : Sys) : Prop where
  faithful : Faithful s.k s.pends
  events : s.abs.Idle
  cur : ∃ ph b, s.abs.task s.k.OSPrioCur = some (ph, b)
  idle : s.abs.task OS_TASK_IDLE_PRIO = some (.free 0, false)
  locked : 0 < s.k.OSLockNesting →
    s.k.pendSV = false ∧ ∃ b, s.abs.task s.k.OSPrioCur = some (.free 0, b)
  settled : s.TaskRuns → s.k.OSLockNesting = 0 → ¬s.here.AtSched →
    s.k.OSPrioCur = s.k.OSRdyTbl.highest
  pending : s.k.OSIntNesting = 0 → s.k.pendSV = true → s.k.OSPrioHighRdy = s.k.OSRdyTbl.highest

/-! ### The start -/

theorem Starts.task {s : Sys} (h : Starts s) {p : Prio} {ph : Phase} {b : Bool}
    (htask : s.abs.task p = some (ph, b)) : ph = .free 0 ∧ b = false := by
  obtain ⟨t, ht, hph, hb⟩ := task_absOf_iff.mp htask
  obtain ⟨hstat, hdly, -⟩ := h.tasks p t ht
  have hpend : s.pends p = none := congrArg Point.pend (h.point p)
  rw [hpend, phaseOf, hdly] at hph
  rw [suspended, hstat] at hb
  exact ⟨hph.symm, hb.symm⟩

theorem Starts.task_of_ne {s : Sys} (h : Starts s) {p : Prio}
    (hp : s.k.OSTCBPrioTbl p ≠ none) : s.abs.task p = some (.free 0, false) := by
  obtain ⟨t, ht⟩ := Option.ne_none_iff_exists'.mp hp
  have htask : s.abs.task p = some (phaseOf t (s.pends p), suspended t) := task_absOf ht
  obtain ⟨hph, hb⟩ := h.task htask
  rw [htask, hph, hb]

theorem Starts.not_waits {s : Sys} (h : Starts s) (p : Prio) (pevent : Ecb) :
    ¬s.abs.Waits p pevent := by
  rintro ⟨ph, b, htask, hlisted⟩
  obtain ⟨rfl, -⟩ := h.task htask
  exact hlisted

theorem Starts.faithful {s : Sys} (h : Starts s) : Faithful s.k s.pends where
  rep p t ht := by
    obtain ⟨hstat, hdly, hptr⟩ := h.tasks p t ht
    have htask : s.abs.task p = some (phaseOf t (s.pends p), suspended t) := task_absOf ht
    obtain ⟨hph, hb⟩ := h.task htask
    rw [hph, hb]
    exact ⟨hstat, hdly, fun _ h => (by cases h), fun _ h => (by cases h), hptr⟩
  ready p := by
    rw [h.ready p]
    constructor
    · intro hp
      exact ⟨.free 0, h.task_of_ne hp, rfl⟩
    · rintro ⟨ph, htask, -⟩ hnone
      obtain ⟨t, ht, -⟩ := task_absOf_iff.mp htask
      rw [hnone] at ht
      cases ht
  listed pevent p := iff_of_false (h.lists pevent p) (h.not_waits p pevent)
  typed p ph b svc pevent htask hpend := by
    obtain ⟨rfl, -⟩ := h.task htask
    cases hpend

theorem Starts.inv {s : Sys} (h : Starts s) : Inv s where
  faithful := h.faithful
  events p pevent hw := absurd hw (h.not_waits p pevent)
  cur := by
    have hidle := (h.ready _).mpr h.idle
    have hcur := (PrioSet.highest_spec ⟨_, hidle⟩).1
    rw [← h.cur] at hcur
    exact ⟨_, _, h.task_of_ne ((h.ready _).mp hcur)⟩
  idle := h.task_of_ne h.idle
  locked hlock := by
    rw [h.lock] at hlock
    exact absurd hlock (Nat.lt_irrefl 0)
  settled _ _ _ := h.cur
  pending _ hp := by
    rw [h.pendSV] at hp
    cases hp

/-! ### The highest priority -/

section

variable {s s' : Sys} {p : Prio} {ph : Phase} {b : Bool} {c : Call} {a : Act}

theorem highest_of_le {l : PrioSet} (hp : l.Holds p) (hle : ∀ q, l.Holds q → p ≤ q) :
    p = l.highest := by
  obtain ⟨hholds, hleast⟩ := PrioSet.highest_spec ⟨p, hp⟩
  exact le_antisymm (hle _ hholds) (hleast p hp)

theorem Inv.idle_ready (h : Inv s) : s.k.OSRdyTbl.Holds OS_TASK_IDLE_PRIO :=
  (h.faithful.holds_iff h.idle).mpr ⟨rfl, rfl⟩

theorem Inv.highest (h : Inv s) : s.k.OSRdyTbl.Holds s.k.OSRdyTbl.highest ∧
    ∀ q, s.k.OSRdyTbl.Holds q → s.k.OSRdyTbl.highest ≤ q :=
  PrioSet.highest_spec ⟨_, h.idle_ready⟩

/-- A task that runs unlocked is ready. -/
theorem Inv.runs (h : Inv s) (hruns : s.TaskRuns) (hlock : s.k.OSLockNesting = 0)
    (hhere : ¬s.here.AtSched) :
    ∃ ph, s.abs.task s.k.OSPrioCur = some (ph, false) ∧ ph.Runnable := by
  have hready := h.highest.1
  rw [← h.settled hruns hlock hhere] at hready
  exact (h.faithful.ready _).mp hready

theorem Inv.caller (h : Inv s) (hhere : s.TaskRuns → s.here = .user)
    (hruns : s.k.OSIntNesting = 0 → s.TaskRuns) : Caller s.k s.pends := by
  have hfree : s.k.OSIntNesting = 0 → ∀ ph b,
      s.abs.task s.k.OSPrioCur = some (ph, b) → ph.pend = none := by
    intro hnest ph b htask
    obtain ⟨t, -, -, hpend⟩ := h.faithful.task htask
    rw [hpend]
    exact congrArg Point.pend (hhere (hruns hnest))
  refine ⟨h.cur, fun hnest => ?_, fun hnest hlock => ?_⟩
  · obtain ⟨ph, b, htask⟩ := h.cur
    have hnone := hfree hnest ph b htask
    cases ph with
    | free n => exact ⟨n, b, htask⟩
    | waits | late | given | aborted => cases hnone
  · have huser := hhere (hruns hnest)
    have hnot : ¬s.here.AtSched := by
      rw [huser]
      exact id
    obtain ⟨ph, htask, hrun⟩ := h.runs (hruns hnest) hlock hnot
    have hnone := hfree hnest ph false htask
    cases ph with
    | free n =>
      obtain rfl : n = 0 := hrun
      exact htask
    | waits | late | given | aborted => cases hnone

/-! ### The calls -/

theorem Call.run_does (h : Inv s) (hcaller : Caller s.k s.pends) (hallowed : c.Allowed s.k)
    (hlock : c ≠ .OSSchedLock) (hunlock : c ≠ .OSSchedUnlock) :
    ∃ r, c.run s.k = .ok r ∧ Does s.k s.pends c r := by
  have hof : ∀ {o : Outcome Called}, (∃ r, o = .ok r ∧ Does s.k s.pends c r) →
      ∃ r, Fueled.of o = .ok r ∧ Does s.k s.pends c r := by
    rintro o ⟨r, rfl, hr⟩
    exact ⟨r, rfl, hr⟩
  cases c with
  | OSSemPend pevent timeout => exact hof (pend_does h.faithful hcaller .sem pevent timeout _)
  | OSSemAccept pevent => exact ⟨_, rfl, accept_does h.faithful hcaller .sem pevent _⟩
  | OSSemPost pevent => exact hof (post_does h.faithful (fun _ => rfl) pevent _)
  | OSSemPendAbort pevent broadcast => exact pendAbort_does h.faithful .sem pevent broadcast _
  | OSSemSet pevent cnt => exact ⟨_, rfl, semSet_does h.faithful h.events pevent cnt _⟩
  | OSQPend pevent timeout => exact hof (pend_does h.faithful hcaller .q pevent timeout _)
  | OSQAccept pevent => exact ⟨_, rfl, accept_does h.faithful hcaller .q pevent _⟩
  | OSQPost pevent pmsg => exact hof (post_does h.faithful (fun h => Svc.noConfusion h) pevent _)
  | OSQPendAbort pevent broadcast => exact pendAbort_does h.faithful .q pevent broadcast _
  | OSQFlush pevent => exact hof (qFlush_does h.faithful hallowed _)
  | OSTimeDly ticks => exact hof (timeDly_does h.faithful hcaller ticks _)
  | OSTimeDlyResume prio => exact ⟨_, rfl, timeDlyResume_does h.faithful prio⟩
  | OSTaskSuspend prio => exact ⟨_, rfl, taskSuspend_does h.faithful prio⟩
  | OSTaskResume prio => exact ⟨_, rfl, taskResume_does h.faithful prio _⟩
  | OSSchedLock => exact absurd rfl hlock
  | OSSchedUnlock => exact absurd rfl hunlock

/-! ### One step -/

/-- The action is a call that ends the delay of the task. -/
def Act.Resumes (p : Prio) (a : Act) : Prop :=
  a = .call (.OSTimeDlyResume p) ∨ a = .isr (.OSTimeDlyResume p)

structure StepDoes (s : Sys) (a : Act) (s' : Sys) : Prop where
  inv : Inv s'
  seen : ∃ o, s'.log = s.log ++ o ∧ Changes s.abs o s'.abs
  free : ∀ q n b, 0 < n → s.abs.task q = some (.free n, b) → a ≠ .tick q → ¬a.Resumes q →
    ∃ b', s'.abs.task q = some (.free n, b')
  tick : ∀ q ph b, a = .tick q → s.abs.task q = some (ph, b) →
    s'.abs.task q = some (ph.ticked, b)

theorem Change.keeps_task {A B : Abs} {o : List Obs} (h : Change A o B)
    (hp : ∃ ph b, A.task p = some (ph, b)) : ∃ ph b, B.task p = some (ph, b) := by
  have hset : ∀ q ph b, ∃ ph' b', (A.setTask q ph b).task p = some (ph', b') := by
    intro q ph b
    by_cases hq : p = q
    · subst hq
      exact ⟨ph, b, Abs.task_setTask_self⟩
    · rw [Abs.task_setTask_of_ne hq]
      exact hp
  cases h with
  | take | put | reset => exact hp
  | hand | abort | block | receive | giveUp | delay | tick | expired | suspend | resume =>
    exact hset _ _ _

theorem Changes.keeps_task {A B : Abs} {o : List Obs} (h : Changes A o B)
    (hp : ∃ ph b, A.task p = some (ph, b)) : ∃ ph b, B.task p = some (ph, b) := by
  induction h with
  | refl => exact hp
  | tail _ hc ih => exact hc.keeps_task ih

/-- Nothing but the variables of the scheduler is touched. -/
theorem stepDoes_same (h : Inv s) (htask : s'.k.OSTCBPrioTbl = s.k.OSTCBPrioTbl)
    (hready : s'.k.OSRdyTbl = s.k.OSRdyTbl) (hevent : s'.k.event = s.k.event)
    (hpends : s'.pends = s.pends) (hlog : s'.log = s.log) (ha : ∀ q, a ≠ .tick q)
    (hcur : ∃ ph b, s.abs.task s'.k.OSPrioCur = some (ph, b))
    (hlocked : 0 < s'.k.OSLockNesting →
      s'.k.pendSV = false ∧ ∃ b, s.abs.task s'.k.OSPrioCur = some (.free 0, b))
    (hsettled : s'.TaskRuns → s'.k.OSLockNesting = 0 → ¬s'.here.AtSched →
      s'.k.OSPrioCur = s.k.OSRdyTbl.highest)
    (hpending : s'.k.OSIntNesting = 0 → s'.k.pendSV = true →
      s'.k.OSPrioHighRdy = s.k.OSRdyTbl.highest) : StepDoes s a s' := by
  obtain ⟨hf, habs'⟩ := h.faithful.same htask hready hevent
  have habs : s'.abs = s.abs := by
    rw [Sys.abs, hpends]
    exact habs'
  refine ⟨⟨?_, ?_, ?_, ?_, ?_, ?_, ?_⟩, ⟨[], ?_, ?_⟩, ?_, ?_⟩
  · rw [hpends]
    exact hf
  · rw [habs]
    exact h.events
  · rw [habs]
    exact hcur
  · rw [habs]
    exact h.idle
  · rw [habs]
    exact hlocked
  · rw [hready]
    exact hsettled
  · rw [hready]
    exact hpending
  · rw [hlog, List.append_nil]
  · rw [habs]
    exact .refl _
  · intro q n b _ hq _ _
    rw [habs]
    exact ⟨b, hq⟩
  · intro q _ _ hq
    exact absurd hq (ha q)

/-- A call that does something, of a task or of a handler. -/
theorem stepDoes_steps (h : Inv s) {o : List Obs}
    (hs : Steps s.k s'.k s.pends s'.pends c o) (hlog : s'.log = s.log ++ o)
    (ha : ∀ q, a ≠ .tick q) (hc : ∀ q, c = .OSTimeDlyResume q → a.Resumes q)
    (hallowed : c ≠ .OSTaskSuspend OS_TASK_IDLE_PRIO)
    (hguard : ∀ q n b, s.abs.task q = some (.free n, b) → q = OS_TASK_IDLE_PRIO ∨ 0 < n →
      q = s.k.OSPrioCur → 0 < s.k.OSIntNesting ∨ 0 < s.k.OSLockNesting)
    (hsettled : s'.TaskRuns → s'.k.OSLockNesting = 0 → ¬s'.here.AtSched →
      s'.k.OSPrioCur = s'.k.OSRdyTbl.highest)
    (hpending : s'.k.OSIntNesting = 0 → s'.k.pendSV = true →
      s'.k.OSPrioHighRdy = s'.k.OSRdyTbl.highest) : StepDoes s a s' := by
  refine ⟨⟨hs.faithful, hs.changes.keeps_idle h.events, ?_, ?_, fun hlock => ?_, hsettled,
    hpending⟩, ⟨o, hlog, hs.changes⟩, fun q n b hn hq _ hres => ?_, fun q _ _ hq => absurd hq (ha q)⟩
  · rw [hs.cur]
    exact hs.changes.keeps_task h.cur
  · obtain ⟨b', hidle, hb⟩ := hs.free _ 0 false h.idle (hguard _ 0 false h.idle (.inl rfl)) (.inl rfl)
    cases b' with
    | false => exact hidle
    | true =>
      rcases hb rfl with hb | hb
      · cases hb
      · exact absurd hb hallowed
  · rw [hs.lock] at hlock
    obtain ⟨hpend, b, hcur⟩ := h.locked hlock
    obtain ⟨b', hcur', -⟩ := hs.free _ 0 b hcur (fun _ => .inr hlock) (.inl rfl)
    rw [hs.pendSV, hs.cur]
    exact ⟨hpend, b', hcur'⟩
  · have hne : c ≠ .OSTimeDlyResume q := fun heq => hres (hc q heq)
    obtain ⟨b', hq', -⟩ := hs.free q n b hq (hguard q n b hq (.inr hn)) (.inr hne)
    exact ⟨b', hq'⟩

/-- A task that runs and is free has no ticks left. -/
theorem Inv.cur_free (h : Inv s) (hruns : s.TaskRuns) (hhere : ¬s.here.AtSched) {n : Nat}
    (htask : s.abs.task s.k.OSPrioCur = some (.free n, b)) : n = 0 := by
  by_cases hlock : s.k.OSLockNesting = 0
  · obtain ⟨ph, hph, hrun⟩ := h.runs hruns hlock hhere
    rw [htask] at hph
    cases hph
    exact hrun
  · obtain ⟨-, b', hb'⟩ := h.locked (Nat.pos_of_ne_zero hlock)
    rw [htask] at hb'
    cases hb'
    rfl

theorem pends_afterCall {r : Called} (hhere : s.here = .user) :
    (s.afterCall r).pends = nextPends s.k s.pends r.next := by
  funext q
  show (Function.update s.point s.k.OSPrioCur r.next q).pend = _
  have hcur : s.pends s.k.OSPrioCur = none := congrArg Point.pend hhere
  rw [nextPends]
  by_cases hq : q = s.k.OSPrioCur
  · subst hq
    rw [Function.update_self]
    cases hnext : r.next.pend with
    | none => exact hcur.symm
    | some x => exact (@Function.update_self _ _ _ s.k.OSPrioCur (some x) s.pends).symm
  · rw [Function.update_of_ne hq]
    cases r.next.pend with
    | none => rfl
    | some x => exact (@Function.update_of_ne _ _ _ q _ hq (some x) s.pends).symm

theorem here_afterCall {r : Called} (hcur : r.k.OSPrioCur = s.k.OSPrioCur) :
    (s.afterCall r).here = r.next := by
  show Function.update s.point s.k.OSPrioCur r.next r.k.OSPrioCur = r.next
  rw [hcur, Function.update_self]

theorem afterCall_does (h : Inv s) (hruns : s.TaskRuns) (hhere : s.here = .user)
    (hcur : s.k.OSPrioCur ≠ OS_TASK_IDLE_PRIO) (hallowed : c.Allowed s.k) {r : Called}
    (hr : Does s.k s.pends c r) : StepDoes s (.call c) (s.afterCall r) := by
  have hs := hr.steps
  rw [← pends_afterCall hhere] at hs
  have hnot : ¬s.here.AtSched := by
    rw [hhere]
    exact id
  refine stepDoes_steps h hs rfl (fun _ h => (by cases h)) (fun q hq => .inl (congrArg _ hq))
    (fun hc => ?_) (fun q n b hq hor heq => ?_) (fun _ hlock hsched => ?_) fun _ hpend => ?_
  · subst hc
    exact hallowed rfl
  · subst heq
    rcases hor with hor | hor
    · exact absurd hor hcur
    · rw [h.cur_free hruns hnot hq] at hor
      exact absurd hor (Nat.lt_irrefl 0)
  · rw [here_afterCall hr.steps.cur] at hsched
    have hlock' : s.k.OSLockNesting = 0 := hr.steps.lock.symm.trans hlock
    have huser : r.next = .user := by
      cases hnext : r.next with
      | user => rfl
      | sched o =>
        rw [hnext] at hsched
        exact absurd trivial hsched
      | leave svc pevent => exact absurd hnext (hr.called svc pevent)
    obtain ⟨hsub, hkeep⟩ := hr.quiet huser
    have hset := h.settled hruns hlock' hnot
    have hready := h.highest.1
    rw [← hset] at hready
    show r.k.OSPrioCur = r.k.OSRdyTbl.highest
    rw [hr.steps.cur]
    refine highest_of_le (hkeep hready) fun q hq => ?_
    rw [hset]
    exact h.highest.2 q (hsub q hq)
  · have hfalse : r.k.pendSV = false := hr.steps.pendSV.trans hruns.2
    rw [show (s.afterCall r).k.pendSV = r.k.pendSV from rfl, hfalse] at hpend
    cases hpend

theorem afterIsr_does (h : Inv s) (hnest : 0 < s.k.OSIntNesting) (hallowed : c.Allowed s.k)
    {r : Called} (hr : Does s.k s.pends c r) : StepDoes s (.isr c) (s.afterIsr r) := by
  have hs := hr.steps
  have hnone : r.next.pend = none := by
    by_contra hne
    rw [(hr.blocks hne).1] at hnest
    exact Nat.lt_irrefl 0 hnest
  rw [nextPends, hnone] at hs
  have hnest' : (s.afterIsr r).k.OSIntNesting = s.k.OSIntNesting := hr.steps.nest
  refine stepDoes_steps h hs rfl (fun _ h => (by cases h)) (fun q hq => .inr (congrArg _ hq))
    (fun hc => ?_) (fun _ _ _ _ _ _ => .inl hnest) (fun hruns => ?_) fun hzero => ?_
  · subst hc
    exact hallowed rfl
  · rw [← hnest', hruns.1] at hnest
    exact absurd hnest (Nat.lt_irrefl 0)
  · rw [← hnest', hzero] at hnest
    exact absurd hnest (Nat.lt_irrefl 0)

/-! ### Locking the scheduler -/

theorem pends_update {pt : Point} (h : pt.pend = s.pends p) :
    (fun q => (Function.update s.point p pt q).pend) = s.pends := by
  funext q
  by_cases hq : q = p
  · subst hq
    rw [Function.update_self, h]
  · rw [Function.update_of_ne hq]
    rfl

theorem schedLock_does (h : Inv s) (hruns : s.TaskRuns) (hhere : s.here = .user) :
    StepDoes s (.call .OSSchedLock) (s.afterCall (OSSchedLock s.k)) := by
  have hpend : Point.user.pend = s.pends s.k.OSPrioCur := (congrArg Point.pend hhere).symm
  have hlocked : ∃ b, s.abs.task s.k.OSPrioCur = some (.free 0, b) := by
    by_cases hlock : s.k.OSLockNesting = 0
    · exact ⟨false, (h.caller (fun _ => hhere) fun _ => hruns).runs hruns.1 hlock⟩
    · exact (h.locked (Nat.pos_of_ne_zero hlock)).2
  have hcase : OSSchedLock s.k = ⟨{ s.k with OSLockNesting := s.k.OSLockNesting + 1 }, none,
      .user, []⟩ ∨ OSSchedLock s.k = ⟨s.k, none, .user, []⟩ ∧ s.k.OSLockNesting ≠ 0 := by
    rw [OSSchedLock, if_pos hruns.1]
    by_cases hlt : s.k.OSLockNesting < 255
    · rw [if_pos hlt]
      exact .inl rfl
    · rw [if_neg hlt]
      exact .inr ⟨rfl, by omega⟩
  have hnot : s.k.pendSV = true → False := by
    rw [hruns.2]
    exact Bool.false_ne_true
  rcases hcase with hr | ⟨hr, hne⟩
  · rw [hr]
    exact stepDoes_same h rfl rfl rfl (pends_update hpend) (List.append_nil _)
      (fun _ h => (by cases h)) h.cur (fun _ => ⟨hruns.2, hlocked⟩)
      (fun _ hlock => absurd hlock (Nat.succ_ne_zero _)) fun _ hp => (hnot hp).elim
  · rw [hr]
    exact stepDoes_same h rfl rfl rfl (pends_update hpend) (List.append_nil _)
      (fun _ h => (by cases h)) h.cur (fun _ => ⟨hruns.2, hlocked⟩)
      (fun _ hlock => absurd hlock hne) fun _ hp => (hnot hp).elim

theorem schedUnlock_does (h : Inv s) (hruns : s.TaskRuns) (hhere : s.here = .user) :
    StepDoes s (.call .OSSchedUnlock) (s.afterCall (OSSchedUnlock s.k)) := by
  have hpend : Point.user.pend = s.pends s.k.OSPrioCur := (congrArg Point.pend hhere).symm
  have hpend' : (Point.sched none).pend = s.pends s.k.OSPrioCur := hpend
  have hnot : s.k.pendSV = true → False := by
    rw [hruns.2]
    exact Bool.false_ne_true
  rw [OSSchedUnlock]
  by_cases hlock : 0 < s.k.OSLockNesting
  · rw [if_pos hlock]
    simp only
    by_cases hlast : s.k.OSLockNesting - 1 = 0
    · rw [if_pos hlast, if_pos hruns.1]
      refine stepDoes_same h rfl rfl rfl (pends_update hpend') (List.append_nil _)
        (fun _ h => (by cases h)) h.cur (fun hpos => ?_) (fun _ _ hsched => ?_) fun _ hp =>
        (hnot hp).elim
      · have hpos' : 0 < s.k.OSLockNesting - 1 := hpos
        omega
      · rw [here_afterCall rfl] at hsched
        exact absurd trivial hsched
    · rw [if_neg hlast]
      exact stepDoes_same h rfl rfl rfl (pends_update hpend) (List.append_nil _)
        (fun _ h => (by cases h)) h.cur (fun _ => h.locked hlock)
        (fun _ hzero => absurd hzero hlast) fun _ hp => (hnot hp).elim
  · rw [if_neg hlock]
    refine stepDoes_same h rfl rfl rfl (pends_update hpend) (List.append_nil _)
      (fun _ h => (by cases h)) h.cur (fun hpos => absurd hpos hlock) (fun _ hzero _ => ?_)
      fun _ hp => (hnot hp).elim
    refine h.settled hruns hzero ?_
    rw [hhere]
    exact id

/-- A handler cannot lock the scheduler, and unlocks it without calling it. -/
theorem isrLock_does (h : Inv s) (hnest : 0 < s.k.OSIntNesting) :
    StepDoes s (.isr .OSSchedLock) (s.afterIsr (OSSchedLock s.k)) ∧
      StepDoes s (.isr .OSSchedUnlock) (s.afterIsr (OSSchedUnlock s.k)) := by
  have hne : s.k.OSIntNesting ≠ 0 := Nat.ne_of_gt hnest
  constructor
  · rw [OSSchedLock, if_neg hne]
    exact stepDoes_same h rfl rfl rfl rfl (List.append_nil _) (fun _ h => (by cases h)) h.cur
      h.locked (fun hruns => absurd hruns.1 hne) fun hzero => absurd hzero hne
  · rw [OSSchedUnlock]
    by_cases hlock : 0 < s.k.OSLockNesting
    · rw [if_pos hlock]
      simp only
      rw [if_neg hne, ite_self]
      exact stepDoes_same h rfl rfl rfl rfl (List.append_nil _) (fun _ h => (by cases h)) h.cur
        (fun _ => h.locked hlock) (fun hruns => absurd hruns.1 hne) fun hzero => absurd hzero hne
    · rw [if_neg hlock]
      exact stepDoes_same h rfl rfl rfl rfl (List.append_nil _) (fun _ h => (by cases h)) h.cur
        h.locked (fun hruns => absurd hruns.1 hne) fun hzero => absurd hzero hne

/-! ### The scheduler -/

/-- How `OS_Sched` and `OSIntExit` leave the kernel when they look for the highest priority. -/
theorem switch_spec (k : Kernel) :
    (let k' := OS_SchedNew k
      if k'.OSPrioHighRdy ≠ k'.OSPrioCur then OSCtxSw k' else k') =
      { k with
        OSPrioHighRdy := k.OSRdyTbl.highest
        pendSV := if k.OSRdyTbl.highest ≠ k.OSPrioCur then true else k.pendSV } := by
  show (if k.OSRdyTbl.highest ≠ k.OSPrioCur then _ else _) = _
  split
  · rfl
  · rfl

theorem sched_does (h : Inv s) (hruns : s.TaskRuns) {o : Option (Svc × Ecb)}
    (hhere : s.here = .sched o) : StepDoes s .sched s.doSched := by
  obtain ⟨pt, hpt, hpend, hdo⟩ : ∃ pt : Point, ¬pt.AtSched ∧ pt.pend = s.pends s.k.OSPrioCur ∧
      s.doSched = { s with k := OS_Sched s.k
                           point := Function.update s.point s.k.OSPrioCur pt } := by
    have hcur : s.pends s.k.OSPrioCur = o := congrArg Point.pend hhere
    rw [hcur, Sys.doSched, hhere]
    cases o with
    | none => exact ⟨.user, id, rfl, rfl⟩
    | some r => exact ⟨.leave r.1 r.2, id, rfl, rfl⟩
  rw [hdo]
  by_cases hlock : s.k.OSLockNesting = 0
  · have hk : OS_Sched s.k = { s.k with
        OSPrioHighRdy := s.k.OSRdyTbl.highest
        pendSV := if s.k.OSRdyTbl.highest ≠ s.k.OSPrioCur then true else s.k.pendSV } := by
      rw [OS_Sched, if_pos hruns.1, if_pos hlock]
      exact switch_spec s.k
    rw [hk]
    refine stepDoes_same h rfl rfl rfl (pends_update hpend) rfl (fun _ h => (by cases h)) h.cur
      (fun hpos => ?_) (fun hruns' _ _ => ?_) fun _ _ => rfl
    · have hpos' : 0 < s.k.OSLockNesting := hpos
      omega
    · have hfalse : (if s.k.OSRdyTbl.highest ≠ s.k.OSPrioCur then true else s.k.pendSV) = false :=
        hruns'.2
      by_contra hne
      rw [if_pos (Ne.symm hne)] at hfalse
      cases hfalse
  · have hk : OS_Sched s.k = s.k := by rw [OS_Sched, if_pos hruns.1, if_neg hlock]
    rw [hk]
    refine stepDoes_same h rfl rfl rfl (pends_update hpend) rfl (fun _ h => (by cases h)) h.cur
      h.locked (fun _ hzero => absurd hzero hlock) fun _ hp => ?_
    have hp' : s.k.pendSV = true := hp
    rw [hruns.2] at hp'
    cases hp'

theorem pendSV_does (h : Inv s) (hnest : s.k.OSIntNesting = 0) (hp : s.k.pendSV = true) :
    StepDoes s .pendSV { s with k := OSPendSV s.k } := by
  have hhigh := h.pending hnest hp
  have hlock : ¬0 < s.k.OSLockNesting := by
    intro hlock
    rw [(h.locked hlock).1] at hp
    cases hp
  obtain ⟨ph, htask, -⟩ := (h.faithful.ready _).mp h.highest.1
  refine stepDoes_same h rfl rfl rfl rfl rfl (fun _ h => (by cases h)) ?_
    (fun hpos => absurd hpos hlock) (fun _ _ _ => hhigh) fun _ hp => (by cases hp)
  show ∃ ph b, s.abs.task s.k.OSPrioHighRdy = some (ph, b)
  rw [hhigh]
  exact ⟨ph, false, htask⟩

theorem intEnter_does (h : Inv s) (hlt : s.k.OSIntNesting < 255) :
    StepDoes s .intEnter { s with k := OSIntEnter s.k } := by
  rw [OSIntEnter, if_pos hlt]
  exact stepDoes_same h rfl rfl rfl rfl rfl (fun _ h => (by cases h)) h.cur h.locked
    (fun hruns => absurd hruns.1 (Nat.succ_ne_zero _)) fun hzero =>
    absurd hzero (Nat.succ_ne_zero _)

theorem intExit_does (h : Inv s) (hnest : 0 < s.k.OSIntNesting) :
    StepDoes s .intExit { s with k := OSIntExit s.k } := by
  rw [OSIntExit, if_pos hnest]
  simp only
  by_cases hlast : s.k.OSIntNesting - 1 = 0
  · rw [if_pos hlast]
    by_cases hlock : s.k.OSLockNesting = 0
    · rw [if_pos hlock]
      have hk := switch_spec { s.k with OSIntNesting := s.k.OSIntNesting - 1 }
      simp only at hk
      rw [hk]
      refine stepDoes_same h rfl rfl rfl rfl rfl (fun _ h => (by cases h)) h.cur
        (fun hpos => ?_) (fun hruns' _ _ => ?_) fun _ _ => rfl
      · have hpos' : 0 < s.k.OSLockNesting := hpos
        omega
      · have hfalse : (if s.k.OSRdyTbl.highest ≠ s.k.OSPrioCur then true else s.k.pendSV) = false :=
          hruns'.2
        by_contra hne
        rw [if_pos (Ne.symm hne)] at hfalse
        cases hfalse
    · rw [if_neg hlock]
      refine stepDoes_same h rfl rfl rfl rfl rfl (fun _ h => (by cases h)) h.cur h.locked
        (fun _ hzero => absurd hzero hlock) fun _ hp => ?_
      have hp' : s.k.pendSV = true := hp
      rw [(h.locked (Nat.pos_of_ne_zero hlock)).1] at hp'
      cases hp'
  · rw [if_neg hlast]
    exact stepDoes_same h rfl rfl rfl rfl rfl (fun _ h => (by cases h)) h.cur h.locked
      (fun hruns => absurd hruns.1 hlast) fun hzero => absurd hzero hlast

/-! ### Behind the scheduler, and the clock -/

theorem leave_does (h : Inv s) (hruns : s.TaskRuns) {svc : Svc} {pevent : Ecb}
    (hhere : s.here = .leave svc pevent) : ∃ r, leave svc pevent s.k = .ok r ∧
      StepDoes s .leave (s.afterCall r) := by
  have hpend : s.pends s.k.OSPrioCur = some (svc, pevent) := congrArg Point.pend hhere
  have hnot : ¬s.here.AtSched := by
    rw [hhere]
    exact id
  have hno : ∀ n b, s.abs.task s.k.OSPrioCur ≠ some (.free n, b) := by
    intro n b htask
    obtain ⟨t, -, -, hp⟩ := h.faithful.task htask
    rw [hpend] at hp
    cases hp
  have hlock : s.k.OSLockNesting = 0 := by
    by_contra hne
    obtain ⟨-, b, hb⟩ := h.locked (Nat.pos_of_ne_zero hne)
    exact hno 0 b hb
  obtain ⟨ph, htask, hrun⟩ := h.runs hruns hlock hnot
  obtain ⟨t, -, -, hph⟩ := h.faithful.task htask
  obtain ⟨r, hr, hnext, hready, hs⟩ :=
    leave_steps h.faithful htask hrun (hph.trans hpend) hruns.1 .OSSchedLock
  have hpends : (s.afterCall r).pends = Function.update s.pends s.k.OSPrioCur none := by
    funext q
    show (Function.update s.point s.k.OSPrioCur r.next q).pend = _
    by_cases hq : q = s.k.OSPrioCur
    · subst hq
      rw [Function.update_self, Function.update_self, hnext]
      rfl
    · rw [Function.update_of_ne hq, Function.update_of_ne hq]
      rfl
  rw [← hpends] at hs
  refine ⟨r, hr, stepDoes_steps h hs rfl (fun _ h => (by cases h)) (fun _ h => (by cases h))
    (fun h => by cases h) (fun q n b hq _ heq => ?_) (fun _ _ _ => ?_) fun _ hp => ?_⟩
  · subst heq
    exact absurd hq (hno n b)
  · show r.k.OSPrioCur = r.k.OSRdyTbl.highest
    have hset := h.settled hruns hlock hnot
    rw [hs.cur]
    refine highest_of_le ((hready _).mpr ?_) fun q hq => ?_
    · rw [hset]
      exact h.highest.1
    · rw [hset]
      exact h.highest.2 q ((hready q).mp hq)
  · have hp' : r.k.pendSV = true := hp
    rw [hs.pendSV, hruns.2] at hp'
    cases hp'

theorem tick_does (h : Inv s) (hnest : 0 < s.k.OSIntNesting) (hidle : p ≠ OS_TASK_IDLE_PRIO)
    (hp : s.k.OSTCBPrioTbl p ≠ none) : ∃ k', timeTick p s.k = .ok k' ∧
      StepDoes s (.tick p) { s with k := k' } := by
  obtain ⟨t, ht⟩ := Option.ne_none_iff_exists'.mp hp
  have htask : s.abs.task p = some (phaseOf t (s.pends p), suspended t) := task_absOf ht
  obtain ⟨k', hrun, habs, hs⟩ := timeTick_steps h.faithful htask
  have habs' : Sys.abs { s with k := k' } = s.abs.setTask p (phaseOf t (s.pends p)).ticked
    (suspended t) := habs
  have hne : s.k.OSIntNesting ≠ 0 := Nat.ne_of_gt hnest
  refine ⟨k', hrun, ⟨hs.faithful, hs.changes.keeps_idle h.events, ?_, ?_, fun hlock => ?_,
    fun hruns => ?_, fun hzero => ?_⟩, ⟨[], (List.append_nil _).symm, hs.changes⟩,
    fun q n b _ hq hqp _ => ?_, fun q ph b heq hq => ?_⟩
  · show ∃ ph b, (absOf k' s.pends).task k'.OSPrioCur = some (ph, b)
    rw [hs.cur]
    exact hs.changes.keeps_task h.cur
  · rw [habs', Abs.task_setTask_of_ne (Ne.symm hidle)]
    exact h.idle
  · have hlock' : 0 < s.k.OSLockNesting := Nat.lt_of_lt_of_eq hlock hs.lock
    obtain ⟨hpend, b, hcur⟩ := h.locked hlock'
    obtain ⟨b', hcur', -⟩ := hs.free _ 0 b hcur (fun _ => .inl hnest) (.inl rfl)
    refine ⟨hs.pendSV.trans hpend, b', ?_⟩
    show (absOf k' s.pends).task k'.OSPrioCur = _
    rw [hs.cur]
    exact hcur'
  · exact absurd (hs.nest.symm.trans hruns.1) hne
  · exact absurd (hs.nest.symm.trans hzero) hne
  · have hqp' : q ≠ p := by
      rintro rfl
      exact hqp rfl
    rw [habs', Abs.task_setTask_of_ne hqp']
    exact ⟨b, hq⟩
  · cases heq
    have hsame := htask.symm.trans hq
    cases hsame
    rw [habs', Abs.task_setTask_self]

/-! ### Every step -/

/-- **Whatever comes next is carried out, and keeps the invariant.** -/
theorem exec_does (h : Inv s) (hen : s.Enabled a) : ∃ s', s.exec a = some s' ∧ StepDoes s a s' := by
  cases a with
  | call c =>
    obtain ⟨hruns, hhere, hcur, hallowed⟩ := hen
    by_cases hlock : c = .OSSchedLock
    · subst hlock
      exact ⟨_, rfl, schedLock_does h hruns hhere⟩
    by_cases hunlock : c = .OSSchedUnlock
    · subst hunlock
      exact ⟨_, rfl, schedUnlock_does h hruns hhere⟩
    obtain ⟨r, hr, hdoes⟩ := Call.run_does h (h.caller (fun _ => hhere) fun _ => hruns) hallowed
      hlock hunlock
    refine ⟨s.afterCall r, ?_, afterCall_does h hruns hhere hcur hallowed hdoes⟩
    rw [Sys.exec, hr]
    rfl
  | sched =>
    obtain ⟨hruns, hat⟩ := hen
    obtain ⟨o, ho⟩ : ∃ o, s.here = .sched o := by
      cases hpt : s.here with
      | sched o => exact ⟨o, rfl⟩
      | user =>
        rw [hpt] at hat
        exact hat.elim
      | leave svc pevent =>
        rw [hpt] at hat
        exact hat.elim
    exact ⟨_, rfl, sched_does h hruns ho⟩
  | leave =>
    obtain ⟨hruns, hat⟩ := hen
    cases hpt : s.here with
    | leave svc pevent =>
      obtain ⟨r, hr, hdoes⟩ := leave_does h hruns hpt
      refine ⟨s.afterCall r, ?_, hdoes⟩
      rw [Sys.exec, hpt]
      cases svc with
      | sem =>
        have hr' : OSSemPendLeave pevent s.k = .ok r := hr
        simp only
        rw [hr']
        rfl
      | q =>
        have hr' : OSQPendLeave pevent s.k = .ok r := hr
        simp only
        rw [hr']
        rfl
    | user =>
      rw [hpt] at hat
      exact hat.elim
    | sched o =>
      rw [hpt] at hat
      exact hat.elim
  | pendSV => exact ⟨_, rfl, pendSV_does h hen.1 hen.2⟩
  | intEnter => exact ⟨_, rfl, intEnter_does h hen⟩
  | isr c =>
    obtain ⟨hnest, hallowed⟩ := hen
    by_cases hlock : c = .OSSchedLock
    · subst hlock
      exact ⟨_, rfl, (isrLock_does h hnest).1⟩
    by_cases hunlock : c = .OSSchedUnlock
    · subst hunlock
      exact ⟨_, rfl, (isrLock_does h hnest).2⟩
    have hno : s.k.OSIntNesting = 0 → s.TaskRuns := fun hzero => absurd hzero (Nat.ne_of_gt hnest)
    have hcaller := h.caller (fun hruns => absurd hruns.1 (Nat.ne_of_gt hnest)) hno
    obtain ⟨r, hr, hdoes⟩ := Call.run_does h hcaller hallowed hlock hunlock
    refine ⟨s.afterIsr r, ?_, afterIsr_does h hnest hallowed hdoes⟩
    rw [Sys.exec, hr]
    rfl
  | tick prio =>
    obtain ⟨hnest, hidle, hp⟩ := hen
    obtain ⟨k', hrun, hdoes⟩ := tick_does h hnest hidle hp
    refine ⟨{ s with k := k' }, ?_, hdoes⟩
    rw [Sys.exec, hrun]
    rfl
  | intExit => exact ⟨_, rfl, intExit_does h hen⟩

theorem step_does (h : Inv s) (hs : step s a = some s') : StepDoes s a s' := by
  rw [step] at hs
  by_cases hen : s.Enabled a
  · obtain ⟨s₁, hexec, hdoes⟩ := exec_does h hen
    rw [if_pos hen, hexec] at hs
    cases hs
    exact hdoes
  · rw [if_neg hen] at hs
    cases hs

theorem inv_of_reach {init : Sys → Prop} (hinit : ∀ s, init s → Starts s) {ok : Sys → Act → Prop}
    (h : Reach init step ok s) : Inv s :=
  h.invariant (fun s hs => (hinit s hs).inv) fun _ _ _ hi _ hs => (step_does hi hs).inv

end

end Nl6621.Ucos
