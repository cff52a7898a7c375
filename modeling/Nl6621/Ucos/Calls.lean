import Mathlib.Data.Fintype.Card
import Nl6621.Ucos.Moves

/-!
# What the calls do

For every call of the kernel: it comes back, the kernel still is what it means, and what has
happened is a sequence of changes with the same observations (`Steps`).  Besides, a call that does
not come to the scheduler readies nobody and leaves the running task ready (`Does`), which is why
it need not come there.
-/

namespace Nl6621.Ucos

open Lib

/-- What a call knows of its caller. -/
structure Caller (k : Kernel) (pends : Prio → Option (Svc × Ecb)) : Prop where
  task : ∃ ph b, (absOf k pends).task k.OSPrioCur = some (ph, b)
  free : k.OSIntNesting = 0 → ∃ n b, (absOf k pends).task k.OSPrioCur = some (.free n, b)
  runs : k.OSIntNesting = 0 → k.OSLockNesting = 0 →
    (absOf k pends).task k.OSPrioCur = some (.free 0, false)

structure Steps (k k' : Kernel) (pends pends' : Prio → Option (Svc × Ecb)) (c : Call)
    (o : List Obs) : Prop where
  faithful : Faithful k' pends'
  changes : Changes (absOf k pends) o (absOf k' pends')
  cur : k'.OSPrioCur = k.OSPrioCur
  high : k'.OSPrioHighRdy = k.OSPrioHighRdy
  nest : k'.OSIntNesting = k.OSIntNesting
  lock : k'.OSLockNesting = k.OSLockNesting
  pendSV : k'.pendSV = k.pendSV
  /-- Another task that is not in a pend stays as it is, unless the call is meant for it. -/
  free : ∀ q n b, (absOf k pends).task q = some (.free n, b) →
    (q = k.OSPrioCur → 0 < k.OSIntNesting ∨ 0 < k.OSLockNesting) →
    (n = 0 ∨ c ≠ .OSTimeDlyResume q) →
    ∃ b', (absOf k' pends').task q = some (.free n, b') ∧
      (b' = true → b = true ∨ c = .OSTaskSuspend q)

/-- The pends behind a call. -/
def nextPends (k : Kernel) (pends : Prio → Option (Svc × Ecb)) (next : Point) :
    Prio → Option (Svc × Ecb) :=
  match next.pend with
  | none => pends
  | some r => Function.update pends k.OSPrioCur (some r)

structure Does (k : Kernel) (pends : Prio → Option (Svc × Ecb)) (c : Call) (r : Called) :
    Prop where
  steps : Steps k r.k pends (nextPends k pends r.next) c r.obs
  quiet : r.next = .user → (∀ q, r.k.OSRdyTbl.Holds q → k.OSRdyTbl.Holds q) ∧
    (k.OSRdyTbl.Holds k.OSPrioCur → r.k.OSRdyTbl.Holds k.OSPrioCur)
  blocks : r.next.pend ≠ none → k.OSIntNesting = 0 ∧ k.OSLockNesting = 0
  called : ∀ svc pevent, r.next ≠ .leave svc pevent

section

variable {k k' : Kernel} {pends pends' : Prio → Option (Svc × Ecb)} {p : Prio} {ph ph' : Phase}
  {b b' : Bool} {t t' : OS_TCB} {L : Ecb → Prop} {c : Call} {o : List Obs}

theorem Steps.refl (hf : Faithful k pends) (c : Call) : Steps k k pends pends c [] where
  faithful := hf
  changes := .refl _
  cur := rfl
  high := rfl
  nest := rfl
  lock := rfl
  pendSV := rfl
  free _ _ b h _ _ := ⟨b, h, .inl⟩

theorem Steps.trans {k'' : Kernel} {o' : List Obs} (h : Steps k k' pends pends c o)
    (h' : Steps k' k'' pends pends c o') : Steps k k'' pends pends c (o ++ o') where
  faithful := h'.faithful
  changes := h.changes.trans h'.changes
  cur := h'.cur.trans h.cur
  high := h'.high.trans h.high
  nest := h'.nest.trans h.nest
  lock := h'.lock.trans h.lock
  pendSV := h'.pendSV.trans h.pendSV
  free q n b hq hguard hc := by
    obtain ⟨b', hq', hb'⟩ := h.free q n b hq hguard hc
    have hguard' : q = k'.OSPrioCur → 0 < k'.OSIntNesting ∨ 0 < k'.OSLockNesting := by
      rw [h.cur, h.nest, h.lock]
      exact hguard
    obtain ⟨b'', hq'', hb''⟩ := h'.free q n b' hq' hguard' hc
    refine ⟨b'', hq'', fun hb => ?_⟩
    rcases hb'' hb with hb | hb
    · exact hb' hb
    · exact .inr hb

/-- One task is moved. -/
theorem Moves.steps (h : Moves k k' p ph' b' L) (hf : Faithful k pends)
    (htask : (absOf k pends).task p = some (ph, b))
    (hlisted : ∀ pevent, L pevent ↔ ph'.Listed pevent)
    (hpends : ∀ q, q ≠ p → pends' q = pends q) (hpend : pends' p = ph'.pend)
    (htyped : ∀ svc pevent, ph'.pend = some (svc, pevent) →
      (k.event pevent).OSEventType = svc.type)
    (hchange : Change (absOf k pends) o ((absOf k pends).setTask p ph' b'))
    (hfree : ∀ n, ph = .free n → (p = k.OSPrioCur → 0 < k.OSIntNesting ∨ 0 < k.OSLockNesting) →
      (n = 0 ∨ c ≠ .OSTimeDlyResume p) →
      ph' = .free n ∧ (b' = true → b = true ∨ c = .OSTaskSuspend p)) :
    Steps k k' pends pends' c o := by
  obtain ⟨hf', habs⟩ := h.faithful hf hlisted hpends hpend htyped
  refine ⟨hf', ?_, h.cur, h.high, h.nest, h.lock, h.pendSV, fun q n b₀ hq hguard hc => ?_⟩
  · rw [habs]
    exact .one hchange
  · rw [habs]
    by_cases hqp : q = p
    · subst hqp
      rw [htask] at hq
      cases hq
      obtain ⟨rfl, hb⟩ := hfree n rfl hguard hc
      exact ⟨b', Abs.task_setTask_self, hb⟩
    · rw [Abs.task_setTask_of_ne hqp]
      exact ⟨b₀, hq, .inl⟩

/-- A task is moved that stays in its pend. -/
theorem Moves.steps_in (h : Moves k k' p ph' b' L) (hf : Faithful k pends)
    (htask : (absOf k pends).task p = some (ph, b))
    (hlisted : ∀ pevent, L pevent ↔ ph'.Listed pevent) (hpend : ph'.pend = ph.pend)
    (hchange : Change (absOf k pends) o ((absOf k pends).setTask p ph' b'))
    (hfree : ∀ n, ph = .free n → (p = k.OSPrioCur → 0 < k.OSIntNesting ∨ 0 < k.OSLockNesting) →
      (n = 0 ∨ c ≠ .OSTimeDlyResume p) →
      ph' = .free n ∧ (b' = true → b = true ∨ c = .OSTaskSuspend p)) :
    Steps k k' pends pends c o := by
  obtain ⟨t, -, -, hpends⟩ := hf.task htask
  refine h.steps hf htask hlisted (fun _ _ => rfl) (hpends.symm.trans hpend.symm)
    (fun svc pevent hp => hf.typed p ph b svc pevent htask (hpend.symm.trans hp)) hchange hfree

/-- What an event contains is changed. -/
theorem steps_setStore (hf : Faithful k pends) {pevent : Ecb} {ev : OS_EVENT}
    (htype : ev.OSEventType = (k.event pevent).OSEventType)
    (htbl : ev.OSEventTbl = (k.event pevent).OSEventTbl)
    (hchange : Change (absOf k pends) o ((absOf k pends).setStore pevent (storeOf ev))) :
    Steps k (k.setEvent pevent ev) pends pends c o := by
  obtain ⟨hf', habs⟩ := faithful_setStore hf htype htbl
  refine ⟨hf', ?_, rfl, rfl, rfl, rfl, rfl, fun q n b hq _ _ => ⟨b, hq, .inl⟩⟩
  rw [habs]
  exact .one hchange

/-- The call comes back at once and readies nobody. -/
theorem Steps.does_back {err : Option Err} (h : Steps k k' pends pends c o)
    (hquiet : (∀ q, k'.OSRdyTbl.Holds q → k.OSRdyTbl.Holds q) ∧
      (k.OSRdyTbl.Holds k.OSPrioCur → k'.OSRdyTbl.Holds k.OSPrioCur)) :
    Does k pends c ⟨k', err, .user, o⟩ where
  steps := h
  quiet _ := hquiet
  blocks hne := absurd rfl hne
  called _ _ h := by cases h

theorem Steps.does_sched {err : Option Err} (h : Steps k k' pends pends c o) :
    Does k pends c ⟨k', err, .sched none, o⟩ where
  steps := h
  quiet h := by cases h
  blocks hne := absurd rfl hne
  called _ _ h := by cases h

theorem does_nothing (hf : Faithful k pends) (c : Call) (err : Option Err) :
    Does k pends c ⟨k, err, .user, []⟩ :=
  (Steps.refl hf c).does_back ⟨fun _ h => h, id⟩

theorem does_noTask (hf : Faithful k pends) (c : Call) (err : Err) (prio : Prio) :
    Does k pends c (noTask err prio k) := by
  rw [noTask]
  split
  · exact does_nothing hf c _
  · exact does_nothing hf c _

/-! ### Taking and putting -/

theorem svc_type_inj {svc svc' : Svc} (h : svc.type = svc'.type) : svc = svc' := by
  cases svc <;> cases svc' <;> first | rfl | cases h

/-- Nobody is listed where the second level of the wait list is zero. -/
theorem Faithful.waits_iff (hf : Faithful k pends) (pevent : Ecb) :
    (k.event pevent).OSEventTbl.grp ≠ 0#8 ↔ ∃ p, (absOf k pends).Waits p pevent := by
  rw [PrioSet.grp_ne_zero_iff]
  exact exists_congr fun p => hf.listed pevent p

theorem does_take (hf : Faithful k pends) (hcaller : Caller k pends) {svc : Svc} {pevent : Ecb}
    {pmsg : Msg} {ev : OS_EVENT} (htype : (k.event pevent).OSEventType = svc.type)
    (htake : svc.take (k.event pevent) = some (pmsg, ev)) (c : Call) (err : Option Err) :
    Does k pends c
      ⟨k.setEvent pevent ev, err, .user, [.given pevent k.who pmsg, .got pevent k.who pmsg]⟩ := by
  obtain ⟨hcontents, htype', htbl⟩ := take_eq_some htake
  have hwho : ∀ p, k.who = some p → ∃ n b, (absOf k pends).task p = some (.free n, b) := by
    intro p hp
    rw [Kernel.who] at hp
    split at hp
    · cases hp
    · rename_i hnest
      cases hp
      exact hcaller.free (Nat.eq_zero_of_not_pos hnest)
  have hstore : (absOf k pends).store pevent = pmsg :: storeOf ev := by
    show storeOf (k.event pevent) = _
    rw [storeOf_eq htype, storeOf_eq (htype'.trans htype), hcontents]
  exact (steps_setStore hf htype' htbl (.take k.who hwho hstore)).does_back ⟨fun _ h => h, id⟩

theorem accept_does (hf : Faithful k pends) (hcaller : Caller k pends) (svc : Svc) (pevent : Ecb)
    (c : Call) : Does k pends c (accept svc pevent k) := by
  rw [accept]
  by_cases htype : (k.event pevent).OSEventType ≠ svc.type
  · rw [if_pos htype]
    exact does_nothing hf c _
  · rw [if_neg htype]
    cases htake : svc.take (k.event pevent) with
    | none => exact does_nothing hf c _
    | some r => exact does_take hf hcaller (not_not.mp htype) htake c _

/-! ### Handing over -/

/-- What a task comes to that `OS_EventTaskRdy` readies. -/
def Phase.answered (svc : Svc) (pevent : Ecb) (pmsg : Msg) : PendStat → Phase
  | .OS_STAT_PEND_OK => .given svc pevent pmsg
  | .OS_STAT_PEND_TO => .late svc pevent
  | .OS_STAT_PEND_ABORT => .aborted svc pevent

theorem stat_answered (svc : Svc) (b : Bool) :
    (svc.msk ||| suspendFlag b) &&& ~~~svc.msk = OS_STAT_RDY ||| suspendFlag b ∧
      (OS_STAT_RDY ||| suspendFlag b) &&& ~~~svc.msk = OS_STAT_RDY ||| suspendFlag b := by
  cases svc <;> cases b <;> decide

theorem Phase.Listed.pend {svc : Svc} {pevent e : Ecb} (h : ph.Listed pevent)
    (hp : ph.pend = some (svc, e)) : e = pevent := by
  cases ph with
  | waits s e' n =>
    cases hp
    exact h
  | late s e' =>
    cases hp
    exact h
  | free | given | aborted => exact False.elim h

/-- A task that is listed is in a pend of the event. -/
theorem Phase.Listed.exists_pend {pevent : Ecb} (h : ph.Listed pevent) :
    ∃ svc, ph.pend = some (svc, pevent) := by
  cases ph with
  | waits s e' n =>
    obtain rfl : e' = pevent := h
    exact ⟨s, rfl⟩
  | late s e' =>
    obtain rfl : e' = pevent := h
    exact ⟨s, rfl⟩
  | free | given | aborted => exact False.elim h

theorem stat_listed {svc : Svc} {pevent : Ecb} (h : ph.Listed pevent)
    (hp : ph.pend = some (svc, pevent)) (b : Bool) :
    (ph.stat ||| suspendFlag b) &&& ~~~svc.msk = OS_STAT_RDY ||| suspendFlag b := by
  cases ph with
  | waits s e' n =>
    cases hp
    exact (stat_answered _ b).1
  | late s e' => exact (stat_answered svc b).2
  | free | given | aborted => exact False.elim h

/-- **The task that is readied is the first of those who wait.** -/
theorem eventTaskRdy_spec (hf : Faithful k pends) {svc : Svc} {pevent : Ecb}
    (htype : (k.event pevent).OSEventType = svc.type)
    (hgrp : (k.event pevent).OSEventTbl.grp ≠ 0#8) (pmsg : Msg) {st : PendStat}
    (hst : st ≠ .OS_STAT_PEND_TO) :
    ∃ p k' ph b, OS_EventTaskRdy pevent pmsg svc.msk st k = .ok (p, k') ∧
      (absOf k pends).First p pevent ∧ (absOf k pends).task p = some (ph, b) ∧
      ph.pend = some (svc, pevent) ∧ ph.Listed pevent ∧
      Moves k k' p (.answered svc pevent pmsg st) b fun e => e ≠ pevent ∧ ph.Listed e := by
  obtain ⟨hholds, hleast⟩ := PrioSet.highest_spec (PrioSet.grp_ne_zero_iff.mp hgrp)
  obtain ⟨ph, b, htask, hlisted⟩ := (hf.listed _ _).mp hholds
  obtain ⟨svc', hpend⟩ := hlisted.exists_pend
  obtain rfl : svc' = svc :=
    svc_type_inj ((hf.typed _ _ _ _ _ htask hpend).symm.trans htype)
  obtain ⟨t, ht, hrep, -⟩ := hf.task htask
  let t' : OS_TCB := { t with
    OSTCBDly := 0
    OSTCBMsg := pmsg
    OSTCBStat := t.OSTCBStat &&& ~~~svc'.msk
    OSTCBStatPend := st }
  have hstat : t'.OSTCBStat = OS_STAT_RDY ||| suspendFlag b := by
    show t.OSTCBStat &&& ~~~svc'.msk = _
    rw [hrep.stat]
    exact stat_listed hlisted hpend b
  have hptr : t'.OSTCBEventPtr = some pevent := by
    show t.OSTCBEventPtr = _
    rw [hrep.ptr, hpend, Option.map_some]
  have hrep' : Rep (.answered svc' pevent pmsg st) b t' := by
    cases st with
    | OS_STAT_PEND_OK =>
      exact ⟨hstat, rfl, fun _ h => (by cases h; rfl), fun _ h => (by cases h; rfl), hptr⟩
    | OS_STAT_PEND_TO => exact absurd rfl hst
    | OS_STAT_PEND_ABORT =>
      exact ⟨hstat, rfl, fun _ h => (by cases h; rfl), fun _ h => (by cases h), hptr⟩
  have hrun : (Phase.answered svc' pevent pmsg st).Runnable := by
    cases st <;> exact trivial
  refine ⟨_, _, ph, b, ?_, ⟨⟨ph, b, htask, hlisted⟩, fun q hq => ?_⟩, htask, hpend, hlisted,
    (moves_readyUnlessSuspended hf htask hrep' hrun).remove pevent⟩
  · rw [OS_EventTaskRdy, Kernel.ptcb, ht]
    rfl
  · exact hleast q ((hf.listed _ _).mpr hq)

/-- A listed task is in no other list. -/
theorem listed_answered {svc : Svc} {pevent : Ecb} {pmsg : Msg} {st : PendStat}
    (hst : st ≠ .OS_STAT_PEND_TO) (hlisted : ph.Listed pevent) (e : Ecb) :
    e ≠ pevent ∧ ph.Listed e ↔ (Phase.answered svc pevent pmsg st).Listed e := by
  refine iff_of_false (fun h => ?_) fun h => ?_
  · obtain ⟨svc', hpend⟩ := hlisted.exists_pend
    exact h.1 (h.2.pend hpend).symm
  · cases st with
    | OS_STAT_PEND_TO => exact hst rfl
    | OS_STAT_PEND_OK | OS_STAT_PEND_ABORT => exact h

theorem Phase.Listed.ne_free {pevent : Ecb} {n : Nat} (h : ph.Listed pevent) : ph ≠ .free n := by
  rintro rfl
  exact h

theorem pend_answered (svc : Svc) (pevent : Ecb) (pmsg : Msg) (st : PendStat) :
    (Phase.answered svc pevent pmsg st).pend = some (svc, pevent) := by
  cases st <;> rfl

theorem post_does (hf : Faithful k pends) {svc : Svc} {pmsg : Msg} (hmsg : svc.Brings pmsg)
    (pevent : Ecb) (c : Call) : ∃ r, post svc pevent pmsg k = .ok r ∧ Does k pends c r := by
  rw [post]
  by_cases htype : (k.event pevent).OSEventType ≠ svc.type
  · rw [if_pos htype]
    exact ⟨_, rfl, does_nothing hf c _⟩
  · have htype' := not_not.mp htype
    rw [if_neg htype]
    by_cases hgrp : (k.event pevent).OSEventTbl.grp ≠ 0#8
    · have hst : PendStat.OS_STAT_PEND_OK ≠ .OS_STAT_PEND_TO := by decide
      obtain ⟨p, k', ph, b, hrdy, hfirst, htask, hpend, hlisted, hmoves⟩ :=
        eventTaskRdy_spec hf htype' hgrp pmsg hst
      rw [if_pos hgrp, hrdy]
      refine ⟨_, rfl, Steps.does_sched (hmoves.steps_in hf htask (listed_answered hst hlisted)
        (by rw [pend_answered, hpend]) (.hand pmsg hfirst htask hpend) fun n hn => ?_)⟩
      exact absurd hn hlisted.ne_free
    · rw [if_neg hgrp]
      cases hput : svc.put pmsg (k.event pevent) with
      | error err => exact ⟨_, rfl, does_nothing hf c _⟩
      | ok ev =>
        obtain ⟨hcontents, htype'', htbl⟩ := put_eq_ok hmsg hput
        have hnone : ∀ p, ¬(absOf k pends).Waits p pevent := by
          intro p hp
          exact hgrp ((hf.waits_iff pevent).mpr ⟨p, hp⟩)
        have hstore : storeOf ev = (absOf k pends).store pevent ++ [pmsg] := by
          show storeOf ev = storeOf (k.event pevent) ++ [pmsg]
          rw [storeOf_eq htype', storeOf_eq (htype''.trans htype'), hcontents]
        refine ⟨_, rfl, (steps_setStore hf htype'' htbl ?_).does_back ⟨fun _ h => h, id⟩⟩
        rw [hstore]
        exact .put pmsg hnone

/-! ### Aborting -/

theorem abort_steps (hf : Faithful k pends) {svc : Svc} {pevent : Ecb}
    (htype : (k.event pevent).OSEventType = svc.type)
    (hgrp : (k.event pevent).OSEventTbl.grp ≠ 0#8) (c : Call) :
    ∃ p k', OS_EventTaskRdy pevent 0 svc.msk .OS_STAT_PEND_ABORT k = .ok (p, k') ∧
      Steps k k' pends pends c [] ∧ (k'.event pevent).OSEventType = svc.type ∧
      (k.event pevent).OSEventTbl.Holds p ∧ ¬(k'.event pevent).OSEventTbl.Holds p ∧
      ∀ q, (k'.event pevent).OSEventTbl.Holds q → (k.event pevent).OSEventTbl.Holds q := by
  have hst : PendStat.OS_STAT_PEND_ABORT ≠ .OS_STAT_PEND_TO := by decide
  obtain ⟨p, k', ph, b, hrdy, hfirst, htask, hpend, hlisted, hmoves⟩ :=
    eventTaskRdy_spec hf htype hgrp 0 hst
  have hgone : ¬(k'.event pevent).OSEventTbl.Holds p := by
    rw [hmoves.listed_self pevent]
    exact fun h => h.1 rfl
  refine ⟨p, k', hrdy, ?_, (hmoves.type pevent).trans htype, ?_, hgone, fun q hq => ?_⟩
  · refine hmoves.steps_in hf htask (listed_answered hst hlisted) (by rw [pend_answered, hpend])
      (.abort hfirst htask hpend) fun n hn => ?_
    exact absurd hn hlisted.ne_free
  · exact (hf.listed_iff htask pevent).mpr hlisted
  · have hqp : q ≠ p := by
      rintro rfl
      exact hgone hq
    exact (hmoves.listed pevent q hqp).mp hq

/-- How many tasks wait for the event. -/
def waiting (pevent : Ecb) (k : Kernel) : Nat :=
  (Finset.univ.filter fun p => (k.event pevent).OSEventTbl.Holds p).card

theorem waiting_lt {pevent : Ecb} (hp : (k.event pevent).OSEventTbl.Holds p)
    (hp' : ¬(k'.event pevent).OSEventTbl.Holds p)
    (h : ∀ q, (k'.event pevent).OSEventTbl.Holds q → (k.event pevent).OSEventTbl.Holds q) :
    waiting pevent k' < waiting pevent k := by
  apply Finset.card_lt_card
  rw [Finset.ssubset_iff_of_subset]
  · refine ⟨p, Finset.mem_filter.mpr ⟨Finset.mem_univ p, hp⟩, fun hmem => ?_⟩
    exact hp' (Finset.mem_filter.mp hmem).2
  · intro q hq
    exact Finset.mem_filter.mpr ⟨Finset.mem_univ q, h q (Finset.mem_filter.mp hq).2⟩

theorem waiting_lt_fuel (pevent : Ecb) (k : Kernel) : waiting pevent k < Call.fuel := by
  have hle : waiting pevent k ≤ Fintype.card Prio := Finset.card_le_univ _
  rw [Fintype.card_fin] at hle
  exact Nat.lt_succ_of_le hle

/-- The loop ends, and every round is one change. -/
theorem abortAll_steps (hf : Faithful k pends) {svc : Svc} {pevent : Ecb}
    (htype : (k.event pevent).OSEventType = svc.type) (c : Call) :
    ∃ k', whileLoop (abortRound svc pevent) Call.fuel k = .ok k' ∧ Steps k k' pends pends c [] := by
  refine whileLoop_total (I := fun k' => Steps k k' pends pends c [] ∧
    (k'.event pevent).OSEventType = svc.type) (m := waiting pevent) (fun k' hk' => ?_) _ k
    ⟨.refl hf c, htype⟩ (waiting_lt_fuel pevent k)
  by_cases hgrp : (k'.event pevent).OSEventTbl.grp ≠ 0#8
  · obtain ⟨p, k'', hrdy, hsteps, htype', hp, hp', hsub⟩ :=
      abort_steps hk'.1.faithful hk'.2 hgrp c
    refine .inr ⟨k'', ?_, ⟨hk'.1.trans hsteps, htype'⟩, waiting_lt hp hp' hsub⟩
    rw [abortRound, if_pos hgrp, hrdy]
    rfl
  · refine .inl ⟨k', ?_, hk'.1⟩
    rw [abortRound, if_neg hgrp]

theorem pendAbort_does (hf : Faithful k pends) (svc : Svc) (pevent : Ecb) (broadcast : Bool)
    (c : Call) : ∃ r, pendAbort svc Call.fuel pevent broadcast k = .ok r ∧ Does k pends c r := by
  rw [pendAbort]
  by_cases htype : (k.event pevent).OSEventType ≠ svc.type
  · rw [if_pos htype]
    exact ⟨_, rfl, does_nothing hf c _⟩
  · rw [if_neg htype]
    by_cases hgrp : (k.event pevent).OSEventTbl.grp ≠ 0#8
    · rw [if_pos hgrp]
      cases broadcast with
      | true =>
        obtain ⟨k', hloop, hsteps⟩ := abortAll_steps hf (not_not.mp htype) c
        rw [if_pos rfl, hloop]
        exact ⟨_, rfl, hsteps.does_sched⟩
      | false =>
        obtain ⟨p, k', hrdy, hsteps, -⟩ := abort_steps hf (not_not.mp htype) hgrp c
        rw [if_neg Bool.false_ne_true, hrdy]
        exact ⟨_, rfl, hsteps.does_sched⟩
    · rw [if_neg hgrp]
      exact ⟨_, rfl, does_nothing hf c _⟩

/-! ### Setting what an event contains -/

theorem semSet_does (hf : Faithful k pends) (hidle : (absOf k pends).Idle) (pevent : Ecb)
    (cnt : Nat) (c : Call) : Does k pends c (OSSemSet pevent cnt k) := by
  have hset : (∀ p, ¬(absOf k pends).Waits p pevent) →
      Does k pends c ⟨k.setEvent pevent { k.event pevent with OSEventCnt := cnt },
        some .OS_ERR_NONE, .user, [.reset pevent]⟩ := by
    intro hnone
    have hsteps : Steps k (k.setEvent pevent { k.event pevent with OSEventCnt := cnt }) pends pends
        c [.reset pevent] := steps_setStore hf rfl rfl (.reset fun _ => hnone)
    exact hsteps.does_back ⟨fun _ h => h, id⟩
  rw [OSSemSet]
  by_cases htype : (k.event pevent).OSEventType ≠ .OS_EVENT_TYPE_SEM
  · rw [if_pos htype]
    exact does_nothing hf c _
  · rw [if_neg htype]
    by_cases hcnt : 0 < (k.event pevent).OSEventCnt
    · rw [if_pos hcnt]
      refine hset fun p hp => ?_
      have hempty : storeOf (k.event pevent) = [] := hidle p pevent hp
      rw [@storeOf_eq .sem _ (not_not.mp htype)] at hempty
      have hlen := congrArg List.length hempty
      rw [Svc.contents, List.length_replicate, List.length_nil] at hlen
      omega
    · rw [if_neg hcnt]
      by_cases hgrp : (k.event pevent).OSEventTbl.grp = 0#8
      · rw [if_pos hgrp]
        exact hset fun p hp => (hf.waits_iff pevent).mpr ⟨p, hp⟩ hgrp
      · rw [if_neg hgrp]
        exact does_nothing hf c _

theorem qFlush_does (hf : Faithful k pends) {pevent : Ecb}
    (htype : (k.event pevent).OSEventType = .OS_EVENT_TYPE_Q) (c : Call) :
    ∃ r, OSQFlush pevent k = .ok r ∧ Does k pends c r := by
  rw [OSQFlush, if_pos htype]
  let ev : OS_EVENT := { k.event pevent with pq := (k.event pevent).pq.flush }
  have hempty : storeOf ev = [] := by
    rw [@storeOf_eq .q ev htype]
    exact OS_Q.msgs_nil rfl
  have hsteps : Steps k (k.setEvent pevent ev) pends pends c [.reset pevent] :=
    steps_setStore hf rfl rfl (.reset fun hne => absurd hempty hne)
  exact ⟨_, rfl, hsteps.does_back ⟨fun _ h => h, id⟩⟩

/-! ### Waiting -/

theorem pend_does (hf : Faithful k pends) (hcaller : Caller k pends) (svc : Svc) (pevent : Ecb)
    (timeout : Nat) (c : Call) : ∃ r, pend svc pevent timeout k = .ok r ∧ Does k pends c r := by
  rw [pend]
  by_cases htype : (k.event pevent).OSEventType ≠ svc.type
  · rw [if_pos htype]
    exact ⟨_, rfl, does_nothing hf c _⟩
  rw [if_neg htype]
  have htype' := not_not.mp htype
  by_cases hnest : 0 < k.OSIntNesting
  · rw [if_pos hnest]
    exact ⟨_, rfl, does_nothing hf c _⟩
  rw [if_neg hnest]
  by_cases hlock : 0 < k.OSLockNesting
  · rw [if_pos hlock]
    exact ⟨_, rfl, does_nothing hf c _⟩
  rw [if_neg hlock]
  have hnest' := Nat.eq_zero_of_not_pos hnest
  have hlock' := Nat.eq_zero_of_not_pos hlock
  cases htake : svc.take (k.event pevent) with
  | some r => exact ⟨_, rfl, does_take hf hcaller htype' htake c _⟩
  | none =>
    have htask := hcaller.runs hnest' hlock'
    obtain ⟨t, ht, hrep, -⟩ := hf.task htask
    have hstore : (absOf k pends).store pevent = [] := by
      show storeOf (k.event pevent) = []
      rw [storeOf_eq htype', take_eq_none htake]
    let t' : OS_TCB := { t with
      OSTCBStat := t.OSTCBStat ||| svc.msk
      OSTCBStatPend := .OS_STAT_PEND_OK
      OSTCBDly := timeout
      OSTCBEventPtr := some pevent }
    have hstat : t.OSTCBStat ||| svc.msk = svc.msk ||| suspendFlag false := by
      rw [hrep.stat]
      cases svc <;> decide
    have hrep' : Rep (.waits svc pevent timeout) false t' :=
      ⟨hstat, rfl, fun _ h => (by cases h; rfl), fun _ h => (by cases h), rfl⟩
    have hmoves := (moves_unready hf htask hrep' fun h => h.2).add pevent
    have hk : k.ptcb k.OSPrioCur = .ok t := by rw [Kernel.ptcb, ht]
    simp only
    rw [hk]
    refine ⟨_, rfl, ?_⟩
    refine ⟨?_, fun h => (by cases h), fun _ => ⟨hnest', hlock'⟩, fun _ _ h => (by cases h)⟩
    refine hmoves.steps hf htask (fun e => ?_) (fun q hq => Function.update_of_ne hq ..)
      (Function.update_self ..) (fun svc' e h => ?_) (.block timeout htask hstore) fun n _ hg => ?_
    · exact ⟨fun h => (h.resolve_right id).symm, fun h => .inl h.symm⟩
    · cases h
      exact htype'
    · rcases hg rfl with h | h
      · exact absurd h hnest
      · exact absurd h hlock

/-- What a task that runs has behind the scheduler of a pend. -/
theorem leave_steps (hf : Faithful k pends) {svc : Svc} {pevent : Ecb}
    (htask : (absOf k pends).task k.OSPrioCur = some (ph, false)) (hrun : ph.Runnable)
    (hpend : ph.pend = some (svc, pevent)) (hnest : k.OSIntNesting = 0) (c : Call) :
    ∃ r, leave svc pevent k = .ok r ∧ r.next = .user ∧
      (∀ q, r.k.OSRdyTbl.Holds q ↔ k.OSRdyTbl.Holds q) ∧
      Steps k r.k pends (Function.update pends k.OSPrioCur none) c r.obs := by
  obtain ⟨t, ht, hrep, -⟩ := hf.task htask
  let t' : OS_TCB := { t with
    OSTCBStat := OS_STAT_RDY
    OSTCBStatPend := .OS_STAT_PEND_OK
    OSTCBEventPtr := none
    OSTCBMsg := svc.cleared t.OSTCBMsg }
  have hdly : t.OSTCBDly = 0 := by
    rw [hrep.dly]
    cases ph with
    | free n => cases hpend
    | waits s e n => exact False.elim hrun
    | late | given | aborted => rfl
  have hrep' : Rep (.free 0) false t' :=
    ⟨rfl, hdly, fun _ h => (by cases h), fun _ h => (by cases h), rfl⟩
  have hmoves := moves_setTcb hf htask hrep' (iff_of_true ⟨rfl, hrun⟩ ⟨rfl, rfl⟩)
  have hptcb : k.ptcb k.OSPrioCur = .ok t := by rw [Kernel.ptcb, ht]
  have hwho : k.who = some k.OSPrioCur := by rw [Kernel.who, hnest, if_neg (Nat.lt_irrefl 0)]
  have hfree : ∀ n, ph = .free n →
      (k.OSPrioCur = k.OSPrioCur → 0 < k.OSIntNesting ∨ 0 < k.OSLockNesting) →
      (n = 0 ∨ c ≠ .OSTimeDlyResume k.OSPrioCur) →
      Phase.free 0 = .free n ∧ (false = true → false = true ∨ c = .OSTaskSuspend k.OSPrioCur) := by
    rintro n rfl
    cases hpend
  have hother : ∀ q, q ≠ k.OSPrioCur → Function.update pends k.OSPrioCur none q = pends q :=
    fun q hq => Function.update_of_ne hq ..
  have hself : Function.update pends k.OSPrioCur none k.OSPrioCur = (Phase.free 0).pend :=
    Function.update_self ..
  have htyped : ∀ svc e, (Phase.free 0).pend = some (svc, e) →
      (k.event e).OSEventType = svc.type := by
    intro svc e h
    cases h
  rw [leave, hptcb]
  cases ph with
  | free n => cases hpend
  | waits s e n => exact False.elim hrun
  | late s e =>
    cases hpend
    have hst : t.OSTCBStatPend = .OS_STAT_PEND_TO := hrep.statPend _ rfl
    refine ⟨back .OS_ERR_TIMEOUT ((OS_EventTaskRemove k.OSPrioCur pevent k).setTcb k.OSPrioCur t'),
      ?_, rfl, fun _ => Iff.rfl, ?_⟩
    · simp only [Outcome.bind, hst]
      rfl
    · refine (hmoves.remove pevent).steps hf htask (fun e => ?_) hother hself htyped
        (.giveUp htask fun _ => rfl) hfree
      exact iff_of_false (fun h => h.1 h.2.symm) id
  | given s e pmsg =>
    cases hpend
    have hst : t.OSTCBStatPend = .OS_STAT_PEND_OK := hrep.statPend _ rfl
    have hmsg : t.OSTCBMsg = pmsg := hrep.msg _ rfl
    refine ⟨⟨k.setTcb k.OSPrioCur t', some .OS_ERR_NONE, .user, [.got pevent k.who t.OSTCBMsg]⟩,
      ?_, rfl, fun _ => Iff.rfl, ?_⟩
    · simp only [Outcome.bind, hst]
      rfl
    · rw [hwho, hmsg]
      exact hmoves.steps hf htask (fun _ => Iff.rfl) hother hself htyped (.receive htask) hfree
  | aborted s e =>
    cases hpend
    have hst : t.OSTCBStatPend = .OS_STAT_PEND_ABORT := hrep.statPend _ rfl
    refine ⟨back .OS_ERR_PEND_ABORT (k.setTcb k.OSPrioCur t'), ?_, rfl, fun _ => Iff.rfl, ?_⟩
    · simp only [Outcome.bind, hst]
      rfl
    · exact hmoves.steps hf htask (fun _ => Iff.rfl) hother hself htyped
        (.giveUp htask fun _ => rfl) hfree

/-! ### The clock -/

theorem stat_over (svc : Svc) (b : Bool) :
    (svc.msk ||| suspendFlag b) &&& ~~~OS_STAT_PEND_ANY = OS_STAT_RDY ||| suspendFlag b := by
  cases svc <;> cases b <;> decide

theorem timeOver_rep (h : Rep ph b t) (hdly : ph.dly ≠ 0) (n : Nat) :
    Rep ph.expired b (timeOver { t with OSTCBDly := n }) := by
  cases ph with
  | free m =>
    have hany : t.OSTCBStat &&& OS_STAT_PEND_ANY = OS_STAT_RDY := by
      rw [h.stat]
      exact (stat_pendAny .sem b).2
    rw [timeOver, if_neg (not_not.mpr hany)]
    exact ⟨h.stat, rfl, fun _ h => (by cases h), fun _ h => (by cases h), h.ptr⟩
  | waits svc e m =>
    have hany : t.OSTCBStat &&& OS_STAT_PEND_ANY ≠ OS_STAT_RDY := by
      rw [h.stat]
      exact (stat_pendAny svc b).1
    have hstat : t.OSTCBStat &&& ~~~OS_STAT_PEND_ANY = OS_STAT_RDY ||| suspendFlag b := by
      rw [h.stat]
      exact stat_over svc b
    rw [timeOver, if_pos hany]
    exact ⟨hstat, rfl, fun _ h => (by cases h; rfl), fun _ h => (by cases h), h.ptr⟩
  | late | given | aborted => exact absurd rfl hdly

theorem Phase.expired_runnable (hdly : ph.dly ≠ 0) : ph.expired.Runnable := by
  cases ph with
  | free m => exact rfl
  | waits svc e m => exact trivial
  | late | given | aborted => exact trivial

theorem Phase.pend_expired : ph.expired.pend = ph.pend := by cases ph <;> rfl

/-- One tick of a task that has more than one left. -/
theorem Phase.ticked_of_gt (h : 1 < ph.dly) :
    ph.ticked.dly = ph.dly - 1 ∧ ph.ticked.pend = ph.pend ∧ ph.ticked.stat = ph.stat ∧
      ph.ticked.statPend = ph.statPend ∧ ph.ticked.msg = ph.msg ∧ ¬ph.Runnable ∧
      ¬ph.ticked.Runnable := by
  cases ph with
  | free n =>
    have hn : 1 < n := h
    refine ⟨rfl, rfl, rfl, rfl, rfl, fun hrun => ?_, fun hrun => ?_⟩
    · have hzero : n = 0 := hrun
      omega
    · have hzero : n - 1 = 0 := hrun
      omega
  | waits svc e n =>
    have hn : 1 < n := h
    have hticked : (Phase.waits svc e n).ticked = .waits svc e (n - 1) := by
      rw [ticked, if_neg (by omega), if_neg (by omega)]
    rw [hticked]
    exact ⟨rfl, rfl, rfl, rfl, rfl, id, id⟩
  | late | given | aborted => exact absurd h (Nat.not_lt_zero 1)

theorem Phase.ticked_of_one (h : ph.dly = 1) : ph.ticked = ph.expired := by
  cases ph with
  | free n =>
    obtain rfl : n = 1 := h
    rfl
  | waits svc e n =>
    obtain rfl : n = 1 := h
    rfl
  | late | given | aborted => rfl

theorem Phase.ticked_of_zero (h : ph.dly = 0) : ph.ticked = ph := by
  cases ph with
  | free n =>
    obtain rfl : n = 0 := h
    rfl
  | waits svc e n =>
    obtain rfl : n = 0 := h
    rfl
  | late | given | aborted => rfl

/-- A tick, and what it leaves alone. -/
theorem timeTick_steps (hf : Faithful k pends) (htask : (absOf k pends).task p = some (ph, b)) :
    ∃ k', timeTick p k = .ok k' ∧ absOf k' pends = (absOf k pends).setTask p ph.ticked b ∧
      Steps k k' pends pends (.OSTimeDlyResume p) [] := by
  obtain ⟨t, ht, hrep, -⟩ := hf.task htask
  have hfree : ∀ n, ph = .free n →
      (p = k.OSPrioCur → 0 < k.OSIntNesting ∨ 0 < k.OSLockNesting) →
      (n = 0 ∨ Call.OSTimeDlyResume p ≠ .OSTimeDlyResume p) →
      ph.ticked = .free n ∧ (b = true → b = true ∨ Call.OSTimeDlyResume p = .OSTaskSuspend p) := by
    rintro n rfl - hn
    obtain rfl : n = 0 := hn.resolve_right fun h => h rfl
    exact ⟨rfl, .inl⟩
  have hmoved : ∀ {k' : Kernel}, Moves k k' p ph.ticked b (fun e => ph.Listed e) →
      ph.ticked.pend = ph.pend → absOf k' pends = (absOf k pends).setTask p ph.ticked b ∧
        Steps k k' pends pends (.OSTimeDlyResume p) [] := by
    intro k' hm hpend
    have hsteps := hm.steps_in hf htask (fun _ => Phase.listed_ticked.symm) hpend (.tick htask)
      hfree
    obtain ⟨-, -, -, hpends⟩ := hf.task htask
    refine ⟨(hm.faithful hf (fun _ => Phase.listed_ticked.symm) (fun _ _ => rfl)
      (hpends.symm.trans hpend.symm) fun svc e hp => ?_).2, hsteps⟩
    exact hf.typed p ph b svc e htask (hpend.symm.trans hp)
  have hptcb : k.ptcb p = .ok t := by rw [Kernel.ptcb, ht]
  have hrun : timeTick p k = if t.OSTCBDly ≠ 0 then
      if t.OSTCBDly - 1 = 0 then
        .ok ((k.setTcb p (timeOver { t with OSTCBDly := t.OSTCBDly - 1 })).readyUnlessSuspended p
          (timeOver { t with OSTCBDly := t.OSTCBDly - 1 }))
      else .ok (k.setTcb p { t with OSTCBDly := t.OSTCBDly - 1 })
      else .ok k := by
    rw [timeTick, hptcb]
    rfl
  rw [hrun, hrep.dly]
  by_cases hdly : ph.dly ≠ 0
  · rw [if_pos hdly]
    by_cases hone : ph.dly - 1 = 0
    · have hover := Phase.ticked_of_one (show ph.dly = 1 by omega)
      rw [if_pos hone]
      refine ⟨_, rfl, hmoved ?_ (by rw [hover, Phase.pend_expired])⟩
      rw [hover]
      exact moves_readyUnlessSuspended hf htask (timeOver_rep hrep hdly _) (Phase.expired_runnable hdly)
    · obtain ⟨hd, hp, hs, hsp, hm, hno, hno'⟩ :=
        Phase.ticked_of_gt (show 1 < ph.dly by omega)
      rw [if_neg hone]
      have hrep' : Rep ph.ticked b { t with OSTCBDly := ph.dly - 1 } :=
        ⟨by rw [hs]; exact hrep.stat, hd.symm, by rw [hsp]; exact hrep.statPend,
          by rw [hm]; exact hrep.msg, by rw [hp]; exact hrep.ptr⟩
      exact ⟨_, rfl, hmoved (moves_setTcb hf htask hrep' (iff_of_false (fun h => hno h.2)
        fun h => hno' h.2)) hp⟩
  · have hsame := Phase.ticked_of_zero (not_not.mp hdly)
    rw [if_neg hdly]
    refine ⟨k, rfl, ?_, .refl hf _⟩
    rw [hsame]
    show absOf k pends = Abs.mk (Function.update (absOf k pends).task p (some (ph, b))) _
    rw [← htask, Function.update_eq_self]

theorem timeDly_does (hf : Faithful k pends) (hcaller : Caller k pends) (ticks : Nat) (c : Call) :
    ∃ r, OSTimeDly ticks k = .ok r ∧ Does k pends c r := by
  rw [OSTimeDly]
  by_cases hnest : 0 < k.OSIntNesting
  · rw [if_pos hnest]
    exact ⟨_, rfl, does_nothing hf c _⟩
  rw [if_neg hnest]
  by_cases hlock : 0 < k.OSLockNesting
  · rw [if_pos hlock]
    exact ⟨_, rfl, does_nothing hf c _⟩
  rw [if_neg hlock]
  by_cases hticks : 0 < ticks
  · have htask := hcaller.runs (Nat.eq_zero_of_not_pos hnest) (Nat.eq_zero_of_not_pos hlock)
    obtain ⟨t, ht, hrep, -⟩ := hf.task htask
    have hptcb : k.ptcb k.OSPrioCur = .ok t := by rw [Kernel.ptcb, ht]
    have hrep' : Rep (.free ticks) false { t with OSTCBDly := ticks } :=
      ⟨hrep.stat, rfl, fun _ h => (by cases h), fun _ h => (by cases h), hrep.ptr⟩
    have hrun : ¬(false = false ∧ (Phase.free ticks).Runnable) := fun h =>
      Nat.ne_of_gt hticks h.2
    rw [if_pos hticks, hptcb]
    refine ⟨_, rfl, Steps.does_sched ((moves_unready hf htask hrep' hrun).steps_in hf htask
      (fun _ => Iff.rfl) rfl (.delay htask) fun n _ hg => ?_)⟩
    rcases hg rfl with h | h
    · exact absurd h hnest
    · exact absurd h hlock
  · rw [if_neg hticks]
    exact ⟨_, rfl, does_nothing hf c _⟩

theorem timeDlyResume_does (hf : Faithful k pends) (prio : Prio) :
    Does k pends (.OSTimeDlyResume prio) (OSTimeDlyResume prio k) := by
  rw [OSTimeDlyResume]
  by_cases hprio : prio ≥ OS_LOWEST_PRIO
  · rw [if_pos hprio]
    exact does_nothing hf _ _
  rw [if_neg hprio]
  cases ht : k.OSTCBPrioTbl prio with
  | none => exact does_noTask hf _ _ _
  | some t =>
    have htask : (absOf k pends).task prio = some (phaseOf t (pends prio), suspended t) :=
      task_absOf ht
    have hrep := hf.rep prio t ht
    simp only
    by_cases hdly : t.OSTCBDly = 0
    · rw [if_pos hdly]
      exact does_nothing hf _ _
    rw [if_neg hdly]
    have hdly' : (phaseOf t (pends prio)).dly ≠ 0 := by
      rw [← hrep.dly]
      exact hdly
    have hover : Rep (phaseOf t (pends prio)).expired (suspended t) (timeOver t) :=
      timeOver_rep hrep hdly' t.OSTCBDly
    have hfree : ∀ n, phaseOf t (pends prio) = .free n →
        (prio = k.OSPrioCur → 0 < k.OSIntNesting ∨ 0 < k.OSLockNesting) →
        (n = 0 ∨ Call.OSTimeDlyResume prio ≠ .OSTimeDlyResume prio) →
        (phaseOf t (pends prio)).expired = .free n ∧ (suspended t = true → suspended t = true ∨
          Call.OSTimeDlyResume prio = .OSTaskSuspend prio) := by
      intro n hn _ hor
      rw [hn] at hdly'
      exact absurd (hor.resolve_right fun h => h rfl) hdly'
    by_cases hsusp : (timeOver t).OSTCBStat &&& OS_STAT_SUSPEND = OS_STAT_RDY
    · have hb : suspended t = false := hover.notSuspended.mp hsusp
      rw [if_pos hsusp]
      rw [hb] at hover htask hfree
      exact ((moves_ready hf htask hover (Phase.expired_runnable hdly')).steps_in hf htask
        (fun _ => Phase.listed_expired.symm) Phase.pend_expired (.expired htask hdly') hfree).does_sched
    · have hb : suspended t = true := by
        rw [← Bool.not_eq_false]
        exact fun h => hsusp (hover.notSuspended.mpr h)
      rw [if_neg hsusp]
      rw [hb] at hover htask hfree
      have hbits : true = false ∧ (phaseOf t (pends prio)).Runnable ↔
          true = false ∧ (phaseOf t (pends prio)).expired.Runnable :=
        iff_of_false (fun h => Bool.noConfusion h.1) fun h => Bool.noConfusion h.1
      exact ((moves_setTcb hf htask hover hbits).steps_in hf htask
        (fun _ => Phase.listed_expired.symm) Phase.pend_expired (.expired htask hdly') hfree).does_back
        ⟨fun _ h => h, id⟩

/-! ### Suspending and resuming -/

theorem taskSuspend_does (hf : Faithful k pends) (prio : Prio) :
    Does k pends (.OSTaskSuspend prio) (OSTaskSuspend prio k) := by
  rw [OSTaskSuspend]
  cases ht : k.OSTCBPrioTbl prio with
  | none => exact does_noTask hf _ _ _
  | some t =>
    have htask : (absOf k pends).task prio = some (phaseOf t (pends prio), suspended t) :=
      task_absOf ht
    have hrep := hf.rep prio t ht
    simp only
    have hstat : t.OSTCBStat ||| OS_STAT_SUSPEND =
        (phaseOf t (pends prio)).stat ||| suspendFlag true := by
      rw [hrep.stat, BitVec.or_assoc]
      congr 1
      cases suspended t <;> decide
    have hrep' : Rep (phaseOf t (pends prio)) true
        { t with OSTCBStat := t.OSTCBStat ||| OS_STAT_SUSPEND } :=
      ⟨hstat, hrep.dly, hrep.statPend, hrep.msg, hrep.ptr⟩
    have hsteps := (moves_unready hf htask hrep' fun h => Bool.noConfusion h.1).steps_in hf htask
      (fun _ => Iff.rfl) rfl (.suspend htask) (c := .OSTaskSuspend prio)
      fun n hn _ _ => ⟨hn, fun _ => .inr rfl⟩
    by_cases hcur : prio = k.OSPrioCur
    · rw [if_pos hcur]
      exact hsteps.does_sched
    · rw [if_neg hcur]
      refine hsteps.does_back ⟨fun q h => ?_, fun h => ?_⟩
      · exact (PrioSet.holds_remove.mp h).2
      · exact PrioSet.holds_remove.mpr ⟨Ne.symm hcur, h⟩

theorem msk_ne_rdy (svc : Svc) : svc.msk ≠ OS_STAT_RDY := by cases svc <;> decide

theorem Phase.runnable_iff : ph.Runnable ↔ ph.stat = OS_STAT_RDY ∧ ph.dly = 0 := by
  cases ph with
  | free n => exact ⟨fun h => ⟨rfl, h⟩, fun h => h.2⟩
  | waits svc e n =>
    exact iff_of_false id fun h => msk_ne_rdy svc h.1
  | late | given | aborted => exact iff_of_true trivial ⟨rfl, rfl⟩

theorem stat_resume (ph : Phase) :
    (ph.stat ||| suspendFlag true) &&& ~~~OS_STAT_SUSPEND = ph.stat := by
  have hmsk : ∀ svc : Svc, (svc.msk ||| suspendFlag true) &&& ~~~OS_STAT_SUSPEND = svc.msk := by
    intro svc
    cases svc <;> decide
  have hrdy : (OS_STAT_RDY ||| suspendFlag true) &&& ~~~OS_STAT_SUSPEND = OS_STAT_RDY := by
    decide
  cases ph with
  | waits svc e n => exact hmsk svc
  | free | late | given | aborted => exact hrdy

theorem taskResume_does (hf : Faithful k pends) (prio : Prio) (c : Call) :
    Does k pends c (OSTaskResume prio k) := by
  rw [OSTaskResume]
  cases ht : k.OSTCBPrioTbl prio with
  | none => exact does_noTask hf _ _ _
  | some t =>
    have htask : (absOf k pends).task prio = some (phaseOf t (pends prio), suspended t) :=
      task_absOf ht
    have hrep := hf.rep prio t ht
    simp only
    by_cases hsusp : t.OSTCBStat &&& OS_STAT_SUSPEND ≠ OS_STAT_RDY
    · have hb : suspended t = true := decide_eq_true hsusp
      rw [if_pos hsusp]
      rw [hb] at hrep htask
      have hstat : t.OSTCBStat &&& ~~~OS_STAT_SUSPEND = (phaseOf t (pends prio)).stat := by
        rw [hrep.stat, stat_resume]
      have hrep' : Rep (phaseOf t (pends prio)) false
          { t with OSTCBStat := t.OSTCBStat &&& ~~~OS_STAT_SUSPEND } :=
        ⟨hstat.trans (BitVec.or_zero).symm, hrep.dly, hrep.statPend, hrep.msg, hrep.ptr⟩
      have hfree : ∀ n, phaseOf t (pends prio) = .free n →
          (prio = k.OSPrioCur → 0 < k.OSIntNesting ∨ 0 < k.OSLockNesting) →
          (n = 0 ∨ c ≠ .OSTimeDlyResume prio) →
          phaseOf t (pends prio) = .free n ∧ (false = true → true = true ∨
            c = .OSTaskSuspend prio) := fun n hn _ _ => ⟨hn, fun h => Bool.noConfusion h⟩
      have hwait : ¬(phaseOf t (pends prio)).Runnable →
          Does k pends c (back .OS_ERR_NONE (k.setTcb prio
            { t with OSTCBStat := t.OSTCBStat &&& ~~~OS_STAT_SUSPEND })) := by
        intro hrun
        exact ((moves_setTcb hf htask hrep' (iff_of_false (fun h => Bool.noConfusion h.1)
          fun h => hrun h.2)).steps_in hf htask (fun _ => Iff.rfl) rfl (.resume htask)
          hfree).does_back ⟨fun _ h => h, id⟩
      by_cases hrdy : t.OSTCBStat &&& ~~~OS_STAT_SUSPEND = OS_STAT_RDY
      · rw [if_pos hrdy]
        by_cases hdly : t.OSTCBDly = 0
        · rw [if_pos hdly]
          have hrun : (phaseOf t (pends prio)).Runnable :=
            Phase.runnable_iff.mpr ⟨hstat.symm.trans hrdy, hrep.dly.symm.trans hdly⟩
          exact ((moves_ready hf htask hrep' hrun).steps_in hf htask (fun _ => Iff.rfl) rfl
            (.resume htask) hfree).does_sched
        · rw [if_neg hdly]
          exact hwait fun hrun => hdly (hrep.dly.trans (Phase.runnable_iff.mp hrun).2)
      · rw [if_neg hrdy]
        exact hwait fun hrun => hrdy (hstat.trans (Phase.runnable_iff.mp hrun).1)
    · rw [if_neg hsusp]
      exact does_nothing hf _ _

end

end Nl6621.Ucos
