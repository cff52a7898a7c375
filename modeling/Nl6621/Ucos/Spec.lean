import Nl6621.Ucos.Events

/-!
# What the kernel is for

The kernel without bits, lists and control blocks.  A task is free or has to do with an event: it
waits, its time has run out, a message has been handed to it, or its wait has been aborted; and
besides it may be suspended.  An event is the list of what it contains.

`Change` is everything that can happen to that.  A post is handed to the task of the highest
priority that waits; a task whose time has run out and that has not come to run still counts as
waiting, and a message can still reach it.

What the changes keep is shown here: nobody waits for an event that contains something
(`Changes.keeps_idle`), the messages of an event go out in the order in which they come in, none
lost and none twice (`Changes.ledger`), and a task comes back with exactly what was handed to it
(`Changes.received`).
-/

namespace Nl6621.Ucos

inductive Phase where
  /-- not in a pend; `dly` ticks of `OSTimeDly` are left -/
  | free (dly : Nat)
  /-- in a pend; `dly` ticks of the timeout are left, or there is none -/
  | waits (svc : Svc) (pevent : Ecb) (dly : Nat)
  /-- the time has run out -/
  | late (svc : Svc) (pevent : Ecb)
  | given (svc : Svc) (pevent : Ecb) (pmsg : Msg)
  | aborted (svc : Svc) (pevent : Ecb)
deriving DecidableEq, Repr

namespace Phase

/-- The pend that the task is in. -/
def pend : Phase → Option (Svc × Ecb)
  | free _ => none
  | waits svc pevent _ => some (svc, pevent)
  | late svc pevent => some (svc, pevent)
  | given svc pevent _ => some (svc, pevent)
  | aborted svc pevent => some (svc, pevent)

def dly : Phase → Nat
  | free n => n
  | waits _ _ n => n
  | _ => 0

/-- A task that is not suspended is ready. -/
def Runnable : Phase → Prop
  | free n => n = 0
  | waits _ _ _ => False
  | _ => True

/-- The task can be handed a message of the event. -/
def Listed (pevent : Ecb) : Phase → Prop
  | waits _ e _ => e = pevent
  | late _ e => e = pevent
  | _ => False

/-- The message of the event that the task has been handed. -/
def holding (pevent : Ecb) : Phase → List Msg
  | given _ e pmsg => if e = pevent then [pmsg] else []
  | _ => []

/-- The time is over. -/
def expired : Phase → Phase
  | free _ => free 0
  | waits svc pevent _ => late svc pevent
  | ph => ph

/-- A tick. -/
def ticked : Phase → Phase
  | free n => free (n - 1)
  | waits svc pevent n =>
    if n = 0 then waits svc pevent 0
    else if n = 1 then late svc pevent
    else waits svc pevent (n - 1)
  | ph => ph

end Phase

structure Abs where
  /-- the task, and whether it is suspended -/
  task : Prio → Option (Phase × Bool)
  store : Ecb → List Msg

namespace Abs

def setTask (A : Abs) (p : Prio) (ph : Phase) (b : Bool) : Abs :=
  { A with task := Function.update A.task p (some (ph, b)) }

def setStore (A : Abs) (pevent : Ecb) (l : List Msg) : Abs :=
  { A with store := Function.update A.store pevent l }

def Waits (A : Abs) (p : Prio) (pevent : Ecb) : Prop :=
  ∃ ph b, A.task p = some (ph, b) ∧ ph.Listed pevent

/-- The task of the highest priority that waits for the event. -/
def First (A : Abs) (p : Prio) (pevent : Ecb) : Prop :=
  A.Waits p pevent ∧ ∀ q, A.Waits q pevent → p ≤ q

/-- What has been handed to somebody and is not yet received. -/
def transit (A : Abs) (pevent : Ecb) : Option Prio → List Msg
  | none => []
  | some p =>
    match A.task p with
    | some (ph, _) => ph.holding pevent
    | none => []

end Abs

inductive Change (A : Abs) : List Obs → Abs → Prop where
  /-- somebody takes what is there -/
  | take {pevent : Ecb} {pmsg : Msg} {rest : List Msg} (who : Option Prio)
      (hwho : ∀ p, who = some p → ∃ n b, A.task p = some (.free n, b))
      (hstore : A.store pevent = pmsg :: rest) :
      Change A [.given pevent who pmsg, .got pevent who pmsg] (A.setStore pevent rest)
  /-- a post that nobody waits for -/
  | put {pevent : Ecb} (pmsg : Msg) (hnone : ∀ p, ¬A.Waits p pevent) :
      Change A [.posted pevent pmsg] (A.setStore pevent (A.store pevent ++ [pmsg]))
  /-- a post to the first of those who wait -/
  | hand {p : Prio} {ph : Phase} {b : Bool} {svc : Svc} {pevent : Ecb} (pmsg : Msg)
      (hfirst : A.First p pevent) (htask : A.task p = some (ph, b))
      (hpend : ph.pend = some (svc, pevent)) :
      Change A [.posted pevent pmsg, .given pevent (some p) pmsg]
        (A.setTask p (.given svc pevent pmsg) b)
  | abort {p : Prio} {ph : Phase} {b : Bool} {svc : Svc} {pevent : Ecb}
      (hfirst : A.First p pevent) (htask : A.task p = some (ph, b))
      (hpend : ph.pend = some (svc, pevent)) :
      Change A [] (A.setTask p (.aborted svc pevent) b)
  /-- a pend that finds nothing -/
  | block {p : Prio} {svc : Svc} {pevent : Ecb} (timeout : Nat)
      (htask : A.task p = some (.free 0, false)) (hstore : A.store pevent = []) :
      Change A [] (A.setTask p (.waits svc pevent timeout) false)
  /-- a pend comes back with a message -/
  | receive {p : Prio} {svc : Svc} {pevent : Ecb} {pmsg : Msg}
      (htask : A.task p = some (.given svc pevent pmsg, false)) :
      Change A [.got pevent (some p) pmsg] (A.setTask p (.free 0) false)
  /-- a pend comes back without one -/
  | giveUp {p : Prio} {ph : Phase}
      (htask : A.task p = some (ph, false)) (hnone : ∀ e, ph.holding e = []) :
      Change A [] (A.setTask p (.free 0) false)
  | delay {p : Prio} {ticks : Nat} (htask : A.task p = some (.free 0, false)) :
      Change A [] (A.setTask p (.free ticks) false)
  | tick {p : Prio} {ph : Phase} {b : Bool} (htask : A.task p = some (ph, b)) :
      Change A [] (A.setTask p ph.ticked b)
  | expired {p : Prio} {ph : Phase} {b : Bool} (htask : A.task p = some (ph, b)) (hdly : ph.dly ≠ 0) :
      Change A [] (A.setTask p ph.expired b)
  | suspend {p : Prio} {ph : Phase} {b : Bool} (htask : A.task p = some (ph, b)) :
      Change A [] (A.setTask p ph true)
  | resume {p : Prio} {ph : Phase} (htask : A.task p = some (ph, true)) :
      Change A [] (A.setTask p ph false)
  /-- the count is set, or the queue is flushed -/
  | reset {pevent : Ecb} {l : List Msg} (hnone : l ≠ [] → ∀ p, ¬A.Waits p pevent) :
      Change A [.reset pevent] (A.setStore pevent l)

/-- Several changes, with all that is seen of them. -/
inductive Changes : Abs → List Obs → Abs → Prop where
  | refl (A : Abs) : Changes A [] A
  | tail {A B C : Abs} {o o' : List Obs} (h : Changes A o B) (hc : Change B o' C) :
      Changes A (o ++ o') C

theorem Changes.one {A B : Abs} {o : List Obs} (h : Change A o B) : Changes A o B :=
  .tail (.refl A) h

theorem Changes.trans {A B C : Abs} {o o' : List Obs} (h : Changes A o B) (h' : Changes B o' C) :
    Changes A (o ++ o') C := by
  induction h' with
  | refl => 
    rw [List.append_nil]
    exact h
  | tail _ hc ih =>
    rw [← List.append_assoc]
    exact .tail ih hc

/-! ### Nobody waits for what is there -/

namespace Abs

variable {A : Abs} {p q : Prio} {ph : Phase} {b : Bool} {e pevent : Ecb} {l : List Msg}

@[simp] theorem task_setTask_self : (A.setTask p ph b).task p = some (ph, b) :=
  Function.update_self ..

theorem task_setTask_of_ne (h : q ≠ p) : (A.setTask p ph b).task q = A.task q :=
  Function.update_of_ne h ..

@[simp] theorem store_setTask : (A.setTask p ph b).store = A.store := rfl

@[simp] theorem task_setStore : (A.setStore pevent l).task = A.task := rfl

@[simp] theorem store_setStore_self : (A.setStore pevent l).store pevent = l :=
  Function.update_self ..

theorem store_setStore_of_ne (h : e ≠ pevent) : (A.setStore pevent l).store e = A.store e :=
  Function.update_of_ne h ..

theorem waits_setTask_self : (A.setTask p ph b).Waits p e ↔ ph.Listed e := by
  constructor
  · rintro ⟨ph', b', htask, hlisted⟩
    rw [task_setTask_self] at htask
    cases htask
    exact hlisted
  · intro h
    exact ⟨ph, b, task_setTask_self, h⟩

theorem waits_setTask_of_ne (h : q ≠ p) : (A.setTask p ph b).Waits q e ↔ A.Waits q e := by
  rw [Waits, Waits, task_setTask_of_ne h]

/-- A task that does not come to wait by a change of it. -/
theorem waits_of_setTask (hw : (A.setTask p ph b).Waits q e) (h : ph.Listed e → A.Waits p e) :
    A.Waits q e := by
  by_cases hq : q = p
  · subst hq
    exact h (waits_setTask_self.mp hw)
  · exact (waits_setTask_of_ne hq).mp hw

end Abs

/-- Nobody waits for an event that contains something. -/
def Abs.Idle (A : Abs) : Prop := ∀ p pevent, A.Waits p pevent → A.store pevent = []

theorem Phase.listed_ticked {ph : Phase} {e : Ecb} : ph.ticked.Listed e ↔ ph.Listed e := by
  cases ph with
  | waits svc pevent n =>
    rw [ticked]
    split
    · exact Iff.rfl
    · split <;> exact Iff.rfl
  | _ => exact Iff.rfl

theorem Phase.listed_expired {ph : Phase} {e : Ecb} : ph.expired.Listed e ↔ ph.Listed e := by
  cases ph <;> exact Iff.rfl

theorem Change.keeps_idle {A B : Abs} {o : List Obs} (h : Change A o B) (hidle : A.Idle) :
    B.Idle := by
  intro q e hw
  cases h with
  | @take pevent pmsg rest who _ hstore =>
    by_cases he : e = pevent
    · subst he
      rw [hidle q e hw] at hstore
      cases hstore
    · rw [Abs.store_setStore_of_ne he]
      exact hidle q e hw
  | @put pevent pmsg hnone =>
    by_cases he : e = pevent
    · subst he
      exact absurd hw (hnone q)
    · rw [Abs.store_setStore_of_ne he]
      exact hidle q e hw
  | hand pmsg hfirst htask hpend =>
    exact hidle q e (Abs.waits_of_setTask hw False.elim)
  | abort hfirst htask hpend =>
    exact hidle q e (Abs.waits_of_setTask hw False.elim)
  | @block p svc pevent timeout htask hstore =>
    by_cases hq : q = p
    · subst hq
      obtain rfl : pevent = e := Abs.waits_setTask_self.mp hw
      exact hstore
    · exact hidle q e ((Abs.waits_setTask_of_ne hq).mp hw)
  | receive htask => exact hidle q e (Abs.waits_of_setTask hw False.elim)
  | giveUp htask hnone => exact hidle q e (Abs.waits_of_setTask hw False.elim)
  | delay htask => exact hidle q e (Abs.waits_of_setTask hw False.elim)
  | tick htask =>
    exact hidle q e (Abs.waits_of_setTask hw fun h => ⟨_, _, htask, Phase.listed_ticked.mp h⟩)
  | expired htask hdly =>
    exact hidle q e (Abs.waits_of_setTask hw fun h => ⟨_, _, htask, Phase.listed_expired.mp h⟩)
  | suspend htask => exact hidle q e (Abs.waits_of_setTask hw fun h => ⟨_, _, htask, h⟩)
  | resume htask => exact hidle q e (Abs.waits_of_setTask hw fun h => ⟨_, _, htask, h⟩)
  | @reset pevent l hnone =>
    by_cases he : e = pevent
    · subst he
      rw [Abs.store_setStore_self]
      by_contra hl
      exact hnone hl q hw
    · rw [Abs.store_setStore_of_ne he]
      exact hidle q e hw

theorem Changes.keeps_idle {A B : Abs} {o : List Obs} (h : Changes A o B) (hidle : A.Idle) :
    B.Idle := by
  induction h with
  | refl => exact hidle
  | tail _ hc ih => exact hc.keeps_idle ih

/-! ### What comes in and what goes out -/

namespace Obs

/-- The message, if the observation is a post to the event. -/
def posts (pevent : Ecb) : Obs → List Msg
  | posted e pmsg => if e = pevent then [pmsg] else []
  | _ => []

def gives (pevent : Ecb) : Obs → List Msg
  | given e _ pmsg => if e = pevent then [pmsg] else []
  | _ => []

def givesTo (pevent : Ecb) (who : Option Prio) : Obs → List Msg
  | given e w pmsg => if e = pevent ∧ w = who then [pmsg] else []
  | _ => []

def gets (pevent : Ecb) (who : Option Prio) : Obs → List Msg
  | got e w pmsg => if e = pevent ∧ w = who then [pmsg] else []
  | _ => []

end Obs

theorem Change.ledger {A B : Abs} {o : List Obs} (h : Change A o B) (hidle : A.Idle) {e : Ecb}
    (hreset : Obs.reset e ∉ o) :
    A.store e ++ o.flatMap (Obs.posts e) = o.flatMap (Obs.gives e) ++ B.store e := by
  cases h with
  | @take pevent pmsg rest who _ hstore =>
    by_cases he : pevent = e
    · subst he
      rw [hstore, Abs.store_setStore_self]
      simp [Obs.posts, Obs.gives]
    · rw [Abs.store_setStore_of_ne (Ne.symm he)]
      simp [Obs.posts, Obs.gives, he]
  | @put pevent pmsg hnone =>
    by_cases he : pevent = e
    · subst he
      rw [Abs.store_setStore_self]
      simp [Obs.posts, Obs.gives]
    · rw [Abs.store_setStore_of_ne (Ne.symm he)]
      simp [Obs.posts, Obs.gives, he]
  | @reset pevent l hnone =>
    have he : e ≠ pevent := by
      rintro rfl
      exact hreset List.mem_cons_self
    rw [Abs.store_setStore_of_ne he]
    simp [Obs.posts, Obs.gives]
  | @hand p ph b svc pevent pmsg hfirst htask hpend =>
    -- a message that passes by must find nothing there
    by_cases he : pevent = e
    · subst he
      rw [Abs.store_setTask, hidle p pevent hfirst.1]
      simp [Obs.posts, Obs.gives]
    · simp [Obs.posts, Obs.gives, he]
  | abort | block | receive | giveUp | delay | tick | expired | suspend | resume =>
    simp [Obs.posts, Obs.gives]

theorem Changes.ledger {A B : Abs} {o : List Obs} (h : Changes A o B) (hidle : A.Idle) {e : Ecb}
    (hreset : Obs.reset e ∉ o) :
    A.store e ++ o.flatMap (Obs.posts e) = o.flatMap (Obs.gives e) ++ B.store e := by
  induction h with
  | refl =>
    rw [List.flatMap_nil, List.flatMap_nil, List.append_nil, List.nil_append]
  | @tail B C o o' hp hc ih =>
    rw [List.mem_append, not_or] at hreset
    rw [List.flatMap_append, List.flatMap_append, ← List.append_assoc, ih hreset.1,
      List.append_assoc, hc.ledger (hp.keeps_idle hidle) hreset.2, List.append_assoc]

/-! ### Who gets it -/

namespace Phase

variable {ph : Phase} {e : Ecb}

theorem holding_of_listed {e' : Ecb} (h : ph.Listed e') : ph.holding e = [] := by
  cases ph with
  | waits | late => rfl
  | free | given | aborted => exact False.elim h

theorem holding_ticked : ph.ticked.holding e = ph.holding e := by
  cases ph with
  | waits svc pevent n =>
    rw [ticked]
    split
    · rfl
    · split <;> rfl
  | _ => rfl

theorem holding_expired : ph.expired.holding e = ph.holding e := by
  cases ph <;> rfl

end Phase

namespace Abs

variable {A : Abs} {p q : Prio} {ph ph' : Phase} {b b' : Bool} {e : Ecb}

theorem transit_of_task (h : A.task p = some (ph, b)) : A.transit e (some p) = ph.holding e := by
  rw [transit, h]

/-- Only what the task itself holds can change. -/
theorem transit_setTask_of_ne {who : Option Prio} (h : who ≠ some p) :
    (A.setTask p ph b).transit e who = A.transit e who := by
  cases who with
  | none => rfl
  | some q =>
    have hne : q ≠ p := fun heq => h (congrArg some heq)
    rw [transit, transit, task_setTask_of_ne hne]

theorem transit_setTask (htask : A.task p = some (ph', b')) (h : ph.holding e = ph'.holding e)
    (who : Option Prio) : (A.setTask p ph b).transit e who = A.transit e who := by
  by_cases hp : who = some p
  · subst hp
    rw [transit_of_task task_setTask_self, transit_of_task htask, h]
  · exact transit_setTask_of_ne hp

end Abs

theorem Change.received {A B : Abs} {o : List Obs} (h : Change A o B) (e : Ecb)
    (who : Option Prio) :
    A.transit e who ++ o.flatMap (Obs.givesTo e who) =
      o.flatMap (Obs.gets e who) ++ B.transit e who := by
  cases h with
  | @take pevent pmsg rest w hwho hstore =>
    have hnone : w = who → A.transit e who = [] := by
      rintro rfl
      cases w with
      | none => rfl
      | some p =>
        obtain ⟨n, b, htask⟩ := hwho p rfl
        exact Abs.transit_of_task htask
    show A.transit e who ++ _ = _ ++ A.transit e who
    by_cases hw : pevent = e ∧ w = who
    · rw [hnone hw.2]
      simp [Obs.givesTo, Obs.gets, hw]
    · simp [Obs.givesTo, Obs.gets, hw]
  | @hand p ph b svc pevent pmsg hfirst htask hpend =>
    obtain ⟨⟨ph', b', htask', hlisted⟩, -⟩ := hfirst
    obtain ⟨rfl, rfl⟩ : ph' = ph ∧ b' = b := by
      rw [htask] at htask'
      cases htask'
      exact ⟨rfl, rfl⟩
    by_cases hp : who = some p
    · subst hp
      rw [Abs.transit_of_task htask, Abs.transit_of_task Abs.task_setTask_self,
        Phase.holding_of_listed hlisted]
      simp [Obs.givesTo, Obs.gets, Phase.holding]
    · rw [Abs.transit_setTask_of_ne hp]
      simp [Obs.givesTo, Obs.gets, Ne.symm hp]
  | @receive p svc pevent pmsg htask =>
    by_cases hp : who = some p
    · subst hp
      rw [Abs.transit_of_task htask, Abs.transit_of_task Abs.task_setTask_self]
      simp [Obs.givesTo, Obs.gets, Phase.holding]
    · rw [Abs.transit_setTask_of_ne hp]
      simp [Obs.givesTo, Obs.gets, Ne.symm hp]
  | @abort p ph b svc pevent hfirst htask hpend =>
    obtain ⟨⟨ph', b', htask', hlisted⟩, -⟩ := hfirst
    have hhold : ph'.holding e = [] := Phase.holding_of_listed hlisted
    rw [Abs.transit_setTask htask' (by rw [hhold]; rfl)]
    simp
  | @giveUp p ph htask hnone =>
    rw [Abs.transit_setTask htask (by rw [hnone e]; rfl)]
    simp
  | @block p svc pevent timeout htask hstore =>
    have hsame := @Abs.transit_setTask A _ (.waits svc pevent timeout) _ false _ e htask rfl who
    rw [hsame]
    simp
  | @delay p ticks htask =>
    have hsame := @Abs.transit_setTask A _ (.free ticks) _ false _ e htask rfl who
    rw [hsame]
    simp
  | tick htask =>
    rw [Abs.transit_setTask htask Phase.holding_ticked]
    simp
  | expired htask hdly =>
    rw [Abs.transit_setTask htask Phase.holding_expired]
    simp
  | suspend htask =>
    rw [Abs.transit_setTask htask rfl]
    simp
  | resume htask =>
    rw [Abs.transit_setTask htask rfl]
    simp
  | put | reset =>
    show A.transit e who ++ _ = _ ++ A.transit e who
    simp [Obs.givesTo, Obs.gets]

theorem Changes.received {A B : Abs} {o : List Obs} (h : Changes A o B) (e : Ecb)
    (who : Option Prio) :
    A.transit e who ++ o.flatMap (Obs.givesTo e who) =
      o.flatMap (Obs.gets e who) ++ B.transit e who := by
  induction h with
  | refl =>
    rw [List.flatMap_nil, List.flatMap_nil, List.append_nil, List.nil_append]
  | tail _ hc ih =>
    rw [List.flatMap_append, List.flatMap_append, ← List.append_assoc, ih, List.append_assoc,
      hc.received, List.append_assoc]

end Nl6621.Ucos
