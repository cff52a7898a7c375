import Nl6621.Lib.Deltas
import Nl6621.Lib.Memory
import Nl6621.Lib.Runs

/-!
# The timeouts of `timers.c`

The stack has one list of timeouts, each with its distance to the one before.
`sys_timeout` inserts one, `sys_untimeout` takes one out, and `sys_timeouts_mbox_fetch` waits for a
message as long as the first distance says: it takes what it has waited off this distance, or calls
the handler when the wait is over.  What a handler does comes after the call.

A wait is two actions, `fetch` and its end, since other tasks can edit the list between them:
`DHCPS_Start` and `DHCPS_Stop` do so from the task that brings the link up and down.  What is first
then is not what the wait was for, and there may be nothing first.  `Calm` says that the edits of a
run come between the waits, as those of the handlers and of the messages to the stack do.

The history variables of a `World` are `clock`, the time that the waits have counted, where a wait
counts for no more than it was given; `set`, the times for which timeouts have been set; `fired`,
the times at which they have gone off; and `cancelled`.  `timeouts_fire` says that every timeout
that has been set and not been cancelled goes off once, and at its time.
-/

namespace Nl6621.Lwip

open Lib

/-- `time`, and `h` with its `arg`. -/
abbrev SysTimeo (H : Type) := Nat × H

variable {H : Type}

/-! ### The code -/

/-- `for (t = next_timeout; ..)`, at `t` -/
def insertAfter (time : Nat) (h : H) (t : SysTimeo H) : List (SysTimeo H) → List (SysTimeo H)
  | [] => [t, (sub32 time t.1, h)]
  | n :: rest =>
    let time := sub32 time t.1
    if n.1 > time then t :: (time, h) :: (sub32 n.1 time, n.2) :: rest
    else t :: insertAfter time h n rest

/-- With an entry from `memp_malloc`. -/
def enqueue (msecs : Nat) (h : H) : List (SysTimeo H) → List (SysTimeo H)
  | [] => [(msecs, h)]
  | t :: rest =>
    if t.1 > msecs then (msecs, h) :: (sub32 t.1 msecs, t.2) :: rest
    else insertAfter msecs h t rest

/-- `memp_malloc` gives an entry or `NULL`. -/
def sysTimeout (malloc : Bool) (msecs : Nat) (h : H) (l : List (SysTimeo H)) : List (SysTimeo H) :=
  if malloc then enqueue msecs h l else l

/-- `if (t->next != NULL) t->next->time += t->time;` -/
def addBack (time : Nat) : List (SysTimeo H) → List (SysTimeo H)
  | [] => []
  | n :: rest => (u32 (n.1 + time), n.2) :: rest

def sysUntimeout [DecidableEq H] (h : H) : List (SysTimeo H) → List (SysTimeo H)
  | [] => []
  | t :: rest => if t.2 = h then addBack t.1 rest else t :: sysUntimeout h rest

structure World (H : Type) where
  next_timeout : List (SysTimeo H)
  /-- the `timeout` of the `sys_arch_mbox_fetch` in which the task of the stack is -/
  fetching : Option Nat
  clock : Nat
  set : List (Nat × H)
  fired : List (Nat × H)
  cancelled : List (Nat × H)

inductive Act (H : Type) where
  | timeout (malloc : Bool) (msecs : Nat) (h : H)
  | untimeout (h : H)
  /-- from `again` to the call of `sys_arch_mbox_fetch` -/
  | fetch
  /-- it returns `SYS_ARCH_TIMEOUT` -/
  | expired
  /-- it returns a message, and after how long -/
  | message (time_needed : Nat)

/-- `next_timeout = tmptimeout->next;` and the call of its handler -/
def World.takeFirst (w : World H) (waited : Nat) : Option (World H) :=
  match w.next_timeout with
  | [] => none
  | t :: rest =>
    some { w with
      next_timeout := rest
      fetching := none
      clock := w.clock + waited
      fired := w.fired ++ [(w.clock + waited, t.2)] }

/-- What can come next. -/
def World.Enabled (w : World H) : Act H → Prop
  | .timeout _ msecs _ => msecs < 2 ^ 32
  | .untimeout _ => True
  | .fetch => w.fetching = none
  | .expired => ∃ timeout ∈ w.fetching, timeout ≠ 0
  | .message time_needed => w.fetching ≠ none ∧ time_needed < 2 ^ 32 - 1

instance (w : World H) (a : Act H) : Decidable (w.Enabled a) := by
  unfold World.Enabled
  cases a <;> infer_instance

/-- Nothing comes out where the code follows a `NULL`. -/
def World.exec [DecidableEq H] (w : World H) : Act H → Option (World H)
  | .timeout malloc msecs h =>
    some { w with
      next_timeout := sysTimeout malloc msecs h w.next_timeout
      set := if malloc then w.set ++ [(w.clock + msecs, h)] else w.set }
  | .untimeout h =>
    some { w with
      next_timeout := sysUntimeout h w.next_timeout
      cancelled := w.cancelled ++ ((dues w.clock w.next_timeout).find? fun t => t.2 = h).toList }
  | .fetch =>
    match w.next_timeout with
    | [] => some { w with fetching := some 0 }
    | t :: _ => if t.1 > 0 then some { w with fetching := some t.1 } else w.takeFirst 0
  | .expired => w.takeFirst (w.fetching.getD 0)
  | .message time_needed =>
    match w.fetching with
    | none => none
    | some 0 => some { w with fetching := none, clock := w.clock + time_needed }
    | some timeout =>
      match w.next_timeout with
      | [] => none
      | t :: rest =>
        some { w with
          next_timeout := (if time_needed < t.1 then sub32 t.1 time_needed else 0, t.2) :: rest
          fetching := none
          clock := w.clock + min time_needed timeout }

def step [DecidableEq H] (w : World H) (a : Act H) : Option (World H) :=
  if w.Enabled a then w.exec a else none

def Boot (w : World H) : Prop := w = ⟨[], none, 0, [], [], []⟩

/-- The list is edited between the waits alone. -/
def Calm (w : World H) : Act H → Prop
  | .timeout _ _ _ => w.fetching = none
  | .untimeout _ => w.fetching = none
  | _ => True

/-! ### The edits -/

/-- No distance is too long for 32 bits. -/
def Short (l : List (SysTimeo H)) : Prop := ∀ t ∈ l, t.1 < 2 ^ 32

theorem insertAfter_eq {time : Nat} {h : H} {t : SysTimeo H} {rest : List (SysTimeo H)}
    (htime : time < 2 ^ 32) (ht : t.1 ≤ time) (hrest : Short rest) :
    insertAfter time h t rest = t :: insertDelta (time - t.1) h rest := by
  have hsub : sub32 time t.1 = time - t.1 := sub32_of_le htime ht
  induction rest generalizing time t with
  | nil => rw [insertAfter, hsub, insertDelta]
  | cons n rest ih =>
    have hn : n.1 < 2 ^ 32 := hrest n List.mem_cons_self
    have hrest' : Short rest := fun s hs => hrest s (List.mem_cons_of_mem n hs)
    simp only [insertAfter, insertDelta, hsub]
    by_cases hlt : time - t.1 < n.1
    · rw [if_pos hlt, if_pos hlt, sub32_of_le hn (by omega)]
    · rw [if_neg hlt, if_neg hlt,
        ih (by omega) (by omega) hrest' (sub32_of_le (by omega) (by omega))]

theorem enqueue_eq {msecs : Nat} {h : H} {l : List (SysTimeo H)} (hmsecs : msecs < 2 ^ 32)
    (hl : Short l) : enqueue msecs h l = insertDelta msecs h l := by
  cases l with
  | nil => rfl
  | cons t rest =>
    have ht : t.1 < 2 ^ 32 := hl t List.mem_cons_self
    rw [enqueue, insertDelta]
    by_cases hlt : msecs < t.1
    · rw [if_pos hlt, if_pos hlt, sub32_of_le ht (by omega)]
    · rw [if_neg hlt, if_neg hlt, insertAfter_eq hmsecs (by omega)
        fun s hs => hl s (List.mem_cons_of_mem t hs)]

/-- Two distances together are a distance again. -/
theorem sysUntimeout_eq [DecidableEq H] {h : H} {l : List (SysTimeo H)} {now late : Nat}
    (hnow : late ≤ now + 2 ^ 32) (hl : ∀ t ∈ dues now l, t.1 < late) :
    sysUntimeout h l = eraseDelta (fun a => a = h) l := by
  induction l generalizing now with
  | nil => rfl
  | cons t rest ih =>
    have ht : now + t.1 < late := hl _ List.mem_cons_self
    rw [sysUntimeout, eraseDelta]
    by_cases heq : t.2 = h
    · rw [if_pos heq, if_pos (decide_eq_true heq)]
      cases rest with
      | nil => rfl
      | cons n rest =>
        have hn : now + t.1 + n.1 < late := hl _ (List.mem_cons_of_mem _ List.mem_cons_self)
        rw [addBack, delay, u32_of_lt (by omega)]
    · rw [if_neg heq, if_neg (by simpa using heq),
        ih (by omega) fun s hs => hl s (List.mem_cons_of_mem _ hs)]

/-! ### Runs -/

/-- What holds in every state. -/
structure TimeoutInv (w : World H) : Prop where
  /-- the times that have been set are those that have come, been cancelled or are still to come -/
  kept : w.set.Perm (w.fired ++ w.cancelled ++ dues w.clock w.next_timeout)
  soon : ∀ t ∈ dues w.clock w.next_timeout, t.1 < w.clock + 2 ^ 32
  sorted : w.fired.Pairwise fun s t => s.1 ≤ t.1
  past : ∀ t ∈ w.fired, t.1 ≤ w.clock
  /-- a wait is as long as the first distance -/
  first : ∀ timeout ∈ w.fetching,
    timeout = 0 ∧ w.next_timeout = [] ∨ timeout ≠ 0 ∧ timeout ∈ w.next_timeout.head?.map Prod.fst

theorem short_of_soon {l : List (SysTimeo H)} {now late : Nat} (hnow : late ≤ now + 2 ^ 32)
    (hl : ∀ t ∈ dues now l, t.1 < late) : Short l := by
  induction l generalizing now with
  | nil => exact fun t ht => absurd ht List.not_mem_nil
  | cons s l ih =>
    have hs : now + s.1 < late := hl _ List.mem_cons_self
    have hrest : Short l := ih (by omega) fun t ht => hl t (List.mem_cons_of_mem _ ht)
    intro t ht
    rcases List.mem_cons.mp ht with rfl | ht
    · omega
    · exact hrest t ht

theorem perm_eraseP {p : Nat × H → Bool} (l : List (Nat × H)) :
    l.Perm ((l.find? p).toList ++ l.eraseP p) := by
  induction l with
  | nil => exact List.Perm.refl _
  | cons t l ih =>
    by_cases hp : p t = true
    · rw [List.find?_cons_of_pos hp, List.eraseP_cons_of_pos hp]
      exact List.Perm.refl _
    · rw [List.find?_cons_of_neg hp, List.eraseP_cons_of_neg hp]
      exact (ih.cons t).trans List.perm_middle.symm

/-- A wait that ends with a message. -/
theorem dues_message (now n : Nat) {t : SysTimeo H} (rest : List (SysTimeo H)) (ht : t.1 < 2 ^ 32) :
    dues (now + min n t.1) ((if n < t.1 then sub32 t.1 n else 0, t.2) :: rest) =
      dues now (t :: rest) := by
  have hleft : (if n < t.1 then sub32 t.1 n else 0) = t.1 - min n t.1 := by
    split
    · rw [sub32_of_le ht (by omega)]
      omega
    · omega
  rw [hleft, dues_wait (Nat.min_le_right _ _)]

theorem timeoutInv_boot {w : World H} (h : Boot w) : TimeoutInv w := by
  cases h
  exact ⟨List.Perm.refl _, fun t ht => absurd ht List.not_mem_nil, List.Pairwise.nil,
    fun t ht => absurd ht List.not_mem_nil, fun timeout h => (by cases h)⟩

theorem TimeoutInv.short {w : World H} (hi : TimeoutInv w) : Short w.next_timeout :=
  short_of_soon (Nat.le_refl _) hi.soon

/-- The insertion into a sorted list of times. -/
theorem TimeoutInv.enqueue {w : World H} (hi : TimeoutInv w) (hcalm : w.fetching = none)
    {msecs : Nat} (h : H) (hmsecs : msecs < 2 ^ 32) :
    TimeoutInv { w with
      next_timeout := enqueue msecs h w.next_timeout
      set := w.set ++ [(w.clock + msecs, h)] } := by
  have hdues : dues w.clock (Lwip.enqueue msecs h w.next_timeout) =
      (dues w.clock w.next_timeout).orderedInsert Before (w.clock + msecs, h) := by
    rw [enqueue_eq hmsecs hi.short, dues_insertDelta]
  refine ⟨?_, ?_, hi.sorted, hi.past, ?_⟩
  · rw [hdues]
    refine (hi.kept.append_right _).trans ?_
    rw [List.append_assoc]
    refine List.Perm.append_left _ ?_
    exact List.perm_append_comm.trans (List.perm_orderedInsert Before _ _).symm
  · intro t ht
    change t ∈ dues w.clock (Lwip.enqueue msecs h w.next_timeout) at ht
    rw [hdues, List.mem_orderedInsert] at ht
    rcases ht with rfl | ht
    · exact Nat.add_lt_add_left hmsecs _
    · exact hi.soon t ht
  · intro timeout htimeout
    rw [hcalm] at htimeout
    cases htimeout

theorem TimeoutInv.untimeout [DecidableEq H] {w : World H} (hi : TimeoutInv w)
    (hcalm : w.fetching = none) (h : H) :
    TimeoutInv { w with
      next_timeout := sysUntimeout h w.next_timeout
      cancelled := w.cancelled ++
        ((dues w.clock w.next_timeout).find? fun t => t.2 = h).toList } := by
  have hdues : dues w.clock (sysUntimeout h w.next_timeout) =
      (dues w.clock w.next_timeout).eraseP fun t => t.2 = h := by
    rw [sysUntimeout_eq (Nat.le_refl _) hi.soon, dues_eraseDelta]
  refine ⟨?_, ?_, hi.sorted, hi.past, ?_⟩
  · rw [hdues]
    refine hi.kept.trans ?_
    rw [List.append_assoc w.fired, List.append_assoc w.fired, List.append_assoc w.cancelled]
    exact ((perm_eraseP _).append_left _).append_left _
  · intro t ht
    change t ∈ dues w.clock (sysUntimeout h w.next_timeout) at ht
    rw [hdues] at ht
    exact hi.soon t (List.mem_of_mem_eraseP ht)
  · intro timeout htimeout
    rw [hcalm] at htimeout
    cases htimeout

/-- The first time is taken off when it has come. -/
theorem TimeoutInv.takeFirst {w w' : World H} (hi : TimeoutInv w) {t : SysTimeo H}
    {rest : List (SysTimeo H)} (hnext : w.next_timeout = t :: rest)
    (htake : w.takeFirst t.1 = some w') : TimeoutInv w' := by
  obtain ⟨hkept, hsoon, hsorted, hpast, -⟩ := hi
  rw [hnext] at hkept hsoon
  simp only [World.takeFirst, hnext] at htake
  cases htake
  refine ⟨?_, ?_, ?_, ?_, fun timeout htimeout => (by cases htimeout)⟩
  · refine hkept.trans ?_
    rw [dues, List.append_assoc, List.append_assoc, List.append_assoc]
    exact List.Perm.append_left _ List.perm_middle
  · intro s hs
    have h := hsoon s (List.mem_cons_of_mem _ hs)
    change s.1 < w.clock + t.1 + 2 ^ 32
    omega
  · refine List.pairwise_append.mpr ⟨hsorted, List.pairwise_singleton _ _, fun s hs r hr => ?_⟩
    cases List.mem_singleton.mp hr
    exact Nat.le_trans (hpast s hs) (Nat.le_add_right _ _)
  · intro s hs
    rcases List.mem_append.mp hs with hs | hs
    · exact Nat.le_trans (hpast s hs) (Nat.le_add_right _ _)
    · cases List.mem_singleton.mp hs
      exact Nat.le_refl _

/-- The beginning of a wait. -/
theorem TimeoutInv.begin {w : World H} (hi : TimeoutInv w) {timeout : Nat}
    (hfirst : timeout = 0 ∧ w.next_timeout = [] ∨
      timeout ≠ 0 ∧ timeout ∈ w.next_timeout.head?.map Prod.fst) :
    TimeoutInv { w with fetching := some timeout } :=
  ⟨hi.kept, hi.soon, hi.sorted, hi.past, fun _ h => Option.mem_some.mp h ▸ hfirst⟩

/-- A wait that ends with a message changes none of the times. -/
theorem TimeoutInv.wait {w : World H} (hi : TimeoutInv w) {l : List (SysTimeo H)} {k : Nat}
    (hdues : dues (w.clock + k) l = dues w.clock w.next_timeout) :
    TimeoutInv { w with next_timeout := l, fetching := none, clock := w.clock + k } := by
  refine ⟨?_, ?_, hi.sorted, fun s hs => Nat.le_trans (hi.past s hs) (Nat.le_add_right _ _),
    fun timeout htimeout => (by cases htimeout)⟩
  · rw [hdues]
    exact hi.kept
  · intro s hs
    rw [hdues] at hs
    exact Nat.lt_of_lt_of_le (hi.soon s hs) (Nat.add_le_add_right (Nat.le_add_right _ _) _)

/-- **One action.**  What can come next is carried out. -/
theorem TimeoutInv.exec [DecidableEq H] {w : World H} {a : Act H} (hi : TimeoutInv w)
    (hcan : w.Enabled a) (hcalm : Calm w a) : ∃ w', w.exec a = some w' ∧ TimeoutInv w' := by
  cases a with
  | timeout malloc msecs h =>
    cases malloc with
    | false => exact ⟨_, rfl, hi⟩
    | true => exact ⟨_, rfl, hi.enqueue hcalm h hcan⟩
  | untimeout h => exact ⟨_, rfl, hi.untimeout hcalm h⟩
  | fetch =>
    rcases hnext : w.next_timeout with _ | ⟨t, rest⟩
    · refine ⟨{ w with fetching := some 0 }, ?_, hi.begin (.inl ⟨rfl, hnext⟩)⟩
      simp only [World.exec, hnext]
    · by_cases ht : t.1 > 0
      · refine ⟨{ w with fetching := some t.1 }, ?_, hi.begin (.inr ⟨Nat.ne_of_gt ht, ?_⟩)⟩
        · simp only [World.exec, hnext, if_pos ht]
        · rw [hnext]
          rfl
      · have hzero : t.1 = 0 := by omega
        obtain ⟨w', htake⟩ : ∃ w', w.takeFirst 0 = some w' := by
          simp only [World.takeFirst, hnext]
          exact ⟨_, rfl⟩
        refine ⟨w', ?_, hi.takeFirst hnext (hzero ▸ htake)⟩
        simp only [World.exec, hnext, if_neg ht]
        exact htake
  | expired =>
    obtain ⟨timeout, hfetching, hne⟩ := hcan
    rcases hi.first timeout hfetching with ⟨hzero, -⟩ | ⟨-, hhead⟩
    · exact absurd hzero hne
    · rcases hnext : w.next_timeout with _ | ⟨t, rest⟩
      · rw [hnext] at hhead
        cases hhead
      · rw [hnext] at hhead
        cases hhead
        obtain ⟨w', htake⟩ : ∃ w', w.takeFirst t.1 = some w' := by
          simp only [World.takeFirst, hnext]
          exact ⟨_, rfl⟩
        refine ⟨w', ?_, hi.takeFirst hnext htake⟩
        rw [World.exec, Option.mem_def.mp hfetching]
        exact htake
  | message time_needed =>
    obtain ⟨timeout, hfetching⟩ := Option.ne_none_iff_exists'.mp hcan.1
    rcases hi.first timeout hfetching with ⟨rfl, hnil⟩ | ⟨hne, hhead⟩
    · refine ⟨{ w with fetching := none, clock := w.clock + time_needed }, ?_, hi.wait ?_⟩
      · simp only [World.exec, hfetching]
      · rw [hnil]
        rfl
    · rcases hnext : w.next_timeout with _ | ⟨t, rest⟩
      · rw [hnext] at hhead
        cases hhead
      · rw [hnext] at hhead
        cases hhead
        have ht : t.1 < 2 ^ 32 := hi.short t (by rw [hnext]; exact List.mem_cons_self)
        refine ⟨_, ?_, hi.wait (k := min time_needed t.1) ((dues_message w.clock time_needed rest
          ht).trans (by rw [hnext]))⟩
        simp only [World.exec, hfetching, hnext]

theorem step_timeoutInv [DecidableEq H] {w w' : World H} {a : Act H} (hi : TimeoutInv w)
    (hcalm : Calm w a) (hs : step w a = some w') : TimeoutInv w' := by
  unfold step at hs
  split at hs
  case isTrue hcan =>
    obtain ⟨w₁, hexec, hi'⟩ := hi.exec hcan hcalm
    rw [hexec] at hs
    cases hs
    exact hi'
  case isFalse => cases hs

/-- **Every timeout goes off once and at its time, unless it is cancelled.**  In every run whose
edits come between the waits, the times that have been set are those at which a timeout has gone
off, those of the cancelled ones and those on the list; they go off in the order of the times.  The
distances on the list are together less than 32 bits have room for, and no action that can come
next follows a `NULL`. -/
theorem timeouts_fire [DecidableEq H] {w : World H} (h : Reach Boot step Calm w) :
    w.set.Perm (w.fired ++ w.cancelled ++ dues w.clock w.next_timeout) ∧
      ((w.fired ++ dues w.clock w.next_timeout).Pairwise fun s t => s.1 ≤ t.1) ∧
      (∀ t ∈ w.fired, t.1 ≤ w.clock) ∧
      (∀ t ∈ dues w.clock w.next_timeout, t.1 < w.clock + 2 ^ 32) ∧
      ∀ a, w.Enabled a → Calm w a → ∃ w', w.exec a = some w' := by
  have hi : TimeoutInv w :=
    h.invariant (fun _ hb => timeoutInv_boot hb) fun _ _ _ hi hok hs => step_timeoutInv hi hok hs
  have horder : ∀ s ∈ w.fired, ∀ t ∈ dues w.clock w.next_timeout, s.1 ≤ t.1 := fun s hs t ht =>
    Nat.le_trans (hi.past s hs) (le_of_mem_dues ht)
  refine ⟨hi.kept, List.pairwise_append.mpr ⟨hi.sorted, pairwise_dues _ _, horder⟩, hi.past, hi.soon,
    fun a hcan hcalm => ?_⟩
  obtain ⟨w', hexec, -⟩ := hi.exec hcan hcalm
  exact ⟨w', hexec⟩

/-- Two timeouts; a message comes after 3, and the second one goes off. -/
def sampleActs : List (Act Bool) :=
  [.timeout true 10 true, .timeout true 5 false, .fetch, .message 3, .fetch, .expired]

def sampleEnd : World Bool :=
  ⟨[(5, true)], none, 5, [(10, true), (5, false)], [(5, false)], []⟩

theorem timeouts_fire_sample :
    sampleEnd.set.Perm (sampleEnd.fired ++ sampleEnd.cancelled ++
        dues sampleEnd.clock sampleEnd.next_timeout) ∧
      ((sampleEnd.fired ++ dues sampleEnd.clock sampleEnd.next_timeout).Pairwise
        fun s t => s.1 ≤ t.1) ∧
      (∀ t ∈ sampleEnd.fired, t.1 ≤ sampleEnd.clock) ∧
      (∀ t ∈ dues sampleEnd.clock sampleEnd.next_timeout, t.1 < sampleEnd.clock + 2 ^ 32) ∧
      ∀ a, sampleEnd.Enabled a → Calm sampleEnd a → ∃ w', sampleEnd.exec a = some w' := by
  refine timeouts_fire (reach_run sampleActs (.start rfl) ⟨rfl, fun w hw => ?_⟩ rfl)
  cases hw
  exact ⟨rfl, fun _ _ => ⟨trivial, fun _ _ => ⟨trivial, fun _ _ => ⟨trivial, fun _ _ =>
    ⟨trivial, fun _ _ => trivial⟩⟩⟩⟩⟩

/-- The handler of the first timeout is taken off the list during the wait for it. -/
example : (run step (⟨[], none, 0, [], [], []⟩ : World Bool)
    [.timeout true 10 true, .fetch, .untimeout true]).map (fun w => (w.exec .expired).isNone) =
      some true := by decide

end Nl6621.Lwip
