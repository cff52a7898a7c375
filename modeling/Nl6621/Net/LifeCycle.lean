import Nl6621.Net.Client

/-!
# The life of a connection

Every connection that `socket` makes is closed once and then left alone, when the runs are orderly:
`life_cycle`.  Three things bring a run out of order.

* `recv` reports an error: `Socket_TCPClientRecvData` closes the connection and returns -2, upon
  which `Agent_cloud_process` closes it again, and passes -1.
* `recv` reports the end of the stream: this is 0, as when nothing has come, and unless a sender
  has failed as well the next round goes on with the same connection.
* Another task is in `Socket_TCPClientSendData`: it goes on with whatever is in `TCPClientFd` when
  the cloud task has seen the end of the connection, closed it, or not made a new one yet.

The calls that count are those of the cloud task and of a set `S` of other tasks, and the order is
asked for of the same tasks.
-/

namespace Nl6621.Net.Client

open Lib

/-! ### Calls -/

namespace Call

/-- A receive that reports the end of the connection, or an error on it. -/
def ends (i : Nat) : Call → Prop
  | .recv _ conn ret => conn = some i ∧ ret ≤ 0
  | _ => False

def uses (i : Nat) : Call → Prop
  | .select _ _ conn => conn = some i
  | .send _ _ conn _ _ => conn = some i
  | .recv _ conn _ => conn = some i
  | _ => False

def closes (i : Nat) : Call → Bool
  | .close _ conn => decide (conn = some i)
  | _ => false

def onMinusOne : Call → Prop
  | .take _ => False
  | .select _ fd _ => fd = -1
  | .send _ fd _ _ _ => fd = -1
  | .recv fd _ _ => fd = -1
  | .close fd _ => fd = -1

/-- The call is made by the cloud task or by a task of `S`. -/
def among (S : Task → Prop) : Call → Prop
  | .select t _ _ => t = .cloud ∨ S t
  | .send t _ _ _ _ => t = .cloud ∨ S t
  | _ => True

end Call

/-- What the calls so far must be like. -/
structure LifeCycle (S : Task → Prop) (w : World) : Prop where
  /-- nothing is asked of a connection whose end has been reported -/
  silent : w.calls.Pairwise fun a b => ∀ i, a.ends i → b.among S → ¬b.uses i
  /-- a connection has been closed once, and not at all while it is the open one -/
  closed : ∀ i, w.calls.countP (Call.closes i) =
    if i < w.made ∧ ¬(w.isOpen = true ∧ w.conn = some i) then 1 else 0
  valid : ∀ c ∈ w.calls, c.among S → ¬c.onMinusOne

/-- There is an open connection whose end has not been reported. -/
def World.Usable (w : World) : Prop := w.isOpen = true ∧ w.ended = false

/-- No receive fails, the cloud task gives up a connection that has ended in the same round, a
sender of `S` takes the lock while there is a usable connection, and the cloud task sees the end
and closes while no such sender is in its loop. -/
def Orderly (S : Task → Prop) (w : World) : Act → Prop
  | .cloud (.recv n) => 0 ≤ n ∧ (n = 0 → ∀ t, S t → ¬w.InLoop t)
  | .cloud .test => ∀ ret, w.cloud = .test ret true → w.TCPClient_reset_flag = 0xa5
  | .cloud .close => ∀ t, S t → ¬w.InLoop t
  | .sender t .pend => S t → w.Usable
  | _ => True

/-! ### The invariant -/

/-- What the calls are about. -/
structure View where
  fd : Int
  conn : Option Nat
  isOpen : Bool
  ended : Bool
  made : Nat
  calls : List Call

def World.view (w : World) : View := ⟨w.TCPClientFd, w.conn, w.isOpen, w.ended, w.made, w.calls⟩

structure Core (S : Task → Prop) (v : View) : Prop where
  live : v.isOpen = true → (∃ i, v.conn = some i) ∧ v.fd ≠ -1
  newest : ∀ i, v.conn = some i → i + 1 = v.made
  fresh : v.ended = false → ∀ i, v.conn = some i → ∀ c ∈ v.calls, ¬c.ends i
  old : ∀ c ∈ v.calls, ∀ i, c.ends i → i < v.made
  silent : v.calls.Pairwise fun a b => ∀ i, a.ends i → b.among S → ¬b.uses i
  closed : ∀ i, v.calls.countP (Call.closes i) =
    if i < v.made ∧ ¬(v.isOpen = true ∧ v.conn = some i) then 1 else 0
  valid : ∀ c ∈ v.calls, c.among S → ¬c.onMinusOne

/-- What the place of the cloud task says about the connection. -/
def CloudPc.At (conn : Option Nat) (isOpen ended : Bool) : CloudPc → Prop
  | .create => conn = none ∧ isOpen = false
  | .clear caller => caller = .thread ∧ isOpen = false
  | .close caller => caller = .thread ∧ isOpen = true
  | .test _ eof => isOpen = true ∧ (ended = true → eof = true)
  | _ => isOpen = true ∧ ended = false

/-- The places at which the cloud task is in `Socket_TCPClientSendData`. -/
def CloudPc.sends : CloudPc → Bool
  | .connSent _ => true
  | .responding _ => true
  | _ => false

theorem CloudPc.At.of_sends {conn : Option Nat} {isOpen ended : Bool} {pc : CloudPc}
    (h : pc.At conn isOpen ended) (hpc : pc.sends = true) : isOpen = true ∧ ended = false := by
  cases pc with
  | connSent n => exact h
  | responding n => exact h
  | _ => cases hpc

structure LifeInv (S : Task → Prop) (w : World) : Prop where
  core : Core S w.view
  place : w.cloud.At w.conn w.isOpen w.ended
  sending : ∀ f, w.frame .cloud = some f → w.cloud.sends = true
  loops : ∀ t, S t → w.InLoop t → w.Usable

namespace LifeInv

variable {S : Task → Prop} {w : World}

theorem lifeCycle (h : LifeInv S w) : LifeCycle S w := ⟨h.core.silent, h.core.closed, h.core.valid⟩

theorem boot : LifeInv S boot where
  core := {
    live := fun h => by cases h
    newest := fun i h => by cases h
    fresh := fun _ i h => by cases h
    old := fun c hc => by cases hc
    silent := .nil
    closed := fun i => (if_neg fun h => Nat.not_lt_zero i h.1).symm
    valid := fun c hc => by cases hc }
  place := ⟨rfl, rfl⟩
  sending := fun f h => by cases h
  loops := fun t _ ⟨f, total, h, _⟩ => by cases h

end LifeInv

/-- One more call, which neither ends nor closes a connection. -/
theorem Core.call {S : Task → Prop} {v : View} (h : Core S v) {c : Call}
    (hends : ∀ i, ¬c.ends i) (hcloses : ∀ i, c.closes i = false)
    (huses : c.among S → ∀ i, c.uses i → v.ended = false ∧ v.conn = some i)
    (hfd : c.among S → ¬c.onMinusOne) : Core S { v with calls := v.calls ++ [c] } where
  live := h.live
  newest := h.newest
  fresh := by
    intro hend i hi b hb
    rcases List.mem_append.mp hb with hb | hb
    · exact h.fresh hend i hi b hb
    · rw [List.mem_singleton.mp hb]
      exact hends i
  old := by
    intro b hb i hbi
    rcases List.mem_append.mp hb with hb | hb
    · exact h.old b hb i hbi
    · rw [List.mem_singleton.mp hb] at hbi
      exact absurd hbi (hends i)
  silent := by
    refine List.pairwise_append.mpr ⟨h.silent, List.pairwise_singleton _ _, ?_⟩
    intro a ha b hb i hai hamong huse
    rw [List.mem_singleton.mp hb] at hamong huse
    obtain ⟨hend, hconn⟩ := huses hamong i huse
    exact h.fresh hend i hconn a ha hai
  closed := by
    intro i
    have hzero : [c].countP (Call.closes i) = 0 := by
      rw [List.countP_singleton, hcloses i]
      rfl
    rw [List.countP_append, hzero, Nat.add_zero]
    exact h.closed i
  valid := by
    intro b hb hamong
    rcases List.mem_append.mp hb with hb | hb
    · exact h.valid b hb hamong
    · rw [List.mem_singleton.mp hb] at hamong ⊢
      exact hfd hamong

/-- A receive, on a usable connection. -/
theorem Core.recv {S : Task → Prop} {v : View} (h : Core S v) (hopen : v.isOpen = true)
    (hend : v.ended = false) (n : Int) :
    Core S { v with
      calls := v.calls ++ [.recv v.fd v.conn n], ended := v.ended || decide (n ≤ 0) } where
  live := h.live
  newest := h.newest
  fresh := by
    intro hfresh i hi b hb
    rcases List.mem_append.mp hb with hb | hb
    · exact h.fresh hend i hi b hb
    · rw [List.mem_singleton.mp hb]
      intro hends
      have hn : decide (n ≤ 0) = false := (Bool.or_eq_false_iff.mp hfresh).2
      exact of_decide_eq_false hn hends.2
  old := by
    intro b hb i hbi
    rcases List.mem_append.mp hb with hb | hb
    · exact h.old b hb i hbi
    · rw [List.mem_singleton.mp hb] at hbi
      have hnew : i + 1 = v.made := h.newest i hbi.1
      exact (by omega : i < v.made)
  silent := by
    refine List.pairwise_append.mpr ⟨h.silent, List.pairwise_singleton _ _, ?_⟩
    intro a ha b hb i hai _ huse
    rw [List.mem_singleton.mp hb] at huse
    exact h.fresh hend i huse a ha hai
  closed := by
    intro i
    rw [List.countP_append]
    exact h.closed i
  valid := by
    intro b hb hamong
    rcases List.mem_append.mp hb with hb | hb
    · exact h.valid b hb hamong
    · rw [List.mem_singleton.mp hb]
      exact (h.live hopen).2

/-- The open connection is closed. -/
theorem Core.close {S : Task → Prop} {v : View} (h : Core S v) (hopen : v.isOpen = true) :
    Core S { v with calls := v.calls ++ [.close v.fd v.conn], isOpen := false } where
  live := fun hc => by cases hc
  newest := h.newest
  fresh := by
    intro hend i hi b hb
    rcases List.mem_append.mp hb with hb | hb
    · exact h.fresh hend i hi b hb
    · rw [List.mem_singleton.mp hb]
      exact id
  old := by
    intro b hb i hbi
    rcases List.mem_append.mp hb with hb | hb
    · exact h.old b hb i hbi
    · rw [List.mem_singleton.mp hb] at hbi
      exact hbi.elim
  silent := by
    refine List.pairwise_append.mpr ⟨h.silent, List.pairwise_singleton _ _, ?_⟩
    intro a ha b hb i _ _ huse
    rw [List.mem_singleton.mp hb] at huse
    exact huse
  closed := by
    intro i
    have hcount := h.closed i
    obtain ⟨⟨j, hj⟩, -⟩ := h.live hopen
    have hmade := h.newest j hj
    rw [List.countP_append, hcount, List.countP_singleton]
    change _ + (if decide (v.conn = some i) = true then 1 else 0) =
      if i < v.made ∧ ¬(false = true ∧ v.conn = some i) then 1 else 0
    by_cases hi : v.conn = some i
    · have hlt : i < v.made := by
        have hnew := h.newest i hi
        omega
      rw [if_neg (fun hc => hc.2 ⟨hopen, hi⟩), decide_eq_true hi, if_pos rfl,
        if_pos ⟨hlt, fun hc => Bool.false_ne_true hc.1⟩]
    · rw [decide_eq_false hi, if_neg Bool.false_ne_true, Nat.add_zero]
      congr 1
      exact propext ⟨fun hc => ⟨hc.1, fun hf => Bool.false_ne_true hf.1⟩,
        fun hc => ⟨hc.1, fun hf => hi hf.2⟩⟩
  valid := by
    intro b hb hamong
    rcases List.mem_append.mp hb with hb | hb
    · exact h.valid b hb hamong
    · rw [List.mem_singleton.mp hb]
      exact (h.live hopen).2

/-- Once it is closed, the descriptor is forgotten. -/
theorem Core.clear {S : Task → Prop} {v : View} (h : Core S v) (hclosed : v.isOpen = false) :
    Core S { v with fd := -1, conn := none } where
  live := fun hc => absurd (hclosed.symm.trans hc) Bool.false_ne_true
  newest := fun i hi => by cases hi
  fresh := fun _ i hi => by cases hi
  old := h.old
  silent := h.silent
  closed := by
    intro i
    rw [h.closed i]
    congr 1
    exact propext ⟨fun hc => ⟨hc.1, fun hf => (by cases hf.2)⟩,
      fun hc => ⟨hc.1, fun hf => Bool.false_ne_true (hclosed.symm.trans hf.1)⟩⟩
  valid := h.valid

/-- Then there may be a new one. -/
theorem Core.socket {S : Task → Prop} {v : View} (h : Core S v) (hclosed : v.isOpen = false)
    (fd : Nat) :
    Core S { v with
      fd := fd, conn := some v.made, isOpen := true, ended := false, made := v.made + 1 } where
  live := fun _ => ⟨⟨v.made, rfl⟩, by change (fd : Int) ≠ -1; omega⟩
  newest := by
    intro i hi
    cases hi
    rfl
  fresh := by
    intro _ i hi b hb hbi
    cases hi
    exact Nat.lt_irrefl _ (h.old b hb _ hbi)
  old := fun b hb i hbi => Nat.lt_succ_of_lt (h.old b hb i hbi)
  silent := h.silent
  closed := by
    intro i
    rw [h.closed i]
    congr 1
    refine propext ⟨fun hc => ⟨Nat.lt_succ_of_lt hc.1, fun hf => ?_⟩, fun hc => ?_⟩
    · exact Nat.lt_irrefl _ (Option.some.inj hf.2 ▸ hc.1)
    · refine ⟨?_, fun hf => Bool.false_ne_true (hclosed.symm.trans hf.1)⟩
      have hne : i ≠ v.made := fun hi => hc.2 ⟨rfl, congrArg some hi.symm⟩
      exact Nat.lt_of_le_of_ne (Nat.lt_succ_iff.mp hc.1) hne
  valid := h.valid

/-! ### The steps of a sender -/

theorem World.InLoop.of_setFrame {w : World} {t u : Task} {f : Option Frame}
    (hf : ∀ g total, f = some g → ¬g.looping total) (h : (w.setFrame u f).InLoop t) :
    w.InLoop t := by
  obtain ⟨g, total, hg, hloop⟩ := h
  by_cases ht : t = u
  · exact absurd hloop (hf g total ((if_pos ht).symm.trans hg))
  · exact ⟨g, total, (if_neg ht).symm.trans hg, hloop⟩

namespace LifeInv

variable {S : Task → Prop} {w : World} {t : Task} {f : Frame}

theorem usable_of_loop (h : LifeInv S w) {total : Nat} (hf : w.frame t = some f)
    (hloop : f.looping total) (ht : t = .cloud ∨ S t) : w.Usable := by
  rcases ht with rfl | ht
  · exact h.place.of_sends (h.sending f hf)
  · exact h.loops t ht ⟨f, total, hf, hloop⟩

/-- The sender goes on to `pc`, which is in the loop only when the connection is usable. -/
theorem setPc (h : LifeInv S w) (hf : w.frame t = some f) {w' : World} {pc : SendPc}
    (hcore : Core S w'.view) (hcloud : w'.cloud = w.cloud) (hframe : w'.frame = w.frame)
    (hconn : w'.conn = w.conn) (hopen : w'.isOpen = w.isOpen) (hend : w'.ended = w.ended)
    (hloop : ∀ total, S t → Frame.looping ⟨f.sendbuf, pc⟩ total → w.Usable) :
    LifeInv S (w'.setPc t f pc) where
  core := hcore
  place := by
    change w'.cloud.At w'.conn w'.isOpen w'.ended
    rw [hcloud, hconn, hopen, hend]
    exact h.place
  sending := by
    intro g hg
    change w'.cloud.sends = true
    rw [hcloud]
    by_cases ht : Task.cloud = t
    · exact h.sending f (by rw [ht]; exact hf)
    · have hold : w.frame .cloud = some g := by
        rw [← hframe]
        exact (if_neg ht).symm.trans hg
      exact h.sending g hold
  loops := by
    intro u hu ⟨g, total, hg, hl⟩
    have hsame : (w'.setPc t f pc).Usable ↔ w.Usable := by
      change w'.isOpen = true ∧ w'.ended = false ↔ _
      rw [hopen, hend]
      rfl
    rw [hsame]
    by_cases ht : u = t
    · have hnew : some ⟨f.sendbuf, pc⟩ = some g := (if_pos ht).symm.trans hg
      cases hnew
      rw [ht] at hu
      exact hloop total hu hl
    · have hold : w.frame u = some g := by
        rw [← hframe]
        exact (if_neg ht).symm.trans hg
      exact h.loops u hu ⟨g, total, hold, hl⟩

theorem sendStep (h : LifeInv S w) (hf : w.frame t = some f) {a : SendAct} {w' : World}
    (hok : Orderly S w (.sender t a)) (hs : sendStep w t f a = some w') : LifeInv S w' := by
  cases a with
  | pend =>
    simp only [Client.sendStep] at hs
    split at hs
    · cases hs
      refine h.setPc hf ?_ rfl rfl rfl rfl rfl fun _ hS _ => hok hS
      exact h.core.call (fun _ => id) (fun _ => rfl) (fun _ _ huse => huse.elim) fun _ => id
    · cases hs
  | select r =>
    simp only [Client.sendStep] at hs
    split at hs
    · rename_i total hpc
      have husable : t = .cloud ∨ S t → w.Usable := h.usable_of_loop hf (.inl hpc)
      have hcore : Core S (w.log (.select t w.TCPClientFd w.conn)).view := by
        refine h.core.call (fun _ => id) (fun _ => rfl) ?_ ?_
        · exact fun ht i huse => ⟨(husable ht).2, huse⟩
        · exact fun ht => (h.core.live (husable ht).1).2
      cases r with
      | error => cases hs; exact h.setPc hf hcore rfl rfl rfl rfl rfl fun _ hS _ => husable (.inr hS)
      | ready => cases hs; exact h.setPc hf hcore rfl rfl rfl rfl rfl fun _ hS _ => husable (.inr hS)
      | notReady =>
        cases hs
        exact h.setPc hf hcore rfl rfl rfl rfl rfl fun _ hS _ => husable (.inr hS)
    · cases hs
  | send n =>
    simp only [Client.sendStep] at hs
    split at hs
    · rename_i total hpc
      have husable : t = .cloud ∨ S t → w.Usable := h.usable_of_loop hf (.inr hpc)
      have hcore : ∀ bytes, Core S (w.log (.send t w.TCPClientFd w.conn total bytes)).view := by
        intro bytes
        refine h.core.call (fun _ => id) (fun _ => rfl) ?_ ?_
        · exact fun ht i huse => ⟨(husable ht).2, huse⟩
        · exact fun ht => (h.core.live (husable ht).1).2
      cases n with
      | none =>
        cases hs
        exact h.setPc hf (hcore _) rfl rfl rfl rfl rfl fun _ hS _ => husable (.inr hS)
      | some k =>
        obtain ⟨-, hs⟩ := Option.ite_none_right_eq_some.mp hs
        cases hs
        exact h.setPc hf (hcore _) rfl rfl rfl rfl rfl fun _ hS _ => husable (.inr hS)
    · cases hs
  | post =>
    simp only [Client.sendStep] at hs
    split at hs
    · rename_i ret hpc
      cases hs
      refine h.setPc hf h.core rfl rfl rfl rfl rfl fun total _ hl => ?_
      rcases hl with hl | hl
      · split at hl <;> cases hl
      · split at hl <;> cases hl
    · cases hs
  | setFlag =>
    simp only [Client.sendStep] at hs
    split at hs
    · cases hs
      refine h.setPc hf h.core rfl rfl rfl rfl rfl fun total _ hl => ?_
      rcases hl with hl | hl <;> cases hl
    · cases hs

/-! ### The steps of the cloud task -/

theorem frame_none (h : LifeInv S w) (hquiet : w.cloud.sends = false) :
    w.frame .cloud = none := by
  cases hf : w.frame .cloud with
  | none => rfl
  | some f => exact absurd (hquiet.symm.trans (h.sending f hf)) Bool.false_ne_true

/-- A step that leaves the frames alone, at a place where the cloud task does not send. -/
theorem moveTo (h : LifeInv S w) (hquiet : w.cloud.sends = false) {w' : World} (hcore : Core S w'.view)
    (hplace : w'.cloud.At w'.conn w'.isOpen w'.ended) (hframe : w'.frame = w.frame)
    (hloops : ∀ t, S t → w.InLoop t → w'.Usable) : LifeInv S w' where
  core := hcore
  place := hplace
  sending := by
    intro f hf
    rw [hframe, h.frame_none hquiet] at hf
    cases hf
  loops := by
    intro t ht ⟨f, total, hf, hl⟩
    rw [hframe] at hf
    exact hloops t ht ⟨f, total, hf, hl⟩

/-- A step of the cloud task into a sending call, or out of it. -/
theorem moveFrame (h : LifeInv S w) {g : Option Frame}
    (hg : ∀ f total, g = some f → ¬f.looping total) {w' : World} (hcore : Core S w'.view)
    (hplace : w'.cloud.At w'.conn w'.isOpen w'.ended)
    (hframe : w'.frame = (w.setFrame .cloud g).frame) (hopen : w'.isOpen = w.isOpen)
    (hend : w'.ended = w.ended)
    (hsend : g = none ∨ w'.cloud.sends = true) :
    LifeInv S w' where
  core := hcore
  place := hplace
  sending := by
    intro f hf
    rw [hframe] at hf
    have hnew : g = some f :=
      (if_pos rfl : (if Task.cloud = .cloud then g else w.frame .cloud) = g).symm.trans hf
    rcases hsend with hnone | hsend
    · rw [hnone] at hnew
      cases hnew
    · exact hsend
  loops := by
    intro t ht hl
    obtain ⟨f, total, hf, hl⟩ := hl
    rw [hframe] at hf
    have hold : w.InLoop t := World.InLoop.of_setFrame hg ⟨f, total, hf, hl⟩
    obtain ⟨ho, he⟩ := h.loops t ht hold
    exact ⟨hopen.trans ho, hend.trans he⟩

/-- Such a step on a usable connection, to a place that leaves the connection as it is. -/
theorem moveOn (h : LifeInv S w) (hquiet : w.cloud.sends = false) {w' : World} (hview : w'.view = w.view)
    (hplace : w'.cloud.At w.conn w.isOpen w.ended) (hframe : w'.frame = w.frame) :
    LifeInv S w' := by
  have hconn : w'.conn = w.conn := congrArg View.conn hview
  have hopen : w'.isOpen = w.isOpen := congrArg View.isOpen hview
  have hend : w'.ended = w.ended := congrArg View.ended hview
  refine h.moveTo hquiet (hview ▸ h.core) ?_ hframe ?_
  · rw [hconn, hopen, hend]
    exact hplace
  · intro t ht hl
    obtain ⟨ho, he⟩ := h.loops t ht hl
    exact ⟨hopen.trans ho, hend.trans he⟩

theorem recvStep (h : LifeInv S w) (hpc : w.cloud = .recv) {n : Int}
    (hok : Orderly S w (.cloud (.recv n))) {w' : World}
    (hs : Client.cloudStep w (.recv n) = some w') : LifeInv S w' := by
  have hplace := h.place
  rw [hpc] at hplace
  obtain ⟨hopen, hend⟩ := hplace
  simp only [Client.cloudStep, hpc] at hs
  cases hs
  have hcore := h.core.recv hopen hend n
  refine h.moveTo (congrArg CloudPc.sends hpc) hcore ?_ rfl ?_
  · change CloudPc.At w.conn w.isOpen (w.ended || decide (n ≤ 0)) (if n < 0 then _ else _)
    rw [if_neg (by have hn := hok.1; omega)]
    by_cases hn : n = 0
    · rw [if_pos hn]
      exact ⟨hopen, fun _ => rfl⟩
    · rw [if_neg hn, hend, Bool.false_or]
      exact ⟨hopen, decide_eq_false (by have hn := hok.1; omega)⟩
  · intro t ht hl
    by_cases hn : n = 0
    · exact absurd hl (hok.2 hn t ht)
    · refine ⟨hopen, ?_⟩
      change (w.ended || decide (n ≤ 0)) = false
      rw [hend, Bool.false_or]
      exact decide_eq_false (by have hn := hok.1; omega)

theorem connSentStep (h : LifeInv S w) {failedcnt : Nat} (hpc : w.cloud = .connSent failedcnt)
    {w' : World} (hs : Client.cloudStep w .connSent = some w') : LifeInv S w' := by
  have hplace := h.place
  rw [hpc] at hplace
  simp only [Client.cloudStep, hpc] at hs
  obtain ⟨ret, -, hs⟩ := Option.bind_eq_some_iff.mp hs
  by_cases hret : ret < 0
  · rw [if_pos hret] at hs
    cases hs
    refine h.moveFrame (fun f total hf => by cases hf) h.core ?_ rfl rfl rfl (.inl rfl)
    change CloudPc.At w.conn w.isOpen w.ended (if failedcnt + 1 > 3 then _ else _)
    by_cases hcnt : failedcnt + 1 > 3
    · rw [if_pos hcnt]
      exact ⟨rfl, hplace.1⟩
    · rw [if_neg hcnt]
      exact hplace
  · rw [if_neg hret] at hs
    cases hs
    exact h.moveFrame (fun f total hf => by cases hf) h.core hplace rfl rfl rfl (.inl rfl)

theorem recvSelectStep (h : LifeInv S w) (hpc : w.cloud = .recvSelect) {r : SelectRet}
    {w' : World} (hs : Client.cloudStep w (.recvSelect r) = some w') : LifeInv S w' := by
  have hplace := h.place
  rw [hpc] at hplace
  obtain ⟨hopen, hend⟩ := hplace
  have hcore : Core S (w.log (.select .cloud w.TCPClientFd w.conn)).view := by
    refine h.core.call (fun _ => id) (fun _ => rfl) ?_ ?_
    · exact fun _ i huse => ⟨hend, huse⟩
    · exact fun _ => (h.core.live hopen).2
  have hquiet : w.cloud.sends = false := congrArg CloudPc.sends hpc
  simp only [Client.cloudStep, hpc] at hs
  cases r with
  | error =>
    cases hs
    exact h.moveTo hquiet hcore
      ⟨hopen, fun he => absurd (hend.symm.trans he) Bool.false_ne_true⟩ rfl h.loops
  | ready =>
    cases hs
    exact h.moveTo hquiet hcore ⟨hopen, hend⟩ rfl h.loops
  | notReady =>
    cases hs
    exact h.moveTo hquiet hcore ⟨hopen, hend⟩ rfl h.loops

theorem testStep (h : LifeInv S w) {ret : Int} {eof : Bool} (hpc : w.cloud = .test ret eof)
    (hok : Orderly S w (.cloud .test)) {w' : World} (hs : Client.cloudStep w .test = some w') :
    LifeInv S w' := by
  have hplace := h.place
  rw [hpc] at hplace
  obtain ⟨hopen, hend⟩ := hplace
  simp only [Client.cloudStep, hpc] at hs
  cases hs
  refine h.moveOn (congrArg CloudPc.sends hpc) rfl ?_ rfl
  change CloudPc.At w.conn w.isOpen w.ended (if ret < 0 ∨ w.TCPClient_reset_flag = 0xa5 then _ else _)
  by_cases hreset : ret < 0 ∨ w.TCPClient_reset_flag = 0xa5
  · rw [if_pos hreset]
    exact ⟨rfl, hopen⟩
  · rw [if_neg hreset]
    refine ⟨hopen, ?_⟩
    -- the end has not been reported, as the flag would be set then
    cases he : w.ended with
    | false => rfl
    | true =>
      rw [hend he] at hpc
      exact absurd (.inr (hok ret hpc)) hreset

theorem cloudStep (h : LifeInv S w) {a : CloudAct} {w' : World} (hok : Orderly S w (.cloud a))
    (hs : Client.cloudStep w a = some w') : LifeInv S w' := by
  have hplace := h.place
  have hs' := hs
  unfold Client.cloudStep at hs
  split at hs
  · -- `socket` fails
    rename_i hpc
    rw [hpc] at hplace
    cases hs
    refine h.moveTo (congrArg CloudPc.sends hpc) ?_ h.place rfl h.loops
    exact {
      live := fun ho => absurd (hplace.2.symm.trans ho) Bool.false_ne_true
      newest := h.core.newest
      fresh := h.core.fresh
      old := h.core.old
      silent := h.core.silent
      closed := h.core.closed
      valid := h.core.valid }
  · rename_i fd hpc
    rw [hpc] at hplace
    cases hs
    exact h.moveTo (congrArg CloudPc.sends hpc) (h.core.socket hplace.2 fd) ⟨rfl, rfl⟩ rfl
      fun _ _ _ => ⟨rfl, rfl⟩
  · rename_i ok hpc
    rw [hpc] at hplace
    cases hs
    refine h.moveOn (congrArg CloudPc.sends hpc) rfl ?_ rfl
    cases ok with
    | true => exact hplace
    | false => exact ⟨rfl, hplace.1⟩
  · rename_i caller hpc
    rw [hpc] at hplace
    cases hs
    exact h.moveTo (congrArg CloudPc.sends hpc) (h.core.close hplace.2) ⟨hplace.1, rfl⟩ rfl
      fun t ht hl => absurd hl (hok t ht)
  · rename_i caller hpc
    rw [hpc] at hplace
    cases hs
    obtain ⟨rfl, hclosed⟩ := hplace
    exact h.moveTo (congrArg CloudPc.sends hpc) (h.core.clear hclosed) ⟨rfl, hclosed⟩ rfl h.loops
  · rename_i hpc
    rw [hpc] at hplace
    cases hs
    exact h.moveOn (congrArg CloudPc.sends hpc) rfl hplace rfl
  · rename_i hpc
    rw [hpc] at hplace
    cases hs
    exact h.moveOn (congrArg CloudPc.sends hpc) rfl hplace rfl
  · rename_i failedcnt pkg hpc
    rw [hpc] at hplace
    cases hs
    refine h.moveFrame ?_ h.core hplace rfl rfl rfl (.inr rfl)
    intro f total hf hl
    cases hf
    rcases hl with hl | hl <;> cases hl
  · rename_i failedcnt hpc
    exact h.connSentStep hpc hs'
  · rename_i r hpc
    exact h.recvSelectStep hpc hs'
  · rename_i isset hpc
    rw [hpc] at hplace
    cases hs
    refine h.moveOn (congrArg CloudPc.sends hpc) rfl ?_ rfl
    have hnot : w.ended = true → false = true := fun he => hplace.2.symm.trans he
    change CloudPc.At w.conn w.isOpen w.ended (if w.TCPClient_reset_flag = 0xa5 then _ else _)
    by_cases hflag : w.TCPClient_reset_flag = 0xa5
    · rw [if_pos hflag]
      exact ⟨hplace.1, hnot⟩
    · rw [if_neg hflag]
      cases isset with
      | true => exact hplace
      | false => exact ⟨hplace.1, hnot⟩
  · rename_i n hpc
    exact h.recvStep hpc hok hs'
  · rename_i ret hpc
    rw [hpc] at hplace
    cases hs
    exact h.moveOn (congrArg CloudPc.sends hpc) rfl h.place rfl
  · rename_i ret pkg hpc
    rw [hpc] at hplace
    cases hs
    refine h.moveFrame ?_ h.core hplace rfl rfl rfl (.inr rfl)
    intro f total hf hl
    cases hf
    rcases hl with hl | hl <;> cases hl
  · rename_i ret hpc
    rw [hpc] at hplace
    obtain ⟨r, -, hs⟩ := Option.bind_eq_some_iff.mp hs
    cases hs
    exact h.moveFrame (fun f total hf => by cases hf) h.core hplace rfl rfl rfl (.inl rfl)
  · rename_i ret hpc
    rw [hpc] at hplace
    cases hs
    exact h.moveOn (congrArg CloudPc.sends hpc) rfl
      ⟨hplace.1, fun he => hplace.2.symm.trans he⟩ rfl
  · rename_i ret eof hpc
    exact h.testStep hpc hok hs'
  · cases hs

/-! ### Runs -/

/-- Another task calls `Socket_TCPClientSendData`, or returns from it. -/
theorem setFrame (h : LifeInv S w) (ht : t ≠ .cloud) {g : Option Frame}
    (hg : ∀ f total, g = some f → ¬f.looping total) : LifeInv S (w.setFrame t g) where
  core := h.core
  place := h.place
  sending := fun f hf => h.sending f ((if_neg ht.symm).symm.trans hf)
  loops := fun u hu hl => h.loops u hu (World.InLoop.of_setFrame hg hl)

theorem step (h : LifeInv S w) {a : Act} {w' : World} (hok : Orderly S w a)
    (hs : step w a = some w') : LifeInv S w' := by
  cases a with
  | cloud a => exact h.cloudStep hok hs
  | start t pkg =>
    obtain ⟨ht, -, rfl⟩ := startSend_cases hs
    refine h.setFrame ht fun f total hf hl => ?_
    cases hf
    rcases hl with hl | hl <;> cases hl
  | sender t a =>
    obtain ⟨f, hf, hs⟩ := Option.bind_eq_some_iff.mp hs
    exact h.sendStep hf hok hs
  | finish t =>
    obtain ⟨ht, -, rfl⟩ := finishSend_cases hs
    exact h.setFrame ht fun f total hf => by cases hf

end LifeInv

/-- **The life of a connection.**  In every orderly run, nothing is asked of a connection whose end
has been reported, every connection that has been made is closed once, and -1 is never passed. -/
theorem life_cycle (S : Task → Prop) {w : World}
    (h : Reach (fun w => w = boot) step (Orderly S) w) : LifeCycle S w := by
  have hinv : LifeInv S w := by
    apply h.invariant (I := LifeInv S)
    · intro w hw
      rw [hw]
      exact .boot
    · intro w a w' hi hok hs
      exact hi.step hok hs
  exact hinv.lifeCycle

/-- A connection is refused, and closed. -/
def refused : List Act :=
  [.cloud (.socket (some 3)), .cloud (.connect false), .cloud .close, .cloud .clear]

theorem life_cycle_refused :
    ∃ w, run step boot refused = some w ∧ w.calls = [.close 3 (some 0)] ∧
      LifeCycle (fun _ => False) w := by
  refine ⟨_, rfl, rfl, life_cycle _ (reach_run refused (.start rfl) ?_ rfl)⟩
  exact ⟨trivial, fun _ _ => ⟨trivial, fun _ _ => ⟨fun _ hf => hf.elim, fun _ _ =>
    ⟨trivial, fun _ _ => trivial⟩⟩⟩⟩

/-- The cloud task logs in and then receives an error. -/
def recvFails : List Act :=
  [.cloud (.socket (some 3)), .cloud (.connect true), .cloud .reset, .cloud .enter,
    .cloud (.connReq [0x10]), .sender .cloud .pend, .sender .cloud (.select .ready),
    .sender .cloud (.send (some 1)), .sender .cloud .post, .cloud .connSent,
    .cloud (.recvSelect .ready), .cloud .recvFlag, .cloud (.recv (-1)), .cloud .close,
    .cloud .clear, .cloud .test, .cloud .close]

/-- `close` is called twice, the second time with -1. -/
theorem closed_twice :
    ∃ w, run step boot recvFails = some w ∧
      w.calls.drop 4 = [.recv 3 (some 0) (-1), .close 3 (some 0), .close (-1) none] ∧
      ¬LifeCycle (fun _ => False) w := by
  refine ⟨_, rfl, rfl, fun h => ?_⟩
  apply h.valid (.close (-1) none) ?_ trivial rfl
  decide

end Nl6621.Net.Client
