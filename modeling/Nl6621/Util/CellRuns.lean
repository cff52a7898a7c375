import Nl6621.Lib.Runs
import Nl6621.Util.CellEdits

/-!
# Runs of queue operations

`queues_represent`: queues that were initialised are represented after any sequence of operations
whose callers keep the rules (`Admitted`): a cell that is put into a queue is in no queue, one
that is taken out is in the queue named, or detached, and no queue grows beyond the 65535 nodes
that its count can hold.  The lists follow the operations (`listStep`), and every
operation comes back with the cell the list operation gives.
-/

namespace Nl6621.Util

open Lib Function

/-- An operation; `addTail` is the flag of the source. -/
inductive Op where
  | enqueueHead (phead pnode : Addr)
  | enqueueTail (phead pnode : Addr)
  | insertCell (phead pnode : Addr) (addTail : UInt8)
  | freeCell (phead pnode : Addr)
  | unlink (phead pnode : Addr)
  | removeCell (phead pnode : Addr)
  | dequeue (phead : Addr)
  | insertCellQue (phead inserted : Addr) (addTail : UInt8)

/-- A call that returns nothing. -/
def noResult (r : Outcome Mem) : Outcome (Mem × Addr) := do
  let m ← r
  .ok (m, NULL)

def queueStep (m : Mem) : Op → Outcome (Mem × Addr)
  | .enqueueHead h n => noResult (utilEnqueueListHead h n m)
  | .enqueueTail h n => noResult (utilEnqueueListTail h n m)
  | .insertCell h n t => noResult (nstInsertCell h n t m)
  | .freeCell h n => noResult (nstFreeCell h n m)
  | .unlink h n => noResult (utilUnlinkList h n m)
  | .removeCell h n => noResult (nstRemoveCell h n m)
  | .dequeue h => utilDequeueList h m
  | .insertCellQue h i t => noResult (nstInsertCellQue h i t m)

/-- The operation on the lists of the queues. -/
def listStep (Q : Addr → List Addr) : Op → (Addr → List Addr) × Addr
  | .enqueueHead h n => (update Q h (n :: Q h), NULL)
  | .enqueueTail h n => (update Q h (Q h ++ [n]), NULL)
  | .insertCell h n t => (update Q h (if t = NST_TRUE then Q h ++ [n] else n :: Q h), NULL)
  | .freeCell h n => (update Q h (Q h ++ [n]), NULL)
  | .unlink h n => (update Q h ((Q h).erase n), NULL)
  | .removeCell h n => (update Q h ((Q h).erase n), NULL)
  | .dequeue h => (update Q h (Q h).tail, (Q h).headD NULL)
  | .insertCellQue h i t =>
    (update (update Q h (if t = NST_TRUE then Q h ++ Q i else Q i ++ Q h)) i [], NULL)

/-- The links of the node are null. -/
def Detached (m : Mem) (n : Addr) : Prop := m.pnext n = NULL ∧ m.pprev n = NULL

/-- What the caller of an operation sees to. -/
def Admitted (heads : List Addr) (s : Mem × (Addr → List Addr)) : Op → Prop
  | .enqueueHead h n | .enqueueTail h n | .insertCell h n _ | .freeCell h n =>
    h ∈ heads ∧ Free heads s.2 n ∧ (s.2 h).length + 1 < 2 ^ 16
  | .unlink h n => h ∈ heads ∧ n ∈ s.2 h
  | .removeCell h n => h ∈ heads ∧ (n ∈ s.2 h ∨ Detached s.1 n)
  | .dequeue h => h ∈ heads
  | .insertCellQue h i _ =>
    h ∈ heads ∧ i ∈ heads ∧ h ≠ i ∧ (s.2 h).length + (s.2 i).length < 2 ^ 16

variable {heads : List Addr} {m m' : Mem} {Q : Addr → List Addr} {h i n x : Addr} {op : Op}

theorem nstRemoveCell_detached (hd : Detached m n) : nstRemoveCell h n m = .ok m := by
  rw [nstRemoveCell, if_neg fun hc => hc.2.1 hd.1]

/-- A detached node is in no queue. -/
theorem Represents.not_mem_of_detached (R : Represents heads m Q) (hh : h ∈ heads)
    (hd : Detached m n) : n ∉ Q h := by
  intro hn
  obtain ⟨l, r, hq⟩ := List.append_of_mem hn
  obtain ⟨hp, -⟩ := R.links_mem hh hq
  rw [hd.2] at hp
  refine R.nonnull h hh ?_
  rw [hq]
  rcases List.mem_append.mp hp with hp | hp
  · exact List.mem_cons_of_mem _ (List.mem_append_right _ (List.mem_cons_of_mem _ hp))
  · rcases List.mem_cons.mp hp with hp | hp
    · exact hp ▸ List.mem_cons_self
    · exact List.mem_cons_of_mem _ (List.mem_append_left _ hp)

/-- **An operation does what it does to the lists.** -/
theorem Represents.step (R : Represents heads m Q) (hop : Admitted heads (m, Q) op) :
    ∃ m', queueStep m op = .ok (m', (listStep Q op).2) ∧ Represents heads m' (listStep Q op).1 := by
  cases op with
  | enqueueHead h n =>
    obtain ⟨m', hm, R'⟩ := R.enqueueHead hop.1 hop.2.1 hop.2.2
    exact ⟨m', by rw [queueStep, hm]; rfl, R'⟩
  | enqueueTail h n =>
    obtain ⟨m', hm, R'⟩ := R.enqueueTail hop.1 hop.2.1 hop.2.2
    exact ⟨m', by rw [queueStep, hm]; rfl, R'⟩
  | insertCell h n t =>
    rw [queueStep, nstInsertCell, listStep]
    by_cases ht : t = NST_TRUE
    · rw [if_pos ht, if_pos ht]
      obtain ⟨m', hm, R'⟩ := R.enqueueTail hop.1 hop.2.1 hop.2.2
      exact ⟨m', by rw [hm]; rfl, R'⟩
    · rw [if_neg ht, if_neg ht]
      obtain ⟨m', hm, R'⟩ := R.enqueueHead hop.1 hop.2.1 hop.2.2
      exact ⟨m', by rw [hm]; rfl, R'⟩
  | freeCell h n =>
    obtain ⟨m', hm, R'⟩ := R.enqueueTail hop.1 hop.2.1 hop.2.2
    exact ⟨m', by rw [queueStep, nstFreeCell, hm]; rfl, R'⟩
  | unlink h n =>
    obtain ⟨m', hm, R', -⟩ := R.unlink hop.1 hop.2
    exact ⟨m', by rw [queueStep, hm]; rfl, R'⟩
  | removeCell h n =>
    obtain ⟨hh, hn | hd⟩ := hop
    · obtain ⟨m', hm, R'⟩ := R.removeCell hh hn
      exact ⟨m', by rw [queueStep, hm]; rfl, R'⟩
    · refine ⟨m, by rw [queueStep, nstRemoveCell_detached hd]; rfl, ?_⟩
      rw [listStep, List.erase_of_not_mem (R.not_mem_of_detached hh hd), update_eq_self]
      exact R
  | dequeue h => exact R.dequeue hop
  | insertCellQue h i t =>
    obtain ⟨m', hm, R'⟩ := R.insertCellQue t hop.1 hop.2.1 hop.2.2.1 hop.2.2.2
    exact ⟨m', by rw [queueStep, hm]; rfl, R'⟩

/-! ### From the initialisation on -/

def initAll : List Addr → Mem → Outcome Mem
  | [], m => .ok m
  | h :: heads, m => do
    let m ← utilInitListHead h m
    initAll heads m

/-- The state, with the lists beside the memory, after the queues were initialised in any memory. -/
def Initialised (heads : List Addr) (s : Mem × (Addr → List Addr)) : Prop :=
  (∃ m, initAll heads m = .ok s.1) ∧ s.2 = fun _ => []

def step (s : Mem × (Addr → List Addr)) (op : Op) : Option (Mem × (Addr → List Addr)) :=
  match queueStep s.1 op with
  | .ok (m, _) => some (m, (listStep s.2 op).1)
  | _ => none

theorem initAll_spec (hs : List Addr) : ∀ (m m' : Mem), NULL ∉ hs → initAll hs m = .ok m' →
    (∀ h, h ∈ hs → m'.pnext h = h ∧ m'.pprev h = h ∧ m'.count h = 0) ∧
      ∀ x, x ∉ hs → m'.pnext x = m.pnext x ∧ m'.pprev x = m.pprev x ∧ m'.count x = m.count x := by
  induction hs with
  | nil =>
    intro m m' _ hm
    cases hm
    exact ⟨fun h hh => (nomatch hh), fun x _ => ⟨rfl, rfl, rfl⟩⟩
  | cons a hs ih =>
    intro m m' hnull hm
    have ha : a ≠ NULL := fun he => hnull (he ▸ List.mem_cons_self)
    rw [initAll, utilInitListHead_eq ha, Outcome.ok_bind] at hm
    obtain ⟨hin, hout⟩ := ih _ m' (fun hx => hnull (List.mem_cons_of_mem _ hx)) hm
    refine ⟨fun h hh => ?_, fun x hx => ?_⟩
    · by_cases hmem : h ∈ hs
      · exact hin h hmem
      · obtain rfl := (List.mem_cons.mp hh).resolve_right hmem
        obtain ⟨h1, h2, h3⟩ := hout h hmem
        rw [h1, h2, h3]
        exact ⟨update_self .., update_self .., update_self ..⟩
    · have hxa : x ≠ a := fun he => hx (he ▸ List.mem_cons_self)
      obtain ⟨h1, h2, h3⟩ := hout x fun hmem => hx (List.mem_cons_of_mem _ hmem)
      rw [h1, h2, h3]
      exact ⟨update_of_ne hxa .., update_of_ne hxa .., update_of_ne hxa ..⟩

theorem represents_initialised (hnull : NULL ∉ heads) {s : Mem × (Addr → List Addr)}
    (h : Initialised heads s) : Represents heads s.1 s.2 := by
  obtain ⟨⟨m, hm⟩, hQ⟩ := h
  have hin := (initAll_spec heads m s.1 hnull hm).1
  rw [hQ]
  refine ⟨fun h hh => ?_, fun h _ => List.nodup_singleton h, fun h hh hx => ?_,
    fun h _ h' _ hne x hx hx' => ?_, fun h hh => ?_⟩
  · rw [Links.circular_iff (List.cons_ne_nil _ _)]
    exact ⟨List.isChain_singleton h, (hin h hh).1, (hin h hh).2.1⟩
  · exact hnull (List.mem_singleton.mp hx ▸ hh)
  · exact hne ((List.mem_singleton.mp hx).symm.trans (List.mem_singleton.mp hx'))
  · rw [(hin h hh).2.2]
    rfl

theorem reach_represents (hnull : NULL ∉ heads) {s : Mem × (Addr → List Addr)}
    (h : Reach (Initialised heads) step (Admitted heads) s) : Represents heads s.1 s.2 := by
  refine h.invariant (I := fun s => Represents heads s.1 s.2)
    (fun s hs => represents_initialised hnull hs) ?_
  intro s op s' R hop hs
  obtain ⟨m', hm, R'⟩ := R.step hop
  rw [step, hm] at hs
  cases hs
  exact R'

/-- **The queues are the lists.**  After any run from the initialisation of any number of
queues: the rings, the counts and the nodes of the queues are those of the lists, and every
operation the caller may do next comes back and edits the lists as it should.  Removing a
detached cell changes nothing, and an inserted queue is empty afterwards. -/
theorem queues_represent (hnull : NULL ∉ heads) {s : Mem × (Addr → List Addr)}
    (hr : Reach (Initialised heads) step (Admitted heads) s) :
    Represents heads s.1 s.2 ∧
      (∀ op, Admitted heads s op → ∃ m', queueStep s.1 op = .ok (m', (listStep s.2 op).2) ∧
        step s op = some (m', (listStep s.2 op).1) ∧ Represents heads m' (listStep s.2 op).1) ∧
      (∀ h n, Detached s.1 n → queueStep s.1 (.removeCell h n) = .ok (s.1, NULL)) ∧
      ∀ h i t, Admitted heads s (.insertCellQue h i t) →
        ∃ m', queueStep s.1 (.insertCellQue h i t) = .ok (m', NULL) ∧
          m'.pnext i = i ∧ m'.pprev i = i ∧ m'.count i = 0 := by
  have R := reach_represents hnull hr
  refine ⟨R, fun op hop => ?_, fun h n hd => ?_, fun h i t hop => ?_⟩
  · obtain ⟨m', hm, R'⟩ := R.step hop
    exact ⟨m', hm, by rw [step, hm], R'⟩
  · rw [queueStep, nstRemoveCell_detached hd]
    rfl
  · obtain ⟨m', hm, R'⟩ := R.step hop
    have hi := hop.2.1
    have hempty : (listStep s.2 (.insertCellQue h i t)).1 i = [] := update_self ..
    have hring := R'.circular i hi
    have hcount := R'.count i hi
    rw [hempty] at hring hcount
    rw [Links.circular_iff (List.cons_ne_nil _ _)] at hring
    exact ⟨m', hm, hring.2.1, hring.2.2, UInt16.toNat_inj.mp hcount⟩

/-- Two fresh queues with heads 1 and 2. -/
def freshQueues : Mem × (Addr → List Addr) :=
  (⟨update (update (fun _ => 7) 1 1) 2 2, update (update (fun _ => 7) 1 1) 2 2,
    update (update (fun _ => 7) 1 0) 2 0⟩, fun _ => [])

theorem freshQueues_initialised : Initialised [1, 2] freshQueues :=
  ⟨⟨⟨fun _ => 7, fun _ => 7, fun _ => 7⟩, rfl⟩, rfl⟩

/-- Two cells in the second queue, inserted in front of the one cell of the first. -/
def joinOps : List Op :=
  [.enqueueTail 1 3, .enqueueTail 2 4, .enqueueHead 2 5, .insertCellQue 1 2 0]

theorem queues_represent_join : ∃ s, run step freshQueues joinOps = some s ∧
    Represents [1, 2] s.1 s.2 ∧ s.2 1 = [5, 4, 3] ∧ s.2 2 = [] ∧ s.1.count 1 = 3 := by
  have hnull : NULL ∉ [1, 2] := by decide
  have hok : Along step (Admitted [1, 2]) freshQueues joinOps := by
    refine ⟨⟨by decide, ⟨by decide, by decide⟩, by decide⟩, fun s hs => ?_⟩
    cases hs
    refine ⟨⟨by decide, ⟨by decide, by decide⟩, by decide⟩, fun s hs => ?_⟩
    cases hs
    refine ⟨⟨by decide, ⟨by decide, by decide⟩, by decide⟩, fun s hs => ?_⟩
    cases hs
    exact ⟨⟨by decide, by decide, by decide, by decide⟩, fun s hs => trivial⟩
  have hr : Reach (Initialised [1, 2]) step (Admitted [1, 2]) _ :=
    reach_run joinOps (.start freshQueues_initialised) hok rfl
  exact ⟨_, rfl, (queues_represent hnull hr).1, rfl, rfl, rfl⟩

end Nl6621.Util
