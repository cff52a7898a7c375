import Mathlib.Data.List.Cycle
import Mathlib.Logic.Function.Basic
import Nl6621.Lib.Call
import Nl6621.Lib.Circular

/-!
# Queues of cells

The circular doubly linked lists of `util.h` and the cell queues of `task_util.h`.  A queue's
head is a node too: `NST_list_head` and `NST_Cell` both begin with the links of
`NST_linked_list`, so one pair of link functions serves for heads and nodes, and the pointer
casts of the source are the identity.  The locks are left out: an operation is one step here.

Every operation has one equation that says what it writes when no pointer it follows is
`NULL`.  Nothing else in the proofs looks at the order of the writes.
-/

namespace Nl6621.Util

open Lib Function

abbrev Addr := Nat

def NULL : Addr := 0

def NST_TRUE : UInt8 := 1

/-- The links of all nodes and heads, and the counts of the heads. -/
structure Mem where
  pprev : Addr → Addr
  pnext : Addr → Addr
  count : Addr → UInt16

namespace Mem

def links (m : Mem) : Links Addr := ⟨m.pnext, m.pprev⟩

variable (m : Mem) (p : Addr)

def getPrev : Outcome Addr := if p = NULL then .fault else .ok (m.pprev p)

def getNext : Outcome Addr := if p = NULL then .fault else .ok (m.pnext p)

def getCount : Outcome UInt16 := if p = NULL then .fault else .ok (m.count p)

def setPrev (v : Addr) : Outcome Mem :=
  if p = NULL then .fault else .ok { m with pprev := update m.pprev p v }

def setNext (v : Addr) : Outcome Mem :=
  if p = NULL then .fault else .ok { m with pnext := update m.pnext p v }

def setCount (c : UInt16) : Outcome Mem :=
  if p = NULL then .fault else .ok { m with count := update m.count p c }

end Mem

/-! ### `util.h` -/

def utilInitList (phead : Addr) (m : Mem) : Outcome Mem := do
  let m ← m.setNext phead phead
  m.setPrev phead phead

def utilInitListHead (phead : Addr) (m : Mem) : Outcome Mem := do
  let m ← utilInitList phead m
  m.setCount phead 0

def utilEnqueueListTail (phead pnode : Addr) (m : Mem) : Outcome Mem := do
  let pold_last ← m.getPrev phead
  let m ← m.setPrev pnode pold_last
  let m ← m.setNext pnode phead
  let m ← m.setNext pold_last pnode
  let m ← m.setPrev phead pnode
  let count ← m.getCount phead
  m.setCount phead (count + 1)

def utilEnqueueListHead (phead pnode : Addr) (m : Mem) : Outcome Mem := do
  let pold_first ← m.getNext phead
  let m ← m.setPrev pnode phead
  let m ← m.setNext pnode pold_first
  let m ← m.setPrev pold_first pnode
  let m ← m.setNext phead pnode
  let count ← m.getCount phead
  m.setCount phead (count + 1)

def utilUnlinkList (phead pnode : Addr) (m : Mem) : Outcome Mem := do
  let pmy_prev ← m.getPrev pnode
  let pmy_next ← m.getNext pnode
  let m ← m.setPrev pmy_next pmy_prev
  let m ← m.setNext pmy_prev pmy_next
  let count ← m.getCount phead
  let m ← m.setCount phead (count - 1)
  let m ← m.setPrev pnode NULL
  m.setNext pnode NULL

def utilDequeueList (phead : Addr) (m : Mem) : Outcome (Mem × Addr) := do
  let pnode ← m.getNext phead
  if pnode ≠ NULL ∧ pnode ≠ phead then
    let m ← utilUnlinkList phead pnode m
    .ok (m, pnode)
  else .ok (m, NULL)

/-! ### `task_util.h` -/

def nstFreeCell (pFreeQueHead pCell : Addr) (m : Mem) : Outcome Mem :=
  utilEnqueueListTail pFreeQueHead pCell m

def nstRemoveCell (pQueHead pCell : Addr) (m : Mem) : Outcome Mem :=
  if pCell ≠ NULL ∧ m.pnext pCell ≠ NULL ∧ m.pprev pCell ≠ NULL then
    utilUnlinkList pQueHead pCell m
  else .ok m

def nstInsertCell (pQueHead pCell : Addr) (addTail : UInt8) (m : Mem) : Outcome Mem :=
  if addTail = NST_TRUE then utilEnqueueListTail pQueHead pCell m
  else utilEnqueueListHead pQueHead pCell m

def nstInsertCellQue (pQueHead pInsertedQueHead : Addr) (AddTail : UInt8) (m : Mem) : Outcome Mem := do
  let inserted ← m.getCount pInsertedQueHead
  if inserted = 0 then .ok m
  else
    let m ←
      if AddTail = NST_TRUE then do
        let pQueLastCell ← m.getPrev pQueHead
        let pInsertedQueFirstCell ← m.getNext pInsertedQueHead
        let pInsertedQueLastCell ← m.getPrev pInsertedQueHead
        let m ← m.setNext pQueLastCell pInsertedQueFirstCell
        let m ← m.setPrev pInsertedQueFirstCell pQueLastCell
        let m ← m.setPrev pQueHead pInsertedQueLastCell
        m.setNext pInsertedQueLastCell pQueHead
      else do
        let pQueFirstCell ← m.getNext pQueHead
        let pInsertedQueLastCell ← m.getPrev pInsertedQueHead
        let pInsertedQueFirstCell ← m.getNext pInsertedQueHead
        let m ← m.setNext pInsertedQueLastCell pQueFirstCell
        let m ← m.setPrev pQueFirstCell pInsertedQueLastCell
        let m ← m.setNext pQueHead pInsertedQueFirstCell
        m.setPrev pInsertedQueFirstCell pQueHead
    let count ← m.getCount pQueHead
    let inserted ← m.getCount pInsertedQueHead
    let m ← m.setCount pQueHead (count + inserted)
    let m ← m.setPrev pInsertedQueHead pInsertedQueHead
    let m ← m.setNext pInsertedQueHead pInsertedQueHead
    m.setCount pInsertedQueHead 0

/-! ### What they write -/

section

variable {m : Mem} {h n i : Addr}

attribute [local simp] Mem.getPrev Mem.getNext Mem.getCount Mem.setPrev Mem.setNext Mem.setCount

theorem utilInitListHead_eq (hh : h ≠ NULL) : utilInitListHead h m =
    .ok ⟨update m.pprev h h, update m.pnext h h, update m.count h 0⟩ := by
  simp [utilInitListHead, utilInitList, hh]

theorem utilEnqueueListTail_eq (hh : h ≠ NULL) (hn : n ≠ NULL) (hl : m.pprev h ≠ NULL) :
    utilEnqueueListTail h n m = .ok ⟨update (update m.pprev n (m.pprev h)) h n,
      update (update m.pnext n h) (m.pprev h) n, update m.count h (m.count h + 1)⟩ := by
  simp [utilEnqueueListTail, hh, hn, hl]

theorem utilEnqueueListHead_eq (hh : h ≠ NULL) (hn : n ≠ NULL) (hf : m.pnext h ≠ NULL) :
    utilEnqueueListHead h n m = .ok ⟨update (update m.pprev n h) (m.pnext h) n,
      update (update m.pnext n (m.pnext h)) h n, update m.count h (m.count h + 1)⟩ := by
  simp [utilEnqueueListHead, hh, hn, hf]

theorem utilUnlinkList_eq (hh : h ≠ NULL) (hn : n ≠ NULL) (hp : m.pprev n ≠ NULL)
    (hx : m.pnext n ≠ NULL) : utilUnlinkList h n m =
      .ok ⟨update (update m.pprev (m.pnext n) (m.pprev n)) n NULL,
        update (update m.pnext (m.pprev n) (m.pnext n)) n NULL,
        update m.count h (m.count h - 1)⟩ := by
  simp [utilUnlinkList, hh, hn, hp, hx]

theorem nstInsertCellQue_tail (hh : h ≠ NULL) (hi : i ≠ NULL) (hc : m.count i ≠ 0)
    (hl : m.pprev h ≠ NULL) (hf : m.pnext i ≠ NULL) (hil : m.pprev i ≠ NULL) :
    nstInsertCellQue h i NST_TRUE m =
      .ok ⟨update (update (update m.pprev (m.pnext i) (m.pprev h)) h (m.pprev i)) i i,
        update (update (update m.pnext (m.pprev h) (m.pnext i)) (m.pprev i) h) i i,
        update (update m.count h (m.count h + m.count i)) i 0⟩ := by
  simp [nstInsertCellQue, hh, hi, hc, hl, hf, hil]

theorem nstInsertCellQue_head {t : UInt8} (ht : t ≠ NST_TRUE) (hh : h ≠ NULL) (hi : i ≠ NULL)
    (hc : m.count i ≠ 0) (hf : m.pnext h ≠ NULL) (hif : m.pnext i ≠ NULL) (hil : m.pprev i ≠ NULL) :
    nstInsertCellQue h i t m =
      .ok ⟨update (update (update m.pprev (m.pnext h) (m.pprev i)) (m.pnext i) h) i i,
        update (update (update m.pnext (m.pprev i) (m.pnext h)) h (m.pnext i)) i i,
        update (update m.count h (m.count h + m.count i)) i 0⟩ := by
  simp [nstInsertCellQue, ht, hh, hi, hc, hf, hif, hil]

end

/-! ### The queues in memory -/

/-- The heads have their lists: every head and the nodes of its list are a ring, no node is
in two of them, and the counts are the lengths. -/
structure Represents (heads : List Addr) (m : Mem) (Q : Addr → List Addr) : Prop where
  circular : ∀ h ∈ heads, m.links.Circular (h :: Q h)
  nodup : ∀ h ∈ heads, (h :: Q h).Nodup
  nonnull : ∀ h ∈ heads, NULL ∉ h :: Q h
  disjoint : ∀ h ∈ heads, ∀ h' ∈ heads, h ≠ h' → (h :: Q h).Disjoint (h' :: Q h')
  count : ∀ h ∈ heads, (m.count h).toNat = (Q h).length

/-- A node of no queue. -/
def Free (heads : List Addr) (Q : Addr → List Addr) (n : Addr) : Prop :=
  n ≠ NULL ∧ ∀ h ∈ heads, n ∉ h :: Q h

section

variable {heads : List Addr} {m m' : Mem} {Q : Addr → List Addr} {h i n x : Addr} {ys : List Addr}

namespace Represents

/-- An edit of one queue. -/
theorem change (R : Represents heads m Q) (hh : h ∈ heads)
    (hcirc : m'.links.Circular (h :: ys)) (hnd : (h :: ys).Nodup)
    (hys : ∀ x ∈ ys, x ∈ Q h ∨ Free heads Q x) (hcount : (m'.count h).toNat = ys.length)
    (hframe : ∀ h' ∈ heads, h' ≠ h → m'.count h' = m.count h' ∧
      ∀ x ∈ h' :: Q h', m'.pnext x = m.pnext x ∧ m'.pprev x = m.pprev x) :
    Represents heads m' (update Q h ys) := by
  have hnull : NULL ∉ h :: ys := by
    intro hx
    rcases List.mem_cons.mp hx with hx | hx
    · exact R.nonnull h hh (hx ▸ List.mem_cons_self)
    · rcases hys _ hx with hx | hx
      · exact R.nonnull h hh (List.mem_cons_of_mem _ hx)
      · exact hx.1 rfl
  have hdis : ∀ h' ∈ heads, h ≠ h' → (h :: ys).Disjoint (h' :: Q h') := by
    intro h' hh' hne x hx hx'
    have hd := R.disjoint h hh h' hh' hne
    rcases List.mem_cons.mp hx with rfl | hx
    · exact hd List.mem_cons_self hx'
    · rcases hys x hx with hx | hx
      · exact hd (List.mem_cons_of_mem _ hx) hx'
      · exact hx.2 h' hh' hx'
  refine ⟨fun a ha => ?_, fun a ha => ?_, fun a ha => ?_, fun a ha b hb hab => ?_, fun a ha => ?_⟩
  all_goals by_cases hah : a = h
  · subst hah
    rw [update_self]
    exact hcirc
  · rw [update_of_ne hah]
    exact (R.circular a ha).congr (fun x hx => ((hframe a ha hah).2 x hx).1)
      (fun x hx => ((hframe a ha hah).2 x hx).2)
  · subst hah
    rw [update_self]
    exact hnd
  · rw [update_of_ne hah]
    exact R.nodup a ha
  · subst hah
    rw [update_self]
    exact hnull
  · rw [update_of_ne hah]
    exact R.nonnull a ha
  · subst hah
    rw [update_self, update_of_ne (Ne.symm hab)]
    exact hdis b hb hab
  · by_cases hbh : b = h
    · subst hbh
      rw [update_self, update_of_ne hah]
      exact (hdis a ha (Ne.symm hab)).symm
    · rw [update_of_ne hah, update_of_ne hbh]
      exact R.disjoint a ha b hb hab
  · subst hah
    rw [update_self]
    exact hcount
  · rw [update_of_ne hah, (hframe a ha hah).1]
    exact R.count a ha

theorem ne_null (R : Represents heads m Q) (hh : h ∈ heads) (hx : x ∈ h :: Q h) : x ≠ NULL := by
  rintro rfl
  exact R.nonnull h hh hx

/-- The last node of a queue, or its head when it is empty. -/
theorem pprev_head (R : Represents heads m Q) (hh : h ∈ heads) :
    m.pprev h = (h :: Q h).getLast (List.cons_ne_nil _ _) :=
  (R.circular h hh).prev_head

theorem pnext_head (R : Represents heads m Q) (hh : h ∈ heads) :
    m.pnext h = (Q h ++ [h]).head (List.append_ne_nil_of_right_ne_nil _ (List.cons_ne_nil _ _)) :=
  (R.circular h hh).next_head

theorem pprev_mem (R : Represents heads m Q) (hh : h ∈ heads) : m.pprev h ∈ h :: Q h := by
  rw [R.pprev_head hh]
  exact List.getLast_mem _

theorem pnext_mem (R : Represents heads m Q) (hh : h ∈ heads) : m.pnext h ∈ h :: Q h := by
  have hmem : m.pnext h ∈ Q h ++ [h] := by
    rw [R.pnext_head hh]
    exact List.head_mem _
  rcases List.mem_append.mp hmem with hx | hx
  · exact List.mem_cons_of_mem _ hx
  · rw [List.mem_singleton.mp hx]
    exact List.mem_cons_self

/-- Nodes of different queues are different. -/
theorem ne_of_ne (R : Represents heads m Q) (hh : h ∈ heads) (hi : i ∈ heads) (hne : i ≠ h)
    (hx : x ∈ i :: Q i) (hn : n ∈ h :: Q h) : x ≠ n := by
  rintro rfl
  exact R.disjoint i hi h hh hne hx hn

end Represents

end

end Nl6621.Util
