import Mathlib.Algebra.Ring.Nat
import Nl6621.Lib.Memory

/-!
# Writing an object from the front

A text is put together in an object by a pointer that only goes forward.  A `Pen` is what has been
written so far and the room that is left; storing behind the end of the object is a fault.  `mark` is
a terminator at the pointer, which stays where it is.

`Writes f bs` says what a piece of code contributes: wherever there is room for `bs` and for one byte
more, it writes `bs`.  The rules put such pieces together, `writes_each` those of a loop whose body
knows whether it is in its last round.
-/

namespace Lib

structure Pen where
  text : List UInt8
  room : Nat
deriving DecidableEq, Repr

namespace Pen

def malloc (n : Nat) : Pen := ⟨[], n⟩

/-- The pen behind the bytes `bs`. -/
def wrote (p : Pen) (bs : List UInt8) : Pen := ⟨p.text ++ bs, p.room - bs.length⟩

def put (bs : List UInt8) (p : Pen) : Outcome Pen :=
  if bs.length ≤ p.room then .ok (p.wrote bs) else .fault

def mark (p : Pen) : Outcome Pen := if 0 < p.room then .ok p else .fault

/-- The string at the start of the object. -/
def str (p : Pen) : CString := ⟨cstr p.text, nulFree_cstr p.text⟩

/-- A loop over `l`; the body is told whether another round follows. -/
def each {α : Type} (f : Bool → α → Pen → Outcome Pen) : List α → Pen → Outcome Pen
  | [], p => .ok p
  | a :: l, p => (f (!l.isEmpty) a p).bind (each f l)

variable {α : Type} {p : Pen} {f g : Pen → Outcome Pen} {bs cs : List UInt8}

@[simp] theorem wrote_nil (p : Pen) : p.wrote [] = p := by
  rw [wrote, List.append_nil, List.length_nil, Nat.sub_zero]

@[simp] theorem wrote_wrote (p : Pen) (bs cs : List UInt8) :
    (p.wrote bs).wrote cs = p.wrote (bs ++ cs) := by
  simp only [wrote, List.append_assoc, List.length_append, Nat.sub_sub]

@[simp] theorem room_wrote (p : Pen) (bs : List UInt8) :
    (p.wrote bs).room = p.room - bs.length := rfl

@[simp] theorem text_wrote (p : Pen) (bs : List UInt8) : (p.wrote bs).text = p.text ++ bs := rfl

@[simp] theorem room_malloc (n : Nat) : (malloc n).room = n := rfl

@[simp] theorem text_malloc (n : Nat) : (malloc n).text = [] := rfl

theorem put_ok (h : bs.length ≤ p.room) : p.put bs = .ok (p.wrote bs) := if_pos h

theorem mark_ok (h : 0 < p.room) : p.mark = .ok p := if_pos h

theorem str_wrote_zero (h : (0 : UInt8) ∉ p.text ++ bs) :
    (p.wrote (bs ++ [0])).str = ⟨p.text ++ bs, h⟩ := by
  have hcstr : cstr (p.text ++ (bs ++ [0])) = p.text ++ bs := by
    rw [← List.append_assoc, cstr_append_zero, cstr_of_nulFree h]
  unfold str
  simp only [text_wrote, hcstr]

/-! ### What a piece of code writes -/

def Writes (f : Pen → Outcome Pen) (bs : List UInt8) : Prop :=
  ∀ p : Pen, bs.length < p.room → f p = .ok (p.wrote bs)

theorem writes_put (bs : List UInt8) : Writes (put bs) bs := by
  intro p h
  exact put_ok (Nat.le_of_lt h)

theorem writes_mark : Writes mark [] := by
  intro p h
  rw [wrote_nil]
  exact mark_ok h

theorem writes_none : Writes .ok [] := by
  intro p _
  rw [wrote_nil]

theorem Writes.andThen (hf : Writes f bs) (hg : Writes g cs) :
    Writes (fun p => (f p).bind g) (bs ++ cs) := by
  intro p h
  rw [List.length_append] at h
  have hroom : cs.length < (p.wrote bs).room := by
    rw [room_wrote]
    omega
  have hfirst : f p = .ok (p.wrote bs) := hf p (by omega)
  show (f p).bind g = _
  rw [hfirst, Outcome.bind, hg _ hroom, wrote_wrote]

theorem Writes.marked (hf : Writes f bs) : Writes (fun p => (f p).bind mark) bs := by
  have h := hf.andThen writes_mark
  rwa [List.append_nil] at h

/-- `if (c) ..` -/
theorem writes_ite {c : Bool} (hf : Writes f bs) :
    Writes (fun p => if c then f p else .ok p) (if c then bs else []) := by
  cases c with
  | true => exact hf
  | false => exact writes_none

/-- What the rounds of a loop write. -/
def joined (g : Bool → α → List UInt8) : List α → List UInt8
  | [] => []
  | a :: l => g (!l.isEmpty) a ++ joined g l

/-- **A loop writes what its rounds write.** -/
theorem writes_each {f : Bool → α → Pen → Outcome Pen} {g : Bool → α → List UInt8} {l : List α}
    (h : ∀ more, ∀ a ∈ l, Writes (f more a) (g more a)) : Writes (each f l) (joined g l) := by
  induction l with
  | nil => exact writes_none
  | cons a l ih =>
    have hfirst : Writes (f (!l.isEmpty) a) (g (!l.isEmpty) a) := h _ a List.mem_cons_self
    have hrest : Writes (each f l) (joined g l) :=
      ih fun more b hb => h more b (List.mem_cons_of_mem a hb)
    exact hfirst.andThen hrest

theorem mem_joined {g : Bool → α → List UInt8} {l : List α} {b : UInt8} (h : b ∈ joined g l) :
    ∃ more, ∃ a ∈ l, b ∈ g more a := by
  induction l with
  | nil => cases h
  | cons a l ih =>
    rcases List.mem_append.mp h with h | h
    · exact ⟨_, a, List.mem_cons_self, h⟩
    · obtain ⟨more, c, hc, hb⟩ := ih h
      exact ⟨more, c, List.mem_cons_of_mem a hc, hb⟩

/-- The rounds fit when each of them does. -/
theorem length_joined_le {g : Bool → α → List UInt8} {l : List α} (size : α → Nat)
    (h : ∀ more, ∀ a ∈ l, (g more a).length ≤ size a) :
    (joined g l).length ≤ (l.map size).sum := by
  induction l with
  | nil => exact Nat.le_refl 0
  | cons a l ih =>
    have hfirst := h (!l.isEmpty) a List.mem_cons_self
    have hrest := ih fun more b hb => h more b (List.mem_cons_of_mem a hb)
    rw [joined, List.length_append, List.map_cons, List.sum_cons]
    omega

/-- **A text that is put into an object with its terminator is the string there.** -/
theorem Writes.string (hf : Writes f bs) {n : Nat} (hroom : bs.length + cs.length + 1 ≤ n)
    (h0 : (0 : UInt8) ∉ bs ++ cs) {β : Type} (k : CString → Outcome β) :
    ((f (malloc n)).bind fun p => (p.put (cs ++ [0])).bind fun p => k p.str) = k ⟨bs ++ cs, h0⟩ := by
  have hfirst : f (malloc n) = .ok ((malloc n).wrote bs) := hf _ (by
    rw [room_malloc]
    omega)
  have hput : ((malloc n).wrote bs).put (cs ++ [0]) = .ok (((malloc n).wrote bs).wrote (cs ++ [0])) :=
    put_ok (by
      rw [room_wrote, room_malloc, List.length_append, List.length_singleton]
      omega)
  have hstr : (((malloc n).wrote bs).wrote (cs ++ [0])).str = ⟨bs ++ cs, h0⟩ := str_wrote_zero h0
  simp only [hfirst, hput, hstr, Outcome.bind]

end Pen

end Lib
