import Mathlib.Tactic.Common
import Nl6621.Lib.Call

/-!
# One memory for many pointers

Code that is handed pointers works on whatever lies there, and its pointers may be equal or point
into each other.  `Ram` is the memory that they all point into, an address is an index, and an
access outside of it is a fault.

`At m p bs` says that the bytes `bs` lie at `p`.  Everything about the accesses is said with it: what
lies somewhere is loaded (`load_of_at`), what is stored lies there (`at_put`), and what lies apart from
that still does (`at_put_apart`).
-/

namespace Lib

abbrev Ram := List UInt8

namespace Ram

def put (m : Ram) (p : Nat) (bs : List UInt8) : Ram := m.take p ++ bs ++ m.drop (p + bs.length)

def load (m : Ram) (p n : Nat) : Outcome (List UInt8) :=
  if p + n ≤ m.length then .ok ((m.drop p).take n) else .fault

def store (m : Ram) (p : Nat) (bs : List UInt8) : Outcome Ram :=
  if p + bs.length ≤ m.length then .ok (m.put p bs) else .fault

/-- The two ranges have no byte in common. -/
def Apart (p n q k : Nat) : Prop := p + n ≤ q ∨ q + k ≤ p

instance (p n q k : Nat) : Decidable (Apart p n q k) := by unfold Apart; infer_instance

/-- The ranges must not overlap. -/
def memcpy (m : Ram) (dst src n : Nat) : Outcome Ram :=
  if Apart dst n src n then (m.load src n).bind (m.store dst) else .fault

/-- The bytes lie there. -/
def At (m : Ram) (p : Nat) (bs : List UInt8) : Prop :=
  ∀ i, i < bs.length → m[p + i]? = bs[i]?

section

variable {m : Ram} {p q n k : Nat} {b : UInt8} {bs cs : List UInt8}

theorem apart_comm : Apart p n q k ↔ Apart q k p n := or_comm

@[simp] theorem at_nil : At m p [] := fun i hi => absurd hi (Nat.not_lt_zero i)

theorem at_append : At m p (bs ++ cs) ↔ At m p bs ∧ At m (p + bs.length) cs := by
  constructor
  · intro h
    refine ⟨fun i hi => ?_, fun i hi => ?_⟩
    · have hlt : i < (bs ++ cs).length := by
        rw [List.length_append]
        omega
      rw [h i hlt, List.getElem?_append_left hi]
    · have hlt : bs.length + i < (bs ++ cs).length := by
        rw [List.length_append]
        omega
      rw [Nat.add_assoc, h _ hlt, List.getElem?_append_right (Nat.le_add_right ..),
        Nat.add_sub_cancel_left]
  · rintro ⟨hb, hc⟩ i hi
    rw [List.length_append] at hi
    by_cases hlt : i < bs.length
    · rw [hb i hlt, List.getElem?_append_left hlt]
    · have hi' : p + i = p + bs.length + (i - bs.length) := by omega
      rw [hi', hc _ (by omega), List.getElem?_append_right (Nat.not_lt.mp hlt)]

theorem at_cons : At m p (b :: bs) ↔ At m p [b] ∧ At m (p + 1) bs := @at_append m p [b] bs

theorem At.le_length (h : At m p bs) (hbs : bs ≠ []) : p + bs.length ≤ m.length := by
  have hpos := List.length_pos_iff.mpr hbs
  have hlast := h (bs.length - 1) (by omega)
  rw [List.getElem?_eq_getElem (by omega : bs.length - 1 < bs.length)] at hlast
  obtain ⟨hlt, -⟩ := List.getElem?_eq_some_iff.mp hlast
  omega

theorem at_drop : At m p ((m.drop p).take n) := by
  intro i hi
  rw [List.length_take, List.length_drop] at hi
  rw [List.getElem?_take_of_lt (by omega), List.getElem?_drop]

/-- Only one thing of a length lies somewhere. -/
theorem At.unique (hb : At m p bs) (hc : At m p cs) (hlen : bs.length = cs.length) : bs = cs := by
  apply List.ext_getElem?
  intro i
  by_cases hi : i < bs.length
  · rw [← hb i hi, ← hc i (hlen ▸ hi)]
  · rw [List.getElem?_eq_none (by omega), List.getElem?_eq_none (by omega)]

theorem load_of_at (h : At m p bs) (hbs : bs ≠ []) : m.load p bs.length = .ok bs := by
  have hle := h.le_length hbs
  rw [load, if_pos hle]
  congr 1
  refine at_drop.unique h ?_
  rw [List.length_take, List.length_drop]
  omega

theorem store_of_le (h : p + bs.length ≤ m.length) : m.store p bs = .ok (m.put p bs) := if_pos h

theorem length_put (h : p + bs.length ≤ m.length) : (m.put p bs).length = m.length := by
  rw [put, List.length_append, List.length_append, List.length_take, List.length_drop]
  omega

theorem at_put (h : p + bs.length ≤ m.length) : At (m.put p bs) p bs := by
  intro i hi
  have hlen : (m.take p).length = p := by
    rw [List.length_take]
    omega
  rw [put, List.append_assoc, List.getElem?_append_right (by omega), hlen, Nat.add_sub_cancel_left,
    List.getElem?_append_left hi]

theorem getElem?_put_of_not (h : p + bs.length ≤ m.length) {x : Nat}
    (hx : x < p ∨ p + bs.length ≤ x) : (m.put p bs)[x]? = m[x]? := by
  have hlen : (m.take p).length = p := by
    rw [List.length_take]
    omega
  rw [put, List.append_assoc]
  rcases hx with hx | hx
  · rw [List.getElem?_append_left (by omega), List.getElem?_take_of_lt hx]
  · rw [List.getElem?_append_right (by omega), hlen, List.getElem?_append_right (by omega),
      List.getElem?_drop]
    congr 1
    omega

theorem at_put_apart (h : p + bs.length ≤ m.length) (ha : Apart q cs.length p bs.length) :
    At (m.put p bs) q cs ↔ At m q cs := by
  refine forall_congr' fun i => forall_congr' fun hi => ?_
  rw [getElem?_put_of_not h]
  rcases ha with ha | ha
  · exact .inl (by omega)
  · exact .inr (by omega)

/-- Two stores next to each other are one. -/
theorem put_append (h : p + (bs ++ cs).length ≤ m.length) :
    (m.put p bs).put (p + bs.length) cs = m.put p (bs ++ cs) := by
  rw [List.length_append] at h
  have hput : (m.put p bs).length = m.length := length_put (by omega)
  apply List.ext_getElem?
  intro x
  by_cases hc : p + bs.length ≤ x ∧ x < p + bs.length + cs.length
  · have hb := (at_append.mp (@at_put m p (bs ++ cs) (by rw [List.length_append]; omega))).2
    have hc' := @at_put (m.put p bs) (p + bs.length) cs (by omega)
    obtain ⟨i, rfl⟩ := Nat.exists_eq_add_of_le hc.1
    rw [hb i (by omega), hc' i (by omega)]
  · rw [getElem?_put_of_not (by omega) (by omega)]
    by_cases hb : p ≤ x ∧ x < p + bs.length
    · have hb' := (at_append.mp (@at_put m p (bs ++ cs) (by rw [List.length_append]; omega))).1
      obtain ⟨i, rfl⟩ := Nat.exists_eq_add_of_le hb.1
      rw [hb' i (by omega), @at_put m p bs (by omega) i (by omega)]
    · rw [getElem?_put_of_not (by omega) (by omega),
        getElem?_put_of_not (by rw [List.length_append]; omega)
          (by rw [List.length_append]; omega)]

/-- The same in the other order. -/
theorem put_append' (h : p + (bs ++ cs).length ≤ m.length) :
    (m.put (p + bs.length) cs).put p bs = m.put p (bs ++ cs) := by
  rw [List.length_append] at h
  have hput : (m.put (p + bs.length) cs).length = m.length := length_put (by omega)
  have hall := at_append.mp (@at_put m p (bs ++ cs) (by rw [List.length_append]; omega))
  apply List.ext_getElem?
  intro x
  by_cases hb : p ≤ x ∧ x < p + bs.length
  · obtain ⟨i, rfl⟩ := Nat.exists_eq_add_of_le hb.1
    rw [hall.1 i (by omega), at_put (by omega) i (by omega)]
  · rw [getElem?_put_of_not (by omega) (by omega)]
    by_cases hc : p + bs.length ≤ x ∧ x < p + bs.length + cs.length
    · obtain ⟨i, rfl⟩ := Nat.exists_eq_add_of_le hc.1
      rw [hall.2 i (by omega), at_put (by omega) i (by omega)]
    · rw [getElem?_put_of_not (by omega) (by omega),
        getElem?_put_of_not (by rw [List.length_append]; omega)
          (by rw [List.length_append]; omega)]

theorem put_put (h : p + cs.length ≤ m.length) (hlen : bs.length = cs.length) :
    (m.put p bs).put p cs = m.put p cs := by
  have hput : (m.put p bs).length = m.length := length_put (by omega)
  apply List.ext_getElem?
  intro x
  by_cases hx : p ≤ x ∧ x < p + cs.length
  · obtain ⟨i, rfl⟩ := Nat.exists_eq_add_of_le hx.1
    rw [at_put (by omega) i (by omega), at_put h i (by omega)]
  · rw [getElem?_put_of_not (by omega) (by omega), getElem?_put_of_not (by omega) (by omega),
      getElem?_put_of_not h (by omega)]

/-- Storing what is there changes nothing. -/
theorem put_of_at (h : At m p bs) (hle : p + bs.length ≤ m.length) : m.put p bs = m := by
  apply List.ext_getElem?
  intro x
  by_cases hx : p ≤ x ∧ x < p + bs.length
  · obtain ⟨i, rfl⟩ := Nat.exists_eq_add_of_le hx.1
    rw [at_put hle i (by omega), h i (by omega)]
  · exact getElem?_put_of_not hle (by omega)

theorem put_nil (m : Ram) (p : Nat) : m.put p [] = m := by
  rw [put, List.append_nil]
  exact List.take_append_drop p m

theorem memcpy_of_at (h : At m q bs) (hbs : bs ≠ []) (hle : p + bs.length ≤ m.length)
    (ha : Apart p bs.length q bs.length) : m.memcpy p q bs.length = .ok (m.put p bs) := by
  rw [memcpy, if_pos ha, load_of_at h hbs]
  exact store_of_le hle

end

end Ram

end Lib
