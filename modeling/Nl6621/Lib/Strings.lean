import Nl6621.Lib.Memory
import Nl6621.Lib.While

/-!
# Strings read byte by byte

The object of a C string is its bytes and the terminator.  `charAt` is `s[i]`: behind the terminator
it is a fault, so that a run without a fault has not read past it.  A string lies in an address
space of 32 bits, which bounds its length.

`Block.strcpy` and `Block.strlen` are the two library functions on an allocated object.
-/

namespace Lib

/-- A C string in an address space of 32 bits. -/
structure CString32 extends CString where
  fits : bytes.length < 2 ^ 32

/-- The bytes of the string with the terminator. -/
def CString.obj (s : CString) : List UInt8 := s.bytes ++ [0]

/-- `s[i]` -/
def charAt (obj : List UInt8) (i : Nat) : Outcome UInt8 :=
  match obj[i]? with
  | some c => .ok c
  | none => .fault

variable {s : CString} {i : Nat}

@[simp] theorem CString.length_obj : s.obj.length = s.bytes.length + 1 := by simp [CString.obj]

theorem charAt_of_drop_cons {obj : List UInt8} {c : UInt8} {t : List UInt8}
    (h : obj.drop i = c :: t) : charAt obj i = .ok c := by
  have hc : obj[i]? = some c := by
    rw [← Nat.add_zero i, ← List.getElem?_drop, h]
    rfl
  rw [charAt, hc]

theorem charAt_obj_cons {c : UInt8} {t : List UInt8} (h : s.bytes.drop i = c :: t) :
    charAt s.obj i = .ok c ∧ c ≠ 0 := by
  have hlt : i < s.bytes.length := by
    by_contra hge
    rw [List.drop_of_length_le (Nat.le_of_not_lt hge)] at h
    cases h
  refine ⟨charAt_of_drop_cons (t := t ++ [0]) ?_, fun hc => s.nulFree ?_⟩
  · rw [CString.obj, List.drop_append_of_le_length (Nat.le_of_lt hlt), h]
    rfl
  · rw [← hc]
    exact List.mem_of_mem_drop (h ▸ List.mem_cons_self)

theorem charAt_obj_end (h : i = s.bytes.length) : charAt s.obj i = .ok 0 := by
  subst h
  exact charAt_of_drop_cons (t := []) (List.drop_left ..)

theorem of_charAt_cons {c : UInt8} {t : List UInt8} (h : s.bytes.drop i = c :: t) :
    Fueled.of (charAt s.obj i) = .ok c := by
  rw [(charAt_obj_cons h).1, Fueled.of_ok]

theorem of_charAt_end (h : i = s.bytes.length) : Fueled.of (charAt s.obj i) = .ok 0 := by
  rw [charAt_obj_end h, Fueled.of_ok]

/-- The string behind the place is empty, or starts with a byte that is not the terminator. -/
theorem drop_eq_nil_or_cons (hi : i ≤ s.bytes.length) :
    (s.bytes.drop i = [] ∧ i = s.bytes.length) ∨
      ∃ c, s.bytes.drop i = c :: s.bytes.drop (i + 1) ∧ i < s.bytes.length := by
  rcases Nat.eq_or_lt_of_le hi with he | hlt
  · exact .inl ⟨List.drop_of_length_le (Nat.le_of_eq he.symm), he⟩
  · exact .inr ⟨_, List.drop_eq_getElem_cons hlt, hlt⟩

/-! ### Strings in an object -/

namespace Block

/-- `strcpy(blk, src)` -/
def strcpy (blk : Block) (src : List UInt8) : Outcome Block :=
  if Terminated src then blk.store 0 ((cstr src ++ [0]).map some) else .fault

/-- `strlen(blk)` -/
def strlen : Block → Outcome Nat
  | some c :: rest =>
    if c = 0 then .ok 0
    else do
      let n ← strlen rest
      .ok (n + 1)
  | _ => .fault

theorem Holds.of_append {blk : Block} {bs cs : List UInt8} (h : Holds blk (bs ++ cs)) :
    Holds blk bs := by
  rw [h.eq_append, List.map_append, List.append_assoc]
  exact holds_append bs _

theorem strcpy_holds {blk : Block} {bs : List UInt8} (h0 : (0 : UInt8) ∉ bs)
    (hlen : bs.length + 1 ≤ blk.length) :
    ∃ blk', blk.strcpy (bs ++ [0]) = .ok blk' ∧ Holds blk' (bs ++ [0]) ∧
      blk'.length = blk.length := by
  have hcstr : cstr (bs ++ [0]) = bs := (cstr_append_zero bs []).trans (cstr_of_nulFree h0)
  have hroom : 0 + ((bs ++ [0]).map some).length ≤ blk.length := by
    rw [List.length_map, List.length_append, List.length_singleton]
    omega
  have hend : Terminated (bs ++ [0]) := List.mem_append_right bs List.mem_cons_self
  refine ⟨blk.put 0 ((bs ++ [0]).map some), ?_, holds_put (holds_nil blk) _, length_put hroom⟩
  rw [strcpy, if_pos hend, hcstr, store_ok hroom]

theorem strlen_append {bs : List UInt8} (h0 : (0 : UInt8) ∉ bs) (rest : Block) :
    strlen (bs.map some ++ some 0 :: rest) = .ok bs.length := by
  induction bs with
  | nil => rfl
  | cons b bs ih =>
    have hb : b ≠ 0 := fun hb => h0 (List.mem_cons.mpr (.inl hb.symm))
    rw [List.map_cons, List.cons_append, strlen, if_neg hb,
      ih fun hm => h0 (List.mem_cons_of_mem b hm), Outcome.ok_bind]
    rfl

theorem strlen_of_holds {blk : Block} {bs : List UInt8} (h0 : (0 : UInt8) ∉ bs)
    (h : Holds blk (bs ++ [0])) : blk.strlen = .ok bs.length := by
  rw [h.eq_append, List.map_append, List.append_assoc]
  exact strlen_append h0 _

end Block

end Lib
