import Mathlib.Algebra.Group.Nat.Defs
import Mathlib.Data.List.TakeWhile
import Nl6621.Lib.Call

/-!
# Allocated objects, C strings and 32-bit words

An allocated object is a `Block`, one cell for each of its bytes; a cell is
`none` from `malloc` until something is stored in it.  `load` and `store` are
the two accesses.  Both fault as soon as one byte of the range lies outside the
object, so a run that does not fault has stayed inside.  `read` loads a range
and uses its values, which an indeterminate cell does not have.

`Holds blk bs` says that the object starts with the bytes `bs`.  It is what a
buffer filled from the front keeps, and `holds_put` and `read_of_holds` are the
two ways it is used: storing behind `bs` extends it, and a range inside `bs`
reads back.

`CString` is a C string without its terminator.  `cstr` goes the other way and
reads the string a block of bytes starts with.
-/

namespace Lib

/-! ### 32-bit unsigned arithmetic -/

/-- Truncation to `uint32`. -/
def u32 (n : Nat) : Nat := n % 2 ^ 32

/-- Subtraction of `uint32` values, which wraps around. -/
def sub32 (a b : Nat) : Nat := (a + (2 ^ 32 - b % 2 ^ 32)) % 2 ^ 32

theorem u32_of_lt {n : Nat} (h : n < 2 ^ 32) : u32 n = n := Nat.mod_eq_of_lt h

theorem sub32_of_le {a b : Nat} (ha : a < 2 ^ 32) (h : b ≤ a) : sub32 a b = a - b := by
  unfold sub32; omega

/-! ### Objects -/

/-- One byte of an object, `none` while it is indeterminate. -/
abbrev Cell := Option UInt8

/-- An allocated object, one cell for each byte. -/
abbrev Block := List Cell

namespace Block

/-- A fresh object: nothing has been stored in it. -/
def malloc (n : Nat) : Block := List.replicate n none

/-- The object with `cells` laid over it from `off` on. -/
def put (blk : Block) (off : Nat) (cells : Block) : Block :=
  blk.take off ++ cells ++ blk.drop (off + cells.length)

def load (blk : Block) (off n : Nat) : Outcome Block :=
  if off + n ≤ blk.length then .ok ((blk.drop off).take n) else .fault

def store (blk : Block) (off : Nat) (cells : Block) : Outcome Block :=
  if off + cells.length ≤ blk.length then .ok (blk.put off cells) else .fault

/-- The values of cells that are all determinate. -/
def values : Block → Option (List UInt8)
  | [] => some []
  | c :: rest => c.bind fun b => (values rest).map (b :: ·)

def read (blk : Block) (off n : Nat) : Outcome (List UInt8) :=
  (blk.load off n).bind fun cells =>
    match values cells with
    | some bs => .ok bs
    | none => .fault

/-- The value of one byte. -/
def byteAt (blk : Block) (i : Nat) : Outcome UInt8 :=
  match blk[i]? with
  | some (some b) => .ok b
  | _ => .fault

/-- The object starts with the bytes `bs`. -/
def Holds (blk : Block) (bs : List UInt8) : Prop := blk.take bs.length = bs.map some

@[simp] theorem length_malloc (n : Nat) : (malloc n).length = n := List.length_replicate

@[simp] theorem values_map_some (bs : List UInt8) : values (bs.map some) = some bs := by
  induction bs with
  | nil => rfl
  | cons b bs ih => simp [values, ih]

theorem length_put {blk cells : Block} {off : Nat} (h : off + cells.length ≤ blk.length) :
    (blk.put off cells).length = blk.length := by
  simp only [put, List.length_append, List.length_take, List.length_drop]
  omega

theorem getElem?_put_inside {blk cells : Block} {off k : Nat} (h : off ≤ blk.length)
    (hk : off ≤ k) (hk' : k < off + cells.length) : (blk.put off cells)[k]? = cells[k - off]? := by
  have hlen : (blk.take off).length = off := by rw [List.length_take]; omega
  rw [put, List.append_assoc, List.getElem?_append_right (by omega), hlen,
    List.getElem?_append_left (by omega)]

theorem getElem?_put_outside {blk cells : Block} {off k : Nat} (h : off + cells.length ≤ blk.length)
    (hk : k < off ∨ off + cells.length ≤ k) : (blk.put off cells)[k]? = blk[k]? := by
  have hlen : (blk.take off).length = off := by rw [List.length_take]; omega
  rw [put, List.append_assoc]
  rcases hk with hk | hk
  · rw [List.getElem?_append_left (by omega), List.getElem?_take_of_lt hk]
  · rw [List.getElem?_append_right (by omega), hlen, List.getElem?_append_right (by omega),
      List.getElem?_drop]
    congr 1
    omega

theorem store_ok {blk cells : Block} {off : Nat} (h : off + cells.length ≤ blk.length) :
    blk.store off cells = .ok (blk.put off cells) := by rw [store, if_pos h]

theorem store_fault {blk cells : Block} {off : Nat} (h : blk.length < off + cells.length) :
    blk.store off cells = .fault := by rw [store, if_neg (by omega)]

theorem read_fault {blk : Block} {off n : Nat} (h : blk.length < off + n) :
    blk.read off n = .fault := by
  rw [read, load, if_neg (by omega)]; rfl

@[simp] theorem holds_nil (blk : Block) : Holds blk [] := by simp [Holds]

theorem Holds.length_le {blk : Block} {bs : List UInt8} (h : Holds blk bs) :
    bs.length ≤ blk.length := by
  have := congrArg List.length h
  simp only [List.length_take, List.length_map] at this
  omega

theorem Holds.eq_append {blk : Block} {bs : List UInt8} (h : Holds blk bs) :
    blk = bs.map some ++ blk.drop bs.length := by
  rw [← h, List.take_append_drop]

theorem holds_append (bs : List UInt8) (tail : Block) : Holds (bs.map some ++ tail) bs := by
  simp [Holds]

theorem holds_iff {blk : Block} {bs : List UInt8} :
    Holds blk bs ↔ ∀ i, i < bs.length → blk[i]? = (bs[i]?).map some := by
  constructor
  · intro h i hi
    have := congrArg (fun l : Block => l[i]?) h
    simpa [List.getElem?_take, hi] using this
  · intro h
    apply List.ext_getElem?
    intro i
    by_cases hi : i < bs.length
    · rw [List.getElem?_take_of_lt hi, h i hi, List.getElem?_map]
    · rw [List.getElem?_take_eq_none (by omega), List.getElem?_map,
        List.getElem?_eq_none (by omega)]
      rfl

/-- **Storing behind the bytes an object starts with extends them.** -/
theorem holds_put {blk : Block} {bs : List UInt8} (h : Holds blk bs) (cs : List UInt8) :
    Holds (blk.put bs.length (cs.map some)) (bs ++ cs) := by
  rw [put, h, ← List.map_append]
  exact holds_append _ _

/-- **A range inside the bytes an object starts with reads back.** -/
theorem read_of_holds {blk : Block} {pre x post : List UInt8} (h : Holds blk (pre ++ x ++ post)) :
    blk.read pre.length x.length = .ok x := by
  have hlen := h.length_le
  simp only [List.length_append] at hlen
  have hx : (blk.drop pre.length).take x.length = x.map some := by
    rw [h.eq_append, List.map_append, List.map_append, List.append_assoc, List.append_assoc,
      List.drop_left' (by simp), List.take_left' (by simp)]
  rw [read, load, if_pos (by omega)]
  show (match values ((blk.drop pre.length).take x.length) with
    | some bs => Outcome.ok bs
    | none => .fault) = _
  rw [hx, values_map_some]

theorem byteAt_of_holds {blk : Block} {pre post : List UInt8} {b : UInt8}
    (h : Holds blk (pre ++ b :: post)) : blk.byteAt pre.length = .ok b := by
  have hb : blk[pre.length]? = some (some b) := by
    rw [h.eq_append, List.map_append, List.append_assoc,
      List.getElem?_append_right (by simp), List.length_map, Nat.sub_self]
    rfl
  rw [byteAt, hb]

end Block

/-! ### Strings -/

/-- A C string: its bytes up to the terminator. -/
structure CString where
  bytes : List UInt8
  nulFree : (0 : UInt8) ∉ bytes
deriving DecidableEq

def CString.strlen (s : CString) : Nat := s.bytes.length

/-- The C string a block of bytes starts with. -/
def cstr (obj : List UInt8) : List UInt8 := obj.takeWhile (· != 0)

/-- Some byte of the block is the terminator, so that `%s` stops inside it. -/
def Terminated (obj : List UInt8) : Prop := (0 : UInt8) ∈ obj

instance (obj : List UInt8) : Decidable (Terminated obj) := inferInstanceAs (Decidable (_ ∈ _))

/-- `memset(val, 0, n + 1); strncpy(val, src, n);` for the `n` bytes `src`. -/
def strncpy (src : List UInt8) : List UInt8 :=
  cstr src ++ List.replicate (src.length + 1 - (cstr src).length) 0

theorem length_cstr_le (obj : List UInt8) : (cstr obj).length ≤ obj.length :=
  (List.takeWhile_sublist _).length_le

theorem cstr_of_nulFree {obj : List UInt8} (h : (0 : UInt8) ∉ obj) : cstr obj = obj := by
  rw [cstr, List.takeWhile_eq_self_iff]
  intro b hb
  simp only [bne_iff_ne, ne_eq]
  rintro rfl
  exact h hb

theorem cstr_cons_of_ne {x : UInt8} (h : x ≠ 0) (xs : List UInt8) : cstr (x :: xs) = x :: cstr xs :=
  List.takeWhile_cons_of_pos (bne_iff_ne.mpr h)

theorem cstr_append_zero (xs ys : List UInt8) : cstr (xs ++ 0 :: ys) = cstr xs := by
  induction xs with
  | nil => rfl
  | cons x xs ih =>
    by_cases hx : x = 0
    · subst hx
      rfl
    · rw [List.cons_append, cstr_cons_of_ne hx, cstr_cons_of_ne hx, ih]

/-- **Bytes end where they end, whatever is behind them, when they have a terminator or are
followed by one.** -/
theorem cstr_append_iff {xs ys : List UInt8} {y : UInt8} :
    cstr (xs ++ y :: ys) = cstr xs ↔ 0 ∈ xs ∨ y = 0 := by
  induction xs with
  | nil =>
    by_cases hy : y = 0
    · subst hy
      exact iff_of_true rfl (.inr rfl)
    · refine iff_of_false (fun h => ?_) fun h => h.elim List.not_mem_nil hy
      rw [List.nil_append, cstr_cons_of_ne hy] at h
      cases h
  | cons x xs ih =>
    by_cases hx : x = 0
    · subst hx
      exact iff_of_true rfl (.inl List.mem_cons_self)
    · have hmem : (0 : UInt8) ∈ x :: xs ↔ 0 ∈ xs := by
        rw [List.mem_cons]
        exact or_iff_right fun h => hx h.symm
      rw [List.cons_append, cstr_cons_of_ne hx, cstr_cons_of_ne hx, List.cons.injEq, hmem, ← ih]
      exact and_iff_right rfl

theorem nulFree_cstr (obj : List UInt8) : (0 : UInt8) ∉ cstr obj := by
  intro h
  have := List.mem_takeWhile_imp h
  simp at this

theorem length_cstr_eq_iff {obj : List UInt8} :
    (cstr obj).length = obj.length ↔ (0 : UInt8) ∉ obj := by
  constructor
  · intro h
    have he : cstr obj = obj := (List.takeWhile_sublist _).eq_of_length h
    rw [← he]
    exact nulFree_cstr obj
  · intro h; rw [cstr_of_nulFree h]

@[simp] theorem cstr_strncpy (src : List UInt8) : cstr (strncpy src) = cstr src := by
  have hlen := length_cstr_le src
  obtain ⟨k, hk⟩ : ∃ k, src.length + 1 - (cstr src).length = k + 1 :=
    ⟨src.length - (cstr src).length, by omega⟩
  rw [strncpy, hk, List.replicate_succ]
  have hself : ∀ b ∈ cstr src, (b != 0) = true := by
    intro b hb
    rw [bne_iff_ne]
    rintro rfl
    exact nulFree_cstr src hb
  show List.takeWhile (· != 0) (cstr src ++ 0 :: List.replicate k 0) = cstr src
  rw [List.takeWhile_append_of_pos hself]
  simp

theorem terminated_strncpy (src : List UInt8) : Terminated (strncpy src) := by
  have := length_cstr_le src
  exact List.mem_append_right _ (List.mem_replicate.mpr ⟨by omega, rfl⟩)

/-! ### Strings in an array -/

/-- The C string at `off`, in an object of which `room` bytes are left there. -/
def stringAt (mem : Nat → UInt8) : Nat → Nat → Outcome (List UInt8)
  | 0, _ => .fault
  | room + 1, off =>
    if mem off = 0 then .ok []
    else do
      let rest ← stringAt mem room (off + 1)
      .ok (mem off :: rest)

/-- **What it means that the string is `xs`**: these bytes, and a terminator inside the object. -/
theorem stringAt_eq_ok_iff {mem : Nat → UInt8} {room : Nat} :
    ∀ {off : Nat} {xs : List UInt8}, stringAt mem room off = .ok xs ↔
      xs.length < room ∧ (0 : UInt8) ∉ xs ∧ mem (off + xs.length) = 0 ∧
        ∀ i, i < xs.length → mem (off + i) = xs.getD i 0 := by
  induction room with
  | zero =>
    intro off xs
    exact ⟨fun h => (by cases h), fun h => absurd h.1 (Nat.not_lt_zero _)⟩
  | succ room ih =>
    intro off xs
    rw [stringAt]
    by_cases hz : mem off = 0
    · rw [if_pos hz]
      constructor
      · intro h
        cases h
        exact ⟨Nat.succ_pos room, List.not_mem_nil, hz, fun i hi => absurd hi (Nat.not_lt_zero i)⟩
      · rintro ⟨-, h0, -, hx⟩
        cases xs with
        | nil => rfl
        | cons x xs =>
          have hfirst : mem off = x := hx 0 (Nat.succ_pos _)
          exact absurd (List.mem_cons.mpr (.inl (hz.symm.trans hfirst))) h0
    · rw [if_neg hz]
      cases xs with
      | nil =>
        refine ⟨fun h => ?_, fun h => absurd h.2.2.1 hz⟩
        cases hrest : stringAt mem room (off + 1) with
        | ok rest =>
          rw [hrest, Outcome.ok_bind] at h
          cases h
        | assertFail =>
          rw [hrest] at h
          cases h
        | fault =>
          rw [hrest] at h
          cases h
      | cons x xs =>
        have hshift : ∀ i, off + (i + 1) = off + 1 + i := fun i => by omega
        constructor
        · intro h
          cases hrest : stringAt mem room (off + 1) with
          | ok rest =>
            rw [hrest, Outcome.ok_bind] at h
            cases h
            obtain ⟨hlt, h0, hend, hx⟩ := ih.mp hrest
            refine ⟨Nat.succ_lt_succ hlt, fun hm => ?_, (congrArg mem (hshift _)).trans hend, ?_⟩
            · rcases List.mem_cons.mp hm with hm | hm
              · exact hz hm.symm
              · exact h0 hm
            · intro i hi
              cases i with
              | zero => rfl
              | succ i => rw [hshift, List.getD_cons_succ, hx i (Nat.lt_of_succ_lt_succ hi)]
          | assertFail =>
            rw [hrest] at h
            cases h
          | fault =>
            rw [hrest] at h
            cases h
        · rintro ⟨hlt, h0, hend, hx⟩
          have hrest : stringAt mem room (off + 1) = .ok xs := by
            refine ih.mpr ⟨Nat.lt_of_succ_lt_succ hlt, fun hm => h0 (List.mem_cons_of_mem _ hm),
              (congrArg mem (hshift _)).symm.trans hend, fun i hi => ?_⟩
            rw [← hshift, hx (i + 1) (Nat.succ_lt_succ hi), List.getD_cons_succ]
          have hfirst : mem off = x := hx 0 (Nat.succ_pos _)
          rw [hrest, Outcome.ok_bind, hfirst]

end Lib
