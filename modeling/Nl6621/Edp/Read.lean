import Mathlib.Tactic.Ring
import Nl6621.Edp.Write

/-!
# What the readers take from a packet

The unread part of a packet is a list of bytes.  `takeU16`, `takeU32`, `takeN`
and `takeStr` say what one field takes from the front of such a list, and
`decodeLen 3` does it for the remaining length.  `Packet pkg pre rest` says that the
cursor of `pkg` stands between `pre` and `rest`, and `Reading` that there are fewer
than `2 ^ 31` bytes besides.

Each reader is then described by two equations.  When the field is there, the
reader returns it and the cursor moves behind it; when the packet ends too
early, the reader returns -1.  `readBytes` has a third one.  Its bound is the
sum of the cursor and a 32-bit count, and a count from the wire can make that
sum wrap around: the bound check is then passed, and the copy runs out of the
packet (`readBytes_wrap`).
-/

namespace Nl6621.Edp

open Lib

/-! ### Fields of a byte list -/

def takeU16 : List UInt8 → Option (Nat × List UInt8)
  | a :: b :: rest => some (a.toNat * 2 ^ 8 + b.toNat, rest)
  | _ => none

def takeU32 : List UInt8 → Option (Nat × List UInt8)
  | a :: b :: c :: d :: rest =>
    some (a.toNat * 2 ^ 24 + b.toNat * 2 ^ 16 + c.toNat * 2 ^ 8 + d.toNat, rest)
  | _ => none

def takeN (n : Nat) (bs : List UInt8) : Option (List UInt8 × List UInt8) :=
  if n ≤ bs.length then some (bs.take n, bs.drop n) else none

/-- The bytes behind a `uint16` length. -/
def takeStr (bs : List UInt8) : Option (List UInt8 × List UInt8) :=
  (takeU16 bs).bind fun p => takeN p.1 p.2

theorem takeU16_lt {bs rest : List UInt8} {v : Nat} (h : takeU16 bs = some (v, rest)) :
    v < 2 ^ 16 ∧ bs.length = rest.length + 2 := by
  match bs, h with
  | a :: b :: r, h =>
    simp only [takeU16, Option.some.injEq, Prod.mk.injEq] at h
    obtain ⟨rfl, rfl⟩ := h
    have ha := a.toNat_lt
    have hb := b.toNat_lt
    exact ⟨by omega, rfl⟩

theorem takeU16_eq_none {bs : List UInt8} : takeU16 bs = none ↔ bs.length < 2 := by
  match bs with
  | [] => simp [takeU16]
  | [a] => simp [takeU16]
  | a :: b :: r => simp [takeU16]

theorem takeU32_eq_none {bs : List UInt8} : takeU32 bs = none ↔ bs.length < 4 := by
  match bs with
  | [] => simp [takeU32]
  | [a] => simp [takeU32]
  | [a, b] => simp [takeU32]
  | [a, b, c] => simp [takeU32]
  | a :: b :: c :: d :: r => simp [takeU32]

theorem takeU32_lt {bs rest : List UInt8} {v : Nat} (h : takeU32 bs = some (v, rest)) :
    v < 2 ^ 32 ∧ bs.length = rest.length + 4 := by
  match bs, h with
  | a :: b :: c :: d :: r, h =>
    simp only [takeU32, Option.some.injEq, Prod.mk.injEq] at h
    obtain ⟨rfl, rfl⟩ := h
    have ha := a.toNat_lt
    have hb := b.toNat_lt
    have hc := c.toNat_lt
    have hd := d.toNat_lt
    exact ⟨by omega, rfl⟩

theorem takeN_some {n : Nat} {bs x rest : List UInt8} (h : takeN n bs = some (x, rest)) :
    bs = x ++ rest ∧ x.length = n := by
  unfold takeN at h
  split at h
  · cases h
    exact ⟨(List.take_append_drop n bs).symm, by rw [List.length_take]; omega⟩
  · cases h

theorem takeN_eq_none {n : Nat} {bs : List UInt8} : takeN n bs = none ↔ bs.length < n := by
  unfold takeN
  split
  · simp; omega
  · simp; omega

@[simp] theorem takeN_append (x rest : List UInt8) : takeN x.length (x ++ rest) = some (x, rest) := by
  rw [takeN, if_pos (by simp), List.take_left, List.drop_left]

theorem takeStr_some {bs s rest : List UInt8} (h : takeStr bs = some (s, rest)) :
    ∃ r, takeU16 bs = some (s.length, r) ∧ r = s ++ rest := by
  unfold takeStr at h
  cases h1 : takeU16 bs with
  | none => rw [h1] at h; cases h
  | some p =>
    obtain ⟨n, r⟩ := p
    rw [h1, Option.bind_some] at h
    obtain ⟨h2, h3⟩ := takeN_some h
    exact ⟨r, by rw [h3], h2⟩

theorem takeStr_length {bs s rest : List UInt8} (h : takeStr bs = some (s, rest)) :
    bs.length = 2 + s.length + rest.length := by
  obtain ⟨r, h1, rfl⟩ := takeStr_some h
  have := (takeU16_lt h1).2
  rw [List.length_append] at this
  omega

theorem takeU16_be16 {v : Nat} (h : v < 2 ^ 16) (rest : List UInt8) :
    takeU16 (be16 v ++ rest) = some (v, rest) := by
  simp only [be16, List.cons_append, List.nil_append, takeU16, UInt8.toNat_ofNat',
    Option.some.injEq, Prod.mk.injEq, and_true]
  omega

theorem takeU32_be32 {v : Nat} (h : v < 2 ^ 32) (rest : List UInt8) :
    takeU32 (be32 v ++ rest) = some (v, rest) := by
  simp only [be32, List.cons_append, List.nil_append, takeU32, UInt8.toNat_ofNat',
    Option.some.injEq, Prod.mk.injEq, and_true]
  omega

/-- What is left of a string when its length has gone through a `uint16`. -/
theorem takeStr_encodeStr_mod (s : CString) (rest : List UInt8) :
    takeStr (encodeStr s ++ rest) = some (s.bytes.take (s.strlen % 2 ^ 16), rest) := by
  have hlt : s.strlen % 2 ^ 16 < 2 ^ 16 := Nat.mod_lt _ (by decide)
  have hlen : (s.bytes.take (s.strlen % 2 ^ 16)).length = s.strlen % 2 ^ 16 :=
    List.length_take_of_le (Nat.mod_le _ _)
  have htake := takeN_append (s.bytes.take (s.strlen % 2 ^ 16)) rest
  rw [hlen] at htake
  rw [encodeStr, List.append_assoc, takeStr, takeU16_be16 hlt, Option.bind_some]
  exact htake

theorem takeStr_encodeStr {s : CString} (h : s.strlen ≤ 65535) (rest : List UInt8) :
    takeStr (encodeStr s ++ rest) = some (s.bytes, rest) := by
  rw [takeStr_encodeStr_mod, Nat.mod_eq_of_lt (by omega), CString.strlen, List.take_length]

/-! ### Packets -/

/-- The cursor of `pkg` stands between `pre` and `rest`, in an object of a 32-bit machine. -/
structure Packet (pkg : Buffer) (pre rest : List UInt8) : Prop where
  readPos : pkg.readPos = pre.length
  writePos : pkg.writePos = pre.length + rest.length
  holds : pkg.data.Holds (pre ++ rest)
  allocated : pkg.data.length < 2 ^ 32

section Packet

variable {pkg : Buffer} {pre rest : List UInt8}

theorem Packet.le (h : Packet pkg pre rest) : pkg.readPos ≤ pkg.writePos := by
  rw [h.readPos, h.writePos]
  exact Nat.le_add_right ..

theorem Packet.lt (h : Packet pkg pre rest) : pkg.writePos < 2 ^ 32 := by
  have hlen := h.holds.length_le
  have halloc := h.allocated
  rw [List.length_append] at hlen
  rw [h.writePos]
  omega

theorem Packet.advance {x : List UInt8} (h : Packet pkg pre (x ++ rest)) :
    Packet { pkg with readPos := pkg.readPos + x.length } (pre ++ x) rest := by
  have hw := h.writePos
  rw [List.length_append] at hw
  refine ⟨?_, ?_, ?_, h.allocated⟩
  · rw [h.readPos, List.length_append]
  · rw [List.length_append]
    show pkg.writePos = _
    omega
  · rw [List.append_assoc]
    exact h.holds

/-- The unread bytes, as `memcpy` finds them. -/
theorem Packet.read {x : List UInt8} (h : Packet pkg pre (x ++ rest)) :
    pkg.data.read pkg.readPos x.length = .ok x := by
  have hh : pkg.data.Holds (pre ++ x ++ rest) := by
    rw [List.append_assoc]
    exact h.holds
  rw [h.readPos]
  exact Block.read_of_holds hh

theorem Packet.nextByte {b : UInt8} (h : Packet pkg pre (b :: rest)) :
    nextByte pkg = .ok (.ok b.toNat, { pkg with readPos := pkg.readPos + 1 }) := by
  have hw := h.writePos
  have hlt := h.lt
  rw [List.length_cons] at hw
  have hb : pkg.data.byteAt pkg.readPos = .ok b := by
    rw [h.readPos]
    exact Block.byteAt_of_holds h.holds
  rw [Edp.nextByte, Proc.get_bind_apply, hb, u32_of_lt (by rw [h.readPos]; omega)]
  rfl

theorem Packet.readByte {b : UInt8} (h : Packet pkg pre (b :: rest)) :
    readByte pkg = .ok (.ok b, { pkg with readPos := pkg.readPos + 1 }) := by
  have hr := h.readPos
  have hw := h.writePos
  have hlt := h.lt
  rw [List.length_cons] at hw
  have hb : pkg.data.byteAt pkg.readPos = .ok b := by
    rw [h.readPos]
    exact Block.byteAt_of_holds h.holds
  rw [Edp.readByte, Proc.get_bind_apply, u32_of_lt (by omega), if_neg (by omega), hb]
  rfl

theorem Packet.readByte_end (h : Packet pkg pre []) (hlt : pkg.readPos + 1 < 2 ^ 32) :
    Edp.readByte pkg = .ok (.error (-1), pkg) := by
  have hr := h.readPos
  have hw := h.writePos
  rw [List.length_nil] at hw
  rw [Edp.readByte, Proc.get_bind_apply, u32_of_lt hlt, if_pos (by omega)]
  rfl

/-- The outcomes of reading a field of `n` bytes below the end of the address space: it is not all
there, or the bytes `y` are read. -/
inductive FieldRead (p : Proc Buffer Nat) (take : List UInt8 → Option (Nat × List UInt8)) (n : Nat)
    (pkg : Buffer) (rest : List UInt8) : Prop where
  | short (hlen : rest.length < n) (hnone : take rest = none)
      (h : p pkg = .ok (.error (-1), pkg)) : FieldRead p take n pkg rest
  | field {y rest' : List UInt8} {v : Nat} (hrest : rest = y ++ rest') (hy : y.length = n)
      (hv : take y = some (v, [])) (ht : take rest = some (v, rest'))
      (h : p pkg = .ok (.ok v, { pkg with readPos := pkg.readPos + n })) :
      FieldRead p take n pkg rest

theorem Packet.readUint16 (h : Packet pkg pre rest) (hlt : pkg.readPos + 2 < 2 ^ 32) :
    FieldRead readUint16 takeU16 2 pkg rest := by
  have hr := h.readPos
  have hw := h.writePos
  by_cases hlen : 2 ≤ rest.length
  · match rest, h, hlen with
    | a :: b :: rest, h, _ =>
      have ha := a.toNat_lt
      have hb := b.toNat_lt
      simp only [List.length_cons] at hw
      have h1 : Packet { pkg with readPos := pkg.readPos + 1 } (pre ++ [a]) (b :: rest) :=
        h.advance (x := [a])
      refine .field (y := [a, b]) (v := a.toNat * 2 ^ 8 + b.toNat) rfl rfl rfl rfl ?_
      rw [Edp.readUint16, Proc.get_bind_apply, u32_of_lt hlt, if_neg (by omega),
        Proc.bind_ok h.nextByte, Proc.bind_ok h1.nextByte, Proc.pure_apply]
      have hval : ((a.toNat <<< 8) + b.toNat) % 2 ^ 16 = a.toNat * 2 ^ 8 + b.toNat := by
        rw [Nat.shiftLeft_eq]
        omega
      rw [hval]
  · refine .short (by omega) (takeU16_eq_none.mpr (by omega)) ?_
    rw [Edp.readUint16, Proc.get_bind_apply, u32_of_lt hlt, if_pos (by omega)]
    rfl

/-- The loop of `ReadUint32` on bytes that are there. -/
theorem readUint32Loop_ok : ∀ (bs : List UInt8) (tmpval : Nat) {pkg : Buffer}
    {pre rest : List UInt8}, Packet pkg pre (bs ++ rest) → ∃ v,
      readUint32Loop bs.length tmpval pkg =
        .ok (.ok v, { pkg with readPos := pkg.readPos + bs.length }) ∧
      v = bs.foldl (fun t b => u32 (t <<< 8) ||| b.toNat) tmpval := by
  intro bs
  induction bs with
  | nil =>
    intro tmpval pkg pre rest _
    exact ⟨tmpval, rfl, rfl⟩
  | cons b bs ih =>
    intro tmpval pkg pre rest h
    obtain ⟨v, hv, hfold⟩ := ih (u32 (tmpval <<< 8) ||| b.toNat) (h.advance (x := [b]))
    refine ⟨v, ?_, hfold⟩
    rw [List.length_cons, readUint32Loop, Proc.bind_ok h.nextByte]
    refine hv.trans ?_
    simp only [List.length_cons, List.length_nil]
    rw [Nat.add_assoc, Nat.add_comm (0 + 1)]

/-- Four bytes, the most significant first. -/
theorem foldl_or_shift (a b c d : UInt8) :
    [a, b, c, d].foldl (fun t b => u32 (t <<< 8) ||| b.toNat) 0 =
      a.toNat * 2 ^ 24 + b.toNat * 2 ^ 16 + c.toNat * 2 ^ 8 + d.toNat := by
  have hor : ∀ (t : Nat) (b : UInt8), t < 2 ^ 24 →
      u32 (t <<< 8) ||| b.toNat = t * 2 ^ 8 + b.toNat := by
    intro t b ht
    have hlt : t * 2 ^ 8 < 2 ^ 32 := by omega
    rw [Nat.shiftLeft_eq, u32_of_lt hlt, Nat.mul_comm]
    exact (Nat.two_pow_add_eq_or_of_lt (i := 8) b.toNat_lt t).symm
  have ha := a.toNat_lt
  have hb := b.toNat_lt
  have hc := c.toNat_lt
  simp only [List.foldl_cons, List.foldl_nil]
  rw [hor 0 a (by omega), hor _ b (by omega), hor _ c (by omega), hor _ d (by omega)]
  omega

theorem Packet.readUint32 (h : Packet pkg pre rest) (hlt : pkg.readPos + 4 < 2 ^ 32) :
    FieldRead readUint32 takeU32 4 pkg rest := by
  have hr := h.readPos
  have hw := h.writePos
  by_cases hlen : 4 ≤ rest.length
  · match rest, h, hlen with
    | a :: b :: c :: d :: rest, h, _ =>
      simp only [List.length_cons] at hw
      obtain ⟨v, hv, hfold⟩ := readUint32Loop_ok [a, b, c, d] 0
        (show Packet pkg pre ([a, b, c, d] ++ rest) from h)
      rw [foldl_or_shift] at hfold
      refine .field (y := [a, b, c, d]) (v := v) rfl rfl (by rw [hfold]; rfl) (by rw [hfold]; rfl) ?_
      rw [Edp.readUint32, Proc.get_bind_apply, u32_of_lt hlt, if_neg (by omega)]
      exact hv
  · refine .short (by omega) (takeU32_eq_none.mpr (by omega)) ?_
    rw [Edp.readUint32, Proc.get_bind_apply, u32_of_lt hlt, if_pos (by omega)]
    rfl

theorem split_at {n : Nat} {rest : List UInt8} (h : n ≤ rest.length) :
    ∃ x rest', rest = x ++ rest' ∧ x.length = n :=
  ⟨rest.take n, rest.drop n, (List.take_append_drop ..).symm, List.length_take_of_le h⟩

theorem Packet.readBytes {x : List UInt8} (h : Packet pkg pre (x ++ rest)) :
    readBytes x.length pkg = .ok (.ok x, { pkg with readPos := pkg.readPos + x.length }) := by
  have hr := h.readPos
  have hw := h.writePos
  have hlt := h.lt
  rw [List.length_append] at hw
  rw [Edp.readBytes, Proc.get_bind_apply, u32_of_lt (by omega), if_neg (by omega), h.read]
  rfl

theorem Packet.readBytes_end {count : Nat} (h : Packet pkg pre rest) (hc : rest.length < count)
    (hlt : pkg.readPos + count < 2 ^ 32) : Edp.readBytes count pkg = .ok (.error (-1), pkg) := by
  have hr := h.readPos
  have hw := h.writePos
  rw [Edp.readBytes, Proc.get_bind_apply, u32_of_lt hlt, if_pos (by omega)]
  rfl

/-- **A count that wraps the bound around passes the check**, and the copy
leaves the packet. -/
theorem Packet.readBytes_fault {count : Nat} (h : Packet pkg pre rest) (hc : count < 2 ^ 32)
    (hge : 2 ^ 32 ≤ pkg.readPos + count) : Edp.readBytes count pkg = .fault := by
  have hle := h.le
  have hlt := h.lt
  have halloc := h.allocated
  rw [Edp.readBytes, Proc.get_bind_apply, if_neg (by rw [u32]; omega),
    Block.read_fault (by omega : pkg.data.length < pkg.readPos + count)]
  rfl

end Packet

/-! ### The cursor -/

/-- The cursor of `pkg` stands between `pre` and `rest`. -/
structure Reading (pkg : Buffer) (pre rest : List UInt8) : Prop where
  readPos : pkg.readPos = pre.length
  writePos : pkg.writePos = pre.length + rest.length
  holds : pkg.data.Holds (pre ++ rest)
  small : pkg.writePos < 2 ^ 31
  allocated : pkg.data.length < 2 ^ 32

/-- The call returns `a` and leaves `rest` unread; the write position stays. -/
def Takes {α : Type} (p : Proc Buffer α) (pkg : Buffer) (a : α) (rest : List UInt8) : Prop :=
  ∃ pkg' pre, p pkg = .ok (.ok a, pkg') ∧ Reading pkg' pre rest ∧ pkg'.writePos = pkg.writePos

/-- The call returns the code `c`. -/
def Refuses {α : Type} (p : Proc Buffer α) (pkg : Buffer) (c : Int) : Prop :=
  ∃ pkg', p pkg = .ok (.error c, pkg')

namespace Reading

variable {pkg : Buffer} {pre rest : List UInt8}

/-- The cursor has reached the write position exactly when nothing is unread. -/
theorem at_end_iff (h : Reading pkg pre rest) : pkg.readPos = pkg.writePos ↔ rest = [] := by
  rw [h.readPos, h.writePos, ← List.length_eq_zero_iff]
  omega

theorem packet (h : Reading pkg pre rest) : Packet pkg pre rest :=
  ⟨h.readPos, h.writePos, h.holds, h.allocated⟩

theorem advance {x : List UInt8} (h : Reading pkg pre (x ++ rest)) :
    Reading { pkg with readPos := pkg.readPos + x.length } (pre ++ x) rest :=
  have hp := h.packet.advance
  ⟨hp.readPos, hp.writePos, hp.holds, h.small, hp.allocated⟩

/-- The fields of a few bytes do not reach the end of the address space. -/
theorem readPos_lt (h : Reading pkg pre rest) {n : Nat} (hn : n < 2 ^ 31) :
    pkg.readPos + n < 2 ^ 32 := by
  have hle := h.packet.le
  have hs := h.small
  omega

end Reading

/-! ### The readers -/

section Readers

variable {pkg : Buffer} {pre rest : List UInt8}

theorem readByte_takes {b : UInt8} (h : Reading pkg pre (b :: rest)) :
    Takes readByte pkg b rest :=
  ⟨_, _, h.packet.readByte, h.advance (x := [b]), rfl⟩

theorem readByte_refuses (h : Reading pkg pre []) : readByte pkg = .ok (.error (-1), pkg) :=
  h.packet.readByte_end (h.readPos_lt (by decide))

theorem FieldRead.takes {p : Proc Buffer Nat} {take : List UInt8 → Option (Nat × List UInt8)}
    {n v : Nat} {rest' : List UInt8} (hf : FieldRead p take n pkg rest) (h : Reading pkg pre rest)
    (ht : take rest = some (v, rest')) : Takes p pkg v rest' := by
  cases hf with
  | short _ hnone _ =>
    rw [hnone] at ht
    cases ht
  | field hrest hy _ hn hok =>
    rw [hn] at ht
    cases ht
    subst hrest
    exact ⟨_, _, hok, hy ▸ h.advance, rfl⟩

theorem FieldRead.refuses {p : Proc Buffer Nat} {take : List UInt8 → Option (Nat × List UInt8)}
    {n : Nat} (hf : FieldRead p take n pkg rest) (ht : rest.length < n) :
    p pkg = .ok (.error (-1), pkg) := by
  cases hf with
  | short _ _ he => exact he
  | field hrest hy _ _ _ =>
    rw [hrest, List.length_append] at ht
    omega

theorem readUint16_takes {v : Nat} {rest' : List UInt8} (h : Reading pkg pre rest)
    (ht : takeU16 rest = some (v, rest')) : Takes readUint16 pkg v rest' :=
  (h.packet.readUint16 (h.readPos_lt (by decide))).takes h ht

theorem readUint16_refuses (h : Reading pkg pre rest) (ht : rest.length < 2) :
    readUint16 pkg = .ok (.error (-1), pkg) :=
  (h.packet.readUint16 (h.readPos_lt (by decide))).refuses ht

theorem readUint32_takes {v : Nat} {rest' : List UInt8} (h : Reading pkg pre rest)
    (ht : takeU32 rest = some (v, rest')) : Takes readUint32 pkg v rest' :=
  (h.packet.readUint32 (h.readPos_lt (by decide))).takes h ht

theorem readUint32_refuses (h : Reading pkg pre rest) (ht : rest.length < 4) :
    readUint32 pkg = .ok (.error (-1), pkg) :=
  (h.packet.readUint32 (h.readPos_lt (by decide))).refuses ht

theorem readBytes_takes {x : List UInt8} (h : Reading pkg pre (x ++ rest)) :
    Takes (readBytes x.length) pkg x rest :=
  ⟨_, _, h.packet.readBytes, h.advance, rfl⟩

theorem readBytes_refuses {count : Nat} (h : Reading pkg pre rest) (hc : rest.length < count)
    (hwrap : pre.length + count < 2 ^ 32) : readBytes count pkg = .ok (.error (-1), pkg) :=
  h.packet.readBytes_end hc (h.readPos ▸ hwrap)

theorem readBytes_wrap {count : Nat} (h : Reading pkg pre rest) (hc : count < 2 ^ 32)
    (hwrap : 2 ^ 32 ≤ pre.length + count) : readBytes count pkg = .fault :=
  h.packet.readBytes_fault hc (h.readPos ▸ hwrap)

/-- Behind its length a string is counted bytes. -/
theorem readStr_eq {n : Nat} {pkg₁ : Buffer} (h : readUint16 pkg = .ok (.ok n, pkg₁)) :
    readStr pkg = (readBytes n >>= fun src => pure (strncpy src)) pkg₁ := by
  rw [readStr, Proc.bind_ok h, Proc.get_bind_apply]
  by_cases hc : u32 (pkg₁.readPos + n) > pkg₁.writePos
  · have hb : readBytes n pkg₁ = .ok (.error (-1), pkg₁) := by
      rw [readBytes, Proc.get_bind_apply, if_pos hc]
      rfl
    rw [Proc.bind_error hb, if_pos hc]
    rfl
  · rw [if_neg hc]
    cases hr : pkg₁.data.read pkg₁.readPos n with
    | ok src =>
      have hb : readBytes n pkg₁ =
          .ok (.ok src, { pkg₁ with readPos := u32 (pkg₁.readPos + n) }) := by
        rw [readBytes, Proc.get_bind_apply, if_neg hc, hr]
        rfl
      rw [Proc.bind_ok hb]
      rfl
    | assertFail =>
      have hb : readBytes n pkg₁ = .assertFail := by
        rw [readBytes, Proc.get_bind_apply, if_neg hc, hr]
        rfl
      rw [Proc.bind_assertFail hb]
      rfl
    | fault =>
      have hb : readBytes n pkg₁ = .fault := by
        rw [readBytes, Proc.get_bind_apply, if_neg hc, hr]
        rfl
      rw [Proc.bind_fault hb]
      rfl

theorem readStr_takes {s rest' : List UInt8} (h : Reading pkg pre rest)
    (ht : takeStr rest = some (s, rest')) : Takes readStr pkg (strncpy s) rest' := by
  obtain ⟨r, h16, rfl⟩ := takeStr_some ht
  obtain ⟨pkg₁, pre₁, h1, hr1, hw1⟩ := readUint16_takes h h16
  obtain ⟨pkg₂, pre₂, h2, hr2, hw2⟩ := readBytes_takes hr1
  refine ⟨pkg₂, pre₂, ?_, hr2, hw2.trans hw1⟩
  rw [readStr_eq h1, Proc.bind_ok h2]
  rfl

theorem readStr_refuses (h : Reading pkg pre rest) (ht : takeStr rest = none) :
    Refuses readStr pkg (-1) := by
  cases h16 : takeU16 rest with
  | none =>
    refine ⟨pkg, ?_⟩
    rw [readStr, Proc.bind_error (readUint16_refuses h (takeU16_eq_none.mp h16))]
  | some p =>
    obtain ⟨n, r⟩ := p
    obtain ⟨pkg₁, pre₁, h1, hr1, -⟩ := readUint16_takes h h16
    rw [takeStr, h16] at ht
    change takeN n r = none at ht
    rw [takeN_eq_none] at ht
    have hn := (takeU16_lt h16).1
    have hw := hr1.writePos
    have hs := hr1.small
    refine ⟨pkg₁, ?_⟩
    rw [readStr_eq h1, Proc.bind_error (readBytes_refuses hr1 ht (by omega))]

/-! ### The remaining length -/

/-- The digit loop of `ReadRemainlen` reads what `decodeLen` reads.  With `i`
digits consumed the multiplier is `128 ^ i` and nothing has wrapped yet. -/
theorem readRemainlenLoop_takes : ∀ (k i lenVal : Nat) {pkg : Buffer} {pre rest : List UInt8}
    {v : Nat} {rest' : List UInt8}, i + k = 3 → lenVal < 128 ^ i →
      Reading pkg pre rest → decodeLen k rest = .done v rest' →
      Takes (readRemainlenLoop (k + 1) (128 ^ i) lenVal) pkg (lenVal + 128 ^ i * v) rest' := by
  intro k
  induction k with
  | zero =>
    intro i lenVal pkg pre rest v rest' hi hlv h hd
    obtain rfl : i = 3 := by omega
    cases rest with
    | nil => cases hd
    | cons b r =>
      rw [decodeLen] at hd
      have hb := b.toNat_lt
      by_cases hlast : b.toNat < 128
      · rw [if_pos hlast] at hd
        cases hd
        obtain ⟨pkg', pre', h1, h2, hw⟩ := readByte_takes h
        refine ⟨pkg', pre', ?_, h2, hw⟩
        rw [readRemainlenLoop, Proc.bind_ok h1, if_neg (by
          rw [ne_eq, not_not]; exact (land_128_eq_zero hb).mpr hlast), Proc.pure_apply, land_127,
          Nat.mod_eq_of_lt hlast, u32_of_lt (by omega), Nat.mul_comm]
      · rw [if_neg hlast] at hd; cases hd
  | succ k ih =>
    intro i lenVal pkg pre rest v rest' hi hlv h hd
    have hmul : (128 : Nat) ^ (i + 1) = 128 * 128 ^ i := by rw [Nat.pow_succ, Nat.mul_comm]
    have hsmall : (128 : Nat) ^ (i + 1) ≤ 128 ^ 3 := Nat.pow_le_pow_right (by omega) (by omega)
    cases rest with
    | nil => cases hd
    | cons b r =>
      rw [decodeLen] at hd
      have hb := b.toNat_lt
      obtain ⟨pkg₁, pre₁, h1, hr1, hw1⟩ := readByte_takes h
      have hdigit : (b.toNat &&& 0x7f) * 128 ^ i ≤ 127 * 128 ^ i := by
        rw [land_127]
        exact Nat.mul_le_mul_right _ (by omega)
      by_cases hlast : b.toNat < 128
      · rw [if_pos hlast] at hd
        cases hd
        refine ⟨pkg₁, pre₁, ?_, hr1, hw1⟩
        rw [readRemainlenLoop, Proc.bind_ok h1, if_neg (by
          rw [ne_eq, not_not]; exact (land_128_eq_zero hb).mpr hlast), Proc.pure_apply,
          u32_of_lt (by omega), land_127, Nat.mod_eq_of_lt hlast, Nat.mul_comm]
      · rw [if_neg hlast] at hd
        cases hr : decodeLen k r with
        | short => rw [hr] at hd; cases hd
        | long => rw [hr] at hd; cases hd
        | done w r' =>
          rw [hr, LenField.push] at hd
          cases hd
          rw [land_127, show b.toNat % 128 = b.toNat - 128 by omega] at hdigit
          have hlv' : lenVal + (b.toNat - 128) * 128 ^ i < 128 ^ (i + 1) := by omega
          have hval : u32 (lenVal + (b.toNat &&& 0x7f) * 128 ^ i) =
              lenVal + (b.toNat - 128) * 128 ^ i := by
            rw [land_127, show b.toNat % 128 = b.toNat - 128 by omega]
            exact u32_of_lt (by omega)
          obtain ⟨pkg₂, pre₂, h2, hr2, hw2⟩ := ih (i + 1) _ (by omega) hlv' hr1 hr
          refine ⟨pkg₂, pre₂, ?_, hr2, hw2.trans hw1⟩
          rw [readRemainlenLoop, Proc.bind_ok h1, if_pos (by
            rw [ne_eq, land_128_eq_zero hb]; exact hlast), hval, u32_of_lt (by omega),
            Nat.mul_comm (128 ^ i) 0x80, ← hmul, h2]
          congr 3
          rw [hmul]
          ring

theorem readRemainlen_takes {v : Nat} {rest' : List UInt8} (h : Reading pkg pre rest)
    (hd : decodeLen 3 rest = .done v rest') : Takes readRemainlen pkg v rest' := by
  obtain ⟨pkg', pre', h1, h2, hw⟩ := readRemainlenLoop_takes 3 0 0 rfl (by omega) h hd
  refine ⟨pkg', pre', ?_, h2, hw⟩
  rw [readRemainlen]
  simpa using h1

end Readers

end Nl6621.Edp
