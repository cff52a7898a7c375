import Nl6621.Edp.Buffer

/-!
# What the writers leave in the buffer

`Filled buf bs` is the state of a buffer that has only been written to: the
bytes `bs` stand at its front, the write position is behind them, and the
capacity is the length of the allocation, `BUFFER_SIZE` doubled at most 21
times.

Every writer that asks `checkCapacity` keeps it: from `Filled buf bs` the call
returns 0 and leaves `Filled buf' (bs ++ e)`, where `e` is the encoding of the
call (`writeBytes_filled` and its companions), as long as the total stays below
`2 ^ 31`.  `writeRemainlen` keeps it exactly when its digits fit into what the
allocation has left (`writeRemainlen_filled`, `writeRemainlen_overflow`).
-/

namespace Nl6621.Edp

open Lib

/-! ### Encodings -/

/-- Two bytes, the most significant first. -/
def be16 (v : Nat) : List UInt8 := [UInt8.ofNat (v / 2 ^ 8), UInt8.ofNat v]

/-- Four bytes, the most significant first. -/
def be32 (v : Nat) : List UInt8 :=
  [UInt8.ofNat (v / 2 ^ 24), UInt8.ofNat (v / 2 ^ 16), UInt8.ofNat (v / 2 ^ 8), UInt8.ofNat v]

/-- A string behind its `uint16` length. -/
def encodeStr (s : CString) : List UInt8 :=
  be16 (s.strlen % 2 ^ 16) ++ s.bytes.take (s.strlen % 2 ^ 16)

/-- The remaining length, in one to four digits. -/
def encodeRemainlen (v : Nat) : List UInt8 := lenDigits 3 v

@[simp] theorem length_be16 (v : Nat) : (be16 v).length = 2 := rfl
@[simp] theorem length_be32 (v : Nat) : (be32 v).length = 4 := rfl

theorem encodeStr_of_le {s : CString} (h : s.strlen ≤ 65535) :
    encodeStr s = be16 s.strlen ++ s.bytes := by
  rw [encodeStr, Nat.mod_eq_of_lt (by omega), CString.strlen, List.take_length]

theorem ofNat_eq_of_mod {a b : Nat} (h : a % 2 ^ 8 = b % 2 ^ 8) : UInt8.ofNat a = UInt8.ofNat b := by
  rw [← UInt8.toNat_inj, UInt8.toNat_ofNat', UInt8.toNat_ofNat']
  exact h

theorem shiftRight_land_255 (v k : Nat) :
    UInt8.ofNat ((v >>> k) &&& 0x00FF) = UInt8.ofNat (v / 2 ^ k) := by
  apply ofNat_eq_of_mod
  rw [Nat.and_two_pow_sub_one_eq_mod (v >>> k) 8, Nat.shiftRight_eq_div_pow, Nat.mod_mod]

theorem land_65280_shiftRight (v : Nat) :
    UInt8.ofNat ((v &&& 0xFF00) >>> 8) = UInt8.ofNat (v / 2 ^ 8) := by
  rw [Nat.shiftRight_and_distrib]
  exact shiftRight_land_255 v 8

theorem land_255 (v : Nat) : UInt8.ofNat (v &&& 0x00FF) = UInt8.ofNat v := by
  have := shiftRight_land_255 v 0
  simpa using this

/-! ### The invariant -/

/-- A buffer that has only been written to, with the bytes `bs`. -/
structure Filled (buf : Buffer) (bs : List UInt8) : Prop where
  readPos : buf.readPos = 0
  writePos : buf.writePos = bs.length
  holds : buf.data.Holds bs
  size : buf.data.length = buf.capacity
  doubled : ∃ j ≤ 21, buf.capacity = bufferSize * 2 ^ j

theorem filled_newBuffer : Filled newBuffer [] where
  readPos := rfl
  writePos := rfl
  holds := Block.holds_nil _
  size := Block.length_malloc _
  doubled := ⟨0, by omega, rfl⟩

namespace Filled

variable {buf : Buffer} {bs : List UInt8}

theorem length_le (h : Filled buf bs) : bs.length ≤ buf.capacity := by
  rw [← h.size]; exact h.holds.length_le

theorem capacity_le (h : Filled buf bs) : buf.capacity ≤ bufferSize * 2 ^ 21 := by
  obtain ⟨j, hj, hc⟩ := h.doubled
  rw [hc]
  exact Nat.mul_le_mul_left _ (Nat.pow_le_pow_right (by omega) hj)

theorem le_capacity (h : Filled buf bs) : bufferSize ≤ buf.capacity := by
  obtain ⟨j, -, hc⟩ := h.doubled
  rw [hc]
  exact Nat.le_mul_of_pos_right _ (Nat.two_pow_pos j)

theorem capacity_lt (h : Filled buf bs) : buf.capacity < 2 ^ 32 :=
  lt_of_le_of_lt h.capacity_le (by decide)

theorem assertUnread_ok (h : Filled buf bs) : assertUnread buf = .ok (.ok (), buf) :=
  Proc.assert_ok h.readPos

end Filled

/-! ### Growing -/

theorem growCapacity_of_room {writePos len cap : Nat} (hcap : cap < 2 ^ 32)
    (h : writePos + len ≤ cap) (k : Nat) : growCapacity writePos len k cap = some cap := by
  have hsub : ¬ sub32 cap writePos < len := by
    rw [sub32_of_le hcap (by omega)]; omega
  cases k with
  | zero => rw [growCapacity, if_neg hsub]
  | succ k => rw [growCapacity, if_neg hsub]

/-- The doubling loop finds a capacity before its counter runs out.  The
induction is on the doublings left; `j` counts those already made. -/
theorem growCapacity_doubled {writePos len : Nat} (hlen : writePos + len ≤ bufferSize * 2 ^ 21) :
    ∀ (k j : Nat), j ≤ 21 → 21 ≤ j + k → writePos ≤ bufferSize * 2 ^ j →
      ∃ j', j ≤ j' ∧ j' ≤ 21 ∧ writePos + len ≤ bufferSize * 2 ^ j' ∧
        growCapacity writePos len k (bufferSize * 2 ^ j) = some (bufferSize * 2 ^ j') := by
  intro k
  induction k with
  | zero =>
    intro j hj hk _
    obtain rfl : j = 21 := by omega
    exact ⟨21, le_rfl, le_rfl, hlen, growCapacity_of_room (by decide) hlen _⟩
  | succ k ih =>
    intro j hj hk hw
    by_cases hroom : writePos + len ≤ bufferSize * 2 ^ j
    · have hlt : bufferSize * 2 ^ j < 2 ^ 32 :=
        lt_of_le_of_lt (Nat.mul_le_mul_left _ (Nat.pow_le_pow_right (by omega) hj)) (by decide)
      exact ⟨j, le_rfl, hj, hroom, growCapacity_of_room hlt hroom _⟩
    · -- the capacity can be doubled without wrapping
      have hj21 : j ≠ 21 := by
        rintro rfl
        exact hroom hlen
      have hle : bufferSize * 2 ^ (j + 1) ≤ bufferSize * 2 ^ 21 :=
        Nat.mul_le_mul_left _ (Nat.pow_le_pow_right (by omega) (by omega))
      have hlt : bufferSize * 2 ^ (j + 1) < 2 ^ 32 := lt_of_le_of_lt hle (by decide)
      have hstep : u32 (bufferSize * 2 ^ j * 2) = bufferSize * 2 ^ (j + 1) := by
        rw [Nat.pow_succ, ← Nat.mul_assoc] at hlt ⊢
        exact u32_of_lt hlt
      have hmono : bufferSize * 2 ^ j ≤ bufferSize * 2 ^ (j + 1) :=
        Nat.mul_le_mul_left _ (Nat.pow_le_pow_right (by omega) (by omega))
      have hsub : sub32 (bufferSize * 2 ^ j) writePos < len := by
        rw [sub32_of_le (by omega) hw]; omega
      obtain ⟨j', h1, h2, h3, h4⟩ := ih (j + 1) (by omega) (by omega) (by omega)
      refine ⟨j', by omega, h2, h3, ?_⟩
      rw [growCapacity, if_pos hsub, hstep, h4]

theorem checkCapacity_of_room {buf : Buffer} {bs : List UInt8} (h : Filled buf bs) {len : Nat}
    (hroom : bs.length + len ≤ buf.capacity) :
    checkCapacity len buf = .ok (.ok (), buf) := by
  have hfit : buf.writePos + len ≤ buf.capacity := by rw [h.writePos]; exact hroom
  have hg := growCapacity_of_room h.capacity_lt hfit 32
  rw [checkCapacity, Proc.get_bind_apply, hg]
  show (if buf.capacity > buf.capacity then _ else _ : Proc Buffer Unit) buf = _
  rw [if_neg (lt_irrefl _)]
  rfl

theorem checkCapacity_none {buf : Buffer} {len : Nat}
    (hg : growCapacity buf.writePos len 32 buf.capacity = none) :
    checkCapacity len buf = .ok (.error (-1), buf) := by
  rw [checkCapacity, Proc.get_bind_apply, hg]
  rfl

/-- The buffer gets the capacity that the loop has found, unless it has more already. -/
theorem checkCapacity_some {buf : Buffer} {len cap : Nat} (hw : buf.writePos ≤ buf.capacity)
    (hsize : buf.data.length = buf.capacity)
    (hg : growCapacity buf.writePos len 32 buf.capacity = some cap) :
    ∃ data, checkCapacity len buf =
        .ok (.ok (), { buf with data := data, capacity := max cap buf.capacity }) ∧
      data.length = max cap buf.capacity ∧
      data.take buf.writePos = buf.data.take buf.writePos := by
  by_cases hgrow : cap > buf.capacity
  · have hlen : (buf.data.take buf.writePos).length = buf.writePos := by
      rw [List.length_take]
      omega
    have hfit : 0 + (buf.data.take buf.writePos).length ≤ (Block.malloc cap).length := by
      rw [Block.length_malloc]
      omega
    have hload : buf.data.load 0 buf.writePos = .ok (buf.data.take buf.writePos) := by
      rw [Block.load, if_pos (by omega), List.drop_zero]
    refine ⟨(Block.malloc cap).put 0 (buf.data.take buf.writePos), ?_, ?_, ?_⟩
    · rw [checkCapacity, Proc.get_bind_apply, hg]
      show (if _ then _ else _ : Proc Buffer Unit) buf = _
      rw [if_pos hgrow, hload]
      show (Proc.lift ((Block.malloc cap).store 0 (buf.data.take buf.writePos)) >>= _) buf = _
      rw [Block.store_ok hfit, max_eq_left (by omega)]
      rfl
    · rw [Block.length_put hfit, Block.length_malloc, max_eq_left (by omega)]
    · rw [Block.put, List.take_zero, List.nil_append]
      exact List.take_left' hlen
  · refine ⟨buf.data, ?_, ?_, rfl⟩
    · rw [checkCapacity, Proc.get_bind_apply, hg]
      show (if _ then _ else _ : Proc Buffer Unit) buf = _
      rw [if_neg hgrow, max_eq_right (by omega)]
      rfl
    · rw [hsize, max_eq_right (by omega)]

/-- **`CheckCapacity` makes room and keeps what was written.** -/
theorem checkCapacity_filled {buf : Buffer} {bs : List UInt8} (h : Filled buf bs) {len : Nat}
    (hlen : bs.length + len < 2 ^ 31) :
    ∃ buf', checkCapacity len buf = .ok (.ok (), buf') ∧ Filled buf' bs ∧
      bs.length + len ≤ buf'.capacity := by
  obtain ⟨j, hj, hc⟩ := h.doubled
  have hw : buf.writePos ≤ buf.capacity := by rw [h.writePos]; exact h.length_le
  have hfits : buf.writePos + len ≤ bufferSize * 2 ^ 21 := by
    rw [h.writePos]
    exact le_trans hlen.le (by decide)
  obtain ⟨j', hjj, hj', hfit, hg⟩ := growCapacity_doubled hfits 32 j hj (by omega) (hc ▸ hw)
  rw [← hc] at hg
  obtain ⟨data, hrun, hdata, htake⟩ := checkCapacity_some hw h.size hg
  have hmax : max (bufferSize * 2 ^ j') buf.capacity = bufferSize * 2 ^ j' := by
    rw [hc]
    exact max_eq_left (Nat.mul_le_mul_left _ (Nat.pow_le_pow_right (by omega) hjj))
  rw [hmax] at hrun hdata
  rw [h.writePos] at htake hfit
  refine ⟨_, hrun, ⟨h.readPos, h.writePos, ?_, hdata, j', hj', rfl⟩, hfit⟩
  exact htake.trans h.holds

/-! ### Storing -/

theorem storeBytes_filled {buf : Buffer} {bs : List UInt8} (h : Filled buf bs) (cs : List UInt8)
    (hroom : bs.length + cs.length ≤ buf.capacity) :
    ∃ buf', storeBytes cs buf = .ok (.ok (), buf') ∧ Filled buf' (bs ++ cs) ∧
      buf'.capacity = buf.capacity := by
  have hfit : bs.length + (cs.map some).length ≤ buf.data.length := by
    rw [h.size, List.length_map]; exact hroom
  have hstore : buf.data.store buf.writePos (cs.map some) =
      .ok (buf.data.put bs.length (cs.map some)) := by
    rw [h.writePos]; exact Block.store_ok hfit
  have hpos : u32 (buf.writePos + cs.length) = (bs ++ cs).length := by
    have := h.capacity_lt
    rw [h.writePos, List.length_append, u32_of_lt (by omega)]
  refine ⟨{ buf with data := buf.data.put bs.length (cs.map some),
                     writePos := (bs ++ cs).length }, ?_, ?_, rfl⟩
  · rw [storeBytes, Proc.get_bind_apply, hstore, hpos]
    rfl
  · exact ⟨h.readPos, rfl, Block.holds_put h.holds cs,
      by rw [Block.length_put hfit]; exact h.size, h.doubled⟩

theorem storeBytes_overflow {buf : Buffer} {bs : List UInt8} (h : Filled buf bs) (cs : List UInt8)
    (hfull : buf.capacity < bs.length + cs.length) : storeBytes cs buf = .fault := by
  have hstore : buf.data.store buf.writePos (cs.map some) = .fault := by
    rw [h.writePos]
    exact Block.store_fault (by rw [h.size, List.length_map]; exact hfull)
  rw [storeBytes, Proc.get_bind_apply, hstore]
  rfl

/-! ### The writers that check -/

theorem writeBytes_filled {buf : Buffer} {bs : List UInt8} (h : Filled buf bs) (cs : List UInt8)
    (hlen : bs.length + cs.length < 2 ^ 31) :
    ∃ buf', writeBytes cs buf = .ok (.ok (), buf') ∧ Filled buf' (bs ++ cs) := by
  obtain ⟨buf₁, h1, hf1, hroom⟩ := checkCapacity_filled h hlen
  obtain ⟨buf₂, h2, hf2, -⟩ := storeBytes_filled hf1 cs hroom
  refine ⟨buf₂, ?_, hf2⟩
  rw [writeBytes, Proc.bind_ok h.assertUnread_ok, Proc.bind_ok (Proc.orReturn_ok h1)]
  exact h2

theorem writeByte_filled {buf : Buffer} {bs : List UInt8} (h : Filled buf bs) (b : UInt8)
    (hlen : bs.length + 1 < 2 ^ 31) :
    ∃ buf', writeByte b buf = .ok (.ok (), buf') ∧ Filled buf' (bs ++ [b]) :=
  writeBytes_filled h [b] hlen

theorem writeUint16_filled {buf : Buffer} {bs : List UInt8} (h : Filled buf bs) (v : Nat)
    (hlen : bs.length + 2 < 2 ^ 31) :
    ∃ buf', writeUint16 v buf = .ok (.ok (), buf') ∧ Filled buf' (bs ++ be16 v) := by
  obtain ⟨buf₁, h1, hf1⟩ := writeByte_filled h (UInt8.ofNat ((v &&& 0xFF00) >>> 8)) (by omega)
  obtain ⟨buf₂, h2, hf2⟩ := writeByte_filled hf1 (UInt8.ofNat (v &&& 0x00FF))
    (by simp only [List.length_append, List.length_singleton]; omega)
  refine ⟨buf₂, ?_, ?_⟩
  · rw [writeUint16, Proc.bind_ok h.assertUnread_ok, Proc.bind_ok (Proc.orReturn_ok h1)]
    exact Proc.orReturn_ok h2
  · rw [land_65280_shiftRight, land_255] at hf2
    simpa [be16] using hf2

theorem writeUint32_filled {buf : Buffer} {bs : List UInt8} (h : Filled buf bs) (v : Nat)
    (hlen : bs.length + 4 < 2 ^ 31) :
    ∃ buf', writeUint32 v buf = .ok (.ok (), buf') ∧ Filled buf' (bs ++ be32 v) := by
  obtain ⟨buf₁, h1, hf1⟩ := writeByte_filled h (UInt8.ofNat ((v >>> 24) &&& 0x00FF)) (by omega)
  obtain ⟨buf₂, h2, hf2⟩ := writeByte_filled hf1 (UInt8.ofNat ((v >>> 16) &&& 0x00FF))
    (by simp only [List.length_append, List.length_singleton]; omega)
  obtain ⟨buf₃, h3, hf3⟩ := writeByte_filled hf2 (UInt8.ofNat ((v >>> 8) &&& 0x00FF))
    (by simp only [List.length_append, List.length_singleton]; omega)
  obtain ⟨buf₄, h4, hf4⟩ := writeByte_filled hf3 (UInt8.ofNat (v &&& 0x00FF))
    (by simp only [List.length_append, List.length_singleton]; omega)
  refine ⟨buf₄, ?_, ?_⟩
  · rw [writeUint32, Proc.bind_ok h.assertUnread_ok, Proc.bind_ok (Proc.orReturn_ok h1),
      Proc.bind_ok (Proc.orReturn_ok h2), Proc.bind_ok (Proc.orReturn_ok h3)]
    exact Proc.orReturn_ok h4
  · rw [shiftRight_land_255, shiftRight_land_255, shiftRight_land_255, land_255] at hf4
    simpa [be32] using hf4

theorem writeStr_filled {buf : Buffer} {bs : List UInt8} (h : Filled buf bs) (s : CString)
    (hlen : bs.length + (encodeStr s).length < 2 ^ 31) :
    ∃ buf', writeStr s buf = .ok (.ok (), buf') ∧ Filled buf' (bs ++ encodeStr s) := by
  rw [encodeStr, List.length_append, length_be16] at hlen
  obtain ⟨buf₁, h1, hf1⟩ := writeUint16_filled h (s.strlen % 2 ^ 16) (by omega)
  obtain ⟨buf₂, h2, hf2⟩ := writeBytes_filled hf1 (s.bytes.take (s.strlen % 2 ^ 16))
    (by rw [List.length_append, length_be16]; omega)
  refine ⟨buf₂, ?_, ?_⟩
  · rw [writeStr, Proc.bind_ok h.assertUnread_ok, Proc.bind_ok (Proc.orReturn_ok h1)]
    exact Proc.orReturn_ok h2
  · rw [encodeStr, ← List.append_assoc]
    exact hf2

/-! ### The writer that does not -/

theorem remainDigit_last {v : Nat} (h : v / 128 = 0) : remainDigit v = UInt8.ofNat (v % 128) := by
  rw [remainDigit, if_neg (by omega)]

theorem remainDigit_more {v : Nat} (h : v / 128 ≠ 0) :
    remainDigit v = UInt8.ofNat (v % 128 + 128) := by
  rw [remainDigit, if_pos (by omega), lor_128 (Nat.mod_lt _ (by omega))]

/-- The digit loop stores `lenDigits k v` when the digits fit, and stops before
its fifth digit. -/
theorem writeRemainlenLoop_filled : ∀ (k v : Nat), k ≤ 3 → v < 128 ^ (k + 1) →
    ∀ {buf : Buffer} {bs : List UInt8}, Filled buf bs →
      bs.length + (lenDigits k v).length ≤ buf.capacity →
      ∃ count buf', writeRemainlenLoop (k + 1) v buf = .ok (.ok count, buf') ∧ count ≤ 4 ∧
        Filled buf' (bs ++ lenDigits k v) ∧ buf'.capacity = buf.capacity := by
  intro k
  induction k with
  | zero =>
    intro v _ hv buf bs h hroom
    have h0 : v / 128 = 0 := by omega
    rw [lenDigits, ← remainDigit_last h0] at hroom ⊢
    obtain ⟨buf', h1, hf1, hc1⟩ := storeBytes_filled h _ hroom
    refine ⟨4, buf', ?_, le_rfl, hf1, hc1⟩
    rw [writeRemainlenLoop, Proc.bind_ok h1, if_neg (by omega)]
    rfl
  | succ k ih =>
    intro v hk hv buf bs h hroom
    by_cases h0 : v / 128 = 0
    · rw [lenDigits, if_pos h0, ← remainDigit_last h0] at hroom ⊢
      obtain ⟨buf', h1, hf1, hc1⟩ := storeBytes_filled h _ hroom
      refine ⟨4 - (k + 1), buf', ?_, by omega, hf1, hc1⟩
      rw [writeRemainlenLoop, Proc.bind_ok h1, if_neg (by omega)]
      rfl
    · rw [lenDigits, if_neg h0, ← remainDigit_more h0] at hroom ⊢
      rw [List.length_cons] at hroom
      obtain ⟨buf₁, h1, hf1, hc1⟩ := storeBytes_filled h [remainDigit v]
        (by rw [List.length_singleton]; omega)
      obtain ⟨count, buf₂, h2, hcount, hf2, hc2⟩ := ih (v / 128) (by omega)
        (by rw [Nat.div_lt_iff_lt_mul (by omega), ← Nat.pow_succ]; exact hv) hf1
        (by rw [hc1, List.length_append, List.length_singleton]; omega)
      refine ⟨count, buf₂, ?_, hcount, ?_, by rw [hc2, hc1]⟩
      · rw [writeRemainlenLoop, Proc.bind_ok h1, if_pos (by omega)]
        exact h2
      · rw [List.append_assoc, List.singleton_append] at hf2
        exact hf2

/-- When the digits do not fit, one of them is stored outside the allocation. -/
theorem writeRemainlenLoop_overflow : ∀ (k v : Nat), v < 128 ^ (k + 1) →
    ∀ {buf : Buffer} {bs : List UInt8}, Filled buf bs →
      buf.capacity < bs.length + (lenDigits k v).length →
      writeRemainlenLoop (k + 1) v buf = .fault := by
  intro k
  induction k with
  | zero =>
    intro v hv buf bs h hfull
    have h0 : v / 128 = 0 := by omega
    rw [lenDigits, ← remainDigit_last h0] at hfull
    rw [writeRemainlenLoop, Proc.bind_fault (storeBytes_overflow h _ hfull)]
  | succ k ih =>
    intro v hv buf bs h hfull
    by_cases hnone : buf.capacity < bs.length + 1
    · rw [writeRemainlenLoop,
        Proc.bind_fault (storeBytes_overflow h [remainDigit v] (by simpa using hnone))]
    · -- the first digit still fits
      obtain ⟨buf₁, h1, hf1, hc1⟩ := storeBytes_filled h [remainDigit v]
        (by simpa using not_lt.mp hnone)
      have h0 : v / 128 ≠ 0 := by
        intro h0
        rw [lenDigits, if_pos h0, List.length_singleton] at hfull
        exact hnone hfull
      rw [lenDigits, if_neg h0, List.length_cons] at hfull
      rw [writeRemainlenLoop, Proc.bind_ok h1, if_pos (by omega)]
      refine ih (v / 128) (by rw [Nat.div_lt_iff_lt_mul (by omega), ← Nat.pow_succ]; exact hv)
        hf1 ?_
      rw [hc1, List.length_append, List.length_singleton]
      omega

theorem writeRemainlen_filled {buf : Buffer} {bs : List UInt8} (h : Filled buf bs) {v : Nat}
    (hv : v < 2 ^ 28) (hroom : bs.length + (encodeRemainlen v).length ≤ buf.capacity) :
    ∃ buf', writeRemainlen v buf = .ok (.ok (), buf') ∧ Filled buf' (bs ++ encodeRemainlen v) := by
  obtain ⟨count, buf', h1, hcount, hf, -⟩ :=
    writeRemainlenLoop_filled 3 v le_rfl (by omega) h hroom
  refine ⟨buf', ?_, hf⟩
  rw [writeRemainlen, Proc.bind_ok h.assertUnread_ok, Proc.bind_ok h1]
  exact Proc.assert_ok (by omega)

/-- A length that needs a fifth digit gets it. -/
theorem writeRemainlenLoop_fifth : ∀ (k v : Nat), 128 ^ k ≤ v →
    ∀ {buf : Buffer} {bs : List UInt8}, Filled buf bs → bs.length + (k + 1) ≤ buf.capacity →
      ∃ buf', writeRemainlenLoop k v buf = .ok (.ok 5, buf') := by
  intro k
  induction k with
  | zero =>
    intro v _ buf bs h hroom
    obtain ⟨buf', h1, -, -⟩ := storeBytes_filled h [remainDigit v] hroom
    refine ⟨buf', ?_⟩
    rw [writeRemainlenLoop, Proc.bind_ok h1]
    rfl
  | succ k ih =>
    intro v hv buf bs h hroom
    obtain ⟨buf₁, h1, hf1, hc1⟩ := storeBytes_filled h [remainDigit v]
      (by rw [List.length_singleton]; omega)
    have hdiv : 128 ^ k ≤ v / 128 := by
      rw [Nat.le_div_iff_mul_le (by omega), ← Nat.pow_succ]
      exact hv
    obtain ⟨buf₂, h2⟩ := ih (v / 128) hdiv hf1
      (by rw [hc1, List.length_append, List.length_singleton]; omega)
    have hpos : v / 128 > 0 := lt_of_lt_of_le (Nat.pow_pos (by decide)) hdiv
    refine ⟨buf₂, ?_⟩
    rw [writeRemainlenLoop, Proc.bind_ok h1, if_pos hpos]
    exact h2

theorem writeRemainlen_asserts {buf : Buffer} {bs : List UInt8} (h : Filled buf bs) {v : Nat}
    (hv : 2 ^ 28 ≤ v) (hroom : bs.length + 5 ≤ buf.capacity) :
    writeRemainlen v buf = .assertFail := by
  obtain ⟨buf', h1⟩ := writeRemainlenLoop_fifth 4 v hv h hroom
  rw [writeRemainlen, Proc.bind_ok h.assertUnread_ok, Proc.bind_ok h1]
  exact Proc.assert_fails fun hne => hne rfl

theorem writeRemainlen_overflow {buf : Buffer} {bs : List UInt8} (h : Filled buf bs) {v : Nat}
    (hv : v < 2 ^ 28) (hfull : buf.capacity < bs.length + (encodeRemainlen v).length) :
    writeRemainlen v buf = .fault := by
  rw [writeRemainlen, Proc.bind_ok h.assertUnread_ok]
  exact Proc.bind_fault (writeRemainlenLoop_overflow 3 v (by omega) h hfull)

end Nl6621.Edp
