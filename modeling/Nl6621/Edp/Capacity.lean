import Mathlib.Data.Nat.Find
import Nl6621.Edp.Write

/-!
# The doubling loop of `CheckCapacity`

The loop doubles a 32-bit capacity until the room behind the write position suffices, or its
counter passes 32.  From `BUFFER_SIZE * 2 ^ 22` on the capacity wraps around, and for a request
that no capacity can meet the loop goes on among the wrapped ones.  It should end with -1.  But the
room is a 32-bit difference: behind a write position that lies above a wrapped capacity it appears
huge, the loop stops there, and the call returns 0 with nothing allocated.

`checkCapacity_sound_iff` says for which requests this does not happen.
-/

namespace Nl6621.Edp

open Lib

/-- The capacity after `k` doublings of `BUFFER_SIZE`. -/
def doubled (k : Nat) : Nat := u32 (bufferSize * 2 ^ k)

/-- What the callers of `CheckCapacity` rely on: after a return of 0 there is room for `len` bytes,
there is no less than before, and the bytes written are kept; after a return of -1 nothing has
changed, and no capacity that 32 bits can represent would have sufficed. -/
def CapacitySound (buf : Buffer) (len : Nat) : Prop :=
  (∃ buf', checkCapacity len buf = .ok (.ok (), buf') ∧
    buf.writePos + len ≤ buf'.capacity ∧ buf.capacity ≤ buf'.capacity ∧
    buf'.data.take buf.writePos = buf.data.take buf.writePos) ∨
  (checkCapacity len buf = .ok (.error (-1), buf) ∧
    ∀ k, bufferSize * 2 ^ k < 2 ^ 32 → bufferSize * 2 ^ k < buf.writePos + len)

/-- The request fits into the largest capacity; or into the second one that wraps around, and the
write position is not above the first; or it is greater by more than `2 ^ 32` than all those below
the write position. -/
def Meetable (writePos len : Nat) : Prop :=
  writePos + len ≤ bufferSize * 2 ^ 21 ∨
  (writePos ≤ doubled 22 ∧ writePos + len ≤ doubled 23) ∨
  ∀ k, 22 ≤ k → k ≤ 30 → doubled k < writePos → 2 ^ 32 + doubled k < writePos + len

/-! ### The capacities -/

theorem doubled_of_le {k : Nat} (hk : k ≤ 21) : doubled k = bufferSize * 2 ^ k := by
  have hle : bufferSize * 2 ^ k ≤ bufferSize * 2 ^ 21 :=
    Nat.mul_le_mul_left _ (Nat.pow_le_pow_right (by omega) hk)
  exact u32_of_lt (lt_of_le_of_lt hle (by decide))

theorem doubled_succ (k : Nat) : u32 (doubled k * 2) = doubled (k + 1) := by
  have hpow : bufferSize * 2 ^ (k + 1) = bufferSize * 2 ^ k * 2 := by
    rw [Nat.pow_succ, Nat.mul_assoc]
  rw [doubled, doubled, hpow, u32, u32, u32]
  omega

theorem doubled_mono {j k : Nat} (hj : j ≤ k) (hk : k ≤ 21) : doubled j ≤ doubled k := by
  rw [doubled_of_le hk, doubled_of_le (le_trans hj hk)]
  exact Nat.mul_le_mul_left _ (Nat.pow_le_pow_right (by omega) hj)

theorem doubled_le_max {k : Nat} (hk : k ≤ 21) : doubled k ≤ bufferSize * 2 ^ 21 := by
  rw [doubled_of_le hk]
  exact Nat.mul_le_mul_left _ (Nat.pow_le_pow_right (by omega) hk)

theorem le_of_lt_32 {k : Nat} (h : bufferSize * 2 ^ k < 2 ^ 32) : k ≤ 21 := by
  by_contra hlt
  have hpow : 2 ^ 22 ≤ 2 ^ k := Nat.pow_le_pow_right (by decide) (not_le.mp hlt)
  exact absurd (Nat.lt_of_le_of_lt (Nat.mul_le_mul_left bufferSize hpow) h) (by decide)

/-- From 30 doublings on nothing is left. -/
theorem doubled_of_ge {k : Nat} (hk : 30 ≤ k) : doubled k = doubled 30 := by
  obtain ⟨n, rfl⟩ : ∃ n, k = 30 + n := ⟨k - 30, by omega⟩
  induction n with
  | zero => rfl
  | succ n ih =>
    have hstep : doubled (30 + n) = doubled 30 := ih (by omega)
    rw [← Nat.add_assoc, ← doubled_succ, hstep]
    decide

theorem doubled_lt (k : Nat) : doubled k < 2 ^ 32 := Nat.mod_lt _ (by decide)

/-- Among the wrapped capacities the second is the greatest. -/
theorem doubled_le_wrapped {k : Nat} (hk : 22 ≤ k) : doubled k ≤ doubled 23 := by
  by_cases h30 : 30 ≤ k
  · rw [doubled_of_ge h30]
    decide
  · have hall : ∀ n < 30, 22 ≤ n → doubled n ≤ doubled 23 := by decide
    exact hall k (by omega) hk

/-! ### The loop -/

/-- The loop stops at a capacity. -/
def Stops (writePos len k : Nat) : Prop := len ≤ sub32 (doubled k) writePos

instance (writePos len k : Nat) : Decidable (Stops writePos len k) :=
  inferInstanceAs (Decidable (_ ≤ _))

theorem growCapacity_none {writePos len : Nat} : ∀ (n k : Nat),
    (∀ i, k ≤ i → i ≤ k + n → ¬Stops writePos len i) →
    growCapacity writePos len n (doubled k) = none := by
  intro n
  induction n with
  | zero =>
    intro k h
    rw [growCapacity, if_pos (not_le.mp (h k le_rfl (by omega)))]
  | succ n ih =>
    intro k h
    rw [growCapacity, if_pos (not_le.mp (h k le_rfl (by omega))), doubled_succ]
    exact ih (k + 1) fun i hi hin => h i (by omega) (by omega)

/-- The loop stops at the first capacity at which it can. -/
theorem growCapacity_first {writePos len : Nat} : ∀ (n k i : Nat), k ≤ i → i ≤ k + n →
    Stops writePos len i → (∀ j, k ≤ j → j < i → ¬Stops writePos len j) →
    growCapacity writePos len n (doubled k) = some (doubled i) := by
  intro n
  induction n with
  | zero =>
    intro k i hk hn hstop _
    obtain rfl : i = k := by omega
    rw [growCapacity, if_neg (not_lt.mpr hstop)]
  | succ n ih =>
    intro k i hk hn hstop hfirst
    by_cases hi : i = k
    · rw [← hi, growCapacity, if_neg (not_lt.mpr hstop)]
    · rw [growCapacity, if_pos (not_le.mp (hfirst k le_rfl (by omega))), doubled_succ]
      exact ih (k + 1) i (by omega) (by omega) hstop fun j hj hji => hfirst j (by omega) hji

section

variable {writePos len : Nat}

theorem sub32_above {a b : Nat} (ha : a < 2 ^ 32) (hb : b < 2 ^ 32) (h : a < b) :
    sub32 a b = 2 ^ 32 + a - b := by
  rw [sub32, Nat.mod_eq_of_lt hb]
  omega

/-- A request above the largest capacity is not met before the capacity wraps around. -/
theorem not_stops_of_le {k j : Nat} (hw : writePos ≤ doubled k) (hk : k ≤ j) (hj : j ≤ 21)
    (hbig : bufferSize * 2 ^ 21 < writePos + len) : ¬Stops writePos len j := by
  have hle : writePos ≤ doubled j := le_trans hw (doubled_mono hk hj)
  have hmax := doubled_le_max hj
  rw [Stops, sub32_of_le (doubled_lt j) hle]
  omega

theorem stops_wrapped_iff (hw : writePos < 2 ^ 32) {k : Nat} (hlt : doubled k < writePos) :
    Stops writePos len k ↔ writePos + len ≤ 2 ^ 32 + doubled k := by
  rw [Stops, sub32_above (doubled_lt k) hw hlt]
  omega

theorem stops_iff {k : Nat} (hle : writePos ≤ doubled k) :
    Stops writePos len k ↔ writePos + len ≤ doubled k := by
  rw [Stops, sub32_of_le (doubled_lt k) hle]
  omega

end

/-! ### The call -/

section

variable {buf : Buffer} {len j : Nat}

theorem sound_of_le (hw : buf.writePos ≤ buf.capacity) (hsize : buf.data.length = buf.capacity)
    (hj : j ≤ 21) (hcap : buf.capacity = bufferSize * 2 ^ j)
    (h : buf.writePos + len ≤ bufferSize * 2 ^ 21) : CapacitySound buf len := by
  obtain ⟨k, hjk, hk, hfit, hg⟩ := growCapacity_doubled h 32 j hj (by omega) (hcap ▸ hw)
  rw [← hcap] at hg
  obtain ⟨data, hrun, -, htake⟩ := checkCapacity_some hw hsize hg
  exact .inl ⟨_, hrun, le_trans hfit (le_max_left _ _), le_max_right _ _, htake⟩

theorem no_capacity (h : bufferSize * 2 ^ 21 < buf.writePos + len) :
    ∀ k, bufferSize * 2 ^ k < 2 ^ 32 → bufferSize * 2 ^ k < buf.writePos + len := by
  intro k hk
  have hle := doubled_le_max (le_of_lt_32 hk)
  rw [doubled_of_le (le_of_lt_32 hk)] at hle
  exact lt_of_le_of_lt hle h

/-- The second wrapped capacity is enough, and the loop passes the first. -/
theorem sound_of_second (hw : buf.writePos ≤ buf.capacity)
    (hsize : buf.data.length = buf.capacity) (hj : j ≤ 21) (hcap : buf.capacity = doubled j)
    (hbig : bufferSize * 2 ^ 21 < buf.writePos + len) (h22 : buf.writePos ≤ doubled 22)
    (h23 : buf.writePos + len ≤ doubled 23) : CapacitySound buf len := by
  have hle : doubled 22 ≤ doubled 23 := by decide
  have hsmall : doubled 22 < bufferSize * 2 ^ 21 := by decide
  have hg : growCapacity buf.writePos len 32 (doubled j) = some (doubled 23) := by
    apply growCapacity_first 32 j 23 (by omega) (by omega)
    · exact (stops_iff (le_trans h22 hle)).mpr h23
    · intro i hji hi
      by_cases h21 : i ≤ 21
      · exact not_stops_of_le (hcap ▸ hw) hji h21 hbig
      · obtain rfl : i = 22 := by omega
        rw [stops_iff h22]
        omega
  rw [← hcap] at hg
  obtain ⟨data, hrun, -, htake⟩ := checkCapacity_some hw hsize hg
  exact .inl ⟨_, hrun, le_trans h23 (le_max_left _ _), le_max_right _ _, htake⟩

/-- No capacity stops the loop. -/
theorem sound_of_none (hw : buf.writePos ≤ buf.capacity)
    (hcap : buf.capacity = doubled j) (hbig : bufferSize * 2 ^ 21 < buf.writePos + len)
    (h : ∀ k, 22 ≤ k → k ≤ 30 → doubled k < buf.writePos →
      2 ^ 32 + doubled k < buf.writePos + len) (h23 : doubled 23 < buf.writePos + len) :
    CapacitySound buf len := by
  have hw32 : buf.writePos < 2 ^ 32 := lt_of_le_of_lt (hcap ▸ hw) (doubled_lt j)
  have hno : ∀ k, 22 ≤ k → k ≤ 30 → ¬Stops buf.writePos len k := by
    intro k hk hk30
    by_cases hlt : doubled k < buf.writePos
    · rw [stops_wrapped_iff hw32 hlt]
      exact not_le.mpr (h k hk hk30 hlt)
    · have hle := doubled_le_wrapped hk
      rw [stops_iff (not_lt.mp hlt)]
      omega
  have hg : growCapacity buf.writePos len 32 (doubled j) = none := by
    apply growCapacity_none 32 j
    intro i hji hi
    by_cases h21 : i ≤ 21
    · exact not_stops_of_le (hcap ▸ hw) hji h21 hbig
    · by_cases h30 : i ≤ 30
      · exact hno i (by omega) h30
      · have hlast := hno 30 (by omega) le_rfl
        rw [Stops] at hlast ⊢
        rwa [doubled_of_ge (by omega)]
  rw [← hcap] at hg
  exact .inr ⟨checkCapacity_none hg, no_capacity hbig⟩

/-- Otherwise it stops at a capacity that is too small. -/
theorem not_sound (hw : buf.writePos ≤ buf.capacity) (hsize : buf.data.length = buf.capacity)
    (hj : j ≤ 21) (hcap : buf.capacity = doubled j) (h : ¬Meetable buf.writePos len) :
    ¬CapacitySound buf len := by
  have hw32 : buf.writePos < 2 ^ 32 := lt_of_le_of_lt (hcap ▸ hw) (doubled_lt j)
  have hbig : bufferSize * 2 ^ 21 < buf.writePos + len := not_le.mp fun hle => h (.inl hle)
  have hstop : ∃ k, j ≤ k ∧ k ≤ 30 ∧ Stops buf.writePos len k := by
    by_contra hno
    apply h
    refine .inr (.inr fun k hk hk30 hlt => not_le.mp fun hle => ?_)
    exact hno ⟨k, by omega, hk30, (stops_wrapped_iff hw32 hlt).mpr hle⟩
  obtain ⟨hji, hi30, hi⟩ := Nat.find_spec hstop
  have hmin : ∀ k, j ≤ k → k < Nat.find hstop → ¬Stops buf.writePos len k := by
    intro k hjk hk hs
    exact Nat.find_min hstop hk ⟨hjk, by omega, hs⟩
  generalize Nat.find hstop = i at hji hi30 hi hmin
  have h22 : 22 ≤ i := by
    by_contra hlt
    exact not_stops_of_le (hcap ▸ hw) hji (by omega) hbig hi
  have hg := growCapacity_first 32 j i hji (by omega) hi hmin
  rw [← hcap] at hg
  obtain ⟨data, hrun, -, -⟩ := checkCapacity_some hw hsize hg
  rintro (⟨buf', hrun', hfit, -, -⟩ | ⟨hrun', -⟩)
  · rw [hrun] at hrun'
    cases hrun'
    have hmax : doubled j ≤ bufferSize * 2 ^ 21 := doubled_le_max hj
    have hfits : buf.writePos + len ≤ doubled i := by
      have hle : buf.writePos + len ≤ max (doubled i) buf.capacity := hfit
      rcases Nat.le_total (doubled i) buf.capacity with hc | hc
      · rw [max_eq_right hc, hcap] at hle
        exact absurd (le_trans hle hmax) (not_le.mpr hbig)
      · rwa [max_eq_left hc] at hle
    have h23 : buf.writePos + len ≤ doubled 23 := le_trans hfits (doubled_le_wrapped h22)
    -- the loop would have stopped at the first of the wrapped capacities
    have hlt : doubled 22 < buf.writePos := not_le.mp fun hle => h (.inr (.inl ⟨hle, h23⟩))
    have hstop22 : Stops buf.writePos len 22 := by
      rw [stops_wrapped_iff hw32 hlt]
      exact le_trans h23 (le_trans (doubled_lt 23).le (Nat.le_add_right _ _))
    have hi22 : i = 22 := by
      by_contra hne
      exact hmin 22 (le_trans hj (by decide)) (lt_of_le_of_ne h22 (Ne.symm hne)) hstop22
    rw [hi22] at hfits
    exact absurd (Nat.lt_of_lt_of_le hbig hfits) (by decide)
  · rw [hrun] at hrun'
    cases hrun'

end

/-- **When `CheckCapacity` is sound.**  For a buffer whose capacity is `BUFFER_SIZE` doubled, this
depends on the write position and the length asked for alone. -/
theorem checkCapacity_sound_iff {buf : Buffer} {len k : Nat} (hw : buf.writePos ≤ buf.capacity)
    (hsize : buf.data.length = buf.capacity) (hcap : buf.capacity = bufferSize * 2 ^ k)
    (h32 : buf.capacity < 2 ^ 32) : CapacitySound buf len ↔ Meetable buf.writePos len := by
  have hk : k ≤ 21 := le_of_lt_32 (hcap ▸ h32)
  have hcap' : buf.capacity = doubled k := hcap.trans (doubled_of_le hk).symm
  constructor
  · intro h
    by_contra hn
    exact not_sound hw hsize hk hcap' hn h
  · intro h
    by_cases hbig : buf.writePos + len ≤ bufferSize * 2 ^ 21
    · exact sound_of_le hw hsize hk hcap hbig
    · rcases h with h | ⟨h22, h23⟩ | h
      · exact absurd h hbig
      · exact sound_of_second hw hsize hk hcap' (not_le.mp hbig) h22 h23
      · by_cases h23 : buf.writePos + len ≤ doubled 23
        · by_cases h22 : buf.writePos ≤ doubled 22
          · exact sound_of_second hw hsize hk hcap' (not_le.mp hbig) h22 h23
          · have hover := h 22 le_rfl (by omega) (not_le.mp h22)
            have hlt := doubled_lt 23
            omega
        · exact sound_of_none hw hcap' (not_le.mp hbig) h (not_le.mp h23)

/-- A fresh buffer is asked for more than it can ever hold. -/
theorem checkCapacity_sound_iff_fresh :
    CapacitySound newBuffer 0xffffffff ↔ Meetable 0 0xffffffff := by
  have hcap : newBuffer.capacity = bufferSize * 2 ^ 0 := rfl
  exact checkCapacity_sound_iff (by decide) (Block.length_malloc _) hcap (by decide)

/-- A buffer with one byte in it. -/
def oneByte : Buffer := ⟨some 0 :: List.replicate 1499 none, 1, 0, bufferSize⟩

/-- It is asked for `2 ^ 32 - 1` bytes more: the call returns 0. -/
theorem checkCapacity_unsound : ¬CapacitySound oneByte 0xffffffff := by
  have hg : growCapacity oneByte.writePos 0xffffffff 32 oneByte.capacity = some (doubled 30) := by
    apply growCapacity_first 32 0 30 (by omega) (by omega) (by decide)
    intro j _ hj
    have hall : ∀ n < 30, ¬Stops 1 0xffffffff n := by decide
    exact hall j hj
  have hsize : oneByte.data.length = oneByte.capacity := by
    rw [oneByte, List.length_cons, List.length_replicate]
    rfl
  obtain ⟨data, hrun, -, -⟩ := checkCapacity_some (by decide) hsize hg
  rintro (⟨buf', hrun', hfit, -, -⟩ | ⟨hrun', -⟩)
  · rw [hrun] at hrun'
    cases hrun'
    have hmax : ¬1 + 0xffffffff ≤ max (doubled 30) bufferSize := by decide
    exact hmax hfit
  · rw [hrun] at hrun'
    cases hrun'

end Nl6621.Edp
