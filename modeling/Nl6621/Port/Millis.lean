import Nl6621.Port.SysArch

/-!
# The milliseconds and the ticks of a wait

`_sys_arch_mbox_fetch` and `_sys_arch_sem_wait` convert the timeout to a number of ticks, of which
the kernel takes the low 16 bits, and the ticks that have elapsed back to milliseconds.

`converts_iff` is about the first: the product with the tick rate wraps around, and one of the two
functions lets 65536 ticks through, which the kernel takes for no timeout at all.  `measured_iff` is
about the second: the difference of two readings is right when the second is the larger one.
-/

namespace Nl6621.Port

open Lib

/-! ### From ticks to milliseconds -/

/-- The ticks between two readings of the counter. -/
def elapsedTicks (t₀ t₁ : UInt32) : Nat := (t₁.toNat + 2 ^ 32 - t₀.toNat) % 2 ^ 32

/-- Both functions return the milliseconds of the ticks that have elapsed. -/
def Measured (timeout OSTime : UInt32) (during : List ClockEvent) : Prop :=
  let d := elapsedTicks OSTime (OSTimeAfter OSTime during)
  (sysArchMboxFetch timeout OSTime .OS_ERR_NONE during).ret.toNat = d * 1000 / 100 + 1 ∧
    (sysArchSemWait timeout OSTime .OS_ERR_NONE during).ret.toNat = d * 1000 / 100 + 1

section

variable {bound : UInt32} {sub : UInt32 → UInt32 → UInt32} {atRest : Nat}

theorem toNat_ret (timeout OSTime : UInt32) (during : List ClockEvent) :
    (sysArchWait bound sub timeout OSTime .OS_ERR_NONE during).ret.toNat =
      (sub OSTime (OSTimeAfter OSTime during)).toNat * 1000 % 2 ^ 32 / 100 + 1 := by
  have herr : PendErr.OS_ERR_NONE ≠ .OS_ERR_TIMEOUT := by decide
  rw [sysArchWait]
  simp only
  rw [if_neg herr, toNat_ms]

/-- The milliseconds are right behind a reading that is larger.  Behind an equal one they are those
of `atRest` ticks, and behind a smaller one a tick is missing. -/
theorem ret_eq_iff (hsub : ∀ t t', (sub t t').toNat = elapsed atRest t.toNat t'.toNat)
    (timeout OSTime : UInt32) (during : List ClockEvent)
    (hd : elapsedTicks OSTime (OSTimeAfter OSTime during) * 1000 < 2 ^ 32) :
    (sysArchWait bound sub timeout OSTime .OS_ERR_NONE during).ret.toNat =
        elapsedTicks OSTime (OSTimeAfter OSTime during) * 1000 / 100 + 1 ↔
      OSTime.toNat < (OSTimeAfter OSTime during).toNat ∨
        (OSTime.toNat = (OSTimeAfter OSTime during).toNat ∧ atRest * 1000 % 2 ^ 32 / 100 = 0) := by
  rw [toNat_ret, hsub]
  generalize OSTimeAfter OSTime during = t₁ at hd ⊢
  have h0 := OSTime.toNat_lt
  have h1 := t₁.toNat_lt
  rw [elapsed]
  by_cases hlt : OSTime.toNat < t₁.toNat
  · have hd' : elapsedTicks OSTime t₁ = t₁.toNat - OSTime.toNat := by
      rw [elapsedTicks]
      omega
    rw [hd'] at hd ⊢
    rw [if_pos hlt, Nat.mod_eq_of_lt hd]
    exact iff_of_true rfl (Or.inl hlt)
  · rw [if_neg hlt]
    by_cases hgt : t₁.toNat < OSTime.toNat
    · have hd' : elapsedTicks OSTime t₁ = t₁.toNat + 2 ^ 32 - OSTime.toNat := by
        rw [elapsedTicks]
        omega
      obtain ⟨d, hmissing⟩ : ∃ d, 2 ^ 32 - 1 - OSTime.toNat + t₁.toNat = d := ⟨_, rfl⟩
      have hnext : elapsedTicks OSTime t₁ = d + 1 := by omega
      rw [if_pos hgt, hmissing, hnext]
      rw [hnext] at hd
      have hd1 := Nat.lt_of_le_of_lt (Nat.mul_le_mul_right 1000 d.le_succ) hd
      rw [Nat.mod_eq_of_lt hd1]
      refine iff_of_false (by omega) ?_
      rintro (hlt' | ⟨heq, -⟩)
      · exact hlt hlt'
      · omega
    · have hd' : elapsedTicks OSTime t₁ = 0 := by
        rw [elapsedTicks]
        omega
      rw [if_neg hgt, hd']
      omega

end

/-- **When the milliseconds are right** in both functions: if the second reading is the larger
one. -/
theorem measured_iff (timeout OSTime : UInt32) (during : List ClockEvent)
    (hd : elapsedTicks OSTime (OSTimeAfter OSTime during) * 1000 < 2 ^ 32) :
    Measured timeout OSTime during ↔ OSTime.toNat < (OSTimeAfter OSTime during).toNat := by
  have hmbox := @ret_eq_iff 65535 mboxSub _ toNat_mboxSub timeout OSTime during hd
  have hsem := @ret_eq_iff 65536 semSub _ toNat_semSub timeout OSTime during hd
  refine (and_congr hmbox hsem).trans ⟨fun h => ?_, fun h => ⟨Or.inl h, Or.inl h⟩⟩
  exact h.1.resolve_right fun hrest => absurd hrest.2 (by decide)

theorem measured_iff_ticks : Measured 0 7 [.tick, .tick] :=
  (measured_iff 0 7 [.tick, .tick] (by decide)).mpr (by decide)

/-- A message that was there already: 42949663 milliseconds.  And a tick across the end of the
counter: none. -/
theorem measured_wrong :
    (elapsedTicks 7 (OSTimeAfter 7 []) = 0 ∧ ¬ Measured 0 7 []) ∧
      elapsedTicks 0xffffffff (OSTimeAfter 0xffffffff [.tick]) = 1 ∧
        ¬ Measured 0 0xffffffff [.tick] := by
  refine ⟨⟨by decide, ?_⟩, by decide, ?_⟩
  · rintro ⟨h, -⟩
    exact absurd h (by decide)
  · rintro ⟨h, -⟩
    exact absurd h (by decide)

/-! ### From milliseconds to ticks -/

/-- The number of ticks of a timeout, in unbounded numbers. -/
def ticksOf (timeout : UInt32) : Nat := min 65535 (max 1 (timeout.toNat * 100 / 1000))

/-- Both functions pass this number to the kernel, and it is not the zero of an unbounded wait. -/
def Converts (timeout : UInt32) : Prop :=
  ∀ OSTime ucErr during,
    (sysArchMboxFetch timeout OSTime ucErr during).ucos_timeout.toNat = ticksOf timeout ∧
      (sysArchSemWait timeout OSTime ucErr during).ucos_timeout.toNat = ticksOf timeout ∧
      (sysArchMboxFetch timeout OSTime ucErr during).ucos_timeout ≠ 0 ∧
      (sysArchSemWait timeout OSTime ucErr during).ucos_timeout ≠ 0

/-- The product is a 32-bit number, or what is left of it exceeds the bound all the same; and it is
not in the second that makes 65536 ticks. -/
def Convertible (timeout : UInt32) : Prop :=
  (timeout.toNat * 100 < 2 ^ 32 ∨ 65535000 ≤ timeout.toNat * 100 % 2 ^ 32) ∧
    ¬ (65536000 ≤ timeout.toNat * 100 % 2 ^ 32 ∧ timeout.toNat * 100 % 2 ^ 32 < 65537000)

/-- The two tests and the cast to 16 bits. -/
def clampTicks (bound q : Nat) : Nat :=
  if q < 1 then 1 else if bound < q then 65535 else q % 2 ^ 16

theorem toNat_ucosTimeout {timeout : UInt32} (h : timeout ≠ 0) (bound : UInt32) :
    (ucosTimeout bound timeout).toUInt16.toNat =
      clampTicks bound.toNat (timeout.toNat * 100 % 2 ^ 32 / 1000) := by
  have hticks : (timeout * OS_TICKS_PER_SEC / 1000).toNat =
      timeout.toNat * 100 % 2 ^ 32 / 1000 := by
    rw [UInt32.toNat_div, UInt32.toNat_mul]
    rfl
  have h1 : (1 : UInt32).toNat = 1 := rfl
  rw [ucosTimeout, if_pos h, clampTicks]
  simp only [UInt32.lt_iff_toNat_lt, gt_iff_lt, hticks, h1]
  split
  · rfl
  · split
    · rfl
    · rw [UInt32.toNat_toUInt16, hticks]

theorem clampTicks_mbox (q : Nat) : clampTicks 65535 q = min 65535 (max 1 q) := by
  rw [clampTicks]
  by_cases h1 : q < 1
  · rw [if_pos h1]
    omega
  · rw [if_neg h1]
    by_cases hbound : 65535 < q
    · rw [if_pos hbound]
      omega
    · rw [if_neg hbound]
      omega

theorem clampTicks_sem {q : Nat} (h : q ≠ 65536) : clampTicks 65536 q = clampTicks 65535 q := by
  have hbounds : 65536 < q ↔ 65535 < q := by omega
  simp only [clampTicks, hbounds]

/-- The bounds hide that a product has wrapped around only if what is left of it exceeds them. -/
theorem clamped_eq_iff (p : Nat) :
    min 65535 (max 1 (p % 2 ^ 32 / 1000)) = min 65535 (max 1 (p / 1000)) ↔
      p < 2 ^ 32 ∨ 65535000 ≤ p % 2 ^ 32 := by
  by_cases hp : p < 2 ^ 32
  · rw [Nat.mod_eq_of_lt hp]
    exact iff_of_true rfl (Or.inl hp)
  · have hmany : 65535 ≤ p / 1000 := by omega
    omega

/-- The property of a timeout, as one of the quotient. -/
theorem converts_iff_quotient {timeout : UInt32} (h : timeout ≠ 0) :
    Converts timeout ↔
      clampTicks 65535 (timeout.toNat * 100 % 2 ^ 32 / 1000) = ticksOf timeout ∧
        clampTicks 65536 (timeout.toNat * 100 % 2 ^ 32 / 1000) = ticksOf timeout := by
  have hmbox : (ucosTimeout 65535 timeout).toUInt16.toNat = _ := toNat_ucosTimeout h 65535
  have hsem : (ucosTimeout 65536 timeout).toUInt16.toNat = _ := toNat_ucosTimeout h 65536
  constructor
  · intro hall
    obtain ⟨hm, hs, -, -⟩ := hall 0 .OS_ERR_NONE []
    exact ⟨hmbox.symm.trans hm, hsem.symm.trans hs⟩
  · rintro ⟨hm, hs⟩ OSTime ucErr during
    have hpos : ticksOf timeout ≠ 0 := by
      rw [ticksOf]
      omega
    refine ⟨hmbox.trans hm, hsem.trans hs, fun h0 => hpos ?_, fun h0 => hpos ?_⟩
    · exact (hmbox.trans hm).symm.trans (congrArg UInt16.toNat h0)
    · exact (hsem.trans hs).symm.trans (congrArg UInt16.toNat h0)

theorem ticksOf_mono {timeout timeout' : UInt32} (h : timeout ≤ timeout') :
    ticksOf timeout ≤ ticksOf timeout' := by
  have hle := UInt32.le_iff_toNat_le.mp h
  rw [ticksOf, ticksOf]
  omega

theorem convertible_iff {timeout : UInt32} (h : timeout ≠ 0) :
    Converts timeout ↔ Convertible timeout := by
  rw [converts_iff_quotient h, Convertible, ← clamped_eq_iff, ← ticksOf, ← clampTicks_mbox]
  obtain ⟨p, hp⟩ : ∃ p, timeout.toNat * 100 % 2 ^ 32 = p := ⟨_, rfl⟩
  rw [hp]
  refine and_congr_right fun hmbox => ⟨?_, fun hne => ?_⟩
  · -- 65536 ticks pass the test of the semaphore, and the cast makes them zero
    rintro hsem ⟨hlo, hhi⟩
    have hq : p / 1000 = 65536 := by omega
    rw [hq] at hmbox hsem
    exact absurd (hsem.trans hmbox.symm) (by decide)
  · rw [clampTicks_sem (by omega), hmbox]

/-- **When a timeout is converted right** by both functions.  Among such timeouts the number of
ticks does not decrease. -/
theorem converts_iff {timeout : UInt32} (h : timeout ≠ 0) :
    (Converts timeout ↔ Convertible timeout) ∧
      ∀ timeout', timeout ≤ timeout' → Convertible timeout → Convertible timeout' →
        ∀ OSTime ucErr during,
          (sysArchMboxFetch timeout OSTime ucErr during).ucos_timeout ≤
              (sysArchMboxFetch timeout' OSTime ucErr during).ucos_timeout ∧
            (sysArchSemWait timeout OSTime ucErr during).ucos_timeout ≤
              (sysArchSemWait timeout' OSTime ucErr during).ucos_timeout := by
  refine ⟨convertible_iff h, fun timeout' hle hc hc' OSTime ucErr during => ?_⟩
  have h' : timeout' ≠ 0 := by
    rintro rfl
    exact h (UInt32.le_zero_iff.mp hle)
  obtain ⟨hm, hs, -, -⟩ := (convertible_iff h).mpr hc OSTime ucErr during
  obtain ⟨hm', hs', -, -⟩ := (convertible_iff h').mpr hc' OSTime ucErr during
  rw [UInt16.le_iff_toNat_le, UInt16.le_iff_toNat_le, hm, hm', hs, hs']
  exact ⟨ticksOf_mono hle, ticksOf_mono hle⟩

theorem converts_iff_quarter : Converts 250 ∧
    (sysArchSemWait 250 0 .OS_ERR_NONE []).ucos_timeout ≤
      (sysArchSemWait 1000 0 .OS_ERR_NONE []).ucos_timeout := by
  have h250 : Convertible 250 := ⟨Or.inl (by decide), fun h => absurd h.1 (by decide)⟩
  have h1000 : Convertible 1000 := ⟨Or.inl (by decide), fun h => absurd h.1 (by decide)⟩
  have h := @converts_iff 250 (by decide)
  exact ⟨h.1.mpr h250, (h.2 1000 (by decide) h250 h1000 0 .OS_ERR_NONE []).2⟩

/-- 655360 milliseconds make 65536 ticks, and the semaphore is waited for without bound.  The
product of 42949673 and the tick rate is 4. -/
theorem converts_wrong : ¬ Converts 655360 ∧ ¬ Converts 42949673 := by
  constructor
  · intro h
    obtain ⟨-, -, -, hsem⟩ := h 0 .OS_ERR_NONE []
    exact hsem (by decide)
  · intro h
    obtain ⟨hmbox, -, -, -⟩ := h 0 .OS_ERR_NONE []
    exact absurd hmbox (by decide)

end Nl6621.Port
