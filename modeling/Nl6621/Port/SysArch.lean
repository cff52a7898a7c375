import Mathlib.Tactic.Common
import Nl6621.Lib.Words

/-!
# Waiting and the clock

`_sys_arch_mbox_fetch` and `_sys_arch_sem_wait` measure how long they have waited with the tick
counter of the kernel, and `ModifyLocalTime` sets the same counter.  What happens to the counter
while a task is suspended is a list of `ClockEvent`s: tick interrupts and settings of the clock,
in their order.  How the wait itself ends, by a post or by its timeout, is given; a timeout is
counted in tick interrupts and has nothing to do with the counter.

The two functions differ in the bound of their timeout and in one comparison.  `sysArchWait` is
what they have in common.

`waiting_undisturbed` says what a setting of the clock does to the milliseconds that are
returned.  When there is none, they are a matter of the number of ticks, except in a wait
during which the counter runs over.  When there is one, there is always a reading of the clock
at the start of the wait with which they come out differently.
-/

namespace Nl6621.Port

open Lib

/-! ### The functions of the source -/

def OS_TICKS_PER_SEC : UInt32 := 100

def SYS_ARCH_TIMEOUT : UInt32 := 0xffffffff

/-- The tick counter that `ModifyLocalTime` stores. -/
def modifyLocalTime (tv_sec : UInt32) : UInt32 :=
  let time := tv_sec - 1417305600
  time * OS_TICKS_PER_SEC

/-- What can happen to the tick counter. -/
inductive ClockEvent where
  /-- `OSTimeTick` -/
  | tick
  /-- `ModifyLocalTime`, called by `start_ntp` -/
  | modify (tv_sec : UInt32)
deriving DecidableEq, Repr

def OSTimeAfter (OSTime : UInt32) : List ClockEvent → UInt32
  | [] => OSTime
  | .tick :: es => OSTimeAfter (OSTime + 1) es
  | .modify tv_sec :: es => OSTimeAfter (modifyLocalTime tv_sec) es

/-- How `OSQPend` and `OSSemPend` come back. -/
inductive PendErr where
  | OS_ERR_NONE | OS_ERR_TIMEOUT
deriving DecidableEq, Repr

/-- The number of ticks given to the kernel, and what is returned. -/
structure Waited where
  ucos_timeout : UInt16
  ret : UInt32
deriving DecidableEq, Repr

/-- The conversion of the timeout, with the bound that is tested. -/
def ucosTimeout (bound timeout : UInt32) : UInt32 :=
  if timeout ≠ 0 then
    let ucos_timeout := timeout * OS_TICKS_PER_SEC / 1000
    if ucos_timeout < 1 then 1
    else if ucos_timeout > bound then 65535
    else ucos_timeout
  else 0

/-- The two functions, which differ in the bound of the timeout and in how they subtract the
two readings of the clock. -/
def sysArchWait (bound : UInt32) (sub : UInt32 → UInt32 → UInt32) (timeout OSTime : UInt32)
    (ucErr : PendErr) (during : List ClockEvent) : Waited where
  ucos_timeout := (ucosTimeout bound timeout).toUInt16
  ret :=
    if ucErr = .OS_ERR_TIMEOUT then SYS_ARCH_TIMEOUT
    else sub OSTime (OSTimeAfter OSTime during) * 1000 / OS_TICKS_PER_SEC + 1

def mboxSub (timeout timeout_new : UInt32) : UInt32 :=
  if timeout_new > timeout then timeout_new - timeout else 0xffffffff - timeout + timeout_new

def semSub (timeout timeout_new : UInt32) : UInt32 :=
  if timeout_new ≥ timeout then timeout_new - timeout else 0xffffffff - timeout + timeout_new

def sysArchMboxFetch : UInt32 → UInt32 → PendErr → List ClockEvent → Waited :=
  sysArchWait 65535 mboxSub

def sysArchSemWait : UInt32 → UInt32 → PendErr → List ClockEvent → Waited :=
  sysArchWait 65536 semSub

/-! ### The property -/

/-- What would have happened without `ModifyLocalTime`. -/
def unset (es : List ClockEvent) : List ClockEvent := es.filter (· = .tick)

/-- The number of tick interrupts. -/
def ticks (es : List ClockEvent) : Nat := (unset es).length

/-- The milliseconds are those of the wait without any setting of the clock, and these depend
on the number of ticks alone: they are the same as from a clock at zero. -/
structure Undisturbed (wait : UInt32 → UInt32 → PendErr → List ClockEvent → Waited)
    (timeout OSTime : UInt32) (es : List ClockEvent) : Prop where
  asUnset : (wait timeout OSTime .OS_ERR_NONE es).ret =
    (wait timeout OSTime .OS_ERR_NONE (unset es)).ret
  byTicks : (wait timeout OSTime .OS_ERR_NONE es).ret =
    (wait timeout 0 .OS_ERR_NONE (unset es)).ret

/-- The difference of two readings of the clock, by the numbers they stand for.  Behind the end
of the counter it is one too small, and the two functions part where the readings are equal. -/
def elapsed (atRest t t' : Nat) : Nat :=
  if t < t' then t' - t else if t' < t then 2 ^ 32 - 1 - t + t' else atRest

/-- Two numbers of ticks that the conversion to milliseconds cannot tell from each other: the
product with 1000 is taken modulo `2 ^ 32`. -/
def SameMs (d d' : Nat) : Prop := d * 1000 % 2 ^ 32 / 100 = d' * 1000 % 2 ^ 32 / 100

instance (d d' : Nat) : Decidable (SameMs d d') := by unfold SameMs; infer_instance

/-- The readings `t` and `t'` look like those of a clock that `n` ticks have moved on. -/
def LookLike (atRest t t' n : Nat) : Prop :=
  SameMs (elapsed atRest t t') (if n = 0 then atRest else n)

/-! ### Subtracting two readings -/

theorem toNat_across {t t' : UInt32} (h : t'.toNat ≤ t.toNat) :
    (0xffffffff - t + t').toNat = 2 ^ 32 - 1 - t.toNat + t'.toNat := by
  have htop : (0xffffffff : UInt32).toNat = 2 ^ 32 - 1 := rfl
  have ht := t.toNat_lt
  have hsub : (0xffffffff - t).toNat = 2 ^ 32 - 1 - t.toNat := by
    rw [toNat_sub_of_le (by omega), htop]
  rw [toNat_add_of_lt (by omega), hsub]

theorem toNat_mboxSub (t t' : UInt32) :
    (mboxSub t t').toNat = elapsed (2 ^ 32 - 1) t.toNat t'.toNat := by
  have ht := t.toNat_lt
  rw [mboxSub, elapsed]
  by_cases h : t.toNat < t'.toNat
  · rw [if_pos (UInt32.lt_iff_toNat_lt.mpr h), if_pos h, toNat_sub_of_le (by omega)]
  · rw [if_neg fun hlt => h (UInt32.lt_iff_toNat_lt.mp hlt), if_neg h, toNat_across (by omega)]
    by_cases h' : t'.toNat < t.toNat
    · rw [if_pos h']
    · rw [if_neg h']
      omega

theorem toNat_semSub (t t' : UInt32) :
    (semSub t t').toNat = elapsed 0 t.toNat t'.toNat := by
  rw [semSub, elapsed]
  by_cases h : t.toNat ≤ t'.toNat
  · rw [if_pos (UInt32.le_iff_toNat_le.mpr h), toNat_sub_of_le h,
      if_neg (by omega : ¬ t'.toNat < t.toNat)]
    by_cases h' : t.toNat < t'.toNat
    · rw [if_pos h']
    · rw [if_neg h']
      omega
  · rw [if_neg fun hle => h (UInt32.le_iff_toNat_le.mp hle), if_neg (by omega), if_pos (by omega),
      toNat_across (by omega)]

/-! ### The clock -/

theorem unset_tick (es : List ClockEvent) : unset (.tick :: es) = .tick :: unset es := rfl

theorem toNat_OSTimeAfter_unset (es : List ClockEvent) : ∀ OSTime : UInt32,
    (OSTimeAfter OSTime (unset es)).toNat = (OSTime.toNat + ticks es) % 2 ^ 32 := by
  induction es with
  | nil =>
    intro OSTime
    exact (Nat.mod_eq_of_lt OSTime.toNat_lt).symm
  | cons e es ih =>
    intro OSTime
    cases e with
    | tick =>
      have h1 : (OSTime + 1).toNat = (OSTime.toNat + 1) % 2 ^ 32 := UInt32.toNat_add ..
      have hticks : ticks (.tick :: es) = ticks es + 1 := rfl
      rw [unset_tick, OSTimeAfter, ih, h1, hticks]
      omega
    | modify tv_sec => exact ih OSTime

/-- After a setting of the clock its earlier readings do not matter any more. -/
theorem OSTimeAfter_modify (es : List ClockEvent) (h : ∃ tv_sec, .modify tv_sec ∈ es) :
    ∃ OSTime', ∀ OSTime, OSTimeAfter OSTime es = OSTime' := by
  induction es with
  | nil =>
    obtain ⟨_, h⟩ := h
    cases h
  | cons e es ih =>
    cases e with
    | tick =>
      obtain ⟨tv_sec, h⟩ := h
      obtain ⟨OSTime', h'⟩ := ih ⟨tv_sec, by simpa using h⟩
      exact ⟨OSTime', fun OSTime => h' _⟩
    | modify tv_sec => exact ⟨_, fun OSTime => rfl⟩

theorem unset_eq_self_iff (es : List ClockEvent) :
    unset es = es ↔ ¬ ∃ tv_sec, .modify tv_sec ∈ es := by
  rw [unset, List.filter_eq_self]
  constructor
  · rintro h ⟨tv_sec, hmem⟩
    exact absurd (h _ hmem) (by simp)
  · intro h e he
    cases e with
    | tick => rfl
    | modify tv_sec => exact absurd ⟨tv_sec, he⟩ h

/-! ### Milliseconds -/

theorem toNat_ms (x : UInt32) :
    (x * 1000 / OS_TICKS_PER_SEC + 1).toNat = x.toNat * 1000 % 2 ^ 32 / 100 + 1 := by
  have h1000 : (x * 1000 / OS_TICKS_PER_SEC).toNat = x.toNat * 1000 % 2 ^ 32 / 100 := by
    rw [UInt32.toNat_div, UInt32.toNat_mul]
    rfl
  have h1 : (1 : UInt32).toNat = 1 := rfl
  rw [toNat_add_of_lt (by omega), h1000, h1]

theorem toMs_eq_iff (d d' : UInt32) :
    d * 1000 / OS_TICKS_PER_SEC + 1 = d' * 1000 / OS_TICKS_PER_SEC + 1 ↔
      SameMs d.toNat d'.toNat := by
  rw [← UInt32.toNat_inj, toNat_ms, toNat_ms, SameMs]
  omega

/-- Numbers of ticks that differ by one or two are told from each other. -/
theorem ms_ne {x y : Nat} (hlt : x < y) (hle : y ≤ x + 2) (hy : y < 2 ^ 32) :
    x * 1000 % 2 ^ 32 / 100 ≠ y * 1000 % 2 ^ 32 / 100 := by
  obtain ⟨k, rfl⟩ : ∃ k, y = x + k := ⟨y - x, by omega⟩
  rw [Nat.add_mul, Nat.add_mod, Nat.mod_eq_of_lt (by omega : k * 1000 < 2 ^ 32)]
  have hr : x * 1000 % 2 ^ 32 < 2 ^ 32 := Nat.mod_lt _ (by omega)
  obtain ⟨r, hr'⟩ : ∃ r, x * 1000 % 2 ^ 32 = r := ⟨_, rfl⟩
  rw [hr'] at hr ⊢
  by_cases hover : r + k * 1000 < 2 ^ 32
  · rw [Nat.mod_eq_of_lt hover]
    omega
  · rw [Nat.mod_eq_sub_mod (by omega), Nat.mod_eq_of_lt (by omega)]
    omega

/-- The difference after `n` ticks, from a clock that was not set. -/
theorem elapsed_ticks (atRest : Nat) {t : Nat} (n : Nat) (ht : t < 2 ^ 32) :
    elapsed atRest t ((t + n) % 2 ^ 32) =
      if n % 2 ^ 32 = 0 then atRest
      else if t + n % 2 ^ 32 < 2 ^ 32 then n % 2 ^ 32 else n % 2 ^ 32 - 1 := by
  rw [elapsed]
  by_cases h0 : n % 2 ^ 32 = 0
  · rw [if_pos h0, if_neg (by omega), if_neg (by omega)]
  · rw [if_neg h0]
    by_cases h : t + n % 2 ^ 32 < 2 ^ 32
    · rw [if_pos h, if_pos (by omega)]
      omega
    · rw [if_neg h, if_neg (by omega), if_pos (by omega)]
      omega

section Wait

variable {bound : UInt32} {sub : UInt32 → UInt32 → UInt32} {atRest : Nat}

theorem sysArchWait_ret_eq_iff (timeout t t' : UInt32) (es es' : List ClockEvent) :
    (sysArchWait bound sub timeout t .OS_ERR_NONE es).ret =
        (sysArchWait bound sub timeout t' .OS_ERR_NONE es').ret ↔
      SameMs (sub t (OSTimeAfter t es)).toNat (sub t' (OSTimeAfter t' es')).toNat :=
  toMs_eq_iff _ _

/-- **Without a setting of the clock the number of ticks decides**, unless the counter runs
over. -/
theorem sameMs_zero_iff (hsub : ∀ t t', (sub t t').toNat = elapsed atRest t.toNat t'.toNat)
    (t : UInt32) (es : List ClockEvent) :
    SameMs (sub t (OSTimeAfter t (unset es))).toNat (sub 0 (OSTimeAfter 0 (unset es))).toNat ↔
      t.toNat + ticks es % 2 ^ 32 < 2 ^ 32 := by
  have ht := t.toNat_lt
  have h0 : (0 : UInt32).toNat = 0 := rfl
  rw [SameMs, hsub, hsub, toNat_OSTimeAfter_unset, toNat_OSTimeAfter_unset, elapsed_ticks _ _ ht,
    elapsed_ticks _ _ (by omega), h0]
  by_cases hn : ticks es % 2 ^ 32 = 0
  · rw [if_pos hn, if_pos hn]
    omega
  · rw [if_neg hn, if_neg hn, if_pos (by omega : 0 + ticks es % 2 ^ 32 < 2 ^ 32)]
    by_cases h : t.toNat + ticks es % 2 ^ 32 < 2 ^ 32
    · rw [if_pos h]
      exact ⟨fun _ => h, fun _ => rfl⟩
    · rw [if_neg h]
      exact ⟨fun hms => absurd hms (ms_ne (by omega) (by omega) (by omega)), fun h' => absurd h' h⟩

/-- The reading without any setting of the clock is put by the number of ticks. -/
theorem sameMs_unset_iff (hsub : ∀ t t', (sub t t').toNat = elapsed atRest t.toNat t'.toNat)
    {t : UInt32} {es : List ClockEvent} (hlt : t.toNat + ticks es % 2 ^ 32 < 2 ^ 32) :
    SameMs (sub t (OSTimeAfter t es)).toNat (sub t (OSTimeAfter t (unset es))).toNat ↔
      LookLike atRest t.toNat (OSTimeAfter t es).toNat (ticks es % 2 ^ 32) := by
  rw [hsub, hsub, toNat_OSTimeAfter_unset, elapsed_ticks _ _ t.toNat_lt, if_pos hlt, LookLike]

theorem undisturbed_iff (hsub : ∀ t t', (sub t t').toNat = elapsed atRest t.toNat t'.toNat)
    (timeout t : UInt32) (es : List ClockEvent) :
    Undisturbed (sysArchWait bound sub) timeout t es ↔
      t.toNat + ticks es % 2 ^ 32 < 2 ^ 32 ∧ ((¬ ∃ tv_sec, .modify tv_sec ∈ es) ∨
        LookLike atRest t.toNat (OSTimeAfter t es).toNat (ticks es % 2 ^ 32)) := by
  have hzero := sameMs_zero_iff hsub t es
  constructor
  · intro h
    have h1 := (sysArchWait_ret_eq_iff ..).mp h.asUnset
    have h2 := (sysArchWait_ret_eq_iff ..).mp h.byTicks
    have hlt := hzero.mp (h1.symm.trans h2)
    exact ⟨hlt, .inr ((sameMs_unset_iff hsub hlt).mp h1)⟩
  · rintro ⟨hlt, h⟩
    have h1 : SameMs (sub t (OSTimeAfter t es)).toNat (sub t (OSTimeAfter t (unset es))).toNat := by
      rcases h with h | h
      · rw [(unset_eq_self_iff es).mpr h]
        rfl
      · exact (sameMs_unset_iff hsub hlt).mpr h
    exact ⟨(sysArchWait_ret_eq_iff ..).mpr h1,
      (sysArchWait_ret_eq_iff ..).mpr (h1.trans (hzero.mpr hlt))⟩

/-- **A setting of the clock always shows at some reading of it.**  Near the reading at the end,
three starts of the wait give three different results, and without the setting there are only
two. -/
theorem asUnset_always_iff (hsub : ∀ t t', (sub t t').toNat = elapsed atRest t.toNat t'.toNat)
    (timeout : UInt32) (es : List ClockEvent) :
    (∀ t, (sysArchWait bound sub timeout t .OS_ERR_NONE es).ret =
        (sysArchWait bound sub timeout t .OS_ERR_NONE (unset es)).ret) ↔
      ¬ ∃ tv_sec, .modify tv_sec ∈ es := by
  constructor
  · intro h hset
    obtain ⟨a, ha⟩ := OSTimeAfter_modify es hset
    have halt := a.toNat_lt
    -- without the setting of the clock there are only two results
    obtain ⟨p, q, htwo⟩ : ∃ p q, ∀ t, t < 2 ^ 32 →
        elapsed atRest t a.toNat * 1000 % 2 ^ 32 / 100 = p ∨
          elapsed atRest t a.toNat * 1000 % 2 ^ 32 / 100 = q := by
      have hat : ∀ t, t < 2 ^ 32 → elapsed atRest t a.toNat * 1000 % 2 ^ 32 / 100 =
          elapsed atRest t ((t + ticks es) % 2 ^ 32) * 1000 % 2 ^ 32 / 100 := by
        intro t ht
        have hms := (sysArchWait_ret_eq_iff ..).mp (h (UInt32.ofNat t))
        rw [SameMs, hsub, hsub, toNat_OSTimeAfter_unset, ha, UInt32.toNat_ofNat_of_lt' ht] at hms
        exact hms
      by_cases hn : ticks es % 2 ^ 32 = 0
      · refine ⟨atRest * 1000 % 2 ^ 32 / 100, 0, fun t ht => .inl ?_⟩
        rw [hat t ht, elapsed_ticks _ _ ht, if_pos hn]
      · refine ⟨ticks es % 2 ^ 32 * 1000 % 2 ^ 32 / 100,
          (ticks es % 2 ^ 32 - 1) * 1000 % 2 ^ 32 / 100, fun t ht => ?_⟩
        rw [hat t ht, elapsed_ticks _ _ ht, if_neg hn]
        by_cases hover : t + ticks es % 2 ^ 32 < 2 ^ 32
        · rw [if_pos hover]
          exact .inl rfl
        · rw [if_neg hover]
          exact .inr rfl
    have hnear : ∃ t₁ t₂ t₃, t₁ < 2 ^ 32 ∧ t₂ < 2 ^ 32 ∧ t₃ < 2 ^ 32 ∧
        elapsed atRest t₁ a.toNat < elapsed atRest t₂ a.toNat ∧
        elapsed atRest t₂ a.toNat < elapsed atRest t₃ a.toNat ∧
        elapsed atRest t₃ a.toNat ≤ elapsed atRest t₁ a.toNat + 2 ∧
        elapsed atRest t₃ a.toNat < 2 ^ 32 := by
      unfold elapsed
      by_cases hbig : 3 ≤ a.toNat
      · refine ⟨a.toNat - 1, a.toNat - 2, a.toNat - 3, by omega, by omega, by omega, ?_⟩
        rw [if_pos (by omega), if_pos (by omega), if_pos (by omega)]
        omega
      · refine ⟨a.toNat + 3, a.toNat + 2, a.toNat + 1, by omega, by omega, by omega, ?_⟩
        rw [if_neg (by omega), if_pos (by omega), if_neg (by omega), if_pos (by omega),
          if_neg (by omega), if_pos (by omega)]
        omega
    obtain ⟨t₁, t₂, t₃, h1, h2, h3, h12, h23, h31, hlt⟩ := hnear
    have e12 := ms_ne h12 (by omega) (by omega)
    have e23 := ms_ne h23 (by omega) hlt
    have e13 := ms_ne (by omega) h31 hlt
    rcases htwo t₁ h1 with hp1 | hq1 <;> rcases htwo t₂ h2 with hp2 | hq2 <;>
      rcases htwo t₃ h3 with hp3 | hq3 <;> omega
  · intro h t
    rw [(unset_eq_self_iff es).mpr h]

end Wait

/-! ### The law -/

/-- **What waiting has to do with the clock.**  For each of the two functions: a wait is
undisturbed if and only if the counter does not run over in it, and either the clock is not set
or its readings at the two ends look like those of a clock that the ticks alone have moved on; and a
list of events leaves the result alone from every reading of the clock if and only if the clock is not set in it. -/
theorem waiting_undisturbed (timeout OSTime : UInt32) (es : List ClockEvent) :
    (Undisturbed sysArchMboxFetch timeout OSTime es ↔
      OSTime.toNat + ticks es % 2 ^ 32 < 2 ^ 32 ∧ ((¬ ∃ tv_sec, .modify tv_sec ∈ es) ∨
        LookLike (2 ^ 32 - 1) OSTime.toNat (OSTimeAfter OSTime es).toNat (ticks es % 2 ^ 32))) ∧
    (Undisturbed sysArchSemWait timeout OSTime es ↔
      OSTime.toNat + ticks es % 2 ^ 32 < 2 ^ 32 ∧ ((¬ ∃ tv_sec, .modify tv_sec ∈ es) ∨
        LookLike 0 OSTime.toNat (OSTimeAfter OSTime es).toNat (ticks es % 2 ^ 32))) ∧
    ((∀ OSTime, (sysArchMboxFetch timeout OSTime .OS_ERR_NONE es).ret =
        (sysArchMboxFetch timeout OSTime .OS_ERR_NONE (unset es)).ret) ↔
      ¬ ∃ tv_sec, .modify tv_sec ∈ es) ∧
    ((∀ OSTime, (sysArchSemWait timeout OSTime .OS_ERR_NONE es).ret =
        (sysArchSemWait timeout OSTime .OS_ERR_NONE (unset es)).ret) ↔
      ¬ ∃ tv_sec, .modify tv_sec ∈ es) :=
  ⟨undisturbed_iff toNat_mboxSub timeout OSTime es, undisturbed_iff toNat_semSub timeout OSTime es,
    asUnset_always_iff toNat_mboxSub timeout es, asUnset_always_iff toNat_semSub timeout es⟩

/-- A wait of two ticks, with the clock put ten seconds past the epoch of the counter between
them: 10011 milliseconds instead of 21. -/
theorem waiting_disturbed :
    ¬ Undisturbed sysArchMboxFetch 0 0 [.tick, .modify 1417305610, .tick] ∧
      ¬ Undisturbed sysArchSemWait 0 0 [.tick, .modify 1417305610, .tick] := by
  constructor
  · intro h
    exact absurd h.asUnset (by decide)
  · intro h
    exact absurd h.asUnset (by decide)

end Nl6621.Port
