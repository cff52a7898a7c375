import Nl6621.Port.SysArch

/-!
# The time from the network

`start_ntp` takes the time from the transmit timestamp of an NTP packet and sets the tick counter
of the kernel to the hundredths of a second since a base date, the 30th of November 2014;
`GetLocalTime` goes back from the counter to the seconds, eight hours east of Greenwich.

The counter has 32 bits, so it runs over 497 days after the base date, and the product with the
tick rate with it.  `localTime_iff` says that the time shown is right up to there and wrong from
there on.
-/

namespace Nl6621.NuAgent.Ntp

open Lib Port

/-! ### The functions of the source -/

def JAN_1970 : UInt32 := 0x83aa7e80

def USEC (x : UInt32) : UInt32 :=
  UInt32.shiftRight x 12 - 759 * UInt32.shiftRight (UInt32.shiftRight x 10 + 32768) 16

/-- The four bytes of a number in network order. -/
def ntohl (b : UInt8 × UInt8 × UInt8 × UInt8) : UInt32 :=
  UInt32.ofNat (((b.1.toNat * 256 + b.2.1.toNat) * 256 + b.2.2.1.toNat) * 256 + b.2.2.2.toNat)

/-- The member `trantime` of a packet. -/
structure NtpTime where
  coarse : UInt8 × UInt8 × UInt8 × UInt8
  fine : UInt8 × UInt8 × UInt8 × UInt8

structure Timeval where
  tv_sec : UInt32
  tv_usec : UInt32

def getSynTimeFromNtpPacked (trantime : NtpTime) : Timeval where
  tv_sec := ntohl trantime.coarse - JAN_1970
  tv_usec := USEC (ntohl trantime.fine)

def getLocalTime (OSTime : UInt32) : Timeval where
  tv_sec := OSTime / OS_TICKS_PER_SEC + 1417305600 + 28800
  tv_usec := OSTime % OS_TICKS_PER_SEC / OS_TICKS_PER_SEC * 1000

/-- The packet that is received, if there is one; the return value, and the tick counter. -/
def startNtp (SynNtpPacked : Option NtpTime) (OSTime : UInt32) : Int × UInt32 :=
  match SynNtpPacked with
  | none => (1, OSTime)
  | some trantime => (0, modifyLocalTime (getSynTimeFromNtpPacked trantime).tv_sec)

/-! ### From the packet to the counter and back -/

theorem toNat_getSynTime {trantime : NtpTime} {s : Nat} (hs : s < 2 ^ 32)
    (h : (ntohl trantime.coarse).toNat = (s + JAN_1970.toNat) % 2 ^ 32) :
    (getSynTimeFromNtpPacked trantime).tv_sec.toNat = s := by
  have hjan : JAN_1970.toNat = 2208988800 := rfl
  rw [hjan] at h
  rw [getSynTimeFromNtpPacked, UInt32.toNat_sub, h, hjan]
  omega

theorem toNat_modifyLocalTime {tv_sec : UInt32} (h : 1417305600 ≤ tv_sec.toNat) :
    (modifyLocalTime tv_sec).toNat = (tv_sec.toNat - 1417305600) * 100 % 2 ^ 32 := by
  have hbase : (1417305600 : UInt32).toNat = 1417305600 := rfl
  have hticks : OS_TICKS_PER_SEC.toNat = 100 := rfl
  rw [modifyLocalTime, UInt32.toNat_mul, hticks, toNat_sub_of_le (hbase ▸ h), hbase]

/-- The counter after `k` ticks. -/
theorem toNat_OSTimeAfter_ticks (k : Nat) : ∀ OSTime : UInt32,
    (OSTimeAfter OSTime (List.replicate k .tick)).toNat = (OSTime.toNat + k) % 2 ^ 32 := by
  induction k with
  | zero =>
    intro OSTime
    exact (Nat.mod_eq_of_lt OSTime.toNat_lt).symm
  | succ k ih =>
    intro OSTime
    have h1 : (OSTime + 1).toNat = (OSTime.toNat + 1) % 2 ^ 32 := UInt32.toNat_add ..
    rw [List.replicate_succ, OSTimeAfter, ih, h1]
    omega

theorem toNat_getLocalTime (OSTime : UInt32) :
    (getLocalTime OSTime).tv_sec.toNat = OSTime.toNat / 100 + 1417305600 + 28800 := by
  have hlt := OSTime.toNat_lt
  have hbase : (1417305600 : UInt32).toNat = 1417305600 := rfl
  have hzone : (28800 : UInt32).toNat = 28800 := rfl
  have hdiv : (OSTime / OS_TICKS_PER_SEC).toNat = OSTime.toNat / 100 := UInt32.toNat_div ..
  have hsum : (OSTime / OS_TICKS_PER_SEC + 1417305600).toNat = OSTime.toNat / 100 + 1417305600 := by
    rw [toNat_add_of_lt (by omega), hdiv, hbase]
  rw [getLocalTime, toNat_add_of_lt (by omega), hsum, hzone]

/-! ### When the time shown is right -/

/-- **When the time shown is right**: up to the hundredth of a second at which the counter runs
over. -/
theorem localTime_iff {s : Nat} (k : Nat) (trantime : NtpTime) (OSTime : UInt32)
    (hs : 1417305600 ≤ s) (hlt : s < 2 ^ 32 - 28800)
    (htime : (ntohl trantime.coarse).toNat = (s + JAN_1970.toNat) % 2 ^ 32) :
    (getLocalTime (OSTimeAfter (startNtp (some trantime) OSTime).2
        (List.replicate k .tick))).tv_sec.toNat = s + 28800 + k / 100 ↔
      (s - 1417305600) * 100 + k < 2 ^ 32 := by
  have hsec := toNat_getSynTime (by omega) htime
  rw [startNtp, toNat_getLocalTime, toNat_OSTimeAfter_ticks, toNat_modifyLocalTime (by omega), hsec]
  obtain ⟨m, rfl⟩ : ∃ m, s = 1417305600 + m := ⟨s - 1417305600, by omega⟩
  rw [Nat.add_sub_cancel_left]
  omega

/-- The transmit timestamp of the second `s`. -/
def stamp (s : Nat) : NtpTime :=
  let c := (s + JAN_1970.toNat) % 2 ^ 32
  ⟨(UInt8.ofNat (c / 2 ^ 24), UInt8.ofNat (c / 2 ^ 16), UInt8.ofNat (c / 2 ^ 8), UInt8.ofNat c),
    (0, 0, 0, 0)⟩

/-- The 4th of March 2015, two seconds and a half later. -/
theorem localTime_iff_march :
    (getLocalTime (OSTimeAfter (startNtp (some (stamp 1425434400)) 0).2
      (List.replicate 250 .tick))).tv_sec.toNat = 1425434400 + 28800 + 250 / 100 :=
  (localTime_iff 250 (stamp 1425434400) 0 (by decide) (by decide) (by decide)).mpr (by decide)

/-- From the 10th of April 2016 on the clock is back in 2014. -/
theorem localTime_wraps : ¬ ∀ (s k : Nat) (trantime : NtpTime) (OSTime : UInt32),
    1417305600 ≤ s → s < 2 ^ 32 - 28800 → s + 28800 + k / 100 < 2 ^ 32 →
    (ntohl trantime.coarse).toNat = (s + JAN_1970.toNat) % 2 ^ 32 →
    (getLocalTime (OSTimeAfter (startNtp (some trantime) OSTime).2
      (List.replicate k .tick))).tv_sec.toNat = s + 28800 + k / 100 := by
  intro h
  exact absurd (h 1460255273 0 (stamp 1460255273) 0 (by decide) (by decide) (by decide) (by decide))
    (by decide)

end Nl6621.NuAgent.Ntp
