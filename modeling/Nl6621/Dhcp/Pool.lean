import Nl6621.Dhcp.Leases

/-!
# The address pool

`DHCPS_Start` gives every entry an address in the subnet of the interface.  The host parts are
counted upwards from that of the interface and wrapped around by `% (~Mask)`, so that none of them
is the broadcast address; for the remainder 0, the network address, 1 is taken.  The remainder that
comes next is 1 as well, and a pool that wraps around has an address twice.

`pool_sound_iff` says for which interfaces this happens: those with one of the last hosts of their
subnet, the very last one excepted.
-/

namespace Nl6621.Dhcp

open Lib

/-! ### Subnets -/

/-- The contiguous mask with the prefix length `p`, in host order. -/
def prefixMask (p : Nat) : UInt32 := ~~~UInt32.ofNat (2 ^ (32 - p) - 1)

/-- The host part of an address in a subnet with the prefix length `p`. -/
def hostPart (addr : UInt32) (p : Nat) : Nat := (ntohl addr).toNat % 2 ^ (32 - p)

/-- `addr` is the network address of the subnet that `ip` and `netmask` describe. -/
def IsNetwork (ip netmask addr : UInt32) : Prop := ntohl addr = ntohl ip &&& ntohl netmask

def IsBroadcast (ip netmask addr : UInt32) : Prop := ntohl addr = ntohl ip ||| ~~~ntohl netmask

/-- The interface has neither of the two. -/
def IsHost (ip netmask : UInt32) : Prop := ¬IsNetwork ip netmask ip ∧ ¬IsBroadcast ip netmask ip

/-- What the addresses of the entries must be like. -/
structure PoolSound (ip netmask : UInt32) (addr : Index → UInt32) : Prop where
  distinct : Function.Injective addr
  inSubnet : ∀ i, ntohl (addr i) &&& ntohl netmask = ntohl ip &&& ntohl netmask
  notNetwork : ∀ i, ¬IsNetwork ip netmask (addr i)
  notBroadcast : ∀ i, ¬IsBroadcast ip netmask (addr i)
  notOwn : ∀ i, addr i ≠ ip

/-! ### The host parts as numbers -/

/-- `j % n ? j % n : 1` -/
def wrapHost (n j : Nat) : Nat := if j % n ≠ 0 then j % n else 1

/-- The host part of entry `i`, in the subnet with `n` as its greatest one. -/
def entryHost (n v i : Nat) : Nat := wrapHost n ((wrapHost n (v + 1) + i) % 2 ^ 32)

section

variable {n v i : Nat}

theorem wrapHost_of_lt {j : Nat} (hj : 0 < j) (h : j < n) : wrapHost n j = j := by
  rw [wrapHost, Nat.mod_eq_of_lt h, if_pos (by omega)]

theorem wrapHost_self : wrapHost n n = 1 := by
  rw [wrapHost, Nat.mod_self, if_neg (by omega)]

theorem wrapHost_zero : wrapHost n 0 = 1 := by
  rw [wrapHost, Nat.zero_mod, if_neg (by omega)]

theorem wrapHost_add {k : Nat} (hk : 0 < k) (h : k < n) : wrapHost n (n + k) = k := by
  rw [wrapHost, Nat.add_mod_left, Nat.mod_eq_of_lt h, if_pos (by omega)]

theorem wrapHost_pos (n j : Nat) : 0 < wrapHost n j := by
  rw [wrapHost]
  split <;> omega

theorem wrapHost_lt {j : Nat} (hn : 2 ≤ n) : wrapHost n j < n := by
  have hlt : j % n < n := Nat.mod_lt _ (by omega)
  rw [wrapHost]
  split <;> omega

theorem start_of_lt (h : v + 1 < n) : wrapHost n (v + 1) = v + 1 := wrapHost_of_lt (by omega) h

/-- The entries in front of the wrap. -/
theorem entryHost_of_lt (h32 : n < 2 ^ 32) {s : Nat} (hs : wrapHost n (v + 1) = s) (hpos : 0 < s)
    (h : s + i < n) : entryHost n v i = s + i := by
  rw [entryHost, hs, Nat.mod_eq_of_lt (by omega), wrapHost_of_lt (by omega) h]

/-- No entry has the host part of the interface. -/
theorem entryHost_ne (hn : 15 ≤ n) (h32 : n < 2 ^ 32) (hv : 0 < v) (hvn : v < n) (hi : i < 8) :
    entryHost n v i ≠ v := by
  by_cases hlast : v + 1 = n
  · have hs : wrapHost n (v + 1) = 1 := hlast ▸ wrapHost_self
    rw [entryHost_of_lt h32 hs (by omega) (by omega)]
    omega
  · have hs : wrapHost n (v + 1) = v + 1 := start_of_lt (by omega)
    by_cases hlt : v + 1 + i < n
    · rw [entryHost_of_lt h32 hs (by omega) hlt]
      omega
    · rw [entryHost, hs]
      -- behind the wrap the host parts are below 8
      by_cases hword : v + 1 + i < 2 ^ 32
      · obtain ⟨k, hk⟩ : ∃ k, v + 1 + i = n + k := ⟨v + 1 + i - n, by omega⟩
        rw [Nat.mod_eq_of_lt hword, hk]
        by_cases hk0 : k = 0
        · rw [hk0, Nat.add_zero, wrapHost_self]
          omega
        · rw [wrapHost_add (by omega) (by omega)]
          omega
      · obtain ⟨k, hk⟩ : ∃ k, v + 1 + i = 2 ^ 32 + k := ⟨v + 1 + i - 2 ^ 32, by omega⟩
        rw [hk, Nat.add_mod_left, Nat.mod_eq_of_lt (by omega)]
        by_cases hk0 : k = 0
        · rw [hk0, wrapHost_zero]
          omega
        · rw [wrapHost_of_lt (by omega) (by omega)]
          omega

/-- **The host parts are distinct** when the pool does not wrap around; when it does, two of them
are 1. -/
theorem entryHost_injective_iff (hn : 15 ≤ n) (h32 : n < 2 ^ 32) (hv : 0 < v) (hvn : v < n) :
    (∀ i j, i < 8 → j < 8 → entryHost n v i = entryHost n v j → i = j) ↔
      v + 8 ≤ n ∨ v + 1 = n := by
  constructor
  · intro hinj
    by_contra hno
    have hs : wrapHost n (v + 1) = v + 1 := start_of_lt (by omega)
    have hfirst : entryHost n v (n - (v + 1)) = 1 := by
      rw [entryHost, hs, Nat.add_sub_cancel' (by omega), Nat.mod_eq_of_lt h32, wrapHost_self]
    have hsecond : entryHost n v (n - (v + 1) + 1) = 1 := by
      rw [entryHost, hs, ← Nat.add_assoc, Nat.add_sub_cancel' (by omega)]
      by_cases hword : n + 1 < 2 ^ 32
      · rw [Nat.mod_eq_of_lt hword, wrapHost_add (by omega) (by omega)]
      · rw [show n + 1 = 2 ^ 32 by omega, Nat.mod_self, wrapHost_zero]
    have heq := hinj (n - (v + 1)) (n - (v + 1) + 1) (by omega) (by omega)
      (hfirst.trans hsecond.symm)
    omega
  · intro h i j hi hj he
    by_cases hlast : v + 1 = n
    · have hs : wrapHost n (v + 1) = 1 := hlast ▸ wrapHost_self
      rw [entryHost_of_lt h32 hs (by omega) (by omega),
        entryHost_of_lt h32 hs (by omega) (by omega)] at he
      omega
    · have hs : wrapHost n (v + 1) = v + 1 := start_of_lt (by omega)
      -- only the last entry may have wrapped around, to 1
      have hhost : ∀ k, k < 8 → entryHost n v k = if v + 1 + k = n then 1 else v + 1 + k := by
        intro k hk
        by_cases hkn : v + 1 + k = n
        · rw [if_pos hkn, entryHost, hs, hkn, Nat.mod_eq_of_lt h32, wrapHost_self]
        · rw [if_neg hkn, entryHost_of_lt h32 hs (by omega) (by omega)]
      rw [hhost i hi, hhost j hj] at he
      split at he
      · split at he
        · omega
        · omega
      · split at he
        · omega
        · omega

end

/-! ### The words -/

/-- An address put together from its network and its host part. -/
theorem and_join (a t n : UInt32) : ((a &&& ~~~n) ||| (t &&& n)) &&& n = t &&& n ∧
    ((a &&& ~~~n) ||| (t &&& n)) &&& ~~~n = a &&& ~~~n := by
  rw [← UInt32.toBitVec_inj, ← UInt32.toBitVec_inj]
  refine ⟨BitVec.eq_of_getLsbD_eq fun k hk => ?_, BitVec.eq_of_getLsbD_eq fun k hk => ?_⟩
  all_goals
    simp only [UInt32.toBitVec_and, UInt32.toBitVec_or, UInt32.toBitVec_not, BitVec.getLsbD_and,
      BitVec.getLsbD_or, BitVec.getLsbD_not, hk, decide_true, Bool.true_and]
    cases a.toBitVec.getLsbD k <;> cases t.toBitVec.getLsbD k <;>
      cases n.toBitVec.getLsbD k <;> rfl

/-- The parts of an address. -/
theorem and_parts (a n : UInt32) : (a &&& ~~~n) ||| (a &&& n) = a ∧
    (a &&& ~~~n) ||| n = a ||| n ∧ (a &&& ~~~n) &&& n = 0 ∧ (a ||| n) &&& n = n := by
  simp only [← UInt32.toBitVec_inj]
  refine ⟨BitVec.eq_of_getLsbD_eq fun k hk => ?_, BitVec.eq_of_getLsbD_eq fun k hk => ?_,
    BitVec.eq_of_getLsbD_eq fun k hk => ?_, BitVec.eq_of_getLsbD_eq fun k hk => ?_⟩
  all_goals
    simp only [UInt32.toBitVec_and, UInt32.toBitVec_or, UInt32.toBitVec_not, BitVec.getLsbD_and,
      BitVec.getLsbD_or, BitVec.getLsbD_not, hk, decide_true, Bool.true_and,
      UInt32.toBitVec_zero, BitVec.getLsbD_zero]
    cases a.toBitVec.getLsbD k <;> cases n.toBitVec.getLsbD k <;> rfl

/-- `~Mask` -/
def hostMask (p : Nat) : UInt32 := UInt32.ofNat (2 ^ (32 - p) - 1)

theorem not_prefixMask (p : Nat) : ~~~prefixMask p = hostMask p := UInt32.not_not

theorem toNat_hostMask (p : Nat) : (hostMask p).toNat = 2 ^ (32 - p) - 1 := by
  have hle : 2 ^ (32 - p) ≤ 2 ^ 32 := Nat.pow_le_pow_right (by omega) (by omega)
  exact UInt32.toNat_ofNat_of_lt' (by omega : 2 ^ (32 - p) - 1 < 2 ^ 32)

theorem toNat_and_hostMask (x : UInt32) (p : Nat) :
    (x &&& hostMask p).toNat = x.toNat % 2 ^ (32 - p) := by
  rw [UInt32.toNat_and, toNat_hostMask, Nat.and_two_pow_sub_one_eq_mod]

theorem and_hostMask_of_lt {t : UInt32} {p : Nat} (h : t.toNat < 2 ^ (32 - p)) :
    t &&& hostMask p = t := by
  rw [← UInt32.toNat_inj, toNat_and_hostMask, Nat.mod_eq_of_lt h]

theorem ntohl_htonl (x : UInt32) : ntohl (htonl x) = x := htonl_htonl x

theorem toNat_poolHost (p : Nat) (tmp i : UInt32) :
    (poolHost (prefixMask p) tmp i).toNat =
      wrapHost (2 ^ (32 - p) - 1) ((tmp.toNat + i.toNat) % 2 ^ 32) := by
  have hmod : ((tmp + i) % hostMask p).toNat =
      (tmp.toNat + i.toNat) % 2 ^ 32 % (2 ^ (32 - p) - 1) := by
    rw [UInt32.toNat_mod, UInt32.toNat_add, toNat_hostMask]
  have hzero : (tmp + i) % hostMask p ≠ 0 ↔
      (tmp.toNat + i.toNat) % 2 ^ 32 % (2 ^ (32 - p) - 1) ≠ 0 := by
    rw [← hmod, ne_eq, ← UInt32.toNat_inj]
    rfl
  rw [poolHost, not_prefixMask, wrapHost]
  by_cases h : (tmp + i) % hostMask p ≠ 0
  · rw [if_pos h, if_pos (hzero.mp h), hmod]
  · rw [if_neg h, if_neg fun hn => h (hzero.mpr hn)]
    rfl

section

variable {p : Nat} {ip : UInt32}

theorem le_hosts (hp : p ≤ 28) : 2 ^ 4 ≤ 2 ^ (32 - p) ∧ 2 ^ (32 - p) ≤ 2 ^ 32 :=
  ⟨Nat.pow_le_pow_right (by omega) (by omega), Nat.pow_le_pow_right (by omega) (by omega)⟩

/-- The address of an entry: the network part of the interface and a host part. -/
theorem ntohl_poolAddr (hp : p ≤ 28) (hv : hostPart ip p < 2 ^ (32 - p) - 1) (i : Index) :
    ∃ h : UInt32, h &&& hostMask p = h ∧
      h.toNat = entryHost (2 ^ (32 - p) - 1) (hostPart ip p) i ∧
      ntohl (poolAddr ip (htonl (prefixMask p)) i) = (ntohl ip &&& prefixMask p) ||| h := by
  obtain ⟨hlow, hhigh⟩ := le_hosts hp
  have hsmall : ∀ tmp k : UInt32, (poolHost (prefixMask p) tmp k) &&& hostMask p =
      poolHost (prefixMask p) tmp k := by
    intro tmp k
    apply and_hostMask_of_lt
    rw [toNat_poolHost]
    exact Nat.lt_of_lt_of_le (wrapHost_lt (by omega)) (Nat.sub_le _ _)
  have hi : (UInt32.ofNat i.val).toNat = i.val := UInt32.toNat_ofNat_of_lt' (by
    exact Nat.lt_of_lt_of_le i.isLt (by decide))
  generalize hs : poolHost (prefixMask p) (ntohl ip &&& hostMask p) 1 = s
  have hsn : s.toNat = wrapHost (2 ^ (32 - p) - 1) (hostPart ip p + 1) := by
    have hone : (1 : UInt32).toNat = 1 := rfl
    rw [← hs, toNat_poolHost, toNat_and_hostMask, hone]
    change wrapHost _ ((hostPart ip p + 1) % 2 ^ 32) = _
    rw [Nat.mod_eq_of_lt (by omega)]
  have hstart : startIpAddr ip (htonl (prefixMask p)) =
      (ntohl ip &&& ~~~hostMask p) ||| (s &&& hostMask p) := by
    rw [startIpAddr, ntohl_htonl, not_prefixMask, hs, ← hs, hsmall]
    rfl
  obtain ⟨hval, hnet⟩ := and_join (ntohl ip) s (hostMask p)
  refine ⟨poolHost (prefixMask p) (s &&& hostMask p) (UInt32.ofNat i), hsmall _ _, ?_, ?_⟩
  · rw [toNat_poolHost, ← hs, hsmall, hs, hsn, hi]
    rfl
  · rw [poolAddr, ntohl_htonl]
    simp only [hstart]
    rw [ntohl_htonl, not_prefixMask, hval, prefixMask]
    exact congrArg (· ||| _) hnet

theorem hostPart_eq (addr : UInt32) (p : Nat) :
    hostPart addr p = (ntohl addr &&& hostMask p).toNat := (toNat_and_hostMask _ _).symm

theorem hostPart_of_network {addr : UInt32} (h : IsNetwork ip (htonl (prefixMask p)) addr) :
    hostPart addr p = 0 := by
  have hand := (and_parts (ntohl ip) (hostMask p)).2.2.1
  rw [IsNetwork, ntohl_htonl] at h
  rw [hostPart_eq, h]
  exact congrArg UInt32.toNat hand

theorem hostPart_of_broadcast {addr : UInt32} (h : IsBroadcast ip (htonl (prefixMask p)) addr) :
    hostPart addr p = 2 ^ (32 - p) - 1 := by
  rw [IsBroadcast, ntohl_htonl, not_prefixMask] at h
  rw [hostPart_eq, h, (and_parts _ _).2.2.2, toNat_hostMask]

/-- A host address has neither the least nor the greatest host part. -/
theorem hostPart_of_isHost (h : IsHost ip (htonl (prefixMask p))) :
    0 < hostPart ip p ∧ hostPart ip p < 2 ^ (32 - p) - 1 := by
  obtain ⟨hjoin, hor, -, -⟩ := and_parts (ntohl ip) (hostMask p)
  have hlt : hostPart ip p < 2 ^ (32 - p) := Nat.mod_lt _ (Nat.two_pow_pos _)
  rw [IsHost, IsNetwork, IsBroadcast, ntohl_htonl, not_prefixMask] at h
  have hzero : hostPart ip p ≠ 0 := by
    intro he
    have hand : ntohl ip &&& hostMask p = 0 := UInt32.toNat_inj.mp ((hostPart_eq ip p).symm.trans he)
    rw [hand, UInt32.or_zero] at hjoin
    exact h.1 hjoin.symm
  have hmax : hostPart ip p ≠ 2 ^ (32 - p) - 1 := by
    intro he
    have hand : ntohl ip &&& hostMask p = hostMask p :=
      UInt32.toNat_inj.mp ((hostPart_eq ip p).symm.trans (he.trans (toNat_hostMask p).symm))
    rw [hand] at hjoin
    exact h.2 (hjoin.symm.trans hor)
  omega

theorem hostPart_poolAddr (hp : p ≤ 28) (hv : hostPart ip p < 2 ^ (32 - p) - 1) (i : Index) :
    hostPart (poolAddr ip (htonl (prefixMask p)) i) p =
      entryHost (2 ^ (32 - p) - 1) (hostPart ip p) i := by
  obtain ⟨h, hlow, hn, haddr⟩ := ntohl_poolAddr hp hv i
  have hand := (and_join (ntohl ip) h (hostMask p)).1
  rw [hlow] at hand
  rw [hostPart_eq, haddr, ← hn]
  exact congrArg UInt32.toNat hand

/-- Two entries have the same address when they have the same host part. -/
theorem poolAddr_eq_iff (hp : p ≤ 28) (hv : hostPart ip p < 2 ^ (32 - p) - 1) (i j : Index) :
    poolAddr ip (htonl (prefixMask p)) i = poolAddr ip (htonl (prefixMask p)) j ↔
      entryHost (2 ^ (32 - p) - 1) (hostPart ip p) i =
        entryHost (2 ^ (32 - p) - 1) (hostPart ip p) j := by
  constructor
  · intro h
    rw [← hostPart_poolAddr hp hv, ← hostPart_poolAddr hp hv, h]
  · intro h
    obtain ⟨x, -, hx, hxa⟩ := ntohl_poolAddr hp hv i
    obtain ⟨y, -, hy, hya⟩ := ntohl_poolAddr hp hv j
    have hxy : x = y := UInt32.toNat_inj.mp (hx.trans (h.trans hy.symm))
    have heq := congrArg htonl (hxa.trans (hxy ▸ hya.symm))
    rwa [ntohl, htonl_htonl, ntohl, htonl_htonl] at heq

end

/-- **When the address pool is sound.**  For a host address in a subnet with a prefix of at most 28
bits, the addresses are always hosts of the subnet other than the interface, and they are distinct
unless the pool wraps around behind its first entry. -/
theorem pool_sound_iff {ip : UInt32} {p : Nat} {srv : Server} (hp : p ≤ 28)
    (hhost : IsHost ip (htonl (prefixMask p))) (h : Started ip (htonl (prefixMask p)) srv) :
    PoolSound ip (htonl (prefixMask p)) (fun i => (srv.Clients i).IpAddr) ↔
      hostPart ip p + 8 ≤ 2 ^ (32 - p) - 1 ∨ hostPart ip p + 1 = 2 ^ (32 - p) - 1 := by
  obtain ⟨msg, rfl⟩ := started_eq h
  obtain ⟨hv0, hv⟩ := hostPart_of_isHost hhost
  obtain ⟨hlow, hhigh⟩ := le_hosts hp
  rw [← entryHost_injective_iff (by omega) (by omega) hv0 hv]
  constructor
  · intro hs i j hi hj he
    have haddr := (poolAddr_eq_iff hp hv ⟨i, hi⟩ ⟨j, hj⟩).mpr he
    exact congrArg Fin.val (hs.distinct haddr)
  · intro hinj
    have hpart := hostPart_poolAddr hp hv
    refine ⟨?_, ?_, ?_, ?_, ?_⟩
    · intro i j he
      exact Fin.ext (hinj i j i.isLt j.isLt ((poolAddr_eq_iff hp hv i j).mp he))
    · intro i
      obtain ⟨x, hx, -, haddr⟩ := ntohl_poolAddr hp hv i
      have hand := (and_join (ntohl ip) x (hostMask p)).2
      rw [hx] at hand
      change ntohl (poolAddr ip (htonl (prefixMask p)) i) &&& _ = _
      rw [haddr, ntohl_htonl]
      exact hand
    · intro i hnet
      have hzero := (hpart i).symm.trans (hostPart_of_network hnet)
      have hpos := wrapHost_pos (2 ^ (32 - p) - 1)
        ((wrapHost (2 ^ (32 - p) - 1) (hostPart ip p + 1) + i.val) % 2 ^ 32)
      rw [entryHost] at hzero
      omega
    · intro i hbroadcast
      have hmax := (hpart i).symm.trans (hostPart_of_broadcast hbroadcast)
      have hlt : entryHost (2 ^ (32 - p) - 1) (hostPart ip p) i < 2 ^ (32 - p) - 1 :=
        wrapHost_lt (by omega)
      omega
    · intro i hown
      have hsame : entryHost (2 ^ (32 - p) - 1) (hostPart ip p) i = hostPart ip p := by
        rw [← hpart i]
        exact congrArg (hostPart · p) hown
      exact entryHost_ne (by omega) (by omega) hv0 hv i.isLt hsame

/-- The server on an interface, just started. -/
def startedOn (ip netmask : UInt32) : Server :=
  { configured ip netmask fun _ => 0 with Enable := true }

theorem started_startedOn (ip netmask : UInt32) : Started ip netmask (startedOn ip netmask) :=
  ⟨true, true, startedOn ip netmask, rfl⟩

/-- The interface 192.168.1.1/24. -/
theorem pool_sound_iff_first :
    PoolSound (htonl 0xc0a80101) (htonl (prefixMask 24))
        (fun i => ((startedOn (htonl 0xc0a80101) (htonl (prefixMask 24))).Clients i).IpAddr) ↔
      hostPart (htonl 0xc0a80101) 24 + 8 ≤ 2 ^ (32 - 24) - 1 ∨
        hostPart (htonl 0xc0a80101) 24 + 1 = 2 ^ (32 - 24) - 1 :=
  pool_sound_iff (by decide) ⟨by unfold IsNetwork; decide, by unfold IsBroadcast; decide⟩
    (started_startedOn _ _)

/-- The interface 192.168.1.250/24 has the address 192.168.1.1 in its pool twice. -/
theorem pool_wraps :
    ∃ srv, Started (htonl 0xc0a801fa) (htonl (prefixMask 24)) srv ∧
      IsHost (htonl 0xc0a801fa) (htonl (prefixMask 24)) ∧
      ¬PoolSound (htonl 0xc0a801fa) (htonl (prefixMask 24)) fun i => (srv.Clients i).IpAddr := by
  refine ⟨startedOn _ _, started_startedOn _ _,
    ⟨by unfold IsNetwork; decide, by unfold IsBroadcast; decide⟩, fun h => ?_⟩
  have htwice : poolAddr (htonl 0xc0a801fa) (htonl (prefixMask 24)) 4 =
      poolAddr (htonl 0xc0a801fa) (htonl (prefixMask 24)) 5 := by decide
  cases h.distinct htwice

end Nl6621.Dhcp
