import Nl6621.Wifi.Credentials

/-!
# The UDP commands of the LAN

`Socket_UDPServerRecvData` receives a datagram into the one buffer `UDPServerRecv_data` and
hands the buffer to `Socket_DispatchUDPData`.  Behind the bytes of the datagram the buffer still
has what earlier datagrams have left there.  The dispatcher reads a header of 8 bytes, and
`lan_softap_config` two lengths and two strings behind it; the number of bytes that came in is
handed along and never looked at.

A `Command` is what the dispatcher does and with what parameters.  `selfContained_iff` says
which datagrams have their own effect, whatever is in the buffer, and are rejected when they are
too short: those whose first bytes are of no command, and those in which every byte that is read
is there.
-/

namespace Nl6621.Lan

open Lib Flash Wifi

/-! ### The functions of the source -/

def LAN_NETDATA_CMD_SOFTAP_CONFIG : Nat := 0x11

def LAN_NETDATA_CMD_DEV_DISCOVER : Nat := 0x31

def UDP_SERVER_BUFFER_SIZE : Nat := 2048

structure LanNetdataHead where
  size : Nat
  cmd : Nat
  func : Nat
  msg : Nat

def sizeofHead : Nat := 8

/-- The bits of a `short`; a negative one is no command. -/
def short (mem : Nat → UInt8) (off : Nat) : Nat := (mem off).toNat + 256 * (mem (off + 1)).toNat

def headData (recv_data : Nat → UInt8) : LanNetdataHead where
  size := short recv_data 0
  cmd := short recv_data 2
  func := short recv_data 4
  msg := short recv_data 6

/-- The arrays `ssid` and `passwd` of `lan_softap_config`, which go to
`DRV_WiFi_StaModeConnStart` and `Agent_SaveSSIDAndKey`; nothing when it returns before. -/
def softapParams (data : Nat → UInt8) (_data_len : Int) : Option ((Nat → UInt8) × (Nat → UInt8)) :=
  let ssid_len := (data 0).toNat
  if ssid_len > 32 ∨ ssid_len ≤ 0 then none
  else
    let ssid := laid (fun _ => 0) 0 ssid_len fun i => data (1 + i)
    let passwdlen := (data (ssid_len + 1)).toNat
    if passwdlen > 64 then none
    else some (ssid, laid (fun _ => 0) 0 passwdlen fun i => data (1 + ssid_len + 1 + i))

/-- What a datagram makes the device do. -/
inductive Command where
  | softapConfig (ssid passwd : Nat → UInt8)
  | devDiscover

def socketDispatchUDPData (recv_data : Nat → UInt8) (recv_count : Nat) : Option Command :=
  let head_data := headData recv_data
  if head_data.cmd = LAN_NETDATA_CMD_SOFTAP_CONFIG then
    (softapParams (fun i => recv_data (sizeofHead + i)) (recv_count - sizeofHead)).map fun p =>
      .softapConfig p.1 p.2
  else if head_data.cmd = LAN_NETDATA_CMD_DEV_DISCOVER then some .devDiscover
  else none

/-- One round of the receive loop: the new content of the buffer, and the command. -/
def socketUDPServerRecvData (datagram : List UInt8) (UDPServerRecv_data : Nat → UInt8) :
    (Nat → UInt8) × Option Command :=
  let recv_count := min datagram.length UDP_SERVER_BUFFER_SIZE
  let recv_data := laid UDPServerRecv_data 0 recv_count fun i => datagram.getD i 0
  (recv_data, if recv_count ≤ 0 then none else socketDispatchUDPData recv_data recv_count)

/-- `lan_softap_config` hands over what `softapParams` says, and saves it when the connection
succeeds. -/
theorem lanSoftapConfig_eq (fuel : Nat) (flash_buf data : Nat → UInt8) (data_len ret : Int)
    (s : Device) : lanSoftapConfig fuel flash_buf data ret s =
      match softapParams data data_len with
      | none => .ok s
      | some (ssid, passwd) =>
        if ret = 0 then agentSaveSSIDAndKey fuel flash_buf ssid passwd s else .ok s := by
  rw [lanSoftapConfig, softapParams]
  by_cases hs : (data 0).toNat > 32 ∨ (data 0).toNat ≤ 0
  · simp only [if_pos hs]
  · by_cases hk : (data ((data 0).toNat + 1)).toNat > 64
    · simp only [if_neg hs, if_pos hk]
    · simp only [if_neg hs, if_neg hk]

/-! ### The property -/

/-- The byte `i` of the datagram. -/
def own (d : List UInt8) (i : Nat) : UInt8 := d.getD i 0

/-- The SSID's length that a configuration declares. -/
def ssidLen (d : List UInt8) : Nat := (own d 8).toNat

def passwdLen (d : List UInt8) : Nat := (own d (9 + ssidLen d)).toNat

/-- The datagram ends before its header, or before what its own lengths declare. -/
def TooShort (d : List UInt8) : Prop :=
  d.length < 8 ∨ short (own d) 2 = LAN_NETDATA_CMD_SOFTAP_CONFIG ∧
    (d.length < 9 ∨ d.length < 10 + ssidLen d ∨ d.length < 10 + ssidLen d + passwdLen d)

instance (d : List UInt8) : Decidable (TooShort d) := by unfold TooShort; infer_instance

/-- What the datagram does is its own matter, and it does nothing when it is too short. -/
structure SelfContained (d : List UInt8) : Prop where
  same : ∀ buf buf', (socketUDPServerRecvData d buf).2 = (socketUDPServerRecvData d buf').2
  rejects : TooShort d → ∀ buf, (socketUDPServerRecvData d buf).2 = none

/-- The bytes that are there decide: they are of no command, or of a discovery with a whole
header, or of a configuration that is rejected by a length that is there or is there as a
whole. -/
def Settled (d : List UInt8) : Prop :=
  3 ≤ d.length ∧ own d 2 ≠ 0x11 ∧ own d 2 ≠ 0x31 ∨
  4 ≤ d.length ∧ own d 3 ≠ 0 ∨
  short (own d) 2 = LAN_NETDATA_CMD_DEV_DISCOVER ∧ 8 ≤ d.length ∨
  short (own d) 2 = LAN_NETDATA_CMD_SOFTAP_CONFIG ∧ 9 ≤ d.length ∧
    (ssidLen d = 0 ∨ 32 < ssidLen d ∨ 10 + ssidLen d ≤ d.length ∧
      (64 < passwdLen d ∨ 10 + ssidLen d + passwdLen d ≤ d.length))

instance (d : List UInt8) : Decidable (Settled d) := by unfold Settled; infer_instance

/-! ### What the dispatcher sees -/

def received (d : List UInt8) (buf : Nat → UInt8) : Nat → UInt8 := (socketUDPServerRecvData d buf).1

theorem received_own {d : List UInt8} {buf : Nat → UInt8} {i : Nat} (h : i < d.length)
    (hi : i < 2048) : received d buf i = own d i := by
  have hin : 0 ≤ i ∧ i < 0 + min d.length UDP_SERVER_BUFFER_SIZE := by
    rw [UDP_SERVER_BUFFER_SIZE]
    omega
  exact if_pos hin

theorem received_stale {d : List UInt8} {buf : Nat → UInt8} {i : Nat} (h : d.length ≤ i) :
    received d buf i = buf i := by
  have hout : ¬(0 ≤ i ∧ i < 0 + min d.length UDP_SERVER_BUFFER_SIZE) := by omega
  exact if_neg hout

theorem dispatched {d : List UInt8} (h : 1 ≤ d.length) (buf : Nat → UInt8) :
    (socketUDPServerRecvData d buf).2 =
      socketDispatchUDPData (received d buf) (min d.length UDP_SERVER_BUFFER_SIZE) := by
  have hpos : ¬min d.length UDP_SERVER_BUFFER_SIZE ≤ 0 := by
    rw [UDP_SERVER_BUFFER_SIZE]
    omega
  exact if_neg hpos

theorem short_eq_iff {mem : Nat → UInt8} {off k : Nat} (hk : k < 256) :
    short mem off = k ↔ (mem off).toNat = k ∧ (mem (off + 1)).toNat = 0 := by
  have hb := (mem off).toNat_lt
  rw [short]
  omega

theorem dispatch_none {mem : Nat → UInt8} (n : Nat) (h : short mem 2 ≠ 0x11)
    (h' : short mem 2 ≠ 0x31) : socketDispatchUDPData mem n = none := by
  rw [socketDispatchUDPData]
  exact (if_neg h).trans (if_neg h')

theorem dispatch_discover {mem : Nat → UInt8} (n : Nat) (h : short mem 2 = 0x31) :
    socketDispatchUDPData mem n = some .devDiscover := by
  have h' : short mem 2 ≠ 0x11 := by omega
  rw [socketDispatchUDPData]
  exact (if_neg h').trans (if_pos h)

theorem dispatch_config {mem : Nat → UInt8} (n : Nat) (h : short mem 2 = 0x11) :
    socketDispatchUDPData mem n = (softapParams (fun i => mem (8 + i)) 0).map fun p =>
      .softapConfig p.1 p.2 := by
  rw [socketDispatchUDPData]
  exact if_pos h

/-! ### What a configuration needs -/

theorem params_none {data : Nat → UInt8} (n : Int) (h : 32 < (data 0).toNat ∨ (data 0).toNat = 0) :
    softapParams data n = none := by
  rw [softapParams]
  exact if_pos (by omega)

theorem params_passwd_none {data : Nat → UInt8} (n : Int) (hs : 64 < (data ((data 0).toNat + 1)).toNat) :
    softapParams data n = none := by
  rw [softapParams]
  by_cases h : (data 0).toNat > 32 ∨ (data 0).toNat ≤ 0
  · exact if_pos h
  · exact (if_neg h).trans (if_pos hs)

theorem params_some {data : Nat → UInt8} (n : Int) (h : 1 ≤ (data 0).toNat) (h' : (data 0).toNat ≤ 32)
    (hs : (data ((data 0).toNat + 1)).toNat ≤ 64) : softapParams data n =
      some (laid (fun _ => 0) 0 (data 0).toNat fun i => data (1 + i),
        laid (fun _ => 0) 0 (data ((data 0).toNat + 1)).toNat
          fun i => data (1 + (data 0).toNat + 1 + i)) := by
  rw [softapParams]
  exact (if_neg (by omega)).trans (if_neg (by omega))

/-- The parameters are those of the datagram alone when no byte behind it is looked at. -/
theorem params_own {d : List UInt8} (buf : Nat → UInt8) (h9 : 9 ≤ d.length)
    (h : ssidLen d = 0 ∨ 32 < ssidLen d ∨ 10 + ssidLen d ≤ d.length ∧
      (64 < passwdLen d ∨ 10 + ssidLen d + passwdLen d ≤ d.length)) :
    softapParams (fun i => received d buf (8 + i)) 0 = softapParams (fun i => own d (8 + i)) 0 := by
  have h8 : received d buf (8 + 0) = own d (8 + 0) := received_own h9 (by omega)
  have hlen : (own d (8 + 0)).toNat = ssidLen d := rfl
  by_cases hssid : 32 < ssidLen d ∨ ssidLen d = 0
  · rw [params_none _ (by rw [h8, hlen]; exact hssid), params_none _ (by rw [hlen]; exact hssid)]
  · have hin : 10 + ssidLen d ≤ d.length := by omega
    have hat : 8 + (ssidLen d + 1) = 9 + ssidLen d := by omega
    have hp : received d buf (8 + (ssidLen d + 1)) = own d (8 + (ssidLen d + 1)) :=
      received_own (by omega) (by omega)
    have hplen : (own d (8 + (ssidLen d + 1))).toNat = passwdLen d := by rw [hat, passwdLen]
    by_cases hpw : 64 < passwdLen d
    · rw [params_passwd_none _ (by rw [h8, hlen, hp, hplen]; exact hpw),
        params_passwd_none _ (by rw [hlen, hplen]; exact hpw)]
    · rw [params_some _ (by rw [h8, hlen]; omega) (by rw [h8, hlen]; omega)
          (by rw [h8, hlen, hp, hplen]; omega),
        params_some _ (by rw [hlen]; omega) (by rw [hlen]; omega) (by rw [hlen, hplen]; omega)]
      simp only [h8, hlen, hp, hplen]
      have hssids : laid (fun _ => 0) 0 (ssidLen d) (fun i => received d buf (8 + (1 + i))) =
          laid (fun _ => 0) 0 (ssidLen d) fun i => own d (8 + (1 + i)) :=
        laid_congr fun i hi => received_own (by omega) (by omega)
      have hpasswds : laid (fun _ => 0) 0 (passwdLen d)
            (fun i => received d buf (8 + (1 + ssidLen d + 1 + i))) =
          laid (fun _ => 0) 0 (passwdLen d) fun i => own d (8 + (1 + ssidLen d + 1 + i)) :=
        laid_congr fun i hi => received_own (by omega) (by omega)
      rw [hssids, hpasswds]

/-! ### Which datagrams are self-contained -/

/-- What a settled datagram does, read off the datagram. -/
theorem fixed_of_settled {d : List UInt8} (h : Settled d) (h1 : 1 ≤ d.length) :
    ∃ r, (∀ buf, (socketUDPServerRecvData d buf).2 = r) ∧ (TooShort d → r = none) := by
  rcases h with ⟨hlen, h11, h31⟩ | ⟨hlen, h3⟩ | ⟨hc, hlen⟩ | ⟨hc, hlen, h⟩
  · refine ⟨none, fun buf => ?_, fun _ => rfl⟩
    have h2 : received d buf 2 = own d 2 := received_own (by omega) (by omega)
    rw [dispatched h1]
    refine dispatch_none _ (fun hs => h11 ?_) (fun hs => h31 ?_)
    · rw [short_eq_iff (by omega), h2] at hs
      exact UInt8.toNat_inj.mp hs.1
    · rw [short_eq_iff (by omega), h2] at hs
      exact UInt8.toNat_inj.mp hs.1
  · refine ⟨none, fun buf => ?_, fun _ => rfl⟩
    have h3' : received d buf (2 + 1) = own d 3 := received_own (by omega) (by omega)
    rw [dispatched h1]
    refine dispatch_none _ (fun hs => h3 ?_) (fun hs => h3 ?_)
    · rw [short_eq_iff (by omega), h3'] at hs
      exact UInt8.toNat_inj.mp hs.2
    · rw [short_eq_iff (by omega), h3'] at hs
      exact UInt8.toNat_inj.mp hs.2
  · refine ⟨some .devDiscover, fun buf => ?_, fun hshort => ?_⟩
    · rw [dispatched h1]
      refine dispatch_discover _ ?_
      rw [short, received_own (by omega) (by omega), received_own (by omega) (by omega)]
      exact hc
    · rcases hshort with hshort | ⟨hs, -⟩
      · omega
      · rw [hc] at hs
        exact absurd hs (by decide)
  · refine ⟨(softapParams (fun i => own d (8 + i)) 0).map fun p => .softapConfig p.1 p.2,
      fun buf => ?_, fun hshort => ?_⟩
    · rw [dispatched h1, dispatch_config, params_own buf hlen h]
      rw [short, received_own (by omega) (by omega), received_own (by omega) (by omega)]
      exact hc
    · have hlen' : (own d (8 + 0)).toNat = ssidLen d := rfl
      by_cases hssid : 32 < ssidLen d ∨ ssidLen d = 0
      · rw [params_none _ (by rw [hlen']; exact hssid), Option.map_none]
      · have hpw : 64 < passwdLen d := by
          rcases hshort with hshort | ⟨-, hshort⟩ <;> omega
        have hat : 8 + (ssidLen d + 1) = 9 + ssidLen d := by omega
        rw [params_passwd_none _ (by rw [hlen', hat]; exact hpw), Option.map_none]

/-- Stale bytes that make the most of what is missing. -/
def stale : Nat → UInt8 := fun i => if i = 2 then 0x31 else if i = 8 then 1 else 0

theorem stale_ge {i : Nat} (h : 9 ≤ i) : stale i = 0 := by
  rw [stale, if_neg (by omega), if_neg (by omega)]

/-- A configuration's command is built from what is there and the stale bytes. -/
theorem stale_config {d : List UInt8} (h1 : 1 ≤ d.length)
    (hc : short (received d stale) 2 = 0x11)
    (hs : 1 ≤ (received d stale 8).toNat) (hs' : (received d stale 8).toNat ≤ 32)
    (hp : (received d stale (9 + (received d stale 8).toNat)).toNat ≤ 64) :
    (socketUDPServerRecvData d stale).2 ≠ none := by
  have hat : 8 + ((received d stale 8).toNat + 1) = 9 + (received d stale 8).toNat := by omega
  rw [dispatched h1, dispatch_config _ hc, params_some _ hs hs' (by rw [hat]; exact hp),
    Option.map_some]
  exact Option.some_ne_none _

theorem stale_short {d : List UInt8} (h1 : 1 ≤ d.length) (h8 : d.length ≤ 8)
    (hc : short (received d stale) 2 = 0x11) : (socketUDPServerRecvData d stale).2 ≠ none := by
  have hs : received d stale 8 = 1 := received_stale h8
  have hp : received d stale 10 = 0 := received_stale (by omega)
  have hone : (1 : UInt8).toNat = 1 := rfl
  refine stale_config h1 hc ?_ ?_ ?_
  · rw [hs, hone]
  · rw [hs, hone]
    omega
  · rw [hs, hone, hp]
    exact Nat.zero_le _

theorem cmd_stale {d : List UInt8} (h : ¬Settled d) :
    short (received d stale) 2 = 0x11 ∨ short (received d stale) 2 = 0x31 := by
  have h3 : (received d stale (2 + 1)).toNat = 0 := by
    by_cases hlen : 4 ≤ d.length
    · have h0 : own d 3 = 0 := by
        by_contra hne
        exact h (.inr (.inl ⟨hlen, hne⟩))
      rw [received_own (by omega) (by omega), h0]
      rfl
    · rw [received_stale (by omega)]
      rfl
  by_cases hlen : 3 ≤ d.length
  · have h2 : received d stale 2 = own d 2 := received_own (by omega) (by omega)
    by_cases h11 : own d 2 = 0x11
    · exact .inl ((short_eq_iff (by omega)).mpr ⟨by rw [h2, h11]; rfl, h3⟩)
    · by_cases h31 : own d 2 = 0x31
      · exact .inr ((short_eq_iff (by omega)).mpr ⟨by rw [h2, h31]; rfl, h3⟩)
      · exact absurd (.inl ⟨hlen, h11, h31⟩) h
  · exact .inr ((short_eq_iff (by omega)).mpr ⟨by rw [received_stale (by omega)]; rfl, h3⟩)

/-- A datagram that is not settled is too short, and there are stale bytes with which it is
taken for a command. -/
theorem taken_of_not_settled {d : List UInt8} (h1 : 1 ≤ d.length) (h : ¬Settled d) :
    TooShort d ∧ (socketUDPServerRecvData d stale).2 ≠ none := by
  have hown : 8 ≤ d.length → short (received d stale) 2 = short (own d) 2 := fun hlen => by
    rw [short, received_own (by omega) (by omega), received_own (by omega) (by omega), short]
  rcases cmd_stale h with hc | hc
  · by_cases h9 : 9 ≤ d.length
    · rw [hown (by omega)] at hc
      have hrest : ¬(ssidLen d = 0 ∨ 32 < ssidLen d ∨ 10 + ssidLen d ≤ d.length ∧
          (64 < passwdLen d ∨ 10 + ssidLen d + passwdLen d ≤ d.length)) := fun hrest =>
        h (.inr (.inr (.inr ⟨hc, h9, hrest⟩)))
      have h8 : (received d stale 8).toNat = ssidLen d := by
        rw [received_own (by omega) (by omega), ssidLen]
      refine ⟨.inr ⟨hc, by omega⟩, stale_config h1 (by rw [hown (by omega), hc]) (by omega)
        (by omega) ?_⟩
      rw [h8]
      by_cases hin : 10 + ssidLen d ≤ d.length
      · rw [received_own (by omega) (by omega)]
        change passwdLen d ≤ 64
        omega
      · rw [received_stale (by omega), stale_ge (by omega)]
        exact Nat.zero_le _
    · refine ⟨?_, stale_short h1 (by omega) hc⟩
      by_cases h8 : d.length < 8
      · exact .inl h8
      · rw [hown (by omega)] at hc
        exact .inr ⟨hc, .inl (by omega)⟩
  · have h8 : d.length < 8 := by
      by_contra hlen
      rw [hown (by omega)] at hc
      exact h (.inr (.inr (.inl ⟨hc, by omega⟩)))
    refine ⟨.inl h8, ?_⟩
    rw [dispatched h1, dispatch_discover _ hc]
    exact Option.some_ne_none _

/-- **Which datagrams have an effect of their own.** -/
theorem selfContained_iff (d : List UInt8) (h1 : 1 ≤ d.length) : SelfContained d ↔ Settled d := by
  constructor
  · intro h
    by_contra hns
    obtain ⟨hshort, hne⟩ := taken_of_not_settled h1 hns
    exact hne (h.rejects hshort stale)
  · intro h
    obtain ⟨r, hr, hshort⟩ := fixed_of_settled h h1
    exact ⟨fun buf buf' => (hr buf).trans (hr buf').symm, fun ht buf => (hr buf).trans (hshort ht)⟩

theorem selfContained_iff_discover :
    1 ≤ [0, 0, 0x31, 0, 0, 0, 0, (0 : UInt8)].length ∧
      SelfContained [0, 0, 0x31, 0, 0, 0, 0, 0] :=
  ⟨by decide, (selfContained_iff _ (by decide)).mpr (by decide)⟩

/-- The header of a configuration and nothing behind it: the SSID of one byte and the empty
password are taken from what an earlier datagram has left. -/
theorem stale_softapConfig :
    TooShort [0, 0, 0x11, 0, 0, 0, 0, 0] ∧
      ((socketUDPServerRecvData [0, 0, 0x11, 0, 0, 0, 0, 0]
        fun i => if i = 8 then 1 else 0).2).isSome = true ∧
      ((socketUDPServerRecvData [0, 0, 0x11, 0, 0, 0, 0, 0] fun _ => 0).2).isSome = false ∧
      ¬SelfContained [0, 0, 0x11, 0, 0, 0, 0, 0] := by
  have hsome : ((socketUDPServerRecvData [0, 0, 0x11, 0, 0, 0, 0, 0]
      fun i => if i = 8 then 1 else 0).2).isSome = true := by decide
  have hnone : ((socketUDPServerRecvData [0, 0, 0x11, 0, 0, 0, 0, 0]
      fun _ => 0).2).isSome = false := by decide
  refine ⟨by decide, hsome, hnone, fun h => ?_⟩
  rw [h.same _ fun _ => 0, hnone] at hsome
  cases hsome

end Nl6621.Lan
