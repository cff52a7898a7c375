import Mathlib.Tactic.Common
import Nl6621.Lib.LastWriter
import Nl6621.Lib.Memory

/-!
# The configuration

The settings of the device are the members of `SysParam`.  `InfLoadDefaultParam` sets all of
them, each of the `Inf..Set` functions checks its arguments and sets its own, and
`InfConfigQuery` gives a copy of them all.  The character arrays have their length in the type, so
that a copy that would run over an array cannot be written down.

`last_writer_wins` says that a setting is what the last accepted call has given it.  The DNS name
alone is an exception: `InfDnsSrvSet` copies the name without a terminator, and what is behind it
in the array, when that is not the terminator already, is taken for a part of it.
-/

namespace Nl6621.Sys.Param

open Lib

/-! ### Character arrays -/

/-- The bytes from a pointer on. -/
def bytesAt (src : Nat → UInt8) (len : Nat) : List UInt8 := (List.range len).map src

theorem length_bytesAt (src : Nat → UInt8) (len : Nat) : (bytesAt src len).length = len := by
  rw [bytesAt, List.length_map, List.length_range]

structure CharArray (n : Nat) where
  toList : List UInt8
  length_eq : toList.length = n

namespace CharArray

variable {n : Nat}

def zero (n : Nat) : CharArray n := ⟨List.replicate n 0, List.length_replicate⟩

/-- `NST_MOVE_MEM` to the array. -/
def move (a : CharArray n) (src : Nat → UInt8) (len : Nat) (h : len ≤ n) : CharArray n where
  toList := bytesAt src len ++ a.toList.drop len
  length_eq := by
    have ha := a.length_eq
    rw [List.length_append, length_bytesAt, List.length_drop]
    omega

/-- `a[i] = b` -/
def put (a : CharArray n) (i : Nat) (b : UInt8) (_ : i < n) : CharArray n :=
  ⟨a.toList.set i b, List.length_set.trans a.length_eq⟩

/-- `strcpy`, and `sprintf`, to the array. -/
def strcpy (a : CharArray n) (s : List UInt8) (h : s.length < n) : CharArray n where
  toList := s ++ 0 :: a.toList.drop (s.length + 1)
  length_eq := by
    have ha := a.length_eq
    rw [List.length_append, List.length_cons, List.length_drop]
    omega

/-- What the array holds as a C string. -/
def str (a : CharArray n) : List UInt8 := cstr a.toList

end CharArray

/-! ### The functions of the source -/

structure WifiCfg where
  Ssid : CharArray 33
  SSIDBrdEnable : UInt8
  PhyMode : UInt8
  Channel : UInt8
  Encry : UInt8
  AuthMode : UInt8
  Protocol : UInt8
  KeyLength : UInt8
  KeyIndex : UInt8
  PSK : CharArray 64
  WscEn : UInt8
  ConTryTimes : UInt8
  WmmEn : UInt8

structure IpCfg where
  Ip : CharArray 4
  Netmask : CharArray 4
  GateWay : CharArray 4
  Dns : CharArray 4
  bDhcp : UInt8
  DhcpTryTimes : UInt8
  Res_2 : CharArray 2

structure CfgParam where
  WiFiCfg : WifiCfg
  IPCfg : IpCfg
  bDhcpServer : UInt8
  bDnsServer : UInt8
  DnsName : CharArray 33
  Res_3 : CharArray 1

def PARAM_NET_MODE_MAX : UInt8 := 3

def PARAM_PHY_MODE_MAX : UInt8 := 3

def PARAM_ENC_MODE_MAX : UInt8 := 5

def PARAM_AUTH_MODE_MAX : UInt8 := 4

/-- `memset(cfg, 0, sizeof(CFG_PARAM))`, which is also what the program starts with. -/
def zeroParam : CfgParam where
  WiFiCfg := ⟨.zero 33, 0, 0, 0, 0, 0, 0, 0, 0, .zero 64, 0, 0, 0⟩
  IPCfg := ⟨.zero 4, .zero 4, .zero 4, .zero 4, 0, 0, .zero 2⟩
  bDhcpServer := 0
  bDnsServer := 0
  DnsName := .zero 33
  Res_3 := .zero 1

/-- A digit of `%x`. -/
def hexDigit (n : Nat) : UInt8 := if n < 10 then UInt8.ofNat (48 + n) else UInt8.ofNat (87 + n)

/-- `%02x` -/
def hex2 (b : UInt8) : List UInt8 := [hexDigit (b.toNat / 16), hexDigit (b.toNat % 16)]

/-- `"NuAgent-%02x%02x%02x%02x"` -/
def defaultSsid (PermanentAddress : Nat → UInt8) : List UInt8 :=
  [0x4e, 0x75, 0x41, 0x67, 0x65, 0x6e, 0x74, 0x2d] ++ hex2 (PermanentAddress 2) ++
    hex2 (PermanentAddress 3) ++ hex2 (PermanentAddress 4) ++ hex2 (PermanentAddress 5)

/-- `"123456789"` -/
def defaultPsk : List UInt8 := [0x31, 0x32, 0x33, 0x34, 0x35, 0x36, 0x37, 0x38, 0x39]

/-- `"local.nufront"` -/
def defaultDnsName : List UInt8 :=
  [0x6c, 0x6f, 0x63, 0x61, 0x6c, 0x2e, 0x6e, 0x75, 0x66, 0x72, 0x6f, 0x6e, 0x74]

def defaultIpCfg : IpCfg where
  Ip := ⟨[10, 10, 10, 1], rfl⟩
  Netmask := ⟨[255, 255, 255, 0], rfl⟩
  GateWay := ⟨[10, 10, 100, 254], rfl⟩
  Dns := ⟨[10, 10, 100, 254], rfl⟩
  bDhcp := 1
  DhcpTryTimes := 0
  Res_2 := .zero 2

def infLoadDefaultParam (PermanentAddress : Nat → UInt8) (_SysParam : CfgParam) : CfgParam where
  WiFiCfg :=
    { zeroParam.WiFiCfg with
      Ssid := zeroParam.WiFiCfg.Ssid.strcpy (defaultSsid PermanentAddress) (by
        change 16 < 33
        decide)
      SSIDBrdEnable := 1
      Channel := 11
      Encry := 3
      AuthMode := 3
      Protocol := 2
      KeyIndex := 0
      PSK := zeroParam.WiFiCfg.PSK.strcpy defaultPsk (by decide)
      KeyLength := UInt8.ofNat defaultPsk.length
      WmmEn := 0 }
  IPCfg := defaultIpCfg
  bDhcpServer := 1
  bDnsServer := 1
  DnsName := zeroParam.DnsName.strcpy defaultDnsName (by decide)
  Res_3 := zeroParam.Res_3

/-- What it returns and, where it is not `NULL`, stores through `pParam`. -/
def infConfigQuery (pParam : Option CfgParam) (SysParam : CfgParam) : Int × Option CfgParam :=
  match pParam with
  | none => (-1, none)
  | some _ => (0, some SysParam)

/-- The setters that check an enumeration against its upper bound. -/
def modeSet (Mode max : UInt8) (store : CfgParam → CfgParam) (SysParam : CfgParam) : CfgParam × Int :=
  if Mode ≥ max then (SysParam, -1) else (store SysParam, 0)

def infNetModeSet (Mode : UInt8) : CfgParam → CfgParam × Int :=
  modeSet Mode PARAM_NET_MODE_MAX fun p => { p with WiFiCfg := { p.WiFiCfg with Protocol := Mode } }

def infPhyModeSet (Mode : UInt8) : CfgParam → CfgParam × Int :=
  modeSet Mode PARAM_PHY_MODE_MAX fun p => { p with WiFiCfg := { p.WiFiCfg with PhyMode := Mode } }

def infEncModeSet (EncMode : UInt8) : CfgParam → CfgParam × Int :=
  modeSet EncMode PARAM_ENC_MODE_MAX fun p => { p with WiFiCfg := { p.WiFiCfg with Encry := EncMode } }

def infAuthModeSet (AuthMode : UInt8) : CfgParam → CfgParam × Int :=
  modeSet AuthMode PARAM_AUTH_MODE_MAX fun p =>
    { p with WiFiCfg := { p.WiFiCfg with AuthMode := AuthMode } }

/-- A `NULL` pointer is `none`. -/
def infSsidSet (pSsid : Option (Nat → UInt8)) (SsidLen : UInt8) (SysParam : CfgParam) :
    CfgParam × Int :=
  let w := SysParam.WiFiCfg
  let rejected : CfgParam × Int :=
    ({ SysParam with WiFiCfg := { w with Ssid := w.Ssid.put 0 0 (by decide) } }, -1)
  match pSsid with
  | none => rejected
  | some src =>
    if h : SsidLen.toNat > 32 ∨ SsidLen.toNat = 0 then rejected
    else
      let Ssid := w.Ssid.move src SsidLen.toNat (by omega)
      let Ssid := Ssid.put SsidLen.toNat 0 (by omega)
      ({ SysParam with WiFiCfg := { w with Ssid } }, 0)

/-- `Enable ? 1 : 0` -/
def enabled (Enable : UInt8) : UInt8 := if Enable ≠ 0 then 1 else 0

def infSsidBrdcastSet (Enable : UInt8) (SysParam : CfgParam) : CfgParam × Int :=
  ({ SysParam with WiFiCfg := { SysParam.WiFiCfg with SSIDBrdEnable := enabled Enable } }, 0)

def infChannelSet (Ch : UInt8) (SysParam : CfgParam) : CfgParam × Int :=
  if Ch < 1 ∨ Ch > 13 then (SysParam, -1)
  else ({ SysParam with WiFiCfg := { SysParam.WiFiCfg with Channel := Ch } }, 0)

def infKeySet (Index : UInt8) (KeyBuf : Option (Nat → UInt8)) (KeyLen : UInt8) (SysParam : CfgParam) :
    CfgParam × Int :=
  match KeyBuf with
  | none => (SysParam, -1)
  | some src =>
    if h : Index > 3 ∨ KeyLen.toNat > 64 then (SysParam, -1)
    else
      let PSK := SysParam.WiFiCfg.PSK.move src KeyLen.toNat (by omega)
      let PSK := if h64 : KeyLen.toNat < 64 then PSK.put KeyLen.toNat 0 h64 else PSK
      ({ SysParam with
          WiFiCfg := { SysParam.WiFiCfg with KeyIndex := Index, KeyLength := KeyLen, PSK } }, 0)

def infConTryTimesSet (TryTimes : UInt8) (SysParam : CfgParam) : CfgParam × Int :=
  ({ SysParam with WiFiCfg := { SysParam.WiFiCfg with ConTryTimes := TryTimes } }, 0)

def infIpSet (IpParam : Option IpCfg) (SysParam : CfgParam) : CfgParam × Int :=
  match IpParam with
  | none => (SysParam, -1)
  | some IPCfg => ({ SysParam with IPCfg }, 0)

def infDhcpSrvSet (Enable : UInt8) (SysParam : CfgParam) : CfgParam × Int :=
  ({ SysParam with bDhcpServer := enabled Enable }, 0)

def infDnsSrvSet (Enable : UInt8) (DnsName : Option (Nat → UInt8)) (DnsNameLen : UInt8)
    (SysParam : CfgParam) : CfgParam × Int :=
  if Enable ≠ 0 then
    match DnsName with
    | none => (SysParam, -1)
    | some src =>
      if h : DnsNameLen.toNat > 32 then (SysParam, -1)
      else
        let DnsName := SysParam.DnsName.move src DnsNameLen.toNat (by omega)
        ({ SysParam with bDnsServer := 1, DnsName }, 0)
  else ({ SysParam with bDnsServer := 0 }, 0)

inductive Call where
  | loadDefaultParam (PermanentAddress : Nat → UInt8)
  | netModeSet (Mode : UInt8)
  | phyModeSet (Mode : UInt8)
  | ssidSet (pSsid : Option (Nat → UInt8)) (SsidLen : UInt8)
  | ssidBrdcastSet (Enable : UInt8)
  | channelSet (Ch : UInt8)
  | encModeSet (EncMode : UInt8)
  | authModeSet (AuthMode : UInt8)
  | keySet (Index : UInt8) (KeyBuf : Option (Nat → UInt8)) (KeyLen : UInt8)
  | conTryTimesSet (TryTimes : UInt8)
  | ipSet (IpParam : Option IpCfg)
  | dhcpSrvSet (Enable : UInt8)
  | dnsSrvSet (Enable : UInt8) (DnsName : Option (Nat → UInt8)) (DnsNameLen : UInt8)

/-- The parameters after a call, and what it returns; `InfLoadDefaultParam` returns nothing. -/
def infCall (SysParam : CfgParam) : Call → CfgParam × Int
  | .loadDefaultParam PermanentAddress => (infLoadDefaultParam PermanentAddress SysParam, 0)
  | .netModeSet Mode => infNetModeSet Mode SysParam
  | .phyModeSet Mode => infPhyModeSet Mode SysParam
  | .ssidSet pSsid SsidLen => infSsidSet pSsid SsidLen SysParam
  | .ssidBrdcastSet Enable => infSsidBrdcastSet Enable SysParam
  | .channelSet Ch => infChannelSet Ch SysParam
  | .encModeSet EncMode => infEncModeSet EncMode SysParam
  | .authModeSet AuthMode => infAuthModeSet AuthMode SysParam
  | .keySet Index KeyBuf KeyLen => infKeySet Index KeyBuf KeyLen SysParam
  | .conTryTimesSet TryTimes => infConTryTimesSet TryTimes SysParam
  | .ipSet IpParam => infIpSet IpParam SysParam
  | .dhcpSrvSet Enable => infDhcpSrvSet Enable SysParam
  | .dnsSrvSet Enable DnsName DnsNameLen => infDnsSrvSet Enable DnsName DnsNameLen SysParam

def after (SysParam : CfgParam) (c : Call) : CfgParam := (infCall SysParam c).1

/-! ### Settings -/

inductive Setting where
  | netMode | phyMode | ssid | ssidBrdcast | channel | encMode | authMode | key | conTryTimes
  | ip | dhcpSrv | dnsSrv | dnsName
deriving DecidableEq, Repr

def IpCfg.bytes (c : IpCfg) : List UInt8 :=
  c.Ip.toList ++ c.Netmask.toList ++ c.GateWay.toList ++ c.Dns.toList ++
    [c.bDhcp, c.DhcpTryTimes] ++ c.Res_2.toList

/-- A setting as it is read: strings up to their terminator, the key behind its index and as
long as its length says. -/
def setting (p : CfgParam) : Setting → List UInt8
  | .netMode => [p.WiFiCfg.Protocol]
  | .phyMode => [p.WiFiCfg.PhyMode]
  | .ssid => p.WiFiCfg.Ssid.str
  | .ssidBrdcast => [p.WiFiCfg.SSIDBrdEnable]
  | .channel => [p.WiFiCfg.Channel]
  | .encMode => [p.WiFiCfg.Encry]
  | .authMode => [p.WiFiCfg.AuthMode]
  | .key => p.WiFiCfg.KeyIndex :: p.WiFiCfg.PSK.toList.take p.WiFiCfg.KeyLength.toNat
  | .conTryTimes => [p.WiFiCfg.ConTryTimes]
  | .ip => p.IPCfg.bytes
  | .dhcpSrv => [p.bDhcpServer]
  | .dnsSrv => [p.bDnsServer]
  | .dnsName => p.DnsName.str

def defaultOf (PermanentAddress : Nat → UInt8) : Setting → List UInt8
  | .netMode => [2]
  | .phyMode => [0]
  | .ssid => defaultSsid PermanentAddress
  | .ssidBrdcast => [1]
  | .channel => [11]
  | .encMode => [3]
  | .authMode => [3]
  | .key => 0 :: defaultPsk
  | .conTryTimes => [0]
  | .ip => defaultIpCfg.bytes
  | .dhcpSrv => [1]
  | .dnsSrv => [1]
  | .dnsName => defaultDnsName

/-- What the arguments of a call give to a setting.  A DNS name is given when the server is
enabled. -/
def args : Call → Setting → Option (List UInt8)
  | .loadDefaultParam PermanentAddress, s => some (defaultOf PermanentAddress s)
  | .netModeSet Mode, .netMode => some [Mode]
  | .phyModeSet Mode, .phyMode => some [Mode]
  | .ssidSet (some src) SsidLen, .ssid => some (cstr (bytesAt src SsidLen.toNat))
  | .ssidBrdcastSet Enable, .ssidBrdcast => some [enabled Enable]
  | .channelSet Ch, .channel => some [Ch]
  | .encModeSet EncMode, .encMode => some [EncMode]
  | .authModeSet AuthMode, .authMode => some [AuthMode]
  | .keySet Index (some src) KeyLen, .key => some (Index :: bytesAt src KeyLen.toNat)
  | .conTryTimesSet TryTimes, .conTryTimes => some [TryTimes]
  | .ipSet (some IpParam), .ip => some IpParam.bytes
  | .dhcpSrvSet Enable, .dhcpSrv => some [enabled Enable]
  | .dnsSrvSet Enable _ _, .dnsSrv => some [enabled Enable]
  | .dnsSrvSet Enable (some src) DnsNameLen, .dnsName =>
    if Enable ≠ 0 then some (cstr (bytesAt src DnsNameLen.toNat)) else none
  | _, _ => none

def Call.isSsidSet : Call → Bool
  | .ssidSet _ _ => true
  | _ => false

/-- What a call gives to a setting: its arguments when it returns 0, and otherwise nothing, but
the empty SSID. -/
def given (s : Setting) (c : Call) : Option (List UInt8) :=
  if (infCall zeroParam c).2 = 0 then args c s
  else if c.isSsidSet ∧ s = .ssid then some []
  else none

/-- A name that is stored has a terminator of its own, or finds one behind it. -/
def Terminates (p : CfgParam) : Call → Prop
  | .dnsSrvSet Enable (some src) DnsNameLen =>
    Enable ≠ 0 → DnsNameLen.toNat ≤ 32 →
      0 ∈ bytesAt src DnsNameLen.toNat ∨ p.DnsName.toList[DnsNameLen.toNat]? = some 0
  | _ => True

/-! ### Strings in arrays -/

namespace CharArray

variable {n : Nat}

/-- The end of an array behind its first bytes. -/
theorem drop_eq (a : CharArray n) {i : Nat} (h : i < n) :
    ∃ y ys, a.toList.drop i = y :: ys ∧ a.toList[i]? = some y := by
  have hlt : i < a.toList.length := by rw [a.length_eq]; exact h
  exact ⟨a.toList[i], _, List.drop_eq_getElem_cons hlt, List.getElem?_eq_getElem hlt⟩

theorem str_move_put (a : CharArray n) (src : Nat → UInt8) {len : Nat} (h : len ≤ n) (h' : len < n) :
    ((a.move src len h).put len 0 h').str = cstr (bytesAt src len) := by
  obtain ⟨y, ys, hdrop, -⟩ := a.drop_eq h'
  have hlist : ((a.move src len h).put len 0 h').toList = bytesAt src len ++ 0 :: ys := by
    change (bytesAt src len ++ a.toList.drop len).set len 0 = _
    rw [hdrop, List.set_append_right _ _ (by rw [length_bytesAt]), length_bytesAt, Nat.sub_self,
      List.set_cons_zero]
  rw [str, hlist, cstr_append_zero]

theorem str_move_iff (a : CharArray n) (src : Nat → UInt8) {len : Nat} (h : len ≤ n) (h' : len < n) :
    (a.move src len h).str = cstr (bytesAt src len) ↔
      0 ∈ bytesAt src len ∨ a.toList[len]? = some 0 := by
  obtain ⟨y, ys, hdrop, hget⟩ := a.drop_eq h'
  rw [str]
  change cstr (bytesAt src len ++ a.toList.drop len) = _ ↔ _
  rw [hdrop, cstr_append_iff, hget, Option.some.injEq]

theorem str_put_zero (a : CharArray n) (h : 0 < n) : (a.put 0 0 h).str = [] := by
  obtain ⟨y, ys, hdrop, -⟩ := a.drop_eq h
  rw [List.drop_zero] at hdrop
  change cstr (a.toList.set 0 0) = []
  rw [hdrop]
  rfl

theorem str_strcpy (a : CharArray n) {s : List UInt8} (h : s.length < n) (h0 : (0 : UInt8) ∉ s) :
    (a.strcpy s h).str = s := by
  change cstr (s ++ 0 :: _) = s
  rw [cstr_append_zero, cstr_of_nulFree h0]

theorem take_move (a : CharArray n) (src : Nat → UInt8) {len : Nat} (h : len ≤ n) :
    (a.move src len h).toList.take len = bytesAt src len := by
  change (bytesAt src len ++ a.toList.drop len).take len = _
  rw [List.take_left' (length_bytesAt src len)]

theorem take_put (a : CharArray n) {i : Nat} (b : UInt8) (h : i < n) :
    (a.put i b h).toList.take i = a.toList.take i := List.take_set_of_le (Nat.le_refl i)

end CharArray

/-! ### The calls -/

theorem hexDigit_ne_zero {n : Nat} (h : n < 16) : hexDigit n ≠ 0 := by
  have h16 : ∀ n : Fin 16, hexDigit n ≠ 0 := by decide
  exact h16 ⟨n, h⟩

theorem hex2_nulFree (b : UInt8) : (0 : UInt8) ∉ hex2 b := by
  have hb := b.toNat_lt
  intro h
  rcases List.mem_cons.mp h with h | h
  · exact hexDigit_ne_zero (by omega) h.symm
  · exact hexDigit_ne_zero (by omega) (List.mem_singleton.mp h).symm

theorem defaultSsid_nulFree (PermanentAddress : Nat → UInt8) :
    (0 : UInt8) ∉ defaultSsid PermanentAddress := by
  intro h
  rcases List.mem_append.mp h with h | h
  · rcases List.mem_append.mp h with h | h
    · rcases List.mem_append.mp h with h | h
      · rcases List.mem_append.mp h with h | h
        · exact absurd h (by decide)
        · exact hex2_nulFree _ h
      · exact hex2_nulFree _ h
    · exact hex2_nulFree _ h
  · exact hex2_nulFree _ h

theorem setting_loadDefault (PermanentAddress : Nat → UInt8) (p : CfgParam) (s : Setting) :
    setting (infLoadDefaultParam PermanentAddress p) s = defaultOf PermanentAddress s := by
  cases s
  case ssid =>
    exact CharArray.str_strcpy _ (by exact (by decide : 16 < 33))
      (defaultSsid_nulFree PermanentAddress)
  case dnsName => exact CharArray.str_strcpy _ (by decide) (by decide)
  all_goals rfl

/-- What a call returns depends on its arguments alone. -/
theorem ret_eq (p q : CfgParam) (c : Call) : (infCall p c).2 = (infCall q c).2 := by
  have hmode : ∀ (Mode max : UInt8) (store : CfgParam → CfgParam),
      (modeSet Mode max store p).2 = (modeSet Mode max store q).2 := by
    intro Mode max store
    rw [modeSet, modeSet]
    split <;> rfl
  cases c with
  | loadDefaultParam PermanentAddress => rfl
  | netModeSet Mode => exact hmode _ _ _
  | phyModeSet Mode => exact hmode _ _ _
  | encModeSet EncMode => exact hmode _ _ _
  | authModeSet AuthMode => exact hmode _ _ _
  | ssidSet pSsid SsidLen =>
    cases pSsid with
    | none => rfl
    | some src =>
      simp only [infCall, infSsidSet]
      split <;> rfl
  | ssidBrdcastSet Enable => rfl
  | channelSet Ch =>
    simp only [infCall, infChannelSet]
    split <;> rfl
  | keySet Index KeyBuf KeyLen =>
    cases KeyBuf with
    | none => rfl
    | some src =>
      simp only [infCall, infKeySet]
      split <;> rfl
  | conTryTimesSet TryTimes => rfl
  | ipSet IpParam => cases IpParam <;> rfl
  | dhcpSrvSet Enable => rfl
  | dnsSrvSet Enable DnsName DnsNameLen =>
    simp only [infCall, infDnsSrvSet]
    split
    · cases DnsName with
      | none => rfl
      | some src =>
        simp only
        split <;> rfl
    · rfl

/-- A call that is rejected returns something else than 0, and at most the SSID is changed. -/
structure Rejected (p : CfgParam) (c : Call) : Prop where
  ret : (infCall p c).2 ≠ 0
  same : ∀ s, setting (after p c) s = if c.isSsidSet ∧ s = .ssid then [] else setting p s

/-- A call that is accepted returns 0 and leaves what its arguments give. -/
structure Accepted (p : CfgParam) (c : Call) : Prop where
  ret : (infCall p c).2 = 0
  sets : ∀ s, s ≠ .dnsName → setting (after p c) s = (args c s).getD (setting p s)
  name : setting (after p c) .dnsName = (args c .dnsName).getD (setting p .dnsName) ↔ Terminates p c

theorem minus_one_ne_zero : (-1 : Int) ≠ 0 := by decide

/-- Nothing is stored. -/
theorem rejected_of_eq {p : CfgParam} {c : Call} {r : Int} (h : infCall p c = (p, r)) (hr : r ≠ 0)
    (hc : c.isSsidSet = false) : Rejected p c where
  ret := by
    rw [h]
    exact hr
  same := by
    intro s
    rw [after, h, hc]
    exact (if_neg fun hc => Bool.false_ne_true hc.1).symm

section

variable (p : CfgParam)

theorem ssidSet_cases (pSsid : Option (Nat → UInt8)) (SsidLen : UInt8) :
    Rejected p (.ssidSet pSsid SsidLen) ∨ Accepted p (.ssidSet pSsid SsidLen) := by
  have hput := p.WiFiCfg.Ssid.str_put_zero (by decide)
  cases pSsid with
  | none =>
    refine .inl ⟨minus_one_ne_zero, fun s => ?_⟩
    cases s
    case ssid => exact hput
    all_goals rfl
  | some src =>
    by_cases hlen : SsidLen.toNat > 32 ∨ SsidLen.toNat = 0
    · have heq : infCall p (.ssidSet (some src) SsidLen) = ({ p with
          WiFiCfg := { p.WiFiCfg with Ssid := p.WiFiCfg.Ssid.put 0 0 (by decide) } }, -1) := by
        simp only [infCall, infSsidSet]
        exact dif_pos hlen
      refine .inl ⟨?_, fun s => ?_⟩
      · rw [heq]
        exact minus_one_ne_zero
      · rw [after, heq]
        cases s
        case ssid => exact hput
        all_goals rfl
    · have heq : infCall p (.ssidSet (some src) SsidLen) = ({ p with
          WiFiCfg := { p.WiFiCfg with
            Ssid := (p.WiFiCfg.Ssid.move src SsidLen.toNat (by omega)).put SsidLen.toNat 0
              (by omega) } }, 0) := by
        simp only [infCall, infSsidSet]
        exact dif_neg hlen
      refine .inr ⟨by rw [heq], fun s _ => ?_, ?_⟩
      · rw [after, heq]
        cases s
        case ssid => exact p.WiFiCfg.Ssid.str_move_put src (by omega) (by omega)
        all_goals rfl
      · rw [after, heq]
        exact iff_of_true rfl trivial

theorem keySet_cases (Index : UInt8) (KeyBuf : Option (Nat → UInt8)) (KeyLen : UInt8) :
    Rejected p (.keySet Index KeyBuf KeyLen) ∨ Accepted p (.keySet Index KeyBuf KeyLen) := by
  cases KeyBuf with
  | none => exact .inl (rejected_of_eq rfl minus_one_ne_zero rfl)
  | some src =>
    by_cases hlen : Index > 3 ∨ KeyLen.toNat > 64
    · refine .inl (rejected_of_eq (r := -1) ?_ minus_one_ne_zero rfl)
      simp only [infCall, infKeySet]
      exact dif_pos hlen
    · have hle : KeyLen.toNat ≤ 64 := by omega
      obtain ⟨PSK, heq, htake⟩ : ∃ PSK : CharArray 64,
          infCall p (.keySet Index (some src) KeyLen) = ({ p with
            WiFiCfg := { p.WiFiCfg with KeyIndex := Index, KeyLength := KeyLen, PSK } }, 0) ∧
          PSK.toList.take KeyLen.toNat = bytesAt src KeyLen.toNat := by
        have hmove := p.WiFiCfg.PSK.take_move src hle
        by_cases h64 : KeyLen.toNat < 64
        · refine ⟨(p.WiFiCfg.PSK.move src KeyLen.toNat hle).put KeyLen.toNat 0 h64, ?_, ?_⟩
          · simp only [infCall, infKeySet, dif_neg hlen, dif_pos h64]
          · rw [CharArray.take_put, hmove]
        · refine ⟨p.WiFiCfg.PSK.move src KeyLen.toNat hle, ?_, hmove⟩
          simp only [infCall, infKeySet, dif_neg hlen, dif_neg h64]
      refine .inr ⟨by rw [heq], fun s _ => ?_, ?_⟩
      · rw [after, heq]
        cases s
        case key => exact congrArg (List.cons Index) htake
        all_goals rfl
      · rw [after, heq]
        exact iff_of_true rfl trivial

theorem dnsSrvSet_cases (Enable : UInt8) (DnsName : Option (Nat → UInt8)) (DnsNameLen : UInt8) :
    Rejected p (.dnsSrvSet Enable DnsName DnsNameLen) ∨
      Accepted p (.dnsSrvSet Enable DnsName DnsNameLen) := by
  by_cases hE : Enable ≠ 0
  · cases DnsName with
    | none =>
      refine .inl (rejected_of_eq (r := -1) ?_ minus_one_ne_zero rfl)
      simp only [infCall, infDnsSrvSet]
      exact if_pos hE
    | some src =>
      by_cases hlen : DnsNameLen.toNat > 32
      · refine .inl (rejected_of_eq (r := -1) ?_ minus_one_ne_zero rfl)
        simp only [infCall, infDnsSrvSet, if_pos hE]
        exact dif_pos hlen
      · have heq : infCall p (.dnsSrvSet Enable (some src) DnsNameLen) = ({ p with
            bDnsServer := 1, DnsName := p.DnsName.move src DnsNameLen.toNat (by omega) }, 0) := by
          simp only [infCall, infDnsSrvSet, if_pos hE]
          exact dif_neg hlen
        refine .inr ⟨by rw [heq], fun s hs => ?_, ?_⟩
        · rw [after, heq]
          cases s
          case dnsName => exact absurd rfl hs
          case dnsSrv =>
            change [(1 : UInt8)] = [enabled Enable]
            rw [enabled, if_pos hE]
          all_goals rfl
        · rw [after, heq, args, if_pos hE]
          have hle : DnsNameLen.toNat ≤ 32 := by omega
          exact (p.DnsName.str_move_iff src (by omega : DnsNameLen.toNat ≤ 33) (by omega)).trans
            ⟨fun h _ _ => h, fun h => h hE hle⟩
  · have heq : infCall p (.dnsSrvSet Enable DnsName DnsNameLen) =
        ({ p with bDnsServer := 0 }, 0) := by
      simp only [infCall, infDnsSrvSet]
      exact if_neg hE
    have hnone : args (.dnsSrvSet Enable DnsName DnsNameLen) .dnsName = none := by
      cases DnsName with
      | none => rfl
      | some src => exact if_neg hE
    refine .inr ⟨by rw [heq], fun s hs => ?_, ?_⟩
    · rw [after, heq]
      cases s
      case dnsName => exact absurd rfl hs
      case dnsSrv =>
        cases DnsName
        all_goals
          change [(0 : UInt8)] = [enabled Enable]
          rw [enabled, if_neg hE]
      all_goals
        cases DnsName <;> rfl
    · rw [after, heq, hnone]
      refine iff_of_true rfl ?_
      cases DnsName with
      | none => exact trivial
      | some src => exact fun h => absurd h hE

theorem accepted_of_eq {c : Call} {q : CfgParam} (h : infCall p c = (q, 0))
    (hsets : ∀ s, setting q s = (args c s).getD (setting p s)) (hc : Terminates p c) :
    Accepted p c where
  ret := by rw [h]
  sets := by
    intro s _
    rw [after, h]
    exact hsets s
  name := by
    rw [after, h]
    exact iff_of_true (hsets .dnsName) hc

theorem modeSet_cases {c : Call} (Mode max : UInt8) (store : CfgParam → CfgParam)
    (h : infCall p c = modeSet Mode max store p) (hc : c.isSsidSet = false)
    (hsets : ∀ s, setting (store p) s = (args c s).getD (setting p s)) (ht : Terminates p c) :
    Rejected p c ∨ Accepted p c := by
  rw [modeSet] at h
  by_cases hmax : Mode ≥ max
  · rw [if_pos hmax] at h
    exact .inl (rejected_of_eq h minus_one_ne_zero hc)
  · rw [if_neg hmax] at h
    exact .inr (accepted_of_eq p h hsets ht)

/-- **A call is rejected, or accepted.** -/
theorem call_cases (c : Call) : Rejected p c ∨ Accepted p c := by
  cases c with
  | loadDefaultParam PermanentAddress =>
    exact .inr (accepted_of_eq p rfl (setting_loadDefault PermanentAddress p) trivial)
  | netModeSet Mode =>
    exact modeSet_cases p Mode PARAM_NET_MODE_MAX
      (fun p => { p with WiFiCfg := { p.WiFiCfg with Protocol := Mode } }) rfl rfl
      (fun s => by cases s <;> rfl) trivial
  | phyModeSet Mode =>
    exact modeSet_cases p Mode PARAM_PHY_MODE_MAX
      (fun p => { p with WiFiCfg := { p.WiFiCfg with PhyMode := Mode } }) rfl rfl
      (fun s => by cases s <;> rfl) trivial
  | encModeSet EncMode =>
    exact modeSet_cases p EncMode PARAM_ENC_MODE_MAX
      (fun p => { p with WiFiCfg := { p.WiFiCfg with Encry := EncMode } }) rfl rfl
      (fun s => by cases s <;> rfl) trivial
  | authModeSet AuthMode =>
    exact modeSet_cases p AuthMode PARAM_AUTH_MODE_MAX
      (fun p => { p with WiFiCfg := { p.WiFiCfg with AuthMode := AuthMode } }) rfl rfl
      (fun s => by cases s <;> rfl) trivial
  | ssidSet pSsid SsidLen => exact ssidSet_cases p pSsid SsidLen
  | ssidBrdcastSet Enable =>
    exact .inr (accepted_of_eq p rfl (fun s => by cases s <;> rfl) trivial)
  | channelSet Ch =>
    by_cases hCh : Ch < 1 ∨ Ch > 13
    · refine .inl (rejected_of_eq (r := -1) ?_ minus_one_ne_zero rfl)
      exact if_pos hCh
    · refine .inr (accepted_of_eq p (if_neg hCh) (fun s => ?_) trivial)
      cases s <;> rfl
  | keySet Index KeyBuf KeyLen => exact keySet_cases p Index KeyBuf KeyLen
  | conTryTimesSet TryTimes =>
    exact .inr (accepted_of_eq p rfl (fun s => by cases s <;> rfl) trivial)
  | ipSet IpParam =>
    cases IpParam with
    | none => exact .inl (rejected_of_eq rfl minus_one_ne_zero rfl)
    | some IPCfg => exact .inr (accepted_of_eq p rfl (fun s => by cases s <;> rfl) trivial)
  | dhcpSrvSet Enable =>
    exact .inr (accepted_of_eq p rfl (fun s => by cases s <;> rfl) trivial)
  | dnsSrvSet Enable DnsName DnsNameLen => exact dnsSrvSet_cases p Enable DnsName DnsNameLen

end

/-! ### Sequences of calls -/

theorem given_of_accepted {p : CfgParam} {c : Call} (h : Accepted p c) (s : Setting) :
    given s c = args c s := by
  rw [given, ret_eq zeroParam p c, if_pos h.ret]

theorem given_of_rejected {p : CfgParam} {c : Call} (h : Rejected p c) (s : Setting) :
    given s c = if c.isSsidSet ∧ s = .ssid then some [] else none := by
  rw [given, ret_eq zeroParam p c, if_neg h.ret]

theorem setting_of_rejected {p : CfgParam} {c : Call} (h : Rejected p c) (s : Setting) :
    setting (after p c) s = (given s c).getD (setting p s) := by
  rw [given_of_rejected h, h.same]
  split <;> rfl

/-- The call of a rejected DNS name stores none, so that there is nothing to terminate. -/
theorem terminates_of_rejected {p : CfgParam} {c : Call} (h : Rejected p c) : Terminates p c := by
  cases c with
  | dnsSrvSet Enable DnsName DnsNameLen =>
    cases DnsName with
    | none => exact trivial
    | some src =>
      intro hE hlen
      refine absurd ?_ h.ret
      simp only [infCall, infDnsSrvSet, if_pos hE]
      rw [dif_neg (by omega)]
  | _ => exact trivial

theorem setting_after {s : Setting} (hs : s ≠ .dnsName) (p : CfgParam) (c : Call) :
    setting (after p c) s = (given s c).getD (setting p s) := by
  rcases call_cases p c with h | h
  · exact setting_of_rejected h s
  · rw [given_of_accepted h, h.sets s hs]

theorem dnsName_after (p : CfgParam) (c : Call) :
    setting (after p c) .dnsName = (given .dnsName c).getD (setting p .dnsName) ↔
      Terminates p c := by
  rcases call_cases p c with h | h
  · exact iff_of_true (setting_of_rejected h _) (terminates_of_rejected h)
  · rw [given_of_accepted h]
    exact h.name

/-- **The last writer wins.**  Whatever calls are made, a setting other than the DNS name is what
the last accepted call has given it.  The DNS name is so after every one of the calls exactly when
each name that is stored has a terminator in it or finds one behind it.  A call that is rejected
changes nothing but the SSID, which it leaves empty when it was to set it. -/
theorem last_writer_wins (p : CfgParam) (cs : List Call) :
    (∀ s, s ≠ .dnsName → setting (cs.foldl after p) s = lastGiven (given s) (setting p s) cs) ∧
      ((∀ ds es, cs = ds ++ es →
          setting (ds.foldl after p) .dnsName = lastGiven (given .dnsName) (setting p .dnsName) ds) ↔
        Throughout after Terminates p cs) ∧
      (∀ c, (infCall (cs.foldl after p) c).2 ≠ 0 → ∀ s, setting (after (cs.foldl after p) c) s =
        if c.isSsidSet ∧ s = .ssid then [] else setting (cs.foldl after p) s) ∧
      ∀ pParam, infConfigQuery (some pParam) (cs.foldl after p) = (0, some (cs.foldl after p)) := by
  refine ⟨?_, ?_, ?_, ?_⟩
  · intro s hs
    have hstep : ∀ q c, True → setting (after q c) s = (given s c).getD (setting q s) :=
      fun q c _ => setting_after hs q c
    apply read_foldl (fun q => setting q s) hstep
    exact throughout_of_forall (fun _ _ => trivial) cs p
  · exact read_foldl_iff (fun q => setting q .dnsName) dnsName_after cs p
  · intro c hret
    rcases call_cases (cs.foldl after p) c with h | h
    · exact h.same
    · exact absurd h.ret hret
  · intro pParam
    rfl

/-- The name `abc` after the default name. -/
theorem dnsName_not_terminated :
    setting ([.loadDefaultParam fun _ => 0,
        .dnsSrvSet 1 (some fun i => UInt8.ofNat (0x61 + i)) 3].foldl after zeroParam) .dnsName ≠
      lastGiven (given .dnsName) (setting zeroParam .dnsName) [.loadDefaultParam fun _ => 0,
        .dnsSrvSet 1 (some fun i => UInt8.ofNat (0x61 + i)) 3] := by
  decide

end Nl6621.Sys.Param
