import Mathlib.Data.List.GetD
import Mathlib.Tactic.IntervalCases
import Nl6621.Flash.WriteFlash
import Nl6621.Lib.Memory
import Nl6621.Lib.Words

/-!
# Wi-Fi credentials across a reboot

The SSID and the key go a long way: from the message that the phone sends (`lan_softap_config`),
through `Agent_config_data` into the flash (`Agent_SaveSSIDAndKey`), and at the next boot
from the flash back to `Agent_config_data` (`nl6621_GetConfigData`), from where they are used as C
strings.  The message may carry 32 bytes of SSID and 64 of key.  The two fields of the
configuration have 32 bytes each, and the strings in them have to be terminated there.

`Agent_config_t` is the array of its 88 bytes here, since a string that is not terminated runs on
from one field into the next.  A string that runs out of the object is a fault.
`credentials_survive` says which credentials are the same after the reboot.  At boot the
code then lays fixed credentials over the ones it has read, which is modelled as it stands.
-/

namespace Nl6621.Wifi

open Lib Flash Function

/-! ### The functions of the source -/

/-- The fields of `Agent_config_t`: 4 bytes `magicNumber`, 4 bytes `flag`, 16 bytes
`wifipasscode`, 32 bytes `wifi_ssid` and 32 bytes `wifi_key`. -/
def offFlag : Nat := 4

def offSsid : Nat := 24

def offKey : Nat := 56

def sizeofConfig : UInt32 := 88

def AGENT_CONFIG_DATA_ADDR : UInt32 := 0x64000

def XPG_CFG_FLAG_CONNECTED : UInt8 := 1

/-- `flag |= XPG_CFG_FLAG_CONNECTED`, which changes the low byte of the word. -/
def setConnected (config : Nat → UInt8) : Nat → UInt8 :=
  update config offFlag (config offFlag ||| XPG_CFG_FLAG_CONNECTED)

/-- `Agent_config_data` and the flash. -/
structure Device where
  config : Nat → UInt8
  flash : Nor

def nl6621GetConfigData (fuel : Nat) (pConfig : Nat → UInt8) (f : Nor) : Fueled (Nat → UInt8) :=
  readFlash fuel pConfig sizeofConfig AGENT_CONFIG_DATA_ADDR f

def nl6621SaveConfigData (fuel : Nat) (flash_buf pConfig : Nat → UInt8) (f : Nor) : Fueled Nor :=
  writeFlash fuel pConfig sizeofConfig AGENT_CONFIG_DATA_ADDR flash_buf f

def agentSaveSSIDAndKey (fuel : Nat) (flash_buf pSSID pKey : Nat → UInt8) (s : Device) :
    Fueled Device := do
  let config := laid s.config offSsid 32 fun _ => 0
  let config := laid config offKey 32 fun _ => 0
  let config := laid config offSsid 32 pSSID
  let config := laid config offKey 32 pKey
  let config := setConnected config
  let flash ← nl6621SaveConfigData fuel flash_buf config s.flash
  .ok { config, flash }

/-- `ret` is what `DRV_WiFi_StaModeConnStart` returns for the credentials. -/
def lanSoftapConfig (fuel : Nat) (flash_buf data : Nat → UInt8) (ret : Int) (s : Device) :
    Fueled Device :=
  let ssid_len := (data 0).toNat
  if ssid_len > 32 ∨ ssid_len ≤ 0 then .ok s
  else
    let ssid := laid (fun _ => 0) 0 ssid_len fun i => data (1 + i)
    let passwdlen := (data (ssid_len + 1)).toNat
    if passwdlen > 64 then .ok s
    else
      let passwd := laid (fun _ => 0) 0 passwdlen fun i => data (1 + ssid_len + 1 + i)
      if ret = 0 then agentSaveSSIDAndKey fuel flash_buf ssid passwd s
      else .ok s

/-- The two strings that `DRV_WiFi_StaModeConnStart` is called with. -/
def credentials (config : Nat → UInt8) : Outcome (List UInt8 × List UInt8) := do
  let ssid ← stringAt config (sizeofConfig.toNat - offSsid) offSsid
  let key ← stringAt config (sizeofConfig.toNat - offKey) offKey
  .ok (ssid, key)

/-- `"NUFRONT-test03"` -/
def wifissid : List UInt8 :=
  [0x4e, 0x55, 0x46, 0x52, 0x4f, 0x4e, 0x54, 0x2d, 0x74, 0x65, 0x73, 0x74, 0x30, 0x33]

/-- `"nufront.iopjklbnm"` -/
def wifikey : List UInt8 :=
  [0x6e, 0x75, 0x66, 0x72, 0x6f, 0x6e, 0x74, 0x2e, 0x69, 0x6f, 0x70, 0x6a, 0x6b, 0x6c, 0x62,
    0x6e, 0x6d]

/-- `Agent_network_init` from the reading of the configuration on: the configuration whose strings
`DRV_WiFi_StaModeConnStart` is called with, or nothing where it starts the SoftAP mode. -/
def agentNetworkInit (fuel : Nat) (config : Nat → UInt8) (f : Nor) :
    Fueled (Option (Nat → UInt8)) := do
  let config ← nl6621GetConfigData fuel config f
  let config := setConnected config
  let config := laid config offSsid wifissid.length fun i => wifissid.getD i 0
  let config := update config (offSsid + wifissid.length) 0
  let config := laid config offKey wifikey.length fun i => wifikey.getD i 0
  let config := update config (offKey + wifikey.length) 0
  if config offFlag &&& XPG_CFG_FLAG_CONNECTED = XPG_CFG_FLAG_CONNECTED then .ok (some config)
  else .ok none

/-- The message carries these credentials. -/
structure Carries (data : Nat → UInt8) (ssid key : List UInt8) : Prop where
  ssid_len : (data 0).toNat = ssid.length
  ssid_at : ∀ i, i < ssid.length → data (1 + i) = ssid.getD i 0
  passwdlen : (data (ssid.length + 1)).toNat = key.length
  key_at : ∀ i, i < key.length → data (1 + ssid.length + 1 + i) = key.getD i 0

/-! ### Strings in the configuration -/

variable {config config' : Nat → UInt8} {ssid key : List UInt8} {fuel : Nat}

theorem credentials_eq_iff : credentials config = .ok (ssid, key) ↔
    stringAt config 64 offSsid = .ok ssid ∧ stringAt config 32 offKey = .ok key := by
  show (do
    let ssid ← stringAt config 64 offSsid
    let key ← stringAt config 32 offKey
    Outcome.ok (ssid, key)) = _ ↔ _
  cases h1 : stringAt config 64 offSsid with
  | ok a =>
    cases h2 : stringAt config 32 offKey with
    | ok b =>
      simp only [Outcome.ok_bind, Outcome.ok.injEq, Prod.mk.injEq]
    | assertFail => exact ⟨fun h => (by cases h), fun h => (by cases h.2)⟩
    | fault => exact ⟨fun h => (by cases h), fun h => (by cases h.2)⟩
  | assertFail => exact ⟨fun h => (by cases h), fun h => (by cases h.1)⟩
  | fault => exact ⟨fun h => (by cases h), fun h => (by cases h.1)⟩

/-- The two fields hold what was copied into them: 32 bytes of each zero-padded string. -/
structure Saved (config : Nat → UInt8) (ssid key : List UInt8) : Prop where
  ssid : ∀ i, i < 32 → config (offSsid + i) = ssid.getD i 0
  key : ∀ i, i < 32 → config (offKey + i) = key.getD i 0

/-- **Which credentials the fields give back**: the key has to leave room for its terminator,
and so has the SSID unless the key is empty. -/
theorem Saved.credentials_iff (h : Saved config ssid key) (hs : ssid.length ≤ 32)
    (h0 : (0 : UInt8) ∉ ssid) (h0' : (0 : UInt8) ∉ key) :
    credentials config = .ok (ssid, key) ↔
      key.length ≤ 31 ∧ (ssid.length ≤ 31 ∨ key = []) := by
  have hoff : offKey = offSsid + 32 := rfl
  rw [credentials_eq_iff, stringAt_eq_ok_iff, stringAt_eq_ok_iff]
  constructor
  · rintro ⟨⟨-, -, hend, -⟩, hlt, -⟩
    refine ⟨by omega, ?_⟩
    by_cases hlen : ssid.length ≤ 31
    · exact .inl hlen
    · -- the byte behind the SSID is the first one of the key
      rw [show ssid.length = 32 by omega, ← hoff] at hend
      have hkey := h.key 0 (by omega)
      rw [Nat.add_zero, hend] at hkey
      cases key with
      | nil => exact .inr rfl
      | cons y ys => exact absurd (List.mem_cons.mpr (.inl hkey)) h0'
  · rintro ⟨hk, hor⟩
    refine ⟨⟨by omega, h0, ?_, fun i hi => h.ssid i (by omega)⟩, by omega, h0', ?_,
      fun i hi => h.key i (by omega)⟩
    · rcases hor with hlen | rfl
      · rw [h.ssid _ (by omega), List.getD_eq_default _ _ (Nat.le_refl _)]
      · by_cases hlen : ssid.length ≤ 31
        · rw [h.ssid _ (by omega), List.getD_eq_default _ _ (Nat.le_refl _)]
        · rw [show ssid.length = 32 by omega, ← hoff]
          exact h.key 0 (by omega)
    · rw [h.key _ (by omega), List.getD_eq_default _ _ (Nat.le_refl _)]

theorem Saved.congr (h : Saved config ssid key)
    (heq : ∀ i, i < 88 → config' i = config i) : Saved config' ssid key := by
  have hs : offSsid = 24 := rfl
  have hk : offKey = 56 := rfl
  refine ⟨fun i hi => ?_, fun i hi => ?_⟩
  · rw [heq _ (by omega), h.ssid i hi]
  · rw [heq _ (by omega), h.key i hi]

/-! ### Through the flash -/

/-- A buffer with a string copied to its front. -/
def Padded (buf : Nat → UInt8) (xs : List UInt8) : Prop := ∀ i, buf i = xs.getD i 0

theorem padded_laid {xs : List UInt8} {d : Nat → UInt8} (h : ∀ i, i < xs.length → d i = xs.getD i 0) :
    Padded (laid (fun _ => 0) 0 xs.length d) xs := by
  intro i
  by_cases hi : i < xs.length
  · rw [laid, if_pos ⟨by omega, by omega⟩, Nat.sub_zero, h i hi]
  · rw [laid_outside (by omega), List.getD_eq_default _ _ (by omega)]

/-- **Saving stores the first 32 bytes of each buffer.** -/
theorem agentSaveSSIDAndKey_spec {pSSID pKey : Nat → UInt8} (flash_buf : Nat → UInt8) (s : Device)
    (hs : Padded pSSID ssid) (hk : Padded pKey key) (hfuel : 2 ^ 20 < fuel) :
    ∃ s', agentSaveSSIDAndKey fuel flash_buf pSSID pKey s = .ok s' ∧ Saved s'.config ssid key ∧
      ∀ i, i < 88 → s'.flash.cell (AGENT_CONFIG_DATA_ADDR.toNat + i) = s'.config i := by
  have h88 : sizeofConfig.toNat = 88 := rfl
  have hoffs : offSsid = 24 := rfl
  have hoffk : offKey = 56 := rfl
  have hofff : offFlag = 4 := rfl
  generalize hconfig : setConnected (laid (laid (laid (laid s.config offSsid 32 fun _ => 0) offKey 32
    fun _ => 0) offSsid 32 pSSID) offKey 32 pKey) = config
  have hsaved : Saved config ssid key := by
    rw [← hconfig]
    refine ⟨fun i hi => ?_, fun i hi => ?_⟩
    · rw [setConnected, update_of_ne (by omega), laid_outside (by omega), laid_inside hi, hs i]
    · rw [setConnected, update_of_ne (by omega), laid_inside hi, hk i]
  have hwrite : ∃ f', writeFlash fuel config sizeofConfig AGENT_CONFIG_DATA_ADDR flash_buf s.flash =
      .ok f' ∧ Done s.flash AGENT_CONFIG_DATA_ADDR.toNat sizeofConfig.toNat config f' :=
    writeFlash_spec (by decide) (by decide) hfuel
  obtain ⟨f', hw, hcell, -⟩ := hwrite
  refine ⟨⟨config, f'⟩, ?_, hsaved, fun i hi => ?_⟩
  · rw [agentSaveSSIDAndKey]
    simp only [hconfig]
    rw [nl6621SaveConfigData, hw]
    rfl
  · show f'.cell _ = config i
    rw [hcell, laid_inside (by omega)]

/-- Reading the configuration back, from a flash whose configuration is still the one saved. -/
theorem nl6621GetConfigData_spec {f : Nor} (c : Nat → UInt8)
    (hf : ∀ i, i < 88 → f.cell (AGENT_CONFIG_DATA_ADDR.toNat + i) = config i)
    (hfuel : 2 ^ 20 < fuel) :
    ∃ c', nl6621GetConfigData fuel c f = .ok c' ∧ ∀ i, i < 88 → c' i = config i := by
  have h88 : sizeofConfig.toNat = 88 := rfl
  have haddr : AGENT_CONFIG_DATA_ADDR.toNat = 409600 := rfl
  have hread : nl6621GetConfigData fuel c f = _ := qSpiFlashRead_spec (by omega) (by omega)
  refine ⟨_, hread, fun i hi => ?_⟩
  rw [laid, if_pos ⟨by omega, by omega⟩, Nat.sub_zero, hf i hi]

theorem wifissid_ne_zero : (0 : UInt8) ∉ wifissid := by decide

theorem wifikey_ne_zero : (0 : UInt8) ∉ wifikey := by decide

/-- **The boot connects with the fixed credentials.** -/
theorem agentNetworkInit_spec {f : Nor} (c : Nat → UInt8) (hfuel : 2 ^ 20 < fuel) :
    ∃ c', agentNetworkInit fuel c f = .ok (some c') ∧ credentials c' = .ok (wifissid, wifikey) := by
  obtain ⟨c', hget, -⟩ := nl6621GetConfigData_spec (f := f) c (fun i _ => rfl) hfuel
  rw [agentNetworkInit, hget, Fueled.ok_bind]
  generalize hconfig : update (laid (update (laid (setConnected c') offSsid wifissid.length
    fun i => wifissid.getD i 0) (offSsid + wifissid.length) 0) offKey wifikey.length
      fun i => wifikey.getD i 0) (offKey + wifikey.length) 0 = config
  have hls : wifissid.length = 14 := rfl
  have hlk : wifikey.length = 17 := rfl
  have hoffs : offSsid = 24 := rfl
  have hoffk : offKey = 56 := rfl
  have hofff : offFlag = 4 := rfl
  have hflag : config offFlag &&& XPG_CFG_FLAG_CONNECTED = XPG_CFG_FLAG_CONNECTED := by
    rw [← hconfig, update_of_ne (by omega), laid_outside (by omega), update_of_ne (by omega),
      laid_outside (by omega), setConnected, update_self]
    exact or_and_self _ _
  simp only [hconfig]
  rw [if_pos hflag]
  refine ⟨config, rfl, ?_⟩
  rw [credentials_eq_iff, stringAt_eq_ok_iff, stringAt_eq_ok_iff, ← hconfig]
  refine ⟨⟨by omega, wifissid_ne_zero, ?_, fun i hi => ?_⟩, by omega, wifikey_ne_zero, update_self ..,
    fun i hi => ?_⟩
  · rw [update_of_ne (by omega), laid_outside (by omega), update_self]
  · rw [update_of_ne (by omega), laid_outside (by omega), update_of_ne (by omega), laid_inside hi]
  · rw [update_of_ne (by omega), laid_inside hi]

/-! ### The whole way -/

/-- **A message within the limits is accepted, and both its strings are saved.** -/
theorem lanSoftapConfig_spec {data : Nat → UInt8} (flash_buf : Nat → UInt8) (s : Device)
    (hd : Carries data ssid key) (hs1 : 1 ≤ ssid.length) (hs : ssid.length ≤ 32)
    (hk : key.length ≤ 64) (hfuel : 2 ^ 20 < fuel) :
    ∃ s', lanSoftapConfig fuel flash_buf data 0 s = .ok s' ∧ Saved s'.config ssid key ∧
      ∀ i, i < 88 → s'.flash.cell (AGENT_CONFIG_DATA_ADDR.toNat + i) = s'.config i := by
  rw [lanSoftapConfig]
  simp only [hd.ssid_len, hd.passwdlen]
  rw [if_neg (by omega), if_neg (by omega), if_pos trivial]
  exact agentSaveSSIDAndKey_spec flash_buf s (padded_laid hd.ssid_at) (padded_laid hd.key_at) hfuel

/-- **Which credentials survive a reboot.**  The message is accepted and saved.  At any later
time, in any memory, as long as the saved bytes are in the flash: the strings of the
configuration that is read are those of the message if and only if the key has at most 31
bytes, and the SSID as well unless the key is empty; and the strings that the boot connects
with are those of the message if and only if these are the two fixed ones. -/
theorem credentials_survive {data flash_buf : Nat → UInt8} {s : Device} (h0 : (0 : UInt8) ∉ ssid)
    (h0' : (0 : UInt8) ∉ key) (hs1 : 1 ≤ ssid.length) (hs : ssid.length ≤ 32)
    (hk : key.length ≤ 64) (hd : Carries data ssid key) (hfuel : 2 ^ 20 < fuel) :
    ∃ s', lanSoftapConfig fuel flash_buf data 0 s = .ok s' ∧
      ∀ f : Nor, (∀ i, i < 88 → f.cell (AGENT_CONFIG_DATA_ADDR.toNat + i) =
          s'.flash.cell (AGENT_CONFIG_DATA_ADDR.toNat + i)) →
        ∀ c, (∃ c', nl6621GetConfigData fuel c f = .ok c' ∧
            (credentials c' = .ok (ssid, key) ↔
              key.length ≤ 31 ∧ (ssid.length ≤ 31 ∨ key = []))) ∧
          ∃ c', agentNetworkInit fuel c f = .ok (some c') ∧
            (credentials c' = .ok (ssid, key) ↔ ssid = wifissid ∧ key = wifikey) := by
  obtain ⟨s', hconf, hsaved, hflash⟩ := lanSoftapConfig_spec flash_buf s hd hs1 hs hk hfuel
  refine ⟨s', hconf, fun f hf c => ⟨?_, ?_⟩⟩
  · obtain ⟨c', hget, heq⟩ :=
      nl6621GetConfigData_spec c (fun i hi => (hf i hi).trans (hflash i hi)) hfuel
    exact ⟨c', hget, (hsaved.congr heq).credentials_iff hs h0 h0'⟩
  · obtain ⟨c', hboot, hcred⟩ := agentNetworkInit_spec c hfuel
    refine ⟨c', hboot, ?_⟩
    rw [hcred]
    constructor
    · intro h
      cases h
      exact ⟨rfl, rfl⟩
    · rintro ⟨rfl, rfl⟩
      rfl

/-- A message with the SSID "AP" and a key of `n` times the letter k. -/
def apMessage (n : Nat) : Nat → UInt8 := fun i =>
  if i = 0 then 2 else if i = 1 then 0x41 else if i = 2 then 0x50
  else if i = 3 then UInt8.ofNat n else 0x6b

theorem apMessage_carries {n : Nat} (hn : n ≤ 64) :
    Carries (apMessage n) [0x41, 0x50] (List.replicate n 0x6b) := by
  refine ⟨rfl, fun i hi => ?_, ?_, fun i hi => ?_⟩
  · have hi : i < 2 := hi
    interval_cases i <;> rfl
  · show (UInt8.ofNat n).toNat = _
    rw [UInt8.toNat_ofNat', List.length_replicate]
    exact Nat.mod_eq_of_lt (by omega)
  · rw [List.getD_replicate _ (by rwa [List.length_replicate] at hi)]
    have hne : ∀ j, j < 4 → 1 + [(0x41 : UInt8), 0x50].length + 1 + i ≠ j := by
      intro j hj
      show 1 + 2 + 1 + i ≠ j
      omega
    rw [apMessage, if_neg (hne 0 (by omega)), if_neg (hne 1 (by omega)), if_neg (hne 2 (by omega)),
      if_neg (hne 3 (by omega))]

/-- A key of 31 bytes comes back from the flash. -/
theorem credentials_survive_short : ∃ s', lanSoftapConfig (2 ^ 21) (fun _ => 0) (apMessage 31) 0
      ⟨fun _ => 0, ⟨fun _ => 0xff, []⟩⟩ = .ok s' ∧
    ∃ c', nl6621GetConfigData (2 ^ 21) (fun _ => 0) s'.flash = .ok c' ∧
      credentials c' = .ok ([0x41, 0x50], List.replicate 31 0x6b) := by
  have hfuel : 2 ^ 20 < 2 ^ 21 := by decide
  have hd := apMessage_carries (n := 31) (by decide)
  obtain ⟨s', hconf, h⟩ := credentials_survive (s := ⟨fun _ => 0, ⟨fun _ => 0xff, []⟩⟩)
    (by decide) (by decide) (by decide) (by decide) (by decide) hd hfuel
  obtain ⟨⟨c', hget, hiff⟩, -⟩ := h s'.flash (fun i _ => rfl) fun _ => 0
  exact ⟨s', hconf, c', hget, hiff.mpr ⟨by decide, .inl (by decide)⟩⟩

/-- A key of 32 bytes does not. -/
theorem credentials_lost : ∃ s', lanSoftapConfig (2 ^ 21) (fun _ => 0) (apMessage 32) 0
      ⟨fun _ => 0, ⟨fun _ => 0xff, []⟩⟩ = .ok s' ∧
    ∃ c', nl6621GetConfigData (2 ^ 21) (fun _ => 0) s'.flash = .ok c' ∧
      credentials c' ≠ .ok ([0x41, 0x50], List.replicate 32 0x6b) := by
  have hfuel : 2 ^ 20 < 2 ^ 21 := by decide
  obtain ⟨s', hconf, hsaved, hflash⟩ := lanSoftapConfig_spec (fun _ => 0)
    ⟨fun _ => 0, ⟨fun _ => 0xff, []⟩⟩ (apMessage_carries (n := 32) (by decide)) (by decide)
    (by decide) (by decide) hfuel
  obtain ⟨c', hget, heq⟩ := nl6621GetConfigData_spec (fun _ => 0) hflash hfuel
  refine ⟨s', hconf, c', hget, fun hc => ?_⟩
  have hlen := ((hsaved.congr heq).credentials_iff (by decide) (by decide) (by decide)).mp hc
  exact absurd hlen.1 (by decide)

end Nl6621.Wifi
