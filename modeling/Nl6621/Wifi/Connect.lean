import Mathlib.Tactic.Common
import Nl6621.Lib.Runs

/-!
# Waiting for the Wi-Fi connection

`DRV_WiFi_StaModeConnStart` starts an attempt to join a network and then polls
`wifi_sta_connect_ap_flag` until `AppEvtCallBack`, which the system task calls, has stored
something other than 2 there.  The two tasks run side by side: a `World` is where the connect
task stands, the variables they share, and, as a field that no task can read, the terminal
events that were delivered since `InfWiFiStart`.  A call of the callback is one step, since it
stores to the flag once.

The flag is set to 2 only after the attempt was started, and `SYS_EVT_DHCP_FAIL` does not touch
it.  `no_lost_event` says that nothing else loses an event: it holds in every run in which no
terminal event comes before the flag is armed and a DHCP failure comes only when the flag says
that the attempt has failed already.
-/

namespace Nl6621.Wifi

open Lib

/-! ### The system task -/

/-- The messages of the system task. -/
inductive SysMsg where
  | SYS_LINK_UP_ID | SYS_LINK_DOWN_ID | SYS_DHCP_TIMEOUT_ID | SYS_SCAN_DONE_ID
  | SYS_STA_JOIN_FAIL_ID | SYS_DIRECT_CFG_DONE_ID
deriving DecidableEq, Repr

inductive SysEvt where
  | SYS_EVT_LINK_DOWN | SYS_EVT_LINK_UP | SYS_EVT_JOIN_FAIL | SYS_EVT_DHCP_FAIL
  | SYS_EVT_SCAN_DONE | SYS_EVT_DIRECT_CFG_DONE
deriving DecidableEq, Repr

/-- The event that `SysEvtCB` is called with, given what `L2LinkUp` returns. -/
def defaultProc (msgId : SysMsg) (l2LinkUp : Int) : Option SysEvt :=
  match msgId with
  | .SYS_LINK_UP_ID => if l2LinkUp ≠ 0 then none else some .SYS_EVT_LINK_UP
  | .SYS_LINK_DOWN_ID => some .SYS_EVT_LINK_DOWN
  | .SYS_STA_JOIN_FAIL_ID => some .SYS_EVT_JOIN_FAIL
  | .SYS_DHCP_TIMEOUT_ID => some .SYS_EVT_DHCP_FAIL
  | .SYS_SCAN_DONE_ID => some .SYS_EVT_SCAN_DONE
  | .SYS_DIRECT_CFG_DONE_ID => some .SYS_EVT_DIRECT_CFG_DONE

/-- The attempt to connect has come to an end, one way or the other. -/
def SysEvt.Terminal (e : SysEvt) : Prop :=
  e = .SYS_EVT_LINK_UP ∨ e = .SYS_EVT_JOIN_FAIL ∨ e = .SYS_EVT_DHCP_FAIL

instance (e : SysEvt) : Decidable e.Terminal := by unfold SysEvt.Terminal; infer_instance

/-! ### The two tasks -/

def SYS_STATUS_WIFI_SOFTAP : UInt8 := 1

/-- Where the connect task stands. -/
inductive ConnectPc where
  /-- not in `DRV_WiFi_StaModeConnStart` -/
  | idle
  /-- behind `InfWiFiStop`, setting the parameters -/
  | stopped
  /-- behind `InfWiFiStart`, in front of `wifi_sta_connect_ap_flag = 2` -/
  | started
  /-- in front of the test of the loop -/
  | test
  /-- in the `OSTimeDly` of the loop -/
  | delay
  /-- behind the loop, in front of `wifi_sta_connect_ap_flag == 1` -/
  | left
deriving DecidableEq, Repr

structure World where
  pc : ConnectPc
  /-- what the last call returned -/
  ret : Option Int
  wifi_sta_connect_ap_flag : UInt8
  DirectCfgFlag : Int
  /-- `sys_status.status` -/
  status : UInt8
  /-- `BSP_ChipReset` was called, and nothing runs any more -/
  reset : Bool
  /-- the terminal events delivered since `InfWiFiStart` -/
  terminal : List SysEvt
deriving DecidableEq, Repr

def AppEvtCallBack (event : SysEvt) (w : World) : World :=
  match event with
  | .SYS_EVT_LINK_UP => { w with DirectCfgFlag := 1, wifi_sta_connect_ap_flag := 1 }
  | .SYS_EVT_JOIN_FAIL =>
    { w with wifi_sta_connect_ap_flag := 0, reset := decide (w.status = SYS_STATUS_WIFI_SOFTAP) }
  | .SYS_EVT_DIRECT_CFG_DONE => { w with DirectCfgFlag := 1 }
  | .SYS_EVT_LINK_DOWN | .SYS_EVT_DHCP_FAIL | .SYS_EVT_SCAN_DONE => w

def deliver (event : SysEvt) (w : World) : World :=
  let w' := AppEvtCallBack event w
  if event.Terminal then { w' with terminal := w'.terminal ++ [event] } else w'

inductive Act where
  /-- `DRV_WiFi_StaModeConnStart` is called, up to `InfWiFiStop` -/
  | call
  /-- `InfWiFiStart` -/
  | start
  /-- `wifi_sta_connect_ap_flag = 2` -/
  | arm
  | test
  /-- the `OSTimeDly` of the loop is over -/
  | wake
  /-- the test behind the loop, and the return -/
  | finish
  /-- the system task handles a message -/
  | message (msgId : SysMsg) (l2LinkUp : Int)
  /-- another task stores to `sys_status.status` -/
  | setStatus (status : UInt8)
deriving DecidableEq, Repr

/-- A step, while the chip has not been reset. -/
def move (w : World) : Act → Option World
  | .call => if w.pc = .idle then some { w with pc := .stopped, ret := none } else none
  | .start => if w.pc = .stopped then some { w with pc := .started, terminal := [] } else none
  | .arm =>
    if w.pc = .started then some { w with pc := .test, wifi_sta_connect_ap_flag := 2 } else none
  | .test =>
    if w.pc = .test then
      some { w with pc := if w.wifi_sta_connect_ap_flag = 2 then .delay else .left }
    else none
  | .wake => if w.pc = .delay then some { w with pc := .test } else none
  | .finish =>
    if w.pc = .left then
      some { w with pc := .idle, ret := some (if w.wifi_sta_connect_ap_flag = 1 then 0 else -1) }
    else none
  | .message msgId l2LinkUp =>
    match defaultProc msgId l2LinkUp with
    | some event => some (deliver event w)
    | none => some w
  | .setStatus status => some { w with status := status }

def step (w : World) (a : Act) : Option World := if w.reset then none else move w a

/-- Before the first call; the variables are anything. -/
def Init (w : World) : Prop := w.pc = .idle ∧ w.ret = none

/-! ### The property -/

/-- The connect task is in its wait loop. -/
def World.Waits (w : World) : Prop := w.pc = .test ∨ w.pc = .delay

/-- No terminal event is lost: after one the task is not left waiting for the flag to change,
and the function returns 0 only when the last one was `SYS_EVT_LINK_UP`. -/
structure NoLostEvent (w : World) : Prop where
  awake : w.terminal ≠ [] → w.Waits → w.wifi_sta_connect_ap_flag ≠ 2
  linked : ∀ w', step w .finish = some w' → w'.ret = some 0 →
    w'.terminal.getLast? = some .SYS_EVT_LINK_UP

/-- Terminal events come only when the flag is armed, and a DHCP failure only when the flag
says that the attempt has failed. -/
def InTime (w : World) : Act → Prop
  | .message msgId l2LinkUp => ∀ event, defaultProc msgId l2LinkUp = some event →
      event.Terminal → w.pc ≠ .started ∧
        (event = .SYS_EVT_DHCP_FAIL → w.Waits ∨ w.pc = .left → w.wifi_sta_connect_ap_flag = 0)
  | _ => True

/-! ### The invariant -/

structure EventInv (w : World) : Prop where
  started : w.pc = .started → w.terminal = []
  armed : w.Waits → w.wifi_sta_connect_ap_flag = 2 → w.terminal = []
  linked : w.Waits ∨ w.pc = .left → w.wifi_sta_connect_ap_flag = 1 →
    w.terminal.getLast? = some .SYS_EVT_LINK_UP

theorem EventInv.noLostEvent {w : World} (h : EventInv w) : NoLostEvent w where
  awake ht hw hf := ht (h.armed hw hf)
  linked w' hs hr := by
    simp only [step, move, Option.ite_none_left_eq_some, Option.ite_none_right_eq_some,
      Option.some.injEq] at hs
    obtain ⟨-, hpc, rfl⟩ := hs
    by_cases hf : w.wifi_sta_connect_ap_flag = 1
    · exact h.linked (.inr hpc) hf
    · simp [hf] at hr

theorem eventInv_init {w : World} (h : Init w) : EventInv w := by
  have hpc := h.1
  refine ⟨fun h => ?_, fun h => ?_, fun h => ?_⟩
  · rw [hpc] at h
    cases h
  · simp [World.Waits, hpc] at h
  · simp [World.Waits, hpc] at h

/-- The events that are not terminal leave the flag and the place alone. -/
theorem deliver_other {e : SysEvt} (he : ¬ e.Terminal) (w : World) :
    (deliver e w).pc = w.pc ∧ (deliver e w).terminal = w.terminal ∧
      (deliver e w).wifi_sta_connect_ap_flag = w.wifi_sta_connect_ap_flag := by
  rw [deliver]
  simp only [if_neg he]
  cases e with
  | SYS_EVT_LINK_UP => exact absurd (.inl rfl) he
  | SYS_EVT_JOIN_FAIL => exact absurd (.inr (.inl rfl)) he
  | SYS_EVT_DHCP_FAIL => exact absurd (.inr (.inr rfl)) he
  | SYS_EVT_LINK_DOWN => exact ⟨rfl, rfl, rfl⟩
  | SYS_EVT_SCAN_DONE => exact ⟨rfl, rfl, rfl⟩
  | SYS_EVT_DIRECT_CFG_DONE => exact ⟨rfl, rfl, rfl⟩

/-- What a terminal event leaves: the flag says 1 with a link and 0 without one, and a DHCP
failure leaves it alone. -/
theorem deliver_terminal {e : SysEvt} (he : e.Terminal) (w : World) :
    (deliver e w).pc = w.pc ∧ (deliver e w).terminal = w.terminal ++ [e] ∧
      (e = .SYS_EVT_LINK_UP ∧ (deliver e w).wifi_sta_connect_ap_flag = 1 ∨
        e = .SYS_EVT_JOIN_FAIL ∧ (deliver e w).wifi_sta_connect_ap_flag = 0 ∨
        e = .SYS_EVT_DHCP_FAIL ∧
          (deliver e w).wifi_sta_connect_ap_flag = w.wifi_sta_connect_ap_flag) := by
  rcases he with rfl | rfl | rfl
  · exact ⟨rfl, rfl, .inl ⟨rfl, rfl⟩⟩
  · exact ⟨rfl, rfl, .inr (.inl ⟨rfl, rfl⟩)⟩
  · exact ⟨rfl, rfl, .inr (.inr ⟨rfl, rfl⟩)⟩

theorem deliver_eventInv {w : World} {e : SysEvt} (h : EventInv w)
    (hok : e.Terminal → w.pc ≠ .started ∧
      (e = .SYS_EVT_DHCP_FAIL → w.Waits ∨ w.pc = .left → w.wifi_sta_connect_ap_flag = 0)) :
    EventInv (deliver e w) := by
  by_cases he : e.Terminal
  · obtain ⟨hstarted, hdhcp⟩ := hok he
    obtain ⟨hpc, hterm, hflag⟩ := deliver_terminal he w
    refine ⟨fun hs => ?_, fun hw hf => ?_, fun hw hf => ?_⟩
    · exact absurd (hpc ▸ hs) hstarted
    · rw [World.Waits, hpc] at hw
      rcases hflag with ⟨-, h1⟩ | ⟨-, h0⟩ | ⟨hd, hsame⟩
      · rw [h1] at hf
        exact absurd hf (by decide)
      · rw [h0] at hf
        exact absurd hf (by decide)
      · rw [hsame, hdhcp hd (.inl hw)] at hf
        exact absurd hf (by decide)
    · rw [World.Waits, hpc] at hw
      rw [hterm, List.getLast?_append]
      rcases hflag with ⟨rfl, -⟩ | ⟨-, h0⟩ | ⟨hd, hsame⟩
      · rfl
      · rw [h0] at hf
        exact absurd hf (by decide)
      · rw [hsame, hdhcp hd hw] at hf
        exact absurd hf (by decide)
  · obtain ⟨hpc, hterm, hflag⟩ := deliver_other he w
    refine ⟨fun hs => ?_, fun hw hf => ?_, fun hw hf => ?_⟩
    · rw [hterm]
      exact h.started (hpc ▸ hs)
    · rw [World.Waits, hpc] at hw
      rw [hterm]
      exact h.armed hw (hflag ▸ hf)
    · rw [World.Waits, hpc] at hw
      rw [hterm]
      exact h.linked hw (hflag ▸ hf)

theorem step_eventInv {w w' : World} {a : Act} (h : EventInv w) (hok : InTime w a)
    (hs : step w a = some w') : EventInv w' := by
  rw [step] at hs
  simp only [Option.ite_none_left_eq_some] at hs
  obtain ⟨-, hs⟩ := hs
  cases a with
  | call =>
    simp only [move, Option.ite_none_right_eq_some, Option.some.injEq] at hs
    obtain ⟨hpc, rfl⟩ := hs
    exact ⟨by simp, by simp [World.Waits], by simp [World.Waits]⟩
  | start =>
    simp only [move, Option.ite_none_right_eq_some, Option.some.injEq] at hs
    obtain ⟨hpc, rfl⟩ := hs
    exact ⟨fun _ => rfl, by simp [World.Waits], by simp [World.Waits]⟩
  | arm =>
    simp only [move, Option.ite_none_right_eq_some, Option.some.injEq] at hs
    obtain ⟨hpc, rfl⟩ := hs
    exact ⟨by simp, fun _ _ => h.started hpc, fun _ hf => absurd hf (by decide : (2 : UInt8) ≠ 1)⟩
  | test =>
    simp only [move, Option.ite_none_right_eq_some, Option.some.injEq] at hs
    obtain ⟨hpc, rfl⟩ := hs
    have hw : w.Waits := .inl hpc
    refine ⟨fun hst => ?_, fun _ hf => h.armed hw hf, fun _ hf => h.linked (.inl hw) hf⟩
    by_cases hf : w.wifi_sta_connect_ap_flag = 2 <;> simp [hf] at hst
  | wake =>
    simp only [move, Option.ite_none_right_eq_some, Option.some.injEq] at hs
    obtain ⟨hpc, rfl⟩ := hs
    have hw : w.Waits := .inr hpc
    exact ⟨by simp, fun _ hf => h.armed hw hf, fun _ hf => h.linked (.inl hw) hf⟩
  | finish =>
    simp only [move, Option.ite_none_right_eq_some, Option.some.injEq] at hs
    obtain ⟨hpc, rfl⟩ := hs
    exact ⟨by simp, by simp [World.Waits], by simp [World.Waits]⟩
  | message msgId l2LinkUp =>
    simp only [move] at hs
    split at hs
    · next event hev =>
      cases hs
      exact deliver_eventInv h (hok event hev)
    · cases hs
      exact h
  | setStatus status =>
    cases hs
    exact ⟨h.started, h.armed, h.linked⟩

/-! ### The law -/

/-- **No Wi-Fi event is lost**, in every run in which no terminal event comes before the flag
is armed and a DHCP failure comes only after the attempt has failed. -/
theorem no_lost_event {w : World} (h : Reach Init step InTime w) : NoLostEvent w := by
  refine EventInv.noLostEvent (h.invariant ?_ ?_)
  · intro w hw
    exact eventInv_init hw
  · intro w a w' hinv hok hs
    exact step_eventInv hinv hok hs

/-- The state before the first call. -/
def boot : World := ⟨.idle, none, 0, 0, 2, false, []⟩

/-- The access point answers while the task polls: the function returns 0. -/
theorem no_lost_event_linked :
    NoLostEvent ⟨.idle, some 0, 1, 1, 2, false, [.SYS_EVT_LINK_UP]⟩ := by
  have hreach : Reach Init step InTime ⟨.idle, some 0, 1, 1, 2, false, [.SYS_EVT_LINK_UP]⟩ := by
    refine reach_run [.call, .start, .arm, .test, .message .SYS_LINK_UP_ID 0, .wake, .test, .finish]
      (.start (s := boot) ⟨rfl, rfl⟩) ?_ rfl
    refine ⟨trivial, ?_⟩
    rintro _ ⟨⟩
    refine ⟨trivial, ?_⟩
    rintro _ ⟨⟩
    refine ⟨trivial, ?_⟩
    rintro _ ⟨⟩
    refine ⟨trivial, ?_⟩
    rintro _ ⟨⟩
    refine ⟨?_, ?_⟩
    · rintro event ⟨⟩ -
      refine ⟨by decide, fun hd => ?_⟩
      cases hd
    · rintro _ ⟨⟩
      refine ⟨trivial, ?_⟩
      rintro _ ⟨⟩
      refine ⟨trivial, ?_⟩
      rintro _ ⟨⟩
      exact ⟨trivial, fun _ _ => trivial⟩
  exact no_lost_event hreach

/-- The access point answers during the delay in front of the loop: the task waits for ever
after.  And a DHCP failure does not wake it either. -/
theorem lost_event :
    (∃ w, Reach Init step Anything w ∧ w.terminal = [.SYS_EVT_LINK_UP] ∧ ¬ NoLostEvent w) ∧
      ∃ w, Reach Init step Anything w ∧ w.terminal = [.SYS_EVT_DHCP_FAIL] ∧ ¬ NoLostEvent w := by
  constructor
  · refine ⟨⟨.test, none, 2, 1, 2, false, [.SYS_EVT_LINK_UP]⟩, ?_, rfl, fun h => ?_⟩
    · exact reach_run [.call, .start, .message .SYS_LINK_UP_ID 0, .arm]
        (.start (s := boot) ⟨rfl, rfl⟩) (along_anything _ _) rfl
    · exact h.awake (by decide) (.inl rfl) rfl
  · refine ⟨⟨.test, none, 2, 0, 2, false, [.SYS_EVT_DHCP_FAIL]⟩, ?_, rfl, fun h => ?_⟩
    · exact reach_run [.call, .start, .arm, .message .SYS_DHCP_TIMEOUT_ID 0]
        (.start (s := boot) ⟨rfl, rfl⟩) (along_anything _ _) rfl
    · exact h.awake (by decide) (.inl rfl) rfl

end Nl6621.Wifi
