import Nl6621.Cloud.Loop
import Nl6621.Lib.Runs

/-!
# Login before traffic

Three tasks share `conn_status` and `SensorTaskFlag`.  The cloud task connects,
sends `CONNREQ`, receives packets and closes the connection when something fails;
the heartbeat looks at `conn_status` before every `PINGREQ`; the sensor task waits
for `SensorTaskFlag` once and then uploads forever.

A `World` is the state of the three tasks, with one field that no task can read:
what has happened on the current TCP connection.  Every store to a shared
variable is a step of its own, and so are the test and the send of the heartbeat.
`connRespOf` runs the decoder of `recv_data_process` on a packet, and
`handlePacket_flags` connects the steps of the cloud task with the handler: the
packet handler makes exactly the two stores that `storeFlag` and `storeStatus`
make, for exactly the packets that `connRespOf` answers for.

Both flags are set by any connect response, whatever its return code, and neither is
cleared when the connection is closed.  `login_before_traffic` states what
is left: the gates are sound in every run in which no connect response refuses
the login and the connection stays open from the first login on.
-/

namespace Nl6621.Cloud

open Lib Edp

/-! ### Connect responses -/

/-- What `UnpackConnectResp` returns for a packet of type `CONNRESP`: the return
code of the server, or an error code.  Nothing for other packets, and when the
decoder does not return. -/
def connRespOf (pkg : Buffer) : Option (Except Int UInt8) :=
  match edpPacketType pkg with
  | .ok (.ok mtype, pkg') =>
    if mtype = CONNRESP then
      match (unpackConnectResp : Proc (Buffer × Unit) UInt8) (pkg', ()) with
      | .ok (r, _) => some r
      | _ => none
    else none
  | _ => none

section Flags

variable {J : Type} (env : Env J)

/-- The two gates. -/
def flags (t : Task J) : UInt8 × ConnStatus := (t.globals.sensorTaskFlag, t.globals.connStatus)

theorem blind_flags : Blind (J := J) flags where
  setPtr _ _ _ := rfl
  trace _ _ := rfl
  jsonorbin _ _ := rfl
  pushDatalen _ _ := rfl
  saveBinlen _ _ := rfl
  cmdidLen _ _ := rfl
  cmdReqLen _ _ := rfl

theorem send_flags (f : Block → Bool) (pkg : Buffer) (t : Task J) :
    flags (t.send f pkg) = flags t := by
  unfold Task.send; dsimp only; split <;> rfl

theorem connRespOf_isSome_iff {pkg : Buffer} {bs body : List UInt8} {mtype : UInt8}
    (hp : Filled pkg bs) (hs : bs.length < 2 ^ 31) (hf : IsFrame bs mtype body) :
    (connRespOf pkg).isSome ↔ mtype = CONNRESP ∧ body.length ≤ 2 := by
  obtain ⟨pkg₁, he, ho, -⟩ := edpPacketType_opens hp hs hf
  unfold connRespOf
  rw [he]
  dsimp only
  by_cases hc : mtype = CONNRESP
  · rw [if_pos hc, ← connectResp_returns_iff ho ()]
    cases hu : (unpackConnectResp : Proc (Buffer × Unit) UInt8) (pkg₁, ()) with
    | ok r => simp [hc]
    | assertFail => simp
    | fault => simp
  · rw [if_neg hc]
    simp [hc]

/-- **The gates are set by connect responses and by nothing else**, whatever the
response says. -/
theorem handlePacket_flags {pkg pkg' : Buffer} {bs body : List UInt8} {mtype : UInt8}
    (hp : Filled pkg bs) (hs : bs.length < 2 ^ 31) (hf : IsFrame bs mtype body) {t t' : Task J}
    {r : Except Int Unit} (h : handlePacket env (pkg, t) = .ok (r, (pkg', t'))) :
    flags t' = if (connRespOf pkg).isSome then (1, .CLOUD_CONN_DONE) else flags t := by
  have hret := (filled_returns_iff env hp hs hf t).mp ⟨_, h⟩
  obtain ⟨pkg₁, he, -⟩ := edpPacketType_opens hp hs hf
  rw [handlePacket, Proc.bind_ok (Proc.onFst_ok he)] at h
  by_cases hc : mtype = CONNRESP
  · rw [Handled, if_pos hc] at hret
    rw [if_pos ((connRespOf_isSome_iff hp hs hf).mpr ⟨hc, hret⟩)]
    rw [handleType, if_pos hc, handleConnResp] at h
    cases hv : (do let _ ← unpackConnectResp; pure () : Proc (Buffer × Task J) Unit).void
        (pkg₁, t) with
    | ok q =>
      obtain ⟨e, pkg₂, t₂⟩ := q
      have hok : e = .ok () := by
        unfold Proc.void at hv
        split at hv
        all_goals cases hv
        rfl
      subst hok
      rw [Proc.bind_ok hv] at h
      cases h
      rfl
    | assertFail => rw [Proc.bind_assertFail hv] at h; cases h
    | fault => rw [Proc.bind_fault hv] at h; cases h
  · rw [if_neg fun hsome => hc ((connRespOf_isSome_iff hp hs hf).mp hsome).1]
    exact keeps_handleType env blind_flags (fun pkg t => send_flags _ pkg t) mtype
      (fun hc' => absurd hc' hc) _ _ _ h

end Flags

/-! ### The tasks -/

/-- What has happened on a TCP connection. -/
structure Conn where
  connReqSent : Bool
  accepted : Bool
deriving DecidableEq, Repr

/-- Where the cloud task stands. -/
inductive CloudPc where
  /-- in `TcpCloudThread`, without a socket -/
  | idle
  /-- in `Socket_CreateTCPClient`, behind `socket` -/
  | connecting
  /-- `connect` has succeeded, `Agent_cloud_process` has not started yet -/
  | connected
  /-- in front of a send of `CONNREQ` -/
  | sendConnReq (failedcnt : Nat)
  | receiving
  /-- behind `UnpackConnectResp`, in front of `SensorTaskFlag = 1` -/
  | storeFlag
  /-- in front of `conn_status = CLOUD_CONN_DONE` -/
  | storeStatus
  /-- in front of `Socket_TCPClientClose` -/
  | closing
deriving DecidableEq, Repr

structure World where
  cloud : CloudPc
  /-- the current connection -/
  conn : Option Conn
  sensorTaskFlag : UInt8
  connStatus : ConnStatus
  /-- the heartbeat has seen `CLOUD_CONN_DONE` and is about to send -/
  pinging : Bool
  /-- the sensor task has left its waiting loop -/
  uploading : Bool
  /-- the connection at each `PINGREQ` or upload given to
  `Socket_TCPClientSendData` -/
  sent : List (Option Conn)
deriving DecidableEq, Repr

def initial : World where
  cloud := .idle
  conn := none
  sensorTaskFlag := 0
  connStatus := .zero
  pinging := false
  uploading := false
  sent := []

inductive Act where
  /-- `socket` returns a descriptor -/
  | socket
  | connectOk
  /-- `connect` fails, and the descriptor is closed -/
  | connectFail
  /-- `Agent_cloud_process` starts -/
  | enterProcess
  | connReqOk
  | connReqFail
  /-- a packet is handed to the handler -/
  | packet (pkg : Buffer)
  | storeFlag
  | storeStatus
  /-- `recv` fails, and `Socket_TCPClientRecvData` closes the descriptor -/
  | recvError
  /-- a failed `select` or `TCPClient_reset_flag == 0xa5` -/
  | reset
  | close
  /-- the heartbeat tests `conn_status` -/
  | testStatus
  | ping
  /-- the sensor task tests `SensorTaskFlag` -/
  | testFlag
  | upload

/-- A failed `CONNREQ` is tried again until the fourth failure. -/
def afterConnReqFail (failedcnt : Nat) : CloudPc :=
  if failedcnt + 1 > 3 then .closing else .sendConnReq (failedcnt + 1)

def step (w : World) : Act → Option World
  | .socket => if w.cloud = .idle then some { w with cloud := .connecting } else none
  | .connectOk =>
    if w.cloud = .connecting then
      some { w with cloud := .connected, conn := some ⟨false, false⟩ }
    else none
  | .connectFail =>
    if w.cloud = .connecting then some { w with cloud := .idle, conn := none } else none
  | .enterProcess =>
    if w.cloud = .connected then
      some { w with cloud := .sendConnReq 0, connStatus := .SOCK_DONE }
    else none
  | .connReqOk =>
    match w.cloud with
    | .sendConnReq _ =>
      some { w with cloud := .receiving, conn := w.conn.map fun c => { c with connReqSent := true } }
    | _ => none
  | .connReqFail =>
    match w.cloud with
    | .sendConnReq k =>
      some { w with cloud := afterConnReqFail k, connStatus := .CLOUD_CONN_ERROR }
    | _ => none
  | .packet pkg =>
    if w.cloud = .receiving then
      match connRespOf pkg with
      | some r =>
        some { w with cloud := .storeFlag
                      conn := w.conn.map fun c =>
                        { c with accepted := c.accepted || decide (r.toOption = some 0) } }
      | none => some w
    else none
  | .storeFlag =>
    if w.cloud = .storeFlag then some { w with cloud := .storeStatus, sensorTaskFlag := 1 } else none
  | .storeStatus =>
    if w.cloud = .storeStatus then
      some { w with cloud := .receiving, connStatus := .CLOUD_CONN_DONE }
    else none
  | .recvError =>
    if w.cloud = .receiving then some { w with cloud := .closing, conn := none } else none
  | .reset => if w.cloud = .receiving then some { w with cloud := .closing } else none
  | .close => if w.cloud = .closing then some { w with cloud := .idle, conn := none } else none
  | .testStatus =>
    if w.pinging = false ∧ w.connStatus = .CLOUD_CONN_DONE then some { w with pinging := true }
    else none
  | .ping =>
    if w.pinging then some { w with pinging := false, sent := w.sent ++ [w.conn] } else none
  | .testFlag =>
    if w.uploading = false ∧ w.sensorTaskFlag ≠ 0 then some { w with uploading := true } else none
  | .upload => if w.uploading then some { w with sent := w.sent ++ [w.conn] } else none

/-! ### The property -/

/-- A `CONNREQ` was sent on the connection, and a `CONNRESP` with return code 0
received. -/
def LoggedIn (conn : Option Conn) : Prop :=
  ∃ c, conn = some c ∧ c.connReqSent = true ∧ c.accepted = true

/-- The gates imply a login on the current connection, and whatever went through
them went to a connection with one. -/
structure Safe (w : World) : Prop where
  status : w.connStatus = .CLOUD_CONN_DONE → LoggedIn w.conn
  flag : w.sensorTaskFlag ≠ 0 → LoggedIn w.conn
  sent : ∀ c ∈ w.sent, LoggedIn c

/-- A connect response accepts the login, unless there has been one, and the
connection is closed only before the first login. -/
def Meets (w : World) : Act → Prop
  | .packet pkg => ∀ r, connRespOf pkg = some r → r.toOption = some 0 ∨ LoggedIn w.conn
  | .recvError => w.sensorTaskFlag = 0
  | .close => w.sensorTaskFlag = 0
  | _ => True

/-! ### The invariant -/

/-- What holds of the connection and the flag when the cloud task stands at a
given place. -/
def CloudPc.Expects : CloudPc → Option Conn → UInt8 → Prop
  | idle, conn, _ => conn = none
  | connecting, conn, _ => conn = none
  | connected, conn, _ => ∃ c, conn = some c
  | sendConnReq _, conn, _ => ∃ c, conn = some c
  | receiving, conn, _ => ∃ c, conn = some c ∧ c.connReqSent = true
  | storeFlag, conn, _ => LoggedIn conn
  | storeStatus, conn, flag => LoggedIn conn ∧ flag ≠ 0
  | closing, _, _ => True

structure LoginInv (w : World) : Prop where
  cloud : w.cloud.Expects w.conn w.sensorTaskFlag
  flag : w.sensorTaskFlag ≠ 0 → LoggedIn w.conn
  status : w.connStatus = .CLOUD_CONN_DONE → w.sensorTaskFlag ≠ 0
  pinging : w.pinging = true → w.sensorTaskFlag ≠ 0
  uploading : w.uploading = true → w.sensorTaskFlag ≠ 0
  sent : ∀ c ∈ w.sent, LoggedIn c

theorem LoginInv.safe {w : World} (h : LoginInv w) : Safe w :=
  ⟨fun hs => h.flag (h.status hs), h.flag, h.sent⟩

theorem not_loggedIn_none : ¬ LoggedIn none := by
  rintro ⟨c, hc, -⟩
  cases hc

theorem loginInv_initial : LoginInv initial where
  cloud := rfl
  flag h := absurd rfl h
  status h := by cases h
  pinging h := by cases h
  uploading h := by cases h
  sent := by simp [initial]

/-- While there is no connection no gate is open. -/
theorem LoginInv.flag_eq_zero {w : World} (h : LoginInv w) (hc : w.conn = none) :
    w.sensorTaskFlag = 0 := by
  by_contra hf
  exact not_loggedIn_none (hc ▸ h.flag hf)

theorem loggedIn_sendConnReq {conn : Option Conn} (h : LoggedIn conn) :
    LoggedIn (conn.map fun c => { c with connReqSent := true }) := by
  obtain ⟨c, rfl, -, ha⟩ := h
  exact ⟨_, rfl, rfl, ha⟩

theorem loggedIn_connResp {conn : Option Conn} (h : LoggedIn conn) (b : Bool) :
    LoggedIn (conn.map fun c => { c with accepted := c.accepted || b }) := by
  obtain ⟨c, rfl, hr, ha⟩ := h
  exact ⟨_, rfl, hr, by simp [ha]⟩

theorem sent_append {sent : List (Option Conn)} {conn : Option Conn}
    (h : ∀ c ∈ sent, LoggedIn c) (hc : LoggedIn conn) : ∀ c ∈ sent ++ [conn], LoggedIn c := by
  intro c hm
  rcases List.mem_append.mp hm with hm | hm
  · exact h c hm
  · rw [List.mem_singleton.mp hm]; exact hc

theorem step_loginInv {w w' : World} {a : Act} (h : LoginInv w) (hm : Meets w a)
    (hs : step w a = some w') : LoginInv w' := by
  have hcloud := h.cloud
  have hone : (1 : UInt8) ≠ 0 := by decide
  cases a with
  | socket =>
    simp only [step, Option.ite_none_right_eq_some, Option.some.injEq] at hs
    obtain ⟨hpc, rfl⟩ := hs
    rw [hpc] at hcloud
    exact ⟨hcloud, h.flag, h.status, h.pinging, h.uploading, h.sent⟩
  | connectOk =>
    simp only [step, Option.ite_none_right_eq_some, Option.some.injEq] at hs
    obtain ⟨hpc, rfl⟩ := hs
    rw [hpc] at hcloud
    have h0 := h.flag_eq_zero hcloud
    exact ⟨⟨_, rfl⟩, fun hf => absurd h0 hf, h.status, h.pinging, h.uploading, h.sent⟩
  | connectFail =>
    simp only [step, Option.ite_none_right_eq_some, Option.some.injEq] at hs
    obtain ⟨hpc, rfl⟩ := hs
    rw [hpc] at hcloud
    have h0 := h.flag_eq_zero hcloud
    exact ⟨rfl, fun hf => absurd h0 hf, h.status, h.pinging, h.uploading, h.sent⟩
  | enterProcess =>
    simp only [step, Option.ite_none_right_eq_some, Option.some.injEq] at hs
    obtain ⟨hpc, rfl⟩ := hs
    rw [hpc] at hcloud
    exact ⟨hcloud, h.flag, by simp, h.pinging, h.uploading, h.sent⟩
  | connReqOk =>
    simp only [step] at hs
    split at hs
    · next k hpc =>
      cases hs
      rw [hpc] at hcloud
      obtain ⟨c, hc⟩ := hcloud
      exact ⟨⟨_, by rw [hc]; rfl, rfl⟩, fun hf => loggedIn_sendConnReq (h.flag hf), h.status,
        h.pinging, h.uploading, h.sent⟩
    · cases hs
  | connReqFail =>
    simp only [step] at hs
    split at hs
    · next k hpc =>
      cases hs
      rw [hpc] at hcloud
      refine ⟨?_, h.flag, by simp, h.pinging, h.uploading, h.sent⟩
      show (afterConnReqFail k).Expects _ _
      unfold afterConnReqFail
      split
      · trivial
      · exact hcloud
    · cases hs
  | packet pkg =>
    simp only [step, Option.ite_none_right_eq_some] at hs
    obtain ⟨hpc, hs⟩ := hs
    rw [hpc] at hcloud
    obtain ⟨c, hc, hreq⟩ := hcloud
    split at hs
    · next r hr =>
      cases hs
      refine ⟨?_, fun hf => loggedIn_connResp (h.flag hf) _, h.status, h.pinging, h.uploading,
        h.sent⟩
      -- the response accepts the login, or there was one before
      rcases hm r hr with h0 | hin
      · refine ⟨{ c with accepted := c.accepted || decide (r.toOption = some 0) }, ?_, hreq, ?_⟩
        · show Option.map _ w.conn = _
          rw [hc]
          rfl
        · simp [h0]
      · exact loggedIn_connResp hin _
    · cases hs
      exact h
  | storeFlag =>
    simp only [step, Option.ite_none_right_eq_some, Option.some.injEq] at hs
    obtain ⟨hpc, rfl⟩ := hs
    rw [hpc] at hcloud
    exact ⟨⟨hcloud, hone⟩, fun _ => hcloud, fun _ => hone, fun _ => hone, fun _ => hone, h.sent⟩
  | storeStatus =>
    simp only [step, Option.ite_none_right_eq_some, Option.some.injEq] at hs
    obtain ⟨hpc, rfl⟩ := hs
    rw [hpc] at hcloud
    obtain ⟨⟨c, hc, hreq, -⟩, hf⟩ := hcloud
    exact ⟨⟨c, hc, hreq⟩, h.flag, fun _ => hf, h.pinging, h.uploading, h.sent⟩
  | recvError =>
    simp only [step, Option.ite_none_right_eq_some, Option.some.injEq] at hs
    obtain ⟨-, rfl⟩ := hs
    exact ⟨trivial, fun hf => absurd hm hf, h.status, h.pinging, h.uploading, h.sent⟩
  | reset =>
    simp only [step, Option.ite_none_right_eq_some, Option.some.injEq] at hs
    obtain ⟨-, rfl⟩ := hs
    exact ⟨trivial, h.flag, h.status, h.pinging, h.uploading, h.sent⟩
  | close =>
    simp only [step, Option.ite_none_right_eq_some, Option.some.injEq] at hs
    obtain ⟨-, rfl⟩ := hs
    exact ⟨rfl, fun hf => absurd hm hf, h.status, h.pinging, h.uploading, h.sent⟩
  | testStatus =>
    simp only [step, Option.ite_none_right_eq_some, Option.some.injEq] at hs
    obtain ⟨hg, rfl⟩ := hs
    exact ⟨hcloud, h.flag, h.status, fun _ => h.status hg.2, h.uploading, h.sent⟩
  | ping =>
    simp only [step, Option.ite_none_right_eq_some, Option.some.injEq] at hs
    obtain ⟨hp, rfl⟩ := hs
    exact ⟨hcloud, h.flag, h.status, by simp, h.uploading,
      sent_append h.sent (h.flag (h.pinging hp))⟩
  | testFlag =>
    simp only [step, Option.ite_none_right_eq_some, Option.some.injEq] at hs
    obtain ⟨hg, rfl⟩ := hs
    exact ⟨hcloud, h.flag, h.status, h.pinging, fun _ => hg.2, h.sent⟩
  | upload =>
    simp only [step, Option.ite_none_right_eq_some, Option.some.injEq] at hs
    obtain ⟨hu, rfl⟩ := hs
    exact ⟨hcloud, h.flag, h.status, h.pinging, h.uploading,
      sent_append h.sent (h.flag (h.uploading hu))⟩

/-- **Login before traffic.**  In every run of the three tasks in which no connect
response refuses the login of a connection that has none, and in which the
connection is not closed any more once `SensorTaskFlag` has been set, every state
reached is safe: both gates imply a login on the current connection, and every
`PINGREQ` and upload was sent on a connection with a login. -/
theorem login_before_traffic {w : World} (h : Reach (· = initial) step Meets w) : Safe w :=
  (h.invariant (I := LoginInv) (by rintro s rfl; exact loginInv_initial)
    fun _ _ _ hinv hm hs => step_loginInv hinv hm hs).safe

/-- A connect response with the return code `rtn`, as `GetEdpPacket` returns it. -/
def connRespPacket (rtn : UInt8) : Buffer where
  data := [0x20, 0x02, 0x00, rtn].map some ++ Block.malloc 1496
  writePos := 4
  readPos := 0
  capacity := bufferSize

/-- Connecting, logging in and sending one heartbeat. -/
def loginRun (rtn : UInt8) : List Act :=
  [.socket, .connectOk, .enterProcess, .connReqOk, .packet (connRespPacket rtn), .storeFlag,
    .storeStatus, .testStatus, .ping]

/-- The world after it. -/
def afterLoginRun (accepted : Bool) : World where
  cloud := .receiving
  conn := some ⟨true, accepted⟩
  sensorTaskFlag := 1
  connStatus := .CLOUD_CONN_DONE
  pinging := false
  uploading := false
  sent := [some ⟨true, accepted⟩]

theorem along_loginRun : Along step Meets initial (loginRun 0) := by
  refine ⟨trivial, ?_⟩; rintro _ ⟨⟩
  refine ⟨trivial, ?_⟩; rintro _ ⟨⟩
  refine ⟨trivial, ?_⟩; rintro _ ⟨⟩
  refine ⟨trivial, ?_⟩; rintro _ ⟨⟩
  refine ⟨fun r hr => .inl ?_, ?_⟩
  · cases hr
    rfl
  rintro _ ⟨⟩
  refine ⟨trivial, ?_⟩; rintro _ ⟨⟩
  refine ⟨trivial, ?_⟩; rintro _ ⟨⟩
  refine ⟨trivial, ?_⟩; rintro _ ⟨⟩
  exact ⟨trivial, fun _ _ => trivial⟩

theorem login_before_traffic_accepted :
    Reach (· = initial) step Meets (afterLoginRun true) ∧ Safe (afterLoginRun true) := by
  have h : Reach (· = initial) step Meets (afterLoginRun true) :=
    reach_run (loginRun 0) (.start rfl) along_loginRun rfl
  exact ⟨h, login_before_traffic h⟩

/-- **A refused login opens the gates.**  The server answers `CONNREQ` with return
code 1, both flags are set all the same, and a heartbeat is sent. -/
theorem refused_login_not_safe :
    Reach (· = initial) step Anything (afterLoginRun false) ∧ ¬ Safe (afterLoginRun false) := by
  refine ⟨reach_run (loginRun 1) (.start rfl) (along_anything _ _) rfl, fun h => ?_⟩
  obtain ⟨c, hc, -, ha⟩ := h.sent (some ⟨true, false⟩) (List.mem_singleton_self _)
  cases hc
  cases ha

end Nl6621.Cloud
