import Mathlib.Tactic.Common
import Nl6621.Lib.Runs

/-!
# The connection to the cloud server

The cloud task makes a connection, logs in and receives (`Socket_CreateTCPClient`,
`Agent_cloud_process`), and the heartbeat and the sensor task send on the same connection
(`Socket_TCPClientSendData`).  They share the descriptor in `TCPClientFd`, the flag with which a
sender asks the cloud task to connect anew, and the lock that keeps two senders apart.

A `World` has these variables and the place at which every task stands.  A step is one access to
the shared variables or one call, so that any other task can come in between; what a call of the
socket library returns is a part of the action.  Delays and waits for the station to be connected
are not there, as any number of steps of others can lie between two steps of a task.

The history variables are `calls`, the calls in their order, `conn`, the number of the connection
that `TCPClientFd` has been given for, `isOpen` until it is closed, `ended` from the first receive
on it that returned 0 or an error, and `cut` from the first send on it that failed in the middle
of a packet.
-/

namespace Nl6621.Net.Client

open Lib

/-! ### The state -/

inductive Task where
  | cloud | heartbeat | sensor
deriving DecidableEq, Repr

/-- Where a task stands in `Socket_TCPClientSendData`. -/
inductive SendPc where
  /-- in `OSMutexPend` -/
  | pend
  /-- in front of `select` -/
  | select (total : Nat)
  /-- in front of `send` -/
  | send (total : Nat)
  /-- in front of `OSMutexPost` -/
  | post (ret : Int)
  /-- in front of `TCPClient_reset_flag = 0xa5` -/
  | setFlag (ret : Int)
  | done (ret : Int)
deriving DecidableEq, Repr

/-- A call of `Socket_TCPClientSendData`. -/
structure Frame where
  sendbuf : List UInt8
  pc : SendPc
deriving DecidableEq, Repr

/-- `while (len != total)` -/
def Frame.next (f : Frame) (total : Nat) : SendPc :=
  if f.sendbuf.length ≠ total then .select total else .post total

/-- What `select` returns, and whether the descriptor is set. -/
inductive SelectRet where
  | error | ready | notReady
deriving DecidableEq, Repr

/-- Where `Socket_TCPClientClose` returns to. -/
inductive Caller where
  /-- `Socket_CreateTCPClient` or `Agent_cloud_process`, which return -1 -/
  | thread
  /-- `Socket_TCPClientRecvData`, which returns -2 -/
  | recvData
deriving DecidableEq, Repr

/-- Where the cloud task stands. -/
inductive CloudPc where
  /-- in front of `socket` -/
  | create
  /-- in front of `connect` -/
  | connect
  /-- in front of `close` -/
  | close (caller : Caller)
  /-- in front of `TCPClientFd = -1` -/
  | clear (caller : Caller)
  /-- in front of `TCPClient_reset_flag = 1` -/
  | reset
  /-- in front of `conn_status = SOCK_DONE` -/
  | enter
  /-- in front of the call that sends `CONNREQ` -/
  | connReq (failedcnt : Nat)
  | connSent (failedcnt : Nat)
  /-- in `Socket_TCPClientRecvData`: in front of `select`, of the test of the flag and of `recv` -/
  | recvSelect
  | recvFlag (isset : Bool)
  | recv
  /-- in the handler of the received data, and in a call that sends a response -/
  | process (ret : Int)
  | responding (ret : Int)
  /-- in front of `ret < 0 || TCPClient_reset_flag == 0xa5`; `eof` when `recv` has returned 0 -/
  | test (ret : Int) (eof : Bool)
deriving DecidableEq, Repr

def Caller.pc : Caller → CloudPc
  | .thread => .create
  | .recvData => .test (-2) false

inductive ConnStatus where
  | zero | SOCK_DONE | CLOUD_CONN_ERROR | CLOUD_CONN_DONE
deriving DecidableEq, Repr

/-- A call, with the descriptor that is passed and the connection it stands for.  `take` is the
return of `OSMutexPend` to a sender with the packet `sendbuf`; a `send` is from `total` on and has
the bytes that were accepted, or nothing when it failed. -/
inductive Call where
  | take (sendbuf : List UInt8)
  | select (t : Task) (fd : Int) (conn : Option Nat)
  | send (t : Task) (fd : Int) (conn : Option Nat) (total : Nat) (bytes : Option (List UInt8))
  | recv (fd : Int) (conn : Option Nat) (ret : Int)
  | close (fd : Int) (conn : Option Nat)
deriving DecidableEq, Repr

structure World where
  TCPClientFd : Int
  TCPClient_reset_flag : UInt8
  conn_status : ConnStatus
  SensorTaskFlag : UInt8
  lock : Option Task
  frame : Task → Option Frame
  cloud : CloudPc
  conn : Option Nat
  isOpen : Bool
  ended : Bool
  cut : Bool
  /-- the number of connections that `socket` has made -/
  made : Nat
  calls : List Call

namespace World

def log (w : World) (c : Call) : World := { w with calls := w.calls ++ [c] }

def setFrame (w : World) (t : Task) (f : Option Frame) : World :=
  { w with frame := fun u => if u = t then f else w.frame u }

def setPc (w : World) (t : Task) (f : Frame) (pc : SendPc) : World :=
  w.setFrame t (some { f with pc := pc })

end World

/-! ### The steps -/

inductive SendAct where
  | pend
  | select (r : SelectRet)
  | send (n : Option Nat)
  | post
  | setFlag
deriving DecidableEq, Repr

/-- A step of a task in `Socket_TCPClientSendData`. -/
def sendStep (w : World) (t : Task) (f : Frame) : SendAct → Option World
  | .pend =>
    match f.pc, w.lock with
    | .pend, none =>
      some (({ w with lock := some t }.log (.take f.sendbuf)).setPc t f (f.next 0))
    | _, _ => none
  | .select r =>
    match f.pc with
    | .select total =>
      let w := w.log (.select t w.TCPClientFd w.conn)
      match r with
      -- the lock is kept
      | .error => some (w.setPc t f (.done (-1)))
      | .ready => some (w.setPc t f (.send total))
      | .notReady => some (w.setPc t f (.select total))
    | _ => none
  | .send n =>
    match f.pc with
    | .send total =>
      match n with
      | none =>
        let w := w.log (.send t w.TCPClientFd w.conn total none)
        some ({ w with cut := w.cut || decide (0 < total) }.setPc t f (.post (-1)))
      | some k =>
        if w.isOpen ∧ total + k ≤ f.sendbuf.length then
          some ((w.log (.send t w.TCPClientFd w.conn total
            (some ((f.sendbuf.drop total).take k)))).setPc t f (f.next (total + k)))
        else none
    | _ => none
  | .post =>
    match f.pc with
    | .post ret =>
      some ({ w with lock := none }.setPc t f (if ret < 0 then .setFlag ret else .done ret))
    | _ => none
  | .setFlag =>
    match f.pc with
    | .setFlag ret => some ({ w with TCPClient_reset_flag := 0xa5 }.setPc t f (.done ret))
    | _ => none

inductive CloudAct where
  | socket (fd : Option Nat)
  | connect (ok : Bool)
  | close
  | clear
  | reset
  | enter
  | connReq (pkg : List UInt8)
  | connSent
  | recvSelect (r : SelectRet)
  | recvFlag
  | recv (n : Int)
  | connResp
  | respond (pkg : List UInt8)
  | responded
  | processed
  | test
deriving DecidableEq, Repr

/-- What a call of `Socket_TCPClientSendData` by the cloud task has returned. -/
def World.returned (w : World) : Option Int :=
  match w.frame .cloud with
  | some ⟨_, .done ret⟩ => some ret
  | _ => none

/-- A step of the cloud task outside `Socket_TCPClientSendData`. -/
def cloudStep (w : World) (a : CloudAct) : Option World :=
  match w.cloud, a with
  | .create, .socket none => some { w with TCPClientFd := -1 }
  | .create, .socket (some fd) =>
    some { w with
      TCPClientFd := fd, conn := some w.made, isOpen := true, ended := false, cut := false
      made := w.made + 1, cloud := .connect }
  | .connect, .connect ok => some { w with cloud := if ok then .reset else .close .thread }
  | .close caller, .close =>
    some { w.log (.close w.TCPClientFd w.conn) with isOpen := false, cloud := .clear caller }
  | .clear caller, .clear => some { w with TCPClientFd := -1, conn := none, cloud := caller.pc }
  | .reset, .reset => some { w with TCPClient_reset_flag := 1, cloud := .enter }
  | .enter, .enter => some { w with conn_status := .SOCK_DONE, cloud := .connReq 0 }
  | .connReq failedcnt, .connReq pkg =>
    some { w.setFrame .cloud (some ⟨pkg, .pend⟩) with cloud := .connSent failedcnt }
  | .connSent failedcnt, .connSent =>
    w.returned.bind fun ret =>
      let w := w.setFrame .cloud none
      if ret < 0 then
        some { w with
          conn_status := .CLOUD_CONN_ERROR
          cloud := if failedcnt + 1 > 3 then .close .thread else .connReq (failedcnt + 1) }
      else some { w with cloud := .recvSelect }
  | .recvSelect, .recvSelect r =>
    let w := w.log (.select .cloud w.TCPClientFd w.conn)
    match r with
    | .error => some { w with cloud := .test (-1) false }
    | .ready => some { w with cloud := .recvFlag true }
    | .notReady => some { w with cloud := .recvFlag false }
  | .recvFlag isset, .recvFlag =>
    some { w with
      cloud := if w.TCPClient_reset_flag = 0xa5 then .test (-1) false
        else if isset then .recv else .test 0 false }
  | .recv, .recv n =>
    some { w.log (.recv w.TCPClientFd w.conn n) with
      ended := w.ended || decide (n ≤ 0)
      cloud := if n < 0 then .close .recvData else if n = 0 then .test 0 true else .process n }
  | .process _, .connResp => some { w with SensorTaskFlag := 1, conn_status := .CLOUD_CONN_DONE }
  | .process ret, .respond pkg =>
    some { w.setFrame .cloud (some ⟨pkg, .pend⟩) with cloud := .responding ret }
  | .responding ret, .responded =>
    w.returned.bind fun _ => some { w.setFrame .cloud none with cloud := .process ret }
  | .process ret, .processed => some { w with cloud := .test ret false }
  | .test ret _, .test =>
    some { w with
      cloud := if ret < 0 ∨ w.TCPClient_reset_flag = 0xa5 then .close .thread else .recvSelect }
  | _, _ => none

/-- A call of `Socket_TCPClientSendData` by the heartbeat or the sensor task. -/
def startSend (w : World) (t : Task) (pkg : List UInt8) : Option World :=
  match t, w.frame t with
  | .heartbeat, none =>
    if w.conn_status = .CLOUD_CONN_DONE then some (w.setFrame .heartbeat (some ⟨pkg, .pend⟩))
    else none
  | .sensor, none =>
    if w.SensorTaskFlag ≠ 0 then some (w.setFrame .sensor (some ⟨pkg, .pend⟩)) else none
  | _, _ => none

/-- Its return. -/
def finishSend (w : World) (t : Task) : Option World :=
  match t, w.frame t with
  | .heartbeat, some ⟨_, .done _⟩ => some (w.setFrame .heartbeat none)
  | .sensor, some ⟨_, .done _⟩ => some (w.setFrame .sensor none)
  | _, _ => none

inductive Act where
  | cloud (a : CloudAct)
  | start (t : Task) (pkg : List UInt8)
  | sender (t : Task) (a : SendAct)
  | finish (t : Task)
deriving DecidableEq, Repr

def step (w : World) : Act → Option World
  | .cloud a => cloudStep w a
  | .start t pkg => startSend w t pkg
  | .sender t a => (w.frame t).bind fun f => sendStep w t f a
  | .finish t => finishSend w t

/-- All tasks before their first step. -/
def boot : World where
  TCPClientFd := -1
  TCPClient_reset_flag := 0
  conn_status := .zero
  SensorTaskFlag := 0
  lock := none
  frame _ := none
  cloud := .create
  conn := none
  isOpen := false
  ended := false
  cut := false
  made := 0
  calls := []

/-- In the loop of `Socket_TCPClientSendData`, `total` bytes of `sendbuf` having been sent. -/
def Frame.looping (f : Frame) (total : Nat) : Prop := f.pc = .select total ∨ f.pc = .send total

/-- The task is in that loop. -/
def World.InLoop (w : World) (t : Task) : Prop := ∃ f total, w.frame t = some f ∧ f.looping total

theorem startSend_cases {w w' : World} {t : Task} {pkg : List UInt8}
    (h : startSend w t pkg = some w') :
    t ≠ .cloud ∧ w.frame t = none ∧ w' = w.setFrame t (some ⟨pkg, .pend⟩) := by
  cases hf : w.frame t with
  | some f => cases t <;> simp only [startSend, hf] at h <;> cases h
  | none =>
    cases t with
    | cloud => cases h
    | heartbeat =>
      simp only [startSend, hf] at h
      obtain ⟨-, h⟩ := Option.ite_none_right_eq_some.mp h
      cases h
      exact ⟨fun ht => (by cases ht), rfl, rfl⟩
    | sensor =>
      simp only [startSend, hf] at h
      obtain ⟨-, h⟩ := Option.ite_none_right_eq_some.mp h
      cases h
      exact ⟨fun ht => (by cases ht), rfl, rfl⟩

theorem finishSend_cases {w w' : World} {t : Task} (h : finishSend w t = some w') :
    t ≠ .cloud ∧ (∃ sendbuf ret, w.frame t = some ⟨sendbuf, .done ret⟩) ∧
      w' = w.setFrame t none := by
  unfold finishSend at h
  split at h
  · rename_i sendbuf ret hf
    cases h
    exact ⟨fun ht => (by cases ht), ⟨sendbuf, ret, hf⟩, rfl⟩
  · rename_i sendbuf ret hf
    cases h
    exact ⟨fun ht => (by cases ht), ⟨sendbuf, ret, hf⟩, rfl⟩
  · cases h

end Nl6621.Net.Client
