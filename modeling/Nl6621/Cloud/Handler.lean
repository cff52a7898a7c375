import Nl6621.Edp.Kit

/-!
# `recv_data_process` of `cloud.c`

The task that reads from the cloud socket hands every chunk it receives to
`recv_data_process`, which cuts packets off the chunk and acts on each.

The locals of the function are part of the state.  They are not initialised
(`simple_str` apart), and they keep their values from one packet of the loop to
the next.  A pointer variable is a `Slot`: indeterminate, NULL, or the object
a decoder put there, together with the number of the packet it was decoded from
and whether it has been freed since.  `trace` records the objects that are
assigned and what the function does with its pointers: printing with `%s`,
`cJSON_Print`, `cJSON_Delete` and `free`, each with the slot as it was found.
None of these stops the function here; whether the slot was fit for the use is
a question about the trace.

Logging that does not go through a pointer is left out.  `Env` stands for the
JSON library and for the answers of the socket.
-/

namespace Nl6621.Cloud

open Lib Edp

/-! ### Locals and globals -/

/-- The pointer variables of `recv_data_process`. -/
inductive Var where
  | srcDevid | saveJson | saveJsonStr | descJson | descJsonStr | saveBin | jsonAck | pushData
  | cmdid | cmdReq | simpleStr
deriving DecidableEq, Repr

/-- What a pointer can point to. -/
inductive Obj (J : Type) where
  | bytes (b : List UInt8)
  | json (j : J)

/-- The value of a pointer variable.  `packet` numbers the packet the object was
decoded from. -/
inductive Slot (J : Type) where
  | indeterminate
  | null
  | live (packet : Nat) (obj : Obj J)
  | freed (packet : Nat) (obj : Obj J)

/-- `conn_status`; `zero` is the value before the first assignment, which is not
one of the enumerators. -/
inductive ConnStatus where
  | zero | SOCK_NONE | SOCK_ERROR | SOCK_DONE | CLOUD_CONN_NONE | CLOUD_CONN_ERROR | CLOUD_CONN_DONE
deriving DecidableEq, Repr

/-- The variables shared with the other tasks. -/
structure Globals where
  sensorTaskFlag : UInt8
  connStatus : ConnStatus
  tcpClientResetFlag : UInt8
deriving DecidableEq, Repr

inductive Action where
  | print | free | cJSON_Print | cJSON_Delete
deriving DecidableEq, Repr

/-- What happens to a pointer variable while packet number `packet` is handled: an
object is assigned to it, or it is used as it is found. -/
inductive Event (J : Type) where
  | assigned (v : Var) (packet : Nat) (obj : Obj J)
  | used (action : Action) (v : Var) (packet : Nat) (slot : Slot J)

/-- The state of the task inside `recv_data_process`. -/
structure Task (J : Type) where
  ptr : Var → Slot J
  jsonorbin : UInt8
  pushDatalen : Nat
  saveBinlen : Nat
  cmdidLen : Nat
  cmdReqLen : Nat
  globals : Globals
  /-- the number of packets dispatched -/
  packet : Nat
  dispatched : List Block
  sent : List Block
  trace : List (Event J)

/-- The JSON library, and whether a send fails. -/
structure Env (J : Type) where
  cJSON_Parse : List UInt8 → Option J
  cJSON_Print : J → CString
  sendFails : Block → Bool

namespace Task

variable {J : Type}

def setPtr (v : Var) (p : Slot J) (t : Task J) : Task J :=
  { t with ptr := fun v' => if v' = v then p else t.ptr v' }

/-- A new object is assigned to `v`. -/
def setObj (v : Var) (obj : Obj J) (t : Task J) : Task J :=
  { t.setPtr v (.live t.packet obj) with trace := t.trace ++ [.assigned v t.packet obj] }

def setBytes (v : Var) (obj : List UInt8) (t : Task J) : Task J := t.setObj v (.bytes obj)

/-- A new object or NULL is assigned to `v`. -/
def setOption (v : Var) (obj : Option (Obj J)) (t : Task J) : Task J :=
  match obj with
  | some o => t.setObj v o
  | none => t.setPtr v .null

def setSrcDevid (obj : Option (List UInt8)) (t : Task J) : Task J :=
  t.setOption .srcDevid (obj.map .bytes)

def setJson (v : Var) (obj : Option J) (t : Task J) : Task J := t.setOption v (obj.map .json)

def setJsonorbin (b : UInt8) (t : Task J) : Task J := { t with jsonorbin := b }
def setPushDatalen (n : Nat) (t : Task J) : Task J := { t with pushDatalen := n }
def setSaveBinlen (n : Nat) (t : Task J) : Task J := { t with saveBinlen := n }
def setCmdidLen (n : Nat) (t : Task J) : Task J := { t with cmdidLen := n }
def setCmdReqLen (n : Nat) (t : Task J) : Task J := { t with cmdReqLen := n }

def record (a : Action) (v : Var) (t : Task J) : Task J :=
  { t with trace := t.trace ++ [.used a v t.packet (t.ptr v)] }

/-- `free(v)` or `cJSON_Delete(v)`. -/
def release (a : Action) (v : Var) (t : Task J) : Task J :=
  match t.ptr v with
  | .live n o => (t.record a v).setPtr v (.freed n o)
  | _ => t.record a v

/-- `str = cJSON_Print(v)`. -/
def jsonPrint (cJSON_Print : J → CString) (str v : Var) (t : Task J) : Task J :=
  match t.ptr v with
  | .live _ (.json j) =>
    (t.record .cJSON_Print v).setBytes str ((cJSON_Print j).bytes ++ [0])
  | _ => (t.record .cJSON_Print v).setPtr str .indeterminate

def loginDone (t : Task J) : Task J :=
  { t with globals := { t.globals with sensorTaskFlag := 1, connStatus := .CLOUD_CONN_DONE } }

/-- `GetEdpPacket` has returned `pkg`. -/
def dispatch (pkg : Buffer) (t : Task J) : Task J :=
  { t with packet := t.packet + 1, dispatched := t.dispatched ++ [pkg.data.take pkg.writePos] }

/-- `Socket_TCPClientSendData`; a failed send asks for a reset of the connection. -/
def send (sendFails : Block → Bool) (pkg : Buffer) (t : Task J) : Task J :=
  let bytes := pkg.data.take pkg.writePos
  if sendFails bytes then { t with globals := { t.globals with tcpClientResetFlag := 0xa5 } }
  else { t with sent := t.sent ++ [bytes] }

@[simp] theorem send_ptr (f : Block → Bool) (pkg : Buffer) (t : Task J) :
    (t.send f pkg).ptr = t.ptr := by
  unfold send; dsimp only; split <;> rfl

@[simp] theorem send_packet (f : Block → Bool) (pkg : Buffer) (t : Task J) :
    (t.send f pkg).packet = t.packet := by
  unfold send; dsimp only; split <;> rfl

@[simp] theorem send_trace (f : Block → Bool) (pkg : Buffer) (t : Task J) :
    (t.send f pkg).trace = t.trace := by
  unfold send; dsimp only; split <;> rfl

@[simp] theorem send_dispatched (f : Block → Bool) (pkg : Buffer) (t : Task J) :
    (t.send f pkg).dispatched = t.dispatched := by
  unfold send; dsimp only; split <;> rfl

/-- The locals as a call of `recv_data_process` finds them. -/
def enter (t : Task J) : Task J :=
  { t with ptr := fun v => if v = .simpleStr then .null else .indeterminate }

/-- The state when the receive loop of a connection starts. -/
def start (g : Globals) : Task J where
  ptr _ := .indeterminate
  jsonorbin := 0
  pushDatalen := 0
  saveBinlen := 0
  cmdidLen := 0
  cmdReqLen := 0
  globals := g
  packet := 0
  dispatched := []
  sent := []
  trace := []

end Task

/-! ### One packet -/

section Handlers

variable {J : Type} (env : Env J)

/-- `printf` with `%s`. -/
def print (v : Var) : Proc (Buffer × Task J) Unit := assign (Task.record .print v)

def free (v : Var) : Proc (Buffer × Task J) Unit := assign (Task.release .free v)

def handleConnResp : Proc (Buffer × Task J) Unit := do
  (do let _ ← unpackConnectResp; pure ()).void
  assign Task.loginDone

def handlePingResp : Proc (Buffer × Task J) Unit := unpackPingResp.void

/-- `UnpackPushdata(pkg, &src_devid, &push_data, &push_datalen)`, and so on. -/
def callPushdata : Proc (Buffer × Task J) Unit :=
  unpackPushdata (Task.setBytes .srcDevid) (Task.setBytes .pushData) Task.setPushDatalen

def callSavedata : Proc (Buffer × Task J) Unit :=
  unpackSavedata Task.setSrcDevid Task.setJsonorbin

def callSavedataJson : Proc (Buffer × Task J) Unit :=
  unpackSavedataJson env.cJSON_Parse (Task.setJson .saveJson)

def callSavedataBin : Proc (Buffer × Task J) Unit :=
  unpackSavedataBin env.cJSON_Parse (Task.setJson .descJson) (Task.setBytes .saveBin)
    Task.setSaveBinlen

def callSavedataSimpleString : Proc (Buffer × Task J) Unit :=
  unpackSavedataSimpleString (Task.setBytes .simpleStr)

def callSavedataAck : Proc (Buffer × Task J) Unit := unpackSavedataAck (Task.setBytes .jsonAck)

def callCmdReq : Proc (Buffer × Task J) Unit :=
  unpackCmdReq (Task.setBytes .cmdid) Task.setCmdidLen (Task.setBytes .cmdReq) Task.setCmdReqLen

def handlePushdata : Proc (Buffer × Task J) Unit := do
  callPushdata.void
  print .srcDevid
  print .pushData
  free .srcDevid
  free .pushData

def handleSavedataJson : Proc (Buffer × Task J) Unit := do
  (callSavedataJson env).void
  assign (Task.jsonPrint env.cJSON_Print .saveJsonStr .saveJson)
  print .srcDevid
  print .saveJsonStr
  free .saveJsonStr
  assign (Task.release .cJSON_Delete .saveJson)

def handleSavedataBin : Proc (Buffer × Task J) Unit := do
  (callSavedataBin env).void
  assign (Task.jsonPrint env.cJSON_Print .descJsonStr .descJson)
  print .srcDevid
  print .descJsonStr
  print .saveBin
  free .descJsonStr
  assign (Task.release .cJSON_Delete .descJson)
  free .saveBin

def handleSavedataString : Proc (Buffer × Task J) Unit := do
  callSavedataSimpleString.void
  print .simpleStr
  free .simpleStr

/-- The branches on `jsonorbin`. -/
def handleSavedataBody (jsonorbin : UInt8) : Proc (Buffer × Task J) Unit :=
  if jsonorbin = kTypeFullJson ∨ jsonorbin = kTypeSimpleJsonWithoutTime ∨
      jsonorbin = kTypeSimpleJsonWithTime then handleSavedataJson env
  else if jsonorbin = kTypeBin then handleSavedataBin env
  else if jsonorbin = kTypeString then handleSavedataString
  else pure ()

def handleSavedata : Proc (Buffer × Task J) Unit := do
  let ok ← callSavedata.succeeds
  if ok then do
    let s ← Proc.get
    handleSavedataBody env s.2.jsonorbin
    free .srcDevid
  else pure ()

def handleSaveAck : Proc (Buffer × Task J) Unit := do
  assign (Task.setPtr .jsonAck .null)
  callSavedataAck.void
  print .jsonAck
  free .jsonAck

/-- The bytes `PacketCmdResp` copies from `cmdid`. -/
def cmdidBytes (t : Task J) : Outcome (List UInt8) :=
  match t.ptr .cmdid with
  | .live _ (.bytes id) => .ok id
  | _ => .fault

/-- `cmd_resp[] = "ok"`. -/
def cmdResp : List UInt8 := [0x6f, 0x6b]

def handleCmdReq : Proc (Buffer × Task J) Unit := do
  let ok ← callCmdReq.succeeds
  if ok then do
    let s ← Proc.get
    let id ← Proc.lift (cmdidBytes s.2)
    let sendPkg ← Proc.lift (packetCmdResp id cmdResp)
    assign (Task.send env.sendFails sendPkg)
    free .cmdid
    free .cmdReq
  else pure ()

/-- `switch(mtype)`. -/
def handleType (mtype : UInt8) : Proc (Buffer × Task J) Unit :=
  if mtype = CONNRESP then handleConnResp
  else if mtype = PINGRESP then handlePingResp
  else if mtype = PUSHDATA then handlePushdata
  else if mtype = SAVEDATA then handleSavedata env
  else if mtype = SAVEACK then handleSaveAck
  else if mtype = CMDREQ then handleCmdReq env
  else pure ()

def handlePacket : Proc (Buffer × Task J) Unit := do
  let mtype ← edpPacketType.onFst
  handleType env mtype

/-! ### One chunk, and one connection -/

/-- Why `recv_data_process` ends: it needs more bytes, or it does not come
back. -/
inductive Ended where
  | needMore | assertFail | fault
deriving DecidableEq, Repr

structure Run (J : Type) where
  task : Task J
  ended : Ended

/-- The loop of `recv_data_process`.  Every packet takes bytes from the buffer, so
the first argument never runs out when it starts above the number of bytes
(`finishes_recvLoop`). -/
def recvLoop : Nat → Buffer → Task J → Run J
  | 0, _, t => ⟨t, .needMore⟩
  | k + 1, recvbuf, t =>
    match getEdpPacket recvbuf with
    | .ok (none, _) => ⟨t, .needMore⟩
    | .ok (some pkg, recvbuf') =>
      match handlePacket env (pkg, t.dispatch pkg) with
      | .ok (_, (_, t')) => recvLoop k recvbuf' t'
      | .assertFail => ⟨t.dispatch pkg, .assertFail⟩
      | .fault => ⟨t.dispatch pkg, .fault⟩
    | .assertFail => ⟨t, .assertFail⟩
    | .fault => ⟨t, .fault⟩

/-- `CLOUD_RECV_BUFFER_SIZE`. -/
def cloudRecvBufferSize : Nat := 2500

/-- The receive buffer with a chunk in it: `Socket_TCPClientRecvData` clears the
buffer before it receives. -/
def recvBuffer (chunk : List UInt8) : Buffer where
  data := (chunk ++ List.replicate (cloudRecvBufferSize - chunk.length) 0).map some
  writePos := chunk.length
  readPos := 0
  capacity := bufferSize

def recvDataProcess (chunk : List UInt8) (t : Task J) : Run J :=
  recvLoop env (chunk.length + 1) (recvBuffer chunk) t.enter

/-- The receive loop of `Agent_cloud_process`, on the chunks that
`Socket_TCPClientRecvData` returns one after the other.  The terminator it stores
behind a chunk is a zero on a zero; behind a chunk that fills the buffer it
lies outside, where `recv_data_process` does not look. -/
def receive : List (List UInt8) → Task J → Run J
  | [], t => ⟨t, .needMore⟩
  | chunk :: chunks, t =>
    match recvDataProcess env chunk t with
    | ⟨t', .needMore⟩ =>
      if t'.globals.tcpClientResetFlag = 0xa5 then ⟨t', .needMore⟩ else receive chunks t'
    | r => r

end Handlers

end Nl6621.Cloud
