import Mathlib.Data.Fintype.Basic
import Mathlib.Tactic.Common

/-!
# The DHCP server of `dhcp_server.c`

The server keeps eight client entries.  Every entry has a fixed address; what
changes is its state, the MAC address it is or was last used for, and two
counters.  An entry in state IDLE whose MAC address is not zero is the history of
that client.

`dhcpsRecvCb` is the receive callback: it copies the datagram into the static
`DhcpMsg`, parses the options, selects an entry (`clientTableLookup`) and
pushes it through the state machine of the entry (`dhcpClientSMEHandle`).  A short
datagram leaves the old bytes behind it in `DhcpMsg`, among them those of the last
reply, so the buffer is part of the state.  The option parser can look at bytes
behind the buffer; `after` stands for these.

Addresses and transaction ids are the 32-bit words as they lie in memory (the
processor is little endian), which is how the code compares them.
-/

namespace Nl6621.Dhcp

/-! ### Words and bytes -/

/-- `lwip_htonl`; `ntohl` is the same function. -/
def htonl (n : UInt32) : UInt32 :=
  ((n &&& 0xff) <<< 24) ||| ((n &&& 0xff00) <<< 8) ||| ((n &&& 0xff0000) >>> 8) |||
    ((n &&& 0xff000000) >>> 24)

def ntohl (n : UInt32) : UInt32 := htonl n

/-- The word at an address. -/
def word (mem : Nat → UInt8) (off : Nat) : UInt32 :=
  (mem off).toUInt32 ||| ((mem (off + 1)).toUInt32 <<< 8) |||
    ((mem (off + 2)).toUInt32 <<< 16) ||| ((mem (off + 3)).toUInt32 <<< 24)

/-- The bytes of a word in memory order. -/
def wordBytes (w : UInt32) : List UInt8 :=
  [w.toUInt8, (w >>> 8).toUInt8, (w >>> 16).toUInt8, (w >>> 24).toUInt8]

abbrev Mac := Vector UInt8 6

def zeroMac : Mac := Vector.replicate 6 0

/-! ### The server -/

inductive ClientState where
  | IDLE | SELECT | REQUEST | BIND
deriving DecidableEq, Repr

structure Client where
  State : ClientState
  Timeout : Nat
  IpAddr : UInt32
  MacAddr : Mac
  Lease : Nat
deriving DecidableEq

/-- `DHCPS_HISTORY_CLIENT_NUM`. -/
abbrev Index := Fin 8

/-- The client table. -/
abbrev Table := Index → Client

structure Server where
  Enable : Bool
  ServerIpAddr : UInt32
  SubnetMask : UInt32
  GateWay : UInt32
  Dns1 : UInt32
  Clients : Table
  /-- the static `DhcpMsg` -/
  msg : Nat → UInt8

def DHCP_DEFAULT_LEASE_TIME : Nat := 3600 * 24 * 365 * 10
def DHCP_DEFFAULT_TIMEOUT : Nat := 10

def DHCPS_ERR_SUCCESS : Int := 0
def DHCPS_ERR_LINKDOWN : Int := -1
def DHCPS_ERR_PARAM : Int := -2
def DHCPS_ERR_MEM : Int := -3
def DHCPS_ERR_NOT_BIND : Int := -4
def DHCPS_ERR_NOT_FOUND : Int := -5
def DHCPS_ERR_INACTIVE : Int := -6

def DHCP_MAGIC : UInt32 := 0x63825363
def DHCP_OP_REQUEST : UInt8 := 1
def DHCP_OP_REPLY : UInt8 := 2
def DHCP_HWTYPE_ETHERNET : UInt8 := 1

def DHCP_OPTION_ID_PAD : UInt8 := 0
def DHCP_OPTION_ID_SUBNET_MASK : UInt8 := 1
def DHCP_OPTION_ID_DEF_GW : UInt8 := 3
def DHCP_OPTION_ID_DNS_SERVER : UInt8 := 6
def DHCP_OPTION_ID_REQ_IP_ADDR : UInt8 := 50
def DHCP_OPTION_ID_LEASE_TIME : UInt8 := 51
def DHCP_OPTION_ID_MSG_TYPE : UInt8 := 53
def DHCP_OPTION_ID_SERVER_ID : UInt8 := 54
def DHCP_OPTION_ID_END : UInt8 := 255

def DHCP_MSG_DISCOVER : UInt8 := 1
def DHCP_MSG_OFFER : UInt8 := 2
def DHCP_MSG_REQUEST : UInt8 := 3
def DHCP_MSG_DECLINE : UInt8 := 4
def DHCP_MSG_ACK : UInt8 := 5
def DHCP_MSG_NAK : UInt8 := 6
def DHCP_MSG_RELEASE : UInt8 := 7

/-- Change one entry. -/
def Table.modify (t : Table) (i : Index) (f : Client → Client) : Table :=
  fun j => if j = i then f (t j) else t j

/-! ### `DHCPS_Start` -/

/-- The host part `tmp + i` of an address of the pool, wrapped around inside the
subnet. -/
def poolHost (mask tmp i : UInt32) : UInt32 :=
  if (tmp + i) % ~~~mask ≠ 0 then (tmp + i) % ~~~mask else 1

/-- `StartIpAddr`, in host order. -/
def startIpAddr (ip netmask : UInt32) : UInt32 :=
  let mask := ntohl netmask
  (ntohl ip &&& mask) ||| poolHost mask (ntohl ip &&& ~~~mask) 1

/-- The address of entry `i`. -/
def poolAddr (ip netmask : UInt32) (i : Index) : UInt32 :=
  let mask := ntohl netmask
  let val := startIpAddr ip netmask
  htonl ((val &&& mask) ||| poolHost mask (val &&& ~~~mask) (UInt32.ofNat i))

/-- The server as `DHCPS_Start` configures it, not yet enabled; `DhcpMsg` is not part
of it. -/
def configured (ip netmask : UInt32) (msg : Nat → UInt8) : Server where
  Enable := false
  ServerIpAddr := ip
  SubnetMask := netmask
  GateWay := ip
  Dns1 := ip
  Clients i :=
    { State := .IDLE, Timeout := 0, IpAddr := poolAddr ip netmask i, MacAddr := zeroMac,
      Lease := DHCP_DEFAULT_LEASE_TIME }
  msg := msg

/-- `DHCPS_Start` on an interface with the address `ip` and the mask `netmask`: `up`
says that the interface is up, `socket` that `udp_new` succeeds. -/
def dhcpsStart (up socket : Bool) (ip netmask : UInt32) (srv : Server) : Server × Int :=
  if up = false then (srv, DHCPS_ERR_LINKDOWN)
  else if socket = false then (configured ip netmask srv.msg, DHCPS_ERR_MEM)
  else ({ configured ip netmask srv.msg with Enable := true }, DHCPS_ERR_SUCCESS)

/-! ### `_DhcpTickHandle` -/

/-- One entry at a tick; `present` is the answer of `APGetStationStatus`. -/
def tickClient (present : Bool) (c : Client) : Client :=
  match c.State with
  | .REQUEST =>
    if c.Timeout ≠ 0 then
      if c.Timeout - 1 = 0 then
        { c with Timeout := c.Timeout - 1, MacAddr := zeroMac, State := .IDLE }
      else { c with Timeout := c.Timeout - 1 }
    else c
  | .BIND =>
    if c.Lease ≠ 0 then
      if c.Lease - 1 = 0 then { c with Lease := c.Lease - 1, State := .IDLE }
      else if present = false then { c with Lease := c.Lease - 1, State := .IDLE }
      else { c with Lease := c.Lease - 1 }
    else if present = false then { c with State := .IDLE }
    else c
  | _ => c

def dhcpTickHandle (present : Index → Bool) (srv : Server) : Server :=
  if srv.Enable then { srv with Clients := fun i => tickClient (present i) (srv.Clients i) } else srv

/-! ### `_ParseDhcpOptions` -/

/-- What the parser has found: `*pMsgType`, `*pReqIpAddr`, `*pServerId` and the
bits of its result. -/
structure Options where
  msgType : UInt8
  reqIpAddr : UInt32
  serverId : UInt32
  ret : UInt8
deriving DecidableEq

/-- `sizeof(DHCP_MSG)`. -/
def sizeofMsg : Nat := 548

/-- The loop over the options at offset `p`.  Every round moves `p` forward, so the
first argument suffices when it is above the number of bytes left. -/
def parseLoop (mem : Nat → UInt8) : Nat → Nat → Options → Options
  | 0, _, o => o
  | k + 1, p, o =>
    if mem p ≠ DHCP_OPTION_ID_END ∧ p < sizeofMsg then
      if mem p = DHCP_OPTION_ID_PAD then parseLoop mem k (p + 1) o
      else
        let len := (mem (p + 1)).toNat
        if mem p = DHCP_OPTION_ID_MSG_TYPE then
          parseLoop mem k (p + 2 + len) { o with msgType := mem (p + 2), ret := o.ret ||| 0x01 }
        else if mem p = DHCP_OPTION_ID_REQ_IP_ADDR then
          parseLoop mem k (p + 2 + len) { o with reqIpAddr := word mem (p + 2), ret := o.ret ||| 0x02 }
        else if mem p = DHCP_OPTION_ID_SERVER_ID then
          parseLoop mem k (p + 2 + len) { o with serverId := word mem (p + 2), ret := o.ret ||| 0x04 }
        else parseLoop mem k (p + 2 + len) o
    else o

/-- More rounds than bytes left make no difference. -/
theorem parseLoop_enough (mem : Nat → UInt8) (n : Nat) : ∀ (k p : Nat) (o : Options),
    sizeofMsg < p + k → parseLoop mem (k + n) p o = parseLoop mem k p o := by
  intro k
  induction k with
  | zero =>
    intro p o hk
    have hstop : ¬ (mem p ≠ DHCP_OPTION_ID_END ∧ p < sizeofMsg) := by omega
    cases n with
    | zero => rfl
    | succ n => rw [Nat.zero_add, parseLoop, parseLoop, if_neg hstop]
  | succ k ih =>
    intro p o hk
    have hpad : ∀ o, parseLoop mem (k + n) (p + 1) o = parseLoop mem k (p + 1) o :=
      fun o => ih _ o (by omega)
    have hopt : ∀ len o, parseLoop mem (k + n) (p + 2 + len) o = parseLoop mem k (p + 2 + len) o :=
      fun len o => ih _ o (by omega)
    rw [Nat.add_right_comm, parseLoop, parseLoop]
    simp only [hpad, hopt]

/-- The offset of `Options` in the message. -/
def optionsOffset : Nat := 240

def parseDhcpOptions (mem : Nat → UInt8) : Options :=
  parseLoop mem (sizeofMsg - optionsOffset + 1) optionsOffset ⟨0xff, 0, 0, 0⟩

/-! ### `_ClientTableLookup` -/

structure Candidates where
  pFreeClient : Option Index
  pReqClient : Option Index
  pMyHistoryClient : Option Index
  pHistoryClient : Option Index
  pMyClient : Option Index
  IpUnavailable : Bool

/-- The first entry that fits is kept. -/
def orFirst (o : Option Index) (fits : Prop) [Decidable fits] (i : Index) : Option Index :=
  if o = none ∧ fits then some i else o

/-- One round of the scan over the table. -/
def scanClient (t : Table) (mac : Mac) (reqIpAddr : UInt32) (c : Candidates) (i : Index) :
    Candidates :=
  if (t i).State = .IDLE then
    { c with
      pMyHistoryClient := orFirst c.pMyHistoryClient ((t i).MacAddr = mac) i
      pReqClient := orFirst c.pReqClient ((t i).IpAddr = reqIpAddr) i
      pFreeClient := orFirst c.pFreeClient ((t i).MacAddr = zeroMac) i
      pHistoryClient := orFirst c.pHistoryClient ((t i).MacAddr ≠ zeroMac) i }
  else if (t i).MacAddr = mac then { c with pMyClient := some i }
  else if (t i).IpAddr = reqIpAddr then { c with IpUnavailable := true }
  else c

def scan (t : Table) (mac : Mac) (reqIpAddr : UInt32) : Candidates :=
  (List.finRange 8).foldl (scanClient t mac reqIpAddr) ⟨none, none, none, none, none, false⟩

/-- The client gives its entry up: a lease leaves a history, an offer does not. -/
def giveUp (c : Client) : Client :=
  { c with MacAddr := if c.State ≠ .BIND then zeroMac else c.MacAddr, State := .IDLE }

/-- `DHCP_MSG_DISCOVER`.  The state of the client's entry is set before it is
tested against BIND, so the MAC address is cleared in either case. -/
def lookupDiscover (c : Candidates) (t : Table) : Option Index × Table :=
  match c.pMyClient with
  | some my =>
    let t := t.modify my fun cl => { cl with State := .IDLE }
    match c.pReqClient with
    | some req =>
      (some req, t.modify my fun cl =>
        if cl.State ≠ .BIND then { cl with MacAddr := zeroMac } else cl)
    | none => (some my, t)
  | none => (c.pReqClient.orElse fun _ => c.pMyHistoryClient.orElse fun _ =>
      c.pFreeClient.orElse fun _ => c.pHistoryClient, t)

/-- `DHCP_MSG_REQUEST`; `mine` says that the server id is absent or this server. -/
def lookupRequest (c : Candidates) (mine : Prop) [Decidable mine] (t : Table) :
    Option Index × Table :=
  match c.pMyClient with
  | some my =>
    if c.IpUnavailable then (none, t.modify my giveUp)
    else
      match c.pReqClient with
      | some req => (if mine then some req else none, t.modify my giveUp)
      | none => (if mine then some my else none, t)
  | none =>
    if c.IpUnavailable then (none, t)
    else (if mine then c.pReqClient else none, t)

/-- `DHCP_MSG_RELEASE` and `DHCP_MSG_DECLINE`. -/
def lookupRelease (c : Candidates) (t : Table) : Option Index × Table :=
  match c.pMyClient with
  | some my => (none, t.modify my giveUp)
  | none => (none, t)

/-- The switch on the message type. -/
def lookupSwitch (c : Candidates) (msgType : UInt8) (mine : Prop) [Decidable mine] (t : Table) :
    Option Index × Table :=
  if msgType = DHCP_MSG_DISCOVER then lookupDiscover c t
  else if msgType = DHCP_MSG_REQUEST then lookupRequest c mine t
  else if msgType = DHCP_MSG_RELEASE then lookupRelease c t
  else if msgType = DHCP_MSG_DECLINE then lookupRelease c t
  else (none, t)

/-- The selected entry gets the MAC address of the client. -/
def setMac (mac : Mac) (r : Option Index × Table) : Option Index × Table :=
  match r.1 with
  | some i => (some i, r.2.modify i fun cl => { cl with MacAddr := mac })
  | none => (none, r.2)

def clientTableLookup (serverIpAddr : UInt32) (mac : Mac) (msgType : UInt8)
    (reqIpAddr serverId : UInt32) (t : Table) : Option Index × Table :=
  setMac mac (lookupSwitch (scan t mac reqIpAddr) msgType
    (serverId = 0 ∨ serverIpAddr = serverId) t)

/-! ### Replies -/

/-- The fields of a reply that are not constant. -/
structure Reply where
  Xid : UInt32
  Yiaddr : UInt32
  Siaddr : UInt32
  Chaddr : Mac
  msgType : UInt8
  /-- the options behind the message type -/
  options : List UInt8
deriving DecidableEq

/-- An option with a word. -/
def wordOption (id : UInt8) (w : UInt32) : List UInt8 := [id, 4] ++ wordBytes w

/-- The options of an OFFER or an ACK. -/
def leaseOptions (srv : Server) : List UInt8 :=
  wordOption DHCP_OPTION_ID_LEASE_TIME (htonl (UInt32.ofNat DHCP_DEFAULT_LEASE_TIME)) ++
    wordOption DHCP_OPTION_ID_SERVER_ID srv.ServerIpAddr ++
    wordOption DHCP_OPTION_ID_SUBNET_MASK srv.SubnetMask ++
    wordOption DHCP_OPTION_ID_DEF_GW srv.GateWay ++ wordOption DHCP_OPTION_ID_DNS_SERVER srv.Dns1

def nakReply (srv : Server) (mac : Mac) (xid : UInt32) : Reply where
  Xid := htonl xid
  Yiaddr := 0
  Siaddr := srv.ServerIpAddr
  Chaddr := mac
  msgType := DHCP_MSG_NAK
  options := []

/-- `_DHCPAckGenAndSend` and `_DHCPOfferGenAndSend` differ in the message type. -/
def leaseReply (srv : Server) (msgType : UInt8) (c : Client) (mac : Mac) (xid : UInt32) : Reply where
  Xid := htonl xid
  Yiaddr := c.IpAddr
  Siaddr := 0
  Chaddr := mac
  msgType := msgType
  options := leaseOptions srv

/-- The message, from its first byte to the end option. -/
def Reply.bytes (r : Reply) : List UInt8 :=
  [DHCP_OP_REPLY, DHCP_HWTYPE_ETHERNET, 6, 0] ++ wordBytes r.Xid ++ List.replicate 8 0 ++
    wordBytes r.Yiaddr ++ wordBytes r.Siaddr ++ wordBytes 0 ++ r.Chaddr.toList ++
    List.replicate (10 + 64 + 128) 0 ++ wordBytes (htonl DHCP_MAGIC) ++
    [DHCP_OPTION_ID_MSG_TYPE, 1, r.msgType] ++ r.options ++ [DHCP_OPTION_ID_END]

/-- Build a reply in `DhcpMsg` and send it; without a pbuf nothing happens. -/
def genAndSend (pbuf : Bool) (r : Reply) (srv : Server) : Server × Option Reply :=
  if pbuf then ({ srv with msg := fun k => r.bytes.getD k 0 }, some r) else (srv, none)

/-! ### `_DhcpClientSMEHandle` -/

/-- `_CleanClientHistory`. -/
def cleanClientHistory (mac : Mac) (t : Table) : Table := fun i =>
  if (t i).State = .IDLE ∧ (t i).MacAddr = mac then { t i with MacAddr := zeroMac } else t i

/-- Send an OFFER and wait for the request. -/
def smeOffer (pbuf : Bool) (i : Index) (xid : UInt32) (srv : Server) : Server × Option Reply :=
  let r := genAndSend pbuf
    (leaseReply srv DHCP_MSG_OFFER (srv.Clients i) (srv.Clients i).MacAddr xid) srv
  let t := r.1.Clients.modify i fun c =>
    { c with Timeout := DHCP_DEFFAULT_TIMEOUT, State := .REQUEST }
  ({ r.1 with Clients := t }, r.2)

/-- Send an ACK and bind the entry. -/
def smeAck (pbuf : Bool) (i : Index) (xid : UInt32) (srv : Server) : Server × Option Reply :=
  let r := genAndSend pbuf
    (leaseReply srv DHCP_MSG_ACK (srv.Clients i) (srv.Clients i).MacAddr xid) srv
  let t := r.1.Clients.modify i fun c =>
    { c with Lease := DHCP_DEFAULT_LEASE_TIME, State := .BIND }
  ({ r.1 with Clients := cleanClientHistory (t i).MacAddr t }, r.2)

/-- The case IDLE runs into the case SELECT, unless it sends an ACK. -/
def dhcpClientSMEHandle (pbuf : Bool) (i : Index) (msgType : UInt8) (xid : UInt32) (srv : Server) :
    Server × Option Reply :=
  match (srv.Clients i).State with
  | .IDLE =>
    if msgType = DHCP_MSG_DISCOVER then
      smeOffer pbuf i xid
        { srv with Clients := srv.Clients.modify i fun c => { c with State := .SELECT } }
    else if msgType = DHCP_MSG_REQUEST then smeAck pbuf i xid srv
    else smeOffer pbuf i xid srv
  | .SELECT => smeOffer pbuf i xid srv
  | .REQUEST => smeAck pbuf i xid srv
  | .BIND => smeAck pbuf i xid srv

/-! ### `DHCPS_RecvCb` -/

/-- What the callback takes from a message that passes its filters. -/
structure Request where
  Xid : UInt32
  MacAddr : Mac
  msgType : UInt8
  reqIpAddr : UInt32
  serverId : UInt32
deriving DecidableEq

/-- `pbuf_copy_partial` into `DhcpMsg`. -/
def copyPartial (p : List UInt8) (msg : Nat → UInt8) : Nat → UInt8 := fun k =>
  if k < min p.length sizeofMsg then p.getD k 0 else msg k

/-- The filters of the callback, on the memory at `DhcpMsg`. -/
def acceptMsg (msgLen : Nat) (mem : Nat → UInt8) : Option Request :=
  if msgLen = 0 ∨ mem 0 ≠ DHCP_OP_REQUEST ∨ ntohl (word mem 236) ≠ DHCP_MAGIC ∨
      mem 1 ≠ DHCP_HWTYPE_ETHERNET then none
  else
    let o := parseDhcpOptions mem
    if o.ret &&& 0x01 = 0 then none
    else some
      { Xid := ntohl (word mem 4)
        MacAddr := .ofFn fun k => mem (28 + k.val)
        msgType := o.msgType
        reqIpAddr := o.reqIpAddr
        serverId := o.serverId }

/-- The callback behind its filters. -/
def handleRequest (pbuf : Bool) (q : Request) (srv : Server) : Server × Option Reply :=
  let r := clientTableLookup srv.ServerIpAddr q.MacAddr q.msgType q.reqIpAddr q.serverId srv.Clients
  let srv := { srv with Clients := r.2 }
  match r.1 with
  | none =>
    if q.msgType ≠ DHCP_MSG_RELEASE ∧ q.msgType ≠ DHCP_MSG_DECLINE then
      genAndSend pbuf (nakReply srv q.MacAddr q.Xid) srv
    else (srv, none)
  | some i => dhcpClientSMEHandle pbuf i q.msgType q.Xid srv

/-- The memory the callback looks at: `DhcpMsg` with the datagram copied into it,
and what lies behind it. -/
def received (p : List UInt8) (after : Nat → UInt8) (srv : Server) : Nat → UInt8 := fun k =>
  if k < sizeofMsg then copyPartial p srv.msg k else after k

/-- The request a datagram makes, if it passes the filters. -/
def requestOf (p : List UInt8) (after : Nat → UInt8) (srv : Server) : Option Request :=
  acceptMsg (min p.length sizeofMsg) (received p after srv)

def dhcpsRecvCb (p : List UInt8) (after : Nat → UInt8) (pbuf : Bool) (srv : Server) :
    Server × Option Reply :=
  let srv' := { srv with msg := copyPartial p srv.msg }
  match requestOf p after srv with
  | none => (srv', none)
  | some q => handleRequest pbuf q srv'

/-! ### `DHCPS_ClientDelete` -/

/-- The loop over the table: the first entry in use by the MAC address is set idle
if it is bound. -/
def deleteLoop (mac : Mac) (t : Table) : List Index → Table × Int
  | [] => (t, DHCPS_ERR_NOT_FOUND)
  | i :: is =>
    if (t i).State ≠ .IDLE ∧ (t i).MacAddr = mac then
      if (t i).State ≠ .BIND then (t, DHCPS_ERR_NOT_BIND)
      else (t.modify i fun c => { c with State := .IDLE }, DHCPS_ERR_SUCCESS)
    else deleteLoop mac t is

/-- `none` is a NULL argument. -/
def dhcpsClientDelete (mac : Option Mac) (srv : Server) : Server × Int :=
  if srv.Enable = false then (srv, DHCPS_ERR_INACTIVE)
  else
    match mac with
    | none => (srv, DHCPS_ERR_PARAM)
    | some m =>
      let r := deleteLoop m srv.Clients (List.finRange 8)
      ({ srv with Clients := r.1 }, r.2)

/-! ### Events -/

/-- A server just started with success. -/
def Started (ip netmask : UInt32) (srv : Server) : Prop :=
  ∃ up socket old, dhcpsStart up socket ip netmask old = (srv, DHCPS_ERR_SUCCESS)

inductive Event where
  | recv (p : List UInt8) (after : Nat → UInt8) (pbuf : Bool)
  | tick (present : Index → Bool)
  | delete (mac : Option Mac)

def step (srv : Server) : Event → Option Server
  | .recv p after pbuf => some (dhcpsRecvCb p after pbuf srv).1
  | .tick present => some (dhcpTickHandle present srv)
  | .delete mac => some (dhcpsClientDelete mac srv).1

end Nl6621.Dhcp
