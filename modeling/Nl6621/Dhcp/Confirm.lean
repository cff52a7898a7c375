import Nl6621.Dhcp.Leases

/-!
# What an ACK confirms

A client that requests an address should get an ACK for this address or no ACK.  The address of an
ACK is that of the entry the lookup has selected.  An idle entry with the requested address comes
first; failing that, a client that has an entry keeps it, whatever it has asked for.  If the
requested address is in the pool its entry is the client's own then, as with another owner there
would be no ACK; if it is not, the client is told an address it has not asked for.

`ack_confirms_iff` says that this is the whole difference.
-/

set_option maxRecDepth 4000

namespace Nl6621.Dhcp

open Lib

variable {t : Table} {m : Mac} {r : UInt32} {srv : Server} {q : Request} {p : List UInt8}
variable {after : Nat → UInt8} {pbuf : Bool} {rep : Reply}

/-- The datagram is a REQUEST with a requested-address option; `q.reqIpAddr` is what the option
says. -/
def AsksFor (p : List UInt8) (after : Nat → UInt8) (srv : Server) (q : Request) : Prop :=
  requestOf p after srv = some q ∧ q.msgType = DHCP_MSG_REQUEST ∧
    (parseDhcpOptions (received p after srv)).ret &&& 0x02 ≠ 0

/-- The reply has the requested address, and afterwards the client is bound to the entry with this
address. -/
def Confirms (q : Request) (rep : Reply) (t : Table) : Prop :=
  rep.Yiaddr = q.reqIpAddr ∧
    ∃ i, (t i).IpAddr = q.reqIpAddr ∧ (t i).State = .BIND ∧ (t i).MacAddr = q.MacAddr

/-! ### The selected entry -/

/-- An idle entry with the requested address is preferred to the client's own entry. -/
theorem lookup_request_selects (ho : t.OneOwner) {srvIp s : UInt32} {i : Index} {t' : Table}
    (h : clientTableLookup srvIp m DHCP_MSG_REQUEST r s t = (some i, t')) :
    ((t i).State = .IDLE ∧ (t i).IpAddr = r) ∨
      (t i).Owned m ∧ ∀ j, ¬((t j).State = .IDLE ∧ (t j).IpAddr = r) := by
  have hl := lookup_requests (m := m) ho srvIp r s
  rw [h] at hl
  cases hl with
  | req _ _ hi => exact .inl hi
  | my _ _ hno hi => exact .inr ⟨hi, hno⟩

/-- **What stands behind an ACK**: the selected entry, which the client is bound to. -/
theorem recvCb_ack (ho : srv.Clients.OneOwner) (hn : srv.Clients.NoSelect)
    (hq : requestOf p after srv = some q) (hty : q.msgType = DHCP_MSG_REQUEST)
    (hrep : (dhcpsRecvCb p after pbuf srv).2 = some rep) (hack : rep.msgType = DHCP_MSG_ACK) :
    ∃ i, (dhcpsRecvCb p after pbuf srv).1.Clients = acked q.MacAddr i srv.Clients ∧
      rep.Yiaddr = (srv.Clients i).IpAddr ∧
      (∀ j, ¬(srv.Clients j).Taken q.MacAddr q.reqIpAddr) ∧
      (((srv.Clients i).State = .IDLE ∧ (srv.Clients i).IpAddr = q.reqIpAddr) ∨
        (srv.Clients i).Owned q.MacAddr ∧
          ∀ j, ¬((srv.Clients j).State = .IDLE ∧ (srv.Clients j).IpAddr = q.reqIpAddr)) := by
  have hrun : dhcpsRecvCb p after pbuf srv =
      handleRequest pbuf q { srv with msg := copyPartial p srv.msg } := by
    rw [dhcpsRecvCb, hq]
  rw [hrun] at hrep ⊢
  rcases lookup_request (m := q.MacAddr) ho srv.ServerIpAddr q.reqIpAddr q.serverId with
    ⟨i, hg, -, hl⟩ | ⟨-, hl⟩
  · have hsel := lookup_request_selects ho hl
    have hsme := smeHandle_request (m := q.MacAddr) pbuf i q.Xid
      { srv with msg := copyPartial p srv.msg } (hn i)
    rw [← hty] at hl hsme
    rw [@handleRequest_some i { srv with msg := copyPartial p srv.msg } q pbuf _ hl] at hrep ⊢
    rw [hsme.2] at hrep
    refine ⟨i, hsme.1, ?_, hg.2.1, hsel⟩
    cases pbuf with
    | false => cases hrep
    | true =>
      cases hrep
      rfl
  · -- without an entry the reply is a NAK
    have hnak : ∃ t', clientTableLookup srv.ServerIpAddr q.MacAddr q.msgType q.reqIpAddr
        q.serverId srv.Clients = (none, t') := by
      rw [hty]
      rcases hl with hl | hl
      · exact ⟨_, hl⟩
      · exact ⟨_, hl⟩
    obtain ⟨t', hl⟩ := hnak
    have hreply := (@handleRequest_none { srv with msg := copyPartial p srv.msg } q pbuf _ hl).2
    have hother : q.msgType ≠ DHCP_MSG_RELEASE ∧ q.msgType ≠ DHCP_MSG_DECLINE := by
      rw [hty]
      decide
    rw [if_pos hother, hrep] at hreply
    cases pbuf with
    | false => cases hreply
    | true =>
      cases hreply
      have hne : DHCP_MSG_NAK = DHCP_MSG_ACK := hack
      exact absurd hne (by decide)

/-- **When an ACK confirms what was asked**: if and only if the requested address is in the pool. -/
theorem ack_confirms_iff {ip netmask : UInt32} (h : Reachable ip netmask srv)
    (hq : AsksFor p after srv q) (hrep : (dhcpsRecvCb p after pbuf srv).2 = some rep)
    (hack : rep.msgType = DHCP_MSG_ACK) :
    Confirms q rep (dhcpsRecvCb p after pbuf srv).1.Clients ↔
      ∃ i, poolAddr ip netmask i = q.reqIpAddr := by
  have hs := safe_reachable h
  obtain ⟨hreq, hty, -⟩ := hq
  obtain ⟨i, ht, hy, hfree, hsel⟩ := recvCb_ack hs.oneOwner hs.noSelect hreq hty hrep hack
  have hbound : (srv.Clients i).IpAddr = q.reqIpAddr →
      Confirms q rep (dhcpsRecvCb p after pbuf srv).1.Clients := by
    intro hi
    refine ⟨hy.trans hi, i, ?_, ?_, ?_⟩
    all_goals rw [ht, acked_self]
    exact hi
  constructor
  · rintro ⟨hyr, -⟩
    exact ⟨i, (hs.ipAddr i).symm.trans (hy.symm.trans hyr)⟩
  · rintro ⟨j, hj⟩
    have hjr : (srv.Clients j).IpAddr = q.reqIpAddr := (hs.ipAddr j).trans hj
    rcases hsel with ⟨-, hi⟩ | ⟨hown, hno⟩
    · exact hbound hi
    · -- the entry with the address is neither idle nor taken, so it is the client's own
      have hstate : (srv.Clients j).State ≠ .IDLE := fun hidle => hno j ⟨hidle, hjr⟩
      have hmac : (srv.Clients j).MacAddr = q.MacAddr := by
        by_contra hne
        exact hfree j ⟨hstate, hne, hjr⟩
      have hji : j = i := hs.oneOwner.eq ⟨hstate, hmac⟩ hown
      exact hbound (hji ▸ hjr)

/-! ### A request in the pool and one outside it -/

/-- A REQUEST for the address `r`. -/
def requestMsg (mac : Mac) (r : UInt32) : List UInt8 :=
  [1, 1, 6, 0, 0x12, 0x34, 0x56, 0x78] ++ List.replicate 20 0 ++ mac.toList ++
    List.replicate (10 + 64 + 128) 0 ++ wordBytes (htonl DHCP_MAGIC) ++ [53, 1, 3] ++
    wordOption DHCP_OPTION_ID_REQ_IP_ADDR r ++ [255]

def askRequest (mac : Mac) (r : UInt32) : Request := ⟨0x12345678, mac, 3, r, 0⟩

/-- Of the address that has been offered, 192.168.1.2. -/
theorem ack_confirms_iff_offered :
    Confirms (askRequest macA 0x0201a8c0)
        (leaseReply offeredServer DHCP_MSG_ACK (offeredServer.Clients 0) macA 0x12345678)
        (dhcpsRecvCb (requestMsg macA 0x0201a8c0) (fun _ => 0) true offeredServer).1.Clients ↔
      ∃ i, poolAddr 0x0101a8c0 0x00ffffff i = (askRequest macA 0x0201a8c0).reqIpAddr := by
  have hreq : requestOf (requestMsg macA 0x0201a8c0) (fun _ => 0) offeredServer =
      some (askRequest macA 0x0201a8c0) := rfl
  refine ack_confirms_iff offeredServer_reachable ⟨hreq, rfl, by decide⟩ ?_ rfl
  rw [dhcpsRecvCb, hreq]
  decide

/-- The client that has been offered 192.168.1.2 requests 10.0.0.5. -/
theorem ack_of_another :
    ∃ srv p after q rep, Reachable 0x0101a8c0 0x00ffffff srv ∧ AsksFor p after srv q ∧
      (dhcpsRecvCb p after true srv).2 = some rep ∧ rep.msgType = DHCP_MSG_ACK ∧
      ¬Confirms q rep (dhcpsRecvCb p after true srv).1.Clients := by
  have hreq : requestOf (requestMsg macA 0x0500000a) (fun _ => 0) offeredServer =
      some (askRequest macA 0x0500000a) := rfl
  have hrep : (dhcpsRecvCb (requestMsg macA 0x0500000a) (fun _ => 0) true offeredServer).2 =
      some (leaseReply offeredServer DHCP_MSG_ACK (offeredServer.Clients 0) macA 0x12345678) := by
    rw [dhcpsRecvCb, hreq]
    decide
  refine ⟨offeredServer, requestMsg macA 0x0500000a, fun _ => 0, askRequest macA 0x0500000a, _,
    offeredServer_reachable, ⟨hreq, rfl, by decide⟩, hrep, rfl, ?_⟩
  rintro ⟨hy, -⟩
  have hne : (offeredServer.Clients 0).IpAddr ≠ 0x0500000a := by decide
  simp only [leaseReply, askRequest] at hy
  exact hne hy

end Nl6621.Dhcp
