import Nl6621.Dhcp.Confirm

/-!
# A client that has chosen another server

A REQUEST with the id of another server says that the offer of this one is refused.  The lookup
selects no entry then, and the callback takes this for an address that is in use: it sends a NAK.
The offer is taken back only on the way to this: if the requested address is idle here or in use by
another client, the entry of the client is given up; otherwise it stays offered.

`respects_iff` says when nothing of this shows: if there is no memory for the NAK, and there is
no offer left over.
-/

set_option maxRecDepth 4000

namespace Nl6621.Dhcp

open Lib

variable {t t' : Table} {m : Mac} {r : UInt32} {srv : Server} {q : Request} {p : List UInt8}
variable {after : Nat → UInt8} {pbuf : Bool}

/-- The datagram is a REQUEST whose server-id option names another server. -/
def Refuses (p : List UInt8) (after : Nat → UInt8) (srv : Server) (q : Request) : Prop :=
  requestOf p after srv = some q ∧ q.msgType = DHCP_MSG_REQUEST ∧
    (parseDhcpOptions (received p after srv)).ret &&& 0x04 ≠ 0 ∧ q.serverId ≠ srv.ServerIpAddr

/-- There is no reply, and what was offered to the client is idle and nobody's. -/
structure Respects (m : Mac) (t t' : Table) (rep : Option Reply) : Prop where
  silent : rep = none
  released : ∀ i, (t i).State = .REQUEST → (t i).MacAddr = m →
    t' i = { t i with State := .IDLE, MacAddr := zeroMac }

/-- The requested address is idle, or another client has it. -/
def AsksElse (m : Mac) (r : UInt32) (t : Table) : Prop :=
  (∃ j, (t j).Taken m r) ∨ ∃ j, (t j).State = .IDLE ∧ (t j).IpAddr = r

def NothingOffered (m : Mac) (t : Table) : Prop :=
  ∀ i, (t i).State = .REQUEST → (t i).MacAddr ≠ m

/-! ### What becomes of the offer -/

/-- Without an entry for the client its own one is given up only if it has asked for another. -/
theorem lookup_request_none (ho : t.OneOwner) {srvIp s : UInt32}
    (h : clientTableLookup srvIp m DHCP_MSG_REQUEST r s t = (none, t')) :
    (AsksElse m r t ∧ t' = gaveUp m t) ∨ (¬AsksElse m r t ∧ t' = t) := by
  have hl := lookup_requests (m := m) ho srvIp r s
  rw [h] at hl
  cases hl with
  | gaveUp hg => exact .inl ⟨hg.imp_right fun hg => hg.2, rfl⟩
  | none hfree hno _ =>
    refine .inr ⟨?_, rfl⟩
    rintro (⟨j, hj⟩ | ⟨j, hj⟩)
    · exact hfree j hj
    · exact hno j hj

theorem gaveUp_released {i : Index} (hs : (t i).State = .REQUEST) (hm : (t i).MacAddr = m) :
    gaveUp m t i = { t i with State := .IDLE, MacAddr := zeroMac } := by
  have hne : (t i).State ≠ .BIND ∧ (t i).State ≠ .IDLE := by
    rw [hs]
    decide
  rw [gaveUp, if_pos ⟨hne.2, hm⟩, giveUp, if_pos hne.1]

theorem acked_released {i j : Index} (hij : i ≠ j) (hm : (t i).MacAddr = m) :
    acked m j t i = { t i with State := .IDLE, MacAddr := zeroMac } := by
  rw [acked, if_neg hij, if_pos hm]

/-- **Whether the offer is taken back** is a matter of the table and the requested address alone. -/
theorem released_iff (ho : srv.Clients.OneOwner) (hn : srv.Clients.NoSelect)
    (hq : requestOf p after srv = some q) (hty : q.msgType = DHCP_MSG_REQUEST) :
    (∀ i, (srv.Clients i).State = .REQUEST → (srv.Clients i).MacAddr = q.MacAddr →
      (dhcpsRecvCb p after pbuf srv).1.Clients i =
        { srv.Clients i with State := .IDLE, MacAddr := zeroMac }) ↔
      NothingOffered q.MacAddr srv.Clients ∨ AsksElse q.MacAddr q.reqIpAddr srv.Clients := by
  have hrun : dhcpsRecvCb p after pbuf srv =
      handleRequest pbuf q { srv with msg := copyPartial p srv.msg } := by
    rw [dhcpsRecvCb, hq]
  rw [hrun]
  by_cases hno : NothingOffered q.MacAddr srv.Clients
  · exact iff_of_true (fun i hs hm => absurd hm (hno i hs)) (Or.inl hno)
  rw [or_iff_right hno]
  simp only [NothingOffered, not_forall, not_not] at hno
  obtain ⟨j, hj, hjm⟩ := hno
  have hown : (srv.Clients j).Owned q.MacAddr := by
    refine ⟨?_, hjm⟩
    rw [hj]
    decide
  cases hl : clientTableLookup srv.ServerIpAddr q.MacAddr q.msgType q.reqIpAddr q.serverId
      srv.Clients with
  | mk o t' =>
    cases o with
    | none =>
      rw [(@handleRequest_none { srv with msg := copyPartial p srv.msg } q pbuf _ hl).1]
      rw [hty] at hl
      rcases lookup_request_none ho hl with ⟨helse, rfl⟩ | ⟨helse, rfl⟩
      · exact iff_of_true (fun i hs hm => gaveUp_released hs hm) helse
      · refine iff_of_false (fun h => ?_) helse
        have hidle := congrArg Client.State (h j hj hjm)
        rw [hj] at hidle
        cases hidle
    | some i =>
      have hsel : ((srv.Clients i).State = .IDLE ∧ (srv.Clients i).IpAddr = q.reqIpAddr) ∨
          (srv.Clients i).Owned q.MacAddr ∧
            ∀ j, ¬((srv.Clients j).State = .IDLE ∧ (srv.Clients j).IpAddr = q.reqIpAddr) :=
        lookup_request_selects ho (by rw [← hty]; exact hl)
      have hack : (handleRequest pbuf q { srv with msg := copyPartial p srv.msg }).1.Clients =
          acked q.MacAddr i srv.Clients ∧ ∀ j, ¬(srv.Clients j).Taken q.MacAddr q.reqIpAddr := by
        rcases lookup_request (m := q.MacAddr) ho srv.ServerIpAddr q.reqIpAddr q.serverId with
          ⟨i', hg, -, hl'⟩ | ⟨-, hl'⟩
        · rw [← hty, hl] at hl'
          cases hl'
          rw [@handleRequest_some i { srv with msg := copyPartial p srv.msg } q pbuf _ hl, hty]
          exact ⟨(smeHandle_request (m := q.MacAddr) pbuf i q.Xid
            { srv with msg := copyPartial p srv.msg } (hn i)).1, hg.2.1⟩
        · rw [← hty, hl] at hl'
          rcases hl' with hl' | hl' <;> cases hl'
      rw [hack.1]
      rcases hsel with hidle | ⟨hmine, hidle⟩
      · refine iff_of_true (fun k hs hm => acked_released ?_ hm) (Or.inr ⟨i, hidle⟩)
        rintro rfl
        rw [hidle.1] at hs
        cases hs
      · -- the client is bound to what it was offered
        refine iff_of_false (fun h => ?_) ?_
        · have hji : j = i := ho.eq hown hmine
          subst hji
          have hstate := congrArg Client.State (h j hj hjm)
          rw [acked_self] at hstate
          cases hstate
        · rintro (⟨k, hk⟩ | ⟨k, hk⟩)
          · exact hack.2 k hk
          · exact hidle k hk

theorem Answer.replied {rep : Option Reply} (ha : Answer srv q t' rep)
    (hty : q.msgType = DHCP_MSG_REQUEST) : rep ≠ none := by
  intro hnone
  cases ha with
  | offer => cases hnone
  | ack => cases hnone
  | nak => cases hnone
  | silent ht =>
    rw [hty] at ht
    exact absurd ht (by decide)

/-- To a REQUEST there is always a reply if there is memory for it. -/
theorem request_replies {addr : Index → UInt32} (hs : Safe addr srv.Clients)
    (hq : requestOf p after srv = some q) (hty : q.msgType = DHCP_MSG_REQUEST) :
    (dhcpsRecvCb p after pbuf srv).2 = none ↔ pbuf = false := by
  rcases recvCb_cases hs p after pbuf with ⟨hnone, -⟩ | ⟨q', rep, hsome, ha, hr⟩
  · rw [hq] at hnone
    cases hnone
  · rw [hq] at hsome
    cases hsome
    rw [hr]
    cases pbuf with
    | false => exact iff_of_true rfl rfl
    | true =>
      refine iff_of_false (fun hnone => ?_) (by decide)
      rw [if_pos rfl] at hnone
      exact ha.replied hty hnone

/-- **When a choice of another server is respected**: the reply cannot be sent, and nothing is
offered to the client or it asks for an address that is idle here or another client's. -/
theorem respects_iff {ip netmask : UInt32} (h : Reachable ip netmask srv)
    (hq : Refuses p after srv q) :
    Respects q.MacAddr srv.Clients (dhcpsRecvCb p after pbuf srv).1.Clients
        (dhcpsRecvCb p after pbuf srv).2 ↔
      pbuf = false ∧
        (NothingOffered q.MacAddr srv.Clients ∨ AsksElse q.MacAddr q.reqIpAddr srv.Clients) := by
  have hs := safe_reachable h
  obtain ⟨hreq, hty, -⟩ := hq
  rw [← request_replies hs hreq hty, ← released_iff hs.oneOwner hs.noSelect hreq hty]
  exact ⟨fun hr => ⟨hr.silent, hr.released⟩, fun hr => ⟨hr.1, hr.2⟩⟩

/-! ### An offer that is refused -/

/-- A REQUEST for the address `r` of the server `s`. -/
def foreignMsg (mac : Mac) (r s : UInt32) : List UInt8 :=
  (requestMsg mac r).dropLast ++ wordOption DHCP_OPTION_ID_SERVER_ID s ++ [255]

def foreignRequest (mac : Mac) (r s : UInt32) : Request := ⟨0x12345678, mac, 3, r, s⟩

theorem foreign_refuses : Refuses (foreignMsg macA 0x0500000a 0x0100000a) (fun _ => 0)
    offeredServer (foreignRequest macA 0x0500000a 0x0100000a) :=
  ⟨by decide, rfl, by decide, by decide⟩

theorem respects_iff_foreign :
    Respects macA offeredServer.Clients
        (dhcpsRecvCb (foreignMsg macA 0x0500000a 0x0100000a) (fun _ => 0) false
          offeredServer).1.Clients
        (dhcpsRecvCb (foreignMsg macA 0x0500000a 0x0100000a) (fun _ => 0) false offeredServer).2 ↔
      false = false ∧ (NothingOffered macA offeredServer.Clients ∨
        AsksElse macA 0x0500000a offeredServer.Clients) :=
  respects_iff offeredServer_reachable foreign_refuses

/-- The client that has been offered 192.168.1.2 takes the offer of the server 10.0.0.1. -/
theorem refusal_answered :
    ∃ srv p after q, Reachable 0x0101a8c0 0x00ffffff srv ∧ Refuses p after srv q ∧
      ¬Respects q.MacAddr srv.Clients (dhcpsRecvCb p after true srv).1.Clients
        (dhcpsRecvCb p after true srv).2 := by
  refine ⟨offeredServer, _, _, _, offeredServer_reachable, foreign_refuses, fun h => ?_⟩
  have hnone := (request_replies (safe_reachable offeredServer_reachable) foreign_refuses.1
    rfl).mp h.silent
  cases hnone

end Nl6621.Dhcp
