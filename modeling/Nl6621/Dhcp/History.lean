import Nl6621.Dhcp.Leases

/-!
# What the table remembers of a client

An entry that a client has left keeps its MAC address as a history, so that the
client finds its old address again.  A lease is worth a history and an offer is
not: `Client.Retires` is what every event but one makes of an entry that leaves
its client, and `HistoryRule` is the same over the table, where an ACK for another
entry cleans the history.

The exception is a DISCOVER of a bound client for another free address:
`lookupDiscover` sets the state of the old entry to IDLE before it tests it against
BIND, and clears the history with it.  `history_rule_iff` says that this event
breaks the rule and no other does.  `address_affinity` is what the history is for:
a client that lost its lease is offered the same address again as long as nobody
else was given the entry.
-/

set_option maxRecDepth 4000

namespace Nl6621.Dhcp

open Lib

variable {t t' : Table} {m : Mac} {r : UInt32} {i j : Index} {srv srv' : Server} {q : Request}

/-! ### Which entry a DISCOVER selects -/

/-- A client that asks for a free address is given that one. -/
theorem lookup_discover_req (ho : t.OneOwner)
    (hreq : ∃ j, (t j).State = .IDLE ∧ (t j).IpAddr = r) (srvIp s : UInt32) :
    ∃ j, ((t j).State = .IDLE ∧ (t j).IpAddr = r) ∧
      clientTableLookup srvIp m DHCP_MSG_DISCOVER r s t = (some j, discovered m j t) := by
  have hl := lookup_discovers (m := m) ho srvIp r s
  generalize clientTableLookup srvIp m DHCP_MSG_DISCOVER r s t = res at hl ⊢
  obtain ⟨j, hj⟩ := hreq
  cases hl with
  | req h => exact ⟨_, h, rfl⟩
  | my hno | myHistory hno | free hno | full hno => exact absurd hj (hno j)

/-- A client that owns an entry and asks for no free address keeps its own. -/
theorem lookup_discover_my (ho : t.OneOwner) (hown : (t i).Owned m)
    (hreq : ∀ j, ¬ ((t j).State = .IDLE ∧ (t j).IpAddr = r)) (srvIp s : UInt32) :
    clientTableLookup srvIp m DHCP_MSG_DISCOVER r s t = (some i, discovered m i t) := by
  have hl := lookup_discovers (m := m) ho srvIp r s
  generalize clientTableLookup srvIp m DHCP_MSG_DISCOVER r s t = res at hl ⊢
  cases hl with
  | req h => exact absurd h (hreq _)
  | my _ h => rw [ho.eq h hown]
  | myHistory _ hno | free _ hno | full _ hno => exact absurd hown (hno i)

/-- A client that owns nothing and asks for no free address is given an entry with
its history. -/
theorem lookup_discover_history (ho : t.OneOwner) (hown : ∀ j, ¬ (t j).Owned m)
    (hreq : ∀ j, ¬ ((t j).State = .IDLE ∧ (t j).IpAddr = r))
    (hist : (t i).State = .IDLE ∧ (t i).MacAddr = m) (srvIp s : UInt32) :
    ∃ j, ((t j).State = .IDLE ∧ (t j).MacAddr = m) ∧
      clientTableLookup srvIp m DHCP_MSG_DISCOVER r s t = (some j, discovered m j t) := by
  have hl := lookup_discovers (m := m) ho srvIp r s
  generalize clientTableLookup srvIp m DHCP_MSG_DISCOVER r s t = res at hl ⊢
  cases hl with
  | req h => exact absurd h (hreq _)
  | my _ h => exact absurd h (hown _)
  | myHistory _ _ h => exact ⟨_, h, rfl⟩
  | free _ _ hno _ => exact absurd hist (hno i)
  | full _ _ hno => exact absurd hist.1 (hno i)

/-- What the callback makes of the entry selected for a DISCOVER. -/
theorem recvCb_discover {p : List UInt8} {after : Nat → UInt8} (pbuf : Bool)
    (hq : requestOf p after srv = some q) (hd : q.msgType = DHCP_MSG_DISCOVER)
    (hl : clientTableLookup srv.ServerIpAddr q.MacAddr DHCP_MSG_DISCOVER q.reqIpAddr q.serverId
      srv.Clients = (some i, discovered q.MacAddr i srv.Clients)) :
    (dhcpsRecvCb p after pbuf srv).1.Clients = offered q.MacAddr i srv.Clients ∧
      (dhcpsRecvCb p after pbuf srv).2 =
        if pbuf then some (leaseReply srv DHCP_MSG_OFFER (srv.Clients i) q.MacAddr q.Xid)
        else none := by
  rw [← hd] at hl
  have hh : handleRequest pbuf q { srv with msg := copyPartial p srv.msg } = _ :=
    handleRequest_some pbuf hl
  have hsme := smeHandle_discover (m := q.MacAddr) pbuf i q.Xid
    { srv with msg := copyPartial p srv.msg }
  simp only [dhcpsRecvCb, hq, hh, hd]
  exact hsme

/-! ### An entry that leaves its client -/

/-- The entry is kept, or it goes idle: a lease leaves its MAC address, an offer
leaves none. -/
def Client.Retires (c c' : Client) : Prop :=
  (c'.State = c.State ∧ c'.MacAddr = c.MacAddr) ∨
    (c.State = .BIND ∧ c'.State = .IDLE ∧ c'.MacAddr = c.MacAddr) ∨
    (c.State = .REQUEST ∧ c'.State = .IDLE ∧ c'.MacAddr = zeroMac)

theorem Client.Retires.refl (c : Client) : c.Retires c := .inl ⟨rfl, rfl⟩

theorem tickClient_retires (present : Bool) (c : Client) : c.Retires (tickClient present c) := by
  rw [tickClient]
  cases hc : c.State with
  | IDLE => exact .refl c
  | SELECT => exact .refl c
  | REQUEST =>
    simp only
    split
    · split
      · exact .inr (.inr ⟨hc, rfl, rfl⟩)
      · exact .inl ⟨hc.symm, rfl⟩
    · exact .refl c
  | BIND =>
    simp only
    split
    · split
      · exact .inr (.inl ⟨hc, rfl, rfl⟩)
      · split
        · exact .inr (.inl ⟨hc, rfl, rfl⟩)
        · exact .inl ⟨hc.symm, rfl⟩
    · split
      · exact .inr (.inl ⟨hc, rfl, rfl⟩)
      · exact .refl c

theorem tickHandle_retires (present : Index → Bool) (srv : Server) (j : Index) :
    (srv.Clients j).Retires ((dhcpTickHandle present srv).Clients j) := by
  rw [dhcpTickHandle]
  split
  · exact tickClient_retires _ _
  · exact .refl _

theorem deleteLoop_retires (m : Mac) (t : Table) (is : List Index) (j : Index) :
    (t j).Retires ((deleteLoop m t is).1 j) := by
  induction is with
  | nil => exact .refl _
  | cons i is ih =>
    rw [deleteLoop]
    split
    · split
      · exact .refl _
      · rename_i hb
        simp only [Table.modify]
        split
        · rename_i hj
          subst hj
          exact .inr (.inl ⟨not_not.mp hb, rfl, rfl⟩)
        · exact .refl _
    · exact ih

theorem clientDelete_retires (mac : Option Mac) (srv : Server) (j : Index) :
    (srv.Clients j).Retires ((dhcpsClientDelete mac srv).1.Clients j) := by
  unfold dhcpsClientDelete
  split
  · exact .refl _
  · cases mac with
    | none => exact .refl _
    | some m => exact deleteLoop_retires m _ _ j

theorem gaveUp_retires (hn : t.NoSelect) (j : Index) : (t j).Retires (gaveUp m t j) := by
  rw [gaveUp]
  split
  · rename_i hown
    rw [giveUp]
    cases hs : (t j).State with
    | IDLE => exact absurd hs hown.1
    | SELECT => exact absurd hs (hn j)
    | REQUEST => exact .inr (.inr ⟨hs, rfl, rfl⟩)
    | BIND => exact .inr (.inl ⟨hs, rfl, rfl⟩)
  · exact .refl _

/-! ### The rule -/

/-- From one table to the next, an entry that goes idle keeps the MAC address of a
lease, unless its owner is bound to another entry, and none of an offer. -/
def HistoryRule (t t' : Table) : Prop :=
  ∀ i, (t' i).State = .IDLE →
    ((t i).State = .BIND → (t' i).MacAddr = (t i).MacAddr ∨
      ∃ j, j ≠ i ∧ (t' j).State = .BIND ∧ (t' j).MacAddr = (t i).MacAddr) ∧
    ((t i).State = .REQUEST → (t' i).MacAddr = zeroMac)

theorem historyRule_of_retires (h : ∀ j, (t j).Retires (t' j)) : HistoryRule t t' := by
  intro i hidle
  rcases h i with ⟨hs, -⟩ | ⟨hb, -, hm⟩ | ⟨hr, -, hm⟩
  · rw [hs] at hidle
    rw [hidle]
    exact ⟨fun h => (by cases h), fun h => (by cases h)⟩
  · rw [hb]
    exact ⟨fun _ => .inl hm, fun h => (by cases h)⟩
  · rw [hr]
    exact ⟨fun h => (by cases h), fun _ => hm⟩

theorem historyRule_acked : HistoryRule t (acked m i t) := by
  intro j hidle
  have hne : j ≠ i := by
    rintro rfl
    rw [acked_self] at hidle
    cases hidle
  by_cases hm : (t j).MacAddr = m
  · have hj : acked m i t j = { t j with State := .IDLE, MacAddr := zeroMac } := by
      rw [acked, if_neg hne, if_pos hm]
    rw [hj]
    refine ⟨fun _ => .inr ⟨i, hne.symm, ?_, ?_⟩, fun _ => rfl⟩
    · rw [acked_self]
    · rw [acked_self, hm]
  · have hj : acked m i t j = t j := by rw [acked, if_neg hne, if_neg hm]
    rw [hj] at hidle ⊢
    rw [hidle]
    exact ⟨fun h => (by cases h), fun h => (by cases h)⟩

/-- An offer keeps the rule unless the client had a lease on another entry. -/
theorem historyRule_offered
    (hb : ∀ j, j ≠ i → (t j).State = .BIND → (t j).MacAddr = m → m = zeroMac) :
    HistoryRule t (offered m i t) := by
  intro j hidle
  have hne : j ≠ i := by
    rintro rfl
    rw [offered_self] at hidle
    cases hidle
  by_cases hown : (t j).Owned m
  · have hj : offered m i t j = { t j with State := .IDLE, MacAddr := zeroMac } := by
      rw [offered, if_neg hne, if_pos hown]
    rw [hj]
    refine ⟨fun h => .inl ?_, fun _ => rfl⟩
    rw [hown.2]
    exact (hb j hne h hown.2).symm
  · have hj : offered m i t j = t j := by rw [offered, if_neg hne, if_neg hown]
    rw [hj] at hidle ⊢
    rw [hidle]
    exact ⟨fun h => (by cases h), fun h => (by cases h)⟩

/-- An offer of another entry clears the history of the lease. -/
theorem not_historyRule_offered (hm : m ≠ zeroMac) (hne : j ≠ i) (hb : (t j).State = .BIND)
    (hmac : (t j).MacAddr = m) : ¬ HistoryRule t (offered m i t) := by
  intro h
  have hown : (t j).Owned m := ⟨by rw [hb]; decide, hmac⟩
  have hj : offered m i t j = { t j with State := .IDLE, MacAddr := zeroMac } := by
    rw [offered, if_neg hne, if_pos hown]
  have hrule := (h j (by rw [hj])).1 hb
  rw [hj, hmac] at hrule
  rcases hrule with hz | ⟨k, -, hkb, hkm⟩
  · exact hm hz.symm
  · by_cases hk : k = i
    · subst hk
      rw [offered_self] at hkb
      cases hkb
    · exact offered_not_owned hk ⟨by rw [hkb]; decide, hkm⟩

/-- A bound client asks with a DISCOVER for another address, which is free. -/
def Restarts (srv : Server) : Event → Prop
  | .recv p after _ => ∃ q, requestOf p after srv = some q ∧ q.msgType = DHCP_MSG_DISCOVER ∧
      q.MacAddr ≠ zeroMac ∧
      (∃ i, (srv.Clients i).State = .BIND ∧ (srv.Clients i).MacAddr = q.MacAddr) ∧
      ∃ j, (srv.Clients j).State = .IDLE ∧ (srv.Clients j).IpAddr = q.reqIpAddr
  | .tick _ => False
  | .delete _ => False

theorem not_historyRule_of_restarts {addr : Index → UInt32} {e : Event}
    (hs : Safe addr srv.Clients) (he : Restarts srv e) (hstep : step srv e = some srv') :
    ¬ HistoryRule srv.Clients srv'.Clients := by
  cases e with
  | tick => exact he.elim
  | delete => exact he.elim
  | recv p after pbuf =>
    obtain ⟨q, hq, hd, hm, ⟨i, hb, hmac⟩, hreq⟩ := he
    have hown : (srv.Clients i).Owned q.MacAddr := ⟨by rw [hb]; decide, hmac⟩
    obtain ⟨j, hj, hl⟩ :=
      lookup_discover_req (m := q.MacAddr) hs.oneOwner hreq srv.ServerIpAddr q.serverId
    have hne : i ≠ j := fun h => hown.not_idle (h ▸ hj.1)
    cases hstep
    rw [(recvCb_discover pbuf hq hd hl).1]
    exact not_historyRule_offered hm hne hb hmac

theorem historyRule_recv {addr : Index → UInt32} {p : List UInt8} {after : Nat → UInt8}
    {pbuf : Bool} (hs : Safe addr srv.Clients) (he : ¬ Restarts srv (.recv p after pbuf)) :
    HistoryRule srv.Clients (dhcpsRecvCb p after pbuf srv).1.Clients := by
  rcases recvCb_cases hs p after pbuf with ⟨-, ht, -⟩ | ⟨q, rep, hq, ha, -⟩
  · rw [ht]
    exact historyRule_of_retires fun j => .refl _
  generalize hT : (dhcpsRecvCb p after pbuf srv).1.Clients = T at ha
  cases ha with
  | @offer i hd hi =>
    apply historyRule_offered
    intro j hne hb hmac
    by_contra hm
    have hown : (srv.Clients j).Owned q.MacAddr := ⟨by rw [hb]; decide, hmac⟩
    -- the entry offered is not the client's own, so the address it asked for was free
    have hreq : ∀ k, ¬ ((srv.Clients k).State = .IDLE ∧ (srv.Clients k).IpAddr = q.reqIpAddr) :=
      fun k hk => he ⟨q, hq, hd, hm, ⟨j, hb, hmac⟩, k, hk⟩
    have hl := lookup_discover_my hs.oneOwner hown hreq srv.ServerIpAddr q.serverId
    rw [(recvCb_discover pbuf hq hd hl).1] at hT
    have hst := congrArg (fun t => (t j).State) hT
    simp only [offered_self] at hst
    rw [offered, if_neg hne, if_pos hown] at hst
    cases hst
  | ack _ _ _ => exact historyRule_acked
  | nak htab _ _ _ =>
    rcases htab with rfl | rfl
    · exact historyRule_of_retires fun j => .refl _
    · exact historyRule_of_retires (gaveUp_retires hs.noSelect)
  | silent _ => exact historyRule_of_retires (gaveUp_retires hs.noSelect)

/-- **The history rule** holds for an event at a reachable table if and only if the
event is not a DISCOVER of a bound client for another free address. -/
theorem history_rule_iff {ip netmask : UInt32} {e : Event} (h : Reachable ip netmask srv)
    (hstep : step srv e = some srv') :
    HistoryRule srv.Clients srv'.Clients ↔ ¬ Restarts srv e := by
  have hs := safe_reachable h
  refine ⟨fun hr he => not_historyRule_of_restarts hs he hstep hr, fun he => ?_⟩
  cases e with
  | recv p after pbuf =>
    cases hstep
    exact historyRule_recv hs he
  | tick present =>
    cases hstep
    exact historyRule_of_retires (tickHandle_retires present srv)
  | delete mac =>
    cases hstep
    exact historyRule_of_retires (clientDelete_retires mac srv)

/-- A message that asks for an address. -/
def askMsg (mac : Mac) (msgType : UInt8) (addr : UInt32) : List UInt8 :=
  (plainMsg mac msgType).dropLast ++ wordOption DHCP_OPTION_ID_REQ_IP_ADDR addr ++ [255]

/-- The server when the first client is bound to the second address. -/
def boundServer : Server :=
  (dhcpsRecvCb (askMsg macA 3 (homeServer.Clients 1).IpAddr) (fun _ => 0) true homeServer).1

theorem boundServer_reachable : Reachable 0x0101a8c0 0x00ffffff boundServer :=
  homeServer_reachable.next
    (a := .recv (askMsg macA 3 (homeServer.Clients 1).IpAddr) (fun _ => 0) true) trivial rfl

theorem history_rule_tick :
    HistoryRule boundServer.Clients (dhcpTickHandle (fun _ => false) boundServer).Clients :=
  (history_rule_iff (e := .tick fun _ => false) boundServer_reachable rfl).mpr id

/-- The bound client asks for the third address: its old entry is idle and nobody's. -/
theorem history_lost :
    ¬ ∀ srv, Reachable 0x0101a8c0 0x00ffffff srv → ∀ e srv', step srv e = some srv' →
      HistoryRule srv.Clients srv'.Clients := by
  intro h
  have hreq : requestOf (askMsg macA 1 (homeServer.Clients 2).IpAddr) (fun _ => 0) boundServer =
      some ⟨0x12345678, macA, 1, (homeServer.Clients 2).IpAddr, 0⟩ := rfl
  have hr := h boundServer boundServer_reachable
    (.recv (askMsg macA 1 (homeServer.Clients 2).IpAddr) (fun _ => 0) true) _ rfl 1
  rw [dhcpsRecvCb, hreq] at hr
  rcases (hr (by decide)).1 (by decide) with hmac | ⟨j, -, hb, -⟩
  · exact absurd hmac (by decide)
  · revert j
    decide

/-! ### The old address -/

/-- The MAC address is in entry `i` and in no other. -/
def OnlyAt (m : Mac) (i : Index) (t : Table) : Prop := ∀ j, (t j).MacAddr = m ↔ j = i

theorem Client.Retires.mac {c c' : Client} (h : c.Retires c') (hm : m ≠ zeroMac)
    (hc : c'.MacAddr = m) : c.MacAddr = m := by
  rcases h with ⟨-, h⟩ | ⟨-, -, h⟩ | ⟨-, -, h⟩
  · exact h ▸ hc
  · exact h ▸ hc
  · exact absurd (hc.symm.trans h) hm

/-- An event that retires entries spreads no MAC address. -/
theorem OnlyAt.retires (h : OnlyAt m i t) (hm : m ≠ zeroMac) (hr : ∀ j, (t j).Retires (t' j))
    (hi : (t' i).MacAddr = m) : OnlyAt m i t' := by
  intro j
  refine ⟨fun hj => (h j).mp ((hr j).mac hm hj), ?_⟩
  rintro rfl
  exact hi

/-- A lease that is kept or goes idle keeps its MAC address. -/
theorem Client.Retires.bind {c c' : Client} (h : c.Retires c') (hb : c.State = .BIND) :
    c'.MacAddr = c.MacAddr := by
  rcases h with ⟨-, h⟩ | ⟨-, -, h⟩ | ⟨hr, -, -⟩
  · exact h
  · exact h
  · rw [hb] at hr
    cases hr

/-- A history is left alone. -/
theorem Client.Retires.idle {c c' : Client} (h : c.Retires c') (hs : c.State = .IDLE) :
    c'.State = .IDLE ∧ c'.MacAddr = c.MacAddr := by
  rcases h with ⟨hst, h⟩ | ⟨hb, -, -⟩ | ⟨hr, -, -⟩
  · exact ⟨hst.trans hs, h⟩
  · rw [hs] at hb
    cases hb
  · rw [hs] at hr
    cases hr

/-- A request writes no MAC address but its own. -/
theorem Answer.mac {rep : Option Reply} (ha : Answer srv q t' rep) (hn : srv.Clients.NoSelect)
    (hm : m ≠ zeroMac) (hq : q.MacAddr ≠ m) (hj : (t' j).MacAddr = m) :
    (srv.Clients j).MacAddr = m := by
  cases ha with
  | @offer i _ _ =>
    rw [offered] at hj
    split at hj
    · exact absurd hj hq
    · split at hj
      · exact absurd hj.symm hm
      · exact hj
  | @ack i _ _ _ =>
    rw [acked] at hj
    split at hj
    · exact absurd hj hq
    · split at hj
      · exact absurd hj.symm hm
      · exact hj
  | nak htab _ _ _ =>
    rcases htab with rfl | rfl
    · exact hj
    · exact (gaveUp_retires hn j).mac hm hj
  | silent _ => exact (gaveUp_retires hn j).mac hm hj

/-- A request leaves an entry alone that it does not select and that does not name
its client. -/
theorem handleRequest_frame (srv : Server) (ho : srv.Clients.OneOwner)
    (hn : srv.Clients.NoSelect) (pbuf : Bool)
    (hsel : (clientTableLookup srv.ServerIpAddr q.MacAddr q.msgType q.reqIpAddr q.serverId
      srv.Clients).1 ≠ some j)
    (hm : (srv.Clients j).MacAddr ≠ q.MacAddr) :
    (handleRequest pbuf q srv).1.Clients j = srv.Clients j := by
  have hno : ¬ (srv.Clients j).Owned q.MacAddr := fun h => hm h.2
  have hgave : gaveUp q.MacAddr srv.Clients j = srv.Clients j := by rw [gaveUp, if_neg hno]
  rcases lookup_cases ho srv.ServerIpAddr q with ⟨i, hd, -, hl⟩ | ⟨i, hr, -, -, hl⟩ |
    ⟨t', ht', -, -, -, hl⟩ | ⟨-, hl⟩
  · have hne : j ≠ i := fun h => hsel (by rw [hl, h])
    have hsme := smeHandle_discover (m := q.MacAddr) pbuf i q.Xid srv
    rw [← hd] at hsme
    rw [handleRequest_some pbuf hl, hsme.1, offered, if_neg hne, if_neg hno]
  · have hne : j ≠ i := fun h => hsel (by rw [hl, h])
    have hsme := smeHandle_request (m := q.MacAddr) pbuf i q.Xid srv (hn i)
    rw [← hr] at hsme
    rw [handleRequest_some pbuf hl, hsme.1, acked, if_neg hne, if_neg hm]
  · rw [(handleRequest_none pbuf hl).1]
    rcases ht' with rfl | rfl
    · rfl
    · exact hgave
  · rw [(handleRequest_none pbuf hl).1]
    exact hgave

/-- The client of a lease that is still bound after its own request was ACKed again. -/
theorem Answer.onlyAt_self {rep : Option Reply} (ha : Answer srv q t' rep)
    (h : OnlyAt q.MacAddr i srv.Clients) (hm : q.MacAddr ≠ zeroMac)
    (hb : (srv.Clients i).State = .BIND) (hb' : (t' i).State = .BIND) : OnlyAt q.MacAddr i t' := by
  have hmac := (h i).mpr rfl
  have hown : (srv.Clients i).Owned q.MacAddr := ⟨by rw [hb]; decide, hmac⟩
  have hgave : (gaveUp q.MacAddr srv.Clients i).State ≠ .BIND := by
    rw [gaveUp, if_pos hown]
    intro h
    cases h
  cases ha with
  | @offer k _ _ =>
    by_cases hk : i = k
    · subst hk
      rw [offered_self] at hb'
      cases hb'
    · rw [offered, if_neg hk, if_pos hown] at hb'
      cases hb'
  | @ack k _ _ _ =>
    by_cases hk : i = k
    · subst hk
      exact acked_exact hm i
    · rw [acked, if_neg hk, if_pos hmac] at hb'
      cases hb'
  | nak htab _ _ _ =>
    rcases htab with rfl | rfl
    · exact h
    · exact absurd hb' hgave
  | silent _ => exact absurd hb' hgave

/-! ### From the ACK to the next DISCOVER -/

/-- The event leaves entry `i` bound. -/
def StaysBound (i : Index) (srv : Server) (e : Event) : Prop :=
  ∀ srv', step srv e = some srv' → (srv'.Clients i).State = .BIND

/-- The event ends the lease of entry `i`: the lease expires, the station has left,
`DHCPS_ClientDelete` is called, or the client sends a RELEASE or a DECLINE. -/
def EndsLease (i : Index) (srv : Server) (e : Event) : Prop :=
  (∀ srv', step srv e = some srv' → (srv'.Clients i).State = .IDLE) ∧
    ∀ p after pbuf, e = .recv p after pbuf → ∃ q, requestOf p after srv = some q ∧
      (q.msgType = DHCP_MSG_RELEASE ∨ q.msgType = DHCP_MSG_DECLINE)

/-- The event is not a message of the client `m`, and entry `i` is not selected in it
for another client. -/
def Elsewhere (m : Mac) (i : Index) (srv : Server) (e : Event) : Prop :=
  ∀ p after pbuf q, e = .recv p after pbuf → requestOf p after srv = some q →
    q.MacAddr ≠ m ∧ (clientTableLookup srv.ServerIpAddr q.MacAddr q.msgType q.reqIpAddr q.serverId
      srv.Clients).1 ≠ some i

/-- Entry `i` is bound to the client, and no other entry names it. -/
def Leased (addr : Index → UInt32) (m : Mac) (i : Index) (srv : Server) : Prop :=
  Safe addr srv.Clients ∧ (srv.Clients i).State = .BIND ∧ OnlyAt m i srv.Clients

/-- Entry `i` is the history of the client, and no other entry names it. -/
def Remembered (addr : Index → UInt32) (m : Mac) (i : Index) (srv : Server) : Prop :=
  Safe addr srv.Clients ∧ (srv.Clients i).State = .IDLE ∧ OnlyAt m i srv.Clients

variable {addr : Index → UInt32}

theorem leased_step (hm : m ≠ zeroMac) {e : Event} (h : Leased addr m i srv)
    (hok : StaysBound i srv e) (hstep : step srv e = some srv') : Leased addr m i srv' := by
  obtain ⟨hs, hb, ho⟩ := h
  refine ⟨step_safe hs hstep, hok _ hstep, ?_⟩
  have hb' := hok _ hstep
  have hmac := (ho i).mpr rfl
  cases e with
  | tick present =>
    cases hstep
    have hr := tickHandle_retires present srv
    exact ho.retires hm hr (((hr i).bind hb).trans hmac)
  | delete mac =>
    cases hstep
    have hr := clientDelete_retires mac srv
    exact ho.retires hm hr (((hr i).bind hb).trans hmac)
  | recv p after pbuf =>
    cases hstep
    rcases recvCb_cases hs p after pbuf with ⟨-, ht, -⟩ | ⟨q, rep, -, ha, -⟩
    · rw [ht]
      exact ho
    by_cases hq : q.MacAddr = m
    · subst hq
      exact ha.onlyAt_self ho hm hb hb'
    · have hi := ha.isolated (j := i) (by rw [hb]; decide) fun h => hq (h.symm.trans hmac)
      intro j
      refine ⟨fun hj => (ho j).mp (ha.mac hs.noSelect hm hq hj), ?_⟩
      rintro rfl
      rw [hi]
      exact hmac

theorem remembered_of_endsLease (hm : m ≠ zeroMac) {e : Event} (h : Leased addr m i srv)
    (hend : EndsLease i srv e) (hstep : step srv e = some srv') : Remembered addr m i srv' := by
  obtain ⟨hs, hb, ho⟩ := h
  refine ⟨step_safe hs hstep, hend.1 _ hstep, ?_⟩
  have hr : ∀ j, (srv.Clients j).Retires (srv'.Clients j) := by
    cases e with
    | tick present =>
      cases hstep
      exact tickHandle_retires present srv
    | delete mac =>
      cases hstep
      exact clientDelete_retires mac srv
    | recv p after pbuf =>
      cases hstep
      obtain ⟨q, hq, hl⟩ := hend.2 p after pbuf rfl
      rcases recvCb_cases hs p after pbuf with ⟨hnone, -, -⟩ | ⟨q', rep, hq', ha, -⟩
      · rw [hq] at hnone
        cases hnone
      · rw [hq] at hq'
        cases hq'
        rw [(ha.releases hl).2]
        exact gaveUp_retires hs.noSelect
  exact ho.retires hm hr (((hr i).bind hb).trans ((ho i).mpr rfl))

theorem remembered_step (hm : m ≠ zeroMac) {e : Event} (h : Remembered addr m i srv)
    (hok : Elsewhere m i srv e) (hstep : step srv e = some srv') : Remembered addr m i srv' := by
  obtain ⟨hs, hi, ho⟩ := h
  have hmac := (ho i).mpr rfl
  have hretires : (∀ j, (srv.Clients j).Retires (srv'.Clients j)) →
      Remembered addr m i srv' := by
    intro hr
    obtain ⟨hi', hmac'⟩ := (hr i).idle hi
    exact ⟨step_safe hs hstep, hi', ho.retires hm hr (hmac'.trans hmac)⟩
  cases e with
  | tick present =>
    cases hstep
    exact hretires (tickHandle_retires present srv)
  | delete mac =>
    cases hstep
    exact hretires (clientDelete_retires mac srv)
  | recv p after pbuf =>
    cases hstep
    rcases recvCb_cases hs p after pbuf with ⟨-, ht, -⟩ | ⟨q, rep, hq, ha, -⟩
    · apply hretires
      intro j
      rw [ht]
      exact .refl _
    obtain ⟨hne, hsel⟩ := hok p after pbuf q rfl hq
    have hframe : (dhcpsRecvCb p after pbuf srv).1.Clients i = srv.Clients i := by
      rw [dhcpsRecvCb, hq]
      exact handleRequest_frame { srv with msg := copyPartial p srv.msg } hs.oneOwner
        hs.noSelect pbuf hsel fun h => hne (h.symm.trans hmac)
    refine ⟨ha.safe hs, by rw [hframe]; exact hi, fun j => ?_⟩
    refine ⟨fun hj => (ho j).mp (ha.mac hs.noSelect hm hne hj), ?_⟩
    rintro rfl
    rw [hframe]
    exact hmac

/-- A remembered client that asks for no address is offered its old one. -/
theorem recvCb_remembered {p : List UInt8} {after : Nat → UInt8} (h : Remembered addr m i srv)
    (hz : ∀ j, addr j ≠ 0) (hq : requestOf p after srv = some q) (hqm : q.MacAddr = m)
    (hd : q.msgType = DHCP_MSG_DISCOVER) (hr : q.reqIpAddr = 0) :
    ∃ rep, (dhcpsRecvCb p after true srv).2 = some rep ∧ rep.msgType = DHCP_MSG_OFFER ∧
      rep.Yiaddr = addr i := by
  obtain ⟨hs, hi, ho⟩ := h
  have hown : ∀ j, ¬ (srv.Clients j).Owned q.MacAddr := by
    intro j hj
    have hji := (ho j).mp (hj.2.trans hqm)
    subst hji
    exact hj.not_idle hi
  have hreq : ∀ j, ¬ ((srv.Clients j).State = .IDLE ∧ (srv.Clients j).IpAddr = q.reqIpAddr) := by
    rintro j ⟨-, hj⟩
    rw [hs.ipAddr j, hr] at hj
    exact hz j hj
  have hist : (srv.Clients i).State = .IDLE ∧ (srv.Clients i).MacAddr = q.MacAddr :=
    ⟨hi, ((ho i).mpr rfl).trans hqm.symm⟩
  obtain ⟨j, hj, hl⟩ :=
    lookup_discover_history hs.oneOwner hown hreq hist srv.ServerIpAddr q.serverId
  have hji := (ho j).mp (hj.2.trans hqm)
  subst hji
  exact ⟨_, (recvCb_discover true hq hd hl).2, rfl, hs.ipAddr j⟩

/-- **A client finds its address again.**  An ACK gave the client the address of entry
`i`; the lease was kept for a while and then ended; since then the client was silent
and the entry was selected for no other client.  Then a DISCOVER of the client that
asks for no address is answered with an OFFER of the old one. -/
theorem address_affinity {ip netmask : UInt32} (hpool : Function.Injective (poolAddr ip netmask))
    (hz : ∀ i, poolAddr ip netmask i ≠ 0) (hm : m ≠ zeroMac)
    {srv₀ srv₁ srv₂ srv₃ srv₄ : Server} {p₀ p : List UInt8} {after₀ after : Nat → UInt8}
    {rep : Reply} {e : Event}
    (h₀ : Reachable ip netmask srv₀)
    (hack : dhcpsRecvCb p₀ after₀ true srv₀ = (srv₁, some rep))
    (hty : rep.msgType = DHCP_MSG_ACK) (hch : rep.Chaddr = m)
    (hyi : rep.Yiaddr = poolAddr ip netmask i)
    (hkept : Reach (· = srv₁) step (StaysBound i) srv₂)
    (hend : EndsLease i srv₂ e) (hstep : step srv₂ e = some srv₃)
    (hsince : Reach (· = srv₃) step (Elsewhere m i) srv₄)
    (hq : requestOf p after srv₄ = some q) (hqm : q.MacAddr = m)
    (hd : q.msgType = DHCP_MSG_DISCOVER) (hr : q.reqIpAddr = 0) :
    ∃ rep', (dhcpsRecvCb p after true srv₄).2 = some rep' ∧ rep'.msgType = DHCP_MSG_OFFER ∧
      rep'.Yiaddr = rep.Yiaddr := by
  have hs := safe_reachable h₀
  have h₁ : Leased (poolAddr ip netmask) m i srv₁ := by
    rcases recvCb_cases hs p₀ after₀ true with ⟨-, -, hnone⟩ | ⟨q₀, r, -, ha, hrep⟩
    · rw [hack] at hnone
      cases hnone
    · rw [hack, if_pos rfl] at hrep
      rw [hack, ← hrep] at ha
      obtain ⟨k, -, -, ht, hk, hc⟩ := ha.ack_inv hty
      have hki : k = i := hpool (by rw [← hs.ipAddr k, ← hk, hyi])
      subst hki
      rw [hch] at hc
      subst hc
      refine ⟨ha.safe hs, ?_, ?_⟩
      · rw [ht, acked_self]
      · rw [ht]
        exact acked_exact hm k
  have h₂ : Leased (poolAddr ip netmask) m i srv₂ :=
    hkept.invariant (I := Leased (poolAddr ip netmask) m i) (by rintro _ rfl; exact h₁)
      fun _ _ _ h hok hs => leased_step hm h hok hs
  have h₃ := remembered_of_endsLease hm h₂ hend hstep
  have h₄ : Remembered (poolAddr ip netmask) m i srv₄ :=
    hsince.invariant (I := Remembered (poolAddr ip netmask) m i) (by rintro _ rfl; exact h₃)
      fun _ _ _ h hok hs => remembered_step hm h hok hs
  rw [hyi]
  exact recvCb_remembered h₄ hz hq hqm hd hr

theorem boundServer_acked :
    dhcpsRecvCb (askMsg macA 3 (homeServer.Clients 1).IpAddr) (fun _ => 0) true homeServer =
      (boundServer,
        some (leaseReply homeServer DHCP_MSG_ACK (homeServer.Clients 1) macA 0x12345678)) := by
  have hrep : (dhcpsRecvCb (askMsg macA 3 (homeServer.Clients 1).IpAddr) (fun _ => 0) true
      homeServer).2 =
        some (leaseReply homeServer DHCP_MSG_ACK (homeServer.Clients 1) macA 0x12345678) := by
    decide
  rw [boundServer, ← hrep]

/-- The server when the station of the first client has left. -/
def leftServer : Server := dhcpTickHandle (fun _ => false) boundServer

theorem boundServer_endsLease : EndsLease 1 boundServer (.tick fun _ => false) := by
  refine ⟨?_, fun _ _ _ h => by cases h⟩
  intro srv' h
  obtain rfl := Option.some.inj h
  decide

/-- The second client asks, and is offered another entry. -/
def sharedServer : Server := (dhcpsRecvCb (plainMsg macB 1) (fun _ => 0) true leftServer).1

theorem sharedServer_elsewhere : Reach (· = leftServer) step (Elsewhere macA 1) sharedServer := by
  refine .next (a := .recv (plainMsg macB 1) (fun _ => 0) true) (.start rfl) ?_ rfl
  intro p after pbuf q he hq
  cases he
  have hreq : requestOf (plainMsg macB 1) (fun _ => 0) leftServer =
      some ⟨0x12345678, macB, 1, 0, 0⟩ := by decide
  rw [hreq] at hq
  cases hq
  exact ⟨by decide, by decide⟩

theorem sharedServer_request : requestOf (plainMsg macA 1) (fun _ => 0) sharedServer =
    some ⟨0x12345678, macA, 1, 0, 0⟩ := by
  decide

theorem address_affinity_departed :
    ∃ rep', (dhcpsRecvCb (plainMsg macA 1) (fun _ => 0) true sharedServer).2 = some rep' ∧
      rep'.msgType = DHCP_MSG_OFFER ∧ rep'.Yiaddr = (homeServer.Clients 1).IpAddr :=
  address_affinity (i := 1) (by decide) (by decide) (by decide : macA ≠ zeroMac)
    homeServer_reachable boundServer_acked rfl rfl rfl (.start rfl) boundServer_endsLease rfl
    sharedServer_elsewhere sharedServer_request rfl rfl rfl

end Nl6621.Dhcp
