import Nl6621.Dhcp.Lookup
import Nl6621.Lib.Runs
import Mathlib.Tactic.IntervalCases

/-!
# The lease table over whole runs

A run starts with a successful `DHCPS_Start` and goes on with received datagrams,
timer ticks and calls of `DHCPS_ClientDelete`, in any order.  `Safe` is the
invariant: a MAC address owns at most one entry, no entry stays in state SELECT,
and the addresses are those of the start.  An entry that loses its state to an
event only shrinks (`Client.Shrinks`); the one entry that can gain an owner is
assigned after the client has lost its others.

The main results are `lease_table_safe`, on every reachable table and on what an
ACK leaves behind, `reply_law`, which says what reply a request gets, and
`client_isolation`, by which a request touches no entry another client owns.
-/

set_option maxRecDepth 4000

namespace Nl6621.Dhcp

open Lib

variable {t t' : Table} {m : Mac} {i j : Index} {addr : Index → UInt32} {srv : Server} {q : Request}

/-! ### The invariant -/

structure Safe (addr : Index → UInt32) (t : Table) : Prop where
  oneOwner : t.OneOwner
  noSelect : t.NoSelect
  ipAddr : ∀ i, (t i).IpAddr = addr i

/-- The entry keeps its address, and it keeps its state and its owner or is idle. -/
def Client.Shrinks (c c' : Client) : Prop :=
  c'.IpAddr = c.IpAddr ∧
    (c'.State = .IDLE ∨ c'.State = c.State ∧ c'.MacAddr = c.MacAddr)

theorem Client.Shrinks.refl (c : Client) : c.Shrinks c := ⟨rfl, .inr ⟨rfl, rfl⟩⟩

theorem Client.Shrinks.keeps {c c' : Client} (h : c.Shrinks c') (hs : c'.State ≠ .IDLE) :
    c'.State = c.State ∧ c'.MacAddr = c.MacAddr :=
  h.2.resolve_left hs

theorem Safe.shrink (h : Safe addr t) (hs : ∀ j, (t j).Shrinks (t' j)) : Safe addr t' := by
  refine ⟨?_, ?_, fun j => (hs j).1.trans (h.ipAddr j)⟩
  · intro i j hi hj hm
    obtain ⟨si, mi⟩ := (hs i).keeps hi
    obtain ⟨sj, mj⟩ := (hs j).keeps hj
    rw [si] at hi
    rw [sj] at hj
    rw [mi, mj] at hm
    exact h.oneOwner i j hi hj hm
  · intro j hsel
    have hidle : (t' j).State ≠ .IDLE := by rw [hsel]; decide
    rw [((hs j).keeps hidle).1] at hsel
    exact h.noSelect j hsel

/-- One entry is assigned to a client that owns none of the others. -/
theorem Safe.assign (h : Safe addr t) (hip : (t' i).IpAddr = (t i).IpAddr)
    (hmac : (t' i).MacAddr = m) (hsel : (t' i).State ≠ .SELECT)
    (hs : ∀ j, j ≠ i → (t j).Shrinks (t' j)) (hown : ∀ j, j ≠ i → ¬ (t' j).Owned m) :
    Safe addr t' := by
  have hkeep : ∀ j, j ≠ i → (t' j).State ≠ .IDLE →
      (t' j).State = (t j).State ∧ (t' j).MacAddr = (t j).MacAddr := fun j hj => (hs j hj).keeps
  refine ⟨?_, ?_, ?_⟩
  · intro a b ha hb hm
    by_cases hai : a = i
    · by_cases hbi : b = i
      · rw [hai, hbi]
      · subst hai
        exact absurd ⟨hb, hm.symm.trans hmac⟩ (hown b hbi)
    · by_cases hbi : b = i
      · subst hbi
        exact absurd ⟨ha, hm.trans hmac⟩ (hown a hai)
      · obtain ⟨sa, ma⟩ := hkeep a hai ha
        obtain ⟨sb, mb⟩ := hkeep b hbi hb
        rw [sa] at ha
        rw [sb] at hb
        rw [ma, mb] at hm
        exact h.oneOwner a b ha hb hm
  · intro j hj
    by_cases hji : j = i
    · exact hsel (hji ▸ hj)
    · have hidle : (t' j).State ≠ .IDLE := by rw [hj]; decide
      rw [(hkeep j hji hidle).1] at hj
      exact h.noSelect j hj
  · intro j
    by_cases hji : j = i
    · subst hji
      exact hip.trans (h.ipAddr j)
    · exact (hs j hji).1.trans (h.ipAddr j)

/-! ### One event -/

theorem giveUp_shrinks (c : Client) : c.Shrinks (giveUp c) := ⟨rfl, .inl rfl⟩

theorem gaveUp_shrinks (t : Table) (j : Index) : (t j).Shrinks (gaveUp m t j) := by
  rw [gaveUp]
  split
  · exact giveUp_shrinks _
  · exact .refl _

theorem offered_self : offered m i t i =
    { t i with State := .REQUEST, Timeout := DHCP_DEFFAULT_TIMEOUT, MacAddr := m } := by
  rw [offered, if_pos rfl]

theorem acked_self : acked m i t i =
    { t i with State := .BIND, Lease := DHCP_DEFAULT_LEASE_TIME, MacAddr := m } := by
  rw [acked, if_pos rfl]

theorem offered_shrinks (hj : j ≠ i) : (t j).Shrinks (offered m i t j) := by
  rw [offered, if_neg hj]
  split
  · exact ⟨rfl, .inl rfl⟩
  · exact .refl _

theorem acked_shrinks (hj : j ≠ i) : (t j).Shrinks (acked m i t j) := by
  rw [acked, if_neg hj]
  split
  · exact ⟨rfl, .inl rfl⟩
  · exact .refl _

theorem offered_not_owned (hj : j ≠ i) : ¬ (offered m i t j).Owned m := by
  rw [offered, if_neg hj]
  split
  · exact fun h => h.1 rfl
  · assumption

theorem acked_not_owned (hj : j ≠ i) : ¬ (acked m i t j).Owned m := by
  rw [acked, if_neg hj]
  split
  · exact fun h => h.1 rfl
  · rename_i hm
    exact fun h => hm h.2

theorem Answer.safe {rep : Option Reply} (ha : Answer srv q t' rep) (h : Safe addr srv.Clients) :
    Safe addr t' := by
  cases ha with
  | offer _ _ =>
    refine h.assign ?_ ?_ ?_ (fun j => offered_shrinks) (fun j => offered_not_owned)
    all_goals rw [offered_self]
    exact fun hsel => nomatch hsel
  | ack _ _ _ =>
    refine h.assign ?_ ?_ ?_ (fun j => acked_shrinks) (fun j => acked_not_owned)
    all_goals rw [acked_self]
    exact fun hsel => nomatch hsel
  | nak htab _ _ _ =>
    rcases htab with rfl | rfl
    · exact h
    · exact h.shrink fun j => gaveUp_shrinks _ j
  | silent _ => exact h.shrink fun j => gaveUp_shrinks _ j

/-- The answer does not depend on the message buffer. -/
theorem Answer.of_msg {msg : Nat → UInt8} {rep : Option Reply}
    (ha : Answer { srv with msg := msg } q t' rep) : Answer srv q t' rep := by
  cases ha with
  | offer ht hi => exact .offer ht hi
  | ack ht hg hi => exact .ack ht hg hi
  | nak htab hd hr hl => exact .nak htab hd hr hl
  | silent ht => exact .silent ht

/-- The callback drops the datagram or answers a request. -/
theorem recvCb_cases (hs : Safe addr srv.Clients) (p : List UInt8) (after : Nat → UInt8)
    (pbuf : Bool) :
    (requestOf p after srv = none ∧
      (dhcpsRecvCb p after pbuf srv).1.Clients = srv.Clients ∧
      (dhcpsRecvCb p after pbuf srv).2 = none) ∨
    ∃ q rep, requestOf p after srv = some q ∧
      Answer srv q (dhcpsRecvCb p after pbuf srv).1.Clients rep ∧
      (dhcpsRecvCb p after pbuf srv).2 = if pbuf then rep else none := by
  rw [dhcpsRecvCb]
  cases hq : requestOf p after srv with
  | none => exact .inl ⟨rfl, rfl, rfl⟩
  | some q =>
    obtain ⟨rep, ha, hr⟩ := handleRequest_answer { srv with msg := copyPartial p srv.msg }
      hs.oneOwner hs.noSelect pbuf q
    exact .inr ⟨q, rep, rfl, ha.of_msg, hr⟩

theorem recvCb_safe (hs : Safe addr srv.Clients) (p : List UInt8) (after : Nat → UInt8)
    (pbuf : Bool) : Safe addr (dhcpsRecvCb p after pbuf srv).1.Clients := by
  rcases recvCb_cases hs p after pbuf with ⟨-, ht, -⟩ | ⟨q, rep, -, ha, -⟩
  · rw [ht]
    exact hs
  · exact ha.safe hs

theorem tickClient_shrinks (present : Bool) (c : Client) : c.Shrinks (tickClient present c) := by
  rw [tickClient]
  cases hc : c.State with
  | IDLE => exact .refl c
  | SELECT => exact .refl c
  | REQUEST =>
    simp only
    split
    · split
      · exact ⟨rfl, .inl rfl⟩
      · exact ⟨rfl, .inr ⟨hc.symm, rfl⟩⟩
    · exact .refl c
  | BIND =>
    simp only
    split
    · split
      · exact ⟨rfl, .inl rfl⟩
      · split
        · exact ⟨rfl, .inl rfl⟩
        · exact ⟨rfl, .inr ⟨hc.symm, rfl⟩⟩
    · split
      · exact ⟨rfl, .inl rfl⟩
      · exact .refl c

theorem tickHandle_shrinks (present : Index → Bool) (srv : Server) (j : Index) :
    (srv.Clients j).Shrinks ((dhcpTickHandle present srv).Clients j) := by
  rw [dhcpTickHandle]
  split
  · exact tickClient_shrinks _ _
  · exact .refl _

theorem deleteLoop_shrinks (m : Mac) (t : Table) (is : List Index) (j : Index) :
    (t j).Shrinks ((deleteLoop m t is).1 j) := by
  induction is with
  | nil => exact .refl _
  | cons i is ih =>
    rw [deleteLoop]
    split
    · split
      · exact .refl _
      · simp only [Table.modify]
        split
        · exact ⟨rfl, .inl rfl⟩
        · exact .refl _
    · exact ih

theorem clientDelete_shrinks (mac : Option Mac) (srv : Server) (j : Index) :
    (srv.Clients j).Shrinks ((dhcpsClientDelete mac srv).1.Clients j) := by
  unfold dhcpsClientDelete
  split
  · exact .refl _
  · cases mac with
    | none => exact .refl _
    | some m => exact deleteLoop_shrinks m _ _ j

theorem step_safe {srv' : Server} {e : Event} (hs : Safe addr srv.Clients)
    (h : step srv e = some srv') : Safe addr srv'.Clients := by
  cases e with
  | recv p after pbuf =>
    cases h
    exact recvCb_safe hs p after pbuf
  | tick present =>
    cases h
    exact hs.shrink (tickHandle_shrinks present srv)
  | delete mac =>
    cases h
    exact hs.shrink (clientDelete_shrinks mac srv)

/-! ### Runs -/

/-- A state of the server in a run. -/
abbrev Reachable (ip netmask : UInt32) : Server → Prop :=
  Reach (Started ip netmask) step Anything

theorem started_eq {ip netmask : UInt32} (h : Started ip netmask srv) :
    ∃ msg, srv = { configured ip netmask msg with Enable := true } := by
  obtain ⟨up, socket, old, h⟩ := h
  rw [dhcpsStart] at h
  split at h
  · cases (Prod.mk.inj h).2
  · split at h
    · cases (Prod.mk.inj h).2
    · exact ⟨old.msg, (Prod.mk.inj h).1.symm⟩

theorem safe_started {ip netmask : UInt32} (h : Started ip netmask srv) :
    Safe (poolAddr ip netmask) srv.Clients := by
  obtain ⟨msg, rfl⟩ := started_eq h
  exact ⟨fun i j hi => absurd rfl hi, fun i hi => (nomatch hi), fun i => rfl⟩

theorem safe_reachable {ip netmask : UInt32} (h : Reachable ip netmask srv) :
    Safe (poolAddr ip netmask) srv.Clients :=
  h.invariant (I := fun srv => Safe (poolAddr ip netmask) srv.Clients)
    (fun _ hs => safe_started hs) (fun _ _ _ hs _ hstep => step_safe hs hstep)

/-! ### What an answer leaves behind -/

theorem Answer.offer_inv {rep : Reply} (ha : Answer srv q t' (some rep))
    (hty : rep.msgType = DHCP_MSG_OFFER) :
    ∃ i, q.msgType = DHCP_MSG_DISCOVER ∧
      ((srv.Clients i).State = .IDLE ∨ (srv.Clients i).Owned q.MacAddr) ∧
      t' = offered q.MacAddr i srv.Clients ∧ rep.Yiaddr = (srv.Clients i).IpAddr := by
  cases ha with
  | @offer i ht hi => exact ⟨i, ht, hi, rfl, rfl⟩
  | ack _ _ _ =>
    have hne : DHCP_MSG_ACK = DHCP_MSG_OFFER := hty
    exact absurd hne (by decide)
  | nak _ _ _ _ =>
    have hne : DHCP_MSG_NAK = DHCP_MSG_OFFER := hty
    exact absurd hne (by decide)

theorem Answer.ack_inv {rep : Reply} (ha : Answer srv q t' (some rep))
    (hty : rep.msgType = DHCP_MSG_ACK) :
    ∃ i, q.msgType = DHCP_MSG_REQUEST ∧
      Grantable srv.ServerIpAddr q.MacAddr q.reqIpAddr q.serverId srv.Clients ∧
      t' = acked q.MacAddr i srv.Clients ∧ rep.Yiaddr = (srv.Clients i).IpAddr ∧
      rep.Chaddr = q.MacAddr := by
  cases ha with
  | offer _ _ =>
    have hne : DHCP_MSG_OFFER = DHCP_MSG_ACK := hty
    exact absurd hne (by decide)
  | @ack i ht hg _ => exact ⟨i, ht, hg, rfl, rfl, rfl⟩
  | nak _ _ _ _ =>
    have hne : DHCP_MSG_NAK = DHCP_MSG_ACK := hty
    exact absurd hne (by decide)

/-- After an ACK the MAC address is in one entry only. -/
theorem acked_exact (hm : m ≠ zeroMac) (i j : Index) : (acked m i t j).MacAddr = m ↔ j = i := by
  by_cases hj : j = i
  · subst hj
    simp [acked_self]
  · rw [acked, if_neg hj]
    split
    · exact ⟨fun h => absurd h.symm hm, fun h => absurd h hj⟩
    · rename_i hne
      exact ⟨fun h => absurd h hne, fun h => absurd h hj⟩

/-- **The lease table is safe** in every state of every run: a MAC address owns at
most one entry, so that no address is offered or bound to two of them, the
addresses are those of the start, no entry is left in state SELECT, and after an
ACK the client has exactly one entry, which is bound. -/
theorem lease_table_safe {ip netmask : UInt32} (hpool : Function.Injective (poolAddr ip netmask))
    (h : Reachable ip netmask srv) :
    srv.Clients.OneOwner ∧
    (∀ i j, (srv.Clients i).State ≠ .IDLE → (srv.Clients j).State ≠ .IDLE →
      (srv.Clients i).IpAddr = (srv.Clients j).IpAddr →
      (srv.Clients i).MacAddr = (srv.Clients j).MacAddr) ∧
    (∀ i, (srv.Clients i).IpAddr = poolAddr ip netmask i) ∧
    srv.Clients.NoSelect ∧
    ∀ p after pbuf rep, (dhcpsRecvCb p after pbuf srv).2 = some rep →
      rep.msgType = DHCP_MSG_ACK → rep.Chaddr ≠ zeroMac →
      ∃ i, ((dhcpsRecvCb p after pbuf srv).1.Clients i).State = .BIND ∧
        ∀ j, ((dhcpsRecvCb p after pbuf srv).1.Clients j).MacAddr = rep.Chaddr ↔ j = i := by
  have hs := safe_reachable h
  refine ⟨hs.oneOwner, ?_, hs.ipAddr, hs.noSelect, ?_⟩
  · intro i j _ _ hip
    rw [hs.ipAddr i, hs.ipAddr j] at hip
    rw [hpool hip]
  · intro p after pbuf rep hrep hack hm
    rcases recvCb_cases hs p after pbuf with ⟨-, -, hnone⟩ | ⟨q, r, -, ha, hr⟩
    · rw [hnone] at hrep
      cases hrep
    · rw [hr] at hrep
      cases pbuf with
      | false => cases hrep
      | true =>
        rw [if_pos rfl] at hrep
        rw [hrep] at ha
        obtain ⟨i, -, -, ht, -, hc⟩ := ha.ack_inv hack
        rw [hc] at hm ⊢
        rw [ht]
        exact ⟨i, by rw [acked_self], fun j => acked_exact hm i j⟩

/-- A message of 244 bytes with no option but its type. -/
def plainMsg (mac : Mac) (msgType : UInt8) : List UInt8 :=
  [1, 1, 6, 0, 0x12, 0x34, 0x56, 0x78] ++ List.replicate 20 0 ++ mac.toList ++
    List.replicate (10 + 64 + 128) 0 ++ wordBytes (htonl DHCP_MAGIC) ++ [53, 1, msgType, 255]

/-- A server at 192.168.1.1 in a network of 254 hosts. -/
def homeServer : Server := { configured 0x0101a8c0 0x00ffffff (fun _ => 0) with Enable := true }

theorem homeServer_reachable : Reachable 0x0101a8c0 0x00ffffff homeServer :=
  .start ⟨true, true, homeServer, rfl⟩

def macA : Mac := #v[2, 0, 0, 0, 0, 0xa]

def macB : Mac := #v[2, 0, 0, 0, 0, 0xb]

/-- The server when it has offered an address to the first client. -/
def offeredServer : Server := (dhcpsRecvCb (plainMsg macA 1) (fun _ => 0) true homeServer).1

theorem offeredServer_reachable : Reachable 0x0101a8c0 0x00ffffff offeredServer :=
  homeServer_reachable.next (a := .recv (plainMsg macA 1) (fun _ => 0) true) trivial rfl

theorem lease_table_safe_acked :
    ∃ i, ((dhcpsRecvCb (plainMsg macA 3) (fun _ => 0) true offeredServer).1.Clients i).State = .BIND ∧
      ∀ j, ((dhcpsRecvCb (plainMsg macA 3) (fun _ => 0) true offeredServer).1.Clients j).MacAddr =
        macA ↔ j = i := by
  have hreq : requestOf (plainMsg macA 3) (fun _ => 0) offeredServer =
      some ⟨0x12345678, macA, 3, 0, 0⟩ := rfl
  refine (lease_table_safe (by decide) offeredServer_reachable).2.2.2.2 (plainMsg macA 3)
    (fun _ => 0) true (leaseReply offeredServer DHCP_MSG_ACK (offeredServer.Clients 0) macA 0x12345678)
    ?_ rfl (by decide)
  rw [dhcpsRecvCb, hreq]
  decide

/-! ### The reply on the wire -/

theorem htonl_bit (n : UInt32) (k : Nat) (hk : k < 32) :
    (htonl n).toBitVec.getLsbD k = n.toBitVec.getLsbD (24 - k / 8 * 8 + k % 8) := by
  have h : (htonl n).toBitVec =
      ((n.toBitVec &&& 0xff#32) <<< 24) ||| ((n.toBitVec &&& 0xff00#32) <<< 8) |||
        ((n.toBitVec &&& 0xff0000#32) >>> 8) ||| ((n.toBitVec &&& 0xff000000#32) >>> 24) := rfl
  rw [h]
  interval_cases k <;> simp

theorem htonl_htonl (n : UInt32) : htonl (htonl n) = n := by
  rw [← UInt32.toBitVec_inj]
  apply BitVec.eq_of_getLsbD_eq
  intro k hk
  rw [htonl_bit _ _ hk, htonl_bit _ _ (by omega)]
  congr 1
  omega

/-- The bits of a word, byte by byte. -/
theorem word_bit (mem : Nat → UInt8) (off : Nat) {k : Nat} (hk : k < 32) :
    (word mem off).toBitVec.getLsbD k = (mem (off + k / 8)).toBitVec.getLsbD (k % 8) := by
  simp only [word, UInt32.toBitVec_or, UInt32.toBitVec_shiftLeft, UInt8.toBitVec_toUInt32]
  interval_cases k <;> simp

theorem byte_bit (w : UInt32) {i k : Nat} (hi : i < 4) (hk : k < 8) :
    ((wordBytes w).getD i 0).toBitVec.getLsbD k = w.toBitVec.getLsbD (8 * i + k) := by
  have hshift : ∀ s : UInt32, (w >>> s).toUInt8.toBitVec.getLsbD k =
      w.toBitVec.getLsbD (s.toNat % 32 + k) := by
    intro s
    rw [UInt32.toBitVec_toUInt8, UInt32.toBitVec_shiftRight, BitVec.getLsbD_setWidth,
      decide_eq_true hk, Bool.true_and]
    exact BitVec.getLsbD_ushiftRight ..
  interval_cases i
  · change w.toUInt8.toBitVec.getLsbD k = _
    rw [UInt32.toBitVec_toUInt8, BitVec.getLsbD_setWidth, decide_eq_true hk, Bool.true_and,
      Nat.mul_zero, Nat.zero_add]
  · exact hshift 8
  · exact hshift 16
  · exact hshift 24

theorem wordBytes_word (mem : Nat → UInt8) (off : Nat) :
    wordBytes (word mem off) = [mem off, mem (off + 1), mem (off + 2), mem (off + 3)] := by
  have hbyte : ∀ i < 4, (wordBytes (word mem off)).getD i 0 = mem (off + i) := by
    intro i hi
    rw [← UInt8.toBitVec_inj]
    apply BitVec.eq_of_getLsbD_eq
    intro k hk
    have hdiv : (8 * i + k) / 8 = i := by omega
    have hmod : (8 * i + k) % 8 = k := by omega
    rw [byte_bit _ hi hk, word_bit _ _ (by omega), hdiv, hmod]
  rw [wordBytes, List.cons.injEq, List.cons.injEq, List.cons.injEq, List.cons.injEq]
  exact ⟨hbyte 0 (by decide), hbyte 1 (by decide), hbyte 2 (by decide), hbyte 3 (by decide), rfl⟩

/-- The reply repeats the transaction id and the hardware address of the message in
memory. -/
def Reply.Echoes (rep : Reply) (mem : Nat → UInt8) : Prop :=
  (rep.bytes.drop 4).take 4 = [mem 4, mem 5, mem 6, mem 7] ∧
    (rep.bytes.drop 28).take 6 = [mem 28, mem 29, mem 30, mem 31, mem 32, mem 33]

theorem bytes_xid (rep : Reply) : (rep.bytes.drop 4).take 4 = wordBytes rep.Xid := by
  rfl

theorem bytes_chaddr (rep : Reply) : (rep.bytes.drop 28).take 6 = rep.Chaddr.toList := by
  have hlen : rep.Chaddr.toList.length = 6 := Vector.length_toList
  have hdrop : rep.bytes.drop 28 = rep.Chaddr.toList ++ (List.replicate (10 + 64 + 128) 0 ++
      wordBytes (htonl DHCP_MAGIC) ++ [DHCP_OPTION_ID_MSG_TYPE, 1, rep.msgType] ++ rep.options ++
        [DHCP_OPTION_ID_END]) := by
    simp only [Reply.bytes, List.append_assoc]
    rfl
  rw [hdrop, List.take_left' hlen]

theorem requestOf_fields {p : List UInt8} {after : Nat → UInt8}
    (hq : requestOf p after srv = some q) :
    q.Xid = ntohl (word (received p after srv) 4) ∧
      q.MacAddr = .ofFn fun k => received p after srv (28 + k.val) := by
  rw [requestOf, acceptMsg] at hq
  split at hq
  · cases hq
  · simp only at hq
    split at hq
    · cases hq
    · cases hq
      exact ⟨rfl, rfl⟩

theorem Answer.echoes {p : List UInt8} {after : Nat → UInt8} {rep : Reply}
    (hq : requestOf p after srv = some q) (ha : Answer srv q t' (some rep)) :
    rep.Echoes (received p after srv) := by
  obtain ⟨hx, hm⟩ := requestOf_fields hq
  have hrep : rep.Xid = htonl q.Xid ∧ rep.Chaddr = q.MacAddr := by
    cases ha with
    | offer _ _ => exact ⟨rfl, rfl⟩
    | ack _ _ _ => exact ⟨rfl, rfl⟩
    | nak _ _ _ _ => exact ⟨rfl, rfl⟩
  refine ⟨?_, ?_⟩
  · rw [bytes_xid, hrep.1, hx, ntohl, htonl_htonl, wordBytes_word]
  · rw [bytes_chaddr, hrep.2, hm]
    rfl

/-! ### The kind of the reply -/

theorem Answer.offer_iff {rep : Option Reply} (ha : Answer srv q t' rep) :
    (∃ r, rep = some r ∧ r.msgType = DHCP_MSG_OFFER) ↔
      q.msgType = DHCP_MSG_DISCOVER ∧
        ((∃ i, (srv.Clients i).Owned q.MacAddr) ∨ ∃ i, (srv.Clients i).State = .IDLE) := by
  constructor
  · rintro ⟨r, rfl, hty⟩
    obtain ⟨i, ht, hi | hi, -, -⟩ := ha.offer_inv hty
    · exact ⟨ht, .inr ⟨i, hi⟩⟩
    · exact ⟨ht, .inl ⟨i, hi⟩⟩
  · rintro ⟨hd, hex⟩
    cases ha with
    | offer _ _ => exact ⟨_, rfl, rfl⟩
    | ack ht _ _ =>
      rw [ht] at hd
      exact absurd hd (by decide)
    | nak _ hnot _ _ =>
      obtain ⟨i, hi⟩ | ⟨i, hi⟩ := hex
      · exact absurd hi (hnot hd i).2
      · exact absurd hi (hnot hd i).1
    | silent hl =>
      rw [hd] at hl
      exact absurd hl (by decide)

theorem Answer.ack_iff {rep : Option Reply} (ha : Answer srv q t' rep) :
    (∃ r, rep = some r ∧ r.msgType = DHCP_MSG_ACK) ↔
      q.msgType = DHCP_MSG_REQUEST ∧
        Grantable srv.ServerIpAddr q.MacAddr q.reqIpAddr q.serverId srv.Clients := by
  constructor
  · rintro ⟨r, rfl, hty⟩
    obtain ⟨i, ht, hg, -⟩ := ha.ack_inv hty
    exact ⟨ht, hg⟩
  · rintro ⟨hr, hg⟩
    cases ha with
    | offer ht _ =>
      rw [ht] at hr
      exact absurd hr (by decide)
    | ack _ _ _ => exact ⟨_, rfl, rfl⟩
    | nak _ _ hnot _ => exact absurd hg (hnot hr)
    | silent hl =>
      rw [hr] at hl
      exact absurd hl (by decide)

theorem Answer.releases {rep : Option Reply} (ha : Answer srv q t' rep)
    (hl : q.msgType = DHCP_MSG_RELEASE ∨ q.msgType = DHCP_MSG_DECLINE) :
    rep = none ∧ t' = gaveUp q.MacAddr srv.Clients := by
  cases ha with
  | offer ht _ =>
    rw [ht] at hl
    exact absurd hl (by decide)
  | ack ht _ _ =>
    rw [ht] at hl
    exact absurd hl (by decide)
  | nak _ _ _ hn => exact absurd hl fun h => h.elim hn.1 hn.2
  | silent _ => exact ⟨rfl, rfl⟩

/-- **What reply a request gets.**  A datagram that passes the filters gets at most
one reply, which repeats its transaction id and its hardware address; it is an
OFFER or an ACK exactly under the conditions stated, and its address is that of
the one entry the client then owns. -/
theorem reply_law {ip netmask : UInt32} {p : List UInt8} {after : Nat → UInt8}
    (h : Reachable ip netmask srv) (hq : requestOf p after srv = some q) :
    let r := dhcpsRecvCb p after true srv
    (∀ rep, r.2 = some rep → rep.Echoes (received p after srv)) ∧
    ((∃ rep, r.2 = some rep ∧ rep.msgType = DHCP_MSG_OFFER) ↔
      q.msgType = DHCP_MSG_DISCOVER ∧
        ((∃ i, (srv.Clients i).Owned q.MacAddr) ∨ ∃ i, (srv.Clients i).State = .IDLE)) ∧
    ((∃ rep, r.2 = some rep ∧ rep.msgType = DHCP_MSG_ACK) ↔
      q.msgType = DHCP_MSG_REQUEST ∧ (q.serverId = 0 ∨ q.serverId = srv.ServerIpAddr) ∧
        (¬ ∃ i, (srv.Clients i).Taken q.MacAddr q.reqIpAddr) ∧
        ((∃ i, (srv.Clients i).Owned q.MacAddr) ∨
          ∃ i, (srv.Clients i).State = .IDLE ∧ (srv.Clients i).IpAddr = q.reqIpAddr)) ∧
    (q.msgType = DHCP_MSG_RELEASE ∨ q.msgType = DHCP_MSG_DECLINE → r.2 = none) ∧
    (∀ rep, r.2 = some rep → rep.msgType = DHCP_MSG_OFFER →
      ∃ i, (r.1.Clients i).State = .REQUEST ∧ (r.1.Clients i).MacAddr = q.MacAddr ∧
        rep.Yiaddr = (r.1.Clients i).IpAddr ∧ ∀ j, (r.1.Clients j).Owned q.MacAddr → j = i) ∧
    (∀ rep, r.2 = some rep → rep.msgType = DHCP_MSG_ACK →
      ∃ i, (r.1.Clients i).State = .BIND ∧ (r.1.Clients i).MacAddr = q.MacAddr ∧
        rep.Yiaddr = (r.1.Clients i).IpAddr ∧ ∀ j, (r.1.Clients j).Owned q.MacAddr → j = i) := by
  intro r
  have hs := safe_reachable h
  obtain ⟨rep, ha, hr⟩ : ∃ rep, Answer srv q r.1.Clients rep ∧ r.2 = rep := by
    rcases recvCb_cases hs p after true with ⟨hn, -, -⟩ | ⟨q', rep, hq', ha, hr⟩
    · rw [hq] at hn
      cases hn
    · rw [hq] at hq'
      cases hq'
      exact ⟨rep, ha, hr⟩
  rw [hr]
  refine ⟨?_, ha.offer_iff, ha.ack_iff.trans (and_congr_right fun _ => ?_),
    fun hl => (ha.releases hl).1, ?_, ?_⟩
  · rintro rep rfl
    exact ha.echoes hq
  · rw [Grantable, not_exists, exists_or, eq_comm (a := srv.ServerIpAddr)]
  · rintro rep rfl hty
    obtain ⟨i, -, -, ht, hy⟩ := ha.offer_inv hty
    rw [ht]
    refine ⟨i, by rw [offered_self], by rw [offered_self], by rw [offered_self, hy], ?_⟩
    intro j hj
    by_contra hne
    exact offered_not_owned hne hj
  · rintro rep rfl hty
    obtain ⟨i, -, -, ht, hy, -⟩ := ha.ack_inv hty
    rw [ht]
    refine ⟨i, by rw [acked_self], by rw [acked_self], by rw [acked_self, hy], ?_⟩
    intro j hj
    by_contra hne
    exact acked_not_owned hne hj

theorem reply_law_discover :
    ∃ rep, (dhcpsRecvCb (plainMsg macA 1) (fun _ => 0) true homeServer).2 = some rep ∧
      rep.msgType = DHCP_MSG_OFFER :=
  (reply_law (q := ⟨0x12345678, macA, 1, 0, 0⟩) homeServer_reachable
    (by decide)).2.1.mpr ⟨rfl, .inr ⟨0, rfl⟩⟩

/-! ### Isolation -/

theorem Answer.isolated {rep : Option Reply} (ha : Answer srv q t' rep)
    (hs : (srv.Clients j).State ≠ .IDLE) (hm : (srv.Clients j).MacAddr ≠ q.MacAddr) :
    t' j = srv.Clients j := by
  have hno : ¬ (srv.Clients j).Owned q.MacAddr := fun h => hm h.2
  have hgave : gaveUp q.MacAddr srv.Clients j = srv.Clients j := by rw [gaveUp, if_neg hno]
  cases ha with
  | @offer i _ hi =>
    have hne : j ≠ i := by
      rintro rfl
      exact hi.elim hs hno
    rw [offered, if_neg hne, if_neg hno]
  | @ack i _ _ hi =>
    have hne : j ≠ i := by
      rintro rfl
      exact hi.elim hno fun h => hs h.1
    rw [acked, if_neg hne, if_neg hm]
  | nak htab _ _ _ =>
    rcases htab with rfl | rfl
    · rfl
    · exact hgave
  | silent _ => exact hgave

/-- **Isolation of the clients.**  A datagram with the hardware address of one client
leaves every entry that another client owns as it is. -/
theorem client_isolation {ip netmask : UInt32} {p : List UInt8} {after : Nat → UInt8} {pbuf : Bool}
    (h : Reachable ip netmask srv) (hs : (srv.Clients j).State ≠ .IDLE)
    (hm : (srv.Clients j).MacAddr ≠ .ofFn fun k => received p after srv (28 + k.val)) :
    (dhcpsRecvCb p after pbuf srv).1.Clients j = srv.Clients j := by
  rcases recvCb_cases (safe_reachable h) p after pbuf with ⟨-, ht, -⟩ | ⟨q, rep, hq, ha, -⟩
  · rw [ht]
  · rw [← (requestOf_fields hq).2] at hm
    exact ha.isolated hs hm

theorem client_isolation_request :
    (dhcpsRecvCb (plainMsg macB 3) (fun _ => 0) true offeredServer).1.Clients 0 =
      offeredServer.Clients 0 :=
  client_isolation offeredServer_reachable (by decide) (by decide)

end Nl6621.Dhcp
