import Nl6621.Dhcp.Leases

/-!
# What a short datagram leaves to the last one

A datagram that is shorter than `DhcpMsg` leaves the bytes behind it as they were: those of
an earlier datagram or of the last reply.  The filters and the option parser look at the
whole buffer all the same.  `Settles p` says when the datagram `p` alone decides what
becomes of it: it is dropped on its own bytes, or its options come to an end before the
parser meets a byte that is not its own, and the values kept are its own where the type of
the message makes use of them.

`optionsSettle` follows the parser through the bytes of the datagram and says whether that
is so; `Kept` is what it knows on the way.  `Options.Alike` is what two parses of the same
datagram then have in common, and `handleRequest_alike` says that nothing else matters to
the answer.
-/

namespace Nl6621.Dhcp

open Lib

variable {srv srv' : Server} {q q' : Request} {o o' : Options} {mem mem' : Nat → UInt8} {n k p : Nat}
  {b : Nat → UInt8} {t : Kept}

/-! ### The rounds of the parser -/

/-- What the parser keeps of the option at `p`. -/
def readOption (mem : Nat → UInt8) (p : Nat) (o : Options) : Options :=
  if mem p = DHCP_OPTION_ID_MSG_TYPE then { o with msgType := mem (p + 2), ret := o.ret ||| 0x01 }
  else if mem p = DHCP_OPTION_ID_REQ_IP_ADDR then
    { o with reqIpAddr := word mem (p + 2), ret := o.ret ||| 0x02 }
  else if mem p = DHCP_OPTION_ID_SERVER_ID then
    { o with serverId := word mem (p + 2), ret := o.ret ||| 0x04 }
  else o

/-- Behind the buffer the parser stops. -/
theorem parseLoop_stop (hp : sizeofMsg ≤ p) (o : Options) : parseLoop mem k p o = o := by
  cases k with
  | zero => rfl
  | succ k => rw [parseLoop, if_neg fun h => absurd h.2 (by omega)]

theorem parseLoop_end (h : mem p = DHCP_OPTION_ID_END) (o : Options) : parseLoop mem k p o = o := by
  cases k with
  | zero => rfl
  | succ k => rw [parseLoop, if_neg fun hc => hc.1 h]

theorem parseLoop_pad (hp : p < sizeofMsg) (h : mem p = DHCP_OPTION_ID_PAD) (o : Options) :
    parseLoop mem (k + 1) p o = parseLoop mem k (p + 1) o := by
  have hgo : mem p ≠ DHCP_OPTION_ID_END ∧ p < sizeofMsg := ⟨by rw [h]; decide, hp⟩
  rw [parseLoop, if_pos hgo, if_pos h]

theorem parseLoop_option (hp : p < sizeofMsg) (h : mem p ≠ DHCP_OPTION_ID_END)
    (h' : mem p ≠ DHCP_OPTION_ID_PAD) (o : Options) :
    parseLoop mem (k + 1) p o =
      parseLoop mem k (p + 2 + (mem (p + 1)).toNat) (readOption mem p o) := by
  rw [parseLoop, if_pos ⟨h, hp⟩, if_neg h', readOption]
  simp only
  split
  · rfl
  · split
    · rfl
    · split <;> rfl

/-! ### The condition -/

/-- What is known of the message: its type, and whether the values kept for the requested
address and the server id have stale bytes. -/
structure Kept where
  msgType : UInt8
  reqStale : Bool
  idStale : Bool

/-- No stale value is made use of in a message of this type. -/
def Kept.harmless (t : Kept) : Bool :=
  (t.msgType ≠ DHCP_MSG_DISCOVER || !t.reqStale) &&
    (t.msgType ≠ DHCP_MSG_REQUEST || (!t.reqStale && !t.idStale))

/-- The four bytes from `p` on are not all the sender's own, or from behind the buffer. -/
def staleWord (n p : Nat) : Bool := p < sizeofMsg && n < p + 4

/-- `readOption` in terms of what is known. -/
def keepOption (n : Nat) (b : Nat → UInt8) (p : Nat) (t : Kept) : Kept :=
  if b p = DHCP_OPTION_ID_MSG_TYPE then { t with msgType := b (p + 2) }
  else if b p = DHCP_OPTION_ID_REQ_IP_ADDR then { t with reqStale := staleWord n (p + 2) }
  else if b p = DHCP_OPTION_ID_SERVER_ID then { t with idStale := staleWord n (p + 2) }
  else t

/-- The parser at offset `p` of a message of `n` bytes `b`. -/
def optionsSettle (n : Nat) (b : Nat → UInt8) : Nat → Nat → Kept → Bool
  | 0, _, t => t.harmless
  | k + 1, p, t =>
    if sizeofMsg ≤ p then t.harmless
    else if n ≤ p then false
    else if b p = DHCP_OPTION_ID_END then t.harmless
    else if b p = DHCP_OPTION_ID_PAD then optionsSettle n b k (p + 1) t
    else if n ≤ p + 1 then
      -- the stale length byte is the last of the buffer, so that any length ends the options
      p + 2 = sizeofMsg &&
        if b p = DHCP_OPTION_ID_MSG_TYPE then !t.reqStale && !t.idStale
        else (keepOption n b p t).harmless
    else
      (b p ≠ DHCP_OPTION_ID_MSG_TYPE || p + 2 < n) &&
        optionsSettle n b k (p + 2 + (b (p + 1)).toNat) (keepOption n b p t)

/-- The bytes of the magic number in the message. -/
def magicByte (j : Nat) : UInt8 := (wordBytes (htonl DHCP_MAGIC)).getD j 0

/-- The bytes of the datagram make the filters drop it, whatever lies behind them. -/
def Dropped (n : Nat) (b : Nat → UInt8) : Prop :=
  n = 0 ∨ b 0 ≠ DHCP_OP_REQUEST ∨ (1 < n ∧ b 1 ≠ DHCP_HWTYPE_ETHERNET) ∨
    ∃ j : Fin 4, 236 + j.val < n ∧ b (236 + j.val) ≠ magicByte j

/-- The datagram alone decides what becomes of it. -/
def Settles (d : List UInt8) : Prop :=
  sizeofMsg ≤ d.length ∨ Dropped d.length (fun k => d.getD k 0) ∨
    (optionsOffset ≤ d.length ∧
      optionsSettle d.length (fun k => d.getD k 0) (sizeofMsg - optionsOffset + 1) optionsOffset
        ⟨0xff, false, false⟩ = true)

instance (d : List UInt8) : Decidable (Settles d) := by
  unfold Settles Dropped
  infer_instance

/-! ### Two parses of one datagram -/

/-- The results agree where the type of the message makes use of them. -/
structure Options.Alike (o o' : Options) : Prop where
  msgType : o.msgType = o'.msgType
  ret : o.ret = o'.ret
  discover : o.msgType = DHCP_MSG_DISCOVER → o.reqIpAddr = o'.reqIpAddr
  request : o.msgType = DHCP_MSG_REQUEST → o.reqIpAddr = o'.reqIpAddr ∧ o.serverId = o'.serverId

/-- The two parsers have got to the same place. -/
structure Options.InStep (t : Kept) (o o' : Options) : Prop where
  left : o.msgType = t.msgType
  right : o'.msgType = t.msgType
  ret : o.ret = o'.ret
  reqIpAddr : t.reqStale = false → o.reqIpAddr = o'.reqIpAddr
  serverId : t.idStale = false → o.serverId = o'.serverId

theorem Options.InStep.alike (h : o.InStep t o') (hh : t.harmless = true) : o.Alike o' := by
  obtain ⟨ty, rs, is⟩ := t
  simp only [Kept.harmless, Bool.and_eq_true, Bool.or_eq_true, decide_eq_true_eq,
    Bool.not_eq_true'] at hh
  refine ⟨h.left.trans h.right.symm, h.ret, fun hd => ?_, fun hr => ?_⟩
  · exact h.reqIpAddr (hh.1.resolve_left fun hne => hne (h.left.symm.trans hd))
  · obtain ⟨h1, h2⟩ := hh.2.resolve_left fun hne => hne (h.left.symm.trans hr)
    exact ⟨h.reqIpAddr h1, h.serverId h2⟩

theorem word_congr {off : Nat} (h : ∀ k, off ≤ k → k < off + 4 → mem k = mem' k) :
    word mem off = word mem' off := by
  rw [word, word, h off (by omega) (by omega), h (off + 1) (by omega) (by omega),
    h (off + 2) (by omega) (by omega), h (off + 3) (by omega) (by omega)]

/-- Both memories hold the datagram, and they are the same behind the buffer. -/
structure Agree (n : Nat) (b mem mem' : Nat → UInt8) : Prop where
  left : ∀ k, k < n → mem k = b k
  right : ∀ k, k < n → mem' k = b k
  above : ∀ k, sizeofMsg ≤ k → mem k = mem' k

theorem Agree.word (h : Agree n b mem mem') (hs : staleWord n p = false) :
    word mem p = word mem' p := by
  rw [staleWord, Bool.and_eq_false_iff, decide_eq_false_iff_not, decide_eq_false_iff_not] at hs
  refine word_congr fun k h1 h2 => ?_
  by_cases hk : k < n
  · rw [h.left k hk, h.right k hk]
  · exact h.above k (by omega)

/-- An option that is not the type of the message, or whose value is in the datagram. -/
theorem Agree.readOption (h : Agree n b mem mem') (hp : p < n)
    (hty : b p ≠ DHCP_OPTION_ID_MSG_TYPE ∨ p + 2 < n) (hin : o.InStep t o') :
    (readOption mem p o).InStep (keepOption n b p t) (readOption mem' p o') := by
  rw [Dhcp.readOption, Dhcp.readOption, keepOption, h.left p hp, h.right p hp]
  by_cases h53 : b p = DHCP_OPTION_ID_MSG_TYPE
  · have hv := hty.resolve_left fun hne => hne h53
    rw [if_pos h53, if_pos h53, if_pos h53]
    exact ⟨h.left _ hv, h.right _ hv, by simp only [hin.ret], hin.reqIpAddr, hin.serverId⟩
  rw [if_neg h53, if_neg h53, if_neg h53]
  by_cases h50 : b p = DHCP_OPTION_ID_REQ_IP_ADDR
  · rw [if_pos h50, if_pos h50, if_pos h50]
    exact ⟨hin.left, hin.right, by simp only [hin.ret], h.word, hin.serverId⟩
  rw [if_neg h50, if_neg h50, if_neg h50]
  by_cases h54 : b p = DHCP_OPTION_ID_SERVER_ID
  · rw [if_pos h54, if_pos h54, if_pos h54]
    exact ⟨hin.left, hin.right, by simp only [hin.ret], hin.reqIpAddr, h.word⟩
  rw [if_neg h54, if_neg h54, if_neg h54]
  exact hin

/-- **Two parses of a datagram that settles are alike.** -/
theorem Agree.parseLoop_alike (h : Agree n b mem mem') :
    ∀ (k p : Nat) (t : Kept) (o o' : Options), o.InStep t o' → optionsSettle n b k p t = true →
      (parseLoop mem k p o).Alike (parseLoop mem' k p o') := by
  intro k
  induction k with
  | zero =>
    intro p t o o' hin hs
    exact hin.alike hs
  | succ k ih =>
    intro p t o o' hin hs
    rw [optionsSettle] at hs
    by_cases hend : sizeofMsg ≤ p
    · rw [if_pos hend] at hs
      rw [parseLoop_stop hend, parseLoop_stop hend]
      exact hin.alike hs
    rw [if_neg hend] at hs
    by_cases hown : n ≤ p
    · rw [if_pos hown] at hs
      cases hs
    rw [if_neg hown] at hs
    have hm := h.left p (by omega)
    have hm' := h.right p (by omega)
    by_cases h255 : b p = DHCP_OPTION_ID_END
    · rw [if_pos h255] at hs
      rw [parseLoop_end (hm.trans h255), parseLoop_end (hm'.trans h255)]
      exact hin.alike hs
    rw [if_neg h255] at hs
    by_cases hpad : b p = DHCP_OPTION_ID_PAD
    · rw [if_pos hpad] at hs
      rw [parseLoop_pad (by omega) (hm.trans hpad), parseLoop_pad (by omega) (hm'.trans hpad)]
      exact ih _ t o o' hin hs
    rw [if_neg hpad] at hs
    rw [parseLoop_option (by omega) (by rwa [hm]) (by rwa [hm]),
      parseLoop_option (by omega) (by rwa [hm']) (by rwa [hm'])]
    by_cases hlen : n ≤ p + 1
    · -- the length bytes differ, and both parsers stop behind the option
      rw [if_pos hlen, Bool.and_eq_true, decide_eq_true_eq] at hs
      obtain ⟨hlast, hs⟩ := hs
      rw [parseLoop_stop (by omega), parseLoop_stop (by omega)]
      by_cases h53 : b p = DHCP_OPTION_ID_MSG_TYPE
      · rw [if_pos h53, Bool.and_eq_true, Bool.not_eq_true', Bool.not_eq_true'] at hs
        rw [Dhcp.readOption, Dhcp.readOption, hm, hm', if_pos h53, if_pos h53,
          h.above (p + 2) (by omega)]
        exact ⟨rfl, by simp only [hin.ret], fun _ => hin.reqIpAddr hs.1,
          fun _ => ⟨hin.reqIpAddr hs.1, hin.serverId hs.2⟩⟩
      · rw [if_neg h53] at hs
        exact (h.readOption (by omega) (.inl h53) hin).alike hs
    · rw [if_neg hlen, Bool.and_eq_true, Bool.or_eq_true, decide_eq_true_eq,
        decide_eq_true_eq] at hs
      rw [h.left (p + 1) (by omega), h.right (p + 1) (by omega)]
      exact ih _ _ _ _ (h.readOption (by omega) hs.1 hin) hs.2

/-! ### The requests and the answers -/

/-- The requests agree in all that is made use of. -/
structure Request.Alike (q q' : Request) : Prop where
  Xid : q.Xid = q'.Xid
  MacAddr : q.MacAddr = q'.MacAddr
  msgType : q.msgType = q'.msgType
  discover : q.msgType = DHCP_MSG_DISCOVER → q.reqIpAddr = q'.reqIpAddr
  request : q.msgType = DHCP_MSG_REQUEST → q.reqIpAddr = q'.reqIpAddr ∧ q.serverId = q'.serverId

theorem Request.Alike.refl (q : Request) : q.Alike q :=
  ⟨rfl, rfl, rfl, fun _ => rfl, fun _ => ⟨rfl, rfl⟩⟩

/-- Neither memory makes a request, or both make the same one. -/
def SameRequest (r r' : Option Request) : Prop :=
  (r = none ∧ r' = none) ∨ ∃ q q', r = some q ∧ r' = some q' ∧ q.Alike q'

theorem sameRequest_self (r : Option Request) : SameRequest r r := by
  cases r with
  | none => exact .inl ⟨rfl, rfl⟩
  | some q => exact .inr ⟨q, q, rfl, rfl, .refl q⟩

/-- The bytes of a memory that holds the magic number. -/
theorem magic_bytes (h : ntohl (word mem 236) = DHCP_MAGIC) (j : Fin 4) :
    mem (236 + j.val) = magicByte j := by
  have hw : word mem 236 = htonl DHCP_MAGIC := by
    rw [← h, ntohl, htonl_htonl]
  have hb : [mem 236, mem (236 + 1), mem (236 + 2), mem (236 + 3)] = wordBytes (htonl DHCP_MAGIC) := by
    rw [← hw, wordBytes_word]
  rw [magicByte, ← hb]
  obtain ⟨j, hj⟩ := j
  interval_cases j <;> rfl

/-- A message that is dropped on its own bytes makes no request. -/
theorem acceptMsg_dropped (hm : ∀ k, k < n → mem k = b k) (hd : Dropped n b) :
    acceptMsg n mem = none := by
  rw [acceptMsg, if_pos]
  by_contra hc
  simp only [not_or, not_not] at hc
  obtain ⟨h1, h2, h3, h4⟩ := hc
  rcases hd with h | h | ⟨hlt, h⟩ | ⟨j, hlt, h⟩
  · exact h1 h
  · exact h (by rw [← hm 0 (by omega), h2])
  · exact h (by rw [← hm 1 hlt, h4])
  · exact h (by rw [← hm _ hlt, magic_bytes h3])

/-- Two memories with the fixed part of the same message and parses that are alike. -/
theorem acceptMsg_alike (hn : optionsOffset ≤ n) (h : Agree n b mem mem')
    (hp : (parseDhcpOptions mem).Alike (parseDhcpOptions mem')) :
    SameRequest (acceptMsg n mem) (acceptMsg n mem') := by
  rw [optionsOffset] at hn
  have hb : ∀ k, k < 240 → mem k = mem' k :=
    fun k hk => (h.left k (by omega)).trans (h.right k (by omega)).symm
  have hmagic : word mem 236 = word mem' 236 := word_congr fun k _ hk => hb k (by omega)
  have hxid : word mem 4 = word mem' 4 := word_congr fun k _ hk => hb k (by omega)
  have hmac : (Vector.ofFn fun k : Fin 6 => mem (28 + k.val)) =
      Vector.ofFn fun k : Fin 6 => mem' (28 + k.val) := by
    congr 1
    funext k
    exact hb _ (by omega)
  rw [acceptMsg, acceptMsg, hb 0 (by omega), hb 1 (by omega), hmagic, hxid, hmac]
  split
  · exact .inl ⟨rfl, rfl⟩
  · simp only [hp.ret]
    split
    · exact .inl ⟨rfl, rfl⟩
    · exact .inr ⟨_, _, rfl, rfl, rfl, rfl, hp.msgType, hp.discover, hp.request⟩

/-- The lookup makes use of nothing else. -/
theorem lookup_alike {t : Table} (ho : t.OneOwner) (srvIp : UInt32) (h : q.Alike q') :
    clientTableLookup srvIp q.MacAddr q.msgType q.reqIpAddr q.serverId t =
      clientTableLookup srvIp q'.MacAddr q'.msgType q'.reqIpAddr q'.serverId t := by
  rw [← h.MacAddr, ← h.msgType]
  by_cases hd : q.msgType = DHCP_MSG_DISCOVER
  · rw [clientTableLookup, clientTableLookup, lookupSwitch, lookupSwitch, if_pos hd, if_pos hd,
      h.discover hd]
  by_cases hr : q.msgType = DHCP_MSG_REQUEST
  · rw [(h.request hr).1, (h.request hr).2]
  rw [clientTableLookup, clientTableLookup, lookupSwitch, lookupSwitch, if_neg hd, if_neg hd,
    if_neg hr, if_neg hr]
  have hrel := lookupRelease_eq (m := q.MacAddr) ho
  split
  · rw [hrel, hrel]
  · split
    · rw [hrel, hrel]
    · rfl

/-- The callback has the same effect up to the message buffer. -/
def SameEffect (r r' : Server × Option Reply) : Prop := r.1.Clients = r'.1.Clients ∧ r.2 = r'.2

theorem handleRequest_msg (pbuf : Bool) (q : Request) (srv : Server) (msg : Nat → UInt8) :
    SameEffect (handleRequest pbuf q { srv with msg := msg }) (handleRequest pbuf q srv) := by
  rw [handleRequest, handleRequest]
  simp only
  split
  · split
    · cases pbuf <;> exact ⟨rfl, rfl⟩
    · exact ⟨rfl, rfl⟩
  · rw [dhcpClientSMEHandle, dhcpClientSMEHandle]
    simp only
    split
    · split
      · cases pbuf <;> exact ⟨rfl, rfl⟩
      · split <;> cases pbuf <;> exact ⟨rfl, rfl⟩
    all_goals cases pbuf <;> exact ⟨rfl, rfl⟩

/-- **Requests that are alike get the same answer.** -/
theorem handleRequest_alike (pbuf : Bool) (ho : srv.Clients.OneOwner) (h : q.Alike q') :
    handleRequest pbuf q srv = handleRequest pbuf q' srv := by
  rw [handleRequest, handleRequest, lookup_alike ho srv.ServerIpAddr h, h.msgType, h.Xid, h.MacAddr]

/-! ### The histories -/

/-- What no event changes. -/
def Server.config (srv : Server) : Bool × UInt32 × UInt32 × UInt32 × UInt32 :=
  (srv.Enable, srv.ServerIpAddr, srv.SubnetMask, srv.GateWay, srv.Dns1)

theorem handleRequest_config (pbuf : Bool) (q : Request) (srv : Server) :
    (handleRequest pbuf q srv).1.config = srv.config := by
  rw [handleRequest]
  split
  · split
    · cases pbuf <;> rfl
    · rfl
  · rw [dhcpClientSMEHandle]
    split
    · split
      · cases pbuf <;> rfl
      · split <;> cases pbuf <;> rfl
    all_goals cases pbuf <;> rfl

theorem step_config {e : Event} (h : step srv e = some srv') : srv'.config = srv.config := by
  cases e with
  | recv d after pbuf =>
    cases h
    rw [dhcpsRecvCb]
    split
    · rfl
    · exact handleRequest_config pbuf _ _
  | tick present =>
    cases h
    rw [dhcpTickHandle]
    split <;> rfl
  | delete mac =>
    cases h
    unfold dhcpsClientDelete
    split
    · rfl
    · cases mac <;> rfl

theorem reachable_config {ip netmask : UInt32} (h : Reachable ip netmask srv) :
    srv.config = (true, ip, netmask, ip, ip) := by
  refine h.invariant (I := fun srv => srv.config = (true, ip, netmask, ip, ip)) ?_ ?_
  · intro s hs
    obtain ⟨msg, rfl⟩ := started_eq hs
    rfl
  · intro s e s' hs _ hstep
    rw [step_config hstep, hs]

/-- Two servers with the same table differ in the message buffer only. -/
theorem reachable_eq {ip netmask : UInt32} (h : Reachable ip netmask srv)
    (h' : Reachable ip netmask srv') (ht : srv.Clients = srv'.Clients) :
    srv' = { srv with msg := srv'.msg } := by
  have hc := (reachable_config h).trans (reachable_config h').symm
  cases srv
  cases srv'
  simp only [Server.config, Prod.mk.injEq] at hc ht
  obtain ⟨rfl, rfl, rfl, rfl, rfl⟩ := hc
  subst ht
  rfl

/-- Whatever was received and sent before, with the same table the datagram has the same
effect. -/
def Independent (ip netmask : UInt32) (d : List UInt8) : Prop :=
  ∀ srv srv', Reachable ip netmask srv → Reachable ip netmask srv' → srv.Clients = srv'.Clients →
    ∀ after pbuf, SameEffect (dhcpsRecvCb d after pbuf srv) (dhcpsRecvCb d after pbuf srv')

/-- The effect of a datagram is that of the request it makes. -/
theorem sameEffect_of_request {d : List UInt8} {after : Nat → UInt8} (pbuf : Bool)
    (ho : srv.Clients.OneOwner) (hsrv : srv' = { srv with msg := srv'.msg })
    (hr : SameRequest (requestOf d after srv) (requestOf d after srv')) :
    SameEffect (dhcpsRecvCb d after pbuf srv) (dhcpsRecvCb d after pbuf srv') := by
  rcases hr with ⟨hn, hn'⟩ | ⟨q, q', hq, hq', ha⟩
  · rw [dhcpsRecvCb, dhcpsRecvCb, hn, hn']
    refine ⟨?_, rfl⟩
    rw [hsrv]
  · rw [dhcpsRecvCb, dhcpsRecvCb, hq, hq']
    have h1 := handleRequest_msg pbuf q srv (copyPartial d srv.msg)
    have h2 := handleRequest_msg pbuf q' srv (copyPartial d srv'.msg)
    rw [handleRequest_alike pbuf ho ha] at h1
    have hsrv' : { srv' with msg := copyPartial d srv'.msg } =
        { srv with msg := copyPartial d srv'.msg } := by
      rw [hsrv]
    simp only [hsrv']
    exact ⟨h1.1.trans h2.1.symm, h1.2.trans h2.2.symm⟩

theorem received_own {d : List UInt8} {after : Nat → UInt8} {k : Nat} (hk : k < d.length)
    (hk' : k < sizeofMsg) : received d after srv k = d.getD k 0 := by
  rw [received, if_pos hk', copyPartial, if_pos (by omega)]

theorem received_above {d : List UInt8} {after : Nat → UInt8} {k : Nat} (hk : sizeofMsg ≤ k) :
    received d after srv k = after k := by
  rw [received, if_neg (by omega)]

/-- **A datagram that settles makes the same request whatever was left in the buffer.** -/
theorem requestOf_settles {d : List UInt8} (hs : Settles d) (after : Nat → UInt8)
    (srv srv' : Server) : SameRequest (requestOf d after srv) (requestOf d after srv') := by
  by_cases hlen : sizeofMsg ≤ d.length
  · have hrec : received d after srv = received d after srv' := by
      funext k
      by_cases hk : k < sizeofMsg
      · rw [received_own (by omega) hk, received_own (by omega) hk]
      · rw [received_above (by omega), received_above (by omega)]
    rw [requestOf, requestOf, hrec]
    exact sameRequest_self _
  have hag : Agree d.length (fun k => d.getD k 0) (received d after srv) (received d after srv') :=
    ⟨fun k hk => received_own hk (by omega), fun k hk => received_own hk (by omega),
      fun k hk => by rw [received_above hk, received_above hk]⟩
  rw [requestOf, requestOf, Nat.min_eq_left (by omega)]
  rcases hs with h | h | ⟨hoff, h⟩
  · exact absurd h hlen
  · exact .inl ⟨acceptMsg_dropped hag.left h, acceptMsg_dropped hag.right h⟩
  · exact acceptMsg_alike hoff hag
      (hag.parseLoop_alike _ _ ⟨0xff, false, false⟩ _ _ ⟨rfl, rfl, rfl, fun _ => rfl, fun _ => rfl⟩ h)

theorem independent_of_settles {ip netmask : UInt32} {d : List UInt8} (hs : Settles d) :
    Independent ip netmask d := by
  intro srv srv' h h' ht after pbuf
  exact sameEffect_of_request pbuf (safe_reachable h).oneOwner (reachable_eq h h' ht)
    (requestOf_settles hs after srv srv')

end Nl6621.Dhcp
