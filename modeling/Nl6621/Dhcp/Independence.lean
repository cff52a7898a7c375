import Nl6621.Dhcp.Leak
import Mathlib.Algebra.Group.Nat.Defs

/-!
# Which datagrams depend on the last one

`datagrams_independent` joins the two directions: a datagram has the same effect after every
history that leads to the same table if and only if it settles.  What is left to show is that
the leaks of the parser reach the outside: `Independent` for all networks is tried on a
server in which the client owns one entry and all others are idle (`Alone`).  There a stale
requested address is seen in whether the client loses its entry (`request_moves`), and a stale
server id in whether it gets an ACK.
-/

set_option maxRecDepth 4000

namespace Nl6621.Dhcp

open Lib

variable {srv srv' : Server} {q q' : Request} {n k p : Nat} {b s s' : Nat → UInt8}
  {d : List UInt8} {ip netmask : UInt32} {m : Mac} {i j : Index} {t : Table} {r : UInt32}

/-! ### Any content of the buffer -/

/-- A datagram that is dropped and stays in the buffer. -/
def junk (s : Nat → UInt8) : List UInt8 := (List.range sizeofMsg).map fun k => if k = 0 then 0 else s k

theorem junk_getD (hk : 0 < k) (hlt : k < sizeofMsg) : (junk s).getD k 0 = s k := by
  simp [junk, hlt, Nat.ne_of_gt hk]

theorem requestOf_junk (after : Nat → UInt8) : requestOf (junk s) after srv = none := by
  have hlen : (junk s).length = sizeofMsg := by simp [junk]
  have hown : ∀ k, k < sizeofMsg → received (junk s) after srv k = (junk s).getD k 0 :=
    fun k hk => received_own (by omega) hk
  have hop : (junk s).getD 0 0 = 0 := by simp [junk, sizeofMsg]
  rw [requestOf, hlen, Nat.min_self]
  refine acceptMsg_dropped hown (.inr (.inl ?_))
  simp only [hop]
  decide

/-- With the same table the buffer can hold anything. -/
theorem exists_stale (h : Reachable ip netmask srv) (s : Nat → UInt8) :
    ∃ srv', Reachable ip netmask srv' ∧ srv'.Clients = srv.Clients ∧
      ∀ k, 0 < k → k < sizeofMsg → srv'.msg k = s k := by
  have heq : (dhcpsRecvCb (junk s) (fun _ => 0) true srv).1 =
      { srv with msg := copyPartial (junk s) srv.msg } := by
    rw [dhcpsRecvCb, requestOf_junk]
  refine ⟨_, h.next (a := .recv (junk s) (fun _ => 0) true) trivial rfl, ?_, fun k h0 hk => ?_⟩
  · rw [heq]
  · have hlen : (junk s).length = sizeofMsg := by simp [junk]
    rw [heq]
    simp only [copyPartial]
    rw [if_pos (by omega), junk_getD h0 hk]

/-- The effect of a message is that of its request. -/
def effect (srv : Server) : Option Request → Table × Option Reply
  | none => (srv.Clients, none)
  | some q => ((handleRequest true q srv).1.Clients, (handleRequest true q srv).2)

theorem recvCb_effect (after : Nat → UInt8) (hsrv : srv' = { srv with msg := srv'.msg }) :
    ((dhcpsRecvCb d after true srv').1.Clients, (dhcpsRecvCb d after true srv').2) =
      effect srv (requestOf d after srv') := by
  rw [dhcpsRecvCb]
  cases hq : requestOf d after srv' with
  | none =>
    rw [effect]
    simp only
    rw [hsrv]
  | some q =>
    have hmsg : { srv' with msg := copyPartial d srv'.msg } =
        { srv with msg := copyPartial d srv'.msg } := by rw [hsrv]
    have h := handleRequest_msg true q srv (copyPartial d srv'.msg)
    simp only [hmsg, effect]
    rw [h.1, h.2]

theorem received_filled (h0 : 0 < d.length) (hlt : d.length < sizeofMsg)
    (hs : ∀ k, 0 < k → k < sizeofMsg → srv.msg k = s k) :
    received d s srv = filled d.length (fun k => d.getD k 0) s := by
  funext k
  by_cases hk : k < d.length
  · rw [received_own hk (by omega), filled_own hk]
  · rw [filled_stale (by omega), received]
    split
    · rw [copyPartial, if_neg (by omega)]
      exact hs k (by omega) (by assumption)
    · rfl

/-- **A datagram that is independent has the same effect on any two contents of the buffer.** -/
theorem Independent.effect_eq (h : Independent ip netmask d) (hr : Reachable ip netmask srv)
    (h0 : 0 < d.length) (hlt : d.length < sizeofMsg) (habove : ∀ k, sizeofMsg ≤ k → s k = s' k) :
    effect srv (acceptMsg d.length (filled d.length (fun k => d.getD k 0) s)) =
      effect srv (acceptMsg d.length (filled d.length (fun k => d.getD k 0) s')) := by
  obtain ⟨srv₁, hr₁, ht₁, hs₁⟩ := exists_stale hr s
  obtain ⟨srv₂, hr₂, ht₂, hs₂⟩ := exists_stale hr s'
  have hind := h srv₁ srv₂ hr₁ hr₂ (ht₁.trans ht₂.symm) s true
  have he₁ := recvCb_effect (d := d) s (reachable_eq hr hr₁ ht₁.symm)
  have he₂ := recvCb_effect (d := d) s (reachable_eq hr hr₂ ht₂.symm)
  have hrec : received d s srv₂ = filled d.length (fun k => d.getD k 0) s' := by
    have hsame : received d s srv₂ = received d s' srv₂ := by
      funext k
      by_cases hk : k < sizeofMsg
      · rw [received, received, if_pos hk, if_pos hk]
      · rw [received_above (by omega), received_above (by omega), habove k (by omega)]
    rw [hsame, received_filled h0 hlt hs₂]
  rw [requestOf, Nat.min_eq_left (by omega), received_filled h0 hlt hs₁] at he₁
  rw [requestOf, Nat.min_eq_left (by omega), hrec] at he₂
  rw [← he₁, ← he₂, hind.1, hind.2]

/-! ### Messages that pass the filters -/

/-- The fixed part of the message is that of a request. -/
structure Passes (mem : Nat → UInt8) : Prop where
  op : mem 0 = DHCP_OP_REQUEST
  hwtype : mem 1 = DHCP_HWTYPE_ETHERNET
  magic : ∀ j : Fin 4, mem (236 + j.val) = magicByte j

/-- The request in the memory, with the result of the parser. -/
def requestAt (mem : Nat → UInt8) (o : Options) : Request where
  Xid := ntohl (word mem 4)
  MacAddr := .ofFn fun k => mem (28 + k.val)
  msgType := o.msgType
  reqIpAddr := o.reqIpAddr
  serverId := o.serverId

theorem word_of_bytes {mem : Nat → UInt8} {off : Nat} {w : UInt32}
    (h : ∀ j : Fin 4, mem (off + j.val) = (wordBytes w).getD j 0) : word mem off = w := by
  rw [← UInt32.toBitVec_inj]
  apply BitVec.eq_of_getLsbD_eq
  intro k hk
  have hbyte : k / 8 < 4 := by omega
  have hm : mem (off + k / 8) = (wordBytes w).getD (k / 8) 0 := h ⟨k / 8, hbyte⟩
  rw [word_bit _ _ hk, hm, byte_bit _ hbyte (Nat.mod_lt k (by decide)), Nat.div_add_mod]

theorem Passes.accept {mem : Nat → UInt8} (h : Passes mem) (hn : 0 < n) :
    acceptMsg n mem = if (parseDhcpOptions mem).ret &&& 0x01 = 0 then none
      else some (requestAt mem (parseDhcpOptions mem)) := by
  have hmagic : ntohl (word mem 236) = DHCP_MAGIC := by
    rw [word_of_bytes h.magic, ntohl, htonl_htonl]
  rw [acceptMsg, if_neg]
  · rfl
  · rw [h.op, h.hwtype, hmagic]
    simp
    omega

/-- There is a reply if and only if the type of the message asks for one. -/
theorem effect_replies {addr : Index → UInt32} (hs : Safe addr srv.Clients) {mem : Nat → UInt8}
    (h : Passes mem) (hn : 0 < n) :
    (effect srv (acceptMsg n mem)).2.isSome = (parseDhcpOptions mem).replies := by
  rw [h.accept hn, Options.replies]
  split
  · rename_i hz
    rw [hz]
    rfl
  · rename_i hz
    obtain ⟨rep, ha, hr⟩ := handleRequest_answer srv hs.oneOwner hs.noSelect true
      (requestAt mem (parseDhcpOptions mem))
    rw [effect, hr, if_pos rfl]
    simp only [ne_eq, hz, not_false_eq_true, decide_true, Bool.true_and]
    have hty : (requestAt mem (parseDhcpOptions mem)).msgType = (parseDhcpOptions mem).msgType := rfl
    generalize (handleRequest true (requestAt mem (parseDhcpOptions mem)) srv).1.Clients = T at ha
    cases ha with
    | offer ht _ =>
      rw [← hty, ht]
      rfl
    | ack ht _ _ =>
      rw [← hty, ht]
      rfl
    | nak _ _ _ hl =>
      rw [hty] at hl
      simp [hl.1, hl.2]
    | silent hl =>
      rw [hty] at hl
      rcases hl with hl | hl
      · rw [hl]
        rfl
      · rw [hl]
        rfl

/-! ### A client alone in the table -/

/-- Entry `i` is the client's, and all others are idle. -/
structure Alone (m : Mac) (i : Index) (t : Table) : Prop where
  request : (t i).State = .REQUEST
  mac : (t i).MacAddr = m
  idle : ∀ j, j ≠ i → (t j).State = .IDLE

theorem Alone.owned (h : Alone m i t) : (t i).Owned m := ⟨by rw [h.request]; decide, h.mac⟩

theorem Alone.not_taken (h : Alone m i t) (r : UInt32) : ∀ j, ¬ (t j).Taken m r := by
  intro j hj
  by_cases hji : j = i
  · subst hji
    exact hj.2.1 h.mac
  · exact hj.1 (h.idle j hji)

/-- The bytes of a DISCOVER that asks for `r`, with the fixed part of `mem`. -/
def discoverBytes (mem : Nat → UInt8) (r : UInt32) : Nat → UInt8 := fun k =>
  if k < optionsOffset then mem k else
    ([DHCP_OPTION_ID_MSG_TYPE, 1, DHCP_MSG_DISCOVER] ++ wordOption DHCP_OPTION_ID_REQ_IP_ADDR r).getD
      (k - optionsOffset) DHCP_OPTION_ID_END

theorem discoverBytes_options (mem : Nat → UInt8) (r : UInt32) (k : Nat) :
    discoverBytes mem r (240 + k) =
      ([DHCP_OPTION_ID_MSG_TYPE, 1, DHCP_MSG_DISCOVER] ++
        wordOption DHCP_OPTION_ID_REQ_IP_ADDR r).getD k DHCP_OPTION_ID_END := by
  rw [discoverBytes, optionsOffset, if_neg (by omega), Nat.add_sub_cancel_left]

theorem discoverBytes_fixed (mem : Nat → UInt8) (r : UInt32) (hk : k < 240) :
    discoverBytes mem r k = mem k := if_pos hk

theorem parse_discoverBytes (mem : Nat → UInt8) (r : UInt32) :
    parseDhcpOptions (discoverBytes mem r) = ⟨DHCP_MSG_DISCOVER, r, 0, 0x03⟩ := by
  have hw : word (discoverBytes mem r) 245 = r := by
    apply word_of_bytes
    intro j
    rw [show 245 + j.val = 240 + (5 + j.val) by omega, discoverBytes_options]
    match j with
    | 0 => rfl
    | 1 => rfl
    | 2 => rfl
    | 3 => rfl
  have h53 : discoverBytes mem r 240 = DHCP_OPTION_ID_MSG_TYPE := discoverBytes_options mem r 0
  have h50 : discoverBytes mem r 243 = DHCP_OPTION_ID_REQ_IP_ADDR := discoverBytes_options mem r 3
  have hlen : discoverBytes mem r 241 = 1 ∧ discoverBytes mem r 244 = 4 :=
    ⟨discoverBytes_options mem r 1, discoverBytes_options mem r 4⟩
  have hty : discoverBytes mem r 242 = DHCP_MSG_DISCOVER := discoverBytes_options mem r 2
  have hend : discoverBytes mem r 249 = DHCP_OPTION_ID_END := discoverBytes_options mem r 9
  have hn : (240 + 2 + (1 : UInt8).toNat = 243) ∧ (243 + 2 + (4 : UInt8).toNat = 249) := ⟨rfl, rfl⟩
  rw [parseDhcpOptions, sizeofMsg, optionsOffset]
  change parseLoop _ (308 + 1) 240 _ = _
  rw [parseLoop_option (by decide) (by rw [h53]; decide) (by rw [h53]; decide), hlen.1, hn.1,
    readOption_type h53, hty]
  change parseLoop _ (307 + 1) 243 _ = _
  rw [parseLoop_option (by decide) (by rw [h50]; decide) (by rw [h50]; decide), hlen.2, hn.2,
    parseLoop_end hend, readOption, h50, if_neg (by decide), if_pos rfl, hw]
  rfl

/-- A client can come to be alone in the table, with the first address of the pool. -/
theorem exists_alone (ip netmask : UInt32) {mem : Nat → UInt8} (h : Passes mem) :
    ∃ srv i, Reachable ip netmask srv ∧ (srv.Clients i).IpAddr = poolAddr ip netmask 0 ∧
      Alone (.ofFn fun k => mem (28 + k.val)) i srv.Clients := by
  let srv : Server := { configured ip netmask (fun _ => 0) with Enable := true }
  let f := discoverBytes mem (poolAddr ip netmask 0)
  let d := (List.range sizeofMsg).map f
  have hr : Reachable ip netmask srv := .start ⟨true, true, { srv with msg := fun _ => 0 }, rfl⟩
  have hrec : received d f srv = f := by
    funext k
    by_cases hk : k < sizeofMsg
    · rw [received_own (by simpa [d] using hk) hk]
      simp [d, hk]
    · rw [received_above (by omega)]
  have hpass : Passes f := by
    refine ⟨(discoverBytes_fixed mem _ (by omega)).trans h.op,
      (discoverBytes_fixed mem _ (by omega)).trans h.hwtype, fun j => ?_⟩
    exact (discoverBytes_fixed mem _ (by omega)).trans (h.magic j)
  have hq : requestOf d f srv =
      some (requestAt f ⟨DHCP_MSG_DISCOVER, poolAddr ip netmask 0, 0, 3⟩) := by
    have hparse : parseDhcpOptions f = ⟨DHCP_MSG_DISCOVER, poolAddr ip netmask 0, 0, 3⟩ :=
      parse_discoverBytes mem _
    rw [requestOf, hrec, hpass.accept (by simp [d, sizeofMsg]), hparse]
    have h3 : ¬ (3 : UInt8) &&& 0x01 = 0 := by decide
    exact if_neg h3
  have hmac : (requestAt f ⟨DHCP_MSG_DISCOVER, poolAddr ip netmask 0, 0, 3⟩).MacAddr =
      .ofFn fun k : Fin 6 => mem (28 + k.val) := by
    have hf : ∀ k : Fin 6, f (28 + k.val) = mem (28 + k.val) :=
      fun k => discoverBytes_fixed mem _ (by omega)
    simp only [requestAt, hf]
  have ho : srv.Clients.OneOwner := fun i j hi => absurd rfl hi
  obtain ⟨i, hi, hl⟩ := lookup_discover_req
    (m := (requestAt f ⟨DHCP_MSG_DISCOVER, poolAddr ip netmask 0, 0, 3⟩).MacAddr) ho
    ⟨0, rfl, rfl⟩ srv.ServerIpAddr 0
  have hcl := (recvCb_discover true hq rfl hl).1
  refine ⟨_, i, hr.next (a := .recv d f true) trivial rfl, ?_, ?_⟩
  · rw [hcl, offered_self]
    exact hi.2
  · rw [hcl, hmac]
    refine ⟨by rw [offered_self], by rw [offered_self], fun j hj => ?_⟩
    rw [offered, if_neg hj]
    split <;> rfl

/-! ### What is seen of a stale value -/

/-- The lookup for a REQUEST of the client that is alone. -/
theorem lookup_request_alone (ho : t.OneOwner) (h : Alone m i t) (srvIp r x : UInt32) :
    ((∃ j, (t j).State = .IDLE ∧ (t j).IpAddr = r) →
      (∃ j, j ≠ i ∧
        clientTableLookup srvIp m DHCP_MSG_REQUEST r x t = (some j, requested m j t)) ∨
      clientTableLookup srvIp m DHCP_MSG_REQUEST r x t = (none, gaveUp m t)) ∧
    ((∀ j, ¬ ((t j).State = .IDLE ∧ (t j).IpAddr = r)) →
      clientTableLookup srvIp m DHCP_MSG_REQUEST r x t = (some i, requested m i t) ∨
      clientTableLookup srvIp m DHCP_MSG_REQUEST r x t = (none, t)) := by
  have hl := lookup_requests (m := m) ho srvIp r x
  generalize clientTableLookup srvIp m DHCP_MSG_REQUEST r x t = res at hl ⊢
  constructor
  · rintro ⟨j, hj⟩
    cases hl with
    | req _ _ hi => exact .inl ⟨_, fun he => h.owned.not_idle (he ▸ hi.1), rfl⟩
    | my _ _ hno => exact absurd hj (hno j)
    | gaveUp _ => exact .inr rfl
    | none _ hno => exact absurd hj (hno j)
  · intro hno
    cases hl with
    | req _ _ hi => exact absurd hi (hno _)
    | my _ _ _ hi => exact .inl (by rw [ho.eq hi h.owned])
    | gaveUp hg =>
      rcases hg with ⟨j, hj⟩ | ⟨-, j, hj⟩
      · exact absurd hj (h.not_taken r j)
      · exact absurd hj (hno j)
    | none _ _ _ => exact .inr rfl

/-- **A client that is alone is moved if and only if it asks for a free address.** -/
theorem request_moves {addr : Index → UInt32} (hs : Safe addr srv.Clients)
    (h : Alone q.MacAddr i srv.Clients)
    (hty : q.msgType = DHCP_MSG_DISCOVER ∨ q.msgType = DHCP_MSG_REQUEST) :
    ((handleRequest true q srv).1.Clients i).State = .IDLE ↔
      ∃ j, (srv.Clients j).State = .IDLE ∧ (srv.Clients j).IpAddr = q.reqIpAddr := by
  have hoffer : ∀ j, clientTableLookup srv.ServerIpAddr q.MacAddr q.msgType q.reqIpAddr q.serverId
      srv.Clients = (some j, discovered q.MacAddr j srv.Clients) →
      q.msgType = DHCP_MSG_DISCOVER →
      (handleRequest true q srv).1.Clients = offered q.MacAddr j srv.Clients := by
    intro j hl hd
    have hsme := smeHandle_discover (m := q.MacAddr) true j q.Xid srv
    rw [← hd] at hsme
    rw [handleRequest_some true hl]
    exact hsme.1
  have hack : ∀ j, clientTableLookup srv.ServerIpAddr q.MacAddr q.msgType q.reqIpAddr q.serverId
      srv.Clients = (some j, requested q.MacAddr j srv.Clients) →
      q.msgType = DHCP_MSG_REQUEST →
      (handleRequest true q srv).1.Clients = acked q.MacAddr j srv.Clients := by
    intro j hl hr
    have hsme := smeHandle_request (m := q.MacAddr) true j q.Xid srv (hs.noSelect j)
    rw [← hr] at hsme
    rw [handleRequest_some true hl]
    exact hsme.1
  by_cases hreq : ∃ j, (srv.Clients j).State = .IDLE ∧ (srv.Clients j).IpAddr = q.reqIpAddr
  · refine ⟨fun _ => hreq, fun _ => ?_⟩
    rcases hty with hd | hr
    · obtain ⟨j, hj, hl⟩ :=
        lookup_discover_req (m := q.MacAddr) hs.oneOwner hreq srv.ServerIpAddr q.serverId
      rw [← hd] at hl
      have hne : i ≠ j := fun he => h.owned.not_idle (he ▸ hj.1)
      rw [hoffer j hl hd, offered, if_neg hne, if_pos h.owned]
    · have hl := (lookup_request_alone hs.oneOwner h srv.ServerIpAddr q.reqIpAddr q.serverId).1 hreq
      rw [← hr] at hl
      rcases hl with ⟨j, hne, hl⟩ | hl
      · rw [hack j hl hr, acked, if_neg hne.symm, if_pos h.mac]
      · rw [(handleRequest_none true hl).1, gaveUp, if_pos h.owned]
        rfl
  · refine ⟨fun hi => ?_, fun he => absurd he hreq⟩
    have hnone : ∀ j, ¬ ((srv.Clients j).State = .IDLE ∧ (srv.Clients j).IpAddr = q.reqIpAddr) :=
      fun j hj => hreq ⟨j, hj⟩
    rcases hty with hd | hr
    · have hl := lookup_discover_my hs.oneOwner h.owned hnone srv.ServerIpAddr q.serverId
      rw [← hd] at hl
      rw [hoffer i hl hd, offered_self] at hi
      cases hi
    · have hl := (lookup_request_alone hs.oneOwner h srv.ServerIpAddr q.reqIpAddr q.serverId).2 hnone
      rw [← hr] at hl
      rcases hl with hl | hl
      · rw [hack i hl hr, acked_self] at hi
        cases hi
      · rw [(handleRequest_none true hl).1, h.request] at hi
        cases hi

/-- **A client that is alone gets an ACK if and only if it means this server or none.** -/
theorem request_acked {addr : Index → UInt32} (hs : Safe addr srv.Clients)
    (h : Alone q.MacAddr i srv.Clients) (hty : q.msgType = DHCP_MSG_REQUEST) :
    (∃ rep, (handleRequest true q srv).2 = some rep ∧ rep.msgType = DHCP_MSG_ACK) ↔
      q.serverId = 0 ∨ srv.ServerIpAddr = q.serverId := by
  obtain ⟨rep, ha, hr⟩ := handleRequest_answer srv hs.oneOwner hs.noSelect true q
  rw [hr, if_pos rfl, ha.ack_iff]
  exact ⟨fun hg => hg.2.1, fun hx => ⟨hty, hx, h.not_taken _, i, .inl h.owned⟩⟩

/-! ### Words as numbers -/

/-- The number in network order at an address. -/
theorem ntohl_word (mem : Nat → UInt8) (a : Nat) : (ntohl (word mem a)).toNat =
    (mem a).toNat * 2 ^ 24 + (mem (a + 1)).toNat * 2 ^ 16 + (mem (a + 2)).toNat * 2 ^ 8 +
      (mem (a + 3)).toNat := by
  have hbits : (ntohl (word mem a)).toBitVec = (((mem a).toBitVec ++ (mem (a + 1)).toBitVec) ++
      ((mem (a + 2)).toBitVec ++ (mem (a + 3)).toBitVec) : BitVec 32) := by
    apply BitVec.eq_of_getLsbD_eq
    intro i hi
    rw [ntohl, htonl_bit _ _ hi, word_bit _ _ (by omega)]
    refine Eq.trans ?_ (BitVec.getLsbD_append (n := 8 + 8) (m := 8 + 8)).symm
    rw [BitVec.getLsbD_append, BitVec.getLsbD_append]
    interval_cases i <;> rfl
  have h0 := (mem a).toBitVec.isLt
  have h1 := (mem (a + 1)).toBitVec.isLt
  have h2 := (mem (a + 2)).toBitVec.isLt
  have h3 := (mem (a + 3)).toBitVec.isLt
  have hcat : ∀ {v w : Nat} (x : BitVec v) (y : BitVec w),
      (x ++ y).toNat = x.toNat * 2 ^ w + y.toNat := by
    intro v w x y
    rw [BitVec.toNat_append, ← Nat.shiftLeft_add_eq_or_of_lt y.isLt, Nat.shiftLeft_eq]
  rw [← UInt32.toNat_toBitVec, hbits, hcat, hcat, hcat]
  simp only [UInt8.toNat_toBitVec]
  omega

theorem poolHost_zero {tmp i : UInt32} (h0 : 0 < tmp.toNat + i.toNat)
    (h : tmp.toNat + i.toNat < 2 ^ 32 - 1) : poolHost 0 tmp i = tmp + i := by
  have hadd : (tmp + i).toNat = tmp.toNat + i.toNat := by
    rw [UInt32.toNat_add, Nat.mod_eq_of_lt (by omega)]
  have hmod : (tmp + i) % ~~~0 = tmp + i := by
    rw [← UInt32.toNat_inj, UInt32.toNat_mod, hadd]
    exact Nat.mod_eq_of_lt h
  have hne : tmp + i ≠ 0 := by
    intro he
    rw [he] at hadd
    have : (0 : UInt32).toNat = 0 := rfl
    omega
  rw [poolHost, hmod, if_pos hne]

/-- In the network 0.0.0.0 the addresses of the pool follow that of the server. -/
theorem poolAddr_zero {u : UInt32} (hu : u.toNat + 9 < 2 ^ 32 - 1) (i : Index) :
    (ntohl (poolAddr (htonl u) 0 i)).toNat = u.toNat + 1 + i.val := by
  have hmask : ntohl 0 = 0 := by decide
  have hand : ∀ x : UInt32, x &&& 0 = 0 ∧ x &&& ~~~0 = x ∧ 0 ||| x = x := by
    intro x
    simp
  have h1 : (1 : UInt32).toNat = 1 := rfl
  have hi : (UInt32.ofNat i.val).toNat = i.val := by
    rw [UInt32.toNat_ofNat']
    omega
  have hstart : startIpAddr (htonl u) 0 = u + 1 := by
    rw [startIpAddr, hmask]
    simp only [ntohl, htonl_htonl, (hand _).1, (hand _).2.1, (hand _).2.2]
    exact poolHost_zero (by omega) (by omega)
  have hs : (u + 1).toNat = u.toNat + 1 := by
    rw [UInt32.toNat_add, h1]
    omega
  rw [poolAddr, hmask]
  simp only [hstart, (hand _).1, (hand _).2.1, (hand _).2.2]
  rw [ntohl, htonl_htonl, poolHost_zero (by omega) (by omega), UInt32.toNat_add, hi, hs]
  omega

/-- A content with one value nearly everywhere; `ty` is behind the buffer. -/
def plain (ty : UInt8) : Nat → UInt8 := fun k => if k = sizeofMsg then ty else 5

/-- The same with one byte that differs. -/
def spotted (ty : UInt8) (p : Nat) : Nat → UInt8 := fun k => if k = p then 133 else plain ty k

/-- The two make far numbers of a word with stale bytes. -/
theorem stale_words (ty : UInt8) (hty : ty.toNat ≤ 5) {a : Nat} (ha : staleWord n a = true)
    (hn : n < sizeofMsg) :
    let v := (ntohl (word (filled n b (plain ty)) a)).toNat
    let v' := (ntohl (word (filled n b (spotted ty (max n a))) a)).toNat
    5 ≤ v ∧ v + 7 < 2 ^ 32 - 1 ∧ v + 128 ≤ v' := by
  intro v v'
  rw [staleWord, Bool.and_eq_true, decide_eq_true_eq, decide_eq_true_eq] at ha
  have hspot : filled n b (plain ty) (max n a) = 5 ∧
      filled n b (spotted ty (max n a)) (max n a) = 133 := by
    have hne : max n a ≠ sizeofMsg := by omega
    rw [filled_stale (by omega), filled_stale (by omega), plain, if_neg hne, spotted, if_pos rfl]
    exact ⟨rfl, rfl⟩
  have hother : ∀ k, k ≠ max n a →
      filled n b (spotted ty (max n a)) k = filled n b (plain ty) k := by
    intro k hk
    rw [filled, filled, spotted, if_neg hk]
  have hlast : (filled n b (plain ty) (a + 3)).toNat ≤ 5 := by
    rw [filled_stale (by omega), plain]
    split
    · exact hty
    · exact le_rfl
  have hv : v = _ := ntohl_word _ _
  have hv' : v' = _ := ntohl_word _ _
  have h0 := (filled n b (plain ty) a).toNat_lt
  have h1 := (filled n b (plain ty) (a + 1)).toNat_lt
  have h2 := (filled n b (plain ty) (a + 2)).toNat_lt
  have h5 : (5 : UInt8).toNat = 5 ∧ (133 : UInt8).toNat = 133 := ⟨rfl, rfl⟩
  obtain h | h | h | h : max n a = a ∨ max n a = a + 1 ∨ max n a = a + 2 ∨ max n a = a + 3 := by
    omega
  all_goals
    rw [h] at hspot hother hv'
    rw [hspot.1, h5.1] at hv
  · rw [hspot.2, h5.2, hother (a + 1) (by omega), hother (a + 2) (by omega),
      hother (a + 3) (by omega)] at hv'
    omega
  · rw [hspot.2, h5.2, hother a (by omega), hother (a + 2) (by omega),
      hother (a + 3) (by omega)] at hv'
    omega
  · rw [hspot.2, h5.2, hother a (by omega), hother (a + 1) (by omega),
      hother (a + 3) (by omega)] at hv'
    omega
  · rw [hspot.2, h5.2, hother a (by omega), hother (a + 1) (by omega),
      hother (a + 2) (by omega)] at hv'
    omega

/-! ### The leaks from outside -/

theorem passes_filled (hd : ¬ Dropped n b) (hs : optionsOffset ≤ n ∨
    s 1 = DHCP_HWTYPE_ETHERNET ∧ ∀ j : Fin 4, s (236 + j.val) = magicByte j) :
    Passes (filled n b s) := by
  simp only [Dropped, not_or, not_and, not_exists, not_not, optionsOffset] at hd hs
  obtain ⟨h0, hop, hhw, hmagic⟩ := hd
  refine ⟨?_, ?_, fun j => ?_⟩
  · rw [filled_own (by omega), hop]
  · by_cases hn : 1 < n
    · rw [filled_own hn, hhw hn]
    · rw [filled_stale (by omega)]
      exact (hs.resolve_left (by omega)).1
  · by_cases hn : 236 + j.val < n
    · rw [filled_own hn, hmagic j hn]
    · rw [filled_stale (by omega)]
      exact (hs.resolve_left (by omega)).2 j

/-- A message that ends before the magic number. -/
theorem dependent_short (hd : ¬ Dropped d.length fun k => d.getD k 0) (hn : d.length < optionsOffset) :
    ¬ Independent 0x0101a8c0 0x00ffffff d := by
  intro h
  have h0 : 0 < d.length := Nat.pos_of_ne_zero fun h0 => hd (.inl h0)
  let fixed : Nat → UInt8 := fun k => if k = 1 then DHCP_HWTYPE_ETHERNET else magicByte (k - 236)
  let s := discoverBytes fixed 0
  let s' : Nat → UInt8 := fun k => if k = 239 then 0 else s k
  rw [optionsOffset] at hn
  have habove : ∀ k, sizeofMsg ≤ k → s k = s' k :=
    fun k hk => (if_neg (by rw [sizeofMsg] at hk; omega)).symm
  have heq := h.effect_eq homeServer_reachable h0 (by rw [sizeofMsg]; omega) habove
  have hfill : filled d.length (fun k => d.getD k 0) s =
      discoverBytes (filled d.length (fun k => d.getD k 0) fixed) 0 := by
    funext k
    by_cases hk : k < d.length
    · rw [filled_own hk, discoverBytes_fixed _ _ (by omega), filled_own hk]
    · rw [filled_stale (by omega)]
      by_cases hk' : k < optionsOffset
      · rw [discoverBytes, if_pos hk', filled_stale (by omega)]
        exact if_pos hk'
      · rw [discoverBytes, if_neg hk']
        exact if_neg hk'
  have hpass : Passes (filled d.length (fun k => d.getD k 0) s) := by
    refine passes_filled hd (.inr ⟨?_, fun j => ?_⟩)
    · exact discoverBytes_fixed _ _ (by omega)
    · refine (discoverBytes_fixed _ _ (by omega)).trans ?_
      exact (if_neg (by omega)).trans (by rw [Nat.add_sub_cancel_left])
  have hreply := effect_replies (safe_reachable homeServer_reachable) hpass h0
  rw [hfill, parse_discoverBytes, ← hfill, heq] at hreply
  have hmagic : ntohl (word (filled d.length (fun k => d.getD k 0) s') 236) ≠ DHCP_MAGIC := by
    intro hm
    have hbyte := magic_bytes hm 3
    have hz : filled d.length (fun k => d.getD k 0) s' (236 + (3 : Fin 4).val) = 0 := by
      rw [filled_stale (by simp; omega)]
      exact if_pos rfl
    have hne : ¬ (0 : UInt8) = magicByte (3 : Fin 4).val := by decide
    exact hne (hz.symm.trans hbyte)
  have hdrop : acceptMsg d.length (filled d.length (fun k => d.getD k 0) s') = none := by
    rw [acceptMsg, if_pos (.inr (.inr (.inl hmagic)))]
  rw [hdrop] at hreply
  exact absurd hreply (by decide)

theorem ntohl_injective {x y : UInt32} (h : (ntohl x).toNat = (ntohl y).toNat) : x = y := by
  have heq : ntohl x = ntohl y := UInt32.toNat_inj.mp h
  rw [← htonl_htonl x, ← htonl_htonl y]
  exact congrArg htonl heq

/-- A message whose type is known makes a request of its sender. -/
theorem accepted (hd : ¬ Dropped n b) (hn : optionsOffset ≤ n)
    (hret : (parseDhcpOptions (filled n b s)).ret &&& 0x01 = 0x01) :
    ∃ q, acceptMsg n (filled n b s) = some q ∧ q.MacAddr = (.ofFn fun k => b (28 + k.val)) ∧
      q.msgType = (parseDhcpOptions (filled n b s)).msgType ∧
      q.reqIpAddr = (parseDhcpOptions (filled n b s)).reqIpAddr ∧
      q.serverId = (parseDhcpOptions (filled n b s)).serverId := by
  rw [optionsOffset] at hn
  have hmac : ∀ k : Fin 6, filled n b s (28 + k.val) = b (28 + k.val) :=
    fun k => filled_own (by omega)
  refine ⟨requestAt (filled n b s) (parseDhcpOptions (filled n b s)), ?_, ?_, rfl, rfl, rfl⟩
  · rw [(passes_filled hd (.inl hn)).accept (by omega), hret, if_neg (by decide)]
  · simp only [requestAt, hmac]

theorem exists_alone_own (ip netmask : UInt32) (hd : ¬ Dropped n b) (hn : optionsOffset ≤ n) :
    ∃ srv i, Reachable ip netmask srv ∧ (srv.Clients i).IpAddr = poolAddr ip netmask 0 ∧
      Alone (.ofFn fun k => b (28 + k.val)) i srv.Clients := by
  have hmac : ∀ k : Fin 6, filled n b b (28 + k.val) = b (28 + k.val) :=
    fun k => filled_own (by rw [optionsOffset] at hn; omega)
  have h := exists_alone ip netmask (passes_filled (s := b) hd (.inl hn))
  simpa only [hmac] using h

section

variable (hd : ¬ Dropped d.length fun k => d.getD k 0) (hn : optionsOffset ≤ d.length)
  (hlt : d.length < sizeofMsg)

include hd hn hlt

/-- A message for which stale bytes decide whether there is a reply. -/
theorem dependent_reply (habove : ∀ k, sizeofMsg ≤ k → s k = s' k)
    (hne : (parseDhcpOptions (filled d.length (fun k => d.getD k 0) s)).replies ≠
      (parseDhcpOptions (filled d.length (fun k => d.getD k 0) s')).replies) :
    ¬ Independent 0x0101a8c0 0x00ffffff d := by
  intro h
  have h0 : 0 < d.length := by rw [optionsOffset] at hn; omega
  have heq := h.effect_eq homeServer_reachable h0 hlt habove
  have hsafe := safe_reachable homeServer_reachable
  apply hne
  rw [← effect_replies hsafe (passes_filled hd (.inl hn)) h0,
    ← effect_replies hsafe (passes_filled hd (.inl hn)) h0, heq]

/-- A message whose requested address has stale bytes. -/
theorem dependent_request {ty : UInt8} {a : Nat}
    (hty : ty = DHCP_MSG_DISCOVER ∨ ty = DHCP_MSG_REQUEST) (ha : staleWord d.length a = true)
    (hp : ∀ s, s sizeofMsg = ty →
      let o := parseDhcpOptions (filled d.length (fun k => d.getD k 0) s)
      o.msgType = ty ∧ o.ret &&& 0x01 = 0x01 ∧
        o.reqIpAddr = word (filled d.length (fun k => d.getD k 0) s) a) :
    ∃ ip, ¬ Independent ip 0 d := by
  have h0 : 0 < d.length := by rw [optionsOffset] at hn; omega
  generalize hs : plain ty = s at *
  generalize hs' : spotted ty (max d.length a) = s'
  have hle : ty.toNat ≤ 5 := by rcases hty with rfl | rfl <;> decide
  obtain ⟨hv5, hvtop, hvv⟩ := stale_words (b := fun k => d.getD k 0) ty hle ha hlt
  rw [hs, hs'] at hvv
  rw [hs] at hv5 hvtop
  have hat : s sizeofMsg = ty := by rw [← hs]; exact if_pos rfl
  have habove : ∀ k, sizeofMsg ≤ k → s k = s' k := by
    intro k hk
    rw [staleWord, Bool.and_eq_true, decide_eq_true_eq, decide_eq_true_eq] at ha
    rw [← hs, ← hs', spotted, if_neg (by omega)]
  obtain ⟨hty1, hret1, hreq1⟩ := hp s hat
  obtain ⟨hty2, hret2, hreq2⟩ := hp s' ((habove _ le_rfl).symm.trans hat)
  obtain ⟨q, hq, hqm, hqt, hqr, -⟩ := accepted hd hn hret1
  obtain ⟨q', hq', hqm', hqt', hqr', -⟩ := accepted hd hn hret2
  rw [hreq1] at hqr
  rw [hreq2] at hqr'
  generalize word (filled d.length (fun k => d.getD k 0) s) a = W at *
  generalize word (filled d.length (fun k => d.getD k 0) s') a = W' at *
  -- the network in which the second address of the pool is asked for
  obtain ⟨u, hu⟩ : ∃ u : UInt32, u.toNat = (ntohl W).toNat - 2 := by
    refine ⟨.ofNat ((ntohl W).toNat - 2), ?_⟩
    rw [UInt32.toNat_ofNat']
    omega
  have hpool := fun i => poolAddr_zero (u := u) (by omega) i
  refine ⟨htonl u, fun hind => ?_⟩
  obtain ⟨srv, i, hr, haddr, halone⟩ := exists_alone_own (htonl u) 0 hd hn
  have hsafe := safe_reachable hr
  have heq := hind.effect_eq hr h0 hlt habove
  rw [hq, hq'] at heq
  have htab := congrArg Prod.fst heq
  simp only [effect] at htab
  have hmoves := request_moves hsafe (hqm.symm ▸ halone) (by rw [hqt, hty1]; exact hty)
  have hmoves' := request_moves hsafe (hqm'.symm ▸ halone) (by rw [hqt', hty2]; exact hty)
  rw [htab, hmoves', hqr, hqr'] at hmoves
  have hfree : ∃ j, (srv.Clients j).State = .IDLE ∧ (srv.Clients j).IpAddr = W := by
    have hp1 := hpool 1
    have h1 : (srv.Clients 1).IpAddr = W := by
      rw [hsafe.ipAddr 1]
      apply ntohl_injective
      rw [hp1, hu]
      simp only [Fin.val_one]
      omega
    refine ⟨1, halone.idle 1 ?_, h1⟩
    rintro rfl
    have hp0 := hpool 0
    rw [← haddr, hsafe.ipAddr 1, hp1] at hp0
    simp only [Fin.val_one, Fin.val_zero] at hp0
    omega
  obtain ⟨j, -, hj⟩ := hmoves.mpr hfree
  have hpj := hpool j
  rw [← hsafe.ipAddr j, hj] at hpj
  omega

/-- A message whose server id has stale bytes. -/
theorem dependent_server {a : Nat} (ha : staleWord d.length a = true)
    (hp : ∀ s, s sizeofMsg = DHCP_MSG_REQUEST →
      let o := parseDhcpOptions (filled d.length (fun k => d.getD k 0) s)
      o.msgType = DHCP_MSG_REQUEST ∧ o.ret &&& 0x01 = 0x01 ∧
        o.serverId = word (filled d.length (fun k => d.getD k 0) s) a) :
    ∃ ip, ¬ Independent ip 0 d := by
  have h0 : 0 < d.length := by rw [optionsOffset] at hn; omega
  generalize hs : plain DHCP_MSG_REQUEST = s
  generalize hs' : spotted DHCP_MSG_REQUEST (max d.length a) = s'
  obtain ⟨hv5, -, hvv⟩ :=
    stale_words (b := fun k => d.getD k 0) DHCP_MSG_REQUEST (by decide) ha hlt
  rw [hs, hs'] at hvv
  rw [hs] at hv5
  have hat : s sizeofMsg = DHCP_MSG_REQUEST := by rw [← hs]; exact if_pos rfl
  have habove : ∀ k, sizeofMsg ≤ k → s k = s' k := by
    intro k hk
    rw [staleWord, Bool.and_eq_true, decide_eq_true_eq, decide_eq_true_eq] at ha
    rw [← hs, ← hs', spotted, if_neg (by omega)]
  obtain ⟨hty1, hret1, hid1⟩ := hp s hat
  obtain ⟨hty2, hret2, hid2⟩ := hp s' ((habove _ le_rfl).symm.trans hat)
  obtain ⟨q, hq, hqm, hqt, -, hqs⟩ := accepted hd hn hret1
  obtain ⟨q', hq', hqm', hqt', -, hqs'⟩ := accepted hd hn hret2
  rw [hid1] at hqs
  rw [hid2] at hqs'
  generalize word (filled d.length (fun k => d.getD k 0) s) a = W at *
  generalize word (filled d.length (fun k => d.getD k 0) s') a = W' at *
  -- the server that is meant
  refine ⟨W, fun hind => ?_⟩
  obtain ⟨srv, i, hr, -, halone⟩ := exists_alone_own W 0 hd hn
  have hsafe := safe_reachable hr
  have heq := hind.effect_eq hr h0 hlt habove
  rw [hq, hq'] at heq
  have hrep := congrArg Prod.snd heq
  simp only [effect] at hrep
  have hconf : srv.ServerIpAddr = W := congrArg (·.2.1) (reachable_config hr)
  have hack := request_acked hsafe (hqm.symm ▸ halone) (hqt.trans hty1)
  have hack' := request_acked hsafe (hqm'.symm ▸ halone) (hqt'.trans hty2)
  rw [hrep, hack', hqs, hqs', hconf] at hack
  rcases hack.mpr (.inr rfl) with hz | hsame
  · rw [hz] at hvv
    have hzero : (ntohl 0).toNat = 0 := by decide
    omega
  · rw [hsame] at hvv
    omega

end

/-- **A datagram has the same effect after every history with the same table if and only if
it settles**: its own bytes decide what becomes of it.  The memory behind `DhcpMsg` is the same after
both histories; it is no part of them. -/
theorem datagrams_independent (d : List UInt8) :
    (∀ ip netmask, Independent ip netmask d) ↔ Settles d := by
  refine ⟨fun h => ?_, fun hs ip netmask => independent_of_settles hs⟩
  by_contra hs
  simp only [Settles, not_or, not_and, Bool.not_eq_true, not_le] at hs
  obtain ⟨hlt, hd, hopt⟩ := hs
  by_cases hn : optionsOffset ≤ d.length
  swap
  · exact dependent_short hd (by omega) (h _ _)
  have htracks : Tracks d.length (fun k => d.getD k 0) ⟨0xff, false, false⟩
      (fun _ => ⟨0xff, 0, 0, 0⟩) :=
    ⟨fun _ => rfl, fun _ _ => rfl, fun hne => absurd rfl hne, fun hf => (by cases hf),
      fun hf => (by cases hf)⟩
  rcases leaks_of_not_settle hlt _ _ _ _ (by decide) htracks (hopt hn) with
    ⟨s, s', habove, hne⟩ | ⟨ty, a, hty, ha, hp⟩ | ⟨a, ha, hp⟩
  · exact dependent_reply hd hn hlt habove hne (h _ _)
  · obtain ⟨ip, hip⟩ := dependent_request hd hn hlt hty ha hp
    exact hip (h _ _)
  · obtain ⟨ip, hip⟩ := dependent_server hd hn hlt ha hp
    exact hip (h _ _)

/-- The fixed part of a request, which ends before its options. -/
def headerMsg : List UInt8 := (plainMsg macA 1).take optionsOffset

/-- The server when a reply of another server was dropped, which named the type DISCOVER. -/
def overheardServer : Server :=
  (dhcpsRecvCb (2 :: (plainMsg macB 1).tail) (fun _ => 0) true homeServer).1

theorem overheardServer_reachable : Reachable 0x0101a8c0 0x00ffffff overheardServer :=
  homeServer_reachable.next (a := .recv (2 :: (plainMsg macB 1).tail) (fun _ => 0) true) trivial rfl

theorem overheardServer_Clients : overheardServer.Clients = homeServer.Clients := by
  have hreq : requestOf (2 :: (plainMsg macB 1).tail) (fun _ => 0) homeServer = none := by decide
  rw [overheardServer, dhcpsRecvCb, hreq]

/-- The type that was left over is answered. -/
theorem header_depends : ¬ Independent 0x0101a8c0 0x00ffffff headerMsg := by
  intro h
  have hsame := (h homeServer overheardServer homeServer_reachable overheardServer_reachable
    overheardServer_Clients.symm (fun _ => 0) true).2
  have hnone : (dhcpsRecvCb headerMsg (fun _ => 0) true homeServer).2 = none := by decide
  have hsome : (dhcpsRecvCb headerMsg (fun _ => 0) true overheardServer).2 ≠ none := by decide
  exact hsome (hsame.symm.trans hnone)

end Nl6621.Dhcp
