import Nl6621.Dns.Names

/-!
# The answers to a query

A standard query with one question is answered with the address of the interface or with a name
error, or not at all.  `decodeResponse` reads a response by the layout of RFC 1035, and
`decode_answer` says what it finds in an answer: the question as it was asked, and one record for
its name.

The server means to answer questions for an address of class IN, but drops a question only if both
its type and its class are others.  `answers_match_iff` says for which queries it answers
what was asked.
-/

namespace Nl6621.Dns

open Lib

/-! ### Queries -/

/-- A query of one question: the header, the name with its terminator, the type and the class, and
what further records there are. -/
structure StandardQuery where
  id : UInt16
  flag1 : UInt8
  flag2 : UInt8
  answerRR : UInt16
  authorityRR : UInt16
  additionalRR : UInt16
  labels : List (List UInt8)
  qtype : UInt16
  qclass : UInt16
  more : List UInt8
  /-- the response bit and the opcode -/
  standard : flag1 &&& 0x80 = 0 ∧ flag1 &&& 0x78 = 0
  sized : ∀ l ∈ labels, 1 ≤ l.length ∧ l.length ≤ 63

namespace StandardQuery

def header (q : StandardQuery) : List UInt8 :=
  htons q.id.toNat ++ [q.flag1, q.flag2] ++ htons 1 ++ htons q.answerRR.toNat ++
    htons q.authorityRR.toNat ++ htons q.additionalRR.toNat

/-- What is behind the name. -/
def rest (q : StandardQuery) : List UInt8 := htons q.qtype.toNat ++ htons q.qclass.toNat ++ q.more

def bytes (q : StandardQuery) : List UInt8 := q.header ++ (encodeName q.labels ++ 0 :: q.rest)

/-- The name as a C string, which a zero byte in a label ends. -/
def str (q : StandardQuery) : List UInt8 := cstr (encodeName q.labels)

/-- What is behind the C string. -/
def behind (q : StandardQuery) : List UInt8 :=
  (encodeName q.labels ++ 0 :: q.rest).drop (q.str.length + 1)

/-- The type is A and the class is IN. -/
def AsksAddress (q : StandardQuery) : Prop :=
  q.qtype.toNat = DNS_RRTYPE_A ∧ q.qclass.toNat = DNS_RRCLASS_IN

/-- The labels are, character by character, what is at `DnsName`; there the characters between them
are passed over, and behind the last of them there is a terminator. -/
def Found (srv : DnsServer) (q : StandardQuery) : Prop :=
  1 ≤ q.str.length ∧ q.str.length ≤ 33 ∧ LabelsAgree srv.DnsName 0 q.labels ∧
    srv.DnsName (dotted q.labels).length = 0

end StandardQuery

/-! ### The layout of a response -/

def word16 : List UInt8 → Option (Nat × List UInt8)
  | a :: b :: bs => some (a.toNat * 256 + b.toNat, bs)
  | _ => none

/-- A name without compression. -/
def decodeName : List UInt8 → Option (List (List UInt8) × List UInt8)
  | [] => none
  | n :: bs =>
    if n = 0 then some ([], bs)
    else if 63 < n.toNat ∨ bs.length < n.toNat then none
    else (decodeName (bs.drop n.toNat)).map fun r => (bs.take n.toNat :: r.1, r.2)
termination_by bs => bs.length
decreasing_by
  rw [List.length_drop, List.length_cons]
  omega

/-- A response to one question, with one resource record. -/
structure Response where
  id : Nat
  isResponse : Bool
  rcode : Nat
  labels : List (List UInt8)
  qtype : Nat
  qclass : Nat
  /-- the offset the name of the record points to, and the name that is there -/
  pointer : Nat
  name : List (List UInt8)
  rtype : Nat
  rclass : Nat
  ttl : Nat
  rdata : List UInt8
deriving DecidableEq

def decodeResponse (msg : List UInt8) : Option Response := do
  let (id, bs) ← word16 msg
  let (flags, bs) ← word16 bs
  let (qdcount, bs) ← word16 bs
  let (ancount, bs) ← word16 bs
  let (nscount, bs) ← word16 bs
  let (arcount, bs) ← word16 bs
  guard (qdcount = 1 ∧ ancount = 1 ∧ nscount = 0 ∧ arcount = 0)
  let (labels, bs) ← decodeName bs
  let (qtype, bs) ← word16 bs
  let (qclass, bs) ← word16 bs
  let (ptr, bs) ← word16 bs
  guard (0xC000 ≤ ptr)
  let (name, _) ← decodeName (msg.drop (ptr - 0xC000))
  let (rtype, bs) ← word16 bs
  let (rclass, bs) ← word16 bs
  let (ttl₁, bs) ← word16 bs
  let (ttl₀, bs) ← word16 bs
  let (rdlength, rdata) ← word16 bs
  guard (rdata.length = rdlength)
  some ⟨id, 0x8000 ≤ flags, flags % 16, labels, qtype, qclass, ptr - 0xC000, name, rtype, rclass,
    ttl₁ * 65536 + ttl₀, rdata⟩

theorem word16_htons {n : Nat} (h : n < 65536) (bs : List UInt8) :
    word16 (htons n ++ bs) = some (n, bs) := by
  have h1 : (UInt8.ofNat (n / 256)).toNat = n / 256 := by
    rw [UInt8.toNat_ofNat']
    omega
  have h2 : (UInt8.ofNat n).toNat = n % 256 := UInt8.toNat_ofNat'
  simp only [htons, List.cons_append, List.nil_append, word16, h1, h2]
  congr 2
  omega

theorem bind_of_some {α β : Type} {x : Option α} {a : α} (h : x = some a) (f : α → Option β) :
    (x >>= f) = f a := by
  rw [h]
  rfl

theorem guard_bind {α : Type} {p : Prop} [Decidable p] (h : p) (f : Unit → Option α) :
    (guard p >>= f) = f () := bind_of_some (if_pos h) f

/-- The reader of a number, in front of what is read next. -/
theorem word16_bind {α : Type} {n : Nat} (h : n < 65536) (bs : List UInt8)
    (f : Nat × List UInt8 → Option α) : (word16 (htons n ++ bs) >>= f) = f (n, bs) :=
  bind_of_some (word16_htons h bs) f

theorem htons_inj {m n : Nat} (hm : m < 65536) (hn : n < 65536) : htons m = htons n ↔ m = n := by
  refine ⟨fun h => ?_, congrArg htons⟩
  have hword := word16_htons hm []
  rw [h, word16_htons hn] at hword
  cases hword
  rfl

theorem decodeName_encode (rest : List UInt8) : ∀ labels : List (List UInt8),
    (∀ l ∈ labels, 1 ≤ l.length ∧ l.length ≤ 63) →
      decodeName (encodeName labels ++ 0 :: rest) = some (labels, rest) := by
  intro labels
  induction labels with
  | nil =>
    intro _
    rw [encodeName, List.flatMap_nil, List.nil_append, decodeName, if_pos rfl]
  | cons l ls ih =>
    intro hl
    have hlabel := hl l List.mem_cons_self
    obtain ⟨hn, hne, -⟩ := plain_length hlabel
    rw [encodeName_cons, List.cons_append, List.append_assoc, decodeName, if_neg hne, hn,
      if_neg (by rw [List.length_append]; have h63 := hlabel.2; omega), List.drop_left,
      List.take_left, ih fun x hx => hl x (List.mem_cons_of_mem _ hx)]
    rfl

/-! ### The answer is decoded -/

/-- The response with the question of the query, and the address of its name. -/
def StandardQuery.response (ip : UInt8 × UInt8 × UInt8 × UInt8) (q : StandardQuery) : Response where
  id := q.id.toNat
  isResponse := true
  rcode := 0
  labels := q.labels
  qtype := q.qtype.toNat
  qclass := q.qclass.toNat
  pointer := 12
  name := q.labels
  rtype := DNS_RRTYPE_A
  rclass := DNS_RRCLASS_IN
  ttl := DNS_DEFAULT_TTL
  rdata := [ip.1, ip.2.1, ip.2.2.1, ip.2.2.2]

theorem decode_answer (ip : UInt8 × UInt8 × UInt8 × UInt8) (q : StandardQuery) :
    decodeResponse (questionBytes (htons q.id.toNat) DNS_FLAG2_ERR_NONE 1 (encodeName q.labels)
      ⟨htons q.qtype.toNat, htons q.qclass.toNat⟩ ++ recordBytes ip) = some (q.response ip) := by
  have hid := q.id.toNat_lt
  have htype := q.qtype.toNat_lt
  have hclass := q.qclass.toNat_lt
  generalize hrecord : htons q.qtype.toNat ++ (htons q.qclass.toNat ++ recordBytes ip) = record
  have hmsg : questionBytes (htons q.id.toNat) DNS_FLAG2_ERR_NONE 1 (encodeName q.labels)
      ⟨htons q.qtype.toNat, htons q.qclass.toNat⟩ ++ recordBytes ip =
      htons q.id.toNat ++ ([0x80, 0] ++ (htons 1 ++ (htons 1 ++ (htons 0 ++ (htons 0 ++
        (encodeName q.labels ++ 0 :: record)))))) := by
    rw [← hrecord]
    simp only [questionBytes, header, List.append_assoc, List.singleton_append]
    rfl
  generalize hall : questionBytes (htons q.id.toNat) DNS_FLAG2_ERR_NONE 1 (encodeName q.labels)
      ⟨htons q.qtype.toNat, htons q.qclass.toNat⟩ ++ recordBytes ip = msg at hmsg ⊢
  have hname := decodeName_encode record q.labels q.sized
  have hat : decodeName (msg.drop (12 + 0xC000 - 0xC000)) = some (q.labels, record) := by
    rw [Nat.add_sub_cancel, ← hname, hmsg]
    rfl
  have h0 : 0 < 65536 := by decide
  have h1 : 1 < 65536 := by decide
  have httl : 3600 < 65536 := by decide
  have hlen : 4 < 65536 := by decide
  have hptr : word16 (recordBytes ip) = some (12 + 0xC000, htons 1 ++ (htons 1 ++ (htons 0 ++
      (htons 3600 ++ (htons 4 ++ [ip.1, ip.2.1, ip.2.2.1, ip.2.2.2]))))) := rfl
  rw [decodeResponse]
  -- the header
  refine (bind_of_some (hmsg ▸ word16_htons hid _) _).trans ?_
  refine (bind_of_some (a := (0x8000, _)) rfl _).trans ?_
  refine (word16_bind h1 _ _).trans ?_
  refine (word16_bind h1 _ _).trans ?_
  refine (word16_bind h0 _ _).trans ?_
  refine (word16_bind h0 _ _).trans ?_
  refine (guard_bind ⟨rfl, rfl, rfl, rfl⟩ _).trans ?_
  -- the question
  refine (bind_of_some hname _).trans ?_
  rw [← hrecord]
  refine (word16_bind htype _ _).trans ?_
  refine (word16_bind hclass _ _).trans ?_
  -- the record
  refine (bind_of_some hptr _).trans ?_
  refine (guard_bind (by decide) _).trans ?_
  refine (bind_of_some hat _).trans ?_
  refine (word16_bind h1 _ _).trans ?_
  refine (word16_bind h1 _ _).trans ?_
  refine (word16_bind h0 _ _).trans ?_
  refine (word16_bind httl _ _).trans ?_
  refine (word16_bind hlen _ _).trans ?_
  exact (guard_bind rfl _).trans rfl

/-! ### The running server -/

/-- The server runs under the name `own` on an interface with the address `ip`. -/
inductive Running : List UInt8 → UInt8 × UInt8 × UInt8 × UInt8 → DnsServer → Prop where
  | start {Netif : Bool × UInt8 × UInt8 × UInt8 × UInt8} {own : List UInt8}
      {udp_new : Option (UInt8 × UInt8 × UInt8 × UInt8)} {srv₀ srv : DnsServer}
      (h : dnssStart (some Netif) own udp_new srv₀ = (DNSS_ERR_SUCCESS, srv)) :
      Running own Netif.2 srv
  | config {own own' : List UInt8} {ip : UInt8 × UInt8 × UInt8 × UInt8} {srv srv' : DnsServer}
      (hrun : Running own ip srv)
      (h : dnssConfig (some own') srv = (DNSS_ERR_SUCCESS, srv')) : Running own' ip srv'

theorem Running.accepted {own : List UInt8} {ip : UInt8 × UInt8 × UInt8 × UInt8} {srv : DnsServer}
    (h : Running own ip srv) : Accepted own srv := by
  cases h with
  | start h => exact Or.inr ⟨_, _, _, h⟩
  | config _ h => exact Or.inl ⟨_, h⟩

/-- A running server keeps the address of the interface, in the words behind its name too. -/
theorem Running.address {own : List UInt8} {ip : UInt8 × UInt8 × UInt8 × UInt8} {srv : DnsServer}
    (h : Running own ip srv) : srv.HostIp = ip ∧ srv.DnsName 32 = ip.1 := by
  induction h with
  | @start Netif own udp_new srv₀ srv h =>
    obtain ⟨-, up, ip_addr, pcb, hnet, rfl⟩ := dnssStart_inv h
    cases hnet
    have hpcb : putWord (-4) pcb (putWord 32 ip_addr (putName own srv₀.DnsName)) 32 =
        putWord 32 ip_addr (putName own srv₀.DnsName) 32 := putWord_of_ne (by omega)
    exact ⟨rfl, hpcb.trans (if_pos rfl)⟩
  | config _ h ih =>
    obtain ⟨-, rfl⟩ := dnssConfig_inv h
    exact ⟨ih.1, ih.2⟩

section

variable {srv : DnsServer} {own : List UInt8} {ip : UInt8 × UInt8 × UInt8 × UInt8}
  {q : StandardQuery}

namespace StandardQuery

theorem nulFree_str (q : StandardQuery) : (0 : UInt8) ∉ q.str := nulFree_cstr _

/-- The C string, its terminator, and what is behind it. -/
theorem split (q : StandardQuery) :
    encodeName q.labels ++ 0 :: q.rest = q.str ++ 0 :: q.behind := by
  rw [behind, str]
  induction encodeName q.labels with
  | nil => rfl
  | cons b bs ih =>
    by_cases hb : b = 0
    · subst hb
      rfl
    · rw [cstr_cons_of_ne hb, List.cons_append, List.cons_append, List.length_cons,
        List.drop_succ_cons, ← ih]

theorem behind_length (q : StandardQuery) : 4 ≤ q.behind.length := by
  have hlen := congrArg List.length q.split
  have hstr := length_cstr_le (encodeName q.labels)
  have hrest : 4 ≤ q.rest.length := by
    simp only [rest, List.length_append]
    exact Nat.le_add_right 4 _
  rw [List.length_append, List.length_append, List.length_cons, List.length_cons] at hlen
  rw [str] at hlen
  omega

theorem strlen_str (q : StandardQuery) :
    strlen (encodeName q.labels ++ 0 :: q.rest) = .ok q.str.length := by
  rw [q.split, strlen_append _ q.nulFree_str]

theorem compareName_found (q : StandardQuery) (srv : DnsServer) (hlen : q.str.length < 2 ^ 16) :
    ∃ ret, dnsCompareName srv.DnsName (encodeName q.labels ++ 0 :: q.rest) = .ok ret ∧
      (ret = 0 ↔ q.Found srv) := by
  rw [dnsCompareName, q.strlen_str, Outcome.ok_bind]
  have hlong := sub32_gt_iff hlen
  by_cases hgt : sub32 q.str.length 1 > 32
  · rw [if_pos hgt]
    rcases hlong.mp hgt with h | h
    · exact ⟨1, rfl, iff_of_false (by decide) fun hf => absurd hf.1 (by omega)⟩
    · exact ⟨1, rfl, iff_of_false (by decide) fun hf => absurd hf.2.1 (by omega)⟩
  · rw [if_neg hgt]
    rw [hlong, not_or] at hgt
    have hne : q.labels ≠ [] := by
      intro hnil
      rw [str, hnil] at hgt
      exact hgt.1 rfl
    rcases compareLabels_encoded srv.DnsName q.rest q.labels 0 hne q.sized with
      ⟨ha, heq, -⟩ | ⟨ha, heq, -⟩
    · have hplace : (0 : Int) + (dotted q.labels).length + 1 - 1 = (dotted q.labels).length := by
        omega
      refine ⟨_, heq, ?_⟩
      rw [atEnd, hplace]
      by_cases hz : srv.DnsName (dotted q.labels).length = 0
      · rw [if_pos hz]
        exact iff_of_true rfl ⟨by omega, by omega, ha, hz⟩
      · rw [if_neg hz]
        exact iff_of_false (by decide) fun h => hz h.2.2.2
    · exact ⟨1, heq, iff_of_false (by decide) fun h => ha h.2.2.1⟩

/-- The type and the class, as the callback reads them. -/
def query (q : StandardQuery) : DnsQuery := ⟨(q.behind.take 4).take 2, (q.behind.take 4).drop 2⟩

end StandardQuery

/-- **What the callback does with a query.** -/
theorem recvCb_cases (q : StandardQuery) (srv : DnsServer) (alloc pbuf : Bool)
    (h16 : q.bytes.length < 2 ^ 16) :
    (¬Asks q.behind ∧ dnssRecvCb srv true alloc pbuf q.bytes = .ok none) ∨
    (Asks q.behind ∧ ¬q.Found srv ∧ dnssRecvCb srv true alloc pbuf q.bytes =
      .ok (sent alloc pbuf
        (questionBytes (htons q.id.toNat) DNS_FLAG2_ERR_NAME 0 q.str q.query))) ∨
    (Asks q.behind ∧ q.Found srv ∧ dnssRecvCb srv true alloc pbuf q.bytes =
      .ok (sent alloc pbuf (questionBytes (htons q.id.toNat) DNS_FLAG2_ERR_NONE 1 q.str q.query ++
        recordBytes srv.HostIp))) := by
  have hflag : q.bytes[2]? = some q.flag1 := rfl
  have hid : bytes q.bytes 2 = .ok (htons q.id.toNat) := rfl
  have hdrop : q.bytes.drop sizeofHeader = encodeName q.labels ++ 0 :: q.rest := rfl
  have hlen : q.bytes.length = 12 + (q.str.length + (q.behind.length + 1)) := by
    rw [StandardQuery.bytes, q.split, List.length_append, List.length_append, List.length_cons]
    rfl
  have hbehind := q.behind_length
  have hquery : (q.query.qtype ++ q.query.qclass).length = 4 := by
    rw [StandardQuery.query, List.take_append_drop, List.length_take]
    omega
  have hstandard : ¬(q.flag1 &&& DNS_FLAG1_RESPONSE ≠ 0 ∨
      q.flag1 &&& ((0xf : UInt8) <<< 3) ≠ DNS_FLAG1_OPCODE_STANDARD) := by
    rintro (h | h)
    · exact h q.standard.1
    · exact h q.standard.2
  have hfour : sizeofQuery % 2 ^ 16 = 4 := rfl
  have hbytes : bytes q.behind 4 = .ok (q.behind.take 4) := bytes_ok hbehind
  rw [dnssRecvCb]
  simp only [Bool.not_true, Bool.false_eq_true, if_false]
  rw [deref_drop hflag, Outcome.ok_bind, if_neg hstandard, hdrop, q.strlen_str, Outcome.ok_bind,
    q.split, drop_name, hfour, hbytes, Outcome.ok_bind]
  by_cases hasks : Asks q.behind
  · right
    obtain ⟨ret, hret, hzero⟩ := q.compareName_found srv (by omega)
    rw [q.split] at hret
    rw [if_neg (asks_iff.mpr hasks), hret, Outcome.ok_bind, hid, Outcome.ok_bind]
    by_cases hf : q.Found srv
    · right
      rw [if_neg (not_not.mpr (hzero.mpr hf))]
      exact ⟨hasks, hf, answer_eq srv q.behind alloc pbuf rfl q.nulFree_str (by omega) hquery⟩
    · left
      rw [if_pos (mt hzero.mp hf)]
      exact ⟨hasks, hf, nameErr_eq q.behind alloc pbuf rfl q.nulFree_str (by omega) hquery⟩
  · left
    rw [if_pos (not_not.mp fun h => hasks (asks_iff.mp h))]
    exact ⟨hasks, rfl⟩

/-! ### Names without a zero byte -/

theorem SameName.nulFree {d s : List UInt8} (h : SameName d s) (h0 : (0 : UInt8) ∉ s) :
    (0 : UInt8) ∉ d := by
  induction h with
  | nil => exact List.not_mem_nil
  | @cons a b d s hab _ ih =>
    intro hmem
    rcases List.mem_cons.mp hmem with rfl | hmem
    · have hb : b = 0 := by
        rcases hab with h | ⟨h, -⟩ | ⟨h, h', hz⟩
        · exact h.symm
        · exact absurd h (by decide)
        · exact SameLetter.zero_right (Or.inr (Or.inl ⟨h, h', hz⟩))
      exact h0 (hb ▸ List.mem_cons_self)
    · exact ih (fun h => h0 (List.mem_cons_of_mem _ h)) hmem

theorem nulFree_labels {labels : List (List UInt8)} (h : (0 : UInt8) ∉ dotted labels) :
    ∀ l ∈ labels, (0 : UInt8) ∉ l := by
  induction labels with
  | nil => intro l hl; cases hl
  | cons l ls ih =>
    by_cases hls : ls = []
    · subst hls
      intro x hx
      rwa [List.mem_singleton.mp hx]
    · rw [dotted_cons hls, List.mem_append, List.mem_cons, not_or, not_or] at h
      intro x hx
      rcases List.mem_cons.mp hx with rfl | hx
      · exact h.1
      · exact ih h.2.2 x hx

namespace StandardQuery

theorem str_of_nulFree (h : ∀ l ∈ q.labels, (0 : UInt8) ∉ l) : q.str = encodeName q.labels :=
  cstr_of_nulFree (nulFree_encodeName fun l hl => ⟨(q.sized l hl).1, (q.sized l hl).2, h l hl⟩)

theorem behind_of_nulFree (h : ∀ l ∈ q.labels, (0 : UInt8) ∉ l) : q.behind = q.rest := by
  rw [behind, str_of_nulFree h, drop_name]

theorem query_of_nulFree (h : ∀ l ∈ q.labels, (0 : UInt8) ∉ l) :
    q.query = ⟨htons q.qtype.toNat, htons q.qclass.toNat⟩ := by
  rw [query, behind_of_nulFree h]
  rfl

end StandardQuery

/-! ### When the answers match -/

/-- The number of answers in the header is not zero. -/
def IsAnswer (bs : List UInt8) : Prop := (bs.drop 6).take 2 ≠ [0, 0]

/-- A reply is composed inside its buffer and sent as it is composed.  If there is an answer in it
then the query asks for the address of the own name, and that is what the reply decodes to. -/
def AnswersMatch (own : List UInt8) (ip : UInt8 × UInt8 × UInt8 × UInt8) (srv : DnsServer)
    (q : StandardQuery) : Prop :=
  ∀ msg alloc pbuf, ∃ reply, dnssRecvCb srv msg alloc pbuf q.bytes = .ok reply ∧
    ∀ blk ∈ reply, ∃ bs, blk = bs.map some ∧
      (IsAnswer bs → q.AsksAddress ∧ SameName (dotted q.labels) own ∧
        decodeResponse bs = some (q.response ip))

theorem mem_sent {alloc pbuf : Bool} {bs : List UInt8} {blk : Block}
    (h : blk ∈ sent alloc pbuf bs) : blk = bs.map some := by
  rw [sent] at h
  by_cases hmem : (alloc && pbuf) = true
  · rw [if_pos hmem] at h
    exact (Option.mem_some.mp h).symm
  · rw [if_neg hmem] at h
    cases h

theorem isAnswer_answer (id : UInt16) (name : List UInt8) (pDnsQuery : DnsQuery)
    (record : List UInt8) :
    IsAnswer (questionBytes (htons id.toNat) DNS_FLAG2_ERR_NONE 1 name pDnsQuery ++ record) := by
  have h : [(0 : UInt8), 1] ≠ [0, 0] := by decide
  exact h

theorem not_isAnswer_nameErr (id : UInt16) (name : List UInt8) (pDnsQuery : DnsQuery) :
    ¬IsAnswer (questionBytes (htons id.toNat) DNS_FLAG2_ERR_NAME 0 name pDnsQuery) :=
  fun h => h rfl

/-- A query that is found is answered. -/
theorem AnswersMatch.asks (h : AnswersMatch own ip srv q) (h16 : q.bytes.length < 2 ^ 16)
    (hasks : Asks q.behind) (hf : q.Found srv) :
    q.AsksAddress ∧ SameName (dotted q.labels) own := by
  obtain ⟨reply, hreply, hall⟩ := h true true true
  rcases recvCb_cases q srv true true h16 with ⟨hno, -⟩ | ⟨-, hno, -⟩ | ⟨-, -, heq⟩
  · exact absurd hasks hno
  · exact absurd hf hno
  · rw [heq] at hreply
    cases hreply
    obtain ⟨bs, hbs, hans⟩ := hall _ rfl
    have hsame := (List.map_inj_right fun _ _ => Option.some.inj).mp hbs
    rw [← hsame] at hans
    exact ⟨(hans (isAnswer_answer _ _ _ _)).1, (hans (isAnswer_answer _ _ _ _)).2.1⟩

end

/-- What the callback asks for and finds, in a query without a zero byte in its labels. -/
theorem asks_found_iff {own : List UInt8} {ip : UInt8 × UInt8 × UInt8 × UInt8} {srv : DnsServer}
    {q : StandardQuery} (hrun : Running own ip srv) (h0 : (0 : UInt8) ∉ own)
    (hnul : ∀ l ∈ q.labels, (0 : UInt8) ∉ l) :
    (Asks q.behind ∧ q.Found srv) ↔
      (q.qtype.toNat = DNS_RRTYPE_A ∨ q.qclass.toNat = DNS_RRCLASS_IN) ∧
        q.labels ≠ [] ∧ Fits own q.labels ∧ (own.length < 32 ∨ ip.1 = 0) := by
  have hh := hrun.accepted.holds
  have hl : ∀ l ∈ q.labels, IsLabel l := fun l hl => ⟨(q.sized l hl).1, (q.sized l hl).2, hnul l hl⟩
  refine and_congr ?_ ?_
  · have hclass : (q.rest.take 4).drop 2 = htons q.qclass.toNat := rfl
    have htype : (q.rest.take 4).take 2 = htons q.qtype.toNat := rfl
    have hone : ([0, 1] : List UInt8) = htons 1 := rfl
    rw [q.behind_of_nulFree hnul, Asks, hclass, htype, hone,
      htons_inj q.qclass.toNat_lt (by decide), htons_inj q.qtype.toNat_lt (by decide)]
    exact or_comm
  · rw [StandardQuery.Found, q.str_of_nulFree hnul]
    by_cases hne : q.labels = []
    · rw [hne]
      exact iff_of_false (fun h => absurd h.1 (by decide)) fun h => h.1 rfl
    have hlen := length_encodeName hne
    have hcap := hh.length_le
    by_cases hL : (dotted q.labels).length ≤ 32
    · have hfits := hh.fits_iff hL
      have hle := hh.length_le_of_agree h0 hne hl hL
      rw [hfits, hlen]
      by_cases hfull : (dotted q.labels).length = 32
      · -- behind a name of 32 characters there is the address
        rw [hfull]
        have hip : srv.DnsName (32 : Nat) = ip.1 := hrun.address.2
        rw [hip]
        constructor
        · rintro ⟨-, -, ha, hz⟩
          exact ⟨hne, ⟨Nat.le_antisymm hcap (hfull ▸ hle ha), ha⟩, Or.inr hz⟩
        · rintro ⟨-, ⟨heq, ha⟩, hz⟩
          exact ⟨by decide, by decide, ha, hz.resolve_left (by omega)⟩
      · rw [hh.end_iff h0 (by omega)]
        constructor
        · rintro ⟨-, -, ha, hge⟩
          exact ⟨hne, ⟨Nat.le_antisymm hge (hle ha), ha⟩, Or.inl (by omega)⟩
        · rintro ⟨-, ⟨heq, ha⟩, -⟩
          exact ⟨by omega, by omega, ha, Nat.le_of_eq heq⟩
    · refine iff_of_false (fun h => ?_) fun h => ?_
      · have hshort := h.2.1
        omega
      · have heq := h.2.1.1
        omega

/-- **Which queries are answered as they are asked.**  What is asked for and found is, by
`asks_found_iff`, for labels without a zero byte: the type is A or the class is IN, the configured
name has the length and the label characters of the dotted one, and it is shorter than 32 or the
address behind it begins with a zero. -/
theorem answers_match_iff {own : List UInt8} {ip : UInt8 × UInt8 × UInt8 × UInt8} {srv : DnsServer}
    (hrun : Running own ip srv) (h0 : (0 : UInt8) ∉ own) (q : StandardQuery)
    (h16 : q.bytes.length < 2 ^ 16) :
    AnswersMatch own ip srv q ↔
      (Asks q.behind → q.Found srv → q.AsksAddress ∧ SameName (dotted q.labels) own) := by
  refine ⟨fun h hasks hf => h.asks h16 hasks hf, fun h msg alloc pbuf => ?_⟩
  cases msg with
  | false =>
    refine ⟨none, rfl, fun blk hblk => ?_⟩
    cases hblk
  | true =>
    rcases recvCb_cases q srv alloc pbuf h16 with ⟨-, heq⟩ | ⟨-, -, heq⟩ | ⟨hasks, hf, heq⟩
    · refine ⟨none, heq, fun blk hblk => ?_⟩
      cases hblk
    · refine ⟨_, heq, fun blk hblk => ⟨_, mem_sent hblk, fun hans => ?_⟩⟩
      exact absurd hans (not_isAnswer_nameErr _ _ _)
    · refine ⟨_, heq, fun blk hblk => ⟨_, mem_sent hblk, fun _ => ?_⟩⟩
      obtain ⟨haddr, hsame⟩ := h hasks hf
      have hnul := nulFree_labels (hsame.nulFree h0)
      refine ⟨haddr, hsame, ?_⟩
      rw [q.str_of_nulFree hnul, q.query_of_nulFree hnul, hrun.address.1, decode_answer]

/-- The server after its start under the name `nl.cn`. -/
def startedServer : DnsServer :=
  (dnssStart (some (true, 192, 168, 1, 1)) dotName (some (0, 64, 0, 32)) ⟨fun _ => 0, 0, 0, 0, 0⟩).2

theorem running_startedServer : Running dotName (192, 168, 1, 1) startedServer :=
  @Running.start (true, 192, 168, 1, 1) dotName (some (0, 64, 0, 32)) ⟨fun _ => 0, 0, 0, 0, 0⟩
    startedServer rfl

/-- A query for `NL.cn` of class IN. -/
def nameQuery (qtype : UInt16) : StandardQuery where
  id := 0x1234
  flag1 := 1
  flag2 := 0
  answerRR := 0
  authorityRR := 0
  additionalRR := 0
  labels := queryLabels
  qtype := qtype
  qclass := 1
  more := []
  standard := by decide
  sized := fun l hl => (isLabel_queryLabels l hl).sized

theorem answers_match_iff_address :
    AnswersMatch dotName (192, 168, 1, 1) startedServer (nameQuery 1) :=
  (answers_match_iff running_startedServer (by decide) (nameQuery 1) (by decide)).mpr fun _ _ =>
    ⟨⟨rfl, rfl⟩, sameName_iff.mpr ⟨rfl, rfl, rfl, rfl, rfl, rfl, trivial⟩⟩

/-- A query for the IPv6 address, of type 28, is answered with the IPv4 address. -/
theorem other_type_answered : ∃ own ip srv q, Running own ip srv ∧ (0 : UInt8) ∉ own ∧
    q.bytes.length < 2 ^ 16 ∧ ¬AnswersMatch own ip srv q := by
  refine ⟨dotName, _, startedServer, nameQuery 28, running_startedServer, by decide, by decide,
    fun h => ?_⟩
  have hf : (nameQuery 28).Found startedServer :=
    ⟨by decide, by decide, ⟨⟨rfl, rfl, trivial⟩, ⟨rfl, rfl, trivial⟩, trivial⟩, rfl⟩
  have haddr := (h.asks (by decide) (Or.inl rfl) hf).1.1
  exact absurd haddr (by decide)

end Nl6621.Dns
