import Mathlib.Tactic.Common
import Nl6621.Lib.Memory

/-!
# The DNS server

`DNSS_RecvCb` copies a datagram to `pDnsMsg`, reads the flags of its header, the name behind the
header and the type and class behind the name, and answers with a message that has the name
and the question in it.  The name is read twice over: `strlen` looks for its terminator, and
`_DnsCompareName` follows the lengths of its labels, which need not end at the terminator.

An access outside `pDnsMsg`, or outside the buffer of an answer, is a `fault` here; the
configured name is read from memory that goes on on both sides.  Each answer is put together in a
buffer whose size is computed beforehand: `answer_eq` and `nameErr_eq` say which bytes are sent, for
names of every length.  `recvCb_inside_iff` says for which datagrams every access is inside.
-/

namespace Nl6621.Dns

open Lib

/-! ### The functions of the source -/

def DNS_FLAG1_RESPONSE : UInt8 := 0x80

def DNS_FLAG1_OPCODE_STANDARD : UInt8 := 0x00

def DNS_FLAG2_ERR_NONE : UInt8 := 0x00

def DNS_FLAG2_ERR_NAME : UInt8 := 0x03

def sizeofHeader : Nat := 12

def sizeofQuery : Nat := 4

def sizeofAnswer : Nat := 8

/-- `htons`, as the bytes in memory. -/
def htons (n : Nat) : List UInt8 := [UInt8.ofNat (n / 256), UInt8.ofNat n]

def htonl (n : Nat) : List UInt8 := htons (n / 65536) ++ htons (n % 65536)

def DNS_RRTYPE_A : Nat := 1

def DNS_RRCLASS_IN : Nat := 1

def DNS_DEFAULT_TTL : Nat := 3600

def DNS_NAME_OFFSET : Nat := 0xC000

structure DnsServer where
  /-- the memory at `DnsName`, and before and behind it -/
  DnsName : Int → UInt8
  /-- the bytes of `HostIp.addr` -/
  HostIp : UInt8 × UInt8 × UInt8 × UInt8

/-- The members `Type` and `Class`. -/
structure DnsQuery where
  qtype : List UInt8
  qclass : List UInt8

def nstToUpper (c : UInt8) : UInt8 := if 97 ≤ c ∧ c ≤ 122 then c - 97 + 65 else c

/-- The byte a pointer into the message points to. -/
def deref : List UInt8 → Outcome UInt8
  | [] => .fault
  | b :: _ => .ok b

def strlen : List UInt8 → Outcome Nat
  | [] => .fault
  | b :: bs => if b = 0 then .ok 0 else do
    let n ← strlen bs
    .ok (n + 1)

/-- `n` bytes from a pointer into the message on. -/
def bytes (p : List UInt8) (n : Nat) : Outcome (List UInt8) :=
  if n ≤ p.length then .ok (p.take n) else .fault

/-- `while (n > 0)`: the pointer `Query` behind the label, or nothing when a character differs. -/
def compareLabel (MyDns : Int → UInt8) (my : Int) : Nat → List UInt8 → Outcome (Option (List UInt8))
  | 0, Query => .ok (some Query)
  | _ + 1, [] => .fault
  | n + 1, b :: Query =>
    if nstToUpper (MyDns my) ≠ nstToUpper b then .ok none
    else compareLabel MyDns (my + 1) n Query

theorem compareLabel_length {MyDns : Int → UInt8} : ∀ {n : Nat} {my : Int} {Query rest : List UInt8},
    compareLabel MyDns my n Query = .ok (some rest) → rest.length ≤ Query.length := by
  intro n
  induction n with
  | zero =>
    intro my Query rest h
    cases h
    exact Nat.le_refl _
  | succ n ih =>
    intro my Query rest h
    cases Query with
    | nil => cases h
    | cons b Query =>
      rw [compareLabel] at h
      by_cases hne : nstToUpper (MyDns my) ≠ nstToUpper b
      · rw [if_pos hne] at h
        cases h
      · rw [if_neg hne] at h
        exact Nat.le_succ_of_le (ih h)

/-- `*(--MyDns) == 0`, behind the loop. -/
def atEnd (MyDns : Int → UInt8) (my : Int) : Nat := if MyDns (my - 1) = 0 then 0 else 1

/-- The labels of the name, from the pointer `Query` and the character `my` of the own name on. -/
def compareLabels (MyDns : Int → UInt8) (my : Int) : List UInt8 → Outcome Nat
  | [] => .fault
  | n :: Query =>
    if n &&& 0xc0 = 0xc0 then .ok (atEnd MyDns my)
    else
      match h : compareLabel MyDns my n.toNat Query with
      | .ok none => .ok 1
      | .ok (some []) => .fault
      | .ok (some (b :: rest)) =>
        if b ≠ 0 then compareLabels MyDns (my + n.toNat + 1) (b :: rest)
        else .ok (atEnd MyDns (my + n.toNat + 1))
      | .assertFail => .assertFail
      | .fault => .fault
termination_by Query => Query.length
decreasing_by
  have hlen := compareLabel_length h
  simp only [List.length_cons] at hlen ⊢
  omega

def dnsCompareName (MyDns : Int → UInt8) (Query : List UInt8) : Outcome Nat := do
  let len ← strlen Query
  if sub32 len 1 > 32 then .ok 1 else compareLabels MyDns 0 Query

/-- `NST_MOVE_MEM` to the place `off` of the answer; the length goes through a `INT16U`. -/
def moveTo (pDnsReply : Block) (off : Nat) (src : List UInt8) (len : Nat) : Outcome Block := do
  let x ← bytes src (len % 2 ^ 16)
  pDnsReply.store off (x.map some)

/-- The header of an answer. -/
def header (TansactionId : List UInt8) (DnsFlag2 : UInt8) (AnswerRR : List UInt8) : List UInt8 :=
  TansactionId ++ [DNS_FLAG1_RESPONSE, DnsFlag2] ++ htons 1 ++ AnswerRR ++ htons 0 ++ htons 0

/-- The header, the name and the query, which both answers start with; with the place behind
them. -/
def question (pDnsReply : Block) (header : List UInt8) (QueryName : List UInt8)
    (pDnsQuery : DnsQuery) : Outcome (Block × Nat) := do
  let pDnsReply ← pDnsReply.store 0 (header.map some)
  let len ← strlen QueryName
  let pDnsReply ← moveTo pDnsReply sizeofHeader QueryName (len + 1)
  let len ← strlen QueryName
  let Body := sizeofHeader + (len + 1)
  let pDnsReply ← moveTo pDnsReply Body (pDnsQuery.qtype ++ pDnsQuery.qclass) sizeofQuery
  .ok (pDnsReply, Body + sizeofQuery)

/-- The bytes that go to `pbuf_take`; nothing when `OSMMalloc` or `pbuf_alloc` fails. -/
def dnsNameErrGenAndSend (alloc pbuf : Bool) (pDnsQuery : DnsQuery) (QueryName : List UInt8)
    (TansactionId : List UInt8) : Outcome (Option Block) := do
  let len ← strlen QueryName
  let Len := ((sizeofHeader + (len + 1) + sizeofQuery + 3) / 4) * 4
  if !alloc then .ok none
  else
    let (pDnsReply, Len) ← question (.malloc Len)
      (header TansactionId DNS_FLAG2_ERR_NAME (htons 0)) QueryName pDnsQuery
    if !pbuf then .ok none
    else
      let sent ← pDnsReply.load 0 Len
      .ok (some sent)

def dnsAnswerGenAndSend (srv : DnsServer) (alloc pbuf : Bool) (pDnsQuery : DnsQuery)
    (QueryName : List UInt8) (TansactionId : List UInt8) : Outcome (Option Block) := do
  let len ← strlen QueryName
  let Len := ((sizeofHeader + (len + 1) + sizeofQuery + 2 + sizeofAnswer + 2 + 4 + 3) / 4) * 4
  if !alloc then .ok none
  else
    let (pDnsReply, Body) ← question (.malloc Len)
      (header TansactionId DNS_FLAG2_ERR_NONE (htons 1)) QueryName pDnsQuery
    let pDnsReply ← moveTo pDnsReply Body (htons (DNS_NAME_OFFSET ||| sizeofHeader)) 2
    let Body := Body + 2
    let DnsAnswer := htons DNS_RRTYPE_A ++ htons DNS_RRCLASS_IN ++ htonl DNS_DEFAULT_TTL
    let pDnsReply ← moveTo pDnsReply Body DnsAnswer sizeofAnswer
    let Body := Body + sizeofAnswer
    let pDnsReply ← moveTo pDnsReply Body (htons 4) 2
    let Body := Body + 2
    let (a, b, c, d) := srv.HostIp
    let pDnsReply ← moveTo pDnsReply Body [a, b, c, d] 4
    let Len := Body + 4
    if !pbuf then .ok none
    else
      let sent ← pDnsReply.load 0 Len
      .ok (some sent)

/-- The datagram `P`; `msg`, `alloc` and `pbuf` say whether memory is there for the copy, the
answer and its `pbuf`. -/
def dnssRecvCb (srv : DnsServer) (msg alloc pbuf : Bool) (P : List UInt8) : Outcome (Option Block) :=
  if !msg then .ok none
  else do
    let pDnsMsg := P
    let DnsFlag1 ← deref (pDnsMsg.drop 2)
    if DnsFlag1 &&& DNS_FLAG1_RESPONSE ≠ 0 ∨
        DnsFlag1 &&& ((0xf : UInt8) <<< 3) ≠ DNS_FLAG1_OPCODE_STANDARD then
      .ok none
    else
      let pDnsName := pDnsMsg.drop sizeofHeader
      let len ← strlen pDnsName
      let query ← bytes (pDnsName.drop (len + 1)) (sizeofQuery % 2 ^ 16)
      let DnsQuery : DnsQuery := ⟨query.take 2, query.drop 2⟩
      if DnsQuery.qclass ≠ htons DNS_RRCLASS_IN ∧ DnsQuery.qtype ≠ htons DNS_RRTYPE_A then .ok none
      else
        let differs ← dnsCompareName srv.DnsName pDnsName
        let TansactionId ← bytes pDnsMsg 2
        if differs ≠ 0 then dnsNameErrGenAndSend alloc pbuf DnsQuery pDnsName TansactionId
        else dnsAnswerGenAndSend srv alloc pbuf DnsQuery pDnsName TansactionId

/-! ### The condition -/

/-- The header says that the message is a response or not a standard query. -/
def Refused (P : List UInt8) : Prop :=
  ∃ DnsFlag1 ∈ P[2]?, DnsFlag1 &&& 0x80 ≠ 0 ∨ DnsFlag1 &&& 0x78 ≠ 0

/-- What is behind the name asks for the class IN or the type A. -/
def Asks (rest : List UInt8) : Prop := (rest.take 4).drop 2 = [0, 1] ∨ (rest.take 4).take 2 = [0, 1]

/-- The length byte of a label; the others are those of compressed names. -/
def Plain (n : UInt8) : Prop := n &&& 0xc0 ≠ 0xc0

/-- The bytes agree with the own name from its character `my` on. -/
def Agree (MyDns : Int → UInt8) (my : Int) : List UInt8 → Prop
  | [] => True
  | b :: bs => nstToUpper (MyDns my) = nstToUpper b ∧ Agree MyDns (my + 1) bs

/-- The labels agree with the own name up to the end of the datagram, and the last of them, by
its length, does not end before it. -/
inductive Overruns (MyDns : Int → UInt8) : Int → List UInt8 → Prop where
  | here {my : Int} {n : UInt8} {Query : List UInt8} (hn : Plain n)
      (hlen : Query.length ≤ n.toNat) (h : Agree MyDns my Query) : Overruns MyDns my (n :: Query)
  | next {my : Int} {n b : UInt8} {label rest : List UInt8} (hn : Plain n)
      (hlen : label.length = n.toNat) (h : Agree MyDns my label) (hb : b ≠ 0)
      (hrest : Overruns MyDns (my + n.toNat + 1) (b :: rest)) :
      Overruns MyDns my (n :: (label ++ b :: rest))

/-- The name of the datagram, and what is behind it. -/
structure Named (P name rest : List UInt8) : Prop where
  eq : P.drop sizeofHeader = name ++ 0 :: rest
  nulFree : (0 : UInt8) ∉ name

/-- The flags are there, and, unless they are those of a message that is refused, the name with
its terminator, and the type and class behind it; and the labels of a name that is asked for and
is compared do not run over the end. -/
def Contained (srv : DnsServer) (P : List UInt8) : Prop :=
  3 ≤ P.length ∧ (Refused P ∨ ∃ name rest, Named P name rest ∧ 4 ≤ rest.length ∧
    (Asks rest → 1 ≤ name.length → name.length ≤ 33 →
      ¬Overruns srv.DnsName 0 (P.drop sizeofHeader)))

/-! ### The name -/

theorem strlen_append {name : List UInt8} (rest : List UInt8) (h : (0 : UInt8) ∉ name) :
    strlen (name ++ 0 :: rest) = .ok name.length := by
  induction name with
  | nil => rfl
  | cons b bs ih =>
    have hb : b ≠ 0 := fun hb => h (hb ▸ List.mem_cons_self)
    rw [List.cons_append, strlen, if_neg hb, ih fun hm => h (List.mem_cons_of_mem _ hm),
      Outcome.ok_bind, List.length_cons]

/-- A terminator is found, or the search leaves the message. -/
theorem strlen_cases (p : List UInt8) :
    (∃ name rest, p = name ++ 0 :: rest ∧ (0 : UInt8) ∉ name) ∨ strlen p = .fault := by
  induction p with
  | nil => exact .inr rfl
  | cons b bs ih =>
    by_cases hb : b = 0
    · subst hb
      exact .inl ⟨[], bs, rfl, List.not_mem_nil⟩
    · rcases ih with ⟨name, rest, rfl, hname⟩ | hfault
      · refine .inl ⟨b :: name, rest, rfl, fun hm => ?_⟩
        rcases List.mem_cons.mp hm with hm | hm
        · exact hb hm.symm
        · exact hname hm
      · right
        rw [strlen, if_neg hb, hfault]
        rfl

theorem named_unique {name name' rest rest' : List UInt8} (h : (0 : UInt8) ∉ name)
    (h' : (0 : UInt8) ∉ name') (heq : name ++ 0 :: rest = name' ++ 0 :: rest') :
    name = name' ∧ rest = rest' := by
  have hlen : Outcome.ok name.length = Outcome.ok name'.length := by
    rw [← strlen_append rest h, heq, strlen_append rest' h']
  obtain ⟨hname, hrest⟩ := List.append_inj heq (Outcome.ok.inj hlen)
  exact ⟨hname, (List.cons.inj hrest).2⟩

/-! ### The labels -/

/-- A label is left behind, differs, or goes on behind the message. -/
theorem compareLabel_cases (MyDns : Int → UInt8) : ∀ (n : Nat) (my : Int) (Query : List UInt8),
    (Query.length < n ∧ Agree MyDns my Query ∧ compareLabel MyDns my n Query = .fault) ∨
    (∃ label rest, Query = label ++ rest ∧ label.length = n ∧ Agree MyDns my label ∧
      compareLabel MyDns my n Query = .ok (some rest)) ∨
    (¬Agree MyDns my (Query.take n) ∧ compareLabel MyDns my n Query = .ok none) := by
  intro n
  induction n with
  | zero =>
    intro my Query
    exact .inr (.inl ⟨[], Query, rfl, rfl, trivial, rfl⟩)
  | succ n ih =>
    intro my Query
    cases Query with
    | nil => exact .inl ⟨Nat.succ_pos _, trivial, rfl⟩
    | cons b Query =>
      by_cases hne : nstToUpper (MyDns my) ≠ nstToUpper b
      · refine .inr (.inr ⟨fun h => hne h.1, ?_⟩)
        rw [compareLabel, if_pos hne]
      · have heq : nstToUpper (MyDns my) = nstToUpper b := not_not.mp hne
        have hstep : compareLabel MyDns my (n + 1) (b :: Query) =
            compareLabel MyDns (my + 1) n Query := by rw [compareLabel, if_neg hne]
        rw [hstep]
        rcases ih (my + 1) Query with ⟨hlen, ha, hc⟩ | ⟨label, rest, rfl, hlen, ha, hc⟩ | ⟨hd, hc⟩
        · refine .inl ⟨?_, ⟨heq, ha⟩, hc⟩
          rw [List.length_cons]
          omega
        · refine .inr (.inl ⟨b :: label, rest, rfl, ?_, ⟨heq, ha⟩, hc⟩)
          rw [List.length_cons, hlen]
        · exact .inr (.inr ⟨fun h => hd h.2, hc⟩)

theorem compareLabels_cons (MyDns : Int → UInt8) (my : Int) (n : UInt8) (Query : List UInt8) :
    compareLabels MyDns my (n :: Query) =
      if n &&& 0xc0 = 0xc0 then .ok (atEnd MyDns my)
      else
        match compareLabel MyDns my n.toNat Query with
        | .ok none => .ok 1
        | .ok (some []) => .fault
        | .ok (some (b :: rest)) =>
          if b ≠ 0 then compareLabels MyDns (my + n.toNat + 1) (b :: rest)
          else .ok (atEnd MyDns (my + n.toNat + 1))
        | .assertFail => .assertFail
        | .fault => .fault := by
  rw [compareLabels]
  split
  · rfl
  · split <;> rename_i h <;> rw [h]

theorem compareLabel_agree {MyDns : Int → UInt8} (rest : List UInt8) : ∀ {label : List UInt8} {my : Int},
    Agree MyDns my label → compareLabel MyDns my label.length (label ++ rest) = .ok (some rest) := by
  intro label
  induction label with
  | nil => intro my _; rfl
  | cons b label ih =>
    intro my h
    rw [List.length_cons, List.cons_append, compareLabel, if_neg (not_not.mpr h.1), ih h.2]

theorem compareLabel_short {MyDns : Int → UInt8} : ∀ {n : Nat} {my : Int} {Query : List UInt8},
    Agree MyDns my Query → Query.length < n → compareLabel MyDns my n Query = .fault := by
  intro n
  induction n with
  | zero => intro my Query _ h; exact absurd h (Nat.not_lt_zero _)
  | succ n ih =>
    intro my Query ha h
    cases Query with
    | nil => rfl
    | cons b Query =>
      rw [compareLabel, if_neg (not_not.mpr ha.1)]
      exact ih ha.2 (Nat.lt_of_succ_lt_succ h)

theorem compareLabels_overruns {MyDns : Int → UInt8} {my : Int} {Query : List UInt8}
    (h : Overruns MyDns my Query) : compareLabels MyDns my Query = .fault := by
  induction h with
  | @here my n Query hn hlen h =>
    rw [compareLabels_cons, if_neg hn]
    rcases Nat.lt_or_eq_of_le hlen with hlt | heq
    · rw [compareLabel_short h hlt]
    · have hall := compareLabel_agree [] h
      rw [List.append_nil, heq] at hall
      rw [hall]
  | @next my n b label rest hn hlen h hb _ ih =>
    have hall := compareLabel_agree (b :: rest) h
    rw [hlen] at hall
    rw [compareLabels_cons, if_neg hn, hall]
    simp only
    rw [if_pos hb, ih]

/-- **The comparison of labels comes back exactly when they do not run over the end.** -/
theorem compareLabels_returns_iff (MyDns : Int → UInt8) : ∀ (k : Nat) (my : Int) (Query : List UInt8),
    Query.length = k → 1 ≤ k → ((compareLabels MyDns my Query).Returns ↔ ¬Overruns MyDns my Query) := by
  intro k
  induction k using Nat.strongRecOn with
  | ind k ih =>
    intro my Query hk h1
    refine ⟨fun hr ho => ?_, fun ho => ?_⟩
    · rw [compareLabels_overruns ho] at hr
      exact Outcome.not_returns_fault hr
    · cases Query with
      | nil => exact absurd (hk ▸ h1) (by decide)
      | cons n Query =>
        rw [compareLabels_cons]
        by_cases hn : n &&& 0xc0 = 0xc0
        · rw [if_pos hn]
          exact Outcome.returns_ok _
        · rw [if_neg hn]
          rcases compareLabel_cases MyDns n.toNat my Query with
            ⟨hlen, ha, -⟩ | ⟨label, rest, rfl, hlen, ha, hc⟩ | ⟨-, hc⟩
          · exact absurd (.here hn (Nat.le_of_lt hlen) ha) ho
          · rw [hc]
            cases rest with
            | nil =>
              refine absurd (.here hn ?_ ?_) ho
              · rw [List.append_nil]
                exact Nat.le_of_eq hlen
              · rw [List.append_nil]
                exact ha
            | cons b rest =>
              simp only
              by_cases hb : b ≠ 0
              · rw [if_pos hb]
                have hlt : (b :: rest).length < k := by
                  rw [List.length_cons, List.length_append] at hk
                  omega
                refine (ih _ hlt _ _ rfl (Nat.succ_pos _)).mpr fun hrest => ?_
                exact ho (.next hn hlen ha hb hrest)
              · rw [if_neg hb]
                exact Outcome.returns_ok _
          · rw [hc]
            exact Outcome.returns_ok _

/-! ### The bytes of the answers -/

/-- The header, the name and the question, which both answers start with. -/
def questionBytes (id : List UInt8) (flag : UInt8) (n : Nat) (name : List UInt8)
    (pDnsQuery : DnsQuery) : List UInt8 :=
  header id flag (htons n) ++ (name ++ [0]) ++ (pDnsQuery.qtype ++ pDnsQuery.qclass)

/-- The record that is appended for the address `ip`. -/
def recordBytes (ip : UInt8 × UInt8 × UInt8 × UInt8) : List UInt8 :=
  htons (DNS_NAME_OFFSET ||| sizeofHeader) ++
    (htons DNS_RRTYPE_A ++ htons DNS_RRCLASS_IN ++ htonl DNS_DEFAULT_TTL) ++ htons 4 ++
    [ip.1, ip.2.1, ip.2.2.1, ip.2.2.2]

/-- What is handed to `pbuf_take`, if there is memory. -/
def sent (alloc pbuf : Bool) (bs : List UInt8) : Option Block :=
  if alloc && pbuf then some (bs.map some) else none

section

variable {reply : Block} {bs src name id : List UInt8} {pDnsQuery : DnsQuery} {len : Nat}

/-- Bytes moved behind those that are there. -/
theorem moveTo_holds (h : Block.Holds reply bs) (hlen : len < 2 ^ 16) (hsrc : len ≤ src.length)
    (hfit : bs.length + len ≤ reply.length) :
    ∃ reply', moveTo reply bs.length src len = .ok reply' ∧ reply'.length = reply.length ∧
      Block.Holds reply' (bs ++ src.take len) := by
  have hcells : ((src.take len).map some).length = len := by
    rw [List.length_map, List.length_take]
    omega
  have hfit' : bs.length + ((src.take len).map some).length ≤ reply.length := by omega
  refine ⟨_, ?_, Block.length_put hfit', Block.holds_put h _⟩
  rw [moveTo, Nat.mod_eq_of_lt hlen, bytes, if_pos hsrc, Outcome.ok_bind,
    Block.store_ok hfit']

theorem moveTo_all (h : Block.Holds reply bs) (src : List UInt8) (off len : Nat)
    (hoff : bs.length = off) (hsrc : src.length = len) (hlen : len < 2 ^ 16)
    (hfit : off + len ≤ reply.length) :
    ∃ reply', moveTo reply off src len = .ok reply' ∧ reply'.length = reply.length ∧
      Block.Holds reply' (bs ++ src) := by
  subst hoff hsrc
  obtain ⟨reply', hm, hl, hh⟩ := moveTo_holds h hlen (Nat.le_refl _) hfit
  rw [List.take_length] at hh
  exact ⟨reply', hm, hl, hh⟩

theorem load_holds (h : Block.Holds reply bs) : reply.load 0 bs.length = .ok (bs.map some) := by
  have hle := h.length_le
  rw [Block.load, if_pos (by omega), List.drop_zero, h]

theorem header_length (hid : id.length = 2) (flag : UInt8) (n : Nat) :
    (header id flag (htons n)).length = 12 := by
  simp only [header, List.length_append, hid]
  rfl

theorem take_name (name rest : List UInt8) :
    (name ++ 0 :: rest).take (name.length + 1) = name ++ [0] := by
  have hsplit : name ++ 0 :: rest = (name ++ [0]) ++ rest := by
    rw [List.append_assoc, List.singleton_append]
  have hlen : name.length + 1 = (name ++ [0]).length := by
    rw [List.length_append, List.length_singleton]
  rw [hsplit, hlen, List.take_left]

/-- **The part that both answers start with.** -/
theorem question_holds (rest : List UInt8) (hid : id.length = 2) (flag : UInt8) (n : Nat)
    (hname : (0 : UInt8) ∉ name) (hlen : name.length + 1 < 2 ^ 16)
    (hquery : (pDnsQuery.qtype ++ pDnsQuery.qclass).length = 4)
    (hreply : 12 + (name.length + 1) + 4 ≤ reply.length) :
    ∃ reply', question reply (header id flag (htons n)) (name ++ 0 :: rest) pDnsQuery =
        .ok (reply', (questionBytes id flag n name pDnsQuery).length) ∧
      reply'.length = reply.length ∧
      Block.Holds reply' (questionBytes id flag n name pDnsQuery) := by
  have hhd := header_length hid flag n
  have hfit : 0 + ((header id flag (htons n)).map some).length ≤ reply.length := by
    rw [List.length_map, hhd]
    omega
  have h1 : Block.Holds (reply.put 0 ((header id flag (htons n)).map some))
      (header id flag (htons n)) := Block.holds_put (Block.holds_nil reply) _
  have hl1 := Block.length_put hfit
  have hsrc : name.length + 1 ≤ (name ++ 0 :: rest).length := by
    rw [List.length_append, List.length_cons]
    omega
  obtain ⟨r2, hm2, hl2, h2⟩ := moveTo_holds h1 hlen hsrc (by rw [hl1, hhd]; omega)
  rw [take_name] at h2
  have hb2 : (header id flag (htons n) ++ (name ++ [0])).length =
      sizeofHeader + (name.length + 1) := by
    rw [List.length_append, hhd, List.length_append, List.length_singleton, sizeofHeader]
  obtain ⟨r3, hm3, hl3, h3⟩ := moveTo_all h2 (pDnsQuery.qtype ++ pDnsQuery.qclass) _
    sizeofQuery hb2 hquery (by decide) (by rw [hl2, hl1, sizeofHeader, sizeofQuery]; omega)
  rw [hhd] at hm2
  refine ⟨r3, ?_, by rw [hl3, hl2, hl1], h3⟩
  have htotal : (questionBytes id flag n name pDnsQuery).length =
      sizeofHeader + (name.length + 1) + sizeofQuery := by
    rw [questionBytes, List.length_append, hb2, hquery, sizeofQuery]
  have hheader : sizeofHeader = 12 := rfl
  rw [question, Block.store_ok hfit, Outcome.ok_bind, strlen_append rest hname, Outcome.ok_bind,
    hheader, hm2, Outcome.ok_bind, Outcome.ok_bind, htotal, hheader]
  rw [hheader] at hm3
  simp only [hm3, Outcome.ok_bind]

theorem length_questionBytes (hid : id.length = 2) (flag : UInt8) (n : Nat)
    (hquery : (pDnsQuery.qtype ++ pDnsQuery.qclass).length = 4) :
    (questionBytes id flag n name pDnsQuery).length = 12 + (name.length + 1) + 4 := by
  rw [questionBytes, List.length_append, List.length_append, header_length hid, List.length_append,
    List.length_singleton, hquery]

/-- **The name error**: the question, and nothing else. -/
theorem nameErr_eq (rest : List UInt8) (alloc pbuf : Bool) (hid : id.length = 2)
    (hname : (0 : UInt8) ∉ name) (hlen : name.length + 1 < 2 ^ 16)
    (hquery : (pDnsQuery.qtype ++ pDnsQuery.qclass).length = 4) :
    dnsNameErrGenAndSend alloc pbuf pDnsQuery (name ++ 0 :: rest) id =
      .ok (sent alloc pbuf (questionBytes id DNS_FLAG2_ERR_NAME 0 name pDnsQuery)) := by
  rw [dnsNameErrGenAndSend, strlen_append _ hname, Outcome.ok_bind]
  cases alloc with
  | false => rfl
  | true =>
    have hbuf : 12 + (name.length + 1) + 4 ≤
        (Block.malloc ((sizeofHeader + (name.length + 1) + sizeofQuery + 3) / 4 * 4)).length := by
      rw [Block.length_malloc, sizeofHeader, sizeofQuery]
      omega
    obtain ⟨reply, hq, -, hh⟩ := question_holds rest hid DNS_FLAG2_ERR_NAME 0 hname hlen hquery hbuf
    simp only [Bool.not_true, Bool.false_eq_true, if_false]
    rw [hq, Outcome.ok_bind]
    cases pbuf with
    | false => rfl
    | true =>
      simp only [Bool.not_true, Bool.false_eq_true, if_false]
      rw [load_holds hh]
      rfl

/-- **The answer**: the question, and the record of the address. -/
theorem answer_eq (srv : DnsServer) (rest : List UInt8) (alloc pbuf : Bool) (hid : id.length = 2)
    (hname : (0 : UInt8) ∉ name) (hlen : name.length + 1 < 2 ^ 16)
    (hquery : (pDnsQuery.qtype ++ pDnsQuery.qclass).length = 4) :
    dnsAnswerGenAndSend srv alloc pbuf pDnsQuery (name ++ 0 :: rest) id =
      .ok (sent alloc pbuf (questionBytes id DNS_FLAG2_ERR_NONE 1 name pDnsQuery ++
        recordBytes srv.HostIp)) := by
  rw [dnsAnswerGenAndSend, strlen_append _ hname, Outcome.ok_bind]
  cases alloc with
  | false => rfl
  | true =>
    simp only [Bool.not_true, Bool.false_eq_true, if_false]
    generalize hbuf : Block.malloc ((sizeofHeader + (name.length + 1) + sizeofQuery + 2 +
      sizeofAnswer + 2 + 4 + 3) / 4 * 4) = reply
    have hsize : 12 + (name.length + 1) + 4 + 16 ≤ reply.length := by
      rw [← hbuf, Block.length_malloc, sizeofHeader, sizeofQuery, sizeofAnswer]
      omega
    obtain ⟨reply₁, hq, h1, hh1⟩ := question_holds rest hid DNS_FLAG2_ERR_NONE 1 hname hlen hquery
      (by omega : _ ≤ reply.length)
    have hl : (questionBytes id DNS_FLAG2_ERR_NONE 1 name pDnsQuery).length = _ :=
      length_questionBytes hid DNS_FLAG2_ERR_NONE 1 hquery
    generalize questionBytes id DNS_FLAG2_ERR_NONE 1 name pDnsQuery = bs at hq hh1 hl ⊢
    obtain ⟨reply₂, hm2, h2, hh2⟩ := moveTo_all hh1 (htons (DNS_NAME_OFFSET ||| sizeofHeader))
      bs.length 2 rfl rfl (by decide) (by omega)
    obtain ⟨reply₃, hm3, h3, hh3⟩ := moveTo_all hh2
      (htons DNS_RRTYPE_A ++ htons DNS_RRCLASS_IN ++ htonl DNS_DEFAULT_TTL) (bs.length + 2)
      sizeofAnswer List.length_append rfl (by decide) (by rw [sizeofAnswer]; omega)
    obtain ⟨reply₄, hm4, h4, hh4⟩ := moveTo_all hh3 (htons 4) (bs.length + 2 + sizeofAnswer) 2
      (by rw [List.length_append, List.length_append]; rfl) rfl (by decide)
      (by rw [sizeofAnswer]; omega)
    obtain ⟨reply₅, hm5, h5, hh5⟩ := moveTo_all hh4
      [srv.HostIp.1, srv.HostIp.2.1, srv.HostIp.2.2.1, srv.HostIp.2.2.2]
      (bs.length + 2 + sizeofAnswer + 2) 4
      (by rw [List.length_append, List.length_append, List.length_append]; rfl) rfl (by decide)
      (by rw [sizeofAnswer]; omega)
    have hall : bs ++ htons (DNS_NAME_OFFSET ||| sizeofHeader) ++
        (htons DNS_RRTYPE_A ++ htons DNS_RRCLASS_IN ++ htonl DNS_DEFAULT_TTL) ++ htons 4 ++
        [srv.HostIp.1, srv.HostIp.2.1, srv.HostIp.2.2.1, srv.HostIp.2.2.2] =
        bs ++ recordBytes srv.HostIp := by
      simp only [recordBytes, List.append_assoc]
    have htotal : (bs ++ recordBytes srv.HostIp).length = bs.length + 2 + sizeofAnswer + 2 + 4 := by
      rw [List.length_append]
      rfl
    rw [hall] at hh5
    have hload := load_holds hh5
    rw [htotal] at hload
    rw [hq, Outcome.ok_bind]
    simp only
    rw [hm2, Outcome.ok_bind, hm3, Outcome.ok_bind, hm4, Outcome.ok_bind, hm5, Outcome.ok_bind]
    cases pbuf with
    | false => rfl
    | true =>
      simp only [Bool.not_true, Bool.false_eq_true, if_false]
      rw [hload]
      rfl

end

/-! ### The callback -/

section

variable {srv : DnsServer} {P : List UInt8}

theorem refused_iff {b : UInt8} (h : P[2]? = some b) :
    Refused P ↔ (b &&& 0x80 ≠ 0 ∨ b &&& 0x78 ≠ 0) := by
  constructor
  · rintro ⟨b', hb', hr⟩
    rw [h] at hb'
    cases hb'
    exact hr
  · exact fun hr => ⟨b, h, hr⟩

theorem deref_drop {b : UInt8} (h : P[2]? = some b) : deref (P.drop 2) = .ok b := by
  match P, h with
  | [_, _], h => cases h
  | _ :: _ :: c :: P, h =>
    cases h
    rfl

theorem drop_name (name rest : List UInt8) : (name ++ 0 :: rest).drop (name.length + 1) = rest := by
  rw [← List.drop_drop, List.drop_left, List.drop_one, List.tail_cons]

theorem asks_iff {rest : List UInt8} :
    ¬((rest.take 4).drop 2 ≠ htons DNS_RRCLASS_IN ∧ (rest.take 4).take 2 ≠ htons DNS_RRTYPE_A) ↔
      Asks rest := by
  have hclass : htons DNS_RRCLASS_IN = [0, 1] := rfl
  have htype : htons DNS_RRTYPE_A = [0, 1] := rfl
  rw [hclass, htype, Asks, not_and_or, not_not, not_not]

/-- `strlen(Query) - 1 > 32`, where the empty name counts as longer. -/
theorem sub32_gt_iff {n : Nat} (h : n < 2 ^ 16) : sub32 n 1 > 32 ↔ n = 0 ∨ 33 < n := by
  rw [sub32]
  omega

theorem bytes_ok {p : List UInt8} {n : Nat} (h : n ≤ p.length) : bytes p n = .ok (p.take n) := if_pos h

theorem bytes_fault {p : List UInt8} {n : Nat} (h : p.length < n) : bytes p n = .fault :=
  if_neg (by omega)

/-- The answer of either kind comes back. -/
theorem reply_returns {name rest : List UInt8} (alloc pbuf : Bool) (differs : Nat)
    (heq : P.drop sizeofHeader = name ++ 0 :: rest) (hname : (0 : UInt8) ∉ name)
    (h2 : P.length < 2 ^ 16) (h3 : 3 ≤ P.length) (h4 : 4 ≤ rest.length) :
    (do
      let TansactionId ← bytes P 2
      if differs ≠ 0 then
        dnsNameErrGenAndSend alloc pbuf ⟨(rest.take 4).take 2, (rest.take 4).drop 2⟩
          (P.drop sizeofHeader) TansactionId
      else
        dnsAnswerGenAndSend srv alloc pbuf ⟨(rest.take 4).take 2, (rest.take 4).drop 2⟩
          (P.drop sizeofHeader) TansactionId).Returns := by
  have hlen := congrArg List.length heq
  rw [List.length_drop, List.length_append, List.length_cons] at hlen
  have hid : (P.take 2).length = 2 := by
    rw [List.length_take]
    omega
  have hquery : ((rest.take 4).take 2 ++ (rest.take 4).drop 2).length = 4 := by
    rw [List.take_append_drop, List.length_take]
    omega
  rw [bytes_ok (by omega), Outcome.ok_bind, heq]
  by_cases hd : differs ≠ 0
  · rw [if_pos hd]
    rw [nameErr_eq rest alloc pbuf hid hname (by omega) hquery]
    exact Outcome.returns_ok _
  · rw [if_neg hd]
    rw [answer_eq srv rest alloc pbuf hid hname (by omega) hquery]
    exact Outcome.returns_ok _

theorem compareName_returns_iff {MyDns : Int → UInt8} {name rest : List UInt8}
    (hname : (0 : UInt8) ∉ name) (hlen : name.length < 2 ^ 16) :
    (dnsCompareName MyDns (name ++ 0 :: rest)).Returns ↔
      (1 ≤ name.length → name.length ≤ 33 → ¬Overruns MyDns 0 (name ++ 0 :: rest)) := by
  rw [dnsCompareName, strlen_append _ hname, Outcome.ok_bind]
  by_cases hlong : sub32 name.length 1 > 32
  · rw [if_pos hlong]
    rw [sub32_gt_iff hlen] at hlong
    exact iff_of_true (Outcome.returns_ok _) fun h1 h2 => by omega
  · rw [if_neg hlong, compareLabels_returns_iff MyDns _ 0 _ rfl
      (by rw [List.length_append, List.length_cons]; omega)]
    rw [sub32_gt_iff hlen] at hlong
    exact ⟨fun h _ _ => h, fun h => h (by omega) (by omega)⟩

theorem returns_bind {α β : Type} {o : Outcome α} {f : α → Outcome β} (h : ∀ a, (f a).Returns) :
    (o >>= f).Returns ↔ o.Returns := by
  cases o with
  | ok a => exact iff_of_true (h a) (Outcome.returns_ok a)
  | assertFail => exact iff_of_false Outcome.not_returns_assertFail Outcome.not_returns_assertFail
  | fault => exact iff_of_false Outcome.not_returns_fault Outcome.not_returns_fault

/-- With memory for the copy. -/
theorem recvCb_returns_iff (alloc pbuf : Bool) (h2 : P.length < 2 ^ 16) :
    (dnssRecvCb srv true alloc pbuf P).Returns ↔ Contained srv P := by
  rw [dnssRecvCb]
  simp only [Bool.not_true, Bool.false_eq_true, if_false]
  by_cases h3 : 3 ≤ P.length
  · obtain ⟨b, hb⟩ : ∃ b, P[2]? = some b := ⟨P[2], List.getElem?_eq_getElem (by omega)⟩
    rw [deref_drop hb, Outcome.ok_bind]
    by_cases hr : b &&& 0x80 ≠ 0 ∨ b &&& 0x78 ≠ 0
    · have hr' : b &&& DNS_FLAG1_RESPONSE ≠ 0 ∨
          b &&& ((0xf : UInt8) <<< 3) ≠ DNS_FLAG1_OPCODE_STANDARD := hr
      rw [if_pos hr']
      exact iff_of_true (Outcome.returns_ok _) ⟨h3, .inl ((refused_iff hb).mpr hr)⟩
    · have hr' : ¬(b &&& DNS_FLAG1_RESPONSE ≠ 0 ∨
          b &&& ((0xf : UInt8) <<< 3) ≠ DNS_FLAG1_OPCODE_STANDARD) := hr
      have hnot : ¬Refused P := fun h => hr ((refused_iff hb).mp h)
      rw [if_neg hr']
      rcases strlen_cases (P.drop sizeofHeader) with ⟨name, rest, heq, hname⟩ | hfault
      · have hlen := congrArg List.length heq
        rw [List.length_drop, List.length_append, List.length_cons] at hlen
        have hcont : Contained srv P ↔ 4 ≤ rest.length ∧ (Asks rest → 1 ≤ name.length →
            name.length ≤ 33 → ¬Overruns srv.DnsName 0 (P.drop sizeofHeader)) := by
          constructor
          · rintro ⟨-, h | ⟨name', rest', ⟨heq', hname'⟩, h⟩⟩
            · exact absurd h hnot
            · obtain ⟨rfl, rfl⟩ := named_unique hname hname' (heq.symm.trans heq')
              exact h
          · exact fun h => ⟨h3, .inr ⟨name, rest, ⟨heq, hname⟩, h⟩⟩
        have hstrlen : strlen (P.drop sizeofHeader) = .ok name.length := by
          rw [heq, strlen_append _ hname]
        have hdrop : (P.drop sizeofHeader).drop (name.length + 1) = rest := by
          rw [heq, drop_name]
        have hfour : sizeofQuery % 2 ^ 16 = 4 := rfl
        rw [hcont, hstrlen, Outcome.ok_bind, hdrop, hfour]
        by_cases h4 : 4 ≤ rest.length
        · rw [bytes_ok h4, Outcome.ok_bind]
          by_cases hasks : Asks rest
          · rw [if_neg (asks_iff.mpr hasks), returns_bind fun differs =>
              reply_returns alloc pbuf differs heq hname h2 h3 h4, heq,
              compareName_returns_iff hname (by omega)]
            exact ⟨fun h => ⟨h4, fun _ => h⟩, fun h => h.2 hasks⟩
          · rw [if_pos (not_not.mp fun h => hasks (asks_iff.mp h))]
            exact iff_of_true (Outcome.returns_ok _) ⟨h4, fun h => absurd h hasks⟩
        · rw [bytes_fault (by omega)]
          exact iff_of_false Outcome.not_returns_fault fun h => h4 h.1
      · rw [hfault]
        refine iff_of_false Outcome.not_returns_fault ?_
        rintro ⟨-, h | ⟨name, rest, ⟨heq, hname⟩, -⟩⟩
        · exact hnot h
        · rw [heq, strlen_append _ hname] at hfault
          cases hfault
  · have hnil : P.drop 2 = [] := List.drop_eq_nil_of_le (by omega)
    rw [hnil]
    exact iff_of_false Outcome.not_returns_fault fun h => h3 h.1

end

/-- **Which datagrams are read inside their bounds.** -/
theorem recvCb_inside_iff (srv : DnsServer) (P : List UInt8) (h2 : P.length < 2 ^ 16) :
    (∀ msg alloc pbuf, (dnssRecvCb srv msg alloc pbuf P).Returns) ↔ Contained srv P := by
  constructor
  · intro h
    exact (recvCb_returns_iff true true h2).mp (h true true true)
  · intro h msg alloc pbuf
    cases msg with
    | false => exact Outcome.returns_ok _
    | true => exact (recvCb_returns_iff alloc pbuf h2).mpr h

/-- A query for the address of the root. -/
def rootQuery : List UInt8 := [0, 7, 1, 0, 0, 1, 0, 0, 0, 0, 0, 0, 0, 0, 1, 0, 1]

theorem recvCb_inside_rootQuery : rootQuery.length < 2 ^ 16 ∧
    ∀ msg alloc pbuf, (dnssRecvCb ⟨fun _ => 0, 10, 10, 10, 1⟩ msg alloc pbuf rootQuery).Returns := by
  refine ⟨by decide, (recvCb_inside_iff _ _ (by decide)).mpr ⟨by decide, .inr ⟨[], [0, 1, 0, 1],
    ⟨rfl, List.not_mem_nil⟩, by decide, fun _ h => ?_⟩⟩⟩
  exact absurd h (by decide)

/-- A datagram of one byte, and one that ends within the name: the flags, and then the
terminator, are looked for behind the copy. -/
theorem recvCb_outside :
    dnssRecvCb ⟨fun _ => 0, 10, 10, 10, 1⟩ true true true [42] = .fault ∧
      dnssRecvCb ⟨fun _ => 0, 10, 10, 10, 1⟩ true true true
        [0, 7, 1, 0, 0, 1, 0, 0, 0, 0, 0, 0, 3, 99] = .fault :=
  ⟨rfl, rfl⟩

end Nl6621.Dns
