import Nl6621.Dhcp.Server
import Nl6621.Lib.Scan

/-!
# What one DHCP request does to the table

`_ClientTableLookup` scans the table for five kinds of entries and then changes up
to two of them; `_DhcpClientSMEHandle` changes the selected entry again and may
clean the history of the client in all others.  In a table in which a MAC address
owns at most one entry and no entry is in state SELECT the two together can do
four things, and `Answer` says what each of them makes of every entry:

* an OFFER of entry `i` (`offered`),
* an ACK for entry `i` (`acked`),
* a NAK, with the entry of the client given up (`gaveUp`) or not,
* no reply, with the entry of the client given up.

`handleRequest_answer` is this inversion of the callback.  Which of several entries the lookup
prefers is in `Discovers` and `Requests`, the outcomes for the two message types; the results on
the server use these and nothing else about the scan.
-/

namespace Nl6621.Dhcp

open Lib

/-- The entry is in use by the MAC address: offered to it or bound. -/
def Client.Owned (m : Mac) (c : Client) : Prop := c.State ≠ .IDLE ∧ c.MacAddr = m

instance (m : Mac) (c : Client) : Decidable (c.Owned m) := instDecidableAnd

/-- The entry has the address `r` and is in use by another MAC address. -/
def Client.Taken (m : Mac) (r : UInt32) (c : Client) : Prop :=
  c.State ≠ .IDLE ∧ c.MacAddr ≠ m ∧ c.IpAddr = r

/-- A MAC address owns at most one entry. -/
def Table.OneOwner (t : Table) : Prop :=
  ∀ i j, (t i).State ≠ .IDLE → (t j).State ≠ .IDLE → (t i).MacAddr = (t j).MacAddr → i = j

def Table.NoSelect (t : Table) : Prop := ∀ i, (t i).State ≠ .SELECT

variable {t : Table} {m : Mac} {r : UInt32} {i j : Index} {l : List Index} {c : Candidates}

theorem Table.OneOwner.eq (h : t.OneOwner) (hi : (t i).Owned m) (hj : (t j).Owned m) : i = j :=
  h i j hi.1 hj.1 (hi.2.trans hj.2.symm)

theorem Client.Owned.not_idle {c : Client} (h : c.Owned m) (hs : c.State = .IDLE) : False :=
  h.1 hs

/-! ### The scan -/

/-- What is known after the rounds of the scan for the entries `l`. -/
structure Scanned (t : Table) (m : Mac) (r : UInt32) (l : List Index) (c : Candidates) : Prop where
  free : FindsIn l (fun i => (t i).State = .IDLE ∧ (t i).MacAddr = zeroMac) c.pFreeClient
  req : FindsIn l (fun i => (t i).State = .IDLE ∧ (t i).IpAddr = r) c.pReqClient
  myHistory : FindsIn l (fun i => (t i).State = .IDLE ∧ (t i).MacAddr = m) c.pMyHistoryClient
  history : FindsIn l (fun i => (t i).State = .IDLE ∧ (t i).MacAddr ≠ zeroMac) c.pHistoryClient
  my : FindsIn l (fun i => (t i).Owned m) c.pMyClient
  unavailable : c.IpUnavailable = true ↔ ∃ i ∈ l, (t i).Taken m r

theorem findsIn_orFirst {p : Index → Prop} [Decidable (p i)] {o : Option Index}
    (hs : (t i).State = .IDLE) (h : FindsIn l (fun i => (t i).State = .IDLE ∧ p i) o) :
    FindsIn (l ++ [i]) (fun i => (t i).State = .IDLE ∧ p i) (orFirst o (p i) i) := by
  have h' := h.first (i := i)
  simpa only [hs, true_and, orFirst] using h'

theorem exists_append_taken (hi : ¬ (t i).Taken m r) :
    (∃ j ∈ l ++ [i], (t j).Taken m r) ↔ ∃ j ∈ l, (t j).Taken m r := by
  constructor
  · rintro ⟨j, hj, ht⟩
    rcases List.mem_append.mp hj with hj | hj
    · exact ⟨j, hj, ht⟩
    · rw [List.mem_singleton.mp hj] at ht
      exact absurd ht hi
  · rintro ⟨j, hj, ht⟩
    exact ⟨j, List.mem_append_left _ hj, ht⟩

theorem scanned_scanClient (h : Scanned t m r l c) (i : Index) :
    Scanned t m r (l ++ [i]) (scanClient t m r c i) := by
  by_cases hs : (t i).State = .IDLE
  · have hown : ¬ (t i).Owned m := fun h => h.not_idle hs
    rw [scanClient, if_pos hs]
    refine ⟨findsIn_orFirst hs h.free, findsIn_orFirst hs h.req, findsIn_orFirst hs h.myHistory,
      findsIn_orFirst hs h.history, h.my.skip hown, ?_⟩
    rw [exists_append_taken fun ht => ht.1 hs]
    exact h.unavailable
  · have hidle : ∀ p : Prop, ¬ ((t i).State = .IDLE ∧ p) := fun p hp => hs hp.1
    rw [scanClient, if_neg hs]
    by_cases hm : (t i).MacAddr = m
    · rw [if_pos hm]
      refine ⟨h.free.skip (hidle _), h.req.skip (hidle _), h.myHistory.skip (hidle _),
        h.history.skip (hidle _), FindsIn.last ⟨hs, hm⟩, ?_⟩
      rw [exists_append_taken fun ht => ht.2.1 hm]
      exact h.unavailable
    rw [if_neg hm]
    by_cases hr : (t i).IpAddr = r
    · rw [if_pos hr]
      refine ⟨h.free.skip (hidle _), h.req.skip (hidle _), h.myHistory.skip (hidle _),
        h.history.skip (hidle _), h.my.skip fun ho => hm ho.2, ?_⟩
      exact ⟨fun _ => ⟨i, by simp, hs, hm, hr⟩, fun _ => rfl⟩
    · rw [if_neg hr]
      refine ⟨h.free.skip (hidle _), h.req.skip (hidle _), h.myHistory.skip (hidle _),
        h.history.skip (hidle _), h.my.skip fun ho => hm ho.2, ?_⟩
      rw [exists_append_taken fun ht => hr ht.2.2]
      exact h.unavailable

theorem scanned_scan (t : Table) (m : Mac) (r : UInt32) :
    Scanned t m r (List.finRange 8) (scan t m r) := by
  have h0 : Scanned t m r [] ⟨none, none, none, none, none, false⟩ :=
    ⟨.nil, .nil, .nil, .nil, .nil, by simp⟩
  exact foldl_scan (P := Scanned t m r) h0 (fun _ _ i h => scanned_scanClient h i) _

/-! ### The changes of the table -/

/-- The client gives up what it owns. -/
def gaveUp (m : Mac) (t : Table) : Table := fun j =>
  if (t j).Owned m then giveUp (t j) else t j

/-- Entry `i` is offered to the client, which loses the entry it owned. -/
def offered (m : Mac) (i : Index) (t : Table) : Table := fun j =>
  if j = i then
    { t j with State := .REQUEST, Timeout := DHCP_DEFFAULT_TIMEOUT, MacAddr := m }
  else if (t j).Owned m then { t j with State := .IDLE, MacAddr := zeroMac }
  else t j

/-- Entry `i` is bound to the client, and no other entry names it. -/
def acked (m : Mac) (i : Index) (t : Table) : Table := fun j =>
  if j = i then { t j with State := .BIND, Lease := DHCP_DEFAULT_LEASE_TIME, MacAddr := m }
  else if (t j).MacAddr = m then { t j with State := .IDLE, MacAddr := zeroMac }
  else t j

theorem modify_giveUp (ho : t.OneOwner) (hi : (t i).Owned m) : t.modify i giveUp = gaveUp m t := by
  funext j
  rw [Table.modify, gaveUp]
  by_cases hj : j = i
  · rw [if_pos hj, if_pos (hj ▸ hi)]
  · rw [if_neg hj, if_neg fun h => hj (ho.eq h hi)]

theorem gaveUp_of_not_owned (h : ∀ i, ¬ (t i).Owned m) : gaveUp m t = t := by
  funext j
  rw [gaveUp, if_neg (h j)]

/-! ### The lookup, by message type -/

/-- The table when the lookup has selected entry `i` for an offer. -/
def discovered (m : Mac) (i : Index) (t : Table) : Table := fun j =>
  if j = i then { t j with State := .IDLE, MacAddr := m }
  else if (t j).Owned m then { t j with State := .IDLE, MacAddr := zeroMac }
  else t j

/-- The table when the lookup has selected entry `i` for an ACK. -/
def requested (m : Mac) (i : Index) (t : Table) : Table := fun j =>
  if j = i then { t j with MacAddr := m } else gaveUp m t j

theorem setMac_some {i : Index} {t : Table} :
    setMac m (some i, t) = (some i, t.modify i fun cl => { cl with MacAddr := m }) := rfl

theorem setMac_none {t : Table} : setMac m (none, t) = (none, t) := rfl

/-- An entry that is idle is selected for a client that owns nothing. -/
theorem discovered_of_idle (hn : ∀ j, ¬ (t j).Owned m) (hi : (t i).State = .IDLE) :
    (t.modify i fun cl => { cl with MacAddr := m }) = discovered m i t := by
  funext j
  rw [Table.modify, discovered]
  by_cases hj : j = i
  · subst hj
    rw [if_pos rfl, if_pos rfl, ← hi]
  · rw [if_neg hj, if_neg hj, if_neg (hn j)]

/-- An idle entry is selected for a client that owns another one. -/
theorem discovered_of_req (ho : t.OneOwner) {my : Index} (hmy : (t my).Owned m)
    (hi : (t i).State = .IDLE) :
    (((t.modify my fun cl => { cl with State := .IDLE }).modify my fun cl =>
      if cl.State ≠ .BIND then { cl with MacAddr := zeroMac } else cl).modify i fun cl =>
        { cl with MacAddr := m }) = discovered m i t := by
  have hne : i ≠ my := fun h => hmy.not_idle (h ▸ hi)
  funext j
  rw [discovered]
  by_cases hj : j = i
  · subst hj
    simp [Table.modify, hne, ← hi]
  · by_cases hjm : j = my
    · subst hjm
      simp [Table.modify, hj, hmy]
    · have hnot : ¬ (t j).Owned m := fun h => hjm (ho.eq h hmy)
      simp [Table.modify, hj, hjm, hnot]

/-- The entry the client owns is selected again. -/
theorem discovered_of_my (ho : t.OneOwner) (hi : (t i).Owned m) :
    ((t.modify i fun cl => { cl with State := .IDLE }).modify i fun cl =>
      { cl with MacAddr := m }) = discovered m i t := by
  funext j
  rw [discovered]
  by_cases hj : j = i
  · subst hj
    simp [Table.modify]
  · have hnot : ¬ (t j).Owned m := fun h => hj (ho.eq h hi)
    simp [Table.modify, hj, hnot]

theorem requested_of_idle (ho : t.OneOwner) {my : Index} (hmy : (t my).Owned m)
    (hi : (t i).State = .IDLE) :
    ((t.modify my giveUp).modify i fun cl => { cl with MacAddr := m }) = requested m i t := by
  rw [modify_giveUp ho hmy]
  funext j
  rw [Table.modify, requested]
  by_cases hj : j = i
  · subst hj
    rw [if_pos rfl, if_pos rfl, gaveUp, if_neg fun h => h.not_idle hi]
  · rw [if_neg hj, if_neg hj]

theorem requested_of_not_owned (hn : ∀ j, j ≠ i → ¬ (t j).Owned m) :
    (t.modify i fun cl => { cl with MacAddr := m }) = requested m i t := by
  funext j
  rw [Table.modify, requested]
  by_cases hj : j = i
  · rw [if_pos hj, if_pos hj]
  · rw [if_neg hj, if_neg hj, gaveUp, if_neg (hn j hj)]

theorem mem_finRange (i : Index) : i ∈ List.finRange 8 := List.mem_finRange i

/-- The outcomes of the lookup for a DISCOVER: an entry with the requested address, the client's
own, one it had before, any idle one, or none. -/
inductive Discovers (m : Mac) (r : UInt32) (t : Table) : Option Index × Table → Prop where
  | req {i : Index} (h : (t i).State = .IDLE ∧ (t i).IpAddr = r) :
      Discovers m r t (some i, discovered m i t)
  | my {i : Index} (hreq : ∀ j, ¬ ((t j).State = .IDLE ∧ (t j).IpAddr = r)) (h : (t i).Owned m) :
      Discovers m r t (some i, discovered m i t)
  | myHistory {i : Index} (hreq : ∀ j, ¬ ((t j).State = .IDLE ∧ (t j).IpAddr = r))
      (hown : ∀ j, ¬ (t j).Owned m) (h : (t i).State = .IDLE ∧ (t i).MacAddr = m) :
      Discovers m r t (some i, discovered m i t)
  | free {i : Index} (hreq : ∀ j, ¬ ((t j).State = .IDLE ∧ (t j).IpAddr = r))
      (hown : ∀ j, ¬ (t j).Owned m) (hist : ∀ j, ¬ ((t j).State = .IDLE ∧ (t j).MacAddr = m))
      (h : (t i).State = .IDLE) : Discovers m r t (some i, discovered m i t)
  | full (hreq : ∀ j, ¬ ((t j).State = .IDLE ∧ (t j).IpAddr = r)) (hown : ∀ j, ¬ (t j).Owned m)
      (h : ∀ j, (t j).State ≠ .IDLE) : Discovers m r t (none, t)

theorem lookup_discovers (ho : t.OneOwner) (srvIp r s : UInt32) :
    Discovers m r t (clientTableLookup srvIp m DHCP_MSG_DISCOVER r s t) := by
  have hs := scanned_scan t m r
  have heq : clientTableLookup srvIp m DHCP_MSG_DISCOVER r s t =
      setMac m (lookupDiscover (scan t m r) t) := rfl
  rw [heq]
  generalize scan t m r = c at hs ⊢
  rw [lookupDiscover]
  cases hmy : c.pMyClient with
  | some my =>
    have hown := hs.my.1 my hmy
    cases hreq : c.pReqClient with
    | some req =>
      have hidle := hs.req.1 req hreq
      simp only [setMac_some, discovered_of_req ho hown hidle.1]
      exact .req hidle
    | none =>
      simp only [setMac_some, discovered_of_my ho hown]
      exact .my ((hs.req.eq_none_iff mem_finRange).mp hreq) hown
  | none =>
    have hnot := (hs.my.eq_none_iff mem_finRange).mp hmy
    have hpick : ∀ i, (t i).State = .IDLE → setMac m (some i, t) = (some i, discovered m i t) :=
      fun i hi => by rw [setMac_some, discovered_of_idle hnot hi]
    cases hreq : c.pReqClient with
    | some i =>
      have hi := hs.req.1 i hreq
      exact hpick i hi.1 ▸ .req hi
    | none =>
      have hnoreq := (hs.req.eq_none_iff mem_finRange).mp hreq
      cases hh : c.pMyHistoryClient with
      | some i =>
        have hi := hs.myHistory.1 i hh
        exact hpick i hi.1 ▸ .myHistory hnoreq hnot hi
      | none =>
        have hnohist := (hs.myHistory.eq_none_iff mem_finRange).mp hh
        cases hf : c.pFreeClient with
        | some i =>
          have hi := (hs.free.1 i hf).1
          exact hpick i hi ▸ .free hnoreq hnot hnohist hi
        | none =>
          cases hold : c.pHistoryClient with
          | some i =>
            have hi := (hs.history.1 i hold).1
            exact hpick i hi ▸ .free hnoreq hnot hnohist hi
          | none =>
            refine .full hnoreq hnot fun i hi => ?_
            by_cases hz : (t i).MacAddr = zeroMac
            · exact hs.free.2 hf i (mem_finRange i) ⟨hi, hz⟩
            · exact hs.history.2 hold i (mem_finRange i) ⟨hi, hz⟩

/-- **The lookup for a DISCOVER** selects an entry that is idle or the client's own,
if there is one. -/
theorem lookup_discover (ho : t.OneOwner) (srvIp r s : UInt32) :
    (∃ i, ((t i).State = .IDLE ∨ (t i).Owned m) ∧
      clientTableLookup srvIp m DHCP_MSG_DISCOVER r s t = (some i, discovered m i t)) ∨
    ((∀ i, (t i).State ≠ .IDLE ∧ ¬ (t i).Owned m) ∧
      clientTableLookup srvIp m DHCP_MSG_DISCOVER r s t = (none, t)) := by
  have hl := lookup_discovers (m := m) ho srvIp r s
  generalize clientTableLookup srvIp m DHCP_MSG_DISCOVER r s t = res at hl ⊢
  cases hl with
  | req h => exact .inl ⟨_, .inl h.1, rfl⟩
  | my _ h => exact .inl ⟨_, .inr h, rfl⟩
  | myHistory _ _ h => exact .inl ⟨_, .inl h.1, rfl⟩
  | free _ _ _ h => exact .inl ⟨_, .inl h, rfl⟩
  | full _ hown h => exact .inr ⟨fun i => ⟨h i, hown i⟩, rfl⟩

/-- A REQUEST of the client can be met: the server is meant, the address is not in
use by another client, and there is an entry to bind. -/
def Grantable (srvIp : UInt32) (m : Mac) (r s : UInt32) (t : Table) : Prop :=
  (s = 0 ∨ srvIp = s) ∧ (∀ i, ¬ (t i).Taken m r) ∧
    ∃ i, (t i).Owned m ∨ ((t i).State = .IDLE ∧ (t i).IpAddr = r)

/-- The outcomes of the lookup for a REQUEST, which is meant for this server if `mine`: the entry
with the requested address, the client's own, or none. -/
inductive Requests (mine : Prop) (m : Mac) (r : UInt32) (t : Table) :
    Option Index × Table → Prop where
  | req {i : Index} (hmine : mine) (hfree : ∀ j, ¬ (t j).Taken m r)
      (h : (t i).State = .IDLE ∧ (t i).IpAddr = r) : Requests mine m r t (some i, requested m i t)
  | my {i : Index} (hmine : mine) (hfree : ∀ j, ¬ (t j).Taken m r)
      (hreq : ∀ j, ¬ ((t j).State = .IDLE ∧ (t j).IpAddr = r)) (h : (t i).Owned m) :
      Requests mine m r t (some i, requested m i t)
  | gaveUp (h : (∃ j, (t j).Taken m r) ∨ ¬ mine ∧ ∃ j, (t j).State = .IDLE ∧ (t j).IpAddr = r) :
      Requests mine m r t (none, gaveUp m t)
  | none (hfree : ∀ j, ¬ (t j).Taken m r) (hreq : ∀ j, ¬ ((t j).State = .IDLE ∧ (t j).IpAddr = r))
      (h : mine → ∀ j, ¬ (t j).Owned m) : Requests mine m r t (none, t)

theorem lookup_requests (ho : t.OneOwner) (srvIp r s : UInt32) :
    Requests (s = 0 ∨ srvIp = s) m r t (clientTableLookup srvIp m DHCP_MSG_REQUEST r s t) := by
  have hs := scanned_scan t m r
  have heq : clientTableLookup srvIp m DHCP_MSG_REQUEST r s t =
      setMac m (lookupRequest (scan t m r) (s = 0 ∨ srvIp = s) t) := rfl
  rw [heq]
  generalize scan t m r = c at hs ⊢
  rw [lookupRequest]
  -- a client without an entry has nothing to give up
  have hnone : c.pMyClient = none → gaveUp m t = t := fun hmy =>
    gaveUp_of_not_owned fun i => (hs.my.eq_none_iff mem_finRange).mp hmy i
  by_cases hu : c.IpUnavailable = true
  · obtain ⟨j, -, hj⟩ := hs.unavailable.mp hu
    cases hmy : c.pMyClient with
    | some my =>
      simp only [if_pos hu, setMac_none, modify_giveUp ho (hs.my.1 my hmy)]
      exact .gaveUp (.inl ⟨j, hj⟩)
    | none =>
      simp only [if_pos hu, setMac_none]
      have hg : Requests (s = 0 ∨ srvIp = s) m r t (none, gaveUp m t) := .gaveUp (.inl ⟨j, hj⟩)
      rwa [hnone hmy] at hg
  have hfree : ∀ i, ¬ (t i).Taken m r :=
    fun i hi => hu (hs.unavailable.mpr ⟨i, mem_finRange i, hi⟩)
  cases hreq : c.pReqClient with
  | some req =>
    have hidle := hs.req.1 req hreq
    by_cases hm : s = 0 ∨ srvIp = s
    · cases hmy : c.pMyClient with
      | some my =>
        simp only [if_neg hu, if_pos hm, setMac_some,
          requested_of_idle ho (hs.my.1 my hmy) hidle.1]
        exact .req hm hfree hidle
      | none =>
        have hnot := (hs.my.eq_none_iff mem_finRange).mp hmy
        simp only [if_neg hu, if_pos hm, setMac_some, requested_of_not_owned fun j _ => hnot j]
        exact .req hm hfree hidle
    · cases hmy : c.pMyClient with
      | some my =>
        simp only [if_neg hu, if_neg hm, setMac_none, modify_giveUp ho (hs.my.1 my hmy)]
        exact .gaveUp (.inr ⟨hm, req, hidle⟩)
      | none =>
        simp only [if_neg hu, if_neg hm, setMac_none]
        have hg : Requests (s = 0 ∨ srvIp = s) m r t (none, gaveUp m t) :=
          .gaveUp (.inr ⟨hm, req, hidle⟩)
        rwa [hnone hmy] at hg
  | none =>
    have hnoreq := (hs.req.eq_none_iff mem_finRange).mp hreq
    cases hmy : c.pMyClient with
    | some my =>
      have hown := hs.my.1 my hmy
      by_cases hm : s = 0 ∨ srvIp = s
      · simp only [if_neg hu, if_pos hm, setMac_some,
          requested_of_not_owned fun j hj h => hj (ho.eq h hown)]
        exact .my hm hfree hnoreq hown
      · simp only [if_neg hu, if_neg hm, setMac_none]
        exact .none hfree hnoreq fun h => absurd h hm
    | none =>
      have hnot := (hs.my.eq_none_iff mem_finRange).mp hmy
      by_cases hm : s = 0 ∨ srvIp = s
      · simp only [if_neg hu, if_pos hm, setMac_none]
        exact .none hfree hnoreq fun _ => hnot
      · simp only [if_neg hu, if_neg hm, setMac_none]
        exact .none hfree hnoreq fun _ => hnot

/-- **The lookup for a REQUEST.** -/
theorem lookup_request (ho : t.OneOwner) (srvIp r s : UInt32) :
    (∃ i, Grantable srvIp m r s t ∧ ((t i).Owned m ∨ (t i).State = .IDLE ∧ (t i).IpAddr = r) ∧
      clientTableLookup srvIp m DHCP_MSG_REQUEST r s t = (some i, requested m i t)) ∨
    (¬ Grantable srvIp m r s t ∧
      (clientTableLookup srvIp m DHCP_MSG_REQUEST r s t = (none, t) ∨
        clientTableLookup srvIp m DHCP_MSG_REQUEST r s t = (none, gaveUp m t))) := by
  have hl := lookup_requests (m := m) ho srvIp r s
  generalize clientTableLookup srvIp m DHCP_MSG_REQUEST r s t = res at hl ⊢
  cases hl with
  | @req i hm hfree h => exact .inl ⟨i, ⟨hm, hfree, i, .inr h⟩, .inr h, rfl⟩
  | @my i hm hfree _ h => exact .inl ⟨i, ⟨hm, hfree, i, .inl h⟩, .inl h, rfl⟩
  | gaveUp h =>
    refine .inr ⟨fun hg => ?_, .inr rfl⟩
    rcases h with ⟨j, hj⟩ | ⟨hm, -⟩
    · exact hg.2.1 j hj
    · exact hm hg.1
  | none _ hreq h =>
    refine .inr ⟨fun hg => ?_, .inl rfl⟩
    obtain ⟨i, hi | hi⟩ := hg.2.2
    · exact h hg.1 i hi
    · exact hreq i hi

theorem lookupRelease_eq (ho : t.OneOwner) (r : UInt32) :
    setMac m (lookupRelease (scan t m r) t) = (none, gaveUp m t) := by
  have hs := scanned_scan t m r
  rw [lookupRelease]
  cases hmy : (scan t m r).pMyClient with
  | some my => simp only [setMac_none, modify_giveUp ho (hs.my.1 my hmy)]
  | none =>
    have hnot := (hs.my.eq_none_iff mem_finRange).mp hmy
    simp only [setMac_none, gaveUp_of_not_owned hnot]

/-! ### The state machine of the selected entry -/

theorem genAndSend_clients (pbuf : Bool) (rep : Reply) (srv : Server) :
    (genAndSend pbuf rep srv).1.Clients = srv.Clients := by
  cases pbuf <;> rfl

theorem genAndSend_reply (pbuf : Bool) (rep : Reply) (srv : Server) :
    (genAndSend pbuf rep srv).2 = if pbuf then some rep else none := by
  cases pbuf <;> rfl

/-- The entry selected for a DISCOVER is idle, and is offered. -/
theorem smeHandle_discover (pbuf : Bool) (i : Index) (xid : UInt32) (srv : Server) :
    let r := dhcpClientSMEHandle pbuf i DHCP_MSG_DISCOVER xid
      { srv with Clients := discovered m i srv.Clients }
    r.1.Clients = offered m i srv.Clients ∧
      r.2 = if pbuf then some (leaseReply srv DHCP_MSG_OFFER (srv.Clients i) m xid) else none := by
  intro r
  have hi : discovered m i srv.Clients i = { srv.Clients i with State := .IDLE, MacAddr := m } := by
    rw [discovered, if_pos rfl]
  have hr : r = smeOffer pbuf i xid { srv with
      Clients := (discovered m i srv.Clients).modify i fun c => { c with State := .SELECT } } := by
    simp [r, dhcpClientSMEHandle, hi]
  rw [hr]
  refine ⟨?_, ?_⟩
  · simp only [smeOffer, genAndSend_clients]
    funext j
    by_cases hj : j = i
    · subst hj
      simp [Table.modify, discovered, offered]
    · simp [Table.modify, discovered, offered, hj]
  · simp only [smeOffer, genAndSend_reply, Table.modify, if_pos, hi]
    rfl

/-- Binding the selected entry cleans every other entry with the MAC address. -/
theorem clean_requested (t : Table) (i : Index) :
    cleanClientHistory m ((requested m i t).modify i fun c =>
      { c with Lease := DHCP_DEFAULT_LEASE_TIME, State := .BIND }) = acked m i t := by
  funext j
  rw [cleanClientHistory, acked]
  by_cases hj : j = i
  · subst hj
    simp [Table.modify, requested]
  by_cases hm : (t j).MacAddr = m
  · by_cases hs : (t j).State = .IDLE
    · have hnot : ¬ (t j).Owned m := fun h => h.not_idle hs
      simp [Table.modify, requested, gaveUp, hj, hm, hs, hnot]
    · have hown : (t j).Owned m := ⟨hs, hm⟩
      simp only [Table.modify, requested, gaveUp, hj, hm, hown, if_true, if_false, giveUp, true_and]
      split <;> split <;> simp_all
  · have hnot : ¬ (t j).Owned m := fun h => hm h.2
    simp [Table.modify, requested, gaveUp, hj, hm, hnot]

/-- The entry selected for a REQUEST is not in state SELECT, and is bound. -/
theorem smeHandle_request (pbuf : Bool) (i : Index) (xid : UInt32) (srv : Server)
    (hsel : (srv.Clients i).State ≠ .SELECT) :
    let r := dhcpClientSMEHandle pbuf i DHCP_MSG_REQUEST xid
      { srv with Clients := requested m i srv.Clients }
    r.1.Clients = acked m i srv.Clients ∧
      r.2 = if pbuf then some (leaseReply srv DHCP_MSG_ACK (srv.Clients i) m xid) else none := by
  intro r
  have hi : requested m i srv.Clients i = { srv.Clients i with MacAddr := m } := by
    rw [requested, if_pos rfl]
  have hr : r = smeAck pbuf i xid { srv with Clients := requested m i srv.Clients } := by
    simp only [r, dhcpClientSMEHandle, hi]
    cases hst : (srv.Clients i).State with
    | IDLE => rfl
    | SELECT => exact absurd hst hsel
    | REQUEST => rfl
    | BIND => rfl
  rw [hr]
  refine ⟨?_, ?_⟩
  · have hmac : ((requested m i srv.Clients).modify i fun c =>
        { c with Lease := DHCP_DEFAULT_LEASE_TIME, State := .BIND }) i =
          { srv.Clients i with
            Lease := DHCP_DEFAULT_LEASE_TIME, State := .BIND, MacAddr := m } := by
      rw [Table.modify, if_pos rfl, hi]
    simp only [smeAck, genAndSend_clients, hmac]
    exact clean_requested srv.Clients i
  · simp only [smeAck, genAndSend_reply, hi]
    rfl

/-! ### The answer to a request -/

/-- What the server can make of a request: the new table and the reply it tries to
send. -/
inductive Answer (srv : Server) (q : Request) : Table → Option Reply → Prop where
  | offer {i : Index} (ht : q.msgType = DHCP_MSG_DISCOVER)
      (hi : (srv.Clients i).State = .IDLE ∨ (srv.Clients i).Owned q.MacAddr) :
      Answer srv q (offered q.MacAddr i srv.Clients)
        (some (leaseReply srv DHCP_MSG_OFFER (srv.Clients i) q.MacAddr q.Xid))
  | ack {i : Index} (ht : q.msgType = DHCP_MSG_REQUEST)
      (hg : Grantable srv.ServerIpAddr q.MacAddr q.reqIpAddr q.serverId srv.Clients)
      (hi : (srv.Clients i).Owned q.MacAddr ∨
        (srv.Clients i).State = .IDLE ∧ (srv.Clients i).IpAddr = q.reqIpAddr) :
      Answer srv q (acked q.MacAddr i srv.Clients)
        (some (leaseReply srv DHCP_MSG_ACK (srv.Clients i) q.MacAddr q.Xid))
  | nak {t : Table} (htab : t = srv.Clients ∨ t = gaveUp q.MacAddr srv.Clients)
      (hd : q.msgType = DHCP_MSG_DISCOVER →
        ∀ i, (srv.Clients i).State ≠ .IDLE ∧ ¬ (srv.Clients i).Owned q.MacAddr)
      (hr : q.msgType = DHCP_MSG_REQUEST →
        ¬ Grantable srv.ServerIpAddr q.MacAddr q.reqIpAddr q.serverId srv.Clients)
      (hl : q.msgType ≠ DHCP_MSG_RELEASE ∧ q.msgType ≠ DHCP_MSG_DECLINE) :
      Answer srv q t (some (nakReply srv q.MacAddr q.Xid))
  | silent (ht : q.msgType = DHCP_MSG_RELEASE ∨ q.msgType = DHCP_MSG_DECLINE) :
      Answer srv q (gaveUp q.MacAddr srv.Clients) none

variable {srv : Server} {q : Request}

theorem handleRequest_some (pbuf : Bool) {t : Table}
    (h : clientTableLookup srv.ServerIpAddr q.MacAddr q.msgType q.reqIpAddr q.serverId srv.Clients =
      (some i, t)) :
    handleRequest pbuf q srv =
      dhcpClientSMEHandle pbuf i q.msgType q.Xid { srv with Clients := t } := by
  simp only [handleRequest, h]

theorem handleRequest_none (pbuf : Bool) {t : Table}
    (h : clientTableLookup srv.ServerIpAddr q.MacAddr q.msgType q.reqIpAddr q.serverId srv.Clients =
      (none, t)) :
    (handleRequest pbuf q srv).1.Clients = t ∧
      (handleRequest pbuf q srv).2 =
        if q.msgType ≠ DHCP_MSG_RELEASE ∧ q.msgType ≠ DHCP_MSG_DECLINE then
          if pbuf then some (nakReply srv q.MacAddr q.Xid) else none
        else none := by
  simp only [handleRequest, h]
  split
  · exact ⟨genAndSend_clients .., genAndSend_reply ..⟩
  · exact ⟨rfl, rfl⟩

/-- How the lookup ends, by message type: the entry it selects and the table it
leaves. -/
theorem lookup_cases (ho : t.OneOwner) (srvIp : UInt32) (q : Request) :
    (∃ i, q.msgType = DHCP_MSG_DISCOVER ∧ ((t i).State = .IDLE ∨ (t i).Owned q.MacAddr) ∧
      clientTableLookup srvIp q.MacAddr q.msgType q.reqIpAddr q.serverId t =
        (some i, discovered q.MacAddr i t)) ∨
    (∃ i, q.msgType = DHCP_MSG_REQUEST ∧ Grantable srvIp q.MacAddr q.reqIpAddr q.serverId t ∧
      ((t i).Owned q.MacAddr ∨ (t i).State = .IDLE ∧ (t i).IpAddr = q.reqIpAddr) ∧
      clientTableLookup srvIp q.MacAddr q.msgType q.reqIpAddr q.serverId t =
        (some i, requested q.MacAddr i t)) ∨
    (∃ t', (t' = t ∨ t' = gaveUp q.MacAddr t) ∧
      (q.msgType = DHCP_MSG_DISCOVER → ∀ i, (t i).State ≠ .IDLE ∧ ¬ (t i).Owned q.MacAddr) ∧
      (q.msgType = DHCP_MSG_REQUEST →
        ¬ Grantable srvIp q.MacAddr q.reqIpAddr q.serverId t) ∧
      (q.msgType ≠ DHCP_MSG_RELEASE ∧ q.msgType ≠ DHCP_MSG_DECLINE) ∧
      clientTableLookup srvIp q.MacAddr q.msgType q.reqIpAddr q.serverId t = (none, t')) ∨
    ((q.msgType = DHCP_MSG_RELEASE ∨ q.msgType = DHCP_MSG_DECLINE) ∧
      clientTableLookup srvIp q.MacAddr q.msgType q.reqIpAddr q.serverId t =
        (none, gaveUp q.MacAddr t)) := by
  by_cases hd : q.msgType = DHCP_MSG_DISCOVER
  · have hlook := lookup_discover (m := q.MacAddr) ho srvIp q.reqIpAddr q.serverId
    rw [← hd] at hlook
    rcases hlook with ⟨i, hi, hl⟩ | ⟨hfull, hl⟩
    · exact .inl ⟨i, hd, hi, hl⟩
    · refine .inr (.inr (.inl ⟨t, .inl rfl, fun _ => hfull, fun hr => ?_, ?_, hl⟩))
      · rw [hd] at hr
        exact absurd hr (by decide)
      · rw [hd]
        decide
  by_cases hr : q.msgType = DHCP_MSG_REQUEST
  · have hlook := lookup_request (m := q.MacAddr) ho srvIp q.reqIpAddr q.serverId
    rw [← hr] at hlook
    rcases hlook with ⟨i, hg, hi, hl⟩ | ⟨hg, hl⟩
    · exact .inr (.inl ⟨i, hr, hg, hi, hl⟩)
    · have hother : q.msgType ≠ DHCP_MSG_RELEASE ∧ q.msgType ≠ DHCP_MSG_DECLINE := by
        rw [hr]
        decide
      rcases hl with hl | hl
      · exact .inr (.inr (.inl ⟨t, .inl rfl, fun h => absurd h hd, fun _ => hg, hother, hl⟩))
      · exact .inr (.inr (.inl ⟨_, .inr rfl, fun h => absurd h hd, fun _ => hg, hother, hl⟩))
  by_cases hl : q.msgType = DHCP_MSG_RELEASE ∨ q.msgType = DHCP_MSG_DECLINE
  · refine .inr (.inr (.inr ⟨hl, ?_⟩))
    rw [← lookupRelease_eq ho q.reqIpAddr, clientTableLookup, lookupSwitch, if_neg hd, if_neg hr]
    rcases hl with hl | hl
    · rw [if_pos hl]
    · rw [if_pos hl, ite_self]
  · have hother : q.msgType ≠ DHCP_MSG_RELEASE ∧ q.msgType ≠ DHCP_MSG_DECLINE :=
      ⟨fun h => hl (.inl h), fun h => hl (.inr h)⟩
    refine .inr (.inr (.inl
      ⟨t, .inl rfl, fun h => absurd h hd, fun h => absurd h hr, hother, ?_⟩))
    rw [clientTableLookup, lookupSwitch, if_neg hd, if_neg hr, if_neg hother.1, if_neg hother.2]
    rfl

/-- **A request gets one of the four answers.** -/
theorem handleRequest_answer (srv : Server) (ho : srv.Clients.OneOwner) (hn : srv.Clients.NoSelect)
    (pbuf : Bool) (q : Request) :
    ∃ rep, Answer srv q (handleRequest pbuf q srv).1.Clients rep ∧
      (handleRequest pbuf q srv).2 = if pbuf then rep else none := by
  rcases lookup_cases ho srv.ServerIpAddr q with ⟨i, hd, hi, hl⟩ | ⟨i, hr, hg, hi, hl⟩ |
    ⟨t', ht', hd, hr, hother, hl⟩ | ⟨hrel, hl⟩
  · have hsme := smeHandle_discover (m := q.MacAddr) pbuf i q.Xid srv
    rw [← hd] at hsme
    rw [handleRequest_some pbuf hl, hsme.1, hsme.2]
    exact ⟨_, .offer hd hi, rfl⟩
  · have hsme := smeHandle_request (m := q.MacAddr) pbuf i q.Xid srv (hn i)
    rw [← hr] at hsme
    rw [handleRequest_some pbuf hl, hsme.1, hsme.2]
    exact ⟨_, .ack hr hg hi, rfl⟩
  · obtain ⟨h1, h2⟩ := handleRequest_none pbuf hl
    rw [h1, h2, if_pos hother]
    exact ⟨_, .nak ht' hd hr hother, rfl⟩
  · obtain ⟨h1, h2⟩ := handleRequest_none pbuf hl
    rw [h1, h2, if_neg fun h => hrel.elim h.1 h.2]
    exact ⟨none, .silent hrel, by split <;> rfl⟩

end Nl6621.Dhcp
