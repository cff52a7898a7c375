import Nl6621.Dhcp.Stale

/-!
# No negotiation gets stuck

The tick handler counts down the timeout of an offered entry and the lease of a bound one, and frees
the entry when the counter comes to 0.  A counter that is 0 already is not touched: such an entry
would stay in its state for ever.  `Timed` says that this does not happen, as every way into REQUEST
or BIND sets the counter; with it, enough ticks free every entry (`negotiations_end`).
-/

set_option maxRecDepth 4000

namespace Nl6621.Dhcp

open Lib

variable {t t' : Table} {m : Mac} {i : Index} {srv srv' : Server} {q : Request}

/-- The counter of the state is running. -/
structure Client.Timed (c : Client) : Prop where
  request : c.State = .REQUEST → 1 ≤ c.Timeout ∧ c.Timeout ≤ DHCP_DEFFAULT_TIMEOUT
  bind : c.State = .BIND → 1 ≤ c.Lease ∧ c.Lease ≤ DHCP_DEFAULT_LEASE_TIME

theorem Client.Timed.of_idle {c : Client} (h : c.State = .IDLE) : c.Timed where
  request := by
    intro hs
    rw [h] at hs
    cases hs
  bind := by
    intro hs
    rw [h] at hs
    cases hs

/-! ### One event -/

theorem offered_timed (h : ∀ j, (t j).Timed) (j : Index) : (offered m i t j).Timed := by
  by_cases hj : j = i
  · rw [offered, if_pos hj]
    have hpos : 1 ≤ DHCP_DEFFAULT_TIMEOUT := by decide
    exact ⟨fun _ => ⟨hpos, le_rfl⟩, fun hs => (by cases hs)⟩
  · rw [offered, if_neg hj]
    split
    · exact .of_idle rfl
    · exact h j

theorem acked_timed (h : ∀ j, (t j).Timed) (j : Index) : (acked m i t j).Timed := by
  by_cases hj : j = i
  · rw [acked, if_pos hj]
    have hpos : 1 ≤ DHCP_DEFAULT_LEASE_TIME := by decide
    exact ⟨fun hs => (by cases hs), fun _ => ⟨hpos, le_rfl⟩⟩
  · rw [acked, if_neg hj]
    split
    · exact .of_idle rfl
    · exact h j

theorem gaveUp_timed (h : ∀ j, (t j).Timed) (j : Index) : (gaveUp m t j).Timed := by
  rw [gaveUp]
  split
  · exact .of_idle rfl
  · exact h j

theorem Answer.timed {rep : Option Reply} (ha : Answer srv q t' rep)
    (h : ∀ j, (srv.Clients j).Timed) (j : Index) : (t' j).Timed := by
  cases ha with
  | offer _ _ => exact offered_timed h j
  | ack _ _ _ => exact acked_timed h j
  | nak htab _ _ _ =>
    rcases htab with rfl | rfl
    · exact h j
    · exact gaveUp_timed h j
  | silent _ => exact gaveUp_timed h j

theorem tickClient_timed (present : Bool) {c : Client} (h : c.Timed) :
    (tickClient present c).Timed := by
  cases hc : c.State with
  | IDLE => simpa only [tickClient, hc] using h
  | SELECT => simpa only [tickClient, hc] using h
  | REQUEST =>
    obtain ⟨hpos, hle⟩ := h.request hc
    simp only [tickClient, hc, if_pos (show c.Timeout ≠ 0 by omega)]
    by_cases hlast : c.Timeout - 1 = 0
    · rw [if_pos hlast]
      exact .of_idle rfl
    · rw [if_neg hlast]
      refine ⟨fun _ => ⟨?_, ?_⟩, fun hs => by cases hs⟩
      · change 1 ≤ c.Timeout - 1
        omega
      · change c.Timeout - 1 ≤ _
        omega
  | BIND =>
    obtain ⟨hpos, hle⟩ := h.bind hc
    simp only [tickClient, hc, if_pos (show c.Lease ≠ 0 by omega)]
    by_cases hlast : c.Lease - 1 = 0
    · rw [if_pos hlast]
      exact .of_idle rfl
    · rw [if_neg hlast]
      by_cases hp : present = false
      · rw [if_pos hp]
        exact .of_idle rfl
      · rw [if_neg hp]
        refine ⟨fun hs => (by cases hs), fun _ => ⟨?_, ?_⟩⟩
        · change 1 ≤ c.Lease - 1
          omega
        · change c.Lease - 1 ≤ _
          omega

theorem deleteLoop_timed (m : Mac) (h : ∀ j, (t j).Timed) (is : List Index) (j : Index) :
    ((deleteLoop m t is).1 j).Timed := by
  induction is with
  | nil => exact h j
  | cons i is ih =>
    rw [deleteLoop]
    split
    · split
      · exact h j
      · simp only [Table.modify]
        split
        · exact .of_idle rfl
        · exact h j
    · exact ih

theorem step_timed {addr : Index → UInt32} {e : Event} (hs : Safe addr srv.Clients)
    (h : ∀ j, (srv.Clients j).Timed) (hstep : step srv e = some srv') (j : Index) :
    (srv'.Clients j).Timed := by
  cases e with
  | recv p after pbuf =>
    cases hstep
    rcases recvCb_cases hs p after pbuf with ⟨-, ht, -⟩ | ⟨q, rep, -, ha, -⟩
    · rw [ht]
      exact h j
    · exact ha.timed h j
  | tick present =>
    cases hstep
    rw [dhcpTickHandle]
    split
    · exact tickClient_timed _ (h j)
    · exact h j
  | delete mac =>
    cases hstep
    unfold dhcpsClientDelete
    split
    · exact h j
    · cases mac with
      | none => exact h j
      | some m => exact deleteLoop_timed m h _ j

/-! ### Runs -/

theorem timed_reachable {ip netmask : UInt32} (h : Reachable ip netmask srv) (j : Index) :
    (srv.Clients j).Timed := by
  have hboth : Safe (poolAddr ip netmask) srv.Clients ∧ ∀ j, (srv.Clients j).Timed := by
    refine h.invariant (I := fun srv => Safe (poolAddr ip netmask) srv.Clients ∧
      ∀ j, (srv.Clients j).Timed) ?_ ?_
    · intro s hs
      refine ⟨safe_started hs, ?_⟩
      obtain ⟨msg, rfl⟩ := started_eq hs
      exact fun j => .of_idle rfl
    · intro s e s' ⟨hsafe, htimed⟩ _ hstep
      exact ⟨step_safe hsafe hstep, step_timed hsafe htimed hstep⟩
  exact hboth.2 j

/-- The ticks of one entry. -/
def tickClients (presents : List Bool) (c : Client) : Client :=
  presents.foldl (fun c present => tickClient present c) c

theorem tickClients_idle (presents : List Bool) {c : Client} (h : c.State = .IDLE) :
    tickClients presents c = c := by
  induction presents with
  | nil => rfl
  | cons present presents ih =>
    have hsame : tickClient present c = c := by rw [tickClient, h]
    exact (congrArg (tickClients presents) hsame).trans ih

/-- **An offer ends** with its timeout. -/
theorem tickClients_request : ∀ (presents : List Bool) {c : Client}, c.State = .REQUEST →
    1 ≤ c.Timeout → c.Timeout ≤ presents.length →
      (tickClients presents c).State = .IDLE ∧ (tickClients presents c).MacAddr = zeroMac := by
  intro presents
  induction presents with
  | nil =>
    intro c _ hpos hle
    rw [List.length_nil] at hle
    omega
  | cons present presents ih =>
    intro c hc hpos hle
    rw [List.length_cons] at hle
    change (tickClients presents (tickClient present c)).State = _ ∧
      (tickClients presents (tickClient present c)).MacAddr = _
    by_cases hlast : c.Timeout - 1 = 0
    · have htick : tickClient present c =
          { c with Timeout := c.Timeout - 1, MacAddr := zeroMac, State := .IDLE } := by
        simp only [tickClient, hc, if_pos (show c.Timeout ≠ 0 by omega), if_pos hlast]
      rw [htick, tickClients_idle presents rfl]
      exact ⟨rfl, rfl⟩
    · have htick : tickClient present c = { c with Timeout := c.Timeout - 1 } := by
        simp only [tickClient, hc, if_pos (show c.Timeout ≠ 0 by omega), if_neg hlast]
      rw [htick]
      apply ih (c := { c with Timeout := c.Timeout - 1 }) hc
      · change 1 ≤ c.Timeout - 1
        omega
      · change c.Timeout - 1 ≤ _
        omega

/-- **A lease ends** with its time, or before when the client has left. -/
theorem tickClients_bind : ∀ (presents : List Bool) {c : Client}, c.State = .BIND →
    1 ≤ c.Lease → c.Lease ≤ presents.length → (tickClients presents c).State = .IDLE := by
  intro presents
  induction presents with
  | nil =>
    intro c _ hpos hle
    rw [List.length_nil] at hle
    omega
  | cons present presents ih =>
    intro c hc hpos hle
    rw [List.length_cons] at hle
    change (tickClients presents (tickClient present c)).State = _
    by_cases hend : c.Lease - 1 = 0 ∨ present = false
    · have htick : tickClient present c = { c with Lease := c.Lease - 1, State := .IDLE } := by
        simp only [tickClient, hc, if_pos (show c.Lease ≠ 0 by omega)]
        rcases hend with hlast | hp
        · rw [if_pos hlast]
        · rw [if_pos hp, ite_self]
      rw [htick, tickClients_idle presents rfl]
    · have hlast : c.Lease - 1 ≠ 0 := fun h => hend (.inl h)
      have htick : tickClient present c = { c with Lease := c.Lease - 1 } := by
        simp only [tickClient, hc, if_pos (show c.Lease ≠ 0 by omega), if_neg hlast,
          if_neg fun h => hend (.inr h)]
      rw [htick]
      apply ih (c := { c with Lease := c.Lease - 1 }) hc
      · change 1 ≤ c.Lease - 1
        omega
      · change c.Lease - 1 ≤ _
        omega

/-- Ticks without messages in between. -/
theorem run_ticks : ∀ (presents : List (Index → Bool)) {srv : Server}, srv.Enable = true →
    ∃ srv', run step srv (presents.map .tick) = some srv' ∧
      ∀ j, srv'.Clients j =
        tickClients (presents.map fun present => present j) (srv.Clients j) := by
  intro presents
  induction presents with
  | nil =>
    intro srv _
    exact ⟨srv, rfl, fun j => rfl⟩
  | cons present presents ih =>
    intro srv henable
    have htick : dhcpTickHandle present srv =
        { srv with Clients := fun i => tickClient (present i) (srv.Clients i) } := if_pos henable
    have hnext : (dhcpTickHandle present srv).Enable = true := by
      rw [htick]
      exact henable
    obtain ⟨srv', hrun, hrest⟩ := ih hnext
    refine ⟨srv', hrun, fun j => ?_⟩
    rw [hrest j, htick]
    rfl

/-- **No negotiation gets stuck.**  In every reachable state the counters are running; ticks without
messages free every entry that is offered after the timeout, and every entry after the lease time. -/
theorem negotiations_end {ip netmask : UInt32} (h : Reachable ip netmask srv) :
    (∀ i, ((srv.Clients i).State = .REQUEST →
        1 ≤ (srv.Clients i).Timeout ∧ (srv.Clients i).Timeout ≤ DHCP_DEFFAULT_TIMEOUT) ∧
      ((srv.Clients i).State = .BIND →
        1 ≤ (srv.Clients i).Lease ∧ (srv.Clients i).Lease ≤ DHCP_DEFAULT_LEASE_TIME)) ∧
    (∀ presents : List (Index → Bool), presents.length = DHCP_DEFFAULT_TIMEOUT →
      ∃ srv', run step srv (presents.map .tick) = some srv' ∧
        ∀ i, (srv.Clients i).State = .REQUEST →
          (srv'.Clients i).State = .IDLE ∧ (srv'.Clients i).MacAddr = zeroMac) ∧
    ∀ presents : List (Index → Bool), presents.length = DHCP_DEFAULT_LEASE_TIME →
      ∃ srv', run step srv (presents.map .tick) = some srv' ∧
        ∀ i, (srv'.Clients i).State = .IDLE := by
  have htimed := timed_reachable h
  have henable : srv.Enable = true := congrArg (fun config => config.1) (reachable_config h)
  refine ⟨fun i => ⟨(htimed i).request, (htimed i).bind⟩, ?_, ?_⟩
  · intro presents hlen
    obtain ⟨srv', hrun, hticks⟩ := run_ticks presents henable
    refine ⟨srv', hrun, fun i hi => ?_⟩
    obtain ⟨hpos, hle⟩ := (htimed i).request hi
    rw [hticks i]
    refine tickClients_request _ hi hpos ?_
    rw [List.length_map, hlen]
    exact hle
  · intro presents hlen
    obtain ⟨srv', hrun, hticks⟩ := run_ticks presents henable
    refine ⟨srv', hrun, fun i => ?_⟩
    rw [hticks i]
    cases hi : (srv.Clients i).State with
    | IDLE => rw [tickClients_idle _ hi, hi]
    | SELECT => exact absurd hi ((safe_reachable h).noSelect i)
    | REQUEST =>
      obtain ⟨hpos, hle⟩ := (htimed i).request hi
      refine (tickClients_request _ hi hpos ?_).1
      rw [List.length_map, hlen]
      exact le_trans hle (by decide)
    | BIND =>
      obtain ⟨hpos, hle⟩ := (htimed i).bind hi
      refine tickClients_bind _ hi hpos ?_
      rw [List.length_map, hlen]
      exact hle

/-- The server that has offered its first entry. -/
theorem negotiations_end_offered :
    (1 ≤ (offeredServer.Clients 0).Timeout ∧
      (offeredServer.Clients 0).Timeout ≤ DHCP_DEFFAULT_TIMEOUT) ∧
    (∃ srv', run step offeredServer
        ((List.replicate DHCP_DEFFAULT_TIMEOUT fun _ => true).map .tick) = some srv' ∧
      (srv'.Clients 0).State = .IDLE ∧ (srv'.Clients 0).MacAddr = zeroMac) ∧
    ∃ srv', run step offeredServer
        ((List.replicate DHCP_DEFAULT_LEASE_TIME fun _ => true).map .tick) = some srv' ∧
      ∀ i, (srv'.Clients i).State = .IDLE := by
  have hstate : (offeredServer.Clients 0).State = .REQUEST := by decide
  obtain ⟨hcounters, htimeout, hlease⟩ := negotiations_end offeredServer_reachable
  obtain ⟨srv', hrun, hidle⟩ := htimeout _ List.length_replicate
  exact ⟨(hcounters 0).1 hstate, ⟨srv', hrun, hidle 0 hstate⟩, hlease _ List.length_replicate⟩

end Nl6621.Dhcp
