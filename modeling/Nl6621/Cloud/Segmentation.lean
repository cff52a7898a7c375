import Nl6621.Cloud.Loop

/-!
# Packets and chunks

TCP delivers a stream of bytes; where one `recv` ends and the next begins is up
to the network.  `recv_data_process` gets one chunk at a time and keeps nothing
between two calls, so the bytes behind the last complete packet of a chunk are
gone, and the next chunk is read as if a packet started with it.

`dispatched_independent_iff` says for which streams this makes no difference:
only for those in which no packet could ever be found, that is, in which no
stretch of at most `CLOUD_RECV_BUFFER_SIZE` bytes starts with a complete packet.
For every other stream there are two splits with different packets: one that
cuts the stream right around such a packet, and the one into single bytes, which
dispatches nothing at all.
-/

namespace Nl6621.Cloud

open Lib Edp

variable {J : Type} (env : Env J)

/-- A way of receiving the stream: non-empty chunks that fit the buffer. -/
def IsSplit (chunks : List (List UInt8)) (stream : List UInt8) : Prop :=
  chunks.flatten = stream ∧ ∀ c ∈ chunks, c ≠ [] ∧ c.length ≤ cloudRecvBufferSize

/-- The packets dispatched over a connection. -/
def dispatchedBy (g : Globals) (chunks : List (List UInt8)) : List Block :=
  (receive env chunks (.start g)).task.dispatched

/-- However the stream is split, the same packets are dispatched. -/
def Independent (g : Globals) (stream : List UInt8) : Prop :=
  ∀ chunks chunks', IsSplit chunks stream → IsSplit chunks' stream →
    dispatchedBy env g chunks = dispatchedBy env g chunks'

/-- No stretch of the stream that fits the buffer starts with a complete packet. -/
def NoPacket (stream : List UInt8) : Prop :=
  ∀ seg, seg <:+: stream → seg.length ≤ cloudRecvBufferSize → frameLen seg ≤ 0

/-! ### What has been dispatched stays -/

theorem recvLoop_extends : ∀ (k : Nat) (buf : Buffer) (t : Task J),
    t.dispatched <+: (recvLoop env k buf t).task.dispatched := by
  intro k
  induction k with
  | zero => intro buf t; exact List.prefix_refl _
  | succ k ih =>
    intro buf t
    rw [recvLoop]
    split
    · exact List.prefix_refl _
    · next pkg buf' hg =>
      have hdisp : t.dispatched <+: (t.dispatch pkg).dispatched := List.prefix_append _ _
      split
      · next r pkg' t' hh =>
        refine hdisp.trans ?_
        rw [← handlePacket_dispatched env hh]
        exact ih buf' t'
      · exact hdisp
      · exact hdisp
    · exact List.prefix_refl _
    · exact List.prefix_refl _

theorem receive_extends : ∀ (chunks : List (List UInt8)) (t : Task J),
    t.dispatched <+: (receive env chunks t).task.dispatched := by
  intro chunks
  induction chunks with
  | nil => intro t; exact List.prefix_refl _
  | cons c chunks ih =>
    intro t
    have hrun : t.dispatched <+: (recvDataProcess env c t).task.dispatched :=
      recvLoop_extends env _ _ t.enter
    rw [receive]
    cases hr : recvDataProcess env c t with
    | mk t' ended =>
      rw [hr] at hrun
      cases ended with
      | needMore =>
        dsimp only
        split
        · exact hrun
        · exact hrun.trans (ih t')
      | assertFail => exact hrun
      | fault => exact hrun

/-! ### Chunks without a packet -/

theorem recvDataProcess_quiet {c : List UInt8} (hc : c.length ≤ cloudRecvBufferSize)
    (hn : frameLen c ≤ 0) (t : Task J) : recvDataProcess env c t = ⟨t.enter, .needMore⟩ := by
  have hlen : c.length ≤ 2500 := hc
  exact recvLoop_end env (received_recvBuffer c (by omega)) hn _ _

/-- Chunks without a packet are dropped. -/
theorem receive_quiet_append : ∀ (quiet rest : List (List UInt8)) (t : Task J),
    (∀ c ∈ quiet, c.length ≤ cloudRecvBufferSize ∧ frameLen c ≤ 0) →
      t.globals.tcpClientResetFlag ≠ 0xa5 →
      ∃ t', receive env (quiet ++ rest) t = receive env rest t' ∧
        t'.dispatched = t.dispatched ∧ t'.globals = t.globals := by
  intro quiet
  induction quiet with
  | nil => intro rest t _ _; exact ⟨t, rfl, rfl, rfl⟩
  | cons c quiet ih =>
    intro rest t hq hg
    obtain ⟨hlen, hn⟩ := hq c (List.mem_cons_self ..)
    obtain ⟨t', he, hd, hgl⟩ := ih rest t.enter
      (fun c' hc' => hq c' (List.mem_cons_of_mem _ hc')) hg
    refine ⟨t', ?_, hd, hgl⟩
    rw [List.cons_append, receive, recvDataProcess_quiet env hlen hn]
    exact (if_neg hg).trans he

theorem receive_quiet {quiet : List (List UInt8)} {t : Task J}
    (hq : ∀ c ∈ quiet, c.length ≤ cloudRecvBufferSize ∧ frameLen c ≤ 0)
    (hg : t.globals.tcpClientResetFlag ≠ 0xa5) :
    (receive env quiet t).task.dispatched = t.dispatched := by
  obtain ⟨t', he, hd, -⟩ := receive_quiet_append env quiet [] t hq hg
  rw [List.append_nil] at he
  rw [he]
  exact hd

/-- A chunk that starts with a packet dispatches something. -/
theorem receive_packet {c : List UInt8} (hc : c.length ≤ cloudRecvBufferSize)
    (hn : 0 < frameLen c) (rest : List (List UInt8)) (t : Task J) :
    (receive env (c :: rest) t).task.dispatched ≠ [] := by
  have hlen : c.length ≤ 2500 := hc
  obtain ⟨pkg, buf', -, -, he⟩ := recvLoop_packet env
    (received_recvBuffer c (by omega)) hn (by omega) c.length t.enter
  -- the packet is on the list as soon as it is handed over, and stays there
  have hmem : ((t.enter).dispatch pkg).dispatched <+:
      (receive env (c :: rest) t).task.dispatched := by
    rw [receive, recvDataProcess, he]
    cases ho : handlePacket env (pkg, t.enter.dispatch pkg) with
    | ok r =>
      obtain ⟨r, pkg', t'⟩ := r
      rw [afterPacket, ← handlePacket_dispatched env ho]
      have hloop := recvLoop_extends env c.length buf' t'
      cases hr : recvLoop env c.length buf' t' with
      | mk t'' ended =>
        rw [hr] at hloop
        cases ended with
        | needMore =>
          dsimp only
          split
          · exact hloop
          · exact hloop.trans (receive_extends env rest t'')
        | assertFail => exact hloop
        | fault => exact hloop
    | assertFail => exact List.prefix_refl _
    | fault => exact List.prefix_refl _
  intro hnil
  rw [hnil, List.prefix_nil] at hmem
  exact List.append_ne_nil_of_right_ne_nil _ (List.cons_ne_nil _ _) hmem

/-! ### Single bytes -/

/-- The stream, one byte a chunk. -/
def bytewise (bs : List UInt8) : List (List UInt8) := bs.map fun b => [b]

theorem flatten_bytewise (bs : List UInt8) : (bytewise bs).flatten = bs := by
  induction bs with
  | nil => rfl
  | cons b bs ih =>
    rw [bytewise] at ih ⊢
    rw [List.map_cons, List.flatten_cons, ih]
    rfl

theorem bytewise_quiet {bs : List UInt8} :
    ∀ c ∈ bytewise bs, c.length ≤ cloudRecvBufferSize ∧ frameLen c ≤ 0 := by
  intro c hc
  obtain ⟨b, -, rfl⟩ := List.mem_map.mp hc
  exact ⟨show 1 ≤ 2500 by omega, le_rfl⟩

theorem bytewise_ne_nil {bs : List UInt8} : ∀ c ∈ bytewise bs, c ≠ [] := by
  intro c hc
  obtain ⟨b, -, rfl⟩ := List.mem_map.mp hc
  exact List.cons_ne_nil _ _

theorem isSplit_bytewise (bs : List UInt8) : IsSplit (bytewise bs) bs :=
  ⟨flatten_bytewise bs, fun c hc => ⟨bytewise_ne_nil c hc, (bytewise_quiet c hc).1⟩⟩

/-- The stream with one stretch received in one piece and the rest byte by byte. -/
theorem isSplit_around (pre post : List UInt8) {seg : List UInt8} (hne : seg ≠ [])
    (hlen : seg.length ≤ cloudRecvBufferSize) :
    IsSplit (bytewise pre ++ seg :: bytewise post) (pre ++ seg ++ post) := by
  constructor
  · rw [List.flatten_append, List.flatten_cons, flatten_bytewise, flatten_bytewise,
      List.append_assoc]
  · intro c hc
    rcases List.mem_append.mp hc with hc | hc
    · exact (isSplit_bytewise pre).2 c hc
    · rcases List.mem_cons.mp hc with rfl | hc
      · exact ⟨hne, hlen⟩
      · exact (isSplit_bytewise post).2 c hc

/-! ### The streams that do not care -/

theorem split_quiet {stream : List UInt8} (h : NoPacket stream) {chunks : List (List UInt8)}
    (hs : IsSplit chunks stream) :
    ∀ c ∈ chunks, c.length ≤ cloudRecvBufferSize ∧ frameLen c ≤ 0 := by
  intro c hc
  have hlen := (hs.2 c hc).2
  refine ⟨hlen, h c ?_ hlen⟩
  rw [← hs.1]
  exact List.infix_of_mem_flatten hc

theorem dispatchedBy_around (pre post : List UInt8) {seg : List UInt8} {g : Globals}
    (hg : g.tcpClientResetFlag ≠ 0xa5) (hlen : seg.length ≤ cloudRecvBufferSize)
    (hn : 0 < frameLen seg) : dispatchedBy env g (bytewise pre ++ seg :: bytewise post) ≠ [] := by
  obtain ⟨t', he, -, -⟩ := receive_quiet_append env (bytewise pre) (seg :: bytewise post)
    (.start g) bytewise_quiet hg
  rw [dispatchedBy, he]
  exact receive_packet env hlen hn _ t'

theorem dispatchedBy_bytewise (stream : List UInt8) {g : Globals}
    (hg : g.tcpClientResetFlag ≠ 0xa5) : dispatchedBy env g (bytewise stream) = [] :=
  receive_quiet env bytewise_quiet hg

/-- **The packets dispatched depend on the segmentation**, except for the streams
in which no packet can be found at all: all splits of a stream dispatch the same
packets if and only if no stretch of it that fits the receive buffer starts with
a complete packet. -/
theorem dispatched_independent_iff {g : Globals} (hg : g.tcpClientResetFlag ≠ 0xa5)
    (stream : List UInt8) : Independent env g stream ↔ NoPacket stream := by
  constructor
  · rintro h seg ⟨pre, post, rfl⟩ hlen
    by_contra hn
    have hpos : 0 < frameLen seg := not_le.mp hn
    have hne : seg ≠ [] := by
      rintro rfl
      exact hn le_rfl
    have heq := h _ _ (isSplit_around pre post hne hlen)
      (isSplit_bytewise (pre ++ seg ++ post))
    rw [dispatchedBy_bytewise env _ hg] at heq
    exact dispatchedBy_around env pre post hg hlen hpos heq
  · intro h chunks chunks' hs hs'
    have h1 : dispatchedBy env g chunks = [] := receive_quiet env (split_quiet h hs) hg
    have h2 : dispatchedBy env g chunks' = [] := receive_quiet env (split_quiet h hs') hg
    rw [h1, h2]

theorem dispatched_independent_iff_connected :
    connected.tcpClientResetFlag ≠ 0xa5 ∧
      (Independent quietEnv connected [0xD0, 0x00] ↔ NoPacket [0xD0, 0x00]) :=
  ⟨by decide, dispatched_independent_iff quietEnv (by decide) _⟩

/-- **A ping response in two chunks is lost.**  In one piece it is dispatched, cut
behind its type byte it is not. -/
theorem pingResp_split_lost :
    IsSplit [[0xD0, 0x00]] [0xD0, 0x00] ∧ IsSplit [[0xD0], [0x00]] [0xD0, 0x00] ∧
      dispatchedBy quietEnv connected [[0xD0, 0x00]] ≠
        dispatchedBy quietEnv connected [[0xD0], [0x00]] := by
  refine ⟨⟨rfl, by decide⟩, ⟨rfl, by decide⟩, ?_⟩
  rw [show dispatchedBy quietEnv connected [[0xD0], [0x00]] = [] from
    dispatchedBy_bytewise quietEnv [0xD0, 0x00] (by decide)]
  exact dispatchedBy_around quietEnv [] [] (by decide) (by decide) (by decide)

end Nl6621.Cloud
