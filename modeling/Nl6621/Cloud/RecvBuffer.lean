import Nl6621.Cloud.Loop

/-!
# The object behind `recv_buf`

`Agent_cloud_init` allocates `CLOUD_RECV_BUFFER_SIZE` bytes, and a round of the receive loop stores
to them four times over: `Socket_TCPClientRecvData` clears them and lets `recv` store what has come,
`Agent_cloud_process` puts a terminator behind it, and `GetEdpPacket` moves the bytes behind a packet
to the front.  A store faults as soon as one of its bytes has an index outside the object, so the
round is taken apart into its stores, and none of them must fault.

`recv` is given the whole length.  When it uses it, the terminator comes one byte behind the object:
`staysInside_iff`.
-/

namespace Nl6621.Cloud

open Lib Edp

/-! ### The functions of the source -/

/-- What the calls of `Socket_TCPClientRecvData` lead to: `select` fails, the descriptor is not set,
`recv` fails, or it stores the bytes of a chunk. -/
inductive RecvCalls where
  | selectError
  | notSet
  | recvError
  | received (chunk : List UInt8)
deriving DecidableEq, Repr

/-- `flag` is `TCPClient_reset_flag` behind the `select`. -/
def socketTCPClientRecvData (flag : UInt8) (calls : RecvCalls) (recvbuf : Block) (len : Nat) :
    Outcome (Int × Block) := do
  let recvbuf ← recvbuf.store 0 (List.replicate len (some 0))
  if calls = .selectError ∨ flag = 0xa5 then .ok (-1, recvbuf)
  else
    match calls with
    | .recvError => .ok (-2, recvbuf)
    | .received chunk => do
      let recvbuf ← recvbuf.store 0 (chunk.map some)
      .ok (chunk.length, recvbuf)
    | _ => .ok (0, recvbuf)

/-- `recv_buf[ret] = '\0';` -/
def terminate (recvBuf : Block) (ret : Nat) : Outcome Block := recvBuf.store ret [some 0]

/-- The `RecvBuffer` that `recv_data_process` makes of its arguments. -/
def recvbufOf (buffer : Block) (len : Nat) : Buffer where
  data := buffer
  writePos := len
  readPos := 0
  capacity := bufferSize

/-- The loop of `recv_data_process` on `recvbuf` may come to call `GetEdpPacket` on `buf`. -/
inductive Called : Buffer → Buffer → Prop where
  | first {recvbuf : Buffer} : Called recvbuf recvbuf
  | next {recvbuf recvbuf' buf pkg : Buffer} (h : getEdpPacket recvbuf = .ok (some pkg, recvbuf'))
      (hc : Called recvbuf' buf) : Called recvbuf buf

/-- In a round of the receive loop no byte is stored outside `recv_buf`. -/
def StaysInside (flag : UInt8) (calls : RecvCalls) (recvBuf : Block) : Prop :=
  ∃ ret blk, socketTCPClientRecvData flag calls recvBuf cloudRecvBufferSize = .ok (ret, blk) ∧
    (0 < ret → ∃ blk', terminate blk ret.toNat = .ok blk' ∧
      ∀ buf, Called (recvbufOf blk' ret.toNat) buf → getEdpPacket buf ≠ .fault)

/-! ### What the stores leave -/

section

variable {recvBuf : Block} {flag : UInt8} {calls : RecvCalls} {chunk : List UInt8}

theorem clear_ok (hsize : recvBuf.length = cloudRecvBufferSize) :
    recvBuf.store 0 (List.replicate cloudRecvBufferSize (some 0)) =
      .ok (List.replicate cloudRecvBufferSize (some 0)) := by
  have hlen : (List.replicate cloudRecvBufferSize (some (0 : UInt8))).length = cloudRecvBufferSize :=
    List.length_replicate
  rw [Block.store_ok (by rw [hlen, hsize, Nat.zero_add]), Block.put, hlen, List.take_zero,
    List.nil_append, Nat.zero_add, ← hsize, List.drop_length, List.append_nil]

/-- A chunk laid over the cleared object. -/
theorem receive_ok (hchunk : chunk.length ≤ cloudRecvBufferSize) :
    Block.store (List.replicate cloudRecvBufferSize (some 0)) 0 (chunk.map some) =
      .ok (recvBuffer chunk).data := by
  rw [Block.store_ok (by rw [List.length_map, List.length_replicate, Nat.zero_add]; exact hchunk),
    Block.put, List.take_zero, List.nil_append, Nat.zero_add, List.length_map, List.drop_replicate,
    recvBuffer, List.map_append, List.map_replicate]

theorem length_recvBuffer (hchunk : chunk.length ≤ cloudRecvBufferSize) :
    (recvBuffer chunk).data.length = cloudRecvBufferSize := by
  rw [recvBuffer, List.length_map, List.length_append, List.length_replicate]
  omega

/-- The terminator is a zero on a zero. -/
theorem terminate_ok (hchunk : chunk.length < cloudRecvBufferSize) :
    terminate (recvBuffer chunk).data chunk.length = .ok (recvBuffer chunk).data := by
  have hlen := length_recvBuffer hchunk.le
  rw [terminate, Block.store_ok (by rw [hlen, List.length_singleton]; exact hchunk)]
  congr 1
  have hzero : List.replicate (cloudRecvBufferSize - chunk.length) (some (0 : UInt8)) =
      some 0 :: List.replicate (cloudRecvBufferSize - chunk.length - 1) (some 0) := by
    rw [← List.replicate_succ]
    congr 1
    omega
  have hdata : (recvBuffer chunk).data =
      chunk.map some ++ some 0 :: List.replicate (cloudRecvBufferSize - chunk.length - 1) (some 0) := by
    rw [recvBuffer, List.map_append, List.map_replicate, hzero]
  have hfront : (chunk.map some).length = chunk.length := List.length_map ..
  rw [hdata, Block.put, List.length_singleton, ← hfront, List.take_left, List.drop_append,
    List.drop_of_length_le (Nat.le_succ _), Nat.add_sub_cancel_left, List.nil_append,
    List.append_assoc]
  rfl

theorem terminate_fault (hchunk : chunk.length = cloudRecvBufferSize) :
    terminate (recvBuffer chunk).data chunk.length = .fault := by
  apply Block.store_fault
  rw [length_recvBuffer hchunk.le, List.length_singleton, hchunk]
  exact Nat.lt_succ_self _

theorem recvbufOf_recvBuffer (chunk : List UInt8) :
    recvbufOf (recvBuffer chunk).data chunk.length = recvBuffer chunk := rfl

/-- **No call of `GetEdpPacket` leaves the object**: each one is on fewer bytes than the last. -/
theorem called_ok {recvbuf buf : Buffer} (hc : Called recvbuf buf) : ∀ {bs : List UInt8},
    Received recvbuf bs → bs.length < 2 ^ 16 → getEdpPacket buf ≠ .fault := by
  induction hc with
  | first =>
    intro bs h _
    by_cases hpos : 0 < frameLen bs
    · obtain ⟨pkg, buf', hget, -⟩ := getEdpPacket_some h hpos
      rw [hget]
      exact fun he => by cases he
    · rw [getEdpPacket_none h (not_lt.mp hpos)]
      exact fun he => by cases he
  | next hget _ ih =>
    intro bs h hsize
    have hpos : 0 < frameLen bs := by
      by_contra hn
      rw [getEdpPacket_none h (not_lt.mp hn)] at hget
      cases hget
    obtain ⟨pkg, buf', hget', -, -, hrest⟩ := getEdpPacket_some h hpos
    rw [hget'] at hget
    cases hget
    refine ih (hrest ?_) ?_
    · omega
    · rw [List.length_drop]
      omega

/-! ### The round -/

theorem recvData_early (hsize : recvBuf.length = cloudRecvBufferSize)
    (h : flag = 0xa5 ∨ ∀ chunk, calls ≠ .received chunk) :
    ∃ ret, ret ≤ 0 ∧ socketTCPClientRecvData flag calls recvBuf cloudRecvBufferSize =
      .ok (ret, List.replicate cloudRecvBufferSize (some 0)) := by
  simp only [socketTCPClientRecvData, clear_ok hsize, Outcome.ok_bind]
  by_cases hstop : calls = .selectError ∨ flag = 0xa5
  · exact ⟨-1, by decide, if_pos hstop⟩
  · rw [if_neg hstop]
    cases calls with
    | selectError => exact absurd (.inl rfl) hstop
    | notSet => exact ⟨0, le_rfl, rfl⟩
    | recvError => exact ⟨-2, by decide, rfl⟩
    | received chunk =>
      rcases h with hflag | hno
      · exact absurd (.inr hflag) hstop
      · exact absurd rfl (hno chunk)

theorem recvData_received (hsize : recvBuf.length = cloudRecvBufferSize) (hflag : flag ≠ 0xa5)
    (hchunk : chunk.length ≤ cloudRecvBufferSize) :
    socketTCPClientRecvData flag (.received chunk) recvBuf cloudRecvBufferSize =
      .ok (chunk.length, (recvBuffer chunk).data) := by
  have hgo : ¬(RecvCalls.received chunk = .selectError ∨ flag = 0xa5) := by
    rintro (h | h)
    · cases h
    · exact hflag h
  simp only [socketTCPClientRecvData, clear_ok hsize, Outcome.ok_bind, if_neg hgo,
    receive_ok hchunk]

theorem staysInside_received (hsize : recvBuf.length = cloudRecvBufferSize) (hflag : flag ≠ 0xa5)
    (hchunk : chunk.length ≤ cloudRecvBufferSize) :
    StaysInside flag (.received chunk) recvBuf ↔ chunk.length ≠ cloudRecvBufferSize := by
  have hrun := recvData_received hsize hflag hchunk
  constructor
  · rintro ⟨ret, blk, he, hround⟩ hfull
    rw [hrun] at he
    cases he
    have hpos : (0 : Int) < chunk.length := by
      rw [hfull]
      decide
    obtain ⟨blk', hterm, -⟩ := hround hpos
    rw [Int.toNat_natCast, terminate_fault hfull] at hterm
    cases hterm
  · intro hne
    refine ⟨_, _, hrun, fun _ => ⟨(recvBuffer chunk).data, ?_, ?_⟩⟩
    · rw [Int.toNat_natCast]
      exact terminate_ok (lt_of_le_of_ne hchunk hne)
    · intro buf hc
      have h16 : cloudRecvBufferSize < 2 ^ 16 := by decide
      rw [Int.toNat_natCast, recvbufOf_recvBuffer] at hc
      exact called_ok hc (received_recvBuffer chunk (by omega)) (by omega)

end

/-- **When the receive path stays inside its buffer**: unless a chunk fills the buffer. -/
theorem staysInside_iff {recvBuf : Block} (hsize : recvBuf.length = cloudRecvBufferSize)
    (flag : UInt8) {calls : RecvCalls}
    (hrecv : ∀ chunk, calls = .received chunk → chunk.length ≤ cloudRecvBufferSize) :
    StaysInside flag calls recvBuf ↔
      flag = 0xa5 ∨ ∀ chunk, calls = .received chunk → chunk.length ≠ cloudRecvBufferSize := by
  by_cases hearly : flag = 0xa5 ∨ ∀ chunk, calls ≠ .received chunk
  · obtain ⟨ret, hret, hrun⟩ := recvData_early hsize hearly
    refine iff_of_true ⟨ret, _, hrun, fun hpos => absurd hpos (Int.not_lt.mpr hret)⟩ ?_
    rcases hearly with hflag | hno
    · exact .inl hflag
    · exact .inr fun chunk hc => absurd hc (hno chunk)
  · have hflag : flag ≠ 0xa5 := fun h => hearly (.inl h)
    obtain ⟨chunk, rfl⟩ : ∃ chunk, calls = .received chunk := by
      by_contra hno
      exact hearly (.inr fun chunk hc => hno ⟨chunk, hc⟩)
    rw [staysInside_received hsize hflag (hrecv chunk rfl), or_iff_right hflag]
    constructor
    · intro hne chunk' he
      cases he
      exact hne
    · intro h
      exact h chunk rfl

/-- `Agent_cloud_init`. -/
def recvBuf : Block := Block.malloc cloudRecvBufferSize

/-- A ping response. -/
theorem staysInside_iff_ping :
    StaysInside 1 (.received [0xd0, 0x00]) recvBuf ↔
      (1 : UInt8) = 0xa5 ∨ ∀ chunk, RecvCalls.received [0xd0, 0x00] = .received chunk →
        chunk.length ≠ cloudRecvBufferSize := by
  refine staysInside_iff (Block.length_malloc _) 1 fun chunk he => ?_
  cases he
  decide

/-- A chunk of just the length that `recv` is given. -/
theorem terminator_outside :
    ¬StaysInside 1 (.received (List.replicate cloudRecvBufferSize 0x41)) recvBuf := by
  have hlen : (List.replicate cloudRecvBufferSize (0x41 : UInt8)).length = cloudRecvBufferSize :=
    List.length_replicate
  intro h
  exact (staysInside_received (Block.length_malloc _) (by decide) hlen.le).mp h hlen

end Nl6621.Cloud
