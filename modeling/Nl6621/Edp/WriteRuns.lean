import Mathlib.Data.List.Induction
import Nl6621.Edp.Write

/-!
# Runs of writer calls

Any sequence of writer calls on a fresh buffer.  `Faithful calls` is what such a
sequence should do: after every one of its calls the write position is inside
the capacity, the capacity is the size of the allocation, and the buffer starts
with the encodings of the calls made so far, in order.  A byte stored outside
the allocation is a fault, so a faithful sequence has stored none.

`writes_faithful_iff` says when that is so.  Five of the six writers ask
`CheckCapacity` first.  `WriteRemainlen` does not, and a sequence is faithful
exactly when every `WriteRemainlen` in it finds room for its digits in what the
allocation has left.
-/

namespace Nl6621.Edp

open Lib

/-- A call of one of the six writers. -/
inductive WriteCall where
  | byte (b : UInt8)
  | bytes (bs : List UInt8)
  | uint16 (v : UInt16)
  | uint32 (v : UInt32)
  | str (s : CString)
  | remainlen (v : UInt32)
deriving DecidableEq

namespace WriteCall

def run : WriteCall → Proc Buffer Unit
  | byte b => writeByte b
  | bytes bs => writeBytes bs
  | uint16 v => writeUint16 v.toNat
  | uint32 v => writeUint32 v.toNat
  | str s => writeStr s
  | remainlen v => writeRemainlen v.toNat

def encode : WriteCall → List UInt8
  | byte b => [b]
  | bytes bs => bs
  | uint16 v => be16 v.toNat
  | uint32 v => be32 v.toNat
  | str s => encodeStr s
  | remainlen v => encodeRemainlen v.toNat

/-- The remaining length is below `2 ^ 28`, which four digits can hold. -/
def FourDigits : WriteCall → Prop
  | remainlen v => v.toNat < 2 ^ 28
  | _ => True

/-- The digits of a `WriteRemainlen` fit into what the allocation has left. -/
def HasRoom (buf : Buffer) : WriteCall → Prop
  | remainlen v => buf.writePos + (encodeRemainlen v.toNat).length ≤ buf.capacity
  | _ => True

end WriteCall

/-- Make the calls in order; a call that does not return 0 ends the sequence. -/
def runCalls : List WriteCall → Proc Buffer Unit
  | [] => pure ()
  | c :: cs => do
    c.run
    runCalls cs

def encodeCalls (calls : List WriteCall) : List UInt8 := calls.flatMap WriteCall.encode

/-- The buffer is as the calls should have left it. -/
structure Wrote (buf : Buffer) (calls : List WriteCall) : Prop where
  inside : buf.writePos ≤ buf.capacity
  allocated : buf.data.length = buf.capacity
  writePos : buf.writePos = (encodeCalls calls).length
  data : buf.data.Holds (encodeCalls calls)

/-- Every call of the sequence returns 0 and leaves the buffer as it should. -/
def Faithful (calls : List WriteCall) : Prop :=
  ∀ made rest, calls = made ++ rest →
    ∃ buf, runCalls made newBuffer = .ok (.ok (), buf) ∧ Wrote buf made

/-! ### One call -/

/-- **A call that has room extends what was written.** -/
theorem WriteCall.run_filled {buf : Buffer} {bs : List UInt8} (h : Filled buf bs) {c : WriteCall}
    (hfour : c.FourDigits) (hroom : c.HasRoom buf)
    (hlen : bs.length + c.encode.length < 2 ^ 31) :
    ∃ buf', c.run buf = .ok (.ok (), buf') ∧ Filled buf' (bs ++ c.encode) := by
  cases c with
  | byte b => exact writeByte_filled h b hlen
  | bytes cs => exact writeBytes_filled h cs hlen
  | uint16 v => exact writeUint16_filled h v.toNat hlen
  | uint32 v => exact writeUint32_filled h v.toNat hlen
  | str s => exact writeStr_filled h s hlen
  | remainlen v =>
    refine writeRemainlen_filled h hfour ?_
    rw [← h.writePos]
    exact hroom

/-- A call without room stores outside the allocation. -/
theorem WriteCall.run_overflow {buf : Buffer} {bs : List UInt8} (h : Filled buf bs) {c : WriteCall}
    (hfour : c.FourDigits) (hroom : ¬ c.HasRoom buf) : c.run buf = .fault := by
  cases c with
  | remainlen v =>
    refine writeRemainlen_overflow h hfour ?_
    rw [← h.writePos]
    exact not_le.mp hroom
  | byte b => exact absurd trivial hroom
  | bytes cs => exact absurd trivial hroom
  | uint16 v => exact absurd trivial hroom
  | uint32 v => exact absurd trivial hroom
  | str s => exact absurd trivial hroom

/-! ### A run of calls -/

theorem runCalls_concat (calls : List WriteCall) (c : WriteCall) :
    runCalls (calls ++ [c]) = (runCalls calls >>= fun _ => c.run) := by
  induction calls with
  | nil => exact bind_pure c.run
  | cons d calls ih =>
    show (d.run >>= fun _ => runCalls (calls ++ [c])) = _
    rw [ih, runCalls, bind_assoc]

@[simp] theorem encodeCalls_concat (calls : List WriteCall) (c : WriteCall) :
    encodeCalls (calls ++ [c]) = encodeCalls calls ++ c.encode := by
  simp [encodeCalls]

/-- Every `WriteRemainlen` of the run finds room for its digits. -/
def RoomAlong (calls : List WriteCall) : Prop :=
  ∀ made c rest, calls = made ++ c :: rest →
    ∀ buf, runCalls made newBuffer = .ok (.ok (), buf) → c.HasRoom buf

/-- **A run whose calls have room leaves the encodings of its calls.**  By
induction on the run, the last call split off. -/
theorem runCalls_filled (calls : List WriteCall) (hfour : ∀ c ∈ calls, c.FourDigits)
    (hlen : (encodeCalls calls).length < 2 ^ 31) (hroom : RoomAlong calls) :
    ∃ buf, runCalls calls newBuffer = .ok (.ok (), buf) ∧ Filled buf (encodeCalls calls) := by
  induction calls using List.reverseRecOn with
  | nil => exact ⟨newBuffer, rfl, filled_newBuffer⟩
  | append_singleton calls c ih =>
    rw [encodeCalls_concat, List.length_append] at hlen
    obtain ⟨buf₁, h1, hf1⟩ := ih (fun d hd => hfour d (List.mem_append_left _ hd)) (by omega)
      (fun made d rest he => hroom made d (rest ++ [c]) (by rw [he]; simp))
    obtain ⟨buf₂, h2, hf2⟩ := WriteCall.run_filled hf1 (hfour c (by simp))
      (hroom calls c [] rfl buf₁ h1) (by omega)
    refine ⟨buf₂, ?_, by rw [encodeCalls_concat]; exact hf2⟩
    rw [runCalls_concat, Proc.bind_ok h1]
    exact h2

/-- A run that came back has kept the invariant, and its calls had room. -/
theorem filled_of_runCalls (calls : List WriteCall) (hfour : ∀ c ∈ calls, c.FourDigits)
    (hlen : (encodeCalls calls).length < 2 ^ 31) {buf : Buffer}
    (hrun : runCalls calls newBuffer = .ok (.ok (), buf)) :
    Filled buf (encodeCalls calls) := by
  induction calls using List.reverseRecOn generalizing buf with
  | nil =>
    cases hrun
    exact filled_newBuffer
  | append_singleton calls c ih =>
    rw [encodeCalls_concat, List.length_append] at hlen
    rw [runCalls_concat] at hrun
    cases h1 : runCalls calls newBuffer with
    | assertFail => rw [Proc.bind_assertFail h1] at hrun; cases hrun
    | fault => rw [Proc.bind_fault h1] at hrun; cases hrun
    | ok r =>
      obtain ⟨e, buf₁⟩ := r
      cases e with
      | error d => rw [Proc.bind_error h1] at hrun; cases hrun
      | ok u =>
        rw [Proc.bind_ok h1] at hrun
        have hf1 := ih (fun d hd => hfour d (List.mem_append_left _ hd)) (by omega) h1
        have hc := hfour c (by simp)
        by_cases hroom : c.HasRoom buf₁
        · obtain ⟨buf₂, h2, hf2⟩ := WriteCall.run_filled hf1 hc hroom (by omega)
          rw [h2] at hrun
          cases hrun
          rw [encodeCalls_concat]
          exact hf2
        · rw [WriteCall.run_overflow hf1 hc hroom] at hrun
          cases hrun

theorem Filled.wrote {buf : Buffer} {calls : List WriteCall}
    (h : Filled buf (encodeCalls calls)) : Wrote buf calls where
  inside := by rw [h.writePos]; exact h.length_le
  allocated := h.size
  writePos := h.writePos
  data := h.holds

theorem encodeCalls_append (a b : List WriteCall) :
    encodeCalls (a ++ b) = encodeCalls a ++ encodeCalls b := by simp [encodeCalls]

theorem faithful_of_roomAlong {calls : List WriteCall} (hfour : ∀ c ∈ calls, c.FourDigits)
    (hlen : (encodeCalls calls).length < 2 ^ 31) (hroom : RoomAlong calls) : Faithful calls := by
  rintro made rest rfl
  rw [encodeCalls_append, List.length_append] at hlen
  obtain ⟨buf, hrun, hf⟩ := runCalls_filled made
    (fun c hc => hfour c (List.mem_append_left _ hc)) (by omega)
    (fun m c r he => hroom m c (r ++ rest) (by rw [he]; simp))
  exact ⟨buf, hrun, hf.wrote⟩

theorem roomAlong_of_faithful {calls : List WriteCall} (hfour : ∀ c ∈ calls, c.FourDigits)
    (hlen : (encodeCalls calls).length < 2 ^ 31) (h : Faithful calls) : RoomAlong calls := by
  rintro made c rest rfl buf hrun
  rw [encodeCalls_append, List.length_append] at hlen
  have hf := filled_of_runCalls made (fun d hd => hfour d (List.mem_append_left _ hd))
    (by omega) hrun
  by_contra hroom
  obtain ⟨buf', hrun', -⟩ := h (made ++ [c]) rest (by simp)
  rw [runCalls_concat, Proc.bind_ok hrun,
    WriteCall.run_overflow hf (hfour c (by simp)) hroom] at hrun'
  cases hrun'

/-- **A sequence of writer calls is faithful exactly when every `WriteRemainlen`
in it finds room for its digits.** -/
theorem writes_faithful_iff (calls : List WriteCall) (hfour : ∀ c ∈ calls, c.FourDigits)
    (hlen : (encodeCalls calls).length < 2 ^ 31) :
    Faithful calls ↔
      ∀ made v rest, calls = made ++ .remainlen v :: rest →
        ∀ buf, runCalls made newBuffer = .ok (.ok (), buf) →
          buf.writePos + (encodeRemainlen v.toNat).length ≤ buf.capacity := by
  constructor
  · intro h made v rest he buf hrun
    exact roomAlong_of_faithful hfour hlen h made (.remainlen v) rest he buf hrun
  · intro h
    refine faithful_of_roomAlong hfour hlen ?_
    intro made c rest he buf hrun
    cases c with
    | remainlen v => exact h made v rest he buf hrun
    | byte b => trivial
    | bytes cs => trivial
    | uint16 v => trivial
    | uint32 v => trivial
    | str s => trivial

/-- The start of a packet: a type byte, its remaining length, a string. -/
theorem writes_faithful_iff_header :
    (∀ c ∈ [WriteCall.byte 0x30, .remainlen 3, .str ⟨[0x41], by decide⟩], c.FourDigits) ∧
      (Faithful [.byte 0x30, .remainlen 3, .str ⟨[0x41], by decide⟩] ↔
        ∀ made v rest, [WriteCall.byte 0x30, .remainlen 3, .str ⟨[0x41], by decide⟩] =
            made ++ .remainlen v :: rest →
          ∀ buf, runCalls made newBuffer = .ok (.ok (), buf) →
            buf.writePos + (encodeRemainlen v.toNat).length ≤ buf.capacity) := by
  have hfour : ∀ c ∈ [WriteCall.byte 0x30, .remainlen 3, .str ⟨[0x41], by decide⟩],
      c.FourDigits := by
    intro c hc
    simp only [List.mem_cons, List.not_mem_nil, or_false] at hc
    rcases hc with rfl | rfl | rfl
    · trivial
    · show (3 : UInt32).toNat < 2 ^ 28
      decide
    · trivial
  exact ⟨hfour, writes_faithful_iff _ hfour (by decide)⟩

/-- 1500 bytes fill the buffer to its last cell; the digit of the following
`WriteRemainlen` goes behind it. -/
def fullThenRemainlen : List WriteCall := [.bytes (List.replicate 1500 0), .remainlen 0]

theorem fullThenRemainlen_fourDigits : ∀ c ∈ fullThenRemainlen, c.FourDigits := by
  intro c hc
  simp only [fullThenRemainlen, List.mem_cons, List.not_mem_nil, or_false] at hc
  rcases hc with rfl | rfl
  · trivial
  · show (0 : UInt32).toNat < 2 ^ 28
    decide

theorem runCalls_fullThenRemainlen : runCalls fullThenRemainlen newBuffer = .fault := by
  have hroom : ([] : List UInt8).length + (List.replicate 1500 (0 : UInt8)).length
      ≤ newBuffer.capacity := by
    rw [List.length_nil, List.length_replicate]
    exact le_rfl
  obtain ⟨buf, hstore, hf, hcap⟩ := storeBytes_filled filled_newBuffer _ hroom
  have hwrite : writeBytes (List.replicate 1500 0) newBuffer = .ok (.ok (), buf) := by
    rw [writeBytes, Proc.bind_ok filled_newBuffer.assertUnread_ok,
      Proc.bind_ok (Proc.orReturn_ok (checkCapacity_of_room filled_newBuffer hroom))]
    exact hstore
  have hover : writeRemainlen (0 : UInt32).toNat buf = .fault := by
    refine writeRemainlen_overflow hf (by decide) ?_
    have hdigits := length_lenDigits_pos 3 (0 : UInt32).toNat
    rw [hcap, List.nil_append, List.length_replicate]
    exact Nat.lt_of_lt_of_le (Nat.lt_succ_self 1500) (Nat.add_le_add_left hdigits 1500)
  show (writeBytes (List.replicate 1500 0) >>= fun _ => runCalls [.remainlen 0]) newBuffer = _
  rw [Proc.bind_ok hwrite]
  exact Proc.bind_fault hover

/-- **Not every sequence of writer calls is faithful.** -/
theorem not_all_writes_faithful :
    ¬ ∀ calls : List WriteCall, (∀ c ∈ calls, c.FourDigits) →
        (encodeCalls calls).length < 2 ^ 31 → Faithful calls := by
  intro h
  have hlen : (encodeCalls fullThenRemainlen).length < 2 ^ 31 := by
    have := length_lenDigits_le 3 (0 : UInt32).toNat
    simp only [encodeCalls, fullThenRemainlen, List.flatMap_cons, List.flatMap_nil,
      WriteCall.encode, encodeRemainlen, List.append_nil, List.length_append,
      List.length_replicate]
    omega
  obtain ⟨buf, hrun, -⟩ := h _ fullThenRemainlen_fourDigits hlen fullThenRemainlen [] (by simp)
  rw [runCalls_fullThenRemainlen] at hrun
  cases hrun

end Nl6621.Edp
