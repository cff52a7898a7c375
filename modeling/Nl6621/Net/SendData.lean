import Mathlib.Logic.Relation
import Nl6621.Lib.Words
import Nl6621.Net.Stream

/-!
# One call of `Socket_TCPClientSendData`

The call by itself, with machine integers and with any results of `select` and `send`.  Whatever
they are, it should give the lock back once, and what it returns should tell which bytes were
accepted.  The `select` that fails breaks this: the call returns with the lock and without setting
the flag.  `sends_exactly_iff` says that this is the only way, up to lengths that an `int` cannot
hold.

`call_steps` connects this with the tasks of `Client`: the steps of a task that nobody interrupts
are the call.
-/

namespace Nl6621.Net.Client

open Lib

/-! ### The function of the source -/

/-- What happens in a round of the loop: `select` fails, or it does not set the descriptor, or
`send` is called and returns `n`. -/
inductive Round where
  | selectError
  | notSet
  | sent (n : Int32)
deriving DecidableEq, Repr

/-- The calls of `OSMutexPost` so far, the bytes that `send` has accepted, and the flag. -/
structure SendState where
  posts : Nat
  accepted : List UInt8
  TCPClient_reset_flag : UInt8
deriving DecidableEq, Repr

/-- Nothing while the rounds have not led to a return; `send` accepts no more than it is given. -/
def sendLoop (sendbuf : List UInt8) : List Round → Int32 → SendState → Option (Int32 × SendState)
  | rounds, total, s =>
    if sendbuf.length ≠ total.toUInt32.toNat then
      match rounds with
      | [] => none
      -- returns without `OSMutexPost`
      | .selectError :: _ => some (-1, s)
      | .notSet :: rounds => sendLoop sendbuf rounds total s
      | .sent n :: rounds =>
        if n < 0 then some (n, { s with posts := s.posts + 1, TCPClient_reset_flag := 0xa5 })
        else
          let room := sendbuf.drop total.toUInt32.toNat
          if n.toInt.toNat ≤ room.length then
            sendLoop sendbuf rounds (total + n)
              { s with accepted := s.accepted ++ room.take n.toInt.toNat }
          else none
    else some (total, { s with posts := s.posts + 1 })

/-- From the return of `OSMutexPend` on. -/
def socketTCPClientSendData (sendbuf : List UInt8) (flag : UInt8) (rounds : List Round) :
    Option (Int32 × SendState) :=
  sendLoop sendbuf rounds 0 ⟨0, [], flag⟩

/-! ### What is expected of a call -/

/-- The lock is given back once; a return of the length means that the whole buffer has been
accepted, and a negative one that less than it has and the connection is torn down. -/
structure SendsExactly (sendbuf : List UInt8) (ret : Int32) (s : SendState) : Prop where
  released : s.posts = 1
  whole : ret.toInt = sendbuf.length → s.accepted = sendbuf
  failed : ret < 0 → s.accepted <+: sendbuf ∧ s.accepted ≠ sendbuf ∧ s.TCPClient_reset_flag = 0xa5

/-- Among the rounds of a call that has `left` bytes to send, `r` is the first that fails, and it
comes while there are bytes left. -/
inductive Meets : Nat → List Round → Round → Prop where
  | selectError {left : Nat} {rounds : List Round} (h : 0 < left) :
      Meets left (.selectError :: rounds) .selectError
  | sendError {left : Nat} {rounds : List Round} {n : Int32} (h : 0 < left) (hn : n < 0) :
      Meets left (.sent n :: rounds) (.sent n)
  | notSet {left : Nat} {rounds : List Round} {r : Round} (h : Meets left rounds r) :
      Meets left (.notSet :: rounds) r
  | sent {left : Nat} {rounds : List Round} {r : Round} {n : Int32} (hn : 0 ≤ n)
      (h : Meets (left - n.toInt.toNat) rounds r) : Meets left (.sent n :: rounds) r

theorem Meets.pos {left : Nat} {rounds : List Round} {r : Round} (h : Meets left rounds r) :
    0 < left := by
  induction h with
  | selectError h => exact h
  | sendError h hn => exact h
  | notSet h ih => exact ih
  | sent hn h ih => omega

section

variable {left : Nat} {rounds : List Round} {r r' : Round} {n : Int32}

theorem meets_selectError_iff (h : 0 < left) :
    Meets left (.selectError :: rounds) r ↔ r = .selectError := by
  constructor
  · intro hm
    cases hm
    rfl
  · rintro rfl
    exact .selectError h

theorem meets_notSet_iff : Meets left (.notSet :: rounds) r ↔ Meets left rounds r := by
  constructor
  · intro hm
    cases hm with
    | notSet h => exact h
  · exact .notSet

theorem meets_sendError_iff (h : 0 < left) (hn : n < 0) :
    Meets left (.sent n :: rounds) r ↔ r = .sent n := by
  constructor
  · intro hm
    cases hm with
    | sendError => rfl
    | sent hle => exact absurd hn (Int32.not_lt.mpr hle)
  · rintro rfl
    exact .sendError h hn

theorem meets_sent_iff (hn : 0 ≤ n) :
    Meets left (.sent n :: rounds) r ↔ Meets (left - n.toInt.toNat) rounds r := by
  constructor
  · intro hm
    cases hm with
    | sendError _ hlt => exact absurd hlt (Int32.not_lt.mpr hn)
    | sent _ h => exact h
  · exact .sent hn

end

/-! ### The loop -/

/-- The three returns; `fails` says which round is the first to fail. -/
inductive Returned (sendbuf : List UInt8) (fails : Round → Prop) (ret : Int32) (s : SendState) :
    Prop where
  | selectError (h : ∀ r, fails r ↔ r = .selectError) (hposts : s.posts = 0)
  | sendError (h : ∀ r, fails r ↔ r = .sent ret) (hret : ret < 0) (hposts : s.posts = 1)
      (hflag : s.TCPClient_reset_flag = 0xa5) {total : Nat} (htotal : total < sendbuf.length)
      (haccepted : s.accepted = sendbuf.take total)
  | whole (h : ∀ r, ¬fails r) (hret : ret = Int32.ofNat sendbuf.length) (hposts : s.posts = 1)
      (haccepted : s.accepted = sendbuf)

theorem Returned.congr {sendbuf : List UInt8} {fails fails' : Round → Prop} {ret : Int32}
    {s : SendState} (hiff : ∀ r, fails r ↔ fails' r) (h : Returned sendbuf fails ret s) :
    Returned sendbuf fails' ret s := by
  cases h with
  | selectError h hposts => exact .selectError (fun r => (hiff r).symm.trans (h r)) hposts
  | sendError h hret hposts hflag htotal haccepted =>
    exact .sendError (fun r => (hiff r).symm.trans (h r)) hret hposts hflag htotal haccepted
  | whole h hret hposts haccepted =>
    exact .whole (fun r => (not_congr (hiff r)).mp (h r)) hret hposts haccepted

theorem toNat_toUInt32_ofNat {k : Nat} (hk : k < 2 ^ 32) :
    (Int32.ofNat k).toUInt32.toNat = k := by
  rw [Int32.toUInt32_ofNat']
  exact UInt32.toNat_ofNat_of_lt' hk

/-- A count that `send` returns. -/
theorem eq_ofNat_of_nonneg {n : Int32} (hn : 0 ≤ n) : n = Int32.ofNat n.toInt.toNat := by
  have hle : 0 ≤ n.toInt := Int32.le_iff_toInt_le.mp hn
  have hlt := n.toInt_lt
  apply Int32.toInt.inj
  rw [Int32.toInt_ofNat_of_lt (by omega)]
  omega

theorem ofNat_add_sent {n : Int32} (hn : 0 ≤ n) (k : Nat) :
    Int32.ofNat k + n = Int32.ofNat (k + n.toInt.toNat) := by
  conv_lhs => rw [eq_ofNat_of_nonneg hn]
  rw [Int32.ofNat_add]

section

variable {sendbuf : List UInt8} {rounds : List Round} {total : Nat} {s s' : SendState} {ret : Int32}

theorem sendLoop_whole (h32 : sendbuf.length < 2 ^ 32) (rounds : List Round) (s : SendState) :
    sendLoop sendbuf rounds (Int32.ofNat sendbuf.length) s =
      some (Int32.ofNat sendbuf.length, { s with posts := s.posts + 1 }) := by
  have hdone : ¬sendbuf.length ≠ (Int32.ofNat sendbuf.length).toUInt32.toNat :=
    not_not.mpr (toNat_toUInt32_ofNat h32).symm
  rw [sendLoop.eq_def]
  exact if_neg hdone

theorem sendLoop_selectError (h32 : sendbuf.length < 2 ^ 32) (h : total < sendbuf.length) :
    sendLoop sendbuf (.selectError :: rounds) (Int32.ofNat total) s = some (-1, s) := by
  rw [sendLoop, toNat_toUInt32_ofNat (by omega), if_pos (by omega)]

theorem sendLoop_notSet (h32 : sendbuf.length < 2 ^ 32) (h : total < sendbuf.length) :
    sendLoop sendbuf (.notSet :: rounds) (Int32.ofNat total) s =
      sendLoop sendbuf rounds (Int32.ofNat total) s := by
  rw [sendLoop, toNat_toUInt32_ofNat (by omega), if_pos (by omega)]

theorem sendLoop_sendError (h32 : sendbuf.length < 2 ^ 32) (h : total < sendbuf.length) {n : Int32}
    (hn : n < 0) :
    sendLoop sendbuf (.sent n :: rounds) (Int32.ofNat total) s =
      some (n, { s with posts := s.posts + 1, TCPClient_reset_flag := 0xa5 }) := by
  rw [sendLoop, toNat_toUInt32_ofNat (by omega), if_pos (by omega)]
  exact if_pos hn

theorem sendLoop_sent (h32 : sendbuf.length < 2 ^ 32) (h : total < sendbuf.length) {n : Int32}
    (hn : 0 ≤ n) :
    sendLoop sendbuf (.sent n :: rounds) (Int32.ofNat total) s =
      if total + n.toInt.toNat ≤ sendbuf.length then
        sendLoop sendbuf rounds (Int32.ofNat (total + n.toInt.toNat))
          { s with accepted := s.accepted ++ (sendbuf.drop total).take n.toInt.toNat }
      else none := by
  rw [sendLoop, toNat_toUInt32_ofNat (by omega), if_pos (by omega)]
  have hroom : n.toInt.toNat ≤ (sendbuf.drop total).length ↔
      total + n.toInt.toNat ≤ sendbuf.length := by
    rw [List.length_drop]
    omega
  simp only [if_neg (Int32.not_lt.mpr hn), hroom, ofNat_add_sent hn]

/-- **How the loop returns**, with `total` bytes sent so far. -/
theorem sendLoop_returned (h32 : sendbuf.length < 2 ^ 32) :
    ∀ (rounds : List Round) (total : Nat) (s : SendState),
      total ≤ sendbuf.length → s.accepted = sendbuf.take total → s.posts = 0 →
        sendLoop sendbuf rounds (Int32.ofNat total) s = some (ret, s') →
          Returned sendbuf (Meets (sendbuf.length - total) rounds) ret s' := by
  have hwhole : ∀ (rounds : List Round) (total : Nat) (s : SendState), total = sendbuf.length →
      s.accepted = sendbuf.take total → s.posts = 0 →
        sendLoop sendbuf rounds (Int32.ofNat total) s = some (ret, s') →
          Returned sendbuf (Meets (sendbuf.length - total) rounds) ret s' := by
    intro rounds total s htotal haccepted hposts h
    rw [htotal] at h haccepted ⊢
    rw [sendLoop_whole h32] at h
    cases h
    refine .whole (fun r hm => ?_) rfl (congrArg (· + 1) hposts) ?_
    · have hpos := hm.pos
      omega
    · rw [haccepted, List.take_length]
  intro rounds
  induction rounds with
  | nil =>
    intro total s htotal haccepted hposts h
    by_cases he : total = sendbuf.length
    · exact hwhole [] total s he haccepted hposts h
    · rw [sendLoop, toNat_toUInt32_ofNat (by omega), if_pos (by omega)] at h
      cases h
  | cons r rounds ih =>
    intro total s htotal haccepted hposts h
    by_cases he : total = sendbuf.length
    · exact hwhole (r :: rounds) total s he haccepted hposts h
    · have hlt : total < sendbuf.length := by omega
      have hleft : 0 < sendbuf.length - total := by omega
      cases r with
      | selectError =>
        rw [sendLoop_selectError h32 hlt] at h
        cases h
        exact .selectError (fun r => meets_selectError_iff hleft) hposts
      | notSet =>
        rw [sendLoop_notSet h32 hlt] at h
        exact (ih total s htotal haccepted hposts h).congr fun r => meets_notSet_iff.symm
      | sent n =>
        by_cases hn : n < 0
        · rw [sendLoop_sendError h32 hlt hn] at h
          cases h
          exact .sendError (fun r => meets_sendError_iff hleft hn) hn (congrArg (· + 1) hposts) rfl
            hlt haccepted
        · have hn0 : 0 ≤ n := Int32.not_lt.mp hn
          rw [sendLoop_sent h32 hlt hn0] at h
          by_cases hroom : total + n.toInt.toNat ≤ sendbuf.length
          · rw [if_pos hroom] at h
            have hnext := ih (total + n.toInt.toNat)
              { s with accepted := s.accepted ++ (sendbuf.drop total).take n.toInt.toNat } hroom
              (by rw [haccepted, ← List.take_add]) hposts h
            refine hnext.congr fun r => ?_
            rw [meets_sent_iff hn0, Nat.sub_add_eq]
          · rw [if_neg hroom] at h
            cases h

/-- A length that an `int` cannot hold is returned as a negative number. -/
theorem ofNat_lt_zero {k : Nat} (h31 : 2 ^ 31 ≤ k) (h32 : k < 2 ^ 32) : Int32.ofNat k < 0 := by
  rw [Int32.lt_iff_toInt_lt, Int32.toInt_ofNat', show Int32.size = 2 ^ 32 from rfl, Int.bmod_def,
    Int.emod_eq_of_lt (by omega) (by omega), if_neg (by omega)]
  exact (by omega : (k : Int) - (2 ^ 32 : Nat) < 0)

theorem exactly_of_returned (h32 : sendbuf.length < 2 ^ 32) {fails : Round → Prop}
    (h : Returned sendbuf fails ret s) :
    SendsExactly sendbuf ret s ↔
      ¬fails .selectError ∧ (sendbuf.length < 2 ^ 31 ∨ ∃ n, fails (.sent n)) := by
  cases h with
  | selectError h hposts =>
    refine iff_of_false (fun hexact => ?_) fun hcond => hcond.1 ((h _).mpr rfl)
    have hone := hexact.released
    omega
  | sendError h hret hposts hflag htotal haccepted =>
    refine iff_of_true ⟨hposts, ?_, ?_⟩ ⟨fun hsel => ?_, .inr ⟨ret, (h _).mpr rfl⟩⟩
    · intro he
      have hneg : ret.toInt < 0 := Int32.lt_iff_toInt_lt.mp hret
      omega
    · intro _
      refine ⟨haccepted ▸ List.take_prefix _ _, fun he => ?_, hflag⟩
      have hl := congrArg List.length (haccepted.symm.trans he)
      rw [List.length_take] at hl
      omega
    · cases (h _).mp hsel
  | whole h hret hposts haccepted =>
    by_cases h31 : sendbuf.length < 2 ^ 31
    · refine iff_of_true ⟨hposts, fun _ => haccepted, fun hneg => ?_⟩ ⟨h _, .inl h31⟩
      rw [hret, Int32.lt_iff_toInt_lt, Int32.toInt_ofNat_of_lt h31] at hneg
      exact absurd (Int.natCast_nonneg _) (Int.not_le.mpr hneg)
    · refine iff_of_false (fun hexact => ?_) fun hcond => ?_
      · have hneg := ofNat_lt_zero (Nat.not_lt.mp h31) h32
        exact (hexact.failed (hret ▸ hneg)).2.1 haccepted
      · rcases hcond.2 with hlt | ⟨n, hn⟩
        · exact h31 hlt
        · exact h _ hn

end

/-! ### The steps of a task -/

/-- A step that the task makes in its call. -/
def SenderStep (t : Task) (w w' : World) : Prop := ∃ a, step w (.sender t a) = some w'

theorem senderStep_of_sendStep {t : Task} {w w' : World} {f : Frame} (hf : w.frame t = some f)
    (a : SendAct) (h : sendStep w t f a = some w') : SenderStep t w w' := by
  refine ⟨a, ?_⟩
  rw [step, hf, Option.bind_some, h]

/-- Connection `i` is open, and the task stands in its call as `s` says, having found `base`. -/
structure Tracks (t : Task) (i : Nat) (base : List UInt8) (w : World) (f : Frame) (s : SendState) :
    Prop where
  frame : w.frame t = some f
  lock : w.lock = if s.posts = 0 then some t else none
  isOpen : w.isOpen = true
  conn : w.conn = some i
  flag : w.TCPClient_reset_flag = s.TCPClient_reset_flag
  accepted : accepted i w.calls = base ++ s.accepted

namespace Tracks

variable {t : Task} {i : Nat} {base sendbuf : List UInt8} {w : World} {s : SendState} {total : Nat}
variable {ret : Int}

theorem setPc_frame (w : World) (f : Frame) (pc : SendPc) :
    (w.setPc t f pc).frame t = some { f with pc := pc } := if_pos rfl

/-- Where `select` leads to. -/
def afterSelect (total : Nat) : SelectRet → SendPc
  | .error => .done (-1)
  | .ready => .send total
  | .notReady => .select total

theorem select (h : Tracks t i base w ⟨sendbuf, .select total⟩ s) (r : SelectRet) :
    ∃ w', SenderStep t w w' ∧ Tracks t i base w' ⟨sendbuf, afterSelect total r⟩ s := by
  refine ⟨(w.log (.select t w.TCPClientFd w.conn)).setPc t ⟨sendbuf, .select total⟩
    (afterSelect total r), senderStep_of_sendStep h.frame (.select r) ?_,
    ⟨setPc_frame _ _ _, h.lock, h.isOpen, h.conn, h.flag, ?_⟩⟩
  · cases r <;> rfl
  · exact (accepted_concat_nil rfl).trans h.accepted

theorem send (h : Tracks t i base w ⟨sendbuf, .send total⟩ s) {k : Nat}
    (hk : total + k ≤ sendbuf.length) :
    ∃ w', SenderStep t w w' ∧
      Tracks t i base w' ⟨sendbuf, Frame.next ⟨sendbuf, .send total⟩ (total + k)⟩
        { s with accepted := s.accepted ++ (sendbuf.drop total).take k } := by
  refine ⟨(w.log (.send t w.TCPClientFd w.conn total (some ((sendbuf.drop total).take k)))).setPc t
      ⟨sendbuf, .send total⟩ (Frame.next ⟨sendbuf, .send total⟩ (total + k)),
    senderStep_of_sendStep h.frame (.send (some k)) ?_,
    ⟨setPc_frame _ _ _, h.lock, h.isOpen, h.conn, h.flag, ?_⟩⟩
  · exact if_pos ⟨h.isOpen, hk⟩
  · refine (accepted_concat i w.calls _).trans ?_
    rw [h.accepted, Call.accepts, if_pos h.conn, List.append_assoc]

theorem sendFails (h : Tracks t i base w ⟨sendbuf, .send total⟩ s) :
    ∃ w', SenderStep t w w' ∧ Tracks t i base w' ⟨sendbuf, .post (-1)⟩ s := by
  refine ⟨{ w.log (.send t w.TCPClientFd w.conn total none) with
      cut := w.cut || decide (0 < total) }.setPc t ⟨sendbuf, .send total⟩ (.post (-1)),
    senderStep_of_sendStep h.frame (.send none) rfl,
    ⟨setPc_frame _ _ _, h.lock, h.isOpen, h.conn, h.flag, ?_⟩⟩
  exact (accepted_concat_nil rfl).trans h.accepted

theorem post (h : Tracks t i base w ⟨sendbuf, .post ret⟩ s) :
    ∃ w', SenderStep t w w' ∧
      Tracks t i base w' ⟨sendbuf, if ret < 0 then .setFlag ret else .done ret⟩
        { s with posts := s.posts + 1 } := by
  refine ⟨{ w with lock := none }.setPc t ⟨sendbuf, .post ret⟩
      (if ret < 0 then .setFlag ret else .done ret), senderStep_of_sendStep h.frame .post rfl,
    ⟨setPc_frame _ _ _, (if_neg (Nat.succ_ne_zero _)).symm, h.isOpen, h.conn, h.flag, ?_⟩⟩
  exact h.accepted

theorem setFlag (h : Tracks t i base w ⟨sendbuf, .setFlag ret⟩ s) :
    ∃ w', SenderStep t w w' ∧
      Tracks t i base w' ⟨sendbuf, .done ret⟩ { s with TCPClient_reset_flag := 0xa5 } := by
  refine ⟨{ w with TCPClient_reset_flag := 0xa5 }.setPc t ⟨sendbuf, .setFlag ret⟩ (.done ret),
    senderStep_of_sendStep h.frame .setFlag rfl,
    ⟨setPc_frame _ _ _, h.lock, h.isOpen, h.conn, rfl, ?_⟩⟩
  exact h.accepted

end Tracks

theorem next_of_lt {f : Frame} {total : Nat} (h : total < f.sendbuf.length) :
    f.next total = .select total := if_pos (by omega)

theorem next_length (f : Frame) : f.next f.sendbuf.length = .post f.sendbuf.length :=
  if_neg (not_not.mpr rfl)

open Relation in
/-- **The loop, step by step**, from behind the lock or behind a `send`. -/
theorem loop_steps {t : Task} {i : Nat} {base sendbuf : List UInt8} {ret : Int32} {s' : SendState}
    (h31 : sendbuf.length < 2 ^ 31) : ∀ (rounds : List Round) (total : Nat) (s : SendState)
    (w : World) (pc : SendPc), (∀ n, .sent n ∈ rounds → n < 0 → n = -1) → total ≤ sendbuf.length →
      Tracks t i base w ⟨sendbuf, Frame.next ⟨sendbuf, pc⟩ total⟩ s →
        sendLoop sendbuf rounds (Int32.ofNat total) s = some (ret, s') →
          ∃ w', ReflTransGen (SenderStep t) w w' ∧
            Tracks t i base w' ⟨sendbuf, .done ret.toInt⟩ s' := by
  have h32 : sendbuf.length < 2 ^ 32 := by omega
  have hwhole : ∀ (rounds : List Round) (s : SendState) (w : World) (pc : SendPc),
      Tracks t i base w ⟨sendbuf, Frame.next ⟨sendbuf, pc⟩ sendbuf.length⟩ s →
        sendLoop sendbuf rounds (Int32.ofNat sendbuf.length) s = some (ret, s') →
          ∃ w', ReflTransGen (SenderStep t) w w' ∧
            Tracks t i base w' ⟨sendbuf, .done ret.toInt⟩ s' := by
    intro rounds s w pc hw h
    rw [sendLoop_whole h32] at h
    cases h
    rw [next_length ⟨sendbuf, pc⟩] at hw
    obtain ⟨w₁, h1, hw₁⟩ := hw.post
    rw [if_neg (Int.not_lt.mpr (Int.natCast_nonneg _))] at hw₁
    rw [Int32.toInt_ofNat_of_lt h31]
    exact ⟨w₁, .single h1, hw₁⟩
  intro rounds
  induction rounds with
  | nil =>
    intro total s w pc _ htotal hw h
    by_cases he : total = sendbuf.length
    · rw [he] at hw h
      exact hwhole [] s w pc hw h
    · rw [sendLoop, toNat_toUInt32_ofNat (by omega), if_pos (by omega)] at h
      cases h
  | cons r rounds ih =>
    intro total s w pc hret htotal hw h
    have hret' : ∀ n, Round.sent n ∈ rounds → n < 0 → n = -1 :=
      fun n hn => hret n (List.mem_cons_of_mem _ hn)
    by_cases he : total = sendbuf.length
    · rw [he] at hw h
      exact hwhole (r :: rounds) s w pc hw h
    · have hlt : total < sendbuf.length := by omega
      rw [next_of_lt (f := ⟨sendbuf, pc⟩) hlt] at hw
      cases r with
      | selectError =>
        rw [sendLoop_selectError h32 hlt] at h
        cases h
        obtain ⟨w₁, h1, hw₁⟩ := hw.select .error
        exact ⟨w₁, .single h1, hw₁⟩
      | notSet =>
        rw [sendLoop_notSet h32 hlt] at h
        obtain ⟨w₁, h1, hw₁⟩ := hw.select .notReady
        have hnext : Tracks t i base w₁ ⟨sendbuf, Frame.next ⟨sendbuf, pc⟩ total⟩ s := by
          rw [next_of_lt (f := ⟨sendbuf, pc⟩) hlt]
          exact hw₁
        obtain ⟨w', hrun, hw'⟩ := ih total s w₁ pc hret' htotal hnext h
        exact ⟨w', .head h1 hrun, hw'⟩
      | sent n =>
        obtain ⟨w₁, h1, hw₁⟩ := hw.select .ready
        by_cases hn : n < 0
        · rw [sendLoop_sendError h32 hlt hn] at h
          cases h
          have hone : ret = -1 := hret ret (List.mem_cons_self ..) hn
          obtain ⟨w₂, h2, hw₂⟩ := Tracks.sendFails hw₁
          obtain ⟨w₃, h3, hw₃⟩ := hw₂.post
          obtain ⟨w₄, h4, hw₄⟩ := Tracks.setFlag hw₃
          rw [hone]
          exact ⟨w₄, .head h1 (.head h2 (.head h3 (.single h4))), hw₄⟩
        · have hn0 : 0 ≤ n := Int32.not_lt.mp hn
          rw [sendLoop_sent h32 hlt hn0] at h
          by_cases hroom : total + n.toInt.toNat ≤ sendbuf.length
          · rw [if_pos hroom] at h
            obtain ⟨w₂, h2, hw₂⟩ := Tracks.send hw₁ hroom
            obtain ⟨w', hrun, hw'⟩ := ih _ _ w₂ (.send total) hret' hroom hw₂ h
            exact ⟨w', .head h1 (.head h2 hrun), hw'⟩
          · rw [if_neg hroom] at h
            cases h

open Relation in
/-- **The steps of a task that nobody interrupts are the call**, if a `send` that fails returns
-1. -/
theorem call_steps {t : Task} {i : Nat} {sendbuf : List UInt8} {rounds : List Round} {ret : Int32}
    {s : SendState} {w : World} (hframe : w.frame t = some ⟨sendbuf, .pend⟩)
    (hlock : w.lock = none) (hopen : w.isOpen = true) (hconn : w.conn = some i)
    (h31 : sendbuf.length < 2 ^ 31) (hret : ∀ n, .sent n ∈ rounds → n < 0 → n = -1)
    (h : socketTCPClientSendData sendbuf w.TCPClient_reset_flag rounds = some (ret, s)) :
    ∃ w', ReflTransGen (SenderStep t) w w' ∧
      Tracks t i (accepted i w.calls) w' ⟨sendbuf, .done ret.toInt⟩ s := by
  have hpend : SenderStep t w (({ w with lock := some t }.log (.take sendbuf)).setPc t
      ⟨sendbuf, .pend⟩ (Frame.next ⟨sendbuf, .pend⟩ 0)) := by
    refine senderStep_of_sendStep hframe .pend ?_
    simp only [sendStep, hlock]
  have htracks : Tracks t i (accepted i w.calls) (({ w with lock := some t }.log
      (.take sendbuf)).setPc t ⟨sendbuf, .pend⟩ (Frame.next ⟨sendbuf, .pend⟩ 0))
      ⟨sendbuf, Frame.next ⟨sendbuf, .pend⟩ 0⟩ ⟨0, [], w.TCPClient_reset_flag⟩ :=
    ⟨Tracks.setPc_frame _ _ _, rfl, hopen, hconn, rfl, accepted_concat i w.calls _⟩
  obtain ⟨w', hrun, hw'⟩ := loop_steps h31 rounds 0 _ _ .pend hret (Nat.zero_le _) htracks h
  exact ⟨w', .head hpend hrun, hw'⟩

/-! ### When a call sends exactly -/

/-- **When a call sends exactly.**  Whatever the rounds, a call that returns has given back the lock
and tells what was accepted if and only if `select` does not fail while bytes are left, and the
length is one that an `int` can hold or else a `send` fails. -/
theorem sends_exactly_iff {sendbuf : List UInt8} {flag : UInt8} {rounds : List Round} {ret : Int32}
    {s : SendState} (h32 : sendbuf.length < 2 ^ 32)
    (h : socketTCPClientSendData sendbuf flag rounds = some (ret, s)) :
    SendsExactly sendbuf ret s ↔
      ¬Meets sendbuf.length rounds .selectError ∧
        (sendbuf.length < 2 ^ 31 ∨ ∃ n, Meets sendbuf.length rounds (.sent n)) :=
  exactly_of_returned h32 (sendLoop_returned h32 rounds 0 _ (Nat.zero_le _) rfl rfl h)

/-- Three bytes go out in two pieces. -/
theorem sends_exactly_iff_pieces :
    SendsExactly [0x10, 0x01, 0x00] 3 ⟨1, [0x10, 0x01, 0x00], 1⟩ ↔
      ¬Meets 3 [.sent 2, .notSet, .sent 1] .selectError ∧
        (3 < 2 ^ 31 ∨ ∃ n, Meets 3 [.sent 2, .notSet, .sent 1] (.sent n)) := by
  have hrun : socketTCPClientSendData [0x10, 0x01, 0x00] 1 [.sent 2, .notSet, .sent 1] =
      some (3, ⟨1, [0x10, 0x01, 0x00], 1⟩) := by decide
  exact sends_exactly_iff (by decide) hrun

/-- `select` fails behind the first piece. -/
theorem select_keeps_lock :
    ∃ ret s, socketTCPClientSendData [0x10, 0x01, 0x00] 1 [.sent 2, .selectError] = some (ret, s) ∧
      ¬SendsExactly [0x10, 0x01, 0x00] ret s := by
  refine ⟨-1, ⟨0, [0x10, 0x01], 1⟩, by decide, fun h => ?_⟩
  cases h.released

end Nl6621.Net.Client
