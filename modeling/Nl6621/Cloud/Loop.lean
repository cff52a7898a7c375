import Nl6621.Cloud.Asserts

/-!
# The loop of `recv_data_process`

`frames bs` is the list of the packets `GetEdpPacket` cuts off the bytes `bs`,
one after the other, until the rest holds no complete one.  The loop takes the
first of them and goes on with what is behind it (`recvLoop_packet`), and ends
when there is none (`recvLoop_end`).  `keeps_handleType` says what handling a
packet cannot change; in particular it never takes back what has been
dispatched.
-/

namespace Nl6621.Cloud

open Lib Edp

/-- The complete packets a chunk starts with. -/
def frames (bs : List UInt8) : List (List UInt8) :=
  if _h : 0 < frameLen bs then
    bs.take (frameLen bs).toNat :: frames (bs.drop (frameLen bs).toNat)
  else []
termination_by bs.length
decreasing_by
  have := frameLen_le bs
  rw [List.length_drop]
  omega

theorem frames_of_pos {bs : List UInt8} (h : 0 < frameLen bs) :
    frames bs = bs.take (frameLen bs).toNat :: frames (bs.drop (frameLen bs).toNat) := by
  rw [frames, dif_pos h]

theorem frames_of_nonpos {bs : List UInt8} (h : frameLen bs ≤ 0) : frames bs = [] := by
  rw [frames, dif_neg (by omega)]

/-- A single frame is cut off as it is. -/
theorem frames_frame {t : UInt8} {body : List UInt8} (h : body.length < 2 ^ 28) :
    frames (frame t body) = [frame t body] := by
  have hl := frameLen_frame (t := t) h []
  rw [List.append_nil] at hl
  rw [frames_of_pos (by rw [hl, frame, List.length_cons]; omega), hl, Int.toNat_natCast,
    List.take_length, List.drop_length, frames_of_nonpos (by decide)]

variable {J : Type} (env : Env J)

theorem recvLoop_end {buf : Buffer} {bs : List UInt8} (h : Received buf bs)
    (hn : frameLen bs ≤ 0) (k : Nat) (t : Task J) : recvLoop env k buf t = ⟨t, .needMore⟩ := by
  cases k with
  | zero => rfl
  | succ k => simp only [recvLoop, getEdpPacket_none h hn]

/-- What the loop does with the outcome of one packet. -/
def afterPacket (k : Nat) (recvbuf : Buffer) (t : Task J) :
    Outcome (Except Int Unit × (Buffer × Task J)) → Run J
  | .ok (_, (_, t')) => recvLoop env k recvbuf t'
  | .assertFail => ⟨t, .assertFail⟩
  | .fault => ⟨t, .fault⟩

/-- The loop hands over the first packet and keeps exactly the bytes behind it. -/
theorem recvLoop_packet {buf : Buffer} {bs : List UInt8} (h : Received buf bs)
    (hn : 0 < frameLen bs) (h16 : bs.length < 2 ^ 16) (k : Nat) (t : Task J) :
    ∃ pkg buf', Filled pkg (bs.take (frameLen bs).toNat) ∧
      Received buf' (bs.drop (frameLen bs).toNat) ∧
      recvLoop env (k + 1) buf t =
        afterPacket env k buf' (t.dispatch pkg) (handlePacket env (pkg, t.dispatch pkg)) := by
  obtain ⟨pkg, buf', hg, hp, -, hr⟩ := getEdpPacket_some h hn
  refine ⟨pkg, buf', hp, hr (by omega), ?_⟩
  simp only [recvLoop, hg]
  cases handlePacket env (pkg, t.dispatch pkg) <;> rfl

theorem length_take_frameLen (bs : List UInt8) :
    (bs.take (frameLen bs).toNat).length = (frameLen bs).toNat := by
  have := frameLen_le bs
  rw [List.length_take]
  omega

theorem length_drop_frameLen {bs : List UInt8} (h : 0 < frameLen bs) :
    (bs.drop (frameLen bs).toNat).length < bs.length := by
  have := frameLen_le bs
  rw [List.length_drop]
  omega

/-! ### What handling a packet leaves alone -/

section Decoders

variable {ω γ : Type} {f : ω → γ}

theorem keeps_assign {g : ω → ω} (hg : ∀ w, f (g w) = f w) :
    Keeps (fun s : Buffer × ω => f s.2) (assign g) := by
  intro s r s' h
  cases h
  exact hg _

theorem keeps_assertConsumed : Keeps (fun s : Buffer × ω => f s.2) assertConsumed := Keeps.assert _

/-- A reader with its error return. -/
theorem keeps_call {α : Type} (p : Proc Buffer α) (c : Int) :
    Keeps (fun s : Buffer × ω => f s.2) (p.onFst.orReturn c) :=
  (Keeps.onFst p).orReturn c

theorem keeps_unpackConnectResp :
    Keeps (fun s : Buffer × ω => f s.2) (unpackConnectResp : Proc (Buffer × ω) UInt8) :=
  (keeps_call _ _).bind fun _ => (keeps_call _ _).bind fun _ => (keeps_call _ _).bind fun _ =>
    keeps_assertConsumed.bind fun _ => .pure _

theorem keeps_unpackPingResp :
    Keeps (fun s : Buffer × ω => f s.2) (unpackPingResp : Proc (Buffer × ω) Unit) :=
  (keeps_call _ _).bind fun _ => keeps_assertConsumed

theorem keeps_unpackPushdata {srcDevid data : List UInt8 → ω → ω} {dataLen : Nat → ω → ω}
    (h1 : ∀ b w, f (srcDevid b w) = f w) (h2 : ∀ b w, f (data b w) = f w)
    (h3 : ∀ n w, f (dataLen n w) = f w) :
    Keeps (fun s : Buffer × ω => f s.2) (unpackPushdata srcDevid data dataLen) :=
  (keeps_call _ _).bind fun _ => (keeps_call _ _).bind fun _ =>
    (keeps_assign (h1 _)).bind fun _ => (keeps_call _ _).bind fun _ =>
      (keeps_assign (h2 _)).bind fun _ => (keeps_assign (h3 _)).bind fun _ => keeps_assertConsumed

theorem keeps_unpackSavedata {src : Option (List UInt8) → ω → ω} {jbFlag : UInt8 → ω → ω}
    (h1 : ∀ o w, f (src o w) = f w) (h2 : ∀ b w, f (jbFlag b w) = f w) :
    Keeps (fun s : Buffer × ω => f s.2) (unpackSavedata src jbFlag) := by
  refine (keeps_call _ _).bind fun _ => (keeps_call _ _).bind fun taFlag => ?_
  have hsrc : Keeps (fun s : Buffer × ω => f s.2) (unpackSrcDevid src taFlag) := by
    unfold unpackSrcDevid
    split
    · exact (keeps_call _ _).bind fun _ => keeps_assign (h1 _)
    · exact keeps_assign (h1 _)
  exact hsrc.bind fun _ => (keeps_call _ _).bind fun _ => keeps_assign (h2 _)

variable {J : Type} {cJSON_Parse : List UInt8 → Option J} {obj : Option J → ω → ω}

theorem keeps_parseInto (h1 : ∀ o w, f (obj o w) = f w) (s : List UInt8) (c : Int) :
    Keeps (fun s : Buffer × ω => f s.2) (parseInto cJSON_Parse obj s c) := by
  refine (keeps_assign (h1 _)).bind fun _ => ?_
  split
  · exact .ret c
  · exact .pure _

theorem keeps_unpackSavedataJson (h1 : ∀ o w, f (obj o w) = f w) :
    Keeps (fun s : Buffer × ω => f s.2) (unpackSavedataJson cJSON_Parse obj) :=
  (keeps_call _ _).bind fun _ => (keeps_parseInto h1 _ _).bind fun _ => keeps_assertConsumed

theorem keeps_unpackSavedataBin {binData : List UInt8 → ω → ω} {binLen : Nat → ω → ω}
    (h1 : ∀ o w, f (obj o w) = f w) (h2 : ∀ b w, f (binData b w) = f w)
    (h3 : ∀ n w, f (binLen n w) = f w) :
    Keeps (fun s : Buffer × ω => f s.2) (unpackSavedataBin cJSON_Parse obj binData binLen) :=
  (keeps_call _ _).bind fun _ => (keeps_parseInto h1 _ _).bind fun _ =>
    (keeps_call _ _).bind fun _ => (keeps_assign (h3 _)).bind fun _ =>
      (keeps_call _ _).bind fun _ => (keeps_assign (h2 _)).bind fun _ => keeps_assertConsumed

theorem keeps_unpackSavedataSimpleString {output : List UInt8 → ω → ω}
    (h1 : ∀ b w, f (output b w) = f w) :
    Keeps (fun s : Buffer × ω => f s.2) (unpackSavedataSimpleString output) :=
  (keeps_call _ _).bind fun _ => keeps_assign (h1 _)

theorem keeps_unpackSavedataAck {jsonAck : List UInt8 → ω → ω}
    (h1 : ∀ b w, f (jsonAck b w) = f w) :
    Keeps (fun s : Buffer × ω => f s.2) (unpackSavedataAck jsonAck) :=
  (keeps_call _ _).bind fun _ => (keeps_call _ _).bind fun _ => (keeps_call _ _).bind fun _ =>
    (keeps_call _ _).bind fun _ => keeps_assign (h1 _)

theorem keeps_unpackCmdReq {cmdid req : List UInt8 → ω → ω} {cmdidLen reqLen : Nat → ω → ω}
    (h1 : ∀ b w, f (cmdid b w) = f w) (h2 : ∀ n w, f (cmdidLen n w) = f w)
    (h3 : ∀ b w, f (req b w) = f w) (h4 : ∀ n w, f (reqLen n w) = f w) :
    Keeps (fun s : Buffer × ω => f s.2) (unpackCmdReq cmdid cmdidLen req reqLen) :=
  (keeps_call _ _).bind fun _ => (Keeps.onFst _).bind fun _ => (keeps_assign (h2 _)).bind fun _ =>
    (keeps_call _ _).bind fun _ => (keeps_assign (h1 _)).bind fun _ =>
      (Keeps.onFst _).bind fun _ => (keeps_assign (h4 _)).bind fun _ =>
        (keeps_call _ _).bind fun _ => (keeps_assign (h3 _)).bind fun _ => keeps_assertConsumed

end Decoders

section Handlers

variable {γ : Type} {f : Task J → γ}

/-- A view of the task that none of the pointer operations changes. -/
structure Blind (f : Task J → γ) : Prop where
  setPtr : ∀ v p t, f (Task.setPtr v p t) = f t
  trace : ∀ (t : Task J) tr, f { t with trace := tr } = f t
  jsonorbin : ∀ (t : Task J) b, f { t with jsonorbin := b } = f t
  pushDatalen : ∀ (t : Task J) n, f { t with pushDatalen := n } = f t
  saveBinlen : ∀ (t : Task J) n, f { t with saveBinlen := n } = f t
  cmdidLen : ∀ (t : Task J) n, f { t with cmdidLen := n } = f t
  cmdReqLen : ∀ (t : Task J) n, f { t with cmdReqLen := n } = f t

namespace Blind

theorem setObj (h : Blind f) (v : Var) (obj : Obj J) (t : Task J) : f (t.setObj v obj) = f t := by
  rw [Task.setObj, h.trace, h.setPtr]

theorem setOption (h : Blind f) (v : Var) (obj : Option (Obj J)) (t : Task J) :
    f (t.setOption v obj) = f t := by
  cases obj with
  | none => exact h.setPtr _ _ _
  | some o => exact h.setObj _ _ _

theorem record (h : Blind f) (a : Action) (v : Var) (t : Task J) : f (t.record a v) = f t :=
  h.trace _ _

theorem release (h : Blind f) (a : Action) (v : Var) (t : Task J) : f (t.release a v) = f t := by
  unfold Task.release
  split
  · rw [h.setPtr, h.record]
  · exact h.record _ _ _

theorem jsonPrint (h : Blind f) (p : J → CString) (str v : Var) (t : Task J) :
    f (t.jsonPrint p str v) = f t := by
  unfold Task.jsonPrint
  split
  · rw [Task.setBytes, h.setObj, h.record]
  · rw [h.setPtr, h.record]

end Blind

theorem keeps_print (h : Blind f) (v : Var) : Keeps (fun s : Buffer × Task J => f s.2) (print v) :=
  keeps_assign (h.record _ _)

theorem keeps_free (h : Blind f) (v : Var) : Keeps (fun s : Buffer × Task J => f s.2) (free v) :=
  keeps_assign (h.release _ _)

theorem keeps_handlePushdata (h : Blind f) :
    Keeps (fun s : Buffer × Task J => f s.2) handlePushdata := by
  have hcall : Keeps (fun s : Buffer × Task J => f s.2) callPushdata :=
    keeps_unpackPushdata (fun _ => h.setObj _ _) (fun _ => h.setObj _ _) fun _ _ => h.pushDatalen _ _
  exact hcall.void.bind fun _ => (keeps_print h _).bind fun _ => (keeps_print h _).bind fun _ =>
    (keeps_free h _).bind fun _ => keeps_free h _

theorem keeps_handleSavedataJson (h : Blind f) :
    Keeps (fun s : Buffer × Task J => f s.2) (handleSavedataJson env) := by
  have hcall : Keeps (fun s : Buffer × Task J => f s.2) (callSavedataJson env) :=
    keeps_unpackSavedataJson fun _ => h.setOption _ _
  exact hcall.void.bind fun _ => (keeps_assign (h.jsonPrint _ _ _)).bind fun _ =>
    (keeps_print h _).bind fun _ => (keeps_print h _).bind fun _ =>
      (keeps_free h _).bind fun _ => keeps_assign (h.release _ _)

theorem keeps_handleSavedataBin (h : Blind f) :
    Keeps (fun s : Buffer × Task J => f s.2) (handleSavedataBin env) := by
  have hcall : Keeps (fun s : Buffer × Task J => f s.2) (callSavedataBin env) :=
    keeps_unpackSavedataBin (fun _ => h.setOption _ _) (fun _ => h.setObj _ _)
      fun _ _ => h.saveBinlen _ _
  exact hcall.void.bind fun _ => (keeps_assign (h.jsonPrint _ _ _)).bind fun _ =>
    (keeps_print h _).bind fun _ => (keeps_print h _).bind fun _ => (keeps_print h _).bind fun _ =>
      (keeps_free h _).bind fun _ => (keeps_assign (h.release _ _)).bind fun _ => keeps_free h _

theorem keeps_handleSavedataString (h : Blind f) :
    Keeps (fun s : Buffer × Task J => f s.2) handleSavedataString := by
  have hcall : Keeps (fun s : Buffer × Task J => f s.2) callSavedataSimpleString :=
    keeps_unpackSavedataSimpleString fun _ => h.setObj _ _
  exact hcall.void.bind fun _ => (keeps_print h _).bind fun _ => keeps_free h _

theorem keeps_handleSavedata (h : Blind f) :
    Keeps (fun s : Buffer × Task J => f s.2) (handleSavedata env) := by
  have hcall : Keeps (fun s : Buffer × Task J => f s.2) callSavedata :=
    keeps_unpackSavedata (fun _ => h.setOption _ _) fun _ _ => h.jsonorbin _ _
  refine hcall.succeeds.bind fun ok => ?_
  cases ok with
  | false => exact .pure _
  | true =>
    refine Keeps.get.bind fun s => Keeps.bind ?_ fun _ => keeps_free h _
    unfold handleSavedataBody
    split
    · exact keeps_handleSavedataJson env h
    split
    · exact keeps_handleSavedataBin env h
    split
    · exact keeps_handleSavedataString h
    · exact .pure _

theorem keeps_handleSaveAck (h : Blind f) :
    Keeps (fun s : Buffer × Task J => f s.2) handleSaveAck := by
  have hcall : Keeps (fun s : Buffer × Task J => f s.2) callSavedataAck :=
    keeps_unpackSavedataAck fun _ => h.setObj _ _
  exact (keeps_assign (h.setPtr _ _)).bind fun _ => hcall.void.bind fun _ =>
    (keeps_print h _).bind fun _ => keeps_free h _

theorem keeps_handleCmdReq (h : Blind f) (hsend : ∀ pkg t, f (Task.send env.sendFails pkg t) = f t) :
    Keeps (fun s : Buffer × Task J => f s.2) (handleCmdReq env) := by
  have hcall : Keeps (fun s : Buffer × Task J => f s.2) callCmdReq :=
    keeps_unpackCmdReq (fun _ => h.setObj _ _) (fun _ _ => h.cmdidLen _ _)
      (fun _ => h.setObj _ _) fun _ _ => h.cmdReqLen _ _
  refine hcall.succeeds.bind fun ok => ?_
  cases ok with
  | false => exact .pure _
  | true =>
    exact Keeps.get.bind fun s => (Keeps.lift _).bind fun _ => (Keeps.lift _).bind fun _ =>
      (keeps_assign (hsend _)).bind fun _ => (keeps_free h _).bind fun _ => keeps_free h _

/-- **What handling a packet changes**: apart from the pointers, the counters and
the trace only a connect response, which sets the login flags, and an answered
command, which sends. -/
theorem keeps_handleType (h : Blind f) (hsend : ∀ pkg t, f (Task.send env.sendFails pkg t) = f t)
    (mtype : UInt8) (hlogin : mtype = CONNRESP → ∀ t, f (Task.loginDone t) = f t) :
    Keeps (fun s : Buffer × Task J => f s.2) (handleType env mtype) := by
  unfold handleType
  split
  · next hc =>
    exact (keeps_unpackConnectResp.bind fun _ => .pure _).void.bind fun _ =>
      keeps_assign (hlogin hc)
  split
  · exact keeps_unpackPingResp.void
  split
  · exact keeps_handlePushdata h
  split
  · exact keeps_handleSavedata env h
  split
  · exact keeps_handleSaveAck h
  split
  · exact keeps_handleCmdReq env h hsend
  · exact .pure _

theorem blind_dispatched : Blind (J := J) Task.dispatched where
  setPtr _ _ _ := rfl
  trace _ _ := rfl
  jsonorbin _ _ := rfl
  pushDatalen _ _ := rfl
  saveBinlen _ _ := rfl
  cmdidLen _ _ := rfl
  cmdReqLen _ _ := rfl

theorem handlePacket_dispatched {pkg pkg' : Buffer} {t t' : Task J} {r : Except Int Unit}
    (h : handlePacket env (pkg, t) = .ok (r, (pkg', t'))) : t'.dispatched = t.dispatched := by
  have hk : Keeps (fun s : Buffer × Task J => s.2.dispatched) (handlePacket env) :=
    (Keeps.onFst _).bind fun mtype => keeps_handleType env blind_dispatched
      (fun pkg t => Task.send_dispatched _ pkg t) mtype fun _ _ => rfl
  exact hk _ _ _ h

end Handlers

end Nl6621.Cloud
