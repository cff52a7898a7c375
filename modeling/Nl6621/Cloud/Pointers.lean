import Nl6621.Cloud.Loop

/-!
# What the handler does with its pointers

A use of a pointer variable is sound when the variable holds an object that was
assigned while this very packet was handled and has not been freed since; an
object printed with `%s` must contain a terminator.  A group of events of one
packet is `PacketSound` when all its uses are sound and every object that was
assigned has been released exactly once.

The decoders return early in many places and leave their out-parameters as they
were, and `recv_data_process` looks at the result of two of them only.
`UsesDecoded` says for every type and body when this does no harm.  The main
result, `receive_sound`, is about whole connections: as long as every packet
meets the condition, the trace of the run is sound, however the bytes were cut into
chunks.
-/

namespace Nl6621.Cloud

open Lib Edp

variable {J : Type}

/-! ### Sound traces -/

namespace Event

def packet : Event J → Nat
  | assigned _ n _ => n
  | used _ _ n _ => n

/-- The variable holds a live object of this packet, a terminated one when it is
printed with `%s`. -/
def Sound : Event J → Prop
  | assigned _ _ _ => True
  | used a _ n slot =>
    ∃ obj, slot = .live n obj ∧ (a = .print → ∃ b, obj = .bytes b ∧ Terminated b)

/-- `free` or `cJSON_Delete` of the variable `v` while packet `n` is handled. -/
def releases (v : Var) (n : Nat) : Event J → Bool
  | assigned _ _ _ => false
  | used a v' n' _ => (a == .free || a == .cJSON_Delete) && v' == v && n' == n

/-- A use of an object of the current packet. -/
def onLive (a : Action) (v : Var) (n : Nat) (obj : Obj J) : Event J := used a v n (.live n obj)

/-- The variable an object is assigned to. -/
def target : Event J → Option Var
  | assigned v _ _ => some v
  | used _ _ _ _ => none

@[simp] theorem target_assigned (v : Var) (n : Nat) (obj : Obj J) :
    (assigned v n obj).target = some v := rfl

@[simp] theorem target_onLive (a : Action) (v : Var) (n : Nat) (obj : Obj J) :
    (onLive a v n obj).target = none := rfl

@[simp] theorem packet_assigned (v : Var) (n : Nat) (obj : Obj J) :
    (assigned v n obj).packet = n := rfl

@[simp] theorem packet_onLive (a : Action) (v : Var) (n : Nat) (obj : Obj J) :
    (onLive a v n obj).packet = n := rfl

@[simp] theorem assigned_ne_onLive (a : Action) (v v' : Var) (n n' : Nat) (obj obj' : Obj J) :
    assigned v n obj ≠ onLive a v' n' obj' := by
  simp [onLive]

@[simp] theorem sound_assigned (v : Var) (n : Nat) (obj : Obj J) : (assigned v n obj).Sound := trivial

@[simp] theorem sound_onLive (a : Action) (v : Var) (n : Nat) (obj : Obj J) :
    (onLive a v n obj).Sound ↔ (a = .print → ∃ b, obj = .bytes b ∧ Terminated b) := by
  constructor
  · rintro ⟨o, ho, h⟩
    cases ho
    exact h
  · intro h
    exact ⟨obj, rfl, h⟩

@[simp] theorem releases_assigned (v v' : Var) (n n' : Nat) (obj : Obj J) :
    releases v n (assigned v' n' obj) = false := rfl

@[simp] theorem releases_onLive (v v' : Var) (n : Nat) (a : Action) (obj : Obj J) :
    releases v n (onLive a v' n obj) = ((a == .free || a == .cJSON_Delete) && v' == v) := by
  simp [releases, onLive]

end Event

/-- The events of one packet: every use is sound and every object that was assigned
is released exactly once. -/
structure PacketSound (n : Nat) (evs : List (Event J)) : Prop where
  packet : ∀ e ∈ evs, e.packet = n
  sound : ∀ e ∈ evs, e.Sound
  freed : ∀ v obj, .assigned v n obj ∈ evs → evs.countP (Event.releases v n) = 1

/-- The events of a run of packets up to number `k`. -/
structure TraceSound (k : Nat) (trace : List (Event J)) : Prop where
  packet : ∀ e ∈ trace, e.packet ≤ k
  sound : ∀ e ∈ trace, e.Sound
  freed : ∀ v n obj, .assigned v n obj ∈ trace → trace.countP (Event.releases v n) = 1

theorem traceSound_nil (k : Nat) : TraceSound k ([] : List (Event J)) where
  packet := by simp
  sound := by simp
  freed := by simp

theorem packetSound_nil (n : Nat) : PacketSound n ([] : List (Event J)) where
  packet := by simp
  sound := by simp
  freed := by simp

/-- The objects of a packet are freed when every variable assigned is released once. -/
theorem packetSound_of_targets {n : Nat} {evs : List (Event J)} (hp : ∀ e ∈ evs, e.packet = n)
    (hs : ∀ e ∈ evs, e.Sound)
    (hf : ∀ v ∈ evs.filterMap Event.target, evs.countP (Event.releases v n) = 1) :
    PacketSound n evs :=
  ⟨hp, hs, fun v _ hv => hf v (List.mem_filterMap.mpr ⟨_, hv, rfl⟩)⟩

theorem countP_releases_eq_zero {v : Var} {n : Nat} {evs : List (Event J)}
    (h : ∀ e ∈ evs, e.packet ≠ n) : evs.countP (Event.releases v n) = 0 := by
  rw [List.countP_eq_zero]
  intro e he
  cases e with
  | assigned _ _ _ => simp
  | used a v' n' slot =>
    have hn : n' ≠ n := h _ he
    simp [Event.releases, hn]

/-- **A sound packet continues a sound run.** -/
theorem TraceSound.append {k : Nat} {trace evs : List (Event J)} (h : TraceSound k trace)
    (hp : PacketSound (k + 1) evs) : TraceSound (k + 1) (trace ++ evs) where
  packet := by
    intro e he
    rcases List.mem_append.mp he with he | he
    · exact le_trans (h.packet e he) (Nat.le_succ k)
    · exact (hp.packet e he).le
  sound := by
    intro e he
    rcases List.mem_append.mp he with he | he
    · exact h.sound e he
    · exact hp.sound e he
  freed := by
    intro v n obj he
    rw [List.countP_append]
    rcases List.mem_append.mp he with he | he
    · -- an object of an earlier packet: the new events are about another packet
      have hn : n ≤ k := h.packet _ he
      rw [h.freed v n obj he, countP_releases_eq_zero fun e he' => by
        rw [hp.packet e he']; omega]
    · obtain rfl : n = k + 1 := hp.packet _ he
      rw [hp.freed v obj he, countP_releases_eq_zero fun e he' => by
        have := h.packet e he'; omega]

/-! ### The condition -/

/-- The description parses and a block of exactly the announced length follows,
with a terminator in it. -/
def BinDecoded (cJSON_Parse : List UInt8 → Option J) (bs : List UInt8) : Prop :=
  ∃ s j r blk, takeStr bs = some (s, r) ∧ cJSON_Parse (cstr s) = some j ∧
    takeU32 r = some (blk.length, blk) ∧ Terminated blk

/-- What follows the data flag is decoded completely. -/
def FormDecoded (cJSON_Parse : List UInt8 → Option J) (flag : UInt8) (bs : List UInt8) : Prop :=
  if IsJson flag then ∃ s j, takeStr bs = some (s, []) ∧ cJSON_Parse (cstr s) = some j
  else if flag = kTypeBin then BinDecoded cJSON_Parse bs
  else if flag = kTypeString then ∃ s r, takeStr bs = some (s, r)
  else True

/-- Saved data that carries a source id and is decoded completely, or whose header
is refused before an object has been made. -/
def SavedataDecoded (cJSON_Parse : List UInt8 → Option J) : List UInt8 → Prop
  | [] => True
  | taFlag :: tl =>
    match takeSrc taFlag tl with
    | none => True
    | some (id, []) => id = none
    | some (id, flag :: rest) => id ≠ none ∧ FormDecoded cJSON_Parse flag rest

/-- A command that is refused before its id, or is complete. -/
def CmdReqDecoded (body : List UInt8) : Prop :=
  takeStr body = none ∨
    ∃ id r req, takeStr body = some (id, r) ∧ takeU32 r = some (req.length, req)

/-- Every pointer the handler uses for this packet is one the decoders have
assigned for it. -/
def UsesDecoded (cJSON_Parse : List UInt8 → Option J) (t : UInt8) (body : List UInt8) : Prop :=
  if t = PUSHDATA then
    ∃ s rest, takeStr body = some (s, rest) ∧ (0 : UInt8) ∉ s ∧ Terminated rest
  else if t = SAVEDATA then SavedataDecoded cJSON_Parse body
  else if t = SAVEACK then ∃ ack rest, takeAck body = some (ack, rest) ∧ Terminated ack
  else if t = CMDREQ then CmdReqDecoded body
  else True

/-! ### One packet -/

/-- The handler comes back and leaves a sound group of events. -/
def Clean (p : Proc (Buffer × Task J) Unit) (pkg : Buffer) (t : Task J) : Prop :=
  ∃ r pkg' t' evs, p (pkg, t) = .ok (r, (pkg', t')) ∧ t'.packet = t.packet ∧
    t'.trace = t.trace ++ evs ∧ PacketSound t.packet evs

section Handlers

variable (env : Env J) {pkg : Buffer} {body pre bs rest : List UInt8}

theorem handlePushdata_clean {s : List UInt8} (h : Opened pkg body)
    (ht : takeStr body = some (s, rest)) (hs : (0 : UInt8) ∉ s) (hr : Terminated rest)
    (t : Task J) : Clean handlePushdata pkg t := by
  have hd : Done callPushdata pkg t () _ [] :=
    unpackPushdata_done h ht (lt_trans h.length_lt (by decide)) hs t
  obtain ⟨pkg₁, pre₁, he, -⟩ := hd
  refine ⟨_, _, _, [
    .assigned .srcDevid t.packet (.bytes (strncpy s)),
    .assigned .pushData t.packet (.bytes rest),
    .onLive .print .srcDevid t.packet (.bytes (strncpy s)),
    .onLive .print .pushData t.packet (.bytes rest),
    .onLive .free .srcDevid t.packet (.bytes (strncpy s)),
    .onLive .free .pushData t.packet (.bytes rest)], Proc.bind_ok (Proc.void_ok he), rfl, ?_, ?_⟩
  · simp [Task.release, Task.record, Task.setPushDatalen, Task.setBytes, Task.setObj, Task.setPtr,
      Event.onLive]
  · have hstr := terminated_strncpy s
    exact packetSound_of_targets (by simp) (by simp [hstr, hr]) (by simp)

theorem handleSaveAck_clean {ack : List UInt8} (h : Opened pkg body)
    (ht : takeAck body = some (ack, rest)) (hack : Terminated ack) (t : Task J) :
    Clean handleSaveAck pkg t := by
  have hd : Done callSavedataAck pkg (t.setPtr .jsonAck .null) () _ rest :=
    unpackSavedataAck_done h ht _
  obtain ⟨pkg₁, pre₁, he, -⟩ := hd
  refine ⟨_, _, _, [
    .assigned .jsonAck t.packet (.bytes ack),
    .onLive .print .jsonAck t.packet (.bytes ack),
    .onLive .free .jsonAck t.packet (.bytes ack)], Proc.bind_ok (Proc.void_ok he), rfl, ?_, ?_⟩
  · simp [Task.release, Task.record, Task.setBytes, Task.setObj, Task.setPtr, Event.onLive]
  · exact packetSound_of_targets (by simp) (by simp [hack]) (by simp)

theorem handleCmdReq_clean {id req r : List UInt8} (h : Opened pkg body)
    (ht : takeStr body = some (id, r)) (hreq : takeU32 r = some (req.length, req)) (t : Task J) :
    Clean (handleCmdReq env) pkg t := by
  have hid : id.length < 2 ^ 16 := by
    obtain ⟨r', h16, -⟩ := takeStr_some ht
    exact (takeU16_lt h16).1
  have hstep : Becomes callCmdReq pkg t _ _ r := unpackCmdReq_step h ht t
  have hd := hstep.andThen fun pkg₁ pre₁ h₁ _ =>
    (requestBlock_step h₁ hreq _).andThen fun pkg₂ pre₂ h₂ _ => lastBlock_done h₂ rfl _ _
  obtain ⟨pkg₁, resp, he⟩ := handleCmdReq_answer env hid rfl hd
  refine ⟨_, _, _, [
    .assigned .cmdid t.packet (.bytes id),
    .assigned .cmdReq t.packet (.bytes req),
    .onLive .free .cmdid t.packet (.bytes id),
    .onLive .free .cmdReq t.packet (.bytes req)], he, ?_, ?_, ?_⟩
  · simp [Task.release, Task.record, Task.setCmdReqLen, Task.setCmdidLen, Task.setBytes,
      Task.setObj, Task.setPtr]
  · simp [Task.release, Task.record, Task.setCmdReqLen, Task.setCmdidLen, Task.setBytes,
      Task.setObj, Task.setPtr, Event.onLive]
  · exact packetSound_of_targets (by simp) (by simp) (by simp)

/-! ### Saved data -/

/-- The branch on the data flag comes back with the source id still in place, and
its events are sound and do not release the id. -/
def FormClean (p : Proc (Buffer × Task J) Unit) (pkg : Buffer) (t : Task J) : Prop :=
  ∃ pkg' t' evs, p (pkg, t) = .ok (.ok (), (pkg', t')) ∧ t'.packet = t.packet ∧
    t'.ptr .srcDevid = t.ptr .srcDevid ∧ t'.trace = t.trace ++ evs ∧ PacketSound t.packet evs ∧
    evs.countP (Event.releases .srcDevid t.packet) = 0

variable {t : Task J} {src : List UInt8}

theorem handleSavedataJson_clean {s : List UInt8} {j : J} (h : Reading pkg pre bs)
    (ht : takeStr bs = some (s, [])) (hj : env.cJSON_Parse (cstr s) = some j)
    (hsrc : t.ptr .srcDevid = .live t.packet (.bytes src)) (hs : Terminated src) :
    FormClean (handleSavedataJson env) pkg t := by
  have hd : Done (callSavedataJson env) pkg t () _ [] := unpackSavedataJson_done h ht hj t
  obtain ⟨pkg₁, pre₁, he, -⟩ := hd
  have hstr : Terminated ((env.cJSON_Print j).bytes ++ [0]) := by simp [Terminated]
  refine ⟨_, _, [
    .assigned .saveJson t.packet (.json j),
    .onLive .cJSON_Print .saveJson t.packet (.json j),
    .assigned .saveJsonStr t.packet (.bytes ((env.cJSON_Print j).bytes ++ [0])),
    .onLive .print .srcDevid t.packet (.bytes src),
    .onLive .print .saveJsonStr t.packet (.bytes ((env.cJSON_Print j).bytes ++ [0])),
    .onLive .free .saveJsonStr t.packet (.bytes ((env.cJSON_Print j).bytes ++ [0])),
    .onLive .cJSON_Delete .saveJson t.packet (.json j)],
    Proc.bind_ok (Proc.void_ok he), rfl, rfl, ?_, ?_, by simp⟩
  · simp [Task.release, Task.record, Task.jsonPrint, Task.setJson, Task.setOption, Task.setBytes,
      Task.setObj, Task.setPtr, Event.onLive, hsrc]
  · exact packetSound_of_targets (by simp) (by simp [hs, hstr]) (by simp)

theorem handleSavedataBin_clean (h : Reading pkg pre bs) (hb : BinDecoded env.cJSON_Parse bs)
    (hsrc : t.ptr .srcDevid = .live t.packet (.bytes src)) (hs : Terminated src) :
    FormClean (handleSavedataBin env) pkg t := by
  obtain ⟨s, j, r, blk, ht, hj, h32, hblk⟩ := hb
  have hstep : Becomes (callSavedataBin env) pkg t _ _ r := unpackSavedataBin_step h ht hj t
  obtain ⟨pkg₁, pre₁, he, -⟩ := hstep.andThen fun pkg₁ pre₁ h₁ _ =>
    (unpackBinData_step h₁ h32 _).andThen fun pkg₂ pre₂ h₂ _ => lastBlock_done h₂ rfl _ _
  have hstr : Terminated ((env.cJSON_Print j).bytes ++ [0]) := by simp [Terminated]
  refine ⟨_, _, [
    .assigned .descJson t.packet (.json j),
    .assigned .saveBin t.packet (.bytes blk),
    .onLive .cJSON_Print .descJson t.packet (.json j),
    .assigned .descJsonStr t.packet (.bytes ((env.cJSON_Print j).bytes ++ [0])),
    .onLive .print .srcDevid t.packet (.bytes src),
    .onLive .print .descJsonStr t.packet (.bytes ((env.cJSON_Print j).bytes ++ [0])),
    .onLive .print .saveBin t.packet (.bytes blk),
    .onLive .free .descJsonStr t.packet (.bytes ((env.cJSON_Print j).bytes ++ [0])),
    .onLive .cJSON_Delete .descJson t.packet (.json j),
    .onLive .free .saveBin t.packet (.bytes blk)],
    Proc.bind_ok (Proc.void_ok he), rfl, rfl, ?_, ?_, by simp⟩
  · simp [Task.release, Task.record, Task.jsonPrint, Task.setJson, Task.setOption, Task.setBytes,
      Task.setSaveBinlen, Task.setObj, Task.setPtr, Event.onLive, hsrc]
  · exact packetSound_of_targets (by simp) (by simp [hs, hstr, hblk]) (by simp)

theorem handleSavedataString_clean {s : List UInt8} (h : Reading pkg pre bs)
    (ht : takeStr bs = some (s, rest)) : FormClean handleSavedataString pkg t := by
  have hd : Done callSavedataSimpleString pkg t () _ rest :=
    unpackSavedataSimpleString_done h ht t
  obtain ⟨pkg₁, pre₁, he, -⟩ := hd
  have hstr := terminated_strncpy s
  refine ⟨_, _, [
    .assigned .simpleStr t.packet (.bytes (strncpy s)),
    .onLive .print .simpleStr t.packet (.bytes (strncpy s)),
    .onLive .free .simpleStr t.packet (.bytes (strncpy s))],
    Proc.bind_ok (Proc.void_ok he), rfl, rfl, ?_, ?_, by simp⟩
  · simp [Task.release, Task.record, Task.setBytes, Task.setObj, Task.setPtr, Event.onLive]
  · exact packetSound_of_targets (by simp) (by simp [hstr]) (by simp)

theorem handleSavedataBody_clean {flag : UInt8} (h : Reading pkg pre bs)
    (hf : FormDecoded env.cJSON_Parse flag bs)
    (hsrc : t.ptr .srcDevid = .live t.packet (.bytes src)) (hs : Terminated src) :
    FormClean (handleSavedataBody env flag) pkg t := by
  unfold FormDecoded at hf
  unfold handleSavedataBody
  change FormClean (if IsJson flag then _ else _) pkg t
  by_cases hj : IsJson flag
  · rw [if_pos hj] at hf ⊢
    obtain ⟨s, j, ht, hp⟩ := hf
    exact handleSavedataJson_clean env h ht hp hsrc hs
  rw [if_neg hj] at hf ⊢
  by_cases hb : flag = kTypeBin
  · rw [if_pos hb] at hf ⊢
    exact handleSavedataBin_clean env h hf hsrc hs
  rw [if_neg hb] at hf ⊢
  by_cases hst : flag = kTypeString
  · rw [if_pos hst] at hf ⊢
    obtain ⟨s, r, ht⟩ := hf
    exact handleSavedataString_clean h ht
  rw [if_neg hst]
  exact ⟨pkg, t, [], rfl, rfl, rfl, (List.append_nil _).symm, packetSound_nil _, rfl⟩

/-- The source id is assigned in front of the branch and freed behind it. -/
theorem savedata_sound (obj : Obj J) {n : Nat} {evs : List (Event J)} (h : PacketSound n evs)
    (hsrc : evs.countP (Event.releases .srcDevid n) = 0) :
    PacketSound n (.assigned .srcDevid n obj :: (evs ++ [.onLive .free .srcDevid n obj])) where
  packet := by
    intro e he
    simp only [List.mem_cons, List.mem_append, List.not_mem_nil, or_false] at he
    rcases he with rfl | he | rfl
    · rfl
    · exact h.packet e he
    · rfl
  sound := by
    intro e he
    simp only [List.mem_cons, List.mem_append, List.not_mem_nil, or_false] at he
    rcases he with rfl | he | rfl
    · trivial
    · exact h.sound e he
    · simp
  freed := by
    intro v o he
    rw [List.countP_cons, List.countP_append]
    by_cases hv : v = .srcDevid
    · subst hv
      simp [hsrc]
    · simp only [List.mem_cons, List.mem_append, Event.assigned.injEq, hv, false_and,
        Event.assigned_ne_onLive, List.not_mem_nil, or_false, false_or] at he
      simp [h.freed v o he, Ne.symm hv]

theorem handleSavedata_clean {taFlag flag : UInt8} {tl id : List UInt8}
    (h : Opened pkg (taFlag :: tl)) (ht : takeSrc taFlag tl = some (some id, flag :: rest))
    (hf : FormDecoded env.cJSON_Parse flag rest) (t : Task J) :
    Clean (handleSavedata env) pkg t := by
  have hd : Done callSavedata pkg t () _ rest := unpackSavedata_done h ht t
  obtain ⟨pkg₁, pre₁, he, hr, -⟩ := hd
  have hsrc : (Task.setJsonorbin flag (Task.setSrcDevid (some (strncpy id)) t)).ptr .srcDevid =
      .live t.packet (.bytes (strncpy id)) := by
    simp [Task.setJsonorbin, Task.setSrcDevid, Task.setOption, Task.setObj, Task.setPtr]
  obtain ⟨pkg₂, t₂, evs, he₂, hp₂, hsrc₂, htr₂, hevs, hcount⟩ :=
    handleSavedataBody_clean env hr hf hsrc (terminated_strncpy id)
  have hlive : t₂.ptr .srcDevid = .live t.packet (.bytes (strncpy id)) := by
    rw [hsrc₂]
    exact hsrc
  have hpkt : t₂.packet = t.packet := hp₂
  refine ⟨.ok (), pkg₂, t₂.release .free .srcDevid, _, ?_, ?_, ?_,
    savedata_sound (.bytes (strncpy id)) hevs hcount⟩
  · rw [handleSavedata, Proc.bind_ok (Proc.succeeds_ok he), if_pos rfl, Proc.get_bind_apply]
    exact (Proc.bind_ok he₂).trans rfl
  · simp [Task.release, hlive, Task.record, Task.setPtr, hpkt]
  · simp only [Task.release, hlive, Task.record, Task.setPtr, hpkt, htr₂]
    simp [Task.setJsonorbin, Task.setSrcDevid, Task.setOption, Task.setObj, Event.onLive]

/-! ### Every type -/

/-- A handler that comes back without touching a pointer. -/
theorem clean_of_quiet {p : Proc (Buffer × Task J) Unit} {t t' : Task J} {pkg' : Buffer}
    {r : Except Int Unit} (he : p (pkg, t) = .ok (r, (pkg', t'))) (hp : t'.packet = t.packet)
    (ht : t'.trace = t.trace) : Clean p pkg t :=
  ⟨r, pkg', t', [], he, hp, by rw [ht, List.append_nil], packetSound_nil _⟩

theorem handleConnResp_clean (h : Opened pkg body) (hb : body.length ≤ 2) (t : Task J) :
    Clean handleConnResp pkg t := by
  obtain ⟨⟨r, pkg₁, t₁⟩, he⟩ := (connectResp_returns_iff h t).mpr hb
  have ht₁ : t₁ = t := by
    rcases Nat.lt_or_eq_of_le hb with hlt | heq
    · obtain ⟨c, pkg₂, hc⟩ := unpackConnectResp_code h hlt t
      rw [he] at hc
      cases hc
      rfl
    · match body, h, heq with
      | [flag, rtn], h, _ =>
        obtain ⟨pkg₂, pre₂, hd, -⟩ := unpackConnectResp_done h t
        rw [he] at hd
        cases hd
        rfl
  subst ht₁
  cases r with
  | ok rtn =>
    exact clean_of_quiet (Proc.bind_ok (Proc.void_ok (Proc.bind_ok he))) rfl rfl
  | error c =>
    exact clean_of_quiet (Proc.bind_ok (Proc.void_ok (Proc.bind_error he))) rfl rfl

theorem handleSavedata_quiet {c : Int} {t t' : Task J} (h : Code callSavedata pkg t c t')
    (hp : t'.packet = t.packet) (ht : t'.trace = t.trace) : Clean (handleSavedata env) pkg t := by
  obtain ⟨pkg₁, he⟩ := h
  exact clean_of_quiet (Proc.bind_ok (Proc.succeeds_error he)) hp ht

theorem savedataDecoded_clean (h : Opened pkg body) (hd : SavedataDecoded env.cJSON_Parse body)
    (t : Task J) : Clean (handleSavedata env) pkg t := by
  cases body with
  | nil => exact handleSavedata_quiet env (unpackSavedata_code_empty h t) rfl rfl
  | cons taFlag tl =>
    rw [SavedataDecoded] at hd
    cases ht : takeSrc taFlag tl with
    | none => exact handleSavedata_quiet env (unpackSavedata_code_devid h ht t) rfl rfl
    | some p =>
      rw [ht] at hd
      obtain ⟨id, flags⟩ := p
      cases flags with
      | nil =>
        cases (show id = none from hd)
        exact handleSavedata_quiet env (unpackSavedata_code_flag h ht t) rfl rfl
      | cons flag rest =>
        cases id with
        | none => exact absurd rfl hd.1
        | some id => exact handleSavedata_clean env h ht hd.2 t

theorem cmdReqDecoded_clean (h : Opened pkg body) (hd : CmdReqDecoded body) (t : Task J) :
    Clean (handleCmdReq env) pkg t := by
  rcases hd with ht | ⟨id, r, req, ht, hreq⟩
  · have hcode : ∃ c t', Code callCmdReq pkg t c t' ∧ (t' = t ∨ ∃ m, t' = Task.setCmdidLen m t) :=
      unpackCmdReq_code_id h ht t
    obtain ⟨c, t', ⟨pkg₁, he⟩, ht'⟩ := hcode
    rcases ht' with rfl | ⟨m, rfl⟩
    · exact clean_of_quiet (Proc.bind_ok (Proc.succeeds_error he)) rfl rfl
    · exact clean_of_quiet (Proc.bind_ok (Proc.succeeds_error he)) rfl rfl
  · exact handleCmdReq_clean env h ht hreq t

theorem handleType_clean {mtype : UInt8} {L : Nat} (h : Opened pkg body)
    (hh : Handled env.cJSON_Parse L mtype body) (hd : UsesDecoded env.cJSON_Parse mtype body)
    (t : Task J) : Clean (handleType env mtype) pkg t := by
  unfold handleType
  by_cases h1 : mtype = CONNRESP
  · rw [Handled, if_pos h1] at hh
    rw [if_pos h1]
    exact handleConnResp_clean h hh t
  rw [Handled, if_neg h1] at hh
  rw [if_neg h1]
  by_cases h2 : mtype = PINGRESP
  · rw [if_pos h2] at hh ⊢
    subst hh
    obtain ⟨pkg₁, pre₁, he, -⟩ := unpackPingResp_done h t
    exact clean_of_quiet (Proc.void_ok he) rfl rfl
  rw [if_neg h2]
  unfold UsesDecoded at hd
  by_cases h3 : mtype = PUSHDATA
  · rw [if_pos h3] at hd ⊢
    obtain ⟨s, rest, ht, hs, hr⟩ := hd
    exact handlePushdata_clean h ht hs hr t
  rw [if_neg h3] at hd ⊢
  by_cases h4 : mtype = SAVEDATA
  · rw [if_pos h4] at hd ⊢
    exact savedataDecoded_clean env h hd t
  rw [if_neg h4] at hd ⊢
  by_cases h5 : mtype = SAVEACK
  · rw [if_pos h5] at hd ⊢
    obtain ⟨ack, rest, ht, hack⟩ := hd
    exact handleSaveAck_clean h ht hack t
  rw [if_neg h5] at hd ⊢
  by_cases h6 : mtype = CMDREQ
  · rw [if_pos h6] at hd ⊢
    exact cmdReqDecoded_clean env h hd t
  rw [if_neg h6]
  exact clean_of_quiet rfl rfl rfl

end Handlers

/-! ### Runs -/

/-- The condition on the bytes of a packet: unless the handling never comes back,
every pointer it uses is one the decoders have assigned. -/
def PointerSafe (cJSON_Parse : List UInt8 → Option J) (bs : List UInt8) : Prop :=
  ∀ mtype body, IsFrame bs mtype body → Handled cJSON_Parse bs.length mtype body →
    UsesDecoded cJSON_Parse mtype body

section Runs

variable (env : Env J)

/-- One packet: either the run ends here without a use, or it goes on from a sound
trace. -/
theorem handlePacket_sound {pkg : Buffer} {bs : List UInt8} (hp : Filled pkg bs)
    (hs : bs.length < 2 ^ 31) {mtype : UInt8} {body : List UInt8} (hf : IsFrame bs mtype body)
    (hsafe : PointerSafe env.cJSON_Parse bs) {t : Task J} (ht : TraceSound t.packet t.trace) :
    match handlePacket env (pkg, t.dispatch pkg) with
    | .ok (_, (_, t')) => TraceSound t'.packet t'.trace
    | _ => True := by
  by_cases hh : Handled env.cJSON_Parse bs.length mtype body
  · obtain ⟨pkg₁, he, ho, -⟩ := edpPacketType_opens hp hs hf
    obtain ⟨r, pkg₂, t₂, evs, he₂, hp₂, ht₂, hevs⟩ :=
      handleType_clean env ho hh (hsafe mtype body hf hh) (t.dispatch pkg)
    rw [handlePacket, Proc.bind_ok (Proc.onFst_ok he), he₂]
    show TraceSound t₂.packet t₂.trace
    rw [hp₂, ht₂]
    exact ht.append hevs
  · have hret := mt (filled_returns_iff env hp hs hf (t.dispatch pkg)).mp
      (by rw [hp.writePos]; exact hh)
    cases he : handlePacket env (pkg, t.dispatch pkg) with
    | ok r => exact absurd ⟨r, he⟩ hret
    | assertFail => trivial
    | fault => trivial

theorem recvLoop_sound : ∀ (k : Nat) {buf : Buffer} {bs : List UInt8} {t : Task J},
    Received buf bs → bs.length < 2 ^ 16 →
      (∀ f ∈ frames bs, PointerSafe env.cJSON_Parse f) → TraceSound t.packet t.trace →
      TraceSound (recvLoop env k buf t).task.packet (recvLoop env k buf t).task.trace := by
  intro k
  induction k with
  | zero => intro buf bs t _ _ _ ht; exact ht
  | succ k ih =>
    intro buf bs t h h16 hsafe ht
    by_cases hn : 0 < frameLen bs
    · obtain ⟨pkg, buf', hp, hr, he⟩ := recvLoop_packet env h hn h16 k t
      obtain ⟨mtype, body, hf⟩ := isFrame_take hn
      have hlen := length_take_frameLen bs
      have hle := frameLen_le bs
      rw [frames_of_pos hn] at hsafe
      have hstep := handlePacket_sound env hp (by omega) hf (hsafe _ (List.mem_cons_self ..)) ht
      have hdispatch : TraceSound (t.dispatch pkg).packet (t.dispatch pkg).trace := by
        refine ⟨fun e he => ?_, ht.sound, ht.freed⟩
        exact le_trans (ht.packet e he) (Nat.le_succ _)
      rw [he]
      cases ho : handlePacket env (pkg, t.dispatch pkg) with
      | ok r =>
        obtain ⟨r, pkg', t'⟩ := r
        rw [ho] at hstep
        have hlt := length_drop_frameLen hn
        exact ih hr (by omega) (fun f hf => hsafe f (List.mem_cons_of_mem _ hf)) hstep
      | assertFail => exact hdispatch
      | fault => exact hdispatch
    · rw [recvLoop_end env h (not_lt.mp hn)]
      exact ht

theorem receive_sound_from : ∀ (chunks : List (List UInt8)) {t : Task J},
    (∀ c ∈ chunks, c.length ≤ cloudRecvBufferSize) →
      (∀ c ∈ chunks, ∀ f ∈ frames c, PointerSafe env.cJSON_Parse f) →
      TraceSound t.packet t.trace →
      TraceSound (receive env chunks t).task.packet (receive env chunks t).task.trace := by
  intro chunks
  induction chunks with
  | nil => intro t _ _ ht; exact ht
  | cons c chunks ih =>
    intro t hlen hsafe ht
    have hc : c.length ≤ 2500 := hlen c (List.mem_cons_self ..)
    have hrun := recvLoop_sound env (c.length + 1) (t := t.enter)
      (received_recvBuffer c (by omega)) (by omega)
      (hsafe c (List.mem_cons_self ..)) ht
    rw [receive, recvDataProcess]
    cases hr : recvLoop env (c.length + 1) (recvBuffer c) t.enter with
    | mk t' ended =>
      rw [hr] at hrun
      cases ended with
      | needMore =>
        dsimp only
        split
        · exact hrun
        · exact ih (fun c' hc' => hlen c' (List.mem_cons_of_mem _ hc'))
            (fun c' hc' => hsafe c' (List.mem_cons_of_mem _ hc')) hrun
      | assertFail => exact hrun
      | fault => exact hrun

/-- **Packets that decode completely are handled soundly.**  In every run of the
receive loop, over any chunks of at most `CLOUD_RECV_BUFFER_SIZE` bytes, whose
packets all meet `PointerSafe`: every pointer that is printed, freed or handed to
the JSON library holds a live object of the packet being handled, printed objects
are terminated, and every object is released exactly once. -/
theorem receive_sound (chunks : List (List UInt8))
    (hlen : ∀ c ∈ chunks, c.length ≤ cloudRecvBufferSize)
    (hsafe : ∀ c ∈ chunks, ∀ f ∈ frames c, PointerSafe env.cJSON_Parse f) (g : Globals) :
    TraceSound (receive env chunks (.start g)).task.packet
      (receive env chunks (.start g)).task.trace :=
  receive_sound_from env chunks hlen hsafe (traceSound_nil 0)

end Runs

/-- Data pushed from the device "a", the text "b" with its terminator. -/
def pushedText : List UInt8 := frame PUSHDATA [0, 1, 0x61, 0x62, 0]

theorem receive_sound_pushedText :
    (∀ c ∈ [pushedText], c.length ≤ cloudRecvBufferSize) ∧
      TraceSound (receive quietEnv [pushedText] (.start connected)).task.packet
        (receive quietEnv [pushedText] (.start connected)).task.trace := by
  have hlen : ∀ c ∈ [pushedText], c.length ≤ cloudRecvBufferSize := by decide
  refine ⟨hlen, receive_sound quietEnv [pushedText] hlen ?_ connected⟩
  intro c hc f hf mtype body hframe _
  rw [List.mem_singleton.mp hc, pushedText, frames_frame (by decide), List.mem_singleton] at hf
  subst hf
  obtain ⟨rfl, rfl⟩ := (isFrame_frame (by decide)).unique hframe
  exact ⟨[0x61], [0x62, 0], by decide, by decide, by decide⟩

/-- An acknowledgement without a body. -/
def emptyAck : List UInt8 := frame SAVEACK []

theorem handlePacket_emptyAck {pkg : Buffer} (hp : Filled pkg emptyAck) (t : Task Unit) :
    ∃ pkg', handlePacket quietEnv (pkg, t) = .ok (.ok (), (pkg',
      ((t.setPtr .jsonAck .null).record .print .jsonAck).release .free .jsonAck)) := by
  obtain ⟨pkg₁, he, ho, -⟩ := edpPacketType_opens hp (by decide) (isFrame_frame (by decide))
  have hc : Code callSavedataAck pkg₁ (t.setPtr .jsonAck .null) _ _ :=
    unpackSavedataAck_code ho rfl _
  obtain ⟨pkg₂, hc⟩ := hc
  refine ⟨pkg₂, ?_⟩
  rw [handlePacket, Proc.bind_ok (Proc.onFst_ok he)]
  exact Proc.bind_ok (Proc.void_ok hc)

/-- **An empty acknowledgement makes the handler print and free NULL.** -/
theorem emptyAck_unsound :
    ¬ TraceSound (receive quietEnv [emptyAck] (.start connected)).task.packet
      (receive quietEnv [emptyAck] (.start connected)).task.trace := by
  have hl : frameLen emptyAck = 2 := by decide
  obtain ⟨pkg, buf', hp, hr, he⟩ := recvLoop_packet quietEnv
    (received_recvBuffer emptyAck (by decide)) (by rw [hl]; decide) (by decide)
    emptyAck.length (Task.enter (.start connected))
  rw [hl] at hp hr
  obtain ⟨pkg', hh⟩ := handlePacket_emptyAck hp ((Task.enter (.start connected)).dispatch pkg)
  rw [hh, afterPacket, recvLoop_end quietEnv hr (by decide)] at he
  rw [receive, recvDataProcess, he]
  intro h
  obtain ⟨obj, hobj, -⟩ := h.sound (.used .print .jsonAck 1 .null) (List.mem_cons_self ..)
  cases hobj

end Nl6621.Cloud
