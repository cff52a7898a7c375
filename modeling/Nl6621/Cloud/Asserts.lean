import Nl6621.Cloud.Handler
import Nl6621.Edp.RoundTrip

/-!
# Which packets stop the device

Six of the decoders end with `assert(pkg->_read_pos == pkg->_write_pos)`.  The
inner lengths of a packet are chosen by the peer independently of its remaining
length, so the assertion fails whenever a decoder is satisfied before the packet
ends.  `Handled` says for every type and body when that does not happen, and
`handlePacket_returns_iff` says that it is exact: the handling of a complete
packet returns if and only if `Handled` holds of it.

Two decoders can do worse.  A block length close to `2 ^ 32` wraps the bound
check of `ReadBytes` around, and the copy leaves the packet; `BlockFits` excludes
that too.
-/

namespace Nl6621.Cloud

open Lib Edp

variable {J : Type}

/-! ### The condition -/

/-- A block behind its `uint32` length ends with the packet, or announces more
than the packet has, by less than would wrap around.  `L` is the length of the
packet. -/
def BlockFits (L : Nat) (bs : List UInt8) : Prop :=
  match takeU32 bs with
  | none => True
  | some (n, rest) => n = rest.length ∨ rest.length < n ∧ L - rest.length + n < 2 ^ 32

def JsonFits (cJSON_Parse : List UInt8 → Option J) (bs : List UInt8) : Prop :=
  match takeStr bs with
  | none => True
  | some (s, rest) => cJSON_Parse (cstr s) = none ∨ rest = []

def BinFits (cJSON_Parse : List UInt8 → Option J) (L : Nat) (bs : List UInt8) : Prop :=
  match takeStr bs with
  | none => True
  | some (s, rest) => cJSON_Parse (cstr s) = none ∨ BlockFits L rest

/-- The data flags that announce a JSON string. -/
def IsJson (flag : UInt8) : Prop :=
  flag = kTypeFullJson ∨ flag = kTypeSimpleJsonWithoutTime ∨ flag = kTypeSimpleJsonWithTime

instance (flag : UInt8) : Decidable (IsJson flag) := inferInstanceAs (Decidable (_ ∨ _))

def SavedataFits (cJSON_Parse : List UInt8 → Option J) (L : Nat) : List UInt8 → Prop
  | [] => True
  | taFlag :: tl =>
    match takeSrc taFlag tl with
    | none => True
    | some (_, []) => True
    | some (_, flag :: rest) =>
      if IsJson flag then JsonFits cJSON_Parse rest
      else if flag = kTypeBin then BinFits cJSON_Parse L rest
      else True

def CmdReqFits (L : Nat) (body : List UInt8) : Prop :=
  match takeStr body with
  | none => True
  | some (_, rest) => BlockFits L rest

/-- The decoder that is called for a packet of type `t`, with the bytes `body` in
a packet of `L` bytes, comes back. -/
def Handled (cJSON_Parse : List UInt8 → Option J) (L : Nat) (t : UInt8) (body : List UInt8) :
    Prop :=
  if t = CONNRESP then body.length ≤ 2
  else if t = PINGRESP then body = []
  else if t = SAVEDATA then SavedataFits cJSON_Parse L body
  else if t = CMDREQ then CmdReqFits L body
  else True

/-! ### Calls that always return -/

/-- The procedure returns from every state. -/
def Total {σ α : Type} (p : Proc σ α) : Prop := ∀ s, (p s).Returns

theorem total_assign {ω : Type} (f : ω → ω) : Total (assign f) := fun _ => ⟨_, rfl⟩

theorem total_print (v : Var) : Total (print v : Proc (Buffer × Task J) Unit) := total_assign _

theorem total_free (v : Var) : Total (free v : Proc (Buffer × Task J) Unit) := total_assign _

theorem total_pure {σ α : Type} (a : α) : Total (pure a : Proc σ α) := fun _ => ⟨_, rfl⟩

theorem Total.bind {σ α β : Type} {p : Proc σ α} {f : α → Proc σ β} (hp : Total p)
    (hf : ∀ a, Total (f a)) : Total (p >>= f) := by
  intro s
  obtain ⟨⟨r, s'⟩, he⟩ := hp s
  cases r with
  | ok a => rw [Proc.bind_ok he]; exact hf a s'
  | error c => rw [Proc.bind_error he]; exact ⟨_, rfl⟩

/-- A call whose code is ignored, in front of calls that always return. -/
theorem void_bind_returns_iff {σ β : Type} {p : Proc σ Unit} {f : Unit → Proc σ β}
    (hf : ∀ a, Total (f a)) (s : σ) : ((p.void >>= f) s).Returns ↔ (p s).Returns := by
  cases he : p s with
  | ok r =>
    obtain ⟨r, s'⟩ := r
    rw [Proc.bind_ok (Proc.void_ok he)]
    simp only [Outcome.returns_ok, iff_true]
    exact hf () s'
  | assertFail => rw [Proc.bind_assertFail (Proc.void_assertFail he)]; simp
  | fault => rw [Proc.bind_fault (Proc.void_fault he)]; simp

/-- A call in front of calls that always return. -/
theorem bind_total_returns_iff {σ α β : Type} {p : Proc σ α} {f : α → Proc σ β}
    (hf : ∀ a, Total (f a)) (s : σ) : ((p >>= f) s).Returns ↔ (p s).Returns := by
  cases he : p s with
  | ok r =>
    obtain ⟨r, s'⟩ := r
    cases r with
    | ok a => rw [Proc.bind_ok he]; exact iff_of_true (hf a s') (by simp)
    | error c => rw [Proc.bind_error he]; simp
  | assertFail => rw [Proc.bind_assertFail he]; simp
  | fault => rw [Proc.bind_fault he]; simp

/-! ### The decoders -/

section Decoders

variable {ω : Type} {pkg : Buffer} {body pre bs : List UInt8}

theorem connectResp_returns_iff (h : Opened pkg body) (w : ω) :
    ((unpackConnectResp : Proc (Buffer × ω) UInt8) (pkg, w)).Returns ↔ body.length ≤ 2 := by
  rcases lt_trichotomy body.length 2 with hlt | heq | hgt
  · obtain ⟨c, hc⟩ := unpackConnectResp_code h hlt w
    exact iff_of_true hc.returns hlt.le
  · match body, h, heq with
    | [flag, rtn], h, _ => exact iff_of_true (unpackConnectResp_done h w).returns le_rfl
  · rw [unpackConnectResp_fails h hgt w]
    exact iff_of_false (by simp) (by omega)

theorem pingResp_returns_iff (h : Opened pkg body) (w : ω) :
    ((unpackPingResp : Proc (Buffer × ω) Unit) (pkg, w)).Returns ↔ body = [] := by
  by_cases hb : body = []
  · subst hb
    exact iff_of_true (unpackPingResp_done h w).returns rfl
  · rw [unpackPingResp_fails h hb w]
    exact iff_of_false (by simp) hb

theorem pushdata_returns (h : Opened pkg body) (hb : body.length < 2 ^ 31)
    (srcDevid pushData : List UInt8 → ω → ω) (dataLen : Nat → ω → ω) (w : ω) :
    (unpackPushdata srcDevid pushData dataLen (pkg, w)).Returns := by
  cases ht : takeStr body with
  | none => exact (unpackPushdata_code_devid h ht w).returns
  | some p =>
    obtain ⟨s, rest⟩ := p
    by_cases hs : (0 : UInt8) ∈ s
    · exact (unpackPushdata_code_data h ht hb hs w).returns
    · exact (unpackPushdata_done h ht (by omega) hs w).returns

theorem savedataAck_returns (h : Opened pkg body) (jsonAck : List UInt8 → ω → ω) (w : ω) :
    (unpackSavedataAck jsonAck (pkg, w)).Returns := by
  cases ht : takeAck body with
  | none => exact (unpackSavedataAck_code h ht w).returns
  | some p => exact (unpackSavedataAck_done h ht w).returns

theorem simpleString_returns (h : Reading pkg pre bs) (output : List UInt8 → ω → ω) (w : ω) :
    (unpackSavedataSimpleString output (pkg, w)).Returns := by
  cases ht : takeStr bs with
  | none => exact (unpackSavedataSimpleString_code h ht w).returns
  | some p => exact (unpackSavedataSimpleString_done h ht w).returns

theorem savedataJson_returns_iff (cJSON_Parse : List UInt8 → Option J) (h : Reading pkg pre bs)
    (obj : Option J → ω → ω) (w : ω) :
    (unpackSavedataJson cJSON_Parse obj (pkg, w)).Returns ↔ JsonFits cJSON_Parse bs := by
  unfold JsonFits
  cases ht : takeStr bs with
  | none => exact iff_of_true (unpackSavedataJson_code_str h ht w).returns trivial
  | some p =>
    obtain ⟨s, rest⟩ := p
    cases hj : cJSON_Parse (cstr s) with
    | none => exact iff_of_true (unpackSavedataJson_code_parse h ht hj w).returns (.inl hj)
    | some j =>
      simp only [hj, reduceCtorEq, false_or]
      by_cases hr : rest = []
      · subst hr
        exact iff_of_true (unpackSavedataJson_done h ht hj w).returns rfl
      · rw [unpackSavedataJson_fails h ht hj hr w]
        exact iff_of_false (by simp) hr

theorem lastBlock_returns_iff {n : Nat} (h : Reading pkg pre bs) (hn : n < 2 ^ 32) (c : Int)
    (val : List UInt8 → ω → ω) (w : ω) :
    (lastBlock n c val (pkg, w)).Returns ↔
      n = bs.length ∨ bs.length < n ∧ pkg.writePos - bs.length + n < 2 ^ 32 := by
  rcases lt_trichotomy n bs.length with hlt | heq | hgt
  · rw [lastBlock_fails h hlt c w]
    exact iff_of_false (by simp) (by omega)
  · exact iff_of_true (lastBlock_done h heq c w).returns (.inl heq)
  · by_cases hwrap : pkg.writePos - bs.length + n < 2 ^ 32
    · exact iff_of_true (lastBlock_code h hgt hwrap c w).returns (.inr ⟨hgt, hwrap⟩)
    · rw [lastBlock_fault h hn (not_lt.mp hwrap) c w]
      exact iff_of_false (by simp) (by omega)

theorem binData_returns_iff (h : Reading pkg pre bs) (binData : List UInt8 → ω → ω)
    (binLen : Nat → ω → ω) (w : ω) :
    (unpackBinData binData binLen (pkg, w)).Returns ↔ BlockFits pkg.writePos bs := by
  unfold BlockFits
  cases ht : takeU32 bs with
  | none => exact iff_of_true (unpackBinData_code_len h ht w).returns trivial
  | some p =>
    obtain ⟨n, rest⟩ := p
    have hstep : Becomes (unpackBinData binData binLen) pkg w _ _ rest := unpackBinData_step h ht w
    obtain ⟨pkg₁, pre₁, he, hr, hw⟩ := hstep
    rw [he, lastBlock_returns_iff hr (takeU32_lt ht).1, hw]

theorem savedataBin_returns_iff (cJSON_Parse : List UInt8 → Option J) (h : Reading pkg pre bs)
    (obj : Option J → ω → ω) (binData : List UInt8 → ω → ω) (binLen : Nat → ω → ω) (w : ω) :
    (unpackSavedataBin cJSON_Parse obj binData binLen (pkg, w)).Returns ↔
      BinFits cJSON_Parse pkg.writePos bs := by
  unfold BinFits
  cases ht : takeStr bs with
  | none => exact iff_of_true (unpackSavedataBin_code_desc h ht w).returns trivial
  | some p =>
    obtain ⟨s, rest⟩ := p
    cases hj : cJSON_Parse (cstr s) with
    | none => exact iff_of_true (unpackSavedataBin_code_parse h ht hj w).returns (.inl hj)
    | some j =>
      have hstep : Becomes (unpackSavedataBin cJSON_Parse obj binData binLen) pkg w _ _ rest :=
        unpackSavedataBin_step h ht hj w
      obtain ⟨pkg₁, pre₁, he, hr, hw⟩ := hstep
      rw [he, binData_returns_iff hr, hw]
      simp only [hj, reduceCtorEq, false_or]

end Decoders

/-! ### The handlers -/

section Handlers

variable (env : Env J) {pkg : Buffer} {body pre bs : List UInt8}

theorem handleConnResp_returns_iff (h : Opened pkg body) (t : Task J) :
    (handleConnResp (pkg, t)).Returns ↔ body.length ≤ 2 := by
  rw [handleConnResp, void_bind_returns_iff fun _ => total_assign _,
    bind_total_returns_iff fun _ => total_pure _]
  exact connectResp_returns_iff h t

theorem handlePingResp_returns_iff (h : Opened pkg body) (t : Task J) :
    (handlePingResp (pkg, t)).Returns ↔ body = [] := by
  rw [← pingResp_returns_iff h t]
  have := void_bind_returns_iff (p := (unpackPingResp : Proc (Buffer × Task J) Unit))
    (f := pure) total_pure (pkg, t)
  rwa [bind_pure] at this

theorem handlePushdata_returns (h : Opened pkg body) (t : Task J) :
    (handlePushdata (pkg, t)).Returns := by
  rw [handlePushdata, void_bind_returns_iff]
  · exact pushdata_returns h (lt_trans h.length_lt (by decide)) _ _ _ t
  · exact fun _ => (total_print _).bind fun _ => (total_print _).bind fun _ =>
      (total_free _).bind fun _ => total_free _

theorem handleSaveAck_returns (h : Opened pkg body) (t : Task J) :
    (handleSaveAck (pkg, t)).Returns := by
  rw [handleSaveAck, Proc.bind_ok (p := assign (Task.setPtr .jsonAck .null)) (s := (pkg, t)) rfl,
    void_bind_returns_iff]
  · exact savedataAck_returns h _ _
  · exact fun _ => (total_print _).bind fun _ => total_free _

theorem handleSavedataJson_returns_iff (h : Reading pkg pre bs) (t : Task J) :
    (handleSavedataJson env (pkg, t)).Returns ↔ JsonFits env.cJSON_Parse bs := by
  rw [handleSavedataJson, void_bind_returns_iff]
  · exact savedataJson_returns_iff _ h _ t
  · exact fun _ => (total_assign _).bind fun _ => (total_print _).bind fun _ =>
      (total_print _).bind fun _ => (total_free _).bind fun _ => total_assign _

theorem handleSavedataBin_returns_iff (h : Reading pkg pre bs) (t : Task J) :
    (handleSavedataBin env (pkg, t)).Returns ↔ BinFits env.cJSON_Parse pkg.writePos bs := by
  rw [handleSavedataBin, void_bind_returns_iff]
  · exact savedataBin_returns_iff _ h _ _ _ t
  · exact fun _ => (total_assign _).bind fun _ => (total_print _).bind fun _ =>
      (total_print _).bind fun _ => (total_print _).bind fun _ => (total_free _).bind fun _ =>
        (total_assign _).bind fun _ => total_free _

theorem handleSavedataString_returns (h : Reading pkg pre bs) (t : Task J) :
    (handleSavedataString (pkg, t)).Returns := by
  rw [handleSavedataString, void_bind_returns_iff]
  · exact simpleString_returns h _ t
  · exact fun _ => (total_print _).bind fun _ => total_free _

theorem handleSavedataBody_returns_iff (h : Reading pkg pre bs) (flag : UInt8) (t : Task J) :
    (handleSavedataBody env flag (pkg, t)).Returns ↔
      if IsJson flag then JsonFits env.cJSON_Parse bs
      else if flag = kTypeBin then BinFits env.cJSON_Parse pkg.writePos bs
      else True := by
  unfold handleSavedataBody
  change ((if IsJson flag then _ else _ : Proc (Buffer × Task J) Unit) (pkg, t)).Returns ↔ _
  by_cases hj : IsJson flag
  · rw [if_pos hj, if_pos hj]
    exact handleSavedataJson_returns_iff env h t
  · rw [if_neg hj, if_neg hj]
    by_cases hb : flag = kTypeBin
    · rw [if_pos hb, if_pos hb]
      exact handleSavedataBin_returns_iff env h t
    · rw [if_neg hb, if_neg hb]
      by_cases hs : flag = kTypeString
      · rw [if_pos hs]
        exact iff_of_true (handleSavedataString_returns h t) trivial
      · rw [if_neg hs]
        exact iff_of_true ⟨_, rfl⟩ trivial

theorem handleSavedata_error {c : Int} {t t' : Task J} (h : Code callSavedata pkg t c t') :
    (handleSavedata env (pkg, t)).Returns := by
  obtain ⟨pkg₁, he⟩ := h
  rw [handleSavedata, Proc.bind_ok (Proc.succeeds_error he)]
  exact total_pure _ _

theorem handleSavedata_returns_iff (h : Opened pkg body) (t : Task J) :
    (handleSavedata env (pkg, t)).Returns ↔ SavedataFits env.cJSON_Parse pkg.writePos body := by
  cases body with
  | nil => exact iff_of_true (handleSavedata_error env (unpackSavedata_code_empty h t)) trivial
  | cons taFlag tl =>
    rw [SavedataFits]
    cases ht : takeSrc taFlag tl with
    | none =>
      exact iff_of_true (handleSavedata_error env (unpackSavedata_code_devid h ht t)) trivial
    | some p =>
      obtain ⟨id, flags⟩ := p
      cases flags with
      | nil => exact iff_of_true (handleSavedata_error env (unpackSavedata_code_flag h ht t)) trivial
      | cons flag rest =>
        have hd : Done callSavedata pkg t () _ rest := unpackSavedata_done h ht t
        obtain ⟨pkg₁, pre₁, he, hr, hw⟩ := hd
        rw [handleSavedata, Proc.bind_ok (Proc.succeeds_ok he), if_pos rfl, Proc.get_bind_apply,
          bind_total_returns_iff fun _ => total_free _, ← hw]
        exact handleSavedataBody_returns_iff env hr flag _

/-- The command is answered and both objects are freed. -/
theorem handleCmdReq_answer {t t' : Task J} {id : List UInt8} (hid : id.length < 2 ^ 16)
    {n : Nat} (hptr : t'.ptr .cmdid = .live n (.bytes id))
    (h : Done callCmdReq pkg t () t' []) :
    ∃ pkg' resp, handleCmdReq env (pkg, t) = .ok (.ok (), (pkg',
      ((t'.send env.sendFails resp).release .free .cmdid).release .free .cmdReq)) := by
  obtain ⟨pkg₁, pre₁, he, -⟩ := h
  have hlen : id.length + cmdResp.length + 6 < 2 ^ 28 := by
    simp only [cmdResp, List.length_cons, List.length_nil]; omega
  obtain ⟨resp, hresp, -⟩ := packetCmdResp_filled (by decide) hlen
  have hbytes : cmdidBytes t' = .ok id := by rw [cmdidBytes, hptr]
  refine ⟨pkg₁, resp, ?_⟩
  rw [handleCmdReq, Proc.bind_ok (Proc.succeeds_ok he), if_pos rfl, Proc.get_bind_apply, hbytes,
    Proc.bind_ok (Proc.lift_ok id _), hresp, Proc.bind_ok (Proc.lift_ok resp _)]
  rfl

theorem handleCmdReq_error {c : Int} {t t' : Task J} (h : Code callCmdReq pkg t c t') :
    (handleCmdReq env (pkg, t)).Returns := by
  obtain ⟨pkg₁, he⟩ := h
  rw [handleCmdReq, Proc.bind_ok (Proc.succeeds_error he)]
  exact total_pure _ _

theorem handleCmdReq_returns_iff (h : Opened pkg body) (t : Task J) :
    (handleCmdReq env (pkg, t)).Returns ↔ CmdReqFits pkg.writePos body := by
  unfold CmdReqFits
  cases ht : takeStr body with
  | none =>
    obtain ⟨c, t', hc, -⟩ := unpackCmdReq_code_id h ht t
    exact iff_of_true (handleCmdReq_error env hc) trivial
  | some p =>
    obtain ⟨id, bs⟩ := p
    have hid : id.length < 2 ^ 16 := by
      obtain ⟨r, h16, -⟩ := takeStr_some ht
      exact (takeU16_lt h16).1
    have hstep : Becomes callCmdReq pkg t _ _ bs := unpackCmdReq_step h ht t
    show _ ↔ BlockFits pkg.writePos bs
    unfold BlockFits
    cases h32 : takeU32 bs with
    | none =>
      have hc := hstep.andCode fun pkg₁ pre₁ h₁ _ => requestBlock_code_len h₁ h32 _
      exact iff_of_true (handleCmdReq_error env hc) trivial
    | some p =>
      obtain ⟨n, rest⟩ := p
      have hn := (takeU32_lt h32).1
      rcases lt_trichotomy n rest.length with hlt | heq | hgt
      · have hc := hstep.andEq fun pkg₁ pre₁ h₁ _ =>
          (requestBlock_step h₁ h32 _).andEq fun pkg₂ pre₂ h₂ _ => lastBlock_fails h₂ hlt _ _
        rw [handleCmdReq, Proc.bind_assertFail (Proc.succeeds_assertFail hc)]
        exact iff_of_false (by simp) (by omega)
      · have hc := hstep.andThen fun pkg₁ pre₁ h₁ _ =>
          (requestBlock_step h₁ h32 _).andThen fun pkg₂ pre₂ h₂ _ => lastBlock_done h₂ heq _ _
        obtain ⟨pkg₁, resp, he⟩ := handleCmdReq_answer env hid rfl hc
        exact iff_of_true ⟨_, he⟩ (.inl heq)
      · by_cases hwrap : pkg.writePos - rest.length + n < 2 ^ 32
        · have hc := hstep.andCode fun pkg₁ pre₁ h₁ hw₁ =>
            (requestBlock_step h₁ h32 _).andCode fun pkg₂ pre₂ h₂ hw₂ =>
              lastBlock_code h₂ hgt (by rw [hw₂, hw₁]; exact hwrap) _ _
          exact iff_of_true (handleCmdReq_error env hc) (.inr ⟨hgt, hwrap⟩)
        · have hc := hstep.andEq fun pkg₁ pre₁ h₁ hw₁ =>
            (requestBlock_step h₁ h32 _).andEq fun pkg₂ pre₂ h₂ hw₂ =>
              lastBlock_fault h₂ hn (by rw [hw₂, hw₁]; exact not_lt.mp hwrap) _ _
          rw [handleCmdReq, Proc.bind_fault (Proc.succeeds_fault hc)]
          exact iff_of_false (by simp) (by omega)

theorem handleType_returns_iff {mtype : UInt8} (h : Opened pkg body) (t : Task J) :
    (handleType env mtype (pkg, t)).Returns ↔
      Handled env.cJSON_Parse pkg.writePos mtype body := by
  unfold handleType Handled
  by_cases h1 : mtype = CONNRESP
  · rw [if_pos h1, if_pos h1]; exact handleConnResp_returns_iff h t
  rw [if_neg h1, if_neg h1]
  by_cases h2 : mtype = PINGRESP
  · rw [if_pos h2, if_pos h2]; exact handlePingResp_returns_iff h t
  rw [if_neg h2, if_neg h2]
  by_cases h3 : mtype = PUSHDATA
  · subst h3
    rw [if_pos rfl, if_neg (by decide), if_neg (by decide)]
    exact iff_of_true (handlePushdata_returns h t) trivial
  rw [if_neg h3]
  by_cases h4 : mtype = SAVEDATA
  · rw [if_pos h4, if_pos h4]; exact handleSavedata_returns_iff env h t
  rw [if_neg h4, if_neg h4]
  by_cases h5 : mtype = SAVEACK
  · subst h5
    rw [if_pos rfl, if_neg (by decide)]
    exact iff_of_true (handleSaveAck_returns h t) trivial
  rw [if_neg h5]
  by_cases h6 : mtype = CMDREQ
  · rw [if_pos h6, if_pos h6]; exact handleCmdReq_returns_iff env h t
  rw [if_neg h6, if_neg h6]
  exact iff_of_true (total_pure _ _) trivial

theorem filled_returns_iff {mtype : UInt8} (hp : Filled pkg bs) (hs : bs.length < 2 ^ 31)
    (hf : IsFrame bs mtype body) (t : Task J) :
    (handlePacket env (pkg, t)).Returns ↔ Handled env.cJSON_Parse pkg.writePos mtype body := by
  obtain ⟨pkg₁, he, ho, hw⟩ := edpPacketType_opens hp hs hf
  rw [handlePacket, Proc.bind_ok (Proc.onFst_ok he), ← hw]
  exact handleType_returns_iff env ho t

/-- **Which packets the device survives.**  Every packet that `GetEdpPacket` cuts
off a receive buffer is a frame with some type and body, and handling it returns,
with no assertion failed and no access outside the packet, if and only if the
type and the body meet `Handled`. -/
theorem handlePacket_returns_iff {recvbuf recvbuf' : Buffer} (hr : Received recvbuf bs)
    (hg : getEdpPacket recvbuf = .ok (some pkg, recvbuf')) :
    ∃ mtype body, IsFrame (bs.take pkg.writePos) mtype body ∧
      ∀ t : Task J, (handlePacket env (pkg, t)).Returns ↔
        Handled env.cJSON_Parse pkg.writePos mtype body := by
  have hn : 0 < frameLen bs := by
    by_contra hle
    rw [getEdpPacket_none hr (not_lt.mp hle)] at hg
    simp at hg
  obtain ⟨pkg₁, buf₁, hg₁, hp, -⟩ := getEdpPacket_some hr hn
  rw [hg₁] at hg
  cases hg
  have hle := frameLen_le bs
  have hlen : (bs.take (frameLen bs).toNat).length = (frameLen bs).toNat := by
    rw [List.length_take]; omega
  have hw : pkg.writePos = (frameLen bs).toNat := by rw [hp.writePos, hlen]
  obtain ⟨mtype, body, hf⟩ := isFrame_take hn
  have hsmall := hr.small
  refine ⟨mtype, body, by rw [hw]; exact hf, fun t => ?_⟩
  exact filled_returns_iff env hp (by rw [hlen]; omega) hf t

end Handlers

theorem received_recvBuffer (chunk : List UInt8) (h : chunk.length < 2 ^ 31) :
    Received (recvBuffer chunk) chunk where
  readPos := rfl
  writePos := rfl
  holds := by rw [recvBuffer, List.map_append]; exact Block.holds_append _ _
  small := h

/-- A JSON library that parses nothing, and a socket that always sends. -/
def quietEnv : Env Unit where
  cJSON_Parse _ := none
  cJSON_Print _ := ⟨[], by simp⟩
  sendFails _ := false

/-- The globals when a connection has been set up. -/
def connected : Globals := ⟨0, .SOCK_DONE, 1⟩

/-- A connect response with a body of three bytes. -/
def longConnResp : List UInt8 := frame CONNRESP [0, 0, 0]

theorem isFrame_longConnResp : IsFrame longConnResp CONNRESP [0, 0, 0] :=
  isFrame_frame (by decide)

theorem getEdpPacket_longConnResp :
    ∃ pkg recvbuf', getEdpPacket (recvBuffer longConnResp) = .ok (some pkg, recvbuf') ∧
      Filled pkg longConnResp := by
  have hl : frameLen longConnResp = 5 := by decide
  obtain ⟨pkg, recvbuf', hg, hp, -⟩ := getEdpPacket_some
    (received_recvBuffer longConnResp (by decide)) (by rw [hl]; decide)
  refine ⟨pkg, recvbuf', hg, ?_⟩
  rw [hl] at hp
  exact hp

theorem handlePacket_returns_iff_longConnResp :
    ∃ pkg recvbuf', Received (recvBuffer longConnResp) longConnResp ∧
      getEdpPacket (recvBuffer longConnResp) = .ok (some pkg, recvbuf') ∧
      ∃ mtype body, IsFrame (longConnResp.take pkg.writePos) mtype body ∧
        ∀ t : Task Unit, (handlePacket quietEnv (pkg, t)).Returns ↔
          Handled quietEnv.cJSON_Parse pkg.writePos mtype body := by
  obtain ⟨pkg, recvbuf', hg, -⟩ := getEdpPacket_longConnResp
  have hr := received_recvBuffer longConnResp (by decide)
  exact ⟨pkg, recvbuf', hr, hg, handlePacket_returns_iff quietEnv hr hg⟩

/-- **A connect response with one byte too many fails the assertion**: the packet
is cut out as complete, and handling it does not come back. -/
theorem longConnResp_assertFail :
    ∃ pkg recvbuf', getEdpPacket (recvBuffer longConnResp) = .ok (some pkg, recvbuf') ∧
      ∀ t : Task Unit, handlePacket quietEnv (pkg, t) = .assertFail := by
  obtain ⟨pkg, recvbuf', hg, hp⟩ := getEdpPacket_longConnResp
  refine ⟨pkg, recvbuf', hg, fun t => ?_⟩
  obtain ⟨pkg₁, he, ho, -⟩ := edpPacketType_opens hp (by decide) isFrame_longConnResp
  have hfail := unpackConnectResp_fails ho (by decide) t
  rw [handlePacket, Proc.bind_ok (Proc.onFst_ok he), handleType, if_pos rfl, handleConnResp]
  exact Proc.bind_assertFail (Proc.void_assertFail (Proc.bind_assertFail hfail))

end Nl6621.Cloud
