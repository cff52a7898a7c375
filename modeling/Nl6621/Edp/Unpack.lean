import Nl6621.Edp.Framing

/-!
# What the decoders make of a complete packet

A packet that `GetEdpPacket` has cut out is a frame: behind the type byte stands
a length field, and exactly that many bytes follow it.  `Opened pkg body` is the
situation a decoder is called in, with the type byte read and the `body` of the
frame still behind its length field.

For every decoder the body decides what happens: which reader is the first to
fail, which out-parameters have been assigned by then, and whether the cursor has
reached the end when the assertion asks.  The lemmas below say so case by
case.  `Done` is a return with a value, `Code` a return with an error code; both
name the variables of the caller as the decoder leaves them.  `Done.andThen`,
`Done.andCode` and `Done.andEq` follow a decoder past a step that succeeds.
-/

namespace Nl6621.Edp

open Lib

variable {ω α β : Type}

/-- The decoder returns `a`, leaves the variables `w'` and the bytes `rest`. -/
def Done (D : Proc (Buffer × ω) α) (pkg : Buffer) (w : ω) (a : α) (w' : ω) (rest : List UInt8) :
    Prop :=
  ∃ pkg' pre, D (pkg, w) = .ok (.ok a, (pkg', w')) ∧ Reading pkg' pre rest ∧
    pkg'.writePos = pkg.writePos

/-- The decoder returns the code `c` and leaves the variables `w'`. -/
def Code (D : Proc (Buffer × ω) α) (pkg : Buffer) (w : ω) (c : Int) (w' : ω) : Prop :=
  ∃ pkg', D (pkg, w) = .ok (.error c, (pkg', w'))

theorem Code.returns {D : Proc (Buffer × ω) α} {pkg : Buffer} {w w' : ω} {c : Int}
    (h : Code D pkg w c w') : (D (pkg, w)).Returns := by
  obtain ⟨pkg', he⟩ := h
  exact ⟨_, he⟩

theorem Done.returns {D : Proc (Buffer × ω) α} {pkg : Buffer} {w w' : ω} {a : α}
    {rest : List UInt8} (h : Done D pkg w a w' rest) : (D (pkg, w)).Returns := by
  obtain ⟨pkg', pre, he, -⟩ := h
  exact ⟨_, he⟩

/-! ### Steps of a decoder -/

theorem Takes.run {p : Proc Buffer α} {pkg : Buffer} {a : α} {rest : List UInt8}
    (h : Takes p pkg a rest) (w : ω) : Done p.onFst pkg w a w rest := by
  obtain ⟨pkg', pre, he, hr, hw⟩ := h
  exact ⟨pkg', pre, Proc.onFst_ok he, hr, hw⟩

theorem Takes.call {p : Proc Buffer α} {pkg : Buffer} {a : α} {rest : List UInt8}
    (h : Takes p pkg a rest) (c : Int) (w : ω) : Done (p.onFst.orReturn c) pkg w a w rest := by
  obtain ⟨pkg', pre, he, hr, hw⟩ := h
  exact ⟨pkg', pre, Proc.orReturn_ok (Proc.onFst_ok he), hr, hw⟩

theorem Refuses.run {p : Proc Buffer α} {pkg : Buffer} {d : Int} (h : Refuses p pkg d) (w : ω) :
    Code p.onFst pkg w d w := by
  obtain ⟨pkg', he⟩ := h
  exact ⟨pkg', Proc.onFst_ok he⟩

theorem Refuses.call {p : Proc Buffer α} {pkg : Buffer} {d : Int} (h : Refuses p pkg d) (c : Int)
    (w : ω) : Code (p.onFst.orReturn c) pkg w c w := by
  obtain ⟨pkg', he⟩ := h
  exact ⟨pkg', Proc.orReturn_error (Proc.onFst_ok he)⟩

/-- A step that is done hands over to the rest of the body. -/
theorem Done.andEq {D : Proc (Buffer × ω) α} {f : α → Proc (Buffer × ω) β} {pkg : Buffer}
    {w w' : ω} {a : α} {rest : List UInt8} {o : Outcome (Except Int β × (Buffer × ω))}
    (h : Done D pkg w a w' rest)
    (hf : ∀ pkg' pre, Reading pkg' pre rest → pkg'.writePos = pkg.writePos → f a (pkg', w') = o) :
    (D >>= f) (pkg, w) = o := by
  obtain ⟨pkg', pre, he, hr, hw⟩ := h
  rw [Proc.bind_ok he]
  exact hf pkg' pre hr hw

theorem Done.andThen {D : Proc (Buffer × ω) α} {f : α → Proc (Buffer × ω) β} {pkg : Buffer}
    {w w' w'' : ω} {a : α} {b : β} {rest rest' : List UInt8} (h : Done D pkg w a w' rest)
    (hf : ∀ pkg' pre, Reading pkg' pre rest → pkg'.writePos = pkg.writePos →
      Done (f a) pkg' w' b w'' rest') :
    Done (D >>= f) pkg w b w'' rest' := by
  obtain ⟨pkg₁, pre₁, he, hr, hw⟩ := h
  obtain ⟨pkg₂, pre₂, he2, hr2, hw2⟩ := hf pkg₁ pre₁ hr hw
  exact ⟨pkg₂, pre₂, by rw [Proc.bind_ok he]; exact he2, hr2, hw2.trans hw⟩

theorem Done.andCode {D : Proc (Buffer × ω) α} {f : α → Proc (Buffer × ω) β} {pkg : Buffer}
    {w w' w'' : ω} {a : α} {c : Int} {rest : List UInt8} (h : Done D pkg w a w' rest)
    (hf : ∀ pkg' pre, Reading pkg' pre rest → pkg'.writePos = pkg.writePos →
      Code (f a) pkg' w' c w'') :
    Code (D >>= f) pkg w c w'' := by
  obtain ⟨pkg₁, pre₁, he, hr, hw⟩ := h
  obtain ⟨pkg₂, he2⟩ := hf pkg₁ pre₁ hr hw
  exact ⟨pkg₂, by rw [Proc.bind_ok he]; exact he2⟩

/-- The rest of the decoder is `E`, run on the bytes `rest`. -/
def Becomes (D : Proc (Buffer × ω) α) (pkg : Buffer) (w : ω) (E : Proc (Buffer × ω) α) (w' : ω)
    (rest : List UInt8) : Prop :=
  ∃ pkg' pre, D (pkg, w) = E (pkg', w') ∧ Reading pkg' pre rest ∧ pkg'.writePos = pkg.writePos

theorem Becomes.andEq {D E : Proc (Buffer × ω) α} {pkg : Buffer} {w w' : ω} {rest : List UInt8}
    {o : Outcome (Except Int α × (Buffer × ω))} (h : Becomes D pkg w E w' rest)
    (hf : ∀ pkg' pre, Reading pkg' pre rest → pkg'.writePos = pkg.writePos → E (pkg', w') = o) :
    D (pkg, w) = o := by
  obtain ⟨pkg', pre, he, hr, hw⟩ := h
  exact he.trans (hf pkg' pre hr hw)

theorem Becomes.andThen {D E : Proc (Buffer × ω) α} {pkg : Buffer} {w w' w'' : ω} {a : α}
    {rest rest' : List UInt8} (h : Becomes D pkg w E w' rest)
    (hf : ∀ pkg' pre, Reading pkg' pre rest → pkg'.writePos = pkg.writePos →
      Done E pkg' w' a w'' rest') : Done D pkg w a w'' rest' := by
  obtain ⟨pkg₁, pre₁, he, hr, hw⟩ := h
  obtain ⟨pkg₂, pre₂, he2, hr2, hw2⟩ := hf pkg₁ pre₁ hr hw
  exact ⟨pkg₂, pre₂, he.trans he2, hr2, hw2.trans hw⟩

theorem Becomes.andCode {D E : Proc (Buffer × ω) α} {pkg : Buffer} {w w' w'' : ω} {c : Int}
    {rest : List UInt8} (h : Becomes D pkg w E w' rest)
    (hf : ∀ pkg' pre, Reading pkg' pre rest → pkg'.writePos = pkg.writePos →
      Code E pkg' w' c w'') : Code D pkg w c w'' := by
  obtain ⟨pkg₁, pre₁, he, hr, hw⟩ := h
  obtain ⟨pkg₂, he2⟩ := hf pkg₁ pre₁ hr hw
  exact ⟨pkg₂, he.trans he2⟩

theorem Code.andStop {D : Proc (Buffer × ω) α} {pkg : Buffer} {w w' : ω} {c : Int}
    (h : Code D pkg w c w') (f : α → Proc (Buffer × ω) β) : Code (D >>= f) pkg w c w' := by
  obtain ⟨pkg', he⟩ := h
  exact ⟨pkg', Proc.bind_error he⟩

theorem assign_done {pkg : Buffer} {pre rest : List UInt8} (h : Reading pkg pre rest) (f : ω → ω)
    (w : ω) : Done (assign f) pkg w () (f w) rest :=
  ⟨pkg, pre, rfl, h, rfl⟩

theorem assertConsumed_done {pkg : Buffer} {pre : List UInt8} (h : Reading pkg pre []) (w : ω) :
    Done assertConsumed pkg w () w [] :=
  ⟨pkg, pre, Proc.assert_ok (h.at_end_iff.mpr rfl), h, rfl⟩

theorem assertConsumed_fails {pkg : Buffer} {pre rest : List UInt8} (h : Reading pkg pre rest)
    (hne : rest ≠ []) (w : ω) : (assertConsumed : Proc (Buffer × ω) Unit) (pkg, w) = .assertFail :=
  Proc.assert_fails fun he => hne (h.at_end_iff.mp he)

/-! ### A packet that has been opened -/

/-- The type byte has been read, and `body` is the body of the frame. -/
structure Opened (pkg : Buffer) (body : List UInt8) : Prop where
  reading : ∃ pre tl, Reading pkg pre tl ∧ decodeLen 3 tl = .done body.length body

/-- The bytes of a frame with type `t` and body `body`; its length field may have
more digits than it needs. -/
def IsFrame (bs : List UInt8) (t : UInt8) (body : List UInt8) : Prop :=
  ∃ tl, bs = t :: tl ∧ decodeLen 3 tl = .done body.length body

theorem isFrame_frame {t : UInt8} {body : List UInt8} (h : body.length < 2 ^ 28) :
    IsFrame (frame t body) t body := by
  refine ⟨_, rfl, ?_⟩
  exact decodeLen_lenDigits 3 body.length (by omega) body

theorem IsFrame.unique {bs : List UInt8} {t t' : UInt8} {body body' : List UInt8}
    (h : IsFrame bs t body) (h' : IsFrame bs t' body') : t' = t ∧ body' = body := by
  obtain ⟨tl, rfl, hd⟩ := h
  obtain ⟨tl', he, hd'⟩ := h'
  cases he
  rw [hd] at hd'
  injection hd' with _ hb
  exact ⟨rfl, hb.symm⟩

/-- **Every packet `GetEdpPacket` cuts out is a frame.** -/
theorem isFrame_take {bs : List UInt8} (h : 0 < frameLen bs) :
    ∃ t body, IsFrame (bs.take (frameLen bs).toNat) t body := by
  obtain ⟨t, tl, v, rest, rfl, hd, hv, he⟩ := frameLen_pos h
  obtain ⟨ds, rfl, -, -, -, hds⟩ := decodeLen_done 3 tl v rest hd
  refine ⟨t, rest.take v, ds ++ rest.take v, ?_, ?_⟩
  · rw [he, Int.toNat_natCast, List.length_append,
      show 1 + (ds.length + rest.length - rest.length) + v = ds.length + v + 1 by omega,
      List.take_succ_cons, List.take_append, List.take_of_length_le (by omega)]
    congr 3
    omega
  · rw [hds, List.length_take, Nat.min_eq_left hv]

theorem reading_of_filled {pkg : Buffer} {bs : List UInt8} (h : Filled pkg bs)
    (hs : bs.length < 2 ^ 31) : Reading pkg [] bs where
  readPos := h.readPos
  writePos := by rw [h.writePos, List.length_nil, Nat.zero_add]
  holds := h.holds
  small := by rw [h.writePos]; exact hs
  allocated := by rw [h.size]; exact h.capacity_lt

/-- Reading the type byte of a frame opens it. -/
theorem edpPacketType_opens {pkg : Buffer} {bs : List UInt8} {t : UInt8} {body : List UInt8}
    (h : Filled pkg bs) (hs : bs.length < 2 ^ 31) (hf : IsFrame bs t body) :
    ∃ pkg', edpPacketType pkg = .ok (.ok t, pkg') ∧ Opened pkg' body ∧
      pkg'.writePos = pkg.writePos := by
  obtain ⟨tl, rfl, hd⟩ := hf
  obtain ⟨pkg', pre, he, hr, hw⟩ := readByte_takes (reading_of_filled h hs)
  exact ⟨pkg', Proc.orDefault_ok he, ⟨pre, tl, hr, hd⟩, hw⟩

theorem Opened.length_lt {pkg : Buffer} {body : List UInt8} (h : Opened pkg body) :
    body.length < 2 ^ 28 := by
  obtain ⟨pre, tl, -, hd⟩ := h.reading
  obtain ⟨ds, -, -, -, hv, -⟩ := decodeLen_done 3 tl body.length body hd
  omega

/-- Reading the length field leaves the cursor in front of the body. -/
theorem Opened.remainlen {pkg : Buffer} {body : List UInt8} (h : Opened pkg body) (c : Int)
    (w : ω) : Done (readRemainlen.onFst.orReturn c) pkg w body.length w body := by
  obtain ⟨pre, tl, hr, hd⟩ := h.reading
  exact (readRemainlen_takes hr hd).call c w

/-! ### Reading a block of given length -/

theorem Reading.bytes {pkg : Buffer} {pre x rest : List UInt8} (h : Reading pkg pre (x ++ rest))
    {n : Nat} (hn : x.length = n) (c : Int) (w : ω) :
    Done ((readBytes n).onFst.orReturn c) pkg w x w rest := by
  subst hn
  exact (readBytes_takes h).call c w

/-- The rest of the packet in one piece. -/
theorem Reading.bytes_all {pkg : Buffer} {pre rest : List UInt8} (h : Reading pkg pre rest)
    {n : Nat} (hn : rest.length = n) (c : Int) (w : ω) :
    Done ((readBytes n).onFst.orReturn c) pkg w rest w [] := by
  have h' : Reading pkg pre (rest ++ []) := by rw [List.append_nil]; exact h
  exact h'.bytes hn c w

theorem Reading.bytes_code {pkg : Buffer} {pre rest : List UInt8} (h : Reading pkg pre rest)
    {n : Nat} (hn : rest.length < n) (hwrap : pkg.writePos - rest.length + n < 2 ^ 32) (c : Int)
    (w : ω) : Code ((readBytes n).onFst.orReturn c) pkg w c w := by
  have hw := h.writePos
  exact Refuses.call ⟨pkg, readBytes_refuses h hn (by omega)⟩ c w

theorem Reading.bytes_fault {pkg : Buffer} {pre rest : List UInt8} (h : Reading pkg pre rest)
    {n : Nat} (hn : n < 2 ^ 32) (hwrap : 2 ^ 32 ≤ pkg.writePos - rest.length + n) (c : Int)
    (w : ω) : ((readBytes n).onFst.orReturn c) (pkg, w) = .fault := by
  have hw := h.writePos
  exact Proc.orReturn_fault (Proc.onFst_fault (readBytes_wrap h hn (by omega)))

theorem Reading.byte {pkg : Buffer} {pre rest : List UInt8} {b : UInt8}
    (h : Reading pkg pre (b :: rest)) (c : Int) (w : ω) :
    Done (readByte.onFst.orReturn c) pkg w b w rest :=
  (readByte_takes h).call c w

theorem Reading.byte_code {pkg : Buffer} {pre : List UInt8} (h : Reading pkg pre []) (c : Int)
    (w : ω) : Code (readByte.onFst.orReturn c) pkg w c w :=
  Refuses.call ⟨pkg, readByte_refuses h⟩ c w

/-! ### `UnpackConnectResp` and `UnpackPingResp` -/

section Decoders

variable {pkg : Buffer} {body : List UInt8}

theorem unpackConnectResp_done {flag rtn : UInt8} (h : Opened pkg [flag, rtn]) (w : ω) :
    Done unpackConnectResp pkg w rtn w [] := by
  refine (h.remainlen _ w).andThen fun pkg₁ pre₁ h₁ _ => ?_
  refine (h₁.byte _ w).andThen fun pkg₂ pre₂ h₂ _ => ?_
  refine (h₂.byte _ w).andThen fun pkg₃ pre₃ h₃ _ => ?_
  refine (assertConsumed_done h₃ w).andThen fun pkg₄ pre₄ h₄ _ => ?_
  exact ⟨pkg₄, pre₄, rfl, h₄, rfl⟩

theorem unpackConnectResp_code (h : Opened pkg body) (hs : body.length < 2) (w : ω) :
    ∃ c, Code (unpackConnectResp : Proc (Buffer × ω) UInt8) pkg w c w := by
  match body, h, hs with
  | [], h, _ =>
    refine ⟨ERR_UNPACK_CONNRESP_FLAG, (h.remainlen _ w).andCode fun pkg₁ pre₁ h₁ _ => ?_⟩
    exact (h₁.byte_code _ w).andStop _
  | [flag], h, _ =>
    refine ⟨ERR_UNPACK_CONNRESP_RTN, (h.remainlen _ w).andCode fun pkg₁ pre₁ h₁ _ => ?_⟩
    refine (h₁.byte _ w).andCode fun pkg₂ pre₂ h₂ _ => ?_
    exact (h₂.byte_code _ w).andStop _

theorem unpackConnectResp_fails (h : Opened pkg body) (hs : 2 < body.length) (w : ω) :
    (unpackConnectResp : Proc (Buffer × ω) UInt8) (pkg, w) = .assertFail := by
  match body, h, hs with
  | flag :: rtn :: b :: rest, h, _ =>
    refine (h.remainlen _ w).andEq fun pkg₁ pre₁ h₁ _ => ?_
    refine (h₁.byte _ w).andEq fun pkg₂ pre₂ h₂ _ => ?_
    refine (h₂.byte _ w).andEq fun pkg₃ pre₃ h₃ _ => ?_
    exact Proc.bind_assertFail (assertConsumed_fails h₃ (List.cons_ne_nil _ _) w)

theorem unpackPingResp_done (h : Opened pkg []) (w : ω) : Done unpackPingResp pkg w () w [] := by
  refine (h.remainlen _ w).andThen fun pkg₁ pre₁ h₁ _ => ?_
  exact assertConsumed_done h₁ w

theorem unpackPingResp_fails (h : Opened pkg body) (hs : body ≠ []) (w : ω) :
    (unpackPingResp : Proc (Buffer × ω) Unit) (pkg, w) = .assertFail := by
  refine (h.remainlen _ w).andEq fun pkg₁ pre₁ h₁ _ => ?_
  exact assertConsumed_fails h₁ hs w

/-! ### `UnpackPushdata` -/

/-- What `*push_datalen` is computed to: the string counts up to its terminator
only, so a NUL in the id makes it too large. -/
theorem pushdata_length {s rest : List UInt8} (ht : takeStr body = some (s, rest))
    (hb : body.length < 2 ^ 32) :
    sub32 body.length (2 + (cstr (strncpy s)).length) =
      rest.length + (s.length - (cstr s).length) := by
  have hl := takeStr_length ht
  have hc := length_cstr_le s
  rw [cstr_strncpy, sub32_of_le hb (by omega)]
  omega

variable {srcDevid pushData : List UInt8 → ω → ω} {dataLen : Nat → ω → ω}

theorem unpackPushdata_done (h : Opened pkg body) {s rest : List UInt8}
    (ht : takeStr body = some (s, rest)) (hb : body.length < 2 ^ 32) (hs : (0 : UInt8) ∉ s) (w : ω) :
    Done (unpackPushdata srcDevid pushData dataLen) pkg w ()
      (dataLen rest.length (pushData rest (srcDevid (strncpy s) w))) [] := by
  have hlen : rest.length = sub32 body.length (2 + (cstr (strncpy s)).length) := by
    rw [pushdata_length ht hb, cstr_of_nulFree hs, Nat.sub_self, Nat.add_zero]
  refine (h.remainlen _ w).andThen fun pkg₁ pre₁ h₁ _ => ?_
  refine ((readStr_takes h₁ ht).call _ w).andThen fun pkg₂ pre₂ h₂ _ => ?_
  refine (assign_done h₂ _ w).andThen fun pkg₃ pre₃ h₃ _ => ?_
  refine (h₃.bytes_all hlen _ _).andThen fun pkg₄ pre₄ h₄ _ => ?_
  refine (assign_done h₄ _ _).andThen fun pkg₅ pre₅ h₅ _ => ?_
  refine (assign_done h₅ _ _).andThen fun pkg₆ pre₆ h₆ _ => ?_
  rw [← hlen]
  exact assertConsumed_done h₆ _

theorem unpackPushdata_code_devid (h : Opened pkg body) (ht : takeStr body = none) (w : ω) :
    Code (unpackPushdata srcDevid pushData dataLen) pkg w ERR_UNPACK_PUSHD_DEVID w := by
  refine (h.remainlen _ w).andCode fun pkg₁ pre₁ h₁ _ => ?_
  exact ((readStr_refuses h₁ ht).call _ w).andStop _

/-- A NUL inside the id: the id is assigned, the data is not. -/
theorem unpackPushdata_code_data (h : Opened pkg body) {s rest : List UInt8}
    (ht : takeStr body = some (s, rest)) (hb : body.length < 2 ^ 31) (hs : (0 : UInt8) ∈ s) (w : ω) :
    Code (unpackPushdata srcDevid pushData dataLen) pkg w ERR_UNPACK_PUSHD_DATA
      (srcDevid (strncpy s) w) := by
  have hlen := pushdata_length ht (by omega)
  have hl := takeStr_length ht
  have hle := length_cstr_le s
  have hne : (cstr s).length ≠ s.length := fun he => (length_cstr_eq_iff.mp he) hs
  refine (h.remainlen _ w).andCode fun pkg₁ pre₁ h₁ _ => ?_
  refine ((readStr_takes h₁ ht).call _ w).andCode fun pkg₂ pre₂ h₂ _ => ?_
  refine (assign_done h₂ _ w).andCode fun pkg₃ pre₃ h₃ _ => ?_
  have hsmall := h₃.small
  refine (h₃.bytes_code ?_ ?_ _ _).andStop _
  · rw [hlen]; omega
  · rw [hlen]; omega

/-! ### `UnpackSavedata` -/

/-- The source id field: a string behind the translate address flag, nothing
without the flag. -/
def takeSrc (taFlag : UInt8) (bs : List UInt8) : Option (Option (List UInt8) × List UInt8) :=
  if taFlag = 0x80 then (takeStr bs).map fun p => (some p.1, p.2) else some (none, bs)

variable {src : Option (List UInt8) → ω → ω} {jbFlag : UInt8 → ω → ω}

theorem unpackSrcDevid_done {pre bs rest : List UInt8} {taFlag : UInt8} {id : Option (List UInt8)}
    (h : Reading pkg pre bs) (ht : takeSrc taFlag bs = some (id, rest)) (w : ω) :
    Done (unpackSrcDevid src taFlag) pkg w () (src (id.map strncpy) w) rest := by
  unfold takeSrc at ht
  unfold unpackSrcDevid
  by_cases hta : taFlag = 0x80
  · rw [if_pos hta] at ht ⊢
    cases hs : takeStr bs with
    | none => rw [hs] at ht; cases ht
    | some p =>
      rw [hs] at ht
      cases ht
      refine ((readStr_takes h hs).call _ w).andThen fun pkg₁ pre₁ h₁ _ => ?_
      exact assign_done h₁ _ w
  · rw [if_neg hta] at ht ⊢
    cases ht
    exact assign_done h _ w

theorem unpackSrcDevid_code {pre bs : List UInt8} {taFlag : UInt8} (h : Reading pkg pre bs)
    (ht : takeSrc taFlag bs = none) (w : ω) :
    Code (unpackSrcDevid src taFlag) pkg w ERR_UNPACK_SAVED_DEVID w := by
  unfold takeSrc at ht
  unfold unpackSrcDevid
  by_cases hta : taFlag = 0x80
  · rw [if_pos hta] at ht ⊢
    rw [Option.map_eq_none_iff] at ht
    exact ((readStr_refuses h ht).call _ w).andStop _
  · rw [if_neg hta] at ht
    cases ht

/-- `UnpackSavedata` does not use the remaining length that it has read. -/
theorem unpackSavedata_reads {taFlag flag : UInt8} {tl tl' rest : List UInt8}
    {id : Option (List UInt8)} {pre : List UInt8} {v : Nat} (h : Reading pkg pre tl')
    (hd : decodeLen 3 tl' = .done v (taFlag :: tl)) (ht : takeSrc taFlag tl = some (id, flag :: rest))
    (w : ω) :
    Done (unpackSavedata src jbFlag) pkg w () (jbFlag flag (src (id.map strncpy) w)) rest := by
  refine ((readRemainlen_takes h hd).call _ w).andThen fun pkg₁ pre₁ h₁ _ => ?_
  refine (h₁.byte _ w).andThen fun pkg₂ pre₂ h₂ _ => ?_
  refine (unpackSrcDevid_done h₂ ht w).andThen fun pkg₃ pre₃ h₃ _ => ?_
  refine (h₃.byte _ _).andThen fun pkg₄ pre₄ h₄ _ => ?_
  exact assign_done h₄ _ _

theorem unpackSavedata_done {taFlag flag : UInt8} {tl rest : List UInt8} {id : Option (List UInt8)}
    (h : Opened pkg (taFlag :: tl)) (ht : takeSrc taFlag tl = some (id, flag :: rest)) (w : ω) :
    Done (unpackSavedata src jbFlag) pkg w () (jbFlag flag (src (id.map strncpy) w)) rest := by
  obtain ⟨pre, tl', hr, hd⟩ := h.reading
  exact unpackSavedata_reads hr hd ht w

theorem unpackSavedata_code_empty (h : Opened pkg []) (w : ω) :
    Code (unpackSavedata src jbFlag) pkg w ERR_UNPACK_SAVED_TANSFLAG w := by
  refine (h.remainlen _ w).andCode fun pkg₁ pre₁ h₁ _ => ?_
  exact (h₁.byte_code _ w).andStop _

theorem unpackSavedata_code_devid {taFlag : UInt8} {tl : List UInt8}
    (h : Opened pkg (taFlag :: tl)) (ht : takeSrc taFlag tl = none) (w : ω) :
    Code (unpackSavedata src jbFlag) pkg w ERR_UNPACK_SAVED_DEVID w := by
  refine (h.remainlen _ w).andCode fun pkg₁ pre₁ h₁ _ => ?_
  refine (h₁.byte _ w).andCode fun pkg₂ pre₂ h₂ _ => ?_
  exact (unpackSrcDevid_code h₂ ht w).andStop _

/-- The packet ends behind the id: the id has been assigned all the same. -/
theorem unpackSavedata_code_flag {taFlag : UInt8} {tl : List UInt8} {id : Option (List UInt8)}
    (h : Opened pkg (taFlag :: tl)) (ht : takeSrc taFlag tl = some (id, [])) (w : ω) :
    Code (unpackSavedata src jbFlag) pkg w ERR_UNPACK_SAVED_DATAFLAG
      (src (id.map strncpy) w) := by
  refine (h.remainlen _ w).andCode fun pkg₁ pre₁ h₁ _ => ?_
  refine (h₁.byte _ w).andCode fun pkg₂ pre₂ h₂ _ => ?_
  refine (unpackSrcDevid_done h₂ ht w).andCode fun pkg₃ pre₃ h₃ _ => ?_
  exact (h₃.byte_code _ _).andStop _

/-! ### The three forms of saved data -/

variable {J : Type} {cJSON_Parse : List UInt8 → Option J} {obj : Option J → ω → ω}
variable {pre bs rest : List UInt8}

theorem parseInto_done (h : Reading pkg pre bs) {s : List UInt8} {j : J}
    (hj : cJSON_Parse (cstr s) = some j) (c : Int) (w : ω) :
    Done (parseInto cJSON_Parse obj s c) pkg w () (obj (some j) w) bs := by
  refine (assign_done h _ w).andThen fun pkg₁ pre₁ h₁ _ => ?_
  rw [hj]
  exact ⟨pkg₁, pre₁, rfl, h₁, rfl⟩

theorem parseInto_code (h : Reading pkg pre bs) {s : List UInt8}
    (hj : cJSON_Parse (cstr s) = none) (c : Int) (w : ω) :
    Code (parseInto cJSON_Parse obj s c) pkg w c (obj none w) := by
  refine (assign_done h _ w).andCode fun pkg₁ pre₁ h₁ _ => ?_
  rw [hj]
  exact ⟨pkg₁, rfl⟩

theorem unpackSavedataJson_done (h : Reading pkg pre bs) {s : List UInt8} {j : J}
    (ht : takeStr bs = some (s, [])) (hj : cJSON_Parse (cstr s) = some j) (w : ω) :
    Done (unpackSavedataJson cJSON_Parse obj) pkg w () (obj (some j) w) [] := by
  refine ((readStr_takes h ht).call _ w).andThen fun pkg₁ pre₁ h₁ _ => ?_
  refine (parseInto_done h₁ (by rw [cstr_strncpy]; exact hj) _ w).andThen
    fun pkg₂ pre₂ h₂ _ => ?_
  exact assertConsumed_done h₂ _

theorem unpackSavedataJson_code_str (h : Reading pkg pre bs) (ht : takeStr bs = none) (w : ω) :
    Code (unpackSavedataJson cJSON_Parse obj) pkg w ERR_UNPACK_SAVED_JSON w :=
  ((readStr_refuses h ht).call _ w).andStop _

theorem unpackSavedataJson_code_parse (h : Reading pkg pre bs) {s : List UInt8}
    (ht : takeStr bs = some (s, rest)) (hj : cJSON_Parse (cstr s) = none) (w : ω) :
    Code (unpackSavedataJson cJSON_Parse obj) pkg w ERR_UNPACK_SAVED_PARSEJSON (obj none w) := by
  refine ((readStr_takes h ht).call _ w).andCode fun pkg₁ pre₁ h₁ _ => ?_
  exact (parseInto_code h₁ (by rw [cstr_strncpy]; exact hj) _ w).andStop _

theorem unpackSavedataJson_fails (h : Reading pkg pre bs) {s : List UInt8} {j : J}
    (ht : takeStr bs = some (s, rest)) (hj : cJSON_Parse (cstr s) = some j) (hr : rest ≠ [])
    (w : ω) : unpackSavedataJson cJSON_Parse obj (pkg, w) = .assertFail := by
  refine ((readStr_takes h ht).call _ w).andEq fun pkg₁ pre₁ h₁ _ => ?_
  refine (parseInto_done h₁ (by rw [cstr_strncpy]; exact hj) _ w).andEq fun pkg₂ pre₂ h₂ _ => ?_
  exact assertConsumed_fails h₂ hr _

theorem unpackSavedataSimpleString_done {output : List UInt8 → ω → ω} (h : Reading pkg pre bs)
    {s : List UInt8} (ht : takeStr bs = some (s, rest)) (w : ω) :
    Done (unpackSavedataSimpleString output) pkg w () (output (strncpy s) w) rest := by
  refine ((readStr_takes h ht).call _ w).andThen fun pkg₁ pre₁ h₁ _ => ?_
  exact assign_done h₁ _ w

theorem unpackSavedataSimpleString_code {output : List UInt8 → ω → ω} (h : Reading pkg pre bs)
    (ht : takeStr bs = none) (w : ω) :
    Code (unpackSavedataSimpleString output) pkg w ERR_UNPACK_SAVED_JSON w :=
  ((readStr_refuses h ht).call _ w).andStop _

/-! ### A block behind its length

`UnpackSavedataBin` and `UnpackCmdReq` end in the same way: a block of a length
that was read from the packet, and the assertion.  The length and the rest of
the packet are chosen independently, so there are four cases. -/

/-- `if (ReadBytes(pkg, val, n)) return c; assert(..);` -/
def lastBlock (n : Nat) (c : Int) (val : List UInt8 → ω → ω) : Proc (Buffer × ω) Unit := do
  let x ← (readBytes n).onFst.orReturn c
  assign (val x)
  assertConsumed

variable {val : List UInt8 → ω → ω} {n : Nat}

theorem lastBlock_done (h : Reading pkg pre rest) (hn : n = rest.length) (c : Int) (w : ω) :
    Done (lastBlock n c val) pkg w () (val rest w) [] := by
  refine (h.bytes_all hn.symm c w).andThen fun pkg₁ pre₁ h₁ _ => ?_
  refine (assign_done h₁ _ _).andThen fun pkg₂ pre₂ h₂ _ => ?_
  exact assertConsumed_done h₂ _

theorem lastBlock_code (h : Reading pkg pre rest) (hn : rest.length < n)
    (hwrap : pkg.writePos - rest.length + n < 2 ^ 32) (c : Int) (w : ω) :
    Code (lastBlock n c val) pkg w c w :=
  (h.bytes_code hn hwrap c w).andStop _

theorem lastBlock_fails (h : Reading pkg pre rest) (hn : n < rest.length) (c : Int) (w : ω) :
    lastBlock n c val (pkg, w) = .assertFail := by
  have hx : (rest.take n).length = n := by rw [List.length_take]; omega
  have hne : rest.drop n ≠ [] := by
    intro he
    have := congrArg List.length he
    rw [List.length_drop, List.length_nil] at this
    omega
  have h' : Reading pkg pre (rest.take n ++ rest.drop n) := by
    rw [List.take_append_drop]; exact h
  refine (h'.bytes hx c w).andEq fun pkg₁ pre₁ h₁ _ => ?_
  refine (assign_done h₁ _ _).andEq fun pkg₂ pre₂ h₂ _ => ?_
  exact assertConsumed_fails h₂ hne _

theorem lastBlock_fault (h : Reading pkg pre rest) (hn : n < 2 ^ 32)
    (hwrap : 2 ^ 32 ≤ pkg.writePos - rest.length + n) (c : Int) (w : ω) :
    lastBlock n c val (pkg, w) = .fault :=
  Proc.bind_fault (h.bytes_fault hn hwrap c w)

variable {binData : List UInt8 → ω → ω} {binLen : Nat → ω → ω}

/-- `UnpackSavedataBin` and `UnpackSavedataBinStr` behind the length. -/
theorem unpackBinData_step (h : Reading pkg pre bs) (ht : takeU32 bs = some (n, rest)) (w : ω) :
    Becomes (unpackBinData binData binLen) pkg w (lastBlock n ERR_UNPACK_SAVED_BINDATA binData)
      (binLen n w) rest := by
  obtain ⟨pkg₁, pre₁, he, hr, hw⟩ := (readUint32_takes h ht).call ERR_UNPACK_SAVED_BINLEN w
  exact ⟨pkg₁, pre₁, Proc.bind_ok he, hr, hw⟩

theorem unpackBinData_code_len (h : Reading pkg pre bs) (ht : takeU32 bs = none) (w : ω) :
    Code (unpackBinData binData binLen) pkg w ERR_UNPACK_SAVED_BINLEN w :=
  (Refuses.call ⟨pkg, readUint32_refuses h (takeU32_eq_none.mp ht)⟩ _ w).andStop _

theorem unpackSavedataBin_code_desc (h : Reading pkg pre bs) (ht : takeStr bs = none) (w : ω) :
    Code (unpackSavedataBin cJSON_Parse obj binData binLen) pkg w ERR_UNPACK_SAVED_BIN_DESC w :=
  ((readStr_refuses h ht).call _ w).andStop _

theorem unpackSavedataBin_code_parse (h : Reading pkg pre bs) {s : List UInt8}
    (ht : takeStr bs = some (s, rest)) (hj : cJSON_Parse (cstr s) = none) (w : ω) :
    Code (unpackSavedataBin cJSON_Parse obj binData binLen) pkg w ERR_UNPACK_SAVED_PARSEDESC
      (obj none w) := by
  refine ((readStr_takes h ht).call _ w).andCode fun pkg₁ pre₁ h₁ _ => ?_
  exact (parseInto_code h₁ (by rw [cstr_strncpy]; exact hj) _ w).andStop _

/-- A description that parses leaves the block of binary data. -/
theorem unpackSavedataBin_step (h : Reading pkg pre bs) {s : List UInt8} {j : J}
    (ht : takeStr bs = some (s, rest)) (hj : cJSON_Parse (cstr s) = some j) (w : ω) :
    Becomes (unpackSavedataBin cJSON_Parse obj binData binLen) pkg w
      (unpackBinData binData binLen) (obj (some j) w) rest := by
  obtain ⟨pkg₁, pre₁, he, hr, hw⟩ := (readStr_takes h ht).call ERR_UNPACK_SAVED_BIN_DESC w
  have hp : Done (parseInto cJSON_Parse obj (strncpy s) ERR_UNPACK_SAVED_PARSEDESC) pkg₁ w () _ _ :=
    parseInto_done hr (by rw [cstr_strncpy]; exact hj) _ w
  obtain ⟨pkg₂, pre₂, he2, hr2, hw2⟩ := hp
  exact ⟨pkg₂, pre₂, (Proc.bind_ok he).trans (Proc.bind_ok he2), hr2, hw2.trans hw⟩

theorem unpackSavedataBinStr_step {descStr : List UInt8 → ω → ω} (h : Reading pkg pre bs)
    {s : List UInt8} (ht : takeStr bs = some (s, rest)) (w : ω) :
    Becomes (unpackSavedataBinStr descStr binData binLen) pkg w
      (unpackBinData binData binLen) (descStr (strncpy s) w) rest := by
  obtain ⟨pkg₁, pre₁, he, hr, hw⟩ := (readStr_takes h ht).call ERR_UNPACK_SAVED_BIN_DESC w
  exact ⟨pkg₁, pre₁, Proc.bind_ok he, hr, hw⟩

/-! ### `UnpackSavedataAck` -/

/-- The acknowledgement: a flag and a block behind its `uint16` length. -/
def takeAck : List UInt8 → Option (List UInt8 × List UInt8)
  | [] => none
  | _ :: rest => takeStr rest

variable {jsonAck : List UInt8 → ω → ω}

theorem unpackSavedataAck_done (h : Opened pkg body) {ack : List UInt8}
    (ht : takeAck body = some (ack, rest)) (w : ω) :
    Done (unpackSavedataAck jsonAck) pkg w () (jsonAck ack w) rest := by
  match body, h, ht with
  | flag :: tl, h, ht =>
    obtain ⟨r, h16, rfl⟩ := takeStr_some ht
    refine (h.remainlen _ w).andThen fun pkg₁ pre₁ h₁ _ => ?_
    refine (h₁.byte _ w).andThen fun pkg₂ pre₂ h₂ _ => ?_
    refine ((readUint16_takes h₂ h16).call _ w).andThen fun pkg₃ pre₃ h₃ _ => ?_
    refine (h₃.bytes rfl _ w).andThen fun pkg₄ pre₄ h₄ _ => ?_
    exact assign_done h₄ _ w

theorem unpackSavedataAck_code (h : Opened pkg body) (ht : takeAck body = none) (w : ω) :
    Code (unpackSavedataAck jsonAck) pkg w ERR_UNPACK_SAVEDATA_ACK w := by
  refine (h.remainlen _ w).andCode fun pkg₁ pre₁ h₁ _ => ?_
  match body, h₁, ht with
  | [], h₁, _ => exact (h₁.byte_code _ w).andStop _
  | flag :: tl, h₁, ht =>
    refine (h₁.byte _ w).andCode fun pkg₂ pre₂ h₂ _ => ?_
    cases h16 : takeU16 tl with
    | none =>
      exact (Refuses.call ⟨pkg₂, readUint16_refuses h₂ (takeU16_eq_none.mp h16)⟩ _ w).andStop _
    | some p =>
      obtain ⟨m, r⟩ := p
      change takeStr tl = none at ht
      rw [takeStr, h16, Option.bind_some, takeN_eq_none] at ht
      have hm := (takeU16_lt h16).1
      refine ((readUint16_takes h₂ h16).call _ w).andCode fun pkg₃ pre₃ h₃ _ => ?_
      have hsmall := h₃.small
      exact (h₃.bytes_code ht (by omega) _ w).andStop _

/-! ### `UnpackCmdReq` -/

variable {cmdid : List UInt8 → ω → ω} {cmdidLen : Nat → ω → ω}
variable {req : List UInt8 → ω → ω} {reqLen : Nat → ω → ω}

/-- The request behind its `uint32` length, with which the command ends. -/
def requestBlock (req : List UInt8 → ω → ω) (reqLen : Nat → ω → ω) : Proc (Buffer × ω) Unit := do
  let len ← readUint32.onFst
  assign (reqLen len)
  lastBlock len ERR_UNPACK_CMDREQ req

theorem unpackCmdReq_code_id (h : Opened pkg body) (ht : takeStr body = none) (w : ω) :
    ∃ c w', Code (unpackCmdReq cmdid cmdidLen req reqLen) pkg w c w' ∧
      (w' = w ∨ ∃ m, w' = cmdidLen m w) := by
  cases h16 : takeU16 body with
  | none =>
    refine ⟨-1, w, ?_, .inl rfl⟩
    refine (h.remainlen _ w).andCode fun pkg₁ pre₁ h₁ _ => ?_
    exact (Refuses.run ⟨pkg₁, readUint16_refuses h₁ (takeU16_eq_none.mp h16)⟩ w).andStop _
  | some p =>
    obtain ⟨m, r⟩ := p
    rw [takeStr, h16, Option.bind_some, takeN_eq_none] at ht
    have hm := (takeU16_lt h16).1
    refine ⟨ERR_UNPACK_CMDREQ, cmdidLen m w, ?_, .inr ⟨m, rfl⟩⟩
    refine (h.remainlen _ w).andCode fun pkg₁ pre₁ h₁ _ => ?_
    refine ((readUint16_takes h₁ h16).run w).andCode fun pkg₂ pre₂ h₂ _ => ?_
    refine (assign_done h₂ _ w).andCode fun pkg₃ pre₃ h₃ _ => ?_
    have hsmall := h₃.small
    exact (h₃.bytes_code ht (by omega) _ _).andStop _

/-- With a complete command id the request is next. -/
theorem unpackCmdReq_step (h : Opened pkg body) {id : List UInt8}
    (ht : takeStr body = some (id, rest)) (w : ω) :
    Becomes (unpackCmdReq cmdid cmdidLen req reqLen) pkg w (requestBlock req reqLen)
      (cmdid id (cmdidLen id.length w)) rest := by
  obtain ⟨r, h16, rfl⟩ := takeStr_some ht
  obtain ⟨pkg₁, pre₁, he₁, h₁, hw₁⟩ := h.remainlen ERR_UNPACK_CMDREQ w
  obtain ⟨pkg₂, pre₂, he₂, h₂, hw₂⟩ := (readUint16_takes h₁ h16).run w
  obtain ⟨pkg₃, pre₃, he₃, h₃, hw₃⟩ := h₂.bytes rfl ERR_UNPACK_CMDREQ (cmdidLen id.length w)
  refine ⟨pkg₃, pre₃, ?_, h₃, hw₃.trans (hw₂.trans hw₁)⟩
  exact (Proc.bind_ok he₁).trans ((Proc.bind_ok he₂).trans (Proc.bind_ok he₃))

theorem requestBlock_code_len (h : Reading pkg pre bs) (ht : takeU32 bs = none) (w : ω) :
    Code (requestBlock req reqLen) pkg w (-1) w :=
  (Refuses.run ⟨pkg, readUint32_refuses h (takeU32_eq_none.mp ht)⟩ w).andStop _

theorem requestBlock_step (h : Reading pkg pre bs) (ht : takeU32 bs = some (n, rest)) (w : ω) :
    Becomes (requestBlock req reqLen) pkg w (lastBlock n ERR_UNPACK_CMDREQ req) (reqLen n w)
      rest := by
  obtain ⟨pkg₁, pre₁, he, hr, hw⟩ := (readUint32_takes h ht).run w
  exact ⟨pkg₁, pre₁, Proc.bind_ok he, hr, hw⟩

end Decoders

end Nl6621.Edp
