import Nl6621.Edp.Unpack

/-!
# Packets read back as what was packed

A packet built from an id, a text or a payload is complete, and the decoders give
back exactly what went in: `message_roundtrip`, for the pushed data, the
string form of saved data and the binary form with a string description.

The builders compute the remaining length by hand, before and apart from the
bytes they write.  `Appends p n e` says what a sequence of writers adds to a
buffer of `n` bytes, whatever reallocations happen on the way; with it each
builder is followed once, and its packet turns out to be the frame around the
`body` of the message (`packet_filled`), with the hand-made length equal to the
length of the body.  The length field is written without a capacity check, which
is harmless here because only the type byte stands in front of it.
-/

namespace Nl6621.Edp

open Lib

/-! ### What a sequence of writers adds -/

/-- On every buffer of `n` bytes the writers succeed and append `e`. -/
def Appends (p : Proc Buffer Unit) (n : Nat) (e : List UInt8) : Prop :=
  ∀ buf bs, Filled buf bs → bs.length = n →
    ∃ buf', p buf = .ok (.ok (), buf') ∧ Filled buf' (bs ++ e)

theorem Appends.andThen {p q : Proc Buffer Unit} {n : Nat} {e e' : List UInt8}
    (hp : Appends p n e) (hq : Appends q (n + e.length) e') :
    Appends (p >>= fun _ => q) n (e ++ e') := by
  intro buf bs h hn
  obtain ⟨buf₁, h1, hf1⟩ := hp buf bs h hn
  obtain ⟨buf₂, h2, hf2⟩ := hq buf₁ (bs ++ e) hf1 (by rw [List.length_append, hn])
  refine ⟨buf₂, (Proc.bind_ok h1).trans h2, ?_⟩
  rw [← List.append_assoc]
  exact hf2

theorem appends_writeByte {n : Nat} (b : UInt8) (hn : n + 1 < 2 ^ 31) :
    Appends (writeByte b).void n [b] := by
  rintro buf bs h rfl
  obtain ⟨buf', h1, hf⟩ := writeByte_filled h b hn
  exact ⟨buf', Proc.void_ok h1, hf⟩

theorem appends_writeBytes {n : Nat} {cs : List UInt8} (hn : n + cs.length < 2 ^ 31) :
    Appends (writeBytes cs).void n cs := by
  rintro buf bs h rfl
  obtain ⟨buf', h1, hf⟩ := writeBytes_filled h cs hn
  exact ⟨buf', Proc.void_ok h1, hf⟩

theorem appends_writeUint16 {n : Nat} (v : Nat) (hn : n + 2 < 2 ^ 31) :
    Appends (writeUint16 v).void n (be16 v) := by
  rintro buf bs h rfl
  obtain ⟨buf', h1, hf⟩ := writeUint16_filled h v hn
  exact ⟨buf', Proc.void_ok h1, hf⟩

theorem appends_writeUint32 {n : Nat} (v : Nat) (hn : n + 4 < 2 ^ 31) :
    Appends (writeUint32 v).void n (be32 v) := by
  rintro buf bs h rfl
  obtain ⟨buf', h1, hf⟩ := writeUint32_filled h v hn
  exact ⟨buf', Proc.void_ok h1, hf⟩

theorem appends_writeStr {n : Nat} (s : CString) (hn : n + (encodeStr s).length < 2 ^ 31) :
    Appends (writeStr s).void n (encodeStr s) := by
  rintro buf bs h rfl
  obtain ⟨buf', h1, hf⟩ := writeStr_filled h s hn
  exact ⟨buf', Proc.void_ok h1, hf⟩

/-- The digits fit behind the type byte: no capacity is below `BUFFER_SIZE`. -/
theorem appends_writeRemainlen {v : Nat} (hv : v < 2 ^ 28) :
    Appends (writeRemainlen v).void 1 (encodeRemainlen v) := by
  intro buf bs h hn
  have hdigits : (encodeRemainlen v).length ≤ 4 := length_lenDigits_le 3 v
  obtain ⟨buf', h1, hf⟩ := writeRemainlen_filled h hv (by
    rw [hn]; exact le_trans (by omega) (le_trans (show 5 ≤ bufferSize by decide) h.le_capacity))
  exact ⟨buf', Proc.void_ok h1, hf⟩

theorem buildPacket_appends {p : Proc Buffer Unit} {e : List UInt8} (h : Appends p 0 e) :
    ∃ pkg, buildPacket p = .ok pkg ∧ Filled pkg e := by
  obtain ⟨pkg, h1, hf⟩ := h newBuffer [] filled_newBuffer rfl
  refine ⟨pkg, ?_, hf⟩
  rw [buildPacket, h1]
  rfl

/-- The answer to a command is a frame around the id and the response. -/
theorem packetCmdResp_filled {cmdid resp : List UInt8} (hresp : resp.length ≠ 0)
    (hlen : cmdid.length + resp.length + 6 < 2 ^ 28) :
    ∃ pkg, packetCmdResp cmdid resp = .ok pkg ∧
      Filled pkg (frame CMDRESP (be16 cmdid.length ++ (cmdid ++ (be32 resp.length ++ resp)))) := by
  have hbody : (be16 cmdid.length ++ (cmdid ++ (be32 resp.length ++ resp))).length =
      cmdid.length + resp.length + 6 := by
    simp only [List.length_append, length_be16, length_be32]; omega
  have hdigits : (encodeRemainlen (cmdid.length + resp.length + 6)).length ≤ 4 :=
    length_lenDigits_le 3 _
  rw [packetCmdResp, if_pos hresp, if_pos hresp, u32_of_lt (by omega), frame, hbody]
  refine buildPacket_appends ((appends_writeByte _ (by omega)).andThen
    ((appends_writeRemainlen hlen).andThen ((appends_writeUint16 _ ?_).andThen
      ((appends_writeBytes ?_).andThen ((appends_writeUint32 _ ?_).andThen
        (appends_writeBytes ?_))))))
  · omega
  · rw [length_be16]; omega
  · rw [length_be16]; omega
  · rw [length_be16, length_be32]; omega

theorem length_encodeStr {s : CString} (h : s.strlen ≤ 65535) :
    (encodeStr s).length = 2 + s.strlen := by
  rw [encodeStr_of_le h, List.length_append, length_be16]
  rfl

/-- What stands between the length field and the data flag of saved data. -/
def encodeDst : Option CString → List UInt8
  | some dst => 0x80 :: encodeStr dst
  | none => [0x00]

/-- The remaining length as the builders compute it. -/
def savedataRemainlen (dst : Option CString) (n : Nat) : Nat :=
  match dst with
  | some d => u32 (1 + (2 + d.strlen) + n)
  | none => u32 (1 + n)

theorem length_encodeStr_le (s : CString) : (encodeStr s).length ≤ 65537 := by
  have hlt : s.strlen % 2 ^ 16 < 2 ^ 16 := Nat.mod_lt _ (by decide)
  rw [encodeStr, List.length_append, length_be16, List.length_take]
  omega

/-- The header of a packet whose remaining length has room in four digits, for ids of any length. -/
theorem appends_savedataHeader_mod {dst : Option CString} {n : Nat}
    (h : savedataRemainlen dst n < 2 ^ 28) :
    Appends (savedataHeader dst n) 0
      ([SAVEDATA] ++ (encodeRemainlen (savedataRemainlen dst n) ++ encodeDst dst)) := by
  have hdigits : (encodeRemainlen (savedataRemainlen dst n)).length ≤ 4 := length_lenDigits_le 3 _
  refine (appends_writeByte _ (by omega)).andThen ?_
  cases dst with
  | none => exact (appends_writeRemainlen h).andThen (appends_writeByte _ (by omega))
  | some d =>
    have hd := length_encodeStr_le d
    refine (appends_writeRemainlen h).andThen (Appends.andThen (e := [0x80])
      (appends_writeByte _ ?_) (appends_writeStr d ?_))
    · omega
    · rw [List.length_singleton]; omega

/-- Where it has none, the assertion on the digits fails. -/
theorem savedataHeader_asserts {dst : Option CString} {n : Nat}
    (h : 2 ^ 28 ≤ savedataRemainlen dst n) (p : Proc Buffer Unit) :
    buildPacket (do savedataHeader dst n; p) = .assertFail := by
  obtain ⟨buf, h1, hf⟩ :=
    appends_writeByte (n := 0) SAVEDATA (by omega) newBuffer [] filled_newBuffer rfl
  have hlen : writeRemainlen (savedataRemainlen dst n) buf = .assertFail := by
    apply writeRemainlen_asserts hf h
    exact le_trans (by decide) hf.le_capacity
  have hheader : savedataHeader dst n newBuffer = .assertFail := by
    have hstop := Proc.void_assertFail hlen
    cases dst with
    | none => exact (Proc.bind_ok h1).trans (Proc.bind_assertFail hstop)
    | some d => exact (Proc.bind_ok h1).trans (Proc.bind_assertFail hstop)
  rw [buildPacket, Proc.bind_assertFail hheader]
  rfl

theorem appends_savedataHeader {dst : Option CString} {n : Nat}
    (hdst : ∀ d ∈ dst, d.strlen ≤ 65535) (hn : (encodeDst dst).length + n < 2 ^ 28) :
    Appends (savedataHeader dst n) 0
      ([SAVEDATA] ++ (encodeRemainlen ((encodeDst dst).length + n) ++ encodeDst dst)) := by
  have hv : savedataRemainlen dst n = (encodeDst dst).length + n := by
    cases dst with
    | none => exact u32_of_lt (by simp [encodeDst] at hn; omega)
    | some d =>
      have hlen : (encodeDst (some d)).length = 1 + (2 + d.strlen) := by
        rw [encodeDst, List.length_cons, length_encodeStr (hdst d rfl)]; omega
      rw [savedataRemainlen, hlen, u32_of_lt (by omega)]
  rw [← hv] at hn ⊢
  exact appends_savedataHeader_mod hn

/-! ### Messages -/

/-- What a caller of the builders wants to send. -/
inductive Message where
  | pushdata (dstDevid : CString) (data : List UInt8)
  | simpleString (dstDevid : Option CString) (input : CString)
  | binStr (dstDevid : Option CString) (descStr : CString) (binData : List UInt8)

/-- The variables a receiver passes the addresses of. -/
structure Vars where
  srcDevid : Option (List UInt8)
  jbFlag : UInt8
  text : List UInt8
  data : List UInt8
  dataLen : Nat

namespace Message

def mtype : Message → UInt8
  | pushdata _ _ => PUSHDATA
  | simpleString _ _ => SAVEDATA
  | binStr _ _ _ => SAVEDATA

def packet : Message → Outcome (Option Buffer)
  | pushdata dst data => (packetPushdata dst data).bind fun pkg => .ok (some pkg)
  | simpleString dst input => (packetSavedataSimpleString dst input).bind fun pkg => .ok (some pkg)
  | binStr dst desc bin => packetSavedataBinStr dst desc bin

/-- What follows the length field. -/
def body : Message → List UInt8
  | pushdata dst data => encodeStr dst ++ data
  | simpleString dst input => encodeDst dst ++ kTypeString :: encodeStr input
  | binStr dst desc bin => encodeDst dst ++ kTypeBin :: (encodeStr desc ++ (be32 bin.length ++ bin))

/-- Ids and texts of at most 65535 bytes, a remaining length below `2 ^ 28`, and
at most 3 MB in the binary form. -/
def Admissible : Message → Prop
  | pushdata dst data => dst.strlen ≤ 65535 ∧ (2 + dst.strlen) + data.length < 2 ^ 28
  | simpleString dst input => (∀ d ∈ dst, d.strlen ≤ 65535) ∧ input.strlen ≤ 65535
  | binStr dst desc bin =>
    (∀ d ∈ dst, d.strlen ≤ 65535) ∧ desc.strlen ≤ 65535 ∧ bin.length ≤ 3 * 2 ^ 20

theorem length_encodeDst_le {dst : Option CString} (h : ∀ d ∈ dst, d.strlen ≤ 65535) :
    (encodeDst dst).length ≤ 65538 := by
  cases dst with
  | none => simp [encodeDst]
  | some d =>
    have hd := h d rfl
    rw [encodeDst, List.length_cons, length_encodeStr hd]
    omega

theorem length_body_lt {m : Message} (h : m.Admissible) : m.body.length < 2 ^ 28 := by
  cases m with
  | pushdata dst data =>
    obtain ⟨hdst, hlen⟩ := h
    rw [body, List.length_append, length_encodeStr hdst]
    exact hlen
  | simpleString dst input =>
    obtain ⟨hdst, hin⟩ := h
    have := length_encodeDst_le hdst
    rw [body, List.length_append, List.length_cons, length_encodeStr hin]
    omega
  | binStr dst desc bin =>
    obtain ⟨hdst, hdesc, hbin⟩ := h
    have := length_encodeDst_le hdst
    simp only [body, List.length_append, List.length_cons, length_encodeStr hdesc, length_be32]
    omega

/-- A sequence of writers behind a `SAVEDATA` header makes a frame, when the
header was given the length of what follows it. -/
theorem savedata_filled {dst : Option CString} (hdst : ∀ d ∈ dst, d.strlen ≤ 65535)
    {p : Proc Buffer Unit} {e : List UInt8} {n : Nat} (hn : n = e.length)
    (he : (encodeDst dst).length + e.length < 2 ^ 28)
    (hp : ∀ k, k < 2 ^ 20 → Appends p k e) :
    ∃ pkg, buildPacket (do savedataHeader dst n; p) = .ok pkg ∧
      Filled pkg (frame SAVEDATA (encodeDst dst ++ e)) := by
  have hdigits : (encodeRemainlen ((encodeDst dst).length + e.length)).length ≤ 4 :=
    length_lenDigits_le 3 _
  have hd := length_encodeDst_le hdst
  subst hn
  have hframe : frame SAVEDATA (encodeDst dst ++ e) =
      ([SAVEDATA] ++ (encodeRemainlen ((encodeDst dst).length + e.length) ++ encodeDst dst)) ++ e := by
    simp [frame]
  rw [hframe]
  refine buildPacket_appends ((appends_savedataHeader hdst he).andThen (hp _ ?_))
  simp only [List.length_append, List.length_singleton]
  omega

/-- **The builders make a frame around the body**, and the length they computed
beforehand is the length of the body. -/
theorem packet_filled {m : Message} (h : m.Admissible) :
    ∃ pkg, m.packet = .ok (some pkg) ∧ Filled pkg (frame m.mtype m.body) := by
  have hb := length_body_lt h
  cases m with
  | pushdata dst data =>
    obtain ⟨hdst, -⟩ := h
    have hs := length_encodeStr hdst
    have hlen : u32 ((2 + dst.strlen) + data.length) = (encodeStr dst ++ data).length := by
      rw [List.length_append, hs]
      rw [body, List.length_append, hs] at hb
      exact u32_of_lt (by omega)
    have hdigits : (encodeRemainlen (encodeStr dst ++ data).length).length ≤ 4 :=
      length_lenDigits_le 3 _
    rw [body, List.length_append] at hb
    have hw : Appends (do
        (writeByte PUSHDATA).void
        (writeRemainlen (encodeStr dst ++ data).length).void
        (writeStr dst).void
        (writeBytes data).void) 0 (frame PUSHDATA (encodeStr dst ++ data)) := by
      refine (appends_writeByte (n := 0) PUSHDATA (by omega)).andThen
        ((appends_writeRemainlen (by rw [List.length_append]; exact hb)).andThen
          ((appends_writeStr dst ?_).andThen (appends_writeBytes ?_)))
      · omega
      · omega
    obtain ⟨pkg, h1, hf⟩ := buildPacket_appends hw
    refine ⟨pkg, ?_, hf⟩
    rw [packet, packetPushdata, hlen, h1]
    rfl
  | simpleString dst input =>
    obtain ⟨hdst, hin⟩ := h
    have hs := length_encodeStr hin
    have hp : ∀ k, k < 2 ^ 20 →
        Appends (do (writeByte kTypeString).void; (writeStr input).void) k
          (kTypeString :: encodeStr input) := by
      intro k hk
      refine (appends_writeByte _ (by omega)).andThen (appends_writeStr input ?_)
      rw [hs, List.length_singleton]
      omega
    rw [body, List.length_append] at hb
    obtain ⟨pkg, h1, hf⟩ := savedata_filled hdst (n := 1 + (2 + input.strlen))
      (by rw [List.length_cons, hs]; omega) hb hp
    refine ⟨pkg, ?_, hf⟩
    rw [packet, packetSavedataSimpleString, h1]
    rfl
  | binStr dst desc bin =>
    obtain ⟨hdst, hdesc, hbin⟩ := h
    have hs := length_encodeStr hdesc
    have hp : ∀ k, k < 2 ^ 20 →
        Appends (do
          (writeByte kTypeBin).void
          (writeStr desc).void
          (writeUint32 bin.length).void
          (writeBytes bin).void) k
          (kTypeBin :: (encodeStr desc ++ (be32 bin.length ++ bin))) := by
      intro k hk
      refine (appends_writeByte _ (by omega)).andThen ((appends_writeStr desc ?_).andThen
        ((appends_writeUint32 _ ?_).andThen (appends_writeBytes ?_)))
      · rw [hs, List.length_singleton]; omega
      · rw [hs, List.length_singleton]; omega
      · rw [hs, List.length_singleton, length_be32]; omega
    rw [body, List.length_append] at hb
    obtain ⟨pkg, h1, hf⟩ := savedata_filled hdst
      (n := 1 + (2 + desc.strlen) + (4 + bin.length))
      (by simp only [List.length_cons, List.length_append, hs, length_be32]; omega) hb hp
    refine ⟨pkg, ?_, hf⟩
    rw [packet, packetSavedataBinStr, if_neg (by
      rw [show (0x01 : Nat) <<< 16 = 65536 from rfl, show (0x01 : Nat) <<< 20 = 2 ^ 20 from rfl]
      omega), h1]
    rfl

/-! ### Decoding -/

def setSrcDevid (obj : Option (List UInt8)) (w : Vars) : Vars := { w with srcDevid := obj }
def setJbFlag (flag : UInt8) (w : Vars) : Vars := { w with jbFlag := flag }
def setText (obj : List UInt8) (w : Vars) : Vars := { w with text := obj }
def setData (obj : List UInt8) (w : Vars) : Vars := { w with data := obj }
def setDataLen (n : Nat) (w : Vars) : Vars := { w with dataLen := n }

/-- The decoders a receiver calls for this form, behind `EdpPacketType`. -/
def unpack : Message → Proc (Buffer × Vars) Unit
  | pushdata _ _ => unpackPushdata (fun obj => setSrcDevid (some obj)) setData setDataLen
  | simpleString _ _ => do
    unpackSavedata setSrcDevid setJbFlag
    unpackSavedataSimpleString setText
  | binStr _ _ _ => do
    unpackSavedata setSrcDevid setJbFlag
    unpackSavedataBinStr setText setData setDataLen

/-- `EdpPacketType` followed by the decoders; the value is the message type. -/
def decode (m : Message) : Proc (Buffer × Vars) UInt8 := do
  let mtype ← edpPacketType.onFst
  m.unpack
  return mtype

/-- The object is a terminated string with the bytes of `s`. -/
def IsString (obj : List UInt8) (s : CString) : Prop := Terminated obj ∧ cstr obj = s.bytes

theorem isString_strncpy (s : CString) : IsString (strncpy s.bytes) s := by
  refine ⟨terminated_strncpy _, ?_⟩
  rw [cstr_strncpy, cstr_of_nulFree s.nulFree]

/-- The object in `*src_devid` is the id, and NULL when there was none. -/
def IsId : Option (List UInt8) → Option CString → Prop
  | some obj, some s => IsString obj s
  | none, none => True
  | _, _ => False

theorem isId_strncpy (dst : Option CString) :
    IsId ((dst.map CString.bytes).map strncpy) dst := by
  cases dst with
  | none => trivial
  | some d => exact isString_strncpy d

/-- The variables hold what the message was made of. -/
def Received : Message → Vars → Prop
  | pushdata dst data, w => IsId w.srcDevid (some dst) ∧ w.data = data ∧ w.dataLen = data.length
  | simpleString dst input, w =>
    IsId w.srcDevid dst ∧ w.jbFlag = kTypeString ∧ IsString w.text input
  | binStr dst desc bin, w =>
    IsId w.srcDevid dst ∧ w.jbFlag = kTypeBin ∧ IsString w.text desc ∧ w.data = bin ∧
      w.dataLen = bin.length

theorem takeSrc_encodeDst {dst : Option CString} (h : ∀ d ∈ dst, d.strlen ≤ 65535)
    (rest : List UInt8) : ∃ taFlag tl, encodeDst dst ++ rest = taFlag :: tl ∧
      takeSrc taFlag tl = some (dst.map CString.bytes, rest) := by
  cases dst with
  | none => exact ⟨0x00, rest, rfl, rfl⟩
  | some d =>
    refine ⟨0x80, encodeStr d ++ rest, rfl, ?_⟩
    rw [takeSrc, if_pos rfl, takeStr_encodeStr (h d rfl)]
    rfl

/-- **The decoders undo the body**, whatever the variables held before. -/
theorem unpack_done {m : Message} (h : m.Admissible) {pkg : Buffer} (ho : Opened pkg m.body)
    (w : Vars) : ∃ w', Done m.unpack pkg w () w' [] ∧ m.Received w' := by
  have hb := length_body_lt h
  cases m with
  | pushdata dst data =>
    have ht : takeStr (encodeStr dst ++ data) = some (dst.bytes, data) :=
      takeStr_encodeStr h.1 data
    exact ⟨_, unpackPushdata_done ho ht (lt_trans hb (by decide)) dst.nulFree w,
      isString_strncpy dst, rfl, rfl⟩
  | simpleString dst input =>
    obtain ⟨hdst, hin⟩ := h
    obtain ⟨taFlag, tl, he, ht⟩ := takeSrc_encodeDst hdst (kTypeString :: encodeStr input)
    rw [body, he] at ho
    have hstr : takeStr (encodeStr input) = some (input.bytes, []) := by
      simpa using takeStr_encodeStr hin []
    refine ⟨_, (unpackSavedata_done ho ht w).andThen fun pkg₁ pre₁ h₁ _ =>
      unpackSavedataSimpleString_done h₁ hstr _, ?_⟩
    exact ⟨isId_strncpy dst, rfl, isString_strncpy input⟩
  | binStr dst desc bin =>
    obtain ⟨hdst, hdesc, hbin⟩ := h
    obtain ⟨taFlag, tl, he, ht⟩ :=
      takeSrc_encodeDst hdst (kTypeBin :: (encodeStr desc ++ (be32 bin.length ++ bin)))
    rw [body, he] at ho
    have hstr := takeStr_encodeStr hdesc (be32 bin.length ++ bin)
    have h32 : takeU32 (be32 bin.length ++ bin) = some (bin.length, bin) :=
      takeU32_be32 (by omega) bin
    refine ⟨_, (unpackSavedata_done ho ht w).andThen fun pkg₁ pre₁ h₁ _ =>
      (unpackSavedataBinStr_step h₁ hstr _).andThen fun pkg₂ pre₂ h₂ _ =>
        (unpackBinData_step h₂ h32 _).andThen fun pkg₃ pre₃ h₃ _ =>
          lastBlock_done h₃ rfl _ _, ?_⟩
    exact ⟨isId_strncpy dst, rfl, isString_strncpy desc, rfl, rfl⟩

theorem length_frame_lt {t : UInt8} {body : List UInt8} (h : body.length < 2 ^ 28) :
    (frame t body).length < 2 ^ 31 := by
  have hdigits : (encodeRemainlen body.length).length ≤ 4 := length_lenDigits_le 3 _
  rw [frame, List.length_cons, List.length_append]
  omega

theorem decode_filled {m : Message} (h : m.Admissible) {p : Buffer}
    (hf : Filled p (frame m.mtype m.body)) (w : Vars) :
    ∃ q w', m.decode (p, w) = .ok (.ok m.mtype, (q, w')) ∧ m.Received w' ∧
      q.readPos = q.writePos ∧ q.writePos = p.writePos := by
  have hb := length_body_lt h
  obtain ⟨q₁, ht, ho, hw1⟩ := edpPacketType_opens hf (length_frame_lt hb) (isFrame_frame hb)
  obtain ⟨w', ⟨q, pre, hd, hr, hw⟩, hrec⟩ := unpack_done h ho w
  refine ⟨q, w', ?_, hrec, hr.at_end_iff.mpr rfl, hw.trans hw1⟩
  rw [decode, Proc.bind_ok (Proc.onFst_ok ht), Proc.bind_ok hd]
  rfl

end Message

/-- **The EDP codec round trip.**  For every admissible message the builder
returns a packet, `IsPkgComplete` on it returns its write position, and
`EdpPacketType` with the matching decoders returns the message type, fills in
what the message was made of, whatever the variables held before, and leaves the
cursor at the write position.  Builder and decoders return, so no assertion in
them fails. -/
theorem message_roundtrip (m : Message) (h : m.Admissible) (w : Vars) :
    ∃ p, m.packet = .ok (some p) ∧ isPkgComplete p = .ok (p.writePos : Int) ∧
      ∃ q w', m.decode (p, w) = .ok (.ok m.mtype, (q, w')) ∧ m.Received w' ∧
        q.readPos = q.writePos ∧ q.writePos = p.writePos := by
  have hb := Message.length_body_lt h
  obtain ⟨p, hp, hf⟩ := Message.packet_filled h
  refine ⟨p, hp, ?_, Message.decode_filled h hf w⟩
  have hl := frameLen_frame (t := m.mtype) hb []
  rw [List.append_nil] at hl
  rw [isPkgComplete_eq (hf.received (Message.length_frame_lt hb)), hl, hf.writePos]

/-- A device id "ab" with the description "d" and a payload that contains NULs. -/
def sampleMessage : Message :=
  .binStr (some ⟨[0x61, 0x62], by decide⟩) ⟨[0x64], by decide⟩ [0, 255, 0]

theorem message_roundtrip_sample :
    sampleMessage.Admissible ∧
      ∃ p, sampleMessage.packet = .ok (some p) ∧ isPkgComplete p = .ok (p.writePos : Int) ∧
        ∃ q w', sampleMessage.decode (p, ⟨none, 0, [], [], 0⟩) =
            .ok (.ok sampleMessage.mtype, (q, w')) ∧ sampleMessage.Received w' ∧
          q.readPos = q.writePos ∧ q.writePos = p.writePos := by
  have h : sampleMessage.Admissible := by
    refine ⟨?_, by decide, by decide⟩
    intro d hd
    cases hd
    decide
  exact ⟨h, message_roundtrip sampleMessage h _⟩

end Nl6621.Edp
