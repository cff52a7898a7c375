import Nl6621.Edp.CJson
import Nl6621.Edp.RoundTrip
import Nl6621.Edp.Savedata

/-!
# The argument check of the binary upload

`PacketSavedataBinStr` and `PacketSavedataBin` refuse a description of more than `2 ^ 16` bytes and
a binary of more than 3 MB.  The length of the description is then written in 16 bits.  A
description of just `2 ^ 16` bytes passes the check and is written as an empty one, while the
remaining length, computed before, still counts its bytes.

`savedataBin_exact_iff` says that this one length is all that is wrong with the check.
-/

namespace Nl6621.Edp

open Lib Message

/-! ### The function of the source -/

/-- The writers of both builders. -/
def savedataBinBody (dstDevid : Option CString) (desc : CString) (binData : List UInt8) :
    Proc Buffer Unit := do
  savedataHeader dstDevid (1 + (2 + desc.strlen) + (4 + binData.length))
  (writeByte kTypeBin).void
  (writeStr desc).void
  (writeUint32 binData.length).void
  (writeBytes binData).void

def keyDsId : CString := ⟨[0x64, 0x73, 0x5f, 0x69, 0x64], by decide⟩

/-- `cJSON_Print` returns NULL for an object it cannot print. -/
def packetSavedataBin (cJSON_Print : CJson → Option CString) (dstDevid : Option CString)
    (descObj : CJson) (binData : List UInt8) : Outcome (Option Buffer) :=
  match cJSON_Print descObj with
  | none => .fault
  | some descOut =>
    if descOut.strlen > 0x01 <<< 16 ∨ binData.length > 3 * (0x01 <<< 20) then .ok none
    else do
      let dsId ← descObj.getObjectItem keyDsId
      if dsId = .null then .ok none
      else do
        let pkg ← buildPacket (savedataBinBody dstDevid descOut binData)
        .ok (some pkg)

/-! ### What the check is for -/

/-- The remaining length that the packet declares is the number of bytes behind the length field. -/
def LengthExact (pkg : Buffer) : Prop :=
  ∃ mtype pkg₁ remainlen pkg₂, readByte pkg = .ok (.ok mtype, pkg₁) ∧
    readRemainlen pkg₁ = .ok (.ok remainlen, pkg₂) ∧ remainlen = pkg₂.writePos - pkg₂.readPos

/-- The packet declares its length and gives the message back. -/
structure Carries (m : Message) (pkg : Buffer) : Prop where
  length : LengthExact pkg
  decodes : ∀ w, ∃ q w', m.decode (pkg, w) = .ok (.ok m.mtype, (q, w')) ∧ m.Received w'

/-- The builder returns.  What it returns carries the message, and if no packet can, it is 0. -/
structure ExactCheck (packet : Outcome (Option Buffer)) (m : Message) : Prop where
  returns : packet.Returns
  carried : ∀ pkg, packet = .ok (some pkg) → Carries m pkg
  rejected : (∀ pkg, ¬Carries m pkg) → packet = .ok none

/-- The description that the check lets through and `WriteStr` cuts. -/
def AtLimit (desc : CString) (binData : List UInt8) : Prop :=
  desc.strlen = 65536 ∧ binData.length ≤ 3 * 2 ^ 20

theorem exactCheck_none (m : Message) : ExactCheck (.ok none) m where
  returns := Outcome.returns_ok none
  carried := by
    intro pkg h
    cases h
  rejected := fun _ => rfl

theorem exactCheck_some {m : Message} {pkg : Buffer} (h : Carries m pkg) :
    ExactCheck (.ok (some pkg)) m where
  returns := Outcome.returns_ok _
  carried := by
    intro pkg' he
    cases he
    exact h
  rejected := fun hno => absurd h (hno pkg)

/-! ### The packet -/

theorem lengthExact_iff {pkg : Buffer} {t : UInt8} {v : Nat} {body : List UInt8}
    (hf : Filled pkg (t :: (encodeRemainlen v ++ body))) (hv : v < 2 ^ 28)
    (hlen : (t :: (encodeRemainlen v ++ body)).length < 2 ^ 31) :
    LengthExact pkg ↔ v = body.length := by
  obtain ⟨pkg₁, pre₁, h1, hr1, -⟩ := readByte_takes (reading_of_filled hf hlen)
  have hd := decodeLen_lenDigits 3 v hv body
  obtain ⟨pkg₂, pre₂, h2, hr2, -⟩ := readRemainlen_takes hr1 hd
  have hrest : pkg₂.writePos - pkg₂.readPos = body.length := by
    rw [hr2.writePos, hr2.readPos, Nat.add_sub_cancel_left]
  constructor
  · rintro ⟨t', p₁, n, p₂, he1, he2, hn⟩
    rw [h1] at he1
    cases he1
    rw [h2] at he2
    cases he2
    rw [hn, hrest]
  · intro h
    exact ⟨t, pkg₁, v, pkg₂, h1, h2, h.trans hrest.symm⟩

section

variable {dst : Option CString} {desc : CString} {bin : List UInt8}

theorem packetSavedataBinStr_refused
    (h : desc.strlen > 0x01 <<< 16 ∨ bin.length > 3 * (0x01 <<< 20)) :
    packetSavedataBinStr dst desc bin = .ok none := by
  rw [packetSavedataBinStr, if_pos h]

theorem packetSavedataBinStr_taken
    (h : ¬(desc.strlen > 0x01 <<< 16 ∨ bin.length > 3 * (0x01 <<< 20))) :
    packetSavedataBinStr dst desc bin =
      buildPacket (savedataBinBody dst desc bin) >>= fun pkg => .ok (some pkg) := by
  rw [packetSavedataBinStr, if_neg h]
  rfl

/-- **A description with a `ds_id` is packed like its printed text.** -/
theorem packetSavedataBin_eq {cJSON_Print : CJson → Option CString} {descObj dsId : CJson}
    (hprint : cJSON_Print descObj = some desc) (hget : descObj.getObjectItem keyDsId = .ok dsId) :
    packetSavedataBin cJSON_Print dst descObj bin =
      if dsId = .null then .ok none else packetSavedataBinStr dst desc bin := by
  simp only [packetSavedataBin, hprint, hget, Outcome.ok_bind]
  by_cases h : desc.strlen > 0x01 <<< 16 ∨ bin.length > 3 * (0x01 <<< 20)
  · rw [if_pos h, packetSavedataBinStr_refused h, ite_self]
  · rw [if_neg h, packetSavedataBinStr_taken h]

theorem savedataRemainlen_eq (hdst : ∀ d ∈ dst, d.strlen ≤ 65535) {n : Nat} (hn : n < 2 ^ 27) :
    savedataRemainlen dst n = (encodeDst dst).length + n := by
  cases dst with
  | none => exact u32_of_lt (by omega)
  | some d =>
    have hd := hdst d rfl
    rw [savedataRemainlen, encodeDst, List.length_cons, length_encodeStr hd, u32_of_lt (by omega)]
    omega

theorem savedataBin_carries (hdst : ∀ d ∈ dst, d.strlen ≤ 65535) (hdesc : desc.strlen ≤ 65535)
    (hbin : bin.length ≤ 3 * 2 ^ 20) :
    ∃ pkg, packetSavedataBinStr dst desc bin = .ok (some pkg) ∧
      Carries (.binStr dst desc bin) pkg := by
  have ha : (Message.binStr dst desc bin).Admissible := ⟨hdst, hdesc, hbin⟩
  have hb := length_body_lt ha
  obtain ⟨pkg, hp, hf⟩ := packet_filled ha
  refine ⟨pkg, hp, (lengthExact_iff hf hb (length_frame_lt hb)).mpr rfl, ?_⟩
  intro w
  obtain ⟨q, w', hd, hr, -, -⟩ := decode_filled ha hf w
  exact ⟨q, w', hd, hr⟩

/-- **A description of `2 ^ 16` bytes** is not in the packet, but is counted. -/
theorem savedataBin_cut (hdst : ∀ d ∈ dst, d.strlen ≤ 65535) (h : AtLimit desc bin) :
    ∃ pkg, packetSavedataBinStr dst desc bin = .ok (some pkg) ∧ ¬LengthExact pkg := by
  obtain ⟨hdesc, hbin⟩ := h
  have hd := length_encodeDst_le hdst
  have hs : (encodeStr desc).length = 2 := by
    rw [encodeStr, List.length_append, length_be16, List.length_take, hdesc]
    rfl
  have hv := savedataRemainlen_eq hdst (n := 1 + (2 + desc.strlen) + (4 + bin.length)) (by omega)
  have hfit : savedataRemainlen dst (1 + (2 + desc.strlen) + (4 + bin.length)) < 2 ^ 28 := by omega
  have hdigits := length_lenDigits_le 3
    (savedataRemainlen dst (1 + (2 + desc.strlen) + (4 + bin.length)))
  have hw : Appends (savedataBinBody dst desc bin) 0
      (([SAVEDATA] ++ (encodeRemainlen (savedataRemainlen dst (1 + (2 + desc.strlen) +
        (4 + bin.length))) ++ encodeDst dst)) ++
          ([kTypeBin] ++ (encodeStr desc ++ (be32 bin.length ++ bin)))) := by
    refine (appends_savedataHeader_mod hfit).andThen ((appends_writeByte _ ?_).andThen
      ((appends_writeStr desc ?_).andThen ((appends_writeUint32 _ ?_).andThen
        (appends_writeBytes ?_))))
    all_goals
      simp only [List.length_append, List.length_singleton, encodeRemainlen, hs, length_be32]
      omega
  obtain ⟨pkg, hp, hf⟩ := buildPacket_appends hw
  refine ⟨pkg, ?_, ?_⟩
  · rw [packetSavedataBinStr_taken (by
      rw [show (0x01 : Nat) <<< 16 = 65536 from rfl, show (0x01 : Nat) <<< 20 = 2 ^ 20 from rfl]
      omega), hp, Outcome.ok_bind]
  · rw [List.append_assoc, List.append_assoc, List.singleton_append] at hf
    rw [lengthExact_iff hf hfit, hv]
    · simp only [List.length_append, List.length_singleton, hs, length_be32]
      omega
    · simp only [List.length_append, List.length_cons, List.length_nil, encodeRemainlen, hs,
        length_be32]
      omega

theorem not_exactCheck {pkg : Buffer} {packet : Outcome (Option Buffer)} {m : Message}
    (h : packet = .ok (some pkg)) (hlen : ¬LengthExact pkg) : ¬ExactCheck packet m :=
  fun hexact => hlen (hexact.carried pkg h).length

theorem packetSavedataBinStr_exact_iff (hdst : ∀ d ∈ dst, d.strlen ≤ 65535) :
    ExactCheck (packetSavedataBinStr dst desc bin) (.binStr dst desc bin) ↔ ¬AtLimit desc bin := by
  constructor
  · intro h hlimit
    obtain ⟨pkg, hp, hlen⟩ := savedataBin_cut hdst hlimit
    exact not_exactCheck hp hlen h
  · intro hlimit
    by_cases href : desc.strlen > 0x01 <<< 16 ∨ bin.length > 3 * (0x01 <<< 20)
    · rw [packetSavedataBinStr_refused href]
      exact exactCheck_none _
    · rw [show (0x01 : Nat) <<< 16 = 65536 from rfl,
        show (0x01 : Nat) <<< 20 = 2 ^ 20 from rfl] at href
      have hbin : bin.length ≤ 3 * 2 ^ 20 := by omega
      have hne : desc.strlen ≠ 65536 := fun he => hlimit ⟨he, hbin⟩
      have hdesc : desc.strlen ≤ 65535 := by omega
      obtain ⟨pkg, hp, hc⟩ := savedataBin_carries hdst hdesc hbin
      rw [hp]
      exact exactCheck_some hc

end

theorem getObjectItem_ok {obj : CJson} (h : obj ≠ .null) (name : CString) :
    ∃ it, obj.getObjectItem name = .ok it := by
  cases obj with
  | null => exact absurd rfl h
  | item next child type vs vi string => exact ⟨_, rfl⟩

/-- **When the argument check of the binary upload is exact**: always, but for a description of
`2 ^ 16` bytes that is not refused for the binary or a missing `ds_id`. -/
theorem savedataBin_exact_iff {dst : Option CString} (hdst : ∀ d ∈ dst, d.strlen ≤ 65535)
    (desc : CString) (bin : List UInt8) :
    (ExactCheck (packetSavedataBinStr dst desc bin) (.binStr dst desc bin) ↔ ¬AtLimit desc bin) ∧
      ∀ (cJSON_Print : CJson → Option CString) (descObj : CJson),
        cJSON_Print descObj = some desc → descObj ≠ .null →
          (ExactCheck (packetSavedataBin cJSON_Print dst descObj bin) (.binStr dst desc bin) ↔
            ¬(AtLimit desc bin ∧ descObj.getObjectItem keyDsId ≠ .ok .null)) := by
  refine ⟨packetSavedataBinStr_exact_iff hdst, ?_⟩
  intro cJSON_Print descObj hprint hobj
  obtain ⟨dsId, hget⟩ := getObjectItem_ok hobj keyDsId
  rw [packetSavedataBin_eq hprint hget, hget]
  by_cases hnull : dsId = .null
  · rw [if_pos hnull, hnull]
    exact iff_of_true (exactCheck_none _) fun h => h.2 rfl
  · rw [if_neg hnull, packetSavedataBinStr_exact_iff hdst]
    have hne : Outcome.ok dsId ≠ .ok .null := fun he => hnull (Outcome.ok.inj he)
    exact not_congr (and_iff_left hne).symm

/-- The id `t` of a data stream as a description, and how it is printed. -/
def descObject : CJson :=
  .item .null (.item .null .null cJSON_String (some idT) 0 (.ofInt 0) (some keyDsId)) cJSON_Object
    none 0 (.ofInt 0) none

def descText : CString := ⟨
  [0x7b, 0x0a, 0x09, 0x22, 0x64, 0x73, 0x5f, 0x69, 0x64, 0x22, 0x3a, 0x09, 0x22, 0x74, 0x22, 0x0a,
    0x7d],
  by decide⟩

theorem noDst_short : ∀ d ∈ (none : Option CString), d.strlen ≤ 65535 := by
  intro d hd
  cases hd

theorem savedataBin_exact_iff_desc :
    (ExactCheck (packetSavedataBinStr none descText [0x01]) (.binStr none descText [0x01]) ↔
        ¬AtLimit descText [0x01]) ∧
      (ExactCheck (packetSavedataBin (fun _ => some descText) none descObject [0x01])
          (.binStr none descText [0x01]) ↔
        ¬(AtLimit descText [0x01] ∧ descObject.getObjectItem keyDsId ≠ .ok .null)) := by
  obtain ⟨hstr, hobj⟩ := savedataBin_exact_iff noDst_short descText [0x01]
  exact ⟨hstr, hobj (fun _ => some descText) descObject rfl (fun h => by cases h)⟩

/-- `2 ^ 16` times the letter `a`. -/
def longDesc : CString where
  bytes := List.replicate 65536 0x61
  nulFree := fun h => by cases List.eq_of_mem_replicate h

/-- A packet is returned for it, and its length is wrong. -/
theorem savedataBin_unchecked :
    ¬ExactCheck (packetSavedataBinStr none longDesc [0x01]) (.binStr none longDesc [0x01]) := by
  have hlimit : AtLimit longDesc [0x01] := ⟨List.length_replicate, by decide⟩
  obtain ⟨pkg, hp, hlen⟩ := savedataBin_cut noDst_short hlimit
  exact not_exactCheck hp hlen

end Nl6621.Edp
