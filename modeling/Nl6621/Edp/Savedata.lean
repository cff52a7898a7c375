import Nl6621.Edp.CJson
import Nl6621.Edp.RoundTrip

/-!
# Data points read back

The macros of `EdpKit.c` make a packet of one data point in one of three JSON forms, and take it
apart again.  The JSON text is the business of the library: it is assumed to parse what it has
printed.

`savedata_roundtrip_iff` says when id and value come back.  For the two simple forms they always do
when the remaining length has room in its four digits.  The decoder of the full form looks for the
data streams in `json_obj` before it has parsed anything, so that what it finds is up to what the
stack holds; parsed first, the object would have shown everything (`object_showsFull`).
-/

namespace Nl6621.Edp

open Lib Message

variable {α β : Type}

/-! ### The functions of the source -/

/-- What the instances of a macro differ in: `cJSON_Create##MED` and how the value is taken out of
its item. -/
structure Med (α β : Type) where
  create : α → CJson
  take : CJson → Outcome β

def medInt : Med Int32 Int32 := ⟨CJson.createNumber, CJson.getValueint⟩

def medString : Med CString (List UInt8) :=
  ⟨CJson.createString, fun it => it.getValuestring.bind strdup⟩

def keyToken : CString := ⟨[0x74, 0x6f, 0x6b, 0x65, 0x6e], by decide⟩

def keyId : CString := ⟨[0x69, 0x64], by decide⟩

def keyAt : CString := ⟨[0x61, 0x74], by decide⟩

def keyValue : CString := ⟨[0x76, 0x61, 0x6c, 0x75, 0x65], by decide⟩

def keyDatapoints : CString :=
  ⟨[0x64, 0x61, 0x74, 0x61, 0x70, 0x6f, 0x69, 0x6e, 0x74, 0x73], by decide⟩

def keyDatastreams : CString :=
  ⟨[0x64, 0x61, 0x74, 0x61, 0x73, 0x74, 0x72, 0x65, 0x61, 0x6d, 0x73], by decide⟩

/-- What `ctime` returns: `"Www Mmm dd hh:mm:ss yyyy\n"`. -/
structure Ctime where
  text : CString
  strlen_eq : text.strlen = 25

/-- What is in the buffer of `len` bytes then.  The time that is passed is not used. -/
def formatAt (len : Nat) (ctime : Ctime) : Outcome CString :=
  if ctime.text.strlen < len then .ok ctime.text else .fault

/-- `if(token) cJSON_AddStringToObject(json_obj, "token", token);` -/
def addToken (jsonObj : CJson) : Option CString → Outcome CJson
  | none => .ok jsonObj
  | some token => jsonObj.addStringToObject keyToken token

/-- The object of `PacketSavedataType1##NAME`. -/
def objectType1 (m : Med α β) (ctime : Ctime) (dsId : CString) (value : α)
    (token : Option CString) : Outcome CJson := do
  let jsonObjDs ← CJson.createObject.addStringToObject keyId dsId
  let jsonObj ← addToken CJson.createObject token
  let ss ← formatAt 100 ctime
  let dpItem ← CJson.createObject.addStringToObject keyAt ss
  let dpItem ← dpItem.addItemToObject keyValue (m.create value)
  let dpArray ← CJson.createArray.addItemToArray dpItem
  let jsonObjDs ← jsonObjDs.addItemToObject keyDatapoints dpArray
  let dsArray ← CJson.createArray.addItemToArray jsonObjDs
  jsonObj.addItemToObject keyDatastreams dsArray

/-- The object of `PacketSavedataType2##NAME`. -/
def objectType2 (m : Med α β) (dsId : CString) (value : α) : Outcome CJson :=
  CJson.createObject.addItemToObject dsId (m.create value)

/-- The object of `PacketSavedataType3##NAME`. -/
def objectType3 (m : Med α β) (ctime : Ctime) (dsId : CString) (value : α) : Outcome CJson := do
  let ss ← formatAt 100 ctime
  let jsonObjDs ← CJson.createObject.addItemToObject ss (m.create value)
  CJson.createObject.addItemToObject dsId jsonObjDs

section

variable (cJSON_Print : CJson → CString)

def packetSavedataJson (dstDevid : Option CString) (jsonObj : CJson) (type : UInt8) :
    Outcome Buffer :=
  let jsonOut := cJSON_Print jsonObj
  buildPacket do
    savedataHeader dstDevid (1 + (2 + jsonOut.strlen))
    (writeByte type).void
    (writeStr jsonOut).void

/-- `MKFUN_PACKET_SAVE_DATA` -/
def packetSavedata (m : Med α β) (type : UInt8) (dstDevid : Option CString) (dsId : CString)
    (value : α) (ctime : Ctime) (token : Option CString) : Outcome (Option Buffer) :=
  if type = kTypeFullJson then do
    let jsonObj ← objectType1 m ctime dsId value token
    let pkg ← packetSavedataJson cJSON_Print dstDevid jsonObj kTypeFullJson
    .ok (some pkg)
  else if type = kTypeSimpleJsonWithoutTime then do
    let jsonObj ← objectType2 m dsId value
    let pkg ← packetSavedataJson cJSON_Print dstDevid jsonObj kTypeSimpleJsonWithoutTime
    .ok (some pkg)
  else if type = kTypeSimpleJsonWithTime then do
    let jsonObj ← objectType3 m ctime dsId value
    let pkg ← packetSavedataJson cJSON_Print dstDevid jsonObj kTypeSimpleJsonWithTime
    .ok (some pkg)
  else .ok none

def packetSavedataInt := packetSavedata cJSON_Print medInt

def packetSavedataString := packetSavedata cJSON_Print medString

end

/-- The variables of a receiver, and `json_obj`, which is on the stack of the decoder and holds
anything before it is assigned. -/
structure SavedataVars (β : Type) where
  srcDevid : Option (List UInt8)
  jbFlag : UInt8
  jsonObj : CJson
  dsId : List UInt8
  value : β

namespace SavedataVars

def setSrcDevid (obj : Option (List UInt8)) (w : SavedataVars β) : SavedataVars β :=
  { w with srcDevid := obj }

def setJbFlag (flag : UInt8) (w : SavedataVars β) : SavedataVars β := { w with jbFlag := flag }

def setJsonObj (obj : Option CJson) (w : SavedataVars β) : SavedataVars β :=
  { w with jsonObj := obj.getD .null }

def setDsId (obj : List UInt8) (w : SavedataVars β) : SavedataVars β := { w with dsId := obj }

def setValue (v : β) (w : SavedataVars β) : SavedataVars β := { w with value := v }

end SavedataVars

/-- `if(..) return ERR_UNPACK_SAVED_JSON;` -/
def refuseIf (c : Bool) : Proc (Buffer × SavedataVars β) Unit :=
  if c then Proc.ret ERR_UNPACK_SAVED_JSON else pure ()

/-- `(0 == array) || (1 != cJSON_GetArraySize(array))` -/
def notOne (array : CJson) : Outcome Bool :=
  if array = .null then .ok true else array.getArraySize.bind fun n => .ok (decide (1 ≠ n))

section

variable (cJSON_Parse : List UInt8 → Option CJson)

/-- `if(0 != UnpackSavedataJson(pkg, &json_obj)) return ERR_UNPACK_SAVED_JSON;` -/
def unpackJsonObj : Proc (Buffer × SavedataVars β) Unit :=
  (unpackSavedataJson cJSON_Parse SavedataVars.setJsonObj).orReturn ERR_UNPACK_SAVED_JSON

/-- `UnpackSavedataType1##NAME` behind the parsing. -/
def takeType1 (m : Med α β) (dsArray dsItem : CJson) : Proc (Buffer × SavedataVars β) Unit := do
  let dsBad ← Proc.lift (notOne dsArray)
  refuseIf dsBad
  refuseIf (decide (dsItem = .null))
  let idItem ← Proc.lift (dsItem.getObjectItem keyId)
  let id ← Proc.lift (idItem.getValuestring.bind strdup)
  assign (SavedataVars.setDsId id)
  let dpArray ← Proc.lift (dsItem.getObjectItem keyDatapoints)
  let dpBad ← Proc.lift (notOne dpArray)
  refuseIf dpBad
  let dpItem ← Proc.lift (dpArray.getArrayItem 0)
  let valueItem ← Proc.lift (dpItem.getObjectItem keyValue)
  let v ← Proc.lift (m.take valueItem)
  assign (SavedataVars.setValue v)

def unpackSavedataType1 (m : Med α β) : Proc (Buffer × SavedataVars β) Unit := do
  -- `json_obj` has not been assigned here
  let s ← Proc.get
  let dsArray ← Proc.lift (s.2.jsonObj.getObjectItem keyDatastreams)
  let dsItem ← Proc.lift (dsArray.getArrayItem 0)
  unpackJsonObj cJSON_Parse
  takeType1 m dsArray dsItem

def unpackSavedataType2 (m : Med α β) : Proc (Buffer × SavedataVars β) Unit := do
  unpackJsonObj cJSON_Parse
  let s ← Proc.get
  let jsonChild ← Proc.lift s.2.jsonObj.getChild
  refuseIf (decide (jsonChild = .null))
  let id ← Proc.lift (jsonChild.getString.bind strdup)
  assign (SavedataVars.setDsId id)
  let v ← Proc.lift (m.take jsonChild)
  assign (SavedataVars.setValue v)

def unpackSavedataType3 (m : Med α β) : Proc (Buffer × SavedataVars β) Unit := do
  unpackJsonObj cJSON_Parse
  let s ← Proc.get
  let jsonChild ← Proc.lift s.2.jsonObj.getChild
  refuseIf (decide (jsonChild = .null))
  let string ← Proc.lift jsonChild.getString
  refuseIf string.isNone
  let id ← Proc.lift (strdup string)
  assign (SavedataVars.setDsId id)
  let jsonChild ← Proc.lift jsonChild.getChild
  refuseIf (decide (jsonChild = .null))
  let v ← Proc.lift (m.take jsonChild)
  assign (SavedataVars.setValue v)

/-- `MKFUN_UNPACK_SAVE_DATA` -/
def unpackSavedataAs (m : Med α β) (type : UInt8) : Proc (Buffer × SavedataVars β) Unit :=
  if type = kTypeFullJson then unpackSavedataType1 cJSON_Parse m
  else if type = kTypeSimpleJsonWithoutTime then unpackSavedataType2 cJSON_Parse m
  else if type = kTypeSimpleJsonWithTime then unpackSavedataType3 cJSON_Parse m
  else Proc.ret (-1)

def unpackSavedataInt := unpackSavedataAs cJSON_Parse medInt

def unpackSavedataString := unpackSavedataAs cJSON_Parse medString

end

/-! ### Round trips -/

inductive Form where
  | full | simple | simpleWithTime
deriving DecidableEq, Repr

namespace Form

def type : Form → UInt8
  | full => kTypeFullJson
  | simple => kTypeSimpleJsonWithoutTime
  | simpleWithTime => kTypeSimpleJsonWithTime

def object (m : Med α β) (ctime : Ctime) (dsId : CString) (value : α) (token : Option CString) :
    Form → Outcome CJson
  | full => objectType1 m ctime dsId value token
  | simple => objectType2 m dsId value
  | simpleWithTime => objectType3 m ctime dsId value

end Form

/-- `EdpPacketType`, `UnpackSavedata` and, with the type it has found, the decoder of the value. -/
def decodeSavedata (unpack : UInt8 → Proc (Buffer × SavedataVars β) Unit) :
    Proc (Buffer × SavedataVars β) Unit := do
  let _ ← edpPacketType.onFst
  unpackSavedata SavedataVars.setSrcDevid SavedataVars.setJbFlag
  let s ← Proc.get
  unpack s.2.jbFlag

/-- The decoder returns 0 and leaves the id and a value that `ok` accepts. -/
def Recovers (D : Proc (Buffer × SavedataVars β) Unit) (pkg : Buffer) (w : SavedataVars β)
    (dsId : CString) (ok : β → Prop) : Prop :=
  ∃ q w', D (pkg, w) = .ok (.ok (), (q, w')) ∧ IsString w'.dsId dsId ∧ ok w'.value

/-- A packet is built, and taken apart it gives the id and the value. -/
def RoundTrips (packet : Outcome (Option Buffer))
    (unpack : UInt8 → Proc (Buffer × SavedataVars β) Unit) (w : SavedataVars β) (dsId : CString)
    (ok : β → Prop) : Prop :=
  ∃ pkg, packet = .ok (some pkg) ∧ Recovers (decodeSavedata unpack) pkg w dsId ok

/-- The items that the decoder of the full form asks for are there, with the id and a value that
`ok` accepts. -/
def ShowsFull (m : Med α β) (obj : CJson) (dsId : CString) (ok : β → Prop) : Prop :=
  ∃ dsArray dsItem idItem dpArray dpItem valueItem v,
    obj.getObjectItem keyDatastreams = .ok dsArray ∧
      dsArray.getArraySize = .ok 1 ∧ dsArray.getArrayItem 0 = .ok dsItem ∧
      dsItem.getObjectItem keyId = .ok idItem ∧ idItem.getValuestring = .ok (some dsId) ∧
      dsItem.getObjectItem keyDatapoints = .ok dpArray ∧
      dpArray.getArraySize = .ok 1 ∧ dpArray.getArrayItem 0 = .ok dpItem ∧
      dpItem.getObjectItem keyValue = .ok valueItem ∧ m.take valueItem = .ok v ∧ ok v

/-! ### The packet -/

theorem takeSrc_encodeDst_mod (dst : Option CString) (rest : List UInt8) :
    ∃ taFlag tl id, encodeDst dst ++ rest = taFlag :: tl ∧ takeSrc taFlag tl = some (id, rest) := by
  cases dst with
  | none => exact ⟨0x00, rest, none, rfl, rfl⟩
  | some d =>
    refine ⟨0x80, encodeStr d ++ rest, some (d.bytes.take (d.strlen % 2 ^ 16)), rfl, ?_⟩
    rw [takeSrc, if_pos rfl, takeStr_encodeStr_mod]
    rfl

/-- The bytes of the packet. -/
def savedataBytes (dst : Option CString) (type : UInt8) (json : CString) : List UInt8 :=
  [SAVEDATA] ++
    (encodeRemainlen (savedataRemainlen dst (1 + (2 + json.strlen))) ++ encodeDst dst) ++
    type :: encodeStr json

theorem length_savedataBytes_lt (dst : Option CString) (type : UInt8) (json : CString) :
    (savedataBytes dst type json).length < 2 ^ 31 := by
  have hdigits : (encodeRemainlen (savedataRemainlen dst (1 + (2 + json.strlen)))).length ≤ 4 :=
    length_lenDigits_le 3 _
  have hjson := length_encodeStr_le json
  have hdst : (encodeDst dst).length ≤ 65538 := by
    cases dst with
    | none => exact (by decide : 1 ≤ 65538)
    | some d =>
      have hd := length_encodeStr_le d
      rw [encodeDst, List.length_cons]
      omega
  simp only [savedataBytes, List.length_append, List.length_cons, List.length_nil]
  omega

theorem packetSavedataJson_filled {cJSON_Print : CJson → CString} {dst : Option CString}
    {obj : CJson} (type : UInt8)
    (h : savedataRemainlen dst (1 + (2 + (cJSON_Print obj).strlen)) < 2 ^ 28) :
    ∃ pkg, packetSavedataJson cJSON_Print dst obj type = .ok pkg ∧
      Filled pkg (savedataBytes dst type (cJSON_Print obj)) := by
  have hlen := length_savedataBytes_lt dst type (cJSON_Print obj)
  rw [savedataBytes, List.length_append, List.length_cons] at hlen
  refine buildPacket_appends ((appends_savedataHeader_mod h).andThen
    (Appends.andThen (e := [type]) (appends_writeByte type ?_) (appends_writeStr _ ?_)))
  · omega
  · rw [List.length_singleton]
    omega

theorem packetSavedata_eq {cJSON_Print : CJson → CString} {m : Med α β} {ctime : Ctime}
    {dst : Option CString} {dsId : CString} {value : α} {token : Option CString} {form : Form}
    {obj : CJson} (hobj : form.object m ctime dsId value token = .ok obj) :
    packetSavedata cJSON_Print m form.type dst dsId value ctime token =
      packetSavedataJson cJSON_Print dst obj form.type >>= fun pkg => .ok (some pkg) := by
  cases form with
  | full =>
    have h : objectType1 m ctime dsId value token = .ok obj := hobj
    rw [packetSavedata, Form.type, if_pos rfl, h, Outcome.ok_bind]
  | simple =>
    have h : objectType2 m dsId value = .ok obj := hobj
    rw [packetSavedata, Form.type, if_neg (by decide), if_pos rfl, h, Outcome.ok_bind]
  | simpleWithTime =>
    have h : objectType3 m ctime dsId value = .ok obj := hobj
    rw [packetSavedata, Form.type, if_neg (by decide), if_neg (by decide), if_pos rfl, h,
      Outcome.ok_bind]

/-! ### The decoders -/

/-- The decoder of the value is left with the JSON text. -/
theorem decodeSavedata_becomes {pkg : Buffer} {dst : Option CString} {type : UInt8}
    {json : CString} (hf : Filled pkg (savedataBytes dst type json))
    (hlen : savedataRemainlen dst (1 + (2 + json.strlen)) < 2 ^ 28)
    (unpack : UInt8 → Proc (Buffer × SavedataVars β) Unit) (w : SavedataVars β) :
    ∃ w', Becomes (decodeSavedata unpack) pkg w (unpack type) w' (encodeStr json) ∧
      w'.jsonObj = w.jsonObj := by
  obtain ⟨taFlag, tl, id, he, ht⟩ := takeSrc_encodeDst_mod dst (type :: encodeStr json)
  have hread := reading_of_filled hf (length_savedataBytes_lt dst type json)
  rw [savedataBytes, List.append_assoc, List.append_assoc, he, List.singleton_append] at hread
  obtain ⟨pkg₁, pre₁, h1, hr1, hw1⟩ := readByte_takes hread
  have hd := decodeLen_lenDigits 3 (savedataRemainlen dst (1 + (2 + json.strlen))) hlen
    (taFlag :: tl)
  have hdone : Done (unpackSavedata SavedataVars.setSrcDevid SavedataVars.setJbFlag) pkg₁ w ()
      ((w.setSrcDevid (id.map strncpy)).setJbFlag type) (encodeStr json) :=
    unpackSavedata_reads hr1 hd ht w
  obtain ⟨pkg₂, pre₂, h2, hr2, hw2⟩ := hdone
  refine ⟨(w.setSrcDevid (id.map strncpy)).setJbFlag type, ⟨pkg₂, pre₂, ?_, hr2, hw2.trans hw1⟩, rfl⟩
  have htype : edpPacketType.onFst (pkg, w) = .ok (.ok SAVEDATA, (pkg₁, w)) :=
    Proc.onFst_ok (Proc.orDefault_ok h1)
  rw [decodeSavedata, Proc.bind_ok htype, Proc.bind_ok h2]
  rfl

section

variable {cJSON_Parse : List UInt8 → Option CJson} {pkg : Buffer} {pre : List UInt8}
variable {json : CString} {obj : CJson}

theorem unpackJsonObj_done (h : Reading pkg pre (encodeStr json)) (hlen : json.strlen ≤ 65535)
    (hparse : cJSON_Parse json.bytes = some obj) (w : SavedataVars β) :
    Done (unpackJsonObj cJSON_Parse) pkg w () (w.setJsonObj (some obj)) [] := by
  have ht : takeStr (encodeStr json) = some (json.bytes, []) := by
    have happend := takeStr_encodeStr hlen []
    rw [List.append_nil] at happend
    exact happend
  have hj : cJSON_Parse (cstr json.bytes) = some obj := by
    rw [cstr_of_nulFree json.nulFree]
    exact hparse
  have hdone : Done (unpackSavedataJson cJSON_Parse SavedataVars.setJsonObj) pkg w ()
      (w.setJsonObj (some obj)) [] := unpackSavedataJson_done h ht hj w
  obtain ⟨pkg', pre', h1, hr, hw⟩ := hdone
  exact ⟨pkg', pre', Proc.orReturn_ok h1, hr, hw⟩

end

theorem isString_strdup {s t : CString} : IsString (s.bytes ++ [0]) t ↔ s = t := by
  have hcstr : cstr (s.bytes ++ [0]) = s.bytes := by
    rw [cstr_append_zero, cstr_of_nulFree s.nulFree]
  constructor
  · intro h
    cases s
    cases t
    exact CString.mk.injEq .. ▸ hcstr.symm.trans h.2
  · rintro rfl
    exact ⟨List.mem_append_right _ (List.mem_singleton.mpr rfl), hcstr⟩

theorem strdup_eq_ok_iff {s : Option CString} {obj : List UInt8} :
    strdup s = .ok obj ↔ ∃ t, s = some t ∧ obj = t.bytes ++ [0] := by
  cases s with
  | none => exact ⟨fun h => (by cases h), fun ⟨_, he, _⟩ => (by cases he)⟩
  | some t =>
    constructor
    · intro h
      cases h
      exact ⟨t, rfl, rfl⟩
    · rintro ⟨t', he, rfl⟩
      cases he
      rfl

theorem refuseIf_bind_ok_iff {c : Bool} {f : Unit → Proc (Buffer × SavedataVars β) Unit}
    {s s' : Buffer × SavedataVars β} :
    (refuseIf c >>= f) s = .ok (.ok (), s') ↔ c = false ∧ f () s = .ok (.ok (), s') := by
  cases c with
  | false => exact (and_iff_right rfl).symm
  | true => exact ⟨fun h => (by cases h), fun h => (by cases h.1)⟩

theorem notOne_eq_false_iff {array : CJson} :
    notOne array = .ok false ↔ array.getArraySize = .ok 1 := by
  cases array with
  | null => exact ⟨fun h => (by cases h), fun h => (by cases h)⟩
  | item next child type vs vi name =>
    rw [notOne, if_neg (fun h => by cases h)]
    change Outcome.ok (decide (1 ≠ child.chainLength)) = _ ↔ Outcome.ok child.chainLength = _
    rw [Outcome.ok.injEq, Outcome.ok.injEq, decide_eq_false_iff_not, not_not, eq_comm]

/-- **The decoder of the full form gives what the two items show.** -/
theorem takeType1_recovers {m : Med α β} {dsArray dsItem : CJson} {pkg : Buffer}
    {w : SavedataVars β} {dsId : CString} {ok : β → Prop} :
    Recovers (takeType1 m dsArray dsItem) pkg w dsId ok ↔
      dsArray.getArraySize = .ok 1 ∧ ∃ idItem dpArray dpItem valueItem v,
        dsItem.getObjectItem keyId = .ok idItem ∧ idItem.getValuestring = .ok (some dsId) ∧
          dsItem.getObjectItem keyDatapoints = .ok dpArray ∧
          dpArray.getArraySize = .ok 1 ∧ dpArray.getArrayItem 0 = .ok dpItem ∧
          dpItem.getObjectItem keyValue = .ok valueItem ∧ m.take valueItem = .ok v ∧ ok v := by
  constructor
  · rintro ⟨q, w', h, hid, hv⟩
    rw [takeType1, Proc.lift_bind_ok_iff] at h
    obtain ⟨dsBad, hds, h₁⟩ := h
    obtain ⟨hone, h₂⟩ := refuseIf_bind_ok_iff.mp h₁
    have h₃ := (refuseIf_bind_ok_iff.mp h₂).2
    obtain ⟨idItem, hidItem, h₄⟩ := Proc.lift_bind_ok_iff.mp h₃
    obtain ⟨id, hget, h₅⟩ := Proc.lift_bind_ok_iff.mp h₄
    obtain ⟨s, hs, hdup⟩ := Outcome.bind_eq_ok_iff.mp hget
    obtain ⟨t, rfl, rfl⟩ := strdup_eq_ok_iff.mp hdup
    obtain ⟨dpArray, hdp, h₆⟩ := Proc.lift_bind_ok_iff.mp h₅
    obtain ⟨dpBad, hdpOne, h₇⟩ := Proc.lift_bind_ok_iff.mp h₆
    obtain ⟨hdpBad, h₈⟩ := refuseIf_bind_ok_iff.mp h₇
    obtain ⟨dpItem, hdpItem, h₉⟩ := Proc.lift_bind_ok_iff.mp h₈
    obtain ⟨valueItem, hvalue, h₁₀⟩ := Proc.lift_bind_ok_iff.mp h₉
    obtain ⟨v, htake, h₁₁⟩ := Proc.lift_bind_ok_iff.mp h₁₀
    cases h₁₁
    rw [hone] at hds
    rw [hdpBad] at hdpOne
    have ht : t = dsId := isString_strdup.mp hid
    subst ht
    exact ⟨notOne_eq_false_iff.mp hds, idItem, dpArray, dpItem, valueItem, v, hidItem, hs, hdp,
      notOne_eq_false_iff.mp hdpOne, hdpItem, hvalue, htake, hv⟩
  · rintro ⟨hds, idItem, dpArray, dpItem, valueItem, v, hidItem, hs, hdp, hdpOne, hdpItem, hvalue,
      htake, hv⟩
    have hne : decide (dsItem = .null) = false := by
      refine decide_eq_false fun hnull => ?_
      rw [hnull] at hidItem
      cases hidItem
    refine ⟨pkg, (w.setDsId (dsId.bytes ++ [0])).setValue v, ?_, isString_strdup.mpr rfl, hv⟩
    rw [takeType1, Proc.lift_bind_ok_iff]
    refine ⟨false, notOne_eq_false_iff.mpr hds, ?_⟩
    refine refuseIf_bind_ok_iff.mpr ⟨rfl, refuseIf_bind_ok_iff.mpr ⟨hne, ?_⟩⟩
    refine Proc.lift_bind_ok_iff.mpr ⟨idItem, hidItem, Proc.lift_bind_ok_iff.mpr
      ⟨dsId.bytes ++ [0], Outcome.bind_eq_ok_iff.mpr ⟨_, hs, rfl⟩, ?_⟩⟩
    refine Proc.lift_bind_ok_iff.mpr ⟨dpArray, hdp, Proc.lift_bind_ok_iff.mpr
      ⟨false, notOne_eq_false_iff.mpr hdpOne, refuseIf_bind_ok_iff.mpr ⟨rfl, ?_⟩⟩⟩
    exact Proc.lift_bind_ok_iff.mpr ⟨dpItem, hdpItem, Proc.lift_bind_ok_iff.mpr
      ⟨valueItem, hvalue, Proc.lift_bind_ok_iff.mpr ⟨v, htake, rfl⟩⟩⟩

/-- A value is put into an item and taken out of it, whatever name the item has been given. -/
def Med.Reads (m : Med α β) (holds : α → β → Prop) : Prop :=
  ∀ v, ∃ type valuestring valueint valuedouble,
    m.create v = .item .null .null type valuestring valueint valuedouble none ∧
      ∀ name, ∃ b,
        m.take (.item .null .null type valuestring valueint valuedouble name) = .ok b ∧ holds v b

theorem medInt_reads : medInt.Reads fun n b => b = n := by
  intro n
  exact ⟨cJSON_Number, none, n, .ofInt n, rfl, fun name => ⟨n, rfl, rfl⟩⟩

theorem medString_reads : medString.Reads fun s obj => IsString obj s := by
  intro s
  exact ⟨cJSON_String, some s, 0, .ofInt 0, rfl,
    fun name => ⟨s.bytes ++ [0], rfl, isString_strdup.mpr rfl⟩⟩

theorem formatAt_ok (ctime : Ctime) : formatAt 100 ctime = .ok ctime.text := by
  rw [formatAt, ctime.strlen_eq, if_pos (by decide)]

section

variable {cJSON_Parse : List UInt8 → Option CJson} {m : Med α β} {holds : α → β → Prop}
variable {pkg : Buffer} {pre : List UInt8} {json : CString} {obj : CJson} {dsId : CString} {value : α}

theorem type1_recovers {ok : β → Prop} (h : Reading pkg pre (encodeStr json))
    (hlen : json.strlen ≤ 65535) (hparse : cJSON_Parse json.bytes = some obj)
    (w : SavedataVars β) :
    Recovers (unpackSavedataType1 cJSON_Parse m) pkg w dsId ok ↔
      ShowsFull m w.jsonObj dsId ok := by
  obtain ⟨pkg', pre', he, -, -⟩ := unpackJsonObj_done h hlen hparse w
  constructor
  · rintro ⟨q, w', h, hid, hv⟩
    rw [unpackSavedataType1, Proc.get_bind_apply, Proc.lift_bind_ok_iff] at h
    obtain ⟨dsArray, hds, h₁⟩ := h
    obtain ⟨dsItem, hitem, h₂⟩ := Proc.lift_bind_ok_iff.mp h₁
    rw [Proc.bind_ok he] at h₂
    obtain ⟨hone, idItem, dpArray, dpItem, valueItem, v, hrest⟩ :=
      takeType1_recovers.mp ⟨q, w', h₂, hid, hv⟩
    exact ⟨dsArray, dsItem, idItem, dpArray, dpItem, valueItem, v, hds, hone, hitem, hrest⟩
  · rintro ⟨dsArray, dsItem, idItem, dpArray, dpItem, valueItem, v, hds, hone, hitem, hrest⟩
    have htake : Recovers (takeType1 m dsArray dsItem) pkg' (w.setJsonObj (some obj)) dsId ok :=
      takeType1_recovers.mpr ⟨hone, idItem, dpArray, dpItem, valueItem, v, hrest⟩
    obtain ⟨q, w', h₂, hid, hv⟩ := htake
    refine ⟨q, w', ?_, hid, hv⟩
    rw [unpackSavedataType1, Proc.get_bind_apply, Proc.lift_bind_ok_iff]
    refine ⟨dsArray, hds, Proc.lift_bind_ok_iff.mpr ⟨dsItem, hitem, ?_⟩⟩
    rw [Proc.bind_ok he]
    exact h₂

theorem type2_recovers (hm : m.Reads holds) (h : Reading pkg pre (encodeStr json))
    (hlen : json.strlen ≤ 65535) (hparse : cJSON_Parse json.bytes = some obj)
    (hobj : objectType2 m dsId value = .ok obj) (w : SavedataVars β) :
    Recovers (unpackSavedataType2 cJSON_Parse m) pkg w dsId (holds value) := by
  obtain ⟨pkg', pre', he, -, -⟩ := unpackJsonObj_done h hlen hparse w
  obtain ⟨type, vs, vi, vd, hcreate, htake⟩ := hm value
  obtain ⟨b, hb, hv⟩ := htake (some dsId)
  refine ⟨pkg', ((w.setJsonObj (some obj)).setDsId (dsId.bytes ++ [0])).setValue b, ?_,
    isString_strdup.mpr rfl, hv⟩
  rw [objectType2, hcreate] at hobj
  cases hobj
  rw [unpackSavedataType2, Proc.bind_ok he, Proc.get_bind_apply]
  refine Proc.lift_bind_ok_iff.mpr ⟨_, rfl, refuseIf_bind_ok_iff.mpr ⟨rfl, ?_⟩⟩
  exact Proc.lift_bind_ok_iff.mpr ⟨_, rfl, Proc.lift_bind_ok_iff.mpr ⟨b, hb, rfl⟩⟩

theorem type3_recovers {ctime : Ctime} (hm : m.Reads holds) (h : Reading pkg pre (encodeStr json))
    (hlen : json.strlen ≤ 65535) (hparse : cJSON_Parse json.bytes = some obj)
    (hobj : objectType3 m ctime dsId value = .ok obj) (w : SavedataVars β) :
    Recovers (unpackSavedataType3 cJSON_Parse m) pkg w dsId (holds value) := by
  obtain ⟨pkg', pre', he, -, -⟩ := unpackJsonObj_done h hlen hparse w
  obtain ⟨type, vs, vi, vd, hcreate, htake⟩ := hm value
  obtain ⟨b, hb, hv⟩ := htake (some ctime.text)
  refine ⟨pkg', ((w.setJsonObj (some obj)).setDsId (dsId.bytes ++ [0])).setValue b, ?_,
    isString_strdup.mpr rfl, hv⟩
  rw [objectType3, formatAt_ok, hcreate] at hobj
  cases hobj
  rw [unpackSavedataType3, Proc.bind_ok he, Proc.get_bind_apply]
  refine Proc.lift_bind_ok_iff.mpr ⟨_, rfl, refuseIf_bind_ok_iff.mpr ⟨rfl, ?_⟩⟩
  refine Proc.lift_bind_ok_iff.mpr ⟨_, rfl, refuseIf_bind_ok_iff.mpr ⟨rfl, ?_⟩⟩
  refine Proc.lift_bind_ok_iff.mpr ⟨dsId.bytes ++ [0], rfl, ?_⟩
  rw [assign, Proc.modify_bind_apply]
  refine Proc.lift_bind_ok_iff.mpr ⟨_, rfl, ?_⟩
  exact refuseIf_bind_ok_iff.mpr ⟨rfl, Proc.lift_bind_ok_iff.mpr ⟨b, hb, rfl⟩⟩

/-- **The object of the full form shows the id and the value**, so that it is only asked too
early. -/
theorem object_showsFull {ctime : Ctime} {token : Option CString} (hm : m.Reads holds)
    (hobj : objectType1 m ctime dsId value token = .ok obj) :
    ShowsFull m obj dsId (holds value) := by
  obtain ⟨type, vs, vi, vd, hcreate, htake⟩ := hm value
  obtain ⟨b, hb, hv⟩ := htake (some keyValue)
  rw [objectType1, formatAt_ok, hcreate] at hobj
  cases token with
  | none =>
    cases hobj
    exact ⟨_, _, _, _, _, _, b, rfl, rfl, rfl, rfl, rfl, rfl, rfl, rfl, rfl, hb, hv⟩
  | some token =>
    cases hobj
    exact ⟨_, _, _, _, _, _, b, rfl, rfl, rfl, rfl, rfl, rfl, rfl, rfl, rfl, hb, hv⟩

end

/-! ### When a data point comes back -/

section

variable {cJSON_Print : CJson → CString} {cJSON_Parse : List UInt8 → Option CJson} {m : Med α β}
variable {holds : α → β → Prop} {form : Form} {ctime : Ctime} {dst : Option CString}
variable {dsId : CString} {value : α} {token : Option CString} {obj : CJson}

theorem unpackSavedataAs_recovers (hm : m.Reads holds)
    (hobj : form.object m ctime dsId value token = .ok obj) {pkg : Buffer} {pre : List UInt8}
    {json : CString} (h : Reading pkg pre (encodeStr json)) (hlen : json.strlen ≤ 65535)
    (hparse : cJSON_Parse json.bytes = some obj) (w : SavedataVars β) :
    Recovers (unpackSavedataAs cJSON_Parse m form.type) pkg w dsId (holds value) ↔
      (form = .full → ShowsFull m w.jsonObj dsId (holds value)) := by
  cases form with
  | full =>
    rw [unpackSavedataAs, Form.type, if_pos rfl, type1_recovers h hlen hparse w]
    exact ⟨fun hs _ => hs, fun hs => hs rfl⟩
  | simple =>
    rw [unpackSavedataAs, Form.type, if_neg (by decide), if_pos rfl]
    exact iff_of_true (type2_recovers hm h hlen hparse hobj w) fun hne => (by cases hne)
  | simpleWithTime =>
    rw [unpackSavedataAs, Form.type, if_neg (by decide), if_neg (by decide), if_pos rfl]
    exact iff_of_true (type3_recovers hm h hlen hparse hobj w) fun hne => (by cases hne)

theorem roundTrips_iff (cJSON_Print : CJson → CString) (cJSON_Parse : List UInt8 → Option CJson)
    (dst : Option CString) (hm : m.Reads holds)
    (hobj : form.object m ctime dsId value token = .ok obj)
    (hlen : (cJSON_Print obj).strlen ≤ 65535)
    (hparse : cJSON_Parse (cJSON_Print obj).bytes = some obj) (w : SavedataVars β) :
    RoundTrips (packetSavedata cJSON_Print m form.type dst dsId value ctime token)
        (unpackSavedataAs cJSON_Parse m) w dsId (holds value) ↔
      savedataRemainlen dst (1 + (2 + (cJSON_Print obj).strlen)) < 2 ^ 28 ∧
        (form = .full → ShowsFull m w.jsonObj dsId (holds value)) := by
  rw [packetSavedata_eq hobj]
  by_cases hfit : savedataRemainlen dst (1 + (2 + (cJSON_Print obj).strlen)) < 2 ^ 28
  · obtain ⟨pkg, hpkg, hf⟩ := packetSavedataJson_filled form.type hfit
    obtain ⟨w', ⟨pkg', pre, he, hr, -⟩, hjson⟩ :=
      decodeSavedata_becomes hf hfit (unpackSavedataAs cJSON_Parse m) w
    have hiff := unpackSavedataAs_recovers hm hobj hr hlen hparse w'
    rw [hjson] at hiff
    rw [hpkg, Outcome.ok_bind, and_iff_right hfit, ← hiff]
    constructor
    · rintro ⟨p, hp, q, w'', hd, hrest⟩
      cases hp
      exact ⟨q, w'', he.symm.trans hd, hrest⟩
    · rintro ⟨q, w'', hd, hrest⟩
      exact ⟨pkg, rfl, q, w'', he.trans hd, hrest⟩
  · refine iff_of_false ?_ fun h => hfit h.1
    rintro ⟨p, hp, -⟩
    have hassert : packetSavedataJson cJSON_Print dst obj form.type = .assertFail :=
      savedataHeader_asserts (not_lt.mp hfit) _
    rw [hassert] at hp
    cases hp

end

/-- **When a data point comes back.**  With a library that parses what it has printed, and a text
of at most 65535 bytes, the id and the value come back exactly when the remaining length fits into
its field and, for the full form, what `json_obj` happens to hold before anything is parsed shows
the id and the value already. -/
theorem savedata_roundtrip_iff (cJSON_Print : CJson → CString)
    (cJSON_Parse : List UInt8 → Option CJson) (form : Form) (ctime : Ctime) (dst : Option CString)
    (dsId : CString) (token : Option CString) :
    (∀ (value : Int32) (obj : CJson) (w : SavedataVars Int32),
      form.object medInt ctime dsId value token = .ok obj →
        cJSON_Parse (cJSON_Print obj).bytes = some obj → (cJSON_Print obj).strlen ≤ 65535 →
          (RoundTrips (packetSavedataInt cJSON_Print form.type dst dsId value ctime token)
              (unpackSavedataInt cJSON_Parse) w dsId (fun n => n = value) ↔
            savedataRemainlen dst (1 + (2 + (cJSON_Print obj).strlen)) < 2 ^ 28 ∧
              (form = .full → ShowsFull medInt w.jsonObj dsId fun n => n = value))) ∧
      ∀ (value : CString) (obj : CJson) (w : SavedataVars (List UInt8)),
        form.object medString ctime dsId value token = .ok obj →
          cJSON_Parse (cJSON_Print obj).bytes = some obj → (cJSON_Print obj).strlen ≤ 65535 →
            (RoundTrips (packetSavedataString cJSON_Print form.type dst dsId value ctime token)
                (unpackSavedataString cJSON_Parse) w dsId (fun s => IsString s value) ↔
              savedataRemainlen dst (1 + (2 + (cJSON_Print obj).strlen)) < 2 ^ 28 ∧
                (form = .full → ShowsFull medString w.jsonObj dsId fun s => IsString s value)) := by
  constructor
  · intro value obj w hobj hparse hlen
    exact roundTrips_iff cJSON_Print cJSON_Parse dst medInt_reads hobj hlen hparse w
  · intro value obj w hobj hparse hlen
    exact roundTrips_iff cJSON_Print cJSON_Parse dst medString_reads hobj hlen hparse w

/-- Parsing, of one text. -/
def parseOnly (text : CString) (obj : CJson) (s : List UInt8) : Option CJson :=
  if s = text.bytes then some obj else none

theorem parseOnly_self (text : CString) (obj : CJson) :
    parseOnly text obj text.bytes = some obj := if_pos rfl

/-- The variables of a receiver at first, with nothing to be read at `json_obj`. -/
def freshVars : SavedataVars Int32 := ⟨none, 0, .null, [], 0⟩

/-- `"Thu Jan  1 00:00:00 1970\n"` -/
def epoch : Ctime where
  text := ⟨
  [0x54, 0x68, 0x75, 0x20, 0x4a, 0x61, 0x6e, 0x20, 0x20, 0x31, 0x20, 0x30, 0x30, 0x3a, 0x30, 0x30,
    0x3a, 0x30, 0x30, 0x20, 0x31, 0x39, 0x37, 0x30, 0x0a],
    by decide⟩
  strlen_eq := rfl

/-- The id `t`. -/
def idT : CString := ⟨[0x74], by decide⟩

/-- The object of the value 1 under the id `t`, and how it is printed. -/
def simpleObject : CJson :=
  .item .null (.item .null .null cJSON_Number none 1 (.ofInt 1) (some idT)) cJSON_Object none 0
    (.ofInt 0) none

def simpleText : CString := ⟨
  [0x7b, 0x0a, 0x09, 0x22, 0x74, 0x22, 0x3a, 0x09, 0x31, 0x0a, 0x7d],
  by decide⟩

theorem savedata_roundtrip_simple :
    RoundTrips (packetSavedataInt (fun _ => simpleText) kTypeSimpleJsonWithoutTime none idT 1 epoch
        none)
      (unpackSavedataInt (parseOnly simpleText simpleObject))
      freshVars idT (fun n => n = 1) := by
  refine ((savedata_roundtrip_iff (fun _ => simpleText)
    (parseOnly simpleText simpleObject) .simple epoch none idT
    none).1 1 simpleObject freshVars rfl (parseOnly_self _ _) (by decide)).mpr ⟨by decide, ?_⟩
  intro h
  cases h

def fullObject : CJson :=
  .item .null (.item .null (.item .null (.item (.item .null (.item .null (.item
    (.item .null .null cJSON_Number none 1 (.ofInt 1) (some keyValue)) .null cJSON_String
      (some epoch.text) 0 (.ofInt 0) (some keyAt)) cJSON_Object none 0 (.ofInt 0) none) cJSON_Array
    none 0 (.ofInt 0) (some keyDatapoints)) .null cJSON_String (some idT) 0 (.ofInt 0)
    (some keyId)) cJSON_Object none 0 (.ofInt 0) none) cJSON_Array none 0 (.ofInt 0)
    (some keyDatastreams)) cJSON_Object none 0 (.ofInt 0) none

def fullText : CString := ⟨
  [0x7b, 0x0a, 0x09, 0x22, 0x64, 0x61, 0x74, 0x61, 0x73, 0x74, 0x72, 0x65, 0x61, 0x6d, 0x73, 0x22,
    0x3a, 0x09, 0x5b, 0x7b, 0x0a, 0x09, 0x09, 0x09, 0x22, 0x69, 0x64, 0x22, 0x3a, 0x09, 0x22, 0x74,
    0x22, 0x2c, 0x0a, 0x09, 0x09, 0x09, 0x22, 0x64, 0x61, 0x74, 0x61, 0x70, 0x6f, 0x69, 0x6e, 0x74,
    0x73, 0x22, 0x3a, 0x09, 0x5b, 0x7b, 0x0a, 0x09, 0x09, 0x09, 0x09, 0x09, 0x22, 0x61, 0x74, 0x22,
    0x3a, 0x09, 0x22, 0x54, 0x68, 0x75, 0x20, 0x4a, 0x61, 0x6e, 0x20, 0x20, 0x31, 0x20, 0x30, 0x30,
    0x3a, 0x30, 0x30, 0x3a, 0x30, 0x30, 0x20, 0x31, 0x39, 0x37, 0x30, 0x5c, 0x6e, 0x22, 0x2c, 0x0a,
    0x09, 0x09, 0x09, 0x09, 0x09, 0x22, 0x76, 0x61, 0x6c, 0x75, 0x65, 0x22, 0x3a, 0x09, 0x31, 0x0a,
    0x09, 0x09, 0x09, 0x09, 0x7d, 0x5d, 0x0a, 0x09, 0x09, 0x7d, 0x5d, 0x0a, 0x7d],
  by decide⟩

/-- The same data point in the full form does not come back. -/
theorem savedata_full_lost :
    Form.object medInt epoch idT 1 none .full = .ok fullObject ∧ fullText.strlen ≤ 65535 ∧
      ¬ RoundTrips (packetSavedataInt (fun _ => fullText) kTypeFullJson none idT 1 epoch none)
        (unpackSavedataInt (parseOnly fullText fullObject))
        freshVars idT (fun n => n = 1) := by
  have hobj : Form.object medInt epoch idT 1 none .full = .ok fullObject := rfl
  have hlen : fullText.strlen ≤ 65535 := by
    rw [CString.strlen, fullText]
    simp only [List.length_cons, List.length_nil]
    decide
  refine ⟨hobj, hlen, fun h => ?_⟩
  have hparse := parseOnly_self fullText fullObject
  have hiff := roundTrips_iff (fun _ => fullText) (parseOnly fullText fullObject) none medInt_reads
    hobj hlen hparse freshVars
  obtain ⟨dsArray, -, -, -, -, -, -, hds, -⟩ := (hiff.mp h).2 rfl
  cases hds

end Nl6621.Edp
