import Nl6621.Edp.CJson
import Nl6621.NuAgent.SearchStr

/-!
# The device of `restful.c`

`RestFul_RecvProcess` looks for `200 OK` and for a brace with the name `errno` behind it in a
response, hands the text there to `cJSON_Parse` and copies the `device_id` it finds to `DeviceID`.
`RestFul_Run` sends requests that name this device.  It sleeps between them, so that responses can
come in between: `session` is a run of the two tasks, in which the second one goes from one sleep to
the next.

`cJSON_Parse` is a parameter, a function from strings to trees, of which `ImplementsJson` says what
is used.  `Tracker` is what the two tasks are for: the id of the last response that has one, of at
most 19 bytes, and the requests that name it.

The pattern has eight bytes and the code goes back nine, so that the parser never gets the text at
the brace (`parserText_ne`).  White space in front of the brace makes up for this.  `session_tracks`
says what else a response has to have for the session to do what the tracker does.
-/

namespace Nl6621.NuAgent.RestFul

open Lib Nl6621.Edp

/-! ### The texts -/

/-- `200 OK` and the end of the line -/
def okText : CString := ⟨[0x32, 0x30, 0x30, 0x20, 0x4f, 0x4b, 0x0d, 0x0a], by decide⟩

/-- An opening brace and the name `errno` in quotes. -/
def errnoText : CString := ⟨[0x7b, 0x22, 0x65, 0x72, 0x72, 0x6e, 0x6f, 0x22], by decide⟩

def errnoName : CString := ⟨[0x65, 0x72, 0x72, 0x6e, 0x6f], by decide⟩

def dataName : CString := ⟨[0x64, 0x61, 0x74, 0x61], by decide⟩

def deviceIdName : CString :=
  ⟨[0x64, 0x65, 0x76, 0x69, 0x63, 0x65, 0x5f, 0x69, 0x64], by decide⟩

/-- The request of `HttpPOST_NewDevice`. -/
def postText : List UInt8 :=
  [0x50, 0x4f, 0x53, 0x54, 0x20, 0x2f, 0x64, 0x65, 0x76, 0x69, 0x63, 0x65, 0x73, 0x20, 0x48,
    0x54, 0x54, 0x50, 0x2f, 0x31, 0x2e, 0x31, 0x0d, 0x0a, 0x61, 0x70, 0x69, 0x2d, 0x6b, 0x65,
    0x79, 0x3a, 0x65, 0x61, 0x66, 0x4f, 0x42, 0x4b, 0x55, 0x7a, 0x6e, 0x33, 0x4f, 0x78, 0x38,
    0x5a, 0x6f, 0x33, 0x55, 0x55, 0x41, 0x38, 0x45, 0x79, 0x56, 0x68, 0x6a, 0x64, 0x34, 0x41,
    0x0d, 0x0a, 0x48, 0x6f, 0x73, 0x74, 0x3a, 0x61, 0x70, 0x69, 0x2e, 0x68, 0x65, 0x63, 0x6c,
    0x6f, 0x75, 0x64, 0x73, 0x2e, 0x63, 0x6f, 0x6d, 0x0d, 0x0a, 0x43, 0x6f, 0x6e, 0x74, 0x65,
    0x6e, 0x74, 0x2d, 0x4c, 0x65, 0x6e, 0x67, 0x74, 0x68, 0x3a, 0x33, 0x34, 0x0d, 0x0a, 0x0d,
    0x0a, 0x7b, 0x22, 0x74, 0x69, 0x74, 0x6c, 0x65, 0x22, 0x3a, 0x22, 0x36, 0x32, 0x31, 0x31,
    0x36, 0x36, 0x32, 0x46, 0x34, 0x45, 0x32, 0x44, 0x35, 0x36, 0x46, 0x44, 0x34, 0x45, 0x42,
    0x41, 0x22, 0x7d, 0x0d, 0x0a]

/-- `GET /devices/` -/
def getStart : List UInt8 :=
  [0x47, 0x45, 0x54, 0x20, 0x2f, 0x64, 0x65, 0x76, 0x69, 0x63, 0x65, 0x73, 0x2f]

/-- `DELETE /devices/` -/
def deleteStart : List UInt8 :=
  [0x44, 0x45, 0x4c, 0x45, 0x54, 0x45, 0x20, 0x2f, 0x64, 0x65, 0x76, 0x69, 0x63, 0x65, 0x73, 0x2f]

/-- The request behind the device id. -/
def requestEnd : List UInt8 :=
  [0x20, 0x48, 0x54, 0x54, 0x50, 0x2f, 0x31, 0x2e, 0x31, 0x0d, 0x0a, 0x61, 0x70, 0x69, 0x2d,
    0x6b, 0x65, 0x79, 0x3a, 0x65, 0x61, 0x66, 0x4f, 0x42, 0x4b, 0x55, 0x7a, 0x6e, 0x33, 0x4f,
    0x78, 0x38, 0x5a, 0x6f, 0x33, 0x55, 0x55, 0x41, 0x38, 0x45, 0x79, 0x56, 0x68, 0x6a, 0x64,
    0x34, 0x41, 0x0d, 0x0a, 0x48, 0x6f, 0x73, 0x74, 0x3a, 0x61, 0x70, 0x69, 0x2e, 0x68, 0x65,
    0x63, 0x6c, 0x6f, 0x75, 0x64, 0x73, 0x2e, 0x63, 0x6f, 0x6d, 0x0d, 0x0a, 0x0d, 0x0a]

/-! ### The code -/

/-- The globals `new_device` and `DeviceID`. -/
structure RestFulVars where
  new_device : UInt8
  DeviceID : Block

/-- What `RestFul_RecvProcess` hands to `cJSON_Parse`, the string at `&data[presult - 9]`, or what it
returns without a call of it. -/
def parserText (data : CString) : Fueled (Int32 ⊕ List UInt8) := do
  let presult ← searchStr (data.bytes.length + 1) (some data.obj) (some okText.obj)
  if presult ≠ 0 then
    let presult ← searchStr (data.bytes.length + 1) (some data.obj) (some errnoText.obj)
    if presult ≠ 0 then
      if 9 ≤ presult.toInt then .ok (.inr (data.bytes.drop (presult.toInt.toNat - 9)))
      else .of .fault
    else .ok (.inl 0)
  else .ok (.inl 1)

/-- `memcpy(DeviceID, json_string->valuestring, strlen(json_string->valuestring)); new_device = 1;` -/
def copyId (vars : RestFulVars) (valuestring : Option CString) : Outcome RestFulVars :=
  match valuestring with
  | none => .fault
  | some id => do
    let DeviceID ← vars.DeviceID.store 0 (id.bytes.map some)
    .ok ⟨1, DeviceID⟩

/-- What is done with the tree of the response. -/
def useJson (json : CJson) (vars : RestFulVars) : Outcome RestFulVars :=
  if json = .null then .ok vars
  else do
    let json_value ← json.getObjectItem errnoName
    if (← json_value.getType) = cJSON_Number then
      if (← json_value.getValueint) = 0 then
        let json_Object ← json.getObjectItem dataName
        if (← json_Object.getType) = cJSON_Object then
          let json_string ← json_Object.getObjectItem deviceIdName
          if (← json_string.getType) = cJSON_String then
            copyId vars (← json_string.getValuestring)
          else .ok vars
        else .ok vars
      else .ok vars
    else .ok vars

def recvProcess (parse : List UInt8 → CJson) (data : CString) (vars : RestFulVars) :
    Fueled (Int32 × RestFulVars) := do
  match ← parserText data with
  | .inl ret => .ok (ret, vars)
  | .inr text =>
    let vars ← .of (useJson (parse text) vars)
    .ok (0, vars)

/-- The string at the start of an object, as `%s` reads it. -/
def strOf : Block → Outcome (List UInt8)
  | [] => .fault
  | none :: _ => .fault
  | some c :: rest => if c = 0 then .ok [] else (strOf rest).bind fun s => .ok (c :: s)

/-- `HttpGET_Device` and `HttpDELETE_Device`: what they send, which is nothing when `malloc` fails. -/
def deviceRequest (start : List UInt8) (malloc : Bool) (deviceid : Block) :
    Outcome (List (List UInt8)) :=
  if malloc then do
    let id ← strOf deviceid
    let text := start ++ id ++ requestEnd
    let _ ← (Block.malloc 400).store 0 ((text ++ [0]).map some)
    .ok [text]
  else .ok []

/-- Where `RestFul_Run` sleeps. -/
inductive RunPc where
  | start
  | posted
  | queried
deriving DecidableEq

/-- The globals, the place of the sending task and the requests it has sent. -/
structure Session where
  vars : RestFulVars
  pc : RunPc
  sent : List (List UInt8)

/-- `RestFul_Run` from one sleep to the next. -/
def Session.wake (malloc : Bool) (s : Session) : Outcome Session :=
  match s.pc with
  | .start => .ok { s with pc := .posted, sent := s.sent ++ if malloc then [postText] else [] }
  | .posted =>
    if s.vars.new_device = 1 then do
      let sent ← deviceRequest getStart malloc s.vars.DeviceID
      .ok ⟨⟨0, s.vars.DeviceID⟩, .queried, s.sent ++ sent⟩
    else .ok { s with pc := .start }
  | .queried => do
    let sent ← deviceRequest deleteStart malloc s.vars.DeviceID
    .ok { s with pc := .start, sent := s.sent ++ sent }

/-! ### The purpose -/

/-- Every string item has its string. -/
def StringsSet : CJson → Prop
  | .null => True
  | .item next child type valuestring _ _ _ =>
    (type = cJSON_String → valuestring ≠ none) ∧ StringsSet next ∧ StringsSet child

/-- What is used of the parser: it passes over white space, an object does not start with two braces,
and strings are there. -/
structure ImplementsJson (parse : List UInt8 → CJson) : Prop where
  skip : ∀ b t, b ≠ 0 → b ≤ 0x20 → parse (b :: t) = parse t
  braces : ∀ t, parse (0x7b :: 0x7b :: t) = .null
  strings : ∀ t, StringsSet (parse t)

/-- The member of an object, or NULL. -/
def member : CJson → CString → CJson
  | .null, _ => .null
  | .item _ child _ _ _ _ _, name => child.chainFind name

def number? : CJson → Option Int32
  | .null => none
  | .item _ _ type _ valueint _ _ => if type = cJSON_Number then some valueint else none

def object? : CJson → Option CJson
  | .null => none
  | json@(.item _ _ type _ _ _ _) => if type = cJSON_Object then some json else none

def string? : CJson → Option CString
  | .null => none
  | .item _ _ type valuestring _ _ _ => if type = cJSON_String then valuestring else none

/-- The string `data.device_id` of a tree with `errno` 0. -/
def deviceId? (json : CJson) : Option CString :=
  if number? (member json errnoName) = some 0 then
    (object? (member json dataName)).bind fun data => string? (member data deviceIdName)
  else none

/-- A response contains `200 OK` and, later, an object that starts with the member `errno`. -/
structure Response (parse : List UInt8 → CJson) where
  data : CString
  fits : data.bytes.length < 2 ^ 31
  brace : Nat
  ok : ∃ i, OccursAt okText.bytes data.bytes i ∧ i + okText.bytes.length ≤ brace
  opened : ∃ t, data.bytes.drop brace = 0x7b :: t
  object : ∃ next next' child' type' str' int' double' str int double string,
    parse (data.bytes.drop brace) = .item next
      (.item next' child' type' str' int' double' (some errnoName)) cJSON_Object str int double string

/-- The tree of its object. -/
def Response.tree {parse : List UInt8 → CJson} (r : Response parse) : CJson :=
  parse (r.data.bytes.drop r.brace)

/-- A response comes in, or the sending task goes on. -/
inductive Act (parse : List UInt8 → CJson) where
  | recv (r : Response parse)
  | wake (malloc : Bool)

variable {parse : List UInt8 → CJson}

def Session.step (s : Session) : Act parse → Fueled Session
  | .recv r => do
    let (_, vars) ← recvProcess parse r.data s.vars
    .ok { s with vars }
  | .wake malloc => .of (s.wake malloc)

def session : Session → List (Act parse) → Fueled Session
  | s, [] => .ok s
  | s, act :: acts => do
    let s ← s.step act
    session s acts

/-- What the tasks are for: the device to name, whether it is new, and the requests. -/
structure Tracker where
  id : List UInt8
  fresh : Bool
  pc : RunPc
  sent : List (List UInt8)

/-- A response sets the device if its id has at most 19 bytes. -/
def Tracker.recv (t : Tracker) (r : Response parse) : Tracker :=
  match deviceId? r.tree with
  | some id => if id.bytes.length ≤ 19 then { t with id := id.bytes, fresh := true } else t
  | none => t

def Tracker.wake (malloc : Bool) (t : Tracker) : Tracker :=
  let send (text : List UInt8) := t.sent ++ if malloc then [text] else []
  match t.pc with
  | .start => { t with pc := .posted, sent := send postText }
  | .posted =>
    if t.fresh then
      { t with fresh := false, pc := .queried, sent := send (getStart ++ t.id ++ requestEnd) }
    else { t with pc := .start }
  | .queried => { t with pc := .start, sent := send (deleteStart ++ t.id ++ requestEnd) }

def Tracker.step (t : Tracker) : Act parse → Tracker
  | .recv r => t.recv r
  | .wake malloc => t.wake malloc

def Session.initial : Session := ⟨⟨0, List.replicate 20 (some 0)⟩, .start, []⟩

def Tracker.initial : Tracker := ⟨[], false, .start, []⟩

/-- The session returns, `DeviceID` is the tracked device, and so are the requests. -/
def Follows (acts : List (Act parse)) : Prop :=
  ∃ s, session .initial acts = .ok s ∧
    strOf s.vars.DeviceID = .ok (acts.foldl Tracker.step .initial).id ∧
    s.sent = (acts.foldl Tracker.step .initial).sent

/-- The parser gets the text at the brace of every response, and the session follows the tracker. -/
def Tracks (acts : List (Act parse)) : Prop :=
  (∀ r, Act.recv r ∈ acts → parserText r.data = .ok (.inr (r.data.bytes.drop r.brace))) ∧
    Follows acts

/-! ### The text for the parser -/

theorem parserText_eq (r : Response parse) :
    (∃ i, FirstAt errnoText.bytes r.data.bytes i ∧
      (i = 0 ∧ parserText r.data = .of .fault ∨
        0 < i ∧ parserText r.data = .ok (.inr (r.data.bytes.drop (i - 1))))) ∨
    (∀ i, ¬OccursAt errnoText.bytes r.data.bytes i) ∧ parserText r.data = .ok (.inl 0) := by
  have hfits := r.fits
  let source : CString32 := ⟨r.data, by omega⟩
  obtain ⟨presult, hok, hfirst⟩ := (searchStr_iff source okText (by decide)
    (Nat.lt_succ_self _)).mpr (searchable_of_head_notMem (by decide) hfits)
  obtain ⟨presult', herr, hfirst'⟩ := (searchStr_iff source errnoText (by decide)
    (Nat.lt_succ_self _)).mpr (searchable_of_head_notMem (by decide) hfits)
  obtain ⟨i, hi, -⟩ := r.ok
  have hne : presult ≠ 0 := by
    rcases hfirst with ⟨j, -, hj⟩ | ⟨hno, -⟩
    · rintro rfl
      have hz : (0 : Int) = j + (8 : Nat) := hj
      omega
    · exact absurd hi (hno i)
  have hok' : searchStr (r.data.bytes.length + 1) (some r.data.obj) (some okText.obj) =
      .ok presult := hok
  have herr' : searchStr (r.data.bytes.length + 1) (some r.data.obj) (some errnoText.obj) =
      .ok presult' := herr
  rcases hfirst' with ⟨i, hi, hend⟩ | ⟨hno, rfl⟩
  · have hlen : (errnoText.bytes.length : Int) = 8 := rfl
    have hne' : presult' ≠ 0 := by
      rintro rfl
      have hz : (0 : Int) = i + (8 : Nat) := hend
      omega
    refine .inl ⟨i, hi, ?_⟩
    rw [parserText, hok', Fueled.ok_bind, if_pos hne, herr', Fueled.ok_bind, if_pos hne']
    rcases Nat.eq_zero_or_pos i with hz | hpos
    · rw [if_neg (by omega)]
      exact .inl ⟨hz, rfl⟩
    · have hsub : presult'.toInt.toNat - 9 = i - 1 := by omega
      rw [if_pos (by omega), hsub]
      exact .inr ⟨hpos, rfl⟩
  · refine .inr ⟨hno, ?_⟩
    rw [parserText, hok', Fueled.ok_bind, if_pos hne, herr', Fueled.ok_bind]
    rfl

/-- **The parser never gets the text at the brace.** -/
theorem parserText_ne (hjson : ImplementsJson parse) (r : Response parse) :
    parserText r.data ≠ .ok (.inr (r.data.bytes.drop r.brace)) := by
  intro h
  rcases parserText_eq r with ⟨i, hi, ⟨-, he⟩ | ⟨hpos, he⟩⟩ | ⟨-, he⟩
  · rw [h] at he
    cases he
  · rw [h] at he
    have hdrop : r.data.bytes.drop r.brace = r.data.bytes.drop (i - 1) :=
      Sum.inr.inj (Outcome.ok.inj (Option.some.inj he))
    obtain ⟨t, ht⟩ := r.opened
    have hle := OccursAt.le_length (by decide) hi.1
    have hlen := congrArg List.length hdrop
    have hlen' := congrArg List.length ht
    rw [List.length_drop] at hlen'
    rw [List.length_drop, List.length_drop] at hlen
    rw [List.length_cons] at hlen'
    obtain rfl : i = r.brace + 1 := by omega
    -- a second brace stands behind the brace of the object
    obtain ⟨rest, hrest⟩ := hi.1
    have htail : t = errnoText.bytes ++ rest := by
      rw [hrest, ← List.drop_drop, ht]
      rfl
    obtain ⟨next, next', child', type', str', int', double', str, int, double, string, hobj⟩ :=
      r.object
    rw [ht, htail] at hobj
    have hnull := hjson.braces (errnoText.bytes.tail ++ rest)
    rw [show (0x7b :: 0x7b :: (errnoText.bytes.tail ++ rest)) =
      0x7b :: (errnoText.bytes ++ rest) from rfl, hobj] at hnull
    cases hnull
  · rw [h] at he
    cases he

/-! ### The members -/

/-- A response the code deals with while the device is `id`: the text in question stands at the brace
and nowhere before, behind white space; no member is missing; and an id that comes is not shorter than
the one before and not longer than 19 bytes. -/
structure Response.Admitted (r : Response parse) (id : List UInt8) : Prop where
  first : FirstAt errnoText.bytes r.data.bytes r.brace
  white : ∀ b, r.data.bytes[r.brace - 1]? = some b → b ≤ 0x20
  data : number? (member r.tree errnoName) = some 0 → member r.tree dataName ≠ .null
  device : number? (member r.tree errnoName) = some 0 →
    ∀ d, object? (member r.tree dataName) = some d → member d deviceIdName ≠ .null
  length : ∀ s, deviceId? r.tree = some s → id.length ≤ s.bytes.length ∧ s.bytes.length ≤ 19

theorem getObjectItem_eq {json : CJson} (h : json ≠ .null) (name : CString) :
    json.getObjectItem name = .ok (member json name) := by
  cases json with
  | null => exact absurd rfl h
  | item next child type valuestring valueint valuedouble string => rfl

theorem stringsSet_chainFind {name : CString} : ∀ {json : CJson}, StringsSet json →
    StringsSet (json.chainFind name) := by
  intro json
  induction json with
  | null => intro h; exact h
  | item next child type valuestring valueint valuedouble string ihnext ihchild =>
    intro h
    rw [CJson.chainFind]
    split
    · exact ihnext h.2.1
    · exact h

theorem StringsSet.member {json : CJson} (h : StringsSet json) (name : CString) :
    StringsSet (member json name) := by
  cases json with
  | null => exact h
  | item next child type valuestring valueint valuedouble string => exact stringsSet_chainFind h.2.2

theorem member_errno_ne_null (r : Response parse) :
    r.tree ≠ .null ∧ member r.tree errnoName ≠ .null := by
  obtain ⟨next, next', child', type', str', int', double', str, int, double, string, hobj⟩ :=
    r.object
  rw [Response.tree, hobj]
  refine ⟨fun h => (by cases h), fun h => ?_⟩
  have hcmp : CJson.nameCmp (some errnoName) errnoName = 0 := by decide
  rw [RestFul.member, CJson.chainFind, if_neg (not_not_intro hcmp)] at h
  cases h

theorem useString_eq {item : CJson} (hset : StringsSet item) (hitem : item ≠ .null)
    (vars : RestFulVars) : (do
      if (← item.getType) = cJSON_String then copyId vars (← item.getValuestring)
      else .ok vars) =
      match string? item with
      | some id => copyId vars (some id)
      | none => .ok vars := by
  cases item with
  | null => exact absurd rfl hitem
  | item next child type valuestring valueint valuedouble string =>
    rw [CJson.getType, Outcome.ok_bind, string?]
    by_cases htype : type = cJSON_String
    · rw [if_pos htype, if_pos htype, CJson.getValuestring, Outcome.ok_bind]
      cases valuestring with
      | none => exact absurd rfl (hset.1 htype)
      | some id => rfl
    · rw [if_neg htype, if_neg htype]

theorem useData_eq {data : CJson} (hset : StringsSet data) (hdata : data ≠ .null)
    (hdevice : ∀ d, object? data = some d → member d deviceIdName ≠ .null) (vars : RestFulVars) :
    (do
      if (← data.getType) = cJSON_Object then
        let json_string ← data.getObjectItem deviceIdName
        if (← json_string.getType) = cJSON_String then copyId vars (← json_string.getValuestring)
        else .ok vars
      else .ok vars) =
      match (object? data).bind fun data => string? (member data deviceIdName) with
      | some id => copyId vars (some id)
      | none => .ok vars := by
  cases data with
  | null => exact absurd rfl hdata
  | item next child type valuestring valueint valuedouble string =>
    rw [CJson.getType, Outcome.ok_bind, object?]
    by_cases htype : type = cJSON_Object
    · rw [if_pos htype, if_pos htype, getObjectItem_eq hdata, Outcome.ok_bind, Option.bind_some]
      refine useString_eq (hset.member deviceIdName) (hdevice _ ?_) vars
      rw [object?, if_pos htype]
    · rw [if_neg htype, if_neg htype]
      rfl

/-- **With no member missing, the code copies the id of the response.** -/
theorem useJson_eq {json : CJson} (hjson : json ≠ .null) (hset : StringsSet json)
    (herrno : member json errnoName ≠ .null)
    (hdata : number? (member json errnoName) = some 0 → member json dataName ≠ .null)
    (hdevice : number? (member json errnoName) = some 0 →
      ∀ d, object? (member json dataName) = some d → member d deviceIdName ≠ .null)
    (vars : RestFulVars) : useJson json vars =
      match deviceId? json with
      | some id => copyId vars (some id)
      | none => .ok vars := by
  have hset' := hset.member dataName
  rw [useJson, if_neg hjson, getObjectItem_eq hjson, Outcome.ok_bind, getObjectItem_eq hjson]
  unfold deviceId?
  generalize member json errnoName = errno at *
  generalize member json dataName = data at *
  cases errno with
  | null => exact absurd rfl herrno
  | item next child type valuestring valueint valuedouble string =>
    rw [Outcome.ok_bind, CJson.getType, Outcome.ok_bind, number?]
    by_cases htype : type = cJSON_Number
    · rw [if_pos htype, if_pos htype, CJson.getValueint, Outcome.ok_bind]
      by_cases hzero : valueint = 0
      · have hnumber : number? (.item next child type valuestring valueint valuedouble string) =
            some 0 := by
          rw [number?, if_pos htype, hzero]
        rw [if_pos hzero, if_pos (congrArg some hzero)]
        exact useData_eq hset' (hdata hnumber) (hdevice hnumber) vars
      · rw [if_neg hzero, if_neg fun h => hzero (Option.some.inj h)]
    · rw [if_neg htype, if_neg htype, if_neg fun h => by cases h]

/-! ### The array of the device id -/

/-- `DeviceID` holds the string, and zeros behind it. -/
def HoldsId (DeviceID : Block) (id : List UInt8) : Prop :=
  id.length ≤ 19 ∧ (0 : UInt8) ∉ id ∧
    DeviceID = (id ++ List.replicate (20 - id.length) 0).map some

theorem strOf_append_zero {s : List UInt8} (hs : (0 : UInt8) ∉ s) (rest : Block) :
    strOf (s.map some ++ some 0 :: rest) = .ok s := by
  induction s with
  | nil => rfl
  | cons c s ih =>
    have hc : c ≠ 0 := fun h => hs (List.mem_cons.mpr (.inl h.symm))
    have hrest := ih fun h => hs (List.mem_cons_of_mem c h)
    rw [List.map_cons, List.cons_append, strOf, if_neg hc, hrest]
    rfl

theorem HoldsId.strOf {DeviceID : Block} {id : List UInt8} (h : HoldsId DeviceID id) :
    strOf DeviceID = .ok id := by
  obtain ⟨hlen, hnul, rfl⟩ := h
  obtain ⟨n, hn⟩ := Nat.exists_eq_add_one_of_ne_zero (show 20 - id.length ≠ 0 by omega)
  rw [hn, List.replicate_succ, List.map_append]
  exact strOf_append_zero hnul _

/-- **An id that is not shorter covers the one before.** -/
theorem copyId_holds {vars : RestFulVars} {old : List UInt8} (h : HoldsId vars.DeviceID old)
    (id : CString) (hold : old.length ≤ id.bytes.length) (hid : id.bytes.length ≤ 19) :
    ∃ DeviceID, copyId vars (some id) = .ok ⟨1, DeviceID⟩ ∧ HoldsId DeviceID id.bytes := by
  obtain ⟨hlen, -, hblk⟩ := h
  have hsize : vars.DeviceID.length = 20 := by
    rw [hblk, List.length_map, List.length_append, List.length_replicate]
    omega
  refine ⟨vars.DeviceID.put 0 (id.bytes.map some), ?_, hid, id.nulFree, ?_⟩
  · rw [copyId, Block.store_ok (by rw [List.length_map, hsize]; omega)]
    rfl
  · rw [Block.put, List.take_zero, List.nil_append, Nat.zero_add, List.length_map, List.map_append,
      hblk, ← List.map_drop, List.drop_append, List.drop_of_length_le hold, List.nil_append,
      List.drop_replicate]
    have hn : 20 - old.length - (id.bytes.length - old.length) = 20 - id.bytes.length := by omega
    rw [hn]

theorem deviceRequest_eq {DeviceID : Block} {id start : List UInt8} (h : HoldsId DeviceID id)
    (hstart : start.length ≤ 16) (malloc : Bool) : deviceRequest start malloc DeviceID =
      .ok (if malloc then [start ++ id ++ requestEnd] else []) := by
  cases malloc with
  | false => rfl
  | true =>
    have hroom : ((start ++ id ++ requestEnd ++ [0]).map some).length ≤ 400 := by
      have hend : requestEnd.length = 74 := rfl
      have hid := h.1
      simp only [List.length_map, List.length_append, List.length_singleton, hend]
      omega
    have hstore : (Block.malloc 400).store 0 ((start ++ id ++ requestEnd ++ [0]).map some) =
        .ok _ := Block.store_ok (by rwa [Block.length_malloc, Nat.zero_add])
    rw [deviceRequest, if_pos rfl, h.strOf, Outcome.ok_bind]
    exact congrArg (fun o : Outcome Block => o >>= fun _ => .ok [start ++ id ++ requestEnd]) hstore

/-! ### The sessions -/

/-- The session is where the tracker is. -/
structure Matches (s : Session) (t : Tracker) : Prop where
  id : HoldsId s.vars.DeviceID t.id
  fresh : s.vars.new_device = 1 ↔ t.fresh = true
  pc : s.pc = t.pc
  sent : s.sent = t.sent

theorem matches_initial : Matches .initial .initial :=
  ⟨⟨by decide, by decide, rfl⟩, by decide, rfl, rfl⟩

theorem Matches.wake {s : Session} {t : Tracker} (h : Matches s t) (malloc : Bool) :
    ∃ s', s.wake malloc = .ok s' ∧ Matches s' (t.wake malloc) := by
  obtain ⟨hid, hfresh, hpc, hsent⟩ := h
  unfold Session.wake Tracker.wake
  rw [hpc]
  cases t.pc with
  | start =>
    exact ⟨_, rfl, hid, hfresh, rfl, by rw [hsent]⟩
  | posted =>
    by_cases hnew : t.fresh = true
    · have hget : deviceRequest getStart malloc s.vars.DeviceID = _ :=
        deviceRequest_eq hid (by decide) malloc
      simp only [if_pos (hfresh.mpr hnew), if_pos hnew, hget, Outcome.ok_bind]
      exact ⟨_, rfl, hid, by simp, rfl, by rw [hsent]⟩
    · simp only [if_neg fun h => hnew (hfresh.mp h), if_neg hnew]
      exact ⟨_, rfl, hid, hfresh, rfl, hsent⟩
  | queried =>
    have hdelete : deviceRequest deleteStart malloc s.vars.DeviceID = _ :=
      deviceRequest_eq hid (by decide) malloc
    simp only [hdelete, Outcome.ok_bind]
    exact ⟨_, rfl, hid, hfresh, rfl, by rw [hsent]⟩

/-- White space in front of the brace makes up for the byte too many. -/
theorem recvProcess_admitted (hjson : ImplementsJson parse) {r : Response parse} {id : List UInt8}
    (h : r.Admitted id) (vars : RestFulVars) :
    recvProcess parse r.data vars = (do
      let vars ← .of (useJson r.tree vars)
      .ok (0, vars)) := by
  have hle := OccursAt.le_length (by decide) h.first.1
  have hpos : 0 < r.brace := by
    obtain ⟨i, -, hi⟩ := r.ok
    exact Nat.lt_of_lt_of_le (by decide) (Nat.le_trans (Nat.le_add_left _ i) hi)
  have htext : parserText r.data = .ok (.inr (r.data.bytes.drop (r.brace - 1))) := by
    rcases parserText_eq r with ⟨i, hi, ⟨hz, -⟩ | ⟨-, he⟩⟩ | ⟨hno, -⟩
    · rw [hi.unique h.first] at hz
      omega
    · rw [he, hi.unique h.first]
    · exact absurd h.first.1 (hno _)
  have hlt : r.brace - 1 < r.data.bytes.length := by omega
  have hcons := List.drop_eq_getElem_cons hlt
  rw [Nat.sub_add_cancel hpos] at hcons
  have hb := h.white _ (List.getElem?_eq_getElem hlt)
  have hb0 : r.data.bytes[r.brace - 1] ≠ 0 := fun hz =>
    r.data.nulFree (hz ▸ List.getElem_mem hlt)
  have hparse : parse (r.data.bytes.drop (r.brace - 1)) = r.tree := by
    rw [hcons, hjson.skip _ _ hb0 hb]
    rfl
  rw [recvProcess, htext, Fueled.ok_bind]
  show (Fueled.of (useJson (parse _) vars) >>= _) = _
  rw [hparse]

theorem Matches.recv (hjson : ImplementsJson parse) {s : Session} {t : Tracker} (h : Matches s t)
    {r : Response parse} (hr : r.Admitted t.id) :
    ∃ s', s.step (.recv r) = .ok s' ∧ Matches s' (t.recv r) := by
  obtain ⟨hid, hfresh, hpc, hsent⟩ := h
  obtain ⟨htree, herrno⟩ := member_errno_ne_null r
  have huse := useJson_eq htree (hjson.strings _) herrno hr.data hr.device s.vars
  rw [Session.step, recvProcess_admitted hjson hr, huse, Tracker.recv]
  cases hdev : deviceId? r.tree with
  | none => exact ⟨s, rfl, hid, hfresh, hpc, hsent⟩
  | some id =>
    obtain ⟨hold, h19⟩ := hr.length id hdev
    obtain ⟨DeviceID, hcopy, hholds⟩ := copyId_holds hid id hold h19
    simp only [hcopy, if_pos h19]
    exact ⟨_, rfl, hholds, by simp, hpc, hsent⟩

/-- Every response of the session is admitted where it comes in. -/
def AllAdmitted : Tracker → List (Act parse) → Prop
  | _, [] => True
  | t, .recv r :: acts => r.Admitted t.id ∧ AllAdmitted (t.recv r) acts
  | t, .wake malloc :: acts => AllAdmitted (t.wake malloc) acts

theorem session_matches (hjson : ImplementsJson parse) : ∀ (acts : List (Act parse)) {s : Session}
    {t : Tracker}, Matches s t → AllAdmitted t acts →
    ∃ s', session s acts = .ok s' ∧ Matches s' (acts.foldl Tracker.step t) := by
  intro acts
  induction acts with
  | nil => intro s t h _; exact ⟨s, rfl, h⟩
  | cons act acts ih =>
    intro s t h hall
    obtain ⟨s', hs', hm, hall'⟩ : ∃ s', s.step act = .ok s' ∧ Matches s' (t.step act) ∧
        AllAdmitted (t.step act) acts := by
      cases act with
      | recv r =>
        obtain ⟨s', hs', hm⟩ := h.recv hjson hall.1
        exact ⟨s', hs', hm, hall.2⟩
      | wake malloc =>
        obtain ⟨s', hs', hm⟩ := h.wake malloc
        refine ⟨s', ?_, hm, hall⟩
        rw [Session.step, hs', Fueled.of_ok]
    rw [session, hs', Fueled.ok_bind, List.foldl_cons]
    exact ih hm hall'

theorem follows_of_admitted (hjson : ImplementsJson parse) {acts : List (Act parse)}
    (h : AllAdmitted .initial acts) : Follows acts := by
  obtain ⟨s, hs, hm⟩ := session_matches hjson acts matches_initial h
  exact ⟨s, hs, hm.id.strOf, hm.sent⟩

/-- **The parser is never given the text at the brace; for the rest, the session follows the tracker
as long as every response is admitted where it comes in.** -/
theorem session_tracks (hjson : ImplementsJson parse) :
    (∀ acts : List (Act parse), (∃ r, Act.recv r ∈ acts) → ¬Tracks acts) ∧
      ∀ acts : List (Act parse), AllAdmitted .initial acts → Follows acts := by
  refine ⟨fun acts ⟨r, hr⟩ h => parserText_ne hjson r (h.1 r hr), fun acts => ?_⟩
  exact follows_of_admitted hjson

/-! ### Two devices -/

/-- An object with `errno` 0 and a `device_id`. -/
def deviceTree (id : CString) : CJson :=
  .item .null (.item
    (.item .null (.item .null .null cJSON_String (some id) 0 (.ofInt 0) (some deviceIdName))
      cJSON_Object none 0 (.ofInt 0) (some dataName))
    .null cJSON_Number none 0 (.ofInt 0) (some errnoName)) cJSON_Object none 0 (.ofInt 0) none

/-- The id is 1001. -/
def text1001 : List UInt8 :=
  [0x7b, 0x22, 0x65, 0x72, 0x72, 0x6e, 0x6f, 0x22, 0x3a, 0x30, 0x2c, 0x22, 0x64, 0x61, 0x74,
    0x61, 0x22, 0x3a, 0x7b, 0x22, 0x64, 0x65, 0x76, 0x69, 0x63, 0x65, 0x5f, 0x69, 0x64, 0x22,
    0x3a, 0x22, 0x31, 0x30, 0x30, 0x31, 0x22, 0x7d, 0x7d]

/-- The id is 77. -/
def text77 : List UInt8 :=
  [0x7b, 0x22, 0x65, 0x72, 0x72, 0x6e, 0x6f, 0x22, 0x3a, 0x30, 0x2c, 0x22, 0x64, 0x61, 0x74,
    0x61, 0x22, 0x3a, 0x7b, 0x22, 0x64, 0x65, 0x76, 0x69, 0x63, 0x65, 0x5f, 0x69, 0x64, 0x22,
    0x3a, 0x22, 0x37, 0x37, 0x22, 0x7d, 0x7d]

def id1001 : CString := ⟨[0x31, 0x30, 0x30, 0x31], by decide⟩

def id77 : CString := ⟨[0x37, 0x37], by decide⟩

/-- A parser that knows two texts. -/
def parseTwo (text : List UInt8) : CJson :=
  let rest := text.dropWhile fun b => b ≠ 0 ∧ b ≤ 0x20
  if rest = text1001 then deviceTree id1001
  else if rest = text77 then deviceTree id77
  else .null

theorem parseTwo_implementsJson : ImplementsJson parseTwo := by
  refine ⟨fun b t hb0 hb => ?_, fun t => ?_, fun t => ?_⟩
  · have hskip : (b :: t).dropWhile (fun b => decide (b ≠ 0 ∧ b ≤ 0x20)) =
        t.dropWhile fun b => decide (b ≠ 0 ∧ b ≤ 0x20) :=
      List.dropWhile_cons_of_pos (decide_eq_true ⟨hb0, hb⟩)
    unfold parseTwo
    rw [hskip]
  · have hstop : (0x7b :: 0x7b :: t).dropWhile (fun b : UInt8 => decide (b ≠ 0 ∧ b ≤ 0x20)) =
        0x7b :: 0x7b :: t := List.dropWhile_cons_of_neg (by decide)
    unfold parseTwo
    rw [hstop, if_neg (fun h => by cases h), if_neg (fun h => by cases h)]
  · have hdevice : ∀ id, StringsSet (deviceTree id) := by
      intro id
      simp [deviceTree, StringsSet, cJSON_Object, cJSON_Number, cJSON_String]
    show StringsSet (if _ then _ else _)
    split
    · exact hdevice _
    · split
      · exact hdevice _
      · exact trivial

/-- `200 OK`, a line break and the text. -/
def responseText (text : List UInt8) : List UInt8 := okText.bytes ++ 0x0a :: text

def response1001 : Response parseTwo where
  data := ⟨responseText text1001, by decide⟩
  fits := by decide
  brace := 9
  ok := ⟨0, by decide, by decide⟩
  opened := ⟨_, rfl⟩
  object := ⟨_, _, _, _, _, _, _, _, _, _, _, rfl⟩

def response77 : Response parseTwo where
  data := ⟨responseText text77, by decide⟩
  fits := by decide
  brace := 9
  ok := ⟨0, by decide, by decide⟩
  opened := ⟨_, rfl⟩
  object := ⟨_, _, _, _, _, _, _, _, _, _, _, rfl⟩

theorem admitted_response77 : response77.Admitted [] where
  first := by decide
  white := by
    intro b hb
    cases hb
    decide
  data := by decide
  device := by
    intro _ d hd
    cases hd
    decide
  length := by
    intro id hid
    cases hid
    decide

theorem admitted_response1001 : response1001.Admitted [0x37, 0x37] where
  first := by decide
  white := by
    intro b hb
    cases hb
    decide
  data := by decide
  device := by
    intro _ d hd
    cases hd
    decide
  length := by
    intro id hid
    cases hid
    decide

/-- A longer id after a shorter one. -/
theorem session_tracks_longer :
    ImplementsJson parseTwo ∧
      AllAdmitted .initial [.recv response77, .recv response1001, .wake true] ∧
      (∃ r, Act.recv r ∈ [Act.recv response77, .recv response1001, .wake true]) ∧
      ¬Tracks [.recv response77, .recv response1001, .wake true] ∧
      Follows [.recv response77, .recv response1001, .wake true] := by
  have hall : AllAdmitted .initial [.recv response77, .recv response1001, .wake true] :=
    ⟨admitted_response77, admitted_response1001, trivial⟩
  have hmem : ∃ r, Act.recv r ∈ [Act.recv response77, .recv response1001, .wake true] :=
    ⟨_, List.mem_cons_self⟩
  exact ⟨parseTwo_implementsJson, hall, hmem, (session_tracks parseTwo_implementsJson).1 _ hmem,
    (session_tracks parseTwo_implementsJson).2 _ hall⟩

/-- The text for the parser starts in front of the brace, and of the longer id the end is left. -/
theorem session_mixes_ids :
    ImplementsJson parseTwo ∧
      parserText response77.data = .ok (.inr (0x0a :: text77)) ∧
      (∃ s, session .initial [.recv response1001, .recv response77] = .ok s ∧
        strOf s.vars.DeviceID = .ok [0x37, 0x37, 0x30, 0x31]) ∧
      ([Act.recv response1001, .recv response77].foldl Tracker.step .initial).id = [0x37, 0x37] ∧
      ¬Tracks [.recv response1001, .recv response77] := by
  have htext : parserText response77.data = .ok (.inr (0x0a :: text77)) := by rfl
  refine ⟨parseTwo_implementsJson, htext, ⟨_, rfl, rfl⟩, rfl, fun h => ?_⟩
  have hbrace := h.1 response77 (List.mem_cons_of_mem _ List.mem_cons_self)
  rw [htext] at hbrace
  exact absurd (Sum.inr.inj (Outcome.ok.inj (Option.some.inj hbrace))) (by decide)

end Nl6621.NuAgent.RestFul
