import Nl6621.Edp.Savedata
import Nl6621.Json.Safe
import Nl6621.NuAgent.RestFul

/-!
# The two users of `cJSON.c`

The packets of data points and the responses of the device interface go through a JSON library that
their models take as a parameter.  Here it is the one of the repository.

`savedata_cJSON`: the object of a data point, with an `int` or a string as its value, is a tree of
integers and comes back from its own text, so that it is only the lengths, and for the full form the
variable that is read too early, that can lose a data point.  `session_cJSON`: the library is as the
session with the device interface wants it, and reads none of the texts it is given beyond its end if
no escape in them is cut short.
-/

namespace Nl6621.Json

open Lib Edp Edp.Message NuAgent.RestFul

/-! ### The library as functions -/

/-- The text of a tree.  There is one for every tree that is built here. -/
def printText (t : CJson) : CString :=
  match cJSON_Print t with
  | .ok (some s) => s
  | _ => ⟨[], nulFree_nil⟩

/-- The tree of a text, without its terminator, or NULL. -/
def parseText (arith : Numeral → Double × Int32) (text : List UInt8) : CJson :=
  match cJSON_Parse arith (text.length + 2) (text ++ [0]) with
  | .ok t _ => t
  | _ => .null

def parseTree (arith : Numeral → Double × Int32) (text : List UInt8) : Option CJson :=
  if parseText arith text = .null then none else some (parseText arith text)

variable {arith : Numeral → Double × Int32}

/-! ### Data points -/

/-- An item that has been created, under the name that it gets. -/
def Item.under (item : Item) (name : CString) : Item := { item with string := some name }

/-- The item is one that comes back from its own text. -/
structure Item.Integral (named : Bool) (item : Item) : Prop where
  settled : item.Settled named
  integers : Integers (item.link .null)

theorem integers_chain {named : Bool} {items : List Item}
    (h : ∀ item ∈ items, item.Integral named) : Integers (chain items) := by
  induction items with
  | nil => trivial
  | cons item items ih =>
    obtain ⟨h1, h2, h3, -⟩ := (h item List.mem_cons_self).integers
    exact ⟨h1, h2, h3, ih fun it hit => h it (List.mem_cons_of_mem item hit)⟩

/-- It does so with any name. -/
def Created (item : Item) : Prop :=
  item.string = none ∧ item.Integral false ∧ ∀ name, (item.under name).Integral true

theorem created_of_fresh {type : Nat} {valuestring : Option CString} {valueint : Int32}
    {valuedouble : Double} {child : CJson}
    (h : ∀ named item, Fresh named item →
      Item.Settled named ⟨child, type, valuestring, valueint, valuedouble, item.string⟩)
    (hints : Integers (.item .null child type valuestring valueint valuedouble none)) :
    Created ⟨child, type, valuestring, valueint, valuedouble, none⟩ := by
  refine ⟨rfl, ⟨h false Item.new ⟨rfl, rfl, rfl, rfl, rfl⟩, hints⟩, fun name => ⟨?_, hints⟩⟩
  exact h true ⟨.null, 0, none, 0, .ofInt 0, some name⟩ ⟨rfl, rfl, rfl, rfl, rfl⟩

def numberItem (n : Int32) : Item := ⟨.null, cJSON_Number, none, n, .ofInt n, none⟩

def stringItem (str : CString) : Item := ⟨.null, cJSON_String, some str, 0, .ofInt 0, none⟩

def arrayItem (items : List Item) : Item := ⟨chain items, cJSON_Array, none, 0, .ofInt 0, none⟩

def objectItem (items : List Item) : Item := ⟨chain items, cJSON_Object, none, 0, .ofInt 0, none⟩

theorem created_number (n : Int32) : Created (numberItem n) :=
  created_of_fresh (fun _ _ hf => hf.settled (by decide) rfl rfl rfl (fun _ _ => rfl)
    (fun h => by cases h) fun h => by cases h)
    ⟨fun _ => rfl, fun _ => trivial, fun _ => trivial, trivial⟩

theorem created_string (str : CString) : Created (stringItem str) :=
  created_of_fresh (fun _ _ hf => hf.settled (by decide) rfl rfl rfl (fun _ _ => rfl)
    (fun h => by cases h) fun h => by cases h)
    ⟨fun h => (by cases h), fun _ => trivial, fun _ => trivial, trivial⟩

theorem created_array {items : List Item} (h : ∀ it ∈ items, it.Integral false) :
    Created (arrayItem items) := by
  obtain ⟨hp, hs⟩ := chain_settled fun it hit => (h it hit).settled
  have hints := integers_chain h
  exact created_of_fresh (fun _ _ hf => hf.settled (by decide) rfl rfl rfl (fun h => absurd rfl h)
    (fun _ => ⟨hp, congrArg chain hs⟩) fun h => by cases h)
    ⟨fun h => (by cases h), fun _ => hints, fun _ => hints, trivial⟩

theorem created_object {items : List Item} (h : ∀ it ∈ items, it.Integral true) :
    Created (objectItem items) := by
  obtain ⟨hp, hs⟩ := chain_settled fun it hit => (h it hit).settled
  have hints := integers_chain h
  exact created_of_fresh (fun _ _ hf => hf.settled (by decide) rfl rfl rfl (fun _ h => absurd rfl h)
    (fun h => by cases h) fun _ => ⟨hp, congrArg chain hs⟩)
    ⟨fun h => (by cases h), fun _ => hints, fun _ => hints, trivial⟩

theorem integral_pair {named : Bool} {a b : Item} (ha : a.Integral named) (hb : b.Integral named) :
    ∀ it ∈ [a, b], it.Integral named := by
  intro it hit
  rcases List.mem_cons.mp hit with rfl | hit
  · exact ha
  · rw [List.mem_singleton.mp hit]
    exact hb

theorem integral_single {named : Bool} {a : Item} (ha : a.Integral named) :
    ∀ it ∈ [a], it.Integral named := by
  intro it hit
  rw [List.mem_singleton.mp hit]
  exact ha

/-- **A tree of integers comes back from its text.** -/
theorem parse_printText {item : Item} (h : item.Integral false) :
    parseTree arith (printText (item.link .null)).bytes = some (item.link .null) := by
  have hprint : cJSON_Print (item.link .null) = .ok (some (render true (item.link .null) 0)) :=
    printValue_eq h.settled.printable 0
  have hparse : cJSON_ParseWithOpts arith _ _ false = .ok (readBack (item.link .null)) [0] :=
    parse_print hprint h.integers (Nat.lt_succ_self _) false
  have hback : readBack (item.link .null) = item.link .null :=
    congrArg (Item.link · .null) h.settled.same
  have htext : printText (item.link .null) = render true (item.link .null) 0 := by
    rw [printText, hprint]
  rw [CString.length_obj, hback] at hparse
  have htree : parseText arith (render true (item.link .null) 0).bytes = item.link .null := by
    have hcall : cJSON_Parse arith ((render true (item.link .null) 0).bytes.length + 2)
        ((render true (item.link .null) 0).bytes ++ [0]) = .ok (item.link .null) [0] := hparse
    rw [parseText, hcall]
  rw [htext, parseTree, htree, if_neg (fun h => by cases h)]

/-- The way a value is put into an item gives an item as it is created. -/
def Creates {α β : Type} (m : Med α β) : Prop :=
  ∀ v, ∃ item, m.create v = item.link .null ∧ Created item

theorem creates_medInt : Creates medInt := fun n => ⟨numberItem n, rfl, created_number n⟩

theorem creates_medString : Creates medString := fun s => ⟨stringItem s, rfl, created_string s⟩

/-- **The object of a data point is a tree of integers**, in each of the forms. -/
theorem object_integral {α β : Type} {m : Med α β} (hm : Creates m) {form : Form} {ctime : Ctime}
    {dsId : CString} {value : α} {token : Option CString} {obj : CJson}
    (h : form.object m ctime dsId value token = .ok obj) :
    ∃ item : Item, obj = item.link .null ∧ item.Integral false := by
  obtain ⟨it, hit, hstr, -, hname⟩ := hm value
  obtain ⟨child, type, valuestring, valueint, valuedouble, string⟩ := it
  have hnone : string = none := hstr
  subst hnone
  cases form with
  | simple =>
    have hobj : objectType2 m dsId value = .ok obj := h
    rw [objectType2, hit] at hobj
    cases hobj
    exact ⟨objectItem [_], rfl, (created_object (integral_single (hname dsId))).2.1⟩
  | simpleWithTime =>
    have hobj : objectType3 m ctime dsId value = .ok obj := h
    rw [objectType3, formatAt_ok, hit] at hobj
    cases hobj
    have hinner := created_object (integral_single (hname ctime.text))
    exact ⟨objectItem [_], rfl, (created_object (integral_single (hinner.2.2 dsId))).2.1⟩
  | full =>
    have hobj : objectType1 m ctime dsId value token = .ok obj := h
    rw [objectType1, formatAt_ok, hit] at hobj
    have hpoint := created_object
      (integral_pair ((created_string ctime.text).2.2 keyAt) (hname keyValue))
    have hpoints := created_array (integral_single hpoint.2.1)
    have hstream := created_object
      (integral_pair ((created_string dsId).2.2 keyId) (hpoints.2.2 keyDatapoints))
    have hstreams := created_array (integral_single hstream.2.1)
    cases token with
    | none =>
      cases hobj
      exact ⟨objectItem [_], rfl, (created_object (integral_single (hstreams.2.2 keyDatastreams))).2.1⟩
    | some token =>
      cases hobj
      have hroot := created_object
        (integral_pair ((created_string token).2.2 keyToken) (hstreams.2.2 keyDatastreams))
      exact ⟨objectItem [_, _], rfl, hroot.2.1⟩

/-- **A data point, printed and parsed by `cJSON.c`.**  For an `int` or a string as the value, and a
text of no more than 65535 bytes, it comes back exactly when the remaining length fits into its field
and, for the full form, what `json_obj` happens to hold shows it. -/
theorem savedata_cJSON (arith : Numeral → Double × Int32) (form : Form) (ctime : Ctime)
    (dst : Option CString) (dsId : CString) (token : Option CString) :
    (∀ (value : Int32) (obj : CJson) (w : SavedataVars Int32),
      form.object medInt ctime dsId value token = .ok obj → (printText obj).strlen ≤ 65535 →
        (RoundTrips (packetSavedataInt printText form.type dst dsId value ctime token)
            (unpackSavedataInt (parseTree arith)) w dsId (fun n => n = value) ↔
          savedataRemainlen dst (1 + (2 + (printText obj).strlen)) < 2 ^ 28 ∧
            (form = .full → ShowsFull medInt w.jsonObj dsId fun n => n = value))) ∧
      ∀ (value : CString) (obj : CJson) (w : SavedataVars (List UInt8)),
        form.object medString ctime dsId value token = .ok obj → (printText obj).strlen ≤ 65535 →
          (RoundTrips (packetSavedataString printText form.type dst dsId value ctime token)
              (unpackSavedataString (parseTree arith)) w dsId (fun s => IsString s value) ↔
            savedataRemainlen dst (1 + (2 + (printText obj).strlen)) < 2 ^ 28 ∧
              (form = .full → ShowsFull medString w.jsonObj dsId fun s => IsString s value)) := by
  constructor
  · intro value obj w hobj hlen
    obtain ⟨item, rfl, hs⟩ := object_integral creates_medInt hobj
    exact roundTrips_iff printText (parseTree arith) dst medInt_reads hobj hlen (parse_printText hs) w
  · intro value obj w hobj hlen
    obtain ⟨item, rfl, hs⟩ := object_integral creates_medString hobj
    exact roundTrips_iff printText (parseTree arith) dst medString_reads hobj hlen
      (parse_printText hs) w

/-- The data point 1 under the id `t`. -/
theorem savedata_cJSON_simple :
    RoundTrips (packetSavedataInt printText kTypeSimpleJsonWithoutTime none idT 1 epoch none)
      (unpackSavedataInt (parseTree fun _ => (.nan, 0))) freshVars idT (fun n => n = 1) := by
  refine ((savedata_cJSON (fun _ => (.nan, 0)) .simple epoch none idT none).1 1 simpleObject
    freshVars rfl (by decide +kernel)).mpr ⟨by decide +kernel, fun h => ?_⟩
  cases h

/-! ### The device interface -/

theorem stringsSet_of_printable {named : Bool} : ∀ {t : CJson}, Printable named t →
    chain (readItems named t) = t → StringsSet t := by
  intro t
  induction t generalizing named with
  | null =>
    intro _ _
    trivial
  | item next child type valuestring valueint valuedouble string ihNext ihChild =>
    intro hp hsame
    obtain ⟨-, -, hstring, harray, hobject, hnext⟩ := hp
    injection hsame with hnextSame hchild htype
    refine ⟨fun ht => hstring ?_, ihNext hnext hnextSame, ?_⟩
    · rw [ht]
      rfl
    · have hread : (if type % 256 = cJSON_Array then chain (readItems false child)
          else if type % 256 = cJSON_Object then chain (readItems true child) else .null) = child :=
        hchild
      split_ifs at hread with ha ho
      · exact ihChild (harray ha) hread
      · exact ihChild (hobject ho) hread
      · rw [← hread]
        trivial

/-- With the fuel for a longer text, too, the tree is the one of the text. -/
theorem parseText_eq {fuel : Nat} {text : List UInt8} (hfuel : text.length + 1 < fuel) :
    parseText arith text =
      match cJSON_Parse arith fuel (text ++ [0]) with
      | .ok t _ => t
      | _ => .null := by
  have hlen : (text ++ [0]).length < text.length + 2 := by
    rw [List.length_append, List.length_singleton]
    omega
  have hend := ending_parse (W := False) arith hlen (fun h => h.elim) false
  have hmore : cJSON_Parse arith fuel (text ++ [0]) = cJSON_Parse arith (text.length + 2) (text ++ [0]) :=
    parse_more hend.fueled (by omega)
  rw [hmore, parseText]

/-- **The library is as the session with the device interface wants it.** -/
theorem parseText_implementsJson (arith : Numeral → Double × Int32) :
    ImplementsJson (parseText arith) where
  skip b t h0 hle := by
    have hblank : skip ((b :: t) ++ [0]) = skip (t ++ [0]) := if_pos ⟨h0, hle⟩
    have hsame : cJSON_Parse arith ((b :: t).length + 2) ((b :: t) ++ [0]) =
        cJSON_Parse arith ((b :: t).length + 2) (t ++ [0]) := by
      rw [cJSON_Parse, cJSON_Parse, cJSON_ParseWithOpts, cJSON_ParseWithOpts, hblank]
    rw [parseText, hsame]
    exact (parseText_eq (by rw [List.length_cons]; omega)).symm
  braces t := by
    have hnull : cJSON_Parse arith (t.length + 4) (0x7b :: 0x7b :: (t ++ [0])) =
        .null (0x7b :: (t ++ [0])) := by
      have hskip : skip (0x7b :: (t ++ [0])) = .ok () (0x7b :: (t ++ [0])) :=
        skip_cons (by decide) _
      have hitems : parseItems (parseMember (parseValue arith (t.length + 3)) (t.length + 3)) 0x7d
          (t.length + 3) (0x7b :: (t ++ [0])) = .null (0x7b :: (t ++ [0])) := by
        rw [parseItems, hskip, Parsed.ok_bind]
        rfl
      have hvalue : parseValue arith (t.length + 4) Item.new (0x7b :: 0x7b :: (t ++ [0])) =
          .null (0x7b :: (t ++ [0])) := by
        rw [parseValue_cons (by decide) (by decide) (by decide), if_neg (by decide),
          if_neg (by decide), if_neg (by decide), if_pos rfl, parseObject, parseBracket,
          if_neg (fun h => h rfl), hskip, Parsed.ok_bind]
        simp only [if_neg (show ¬(0x7b : UInt8) = 0x7d by decide), hitems]
        rfl
      have hskip' : skip (0x7b :: 0x7b :: (t ++ [0])) = .ok () (0x7b :: 0x7b :: (t ++ [0])) :=
        skip_cons (by decide) _
      rw [cJSON_Parse, cJSON_ParseWithOpts, hskip', Parsed.ok_bind, hvalue]
      rfl
    show (match cJSON_Parse arith (t.length + 4) (0x7b :: 0x7b :: (t ++ [0])) with
      | .ok t _ => t
      | _ => .null) = CJson.null
    rw [hnull]
  strings t := by
    have hlen : (t ++ [0]).length < t.length + 2 := by
      rw [List.length_append, List.length_singleton]
      omega
    have hend := ending_parse (W := False) arith hlen (fun h => h.elim) false
    rw [parseText]
    cases hparse : cJSON_Parse arith (t.length + 2) (t ++ [0]) with
    | ok tree rest =>
      obtain ⟨⟨-, hp, hs⟩, -⟩ := hend.post tree rest hparse
      cases tree with
      | null => trivial
      | item next child type valuestring valueint valuedouble string =>
        have hnext : next = .null := by
          injection hs with hnext
          exact hnext.symm
        subst hnext
        exact stringsSet_of_printable hp hs
    | null ep => trivial
    | fault => trivial
    | spent => trivial

/-- **A session with the device interface, its responses parsed by `cJSON.c`.**  It follows the
tracker as long as every response is admitted where it comes in; and if no escape is cut short in
the texts that are handed to the parser, it stays inside them. -/
theorem session_cJSON (arith : Numeral → Double × Int32) (acts : List (Act (parseText arith))) :
    (AllAdmitted .initial acts → Follows acts) ∧
      ∀ r text, Act.recv r ∈ acts → parserText r.data = .ok (.inr text) →
        whole (text ++ [0]) = true →
          (∃ rest, cJSON_Parse arith (text.length + 2) (text ++ [0]) =
              .ok (parseText arith text) rest) ∨
            parseText arith text = .null ∧
              ∃ ep, cJSON_Parse arith (text.length + 2) (text ++ [0]) = .null ep := by
  refine ⟨follows_of_admitted (parseText_implementsJson arith), fun r text _ _ hw => ?_⟩
  have hlen : (text ++ [0]).length < text.length + 2 := by
    rw [List.length_append, List.length_singleton]
    omega
  have hend := ending_parse (W := True) arith hlen (fun _ => hw) false
  rw [parseText]
  cases hparse : cJSON_Parse arith (text.length + 2) (text ++ [0]) with
  | ok tree rest => exact .inl ⟨rest, rfl⟩
  | null ep => exact .inr ⟨rfl, ep, rfl⟩
  | fault => exact absurd hparse (hend.safe trivial)
  | spent => exact absurd hparse hend.fueled

def jsonResponse77 : Response (parseText fun _ => (.nan, 0)) where
  data := response77.data
  fits := response77.fits
  brace := 9
  ok := response77.ok
  opened := ⟨_, rfl⟩
  object := ⟨_, _, _, _, _, _, _, _, _, _, _, rfl⟩

theorem admitted_jsonResponse77 : jsonResponse77.Admitted [] where
  first := by decide
  white := by
    intro b hb
    cases hb
    decide
  data := by decide
  device := by
    intro _ d hd
    cases hd
    decide
  length := by
    intro id hid
    cases hid
    decide

/-- A response is parsed inside its text, and the device gets its id. -/
theorem session_cJSON_77 :
    Follows [Act.recv jsonResponse77, .wake true] ∧
      ∃ rest, cJSON_Parse (fun _ => (.nan, 0)) 40 ((0x0a :: text77) ++ [0]) =
        .ok (parseText (fun _ => (.nan, 0)) (0x0a :: text77)) rest := by
  have hsession := session_cJSON (fun _ => (.nan, 0)) [Act.recv jsonResponse77, .wake true]
  have htext : parserText jsonResponse77.data = .ok (.inr (0x0a :: text77)) := rfl
  refine ⟨hsession.1 ⟨admitted_jsonResponse77, trivial⟩, ?_⟩
  rcases hsession.2 jsonResponse77 _ List.mem_cons_self htext (by decide) with h | ⟨h, -⟩
  · exact h
  · exact absurd h (by decide)

end Nl6621.Json
