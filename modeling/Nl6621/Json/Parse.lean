import Nl6621.Json.Print
import Nl6621.Lib.While
import Nl6621.Lib.Strings

/-!
# The parser of `cJSON.c`

A pointer into the text is the bytes from there to the end of the object that holds it, with the
terminator among them; reading behind the end is a fault.  A parse function fills in an item and
gives the place where it has stopped, or NULL with `ep` set.  `parse_string` goes over the string
twice: the first pass counts what the second one writes to a new object.  The memory for this object
and for the items (`cJSON_New_Item`) is taken to be there.

`parse_array` and `parse_object` have one loop, over what an element or a member is.  They call
`parse_value` again, and the fuel bounds the depth of this and the rounds of the loops.

The numbers are computed in doubles.  An integer without an exponent that an `int` can hold is exact
there; what `valuedouble` and `valueint` get for every other numeral is left to `arith`.
-/

namespace Nl6621.Json

open Lib Edp

/-! ### How a parse function ends -/

inductive Parsed (α : Type) where
  | ok (a : α) (rest : List UInt8)
  | null (ep : List UInt8)
  | fault
  | spent
deriving DecidableEq

namespace Parsed

variable {α β : Type}

def bind : Parsed α → (α → List UInt8 → Parsed β) → Parsed β
  | ok a rest, f => f a rest
  | null ep, _ => null ep
  | fault, _ => fault
  | spent, _ => spent

/-- A function that gives a value and a pointer. -/
def of : Fueled (α × List UInt8) → Parsed α
  | some (.ok (a, rest)) => ok a rest
  | some _ => fault
  | none => spent

@[simp] theorem ok_bind (a : α) (rest : List UInt8) (f : α → List UInt8 → Parsed β) :
    (ok a rest).bind f = f a rest := rfl

end Parsed

/-- The fields of an item that are set by parsing. -/
structure Item where
  child : CJson
  type : Nat
  valuestring : Option CString
  valueint : Int32
  valuedouble : Double
  string : Option CString
deriving DecidableEq

/-- `cJSON_New_Item` -/
def Item.new : Item := ⟨.null, 0, none, 0, .ofInt 0, none⟩

def Item.link (item : Item) (next : CJson) : CJson :=
  .item next item.child item.type item.valuestring item.valueint item.valuedouble item.string

def chain (items : List Item) : CJson := items.foldr Item.link .null

/-! ### Texts -/

def skip : List UInt8 → Parsed Unit
  | [] => .fault
  | c :: text => if c ≠ 0 ∧ c ≤ 32 then skip text else .ok () (c :: text)

/-- `strncmp` of `str_lib.c` -/
def strncmp : List UInt8 → List UInt8 → Nat → Outcome Int
  | _, _, 0 => .ok 0
  | a :: s1, b :: s2, n + 1 =>
    if a ≠ b then .ok (if a = 0 then -1 else if b = 0 then 1 else (a.toNat : Int) - b.toNat)
    else if a = 0 then .ok 0
    else strncmp s1 s2 n
  | _, _, _ + 1 => .fault

/-- `if (!strncmp(value, text, strlen(text))) ..` -/
def ifText {α : Type} (text value : List UInt8) (found : List UInt8 → Parsed α)
    (otherwise : Parsed α) : Parsed α :=
  match strncmp value text text.length with
  | .ok n => if n = 0 then found (value.drop text.length) else otherwise
  | _ => .fault

/-! ### Numbers -/

/-- What the characters of a number say.  A zero in front of the digits is not kept. -/
structure Numeral where
  neg : Bool
  digits : List UInt8
  fraction : List UInt8
  exponentNeg : Bool
  exponent : List UInt8
deriving DecidableEq

def isDigit (c : UInt8) : Bool := 0x30 ≤ c && c ≤ 0x39

/-- `if (*num == c) num++;` -/
def takeChar (c : UInt8) : List UInt8 → Outcome (Bool × List UInt8)
  | [] => .fault
  | d :: num => .ok (if d = c then (true, num) else (false, d :: num))

/-- `while (*num >= '0' && *num <= '9') ..` -/
def takeDigits : List UInt8 → Outcome (List UInt8 × List UInt8)
  | [] => .fault
  | c :: num =>
    if isDigit c then (takeDigits num).bind fun r => .ok (c :: r.1, r.2) else .ok ([], c :: num)

/-- `if (*num >= '1' && *num <= '9') do .. while (*num >= '0' && *num <= '9');` -/
def takeInteger : List UInt8 → Outcome (List UInt8 × List UInt8)
  | [] => .fault
  | c :: num => if 0x31 ≤ c ∧ c ≤ 0x39 then takeDigits (c :: num) else .ok ([], c :: num)

def takeFraction : List UInt8 → Outcome (List UInt8 × List UInt8)
  | [] => .fault
  | [c] => if c = 0x2e then .fault else .ok ([], [c])
  | c :: d :: num =>
    if c = 0x2e ∧ isDigit d then takeDigits (d :: num) else .ok ([], c :: d :: num)

/-- `if (*num == '+') num++; else if (*num == '-') signsubscale = -1, num++;` -/
def takeSign : List UInt8 → Outcome (Bool × List UInt8)
  | [] => .fault
  | c :: num => .ok (if c = 0x2b then (false, num) else if c = 0x2d then (true, num)
      else (false, c :: num))

def takeExponent : List UInt8 → Outcome ((Bool × List UInt8) × List UInt8)
  | [] => .fault
  | c :: num =>
    if c = 0x65 ∨ c = 0x45 then
      (takeSign num).bind fun s => (takeDigits s.2).bind fun e => .ok ((s.1, e.1), e.2)
    else .ok ((false, []), c :: num)

def scanNumber (num : List UInt8) : Outcome (Numeral × List UInt8) :=
  (takeChar 0x2d num).bind fun sign =>
    (takeChar 0x30 sign.2).bind fun zero =>
      (takeInteger zero.2).bind fun int =>
        (takeFraction int.2).bind fun frac =>
          (takeExponent frac.2).bind fun exp =>
            .ok (⟨sign.1, int.1, frac.1, exp.1.1, exp.1.2⟩, exp.2)

def digitsValue (digits : List UInt8) : Nat :=
  digits.foldl (fun n c => n * 10 + (c.toNat - 0x30)) 0

/-- `n` and `(int)n` -/
def Numeral.values (arith : Numeral → Double × Int32) (n : Numeral) : Double × Int32 :=
  let v : Int := if n.neg then -digitsValue n.digits else digitsValue n.digits
  if n.fraction = [] ∧ n.exponent = [] ∧ -2 ^ 31 ≤ v ∧ v < 2 ^ 31 then
    (.ofInt (Int32.ofInt v), Int32.ofInt v)
  else arith n

def parseNumber (arith : Numeral → Double × Int32) (item : Item) (num : List UInt8) :
    Parsed Item :=
  (Parsed.of (Fueled.of (scanNumber num))).bind fun n rest =>
    let v := n.values arith
    .ok { item with valuedouble := v.1, valueint := v.2, type := cJSON_Number } rest

/-! ### Strings -/

def hexValue (c : UInt8) : Option UInt32 :=
  if 0x30 ≤ c ∧ c ≤ 0x39 then some (c - 0x30).toUInt32
  else if 0x41 ≤ c ∧ c ≤ 0x46 then some (10 + (c - 0x41)).toUInt32
  else if 0x61 ≤ c ∧ c ≤ 0x66 then some (10 + (c - 0x61)).toUInt32
  else none

/-- The next `n` digits behind those that give `h`. -/
def hexDigits : Nat → UInt32 → List UInt8 → Outcome UInt32
  | 0, h, _ => .ok h
  | _ + 1, _, [] => .fault
  | n + 1, h, c :: str =>
    match hexValue c with
    | some d => hexDigits n ((h <<< 4) + d) str
    | none => .ok 0

def parseHex4 (str : List UInt8) : Outcome UInt32 := hexDigits 4 0 str

/-- `ptr += n` -/
def advance (n : Nat) (ptr : List UInt8) : Outcome (List UInt8) :=
  if n ≤ ptr.length then .ok (ptr.drop n) else .fault

def trail (uc : UInt32) : UInt8 := ((uc ||| 0x80) &&& 0xbf).toUInt8

def utf8 (uc : UInt32) : List UInt8 :=
  if uc < 0x80 then [uc.toUInt8]
  else if uc < 0x800 then [(uc >>> 6 ||| 0xc0).toUInt8, trail uc]
  else if uc < 0x10000 then [(uc >>> 12 ||| 0xe0).toUInt8, trail (uc >>> 6), trail uc]
  else [(uc >>> 18 ||| 0xf0).toUInt8, trail (uc >>> 12), trail (uc >>> 6), trail uc]

/-- The second half of a surrogate pair, from the backslash on. -/
def unescapePair (uc : UInt32) (ptr : List UInt8) : Outcome (List UInt8 × List UInt8) :=
  (charAt ptr 0).bind fun c =>
    if c ≠ backslash then .ok ([], ptr)
    else (charAt ptr 1).bind fun u =>
      if u ≠ 0x75 then .ok ([], ptr)
      else (parseHex4 (ptr.drop 2)).bind fun uc2 => (advance 6 ptr).bind fun rest =>
        if uc2 < 0xdc00 ∨ 0xdfff < uc2 then .ok ([], rest)
        else .ok (utf8 ((0x10000 : UInt32) + (((uc &&& 0x3ff) <<< 10) ||| (uc2 &&& 0x3ff))), rest)

/-- What is written for an escape, from behind the `u` on. -/
def unescapeU (ptr : List UInt8) : Outcome (List UInt8 × List UInt8) :=
  (parseHex4 ptr).bind fun uc => (advance 4 ptr).bind fun rest =>
    if 0xdc00 ≤ uc ∧ uc ≤ 0xdfff ∨ uc = 0 then .ok ([], rest)
    else if 0xd800 ≤ uc ∧ uc ≤ 0xdbff then unescapePair uc rest
    else .ok (utf8 uc, rest)

def unescapeChar (c : UInt8) : UInt8 :=
  if c = 0x62 then 8
  else if c = 0x66 then 12
  else if c = 0x6e then 10
  else if c = 0x72 then 13
  else if c = 0x74 then 9
  else c

/-- The first pass: `while (*ptr != '\"' && *ptr && ++len) if (*ptr++ == '\\') ptr++;` -/
def stringLen : List UInt8 → Outcome Nat
  | [] => .fault
  | c :: ptr =>
    if c = quote ∨ c = 0 then .ok 0
    else if c = backslash then
      match ptr with
      | [] => .fault
      | _ :: ptr => (stringLen ptr).bind fun n => .ok (n + 1)
    else (stringLen ptr).bind fun n => .ok (n + 1)

/-- A round of the second pass. -/
def unescapeRound (s : List UInt8 × Pen) : Fueled (List UInt8 × Pen ⊕ List UInt8 × Pen) :=
  match s.1 with
  | [] => .of .fault
  | c :: ptr =>
    if c = quote ∨ c = 0 then .ok (.inr s)
    else if c ≠ backslash then .of ((s.2.put [c]).bind fun out => .ok (.inl (ptr, out)))
    else
      match ptr with
      | [] => .of .fault
      | e :: ptr =>
        if e = 0x75 then
          .of ((unescapeU ptr).bind fun u => (s.2.put u.1).bind fun out => .ok (.inl (u.2, out)))
        else .of ((s.2.put [unescapeChar e]).bind fun out => .ok (.inl (ptr, out)))

/-- `*ptr2 = 0; if (*ptr == '\"') ptr++;` and the fields that are set. -/
def closeString (item : Item) (s : List UInt8 × Pen) : Outcome (Item × List UInt8) :=
  (s.2.put [0]).bind fun out => (takeChar quote s.1).bind fun c =>
    .ok ({ item with valuestring := some out.str, type := cJSON_String }, c.2)

/-- The two passes over a string, from behind the quote. -/
def takeString (fuel : Nat) (item : Item) (ptr : List UInt8) : Fueled (Item × List UInt8) := do
  let len ← Fueled.of (stringLen ptr)
  let s ← whileLoop unescapeRound fuel (ptr, Pen.malloc (len + 1))
  Fueled.of (closeString item s)

def parseString (fuel : Nat) (item : Item) : List UInt8 → Parsed Item
  | [] => .fault
  | c :: ptr => if c ≠ quote then .null (c :: ptr) else Parsed.of (takeString fuel item ptr)

/-! ### Arrays, objects and values -/

/-- The items up to the closing bracket, each of them parsed by `parse`. -/
def parseItems (parse : List UInt8 → Parsed Item) (close : UInt8) :
    Nat → List UInt8 → Parsed (List Item)
  | 0, _ => .spent
  | fuel + 1, value =>
    (skip value).bind fun _ value => (parse value).bind fun item value =>
      (skip value).bind fun _ value =>
        match value with
        | [] => .fault
        | c :: rest =>
          if c = 0x2c then
            (parseItems parse close fuel rest).bind fun items rest => .ok (item :: items) rest
          else if c = close then .ok [item] rest
          else .null (c :: rest)

/-- What `parse_array` and `parse_object` have in common. -/
def parseBracket (parse : List UInt8 → Parsed Item) (opening close : UInt8) (type fuel : Nat)
    (item : Item) : List UInt8 → Parsed Item
  | [] => .fault
  | c :: value =>
    if c ≠ opening then .null (c :: value)
    else (skip value).bind fun _ value =>
      match value with
      | [] => .fault
      | c :: rest =>
        if c = close then .ok { item with type := type } rest
        else (parseItems parse close fuel (c :: rest)).bind fun items rest =>
          .ok { item with type := type, child := chain items } rest

/-- `child->string = child->valuestring; child->valuestring = 0;` -/
def Item.named (item : Item) : Item := { item with string := item.valuestring, valuestring := none }

/-- A name, the colon and a value. -/
def parseMember (parse : Item → List UInt8 → Parsed Item) (fuel : Nat) (value : List UInt8) :
    Parsed Item :=
  (parseString fuel Item.new value).bind fun item value => (skip value).bind fun _ value =>
    match value with
    | [] => .fault
    | c :: rest =>
      if c ≠ 0x3a then .null (c :: rest)
      else (skip rest).bind fun _ value => parse item.named value

def parseArray (parse : Item → List UInt8 → Parsed Item) (fuel : Nat) :
    Item → List UInt8 → Parsed Item :=
  parseBracket (parse Item.new) 0x5b 0x5d cJSON_Array fuel

def parseObject (parse : Item → List UInt8 → Parsed Item) (fuel : Nat) :
    Item → List UInt8 → Parsed Item :=
  parseBracket (parseMember parse fuel) 0x7b 0x7d cJSON_Object fuel

def parseValue (arith : Numeral → Double × Int32) : Nat → Item → List UInt8 → Parsed Item
  | 0, _, _ => .spent
  | fuel + 1, item, value =>
    ifText nullText value (fun rest => .ok { item with type := cJSON_NULL } rest) <|
      ifText falseText value (fun rest => .ok { item with type := cJSON_False } rest) <|
        ifText trueText value (fun rest => .ok { item with type := cJSON_True, valueint := 1 } rest) <|
          match value with
          | [] => .fault
          | c :: _ =>
            if c = quote then parseString fuel item value
            else if c = 0x2d ∨ isDigit c then parseNumber arith item value
            else if c = 0x5b then parseArray (parseValue arith fuel) fuel item value
            else if c = 0x7b then parseObject (parseValue arith fuel) fuel item value
            else .null value

/-- The root, and where the text has ended. -/
def cJSON_ParseWithOpts (arith : Numeral → Double × Int32) (fuel : Nat) (value : List UInt8)
    (require_null_terminated : Bool) : Parsed CJson :=
  (skip value).bind fun _ value =>
    (parseValue arith fuel Item.new value).bind fun c last =>
      if require_null_terminated then
        (skip last).bind fun _ last =>
          match last with
          | [] => .fault
          | b :: rest => if b ≠ 0 then .null (b :: rest) else .ok (c.link .null) (b :: rest)
      else .ok (c.link .null) last

def cJSON_Parse (arith : Numeral → Double × Int32) (fuel : Nat) (value : List UInt8) : Parsed CJson :=
  cJSON_ParseWithOpts arith fuel value false

end Nl6621.Json
