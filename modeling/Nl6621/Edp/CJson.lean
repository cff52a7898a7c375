import Nl6621.Lib.Double
import Nl6621.Lib.Memory

/-!
# The items of `cJSON.c`

A `cJSON *` is NULL or points to an item, whose `next` and `child` are such pointers again: the
items of an array or an object are the chain behind its `child`.  An item is put into one array or
object only and is not changed afterwards, so that a pointer can be the tree behind it.  The memory
for an item is taken to be there.

`prev` is left out, as nothing here reads it.  A number has both of its values, `valueint` and
`valuedouble`; that they are the same is said where it is needed, as sensors make numbers that are no
integers and a text can have fractions in it.

Reading through NULL is a fault, and so is the length of a string that is NULL.
-/

namespace Nl6621.Edp

open Lib

inductive CJson where
  | null
  | item (next child : CJson) (type : Nat) (valuestring : Option CString) (valueint : Int32)
      (valuedouble : Double) (string : Option CString)
deriving DecidableEq

def cJSON_Number : Nat := 3
def cJSON_String : Nat := 4
def cJSON_Array : Nat := 5
def cJSON_Object : Nat := 6

namespace CJson

/-! ### Building -/

/-- Of an `int`, which is made a double and comes back from it. -/
def createNumber (num : Int32) : CJson :=
  .item .null .null cJSON_Number none num (.ofInt num) none

def createString (string : CString) : CJson :=
  .item .null .null cJSON_String (some string) 0 (.ofInt 0) none

def createArray : CJson := .item .null .null cJSON_Array none 0 (.ofInt 0) none

def createObject : CJson := .item .null .null cJSON_Object none 0 (.ofInt 0) none

/-- The chain with the item behind its last one. -/
def suffix : CJson → CJson → CJson
  | .null, last => last
  | .item next child type valuestring valueint valuedouble string, last =>
    .item (suffix next last) child type valuestring valueint valuedouble string

def addItemToArray (array last : CJson) : Outcome CJson :=
  match array with
  | .null => .fault
  | .item next child type valuestring valueint valuedouble string =>
    .ok (.item next (child.suffix last) type valuestring valueint valuedouble string)

def addItemToObject (object : CJson) (string : CString) (last : CJson) : Outcome CJson :=
  match last with
  | .null => .ok object
  | .item next child type valuestring valueint valuedouble _ =>
    object.addItemToArray (.item next child type valuestring valueint valuedouble (some string))

def addStringToObject (object : CJson) (name s : CString) : Outcome CJson :=
  object.addItemToObject name (createString s)

/-! ### Reading -/

def tolower (c : UInt8) : UInt8 := if 0x41 ≤ c ∧ c ≤ 0x5a then c + 0x20 else c

/-- `cJSON_strcasecmp` on two strings, without their terminators. -/
def strcasecmp : List UInt8 → List UInt8 → Int
  | [], [] => 0
  | [], b :: _ => -(tolower b).toNat
  | a :: _, [] => (tolower a).toNat
  | a :: s1, b :: s2 =>
    if tolower a = tolower b then strcasecmp s1 s2 else (tolower a).toNat - (tolower b).toNat

def nameCmp : Option CString → CString → Int
  | none, _ => 1
  | some s1, s2 => strcasecmp s1.bytes s2.bytes

/-- `item->child` -/
def getChild : CJson → Outcome CJson
  | .null => .fault
  | .item _ child _ _ _ _ _ => .ok child

/-- `item->type` -/
def getType : CJson → Outcome Nat
  | .null => .fault
  | .item _ _ type _ _ _ _ => .ok type

/-- `item->valueint` -/
def getValueint : CJson → Outcome Int32
  | .null => .fault
  | .item _ _ _ _ valueint _ _ => .ok valueint

/-- `item->valuestring` -/
def getValuestring : CJson → Outcome (Option CString)
  | .null => .fault
  | .item _ _ _ valuestring _ _ _ => .ok valuestring

/-- `item->string` -/
def getString : CJson → Outcome (Option CString)
  | .null => .fault
  | .item _ _ _ _ _ _ string => .ok string

def chainLength : CJson → Nat
  | .null => 0
  | .item next _ _ _ _ _ _ => next.chainLength + 1

def getArraySize (array : CJson) : Outcome Nat :=
  array.getChild.bind fun c => .ok c.chainLength

def chainItem : CJson → Nat → CJson
  | .null, _ => .null
  | .item next child type valuestring valueint valuedouble string, 0 =>
    .item next child type valuestring valueint valuedouble string
  | .item next _ _ _ _ _ _, i + 1 => next.chainItem i

def getArrayItem (array : CJson) (i : Nat) : Outcome CJson :=
  array.getChild.bind fun c => .ok (c.chainItem i)

def chainFind (name : CString) : CJson → CJson
  | .null => .null
  | .item next child type valuestring valueint valuedouble string =>
    if nameCmp string name ≠ 0 then chainFind name next
    else .item next child type valuestring valueint valuedouble string

def getObjectItem (object : CJson) (name : CString) : Outcome CJson :=
  object.getChild.bind fun c => .ok (c.chainFind name)

end CJson

/-- `strlen(s)` and the copy of the string with its terminator, to a new object. -/
def strdup : Option CString → Outcome (List UInt8)
  | none => .fault
  | some s => .ok (s.bytes ++ [0])

end Nl6621.Edp
