import Nl6621.Edp.CJson
import Nl6621.Lib.Pen

/-!
# The printer of `cJSON.c`

`print_value` gives an item as a string in an object of its own.  The strings of the items in an
array or an object are made first; their lengths give the size of the object that takes them
together, in which the terminator is written again and again while the text grows.  `cJSON_malloc`
is taken to succeed.

A number is printed with `%d` when its `valuedouble` is its `valueint`, up to `DBL_EPSILON`, and with
one of the formats for a double otherwise.  The texts of the doubles are those of `Lib.Double`, and
`length_doubleText_le` says that 64 bytes are enough for them.

`render` is the text that is meant.  `printValue_eq` says that the printer makes just this text, and
never leaves an object it writes to, for the items that `Printable` describes: those of the seven
types in which no string that is needed is NULL.  For every other item there is no text: either
`print_value` gives NULL or `print_string_ptr` reads through NULL, as it looks for the
characters to escape before it asks if there is a string at all.
-/

namespace Nl6621.Json

open Lib Edp

def cJSON_False : Nat := 0
def cJSON_True : Nat := 1
def cJSON_NULL : Nat := 2

/-! ### The characters -/

def quote : UInt8 := 0x22
def backslash : UInt8 := 0x5c

/-- `null` -/
def nullText : List UInt8 := [0x6e, 0x75, 0x6c, 0x6c]

/-- `false` -/
def falseText : List UInt8 := [0x66, 0x61, 0x6c, 0x73, 0x65]

/-- `true` -/
def trueText : List UInt8 := [0x74, 0x72, 0x75, 0x65]

def tabs (n : Nat) : List UInt8 := List.replicate n 0x09

/-! ### The code -/

/-- `cJSON_strdup` -/
def cJSON_strdup (str : List UInt8) : Outcome CString :=
  ((Pen.malloc (str.length + 1)).put (str ++ [0])).bind fun p => .ok p.str

/-- What `sprintf` makes of `%d`. -/
def decimal (n : Int32) : List UInt8 :=
  (if n < 0 then [0x2d] else []) ++ decText 1 n.toInt.natAbs

def dblEpsilon : ℚ := 1 / 2 ^ 52

/-- The double `1.0e60` -/
def oneE60 : Double :=
  .finite 999999999999999949387135297074018866963645011013410073083904
    (inRange_of (k := 200) (by decide) (by norm_num) (by norm_num))

/-- The double `1.0e-6` -/
def oneEMinus6 : Double :=
  .finite (4722366482869645 / 2 ^ 72)
    (inRange_of (k := 72) (by decide) (by norm_num) (by norm_num))

/-- `fabs(((double)item->valueint)-d)<=DBL_EPSILON && d<=INT_MAX && d>=INT_MIN` -/
def isInt (valueint : Int32) (d : Double) : Bool :=
  (Double.ofInt valueint).near dblEpsilon d && d.le (.ofInt Int32.maxValue) &&
    (Double.ofInt Int32.minValue).le d

/-- What `sprintf` makes of a double that is no `int`. -/
def doubleText (d : Double) : List UInt8 :=
  if d.nearFloor dblEpsilon && d.fabs.lt oneE60 then d.text (fixed 0)
  else if d.fabs.lt oneEMinus6 || (Double.ofInt 1000000000).lt d.fabs then d.text scientific
  else d.text (fixed 6)

/-- The text with its terminator, in an object of `n` bytes. -/
def mallocText (n : Nat) (text : List UInt8) : Outcome CString :=
  ((Pen.malloc n).put (text ++ [0])).bind fun p => .ok p.str

def printNumber (valueint : Int32) (valuedouble : Double) : Outcome CString :=
  if valuedouble.isZero then mallocText 2 [0x30]
  else if isInt valueint valuedouble then mallocText 21 (decimal valueint)
  else mallocText 64 (doubleText valuedouble)

/-- Some character of the string is to be escaped. -/
def flagged (c : UInt8) : Bool := 0 < c && c < 32 || c = quote || c = backslash

/-- `strchr("\"\\\b\f\n\r\t", token)` -/
def shortEscape (token : UInt8) : Bool :=
  token = quote || token = backslash || token = 8 || token = 12 || token = 10 || token = 13 ||
    token = 9

/-- The characters that are counted for one of the string. -/
def tokenLen (token : UInt8) : Nat :=
  if shortEscape token then 2 else if token < 32 then 6 else 1

def hexDigit (d : UInt8) : UInt8 := if d < 10 then 0x30 + d else 0x61 + (d - 10)

/-- `sprintf(ptr2, "u%04x", token)` -/
def hexEscape (token : UInt8) : List UInt8 :=
  [0x75, 0x30, 0x30, hexDigit (token / 16), hexDigit (token % 16)]

def printChar (c : UInt8) (p : Pen) : Outcome Pen :=
  if 31 < c ∧ c ≠ quote ∧ c ≠ backslash then p.put [c]
  else (p.put [backslash]).bind fun p =>
    if c = backslash then p.put [backslash]
    else if c = quote then p.put [quote]
    else if c = 8 then p.put [0x62]
    else if c = 12 then p.put [0x66]
    else if c = 10 then p.put [0x6e]
    else if c = 13 then p.put [0x72]
    else if c = 9 then p.put [0x74]
    else (p.put (hexEscape c)).bind Pen.mark

/-- `print_string_ptr`.  NULL is read through before it is looked for. -/
def printStringPtr : Option CString → Outcome CString
  | none => .fault
  | some str =>
    if str.bytes.any flagged then
      (((Pen.malloc ((str.bytes.map tokenLen).sum + 3)).put [quote]).bind fun p =>
          Pen.each (fun _ => printChar) str.bytes p).bind fun p =>
        (p.put ([quote] ++ [0])).bind fun p => .ok p.str
    else
      (((Pen.malloc (str.bytes.length + 3)).put [quote]).bind fun p =>
          (p.put str.bytes).bind Pen.mark).bind fun p =>
        (p.put ([quote] ++ [0])).bind fun p => .ok p.str

/-- What has been printed of an item, its name among it when it is in an object. -/
structure Entry where
  name : Option CString
  value : Option CString

/-- The strings of the entries, if there is no NULL among them. -/
def values : List Entry → Option (List CString)
  | [] => some []
  | e :: entries => e.value.bind fun v => (values entries).map (v :: ·)

/-- The same with the names. -/
def members : List Entry → Option (List (CString × CString))
  | [] => some []
  | e :: entries => e.name.bind fun n => e.value.bind fun v => (members entries).map ((n, v) :: ·)

/-- `(fmt ? n : 0)` -/
def fmtLen (fmt : Bool) (n : Nat) : Nat := if fmt then n else 0

/-- A round of the loop that composes an array. -/
def composeValue (fmt more : Bool) (value : CString) (p : Pen) : Outcome Pen :=
  (p.put value.bytes).bind fun p =>
    if more then
      ((p.put [0x2c]).bind fun p => if fmt then p.put [0x20] else .ok p).bind Pen.mark
    else .ok p

/-- `print_array`, with the items printed. -/
def printArray (fmt : Bool) (entries : List Entry) : Outcome (Option CString) :=
  if entries.isEmpty then
    ((Pen.malloc 3).put ([0x5b, 0x5d] ++ [0])).bind fun p => .ok (some p.str)
  else
    match values entries with
    | none => .ok none
    | some vs =>
      ((((Pen.malloc (5 + (vs.map fun v => v.strlen + 2 + fmtLen fmt 1).sum)).put [0x5b]).bind
          Pen.mark).bind fun p => Pen.each (composeValue fmt) vs p).bind fun p =>
        (p.put ([0x5d] ++ [0])).bind fun p => .ok (some p.str)

/-- A round of the loop that composes an object. -/
def composeMember (fmt : Bool) (depth : Nat) (more : Bool) (m : CString × CString) (p : Pen) :
    Outcome Pen :=
  (((if fmt then p.put (tabs depth) else .ok p).bind fun p =>
      (p.put m.1.bytes).bind fun p =>
        (p.put [0x3a]).bind fun p => if fmt then p.put [0x09] else .ok p).bind fun p =>
    ((p.put m.2.bytes).bind Pen.mark).bind fun p =>
      (if more then p.put [0x2c] else .ok p).bind fun p =>
        (if fmt then p.put [0x0a] else .ok p).bind Pen.mark)

/-- `print_object`, with the items printed. -/
def printObject (fmt : Bool) (depth : Nat) (entries : List Entry) : Outcome (Option CString) :=
  if entries.isEmpty then
    (((Pen.malloc (if fmt then depth + 4 else 3)).put [0x7b]).bind fun p =>
        if fmt then (p.put [0x0a]).bind fun p => p.put (tabs (depth - 1)) else .ok p).bind fun p =>
      (p.put ([0x7d] ++ [0])).bind fun p => .ok (some p.str)
  else
    match members entries with
    | none => .ok none
    | some ms =>
      let depth := depth + 1
      let len := 7 + fmtLen fmt depth +
        (ms.map fun m => m.2.strlen + m.1.strlen + 2 + fmtLen fmt (2 + depth)).sum
      (((((Pen.malloc len).put [0x7b]).bind fun p =>
          (if fmt then p.put [0x0a] else .ok p).bind Pen.mark).bind fun p =>
            Pen.each (composeMember fmt depth) ms p).bind fun p =>
              if fmt then p.put (tabs (depth - 1)) else .ok p).bind fun p =>
        (p.put ([0x7d] ++ [0])).bind fun p => .ok (some p.str)

/-- `print_value` for an item that is there, with what its items give in an array and in an
object. -/
def printItem (fmt : Bool) (depth type : Nat) (valuestring : Option CString) (valueint : Int32)
    (valuedouble : Double) (elements members : Outcome (List Entry)) : Outcome (Option CString) :=
  let kind := type % 256
  if kind = cJSON_NULL then (cJSON_strdup nullText).bind fun s => .ok (some s)
  else if kind = cJSON_False then (cJSON_strdup falseText).bind fun s => .ok (some s)
  else if kind = cJSON_True then (cJSON_strdup trueText).bind fun s => .ok (some s)
  else if kind = cJSON_Number then (printNumber valueint valuedouble).bind fun s => .ok (some s)
  else if kind = cJSON_String then (printStringPtr valuestring).bind fun s => .ok (some s)
  else if kind = cJSON_Array then elements.bind (printArray fmt)
  else if kind = cJSON_Object then members.bind (printObject fmt depth)
  else .ok none

def printName (named : Bool) (string : Option CString) : Outcome (Option CString) :=
  if named then (printStringPtr string).bind fun s => .ok (some s) else .ok none

/-- The loops of `print_array` and, with the names, of `print_object` over the items behind
`child`.  The one of an array is left at the first item that gives NULL. -/
def printItems (fmt named : Bool) : CJson → Nat → Outcome (List Entry)
  | .null, _ => .ok []
  | .item next child type valuestring valueint valuedouble string, depth => do
    let name ← printName named string
    let value ← printItem fmt depth type valuestring valueint valuedouble
      (printItems fmt false child (depth + 1)) (printItems fmt true child (depth + 1))
    if named = false ∧ value = none then .ok [⟨name, value⟩]
    else do
      let entries ← printItems fmt named next depth
      .ok (⟨name, value⟩ :: entries)

def printValue (fmt : Bool) : CJson → Nat → Outcome (Option CString)
  | .null, _ => .ok none
  | .item _ child type valuestring valueint valuedouble _, depth =>
    printItem fmt depth type valuestring valueint valuedouble (printItems fmt false child (depth + 1))
      (printItems fmt true child (depth + 1))

def cJSON_Print (item : CJson) : Outcome (Option CString) := printValue true item 0

def cJSON_PrintUnformatted (item : CJson) : Outcome (Option CString) := printValue false item 0

/-! ### The text that is meant -/

def escape (c : UInt8) : List UInt8 :=
  if 31 < c ∧ c ≠ quote ∧ c ≠ backslash then [c]
  else [backslash] ++
    if c = backslash then [backslash]
    else if c = quote then [quote]
    else if c = 8 then [0x62]
    else if c = 12 then [0x66]
    else if c = 10 then [0x6e]
    else if c = 13 then [0x72]
    else if c = 9 then [0x74]
    else hexEscape c

/-- An element with the comma behind it. -/
def elementText (fmt more : Bool) (value : CString) : List UInt8 :=
  value.bytes ++ if more then [0x2c] ++ (if fmt then [0x20] else []) else []

/-- A member with the comma behind it. -/
def memberText (fmt : Bool) (depth : Nat) (more : Bool) (m : CString × CString) : List UInt8 :=
  ((if fmt then tabs depth else []) ++ (m.1.bytes ++ ([0x3a] ++ if fmt then [0x09] else []))) ++
    (m.2.bytes ++ ((if more then [0x2c] else []) ++ if fmt then [0x0a] else []))

def stringText (str : CString) : List UInt8 :=
  ([quote] ++ Pen.joined (fun _ => escape) str.bytes) ++ [quote]

def arrayText (fmt : Bool) (vs : List CString) : List UInt8 :=
  ([0x5b] ++ Pen.joined (elementText fmt) vs) ++ [0x5d]

def objectText (fmt : Bool) (depth : Nat) (ms : List (CString × CString)) : List UInt8 :=
  if ms.isEmpty then
    ([0x7b] ++ if fmt then [0x0a] ++ tabs (depth - 1) else []) ++ [0x7d]
  else
    ((([0x7b] ++ if fmt then [0x0a] else []) ++ Pen.joined (memberText fmt (depth + 1)) ms) ++
      if fmt then tabs depth else []) ++ [0x7d]

/-! ### No terminator in the text -/

theorem hexDigit_ne_zero : ∀ n, n < 16 → hexDigit (UInt8.ofNat n) ≠ 0 := by decide

theorem hexDigit_zero_notMem {d : UInt8} (h : d.toNat < 16) : hexDigit d ≠ 0 := by
  have hd := hexDigit_ne_zero d.toNat h
  rwa [UInt8.ofNat_toNat] at hd

theorem zero_notMem_hexEscape (c : UInt8) : (0 : UInt8) ∉ hexEscape c := by
  have hlow : (c % 16).toNat < 16 := by
    rw [UInt8.toNat_mod]
    exact Nat.mod_lt _ (by decide)
  have hhigh : (c / 16).toNat < 16 := by
    rw [UInt8.toNat_div]
    exact Nat.div_lt_of_lt_mul (Nat.lt_of_lt_of_le c.toNat_lt (by decide))
  intro h
  rw [hexEscape] at h
  simp only [List.mem_cons, List.not_mem_nil, or_false] at h
  rcases h with h | h | h | h | h
  · cases h
  · cases h
  · cases h
  · exact hexDigit_zero_notMem hhigh h.symm
  · exact hexDigit_zero_notMem hlow h.symm

theorem zero_notMem_escape {c : UInt8} (hc : c ≠ 0) : (0 : UInt8) ∉ escape c := by
  unfold escape
  split
  · exact fun h => hc (List.mem_singleton.mp h).symm
  · intro h
    rcases List.mem_append.mp h with h | h
    · cases List.mem_singleton.mp h
    · split_ifs at h
      · cases List.mem_singleton.mp h
      · cases List.mem_singleton.mp h
      · cases List.mem_singleton.mp h
      · cases List.mem_singleton.mp h
      · cases List.mem_singleton.mp h
      · cases List.mem_singleton.mp h
      · cases List.mem_singleton.mp h
      · exact zero_notMem_hexEscape c h

theorem zero_notMem_tabs (n : Nat) : (0 : UInt8) ∉ tabs n := by
  intro h
  cases List.eq_of_mem_replicate h

theorem zero_notMem_joined {α : Type} {g : Bool → α → List UInt8} {l : List α}
    (h : ∀ more, ∀ a ∈ l, (0 : UInt8) ∉ g more a) : (0 : UInt8) ∉ Pen.joined g l := by
  intro hm
  obtain ⟨more, a, ha, hz⟩ := Pen.mem_joined hm
  exact h more a ha hz

theorem zero_notMem_append {xs ys : List UInt8} (hx : (0 : UInt8) ∉ xs) (hy : (0 : UInt8) ∉ ys) :
    (0 : UInt8) ∉ xs ++ ys := fun h => (List.mem_append.mp h).elim hx hy

theorem zero_notMem_ite {c : Prop} [Decidable c] {xs : List UInt8} (hx : (0 : UInt8) ∉ xs) :
    (0 : UInt8) ∉ if c then xs else [] := by
  by_cases hc : c
  · rwa [if_pos hc]
  · rw [if_neg hc]
    exact List.not_mem_nil

theorem zero_notMem_stringText (str : CString) : (0 : UInt8) ∉ stringText str :=
  zero_notMem_append
    (zero_notMem_append (by decide)
      (zero_notMem_joined fun _ c hc => zero_notMem_escape fun h => str.nulFree (h ▸ hc)))
    (by decide)

theorem zero_notMem_elementText (fmt more : Bool) (value : CString) :
    (0 : UInt8) ∉ elementText fmt more value :=
  zero_notMem_append value.nulFree
    (zero_notMem_ite (zero_notMem_append (by decide) (zero_notMem_ite (by decide))))

theorem zero_notMem_memberText (fmt : Bool) (depth : Nat) (more : Bool) (m : CString × CString) :
    (0 : UInt8) ∉ memberText fmt depth more m :=
  zero_notMem_append
    (zero_notMem_append (zero_notMem_ite (zero_notMem_tabs depth))
      (zero_notMem_append m.1.nulFree
        (zero_notMem_append (by decide) (zero_notMem_ite (by decide)))))
    (zero_notMem_append m.2.nulFree
      (zero_notMem_append (zero_notMem_ite (by decide)) (zero_notMem_ite (by decide))))

theorem zero_notMem_arrayText (fmt : Bool) (vs : List CString) : (0 : UInt8) ∉ arrayText fmt vs :=
  zero_notMem_append
    (zero_notMem_append (by decide)
      (zero_notMem_joined fun more v _ => zero_notMem_elementText fmt more v))
    (by decide)

theorem zero_notMem_objectText (fmt : Bool) (depth : Nat) (ms : List (CString × CString)) :
    (0 : UInt8) ∉ objectText fmt depth ms := by
  unfold objectText
  split
  · exact zero_notMem_append
      (zero_notMem_append (by decide)
        (zero_notMem_ite (zero_notMem_append (by decide) (zero_notMem_tabs _))))
      (by decide)
  · exact zero_notMem_append
      (zero_notMem_append
        (zero_notMem_append (zero_notMem_append (by decide) (zero_notMem_ite (by decide)))
          (zero_notMem_joined fun more m _ => zero_notMem_memberText fmt (depth + 1) more m))
        (zero_notMem_ite (zero_notMem_tabs depth)))
      (by decide)

theorem zero_notMem_decimal (n : Int32) : (0 : UInt8) ∉ decimal n :=
  zero_notMem_append (zero_notMem_ite (by decide)) (zero_notMem_decText 1 n.toInt.natAbs)

theorem zero_notMem_doubleText (d : Double) : (0 : UInt8) ∉ doubleText d := by
  unfold doubleText
  split_ifs
  · exact Double.zero_notMem_text (zero_notMem_fixed 0) d
  · exact Double.zero_notMem_text zero_notMem_scientific d
  · exact Double.zero_notMem_text (zero_notMem_fixed 6) d

/-! ### The text of a tree -/

def renderString (str : CString) : CString := ⟨stringText str, zero_notMem_stringText str⟩

def numberText (valueint : Int32) (valuedouble : Double) : List UInt8 :=
  if valuedouble.isZero then [0x30]
  else if isInt valueint valuedouble then decimal valueint
  else doubleText valuedouble

theorem zero_notMem_numberText (valueint : Int32) (valuedouble : Double) :
    (0 : UInt8) ∉ numberText valueint valuedouble := by
  unfold numberText
  split_ifs
  · decide
  · exact zero_notMem_decimal valueint
  · exact zero_notMem_doubleText valuedouble

def renderNumber (valueint : Int32) (valuedouble : Double) : CString :=
  ⟨numberText valueint valuedouble, zero_notMem_numberText valueint valuedouble⟩

def renderArray (fmt : Bool) (vs : List CString) : CString :=
  ⟨arrayText fmt vs, zero_notMem_arrayText fmt vs⟩

def renderObject (fmt : Bool) (depth : Nat) (ms : List (CString × CString)) : CString :=
  ⟨objectText fmt depth ms, zero_notMem_objectText fmt depth ms⟩

theorem nulFree_nil : (0 : UInt8) ∉ ([] : List UInt8) := List.not_mem_nil

def renderItem (fmt : Bool) (depth type : Nat) (valuestring : Option CString) (valueint : Int32)
    (valuedouble : Double) (items : List (CString × CString)) : CString :=
  let kind := type % 256
  if kind = cJSON_NULL then ⟨nullText, by decide⟩
  else if kind = cJSON_False then ⟨falseText, by decide⟩
  else if kind = cJSON_True then ⟨trueText, by decide⟩
  else if kind = cJSON_Number then renderNumber valueint valuedouble
  else if kind = cJSON_String then renderString (valuestring.getD ⟨[], nulFree_nil⟩)
  else if kind = cJSON_Array then renderArray fmt (items.map Prod.snd)
  else renderObject fmt depth items

/-- The names and the items of a chain. -/
def renderItems (fmt : Bool) : CJson → Nat → List (CString × CString)
  | .null, _ => []
  | .item next child type valuestring valueint valuedouble string, depth =>
    (renderString (string.getD ⟨[], nulFree_nil⟩),
        renderItem fmt depth type valuestring valueint valuedouble
          (renderItems fmt child (depth + 1))) ::
      renderItems fmt next depth

def render (fmt : Bool) : CJson → Nat → CString
  | .null, _ => ⟨[], nulFree_nil⟩
  | .item _ child type valuestring valueint valuedouble _, depth =>
    renderItem fmt depth type valuestring valueint valuedouble (renderItems fmt child (depth + 1))

/-- The items have one of the seven types, and no string that is to be printed is NULL. -/
def Printable (named : Bool) : CJson → Prop
  | .null => True
  | .item next child type valuestring _ _ string =>
    (named = true → string ≠ none) ∧ type % 256 ≤ cJSON_Object ∧
      (type % 256 = cJSON_String → valuestring ≠ none) ∧
      (type % 256 = cJSON_Array → Printable false child) ∧
      (type % 256 = cJSON_Object → Printable true child) ∧ Printable named next

/-! ### Strings and numbers -/

theorem length_decimal_le (n : Int32) : (decimal n).length ≤ 11 := by
  have habs : n.toInt.natAbs < 10 ^ 10 := by
    have hlo := n.le_toInt
    have hhi := n.toInt_lt
    omega
  have hdigits := length_decText_le habs (show 1 ≤ 10 by decide)
  have hsign : (if n < 0 then [0x2d] else ([] : List UInt8)).length ≤ 1 := by
    split
    · exact Nat.le_refl 1
    · exact Nat.zero_le 1
  rw [decimal, List.length_append]
  omega

theorem length_whole_le {d : Double} (h : d.fabs.lt oneE60 = true) :
    (d.text (fixed 0)).length ≤ 62 := by
  refine Double.length_text_le (k := 61) (by decide) fun q _ hq => ?_
  rw [hq, oneE60, Double.lt, decide_eq_true_eq] at h
  have hround : roundEven (q * 10 ^ 0) ≤
      999999999999999949387135297074018866963645011013410073083904 := by
    rw [pow_zero, mul_one]
    exact roundEven_le (Double.nonneg_of_fabs hq) (by exact_mod_cast h)
  exact length_fixed_le 0 (k := 60) (by decide) (Nat.lt_of_le_of_lt hround (by norm_num))

theorem length_decimals_le {d : Double} (h : (Double.ofInt 1000000000).lt d.fabs = false) :
    (d.text (fixed 6)).length ≤ 18 := by
  refine Double.length_text_le (k := 17) (by decide) fun q _ hq => ?_
  rw [hq, Double.ofInt, Double.lt, decide_eq_false_iff_not] at h
  have hle : q ≤ 1000000000 := not_lt.mp h
  have hround : roundEven (q * 10 ^ 6) ≤ 10 ^ 15 + 1 := by
    refine roundEven_le (mul_nonneg (Double.nonneg_of_fabs hq) (by norm_num)) ?_
    push_cast
    linarith
  exact length_fixed_le 6 (k := 10) (by decide) (Nat.lt_of_le_of_lt hround (by norm_num))

/-- **The text of a double has room in its object**, with the terminator. -/
theorem length_doubleText_le {d : Double} (hd : d.isZero = false) : (doubleText d).length ≤ 62 := by
  unfold doubleText
  split_ifs with hwhole hexp
  · exact length_whole_le (Bool.and_eq_true_iff.mp hwhole).2
  · have hlen : (d.text scientific).length ≤ 1 + 13 := Double.length_text_le (by decide)
      fun q h hq => length_scientific_le (Double.pos_of_fabs hd hq) h
    omega
  · simp only [Bool.or_eq_true, not_or, Bool.not_eq_true] at hexp
    have hlen := length_decimals_le hexp.2
    omega

theorem mallocText_eq {n : Nat} {text : List UInt8} (h0 : (0 : UInt8) ∉ text)
    (h : text.length < n) : mallocText n text = .ok ⟨text, h0⟩ := by
  have hput : (Pen.malloc n).put (text ++ [0]) = .ok ((Pen.malloc n).wrote (text ++ [0])) := by
    apply Pen.put_ok
    rw [List.length_append, List.length_singleton, Pen.room_malloc]
    exact h
  have hstr : ((Pen.malloc n).wrote (text ++ [0])).str = ⟨text, h0⟩ := Pen.str_wrote_zero h0
  rw [mallocText, hput, Outcome.bind, hstr]

theorem printNumber_eq (valueint : Int32) (valuedouble : Double) :
    printNumber valueint valuedouble = .ok (renderNumber valueint valuedouble) := by
  simp only [printNumber, renderNumber, numberText]
  by_cases hzero : valuedouble.isZero = true
  · simp only [if_pos hzero]
    exact mallocText_eq _ (by decide)
  · simp only [if_neg hzero]
    by_cases hint : isInt valueint valuedouble = true
    · simp only [if_pos hint]
      exact mallocText_eq _ (Nat.lt_of_le_of_lt (length_decimal_le valueint) (by decide))
    · simp only [if_neg hint]
      exact mallocText_eq _ (Nat.lt_of_le_of_lt
        (length_doubleText_le (Bool.eq_false_iff.mpr hzero)) (by decide))

/-- 1.9999999 is printed as `2.000000`. -/
example : numberText 1 (.finite (19999999 / 10000000) (by decide +kernel)) =
    [0x32, 0x2e, 0x30, 0x30, 0x30, 0x30, 0x30, 0x30] := by decide +kernel

set_option maxRecDepth 8000 in
theorem length_escape (c : UInt8) : (escape c).length = tokenLen c := by
  have hall : ∀ n, n < 256 → (escape (UInt8.ofNat n)).length = tokenLen (UInt8.ofNat n) := by
    decide
  have h := hall c.toNat c.toNat_lt
  rwa [UInt8.ofNat_toNat] at h

set_option maxRecDepth 8000 in
theorem escape_of_not_flagged {c : UInt8} (h0 : c ≠ 0) (h : flagged c = false) :
    escape c = [c] := by
  have hall : ∀ n, n < 256 → UInt8.ofNat n ≠ 0 → flagged (UInt8.ofNat n) = false →
      escape (UInt8.ofNat n) = [UInt8.ofNat n] := by
    decide
  have hc := hall c.toNat c.toNat_lt
  rw [UInt8.ofNat_toNat] at hc
  exact hc h0 h

theorem writes_printChar (c : UInt8) : Pen.Writes (printChar c) (escape c) := by
  unfold escape printChar
  by_cases hplain : 31 < c ∧ c ≠ quote ∧ c ≠ backslash
  · simp only [if_pos hplain]
    exact Pen.writes_put [c]
  · simp only [if_neg hplain]
    refine (Pen.writes_put [backslash]).andThen ?_
    split_ifs
    · exact Pen.writes_put _
    · exact Pen.writes_put _
    · exact Pen.writes_put _
    · exact Pen.writes_put _
    · exact Pen.writes_put _
    · exact Pen.writes_put _
    · exact Pen.writes_put _
    · exact (Pen.writes_put _).marked

theorem joined_plain {bs : List UInt8} (h0 : (0 : UInt8) ∉ bs) (h : bs.any flagged = false) :
    Pen.joined (fun _ => escape) bs = bs := by
  induction bs with
  | nil => rfl
  | cons c bs ih =>
    rw [List.any_cons, Bool.or_eq_false_iff] at h
    have hc : c ≠ 0 := fun hc => h0 (hc ▸ List.mem_cons_self)
    rw [Pen.joined, escape_of_not_flagged hc h.1, ih (fun hm => h0 (List.mem_cons_of_mem c hm)) h.2]
    rfl

/-- **The string is printed, escaped where it has to be, and the object is large enough.** -/
theorem printStringPtr_eq (str : CString) : printStringPtr (some str) = .ok (renderString str) := by
  by_cases hflag : str.bytes.any flagged = true
  · have hlen : (Pen.joined (fun _ => escape) str.bytes).length ≤ (str.bytes.map tokenLen).sum :=
      Pen.length_joined_le tokenLen fun _ c _ => Nat.le_of_eq (length_escape c)
    have hchars : Pen.Writes (Pen.each (fun _ => printChar) str.bytes) _ :=
      Pen.writes_each fun _ c _ => writes_printChar c
    have hw := (Pen.writes_put [quote]).andThen hchars
    show (if _ then _ else _) = _
    rw [if_pos hflag]
    refine hw.string ?_ (zero_notMem_stringText str) _
    simp only [List.length_append, List.length_singleton]
    omega
  · have hplain : str.bytes.any flagged = false := Bool.eq_false_iff.mpr hflag
    have htext : ([quote] ++ str.bytes) ++ [quote] = stringText str := by
      rw [stringText, joined_plain str.nulFree hplain]
    have hw := (Pen.writes_put [quote]).andThen (Pen.writes_put str.bytes).marked
    show (if _ then _ else _) = _
    rw [if_neg hflag]
    refine (hw.string ?_ (htext ▸ zero_notMem_stringText str) _).trans ?_
    · simp only [List.length_append, List.length_singleton]
      omega
    · simp only [renderString, htext]

/-! ### Arrays and objects -/

theorem writes_composeValue (fmt more : Bool) (v : CString) :
    Pen.Writes (composeValue fmt more v) (elementText fmt more v) := by
  refine (Pen.writes_put v.bytes).andThen ?_
  exact Pen.writes_ite ((Pen.writes_put [0x2c]).andThen (Pen.writes_ite (Pen.writes_put [0x20]))).marked

theorem length_elementText_le (fmt more : Bool) (v : CString) :
    (elementText fmt more v).length ≤ v.strlen + 2 + fmtLen fmt 1 := by
  rw [elementText, CString.strlen, fmtLen]
  cases more with
  | false => simp only [List.length_append, Bool.false_eq_true, if_false, List.length_nil]; omega
  | true =>
    cases fmt with
    | false => simp [List.length_append]
    | true => simp [List.length_append]

theorem writes_composeMember (fmt : Bool) (depth : Nat) (more : Bool) (m : CString × CString) :
    Pen.Writes (composeMember fmt depth more m) (memberText fmt depth more m) := by
  have hname := (Pen.writes_ite (c := fmt) (Pen.writes_put (tabs depth))).andThen
    ((Pen.writes_put m.1.bytes).andThen
      ((Pen.writes_put [0x3a]).andThen (Pen.writes_ite (c := fmt) (Pen.writes_put [0x09]))))
  have hcomma := (Pen.writes_ite (c := more) (Pen.writes_put [0x2c])).andThen
    (Pen.writes_ite (c := fmt) (Pen.writes_put [0x0a])).marked
  exact hname.andThen ((Pen.writes_put m.2.bytes).marked.andThen hcomma)

theorem length_ite_le (c : Bool) (xs : List UInt8) : (if c then xs else []).length ≤ xs.length := by
  cases c with
  | false => exact Nat.zero_le _
  | true => exact Nat.le_refl _

theorem length_memberText_le (fmt : Bool) (depth : Nat) (more : Bool) (m : CString × CString) :
    (memberText fmt depth more m).length ≤
      m.2.strlen + m.1.strlen + 2 + fmtLen fmt (2 + depth) := by
  have hcomma := length_ite_le more [0x2c]
  rw [List.length_singleton] at hcomma
  rw [memberText, CString.strlen, CString.strlen, fmtLen, tabs]
  simp only [List.length_append, List.length_singleton]
  cases fmt with
  | false =>
    simp only [Bool.false_eq_true, if_false, List.length_nil]
    omega
  | true =>
    simp only [if_true, List.length_replicate, List.length_singleton]
    omega

def Entry.ofValue (v : CString) : Entry := ⟨none, some v⟩

def Entry.ofMember (m : CString × CString) : Entry := ⟨some m.1, some m.2⟩

@[simp] theorem values_map_ofValue (vs : List CString) : values (vs.map Entry.ofValue) = some vs := by
  induction vs with
  | nil => rfl
  | cons v vs ih =>
    rw [List.map_cons, values, ih]
    rfl

@[simp] theorem members_map_ofMember (ms : List (CString × CString)) :
    members (ms.map Entry.ofMember) = some ms := by
  induction ms with
  | nil => rfl
  | cons m ms ih =>
    rw [List.map_cons, members, ih]
    rfl

theorem printArray_eq (fmt : Bool) (vs : List CString) :
    printArray fmt (vs.map Entry.ofValue) = .ok (some (renderArray fmt vs)) := by
  by_cases hnil : vs = []
  · subst hnil
    rfl
  · have hne : (vs.map Entry.ofValue).isEmpty = false := by
      rw [List.isEmpty_eq_false_iff]
      exact fun h => hnil (List.map_eq_nil_iff.mp h)
    have hlen : (Pen.joined (elementText fmt) vs).length ≤
        (vs.map fun v => v.strlen + 2 + fmtLen fmt 1).sum :=
      Pen.length_joined_le _ fun more v _ => length_elementText_le fmt more v
    have hall : Pen.Writes (Pen.each (composeValue fmt) vs) _ :=
      Pen.writes_each fun more v _ => writes_composeValue fmt more v
    rw [printArray, hne, values_map_ofValue, if_neg Bool.false_ne_true]
    refine ((Pen.writes_put [0x5b]).marked.andThen hall).string ?_ (zero_notMem_arrayText fmt vs)
      fun s => .ok (some s)
    simp only [List.length_append, List.length_singleton]
    omega

theorem printObject_eq (fmt : Bool) (depth : Nat) (ms : List (CString × CString)) :
    printObject fmt depth (ms.map Entry.ofMember) = .ok (some (renderObject fmt depth ms)) := by
  have htext := zero_notMem_objectText fmt depth ms
  by_cases hnil : ms = []
  · subst hnil
    have hline : Pen.Writes (fun p => if fmt then (p.put [0x0a]).bind fun p =>
        p.put (tabs (depth - 1)) else .ok p) _ :=
      Pen.writes_ite ((Pen.writes_put [0x0a]).andThen (Pen.writes_put (tabs (depth - 1))))
    refine ((Pen.writes_put [0x7b]).andThen hline).string ?_ htext fun s => .ok (some s)
    cases fmt with
    | false => exact Nat.le_refl 3
    | true =>
      simp only [if_true, List.length_append, List.length_singleton, tabs, List.length_replicate]
      omega
  · have hne : (ms.map Entry.ofMember).isEmpty = false := by
      rw [List.isEmpty_eq_false_iff]
      exact fun h => hnil (List.map_eq_nil_iff.mp h)
    have hne' : ms.isEmpty = false := List.isEmpty_eq_false_iff.mpr hnil
    have hlen : (Pen.joined (memberText fmt (depth + 1)) ms).length ≤
        (ms.map fun m => m.2.strlen + m.1.strlen + 2 + fmtLen fmt (2 + (depth + 1))).sum :=
      Pen.length_joined_le _ fun more m _ => length_memberText_le fmt (depth + 1) more m
    have hall : Pen.Writes (Pen.each (composeMember fmt (depth + 1)) ms) _ :=
      Pen.writes_each fun more m _ => writes_composeMember fmt (depth + 1) more m
    have hstart := (Pen.writes_put [0x7b]).andThen
      (Pen.writes_ite (c := fmt) (Pen.writes_put [0x0a])).marked
    have hend := Pen.writes_ite (c := fmt) (Pen.writes_put (tabs depth))
    unfold objectText at htext
    rw [hne'] at htext
    rw [if_neg Bool.false_ne_true] at htext
    have hobj : renderObject fmt depth ms = ⟨_, htext⟩ := by
      simp only [renderObject, objectText, hne', if_neg Bool.false_ne_true]
    rw [printObject, hne, members_map_ofMember, hobj, if_neg Bool.false_ne_true]
    refine ((hstart.andThen hall).andThen hend).string ?_ htext fun s => .ok (some s)
    have hlines : (if fmt then [0x0a] else ([] : List UInt8)).length +
        (if fmt then tabs depth else []).length ≤ fmtLen fmt (depth + 1) := by
      cases fmt with
      | false => exact Nat.le_refl 0
      | true =>
        simp only [if_true, List.length_singleton, tabs, List.length_replicate, fmtLen]
        omega
    simp only [List.length_append, List.length_singleton]
    omega

/-! ### Trees -/

theorem kind_cases {kind : Nat} (h : kind ≤ cJSON_Object) :
    kind = cJSON_False ∨ kind = cJSON_True ∨ kind = cJSON_NULL ∨ kind = cJSON_Number ∨
      kind = cJSON_String ∨ kind = cJSON_Array ∨ kind = cJSON_Object := by
  simp only [cJSON_False, cJSON_True, cJSON_NULL, cJSON_Number, cJSON_String, cJSON_Array,
    cJSON_Object] at *
  omega

/-- What is printed of a chain, with or without its names. -/
def Entry.of (named : Bool) (m : CString × CString) : Entry :=
  if named then .ofMember m else .ofValue m.2

/-- An item is printed when the items in it are. -/
theorem printItem_eq {fmt : Bool} {depth type : Nat} {valuestring : Option CString}
    {valueint : Int32} {valuedouble : Double} {elements members : Outcome (List Entry)}
    {items : List (CString × CString)} (hkind : type % 256 ≤ cJSON_Object)
    (hstring : type % 256 = cJSON_String → valuestring ≠ none)
    (harray : type % 256 = cJSON_Array → elements = .ok (items.map (Entry.of false)))
    (hobject : type % 256 = cJSON_Object → members = .ok (items.map (Entry.of true))) :
    printItem fmt depth type valuestring valueint valuedouble elements members =
      .ok (some (renderItem fmt depth type valuestring valueint valuedouble items)) := by
  rcases kind_cases hkind with h | h | h | h | h | h | h
  · simp only [printItem, renderItem, h]
    rfl
  · simp only [printItem, renderItem, h]
    rfl
  · simp only [printItem, renderItem, h]
    rfl
  · simp only [printItem, renderItem, h, printNumber_eq]
    rfl
  · obtain ⟨str, hstr⟩ := Option.ne_none_iff_exists'.mp (hstring h)
    simp only [printItem, renderItem, h, hstr, printStringPtr_eq]
    rfl
  · have hof : items.map (Entry.of false) = (items.map Prod.snd).map Entry.ofValue := by
      rw [List.map_map]
      rfl
    have hprint := printArray_eq fmt (items.map Prod.snd)
    simp only [printItem, renderItem, h, harray h, hof, Outcome.bind, hprint]
    rfl
  · have hof : items.map (Entry.of true) = items.map Entry.ofMember := rfl
    have hprint := printObject_eq fmt depth items
    simp only [printItem, renderItem, h, hobject h, hof, Outcome.bind, hprint]
    rfl

theorem printItems_eq {fmt named : Bool} : ∀ {t : CJson} {depth : Nat}, Printable named t →
    printItems fmt named t depth = .ok ((renderItems fmt t depth).map (Entry.of named)) := by
  intro t
  induction t generalizing named with
  | null =>
    intro depth _
    rfl
  | item next child type valuestring valueint valuedouble string ihNext ihChild =>
    intro depth h
    obtain ⟨hname, hkind, hstring, harray, hobject, hnext⟩ := h
    have hitem : printItem fmt depth type valuestring valueint valuedouble
        (printItems fmt false child (depth + 1)) (printItems fmt true child (depth + 1)) =
          .ok (some (renderItem fmt depth type valuestring valueint valuedouble
            (renderItems fmt child (depth + 1)))) :=
      printItem_eq hkind hstring (fun h => ihChild (harray h)) fun h => ihChild (hobject h)
    have hrest : printItems fmt named next depth = _ := ihNext hnext
    rw [printItems, renderItems]
    cases named with
    | false =>
      have hname : printName false string = .ok none := rfl
      rw [hname, Outcome.ok_bind, hitem, Outcome.ok_bind, if_neg (fun h => by cases h.2), hrest]
      rfl
    | true =>
      obtain ⟨str, rfl⟩ := Option.ne_none_iff_exists'.mp (hname rfl)
      have hname : printName true (some str) = .ok (some (renderString str)) := by
        rw [printName, if_pos rfl, printStringPtr_eq]
        rfl
      rw [hname, Outcome.ok_bind, hitem, Outcome.ok_bind, if_neg (fun h => by cases h.2), hrest]
      rfl

/-- **The printer makes the text of every printable tree, and leaves no object it writes to.** -/
theorem printValue_eq {fmt : Bool} {next child : CJson} {type : Nat} {valuestring : Option CString}
    {valueint : Int32} {valuedouble : Double} {string : Option CString}
    (h : Printable false (.item .null child type valuestring valueint valuedouble string))
    (depth : Nat) :
    printValue fmt (.item next child type valuestring valueint valuedouble string) depth =
      .ok (some (render fmt (.item next child type valuestring valueint valuedouble string)
        depth)) := by
  obtain ⟨-, hkind, hstring, harray, hobject, -⟩ := h
  exact printItem_eq hkind hstring (fun h => printItems_eq (harray h))
    fun h => printItems_eq (hobject h)

/-! ### Trees without a text -/

theorem values_cons_ne_none {e : Entry} {entries : List Entry} (h : values (e :: entries) ≠ none) :
    e.value ≠ none ∧ values entries ≠ none := by
  constructor
  · intro hv
    rw [values, hv] at h
    exact h rfl
  · intro hv
    rw [values, hv] at h
    cases hval : e.value with
    | none =>
      rw [hval] at h
      exact h rfl
    | some v =>
      rw [hval] at h
      exact h rfl

theorem members_cons_ne_none {e : Entry} {entries : List Entry}
    (h : members (e :: entries) ≠ none) :
    e.name ≠ none ∧ e.value ≠ none ∧ members entries ≠ none := by
  cases hname : e.name with
  | none =>
    rw [members, hname] at h
    exact absurd rfl h
  | some n =>
    cases hval : e.value with
    | none =>
      rw [members, hname, hval] at h
      exact absurd rfl h
    | some v =>
      refine ⟨Option.some_ne_none n, Option.some_ne_none v, fun hm => ?_⟩
      rw [members, hname, hval, hm] at h
      exact h rfl

/-- All the strings are there that are to be put together. -/
def AllThere (named : Bool) (entries : List Entry) : Prop :=
  if named then members entries ≠ none else values entries ≠ none

theorem AllThere.cons {named : Bool} {e : Entry} {entries : List Entry}
    (h : AllThere named (e :: entries)) : e.value ≠ none ∧ AllThere named entries := by
  cases named with
  | false => exact values_cons_ne_none h
  | true => exact (members_cons_ne_none h).2

theorem allThere_of_printArray {fmt : Bool} {entries : List Entry} {s : CString}
    (h : printArray fmt entries = .ok (some s)) : AllThere false entries := by
  intro hnone
  unfold printArray at h
  split at h
  · rename_i hnil
    rw [List.isEmpty_iff.mp hnil] at hnone
    cases hnone
  · rw [hnone] at h
    cases h

theorem allThere_of_printObject {fmt : Bool} {depth : Nat} {entries : List Entry} {s : CString}
    (h : printObject fmt depth entries = .ok (some s)) : AllThere true entries := by
  intro hnone
  unfold printObject at h
  split at h
  · rename_i hnil
    rw [List.isEmpty_iff.mp hnil] at hnone
    cases hnone
  · rw [hnone] at h
    cases h

theorem printable_of_printItem {fmt : Bool} {depth type : Nat} {valuestring : Option CString}
    {valueint : Int32} {valuedouble : Double} {elements members : Outcome (List Entry)} {s : CString}
    (h : printItem fmt depth type valuestring valueint valuedouble elements members = .ok (some s)) :
    type % 256 ≤ cJSON_Object ∧ (type % 256 = cJSON_String → valuestring ≠ none) ∧
      (type % 256 = cJSON_Array → ∃ entries, elements = .ok entries ∧ AllThere false entries) ∧
      (type % 256 = cJSON_Object → ∃ entries, members = .ok entries ∧ AllThere true entries) := by
  have hkind : type % 256 ≤ cJSON_Object := by
    by_contra hgt
    have hne : ∀ k, k ≤ cJSON_Object → type % 256 ≠ k := by
      intro k hk he
      omega
    simp only [printItem, if_neg (hne cJSON_NULL (by decide)), if_neg (hne cJSON_False (by decide)),
      if_neg (hne cJSON_True (by decide)), if_neg (hne cJSON_Number (by decide)),
      if_neg (hne cJSON_String (by decide)), if_neg (hne cJSON_Array (by decide)),
      if_neg (hne cJSON_Object (by decide))] at h
    cases h
  refine ⟨hkind, fun hs hnone => ?_, fun ha => ?_, fun ho => ?_⟩
  · subst hnone
    simp only [printItem, hs] at h
    cases h
  · have harray : elements.bind (printArray fmt) = .ok (some s) := by
      simp only [printItem, ha] at h
      exact h
    obtain ⟨entries, he, hp⟩ := Outcome.bind_eq_ok_iff.mp harray
    exact ⟨entries, he, allThere_of_printArray hp⟩
  · have hobject : members.bind (printObject fmt depth) = .ok (some s) := by
      simp only [printItem, ho] at h
      exact h
    obtain ⟨entries, he, hp⟩ := Outcome.bind_eq_ok_iff.mp hobject
    exact ⟨entries, he, allThere_of_printObject hp⟩

theorem printable_of_printItems {fmt named : Bool} : ∀ {t : CJson} {depth : Nat}
    {entries : List Entry}, printItems fmt named t depth = .ok entries → AllThere named entries →
    Printable named t := by
  intro t
  induction t generalizing named with
  | null =>
    intro depth entries _ _
    trivial
  | item next child type valuestring valueint valuedouble string ihNext ihChild =>
    intro depth entries h hall
    rw [printItems] at h
    obtain ⟨name, hname, h⟩ := Outcome.bind_eq_ok_iff.mp h
    obtain ⟨value, hvalue, h⟩ := Outcome.bind_eq_ok_iff.mp h
    have hthere : named = true → string ≠ none := by
      rintro rfl rfl
      cases hname
    obtain ⟨s, hs, hnext⟩ : ∃ s, value = some s ∧ Printable named next := by
      split at h
      · rename_i hleft
        obtain ⟨rfl, rfl⟩ := hleft
        cases h
        exact absurd rfl hall.cons.1
      · obtain ⟨rest, hrest, h⟩ := Outcome.bind_eq_ok_iff.mp h
        cases h
        obtain ⟨hv, hall⟩ := hall.cons
        obtain ⟨s, hs⟩ := Option.ne_none_iff_exists'.mp hv
        exact ⟨s, hs, ihNext hrest hall⟩
    rw [hs] at hvalue
    obtain ⟨hkind, hstring, harray, hobject⟩ := printable_of_printItem hvalue
    refine ⟨hthere, hkind, hstring, fun ha => ?_, fun ho => ?_, hnext⟩
    · obtain ⟨entries, he, hall⟩ := harray ha
      exact ihChild he hall
    · obtain ⟨entries, he, hall⟩ := hobject ho
      exact ihChild he hall

/-- The item itself, without the ones behind it. -/
def alone : CJson → CJson
  | .null => .null
  | .item _ child type valuestring valueint valuedouble string =>
    .item .null child type valuestring valueint valuedouble string

/-- **There is a text for the printable items, and it is the one that is meant.** -/
theorem printValue_iff {fmt : Bool} {t : CJson} {depth : Nat} {s : CString} :
    printValue fmt t depth = .ok (some s) ↔
      t ≠ .null ∧ Printable false (alone t) ∧ s = render fmt t depth := by
  cases t with
  | null => exact ⟨fun h => (by cases h), fun h => absurd rfl h.1⟩
  | item next child type valuestring valueint valuedouble string =>
    constructor
    · intro h
      obtain ⟨hkind, hstring, harray, hobject⟩ := printable_of_printItem h
      have hp : Printable false (.item .null child type valuestring valueint valuedouble string) := by
        refine ⟨fun h => (by cases h), hkind, hstring, fun ha => ?_, fun ho => ?_, trivial⟩
        · obtain ⟨entries, he, hall⟩ := harray ha
          exact printable_of_printItems he hall
        · obtain ⟨entries, he, hall⟩ := hobject ho
          exact printable_of_printItems he hall
      have heq := h.symm.trans (printValue_eq hp depth)
      exact ⟨fun h => (by cases h), hp, Option.some.inj (Outcome.ok.inj heq)⟩
    · rintro ⟨-, hp, rfl⟩
      exact printValue_eq hp depth

end Nl6621.Json
