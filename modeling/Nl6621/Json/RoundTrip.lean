import Nl6621.Json.Parse

/-!
# What is printed is read back

`json_round_trip` is the round trip of `cJSON_Print` and of `cJSON_PrintUnformatted` with
`cJSON_Parse`.  Some of an item is not printed: the bits that are not part of its type, the value of
an item that is no number, the name of an item in an array.  `readBack` is the tree without these.
Of the numbers the integers come back (`Integers`); another double can lose digits when it is printed.

A text is read from its front, with something behind it: a number ends where a character follows that
is not part of one (`Ends`), and white space is passed over (`Blank`).  `ReadsAs` is what is
known of the text of a value.  The induction is on the tree.  It puts the texts of the items together
to that of an array or an object by `parseBracket_joined`, in which `Layout` is the white space and
the commas that the printer puts between items.
-/

namespace Nl6621.Json

open Lib Edp

variable {arith : Numeral → Double × Int32}

/-! ### White space -/

def IsBlank (c : UInt8) : Prop := c ≠ 0 ∧ c ≤ 32

instance (c : UInt8) : Decidable (IsBlank c) := inferInstanceAs (Decidable (_ ∧ _))

def Blank (w : List UInt8) : Prop := ∀ c ∈ w, IsBlank c

theorem skip_blank {w text : List UInt8} (hw : Blank w) : skip (w ++ text) = skip text := by
  induction w with
  | nil => rfl
  | cons c w ih =>
    have hc : c ≠ 0 ∧ c ≤ 32 := hw c List.mem_cons_self
    rw [List.cons_append, skip, if_pos hc]
    exact ih fun b hb => hw b (List.mem_cons_of_mem c hb)

theorem skip_cons {c : UInt8} (hc : ¬IsBlank c) (text : List UInt8) :
    skip (c :: text) = .ok () (c :: text) := if_neg hc

theorem blank_nil : Blank [] := by
  intro c hc
  cases hc

theorem blank_tabs (n : Nat) : Blank (tabs n) := by
  intro c hc
  rw [List.eq_of_mem_replicate hc]
  exact ⟨by decide, by decide⟩

theorem blank_singleton {c : UInt8} (h : IsBlank c) : Blank [c] := by
  intro b hb
  rwa [List.mem_singleton.mp hb]

theorem Blank.append {w v : List UInt8} (hw : Blank w) (hv : Blank v) : Blank (w ++ v) := by
  intro c hc
  exact (List.mem_append.mp hc).elim (hw c) (hv c)

/-! ### Strings -/

theorem parseHex4_append (a b c d : UInt8) (ptr : List UInt8) :
    parseHex4 (a :: b :: c :: d :: ptr) = parseHex4 [a, b, c, d] := by
  simp only [parseHex4, hexDigits]

theorem unescapeU_ascii {a b c d e : UInt8} {uc : UInt32} (hhex : parseHex4 [a, b, c, d] = .ok uc)
    (h0 : uc ≠ 0) (hlt : uc < 0x80) (he : uc.toUInt8 = e) (ptr : List UInt8) :
    unescapeU (a :: b :: c :: d :: ptr) = .ok ([e], ptr) := by
  have hmore : ¬(0xdc00 ≤ uc ∧ uc ≤ 0xdfff ∨ uc = 0) := by
    rintro (h | h)
    · have h1 := UInt32.le_iff_toNat_le.mp h.1
      have h2 := UInt32.lt_iff_toNat_lt.mp hlt
      simp only [UInt32.reduceToNat] at h1 h2
      omega
    · exact h0 h
  have hpair : ¬(0xd800 ≤ uc ∧ uc ≤ 0xdbff) := by
    rintro h
    have h1 := UInt32.le_iff_toNat_le.mp h.1
    have h2 := UInt32.lt_iff_toNat_lt.mp hlt
    simp only [UInt32.reduceToNat] at h1 h2
    omega
  have hadv : advance 4 (a :: b :: c :: d :: ptr) = .ok ptr := by
    rw [advance, if_pos (by simp only [List.length_cons]; omega)]
    rfl
  rw [unescapeU, parseHex4_append, hhex, hadv]
  simp only [Outcome.bind, if_neg hmore, if_neg hpair, utf8, if_pos hlt, he]

/-- The characters that stand for themselves in a string. -/
def Plain (c : UInt8) : Prop := ¬(c = quote ∨ c = 0) ∧ c ≠ backslash

instance (c : UInt8) : Decidable (Plain c) := inferInstanceAs (Decidable (_ ∧ _))

theorem parseHex4_low : ∀ n, n < 32 → n ≠ 0 →
    parseHex4 [0x30, 0x30, hexDigit (UInt8.ofNat n / 16), hexDigit (UInt8.ofNat n % 16)] =
        .ok (UInt32.ofNat n) ∧
      UInt32.ofNat n ≠ 0 ∧ UInt32.ofNat n < 0x80 ∧ (UInt32.ofNat n).toUInt8 = UInt8.ofNat n ∧
      Plain (hexDigit (UInt8.ofNat n / 16)) ∧ Plain (hexDigit (UInt8.ofNat n % 16)) := by
  decide

/-- How a character is escaped: not at all, by one character, or by its code. -/
theorem escape_cases {c : UInt8} (h0 : c ≠ 0) :
    escape c = [c] ∧ Plain c ∨
      (∃ e, escape c = [backslash, e] ∧ e ≠ 0x75 ∧ unescapeChar e = c) ∨
        ∃ a b d e, escape c = [backslash, 0x75, a, b, d, e] ∧
          (Plain a ∧ Plain b ∧ Plain d ∧ Plain e) ∧
          ∃ uc, parseHex4 [a, b, d, e] = .ok uc ∧ uc ≠ 0 ∧ uc < 0x80 ∧ uc.toUInt8 = c := by
  unfold escape
  by_cases hplain : 31 < c ∧ c ≠ quote ∧ c ≠ backslash
  · rw [if_pos hplain]
    exact .inl ⟨rfl, fun h => h.elim hplain.2.1 h0, hplain.2.2⟩
  · rw [if_neg hplain]
    split_ifs with h1 h2 h3 h4 h5 h6 h7
    · exact .inr (.inl ⟨_, rfl, by decide, h1.symm⟩)
    · exact .inr (.inl ⟨_, rfl, by decide, h2.symm⟩)
    · exact .inr (.inl ⟨_, rfl, by decide, h3.symm⟩)
    · exact .inr (.inl ⟨_, rfl, by decide, h4.symm⟩)
    · exact .inr (.inl ⟨_, rfl, by decide, h5.symm⟩)
    · exact .inr (.inl ⟨_, rfl, by decide, h6.symm⟩)
    · exact .inr (.inl ⟨_, rfl, by decide, h7.symm⟩)
    · have hlow : c.toNat < 32 := by
        by_contra hge
        refine hplain ⟨UInt8.lt_iff_toNat_lt.mpr ?_, h2, h1⟩
        exact Nat.lt_of_lt_of_le (by decide) (Nat.le_of_not_lt hge)
      obtain ⟨hhex, hne, hlt, he, ha, hb⟩ :=
        parseHex4_low c.toNat hlow fun h => h0 (UInt8.toNat_inj.mp h)
      rw [UInt8.ofNat_toNat] at hhex he ha hb
      exact .inr (.inr ⟨_, _, _, _, rfl, ⟨by decide, by decide, ha, hb⟩, _, hhex, hne, hlt, he⟩)

/-- The second pass writes the character. -/
theorem unescapeRound_escape {c : UInt8} (h0 : c ≠ 0) (ptr : List UInt8) {out : Pen}
    (hroom : 0 < out.room) :
    unescapeRound (escape c ++ ptr, out) = .ok (.inl (ptr, out.wrote [c])) := by
  have hput : out.put [c] = .ok (out.wrote [c]) := Pen.put_ok hroom
  rcases escape_cases h0 with ⟨he, hplain⟩ | ⟨e, he, hu, hc⟩ | ⟨a, b, d, e, he, -, uc, hhex, hne, hlt, hc⟩
  · rw [he, List.singleton_append]
    simp only [unescapeRound, if_neg hplain.1, if_pos hplain.2, hput, Outcome.bind, Fueled.of_ok]
  · rw [he]
    simp only [List.cons_append, List.nil_append, unescapeRound]
    rw [if_neg (by decide), if_neg (by decide), if_neg hu, hc, hput]
    rfl
  · have hescape := unescapeU_ascii hhex hne hlt hc ptr
    rw [he]
    simp only [List.cons_append, List.nil_append, unescapeRound]
    rw [if_neg (by decide), if_neg (by decide), if_pos trivial, hescape, Outcome.bind, hput]
    rfl

theorem stringLen_plain {c : UInt8} (hc : Plain c) {ptr : List UInt8} {n : Nat}
    (h : stringLen ptr = .ok n) : stringLen (c :: ptr) = .ok (n + 1) := by
  rw [stringLen.eq_def]
  simp only [if_neg hc.1, if_neg hc.2, h, Outcome.bind]

theorem stringLen_quote (ptr : List UInt8) : stringLen (quote :: ptr) = .ok 0 := by
  rw [stringLen.eq_def]
  simp only [true_or, if_true]

theorem stringLen_escaped (e : UInt8) {ptr : List UInt8} {n : Nat} (h : stringLen ptr = .ok n) :
    stringLen (backslash :: e :: ptr) = .ok (n + 1) := by
  have hb : ¬(backslash = quote ∨ backslash = 0) := by decide
  rw [stringLen.eq_def]
  simp only [if_neg hb, if_true, h, Outcome.bind]

/-- The first pass counts at least one byte for every character. -/
theorem stringLen_escape {c : UInt8} (h0 : c ≠ 0) {ptr : List UInt8} {n : Nat}
    (h : stringLen ptr = .ok n) : ∃ m, stringLen (escape c ++ ptr) = .ok m ∧ n + 1 ≤ m := by
  rcases escape_cases h0 with ⟨he, hplain⟩ | ⟨e, he, -, -⟩ | ⟨a, b, d, e, he, ⟨ha, hb, hd, he'⟩, -⟩
  · rw [he]
    exact ⟨n + 1, stringLen_plain hplain h, Nat.le_refl _⟩
  · rw [he]
    exact ⟨n + 1, stringLen_escaped e h, Nat.le_refl _⟩
  · rw [he]
    refine ⟨n + 1 + 1 + 1 + 1 + 1, stringLen_escaped 0x75 ?_, by omega⟩
    exact stringLen_plain ha (stringLen_plain hb (stringLen_plain hd (stringLen_plain he' h)))

theorem stringLen_joined {bs : List UInt8} (h0 : (0 : UInt8) ∉ bs) (rest : List UInt8) :
    ∃ n, stringLen (Pen.joined (fun _ => escape) bs ++ quote :: rest) = .ok n ∧ bs.length ≤ n := by
  induction bs with
  | nil => exact ⟨0, stringLen_quote rest, Nat.le_refl 0⟩
  | cons c bs ih =>
    obtain ⟨n, hn, hle⟩ := ih fun h => h0 (List.mem_cons_of_mem c h)
    obtain ⟨m, hm, hlt⟩ := stringLen_escape (fun h => h0 (h ▸ List.mem_cons_self)) hn
    rw [Pen.joined, List.append_assoc]
    exact ⟨m, hm, by rw [List.length_cons]; omega⟩

theorem unescape_joined {bs : List UInt8} (h0 : (0 : UInt8) ∉ bs) (rest : List UInt8) :
    ∀ {fuel : Nat} {out : Pen}, bs.length < fuel → bs.length ≤ out.room →
      whileLoop unescapeRound fuel (Pen.joined (fun _ => escape) bs ++ quote :: rest, out) =
        .ok (quote :: rest, out.wrote bs) := by
  induction bs with
  | nil =>
    intro fuel out hfuel _
    obtain ⟨fuel, rfl⟩ := Nat.exists_eq_add_one_of_ne_zero (Nat.ne_of_gt hfuel)
    rw [Pen.wrote_nil]
    exact whileLoop_break rfl
  | cons c bs ih =>
    intro fuel out hfuel hroom
    obtain ⟨fuel, rfl⟩ := Nat.exists_eq_add_one_of_ne_zero (Nat.ne_of_gt (Nat.zero_lt_of_lt hfuel))
    rw [List.length_cons] at hfuel hroom
    have hc : c ≠ 0 := fun h => h0 (h ▸ List.mem_cons_self)
    have hone : 0 < out.room := by omega
    have hround := unescapeRound_escape hc (Pen.joined (fun _ => escape) bs ++ quote :: rest) hone
    have hroom' : bs.length ≤ (out.wrote [c]).room := by
      rw [Pen.room_wrote, List.length_singleton]
      omega
    have hrest := ih (fun h => h0 (List.mem_cons_of_mem c h)) (Nat.lt_of_succ_lt_succ hfuel) hroom'
    rw [Pen.joined, List.append_assoc, whileLoop_next hround, hrest, Pen.wrote_wrote]
    rfl

theorem length_le_joined (bs : List UInt8) :
    bs.length ≤ (Pen.joined (fun _ => escape) bs).length := by
  induction bs with
  | nil => exact Nat.le_refl 0
  | cons c bs ih =>
    have hlen : 1 ≤ (escape c).length := by
      rw [length_escape, tokenLen]
      split_ifs
      · decide
      · decide
      · decide
    rw [Pen.joined, List.length_append, List.length_cons]
    omega

/-- **A printed string is read back.** -/
theorem parseString_text {str : CString} {rest : List UInt8} {fuel : Nat}
    (hfuel : (stringText str ++ rest).length ≤ fuel) (item : Item) :
    parseString fuel item (stringText str ++ rest) =
      .ok { item with valuestring := some str, type := cJSON_String } rest := by
  have htext : stringText str ++ rest =
      quote :: (Pen.joined (fun _ => escape) str.bytes ++ quote :: rest) := by
    simp only [stringText, List.append_assoc, List.cons_append, List.nil_append]
  have hlen := length_le_joined str.bytes
  rw [htext, List.length_cons, List.length_append] at hfuel
  obtain ⟨n, hn, hle⟩ := stringLen_joined str.nulFree rest
  have hroom : str.bytes.length ≤ (Pen.malloc (n + 1)).room := Nat.le_succ_of_le hle
  have hfuel' : str.bytes.length < fuel := by omega
  have hloop := unescape_joined str.nulFree rest hfuel' hroom
  have hput : ((Pen.malloc (n + 1)).wrote str.bytes).put [0] =
      .ok (((Pen.malloc (n + 1)).wrote str.bytes).wrote [0]) := by
    apply Pen.put_ok
    rw [List.length_singleton, Pen.room_wrote, Pen.room_malloc]
    omega
  have hstr : (((Pen.malloc (n + 1)).wrote str.bytes).wrote [0]).str = str := by
    rw [Pen.wrote_wrote]
    exact Pen.str_wrote_zero str.nulFree
  have hclose : closeString item (quote :: rest, (Pen.malloc (n + 1)).wrote str.bytes) =
      .ok ({ item with valuestring := some str, type := cJSON_String }, rest) := by
    simp only [closeString, hput, hstr, Outcome.bind, takeChar, if_true]
  rw [htext, parseString, if_neg (fun h => h rfl), takeString, hn, Fueled.of_ok, Fueled.ok_bind,
    hloop, Fueled.ok_bind, hclose]
  rfl

/-! ### Numbers -/

/-- The text goes on with a character that is not part of a number. -/
def Ends : List UInt8 → Prop
  | [] => False
  | c :: _ => isDigit c = false ∧ c ≠ 0x2e ∧ c ≠ 0x65 ∧ c ≠ 0x45

theorem takeDigits_append {ds : List UInt8} (hds : ∀ c ∈ ds, isDigit c = true)
    {rest : List UInt8} (hrest : Ends rest) : takeDigits (ds ++ rest) = .ok (ds, rest) := by
  induction ds with
  | nil =>
    cases rest with
    | nil => exact hrest.elim
    | cons c rest =>
      rw [List.nil_append, takeDigits, if_neg (by rw [hrest.1]; decide)]
  | cons c ds ih =>
    rw [List.cons_append, takeDigits, if_pos (hds c List.mem_cons_self),
      ih fun d hd => hds d (List.mem_cons_of_mem c hd)]
    rfl

theorem takeFraction_ends {rest : List UInt8} (h : Ends rest) :
    takeFraction rest = .ok ([], rest) := by
  cases rest with
  | nil => exact h.elim
  | cons c rest =>
    obtain ⟨-, hc, -⟩ := h
    cases rest with
    | nil => rw [takeFraction, if_neg hc]
    | cons d rest => rw [takeFraction, if_neg fun h => hc h.1]

theorem takeExponent_ends {rest : List UInt8} (h : Ends rest) :
    takeExponent rest = .ok ((false, []), rest) := by
  cases rest with
  | nil => exact h.elim
  | cons c rest =>
    obtain ⟨-, -, he, hE⟩ := h
    rw [takeExponent, if_neg fun h => h.elim he hE]

theorem takeInteger_ends {rest : List UInt8} (h : Ends rest) :
    takeInteger rest = .ok ([], rest) := by
  cases rest with
  | nil => exact h.elim
  | cons c rest =>
    have hc : ¬(0x31 ≤ c ∧ c ≤ 0x39) := by
      rintro ⟨hlo, hhi⟩
      have hdigit : isDigit c = true := by
        rw [isDigit, Bool.and_eq_true, decide_eq_true_eq, decide_eq_true_eq]
        exact ⟨UInt8.le_trans (by decide) hlo, hhi⟩
      rw [h.1] at hdigit
      cases hdigit
    rw [takeInteger, if_neg hc]

theorem scanNumber_zero {rest : List UInt8} (h : Ends rest) :
    scanNumber (0x30 :: rest) = .ok (⟨false, [], [], false, []⟩, rest) := by
  have hsign : takeChar 0x2d (0x30 :: rest) = .ok (false, 0x30 :: rest) := rfl
  have hzero : takeChar 0x30 (0x30 :: rest) = .ok (true, rest) := rfl
  rw [scanNumber, hsign, Outcome.bind, hzero, Outcome.bind, takeInteger_ends h, Outcome.bind,
    takeFraction_ends h, Outcome.bind, takeExponent_ends h]
  rfl

def digitChars (ds : List Nat) : List UInt8 := ds.map fun d => 0x30 + UInt8.ofNat d

theorem isDigit_digitChars {ds : List Nat} (h : ∀ d ∈ ds, d < 10) :
    ∀ c ∈ digitChars ds, isDigit c = true := by
  intro c hc
  obtain ⟨d, hd, rfl⟩ := List.mem_map.mp hc
  have hall : ∀ d, d < 10 → isDigit (0x30 + UInt8.ofNat d) = true := by decide
  exact hall d (h d hd)

theorem digitsValue_digitChars {ds : List Nat} (h : ∀ d ∈ ds, d < 10) :
    digitsValue (digitChars ds) = ds.foldl (fun v d => v * 10 + d) 0 := by
  have hall : ∀ d, d < 10 → (0x30 + UInt8.ofNat d).toNat - 0x30 = d := by decide
  have hgen : ∀ n, (digitChars ds).foldl (fun n c => n * 10 + (c.toNat - 0x30)) n =
      ds.foldl (fun v d => v * 10 + d) n := by
    induction ds with
    | nil =>
      intro n
      rfl
    | cons d ds ih =>
      intro n
      rw [digitChars, List.map_cons, List.foldl_cons, List.foldl_cons,
        hall d (h d List.mem_cons_self)]
      exact ih (fun e he => h e (List.mem_cons_of_mem d he)) _
  exact hgen 0

/-- A numeral that does not start with a zero, after its sign. -/
theorem scanNumber_digits {neg : Bool} {ds : List Nat} (hlt : ∀ d ∈ ds, d < 10)
    (hhead : ∃ d t, ds = d :: t ∧ d ≠ 0) {rest : List UInt8} (h : Ends rest) :
    scanNumber ((if neg then [0x2d] else []) ++ digitChars ds ++ rest) =
      .ok (⟨neg, digitChars ds, [], false, []⟩, rest) := by
  obtain ⟨d, t, rfl, hd⟩ := hhead
  have hall : ∀ d, d < 10 → d ≠ 0 → (0x30 : UInt8) + UInt8.ofNat d ≠ 0x2d ∧
      (0x30 : UInt8) + UInt8.ofNat d ≠ 0x30 ∧ 0x31 ≤ (0x30 : UInt8) + UInt8.ofNat d ∧
        (0x30 : UInt8) + UInt8.ofNat d ≤ 0x39 := by decide
  obtain ⟨hminus, hzero, hlo, hhi⟩ := hall d (hlt d List.mem_cons_self) hd
  have hsign : takeChar 0x2d ((if neg then [0x2d] else []) ++ digitChars (d :: t) ++ rest) =
      .ok (neg, digitChars (d :: t) ++ rest) := by
    cases neg with
    | true => rfl
    | false =>
      show Outcome.ok (if _ then _ else _) = _
      rw [if_neg hminus]
      rfl
  have hskip : takeChar 0x30 (digitChars (d :: t) ++ rest) =
      .ok (false, digitChars (d :: t) ++ rest) := by
    show Outcome.ok (if _ then _ else _) = _
    rw [if_neg hzero]
    rfl
  have hint : takeInteger (digitChars (d :: t) ++ rest) = .ok (digitChars (d :: t), rest) := by
    refine Eq.trans ?_ (takeDigits_append (isDigit_digitChars hlt) h)
    show (if _ then _ else _) = _
    rw [if_pos ⟨hlo, hhi⟩]
    rfl
  rw [scanNumber, hsign, Outcome.bind, hskip, Outcome.bind, hint, Outcome.bind,
    takeFraction_ends h, Outcome.bind, takeExponent_ends h]
  rfl

theorem digits_reverse_head {m : Nat} (hm : m ≠ 0) :
    ∃ d t, (Nat.digits 10 m).reverse = d :: t ∧ d ≠ 0 := by
  have hne : Nat.digits 10 m ≠ [] := Nat.digits_ne_nil_iff_ne_zero.mpr hm
  cases hrev : (Nat.digits 10 m).reverse with
  | nil => exact absurd (List.reverse_eq_nil_iff.mp hrev) hne
  | cons d t =>
    have hdigits : Nat.digits 10 m = t.reverse ++ [d] := by
      rw [← List.reverse_reverse (Nat.digits 10 m), hrev, List.reverse_cons]
    have hlast : (Nat.digits 10 m).getLast hne ≠ 0 := Nat.getLast_digit_ne_zero 10 hm
    refine ⟨d, t, rfl, ?_⟩
    simpa [hdigits] using hlast

theorem digitsValue_digits (m : Nat) : digitsValue (digitChars (Nat.digits 10 m).reverse) = m := by
  have hlt : ∀ d ∈ (Nat.digits 10 m).reverse, d < 10 := fun d hd =>
    Nat.digits_lt_base (by decide) (List.mem_reverse.mp hd)
  have hval := Nat.ofDigits_digits 10 m
  rw [Nat.ofDigits_eq_foldr] at hval
  rw [digitsValue_digitChars hlt, List.foldl_reverse]
  refine Eq.trans ?_ hval
  congr 1
  funext d v
  rw [Nat.mul_comm, Nat.add_comm]
  rfl

theorem decimal_of_ne_zero {n : Int32} (hn : n ≠ 0) :
    n.toInt.natAbs ≠ 0 ∧ decimal n = (if decide (n < 0) then [0x2d] else []) ++
      digitChars (Nat.digits 10 n.toInt.natAbs).reverse := by
  have hm : n.toInt.natAbs ≠ 0 := fun h => hn (Int32.toInt_inj.mp (Int.natAbs_eq_zero.mp h))
  have hlen : 1 - (Nat.digits 10 n.toInt.natAbs).length = 0 :=
    Nat.sub_eq_zero_of_le (List.length_pos_iff.mpr (Nat.digits_ne_nil_iff_ne_zero.mpr hm))
  refine ⟨hm, ?_⟩
  simp only [decimal, decText, hlen, List.replicate_zero, List.nil_append, digitChars,
    decide_eq_true_eq]

theorem isInt_ofInt (n : Int32) : isInt n (.ofInt n) = true := by
  have hlo : Int32.minValue.toInt ≤ n.toInt := n.le_toInt
  have hhi : n.toInt ≤ Int32.maxValue.toInt := Int.le_of_lt_add_one n.toInt_lt
  rw [isInt, Double.near_self (by norm_num [dblEpsilon]), Double.le_ofInt hhi, Double.le_ofInt hlo]
  rfl

/-- An integer is printed as one. -/
theorem numberText_ofInt (n : Int32) : numberText n (.ofInt n) = decimal n := by
  unfold numberText
  split_ifs with hzero hint
  · have hq : (n.toInt : ℚ) = 0 := of_decide_eq_true hzero
    have hn : n = 0 := Int32.toInt_inj.mp (Int.cast_eq_zero.mp hq)
    rw [hn]
    decide
  · rfl
  · exact absurd (isInt_ofInt n) hint

/-- **A printed integer is read back.** -/
theorem parseNumber_decimal (n : Int32) {rest : List UInt8} (h : Ends rest) (item : Item) :
    parseNumber arith item (decimal n ++ rest) =
      .ok { item with valuedouble := .ofInt n, valueint := n, type := cJSON_Number } rest := by
  by_cases hz : n = 0
  · subst hz
    have hscan : scanNumber ([0x30] ++ rest) = _ := scanNumber_zero h
    have htext : decimal 0 = [0x30] := by decide
    rw [htext, parseNumber, hscan]
    rfl
  · obtain ⟨hm, htext⟩ := decimal_of_ne_zero hz
    have hlt : ∀ d ∈ (Nat.digits 10 n.toInt.natAbs).reverse, d < 10 := fun d hd =>
      Nat.digits_lt_base (by decide) (List.mem_reverse.mp hd)
    have hscan := @scanNumber_digits (decide (n < 0)) _ hlt (digits_reverse_head hm) _ h
    rw [← htext] at hscan
    have hsign : n < 0 ↔ n.toInt < 0 := Int32.lt_iff_toInt_lt
    have hvalue : (if decide (n < 0) then -(n.toInt.natAbs : Int) else n.toInt.natAbs) = n.toInt := by
      by_cases hneg : n < 0
      · have hi := hsign.mp hneg
        rw [if_pos (decide_eq_true hneg)]
        omega
      · have hi : ¬n.toInt < 0 := fun h => hneg (hsign.mpr h)
        rw [if_neg (by rwa [decide_eq_true_eq])]
        omega
    have hrange : -2 ^ 31 ≤ n.toInt ∧ n.toInt < 2 ^ 31 := ⟨n.le_toInt, n.toInt_lt⟩
    have hexact : Numeral.values arith ⟨decide (n < 0),
        digitChars (Nat.digits 10 n.toInt.natAbs).reverse, [], false, []⟩ = (.ofInt n, n) := by
      unfold Numeral.values
      simp only [digitsValue_digits, hvalue]
      rw [if_pos ⟨trivial, trivial, hrange.1, hrange.2⟩, Int32.ofInt_toInt]
    rw [parseNumber, hscan]
    show Parsed.ok { item with valuedouble := _, valueint := _, type := _ } rest = _
    rw [hexact]

/-! ### Items -/

theorem ifText_self {α : Type} (text rest : List UInt8) (h0 : (0 : UInt8) ∉ text)
    (found : List UInt8 → Parsed α) (otherwise : Parsed α) :
    ifText text (text ++ rest) found otherwise = found rest := by
  have hcmp : ∀ t : List UInt8, (0 : UInt8) ∉ t → strncmp (t ++ rest) t t.length = .ok 0 := by
    intro t
    induction t with
    | nil =>
      intro _
      cases rest with
      | nil => rfl
      | cons c rest => rfl
    | cons c t ih =>
      intro h
      have hc : c ≠ 0 := fun hc => h (hc ▸ List.mem_cons_self)
      rw [List.cons_append, List.length_cons, strncmp, if_neg (fun h => h rfl), if_neg hc]
      exact ih fun hm => h (List.mem_cons_of_mem c hm)
  rw [ifText, hcmp text h0]
  simp only [if_true, List.drop_left]

theorem ifText_ne {α : Type} {c t : UInt8} (h : c ≠ t) (ht : t ≠ 0) (text value : List UInt8)
    (found : List UInt8 → Parsed α) (otherwise : Parsed α) :
    ifText (t :: text) (c :: value) found otherwise = otherwise := by
  have hne : (if c = 0 then (-1 : Int) else if t = 0 then 1 else (c.toNat : Int) - t.toNat) ≠ 0 := by
    have hnat : c.toNat ≠ t.toNat := fun he => h (UInt8.toNat_inj.mp he)
    split_ifs
    · decide
    · omega
  have hcmp : strncmp (c :: value) (t :: text) (t :: text).length =
      .ok (if c = 0 then -1 else if t = 0 then 1 else (c.toNat : Int) - t.toNat) := by
    rw [List.length_cons, strncmp, if_pos h]
  rw [ifText, hcmp]
  simp only [if_neg hne]

/-! ### Lists of items -/

/-- A character that an item can start with: no white space and no closing bracket. -/
def Opens (c : UInt8) : Prop := ¬IsBlank c ∧ c ≠ 0x5d ∧ c ≠ 0x7d

instance (c : UInt8) : Decidable (Opens c) := inferInstanceAs (Decidable (_ ∧ _))

/-- From a text, followed by a character that ends it, the function reads the item.  The texts are
shorter than `N`. -/
structure ReadBy (parse : List UInt8 → Parsed Item) (N : Nat) (text : List UInt8) (item : Item) :
    Prop where
  head : ∃ c t, text = c :: t ∧ Opens c
  read : ∀ rest, Ends rest → (text ++ rest).length < N → parse (text ++ rest) = .ok item rest

/-- How the items stand in a list: white space around each, and commas between them. -/
structure Layout {α : Type} (g : Bool → α → List UInt8) (body : α → List UInt8)
    (pre post last : List UInt8) : Prop where
  more : ∀ a, g true a = pre ++ (body a ++ (0x2c :: post))
  one : ∀ a, g false a = pre ++ (body a ++ last)
  pre : Blank pre
  post : Blank post
  last : Blank last

theorem ends_comma (rest : List UInt8) : Ends (0x2c :: rest) :=
  ⟨by decide, by decide, by decide, by decide⟩

section

variable {α : Type} {parse : List UInt8 → Parsed Item} {close : UInt8} {N : Nat}
  {g : Bool → α → List UInt8} {body : α → List UInt8} {pre post last tail : List UInt8}

/-- One round of the loop, up to the character behind the item. -/
theorem parseItems_round {text : List UInt8} {item : Item} (hread : ReadBy parse N text item)
    {white rest : List UInt8} (hwhite : Blank white) (hends : Ends rest)
    (hlen : (text ++ rest).length < N) (fuel : Nat) :
    parseItems parse close (fuel + 1) (white ++ (text ++ rest)) =
      (skip rest).bind fun _ value =>
        match value with
        | [] => .fault
        | c :: rest =>
          if c = 0x2c then
            (parseItems parse close fuel rest).bind fun items rest => .ok (item :: items) rest
          else if c = close then .ok [item] rest
          else .null (c :: rest) := by
  obtain ⟨c, t, hc, hblack⟩ := hread.head
  have hskip : skip (white ++ (text ++ rest)) = .ok () (text ++ rest) := by
    rw [skip_blank hwhite, hc]
    exact skip_cons hblack.1 _
  rw [parseItems, hskip, Parsed.ok_bind]
  exact (congrArg (Parsed.bind · _) (hread.read rest hends hlen)).trans (Parsed.ok_bind ..)

/-- **A list of items is read back up to its closing bracket.** -/
theorem parseItems_joined (hlay : Layout g body pre post last) (hclose : ¬IsBlank close)
    (hcomma : close ≠ 0x2c) (htail : Blank tail)
    (hends : ∀ rest, Ends (last ++ (tail ++ close :: rest))) {l : List α} {items : List Item}
    (h : List.Forall₂ (fun a item => ReadBy parse N (body a) item) l items) :
    ∀ {white : List UInt8} {fuel : Nat} {rest : List UInt8}, Blank white → l ≠ [] →
      (white ++ (Pen.joined g l ++ (tail ++ close :: rest))).length < fuel → fuel ≤ N →
      parseItems parse close fuel (white ++ (Pen.joined g l ++ (tail ++ close :: rest))) =
        .ok items rest := by
  induction h with
  | nil =>
    intro white fuel rest _ hne
    exact absurd rfl hne
  | @cons a item l items hread htl ih =>
    intro white fuel rest hwhite _ hfuel hN
    obtain ⟨fuel, rfl⟩ := Nat.exists_eq_add_one_of_ne_zero (Nat.ne_of_gt (Nat.zero_lt_of_lt hfuel))
    have hwp : Blank (white ++ pre) := hwhite.append hlay.pre
    cases htl with
    | nil =>
      have htext : white ++ (Pen.joined g [a] ++ (tail ++ close :: rest)) =
          (white ++ pre) ++ (body a ++ (last ++ (tail ++ close :: rest))) := by
        simp only [Pen.joined, List.isEmpty_nil, Bool.not_true, hlay.one, List.append_assoc,
          List.nil_append]
      rw [htext] at hfuel ⊢
      have hlen : (body a ++ (last ++ (tail ++ close :: rest))).length < N := by
        rw [List.length_append] at hfuel
        omega
      have hskip : skip (last ++ (tail ++ close :: rest)) = .ok () (close :: rest) := by
        rw [skip_blank hlay.last, skip_blank htail]
        exact skip_cons hclose rest
      rw [parseItems_round hread hwp (hends rest) hlen, hskip, Parsed.ok_bind]
      simp only [if_neg hcomma, if_true]
    | @cons b item' l items' hread' htl' =>
      have htext : white ++ (Pen.joined g (a :: b :: l) ++ (tail ++ close :: rest)) =
          (white ++ pre) ++ (body a ++ (0x2c ::
            (post ++ (Pen.joined g (b :: l) ++ (tail ++ close :: rest))))) := by
        rw [Pen.joined]
        simp only [List.isEmpty_cons, Bool.not_false, hlay.more, List.append_assoc,
          List.cons_append]
      rw [htext] at hfuel ⊢
      have hlen : (body a ++ (0x2c ::
          (post ++ (Pen.joined g (b :: l) ++ (tail ++ close :: rest))))).length < N := by
        rw [List.length_append] at hfuel
        omega
      have hfuel' : (post ++ (Pen.joined g (b :: l) ++ (tail ++ close :: rest))).length < fuel := by
        rw [List.length_append, @List.length_append _ (body a), List.length_cons] at hfuel
        omega
      have hrest := ih hlay.post (List.cons_ne_nil b l) hfuel' (by omega)
      have hskip : skip (0x2c :: (post ++ (Pen.joined g (b :: l) ++ (tail ++ close :: rest)))) =
          .ok () _ := skip_cons (by decide) _
      rw [parseItems_round hread hwp (ends_comma _) hlen, hskip, Parsed.ok_bind]
      simp only [if_true, hrest, Parsed.ok_bind]

theorem parseItems_skip {w : List UInt8} (hw : Blank w) (fuel : Nat) (text : List UInt8) :
    parseItems parse close fuel (w ++ text) = parseItems parse close fuel text := by
  cases fuel with
  | zero => rfl
  | succ fuel => rw [parseItems, parseItems, skip_blank hw]

/-- **A bracket with a list of items is read back.** -/
theorem parseBracket_joined {opening : UInt8} (hlay : Layout g body pre post last)
    (hclose : close = 0x5d ∨ close = 0x7d) (htail : Blank tail)
    (hends : ∀ rest, Ends (last ++ (tail ++ close :: rest))) {l : List α} {items : List Item}
    (h : List.Forall₂ (fun a item => ReadBy parse N (body a) item) l items) (hne : l ≠ [])
    {white rest : List UInt8} (hwhite : Blank white)
    (hlen : (white ++ (Pen.joined g l ++ (tail ++ close :: rest))).length < N)
    (type : Nat) (item : Item) :
    parseBracket parse opening close type N item
        (opening :: (white ++ (Pen.joined g l ++ (tail ++ close :: rest)))) =
      .ok { item with type := type, child := chain items } rest := by
  have hblack : ¬IsBlank close ∧ close ≠ 0x2c := by
    rcases hclose with rfl | rfl
    · exact ⟨by decide, by decide⟩
    · exact ⟨by decide, by decide⟩
  have hitems := parseItems_joined hlay hblack.1 hblack.2 htail hends h hwhite hne hlen (Nat.le_refl N)
  obtain ⟨c, text, htext, hopens⟩ : ∃ c text,
      white ++ (Pen.joined g l ++ (tail ++ close :: rest)) = (white ++ pre) ++ c :: text ∧
        Opens c := by
    cases h with
    | nil => exact absurd rfl hne
    | @cons a item l items hread htl =>
      obtain ⟨c, t, hc, hopens⟩ := hread.head
      cases hmore : !l.isEmpty with
      | true =>
        refine ⟨c, t ++ (0x2c :: post ++ (Pen.joined g l ++ (tail ++ close :: rest))), ?_, hopens⟩
        rw [Pen.joined, hmore, hlay.more, hc]
        simp only [List.append_assoc, List.cons_append]
      | false =>
        refine ⟨c, t ++ (last ++ (Pen.joined g l ++ (tail ++ close :: rest))), ?_, hopens⟩
        rw [Pen.joined, hmore, hlay.one, hc]
        simp only [List.append_assoc, List.cons_append]
  have hskip : skip ((white ++ pre) ++ c :: text) = .ok () (c :: text) := by
    rw [skip_blank (hwhite.append hlay.pre)]
    exact skip_cons hopens.1 text
  have hc : c ≠ close := by
    rcases hclose with rfl | rfl
    · exact hopens.2.1
    · exact hopens.2.2
  rw [htext, parseItems_skip (hwhite.append hlay.pre)] at hitems
  rw [htext, parseBracket, if_neg (fun h => h rfl), hskip, Parsed.ok_bind]
  simp only [if_neg hc, hitems, Parsed.ok_bind]

theorem parseBracket_empty {opening : UInt8} (hclose : ¬IsBlank close) {white rest : List UInt8}
    (hwhite : Blank white) (type : Nat) (item : Item) :
    parseBracket parse opening close type N item (opening :: (white ++ close :: rest)) =
      .ok { item with type := type } rest := by
  have hskip : skip (white ++ close :: rest) = .ok () (close :: rest) := by
    rw [skip_blank hwhite]
    exact skip_cons hclose rest
  rw [parseBracket, if_neg (fun h => h rfl), hskip, Parsed.ok_bind]
  simp only [if_true]

end

/-! ### The tree that comes back -/

/-- What is left of an item: the bits that are not part of the type go, and so does what is not
printed of an item of this type; `true` gets the value 1. -/
def readItem (type : Nat) (valuestring : Option CString) (valueint : Int32) (valuedouble : Double)
    (elements members : List Item) (string : Option CString) : Item where
  child :=
    if type % 256 = cJSON_Array then chain elements
    else if type % 256 = cJSON_Object then chain members
    else .null
  type := type % 256
  valuestring := if type % 256 = cJSON_String then valuestring else none
  valueint :=
    if type % 256 = cJSON_True then 1
    else if type % 256 = cJSON_Number then valueint
    else 0
  valuedouble := if type % 256 = cJSON_Number then valuedouble else .ofInt 0
  string := string

def readItems (named : Bool) : CJson → List Item
  | .null => []
  | .item next child type valuestring valueint valuedouble string =>
    readItem type valuestring valueint valuedouble (readItems false child) (readItems true child)
        (if named then string else none) ::
      readItems named next

def readBack : CJson → CJson
  | .null => .null
  | .item _ child type valuestring valueint valuedouble _ =>
    (readItem type valuestring valueint valuedouble (readItems false child) (readItems true child)
      none).link .null

/-- The numbers that are printed are integers that an `int` can hold. -/
def Integers : CJson → Prop
  | .null => True
  | .item next child type _ valueint valuedouble _ =>
    (type % 256 = cJSON_Number → valuedouble = .ofInt valueint) ∧
      (type % 256 = cJSON_Array → Integers child) ∧
      (type % 256 = cJSON_Object → Integers child) ∧ Integers next

/-- As the text of a value, the text gives the item, with the name that has been set before. -/
structure ReadsAs (arith : Numeral → Double × Int32) (text : List UInt8) (item : Item) : Prop where
  head : ∃ c t, text = c :: t ∧ Opens c
  read : ∀ fuel rest type name, Ends rest → (text ++ rest).length < fuel →
    parseValue arith fuel ⟨.null, type, none, 0, .ofInt 0, name⟩ (text ++ rest) =
      .ok { item with string := name } rest

/-- A value that starts like none of the words is parsed by its first character. -/
theorem parseValue_cons {fuel : Nat} {c : UInt8} (hn : c ≠ 0x6e) (hf : c ≠ 0x66) (ht : c ≠ 0x74)
    (item : Item) (value : List UInt8) :
    parseValue arith (fuel + 1) item (c :: value) =
      if c = quote then parseString fuel item (c :: value)
      else if c = 0x2d ∨ isDigit c then parseNumber arith item (c :: value)
      else if c = 0x5b then parseArray (parseValue arith fuel) fuel item (c :: value)
      else if c = 0x7b then parseObject (parseValue arith fuel) fuel item (c :: value)
      else .null (c :: value) := by
  rw [parseValue, nullText, ifText_ne hn (by decide), falseText, ifText_ne hf (by decide), trueText,
    ifText_ne ht (by decide)]

theorem decimal_head (n : Int32) :
    ∃ c t, decimal n = c :: t ∧ (c = 0x2d ∨ isDigit c = true) := by
  by_cases hz : n = 0
  · subst hz
    exact ⟨0x30, [], by decide, .inr rfl⟩
  · obtain ⟨hm, htext⟩ := decimal_of_ne_zero hz
    obtain ⟨d, t, hd, -⟩ := digits_reverse_head hm
    have hlt : ∀ e ∈ d :: t, e < 10 := fun e he =>
      Nat.digits_lt_base (by decide) (List.mem_reverse.mp (hd ▸ he))
    rw [htext, hd]
    by_cases hneg : n < 0
    · rw [if_pos (decide_eq_true hneg)]
      exact ⟨0x2d, digitChars (d :: t), rfl, .inl rfl⟩
    · rw [if_neg (by rwa [decide_eq_true_eq])]
      have hdigit := isDigit_digitChars hlt _ List.mem_cons_self
      exact ⟨0x30 + UInt8.ofNat d, digitChars t, rfl, .inr hdigit⟩

set_option maxRecDepth 4000 in
theorem opens_of_numberHead {c : UInt8} (h : c = 0x2d ∨ isDigit c = true) :
    Opens c ∧ c ≠ 0x6e ∧ c ≠ 0x66 ∧ c ≠ 0x74 ∧ c ≠ quote := by
  have hall : ∀ n, n < 256 → UInt8.ofNat n = 0x2d ∨ isDigit (UInt8.ofNat n) = true →
      Opens (UInt8.ofNat n) ∧ UInt8.ofNat n ≠ 0x6e ∧ UInt8.ofNat n ≠ 0x66 ∧
        UInt8.ofNat n ≠ 0x74 ∧ UInt8.ofNat n ≠ quote := by
    decide
  have hc := hall c.toNat c.toNat_lt
  rw [UInt8.ofNat_toNat] at hc
  exact hc h

theorem readsAs_number (n : Int32) (string : Option CString) :
    ReadsAs arith (renderNumber n (.ofInt n)).bytes
      ⟨.null, cJSON_Number, none, n, .ofInt n, string⟩ := by
  have hbytes : (renderNumber n (.ofInt n)).bytes = decimal n := numberText_ofInt n
  rw [hbytes]
  obtain ⟨c, t, hc, hhead⟩ := decimal_head n
  obtain ⟨hopens, hn, hf, ht, hq⟩ := opens_of_numberHead hhead
  refine ⟨⟨c, t, hc, hopens⟩, fun fuel rest type name hends hfuel => ?_⟩
  obtain ⟨fuel, rfl⟩ := Nat.exists_eq_add_one_of_ne_zero (Nat.ne_of_gt (Nat.zero_lt_of_lt hfuel))
  have hread : parseNumber arith ⟨.null, type, none, 0, .ofInt 0, name⟩ _ = _ :=
    parseNumber_decimal n hends ⟨.null, type, none, 0, .ofInt 0, name⟩
  rw [hc, List.cons_append] at hread ⊢
  rw [parseValue_cons hn hf ht, if_neg hq, if_pos hhead, hread]

theorem readsAs_string (str : CString) (string : Option CString) :
    ReadsAs arith (renderString str).bytes ⟨.null, cJSON_String, some str, 0, .ofInt 0, string⟩ := by
  have htext : stringText str = quote :: (Pen.joined (fun _ => escape) str.bytes ++ [quote]) := rfl
  refine ⟨⟨quote, _, htext, by decide⟩, fun fuel rest type name _ hfuel => ?_⟩
  obtain ⟨fuel, rfl⟩ := Nat.exists_eq_add_one_of_ne_zero (Nat.ne_of_gt (Nat.zero_lt_of_lt hfuel))
  have hread := parseString_text (Nat.le_of_lt_succ hfuel) ⟨.null, type, none, 0, .ofInt 0, name⟩
  have hbytes : (renderString str).bytes = stringText str := rfl
  rw [hbytes]
  rw [htext, List.cons_append] at hread ⊢
  rw [parseValue_cons (by decide) (by decide) (by decide), if_pos rfl, hread]

theorem layout_elements (fmt : Bool) :
    Layout (elementText fmt) CString.bytes [] (if fmt then [0x20] else []) [] where
  more v := rfl
  one v := rfl
  pre := blank_nil
  post := by
    cases fmt with
    | false => exact blank_nil
    | true => exact blank_singleton (by decide)
  last := blank_nil

/-- A name, the colon and a value. -/
def memberBody (fmt : Bool) (m : CString × CString) : List UInt8 :=
  m.1.bytes ++ ([0x3a] ++ (if fmt then [0x09] else []) ++ m.2.bytes)

theorem layout_members (fmt : Bool) (depth : Nat) :
    Layout (memberText fmt depth) (memberBody fmt) (if fmt then tabs depth else [])
      (if fmt then [0x0a] else []) (if fmt then [0x0a] else []) := by
  have hline : Blank (if fmt then [0x0a] else []) := by
    cases fmt with
    | false => exact blank_nil
    | true => exact blank_singleton (by decide)
  refine ⟨fun m => ?_, fun m => ?_, ?_, hline, hline⟩
  · simp only [memberText, memberBody, if_true, List.append_assoc, List.singleton_append]
  · simp only [memberText, memberBody, Bool.false_eq_true, if_false, List.append_assoc,
      List.nil_append]
  · cases fmt with
    | false => exact blank_nil
    | true => exact blank_tabs depth

/-- **A member is read back from its name and its value.** -/
theorem readBy_member {fmt : Bool} {name value : CString} {item : Item}
    (hread : ReadsAs arith value.bytes item) (fuel : Nat) :
    ReadBy (parseMember (parseValue arith fuel) fuel) fuel
      (memberBody fmt (renderString name, value)) { item with string := some name } := by
  have htext : stringText name = quote :: (Pen.joined (fun _ => escape) name.bytes ++ [quote]) := rfl
  refine ⟨⟨quote, (Pen.joined (fun _ => escape) name.bytes ++ [quote]) ++
    ([0x3a] ++ (if fmt then [0x09] else []) ++ value.bytes), rfl, by decide⟩,
    fun rest hends hlen => ?_⟩
  have hbody : memberBody fmt (renderString name, value) ++ rest =
      stringText name ++ (0x3a :: ((if fmt then [0x09] else []) ++ (value.bytes ++ rest))) := by
    simp only [memberBody, renderString, List.append_assoc, List.cons_append, List.nil_append]
  rw [hbody] at hlen ⊢
  have hname := parseString_text (Nat.le_of_lt hlen) Item.new
  have hcolon : skip (0x3a :: ((if fmt then [0x09] else []) ++ (value.bytes ++ rest))) =
      .ok () _ := skip_cons (by decide) _
  have htab : Blank (if fmt then [0x09] else []) := by
    cases fmt with
    | false => exact blank_nil
    | true => exact blank_singleton (by decide)
  have hskip : skip ((if fmt then [0x09] else []) ++ (value.bytes ++ rest)) =
      .ok () (value.bytes ++ rest) := by
    obtain ⟨c, t, hc, hopens⟩ := hread.head
    rw [skip_blank htab, hc]
    exact skip_cons hopens.1 _
  have hvalue := hread.read fuel rest cJSON_String (some name) hends (by
    rw [List.length_append, List.length_cons, List.length_append] at hlen
    omega)
  rw [parseMember, hname, Parsed.ok_bind, hcolon, Parsed.ok_bind]
  simp only [ne_eq, not_true_eq_false, if_false, hskip, Parsed.ok_bind]
  exact hvalue

/-- What is known of the items of a chain, one by one. -/
def ChainReads (arith : Numeral → Double × Int32) (named : Bool) (ms : List (CString × CString))
    (items : List Item) : Prop :=
  List.Forall₂ (fun m item => ReadsAs arith m.2.bytes item ∧
    if named then ∃ name, m.1 = renderString name ∧ item.string = some name
    else item.string = none) ms items

theorem ChainReads.elements {ms : List (CString × CString)} {items : List Item}
    (h : ChainReads arith false ms items) (fuel : Nat) :
    List.Forall₂ (fun v item => ReadBy (parseValue arith fuel Item.new) fuel (CString.bytes v) item)
      (ms.map Prod.snd) items := by
  rw [List.forall₂_map_left_iff]
  refine h.imp fun m item hm => ⟨hm.1.head, fun rest hends hlen => ?_⟩
  have hread := hm.1.read fuel rest 0 none hends hlen
  have hstring : item.string = none := hm.2
  have hitem : { item with string := none } = item := by
    rw [← hstring]
  rw [hitem] at hread
  exact hread

theorem ChainReads.members {fmt : Bool} {ms : List (CString × CString)} {items : List Item}
    (h : ChainReads arith true ms items) (fuel : Nat) :
    List.Forall₂ (fun m item =>
      ReadBy (parseMember (parseValue arith fuel) fuel) fuel (memberBody fmt m) item) ms items := by
  refine h.imp fun m item hm => ?_
  obtain ⟨name, hname, hstring⟩ := hm.2
  have hread : ReadBy _ fuel (memberBody fmt (renderString name, m.2)) _ := readBy_member hm.1 fuel
  have hitem : { item with string := some name } = item := by
    rw [← hstring]
  rw [hitem, ← hname] at hread
  exact hread

theorem readsAs_array {fmt : Bool} {ms : List (CString × CString)} {items : List Item}
    (h : ChainReads arith false ms items) (string : Option CString) :
    ReadsAs arith (renderArray fmt (ms.map Prod.snd)).bytes
      ⟨chain items, cJSON_Array, none, 0, .ofInt 0, string⟩ := by
  refine ⟨⟨0x5b, _, rfl, by decide⟩, fun fuel rest type name _ hfuel => ?_⟩
  obtain ⟨fuel, rfl⟩ := Nat.exists_eq_add_one_of_ne_zero (Nat.ne_of_gt (Nat.zero_lt_of_lt hfuel))
  have htext : (renderArray fmt (ms.map Prod.snd)).bytes ++ rest =
      0x5b :: ([] ++ (Pen.joined (elementText fmt) (ms.map Prod.snd) ++ ([] ++ 0x5d :: rest))) := by
    simp only [renderArray, arrayText, List.append_assoc, List.cons_append, List.nil_append]
  have hend : ∀ rest, Ends ([] ++ ([] ++ 0x5d :: rest)) := fun _ =>
    ⟨by decide, by decide, by decide, by decide⟩
  rw [htext] at hfuel ⊢
  rw [parseValue_cons (by decide) (by decide) (by decide), if_neg (by decide), if_neg (by decide),
    if_pos rfl, parseArray]
  by_cases hnil : ms = []
  · subst hnil
    cases h
    exact parseBracket_empty (by decide) blank_nil cJSON_Array _
  · exact parseBracket_joined (layout_elements fmt) (.inl rfl) blank_nil hend (h.elements fuel)
      (fun hm => hnil (List.map_eq_nil_iff.mp hm)) blank_nil (Nat.lt_of_succ_lt_succ hfuel)
      cJSON_Array _

theorem readsAs_object {fmt : Bool} {depth : Nat} {ms : List (CString × CString)}
    {items : List Item} (h : ChainReads arith true ms items) (string : Option CString) :
    ReadsAs arith (renderObject fmt depth ms).bytes
      ⟨chain items, cJSON_Object, none, 0, .ofInt 0, string⟩ := by
  have hhead : ∃ t, (renderObject fmt depth ms).bytes = 0x7b :: t := by
    show ∃ t, objectText fmt depth ms = 0x7b :: t
    unfold objectText
    split
    · exact ⟨_, rfl⟩
    · exact ⟨_, rfl⟩
  obtain ⟨t, ht⟩ := hhead
  refine ⟨⟨0x7b, t, ht, by decide⟩, fun fuel rest type name _ hfuel => ?_⟩
  obtain ⟨fuel, rfl⟩ := Nat.exists_eq_add_one_of_ne_zero (Nat.ne_of_gt (Nat.zero_lt_of_lt hfuel))
  have hparse : parseValue arith (fuel + 1) ⟨.null, type, none, 0, .ofInt 0, name⟩
      ((renderObject fmt depth ms).bytes ++ rest) =
        parseBracket (parseMember (parseValue arith fuel) fuel) 0x7b 0x7d cJSON_Object fuel
          ⟨.null, type, none, 0, .ofInt 0, name⟩ ((renderObject fmt depth ms).bytes ++ rest) := by
    rw [ht, List.cons_append, parseValue_cons (by decide) (by decide) (by decide),
      if_neg (by decide), if_neg (by decide), if_neg (by decide), if_pos rfl, parseObject]
  have hline : Blank (if fmt then [0x0a] else []) := (layout_members fmt depth).post
  have htabs : Blank (if fmt then tabs depth else []) := (layout_members fmt depth).pre
  rw [hparse]
  by_cases hnil : ms = []
  · subst hnil
    cases h
    have htext : (renderObject fmt depth []).bytes ++ rest =
        0x7b :: ((if fmt then [0x0a] ++ tabs (depth - 1) else []) ++ 0x7d :: rest) := by
      simp only [renderObject, objectText, List.isEmpty_nil, if_true, List.append_assoc,
        List.cons_append, List.nil_append]
    have hwhite : Blank (if fmt then [0x0a] ++ tabs (depth - 1) else []) := by
      cases fmt with
      | false => exact blank_nil
      | true => exact (blank_singleton (by decide)).append (blank_tabs (depth - 1))
    rw [htext]
    exact parseBracket_empty (by decide) hwhite cJSON_Object _
  · have hne : ms.isEmpty = false := List.isEmpty_eq_false_iff.mpr hnil
    have htext : (renderObject fmt depth ms).bytes ++ rest =
        0x7b :: ((if fmt then [0x0a] else []) ++ (Pen.joined (memberText fmt (depth + 1)) ms ++
          ((if fmt then tabs depth else []) ++ 0x7d :: rest))) := by
      simp only [renderObject, objectText, hne, Bool.false_eq_true, if_false, List.append_assoc,
        List.cons_append, List.nil_append]
    have hend : ∀ rest, Ends ((if fmt then [0x0a] else []) ++
        ((if fmt then tabs depth else []) ++ 0x7d :: rest)) := by
      intro rest
      cases fmt with
      | false => exact ⟨by decide, by decide, by decide, by decide⟩
      | true => exact ⟨by decide, by decide, by decide, by decide⟩
    rw [htext] at hfuel ⊢
    exact parseBracket_joined (layout_members fmt (depth + 1)) (.inr rfl) htabs hend
      (h.members fuel) hnil hline (Nat.lt_of_succ_lt_succ hfuel) cJSON_Object _

theorem readsAs_word {word : List UInt8} (hword : ∃ c t, word = c :: t ∧ Opens c) {item : Item}
    (hstring : ∀ fuel type name rest,
      parseValue arith (fuel + 1) ⟨.null, type, none, 0, .ofInt 0, name⟩ (word ++ rest) =
        .ok { item with string := name } rest) : ReadsAs arith word item := by
  refine ⟨hword, fun fuel rest type name _ hfuel => ?_⟩
  obtain ⟨fuel, rfl⟩ := Nat.exists_eq_add_one_of_ne_zero (Nat.ne_of_gt (Nat.zero_lt_of_lt hfuel))
  exact hstring fuel type name rest

theorem readsAs_null (string : Option CString) :
    ReadsAs arith nullText ⟨.null, cJSON_NULL, none, 0, .ofInt 0, string⟩ := by
  refine readsAs_word ⟨0x6e, _, rfl, by decide⟩ fun fuel type name rest => ?_
  show ifText nullText (nullText ++ rest) _ _ = _
  rw [ifText_self nullText rest (by decide)]

theorem readsAs_false (string : Option CString) :
    ReadsAs arith falseText ⟨.null, cJSON_False, none, 0, .ofInt 0, string⟩ := by
  refine readsAs_word ⟨0x66, _, rfl, by decide⟩ fun fuel type name rest => ?_
  show ifText nullText (falseText ++ rest) _ (ifText falseText (falseText ++ rest) _ _) = _
  rw [ifText_self falseText rest (by decide)]
  exact ifText_ne (by decide) (by decide) _ _ _ _

theorem readsAs_true (string : Option CString) :
    ReadsAs arith trueText ⟨.null, cJSON_True, none, 1, .ofInt 0, string⟩ := by
  refine readsAs_word ⟨0x74, _, rfl, by decide⟩ fun fuel type name rest => ?_
  show ifText nullText (trueText ++ rest) _
    (ifText falseText (trueText ++ rest) _ (ifText trueText (trueText ++ rest) _ _)) = _
  rw [ifText_self trueText rest (by decide)]
  refine (ifText_ne (by decide) (by decide) _ _ _ _).trans ?_
  exact ifText_ne (by decide) (by decide) _ _ _ _

/-- **The text of an item is read back when the texts of the items in it are.** -/
theorem readsAs_renderItem {fmt : Bool} {depth type : Nat} {valuestring : Option CString}
    {valueint : Int32} {valuedouble : Double} {ms : List (CString × CString)}
    {elements members : List Item} (hkind : type % 256 ≤ cJSON_Object)
    (hnumber : type % 256 = cJSON_Number → valuedouble = .ofInt valueint)
    (hstring : type % 256 = cJSON_String → valuestring ≠ none)
    (harray : type % 256 = cJSON_Array → ChainReads arith false ms elements)
    (hobject : type % 256 = cJSON_Object → ChainReads arith true ms members)
    (string : Option CString) :
    ReadsAs arith (renderItem fmt depth type valuestring valueint valuedouble ms).bytes
      (readItem type valuestring valueint valuedouble elements members string) := by
  rcases kind_cases hkind with h | h | h | h | h | h | h
  · simp only [renderItem, readItem, h]
    exact readsAs_false string
  · simp only [renderItem, readItem, h]
    exact readsAs_true string
  · simp only [renderItem, readItem, h]
    exact readsAs_null string
  · simp only [renderItem, readItem, h, hnumber h]
    exact readsAs_number valueint string
  · obtain ⟨str, rfl⟩ := Option.ne_none_iff_exists'.mp (hstring h)
    simp only [renderItem, readItem, h]
    exact readsAs_string str string
  · simp only [renderItem, readItem, h]
    exact readsAs_array (harray h) string
  · simp only [renderItem, readItem, h]
    exact readsAs_object (hobject h) string

theorem chainReads_render {fmt named : Bool} : ∀ {t : CJson} {depth : Nat}, Printable named t →
    Integers t → ChainReads arith named (renderItems fmt t depth) (readItems named t) := by
  intro t
  induction t generalizing named with
  | null =>
    intro depth _ _
    exact .nil
  | item next child type valuestring valueint valuedouble string ihNext ihChild =>
    intro depth h hints
    obtain ⟨hname, hkind, hstring, harray, hobject, hnext⟩ := h
    obtain ⟨hnumber, hints₁, hints₂, hints₃⟩ := hints
    refine .cons ⟨?_, ?_⟩ (ihNext hnext hints₃)
    · exact readsAs_renderItem hkind hnumber hstring (fun h => ihChild (harray h) (hints₁ h))
        (fun h => ihChild (hobject h) (hints₂ h)) _
    · cases named with
      | false => rfl
      | true =>
        obtain ⟨str, rfl⟩ := Option.ne_none_iff_exists'.mp (hname rfl)
        exact ⟨str, rfl, rfl⟩

/-! ### The text of the tree that comes back -/

/-- The same text, as far as it is used: of the items in an array the names are not. -/
def SameText (named : Bool) (ms ms' : List (CString × CString)) : Prop :=
  if named then ms = ms' else ms.map Prod.snd = ms'.map Prod.snd

theorem SameText.cons {named : Bool} {m m' : CString × CString} {ms ms' : List (CString × CString)}
    (hname : named = true → m.1 = m'.1) (hvalue : m.2 = m'.2) (h : SameText named ms ms') :
    SameText named (m :: ms) (m' :: ms') := by
  cases named with
  | false =>
    have hrest : ms.map Prod.snd = ms'.map Prod.snd := h
    show (m :: ms).map Prod.snd = (m' :: ms').map Prod.snd
    rw [List.map_cons, List.map_cons, hvalue, hrest]
  | true =>
    have hrest : ms = ms' := h
    show m :: ms = m' :: ms'
    rw [hrest, Prod.ext (hname rfl) hvalue]

theorem readsAs_render {fmt : Bool} {child : CJson} {type : Nat} {valuestring : Option CString}
    {valueint : Int32} {valuedouble : Double} {string : Option CString}
    (h : Printable false (.item .null child type valuestring valueint valuedouble string))
    (hints : Integers (.item .null child type valuestring valueint valuedouble string))
    (next : CJson) :
    ReadsAs arith
      (render fmt (.item next child type valuestring valueint valuedouble string) 0).bytes
      (readItem type valuestring valueint valuedouble (readItems false child)
        (readItems true child) none) := by
  obtain ⟨-, hkind, hstring, harray, hobject, -⟩ := h
  obtain ⟨hnumber, hints₁, hints₂, -⟩ := hints
  exact readsAs_renderItem hkind hnumber hstring
    (fun h => chainReads_render (harray h) (hints₁ h))
    (fun h => chainReads_render (hobject h) (hints₂ h)) none

theorem parse_print {fmt : Bool} {t : CJson} {s : CString}
    (h : printValue fmt t 0 = .ok (some s)) (hints : Integers (alone t)) {fuel : Nat}
    (hfuel : s.obj.length < fuel) (require : Bool) :
    cJSON_ParseWithOpts arith fuel s.obj require = .ok (readBack t) [0] := by
  obtain ⟨hne, hp, hs⟩ := printValue_iff.mp h
  cases t with
  | null => exact absurd rfl hne
  | item next child type valuestring valueint valuedouble string =>
    have hread := @readsAs_render arith fmt _ _ _ _ _ _ hp hints next
    rw [← hs] at hread
    have hend : Ends [0] := ⟨by decide, by decide, by decide, by decide⟩
    have hvalue := hread.read fuel [0] 0 none hend hfuel
    obtain ⟨c, text, htext, hopens⟩ := hread.head
    have hskip : skip s.obj = .ok () s.obj := by
      rw [CString.obj, htext]
      exact skip_cons hopens.1 _
    rw [cJSON_ParseWithOpts, hskip, Parsed.ok_bind]
    refine (congrArg (Parsed.bind · _) hvalue).trans ?_
    cases require with
    | false => rfl
    | true => rfl

end Nl6621.Json
