import Nl6621.Json.RoundTrip

/-!
# The parser on any text

`json_parse` is about texts that nobody has printed.  The parser ends on each of them, with fuel for
its length.  What it accepts is well formed: the items have one of the seven types, with just those
fields that go with it, and a name if and only if they are in an object.  It comes back from its own
text if its numbers are integers that an `int` can hold; of another number the text can have lost
digits.

`parse_string` takes the four characters behind `\u` as they are, and the second character of any
other escape, so that it can run over the closing quote, which the first pass has not counted, and
over the terminator.  `whole` says that no escape is cut short, and then no read and no write is
outside.

`Ending W post r` is what is known of the result of a parse function.  One induction on the fuel goes
over all of them, and `W` keeps what holds of whole texts only apart from what holds of all.
-/

namespace Nl6621.Json

open Lib Edp

/-! ### Texts in which no escape is cut short -/

/-- The first four bytes are hexadecimal digits. -/
def startsHex4 : List UInt8 → Bool
  | a :: b :: c :: d :: _ =>
    (hexValue a).isSome && (hexValue b).isSome && (hexValue c).isSome && (hexValue d).isSome
  | _ => false

/-- Up to the terminator, every backslash is followed by a character, and by four hexadecimal digits
when this is a `u`. -/
def whole : List UInt8 → Bool
  | [] => false
  | c :: text =>
    if c = 0 then true
    else if c = backslash then
      match text with
      | [] => false
      | e :: text =>
        if e = 0 then false
        else if e = 0x75 then startsHex4 text && whole text
        else whole text
    else whole text

theorem whole_cons {c : UInt8} {text : List UInt8} (hc : c ≠ backslash)
    (h : whole (c :: text) = true) : c = 0 ∨ whole text = true := by
  rw [whole.eq_def] at h
  by_cases h0 : c = 0
  · exact .inl h0
  · simp only [if_neg h0, if_neg hc] at h
    exact .inr h

theorem whole_backslash {text : List UInt8} (h : whole (backslash :: text) = true) :
    ∃ e t, text = e :: t ∧ e ≠ 0 ∧ whole t = true ∧ (e = 0x75 → startsHex4 t = true) := by
  rw [whole.eq_def] at h
  cases text with
  | nil =>
    simp only [if_neg (show ¬backslash = 0 by decide), if_true] at h
    cases h
  | cons e t =>
    simp only [if_neg (show ¬backslash = 0 by decide), if_true] at h
    by_cases h0 : e = 0
    · rw [if_pos h0] at h
      cases h
    · rw [if_neg h0] at h
      by_cases hu : e = 0x75
      · rw [if_pos hu, Bool.and_eq_true] at h
        exact ⟨e, t, rfl, h0, h.2, fun _ => h.1⟩
      · rw [if_neg hu] at h
        exact ⟨e, t, rfl, h0, h, fun he => absurd he hu⟩

theorem whole_ne_nil {text : List UInt8} (h : whole text = true) : text ≠ [] := by
  rintro rfl
  cases h

theorem plain_of_hexValue {c : UInt8} (h : (hexValue c).isSome = true) : Plain c := by
  refine ⟨?_, ?_⟩
  · rintro (rfl | rfl)
    · cases h
    · cases h
  · rintro rfl
    cases h

theorem whole_of_ne {c : UInt8} (hc : c ≠ 0 ∧ c ≠ backslash) {text : List UInt8}
    (h : whole (c :: text) = true) : whole text = true :=
  (whole_cons hc.2 h).resolve_left hc.1

theorem whole_of_plain {c : UInt8} (hc : Plain c) {text : List UInt8}
    (h : whole (c :: text) = true) : whole text = true :=
  whole_of_ne ⟨fun h0 => hc.1 (.inr h0), hc.2⟩ h

/-- The four digits are read, and are passed over. -/
theorem startsHex4_reads {text : List UInt8} (hhex : startsHex4 text = true)
    (hw : whole text = true) :
    ∃ a b c d rest, text = a :: b :: c :: d :: rest ∧ whole rest = true ∧
      (Plain a ∧ Plain b ∧ Plain c ∧ Plain d) ∧ ∃ uc, parseHex4 text = .ok uc := by
  obtain ⟨a, b, c, d, rest, rfl⟩ : ∃ a b c d rest, text = a :: b :: c :: d :: rest := by
    unfold startsHex4 at hhex
    split at hhex
    · exact ⟨_, _, _, _, _, rfl⟩
    · cases hhex
  simp only [startsHex4, Bool.and_eq_true] at hhex
  obtain ⟨⟨⟨ha, hb⟩, hc⟩, hd⟩ := hhex
  refine ⟨a, b, c, d, rest, rfl, ?_, ⟨plain_of_hexValue ha, plain_of_hexValue hb,
    plain_of_hexValue hc, plain_of_hexValue hd⟩, ?_⟩
  · exact whole_of_plain (plain_of_hexValue hd) (whole_of_plain (plain_of_hexValue hc)
      (whole_of_plain (plain_of_hexValue hb) (whole_of_plain (plain_of_hexValue ha) hw)))
  · obtain ⟨va, hva⟩ := Option.isSome_iff_exists.mp ha
    obtain ⟨vb, hvb⟩ := Option.isSome_iff_exists.mp hb
    obtain ⟨vc, hvc⟩ := Option.isSome_iff_exists.mp hc
    obtain ⟨vd, hvd⟩ := Option.isSome_iff_exists.mp hd
    simp only [parseHex4, hexDigits, hva, hvb, hvc, hvd]
    exact ⟨_, rfl⟩

/-! ### Strings -/

/-- The string is counted, whatever it is, when no escape in it is cut short. -/
theorem stringLen_of_whole : ∀ (k : Nat) {text : List UInt8}, text.length ≤ k → whole text = true →
    ∃ n, stringLen text = .ok n := by
  intro k
  induction k with
  | zero =>
    intro text hk hw
    exact absurd (List.length_eq_zero_iff.mp (Nat.le_zero.mp hk)) (whole_ne_nil hw)
  | succ k ih =>
    intro text hk hw
    obtain ⟨c, t, rfl⟩ := List.exists_cons_of_ne_nil (whole_ne_nil hw)
    rw [List.length_cons] at hk
    by_cases hend : c = quote ∨ c = 0
    · refine ⟨0, ?_⟩
      rw [stringLen.eq_def]
      simp only [if_pos hend]
    · by_cases hb : c = backslash
      · subst hb
        obtain ⟨e, t, rfl, -, hw', -⟩ := whole_backslash hw
        rw [List.length_cons] at hk
        obtain ⟨n, hn⟩ := ih (by omega) hw'
        exact ⟨n + 1, stringLen_escaped e hn⟩
      · obtain ⟨n, hn⟩ := ih (by omega) (whole_of_plain ⟨hend, hb⟩ hw)
        exact ⟨n + 1, stringLen_plain ⟨hend, hb⟩ hn⟩

theorem length_utf8_le (uc : UInt32) : (utf8 uc).length ≤ 4 := by
  unfold utf8
  split_ifs
  · exact (by decide : 1 ≤ 4)
  · exact (by decide : 2 ≤ 4)
  · exact (by decide : 3 ≤ 4)
  · exact Nat.le_refl 4

/-- What an escape leaves: a whole text, and no more bytes than have been counted for it. -/
structure Unescaped (text bs rest : List UInt8) (n : Nat) : Prop where
  whole : whole rest = true
  shorter : rest.length ≤ text.length
  counted : ∃ m, stringLen rest = .ok m ∧ bs.length + m ≤ n

theorem unescaped_none {text rest : List UInt8} {n m : Nat} (hw : whole rest = true)
    (hlen : rest.length ≤ text.length) (hm : stringLen rest = .ok m) (hle : m ≤ n) :
    Unescaped text [] rest n :=
  ⟨hw, hlen, m, hm, by rw [List.length_nil]; omega⟩

/-- The second half of a pair is read inside the text. -/
theorem unescapePair_ok (uc : UInt32) {text : List UInt8} (hw : whole text = true) {n : Nat}
    (hn : stringLen text = .ok n) :
    ∃ bs rest, unescapePair uc text = .ok (bs, rest) ∧ Unescaped text bs rest (n + 4) := by
  obtain ⟨c, t, rfl⟩ := List.exists_cons_of_ne_nil (whole_ne_nil hw)
  by_cases hc : c = backslash
  · subst hc
    obtain ⟨e, t, rfl, -, hw', hu⟩ := whole_backslash hw
    by_cases he : e = 0x75
    · subst he
      obtain ⟨a, b, c, d, rest, rfl, hrest, ⟨ha, hb, hc, hd⟩, uc2, huc2⟩ :=
        startsHex4_reads (hu rfl) hw'
      obtain ⟨m, hm⟩ := stringLen_of_whole rest.length (Nat.le_refl _) hrest
      have hcount := stringLen_escaped 0x75 (stringLen_plain ha (stringLen_plain hb
        (stringLen_plain hc (stringLen_plain hd hm))))
      have hnm : n = m + 5 := Outcome.ok.inj (hn.symm.trans hcount)
      have hadv : advance 6 (backslash :: 0x75 :: a :: b :: c :: d :: rest) = .ok rest := by
        rw [advance, if_pos (by simp only [List.length_cons]; omega)]
        rfl
      have hlen : rest.length ≤ (backslash :: 0x75 :: a :: b :: c :: d :: rest).length := by
        simp only [List.length_cons]
        omega
      have hpair : unescapePair uc (backslash :: 0x75 :: a :: b :: c :: d :: rest) =
          if uc2 < 0xdc00 ∨ 0xdfff < uc2 then .ok ([], rest)
          else .ok (utf8 ((0x10000 : UInt32) + (((uc &&& 0x3ff) <<< 10) ||| (uc2 &&& 0x3ff))),
            rest) := by
        show (parseHex4 (a :: b :: c :: d :: rest)).bind _ = _
        rw [huc2, Outcome.bind, hadv, Outcome.bind]
      rw [hpair]
      split_ifs
      · exact ⟨[], rest, rfl, unescaped_none hrest hlen hm (by omega)⟩
      · refine ⟨_, rest, rfl, hrest, hlen, m, hm, ?_⟩
        have h4 := length_utf8_le
          ((0x10000 : UInt32) + (((uc &&& 0x3ff) <<< 10) ||| (uc2 &&& 0x3ff)))
        omega
    · refine ⟨[], _, ?_, unescaped_none hw (Nat.le_refl _) hn (by omega)⟩
      show (if e ≠ 0x75 then _ else _) = _
      rw [if_pos he]
  · refine ⟨[], _, ?_, unescaped_none hw (Nat.le_refl _) hn (by omega)⟩
    show (if c ≠ backslash then _ else _) = _
    rw [if_pos hc]

theorem unescapeU_ok {text : List UInt8} (hhex : startsHex4 text = true) (hw : whole text = true)
    {n : Nat} (hn : stringLen text = .ok n) :
    ∃ bs rest, unescapeU text = .ok (bs, rest) ∧ Unescaped text bs rest n := by
  obtain ⟨a, b, c, d, rest, rfl, hrest, ⟨ha, hb, hc, hd⟩, uc, huc⟩ := startsHex4_reads hhex hw
  obtain ⟨m, hm⟩ := stringLen_of_whole rest.length (Nat.le_refl _) hrest
  have hcount := stringLen_plain ha (stringLen_plain hb (stringLen_plain hc (stringLen_plain hd hm)))
  have hnm : n = m + 4 := Outcome.ok.inj (hn.symm.trans hcount)
  have hadv : advance 4 (a :: b :: c :: d :: rest) = .ok rest := by
    rw [advance, if_pos (by simp only [List.length_cons]; omega)]
    rfl
  have hlen : rest.length ≤ (a :: b :: c :: d :: rest).length := by
    simp only [List.length_cons]
    omega
  rw [unescapeU, huc, Outcome.bind, hadv, Outcome.bind]
  split_ifs
  · exact ⟨[], rest, rfl, unescaped_none hrest hlen hm (by omega)⟩
  · obtain ⟨bs, rest', hpair, hun⟩ := unescapePair_ok uc hrest hm
    rw [← hnm] at hun
    exact ⟨bs, rest', hpair, hun.whole, hun.shorter.trans hlen, hun.counted⟩
  · have h4 := length_utf8_le uc
    exact ⟨_, rest, rfl, hrest, hlen, m, hm, by omega⟩

theorem put_of_lt {out : Pen} {bs : List UInt8} {m n : Nat} (h : bs.length + m ≤ n)
    (hroom : n < out.room) : out.put bs = .ok (out.wrote bs) ∧ m < (out.wrote bs).room := by
  refine ⟨Pen.put_ok (by omega), ?_⟩
  rw [Pen.room_wrote]
  omega

/-- The second pass has a whole text in front of it, and room for all that has been counted. -/
def Counted (s : List UInt8 × Pen) : Prop :=
  whole s.1 = true ∧ ∃ n, stringLen s.1 = .ok n ∧ n < s.2.room

theorem unescapeRound_counted {s : List UInt8 × Pen} (h : Counted s) :
    (∃ b, unescapeRound s = .ok (.inr b) ∧ b = s) ∨
      ∃ s', unescapeRound s = .ok (.inl s') ∧ Counted s' ∧ s'.1.length < s.1.length := by
  obtain ⟨ptr, out⟩ := s
  obtain ⟨hw, n, hn, hroom⟩ := h
  simp only at hw hn hroom
  obtain ⟨c, ptr, rfl⟩ := List.exists_cons_of_ne_nil (whole_ne_nil hw)
  by_cases hend : c = quote ∨ c = 0
  · exact .inl ⟨_, by simp only [unescapeRound, if_pos hend], rfl⟩
  · refine .inr ?_
    by_cases hb : c = backslash
    · subst hb
      obtain ⟨e, t, rfl, -, hw', hu⟩ := whole_backslash hw
      obtain ⟨m, hm⟩ := stringLen_of_whole t.length (Nat.le_refl _) hw'
      have hnm : n = m + 1 := Outcome.ok.inj (hn.symm.trans (stringLen_escaped e hm))
      by_cases he : e = 0x75
      · subst he
        obtain ⟨bs, rest, hU, hun⟩ := unescapeU_ok (hu rfl) hw' hm
        obtain ⟨k, hk, hle⟩ := hun.counted
        obtain ⟨hput, hroom'⟩ := put_of_lt hle (show m < out.room by omega)
        refine ⟨(rest, out.wrote bs), ?_, ⟨hun.whole, k, hk, hroom'⟩, ?_⟩
        · simp only [unescapeRound, if_neg hend, ne_eq, not_true_eq_false, if_false, if_true, hU,
            hput, Outcome.bind, Fueled.of_ok]
        · have hlen := hun.shorter
          simp only [List.length_cons]
          omega
      · have hle : [unescapeChar e].length + m ≤ n := by
          rw [List.length_singleton]
          omega
        obtain ⟨hput, hroom'⟩ := put_of_lt hle hroom
        refine ⟨(t, out.wrote [unescapeChar e]), ?_, ⟨hw', m, hm, hroom'⟩, ?_⟩
        · simp only [unescapeRound, if_neg hend, ne_eq, not_true_eq_false, if_false, if_neg he,
            hput, Outcome.bind, Fueled.of_ok]
        · simp only [List.length_cons]
          omega
    · have hw' := whole_of_plain ⟨hend, hb⟩ hw
      obtain ⟨m, hm⟩ := stringLen_of_whole ptr.length (Nat.le_refl _) hw'
      have hnm : n = m + 1 := Outcome.ok.inj (hn.symm.trans (stringLen_plain ⟨hend, hb⟩ hm))
      have hle : [c].length + m ≤ n := by
        rw [List.length_singleton]
        omega
      obtain ⟨hput, hroom'⟩ := put_of_lt hle hroom
      refine ⟨(ptr, out.wrote [c]), ?_, ⟨hw', m, hm, hroom'⟩, ?_⟩
      · simp only [unescapeRound, if_neg hend, ne_eq, hb, not_false_eq_true, if_true, hput,
          Outcome.bind, Fueled.of_ok]
      · simp only [List.length_cons]
        omega

theorem length_of_advance {n : Nat} {ptr rest : List UInt8} (h : advance n ptr = .ok rest) :
    rest.length + n ≤ ptr.length := by
  unfold advance at h
  split at h
  · cases h
    rw [List.length_drop]
    omega
  · cases h

theorem length_of_unescapePair {uc : UInt32} {ptr bs rest : List UInt8}
    (h : unescapePair uc ptr = .ok (bs, rest)) : rest.length ≤ ptr.length := by
  obtain ⟨c, -, h⟩ := Outcome.bind_eq_ok_iff.mp h
  split at h
  · cases h
    exact Nat.le_refl _
  · obtain ⟨u, -, h⟩ := Outcome.bind_eq_ok_iff.mp h
    split at h
    · cases h
      exact Nat.le_refl _
    · obtain ⟨uc2, -, h⟩ := Outcome.bind_eq_ok_iff.mp h
      obtain ⟨rest', hadv, h⟩ := Outcome.bind_eq_ok_iff.mp h
      have hlen := length_of_advance hadv
      split at h
      · cases h
        omega
      · cases h
        omega

theorem length_of_unescapeU {ptr bs rest : List UInt8} (h : unescapeU ptr = .ok (bs, rest)) :
    rest.length ≤ ptr.length := by
  obtain ⟨uc, -, h⟩ := Outcome.bind_eq_ok_iff.mp h
  obtain ⟨rest', hadv, h⟩ := Outcome.bind_eq_ok_iff.mp h
  have hlen := length_of_advance hadv
  split at h
  · cases h
    omega
  · split at h
    · have hpair := length_of_unescapePair h
      omega
    · cases h
      omega

theorem of_eq_ok_iff {α : Type} {o : Outcome α} {a : α} : Fueled.of o = .ok a ↔ o = .ok a :=
  ⟨fun h => Option.some.inj h, fun h => by rw [h, Fueled.of_ok]⟩

/-- A round breaks where it is, or goes forward in the text, or reads or writes where it must not. -/
theorem unescapeRound_cases (s : List UInt8 × Pen) :
    unescapeRound s = .ok (.inr s) ∨ ∃ o : Outcome (List UInt8 × Pen),
      unescapeRound s = .of (o.bind fun s' => .ok (.inl s')) ∧
        ∀ s', o = .ok s' → s'.1.length < s.1.length := by
  obtain ⟨ptr, out⟩ := s
  cases ptr with
  | nil => exact .inr ⟨.fault, rfl, fun s' h => by cases h⟩
  | cons c ptr =>
    simp only [unescapeRound]
    by_cases hend : c = quote ∨ c = 0
    · exact .inl (if_pos hend)
    · rw [if_neg hend]
      refine .inr ?_
      by_cases hb : c ≠ backslash
      · rw [if_pos hb]
        refine ⟨(out.put [c]).bind fun out => .ok (ptr, out), ?_, fun s' h => ?_⟩
        · cases out.put [c] <;> rfl
        · obtain ⟨out', -, h⟩ := Outcome.bind_eq_ok_iff.mp h
          cases h
          exact Nat.lt_succ_self _
      · rw [if_neg hb]
        cases ptr with
        | nil => exact ⟨.fault, rfl, fun s' h => by cases h⟩
        | cons e ptr =>
          simp only
          by_cases hu : e = 0x75
          · rw [if_pos hu]
            refine ⟨(unescapeU ptr).bind fun u => (out.put u.1).bind fun out => .ok (u.2, out), ?_,
              fun s' h => ?_⟩
            · cases unescapeU ptr with
              | ok u =>
                simp only [Outcome.bind]
                cases out.put u.1 <;> rfl
              | assertFail => rfl
              | fault => rfl
            · obtain ⟨u, hu, h⟩ := Outcome.bind_eq_ok_iff.mp h
              obtain ⟨out', -, h⟩ := Outcome.bind_eq_ok_iff.mp h
              cases h
              have hlen := length_of_unescapeU hu
              simp only [List.length_cons]
              omega
          · rw [if_neg hu]
            refine ⟨(out.put [unescapeChar e]).bind fun out => .ok (ptr, out), ?_, fun s' h => ?_⟩
            · cases out.put [unescapeChar e] <;> rfl
            · obtain ⟨out', -, h⟩ := Outcome.bind_eq_ok_iff.mp h
              cases h
              simp only [List.length_cons]
              omega

theorem unescapeRound_fueled (s : List UInt8 × Pen) : unescapeRound s ≠ none := by
  rcases unescapeRound_cases s with h | ⟨o, h, -⟩
  · rw [h]
    exact Option.some_ne_none _
  · rw [h]
    exact Option.some_ne_none _

theorem length_of_unescapeRound {s s' : List UInt8 × Pen} (h : unescapeRound s = .ok (.inl s')) :
    s'.1.length < s.1.length := by
  rcases unescapeRound_cases s with hb | ⟨o, ho, hlen⟩
  · cases hb.symm.trans h
  · obtain ⟨s₁, hs₁, he⟩ := Outcome.bind_eq_ok_iff.mp (of_eq_ok_iff.mp (ho.symm.trans h))
    cases he
    exact hlen _ hs₁

theorem break_of_unescapeRound {s b : List UInt8 × Pen} (h : unescapeRound s = .ok (.inr b)) :
    b = s := by
  rcases unescapeRound_cases s with hb | ⟨o, ho, -⟩
  · cases hb.symm.trans h
    rfl
  · obtain ⟨s₁, -, he⟩ := Outcome.bind_eq_ok_iff.mp (of_eq_ok_iff.mp (ho.symm.trans h))
    cases he

/-! ### Numbers -/

/-- The function goes forward, and stays inside a whole text. -/
structure Takes {β : Type} (f : List UInt8 → Outcome (β × List UInt8)) : Prop where
  forward : ∀ num b rest, f num = .ok (b, rest) → rest.length ≤ num.length
  safe : ∀ num, whole num = true → ∃ b rest, f num = .ok (b, rest) ∧ whole rest = true

namespace Takes

variable {β γ : Type} {f : List UInt8 → Outcome (β × List UInt8)}

theorem pure (b : β) : Takes fun num => .ok (b, num) where
  forward num b' rest h := by
    cases h
    exact Nat.le_refl _
  safe num h := ⟨b, num, rfl, h⟩

theorem bind {g : β → List UInt8 → Outcome (γ × List UInt8)} (hf : Takes f)
    (hg : ∀ b, Takes (g b)) : Takes fun num => (f num).bind fun r => g r.1 r.2 where
  forward num c rest h := by
    obtain ⟨⟨b, mid⟩, hb, hc⟩ := Outcome.bind_eq_ok_iff.mp h
    exact ((hg b).forward mid c rest hc).trans (hf.forward num b mid hb)
  safe num h := by
    obtain ⟨b, mid, hb, hmid⟩ := hf.safe num h
    obtain ⟨c, rest, hc, hrest⟩ := (hg b).safe mid hmid
    refine ⟨c, rest, ?_, hrest⟩
    rw [hb]
    exact hc

/-- A function that looks at the first character, and passes over it when it is `p`. -/
theorem ofHead {a b : β} {p : UInt8 → Prop} [DecidablePred p]
    (hp : ∀ c, p c → c ≠ 0 ∧ c ≠ backslash) :
    Takes fun num =>
      match num with
      | [] => .fault
      | c :: num => .ok (if p c then (a, num) else (b, c :: num)) where
  forward num x rest h := by
    cases num with
    | nil => cases h
    | cons c num =>
      simp only at h
      split at h
      · cases h
        exact Nat.le_succ _
      · cases h
        exact Nat.le_refl _
  safe num h := by
    cases num with
    | nil => exact absurd rfl (whole_ne_nil h)
    | cons c num =>
      simp only
      by_cases hc : p c
      · exact ⟨a, num, by rw [if_pos hc], whole_of_ne (hp c hc) h⟩
      · exact ⟨b, c :: num, by rw [if_neg hc], h⟩

end Takes

theorem plain_of_isDigit {c : UInt8} (h : isDigit c = true) : Plain c := by
  refine ⟨?_, ?_⟩
  · rintro (rfl | rfl)
    · cases h
    · cases h
  · rintro rfl
    cases h

theorem takes_char {c : UInt8} (hc : c ≠ 0 ∧ c ≠ backslash) : Takes (takeChar c) := by
  have h := Takes.ofHead (a := true) (b := false) (p := fun d => d = c)
    fun d hd => by rw [hd]; exact hc
  have hf : takeChar c = _ := funext fun num => by
    cases num <;> rfl
  rw [hf]
  exact h

theorem takes_digits : Takes takeDigits where
  forward num := by
    induction num with
    | nil => intro b rest h; cases h
    | cons c num ih =>
      intro b rest h
      rw [takeDigits] at h
      split at h
      · obtain ⟨⟨ds, mid⟩, hr, he⟩ := Outcome.bind_eq_ok_iff.mp h
        cases he
        exact Nat.le_succ_of_le (ih ds mid hr)
      · cases h
        exact Nat.le_refl _
  safe num := by
    induction num with
    | nil => intro h; cases h
    | cons c num ih =>
      intro h
      rw [takeDigits]
      by_cases hc : isDigit c = true
      · obtain ⟨ds, rest, hr, hrest⟩ := ih (whole_of_plain (plain_of_isDigit hc) h)
        refine ⟨c :: ds, rest, ?_, hrest⟩
        rw [if_pos hc, hr]
        rfl
      · exact ⟨[], c :: num, by rw [if_neg hc], h⟩

theorem takes_integer : Takes takeInteger where
  forward num b rest h := by
    cases num with
    | nil => cases h
    | cons c num =>
      rw [takeInteger] at h
      split at h
      · exact takes_digits.forward _ b rest h
      · cases h
        exact Nat.le_refl _
  safe num h := by
    cases num with
    | nil => cases h
    | cons c num =>
      rw [takeInteger]
      split
      · exact takes_digits.safe _ h
      · exact ⟨[], c :: num, rfl, h⟩

theorem plain_point : Plain 0x2e := by decide

theorem takes_fraction : Takes takeFraction where
  forward num b rest h := by
    unfold takeFraction at h
    split at h
    · cases h
    · split at h
      · cases h
      · cases h
        exact Nat.le_refl _
    · split at h
      · exact Nat.le_succ_of_le (takes_digits.forward _ b rest h)
      · cases h
        exact Nat.le_refl _
  safe num h := by
    unfold takeFraction
    split
    · cases h
    · rename_i c
      have hc : c ≠ 0x2e := by
        rintro rfl
        exact whole_ne_nil (whole_of_plain plain_point h) rfl
      exact ⟨[], [c], by rw [if_neg hc], h⟩
    · rename_i c d num
      by_cases hc : c = 0x2e ∧ isDigit d = true
      · rw [if_pos hc]
        exact takes_digits.safe _ (whole_of_plain (hc.1 ▸ plain_point) h)
      · exact ⟨[], c :: d :: num, by rw [if_neg hc], h⟩

theorem takes_sign : Takes takeSign where
  forward num b rest h := by
    cases num with
    | nil => cases h
    | cons c num =>
      rw [takeSign] at h
      split_ifs at h
      · cases h
        exact Nat.le_succ _
      · cases h
        exact Nat.le_succ _
      · cases h
        exact Nat.le_refl _
  safe num h := by
    cases num with
    | nil => cases h
    | cons c num =>
      rw [takeSign]
      by_cases hplus : c = 0x2b
      · exact ⟨false, num, by rw [if_pos hplus], whole_of_plain (hplus ▸ by decide) h⟩
      · by_cases hminus : c = 0x2d
        · refine ⟨true, num, by rw [if_neg hplus, if_pos hminus], ?_⟩
          exact whole_of_plain (hminus ▸ by decide) h
        · exact ⟨false, c :: num, by rw [if_neg hplus, if_neg hminus], h⟩

theorem takes_signed : Takes fun num =>
    (takeSign num).bind fun s => (takeDigits s.2).bind fun e => .ok ((s.1, e.1), e.2) :=
  takes_sign.bind fun s => takes_digits.bind fun e => Takes.pure (s, e)

theorem takes_exponent : Takes takeExponent where
  forward num b rest h := by
    cases num with
    | nil => cases h
    | cons c num =>
      rw [takeExponent] at h
      split at h
      · exact Nat.le_succ_of_le (takes_signed.forward num b rest h)
      · cases h
        exact Nat.le_refl _
  safe num h := by
    cases num with
    | nil => cases h
    | cons c num =>
      rw [takeExponent]
      by_cases hc : c = 0x65 ∨ c = 0x45
      · have hplain : Plain c := by
          rcases hc with rfl | rfl
          · decide
          · decide
        rw [if_pos hc]
        exact takes_signed.safe num (whole_of_plain hplain h)
      · exact ⟨(false, []), c :: num, by rw [if_neg hc], h⟩

/-- The number behind its sign and a zero. -/
theorem takes_unsigned (neg : Bool) : Takes fun num =>
    (takeInteger num).bind fun int => (takeFraction int.2).bind fun frac =>
      (takeExponent frac.2).bind fun exp =>
        .ok ((⟨neg, int.1, frac.1, exp.1.1, exp.1.2⟩ : Numeral), exp.2) :=
  takes_integer.bind fun int => takes_fraction.bind fun frac =>
    takes_exponent.bind fun exp => Takes.pure (⟨neg, int, frac, exp.1, exp.2⟩ : Numeral)

theorem takes_number : Takes scanNumber :=
  (takes_char (by decide)).bind fun sign => (takes_char (by decide)).bind fun _ =>
    takes_unsigned sign

theorem length_of_scanNumber {c : UInt8} (hc : c = 0x2d ∨ isDigit c = true) {num rest : List UInt8}
    {n : Numeral} (h : scanNumber (c :: num) = .ok (n, rest)) : rest.length ≤ num.length := by
  by_cases hminus : c = 0x2d
  · subst hminus
    exact ((takes_char (by decide)).bind fun _ => takes_unsigned true).forward num n rest h
  · by_cases hzero : c = 0x30
    · subst hzero
      exact (takes_unsigned false).forward num n rest h
    · have hdigit := hc.resolve_left hminus
      have hpos : 0x31 ≤ c ∧ c ≤ 0x39 := by
        rw [isDigit, Bool.and_eq_true, decide_eq_true_eq, decide_eq_true_eq] at hdigit
        have hne : c.toNat ≠ 0x30 := fun he => hzero (UInt8.toNat_inj.mp he)
        have hlo := UInt8.le_iff_toNat_le.mp hdigit.1
        refine ⟨UInt8.le_iff_toNat_le.mpr ?_, hdigit.2⟩
        simp only [UInt8.reduceToNat] at hlo ⊢
        omega
      have hsign : takeChar 0x2d (c :: num) = .ok (false, c :: num) := by
        rw [takeChar, if_neg hminus]
      have hskip : takeChar 0x30 (c :: num) = .ok (false, c :: num) := by
        rw [takeChar, if_neg hzero]
      have hint : takeInteger (c :: num) = (takeDigits num).bind fun r => .ok (c :: r.1, r.2) := by
        rw [takeInteger, if_pos hpos, takeDigits, if_pos hdigit]
      rw [scanNumber, hsign, Outcome.bind, hskip, Outcome.bind, hint] at h
      obtain ⟨int, hi, h⟩ := Outcome.bind_eq_ok_iff.mp h
      obtain ⟨ds, hds, he⟩ := Outcome.bind_eq_ok_iff.mp hi
      cases he
      have hdigits := takes_digits.forward num ds.1 ds.2 hds
      have htail := (takes_fraction.bind fun frac => takes_exponent.bind fun exp =>
        Takes.pure (⟨false, c :: ds.1, frac, exp.1, exp.2⟩ : Numeral)).forward ds.2 n rest h
      omega

/-! ### How a parse function ends -/

/-- The parse function gives an answer, which is as `post` says when it is a place in the text, and
does not leave its objects when `W` holds. -/
structure Ending {α : Type} (W : Prop) (post : α → List UInt8 → Prop) (r : Parsed α) : Prop where
  fueled : r ≠ .spent
  post : ∀ a rest, r = .ok a rest → post a rest
  safe : W → r ≠ .fault

/-- Fewer than `n` bytes are left, and they are a whole text when `W` holds. -/
def Left (W : Prop) (n : Nat) (rest : List UInt8) : Prop :=
  rest.length < n ∧ (W → whole rest = true)

theorem Left.lt {W : Prop} {n m : Nat} {rest : List UInt8} (h : Left W n rest) (hle : n ≤ m) :
    Left W m rest := ⟨Nat.lt_of_lt_of_le h.1 hle, h.2⟩

namespace Ending

variable {α β : Type} {W : Prop} {post : α → List UInt8 → Prop} {r : Parsed α}

theorem ok {a : α} {rest : List UInt8} (h : post a rest) : Ending W post (.ok a rest) where
  fueled h := by cases h
  post a' rest' he := by
    cases he
    exact h
  safe _ h := by cases h

theorem null (ep : List UInt8) : Ending W post (.null ep) where
  fueled h := by cases h
  post a rest h := by cases h
  safe _ h := by cases h

theorem fault (h : ¬W) : Ending W post (.fault) where
  fueled h := by cases h
  post a rest h := by cases h
  safe hw := absurd hw h

theorem bind {post' : β → List UInt8 → Prop} {f : α → List UInt8 → Parsed β}
    (h : Ending W post r) (hf : ∀ a rest, post a rest → Ending W post' (f a rest)) :
    Ending W post' (r.bind f) := by
  cases hr : r with
  | ok a rest => exact hf a rest (h.post a rest hr)
  | null ep => exact null ep
  | fault => exact fault fun hw => h.safe hw hr
  | spent => exact absurd hr h.fueled

theorem weaken {post' : α → List UInt8 → Prop} (h : Ending W post r)
    (hp : ∀ a rest, post a rest → post' a rest) : Ending W post' r where
  fueled := h.fueled
  post a rest he := hp a rest (h.post a rest he)
  safe := h.safe

end Ending

variable {W : Prop}

theorem ending_skip {text : List UInt8} (hw : W → whole text = true) :
    Ending W (fun _ => Left W (text.length + 1)) (skip text) := by
  induction text with
  | nil => exact .fault fun h => by cases hw h
  | cons c text ih =>
    rw [skip]
    by_cases hc : c ≠ 0 ∧ c ≤ 32
    · have hplain : Plain c := by
        refine ⟨?_, ?_⟩
        · rintro (rfl | rfl)
          · exact absurd hc.2 (by decide)
          · exact hc.1 rfl
        · rintro rfl
          exact absurd hc.2 (by decide)
      rw [if_pos hc]
      refine (ih fun h => whole_of_plain hplain (hw h)).weaken fun a rest h => h.lt ?_
      rw [List.length_cons]
      omega
    · rw [if_neg hc]
      exact .ok ⟨Nat.lt_succ_self _, hw⟩

theorem ending_of {α : Type} {post : α → List UInt8 → Prop} {F : Fueled (α × List UInt8)}
    (hfuel : F ≠ none) (hpost : ∀ a rest, F = .ok (a, rest) → post a rest)
    (hsafe : W → ∃ r, F = .ok r) : Ending W post (Parsed.of F) := by
  cases F with
  | none => exact absurd rfl hfuel
  | some o =>
    cases o with
    | ok r => exact .ok (hpost r.1 r.2 rfl)
    | assertFail => exact .fault fun h => by obtain ⟨r, hr⟩ := hsafe h; cases hr
    | fault => exact .fault fun h => by obtain ⟨r, hr⟩ := hsafe h; cases hr

/-- The end of a string is behind what the second pass has left. -/
theorem length_of_closeString {item item' : Item} {s : List UInt8 × Pen} {rest : List UInt8}
    (h : closeString item s = .ok (item', rest)) :
    (∃ str, item' = { item with valuestring := some str, type := cJSON_String }) ∧
      rest.length ≤ s.1.length := by
  obtain ⟨out, -, h⟩ := Outcome.bind_eq_ok_iff.mp h
  obtain ⟨c, hc, h⟩ := Outcome.bind_eq_ok_iff.mp h
  cases h
  exact ⟨⟨_, rfl⟩, (takes_char (by decide)).forward s.1 c.1 c.2 hc⟩

theorem takeString_fueled {fuel : Nat} {ptr : List UInt8} (hfuel : ptr.length < fuel)
    (item : Item) : takeString fuel item ptr ≠ none := by
  cases hlen : stringLen ptr with
  | ok len =>
    have hends := whileLoop_ends (I := fun _ => True) (m := fun s => s.1.length)
      (fun s _ => unescapeRound_fueled s) (fun s s' _ h => ⟨trivial, length_of_unescapeRound h⟩)
      fuel (ptr, Pen.malloc (len + 1)) trivial hfuel
    rw [takeString, hlen, Fueled.of_ok, Fueled.ok_bind]
    cases hloop : whileLoop unescapeRound fuel (ptr, Pen.malloc (len + 1)) with
    | none => exact absurd hloop hends
    | some o => cases o <;> exact Option.some_ne_none _
  | assertFail =>
    rw [takeString, hlen]
    exact Option.some_ne_none _
  | fault =>
    rw [takeString, hlen]
    exact Option.some_ne_none _

theorem length_of_takeString {fuel : Nat} {ptr rest : List UInt8} {item item' : Item}
    (h : takeString fuel item ptr = .ok (item', rest)) :
    (∃ str, item' = { item with valuestring := some str, type := cJSON_String }) ∧
      rest.length ≤ ptr.length := by
  cases hlen : stringLen ptr with
  | ok len =>
    rw [takeString, hlen, Fueled.of_ok, Fueled.ok_bind] at h
    cases hloop : whileLoop unescapeRound fuel (ptr, Pen.malloc (len + 1)) with
    | none => rw [hloop] at h; cases h
    | some o =>
      cases o with
      | ok s =>
        have hle := whileLoop_invariant (I := fun s => s.1.length ≤ ptr.length)
          (Q := fun s => s.1.length ≤ ptr.length)
          (fun s s' hs h => (Nat.le_of_lt (length_of_unescapeRound h)).trans hs)
          (fun s b hs h => by rw [break_of_unescapeRound h]; exact hs) fuel _ s
          (Nat.le_refl _) hloop
        rw [hloop] at h
        obtain ⟨hitem, hrest⟩ := length_of_closeString (of_eq_ok_iff.mp h)
        exact ⟨hitem, hrest.trans hle⟩
      | assertFail => rw [hloop] at h; cases h
      | fault => rw [hloop] at h; cases h
  | assertFail => rw [takeString, hlen] at h; cases h
  | fault => rw [takeString, hlen] at h; cases h

/-- In a whole text, all that is written has been counted. -/
theorem takeString_whole {fuel : Nat} {ptr : List UInt8} (hfuel : ptr.length < fuel)
    (hw : whole ptr = true) (item : Item) :
    ∃ item' rest, takeString fuel item ptr = .ok (item', rest) ∧ whole rest = true := by
  obtain ⟨n, hn⟩ := stringLen_of_whole ptr.length (Nat.le_refl _) hw
  have hcounted : Counted (ptr, Pen.malloc (n + 1)) := ⟨hw, n, hn, Nat.lt_succ_self n⟩
  have hround : ∀ s, Counted s → (∃ b, unescapeRound s = .ok (.inr b) ∧ Counted b) ∨
      ∃ s', unescapeRound s = .ok (.inl s') ∧ Counted s' ∧ s'.1.length < s.1.length := by
    intro s hs
    rcases unescapeRound_counted hs with ⟨b, hb, rfl⟩ | hnext
    · exact .inl ⟨b, hb, hs⟩
    · exact .inr hnext
  obtain ⟨s, hs, hws, m, -, hroom⟩ := whileLoop_total hround fuel _ hcounted hfuel
  have hquote : quote ≠ 0 ∧ quote ≠ backslash := by decide
  obtain ⟨b, rest, hclose, hrest⟩ := (takes_char hquote).safe s.1 hws
  have hput : s.2.put [0] = .ok (s.2.wrote [0]) := Pen.put_ok (by
    rw [List.length_singleton]
    omega)
  refine ⟨{ item with valuestring := some (s.2.wrote [0]).str, type := cJSON_String }, rest, ?_,
    hrest⟩
  rw [takeString, hn, Fueled.of_ok, Fueled.ok_bind, hs, Fueled.ok_bind, closeString, hput,
    Outcome.bind, hclose]
  rfl

/-- **A string is parsed, and inside its text when that is whole.** -/
theorem ending_parseString {text : List UInt8} (hw : W → whole text = true) {fuel : Nat}
    (hfuel : text.length ≤ fuel) (item : Item) :
    Ending W (fun item' rest =>
        (∃ str, item' = { item with valuestring := some str, type := cJSON_String }) ∧
          Left W text.length rest)
      (parseString fuel item text) := by
  cases text with
  | nil => exact .fault fun h => by cases hw h
  | cons c ptr =>
    rw [parseString]
    by_cases hc : c ≠ quote
    · rw [if_pos hc]
      exact .null _
    · rw [if_neg hc]
      obtain rfl : c = quote := not_not.mp hc
      have hsafe : W → ∃ item' rest, takeString fuel item ptr = .ok (item', rest) ∧
          whole rest = true := fun h => takeString_whole hfuel (whole_of_ne (by decide) (hw h)) item
      refine ending_of (takeString_fueled hfuel item) (fun item' rest h => ?_) fun h => ?_
      · obtain ⟨hitem, hrest⟩ := length_of_takeString h
        refine ⟨hitem, Nat.lt_succ_of_le hrest, fun hW => ?_⟩
        obtain ⟨item₁, rest₁, h₁, hwhole⟩ := hsafe hW
        cases h.symm.trans h₁
        exact hwhole
      · obtain ⟨item₁, rest₁, h₁, -⟩ := hsafe h
        exact ⟨_, h₁⟩

/-! ### Words -/

theorem zero_mem_of_whole : ∀ (k : Nat) {text : List UInt8}, text.length ≤ k →
    whole text = true → (0 : UInt8) ∈ text := by
  intro k
  induction k with
  | zero =>
    intro text hk hw
    exact absurd (List.length_eq_zero_iff.mp (Nat.le_zero.mp hk)) (whole_ne_nil hw)
  | succ k ih =>
    intro text hk hw
    obtain ⟨c, t, rfl⟩ := List.exists_cons_of_ne_nil (whole_ne_nil hw)
    rw [List.length_cons] at hk
    by_cases hb : c = backslash
    · subst hb
      obtain ⟨e, t, rfl, -, hw', -⟩ := whole_backslash hw
      rw [List.length_cons] at hk
      exact List.mem_cons_of_mem _ (List.mem_cons_of_mem _ (ih (by omega) hw'))
    · rcases whole_cons hb hw with rfl | hw'
      · exact List.mem_cons_self
      · exact List.mem_cons_of_mem _ (ih (by omega) hw')

/-- The comparison ends inside a text with a terminator, and finds a word only where it stands. -/
theorem strncmp_word {word : List UInt8} (h0 : (0 : UInt8) ∉ word) : ∀ {value : List UInt8},
    ((0 : UInt8) ∈ value → ∃ n, strncmp value word word.length = .ok n) ∧
      (strncmp value word word.length = .ok 0 → ∃ rest, value = word ++ rest) := by
  induction word with
  | nil =>
    intro value
    refine ⟨fun _ => ⟨0, ?_⟩, fun _ => ⟨value, rfl⟩⟩
    rw [List.length_nil, strncmp]
  | cons t word ih =>
    intro value
    have ht : t ≠ 0 := fun h => h0 (h ▸ List.mem_cons_self)
    cases value with
    | nil => exact ⟨fun h => (by cases h), fun h => (by cases h)⟩
    | cons c value =>
      rw [List.length_cons, strncmp]
      by_cases hc : c = t
      · subst hc
        obtain ⟨hsafe, hfound⟩ := @ih (fun h => h0 (List.mem_cons_of_mem c h)) value
        rw [if_neg (fun h => h rfl), if_neg ht]
        refine ⟨fun hm => hsafe ((List.mem_cons.mp hm).resolve_left fun h => ht h.symm), fun h => ?_⟩
        obtain ⟨rest, rfl⟩ := hfound h
        exact ⟨rest, rfl⟩
      · have hne : (if c = 0 then (-1 : Int) else if t = 0 then 1 else (c.toNat : Int) - t.toNat) ≠
            0 := by
          have hnat : c.toNat ≠ t.toNat := fun he => hc (UInt8.toNat_inj.mp he)
          split_ifs
          · decide
          · omega
        rw [if_pos hc]
        exact ⟨fun _ => ⟨_, rfl⟩, fun h => absurd (Outcome.ok.inj h) hne⟩

theorem ending_ifText {α : Type} {post : α → List UInt8 → Prop} {word value : List UInt8}
    (h0 : ∀ c ∈ word, c ≠ 0 ∧ c ≠ backslash) (hw : W → whole value = true)
    {found : List UInt8 → Parsed α} {otherwise : Parsed α}
    (hfound : ∀ rest, value = word ++ rest → (W → whole rest = true) →
      Ending W post (found rest)) (hother : Ending W post otherwise) :
    Ending W post (ifText word value found otherwise) := by
  have hz : (0 : UInt8) ∉ word := fun h => (h0 0 h).1 rfl
  obtain ⟨hsafe, hword⟩ := @strncmp_word word hz value
  unfold ifText
  cases hcmp : strncmp value word word.length with
  | ok n =>
    simp only
    by_cases hn : n = 0
    · subst hn
      obtain ⟨rest, rfl⟩ := hword hcmp
      have hrest : whole (word ++ rest) = true → whole rest = true := by
        clear hfound hsafe hword hcmp hw hz
        induction word with
        | nil => exact fun h => h
        | cons c word ih =>
          intro h
          exact ih (fun d hd => h0 d (List.mem_cons_of_mem c hd))
            (whole_of_ne (h0 c List.mem_cons_self) h)
      rw [if_pos rfl, List.drop_left]
      exact hfound rest rfl fun h => hrest (hw h)
    · rw [if_neg hn]
      exact hother
  | assertFail =>
    refine .fault fun h => ?_
    obtain ⟨n, hn⟩ := hsafe (zero_mem_of_whole _ (Nat.le_refl _) (hw h))
    cases hcmp.symm.trans hn
  | fault =>
    refine .fault fun h => ?_
    obtain ⟨n, hn⟩ := hsafe (zero_mem_of_whole _ (Nat.le_refl _) (hw h))
    cases hcmp.symm.trans hn

/-! ### Items -/

/-- The item is the one that it would be read back as, and can be printed. -/
structure Item.Settled (named : Bool) (item : Item) : Prop where
  printable : Printable named (item.link .null)
  same : readItem item.type item.valuestring item.valueint item.valuedouble
    (readItems false item.child) (readItems true item.child)
    (if named then item.string else none) = item

theorem chain_settled {named : Bool} {items : List Item}
    (h : ∀ item ∈ items, item.Settled named) :
    Printable named (chain items) ∧ readItems named (chain items) = items := by
  induction items with
  | nil => exact ⟨trivial, rfl⟩
  | cons item items ih =>
    obtain ⟨hp, hs⟩ := ih fun it hit => h it (List.mem_cons_of_mem item hit)
    obtain ⟨⟨h1, h2, h3, h4, h5, -⟩, hsame⟩ := h item List.mem_cons_self
    refine ⟨⟨h1, h2, h3, h4, h5, hp⟩, ?_⟩
    show readItem _ _ _ _ _ _ _ :: readItems named (chain items) = item :: items
    rw [hs]
    exact congrArg (· :: items) hsame

/-- A fresh item, with the name that its list asks for. -/
structure Fresh (named : Bool) (item : Item) : Prop where
  child : item.child = .null
  valuestring : item.valuestring = none
  valueint : item.valueint = 0
  valuedouble : item.valuedouble = .ofInt 0
  string : item.string.isSome = named

theorem Fresh.name {named : Bool} {item : Item} (h : Fresh named item) :
    (if named then item.string else none) = item.string ∧ (named = true → item.string ≠ none) := by
  have hs := h.string
  cases hstr : item.string with
  | none =>
    rw [hstr] at hs
    subst hs
    exact ⟨rfl, fun h => by cases h⟩
  | some s =>
    rw [hstr] at hs
    subst hs
    exact ⟨rfl, fun _ => Option.some_ne_none s⟩

/-- What a parse function makes of a fresh item is settled. -/
theorem Fresh.settled {named : Bool} {item : Item} (h : Fresh named item) {type : Nat}
    {valuestring : Option CString} {valueint : Int32} {valuedouble : Double} {child : CJson}
    (hkind : type ≤ cJSON_Object)
    (hstring : valuestring.isSome = decide (type = cJSON_String))
    (hint : valueint =
      if type = cJSON_True then 1 else if type = cJSON_Number then valueint else 0)
    (hdouble : valuedouble = if type = cJSON_Number then valuedouble else .ofInt 0)
    (hchild : type ≠ cJSON_Array → type ≠ cJSON_Object → child = .null)
    (harray : type = cJSON_Array → Printable false child ∧ chain (readItems false child) = child)
    (hobject : type = cJSON_Object → Printable true child ∧ chain (readItems true child) = child) :
    Item.Settled named ⟨child, type, valuestring, valueint, valuedouble, item.string⟩ := by
  obtain ⟨hname, hthere⟩ := h.name
  have hmod : type % 256 = type := Nat.mod_eq_of_lt (Nat.lt_of_le_of_lt hkind (by decide))
  have hvs : (if type = cJSON_String then valuestring else none) = valuestring := by
    by_cases ht : type = cJSON_String
    · rw [if_pos ht]
    · rw [decide_eq_false ht] at hstring
      cases valuestring with
      | none => rw [if_neg ht]
      | some s => cases hstring
  refine ⟨⟨hthere, ?_, fun ht => ?_, fun ha => ?_, fun ho => ?_, trivial⟩, ?_⟩
  · rw [hmod]
    exact hkind
  · rw [hmod] at ht
    rw [decide_eq_true ht] at hstring
    exact Option.isSome_iff_ne_none.mp hstring
  · rw [hmod] at ha
    exact (harray ha).1
  · rw [hmod] at ho
    exact (hobject ho).1
  · have hc : (if type = cJSON_Array then chain (readItems false child)
        else if type = cJSON_Object then chain (readItems true child) else .null) = child := by
      split_ifs with ha ho
      · exact (harray ha).2
      · exact (hobject ho).2
      · exact (hchild ha ho).symm
    simp only [readItem, hmod, hname, hvs, hc, ← hint, ← hdouble]

variable {named : Bool}

/-- **The loop over the items of a list ends behind its bracket.** -/
theorem ending_parseItems {parse : List UInt8 → Parsed Item} {close : UInt8} {N : Nat}
    (hclose : close ≠ 0 ∧ close ≠ backslash)
    (hparse : ∀ text, text.length < N → (W → whole text = true) →
      Ending W (fun item rest => item.Settled named ∧ Left W text.length rest) (parse text)) :
    ∀ {fuel : Nat} {value : List UInt8}, value.length < fuel → value.length < N →
      (W → whole value = true) →
      Ending W (fun items rest => (∀ item ∈ items, item.Settled named) ∧ Left W value.length rest)
        (parseItems parse close fuel value) := by
  intro fuel
  induction fuel with
  | zero =>
    intro value hlt
    exact absurd hlt (Nat.not_lt_zero _)
  | succ fuel ih =>
    intro value hlt hN hw
    rw [parseItems]
    refine (ending_skip hw).bind fun _ value₁ h₁ => ?_
    have hlen₁ := h₁.1
    refine (hparse value₁ (by omega) h₁.2).bind fun item value₂ hread => ?_
    obtain ⟨hitem, h₂⟩ := hread
    have hlen₂ := h₂.1
    refine (ending_skip h₂.2).bind fun _ value₃ h₃ => ?_
    have hlen₃ := h₃.1
    cases value₃ with
    | nil => exact .fault fun h => by cases h₃.2 h
    | cons c rest =>
      rw [List.length_cons] at hlen₃
      have hrest : c ≠ 0 ∧ c ≠ backslash → W → whole rest = true := fun hne h =>
        whole_of_ne hne (h₃.2 h)
      simp only
      by_cases hcomma : c = 0x2c
      · rw [if_pos hcomma]
        have hrec := @ih rest (by omega) (by omega) (hrest (hcomma ▸ by decide))
        refine hrec.bind fun items rest' hread => ?_
        obtain ⟨hitems, h₄⟩ := hread
        refine .ok ⟨fun it hit => ?_, h₄.lt (by omega)⟩
        rcases List.mem_cons.mp hit with rfl | hit
        · exact hitem
        · exact hitems it hit
      · rw [if_neg hcomma]
        by_cases hend : c = close
        · rw [if_pos hend]
          refine .ok ⟨fun it hit => ?_, by omega, hrest (hend ▸ hclose)⟩
          rw [List.mem_singleton.mp hit]
          exact hitem
        · rw [if_neg hend]
          exact .null _

/-- A bracket gives the item with its type and the list of the items in it. -/
theorem ending_parseBracket {parse : List UInt8 → Parsed Item} {opening close : UInt8} {N : Nat}
    (hopening : opening ≠ 0 ∧ opening ≠ backslash) (hclose : close ≠ 0 ∧ close ≠ backslash)
    (hparse : ∀ text, text.length < N → (W → whole text = true) →
      Ending W (fun item rest => item.Settled named ∧ Left W text.length rest) (parse text))
    {text : List UInt8} (hN : text.length ≤ N) (hw : W → whole text = true) (type : Nat)
    {item : Item} (hitem : item.child = .null) :
    Ending W (fun item' rest => (∃ items : List Item, (∀ it ∈ items, it.Settled named) ∧
        item' = { item with type := type, child := chain items }) ∧ Left W text.length rest)
      (parseBracket parse opening close type N item text) := by
  cases text with
  | nil => exact .fault fun h => by cases hw h
  | cons c value =>
    rw [List.length_cons] at hN
    rw [parseBracket]
    by_cases hc : c ≠ opening
    · rw [if_pos hc]
      exact .null _
    · obtain rfl : c = opening := not_not.mp hc
      rw [if_neg hc]
      refine (ending_skip fun h => whole_of_ne hopening (hw h)).bind fun _ value₁ h₁ => ?_
      have hlen₁ := h₁.1
      cases value₁ with
      | nil => exact .fault fun h => by cases h₁.2 h
      | cons c₁ rest =>
        rw [List.length_cons] at hlen₁
        simp only
        by_cases hend : c₁ = close
        · rw [if_pos hend]
          refine .ok ⟨⟨[], fun it hit => (by cases hit), by rw [chain, List.foldr_nil, ← hitem]⟩, ?_,
            fun h => ?_⟩
          · rw [List.length_cons]
            omega
          · exact whole_of_ne (hend ▸ hclose) (h₁.2 h)
        · rw [if_neg hend]
          have hitems := @ending_parseItems W named parse close N hclose hparse N (c₁ :: rest)
            (by rw [List.length_cons]; omega) (by rw [List.length_cons]; omega) h₁.2
          refine hitems.bind fun items rest' hread => ?_
          obtain ⟨hitems, h₂⟩ := hread
          refine .ok ⟨⟨items, hitems, rfl⟩, h₂.lt ?_⟩
          rw [List.length_cons, List.length_cons]
          omega

/-- A member is parsed when values are. -/
theorem ending_parseMember {parse : Item → List UInt8 → Parsed Item} {N : Nat}
    (hparse : ∀ item text, Fresh true item → text.length < N → (W → whole text = true) →
      Ending W (fun item rest => item.Settled true ∧ Left W text.length rest) (parse item text))
    {text : List UInt8} (hN : text.length < N) (hw : W → whole text = true) :
    Ending W (fun item rest => item.Settled true ∧ Left W text.length rest)
      (parseMember parse N text) := by
  rw [parseMember]
  refine (ending_parseString hw (Nat.le_of_lt hN) Item.new).bind fun item value₁ hname => ?_
  obtain ⟨⟨str, hitem⟩, h₁⟩ := hname
  have hlen₁ := h₁.1
  refine (ending_skip h₁.2).bind fun _ value₂ h₂ => ?_
  have hlen₂ := h₂.1
  cases value₂ with
  | nil => exact .fault fun h => by cases h₂.2 h
  | cons c rest =>
    rw [List.length_cons] at hlen₂
    simp only
    by_cases hcolon : c ≠ 0x3a
    · rw [if_pos hcolon]
      exact .null _
    · obtain rfl : c = 0x3a := not_not.mp hcolon
      rw [if_neg hcolon]
      refine (ending_skip fun h => whole_of_ne (by decide) (h₂.2 h)).bind fun _ value₃ h₃ => ?_
      have hlen₃ := h₃.1
      have hfresh : Fresh true item.named := by
        subst hitem
        exact ⟨rfl, rfl, rfl, rfl, rfl⟩
      refine (hparse item.named value₃ hfresh (by omega) h₃.2).weaken fun item' rest' h => ?_
      exact ⟨h.1, h.2.lt (by omega)⟩

theorem words_plain : ∀ word ∈ [nullText, falseText, trueText], ∀ c ∈ word,
    c ≠ 0 ∧ c ≠ backslash := by
  simp [nullText, falseText, trueText, backslash]

/-- **A value is parsed with fuel for its text, whatever that is.** -/
theorem ending_parseValue (arith : Numeral → Double × Int32) : ∀ {fuel : Nat} {named : Bool}
    {item : Item} {text : List UInt8}, Fresh named item → text.length < fuel → (W → whole text = true) →
    Ending W (fun item rest => item.Settled named ∧ Left W text.length rest)
      (parseValue arith fuel item text) := by
  intro fuel
  induction fuel with
  | zero =>
    intro named item text _ hlt
    exact absurd hlt (Nat.not_lt_zero _)
  | succ fuel ih =>
    intro named item text hfresh hlt hw
    obtain ⟨child, type, valuestring, valueint, valuedouble, string⟩ := item
    obtain ⟨rfl, rfl, rfl, rfl, hstring⟩ := hfresh
    have hfresh : Fresh named ⟨.null, type, none, 0, .ofInt 0, string⟩ :=
      ⟨rfl, rfl, rfl, rfl, hstring⟩
    have hleft : ∀ (word : List UInt8) rest, word ≠ [] → text = word ++ rest →
        (W → whole rest = true) → Left W text.length rest := by
      intro word rest hne ht hrest
      refine ⟨?_, hrest⟩
      rw [ht, List.length_append]
      have := List.length_pos_of_ne_nil hne
      omega
    refine ending_ifText (words_plain _ (by simp)) hw (fun rest ht hrest =>
      .ok ⟨hfresh.settled (by decide) rfl rfl rfl (fun _ _ => rfl) (fun h => by cases h)
        (fun h => by cases h), hleft nullText rest (by decide) ht hrest⟩) ?_
    refine ending_ifText (words_plain _ (by simp)) hw (fun rest ht hrest =>
      .ok ⟨hfresh.settled (by decide) rfl rfl rfl (fun _ _ => rfl) (fun h => by cases h)
        (fun h => by cases h), hleft falseText rest (by decide) ht hrest⟩) ?_
    refine ending_ifText (words_plain _ (by simp)) hw (fun rest ht hrest =>
      .ok ⟨hfresh.settled (by decide) rfl rfl rfl (fun _ _ => rfl) (fun h => by cases h)
        (fun h => by cases h), hleft trueText rest (by decide) ht hrest⟩) ?_
    cases text with
    | nil => exact .fault fun h => by cases hw h
    | cons c t =>
      have hle : (c :: t).length ≤ fuel := Nat.le_of_lt_succ hlt
      simp only
      by_cases hquote : c = quote
      · rw [if_pos hquote]
        refine (ending_parseString hw hle _).weaken fun item rest hread => ?_
        obtain ⟨⟨str, hitem⟩, h⟩ := hread
        refine ⟨?_, h⟩
        subst hitem
        exact hfresh.settled (by decide) rfl rfl rfl (fun _ _ => rfl) (fun h => by cases h)
          fun h => by cases h
      rw [if_neg hquote]
      by_cases hnum : c = 0x2d ∨ isDigit c = true
      · rw [if_pos hnum]
        have hscans : Ending W (fun _ rest => Left W (c :: t).length rest)
            (Parsed.of (Fueled.of (scanNumber (c :: t)))) := by
          refine ending_of (Option.some_ne_none _) (fun n rest h => ?_) fun h => ?_
          · have hscan := of_eq_ok_iff.mp h
            refine ⟨Nat.lt_succ_of_le (length_of_scanNumber hnum hscan), fun hW => ?_⟩
            obtain ⟨n', rest', hscan', hrest⟩ := takes_number.safe _ (hw hW)
            cases hscan.symm.trans hscan'
            exact hrest
          · obtain ⟨n, rest, hscan, -⟩ := takes_number.safe _ (hw h)
            exact ⟨(n, rest), of_eq_ok_iff.mpr hscan⟩
        refine hscans.bind fun n rest h => .ok ⟨?_, h⟩
        exact hfresh.settled (by decide) rfl rfl rfl (fun _ _ => rfl) (fun h => by cases h)
          fun h => by cases h
      rw [if_neg hnum]
      by_cases harray : c = 0x5b
      · rw [if_pos harray]
        have hvalues : ∀ text, text.length < fuel → (W → whole text = true) →
            Ending W (fun item rest => item.Settled false ∧ Left W text.length rest)
              (parseValue arith fuel Item.new text) := fun text hlen hwt =>
          ih ⟨rfl, rfl, rfl, rfl, rfl⟩ hlen hwt
        refine (ending_parseBracket (by decide) (by decide) hvalues hle hw cJSON_Array rfl).weaken
          fun item rest hread => ?_
        obtain ⟨⟨items, hitems, hitem⟩, h⟩ := hread
        refine ⟨?_, h⟩
        obtain ⟨hp, hs⟩ := chain_settled hitems
        subst hitem
        exact hfresh.settled (by decide) rfl rfl rfl (fun h => absurd rfl h)
          (fun _ => ⟨hp, congrArg chain hs⟩) fun h => by cases h
      rw [if_neg harray]
      by_cases hobject : c = 0x7b
      · rw [if_pos hobject]
        have hmembers : ∀ text, text.length < fuel → (W → whole text = true) →
            Ending W (fun item rest => item.Settled true ∧ Left W text.length rest)
              (parseMember (parseValue arith fuel) fuel text) := fun text hlen hwt =>
          ending_parseMember (fun item text hf hlt hwt => ih hf hlt hwt) hlen hwt
        refine (ending_parseBracket (by decide) (by decide) hmembers hle hw cJSON_Object rfl).weaken
          fun item rest hread => ?_
        obtain ⟨⟨items, hitems, hitem⟩, h⟩ := hread
        refine ⟨?_, h⟩
        obtain ⟨hp, hs⟩ := chain_settled hitems
        subst hitem
        exact hfresh.settled (by decide) rfl rfl rfl (fun _ h => absurd rfl h) (fun h => by cases h)
          fun _ => ⟨hp, congrArg chain hs⟩
      · rw [if_neg hobject]
        exact .null _

/-! ### More fuel -/

/-- The second run says what the first one says, if that has had fuel enough. -/
def Refines {α : Type} (r r' : Parsed α) : Prop := r = .spent ∨ r' = r

theorem refines_refl {α : Type} (r : Parsed α) : Refines r r := .inr rfl

theorem Refines.bind {α β : Type} {r r' : Parsed α} {f f' : α → List UInt8 → Parsed β}
    (h : Refines r r') (hf : ∀ a rest, Refines (f a rest) (f' a rest)) :
    Refines (r.bind f) (r'.bind f') := by
  rcases h with rfl | rfl
  · exact .inl rfl
  · cases r' with
    | ok a rest => exact hf a rest
    | null ep => exact .inr rfl
    | fault => exact .inr rfl
    | spent => exact .inl rfl

theorem refines_ifText {α : Type} {word value : List UInt8} {found : List UInt8 → Parsed α}
    {r r' : Parsed α} (h : Refines r r') :
    Refines (ifText word value found r) (ifText word value found r') := by
  unfold ifText
  split
  · split
    · exact refines_refl _
    · exact h
  · exact refines_refl _

theorem refines_parseString (fuel : Nat) (item : Item) (text : List UInt8) :
    Refines (parseString fuel item text) (parseString (fuel + 1) item text) := by
  cases text with
  | nil => exact refines_refl _
  | cons c ptr =>
    rw [parseString, parseString]
    split
    · exact refines_refl _
    · rw [takeString, takeString]
      cases stringLen ptr with
      | ok len =>
        rw [Fueled.of_ok, Fueled.ok_bind, Fueled.ok_bind]
        rcases whileLoop_more fuel (ptr, Pen.malloc (len + 1)) with h | h
        · rw [h]
          exact .inl rfl
        · rw [h]
          exact refines_refl _
      | assertFail => exact refines_refl _
      | fault => exact refines_refl _

section

variable {parse parse' : List UInt8 → Parsed Item}

theorem refines_parseItems {close : UInt8} (h : ∀ text, Refines (parse text) (parse' text)) :
    ∀ (fuel : Nat) (text : List UInt8),
      Refines (parseItems parse close fuel text) (parseItems parse' close (fuel + 1) text) := by
  intro fuel
  induction fuel with
  | zero => exact fun _ => .inl rfl
  | succ fuel ih =>
    intro text
    rw [parseItems, parseItems]
    refine (refines_refl _).bind fun _ value => (h value).bind fun item value =>
      (refines_refl _).bind fun _ value => ?_
    cases value with
    | nil => exact refines_refl _
    | cons c rest =>
      simp only
      split
      · exact (ih rest).bind fun _ _ => refines_refl _
      · exact refines_refl _

theorem refines_parseBracket {opening close : UInt8} {type : Nat}
    (h : ∀ text, Refines (parse text) (parse' text)) (fuel : Nat) (item : Item)
    (text : List UInt8) :
    Refines (parseBracket parse opening close type fuel item text)
      (parseBracket parse' opening close type (fuel + 1) item text) := by
  cases text with
  | nil => exact refines_refl _
  | cons c value =>
    rw [parseBracket, parseBracket]
    split
    · exact refines_refl _
    · refine (refines_refl _).bind fun _ value => ?_
      cases value with
      | nil => exact refines_refl _
      | cons c rest =>
        simp only
        split
        · exact refines_refl _
        · exact (refines_parseItems h fuel _).bind fun _ _ => refines_refl _

end

theorem refines_parseMember {parse parse' : Item → List UInt8 → Parsed Item}
    (h : ∀ item text, Refines (parse item text) (parse' item text)) (fuel : Nat)
    (text : List UInt8) :
    Refines (parseMember parse fuel text) (parseMember parse' (fuel + 1) text) := by
  rw [parseMember, parseMember]
  refine (refines_parseString fuel _ text).bind fun item value =>
    (refines_refl _).bind fun _ value => ?_
  cases value with
  | nil => exact refines_refl _
  | cons c rest =>
    simp only
    split
    · exact refines_refl _
    · exact (refines_refl _).bind fun _ value => h _ value

theorem refines_parseValue (arith : Numeral → Double × Int32) : ∀ (fuel : Nat) (item : Item)
    (text : List UInt8),
    Refines (parseValue arith fuel item text) (parseValue arith (fuel + 1) item text) := by
  intro fuel
  induction fuel with
  | zero => exact fun _ _ => .inl rfl
  | succ fuel ih =>
    intro item text
    refine refines_ifText (refines_ifText (refines_ifText ?_))
    cases text with
    | nil => exact refines_refl _
    | cons c t =>
      simp only
      split
      · exact refines_parseString fuel item _
      · split
        · exact refines_refl _
        · split
          · exact refines_parseBracket (ih Item.new) fuel item _
          · split
            · exact refines_parseBracket (refines_parseMember ih fuel) fuel item _
            · exact refines_refl _

theorem refines_parse (arith : Numeral → Double × Int32) (fuel : Nat) (text : List UInt8)
    (require : Bool) :
    Refines (cJSON_ParseWithOpts arith fuel text require)
      (cJSON_ParseWithOpts arith (fuel + 1) text require) :=
  (refines_refl _).bind fun _ value => (refines_parseValue arith fuel _ value).bind fun _ _ =>
    refines_refl _

/-- **All fuel that is enough gives the same.** -/
theorem parse_more {arith : Numeral → Double × Int32} {fuel fuel' : Nat} {text : List UInt8}
    {require : Bool}
    (h : cJSON_ParseWithOpts arith fuel text require ≠ .spent) (hle : fuel ≤ fuel') :
    cJSON_ParseWithOpts arith fuel' text require =
      cJSON_ParseWithOpts arith fuel text require := by
  induction hle with
  | refl => rfl
  | @step fuel' _ ih =>
    have hne : cJSON_ParseWithOpts arith fuel' text require ≠ .spent := by rwa [ih]
    exact ((refines_parse arith fuel' text require).resolve_left hne).trans ih

/-! ### The parser -/

theorem ending_parse (arith : Numeral → Double × Int32) {fuel : Nat} {text : List UInt8}
    (hfuel : text.length < fuel) (hw : W → whole text = true) (require : Bool) :
    Ending W (fun t rest => (t ≠ .null ∧ Printable false t ∧ readBack t = t) ∧
        Left W text.length rest ∧ (require = true → ∃ rest', rest = 0 :: rest'))
      (cJSON_ParseWithOpts arith fuel text require) := by
  rw [cJSON_ParseWithOpts]
  refine (ending_skip hw).bind fun _ value₁ h₁ => ?_
  have hlen₁ := h₁.1
  have hfresh : Fresh false Item.new := ⟨rfl, rfl, rfl, rfl, rfl⟩
  refine (ending_parseValue arith hfresh (by omega) h₁.2).bind fun item value₂ hread => ?_
  obtain ⟨hitem, h₂⟩ := hread
  have hlen₂ := h₂.1
  have hroot : item.link .null ≠ .null ∧ Printable false (item.link .null) ∧
      readBack (item.link .null) = item.link .null := by
    refine ⟨fun h => (by cases h), hitem.printable, ?_⟩
    exact congrArg (Item.link · .null) hitem.same
  cases require with
  | false => exact .ok ⟨hroot, h₂.lt (by omega), fun h => by cases h⟩
  | true =>
    refine (ending_skip h₂.2).bind fun _ value₃ h₃ => ?_
    have hlen₃ := h₃.1
    cases value₃ with
    | nil => exact .fault fun h => by cases h₃.2 h
    | cons b rest =>
      simp only
      by_cases hb : b ≠ 0
      · rw [if_pos hb]
        exact .null _
      · obtain rfl : b = 0 := not_not.mp hb
        rw [if_neg hb]
        exact .ok ⟨hroot, h₃.lt (by omega), fun _ => ⟨rest, rfl⟩⟩

/-- Of the escape `\u` only the closing quote is there: the parser goes over it. -/
example : whole [0x22, 0x5c, 0x75, 0x22, 0x00] = false ∧
    cJSON_ParseWithOpts (fun _ => (.nan, 0)) 6 [0x22, 0x5c, 0x75, 0x22, 0x00] false = .fault := by
  decide

end Nl6621.Json
