import Nl6621.Dhcp.Cursor

/-!
# What the parser makes of a list of options

An option list as a client writes it: pads, and values with a code and a length in front.  The
parser never looks for a code inside a value, as it goes from option to option by the lengths; so
what it returns can be said of the list alone.  `lastValue` is the value that counts when a code is
there more than once, `parsed` what is returned.  `parse_encoded` says that the parser returns
this, whatever lies behind the END.
-/

namespace Nl6621.Dhcp

variable {mem : Nat → UInt8} {p k : Nat} {code : UInt8} {v bs cs : List UInt8} {opts : List Opt}

/-! ### The bytes of a list of options -/

inductive Opt where
  | pad
  | value (code : UInt8) (v : List UInt8)
deriving DecidableEq

def Opt.bytes : Opt → List UInt8
  | .pad => [DHCP_OPTION_ID_PAD]
  | .value code v => code :: UInt8.ofNat v.length :: v

/-- The code is none of the two that have no value, and the values that are kept have the length
they are read with. -/
def Opt.WellFormed : Opt → Prop
  | .pad => True
  | .value code v =>
    code ≠ DHCP_OPTION_ID_PAD ∧ code ≠ DHCP_OPTION_ID_END ∧ v.length ≤ 255 ∧
      (code = DHCP_OPTION_ID_MSG_TYPE → v.length = 1) ∧
      (code = DHCP_OPTION_ID_REQ_IP_ADDR ∨ code = DHCP_OPTION_ID_SERVER_ID → v.length = 4)

instance : (x : Opt) → Decidable x.WellFormed
  | .pad => isTrue trivial
  | .value _ _ => inferInstanceAs (Decidable (_ ∧ _))

def encode (opts : List Opt) : List UInt8 := opts.flatMap Opt.bytes

/-- The bytes lie in the memory from `p` on. -/
def At (mem : Nat → UInt8) (p : Nat) (bs : List UInt8) : Prop :=
  ∀ k, k < bs.length → mem (p + k) = bs.getD k 0

theorem at_cons {b : UInt8} (h : At mem p (b :: bs)) : mem p = b ∧ At mem (p + 1) bs := by
  refine ⟨h 0 (Nat.succ_pos _), fun k hk => ?_⟩
  have hnext := h (k + 1) (by rw [List.length_cons]; omega)
  rw [Nat.add_right_comm]
  exact hnext

theorem at_append (h : At mem p (bs ++ cs)) : At mem p bs ∧ At mem (p + bs.length) cs := by
  induction bs generalizing p with
  | nil => exact ⟨fun _ hk => absurd hk (Nat.not_lt_zero _), h⟩
  | cons b bs ih =>
    obtain ⟨hb, hrest⟩ := at_cons h
    obtain ⟨hbs, hcs⟩ := ih hrest
    refine ⟨fun k hk => ?_, ?_⟩
    · cases k with
      | zero => exact hb
      | succ k =>
        have hk' := hbs k (Nat.lt_of_succ_lt_succ hk)
        rw [Nat.add_right_comm] at hk'
        exact hk'
    · rw [List.length_cons, Nat.add_comm bs.length 1, ← Nat.add_assoc]
      exact hcs

/-! ### What is returned -/

/-- The value of an option with this code. -/
def Opt.valueOf (code : UInt8) : Opt → Option (List UInt8)
  | .pad => none
  | .value c v => if c = code then some v else none

/-- The last value with this code. -/
def lastValue (code : UInt8) : List Opt → Option (List UInt8)
  | [] => none
  | o :: opts => (lastValue code opts).or (o.valueOf code)

/-- Four bytes as they are moved into a word. -/
def wordOf (v : List UInt8) : UInt32 := word (fun k => v.getD k 0) 0

/-- The bit of the result for a code. -/
def bitOf (bit : UInt8) : Option (List UInt8) → UInt8
  | none => 0
  | some _ => bit

/-- The outputs and the result, with `o` what they were before. -/
def parsed (o : Options) (opts : List Opt) : Options where
  msgType := ((lastValue DHCP_OPTION_ID_MSG_TYPE opts).map fun v => v.getD 0 0).getD o.msgType
  reqIpAddr := ((lastValue DHCP_OPTION_ID_REQ_IP_ADDR opts).map wordOf).getD o.reqIpAddr
  serverId := ((lastValue DHCP_OPTION_ID_SERVER_ID opts).map wordOf).getD o.serverId
  ret := o.ret ||| (bitOf 0x01 (lastValue DHCP_OPTION_ID_MSG_TYPE opts) |||
    bitOf 0x02 (lastValue DHCP_OPTION_ID_REQ_IP_ADDR opts) |||
    bitOf 0x04 (lastValue DHCP_OPTION_ID_SERVER_ID opts))

/-- `readOption` in terms of the option. -/
def Opt.keep (o : Options) : Opt → Options
  | .pad => o
  | .value code v =>
    if code = DHCP_OPTION_ID_MSG_TYPE then { o with msgType := v.getD 0 0, ret := o.ret ||| 0x01 }
    else if code = DHCP_OPTION_ID_REQ_IP_ADDR then
      { o with reqIpAddr := wordOf v, ret := o.ret ||| 0x02 }
    else if code = DHCP_OPTION_ID_SERVER_ID then
      { o with serverId := wordOf v, ret := o.ret ||| 0x04 }
    else o

theorem getD_or {α β : Type} (f : α → β) (a b : Option α) (d : β) :
    ((a.or b).map f).getD d = (a.map f).getD ((b.map f).getD d) := by
  cases a <;> rfl

theorem bitOf_or (bit : UInt8) (a b : Option (List UInt8)) :
    bitOf bit (a.or b) = bitOf bit b ||| bitOf bit a := by
  cases a with
  | none => exact UInt8.or_zero.symm
  | some a =>
    cases b with
    | none => exact UInt8.zero_or.symm
    | some b => exact UInt8.or_self.symm

theorem or_three (r a b c a' b' c' : UInt8) :
    (r ||| (a ||| b ||| c)) ||| (a' ||| b' ||| c') =
      r ||| ((a ||| a') ||| (b ||| b') ||| (c ||| c')) := by
  ac_rfl

/-- One option more in front. -/
theorem parsed_cons (o : Options) (x : Opt) (opts : List Opt) :
    parsed o (x :: opts) = parsed (parsed o [x]) opts := by
  simp only [parsed, lastValue, Option.none_or, getD_or, bitOf_or, or_three]

/-- A single option is kept as `readOption` does. -/
theorem parsed_singleton (o : Options) (x : Opt) : parsed o [x] = x.keep o := by
  have hne : DHCP_OPTION_ID_MSG_TYPE ≠ DHCP_OPTION_ID_REQ_IP_ADDR ∧
      DHCP_OPTION_ID_MSG_TYPE ≠ DHCP_OPTION_ID_SERVER_ID ∧
      DHCP_OPTION_ID_REQ_IP_ADDR ≠ DHCP_OPTION_ID_SERVER_ID := by decide
  cases x with
  | pad => simp [parsed, lastValue, Opt.valueOf, bitOf, Opt.keep]
  | value code v =>
    simp only [parsed, lastValue, Option.none_or, Opt.valueOf, Opt.keep]
    by_cases h1 : code = DHCP_OPTION_ID_MSG_TYPE
    · subst h1
      simp [bitOf, hne.1, hne.2.1]
    by_cases h2 : code = DHCP_OPTION_ID_REQ_IP_ADDR
    · subst h2
      simp [bitOf, h1, hne.2.2]
    by_cases h3 : code = DHCP_OPTION_ID_SERVER_ID
    · subst h3
      simp [bitOf, h1, h2]
    · simp [bitOf, h1, h2, h3]

/-! ### The parser on a list of options -/

theorem wordOf_at (h : At mem p v) (hv : v.length = 4) : word mem p = wordOf v := by
  have h0 : mem p = v.getD 0 0 := h 0 (by omega)
  rw [word, wordOf, word, h0, h 1 (by omega), h 2 (by omega), h 3 (by omega)]

theorem readOption_at (hcode : mem p = code) (hv : At mem (p + 2) v)
    (hw : (Opt.value code v).WellFormed) (o : Options) :
    readOption mem p o = (Opt.value code v).keep o := by
  obtain ⟨-, -, -, hone, hfour⟩ := hw
  rw [readOption, Opt.keep, hcode]
  by_cases h1 : code = DHCP_OPTION_ID_MSG_TYPE
  · have hb : mem (p + 2) = v.getD 0 0 := hv 0 (by rw [hone h1]; exact Nat.one_pos)
    rw [if_pos h1, if_pos h1, hb]
  rw [if_neg h1, if_neg h1]
  by_cases h2 : code = DHCP_OPTION_ID_REQ_IP_ADDR
  · rw [if_pos h2, if_pos h2, wordOf_at hv (hfour (Or.inl h2))]
  rw [if_neg h2, if_neg h2]
  by_cases h3 : code = DHCP_OPTION_ID_SERVER_ID
  · rw [if_pos h3, if_pos h3, wordOf_at hv (hfour (Or.inr h3))]
  · rw [if_neg h3, if_neg h3]

/-- The parts of an option in memory. -/
theorem value_at (h : At mem p (Opt.value code v).bytes) (hw : (Opt.value code v).WellFormed) :
    mem p = code ∧ ((mem (p + 1)).toNat = v.length ∧ At mem (p + 2) v) ∧
      (Opt.value code v).bytes.length = 2 + v.length := by
  obtain ⟨hcode, htail⟩ := at_cons h
  obtain ⟨hlen, hv⟩ := at_cons htail
  refine ⟨hcode, ⟨?_, hv⟩, ?_⟩
  · have h255 := hw.2.2.1
    rw [hlen, UInt8.toNat_ofNat']
    omega
  · simp only [Opt.bytes, List.length_cons]
    omega

theorem at_encode_cons {x : Opt} {opts : List Opt}
    (h : At mem p (encode (x :: opts) ++ [DHCP_OPTION_ID_END])) :
    At mem p x.bytes ∧ At mem (p + x.bytes.length) (encode opts ++ [DHCP_OPTION_ID_END]) := by
  rw [encode, List.flatMap_cons, List.append_assoc] at h
  exact at_append h

theorem length_encode_cons (x : Opt) (opts : List Opt) :
    (encode (x :: opts)).length = x.bytes.length + (encode opts).length := by
  rw [encode, List.flatMap_cons, List.length_append, encode]

/-- **The parser on a list of options**, from any place on. -/
theorem parseLoop_encoded : ∀ (opts : List Opt) (k p : Nat) (o : Options),
    (∀ x ∈ opts, x.WellFormed) → At mem p (encode opts ++ [DHCP_OPTION_ID_END]) →
      p + (encode opts).length < sizeofMsg → sizeofMsg < p + k →
        parseLoop mem k p o = parsed o opts := by
  intro opts
  induction opts with
  | nil =>
    intro k p o _ hat _ _
    rw [parseLoop_end (at_cons hat).1]
    simp [parsed, lastValue, bitOf]
  | cons x opts ih =>
    intro k p o hwell hat hfit hk
    obtain ⟨k, rfl⟩ : ∃ j, k = j + 1 := ⟨k - 1, by omega⟩
    have hopts : ∀ y ∈ opts, y.WellFormed := fun y hy => hwell y (List.mem_cons_of_mem _ hy)
    have hx := hwell x List.mem_cons_self
    rw [parsed_cons, parsed_singleton]
    obtain ⟨hbytes, hrest⟩ := at_encode_cons hat
    rw [length_encode_cons] at hfit
    cases x with
    | pad =>
      have hpad : Opt.pad.bytes.length = 1 := rfl
      rw [parseLoop_pad (by omega) (at_cons hbytes).1]
      rw [hpad] at hfit
      exact ih k (p + 1) o hopts hrest (by omega) (by omega)
    | value code v =>
      obtain ⟨hcode, ⟨hn, hv⟩, hsize⟩ := value_at hbytes hx
      rw [parseLoop_option (by omega) (hcode ▸ hx.2.1) (hcode ▸ hx.1), hn,
        readOption_at hcode hv hx]
      rw [hsize] at hrest hfit
      rw [Nat.add_assoc]
      exact ih k _ _ hopts hrest (by omega) (by omega)

/-- `_ParseDhcpOptions` with what the three outputs hold before the call. -/
def parseDhcpOptionsInto (mem : Nat → UInt8) (msgType : UInt8) (reqIpAddr serverId : UInt32) :
    Options :=
  parseLoop mem (sizeofMsg - optionsOffset + 1) optionsOffset ⟨msgType, reqIpAddr, serverId, 0⟩

theorem parseDhcpOptionsInto_recv (mem : Nat → UInt8) :
    parseDhcpOptionsInto mem 0xff 0 0 = parseDhcpOptions mem := rfl

/-- **What the parser returns on a well-formed list of options**: of each of the three codes the
last value and its bit, and what was there before if the code is absent. -/
theorem parse_encoded (hwell : ∀ x ∈ opts, x.WellFormed)
    (hfit : (encode opts ++ [DHCP_OPTION_ID_END]).length ≤ sizeofMsg - optionsOffset)
    (hat : At mem optionsOffset (encode opts ++ [DHCP_OPTION_ID_END])) (msgType : UInt8)
    (reqIpAddr serverId : UInt32) :
    parseDhcpOptionsInto mem msgType reqIpAddr serverId =
      parsed ⟨msgType, reqIpAddr, serverId, 0⟩ opts := by
  rw [List.length_append, List.length_singleton] at hfit
  have hroom : optionsOffset ≤ sizeofMsg := by decide
  exact parseLoop_encoded opts _ _ _ hwell hat (by omega) (by omega)

/-- The message type twice, an option 12 with a requested address in its value, and an option 80
without a value. -/
def mixedOpts : List Opt :=
  [.value 53 [1], .pad, .value 12 [50, 4, 1, 2, 3, 4], .value 80 [], .value 53 [3],
    .value 54 [192, 168, 1, 1]]

def mixedMem (k : Nat) : UInt8 := (encode mixedOpts ++ [DHCP_OPTION_ID_END]).getD (k - 240) 0

/-- The last type and the server id are returned, and the requested address is left. -/
theorem parse_encoded_mixed :
    parseDhcpOptionsInto mixedMem 0xff 0x2a 0 = ⟨3, 0x2a, 0x0101a8c0, 0x05⟩ := by
  have hat : At mixedMem optionsOffset (encode mixedOpts ++ [DHCP_OPTION_ID_END]) := by
    intro k _
    rw [mixedMem, optionsOffset, Nat.add_sub_cancel_left]
  have hwell : ∀ x ∈ mixedOpts, x.WellFormed := by decide
  rw [parse_encoded hwell (by decide) hat]
  decide

/-- A well-formed list is laid out for the parser, which therefore stays inside. -/
theorem laid_encoded : ∀ (opts : List Opt) (p : Nat), (∀ x ∈ opts, x.WellFormed) →
    At mem p (encode opts ++ [DHCP_OPTION_ID_END]) → p + (encode opts).length < sizeofMsg →
      Laid mem p := by
  intro opts
  induction opts with
  | nil =>
    intro p _ hat hfit
    exact .fin hfit (at_cons hat).1
  | cons x opts ih =>
    intro p hwell hat hfit
    have hopts : ∀ y ∈ opts, y.WellFormed := fun y hy => hwell y (List.mem_cons_of_mem _ hy)
    have hx := hwell x List.mem_cons_self
    obtain ⟨hbytes, hrest⟩ := at_encode_cons hat
    rw [length_encode_cons] at hfit
    cases x with
    | pad =>
      have hpad : Opt.pad.bytes.length = 1 := rfl
      rw [hpad] at hfit
      exact .pad (at_cons hbytes).1 (ih (p + 1) hopts hrest (by omega))
    | value code v =>
      obtain ⟨hcode, hn, hsize⟩ := value_at hbytes hx
      rw [hsize] at hrest hfit
      refine .option (hcode ▸ hx.1) (hcode ▸ hx.2.1) (fun hw => ?_) ?_
      · have hfour := hx.2.2.2.2 (hcode ▸ hw)
        omega
      · rw [hn.1, Nat.add_assoc]
        exact ih _ hopts hrest (by omega)

end Nl6621.Dhcp
