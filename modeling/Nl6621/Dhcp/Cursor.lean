import Mathlib.Logic.Relation
import Nl6621.Dhcp.Stale

/-!
# Where the option parser reads

`_ParseDhcpOptions` walks over the options with a cursor.  It looks at the code under the cursor
before it compares the cursor with the end of the structure, and it copies one or four bytes of a
value whatever its length byte says.  So the comparison alone does not keep the parser inside: the
options need an end of their own.

`Laid mem p` is the layout the parser relies on, as a grammar of the bytes from `p` on: pads and
options one after the other up to an END inside the structure, with four bytes of room behind the
options for addresses.  `parser_inside_iff` says that the parser stays inside exactly on this
layout; it comes to an end on any.
-/

namespace Nl6621.Dhcp

variable {mem mem' : Nat → UInt8} {p p' q k : Nat} {o : Options}

/-! ### The cursor -/

/-- The condition of the loop. -/
def Goes (mem : Nat → UInt8) (p : Nat) : Prop := mem p ≠ DHCP_OPTION_ID_END ∧ p < sizeofMsg

instance : Decidable (Goes mem p) := inferInstanceAs (Decidable (_ ∧ _))

/-- Where the cursor goes from the option at `p`. -/
def advance (mem : Nat → UInt8) (p : Nat) : Nat :=
  if mem p = DHCP_OPTION_ID_PAD then p + 1 else p + 2 + (mem (p + 1)).toNat

/-- One round of the loop. -/
def Round (mem : Nat → UInt8) (p p' : Nat) : Prop := Goes mem p ∧ p' = advance mem p

/-- The cursor comes from `p` to `q`. -/
abbrev Visits (mem : Nat → UInt8) : Nat → Nat → Prop := Relation.ReflTransGen (Round mem)

/-- The bytes of the value that are copied. -/
def valueReads (mem : Nat → UInt8) (p : Nat) : List Nat :=
  if mem p = DHCP_OPTION_ID_MSG_TYPE then [p + 2]
  else if mem p = DHCP_OPTION_ID_REQ_IP_ADDR ∨ mem p = DHCP_OPTION_ID_SERVER_ID then
    [p + 2, p + 3, p + 4, p + 5]
  else []

/-- The bytes read with the cursor at `p`: the code, and if the round is made for an option its
length byte and what is copied of its value. -/
def reads (mem : Nat → UInt8) (p : Nat) : List Nat :=
  p :: if Goes mem p ∧ mem p ≠ DHCP_OPTION_ID_PAD then (p + 1) :: valueReads mem p else []

theorem advance_pad (h : mem p = DHCP_OPTION_ID_PAD) : advance mem p = p + 1 := if_pos h

theorem advance_option (h : mem p ≠ DHCP_OPTION_ID_PAD) :
    advance mem p = p + 2 + (mem (p + 1)).toNat := if_neg h

theorem lt_advance (mem : Nat → UInt8) (p : Nat) : p < advance mem p := by
  rw [advance]
  split <;> omega

theorem mem_reads_self (mem : Nat → UInt8) (p : Nat) : p ∈ reads mem p := List.mem_cons_self

theorem mem_reads_length (hg : Goes mem p) (h : mem p ≠ DHCP_OPTION_ID_PAD) :
    p + 1 ∈ reads mem p := by
  rw [reads, if_pos ⟨hg, h⟩]
  simp

theorem mem_reads_value (hg : Goes mem p) (h : mem p ≠ DHCP_OPTION_ID_PAD)
    (hq : q ∈ valueReads mem p) : q ∈ reads mem p := by
  rw [reads, if_pos ⟨hg, h⟩]
  simp [hq]

/-- The value bytes lie in the five bytes behind the code, and only those of an address go farther
than the first. -/
theorem valueReads_lt (h : q ∈ valueReads mem p) :
    q = p + 2 ∨ ((mem p = DHCP_OPTION_ID_REQ_IP_ADDR ∨ mem p = DHCP_OPTION_ID_SERVER_ID) ∧
      q < p + 6) := by
  rw [valueReads] at h
  split at h
  · left
    simpa using h
  · split at h
    · rename_i hw
      simp only [List.mem_cons, List.not_mem_nil, or_false] at h
      exact Or.inr ⟨hw, by omega⟩
    · cases h

/-- The last of the four bytes of an address. -/
theorem mem_reads_address (hp : p < sizeofMsg)
    (hw : mem p = DHCP_OPTION_ID_REQ_IP_ADDR ∨ mem p = DHCP_OPTION_ID_SERVER_ID) :
    p + 5 ∈ reads mem p := by
  have hne : mem p ≠ DHCP_OPTION_ID_END ∧ mem p ≠ DHCP_OPTION_ID_PAD ∧
      mem p ≠ DHCP_OPTION_ID_MSG_TYPE := by
    rcases hw with h | h <;> rw [h] <;> decide
  refine mem_reads_value ⟨hne.1, hp⟩ hne.2.1 ?_
  rw [valueReads, if_neg hne.2.2, if_pos hw]
  simp

/-! ### The rounds are those of the parser -/

theorem parseLoop_halt (h : ¬Goes mem p) (o : Options) : parseLoop mem k p o = o := by
  cases k with
  | zero => rfl
  | succ k =>
    rw [Goes] at h
    rw [parseLoop, if_neg h]

theorem readOption_pad (h : mem p = DHCP_OPTION_ID_PAD) (o : Options) : readOption mem p o = o := by
  rw [readOption, h, if_neg (by decide), if_neg (by decide), if_neg (by decide)]

theorem parseLoop_round (h : Goes mem p) (o : Options) :
    parseLoop mem (k + 1) p o = parseLoop mem k (advance mem p) (readOption mem p o) := by
  by_cases hpad : mem p = DHCP_OPTION_ID_PAD
  · rw [parseLoop_pad h.2 hpad, advance_pad hpad, readOption_pad hpad]
  · rw [parseLoop_option h.2 h.1 hpad, advance_option hpad]

theorem readOption_agree (hg : Goes mem p) (h : ∀ a ∈ reads mem p, mem' a = mem a)
    (o : Options) : readOption mem' p o = readOption mem p o := by
  have hcode := h p (mem_reads_self mem p)
  by_cases hpad : mem p = DHCP_OPTION_ID_PAD
  · rw [readOption_pad (hcode.trans hpad), readOption_pad hpad]
  have hval : ∀ a ∈ valueReads mem p, mem' a = mem a :=
    fun a ha => h a (mem_reads_value hg hpad ha)
  have hword : (mem p = DHCP_OPTION_ID_REQ_IP_ADDR ∨ mem p = DHCP_OPTION_ID_SERVER_ID) →
      mem p ≠ DHCP_OPTION_ID_MSG_TYPE → word mem' (p + 2) = word mem (p + 2) := by
    intro hw hty
    rw [valueReads, if_neg hty, if_pos hw] at hval
    refine word_congr fun a h1 h2 => hval a ?_
    simp only [List.mem_cons, List.not_mem_nil, or_false]
    omega
  rw [readOption, readOption, hcode]
  by_cases hty : mem p = DHCP_OPTION_ID_MSG_TYPE
  · rw [valueReads, if_pos hty] at hval
    rw [if_pos hty, if_pos hty, hval (p + 2) List.mem_cons_self]
  rw [if_neg hty, if_neg hty]
  by_cases hreq : mem p = DHCP_OPTION_ID_REQ_IP_ADDR
  · rw [if_pos hreq, if_pos hreq, hword (Or.inl hreq) hty]
  rw [if_neg hreq, if_neg hreq]
  by_cases hid : mem p = DHCP_OPTION_ID_SERVER_ID
  · rw [if_pos hid, if_pos hid, hword (Or.inr hid) hty]
  · rw [if_neg hid, if_neg hid]

/-- **Nothing but what is read matters**: `reads` misses no byte the parser looks at. -/
theorem parseLoop_agree : ∀ (k p : Nat) (o : Options),
    (∀ q, Visits mem p q → ∀ a ∈ reads mem q, mem' a = mem a) →
      parseLoop mem' k p o = parseLoop mem k p o := by
  intro k
  induction k with
  | zero => intro p o _; rfl
  | succ k ih =>
    intro p o h
    have hp := h p .refl
    have hcode := hp p (mem_reads_self mem p)
    have hsame : Goes mem' p ↔ Goes mem p := by rw [Goes, Goes, hcode]
    by_cases hg : Goes mem p
    · have hadv : advance mem' p = advance mem p := by
        by_cases hpad : mem p = DHCP_OPTION_ID_PAD
        · rw [advance_pad hpad, advance_pad (hcode.trans hpad)]
        · rw [advance_option hpad, advance_option (by rwa [hcode]),
            hp (p + 1) (mem_reads_length hg hpad)]
      rw [parseLoop_round hg, parseLoop_round (hsame.mpr hg), hadv, readOption_agree hg hp]
      exact ih _ _ fun q hq => h q (.head ⟨hg, rfl⟩ hq)
    · rw [parseLoop_halt hg, parseLoop_halt (mt hsame.mp hg)]

/-! ### The loop terminates -/

/-- The loop comes to a cursor from which it does not go on. -/
def Terminates (mem : Nat → UInt8) : Prop :=
  ∃ q, Visits mem optionsOffset q ∧ ∀ q', ¬Round mem q q'

theorem exists_last (mem : Nat → UInt8) : ∀ n p : Nat, sizeofMsg ≤ p + n →
    ∃ q, Visits mem p q ∧ ∀ q', ¬Round mem q q' := by
  intro n
  induction n with
  | zero =>
    intro p hn
    refine ⟨p, .refl, fun q' h => ?_⟩
    have hlt := h.1.2
    omega
  | succ n ih =>
    intro p hn
    by_cases hg : Goes mem p
    · have hlt := lt_advance mem p
      obtain ⟨q, hq, hlast⟩ := ih (advance mem p) (by omega)
      exact ⟨q, .head ⟨hg, rfl⟩ hq, hlast⟩
    · exact ⟨p, .refl, fun q' h => hg h.1⟩

/-- Whatever the bytes are, the loop terminates. -/
theorem terminates (mem : Nat → UInt8) : Terminates mem :=
  exists_last mem sizeofMsg optionsOffset (Nat.le_add_left _ _)

/-! ### The layout -/

/-- Pads and options up to an END inside the structure, with room for the addresses. -/
inductive Laid (mem : Nat → UInt8) : Nat → Prop
  | fin {p : Nat} (hp : p < sizeofMsg) (h : mem p = DHCP_OPTION_ID_END) : Laid mem p
  | pad {p : Nat} (h : mem p = DHCP_OPTION_ID_PAD) (rest : Laid mem (p + 1)) : Laid mem p
  | option {p : Nat} (hpad : mem p ≠ DHCP_OPTION_ID_PAD) (hend : mem p ≠ DHCP_OPTION_ID_END)
      (room : mem p = DHCP_OPTION_ID_REQ_IP_ADDR ∨ mem p = DHCP_OPTION_ID_SERVER_ID →
        p + 6 ≤ sizeofMsg)
      (rest : Laid mem (p + 2 + (mem (p + 1)).toNat)) : Laid mem p

theorem Laid.lt (h : Laid mem p) : p < sizeofMsg := by
  induction h with
  | fin hp _ => exact hp
  | pad _ _ ih => omega
  | option _ _ _ _ ih => omega

theorem Laid.exists_end (h : Laid mem p) :
    ∃ e, p ≤ e ∧ e < sizeofMsg ∧ mem e = DHCP_OPTION_ID_END := by
  induction h with
  | @fin p hp h => exact ⟨p, Nat.le_refl p, hp, h⟩
  | pad _ _ ih =>
    obtain ⟨e, hle, he⟩ := ih
    exact ⟨e, by omega, he⟩
  | option _ _ _ _ ih =>
    obtain ⟨e, hle, he⟩ := ih
    exact ⟨e, by omega, he⟩

/-- With the cursor on a laid-out option all reads are inside. -/
theorem Laid.reads_lt (h : Laid mem p) : ∀ a ∈ reads mem p, a < sizeofMsg := by
  intro a ha
  have hp := h.lt
  rw [reads] at ha
  rcases List.mem_cons.mp ha with rfl | ha
  · exact hp
  split at ha
  · rename_i hg
    cases h with
    | fin _ h => exact absurd h hg.1.1
    | pad h _ => exact absurd h hg.2
    | option _ _ room rest =>
      have hrest := rest.lt
      rcases List.mem_cons.mp ha with rfl | ha
      · omega
      · rcases valueReads_lt ha with rfl | ⟨hw, hlt⟩
        · omega
        · have := room hw
          omega
  · cases ha

theorem Laid.next (h : Laid mem p) (hr : Round mem p p') : Laid mem p' := by
  obtain ⟨hg, rfl⟩ := hr
  cases h with
  | fin _ h => exact absurd h hg.1
  | pad h rest => rwa [advance_pad h]
  | option hpad _ _ rest => rwa [advance_option hpad]

theorem Laid.visits (h : Laid mem p) (hv : Visits mem p q) : Laid mem q := by
  induction hv with
  | refl => exact h
  | tail _ hr ih => exact ih.next hr

/-- If no read from `p` on is outside, the bytes from `p` on are laid out. -/
theorem laid_of_inside : ∀ n p : Nat, sizeofMsg ≤ p + n →
    (∀ q, Visits mem p q → ∀ a ∈ reads mem q, a < sizeofMsg) → Laid mem p := by
  intro n
  induction n with
  | zero =>
    intro p hn h
    have hp := h p .refl p (mem_reads_self mem p)
    omega
  | succ n ih =>
    intro p hn h
    have hp := h p .refl p (mem_reads_self mem p)
    by_cases hend : mem p = DHCP_OPTION_ID_END
    · exact .fin hp hend
    have hg : Goes mem p := ⟨hend, hp⟩
    have hlt := lt_advance mem p
    have hnext : Laid mem (advance mem p) :=
      ih _ (by omega) fun q hq => h q (.head ⟨hg, rfl⟩ hq)
    by_cases hpad : mem p = DHCP_OPTION_ID_PAD
    · rw [advance_pad hpad] at hnext
      exact .pad hpad hnext
    · rw [advance_option hpad] at hnext
      exact .option hpad hend (fun hw => h p .refl (p + 5) (mem_reads_address hp hw)) hnext

/-! ### Staying inside -/

/-- No round reads a byte outside the structure. -/
def StaysInMessage (mem : Nat → UInt8) : Prop :=
  ∀ q, Visits mem optionsOffset q → ∀ a ∈ reads mem q, a < sizeofMsg

theorem Laid.staysInMessage (h : Laid mem optionsOffset) : StaysInMessage mem :=
  fun _ hq => (h.visits hq).reads_lt

theorem StaysInMessage.laid (h : StaysInMessage mem) : Laid mem optionsOffset :=
  laid_of_inside sizeofMsg optionsOffset (Nat.le_add_left _ _) h

/-- **Where the parser stays inside the structure**: exactly on options that are laid out up to
an END.  It terminates on all.  A round of `parseLoop` goes to `advance` (`parseLoop_round`) until it
stops (`parseLoop_halt`), and depends on the bytes in `reads` alone (`parseLoop_agree`). -/
theorem parser_inside_iff (mem : Nat → UInt8) :
    StaysInMessage mem ∧ Terminates mem ↔ Laid mem optionsOffset :=
  ⟨fun h => h.1.laid, fun h => ⟨h.staysInMessage, terminates mem⟩⟩

/-- Options of pads only: the cursor comes to the end and the code there is read. -/
theorem pads_run_out : ¬(StaysInMessage (fun _ => 0) ∧ Terminates fun _ => 0) := by
  rintro ⟨h, -⟩
  obtain ⟨e, -, -, he⟩ := h.laid.exists_end
  exact absurd he (by decide)

/-! ### What lies behind the structure -/

theorem parseDhcpOptions_behind (h : Laid mem optionsOffset)
    (hsame : ∀ a, a < sizeofMsg → mem' a = mem a) :
    parseDhcpOptions mem' = parseDhcpOptions mem :=
  parseLoop_agree _ _ _ fun q hq a ha => hsame a (h.staysInMessage q hq a ha)

theorem acceptMsg_behind (h : Laid mem optionsOffset)
    (hsame : ∀ a, a < sizeofMsg → mem' a = mem a) (n : Nat) :
    acceptMsg n mem' = acceptMsg n mem := by
  have hword : ∀ off, off + 4 ≤ sizeofMsg → word mem' off = word mem off :=
    fun off hoff => word_congr fun k _ hk => hsame k (by omega)
  have hmac : ∀ k : Fin 6, mem' (28 + k.val) = mem (28 + k.val) :=
    fun k => hsame _ (by rw [sizeofMsg]; omega)
  rw [acceptMsg, acceptMsg, parseDhcpOptions_behind h hsame, hsame 0 (by decide),
    hsame 1 (by decide), hword 236 (by decide), hword 4 (by decide)]
  simp only [hmac]

/-- **With laid-out options the callback does not depend on what lies behind the structure.** -/
theorem dhcpsRecvCb_behind {p : List UInt8} {after after' : Nat → UInt8} {srv : Server}
    (h : Laid (received p after srv) optionsOffset) (pbuf : Bool) :
    dhcpsRecvCb p after' pbuf srv = dhcpsRecvCb p after pbuf srv := by
  have hsame : ∀ a, a < sizeofMsg → received p after' srv a = received p after srv a := by
    intro a ha
    rw [received, received, if_pos ha, if_pos ha]
  rw [dhcpsRecvCb, dhcpsRecvCb, requestOf, requestOf, acceptMsg_behind h hsame]

end Nl6621.Dhcp
