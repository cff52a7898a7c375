import Nl6621.Dhcp.Stale
import Nl6621.Dhcp.History
import Nl6621.Lib.Words

/-!
# How the last datagram shows through

The converse of `independent_of_settles`: when a datagram does not settle, there are a
network, a table and two contents of the buffer for which it has different effects.  The
buffer can hold anything, since a datagram that is dropped stays in it and leaves the table as
it is.

`leaks_of_not_settle` follows the parser to the place where a stale byte decides.  There are
three ways on: a stale option changes the type of the message, and with it whether there is
a reply at all; the requested address is stale, which is seen in whether the client is moved
to another entry; or the server id is stale, which is seen in whether there is an ACK.
-/

namespace Nl6621.Dhcp

open Lib

variable {srv srv' : Server} {q q' : Request} {n k p : Nat} {b s s' : Nat → UInt8} {t : Kept}
  {O : (Nat → UInt8) → Options} {d : List UInt8}

/-! ### The parser on a buffer filled up -/

/-- The message of `n` bytes `b` with `s` behind it. -/
def filled (n : Nat) (b s : Nat → UInt8) : Nat → UInt8 := fun k => if k < n then b k else s k

theorem filled_own (h : k < n) : filled n b s k = b k := if_pos h

theorem filled_stale (h : n ≤ k) : filled n b s k = s k := if_neg (by omega)

/-- The message gets a reply. -/
def Options.replies (o : Options) : Bool :=
  o.ret &&& 0x01 ≠ 0 && (o.msgType ≠ DHCP_MSG_RELEASE && o.msgType ≠ DHCP_MSG_DECLINE)

/-- What the parser knows of the message is true whatever is behind it. -/
structure Tracks (n : Nat) (b : Nat → UInt8) (t : Kept) (O : (Nat → UInt8) → Options) : Prop where
  msgType : ∀ s, (O s).msgType = t.msgType
  ret : ∀ s s', (O s).ret &&& 0x01 = (O s').ret &&& 0x01
  typed : t.msgType ≠ 0xff → ∀ s, (O s).ret &&& 0x01 = 0x01
  req : t.reqStale = true →
    ∃ a, staleWord n a = true ∧ ∀ s, (O s).reqIpAddr = word (filled n b s) a
  id : t.idStale = true →
    ∃ a, staleWord n a = true ∧ ∀ s, (O s).serverId = word (filled n b s) a

/-- Stale bytes decide about the message. -/
def Leaks (n : Nat) (b : Nat → UInt8) (O : (Nat → UInt8) → Options) : Prop :=
  (∃ s s', (∀ k, sizeofMsg ≤ k → s k = s' k) ∧ (O s).replies ≠ (O s').replies) ∨
  (∃ ty a, (ty = DHCP_MSG_DISCOVER ∨ ty = DHCP_MSG_REQUEST) ∧ staleWord n a = true ∧
    ∀ s, s sizeofMsg = ty → (O s).msgType = ty ∧ (O s).ret &&& 0x01 = 0x01 ∧
      (O s).reqIpAddr = word (filled n b s) a) ∨
  (∃ a, staleWord n a = true ∧
    ∀ s, s sizeofMsg = DHCP_MSG_REQUEST → (O s).msgType = DHCP_MSG_REQUEST ∧
      (O s).ret &&& 0x01 = 0x01 ∧ (O s).serverId = word (filled n b s) a)

theorem Tracks.leaks (h : Tracks n b t O) (hh : t.harmless = false) : Leaks n b O := by
  obtain ⟨ty, rs, is⟩ := t
  simp only [Kept.harmless, Bool.and_eq_false_iff, Bool.or_eq_false_iff, decide_eq_false_iff_not,
    not_not, Bool.not_eq_false'] at hh
  rcases hh with ⟨hd, hr⟩ | ⟨hq, hr | hi⟩
  · obtain ⟨a, ha, hw⟩ := h.req hr
    have hne : ty ≠ 0xff := by rw [hd]; decide
    exact .inr (.inl ⟨ty, a, .inl hd, ha, fun s _ => ⟨h.msgType s, h.typed hne s, hw s⟩⟩)
  · obtain ⟨a, ha, hw⟩ := h.req hr
    have hne : ty ≠ 0xff := by rw [hq]; decide
    exact .inr (.inl ⟨ty, a, .inr hq, ha, fun s _ => ⟨h.msgType s, h.typed hne s, hw s⟩⟩)
  · obtain ⟨a, ha, hw⟩ := h.id hi
    have hne : ty ≠ 0xff := by rw [hq]; decide
    exact .inr (.inr ⟨a, ha, fun s _ => ⟨(h.msgType s).trans hq, h.typed hne s, hw s⟩⟩)

/-- An option that is not the type of the message. -/
theorem Tracks.readOther (h : Tracks n b t O) (hp : p < n) (h53 : b p ≠ DHCP_OPTION_ID_MSG_TYPE) :
    Tracks n b (keepOption n b p t) fun s => readOption (filled n b s) p (O s) := by
  simp only [readOption, keepOption, filled_own hp, if_neg h53]
  by_cases h50 : b p = DHCP_OPTION_ID_REQ_IP_ADDR
  · simp only [if_pos h50]
    refine ⟨h.msgType, fun s s' => ?_, fun hne s => ?_, fun hs => ⟨p + 2, hs, fun s => rfl⟩, h.id⟩
    · rw [or_and_other rfl, or_and_other rfl]
      exact h.ret s s'
    · rw [or_and_other rfl]
      exact h.typed hne s
  simp only [if_neg h50]
  by_cases h54 : b p = DHCP_OPTION_ID_SERVER_ID
  · simp only [if_pos h54]
    refine ⟨h.msgType, fun s s' => ?_, fun hne s => ?_, h.req, fun hs => ⟨p + 2, hs, fun s => rfl⟩⟩
    · rw [or_and_other rfl, or_and_other rfl]
      exact h.ret s s'
    · rw [or_and_other rfl]
      exact h.typed hne s
  simp only [if_neg h54]
  exact h

theorem readOption_type {mem : Nat → UInt8} (h : mem p = DHCP_OPTION_ID_MSG_TYPE) (o : Options) :
    readOption mem p o = { o with msgType := mem (p + 2), ret := o.ret ||| 0x01 } := by
  rw [readOption, if_pos h]

theorem Tracks.readType (h : Tracks n b t O) (hp : p + 2 < n)
    (h53 : b p = DHCP_OPTION_ID_MSG_TYPE) :
    Tracks n b (keepOption n b p t) fun s => readOption (filled n b s) p (O s) := by
  have hr : ∀ s, readOption (filled n b s) p (O s) =
      { O s with msgType := b (p + 2), ret := (O s).ret ||| 0x01 } := by
    intro s
    rw [readOption_type ((filled_own (by omega)).trans h53), filled_own hp]
  rw [keepOption, if_pos h53]
  simp only [hr]
  exact ⟨fun _ => rfl, fun _ _ => by rw [or_and_self, or_and_self], fun _ _ => or_and_self _ _, h.req, h.id⟩

/-- The replies to a message of a type that was just read. -/
theorem replies_typed (o : Options) (ty : UInt8) :
    ({ o with msgType := ty, ret := o.ret ||| 0x01 } : Options).replies =
      (ty ≠ DHCP_MSG_RELEASE && ty ≠ DHCP_MSG_DECLINE) := by
  simp [Options.replies, or_and_self]

/-- Options that end at once. -/
theorem parseLoop_ends {mem : Nat → UInt8} (h : p < sizeofMsg → mem p = DHCP_OPTION_ID_END)
    (o : Options) : parseLoop mem k p o = o := by
  by_cases hp : p < sizeofMsg
  · exact parseLoop_end (h hp) o
  · exact parseLoop_stop (by omega) o

/-- An option for the type `ty` at `p`, with `c` before it and nothing behind it. -/
def typeAt (c : Nat → UInt8) (p : Nat) (ty : UInt8) : Nat → UInt8 := fun k =>
  if k < p then c k else if k = p then DHCP_OPTION_ID_MSG_TYPE else if k = p + 1 then 1
  else if k = p + 2 then ty else DHCP_OPTION_ID_END

/-- The same, but that the options end at `p`. -/
def endAt (c : Nat → UInt8) (p : Nat) (ty : UInt8) : Nat → UInt8 := fun k =>
  if k = p then DHCP_OPTION_ID_END else typeAt c p ty k

/-- **A stale option code decides**: it can end the options or bring another type. -/
theorem leaks_at_code (hk : 0 < k) (hn : n ≤ p) (hp : p < sizeofMsg) (c : Nat → UInt8)
    (hO : ∀ s s', (O s).msgType = (O s').msgType ∧ (O s).ret &&& 0x01 = (O s').ret &&& 0x01) :
    ∃ s s', (∀ k, k < p → s k = c k ∧ s' k = c k) ∧ (∀ k, sizeofMsg ≤ k → s k = s' k) ∧
      (parseLoop (filled n b s) k p (O s)).replies ≠
        (parseLoop (filled n b s') k p (O s')).replies := by
  have hc : ∀ s s', (O s).replies = (O s').replies := by
    intro s s'
    rw [Options.replies, Options.replies, (hO s s').1, (hO s s').2]
  obtain ⟨k, rfl⟩ : ∃ k', k = k' + 1 := ⟨k - 1, by omega⟩
  -- the type that is answered the other way
  obtain ⟨ty, hty⟩ : ∃ ty : UInt8, (ty ≠ DHCP_MSG_RELEASE && ty ≠ DHCP_MSG_DECLINE) ≠
      (O c).replies := by
    cases (O c).replies with
    | true => exact ⟨DHCP_MSG_RELEASE, by decide⟩
    | false => exact ⟨DHCP_MSG_DISCOVER, by decide⟩
  refine ⟨typeAt c p ty, endAt c p ty, fun k hk => ⟨?_, ?_⟩, fun k hk => ?_, ?_⟩
  · rw [typeAt, if_pos hk]
  · rw [endAt, if_neg (by omega), typeAt, if_pos hk]
  · rw [endAt, if_neg (by omega)]
  · have hcode : filled n b (typeAt c p ty) p = DHCP_OPTION_ID_MSG_TYPE := by
      rw [filled_stale hn, typeAt, if_neg (by omega), if_pos rfl]
    have hlen : filled n b (typeAt c p ty) (p + 1) = 1 := by
      rw [filled_stale (by omega), typeAt, if_neg (by omega), if_neg (by omega), if_pos rfl]
    have hval : filled n b (typeAt c p ty) (p + 2) = ty := by
      rw [filled_stale (by omega), typeAt, if_neg (by omega), if_neg (by omega), if_neg (by omega),
        if_pos rfl]
    have hend : filled n b (endAt c p ty) p = DHCP_OPTION_ID_END := by
      rw [filled_stale hn, endAt, if_pos rfl]
    rw [parseLoop_option hp (by rw [hcode]; decide) (by rw [hcode]; decide), hlen,
      readOption_type hcode, hval, parseLoop_ends, replies_typed, parseLoop_end hend, hc _ c]
    · exact hty
    · intro _
      have hnext : p + 2 + (1 : UInt8).toNat = p + 3 := rfl
      rw [hnext, filled_stale (by omega), typeAt, if_neg (by omega), if_neg (by omega),
        if_neg (by omega), if_neg (by omega)]

/-- The value `ty` at `p`, a byte 0 behind it, and no more options. -/
def valueAt (p : Nat) (ty : UInt8) : Nat → UInt8 := fun k =>
  if k = p then ty else if k = p + 1 then 0 else DHCP_OPTION_ID_END

/-- **A stale type decides.**  The value is the first byte behind the message, and the next
option is read from there on. -/
theorem leaks_at_type (hk : 1 < k) (hn : n = p + 2) (hlt : n < sizeofMsg)
    (h53 : b p = DHCP_OPTION_ID_MSG_TYPE) : Leaks n b fun s => parseLoop (filled n b s) k p (O s) := by
  obtain ⟨k, rfl⟩ : ∃ k', k = k' + 2 := ⟨k - 2, by omega⟩
  have hrun : ∀ ty : UInt8, (ty = DHCP_MSG_RELEASE ∨ ty = DHCP_MSG_DISCOVER) →
      parseLoop (filled n b (valueAt n ty)) (k + 2) p (O (valueAt n ty)) =
        { O (valueAt n ty) with msgType := ty, ret := (O (valueAt n ty)).ret ||| 0x01 } := by
    intro ty hty
    have hcode : filled n b (valueAt n ty) p = DHCP_OPTION_ID_MSG_TYPE :=
      (filled_own (by omega)).trans h53
    have hval : filled n b (valueAt n ty) n = ty := by
      rw [filled_stale le_rfl, valueAt, if_pos rfl]
    have hnext : filled n b (valueAt n ty) (n + 1) = 0 := by
      rw [filled_stale (by omega), valueAt, if_neg (by omega), if_pos rfl]
    have hend : ∀ j, n + 2 ≤ j → filled n b (valueAt n ty) j = DHCP_OPTION_ID_END := by
      intro j hj
      rw [filled_stale (by omega), valueAt, if_neg (by omega), if_neg (by omega)]
    have hne : ty ≠ DHCP_OPTION_ID_END ∧ ty ≠ DHCP_OPTION_ID_PAD ∧ ty ≠ DHCP_OPTION_ID_MSG_TYPE ∧
        ty ≠ DHCP_OPTION_ID_REQ_IP_ADDR ∧ ty ≠ DHCP_OPTION_ID_SERVER_ID := by
      rcases hty with rfl | rfl <;> decide
    rw [parseLoop_option (by omega) (by rw [hcode]; decide) (by rw [hcode]; decide),
      readOption_type hcode, ← hn, hval]
    generalize (filled n b (valueAt n ty) (p + 1)).toNat = len
    match len with
    | 0 =>
      change parseLoop _ (k + 1) n _ = _
      rw [parseLoop_option hlt (by rw [hval]; exact hne.1)
        (by rw [hval]; exact hne.2.1), hnext, readOption, hval, if_neg hne.2.2.1,
        if_neg hne.2.2.2.1, if_neg hne.2.2.2.2, parseLoop_ends]
      exact fun _ => hend _ (by simp)
    | 1 =>
      by_cases hn1 : n + 1 < sizeofMsg
      · rw [parseLoop_pad hn1 hnext, parseLoop_ends]
        exact fun _ => hend _ (by omega)
      · rw [parseLoop_stop (by omega)]
    | len + 2 =>
      rw [parseLoop_ends]
      exact fun _ => hend _ (by omega)
  refine .inl ⟨valueAt n DHCP_MSG_RELEASE, valueAt n DHCP_MSG_DISCOVER, fun j hj => ?_, ?_⟩
  · have hne : j ≠ n := by omega
    simp only [valueAt, if_neg hne]
  · simp only [hrun _ (.inl rfl), hrun _ (.inr rfl), replies_typed]
    decide

/-- A length of one at `p`, the value `ty` behind it, and no more options. -/
def lengthAt (p : Nat) (ty : UInt8) : Nat → UInt8 := fun k =>
  if k = p then 1 else if k = p + 1 then ty else DHCP_OPTION_ID_END

/-- A type whose length and value are stale. -/
theorem leaks_at_type_length (hk : 0 < k) (hn : n = p + 1) (hlt : n + 1 < sizeofMsg)
    (h53 : b p = DHCP_OPTION_ID_MSG_TYPE) : Leaks n b fun s => parseLoop (filled n b s) k p (O s) := by
  obtain ⟨k, rfl⟩ : ∃ k', k = k' + 1 := ⟨k - 1, by omega⟩
  have hrun : ∀ ty : UInt8, parseLoop (filled n b (lengthAt n ty)) (k + 1) p (O (lengthAt n ty)) =
      { O (lengthAt n ty) with msgType := ty, ret := (O (lengthAt n ty)).ret ||| 0x01 } := by
    intro ty
    have hcode : filled n b (lengthAt n ty) p = DHCP_OPTION_ID_MSG_TYPE :=
      (filled_own (by omega)).trans h53
    have hlen : filled n b (lengthAt n ty) (p + 1) = 1 := by
      rw [filled_stale (by omega), lengthAt, if_pos hn.symm]
    have hval : filled n b (lengthAt n ty) (p + 2) = ty := by
      rw [filled_stale (by omega), lengthAt, if_neg (by omega), if_pos (by omega)]
    rw [parseLoop_option (by omega) (by rw [hcode]; decide) (by rw [hcode]; decide),
      readOption_type hcode, hlen, hval, parseLoop_ends]
    intro _
    have hnext : p + 2 + (1 : UInt8).toNat = p + 3 := rfl
    rw [hnext, filled_stale (by omega), lengthAt, if_neg (by omega), if_neg (by omega)]
  refine .inl ⟨lengthAt n DHCP_MSG_RELEASE, lengthAt n DHCP_MSG_DISCOVER, fun j hj => ?_, ?_⟩
  · have hne : j ≠ n + 1 := by omega
    simp only [lengthAt, if_neg hne]
  · simp only [hrun, replies_typed]
    decide

theorem replies_readOther {mem : Nat → UInt8} (h53 : mem p ≠ DHCP_OPTION_ID_MSG_TYPE) (o : Options) :
    (readOption mem p o).msgType = o.msgType ∧
      (readOption mem p o).ret &&& 0x01 = o.ret &&& 0x01 := by
  rw [readOption, if_neg h53]
  split
  · exact ⟨rfl, or_and_other rfl _⟩
  · split
    · exact ⟨rfl, or_and_other rfl _⟩
    · exact ⟨rfl, rfl⟩

/-- Another option whose length is stale: the next one is stale too. -/
theorem Tracks.leaks_at_length (h : Tracks n b t O) (hk : 1 < k) (hn : n = p + 1)
    (hlt : n + 1 < sizeofMsg) (h255 : b p ≠ DHCP_OPTION_ID_END) (hpad : b p ≠ DHCP_OPTION_ID_PAD)
    (h53 : b p ≠ DHCP_OPTION_ID_MSG_TYPE) :
    Leaks n b fun s => parseLoop (filled n b s) k p (O s) := by
  obtain ⟨k, rfl⟩ : ∃ k', k = k' + 1 := ⟨k - 1, by omega⟩
  have hcode : ∀ s, filled n b s p = b p := fun s => filled_own (by omega)
  have hsame : ∀ s s', (readOption (filled n b s) p (O s)).msgType =
      (readOption (filled n b s') p (O s')).msgType ∧
      (readOption (filled n b s) p (O s)).ret &&& 0x01 =
        (readOption (filled n b s') p (O s')).ret &&& 0x01 := by
    intro s s'
    have hne : ∀ s, filled n b s p ≠ DHCP_OPTION_ID_MSG_TYPE := fun s => by rwa [hcode]
    obtain ⟨h1, h2⟩ := replies_readOther (hne s) (O s)
    obtain ⟨h3, h4⟩ := replies_readOther (hne s') (O s')
    exact ⟨by rw [h1, h3, h.msgType, h.msgType], by rw [h2, h4, h.ret s s']⟩
  obtain ⟨s, s', hc, habove, hne⟩ := leaks_at_code (b := b) (by omega : 0 < k)
    (by omega : n ≤ p + 2) (by omega) (fun _ => 0) hsame
  refine .inl ⟨s, s', habove, ?_⟩
  have hstep : ∀ s : Nat → UInt8, s (p + 1) = 0 → parseLoop (filled n b s) (k + 1) p (O s) =
      parseLoop (filled n b s) k (p + 2) (readOption (filled n b s) p (O s)) := by
    intro s hs
    rw [parseLoop_option (by omega) (by rwa [hcode]) (by rwa [hcode]),
      filled_stale (k := p + 1) (by omega), hs]
    rfl
  simp only [hstep s (hc _ (by omega)).1, hstep s' (hc _ (by omega)).2]
  exact hne

/-- The last byte of the buffer is the stale length of the type, and the type is behind the
buffer. -/
theorem Tracks.leaks_at_last (h : Tracks n b t O) (hk : 0 < k) (hn : n = p + 1)
    (hlast : p + 2 = sizeofMsg) (h53 : b p = DHCP_OPTION_ID_MSG_TYPE)
    (hs : (!t.reqStale && !t.idStale) = false) :
    Leaks n b fun s => parseLoop (filled n b s) k p (O s) := by
  obtain ⟨k, rfl⟩ : ∃ k', k = k' + 1 := ⟨k - 1, by omega⟩
  have hrun : ∀ s : Nat → UInt8, parseLoop (filled n b s) (k + 1) p (O s) =
      { O s with msgType := s sizeofMsg, ret := (O s).ret ||| 0x01 } := by
    intro s
    have hcode : filled n b s p = DHCP_OPTION_ID_MSG_TYPE := (filled_own (by omega)).trans h53
    rw [parseLoop_option (by omega) (by rw [hcode]; decide) (by rw [hcode]; decide),
      readOption_type hcode, parseLoop_stop (by omega), filled_stale (by omega), hlast]
  simp only [hrun]
  by_cases hr : t.reqStale = true
  · obtain ⟨a, ha, hw⟩ := h.req hr
    exact .inr (.inl ⟨DHCP_MSG_DISCOVER, a, .inl rfl, ha, fun s hs => ⟨hs, or_and_self _ _, hw s⟩⟩)
  · have hi : t.idStale = true := by simpa [hr] using hs
    obtain ⟨a, ha, hw⟩ := h.id hi
    exact .inr (.inr ⟨a, ha, fun s hs => ⟨hs, or_and_self _ _, hw s⟩⟩)

/-- **Where a message does not settle, stale bytes decide about it.** -/
theorem leaks_of_not_settle (hlt : n < sizeofMsg) : ∀ (k p : Nat) (t : Kept)
    (O : (Nat → UInt8) → Options), sizeofMsg < p + k → Tracks n b t O →
      optionsSettle n b k p t = false → Leaks n b fun s => parseLoop (filled n b s) k p (O s) := by
  intro k
  induction k with
  | zero =>
    intro p t O hk h hs
    exact h.leaks hs
  | succ k ih =>
    intro p t O hk h hs
    rw [optionsSettle] at hs
    by_cases hend : sizeofMsg ≤ p
    · rw [if_pos hend] at hs
      simp only [parseLoop_stop hend]
      exact h.leaks hs
    rw [if_neg hend] at hs
    by_cases hown : n ≤ p
    · obtain ⟨s, s', -, habove, hne⟩ := leaks_at_code (b := b) (by omega : 0 < k + 1) hown
        (by omega) (fun _ => 0) fun s s' => ⟨by rw [h.msgType, h.msgType], h.ret s s'⟩
      exact .inl ⟨s, s', habove, hne⟩
    rw [if_neg hown] at hs
    have hcode : ∀ s, filled n b s p = b p := fun s => filled_own (by omega)
    by_cases h255 : b p = DHCP_OPTION_ID_END
    · rw [if_pos h255] at hs
      simp only [parseLoop_end ((hcode _).trans h255)]
      exact h.leaks hs
    rw [if_neg h255] at hs
    by_cases hpad : b p = DHCP_OPTION_ID_PAD
    · rw [if_pos hpad] at hs
      simp only [parseLoop_pad (Nat.lt_of_not_le hend) ((hcode _).trans hpad)]
      exact ih _ t O (by omega) h hs
    rw [if_neg hpad] at hs
    have hopt : ∀ s, parseLoop (filled n b s) (k + 1) p (O s) = parseLoop (filled n b s) k
        (p + 2 + (filled n b s (p + 1)).toNat) (readOption (filled n b s) p (O s)) :=
      fun s => parseLoop_option (by omega) (by rwa [hcode]) (by rwa [hcode]) _
    by_cases hlen : n ≤ p + 1
    · have hn : n = p + 1 := by omega
      rw [if_pos hlen, Bool.and_eq_false_iff, decide_eq_false_iff_not] at hs
      by_cases hlast : p + 2 = sizeofMsg
      · have hs := hs.resolve_left fun hne => hne hlast
        by_cases h53 : b p = DHCP_OPTION_ID_MSG_TYPE
        · rw [if_pos h53] at hs
          exact h.leaks_at_last (by omega) hn hlast h53 hs
        · rw [if_neg h53] at hs
          have hstop : ∀ s, parseLoop (filled n b s) (k + 1) p (O s) =
              readOption (filled n b s) p (O s) := by
            intro s
            rw [hopt, parseLoop_stop (by omega)]
          simp only [hstop]
          exact (h.readOther (by omega) h53).leaks hs
      · by_cases h53 : b p = DHCP_OPTION_ID_MSG_TYPE
        · exact leaks_at_type_length (by omega) hn (by omega) h53
        · exact h.leaks_at_length (by omega) hn (by omega) h255 hpad h53
    · rw [if_neg hlen, Bool.and_eq_false_iff, Bool.or_eq_false_iff, decide_eq_false_iff_not,
        decide_eq_false_iff_not, not_not] at hs
      have hnext : ∀ s, filled n b s (p + 1) = b (p + 1) := fun s => filled_own (by omega)
      by_cases hty : b p = DHCP_OPTION_ID_MSG_TYPE ∧ ¬ p + 2 < n
      · exact leaks_at_type (by omega) (by omega) (by omega) hty.1
      · have hs := hs.resolve_left hty
        simp only [hopt, hnext]
        refine ih _ _ (fun s => readOption (filled n b s) p (O s)) (by omega) ?_ hs
        by_cases h53 : b p = DHCP_OPTION_ID_MSG_TYPE
        · exact h.readType (by by_contra hge; exact hty ⟨h53, hge⟩) h53
        · exact h.readOther (by omega) h53

end Nl6621.Dhcp
