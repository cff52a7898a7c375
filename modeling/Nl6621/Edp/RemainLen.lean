import Nl6621.Edp.Framing

/-!
# The two length decoders

The length field of a packet is read twice: `IsPkgComplete` walks over its digits to see whether
the packet is there, and `ReadRemainlen` decodes it again when the packet is taken apart.
`length_decoders_agree` says that the two agree, and that what `WriteRemainlen` writes is read back
and is as short as can be.

The two count their digits differently.  `IsPkgComplete` compares its counter before it takes a
digit and `ReadRemainlen` after, and both come to four; a fifth digit is an error for both.
-/

namespace Nl6621.Edp

open Lib

/-- `n` is what `IsPkgComplete` may answer on the bytes `bs`. -/
structure Answers (bs : List UInt8) (n : Int) : Prop where
  le : n ≤ bs.length
  /-- -1 is for four digits that all ask for another one -/
  error : n = -1 ↔ 5 ≤ bs.length ∧ ∀ b ∈ (bs.drop 1).take 4, b.toNat &&& 0x80 ≠ 0
  /-- on the first `n` bytes, behind the type, the other decoder finds the number of bytes it
  leaves unread -/
  unread : 0 < n → ∀ pkg : Buffer, pkg.readPos = 1 → pkg.writePos = n.toNat →
    pkg.data.Holds (bs.take n.toNat) → pkg.data.length < 2 ^ 32 →
      ∃ v pkg', readRemainlen pkg = .ok (.ok v, pkg') ∧ pkg'.writePos = pkg.writePos ∧
        pkg'.readPos + v = pkg.writePos

/-- `ds` is a length field for `v` that cannot be shorter. -/
structure Encodes (v : Nat) (ds : List UInt8) : Prop where
  pos : 1 ≤ ds.length
  le : ds.length ≤ 4
  minimal : ∀ k, 1 ≤ k → k < ds.length → 128 ^ k ≤ v
  /-- it is read back, and the cursor stops behind it -/
  reads : ∀ (pkg : Buffer) (pre rest : List UInt8), Reading pkg pre (ds ++ rest) →
    ∃ pkg', readRemainlen pkg = .ok (.ok v, pkg') ∧ pkg'.readPos = pre.length + ds.length

theorem continues_iff (b : UInt8) : b.toNat &&& 0x80 ≠ 0 ↔ 128 ≤ b.toNat := by
  rw [ne_eq, land_128_eq_zero b.toNat_lt, not_lt]

theorem frameLen_eq_neg_one_iff (bs : List UInt8) :
    frameLen bs = -1 ↔ 5 ≤ bs.length ∧ ∀ b ∈ (bs.drop 1).take 4, b.toNat &&& 0x80 ≠ 0 := by
  cases bs with
  | nil => simp [frameLen]
  | cons t tl =>
    have hlong := decodeLen_long_iff 3 tl
    simp only [continues_iff, List.drop_succ_cons, List.drop_zero, List.length_cons]
    rw [frameLen]
    cases hd : decodeLen 3 tl with
    | short =>
      rw [hd] at hlong
      constructor
      · intro h
        cases h
      · intro h
        cases hlong.mpr ⟨by omega, h.2⟩
    | long =>
      obtain ⟨hlen, hall⟩ := hlong.mp hd
      exact ⟨fun _ => ⟨by omega, hall⟩, fun _ => rfl⟩
    | done v rest =>
      rw [hd] at hlong
      constructor
      · intro h
        simp only at h
        split at h
        · omega
        · omega
      · intro h
        cases hlong.mpr ⟨by omega, h.2⟩

/-- A complete packet is its type, its length field and the bytes of which this is the number. -/
theorem frame_parts {bs : List UInt8} (h : 0 < frameLen bs) :
    ∃ t ds body v rest, bs = t :: (ds ++ (body ++ rest)) ∧ v = body.length ∧ 1 ≤ ds.length ∧
      ds.length ≤ 4 ∧ v < 2 ^ 28 ∧ (∀ tail, decodeLen 3 (ds ++ tail) = .done v tail) ∧
      (frameLen bs).toNat = 1 + ds.length + v := by
  obtain ⟨t, tl, v, r, rfl, hd, hv, hlen⟩ := frameLen_pos h
  obtain ⟨ds, rfl, h1, h2, h3, h4⟩ := decodeLen_done 3 tl v r hd
  refine ⟨t, ds, r.take v, v, r.drop v, ?_, ?_, h1, h2, by omega, h4, ?_⟩
  · rw [List.take_append_drop]
  · rw [List.length_take]
    omega
  · rw [hlen, Int.toNat_natCast, List.length_append]
    omega

theorem answers_frameLen (bs : List UInt8) : Answers bs (frameLen bs) where
  le := frameLen_le bs
  error := frameLen_eq_neg_one_iff bs
  unread := by
    intro hpos pkg hread hwrite hholds hsize
    obtain ⟨t, ds, body, v, rest, hbs, hv, -, hds, hlt, hdec, hlen⟩ := frame_parts hpos
    have htake : bs.take (frameLen bs).toNat = [t] ++ (ds ++ body) := by
      rw [hlen, hbs, Nat.add_assoc, Nat.add_comm, List.take_succ_cons, hv, ← List.append_assoc,
        ← List.length_append, List.take_left]
      rfl
    rw [htake] at hholds
    have hr : Reading pkg [t] (ds ++ body) := by
      refine ⟨hread, ?_, hholds, ?_, hsize⟩
      · rw [hwrite, hlen, List.length_singleton, List.length_append]
        omega
      · omega
    obtain ⟨pkg', pre', hrun, hr', hw'⟩ := readRemainlen_takes hr (hdec body)
    refine ⟨v, pkg', hrun, hw', ?_⟩
    rw [← hw', hr'.readPos, hr'.writePos, hv]

theorem encodes_encodeRemainlen {v : Nat} (hv : v < 2 ^ 28) : Encodes v (encodeRemainlen v) where
  pos := length_lenDigits_pos 3 v
  le := length_lenDigits_le 3 v
  minimal := pow_le_of_lt_length_lenDigits 3 v
  reads := by
    intro pkg pre rest h
    have hd : decodeLen 3 (encodeRemainlen v ++ rest) = .done v rest :=
      decodeLen_lenDigits 3 v (by omega) rest
    obtain ⟨pkg', pre', hrun, hr, hw⟩ := readRemainlen_takes h hd
    refine ⟨pkg', hrun, ?_⟩
    have hold := h.writePos
    have hnew := hr.writePos
    rw [List.length_append] at hold
    rw [hr.readPos]
    omega

/-- **The two decoders agree.**  `IsPkgComplete` depends on the bytes up to the write position
only, also when the object ends there, and its answer fits what `ReadRemainlen` makes of them.
`WriteRemainlen`, where there is room for the digits, returns and writes a length field that cannot be
shorter and is read back. -/
theorem length_decoders_agree {buf out : Buffer} {bs pre : List UInt8} {v : Nat}
    (hbuf : Contains buf bs) (hv : v < 2 ^ 28) (hout : Filled out pre)
    (hroom : pre.length + (encodeRemainlen v).length ≤ out.capacity) :
    (∃ n, isPkgComplete buf = .ok n ∧ Answers bs n ∧
      isPkgComplete { buf with data := bs.map some } = .ok n) ∧
    ∃ ds out', writeRemainlen v out = .ok (.ok (), out') ∧ Filled out' (pre ++ ds) ∧
      Encodes v ds := by
  have hcut : Contains { buf with data := bs.map some } bs := by
    refine ⟨hbuf.writePos, ?_⟩
    have hall := Block.holds_append bs []
    rwa [List.append_nil] at hall
  obtain ⟨out', hrun, hf⟩ := writeRemainlen_filled hout hv hroom
  exact ⟨⟨frameLen bs, isPkgComplete_of_contains hbuf, answers_frameLen bs,
      isPkgComplete_of_contains hcut⟩,
    encodeRemainlen v, out', hrun, hf, encodes_encodeRemainlen hv⟩

/-- A `PINGRESP` has come, and a buffer is fresh. -/
theorem length_decoders_agree_ping :
    (∃ n, isPkgComplete ⟨[some 0xd0, some 0], 2, 0, bufferSize⟩ = .ok n ∧ Answers [0xd0, 0] n ∧
      isPkgComplete ⟨[some 0xd0, some 0], 2, 0, bufferSize⟩ = .ok n) ∧
    ∃ ds out', writeRemainlen 300 newBuffer = .ok (.ok (), out') ∧ Filled out' ([] ++ ds) ∧
      Encodes 300 ds := by
  have hping : Contains ⟨[some 0xd0, some 0], 2, 0, bufferSize⟩ [0xd0, 0] := ⟨rfl, rfl⟩
  exact length_decoders_agree hping (by decide) filled_newBuffer (by decide)

end Nl6621.Edp
