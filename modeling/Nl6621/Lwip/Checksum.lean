import Nl6621.Lib.Memory
import Nl6621.Lib.OnesComplement

/-!
# The checksums of `inet_chksum.c`

`lwip_standard_chksum` adds the words of a text as the processor loads them, at an odd address with
the first byte on its own, and swaps the bytes of the sum in the end.  For a chain of buffers
`inet_chksum_pbuf` adds the sums of the buffers, with a swap for every buffer of an odd length.

All of it is one sum in one's complement.  `lwipStandardChksum_eq` says so for a text, for lengths
up to `0x20000` as the comment there has it, and `pbufSum_eq` for a chain; the step from one buffer
to the next is `pbufRound_eq`.  So the checksum of a packet does not depend on where its bytes lie
and how they are divided (`chksum_of_chain`), a packet with its checksum in it has the checksum 0
(`chksum_verifies`), and a change of one byte is seen (`chksum_detects`).
-/

namespace Nl6621.Lwip

open Lib

/-! ### The code -/

/-- `while (len > 1) { sum += *ps++; len -= 2; }`, and the byte that is left over. -/
def addWords : List UInt8 → Nat → List UInt8 × Nat
  | b0 :: b1 :: ps, sum => addWords ps (u32 (sum + (b0.toNat + 256 * b1.toNat)))
  | ps, sum => (ps, sum)

/-- `((u8_t *)&t)[0] = *(u8_t *)ps`, if a byte is left over -/
def lowByte (t : Nat) : List UInt8 → Nat
  | b :: _ => t / 256 * 256 + b.toNat
  | [] => t

/-- From the aligned address on.  `t` has the bytes at the two ends. -/
def addAligned (t : Nat) (pb : List UInt8) : Nat :=
  let r := addWords pb 0
  fold (fold (u32 (r.2 + lowByte t r.1)))

/-- `odd` is the address. -/
def lwipStandardChksum (odd : Bool) (dataptr : List UInt8) : Nat :=
  let sum := match odd, dataptr with
    | true, b :: pb => addAligned (256 * b.toNat) pb
    | _, pb => addAligned 0 pb
  if odd then swap sum else sum

/-- `(u16_t)~(acc & 0xffffUL)` -/
def invert (acc : Nat) : Nat := 65535 - acc % 65536

/-- `len` has 16 bits here. -/
def inetChksum (odd : Bool) (dataptr : List UInt8) : Nat := invert (lwipStandardChksum odd dataptr)

/-- What a checksum needs of a `pbuf`: whether `payload` is odd, and the bytes there. -/
structure Pbuf where
  odd : Bool
  payload : List UInt8

/-- `acc` and `swapped` after one buffer more. -/
def pbufRound (s : Nat × Bool) (q : Pbuf) : Nat × Bool :=
  let (acc, swapped) := s
  let acc := fold (u32 (acc + lwipStandardChksum q.odd q.payload))
  if q.payload.length % 2 ≠ 0 then (swap acc, !swapped) else (acc, swapped)

def pbufSum (p : List Pbuf) : Nat :=
  let (acc, swapped) := p.foldl pbufRound (0, false)
  if swapped then swap acc else acc

def inetChksumPbuf (p : List Pbuf) : Nat := invert (pbufSum p)

/-- An address, as its bytes in memory. -/
structure IpAddr where
  (b0 b1 b2 b3 : UInt8)

/-- `ip4_addr_get_u32`, little endian -/
def IpAddr.word (a : IpAddr) : Nat :=
  a.b0.toNat + 256 * a.b1.toNat + 65536 * (a.b2.toNat + 256 * a.b3.toNat)

def htons (n : Nat) : Nat := n % 256 * 256 + n / 256 % 256

def inetChksumPseudo (p : List Pbuf) (src dest : IpAddr) (proto : UInt8) (protoLen : Nat) : Nat :=
  let acc := pbufSum p
  let acc := u32 (acc + src.word % 65536)
  let acc := u32 (acc + src.word / 65536 % 65536)
  let acc := u32 (acc + dest.word % 65536)
  let acc := u32 (acc + dest.word / 65536 % 65536)
  let acc := u32 (acc + htons proto.toNat)
  let acc := u32 (acc + htons protoLen)
  invert (fold (fold acc))

/-! ### One text -/

theorem addWords_spec (pb : List UInt8) {sum : Nat} (h : sum + 65535 * (pb.length / 2) < 2 ^ 32) :
    ∃ ps total, addWords pb sum = (ps, total) ∧ ps.length ≤ 1 ∧
      total + wordSum false ps = sum + wordSum false pb ∧
      total ≤ sum + 65535 * (pb.length / 2) := by
  induction pb, sum using addWords.induct with
  | case1 b0 b1 ps sum ih =>
    have h0 := b0.toNat_lt
    have h1 := b1.toNat_lt
    have hlen : (b0 :: b1 :: ps).length / 2 = ps.length / 2 + 1 := by
      rw [List.length_cons, List.length_cons]
      omega
    rw [hlen] at h ⊢
    have hsum : u32 (sum + (b0.toNat + 256 * b1.toNat)) = sum + (b0.toNat + 256 * b1.toNat) :=
      u32_of_lt (by omega)
    rw [hsum] at ih
    obtain ⟨rest, total, heq, hrest, htotal, hle⟩ := ih (by omega)
    refine ⟨rest, total, ?_, hrest, ?_, by omega⟩
    · rw [addWords, hsum, heq]
    · rw [htotal, wordSum, wordSum]
      omega
  | case2 pb sum hpb =>
    refine ⟨pb, sum, ?_, ?_, rfl, Nat.le_add_right _ _⟩
    · rw [addWords]
      exact hpb
    · rcases pb with _ | ⟨b0, _ | ⟨b1, ps⟩⟩
      · exact Nat.zero_le 1
      · exact Nat.le_refl 1
      · exact absurd rfl (hpb b0 b1 ps)

theorem lowByte_eq {t : Nat} (ht : t % 256 = 0) {ps : List UInt8} (hps : ps.length ≤ 1) :
    lowByte t ps = t + wordSum false ps ∧ wordSum false ps < 256 := by
  rcases ps with _ | ⟨b, _ | ⟨c, ps⟩⟩
  · exact ⟨rfl, by decide⟩
  · have hb : wordSum false [b] = b.toNat := rfl
    rw [lowByte, hb, Nat.div_mul_cancel (Nat.dvd_of_mod_eq_zero ht)]
    exact ⟨rfl, b.toNat_lt⟩
  · simp at hps

/-- The byte in front is in the high half of `t`, the one behind comes into the low half. -/
theorem addAligned_eq {t : Nat} (ht : t % 256 = 0) (ht' : t < 65536) {pb : List UInt8}
    (h : pb.length ≤ 0x20000) : addAligned t pb = canon (t + wordSum false pb) := by
  have hfit : 0 + 65535 * (pb.length / 2) < 2 ^ 32 := by omega
  obtain ⟨ps, total, heq, hps, htotal, hle⟩ := addWords_spec pb hfit
  obtain ⟨hlow, hbyte⟩ := lowByte_eq ht hps
  have hbound : total + (t + wordSum false ps) < 2 ^ 32 := by omega
  have hsum : total + (t + wordSum false ps) = t + wordSum false pb := by omega
  unfold addAligned
  rw [heq]
  change fold (fold (u32 (total + lowByte t ps))) = _
  rw [hlow, u32_of_lt hbound, fold_fold hbound, hsum]

/-- **The sum of a text**, at an even or an odd address. -/
theorem lwipStandardChksum_eq (odd : Bool) {dataptr : List UInt8} (h : dataptr.length ≤ 0x20000) :
    lwipStandardChksum odd dataptr = canon (wordSum false dataptr) := by
  unfold lwipStandardChksum
  cases odd with
  | false =>
    have heven := addAligned_eq (t := 0) rfl (by decide) h
    rw [Nat.zero_add] at heven
    exact heven
  | true =>
    rcases dataptr with _ | ⟨b, pb⟩
    · rfl
    · have hb := b.toNat_lt
      have hlen : pb.length ≤ 0x20000 := by
        rw [List.length_cons] at h
        omega
      have hodd := addAligned_eq (t := 256 * b.toNat) (by omega) (by omega) hlen
      have hword : 256 * b.toNat + wordSum false pb = wordSum true (b :: pb) := by
        rw [wordSum, Nat.mul_comm]
      rw [hword] at hodd
      change swap (addAligned (256 * b.toNat) pb) = _
      rw [hodd, swap_eq (canon_lt _), canon_mul_left, ← canon_mul_left, canon_wordSum_true,
        canon_mul_left, canon_mul_mul]

/-! ### Chains -/

def bytesOf (p : List Pbuf) : List UInt8 := p.flatMap Pbuf.payload

/-- What the sum is while every second byte is in the wrong half. -/
def turned (swapped : Bool) (n : Nat) : Nat := if swapped then 256 * n else n

theorem turned_not (swapped : Bool) (n : Nat) :
    canon (turned (!swapped) n) = canon (256 * turned swapped n) := by
  cases swapped with
  | false => rfl
  | true => exact (canon_mul_mul n).symm

/-- A text that begins in the high half adds what it adds in the low half, turned. -/
theorem turned_append (swapped : Bool) (n : Nat) (xs : List UInt8) :
    canon (turned swapped (n + wordSum swapped xs)) =
      canon (turned swapped n + wordSum false xs) := by
  cases swapped with
  | false => rfl
  | true =>
    change canon (256 * (n + wordSum true xs)) = canon (256 * n + wordSum false xs)
    rw [Nat.mul_add, ← canon_add_right, ← canon_mul_left, canon_wordSum_true, canon_mul_left,
      canon_mul_mul, canon_add_right]

/-- One buffer more: the sum is turned as often as bytes have been added. -/
theorem pbufRound_eq {q : Pbuf} (hq : q.payload.length < 65536) {xs : List UInt8} {swapped : Bool}
    (hswapped : swapped = decide (xs.length % 2 = 1)) :
    pbufRound (canon (turned swapped (wordSum false xs)), swapped) q =
      (canon (turned (decide ((xs ++ q.payload).length % 2 = 1)) (wordSum false (xs ++ q.payload))),
        decide ((xs ++ q.payload).length % 2 = 1)) := by
  have hacc := canon_lt (turned swapped (wordSum false xs))
  have hsum := canon_lt (wordSum false q.payload)
  have hwords : wordSum false (xs ++ q.payload) = wordSum false xs + wordSum swapped q.payload := by
    rw [wordSum_append, Bool.false_xor, hswapped]
  have hfold : fold (u32 (canon (turned swapped (wordSum false xs)) +
      lwipStandardChksum q.odd q.payload)) =
        canon (turned swapped (wordSum false (xs ++ q.payload))) := by
    rw [lwipStandardChksum_eq q.odd (by omega), u32_of_lt (by omega), fold_eq (by omega),
      canon_add_left, canon_add_right, hwords, turned_append]
  unfold pbufRound
  simp only [hfold]
  by_cases hodd : q.payload.length % 2 ≠ 0
  · have hnot : decide ((xs ++ q.payload).length % 2 = 1) = !swapped := by
      rw [hswapped, List.length_append, ← decide_not, decide_eq_decide]
      omega
    rw [if_pos hodd, swap_eq (canon_lt _), canon_mul_left, hnot, turned_not]
  · have hsame : decide ((xs ++ q.payload).length % 2 = 1) = swapped := by
      rw [hswapped, List.length_append, decide_eq_decide]
      omega
    rw [if_neg hodd, hsame]

theorem foldl_pbufRound {p : List Pbuf} (hp : ∀ q ∈ p, q.payload.length < 65536) (xs : List UInt8) :
    p.foldl pbufRound (canon (turned (decide (xs.length % 2 = 1)) (wordSum false xs)),
        decide (xs.length % 2 = 1)) =
      (canon (turned (decide ((xs ++ bytesOf p).length % 2 = 1)) (wordSum false (xs ++ bytesOf p))),
        decide ((xs ++ bytesOf p).length % 2 = 1)) := by
  induction p generalizing xs with
  | nil => rw [bytesOf, List.flatMap_nil, List.append_nil, List.foldl_nil]
  | cons q p ih =>
    have hq : q.payload.length < 65536 := hp q List.mem_cons_self
    have hp' : ∀ q ∈ p, q.payload.length < 65536 := fun q' hq' => hp q' (List.mem_cons_of_mem q hq')
    have hbytes : xs ++ bytesOf (q :: p) = xs ++ q.payload ++ bytesOf p := by
      rw [bytesOf, List.flatMap_cons, ← bytesOf, List.append_assoc]
    rw [List.foldl_cons, pbufRound_eq hq rfl, ih hp', hbytes]

/-- **The sum of a chain** is that of its bytes. -/
theorem pbufSum_eq {p : List Pbuf} (hp : ∀ q ∈ p, q.payload.length < 65536) :
    pbufSum p = canon (wordSum false (bytesOf p)) := by
  have hrun : p.foldl pbufRound (0, false) =
      (canon (turned (decide ((bytesOf p).length % 2 = 1)) (wordSum false (bytesOf p))),
        decide ((bytesOf p).length % 2 = 1)) := foldl_pbufRound hp []
  unfold pbufSum
  rw [hrun]
  generalize decide ((bytesOf p).length % 2 = 1) = swapped
  cases swapped with
  | false => rfl
  | true =>
    change swap (canon (256 * wordSum false (bytesOf p))) = _
    rw [swap_eq (canon_lt _), canon_mul_left, canon_mul_mul]

theorem inetChksum_eq (odd : Bool) {bs : List UInt8} (h : bs.length ≤ 0x20000) :
    inetChksum odd bs = 65535 - canon (wordSum false bs) := by
  rw [inetChksum, lwipStandardChksum_eq odd h, invert, Nat.mod_eq_of_lt (canon_lt _)]

/-- What the packet would have in front: the addresses, the protocol and the length. -/
def pseudoHeader (src dest : IpAddr) (proto : UInt8) (protoLen : Nat) : List UInt8 :=
  [src.b0, src.b1, src.b2, src.b3, dest.b0, dest.b1, dest.b2, dest.b3, 0, proto,
    UInt8.ofNat (protoLen / 256), UInt8.ofNat protoLen]

theorem inetChksumPseudo_eq {p : List Pbuf} (hp : ∀ q ∈ p, q.payload.length < 65536)
    (src dest : IpAddr) (proto : UInt8) {protoLen : Nat} (hlen : protoLen < 65536) :
    inetChksumPseudo p src dest proto protoLen =
      65535 - canon (wordSum false (pseudoHeader src dest proto protoLen ++ bytesOf p)) := by
  obtain ⟨s0, s1, s2, s3⟩ := src
  obtain ⟨d0, d1, d2, d3⟩ := dest
  have hs0 := s0.toNat_lt
  have hs1 := s1.toNat_lt
  have hs2 := s2.toNat_lt
  have hs3 := s3.toNat_lt
  have hd0 := d0.toNat_lt
  have hd1 := d1.toNat_lt
  have hd2 := d2.toNat_lt
  have hd3 := d3.toNat_lt
  have hproto := proto.toNat_lt
  have hsum := canon_lt (wordSum false (bytesOf p))
  have hsrc : (IpAddr.mk s0 s1 s2 s3).word % 65536 = s0.toNat + 256 * s1.toNat ∧
      (IpAddr.mk s0 s1 s2 s3).word / 65536 % 65536 = s2.toNat + 256 * s3.toNat := by
    simp only [IpAddr.word]
    omega
  have hdest : (IpAddr.mk d0 d1 d2 d3).word % 65536 = d0.toNat + 256 * d1.toNat ∧
      (IpAddr.mk d0 d1 d2 d3).word / 65536 % 65536 = d2.toNat + 256 * d3.toNat := by
    simp only [IpAddr.word]
    omega
  have hhtons : htons proto.toNat = 256 * proto.toNat ∧
      htons protoLen = protoLen / 256 + 256 * (protoLen % 256) := by
    unfold htons
    omega
  have hwords : wordSum false (pseudoHeader ⟨s0, s1, s2, s3⟩ ⟨d0, d1, d2, d3⟩ proto protoLen ++
      bytesOf p) = wordSum false (bytesOf p) + (s0.toNat + 256 * s1.toNat) +
        (s2.toNat + 256 * s3.toNat) + (d0.toNat + 256 * d1.toNat) + (d2.toNat + 256 * d3.toNat) +
        256 * proto.toNat + (protoLen / 256 + 256 * (protoLen % 256)) := by
    have h0 : (0 : UInt8).toNat = 0 := rfl
    have hhigh : (UInt8.ofNat (protoLen / 256)).toNat = protoLen / 256 := by
      rw [UInt8.toNat_ofNat']
      omega
    have hlow : (UInt8.ofNat protoLen).toNat = protoLen % 256 := UInt8.toNat_ofNat'
    simp only [pseudoHeader, List.cons_append, List.nil_append, wordSum, h0, hhigh, hlow]
    omega
  unfold inetChksumPseudo
  rw [pbufSum_eq hp, hsrc.1, hsrc.2, hdest.1, hdest.2, hhtons.1, hhtons.2, hwords]
  simp (disch := omega) only [u32_of_lt]
  rw [fold_fold (by omega), invert, Nat.mod_eq_of_lt (canon_lt _)]
  simp only [Nat.add_assoc, canon_add_left]

/-! ### The results -/

/-- **How a packet lies in memory makes no difference.**  The checksum of a chain of buffers, each
of them at an even or an odd address, is that of its bytes in one place, and the checksum of a
segment is that of the segment behind its pseudo header. -/
theorem chksum_of_chain {p : List Pbuf} (hp : ∀ q ∈ p, q.payload.length < 65536)
    (hbytes : (bytesOf p).length + 12 < 65536) (odd : Bool) :
    inetChksumPbuf p = inetChksum odd (bytesOf p) ∧
      ∀ (src dest : IpAddr) (proto : UInt8) (protoLen : Nat), protoLen < 65536 →
        inetChksumPseudo p src dest proto protoLen =
          inetChksum odd (pseudoHeader src dest proto protoLen ++ bytesOf p) := by
  refine ⟨?_, fun src dest proto protoLen hlen => ?_⟩
  · rw [inetChksum_eq odd (by omega), inetChksumPbuf, pbufSum_eq hp, invert,
      Nat.mod_eq_of_lt (canon_lt _)]
  · have hpseudo : (pseudoHeader src dest proto protoLen ++ bytesOf p).length ≤ 0x20000 := by
      rw [List.length_append, Nat.add_comm]
      exact Nat.le_of_lt (Nat.lt_of_lt_of_le hbytes (by decide))
    rw [inetChksumPseudo_eq hp src dest proto hlen, inetChksum_eq odd hpseudo]

/-- Three bytes at an odd address and one at an even one. -/
def samplePbufs : List Pbuf := [⟨true, [0x45, 0x00, 0x01]⟩, ⟨false, [0xff]⟩]

theorem chksum_of_chain_sample :
    inetChksumPbuf samplePbufs = inetChksum false (bytesOf samplePbufs) ∧
      ∀ (src dest : IpAddr) (proto : UInt8) (protoLen : Nat), protoLen < 65536 →
        inetChksumPseudo samplePbufs src dest proto protoLen =
          inetChksum false (pseudoHeader src dest proto protoLen ++ bytesOf samplePbufs) :=
  chksum_of_chain (by decide) (by decide) false

theorem wordSum_field {front : List UInt8} (hfront : front.length % 2 = 0) (lo hi : UInt8)
    (rest : List UInt8) : wordSum false (front ++ lo :: hi :: rest) =
      wordSum false front + wordSum false rest + (lo.toNat + 256 * hi.toNat) := by
  have hpar : decide (front.length % 2 = 1) = false := decide_eq_false (by omega)
  rw [wordSum_append, hpar, Bool.false_xor, wordSum, wordSum]
  omega

/-- **A packet with its checksum in it has the checksum 0**: the checksum is computed with 0 in its
place, and stored there as the processor stores a word. -/
theorem chksum_verifies {front rest : List UInt8} (hfront : front.length % 2 = 0)
    (hlen : front.length + 2 + rest.length < 65536) (odd odd' : Bool) :
    inetChksum odd' (front ++
      UInt8.ofNat (inetChksum odd (front ++ 0 :: 0 :: rest)) ::
        UInt8.ofNat (inetChksum odd (front ++ 0 :: 0 :: rest) / 256) :: rest) = 0 := by
  have hfield : ∀ lo hi : UInt8, (front ++ lo :: hi :: rest).length ≤ 0x20000 := by
    intro lo hi
    rw [List.length_append, List.length_cons, List.length_cons]
    omega
  have hsum := canon_lt (wordSum false front + wordSum false rest)
  have hchk : inetChksum odd (front ++ 0 :: 0 :: rest) =
      65535 - canon (wordSum false front + wordSum false rest) := by
    rw [inetChksum_eq odd (hfield 0 0), wordSum_field hfront]
    rfl
  rw [hchk, inetChksum_eq odd' (hfield _ _), wordSum_field hfront, UInt8.toNat_ofNat',
    UInt8.toNat_ofNat']
  generalize wordSum false front + wordSum false rest = n at hsum ⊢
  have hstored : (65535 - canon n) % 2 ^ 8 + 256 * ((65535 - canon n) / 256 % 2 ^ 8) =
      65535 - canon n := by omega
  have hall : canon (n + (65535 - canon n)) = canon 65535 := by
    obtain ⟨hmod, hzero⟩ := canon_eq_iff.mp (canon_canon n)
    rw [canon_eq_iff]
    omega
  rw [hstored, hall, canon_of_lt (by decide)]

theorem chksum_verifies_sample :
    inetChksum true ([0x45, 0x00] ++
      UInt8.ofNat (inetChksum false ([0x45, 0x00] ++ 0 :: 0 :: [0x11])) ::
        UInt8.ofNat (inetChksum false ([0x45, 0x00] ++ 0 :: 0 :: [0x11]) / 256) :: [0x11]) = 0 :=
  chksum_verifies (by decide) (by decide) false true

/-- **A change of one byte is seen.** -/
theorem chksum_detects {front rest : List UInt8} (hlen : front.length + 1 + rest.length < 65536)
    {b b' : UInt8} (hne : b ≠ b') (odd odd' : Bool) :
    inetChksum odd (front ++ b :: rest) ≠ inetChksum odd' (front ++ b' :: rest) := by
  have hbyte : ∀ c : UInt8, (front ++ c :: rest).length ≤ 0x20000 := by
    intro c
    rw [List.length_append, List.length_cons]
    omega
  have hb := b.toNat_lt
  have hb' := b'.toNat_lt
  have hval : b.toNat ≠ b'.toNat := fun h => hne (UInt8.toNat_inj.mp h)
  intro h
  rw [inetChksum_eq odd (hbyte b), inetChksum_eq odd' (hbyte b')] at h
  have hlt := canon_lt (wordSum false (front ++ b :: rest))
  have hlt' := canon_lt (wordSum false (front ++ b' :: rest))
  have hcanon : canon (wordSum false (front ++ b :: rest)) =
      canon (wordSum false (front ++ b' :: rest)) := by omega
  obtain ⟨hmod, -⟩ := canon_eq_iff.mp hcanon
  rw [wordSum_append, wordSum_append] at hmod
  cases hpar : false ^^ decide (front.length % 2 = 1) with
  | false =>
    rw [hpar, wordSum, wordSum] at hmod
    omega
  | true =>
    rw [hpar, wordSum, wordSum] at hmod
    omega

theorem chksum_detects_sample :
    inetChksum false ([0x45] ++ 0x00 :: [0x01]) ≠ inetChksum false ([0x45] ++ 0xff :: [0x01]) :=
  chksum_detects (by decide) (by decide) false false

end Nl6621.Lwip
