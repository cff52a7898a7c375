import Nl6621.Lib.Crc

/-!
# `NST_GetCrc8`

The table of `util.c` and the loop that runs over the data with it.  `crc8Tbl_eq` says what the
table holds: entry `i` is what eight steps of the bit-serial register make of `i`.  As the byte may
be added to the register first, a round of the loop is one byte of the bit-serial CRC.

The two consequences are those of the register.  It is linear; and as the polynomial has its top bit
set, two registers that differ stay different, whatever bytes follow.
-/

namespace Nl6621.Util

open Lib

/-- `__crc8_tbl` -/
def crc8Tbl : List UInt8 :=
  [ 0x00, 0x91, 0xe3, 0x72, 0x07, 0x96, 0xe4, 0x75, 0x0e, 0x9f, 0xed, 0x7c, 0x09, 0x98, 0xea, 0x7b,
    0x1c, 0x8d, 0xff, 0x6e, 0x1b, 0x8a, 0xf8, 0x69, 0x12, 0x83, 0xf1, 0x60, 0x15, 0x84, 0xf6, 0x67,
    0x38, 0xa9, 0xdb, 0x4a, 0x3f, 0xae, 0xdc, 0x4d, 0x36, 0xa7, 0xd5, 0x44, 0x31, 0xa0, 0xd2, 0x43,
    0x24, 0xb5, 0xc7, 0x56, 0x23, 0xb2, 0xc0, 0x51, 0x2a, 0xbb, 0xc9, 0x58, 0x2d, 0xbc, 0xce, 0x5f,
    0x70, 0xe1, 0x93, 0x02, 0x77, 0xe6, 0x94, 0x05, 0x7e, 0xef, 0x9d, 0x0c, 0x79, 0xe8, 0x9a, 0x0b,
    0x6c, 0xfd, 0x8f, 0x1e, 0x6b, 0xfa, 0x88, 0x19, 0x62, 0xf3, 0x81, 0x10, 0x65, 0xf4, 0x86, 0x17,
    0x48, 0xd9, 0xab, 0x3a, 0x4f, 0xde, 0xac, 0x3d, 0x46, 0xd7, 0xa5, 0x34, 0x41, 0xd0, 0xa2, 0x33,
    0x54, 0xc5, 0xb7, 0x26, 0x53, 0xc2, 0xb0, 0x21, 0x5a, 0xcb, 0xb9, 0x28, 0x5d, 0xcc, 0xbe, 0x2f,
    0xe0, 0x71, 0x03, 0x92, 0xe7, 0x76, 0x04, 0x95, 0xee, 0x7f, 0x0d, 0x9c, 0xe9, 0x78, 0x0a, 0x9b,
    0xfc, 0x6d, 0x1f, 0x8e, 0xfb, 0x6a, 0x18, 0x89, 0xf2, 0x63, 0x11, 0x80, 0xf5, 0x64, 0x16, 0x87,
    0xd8, 0x49, 0x3b, 0xaa, 0xdf, 0x4e, 0x3c, 0xad, 0xd6, 0x47, 0x35, 0xa4, 0xd1, 0x40, 0x32, 0xa3,
    0xc4, 0x55, 0x27, 0xb6, 0xc3, 0x52, 0x20, 0xb1, 0xca, 0x5b, 0x29, 0xb8, 0xcd, 0x5c, 0x2e, 0xbf,
    0x90, 0x01, 0x73, 0xe2, 0x97, 0x06, 0x74, 0xe5, 0x9e, 0x0f, 0x7d, 0xec, 0x99, 0x08, 0x7a, 0xeb,
    0x8c, 0x1d, 0x6f, 0xfe, 0x8b, 0x1a, 0x68, 0xf9, 0x82, 0x13, 0x61, 0xf0, 0x85, 0x14, 0x66, 0xf7,
    0xa8, 0x39, 0x4b, 0xda, 0xaf, 0x3e, 0x4c, 0xdd, 0xa6, 0x37, 0x45, 0xd4, 0xa1, 0x30, 0x42, 0xd3,
    0xb4, 0x25, 0x57, 0xc6, 0xb3, 0x22, 0x50, 0xc1, 0xba, 0x2b, 0x59, 0xc8, 0xbd, 0x2c, 0x5e, 0xcf ]

/-- An index of eight bits is inside the table. -/
def nstGetCrc8 (ptr : List UInt8) (len : Nat) : Outcome UInt8 :=
  foldBytes (fun crc8 data => crc8Tbl.getD (crc8 ^^^ data).toNat 0) ptr len 0 0

/-- The bit-serial CRC-8. -/
def crc8 (data : List UInt8) : UInt8 := UInt8.ofBitVec (crcRun 0xE0#8 0#8 data)

set_option maxRecDepth 8000 in
theorem crc8Tbl_list : crc8Tbl =
    (List.range 256).map fun i => UInt8.ofBitVec (crcByte 0xE0#8 (BitVec.ofNat 8 i) 0#8) := by
  decide

/-! ### The table and the loop -/

/-- **Each entry is what eight steps of the register make of its index.** -/
theorem crc8Tbl_eq (x : UInt8) :
    crc8Tbl.getD x.toNat 0 = UInt8.ofBitVec (crcByte 0xE0#8 x.toBitVec 0#8) := by
  have hx : x.toNat < 256 := x.toNat_lt
  rw [crc8Tbl_list, List.getD_eq_getElem?_getD, List.getElem?_map, List.getElem?_range hx]
  show UInt8.ofBitVec (crcByte 0xE0#8 (BitVec.ofNat 8 x.toBitVec.toNat) 0#8) = _
  rw [BitVec.ofNat_toNat, BitVec.setWidth_eq]

theorem foldl_crc8Tbl : ∀ (data : List UInt8) (r : BitVec 8),
    data.foldl (fun crc8 data => crc8Tbl.getD (crc8 ^^^ data).toNat 0) (UInt8.ofBitVec r) =
      UInt8.ofBitVec (crcRun 0xE0#8 r data) := by
  intro data
  induction data with
  | nil => intro r; rfl
  | cons b data ih =>
    intro r
    have hstep : crc8Tbl.getD (UInt8.ofBitVec r ^^^ b).toNat 0 =
        UInt8.ofBitVec (crcByte 0xE0#8 r b.toBitVec) := by
      rw [crc8Tbl_eq, UInt8.toBitVec_xor, crcByte_eq _ r]
    rw [List.foldl_cons, hstep, ih]
    rfl

theorem nstGetCrc8_ok (data tail : List UInt8) :
    nstGetCrc8 (data ++ tail) data.length = .ok (crc8 data) := by
  have hrun := foldBytes_eq (fun crc8 data => crc8Tbl.getD (crc8 ^^^ data).toNat 0) tail data [] 0
  exact hrun.trans (congrArg Outcome.ok (foldl_crc8Tbl data 0#8))

theorem crc8_xor {xs ys : List UInt8} (h : xs.length = ys.length) :
    crc8 (List.zipWith (· ^^^ ·) xs ys) = crc8 xs ^^^ crc8 ys := by
  have hrun := crcRun_xor 0xE0#8 xs ys 0#8 0#8 h
  rw [BitVec.xor_self] at hrun
  rw [crc8, hrun, UInt8.ofBitVec_xor]
  rfl

theorem crc8_change {pre post : List UInt8} {b c : UInt8}
    (h : crc8 (pre ++ b :: post) = crc8 (pre ++ c :: post)) : b = c := by
  have hpoly : (0xE0#8).msb = true := by decide
  have hrun : crcRun 0xE0#8 0#8 (pre ++ b :: post) = crcRun 0xE0#8 0#8 (pre ++ c :: post) :=
    congrArg UInt8.toBitVec h
  simp only [crcRun, List.foldl_append, List.foldl_cons] at hrun
  exact UInt8.toBitVec_inj.mp (crcByte_byte_injective hpoly (crcRun_injective hpoly post hrun))

/-- **The table is the one of the bit-serial CRC-8**, which is linear and sees every change of a
single byte. -/
theorem nstGetCrc8_reference :
    (∀ data tail : List UInt8, nstGetCrc8 (data ++ tail) data.length = .ok (crc8 data)) ∧
    (∀ xs ys : List UInt8, xs.length = ys.length → ∃ a b, nstGetCrc8 xs xs.length = .ok a ∧
      nstGetCrc8 ys ys.length = .ok b ∧
      nstGetCrc8 (List.zipWith (· ^^^ ·) xs ys) xs.length = .ok (a ^^^ b)) ∧
    ∀ (pre post : List UInt8) (b c : UInt8), b ≠ c →
      nstGetCrc8 (pre ++ b :: post) (pre ++ b :: post).length ≠
        nstGetCrc8 (pre ++ c :: post) (pre ++ c :: post).length := by
  have hself : ∀ data : List UInt8, nstGetCrc8 data data.length = .ok (crc8 data) := by
    intro data
    have := nstGetCrc8_ok data []
    rwa [List.append_nil] at this
  refine ⟨nstGetCrc8_ok, fun xs ys h => ⟨crc8 xs, crc8 ys, hself xs, hself ys, ?_⟩,
    fun pre post b c hne he => hne ?_⟩
  · have hlen : (List.zipWith (· ^^^ ·) xs ys).length = xs.length := by
      rw [List.length_zipWith, h, Nat.min_self]
    rw [← crc8_xor h, ← hlen]
    exact hself _
  · rw [hself, hself, Outcome.ok.injEq] at he
    exact crc8_change he

theorem nstGetCrc8_bytes : ([0x31, 0x32] : List UInt8).length = ([0x33, 0x34] : List UInt8).length ∧
    (∃ a b, nstGetCrc8 [0x31, 0x32] 2 = .ok a ∧ nstGetCrc8 [0x33, 0x34] 2 = .ok b ∧
      nstGetCrc8 [0x02, 0x06] 2 = .ok (a ^^^ b)) ∧
    (0x32 : UInt8) ≠ 0x30 ∧ nstGetCrc8 [0x31, 0x32, 0x33] 3 ≠ nstGetCrc8 [0x31, 0x30, 0x33] 3 :=
  ⟨rfl, nstGetCrc8_reference.2.1 [0x31, 0x32] [0x33, 0x34] rfl, by decide,
    nstGetCrc8_reference.2.2 [0x31] [0x33] 0x32 0x30 (by decide)⟩

end Nl6621.Util
