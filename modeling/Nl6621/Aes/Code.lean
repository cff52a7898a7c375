import Nl6621.Lib.Flat

/-!
# `AES.c`

The cipher as it is written.  A state is the list of its 16 bytes, the byte in row `r` and column `c`
at `r + 4 * c`, and the functions that change one in place take it and give it back.  The round keys
are an object of their own, which only `AES_Init` writes.

`AES_Encrypt` and `AES_Decrypt` are about memory, since their three pointers may be equal or point
into each other.  The first chains the blocks from the front, with the block just written as the
next initial vector, the second from the back, where the block before is still that of the cipher
text.
-/

namespace Nl6621.Aes

open Lib

def AES_KEY_LENGTH : Nat := 128

def Nk : Nat := AES_KEY_LENGTH / 32

def Nb : Nat := 4

def Nr : Nat := 10

def BPOLY : UInt8 := 0x1B

def SBox : List UInt8 := [
  0x63, 0x7c, 0x77, 0x7b, 0xf2, 0x6b, 0x6f, 0xc5, 0x30, 0x01, 0x67, 0x2b, 0xfe, 0xd7, 0xab, 0x76,
  0xca, 0x82, 0xc9, 0x7d, 0xfa, 0x59, 0x47, 0xf0, 0xad, 0xd4, 0xa2, 0xaf, 0x9c, 0xa4, 0x72, 0xc0,
  0xb7, 0xfd, 0x93, 0x26, 0x36, 0x3f, 0xf7, 0xcc, 0x34, 0xa5, 0xe5, 0xf1, 0x71, 0xd8, 0x31, 0x15,
  0x04, 0xc7, 0x23, 0xc3, 0x18, 0x96, 0x05, 0x9a, 0x07, 0x12, 0x80, 0xe2, 0xeb, 0x27, 0xb2, 0x75,
  0x09, 0x83, 0x2c, 0x1a, 0x1b, 0x6e, 0x5a, 0xa0, 0x52, 0x3b, 0xd6, 0xb3, 0x29, 0xe3, 0x2f, 0x84,
  0x53, 0xd1, 0x00, 0xed, 0x20, 0xfc, 0xb1, 0x5b, 0x6a, 0xcb, 0xbe, 0x39, 0x4a, 0x4c, 0x58, 0xcf,
  0xd0, 0xef, 0xaa, 0xfb, 0x43, 0x4d, 0x33, 0x85, 0x45, 0xf9, 0x02, 0x7f, 0x50, 0x3c, 0x9f, 0xa8,
  0x51, 0xa3, 0x40, 0x8f, 0x92, 0x9d, 0x38, 0xf5, 0xbc, 0xb6, 0xda, 0x21, 0x10, 0xff, 0xf3, 0xd2,
  0xcd, 0x0c, 0x13, 0xec, 0x5f, 0x97, 0x44, 0x17, 0xc4, 0xa7, 0x7e, 0x3d, 0x64, 0x5d, 0x19, 0x73,
  0x60, 0x81, 0x4f, 0xdc, 0x22, 0x2a, 0x90, 0x88, 0x46, 0xee, 0xb8, 0x14, 0xde, 0x5e, 0x0b, 0xdb,
  0xe0, 0x32, 0x3a, 0x0a, 0x49, 0x06, 0x24, 0x5c, 0xc2, 0xd3, 0xac, 0x62, 0x91, 0x95, 0xe4, 0x79,
  0xe7, 0xc8, 0x37, 0x6d, 0x8d, 0xd5, 0x4e, 0xa9, 0x6c, 0x56, 0xf4, 0xea, 0x65, 0x7a, 0xae, 0x08,
  0xba, 0x78, 0x25, 0x2e, 0x1c, 0xa6, 0xb4, 0xc6, 0xe8, 0xdd, 0x74, 0x1f, 0x4b, 0xbd, 0x8b, 0x8a,
  0x70, 0x3e, 0xb5, 0x66, 0x48, 0x03, 0xf6, 0x0e, 0x61, 0x35, 0x57, 0xb9, 0x86, 0xc1, 0x1d, 0x9e,
  0xe1, 0xf8, 0x98, 0x11, 0x69, 0xd9, 0x8e, 0x94, 0x9b, 0x1e, 0x87, 0xe9, 0xce, 0x55, 0x28, 0xdf,
  0x8c, 0xa1, 0x89, 0x0d, 0xbf, 0xe6, 0x42, 0x68, 0x41, 0x99, 0x2d, 0x0f, 0xb0, 0x54, 0xbb, 0x16]

def InvSBox : List UInt8 := [
  0x52, 0x09, 0x6a, 0xd5, 0x30, 0x36, 0xa5, 0x38, 0xbf, 0x40, 0xa3, 0x9e, 0x81, 0xf3, 0xd7, 0xfb,
  0x7c, 0xe3, 0x39, 0x82, 0x9b, 0x2f, 0xff, 0x87, 0x34, 0x8e, 0x43, 0x44, 0xc4, 0xde, 0xe9, 0xcb,
  0x54, 0x7b, 0x94, 0x32, 0xa6, 0xc2, 0x23, 0x3d, 0xee, 0x4c, 0x95, 0x0b, 0x42, 0xfa, 0xc3, 0x4e,
  0x08, 0x2e, 0xa1, 0x66, 0x28, 0xd9, 0x24, 0xb2, 0x76, 0x5b, 0xa2, 0x49, 0x6d, 0x8b, 0xd1, 0x25,
  0x72, 0xf8, 0xf6, 0x64, 0x86, 0x68, 0x98, 0x16, 0xd4, 0xa4, 0x5c, 0xcc, 0x5d, 0x65, 0xb6, 0x92,
  0x6c, 0x70, 0x48, 0x50, 0xfd, 0xed, 0xb9, 0xda, 0x5e, 0x15, 0x46, 0x57, 0xa7, 0x8d, 0x9d, 0x84,
  0x90, 0xd8, 0xab, 0x00, 0x8c, 0xbc, 0xd3, 0x0a, 0xf7, 0xe4, 0x58, 0x05, 0xb8, 0xb3, 0x45, 0x06,
  0xd0, 0x2c, 0x1e, 0x8f, 0xca, 0x3f, 0x0f, 0x02, 0xc1, 0xaf, 0xbd, 0x03, 0x01, 0x13, 0x8a, 0x6b,
  0x3a, 0x91, 0x11, 0x41, 0x4f, 0x67, 0xdc, 0xea, 0x97, 0xf2, 0xcf, 0xce, 0xf0, 0xb4, 0xe6, 0x73,
  0x96, 0xac, 0x74, 0x22, 0xe7, 0xad, 0x35, 0x85, 0xe2, 0xf9, 0x37, 0xe8, 0x1c, 0x75, 0xdf, 0x6e,
  0x47, 0xf1, 0x1a, 0x71, 0x1d, 0x29, 0xc5, 0x89, 0x6f, 0xb7, 0x62, 0x0e, 0xaa, 0x18, 0xbe, 0x1b,
  0xfc, 0x56, 0x3e, 0x4b, 0xc6, 0xd2, 0x79, 0x20, 0x9a, 0xdb, 0xc0, 0xfe, 0x78, 0xcd, 0x5a, 0xf4,
  0x1f, 0xdd, 0xa8, 0x33, 0x88, 0x07, 0xc7, 0x31, 0xb1, 0x12, 0x10, 0x59, 0x27, 0x80, 0xec, 0x5f,
  0x60, 0x51, 0x7f, 0xa9, 0x19, 0xb5, 0x4a, 0x0d, 0x2d, 0xe5, 0x7a, 0x9f, 0x93, 0xc9, 0x9c, 0xef,
  0xa0, 0xe0, 0x3b, 0x4d, 0xae, 0x2a, 0xf5, 0xb0, 0xc8, 0xeb, 0xbb, 0x3c, 0x83, 0x53, 0x99, 0x61,
  0x17, 0x2b, 0x04, 0x7e, 0xba, 0x77, 0xd6, 0x26, 0xe1, 0x69, 0x14, 0x63, 0x55, 0x21, 0x0c, 0x7d]

/-- The entry for a byte. -/
def lookup (table : List UInt8) (b : UInt8) : UInt8 := table.getD b.toNat 0

def rotationWord : List UInt8 → List UInt8
  | [b0, b1, b2, b3] => [b1, b2, b3, b0]
  | pWord => pWord

/-- On arrays that are not one. -/
def xorBytes (pData1 pData2 : List UInt8) : List UInt8 := List.zipWith (· ^^^ ·) pData1 pData2

def subBytes (bInvert : Bool) (pState : List UInt8) : List UInt8 :=
  pState.map (lookup (if bInvert then InvSBox else SBox))

/-- Row 0 stays as it is. -/
def shiftRows (bInvert : Bool) (pState : List UInt8) : List UInt8 :=
  (List.range 16).map fun k =>
    let r := k % 4
    let c := k / 4
    let temp := if bInvert then 4 - r else r
    pState.getD (r + 4 * ((c + temp) % 4)) 0

def gfMultBy02 (num : UInt8) : UInt8 :=
  if num &&& 0x80 = 0 then num <<< 1 else (num <<< 1) ^^^ BPOLY

/-- `result`, from the bytes of a column. -/
def mixColumn (bInvert : Bool) (p0 p1 p2 p3 : UInt8) : List UInt8 :=
  let temp := p0 ^^^ p1 ^^^ p2 ^^^ p3
  let r0 := temp ^^^ p0 ^^^ gfMultBy02 (p0 ^^^ p1)
  let r1 := temp ^^^ p1 ^^^ gfMultBy02 (p1 ^^^ p2)
  let r2 := temp ^^^ p2 ^^^ gfMultBy02 (p2 ^^^ p3)
  let r3 := temp ^^^ p3 ^^^ gfMultBy02 (p3 ^^^ p0)
  if bInvert then
    let a0Pa2_M4 := gfMultBy02 (gfMultBy02 (p0 ^^^ p2))
    let a1Pa3_M4 := gfMultBy02 (gfMultBy02 (p1 ^^^ p3))
    let temp := gfMultBy02 (a0Pa2_M4 ^^^ a1Pa3_M4)
    [r0 ^^^ (temp ^^^ a0Pa2_M4), r1 ^^^ (temp ^^^ a1Pa3_M4), r2 ^^^ (temp ^^^ a0Pa2_M4),
      r3 ^^^ (temp ^^^ a1Pa3_M4)]
  else [r0, r1, r2, r3]

def mixColumns (bInvert : Bool) : List UInt8 → List UInt8
  | p0 :: p1 :: p2 :: p3 :: pState => mixColumn bInvert p0 p1 p2 p3 ++ mixColumns bInvert pState
  | pState => pState

/-- The round key `i` of the table. -/
def roundKey (g_roundKeyTable : List UInt8) (i : Nat) : List UInt8 :=
  (g_roundKeyTable.drop (4 * Nb * i)).take (4 * Nb)

def addRoundKey (pState pRoundKey : List UInt8) : List UInt8 := xorBytes pState pRoundKey

def encryptRound (g_roundKeyTable : List UInt8) (pState : List UInt8) (i : Nat) : List UInt8 :=
  let pState := shiftRows false (subBytes false pState)
  let pState := if i ≠ Nr then mixColumns false pState else pState
  addRoundKey pState (roundKey g_roundKeyTable i)

def blockEncrypt (g_roundKeyTable pState : List UInt8) : List UInt8 :=
  (List.range' 1 Nr).foldl (encryptRound g_roundKeyTable)
    (addRoundKey pState (roundKey g_roundKeyTable 0))

def decryptRound (g_roundKeyTable : List UInt8) (pState : List UInt8) (i : Nat) : List UInt8 :=
  let pState := subBytes true (shiftRows true pState)
  let pState := addRoundKey pState (roundKey g_roundKeyTable (i - 1))
  if i ≠ 1 then mixColumns true pState else pState

def blockDecrypt (g_roundKeyTable pState : List UInt8) : List UInt8 :=
  (List.range' 1 Nr).reverse.foldl (decryptRound g_roundKeyTable)
    (addRoundKey pState (roundKey g_roundKeyTable Nr))

/-- A round of the loop in `AES_Init`: the word `i` behind the words before it.  Of `Rcon` only the
first byte is ever not 0. -/
def expandWord (s : List UInt8 × UInt8) (i : Nat) : List UInt8 × UInt8 :=
  let pRoundKey := (s.1.drop (4 * i - 4)).take 4
  let r :=
    if i % Nk = 0 then
      (xorBytes (subBytes false (rotationWord pRoundKey)) [s.2, 0, 0, 0], gfMultBy02 s.2)
    else if 6 < Nk ∧ i % Nk = Nb then (subBytes false pRoundKey, s.2)
    else (pRoundKey, s.2)
  (s.1 ++ xorBytes r.1 ((s.1.drop (4 * i - 4 * Nk)).take 4), r.2)

/-- `g_roundKeyTable`, from the bytes of the key. -/
def AES_Init (pKey : List UInt8) : List UInt8 :=
  ((List.range' Nk (Nb * (Nr + 1) - Nk)).foldl expandWord (pKey.take (4 * Nk), 0x01)).1

/-- `XorBytes` on memory, where the ranges may overlap. -/
def xorBytesAt : Nat → Nat → Nat → Ram → Outcome Ram
  | 0, _, _, m => .ok m
  | nCount + 1, pData1, pData2, m => do
    let x ← m.load pData1 1
    let y ← m.load pData2 1
    let m ← m.store pData1 (xorBytes x y)
    xorBytesAt nCount (pData1 + 1) (pData2 + 1) m

/-- A function on a state that lies in memory. -/
def onState (f : List UInt8 → List UInt8) (pState : Nat) (m : Ram) : Outcome Ram :=
  (m.load pState (4 * Nb)).bind fun state => m.store pState (f state)

/-- The loop of `AES_Encrypt`, with `i` blocks to go. -/
def encryptBlocks (g_roundKeyTable : List UInt8) : Nat → Nat → Nat → Ram → Outcome Ram
  | 0, _, _, m => .ok m
  | i + 1, pCipherText, pIV, m => do
    let m ← xorBytesAt (4 * Nb) pCipherText pIV m
    let m ← onState (blockEncrypt g_roundKeyTable) pCipherText m
    encryptBlocks g_roundKeyTable i (pCipherText + 4 * Nb) pCipherText m

/-- `if (to != from) memcpy(to, from, n);` -/
def copyUnlessSame (dst src n : Nat) (m : Ram) : Outcome Ram :=
  if src ≠ dst then m.memcpy dst src n else .ok m

def AES_Encrypt (g_roundKeyTable : List UInt8) (pPlainText pCipherText nDataLen pIV : Nat)
    (m : Ram) : Outcome Ram := do
  let m ← copyUnlessSame pCipherText pPlainText nDataLen m
  encryptBlocks g_roundKeyTable (nDataLen / (4 * Nb)) pCipherText pIV m

/-- The loop of `AES_Decrypt`, with `i` blocks to go. -/
def decryptBlocks (g_roundKeyTable : List UInt8) (pIV : Nat) : Nat → Nat → Ram → Outcome Ram
  | 0, _, m => .ok m
  | i + 1, pPlainText, m => do
    let m ← onState (blockDecrypt g_roundKeyTable) pPlainText m
    let m ← xorBytesAt (4 * Nb) pPlainText (if i + 1 = 1 then pIV else pPlainText - 4 * Nb) m
    decryptBlocks g_roundKeyTable pIV i (pPlainText - 4 * Nb) m

def AES_Decrypt (g_roundKeyTable : List UInt8) (pPlainText pCipherText nDataLen pIV : Nat)
    (m : Ram) : Outcome Ram := do
  let m ← copyUnlessSame pPlainText pCipherText nDataLen m
  decryptBlocks g_roundKeyTable pIV (nDataLen / (4 * Nb)) (pPlainText + nDataLen - 4 * Nb) m

end Nl6621.Aes
