import Nl6621.Lib.Memory
import Nl6621.Lib.LengthField

/-!
# The packet buffer of `EdpKit.c`

`Buffer` is the structure behind `SendBuffer`, `RecvBuffer` and `EdpPacket`: an
allocation, a write position, a read position and the capacity the code believes
in.  The writers append at the write position, the readers consume at the read
position.  All positions are `uint32`, so a sum of a position and a length taken
from the wire can wrap around; the model keeps every such sum under `u32`.

`malloc` is taken to succeed.  What the fresh memory holds is indeterminate, and
a store behind the end of the allocation is a fault.

`checkCapacity` is called by every writer except `writeRemainlen`, which stores
its digits without asking.
-/

namespace Nl6621.Edp

open Lib

/-- `BUFFER_SIZE`. -/
def bufferSize : Nat := 1500

structure Buffer where
  data : Block
  writePos : Nat
  readPos : Nat
  capacity : Nat
deriving DecidableEq

def newBuffer : Buffer where
  data := Block.malloc bufferSize
  writePos := 0
  readPos := 0
  capacity := bufferSize

/-! ### Writing -/

/-- The doubling loop of `CheckCapacity`, with `k` doublings left before `flag`
exceeds 32. -/
def growCapacity (writePos len : Nat) : Nat → Nat → Option Nat
  | 0, cap => if sub32 cap writePos < len then none else some cap
  | k + 1, cap =>
    if sub32 cap writePos < len then growCapacity writePos len k (u32 (cap * 2)) else some cap

def checkCapacity (len : Nat) : Proc Buffer Unit := do
  let buf ← Proc.get
  match growCapacity buf.writePos len 32 buf.capacity with
  | none => Proc.ret (-1)
  | some cap =>
    if cap > buf.capacity then do
      let old ← Proc.lift (buf.data.load 0 buf.writePos)
      let pdata ← Proc.lift ((Block.malloc cap).store 0 old)
      Proc.set { buf with data := pdata, capacity := cap }
    else pure ()

/-- Store `bytes` at the write position and move it behind them. -/
def storeBytes (bytes : List UInt8) : Proc Buffer Unit := do
  let buf ← Proc.get
  let data ← Proc.lift (buf.data.store buf.writePos (bytes.map some))
  Proc.set { buf with data := data, writePos := u32 (buf.writePos + bytes.length) }

/-- `assert(buf->_read_pos == 0)`. -/
def assertUnread : Proc Buffer Unit := Proc.assert fun buf => buf.readPos = 0

def writeByte (byte : UInt8) : Proc Buffer Unit := do
  assertUnread
  (checkCapacity 1).orReturn (-1)
  storeBytes [byte]

def writeBytes (bytes : List UInt8) : Proc Buffer Unit := do
  assertUnread
  (checkCapacity bytes.length).orReturn (-1)
  storeBytes bytes

/-- `WriteByte(..) || WriteByte(..)` has the value 1 when one of the calls
fails. -/
def writeUint16 (val : Nat) : Proc Buffer Unit := do
  assertUnread
  (writeByte (UInt8.ofNat ((val &&& 0xFF00) >>> 8))).orReturn 1
  (writeByte (UInt8.ofNat (val &&& 0x00FF))).orReturn 1

def writeUint32 (val : Nat) : Proc Buffer Unit := do
  assertUnread
  (writeByte (UInt8.ofNat ((val >>> 24) &&& 0x00FF))).orReturn 1
  (writeByte (UInt8.ofNat ((val >>> 16) &&& 0x00FF))).orReturn 1
  (writeByte (UInt8.ofNat ((val >>> 8) &&& 0x00FF))).orReturn 1
  (writeByte (UInt8.ofNat (val &&& 0x00FF))).orReturn 1

/-- The length goes through a `uint16`, and only that many bytes follow it. -/
def writeStr (str : CString) : Proc Buffer Unit := do
  let length := str.strlen % 2 ^ 16
  assertUnread
  (writeUint16 length).orReturn 1
  (writeBytes (str.bytes.take length)).orReturn 1

/-- One digit of the remaining length; the top bit says that more follow. -/
def remainDigit (remainingLength : Nat) : UInt8 :=
  UInt8.ofNat (if remainingLength / 128 > 0 then (remainingLength % 128) ||| 0x80
    else remainingLength % 128)

/-- The digits of the remaining length.  No capacity is checked here.  The
argument counts down from 4; the result is `remaining_count`. -/
def writeRemainlenLoop : Nat → Nat → Proc Buffer Nat
  | 0, remainingLength => do
    storeBytes [remainDigit remainingLength]
    return 5
  | k + 1, remainingLength => do
    storeBytes [remainDigit remainingLength]
    if remainingLength / 128 > 0 then writeRemainlenLoop k (remainingLength / 128)
    else return 4 - k

def writeRemainlen (lenVal : Nat) : Proc Buffer Unit := do
  assertUnread
  let remainingCount ← writeRemainlenLoop 4 lenVal
  Proc.assert fun _ => remainingCount ≠ 5

/-! ### Reading -/

def readByte : Proc Buffer UInt8 := do
  let pkg ← Proc.get
  if u32 (pkg.readPos + 1) > pkg.writePos then Proc.ret (-1)
  else do
    let val ← Proc.lift (pkg.data.byteAt pkg.readPos)
    Proc.set { pkg with readPos := u32 (pkg.readPos + 1) }
    return val

def readBytes (count : Nat) : Proc Buffer (List UInt8) := do
  let pkg ← Proc.get
  if u32 (pkg.readPos + count) > pkg.writePos then Proc.ret (-1)
  else do
    let val ← Proc.lift (pkg.data.read pkg.readPos count)
    Proc.set { pkg with readPos := u32 (pkg.readPos + count) }
    return val

/-- `pkg->_data[pkg->_read_pos]; pkg->_read_pos++;` -/
def nextByte : Proc Buffer Nat := do
  let pkg ← Proc.get
  let val ← Proc.lift (pkg.data.byteAt pkg.readPos)
  Proc.set { pkg with readPos := u32 (pkg.readPos + 1) }
  return val.toNat

def readUint16 : Proc Buffer Nat := do
  let pkg ← Proc.get
  if u32 (pkg.readPos + 2) > pkg.writePos then Proc.ret (-1)
  else do
    let msb ← nextByte
    let lsb ← nextByte
    return ((msb <<< 8) + lsb) % 2 ^ 16

def readUint32Loop : Nat → Nat → Proc Buffer Nat
  | 0, tmpval => return tmpval
  | i + 1, tmpval => do
    let byte ← nextByte
    readUint32Loop i (u32 (tmpval <<< 8) ||| byte)

def readUint32 : Proc Buffer Nat := do
  let pkg ← Proc.get
  if u32 (pkg.readPos + 4) > pkg.writePos then Proc.ret (-1)
  else readUint32Loop 4 0

/-- The object holds the string, then zeros up to `len + 1` bytes. -/
def readStr : Proc Buffer (List UInt8) := do
  let len ← readUint16
  let pkg ← Proc.get
  if u32 (pkg.readPos + len) > pkg.writePos then Proc.ret (-1)
  else do
    let src ← Proc.lift (pkg.data.read pkg.readPos len)
    Proc.set { pkg with readPos := u32 (pkg.readPos + len) }
    return strncpy src

/-- The digit loop of `ReadRemainlen`, with `k` digits still admissible. -/
def readRemainlenLoop : Nat → Nat → Nat → Proc Buffer Nat
  | 0, _, _ => do
    let _ ← readByte
    Proc.ret (-1)
  | k + 1, multiplier, lenVal => do
    let onebyte ← readByte
    let lenVal := u32 (lenVal + (onebyte.toNat &&& 0x7f) * multiplier)
    if onebyte.toNat &&& 0x80 ≠ 0 then readRemainlenLoop k (u32 (multiplier * 0x80)) lenVal
    else return lenVal

def readRemainlen : Proc Buffer Nat := readRemainlenLoop 4 1 0

end Nl6621.Edp
