import Nl6621.Edp.Buffer
import Nl6621.Sys.MoveMem

/-!
# The EDP packets of `EdpKit.c`

The functions that build a packet (`Packet..`), the two that cut packets out of
a receive buffer (`IsPkgComplete`, `GetEdpPacket`) and the ones that take a
packet apart (`Unpack..`).

A builder ignores the codes of its writers.  A decoder returns at the first
reader that fails, with its own error code, and has by then filled in the
out-parameters before that reader.  An out-parameter is a pointer to a variable
of the caller: here it is the update of the caller's variables `ω` that an
assignment through the pointer makes.  An object obtained from `malloc` is the
list of its bytes; a string object has its terminator among them.

The JSON library is a parameter: `cJSON_Parse` is some function from C strings to
an object or NULL.
-/

namespace Nl6621.Edp

open Lib

/-! ### Message types and codes -/

def CONNRESP : UInt8 := 0x20
def PUSHDATA : UInt8 := 0x30
def SAVEDATA : UInt8 := 0x80
def SAVEACK : UInt8 := 0x90
def CMDREQ : UInt8 := 0xA0
def CMDRESP : UInt8 := 0xB0
def PINGRESP : UInt8 := 0xD0

def kTypeFullJson : UInt8 := 0x01
def kTypeBin : UInt8 := 0x02
def kTypeSimpleJsonWithoutTime : UInt8 := 0x03
def kTypeSimpleJsonWithTime : UInt8 := 0x04
def kTypeString : UInt8 := 0x05

def ERR_UNPACK_CONNRESP_REMAIN : Int := -1000
def ERR_UNPACK_CONNRESP_FLAG : Int := -1001
def ERR_UNPACK_CONNRESP_RTN : Int := -1002
def ERR_UNPACK_PUSHD_REMAIN : Int := -1010
def ERR_UNPACK_PUSHD_DEVID : Int := -1011
def ERR_UNPACK_PUSHD_DATA : Int := -1012
def ERR_UNPACK_SAVED_REMAIN : Int := -1020
def ERR_UNPACK_SAVED_TANSFLAG : Int := -1021
def ERR_UNPACK_SAVED_DEVID : Int := -1022
def ERR_UNPACK_SAVED_DATAFLAG : Int := -1023
def ERR_UNPACK_SAVED_JSON : Int := -1024
def ERR_UNPACK_SAVED_PARSEJSON : Int := -1025
def ERR_UNPACK_SAVED_BIN_DESC : Int := -1026
def ERR_UNPACK_SAVED_PARSEDESC : Int := -1027
def ERR_UNPACK_SAVED_BINLEN : Int := -1028
def ERR_UNPACK_SAVED_BINDATA : Int := -1029
def ERR_UNPACK_PING_REMAIN : Int := -1030
def ERR_UNPACK_CMDREQ : Int := -1031
def ERR_UNPACK_SAVEDATA_ACK : Int := -1033

/-! ### Building packets -/

/-- Run the writers of a builder on a fresh buffer. -/
def buildPacket (body : Proc Buffer Unit) : Outcome Buffer :=
  (body newBuffer).bind fun r => .ok r.2

def packetPushdata (dstDevid : CString) (data : List UInt8) : Outcome Buffer :=
  buildPacket do
    (writeByte PUSHDATA).void
    let remainlen := u32 ((2 + dstDevid.strlen) + data.length)
    (writeRemainlen remainlen).void
    (writeStr dstDevid).void
    (writeBytes data).void

/-- The part every `SAVEDATA` builder starts with: message type, remaining
length, translate address flag and destination.  `bodyLen` is the length of what
follows the flag or the destination. -/
def savedataHeader (dstDevid : Option CString) (bodyLen : Nat) : Proc Buffer Unit := do
  (writeByte SAVEDATA).void
  match dstDevid with
  | some dst => do
    let remainlen := u32 (1 + (2 + dst.strlen) + bodyLen)
    (writeRemainlen remainlen).void
    (writeByte 0x80).void
    (writeStr dst).void
  | none => do
    let remainlen := u32 (1 + bodyLen)
    (writeRemainlen remainlen).void
    (writeByte 0x00).void

def packetSavedataSimpleString (dstDevid : Option CString) (input : CString) : Outcome Buffer :=
  buildPacket do
    savedataHeader dstDevid (1 + (2 + input.strlen))
    (writeByte kTypeString).void
    (writeStr input).void

/-- NULL for a description above `2 ^ 16` bytes or a binary above 3 MB. -/
def packetSavedataBinStr (dstDevid : Option CString) (descStr : CString) (binData : List UInt8) :
    Outcome (Option Buffer) :=
  if descStr.strlen > 0x01 <<< 16 ∨ binData.length > 3 * (0x01 <<< 20) then .ok none
  else
    (buildPacket do
      savedataHeader dstDevid (1 + (2 + descStr.strlen) + (4 + binData.length))
      (writeByte kTypeBin).void
      (writeStr descStr).void
      (writeUint32 binData.length).void
      (writeBytes binData).void).bind fun pkg => .ok (some pkg)

def packetCmdResp (cmdid resp : List UInt8) : Outcome Buffer :=
  buildPacket do
    let remainlen := u32 (cmdid.length + resp.length + (if resp.length ≠ 0 then 6 else 2))
    (writeByte CMDRESP).void
    (writeRemainlen remainlen).void
    (writeUint16 cmdid.length).void
    (writeBytes cmdid).void
    if resp.length ≠ 0 then do
      (writeUint32 resp.length).void
      (writeBytes resp).void
    else pure ()

/-! ### Cutting packets out of a receive buffer -/

/-- The digit loop of `IsPkgComplete`, with `k` digits still admissible.  `pdigit`
is `lenLen - 1`.  The loop leaves the final `len_len` and `len_val`, or the value
to return. -/
def isPkgCompleteLoop (buf : Buffer) : Nat → Nat → Nat → Nat → Outcome (Int ⊕ (Nat × Nat))
  | 0, _, _, _ => .ok (.inl (-1))
  | k + 1, lenLen, multiplier, lenVal =>
    if lenLen > buf.writePos - 1 then .ok (.inl 0)
    else do
      let digit ← buf.data.byteAt lenLen
      let lenVal := u32 (lenVal + (digit.toNat &&& 0x7f) * multiplier)
      if digit.toNat &&& 0x80 ≠ 0 then
        isPkgCompleteLoop buf k (lenLen + 1) (u32 (multiplier * 0x80)) lenVal
      else .ok (.inr (lenLen + 1, lenVal))

/-- The length of the packet the buffer starts with; 0 while bytes are missing,
-1 for a length field of more than four digits. -/
def isPkgComplete (buf : Buffer) : Outcome Int :=
  if buf.writePos ≤ 1 then .ok 0
  else do
    match ← isPkgCompleteLoop buf 4 1 1 0 with
    | .inl r => .ok r
    | .inr (lenLen, lenVal) =>
      let pkgTotalLen := u32 (lenLen + lenVal)
      if pkgTotalLen ≤ buf.writePos then .ok pkgTotalLen else .ok 0

/-- Copy the first packet out of the buffer and shift the rest to its front. -/
def getEdpPacket (buf : Buffer) : Outcome (Option Buffer × Buffer) := do
  let flag ← isPkgComplete buf
  if buf.readPos = 0 then
    if flag ≤ 0 then .ok (none, buf)
    else do
      let bytes ← buf.data.read 0 flag.toNat
      let pkg ← buildPacket (writeBytes bytes).void
      let data ← Sys.nstMoveMemOvlap buf.data 0 flag.toNat (sub32 buf.writePos flag.toNat)
      .ok (some pkg, { buf with data := data, writePos := sub32 buf.writePos flag.toNat })
  else .assertFail

def edpPacketType : Proc Buffer UInt8 := readByte.orDefault 0x00

/-! ### Taking packets apart -/

section Unpack

variable {ω J : Type}

/-- An assignment through an out-parameter. -/
def assign (f : ω → ω) : Proc (Buffer × ω) Unit := Proc.modify fun s => (s.1, f s.2)

/-- `assert(pkg->_read_pos == pkg->_write_pos)`. -/
def assertConsumed : Proc (Buffer × ω) Unit := Proc.assert fun s => s.1.readPos = s.1.writePos

/-- The value returned is the return code of the server. -/
def unpackConnectResp : Proc (Buffer × ω) UInt8 := do
  let _ ← readRemainlen.onFst.orReturn ERR_UNPACK_CONNRESP_REMAIN
  let _ ← readByte.onFst.orReturn ERR_UNPACK_CONNRESP_FLAG
  let rtn ← readByte.onFst.orReturn ERR_UNPACK_CONNRESP_RTN
  assertConsumed
  return rtn

def unpackPushdata (srcDevid data : List UInt8 → ω → ω) (dataLen : Nat → ω → ω) :
    Proc (Buffer × ω) Unit := do
  let remainlen ← readRemainlen.onFst.orReturn ERR_UNPACK_PUSHD_REMAIN
  let src ← readStr.onFst.orReturn ERR_UNPACK_PUSHD_DEVID
  assign (srcDevid src)
  let remainlen := sub32 remainlen (2 + (cstr src).length)
  let val ← (readBytes remainlen).onFst.orReturn ERR_UNPACK_PUSHD_DATA
  assign (data val)
  assign (dataLen remainlen)
  assertConsumed

/-- With the translate address flag the source id follows; without it
`*src_devid` is set to NULL. -/
def unpackSrcDevid (srcDevid : Option (List UInt8) → ω → ω) (taFlag : UInt8) :
    Proc (Buffer × ω) Unit :=
  if taFlag = 0x80 then do
    let src ← readStr.onFst.orReturn ERR_UNPACK_SAVED_DEVID
    assign (srcDevid (some src))
  else assign (srcDevid none)

def unpackSavedata (srcDevid : Option (List UInt8) → ω → ω) (jbFlag : UInt8 → ω → ω) :
    Proc (Buffer × ω) Unit := do
  let _ ← readRemainlen.onFst.orReturn ERR_UNPACK_SAVED_REMAIN
  let taFlag ← readByte.onFst.orReturn ERR_UNPACK_SAVED_TANSFLAG
  unpackSrcDevid srcDevid taFlag
  let flag ← readByte.onFst.orReturn ERR_UNPACK_SAVED_DATAFLAG
  assign (jbFlag flag)

/-- `*obj = cJSON_Parse(str); free(str); if (*obj == 0) return c;` -/
def parseInto (cJSON_Parse : List UInt8 → Option J) (obj : Option J → ω → ω) (str : List UInt8)
    (c : Int) : Proc (Buffer × ω) Unit := do
  assign (obj (cJSON_Parse (cstr str)))
  if (cJSON_Parse (cstr str)).isNone then Proc.ret c else pure ()

def unpackSavedataJson (cJSON_Parse : List UInt8 → Option J) (jsonObj : Option J → ω → ω) :
    Proc (Buffer × ω) Unit := do
  let jsonStr ← readStr.onFst.orReturn ERR_UNPACK_SAVED_JSON
  parseInto cJSON_Parse jsonObj jsonStr ERR_UNPACK_SAVED_PARSEJSON
  assertConsumed

/-- `ReadUint32(pkg, bin_len)` and `ReadBytes(pkg, bin_data, *bin_len)`. -/
def unpackBinData (binData : List UInt8 → ω → ω) (binLen : Nat → ω → ω) :
    Proc (Buffer × ω) Unit := do
  let len ← readUint32.onFst.orReturn ERR_UNPACK_SAVED_BINLEN
  assign (binLen len)
  let bin ← (readBytes len).onFst.orReturn ERR_UNPACK_SAVED_BINDATA
  assign (binData bin)
  assertConsumed

def unpackSavedataBin (cJSON_Parse : List UInt8 → Option J) (descObj : Option J → ω → ω)
    (binData : List UInt8 → ω → ω) (binLen : Nat → ω → ω) : Proc (Buffer × ω) Unit := do
  let descStr ← readStr.onFst.orReturn ERR_UNPACK_SAVED_BIN_DESC
  parseInto cJSON_Parse descObj descStr ERR_UNPACK_SAVED_PARSEDESC
  unpackBinData binData binLen

def unpackSavedataBinStr (descStr binData : List UInt8 → ω → ω) (binLen : Nat → ω → ω) :
    Proc (Buffer × ω) Unit := do
  let desc ← readStr.onFst.orReturn ERR_UNPACK_SAVED_BIN_DESC
  assign (descStr desc)
  unpackBinData binData binLen

/-- No assertion here: what follows the string is not looked at. -/
def unpackSavedataSimpleString (output : List UInt8 → ω → ω) : Proc (Buffer × ω) Unit := do
  let str ← readStr.onFst.orReturn ERR_UNPACK_SAVED_JSON
  assign (output str)

def unpackSavedataAck (jsonAck : List UInt8 → ω → ω) : Proc (Buffer × ω) Unit := do
  let _ ← readRemainlen.onFst.orReturn ERR_UNPACK_SAVEDATA_ACK
  let _ ← readByte.onFst.orReturn ERR_UNPACK_SAVEDATA_ACK
  let jsonLen ← readUint16.onFst.orReturn ERR_UNPACK_SAVEDATA_ACK
  let ack ← (readBytes jsonLen).onFst.orReturn ERR_UNPACK_SAVEDATA_ACK
  assign (jsonAck ack)

/-- The codes of `ReadUint16` and `ReadUint32` are returned as they are. -/
def unpackCmdReq (cmdid : List UInt8 → ω → ω) (cmdidLen : Nat → ω → ω)
    (req : List UInt8 → ω → ω) (reqLen : Nat → ω → ω) : Proc (Buffer × ω) Unit := do
  let _ ← readRemainlen.onFst.orReturn ERR_UNPACK_CMDREQ
  let idLen ← readUint16.onFst
  assign (cmdidLen idLen)
  let id ← (readBytes idLen).onFst.orReturn ERR_UNPACK_CMDREQ
  assign (cmdid id)
  let len ← readUint32.onFst
  assign (reqLen len)
  let val ← (readBytes len).onFst.orReturn ERR_UNPACK_CMDREQ
  assign (req val)
  assertConsumed

def unpackPingResp : Proc (Buffer × ω) Unit := do
  let _ ← readRemainlen.onFst.orReturn ERR_UNPACK_PING_REMAIN
  assertConsumed

end Unpack

end Nl6621.Edp
