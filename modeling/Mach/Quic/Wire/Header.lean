import Mach.Quic.Wire.Basic
import Mach.Quic.Wire.PacketNumber
/-!
# Packet headers

`wire/header.go` and `wire/version.go`: one writer and two parsers. `parseHeader`
reads a header without protection; `parseHeaderOffsets` reads a protected one as
far as the packet number, which is all that can be read of it.
-/

namespace Mach.Quic.Wire

open Lib Parser

def versionNegotiation : Nat := 0x00000000

def version1 : Nat := 0x00000001

def version2 : Nat := 0x709a50c4

inductive PacketType where
  | initial | zeroRTT | handshake | retry | versionNegotiation | oneRTT
  deriving DecidableEq, Repr

structure Header where
  isLong : Bool := false
  type : PacketType := .initial
  version : Nat := 0
  destConnID : List UInt8 := []
  srcConnID : List UInt8 := []
  token : List UInt8 := []
  length : Nat := 0
  packetNumber : Nat := 0
  packetNumberLen : Nat := 0
  keyPhase : Bool := false
  spinBit : Bool := false
  headerLen : Nat := 0
  packetNumberOffset : Nat := 0
  payloadLen : Nat := 0
  deriving DecidableEq, Repr

/-! ## Writing -/

/-- The result of a call that panics on `none`. -/
def orPanic {α : Type} : Option α → Except Fault α
  | some a => .ok a
  | none => .error .panic

def typeBits (version : Nat) (t : PacketType) : Option UInt8 :=
  if version = version2 then
    match t with
    | .retry => some 0x00
    | .initial => some 0x10
    | .zeroRTT => some 0x20
    | .handshake => some 0x30
    | _ => none
  else
    match t with
    | .initial => some 0x00
    | .zeroRTT => some 0x10
    | .handshake => some 0x20
    | .retry => some 0x30
    | _ => none

def shortFirstByte (h : Header) : UInt8 :=
  let firstByte := 0x40
  let firstByte := if h.spinBit then firstByte ||| 0x20 else firstByte
  let firstByte := if h.keyPhase then firstByte ||| 0x04 else firstByte
  firstByte ||| byte (h.packetNumberLen - 1)

def appendShortHeader (dst : List UInt8) (h : Header) : Except Fault (List UInt8 × Nat) :=
  if h.destConnID.length > 20 then .error (.error .invalidConnectionIDLen)
  else if h.packetNumberLen < 1 ∨ h.packetNumberLen > 4 then .error (.error .invalidPacketNumber)
  else do
    let dst := dst ++ [shortFirstByte h] ++ h.destConnID
    let packet ← orPanic (appendPacketNumber dst h.packetNumber h.packetNumberLen)
    return (packet, dst.length)

/-- Both connection IDs, each behind its length. -/
def connIDBytes (h : Header) : List UInt8 :=
  [byte h.destConnID.length] ++ h.destConnID ++ [byte h.srcConnID.length] ++ h.srcConnID

/-- The end of a long header: length and packet number. -/
def appendLengthAndNumber (dst : List UInt8) (h : Header) : Except Fault (List UInt8 × Nat) := do
  let dst ← orPanic (appendVarint dst h.length)
  let packet ← orPanic (appendPacketNumber dst h.packetNumber h.packetNumberLen)
  return (packet, dst.length)

def appendLongHeader (dst : List UInt8) (h : Header) : Except Fault (List UInt8 × Nat) :=
  if h.destConnID.length > 20 ∨ h.srcConnID.length > 20 then .error (.error .invalidConnectionIDLen)
  else if h.type = .versionNegotiation then
    -- the fixed bit is arbitrary
    .ok (dst ++ [0x80 ||| (0xc0 &&& 0x0f)] ++ beBytes 4 0 ++ connIDBytes h, 0)
  else
    match typeBits h.version h.type with
    | none => .error (.error .invalidFrameType)
    | some bits =>
      if h.type ≠ .retry ∧ (h.packetNumberLen < 1 ∨ h.packetNumberLen > 4) then .error (.error .invalidPacketNumber)
      else
        let firstByte : UInt8 := 0xc0 ||| bits
        let firstByte := if h.type ≠ .retry then firstByte ||| byte (h.packetNumberLen - 1) else firstByte
        let dst := dst ++ [firstByte] ++ beBytes 4 h.version ++ connIDBytes h
        match h.type with
        | .initial => do
          let dst ← orPanic (appendVarint dst h.token.length)
          appendLengthAndNumber (dst ++ h.token) h
        | .zeroRTT | .handshake => appendLengthAndNumber dst h
        | .retry => .ok (dst ++ h.token, 0)
        | _ => .error (.error .invalidFrameType)

/-- `AppendHeader`: what is now in `dst`, and where the packet number begins. -/
def appendHeader (dst : List UInt8) (h : Header) : Except Fault (List UInt8 × Nat) :=
  if h.isLong then appendLongHeader dst h else appendShortHeader dst h

/-! ## Reading -/

/-- The type a long header has by its version and type bits. -/
def longType (version : Nat) (typeBits : UInt8) : PacketType :=
  if version = version2 then
    if typeBits = 0x0 then .retry
    else if typeBits = 0x1 then .initial
    else if typeBits = 0x2 then .zeroRTT
    else .handshake
  else
    if typeBits = 0x0 then .initial
    else if typeBits = 0x1 then .zeroRTT
    else if typeBits = 0x2 then .handshake
    else .retry

/-- A connection ID behind its length, followed by at least `behind` bytes. -/
def connID (behind : Nat) (tooLong : WireError) : Parse (List UInt8) := do
  need 1 (.error .truncatedHeader)
  let len ← next
  if len.toNat > 20 then failWith tooLong
  else
    need (len.toNat + behind) (.error .truncatedHeader)
    slice len.toNat

def number (largestAcked pnLen : Nat) : Parse Nat := fun b =>
  match readPacketNumber b pnLen with
  | none => .error .panic
  | some truncatedPN => .ok (decodePacketNumber largestAcked truncatedPN pnLen, b.drop pnLen)

/-- `offset`, in a packet of `total` bytes. -/
def offset (total : Nat) : Parse Nat := fun b => .ok (total - b.length, b)

def parseShortHeader (total : Nat) (firstByte : UInt8) (destConnIDLen : Int) (largestAcked : Nat) : Parse Header :=
  if firstByte &&& 0x40 = 0 then failWith .invalidFixedBit
  else if firstByte &&& 0x18 ≠ 0 then failWith .invalidReservedBits
  else if destConnIDLen > 20 ∨ destConnIDLen < 0 then failWith .invalidConnectionIDLen
  else do
    let pnLen := (firstByte &&& 0x03).toNat + 1
    need (destConnIDLen.toNat + pnLen) (.error .truncatedHeader)
    let destConnID ← slice destConnIDLen.toNat
    let packetNumberOffset ← offset total
    let packetNumber ← number largestAcked pnLen
    let headerLen ← offset total
    return {
      type := .oneRTT
      spinBit := decide (firstByte &&& 0x20 ≠ 0)
      keyPhase := decide (firstByte &&& 0x04 ≠ 0)
      packetNumberLen := pnLen
      destConnID, packetNumberOffset, packetNumber, headerLen
      payloadLen := total - headerLen }

def parseVersionNegotiation (total : Nat) : Parse Header := do
  need 2 (.error .truncatedHeader)
  let dcidLen ← next
  need (dcidLen.toNat + 1) (.error .truncatedHeader)
  let destConnID ← slice dcidLen.toNat
  let scidLen ← next
  need scidLen.toNat (.error .truncatedHeader)
  let srcConnID ← slice scidLen.toNat
  let headerLen ← offset total
  return {
    isLong := true
    type := .versionNegotiation
    destConnID, srcConnID, headerLen
    payloadLen := total - headerLen }

/-- The 16 bytes behind a Retry token are its integrity tag. -/
def parseRetry (total version : Nat) (destConnID srcConnID : List UInt8) : Parse Header := do
  need 16 (.error .truncatedPacket)
  let behind ← rest
  return {
    isLong := true
    type := .retry
    version, destConnID, srcConnID
    token := behind.take (behind.length - 16)
    headerLen := total - 16
    payloadLen := 16 }

def parseToken (t : PacketType) : Parse (List UInt8) :=
  if t = .initial then do
    let tokenLen ← varint .truncatedHeader
    sized tokenLen .truncatedHeader
  else pure []

/-- The end of a long header, with the length of what it announces checked. -/
def parseNumbered (total : Nat) (firstByte : UInt8) (largestAcked : Nat) (h : Header) : Parse Header :=
  if firstByte &&& 0x0c ≠ 0 then failWith .invalidReservedBits
  else do
    let pnLen := (firstByte &&& 0x03).toNat + 1
    let token ← parseToken h.type
    let length ← varint .truncatedHeader
    need pnLen (.error .truncatedHeader)
    let packetNumberOffset ← offset total
    let packetNumber ← number largestAcked pnLen
    let headerLen ← offset total
    if length < pnLen then failWith .truncatedPacket
    else
      need (length - pnLen) (.error .truncatedPacket)
      return { h with
        packetNumberLen := pnLen
        token, length, packetNumberOffset, packetNumber, headerLen
        payloadLen := length - pnLen }

def parseLongHeader (total : Nat) (firstByte : UInt8) (largestAcked : Nat) : Parse Header := do
  need 4 (.error .truncatedHeader)
  let v ← slice 4
  let version := beNat v
  if version = versionNegotiation then parseVersionNegotiation total
  else if firstByte &&& 0x40 = 0 then failWith .invalidFixedBit
  else
    let destConnID ← connID 1 .invalidConnectionIDLen
    let srcConnID ← connID 0 .invalidConnectionIDLen
    let t := longType version ((firstByte &&& 0x30) >>> 4)
    if t = .retry then parseRetry total version destConnID srcConnID
    else parseNumbered total firstByte largestAcked { isLong := true, type := t, version, destConnID, srcConnID }

def parseHeader (b : List UInt8) (destConnIDLen : Int) (largestAcked : Nat) : Except Fault Header :=
  match b with
  | [] => .error (.error .truncatedPacket)
  | firstByte :: rest =>
    let p :=
      if firstByte &&& 0x80 = 0 then parseShortHeader b.length firstByte destConnIDLen largestAcked
      else parseLongHeader b.length firstByte largestAcked
    match p rest with
    | .ok (h, _) => .ok h
    | .error e => .error e

/-- What `ParseHeaderOffsets` returns. -/
structure HeaderOffsets where
  pnOffset : Nat := 0
  isLong : Bool := false
  typ : PacketType := .initial
  version : Nat := 0
  dcid : List UInt8 := []
  scid : List UInt8 := []
  deriving DecidableEq, Repr

def parseShortOffsets (destConnIDLen : Int) : Parse HeaderOffsets :=
  if destConnIDLen < 0 ∨ destConnIDLen > 20 then failWith .invalidConnectionIDLen
  else do
    -- room for the bytes before the sample
    need (destConnIDLen.toNat + 4) (.error .truncatedPacket)
    let dcid ← slice destConnIDLen.toNat
    return { pnOffset := 1 + destConnIDLen.toNat, typ := .oneRTT, dcid }

def parseLongOffsets (total : Nat) (firstByte : UInt8) : Parse HeaderOffsets := do
  need 4 (.error .truncatedHeader)
  let v ← slice 4
  let version := beNat v
  if version = versionNegotiation then
    return { isLong := true, typ := .versionNegotiation, version }
  else
    let dcid ← connID 1 .truncatedHeader
    let scid ← connID 0 .truncatedHeader
    let typ := longType version ((firstByte &&& 0x30) >>> 4)
    if typ = .retry then return { isLong := true, typ, version, dcid, scid }
    else
      let _token ← parseToken typ
      let _length ← varint .truncatedHeader
      let pnOffset ← offset total
      return { pnOffset, isLong := true, typ, version, dcid, scid }

def parseHeaderOffsets (b : List UInt8) (destConnIDLen : Int) : Except Fault HeaderOffsets :=
  match b with
  | [] => .error (.error .truncatedPacket)
  | firstByte :: rest =>
    let p := if firstByte &&& 0x80 = 0 then parseShortOffsets destConnIDLen else parseLongOffsets b.length firstByte
    match p rest with
    | .ok (o, _) => .ok o
    | .error e => .error e

end Mach.Quic.Wire
