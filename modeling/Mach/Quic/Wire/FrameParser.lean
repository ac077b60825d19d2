import Mach.Lib.Slice
import Mach.Quic.Wire.Basic
import Mach.Quic.Wire.Frames
/-!
# Reading frames

`wire/frame_parser.go`. `parseNextFrame` fills the frame it is given, and
`frames` hands out that one frame again and again, as it is at that moment.
-/

namespace Mach.Quic.Wire

open Lib Parser

/-- The error of every read that runs out of bytes. -/
abbrev truncated : WireError := .truncatedFrame

/-! ## One kind after another -/

def padRun : List UInt8 → Nat
  | [] => 0
  | x :: b => if x = 0 then padRun b + 1 else 0

def parsePadding (f : Frame) : Parse Frame := fun b =>
  .ok ({ f with type := .padding, paddingCount := padRun b }, b.drop (padRun b))

/-- The offset of a STREAM frame; without the OFF bit it is zero. -/
def parseStreamOffset (rawType : Nat) : Parse Nat :=
  if rawType &&& 0x04 ≠ 0 then varint truncated else pure 0

/-- The data of a STREAM frame; without the LEN bit it is all that is left. -/
def parseStreamData (rawType : Nat) : Parse (List UInt8) :=
  if rawType &&& 0x02 ≠ 0 then do
    let dataLen ← varint truncated
    sized dataLen truncated
  else rest

def parseStream (rawType : Nat) (f : Frame) : Parse Frame := do
  let streamID ← varint truncated
  let streamOffset ← parseStreamOffset rawType
  let data ← parseStreamData rawType
  return { f with
    type := rawType
    stream :=
      { streamID
        offset := streamOffset
        fin := decide (rawType &&& 0x01 ≠ 0)
        hasLen := decide (rawType &&& 0x02 ≠ 0)
        data } }

/-- The loop over the ranges of an ACK frame. -/
def parseAckRanges : Nat → AckFrame → Parse AckFrame
  | 0, a => pure a
  | rangeCount + 1, a => do
    let gap ← varint truncated
    let length ← varint truncated
    parseAckRanges rangeCount (a.appendRange gap length)

def parseECN (typ : FrameType) (a : AckFrame) : Parse AckFrame :=
  if typ = .ackECN then do
    let ect0 ← varint truncated
    let ect1 ← varint truncated
    let ecnce ← varint truncated
    return { a with hasECN := true, ecn := { ect0, ect1, ecnce } }
  else return a

def parseAck (typ : FrameType) (f : Frame) : Parse Frame := do
  let largestAcked ← varint truncated
  let ackDelay ← varint truncated
  let rangeCount ← varint truncated
  let firstAckRange ← varint truncated
  if firstAckRange > largestAcked then failWith truncated
  else
    let a ← parseAckRanges rangeCount { f.ack with largestAcked, ackDelay, firstAckRange }
    let a ← parseECN typ a
    return { f with type := typ, ack := a }

def parseNewConnectionID (f : Frame) : Parse Frame := do
  let sequenceNumber ← varint truncated
  let retirePriorTo ← varint truncated
  need 1 (.error truncated)
  let cidLen ← next
  if cidLen.toNat < 1 ∨ cidLen.toNat > 20 then failWith truncated
  else
    need (cidLen.toNat + 16) (.error truncated)
    let connID ← slice cidLen.toNat
    let token ← slice 16
    return { f with
      type := .newConnectionID
      newConnectionID :=
        { sequenceNumber
          retirePriorTo
          connID
          statelessResetToken := copyArray f.newConnectionID.statelessResetToken token } }

def parseConnectionClose (typ : FrameType) (f : Frame) : Parse Frame := do
  let errorCode ← varint truncated
  let triggerFrameType ← if typ = .connectionCloseTransport then varint truncated else pure 0
  let reasonLen ← varint truncated
  let reason ← sized reasonLen truncated
  return { f with
    type := typ
    connectionClose :=
      { isApplication := decide (typ = .connectionCloseApp), errorCode, frameType := triggerFrameType, reason } }

def parseDatagram (typ : FrameType) (f : Frame) : Parse Frame :=
  if typ = .datagramWithLen then do
    let dataLen ← varint truncated
    let data ← sized dataLen truncated
    return { f with type := typ, datagram := { hasLen := true, data } }
  else do
    let data ← rest
    return { f with type := typ, datagram := { hasLen := false, data } }

def parseBody (typ : FrameType) (f : Frame) : Parse Frame :=
  match typ with
  | .ping => return { f with type := .ping }
  | .ack | .ackECN => parseAck typ f
  | .resetStream => do
    let streamID ← varint truncated
    let errorCode ← varint truncated
    let finalSize ← varint truncated
    return { f with type := .resetStream, resetStream := { streamID, errorCode, finalSize } }
  | .stopSending => do
    let streamID ← varint truncated
    let errorCode ← varint truncated
    return { f with type := .stopSending, stopSending := { streamID, errorCode } }
  | .crypto => do
    let cryptoOffset ← varint truncated
    let length ← varint truncated
    let data ← sized length truncated
    return { f with type := .crypto, crypto := { offset := cryptoOffset, data } }
  | .newToken => do
    let length ← varint truncated
    let token ← sized length truncated
    return { f with type := .newToken, newToken := { token } }
  | .maxData => do
    let maxData ← varint truncated
    return { f with type := .maxData, maxData := { maximumData := maxData } }
  | .maxStreamData => do
    let streamID ← varint truncated
    let maxStreamData ← varint truncated
    return { f with type := .maxStreamData, maxStreamData := { streamID, maximumStreamData := maxStreamData } }
  | .maxStreamsBidi | .maxStreamsUni => do
    let maxStreams ← varint truncated
    return { f with
      type := typ, maxStreams := { maxStreams, unidirectional := decide (typ = .maxStreamsUni) } }
  | .dataBlocked => do
    let maxData ← varint truncated
    return { f with type := .dataBlocked, dataBlocked := { maximumData := maxData } }
  | .streamDataBlocked => do
    let streamID ← varint truncated
    let maxStreamData ← varint truncated
    return { f with
      type := .streamDataBlocked, streamDataBlocked := { streamID, maximumStreamData := maxStreamData } }
  | .streamsBlockedBidi | .streamsBlockedUni => do
    let streamLimit ← varint truncated
    return { f with
      type := typ, streamsBlocked := { streamLimit, unidirectional := decide (typ = .streamsBlockedUni) } }
  | .newConnectionID => parseNewConnectionID f
  | .retireConnectionID => do
    let seq ← varint truncated
    return { f with type := .retireConnectionID, retireConnectionID := { sequenceNumber := seq } }
  | .pathChallenge => do
    let data ← sized 8 truncated
    return { f with type := .pathChallenge, pathChallenge := { data := copyArray f.pathChallenge.data data } }
  | .pathResponse => do
    let data ← sized 8 truncated
    return { f with type := .pathResponse, pathResponse := { data := copyArray f.pathResponse.data data } }
  | .connectionCloseTransport | .connectionCloseApp => parseConnectionClose typ f
  | .handshakeDone => return { f with type := .handshakeDone }
  | .datagram | .datagramWithLen => parseDatagram typ f
  | _ => failWith .invalidFrameType

def parseFrame (f : Frame) : Parse Frame := fun b =>
  if b.head? = some 0 then parsePadding f.reset b
  else
    (do
      let rawType ← varint truncated
      if 0x08 ≤ rawType ∧ rawType ≤ 0x0f then parseStream rawType f.reset else parseBody rawType f.reset : Parse Frame) b

/-- `ParseNextFrame`: how many bytes the frame took, and the frame. -/
def parseNextFrame (b : List UInt8) (f : Frame) : Except Fault (Nat × Frame) :=
  if b = [] then .error (.error .eof)
  else
    match parseFrame f b with
    | .error e => .error e
    | .ok (f, r) => .ok (b.length - r.length, f)

/-! ## The iterator -/

inductive Stop where
  /-- The payload is used up. -/
  | done
  /-- The error that was handed out last. -/
  | failed (e : WireError)
  | panicked
  /-- Not within the given number of frames. -/
  | outOfFuel
  deriving DecidableEq, Repr

/-- The loop of `Frames`, at most `fuel` times around: the frames it yields, each
as it was when it was yielded, and how it ends. -/
def framesLoop : Nat → Frame → List UInt8 → List Frame × Stop
  | _, _, [] => ([], .done)
  | 0, _, _ :: _ => ([], .outOfFuel)
  | fuel + 1, f, x :: payload =>
    match parseNextFrame (x :: payload) f with
    | .error (.error e) => ([], .failed e)
    | .error .panic => ([], .panicked)
    | .ok (n, f) =>
      let next := framesLoop fuel f ((x :: payload).drop n)
      (f :: next.1, next.2)

/-- `Frames`. No payload has more frames than bytes. -/
def frames (payload : List UInt8) : List Frame × Stop := framesLoop payload.length {} payload

end Mach.Quic.Wire
