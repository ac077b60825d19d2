import Mach.Lib.Parser
import Mach.Quic.Varint
import Mach.Quic.Wire.Frames
/-!
# Writing frames

`wire/frame_serializer.go`. Every function appends to `dst`; `none` is a panic.
Most frames are a type byte and some varints, possibly followed by data whose
length was the last of them.
-/

namespace Mach.Quic.Wire

open Lib

variable {vals : List Nat} {t : FrameType}

/-- The loop of `AppendPadding`, at most `fuel` times around. -/
def appendPaddingLoop : Nat → List UInt8 → Nat → List UInt8
  | 0, dst, _ => dst
  | fuel + 1, dst, count =>
    if 0 < count then
      -- `zeroBuf` has 64 bytes
      let n := min count 64
      appendPaddingLoop fuel (dst ++ List.replicate n 0) (count - n)
    else dst

def appendPadding (dst : List UInt8) (count : Nat) : List UInt8 := appendPaddingLoop count dst count

/-- A type byte and varints. -/
def appendFields (dst : List UInt8) (t : FrameType) (vals : List Nat) : Option (List UInt8) :=
  vals.foldlM appendVarint (dst ++ [byte t])

/-- A type byte, varints and data. -/
def appendData (dst : List UInt8) (t : FrameType) (vals : List Nat) (data : List UInt8) : Option (List UInt8) := do
  let dst ← appendFields dst t vals
  return dst ++ data

def appendPing (dst : List UInt8) : Option (List UInt8) := appendFields dst .ping []

def appendAckRange (a : AckFrame) (dst : List UInt8) (i : Nat) : Option (List UInt8) := do
  let r ← a.range i
  let dst ← appendVarint dst r.gap
  appendVarint dst r.length

def appendAckFrame (dst : List UInt8) (a : AckFrame) : Option (List UInt8) := do
  let dst ← appendFields dst (if a.hasECN then .ackECN else .ack)
    [a.largestAcked, a.ackDelay, a.rangeCount, a.firstAckRange]
  let dst ← (List.range a.rangeCount).foldlM (appendAckRange a) dst
  if a.hasECN then [a.ecn.ect0, a.ecn.ect1, a.ecn.ecnce].foldlM appendVarint dst else return dst

def appendResetStreamFrame (dst : List UInt8) (r : ResetStreamFrame) : Option (List UInt8) :=
  appendFields dst .resetStream [r.streamID, r.errorCode, r.finalSize]

def appendStopSendingFrame (dst : List UInt8) (s : StopSendingFrame) : Option (List UInt8) :=
  appendFields dst .stopSending [s.streamID, s.errorCode]

def appendCryptoFrame (dst : List UInt8) (c : CryptoFrame) : Option (List UInt8) :=
  appendData dst .crypto [c.offset, c.data.length] c.data

def appendNewTokenFrame (dst : List UInt8) (n : NewTokenFrame) : Option (List UInt8) :=
  appendData dst .newToken [n.token.length] n.token

/-- The type of a STREAM frame: its flags are in the low bits. -/
def StreamFrame.typ (s : StreamFrame) : UInt8 :=
  let typ := byte FrameType.stream
  let typ := if s.offset ≠ 0 then typ ||| 0x04 else typ
  let typ := if s.hasLen then typ ||| 0x02 else typ
  if s.fin then typ ||| 0x01 else typ

def appendStreamFrame (dst : List UInt8) (s : StreamFrame) : Option (List UInt8) := do
  let dst ← appendVarint (dst ++ [s.typ]) s.streamID
  let dst ← if s.offset ≠ 0 then appendVarint dst s.offset else pure dst
  let dst ← if s.hasLen then appendVarint dst s.data.length else pure dst
  return dst ++ s.data

def appendMaxDataFrame (dst : List UInt8) (m : MaxDataFrame) : Option (List UInt8) :=
  appendFields dst .maxData [m.maximumData]

def appendMaxStreamDataFrame (dst : List UInt8) (m : MaxStreamDataFrame) : Option (List UInt8) :=
  appendFields dst .maxStreamData [m.streamID, m.maximumStreamData]

def appendMaxStreamsFrame (dst : List UInt8) (m : MaxStreamsFrame) : Option (List UInt8) :=
  appendFields dst (if m.unidirectional then .maxStreamsUni else .maxStreamsBidi) [m.maxStreams]

def appendDataBlockedFrame (dst : List UInt8) (d : DataBlockedFrame) : Option (List UInt8) :=
  appendFields dst .dataBlocked [d.maximumData]

def appendStreamDataBlockedFrame (dst : List UInt8) (s : StreamDataBlockedFrame) : Option (List UInt8) :=
  appendFields dst .streamDataBlocked [s.streamID, s.maximumStreamData]

def appendStreamsBlockedFrame (dst : List UInt8) (s : StreamsBlockedFrame) : Option (List UInt8) :=
  appendFields dst (if s.unidirectional then .streamsBlockedUni else .streamsBlockedBidi) [s.streamLimit]

def appendNewConnectionIDFrame (dst : List UInt8) (n : NewConnectionIDFrame) : Option (List UInt8) :=
  appendData dst .newConnectionID [n.sequenceNumber, n.retirePriorTo]
    (byte n.connID.length :: (n.connID ++ n.statelessResetToken.toList))

def appendRetireConnectionIDFrame (dst : List UInt8) (r : RetireConnectionIDFrame) : Option (List UInt8) :=
  appendFields dst .retireConnectionID [r.sequenceNumber]

def appendPathChallengeFrame (dst : List UInt8) (p : PathChallengeFrame) : Option (List UInt8) :=
  appendData dst .pathChallenge [] p.data.toList

def appendPathResponseFrame (dst : List UInt8) (p : PathResponseFrame) : Option (List UInt8) :=
  appendData dst .pathResponse [] p.data.toList

def appendConnectionCloseFrame (dst : List UInt8) (c : ConnectionCloseFrame) : Option (List UInt8) :=
  if c.isApplication then appendData dst .connectionCloseApp [c.errorCode, c.reason.length] c.reason
  else appendData dst .connectionCloseTransport [c.errorCode, c.frameType, c.reason.length] c.reason

def appendHandshakeDoneFrame (dst : List UInt8) : Option (List UInt8) := appendFields dst .handshakeDone []

def appendDatagramFrame (dst : List UInt8) (d : DatagramFrame) : Option (List UInt8) :=
  if d.hasLen then appendData dst .datagramWithLen [d.data.length] d.data else appendData dst .datagram [] d.data

def appendFrame (dst : List UInt8) (f : Frame) : Option (List UInt8) :=
  match f.type with
  | .padding => some (appendPadding dst f.paddingCount)
  | .ping => appendPing dst
  | .ack | .ackECN => appendAckFrame dst f.ack
  | .resetStream => appendResetStreamFrame dst f.resetStream
  | .stopSending => appendStopSendingFrame dst f.stopSending
  | .crypto => appendCryptoFrame dst f.crypto
  | .newToken => appendNewTokenFrame dst f.newToken
  | .maxData => appendMaxDataFrame dst f.maxData
  | .maxStreamData => appendMaxStreamDataFrame dst f.maxStreamData
  | .maxStreamsBidi | .maxStreamsUni => appendMaxStreamsFrame dst f.maxStreams
  | .dataBlocked => appendDataBlockedFrame dst f.dataBlocked
  | .streamDataBlocked => appendStreamDataBlockedFrame dst f.streamDataBlocked
  | .streamsBlockedBidi | .streamsBlockedUni => appendStreamsBlockedFrame dst f.streamsBlocked
  | .newConnectionID => appendNewConnectionIDFrame dst f.newConnectionID
  | .retireConnectionID => appendRetireConnectionIDFrame dst f.retireConnectionID
  | .pathChallenge => appendPathChallengeFrame dst f.pathChallenge
  | .pathResponse => appendPathResponseFrame dst f.pathResponse
  | .connectionCloseTransport | .connectionCloseApp => appendConnectionCloseFrame dst f.connectionClose
  | .handshakeDone => appendHandshakeDoneFrame dst
  | .datagram | .datagramWithLen => appendDatagramFrame dst f.datagram
  | t => if 0x08 ≤ t ∧ t ≤ 0x0f then appendStreamFrame dst f.stream else none

/-- `AppendFrame` of one frame after another. -/
def appendFrames (dst : List UInt8) (fs : List Frame) : Option (List UInt8) := fs.foldlM appendFrame dst

/-! ## What is written -/

theorem appendPaddingLoop_eq (fuel : Nat) (dst : List UInt8) (count : Nat) (h : count ≤ fuel) :
    appendPaddingLoop fuel dst count = dst ++ List.replicate count 0 := by
  induction fuel generalizing dst count with
  | zero =>
    obtain rfl : count = 0 := by omega
    simp [appendPaddingLoop]
  | succ fuel ih =>
    unfold appendPaddingLoop
    by_cases hc : 0 < count
    · simp only [hc, if_true]
      rw [ih _ _ (by omega), List.append_assoc, List.replicate_append_replicate,
        show min count 64 + (count - min count 64) = count by omega]
    · obtain rfl : count = 0 := by omega
      simp

theorem appendPadding_eq (dst : List UInt8) (count : Nat) : appendPadding dst count = dst ++ List.replicate count 0 :=
  appendPaddingLoop_eq count dst count (Nat.le_refl _)

theorem writes_varint {v : Nat} (h : v ≤ Varint.max) : Writes (appendVarint · v) (varintBytes v) := appendVarint_eq h

section Varints

variable (h : ∀ v ∈ vals, v ≤ Varint.max)
include h

theorem writes_varints :
    Writes (vals.foldlM appendVarint) (vals.flatMap varintBytes) :=
  Writes.foldlM fun v hv => writes_varint (h v hv)

theorem writes_fields :
    Writes (appendFields · t vals) (byte t :: vals.flatMap varintBytes) := fun dst =>
  (writes_varints h (dst ++ [byte t])).trans (by rw [List.append_assoc]; rfl)

theorem writes_data (data : List UInt8) :
    Writes (appendData · t vals data) (byte t :: (vals.flatMap varintBytes ++ data)) :=
  (writes_fields h).bind (writes_append data)

end Varints

end Mach.Quic.Wire
