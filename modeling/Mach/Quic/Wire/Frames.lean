import Mach.Lib.Bytes
import Mathlib.Data.Vector.Defs
/-!
# Frames

`wire/frames.go`. A `Frame` has a type and one sub-structure for every kind of
frame; the type says which of them is meant. The parser fills one `Frame` again
and again, and `reset` clears only part of it in between.
-/

namespace Mach.Quic.Wire

open Lib
open List hiding Vector

abbrev FrameType := Nat

namespace FrameType

@[match_pattern] abbrev padding : FrameType := 0x00
@[match_pattern] abbrev ping : FrameType := 0x01
@[match_pattern] abbrev ack : FrameType := 0x02
@[match_pattern] abbrev ackECN : FrameType := 0x03
@[match_pattern] abbrev resetStream : FrameType := 0x04
@[match_pattern] abbrev stopSending : FrameType := 0x05
@[match_pattern] abbrev crypto : FrameType := 0x06
@[match_pattern] abbrev newToken : FrameType := 0x07
/-- `0x08` to `0x0f`: the three low bits are flags. -/
@[match_pattern] abbrev stream : FrameType := 0x08
@[match_pattern] abbrev maxData : FrameType := 0x10
@[match_pattern] abbrev maxStreamData : FrameType := 0x11
@[match_pattern] abbrev maxStreamsBidi : FrameType := 0x12
@[match_pattern] abbrev maxStreamsUni : FrameType := 0x13
@[match_pattern] abbrev dataBlocked : FrameType := 0x14
@[match_pattern] abbrev streamDataBlocked : FrameType := 0x15
@[match_pattern] abbrev streamsBlockedBidi : FrameType := 0x16
@[match_pattern] abbrev streamsBlockedUni : FrameType := 0x17
@[match_pattern] abbrev newConnectionID : FrameType := 0x18
@[match_pattern] abbrev retireConnectionID : FrameType := 0x19
@[match_pattern] abbrev pathChallenge : FrameType := 0x1a
@[match_pattern] abbrev pathResponse : FrameType := 0x1b
@[match_pattern] abbrev connectionCloseTransport : FrameType := 0x1c
@[match_pattern] abbrev connectionCloseApp : FrameType := 0x1d
@[match_pattern] abbrev handshakeDone : FrameType := 0x1e
@[match_pattern] abbrev datagram : FrameType := 0x30
@[match_pattern] abbrev datagramWithLen : FrameType := 0x31

end FrameType

/-! ## ACK ranges -/

structure AckRange where
  gap : Nat := 0
  length : Nat := 0
  deriving DecidableEq, Repr, Inhabited

structure ECNCounts where
  ect0 : Nat := 0
  ect1 : Nat := 0
  ecnce : Nat := 0
  deriving DecidableEq, Repr

/-- The first eight ranges are stored inline, the others in a slice. -/
structure AckFrame where
  largestAcked : Nat := 0
  ackDelay : Nat := 0
  firstAckRange : Nat := 0
  inlineRanges : Vector AckRange 8 := Vector.replicate 8 {}
  numInlineRanges : Nat := 0
  extraRanges : List AckRange := []
  hasECN : Bool := false
  ecn : ECNCounts := {}
  deriving DecidableEq, Repr

namespace AckFrame

def rangeCount (a : AckFrame) : Nat := a.numInlineRanges + a.extraRanges.length

/-- `Range(i)`; `none` where the index is out of range. -/
def range (a : AckFrame) (i : Nat) : Option AckRange :=
  if i < a.numInlineRanges then a.inlineRanges[i]? else a.extraRanges[i - a.numInlineRanges]?

def appendRange (a : AckFrame) (gap length : Nat) : AckFrame :=
  if a.numInlineRanges < 8 then
    { a with
      inlineRanges := a.inlineRanges.setIfInBounds a.numInlineRanges ⟨gap, length⟩
      numInlineRanges := a.numInlineRanges + 1 }
  else { a with extraRanges := a.extraRanges ++ [⟨gap, length⟩] }

/-- `Reset`: the inline ranges stay behind, past the count. -/
def reset (a : AckFrame) : AckFrame := { inlineRanges := a.inlineRanges }

end AckFrame

/-! ## The other frames -/

structure ResetStreamFrame where
  streamID : Nat := 0
  errorCode : Nat := 0
  finalSize : Nat := 0
  deriving DecidableEq, Repr

structure StopSendingFrame where
  streamID : Nat := 0
  errorCode : Nat := 0
  deriving DecidableEq, Repr

structure CryptoFrame where
  offset : Nat := 0
  data : List UInt8 := []
  deriving DecidableEq, Repr

structure NewTokenFrame where
  token : List UInt8 := []
  deriving DecidableEq, Repr

@[ext]
structure StreamFrame where
  streamID : Nat := 0
  offset : Nat := 0
  fin : Bool := false
  hasLen : Bool := false
  data : List UInt8 := []
  deriving DecidableEq, Repr

structure MaxDataFrame where
  maximumData : Nat := 0
  deriving DecidableEq, Repr

structure MaxStreamDataFrame where
  streamID : Nat := 0
  maximumStreamData : Nat := 0
  deriving DecidableEq, Repr

@[ext]
structure MaxStreamsFrame where
  maxStreams : Nat := 0
  unidirectional : Bool := false
  deriving DecidableEq, Repr

structure DataBlockedFrame where
  maximumData : Nat := 0
  deriving DecidableEq, Repr

structure StreamDataBlockedFrame where
  streamID : Nat := 0
  maximumStreamData : Nat := 0
  deriving DecidableEq, Repr

@[ext]
structure StreamsBlockedFrame where
  streamLimit : Nat := 0
  unidirectional : Bool := false
  deriving DecidableEq, Repr

structure NewConnectionIDFrame where
  sequenceNumber : Nat := 0
  retirePriorTo : Nat := 0
  connID : List UInt8 := []
  statelessResetToken : Vector UInt8 16 := Vector.replicate 16 0
  deriving DecidableEq, Repr

structure RetireConnectionIDFrame where
  sequenceNumber : Nat := 0
  deriving DecidableEq, Repr

structure PathChallengeFrame where
  data : Vector UInt8 8 := Vector.replicate 8 0
  deriving DecidableEq, Repr

structure PathResponseFrame where
  data : Vector UInt8 8 := Vector.replicate 8 0
  deriving DecidableEq, Repr

@[ext]
structure ConnectionCloseFrame where
  isApplication : Bool := false
  errorCode : Nat := 0
  /-- The frame that caused a transport close. -/
  frameType : Nat := 0
  reason : List UInt8 := []
  deriving DecidableEq, Repr

@[ext]
structure DatagramFrame where
  hasLen : Bool := false
  data : List UInt8 := []
  deriving DecidableEq, Repr

structure Frame where
  type : FrameType := 0
  paddingCount : Nat := 0
  ack : AckFrame := {}
  resetStream : ResetStreamFrame := {}
  stopSending : StopSendingFrame := {}
  crypto : CryptoFrame := {}
  newToken : NewTokenFrame := {}
  stream : StreamFrame := {}
  maxData : MaxDataFrame := {}
  maxStreamData : MaxStreamDataFrame := {}
  maxStreams : MaxStreamsFrame := {}
  dataBlocked : DataBlockedFrame := {}
  streamDataBlocked : StreamDataBlockedFrame := {}
  streamsBlocked : StreamsBlockedFrame := {}
  newConnectionID : NewConnectionIDFrame := {}
  retireConnectionID : RetireConnectionIDFrame := {}
  pathChallenge : PathChallengeFrame := {}
  pathResponse : PathResponseFrame := {}
  connectionClose : ConnectionCloseFrame := {}
  datagram : DatagramFrame := {}
  deriving DecidableEq, Repr

def Frame.reset (f : Frame) : Frame :=
  { f with
    type := 0
    paddingCount := 0
    ack := f.ack.reset
    crypto := { f.crypto with data := [] }
    newToken := { f.newToken with token := [] }
    stream := { f.stream with data := [] }
    newConnectionID := { f.newConnectionID with connID := [] }
    connectionClose := { f.connectionClose with reason := [] }
    datagram := { f.datagram with data := [] } }

/-! ## What the range storage holds -/

namespace AckFrame

variable {a : AckFrame}

/-- `Range(0)`, `Range(1)` and so on, as a list. -/
def ranges (a : AckFrame) : List AckRange := a.inlineRanges.toList.take a.numInlineRanges ++ a.extraRanges

/-- The slice is used only once the inline ranges are full. -/
structure Packed (a : AckFrame) : Prop where
  inline_le : a.numInlineRanges ≤ 8
  spills : a.numInlineRanges < 8 → a.extraRanges = []

theorem length_ranges (h : a.numInlineRanges ≤ 8) : a.ranges.length = a.rangeCount := by
  simp [ranges, rangeCount]; omega

theorem range_eq (h : a.numInlineRanges ≤ 8) (i : Nat) : a.range i = a.ranges[i]? := by
  have hlen : (a.inlineRanges.toList.take a.numInlineRanges).length = a.numInlineRanges := by simp; omega
  unfold range ranges
  by_cases hi : i < a.numInlineRanges
  · rw [if_pos hi, getElem?_append_left (by omega), getElem?_take_of_lt hi, Vector.getElem?_toList]
  · rw [if_neg hi, getElem?_append_right (by omega), hlen]

theorem packed_appendRange (h : a.Packed) (gap length : Nat) : (a.appendRange gap length).Packed := by
  unfold appendRange
  by_cases h8 : a.numInlineRanges < 8
  · simp only [h8, if_true]
    exact ⟨h8, fun _ => h.spills h8⟩
  · simp only [h8, if_false]
    exact ⟨h.inline_le, fun h' => absurd h' h8⟩

theorem ranges_appendRange (h : a.Packed) (gap length : Nat) :
    (a.appendRange gap length).ranges = a.ranges ++ [⟨gap, length⟩] := by
  unfold appendRange
  by_cases h8 : a.numInlineRanges < 8
  · -- the inline slot behind the last one in use
    simp only [h8, if_true, ranges, h.spills h8, append_nil]
    rw [take_add_one, Vector.toList_setIfInBounds, take_set_of_le (Nat.le_refl _),
      getElem?_set_self (by simpa using h8)]
    rfl
  · simp [h8, ranges]

end AckFrame

end Mach.Quic.Wire
