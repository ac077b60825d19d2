import Mach.Lib.Parser
import Mach.Quic.Varint
/-!
# Reading the wire

The errors of `wire/errors.go` and the reads that the frame and header parsers
are made of. Those parsers keep an offset into the packet; here the state is
`b[offset:]`. An index or slice out of range is a `panic`, so that it cannot be
mistaken for an error the code returns.
-/

namespace Mach.Quic.Wire

open Lib Parser

inductive WireError where
  | eof
  | truncatedPacket
  | truncatedHeader
  | truncatedFrame
  | invalidFixedBit
  | invalidReservedBits
  | invalidPacketNumber
  | invalidConnectionIDLen
  | invalidFrameType
  | sampleOutOfBounds
  | decryptionFailed
  deriving DecidableEq, Repr

inductive Fault where
  | error (e : WireError)
  | panic
  deriving DecidableEq, Repr

abbrev Parse := Parser UInt8 Fault

def failWith {α : Type} (e : WireError) : Parse α := fail (.error e)

/-- `varint.Decode(b[offset:])`, where a failure is reported as `e`. -/
def varint (e : WireError) : Parse Nat := fun b =>
  match Varint.decode b with
  | .error _ => .error (.error e)
  | .ok (v, n) => .ok (v, b.drop n)

/-- `b[offset : offset+n]`. -/
def slice (n : Nat) : Parse (List UInt8) := split n .panic

/-- `b[offset]`. -/
def next : Parse UInt8
  | [] => .error .panic
  | x :: b => .ok (x, b)

/-- A slice of `n` bytes, after the check that they are there. -/
def sized (n : Nat) (e : WireError) : Parse (List UInt8) := do
  need n (.error e)
  slice n

theorem reads_varint {v : Nat} (h : v ≤ Varint.max) (e : WireError) : Reads (varint e) (varintBytes v) v := by
  intro r _
  rw [varint, decode_varintBytes h]
  simp

theorem reads_slice {d : List UInt8} {n : Nat} (h : d.length = n) : Reads (slice n) d d := by
  subst h
  exact reads_split d _

theorem reads_next (x : UInt8) : Reads next [x] x := fun _ _ => rfl

theorem reads_sized {d : List UInt8} {n : Nat} (h : d.length = n) (e : WireError) : Reads (sized n e) d d :=
  ReadsBefore.need (reads_slice h) (Nat.le_of_eq h.symm)

end Mach.Quic.Wire
