import Mach.Quic.Bridge.Dispatch
import Mach.Quic.Wire.Protection
/-!
# Incoming packets

`HandleIncomingPacket` of `bridge.go` and what it calls. A datagram holds packets of
several encryption levels. A packet whose level has no keys yet is put aside and
handled again by `checkHandshakeProgressLocked`, which runs after every packet.
The packets to send, and the keys to protect them with, are left out; the state of
the handshake driver after they are collected is kept.
-/

namespace Mach.Quic

open Wire

/-- What the bridge uses of the handshake driver. `readKeys` stands for `ReadKeys`
and the `NewPacketOpener` made from it, `drainCryptoData` for what collecting the
packets to send leaves of the driver. -/
structure HandshakeDriver (δ ε : Type) where
  handleCryptoData : CryptoHandler δ ε
  readKeys (d : δ) (level : EncryptionLevel) : Option Keys
  isHandshakeDone (d : δ) : Bool
  drainCryptoData (d : δ) : δ

/-- The receiving side of `CoreSessionBridge`. The openers, packet numbers and lists
of early packets are fields of their own for every level in the source; a level
without one has `none` or nothing here. -/
structure Session (δ σ : Type) extends Bridge δ σ where
  perspective : Stream.Perspective
  destConnID : List UInt8
  srcConnID : List UInt8
  /-- There is a socket and an address to send to. -/
  connected : Bool
  openers : EncryptionLevel → Option Keys
  largestRecvPN : EncryptionLevel → Nat := fun _ => invalidPacketNumber
  earlyPackets : EncryptionLevel → List (List UInt8) := fun _ => []
  handshakeDone : Bool := false
  /-- Every call of `OpenPacket` so far: the level and the bytes. -/
  opened : List (EncryptionLevel × List UInt8) := []

inductive PacketError (ε : Type) where
  /-- "quic: unsupported or invalid long header packet type" -/
  | unsupportedType
  /-- "quic: invalid fixed bit in short header" -/
  | invalidFixedBit
  /-- "quic: initial opener not available" -/
  | noInitialOpener
  /-- "quic: %s open error: %w" -/
  | openFailed (level : EncryptionLevel) (e : Fault)
  | frames (e : DispatchError ε)
  deriving DecidableEq, Repr

/-- The level a packet is handled at, by its first byte. -/
def packetLevel {ε : Type} (firstByte : UInt8) : Except (PacketError ε) EncryptionLevel :=
  if firstByte &&& 0x80 ≠ 0 then
    let typeBits := (firstByte &&& 0x30) >>> 4
    if typeBits = 0x0 then .ok .initial
    else if typeBits = 0x2 then .ok .handshake
    else .error .unsupportedType
  else if firstByte &&& 0x40 = 0 then .error .invalidFixedBit
  else .ok .oneRTT

def maxEarlyPackets : Nat := 32

namespace Session

variable {δ σ ε : Type} (driver : HandshakeDriver δ ε) (engine : StreamEngine σ ε)

/-- The reading half of `ensureHandshakeKeysLocked` and `ensure1RTTKeysLocked`. -/
def ensureKeys (level : EncryptionLevel) (s : Session δ σ) : Session δ σ :=
  match s.openers level with
  | some _ => s
  | none => { s with openers := Function.update s.openers level (driver.readKeys s.handshakeDriver level) }

def storeLargest (s : Session δ σ) (level : EncryptionLevel) (packetNumber : Nat) : Session δ σ :=
  if s.largestRecvPN level = invalidPacketNumber ∨ packetNumber > s.largestRecvPN level then
    { s with largestRecvPN := Function.update s.largestRecvPN level packetNumber }
  else s

/-- A client takes the connection ID the server has chosen. -/
def adoptConnID (s : Session δ σ) (level : EncryptionLevel) (srcConnID : List UInt8) : Session δ σ :=
  if level = .initial ∧ s.perspective = .client ∧ srcConnID ≠ [] then { s with destConnID := srcConnID } else s

/-- The part of `handleSinglePacketLocked` that is the same for every level. -/
def openAndProcess (s : Session δ σ) (level : EncryptionLevel) (opener : Keys) (packetData : List UInt8) :
    Session δ σ × Except (PacketError ε) Header :=
  let largestAcked := s.largestRecvPN level
  let s := { s with opened := s.opened ++ [(level, packetData)] }
  match openPacket opener [] packetData s.srcConnID.length largestAcked with
  | .error e => (s, .error (.openFailed level e))
  | .ok (hdr, decryptedPayload) =>
    let s := s.storeLargest level hdr.packetNumber
    let (b, err) := processDecryptedFrames driver.handleCryptoData engine level s.toBridge decryptedPayload
    let s := { s with toBridge := b }
    match err with
    | some e => (s, .error (.frames e))
    | none => (s.adoptConnID level hdr.srcConnID, .ok hdr)

/-- Puts a packet aside, if there is room. -/
def keepEarly (s : Session δ σ) (level : EncryptionLevel) (packetData : List UInt8) : Session δ σ :=
  if (s.earlyPackets level).length < maxEarlyPackets then
    { s with earlyPackets := Function.update s.earlyPackets level (s.earlyPackets level ++ [packetData]) }
  else s

/-- The packets to send are collected and sent, if they can be sent. -/
def flush (s : Session δ σ) : Session δ σ :=
  if s.connected then { s with handshakeDriver := driver.drainCryptoData s.handshakeDriver } else s

/-- How many bytes a packet took. A short header has no length: all of them. -/
def consumed (packetData : List UInt8) (firstByte : UInt8) (hdr : Header) : Nat :=
  if firstByte &&& 0x80 ≠ 0 ∧ hdr.headerLen + hdr.payloadLen > 0 ∧ hdr.headerLen + hdr.payloadLen ≤ packetData.length then
    hdr.headerLen + hdr.payloadLen
  else packetData.length

/-- `handleSinglePacketLocked`, with `checkHandshakeProgressLocked` as a parameter. -/
def handleSinglePacketWith (check : Session δ σ → Session δ σ) (s : Session δ σ) (packetData : List UInt8) :
    Session δ σ × Except (PacketError ε) Nat :=
  match packetData with
  | [] => (s, .ok 0)
  | firstByte :: _ =>
    match packetLevel firstByte with
    | .error e => (s, .error e)
    | .ok level =>
      let s := if level = .initial then s else s.ensureKeys driver level
      match s.openers level with
      | none => if level = .initial then (s, .error .noInitialOpener) else (s.keepEarly level packetData, .ok packetData.length)
      | some opener =>
        match s.openAndProcess driver engine level opener packetData with
        | (s, .error e) => (s, .error e)
        | (s, .ok hdr) => ((check s).flush driver, .ok (consumed packetData firstByte hdr))

/-- With the list of early packets of a level taken away. -/
def cleared (s : Session δ σ) (level : EncryptionLevel) : Session δ σ :=
  { s with earlyPackets := Function.update s.earlyPackets level [] }

/-- Handles the early packets of a level again, if its keys are there. What becomes
of each of them is ignored. -/
def drainEarlyWith (check : Session δ σ → Session δ σ) (level : EncryptionLevel) (s : Session δ σ) : Session δ σ :=
  if s.openers level ≠ none then
    (s.earlyPackets level).foldl (fun s pkt => (handleSinglePacketWith driver engine check s pkt).1) (s.cleared level)
  else s

/-- `checkHandshakeProgressLocked`, nested at most `depth` times: the packets it
handles run it again. -/
def checkHandshakeProgress : Nat → Session δ σ → Session δ σ
  | 0, s => s
  | depth + 1, s =>
    let check := checkHandshakeProgress depth
    let s := (s.ensureKeys driver .handshake).ensureKeys driver .oneRTT
    let s := drainEarlyWith driver engine check .handshake s
    let s := drainEarlyWith driver engine check .oneRTT s
    if driver.isHandshakeDone s.handshakeDriver then { s with handshakeDone := true } else s

/-- Two lists can be drained, each from within the other's. -/
def maxDepth : Nat := 3

def handleSinglePacket (s : Session δ σ) (packetData : List UInt8) : Session δ σ × Except (PacketError ε) Nat :=
  handleSinglePacketWith driver engine (checkHandshakeProgress driver engine maxDepth) s packetData

/-- The loop of `HandleIncomingPacket`, at most `fuel` times around. -/
def handlePackets : Nat → Session δ σ → List UInt8 → Session δ σ × Option (PacketError ε)
  | _, s, [] => (s, none)
  | 0, s, _ => (s, none)
  | fuel + 1, s, packetData =>
    match s.handleSinglePacket driver engine packetData with
    | (s, .error e) => (s, some e)
    | (s, .ok consumed) =>
      if consumed = 0 ∨ consumed ≥ packetData.length then (s, none)
      else handlePackets fuel s (packetData.drop consumed)

/-- `HandleIncomingPacket`. Every packet takes at least a byte. -/
def handleIncomingPacket (s : Session δ σ) (packetData : List UInt8) : Session δ σ × Option (PacketError ε) :=
  handlePackets driver engine packetData.length s packetData

end Session

end Mach.Quic
