import Mach.Quic.Stream.Id
import Mach.Quic.Wire.FrameParser
/-!
# Frame dispatch

`processDecryptedFramesLocked` of `bridge.go`: the frames of a decrypted packet go,
one after the other, to the handshake driver or to the stream engine. Both are
parameters here, with the state they keep. A packet is given up at the first frame
that is malformed or that a handler rejects; what the frames before it have done
stays done.
-/

namespace Mach.Quic

open Wire

/-- `handshake.EncryptionLevel`. -/
inductive EncryptionLevel where
  | initial | early | handshake | oneRTT
  deriving DecidableEq, Repr

/-- `HandleCryptoData` of the handshake driver: the state it leaves behind, and the
error it returns. -/
abbrev CryptoHandler (δ ε : Type) := δ → EncryptionLevel → List UInt8 → δ × Option ε

/-- What the dispatch calls of `stream.Conn`. Only two of the handlers return an
error, and that of `CloseWithError` is dropped. -/
structure StreamEngine (σ ε : Type) where
  handleStreamFrame (s : σ) (id offset : Nat) (data : List UInt8) (fin : Bool) : σ × Option ε
  handleResetStreamFrame (s : σ) (id errorCode finalSize : Nat) : σ × Option ε
  handleStopSendingFrame (s : σ) (id errorCode : Nat) : σ
  handleMaxDataFrame (s : σ) (maximumData : Nat) : σ
  handleMaxStreamDataFrame (s : σ) (id maximumStreamData : Nat) : σ
  handleMaxStreamsFrame (s : σ) (streamType : Stream.StreamType) (maxStreams : Nat) : σ
  closeWithError (s : σ) (errorCode : Nat) (reason : List UInt8) : σ

inductive DispatchError (ε : Type) where
  /-- "quic: malformed frame in %s packet: %w" -/
  | malformedFrame (level : EncryptionLevel) (e : WireError)
  /-- "quic: crypto data error at %s: %w" -/
  | cryptoData (level : EncryptionLevel) (e : ε)
  /-- An error of the stream engine, as it is. -/
  | stream (e : ε)
  | panic
  deriving DecidableEq, Repr

/-- The two parts of `CoreSessionBridge` the dispatch works on. -/
structure Bridge (δ σ : Type) where
  handshakeDriver : δ
  streamConn : σ

section Dispatch

variable {δ σ ε : Type} (handleCryptoData : CryptoHandler δ ε) (engine : StreamEngine σ ε) (level : EncryptionLevel)

/-- The `switch` over the type of a frame. -/
def dispatch (b : Bridge δ σ) (f : Frame) : Bridge δ σ × Option (DispatchError ε) :=
  if f.type = .padding then (b, none)
  else if f.type = .ping then (b, none)
  else if f.type = .crypto then
    let (d, err) := handleCryptoData b.handshakeDriver level f.crypto.data
    ({ b with handshakeDriver := d }, err.map (.cryptoData level))
  else if 0x08 ≤ f.type ∧ f.type ≤ 0x0f then
    let (s, err) :=
      engine.handleStreamFrame b.streamConn f.stream.streamID f.stream.offset f.stream.data f.stream.fin
    ({ b with streamConn := s }, err.map .stream)
  else if f.type = .resetStream then
    let (s, err) :=
      engine.handleResetStreamFrame b.streamConn f.resetStream.streamID f.resetStream.errorCode f.resetStream.finalSize
    ({ b with streamConn := s }, err.map .stream)
  else if f.type = .stopSending then
    let s := engine.handleStopSendingFrame b.streamConn f.stopSending.streamID f.stopSending.errorCode
    ({ b with streamConn := s }, none)
  else if f.type = .maxData then
    ({ b with streamConn := engine.handleMaxDataFrame b.streamConn f.maxData.maximumData }, none)
  else if f.type = .maxStreamData then
    let s := engine.handleMaxStreamDataFrame b.streamConn f.maxStreamData.streamID f.maxStreamData.maximumStreamData
    ({ b with streamConn := s }, none)
  else if f.type = .maxStreamsBidi then
    ({ b with streamConn := engine.handleMaxStreamsFrame b.streamConn .clientBidi f.maxStreams.maxStreams }, none)
  else if f.type = .maxStreamsUni then
    ({ b with streamConn := engine.handleMaxStreamsFrame b.streamConn .clientUni f.maxStreams.maxStreams }, none)
  else if f.type = .connectionCloseTransport ∨ f.type = .connectionCloseApp then
    let s := engine.closeWithError b.streamConn f.connectionClose.errorCode f.connectionClose.reason
    ({ b with streamConn := s }, none)
  else (b, none)

/-- The loop over the frames, up to the first that is rejected. -/
def dispatchAll : Bridge δ σ → List Frame → Bridge δ σ × Option (DispatchError ε)
  | b, [] => (b, none)
  | b, f :: fs =>
    match dispatch handleCryptoData engine level b f with
    | (b, none) => dispatchAll b fs
    | (b, some e) => (b, some e)

def stopError : Stop → Option (DispatchError ε)
  | .done => none
  | .failed e => some (.malformedFrame level e)
  | .panicked | .outOfFuel => some .panic

def processDecryptedFrames (b : Bridge δ σ) (payload : List UInt8) : Bridge δ σ × Option (DispatchError ε) :=
  match dispatchAll handleCryptoData engine level b (frames payload).1 with
  | (b, none) => (b, stopError level (frames payload).2)
  | (b, some e) => (b, some e)

end Dispatch

/-- One decrypted packet after the other. The transport drops the error a packet
ends with and goes on with the next one. -/
def processPackets {δ σ ε : Type} (handleCryptoData : CryptoHandler δ ε) (engine : StreamEngine σ ε) (b : Bridge δ σ)
    (packets : List (EncryptionLevel × List UInt8)) : Bridge δ σ :=
  packets.foldl (fun b p => (processDecryptedFrames handleCryptoData engine p.1 b p.2).1) b

/-! ## What reaches the handshake driver -/

section Driver

variable {δ σ ε : Type} (handleCryptoData : CryptoHandler δ ε) (engine : StreamEngine σ ε) (level : EncryptionLevel)

/-- A CRYPTO frame is handed on without its offset. -/
theorem dispatch_crypto (b : Bridge δ σ) {f : Frame} (hf : f.type = .crypto) :
    dispatch handleCryptoData engine level b f =
      ({ b with handshakeDriver := (handleCryptoData b.handshakeDriver level f.crypto.data).1 },
        (handleCryptoData b.handshakeDriver level f.crypto.data).2.map (.cryptoData level)) := by
  simp [dispatch, hf]

theorem dispatch_handshakeDriver (b : Bridge δ σ) {f : Frame} (hf : f.type ≠ .crypto) :
    (dispatch handleCryptoData engine level b f).1.handshakeDriver = b.handshakeDriver := by
  -- `split_ifs` on a chain this long simplifies all that is below at every step.
  let keeps : Bridge δ σ × Option (DispatchError ε) → Prop := fun r => r.1.handshakeDriver = b.handshakeDriver
  change keeps (dispatch handleCryptoData engine level b f)
  unfold dispatch
  repeat' refine iteInduction (motive := keeps) (fun _ => ?_) fun _ => ?_
  all_goals first | rfl | contradiction

theorem dispatchAll_handshakeDriver (b : Bridge δ σ) {fs : List Frame} (hfs : ∀ f ∈ fs, f.type ≠ .crypto) :
    (dispatchAll handleCryptoData engine level b fs).1.handshakeDriver = b.handshakeDriver := by
  induction fs generalizing b with
  | nil => rfl
  | cons f fs ih =>
    have hf := dispatch_handshakeDriver handleCryptoData engine level b (hfs f List.mem_cons_self)
    rw [dispatchAll]
    split
    case h_1 b' hd => rw [ih b' fun g hg => hfs g (List.mem_cons_of_mem _ hg), ← hf, hd]
    case h_2 b' e hd => rw [← hf, hd]

/-- The packet's own end does not change what the frames have done. -/
theorem processDecryptedFrames_bridge (b : Bridge δ σ) (payload : List UInt8) :
    (processDecryptedFrames handleCryptoData engine level b payload).1 =
      (dispatchAll handleCryptoData engine level b (frames payload).1).1 := by
  rw [processDecryptedFrames]
  split <;> simp_all

end Driver

end Mach.Quic
