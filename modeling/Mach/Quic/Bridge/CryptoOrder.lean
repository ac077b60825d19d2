import Mach.Lib.Pieces
import Mach.Quic.Bridge.Dispatch
import Mach.Quic.Wire.FrameRoundTrip
/-!
# CRYPTO data and the order it comes in

TLS reads the CRYPTO data of an encryption level as one byte stream; a frame says
at which offset of the stream its data belongs. The dispatch hands the data on
without the offset, so the handshake driver gets the stream only if the network
delivers the frames in order and each of them once.
-/

namespace Mach.Quic

open Lib Wire

/-! ## A handshake driver that records -/

/-- The data handed over, with its level, in the order of the calls. -/
abbrev CryptoLog := List (EncryptionLevel × List UInt8)

def record {ε : Type} : CryptoHandler CryptoLog ε := fun log level data => (log ++ [(level, data)], none)

/-- All the data of a level, put together. -/
def handed (level : EncryptionLevel) (log : CryptoLog) : List UInt8 :=
  log.flatMap fun e => if e.1 = level then e.2 else []

theorem handed_append (level : EncryptionLevel) (log log' : CryptoLog) :
    handed level (log ++ log') = handed level log ++ handed level log' := by
  simp [handed]

/-! ## Packets that carry a crypto stream -/

def Ignored (f : Frame) : Prop :=
  f.type ∈ ([.padding, .ping, .ack, .ackECN, .newToken, .dataBlocked, .streamDataBlocked, .streamsBlockedBidi,
    .streamsBlockedUni, .newConnectionID, .retireConnectionID, .pathChallenge, .pathResponse, .handshakeDone,
    .datagram, .datagramWithLen] : List FrameType)

/-- A part of a crypto stream that fits into a CRYPTO frame. -/
structure Piece where
  offset : Nat
  length : Nat
  offset_le : offset ≤ Varint.max
  length_le : length ≤ Varint.max

/-- One frame of a packet: a CRYPTO frame, or one that is passed over. -/
inductive Item where
  | crypto (p : Piece)
  | passed (f : Frame) (fits : f.Fits) (coherent : f.Coherent) (ignored : Ignored f)

namespace Item

def frame (stream : List UInt8) : Item → Frame
  | .crypto p => { type := .crypto, crypto := { offset := p.offset, data := slice stream p.offset p.length } }
  | .passed f .. => f

def piece? : Item → Option (Nat × Nat)
  | .crypto p => some (p.offset, p.length)
  | .passed .. => none

theorem frame_fits (stream : List UInt8) (i : Item) : (i.frame stream).Fits := by
  cases i with
  | passed f hf _ _ => exact hf
  | crypto p =>
    refine ⟨fun n hn => ?_, by simp [frame], by simp [frame], by simp [frame]⟩
    have hlen : (slice stream p.offset p.length).length ≤ p.length := List.length_take_le _ _
    have hn' : n = p.offset ∨ n = (slice stream p.offset p.length).length := by
      simpa [frame, Frame.integers] using hn
    rcases hn' with rfl | rfl
    · exact p.offset_le
    · exact Nat.le_trans hlen p.length_le

theorem frame_coherent (stream : List UInt8) (i : Item) : (i.frame stream).Coherent := by
  cases i with
  | passed f _ hc _ => exact hc
  | crypto p => exact ⟨rfl, by simp [frame], by simp [frame]⟩

end Item

/-- What comes in: a packet with pieces of the stream of its level, or any other
packet without a CRYPTO frame. -/
inductive Packet where
  | crypto (level : EncryptionLevel) (items : List Item)
      (separable : ∀ stream, Separable (items.map (Item.frame stream)))
  | other (level : EncryptionLevel) (payload : List UInt8) (noCrypto : ∀ f ∈ (frames payload).1, f.type ≠ .crypto)

namespace Packet

/-- The level and the decrypted payload, for the given crypto streams. -/
def received (streams : EncryptionLevel → List UInt8) : Packet → EncryptionLevel × List UInt8
  | .crypto level items _ => (level, (appendFrames [] (items.map (Item.frame (streams level)))).getD [])
  | .other level payload _ => (level, payload)

/-- The pieces of the stream of a level that the packet carries. -/
def pieces (level : EncryptionLevel) : Packet → Pieces
  | .crypto l items _ => if l = level then items.filterMap Item.piece? else []
  | .other .. => []

end Packet

/-! ## What the driver gets -/

section Handed

variable {σ ε : Type} (engine : StreamEngine σ ε) (level : EncryptionLevel)

theorem dispatch_ignored (b : Bridge CryptoLog σ) {f : Frame} (hf : Ignored f) :
    dispatch record engine level b f = (b, none) := by
  simp only [Ignored, List.mem_cons, List.not_mem_nil, or_false] at hf
  rcases hf with h | h | h | h | h | h | h | h | h | h | h | h | h | h | h | h <;> (simp only [dispatch, h]; rfl)

theorem dispatchAll_items (stream : List UInt8) (items : List Item) {gs : List Frame}
    (hgs : List.Forall₂ Frame.Same (items.map (Item.frame stream)) gs) (b : Bridge CryptoLog σ) :
    (dispatchAll record engine level b gs).1.handshakeDriver =
      b.handshakeDriver ++ (items.filterMap Item.piece?).map fun p => (level, slice stream p.1 p.2) := by
  induction items generalizing gs b with
  | nil =>
    cases hgs
    simp [dispatchAll]
  | cons i items ih =>
    obtain ⟨g, gs, hsame, hsames, rfl⟩ := List.forall₂_cons_left_iff.1 hgs
    cases i with
    | crypto p =>
      have htype : g.type = .crypto := hsame.1.symm
      have hdata : g.crypto.data = slice stream p.offset p.length := congrArg CryptoFrame.data hsame.2.symm
      rw [dispatchAll, dispatch_crypto record engine level b htype]
      simp only [record, Option.map_none, hdata]
      rw [ih hsames]
      simp [Item.piece?]
    | passed f hfits hcoh hi =>
      have hg : Ignored g := by
        have htype : f.type = g.type := hsame.1
        rwa [Ignored, ← htype]
      have hnone : Item.piece? (.passed f hfits hcoh hi) = none := rfl
      rw [dispatchAll, dispatch_ignored engine level b hg, List.filterMap_cons_none hnone]
      exact ih hsames b

theorem handed_pieces (level level' : EncryptionLevel) (stream : List UInt8) (ps : Pieces) :
    handed level (ps.map fun p => (level', slice stream p.1 p.2)) =
      if level' = level then Pieces.join stream ps else [] := by
  by_cases h : level' = level <;> simp [handed, Pieces.join, List.flatMap_map, h]

theorem handed_processDecryptedFrames (streams : EncryptionLevel → List UInt8)
    (b : Bridge CryptoLog σ) (p : Packet) :
    handed level
        (processDecryptedFrames record engine (p.received streams).1 b (p.received streams).2).1.handshakeDriver =
      handed level b.handshakeDriver ++ Pieces.join (streams level) (p.pieces level) := by
  rw [processDecryptedFrames_bridge]
  cases p with
  | other l payload hno =>
    rw [Packet.received, dispatchAll_handshakeDriver record engine l b hno]
    simp [Packet.pieces, Pieces.join]
  | crypto l items hsep =>
    have hfits : ∀ f ∈ items.map (Item.frame (streams l)), f.Fits := by
      simpa using fun i _ => i.frame_fits (streams l)
    have hcoh : ∀ f ∈ items.map (Item.frame (streams l)), f.Coherent := by
      simpa using fun i _ => i.frame_coherent (streams l)
    obtain ⟨es, hes, hw⟩ := coded_of_separable hfits hcoh (hsep (streams l))
    obtain ⟨gs, hgs, hsame⟩ := framesLoop_coded hes {} es.length hes.length_le
    have hpayload : (Packet.received streams (.crypto l items hsep)).2 = es := by
      simp [Packet.received, hw []]
    have hframes : (frames es).1 = gs := congrArg Prod.fst hgs
    rw [hpayload, hframes, dispatchAll_items engine _ _ _ hsame, handed_append, handed_pieces]
    by_cases h : l = level
    · subst h
      simp [Packet.received, Packet.pieces]
    · simp [Packet.received, Packet.pieces, h, Pieces.join]

theorem handed_processPackets (streams : EncryptionLevel → List UInt8)
    (b : Bridge CryptoLog σ) (packets : List Packet) :
    handed level (processPackets record engine b (packets.map (Packet.received streams))).handshakeDriver =
      handed level b.handshakeDriver ++ Pieces.join (streams level) (packets.flatMap (Packet.pieces level)) := by
  induction packets generalizing b with
  | nil => simp [processPackets, Pieces.join]
  | cons p packets ih =>
    have hstep := ih (processDecryptedFrames record engine (p.received streams).1 b (p.received streams).2).1
    rw [handed_processDecryptedFrames] at hstep
    simpa [processPackets, Pieces.join] using hstep

/-- The driver gets a prefix of the stream of a level, whatever the streams are,
exactly if every CRYPTO frame of the level that has data has as its offset the
amount of data that was handed over before it. -/
theorem handed_prefix_iff_inOrder (level : EncryptionLevel) (s : σ) (packets : List Packet) :
    (∀ streams : EncryptionLevel → List UInt8,
        (∀ l, Pieces.Within (streams l) (packets.flatMap (Packet.pieces l))) →
        handed level (processPackets record engine ⟨[], s⟩ (packets.map (Packet.received streams))).handshakeDriver
          <+: streams level) ↔
      Pieces.InOrder 0 (packets.flatMap (Packet.pieces level)) := by
  simp only [handed_processPackets]
  have : Nontrivial UInt8 := ⟨0, 1, by decide⟩
  rw [← Pieces.forall_join_prefix_iff (α := UInt8)]
  constructor
  · intro h stream hin
    -- The streams of the other levels only have to be long enough.
    let streams : EncryptionLevel → List UInt8 := fun l =>
      if l = level then stream else List.replicate (Pieces.extent (packets.flatMap (Packet.pieces l))) 0
    have hlevel : streams level = stream := by simp [streams]
    have := h streams fun l => ?_
    · simpa [handed, hlevel] using this
    · by_cases hl : l = level
      · subst hl
        rwa [hlevel]
      · exact Pieces.within_of_extent (by simp [streams, hl])
  · intro h streams hin
    simpa [handed] using h (streams level) (hin level)

end Handed

/-! ## Two frames, swapped and repeated -/

/-- A stream engine without a state. -/
def inert : StreamEngine Unit Empty where
  handleStreamFrame _ _ _ _ _ := ((), none)
  handleResetStreamFrame _ _ _ _ := ((), none)
  handleStopSendingFrame _ _ _ := ()
  handleMaxDataFrame _ _ := ()
  handleMaxStreamDataFrame _ _ _ := ()
  handleMaxStreamsFrame _ _ _ := ()
  closeWithError _ _ _ := ()

/-- An Initial packet with one CRYPTO frame. -/
def cryptoPacket (p : Piece) : Packet := .crypto .initial [.crypto p] fun _ => ⟨by simp, by simp⟩

def firstHalf : Packet := cryptoPacket ⟨0, 2, by decide, by decide⟩

def secondHalf : Packet := cryptoPacket ⟨2, 2, by decide, by decide⟩

/-- What the driver gets of the stream 1, 2, 3, 4. -/
def handedOf (packets : List Packet) : List UInt8 :=
  let b := processPackets record inert ⟨[], ()⟩ (packets.map (Packet.received fun _ => [1, 2, 3, 4]))
  handed .initial b.handshakeDriver

/-- The halves in order give the stream; swapped, or with the first one twice, what
they give is no prefix of it. -/
theorem handed_swapped_and_repeated :
    handedOf [firstHalf, secondHalf] = [1, 2, 3, 4] ∧
    handedOf [secondHalf, firstHalf] = [3, 4, 1, 2] ∧ ¬ handedOf [secondHalf, firstHalf] <+: [1, 2, 3, 4] ∧
    handedOf [firstHalf, firstHalf] = [1, 2, 1, 2] ∧ ¬ handedOf [firstHalf, firstHalf] <+: [1, 2, 3, 4] := by
  decide +kernel

end Mach.Quic
