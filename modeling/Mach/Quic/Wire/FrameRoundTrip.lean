import Mach.Quic.Wire.FrameParser
import Mach.Quic.Wire.FrameSerializer
import Mathlib.Data.List.Chain
/-!
# A payload read back

What `appendFrame` writes for a list of frames, `frames` reads back: the same
types, and in each frame the sub-structure that its type selects. The other
sub-structures hold whatever earlier frames left in them.
-/

namespace Mach.Quic.Wire

open Lib Parser List Frame AckFrame

/-! ## When two frames say the same -/

/-- All fields of an ACK frame, the ranges as `Range` gives them. -/
structure AckFrame.Same (a b : AckFrame) : Prop where
  largestAcked : a.largestAcked = b.largestAcked
  ackDelay : a.ackDelay = b.ackDelay
  firstAckRange : a.firstAckRange = b.firstAckRange
  rangeCount : a.rangeCount = b.rangeCount
  range : ∀ i, i < a.rangeCount → a.range i = b.range i
  hasECN : a.hasECN = b.hasECN
  ecn : a.ecn = b.ecn

/-- The type, and all fields of the sub-structure it selects. -/
def Frame.Same (f g : Frame) : Prop :=
  f.type = g.type ∧
    match f.type with
    | .padding => f.paddingCount = g.paddingCount
    | .ping | .handshakeDone => True
    | .ack | .ackECN => f.ack.Same g.ack
    | .resetStream => f.resetStream = g.resetStream
    | .stopSending => f.stopSending = g.stopSending
    | .crypto => f.crypto = g.crypto
    | .newToken => f.newToken = g.newToken
    | .maxData => f.maxData = g.maxData
    | .maxStreamData => f.maxStreamData = g.maxStreamData
    | .maxStreamsBidi | .maxStreamsUni => f.maxStreams = g.maxStreams
    | .dataBlocked => f.dataBlocked = g.dataBlocked
    | .streamDataBlocked => f.streamDataBlocked = g.streamDataBlocked
    | .streamsBlockedBidi | .streamsBlockedUni => f.streamsBlocked = g.streamsBlocked
    | .newConnectionID => f.newConnectionID = g.newConnectionID
    | .retireConnectionID => f.retireConnectionID = g.retireConnectionID
    | .pathChallenge => f.pathChallenge = g.pathChallenge
    | .pathResponse => f.pathResponse = g.pathResponse
    | .connectionCloseTransport | .connectionCloseApp => f.connectionClose = g.connectionClose
    | .datagram | .datagramWithLen => f.datagram = g.datagram
    | _ => f.stream = g.stream

/-! ## Which frames can be written -/

/-- The integers written for a frame: its integer fields and the lengths of its
lists. -/
def Frame.integers (f : Frame) : List Nat :=
  match f.type with
  | .ack | .ackECN =>
    [f.ack.largestAcked, f.ack.ackDelay, f.ack.rangeCount, f.ack.firstAckRange] ++
      (f.ack.ranges.flatMap fun r => [r.gap, r.length]) ++ [f.ack.ecn.ect0, f.ack.ecn.ect1, f.ack.ecn.ecnce]
  | .resetStream => [f.resetStream.streamID, f.resetStream.errorCode, f.resetStream.finalSize]
  | .stopSending => [f.stopSending.streamID, f.stopSending.errorCode]
  | .crypto => [f.crypto.offset, f.crypto.data.length]
  | .newToken => [f.newToken.token.length]
  | .maxData => [f.maxData.maximumData]
  | .maxStreamData => [f.maxStreamData.streamID, f.maxStreamData.maximumStreamData]
  | .maxStreamsBidi | .maxStreamsUni => [f.maxStreams.maxStreams]
  | .dataBlocked => [f.dataBlocked.maximumData]
  | .streamDataBlocked => [f.streamDataBlocked.streamID, f.streamDataBlocked.maximumStreamData]
  | .streamsBlockedBidi | .streamsBlockedUni => [f.streamsBlocked.streamLimit]
  | .newConnectionID => [f.newConnectionID.sequenceNumber, f.newConnectionID.retirePriorTo]
  | .retireConnectionID => [f.retireConnectionID.sequenceNumber]
  | .connectionCloseTransport | .connectionCloseApp =>
    [f.connectionClose.errorCode, f.connectionClose.frameType, f.connectionClose.reason.length]
  | .datagram | .datagramWithLen => if f.datagram.hasLen then [f.datagram.data.length] else []
  | .padding | .ping | .pathChallenge | .pathResponse | .handshakeDone => []
  | _ => [f.stream.streamID, f.stream.offset] ++ if f.stream.hasLen then [f.stream.data.length] else []

/-- The conditions on the fields that the type selects. -/
@[mk_iff] structure Frame.Fits (f : Frame) : Prop where
  integers : ∀ v ∈ f.integers, v ≤ Varint.max
  padding : f.type = .padding → 0 < f.paddingCount
  connID : f.type = .newConnectionID → 1 ≤ f.newConnectionID.connID.length ∧ f.newConnectionID.connID.length ≤ 20
  ack : f.type = .ack ∨ f.type = .ackECN →
    f.ack.firstAckRange ≤ f.ack.largestAcked ∧ f.ack.numInlineRanges ≤ 8

instance (f : Frame) : Decidable f.Fits := decidable_of_iff _ (Frame.fits_iff f).symm

/-- The type `appendFrame` writes for a frame; `none` if it panics. -/
def Frame.writtenType (f : Frame) : Option FrameType :=
  match f.type with
  | .ack | .ackECN => some (if f.ack.hasECN then .ackECN else .ack)
  | .maxStreamsBidi | .maxStreamsUni =>
    some (if f.maxStreams.unidirectional then .maxStreamsUni else .maxStreamsBidi)
  | .streamsBlockedBidi | .streamsBlockedUni =>
    some (if f.streamsBlocked.unidirectional then .streamsBlockedUni else .streamsBlockedBidi)
  | .connectionCloseTransport | .connectionCloseApp =>
    some (if f.connectionClose.isApplication then .connectionCloseApp else .connectionCloseTransport)
  | .datagram | .datagramWithLen => some (if f.datagram.hasLen then .datagramWithLen else .datagram)
  | .padding | .ping | .resetStream | .stopSending | .crypto | .newToken | .maxData | .maxStreamData | .dataBlocked
  | .streamDataBlocked | .newConnectionID | .retireConnectionID | .pathChallenge | .pathResponse
  | .handshakeDone => some f.type
  | t => if 0x08 ≤ t ∧ t ≤ 0x0f then some f.stream.typ.toNat else none

/-- The type says what the flags of the sub-structure say, and a field that is
not written for that type is zero. -/
@[mk_iff] structure Frame.Coherent (f : Frame) : Prop where
  type : f.writtenType = some f.type
  ecn : f.type = .ack → f.ack.ecn = {}
  frameType : f.type = .connectionCloseApp → f.connectionClose.frameType = 0

instance (f : Frame) : Decidable f.Coherent := decidable_of_iff _ (Frame.coherent_iff f).symm

/-- The end of the frame can be told from its bytes. -/
def Frame.delimited (f : Frame) : Bool :=
  match f.type with
  | .datagram | .datagramWithLen => f.datagram.hasLen
  | t => if 0x08 ≤ t ∧ t ≤ 0x0f then f.stream.hasLen else true

/-- What may come behind the bytes of a frame. -/
structure Frame.MayPrecede (f : Frame) (r : List UInt8) : Prop where
  padding : f.type = .padding → r.head? ≠ some 0
  undelimited : f.delimited = false → r = []

/-- `e` is what is written for `f`, and reading it gives `f` again, whatever
frame is filled. -/
structure Frame.Codes (f : Frame) (e : List UInt8) : Prop where
  writes : Writes (appendFrame · f) e
  reads : ∀ g, ∃ g', ReadsBefore f.MayPrecede (parseFrame g) e g' ∧ f.Same g'
  nonempty : e ≠ []
  head : f.type ≠ .padding → e.head? ≠ some 0

/-! ## A type byte and what follows -/

theorem reads_type {t : Nat} (h : t ≤ 63) : Reads (varint truncated) [byte t] t := by
  rw [← varintBytes_small h]
  exact reads_varint (by simp only [Varint.max]; omega) _

theorem byte_ne_zero {t : Nat} (h0 : 0 < t) (h : t ≤ 63) : byte t ≠ 0 := by
  intro h'
  have := congrArg UInt8.toNat h'
  rw [byte_toNat] at this
  change t % 256 = 0 at this
  omega

def parseRest (t : FrameType) (g : Frame) : Parse Frame :=
  if 0x08 ≤ t ∧ t ≤ 0x0f then parseStream t g.reset else parseBody t g.reset

variable {e : List UInt8}

theorem reads_frame {P : List UInt8 → Prop} {t : FrameType} {g g' : Frame} (h0 : 0 < t) (h : t ≤ 63)
    (hr : ReadsBefore P (parseRest t g) e g') : ReadsBefore P (parseFrame g) (byte t :: e) g' := by
  intro r hP
  unfold parseFrame
  rw [if_neg (by simpa using byte_ne_zero h0 h)]
  exact Reads.bind (reads_type h) hr r hP

/-- A frame other than PADDING. -/
theorem codes_of_reads {t : FrameType} {f : Frame} (h0 : 0 < t) (h : t ≤ 63)
    (hw : Writes (appendFrame · f) (byte t :: e))
    (hr : ∀ g : Frame, ∃ g', ReadsBefore f.MayPrecede (parseRest t g) e g' ∧ f.Same g') : f.Codes (byte t :: e) := by
  refine ⟨hw, fun g => ?_, nofun, fun _ => by simpa using byte_ne_zero h0 h⟩
  obtain ⟨g', hg', hsame⟩ := hr g
  exact ⟨g', reads_frame h0 h hg', hsame⟩

/-- The types that have their own branch in the parser. -/
def FrameType.Plain (t : FrameType) : Prop := 0 < t ∧ t ≤ 63 ∧ ¬ (0x08 ≤ t ∧ t ≤ 0x0f)

instance (t : FrameType) : Decidable t.Plain := inferInstanceAs (Decidable (_ ∧ _ ∧ ¬ _))

theorem codes_of_body {t : FrameType} {f : Frame} (ht : t.Plain)
    (hw : Writes (appendFrame · f) (byte t :: e))
    (hr : ∀ g : Frame, ∃ g', ReadsBefore f.MayPrecede (parseBody t g.reset) e g' ∧ f.Same g') :
    f.Codes (byte t :: e) := by
  refine codes_of_reads ht.1 ht.2.1 hw fun g => ?_
  rw [parseRest, if_neg ht.2.2]
  exact hr g

/-! ## Frames of varints -/

section Fields

variable {β : Type} {a b c : Nat}

theorem reads_one (ha : a ≤ Varint.max) (mk : Nat → β) :
    Reads (do let x ← varint truncated; return mk x : Parse β) ([a].flatMap varintBytes) (mk a) := by
  simpa using (reads_varint ha truncated).last mk

theorem reads_two (ha : a ≤ Varint.max) (hb : b ≤ Varint.max) (mk : Nat → Nat → β) :
    Reads (do let x ← varint truncated; let y ← varint truncated; return mk x y : Parse β)
      ([a, b].flatMap varintBytes) (mk a b) := by
  simpa using (reads_varint ha truncated).bind ((reads_varint hb truncated).last (mk a))

theorem reads_three (ha : a ≤ Varint.max) (hb : b ≤ Varint.max) (hc : c ≤ Varint.max) (mk : Nat → Nat → Nat → β) :
    Reads (do
      let x ← varint truncated
      let y ← varint truncated
      let z ← varint truncated
      return mk x y z : Parse β) ([a, b, c].flatMap varintBytes) (mk a b c) := by
  simpa using (reads_varint ha truncated).bind
    ((reads_varint hb truncated).bind ((reads_varint hc truncated).last (mk a b)))

end Fields

variable {s : StreamFrame} {t : Nat} {fs : List Frame}

theorem codes_fields {f : Frame} (t : FrameType) (vals : List Nat) (ht : t.Plain)
    (hv : ∀ v ∈ vals, v ≤ Varint.max) (hw : ∀ dst, appendFrame dst f = appendFields dst t vals)
    (hr : ∀ g : Frame, ∃ g', Reads (parseBody t g.reset) (vals.flatMap varintBytes) g' ∧ f.Same g') :
    ∃ e, f.Codes e := by
  refine ⟨_, codes_of_body ht (fun dst => (hw dst).trans (writes_fields hv dst)) fun g => ?_⟩
  obtain ⟨g', hg', hsame⟩ := hr g
  exact ⟨g', hg'.mono fun _ _ => trivial, hsame⟩

variable {f : Frame}

/-- The frames that are nothing but varints. -/
def varintTypes : List FrameType :=
  [.ping, .handshakeDone, .resetStream, .stopSending, .maxData, .maxStreamData, .maxStreamsBidi, .maxStreamsUni,
    .dataBlocked, .streamDataBlocked, .streamsBlockedBidi, .streamsBlockedUni, .retireConnectionID]

theorem codes_varints (hf : f.Fits) (hc : f.Coherent) (ht : f.type ∈ varintTypes) : ∃ e, f.Codes e := by
  have hv := hf.integers
  have hty := hc.type
  simp only [varintTypes, mem_cons, not_mem_nil, or_false] at ht
  rcases ht with ht | ht | ht | ht | ht | ht | ht | ht | ht | ht | ht | ht | ht
  all_goals simp only [integers, ht] at hv
  all_goals simp [writtenType, ht] at hty
  all_goals
    refine codes_fields f.type _ (by rw [ht]; decide) hv (fun dst => ?_) fun g => ?_
    · first
        | rw [appendFrame, ht]; rfl
        | simp only [appendFrame, ht, appendMaxStreamsFrame, appendStreamsBlockedFrame, hty]; rfl
    try simp only [forall_mem_cons] at hv
    rw [ht]
  -- by the number of fields
  all_goals first
    | exact ⟨_, reads_three hv.1 hv.2.1 hv.2.2.1 _, ht, by rw [ht]; exact rfl⟩
    | exact ⟨_, reads_two hv.1 hv.2.1 _, ht, by rw [ht]; exact rfl⟩
    | exact ⟨_, reads_one hv.1 _, by simp [Frame.Same, ht, MaxStreamsFrame.ext_iff, StreamsBlockedFrame.ext_iff, hty]⟩
    | exact ⟨_, Reads.pure _, by simp [Frame.Same, ht]⟩

/-! ## Frames with data -/

theorem codes_data (t : FrameType) (vals : List Nat) (data : List UInt8) (ht : t.Plain)
    (hv : ∀ v ∈ vals, v ≤ Varint.max) (hw : ∀ dst, appendFrame dst f = appendData dst t vals data)
    (hr : ∀ g : Frame, ∃ g', ReadsBefore f.MayPrecede (parseBody t g.reset) e g' ∧ f.Same g')
    (he : e = vals.flatMap varintBytes ++ data) : ∃ e, f.Codes e := by
  subst he
  exact ⟨_, codes_of_body ht (fun dst => (hw dst).trans (writes_data hv data dst)) hr⟩

theorem reads_lengthed {β : Type} {P : List UInt8 → Prop} {d : List UInt8} (h : d.length ≤ Varint.max)
    (mk : List UInt8 → β) :
    ReadsBefore P (do let n ← varint truncated; let x ← sized n truncated; return mk x : Parse β)
      (varintBytes d.length ++ d) (mk d) :=
  (reads_varint h truncated).bind (((reads_sized rfl truncated).mono fun _ _ => trivial).last mk)

theorem codes_crypto (hf : f.Fits) (ht : f.type = .crypto) : ∃ e, f.Codes e := by
  have hv := hf.integers
  simp only [integers, ht] at hv
  obtain ⟨ho, hd, -⟩ := forall_mem_cons.1 hv |>.imp_right forall_mem_cons.1
  exact codes_data .crypto _ _ (by decide) hv (fun dst => by simp only [appendFrame, ht]; rfl)
    (fun g => ⟨_, (reads_varint ho _).bind (reads_lengthed hd _), by simp [Frame.Same, ht]⟩) (by simp)

theorem codes_newToken (hf : f.Fits) (ht : f.type = .newToken) : ∃ e, f.Codes e := by
  have hv := hf.integers
  simp only [integers, ht] at hv
  exact codes_data .newToken _ _ (by decide) hv (fun dst => by simp only [appendFrame, ht]; rfl)
    (fun g => ⟨_, reads_lengthed (hv _ mem_cons_self) _, by simp [Frame.Same, ht]⟩) (by simp)

theorem codes_path (ht : f.type = .pathChallenge ∨ f.type = .pathResponse) : ∃ e, f.Codes e := by
  rcases ht with ht | ht
  all_goals
    exact codes_data f.type [] _ (by rw [ht]; decide) nofun (fun dst => by simp only [appendFrame, ht]; rfl)
      (fun g => ⟨_, by rw [ht]; exact ((reads_sized (by simp) truncated).mono fun _ _ => trivial).last _,
        by simp [Frame.Same, ht, copyArray_toList]⟩) rfl

theorem codes_connectionClose (hf : f.Fits) (hc : f.Coherent)
    (ht : f.type = .connectionCloseTransport ∨ f.type = .connectionCloseApp) : ∃ e, f.Codes e := by
  have hv := hf.integers
  have hty := hc.type
  rcases ht with ht | ht
  all_goals simp only [integers, ht] at hv
  all_goals simp [writtenType, ht] at hty
  · obtain ⟨he, hft, hd, -⟩ := by simpa only [forall_mem_cons] using hv
    exact codes_data .connectionCloseTransport _ _ (by decide) hv
      (fun dst => by simp only [appendFrame, ht, appendConnectionCloseFrame, hty]; rfl)
      (fun g => ⟨_, (reads_varint he _).bind ((reads_varint hft _).bind (reads_lengthed hd _)),
        by simp [Frame.Same, ht, ConnectionCloseFrame.ext_iff, hty]⟩) (by simp)
  · obtain ⟨he, -, hd, -⟩ := by simpa only [forall_mem_cons] using hv
    have hft := hc.frameType ht
    exact codes_data .connectionCloseApp [f.connectionClose.errorCode, f.connectionClose.reason.length] _ (by decide)
      (by simp [he, hd]) (fun dst => by simp only [appendFrame, ht, appendConnectionCloseFrame, hty]; rfl)
      (fun g => ⟨_, (reads_varint he _).bind ((Reads.pure 0).bind (reads_lengthed hd _)),
        by simp [Frame.Same, ht, ConnectionCloseFrame.ext_iff, hty, hft]⟩) (by simp)

theorem codes_datagram (hf : f.Fits) (hc : f.Coherent)
    (ht : f.type = .datagram ∨ f.type = .datagramWithLen) : ∃ e, f.Codes e := by
  have hv := hf.integers
  have hty := hc.type
  rcases ht with ht | ht
  all_goals simp [writtenType, ht] at hty
  all_goals simp only [integers, ht, hty] at hv
  · exact codes_data .datagram [] f.datagram.data (by decide) nofun
      (fun dst => by simp only [appendFrame, ht, appendDatagramFrame, hty]; rfl)
      (fun g => ⟨_, ((readsBefore_rest _).mono fun r hr => hr.undelimited (by simp [delimited, ht, hty])).last _,
        by simp [Frame.Same, ht, DatagramFrame.ext_iff, hty]⟩) rfl
  · exact codes_data .datagramWithLen _ _ (by decide) hv
      (fun dst => by simp only [appendFrame, ht, appendDatagramFrame, hty]; rfl)
      (fun g => ⟨_, reads_lengthed (hv _ mem_cons_self) _,
        by simp [Frame.Same, ht, DatagramFrame.ext_iff, hty]⟩) (by simp)

theorem codes_newConnectionID (hf : f.Fits) (ht : f.type = .newConnectionID) : ∃ e, f.Codes e := by
  have hv := hf.integers
  simp only [integers, ht] at hv
  obtain ⟨hseq, hret, -⟩ := by simpa only [forall_mem_cons] using hv
  obtain ⟨h1, h20⟩ := hf.connID ht
  have hlen : (byte f.newConnectionID.connID.length).toNat = f.newConnectionID.connID.length := by
    rw [byte_toNat]; omega
  refine codes_data .newConnectionID _ _ (by decide) hv (fun dst => by simp only [appendFrame, ht]; rfl)
    (e := varintBytes f.newConnectionID.sequenceNumber ++ (varintBytes f.newConnectionID.retirePriorTo ++
      ([byte f.newConnectionID.connID.length] ++
        (f.newConnectionID.connID ++ f.newConnectionID.statelessResetToken.toList)))) (fun g => ?_) (by simp)
  refine ⟨{ g.reset with type := .newConnectionID, newConnectionID := f.newConnectionID }, ?_,
    by simp [Frame.Same, ht]⟩
  refine (reads_varint hseq _).bind ((reads_varint hret _).bind (ReadsBefore.need ((reads_next _).bind ?_) (by simp)))
  rw [hlen, if_neg (by omega)]
  refine ReadsBefore.need ((reads_slice rfl).bind ?_) (by simp)
  -- the token is copied over whatever the array held
  have htok := (reads_slice (d := f.newConnectionID.statelessResetToken.toList) (n := 16) (by simp)).last
    fun token => ({ g.reset with
      type := .newConnectionID
      newConnectionID :=
        { f.newConnectionID with
          statelessResetToken := copyArray g.reset.newConnectionID.statelessResetToken token } } : Frame)
  rw [copyArray_toList] at htok
  exact htok.mono fun _ _ => trivial

/-! ## STREAM frames -/

theorem typ_flags (s : StreamFrame) : (0x08 ≤ s.typ.toNat ∧ s.typ.toNat ≤ 0x0f) ∧
    (s.typ.toNat &&& 0x04 ≠ 0 ↔ s.offset ≠ 0) ∧ (s.typ.toNat &&& 0x02 ≠ 0 ↔ s.hasLen = true) ∧
    (s.typ.toNat &&& 0x01 ≠ 0 ↔ s.fin = true) := by
  by_cases ho : s.offset = 0 <;> cases hl : s.hasLen <;> cases hfin : s.fin <;>
    simp only [StreamFrame.typ, ho, hl, hfin, ne_eq, not_true, not_false_eq_true, if_true, if_false] <;> decide

/-- The bytes of the offset, which is left out when it is zero. -/
def offsetBytes (s : StreamFrame) : List UInt8 := if s.offset ≠ 0 then varintBytes s.offset else []

/-- The bytes of the data, with or without their length. -/
def dataBytes (s : StreamFrame) : List UInt8 := if s.hasLen then varintBytes s.data.length ++ s.data else s.data

theorem writes_stream (hid : s.streamID ≤ Varint.max) (ho : s.offset ≤ Varint.max)
    (hd : s.hasLen → s.data.length ≤ Varint.max) :
    Writes (appendStreamFrame · s) (s.typ :: (varintBytes s.streamID ++ (offsetBytes s ++ dataBytes s))) := by
  intro dst
  unfold appendStreamFrame offsetBytes dataBytes
  by_cases hz : s.offset = 0 <;> cases hl : s.hasLen <;> simp [hz, appendVarint_eq hid, appendVarint_eq ho]
  all_goals simp [appendVarint_eq (hd hl)]

theorem reads_offset (ho : s.offset ≤ Varint.max) (h : t &&& 0x04 ≠ 0 ↔ s.offset ≠ 0) :
    Reads (parseStreamOffset t) (offsetBytes s) s.offset := by
  unfold parseStreamOffset offsetBytes
  by_cases hz : s.offset = 0
  · rw [if_neg (by rw [h]; simpa using hz), if_neg (by simpa using hz), hz]
    exact Reads.pure 0
  · rw [if_pos (h.2 hz), if_pos hz]
    exact reads_varint ho _

theorem reads_streamData (hd : s.hasLen → s.data.length ≤ Varint.max)
    (h : t &&& 0x02 ≠ 0 ↔ s.hasLen = true) {P : List UInt8 → Prop} (hP : s.hasLen = false → ∀ r, P r → r = []) :
    ReadsBefore P (parseStreamData t) (dataBytes s) s.data := by
  unfold parseStreamData dataBytes
  cases hl : s.hasLen with
  | false =>
    rw [if_neg (by rw [h]; simp [hl])]
    exact (readsBefore_rest _).mono (hP hl)
  | true =>
    rw [if_pos (h.2 hl)]
    exact (reads_varint (hd hl) _).bind ((reads_sized rfl _).mono fun _ _ => trivial)

/-- Where the definitions above treat the type as a STREAM type. -/
theorem stream_branches (h : f.type = t) (ht : 0x08 ≤ t ∧ t ≤ 0x0f) :
    f.integers = [f.stream.streamID, f.stream.offset] ++ (if f.stream.hasLen then [f.stream.data.length] else []) ∧
    (∀ dst, appendFrame dst f = appendStreamFrame dst f.stream) ∧ f.writtenType = some f.stream.typ.toNat ∧
    f.delimited = f.stream.hasLen ∧ ∀ g, f.Same g ↔ f.type = g.type ∧ f.stream = g.stream := by
  have h8 : t = 8 ∨ t = 9 ∨ t = 10 ∨ t = 11 ∨ t = 12 ∨ t = 13 ∨ t = 14 ∨ t = 15 := by omega
  rcases h8 with rfl | rfl | rfl | rfl | rfl | rfl | rfl | rfl <;>
    refine ⟨by rw [integers, h]; rfl, fun _ => by rw [appendFrame, h]; rfl,
      by rw [writtenType, h]; rfl, by rw [delimited, h]; rfl, fun _ => and_congr_right fun _ => by rw [h]; rfl⟩

theorem codes_stream (hf : f.Fits) (hc : f.Coherent) (h : f.type = t) (ht : 0x08 ≤ t ∧ t ≤ 0x0f) :
    ∃ e, f.Codes e := by
  obtain ⟨hint, hw, hwt, hdel, hsame⟩ := stream_branches h ht
  obtain ⟨-, hoff, hlen, hfin⟩ := typ_flags f.stream
  have hv := hf.integers
  rw [hint] at hv
  have hid : f.stream.streamID ≤ Varint.max := hv _ (by simp)
  have ho : f.stream.offset ≤ Varint.max := hv _ (by simp)
  have hd : f.stream.hasLen → f.stream.data.length ≤ Varint.max := fun h => hv _ (by simp [h])
  -- the type byte is the type
  have htyp : f.stream.typ.toNat = t := (Option.some.inj (hwt.symm.trans hc.type)).trans h
  have hbyte : f.stream.typ = byte t := by rw [← htyp, byte_toNat_self]
  have hwr := writes_stream hid ho hd
  rw [hbyte] at hwr
  rw [htyp] at hoff hlen hfin
  have h0 : 0 < t := by omega
  have h63 : t ≤ 63 := by omega
  refine ⟨_, codes_of_reads h0 h63 (fun dst => (hw dst).trans (hwr dst)) fun g => ?_⟩
  rw [parseRest, if_pos ht]
  have hdata := reads_streamData hd hlen fun hl r (hr : f.MayPrecede r) => hr.undelimited (hdel.trans hl)
  refine ⟨_, (reads_varint hid _).bind ((reads_offset ho hoff).bind (hdata.last _)), (hsame _).2 ⟨?_, ?_⟩⟩
  · exact h
  · simp only [hlen, hfin, Bool.decide_eq_true]

/-! ## ACK frames -/

def rangeBytes (r : AckRange) : List UInt8 := varintBytes r.gap ++ varintBytes r.length

def appendAll (a : AckFrame) (rs : List AckRange) : AckFrame := rs.foldl (fun a r => a.appendRange r.gap r.length) a

variable {a : AckFrame}

theorem appendAll_spec (rs : List AckRange) (h : a.Packed) :
    (appendAll a rs).Packed ∧ (appendAll a rs).ranges = a.ranges ++ rs := by
  induction rs generalizing a with
  | nil => exact ⟨h, (append_nil _).symm⟩
  | cons r rs ih =>
    obtain ⟨hp, hr⟩ := ih (packed_appendRange h r.gap r.length)
    refine ⟨hp, hr.trans ?_⟩
    rw [ranges_appendRange h, append_assoc]
    rfl

theorem appendAll_fields (a : AckFrame) (rs : List AckRange) :
    (appendAll a rs).largestAcked = a.largestAcked ∧ (appendAll a rs).ackDelay = a.ackDelay ∧
    (appendAll a rs).firstAckRange = a.firstAckRange ∧ (appendAll a rs).hasECN = a.hasECN ∧
    (appendAll a rs).ecn = a.ecn := by
  induction rs generalizing a with
  | nil => exact ⟨rfl, rfl, rfl, rfl, rfl⟩
  | cons r rs ih =>
    obtain ⟨h1, h2, h3, h4, h5⟩ := ih (a.appendRange r.gap r.length)
    refine ⟨h1.trans ?_, h2.trans ?_, h3.trans ?_, h4.trans ?_, h5.trans ?_⟩ <;>
      · unfold appendRange; split <;> rfl

theorem reads_ranges (rs : List AckRange) (h : ∀ r ∈ rs, r.gap ≤ Varint.max ∧ r.length ≤ Varint.max) (a : AckFrame) :
    Reads (parseAckRanges rs.length a) (rs.flatMap rangeBytes) (appendAll a rs) := by
  induction rs generalizing a with
  | nil => exact Reads.pure a
  | cons r rs ih =>
    obtain ⟨hg, hl⟩ := h r mem_cons_self
    rw [flatMap_cons, rangeBytes, append_assoc]
    exact (reads_varint hg _).bind ((reads_varint hl _).bind (ih (fun x hx => h x (mem_cons_of_mem _ hx)) _))

/-- A loop over the indices of a list is a loop over the list. -/
theorem flatMap_range {α β : Type} (l : List α) (e : α → List β) :
    (List.range l.length).flatMap (fun i => (l[i]?).elim [] e) = l.flatMap e := by
  induction l with
  | nil => rfl
  | cons a l ih => rw [length_cons, range_succ_eq_map]; simp [flatMap_map, ih]

theorem writes_ranges (h8 : a.numInlineRanges ≤ 8)
    (h : ∀ r ∈ a.ranges, r.gap ≤ Varint.max ∧ r.length ≤ Varint.max) :
    Writes ((List.range a.rangeCount).foldlM (appendAckRange a)) (a.ranges.flatMap rangeBytes) := by
  rw [← flatMap_range, length_ranges h8]
  refine Writes.foldlM fun i hi dst => ?_
  have hlt : i < a.ranges.length := by rw [length_ranges h8]; exact mem_range.1 hi
  obtain ⟨hg, hl⟩ := h _ (getElem_mem hlt)
  have hri : a.range i = some a.ranges[i] := by rw [AckFrame.range_eq h8, getElem?_eq_getElem hlt]
  simp [appendAckRange, hri, appendVarint_eq hg, appendVarint_eq hl, rangeBytes, hlt]

def ecnBytes (a : AckFrame) : List UInt8 :=
  if a.hasECN then [a.ecn.ect0, a.ecn.ect1, a.ecn.ecnce].flatMap varintBytes else []

def ackType (a : AckFrame) : FrameType := if a.hasECN then .ackECN else .ack

theorem writes_ack (h8 : a.numInlineRanges ≤ 8)
    (hv : ∀ v ∈ [a.largestAcked, a.ackDelay, a.rangeCount, a.firstAckRange], v ≤ Varint.max)
    (hr : ∀ r ∈ a.ranges, r.gap ≤ Varint.max ∧ r.length ≤ Varint.max)
    (he : ∀ v ∈ [a.ecn.ect0, a.ecn.ect1, a.ecn.ecnce], v ≤ Varint.max) :
    Writes (appendAckFrame · a) (byte (ackType a) :: ([a.largestAcked, a.ackDelay, a.rangeCount,
      a.firstAckRange].flatMap varintBytes ++ (a.ranges.flatMap rangeBytes ++ ecnBytes a))) := by
  refine (writes_fields hv).bind ((writes_ranges h8 hr).bind ?_)
  unfold ecnBytes
  cases a.hasECN with
  | true => exact writes_varints he
  | false => exact fun dst => by simp

theorem reads_ecn (he : ∀ v ∈ [a.ecn.ect0, a.ecn.ect1, a.ecn.ecnce], v ≤ Varint.max)
    (hn : a.hasECN = false → a.ecn = {}) {b : AckFrame} (hb : b.hasECN = false ∧ b.ecn = {}) :
    Reads (parseECN (ackType a) b) (ecnBytes a) { b with hasECN := a.hasECN, ecn := a.ecn } := by
  unfold parseECN ecnBytes ackType
  cases hecn : a.hasECN with
  | true =>
    simp only [forall_mem_cons] at he
    exact reads_three he.1 he.2.1 he.2.2.1 _
  | false =>
    have : ({ b with hasECN := false, ecn := a.ecn } : AckFrame) = b := by rw [hn hecn, ← hb.1, ← hb.2]
    rw [this]
    exact Reads.pure b

/-- The ACK frame the loop over the ranges starts with. -/
def ackStart (g a : AckFrame) : AckFrame :=
  { g with largestAcked := a.largestAcked, ackDelay := a.ackDelay, firstAckRange := a.firstAckRange }

def readAck (g a : AckFrame) : AckFrame :=
  { appendAll (ackStart g a) a.ranges with hasECN := a.hasECN, ecn := a.ecn }

theorem same_readAck (h8 : a.numInlineRanges ≤ 8) (g : AckFrame) : a.Same (readAck g.reset a) := by
  have hstart : (ackStart g.reset a).Packed := ⟨Nat.zero_le _, fun _ => rfl⟩
  obtain ⟨hp, hr⟩ := appendAll_spec a.ranges hstart
  have h8' : (readAck g.reset a).numInlineRanges ≤ 8 := hp.inline_le
  have hranges : (readAck g.reset a).ranges = a.ranges := hr
  have hcount : a.rangeCount = (readAck g.reset a).rangeCount := by
    rw [← length_ranges h8, ← length_ranges h8', hranges]
  obtain ⟨h1, h2, h3, -, -⟩ := appendAll_fields (ackStart g.reset a) a.ranges
  refine ⟨h1.symm, h2.symm, h3.symm, hcount, fun i _ => ?_, rfl, rfl⟩
  rw [AckFrame.range_eq h8, AckFrame.range_eq h8', hranges]

theorem codes_ack (hf : f.Fits) (hc : f.Coherent) (ht : f.type = .ack ∨ f.type = .ackECN) : ∃ e, f.Codes e := by
  obtain ⟨hfirst, h8⟩ := hf.ack ht
  have hv : ∀ v ∈ [f.ack.largestAcked, f.ack.ackDelay, f.ack.rangeCount, f.ack.firstAckRange] ++
      (f.ack.ranges.flatMap fun r => [r.gap, r.length]) ++ [f.ack.ecn.ect0, f.ack.ecn.ect1, f.ack.ecn.ecnce],
      v ≤ Varint.max := by
    rcases ht with ht | ht <;> simpa only [integers, ht] using hf.integers
  have hty : f.type = ackType f.ack := by
    have := hc.type
    rcases ht with ht | ht <;> simpa only [writtenType, ht, Option.some.injEq, eq_comm, ackType] using this
  have hhead : ∀ v ∈ [f.ack.largestAcked, f.ack.ackDelay, f.ack.rangeCount, f.ack.firstAckRange], v ≤ Varint.max :=
    fun v h => hv v (mem_append_left _ (mem_append_left _ h))
  have hecn : ∀ v ∈ [f.ack.ecn.ect0, f.ack.ecn.ect1, f.ack.ecn.ecnce], v ≤ Varint.max :=
    fun v h => hv v (mem_append_right _ h)
  have hranges : ∀ r ∈ f.ack.ranges, r.gap ≤ Varint.max ∧ r.length ≤ Varint.max := by
    intro r hr
    have hin := fun v h => hv v (mem_append_left _ (mem_append_right _ (mem_flatMap.2 ⟨r, hr, h⟩)))
    exact ⟨hin _ (by simp), hin _ (by simp)⟩
  have happ : ∀ dst, appendFrame dst f = appendAckFrame dst f.ack := by
    intro dst
    rcases ht with ht | ht <;> simp only [appendFrame, ht]
  have hzero : f.ack.hasECN = false → f.ack.ecn = {} := fun h => hc.ecn (by rw [hty]; simp [ackType, h])
  have hplain : (ackType f.ack).Plain := by unfold ackType; split <;> decide
  refine ⟨_, codes_of_body hplain (fun dst => (happ dst).trans (writes_ack h8 hhead hranges hecn dst)) fun g => ?_⟩
  refine ⟨{ g.reset with type := ackType f.ack, ack := readAck g.reset.ack f.ack }, ?_, ?_⟩
  · have hbody : parseBody (ackType f.ack) g.reset = parseAck (ackType f.ack) g.reset := by
      unfold ackType; split <;> rfl
    have hloop := reads_ranges f.ack.ranges hranges (ackStart g.reset.ack f.ack)
    rw [length_ranges h8] at hloop
    have hquiet := appendAll_fields (ackStart g.reset.ack f.ack) f.ack.ranges
    simp only [forall_mem_cons] at hhead
    rw [hbody]
    simp only [flatMap_cons, flatMap_nil, append_assoc, nil_append]
    refine (reads_varint hhead.1 _).bind ((reads_varint hhead.2.1 _).bind ((reads_varint hhead.2.2.1 _).bind
      ((reads_varint hhead.2.2.2.1 _).bind ?_)))
    rw [if_neg (by omega)]
    exact hloop.bind (((reads_ecn hecn hzero ⟨hquiet.2.2.2.1, hquiet.2.2.2.2⟩).mono fun _ _ => trivial).last _)
  · refine ⟨hty, ?_⟩
    have hsame : f.ack.Same (readAck g.reset.ack f.ack) := same_readAck h8 g.ack
    rcases ht with ht | ht <;> simpa only [ht] using hsame

/-! ## PADDING frames -/

theorem padRun_replicate (n : Nat) {r : List UInt8} (h : r.head? ≠ some 0) : padRun (List.replicate n 0 ++ r) = n := by
  induction n with
  | zero =>
    cases r with
    | nil => rfl
    | cons x r => simp at h; simp [padRun, h]
  | succ n ih => simp [replicate_succ, padRun, ih]

theorem codes_padding (hf : f.Fits) (ht : f.type = .padding) : ∃ e, f.Codes e := by
  have hpos := hf.padding ht
  refine ⟨List.replicate f.paddingCount 0, ?_, fun g => ?_, ?_, fun h => absurd ht h⟩
  · intro dst
    simp only [appendFrame, ht, appendPadding_eq]
  · refine ⟨{ g.reset with type := .padding, paddingCount := f.paddingCount }, fun r hr => ?_, ?_⟩
    · have hrun := padRun_replicate f.paddingCount (hr.padding ht)
      obtain ⟨n, hn⟩ : ∃ n, f.paddingCount = n + 1 := ⟨f.paddingCount - 1, by omega⟩
      unfold parseFrame
      rw [if_pos (by rw [hn]; rfl), parsePadding, hrun]
      simp
    · simp [Frame.Same, ht]
  · intro h
    have := congrArg List.length h
    simp at this
    omega

/-! ## Whole payloads -/

theorem codes_of_coherent (hf : f.Fits) (hc : f.Coherent) : ∃ e, f.Codes e := by
  have hty := hc.type
  unfold writtenType at hty
  split at hty
  all_goals first
    | rename_i h; exact codes_varints hf hc (by rw [h]; decide)
    | skip
  next h => exact codes_ack hf hc (.inl h)
  next h => exact codes_ack hf hc (.inr h)
  next h => exact codes_connectionClose hf hc (.inl h)
  next h => exact codes_connectionClose hf hc (.inr h)
  next h => exact codes_datagram hf hc (.inl h)
  next h => exact codes_datagram hf hc (.inr h)
  next h => exact codes_padding hf h
  next h => exact codes_crypto hf h
  next h => exact codes_newToken hf h
  next h => exact codes_newConnectionID hf h
  next h => exact codes_path (.inl h)
  next h => exact codes_path (.inr h)
  next =>
    -- the remaining types are the STREAM types
    split at hty
    next hs => exact codes_stream hf hc rfl hs
    next => cases hty

/-- The parser takes the bytes of the frame and leaves the others. -/
theorem parseNextFrame_codes {r : List UInt8} (he : f.Codes e) (hr : f.MayPrecede r) (g : Frame) :
    ∃ g', parseNextFrame (e ++ r) g = .ok (e.length, g') ∧ f.Same g' := by
  obtain ⟨g', hread, hsame⟩ := he.reads g
  refine ⟨g', ?_, hsame⟩
  have hne : e ++ r ≠ [] := by simp [he.nonempty]
  rw [parseNextFrame, if_neg hne, hread r hr]
  simp

/-- One after the other, as `frames` meets them: every frame may precede the
bytes of those behind it. -/
inductive Coded : List Frame → List UInt8 → Prop
  | nil : Coded [] []
  | cons {f fs e es} (he : f.Codes e) (hes : Coded fs es) (hr : f.MayPrecede es) : Coded (f :: fs) (e ++ es)

theorem Coded.length_le {es : List UInt8} (h : Coded fs es) : fs.length ≤ es.length := by
  induction h with
  | nil => exact Nat.le_refl _
  | cons he _ _ ih =>
    have := length_pos_iff.2 he.nonempty
    simp only [length_cons, length_append]
    omega

theorem framesLoop_coded {es : List UInt8} (h : Coded fs es) (g : Frame) (fuel : Nat)
    (hfuel : fs.length ≤ fuel) : ∃ gs, framesLoop fuel g es = (gs, .done) ∧ List.Forall₂ Frame.Same fs gs := by
  induction h generalizing g fuel with
  | nil => exact ⟨[], by cases fuel <;> rfl, .nil⟩
  | @cons f fs e es he hes hr ih =>
    obtain ⟨g', hparse, hsame⟩ := parseNextFrame_codes he hr g
    obtain ⟨n, rfl⟩ : ∃ n, fuel = n + 1 := ⟨fuel - 1, by simp only [length_cons] at hfuel; omega⟩
    obtain ⟨gs, hgs, hsames⟩ := ih g' n (by simp only [length_cons] at hfuel; omega)
    obtain ⟨x, e', rfl⟩ := exists_cons_of_ne_nil he.nonempty
    refine ⟨g' :: gs, ?_, .cons hsame hsames⟩
    rw [cons_append] at hparse ⊢
    simp only [framesLoop, hparse]
    rw [← cons_append, drop_left, hgs]

/-- No two PADDING frames in a row, and only the last frame may lack a length. -/
@[mk_iff] structure Separable (fs : List Frame) : Prop where
  padding : fs.IsChain fun f g => ¬ (f.type = .padding ∧ g.type = .padding)
  delimited : ∀ f ∈ fs.dropLast, f.delimited = true

instance (fs : List Frame) : Decidable (Separable fs) := decidable_of_iff _ (separable_iff fs).symm

theorem coded_of_separable (hf : ∀ f ∈ fs, f.Fits) (hc : ∀ f ∈ fs, f.Coherent) (hs : Separable fs) :
    ∃ es, Coded fs es ∧ Writes (appendFrames · fs) es := by
  induction fs with
  | nil => exact ⟨[], .nil, fun dst => by simp [appendFrames]⟩
  | cons f fs ih =>
    obtain ⟨e, he⟩ := codes_of_coherent (hf f mem_cons_self) (hc f mem_cons_self)
    have hs' : Separable fs := by
      refine ⟨hs.padding.tail, fun g hg => hs.delimited g ?_⟩
      cases fs with
      | nil => cases hg
      | cons => exact mem_cons_of_mem _ hg
    obtain ⟨es, hes, hw⟩ := ih (fun g hg => hf g (mem_cons_of_mem _ hg))
      (fun g hg => hc g (mem_cons_of_mem _ hg)) hs'
    refine ⟨e ++ es, .cons he hes ?_, fun dst => ?_⟩
    · cases hes with
      | nil => exact ⟨fun _ => by simp, fun _ => rfl⟩
      | @cons g gs eg egs hg _ _ =>
        -- what follows starts with the bytes of the next frame
        constructor
        · intro hpad
          have hne : g.type ≠ .padding := fun h => (isChain_cons_cons.1 hs.padding).1 ⟨hpad, h⟩
          obtain ⟨x, t, rfl⟩ := exists_cons_of_ne_nil hg.nonempty
          exact hg.head hne
        · intro hdel
          have := hs.delimited f (by simp)
          simp [this] at hdel
    · have hd : appendFrame dst f = some (dst ++ e) := he.writes dst
      have hrest : appendFrames (dst ++ e) fs = some (dst ++ e ++ es) := hw (dst ++ e)
      simp only [appendFrames, foldlM_cons, hd] at hrest ⊢
      rw [← append_assoc, ← hrest]
      rfl

/-- Iterating over what was written for a list of frames yields those frames, in
order and without an error, into one frame value that is used for all of them. -/
theorem frames_appendFrames (hfits : ∀ f ∈ fs, f.Fits) (hcoh : ∀ f ∈ fs, f.Coherent) (hsep : Separable fs) :
    ∃ payload gs, appendFrames [] fs = some payload ∧ frames payload = (gs, .done) ∧ List.Forall₂ Frame.Same fs gs := by
  obtain ⟨es, hes, hw⟩ := coded_of_separable hfits hcoh hsep
  obtain ⟨gs, hgs, hsame⟩ := framesLoop_coded hes {} es.length hes.length_le
  exact ⟨es, gs, hw [], hgs, hsame⟩

/-- An ACK of nine ranges, three bytes of padding, a STREAM frame at offset 5 with
FIN, and one at offset 0 without a length. -/
def fourFrames : List Frame :=
  [{ type := .ackECN
     ack :=
       { largestAcked := 900
         firstAckRange := 1
         inlineRanges := .replicate 8 ⟨70, 2⟩
         numInlineRanges := 8
         extraRanges := [⟨3, 4⟩]
         hasECN := true
         ecn := ⟨1, 2, 3⟩ } },
   { type := .padding, paddingCount := 3 },
   { type := 0x0f, stream := { streamID := 4, offset := 5, fin := true, hasLen := true, data := [7, 8] } },
   { type := 0x08, stream := { streamID := 8, data := [0, 9] } }]

theorem frames_appendFrames_four : ∃ payload gs, appendFrames [] fourFrames = some payload ∧
    frames payload = (gs, .done) ∧ List.Forall₂ Frame.Same fourFrames gs :=
  frames_appendFrames (by decide) (by decide) (by decide)

/-- The frames and the way the iteration ends, for what was written for `fs`. -/
def readBack (fs : List Frame) : Option (List Frame × Stop) := (appendFrames [] fs).map frames

/-- A type that disagrees with the flags, an ACK and a CONNECTION_CLOSE with a field
that is not written for their type, a sub-structure the type does not select, and
a type that is not known. -/
def inexactFrames : List (List Frame) :=
  [[{ type := 0x08, stream := { hasLen := true } }],
   [{ type := .ack, ack := { ecn := ⟨1, 2, 3⟩ } }],
   [{ type := .connectionCloseApp, connectionClose := { isApplication := true, frameType := 9 } }],
   [{ type := .maxData, maxData := ⟨5⟩ }, { type := .ping }],
   [{ type := 0x20 }]]

theorem readBack_inexact :
    (∀ fs ∈ inexactFrames, (∀ f ∈ fs, f.Fits) ∧ Separable fs ∧ readBack fs ≠ some (fs, .done)) ∧
    inexactFrames.map (fun fs => (readBack fs).map fun r => r.1.map fun f =>
      (f.type, f.ack.ecn.ect0, f.connectionClose.frameType, f.maxData.maximumData)) =
      [some [(0x0a, 0, 0, 0)], some [(.ack, 0, 0, 0)], some [(.connectionCloseApp, 0, 0, 0)],
       some [(.maxData, 0, 0, 5), (.ping, 0, 0, 5)], none] := by
  decide +kernel

end Mach.Quic.Wire
