import Mach.Quic.Wire.HeaderRoundTrip
import Mach.Quic.Wire.Protection
/-!
# A packet opened again

`openPacket` inverts `sealPacket`: for every header with a packet number, any
AEAD that opens what it sealed, and any way to make masks out of samples.
-/

namespace Mach.Quic.Wire

open Lib List

variable {k : Keys} {h : Header} {payload : List UInt8}

/-- The header as it is written, with its length filled in. -/
abbrev Header.written (h : Header) (payload : List UInt8) : Header := h.measured payload 16

/-- The lengths that are written fit into a varint. -/
structure Fits (h : Header) (payload : List UInt8) : Prop where
  token : h.type = .initial → h.token.length ≤ Varint.max
  length : h.isLong = true → h.packetNumberLen + payload.length + 16 ≤ Varint.max

theorem measured_numbered (hn : h.Numbered) : (h.written payload).Numbered := by
  unfold Header.written Header.measured
  split
  · exact { hn with }
  · exact hn

theorem measured_length (hn : h.Numbered) (hf : Fits h payload) (hl : h.isLong = true) :
    (h.written payload).length = h.packetNumberLen + payload.length + 16 := by
  have hretry : h.type ≠ .retry := by
    obtain ⟨hs, -⟩ | ⟨-, ht, -⟩ := hn.form
    · simp [hl] at hs
    · rcases ht with ht | ht | ht <;> simp [ht]
  have hle := hf.length hl
  simp only [Varint.max] at hle
  simp only [Header.measured, hl, hretry, ne_eq, not_false_eq_true, and_true, if_true]
  exact u64_of_lt (by omega)

theorem measured_same (h : Header) (payload : List UInt8) : (h.written payload).isLong = h.isLong ∧ (h.written payload).type = h.type ∧
    (h.written payload).token = h.token ∧ (h.written payload).destConnID = h.destConnID ∧
    (h.written payload).packetNumber = h.packetNumber ∧ (h.written payload).packetNumberLen = h.packetNumberLen := by
  unfold Header.written Header.measured
  split <;> exact ⟨rfl, rfl, rfl, rfl, rfl, rfl⟩

theorem measured_measures (hn : h.Numbered) (hf : Fits h payload) : (h.written payload).Measures := by
  obtain ⟨hl, ht, htok, -⟩ := measured_same h payload
  constructor
  · rw [ht, htok]; exact hf.token
  · rw [hl]
    intro hl
    rw [measured_length hn hf hl]
    exact hf.length hl

/-- The packet number and the sealed text. -/
def sealedTail (k : Keys) (g : Header) (payload : List UInt8) : List UInt8 :=
  beBytes g.packetNumberLen g.packetNumber ++ k.aead.sealWith (computeNonce k.iv g.packetNumber) payload g.bytes

theorem length_sealedTail (ha : k.aead.Lawful) (g : Header) :
    (sealedTail k g payload).length = g.packetNumberLen + (payload.length + 16) := by
  simp [sealedTail, ha.length_seal]

theorem sealPacket_eq (ha : k.aead.Lawful) (hn : h.Numbered) (hf : Fits h payload)
    (hmin : 4 ≤ h.packetNumberLen + payload.length) (dst : List UInt8) :
    let g := h.written payload
    let tail := sealedTail k g payload
    let mask := tailMask k.hp tail
    sealPacket k dst h payload =
      .ok (dst ++ (maskFirst mask[0] g.firstByte :: (g.middle ++ maskTail mask g.packetNumberLen tail))) := by
  intro g tail mask
  have hgn : g.Numbered := measured_numbered hn
  have hlen : 20 ≤ tail.length := by
    rw [length_sealedTail ha, (measured_same h payload).2.2.2.2.2]
    omega
  have hdrop : ∀ e, (dst ++ g.bytes ++ e).drop dst.length = g.bytes ++ e := by
    intro e; rw [append_assoc, drop_left]
  have htail : g.bytes ++ k.aead.sealWith (computeNonce k.iv g.packetNumber) payload g.bytes =
      g.firstByte :: (g.middle ++ tail) := by
    simp [Header.bytes, tail, sealedTail]
  have hoff : ((dst.length + (1 + g.middle.length) : Nat) : Int) - dst.length = ((1 + g.middle.length : Nat) : Int) := by
    omega
  unfold sealPacket
  simp only [ha.overhead]
  change (appendHeader dst g >>= _) = _
  rw [appendHeader_eq hgn.framed (measured_measures hn hf)]
  change (applyHeaderProtection ((dst ++ g.bytes ++ k.aead.sealWith (computeNonce k.iv g.packetNumber) payload
    ((dst ++ g.bytes).drop dst.length)).drop dst.length) (((dst.length + (1 + g.middle.length) : Nat) : Int) - dst.length)
      g.packetNumberLen k.hp >>= _) = _
  rw [drop_left, hdrop, htail, hoff, applyHeaderProtection_eq hlen hgn.packetNumberLen]
  change Except.ok (_ ++ _) = _
  rw [append_assoc, take_left]

theorem received_layout (g : Header) (n : Nat) : (g.received n).headerLen = g.bytes.length ∧ (g.received n).payloadLen = n ∧
    (g.received n).packetNumber = g.packetNumber ∧ (g.received n).packetNumberLen = g.packetNumberLen := by
  unfold Header.received Header.bytes
  split <;> simp <;> omega

theorem openPacket_eq (ha : k.aead.Lawful) {g : Header} (hgn : g.Numbered) (hgm : g.Measures)
    (hlong : g.isLong = true → g.length = g.packetNumberLen + (payload.length + 16))
    (hlen : 20 ≤ (sealedTail k g payload).length) {largestAcked : Nat}
    (hlo : expectedPN largestAcked < g.packetNumber + 256 ^ g.packetNumberLen / 2)
    (hhi : g.packetNumber ≤ expectedPN largestAcked + 256 ^ g.packetNumberLen / 2)
    (out : List UInt8) {extra : List UInt8} (hextra : g.isLong = false → extra = []) :
    let tail := sealedTail k g payload
    let mask := tailMask k.hp tail
    openPacket k out (maskFirst mask[0] g.firstByte :: (g.middle ++ maskTail mask g.packetNumberLen tail) ++ extra)
      (g.destConnID.length : Nat) largestAcked = .ok (g.received (payload.length + 16), out ++ payload) := by
  intro tail mask
  have h4 := hgn.packetNumberLen.2
  -- the bytes behind a packet change neither the sample nor what is masked
  have hlen : 20 ≤ tail.length := hlen
  have hmask : mask = tailMask k.hp (tail ++ extra) := (tailMask_append hlen extra).symm
  have hlen' : 20 ≤ (tail ++ extra).length := by simp only [length_append]; omega
  have hpacket : maskFirst mask[0] g.firstByte :: (g.middle ++ maskTail mask g.packetNumberLen tail) ++ extra =
      maskFirst mask[0] g.firstByte :: (g.middle ++ maskTail mask g.packetNumberLen (tail ++ extra)) := by
    rw [maskTail_append h4 hlen, cons_append, append_assoc]
  obtain ⟨o, ho, hpn⟩ := parseHeaderOffsets_eq hgn.framed hgm (maskFirst_form mask[0] g.firstByte)
    (fun hl => maskFirst_type ((firstByte_form hgn.framed).2 hl) mask[0])
    (show 4 ≤ (maskTail mask g.packetNumberLen (tail ++ extra)).length by
      rw [maskTail, length_xorBytes]; omega)
  have hremove : removeHeaderProtection (maskFirst mask[0] g.firstByte ::
      (g.middle ++ maskTail mask g.packetNumberLen (tail ++ extra))) (1 + g.middle.length) k.hp =
      .ok (g.firstByte :: (g.middle ++ (tail ++ extra)), g.packetNumberLen) := by
    rw [hmask]
    exact removeHeaderProtection_eq hlen' (firstByte_pnLen hgn.framed) h4
  have hct : (k.aead.sealWith (computeNonce k.iv g.packetNumber) payload g.bytes).length = payload.length + 16 :=
    ha.length_seal _ _ _
  have hplain : g.firstByte :: (g.middle ++ (tail ++ extra)) =
      g.bytes ++ (k.aead.sealWith (computeNonce k.iv g.packetNumber) payload g.bytes ++ extra) := by
    simp [Header.bytes, tail, sealedTail]
  have hparse : parseHeader (g.firstByte :: (g.middle ++ (tail ++ extra))) (g.destConnID.length : Nat) largestAcked =
      .ok (g.received (payload.length + 16)) := by
    rw [hplain]
    refine parseHeader_eq hgn hgm hlo hhi (fun hl => ⟨hlong hl, ?_⟩) fun hs => ?_
    · simp only [length_append, hct]
      omega
    · simp [hextra hs, hct]
  obtain ⟨hhead, hpay, hnum, hnumLen⟩ := received_layout g (payload.length + 16)
  have hopen : k.aead.openWith (computeNonce k.iv (g.received (payload.length + 16)).packetNumber)
      (((g.firstByte :: (g.middle ++ (tail ++ extra))).drop (g.received (payload.length + 16)).headerLen).take
        (g.received (payload.length + 16)).payloadLen)
      ((g.firstByte :: (g.middle ++ (tail ++ extra))).take (g.received (payload.length + 16)).headerLen) =
      some payload := by
    rw [hplain, hhead, hpay, hnum, take_left, drop_left, take_left' hct, ha.open_seal]
  unfold openPacket
  rw [hpacket, ho]
  simp only [bind, Except.bind, hpn, hremove, hparse, hopen]
  rw [← hnumLen]
  rfl

/-- Opening what `sealPacket` appended gives the header, its packet number and
the payload, also with other packets behind a long header. -/
theorem openPacket_sealPacket (ha : k.aead.Lawful) (hn : h.Numbered) (hf : Fits h payload)
    (hmin : 4 ≤ h.packetNumberLen + payload.length) {largestAcked : Nat}
    (hlo : expectedPN largestAcked < h.packetNumber + 256 ^ h.packetNumberLen / 2)
    (hhi : h.packetNumber ≤ expectedPN largestAcked + 256 ^ h.packetNumberLen / 2)
    (dst out extra : List UInt8) (hextra : h.isLong = false → extra = []) :
    ∃ packet, sealPacket k dst h payload = .ok (dst ++ packet) ∧
      openPacket k out (packet ++ extra) (h.destConnID.length : Nat) largestAcked =
        .ok ((h.written payload).received (payload.length + 16), out ++ payload) := by
  refine ⟨_, sealPacket_eq ha hn hf hmin dst, ?_⟩
  obtain ⟨hl, -, -, hdcid, hpn, hpnLen⟩ := measured_same h payload
  have hlong : (h.written payload).isLong = true →
      (h.written payload).length = (h.written payload).packetNumberLen + (payload.length + 16) := by
    intro hw
    rw [measured_length hn hf (hl ▸ hw), hpnLen, Nat.add_assoc]
  have hlen : 20 ≤ (sealedTail k (h.written payload) payload).length := by rw [length_sealedTail ha, hpnLen]; omega
  rw [← hdcid]
  rw [← hpn, ← hpnLen] at hlo hhi
  rw [← hl] at hextra
  exact openPacket_eq ha (measured_numbered hn) (measured_measures hn hf) hlong hlen hlo hhi out hextra

/-- An AEAD that only appends a tag, with masks taken from the sample. -/
def tagOnly : Keys where
  aead :=
    { overhead := 16
      sealWith := fun _ text _ => text ++ List.replicate 16 7
      openWith := fun _ sealedText _ => some (sealedText.take (sealedText.length - 16)) }
  iv := .replicate 12 1
  hp := fun sample => .ofFn fun i => sample.getD i.1 0

def initialHeader : Header :=
  { isLong := true
    type := .initial
    version := version2
    destConnID := [9, 9]
    token := [5]
    packetNumber := 300
    packetNumberLen := 2 }

/-- An Initial packet behind one byte and in front of another. -/
theorem openPacket_sealPacket_initial :
    ∃ packet, sealPacket tagOnly [1] initialHeader [2, 3] = .ok ([1] ++ packet) ∧
      openPacket tagOnly [] (packet ++ [0xff]) 2 298 =
        .ok ((initialHeader.written [2, 3]).received 18, [] ++ [2, 3]) :=
  openPacket_sealPacket ⟨rfl, fun _ _ _ => by simp [tagOnly], fun _ _ _ => by simp [tagOnly]⟩
    ⟨.inr ⟨rfl, .inl rfl, .inr rfl⟩, by decide, by decide, by decide, by decide⟩ ⟨fun _ => by decide, fun _ => by decide⟩
    (by decide) (by decide) (by decide) [1] [] [0xff] (by decide)

end Mach.Quic.Wire
