import Mach.Quic.Wire.Header
/-!
# A header read back

The header of an Initial, 0-RTT, Handshake or 1-RTT packet is a first byte, what
comes before the packet number, and the packet number. Both parsers find the
packet number where the writer put it, and `parseHeader` finds the fields. Whatever
both parsers take, they agree on it.
-/

namespace Mach.Quic.Wire

open Lib Parser List Header

variable {largest : Nat} {e r : List UInt8} {x : UInt8}
  {k total n : Nat} {d : Int} {α : Type} {P : List UInt8 → Prop} {b s dst : List UInt8} {o : HeaderOffsets}

/-- The headers of packets that carry a packet number. -/
structure Header.Numbered (h : Header) : Prop where
  form : (h.isLong = false ∧ h.type = .oneRTT) ∨
    (h.isLong = true ∧ (h.type = .initial ∨ h.type = .zeroRTT ∨ h.type = .handshake) ∧
      (h.version = version1 ∨ h.version = version2))
  destConnID : h.destConnID.length ≤ 20
  srcConnID : h.srcConnID.length ≤ 20
  packetNumberLen : 1 ≤ h.packetNumberLen ∧ h.packetNumberLen ≤ 4
  packetNumber : h.packetNumber ≤ maxPacketNumber

/-- The same of any version: all that matters before the packet number is completed. -/
structure Header.Framed (h : Header) : Prop where
  form : (h.isLong = false ∧ h.type = .oneRTT) ∨
    (h.isLong = true ∧ (h.type = .initial ∨ h.type = .zeroRTT ∨ h.type = .handshake) ∧
      h.version ≠ versionNegotiation ∧ h.version < 2 ^ 32)
  destConnID : h.destConnID.length ≤ 20
  srcConnID : h.isLong = true → h.srcConnID.length ≤ 20
  packetNumberLen : 1 ≤ h.packetNumberLen ∧ h.packetNumberLen ≤ 4

theorem Header.Numbered.framed {h : Header} (hn : h.Numbered) : h.Framed := by
  refine ⟨hn.form.imp_right fun ⟨hl, ht, hv⟩ => ⟨hl, ht, ?_⟩, hn.destConnID, fun _ => hn.srcConnID, hn.packetNumberLen⟩
  rcases hv with hv | hv <;> rw [hv] <;> decide

/-- The lengths of a long header fit into a varint. -/
structure Header.Measures (h : Header) : Prop where
  token : h.type = .initial → h.token.length ≤ Varint.max
  length : h.isLong = true → h.length ≤ Varint.max

def longFirstByte (version : Nat) (t : PacketType) (pnLen : Nat) : UInt8 :=
  0xc0 ||| (typeBits version t).getD 0 ||| byte (pnLen - 1)

def Header.firstByte (h : Header) : UInt8 :=
  if h.isLong then longFirstByte h.version h.type h.packetNumberLen else shortFirstByte h

def tokenBytes (h : Header) : List UInt8 := if h.type = .initial then varintBytes h.token.length ++ h.token else []

/-- The bytes between the first one and the packet number. -/
def Header.middle (h : Header) : List UInt8 :=
  if h.isLong then
    beBytes 4 h.version ++ (byte h.destConnID.length :: h.destConnID ++
      (byte h.srcConnID.length :: h.srcConnID ++ (tokenBytes h ++ varintBytes h.length)))
  else h.destConnID

/-- The header that is authenticated: everything before the text. -/
def Header.bytes (g : Header) : List UInt8 := g.firstByte :: (g.middle ++ beBytes g.packetNumberLen g.packetNumber)

/-! ## First bytes -/

theorem longFirstByte_spec (v : Nat) {t : PacketType} (ht : t = .initial ∨ t = .zeroRTT ∨ t = .handshake)
    (hk : 1 ≤ k ∧ k ≤ 4) :
    (typeBits v t).isSome ∧ longFirstByte v t k &&& 0x80 ≠ 0 ∧ longFirstByte v t k &&& 0x40 ≠ 0 ∧
    longFirstByte v t k &&& 0x0c = 0 ∧ (longFirstByte v t k &&& 0x03).toNat + 1 = k ∧
    longType v ((longFirstByte v t k &&& 0x30) >>> 4) = t := by
  have h4 : k = 1 ∨ k = 2 ∨ k = 3 ∨ k = 4 := by omega
  -- only the second version has other bits
  unfold longFirstByte typeBits longType
  by_cases hv : v = version2 <;> simp only [hv, if_true, if_false] <;> rcases ht with rfl | rfl | rfl <;>
    rcases h4 with rfl | rfl | rfl | rfl <;> decide

/-- What the parsers see in the first byte of a short header. -/
theorem shortFirstByte_spec {h : Header} (hk : 1 ≤ h.packetNumberLen ∧ h.packetNumberLen ≤ 4) :
    shortFirstByte h &&& 0x80 = 0 ∧ shortFirstByte h &&& 0x40 ≠ 0 ∧ shortFirstByte h &&& 0x18 = 0 ∧
    (shortFirstByte h &&& 0x03).toNat + 1 = h.packetNumberLen ∧
    decide (shortFirstByte h &&& 0x20 ≠ 0) = h.spinBit ∧ decide (shortFirstByte h &&& 0x04 ≠ 0) = h.keyPhase := by
  have h4 : h.packetNumberLen = 1 ∨ h.packetNumberLen = 2 ∨ h.packetNumberLen = 3 ∨ h.packetNumberLen = 4 := by omega
  unfold shortFirstByte
  rcases h4 with hk | hk | hk | hk <;> cases h.spinBit <;> cases h.keyPhase <;> rw [hk] <;> decide

variable {h : Header}

theorem Header.Framed.long (hn : h.Framed) (hl : h.isLong = true) :
    (h.type = .initial ∨ h.type = .zeroRTT ∨ h.type = .handshake) ∧ h.type ≠ .retry ∧ h.type ≠ .versionNegotiation ∧
      h.version ≠ versionNegotiation ∧ beNat (beBytes 4 h.version) = h.version := by
  obtain ⟨hs, -⟩ | ⟨-, ht, hv, hlt⟩ := hn.form
  · simp [hl] at hs
  · refine ⟨ht, ?_, ?_, hv, by rw [beNat_beBytes, Nat.mod_eq_of_lt (show _ < 256 ^ 4 from hlt)]⟩ <;> rcases ht with ht | ht | ht <;> simp [ht]

theorem Header.Framed.short (hn : h.Framed) (hs : h.isLong = false) : h.type = .oneRTT := by
  obtain ⟨-, ht⟩ | ⟨hl, -⟩ := hn.form
  · exact ht
  · simp [hs] at hl

theorem firstByte_long (hn : h.Framed) (hl : h.isLong = true) : (typeBits h.version h.type).isSome ∧
    h.firstByte &&& 0x80 ≠ 0 ∧ h.firstByte &&& 0x40 ≠ 0 ∧ h.firstByte &&& 0x0c = 0 ∧
    (h.firstByte &&& 0x03).toNat + 1 = h.packetNumberLen ∧ longType h.version ((h.firstByte &&& 0x30) >>> 4) = h.type := by
  rw [firstByte, if_pos hl]
  exact longFirstByte_spec h.version (hn.long hl).1 hn.packetNumberLen

/-! ## Writing -/

theorem appendHeader_short (hn : h.Framed) (hs : h.isLong = false) (dst : List UInt8) :
    appendHeader dst h = .ok (dst ++ h.bytes, dst.length + (1 + h.middle.length)) := by
  have h20 := hn.destConnID
  have hk := hn.packetNumberLen
  have h1 : ¬ h.destConnID.length > 20 := by omega
  have h2 : ¬ (h.packetNumberLen < 1 ∨ h.packetNumberLen > 4) := by omega
  unfold appendHeader appendShortHeader bytes firstByte middle
  simp only [hs, Bool.false_eq_true, if_false, h1, h2, appendPacketNumber_eq _ _ hk, orPanic]
  simp [bind, Except.bind, pure, Except.pure, Nat.add_comm]

theorem appendLengthAndNumber_eq (hk : 1 ≤ h.packetNumberLen ∧ h.packetNumberLen ≤ 4) (hl : h.length ≤ Varint.max)
    (dst : List UInt8) :
    appendLengthAndNumber dst h = .ok (dst ++ varintBytes h.length ++ beBytes h.packetNumberLen h.packetNumber,
      (dst ++ varintBytes h.length).length) := by
  unfold appendLengthAndNumber
  rw [appendVarint_eq hl, orPanic]
  simp only [bind, Except.bind, appendPacketNumber_eq _ _ hk, orPanic]
  rfl

theorem appendHeader_long (hn : h.Framed) (hm : h.Measures) (hl : h.isLong = true) (dst : List UInt8) :
    appendHeader dst h = .ok (dst ++ h.bytes, dst.length + (1 + h.middle.length)) := by
  have hd := hn.destConnID
  have hs := hn.srcConnID hl
  have hk := hn.packetNumberLen
  have h1 : ¬ (h.destConnID.length > 20 ∨ h.srcConnID.length > 20) := by omega
  have h2 : ¬ (h.packetNumberLen < 1 ∨ h.packetNumberLen > 4) := by omega
  obtain ⟨bits, hbits⟩ := Option.isSome_iff_exists.1 (firstByte_long hn hl).1
  obtain ⟨ht, hretry, hvn, -⟩ := hn.long hl
  unfold appendHeader appendLongHeader bytes firstByte middle tokenBytes longFirstByte
  rw [if_pos hl, if_neg h1, if_neg hvn, hbits]
  simp only [hl, if_true, h2, and_false, if_false, hretry, ne_eq, not_false_eq_true, Option.getD_some]
  have hend := appendLengthAndNumber_eq hk (hm.length hl)
  rcases ht with ht | ht | ht
  · simp [ht, appendVarint_eq (hm.token ht), hend, orPanic, bind, Except.bind, connIDBytes]
    omega
  all_goals
    simp [ht, hend, connIDBytes]
    omega

/-! ## Reading -/

theorem reads_connID {d : List UInt8} (h20 : d.length ≤ 20) (behind : Nat) (err : WireError) :
    ReadsBefore (fun r => behind ≤ r.length) (connID behind err) (byte d.length :: d) d := by
  have hlen : (byte d.length).toNat = d.length := by rw [byte_toNat]; omega
  refine ReadsBefore.need (Reads.bind (reads_next (byte d.length)) ?_) (by simp)
  rw [hlen, if_neg (by omega)]
  exact ((reads_slice rfl).mono fun _ _ => trivial).need_of fun r hr => Nat.add_le_add_left hr _

theorem reads_token (ht : h.type = .initial → h.token.length ≤ Varint.max) :
    Reads (parseToken h.type) (tokenBytes h) (if h.type = .initial then h.token else []) := by
  unfold parseToken tokenBytes
  by_cases hi : h.type = .initial
  · simp only [hi, if_true]
    exact (reads_varint (ht hi) _).bind (reads_sized rfl _)
  · simp only [hi, if_false]
    exact Reads.pure []

theorem reads_number (pn : Nat) (hk : 1 ≤ k ∧ k ≤ 4) :
    Reads (number largest k) (beBytes k pn) (decodePacketNumber largest (pn % 256 ^ k) k) := by
  intro r _
  rw [number, readPacketNumber_beBytes pn hk]
  simp only
  rw [drop_left' (beBytes_length _ _)]

theorem readsBefore_pure {a b : α} (hab : a = b) : ReadsBefore P (pure a : Parse α) [] b := hab ▸ fun _ _ => rfl

theorem readsBefore_offset {f : Nat → Parse α} {a : α}
    (n : Nat) (hn : ∀ r, P r → total = n + (e.length + r.length)) (hf : ReadsBefore P (f n) e a) :
    ReadsBefore P (offset total >>= f) e a := by
  intro r hr
  have hpos : offset total (e ++ r) = .ok (n, e ++ r) := by
    have := hn r hr
    simp only [offset, length_append]
    rw [show total - (e.length + r.length) = n by omega]
  rw [bind_ok hpos]
  exact hf r hr

/-- The fields a packet carries, as the parser returns them in front of
`payloadLen` bytes. -/
def Header.received (h : Header) (payloadLen : Nat) : Header :=
  if h.isLong then
    { isLong := true
      type := h.type
      version := h.version
      destConnID := h.destConnID
      srcConnID := h.srcConnID
      token := if h.type = .initial then h.token else []
      length := h.length
      packetNumber := h.packetNumber
      packetNumberLen := h.packetNumberLen
      headerLen := 1 + h.middle.length + h.packetNumberLen
      packetNumberOffset := 1 + h.middle.length
      payloadLen := payloadLen }
  else
    { type := h.type
      destConnID := h.destConnID
      packetNumber := h.packetNumber
      packetNumberLen := h.packetNumberLen
      keyPhase := h.keyPhase
      spinBit := h.spinBit
      headerLen := 1 + h.middle.length + h.packetNumberLen
      packetNumberOffset := 1 + h.middle.length
      payloadLen := payloadLen }

/-- The same, with the packet number that is made of the bytes that were sent. -/
def Header.completed (h : Header) (largest payloadLen : Nat) : Header :=
  { h.received payloadLen with
    packetNumber := decodePacketNumber largest (h.packetNumber % 256 ^ h.packetNumberLen) h.packetNumberLen }

theorem parseHeader_of_reads {hdr : Header} (total : Nat) (htot : total = 1 + (e.length + r.length))
    (hread : ReadsBefore (· = r) (if x &&& 0x80 = 0 then parseShortHeader total x d largest
      else parseLongHeader total x largest) e hdr) : parseHeader (x :: (e ++ r)) d largest = .ok hdr := by
  have htot' : (x :: (e ++ r)).length = total := by simp [htot]; omega
  unfold parseHeader
  simp only [htot', hread r rfl]

theorem parseHeaderOffsets_of_reads (total : Nat) (htot : total = 1 + (e.length + r.length))
    (hread : ReadsBefore (· = r) (if x &&& 0x80 = 0 then parseShortOffsets d else parseLongOffsets total x) e o) :
    parseHeaderOffsets (x :: (e ++ r)) d = .ok o := by
  have htot' : (x :: (e ++ r)).length = total := by simp [htot]; omega
  unfold parseHeaderOffsets
  simp only [htot', hread r rfl]

theorem parseHeader_short (hn : h.Framed) (hs : h.isLong = false) (largest : Nat) (r : List UInt8) :
    parseHeader (h.bytes ++ r) (h.destConnID.length : Nat) largest = .ok (h.completed largest r.length) := by
  have h20 := hn.destConnID
  have hk := hn.packetNumberLen
  obtain ⟨h80, h40, h18, hlen, hspin, hphase⟩ := shortFirstByte_spec hk
  have hfirst : h.firstByte = shortFirstByte h := by simp [firstByte, hs]
  have hmid : h.middle = h.destConnID := by simp [middle, hs]
  refine parseHeader_of_reads (1 + h.middle.length + h.packetNumberLen + r.length) (by simp; omega) ?_
  rw [hfirst, if_pos h80, parseShortHeader, if_neg h40, if_neg (by simpa using h18), if_neg (by omega),
    ← append_nil (beBytes _ _), hmid]
  simp only [hlen, Int.toNat_natCast]
  refine ReadsBefore.need ((reads_slice rfl).bind (readsBefore_offset (1 + h.destConnID.length) ?_
    ((reads_number h.packetNumber hk).bind
      (readsBefore_offset (1 + h.destConnID.length + h.packetNumberLen) ?_ (readsBefore_pure ?_))))) (by simp)
  · rintro _ rfl; simp; omega
  · rintro _ rfl; simp
  · simp [completed, received, hs, hn.short hs, hmid, hspin, hphase]

theorem reads_numbered {n : Nat} (pre : Nat) (g : Header) (hn : h.Framed)
    (hm : h.Measures) (hl : h.isLong = true) (ht : g.type = h.type)
    (hlen : h.length = h.packetNumberLen + n) (hr : n ≤ r.length) :
    ReadsBefore (· = r) (parseNumbered (pre + h.packetNumberLen + r.length) h.firstByte largest g)
      (tokenBytes h ++ (varintBytes h.length ++ beBytes h.packetNumberLen h.packetNumber))
      { g with
        packetNumberLen := h.packetNumberLen
        token := if h.type = .initial then h.token else []
        length := h.length
        packetNumberOffset := pre
        packetNumber := decodePacketNumber largest (h.packetNumber % 256 ^ h.packetNumberLen) h.packetNumberLen
        headerLen := pre + h.packetNumberLen
        payloadLen := n } := by
  obtain ⟨-, -, -, h0c, hx, -⟩ := firstByte_long hn hl
  rw [parseNumbered, if_neg (by simpa using h0c), ht, ← append_nil (beBytes _ _)]
  simp only [hx]
  refine (reads_token hm.token).bind ((reads_varint (hm.length hl) _).bind (ReadsBefore.need (readsBefore_offset pre ?_
    ((reads_number h.packetNumber hn.packetNumberLen).bind
      (readsBefore_offset (pre + h.packetNumberLen) ?_ ?_))) (by simp)))
  · rintro _ rfl; simp; omega
  · rintro _ rfl; simp
  · have hsub : h.length - h.packetNumberLen = n := by omega
    rw [if_neg (by omega), hsub]
    refine ReadsBefore.need_of (readsBefore_pure rfl) ?_
    rintro _ rfl
    simpa using hr

theorem middle_long (hl : h.isLong = true) (e : List UInt8) : h.middle ++ e = beBytes 4 h.version ++
    (byte h.destConnID.length :: h.destConnID ++ (byte h.srcConnID.length :: h.srcConnID ++
      (tokenBytes h ++ (varintBytes h.length ++ e)))) := by
  simp [middle, hl]

section Forms

variable (hn : h.Framed)
include hn

theorem parseHeader_long (hm : h.Measures) (hl : h.isLong = true) (largest : Nat) (d : Int)
    (r : List UInt8) (hlen : h.length = h.packetNumberLen + n) (hr : n ≤ r.length) :
    parseHeader (h.bytes ++ r) d largest = .ok (h.completed largest n) := by
  obtain ⟨-, h80, h40, -, -, htyp⟩ := firstByte_long hn hl
  obtain ⟨-, hretry, -, hvn, hver⟩ := hn.long hl
  have hnum := @reads_numbered largest r h n (1 + h.middle.length)
    { isLong := true, type := h.type, version := h.version, destConnID := h.destConnID, srcConnID := h.srcConnID }
    hn hm hl rfl hlen hr
  refine parseHeader_of_reads (1 + h.middle.length + h.packetNumberLen + r.length) (by simp; omega) ?_
  rw [if_neg h80, middle_long hl]
  refine ReadsBefore.need ((reads_slice (by simp)).bind ?_) (by simp)
  simp only [hver, hvn, h40, htyp, hretry, if_false]
  refine ReadsBefore.bind (reads_connID hn.destConnID 1 _) (ReadsBefore.bind (reads_connID (hn.srcConnID hl) 0 _) ?_
    fun _ _ => Nat.zero_le _) fun _ _ => by simp
  rw [completed, received, if_pos hl]
  exact hnum

theorem parseHeaderOffsets_short (hs : h.isLong = false) (hx : x &&& 0x80 = 0) (hr : 4 ≤ r.length) :
    parseHeaderOffsets (x :: (h.middle ++ r)) (h.destConnID.length : Nat) =
      .ok { pnOffset := 1 + h.middle.length, typ := .oneRTT, dcid := h.destConnID } := by
  have h20 := hn.destConnID
  have hmid : h.middle = h.destConnID := by simp [middle, hs]
  refine parseHeaderOffsets_of_reads _ rfl ?_
  rw [if_pos hx, parseShortOffsets, if_neg (by omega), hmid]
  simp only [Int.toNat_natCast]
  refine ReadsBefore.need_of (((reads_slice rfl).mono fun _ _ => trivial).last _) ?_
  rintro _ rfl
  omega

theorem parseHeaderOffsets_long (hm : h.Measures) (hl : h.isLong = true)
    (hx : x &&& 0x80 ≠ 0) (hxt : x &&& 0x30 = h.firstByte &&& 0x30) (d : Int) (r : List UInt8) :
    parseHeaderOffsets (x :: (h.middle ++ r)) d =
      .ok { pnOffset := 1 + h.middle.length, isLong := true, typ := h.type, version := h.version,
            dcid := h.destConnID, scid := h.srcConnID } := by
  obtain ⟨-, -, -, -, -, htyp⟩ := firstByte_long hn hl
  obtain ⟨-, hretry, -, hvn, hver⟩ := hn.long hl
  have hmid := middle_long hl []
  rw [append_nil] at hmid
  refine parseHeaderOffsets_of_reads _ rfl ?_
  generalize h.middle.length = m
  rw [if_neg hx, hmid]
  refine ReadsBefore.need ((reads_slice (by simp)).bind ?_) (by simp)
  simp only [hver, hvn, hxt, htyp, hretry, if_false]
  refine ReadsBefore.bind (reads_connID hn.destConnID 1 _) (ReadsBefore.bind (reads_connID (hn.srcConnID hl) 0 _)
    ((reads_token hm.token).bind ((reads_varint (hm.length hl) _).bind
      (readsBefore_offset (1 + m) ?_ (readsBefore_pure rfl)))) fun _ _ => Nat.zero_le _)
    fun _ _ => by simp
  rintro _ rfl
  simp [Nat.add_assoc]

/-! ## Both forms -/

theorem appendHeader_eq (hm : h.Measures) (dst : List UInt8) :
    appendHeader dst h = .ok (dst ++ h.bytes, dst.length + (1 + h.middle.length)) := by
  cases hl : h.isLong with
  | false => exact appendHeader_short hn hl dst
  | true => exact appendHeader_long hn hm hl dst

/-- The low bits of the first byte tell the length of the packet number. -/
theorem firstByte_pnLen : h.packetNumberLen = (h.firstByte &&& 0x03).toNat + 1 := by
  cases hl : h.isLong with
  | false =>
    rw [firstByte, hl]
    exact (shortFirstByte_spec hn.packetNumberLen).2.2.2.1.symm
  | true => exact (firstByte_long hn hl).2.2.2.2.1.symm

theorem firstByte_form : h.firstByte &&& 0x80 ≠ 0 ↔ h.isLong = true := by
  cases hl : h.isLong with
  | false =>
    rw [firstByte, hl]
    simpa using (shortFirstByte_spec hn.packetNumberLen).1
  | true => simpa using (firstByte_long hn hl).2.1

/-- A header with its low bits changed: the packet number is still found. -/
theorem parseHeaderOffsets_eq (hm : h.Measures) (hx : x &&& 0x80 = h.firstByte &&& 0x80)
    (hxt : h.isLong = true → x &&& 0x30 = h.firstByte &&& 0x30) (hr : 4 ≤ r.length) :
    ∃ o, parseHeaderOffsets (x :: (h.middle ++ r)) (h.destConnID.length : Nat) = .ok o ∧
      o.pnOffset = 1 + h.middle.length := by
  have hform := firstByte_form hn
  rw [← hx] at hform
  cases hl : h.isLong with
  | false => exact ⟨_, parseHeaderOffsets_short hn hl (by simpa [hl] using hform) hr, rfl⟩
  | true => exact ⟨_, parseHeaderOffsets_long hn hm hl (hform.2 hl) (hxt hl) _ r, rfl⟩

/-- The header is read, in front of `n` bytes that it announces or that are all there is. -/
theorem parseHeader_completed (hm : h.Measures) (largest : Nat) {d : Int}
    (hd : h.isLong = false → d = h.destConnID.length) {r : List UInt8} {n : Nat}
    (hlong : h.isLong = true → h.length = h.packetNumberLen + n ∧ n ≤ r.length)
    (hshort : h.isLong = false → n = r.length) :
    parseHeader (h.bytes ++ r) d largest = .ok (h.completed largest n) := by
  cases hl : h.isLong with
  | false => rw [hshort hl, hd hl]; exact parseHeader_short hn hl largest r
  | true => exact parseHeader_long hn hm hl largest _ r (hlong hl).1 (hlong hl).2

end Forms

/-- It is recovered where the packet number is near the expected one. -/
theorem parseHeader_eq (hn : h.Numbered) (hm : h.Measures)
    (hlo : expectedPN largest < h.packetNumber + 256 ^ h.packetNumberLen / 2)
    (hhi : h.packetNumber ≤ expectedPN largest + 256 ^ h.packetNumberLen / 2)
    (hlong : h.isLong = true → h.length = h.packetNumberLen + n ∧ n ≤ r.length)
    (hshort : h.isLong = false → n = r.length) :
    parseHeader (h.bytes ++ r) (h.destConnID.length : Nat) largest = .ok (h.received n) := by
  rw [parseHeader_completed hn.framed hm largest (fun _ => rfl) hlong hshort, completed,
    decodePacketNumber_of_window hn.packetNumberLen hn.packetNumber hlo hhi]
  unfold received
  split <;> rfl

/-! ## The two parsers -/

/-- What `ParseHeaderOffsets` returns of a header. -/
def Header.offsets (h : Header) : HeaderOffsets where
  pnOffset := h.packetNumberOffset
  isLong := h.isLong
  typ := h.type
  version := h.version
  dcid := h.destConnID
  scid := h.srcConnID

/-- Only the error for a length above 20 differs. -/
theorem connID_of_ok {behind : Nat} {err err' : WireError} {b : List UInt8 × List UInt8}
    (hb : connID behind err s = .ok b) : connID behind err' s = .ok b := by
  obtain ⟨hone, hlen⟩ := need_bind_eq_ok hb
  obtain ⟨len, r, hnext, hid⟩ := bind_eq_ok hlen
  split at hid
  · cases hid
  rename_i hle
  rw [connID, need_bind hone, bind_ok hnext, if_neg hle]
  exact hid

/-- Where a long header is read as a whole, it is read up to its packet number. -/
theorem parseLongOffsets_of_header (hp : parseLongHeader total x largest s = .ok (h, r))
    (hretry : h.type ≠ .retry) (hvn : h.type ≠ .versionNegotiation) :
    (∃ r', parseLongOffsets total x s = .ok (h.offsets, r')) ∧ h.type = longType h.version ((x &&& 0x30) >>> 4) := by
  obtain ⟨hfour, hp⟩ := need_bind_eq_ok hp
  obtain ⟨v, s1, hv, hp⟩ := bind_eq_ok hp
  dsimp only at hp
  split at hp
  · -- version negotiation
    obtain ⟨-, hp⟩ := need_bind_eq_ok hp
    obtain ⟨_, _, -, hp⟩ := bind_eq_ok hp
    obtain ⟨-, hp⟩ := need_bind_eq_ok hp
    obtain ⟨_, _, -, hp⟩ := bind_eq_ok hp
    obtain ⟨_, _, -, hp⟩ := bind_eq_ok hp
    obtain ⟨-, hp⟩ := need_bind_eq_ok hp
    obtain ⟨_, _, -, hp⟩ := bind_eq_ok hp
    obtain ⟨_, _, -, hp⟩ := bind_eq_ok hp
    cases hp
    exact absurd rfl hvn
  rename_i hver
  split at hp
  · cases hp
  obtain ⟨dcid, s2, hdcid, hp⟩ := bind_eq_ok hp
  obtain ⟨scid, s3, hscid, hp⟩ := bind_eq_ok hp
  split at hp
  · obtain ⟨-, hp⟩ := need_bind_eq_ok hp
    obtain ⟨_, _, -, hp⟩ := bind_eq_ok hp
    cases hp
    exact absurd rfl hretry
  rename_i htype
  unfold parseNumbered at hp
  split at hp
  · cases hp
  obtain ⟨token, s4, htoken, hp⟩ := bind_eq_ok hp
  obtain ⟨length, s5, hlength, hp⟩ := bind_eq_ok hp
  obtain ⟨-, hp⟩ := need_bind_eq_ok hp
  obtain ⟨_, _, hoffset, hnumber⟩ := bind_eq_ok hp
  cases hoffset
  obtain ⟨_, _, -, hlen⟩ := bind_eq_ok hnumber
  obtain ⟨_, _, -, hend⟩ := bind_eq_ok hlen
  split at hend
  · cases hend
  cases (need_bind_eq_ok hend).2
  refine ⟨⟨s5, ?_⟩, rfl⟩
  rw [parseLongOffsets, need_bind hfour, bind_ok hv]
  dsimp only
  rw [if_neg hver, bind_ok (connID_of_ok hdcid), bind_ok (connID_of_ok hscid), if_neg htype, bind_ok htoken,
    bind_ok hlength]
  rfl

theorem offsets_parseShortHeader (hp : parseShortHeader (s.length + 1) x d largest s = .ok (h, r)) :
    h.offsets = { pnOffset := 1 + d.toNat, typ := .oneRTT, dcid := s.take d.toNat } := by
  unfold parseShortHeader at hp
  split at hp
  · cases hp
  split at hp
  · cases hp
  split at hp
  · cases hp
  obtain ⟨-, hp⟩ := need_bind_eq_ok hp
  obtain ⟨dcid, s1, hslice, hp⟩ := bind_eq_ok hp
  obtain ⟨hle, rfl, rfl⟩ := split_eq_ok hslice
  obtain ⟨_, _, hoffset, hnumber⟩ := bind_eq_ok hp
  cases hoffset
  obtain ⟨_, _, -, hlen⟩ := bind_eq_ok hnumber
  obtain ⟨_, _, -, hend⟩ := bind_eq_ok hlen
  cases hend
  have hpos : s.length + 1 - (s.drop d.toNat).length = 1 + d.toNat := by
    rw [length_drop]
    omega
  rw [offsets, hpos]

theorem parseShortOffsets_eq_ok (ho : parseShortOffsets d s = .ok (o, r)) :
    o = { pnOffset := 1 + d.toNat, typ := .oneRTT, dcid := s.take d.toNat } := by
  unfold parseShortOffsets at ho
  split at ho
  · cases ho
  obtain ⟨-, ho⟩ := need_bind_eq_ok ho
  obtain ⟨dcid, s1, hslice, hend⟩ := bind_eq_ok ho
  obtain ⟨-, rfl, -⟩ := split_eq_ok hslice
  cases hend
  rfl

theorem parseHeader_eq_ok {rest : List UInt8} (hp : parseHeader (x :: rest) d largest = .ok h) :
    ∃ r, (if x &&& 0x80 = 0 then parseShortHeader (rest.length + 1) x d largest
      else parseLongHeader (rest.length + 1) x largest) rest = .ok (h, r) := by
  unfold parseHeader at hp
  dsimp only at hp
  split at hp
  · rename_i h' r hr
    cases hp
    exact ⟨r, hr⟩
  · cases hp

theorem parseHeaderOffsets_of_header (hp : parseHeader b d largest = .ok h)
    (ho : parseHeaderOffsets b d = .ok o) (hretry : h.type ≠ .retry) (hvn : h.type ≠ .versionNegotiation) :
    o = h.offsets := by
  cases b with
  | nil => cases hp
  | cons x rest =>
    obtain ⟨r, hr⟩ := parseHeader_eq_ok hp
    unfold parseHeaderOffsets at ho
    dsimp only at ho
    split at ho
    · rename_i o' r' hr'
      cases ho
      split at hr
      · rename_i hshort
        rw [if_pos hshort] at hr'
        rw [offsets_parseShortHeader hr, parseShortOffsets_eq_ok hr']
      · rename_i hlong
        rw [if_neg hlong] at hr'
        obtain ⟨⟨r'', heq⟩, -⟩ := parseLongOffsets_of_header hr hretry hvn
        rw [length_cons, heq] at hr'
        cases hr'
        rfl
    · cases ho

/-! ## Every header that is written -/

theorem le_max_of_append {val : Nat} (ha : orPanic (appendVarint dst val) = .ok b) : val ≤ Varint.max := by
  by_contra hgt
  have : appendVarint dst val = none := by
    unfold appendVarint
    rw [if_neg, if_neg, if_neg, if_neg hgt] <;> simp only [Varint.max] at hgt <;> omega
  rw [this] at ha
  cases ha

theorem le_max_of_appendLength {b : List UInt8 × Nat} (ha : appendLengthAndNumber dst h = .ok b) :
    h.length ≤ Varint.max := by
  unfold appendLengthAndNumber at ha
  cases hv : orPanic (appendVarint dst h.length) with
  | error e =>
    rw [hv] at ha
    cases ha
  | ok d => exact le_max_of_append hv

/-- The writer takes a header only if its fields can be read back. -/
theorem framed_of_append {b : List UInt8 × Nat} (ha : appendHeader dst h = .ok b)
    (hlong : h.isLong = true → h.type ≠ .retry ∧ h.type ≠ .versionNegotiation ∧ h.version ≠ versionNegotiation ∧
      h.version < 2 ^ 32) (hshort : h.isLong = false → h.type = .oneRTT) : h.Framed ∧ h.Measures := by
  unfold appendHeader at ha
  split at ha
  · rename_i hl
    obtain ⟨hretry, hvn, hver⟩ := hlong hl
    unfold appendLongHeader at ha
    split at ha
    · cases ha
    rename_i hids
    split at ha
    · cases ha
    rename_i bits hbits
    split at ha
    · cases ha
    rename_i hk
    have hids' : h.destConnID.length ≤ 20 ∧ h.srcConnID.length ≤ 20 := by omega
    have hk' : 1 ≤ h.packetNumberLen ∧ h.packetNumberLen ≤ 4 := by
      have hno : ¬ (h.packetNumberLen < 1 ∨ h.packetNumberLen > 4) := fun hno => hk ⟨hretry, hno⟩
      omega
    have hframed : ∀ ht, h.Framed := fun ht =>
      ⟨.inr ⟨hl, ht, hver⟩, hids'.1, fun _ => hids'.2, hk'⟩
    dsimp only at ha
    split at ha
    · rename_i ht
      cases hv : orPanic (appendVarint _ h.token.length) with
      | error e =>
        rw [hv] at ha
        cases ha
      | ok d =>
        rw [hv] at ha
        exact ⟨hframed (.inl ht), fun _ => le_max_of_append hv, fun _ => le_max_of_appendLength ha⟩
    · rename_i ht
      exact ⟨hframed (.inr (.inl ht)), fun hi => by simp [ht] at hi, fun _ => le_max_of_appendLength ha⟩
    · rename_i ht
      exact ⟨hframed (.inr (.inr ht)), fun hi => by simp [ht] at hi, fun _ => le_max_of_appendLength ha⟩
    · exact absurd ‹_› hretry
    · cases ha
  · rename_i hs
    have hs : h.isLong = false := eq_false_of_ne_true hs
    unfold appendShortHeader at ha
    split at ha
    · cases ha
    split at ha
    · cases ha
    refine ⟨⟨.inl ⟨hs, hshort hs⟩, by omega, fun hl => by simp [hs] at hl, by omega⟩, fun hi => ?_, fun hl => by simp [hs] at hl⟩
    rw [hshort hs] at hi
    cases hi

/-- The two parsers agree on what they both take; and a header with a packet number is read back with the fields that
its form carries: the token in an Initial packet only, the spin bit and the key phase in a short header only. -/
theorem header_codec :
    (∀ (b : List UInt8) (d : Int) (largest : Nat) (hdr : Header) (o : HeaderOffsets),
      parseHeader b d largest = .ok hdr → parseHeaderOffsets b d = .ok o →
      hdr.type ≠ .retry → hdr.type ≠ .versionNegotiation →
      o.isLong = hdr.isLong ∧ o.typ = hdr.type ∧ o.version = hdr.version ∧ o.dcid = hdr.destConnID ∧
        o.scid = hdr.srcConnID ∧ o.pnOffset = hdr.packetNumberOffset) ∧
    (∀ (h : Header) (packet : List UInt8) (pnOffset : Nat), appendHeader [] h = .ok (packet, pnOffset) →
      (h.isLong = true → h.type ≠ .retry ∧ h.type ≠ .versionNegotiation ∧ h.version ≠ versionNegotiation ∧
        h.version < 2 ^ 32 ∧ h.packetNumberLen ≤ h.length) →
      (h.isLong = false → h.type = .oneRTT) →
      ∀ payload trailing : List UInt8, (h.isLong = true → payload.length = h.length - h.packetNumberLen) →
        (h.isLong = false → trailing = []) → ∀ (d : Int) (largest : Nat), (h.isLong = false → d = h.destConnID.length) →
        parseHeader (packet ++ payload ++ trailing) d largest = .ok {
          isLong := h.isLong
          type := h.type
          version := if h.isLong then h.version else 0
          destConnID := h.destConnID
          srcConnID := if h.isLong then h.srcConnID else []
          token := if h.type = .initial then h.token else []
          length := if h.isLong then h.length else 0
          packetNumber := decodePacketNumber largest (h.packetNumber % 256 ^ h.packetNumberLen) h.packetNumberLen
          packetNumberLen := h.packetNumberLen
          keyPhase := !h.isLong && h.keyPhase
          spinBit := !h.isLong && h.spinBit
          headerLen := packet.length
          packetNumberOffset := pnOffset
          payloadLen := payload.length }) := by
  refine ⟨fun b d largest hdr o hp ho hretry hvn => ?_, fun h packet pnOffset ha hlong hshort payload trailing hpay htrail d
    largest hd => ?_⟩
  · rw [parseHeaderOffsets_of_header hp ho hretry hvn]
    exact ⟨rfl, rfl, rfl, rfl, rfl, rfl⟩
  · obtain ⟨hn, hm⟩ := framed_of_append ha (fun hl => ⟨(hlong hl).1, (hlong hl).2.1, (hlong hl).2.2.1, (hlong hl).2.2.2.1⟩)
      hshort
    rw [appendHeader_eq hn hm] at ha
    cases ha
    have hread := @parseHeader_completed h hn hm largest d hd (payload ++ trailing) payload.length
      (fun hl => ⟨by rw [hpay hl]; have := (hlong hl).2.2.2.2; omega, by simp⟩) (fun hs => by rw [htrail hs]; simp)
    rw [nil_append, append_assoc, hread, completed, received]
    cases hl : h.isLong with
    | false => simp [hshort hl, bytes]; omega
    | true => simp [bytes]; omega

/-- A Handshake header of the first version, in front of three bytes. -/
def handshakeHeader : Header :=
  { isLong := true, type := .handshake, version := version1, destConnID := [1, 2], srcConnID := [3], length := 5,
    packetNumber := 7, packetNumberLen := 2 }

theorem header_codec_handshake :
    appendHeader [] handshakeHeader = .ok ([0xe1, 0, 0, 0, 1, 2, 1, 2, 1, 3, 5, 0, 7], 11) ∧
      (parseHeader ([0xe1, 0, 0, 0, 1, 2, 1, 2, 1, 3, 5, 0, 7] ++ [9, 9, 9] ++ [4]) 2 6).map
        (fun h => (h.type, h.packetNumber, h.headerLen, h.payloadLen)) = .ok (.handshake, 7, 13, 3) := by
  have ha : appendHeader [] handshakeHeader = .ok ([0xe1, 0, 0, 0, 1, 2, 1, 2, 1, 3, 5, 0, 7], 11) := by decide
  have hread := header_codec.2 handshakeHeader _ _ ha (fun _ => by decide) nofun [9, 9, 9] [4] (fun _ => rfl) nofun 2 6 nofun
  exact ⟨ha, by rw [hread]; decide +kernel⟩

/-- The spin bit of a long header, and the token of one that is not Initial, are not written. -/
theorem long_header_loses : ((appendHeader [] { handshakeHeader with spinBit := true, token := [1] }).bind fun p =>
      (parseHeader (p.1 ++ [9, 9, 9]) 2 6).map fun h => (h.spinBit, h.token)) = .ok (false, []) := by
  decide

end Mach.Quic.Wire
