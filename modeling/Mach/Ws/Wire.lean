import Mach.Ws.Mask
/-!
# Frames on the wire

`WriteHeader`, `AppendHeader`, `ReadHeader` and the frame that `writeFrameLocked`
puts on the transport. A header that was written is read back, whatever comes
behind it, in each of the three encodings of its length; and what is read is what
would have been written.
-/

namespace Mach.Ws

open Lib List

/-! ## Writing -/

def headerLen (h : Header) : Nat :=
  2 + (if 125 < h.payloadLen ∧ h.payloadLen ≤ 0xffff then 2 else if 0xffff < h.payloadLen then 8 else 0) +
    if h.masked then 4 else 0

def flagOctet (h : Header) : UInt8 :=
  h.opcode &&& 0x0f ||| (if h.fin then 0x80 else 0) ||| (if h.rsv1 then 0x40 else 0) |||
    (if h.rsv2 then 0x20 else 0) ||| if h.rsv3 then 0x10 else 0

/-- The second octet, with the length in seven bits, and the extended length. -/
def lengthOctets (h : Header) : List UInt8 :=
  let b1 : UInt8 := if h.masked then 0x80 else 0
  if h.payloadLen ≤ 125 then [b1 ||| byte h.payloadLen]
  else if h.payloadLen ≤ 0xffff then (b1 ||| 126) :: beBytes 2 h.payloadLen
  else (b1 ||| 127) :: beBytes 8 h.payloadLen

inductive WriteError where
  | header (e : HeaderError)
  | errBufferTooSmall
  deriving DecidableEq, Repr

/-- The octets written to a buffer with room for `room` of them. -/
def writeHeader (room : Nat) (h : Header) : Except WriteError (List UInt8) :=
  match checkControl h with
  | .error e => .error (.header e)
  | .ok () =>
    if room < headerLen h then .error .errBufferTooSmall
    else .ok (flagOctet h :: lengthOctets h ++ if h.masked then h.maskKey.bytes else [])

/-- `writeFrameLocked`: the octets handed to the transport; `key` is what the random source gives a client. -/
def writeFrameLocked (isServer : Bool) (key : MaskKey) (fin rsv1 : Bool) (op : Opcode) (data : List UInt8) :
    Except WriteError (List UInt8) :=
  let h : Header :=
    { fin, rsv1, opcode := op, payloadLen := data.length, masked := !isServer, maskKey := if isServer then {} else key }
  match writeHeader (headerLen h) h with
  | .error e => .error e
  | .ok b => .ok (b ++ if h.masked then mask 0 data h.maskKey else data)

/-! ## Reading -/

inductive ReadError where
  | eof | errUnexpectedEOF
  deriving DecidableEq, Repr

/-- `io.ReadFull` of `n` octets, and what is left of the stream. -/
def readFull (n : Nat) (input : List UInt8) : Except ReadError (List UInt8) × List UInt8 :=
  if n ≤ input.length then (.ok (input.take n), input.drop n)
  else if input = [] then (.error .eof, [])
  else (.error .errUnexpectedEOF, [])

def readHeader (input : List UInt8) : Except (ReadError ⊕ HeaderError) Header × List UInt8 :=
  let r := readFull 2 input
  match r.1 with
  | .error e => (.error (.inl e), r.2)
  | .ok b =>
    let q := readFull (extraLen (b.getD 1 0)) r.2
    match q.1 with
    | .error e => (.error (.inl e), q.2)
    | .ok b' =>
      match parseHeader (b ++ b') with
      | .error e => (.error (.inr e), q.2)
      | .ok p => (.ok p.1, q.2)

/-! ## What is written is read back -/

variable {h : Header} {n : Nat} {b input : List UInt8}

theorem readFull_cases (n : Nat) (input : List UInt8) :
    n ≤ input.length ∧ readFull n input = (.ok (input.take n), input.drop n) ∨
      input.length < n ∧ ∃ e, readFull n input = (.error e, []) := by
  rw [readFull]
  split_ifs with hle hnil
  · exact .inl ⟨hle, rfl⟩
  · exact .inr ⟨Nat.not_le.1 hle, _, rfl⟩
  · exact .inr ⟨Nat.not_le.1 hle, _, rfl⟩

theorem readFull_append (a rest : List UInt8) : readFull a.length (a ++ rest) = (.ok a, rest) := by
  rw [readFull, if_pos (by simp), take_left, drop_left]

theorem flagOctet_bits (h : Header) (hop : h.opcode < 16) :
    (flagOctet h &&& 0x80 != 0) = h.fin ∧ (flagOctet h &&& 0x40 != 0) = h.rsv1 ∧
      (flagOctet h &&& 0x20 != 0) = h.rsv2 ∧ (flagOctet h &&& 0x10 != 0) = h.rsv3 ∧ flagOctet h &&& 0x0f = h.opcode := by
  obtain ⟨fin, rsv1, rsv2, rsv3, op, masked, key, len⟩ := h
  have hall : ∀ (fin rsv1 rsv2 rsv3 : Bool) (op : Fin 16),
      let b := flagOctet ⟨fin, rsv1, rsv2, rsv3, byte op.val, false, {}, 0⟩
      (b &&& 0x80 != 0) = fin ∧ (b &&& 0x40 != 0) = rsv1 ∧ (b &&& 0x20 != 0) = rsv2 ∧ (b &&& 0x10 != 0) = rsv3 ∧
        b &&& 0x0f = byte op.val := by
    decide +kernel
  have h := hall fin rsv1 rsv2 rsv3 ⟨op.toNat, hop⟩
  rwa [byte_toNat_self] at h

theorem length_bits : ∀ (masked : Bool) (l : Fin 128),
    (((if masked then 0x80 else 0) ||| byte l.val) &&& 0x80 != 0) = masked ∧
      (((if masked then 0x80 else 0) ||| byte l.val) &&& 0x7f).toNat = l.val := by
  decide +kernel

theorem ofBytes_bytes (k : MaskKey) : MaskKey.ofBytes k.bytes = k := rfl

theorem parseMaskKey_written (h : Header) (hkey : h.masked = false → h.maskKey = {}) {pre rest : List UInt8}
    (hpre : pre.length = n) :
    parseMaskKey h.masked n (pre ++ ((if h.masked then h.maskKey.bytes else []) ++ rest)) =
      .ok (h.maskKey, n + if h.masked then 4 else 0) := by
  cases hm : h.masked with
  | false => simp [parseMaskKey, hkey hm]
  | true =>
    have hslice : slice (pre ++ (h.maskKey.bytes ++ rest)) n 4 = h.maskKey.bytes := by
      rw [slice, drop_left' hpre]
      rfl
    have hroom : ¬ (pre ++ (h.maskKey.bytes ++ rest)).length < n + 4 := by
      simp only [length_append, hpre, MaskKey.bytes, length_cons, length_nil]
      omega
    simp only [parseMaskKey, if_true, if_neg hroom, hslice, ofBytes_bytes]

def lengthCode (n : Nat) : Nat × List UInt8 :=
  if n ≤ 125 then (n, []) else if n ≤ 0xffff then (126, beBytes 2 n) else (127, beBytes 8 n)

theorem lengthCode_cases (n : Nat) :
    n ≤ 125 ∧ lengthCode n = (n, []) ∨ 125 < n ∧ n ≤ 0xffff ∧ lengthCode n = (126, beBytes 2 n) ∨
      0xffff < n ∧ lengthCode n = (127, beBytes 8 n) := by
  rw [lengthCode]
  split_ifs with h7 h16
  · exact .inl ⟨h7, rfl⟩
  · exact .inr (.inl ⟨by omega, h16, rfl⟩)
  · exact .inr (.inr ⟨by omega, rfl⟩)

theorem lengthCode_lt (n : Nat) : (lengthCode n).1 < 128 := by
  obtain ⟨h, hc⟩ | ⟨-, -, hc⟩ | ⟨-, hc⟩ := lengthCode_cases n
  · rw [hc]
    exact Nat.lt_of_le_of_lt h (by decide)
  · simp [hc]
  · simp [hc]

theorem lengthOctets_eq (h : Header) :
    lengthOctets h = ((if h.masked then 0x80 else 0) ||| byte (lengthCode h.payloadLen).1) ::
      (lengthCode h.payloadLen).2 := by
  simp only [lengthOctets, lengthCode]
  split_ifs <;> rfl

theorem headerLen_eq (h : Header) :
    headerLen h = 2 + (lengthCode h.payloadLen).2.length + if h.masked then 4 else 0 := by
  rw [headerLen]
  obtain ⟨h7, hc⟩ | ⟨h7, h16, hc⟩ | ⟨h16, hc⟩ := lengthCode_cases h.payloadLen
  · rw [hc, if_neg (by omega), if_neg (by omega)]
    rfl
  · rw [hc, if_pos ⟨h7, h16⟩]
    rfl
  · rw [hc, if_neg (by omega), if_pos h16]
    rfl

theorem parseLength_lengthCode (hn : n < 2 ^ 63) (b0 b1 : UInt8) (rest : List UInt8) :
    parseLength (lengthCode n).1 (b0 :: b1 :: ((lengthCode n).2 ++ rest)) = .ok (n, 2 + (lengthCode n).2.length) := by
  have hslice (k : Nat) : slice (b0 :: b1 :: (beBytes k n ++ rest)) 2 k = beBytes k n := by
    simp [slice, take_left' (beBytes_length k n)]
  obtain ⟨h7, hc⟩ | ⟨h7, h16, hc⟩ | ⟨h16, hc⟩ := lengthCode_cases n
  · rw [hc, parseLength, if_neg (by simp only; omega), if_neg (by simp only; omega)]
    rfl
  · rw [hc, parseLength, if_pos rfl, if_neg (by simp)]
    simp only [hslice, beNat_beBytes, beBytes_length]
    rw [Nat.mod_eq_of_lt (by omega), if_neg (by omega)]
  · rw [hc, parseLength, if_neg (by simp), if_pos rfl, if_neg (by simp)]
    simp only [hslice, beNat_beBytes, beBytes_length]
    rw [Nat.mod_eq_of_lt (by omega), if_neg (by omega), if_neg (by omega)]

/-- A header as the wire carries it. -/
structure Header.Proper (h : Header) : Prop where
  opcode : h.opcode < 16
  payloadLen : h.payloadLen < 2 ^ 63
  maskKey : h.masked = false → h.maskKey = {}
  control : checkControl h = .ok ()

def headerOctets (h : Header) : List UInt8 :=
  flagOctet h :: lengthOctets h ++ if h.masked then h.maskKey.bytes else []

theorem writeHeader_proper (hp : h.Proper) : writeHeader (headerLen h) h = .ok (headerOctets h) := by
  simp [writeHeader, hp.control, headerOctets]

theorem headerOctets_eq (h : Header) : headerOctets h =
    flagOctet h :: ((if h.masked then 0x80 else 0) ||| byte (lengthCode h.payloadLen).1) ::
      ((lengthCode h.payloadLen).2 ++ if h.masked then h.maskKey.bytes else []) := by
  rw [headerOctets, lengthOctets_eq]
  simp

theorem parseHeader_headerOctets (hp : h.Proper) (rest : List UInt8) :
    parseHeader (headerOctets h ++ rest) = .ok (h, headerLen h) := by
  obtain ⟨hfin, hr1, hr2, hr3, hop⟩ := flagOctet_bits h hp.opcode
  obtain ⟨hmask, hl⟩ := length_bits h.masked ⟨_, lengthCode_lt h.payloadLen⟩
  simp only at hmask hl
  rw [headerOctets_eq]
  generalize flagOctet h = b0 at hfin hr1 hr2 hr3 hop ⊢
  generalize (if h.masked then 0x80 else 0) ||| byte (lengthCode h.payloadLen).1 = b1 at hmask hl ⊢
  have hlength := parseLength_lengthCode hp.payloadLen b0 b1 ((if h.masked then h.maskKey.bytes else []) ++ rest)
  have hkey := @parseMaskKey_written (2 + (lengthCode h.payloadLen).2.length) h hp.maskKey
    (b0 :: b1 :: (lengthCode h.payloadLen).2) rest (by simp; omega)
  rw [cons_append, cons_append] at hkey
  rw [cons_append, cons_append, append_assoc]
  generalize (lengthCode h.payloadLen).2 ++ ((if h.masked then h.maskKey.bytes else []) ++ rest) = tail at hlength hkey ⊢
  rw [← hl] at hlength
  have htwo : ¬ (b0 :: b1 :: tail).length < 2 := by simp
  simp only [parseHeader_eq, if_neg htwo, Except.bind, getD_cons_zero, getD_cons_succ, hlength, hkey, header,
    hfin, hr1, hr2, hr3, hop, hmask, hp.control, headerLen_eq]

/-! ## What is read was written -/

theorem parseLength_inv {len7 : Nat} {p : Nat × Nat} (hlen : len7 < 128) (h : parseLength len7 b = .ok p) :
    p.1 < 2 ^ 63 ∧ lengthCode p.1 = (len7, slice b 2 (p.2 - 2)) := by
  have hcode : ∀ k, 2 + k ≤ b.length →
      beNat (slice b 2 k) < 256 ^ k ∧ beBytes k (beNat (slice b 2 k)) = slice b 2 k := fun k hk => by
    have hlt := beNat_lt (slice b 2 k)
    have hbytes := beBytes_beNat (slice b 2 k)
    rw [length_slice hk] at hlt hbytes
    exact ⟨hlt, hbytes⟩
  simp only [parseLength] at h
  split_ifs at h with h126 hshort hmin h127 hshort hbig hmin
  all_goals cases h
  · obtain ⟨hlt, hbytes⟩ := hcode 2 (Nat.not_lt.1 hshort)
    exact ⟨by simp only; omega, by rw [lengthCode, if_neg (by omega), if_pos (by omega), hbytes, h126]; rfl⟩
  · obtain ⟨hlt, hbytes⟩ := hcode 8 (Nat.not_lt.1 hshort)
    exact ⟨by simp only; omega, by rw [lengthCode, if_neg (by omega), if_neg hmin, hbytes, h127]; rfl⟩
  · exact ⟨by simp only; omega, by rw [lengthCode, if_pos (by omega), Nat.sub_self, slice_zero]⟩

theorem parseMaskKey_inv {masked : Bool} {hlen : Nat} {q : MaskKey × Nat} (h : parseMaskKey masked hlen b = .ok q) :
    (masked = false → q.1 = {}) ∧ b.take q.2 = b.take hlen ++ if masked then q.1.bytes else [] := by
  cases masked with
  | false =>
    cases h
    simp
  | true =>
    simp only [parseMaskKey, if_true] at h
    split_ifs at h with hshort
    cases h
    have hfour := length_slice (Nat.not_lt.1 hshort)
    refine ⟨by simp, ?_⟩
    rw [← take_append_slice]
    obtain ⟨_, _, _, _, hs⟩ := length_eq_four.1 hfour
    rw [hs]
    rfl

theorem flagOctet_inv (b0 : UInt8) : flagOctet ⟨b0 &&& 0x80 != 0, b0 &&& 0x40 != 0, b0 &&& 0x20 != 0,
    b0 &&& 0x10 != 0, b0 &&& 0x0f, false, {}, 0⟩ = b0 ∧ b0 &&& 0x0f < 16 :=
  forall_byte (P := fun b0 => flagOctet ⟨b0 &&& 0x80 != 0, b0 &&& 0x40 != 0, b0 &&& 0x20 != 0, b0 &&& 0x10 != 0,
    b0 &&& 0x0f, false, {}, 0⟩ = b0 ∧ b0 &&& 0x0f < 16) (by decide +kernel) b0

theorem lengthOctet_inv (b1 : UInt8) : (if b1 &&& 0x80 != 0 then 0x80 else 0) ||| byte (b1 &&& 0x7f).toNat = b1 ∧
    (b1 &&& 0x7f).toNat < 128 :=
  forall_byte (P := fun b1 => (if b1 &&& 0x80 != 0 then 0x80 else 0) ||| byte (b1 &&& 0x7f).toNat = b1 ∧
    (b1 &&& 0x7f).toNat < 128) (by decide +kernel) b1

/-- What `ParseHeader` accepts is what `WriteHeader` writes for the header it returns. -/
theorem parseHeader_inv (hp : parseHeader b = .ok (h, n)) : h.Proper ∧ b.take n = headerOctets h := by
  obtain ⟨hb, p, q, hl, hm, hh, rfl⟩ := parseHeader_parts hp
  obtain ⟨b0, b1, rest, rfl⟩ : ∃ b0 b1 rest, b = b0 :: b1 :: rest := by
    match b, hb with
    | b0 :: b1 :: rest, _ => exact ⟨b0, b1, rest, rfl⟩
  simp only [getD_cons_zero, getD_cons_succ] at hl hm hh
  obtain ⟨hb1, hlt⟩ := lengthOctet_inv b1
  obtain ⟨hmax, hcode⟩ := parseLength_inv hlt hl
  obtain ⟨hkey, htake⟩ := parseMaskKey_inv hm
  have hpre := take_append_slice (b0 :: b1 :: rest) 2 (p.2 - 2)
  rw [Nat.add_sub_cancel' (by rw [(parseLength_stop hl hb).1]; omega)] at hpre
  simp only [header] at hh
  split at hh
  · cases hh
  rename_i hc
  cases hh
  refine ⟨⟨(flagOctet_inv b0).2, hmax, hkey, hc⟩, ?_⟩
  have hb0 := (flagOctet_inv b0).1
  rw [headerOctets_eq, htake, ← hpre]
  simp only [flagOctet] at hb0 ⊢
  simp only [hb0, hcode, hb1]
  rfl

/-! ## Headers off the stream -/

theorem second_octet (input : List UInt8) : (input.take 2).getD 1 0 = input.getD 1 0 := by
  simp only [getD_eq_getElem?_getD, getElem?_take_of_lt (show 1 < 2 by decide)]

theorem readHeader_short (h : input.length < headerSize input) : ∃ e, readHeader input = (.error (.inl e), []) := by
  rw [readHeader]
  obtain ⟨hle, h2⟩ | ⟨-, e, h2⟩ := readFull_cases 2 input
  · obtain ⟨hle', -⟩ | ⟨-, e, hextra⟩ := readFull_cases (extraLen (input.getD 1 0)) (input.drop 2)
    · rw [headerSize] at h
      rw [length_drop] at hle'
      omega
    · exact ⟨e, by simp only [h2, second_octet, hextra]⟩
  · exact ⟨e, by simp only [h2]⟩

/-- `ReadHeader` decides as `ParseHeader` does, once the stream holds what the second octet announces. -/
theorem readHeader_complete (h : headerSize input ≤ input.length) :
    readHeader input = (match parseHeader input with
      | .ok p => .ok p.1
      | .error e => .error (.inr e), input.drop (headerSize input)) := by
  have h2 : 2 ≤ input.length := by
    rw [headerSize] at h
    omega
  have hextra : extraLen (input.getD 1 0) ≤ (input.drop 2).length := by
    rw [headerSize] at h
    rw [length_drop]
    omega
  have htake : input.take 2 ++ (input.drop 2).take (extraLen (input.getD 1 0)) = input.take (headerSize input) :=
    take_add.symm
  simp only [readHeader, readFull, if_pos h2, second_octet, if_pos hextra, htake, parseHeader_take h, drop_drop]
  cases parseHeader input <;> rfl

theorem readHeader_ok_iff {rest : List UInt8} :
    readHeader input = (.ok h, rest) ↔ ∃ n, parseHeader input = .ok (h, n) ∧ rest = input.drop n := by
  by_cases hs : headerSize input ≤ input.length
  · rw [readHeader_complete hs]
    cases hp : parseHeader input with
    | error e => simp
    | ok p =>
      obtain ⟨h', n⟩ := p
      simp only [Prod.mk.injEq, Except.ok.injEq, ← (parseHeader_ok hp).2.2]
      constructor
      · rintro ⟨rfl, rfl⟩
        exact ⟨n, ⟨rfl, rfl⟩, rfl⟩
      · rintro ⟨_, ⟨rfl, rfl⟩, rfl⟩
        exact ⟨rfl, rfl⟩
  · obtain ⟨e, hr⟩ := readHeader_short (Nat.not_le.1 hs)
    rw [hr]
    refine ⟨nofun, ?_⟩
    rintro ⟨n, hp, -⟩
    obtain ⟨-, hle, hsize⟩ := parseHeader_ok hp
    exact absurd (hsize ▸ hle) hs

theorem headerOctets_length (h : Header) : (headerOctets h).length = headerLen h := by
  rw [headerOctets_eq, headerLen_eq]
  cases h.masked <;> simp [MaskKey.bytes] <;> omega

theorem readHeader_headerOctets (hp : h.Proper) (rest : List UInt8) :
    readHeader (headerOctets h ++ rest) = (.ok h, rest) := by
  refine readHeader_ok_iff.2 ⟨_, parseHeader_headerOctets hp rest, ?_⟩
  rw [← headerOctets_length, drop_left]

/-! ## The codec -/

/-- A header with its `Length`, the other name of `PayloadLen`. -/
structure Aliased where
  header : Header
  length : Int := 0
  deriving DecidableEq, Repr

namespace Aliased

def headerLen (h : Aliased) : Nat := Ws.headerLen h.header

def writeHeader (room : Nat) (h : Aliased) : Except WriteError (List UInt8) := Ws.writeHeader room h.header

/-- `AppendHeader`: a payload length of zero gives way to `Length`. -/
def appendHeader (dst : List UInt8) (h : Aliased) : List UInt8 :=
  let payloadLen := if h.header.payloadLen = 0 ∧ 0 < h.length then h.length.toNat else h.header.payloadLen
  dst ++ (flagOctet h.header :: lengthOctets { h.header with payloadLen } ++
    if h.header.masked then h.header.maskKey.bytes else [])

/-- `ParseHeader` leaves `Length` as it is in a new header. -/
def parseHeader (b : List UInt8) : Except HeaderError (Aliased × Nat) := (Ws.parseHeader b).map fun p => (⟨p.1, 0⟩, p.2)

def readHeader (input : List UInt8) : Except (ReadError ⊕ HeaderError) Aliased × List UInt8 :=
  let r := Ws.readHeader input
  (r.1.map fun h => ⟨h, h.payloadLen⟩, r.2)

/-- The opcode has four bits, and there is no masking key unless the payload is masked. -/
structure OnWire (h : Aliased) : Prop where
  opcode : h.header.opcode < 16
  maskKey : h.header.masked = false → h.header.maskKey = {}

variable {h : Aliased}

theorem writeHeader_ok {room : Nat} {bs : List UInt8} (hw : h.writeHeader room = .ok bs) :
    checkControl h.header = .ok () ∧ h.headerLen ≤ room ∧ bs = headerOctets h.header := by
  unfold writeHeader Ws.writeHeader at hw
  split at hw
  · cases hw
  rename_i hc
  split at hw
  · cases hw
  rename_i hroom
  cases hw
  exact ⟨hc, Nat.not_lt.1 hroom, rfl⟩

theorem onWire_of_proper (hp : h.header.Proper) : h.OnWire := ⟨hp.opcode, hp.maskKey⟩

theorem OnWire.proper (hh : h.OnWire) (hlen : h.header.payloadLen < 2 ^ 63) (hc : checkControl h.header = .ok ()) :
    h.header.Proper := ⟨hh.opcode, hlen, hh.maskKey, hc⟩

theorem parseHeader_ok_iff :
    parseHeader b = .ok (h, n) ↔ h.length = 0 ∧ Ws.parseHeader b = .ok (h.header, n) := by
  obtain ⟨h, length⟩ := h
  rw [parseHeader]
  cases Ws.parseHeader b <;> simp [Except.map, Prod.ext_iff, eq_comm, and_assoc, and_left_comm]

theorem readHeader_ok_iff {rest : List UInt8} : readHeader input = (.ok h, rest) ↔
    h.length = h.header.payloadLen ∧ Ws.readHeader input = (.ok h.header, rest) := by
  obtain ⟨h, length⟩ := h
  rw [readHeader]
  obtain ⟨r, rest'⟩ := Ws.readHeader input
  cases r with
  | error e => simp [Except.map]
  | ok h' =>
    simp only [Except.map, Prod.mk.injEq, Except.ok.injEq, Aliased.mk.injEq]
    constructor
    · rintro ⟨⟨rfl, rfl⟩, rfl⟩
      exact ⟨rfl, rfl, rfl⟩
    · rintro ⟨rfl, rfl, rfl⟩
      exact ⟨⟨rfl, rfl⟩, rfl⟩

theorem appendHeader_eq (dst : List UInt8) :
    h.appendHeader dst = dst ++ headerOctets h.header ↔ (h.header.payloadLen = 0 → h.length ≤ 0) := by
  rw [appendHeader, append_right_inj]
  by_cases hal : h.header.payloadLen = 0 ∧ 0 < h.length
  · -- the second octets differ
    refine iff_of_false (fun heq => ?_) (by omega)
    rw [headerOctets, if_pos hal, lengthOctets_eq, lengthOctets_eq, hal.1] at heq
    have hseven := fun n => (length_bits h.header.masked ⟨_, lengthCode_lt n⟩).2
    have hcode := congrArg (fun b : UInt8 => (b &&& 0x7f).toNat) (List.cons.inj (List.cons.inj heq).2).1
    simp only [hseven] at hcode
    have hzero : (lengthCode 0).1 = 0 := rfl
    obtain ⟨-, hc⟩ | ⟨-, -, hc⟩ | ⟨-, hc⟩ := lengthCode_cases h.length.toNat
    all_goals
      rw [hc, hzero] at hcode
      omega
  · rw [if_neg hal]
    exact iff_of_true rfl (by omega)

/-- What is written is read back, what is read was written, and the two readers decide alike. -/
theorem header_codec_canonical :
    (∀ (h : Aliased) (room : Nat) (bs : List UInt8), h.header.payloadLen < 2 ^ 63 → h.writeHeader room = .ok bs →
      bs.length = h.headerLen ∧
      (∀ dst, h.appendHeader dst = dst ++ bs ↔ (h.header.payloadLen = 0 → h.length ≤ 0)) ∧
      ∀ rest, (parseHeader (bs ++ rest) = .ok (⟨h.header, 0⟩, h.headerLen) ↔ h.OnWire) ∧
        (readHeader (bs ++ rest) = (.ok ⟨h.header, h.header.payloadLen⟩, rest) ↔ h.OnWire)) ∧
    (∀ (b : List UInt8) (h : Aliased) (n : Nat), parseHeader b = .ok (h, n) ↔ n ≤ b.length ∧ h.length = 0 ∧ h.OnWire ∧
      h.header.payloadLen < 2 ^ 63 ∧ h.writeHeader n = .ok (b.take n)) ∧
    (∀ b, parseHeader b = .error .errIncomplete → b.length < headerSize b) ∧
    ∀ b, if headerSize b ≤ b.length then
        readHeader b = (match parseHeader b with
          | .ok p => .ok ⟨p.1.header, p.1.header.payloadLen⟩
          | .error e => .error (.inr e), b.drop (headerSize b))
      else ∃ e, readHeader b = (.error (.inl e), []) := by
  refine ⟨fun h room bs hlen hw => ?_, fun b h n => ?_, fun b hp => ?_, fun b => ?_⟩
  · obtain ⟨hc, -, rfl⟩ := writeHeader_ok hw
    refine ⟨headerOctets_length _, fun dst => appendHeader_eq dst, fun rest => ⟨?_, ?_⟩⟩
    · rw [parseHeader_ok_iff]
      refine ⟨fun hp => ?_, fun hh => ⟨rfl, parseHeader_headerOctets (hh.proper hlen hc) rest⟩⟩
      exact onWire_of_proper (parseHeader_inv hp.2).1
    · rw [readHeader_ok_iff]
      refine ⟨fun hr => ?_, fun hh => ⟨rfl, readHeader_headerOctets (hh.proper hlen hc) rest⟩⟩
      obtain ⟨n, hp, -⟩ := Ws.readHeader_ok_iff.1 hr.2
      exact onWire_of_proper (parseHeader_inv hp).1
  · rw [parseHeader_ok_iff]
    constructor
    · rintro ⟨hal, hp⟩
      obtain ⟨hproper, htake⟩ := parseHeader_inv hp
      have hle := (parseHeader_ok hp).2.1
      have hn : n = Ws.headerLen h.header := by rw [← headerOctets_length, ← htake, length_take, min_eq_left hle]
      refine ⟨hle, hal, onWire_of_proper hproper, hproper.payloadLen, ?_⟩
      rw [writeHeader, htake, hn, writeHeader_proper hproper]
    · rintro ⟨hle, hal, hh, hlen, hw⟩
      obtain ⟨hc, -, htake⟩ := writeHeader_ok hw
      have hparse := parseHeader_headerOctets (hh.proper hlen hc) (b.drop n)
      rw [← htake, take_append_drop, ← headerOctets_length, ← htake, length_take, min_eq_left hle] at hparse
      exact ⟨hal, hparse⟩
  · refine headerSize_of_incomplete ?_
    rw [parseHeader] at hp
    cases hr : Ws.parseHeader b with
    | error e =>
      rw [hr] at hp
      cases hp
      rfl
    | ok p =>
      rw [hr] at hp
      cases hp
  · split_ifs with hs
    · rw [readHeader, readHeader_complete hs, parseHeader]
      cases Ws.parseHeader b <;> rfl
    · obtain ⟨e, hr⟩ := readHeader_short (Nat.not_le.1 hs)
      exact ⟨e, by rw [readHeader, hr]; rfl⟩

/-- An opcode of five bits is written as one of four, here as a control frame that is not final; a `Length` is appended
that is not written; and a length that no header can have is waited for. -/
theorem header_codec_not_canonical : writeHeader 2 ⟨{ opcode := 0x18 }, 0⟩ = .ok [0x08, 0] ∧
    parseHeader [0x08, 0] = .error .errControlFrameFragmented ∧
    writeHeader 2 ⟨{ opcode := 2 }, 5⟩ = .ok [0x02, 0] ∧ appendHeader [] ⟨{ opcode := 2 }, 5⟩ = [0x02, 5] ∧
    parseHeader [0x82, 127, 0x80] = .error .errIncomplete ∧
    ∀ (h : Aliased) (room : Nat) (rest : List UInt8), h.header.payloadLen < 2 ^ 63 →
      h.writeHeader room ≠ .ok (0x82 :: 127 :: 0x80 :: rest) := by
  refine ⟨by decide +kernel, by decide +kernel, by decide +kernel, by decide +kernel, by decide +kernel, ?_⟩
  intro h room rest hlen hw
  have hseven := (length_bits h.header.masked ⟨_, lengthCode_lt h.header.payloadLen⟩).2
  have heq := (writeHeader_ok hw).2.2
  rw [headerOctets_eq, List.cons.injEq, List.cons.injEq] at heq
  obtain ⟨-, hb1, htail⟩ := heq
  simp only [← hb1] at hseven
  obtain ⟨h7, hc⟩ | ⟨-, -, hc⟩ | ⟨-, hc⟩ := lengthCode_cases h.header.payloadLen
  · have : (127 : Nat) = h.header.payloadLen := by rwa [hc] at hseven
    omega
  · rw [hc] at hseven
    cases hseven
  · rw [hc] at htail
    have htop := congrArg UInt8.toNat (List.cons.inj htail).1
    rw [byte_toNat, Nat.shiftRight_eq_div_pow] at htop
    have : (128 : Nat) = h.header.payloadLen / 2 ^ 56 % 256 := htop
    omega

end Aliased

end Mach.Ws
