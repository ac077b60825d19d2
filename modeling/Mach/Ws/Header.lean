import Mach.Lib.Bytes
import Mach.Lib.Slice
/-!
# WebSocket frame headers

`proto/ws`: a header of 2 to 14 octets as `ParseHeader` reads it. How long a
header is shows in its second octet, so that what `ParseHeader` says of a complete
header, or of one it rejects, is not changed by the octets behind it.
-/

namespace Mach.Ws

open Lib List

/-! ## Opcodes -/

abbrev Opcode := UInt8

def opcodeContinuation : Opcode := 0x0
def opcodeText : Opcode := 0x1
def opcodeBinary : Opcode := 0x2
def opcodeClose : Opcode := 0x8
def opcodePing : Opcode := 0x9
def opcodePong : Opcode := 0xA

def isControl (op : Opcode) : Bool := opcodeClose ≤ op && op ≤ 0xF
def isData (op : Opcode) : Bool := op ≤ opcodeBinary
def isReserved (op : Opcode) : Bool := (0x3 ≤ op && op ≤ 0x7) || (0xB ≤ op && op ≤ 0xF)
def isValid (op : Opcode) : Bool :=
  op ∈ [opcodeContinuation, opcodeText, opcodeBinary, opcodeClose, opcodePing, opcodePong]

/-! ## Headers -/

structure MaskKey where
  k0 : UInt8 := 0
  k1 : UInt8 := 0
  k2 : UInt8 := 0
  k3 : UInt8 := 0
  deriving DecidableEq, Repr

namespace MaskKey

def bytes (k : MaskKey) : List UInt8 := [k.k0, k.k1, k.k2, k.k3]

def ofBytes (b : List UInt8) : MaskKey := ⟨b.getD 0 0, b.getD 1 0, b.getD 2 0, b.getD 3 0⟩

def octet (k : MaskKey) (i : Nat) : UInt8 := k.bytes.getD (i % 4) 0

end MaskKey

variable {len7 hlen : Nat} {masked : Bool}

structure Header where
  fin : Bool := false
  rsv1 : Bool := false
  rsv2 : Bool := false
  rsv3 : Bool := false
  opcode : Opcode := 0
  masked : Bool := false
  maskKey : MaskKey := {}
  payloadLen : Nat := 0
  deriving DecidableEq, Repr

inductive HeaderError where
  | errIncomplete | errInvalidLength | errPayloadTooLarge | errControlFrameFragmented | errControlFrameTooLarge
  deriving DecidableEq, Repr

/-- The payload length, and where it ends; `len7` is the length in the second octet. -/
def parseLength (len7 : Nat) (b : List UInt8) : Except HeaderError (Nat × Nat) :=
  if len7 = 126 then
    if b.length < 4 then .error .errIncomplete
    else
      let val := beNat (slice b 2 2)
      if val < 126 then .error .errInvalidLength else .ok (val, 4)
  else if len7 = 127 then
    if b.length < 10 then .error .errIncomplete
    else
      let val := beNat (slice b 2 8)
      if 0x7fffffffffffffff < val then .error .errPayloadTooLarge
      else if val ≤ 0xffff then .error .errInvalidLength
      else .ok (val, 10)
  else .ok (len7, 2)

/-- The masking key behind a header of `hlen` octets, and where the header ends. -/
def parseMaskKey (masked : Bool) (hlen : Nat) (b : List UInt8) : Except HeaderError (MaskKey × Nat) :=
  if masked then
    if b.length < hlen + 4 then .error .errIncomplete else .ok (.ofBytes (slice b hlen 4), hlen + 4)
  else .ok ({}, hlen)

def checkControl (h : Header) : Except HeaderError Unit :=
  if isControl h.opcode then
    if !h.fin then .error .errControlFrameFragmented
    else if 125 < h.payloadLen then .error .errControlFrameTooLarge
    else .ok ()
  else .ok ()

/-- The header at the front of `b` and its length. -/
def parseHeader (b : List UInt8) : Except HeaderError (Header × Nat) :=
  if b.length < 2 then .error .errIncomplete
  else
    let b0 := b.getD 0 0
    let b1 := b.getD 1 0
    let masked := b1 &&& 0x80 != 0
    match parseLength (b1 &&& 0x7f).toNat b with
    | .error e => .error e
    | .ok p =>
      match parseMaskKey masked p.2 b with
      | .error e => .error e
      | .ok q =>
        let h : Header :=
          { fin := b0 &&& 0x80 != 0
            rsv1 := b0 &&& 0x40 != 0
            rsv2 := b0 &&& 0x20 != 0
            rsv3 := b0 &&& 0x10 != 0
            opcode := b0 &&& 0x0f
            masked
            maskKey := q.1
            payloadLen := p.1 }
        match checkControl h with
        | .error e => .error e
        | .ok () => .ok (h, q.2)

/-! ## The octets a header depends on -/

variable {b : List UInt8} {h : Header} {n : Nat}

theorem slice_append_left {o k : Nat} (hb : o + k ≤ b.length) (c : List UInt8) : slice (b ++ c) o k = slice b o k := by
  rw [slice, slice, drop_append_of_le_length (by omega), take_append_of_le_length (by simp; omega)]

theorem parseLength_append (hp : parseLength len7 b ≠ .error .errIncomplete) (c : List UInt8) :
    parseLength len7 (b ++ c) = parseLength len7 b := by
  have hlen : b.length ≤ (b ++ c).length := by simp
  simp only [parseLength] at hp ⊢
  by_cases h126 : len7 = 126
  · simp only [if_pos h126] at hp ⊢
    have hb : ¬ b.length < 4 := fun h => hp (if_pos h)
    rw [if_neg hb, if_neg (by omega), slice_append_left (by omega)]
  by_cases h127 : len7 = 127
  · simp only [if_neg h126, if_pos h127] at hp ⊢
    have hb : ¬ b.length < 10 := fun h => hp (if_pos h)
    rw [if_neg hb, if_neg (by omega), slice_append_left (by omega)]
  · simp only [if_neg h126, if_neg h127]

theorem parseMaskKey_append (hp : parseMaskKey masked hlen b ≠ .error .errIncomplete)
    (c : List UInt8) : parseMaskKey masked hlen (b ++ c) = parseMaskKey masked hlen b := by
  cases masked with
  | false => rfl
  | true =>
    simp only [parseMaskKey, if_true] at hp ⊢
    have hb : ¬ b.length < hlen + 4 := fun h => hp (if_pos h)
    rw [if_neg hb, if_neg (by simp; omega), slice_append_left (by omega)]

/-- The header of the first two octets, the length and the masking key, if it may stand. -/
def header (o : UInt8 × UInt8) (p : Nat × Nat) (q : MaskKey × Nat) : Except HeaderError (Header × Nat) :=
  let h : Header :=
    { fin := o.1 &&& 0x80 != 0, rsv1 := o.1 &&& 0x40 != 0, rsv2 := o.1 &&& 0x20 != 0, rsv3 := o.1 &&& 0x10 != 0
      opcode := o.1 &&& 0x0f, masked := o.2 &&& 0x80 != 0, maskKey := q.1, payloadLen := p.1 }
  match checkControl h with
  | .error e => .error e
  | .ok () => .ok (h, q.2)

theorem parseHeader_eq : parseHeader = fun b =>
    (if b.length < 2 then .error .errIncomplete else .ok (b.getD 0 0, b.getD 1 0) :
      Except HeaderError (UInt8 × UInt8)).bind fun o =>
      (parseLength (o.2 &&& 0x7f).toNat b).bind fun p =>
        (parseMaskKey (o.2 &&& 0x80 != 0) p.2 b).bind fun q => header o p q := by
  funext b
  unfold parseHeader
  split
  · rfl
  · simp only [Except.bind, header]
    cases parseLength (b.getD 1 0 &&& 0x7f).toNat b with
    | error e => rfl
    | ok p =>
      dsimp only
      cases parseMaskKey (b.getD 1 0 &&& 0x80 != 0) p.2 b <;> rfl

/-- The octets behind a header, or behind what is rejected, do not matter. -/
theorem parseHeader_append {r : Except HeaderError (Header × Nat)} (hp : parseHeader b = r)
    (hr : r ≠ .error .errIncomplete) (c : List UInt8) : parseHeader (b ++ c) = r := by
  subst hp
  match b, hr with
  | [], hr => exact absurd rfl hr
  | [_], hr => exact absurd rfl hr
  | b0 :: b1 :: rest, hr =>
    simp only [parseHeader_eq, cons_append, length_cons, Nat.not_lt.2 (Nat.le_add_left 2 _), if_false,
      Except.bind, getD_cons_zero, getD_cons_succ] at hr ⊢
    have hlength : parseLength (b1 &&& 0x7f).toNat (b0 :: b1 :: rest) ≠ .error .errIncomplete := by
      intro he
      rw [he] at hr
      exact hr rfl
    rw [← cons_append, ← cons_append, parseLength_append hlength]
    cases hl : parseLength (b1 &&& 0x7f).toNat (b0 :: b1 :: rest) with
    | error e => rfl
    | ok p =>
      simp only [hl] at hr ⊢
      rw [parseMaskKey_append]
      intro he
      rw [he] at hr
      exact hr rfl

/-! ## How long a header is -/

/-- The octets of a header behind the first two. -/
def extraLen (b1 : UInt8) : Nat :=
  (if (b1 &&& 0x7f).toNat = 126 then 2 else if (b1 &&& 0x7f).toNat = 127 then 8 else 0) +
    if b1 &&& 0x80 != 0 then 4 else 0

/-- The length of the header that the second octet announces. -/
def headerSize (b : List UInt8) : Nat := 2 + extraLen (b.getD 1 0)

def maxHeaderSize : Nat := 14

theorem headerSize_le (b : List UInt8) : headerSize b ≤ maxHeaderSize := by
  simp only [headerSize, extraLen, maxHeaderSize]
  split_ifs <;> decide

theorem headerSize_of_incomplete (hp : parseHeader b = .error .errIncomplete) : b.length < headerSize b := by
  by_contra hge
  have hsize := Nat.not_lt.1 hge
  simp only [headerSize, extraLen] at hsize
  simp only [parseHeader_eq, if_neg (show ¬ b.length < 2 by omega), Except.bind] at hp
  cases hl : parseLength (b.getD 1 0 &&& 0x7f).toNat b with
  | error e =>
    rw [hl] at hp
    cases hp
    simp only [parseLength] at hl
    split_ifs at hl hsize <;> first | omega | cases hl
  | ok p =>
    simp only [hl] at hp
    cases hm : parseMaskKey (b.getD 1 0 &&& 0x80 != 0) p.2 b with
    | error e =>
      simp only [parseMaskKey, parseLength] at hm hl
      split_ifs at hm hl hsize <;> cases hl <;> simp only at * <;> omega
    | ok q =>
      simp only [hm, header] at hp
      generalize hc : checkControl _ = r at hp
      cases r <;> cases hp
      unfold checkControl at hc
      split_ifs at hc <;> cases hc

theorem parseHeader_incomplete (hp : parseHeader b = .error .errIncomplete) : b.length < maxHeaderSize :=
  (headerSize_of_incomplete hp).trans_le (headerSize_le b)

theorem headerSize_append (hb : 2 ≤ b.length) (c : List UInt8) : headerSize (b ++ c) = headerSize b := by
  match b, hb with
  | _ :: _ :: _, _ => rfl

/-- A header is read from the octets its second one announces. -/
theorem parseHeader_take (h : headerSize b ≤ b.length) : parseHeader (b.take (headerSize b)) = parseHeader b := by
  have hlen : (b.take (headerSize b)).length = headerSize b := by simp [h]
  have hsize := @headerSize_append (b.take (headerSize b)) (by rw [hlen, headerSize]; omega) (b.drop (headerSize b))
  have hwhole := @parseHeader_append (b.take (headerSize b)) _ rfl ?_ (b.drop (headerSize b))
  · rw [take_append_drop] at hwhole
    exact hwhole.symm
  · intro he
    have hlt := headerSize_of_incomplete he
    rw [take_append_drop] at hsize
    rw [hlen, ← hsize] at hlt
    exact lt_irrefl _ hlt

theorem parseLength_stop {p : Nat × Nat} (h : parseLength len7 b = .ok p) (hb : 2 ≤ b.length) :
    p.2 = 2 + (if len7 = 126 then 2 else if len7 = 127 then 8 else 0) ∧ p.2 ≤ b.length := by
  simp only [parseLength] at h
  split_ifs at h ⊢ <;> cases h <;> exact ⟨rfl, by simp only; omega⟩

theorem parseMaskKey_stop {q : MaskKey × Nat} (h : parseMaskKey masked hlen b = .ok q)
    (hb : hlen ≤ b.length) : q.2 = hlen + (if masked then 4 else 0) ∧ q.2 ≤ b.length := by
  simp only [parseMaskKey] at h
  split_ifs at h ⊢ <;> cases h <;> exact ⟨rfl, by simp only; omega⟩

theorem parseHeader_parts (hp : parseHeader b = .ok (h, n)) : 2 ≤ b.length ∧ ∃ p q,
    parseLength (b.getD 1 0 &&& 0x7f).toNat b = .ok p ∧ parseMaskKey (b.getD 1 0 &&& 0x80 != 0) p.2 b = .ok q ∧
      header (b.getD 0 0, b.getD 1 0) p q = .ok (h, n) ∧ n = q.2 := by
  simp only [parseHeader_eq] at hp
  split_ifs at hp with hb
  · cases hp
  simp only [Except.bind] at hp
  cases hl : parseLength (b.getD 1 0 &&& 0x7f).toNat b with
  | error e => rw [hl] at hp; cases hp
  | ok p =>
    simp only [hl] at hp
    cases hm : parseMaskKey (b.getD 1 0 &&& 0x80 != 0) p.2 b with
    | error e => rw [hm] at hp; cases hp
    | ok q =>
      simp only [hm] at hp
      refine ⟨Nat.not_lt.1 hb, p, q, rfl, hm, hp, ?_⟩
      simp only [header] at hp
      split at hp <;> cases hp
      rfl

theorem parseHeader_ok (hp : parseHeader b = .ok (h, n)) : 2 ≤ n ∧ n ≤ b.length ∧ n = headerSize b := by
  obtain ⟨hb, p, q, hl, hm, -, rfl⟩ := parseHeader_parts hp
  obtain ⟨hstop, hle⟩ := parseLength_stop hl hb
  obtain ⟨hstop', hle'⟩ := parseMaskKey_stop hm hle
  refine ⟨by omega, hle', ?_⟩
  rw [hstop', hstop, headerSize, extraLen, Nat.add_assoc]

end Mach.Ws
