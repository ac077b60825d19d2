import Mach.Quic.Wire.Header
/-!
# Packet protection

`wire/aead.go` and `wire/header_protection.go`. The AEAD and the function that
makes a mask out of a sample are parameters; everything around them is here.
-/

namespace Mach.Quic.Wire

open Lib

/-- `cipher.AEAD`: what `Seal` appends, and what `Open` recovers if the tag is
right. -/
structure AEAD where
  overhead : Nat
  sealWith : List UInt8 → List UInt8 → List UInt8 → List UInt8
  openWith : List UInt8 → List UInt8 → List UInt8 → Option (List UInt8)

/-- What is assumed of the AEAD: nonce, text, additional data. -/
structure AEAD.Lawful (a : AEAD) : Prop where
  overhead : a.overhead = 16
  length_seal : ∀ nonce text aad, (a.sealWith nonce text aad).length = text.length + 16
  open_seal : ∀ nonce text aad, a.openWith nonce (a.sealWith nonce text aad) aad = some text

/-- `HeaderProtector.Mask`. -/
abbrev HeaderProtector := List UInt8 → Vector UInt8 5

/-- `ComputeNonce`: the packet number over the last eight bytes of the IV. -/
def computeNonce (iv : Vector UInt8 12) (pn : Nat) : List UInt8 :=
  iv.toList.zipWith (· ^^^ ·) ([0, 0, 0, 0] ++ beBytes 8 pn)

/-- `HeaderProtectionSampleLen`. -/
def sampleLen : Nat := 16

/-! ## Header protection -/

/-- Masks the bytes of a list from the front, as far as there are masks. -/
def xorBytes : List UInt8 → List UInt8 → List UInt8
  | x :: p, m :: ms => (x ^^^ m) :: xorBytes p ms
  | p, [] => p
  | [], _ => []

/-- The masked bits of the first byte: four in a long header, five in a short one. -/
def maskFirst (m x : UInt8) : UInt8 := if x &&& 0x80 ≠ 0 then x ^^^ (m &&& 0x0f) else x ^^^ (m &&& 0x1f)

/-- The loop over the bytes of the packet number. -/
def maskNumber (packet : List UInt8) (pnOffset pnLen : Nat) (mask : Vector UInt8 5) : List UInt8 :=
  packet.take pnOffset ++ xorBytes (packet.drop pnOffset) ((mask.toList.drop 1).take pnLen)

def sample (packet : List UInt8) (pnOffset : Nat) : List UInt8 := (packet.drop (pnOffset + 4)).take sampleLen

/-- `ApplyHeaderProtection`: the packet as it is afterwards. -/
def applyHeaderProtection (packet : List UInt8) (pnOffset : Int) (pnLen : Nat) (hp : HeaderProtector) :
    Except Fault (List UInt8) :=
  if (packet.length : Int) < pnOffset + 4 + sampleLen then .error (.error .sampleOutOfBounds)
  else if pnLen < 1 ∨ pnLen > 4 then .error (.error .invalidPacketNumber)
  -- a negative offset is out of range in the sample or in the packet number
  else if pnOffset < 0 then .error .panic
  else
    let mask := hp (sample packet pnOffset.toNat)
    .ok (maskNumber (packet.modifyHead (maskFirst mask[0])) pnOffset.toNat pnLen mask)

/-- `RemoveHeaderProtection`: the packet as it is afterwards, and the length of
the packet number. -/
def removeHeaderProtection (packet : List UInt8) (pnOffset : Nat) (hp : HeaderProtector) :
    Except Fault (List UInt8 × Nat) :=
  if packet.length < pnOffset + 4 + sampleLen then .error (.error .sampleOutOfBounds)
  else
    let mask := hp (sample packet pnOffset)
    match packet.modifyHead (maskFirst mask[0]) with
    | [] => .error .panic
    | x :: rest =>
      let pnLen := (x &&& 0x03).toNat + 1
      if packet.length < pnOffset + pnLen then .error (.error .truncatedPacket)
      else .ok (maskNumber (x :: rest) pnOffset pnLen mask, pnLen)

/-! ## Sealing and opening -/

/-- The keys of one direction: the fields `PacketProtector` and `PacketOpener`
share. -/
structure Keys where
  aead : AEAD
  iv : Vector UInt8 12
  hp : HeaderProtector

/-- The header as `SealPacket` leaves it. -/
def Header.measured (h : Header) (payload : List UInt8) (overhead : Nat) : Header :=
  if h.isLong ∧ h.type ≠ .retry then { h with length := u64 (h.packetNumberLen + payload.length + overhead) } else h

/-- `SealPacket`: what is now in `dst`. -/
def sealPacket (k : Keys) (dst : List UInt8) (h : Header) (payload : List UInt8) : Except Fault (List UInt8) := do
  let startLen := dst.length
  let h := h.measured payload k.aead.overhead
  let (dst, pnOffset) ← appendHeader dst h
  let aad := dst.drop startLen
  let nonce := computeNonce k.iv h.packetNumber
  let dst := dst ++ k.aead.sealWith nonce payload aad
  let packet ← applyHeaderProtection (dst.drop startLen) ((pnOffset : Int) - startLen) h.packetNumberLen k.hp
  return dst.take startLen ++ packet

/-- `OpenPacket`: the header, and `dst` with the text appended. -/
def openPacket (k : Keys) (dst packet : List UInt8) (destConnIDLen : Int) (largestAcked : Nat) :
    Except Fault (Header × List UInt8) := do
  let o ← parseHeaderOffsets packet destConnIDLen
  let (packet, pnLen) ← removeHeaderProtection packet o.pnOffset k.hp
  let h ← parseHeader packet destConnIDLen largestAcked
  let h := { h with packetNumberLen := pnLen }
  let nonce := computeNonce k.iv h.packetNumber
  let aad := packet.take h.headerLen
  let ciphertext := (packet.drop h.headerLen).take h.payloadLen
  match k.aead.openWith nonce ciphertext aad with
  | some text => return (h, dst ++ text)
  | none => .error (.error .decryptionFailed)

/-! ## Protection is undone -/

attribute [local simp] xorBytes in
theorem length_xorBytes (p ms : List UInt8) : (xorBytes p ms).length = p.length := by
  induction p generalizing ms with
  | nil => cases ms <;> rfl
  | cons x p ih =>
    cases ms with
    | nil => rfl
    | cons m ms => simp [ih]

theorem xorBytes_xorBytes (p ms : List UInt8) : xorBytes (xorBytes p ms) ms = p := by
  induction p generalizing ms with
  | nil => cases ms <;> rfl
  | cons x p ih =>
    cases ms with
    | nil => rfl
    | cons m ms => rw [xorBytes, xorBytes, ih, UInt8.xor_assoc, UInt8.xor_self, UInt8.xor_zero]

theorem drop_xorBytes {p ms : List UInt8} {n : Nat} (h : ms.length ≤ n) : (xorBytes p ms).drop n = p.drop n := by
  induction p generalizing ms n with
  | nil => cases ms <;> rfl
  | cons x p ih =>
    cases ms with
    | nil => rfl
    | cons m ms =>
      obtain ⟨n, rfl⟩ : ∃ k, n = k + 1 := ⟨n - 1, by simp at h; omega⟩
      simp only [xorBytes, List.drop_succ_cons]
      exact ih (by simpa using h)

theorem xorBytes_append {p ms : List UInt8} (h : ms.length ≤ p.length) (e : List UInt8) :
    xorBytes (p ++ e) ms = xorBytes p ms ++ e := by
  induction p generalizing ms with
  | nil =>
    obtain rfl : ms = [] := List.length_eq_zero_iff.1 (Nat.le_zero.1 h)
    cases e <;> rfl
  | cons x p ih =>
    cases ms with
    | nil => rfl
    | cons m ms => simp [xorBytes, ih (by simpa using h)]

theorem maskFirst_form (m x : UInt8) : maskFirst m x &&& 0x80 = x &&& 0x80 := by
  unfold maskFirst
  split
  · exact masked_and rfl x
  · exact masked_and rfl x

theorem maskFirst_type {x : UInt8} (h : x &&& 0x80 ≠ 0) (m : UInt8) : maskFirst m x &&& 0x30 = x &&& 0x30 := by
  unfold maskFirst
  rw [if_pos h]
  exact masked_and rfl x

theorem maskFirst_maskFirst (m x : UInt8) : maskFirst m (maskFirst m x) = x := by
  have hform := maskFirst_form m x
  by_cases h : x &&& 0x80 ≠ 0
  · have h' := hform ▸ h
    rw [maskFirst, if_pos h', maskFirst, if_pos h, UInt8.xor_assoc, UInt8.xor_self, UInt8.xor_zero]
  · have h' := hform ▸ h
    rw [maskFirst, if_neg h', maskFirst, if_neg h, UInt8.xor_assoc, UInt8.xor_self, UInt8.xor_zero]

/-! A packet is a first byte, the rest of the header up to the packet number, and a
tail that starts with the packet number. -/

/-- The mask of a packet with this tail. -/
def tailMask (hp : HeaderProtector) (tail : List UInt8) : Vector UInt8 5 := hp ((tail.drop 4).take sampleLen)

/-- The tail with the packet number masked. -/
def maskTail (mask : Vector UInt8 5) (pnLen : Nat) (tail : List UInt8) : List UInt8 :=
  xorBytes tail ((mask.toList.drop 1).take pnLen)

section Tail

variable {hp : HeaderProtector} {x : UInt8} {mid tail : List UInt8} {pnLen : Nat}

theorem sample_eq : sample (x :: (mid ++ tail)) (1 + mid.length) = (tail.drop 4).take sampleLen := by
  have : (x :: (mid ++ tail)).drop (1 + mid.length) = tail := by rw [Nat.add_comm]; simp
  rw [sample, ← List.drop_drop, this]

theorem maskNumber_eq (mask : Vector UInt8 5) :
    maskNumber (x :: (mid ++ tail)) (1 + mid.length) pnLen mask = x :: (mid ++ maskTail mask pnLen tail) := by
  have h1 : (x :: (mid ++ tail)).take (1 + mid.length) = x :: mid := by rw [Nat.add_comm]; simp
  have h2 : (x :: (mid ++ tail)).drop (1 + mid.length) = tail := by rw [Nat.add_comm]; simp
  rw [maskNumber, h1, h2]
  rfl

theorem length_masks (mask : Vector UInt8 5) (h : pnLen ≤ 4) : ((mask.toList.drop 1).take pnLen).length = pnLen := by
  simp; omega

theorem maskTail_append {mask : Vector UInt8 5} (hk : pnLen ≤ 4) (hlen : 20 ≤ tail.length) (e : List UInt8) :
    maskTail mask pnLen (tail ++ e) = maskTail mask pnLen tail ++ e :=
  xorBytes_append (by rw [length_masks _ hk]; omega) e

theorem tailMask_append (hlen : 20 ≤ tail.length) (e : List UInt8) : tailMask hp (tail ++ e) = tailMask hp tail := by
  have : sampleLen ≤ (tail.drop 4).length := by simp [sampleLen]; omega
  rw [tailMask, tailMask, List.drop_append_of_le_length (by omega), List.take_append_of_le_length this]

theorem applyHeaderProtection_eq (hlen : 20 ≤ tail.length) (hk : 1 ≤ pnLen ∧ pnLen ≤ 4) :
    applyHeaderProtection (x :: (mid ++ tail)) ((1 + mid.length : Nat) : Int) pnLen hp =
      .ok (maskFirst (tailMask hp tail)[0] x :: (mid ++ maskTail (tailMask hp tail) pnLen tail)) := by
  unfold applyHeaderProtection
  rw [if_neg (by simp [sampleLen]; omega), if_neg (by omega), if_neg (by omega), Int.toNat_natCast, sample_eq]
  exact congrArg _ (maskNumber_eq _)

/-- Removing the protection gives the packet back, and the length of its packet
number. -/
theorem removeHeaderProtection_eq (hlen : 20 ≤ tail.length) (hk : pnLen = (x &&& 0x03).toNat + 1) (h4 : pnLen ≤ 4) :
    removeHeaderProtection (maskFirst (tailMask hp tail)[0] x :: (mid ++ maskTail (tailMask hp tail) pnLen tail))
      (1 + mid.length) hp = .ok (x :: (mid ++ tail), pnLen) := by
  have htail : (maskTail (tailMask hp tail) pnLen tail).length = tail.length := length_xorBytes _ _
  -- the sample lies behind the packet number
  have hsample : hp (((maskTail (tailMask hp tail) pnLen tail).drop 4).take sampleLen) = tailMask hp tail := by
    rw [maskTail, drop_xorBytes (by rw [length_masks _ h4]; exact h4), tailMask]
  have hback : maskTail (tailMask hp tail) pnLen (maskTail (tailMask hp tail) pnLen tail) = tail :=
    xorBytes_xorBytes _ _
  unfold removeHeaderProtection
  rw [if_neg (by simp [sampleLen, htail]; omega), sample_eq, hsample]
  simp only [List.modifyHead_cons, maskFirst_maskFirst, ← hk, maskNumber_eq, hback]
  rw [if_neg (by simp [htail]; omega)]

end Tail

end Mach.Quic.Wire
