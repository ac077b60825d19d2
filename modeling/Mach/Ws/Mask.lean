import Mach.Ws.Header
/-!
# Masking

`MaskWithOffset` applies the masking key eight octets at a time, once the payload
is aligned. It does what the loop over the octets does, for every alignment, and
applied twice it gives the payload back.
-/

namespace Mach.Ws

open Lib List Nat

/-! ## The model -/

/-- The octets of a payload, the first one with the octet `i` of the key. -/
def maskOctets (key : MaskKey) : Nat → List UInt8 → List UInt8
  | _, [] => []
  | i, b :: payload => (b ^^^ key.octet i) :: maskOctets key (i + 1) payload

def maskScalar (payload : List UInt8) (key : MaskKey) (offset : Nat) : List UInt8 :=
  maskOctets key (offset % 4) payload

/-- `*(*uintN)(&payload[0]) ^= k` for a payload of the word alone. -/
def xorWord (k : Nat) (word : List UInt8) : List UInt8 := leBytes word.length (leWord word ^^^ k)

def xorWords (k64 : Nat) : Nat → List UInt8 → List UInt8
  | 0, _ => []
  | n + 1, payload => xorWord k64 (payload.take 8) ++ xorWords k64 n (payload.drop 8)

/-- `n` words if the payload has as many, and what comes after them. -/
def block (k64 n : Nat) (rest : List UInt8 → List UInt8) (payload : List UInt8) : List UInt8 :=
  if 8 * n ≤ payload.length then xorWords k64 n (payload.take (8 * n)) ++ rest (payload.drop (8 * n)) else rest payload

/-- The core loop: sixteen words in each round. -/
def coreLoop (k64 : Nat) (rest : List UInt8 → List UInt8) : Nat → List UInt8 → List UInt8
  | 0, payload => rest payload
  | fuel + 1, payload =>
    if 128 ≤ payload.length then xorWords k64 16 (payload.take 128) ++ coreLoop k64 rest fuel (payload.drop 128)
    else rest payload

/-- A payload that starts at a multiple of eight; `off` is where the key is. -/
def maskAligned (key : MaskKey) (off : Nat) (payload : List UInt8) : List UInt8 :=
  let b0 := key.octet off
  let b1 := key.octet (off + 1)
  let b2 := key.octet (off + 2)
  let b3 := key.octet (off + 3)
  let k32 := b0.toNat ||| b1.toNat <<< 8 ||| b2.toNat <<< 16 ||| b3.toNat <<< 24
  let k64 := k32 ||| k32 <<< 32
  let tail (payload : List UInt8) := List.zipWith (· ^^^ ·) payload [b0, b1, b2]
  let chunk (payload : List UInt8) :=
    if 4 ≤ payload.length then xorWord k32 (payload.take 4) ++ tail (payload.drop 4) else tail payload
  coreLoop k64 (block k64 8 (block k64 4 (block k64 2 (block k64 1 chunk)))) payload.length payload

/-- `misalign` is the address of the payload modulo eight. -/
def maskWithOffset (misalign : Nat) (payload : List UInt8) (key : MaskKey) (offset : Nat) : List UInt8 :=
  let off := offset % 4
  if payload.length < 8 then maskOctets key off payload
  else if misalign ≠ 0 then
    let pre := min (8 - misalign) payload.length
    let rest := payload.drop pre
    let off' := (off + pre) % 4
    maskOctets key off (payload.take pre) ++
      if rest.length < 8 then maskOctets key off' rest else maskAligned key off' rest
  else maskAligned key off payload

def mask (misalign : Nat) (payload : List UInt8) (key : MaskKey) : List UInt8 := maskWithOffset misalign payload key 0

/-! ## The loop over the octets -/

variable {key : MaskKey} {i j n off : Nat} {payload : List UInt8}

@[simp] theorem maskOctets_length (key : MaskKey) (i : Nat) (payload : List UInt8) :
    (maskOctets key i payload).length = payload.length := by
  induction payload generalizing i with
  | nil => rfl
  | cons b payload ih => rw [maskOctets, length_cons, ih, length_cons]

theorem MaskKey.octet_mod (h : i % 4 = j % 4) : key.octet i = key.octet j := by rw [octet, octet, h]

theorem maskOctets_mod (h : i % 4 = j % 4) (payload : List UInt8) : maskOctets key i payload = maskOctets key j payload := by
  induction payload generalizing i j with
  | nil => rfl
  | cons b payload ih => rw [maskOctets, maskOctets, MaskKey.octet_mod h, ih (show (i + 1) % 4 = (j + 1) % 4 by omega)]

theorem maskOctets_append (key : MaskKey) (i : Nat) (a b : List UInt8) :
    maskOctets key i (a ++ b) = maskOctets key i a ++ maskOctets key (i + a.length) b := by
  induction a generalizing i with
  | nil => rfl
  | cons x a ih =>
    rw [cons_append, maskOctets, maskOctets, ih, length_cons, cons_append, Nat.add_right_comm]
    rfl

/-- A payload in two parts, the first of a length that is a multiple of four. -/
theorem maskOctets_split (h : n ≤ payload.length) (hn : n % 4 = 0) :
    maskOctets key off payload = maskOctets key off (payload.take n) ++ maskOctets key off (payload.drop n) := by
  have hlen : (payload.take n).length = n := by simp [h]
  have happ := maskOctets_append key off (payload.take n) (payload.drop n)
  rw [take_append_drop, hlen] at happ
  rw [happ, maskOctets_mod (show (off + n) % 4 = off % 4 by omega)]

theorem maskOctets_maskOctets (key : MaskKey) (i : Nat) (payload : List UInt8) :
    maskOctets key i (maskOctets key i payload) = payload := by
  induction payload generalizing i with
  | nil => rfl
  | cons b payload ih => rw [maskOctets, maskOctets, ih, UInt8.xor_assoc, UInt8.xor_self, UInt8.xor_zero]

/-! ## Words -/

theorem leWord_or (b0 b1 b2 b3 : UInt8) :
    b0.toNat ||| b1.toNat <<< 8 ||| b2.toNat <<< 16 ||| b3.toNat <<< 24 = leWord [b0, b1, b2, b3] := by
  have h0 := b0.toNat_lt
  have h1 := b1.toNat_lt
  have h2 := b2.toNat_lt
  have h3 := b3.toNat_lt
  rw [Nat.or_comm _ (b3.toNat <<< 24), Nat.or_comm _ (b2.toNat <<< 16), Nat.or_comm _ (b1.toNat <<< 8),
    ← shiftLeft_add_eq_or_of_lt (show b0.toNat < 2 ^ 8 from h0),
    ← shiftLeft_add_eq_or_of_lt (show _ < 2 ^ 16 by rw [shiftLeft_eq]; omega),
    ← shiftLeft_add_eq_or_of_lt (show _ < 2 ^ 24 by simp only [shiftLeft_eq]; omega)]
  simp only [shiftLeft_eq, leWord]
  omega

theorem leWord_double (b0 b1 b2 b3 : UInt8) :
    leWord [b0, b1, b2, b3] ||| leWord [b0, b1, b2, b3] <<< 32 = leWord [b0, b1, b2, b3, b0, b1, b2, b3] := by
  have h0 := b0.toNat_lt
  have h1 := b1.toNat_lt
  have h2 := b2.toNat_lt
  have h3 := b3.toNat_lt
  rw [Nat.or_comm, ← shiftLeft_add_eq_or_of_lt (show _ < 2 ^ 32 by simp only [leWord]; omega)]
  simp only [shiftLeft_eq, leWord]
  omega

theorem xorWord_key {word ks : List UInt8} (h : word.length = ks.length)
    (hks : ∀ k (hk : k < ks.length), ks[k] = key.octet (off + k)) :
    xorWord (leWord ks) word = maskOctets key off word := by
  rw [xorWord, leBytes_xor h]
  induction word generalizing ks off with
  | nil => rw [zipWith_nil_left, maskOctets]
  | cons b word ih =>
    cases ks with
    | nil => cases h
    | cons k ks =>
      have hhead : k = key.octet off := hks 0 (zero_lt_succ _)
      rw [zipWith_cons_cons, maskOctets, hhead, ih (Nat.succ.inj h)]
      intro j hj
      rw [Nat.add_assoc, Nat.add_comm 1 j]
      exact hks (j + 1) (succ_lt_succ hj)

theorem xorWords_key {k64 : Nat} (hword : ∀ word : List UInt8, word.length = 8 → xorWord k64 word = maskOctets key off word)
    (h : payload.length = 8 * n) : xorWords k64 n payload = maskOctets key off payload := by
  induction n generalizing payload with
  | zero =>
    obtain rfl := length_eq_zero_iff.1 h
    rfl
  | succ n ih =>
    rw [xorWords, hword _ (by simp; omega), ih (by simp; omega), ← maskOctets_split (by omega) rfl]

section Parts

variable {k64 : Nat} {rest : List UInt8 → List UInt8}
  (hword : ∀ word : List UInt8, word.length = 8 → xorWord k64 word = maskOctets key off word)

include hword

theorem block_key (hrest : ∀ payload, payload.length < 8 * n → rest payload = maskOctets key off payload)
    (h : payload.length < 16 * n) : block k64 n rest payload = maskOctets key off payload := by
  rw [block]
  split
  · rename_i hn
    rw [xorWords_key hword (by simp [hn]), hrest _ (by simp; omega), ← maskOctets_split hn (by omega)]
  · exact hrest payload (by omega)

theorem coreLoop_key (hrest : ∀ payload, payload.length < 128 → rest payload = maskOctets key off payload) {fuel : Nat}
    (h : payload.length < 128 * (fuel + 1)) : coreLoop k64 rest fuel payload = maskOctets key off payload := by
  induction fuel generalizing payload with
  | zero => exact hrest payload h
  | succ fuel ih =>
    rw [coreLoop]
    split
    · rename_i hn
      rw [xorWords_key hword (by simp [hn]), ih (by simp; omega), ← maskOctets_split hn rfl]
    · exact hrest payload (by omega)

end Parts

theorem maskTail_key (h : payload.length < 4) :
    List.zipWith (· ^^^ ·) payload [key.octet off, key.octet (off + 1), key.octet (off + 2)] =
      maskOctets key off payload := by
  match payload, h with
  | [], _ => rfl
  | [_], _ => rfl
  | [_, _], _ => rfl
  | [_, _, _], _ => rfl

theorem maskAligned_eq (key : MaskKey) (off : Nat) (payload : List UInt8) :
    maskAligned key off payload = maskOctets key off payload := by
  have hword32 : ∀ word : List UInt8, word.length = 4 →
      xorWord (leWord [key.octet off, key.octet (off + 1), key.octet (off + 2), key.octet (off + 3)]) word =
        maskOctets key off word := by
    intro word h
    refine xorWord_key h fun k hk => ?_
    match k, hk with
    | 0, _ | 1, _ | 2, _ | 3, _ => rfl
  have hword64 : ∀ word : List UInt8, word.length = 8 →
      xorWord (leWord [key.octet off, key.octet (off + 1), key.octet (off + 2), key.octet (off + 3),
        key.octet off, key.octet (off + 1), key.octet (off + 2), key.octet (off + 3)]) word =
        maskOctets key off word := by
    intro word h
    refine xorWord_key h fun k hk => ?_
    match k, hk with
    | 0, _ | 1, _ | 2, _ | 3, _ => rfl
    | 4, _ | 5, _ | 6, _ | 7, _ => exact MaskKey.octet_mod (by omega)
  simp only [maskAligned, leWord_or, leWord_double]
  refine coreLoop_key hword64 (fun p hp => ?_) (by omega)
  refine block_key hword64 (fun p hp => ?_) hp
  refine block_key hword64 (fun p hp => ?_) hp
  refine block_key hword64 (fun p hp => ?_) hp
  refine block_key hword64 (fun p hp => ?_) hp
  split
  · rename_i h4
    rw [hword32 _ (by simp [h4]), maskTail_key (by simp; omega), ← maskOctets_split h4 rfl]
  · exact maskTail_key (by omega)

/-- The kernel is the loop over the octets, wherever the payload lies. -/
theorem maskWithOffset_eq (misalign : Nat) (payload : List UInt8) (key : MaskKey) (offset : Nat) :
    maskWithOffset misalign payload key offset = maskOctets key offset payload := by
  have hoff : ∀ p, maskOctets key (offset % 4) p = maskOctets key offset p := maskOctets_mod (by omega)
  simp only [maskWithOffset, maskAligned_eq, ite_self]
  split
  · exact hoff payload
  · split
    · have hpre : min (8 - misalign) payload.length ≤ payload.length := Nat.min_le_right _ _
      generalize min (8 - misalign) payload.length = pre at hpre
      have hlen : (payload.take pre).length = pre := by simp [hpre]
      have happ := maskOctets_append key offset (payload.take pre) (payload.drop pre)
      rw [take_append_drop, hlen] at happ
      rw [happ, maskOctets_mod (show (offset % 4 + pre) % 4 % 4 = (offset + pre) % 4 by omega), hoff]
    · exact hoff payload

theorem mask_eq (misalign : Nat) (payload : List UInt8) (key : MaskKey) :
    mask misalign payload key = maskOctets key 0 payload := maskWithOffset_eq misalign payload key 0

theorem getElem?_maskOctets (key : MaskKey) (i k : Nat) (payload : List UInt8) :
    (maskOctets key i payload)[k]? = payload[k]?.map (· ^^^ key.octet (i + k)) := by
  induction payload generalizing i k with
  | nil => rfl
  | cons b payload ih =>
    cases k with
    | zero => rfl
    | succ k => rw [maskOctets, getElem?_cons_succ, getElem?_cons_succ, ih, Nat.add_right_comm, Nat.add_assoc]

/-- The kernel leaves in each octet what the loop over the octets leaves, wherever the payload and its pieces lie. -/
theorem mask_kernel_exact (misalign : Nat) (payload : List UInt8) (key : MaskKey) (offset : Nat) :
    maskWithOffset misalign payload key offset = maskScalar payload key offset ∧
      (∀ i, (maskWithOffset misalign payload key offset)[i]? =
        payload[i]?.map (· ^^^ key.bytes.getD ((offset + i) % 4) 0)) ∧
      (∀ misalign', maskWithOffset misalign' (maskWithOffset misalign payload key offset) key offset = payload) ∧
      ∀ misalign' payload', maskWithOffset misalign (payload ++ payload') key offset =
        maskWithOffset misalign payload key offset ++
          maskWithOffset misalign' payload' key (offset + payload.length) := by
  simp only [maskWithOffset_eq]
  refine ⟨?_, fun i => ?_, fun _ => ?_, fun _ payload' => ?_⟩
  · exact maskOctets_mod (by omega) payload
  · rw [getElem?_maskOctets]
    rfl
  · exact maskOctets_maskOctets key offset payload
  · exact maskOctets_append key offset payload payload'

end Mach.Ws
