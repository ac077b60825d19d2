import Mach.Hpack.HuffmanCodec
/-!
# Integers and strings

The integer representation with an `n`-bit prefix and the string literal, as
they are appended to a header block and read from it. An integer goes into the
low bits of the last byte that was appended.
-/

namespace Mach.Hpack

open Lib List Nat

variable {index n x : Nat} {c : UInt8} {src : List UInt8}

/-! ## Model -/

/-- `dst[len(dst)-1] |= b` -/
def orLast (dst : List UInt8) (b : UInt8) : List UInt8 := dst.dropLast ++ [dst.getLastD 0 ||| b]

/-- The loop of `appendInt`: groups of seven bits, the low ones first. A `uint64` has at most ten of them. -/
def appendGroups : Nat → Nat → List UInt8
  | 0, _ => []
  | fuel + 1, index =>
    if 128 ≤ index then (byte (index &&& 127) ||| 128) :: appendGroups fuel (index >>> 7) else [byte index]

def appendInt (dst : List UInt8) (bits index : Nat) : List UInt8 :=
  let dst := if dst = [] then [0] else dst
  let b0 := 2 ^ bits - 1
  if index < b0 then orLast dst (byte index) else orLast dst (byte b0) ++ appendGroups 10 (index - b0)

/-- The loop of `readInt` over the bytes after the first. -/
def readGroups (maxPrefix : Nat) : Nat → Nat → List UInt8 → Except DecodeError (Nat × List UInt8)
  | _, _, [] => .error .integerTruncated
  | nn, shift, c :: b =>
    if 63 < shift ∨ (shift = 63 ∧ 1 < (c &&& 127).toNat) then .error .integerOverflow
    else
      let added := u64 ((c &&& 127).toNat <<< shift)
      if 2 ^ 64 - 1 - added < nn then .error .integerOverflow
      else
        let nn := nn + added
        if c &&& 128 = 0 then
          if 2 ^ 64 - 1 - maxPrefix < nn then .error .integerOverflow else .ok (nn + maxPrefix, b)
        else if 63 < shift + 7 then .error .integerOverflow
        else readGroups maxPrefix nn (shift + 7) b

def readInt (n : Nat) : List UInt8 → Except DecodeError (Nat × List UInt8)
  | [] => .error .integerTruncated
  | b :: rest =>
    let b0 := byte (2 ^ n - 1)
    if b0 &&& b ≠ b0 then .ok ((b &&& b0).toNat, rest)
    else readGroups b0.toNat 0 0 rest

/-- `dst[i] |= b` -/
def orAt (dst : List UInt8) (i : Nat) (b : UInt8) : List UInt8 := dst.modify i (· ||| b)

def appendString (dst src : List UInt8) (encode : Bool) : List UInt8 :=
  if encode = false then appendInt (dst ++ [0]) 7 src.length ++ src
  else if src = [] then appendInt (dst ++ [0x80]) 7 0
  else
    let hLen := huffmanEncodeLength src
    let hBitIdx := dst.length
    huffmanEncodeFallback (orAt (appendInt (dst ++ [0]) 7 hLen) hBitIdx 0x80) src

def readString : List UInt8 → Except DecodeError (List UInt8 × List UInt8)
  | [] => .error .malformedString
  | b0 :: rest =>
    let mustDecode := b0 &&& 128 == 128
    match readInt 7 (b0 :: rest) with
    | .error e => .error e
    | .ok (n, b) =>
      if b.length < n then .error .truncatedString
      else if mustDecode then
        match appendHuffmanDecodeFallback [] (b.take n) with
        | .error e => .error e
        | .ok dst => .ok (dst, b.drop n)
      else .ok (b.take n, b.drop n)

/-! ## Integers -/

/-- The bytes of an integer whose first byte also holds the pattern `c`. -/
def intBytes (c : UInt8) (bits index : Nat) : List UInt8 :=
  if index < 2 ^ bits - 1 then [c ||| byte index]
  else (c ||| byte (2 ^ bits - 1)) :: appendGroups 10 (index - (2 ^ bits - 1))

theorem appendInt_concat (dst : List UInt8) (c : UInt8) (bits index : Nat) :
    appendInt (dst ++ [c]) bits index = dst ++ intBytes c bits index := by
  have hne : dst ++ [c] ≠ [] := by simp
  have hor : ∀ b, orLast (dst ++ [c]) b = dst ++ [c ||| b] := by
    intro b
    rw [orLast, dropLast_concat, getLastD_concat]
  simp only [appendInt, if_neg hne, hor, intBytes]
  split <;> simp

/-- A group that is followed by another: its seven bits, and the mark. -/
theorem group_more (index : Nat) :
    ((byte (index &&& 127) ||| 128) &&& 127).toNat = index % 128 ∧ (byte (index &&& 127) ||| 128) &&& 128 ≠ 0 := by
  have hlow : index &&& 127 = index % 128 := and_two_pow_sub_one_eq_mod index 7
  have hcases : ∀ x : Fin 128, ((byte x.val ||| 128) &&& 127).toNat = x.val ∧ (byte x.val ||| 128) &&& 128 ≠ 0 := by
    decide +kernel
  rw [hlow]
  exact hcases ⟨index % 128, mod_lt _ (by decide)⟩

theorem group_last (h : index < 128) : (byte index &&& 127).toNat = index ∧ byte index &&& 128 = 0 := by
  have hcases : ∀ x : Fin 128, (byte x.val &&& 127).toNat = x.val ∧ byte x.val &&& 128 = 0 := by decide +kernel
  exact hcases ⟨index, h⟩

/-- The groups of `index`, read where `nn` was read before them. -/
theorem readGroups_appendGroups {fuel maxPrefix nn shift : Nat} (hfuel : 63 ≤ shift + 7 * (fuel - 1))
    (hshift : shift ≤ 63) (hsum : nn + index * 2 ^ shift + maxPrefix < 2 ^ 64) (hpos : 0 < fuel) (rest : List UInt8) :
    readGroups maxPrefix nn shift (appendGroups fuel index ++ rest) = .ok (nn + index * 2 ^ shift + maxPrefix, rest) := by
  induction fuel generalizing nn shift index with
  | zero => omega
  | succ fuel ih =>
    have hpow : 0 < 2 ^ shift := Nat.two_pow_pos shift
    -- at the last shift there is one bit left
    have hlast : shift = 63 → index ≤ 1 := by
      rintro rfl
      by_contra hgt
      have : 2 * 2 ^ 63 ≤ index * 2 ^ 63 := Nat.mul_le_mul_right _ (by omega)
      omega
    rw [appendGroups]
    split
    · rename_i hbig
      obtain ⟨hval, hmore⟩ := group_more index
      have hlow : index % 128 * 2 ^ shift ≤ index * 2 ^ shift := Nat.mul_le_mul_right _ (mod_le _ _)
      have hsplit : nn + index % 128 * 2 ^ shift + index / 128 * 2 ^ (shift + 7) = nn + index * 2 ^ shift := by
        rw [Nat.pow_add, Nat.add_assoc, Nat.mul_comm (2 ^ shift), ← Nat.mul_assoc, ← Nat.add_mul]
        have := mod_add_div index 128
        congr 2
        omega
      have hadded : u64 (index % 128 * 2 ^ shift) = index % 128 * 2 ^ shift := u64_of_lt (by omega)
      have hshift' : shift + 7 ≤ 63 := by
        by_contra hgt
        have hfar : 128 * 2 ^ 57 ≤ index * 2 ^ shift :=
          Nat.mul_le_mul hbig (Nat.pow_le_pow_right (by decide) (by omega))
        omega
      rw [cons_append, readGroups]
      simp only [hval, shiftLeft_eq, hadded, if_neg hmore]
      rw [if_neg (by omega), if_neg (by omega), if_neg (by omega), shiftRight_eq_div_pow]
      rw [ih (by omega) hshift' (by rw [show (2 : Nat) ^ 7 = 128 from rfl, hsplit]; exact hsum) (by omega)]
      rw [show (2 : Nat) ^ 7 = 128 from rfl, hsplit]
    · rename_i hsmall
      obtain ⟨hval, hmore⟩ := group_last (Nat.not_le.1 hsmall)
      have hadded : u64 (index * 2 ^ shift) = index * 2 ^ shift := u64_of_lt (by omega)
      rw [singleton_append, readGroups]
      simp only [hval, shiftLeft_eq, hadded, if_pos hmore]
      rw [if_neg (by omega), if_neg (by omega), if_neg (by omega)]

/-- The first byte holds the pattern above the prefix. -/
structure Pattern (c : UInt8) (n : Nat) : Prop where
  le_eight : n ≤ 8
  pos : 0 < n
  low : c.toNat % 2 ^ n = 0

instance (c : UInt8) (n : Nat) : Decidable (Pattern c n) :=
  decidable_of_iff (n ≤ 8 ∧ 0 < n ∧ c.toNat % 2 ^ n = 0) ⟨fun h => ⟨h.1, h.2.1, h.2.2⟩, fun h => ⟨h.1, h.2, h.3⟩⟩

theorem byte_mask_toNat (h : n ≤ 8) : (byte (2 ^ n - 1)).toNat = 2 ^ n - 1 := by
  have hle : 2 ^ n ≤ 2 ^ 8 := Nat.pow_le_pow_right (by decide) h
  have hpos := Nat.two_pow_pos n
  rw [byte_toNat, mod_eq_of_lt (by omega)]

theorem Pattern.and_mask (h : Pattern c n) (hx : x < 2 ^ n) : ((c ||| byte x) &&& byte (2 ^ n - 1)).toNat = x := by
  have hle : 2 ^ n ≤ 2 ^ 8 := Nat.pow_le_pow_right (by decide) h.le_eight
  have hlow := h.low
  rw [UInt8.toNat_and, byte_mask_toNat h.le_eight, and_two_pow_sub_one_eq_mod, UInt8.toNat_or, byte_toNat,
    mod_eq_of_lt (a := x) (by omega), or_mod_two_pow, hlow, zero_or, mod_eq_of_lt hx]

theorem readInt_intBytes {v : Nat} (h : Pattern c n) (hv : v < 2 ^ 64) (rest : List UInt8) :
    readInt n (intBytes c n v ++ rest) = .ok (v, rest) := by
  have hpow : 2 ^ n ≤ 2 ^ 8 := Nat.pow_le_pow_right (by decide) h.le_eight
  have hpos := Nat.two_pow_pos n
  have hmask := byte_mask_toNat h.le_eight
  unfold intBytes
  split
  · rename_i hsmall
    have hval := h.and_mask (x := v) (by omega)
    rw [singleton_append, readInt, if_pos ?_, hval]
    intro heq
    have hcontra : v = 2 ^ n - 1 := by
      rw [← hval, UInt8.and_comm, heq, hmask]
    omega
  · rename_i hbig
    have hval := h.and_mask (x := 2 ^ n - 1) (by omega)
    have hfull : byte (2 ^ n - 1) &&& (c ||| byte (2 ^ n - 1)) = byte (2 ^ n - 1) := by
      apply UInt8.toNat_inj.1
      rw [UInt8.and_comm, hval, hmask]
    rw [cons_append, readInt, if_neg (not_not_intro hfull), hmask,
      readGroups_appendGroups (by decide) (by decide) (by omega) (by decide)]
    congr 2
    omega

/-- The first byte of an integer is its pattern with some prefix below it, which is zero for zero only. -/
theorem exists_intBytes_cons (c : UInt8) (hn : 0 < n) (v : Nat) :
    ∃ x < 2 ^ n, (x = 0 ↔ v = 0) ∧ ∃ tail, intBytes c n v = (c ||| byte x) :: tail := by
  have hpow : 2 ^ 1 ≤ 2 ^ n := Nat.pow_le_pow_right (by decide) hn
  unfold intBytes
  split
  · exact ⟨v, by omega, Iff.rfl, [], rfl⟩
  · exact ⟨2 ^ n - 1, by omega, by omega, _, rfl⟩

theorem intBytes_zero (c : UInt8) (hn : 0 < n) : intBytes c n 0 = [c] := by
  have hpow : 2 ^ 1 ≤ 2 ^ n := Nat.pow_le_pow_right (by decide) hn
  rw [intBytes, if_pos (by omega)]
  exact congrArg (fun b => [b]) UInt8.or_zero

/-! ## Strings -/

def stringBytes (src : List UInt8) (encode : Bool) : List UInt8 :=
  if encode then intBytes 0x80 7 (huffmanEncodeFallback [] src).length ++ huffmanEncodeFallback [] src
  else intBytes 0 7 src.length ++ src

/-- The pattern may be set after the integer is written. -/
theorem orAt_intBytes (dst : List UInt8) (c : UInt8) (n v : Nat) :
    orAt (dst ++ intBytes 0 n v) dst.length c = dst ++ intBytes c n v := by
  have hcons : ∀ b tail, orAt (dst ++ (0 ||| b) :: tail) dst.length c = dst ++ (c ||| b) :: tail := by
    intro b tail
    induction dst with
    | nil => rw [nil_append, orAt, length_nil, modify_zero_cons, UInt8.zero_or, UInt8.or_comm, nil_append]
    | cons a dst ih => exact congrArg (a :: ·) ih
  unfold intBytes
  split
  · exact hcons (byte v) []
  · exact hcons _ _

theorem appendString_eq (h : src.length < 2 ^ 58) (dst : List UInt8) (encode : Bool) :
    appendString dst src encode = dst ++ stringBytes src encode := by
  unfold appendString stringBytes
  cases encode with
  | false =>
    rw [if_pos rfl, if_neg (by decide), appendInt_concat, append_assoc]
  | true =>
    rw [if_neg (by decide), if_pos rfl]
    split
    · rename_i hnil
      subst hnil
      rw [appendInt_concat]
      rfl
    · dsimp only
      rw [appendInt_concat, orAt_intBytes, huffmanEncodeFallback_append, huffmanEncodeLength_eq h, append_assoc]

theorem string_mark (h : x < 2 ^ 7) :
    ((0x80 ||| byte x) &&& 128 == 128) = true ∧ ((0 ||| byte x) &&& 128 == 128) = false := by
  have hcases : ∀ x : Fin 128, ((0x80 ||| byte x.val) &&& 128 == 128) = true ∧
      ((0 ||| byte x.val) &&& 128 == 128) = false := by decide +kernel
  exact hcases ⟨x, h⟩

theorem readString_stringBytes (h : src.length < 2 ^ 58) (encode : Bool) (rest : List UInt8) :
    readString (stringBytes src encode ++ rest) = .ok (src, rest) := by
  cases encode with
  | false =>
    obtain ⟨x, hx, -, tail, hcons⟩ := exists_intBytes_cons 0 (n := 7) (by decide) src.length
    have hread := readInt_intBytes (c := 0) (n := 7) (v := src.length) (by decide) (by omega) (src ++ rest)
    rw [stringBytes, if_neg (by decide), append_assoc]
    rw [hcons, cons_append] at hread ⊢
    simp only [readString, hread, (string_mark hx).2, length_append, take_left, drop_left]
    rw [if_neg (by omega), if_neg (by decide)]
  | true =>
    obtain ⟨x, hx, -, tail, hcons⟩ := exists_intBytes_cons 0x80 (n := 7) (by decide) (huffmanEncodeFallback [] src).length
    have hlen : (huffmanEncodeFallback [] src).length < 2 ^ 64 := by
      rw [← huffmanEncodeLength_eq h, huffmanEncodeLength]
      omega
    have hread := readInt_intBytes (c := 0x80) (n := 7) (by decide) hlen (huffmanEncodeFallback [] src ++ rest)
    rw [stringBytes, if_pos rfl, append_assoc]
    rw [hcons, cons_append] at hread ⊢
    simp only [readString, hread, (string_mark hx).1, length_append, take_left, drop_left,
      decode_huffmanEncodeFallback, nil_append]
    rw [if_neg (by omega), if_pos trivial]

end Mach.Hpack
