import Mach.Lib.Bytes
/-!
# Variable-length integers

`varint.go`, the appender of `wire/header.go` and the codec of `handshake/varint.go`.
The two top bits of the first byte say how many bytes follow; the value is what is
left of them, most significant byte first. The codecs shift, set or take off the tag
in a word, or read in a loop, and are one codec.
-/

namespace Mach.Quic

open Lib

variable {val t n : Nat}

/-- The switch over the size of a value, `v < 1<<6` or `v <= 63` and so on. -/
def bySize {α : Type} (val : Nat) (one two four eight : α) : α :=
  if val < 2 ^ 6 then one else if val < 2 ^ 14 then two else if val < 2 ^ 30 then four else eight

/-- `binary.BigEndian.PutUint16(b, uint16(v)|tag)`, and the same with 32 and 64 bits. -/
def putTagged (n tag val : Nat) : List UInt8 := beBytes n (val % 256 ^ n ||| tag)

/-- The cases of `Encode` and `EncodeSlice`. -/
def words (val : Nat) : List UInt8 :=
  bySize val [byte val] (putTagged 2 0x4000 val) (putTagged 4 0x80000000 val) (putTagged 8 0xc000000000000000 val)

namespace Varint

def max : Nat := 4611686018427387903

inductive Error where
  | truncated
  deriving DecidableEq, Repr

/-- A value of `n` bytes below its tag, which `mask` takes off. -/
def decodeWide (payload : List UInt8) (n mask : Nat) : Except Error (Nat × Nat) :=
  if payload.length < n then .error .truncated else .ok (beNat (payload.take n) &&& mask, n)

/-- `Decode`: the value and how many bytes it took. -/
def decode (payload : List UInt8) : Except Error (Nat × Nat) :=
  match payload with
  | [] => .error .truncated
  | first :: _ =>
    if first >>> 6 = 0 then .ok (first.toNat, 1)
    else if first >>> 6 = 1 then decodeWide payload 2 0x3fff
    else if first >>> 6 = 2 then decodeWide payload 4 0x3fffffff
    else decodeWide payload 8 0x3fffffffffffffff

/-- The other functions of `varint.go` panic where the value is too large. -/
def checked {α : Type} (v : Nat) (r : α) : Option α := if v < 2 ^ 62 then some r else none

def len (v : Nat) : Option Nat := checked v (bySize v 1 2 4 8)

def append (b : List UInt8) (v : Nat) : Option (List UInt8) :=
  checked v (bySize v (b ++ [byte v]) (b ++ (byte (v >>> 8) ||| 0x40) :: beBytes 1 v)
    (b ++ (byte (v >>> 24) ||| 0x80) :: beBytes 3 v) (b ++ (byte (v >>> 56) ||| 0xc0) :: beBytes 7 v))

def encode (val : Nat) : Option (List UInt8) := checked val (words val)

/-- `EncodeSlice`: what is in `b` then, and how many bytes of it are the value. It panics where `b` is too short. -/
def encodeSlice (v : Nat) (b : List UInt8) : Option (List UInt8 × Nat) := do
  let d ← checked v (words v)
  if b.length < d.length then none else some (d ++ b.drop d.length, d.length)

end Varint

namespace Handshake

def varintLen (v : Nat) : Nat := bySize v 1 2 4 8

def appendVarint (b : List UInt8) (v : Nat) : List UInt8 :=
  bySize v (b ++ [byte v]) (b ++ ((0x40 : UInt8) ||| byte (v >>> 8)) :: beBytes 1 v)
    (b ++ ((0x80 : UInt8) ||| byte (v >>> 24)) :: beBytes 3 v) (b ++ ((0xc0 : UInt8) ||| byte (v >>> 56)) :: beBytes 7 v)

/-- `readVarint`; `none` is `errVarintUnexpected`. -/
def readVarint (b : List UInt8) : Option (Nat × Nat) :=
  match b with
  | [] => none
  | first :: _ =>
    let length := 1 <<< (first >>> 6).toNat
    if b.length < length then none
    else some (((b.take length).drop 1).foldl (fun val x => val <<< 8 ||| x.toNat) (first &&& 0x3f).toNat, length)

end Handshake

/-! ## Encoders -/

theorem apply_bySize {α β : Type} (f : α → β) (val : Nat) (a b c d : α) :
    f (bySize val a b c d) = bySize val (f a) (f b) (f c) (f d) := by
  simp only [bySize, apply_ite f]

/-- The top byte of `val` with the tag `t` above it, then the other bytes. -/
def tagged (t n val : Nat) : List UInt8 := (byte (val >>> (8 * n)) ||| byte (64 * t)) :: beBytes n val

theorem tagged_length (t n val : Nat) : (tagged t n val).length = n + 1 := by simp [tagged]

namespace Wire

/-- `appendVarint`; `none` where it panics. -/
def appendVarint (dst : List UInt8) (val : Nat) : Option (List UInt8) :=
  if val ≤ 63 then some (dst ++ [byte val])
  else if val ≤ 16383 then some (dst ++ [byte (val >>> 8) ||| 0x40, byte val])
  else if val ≤ 1073741823 then
    some (dst ++ [byte (val >>> 24) ||| 0x80, byte (val >>> 16), byte (val >>> 8), byte val])
  else if val ≤ Varint.max then
    some (dst ++ [byte (val >>> 56) ||| 0xc0, byte (val >>> 48), byte (val >>> 40), byte (val >>> 32),
      byte (val >>> 24), byte (val >>> 16), byte (val >>> 8), byte val])
  else none

def varintBytes (val : Nat) : List UInt8 := (appendVarint [] val).getD []

theorem appendVarint_bySize (h : val ≤ Varint.max) (dst : List UInt8) : appendVarint dst val =
    some (dst ++ bySize val [byte val] (tagged 1 1 val) (tagged 2 3 val) (tagged 3 7 val)) := by
  rw [apply_bySize (dst ++ ·), apply_bySize some]
  simp only [appendVarint, h, if_true, ← Nat.lt_succ_iff]
  rfl

theorem varintBytes_eq (h : val ≤ Varint.max) :
    varintBytes val = bySize val [byte val] (tagged 1 1 val) (tagged 2 3 val) (tagged 3 7 val) := by
  rw [varintBytes, appendVarint_bySize h]
  rfl

theorem appendVarint_eq (h : val ≤ Varint.max) (dst : List UInt8) :
    appendVarint dst val = some (dst ++ varintBytes val) := by
  rw [varintBytes_eq h, appendVarint_bySize h]

theorem varintBytes_small (h : val ≤ 63) : varintBytes val = [byte val] := by
  simp [varintBytes, appendVarint, h]

theorem tag_toNat {hi : Nat} (hh : hi < 64) (ht : t < 4) :
    (byte hi ||| byte (64 * t)).toNat = hi + 64 * t ∧ ((byte hi ||| byte (64 * t)) >>> 6).toNat = t ∧
      ((byte hi ||| byte (64 * t)) &&& 0x3f).toNat = hi := by
  have : ∀ hi : Fin 64, ∀ t : Fin 4, (byte hi ||| byte (64 * t)).toNat = hi + 64 * t.1 ∧
      ((byte hi ||| byte (64 * t)) >>> 6).toNat = t ∧ ((byte hi ||| byte (64 * t)) &&& 0x3f).toNat = hi := by
    decide +kernel
  exact this ⟨hi, hh⟩ ⟨t, ht⟩

theorem hi_lt (h : val < 64 * 256 ^ n) : val >>> (8 * n) < 64 := by
  rw [Nat.shiftRight_eq_div_pow, Nat.pow_mul]
  exact (Nat.div_lt_iff_lt_mul (Nat.pow_pos (by decide))).2 h

theorem two_pow_eq (n : Nat) : 2 ^ (8 * n + 6) = 64 * 256 ^ n := by rw [Nat.pow_add, Nat.pow_mul, Nat.mul_comm]

theorem beNat_tagged (h : val < 64 * 256 ^ n) (ht : t < 4) : beNat (tagged t n val) = 64 * 256 ^ n * t + val := by
  rw [tagged, beNat, (tag_toNat (hi_lt h) ht).1, Nat.shiftRight_eq_div_pow, Nat.pow_mul, beBytes_length, beNat_beBytes,
    Nat.add_mul, Nat.add_right_comm, Nat.div_add_mod', Nat.add_comm, Nat.mul_right_comm]

theorem putTagged_eq (h : val < 64 * 256 ^ n) (ht : t < 4) :
    putTagged (n + 1) (64 * 256 ^ n * t) val = tagged t n val := by
  have hor : val ||| 64 * 256 ^ n * t = 64 * 256 ^ n * t + val := by
    rw [← two_pow_eq, Nat.or_comm, Nat.two_pow_add_eq_or_of_lt (two_pow_eq n ▸ h)]
  have hfit : 64 * 256 ^ n * t + val < 256 ^ (n + 1) := by
    have : 64 * 256 ^ n * t ≤ 64 * 256 ^ n * 3 := Nat.mul_le_mul_left _ (by omega)
    rw [Nat.pow_succ]
    omega
  refine beNat_inj (by simp [putTagged, tagged]) ?_
  rw [beNat_tagged h ht, putTagged, beNat_beBytes, Nat.mod_eq_of_lt (by omega : val < 256 ^ (n + 1)), hor,
    Nat.mod_eq_of_lt hfit]

theorem words_eq (h : val < 2 ^ 62) : words val = varintBytes val := by
  rw [varintBytes_eq (Nat.le_pred_of_lt h)]
  refine ite_congr rfl (fun _ => rfl) fun _ => ?_
  refine ite_congr rfl (fun h1 => putTagged_eq (n := 1) (t := 1) h1 (by decide)) fun _ => ?_
  refine ite_congr rfl (fun h3 => putTagged_eq (n := 3) (t := 2) h3 (by decide)) fun _ => ?_
  exact putTagged_eq (n := 7) (t := 3) h (by decide)

/-! ## Decoders -/

theorem foldl_shift (a : Nat) (l : List UInt8) :
    l.foldl (fun val x => val <<< 8 ||| x.toNat) a = a * 256 ^ l.length + beNat l := by
  induction l generalizing a with
  | nil => simp [beNat]
  | cons x l ih =>
    have hor : a <<< 8 ||| x.toNat = 256 * a + x.toNat := by
      rw [Nat.shiftLeft_eq, Nat.mul_comm, ← Nat.two_pow_add_eq_or_of_lt x.toNat_lt]
    rw [List.foldl_cons, ih, hor, beNat, List.length_cons, Nat.pow_succ]
    ring

/-- The two bits that are masked in the word are masked in its top byte. -/
theorem beNat_and (first : UInt8) (l : List UInt8) :
    beNat (first :: l) &&& (2 ^ (8 * l.length + 6) - 1) = (first &&& 0x3f).toNat * 256 ^ l.length + beNat l := by
  have hlow : (first &&& 0x3f).toNat = first.toNat % 64 := Nat.and_two_pow_sub_one_eq_mod first.toNat 6
  rw [Nat.and_two_pow_sub_one_eq_mod, Nat.pow_add, Nat.pow_mul, hlow, beNat, Nat.mod_mul, Nat.mul_add_mod',
    Nat.mod_eq_of_lt (beNat_lt l), Nat.mul_comm _ (256 ^ _), Nat.mul_add_div (Nat.pow_pos (by decide)),
    Nat.div_eq_of_lt (beNat_lt l), Nat.add_zero, Nat.add_comm, Nat.mul_comm]

theorem decodeWide_eq (first : UInt8) (b : List UInt8) (n : Nat) :
    (Varint.decodeWide (first :: b) (n + 1) (2 ^ (8 * n + 6) - 1)).toOption =
      if (first :: b).length < n + 1 then none
      else some ((b.take n).foldl (fun val x => val <<< 8 ||| x.toNat) (first &&& 0x3f).toNat, n + 1) := by
  unfold Varint.decodeWide
  split
  · rfl
  · rename_i hlen
    have htake : (b.take n).length = n := List.length_take_of_le (Nat.le_of_lt_succ (Nat.not_lt.1 hlen))
    have hmask := beNat_and first (b.take n)
    rw [htake] at hmask
    rw [foldl_shift, List.take_succ_cons, htake, hmask]
    rfl

theorem decode_eq_readVarint (payload : List UInt8) :
    (Varint.decode payload).toOption = Handshake.readVarint payload := by
  cases payload with
  | nil => rfl
  | cons first b =>
    have htag : first >>> 6 = 0 ∧ first &&& 0x3f = first ∨ first >>> 6 = 1 ∨ first >>> 6 = 2 ∨ first >>> 6 = 3 := by
      revert first
      exact forall_byte (by decide +kernel)
    simp only [Varint.decode, Handshake.readVarint]
    obtain ⟨htag, hlow⟩ | htag | htag | htag := htag <;> rw [htag]
    · simp [hlow]
      rfl
    · exact decodeWide_eq first b 1
    · exact decodeWide_eq first b 3
    · exact decodeWide_eq first b 7

/-- A number is what the first byte holds below its tag, with the bytes that the tag counts. -/
theorem decode_eq_ok_iff {b : List UInt8} : Varint.decode b = .ok (val, n) ↔
    ∃ first l r, b = first :: (l ++ r) ∧ 1 <<< (first >>> 6).toNat = n ∧ l.length + 1 = n ∧
      beNat ((first &&& 0x3f) :: l) = val := by
  have hread : Varint.decode b = .ok (val, n) ↔ Handshake.readVarint b = some (val, n) := by
    rw [← decode_eq_readVarint]
    cases Varint.decode b <;> simp [Except.toOption]
  rw [hread]
  constructor
  · intro h
    cases b with
    | nil => cases h
    | cons first b =>
      obtain ⟨m, hm⟩ := Nat.exists_eq_add_one.2 (Nat.one_shiftLeft (first >>> 6).toNat ▸ Nat.two_pow_pos _)
      simp only [Handshake.readVarint, hm, foldl_shift] at h
      obtain ⟨hlen, h⟩ := Option.ite_none_left_eq_some.1 h
      obtain ⟨rfl, rfl⟩ := Prod.mk.inj (Option.some.inj h)
      have htake : (b.take m).length = m := List.length_take_of_le (Nat.le_of_lt_succ (Nat.not_lt.1 hlen))
      exact ⟨first, b.take m, b.drop m, by rw [List.take_append_drop], hm, by rw [htake], rfl⟩
  · rintro ⟨first, l, r, rfl, hlen, rfl, rfl⟩
    simp only [Handshake.readVarint, hlen, foldl_shift]
    rw [if_neg (by simp), List.take_succ_cons, List.take_left]
    rfl

theorem varintBytes_tagged (h : val ≤ Varint.max) :
    ∃ t n, t < 4 ∧ 1 <<< t = n + 1 ∧ val < 64 * 256 ^ n ∧ varintBytes val = tagged t n val := by
  rw [varintBytes_eq h]
  unfold bySize
  split_ifs with h1 h2 h3
  · exact ⟨0, 0, by decide, rfl, h1, congrArg (· :: []) UInt8.or_zero.symm⟩
  · exact ⟨1, 1, by decide, rfl, h2, rfl⟩
  · exact ⟨2, 3, by decide, rfl, h3, rfl⟩
  · exact ⟨3, 7, by decide, rfl, Nat.lt_succ_of_le h, rfl⟩

/-- `Decode` inverts `appendVarint` and reads nothing behind it. -/
theorem decode_varintBytes (h : val ≤ Varint.max) (r : List UInt8) :
    Varint.decode (varintBytes val ++ r) = .ok (val, (varintBytes val).length) := by
  obtain ⟨t, n, ht, htn, hlt, hb⟩ := varintBytes_tagged h
  obtain ⟨-, hsel, hlow⟩ := tag_toNat (hi_lt hlt) ht
  have hval : val >>> (8 * n) * 256 ^ n + val % 256 ^ n = val := by
    rw [Nat.shiftRight_eq_div_pow, Nat.pow_mul, Nat.div_add_mod']
  rw [hb, tagged_length]
  refine decode_eq_ok_iff.2 ⟨_, beBytes n val, r, rfl, ?_, ?_, ?_⟩
  · rw [hsel, htn]
  · rw [beBytes_length]
  · rw [beNat, hlow, beBytes_length, beNat_beBytes, hval]

/-- There is one codec: the encoders write the same bytes, as many as both lengths say, which the decoders read in front
of anything, and the decoders agree on every byte string. -/
theorem varint_codecs_agree :
    (∀ v < 2 ^ 62, ∃ bytes, Varint.len v = some bytes.length ∧ Handshake.varintLen v = bytes.length ∧
      Varint.encode v = some bytes ∧
      (∀ b, Varint.append b v = some (b ++ bytes) ∧ appendVarint b v = some (b ++ bytes) ∧
        Handshake.appendVarint b v = b ++ bytes ∧
        (bytes.length ≤ b.length → Varint.encodeSlice v b = some (bytes ++ b.drop bytes.length, bytes.length))) ∧
      ∀ s, Varint.decode (bytes ++ s) = .ok (v, bytes.length) ∧
        Handshake.readVarint (bytes ++ s) = some (v, bytes.length)) ∧
    ∀ payload, (Varint.decode payload).toOption = Handshake.readVarint payload := by
  refine ⟨fun v hv => ⟨varintBytes v, ?_⟩, decode_eq_readVarint⟩
  have hmax : v ≤ Varint.max := Nat.le_pred_of_lt hv
  have hbytes := varintBytes_eq hmax
  have hlen : (varintBytes v).length = bySize v 1 2 4 8 := by
    rw [hbytes, apply_bySize List.length]
    rfl
  have hdec := decode_varintBytes hmax
  simp only [Varint.len, Varint.encode, Varint.append, Varint.encodeSlice, Varint.checked, hv, if_true, words_eq hv]
  refine ⟨congrArg some hlen.symm, hlen.symm, trivial, fun b => ⟨?_, appendVarint_eq hmax b, ?_, fun hb => ?_⟩, fun s =>
    ⟨hdec s, ?_⟩⟩
  · rw [hbytes, apply_bySize (b ++ ·)]
    rfl
  · rw [hbytes, apply_bySize (b ++ ·), Handshake.appendVarint]
    simp only [UInt8.or_comm _ (byte _)]
    rfl
  · exact if_neg (Nat.not_lt.2 hb)
  · rw [← decode_eq_readVarint, hdec]
    rfl

end Wire

end Mach.Quic
