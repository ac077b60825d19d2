import Mach.Lib.Bytes
import Mathlib.Data.List.Basic
/-!
# Bit strings and prefix codes

`bits n v` are the low `n` bits of `v`, most significant first. A shift register
that holds the bits not yet written, or not yet read, is described by them:
shifting in appends, shifting out splits. A concatenation of codes of which none
begins another can be read in one way only, also if one-bits follow as padding.
-/

namespace Mach.Lib

variable {n v w m : Nat}

def bits : Nat → Nat → List Bool
  | 0, _ => []
  | n + 1, v => v.testBit n :: bits n v

attribute [local simp] bits in
@[simp] theorem length_bits (n v : Nat) : (bits n v).length = n := by
  induction n with
  | zero => rfl
  | succ n ih => simp [ih]

theorem bits_congr (h : ∀ i < n, v.testBit i = w.testBit i) : bits n v = bits n w := by
  induction n with
  | zero => rfl
  | succ n ih =>
    rw [bits, bits, h n (Nat.lt_succ_self n), ih fun i hi => h i (Nat.lt_succ_of_lt hi)]

theorem bits_mod (h : n ≤ m) (v : Nat) : bits n (v % 2 ^ m) = bits n v := by
  apply bits_congr
  intro i hi
  rw [Nat.testBit_mod_two_pow, decide_eq_true (by omega), Bool.true_and]

/-- The first `m` of `m + n` bits are those above the last `n`. -/
theorem bits_add (m n v : Nat) : bits (m + n) v = bits m (v >>> n) ++ bits n v := by
  induction m with
  | zero => simp [bits]
  | succ m ih =>
    rw [Nat.add_right_comm, bits, bits, ih, Nat.testBit_shiftRight, Nat.add_comm n m]
    rfl

theorem bits_split (h : m ≤ n) (v : Nat) : bits n v = bits m (v >>> (n - m)) ++ bits (n - m) v := by
  rw [← bits_add, Nat.add_sub_of_le h]

theorem bits_shiftLeft_or {c : Nat} (hc : c < 2 ^ n) (m a : Nat) :
    bits (m + n) (a <<< n ||| c) = bits m a ++ bits n c := by
  rw [bits_add]
  congr 1
  · apply bits_congr
    intro i _
    rw [Nat.testBit_shiftRight, Nat.testBit_or, Nat.testBit_shiftLeft, Nat.testBit_lt_two_pow (i := n + i)
      (Nat.lt_of_lt_of_le hc (Nat.pow_le_pow_right (by decide) (Nat.le_add_right n i)))]
    simp
  · apply bits_congr
    intro i hi
    rw [Nat.testBit_or, Nat.testBit_shiftLeft, decide_eq_false (by omega : ¬ i ≥ n), Bool.false_and, Bool.false_or]

theorem bits_zero (n : Nat) : bits n 0 = List.replicate n false := by
  induction n with
  | zero => rfl
  | succ n ih => rw [bits, Nat.zero_testBit, ih, List.replicate_succ]

theorem bits_shiftLeft (m n a : Nat) : bits (m + n) (a <<< n) = bits m a ++ List.replicate n false := by
  have h := bits_shiftLeft_or (Nat.two_pow_pos n) m a
  rwa [Nat.or_zero, bits_zero] at h

theorem bits_ones {k : Nat} (h : n ≤ k) : bits n (2 ^ k - 1) = List.replicate n true := by
  induction n with
  | zero => rfl
  | succ n ih =>
    rw [bits, Nat.testBit_two_pow_sub_one, decide_eq_true (by omega : n < k), ih (by omega), List.replicate_succ]

theorem bits_inj (hv : v < 2 ^ n) (hw : w < 2 ^ n) (h : bits n v = bits n w) : v = w := by
  have testBit_eq : ∀ {n : Nat}, bits n v = bits n w → ∀ i < n, v.testBit i = w.testBit i := by
    intro n
    induction n with
    | zero => intro _ i hi; exact absurd hi (Nat.not_lt_zero i)
    | succ n ih =>
      intro h i hi
      obtain ⟨h0, h1⟩ := List.cons.inj h
      rcases Nat.lt_succ_iff_lt_or_eq.1 hi with hi | rfl
      · exact ih h1 i hi
      · exact h0
  apply Nat.eq_of_testBit_eq
  intro i
  by_cases hi : i < n
  · exact testBit_eq h i hi
  · have hle : 2 ^ n ≤ 2 ^ i := Nat.pow_le_pow_right (by decide) (Nat.not_lt.1 hi)
    rw [Nat.testBit_lt_two_pow (Nat.lt_of_lt_of_le hv hle), Nat.testBit_lt_two_pow (Nat.lt_of_lt_of_le hw hle)]

/-- One number's bits begin another's: the first number is the second without its low bits. -/
theorem shiftRight_of_bits_prefix (hv : v < 2 ^ m) (hw : w < 2 ^ n) (h : bits m v <+: bits n w) :
    m ≤ n ∧ w >>> (n - m) = v := by
  have hmn : m ≤ n := by simpa using h.length_le
  refine ⟨hmn, ?_⟩
  obtain ⟨k, rfl⟩ := Nat.exists_eq_add_of_le hmn
  rw [Nat.add_sub_cancel_left]
  rw [bits_add] at h
  have heq : bits m v = bits m (w >>> k) :=
    (List.prefix_of_prefix_length_le h (List.prefix_append _ _) (by simp)).eq_of_length (by simp)
  refine (bits_inj hv ?_ heq).symm
  rw [Nat.shiftRight_eq_div_pow]
  exact Nat.div_lt_of_lt_mul (by rwa [Nat.mul_comm, ← Nat.pow_add])

/-! ## Bytes -/

def byteBits (b : UInt8) : List Bool := bits 8 b.toNat

@[simp] theorem length_byteBits (b : UInt8) : (byteBits b).length = 8 := length_bits 8 b.toNat

theorem byteBits_byte (n : Nat) : byteBits (byte n) = bits 8 n := by
  rw [byteBits, byte_toNat]
  exact bits_mod (Nat.le_refl 8) n

theorem byteBits_inj {a b : UInt8} (h : byteBits a = byteBits b) : a = b :=
  UInt8.toNat_inj.1 (bits_inj a.toNat_lt b.toNat_lt h)

def bytesBits (l : List UInt8) : List Bool := l.flatMap byteBits

@[simp] theorem bytesBits_nil : bytesBits [] = [] := rfl

@[simp] theorem bytesBits_cons (b : UInt8) (l : List UInt8) : bytesBits (b :: l) = byteBits b ++ bytesBits l := rfl

@[simp] theorem bytesBits_append (l l' : List UInt8) : bytesBits (l ++ l') = bytesBits l ++ bytesBits l' := by
  simp [bytesBits]

@[simp] theorem length_bytesBits (l : List UInt8) : (bytesBits l).length = 8 * l.length := by
  induction l with
  | nil => rfl
  | cons b l ih => simp [ih]; omega

theorem bytesBits_inj {l l' : List UInt8} (h : bytesBits l = bytesBits l') : l = l' := by
  have hlen := congrArg List.length h
  rw [length_bytesBits, length_bytesBits] at hlen
  induction l generalizing l' with
  | nil => exact (List.length_eq_zero_iff.1 (by simpa using hlen.symm)).symm
  | cons a l ih =>
    cases l' with
    | nil => cases hlen
    | cons b l' =>
      obtain ⟨hhead, htail⟩ := List.append_inj h (by simp)
      rw [byteBits_inj hhead, ih htail (by simpa using hlen)]

/-! ## Prefix codes -/

variable {σ : Type} {code : σ → List Bool}

def PrefixFree (code : σ → List Bool) : Prop := ∀ s t, code s <+: code t → s = t

def NotOnes (code : σ → List Bool) : Prop := ∀ s, false ∈ code s

theorem PrefixFree.eq_of_prefix (hc : PrefixFree code) {s t : σ} {l : List Bool} (hs : code s <+: l)
    (ht : code t <+: l) : s = t := by
  rcases List.prefix_or_prefix_of_prefix hs ht with h | h
  · exact hc s t h
  · exact (hc t s h).symm

def codesOf (code : σ → List Bool) (l : List σ) : List Bool := l.flatMap code

@[simp] theorem codesOf_nil : codesOf code [] = [] := rfl

@[simp] theorem codesOf_cons (s : σ) (l : List σ) : codesOf code (s :: l) = code s ++ codesOf code l := rfl

@[simp] theorem codesOf_append (l l' : List σ) : codesOf code (l ++ l') = codesOf code l ++ codesOf code l' := by
  simp [codesOf]

theorem NotOnes.not_prefix (ho : NotOnes code) (s : σ) (k : Nat) : ¬ code s <+: List.replicate k true := by
  intro h
  have hmem : false ∈ List.replicate k true := h.subset (ho s)
  cases List.eq_of_mem_replicate hmem

/-- Codes that begin a padded string of codes are the first of those. -/
theorem PrefixFree.rest_of_append (hc : PrefixFree code) (ho : NotOnes code) {l l' : List σ} {x : List Bool} {k : Nat}
    (h : codesOf code l ++ x = codesOf code l' ++ List.replicate k true) :
    ∃ r, l' = l ++ r ∧ x = codesOf code r ++ List.replicate k true := by
  induction l generalizing l' with
  | nil => exact ⟨l', rfl, h⟩
  | cons s l ih =>
    rw [codesOf_cons, List.append_assoc] at h
    have hs : code s <+: codesOf code l' ++ List.replicate k true := ⟨_, h⟩
    cases l' with
    | nil => exact absurd hs (ho.not_prefix s k)
    | cons t l' =>
      rw [codesOf_cons, List.append_assoc] at h hs
      obtain rfl := hc.eq_of_prefix hs (List.prefix_append _ _)
      obtain ⟨r, rfl, hx⟩ := ih (List.append_cancel_left h)
      exact ⟨r, rfl, hx⟩

end Mach.Lib
