import Mathlib.Data.Nat.Bitwise
import Mathlib.Data.List.Range
import Mathlib.Tactic.IntervalCases
/-!
# Eight bytes at a time

A 64-bit word is searched for a byte by one subtraction: the flag of a byte is
the top bit of its place, and no occurrence of the byte is missed. A byte above
one that occurs may be flagged wrongly, so whoever walks over the flags looks at
the bytes again; `eachFlag` is such a walk, from the lowest flag up, and
`eachFlag_eq` says that it does what a walk over all the bytes does.
-/

namespace Mach.Lib
open Nat

variable {i x j b k : Nat}

/-- The byte of a word at a place, from the low end. -/
def byteAt (v j : Nat) : Nat := v >>> (8 * j) % 256

def lsb : Nat := 0x0101010101010101
def msb : Nat := 0x8080808080808080

/-- The flags of the places that hold zero. -/
def hasZeroByte (v : Nat) : Nat := (2 ^ 64 - lsb + v) % 2 ^ 64 &&& (v ^^^ (2 ^ 64 - 1)) &&& msb

/-- The flags of the places that hold `b`. -/
def hasByte (v b : Nat) : Nat := hasZeroByte (v ^^^ b * lsb)

/-- The number of zeros below the lowest bit that is set. -/
def trailingZeros : Nat → Nat → Nat
  | 0, _ => 0
  | w + 1, m => if m % 2 = 1 then 0 else trailingZeros w (m / 2) + 1

/-- Calls `f` with the places of the flags, from the low end; a flag is cleared with the seven bits above it. Gives
the place behind the last flag besides. -/
def eachFlag {σ : Type} (f : Nat → σ → σ) : Nat → Nat → σ → Nat → σ × Nat
  | 0, _, s, off => (s, off)
  | fuel + 1, mask, s, off =>
    if mask = 0 then (s, off)
    else
      let tz := trailingZeros 64 mask
      eachFlag f fuel (mask &&& ((0xFF <<< tz) % 2 ^ 64 ^^^ (2 ^ 64 - 1))) (f (tz / 8) s) (tz / 8 + 1)

/-! ## The flags -/

theorem testBit_msb (hi : i < 64) : msb.testBit i = decide (i % 8 = 7) := by
  revert i
  decide

/-- The subtraction borrows into a place that holds zero. -/
theorem borrow (hj : j < 8) (h : byteAt x j = 0) : ((2 ^ 64 - lsb + x) % 2 ^ 64).testBit (8 * j + 7) = true := by
  rw [testBit_eq_decide_div_mod_eq, decide_eq_true_eq]
  simp only [byteAt, lsb, shiftRight_eq_div_pow] at h ⊢
  interval_cases j <;> omega

theorem testBit_of_byteAt (h : byteAt x j = 0) (hi : i < 8) : x.testBit (8 * j + i) = false := by
  have : (byteAt x j).testBit i = x.testBit (8 * j + i) := by
    rw [byteAt, show (256 : Nat) = 2 ^ 8 from rfl, testBit_mod_two_pow, decide_eq_true hi, Bool.true_and,
      testBit_shiftRight]
  rw [← this, h, zero_testBit]

theorem hasZeroByte_of_byteAt (hj : j < 8) (h : byteAt x j = 0) : (hasZeroByte x).testBit (8 * j + 7) = true := by
  rw [hasZeroByte, testBit_and, testBit_and, borrow hj h, testBit_xor, testBit_of_byteAt h (by decide),
    testBit_two_pow_sub_one, testBit_msb (by omega)]
  simp
  omega

theorem hasZeroByte_flags (h : (hasZeroByte x).testBit i = true) : i < 64 ∧ i % 8 = 7 := by
  rw [hasZeroByte, testBit_and, Bool.and_eq_true] at h
  have hi : i < 64 := by
    by_contra hge
    rw [testBit_lt_two_pow (Nat.lt_of_lt_of_le (by decide : msb < 2 ^ 64)
      (Nat.pow_le_pow_right (by decide) (Nat.not_lt.1 hge)))] at h
    cases h.2
  rw [testBit_msb hi, decide_eq_true_eq] at h
  exact ⟨hi, h.2⟩

theorem testBit_byteAt (v j i : Nat) : (byteAt v j).testBit i = (decide (i < 8) && v.testBit (8 * j + i)) := by
  rw [byteAt, show (256 : Nat) = 2 ^ 8 from rfl, testBit_mod_two_pow, testBit_shiftRight]

theorem byteAt_xor (v w j : Nat) : byteAt (v ^^^ w) j = byteAt v j ^^^ byteAt w j := by
  apply eq_of_testBit_eq
  intro i
  simp only [testBit_byteAt, testBit_xor]
  cases decide (i < 8) <;> simp

theorem byteAt_mul_lsb (hb : b < 256) (hj : j < 8) : byteAt (b * lsb) j = b := by
  have h : ∀ b < 256, ∀ j < 8, byteAt (b * lsb) j = b := by decide +kernel
  exact h b hb j hj

theorem hasByte_of_byteAt {v : Nat} (hb : b < 256) (hj : j < 8) (h : byteAt v j = b) :
    (hasByte v b).testBit (8 * j + 7) = true := by
  apply hasZeroByte_of_byteAt hj
  rw [byteAt_xor, byteAt_mul_lsb hb hj, h, Nat.xor_self]

/-! ## The walk -/

theorem trailingZeros_eq {w m : Nat} (hk : k < w) (hlow : ∀ i < k, m.testBit i = false) (hbit : m.testBit k = true) :
    trailingZeros w m = k := by
  induction w generalizing m k with
  | zero => exact absurd hk (Nat.not_lt_zero k)
  | succ w ih =>
    rw [trailingZeros]
    cases k with
    | zero =>
      rw [testBit_zero, decide_eq_true_eq] at hbit
      rw [if_pos hbit]
    | succ k =>
      have h0 := hlow 0 (succ_pos k)
      rw [testBit_zero, decide_eq_false_iff_not] at h0
      have hlow' : ∀ i < k, (m / 2).testBit i = false := by
        intro i hi
        rw [← testBit_succ]
        exact hlow (i + 1) (by omega)
      rw [testBit_succ] at hbit
      rw [if_neg h0, ih (by omega) hlow' hbit]

theorem testBit_clear {mask : Nat} (hflag : mask.testBit i = true → i < 64 ∧ i % 8 = 7) :
    (mask &&& ((0xFF <<< (8 * k + 7)) % 2 ^ 64 ^^^ (2 ^ 64 - 1))).testBit i =
      (mask.testBit i && decide (i ≠ 8 * k + 7)) := by
  cases hm : mask.testBit i with
  | false => simp [hm]
  | true =>
    obtain ⟨hi, hmod⟩ := hflag hm
    have hff : (0xFF : Nat).testBit (i - (8 * k + 7)) = decide (i - (8 * k + 7) < 8) :=
      testBit_two_pow_sub_one 8 _
    rw [testBit_and, hm, testBit_xor, testBit_mod_two_pow, testBit_shiftLeft, hff,
      testBit_two_pow_sub_one]
    by_cases he : i = 8 * k + 7
    · simp [he]
    · simp [hi, he]
      omega

section Walk

variable {σ : Type} {f : Nat → σ → σ} {w : Nat → σ} {mask0 : Nat}

/-- The flags at the places from `k` on are left; the places from `off` up to `k` have none. -/
theorem eachFlag_from (hw : ∀ k, w (k + 1) = f k (w k))
    (hidle : ∀ j < 8, mask0.testBit (8 * j + 7) = false → ∀ s, f j s = s)
    (hflags : ∀ i, mask0.testBit i = true → i < 64 ∧ i % 8 = 7) {n fuel mask off : Nat} (hn : n + k = 8)
    (hfuel : n ≤ fuel) (hbits : ∀ i, mask.testBit i = true ↔ mask0.testBit i = true ∧ 8 * k ≤ i) (hoff : off ≤ k)
    (heq : w k = w off) (hpos : mask = 0 → 0 < off) :
    ∃ off', 0 < off' ∧ off' ≤ 8 ∧ eachFlag f fuel mask (w off) off = (w off', off') := by
  induction n generalizing k fuel mask off with
  | zero =>
    have hzero : mask = 0 := by
      apply eq_of_testBit_eq
      intro i
      rw [zero_testBit, Bool.eq_false_iff]
      intro hi
      have hk := (hbits i).1 hi
      have := hflags i hk.1
      omega
    refine ⟨off, hpos hzero, by omega, ?_⟩
    cases fuel with
    | zero => rfl
    | succ fuel => rw [eachFlag, if_pos hzero]
  | succ n ih =>
    have hnext : ∀ i, mask0.testBit i = true → (8 * (k + 1) ≤ i ↔ 8 * k ≤ i ∧ i ≠ 8 * k + 7) := by
      intro i hi
      have := hflags i hi
      omega
    cases hflag : mask0.testBit (8 * k + 7) with
    | false =>
      have hsame : w (k + 1) = w off := by rw [hw, hidle k (by omega) hflag, heq]
      refine ih (by omega) (by omega) (fun i => (hbits i).trans (and_congr_right fun hi => ?_)) (by omega) hsame hpos
      rw [hnext i hi]
      refine (and_iff_left ?_).symm
      rintro rfl
      simp [hflag] at hi
    | true =>
      obtain ⟨fuel, rfl⟩ := Nat.exists_eq_add_of_le' (by omega : 1 ≤ fuel)
      have hbit : mask.testBit (8 * k + 7) = true := (hbits _).2 ⟨hflag, by omega⟩
      have hne : mask ≠ 0 := by
        rintro rfl
        simp at hbit
      have htz : trailingZeros 64 mask = 8 * k + 7 := by
        refine trailingZeros_eq (by omega) (fun i hi => ?_) hbit
        rw [Bool.eq_false_iff]
        intro h
        have hk := (hbits i).1 h
        have := hflags i hk.1
        omega
      have hdiv : (8 * k + 7) / 8 = k := by omega
      rw [eachFlag, if_neg hne]
      simp only [htz, hdiv]
      rw [← heq, ← hw]
      refine ih (by omega) (by omega) (fun i => ?_) (Nat.le_refl _) rfl fun _ => k.succ_pos
      rw [testBit_clear fun h => hflags i ((hbits i).1 h).1, Bool.and_eq_true, hbits, decide_eq_true_eq, and_assoc]
      exact and_congr_right fun hi => (hnext i hi).symm

end Walk

/-- A walk over the flags is a walk over the places up to the last flag, if `f` does nothing at the others. -/
theorem eachFlag_eq {σ : Type} (f : Nat → σ → σ) {mask0 : Nat} (s0 : σ)
    (hidle : ∀ j < 8, mask0.testBit (8 * j + 7) = false → ∀ s, f j s = s) (hmask : mask0 ≠ 0)
    (hflags : ∀ i, mask0.testBit i = true → i < 64 ∧ i % 8 = 7) :
    ∃ off, 0 < off ∧ off ≤ 8 ∧ eachFlag f 8 mask0 s0 0 = ((List.range off).foldl (fun s j => f j s) s0, off) := by
  refine eachFlag_from (w := fun k => (List.range k).foldl (fun s j => f j s) s0) (fun k => ?_) hidle hflags rfl
    (Nat.le_refl 8) (by simp) (Nat.le_refl 0) rfl fun h => absurd h hmask
  rw [List.range_succ, List.foldl_append]
  rfl

end Mach.Lib
