import Mathlib.Data.List.Basic
import Mathlib.Data.Vector.Defs
/-!
# Slices and in-place copies

A slice `s[o : o+n]` of a list, the `copy` of one list into another at an
index, and when a buffer that is filled piece by piece holds the slice it is
meant to hold: it agrees with the source wherever something was copied, and
something was copied everywhere.
-/

namespace Mach.Lib
open List hiding Vector

variable {α : Type} {s buf : List α} {n base : Nat} {P : Nat → Prop}

/-- `s[o : o+n]`. -/
def slice (s : List α) (o n : Nat) : List α := (s.drop o).take n

theorem slice_get? (s : List α) (o n k : Nat) : (slice s o n)[k]? = if k < n then s[o + k]? else none := by
  simp [slice, getElem?_take]

theorem length_slice {o : Nat} (h : o + n ≤ s.length) : (slice s o n).length = n := by
  simp [slice]; omega

@[simp] theorem slice_zero (s : List α) (o : Nat) : slice s o 0 = [] := by simp [slice]

theorem take_slice (s : List α) (o n k : Nat) : (slice s o n).take k = slice s o (min k n) := by
  simp [slice, take_take]

theorem drop_slice (s : List α) (o n k : Nat) : (slice s o n).drop k = slice s (o + k) (n - k) := by
  simp [slice, drop_take]

theorem slice_slice (s : List α) (o n i k : Nat) (h : i + k ≤ n) : slice (slice s o n) i k = slice s (o + i) k := by
  simp only [slice, drop_take, take_take, drop_drop]
  congr 1
  omega

theorem slice_append (s : List α) (o n k : Nat) : slice s o n ++ slice s (o + n) k = slice s o (n + k) := by
  simp [slice, take_add, drop_drop]

theorem take_append_slice (s : List α) (o n : Nat) : s.take o ++ slice s o n = s.take (o + n) := by
  simp [slice, take_add]

/-- `copy(dst[i:], src)`: overwrites `dst` from `i` on, up to its end. -/
def copyAt (dst : List α) (i : Nat) (src : List α) : List α :=
  dst.take i ++ src.take (dst.length - i) ++ dst.drop (i + src.length)

theorem length_copyAt (dst : List α) (i : Nat) (src : List α) : (copyAt dst i src).length = dst.length := by
  simp [copyAt]; omega

theorem copyAt_get? (dst : List α) (i : Nat) (src : List α) (k : Nat) (hk : k < dst.length) :
    (copyAt dst i src)[k]? = if i ≤ k ∧ k < i + src.length then src[k - i]? else dst[k]? := by
  unfold copyAt
  by_cases h1 : k < i
  · have : ¬ (i ≤ k ∧ k < i + src.length) := by omega
    simp only [this, if_false, append_assoc]
    rw [getElem?_append_left (by simp; omega), getElem?_take_of_lt h1]
  · have hi : (dst.take i).length = i := by simp; omega
    rw [append_assoc, getElem?_append_right (by omega), hi]
    by_cases h2 : k < i + src.length
    · rw [getElem?_append_left (by simp; omega), getElem?_take_of_lt (by omega), if_pos ⟨by omega, h2⟩]
    · have hs : (src.take (dst.length - i)).length = src.length := by simp; omega
      rw [getElem?_append_right (by omega), hs, getElem?_drop, if_neg (by omega)]
      congr 1; omega

/-- `copy(dst[:], src)` into an array. -/
def copyArray {n : Nat} (dst : Vector α n) (src : List α) : Vector α n :=
  Vector.ofFn fun i => src[i.1]?.getD dst[i]

theorem copyArray_toList (dst v : Vector α n) : copyArray dst v.toList = v := by
  apply Vector.ext
  intro i hi
  simp [copyArray]

/-- Where `P` holds, the buffer that starts at position `base` of `s` has the
elements of `s`. -/
def Agrees (s : List α) (base : Nat) (buf : List α) (P : Nat → Prop) : Prop :=
  ∀ k, k < buf.length → P (base + k) → buf[k]? = s[base + k]?

/-- Copying a slice of `s` to its place keeps what agrees and adds the slice. -/
theorem agrees_copyAt (h : Agrees s base buf P) (o n : Nat) (ho : base ≤ o) (hn : o + n ≤ s.length) :
    Agrees s base (copyAt buf (o - base) (slice s o n)) (fun i => P i ∨ (o ≤ i ∧ i < o + n)) := by
  intro k hk hP
  rw [length_copyAt] at hk
  rw [copyAt_get? _ _ _ _ hk, length_slice hn]
  split
  · rw [slice_get?, if_pos (by omega)]
    congr 1; omega
  · refine h k hk (hP.resolve_right ?_)
    omega

theorem eq_slice_of_agrees (h : Agrees s base buf P)
    (hP : ∀ i, base ≤ i → i < base + buf.length → P i) : buf = slice s base buf.length := by
  apply ext_getElem?
  intro k
  rw [slice_get?]
  split
  · exact h k ‹_› (hP _ (by omega) (by omega))
  · exact getElem?_eq_none (by omega)

end Mach.Lib
