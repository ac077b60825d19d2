import Mathlib.Algebra.GroupWithZero.Nat
import Mathlib.Data.List.Basic
/-!
# Queues with a budget

A queue with the oldest entry first, from which the oldest entries are dropped
until the rest fits a budget. What stays of a part of a queue is a part of what
stays of the whole, so that two queues, one of which is the newer part of the
other, remain so under the same insertions and the same budgets.
-/

namespace Mach.Lib

variable {α : Type} (size : α → Nat)

def total (l : List α) : Nat := (l.map size).sum

/-- The newest entries that fit `budget`. -/
def fit (budget : Nat) : List α → List α
  | [] => []
  | a :: l => if budget < total size (a :: l) then fit budget l else a :: l

variable {size} {budget : Nat} {l l' : List α}

@[simp] theorem total_nil : total size [] = 0 := rfl

@[simp] theorem total_cons (a : α) : total size (a :: l) = size a + total size l := rfl

-- The lemmas below share these equations.
attribute [local simp] fit in
theorem total_append : total size (l ++ l') = total size l + total size l' := by
  simp [total]

theorem total_fit_le : total size (fit size budget l) ≤ budget := by
  induction l with
  | nil => exact Nat.zero_le _
  | cons a l ih =>
    rw [fit]
    split
    · exact ih
    · omega

theorem fit_suffix : fit size budget l <:+ l := by
  induction l with
  | nil => exact List.suffix_refl _
  | cons a l ih =>
    rw [fit]
    split
    · exact ih.trans (List.suffix_cons a l)
    · exact List.suffix_refl _

theorem fit_eq_self (h : total size l ≤ budget) : fit size budget l = l := by
  cases l with
  | nil => rfl
  | cons a l => rw [fit, if_neg (Nat.not_lt.2 h)]

/-- What fits of the newer part is the newer part of what fits. -/
theorem fit_suffix_fit (h : l' <:+ l) : fit size budget l' <:+ fit size budget l := by
  induction l with
  | nil =>
    obtain rfl := List.suffix_nil.1 h
    exact List.suffix_refl _
  | cons a l ih =>
    rcases List.suffix_cons_iff.1 h with rfl | h'
    · exact List.suffix_refl _
    rw [fit]
    split
    · exact ih h'
    · exact fit_suffix.trans h

end Mach.Lib
