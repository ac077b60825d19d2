import Mathlib.Data.List.Perm.Basic
/-!
# Maps as lists of pairs

A finite map as the list of its entries, in no particular order, when its values
are to be counted or collected. The keys are kept distinct by `put`.
-/

namespace Mach.Lib.Assoc
open List

variable {A B : Type} [DecidableEq A]

def find (a : A) : List (A × B) → Option B
  | [] => none
  | p :: l => if p.1 = a then some p.2 else find a l

def erase (a : A) (l : List (A × B)) : List (A × B) := l.filter (·.1 ≠ a)

def put (a : A) (b : B) (l : List (A × B)) : List (A × B) := (a, b) :: erase a l

def Distinct (l : List (A × B)) : Prop := (l.map Prod.fst).Nodup

variable {a : A} {l : List (A × B)}

-- The lemmas below share these equations.
attribute [local simp] find erase put in
theorem find_erase_ne {a' : A} (h : a' ≠ a) : find a' (erase a l) = find a' l := by
  induction l with
  | nil => rfl
  | cons p l ih =>
    by_cases hp : p.1 = a
    · rw [erase, filter_cons_of_neg (by simpa using hp), find, if_neg (by rw [hp]; exact h.symm)]
      exact ih
    · rw [erase, filter_cons_of_pos (by simpa using hp), find, find]
      split
      · rfl
      · exact ih

theorem find_put (a' : A) (b : B) : find a' (put a b l) = if a' = a then some b else find a' l := by
  by_cases h : a' = a
  · rw [put, find, if_pos h.symm, if_pos h]
  · rw [put, find, if_neg (Ne.symm h), if_neg h, find_erase_ne h]

theorem distinct_put (b : B) (h : Distinct l) : Distinct (put a b l) := by
  refine nodup_cons.2 ⟨?_, h.sublist (filter_sublist.map _)⟩
  intro hmem
  obtain ⟨p, hp, rfl⟩ := mem_map.1 hmem
  simpa using (mem_filter.1 hp).2

theorem erase_of_find_none (h : find a l = none) : erase a l = l := by
  refine filter_eq_self.2 ?_
  induction l with
  | nil => exact nofun
  | cons p l ih =>
    rw [find] at h
    split at h
    · cases h
    rename_i hp
    intro q hq
    rcases mem_cons.1 hq with rfl | hq
    · simpa using hp
    · exact ih h q hq

theorem perm_of_find {b : B} (hl : Distinct l) (h : find a l = some b) : l.Perm ((a, b) :: erase a l) := by
  induction l with
  | nil => cases h
  | cons p l ih =>
    obtain ⟨hp, hl⟩ := nodup_cons.1 hl
    rw [find] at h
    split at h
    · rename_i hpa
      cases h
      subst hpa
      have herase : erase p.1 l = l := by
        refine filter_eq_self.2 fun q hq => ?_
        simp only [ne_eq, decide_eq_true_eq]
        exact fun hqp => hp (mem_map.2 ⟨q, hq, hqp⟩)
      rw [erase, filter_cons_of_neg (by simp)]
      exact List.Perm.cons _ (by rw [show l.filter (·.1 ≠ p.1) = l from herase])
    · rename_i hpa
      rw [erase, filter_cons_of_pos (by simpa using hpa)]
      exact ((ih hl h).cons p).trans (List.Perm.swap _ _ _)

end Mach.Lib.Assoc
