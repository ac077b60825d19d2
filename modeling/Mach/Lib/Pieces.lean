import Mach.Lib.Slice
import Mathlib.Algebra.Order.BigOperators.Group.List
import Mathlib.Algebra.Order.Ring.Nat
/-!
# Pieces of a sequence, one after the other

A sequence is cut into pieces, each given by its offset and its length, and the
pieces are put together in the order in which they come, whatever their offsets
say. The result is a prefix of the sequence, for every sequence the pieces can be
cut from, exactly if every piece starts where the one before it ended.
-/

namespace Mach.Lib
open List

variable {α : Type}

/-- A piece has an offset and a length. -/
abbrev Pieces := List (Nat × Nat)

namespace Pieces

variable {t : Nat} {ps : Pieces}

def Within (s : List α) (ps : Pieces) : Prop := ∀ p ∈ ps, p.1 + p.2 ≤ s.length

/-- What the pieces hold, in the order of the list. -/
def join (s : List α) (ps : Pieces) : List α := ps.flatMap fun p => slice s p.1 p.2

/-- With `t` elements before them, every piece that is not empty starts where the
ones before it end. -/
def InOrder : Nat → Pieces → Prop
  | _, [] => True
  | t, p :: ps => (p.2 = 0 ∨ p.1 = t) ∧ InOrder (t + p.2) ps

instance instDecidableInOrder : ∀ (t : Nat) (ps : Pieces), Decidable (InOrder t ps)
  | _, [] => .isTrue trivial
  | t, p :: ps =>
    have := instDecidableInOrder (t + p.2) ps
    inferInstanceAs (Decidable ((p.2 = 0 ∨ p.1 = t) ∧ InOrder (t + p.2) ps))

theorem join_cons (s : List α) (p : Nat × Nat) (ps : Pieces) : join s (p :: ps) = slice s p.1 p.2 ++ join s ps := by
  simp [join]

/-- A piece that continues the sequence extends what is there. -/
theorem take_append_join_cons (s : List α) {p : Nat × Nat} (hp : p.2 = 0 ∨ p.1 = t) (ps : Pieces) :
    s.take t ++ join s (p :: ps) = s.take (t + p.2) ++ join s ps := by
  rw [join_cons, ← append_assoc]
  congr 1
  rcases hp with hp | rfl
  · simp [hp]
  · exact take_append_slice s p.1 p.2

theorem take_append_join_prefix (s : List α) (h : InOrder t ps) : s.take t ++ join s ps <+: s := by
  induction ps generalizing t with
  | nil => simpa [join] using take_prefix t s
  | cons p ps ih =>
    rw [take_append_join_cons s h.1]
    exact ih h.2

/-- Pieces out of order put an element where a different position's belongs. -/
theorem exists_misplaced (h : ¬ InOrder t ps) :
    ∃ o, ∀ s : List α, Within s ps → t ≤ s.length → s.take t ++ join s ps <+: s →
      o < s.length ∧ ∃ k, k ≠ o ∧ s[k]? = s[o]? := by
  induction ps generalizing t with
  | nil => exact absurd trivial h
  | cons p ps ih =>
    by_cases hp : p.2 = 0 ∨ p.1 = t
    · obtain ⟨o, ho⟩ := ih fun h' => h ⟨hp, h'⟩
      refine ⟨o, fun s hs ht hpre => ho s (fun q hq => hs q (mem_cons_of_mem _ hq)) ?_ ?_⟩
      · have := hs p mem_cons_self
        omega
      · rwa [take_append_join_cons s hp] at hpre
    · -- The first element of the piece lands on position `t`, its own position is `p.1`.
      rw [not_or] at hp
      refine ⟨p.1, fun s hs ht hpre => ?_⟩
      have hin := hs p mem_cons_self
      refine ⟨by omega, t, Ne.symm hp.2, ?_⟩
      obtain ⟨rest, hrest⟩ := hpre
      have hlen : (s.take t).length = t := by simp; omega
      have hhead : (slice s p.1 p.2)[0]? = s[p.1]? := by rw [slice_get?, if_pos (by omega), Nat.add_zero]
      conv_lhs => rw [← hrest]
      rw [join_cons, append_assoc, append_assoc, getElem?_append_right (by omega), hlen, Nat.sub_self,
        getElem?_append_left (by rw [length_slice hin]; omega), hhead]

/-- A sequence that is at least this long has room for the pieces. -/
def extent (ps : Pieces) : Nat := (ps.map fun p => p.1 + p.2).sum

theorem within_of_extent {s : List α} (h : extent ps ≤ s.length) : Within s ps := by
  intro p hp
  have hmem : p.1 + p.2 ∈ ps.map fun p => p.1 + p.2 := mem_map.2 ⟨p, hp, rfl⟩
  exact Nat.le_trans (le_sum_of_mem hmem) h

/-- `n` elements: `a` at one position and `b` at all others. -/
def marked (n o : Nat) (a b : α) : List α := (List.range n).map fun i => if i = o then a else b

theorem length_marked (n o : Nat) (a b : α) : (marked n o a b).length = n := by simp [marked]

theorem marked_ne {n o k : Nat} {a b : α} (hab : a ≠ b) (ho : o < n) (hk : k ≠ o) :
    (marked n o a b)[k]? ≠ (marked n o a b)[o]? := by
  simp only [marked, getElem?_map, getElem?_range ho, Option.map_some, if_true]
  by_cases hkn : k < n
  · simpa only [getElem?_range hkn, Option.map_some, if_neg hk, ne_eq, Option.some.injEq] using Ne.symm hab
  · rw [getElem?_eq_none (by simpa using hkn)]
    simp

/-- The pieces can be put together as they come, whatever the sequence, exactly if
they come in order. -/
theorem forall_join_prefix_iff [Nontrivial α] (ps : Pieces) :
    (∀ s : List α, Within s ps → join s ps <+: s) ↔ InOrder 0 ps := by
  constructor
  · intro h
    by_contra hn
    obtain ⟨a, b, hab⟩ := exists_pair_ne α
    obtain ⟨o, ho⟩ := exists_misplaced hn
    have hin : Within (marked (extent ps) o a b) ps := within_of_extent (length_marked ..).ge
    obtain ⟨hlt, k, hk, heq⟩ := ho _ hin (Nat.zero_le _) (by simpa using h _ hin)
    rw [length_marked] at hlt
    exact marked_ne hab hlt hk heq
  · intro h s _
    simpa using take_append_join_prefix s h

end Pieces

end Mach.Lib
