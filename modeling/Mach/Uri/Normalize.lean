import Mach.Uri.Parse
/-!
# Normal paths

`NormalizePath` goes over the decoded path four times, each time for another
pattern. What its loops do to the bytes is said of the segments here: the slashes
that repeat go first, then the segments that stay in place, then those that go up
with what they undo, and no loop brings back what one before has removed.
-/

namespace Mach.Uri
open Lib.Http1 Headkit List

/-- The path in the buffer of the caller, of which the octets before are given up. -/
def normalizePathInto (dst src : List UInt8) : List UInt8 := dst.take 0 ++ normalizePath src

/-- A segment taken up by those kept so far. -/
def resolveSegment (kept : List (List UInt8)) (s : List UInt8) : List (List UInt8) :=
  if s = [] ∨ s = ascii "." then kept else if s = ascii ".." then kept.dropLast else kept ++ [s]

def resolve (segs : List (List UInt8)) : List (List UInt8) := segs.foldl resolveSegment []

structure Normal (r : List (List UInt8)) (b : List UInt8) : Prop where
  rooted : b.head? = some 47
  single : ¬ ascii "//" <:+: b
  noUp : ascii ".." ∉ b.splitOn 47
  segments : (b.splitOn 47).filter (fun s => s ≠ [] ∧ s ≠ ascii ".") = r

variable {b b' p q t : List UInt8} {segs gone r : List (List UInt8)}

/-- Where nothing goes up, all is kept that stands for something. -/
theorem foldl_resolveSegment (h : ascii ".." ∉ segs) (kept : List (List UInt8)) :
    segs.foldl resolveSegment kept = kept ++ segs.filter fun s => s ≠ [] ∧ s ≠ ascii "." := by
  induction segs generalizing kept with
  | nil => simp
  | cons s l ih =>
    rw [mem_cons, not_or] at h
    rw [foldl_cons, ih h.2, resolveSegment, if_neg (Ne.symm h.1)]
    by_cases hs : s = [] ∨ s = ascii "."
    · rw [if_pos hs, filter_cons_of_neg (by simpa [← not_or] using hs)]
    · rw [if_neg hs, filter_cons_of_pos (by simpa [← not_or] using hs), append_assoc, singleton_append]

/-! ## Places between slashes -/

theorem splitOn_segment (ht : 47 ∉ t) (q : List UInt8) : (t ++ 47 :: q).splitOn 47 = t :: q.splitOn 47 := by
  rw [splitOn_append_cons_self, splitOn_eq_singleton ht, singleton_append]

theorem splitOn_slash (b : List UInt8) : (47 :: b).splitOn 47 = [] :: b.splitOn 47 := splitOn_append_cons_self [] b

theorem splitOn_left (h : (p ++ 47 :: q).splitOn 47 = [] :: segs) :
    ∃ l, p.splitOn 47 = [] :: l ∧ segs = l ++ q.splitOn 47 := by
  obtain ⟨x, l, hp⟩ := exists_cons_of_ne_nil (splitOn_ne_nil 47 p)
  rw [splitOn_append_cons_self, hp, cons_append, cons.injEq] at h
  exact ⟨l, h.1 ▸ hp, h.2.symm⟩

/-- Segments on both sides of a place have a slash between them. -/
theorem exists_of_splitOn {pre post : List (List UInt8)} (h : b.splitOn 47 = pre ++ post) (hpre : pre ≠ [])
    (hpost : post ≠ []) : ∃ p, b = p ++ 47 :: [47].intercalate post := by
  rw [← @intercalate_splitOn _ b _ _ 47, h]
  clear h
  induction pre with
  | nil => exact absurd rfl hpre
  | cons s l ih =>
    rw [cons_append, intercalate_cons_of_ne_nil (by simp [hpost])]
    by_cases hl : l = []
    · exact ⟨s, by simp [hl]⟩
    · obtain ⟨p, heq⟩ := ih hl
      exact ⟨s ++ 47 :: p, by rw [heq]; simp⟩

theorem lastSlash_cases (p : List UInt8) : (47 ∉ p ∧ lastSlash p = none) ∨
    ∃ p' x, p = p' ++ 47 :: x ∧ 47 ∉ x ∧ lastSlash p = some p'.length := by
  by_cases h : 47 ∈ p
  · obtain ⟨x, p', heq, hx⟩ := eq_append_cons_of_mem (mem_reverse.mpr h)
    have hall : ∀ c ∈ x, decide (c ≠ 47) = true := by
      intro c hc
      simpa using fun h : c = 47 => hx (h ▸ hc)
    have hpost : p.reverse.takeWhile (· ≠ 47) = x := by
      rw [heq, takeWhile_append_of_pos hall]
      simp
    obtain rfl : p = p'.reverse ++ 47 :: x.reverse := by
      rw [← reverse_reverse p, heq]
      simp
    refine .inr ⟨p'.reverse, x.reverse, rfl, by simpa using hx, ?_⟩
    simp only [lastSlash, cutLast, hpost, if_pos h]
    simp
    omega
  · exact .inl ⟨h, by simp [lastSlash, cutLast, h]⟩

/-! ## The loops -/

/-- A path that stands for the segments `r`. What is `gone` is so but for the last segment. -/
def Spells (gone r : List (List UInt8)) (b : List UInt8) : Prop :=
  ∃ segs, b.splitOn 47 = [] :: segs ∧ segs ≠ [] ∧ (∀ x ∈ gone, x ∉ segs.dropLast) ∧ resolve segs = r

theorem repeatedly_spec {f : List UInt8 → Option (List UInt8)} {P : List UInt8 → Prop}
    (hstep : ∀ b b', P b → f b = some b' → P b' ∧ b'.length < b.length) :
    ∀ n b, b.length ≤ n → P b → P (repeatedly f n b) ∧ f (repeatedly f n b) = none := by
  intro n
  induction n with
  | zero =>
    intro b hlen hb
    refine ⟨hb, Option.eq_none_iff_forall_ne_some.mpr ?_⟩
    intro b' hb'
    have := (hstep b b' hb hb').2
    omega
  | succ n ih =>
    intro b hlen hb
    rw [repeatedly]
    cases hf : f b with
    | none => exact ⟨hb, hf⟩
    | some b' =>
      obtain ⟨hb', hlt⟩ := hstep b b' hb hf
      exact ih b' (by omega) hb'

theorem Spells.without (hb : Spells gone r b) (h : ¬ 47 :: (t ++ [47]) <:+: b) : Spells (t :: gone) r b := by
  obtain ⟨segs, hsegs, hne, hgone, hr⟩ := hb
  refine ⟨segs, hsegs, hne, forall_mem_cons.mpr ⟨fun hmem => h ?_, hgone⟩, hr⟩
  obtain ⟨pre, post, hsplit⟩ := append_of_mem hmem
  rw [← dropLast_append_getLast hne, hsplit, append_assoc, ← cons_append] at hsegs
  obtain ⟨p, rfl⟩ := exists_of_splitOn hsegs (cons_ne_nil _ _) (by simp)
  rw [cons_append, intercalate_cons_of_ne_nil (by simp)]
  exact ⟨p, _, by simp; rfl⟩

theorem Spells.parts (ht : 47 ∉ t) (h : Spells gone r (p ++ 47 :: (t ++ 47 :: q))) :
    t ∉ gone ∧ ∃ l, p.splitOn 47 = [] :: l ∧ (∀ x ∈ gone, x ∉ l ∧ x ∉ (q.splitOn 47).dropLast) ∧
      resolve (l ++ t :: q.splitOn 47) = r := by
  obtain ⟨segs, hsegs, -, hgone, hr⟩ := h
  obtain ⟨l, hp, rfl⟩ := splitOn_left hsegs
  rw [splitOn_segment ht] at hgone hr
  simp only [dropLast_append_of_ne_nil (cons_ne_nil _ _), dropLast_cons_of_ne_nil (splitOn_ne_nil 47 q), mem_append,
    mem_cons, not_or] at hgone
  exact ⟨fun h => (hgone t h).2.1 rfl, l, hp, fun x hx => ⟨(hgone x hx).1, (hgone x hx).2.2⟩, hr⟩

theorem Spells.cut {l l' : List (List UInt8)} (hp : p.splitOn 47 = [] :: l') (hsub : l' ⊆ l)
    (hgone : ∀ x ∈ gone, x ∉ l ∧ x ∉ (q.splitOn 47).dropLast) (hr : resolve l' = resolveSegment (resolve l) t) :
    Spells gone (resolve (l ++ t :: q.splitOn 47)) (p ++ 47 :: q) := by
  refine ⟨l' ++ q.splitOn 47, by rw [splitOn_append_cons_self, hp, cons_append], by simp [splitOn_ne_nil], ?_, ?_⟩
  · intro x hx hmem
    rw [dropLast_append_of_ne_nil (splitOn_ne_nil 47 q), mem_append] at hmem
    exact hmem.elim (fun h => (hgone x hx).1 (hsub h)) (hgone x hx).2
  · simp only [resolve, foldl_append, foldl_cons] at hr ⊢
    rw [hr]

theorem Spells.up {l : List (List UInt8)} (hp : p.splitOn 47 = [] :: l) (hup : l.getLast? ≠ some (ascii ".."))
    (hdot : ascii "." ∉ l) (hempty : [] ∉ l) (hgone : ∀ x ∈ gone, x ∉ l ∧ x ∉ (q.splitOn 47).dropLast) :
    Spells gone (resolve (l ++ ascii ".." :: q.splitOn 47)) (p.take ((lastSlash p).getD 0) ++ 47 :: q) := by
  obtain ⟨hno, hlast⟩ | ⟨p', x, rfl, hx, hlast⟩ := lastSlash_cases p
  · rw [splitOn_eq_singleton hno, cons.injEq] at hp
    obtain ⟨rfl, rfl⟩ := hp
    exact Spells.cut (splitOn_eq_singleton not_mem_nil) (Subset.refl []) hgone rfl
  · obtain ⟨l', hp', rfl⟩ := splitOn_left hp
    rw [splitOn_eq_singleton hx] at *
    have hkept : ∀ kept, resolveSegment kept x = kept ++ [x] := by
      intro kept
      rw [resolveSegment, if_neg, if_neg]
      · rintro rfl
        simp at hup
      · rintro (rfl | rfl)
        · simp at hempty
        · simp at hdot
    rw [hlast, Option.getD_some, take_left]
    refine Spells.cut hp' (subset_append_left l' [x]) hgone ?_
    rw [resolve, resolve, foldl_append, foldl_cons, foldl_nil, hkept]
    simp [resolveSegment, ascii]

theorem removeDot_spells (b b' : List UInt8) (hb : Spells gone r b) (h : removeDot b = some b') :
    Spells gone r b' ∧ b'.length < b.length := by
  obtain ⟨n, hn, rfl⟩ := Option.map_eq_some_iff.mp h
  obtain ⟨⟨p, q, rfl, rfl⟩, -⟩ := index_some hn
  have hcut : (p ++ (ascii "/./" ++ q)).take p.length ++ (p ++ (ascii "/./" ++ q)).drop (p.length + 2) =
      p ++ 47 :: q := by
    simp [← drop_drop, ascii]
  obtain ⟨-, l, hl, hgone, rfl⟩ := Spells.parts (t := ascii ".") (by decide) hb
  rw [hcut]
  exact ⟨Spells.cut hl (Subset.refl l) hgone (by simp [resolveSegment]), by simp [ascii]⟩

theorem removeDotDot_spells (b b' : List UInt8) (hb : Spells [ascii ".", []] r b) (h : removeDotDot b = some b') :
    Spells [ascii ".", []] r b' ∧ b'.length < b.length := by
  obtain ⟨n, hn, rfl⟩ := Option.map_eq_some_iff.mp h
  obtain ⟨⟨p, q, rfl, rfl⟩, hfirst⟩ := index_some hn
  have hdrop : (p ++ (ascii "/../" ++ q)).drop (p.length + 3) = 47 :: q := by
    simp [← drop_drop, ascii]
  have htake : (p ++ (ascii "/../" ++ q)).take ((lastSlash p).getD 0) = p.take ((lastSlash p).getD 0) := by
    obtain ⟨-, hlast⟩ | ⟨p', x, rfl, -, hlast⟩ := lastSlash_cases p <;> simp [hlast, take_append]
  rw [take_left, hdrop, htake]
  obtain ⟨-, l, hl, hgone, rfl⟩ := Spells.parts (t := ascii "..") (by decide) hb
  refine ⟨Spells.up hl (fun hmem => ?_) (hgone _ (by simp)).1 (hgone _ (by simp)).1 hgone, ?_⟩
  · -- it would have been found first
    obtain ⟨l', rfl⟩ := getLast?_eq_some_iff.mp hmem
    rw [← cons_append] at hl
    obtain ⟨p', rfl⟩ := exists_of_splitOn hl (cons_ne_nil _ _) (cons_ne_nil _ _)
    have := hfirst p' (ascii "../" ++ q) (by simp [ascii])
    simp at this
  · simp [ascii]
    omega

/-- An empty segment is left at the end only, and what the others stand for is not changed. -/
theorem removeDuplicateSlashes_spells (b : List UInt8) : (removeDuplicateSlashes b).head? = b.head? ∧
    ¬ ascii "//" <:+: removeDuplicateSlashes b ∧ ∃ x l l', (removeDuplicateSlashes b).splitOn 47 = x :: l ∧
      b.splitOn 47 = x :: l' ∧ ∀ kept, l.foldl resolveSegment kept = l'.foldl resolveSegment kept := by
  induction b with
  | nil => exact ⟨rfl, by decide, [], [], [], rfl, rfl, fun _ => rfl⟩
  | cons c b ih =>
    obtain ⟨hhead, hsingle, x, l, l', hx, hx', hfold⟩ := ih
    rw [removeDuplicateSlashes, splitOn_cons_eq_if_modifyHead, hx']
    split
    · rename_i h
      obtain ⟨rfl, hb⟩ := h
      obtain ⟨b, rfl⟩ := head?_eq_some_iff.mp hb
      rw [splitOn_slash, cons.injEq] at hx'
      obtain ⟨rfl, -⟩ := hx'
      exact ⟨hhead, hsingle, [], l, [] :: l', hx, rfl, hfold⟩
    · rename_i h
      refine ⟨rfl, ?_, ?_⟩
      · rw [infix_cons_iff, not_or]
        refine ⟨fun hpre => h ?_, hsingle⟩
        obtain ⟨q, hq⟩ := hpre
        obtain ⟨hc, hb⟩ := cons.inj hq
        exact ⟨hc.symm, by rw [← hhead, ← hb]; rfl⟩
      · rw [splitOn_cons_eq_if_modifyHead, hx]
        by_cases hc : c = 47
        · exact ⟨[], x :: l, x :: l', by simp [hc], by simp [hc], fun kept => hfold _⟩
        · exact ⟨c :: x, l, l', by simp [hc], by simp [hc], hfold⟩

/-! ## The whole -/

theorem Spells.normal (h : Spells [ascii "..", ascii ".", []] r b) (hend : ¬ ascii "/.." <:+ b) : Normal r b := by
  obtain ⟨segs, hsegs, hne, hgone, rfl⟩ := id h
  have hup : ascii ".." ∉ segs := by
    rw [← dropLast_append_getLast hne, mem_append, mem_singleton]
    rintro (hmem | hlast)
    · exact hgone _ mem_cons_self hmem
    · rw [← dropLast_append_getLast hne, ← cons_append, ← hlast] at hsegs
      obtain ⟨p, rfl⟩ := exists_of_splitOn hsegs (cons_ne_nil _ _) (cons_ne_nil _ _)
      exact hend ⟨p, by simp [ascii]⟩
  refine ⟨?_, ?_, by simpa [hsegs, ascii] using hup, by rw [hsegs, resolve, foldl_resolveSegment hup]; rfl⟩
  · rw [← @intercalate_splitOn _ b _ _ 47, hsegs, intercalate_cons_of_ne_nil hne]
    rfl
  · rintro ⟨p, q, rfl⟩
    rw [append_assoc] at h
    exact (Spells.parts (t := []) not_mem_nil h).1 (by simp)

theorem finish_normal (hb : Spells [ascii "..", ascii ".", []] r b) :
    Normal r (if (ascii "/..").isSuffixOf b then
      match lastSlash (b.take (b.length - 3)) with
      | none => [47]
      | some n => b.take (n + 1)
    else b) := by
  split
  · rename_i hend
    obtain ⟨p, rfl⟩ := isSuffixOf_iff_suffix.mp hend
    obtain ⟨segs, hsegs, -, hgone, rfl⟩ := hb
    obtain ⟨l, hp, rfl⟩ := splitOn_left (q := ascii "..") hsegs
    rw [splitOn_eq_singleton (by decide)] at hgone ⊢
    rw [dropLast_concat] at hgone
    have hpath : (match lastSlash ((p ++ ascii "/..").take ((p ++ ascii "/..").length - 3)) with
        | none => [47]
        | some n => (p ++ ascii "/..").take (n + 1)) = p.take ((lastSlash p).getD 0) ++ [47] := by
      rw [length_append, show (ascii "/..").length = 3 from rfl, Nat.add_sub_cancel, take_left]
      obtain ⟨-, hlast⟩ | ⟨p', x, rfl, -, hlast⟩ := lastSlash_cases p <;> simp [hlast, take_append, take_of_length_le]
    have hspell := Spells.up (q := []) hp (fun h => hgone _ (by simp) (mem_of_getLast? h)) (hgone _ (by simp))
      (hgone _ (by simp)) fun x hx => ⟨hgone x hx, by simp⟩
    rw [hpath, show resolve (l ++ [ascii ".."]) = resolve (l ++ ascii ".." :: splitOn 47 []) by
      simp [resolve, resolveSegment]]
    refine hspell.normal fun ⟨u, hu⟩ => ?_
    simpa [ascii] using congrArg getLast? hu
  · rename_i hend
    exact hb.normal (mt isSuffixOf_iff_suffix.mpr hend)

theorem decode_rooted (src : List UInt8) : ∃ b,
    (if src.head? = some 47 then [] else [47]) ++ decodeArgAppendNoPlus src = 47 :: b ∧
      resolve ((47 :: b).splitOn 47) = resolve ((decodeArgAppendNoPlus src).splitOn 47) := by
  by_cases h : src.head? = some 47
  · obtain ⟨s, rfl⟩ := head?_eq_some_iff.mp h
    obtain ⟨b, hb⟩ : ∃ b, decodeArgAppendNoPlus (47 :: s) = 47 :: b := by
      rw [decodeArgAppendNoPlus.eq_def]
      split <;> simp_all
    exact ⟨b, by rw [if_pos h, hb]; rfl, by rw [hb]⟩
  · refine ⟨decodeArgAppendNoPlus src, by rw [if_neg h]; rfl, ?_⟩
    rw [splitOn_slash]
    rfl

end Mach.Uri
