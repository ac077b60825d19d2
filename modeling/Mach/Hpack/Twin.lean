import Mach.Hpack.Codec
/-!
# Two decoders on one block

Two decoders whose limits were set differently hold different parts of one
history of insertions. They read a field alike unless it names an entry that
only one of them still holds.
-/

namespace Mach.Hpack
open Lib Headkit List

/-! ## What a representation asks of the decoder -/

/-- The index that a literal field names, if the field is there as a whole. -/
def literalName (bits : Nat) (b : List UInt8) : Option Nat :=
  match readInt bits b with
  | .error _ => none
  | .ok (n, b) =>
    match readString b with
    | .error _ => none
    | .ok _ => some n

/-- The index that the field at the front names, if the field is there as a whole. -/
def namedIndex (b : List UInt8) : Option Nat :=
  match b with
  | [] => none
  | c :: _ =>
    if c &&& 128 = 128 then
      match readInt 7 b with
      | .error _ => none
      | .ok (n, _) => some n
    else if c &&& 64 = 64 then if c != 64 then literalName 6 b else none
    else if c &&& 240 = 16 ∨ c &&& 240 = 0 then if c &&& 15 != 0 then literalName 4 b else none
    else none

/-- The size update at the front, and what is behind it. -/
def sizeUpdate (b : List UInt8) : Option (Nat × List UInt8) :=
  match b with
  | [] => none
  | c :: _ =>
    if c &&& 0xe0 = 0x20 then
      match readInt 5 b with
      | .error _ => none
      | .ok p => some p
    else none

namespace HPACK

def resize (hp : HPACK) (n : Nat) : HPACK := { hp with maxTableSize := n % 2 ^ 32 }.shrink

/-- `P` holds of two decoders at each representation that `Next` comes to. -/
def atNext (P : HPACK → HPACK → List UInt8 → Bool) : Nat → HPACK → HPACK → List UInt8 → Bool
  | fuel + 1, hp, hp', c :: rest =>
    P hp hp' (c :: rest) &&
      match sizeUpdate (c :: rest) with
      | none => true
      | some (n, b) =>
        if hp.tableSizeUpdateAllowed = false ∨ hp.maxCapacity < n then true
        else atNext P fuel (hp.resize n) (hp'.resize n) b
  | _, _, _, _ => true

/-- The field at the front names an entry that both decoders hold, or none of them. -/
def heldAlike (hp hp' : HPACK) (b : List UInt8) : Bool :=
  match namedIndex b with
  | none => true
  | some n => (hp.peek n).isSome == (hp'.peek n).isSome

/-- A size update stays within `limit`. -/
def withinLimit (limit : Nat) (b : List UInt8) : Bool :=
  match sizeUpdate b with
  | none => true
  | some (n, _) => n ≤ limit

/-! ## The history the tables share -/

/-- Two decoders with one history of insertions, both of a capacity of `limit` at least. -/
structure Twin (limit : Nat) (hp hp' : HPACK) : Prop where
  allowed : hp.tableSizeUpdateAllowed = hp'.tableSizeUpdateAllowed
  history : ∃ l, hp.dynamic <:+ l ∧ hp'.dynamic <:+ l
  capacity : limit ≤ hp.maxCapacity
  capacity' : limit ≤ hp'.maxCapacity

theorem shrinkLoop_suffix (max size : Nat) (l : List HeaderField) : (shrinkLoop max size l).2 <:+ l := by
  induction l generalizing size with
  | nil => exact suffix_refl []
  | cons hf l ih =>
    rw [shrinkLoop]
    split
    · exact (ih _).trans (suffix_cons hf l)
    · exact suffix_refl _

variable (hp : HPACK)

theorem shrink_suffix : hp.shrink.dynamic <:+ hp.dynamic :=
  shrinkLoop_suffix hp.maxTableSize hp.dynamicSize hp.dynamic

theorem resize_suffix (n : Nat) : (hp.resize n).dynamic <:+ hp.dynamic :=
  shrink_suffix { hp with maxTableSize := n % 2 ^ 32 }

theorem addDynamic_suffix (hf : HeaderField) : (hp.addDynamic hf).dynamic <:+ hp.dynamic ++ [hf.copy] := by
  unfold addDynamic
  split
  · exact nil_suffix
  · exact shrink_suffix _

theorem setMaxTableSize_suffix (size : Nat) : (hp.setMaxTableSize size).dynamic <:+ hp.dynamic := by
  unfold setMaxTableSize
  dsimp only
  split <;> split <;> split <;> first | exact suffix_refl _ | exact shrink_suffix _

theorem maxCapacity_setMaxTableSize (size : Nat) :
    hp.maxCapacity ≤ (hp.setMaxTableSize size).maxCapacity := by
  unfold setMaxTableSize
  dsimp only
  split <;> split <;> rename_i h <;> split <;> first | exact Nat.le_refl _ | exact Nat.le_of_lt h

theorem tableSizeUpdateAllowed_setMaxTableSize (size : Nat) :
    (hp.setMaxTableSize size).tableSizeUpdateAllowed = hp.tableSizeUpdateAllowed := by
  unfold setMaxTableSize
  dsimp only
  split <;> split <;> split <;> rfl

theorem maxCapacity_addDynamic (hf : HeaderField) : (hp.addDynamic hf).maxCapacity = hp.maxCapacity := by
  unfold addDynamic
  split <;> rfl

theorem tableSizeUpdateAllowed_addDynamic (hf : HeaderField) :
    (hp.addDynamic hf).tableSizeUpdateAllowed = hp.tableSizeUpdateAllowed := by
  unfold addDynamic
  split <;> rfl

namespace Twin

variable {limit : Nat} {hp hp' : HPACK}

section Tables

variable (h : Twin limit hp hp')
include h

/-- Tables may lose entries at their old end. -/
theorem of_suffix {hp1 hp1' : HPACK}
    (hallowed : hp1.tableSizeUpdateAllowed = hp1'.tableSizeUpdateAllowed)
    (hdyn : hp1.dynamic <:+ hp.dynamic) (hdyn' : hp1'.dynamic <:+ hp'.dynamic)
    (hcap : hp.maxCapacity ≤ hp1.maxCapacity) (hcap' : hp'.maxCapacity ≤ hp1'.maxCapacity) :
    Twin limit hp1 hp1' where
  allowed := hallowed
  history := by
    obtain ⟨l, hl, hl'⟩ := h.history
    exact ⟨l, hdyn.trans hl, hdyn'.trans hl'⟩
  capacity := h.capacity.trans hcap
  capacity' := h.capacity'.trans hcap'

theorem setMaxTableSize (size size' : Nat) :
    Twin limit (hp.setMaxTableSize size) (hp'.setMaxTableSize size') := by
  apply h.of_suffix
  · rw [tableSizeUpdateAllowed_setMaxTableSize, tableSizeUpdateAllowed_setMaxTableSize, h.allowed]
  · exact setMaxTableSize_suffix hp size
  · exact setMaxTableSize_suffix hp' size'
  · exact maxCapacity_setMaxTableSize hp size
  · exact maxCapacity_setMaxTableSize hp' size'

theorem resize (n : Nat) : Twin limit (hp.resize n) (hp'.resize n) :=
  h.of_suffix h.allowed (resize_suffix hp n) (resize_suffix hp' n) (Nat.le_refl _) (Nat.le_refl _)

theorem allow (b : Bool) :
    Twin limit { hp with tableSizeUpdateAllowed := b } { hp' with tableSizeUpdateAllowed := b } :=
  h.of_suffix rfl (suffix_refl _) (suffix_refl _) (Nat.le_refl _) (Nat.le_refl _)

theorem addDynamic (hf : HeaderField) :
    Twin limit (hp.addDynamic hf) (hp'.addDynamic hf) where
  allowed := by rw [tableSizeUpdateAllowed_addDynamic, tableSizeUpdateAllowed_addDynamic, h.allowed]
  history := by
    obtain ⟨l, hl, hl'⟩ := h.history
    have hcat : ∀ {d : List HeaderField}, d <:+ l → d ++ [hf.copy] <:+ l ++ [hf.copy] := by
      rintro d ⟨pre, rfl⟩
      exact ⟨pre, by rw [append_assoc]⟩
    exact ⟨l ++ [hf.copy], (addDynamic_suffix hp hf).trans (hcat hl), (addDynamic_suffix hp' hf).trans (hcat hl')⟩
  capacity := by rw [maxCapacity_addDynamic]; exact h.capacity
  capacity' := by rw [maxCapacity_addDynamic]; exact h.capacity'

theorem peek_eq {n : Nat} (hn : (hp.peek n).isSome = (hp'.peek n).isSome) :
    hp.peek n = hp'.peek n := by
  by_cases hlt : n < maxIndex
  · simp only [peek, if_pos hlt]
  · obtain ⟨i, rfl⟩ : ∃ i, n = maxIndex + i := ⟨n - maxIndex, by omega⟩
    rw [peek_dynamic, peek_dynamic] at hn ⊢
    obtain ⟨l, hl, hl'⟩ := h.history
    -- the newest entry comes first in the reversed tables, which are both prefixes of the reversed history
    have hpre := reverse_prefix.2 hl
    have hpre' := reverse_prefix.2 hl'
    cases hi : hp.dynamic.reverse[i]? with
    | none =>
      rw [hi, Option.isSome_none, eq_comm, Option.isSome_eq_false_iff, Option.isNone_iff_eq_none] at hn
      rw [hn]
    | some g =>
      rw [hi, Option.isSome_some, eq_comm, Option.isSome_iff_exists] at hn
      obtain ⟨g', hi'⟩ := hn
      have hget : ∀ {d : List HeaderField} {g}, d <+: l.reverse → d[i]? = some g → l.reverse[i]? = some g := by
        rintro d g ⟨t, ht⟩ hd
        rw [← ht, getElem?_append_left (List.getElem?_eq_some_iff.1 hd).1, hd]
      rw [hi', ← hget hpre hi, ← hget hpre' hi']

end Tables

end Twin

variable {c : UInt8} {rest : List UInt8}

/-! ## Reading a field

Which error a decoder reports is left out of the comparison: the connection treats them all alike. -/

variable {limit : Nat} {hp hp' : HPACK}

/-- Two results of which none or both are there if and only if `held`, and which are the same then. -/
structure Match {α : Type} (o o' : Option α) (held : Bool) : Prop where
  both : o.isSome = o'.isSome ↔ held = true
  same : held = true → o = o'

theorem Match.refl {α : Type} (o : Option α) : Match o o true := ⟨iff_of_true rfl rfl, fun _ => rfl⟩

theorem match_peek {α : Type} (h : Twin limit hp hp') (o : Option (Nat × (HeaderField → α))) :
    Match (o.bind fun p => (hp.peek p.1).map p.2) (o.bind fun p => (hp'.peek p.1).map p.2)
      (match o.map Prod.fst with
        | none => true
        | some n => (hp.peek n).isSome == (hp'.peek n).isSome) := by
  cases o with
  | none => exact .refl none
  | some p =>
    simp only [Option.bind_some, Option.map_some]
    constructor
    · rw [Option.isSome_map, Option.isSome_map, beq_iff_eq]
    · intro hsome
      rw [h.peek_eq (beq_iff_eq.1 hsome)]

/-- An indexed field as it stands in the block: its index, and what is made of the entry. -/
def indexedForm (b : List UInt8) : Option (Nat × (HeaderField → HeaderField × List UInt8)) :=
  (readInt 7 b).toOption.map fun p => (p.1, fun g => (g.copy, p.2))

theorem toOption_decodeIndexed (hp : HPACK) (b : List UInt8) :
    (hp.decodeIndexed b).toOption = (indexedForm b).bind fun p => (hp.peek p.1).map p.2 := by
  unfold decodeIndexed indexedForm
  cases readInt 7 b with
  | error e => rfl
  | ok p =>
    by_cases hn : p.1 = 0
    · simp [bind, Except.bind, throw, throwThe, MonadExceptOf.throw, Except.toOption, peek, maxIndex, hn]
    · cases hg : hp.peek p.1 <;>
        simp [bind, Except.bind, throw, throwThe, MonadExceptOf.throw, pure, Except.pure, Except.toOption, hn, hg]

/-- A literal field with the name of an entry. -/
def literalForm (hf : HeaderField) (bits : Nat) (b : List UInt8) :
    Option (Nat × (HeaderField → HeaderField × List UInt8)) :=
  (readInt bits b).toOption.bind fun p =>
    (readString p.2).toOption.map fun q => (p.1, fun g => ((hf.setKeyBytes g.key).setValueBytes q.1, q.2))

theorem toOption_decodeLiteral (hp : HPACK) (hf : HeaderField) (b : List UInt8) (bits : Nat)
    (notFound : Nat → DecodeError) :
    (hp.decodeLiteral hf b bits true notFound).toOption =
      (literalForm hf bits b).bind fun p => (hp.peek p.1).map p.2 := by
  unfold decodeLiteral literalForm
  cases readInt bits b with
  | error e => rfl
  | ok p =>
    cases hg : hp.peek p.1 with
    | none => cases hr : readString p.2 <;> simp [bind, Except.bind, throw, throwThe, MonadExceptOf.throw, Except.toOption, hg, hr]
    | some g => cases hr : readString p.2 <;> simp [bind, Except.bind, pure, Except.pure, Except.toOption, hg, hr]

theorem fst_literalForm (hf : HeaderField) (bits : Nat) (b : List UInt8) :
    (literalForm hf bits b).map Prod.fst = literalName bits b := by
  unfold literalForm literalName
  cases readInt bits b with
  | error e => rfl
  | ok p => cases hr : readString p.2 <;> simp [Except.toOption, hr]

/-- What two decoders of one history make of a representation: both or none read it if and only if `held`; they read
it alike then, and are of one history again. -/
structure Reads (limit : Nat) (r r' : HPACK × Except DecodeError (HeaderField × List UInt8)) (held : Bool) : Prop
    extends Match r.2.toOption r'.2.toOption held where
  twin : held = true → Twin limit r.1 r'.1

theorem sizeUpdate_bits : ∀ c : UInt8, c &&& 0xe0 = 0x20 →
    c &&& 128 ≠ 128 ∧ c &&& 64 ≠ 64 ∧ c &&& 240 ≠ 16 ∧ c &&& 240 ≠ 0 :=
  forall_byte (by decide +kernel)

theorem field_bits : ∀ c : UInt8, c &&& 0xe0 ≠ 0x20 → c &&& 128 ≠ 128 → c &&& 64 ≠ 64 → c &&& 240 ≠ 16 → c &&& 240 = 0 :=
  forall_byte (by decide +kernel)

theorem nextLoop_sizeUpdate (hp : HPACK) (hf : HeaderField) (fuel : Nat) (rest : List UInt8)
    (hc : c &&& 0xe0 = 0x20) :
    nextLoop (fuel + 1) hp hf (c :: rest) =
      if hp.tableSizeUpdateAllowed = false then (hp, .error .tableSizeUpdateNotAllowed)
      else match readInt 5 (c :: rest) with
        | .error e => (hp, .error e)
        | .ok (n, b) =>
          if hp.maxCapacity < n then (hp, .error .tableSizeLimitExceeded) else nextLoop fuel (hp.resize n) hf b := by
  obtain ⟨h1, h2, h3, h4⟩ := sizeUpdate_bits c hc
  simp only [nextLoop, if_neg h1, if_neg h2, if_neg h3, if_neg h4, if_pos hc]
  rfl

section Readings

variable (h : Twin limit hp hp')
include h

theorem reads_decodeIndexed (hc : c &&& 128 = 128) :
    Reads limit (hp, hp.decodeIndexed (c :: rest)) (hp', hp'.decodeIndexed (c :: rest))
      (heldAlike hp hp' (c :: rest)) where
  toMatch := by
    have hname : namedIndex (c :: rest) = (indexedForm (c :: rest)).map Prod.fst := by
      rw [namedIndex, if_pos hc, indexedForm]
      cases readInt 7 (c :: rest) <;> rfl
    rw [toOption_decodeIndexed, toOption_decodeIndexed, heldAlike, hname]
    exact match_peek h (indexedForm (c :: rest))
  twin _ := h

theorem match_decodeLiteral {c : UInt8} {rest : List UInt8} {bits : Nat} {indexed : Bool}
    (hf : HeaderField) (notFound : Nat → DecodeError)
    (hname : namedIndex (c :: rest) = if indexed then literalName bits (c :: rest) else none) :
    Match (hp.decodeLiteral hf (c :: rest) bits indexed notFound).toOption
      (hp'.decodeLiteral hf (c :: rest) bits indexed notFound).toOption (heldAlike hp hp' (c :: rest)) := by
  rw [heldAlike, hname]
  cases indexed with
  | false => exact .refl _
  | true =>
    rw [toOption_decodeLiteral, toOption_decodeLiteral, if_pos rfl, ← fst_literalForm hf]
    exact match_peek h (literalForm hf bits (c :: rest))

theorem reads_decodeLiteralNoIndex (hf : HeaderField)
    (h128 : c &&& 128 ≠ 128) (h64 : c &&& 64 ≠ 64) (hc : c &&& 240 = 16 ∨ c &&& 240 = 0) :
    Reads limit (hp, hp.decodeLiteralNoIndex hf (c :: rest)) (hp', hp'.decodeLiteralNoIndex hf (c :: rest))
      (heldAlike hp hp' (c :: rest)) where
  toMatch := by
    apply match_decodeLiteral h
    rw [namedIndex, if_neg h128, if_neg h64, if_pos hc]
    rfl
  twin _ := h

theorem reads_decodeLiteralIndexed (hf : HeaderField)
    (h128 : c &&& 128 ≠ 128) (hc : c &&& 64 = 64) :
    Reads limit (hp.decodeLiteralIndexed hf (c :: rest)) (hp'.decodeLiteralIndexed hf (c :: rest))
      (heldAlike hp hp' (c :: rest)) := by
  have hmatch := @match_decodeLiteral limit hp hp' h c rest 6 (c != 64) hf .literalIndexedNotFound
    (by rw [namedIndex, if_neg h128, if_pos hc])
  unfold decodeLiteralIndexed
  rw [headD_cons]
  generalize hp.decodeLiteral hf (c :: rest) 6 (c != 64) .literalIndexedNotFound = r at hmatch ⊢
  generalize hp'.decodeLiteral hf (c :: rest) 6 (c != 64) .literalIndexedNotFound = r' at hmatch ⊢
  refine ⟨?_, fun hheld => ?_⟩
  · cases r <;> cases r' <;> exact hmatch
  · have heq := hmatch.same hheld
    cases r with
    | error e =>
      cases r' with
      | error e' => exact h
      | ok p' => cases heq
    | ok p =>
      cases r' with
      | error e' => cases heq
      | ok p' =>
        obtain rfl : p = p' := Option.some.inj heq
        exact h.addDynamic p.1

theorem reads_error (e e' : DecodeError) :
    Reads limit (hp, .error e) (hp', .error e') true := ⟨.refl _, fun _ => h⟩

/-- `Next`, along the size updates it comes to: one within the limit is taken by both decoders. -/
theorem reads_nextLoop {fuel : Nat} (hf : HeaderField) (b : List UInt8)
    (hwithin : atNext (fun _ _ => withinLimit limit) fuel hp hp b = true) :
    Reads limit (nextLoop fuel hp hf b) (nextLoop fuel hp' hf b) (atNext heldAlike fuel hp hp' b) := by
  induction fuel generalizing hp hp' b with
  | zero => exact ⟨.refl _, fun _ => h⟩
  | succ fuel ih =>
    cases b with
    | nil => exact ⟨.refl _, fun _ => h⟩
    | cons c rest =>
      rw [atNext, Bool.and_eq_true] at hwithin
      obtain ⟨hlimit, hwithin⟩ := hwithin
      by_cases hc : c &&& 0xe0 = 0x20
      · have hheld : heldAlike hp hp' (c :: rest) = true := by
          obtain ⟨h1, h2, h3, h4⟩ := sizeUpdate_bits c hc
          rw [heldAlike, namedIndex, if_neg h1, if_neg h2, if_neg (not_or.2 ⟨h3, h4⟩)]
        rw [nextLoop_sizeUpdate hp hf fuel rest hc, nextLoop_sizeUpdate hp' hf fuel rest hc, atNext, hheld,
          Bool.true_and]
        simp only [withinLimit, sizeUpdate, if_pos hc] at hlimit hwithin ⊢
        by_cases hallowed : hp.tableSizeUpdateAllowed = false
        · rw [if_pos hallowed, if_pos (h.allowed ▸ hallowed)]
          cases readInt 5 (c :: rest) with
          | error e => exact reads_error h _ _
          | ok p => simpa only [hallowed, true_or, if_true] using reads_error h _ _
        · rw [if_neg hallowed, if_neg (h.allowed ▸ hallowed)]
          cases hr : readInt 5 (c :: rest) with
          | error e => exact reads_error h _ _
          | ok p =>
            have hcap := h.capacity
            have hcap' := h.capacity'
            simp only [hr, decide_eq_true_eq] at hlimit hwithin ⊢
            have hn : ¬ hp.maxCapacity < p.1 := by omega
            have hn' : ¬ hp'.maxCapacity < p.1 := by omega
            rw [if_neg (not_or.2 ⟨hallowed, hn⟩)] at hwithin ⊢
            rw [if_neg hn, if_neg hn']
            exact ih (h.resize p.1) p.2 hwithin
      · have hclosed := h.allow false
        have hupdate : sizeUpdate (c :: rest) = none := by rw [sizeUpdate, if_neg hc]
        rw [atNext, hupdate, Bool.and_true]
        simp only [nextLoop]
        split
        · exact reads_decodeIndexed hclosed ‹_›
        rename_i h1
        split
        · exact reads_decodeLiteralIndexed hclosed hf h1 ‹_›
        rename_i h2
        split
        · exact reads_decodeLiteralNoIndex hclosed _ h1 h2 (.inl ‹_›)
        rename_i h3
        have h4 := field_bits c hc h1 h2 h3
        rw [if_pos h4, if_pos h4]
        exact reads_decodeLiteralNoIndex hclosed hf h1 h2 (.inr h4)

end Readings

end HPACK

end Mach.Hpack
