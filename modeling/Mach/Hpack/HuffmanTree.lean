import Mach.Hpack.Huffman
import Mach.Lib.Bits
import Mathlib.Data.List.Pairwise
/-!
# The Huffman code is a prefix code, and the tree finds its codes

The codes of the table are disjoint intervals of 30-bit numbers, so that none
begins another. The tree that `huffmanNode.add` builds has a leaf for a node
and a byte exactly where the bits on the way end a code, and a further node
exactly where they are the beginning of one.
-/

namespace Mach.Hpack

open Lib List

def codeBits (b : UInt8) : List Bool := bits (codeLenOf b) (codeOf b)

@[simp] theorem length_codeBits (b : UInt8) : (codeBits b).length = codeLenOf b := length_bits _ _

/-! ## The table -/

structure CodeEntry where
  sym : Nat
  code : Nat
  length : Nat

namespace CodeEntry

/-- A code has 5 to 30 bits and is not all ones. -/
def Sound (e : CodeEntry) : Prop := 5 ≤ e.length ∧ e.length ≤ 30 ∧ e.code + 1 < 2 ^ e.length

instance (e : CodeEntry) : Decidable e.Sound := inferInstanceAs (Decidable (_ ∧ _))

/-- The first of the 30-bit numbers that begin with the code. -/
def first (e : CodeEntry) : Nat := e.code <<< (30 - e.length)

/-- The first number after those. -/
def limit (e : CodeEntry) : Nat := (e.code + 1) <<< (30 - e.length)

end CodeEntry

variable {e : CodeEntry} {p : List UInt8} {b s : UInt8}
  {f : CodeEntry} {l : List Bool} {length : Nat} {t : Tree} {syms : List UInt8}

def codeEntries : List CodeEntry :=
  (List.range 256).zipWith (fun s (p : Nat × Nat) => ⟨s, p.1, p.2⟩) (huffmanCodes.zip huffmanCodeLen)

/-- Shorter codes come before longer ones, which is also their order as numbers. -/
def entriesByLength : List CodeEntry := (List.range 31).flatMap fun n => codeEntries.filter (·.length == n)

theorem tables_sound : (∀ e ∈ codeEntries, e.Sound ∧ false ∈ bits e.length e.code) ∧
    (entriesByLength.IsChain fun e f => e.limit ≤ f.first) ∧
    huffmanCodes.length = 256 ∧ huffmanCodeLen.length = 256 := by decide +kernel

theorem codeEntry_mem (b : UInt8) : ⟨b.toNat, codeOf b, codeLenOf b⟩ ∈ codeEntries := by
  have hb : b.toNat < 256 := b.toNat_lt
  obtain ⟨hcodes, hlens⟩ := tables_sound.2.2
  refine mem_iff_getElem.2 ⟨b.toNat, by simp [codeEntries, hcodes, hlens, hb], ?_⟩
  simp [codeEntries, codeOf, codeLenOf, hcodes, hlens, hb]

theorem exists_symbol (h : e ∈ codeEntries) : ∃ s, codeOf s = e.code ∧ codeLenOf s = e.length := by
  obtain ⟨hcodes, hlens⟩ := tables_sound.2.2
  obtain ⟨i, hi, rfl⟩ := mem_iff_getElem.1 h
  have hi : i < 256 := by simpa [codeEntries, hcodes, hlens] using hi
  exact ⟨.ofNat i, by simp [codeEntries, codeOf, codeLenOf, hcodes, hlens, hi, Nat.mod_eq_of_lt hi]⟩

theorem sound_code (b : UInt8) : 5 ≤ codeLenOf b ∧ codeLenOf b ≤ 30 ∧ codeOf b + 1 < 2 ^ codeLenOf b :=
  (tables_sound.1 _ (codeEntry_mem b)).1

theorem codeOf_lt (b : UInt8) : codeOf b < 2 ^ codeLenOf b := by
  have h := (sound_code b).2.2
  omega

theorem mem_entriesByLength (h : e ∈ codeEntries) : e ∈ entriesByLength := by
  have hlen := (tables_sound.1 e h).1.2.1
  apply mem_flatMap.2
  exact ⟨e.length, mem_range.2 (by omega), mem_filter.2 ⟨h, by simp⟩⟩

theorem CodeEntry.first_lt_limit (e : CodeEntry) : e.first < e.limit := by
  rw [first, limit, Nat.shiftLeft_eq, Nat.shiftLeft_eq]
  exact Nat.mul_lt_mul_of_pos_right (Nat.lt_succ_self _) (Nat.two_pow_pos _)

theorem entries_apart (he : e ∈ codeEntries) (hf : f ∈ codeEntries) (hne : e ≠ f) :
    e.limit ≤ f.first ∨ f.limit ≤ e.first := by
  have htrans : IsTrans CodeEntry fun e f => e.limit ≤ f.first :=
    ⟨fun a b c hab hbc => Nat.le_trans hab (Nat.le_trans (Nat.le_of_lt b.first_lt_limit) hbc)⟩
  have hpair := tables_sound.2.1.pairwise
  have hor : entriesByLength.Pairwise fun e f => e.limit ≤ f.first ∨ f.limit ≤ e.first := hpair.imp Or.inl
  have hsymm : Std.Symm fun e f : CodeEntry => e.limit ≤ f.first ∨ f.limit ≤ e.first := ⟨fun _ _ h => h.symm⟩
  exact hor.forall (mem_entriesByLength he) (mem_entriesByLength hf) hne

theorem CodeEntry.first_mem_of_shiftRight (hef : e.length ≤ f.length) (hf : f.length ≤ 30)
    (h : f.code >>> (f.length - e.length) = e.code) : e.first ≤ f.first ∧ f.first < e.limit := by
  have hpow : 2 ^ (30 - e.length) = 2 ^ (f.length - e.length) * 2 ^ (30 - f.length) := by
    rw [← Nat.pow_add]
    congr 1
    omega
  rw [Nat.shiftRight_eq_div_pow] at h
  have hlow : e.code * 2 ^ (f.length - e.length) ≤ f.code := by
    rw [← h]
    exact Nat.div_mul_le_self _ _
  have hhigh : f.code < (e.code + 1) * 2 ^ (f.length - e.length) := by
    rw [← h]
    exact Nat.lt_mul_of_div_lt (Nat.lt_succ_self _) (Nat.two_pow_pos _)
  rw [first, first, limit, Nat.shiftLeft_eq, Nat.shiftLeft_eq, Nat.shiftLeft_eq, hpow, ← Nat.mul_assoc, ← Nat.mul_assoc]
  constructor
  · exact Nat.mul_le_mul_right _ hlow
  · exact Nat.mul_lt_mul_of_pos_right hhigh (Nat.two_pow_pos _)

theorem prefixFree_codeBits : PrefixFree codeBits := by
  intro s t h
  by_contra hne
  obtain ⟨hlen, hshift⟩ := shiftRight_of_bits_prefix (codeOf_lt s) (codeOf_lt t) h
  have hmeet := CodeEntry.first_mem_of_shiftRight (e := ⟨s.toNat, codeOf s, codeLenOf s⟩)
    (f := ⟨t.toNat, codeOf t, codeLenOf t⟩) hlen (sound_code t).2.1 hshift
  have hsym : (⟨s.toNat, codeOf s, codeLenOf s⟩ : CodeEntry) ≠ ⟨t.toNat, codeOf t, codeLenOf t⟩ := by
    intro heq
    exact hne (UInt8.toNat_inj.1 (congrArg CodeEntry.sym heq))
  have hlimit := (⟨t.toNat, codeOf t, codeLenOf t⟩ : CodeEntry).first_lt_limit
  rcases entries_apart (codeEntry_mem s) (codeEntry_mem t) hsym with happ | happ <;> omega

theorem notOnes_codeBits : NotOnes codeBits := fun s => (tables_sound.1 _ (codeEntry_mem s)).2

/-! ## The tree -/

/-- The string `l` ends within the byte `b` after the bytes `p`. -/
def Ends (l : List Bool) (p : List UInt8) (b : UInt8) : Prop := l <+: bytesBits (p ++ [b]) ∧ 8 * p.length < l.length

/-- The string `l` begins with the bytes `p` and `b` and goes on. -/
def Passes (l : List Bool) (p : List UInt8) (b : UInt8) : Prop :=
  bytesBits (p ++ [b]) <+: l ∧ 8 * p.length + 8 < l.length

theorem Ends.length_le (h : Ends l p b) : l.length ≤ 8 * p.length + 8 := by
  have := h.1.length_le
  simp only [length_bytesBits, length_append, length_singleton] at this
  omega

/-- Two byte strings of one length that begin the same bits are one. -/
theorem eq_of_bytesBits_prefix {q : List UInt8} (hlen : p.length = q.length)
    (hp : bytesBits p <+: l) (hq : bytesBits q <+: l) : p = q := by
  apply bytesBits_inj
  exact (prefix_of_prefix_length_le hp hq (by simp [hlen])).eq_of_length (by simp [hlen])

/-- The bytes between `start` and `start + end` are those that begin with the bits that are left. -/
theorem bits_prefix_byteBits_iff (hle : length ≤ 8) (code : Nat) (b : UInt8) :
    bits length code <+: byteBits b ↔
      (byte (code <<< (8 - length))).toNat ≤ b.toNat ∧
        b.toNat < (byte (code <<< (8 - length))).toNat + 2 ^ (8 - length) := by
  have hsum : length + (8 - length) = 8 := by omega
  have hpow : 256 = 2 ^ length * 2 ^ (8 - length) := by rw [← Nat.pow_add, hsum]
  have hstart : (byte (code <<< (8 - length))).toNat = code % 2 ^ length * 2 ^ (8 - length) := by
    rw [byte_toNat, Nat.shiftLeft_eq, hpow, Nat.mul_mod_mul_right]
  have hquot : b.toNat / 2 ^ (8 - length) < 2 ^ length := by
    apply Nat.div_lt_of_lt_mul
    rw [Nat.mul_comm, ← hpow]
    exact b.toNat_lt
  have hsplit : byteBits b = bits length (b.toNat >>> (8 - length)) ++ bits (8 - length) b.toNat := by
    rw [byteBits, ← bits_add, hsum]
  have hbits : bits length code <+: byteBits b ↔ code % 2 ^ length = b.toNat / 2 ^ (8 - length) := by
    rw [hsplit, ← bits_mod (Nat.le_refl length) code, Nat.shiftRight_eq_div_pow]
    constructor
    · intro h
      apply bits_inj (Nat.mod_lt _ (Nat.two_pow_pos _)) hquot
      exact (prefix_of_prefix_length_le h (prefix_append _ _) (by simp)).eq_of_length (by simp)
    · intro h
      rw [h]
      exact prefix_append _ _
  rw [hbits, hstart, eq_comm, Nat.div_eq_iff (Nat.two_pow_pos _)]
  have := Nat.two_pow_pos (8 - length)
  omega

/-- Where the last step of `add` writes. -/
theorem ends_iff_of_le_eight {node : List UInt8} {code : Nat} (hpos : 0 < length) (hle : length ≤ 8) :
    Ends (bytesBits node ++ bits length code) p b ↔ p = node ∧ bits length code <+: byteBits b := by
  constructor
  · intro h
    have h1 := h.2
    have h2 := h.length_le
    simp only [length_append, length_bytesBits, length_bits] at h1 h2
    have hpre : bytesBits node ++ bits length code <+: bytesBits p ++ byteBits b := by simpa using h.1
    have hpn : p = node := eq_of_bytesBits_prefix (by omega) (prefix_append _ _)
      ((prefix_append _ _).trans hpre)
    subst hpn
    exact ⟨rfl, (prefix_append_right_inj _).1 hpre⟩
  · rintro ⟨rfl, h⟩
    constructor
    · simpa using (prefix_append_right_inj (bytesBits p)).2 h
    · simp [hpos]

@[simp] theorem Tree.set_entry (t : Tree) (node : List UInt8) (which : UInt8 → Bool) (e : TableEntry) (p : List UInt8)
    (b : UInt8) : (t.set node which e).entry p b = if p = node ∧ which b then e else t.entry p b := rfl

open Classical in
/-- `add` puts a leaf where the code ends and makes the nodes it passes; all other entries stay. -/
theorem Tree.add_apply (t : Tree) (node : List UInt8) (sym : UInt8) (code length : Nat) (hpos : 0 < length)
    (p : List UInt8) (b : UInt8) :
    (t.add node sym code length).entry p b =
      if Ends (bytesBits node ++ bits length code) p b then .leaf sym (8 * node.length + length - 8 * p.length)
      else if node.length ≤ p.length ∧ Passes (bytesBits node ++ bits length code) p b ∧ t.entry p b = .empty then .next
      else t.entry p b := by
  induction length using Nat.strong_induction_on generalizing t node with
  | _ length ih =>
    rw [Tree.add]
    by_cases h8 : 8 < length
    · -- one byte down: the same string, split one byte later
      have hstring : bytesBits (node ++ [byte (code >>> (length - 8))]) ++ bits (length - 8) code
          = bytesBits node ++ bits length code := by
        rw [show length = 8 + (length - 8) by omega, bits_add]
        simp [byteBits_byte]
      rw [if_pos h8]
      dsimp only
      rw [ih (length - 8) (by omega) _ _ (by omega), hstring]
      have hnum : 8 * (node ++ [byte (code >>> (length - 8))]).length + (length - 8) = 8 * node.length + length := by
        simp only [length_append, length_singleton]
        omega
      rw [hnum]
      by_cases hends : Ends (bytesBits node ++ bits length code) p b
      · rw [if_pos hends, if_pos hends]
      rw [if_neg hends, if_neg hends]
      have hpasses : Passes (bytesBits node ++ bits length code) node (byte (code >>> (length - 8))) := by
        constructor
        · rw [← hstring]
          exact prefix_append _ _
        · simp only [length_append, length_bytesBits, length_bits]
          omega
      by_cases hhere : p = node ∧ b = byte (code >>> (length - 8))
      · obtain ⟨rfl, rfl⟩ := hhere
        by_cases hempty : t.entry p (byte (code >>> (length - 8))) = .empty
        · simp [hempty, hpasses]
        · simp [hempty]
      · have hsame : (if t.entry node (byte (code >>> (length - 8))) = .empty then
            t.set node (· == byte (code >>> (length - 8))) .next else t).entry p b = t.entry p b := by
          split
          · rw [Tree.set_entry, if_neg (by simpa using hhere)]
          · rfl
        rw [hsame]
        have hbelow : Passes (bytesBits node ++ bits length code) p b →
            (node.length + 1 ≤ p.length ↔ node.length ≤ p.length) := by
          intro hp
          refine ⟨fun h => by omega, fun h => ?_⟩
          by_contra hlt
          apply hhere
          have heq : p ++ [b] = node ++ [byte (code >>> (length - 8))] :=
            eq_of_bytesBits_prefix (by simp; omega) hp.1 hpasses.1
          obtain ⟨h1, h2⟩ := append_inj heq (by omega)
          exact ⟨h1, head_eq_of_cons_eq h2⟩
        by_cases hp : Passes (bytesBits node ++ bits length code) p b
        · simp [hbelow hp]
        · simp [hp]
    · rw [if_neg h8]
      dsimp only
      have hnot : ¬ (node.length ≤ p.length ∧ Passes (bytesBits node ++ bits length code) p b ∧ t.entry p b = .empty) := by
        rintro ⟨hlen, hp, -⟩
        have := hp.2
        simp only [length_append, length_bytesBits, length_bits] at this
        omega
      rw [if_neg hnot, Tree.set_entry]
      have hends : Ends (bytesBits node ++ bits length code) p b ↔ p = node ∧ bits length code <+: byteBits b :=
        ends_iff_of_le_eight hpos (by omega)
      rw [bits_prefix_byteBits_iff (by omega)] at hends
      simp only [hends, decide_eq_true_eq]
      split
      · rename_i h
        rw [h.1, Nat.add_sub_cancel_left]
      · rfl

/-- The tree knows the codes of the symbols in `syms`. -/
structure Indexes (t : Tree) (syms : List UInt8) : Prop where
  leaf_iff : ∀ p b s n, t.entry p b = .leaf s n ↔ s ∈ syms ∧ Ends (codeBits s) p b ∧ n = codeLenOf s - 8 * p.length
  next_iff : ∀ p b, t.entry p b = .next ↔ ∃ s ∈ syms, Passes (codeBits s) p b

theorem not_ends_of_passes {s' : UInt8} (hp : Passes (codeBits s') p b) : ¬ Ends (codeBits s) p b := by
  intro he
  have hss : s = s' := prefixFree_codeBits s s' (he.1.trans hp.1)
  have h1 := he.length_le
  have h2 := hp.2
  rw [hss] at h1
  omega

theorem Indexes.add (h : Indexes t syms) (s' : UInt8) :
    Indexes (t.add [] s' (codeOf s') (codeLenOf s')) (s' :: syms) := by
  classical
  have hadd : ∀ p b, (t.add [] s' (codeOf s') (codeLenOf s')).entry p b =
      if Ends (codeBits s') p b then .leaf s' (codeLenOf s' - 8 * p.length)
      else if Passes (codeBits s') p b ∧ t.entry p b = .empty then .next else t.entry p b := by
    intro p b
    have hpos : 0 < codeLenOf s' := by have := (sound_code s').1; omega
    rw [Tree.add_apply t [] s' (codeOf s') (codeLenOf s') hpos p b]
    simp only [bytesBits_nil, nil_append, length_nil, Nat.zero_le, true_and, Nat.mul_zero, Nat.zero_add]
    congr
  constructor
  · intro p b s n
    rw [hadd]
    by_cases he' : Ends (codeBits s') p b
    · rw [if_pos he']
      constructor
      · rintro ⟨⟩
        exact ⟨mem_cons_self, he', rfl⟩
      · rintro ⟨-, he, rfl⟩
        rw [prefixFree_codeBits.eq_of_prefix he.1 he'.1]
    · rw [if_neg he']
      have hmem : s ∈ s' :: syms ∧ Ends (codeBits s) p b ∧ n = codeLenOf s - 8 * p.length ↔ t.entry p b = .leaf s n := by
        rw [h.leaf_iff]
        constructor
        · rintro ⟨hs, he, hn⟩
          rcases mem_cons.1 hs with rfl | hs
          · exact absurd he he'
          · exact ⟨hs, he, hn⟩
        · rintro ⟨hs, he, hn⟩
          exact ⟨mem_cons_of_mem _ hs, he, hn⟩
      rw [hmem]
      split
      · rename_i hnew
        rw [hnew.2]
        constructor <;> rintro ⟨⟩
      · rfl
  · intro p b
    rw [hadd]
    by_cases he' : Ends (codeBits s') p b
    · rw [if_pos he']
      constructor
      · rintro ⟨⟩
      · rintro ⟨s, -, hp⟩
        exact absurd he' (not_ends_of_passes hp)
    · rw [if_neg he']
      by_cases hp' : Passes (codeBits s') p b
      · have hnext : (if Passes (codeBits s') p b ∧ t.entry p b = .empty then TableEntry.next else t.entry p b) = .next := by
          cases htp : t.entry p b with
          | empty => rw [if_pos ⟨hp', rfl⟩]
          | next => rw [if_neg (by rintro ⟨-, ⟨⟩⟩)]
          | leaf s n => exact absurd ((h.leaf_iff p b s n).1 htp).2.1 (not_ends_of_passes hp')
        rw [hnext]
        exact ⟨fun _ => ⟨s', mem_cons_self, hp'⟩, fun _ => rfl⟩
      · rw [if_neg (fun hc => hp' hc.1), h.next_iff]
        constructor
        · rintro ⟨s, hs, hp⟩
          exact ⟨s, mem_cons_of_mem _ hs, hp⟩
        · rintro ⟨s, hs, hp⟩
          rcases mem_cons.1 hs with rfl | hs
          · exact absurd hp hp'
          · exact ⟨s, hs, hp⟩

theorem Indexes.foldl_add (h : Indexes t syms) (l : List UInt8) :
    Indexes (l.foldl (fun t b => t.add [] b (codeOf b) (codeLenOf b)) t) (l.reverse ++ syms) := by
  induction l generalizing t syms with
  | nil => exact h
  | cons b l ih => simpa using ih (h.add b)

theorem indexes_empty : Indexes ⟨fun _ _ => .empty⟩ [] := by
  constructor
  · intro p b s n
    simp
  · intro p b
    simp

theorem indexes_flatHuffmanTable (s : UInt8) : ∃ syms, s ∈ syms ∧ Indexes flatHuffmanTable syms := by
  refine ⟨_, ?_, indexes_empty.foldl_add _⟩
  rw [append_nil, mem_reverse]
  exact mem_map.2 ⟨s.toNat, mem_range.2 s.toNat_lt, by simp⟩

theorem flatHuffmanTable_leaf (h : Ends (codeBits s) p b) :
    flatHuffmanTable.entry p b = .leaf s (codeLenOf s - 8 * p.length) := by
  obtain ⟨syms, hs, hi⟩ := indexes_flatHuffmanTable s
  exact (hi.leaf_iff p b s _).2 ⟨hs, h, rfl⟩

theorem flatHuffmanTable_next (h : Passes (codeBits s) p b) : flatHuffmanTable.entry p b = .next := by
  obtain ⟨syms, hs, hi⟩ := indexes_flatHuffmanTable s
  exact (hi.next_iff p b).2 ⟨s, hs, h⟩

theorem ends_of_flatHuffmanTable_leaf {n : Nat} (h : flatHuffmanTable.entry p b = .leaf s n) :
    Ends (codeBits s) p b ∧ n = codeLenOf s - 8 * p.length := by
  obtain ⟨syms, -, hi⟩ := indexes_flatHuffmanTable s
  exact ((hi.leaf_iff p b s n).1 h).2

/-- Where the table goes on, the bytes read begin a longer code. -/
theorem passes_of_flatHuffmanTable_next (h : flatHuffmanTable.entry p b = .next) : ∃ s, Passes (codeBits s) p b := by
  obtain ⟨syms, -, hi⟩ := indexes_flatHuffmanTable 0
  obtain ⟨s, -, hp⟩ := (hi.next_iff p b).1 h
  exact ⟨s, hp⟩

/-- A code ends within the byte `b`, or begins with it. -/
def CodeEntry.meets (e : CodeEntry) (b : Nat) : Bool :=
  if e.length ≤ 8 then b >>> (8 - e.length) == e.code else e.code >>> (e.length - 8) == b

theorem entriesByLength_cover : ∀ b < 256, entriesByLength.any (·.meets b) = true := by decide +kernel

theorem flatHuffmanTable_root (b : UInt8) : flatHuffmanTable.entry [] b ≠ .empty := by
  have hbyte : bytesBits ([] ++ [b]) = bits 8 b.toNat := by simp [byteBits]
  obtain ⟨e, he, hmeets⟩ := any_eq_true.1 (entriesByLength_cover b.toNat b.toNat_lt)
  obtain ⟨n, -, hn⟩ := mem_flatMap.1 he
  obtain ⟨s, hcode, hsize⟩ := exists_symbol (mem_filter.1 hn).1
  rw [CodeEntry.meets, ← hcode, ← hsize] at hmeets
  split at hmeets
  · rename_i hle
    have hs := beq_iff_eq.1 hmeets
    have hends : Ends (codeBits s) [] b := by
      refine ⟨?_, by have := (sound_code s).1; simp; omega⟩
      rw [hbyte, bits_split hle, hs]
      exact prefix_append _ _
    simp [flatHuffmanTable_leaf hends]
  · rename_i hlong
    have hs := beq_iff_eq.1 hmeets
    have hpasses : Passes (codeBits s) [] b := by
      refine ⟨?_, by simpa using hlong⟩
      rw [hbyte, codeBits, bits_split (Nat.le_of_not_le hlong), hs]
      exact prefix_append _ _
    simp [flatHuffmanTable_next hpasses]

end Mach.Hpack
