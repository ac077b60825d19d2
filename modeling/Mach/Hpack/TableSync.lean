import Mach.Lib.Evict
import Mach.Hpack.Codec
/-!
# Encoder and decoder tables stay together

One HPACK encodes blocks, another decodes them. The encoder may shrink its
table between two blocks and announces only the last size, so that the two
tables need not be equal; but the encoder's is always the newer part of the
decoder's, and every index the encoder writes names the same field on both
sides. One field is not carried over as it is: an empty `accept-encoding`. And a
sensitive field that a table holds already is written as an index.
-/

namespace Mach.Hpack

open Lib Headkit List HPACK

/-! ## What an encoder is given -/

/-- A field with a name, as the setters of `HeaderField` leave it: its name is stored as it is. The lengths are those
of slices in memory, far below this bound. -/
structure NamedField where
  hf : HeaderField
  named : hf.key ≠ []
  stored : storedKey hf.key = hf.key
  key_lt : hf.key.length < 2 ^ 58
  value_lt : hf.value.length < 2 ^ 58

/-- One call of `AppendHeader`, with the settings at that moment. -/
structure Header where
  field : NamedField
  store : Bool
  disableCompression : Bool := false
  disableDynamicTable : Bool := false

def HPACK.configure (hp : HPACK) (h : Header) : HPACK :=
  { hp with disableCompression := h.disableCompression, disableDynamicTable := h.disableDynamicTable }

def HPACK.encodeBlock : HPACK → List UInt8 → List Header → HPACK × List UInt8
  | hp, dst, [] => (hp, dst)
  | hp, dst, h :: headers =>
    let (hp, dst) := (hp.configure h).appendHeader dst h.field.hf h.store
    hp.encodeBlock dst headers

inductive Op where
  | setMaxTableSize (size : Nat)
  | block (headers : List Header)

structure Peers where
  enc : HPACK
  dec : HPACK

namespace Peers

def exchange (p : Peers) (headers : List Header) : Peers × List HeaderField × Option DecodeError :=
  let (enc, block) := p.enc.encodeBlock [] headers
  let (dec, fields, err) := p.dec.decode block
  (⟨enc, dec⟩, fields, err)

def step (p : Peers) : Op → Peers
  | .setMaxTableSize size => { p with enc := p.enc.setMaxTableSize size }
  | .block headers => (p.exchange headers).1

def fieldCount : List Op → Nat
  | [] => 0
  | .setMaxTableSize _ :: ops => fieldCount ops
  | .block headers :: ops => headers.length + fieldCount ops

end Peers

/-- The field that `fastStaticLookup` takes for an entry with another value. -/
def Mistaken (key value : List UInt8) : Prop := key = ascii "accept-encoding" ∧ value = []

instance (key value : List UInt8) : Decidable (Mistaken key value) := inferInstanceAs (Decidable (_ ∧ _))

variable {hp : HPACK} {hf : HeaderField} {max : Nat} {l : List HeaderField}

/-! ## Tables -/

theorem HPACK.shrinkLoop_total (max : Nat) (l : List HeaderField) :
    shrinkLoop max (total HeaderField.size l) l
      = (total HeaderField.size (fit HeaderField.size max l), fit HeaderField.size max l) := by
  induction l with
  | nil => rfl
  | cons hf l ih =>
    rw [shrinkLoop, fit]
    split
    · have hrest : (if hf.size < total HeaderField.size (hf :: l) then total HeaderField.size (hf :: l) - hf.size else 0)
          = total HeaderField.size l := by
        rw [total_cons]
        split <;> omega
      rw [hrest, ih]
    · rfl

/-- The size that is kept is that of the entries. -/
def HPACK.Counted (hp : HPACK) : Prop := hp.dynamicSize = total HeaderField.size hp.dynamic

theorem HPACK.shrink_eq (h : hp.Counted) :
    hp.shrink = { hp with
      dynamic := fit HeaderField.size hp.maxTableSize hp.dynamic
      dynamicSize := total HeaderField.size (fit HeaderField.size hp.maxTableSize hp.dynamic) } := by
  rw [shrink, h, shrinkLoop_total]

theorem HPACK.shrink_eq_self (h : hp.Counted) (hle : hp.dynamicSize ≤ hp.maxTableSize) : hp.shrink = hp := by
  have hfit := fit_eq_self (h ▸ hle)
  rw [shrink_eq h, hfit, ← h]

theorem HPACK.shrink_if_over (h : hp.Counted) :
    (if hp.maxTableSize < hp.dynamicSize then hp.shrink else hp) = hp.shrink := by
  split
  · rfl
  · exact (shrink_eq_self h (Nat.not_lt.1 ‹_›)).symm

theorem HPACK.setMaxTableSize_eq (h : hp.Counted) (size : Nat) :
    ∃ pending c, (pending = false → hp.maxTableSize = size ∧ hp.pendingTableSizeUpdate = false) ∧
      hp.setMaxTableSize size = { hp with
        pendingTableSizeUpdate := pending
        maxTableSize := size
        maxCapacity := c
        dynamic := fit HeaderField.size size hp.dynamic
        dynamicSize := total HeaderField.size (fit HeaderField.size size hp.dynamic) } := by
  refine ⟨if hp.maxTableSize = size then hp.pendingTableSizeUpdate else true,
    if hp.maxCapacity < size then size else hp.maxCapacity, fun hpending => ?_, ?_⟩
  · by_cases hsame : hp.maxTableSize = size
    · exact ⟨hsame, by simpa [hsame] using hpending⟩
    · simp [hsame] at hpending
  · have hcounted : Counted { hp with
        pendingTableSizeUpdate := if hp.maxTableSize = size then hp.pendingTableSizeUpdate else true
        maxTableSize := size
        maxCapacity := if hp.maxCapacity < size then size else hp.maxCapacity } := h
    rw [← shrink_eq hcounted, ← shrink_if_over hcounted, setMaxTableSize]
    by_cases hsame : hp.maxTableSize = size <;> by_cases hcap : hp.maxCapacity < size <;> simp [hsame, hcap]

/-- What is inserted, and what is dropped for it. -/
def inserted (max : Nat) (hf : HeaderField) (l : List HeaderField) : List HeaderField :=
  if max < hf.size then [] else fit HeaderField.size max (l ++ [hf.copy])

theorem NamedField.copy_eq (f : NamedField) : f.hf.copy = f.hf := by
  rw [HeaderField.copy, f.stored, storedValue_eq]

theorem HPACK.addDynamic_eq (h : hp.Counted) (hle : hp.dynamicSize ≤ hp.maxTableSize)
    (hmax : hp.maxTableSize < 2 ^ 31) (hcopy : hf.copy = hf) :
    hp.addDynamic hf = { hp with
      dynamic := inserted hp.maxTableSize hf hp.dynamic
      dynamicSize := total HeaderField.size (inserted hp.maxTableSize hf hp.dynamic) } := by
  unfold addDynamic inserted
  split
  · rfl
  · dsimp only
    have hsum : (hp.dynamicSize + hf.copy.size) % 2 ^ 32 = total HeaderField.size (hp.dynamic ++ [hf.copy]) := by
      rw [hcopy, total_append, total_cons, total_nil, ← h, Nat.mod_eq_of_lt (by omega)]
      rfl
    have hcounted : Counted { hp with
        dynamic := hp.dynamic ++ [hf.copy], dynamicSize := (hp.dynamicSize + hf.copy.size) % 2 ^ 32 } := hsum
    rw [shrink_eq hcounted]

theorem inserted_suffix {l' : List HeaderField} (h : l' <:+ l) : inserted max hf l' <:+ inserted max hf l := by
  unfold inserted
  split
  · exact suffix_refl _
  · obtain ⟨t, rfl⟩ := h
    apply fit_suffix_fit
    exact ⟨t, by simp⟩

theorem mem_inserted {g : HeaderField} (h : g ∈ inserted max hf l) : g ∈ l ∨ g = hf.copy := by
  unfold inserted at h
  split at h
  · exact absurd h not_mem_nil
  · simpa using (fit_suffix : _ <:+ l ++ [hf.copy]).subset h

theorem total_inserted_le : total HeaderField.size (inserted max hf l) ≤ max := by
  unfold inserted
  split
  · exact Nat.zero_le _
  · exact total_fit_le

theorem length_inserted_le : (inserted max hf l).length ≤ l.length + 1 := by
  unfold inserted
  split
  · exact Nat.zero_le _
  · have hfit : fit HeaderField.size max (l ++ [hf.copy]) <:+ l ++ [hf.copy] := fit_suffix
    simpa using hfit.length_le

/-- The two tables, after `n` fields; `cap` is the decoder's capacity. -/
structure Synced (cap : Nat) (enc dec : HPACK) (n : Nat) : Prop where
  suffix : enc.dynamic <:+ dec.dynamic
  encCounted : enc.Counted
  decCounted : dec.Counted
  encFits : enc.dynamicSize ≤ enc.maxTableSize
  decFits : dec.dynamicSize ≤ dec.maxTableSize
  announced : enc.pendingTableSizeUpdate = false → enc.maxTableSize = dec.maxTableSize
  encMax : enc.maxTableSize ≤ cap
  decMax : dec.maxTableSize ≤ cap
  capacity : dec.maxCapacity = cap
  bounded : cap < 2 ^ 31
  count : enc.dynamic.length ≤ n
  plain : ∀ g ∈ enc.dynamic, ¬ Mistaken g.key g.value

namespace Synced

variable {cap : Nat} {enc dec : HPACK} {n : Nat} (h : Synced cap enc dec n)
include h

theorem later {m : Nat} (hm : n ≤ m) : Synced cap enc dec m :=
  { h with count := h.count.trans hm }

/-- The encoder changes its table size, which is announced later. -/
theorem setMaxTableSize {size : Nat} (hsize : size ≤ cap) :
    Synced cap (enc.setMaxTableSize size) dec n := by
  obtain ⟨pending, c, hpending, heq⟩ := setMaxTableSize_eq h.encCounted size
  have hfit : fit HeaderField.size size enc.dynamic <:+ enc.dynamic := fit_suffix
  rw [heq]
  refine { h with
    suffix := hfit.trans h.suffix
    encCounted := rfl
    encFits := total_fit_le
    announced := ?_
    encMax := hsize
    count := hfit.length_le.trans h.count
    plain := fun g hg => h.plain g (hfit.subset hg) }
  intro hnot
  obtain ⟨hsame, hold⟩ := hpending hnot
  exact hsame.symm.trans (h.announced hold)

/-- The decoder takes over the size that the encoder announces. -/
theorem sizeUpdate :
    Synced cap { enc with pendingTableSizeUpdate := false } { dec with maxTableSize := enc.maxTableSize % 2 ^ 32 }.shrink n := by
  have hmod : enc.maxTableSize % 2 ^ 32 = enc.maxTableSize := by
    have h1 := h.encMax
    have h2 := h.bounded
    exact Nat.mod_eq_of_lt (by omega)
  have hcounted : HPACK.Counted { dec with maxTableSize := enc.maxTableSize } := h.decCounted
  rw [hmod, shrink_eq hcounted]
  refine { h with suffix := ?_, decCounted := rfl, decFits := total_fit_le, announced := fun _ => rfl, decMax := h.encMax }
  -- the encoder's entries fit the new size, so none of them is dropped
  have hfit : fit HeaderField.size enc.maxTableSize enc.dynamic = enc.dynamic := by
    apply fit_eq_self
    rw [← h.encCounted]
    exact h.encFits
  dsimp only
  rw [← hfit]
  exact fit_suffix_fit h.suffix

theorem addDynamic (hpending : enc.pendingTableSizeUpdate = false)
    (hcopy : hf.copy = hf) (hplain : ¬ Mistaken hf.key hf.value) : Synced cap (enc.addDynamic hf) (dec.addDynamic hf) (n + 1) := by
  have hmax := h.announced hpending
  have hdec := Nat.lt_of_le_of_lt h.decMax h.bounded
  rw [addDynamic_eq h.encCounted h.encFits (by omega) hcopy, addDynamic_eq h.decCounted h.decFits hdec hcopy]
  refine { h with
    suffix := ?_
    encCounted := rfl
    decCounted := rfl
    encFits := total_inserted_le
    decFits := total_inserted_le
    announced := fun _ => hmax
    count := length_inserted_le.trans (Nat.succ_le_succ h.count)
    plain := ?_ }
  · dsimp only
    rw [hmax]
    exact inserted_suffix h.suffix
  · intro g hg
    rcases mem_inserted hg with hold | rfl
    · exact h.plain g hold
    · rw [hcopy]
      exact hplain

end Synced

variable {key value : List UInt8} {idx x : Nat} {t e : Option (Nat × Bool)} {g : HeaderField} {c : UInt8}

/-! ## Indices -/

def StaticName (key : List UInt8) (idx : Nat) : Prop :=
  0 < idx ∧ idx < maxIndex ∧ staticTable[idx - 1]?.map (·.key) = some key

instance (key : List UInt8) (idx : Nat) : Decidable (StaticName key idx) := inferInstanceAs (Decidable (_ ∧ _))

def StaticField (key value : List UInt8) (idx : Nat) : Prop :=
  0 < idx ∧ idx < maxIndex ∧ staticTable[idx - 1]? = some { key, value }

instance (key value : List UInt8) (idx : Nat) : Decidable (StaticField key value idx) :=
  inferInstanceAs (Decidable (_ ∧ _))

theorem staticField_staticNames : ∀ p ∈ staticNames, StaticField (ascii p.1) [] p.2 := by decide +kernel

theorem plain_staticTable : ∀ g ∈ staticTable, ¬ Mistaken g.key g.value := by decide +kernel

theorem StaticField.name (h : StaticField key value idx) : StaticName key idx := by
  refine ⟨h.1, h.2.1, ?_⟩
  rw [h.2.2]
  rfl

/-- Every index that is found has the name, and the value too where it is said to, except for the field that is
mistaken. -/
def Found (key value : List UInt8) (r : Option (Nat × Bool)) : Prop :=
  ∀ idx full, r = some (idx, full) → StaticName key idx ∧ (full = true → StaticField key value idx ∨ Mistaken key value)

theorem found_full (h : StaticField key value idx) : Found key value (some (idx, true)) := by
  rintro idx full ⟨⟩
  exact ⟨h.name, fun _ => .inl h⟩

theorem found_name (h : StaticName key idx) : Found key value (some (idx, false)) := by
  rintro idx full ⟨⟩
  exact ⟨h, nofun⟩

/-- A case of the lookup that is for one name. -/
theorem found_key {name : List UInt8} (ht : Found name value t) (he : Found key value e) :
    Found key value (if key = name then t else e) := by
  split
  · rename_i heq
    rw [heq]
    exact ht
  · exact he

/-- A case that is for one value. -/
theorem found_value {v : List UInt8} (ht : Found key v t) (he : Found key value e) :
    Found key value (if value = v then t else e) := by
  split
  · rename_i heq
    rw [heq]
    exact ht
  · exact he

theorem found_fastStaticLookup (key value : List UInt8) : Found key value (fastStaticLookup key value) := by
  unfold fastStaticLookup
  refine found_key ?_ (found_key ?_ (found_key ?_ (found_key ?_ (found_key ?_ ?_))))
  case refine_5 =>
    refine found_value (found_full (by decide +kernel)) ?_
    rintro idx full ⟨⟩
    exact ⟨by decide +kernel, fun hempty => .inr ⟨rfl, by simpa using hempty⟩⟩
  case refine_6 =>
    intro idx full h
    obtain ⟨p, hp, heq⟩ := Option.map_eq_some_iff.1 h
    cases heq
    have hkey : ascii p.1 = key := by simpa using find?_some hp
    have hfield := staticField_staticNames p (mem_of_find?_eq_some hp)
    rw [hkey] at hfield
    refine ⟨hfield.name, fun hempty => .inl ?_⟩
    obtain rfl : value = [] := by simpa using hempty
    exact hfield
  all_goals
    repeat' refine found_value ?_ ?_
  all_goals first | exact found_full (by decide +kernel) | exact found_name (by decide +kernel)

def NamedAt (dec : HPACK) (key : List UInt8) (idx : Nat) : Prop := ∃ g, dec.peek idx = some g ∧ g.key = key

theorem peek_of_static {dec : HPACK} (h : StaticName key idx) : ∃ g ∈ staticTable, dec.peek idx = some g ∧ g.key = key := by
  obtain ⟨hpos, hlt, hmap⟩ := h
  obtain ⟨g, hg, hkey⟩ := Option.map_eq_some_iff.1 hmap
  refine ⟨g, mem_of_getElem? hg, ?_, hkey⟩
  rw [HPACK.peek, if_pos hlt, if_neg (by omega), hg]

variable {cap n : Nat} {enc dec : HPACK}

/-- An entry that the encoder finds is at the same index of the decoder. -/
theorem Synced.peek {i : Nat} {p : HeaderField → Bool} (h : Synced cap enc dec n) (hfind : enc.searchDynamic p = some i) :
    0 < maxIndex + i ∧ maxIndex + i ≤ maxIndex + n ∧ ∃ g ∈ enc.dynamic, dec.peek (maxIndex + i) = some g ∧ p g = true := by
  obtain ⟨hlt, hpi, -⟩ := findIdx?_eq_some_iff_getElem.1 hfind
  obtain ⟨t, ht⟩ : enc.dynamic.reverse <+: dec.dynamic.reverse := reverse_prefix.2 h.suffix
  have hcount := h.count
  refine ⟨Nat.lt_of_lt_of_le (by decide) (Nat.le_add_right maxIndex i), ?_, enc.dynamic.reverse[i], ?_, ?_, hpi⟩
  · rw [length_reverse] at hlt
    omega
  · exact mem_reverse.1 (getElem_mem hlt)
  · rw [peek_dynamic, ← ht, getElem?_append_left hlt, getElem?_eq_getElem hlt]

/-- What an index that is found stands for on the other side. -/
structure Names (dec : HPACK) (hf : HeaderField) (idx : Nat) (full : Bool) (g : HeaderField) : Prop where
  peek : dec.peek idx = some g
  key : g.key = hf.key
  value : full = true → (g.value = hf.value ↔ ¬ Mistaken hf.key hf.value)

theorem Names.of_plain {full : Bool} (hpeek : dec.peek idx = some g) (hkey : g.key = hf.key)
    (hplain : ¬ Mistaken g.key g.value) (hvalue : full = true → g.value = hf.value ∨ Mistaken hf.key hf.value) :
    Names dec hf idx full g := by
  refine ⟨hpeek, hkey, fun hfull => ⟨fun heq => ?_, (hvalue hfull).resolve_right⟩⟩
  rw [← hkey, ← heq]
  exact hplain

/-- What `search` gives: no index, or one that names the field on the other side. -/
theorem Synced.search (h : Synced cap enc dec n) (hf : HeaderField) :
    ((enc.search hf).1 = 0 ∧ (enc.search hf).2 = false) ∨
      (0 < (enc.search hf).1 ∧ (enc.search hf).1 ≤ maxIndex + n ∧
        ∃ g, Names dec hf (enc.search hf).1 (enc.search hf).2 g) := by
  unfold HPACK.search
  split
  · rename_i i hi
    obtain ⟨hpos, hle, g, hmem, hpeek, hboth⟩ := h.peek hi
    simp only [Bool.and_eq_true, beq_iff_eq] at hboth
    exact .inr ⟨hpos, hle, g, .of_plain hpeek hboth.1 (h.plain g hmem) fun _ => .inl hboth.2⟩
  split
  · rename_i idx full hstatic
    obtain ⟨hname, hfield⟩ := found_fastStaticLookup hf.key hf.value idx full hstatic
    obtain ⟨g, hmem, hpeek, hkey⟩ : ∃ g ∈ staticTable, dec.peek idx = some g ∧ g.key = hf.key := peek_of_static hname
    refine .inr ⟨hname.1, Nat.le_trans (Nat.le_of_lt hname.2.1) (Nat.le_add_right _ _), g,
      .of_plain hpeek hkey (plain_staticTable g hmem) fun hfull => (hfield hfull).imp_left fun hf => ?_⟩
    rw [HPACK.peek, if_pos hname.2.1, if_neg (Nat.ne_of_gt hname.1), hf.2.2] at hpeek
    cases hpeek
    rfl
  split
  · rename_i i hi
    obtain ⟨hpos, hle, g, hmem, hpeek, hkey⟩ := h.peek hi
    exact .inr ⟨hpos, hle, g, .of_plain hpeek (beq_iff_eq.1 hkey) (h.plain g hmem) (by simp)⟩
  · exact .inl ⟨rfl, rfl⟩

/-- The field that is mistaken is always found. -/
theorem search_mistaken (h : Mistaken hf.key hf.value) : (enc.search hf).2 = true := by
  obtain ⟨hkey, hvalue⟩ := h
  unfold HPACK.search
  split
  · rfl
  · rw [hkey, hvalue]
    rfl

/-! ## One field -/

/-- What the first byte of each representation is, for any prefix `x` below its pattern. -/
theorem first_indexed : ∀ x < 2 ^ 7, (128 ||| byte x) &&& 128 = 128 ∧ ¬ (128 ||| byte x) &&& 240 = 16 := by decide

theorem first_literalIndexed : ∀ x < 2 ^ 6, ¬ (64 ||| byte x) &&& 128 = 128 ∧ (64 ||| byte x) &&& 64 = 64 ∧
    ((64 ||| byte x != 64) = decide (x ≠ 0)) := by decide

theorem first_neverIndexed : ∀ x < 2 ^ 4, ¬ (16 ||| byte x) &&& 128 = 128 ∧ ¬ (16 ||| byte x) &&& 64 = 64 ∧
    (16 ||| byte x) &&& 240 = 16 ∧ (((16 ||| byte x) &&& 15 != 0) = decide (x ≠ 0)) := by decide

theorem first_notIndexed : ∀ x < 2 ^ 4, ¬ (0 ||| byte x) &&& 128 = 128 ∧ ¬ (0 ||| byte x) &&& 64 = 64 ∧
    ¬ (0 ||| byte x) &&& 240 = 16 ∧ (0 ||| byte x) &&& 240 = 0 ∧
    (((0 ||| byte x) &&& 15 != 0) = decide (x ≠ 0)) := by decide

theorem first_sizeUpdate : ∀ x < 2 ^ 5, ¬ (0x20 ||| byte x) &&& 128 = 128 ∧ ¬ (0x20 ||| byte x) &&& 64 = 64 ∧
    ¬ (0x20 ||| byte x) &&& 240 = 16 ∧ ¬ (0x20 ||| byte x) &&& 240 = 0 ∧
    (0x20 ||| byte x) &&& 0xe0 = 0x20 := by decide

/-- The name of a literal: an index, or zero and a string. -/
def nameBytes (c : UInt8) (bits idx : Nat) (key : List UInt8) (huffman : Bool) : List UInt8 :=
  if 0 < idx then intBytes c bits idx else intBytes c bits 0 ++ stringBytes key huffman

def literalBytes (c : UInt8) (bits idx : Nat) (hf : HeaderField) (huffman : Bool) : List UInt8 :=
  nameBytes c bits idx hf.key huffman ++ stringBytes hf.value huffman

theorem exists_literalBytes_cons (c : UInt8) (bits : Nat) (hbits : 0 < bits) (idx : Nat) (hf : HeaderField)
    (huffman : Bool) :
    ∃ x < 2 ^ bits, (decide (x ≠ 0) = decide (0 < idx)) ∧ ∃ tail,
      literalBytes c bits idx hf huffman = (c ||| byte x) :: tail := by
  unfold literalBytes nameBytes
  split
  · rename_i hpos
    obtain ⟨x, hx, hzero, tail, heq⟩ := exists_intBytes_cons c hbits idx
    refine ⟨x, hx, ?_, tail ++ stringBytes hf.value huffman, by rw [heq]; rfl⟩
    rw [decide_eq_decide]
    omega
  · rename_i hzero
    refine ⟨0, Nat.two_pow_pos _, ?_, stringBytes hf.key huffman ++ stringBytes hf.value huffman, ?_⟩
    · rw [decide_eq_decide]
      omega
    · rw [intBytes_zero c hbits, append_assoc, singleton_append]
      exact congrArg (· :: _) UInt8.or_zero.symm

/-- A literal is read back, its name from the table or from the block. -/
theorem HPACK.decodeLiteral_literalBytes {bits : Nat} (f : NamedField)
    (hpat : Pattern c bits) (hidx : 0 < idx → idx < 2 ^ 64 ∧ NamedAt dec f.hf.key idx) (hf : HeaderField)
    (huffman : Bool) (notFound : Nat → DecodeError) (rest : List UInt8) :
    dec.decodeLiteral hf (literalBytes c bits idx f.hf huffman ++ rest) bits (decide (0 < idx)) notFound
      = .ok ({ hf with key := f.hf.key, value := f.hf.value }, rest) := by
  have hvalue := readString_stringBytes f.value_lt huffman rest
  unfold decodeLiteral literalBytes nameBytes
  by_cases hpos : 0 < idx
  · obtain ⟨hlt, g, hpeek, hkey⟩ := hidx hpos
    have hint := readInt_intBytes hpat hlt (stringBytes f.hf.value huffman ++ rest)
    simp [hpos, hint, bind, Except.bind, hpeek, pure, Except.pure, hvalue, HeaderField.setKeyBytes, HeaderField.setValueBytes, hkey, f.stored, storedValue_eq]
  · have hname := readString_stringBytes f.key_lt huffman (stringBytes f.hf.value huffman ++ rest)
    simp [hpos, intBytes_zero c hpat.pos, hname, bind, Except.bind, pure, Except.pure, hvalue, HeaderField.setKeyBytes, HeaderField.setValueBytes, f.stored, storedValue_eq]

/-- In any number of rounds, the decoder reads the field `g` from `e` and is then `dec'`. -/
def DecodesTo (dec : HPACK) (e : List UInt8) (dec' : HPACK) (g : HeaderField) : Prop :=
  ∀ fuel rest, HPACK.nextLoop (fuel + 1) dec {} (e ++ rest) = (dec', .ok (g, rest))

/-- The decoder no longer takes a size update. -/
def HPACK.closed (hp : HPACK) : HPACK := { hp with tableSizeUpdateAllowed := false }

theorem decodesTo_indexed (hpos : 0 < idx) (hlt : idx < 2 ^ 64)
    (hpeek : dec.peek idx = some g) : DecodesTo dec (intBytes 128 7 idx) dec.closed g.copy := by
  intro fuel rest
  obtain ⟨x, hx, -, tail, heq⟩ := exists_intBytes_cons 128 (n := 7) (by decide) idx
  have hint := readInt_intBytes (c := 128) (n := 7) (by decide) hlt rest
  rw [heq, cons_append] at hint ⊢
  have hpeek' : dec.closed.peek idx = some g := hpeek
  rw [nextLoop, if_pos (first_indexed x hx).1]
  change (dec.closed, dec.closed.decodeIndexed _) = _
  unfold decodeIndexed
  simp only [hint, bind, Except.bind, if_neg (Nat.ne_of_gt hpos), hpeek', pure, Except.pure]

theorem decodesTo_literalIndexed (f : NamedField) (hsensible : f.hf.sensible = false)
    (hidx : 0 < idx → idx < 2 ^ 64 ∧ NamedAt dec f.hf.key idx) (huffman : Bool) :
    DecodesTo dec (literalBytes 64 6 idx f.hf huffman) (dec.closed.addDynamic f.hf) f.hf := by
  intro fuel rest
  obtain ⟨x, hx, hpos, tail, heq⟩ := exists_literalBytes_cons 64 6 (by decide) idx f.hf huffman
  obtain ⟨h1, h2, h3⟩ := first_literalIndexed x hx
  have hlit : dec.closed.decodeLiteral {} (literalBytes 64 6 idx f.hf huffman ++ rest) 6 (decide (0 < idx))
      .literalIndexedNotFound = .ok ({ key := f.hf.key, value := f.hf.value }, rest) :=
    decodeLiteral_literalBytes f (by decide) hidx {} huffman .literalIndexedNotFound rest
  have hfield : f.hf = { key := f.hf.key, value := f.hf.value } := by rw [← hsensible]
  rw [heq, cons_append] at hlit ⊢
  rw [nextLoop, if_neg h1, if_pos h2]
  change dec.closed.decodeLiteralIndexed {} _ = _
  rw [decodeLiteralIndexed, headD_cons, h3, hpos, hlit, hfield]

/-- The literals that are not inserted: `c` is the pattern, `sensible` the mark it stands for. -/
theorem decodesTo_literalNoIndex {sensible : Bool}
    (hc : (c = 16 ∧ sensible = true) ∨ (c = 0 ∧ sensible = false)) (f : NamedField)
    (hidx : 0 < idx → idx < 2 ^ 64 ∧ NamedAt dec f.hf.key idx) (huffman : Bool) :
    DecodesTo dec (literalBytes c 4 idx f.hf huffman) dec.closed { key := f.hf.key, value := f.hf.value, sensible } := by
  intro fuel rest
  obtain ⟨x, hx, hpos, tail, heq⟩ := exists_literalBytes_cons c 4 (by decide) idx f.hf huffman
  have hpat : Pattern c 4 := by
    rcases hc with ⟨rfl, -⟩ | ⟨rfl, -⟩ <;> decide
  have hlit : dec.closed.decodeLiteral { sensible } (literalBytes c 4 idx f.hf huffman ++ rest) 4 (decide (0 < idx))
      .nonIndexedNotFound = .ok ({ key := f.hf.key, value := f.hf.value, sensible }, rest) :=
    decodeLiteral_literalBytes f hpat hidx { sensible } huffman .nonIndexedNotFound rest
  rw [heq, cons_append] at hlit ⊢
  rcases hc with ⟨rfl, rfl⟩ | ⟨rfl, rfl⟩
  · obtain ⟨h1, h2, h3, h4⟩ := first_neverIndexed x hx
    rw [nextLoop, if_neg h1, if_neg h2, if_pos h3]
    change (dec.closed, dec.closed.decodeLiteralNoIndex { sensible := true } _) = _
    rw [decodeLiteralNoIndex, headD_cons, h4, hpos, hlit]
  · obtain ⟨h1, h2, h3, h4, h5⟩ := first_notIndexed x hx
    rw [nextLoop, if_neg h1, if_neg h2, if_neg h3, if_pos h4]
    change (dec.closed, dec.closed.decodeLiteralNoIndex {} _) = _
    rw [decodeLiteralNoIndex, headD_cons, h5, hpos, hlit]

theorem appendLiteral_eq (f : NamedField) (dst : List UInt8) (c : UInt8) (bits idx : Nat) (huffman : Bool) :
    appendString (if 0 < idx then appendInt (dst ++ [c]) bits idx
      else appendString (appendInt (dst ++ [c]) bits 0) f.hf.key huffman) f.hf.value huffman
      = dst ++ literalBytes c bits idx f.hf huffman := by
  rw [appendString_eq f.value_lt, literalBytes, nameBytes, ← append_assoc]
  congr 1
  split
  · exact appendInt_concat dst c bits idx
  · rw [appendInt_concat, appendString_eq f.key_lt, append_assoc]

/-- A literal that is never indexed, and marked so for who reads it. -/
def Never (e : List UInt8) (g : HeaderField) : Prop := e.headD 0 &&& 0xf0 = 0x10 ∧ g.sensible = true

/-- The outcome of one field, for an encoder `enc`: the bytes `e` are appended, a field `g` of that name is read from
them, and the tables are together again. -/
structure Transfer (cap : Nat) (enc : HPACK) (f : NamedField) (e : List UInt8) (enc' dec' : HPACK) (g : HeaderField)
    (n : Nat) : Prop where
  nonempty : e ≠ []
  name : g.key = f.hf.key
  value : g.value = f.hf.value ↔ ¬ Mistaken f.hf.key f.hf.value
  never : f.hf.sensible = true → enc' = enc ∧ (Never e g ↔ (enc.search f.hf).2 = false)
  synced : Synced cap enc' dec' n
  settled : enc'.pendingTableSizeUpdate = false

theorem Synced.appendField (h : Synced cap enc dec n) (hsettled : enc.pendingTableSizeUpdate = false) (hn : n < 2 ^ 62)
    (f : NamedField) (store : Bool) (dst : List UInt8) :
    ∃ e enc' dec' g, enc.appendField dst f.hf store = (enc', dst ++ e) ∧ DecodesTo dec e dec' g ∧
      Transfer cap enc f e enc' dec' g (n + 1) := by
  have hclosed : Synced cap enc dec.closed n := { h with }
  have hsearch := h.search f.hf
  unfold HPACK.appendField
  generalize hr : enc.search f.hf = r at hsearch
  obtain ⟨idx, full⟩ := r
  dsimp only at hsearch ⊢
  have hlt : 0 < idx → idx < 2 ^ 64 ∧ ∃ g, Names dec f.hf idx full g := by
    intro hpos
    rcases hsearch with ⟨hzero, -⟩ | ⟨-, hle, hnames⟩
    · omega
    · exact ⟨by rw [maxIndex] at hle; omega, hnames⟩
  have hidx : 0 < idx → idx < 2 ^ 64 ∧ NamedAt dec f.hf.key idx :=
    fun hpos => (hlt hpos).imp_right fun ⟨g, hg⟩ => ⟨g, hg.peek, hg.key⟩
  by_cases hfull : full = true
  · -- an index
    have hpos : 0 < idx := by
      rcases hsearch with ⟨-, hnot⟩ | ⟨hpos, -⟩
      · rw [hfull] at hnot
        cases hnot
      · exact hpos
    obtain ⟨hlt, g, hg⟩ := hlt hpos
    obtain ⟨x, hx, -, tail, heq⟩ := exists_intBytes_cons 128 (n := 7) (by decide) idx
    refine ⟨intBytes 128 7 idx, enc, dec.closed, g.copy, by rw [if_pos hfull, appendInt_concat],
      decodesTo_indexed hpos hlt hg.peek, ?_, ?_, ?_, fun _ => ⟨rfl, ?_⟩, hclosed.later (Nat.le_succ n), hsettled⟩
    · rw [heq]
      exact cons_ne_nil _ _
    · rw [HeaderField.copy, hg.key, f.stored]
    · rw [HeaderField.copy, storedValue_eq]
      exact hg.value hfull
    · rw [hr, heq]
      exact iff_of_false (fun hnever => (first_indexed x hx).2 hnever.1) (ne_false_of_eq_true hfull)
  have hplain : ¬ Mistaken f.hf.key f.hf.value := by
    intro hmistaken
    have hfound : (enc.search f.hf).2 = true := search_mistaken hmistaken
    rw [hr] at hfound
    exact hfull hfound
  -- what the literals have in common: their bytes begin with the pattern `c`
  have hliteral : ∀ c bits huffman, 0 < bits → literalBytes c bits idx f.hf huffman ≠ [] ∧
      ∃ x < 2 ^ bits, (literalBytes c bits idx f.hf huffman).headD 0 = c ||| byte x := by
    intro c bits huffman hbits
    obtain ⟨x, hx, -, tail, heq⟩ := exists_literalBytes_cons c bits hbits idx f.hf huffman
    rw [heq]
    exact ⟨cons_ne_nil _ _, x, hx, rfl⟩
  rw [if_neg hfull]
  by_cases hsensible : f.hf.sensible = true
  · obtain ⟨hne, x, hx, hhead⟩ := hliteral 16 4 false (by decide)
    rw [if_pos hsensible]
    refine ⟨_, enc, dec.closed, _, by rw [← appendLiteral_eq], decodesTo_literalNoIndex (Or.inl ⟨rfl, rfl⟩) f hidx false,
      hne, rfl, iff_of_true rfl hplain, fun _ => ⟨rfl, iff_of_true ⟨?_, rfl⟩ ?_⟩, hclosed.later (Nat.le_succ n), hsettled⟩
    · rw [hhead]
      exact (first_neverIndexed x hx).2.2.1
    · rw [hr]
      exact Bool.eq_false_iff.2 hfull
  rw [if_neg hsensible]
  by_cases hstore : store = false ∨ enc.disableDynamicTable = true
  · rw [if_pos hstore]
    exact ⟨_, enc, dec.closed, _, by rw [← appendLiteral_eq],
      decodesTo_literalNoIndex (Or.inr ⟨rfl, rfl⟩) f hidx (!enc.disableCompression),
      (hliteral 0 4 _ (by decide)).1, rfl, iff_of_true rfl hplain, fun hs => absurd hs hsensible,
      hclosed.later (Nat.le_succ n), hsettled⟩
  · rw [if_neg hstore]
    refine ⟨_, enc.addDynamic f.hf, dec.closed.addDynamic f.hf, f.hf, by rw [← appendLiteral_eq],
      decodesTo_literalIndexed f (Bool.eq_false_iff.2 hsensible) hidx (!enc.disableCompression),
      (hliteral 64 6 _ (by decide)).1, rfl, iff_of_true rfl hplain, fun hs => absurd hs hsensible,
      hclosed.addDynamic hsettled f.copy_eq hplain, ?_⟩
    have henc := Nat.lt_of_le_of_lt h.encMax h.bounded
    rw [addDynamic_eq h.encCounted h.encFits henc f.copy_eq]
    exact hsettled

/-! ## Blocks -/

theorem appendSizeUpdate_eq (size : Nat) : orAt (appendInt [] 5 size) 0 0x20 = intBytes 0x20 5 size := by
  have hzero : appendInt [] 5 size = [] ++ intBytes 0 5 size := appendInt_concat [] 0 5 size
  rw [hzero]
  exact orAt_intBytes [] 0x20 5 size

/-- A size update at the start of a block is taken over before the field that follows. -/
theorem Synced.nextLoop_sizeUpdate (h : Synced cap enc dec n) (hallowed : dec.tableSizeUpdateAllowed = true) (fuel : Nat)
    (hf : HeaderField) (rest : List UInt8) :
    HPACK.nextLoop (fuel + 1) dec hf (intBytes 0x20 5 enc.maxTableSize ++ rest)
      = HPACK.nextLoop fuel { dec with maxTableSize := enc.maxTableSize % 2 ^ 32 }.shrink hf rest := by
  have hmax := h.encMax
  have hcap := h.bounded
  have hcapacity := h.capacity
  obtain ⟨x, hx, -, tail, heq⟩ := exists_intBytes_cons 0x20 (n := 5) (by decide) enc.maxTableSize
  obtain ⟨h1, h2, h3, h4, h5⟩ := first_sizeUpdate x hx
  have hint := readInt_intBytes (c := 0x20) (n := 5) (by decide) (show enc.maxTableSize < 2 ^ 64 by omega) rest
  rw [heq, cons_append] at hint ⊢
  rw [nextLoop, if_neg h1, if_neg h2, if_neg h3, if_neg h4, if_pos h5, hallowed, if_neg (by decide), hint]
  dsimp only
  rw [if_neg (by omega)]

/-- The encoder once its size update is written. -/
def HPACK.settled (hp : HPACK) : HPACK := { hp with pendingTableSizeUpdate := false }

/-- One call of `AppendHeader`, read by `Next`; the field's own bytes are behind those of the size update. -/
theorem Synced.appendHeader (h : Synced cap enc dec n)
    (hallowed : enc.pendingTableSizeUpdate = true → dec.tableSizeUpdateAllowed = true) (hn : n < 2 ^ 62)
    (f : NamedField) (store : Bool) (dst : List UInt8) :
    ∃ e enc' dec' g, enc.appendHeader dst f.hf store = (enc', dst ++ ((enc.appendSizeUpdate []).2 ++ e)) ∧
      (∀ rest, dec.next {} ((enc.appendSizeUpdate []).2 ++ e ++ rest) = (dec', .ok (g, rest))) ∧
      Transfer cap enc.settled f e enc' dec' g (n + 1) := by
  unfold HPACK.appendHeader appendSizeUpdate
  by_cases hpending : enc.pendingTableSizeUpdate = true
  · rw [if_pos hpending, if_pos hpending]
    dsimp only
    rw [appendSizeUpdate_eq, nil_append]
    obtain ⟨e, enc', dec', g, heq, hdec, ht⟩ := h.sizeUpdate.appendField rfl hn f store
      (dst ++ intBytes 0x20 5 enc.maxTableSize)
    refine ⟨e, enc', dec', g, by rw [heq, append_assoc], fun rest => ?_, ht⟩
    obtain ⟨x, -, -, tail, hint⟩ := exists_intBytes_cons 0x20 (n := 5) (by decide) enc.maxTableSize
    obtain ⟨b, e', hcons⟩ := exists_cons_of_ne_nil ht.nonempty
    -- two rounds: the size update, then the field
    have hlen : (intBytes 0x20 5 enc.maxTableSize ++ e ++ rest).length = (tail ++ e' ++ rest).length + 1 + 1 := by
      rw [hint, hcons]
      simp only [length_append, length_cons]
      omega
    rw [HPACK.next, hlen, append_assoc (intBytes 0x20 5 enc.maxTableSize), h.nextLoop_sizeUpdate (hallowed hpending)]
    exact hdec _ rest
  · have hnot := Bool.eq_false_iff.2 hpending
    rw [if_neg hpending, if_neg hpending]
    dsimp only
    rw [show enc.settled = enc by rw [settled, ← hnot]]
    obtain ⟨e, enc', dec', g, heq, hdec, ht⟩ := h.appendField hnot hn f store dst
    refine ⟨e, enc', dec', g, heq, fun rest => ?_, ht⟩
    obtain ⟨b, e', hcons⟩ := exists_cons_of_ne_nil ht.nonempty
    have hlen : ([] ++ e ++ rest).length = (e' ++ rest).length + 1 := by
      rw [hcons]
      simp
    rw [HPACK.next, hlen]
    exact hdec _ rest

/-- A block, read by the loop of `Decode`. -/
theorem Synced.encodeBlock {headers : List Header} (h : Synced cap enc dec n)
    (hallowed : enc.pendingTableSizeUpdate = true → dec.tableSizeUpdateAllowed = true)
    (hn : n + headers.length < 2 ^ 62) (dst : List UInt8) :
    ∃ e enc' dec' fields, enc.encodeBlock dst headers = (enc', dst ++ e) ∧
      (∀ fuel, e.length ≤ fuel → HPACK.decodeFields fuel dec e = (dec', fields, none)) ∧
      fields.map (·.key) = headers.map (·.field.hf.key) ∧ Synced cap enc' dec' (n + headers.length) ∧
      (headers ≠ [] → enc'.pendingTableSizeUpdate = false) := by
  induction headers generalizing enc dec n dst with
  | nil =>
    refine ⟨[], enc, dec, [], by rw [HPACK.encodeBlock, append_nil], ?_, rfl, h, fun hne => absurd rfl hne⟩
    intro fuel _
    cases fuel <;> rfl
  | cons hd headers ih =>
    rw [length_cons] at hn
    have hconf : Synced cap (enc.configure hd) dec n := { h with }
    obtain ⟨e1, enc1, dec1, g, heq1, hnext, ht⟩ := hconf.appendHeader hallowed (by omega) hd.field hd.store dst
    have hne : ((enc.configure hd).appendSizeUpdate []).2 ++ e1 ≠ [] :=
      fun hnil => ht.nonempty (append_eq_nil_iff.1 hnil).2
    generalize ((enc.configure hd).appendSizeUpdate []).2 ++ e1 = e1 at heq1 hnext hne
    obtain ⟨e2, enc', dec', fields, heq2, hdec, hnames, hsync, hset⟩ :=
      ih ht.synced (fun hp => by rw [ht.settled] at hp; cases hp) (by omega) (dst ++ e1)
    refine ⟨e1 ++ e2, enc', dec', g :: fields, ?_, ?_, by rw [map_cons, map_cons, ht.name, hnames], ?_, ?_⟩
    · rw [HPACK.encodeBlock, heq1]
      dsimp only
      rw [heq2, append_assoc]
    · intro fuel hfuel
      obtain ⟨b, e1', rfl⟩ := exists_cons_of_ne_nil hne
      have hshort : ¬ (b :: e1' ++ e2).length ≤ e2.length := by
        simp only [length_append, length_cons]
        omega
      have hnotEmpty : g.isEmpty = false := by
        rw [HeaderField.isEmpty, ht.name, beq_eq_false_iff_ne.2 hd.field.named, Bool.false_and]
      cases fuel with
      | zero => exact absurd hfuel (by simp)
      | succ fuel =>
        have hread := hnext e2
        rw [cons_append] at hread hshort ⊢
        rw [decodeFields, hread]
        dsimp only
        rw [if_neg hshort, hdec fuel (by simp only [length_append, length_cons] at hfuel; omega), hnotEmpty]
        rfl
    · rw [length_cons, show n + (headers.length + 1) = n + 1 + headers.length by omega]
      exact hsync
    · intro _
      cases headers with
      | nil =>
        have hlast : enc' = enc1 := by
          rw [HPACK.encodeBlock] at heq2
          exact (congrArg Prod.fst heq2).symm
        rw [hlast]
        exact ht.settled
      | cons hd' headers => exact hset (cons_ne_nil _ _)

/-! ## Runs -/

namespace Peers

variable {p : Peers} {ops : List Op}

/-- Two codecs before their first block: empty tables, and an encoder whose size the decoder allows and either knows
or will be told. -/
structure Fresh (p : Peers) : Prop where
  encEmpty : p.enc.dynamic = [] ∧ p.enc.dynamicSize = 0
  decEmpty : p.dec.dynamic = [] ∧ p.dec.dynamicSize = 0
  announced : p.enc.pendingTableSizeUpdate = false → p.enc.maxTableSize = p.dec.maxTableSize
  encMax : p.enc.maxTableSize ≤ p.dec.maxCapacity
  decMax : p.dec.maxTableSize ≤ p.dec.maxCapacity
  capacity : p.dec.maxCapacity < 2 ^ 31

theorem Fresh.synced (h : p.Fresh) : Synced p.dec.maxCapacity p.enc p.dec 0 := by
  obtain ⟨e1, e2⟩ := h.encEmpty
  obtain ⟨d1, d2⟩ := h.decEmpty
  constructor
  · rw [e1]; exact nil_suffix
  · rw [HPACK.Counted, e1, e2]; rfl
  · rw [HPACK.Counted, d1, d2]; rfl
  · rw [e2]; exact Nat.zero_le _
  · rw [d2]; exact Nat.zero_le _
  · exact h.announced
  · exact h.encMax
  · exact h.decMax
  · rfl
  · exact h.capacity
  · rw [e1]; exact Nat.le_refl 0
  · rw [e1]; exact nofun

theorem exchange_spec (h : Synced cap p.enc p.dec n) (headers : List Header)
    (hn : n + headers.length < 2 ^ 62) :
    ∃ p' fields, p.exchange headers = (p', fields, none) ∧ fields.map (·.key) = headers.map (·.field.hf.key) ∧
      Synced cap p'.enc p'.dec (n + headers.length) ∧ (headers ≠ [] → p'.enc.pendingTableSizeUpdate = false) := by
  have hbegin : Synced cap p.enc p.dec.beginHeaderBlock n := { h with }
  obtain ⟨e, enc', dec', fields, henc, hdec, hnames, hsync, hset⟩ := hbegin.encodeBlock (fun _ => rfl) hn []
  refine ⟨⟨enc', dec'⟩, fields, ?_, hnames, hsync, hset⟩
  rw [exchange, henc, nil_append]
  dsimp only
  rw [decode, hdec e.length (Nat.le_refl _)]

theorem synced_run (h : Synced cap p.enc p.dec n)
    (hsizes : ∀ size, .setMaxTableSize size ∈ ops → size ≤ cap) (hn : n + fieldCount ops < 2 ^ 62) :
    Synced cap (ops.foldl step p).enc (ops.foldl step p).dec (n + fieldCount ops) := by
  induction ops generalizing p n with
  | nil => exact h
  | cons op ops ih =>
    have hrest : ∀ size, .setMaxTableSize size ∈ ops → size ≤ cap :=
      fun size hmem => hsizes size (mem_cons_of_mem _ hmem)
    rw [foldl_cons]
    cases op with
    | setMaxTableSize size => exact ih (h.setMaxTableSize (hsizes size mem_cons_self)) hrest hn
    | block headers =>
      rw [fieldCount] at hn ⊢
      obtain ⟨p', fields, hex, -, hsync, -⟩ := exchange_spec h headers (by omega)
      have hstep : p.step (.block headers) = p' := by rw [step, hex]
      rw [hstep, ← Nat.add_assoc]
      exact ih hsync hrest (by omega)

/-- The tables after a block: the encoder's, newest entry first, begins the decoder's; each is as large as is kept
track of, and no larger than allowed. -/
structure Together (p : Peers) : Prop where
  tables : p.enc.dynamic.reverse <+: p.dec.dynamic.reverse
  encSize : p.enc.dynamicSize = (p.enc.dynamic.map HeaderField.size).sum
  decSize : p.dec.dynamicSize = (p.dec.dynamic.map HeaderField.size).sum
  encFits : p.enc.dynamicSize ≤ p.enc.maxTableSize
  decFits : p.dec.dynamicSize ≤ p.dec.maxTableSize

/-- After any sequence of blocks and table sizes, the next block is decoded without an error and with the names that
were encoded, and the tables are together; and unless the block was empty the table sizes agree. The bound on the
number of fields is that of a table's index. -/
theorem tables_together {p : Peers} (hfresh : p.Fresh) (ops : List Op) (headers : List Header)
    (hsizes : ∀ size, .setMaxTableSize size ∈ ops → size ≤ p.dec.maxCapacity)
    (hcount : fieldCount ops + headers.length < 2 ^ 62) :
    ∃ q fields, (ops.foldl step p).exchange headers = (q, fields, none) ∧
      fields.map (·.key) = headers.map (·.field.hf.key) ∧ q.Together ∧
      (headers ≠ [] ∨ q.enc.pendingTableSizeUpdate = false → q.enc.maxTableSize = q.dec.maxTableSize) := by
  have hrun := synced_run hfresh.synced hsizes (by omega)
  obtain ⟨q, fields, hex, hnames, hsync, hset⟩ := exchange_spec hrun headers (by omega)
  refine ⟨q, fields, hex, hnames, ?_, fun hor => hsync.announced (hor.elim hset id)⟩
  constructor
  · exact reverse_prefix.2 hsync.suffix
  · exact hsync.encCounted
  · exact hsync.decCounted
  · exact hsync.encFits
  · exact hsync.decFits

/-- The decoder at a field, which may be the first of a block. -/
def reader (p : Peers) (first : Bool) : HPACK := if first then p.dec.beginHeaderBlock else p.dec

/-- A run that leaves the two before a field: a size update is due only where the decoder takes one. -/
structure Before (p : Peers) (ops : List Op) (first : Bool) : Prop where
  fresh : p.Fresh
  sizes : ∀ size, .setMaxTableSize size ∈ ops → size ≤ p.dec.maxCapacity
  count : fieldCount ops < 2 ^ 62
  allowed : (ops.foldl step p).enc.pendingTableSizeUpdate = true → ((ops.foldl step p).reader first).tableSizeUpdateAllowed = true

theorem Before.appendHeader {first : Bool} (h : Before p ops first) (hd : Header) (dst : List UInt8) :
    let enc := (ops.foldl step p).enc.configure hd
    ∃ e enc' dec' g, enc.appendHeader dst hd.field.hf hd.store = (enc', dst ++ ((enc.appendSizeUpdate []).2 ++ e)) ∧
      (∀ rest, ((ops.foldl step p).reader first).next {} ((enc.appendSizeUpdate []).2 ++ e ++ rest) =
        (dec', .ok (g, rest))) ∧
      Transfer p.dec.maxCapacity enc.settled hd.field e enc' dec' g (fieldCount ops + 1) ∧
      Synced p.dec.maxCapacity enc ((ops.foldl step p).reader first) (fieldCount ops) := by
  have hrun := synced_run h.fresh.synced h.sizes (by have := h.count; omega)
  rw [Nat.zero_add] at hrun
  have hreader : Synced p.dec.maxCapacity ((ops.foldl step p).enc.configure hd) ((ops.foldl step p).reader first)
      (fieldCount ops) := by
    unfold reader
    split <;> exact { hrun with }
  obtain ⟨e, enc', dec', g, heq, hnext, ht⟩ := hreader.appendHeader h.allowed h.count hd.field hd.store dst
  exact ⟨e, enc', dec', g, heq, hnext, ht, hreader⟩

/-- At any point of any run, a field is read back with its name and value, from exactly its bytes, and an index that is
written stands for both, unless it is the one that is mistaken. -/
theorem field_exact_iff {p : Peers} {ops : List Op} {first : Bool} (h : Before p ops first) (hd : Header)
    (dst : List UInt8) :
    let enc := (ops.foldl step p).enc.configure hd
    let dec := (ops.foldl step p).reader first
    ∃ e enc', enc.appendHeader dst hd.field.hf hd.store = (enc', dst ++ e) ∧ e ≠ [] ∧
      ((∀ rest, ∃ dec' g, dec.next {} (e ++ rest) = (dec', .ok (g, rest)) ∧
          g.key = hd.field.hf.key ∧ g.value = hd.field.hf.value) ∧
        (∀ idx, enc.search hd.field.hf = (idx, true) → ∃ g, dec.peek idx = some g ∧
          g.key = hd.field.hf.key ∧ g.value = hd.field.hf.value) ↔
        ¬ (hd.field.hf.key = ascii "accept-encoding" ∧ hd.field.hf.value = [])) := by
  intro enc dec
  obtain ⟨e, enc', dec', g, heq, hnext, ht, hsync⟩ := h.appendHeader hd dst
  refine ⟨_, enc', heq, fun hnil => ht.nonempty (append_eq_nil_iff.1 hnil).2, ?_, fun hplain => ⟨?_, ?_⟩⟩
  · rintro ⟨hread, -⟩
    obtain ⟨dec₁, g1, hnext1, -, hvalue⟩ := hread []
    have hsame := congrArg Prod.snd ((hnext []).symm.trans hnext1)
    cases hsame
    exact ht.value.1 hvalue
  · exact fun rest => ⟨dec', g, hnext rest, ht.name, ht.value.2 hplain⟩
  · intro idx hidx
    have hsearch := hsync.search hd.field.hf
    rw [hidx] at hsearch
    rcases hsearch with ⟨-, hnot⟩ | ⟨-, -, g, hg⟩
    · cases hnot
    · exact ⟨g, hg.peek, hg.key, (hg.value rfl).2 hplain⟩

/-- At any point of any run, a sensitive field leaves the table as it is, so that nothing later depends on it; it is
written, and read, as never to be indexed unless the tables hold its name and value already. -/
theorem sensible_never_iff {p : Peers} {ops : List Op} {first : Bool} (h : Before p ops first) (hd : Header)
    (hsensible : hd.field.hf.sensible = true) (dst : List UInt8) :
    let enc := (ops.foldl step p).enc.configure hd
    (∀ f : NamedField, f.hf.sensible = true → ∀ store dst',
      (enc.appendHeader dst' f.hf store).1 = enc.settled) ∧
      ∃ e dec' g, enc.appendHeader dst hd.field.hf hd.store = (enc.settled, dst ++ ((enc.appendSizeUpdate []).2 ++ e)) ∧
        (∀ rest, ((ops.foldl step p).reader first).next {} ((enc.appendSizeUpdate []).2 ++ e ++ rest) =
          (dec', .ok (g, rest))) ∧
        (e.headD 0 &&& 0xf0 = 0x10 ∧ g.sensible = true ↔ (enc.search hd.field.hf).2 = false) := by
  intro enc
  refine ⟨fun f hf store dst' => ?_, ?_⟩
  · obtain ⟨e, enc', dec', g, heq, -, ht, -⟩ := h.appendHeader { hd with field := f, store } dst'
    exact (congrArg Prod.fst heq).trans (ht.never hf).1
  · obtain ⟨e, enc', dec', g, heq, hnext, ht, -⟩ := h.appendHeader hd dst
    obtain ⟨rfl, hnever⟩ := ht.never hsensible
    exact ⟨e, dec', g, heq, hnext, hnever⟩

def acquired : Peers := ⟨{}, {}⟩

theorem fresh_acquired : acquired.Fresh := by
  constructor <;> decide

def sampleField : NamedField where
  hf := { key := ascii "x-a", value := ascii "1" }
  named := by decide
  stored := by decide
  key_lt := by decide
  value_lt := by decide

/-- A block, a smaller table, and a block that refers to the first. -/
theorem tables_together_sample :
    ∃ q fields, ([.block [⟨sampleField, true, false, false⟩], .setMaxTableSize 100].foldl step acquired).exchange
        [⟨sampleField, true, false, false⟩, ⟨sampleField, false, true, false⟩] = (q, fields, none) ∧
      fields.map (·.key) = [ascii "x-a", ascii "x-a"] ∧ q.Together ∧ q.enc.maxTableSize = q.dec.maxTableSize := by
  obtain ⟨q, fields, hex, hnames, htogether, hsize⟩ := tables_together fresh_acquired
    [.block [⟨sampleField, true, false, false⟩], .setMaxTableSize 100]
    [⟨sampleField, true, false, false⟩, ⟨sampleField, false, true, false⟩]
    (by
      intro size hmem
      have hsize : size = 100 := by simpa using hmem
      rw [hsize]
      decide)
    (by decide)
  exact ⟨q, fields, hex, hnames, htogether, hsize (Or.inl (cons_ne_nil _ _))⟩

theorem before_acquired : Before acquired [] true := by
  constructor
  · exact fresh_acquired
  · exact nofun
  · decide
  · exact nofun

theorem field_exact_sample :
    ∃ e enc', (acquired.enc.configure ⟨sampleField, true, false, false⟩).appendHeader [] sampleField.hf true =
        (enc', [] ++ e) ∧ e ≠ [] ∧
      ∀ rest, ∃ dec' g, acquired.dec.beginHeaderBlock.next {} (e ++ rest) = (dec', .ok (g, rest)) ∧
        g.key = ascii "x-a" ∧ g.value = ascii "1" := by
  obtain ⟨e, enc', heq, hne, hexact⟩ := field_exact_iff before_acquired ⟨sampleField, true, false, false⟩ []
  exact ⟨e, enc', heq, hne, (hexact.2 (by decide)).1⟩

def acceptEncoding : Header where
  field := ⟨{ key := ascii "accept-encoding" }, by decide, by decide, by decide, by decide⟩
  store := true

/-- It arrives as `gzip, deflate`. -/
theorem empty_accept_encoding :
    (acquired.exchange [acceptEncoding]).2 =
      ([{ key := ascii "accept-encoding", value := ascii "gzip, deflate" }], none) := by
  rfl

def cookie (sensible : Bool) : Header where
  field := ⟨{ key := ascii "cookie", value := ascii "a", sensible }, (by decide : ascii "cookie" ≠ []),
    (by decide : storedKey (ascii "cookie") = ascii "cookie"), (by decide : (ascii "cookie").length < 2 ^ 58),
    (by decide : (ascii "a").length < 2 ^ 58)⟩
  store := true
  disableCompression := true

theorem sensible_never_cookie :
    ∃ e dec' g, (acquired.enc.configure (cookie true)).appendHeader [] (cookie true).field.hf true =
        ((acquired.enc.configure (cookie true)).settled, [] ++ ([] ++ e)) ∧
      (∀ rest, acquired.dec.beginHeaderBlock.next {} ([] ++ e ++ rest) = (dec', .ok (g, rest))) ∧
      e.headD 0 &&& 0xf0 = 0x10 ∧ g.sensible = true := by
  obtain ⟨-, e, dec', g, heq, hnext, hnever⟩ := sensible_never_iff before_acquired (cookie true) rfl []
  exact ⟨e, dec', g, heq, hnext, hnever.2 (by decide)⟩

/-- A sensitive field is written as an index once the table holds it, and is not sensitive for who reads it. -/
theorem sensible_indexed :
    (acquired.enc.encodeBlock [] [cookie false, cookie true]).2 = [0x60, 1, 0x61, 0xbe] ∧
      (acquired.exchange [cookie false, cookie true]).2.1.map (·.sensible) = [false, false] := by
  decide +kernel

/-- A new table size is announced with the next field: after an empty block the decoder does not know it. -/
theorem empty_block_unannounced :
    acquired.Fresh ∧ ∃ q, (acquired.step (.setMaxTableSize 0)).exchange [] = (q, [], none) ∧
      q.enc.maxTableSize = 0 ∧ q.dec.maxTableSize = 4096 :=
  ⟨fresh_acquired, _, rfl, rfl, rfl⟩

end Peers

end Mach.Hpack
