import Mach.Headkit.Headers
/-!
# Header storage as slots and a list

What the storage is for is said by a `View`: at most one field in each slot, and a
list of all others. `Represents` ties the words of the storage to a view, and the
operations on the storage are those on the view as long as it holds.
-/

namespace Mach.Headkit
open Lib List Option

variable {a b : List UInt8}

/-! ## Names -/

theorem equalFoldASCII_iff : equalFoldASCII a b = true ↔ a.map lower = b.map lower := by
  simp [equalFoldASCII]

theorem equalFoldASCII_refl (a : List UInt8) : equalFoldASCII a a = true := equalFoldASCII_iff.2 rfl

theorem equalFoldASCII_comm (a b : List UInt8) : equalFoldASCII a b = equalFoldASCII b a := by
  rw [Bool.eq_iff_iff, equalFoldASCII_iff, equalFoldASCII_iff]
  exact eq_comm

theorem equalFoldASCII_congr (h : equalFoldASCII a b = true) (c : List UInt8) :
    equalFoldASCII a c = equalFoldASCII b c := by
  rw [Bool.eq_iff_iff, equalFoldASCII_iff, equalFoldASCII_iff, equalFoldASCII_iff.1 h]

theorem slotOf_congr (h : equalFoldASCII a b = true) : slotOf a = slotOf b := by
  have hlen : a.length = b.length := by
    have := congrArg List.length (equalFoldASCII_iff.1 h)
    simpa using this
  simp only [slotOf, hlen, equalFoldASCII_congr h]

def slotName : Nat → List UInt8
  | 0 => ascii "Host"
  | 1 => ascii "Connection"
  | 2 => ascii "Content-Length"
  | 3 => ascii "Content-Type"
  | 4 => ascii "User-Agent"
  | _ => ascii "Accept"

/-- What a slot says about a name. -/
def OfSlot (a : List UInt8) : Option Nat → Prop
  | some i => i < 6 ∧ equalFoldASCII a (slotName i) = true
  | none => True

theorem ofSlot_slotOf (a : List UInt8) : OfSlot a (slotOf a) := by
  unfold slotOf
  split
  all_goals
    repeat' refine iteInduction (motive := OfSlot a) (fun h => ?_) (fun _ => ?_)
    all_goals first | exact trivial | exact ⟨by decide, h⟩

theorem slotOf_eq_some {i : Nat} (h : slotOf a = some i) : i < 6 ∧ equalFoldASCII a (slotName i) = true := by
  have := ofSlot_slotOf a
  rwa [h] at this

theorem equalFoldASCII_of_slotOf {i : Nat} (ha : slotOf a = some i) (hb : slotOf b = some i) :
    equalFoldASCII a b = true := by
  rw [equalFoldASCII_congr (slotOf_eq_some ha).2, equalFoldASCII_comm]
  exact (slotOf_eq_some hb).2

/-! ## Views -/

structure View where
  slots : Nat → Option Field
  rest : List Field

namespace View

def named (key : List UInt8) (f : Field) : Bool := equalFoldASCII f.1 key

/-- The value of the first field of a name, empty if there is none. -/
def first (key : List UInt8) (fs : List Field) : List UInt8 := ((fs.find? (named key)).map (·.2)).getD []

def all (v : View) : List Field := (List.range 6).filterMap v.slots ++ v.rest

/-- The value in the slot of a name, empty if there is none. -/
def slotValue (v : View) (key : List UInt8) : List UInt8 := (((slotOf key).bind v.slots).map (·.2)).getD []

def get (v : View) (key : List UInt8) : List UInt8 :=
  if v.slotValue key ≠ [] then v.slotValue key else first key v.rest

def add (v : View) (key val : List UInt8) : View := { v with rest := v.rest ++ [(key, val)] }

def del (v : View) (key : List UInt8) : View :=
  { slots := fun i => (v.slots i).filter fun f => !named key f, rest := v.rest.filter fun f => !named key f }

/-- Each slot holds a field of its name. -/
def Sorted (v : View) : Prop := ∀ i f, v.slots i = some f → slotOf f.1 = some i

section Views

variable {v : View} {key val name : List UInt8}

theorem sorted_add (h : v.Sorted) : (v.add key val).Sorted := h

theorem sorted_del (h : v.Sorted) : (v.del key).Sorted := by
  intro i f hf
  exact h i f (filter_eq_some_iff.1 hf).1

theorem all_add : (v.add key val).all = v.all ++ [(key, val)] := by simp [all, add]

theorem all_del : (v.del key).all = v.all.filter fun f => !named key f := by
  rw [all, all, filter_append, filter_filterMap]
  rfl

theorem named_iff {f : Field} : named key f = true ↔ equalFoldASCII f.1 key = true := Iff.rfl

theorem not_named (hne : equalFoldASCII name key = false) {f : Field} (hf : named name f = true) :
    named key f = false := by
  rw [named, equalFoldASCII_congr hf]
  exact hne

theorem first_append (fs : List Field) (hne : equalFoldASCII name key = false) :
    first name (fs ++ [(key, val)]) = first name fs := by
  have : named name (key, val) = false := by
    rw [named, equalFoldASCII_comm]
    exact hne
  simp [first, find?_append, this]

theorem first_filter (fs : List Field) (hne : equalFoldASCII name key = false) :
    first name (fs.filter fun f => !named key f) = first name fs := by
  rw [first, first, find?_filter]
  congr 2
  refine congrArg (fun p => List.find? p fs) (funext fun f => ?_)
  cases hf : named name f with
  | false => simp
  | true => simp [not_named hne hf]

theorem slotValue_del (hs : v.Sorted) {b : Bool} (hb : ∀ {f}, named name f = true → named key f = b) :
    (v.del key).slotValue name = if b then [] else v.slotValue name := by
  unfold slotValue
  cases hi : slotOf name with
  | none => cases b <;> rfl
  | some i =>
    simp only [bind_some, del]
    cases hf : v.slots i with
    | none => cases b <;> rfl
    | some f =>
      rw [filter_some, hb (equalFoldASCII_of_slotOf (hs i f hf) hi)]
      cases b <;> rfl

theorem get_add_of_ne (hne : equalFoldASCII name key = false) : (v.add key val).get name = v.get name := by
  change (if v.slotValue name ≠ [] then v.slotValue name else first name (v.rest ++ [(key, val)])) = _
  rw [first_append _ hne]
  rfl

theorem get_del_of_ne (hs : v.Sorted) (hne : equalFoldASCII name key = false) : (v.del key).get name = v.get name := by
  rw [get, get, slotValue_del hs (not_named hne), if_neg Bool.false_ne_true]
  change (if _ then _ else first name (v.rest.filter fun f => !named key f)) = _
  rw [first_filter _ hne]

theorem slotValue_del_self (hs : v.Sorted) : (v.del key).slotValue key = [] := slotValue_del hs fun hf => hf

theorem first_filter_self (fs : List Field) : (fs.filter fun f => !named key f).find? (named key) = none := by
  rw [find?_filter, find?_eq_none]
  intro f _
  cases named key f <;> simp

theorem get_del_self (hs : v.Sorted) : (v.del key).get key = [] := by
  rw [get, slotValue_del_self hs, if_neg (by simp)]
  change first key (v.rest.filter fun f => !named key f) = []
  rw [first, first_filter_self]
  rfl

theorem get_set_self (hs : v.Sorted) : ((v.del key).add key val).get key = val := by
  have hslot : ((v.del key).add key val).slotValue key = [] := slotValue_del_self hs
  have hself : named key (key, val) = true := equalFoldASCII_refl key
  rw [get, hslot, if_neg (by simp)]
  change first key ((v.rest.filter fun f => !named key f) ++ [(key, val)]) = val
  rw [first, find?_append, first_filter_self]
  simp [hself]

theorem slotValue_of_absent (hs : v.Sorted) (hno : ∀ f ∈ v.all, named key f = false) : v.slotValue key = [] := by
  unfold slotValue
  cases hi : slotOf key with
  | none => rfl
  | some i =>
    rw [bind_some]
    cases hf : v.slots i with
    | none => rfl
    | some f =>
      have hmem : f ∈ v.all := by
        rw [all, mem_append, mem_filterMap]
        exact .inl ⟨i, mem_range.2 (slotOf_eq_some hi).1, hf⟩
      have hfn : named key f = true := equalFoldASCII_of_slotOf (hs i f hf) hi
      rw [hno f hmem] at hfn
      cases hfn

theorem find?_of_absent (hno : ∀ f ∈ v.all, named key f = false) : v.rest.find? (named key) = none := by
  rw [find?_eq_none]
  intro f hf
  rw [hno f (by rw [all]; exact mem_append_right _ hf)]
  simp

theorem get_of_absent (hs : v.Sorted) (hno : ∀ f ∈ v.all, named key f = false) : v.get key = [] := by
  rw [get, slotValue_of_absent hs hno, if_neg (by simp), first, find?_of_absent hno]
  rfl

theorem get_add_self (hs : v.Sorted) (hno : ∀ f ∈ v.all, named key f = false) : (v.add key val).get key = val := by
  have hslot : (v.add key val).slotValue key = [] := slotValue_of_absent (v := v) hs hno
  have hself : named key (key, val) = true := equalFoldASCII_refl key
  rw [get, hslot, if_neg (by simp)]
  change first key (v.rest ++ [(key, val)]) = val
  rw [first, find?_append, find?_of_absent hno]
  simp [hself]

end Views

end View

/-! ## The words of a view -/

def Headers.others (h : Headers) : List Nat :=
  ((List.range' idxReservedCount (h.count - idxReservedCount)).map h.packed).filter (· ≠ 0)

/-- The storage holds the fields of a view. -/
structure Represents (h : Headers) (v : View) : Prop where
  slots : ∀ i < 6, match v.slots i with
    | none => h.packed i = 0
    | some f => h.packed i ≠ 0 ∧ h.entry (h.packed i) = some f
  reserved : ∀ i, 6 ≤ i → i < idxReservedCount → h.packed i = 0
  count : idxReservedCount ≤ h.count
  rest : ∃ fs, h.others.mapM h.entry = some fs ∧ v.rest = fs ++ h.dynamic

section Represents

variable {h : Headers} {v : View} {is : List Nat} {f : Field} {i : Nat}

theorem words_eq (hcount : idxReservedCount ≤ h.count) :
    ((List.range h.count).map h.packed).filter (· ≠ 0) =
      ((List.range idxReservedCount).map h.packed).filter (· ≠ 0) ++ h.others := by
  have hr : List.range h.count =
      List.range idxReservedCount ++ List.range' idxReservedCount (h.count - idxReservedCount) := by
    have := @range'_append 0 idxReservedCount (h.count - idxReservedCount) 1
    rw [Nat.one_mul, Nat.zero_add, Nat.add_sub_cancel' hcount] at this
    rw [range_eq_range', range_eq_range', this]
  rw [hr, map_append, filter_append]
  rfl

theorem mapM_entry {slots : Nat → Option Field} (hs : ∀ i ∈ is, match slots i with
    | none => h.packed i = 0
    | some f => h.packed i ≠ 0 ∧ h.entry (h.packed i) = some f) :
    ((is.map h.packed).filter (· ≠ 0)).mapM h.entry = some (is.filterMap slots) := by
  induction is with
  | nil => rfl
  | cons i is ih =>
    have ih := ih fun j hj => hs j (mem_cons_of_mem _ hj)
    have hi := hs i mem_cons_self
    rw [map_cons, filterMap_cons]
    cases hf : slots i with
    | none =>
      rw [hf] at hi
      rw [filter_cons_of_neg (by simpa using hi), ih]
    | some f =>
      rw [hf] at hi
      rw [filter_cons_of_pos (by simpa using hi.1), mapM_cons, hi.2, ih]
      rfl

theorem mapM_slots (hr : Represents h v) :
    (((List.range idxReservedCount).map h.packed).filter (· ≠ 0)).mapM h.entry = some ((List.range 6).filterMap v.slots) := by
  have hsplit : List.range idxReservedCount = List.range 6 ++ List.range' 6 10 := by decide
  have hnil : ((List.range' 6 10).map h.packed).filter (· ≠ 0) = [] := by
    refine filter_eq_nil_iff.2 fun p hp => ?_
    obtain ⟨i, hi, rfl⟩ := mem_map.1 hp
    rw [mem_range'_1] at hi
    simp [hr.reserved i hi.1 hi.2]
  rw [hsplit, map_append, filter_append, hnil, append_nil]
  exact mapM_entry fun i hi => hr.slots i (mem_range.1 hi)

theorem Represents.all (hr : Represents h v) : h.all = some v.all := by
  obtain ⟨fs, hfs, hrest⟩ := hr.rest
  rw [Headers.all, words_eq hr.count, mapM_append, mapM_slots hr, hfs]
  simp [View.all, hrest]

theorem entry_eq_some {p : Nat} (hf : h.entry p = some f) : h.getKey p = some f.1 ∧ h.getVal p = some f.2 := by
  obtain ⟨k, hk, hv⟩ := bind_eq_some_iff.1 hf
  obtain ⟨w, hw, rfl⟩ := map_eq_some_iff.1 hv
  exact ⟨hk, hw⟩

theorem Represents.getSlot (hr : Represents h v) (key : List UInt8) : h.getSlot key = some (v.slotValue key) := by
  unfold Headers.getSlot View.slotValue
  cases hi : slotOf key with
  | none => rfl
  | some i =>
    have hs := hr.slots i (slotOf_eq_some hi).1
    rw [bind_some]
    cases hf : v.slots i with
    | none =>
      rw [hf] at hs
      dsimp only
      rw [hs]
      rfl
    | some f =>
      rw [hf] at hs
      exact (entry_eq_some hs.2).2

theorem findPacked_eq (key : List UInt8) {fs : List Field}
    (hfs : ((is.map h.packed).filter (· ≠ 0)).mapM h.entry = some fs) :
    h.findPacked key is = some ((fs.find? (View.named key)).map (·.2)) := by
  induction is generalizing fs with
  | nil =>
    cases hfs
    rfl
  | cons i is ih =>
    rw [Headers.findPacked]
    rw [map_cons] at hfs
    split
    · rename_i hz
      rw [filter_cons_of_neg (by simpa using hz)] at hfs
      exact ih hfs
    · rename_i hz
      rw [filter_cons_of_pos (by simpa using hz), mapM_cons] at hfs
      obtain ⟨f, hf, hfs⟩ := bind_eq_some_iff.1 hfs
      obtain ⟨fs', hfs', he⟩ := bind_eq_some_iff.1 hfs
      cases he
      obtain ⟨hk, hv⟩ := entry_eq_some hf
      rw [hk, find?_cons]
      dsimp only
      cases hn : View.named key f with
      | true =>
        rw [if_pos (show equalFoldASCII f.1 key = true from hn), hv]
        rfl
      | false =>
        rw [if_neg (by rw [show equalFoldASCII f.1 key = false from hn]; simp), ih hfs']

theorem Represents.get (hr : Represents h v) (key : List UInt8) : h.get key = some (v.get key) := by
  obtain ⟨fs, hfs, hrest⟩ := hr.rest
  rw [Headers.get, hr.getSlot, bind_some, View.get]
  split
  · rfl
  · rw [findPacked_eq key hfs, hrest, View.first, find?_append, map_some]
    congr 1
    cases fs.find? (View.named key) with
    | none => rfl
    | some f => rfl

theorem Represents.add (hr : Represents h v) (key val : List UInt8) : Represents (h.add key val) (v.add key val) := by
  obtain ⟨fs, hfs, hrest⟩ := hr.rest
  refine ⟨hr.slots, hr.reserved, hr.count, fs, hfs, ?_⟩
  change v.rest ++ [(key, val)] = fs ++ (h.dynamic ++ [(key, val)])
  rw [hrest, append_assoc]

/-- The words that `Del` leaves. -/
def Headers.cleared (h : Headers) (key : List UInt8) : Headers :=
  { h with
    packed := fun i => if i < h.count ∧ h.names key i = some true then 0 else h.packed i
    dynamic := h.dynamic.filter fun f => !equalFoldASCII f.1 key }

variable {key : List UInt8}

theorem names_of_entry (hne : h.packed i ≠ 0)
    (hf : h.entry (h.packed i) = some f) : h.names key i = some (View.named key f) := by
  rw [Headers.names, if_neg hne, (entry_eq_some hf).1]
  rfl

theorem names_of_zero (hz : h.packed i = 0) : h.names key i = some false := if_pos hz

theorem packed_cleared_of_zero (hz : h.packed i = 0) : (h.cleared key).packed i = 0 := by
  simp [Headers.cleared, hz]

theorem packed_cleared (hi : i < h.count) (hne : h.packed i ≠ 0)
    (hf : h.entry (h.packed i) = some f) :
    (h.cleared key).packed i = if View.named key f then 0 else h.packed i := by
  simp [Headers.cleared, hi, names_of_entry hne hf]

theorem mapM_cleared (key : List UInt8) (his : ∀ i ∈ is, i < h.count) {fs : List Field}
    (hfs : ((is.map h.packed).filter (· ≠ 0)).mapM h.entry = some fs) :
    ((is.map (h.cleared key).packed).filter (· ≠ 0)).mapM h.entry = some (fs.filter fun f => !View.named key f) ∧
      ∀ i ∈ is, (h.names key i).isSome = true := by
  induction is generalizing fs with
  | nil =>
    cases hfs
    exact ⟨rfl, nofun⟩
  | cons i is ih =>
    have his' : ∀ j ∈ is, j < h.count := fun j hj => his j (mem_cons_of_mem _ hj)
    rw [map_cons] at hfs ⊢
    by_cases hz : h.packed i = 0
    · rw [filter_cons_of_neg (by simpa using hz)] at hfs
      obtain ⟨ih, hnames⟩ := ih his' hfs
      rw [filter_cons_of_neg (by simpa using packed_cleared_of_zero hz), ih]
      refine ⟨rfl, fun j hj => ?_⟩
      obtain rfl | hj := mem_cons.1 hj
      · rw [names_of_zero hz]
        rfl
      · exact hnames j hj
    · rw [filter_cons_of_pos (by simpa using hz), mapM_cons] at hfs
      obtain ⟨f, hf, hfs⟩ := bind_eq_some_iff.1 hfs
      obtain ⟨fs', hfs', he⟩ := bind_eq_some_iff.1 hfs
      cases he
      obtain ⟨ih, hnames⟩ := ih his' hfs'
      constructor
      · rw [packed_cleared (his i mem_cons_self) hz hf]
        cases hn : View.named key f with
        | true =>
          rw [if_pos rfl, filter_cons_of_neg (by simp), ih, filter_cons_of_neg (by simp [hn])]
        | false =>
          rw [if_neg (by simp), filter_cons_of_pos (by simpa using hz), mapM_cons, hf, ih,
            filter_cons_of_pos (by simp [hn])]
          rfl
      · intro j hj
        obtain rfl | hj := mem_cons.1 hj
        · rw [names_of_entry hz hf]
          rfl
        · exact hnames j hj

theorem Represents.names_isSome (hr : Represents h v) (key : List UInt8) (hi : i < h.count) :
    (h.names key i).isSome = true := by
  by_cases h6 : i < 6
  · have hs := hr.slots i h6
    cases hf : v.slots i with
    | none =>
      rw [hf] at hs
      rw [names_of_zero hs]
      rfl
    | some f =>
      rw [hf] at hs
      rw [names_of_entry hs.1 hs.2]
      rfl
  by_cases h16 : i < idxReservedCount
  · rw [names_of_zero (hr.reserved i (by omega) h16)]
    rfl
  · obtain ⟨fs, hfs, -⟩ := hr.rest
    refine (mapM_cleared key (fun j hj => ?_) hfs).2 i ?_
    · rw [mem_range'_1] at hj
      omega
    · rw [mem_range'_1]
      omega

theorem Represents.del (hr : Represents h v) (key : List UInt8) :
    h.del key = some (h.cleared key) ∧ Represents (h.cleared key) (v.del key) := by
  have hcount := hr.count
  refine ⟨if_pos ?_, ⟨fun i hi => ?_, fun i h6 h16 => ?_, hr.count, ?_⟩⟩
  · exact all_eq_true.2 fun i hi => hr.names_isSome key (mem_range.1 hi)
  · have hs := hr.slots i hi
    have hlt : i < h.count := lt_of_lt_of_le (lt_trans hi (by decide)) hcount
    simp only [View.del]
    cases hf : v.slots i with
    | none =>
      rw [hf] at hs
      exact packed_cleared_of_zero hs
    | some f =>
      rw [hf] at hs
      rw [filter_some, packed_cleared hlt hs.1 hs.2]
      cases hn : View.named key f with
      | true => rfl
      | false => exact hs
  · exact packed_cleared_of_zero (hr.reserved i h6 h16)
  · obtain ⟨fs, hfs, hrest⟩ := hr.rest
    refine ⟨fs.filter fun f => !View.named key f, (mapM_cleared key (fun j hj => ?_) hfs).1, ?_⟩
    · rw [mem_range'_1] at hj
      omega
    · change v.rest.filter _ = _
      rw [hrest, filter_append]
      rfl

end Represents

end Mach.Headkit
