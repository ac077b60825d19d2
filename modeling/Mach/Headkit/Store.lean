import Mach.Headkit.Scan
import Mach.Headkit.View
/-!
# What a parsed header block leaves in the storage

The fields of a block should all be there, once each as far as the block has them
once, and `Get` should find the first one of a name. A slot holds one field only:
Host and Content-Length have a rule for the second, the other four forget the
first. And a word has sixteen bits for an offset: a block of 65536 octets can have
a line whose word says something else. `storage_exact_iff` says that this is all.
-/

namespace Mach.Headkit
open Lib List Headers View Function Nat Option

/-! ## The property -/

def isLength (f : Field) : Bool := slotOf f.1 == some idxContentLength

/-- The lines of a block without the repetitions of a Content-Length line. -/
def kept (fs : List Field) : List Field :=
  fs.foldl (fun acc f => if acc.any fun g => isLength g && isLength f && g.2 == f.2 then acc else acc ++ [f]) []

/-- The calls that change the storage later. -/
inductive Op where
  | set (key val : List UInt8)
  | add (key val : List UInt8)
  | del (key : List UInt8)
  deriving DecidableEq, Repr

namespace Op

def key : Op → List UInt8
  | set key _ | add key _ | del key => key

def apply (h : Headers) : Op → Option Headers
  | set key val => h.set key val
  | add key val => some (h.add key val)
  | del key => h.del key

def change (fs : List Field) : Op → List Field
  | set key val => (fs.filter fun f => !View.named key f) ++ [(key, val)]
  | add key val => fs ++ [(key, val)]
  | del key => fs.filter fun f => !View.named key f

/-- What `Get` of the name then answers. -/
def Answered (fs : List Field) (answer : Option (List UInt8)) : Op → Prop
  | set _ val => answer = some val
  | add key val => (∀ f ∈ fs, View.named key f = false) → answer = some val
  | del _ => answer = some []

end Op

/-- A call changes the fields of its name and no other. -/
def ChangesOnly (h : Headers) (op : Op) : Prop :=
  ∃ h' fs, op.apply h = some h' ∧ h.all = some fs ∧ h'.all = some (op.change fs) ∧
    (∀ name, equalFoldASCII name op.key = false → h'.get name = h.get name) ∧ op.Answered fs (h'.get op.key)

/-- The storage has the fields of the lines, and keeps to them. -/
structure Exact (h : Headers) (lines : List Field) : Prop where
  all : ∃ fs, h.all = some fs ∧ fs.Perm (kept lines)
  get : ∀ name, h.get name = some (View.first name lines)
  later : ∀ ops : List Op, ∃ h', ops.foldlM Op.apply h = some h' ∧ ∀ op, ChangesOnly h' op

/-- The slots that forget what they held. -/
def overwritten : List Nat := [idxConnection, idxContentType, idxUserAgent, idxAccept]

def slotted (i : Nat) (fs : List Field) : List Field := fs.filter fun f => slotOf f.1 == some i

/-- No line has the slot of an earlier one, if the slot forgets. -/
def NoRepeat (fs : List Field) : Prop := ∀ i ∈ overwritten, (slotted i fs).length ≤ 1

/-! ## Later calls -/

section Later

variable {h : Headers} {v : View}

theorem Represents.apply (hr : Represents h v) (hs : v.Sorted) (op : Op) :
    ∃ h' v', op.apply h = some h' ∧ Represents h' v' ∧ v'.Sorted ∧ v'.all = op.change v.all ∧
      (∀ name, equalFoldASCII name op.key = false → v'.get name = v.get name) ∧
      op.Answered v.all (some (v'.get op.key)) := by
  cases op with
  | set key val =>
    obtain ⟨hd, hr'⟩ := hr.del key
    refine ⟨_, _, ?_, hr'.add key val, sorted_add (sorted_del hs), ?_, fun name hne => ?_, ?_⟩
    · rw [Op.apply, Headers.set, hd]
      rfl
    · rw [all_add, all_del]
      rfl
    · exact (get_add_of_ne hne).trans (get_del_of_ne hs hne)
    · exact congrArg some (get_set_self hs)
  | add key val =>
    refine ⟨_, _, rfl, hr.add key val, sorted_add hs, all_add, fun name hne => get_add_of_ne hne, ?_⟩
    exact fun hno => congrArg some (get_add_self hs hno)
  | del key =>
    obtain ⟨hd, hr'⟩ := hr.del key
    exact ⟨_, _, hd, hr', sorted_del hs, all_del, fun name hne => get_del_of_ne hs hne,
      congrArg some (get_del_self hs)⟩

theorem Represents.changesOnly (hr : Represents h v) (hs : v.Sorted) (op : Op) : ChangesOnly h op := by
  obtain ⟨h', v', happ, hr', -, hall, hget, hans⟩ := hr.apply hs op
  refine ⟨h', v.all, happ, hr.all, by rw [hr'.all, hall], fun name hne => ?_, ?_⟩
  · rw [hr'.get, hr.get, hget name hne]
  · rw [hr'.get]
    exact hans

theorem Represents.later (hr : Represents h v) (hs : v.Sorted) (ops : List Op) :
    ∃ h', ops.foldlM Op.apply h = some h' ∧ ∀ op, ChangesOnly h' op := by
  induction ops generalizing h v with
  | nil => exact ⟨h, rfl, hr.changesOnly hs⟩
  | cons op ops ih =>
    obtain ⟨h', v', happ, hr', hs', -⟩ := hr.apply hs op
    obtain ⟨h'', hrun, hall⟩ := ih hr' hs'
    exact ⟨h'', by rw [foldlM_cons, happ]; exact hrun, hall⟩

end Later

/-! ## Entering the fields -/

def Place.word (q : Place) : Nat := pack q.keyStart q.keyLen q.valStart q.valLen

def Place.field (block : List UInt8) (q : Place) : Field :=
  (slice block q.keyStart (q.keyStart + q.keyLen), slice block q.valStart (q.valStart + q.valLen))

/-- The word of a place says what stands there. -/
def Legible (block : List UInt8) (q : Place) : Prop :=
  q.word ≠ 0 ∧ ({ buf := block } : Headers).entry q.word = some (q.field block)

/-- The slots with the first field of their name, or with the last. -/
def storedView (fs : List Field) : View where
  slots i := if i ∈ overwritten then (slotted i fs).getLast? else (slotted i fs).head?
  rest := fs.filter fun f => slotOf f.1 == none

theorem sorted_storedView (fs : List Field) : (storedView fs).Sorted := by
  intro i f hf
  have hmem : f ∈ slotted i fs := by
    simp only [storedView] at hf
    split at hf
    · exact mem_of_getLast? hf
    · exact mem_of_head? hf
  simpa using (mem_filter.1 hmem).2

/-- The view has all lines there are to keep, or fewer if a slot forgot one. -/
structure Accounted (fs : List Field) : Prop where
  perm : NoRepeat fs → (storedView fs).all.Perm (kept fs)
  fewer : ¬ NoRepeat fs → (storedView fs).all.length < (kept fs).length

/-- The storage after some lines that were accepted. -/
structure Entered (block : List UInt8) (fs : List Field) (h : Headers) : Prop where
  buf : h.buf = block
  repr : Represents h (storedView fs)
  room : h.count < maxHeaders → h.dynamic = []
  accounted : Accounted fs

variable {h : Headers}

theorem entry_of_buf {block : List UInt8} (hbuf : h.buf = block) :
    h.entry = ({ buf := block } : Headers).entry := by
  funext p
  simp only [entry, getKey, getVal, sliceAt, hbuf]

theorem Represents.congr {v v' : View} (hr : Represents h v) (hs : ∀ i < 6, v'.slots i = v.slots i)
    (hrest : v'.rest = v.rest) : Represents h v' := by
  obtain ⟨fs, hfs, hrest'⟩ := hr.rest
  refine ⟨fun i hi => ?_, hr.reserved, hr.count, fs, hfs, hrest.trans hrest'⟩
  rw [hs i hi]
  exact hr.slots i hi

theorem Represents.put {v : View} (hr : Represents h v) {i p : Nat} {f : Field} (hi : i < 6) (hp : p ≠ 0)
    (hf : h.entry p = some f) : Represents (h.put i p) { v with slots := Function.update v.slots i (some f) } := by
  obtain ⟨fs, hfs, hrest⟩ := hr.rest
  refine ⟨fun j hj => ?_, fun j h6 h16 => ?_, hr.count, fs, ?_, hrest⟩
  · simp only [update_apply]
    by_cases hji : j = i
    · subst hji
      simp only [if_true]
      have hat : (h.put j p).packed j = p := by simp [Headers.put]
      rw [hat]
      exact ⟨hp, hf⟩
    · rw [if_neg hji]
      have hat : (h.put i p).packed j = h.packed j := by simp [Headers.put, hji]
      rw [hat]
      exact hr.slots j hj
  · have hat : (h.put i p).packed j = h.packed j := by simp [Headers.put, show j ≠ i by omega]
    rw [hat]
    exact hr.reserved j h6 h16
  · have hothers : (h.put i p).others = h.others := by
      rw [others, others]
      congr 1
      refine map_congr_left fun j hj => ?_
      rw [mem_range'_1] at hj
      simp [Headers.put, show j ≠ i by unfold idxReservedCount at hj; omega]
    rw [hothers]
    exact hfs

theorem Represents.addOther {v : View} (hr : Represents h v) (hroom : h.count < maxHeaders → h.dynamic = [])
    {p : Nat} {f : Field} (hp : p ≠ 0) (hf : h.entry p = some f) :
    Represents (h.addOther f.1 f.2 p) { v with rest := v.rest ++ [f] } := by
  obtain ⟨fs, hfs, hrest⟩ := hr.rest
  have hcount := hr.count
  unfold Headers.addOther
  split
  · rename_i hlt
    have hat : ∀ j ≠ h.count, Function.update h.packed h.count p j = h.packed j := fun j hj =>
      update_of_ne hj _ _
    refine ⟨fun j hj => ?_, fun j h6 h16 => ?_, ?_, fs ++ [f], ?_, ?_⟩
    · dsimp only [Headers.put]
      rw [hat j (by unfold idxReservedCount at hcount; omega)]
      exact hr.slots j hj
    · change Function.update h.packed h.count p j = 0
      rw [hat j (by omega)]
      exact hr.reserved j h6 h16
    · exact le_succ_of_le hcount
    · have hothers : others { h.put h.count p with count := h.count + 1 } = h.others ++ [p] := by
        rw [others, others]
        change ((List.range' idxReservedCount (h.count + 1 - idxReservedCount)).map
          (Function.update h.packed h.count p)).filter _ = _
        rw [show h.count + 1 - idxReservedCount = (h.count - idxReservedCount) + 1 by omega, range'_1_concat,
          map_append, filter_append, Nat.add_sub_cancel' hcount]
        congr 1
        · congr 1
          refine map_congr_left fun j hj => hat j ?_
          rw [mem_range'_1] at hj
          omega
        · simp [hp]
      rw [hothers]
      change (h.others ++ [p]).mapM h.entry = _
      rw [mapM_append, hfs, mapM_cons, hf]
      rfl
    · change v.rest ++ [f] = fs ++ [f] ++ h.dynamic
      rw [hrest, hroom hlt]
      simp
  · refine ⟨hr.slots, hr.reserved, hcount, fs, hfs, ?_⟩
    change v.rest ++ [f] = fs ++ (h.dynamic ++ [f])
    rw [hrest, append_assoc]

/-! ## One line more -/

section Append

variable {fs : List Field} {f : Field} {i : Nat}

theorem slotted_append (i : Nat) (fs : List Field) (f : Field) :
    slotted i (fs ++ [f]) = if slotOf f.1 = some i then slotted i fs ++ [f] else slotted i fs := by
  rw [slotted, filter_append, slotted]
  split
  · rename_i hi
    rw [filter_cons_of_pos (by simp [hi])]
    rfl
  · rename_i hi
    rw [filter_cons_of_neg (by simp [hi]), filter_nil, append_nil]

theorem slots_append_of_ne (hi : slotOf f.1 ≠ some i) : (storedView (fs ++ [f])).slots i = (storedView fs).slots i := by
  simp only [storedView, slotted_append, if_neg hi]

theorem slots_append_self (hi : slotOf f.1 = some i) (hfree : i ∈ overwritten ∨ slotted i fs = []) :
    (storedView (fs ++ [f])).slots i = some f := by
  simp only [storedView, slotted_append, if_pos hi]
  obtain hov | hnil := hfree
  · rw [if_pos hov, getLast?_concat]
  · rw [hnil]
    split <;> rfl

theorem rest_append (fs : List Field) (f : Field) :
    (storedView (fs ++ [f])).rest = if slotOf f.1 = none then (storedView fs).rest ++ [f] else (storedView fs).rest := by
  simp only [storedView, filter_append]
  split
  · rename_i hi
    simp [hi]
  · rename_i hi
    simp [hi]

theorem all_append (hi : slotOf f.1 = some i) (hat : (storedView (fs ++ [f])).slots i = some f) :
    ∃ l1 l2, (storedView fs).all = l1 ++ ((storedView fs).slots i).toList ++ l2 ∧
      (storedView (fs ++ [f])).all = l1 ++ f :: l2 := by
  obtain ⟨is, js, hr⟩ := append_of_mem (mem_range.2 (slotOf_eq_some hi).1)
  have hnd : (is ++ i :: js).Nodup := hr ▸ nodup_range
  have hoff : ∀ ks : List Nat, i ∉ ks → ks.filterMap (storedView (fs ++ [f])).slots = ks.filterMap (storedView fs).slots :=
    fun ks hks => filterMap_congr fun j hj =>
      slots_append_of_ne fun hs => hks (Option.some.inj (hi.symm.trans hs) ▸ hj)
  obtain ⟨hni, -⟩ := nodup_cons.1 (perm_middle.nodup_iff.1 hnd)
  rw [mem_append, not_or] at hni
  refine ⟨is.filterMap (storedView fs).slots, js.filterMap (storedView fs).slots ++ (storedView fs).rest, ?_, ?_⟩
  · rw [View.all, hr, filterMap_append, filterMap_cons]
    cases (storedView fs).slots i <;> simp
  · rw [View.all, hr, filterMap_append, filterMap_cons, hat, hoff _ hni.1, hoff _ hni.2, rest_append,
      if_neg (by simp [hi])]
    simp

theorem kept_append (fs : List Field) (f : Field) :
    kept (fs ++ [f]) = if (kept fs).any fun g => isLength g && isLength f && g.2 == f.2 then kept fs else kept fs ++ [f] := by
  rw [kept, foldl_append]
  rfl

/-- Lines are kept, and of the Content-Length lines with one value the first. -/
theorem kept_spec (fs : List Field) : (∀ g ∈ kept fs, g ∈ fs) ∧
    ∀ f ∈ fs, isLength f = true → ∃ g ∈ kept fs, isLength g = true ∧ g.2 = f.2 := by
  induction fs using List.reverseRecOn with
  | nil => exact ⟨nofun, nofun⟩
  | append_singleton fs f ih =>
    rw [kept_append]
    split
    · rename_i hany
      obtain ⟨g, hg, hgf⟩ := any_eq_true.1 hany
      simp only [Bool.and_eq_true, beq_iff_eq] at hgf
      refine ⟨fun x hx => mem_append_left _ (ih.1 x hx), fun x hx hl => ?_⟩
      obtain hx | hx := mem_append.1 hx
      · exact ih.2 x hx hl
      · exact ⟨g, hg, hgf.1.1, mem_singleton.1 hx ▸ hgf.2⟩
    · refine ⟨fun x hx => ?_, fun x hx hl => ?_⟩
      · exact mem_append.2 ((mem_append.1 hx).imp_left (ih.1 x))
      · obtain hx | hx := mem_append.1 hx
        · obtain ⟨g, hg, h⟩ := ih.2 x hx hl
          exact ⟨g, mem_append_left _ hg, h⟩
        · exact ⟨x, mem_append_right _ hx, hl, rfl⟩

theorem kept_append_new (h : isLength f = true → slotted idxContentLength fs = []) : kept (fs ++ [f]) = kept fs ++ [f] := by
  rw [kept_append, if_neg]
  rintro hany
  obtain ⟨g, hg, hgf⟩ := any_eq_true.1 hany
  simp only [Bool.and_eq_true] at hgf
  have hmem : g ∈ slotted idxContentLength fs := mem_filter.2 ⟨(kept_spec fs).1 g hg, hgf.1.1⟩
  rw [h hgf.1.2] at hmem
  cases hmem

theorem noRepeat_append (h : ∀ i ∈ overwritten, slotOf f.1 = some i → slotted i fs = []) :
    NoRepeat (fs ++ [f]) ↔ NoRepeat fs := by
  refine forall₂_congr fun i hi => ?_
  rw [slotted_append]
  split
  · rename_i hs
    simp [h i hi hs]
  · rfl

namespace Accounted

variable (ha : Accounted fs)
include ha

/-- A line that is kept, with a place of its own. -/
theorem new (hall : (storedView (fs ++ [f])).all.Perm (f :: (storedView fs).all)) (hkept : kept (fs ++ [f]) = kept fs ++ [f])
    (hno : NoRepeat (fs ++ [f]) ↔ NoRepeat fs) : Accounted (fs ++ [f]) := by
  constructor
  · intro h
    rw [hkept]
    exact hall.trans (((ha.perm (hno.1 h)).cons f).trans (perm_append_singleton f _).symm)
  · intro h
    have := ha.fewer fun hn => h (hno.2 hn)
    rw [hkept, hall.length_eq, length_append]
    exact succ_lt_succ this

theorem other (hi : slotOf f.1 = none) : Accounted (fs ++ [f]) := by
  refine ha.new ?_ (kept_append_new fun h => ?_) (noRepeat_append fun i _ hs => ?_)
  · have hs : (storedView (fs ++ [f])).slots = (storedView fs).slots := funext fun i => slots_append_of_ne (by simp [hi])
    rw [View.all, View.all, hs, rest_append, if_pos hi, ← append_assoc]
    exact perm_append_singleton f _
  · simp [isLength, hi] at h
  · simp [hi] at hs

theorem slot (hi : slotOf f.1 = some i) (hfree : i ∈ overwritten ∨ slotted i fs = []) : Accounted (fs ++ [f]) := by
  obtain ⟨l1, l2, hv, hw⟩ := all_append hi (slots_append_self hi hfree)
  by_cases hnil : slotted i fs = []
  · have hnone : (storedView fs).slots i = none := by simp [storedView, hnil]
    have hslot : ∀ j, slotOf f.1 = some j → slotted j fs = [] := fun j hj => by
      rwa [← Option.some.inj (hi.symm.trans hj)]
    refine ha.new ?_ (kept_append_new fun h => hslot _ (by simpa [isLength] using h)) (noRepeat_append fun j _ => hslot j)
    rw [hw, hv, hnone]
    simp
  · -- The slot forgets the line it had.
    have hov := hfree.resolve_right hnil
    have hkept : kept (fs ++ [f]) = kept fs ++ [f] := kept_append_new fun h => by
      have : i = idxContentLength := by simpa [isLength, hi] using h
      exact absurd (this ▸ hov) (by decide)
    have hlen : (storedView fs).all.length = (storedView (fs ++ [f])).all.length := by
      obtain ⟨g, hg⟩ : ∃ g, (storedView fs).slots i = some g := by
        simp only [storedView, if_pos hov]
        exact ⟨_, getLast?_eq_some_getLast hnil⟩
      rw [hv, hw, hg]
      simp
    have hle : (storedView fs).all.length ≤ (kept fs).length := by
      by_cases hno : NoRepeat fs
      · exact (ha.perm hno).length_eq.le
      · exact (ha.fewer hno).le
    constructor
    · intro hno
      have := hno i hov
      rw [slotted_append, if_pos hi, length_append] at this
      exact absurd (length_eq_zero_iff.1 (le_zero.1 (le_of_succ_le_succ this))) hnil
    · intro _
      rw [← hlen, hkept, length_append]
      exact lt_succ_of_le hle

/-- A Content-Length line again. -/
theorem again (hi : slotOf f.1 = some idxContentLength) {g : Field} (hg : g ∈ slotted idxContentLength fs) (hgf : g.2 = f.2)
    (hall : (storedView (fs ++ [f])).all = (storedView fs).all) : Accounted (fs ++ [f]) := by
  obtain ⟨hg, hgl⟩ := mem_filter.1 hg
  obtain ⟨g', hg', hl, hval⟩ := (kept_spec fs).2 g hg hgl
  have hkept : kept (fs ++ [f]) = kept fs := by
    rw [kept_append, if_pos]
    exact any_eq_true.2 ⟨g', hg', by simp [hl, show isLength f = true by simp [isLength, hi], hval, hgf]⟩
  have hno : NoRepeat (fs ++ [f]) ↔ NoRepeat fs := noRepeat_append fun j hj hs => by
    rw [hi] at hs
    cases hs
    exact absurd hj (by decide)
  constructor
  · rw [hkept, hall, hno]
    exact ha.perm
  · rw [hkept, hall, hno]
    exact ha.fewer

end Accounted

end Append

section Step

variable {block : List UInt8} {fs : List Field} {h : Headers} {q : Place}

theorem addPlace_eq (hbuf : h.buf = block) : h.addPlace q =
    match slotOf (q.field block).1 with
    | none => h.addOther (q.field block).1 (q.field block).2 q.word
    | some i =>
      if i = idxHost then if h.packed idxHost ≠ 0 then h.fail .errMultipleHostHeaders else h.put idxHost q.word
      else if i = idxContentLength then
        if h.packed idxContentLength ≠ 0 then
          match h.getVal (h.packed idxContentLength) with
          | none => { h with panicked := true }
          | some oldVal => if oldVal ≠ (q.field block).2 then h.fail .errDuplicateContentLength else h
        else h.put idxContentLength q.word
      else h.put i q.word := by
  unfold addPlace addTrimmed
  simp only [hbuf, Nat.add_sub_cancel_left]
  rfl

theorem addPlace_other (hbuf : h.buf = block) (hs : slotOf (q.field block).1 = none) :
    h.addPlace q = h.addOther (q.field block).1 (q.field block).2 q.word := by
  rw [addPlace_eq hbuf, hs]

theorem ok_of_foldl_addPlace {qs : List Place} (hok : (qs.foldl Headers.addPlace h).Ok) : h.Ok := by
  induction qs generalizing h with
  | nil => exact hok
  | cons q qs ih => exact (ih hok).of_addTrimmed

section Entering

variable (he : Entered block fs h)
include he

theorem Entered.entry (hq : Legible block q) : h.entry q.word = some (q.field block) := by
  rw [entry_of_buf he.buf]
  exact hq.2

theorem Entered.of_put (hq : Legible block q) {i : Nat} (hi : slotOf (q.field block).1 = some i)
    (hfree : i ∈ overwritten ∨ slotted i fs = []) : Entered block (fs ++ [q.field block]) (h.put i q.word) := by
  refine ⟨he.buf, (he.repr.put (slotOf_eq_some hi).1 hq.1 (he.entry hq)).congr (fun j hj => ?_) ?_, he.room,
    he.accounted.slot hi hfree⟩
  · simp only [update_apply]
    split
    · rename_i hji
      rw [hji, slots_append_self hi hfree]
    · rename_i hji
      exact slots_append_of_ne fun hs => hji (Option.some.inj (hs.symm.trans hi))
  · rw [rest_append, if_neg (by simp [hi])]

theorem Entered.of_other (hq : Legible block q) (hi : slotOf (q.field block).1 = none) :
    Entered block (fs ++ [q.field block]) (h.addOther (q.field block).1 (q.field block).2 q.word) := by
  refine ⟨?_, (he.repr.addOther he.room hq.1 (he.entry hq)).congr (fun j hj => ?_) ?_, ?_, he.accounted.other hi⟩
  · unfold addOther
    split <;> exact he.buf
  · exact slots_append_of_ne (by simp [hi])
  · rw [rest_append, if_pos hi]
  · unfold addOther
    split
    · rename_i hlt
      exact fun _ => he.room hlt
    · rename_i hge
      exact fun hlt => absurd hlt hge

theorem Entered.slotted_of_zero {i : Nat} (hi : i < 6) (hz : h.packed i = 0) :
    slotted i fs = [] := by
  have hs := he.repr.slots i hi
  cases hl : slotted i fs with
  | nil => rfl
  | cons f t =>
    have hsome : ∃ g, (storedView fs).slots i = some g := by
      simp only [storedView, hl]
      split
      · exact ⟨_, getLast?_eq_some_getLast (by simp)⟩
      · exact ⟨f, rfl⟩
    obtain ⟨g, hg⟩ := hsome
    rw [hg] at hs
    exact absurd hz hs.1

theorem Entered.of_length (hi : slotOf (q.field block).1 = some idxContentLength)
    (hne : h.packed idxContentLength ≠ 0) (hval : h.getVal (h.packed idxContentLength) = some (q.field block).2) :
    Entered block (fs ++ [q.field block]) h := by
  have hs := he.repr.slots idxContentLength (by decide)
  obtain ⟨g, hg⟩ : ∃ g, (storedView fs).slots idxContentLength = some g := by
    cases hg : (storedView fs).slots idxContentLength with
    | none =>
      rw [hg] at hs
      exact absurd hs hne
    | some g => exact ⟨g, rfl⟩
  rw [hg] at hs
  have hgval : g.2 = (q.field block).2 := Option.some.inj ((entry_eq_some hs.2).2.symm.trans hval)
  have hhead : (slotted idxContentLength fs).head? = some g := hg
  have hmem : g ∈ slotted idxContentLength fs := mem_of_head? hhead
  have hslots : (storedView (fs ++ [q.field block])).slots = (storedView fs).slots := by
    funext j
    by_cases hjc : slotOf (q.field block).1 = some j
    · obtain rfl := Option.some.inj (hi.symm.trans hjc)
      change (slotted idxContentLength (fs ++ [q.field block])).head? = (slotted idxContentLength fs).head?
      rw [slotted_append, if_pos hi, head?_append, hhead]
      rfl
    · exact slots_append_of_ne hjc
  have hrest : (storedView (fs ++ [q.field block])).rest = (storedView fs).rest := by
    rw [rest_append, if_neg (by simp [hi])]
  refine ⟨he.buf, he.repr.congr (fun j _ => by rw [hslots]) hrest, he.room, he.accounted.again hi hmem hgval ?_⟩
  rw [View.all, View.all, hslots, hrest]

theorem Entered.step (hq : Legible block q) (hok : (h.addPlace q).Ok) :
    Entered block (fs ++ [q.field block]) (h.addPlace q) := by
  rw [addPlace_eq he.buf] at hok ⊢
  cases hs : slotOf (q.field block).1 with
  | none => exact he.of_other hq hs
  | some i =>
    simp only [hs] at hok ⊢
    by_cases hh : i = idxHost
    · subst hh
      simp only [if_true] at hok ⊢
      split at hok
      · exact absurd hok (not_ok_fail _ _)
      rename_i hz
      have hnil := he.slotted_of_zero (i := idxHost) (by decide) (not_not.1 hz)
      rw [if_neg hz]
      exact he.of_put hq hs (.inr hnil)
    simp only [hh, if_false] at hok ⊢
    by_cases hc : i = idxContentLength
    · subst hc
      simp only [if_true] at hok ⊢
      split at hok
      · rename_i hne
        rw [if_pos hne]
        cases hv : h.getVal (h.packed idxContentLength) with
        | none =>
          rw [hv] at hok
          exact absurd hok.2 (by simp)
        | some oldVal =>
          rw [hv] at hok
          dsimp only at hok ⊢
          split at hok
          · exact absurd hok (not_ok_fail _ _)
          rename_i heq
          rw [if_neg heq]
          rw [not_not.1 heq] at hv
          exact he.of_length hs hne hv
      · rename_i hz
        have hnil := he.slotted_of_zero (i := idxContentLength) (by decide) (not_not.1 hz)
        rw [if_neg hz]
        exact he.of_put hq hs (.inr hnil)
    · simp only [hc, if_false] at hok ⊢
      have hov : i ∈ overwritten := by
        have h6 := (slotOf_eq_some hs).1
        unfold idxHost at hh
        unfold idxContentLength at hc
        interval_cases i <;> simp_all [overwritten, idxConnection, idxContentType, idxUserAgent, idxAccept]
      exact he.of_put hq hs (.inl hov)

theorem Entered.foldl {qs : List Place} (hq : ∀ q ∈ qs, Legible block q)
    (hok : (qs.foldl Headers.addPlace h).Ok) :
    Entered block (fs ++ qs.map (Place.field block)) (qs.foldl Headers.addPlace h) := by
  induction qs generalizing fs h with
  | nil => simpa using he
  | cons q qs ih =>
    have hstep := he.step (hq q mem_cons_self) (ok_of_foldl_addPlace hok)
    have := ih hstep (fun x hx => hq x (mem_cons_of_mem _ hx)) hok
    simpa using this

end Entering

theorem entered_nil (block : List UInt8) : Entered block [] { buf := block } := by
  have hnone : ∀ i, (storedView []).slots i = none := fun i => by simp [storedView, slotted]
  refine ⟨rfl, ⟨fun i _ => by rw [hnone], fun _ _ _ => rfl, Nat.le_refl _, [], rfl, rfl⟩, fun _ => rfl, fun _ => ?_,
    fun h => absurd (fun _ _ => Nat.zero_le 1) h⟩
  rw [View.all, filterMap_eq_nil_iff.2 fun i _ => hnone i]
  exact List.Perm.refl _

end Step

/-! ## Places and lines -/

/-- A place inside of the block, with a name. -/
structure Place.Inside (block : List UInt8) (q : Place) : Prop where
  name : q.keyLen ≠ 0
  key : q.keyStart + q.keyLen ≤ block.length
  val : q.valStart + q.valLen ≤ block.length

section Places

variable {block pre l post : List UInt8}

theorem take_trim (v : List UInt8) : (v.dropWhile isBlank).take (trim v).length = trim v := by
  have h : trim v <+: v.dropWhile isBlank := rdropWhile_prefix _ _
  exact (prefix_iff_eq_take.1 h).symm

theorem LineAt.field (hl : LineAt block pre l post) : (placeOf pre.length l).map (Place.field block) = fieldOf l := by
  obtain ⟨rest, hb, -⟩ := hl.strip
  by_cases hmem : 58 ∈ stripCR l
  · have hadd := valueAt_add hmem
    have htrim := length_trim_le (rawValue (stripCR l))
    have hkey := slice_part pre (stripCR l) rest (Nat.zero_le (colonAt (stripCR l))) (colonAt_lt hmem).le
    have hval := slice_part pre (stripCR l) rest (Nat.le_add_right (valueAt (stripCR l)) (trim (rawValue (stripCR l))).length)
      (by omega)
    rw [← hb, Nat.add_zero, drop_zero, Nat.sub_zero] at hkey
    rw [← hb, drop_valueAt, Nat.add_sub_cancel_left, take_trim, ← Nat.add_assoc] at hval
    rw [placeOf_eq hmem, fieldOf, if_pos hmem, map_some, Place.field, hkey, hval]
  · rw [placeOf, fieldOf, if_neg hmem, if_neg hmem]
    rfl

theorem LineAt.inside (hl : LineAt block pre l post) (hc : Clean l) {q : Place} (hq : placeOf pre.length l = some q) :
    q.Inside block := by
  obtain ⟨rest, hb, -⟩ := hl.strip
  by_cases hmem : 58 ∈ stripCR l
  · rw [placeOf_eq hmem] at hq
    have hlt := colonAt_lt hmem
    have hadd := valueAt_add hmem
    have htrim := length_trim_le (rawValue (stripCR l))
    have hlen := congrArg List.length hb
    simp only [length_append] at hlen
    cases hq
    refine ⟨?_, ?_, ?_⟩
    · obtain hnil | hc := hc
      · rw [hnil] at hmem
        cases hmem
      · exact hc.name
    · dsimp only
      omega
    · dsimp only
      omega
  · rw [placeOf, if_neg hmem] at hq
    cases hq

theorem placesFrom_fields (pre : List UInt8) {ls : List (List UInt8)} (hne : ls ≠ []) (hpre : pre = [] ∨ pre.getLast? = some 10)
    (hb : block = pre ++ [10].intercalate ls) :
    (placesFrom pre.length ls).map (Place.field block) = ls.filterMap fieldOf ∧
      ((∀ l ∈ ls, Clean l) → ∀ q ∈ placesFrom pre.length ls, q.Inside block) := by
  induction ls generalizing pre with
  | nil => exact absurd rfl hne
  | cons l ls ih =>
    obtain ⟨post, hl⟩ : ∃ post, LineAt block pre l post := by
      cases ls with
      | nil => exact ⟨_, LineAt.last hpre hb⟩
      | cons l' ls => exact ⟨_, LineAt.cons hpre hb⟩
    have hrest : (placesFrom (pre.length + l.length + 1) ls).map (Place.field block) = ls.filterMap fieldOf ∧
        ((∀ l ∈ ls, Clean l) → ∀ q ∈ placesFrom (pre.length + l.length + 1) ls, q.Inside block) := by
      cases ls with
      | nil => exact ⟨rfl, nofun⟩
      | cons l' ls =>
        have := ih (pre ++ l ++ [10]) (by simp) (.inr (by simp)) (by rw [(LineAt.cons hpre hb).eq]; simp)
        simpa [Nat.add_assoc] using this
    constructor
    · rw [placesFrom, map_append, hrest.1, filterMap_cons, ← hl.field]
      cases placeOf pre.length l <;> rfl
    · intro hc q hq
      rw [placesFrom, mem_append] at hq
      obtain hq | hq := hq
      · exact hl.inside (hc l mem_cons_self) (by simpa using hq)
      · exact hrest.2 (fun x hx => hc x (mem_cons_of_mem _ hx)) q hq

theorem places_fields (block : List UInt8) : (places block).map (Place.field block) = fieldLines block ∧
    ((∀ l ∈ block.splitOn 10, Clean l) → ∀ q ∈ places block, q.Inside block) :=
  placesFrom_fields [] (splitOn_ne_nil 10 block) (.inl rfl) (by simp [intercalate_splitOn])

end Places

/-! ## Words of short blocks -/

theorem pack_eq {ks kl vs vl : Nat} (hks : ks < 2 ^ 16) (hkl : kl < 2 ^ 16) (hvs : vs < 2 ^ 16) (hvl : vl < 2 ^ 16) :
    pack ks kl vs vl = ks * 2 ^ 48 + kl * 2 ^ 32 + vs * 2 ^ 16 + vl := by
  have h1 : ks <<< 48 ||| kl <<< 32 = (ks * 2 ^ 16 + kl) <<< 32 := by
    rw [← shiftLeft_add_eq_or_of_lt (by rw [shiftLeft_eq]; omega), shiftLeft_eq, shiftLeft_eq,
      shiftLeft_eq]
    omega
  have h2 : (ks * 2 ^ 16 + kl) <<< 32 ||| vs <<< 16 = ((ks * 2 ^ 16 + kl) * 2 ^ 16 + vs) <<< 16 := by
    rw [← shiftLeft_add_eq_or_of_lt (by rw [shiftLeft_eq]; omega), shiftLeft_eq, shiftLeft_eq,
      shiftLeft_eq]
    omega
  rw [pack, h1, h2, ← shiftLeft_add_eq_or_of_lt (by omega), shiftLeft_eq]
  omega

/-- In a short block every word says what stands at its place. -/
theorem legible_of_short {block : List UInt8} (hshort : block.length ≤ 65535) {q : Place} (hq : q.Inside block) :
    Legible block q := by
  obtain ⟨hname, hkey, hval⟩ := hq
  have hword : q.word = q.keyStart * 2 ^ 48 + q.keyLen * 2 ^ 32 + q.valStart * 2 ^ 16 + q.valLen :=
    pack_eq (by omega) (by omega) (by omega) (by omega)
  have hne : q.word ≠ 0 := by omega
  have hk : ({ buf := block } : Headers).getKey q.word = some (q.field block).1 := by
    rw [getKey, if_neg hne]
    have h1 : q.word >>> 48 % 2 ^ 16 = q.keyStart := by rw [shiftRight_eq_div_pow]; omega
    have h2 : q.word >>> 32 % 2 ^ 16 = q.keyLen := by rw [shiftRight_eq_div_pow]; omega
    rw [h1, h2, sliceAt, if_pos hkey]
    rfl
  have hv : ({ buf := block } : Headers).getVal q.word = some (q.field block).2 := by
    rw [getVal, if_neg hne]
    have h1 : q.word >>> 16 % 2 ^ 16 = q.valStart := by rw [shiftRight_eq_div_pow]; omega
    have h2 : q.word % 2 ^ 16 = q.valLen := by omega
    rw [h1, h2, sliceAt, if_pos hval]
    rfl
  refine ⟨hne, ?_⟩
  rw [entry, hk, hv]
  rfl

/-! ## The fields of the storage -/

section Kept

variable {fs : List Field}

theorem slots_storedView (hno : NoRepeat fs) (i : Nat) :
    (storedView fs).slots i = fs.find? fun f => slotOf f.1 == some i := by
  rw [← head?_filter]
  change (if i ∈ overwritten then (slotted i fs).getLast? else (slotted i fs).head?) = (slotted i fs).head?
  split
  · rename_i hi
    have h := hno i hi
    match slotted i fs, h with
    | [], _ => rfl
    | [f], _ => rfl
  · rfl

/-- The slot of a name has the first line of the name, the rest has the lines of names without a slot. -/
theorem get_storedView (hno : NoRepeat fs) (name : List UInt8) : (storedView fs).get name = View.first name fs := by
  cases hi : slotOf name with
  | some i =>
    have hnamed : ∀ f : Field, (slotOf f.1 == some i) = named name f := by
      intro f
      rw [Bool.eq_iff_iff, beq_iff_eq]
      exact ⟨fun h => equalFoldASCII_of_slotOf h hi, fun h => (slotOf_congr h).trans hi⟩
    have hslot : (storedView fs).slotValue name = first name fs := by
      rw [slotValue, hi, bind_some, slots_storedView hno]
      simp only [hnamed]
      rfl
    have hrest : first name (storedView fs).rest = [] := by
      have : (storedView fs).rest.find? (named name) = none := by
        refine find?_eq_none.2 fun f hf hn => ?_
        have hs := (mem_filter.1 hf).2
        rw [← hnamed, beq_iff_eq] at hn
        rw [hn] at hs
        cases hs
      rw [first, this]
      rfl
    rw [View.get, hslot, hrest]
    split
    · rfl
    · rename_i hnil
      exact (not_not.1 hnil).symm
  | none =>
    have hslot : (storedView fs).slotValue name = [] := by
      rw [slotValue, hi]
      rfl
    rw [View.get, hslot, if_neg (by simp), first, first]
    change (((fs.filter fun f => slotOf f.1 == none).find? (named name)).map _).getD [] = _
    rw [find?_filter]
    congr 3
    funext f
    cases hn : named name f with
    | false => simp
    | true => simp [slotOf_congr hn, hi]

end Kept

/-! ## The theorem -/

theorem exact_iff_of_short {block : List UInt8} (hshort : block.length ≤ 65535)
    (hp : ({} : Headers).parseHeaderBlockSWAR block = some h) (herr : h.err = none) :
    Exact h (fieldLines block) ↔ NoRepeat (fieldLines block) := by
  obtain ⟨hclean, rfl, hok⟩ := (parse_ok_iff block h).1 ⟨hp, herr⟩
  obtain ⟨hfields, hinside⟩ := places_fields block
  have he : Entered block (fieldLines block) (entered block) := by
    have hleg : ∀ q ∈ places block, Legible block q := fun q hq => legible_of_short hshort (hinside hclean q hq)
    have := (entered_nil block).foldl hleg hok
    rwa [nil_append, hfields] at this
  constructor
  · intro hex
    obtain ⟨fs, hall, hperm⟩ := hex.all
    rw [he.repr.all] at hall
    cases hall
    by_contra hno
    exact absurd hperm.length_eq (he.accounted.fewer hno).ne
  · intro hno
    refine ⟨⟨_, he.repr.all, he.accounted.perm hno⟩, fun name => ?_, he.repr.later (sorted_storedView _)⟩
    rw [he.repr.get, get_storedView hno]

/-! ## Long blocks -/

/-- A line behind `m` empty ones: `cb`, with no value. -/
def longBlock (m : Nat) : List UInt8 := List.replicate m 10 ++ [99, 98, 58]

section Long

variable (m : Nat)

theorem length_longBlock : (longBlock m).length = m + 3 := by
  simp [longBlock]

theorem lines_longBlock : (longBlock m).splitOn 10 = List.replicate m [] ++ [[99, 98, 58]] := by
  induction m with
  | zero => rfl
  | succ m ih =>
    rw [longBlock, replicate_succ, cons_append, List.splitOn, splitOnP_cons_eq_if_modifyHead,
      if_pos (by decide)]
    exact congrArg ([] :: ·) ih

theorem clean_longBlock : ∀ l ∈ (longBlock m).splitOn 10, Clean l := by
  rw [lines_longBlock]
  intro l hl
  obtain hl | hl := mem_append.1 hl
  · rw [eq_of_mem_replicate hl]
    exact .inl rfl
  · rw [mem_singleton.1 hl]
    exact .inr ⟨by decide, by decide, by decide, by decide, by decide, by decide⟩

theorem fields_longBlock : fieldLines (longBlock m) = [([99, 98], [])] := by
  have h : (List.replicate m []).filterMap fieldOf = [] :=
    filterMap_eq_nil_iff.2 fun l hl => by rw [eq_of_mem_replicate hl]; rfl
  rw [fieldLines, lines_longBlock, filterMap_append, h]
  decide

theorem places_longBlock : places (longBlock m) = [⟨m, 2, m + 3, 0⟩] := by
  have h : ∀ p, placesFrom p (List.replicate m [] ++ [[99, 98, 58]]) = [⟨p + m, 2, p + m + 3, 0⟩] := by
    induction m with
    | zero => exact fun p => rfl
    | succ m ih =>
      intro p
      rw [replicate_succ, cons_append, placesFrom, ih]
      simp only [length_nil, Nat.add_zero, Nat.add_right_comm p 1 m]
      rfl
  rw [places, lines_longBlock, h, Nat.zero_add]

theorem entered_longBlock : entered (longBlock m) = {
      buf := longBlock m
      packed := Function.update (fun _ => 0) 16 (pack m 2 (m + 3) 0)
      count := 17 } := by
  have hf := (places_fields (longBlock m)).1
  rw [places_longBlock, fields_longBlock] at hf
  rw [entered, places_longBlock]
  exact addPlace_other (h := { buf := longBlock m }) rfl (by rw [List.cons.inj hf |>.1]; rfl)

theorem noRepeat_longBlock : NoRepeat (fieldLines (longBlock m)) := by
  rw [fields_longBlock, NoRepeat]
  decide

theorem parse_longBlock : ({} : Headers).parseHeaderBlockSWAR (longBlock m) = some (entered (longBlock m)) ∧
    (entered (longBlock m)).err = none := by
  refine (parse_ok_iff _ _).2 ⟨clean_longBlock m, rfl, ?_⟩
  rw [entered_longBlock]
  exact ⟨rfl, rfl⟩

omit m in
theorem exists_of_mem_mapM {ws : List Nat} {fs : List Field} (hfs : ws.mapM h.entry = some fs) {f : Field}
    (hf : f ∈ fs) : ∃ w ∈ ws, h.entry w = some f := by
  induction ws generalizing fs with
  | nil =>
    cases hfs
    cases hf
  | cons w ws ih =>
    rw [mapM_cons] at hfs
    obtain ⟨g, hg, hfs⟩ := bind_eq_some_iff.1 hfs
    obtain ⟨fs', hfs', he⟩ := bind_eq_some_iff.1 hfs
    cases he
    obtain rfl | hf := mem_cons.1 hf
    · exact ⟨w, mem_cons_self, hg⟩
    · obtain ⟨w', hw', he⟩ := ih hfs' hf
      exact ⟨w', mem_cons_of_mem _ hw', he⟩

/-- `cb` stands at the end only. -/
theorem le_of_slice_longBlock {start stop : Nat} (h : slice (longBlock m) start stop = [99, 98]) : m ≤ start := by
  by_contra hlt
  have hmem : (99 : UInt8) ∈ List.replicate m 10 := by
    have hget : (slice (longBlock m) start stop)[0]? = some 99 := by rw [h]; rfl
    rw [slice, getElem?_take] at hget
    split at hget
    · rw [getElem?_drop, longBlock, getElem?_append_left (by simp; omega)] at hget
      exact mem_of_getElem? hget
    · cases hget
  simp [mem_replicate] at hmem

theorem not_exact_longBlock (hm : 65533 ≤ m) : ¬ Exact (entered (longBlock m)) (fieldLines (longBlock m)) := by
  intro hex
  obtain ⟨fs, hall, hperm⟩ := hex.all
  rw [entered_longBlock] at hall
  obtain ⟨fs', hfs', he⟩ := map_eq_some_iff.1 hall
  rw [append_nil] at he
  subst he
  -- Only the word of the line can say so.
  obtain ⟨w, hw, hentry⟩ := exists_of_mem_mapM hfs' (f := ([99, 98], []))
    (hperm.mem_iff.2 (by rw [fields_longBlock]; decide))
  obtain ⟨hw, hne⟩ := mem_filter.1 hw
  obtain ⟨i, hi, rfl⟩ := mem_map.1 hw
  simp only [update_apply] at hne hentry
  split at hne
  · rename_i h16
    rw [if_pos h16] at hentry
    have hkey := (entry_eq_some hentry).1
    rw [getKey, if_neg (by simpa using hne), sliceAt] at hkey
    split at hkey
    · rename_i hin
      have hslice := Option.some.inj hkey
      have hstart := le_of_slice_longBlock m hslice
      have hlen : pack m 2 (m + 3) 0 >>> 32 % 2 ^ 16 = 2 := by
        have := congrArg List.length hslice
        rw [slice, length_take, length_drop] at this
        dsimp only at this hin
        simp only [length_cons, length_nil] at this
        omega
      have hle : pack m 2 (m + 3) 0 >>> 48 % 2 ^ 16 < 2 ^ 16 := mod_lt _ (by decide)
      have hbit : (pack m 2 (m + 3) 0 >>> 32 % 2 ^ 16).testBit 0 = true := by
        rw [testBit_mod_two_pow, testBit_shiftRight, pack, testBit_mod_two_pow, testBit_or,
          testBit_or, testBit_shiftLeft (m + 3)]
        have : (m + 3).testBit 16 = true := by
          rw [testBit_eq_decide_div_mod_eq, decide_eq_true_eq]
          omega
        simp [this]
      rw [hlen] at hbit
      exact absurd hbit (by decide)
    · cases hkey
  · simp at hne

end Long

end Mach.Headkit
