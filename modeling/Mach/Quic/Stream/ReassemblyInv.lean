import Mach.Quic.Stream.Reassembly
/-!
# What the reassembly buffer does to its chunks

`inserted_of` sums up `insertChunk`: whatever the six branches of the source do,
the chunk list changes in one of four ways (`Inserted`). Order, bounds, coverage
and content are then case analyses over those four, and none looks at the code
again.

Adjacent chunks are not always merged, so the invariant is weaker than the
comment in the source: chunks are sorted, non-empty and disjoint, and may touch.
-/

namespace Mach.Quic.Stream

open Lib List

variable {lo o e n : Nat} {cs post : List ReassemblyChunk} {c : ReassemblyChunk} {pre mid : List ReassemblyChunk}

/-! ## Sorted chunks -/

/-- Non-empty disjoint chunks in order, none before `lo`. -/
def Sorted : Nat → List ReassemblyChunk → Prop
  | _, [] => True
  | lo, c :: cs => lo ≤ c.offset ∧ c.data ≠ [] ∧ Sorted c.stop cs

/-- Where the chunks end, if the stream before them ends at `lo`. -/
def endOf : Nat → List ReassemblyChunk → Nat
  | lo, [] => lo
  | _, c :: cs => endOf c.stop cs

def Covers (cs : List ReassemblyChunk) (i : Nat) : Prop := ∃ c ∈ cs, c.offset ≤ i ∧ i < c.stop

-- The lemmas below share these equations.
attribute [local simp] Sorted endOf scanChunks in
theorem sorted_append (lo : Nat) (xs ys : List ReassemblyChunk) :
    Sorted lo (xs ++ ys) ↔ Sorted lo xs ∧ Sorted (endOf lo xs) ys := by
  induction xs generalizing lo with
  | nil => simp [Sorted, endOf]
  | cons c cs ih => simp [Sorted, endOf, ih, and_assoc]

theorem sorted_of_le {lo' : Nat} (h : Sorted lo cs) (hle : lo' ≤ lo) : Sorted lo' cs := by
  cases cs with
  | nil => trivial
  | cons c cs => exact ⟨Nat.le_trans hle h.1, h.2⟩

theorem endOf_le (hlo : lo ≤ o) (h : ∀ c ∈ cs, c.stop ≤ o) : endOf lo cs ≤ o := by
  induction cs generalizing lo with
  | nil => exact hlo
  | cons c cs ih => exact ih (h c (by simp)) (fun d hd => h d (by simp [hd]))

theorem stop_gt (h : c.data ≠ []) : c.offset < c.stop := by
  have := length_pos_iff.2 h
  simp only [ReassemblyChunk.stop]; omega

theorem sorted_lo (h : Sorted lo cs) : ∀ c ∈ cs, lo ≤ c.offset ∧ c.data ≠ [] := by
  induction cs generalizing lo with
  | nil => simp
  | cons d cs ih =>
    obtain ⟨h1, h2, h3⟩ := h
    intro c hc
    rcases mem_cons.1 hc with rfl | hc
    · exact ⟨h1, h2⟩
    · obtain ⟨h4, h5⟩ := ih h3 c hc
      have := stop_gt h2
      exact ⟨by omega, h5⟩

theorem sorted_concat (h : Sorted lo cs) (hlo : endOf lo cs ≤ c.offset) (hc : c.data ≠ []) : Sorted lo (cs ++ [c]) :=
  (sorted_append lo cs [c]).2 ⟨h, hlo, hc, trivial⟩

theorem endOf_append (lo : Nat) (xs ys : List ReassemblyChunk) : endOf lo (xs ++ ys) = endOf (endOf lo xs) ys := by
  induction xs generalizing lo with
  | nil => rfl
  | cons c cs ih => exact ih c.stop

/-- Everything before the last chunk ends where that one starts, or earlier. -/
theorem stops_le_endOf (h : Sorted lo cs) : lo ≤ endOf lo cs ∧ ∀ c ∈ cs, c.stop ≤ endOf lo cs := by
  induction cs generalizing lo with
  | nil => simp [endOf]
  | cons d cs ih =>
    obtain ⟨h1, h2, h3⟩ := h
    obtain ⟨h4, h5⟩ := ih h3
    have := stop_gt h2
    refine ⟨by simp only [endOf]; omega, fun c hc => ?_⟩
    rcases mem_cons.1 hc with rfl | hc
    · exact h4
    · exact h5 c hc

/-! ## The search loop -/

/-- The chunks of a sorted list around `[o, e]`: those that end before it, those
that touch it and those that start behind it. -/
theorem exists_split (h : Sorted lo cs) :
    ∃ pre mid post, cs = pre ++ (mid ++ post) ∧ (∀ c ∈ pre, c.stop < o) ∧
      (∀ c ∈ mid, c.offset ≤ e ∧ o ≤ c.stop) ∧ ∀ c ∈ post, e < c.offset := by
  induction cs generalizing lo with
  | nil => exact ⟨[], [], [], rfl, by simp, by simp, by simp⟩
  | cons c cs ih =>
    obtain ⟨-, h2, h3⟩ := h
    have hgt := stop_gt h2
    obtain ⟨pre, mid, post, rfl, hpre, hmid, hpost⟩ := ih h3
    by_cases hc : c.stop < o
    · exact ⟨c :: pre, mid, post, rfl, by simpa [hc] using hpre, hmid, hpost⟩
    · -- Nothing behind `c` ends before `o`, so there is no `pre`.
      have hnil : pre = [] := by
        cases pre with
        | nil => rfl
        | cons d _ =>
          have h4 := hpre d (by simp)
          have h5 := sorted_lo h3 d (by simp)
          have := stop_gt h5.2
          omega
      subst hnil
      by_cases hce : c.offset ≤ e
      · exact ⟨[], c :: mid, post, rfl, by simp, by simpa using ⟨⟨hce, by omega⟩, hmid⟩, hpost⟩
      · refine ⟨[], [], c :: (mid ++ post), rfl, by simp, by simp, fun d hd => ?_⟩
        rcases mem_cons.1 hd with rfl | hd
        · omega
        · have := (sorted_lo h3 d hd).1
          omega

theorem scan_before (hpre : ∀ c ∈ pre, c.stop < o) (hoe : o ≤ e)
    (hord : ∀ c ∈ pre, c.offset ≤ c.stop) (rest : List ReassemblyChunk) (i ins : Nat) :
    ∃ ins', scanChunks o e n i (pre ++ rest) none ins = scanChunks o e n (i + pre.length) rest none ins' := by
  induction pre generalizing i ins with
  | nil => exact ⟨ins, rfl⟩
  | cons c pre ih =>
    have h1 := hpre c (by simp)
    have h2 := hord c (by simp)
    obtain ⟨ins', h⟩ := ih (fun d hd => hpre d (by simp [hd])) (fun d hd => hord d (by simp [hd])) (i + 1)
      (if i = n - 1 ∧ (none : Option (Nat × Nat)) = none then n else ins)
    refine ⟨ins', ?_⟩
    rw [cons_append, scanChunks, if_neg (by omega), if_neg (by omega), h, length_cons]
    congr 1; omega

theorem scan_behind (hpost : ∀ c ∈ post, e < c.offset) (p : Nat × Nat)
    (i ins : Nat) : (scanChunks o e n i post (some p) ins).1 = some p := by
  induction post generalizing i ins with
  | nil => rfl
  | cons c post ih =>
    have := hpost c (by simp)
    rw [scanChunks, if_neg (by omega), if_neg (by simp)]
    exact ih (fun d hd => hpost d (by simp [hd])) (i + 1) _

theorem scan_touching (hmid : ∀ c ∈ mid, c.offset ≤ e ∧ o ≤ c.stop)
    (hpost : ∀ c ∈ post, e < c.offset) (f i ins : Nat) :
    (scanChunks o e n (i + 1) (mid ++ post) (some (f, i)) ins).1 = some (f, i + mid.length) := by
  induction mid generalizing i with
  | nil => exact scan_behind hpost (f, i) (i + 1) ins
  | cons c mid ih =>
    rw [cons_append, scanChunks, if_pos (hmid c (by simp))]
    rw [ih (fun d hd => hmid d (by simp [hd])) (i + 1), length_cons]
    congr 2; omega

/-- What the loop finds on a split list: the touched chunks, or where the first
chunk behind the frame is. -/
theorem scan_split (hoe : o ≤ e) (hord : ∀ c ∈ pre, c.offset ≤ c.stop) (hpre : ∀ c ∈ pre, c.stop < o)
    (hmid : ∀ c ∈ mid, c.offset ≤ e ∧ o ≤ c.stop) (hpost : ∀ c ∈ post, e < c.offset) (hne : mid ++ post ≠ []) :
    (mid = [] ∧ scanChunks o e n 0 (pre ++ (mid ++ post)) none 0 = (none, pre.length)) ∨
    (mid ≠ [] ∧ ∃ ins, scanChunks o e n 0 (pre ++ (mid ++ post)) none 0 =
      (some (pre.length, pre.length + mid.length - 1), ins)) := by
  obtain ⟨ins, h⟩ := scan_before (n := n) hpre hoe hord (mid ++ post) 0 0
  rw [h, Nat.zero_add]
  cases mid with
  | nil =>
    left
    refine ⟨rfl, ?_⟩
    cases post with
    | nil => exact absurd rfl hne
    | cons c post =>
      have := hpost c (by simp)
      rw [nil_append, scanChunks, if_neg (by omega), if_pos ⟨this, rfl⟩]
  | cons c mid =>
    right
    refine ⟨by simp, (scanChunks o e n pre.length (c :: mid ++ post) none ins).2, ?_⟩
    apply Prod.ext
    · rw [cons_append, scanChunks, if_pos (hmid c (by simp))]
      rw [scan_touching (fun d hd => hmid d (by simp [hd])) hpost, length_cons]
      congr 2
    · rfl

/-! ## What an insertion does -/

theorem newChunk_offset (stale : Nat → UInt8) (o : Nat) (data : List UInt8) : (newChunk stale o data).offset = o := rfl

theorem length_allocChunkData (stale : Nat → UInt8) (n : Nat) : (allocChunkData stale n).1.length = n := by
  unfold allocChunkData
  split
  · simp
  · split <;> simp

/-- Whatever the pooled buffer held, the chunk holds the frame. -/
theorem newChunk_data (stale : Nat → UInt8) (o : Nat) (data : List UInt8) : (newChunk stale o data).data = data := by
  have h := length_allocChunkData stale data.length
  simp [newChunk, copyAt, h, drop_eq_nil_of_le]

/-- The four ways `insertChunk` changes the chunks. -/
inductive Inserted (stale : Nat → UInt8) (offset : Nat) (data : List UInt8) :
    List ReassemblyChunk → List ReassemblyChunk → Prop
  /-- A chunk of its own, between chunks it does not overlap. -/
  | placed (pre post : List ReassemblyChunk) : (∀ c ∈ pre, c.stop ≤ offset) →
      (∀ c ∈ post, offset + data.length < c.offset) →
      Inserted stale offset data (pre ++ post) (pre ++ newChunk stale offset data :: post)
  /-- The last chunk, extended in place. -/
  | extended {pre : List ReassemblyChunk} {c : ReassemblyChunk} : c.stop = offset →
      Inserted stale offset data (pre ++ [c]) (pre ++ [{ c with data := c.data ++ data }])
  /-- Contained in one chunk: nothing to do. -/
  | contained {cs : List ReassemblyChunk} {c : ReassemblyChunk} : c ∈ cs → c.offset ≤ offset →
      offset + data.length ≤ c.stop → Inserted stale offset data cs cs
  /-- Merged with every chunk it touches. -/
  | merged {pre mid post : List ReassemblyChunk} {first last : ReassemblyChunk} : mid.head? = some first →
      mid.getLast? = some last → (∀ c ∈ pre, c.stop < offset) →
      (∀ c ∈ mid, c.offset ≤ offset + data.length ∧ offset ≤ c.stop) → (∀ c ∈ post, offset + data.length < c.offset) →
      Inserted stale offset data (pre ++ (mid ++ post)) (pre ++ mergeChunks stale offset data mid first last :: post)

/-- A chunk that lies beside the frame is not compared with it. -/
theorem divergent_beside {offset : Nat} {data : List UInt8}
    (h : c.stop ≤ offset ∨ offset + data.length ≤ c.offset) : divergent offset data c = none :=
  if_neg fun hd => by have := hd.1; omega

/-- `insertChunk` either changes the chunks in one of the four ways, and then no
chunk differs from the frame, or reports a chunk whose bytes differ from the
frame's and changes nothing. -/
theorem inserted_of (b : ReassemblyBuffer) (stale : Nat → UInt8) (offset : Nat) (data : List UInt8)
    (hs : Sorted lo b.chunks) :
    (∃ cs, b.insertChunk stale offset data = ({ b with chunks := cs }, none) ∧
      Inserted stale offset data b.chunks cs ∧ ∀ c ∈ b.chunks, divergent offset data c = none) ∨
    (∃ c ∈ b.chunks, ∃ err, divergent offset data c = some err ∧
      b.insertChunk stale offset data = (b, some err)) := by
  unfold ReassemblyBuffer.insertChunk
  cases hl : b.chunks.getLast? with
  | none =>
    rw [getLast?_eq_none_iff.1 hl]
    exact .inl ⟨_, rfl, .placed [] [] (by simp) (by simp), nofun⟩
  | some last =>
    obtain ⟨front, hfront⟩ := getLast?_eq_some_iff.1 hl
    -- Every chunk ends where the last one does, or earlier.
    have hend : ∀ c ∈ b.chunks, c.stop ≤ last.stop := by
      intro c hc
      have := (stops_le_endOf hs).2 c hc
      rwa [hfront, endOf_append] at this
    have hbehind : last.stop ≤ offset → Inserted stale offset data b.chunks (b.chunks ++ [newChunk stale offset data]) ∧
        ∀ c ∈ b.chunks, divergent offset data c = none := by
      intro hle
      have hbefore : ∀ c ∈ b.chunks, c.stop ≤ offset := fun c hc => Nat.le_trans (hend c hc) hle
      exact ⟨by simpa using Inserted.placed b.chunks [] hbefore (by simp), fun c hc => divergent_beside (.inl (hbefore c hc))⟩
    dsimp only
    split
    · rename_i ho
      have hafter := hbehind (Nat.le_of_eq ho.symm)
      split
      · refine .inl ⟨_, rfl, ?_, hafter.2⟩
        rw [hfront, dropLast_concat]
        exact .extended ho.symm
      · exact .inl ⟨_, rfl, hafter⟩
    split
    · rename_i ho
      exact .inl ⟨_, rfl, hbehind (Nat.le_of_lt ho)⟩
    rename_i h1 h2
    obtain ⟨pre, mid, post, heq, hpre, hmid, hpost⟩ := exists_split (o := offset) (e := offset + data.length) hs
    have hord : ∀ c ∈ pre, c.offset ≤ c.stop := fun c _ => by simp [ReassemblyChunk.stop]
    have hne : mid ++ post ≠ [] := by
      intro hnil
      rw [hnil, append_nil] at heq
      have := hpre last (by rw [← heq, hfront]; simp)
      omega
    -- Only the touched chunks can differ.
    have hmids : (∀ c ∈ mid, divergent offset data c = none) →
        ∀ c ∈ pre ++ (mid ++ post), divergent offset data c = none := by
      intro hm c hc
      simp only [mem_append] at hc
      rcases hc with hc | hc | hc
      · exact divergent_beside (.inl (Nat.le_of_lt (hpre c hc)))
      · exact hm c hc
      · exact divergent_beside (.inr (Nat.le_of_lt (hpost c hc)))
    rw [heq]
    rcases scan_split (n := (pre ++ (mid ++ post)).length) (by omega) hord hpre hmid hpost hne with
      ⟨rfl, hscan⟩ | ⟨hmne, ins, hscan⟩
    · rw [hscan]
      refine .inl ⟨_, rfl, ?_, hmids (by simp)⟩
      simp only [nil_append, take_left, drop_left]
      exact .placed pre post (fun c hc => Nat.le_of_lt (hpre c hc)) hpost
    · have hidx : pre.length + mid.length - 1 + 1 = pre.length + mid.length :=
        Nat.sub_add_cancel (Nat.le_add_left_of_le (length_pos_iff.2 hmne))
      have htouch : slice (pre ++ (mid ++ post)) pre.length (pre.length + mid.length - pre.length) = mid := by
        simp [slice]
      have hdrop : (pre ++ (mid ++ post)).drop (pre.length + mid.length) = post := by
        rw [← append_assoc]
        exact drop_left' (by simp)
      have hfirst := head?_eq_some_head hmne
      have hlast := getLast?_eq_some_getLast hmne
      simp only [hscan, hidx, htouch]
      split
      · rename_i err herr
        obtain ⟨c, hc, he⟩ := exists_of_findSome?_eq_some herr
        exact .inr ⟨c, by simp [hc], err, he, rfl⟩
      · rename_i hnone
        have hsame := hmids (findSome?_eq_none_iff.1 hnone)
        simp only [hfirst, hlast]
        split
        · rename_i hcon
          refine .inl ⟨_, rfl, ?_, hsame⟩
          rw [heq]
          exact .contained (c := mid.head hmne) (by simp) hcon.2.1 hcon.2.2
        · refine .inl ⟨_, rfl, ?_, hsame⟩
          rw [take_left, hdrop]
          exact .merged hfirst hlast hpre hmid hpost

/-! ## Merged chunks -/

section Merge
variable (stale : Nat → UInt8) (offset : Nat) (data : List UInt8) (mid : List ReassemblyChunk)
  (first last : ReassemblyChunk)

theorem length_foldl_copy (base : Nat) (cs : List ReassemblyChunk) (buf : List UInt8) :
    (cs.foldl (fun buf c => copyAt buf (c.offset - base) c.data) buf).length = buf.length := by
  induction cs generalizing buf with
  | nil => rfl
  | cons c cs ih => rw [foldl_cons, ih, length_copyAt]

theorem mergeChunks_offset : (mergeChunks stale offset data mid first last).offset = min offset first.offset := rfl

theorem mergeChunks_stop :
    (mergeChunks stale offset data mid first last).stop = max (offset + data.length) last.stop := by
  simp only [ReassemblyChunk.stop, mergeChunks, length_copyAt, length_foldl_copy, length_allocChunkData]
  omega

end Merge

theorem touched_bounds {first last : ReassemblyChunk}
    (hs : Sorted lo (pre ++ (mid ++ post))) (hf : mid.head? = some first) (hl : mid.getLast? = some last) :
    endOf lo pre ≤ first.offset ∧ Sorted last.stop post ∧
      ∀ c ∈ mid, first.offset ≤ c.offset ∧ c.stop ≤ last.stop := by
  obtain ⟨-, hs⟩ := (sorted_append lo pre _).1 hs
  obtain ⟨hm, hp⟩ := (sorted_append _ mid post).1 hs
  have hend : ∀ x, endOf x mid = last.stop := by
    intro x
    obtain ⟨front, rfl⟩ := getLast?_eq_some_iff.1 hl
    rw [endOf_append]; rfl
  refine ⟨?_, hend _ ▸ hp, fun c hc => ⟨?_, hend _ ▸ (stops_le_endOf hm).2 c hc⟩⟩
  · exact (sorted_lo hm first (mem_of_mem_head? hf)).1
  · cases mid with
    | nil => simp at hc
    | cons d mid =>
      obtain rfl : d = first := by simpa using hf
      rcases mem_cons.1 hc with rfl | hc
      · exact Nat.le_refl _
      · have h1 := (sorted_lo hm.2.2 c hc).1
        have h2 := stop_gt hm.2.1
        omega

theorem sorted_behind (h : Sorted lo post) (hpost : ∀ c ∈ post, e < c.offset) :
    Sorted (max e lo) post := by
  cases post with
  | nil => trivial
  | cons c post =>
    have := hpost c (by simp)
    exact ⟨Nat.max_le.2 ⟨Nat.le_of_lt this, h.1⟩, h.2⟩

/-! ## Order, bounds and coverage -/

section Inserted
variable {stale : Nat → UInt8} {offset : Nat} {data : List UInt8} {cs cs' : List ReassemblyChunk}

theorem inserted_sorted (h : Inserted stale offset data cs cs') (hs : Sorted lo cs) (hlo : lo ≤ offset)
    (hd : data ≠ []) : Sorted lo cs' := by
  cases h with
  | placed pre post hpre hpost =>
    obtain ⟨h1, h2⟩ := (sorted_append lo pre post).1 hs
    refine (sorted_append lo pre _).2 ⟨h1, endOf_le hlo hpre, by rwa [newChunk_data], ?_⟩
    refine sorted_of_le (sorted_behind h2 hpost) ?_
    simp only [ReassemblyChunk.stop, newChunk_offset, newChunk_data]
    exact Nat.le_max_left _ _
  | @extended pre c hc =>
    obtain ⟨h1, h2, h3, -⟩ := (sorted_append lo pre [c]).1 hs
    exact sorted_concat h1 h2 (by simp [h3])
  | contained => exact hs
  | @merged pre mid post first last hf hl hpre hmid hpost =>
    obtain ⟨h1, h2, h3⟩ := touched_bounds hs hf hl
    obtain ⟨h4, -⟩ := (sorted_append lo pre _).1 hs
    refine (sorted_append lo pre _).2 ⟨h4, ?_, ?_, ?_⟩
    · rw [mergeChunks_offset]
      exact Nat.le_min.2 ⟨endOf_le hlo (fun c hc => Nat.le_of_lt (hpre c hc)), h1⟩
    · have hpos := length_pos_iff.2 hd
      have ho := mergeChunks_offset stale offset data mid first last
      have he := mergeChunks_stop stale offset data mid first last
      intro hnil
      simp only [ReassemblyChunk.stop, hnil, length_nil] at he ho
      omega
    · rw [mergeChunks_stop]
      exact sorted_behind h2 hpost

theorem covers_append (xs ys : List ReassemblyChunk) (i : Nat) : Covers (xs ++ ys) i ↔ Covers xs i ∨ Covers ys i := by
  simp only [Covers, mem_append, or_and_right, exists_or]

theorem covers_cons (c : ReassemblyChunk) (cs : List ReassemblyChunk) (i : Nat) :
    Covers (c :: cs) i ↔ (c.offset ≤ i ∧ i < c.stop) ∨ Covers cs i := by
  simp [Covers]

/-- An insertion loses no position and gains those of the frame. -/
theorem covers_inserted_iff (h : Inserted stale offset data cs cs') (hs : Sorted lo cs) (i : Nat) :
    Covers cs' i ↔ Covers cs i ∨ (offset ≤ i ∧ i < offset + data.length) := by
  cases h with
  | placed pre post _ _ =>
    simp only [covers_append, covers_cons, ReassemblyChunk.stop, newChunk_offset, newChunk_data]
    tauto
  | @extended pre c hc =>
    simp only [covers_append, covers_cons, ReassemblyChunk.stop, length_append] at hc ⊢
    have hlast : c.offset ≤ i ∧ i < c.offset + (c.data.length + data.length) ↔
        (c.offset ≤ i ∧ i < c.offset + c.data.length) ∨ (offset ≤ i ∧ i < offset + data.length) := by omega
    rw [hlast]
    tauto
  | @contained cs c hc h1 h2 => exact ⟨.inl, fun hi => hi.elim id fun hi => ⟨c, hc, by omega, by omega⟩⟩
  | @merged pre mid post first last hf hl _ hmid _ =>
    obtain ⟨-, -, hbounds⟩ := touched_bounds hs hf hl
    have hfm := mem_of_mem_head? hf
    have hlm := mem_of_getLast? hl
    have h1 := hmid first hfm
    have h2 := hmid last hlm
    have hmerged : min offset first.offset ≤ i ∧ i < max (offset + data.length) last.stop ↔
        Covers mid i ∨ (offset ≤ i ∧ i < offset + data.length) := by
      constructor
      · -- before the frame it is in the first chunk, behind the frame in the last
        intro hi
        by_cases hlt : i < offset
        · exact .inl ⟨first, hfm, by omega, by omega⟩
        · by_cases hge : offset + data.length ≤ i
          · exact .inl ⟨last, hlm, by omega, by omega⟩
          · exact .inr (by omega)
      · rintro (⟨c, hc, hi⟩ | hi)
        · have := hbounds c hc
          omega
        · omega
    simp only [covers_append, covers_cons, mergeChunks_offset, mergeChunks_stop, hmerged]
    tauto

theorem inserted_stops {hi : Nat} (h : Inserted stale offset data cs cs') (hs : Sorted lo cs) (hs' : Sorted lo cs')
    (hstops : ∀ c ∈ cs, c.stop ≤ hi) (hhi : offset + data.length ≤ hi) : ∀ c ∈ cs', c.stop ≤ hi := by
  intro c hc
  have hlt := stop_gt (sorted_lo hs' c hc).2
  -- the last position of the chunk was there before, or is in the frame
  rcases (covers_inserted_iff h hs (c.stop - 1)).1 ⟨c, hc, by omega, by omega⟩ with ⟨d, hd, hin⟩ | hin
  · have := hstops d hd
    omega
  · omega

end Inserted

end Mach.Quic.Stream
