import Mach.Quic.Stream.ReassemblyInv
/-!
# The operations of the reassembly buffer

`push_cases` says what `push` does with a frame and `read_cases` what `read`
does, for any frames at all. Both keep the layout of the buffer (`Laid`).
-/

namespace Mach.Quic.Stream

open Lib List

namespace ReassemblyBuffer

variable {b : ReassemblyBuffer} {offset k : Nat} {data : List UInt8} {fin : Bool} {c : ReassemblyChunk}
  {cs : List ReassemblyChunk}

/-! ## Pushing a frame -/

/-- The final size and highest offset after a frame that ends at `stop`. -/
def noteEnd (b : ReassemblyBuffer) (stop : Nat) (fin : Bool) : ReassemblyBuffer :=
  { b with
    finalSize := if fin ∧ ¬ b.hasFinalSize then stop else b.finalSize
    hasFinalSize := b.hasFinalSize || fin
    highestOffset := max b.highestOffset stop }

/-- The frame passes the length and final size checks. -/
structure Acceptable (b : ReassemblyBuffer) (offset len : Nat) (fin : Bool) : Prop where
  fits : offset + len ≤ varintMax
  within : b.hasFinalSize → offset + len ≤ b.finalSize
  same : b.hasFinalSize → fin → b.finalSize = offset + len
  covers : fin → ¬ b.hasFinalSize → b.highestOffset ≤ offset + len

theorem push_accepts (h : b.Acceptable offset data.length fin) (stale : Nat → UInt8) :
    b.push stale offset data fin =
      if offset + data.length ≤ b.readOffset ∨ data = [] then (b.noteEnd (offset + data.length) fin, none)
      else (b.noteEnd (offset + data.length) fin).insertChunk stale (max offset b.readOffset)
        (data.drop (b.readOffset - offset)) := by
  obtain ⟨h1, h2, h3, h4⟩ := h
  have hu : u64 (offset + data.length) = offset + data.length := u64_of_lt (by simp [varintMax] at h1; omega)
  unfold push
  rw [if_neg (by omega)]
  simp only [hu]
  rw [if_neg (by omega), if_neg (by rintro ⟨a, f, hne⟩; exact hne (h3 a f)),
    if_neg (by rintro ⟨a, hlt⟩; have := h2 a; omega), if_neg (by rintro ⟨f, a, hlt⟩; have := h4 f a; omega)]
  set b' := if fin ∧ ¬ b.hasFinalSize then { b with finalSize := offset + data.length, hasFinalSize := true } else b
    with hb'
  have hnote : { b' with highestOffset := max b'.highestOffset (offset + data.length) } =
      b.noteEnd (offset + data.length) fin := by
    cases fin <;> cases hf : b.hasFinalSize <;> simp [hb', noteEnd, hf]
  have hro : b'.readOffset = b.readOffset := by
    rw [hb']
    split <;> rfl
  rw [hnote]
  simp only [hro]
  by_cases hle : offset + data.length ≤ b.readOffset
  · simp [hle]
  · by_cases hnil : data = []
    · subst hnil
      simp
    · have hpos := length_pos_iff.2 hnil
      have hnot : ¬ (offset + data.length ≤ b.readOffset ∨ data = []) := by simp [hle, hnil]
      rw [if_neg hle, if_neg hnot]
      by_cases hlt : offset < b.readOffset
      · have hrest : ¬ (data.drop (b.readOffset - offset)).length = 0 := by simp; omega
        simp only [hlt, if_true, hrest, if_false, Nat.max_eq_right (Nat.le_of_lt hlt)]
      · have hge := Nat.le_of_not_lt hlt
        have hrest : ¬ data.length = 0 := by omega
        simp [hlt, hrest, Nat.max_eq_left hge, Nat.sub_eq_zero_of_le hge]

/-- A frame that does not pass changes nothing; if its end can be written at all,
it is the final size that does not fit. -/
theorem push_rejects (h : ¬ b.Acceptable offset data.length fin) (stale : Nat → UInt8) :
    ∃ err, b.push stale offset data fin = (b, some err) ∧
      err.errorCode = if offset + data.length ≤ varintMax then .finalSizeError else .frameEncodingError := by
  unfold push
  split
  · exact ⟨_, rfl, by rw [if_neg (by omega)]⟩
  rename_i h1
  simp only [u64_of_lt (show offset + data.length < 2 ^ 64 by simp [varintMax] at h1; omega)]
  split
  · exact ⟨_, rfl, by rw [if_neg (by omega)]⟩
  have hle : offset + data.length ≤ varintMax := by omega
  rw [if_pos hle]
  split
  · exact ⟨_, rfl, rfl⟩
  split
  · exact ⟨_, rfl, rfl⟩
  split
  · exact ⟨_, rfl, rfl⟩
  rename_i h3 h4 h5
  refine absurd ⟨hle, fun a => ?_, fun a f => ?_, fun f a => ?_⟩ h
  · exact Nat.le_of_not_lt fun hlt => h4 ⟨a, hlt⟩
  · exact Decidable.of_not_not fun hne => h3 ⟨a, f, hne⟩
  · exact Nat.le_of_not_lt fun hlt => h5 ⟨f, a, hlt⟩

/-! ## The layout of the buffer -/

/-- Chunks are sorted behind the read offset, and neither they nor the reader
are past the highest offset or the final size. -/
structure Laid (b : ReassemblyBuffer) : Prop where
  sorted : Sorted b.readOffset b.chunks
  stops : ∀ c ∈ b.chunks, c.stop ≤ b.highestOffset
  read_le : b.readOffset ≤ b.highestOffset
  final : b.hasFinalSize → b.highestOffset ≤ b.finalSize

theorem laid_new : Laid newReassemblyBuffer where
  sorted := trivial
  stops := by simp [newReassemblyBuffer]
  read_le := Nat.le_refl _
  final := by simp [newReassemblyBuffer]

/-- The part of a frame that is pushed: what lies behind the read offset. -/
def fresh (b : ReassemblyBuffer) (offset : Nat) (data : List UInt8) : List UInt8 := data.drop (b.readOffset - offset)

theorem push_cases (b : ReassemblyBuffer) (stale : Nat → UInt8) (offset : Nat) (data : List UInt8) (fin : Bool)
    (h : Laid b) :
    (¬ b.Acceptable offset data.length fin ∧ ∃ err, b.push stale offset data fin = (b, some err) ∧
      err.errorCode = if offset + data.length ≤ varintMax then .finalSizeError else .frameEncodingError) ∨
    (b.Acceptable offset data.length fin ∧ ∃ c ∈ b.chunks, ∃ err,
      divergent (max offset b.readOffset) (b.fresh offset data) c = some err ∧
      b.push stale offset data fin = (b.noteEnd (offset + data.length) fin, some err)) ∨
    (b.Acceptable offset data.length fin ∧ ∃ cs,
      b.push stale offset data fin = ({ b.noteEnd (offset + data.length) fin with chunks := cs }, none) ∧
      (∀ c ∈ b.chunks, divergent (max offset b.readOffset) (b.fresh offset data) c = none) ∧
      ((cs = b.chunks ∧ (offset + data.length ≤ b.readOffset ∨ data = [])) ∨
        (b.fresh offset data ≠ [] ∧ b.readOffset < offset + data.length ∧
          Inserted stale (max offset b.readOffset) (b.fresh offset data) b.chunks cs))) := by
  by_cases hacc : b.Acceptable offset data.length fin
  · right
    rw [push_accepts hacc]
    split
    · rename_i hold
      have hnil : (b.fresh offset data).length = 0 := by
        rw [fresh, length_drop]
        rcases hold with hle | rfl
        · omega
        · exact Nat.zero_sub _
      have hbeside : ∀ c ∈ b.chunks, divergent (max offset b.readOffset) (b.fresh offset data) c = none :=
        fun c _ => if_neg fun hd => by have := hd.1; omega
      exact .inr ⟨hacc, b.chunks, rfl, hbeside, .inl ⟨rfl, hold⟩⟩
    · rename_i hnew
      have hpos := length_pos_iff.2 fun hnil => hnew (.inr hnil)
      rcases inserted_of (b.noteEnd (offset + data.length) fin) stale (max offset b.readOffset) (b.fresh offset data)
        (show Sorted b.readOffset (b.noteEnd (offset + data.length) fin).chunks from h.sorted) with
        ⟨cs, heq, hins, hsame⟩ | ⟨c, hc, err, hdiv, heq⟩
      · refine .inr ⟨hacc, cs, heq, hsame, .inr ⟨?_, by omega, hins⟩⟩
        rw [fresh, ← length_pos_iff, length_drop]
        omega
      · exact .inl ⟨hacc, c, hc, err, hdiv, heq⟩
  · exact .inl ⟨hacc, push_rejects hacc stale⟩

theorem laid_noteEnd {len : Nat} (h : Laid b)
    (hacc : b.Acceptable offset len fin) : Laid (b.noteEnd (offset + len) fin) where
  sorted := h.sorted
  stops c hc := Nat.le_trans (h.stops c hc) (Nat.le_max_left _ _)
  read_le := Nat.le_trans h.read_le (Nat.le_max_left _ _)
  final hf := by
    by_cases hb : b.hasFinalSize
    · simp only [noteEnd]
      rw [if_neg fun hn => hn.2 hb]
      exact Nat.max_le.2 ⟨h.final hb, hacc.within hb⟩
    · have hfin : fin = true := by simpa [noteEnd, hb] using hf
      simp only [noteEnd]
      rw [if_pos ⟨hfin, hb⟩]
      exact Nat.max_le.2 ⟨hacc.covers hfin hb, Nat.le_refl _⟩

theorem length_fresh (h : b.readOffset < offset + data.length) :
    max offset b.readOffset + (b.fresh offset data).length = offset + data.length := by
  simp only [fresh, length_drop]; omega

/-- Whatever is pushed, and whether it is refused or not, the layout is kept. -/
theorem laid_push (h : Laid b) (stale : Nat → UInt8) (offset : Nat) (data : List UInt8)
    (fin : Bool) : Laid (b.push stale offset data fin).1 := by
  rcases push_cases b stale offset data fin h with
    ⟨-, err, heq, -⟩ | ⟨hacc, -, -, err, -, heq⟩ | ⟨hacc, cs, heq, -, ⟨rfl, -⟩ | ⟨hne, hlt, hins⟩⟩
  · rw [heq]; exact h
  · rw [heq]; exact laid_noteEnd h hacc
  · rw [heq]; exact laid_noteEnd h hacc
  · have hn := laid_noteEnd h hacc
    rw [heq]
    have hs := inserted_sorted hins h.sorted (Nat.le_max_right _ _) hne
    refine ⟨hs, inserted_stops hins h.sorted hs hn.stops ?_, hn.read_le, hn.final⟩
    rw [length_fresh hlt]
    exact Nat.le_max_right _ _

/-! ## Reading -/

/-- What is left after the first `k` bytes of the first chunk were read. -/
def consume (c : ReassemblyChunk) (cs : List ReassemblyChunk) (k : Nat) : List ReassemblyChunk :=
  if k = c.data.length then cs else { c with offset := c.offset + k, data := c.data.drop k } :: cs

theorem read_first {n : Nat} (hc : b.chunks = c :: cs) (hoff : c.offset = b.readOffset) (hn : 0 < n) :
    b.read n = ({ b with readOffset := b.readOffset + min n c.data.length, chunks := consume c cs (min n c.data.length) },
      c.data.take (min n c.data.length),
      b.hasFinalSize && decide (b.finalSize ≤ b.readOffset + min n c.data.length)) := by
  unfold read
  rw [if_neg (by omega), hc]
  simp only
  rw [if_neg (by omega)]
  simp only [consume]
  split <;> rfl

theorem read_cases (b : ReassemblyBuffer) (h : Laid b) {n : Nat} (hn : 0 < n) :
    ((∀ c ∈ b.chunks, b.readOffset < c.offset) ∧ b.read n = (b, [], b.isAllDataRead)) ∨
    ∃ c cs k, b.chunks = c :: cs ∧ c.offset = b.readOffset ∧ 0 < k ∧ k ≤ c.data.length ∧
      b.read n = ({ b with readOffset := b.readOffset + k, chunks := consume c cs k }, c.data.take k,
        b.hasFinalSize && decide (b.finalSize ≤ b.readOffset + k)) := by
  have hs := h.sorted
  cases hc : b.chunks with
  | nil => exact .inl ⟨by simp, by simp [read, hc, Nat.pos_iff_ne_zero.1 hn]⟩
  | cons c cs =>
    rw [hc] at hs
    obtain ⟨h1, h2, h3⟩ := hs
    have hgt := stop_gt h2
    by_cases hlt : b.readOffset < c.offset
    · refine .inl ⟨fun d hd => ?_, by simp [read, hc, hlt, Nat.pos_iff_ne_zero.1 hn]⟩
      rcases mem_cons.1 hd with rfl | hd
      · exact hlt
      · have := (sorted_lo h3 d hd).1
        omega
    · have hoff : c.offset = b.readOffset := by omega
      have hpos := length_pos_iff.2 h2
      exact .inr ⟨c, cs, min n c.data.length, rfl, hoff, by omega, by omega, read_first hc hoff hn⟩

/-- Reading changes neither the highest offset nor the final size. -/
theorem read_sizes (b : ReassemblyBuffer) (n : Nat) : (b.read n).1.highestOffset = b.highestOffset ∧
    (b.read n).1.finalSize = b.finalSize ∧ (b.read n).1.hasFinalSize = b.hasFinalSize := by
  unfold read
  split
  · exact ⟨rfl, rfl, rfl⟩
  split
  · exact ⟨rfl, rfl, rfl⟩
  split
  · exact ⟨rfl, rfl, rfl⟩
  · dsimp only
    split <;> exact ⟨rfl, rfl, rfl⟩

theorem consume_sorted {r : Nat} (h : Sorted r (c :: cs))
    (hr : c.offset = r) (hk : k ≤ c.data.length) : Sorted (r + k) (consume c cs k) := by
  obtain ⟨-, h2, h3⟩ := h
  unfold consume
  split
  · rename_i he
    exact sorted_of_le h3 (by simp only [ReassemblyChunk.stop]; omega)
  · refine ⟨by simp [hr], by simp; omega, sorted_of_le h3 ?_⟩
    simp only [ReassemblyChunk.stop, length_drop]; omega

/-- A chunk left by a read is one of those before it, or the rest of the first. -/
theorem mem_consume {d : ReassemblyChunk} (hk : k ≤ c.data.length) (hd : d ∈ consume c cs k) :
    d ∈ cs ∨ (d.stop = c.stop ∧ d.offset = c.offset + k ∧ d.data = c.data.drop k) := by
  unfold consume at hd
  split at hd
  · exact .inl hd
  · rcases mem_cons.1 hd with rfl | hd
    · refine .inr ⟨?_, rfl, rfl⟩
      simp only [ReassemblyChunk.stop, length_drop]; omega
    · exact .inl hd

theorem consume_covers {i : Nat} (hi : c.offset + k ≤ i) (h : Covers (c :: cs) i) : Covers (consume c cs k) i := by
  rw [covers_cons] at h
  unfold consume
  split
  · rename_i he
    refine h.resolve_left ?_
    simp only [ReassemblyChunk.stop]; omega
  · rw [covers_cons]
    rcases h with h | h
    · left
      simp only [ReassemblyChunk.stop, length_drop] at h ⊢
      omega
    · exact .inr h

theorem laid_read (h : Laid b) (n : Nat) : Laid (b.read n).1 := by
  rcases Nat.eq_zero_or_pos n with rfl | hn
  · simpa [read] using h
  rcases read_cases b h hn with ⟨-, heq⟩ | ⟨c, cs, k, hc, hoff, hk, hkl, heq⟩
  · rw [heq]; exact h
  · rw [heq]
    have hmem : ∀ d ∈ b.chunks, d.stop ≤ b.highestOffset := h.stops
    rw [hc] at hmem
    have hcs := hmem c (by simp)
    refine ⟨consume_sorted (hc ▸ h.sorted) hoff hkl, fun d hd => ?_, ?_, h.final⟩
    · rcases mem_consume hkl hd with hd | ⟨he, -⟩
      · exact hmem d (by simp [hd])
      · exact he ▸ hcs
    · simp only [ReassemblyChunk.stop] at hcs ⊢; omega

theorem laid_setFinalSize {size : Nat} (h : Laid b) (hs : b.highestOffset ≤ size) :
    Laid (b.setFinalSize size) where
  sorted := h.sorted
  stops c hc := Nat.le_trans (h.stops c hc) (Nat.le_max_left _ _)
  read_le := Nat.le_trans h.read_le (Nat.le_max_left _ _)
  final _ := Nat.max_le.2 ⟨hs, Nat.le_refl _⟩

end ReassemblyBuffer

end Mach.Quic.Stream
