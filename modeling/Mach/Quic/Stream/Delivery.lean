import Mach.Lib.Run
import Mach.Quic.Stream.ReassemblyOps
/-!
# The reassembly buffer delivers the sent stream

Frames cut out of one byte sequence `s` are pushed in any order, with overlaps,
gaps and duplicates, and reads of any size come in between. What the buffer is
for: an abstract receiver knows which positions of `s` have arrived and how far
the reader is (`Delivered`), and every operation of the buffer keeps up with it.
-/

namespace Mach.Quic.Stream

open Lib ReassemblyBuffer List

variable {s : List UInt8} {n o l : Nat} {tr : List Returned} {fin : Bool} {b : ReassemblyBuffer}

/-- A call on the buffer. A frame is cut out of the sent bytes at `o`. -/
inductive Call where
  | push (o l : Nat) (fin : Bool) (stale : Nat → UInt8)
  | read (n : Nat)

/-- A call with what it returned. -/
inductive Returned where
  | push (o l : Nat) (fin : Bool) (err : Option TransportError)
  | read (bytes : List UInt8) (eof : Bool)
  deriving DecidableEq

/-- Frames lie within `s`, a final one ends with it, and read buffers are not
empty. -/
def Call.Of (s : List UInt8) : Call → Prop
  | .push o l fin _ => o + l ≤ s.length ∧ (fin → o + l = s.length)
  | .read n => 0 < n

def call (s : List UInt8) (b : ReassemblyBuffer) : Call → Option (ReassemblyBuffer × List Returned)
  | .push o l fin stale =>
    let r := b.push stale o (slice s o l) fin
    some (r.1, [.push o l fin r.2])
  | .read n =>
    let r := b.read n
    some (r.1, [.read r.2.1 r.2.2])

def Returned.bytes : Returned → List UInt8
  | .push .. => []
  | .read bytes _ => bytes

def Arrived (tr : List Returned) (i : Nat) : Prop := ∃ o l fin err, .push o l fin err ∈ tr ∧ o ≤ i ∧ i < o + l

def Ended (tr : List Returned) : Prop := ∃ o l err, .push o l true err ∈ tr

/-! ## Chunks of the sent bytes -/

def Holds (s : List UInt8) (c : ReassemblyChunk) : Prop := c.stop ≤ s.length ∧ c.data = slice s c.offset c.data.length

variable {c : ReassemblyChunk} {stale : Nat → UInt8} {offset i : Nat} {err : Option TransportError}
  {bytes : List UInt8} {eof : Bool}

theorem holds_drop {d : ReassemblyChunk} {k : Nat} (h : Holds s c) (hs : d.stop = c.stop)
    (ho : d.offset = c.offset + k) (hd : d.data = c.data.drop k) : Holds s d := by
  refine ⟨hs ▸ h.1, ?_⟩
  rw [hd, ho]
  conv_lhs => rw [h.2]
  rw [drop_slice, length_drop]

/-- Bytes of `s` never diverge from a chunk that holds bytes of `s`. -/
theorem not_divergent (hc : Holds s c) (o n : Nat) (hn : o + n ≤ s.length) : divergent o (slice s o n) c = none := by
  unfold divergent
  simp only [length_slice hn]
  refine if_neg ?_
  rintro ⟨hlt, hne⟩
  apply hne
  rw [hc.2]
  simp only [ReassemblyChunk.stop] at hlt ⊢
  rw [slice_slice _ _ _ _ _ (by omega), slice_slice _ _ _ _ _ (by omega)]
  congr 1
  omega

theorem holds_merge {mid : List ReassemblyChunk}
    {first last : ReassemblyChunk} (hn : offset + n ≤ s.length) (hmid : ∀ c ∈ mid, Holds s c)
    (hf : mid.head? = some first) (hl : mid.getLast? = some last)
    (htouch : ∀ c ∈ mid, c.offset ≤ offset + n ∧ offset ≤ c.stop)
    (hb : ∀ c ∈ mid, first.offset ≤ c.offset ∧ c.stop ≤ last.stop) :
    Holds s (mergeChunks stale offset (slice s offset n) mid first last) := by
  have hfm := mem_of_mem_head? hf
  have hlm := mem_of_getLast? hl
  refine ⟨?_, ?_⟩
  · rw [mergeChunks_stop, length_slice hn]
    exact Nat.max_le.2 ⟨hn, (hmid last hlm).1⟩
  -- After the chunks are copied the buffer agrees with `s` where they are, and
  -- the frame fills what is between them.
  · have hfold : ∀ (cs : List ReassemblyChunk) (buf : List UInt8) (P : Nat → Prop), (∀ c ∈ cs, c ∈ mid) →
        Agrees s (min offset first.offset) buf P →
        Agrees s (min offset first.offset)
          (cs.foldl (fun buf c => copyAt buf (c.offset - min offset first.offset) c.data) buf)
          (fun i => P i ∨ Covers cs i) := by
      intro cs
      induction cs with
      | nil => intro buf P _ h k hk hP; exact h k hk (hP.resolve_right (by simp [Covers]))
      | cons c cs ih =>
        intro buf P hcs h
        have hc := hmid c (hcs c (by simp))
        have hco := (hb c (hcs c (by simp))).1
        have h1 := agrees_copyAt h c.offset c.data.length (by omega) hc.1
        rw [← hc.2] at h1
        have h2 := ih _ _ (fun d hd => hcs d (by simp [hd])) h1
        intro k hk hP
        refine h2 k hk ?_
        rw [covers_cons] at hP
        simp only [ReassemblyChunk.stop] at hP
        tauto
    have hall := hfold mid (allocChunkData stale (max (offset + n) last.stop - min offset first.offset)).1
      (fun _ => False) (fun _ h => h) (fun _ _ h => h.elim)
    have hend := agrees_copyAt hall offset n (Nat.min_le_left _ _) hn
    have hdata : (mergeChunks stale offset (slice s offset n) mid first last).data =
        copyAt (mid.foldl (fun buf c => copyAt buf (c.offset - min offset first.offset) c.data)
          (allocChunkData stale (max (offset + n) last.stop - min offset first.offset)).1)
          (offset - min offset first.offset) (slice s offset n) := by
      simp only [mergeChunks, length_slice hn]
    rw [hdata, mergeChunks_offset]
    refine eq_slice_of_agrees hend fun i hi1 hi2 => ?_
    rw [length_copyAt, length_foldl_copy, length_allocChunkData] at hi2
    have h1 := htouch first hfm
    have h2 := htouch last hlm
    simp only [ReassemblyChunk.stop] at hi2 h1 h2
    by_cases hin : offset ≤ i ∧ i < offset + n
    · exact .inr hin
    · refine .inl (.inr ?_)
      by_cases hlt : i < offset
      · exact ⟨first, hfm, by omega, by simp only [ReassemblyChunk.stop]; omega⟩
      · exact ⟨last, hlm, by omega, by simp only [ReassemblyChunk.stop]; omega⟩

theorem inserted_holds {lo : Nat} {cs cs' : List ReassemblyChunk}
    (h : Inserted stale offset (slice s offset n) cs cs') (hs : Sorted lo cs) (hn : offset + n ≤ s.length)
    (hcs : ∀ c ∈ cs, Holds s c) : ∀ c ∈ cs', Holds s c := by
  have hlen := length_slice hn
  cases h with
  | placed pre post _ _ =>
    intro c hc
    simp only [mem_append, mem_cons] at hc
    rcases hc with hc | rfl | hc
    · exact hcs c (by simp [hc])
    · refine ⟨?_, ?_⟩
      · simpa only [ReassemblyChunk.stop, newChunk_offset, newChunk_data, hlen] using hn
      · rw [newChunk_data, newChunk_offset, hlen]
    · exact hcs c (by simp [hc])
  | @extended pre c hc =>
    have hh := hcs c (by simp)
    intro d hd
    simp only [mem_append, mem_singleton] at hd
    rcases hd with hd | rfl
    · exact hcs d (by simp [hd])
    · simp only [ReassemblyChunk.stop] at hc
      refine ⟨by simp only [ReassemblyChunk.stop, length_append, hlen]; omega, ?_⟩
      simp [hlen, ← slice_append, ← hh.2, hc]
  | contained => exact hcs
  | @merged pre mid post first last hf hl _ hmid _ =>
    obtain ⟨-, -, hb⟩ := touched_bounds hs hf hl
    intro c hc
    simp only [mem_append, mem_cons] at hc
    rcases hc with hc | rfl | hc
    · exact hcs c (by simp [hc])
    · exact holds_merge hn (fun d hd => hcs d (by simp [hd])) hf hl (by simpa only [hlen] using hmid) hb
    · exact hcs c (by simp [hc])

/-! ## The receiver of `s` -/

/-- The buffer is where a receiver of `s` is after the calls `tr`: it holds
every position that arrived and was not read, its chunks hold bytes of `s`, and
the bytes read so far are `s` up to the read offset. -/
structure Delivered (s : List UInt8) (b : ReassemblyBuffer) (tr : List Returned) : Prop where
  laid : Laid b
  holds : ∀ c ∈ b.chunks, Holds s c
  highest : b.highestOffset ≤ s.length
  covered : ∀ i, Arrived tr i → b.readOffset ≤ i → Covers b.chunks i
  ended : b.hasFinalSize = true ↔ Ended tr
  final : b.hasFinalSize → b.finalSize = s.length
  output : tr.flatMap Returned.bytes = s.take b.readOffset
  clean : ∀ o l fin err, .push o l fin (some err) ∉ tr

theorem delivered_new (s : List UInt8) : Delivered s newReassemblyBuffer [] where
  laid := laid_new
  holds := by simp [newReassemblyBuffer]
  highest := Nat.zero_le _
  covered := by simp [Arrived]
  ended := by simp [newReassemblyBuffer, Ended]
  final := by simp [newReassemblyBuffer]
  output := by simp [newReassemblyBuffer]
  clean := by simp

theorem arrived_push (h : Arrived (tr ++ [.push o l fin err]) i) : Arrived tr i ∨ (o ≤ i ∧ i < o + l) := by
  obtain ⟨o', l', fin', err', hm, hi⟩ := h
  rcases mem_append.1 hm with hm | hm
  · exact .inl ⟨o', l', fin', err', hm, hi⟩
  · simp only [mem_singleton, Returned.push.injEq] at hm
    obtain ⟨rfl, rfl, rfl, rfl⟩ := hm
    exact .inr hi

theorem ended_push : Ended (tr ++ [.push o l fin err]) ↔ Ended tr ∨ fin = true := by
  constructor
  · rintro ⟨o', l', err', hm⟩
    rcases mem_append.1 hm with hm | hm
    · exact .inl ⟨o', l', err', hm⟩
    · simp only [mem_singleton, Returned.push.injEq] at hm
      exact .inr hm.2.2.1.symm
  · rintro (⟨o', l', err', hm⟩ | rfl)
    · exact ⟨o', l', err', mem_append_left _ hm⟩
    · exact ⟨o, l, err, by simp⟩

theorem fresh_slice (b : ReassemblyBuffer) (s : List UInt8) (o l : Nat) :
    b.fresh o (slice s o l) = slice s (max o b.readOffset) (l - (b.readOffset - o)) := by
  rw [fresh, drop_slice]
  congr 1
  omega

theorem delivered_push (hs : s.length ≤ varintMax)
    (h : Delivered s b tr) (hl : o + l ≤ s.length) (hfin : fin → o + l = s.length) (stale : Nat → UInt8) :
    Delivered s (b.push stale o (slice s o l) fin).1
      (tr ++ [.push o l fin (b.push stale o (slice s o l) fin).2]) := by
  have hlaid := laid_push h.laid stale o (slice s o l) fin
  have hread := h.laid.read_le
  have hhigh := h.highest
  have hlen := length_slice hl
  have hacc : b.Acceptable o (slice s o l).length fin := by
    rw [hlen]
    exact ⟨by omega, fun a => h.final a ▸ hl, fun a f => (h.final a).trans (hfin f).symm, fun f _ => hfin f ▸ hhigh⟩
  have hnot : ∀ c ∈ b.chunks, divergent (max o b.readOffset) (b.fresh o (slice s o l)) c = none := by
    intro c hc
    rw [fresh_slice]
    exact not_divergent (h.holds c hc) _ _ (by omega)
  rcases push_cases b stale o (slice s o l) fin h.laid with ⟨hno, -⟩ | ⟨-, c, hc, err, hdiv, -⟩ | ⟨-, cs, heq, -, hcs⟩
  · exact absurd hacc hno
  · rw [hnot c hc] at hdiv; cases hdiv
  · rw [heq] at hlaid ⊢
    rw [hlen] at hlaid heq ⊢
    refine ⟨hlaid, ?_, Nat.max_le.2 ⟨hhigh, hl⟩, ?_, ?_, ?_, ?_, ?_⟩
    · rcases hcs with ⟨rfl, -⟩ | ⟨-, hlt, hins⟩
      · exact h.holds
      · rw [fresh_slice] at hins
        exact inserted_holds hins h.laid.sorted (by omega) h.holds
    · intro i hi hri
      rcases hcs with ⟨rfl, hold⟩ | ⟨-, hlt, hins⟩
      · refine h.covered i ((arrived_push hi).resolve_right ?_) hri
        rintro ⟨h1, h2⟩
        rcases hold with hold | hnil
        · rw [hlen] at hold
          exact absurd hri (by simp only [noteEnd]; omega)
        · rw [hnil] at hlen
          simp at hlen
          omega
      · refine (covers_inserted_iff hins h.laid.sorted i).2 ?_
        rw [length_fresh hlt, hlen]
        rcases arrived_push hi with hi | hi
        · exact .inl (h.covered i hi hri)
        · exact .inr ⟨Nat.max_le.2 ⟨hi.1, hri⟩, hi.2⟩
    · rw [ended_push, ← h.ended]
      simp [noteEnd]
    · intro hf
      have hfinal := h.final
      simp only [noteEnd] at hf ⊢
      cases hb : b.hasFinalSize <;> cases fin <;> simp_all
    · simp only [flatMap_append, h.output, flatMap_cons, flatMap_nil, Returned.bytes, append_nil]
      rfl
    · intro o' l' fin' err' hm
      rcases mem_append.1 hm with hm | hm
      · exact h.clean _ _ _ _ hm
      · simp at hm

theorem arrived_read : Arrived (tr ++ [.read bytes eof]) i ↔ Arrived tr i := by
  simp [Arrived]

theorem ended_read : Ended (tr ++ [.read bytes eof]) ↔ Ended tr := by
  simp [Ended]

theorem delivered_read (h : Delivered s b tr)
    (hn : 0 < n) : Delivered s (b.read n).1 (tr ++ [.read (b.read n).2.1 (b.read n).2.2]) := by
  have hlaid := laid_read h.laid n
  rcases read_cases b h.laid hn with ⟨-, heq⟩ | ⟨c, cs, k, hc, hoff, hk, hkl, heq⟩
  · rw [heq] at hlaid ⊢
    exact { h with
      laid := hlaid
      covered := fun i hi => h.covered i (arrived_read.1 hi)
      ended := h.ended.trans ended_read.symm
      output := by simp [h.output, Returned.bytes]
      clean := by simpa using h.clean }
  · rw [heq] at hlaid ⊢
    have hh : ∀ d ∈ c :: cs, Holds s d := hc ▸ h.holds
    have hhc := hh c (by simp)
    refine ⟨hlaid, fun d hd => ?_, h.highest, fun i hi hri => ?_, h.ended.trans ended_read.symm, h.final, ?_,
      by simpa using h.clean⟩
    · rcases mem_consume hkl hd with hd | ⟨h1, h2, h3⟩
      · exact hh d (by simp [hd])
      · exact holds_drop hhc h1 h2 h3
    · refine consume_covers (by simp only at hri; omega) (hc ▸ h.covered i (arrived_read.1 hi) ?_)
      simp only at hri; omega
    · have htake : c.data.take k = slice s b.readOffset k := by
        rw [hhc.2, take_slice, hoff, Nat.min_eq_left hkl]
      simp [h.output, Returned.bytes, htake, take_append_slice]

/-- Any calls on a fresh buffer keep up with the receiver of `s`. -/
theorem delivered_run (hs : s.length ≤ varintMax) {es : List Call} (hes : ∀ e ∈ es, e.Of s)
    (hr : run (call s) newReassemblyBuffer es = some (b, tr)) :
    Delivered s b tr := by
  refine run_inv (Delivered s) ?_ hes (delivered_new s) hr
  intro b tr e b' o he h hstep
  cases e with
  | push off l fin stale =>
    cases hstep
    exact delivered_push hs h he.1 he.2 stale
  | read n =>
    cases hstep
    exact delivered_read h he

theorem run_call_total (s : List UInt8) (b : ReassemblyBuffer) (es : List Call) :
    ∃ b' tr, run (call s) b es = some (b', tr) := by
  induction es generalizing b with
  | nil => exact ⟨b, [], rfl⟩
  | cons e es ih =>
    obtain ⟨b', o, hstep⟩ : ∃ b' o, call s b e = some (b', o) := by cases e <;> exact ⟨_, _, rfl⟩
    obtain ⟨b'', tr, hr⟩ := ih b'
    exact ⟨b'', o ++ tr, by rw [run_cons_some es hstep, hr]; rfl⟩

/-- Whatever the order of the frames of `s` and of the reads between them: no
frame is refused, the bytes read are `s` up to the read offset, the next read
returns something if the byte at the read offset has arrived, and it reports the
end exactly when a final frame has arrived and everything has been read. -/
theorem reassembly_delivers (s : List UInt8) (hs : s.length ≤ varintMax) (es : List Call) (hes : ∀ e ∈ es, e.Of s) :
    ∃ b tr, run (call s) newReassemblyBuffer es = some (b, tr) ∧
      (∀ o l fin err, .push o l fin (some err) ∉ tr) ∧
      (b.readOffset ≤ s.length ∧ tr.flatMap Returned.bytes = s.take b.readOffset) ∧
      ∀ n, 0 < n →
        (Arrived tr b.readOffset → (b.read n).2.1 ≠ []) ∧
        ((b.read n).2.2 = true ↔ Ended tr ∧ (b.read n).1.readOffset = s.length) := by
  obtain ⟨b, tr, hr⟩ := run_call_total s newReassemblyBuffer es
  have h := delivered_run hs hes hr
  refine ⟨b, tr, hr, h.clean, ⟨Nat.le_trans h.laid.read_le h.highest, h.output⟩, fun n hn => ⟨fun ha => ?_, ?_⟩⟩
  · obtain ⟨c, hc, h1, h2⟩ := h.covered _ ha (Nat.le_refl _)
    rcases read_cases b h.laid hn with ⟨hno, -⟩ | ⟨c, cs, k, -, -, hk, hkl, heq⟩
    · exact absurd (hno c hc) (by omega)
    rw [heq, ← length_pos_iff, length_take]
    omega
  · have hd := delivered_read h hn
    have hle := Nat.le_trans hd.laid.read_le hd.highest
    have heof : (b.read n).2.2 = (b.read n).1.isAllDataRead := by
      rcases read_cases b h.laid hn with ⟨-, heq⟩ | ⟨c, cs, k, -, -, -, -, heq⟩ <;> rw [heq]
      rfl
    rw [heof, isAllDataRead, Bool.and_eq_true, decide_eq_true_eq, ← ended_read, ← hd.ended]
    constructor
    · rintro ⟨hf, hfin⟩
      exact ⟨hf, Nat.le_antisymm hle (hd.final hf ▸ hfin)⟩
    · rintro ⟨hf, hfin⟩
      exact ⟨hf, Nat.le_of_eq ((hd.final hf).trans hfin.symm)⟩

/-- Three bytes, the last two first, then an overlapping frame and a read. -/
theorem reassembly_delivers_three :
    ∃ b tr, run (call [7, 8, 9]) newReassemblyBuffer
        [.push 1 2 true (fun _ => 0), .push 0 2 false (fun _ => 5), .read 8] = some (b, tr) ∧
      b.readOffset ≤ 3 ∧ tr.flatMap Returned.bytes = [7, 8, 9].take b.readOffset := by
  obtain ⟨b, tr, hr, -, h, -⟩ := reassembly_delivers [7, 8, 9] (by decide)
    [.push 1 2 true (fun _ => 0), .push 0 2 false (fun _ => 5), .read 8] (by simp [Call.Of])
  exact ⟨b, tr, hr, h⟩

end Mach.Quic.Stream
