import Mach.Quic.Stream.PushErrors
import Mach.Quic.Stream.ReceiveSteps
import Mathlib.Order.Bounds.Basic
/-!
# The contiguous bytes of the reassembly buffer

`AvailableContiguous` and `Peek` look at the first chunk only. A frame that
continues the last chunk when its pooled buffer is full becomes a chunk of its
own, so that the bytes at the reader may go on in the second chunk. They see all
of them exactly if they do not, and with the same condition `HandleStreamFrame`
notices that all bytes of the stream have been received.
-/

namespace Mach.Quic.Stream

open Lib List

def Received (tr : List Pushed) (i : Nat) : Prop := ∃ p ∈ tr, p.offset ≤ i ∧ i < p.offset + p.data.length

/-- `k` is the number of positions from `r` on up to the first that was not received. -/
def LongestRun (tr : List Pushed) (r k : Nat) : Prop :=
  IsGreatest { k | ∀ i, r ≤ i → i < r + k → Received tr i } k

theorem received_concat {tr : List Pushed} {p : Pushed} {i : Nat} :
    Received (tr ++ [p]) i ↔ Received tr i ∨ (p.offset ≤ i ∧ i < p.offset + p.data.length) := by
  simp [Received, or_and_right, exists_or]

namespace ReassemblyBuffer

variable {cs : List ReassemblyChunk} {r : Nat}

/-- A call that succeeds: a frame that is taken, or a `Read`. -/
def taken (b : ReassemblyBuffer) : BufferOp → Option (ReassemblyBuffer × List Pushed)
  | .push stale offset data fin =>
    match b.push stale offset data fin with
    | (b', none) => some (b', [⟨offset, data, fin, none⟩])
    | (_, some _) => none
  | .read n => some ((b.read n).1, [])
  | .setFinalSize _ => none

/-- What a sequence of `Read` calls copies into `n` bytes: each call gets what is
left of them, until one returns nothing. -/
def readsInto : Nat → ReassemblyBuffer → Nat → List UInt8
  | 0, _, _ => []
  | fuel + 1, b, n =>
    let r := b.read n
    if r.2.1 = [] then [] else r.2.1 ++ readsInto fuel r.1 (n - r.2.1.length)

/-- Every call but the last copies something, so `n` of them are enough. -/
def readFull (b : ReassemblyBuffer) (n : Nat) : List UInt8 := readsInto n b n

/-- The second chunk does not go on where the first one, at the reader, ends. -/
def FirstAlone (b : ReassemblyBuffer) : Prop :=
  ∀ c d cs, b.chunks = c :: d :: cs → c.offset = b.readOffset → d.offset ≠ c.stop

/-- `AvailableContiguous` and `Peek` see what was received from the reader on. -/
def SeesAll (b : ReassemblyBuffer) (tr : List Pushed) : Prop :=
  ∃ k, LongestRun tr b.readOffset k ∧ b.availableContiguous = k ∧
    ∀ n, (b.peek n).1 = b.readFull n ∧ (b.peek n).1.length = min n k

/-! ## What the buffer keeps -/

/-- Behind the reader, the chunks hold the positions that were received. -/
structure Kept (b : ReassemblyBuffer) (tr : List Pushed) : Prop where
  laid : Laid b
  covers : ∀ i, b.readOffset ≤ i → (Covers b.chunks i ↔ Received tr i)

theorem kept_new : Kept newReassemblyBuffer [] := ⟨laid_new, by simp [newReassemblyBuffer, Covers, Received]⟩

variable {b b' : ReassemblyBuffer} {tr : List Pushed}

theorem kept_push (h : Kept b tr) {stale : Nat → UInt8} {offset : Nat} {data : List UInt8} {fin : Bool}
    (hp : b.push stale offset data fin = (b', none)) :
    Kept b' (tr ++ [⟨offset, data, fin, none⟩]) ∧ offset + data.length ≤ varintMax ∧
      ∃ cs, b' = { b.noteEnd (offset + data.length) fin with chunks := cs } := by
  have hlaid := laid_push h.laid stale offset data fin
  rcases push_cases b stale offset data fin h.laid with ⟨-, err, heq, -⟩ | ⟨-, -, -, err, -, heq⟩ | ⟨hacc, cs, heq, -, hcs⟩
  · cases heq.symm.trans hp
  · cases heq.symm.trans hp
  rw [hp] at hlaid heq
  obtain rfl := (Prod.mk.inj heq).1
  refine ⟨⟨hlaid, fun i hi => ?_⟩, hacc.fits, cs, rfl⟩
  have hi : b.readOffset ≤ i := hi
  rw [received_concat, ← h.covers i hi]
  rcases hcs with ⟨rfl, hold⟩ | ⟨-, hlt, hins⟩
  · refine (or_iff_left fun hin => ?_).symm
    rcases hold with hold | rfl
    · simp only at hin; omega
    · simp only [length_nil] at hin; omega
  · have hmax : (max offset b.readOffset ≤ i ∧ i < offset + data.length) ↔ offset ≤ i ∧ i < offset + data.length := by
      omega
    rw [← hmax, ← length_fresh hlt]
    exact covers_inserted_iff hins h.laid.sorted i

theorem covers_consume {c : ReassemblyChunk} {k i : Nat} (hk : k ≤ c.data.length)
    (h : Covers (consume c cs k) i) : Covers (c :: cs) i := by
  obtain ⟨d, hd, hi⟩ := h
  rcases mem_consume hk hd with hd | ⟨hstop, hoff, -⟩
  · exact ⟨d, mem_cons_of_mem c hd, hi⟩
  · exact ⟨c, mem_cons_self, by omega⟩

theorem kept_read (h : Kept b tr) (n : Nat) : Kept (b.read n).1 tr := by
  rcases Nat.eq_zero_or_pos n with rfl | hn
  · simpa [read] using h
  refine ⟨laid_read h.laid n, ?_⟩
  rcases read_cases b h.laid hn with ⟨-, heq⟩ | ⟨c, cs, k, hc, hoff, hk, hkl, heq⟩
  · rw [heq]
    exact h.covers
  · rw [heq]
    intro i hi
    simp only at hi ⊢
    rw [← h.covers i (by omega), hc]
    exact ⟨covers_consume hkl, consume_covers (by omega)⟩

theorem kept_run {es : List BufferOp} (hr : run taken newReassemblyBuffer es = some (b, tr)) : Kept b tr := by
  refine run_keeps Kept ?_ kept_new hr
  intro b tr e b' o h hstep
  cases e with
  | push stale offset data fin =>
    simp only [taken] at hstep
    split at hstep
    · rename_i hp
      cases hstep
      exact (kept_push h hp).1
    · cases hstep
  | read n =>
    cases hstep
    rw [append_nil]
    exact kept_read h n
  | setFinalSize size => cases hstep

/-! ## The chunks in front -/

/-- The bytes of the chunks that follow each other from `r` on. -/
def front : Nat → List ReassemblyChunk → List UInt8
  | _, [] => []
  | r, c :: cs => if c.offset = r then c.data ++ front c.stop cs else []

theorem covers_front (h : Sorted r cs) :
    (∀ i, r ≤ i → i < r + (front r cs).length → Covers cs i) ∧ ¬ Covers cs (r + (front r cs).length) := by
  induction cs generalizing r with
  | nil => exact ⟨fun i h1 h2 => absurd h2 (by simp only [front, length_nil]; omega), by simp [Covers]⟩
  | cons c cs ih =>
    obtain ⟨hlo, hne, hs⟩ := h
    obtain ⟨hin, hout⟩ := ih hs
    have hgt := stop_gt hne
    simp only [front]
    split
    · rename_i heq
      have hstop : c.stop = r + c.data.length := by rw [← heq]; rfl
      rw [length_append, ← Nat.add_assoc, ← hstop]
      simp only [covers_cons]
      refine ⟨fun i h1 h2 => ?_, not_or.2 ⟨by omega, hout⟩⟩
      by_cases hi : i < c.stop
      · exact .inl ⟨by omega, hi⟩
      · exact .inr (hin i (by omega) h2)
    · rename_i hneq
      refine ⟨fun i h1 h2 => absurd h2 (by simp only [length_nil]; omega), ?_⟩
      rintro ⟨d, hd, hi⟩
      have := (sorted_lo (show Sorted r (c :: cs) from ⟨hlo, hne, hs⟩) d hd).1
      rcases mem_cons.1 hd with rfl | hd
      · simp only [length_nil] at hi; omega
      · have := (sorted_lo hs d hd).1
        simp only [length_nil] at hi; omega

theorem Kept.longestRun (h : Kept b tr) : LongestRun tr b.readOffset (front b.readOffset b.chunks).length := by
  obtain ⟨hin, hout⟩ := covers_front h.laid.sorted
  refine ⟨fun i h1 h2 => (h.covers i h1).1 (hin i h1 h2), fun k hk => Nat.le_of_not_lt fun hlt => hout ?_⟩
  exact (h.covers _ (Nat.le_add_right _ _)).2 (hk _ (Nat.le_add_right _ _) (Nat.add_lt_add_left hlt _))

/-- The first chunk is all of the front exactly if it stands alone. -/
theorem available_eq_iff (h : Laid b) : b.availableContiguous ≤ (front b.readOffset b.chunks).length ∧
    (b.availableContiguous = (front b.readOffset b.chunks).length ↔ b.FirstAlone) := by
  have hs := h.sorted
  unfold availableContiguous FirstAlone
  cases hc : b.chunks with
  | nil => exact ⟨Nat.le_refl _, iff_of_true rfl nofun⟩
  | cons c cs =>
    rw [hc] at hs
    simp only [front]
    split
    · rename_i hlt
      rw [if_neg (by omega)]
      refine ⟨Nat.le_refl _, iff_of_true rfl fun c' d cs' heq hoff => ?_⟩
      obtain ⟨rfl, -⟩ := List.cons.inj heq
      omega
    · rename_i hge
      have heq : c.offset = b.readOffset := by have := hs.1; omega
      rw [if_pos heq, length_append]
      refine ⟨Nat.le_add_right _ _, ?_⟩
      cases cs with
      | nil => exact iff_of_true rfl nofun
      | cons d cs =>
        have hpos := length_pos_iff.2 hs.2.2.2.1
        simp only [front]
        constructor
        · intro hlen c' d' cs' hcs _
          cases hcs
          intro hd
          rw [if_pos hd, length_append] at hlen
          omega
        · intro halone
          rw [if_neg (halone c d cs rfl heq)]
          rfl

theorem front_consume {k : Nat} {c : ReassemblyChunk} (hr : c.offset = r)
    (hk : k ≤ c.data.length) : front (r + k) (consume c cs k) = (front r (c :: cs)).drop k := by
  unfold consume
  simp only [front, if_pos hr]
  rw [drop_append_of_le_length hk]
  split
  · rename_i heq
    rw [heq, drop_length, nil_append, ← hr]
    rfl
  · simp only [front, hr, if_true, ReassemblyChunk.stop, length_drop]
    rw [show r + k + (c.data.length - k) = r + c.data.length by omega]

theorem front_gap (h : ∀ c ∈ cs, r < c.offset) : front r cs = [] := by
  cases cs with
  | nil => rfl
  | cons c cs => exact if_neg fun heq => Nat.lt_irrefl _ (heq ▸ h c mem_cons_self)

/-- Reads give the bytes of the front, one chunk after the other. -/
theorem readsInto_eq (h : Laid b) {fuel n : Nat} (hf : n ≤ fuel) :
    readsInto fuel b n = (front b.readOffset b.chunks).take n := by
  induction fuel generalizing b n with
  | zero => simp [readsInto, Nat.le_zero.1 hf]
  | succ fuel ih =>
    rcases Nat.eq_zero_or_pos n with rfl | hn
    · simp [readsInto, read]
    have hlaid := laid_read h n
    rcases read_cases b h hn with ⟨hgap, heq⟩ | ⟨c, cs, k, hc, hoff, hk, hkl, -⟩
    · rw [front_gap hgap, take_nil]
      simp [readsInto, heq]
    · have heq := read_first hc hoff hn
      generalize hm : min n c.data.length = m at heq
      rw [heq] at hlaid
      have hlen : (c.data.take m).length = m := by rw [length_take]; omega
      have hne : c.data.take m ≠ [] := by rw [← length_pos_iff]; omega
      have htake : c.data.take m = (front b.readOffset (c :: cs)).take m := by
        simp only [front, if_pos hoff]
        rw [take_append_of_le_length (by omega)]
      simp only [readsInto, heq]
      rw [if_neg hne, ih hlaid (by omega), hlen, hc, front_consume hoff (by omega), htake, ← take_add,
        show m + (n - m) = n by omega]

theorem peek_eq (h : Laid b) (n : Nat) :
    (b.peek n).1 = ((front b.readOffset b.chunks).take b.availableContiguous).take n := by
  have hs := h.sorted
  unfold peek availableContiguous
  split
  · rename_i hn
    simp [hn]
  cases hc : b.chunks with
  | nil => simp [front]
  | cons c cs =>
    rw [hc] at hs
    simp only [front]
    split
    · simp
    · rw [if_pos (by have := hs.1; omega), take_append_of_le_length (Nat.le_refl _), take_length,
        ← take_eq_take_min]

theorem seesAll_iff (h : Kept b tr) : b.SeesAll tr ↔ b.FirstAlone := by
  have hrun := h.longestRun
  obtain ⟨-, halone⟩ := available_eq_iff h.laid
  constructor
  · rintro ⟨k, hk, heq, -⟩
    exact halone.1 (heq.trans (hk.unique hrun))
  · intro hal
    have heq := halone.2 hal
    refine ⟨_, hrun, heq, fun n => ?_⟩
    have hpeek : (b.peek n).1 = (front b.readOffset b.chunks).take n := by
      rw [peek_eq h.laid, heq, take_length]
    exact ⟨hpeek.trans (readsInto_eq h.laid (Nat.le_refl n)).symm, by rw [hpeek, length_take]⟩

end ReassemblyBuffer

/-! ## The state of the stream -/

namespace ReceiveStream

open ReassemblyBuffer

/-- A call that succeeds, with the frame if it got to the buffer. -/
def succeeds (s : ReceiveStream) : ReceiveCall → Option (ReceiveStream × List Pushed)
  | .frame answer stale offset data fin =>
    let r := s.handleStreamFrame answer stale offset data fin
    if r.2.2.isSome then none
    else some (r.1, if s.Ignores then [] else [⟨offset, data, fin, none⟩])
  | .read n expired ctxDone => some ((s.read n expired ctxDone).1, [])
  | .windowUpdate grow growConn => some ((s.maybeTriggerWindowUpdate grow growConn).1, [])

/-- The stream knows the final size if its buffer does, and is in `Recv` as long as
it does not. -/
structure Following (s : ReceiveStream) (tr : List Pushed) : Prop where
  kept : Kept s.reassembly tr
  known : s.finalSizeKnown = s.reassembly.hasFinalSize
  fits : s.reassembly.hasFinalSize → s.reassembly.finalSize ≤ varintMax
  waiting : ¬ s.Ignores → (s.finalSizeKnown = false ↔ s.state = .recv)

theorem following_new (id : Nat) (fc : StreamFlowController) : Following (newReceiveStream id fc) [] where
  kept := kept_new
  known := rfl
  fits := nofun
  waiting _ := ⟨fun _ => rfl, fun _ => rfl⟩

variable {s : ReceiveStream} {tr : List Pushed}

theorem noteFrame_state (hig : ¬ s.Ignores) (hw : s.finalSizeKnown = false ↔ s.state = .recv) (fin : Bool) :
    s.noteFrame fin = { s with
      finalSizeKnown := s.finalSizeKnown || fin
      state :=
        if s.state = .dataRecvd then .dataRecvd
        else if s.finalSizeKnown || fin then if allContiguous s.reassembly then .dataRecvd else .sizeKnown
        else .recv } := by
  obtain ⟨id, fc, b, state, known, queued, code, cancel, shutdown⟩ := s
  cases state <;> cases known <;> cases fin <;>
    simp_all [Ignores, RecvState.isTerminal, noteFrame]

/-- All bytes can be read, as the stream sees it, if the first chunk stands alone. -/
theorem allContiguous_iff (h : Kept b tr) (hf : b.hasFinalSize) (hfits : b.finalSize ≤ varintMax)
    (hall : ∀ i, i < b.finalSize → Received tr i) : allContiguous b ↔ b.FirstAlone := by
  obtain ⟨hle, halone⟩ := available_eq_iff h.laid
  obtain ⟨hin, hout⟩ := covers_front h.laid.sorted
  have hread := h.laid.read_le
  have hfinal := h.laid.final hf
  have hsub : i64 (u64Sub b.finalSize b.readOffset) = ((b.finalSize - b.readOffset : Nat) : Int) := by
    simp only [varintMax] at hfits
    have hu : u64Sub b.finalSize b.readOffset = b.finalSize - b.readOffset := by unfold u64Sub; omega
    rw [hu, i64, if_pos (by omega)]
  have hfront : (front b.readOffset b.chunks).length = b.finalSize - b.readOffset := by
    refine Nat.le_antisymm (Nat.le_of_not_lt fun hlt => ?_) (Nat.le_of_not_lt fun hlt => hout ?_)
    · -- no chunk reaches behind the final size
      obtain ⟨c, hc, hi⟩ := hin b.finalSize (by omega) (by omega)
      have := h.laid.stops c hc
      omega
    · exact (h.covers _ (Nat.le_add_right _ _)).2 (hall _ (by omega))
  rw [allContiguous, hsub, ← halone, hfront]
  omega

/-- A frame that succeeds leaves a stream following, and in `DataRecvd` if all has
been received and the first chunk stands alone. -/
theorem following_frame (h : Following s tr) (answer : ConnCall → Option TransportError) (stale : Nat → UInt8)
    (offset : Nat) (data : List UInt8) (fin : Bool) (hig : ¬ s.Ignores)
    (hok : (s.handleStreamFrame answer stale offset data fin).2.2 = none) :
    let s' := (s.handleStreamFrame answer stale offset data fin).1
    let tr' := tr ++ [⟨offset, data, fin, none⟩]
    Following s' tr' ∧ (s'.finalSizeKnown → (∀ i, i < s'.reassembly.finalSize → Received tr' i) →
      (s'.state = .dataRecvd ↔ s.state = .dataRecvd ∨ s'.reassembly.FirstAlone)) := by
  rcases handleStreamFrame_spec (s := s) answer stale offset data fin with
    ⟨hdone, -⟩ | ⟨-, fc, calls, ⟨err, heq⟩ | ⟨b, err, -, heq⟩ | ⟨b, hb, heq⟩⟩
  · exact absurd hdone hig
  · rw [heq] at hok; cases hok
  · rw [heq] at hok; cases hok
  obtain ⟨hkept, hmax, cs, hnote⟩ := kept_push h.kept hb
  have hw := h.waiting hig
  have hknown : (s.finalSizeKnown || fin) = b.hasFinalSize := by rw [hnote, h.known]; rfl
  have hfits : b.hasFinalSize → b.finalSize ≤ varintMax := by
    intro hf
    rw [hnote]
    simp only [noteEnd]
    split
    · exact hmax
    · rename_i hno
      refine h.fits (Classical.byContradiction fun hnot => hno ⟨?_, hnot⟩)
      rw [← hknown, h.known] at hf
      simpa [hnot] using hf
  rw [heq, noteFrame_state (s := { s with flowController := fc, reassembly := b }) hig hw fin]
  refine ⟨⟨hkept, hknown, hfits, fun _ => ?_⟩, fun hf hall => ?_⟩
  · simp only
    by_cases hs : s.state = .dataRecvd
    · have hk : s.finalSizeKnown = true := by simpa [hs] using hw
      simp [hs, hk]
    · rw [if_neg hs]
      cases s.finalSizeKnown || fin <;> simp
      split <;> simp
  · simp only at hf hall ⊢
    rw [hf, ← allContiguous_iff hkept (hknown ▸ hf) (hfits (hknown ▸ hf)) hall]
    by_cases hs : s.state = .dataRecvd <;> simp [hs]

theorem following_step {e : ReceiveCall} {s' : ReceiveStream} {o : List Pushed} (h : Following s tr)
    (hstep : s.succeeds e = some (s', o)) : Following s' (tr ++ o) := by
  cases e with
  | frame answer stale offset data fin =>
    simp only [succeeds] at hstep
    split at hstep
    · cases hstep
    rename_i hok
    cases hstep
    split
    · rename_i hig
      rw [append_nil, show (s.handleStreamFrame answer stale offset data fin) = (s, [], none) from if_pos hig]
      exact h
    · rename_i hig
      exact (following_frame h answer stale offset data fin hig (by simpa using hok)).1
  | read n expired ctxDone =>
    cases hstep
    rw [append_nil]
    rcases read_spec h.kept.laid n expired ctxDone with ⟨res, heq, -⟩ | ⟨-, -, k, bytes, -, -, heq, -⟩
    · rw [heq]
      exact h
    · obtain ⟨-, hfinal, hhas⟩ := read_sizes s.reassembly n
      rw [heq]
      refine ⟨kept_read h.kept n, h.known.trans hhas.symm, ?_, fun hig => ?_⟩
      · simp only [consume, hfinal, hhas]
        exact h.fits
      · simp only [consume] at hig ⊢
        split at hig
        · exact absurd (.inl rfl) hig
        rename_i hmore
        rw [if_neg hmore]
        exact h.waiting hig
  | windowUpdate grow growConn =>
    cases hstep
    rw [append_nil]
    exact { h with }

theorem following_run {id : Nat} {fc : StreamFlowController} {es : List ReceiveCall}
    (hr : run succeeds (newReceiveStream id fc) es = some (s, tr)) : Following s tr :=
  run_keeps Following (fun _ _ _ _ _ h hstep => following_step h hstep) (following_new id fc) hr

end ReceiveStream

open ReassemblyBuffer ReceiveStream in
/-- In every buffer that frames and reads have led to, `AvailableContiguous` and
`Peek` see all contiguous bytes exactly if the first chunk stands alone; and a
frame that completes a stream takes it to `DataRecvd` exactly if it was there or
the first chunk of its buffer then stands alone. -/
theorem contiguous_seen_iff (es : List BufferOp) (id : Nat) (fc : StreamFlowController) (es' : List ReceiveCall) :
    (∀ b tr, run taken newReassemblyBuffer es = some (b, tr) → (b.SeesAll tr ↔ b.FirstAlone)) ∧
    (∀ s tr, run succeeds (newReceiveStream id fc) es' = some (s, tr) → ¬ s.Ignores →
      ∀ answer stale offset data fin,
        let r := s.handleStreamFrame answer stale offset data fin
        r.2.2 = none → r.1.finalSizeKnown →
          (∀ i, i < r.1.reassembly.finalSize → Received (tr ++ [⟨offset, data, fin, none⟩]) i) →
          (r.1.state = .dataRecvd ↔ s.state = .dataRecvd ∨ r.1.reassembly.FirstAlone)) :=
  ⟨fun _ _ hr => seesAll_iff (kept_run hr), fun _ _ hr hig answer stale offset data fin hok =>
    (following_frame (following_run hr) answer stale offset data fin hig hok).2⟩

open ReassemblyBuffer in
/-- Two bytes in one chunk. -/
theorem contiguous_seen_two : ∃ b tr, run taken newReassemblyBuffer [.push (fun _ => 0) 0 [1, 2] false] = some (b, tr) ∧
    b.SeesAll tr := by
  have hseen := contiguous_seen_iff [.push (fun _ => 0) 0 [1, 2] false] 0 (newStreamFlowController 0 false 0 0 0) []
  refine ⟨_, _, rfl, (hseen.1 _ _ rfl).2 fun c d cs hc => ?_⟩
  cases hc

open ReassemblyBuffer ReceiveStream in
/-- A first frame fills its pooled buffer, and the last byte of the stream goes to a
chunk of its own: all has been received, and the stream stays in `SizeKnown`. -/
theorem full_chunk_hides_next :
    (run succeeds (newReceiveStream 4 (newStreamFlowController 4 false 9000 9000 9000))
      [.frame (fun _ => none) (fun _ => 0) 0 (List.replicate 2048 7) false,
       .frame (fun _ => none) (fun _ => 0) 2048 [8] true]).map
      (fun r => (r.1.state, r.1.reassembly.availableContiguous, (r.1.reassembly.peek 2049).1.length,
        (r.1.reassembly.readFull 2049).length)) =
    some (.sizeKnown, 2048, 2048, 2049) := by
  decide +kernel

end Mach.Quic.Stream
