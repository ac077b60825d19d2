import Mach.Lib.Run
import Mach.Quic.Stream.ReassemblyOps
/-!
# Frames that the reassembly buffer refuses

A frame is refused because its end cannot be written, because it contradicts the
final size, or because its bytes differ from those in the buffer, in this order.
The last check comes after the final size and the highest offset were taken from
the frame, so that a frame refused by it may leave them behind.
-/

namespace Mach.Quic.Stream

open Lib

namespace ReassemblyBuffer

/-! ## The reasons -/

/-- A frame up to `stop` contradicts the final size, or is the end of the stream
before bytes that were received. -/
def SizeViolated (b : ReassemblyBuffer) (stop : Nat) (fin : Bool) : Prop :=
  (b.hasFinalSize ∧ fin ∧ b.finalSize ≠ stop) ∨ (b.hasFinalSize ∧ b.finalSize < stop) ∨
    (fin ∧ ¬ b.hasFinalSize ∧ stop < b.highestOffset)

/-- Some position is both in the buffer and in the frame, with different bytes. -/
def Differs (b : ReassemblyBuffer) (offset : Nat) (data : List UInt8) : Prop :=
  ∃ c ∈ b.chunks, ∃ i, (c.offset ≤ i ∧ i < c.stop) ∧ (offset ≤ i ∧ i < offset + data.length) ∧
    c.data[i - c.offset]? ≠ data[i - offset]?

theorem acceptable_iff (b : ReassemblyBuffer) (offset len : Nat) (fin : Bool) :
    b.Acceptable offset len fin ↔ offset + len ≤ varintMax ∧ ¬ b.SizeViolated (offset + len) fin := by
  constructor
  · rintro ⟨h1, h2, h3, h4⟩
    refine ⟨h1, ?_⟩
    rintro (⟨a, f, hne⟩ | ⟨a, hlt⟩ | ⟨f, a, hlt⟩)
    · exact hne (h3 a f)
    · exact absurd (h2 a) (by omega)
    · exact absurd (h4 f a) (by omega)
  · rintro ⟨h1, h⟩
    refine ⟨h1, fun a => ?_, fun a f => ?_, fun f a => ?_⟩
    · exact Nat.le_of_not_lt fun hlt => h (.inr (.inl ⟨a, hlt⟩))
    · exact Decidable.of_not_not fun hne => h (.inl ⟨a, f, hne⟩)
    · exact Nat.le_of_not_lt fun hlt => h (.inr (.inr ⟨f, a, hlt⟩))

end ReassemblyBuffer

theorem slice_ne_iff {xs ys : List UInt8} {i j n : Nat} :
    slice xs i n ≠ slice ys j n ↔ ∃ k, k < n ∧ xs[i + k]? ≠ ys[j + k]? := by
  constructor
  · intro h
    refine Classical.byContradiction fun hno => h (List.ext_getElem? fun k => ?_)
    rw [slice_get?, slice_get?]
    split
    · rename_i hk
      exact Classical.byContradiction fun hne => hno ⟨k, hk, hne⟩
    · rfl
  · rintro ⟨k, hk, hne⟩ heq
    have := congrArg (·[k]?) heq
    simp only [slice_get?, hk, if_true] at this
    exact hne this

/-- A chunk is reported exactly if it has a byte that differs. -/
theorem divergent_iff (offset : Nat) (data : List UInt8) (c : ReassemblyChunk) :
    (∃ m, divergent offset data c = some ⟨.protocolViolation, m⟩) ↔
      ∃ i, (c.offset ≤ i ∧ i < c.stop) ∧ (offset ≤ i ∧ i < offset + data.length) ∧
        c.data[i - c.offset]? ≠ data[i - offset]? := by
  unfold divergent
  simp only [slice_ne_iff]
  constructor
  · rintro ⟨m, hm⟩
    split at hm
    · rename_i h
      obtain ⟨hlt, k, hk, hne⟩ := h
      refine ⟨max offset c.offset + k, by omega, by omega, ?_⟩
      rwa [show max offset c.offset + k - c.offset = max offset c.offset - c.offset + k by omega,
        show max offset c.offset + k - offset = max offset c.offset - offset + k by omega]
    · cases hm
  · rintro ⟨i, hc, hf, hne⟩
    refine ⟨_, if_pos ⟨by omega, i - max offset c.offset, by omega, ?_⟩⟩
    rwa [show max offset c.offset - c.offset + (i - max offset c.offset) = i - c.offset by omega,
      show max offset c.offset - offset + (i - max offset c.offset) = i - offset by omega]

theorem divergent_some {offset : Nat} {data : List UInt8} {c : ReassemblyChunk} {err : TransportError}
    (h : divergent offset data c = some err) : ∃ m, err = ⟨.protocolViolation, m⟩ := by
  unfold divergent at h
  simp only at h
  split at h
  · exact ⟨_, (Option.some.inj h).symm⟩
  · cases h

namespace ReassemblyBuffer

variable {b : ReassemblyBuffer}

/-- What has been read is not in the buffer, so that it does not matter whether the
frame is compared before or after it is trimmed. -/
theorem differs_iff (h : Laid b) (offset : Nat) (data : List UInt8) :
    b.Differs offset data ↔
      ∃ c ∈ b.chunks, ∃ m, divergent (max offset b.readOffset) (b.fresh offset data) c = some ⟨.protocolViolation, m⟩ := by
  refine exists_congr fun c => and_congr_right fun hc => ?_
  rw [divergent_iff]
  have hlo := (sorted_lo h.sorted c hc).1
  refine exists_congr fun i => and_congr_right fun hi => ?_
  have hpos : (offset ≤ i ∧ i < offset + data.length) ↔
      (max offset b.readOffset ≤ i ∧ i < max offset b.readOffset + (b.fresh offset data).length) := by
    simp only [fresh, List.length_drop]
    omega
  rw [hpos]
  refine and_congr_right fun hf => ?_
  rw [fresh, List.getElem?_drop, show b.readOffset - offset + (i - max offset b.readOffset) = i - offset by omega]

/-! ## What `push` answers -/

theorem push_outcome (h : Laid b) (stale : Nat → UInt8) (offset : Nat) (data : List UInt8) (fin : Bool) :
    (varintMax < offset + data.length ∧ ∃ m, b.push stale offset data fin = (b, some ⟨.frameEncodingError, m⟩)) ∨
    (offset + data.length ≤ varintMax ∧ b.SizeViolated (offset + data.length) fin ∧
      ∃ m, b.push stale offset data fin = (b, some ⟨.finalSizeError, m⟩)) ∨
    (offset + data.length ≤ varintMax ∧ ¬ b.SizeViolated (offset + data.length) fin ∧ b.Differs offset data ∧
      ∃ m, b.push stale offset data fin = (b.noteEnd (offset + data.length) fin, some ⟨.protocolViolation, m⟩)) ∨
    (offset + data.length ≤ varintMax ∧ ¬ b.SizeViolated (offset + data.length) fin ∧ ¬ b.Differs offset data ∧
      ∃ cs, b.push stale offset data fin = ({ b.noteEnd (offset + data.length) fin with chunks := cs }, none)) := by
  rcases push_cases b stale offset data fin h with
    ⟨hno, ⟨code, m⟩, heq, hcode⟩ | ⟨hacc, c, hc, err, hdiv, heq⟩ | ⟨hacc, cs, heq, hsame, -⟩
  · simp only at hcode
    rw [acceptable_iff] at hno
    by_cases hle : offset + data.length ≤ varintMax
    · rw [if_pos hle] at hcode
      subst hcode
      exact .inr (.inl ⟨hle, Classical.byContradiction fun hv => hno ⟨hle, hv⟩, m, heq⟩)
    · rw [if_neg hle] at hcode
      subst hcode
      exact .inl ⟨by omega, m, heq⟩
  · obtain ⟨hle, hsize⟩ := (acceptable_iff b offset data.length fin).1 hacc
    obtain ⟨m, rfl⟩ := divergent_some hdiv
    exact .inr (.inr (.inl ⟨hle, hsize, (differs_iff h offset data).2 ⟨c, hc, m, hdiv⟩, m, heq⟩))
  · obtain ⟨hle, hsize⟩ := (acceptable_iff b offset data.length fin).1 hacc
    refine .inr (.inr (.inr ⟨hle, hsize, ?_, cs, heq⟩))
    rw [differs_iff h]
    rintro ⟨c, hc, m, hd⟩
    rw [hsame c hc] at hd
    cases hd

theorem noteEnd_eq_self {stop : Nat} {fin : Bool} :
    b.noteEnd stop fin = b ↔ (fin → b.hasFinalSize) ∧ stop ≤ b.highestOffset := by
  obtain ⟨r, highest, size, known, cs⟩ := b
  constructor
  · intro h
    simp only [noteEnd, ReassemblyBuffer.mk.injEq] at h
    obtain ⟨-, hhigh, -, hknown, -⟩ := h
    refine ⟨fun hfin => ?_, by simp only; omega⟩
    cases known
    · simp [hfin] at hknown
    · rfl
  · rintro ⟨hfin, hle⟩
    simp only [noteEnd, ReassemblyBuffer.mk.injEq, true_and, and_true]
    refine ⟨by simp only at hle; omega, if_neg fun h => h.2 (hfin h.1), ?_⟩
    cases known
    · simpa using hfin
    · rfl

end ReassemblyBuffer

/-! ## Every reachable buffer -/

/-- A call on the buffer, with any arguments. `setFinalSize` is made after the
checks of `HandleResetStreamFrame`. -/
inductive BufferOp where
  | push (stale : Nat → UInt8) (offset : Nat) (data : List UInt8) (fin : Bool)
  | read (n : Nat)
  | setFinalSize (size : Nat)

/-- A frame that was pushed, and what `push` returned. -/
structure Pushed where
  offset : Nat
  data : List UInt8
  fin : Bool
  err : Option TransportError

def ReassemblyBuffer.op (b : ReassemblyBuffer) : BufferOp → Option (ReassemblyBuffer × List Pushed)
  | .push stale offset data fin =>
    let r := b.push stale offset data fin
    some (r.1, [⟨offset, data, fin, r.2⟩])
  | .read n => some ((b.read n).1, [])
  | .setFinalSize size =>
    if b.highestOffset ≤ size ∧ (b.hasFinalSize → size = b.finalSize) then some (b.setFinalSize size, []) else none

namespace ReassemblyBuffer

variable {b : ReassemblyBuffer}

theorem laid_op {b' : ReassemblyBuffer} {e : BufferOp} {o : List Pushed} (h : Laid b) (hop : b.op e = some (b', o)) :
    Laid b' := by
  cases e with
  | push stale offset data fin =>
    cases hop
    exact laid_push h stale offset data fin
  | read n =>
    cases hop
    exact laid_read h n
  | setFinalSize size =>
    simp only [op] at hop
    split at hop
    · rename_i hs
      cases hop
      exact laid_setFinalSize h hs.1
    · cases hop

theorem laid_run {es : List BufferOp} {tr : List Pushed}
    (hr : run op newReassemblyBuffer es = some (b, tr)) : Laid b :=
  run_keeps (fun b _ => Laid b) (fun _ _ _ _ _ h hop => laid_op h hop) laid_new hr

/-- A refused frame leaves the buffer as it was, the two kinds of errors are given
for their reasons, and the final size stays what it is and above everything. -/
structure Refuses (b : ReassemblyBuffer) (stale : Nat → UInt8) (offset : Nat) (data : List UInt8) (fin : Bool) :
    Prop where
  unchanged : (b.push stale offset data fin).2.isSome → (b.push stale offset data fin).1 = b
  finalSize : (∃ m, (b.push stale offset data fin).2 = some ⟨.finalSizeError, m⟩) ↔
    b.SizeViolated (offset + data.length) fin
  protocol : (∃ m, (b.push stale offset data fin).2 = some ⟨.protocolViolation, m⟩) ↔ b.Differs offset data
  kept : b.hasFinalSize → (b.push stale offset data fin).1.hasFinalSize ∧
    (b.push stale offset data fin).1.finalSize = b.finalSize
  bounded : (b.push stale offset data fin).1.hasFinalSize →
    (b.push stale offset data fin).1.highestOffset ≤ (b.push stale offset data fin).1.finalSize

/-- The frame is refused for no more than one reason, and differing bytes come
neither with a new final size nor behind everything received. -/
def Plain (b : ReassemblyBuffer) (offset : Nat) (data : List UInt8) (fin : Bool) : Prop :=
  (b.SizeViolated (offset + data.length) fin → offset + data.length ≤ varintMax) ∧
  (b.Differs offset data → offset + data.length ≤ varintMax ∧ ¬ b.SizeViolated (offset + data.length) fin ∧
    (fin → b.hasFinalSize) ∧ offset + data.length ≤ b.highestOffset)

theorem noteEnd_kept (b : ReassemblyBuffer) (stop : Nat) (fin : Bool) (h : b.hasFinalSize) :
    (b.noteEnd stop fin).hasFinalSize ∧ (b.noteEnd stop fin).finalSize = b.finalSize := by
  simp [noteEnd, h]

theorem push_kept (h : Laid b) (stale : Nat → UInt8) (offset : Nat) (data : List UInt8)
    (fin : Bool) (hf : b.hasFinalSize) :
    (b.push stale offset data fin).1.hasFinalSize ∧ (b.push stale offset data fin).1.finalSize = b.finalSize := by
  rcases push_outcome h stale offset data fin with ⟨-, m, heq⟩ | ⟨-, -, m, heq⟩ | ⟨-, -, -, m, heq⟩ | ⟨-, -, -, cs, heq⟩
  · rw [heq]; exact ⟨hf, rfl⟩
  · rw [heq]; exact ⟨hf, rfl⟩
  · rw [heq]; exact noteEnd_kept b _ fin hf
  · rw [heq]; exact noteEnd_kept b _ fin hf

theorem refuses_iff (h : Laid b) (stale : Nat → UInt8) (offset : Nat) (data : List UInt8)
    (fin : Bool) : b.Refuses stale offset data fin ↔ b.Plain offset data fin := by
  have hkept := push_kept h stale offset data fin
  have hbound := (laid_push h stale offset data fin).final
  constructor
  · rintro ⟨hun, hsize, hprot, -, -⟩
    rcases push_outcome h stale offset data fin with
      ⟨hgt, m, heq⟩ | ⟨hle, hv, m, heq⟩ | ⟨hle, hv, hd, m, heq⟩ | ⟨hle, hv, hd, cs, heq⟩
    all_goals rw [heq] at hun hsize hprot
    · refine ⟨fun hv => ?_, fun hd => ?_⟩
      · obtain ⟨m', hm⟩ := hsize.2 hv
        cases hm
      · obtain ⟨m', hm⟩ := hprot.2 hd
        cases hm
    · refine ⟨fun _ => hle, fun hd => ?_⟩
      obtain ⟨m', hm⟩ := hprot.2 hd
      cases hm
    · exact ⟨fun _ => hle, fun _ => ⟨hle, hv, noteEnd_eq_self.1 (hun rfl)⟩⟩
    · exact ⟨fun _ => hle, fun hd' => absurd hd' hd⟩
  · rintro ⟨hsize, hdiff⟩
    refine ⟨?_, ?_, ?_, hkept, hbound⟩
    all_goals
      rcases push_outcome h stale offset data fin with
        ⟨hgt, m, heq⟩ | ⟨hle, hv, m, heq⟩ | ⟨hle, hv, hd, m, heq⟩ | ⟨hle, hv, hd, cs, heq⟩
      all_goals rw [heq]
    -- the buffer
    · exact fun _ => rfl
    · exact fun _ => rfl
    · exact fun _ => noteEnd_eq_self.2 (hdiff hd).2.2
    · exact nofun
    -- the final size
    · refine ⟨nofun, fun hv => ?_⟩
      have := hsize hv
      omega
    · exact ⟨fun _ => hv, fun _ => ⟨m, rfl⟩⟩
    · exact ⟨nofun, fun hv' => absurd hv' hv⟩
    · exact ⟨nofun, fun hv' => absurd hv' hv⟩
    -- the bytes
    · refine ⟨nofun, fun hd => ?_⟩
      have := (hdiff hd).1
      omega
    · exact ⟨nofun, fun hd => absurd hv (hdiff hd).2.1⟩
    · exact ⟨fun _ => hd, fun _ => ⟨m, rfl⟩⟩
    · exact ⟨nofun, fun hd' => absurd hd' hd⟩

/-- In every buffer that calls of any kind have led to, a frame is refused without
a trace, and for the reason there is, exactly if it is plain. -/
theorem push_refuses_iff {es : List BufferOp} {b : ReassemblyBuffer} {tr : List Pushed}
    (hr : run op newReassemblyBuffer es = some (b, tr)) (stale : Nat → UInt8) (offset : Nat) (data : List UInt8)
    (fin : Bool) : b.Refuses stale offset data fin ↔ b.Plain offset data fin :=
  refuses_iff (laid_run hr) stale offset data fin

/-- Bytes that are in the buffer already, with one of them changed. -/
theorem push_refuses_two : ∃ b tr, run op newReassemblyBuffer [.push (fun _ => 0) 0 [1, 2] true] = some (b, tr) ∧
    b.Differs 1 [9] ∧ b.Refuses (fun _ => 0) 1 [9] false := by
  refine ⟨_, _, rfl, ⟨⟨0, [1, 2], _, _⟩, List.mem_singleton.2 rfl, 1, by decide⟩, ?_⟩
  apply (@push_refuses_iff [.push (fun _ => 0) 0 [1, 2] true] _ _ rfl (fun _ => 0) 1 [9] false).2
  refine ⟨?_, fun _ => ⟨by decide, ?_, nofun, by decide⟩⟩ <;> rintro (⟨-, hf, -⟩ | ⟨-, hlt⟩ | ⟨hf, -⟩)
  · cases hf
  · exact absurd hlt (by decide)
  · cases hf
  · cases hf
  · exact absurd hlt (by decide)
  · cases hf

/-- Two bytes are in the buffer, and a final frame that changes the second and adds
a third is refused: the final size and the highest offset are those of that frame. -/
theorem refused_push_leaves_size :
    (run op newReassemblyBuffer [.push (fun _ => 0) 0 [1, 2] false, .push (fun _ => 0) 1 [9, 9] true]).map
      (fun r => (r.1.highestOffset, r.1.hasFinalSize, r.1.finalSize,
        r.2.map fun p => p.err.map TransportError.errorCode)) =
      some (3, true, 3, [none, some .protocolViolation]) := by
  decide +kernel

/-! ## What any frames leave in the buffer -/

theorem sum_le_endOf {lo : Nat} {cs : List ReassemblyChunk} (h : Sorted lo cs) :
    lo + (cs.map (·.data.length)).sum ≤ endOf lo cs := by
  induction cs generalizing lo with
  | nil => exact Nat.le_refl lo
  | cons c cs ih =>
    have hlo := h.1
    have hrest := ih h.2.2
    simp only [List.map_cons, List.sum_cons, endOf, ReassemblyChunk.stop] at hrest ⊢
    omega

end ReassemblyBuffer

end Mach.Quic.Stream
