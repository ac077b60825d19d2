import Mach.Quic.Stream.PushErrors
import Mach.Quic.Stream.ReceiveSteps
/-!
# The end of a stream completes its receiving half

The connection forgets a stream when its halves have called `OnStreamCompleted`.
The receiving half does so in the `Read` that takes the last bytes. If the final
size only arrives when all bytes have been read, no such `Read` is left: the next
one answers `io.EOF` from its first check, and the half never completes.
-/

namespace Mach.Quic.Stream

open Lib ReassemblyBuffer

/-! ## One call -/

/-- Only a final frame that ends where the reader is makes `isAllDataRead` true. -/
theorem ReassemblyBuffer.push_allRead {b : ReassemblyBuffer} (h : Laid b) (stale : Nat → UInt8) (offset : Nat)
    (data : List UInt8) (fin : Bool) :
    (b.push stale offset data fin).1.isAllDataRead ↔ b.isAllDataRead ∨
      ((b.push stale offset data fin).2 = none ∧ fin ∧ ¬ b.hasFinalSize ∧ offset + data.length = b.readOffset) := by
  have hlaid := laid_push h stale offset data fin
  have hnote : ∀ cs, Laid { b.noteEnd (offset + data.length) fin with chunks := cs } →
      ((b.noteEnd (offset + data.length) fin).isAllDataRead ↔
        b.isAllDataRead ∨ (fin ∧ ¬ b.hasFinalSize ∧ offset + data.length = b.readOffset)) := by
    intro cs hl
    have hread : b.readOffset ≤ max b.highestOffset (offset + data.length) := hl.read_le
    have hfinal := hl.final
    cases hf : b.hasFinalSize <;> cases fin <;> simp [isAllDataRead, noteEnd, hf] at hfinal ⊢
    omega
  rcases push_outcome h stale offset data fin with
    ⟨-, m, heq⟩ | ⟨-, -, m, heq⟩ | ⟨-, -, ⟨c, hc, i, hci, hfi, -⟩, m, heq⟩ | ⟨-, -, -, cs, heq⟩
  · simp [heq]
  · simp [heq]
  · -- the differing byte lies behind the reader
    have hlo := (sorted_lo h.sorted c hc).1
    rw [heq] at hlaid ⊢
    simp only [hnote _ hlaid, reduceCtorEq, false_and, or_false]
    exact or_iff_left fun hend => by omega
  · rw [heq] at hlaid ⊢
    simp only [true_and]
    exact hnote cs hlaid

namespace ReceiveStream

/-- The calls of `OnStreamCompleted` that a round of `Read` makes. -/
def completed (s : ReceiveStream) (n : Nat) (expired ctxDone : Bool) : List Nat :=
  if s.readCompletes n expired ctxDone then [s.streamID] else []

/-- One call: the stream after it, and the calls of `OnStreamCompleted`. -/
def receive (s : ReceiveStream) : ReceiveCall → Option (ReceiveStream × List Nat)
  | .frame answer stale offset data fin => some ((s.handleStreamFrame answer stale offset data fin).1, [])
  | .read n expired ctxDone => some ((s.read n expired ctxDone).1, s.completed n expired ctxDone)
  | .windowUpdate grow growConn => some ((s.maybeTriggerWindowUpdate grow growConn).1, [])

/-- The call is a frame that says the stream ends where the reader already is. -/
def EndsRead (s : ReceiveStream) : ReceiveCall → Prop
  | .frame answer stale offset data fin =>
    (s.handleStreamFrame answer stale offset data fin).2.2 = none ∧ fin ∧ ¬ s.reassembly.hasFinalSize ∧
      offset + data.length = s.reassembly.readOffset
  | _ => False

/-- After `io.EOF` the stream is in `DataRead`, and has completed once. -/
def CompletesOnce (s : ReceiveStream) (tr : List Nat) : Prop :=
  ∀ n expired ctxDone, (s.read n expired ctxDone).2.2.isEOF →
    (s.read n expired ctxDone).1.state = .dataRead ∧ tr ++ s.completed n expired ctxDone = [s.streamID]

theorem read_atEnd {s : ReceiveStream} {n : Nat} (hr : s.Readable n) (hall : s.reassembly.isAllDataRead)
    (expired ctxDone : Bool) : s.read n expired ctxDone = (s, [], .eof) := by
  simp [read, hr.room, hr.cancel, hr.shutdown, hall]

/-! ## Whole runs -/

/-- The stream has completed if all has been read, and not otherwise. -/
structure Completing (s : ReceiveStream) (tr : List Nat) : Prop where
  laid : s.reassembly.Laid
  cancel : s.cancelErr = none
  shutdown : s.shutdownErr = none
  live : s.state ≠ .resetRecvd ∧ s.state ≠ .resetRead
  atEnd : s.state = .dataRead ↔ s.reassembly.isAllDataRead
  once : tr = if s.state = .dataRead then [s.streamID] else []

variable {s : ReceiveStream} {tr : List Nat}

theorem completing_new (id : Nat) (fc : StreamFlowController) : Completing (newReceiveStream id fc) [] where
  laid := laid_new
  cancel := rfl
  shutdown := rfl
  live := ⟨nofun, nofun⟩
  atEnd := ⟨nofun, nofun⟩
  once := rfl

theorem Completing.ignores_iff (h : Completing s tr) : s.Ignores ↔ s.state = .dataRead := by
  have hlive := h.live
  cases hs : s.state <;> simp_all [Ignores, RecvState.isTerminal]

/-- A frame keeps the bookkeeping exactly if it does not end the stream at the reader. -/
theorem Completing.frame (h : Completing s tr) (answer : ConnCall → Option TransportError) (stale : Nat → UInt8)
    (offset : Nat) (data : List UInt8) (fin : Bool) :
    let s' := (s.handleStreamFrame answer stale offset data fin).1
    (¬ s.EndsRead (.frame answer stale offset data fin) → Completing s' tr) ∧
      (s.EndsRead (.frame answer stale offset data fin) →
        s'.Readable 1 ∧ s'.reassembly.isAllDataRead ∧ s'.state ≠ .dataRead) := by
  have hpush := laid_push h.laid stale offset data fin
  have hread := push_allRead h.laid stale offset data fin
  have hig := h.ignores_iff
  simp only [EndsRead]
  rcases handleStreamFrame_spec (s := s) answer stale offset data fin with
    ⟨hdone, heq⟩ | ⟨hdone, fc, calls, ⟨err, heq⟩ | ⟨b, err, hb, heq⟩ | ⟨b, hb, heq⟩⟩
  all_goals rw [heq]
  · refine ⟨fun _ => h, fun hend => absurd ?_ hend.2.2.1⟩
    have hall := h.atEnd.1 (hig.1 hdone)
    simp only [isAllDataRead, Bool.and_eq_true] at hall
    exact hall.1
  · exact ⟨fun _ => { h with }, fun hend => nomatch hend.1⟩
  · rw [hb] at hpush hread
    simp only [reduceCtorEq, false_and, or_false] at hread
    exact ⟨fun _ => { h with laid := hpush, atEnd := h.atEnd.trans hread.symm },
      fun hend => nomatch hend.1⟩
  · rw [hb] at hpush hread
    simp only [true_and] at hread
    have hnot : s.state ≠ .dataRead := fun hs => hdone (hig.2 hs)
    obtain ⟨st, known, hnote, hcases⟩ := noteFrame_moves { s with flowController := fc, reassembly := b } fin
    have hst : st ≠ .dataRead ∧ st ≠ .resetRecvd ∧ st ≠ .resetRead := by
      rcases hcases with ⟨rfl, -⟩ | ⟨-, -, rfl | rfl⟩ | ⟨-, -, rfl⟩
      · exact ⟨hnot, h.live⟩
      all_goals exact ⟨nofun, nofun, nofun⟩
    rw [hnote]
    refine ⟨fun hend => ⟨hpush, h.cancel, h.shutdown, hst.2, ?_, ?_⟩,
      fun hend => ⟨⟨nofun, h.cancel, h.shutdown⟩, ?_, hst.1⟩⟩
    · refine iff_of_false hst.1 fun hall => ?_
      rcases hread.1 hall with hall | hnow
      · exact hnot (h.atEnd.2 hall)
      · exact hend ⟨rfl, hnow⟩
    · simpa [hst.1, hnot] using h.once
    · exact hread.2 (.inr hend.2)

theorem Completing.read (h : Completing s tr) (n : Nat) (expired ctxDone : Bool) :
    Completing (s.read n expired ctxDone).1 (tr ++ s.completed n expired ctxDone) ∧
      ((s.read n expired ctxDone).2.2.isEOF → (s.read n expired ctxDone).1.state = .dataRead) := by
  rcases read_spec h.laid n expired ctxDone with ⟨res, heq, heof, -, hc⟩ | ⟨hr, hend, k, bytes, -, -, heq, hc⟩
  · simp only [heq, completed, hc, Bool.false_eq_true, if_false, List.append_nil]
    exact ⟨h, fun he => (heof.1 he).2.elim id h.atEnd.2⟩
  · have hnot : s.state ≠ .dataRead := fun hs => hend (.inl hs)
    have hnone : tr = [] := by simpa [hnot] using h.once
    have hlaid := laid_read h.laid n
    simp only [heq, completed, hc, hnone, ReadResult.isEOF, consume]
    cases hall : (s.reassembly.read n).1.isAllDataRead with
    | false => exact ⟨{ h with laid := hlaid, atEnd := by simp [hnot, hall], once := by simp [hnot] }, by simp⟩
    | true => exact ⟨⟨hlaid, h.cancel, h.shutdown, by simp, by simp [hall], by simp⟩, fun _ => rfl⟩

theorem Completing.completesOnce (h : Completing s tr) : s.CompletesOnce tr := by
  intro n expired ctxDone heof
  obtain ⟨h', hstate⟩ := h.read n expired ctxDone
  refine ⟨hstate heof, ?_⟩
  have hid : (s.read n expired ctxDone).1.streamID = s.streamID := by
    rcases read_spec h.laid n expired ctxDone with ⟨res, heq, -⟩ | ⟨-, -, k, bytes, -, -, heq, -⟩ <;> rw [heq]
    rfl
  rw [h'.once, if_pos (hstate heof), hid]

/-- In every run of frames and reads, `io.EOF` comes with the one completion of the
stream exactly if no frame ends the stream where the reader already is. -/
theorem eof_completes_iff (id : Nat) (fc : StreamFlowController) (es : List ReceiveCall) :
    Always receive CompletesOnce (newReceiveStream id fc) es ↔
      Along receive (fun s e => ¬ s.EndsRead e) (newReceiveStream id fc) es := by
  refine always_iff_along Completing ?_ (fun _ _ h => h.completesOnce) ?_ (completing_new id fc)
  · intro s tr e s' o h hend hstep
    cases e with
    | frame answer stale offset data fin =>
      cases hstep
      rw [List.append_nil]
      exact (h.frame answer stale offset data fin).1 hend
    | read n expired ctxDone =>
      cases hstep
      exact (h.read n expired ctxDone).1
    | windowUpdate grow growConn =>
      cases hstep
      rw [List.append_nil]
      exact { h with }
  · intro s tr e s' o h hstep honce hend
    cases e with
    | frame answer stale offset data fin =>
      cases hstep
      -- the next `Read` finds that all has been read, in another state
      obtain ⟨hr, hall, hnot⟩ := (h.frame answer stale offset data fin).2 hend
      have hnow := honce 1 false false
      rw [read_atEnd hr hall false false] at hnow
      exact hnot (hnow rfl).1
    | read n expired ctxDone => exact hend
    | windowUpdate grow growConn => exact hend

/-- A byte arrives and is read, and the end of the stream arrives alone: the next
`Read` gives `io.EOF` in `DataRecvd`, and nothing has completed the stream. -/
theorem eof_without_completion :
    (run receive (newReceiveStream 4 (newStreamFlowController 4 false 9 9 9))
      [.frame (fun _ => none) (fun _ => 0) 0 [7] false, .read 1 false false,
       .frame (fun _ => none) (fun _ => 0) 1 [] true]).map
      (fun r =>
        ((r.1.read 1 false false).2.2, (r.1.read 1 false false).1.state, r.2 ++ r.1.completed 1 false false)) =
    some (.eof, .dataRecvd, []) := by
  decide +kernel

end ReceiveStream

end Mach.Quic.Stream
