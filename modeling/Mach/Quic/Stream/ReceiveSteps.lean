import Mach.Quic.Stream.ReassemblyOps
import Mach.Quic.Stream.ReceiveStream
/-!
# What a call on the receiving half can do

One lemma for each method that changes the state of the stream. The proofs about
runs look at these and not at the methods.
-/

namespace Mach.Quic.Stream

open Lib ReassemblyBuffer

namespace ReceiveStream

variable {s : ReceiveStream}

/-! ## Frames -/

/-- Frames are ignored: the stream is done with or has been reset. -/
def Ignores (s : ReceiveStream) : Prop := s.state.isTerminal ∨ s.state = .resetRecvd

instance (s : ReceiveStream) : Decidable s.Ignores := inferInstanceAs (Decidable (_ ∨ _))

/-- The flow control check changes nothing but the controller. -/
theorem updateHighestReceived_frame (answer : ConnCall → Option TransportError) (offset : Nat) :
    ∃ fc calls err, s.updateHighestReceived answer offset = ({ s with flowController := fc }, calls, err) := by
  unfold updateHighestReceived
  split <;> exact ⟨_, _, _, rfl⟩

/-- A STREAM frame is ignored, refused by flow control, refused by the buffer, or
taken. -/
theorem handleStreamFrame_spec (answer : ConnCall → Option TransportError) (stale : Nat → UInt8) (offset : Nat)
    (data : List UInt8) (fin : Bool) :
    (s.Ignores ∧ s.handleStreamFrame answer stale offset data fin = (s, [], none)) ∨
    (¬ s.Ignores ∧ ∃ fc calls,
      (∃ err, s.handleStreamFrame answer stale offset data fin = ({ s with flowController := fc }, calls, some err)) ∨
      (∃ b err, s.reassembly.push stale offset data fin = (b, some err) ∧
        s.handleStreamFrame answer stale offset data fin =
          ({ s with flowController := fc, reassembly := b }, calls, some err)) ∨
      (∃ b, s.reassembly.push stale offset data fin = (b, none) ∧
        s.handleStreamFrame answer stale offset data fin =
          (noteFrame { s with flowController := fc, reassembly := b } fin, calls, none))) := by
  by_cases hig : s.Ignores
  · exact .inl ⟨hig, if_pos hig⟩
  · obtain ⟨fc, calls, err, hup⟩ := updateHighestReceived_frame (s := s) answer (u64 (offset + data.length))
    refine .inr ⟨hig, fc, calls, ?_⟩
    unfold handleStreamFrame
    rw [if_neg (show ¬ (s.state.isTerminal ∨ s.state = .resetRecvd) from hig), hup]
    cases err with
    | some err => exact .inl ⟨err, rfl⟩
    | none =>
      dsimp only
      cases hp : s.reassembly.push stale offset data fin with
      | mk b perr =>
        cases perr with
        | some err => exact .inr (.inl ⟨b, err, rfl, rfl⟩)
        | none => exact .inr (.inr ⟨b, rfl, rfl⟩)

/-- A frame that is taken leaves the stream where it was, or moves it on to
`SizeKnown` or `DataRecvd`. -/
theorem noteFrame_moves (s : ReceiveStream) (fin : Bool) :
    ∃ st known, s.noteFrame fin = { s with state := st, finalSizeKnown := known } ∧
      ((st = s.state ∧ known = s.finalSizeKnown) ∨
        (s.finalSizeKnown = false ∧ known = true ∧ (st = .sizeKnown ∨ st = .dataRecvd)) ∨
        (s.state = .sizeKnown ∧ known = s.finalSizeKnown ∧ st = .dataRecvd)) := by
  unfold noteFrame
  split
  · rename_i h
    refine ⟨_, _, rfl, .inr (.inl ⟨by simpa using h.2, rfl, ?_⟩)⟩
    split
    · exact .inr rfl
    · exact .inl rfl
  · split
    · rename_i h
      split
      · exact ⟨_, _, rfl, .inr (.inr ⟨h, rfl, rfl⟩)⟩
      · exact ⟨_, _, rfl, .inl ⟨rfl, rfl⟩⟩
    · exact ⟨s.state, s.finalSizeKnown, rfl, .inl ⟨rfl, rfl⟩⟩

/-- A RESET_STREAM frame is ignored, refused, or resets the stream. -/
theorem handleResetStreamFrame_spec (answer : ConnCall → Option TransportError) (code finalSize : Nat) :
    (s.Ignores ∧ s.handleResetStreamFrame answer code finalSize = (s, [], none)) ∨
    (¬ s.Ignores ∧ ∃ fc calls,
      (∃ err, s.handleResetStreamFrame answer code finalSize = ({ s with flowController := fc }, calls, some err)) ∨
      s.reassembly.highestOffset ≤ finalSize ∧
        s.handleResetStreamFrame answer code finalSize =
          ({ s with
              flowController := fc
              finalSizeKnown := true
              reassembly := s.reassembly.setFinalSize finalSize
              state := .resetRecvd
              cancelErr := some ⟨s.streamID, code, true⟩ }, calls, none)) := by
  by_cases hig : s.Ignores
  · exact .inl ⟨hig, if_pos hig⟩
  refine .inr ⟨hig, ?_⟩
  obtain ⟨fc, calls, err, hup⟩ := updateHighestReceived_frame (s := s) answer finalSize
  unfold handleResetStreamFrame
  rw [if_neg (show ¬ (s.state.isTerminal ∨ s.state = .resetRecvd) from hig)]
  split
  · exact ⟨s.flowController, [], .inl ⟨_, rfl⟩⟩
  split
  · exact ⟨s.flowController, [], .inl ⟨_, rfl⟩⟩
  · rename_i hge
    rw [hup]
    cases err with
    | some err => exact ⟨fc, calls, .inl ⟨err, rfl⟩⟩
    | none => exact ⟨_, _, .inr ⟨Nat.le_of_not_lt hge, rfl⟩⟩

end ReceiveStream

/-! ## Reads -/

/-- The reader is given `io.EOF`, alone or with the last bytes. -/
def ReadResult.isEOF : ReadResult → Bool
  | .eof => true
  | .data _ last => last
  | _ => false

namespace ReceiveStream

variable {s : ReceiveStream}

/-- A round of `Read` into `n` bytes is not stopped by an error of the stream. -/
structure Readable (s : ReceiveStream) (n : Nat) : Prop where
  room : n ≠ 0
  cancel : s.cancelErr = none
  shutdown : s.shutdownErr = none

/-- All has been read, as the first check of a round sees it. -/
def AtEnd (s : ReceiveStream) : Prop := s.state = .dataRead ∨ s.reassembly.isAllDataRead

/-- The stream after a round that handed out `k` bytes. -/
def consume (s : ReceiveStream) (n k : Nat) : ReceiveStream :=
  { s with
    reassembly := (s.reassembly.read n).1
    flowController := (s.flowController.addBytesRead k).1
    state := if (s.reassembly.read n).1.isAllDataRead then .dataRead else s.state }

/-- A round of `Read` leaves the stream alone, and then gives `io.EOF` if all has
been read; or it hands out bytes, and then completes the stream if they were the
last. -/
theorem read_spec (h : s.reassembly.Laid) (n : Nat) (expired ctxDone : Bool) :
    (∃ res, s.read n expired ctxDone = (s, [], res) ∧ (res.isEOF = true ↔ s.Readable n ∧ s.AtEnd) ∧
      (∀ bytes, res ≠ .data bytes true) ∧ s.readCompletes n expired ctxDone = false) ∨
    (s.Readable n ∧ ¬ s.AtEnd ∧ ∃ k bytes, (s.reassembly.read n).1.readOffset = s.reassembly.readOffset + k ∧ 0 < k ∧
      s.read n expired ctxDone =
        (s.consume n k, (s.flowController.addBytesRead k).2, .data bytes (s.reassembly.read n).1.isAllDataRead) ∧
      s.readCompletes n expired ctxDone = (s.reassembly.read n).1.isAllDataRead) := by
  unfold read readCompletes
  split
  · exact .inl ⟨_, rfl, ⟨nofun, fun hr => absurd ‹n = 0› hr.1.room⟩, nofun, rfl⟩
  rename_i hn
  cases hcancel : s.cancelErr with
  | some err => exact .inl ⟨_, rfl, ⟨nofun, fun hr => by cases hcancel.symm.trans hr.1.cancel⟩, nofun, rfl⟩
  | none =>
    cases hshut : s.shutdownErr with
    | some err => exact .inl ⟨_, rfl, ⟨nofun, fun hr => by cases hshut.symm.trans hr.1.shutdown⟩, nofun, rfl⟩
    | none =>
      have hreadable : s.Readable n := ⟨hn, hcancel, hshut⟩
      dsimp only
      split
      · exact .inl ⟨_, rfl, ⟨fun _ => ⟨hreadable, ‹_›⟩, fun _ => rfl⟩, nofun, rfl⟩
      rename_i hend
      split
      · exact .inl ⟨_, rfl, ⟨nofun, fun hr => absurd hr.2 hend⟩, nofun, rfl⟩
      split
      · exact .inl ⟨_, rfl, ⟨nofun, fun hr => absurd hr.2 hend⟩, nofun, rfl⟩
      rcases read_cases s.reassembly h (Nat.pos_of_ne_zero hn) with ⟨-, heq⟩ | ⟨c, cs, k, hc, hoff, hk, hkl, heq⟩
      · -- nothing to read, and not at the end either
        have hnot : ¬ s.reassembly.isAllDataRead := fun hall => hend (.inr hall)
        refine .inl ⟨.waits, ?_, ⟨nofun, fun hr => absurd hr.2 hend⟩, nofun, by simp [heq, hnot]⟩
        simp only [heq, List.length_nil, Nat.lt_irrefl, if_false, if_neg hnot]
        rw [← hcancel, ← hshut]
      · have hlen : (s.reassembly.read n).2.1.length = k := by simp [heq, hkl]
        have heof : (s.reassembly.read n).2.2 = (s.reassembly.read n).1.isAllDataRead := by
          rw [heq]
          rfl
        refine .inr ⟨hreadable, hend, k, (s.reassembly.read n).2.1, by simp [heq], hk, ?_, ?_⟩
        · rw [if_pos (hlen ▸ hk), hlen, heof, consume, hcancel, hshut]
        · rw [if_pos (hlen ▸ hk)]

/-- A call on a stream that is neither reset nor cancelled. The window update is
what `Read` does after it has released the lock. -/
inductive ReceiveCall where
  | frame (answer : ConnCall → Option TransportError) (stale : Nat → UInt8) (offset : Nat) (data : List UInt8)
    (fin : Bool)
  | read (n : Nat) (expired ctxDone : Bool)
  | windowUpdate (grow growConn : Bool)

end ReceiveStream

end Mach.Quic.Stream
