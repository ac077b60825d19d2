import Mach.Lib.Run
import Mach.Quic.Stream.ReceiveSteps
/-!
# The states of the receiving half

`state.go` lists the transitions of the receiving half, and `receive_stream.go`
never asks it. Frames and resets keep to the list. `CancelRead` leaves it unless
the peer has reset the stream before, and so does a `Read` that takes the last
bytes while the stream is not in `DataRecvd`.
-/

namespace Mach.Quic.Stream

open Lib ReassemblyBuffer

namespace ReceiveStream

/-- What the state of a stream says about its other fields. -/
structure Sound (s : ReceiveStream) : Prop where
  laid : s.reassembly.Laid
  known : s.state = .sizeKnown ∨ s.state = .dataRecvd ∨ s.state = .resetRecvd → s.finalSizeKnown
  live : s.cancelErr = none → s.state ≠ .resetRecvd ∧ s.state ≠ .resetRead

theorem sound_new (id : Nat) (fc : StreamFlowController) : Sound (newReceiveStream id fc) :=
  ⟨laid_new, nofun, fun _ => ⟨nofun, nofun⟩⟩

variable {s : ReceiveStream}

theorem not_ignores (h : ¬ s.Ignores) : s.state = .recv ∨ s.state = .sizeKnown ∨ s.state = .dataRecvd := by
  cases hs : s.state <;> simp_all [Ignores, RecvState.isTerminal]

/-! ## One call -/

theorem sound_handleStreamFrame (h : Sound s) (answer : ConnCall → Option TransportError) (stale : Nat → UInt8)
    (offset : Nat) (data : List UInt8) (fin : Bool) :
    Sound (s.handleStreamFrame answer stale offset data fin).1 ∧
      validateRecvTransition s.state (s.handleStreamFrame answer stale offset data fin).1.state := by
  have hpush := laid_push h.laid stale offset data fin
  rcases handleStreamFrame_spec (s := s) answer stale offset data fin with
    ⟨-, heq⟩ | ⟨hig, fc, calls, ⟨err, heq⟩ | ⟨b, err, hb, heq⟩ | ⟨b, hb, heq⟩⟩
  all_goals rw [heq]
  · exact ⟨h, by simp⟩
  · exact ⟨{ h with }, by simp⟩
  · rw [hb] at hpush
    exact ⟨⟨hpush, h.known, h.live⟩, by simp⟩
  · rw [hb] at hpush
    obtain ⟨st, known, hnote, hcases⟩ := noteFrame_moves { s with flowController := fc, reassembly := b } fin
    rw [hnote]
    simp only at hcases ⊢
    have hst := not_ignores hig
    rcases hcases with ⟨rfl, rfl⟩ | ⟨hk, rfl, hmove⟩ | ⟨hsk, rfl, rfl⟩
    · exact ⟨⟨hpush, h.known, h.live⟩, by simp⟩
    · -- the final size was not known, so the stream was in `Recv`
      have hrecv : s.state = .recv := by
        refine hst.resolve_right fun hst => ?_
        rw [h.known (hst.imp_right .inl)] at hk
        cases hk
      refine ⟨⟨hpush, fun _ => rfl, fun _ => ?_⟩, ?_⟩
      · rcases hmove with rfl | rfl <;> simp
      · rcases hmove with rfl | rfl <;> simp [validateRecvTransition, hrecv]
    · exact ⟨⟨hpush, fun _ => h.known (.inl hsk), fun _ => by simp⟩,
        by simp [validateRecvTransition, hsk]⟩

theorem sound_handleResetStreamFrame (h : Sound s) (answer : ConnCall → Option TransportError)
    (code finalSize : Nat) :
    Sound (s.handleResetStreamFrame answer code finalSize).1 ∧
      validateRecvTransition s.state (s.handleResetStreamFrame answer code finalSize).1.state := by
  rcases handleResetStreamFrame_spec (s := s) answer code finalSize with
    ⟨-, heq⟩ | ⟨hig, fc, calls, ⟨err, heq⟩ | ⟨hge, heq⟩⟩
  all_goals rw [heq]
  · exact ⟨h, by simp⟩
  · exact ⟨{ h with }, by simp⟩
  · refine ⟨⟨laid_setFinalSize h.laid hge, fun _ => rfl, nofun⟩, ?_⟩
    rcases not_ignores hig with hst | hst | hst <;> simp [validateRecvTransition, hst]

/-- A `Read` keeps to the list exactly if it takes the last bytes in `DataRecvd`. -/
theorem sound_read (h : Sound s) (n : Nat) (expired ctxDone : Bool) :
    Sound (s.read n expired ctxDone).1 ∧
      (validateRecvTransition s.state (s.read n expired ctxDone).1.state ↔
        ∀ bytes, (s.read n expired ctxDone).2.2 = .data bytes true → s.state = .dataRecvd) := by
  rcases read_spec h.laid n expired ctxDone with ⟨res, heq, -, hlast, -⟩ | ⟨hr, hend, k, bytes, -, -, heq, -⟩
  · rw [heq]
    exact ⟨h, ⟨fun _ bytes hres => absurd hres (hlast bytes), fun _ => by simp⟩⟩
  · rw [heq]
    have hlaid := laid_read h.laid n
    have hst := h.live hr.cancel
    have hnot : s.state ≠ .dataRead := fun hs => hend (.inl hs)
    cases hall : (s.reassembly.read n).1.isAllDataRead with
    | false =>
      simp only [consume, hall, Bool.false_eq_true, if_false]
      exact ⟨⟨hlaid, h.known, h.live⟩, ⟨fun _ _ hres => by simp at hres, fun _ => by simp⟩⟩
    | true =>
      simp only [consume, hall, if_true]
      refine ⟨⟨hlaid, by simp, fun _ => by simp⟩, ?_⟩
      cases hs : s.state <;> simp_all [validateRecvTransition]

/-- `CancelRead` keeps to the list exactly if the peer has reset the stream before,
or if it does nothing. -/
theorem sound_cancelRead (h : Sound s) (code : Nat) :
    Sound (s.cancelRead code) ∧
      (validateRecvTransition s.state (s.cancelRead code).state ↔
        s.state = .resetRecvd ∨ s.state.isTerminal) := by
  unfold cancelRead
  split
  · rename_i hdone
    refine ⟨h, ⟨fun _ => ?_, fun _ => by simp⟩⟩
    rcases hdone with hdone | hdone
    · exact .inr hdone
    · exact .inr (by simp [hdone, RecvState.isTerminal])
  · rename_i hdone
    refine ⟨⟨h.laid, by simp, nofun⟩, ?_⟩
    cases hs : s.state <;> simp_all [validateRecvTransition, RecvState.isTerminal]

/-! ## Whole runs -/

/-- One call with the connection's answers: the states before and after it. -/
def change (s : ReceiveStream) (e : (ConnCall → Option TransportError) × RecvOp) :
    Option (ReceiveStream × List (RecvState × RecvState)) :=
  some ((s.step e.1 e.2).1, [(s.state, (s.step e.1 e.2).1.state)])

/-- The call does not cancel a stream that the peer has not reset, nor take the
last bytes of one that is not in `DataRecvd`. -/
def Orderly (s : ReceiveStream) : RecvOp → Prop
  | .cancelRead _ => s.state = .resetRecvd ∨ s.state.isTerminal
  | .read n expired ctxDone => ∀ bytes, (s.read n expired ctxDone).2.2 = .data bytes true → s.state = .dataRecvd
  | _ => True

theorem sound_step (h : Sound s) (answer : ConnCall → Option TransportError) (op : RecvOp) :
    Sound (s.step answer op).1 ∧ (validateRecvTransition s.state (s.step answer op).1.state ↔ s.Orderly op) := by
  cases op with
  | handleStreamFrame stale offset data fin =>
    obtain ⟨hs, hv⟩ := sound_handleStreamFrame h answer stale offset data fin
    exact ⟨hs, ⟨fun _ => trivial, fun _ => hv⟩⟩
  | handleResetStreamFrame code finalSize =>
    obtain ⟨hs, hv⟩ := sound_handleResetStreamFrame h answer code finalSize
    exact ⟨hs, ⟨fun _ => trivial, fun _ => hv⟩⟩
  | read n expired ctxDone => exact sound_read h n expired ctxDone
  | cancelRead code => exact sound_cancelRead h code
  | maybeTriggerWindowUpdate grow growConn =>
    exact ⟨{ h with }, ⟨fun _ => trivial, fun _ => by simp [step, maybeTriggerWindowUpdate]⟩⟩
  | getWindowUpdate =>
    exact ⟨{ h with }, ⟨fun _ => trivial, fun _ => by simp [step, getWindowUpdate]⟩⟩
  | getStopSendingFrame =>
    simp only [step, getStopSendingFrame]
    split <;> exact ⟨{ h with }, ⟨fun _ => trivial, fun _ => by simp⟩⟩
  | closeForShutdown err =>
    exact ⟨{ h with }, ⟨fun _ => trivial, fun _ => by simp [step, closeForShutdown]⟩⟩

end ReceiveStream

end Mach.Quic.Stream
