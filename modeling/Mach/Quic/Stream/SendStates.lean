import Mach.Quic.Stream.Packetize
/-!
# The states of the sending half

`send_stream.go` sets the state of a stream in seven places and never asks the
list of transitions in `state.go`. Whatever the calls, and wherever the writer is
between its two locked sections, every change is on the list. `DataRecvd` comes
after the FIN was popped, and a stream that was reset stays silent, with one final
size.
-/

namespace Mach.Quic.Stream

open Lib

/-- What the state says about the rest of the stream and about its past. -/
structure Ordered (x : Sender) (tr : List SendEvent) : Prop where
  waiting : x.phase ≠ .trying []
  reset : x.str.resetErr = none → x.str.state.isReset = false
  queued : x.str.state.isReset → x.str.resetQueued
  fin : x.str.finSent → ∃ f, .popped f ∈ tr ∧ f.fin
  recvd : x.str.state = .dataRecvd → x.str.finSent

variable {x x' : Sender} {tr o : List SendEvent} {op : SendOp}

theorem ordered_new (id : Nat) (fc : StreamFlowController) : Ordered { str := newSendStream id fc } [] where
  waiting := nofun
  reset _ := rfl
  queued := nofun
  fin := nofun
  recvd := nofun

theorem Ordered.fin_append (h : Ordered x tr) (o : List SendEvent) (hs : x.str.finSent) :
    ∃ f, .popped f ∈ tr ++ o ∧ f.fin := by
  obtain ⟨f, hf, hfin⟩ := h.fin hs
  exact ⟨f, List.mem_append_left o hf, hfin⟩

/-! ## One step -/

theorem ordered_did (h : Ordered x tr) (hd : Sender.Did x op x' o) : Ordered x' (tr ++ o) := by
  cases hd with
  | quiet fc resetSent shutdownErr phase o h0 hfc hph ho =>
    refine { h with waiting := ?_, fin := h.fin_append o }
    intro hnil
    simp only at hnil
    subst hnil
    rcases hph with hph | ⟨hne, -⟩
    · exact h.waiting hph
    · exact hne rfl
  | appended data phase o hlen hne hfrom hph ho =>
    have hstate := Sender.isReset_append x.str data
    refine ⟨?_, fun hr => hstate.trans (h.reset hr), fun hr => h.queued (hstate ▸ hr), h.fin_append _, fun hr => h.recvd ?_⟩
    · rcases hph with rfl | ⟨p, n, rfl⟩ <;> simp
    · simp only [SendStream.append] at hr
      split at hr
      · cases hr
      · exact hr
  | closed h0 hidle hreset hst => exact ⟨h.waiting, fun _ => rfl, by rintro ⟨⟩, h.fin_append _, by simp⟩
  | aborted code remote stop stopCode h0 hop hph hst => exact ⟨h.waiting, by rintro ⟨⟩, fun _ => rfl, h.fin_append _, by rintro ⟨⟩⟩
  | popped take fin h0 hst hsome hle hfin =>
    refine ⟨h.waiting, h.reset, h.queued, fun hs => ?_, fun hr => by simp [h.recvd hr]⟩
    rcases Bool.or_eq_true_iff.1 hs with hs | hs
    · exact h.fin_append _ hs
    · exact ⟨_, List.mem_append_right _ List.mem_cons_self, hs⟩
  | acked st h0 hst hfin =>
    refine ⟨h.waiting, fun hr => ?_, fun hr => ?_, h.fin_append _, hfin⟩
    · rcases hst with ⟨-, rfl⟩ | ⟨hst, -⟩
      · rfl
      · have := h.reset hr
        simp [hst, SendState.isReset] at this
    · rcases hst with ⟨-, rfl⟩ | ⟨hst, -⟩
      · cases hr
      · exact h.queued (by simp [hst, SendState.isReset])

theorem valid_did (h : Ordered x tr) (hd : Sender.Did x op x' o) :
    validateSendTransition x.str.state x'.str.state := by
  cases hd with
  | quiet => exact validateSendTransition_self _
  | appended data =>
    simp only [SendStream.append]
    split
    · rename_i hready
      rw [hready]
      rfl
    · exact validateSendTransition_self _
  | closed h0 hidle hreset hst =>
    have hlive := h.reset hreset
    cases hs : x.str.state <;> simp_all [validateSendTransition, SendState.isReset]
  | aborted code remote stop stopCode h0 hop hph hst =>
    rcases Sender.live_cases hst with hs | hs | hs <;> rw [hs] <;> rfl
  | popped => exact validateSendTransition_self _
  | acked st h0 hst =>
    rcases hst with ⟨hs, rfl⟩ | ⟨hs, rfl⟩ <;> rw [hs] <;> rfl

theorem popStreamFrame_reset {s : SendStream} (hr : s.state.isReset) (maxBytes : Int) :
    (s.popStreamFrame maxBytes).2 = none := by
  unfold SendStream.popStreamFrame
  rw [if_pos]
  right
  simpa [SendState.isReset] using hr

/-! ## Whole runs -/

variable {es : List (Nat × SendOp)}

theorem ordered_run {id : Nat} {fc : StreamFlowController}
    (hr : run Sender.next { str := newSendStream id fc } es = some (x, tr)) : Ordered x tr := by
  refine run_keeps Ordered ?_ (ordered_new id fc) hr
  intro x tr e x' o h hstep
  exact ordered_did h (Sender.did_of_step h.waiting hstep)

theorem reset_fixed_run (h : Ordered x tr) (hr : x.str.state.isReset)
    (hrun : run Sender.next x es = some (x', o)) :
    Ordered x' (tr ++ o) ∧ x'.str.state.isReset ∧ x'.str.resetCode = x.str.resetCode ∧
      x'.str.resetFinalPos = x.str.resetFinalPos := by
  refine run_keeps (fun y o => Ordered y (tr ++ o) ∧ y.str.state.isReset ∧ y.str.resetCode = x.str.resetCode ∧
    y.str.resetFinalPos = x.str.resetFinalPos) ?_ ⟨by rwa [List.append_nil], hr, rfl, rfl⟩ hrun
  rintro y o e y' o' ⟨hy, hreset, hcode, hpos⟩ hstep
  have hd := Sender.did_of_step hy.waiting hstep
  obtain ⟨hreset', hcode', hpos'⟩ := Sender.reset_fixed hy.reset hreset hd
  rw [← List.append_assoc]
  exact ⟨ordered_did hy hd, hreset', hcode'.trans hcode, hpos'.trans hpos⟩

/-- In every run, a step changes the state as the list says, and `DataRecvd` is
entered with a FIN behind it; and after a reset no frame is popped any more, and
every RESET_STREAM frame has one code and one final size. -/
theorem send_states_ordered (id : Nat) (fc : StreamFlowController) {es : List (Nat × SendOp)}
    (hr : run Sender.next { str := newSendStream id fc } es = some (x, tr)) :
    (∀ e x' o, x.next e = some (x', o) → validateSendTransition x.str.state x'.str.state ∧
      (x'.str.state = .dataRecvd → ∃ f, .popped f ∈ tr ∧ f.fin)) ∧
    (x.str.state.isReset → ∃ code finalSize, ∀ es' x' tr', run Sender.next x es' = some (x', tr') →
      (∀ maxBytes, (x'.str.popStreamFrame maxBytes).2 = none) ∧
      x'.str.getResetStreamFrame.2 = some (code, finalSize)) := by
  have h := ordered_run hr
  constructor
  · intro e x' o hstep
    have hd := Sender.did_of_step h.waiting hstep
    refine ⟨valid_did h hd, fun hrecvd => h.fin ?_⟩
    cases hd with
    | quiet => exact h.recvd hrecvd
    | appended data =>
      simp only [SendStream.append] at hrecvd
      split at hrecvd
      · cases hrecvd
      · exact h.recvd hrecvd
    | closed => cases hrecvd
    | aborted => cases hrecvd
    | popped => exact h.recvd hrecvd
    | acked st h0 hst hfin => exact hfin hrecvd
  · intro hreset
    refine ⟨x.str.resetCode, x.str.resetFinalPos, fun es' x' tr' hrun => ?_⟩
    obtain ⟨h', hreset', hcode, hpos⟩ := reset_fixed_run h hreset hrun
    refine ⟨popStreamFrame_reset hreset', ?_⟩
    rw [SendStream.getResetStreamFrame, if_pos (h'.queued hreset'), hcode, hpos]

/-- Two bytes are written and the stream is cancelled before they are sent. -/
theorem send_states_ordered_cancelled : ∃ x tr,
    run Sender.next { str := newSendStream 4 (newStreamFlowController 4 false 9 9 9) }
      [(9, .tryWriteAll [1, 2]), (9, .tryCommit), (9, .cancelWrite 7)] = some (x, tr) ∧ x.str.state = .resetSent ∧
    ∃ code finalSize, ∀ es' x' tr', run Sender.next x es' = some (x', tr') →
      (∀ maxBytes, (x'.str.popStreamFrame maxBytes).2 = none) ∧
      x'.str.getResetStreamFrame.2 = some (code, finalSize) := by
  refine ⟨_, _, rfl, rfl, ?_⟩
  exact (@send_states_ordered _ _ 4 (newStreamFlowController 4 false 9 9 9)
    [(9, .tryWriteAll [1, 2]), (9, .tryCommit), (9, .cancelWrite 7)] rfl).2 rfl

end Mach.Quic.Stream
