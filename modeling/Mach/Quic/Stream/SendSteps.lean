import Mach.Lib.Run
import Mach.Quic.Stream.SendStream
/-!
# What a step of a sender does

`Did` sums up `Sender.step`: a step appends what was granted, queues the FIN,
abandons the stream, pops a frame, acknowledges, or moves the writer and the
books around the data. The invariants of the sending side are case analyses over
those.
-/

namespace Mach.Quic.Stream

open Lib SendEvent SendStream StreamFlowController

def SendState.isReset (s : SendState) : Bool := s = .resetSent || s = .resetRecvd

/-- Neither data, nor FIN, nor a charge or refund of credit. -/
def SendEvent.isQuiet : SendEvent → Bool
  | .returned _ _ | .resetFrame _ _ | .blockedFrame _ | .conn .checkAndQueueDataBlocked => true
  | _ => false

namespace Sender

def credit (x : Sender) : Nat := x.str.flowController.send.credit

def appendLen (x : Sender) : SendOp → Nat
  | .commit limit =>
    match x.phase with
    | .granted p _ effective => chunkLen p.length effective limit
    | _ => 0
  | .tryCommit =>
    match x.phase with
    | .trying p => p.length
    | _ => 0
  | _ => 0

/-- Where the writer can go without touching the data: it stays, or it has just
been told what it may write, on a stream that takes data. -/
def Moves (x : Sender) : WritePhase → Prop
  | .granted p n effective =>
    x.phase = .granted p n effective ∨ 0 < effective ∧ effective ≤ x.credit ∧ x.str.refusal = none
  | .trying p => x.phase = .trying p ∨ p ≠ [] ∧ p.length ≤ x.credit ∧ x.str.refusal = none
  | _ => True

/-- The same flow controller, with the same bytes charged and a limit that is no lower. -/
structure SameCharge (fc fc' : StreamFlowController) : Prop where
  bytesSent : fc'.send.bytesSent = fc.send.bytesSent
  window : fc.send.sendWindow ≤ fc'.send.sendWindow
  window_lt : fc.send.sendWindow < 2 ^ 64 → fc'.send.sendWindow < 2 ^ 64
  connection : fc'.connection = fc.connection

inductive Did (x : Sender) (op : SendOp) : Sender → List SendEvent → Prop
  | quiet (fc : StreamFlowController) (resetSent : Bool) (shutdownErr : Option String) (phase : WritePhase)
      (o : List SendEvent) (h0 : x.appendLen op = 0) (hfc : SameCharge x.str.flowController fc) (hph : x.Moves phase)
      (ho : ∀ e ∈ o, e.isQuiet) :
      Did x op ⟨{ x.str with flowController := fc, resetSent, shutdownErr }, phase⟩ o
  | appended (data : List UInt8) (phase : WritePhase) (o : List SendEvent) (hlen : data.length = x.appendLen op)
      (hne : data ≠ [])
      (hfrom : (∃ p n effective, x.phase = .granted p n effective ∧ data.length ≤ effective) ∨ x.phase = .trying data)
      (hph : phase = .idle ∨ ∃ p n, phase = .looping p n) (ho : ∀ e ∈ o, e.isQuiet) :
      Did x op ⟨(x.str.append data).1, phase⟩ (.accepted data :: (x.str.append data).2.map .conn ++ o)
  | closed (h0 : x.appendLen op = 0) (hidle : x.phase = .idle) (hreset : x.str.resetErr = none)
      (hst : ¬ (x.str.state = .dataSent ∨ x.str.state = .dataRecvd)) :
      Did x op { x with str := { x.str with finQueued := true, finalSize := x.str.writeOffset, state := .dataSent } }
        (if x.str.finQueued then [] else [.closed x.str.writeOffset])
  | aborted (code : Nat) (remote : Bool) (stop : Bool) (stopCode : Nat) (h0 : x.appendLen op = 0)
      (hop : op = .cancelWrite code ∨ op = .handleStopSending code) (hph : ∀ p, x.phase ≠ .trying p)
      (hst : ¬ (x.str.state.isTerminal ∨ x.str.state = .resetSent)) :
      Did x op
        { x with str := ({ x.str with stopSendingReceived := stop, stopSendingCode := stopCode }.abort code remote).1 }
        (({ x.str with stopSendingReceived := stop, stopSendingCode := stopCode }.abort code remote).2.map .conn)
  | popped (take : Nat) (fin : Bool) (h0 : x.appendLen op = 0) (hst : x.str.state.isReset = false)
      (hsome : ¬ (x.str.writeBuffer = [] ∧ (¬ x.str.finQueued ∨ x.str.finSent))) (hle : take ≤ x.str.writeBuffer.length)
      (hfin : fin = (x.str.finQueued && (x.str.writeBuffer.drop take).isEmpty && !x.str.finSent)) :
      Did x op
        { x with str := { x.str with
            writeBuffer := x.str.writeBuffer.drop take
            sentOffset := u64 (x.str.sentOffset + take)
            finSent := x.str.finSent || fin } }
        [.popped ⟨x.str.writeBuffer.take take, x.str.sentOffset, fin⟩]
  | acked (st : SendState) (h0 : x.appendLen op = 0)
      (hst : x.str.state = .dataSent ∧ st = .dataRecvd ∨ x.str.state = .resetSent ∧ st = .resetRecvd)
      (hfin : st = .dataRecvd → x.str.finSent) :
      Did x op { x with str := { x.str with state := st } } [.completed]

variable {x x' : Sender} {c : Nat} {op : SendOp} {o : List SendEvent}

theorem moves_refl (x : Sender) : x.Moves x.phase := by
  unfold Moves
  split <;> simp_all

theorem SameCharge.refl (fc : StreamFlowController) : SameCharge fc fc := ⟨rfl, le_refl _, id, rfl⟩

theorem Did.still (phase : WritePhase) (o : List SendEvent) (h0 : x.appendLen op = 0) (hph : x.Moves phase)
    (ho : ∀ e ∈ o, e.isQuiet) : Did x op { x with phase } o :=
  .quiet x.str.flowController x.str.resetSent x.str.shutdownErr phase o h0 (.refl _) hph ho

theorem effective_le_credit (fc : StreamFlowController) (c : Nat) :
    (fc.sendCreditAvailable c).2.2 ≤ fc.send.credit := by
  unfold sendCreditAvailable
  split
  · exact min_le_left _ _
  · exact le_refl _

theorem chunkLen_le (left effective : Nat) (limit : Option Int) :
    chunkLen left effective limit ≤ left ∧ chunkLen left effective limit ≤ effective := by
  unfold chunkLen
  cases limit with
  | none => exact ⟨min_le_left _ _, min_le_right _ _⟩
  | some lim =>
    simp only
    split_ifs <;> omega

-- The lemmas below share these equations.
attribute [local simp] writerStep methodStep step isQuiet in
theorem did_check {expired ctxDone : Bool} (h : x.writerStep c (.check expired ctxDone) = some (x', o)) :
    Did x (.check expired ctxDone) x' o := by
  simp only [writerStep] at h
  split at h <;> try cases h
  rename_i p n hph
  split at h <;> rename_i hchk
  · cases h
    exact .still _ _ rfl trivial (by simp [isQuiet])
  · rename_i sc cc eff
    -- The grant is the stream's and the connection's credit, whichever is less.
    have hok : x.str.refusal = none ∧ x.str.flowController.sendCreditAvailable c = (sc, cc, eff) := by
      unfold checkWrite at hchk
      split at hchk
      · cases hchk
      rename_i href
      split_ifs at hchk
      exact ⟨href, Except.ok.inj hchk⟩
    have hle : eff ≤ x.credit := by
      have := effective_le_credit x.str.flowController c
      rwa [hok.2] at this
    cases h
    refine .still _ _ rfl ?_ (by simp)
    split_ifs with h0
    · trivial
    · exact .inr ⟨Nat.pos_of_ne_zero h0, hle, hok.1⟩

theorem sameCharge_checkAndQueue (fc : StreamFlowController) : SameCharge fc fc.checkAndQueueStreamDataBlocked.1 := by
  unfold checkAndQueueStreamDataBlocked SendSide.checkAndQueueBlocked
  split <;> exact ⟨rfl, le_refl _, id, rfl⟩

theorem sameCharge_getBlocked (fc : StreamFlowController) : SameCharge fc fc.getStreamDataBlockedFrame.1 := by
  unfold StreamFlowController.getStreamDataBlockedFrame SendSide.getBlockedFrame
  split
  · exact ⟨rfl, le_refl _, id, rfl⟩
  · split <;> exact ⟨rfl, le_refl _, id, rfl⟩

theorem sameCharge_updateSendWindow (fc : StreamFlowController) (limit : UInt64) :
    SameCharge fc (fc.updateSendWindow limit.toNat) := by
  unfold StreamFlowController.updateSendWindow SendSide.updateSendWindow
  split
  · rename_i hlt
    exact ⟨rfl, hlt.le, fun _ => limit.toNat_lt, rfl⟩
  · exact .refl fc

theorem did_queueBlocked (h : x.writerStep c .queueBlocked = some (x', o)) : Did x .queueBlocked x' o := by
  simp only [writerStep] at h
  split at h <;> cases h
  refine .quiet _ x.str.resetSent x.str.shutdownErr _ _ rfl ?_ trivial ?_
  · split
    · exact sameCharge_checkAndQueue _
    · exact .refl _
  · intro e he
    split at he <;> simp at he
    rw [he]
    rfl

theorem did_commit {limit : Option Int} (h : x.writerStep c (.commit limit) = some (x', o)) :
    Did x (.commit limit) x' o := by
  simp only [writerStep] at h
  split at h <;> try cases h
  rename_i p n eff hph
  have hle := chunkLen_le p.length eff limit
  have hlen : x.appendLen (.commit limit) = chunkLen p.length eff limit := by simp only [appendLen, hph]
  split at h <;> rename_i h0 <;> cases h
  · exact .still _ _ (hlen.trans h0) trivial (by simp [isQuiet])
  · have htake : (p.take (chunkLen p.length eff limit)).length = chunkLen p.length eff limit := by
      rw [List.length_take, min_eq_left hle.1]
    refine .appended _ _ _ (htake.trans hlen.symm) ?_ (.inl ⟨p, n, eff, hph, htake.trans_le hle.2⟩) ?_ ?_
    · exact List.ne_nil_of_length_pos (by omega)
    · split
      · exact .inl rfl
      · exact .inr ⟨_, _, rfl⟩
    · intro e he
      split at he <;> simp at he
      rw [he]
      rfl

theorem did_tryWriteAll {p : List UInt8} (h : x.writerStep c (.tryWriteAll p) = some (x', o)) :
    Did x (.tryWriteAll p) x' o := by
  simp only [writerStep] at h
  split at h <;> try cases h
  split at h
  · cases h
    exact .still _ _ rfl (moves_refl x) (by simp [isQuiet])
  · rename_i hne
    split at h
    · cases h
      exact .still _ _ rfl (moves_refl x) (by simp [isQuiet])
    · rename_i href
      split at h <;> rename_i hlt <;> cases h
      · exact .still _ _ rfl (moves_refl x) (by simp [isQuiet])
      · have hcredit := effective_le_credit x.str.flowController c
        refine .still _ _ rfl (.inr ⟨hne, ?_, href⟩) (by simp)
        unfold credit
        omega

theorem did_tryCommit (hne : x.phase ≠ .trying []) (h : x.writerStep c .tryCommit = some (x', o)) :
    Did x .tryCommit x' o := by
  simp only [writerStep] at h
  split at h <;> cases h
  rename_i p hph
  refine .appended _ _ _ (by simp only [appendLen, hph]) ?_ (.inr hph) (.inl rfl) (by simp [isQuiet])
  rintro rfl
  exact hne hph

theorem did_writer (hne : x.phase ≠ .trying []) (h : x.writerStep c op = some (x', o)) : Did x op x' o := by
  cases op with
  | writeWithLimit p =>
    simp only [writerStep] at h
    split at h <;> try cases h
    split at h <;> cases h
    · exact .still _ _ rfl (moves_refl x) (by simp [isQuiet])
    · exact .still _ _ rfl trivial (by simp)
  | check => exact did_check h
  | queueBlocked => exact did_queueBlocked h
  | wake =>
    simp only [writerStep] at h
    split at h <;> cases h
    exact .still _ _ rfl trivial (by simp)
  | giveUp =>
    simp only [writerStep] at h
    split at h <;> cases h
    exact .still _ _ rfl trivial (by simp [isQuiet])
  | commit => exact did_commit h
  | tryWriteAll => exact did_tryWriteAll h
  | tryCommit => exact did_tryCommit hne h
  | _ => cases h

theorem Did.unmoved (h0 : x.appendLen op = 0) : Did x op x [] := .still _ _ h0 (moves_refl x) (by simp)

theorem did_pop {maxBytes : Int} (h : x.methodStep (.popStreamFrame maxBytes) = some (x', o)) :
    Did x (.popStreamFrame maxBytes) x' o := by
  simp only [methodStep, popStreamFrame] at h
  split at h
  · cases h
    exact .unmoved rfl
  · rename_i hreset
    split at h <;> rename_i hsome <;> cases h
    · exact .unmoved rfl
    · refine .popped _ _ rfl ?_ hsome (by omega) rfl
      simp only [not_or] at hreset
      simp [SendState.isReset, hreset]

theorem did_method (hph : (∀ p, x.phase ≠ .trying p) ∨ op = .getStreamDataBlockedFrame ∨ ∃ n, op = .updateSendWindow n)
    (h : x.methodStep op = some (x', o)) : Did x op x' o := by
  cases op with
  | cancelWrite code =>
    simp only [methodStep, cancelWrite] at h
    split at h <;> rename_i hst <;> cases h
    · exact .unmoved rfl
    · exact .aborted code false x.str.stopSendingReceived x.str.stopSendingCode rfl (.inl rfl) (by simpa using hph) hst
  | handleStopSending code =>
    simp only [methodStep, handleStopSending] at h
    split at h <;> rename_i hst <;> cases h
    · exact .unmoved rfl
    · exact .aborted code true true code rfl (.inr rfl) (by simpa using hph) hst
  | popStreamFrame => exact did_pop h
  | handleAck all =>
    simp only [methodStep, handleAck] at h
    split at h <;> rename_i hst <;> cases h
    · exact .acked .dataRecvd rfl (.inl ⟨hst.2.2, rfl⟩) fun _ => hst.2.1
    · exact .unmoved rfl
  | handleResetAck =>
    simp only [methodStep, handleResetAck] at h
    split at h <;> rename_i hst <;> cases h
    · exact .acked .resetRecvd rfl (.inr ⟨hst, rfl⟩) nofun
    · exact .unmoved rfl
  | getResetStreamFrame =>
    simp only [methodStep, getResetStreamFrame] at h
    split at h <;> cases h
    · exact .quiet _ true x.str.shutdownErr _ _ rfl (.refl _) (moves_refl x) (by simp [isQuiet])
    · exact .unmoved rfl
  | getStreamDataBlockedFrame =>
    cases h
    refine .quiet _ x.str.resetSent x.str.shutdownErr _ _ rfl (sameCharge_getBlocked _) (moves_refl x) ?_
    simp [isQuiet]
  | updateSendWindow limit =>
    cases h
    exact .quiet _ x.str.resetSent x.str.shutdownErr _ _ rfl (sameCharge_updateSendWindow _ _) (moves_refl x) (by simp)
  | closeForShutdown err =>
    cases h
    exact .quiet _ x.str.resetSent (some err) _ _ rfl (.refl _) (moves_refl x) (by simp)
  | _ => cases h

theorem did_close (h : x.step c .close = some (x', o)) : Did x .close x' o := by
  simp only [step] at h
  split at h <;> try cases h
  rename_i hidle
  have hstill : Did x .close x [] := .still x.phase [] rfl (moves_refl x) (by simp)
  unfold close
  split
  · simpa using hstill
  · rename_i hreset
    split <;> rename_i hst
    · simpa using hstill
    · have hd := @Did.closed x .close rfl hidle hreset hst
      cases hq : x.str.finQueued <;> simpa [hq] using hd

theorem did_of_step (hne : x.phase ≠ .trying []) (h : x.step c op = some (x', o)) : Did x op x' o := by
  cases op with
  | close => exact did_close h
  | updateSendWindow n => exact did_method (.inr (.inr ⟨n, rfl⟩)) h
  | getStreamDataBlockedFrame => exact did_method (.inr (.inl rfl)) h
  | cancelWrite | handleStopSending | popStreamFrame | handleAck | handleResetAck | getResetStreamFrame
  | closeForShutdown =>
    simp only [step] at h
    split at h
    · cases h
    · exact did_method (.inl (by assumption)) h
  | _ => exact did_writer (c := c) hne h

theorem isReset_append (s : SendStream) (data : List UInt8) : (s.append data).1.state.isReset = s.state.isReset := by
  unfold SendStream.append
  cases s.state <;> rfl

theorem live_cases {st : SendState} (h : ¬ (st.isTerminal ∨ st = .resetSent)) :
    st = .ready ∨ st = .send ∨ st = .dataSent := by
  cases st <;> simp_all [SendState.isTerminal]

/-- A reset stream stays reset, with its code and final size. -/
theorem reset_fixed (h : x.str.resetErr = none → x.str.state.isReset = false) (hr : x.str.state.isReset)
    (hd : Did x op x' o) :
    x'.str.state.isReset ∧ x'.str.resetCode = x.str.resetCode ∧ x'.str.resetFinalPos = x.str.resetFinalPos := by
  cases hd with
  | quiet => exact ⟨hr, rfl, rfl⟩
  | appended data => exact ⟨(isReset_append x.str data).trans hr, rfl, rfl⟩
  | closed h0 hidle hreset hst => exact absurd hr (by simp [h hreset])
  | aborted code remote stop stopCode h0 hop hph hst =>
    rcases live_cases hst with hs | hs | hs <;> simp [hs, SendState.isReset] at hr
  | popped take fin h0 hst => exact absurd hr (by simp [hst])
  | acked st h0 hst =>
    rcases hst with ⟨hs, rfl⟩ | ⟨hs, rfl⟩
    · simp [hs, SendState.isReset] at hr
    · exact ⟨rfl, rfl, rfl⟩

end Sender

end Mach.Quic.Stream
