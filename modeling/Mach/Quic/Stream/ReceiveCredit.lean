import Mach.Lib.Run
import Mach.Quic.Stream.ReceiveSteps
import Mathlib.Algebra.BigOperators.Group.List.Basic
/-!
# Receive credit of a connection

Each stream tells the connection's controller what it has received and what has
been read. On a stream that is finished the two totals should agree, or the
difference stays in the connection's window for good. They do for a stream read
to its end and for one reset by the peer. `CancelRead` drops what is buffered
without counting it (`cancelRead_leaks`), so the totals agree exactly in the runs
in which each cancelled stream has nothing unread.
-/

namespace Mach.Quic.Stream

open Lib ReassemblyBuffer List ReceiveStream RecvState

variable {answer : ConnCall → Option TransportError} {cs : List ConnCall}

/-- What the calls add to the connection's highest received offset. -/
def received (calls : List ConnCall) : Nat :=
  (calls.map fun
    | .updateHighestReceived n => n
    | _ => 0).sum

/-- What the calls add to the connection's bytes read. -/
def consumed (calls : List ConnCall) : Nat :=
  (calls.map fun
    | .addBytesRead n => n
    | _ => 0).sum

@[simp] theorem received_nil : received [] = 0 := rfl

@[simp] theorem consumed_nil : consumed [] = 0 := rfl

@[simp] theorem received_append (l l' : List ConnCall) : received (l ++ l') = received l + received l' := by simp [received]

@[simp] theorem consumed_append (l l' : List ConnCall) : consumed (l ++ l') = consumed l + consumed l' := by simp [consumed]

@[simp] theorem received_updateHighestReceived (n : Nat) : received [.updateHighestReceived n] = n := by simp [received]

@[simp] theorem consumed_updateHighestReceived (n : Nat) : consumed [.updateHighestReceived n] = 0 := rfl

@[simp] theorem received_addBytesRead (n : Nat) : received [.addBytesRead n] = 0 := rfl

@[simp] theorem consumed_addBytesRead (n : Nat) : consumed [.addBytesRead n] = n := by simp [consumed]

/-- The receiving half is done with: read to the end, cancelled, or reset by the peer. -/
def RecvState.isFinished (s : RecvState) : Bool := s = .dataRead || s = .resetRead || s = .resetRecvd

def RecvState.isReset (s : RecvState) : Bool := s = .resetRecvd || s = .resetRead

/-- The books of a stream: the controller and the buffer agree on what has been
received, and what counts as read is what was read or, after a reset, all. -/
structure Conserved (s : ReceiveStream) (calls : List ConnCall) : Prop where
  laid : s.reassembly.Laid
  connection : s.flowController.connection
  highest : s.flowController.recv.highestReceived = s.reassembly.highestOffset
  total : received calls = s.reassembly.highestOffset
  live : s.state.isReset = false → consumed calls = s.reassembly.readOffset
  reset : s.state.isReset → consumed calls = received calls
  cancelled : s.cancelErr = none → s.state.isReset = false
  allRead : s.state = .dataRead → s.reassembly.isAllDataRead

theorem conserved_new (id initial max send : Nat) :
    Conserved (newReceiveStream id (newStreamFlowController id true initial max send)) [] :=
  ⟨laid_new, rfl, rfl, rfl, fun _ => rfl, nofun, fun _ => rfl, nofun⟩

variable {s s' : ReceiveStream} {calls : List ConnCall}

/-- A finished stream with its books in order has counted all it received as read. -/
theorem Conserved.balanced (h : Conserved s calls) (hf : s.state.isFinished) : consumed calls = received calls := by
  cases hr : s.state.isReset with
  | true => exact h.reset hr
  | false =>
    have hst : s.state = .dataRead := by
      cases hs : s.state <;> simp_all [isFinished, isReset]
    have hall := h.allRead hst
    simp only [isAllDataRead, Bool.and_eq_true, decide_eq_true_eq] at hall
    have hfinal := h.laid.final hall.1
    have hread := h.laid.read_le
    rw [h.live hr, h.total]
    omega

/-! ## One call -/

/-- A flow control check that passes reports the increment to the connection. -/
theorem updateHighestReceived_passes {offset : Nat}
    (hconn : s.flowController.connection) (h : s.updateHighestReceived answer offset = (s', cs, none)) :
    ∃ fc, s' = { s with flowController := fc } ∧ fc.connection ∧
      fc.recv.highestReceived = max s.flowController.recv.highestReceived offset ∧
      consumed cs = 0 ∧ s.flowController.recv.highestReceived + received cs = fc.recv.highestReceived := by
  unfold updateHighestReceived StreamFlowController.updateHighestReceived at h
  by_cases hwin : s.flowController.recv.receiveWindow < offset
  · simp [hwin] at h
  · simp only [if_neg hwin, Prod.mk.injEq] at h
    obtain ⟨rfl, rfl, -⟩ := h
    refine ⟨_, rfl, hconn, rfl, ?_⟩
    by_cases hlt : s.flowController.recv.highestReceived < offset
    · have hpos : 0 < offset - s.flowController.recv.highestReceived := Nat.sub_pos_of_lt hlt
      simp [hlt, hpos, hconn]
      omega
    · simp [hlt]
      omega

theorem isReset_of_going (h : ¬ (s.state.isTerminal ∨ s.state = .resetRecvd)) : s.state.isReset = false := by
  cases hst : s.state <;> simp_all [isTerminal, isReset]

section Steps

variable (h : Conserved s calls)
include h

/-- Frames that are refused or ignored apart, a frame moves the highest offset
in the controller and in the buffer alike. -/
theorem conserved_handleStreamFrame {stale : Nat → UInt8} {offset : Nat}
    {data : List UInt8} {fin : Bool}
    (hs : s.handleStreamFrame answer stale offset data fin = (s', cs, none)) : Conserved s' (calls ++ cs) := by
  unfold handleStreamFrame at hs
  split at hs
  · cases hs
    simpa using h
  rename_i hdone
  have hlive := isReset_of_going hdone
  have hnotread : s.state ≠ .dataRead := fun hst => hdone (.inl (by simp [hst, isTerminal]))
  split at hs
  · cases hs
  rename_i t cs' hup
  obtain ⟨fc, rfl, hconn, hhigh, hcons, hrecv⟩ := updateHighestReceived_passes h.connection hup
  split at hs
  · cases hs
  rename_i b hpush
  cases hs
  have hlaid := laid_push h.laid stale offset data fin
  -- The push was accepted, so the sum did not wrap around.
  obtain ⟨hb, hro⟩ : b.highestOffset = max s.reassembly.highestOffset (u64 (offset + data.length)) ∧
      b.readOffset = s.reassembly.readOffset := by
    rcases push_cases s.reassembly stale offset data fin h.laid with
      ⟨-, err, heq, -⟩ | ⟨-, -, -, err, -, heq⟩ | ⟨hacc, chunks, heq, -⟩
    · simp only [heq, Prod.mk.injEq, reduceCtorEq, and_false] at hpush
    · simp only [heq, Prod.mk.injEq, reduceCtorEq, and_false] at hpush
    · simp only [heq, Prod.mk.injEq, and_true] at hpush
      have hfit := hacc.fits
      rw [u64_of_lt (by simp only [varintMax] at hfit; omega), ← hpush]
      exact ⟨rfl, rfl⟩
  simp only [hpush] at hlaid
  -- What is left only moves between states in which data is read.
  obtain ⟨st, known, hnote, hmoves⟩ :=
    noteFrame_moves { s with flowController := fc, reassembly := b } fin
  obtain ⟨hreset, hmore⟩ : st.isReset = false ∧ st ≠ .dataRead := by
    rcases hmoves with ⟨rfl, -⟩ | ⟨-, -, rfl | rfl⟩ | ⟨-, -, rfl⟩
    · exact ⟨hlive, hnotread⟩
    all_goals exact ⟨rfl, by simp⟩
  rw [hnote]
  refine ⟨hlaid, hconn, ?_, ?_, fun _ => ?_, ?_, fun _ => hreset, fun hst => absurd hst hmore⟩
  · rw [hhigh, h.highest, hb]
  · rw [received_append, h.total, hb, ← h.highest, ← hhigh, ← hrecv]
  · rw [consumed_append, hcons, h.live hlive, hro, Nat.add_zero]
  · simp [hreset]

/-- A reset by the peer counts all bytes up to the final size as received, and
those not read as read. -/
theorem conserved_handleResetStreamFrame {code finalSize : Nat}
    (hs : s.handleResetStreamFrame answer code finalSize = (s', cs, none)) : Conserved s' (calls ++ cs) := by
  unfold handleResetStreamFrame at hs
  split at hs
  · cases hs
    simpa using h
  rename_i hdone
  have hlive := isReset_of_going hdone
  split at hs
  · cases hs
  split at hs
  · cases hs
  rename_i hge
  split at hs
  · cases hs
  rename_i t cs' hup
  obtain ⟨fc, rfl, hconn, hhigh, hcons, hrecv⟩ := updateHighestReceived_passes h.connection hup
  cases hs
  have hge := Nat.le_of_not_lt hge
  have hread := h.laid.read_le
  have hmax : max s.reassembly.highestOffset finalSize = finalSize := Nat.max_eq_right hge
  have htotal : received (calls ++ cs') = finalSize := by
    rw [received_append, h.total, ← h.highest, hrecv, hhigh, h.highest, hmax]
  -- The credit for what is not read, which is nothing if all is.
  obtain ⟨fc', cr, hfc, hconn', hhigh', hr', hc'⟩ : ∃ fc' cr,
      (if s.reassembly.readOffset < finalSize then fc.addBytesRead (finalSize - s.reassembly.readOffset)
        else (fc, [])) = (fc', cr) ∧ fc'.connection ∧ fc'.recv.highestReceived = fc.recv.highestReceived ∧
      received cr = 0 ∧ consumed cr = finalSize - s.reassembly.readOffset := by
    split
    · exact ⟨_, _, rfl, hconn, rfl, by simp [hconn], by simp [hconn]⟩
    · rename_i hlt
      exact ⟨_, _, rfl, hconn, rfl, rfl, (Nat.sub_eq_zero_of_le (Nat.le_of_not_lt hlt)).symm⟩
  simp only [hfc]
  refine ⟨laid_setFinalSize h.laid hge, hconn', ?_, ?_, nofun, fun _ => ?_, nofun, nofun⟩
  · rw [hhigh', hhigh, h.highest]
    rfl
  · rw [← append_assoc, received_append, htotal, hr']
    exact hmax.symm
  · rw [← append_assoc, received_append, htotal, hr', consumed_append, consumed_append, hcons, hc',
      h.live hlive]
    omega

theorem conserved_read {n : Nat} {expired ctxDone : Bool} :
    Conserved (s.read n expired ctxDone).1 (calls ++ (s.read n expired ctxDone).2.1) := by
  rcases read_spec h.laid n expired ctxDone with ⟨res, heq, -⟩ | ⟨hr, hend, k, bytes, hro, -, heq, -⟩
  · rw [heq, append_nil]
    exact h
  · have hlive := h.cancelled hr.cancel
    have hhigh := (read_sizes s.reassembly n).1
    have hst : (s.consume n k).state.isReset = false := by
      dsimp only [ReceiveStream.consume]
      split
      · rfl
      · exact hlive
    rw [heq]
    refine ⟨laid_read h.laid n, h.connection, h.highest.trans hhigh.symm, ?_, fun _ => ?_, ?_, fun _ => hst, fun hdone => ?_⟩
    · simp [StreamFlowController.addBytesRead, ReceiveStream.consume, h.connection, h.total, hhigh]
    · simp [StreamFlowController.addBytesRead, ReceiveStream.consume, h.connection, h.live hlive, hro]
    · simp [hst]
    · simp only [ReceiveStream.consume] at hdone
      split at hdone
      · assumption
      · exact absurd (.inl hdone) hend

/-- Cancelling keeps the books in order if all that was received has been read. -/
theorem conserved_cancelRead {code : Nat}
    (hread : s.state.isFinished ∨ s.reassembly.readOffset = s.reassembly.highestOffset) :
    Conserved (s.cancelRead code) calls := by
  unfold cancelRead
  split
  · exact h
  · rename_i hst
    refine { h with live := nofun, reset := fun _ => ?_, cancelled := nofun, allRead := nofun }
    cases hr : s.state.isReset with
    | true => exact h.reset hr
    | false =>
      have hfin : ¬ s.state.isFinished := by
        cases hs : s.state <;> simp_all [isFinished, isReset, isTerminal]
      rw [h.live hr, h.total]
      exact hread.resolve_left hfin

theorem Conserved.extend (hcs : consumed cs = 0 ∧ received cs = 0) :
    Conserved s (calls ++ cs) := by
  have hconsumed : consumed (calls ++ cs) = consumed calls := by rw [consumed_append, hcs.1, Nat.add_zero]
  have hreceived : received (calls ++ cs) = received calls := by rw [received_append, hcs.2, Nat.add_zero]
  exact { h with
    total := hreceived.trans h.total
    live := fun hl => hconsumed.trans (h.live hl)
    reset := fun hr => hconsumed.trans ((h.reset hr).trans hreceived.symm) }

end Steps

theorem highestReceived_maybeAdjust (r : ReceiveSide) (grow : Bool) :
    (r.maybeAdjustWindowSize grow).highestReceived = r.highestReceived := by
  unfold ReceiveSide.maybeAdjustWindowSize
  by_cases h : u64Sub r.bytesRead r.epochStartOffset < r.receiveWindowSize / 2
  · simp [h]
  · simp [h]

theorem highestReceived_checkAndQueue (r : ReceiveSide) (grow : Bool) :
    (r.checkAndQueueWindowUpdate grow).1.highestReceived = r.highestReceived := by
  unfold ReceiveSide.checkAndQueueWindowUpdate
  by_cases h : r.threshold < r.bytesRemaining
  · simp [h]
  · simp [h, highestReceived_maybeAdjust]

theorem highestReceived_getWindowUpdate (r : ReceiveSide) : r.getWindowUpdate.1.highestReceived = r.highestReceived := by
  unfold ReceiveSide.getWindowUpdate
  split <;> rfl

/-! ## Whole runs -/

/-- The step calls off reading of a stream only when nothing is left unread on
it (or it has no effect). -/
def RecvOp.NothingUnread (s : ReceiveStream) : RecvOp → Prop
  | .cancelRead _ => s.state.isFinished ∨ s.reassembly.readOffset = s.reassembly.highestOffset
  | _ => True

instance (s : ReceiveStream) : DecidablePred (RecvOp.NothingUnread s)
  | .cancelRead _ => inferInstanceAs (Decidable (_ ∨ _))
  | .handleStreamFrame .. | .handleResetStreamFrame .. | .read .. | .maybeTriggerWindowUpdate .. | .getWindowUpdate
  | .getStopSendingFrame | .closeForShutdown .. => isTrue trivial

def RecvEvent.isFailed : RecvEvent → Bool
  | .failed _ => true
  | _ => false

def callsIn (o : List RecvEvent) : List ConnCall := o.filterMap RecvEvent.call?

theorem callsIn_append (o o' : List RecvEvent) : callsIn (o ++ o') = callsIn o ++ callsIn o' := filterMap_append

theorem callsIn_conn (cs : List ConnCall) : callsIn (cs.map .conn) = cs := by
  induction cs with
  | nil => rfl
  | cons c cs ih => exact congrArg (c :: ·) ih

theorem callsIn_quiet {α : Type} (f : α → RecvEvent) (hf : ∀ a, (f a).call? = none) (l : List α) :
    callsIn (l.map f) = [] := by
  simp [callsIn, filterMap_map, hf]

/-- A call that does not fail keeps the books of its stream in order. -/
theorem conserved_step {op : RecvOp} (h : Conserved s calls)
    (hop : op.NothingUnread s) (hok : ∀ e ∈ (s.step answer op).2, e.isFailed = false) :
    Conserved (s.step answer op).1 (calls ++ callsIn (s.step answer op).2) := by
  have hnone : ∀ {cs : List ConnCall} {err : Option TransportError},
      (∀ e ∈ cs.map RecvEvent.conn ++ err.toList.map .failed, e.isFailed = false) → err = none := by
    intro cs err he
    cases err with
    | none => rfl
    | some err => exact absurd (he (.failed err) (by simp)) (by simp [RecvEvent.isFailed])
  cases op with
  | handleStreamFrame stale offset data fin =>
    have herr := hnone hok
    simp only [ReceiveStream.step, herr, Option.toList, map_nil, append_nil, callsIn_conn]
    exact conserved_handleStreamFrame h (Prod.ext rfl (Prod.ext rfl herr))
  | handleResetStreamFrame code finalSize =>
    have herr := hnone hok
    simp only [ReceiveStream.step, herr, Option.toList, map_nil, append_nil, callsIn_conn]
    exact conserved_handleResetStreamFrame h (Prod.ext rfl (Prod.ext rfl herr))
  | read n expired ctxDone =>
    simp only [ReceiveStream.step, callsIn_append, callsIn_conn]
    exact (append_nil (s.read n expired ctxDone).2.1).symm ▸ conserved_read h
  | cancelRead code => simpa [ReceiveStream.step, callsIn] using conserved_cancelRead h hop
  | maybeTriggerWindowUpdate grow growConn =>
    simp only [ReceiveStream.step, maybeTriggerWindowUpdate, callsIn_conn]
    refine { h.extend ?_ with highest := (highestReceived_checkAndQueue _ _).trans h.highest }
    split <;> exact ⟨rfl, rfl⟩
  | getWindowUpdate =>
    simp only [ReceiveStream.step, callsIn_quiet RecvEvent.windowUpdate (fun _ => rfl)]
    exact { h.extend ⟨rfl, rfl⟩ with highest := (highestReceived_getWindowUpdate _).trans h.highest }
  | getStopSendingFrame =>
    simp only [ReceiveStream.step, callsIn_quiet RecvEvent.stopSending (fun _ => rfl), getStopSendingFrame]
    split <;> exact { h.extend ⟨rfl, rfl⟩ with }
  | closeForShutdown err => exact { h.extend ⟨rfl, rfl⟩ with }

namespace RecvSystem

variable {ι : Type} [DecidableEq ι]

def callsOf (i : ι) (tr : List (ι × RecvEvent)) : List ConnCall :=
  callsIn (tr.filterMap fun e => if e.1 = i then some e.2 else none)

/-- A step in which no operation returns an error. -/
def cleanStep (s : RecvSystem ι) (e : RecvSystemOp ι) : Option (RecvSystem ι × List (ι × RecvEvent)) :=
  if (s.step e).2.all fun e => !e.2.isFailed then some (s.step e) else none

def IsNew (s : RecvSystem ι) : Prop :=
  (∃ initial max send, s.conn = newConnectionFlowController initial max send) ∧
  ∀ i, ∃ id initial max send, s.streams i = newReceiveStream id (newStreamFlowController id true initial max send)

/-- Finished streams have counted all they received as read. -/
def CreditConserved (s : RecvSystem ι) (tr : List (ι × RecvEvent)) : Prop :=
  ∀ i, (s.streams i).state.isFinished → consumed (callsOf i tr) = received (callsOf i tr)

def CancelsRead (s : RecvSystem ι) : RecvSystemOp ι → Prop
  | .stream i op => op.NothingUnread (s.streams i)
  | _ => True

instance (s : RecvSystem ι) : DecidablePred s.CancelsRead
  | .stream i op => inferInstanceAs (Decidable (op.NothingUnread (s.streams i)))
  | .getWindowUpdate => isTrue trivial

theorem callsOf_append (i : ι) (tr o : List (ι × RecvEvent)) : callsOf i (tr ++ o) = callsOf i tr ++ callsOf i o := by
  simp [callsOf, callsIn_append, filterMap_append]

theorem callsOf_own (i : ι) (o : List RecvEvent) : callsOf i (o.map fun e => (i, e)) = callsIn o := by
  simp [callsOf, filterMap_map]

theorem callsOf_other {i j : ι} (h : j ≠ i) (o : List RecvEvent) : callsOf i (o.map fun e => (j, e)) = [] := by
  simp [callsOf, filterMap_map, h, callsIn]

theorem conserved_cleanStep {s s' : RecvSystem ι} {tr o : List (ι × RecvEvent)} {e : RecvSystemOp ι}
    (h : ∀ i, Conserved (s.streams i) (callsOf i tr)) (hP : s.CancelsRead e) (hs : s.cleanStep e = some (s', o)) :
    ∀ i, Conserved (s'.streams i) (callsOf i (tr ++ o)) := by
  unfold cleanStep at hs
  split at hs
  swap
  · cases hs
  rename_i hok
  obtain ⟨rfl, rfl⟩ : s' = (s.step e).1 ∧ o = (s.step e).2 := by simp [Option.some.inj hs]
  intro i
  rw [callsOf_append]
  cases e with
  | stream j op =>
    by_cases hij : j = i
    · subst hij
      simp only [step, callsOf_own, Function.update_self]
      refine conserved_step (h j) hP fun e he => ?_
      simpa using all_eq_true.1 hok (j, e) (mem_map_of_mem he)
    · simp only [step, callsOf_other hij, Function.update_of_ne (Ne.symm hij), append_nil]
      exact h i
  | getWindowUpdate => simpa [step, callsOf, callsIn] using h i

/-- Receive credit is conserved exactly in the runs in which reading is called
off only on streams with nothing left unread. -/
theorem credit_conserved_iff (s : RecvSystem ι) (hs : s.IsNew) (es : List (RecvSystemOp ι)) :
    Always cleanStep CreditConserved s es ↔ Along cleanStep CancelsRead s es := by
  refine always_iff_along (fun (s : RecvSystem ι) tr => ∀ i, Conserved (s.streams i) (callsOf i tr))
    (fun _ _ _ _ _ h hP hstep => conserved_cleanStep h hP hstep) (fun _ _ h i hf => (h i).balanced hf) ?_ ?_
  · intro s tr e s' o h hstep hQ
    cases e with
    | getWindowUpdate => trivial
    | stream i op =>
      cases op with
      | cancelRead code =>
        by_cases hf : (s.streams i).state.isFinished
        · exact .inl hf
        have hnot : ¬ ((s.streams i).state.isTerminal ∨ (s.streams i).state = .resetRead) ∧
            (s.streams i).state.isReset = false := by
          cases hst : (s.streams i).state <;>
            simp_all [isFinished, isReset, isTerminal]
        -- The stream is finished now, so its totals agree; they were not changed.
        have hs' : (s'.streams i).state = .resetRead ∧ callsOf i (tr ++ o) = callsOf i tr := by
          simp only [cleanStep, step, ReceiveStream.step, map_nil, all_nil, if_true, Option.some.injEq,
            Prod.mk.injEq] at hstep
          obtain ⟨rfl, rfl⟩ := hstep
          simp [cancelRead, hnot.1]
        have hbal := hQ i (by rw [hs'.1]; rfl)
        rw [hs'.2, (h i).live hnot.2, (h i).total] at hbal
        exact .inr hbal
      | _ => trivial
  · intro i
    obtain ⟨id, initial, max, send, hi⟩ := hs.2 i
    rw [hi]
    exact conserved_new id initial max send

def oneStream : RecvSystem Unit where
  conn := newConnectionFlowController 0 0 0
  streams _ := newReceiveStream 0 (newStreamFlowController 0 true 0 0 0)

/-- A byte that is read before the stream is cancelled. -/
theorem credit_conserved_read :
    Always cleanStep CreditConserved oneStream
      [.stream () (.handleStreamFrame (fun _ => 0) 0 [7] false), .stream () (.read 4 false false),
        .stream () (.cancelRead 0)] :=
  (credit_conserved_iff oneStream ⟨⟨0, 0, 0, rfl⟩, fun _ => ⟨0, 0, 0, 0, rfl⟩⟩ _).2 (by decide +kernel)

/-- A byte that is received and not read when the stream is cancelled is never
given back. -/
theorem cancelRead_leaks :
    (run cleanStep oneStream
        [.stream () (.handleStreamFrame (fun _ => 0) 0 [7] false), .stream () (.cancelRead 0)]).map
      (fun r => ((r.1.streams ()).state, consumed (callsOf () r.2), received (callsOf () r.2))) =
        some (.resetRead, 0, 1) := by
  decide +kernel

end RecvSystem

end Mach.Quic.Stream
