import Mach.Quic.Stream.FlowControl
/-!
# The sending half of a stream

`send_stream.go`. First the methods, as functions on the stream's fields; then
the stream with the goroutine that writes to it (`Sender`), one step for each
section the code runs under the stream's lock `mu`.

`WriteWithLimit` takes `mu` twice in each round of its loop: to look at the
state and the credit, and later to append what the credit allowed. In between it
holds only `writeMu`, so any method that does not write may run. `WritePhase`
says where the writer is. `TryWriteAll` keeps `mu`, but the connection's counter
is not under it, so looking at the credit and spending it are two steps there too.

Left out: deadlines and contexts (a step says whether they have expired), the
wake-up channels (a blocked writer may always look again), priorities, and the
notifications to the connection apart from the one for completion.
-/

namespace Mach.Quic.Stream

open Lib

/-- Why a write returns before all is written. -/
inductive WriteError where
  | reset (err : StreamError)
  | shutdown (err : String)
  | streamClosed
  | deadline
  | context
  | writeLimitReached
  | wouldBlock
  deriving DecidableEq, Repr

/-- A STREAM frame's payload, as the packetizer gets it. -/
structure StreamFrame where
  data : List UInt8
  offset : Nat
  fin : Bool
  deriving DecidableEq, Repr

structure SendStream where
  streamID : Nat
  flowController : StreamFlowController
  state : SendState := .ready
  writeOffset : Nat := 0
  sentOffset : Nat := 0
  writeBuffer : List UInt8 := []
  finQueued : Bool := false
  finSent : Bool := false
  finalSize : Nat := 0
  resetQueued : Bool := false
  resetSent : Bool := false
  resetCode : Nat := 0
  resetFinalPos : Nat := 0
  resetErr : Option StreamError := none
  stopSendingReceived : Bool := false
  stopSendingCode : Nat := 0
  shutdownErr : Option String := none
  deriving DecidableEq, Repr

def newSendStream (streamID : Nat) (flowController : StreamFlowController) : SendStream := { streamID, flowController }

/-! ## Methods -/

namespace SendStream

/-- Why the stream takes no data, if so. -/
def refusal (s : SendStream) : Option WriteError :=
  match s.resetErr with
  | some err => some (.reset err)
  | none =>
    match s.shutdownErr with
    | some err => some (.shutdown err)
    | none => if s.state = .dataSent ∨ s.state = .dataRecvd then some .streamClosed else none

/-- The first locked section of `WriteWithLimit`: the stream's credit, the
connection's, and what may be written. -/
def checkWrite (s : SendStream) (connCredit : Nat) (expired ctxDone : Bool) : Except WriteError (Nat × Nat × Nat) :=
  match s.refusal with
  | some err => .error err
  | none =>
    if expired then .error .deadline
    else if ctxDone then .error .context
    else .ok (s.flowController.sendCreditAvailable connCredit)

/-- The appending section of `WriteWithLimit` and `TryWriteAll`. It does not
look at the state again. -/
def append (s : SendStream) (data : List UInt8) : SendStream × List ConnCall :=
  let fc := s.flowController.addBytesSent data.length
  ({ s with
      writeBuffer := s.writeBuffer ++ data
      writeOffset := u64 (s.writeOffset + data.length)
      flowController := fc.1
      state := if s.state = .ready then .send else s.state }, fc.2)

def close (s : SendStream) : SendStream × Option WriteError :=
  match s.resetErr with
  | some err => (s, some (.reset err))
  | none =>
    if s.state = .dataSent ∨ s.state = .dataRecvd then (s, none)
    else ({ s with finQueued := true, finalSize := s.writeOffset, state := .dataSent }, none)

/-- Abandons what is not sent yet and gives its credit back. -/
def abort (s : SendStream) (code : Nat) (remote : Bool) : SendStream × List ConnCall :=
  let fc := if s.sentOffset < s.writeOffset then s.flowController.reclaimBytesSent (s.writeOffset - s.sentOffset)
    else (s.flowController, [])
  ({ s with
      state := .resetSent
      resetQueued := true
      resetCode := code
      resetFinalPos := s.sentOffset
      flowController := fc.1
      writeBuffer := []
      resetErr := some ⟨s.streamID, code, remote⟩ }, fc.2)

def cancelWrite (s : SendStream) (code : Nat) : SendStream × List ConnCall :=
  if s.state.isTerminal ∨ s.state = .resetSent then (s, []) else s.abort code false

def handleStopSending (s : SendStream) (code : Nat) : SendStream × List ConnCall :=
  if s.state.isTerminal ∨ s.state = .resetSent then (s, [])
  else { s with stopSendingReceived := true, stopSendingCode := code }.abort code true

def updateSendWindow (s : SendStream) (limit : Nat) : SendStream :=
  { s with flowController := s.flowController.updateSendWindow limit }

def popStreamFrame (s : SendStream) (maxBytes : Int) : SendStream × Option StreamFrame :=
  if s.resetSent ∨ s.state = .resetSent ∨ s.state = .resetRecvd then (s, none)
  else if s.writeBuffer = [] ∧ (¬ s.finQueued ∨ s.finSent) then (s, none)
  else
    let take := (min (s.writeBuffer.length : Int) maxBytes).toNat
    let rest := s.writeBuffer.drop take
    let fin := s.finQueued && rest.isEmpty && !s.finSent
    ({ s with writeBuffer := rest, sentOffset := u64 (s.sentOffset + take), finSent := s.finSent || fin },
      some ⟨s.writeBuffer.take take, s.sentOffset, fin⟩)

/-- The second component says whether the stream is completed by this call. -/
def handleAck (s : SendStream) (allDataAcked : Bool) : SendStream × Bool :=
  if allDataAcked ∧ s.finSent ∧ s.state = .dataSent then ({ s with state := .dataRecvd }, true) else (s, false)

def handleResetAck (s : SendStream) : SendStream × Bool :=
  if s.state = .resetSent then ({ s with state := .resetRecvd }, true) else (s, false)

def getResetStreamFrame (s : SendStream) : SendStream × Option (Nat × Nat) :=
  if s.resetQueued then ({ s with resetSent := true }, some (s.resetCode, s.resetFinalPos)) else (s, none)

def getStreamDataBlockedFrame (s : SendStream) : SendStream × Option Nat :=
  let fc := s.flowController.getStreamDataBlockedFrame
  ({ s with flowController := fc.1 }, fc.2)

def closeForShutdown (s : SendStream) (err : String) : SendStream := { s with shutdownErr := some err }

end SendStream

/-- What `WriteWithLimit` appends in one round: what is left of the data, what
the credit allows and, if there is a limiter, what it answers. -/
def chunkLen (left effective : Nat) (limit : Option Int) : Nat :=
  let chunkLen := min left effective
  match limit with
  | none => chunkLen
  | some lim =>
    let lim := if lim < 0 then 0 else lim
    if lim < chunkLen then lim.toNat else chunkLen

/-! ## The stream and its writer -/

/-- Where the writer is. Everywhere but in `idle` it holds `writeMu`, and in
`trying` it also holds `mu`. -/
inductive WritePhase where
  | idle
  | looping (p : List UInt8) (totalWritten : Nat)
  | starved (p : List UInt8) (totalWritten streamCredit connCredit : Nat)
  | blocked (p : List UInt8) (totalWritten : Nat)
  | granted (p : List UInt8) (totalWritten effective : Nat)
  | trying (p : List UInt8)
  deriving DecidableEq

structure Sender where
  str : SendStream
  phase : WritePhase := .idle
  deriving DecidableEq

inductive SendOp where
  | writeWithLimit (p : List UInt8)
  | check (expired ctxDone : Bool)
  | queueBlocked
  | wake
  | giveUp (expired : Bool)
  | commit (limit : Option Int)
  | tryWriteAll (p : List UInt8)
  | tryCommit
  | close
  | cancelWrite (code : Nat)
  | handleStopSending (code : Nat)
  | popStreamFrame (maxBytes : Int)
  | handleAck (allDataAcked : Bool)
  | handleResetAck
  | getResetStreamFrame
  | getStreamDataBlockedFrame
  | updateSendWindow (limit : UInt64)
  | closeForShutdown (err : String)

/-- What a step does besides changing the stream. -/
inductive SendEvent where
  /-- Bytes were taken over into the write buffer. -/
  | accepted (data : List UInt8)
  /-- A write returned; `TryWriteAll` writes all or nothing. -/
  | returned (n : Nat) (err : Option WriteError)
  /-- `Close` queued the FIN, with this much written. -/
  | closed (writeOffset : Nat)
  | popped (f : StreamFrame)
  | resetFrame (code finalSize : Nat)
  | blockedFrame (offset : Nat)
  | completed
  | conn (call : ConnCall)
  deriving DecidableEq

namespace Sender

/-- The rounds of `WriteWithLimit` and `TryWriteAll`. -/
def writerStep (connCredit : Nat) (x : Sender) : SendOp → Option (Sender × List SendEvent)
  | .writeWithLimit p =>
    match x.phase with
    | .idle => some (if p = [] then (x, [.returned 0 none]) else ({ x with phase := .looping p 0 }, []))
    | _ => none
  | .check expired ctxDone =>
    match x.phase with
    | .looping p totalWritten =>
      match x.str.checkWrite connCredit expired ctxDone with
      | .error err => some ({ x with phase := .idle }, [.returned totalWritten (some err)])
      | .ok (streamCredit, connCredit, effective) =>
        some ({ x with phase :=
          if effective = 0 then .starved p totalWritten streamCredit connCredit
          else .granted p totalWritten effective }, [])
    | _ => none
  | .queueBlocked =>
    match x.phase with
    | .starved p totalWritten streamCredit connCredit =>
      let fc := x.str.flowController
      some ({ str := { x.str with flowController :=
                if streamCredit ≤ connCredit then fc.checkAndQueueStreamDataBlocked.1 else fc }
              phase := .blocked p totalWritten },
        if fc.connection ∧ connCredit ≤ streamCredit then [.conn .checkAndQueueDataBlocked] else [])
    | _ => none
  | .wake =>
    match x.phase with
    | .blocked p totalWritten => some ({ x with phase := .looping p totalWritten }, [])
    | _ => none
  | .giveUp expired =>
    match x.phase with
    | .blocked _ totalWritten =>
      some ({ x with phase := .idle }, [.returned totalWritten (some (if expired then .deadline else .context))])
    | _ => none
  | .commit limit =>
    match x.phase with
    | .granted p totalWritten effective =>
      let n := chunkLen p.length effective limit
      if n = 0 then some ({ x with phase := .idle }, [.returned totalWritten (some .writeLimitReached)])
      else
        let r := x.str.append (p.take n)
        let done := (p.drop n).isEmpty
        some ({ str := r.1, phase := if done then .idle else .looping (p.drop n) (totalWritten + n) },
          .accepted (p.take n) :: r.2.map .conn ++ if done then [.returned (totalWritten + n) none] else [])
    | _ => none
  | .tryWriteAll p =>
    match x.phase with
    | .idle =>
      if p = [] then some (x, [.returned 0 none])
      else
        match x.str.refusal with
        | some err => some (x, [.returned 0 (some err)])
        | none =>
          if (x.str.flowController.sendCreditAvailable connCredit).2.2 < p.length then
            some (x, [.returned 0 (some .wouldBlock)])
          else some ({ x with phase := .trying p }, [])
    | _ => none
  | .tryCommit =>
    match x.phase with
    | .trying p =>
      let r := x.str.append p
      some ({ str := r.1, phase := .idle }, .accepted p :: r.2.map .conn ++ [.returned p.length none])
    | _ => none
  | _ => none

/-- The methods that run under `mu` alone, and `UpdateSendWindow`, whose change
is not under `mu`. -/
def methodStep (x : Sender) : SendOp → Option (Sender × List SendEvent)
  | .cancelWrite code =>
    let r := x.str.cancelWrite code
    some ({ x with str := r.1 }, r.2.map .conn)
  | .handleStopSending code =>
    let r := x.str.handleStopSending code
    some ({ x with str := r.1 }, r.2.map .conn)
  | .popStreamFrame maxBytes =>
    let r := x.str.popStreamFrame maxBytes
    some ({ x with str := r.1 }, r.2.toList.map .popped)
  | .handleAck allDataAcked =>
    let r := x.str.handleAck allDataAcked
    some ({ x with str := r.1 }, if r.2 then [.completed] else [])
  | .handleResetAck =>
    let r := x.str.handleResetAck
    some ({ x with str := r.1 }, if r.2 then [.completed] else [])
  | .getResetStreamFrame =>
    let r := x.str.getResetStreamFrame
    some ({ x with str := r.1 }, r.2.toList.map fun f => .resetFrame f.1 f.2)
  | .getStreamDataBlockedFrame =>
    let r := x.str.getStreamDataBlockedFrame
    some ({ x with str := r.1 }, r.2.toList.map .blockedFrame)
  | .updateSendWindow limit => some ({ x with str := x.str.updateSendWindow limit.toNat }, [])
  | .closeForShutdown err => some ({ x with str := x.str.closeForShutdown err }, [])
  | _ => none

/-- One step. `connCredit` is the connection credit the step finds. -/
def step (connCredit : Nat) (x : Sender) (op : SendOp) : Option (Sender × List SendEvent) :=
  match op with
  | .close =>
    -- Needs `writeMu`, so no write is under way.
    if x.phase = .idle then
      let r := x.str.close
      some ({ x with str := r.1 }, if r.1.finQueued ∧ ¬ x.str.finQueued then [.closed x.str.writeOffset] else [])
    else none
  | .updateSendWindow _ | .getStreamDataBlockedFrame => x.methodStep op
  | .cancelWrite _ | .handleStopSending _ | .popStreamFrame _ | .handleAck _ | .handleResetAck
  | .getResetStreamFrame | .closeForShutdown _ =>
    match x.phase with
    | .trying _ => none
    | _ => x.methodStep op
  | _ => x.writerStep connCredit op

end Sender

end Mach.Quic.Stream
