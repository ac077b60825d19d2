import Mach.Quic.Stream.FlowControl
import Mach.Quic.Stream.Reassembly
/-!
# The receiving half of a stream

`receive_stream.go`, one function for each method. A method that talks to the
connection's controller returns the calls it makes on it; `answer` is what the
controller says to one.

`Read` is modelled by one round of its loop. Left out: deadlines and contexts (a
round says whether they have expired), the channel that wakes a blocked reader,
`Peek`, and the final size callback. The window update that `Read` and
`HandleResetStreamFrame` trigger after they release the lock is a method of its
own, `maybeTriggerWindowUpdate`.
-/

namespace Mach.Quic.Stream

open Lib

structure ReceiveStream where
  streamID : Nat
  flowController : StreamFlowController
  reassembly : ReassemblyBuffer := newReassemblyBuffer
  state : RecvState := .recv
  finalSizeKnown : Bool := false
  stopSendingQueued : Bool := false
  stopSendingCode : Nat := 0
  cancelErr : Option StreamError := none
  shutdownErr : Option String := none

def newReceiveStream (streamID : Nat) (flowController : StreamFlowController) : ReceiveStream :=
  { streamID, flowController }

inductive ReadResult where
  | data (bytes : List UInt8) (eof : Bool)
  | eof
  | cancelled (err : StreamError)
  | shutdown (err : String)
  | deadline
  | context
  /-- Nothing to read yet: the reader waits and starts over. -/
  | waits
  deriving DecidableEq

namespace ReceiveStream

variable (answer : ConnCall → Option TransportError)

/-- The stream's flow control check, and then the connection's. -/
def updateHighestReceived (s : ReceiveStream) (offset : Nat) : ReceiveStream × List ConnCall × Option TransportError :=
  match s.flowController.updateHighestReceived offset with
  | (fc, .error err) => ({ s with flowController := fc }, [], some err)
  | (fc, .ok calls) => ({ s with flowController := fc }, calls, calls.findSome? answer)

/-- All bytes up to the final size can be read. -/
def allContiguous (b : ReassemblyBuffer) : Prop := i64 (u64Sub b.finalSize b.readOffset) ≤ b.availableContiguous

instance (b : ReassemblyBuffer) : Decidable (allContiguous b) := inferInstanceAs (Decidable (_ ≤ _))

def noteFrame (s : ReceiveStream) (fin : Bool) : ReceiveStream :=
  if fin ∧ ¬ s.finalSizeKnown then
    { s with finalSizeKnown := true, state := if allContiguous s.reassembly then .dataRecvd else .sizeKnown }
  else if s.state = .sizeKnown then
    { s with state := if allContiguous s.reassembly then .dataRecvd else s.state }
  else s

def handleStreamFrame (s : ReceiveStream) (stale : Nat → UInt8) (offset : Nat) (data : List UInt8) (fin : Bool) :
    ReceiveStream × List ConnCall × Option TransportError :=
  if s.state.isTerminal ∨ s.state = .resetRecvd then (s, [], none)
  else
    match s.updateHighestReceived answer (u64 (offset + data.length)) with
    | (s, calls, some err) => (s, calls, some err)
    | (s, calls, none) =>
      match s.reassembly.push stale offset data fin with
      | (b, some err) => ({ s with reassembly := b }, calls, some err)
      | (b, none) => (noteFrame { s with reassembly := b } fin, calls, none)

def handleResetStreamFrame (s : ReceiveStream) (code finalSize : Nat) :
    ReceiveStream × List ConnCall × Option TransportError :=
  if s.state.isTerminal ∨ s.state = .resetRecvd then (s, [], none)
  else if s.finalSizeKnown ∧ finalSize ≠ s.reassembly.finalSize then
    (s, [], some ⟨.finalSizeError,
      s!"RESET_STREAM final size {finalSize} mismatch with previously known size {s.reassembly.finalSize}"⟩)
  else if finalSize < s.reassembly.highestOffset then
    (s, [], some ⟨.finalSizeError,
      s!"RESET_STREAM final size {finalSize} < highest received offset {s.reassembly.highestOffset}"⟩)
  else
    match s.updateHighestReceived answer finalSize with
    | (s, calls, some err) => (s, calls, some err)
    | (s, calls, none) =>
      -- The bytes that will never be read count as read.
      let fc := if s.reassembly.readOffset < finalSize then
          s.flowController.addBytesRead (finalSize - s.reassembly.readOffset)
        else (s.flowController, [])
      ({ s with
          finalSizeKnown := true
          reassembly := s.reassembly.setFinalSize finalSize
          flowController := fc.1
          state := .resetRecvd
          cancelErr := some ⟨s.streamID, code, true⟩ }, calls ++ fc.2, none)

/-- The locked section of one round of `Read` into a buffer of `n` bytes. -/
def read (s : ReceiveStream) (n : Nat) (expired ctxDone : Bool) : ReceiveStream × List ConnCall × ReadResult :=
  if n = 0 then (s, [], .data [] false)
  else
    match s.cancelErr, s.shutdownErr with
    | some err, _ => (s, [], .cancelled err)
    | none, some err => (s, [], .shutdown err)
    | none, none =>
      if s.state = .dataRead ∨ s.reassembly.isAllDataRead then (s, [], .eof)
      else if expired then (s, [], .deadline)
      else if ctxDone then (s, [], .context)
      else
        let r := s.reassembly.read n
        if 0 < r.2.1.length then
          let fc := s.flowController.addBytesRead r.2.1.length
          ({ s with
              reassembly := r.1
              flowController := fc.1
              state := if r.1.isAllDataRead then .dataRead else s.state }, fc.2, .data r.2.1 r.2.2)
        else if r.2.2 then ({ s with reassembly := r.1, state := .dataRead }, [], .eof)
        else ({ s with reassembly := r.1 }, [], .waits)

/-- Whether the round calls `OnStreamCompleted` after it has released the lock. -/
def readCompletes (s : ReceiveStream) (n : Nat) (expired ctxDone : Bool) : Bool :=
  if n = 0 then false
  else
    match s.cancelErr, s.shutdownErr with
    | some _, _ => false
    | none, some _ => false
    | none, none =>
      if s.state = .dataRead ∨ s.reassembly.isAllDataRead then false
      else if expired then false
      else if ctxDone then false
      else
        let r := s.reassembly.read n
        if 0 < r.2.1.length then r.1.isAllDataRead else r.2.2

/-- Stops reading. What has been received and not read is not counted as read. -/
def cancelRead (s : ReceiveStream) (code : Nat) : ReceiveStream :=
  if s.state.isTerminal ∨ s.state = .resetRead then s
  else
    { s with
      state := .resetRead
      stopSendingQueued := true
      stopSendingCode := code
      cancelErr := some ⟨s.streamID, code, false⟩ }

def maybeTriggerWindowUpdate (s : ReceiveStream) (grow growConn : Bool) : ReceiveStream × List ConnCall :=
  ({ s with flowController := (s.flowController.checkAndQueueWindowUpdate grow).1 },
    if s.flowController.connection then [.checkAndQueueWindowUpdate growConn] else [])

def getWindowUpdate (s : ReceiveStream) : ReceiveStream × Option Nat :=
  let r := s.flowController.getWindowUpdate
  ({ s with flowController := r.1 }, r.2)

def getStopSendingFrame (s : ReceiveStream) : ReceiveStream × Option Nat :=
  if s.stopSendingQueued then ({ s with stopSendingQueued := false }, some s.stopSendingCode) else (s, none)

def closeForShutdown (s : ReceiveStream) (err : String) : ReceiveStream := { s with shutdownErr := some err }

end ReceiveStream

/-! ## Streams of one connection -/

inductive RecvOp where
  | handleStreamFrame (stale : Nat → UInt8) (offset : Nat) (data : List UInt8) (fin : Bool)
  | handleResetStreamFrame (code finalSize : Nat)
  | read (n : Nat) (expired ctxDone : Bool)
  | cancelRead (code : Nat)
  | maybeTriggerWindowUpdate (grow growConn : Bool)
  | getWindowUpdate
  | getStopSendingFrame
  | closeForShutdown (err : String)

inductive RecvEvent where
  | conn (call : ConnCall)
  | failed (err : TransportError)
  | read (result : ReadResult)
  | windowUpdate (limit : Nat)
  | stopSending (code : Nat)

/-- One call on a stream, with the connection's answers. -/
def ReceiveStream.step (answer : ConnCall → Option TransportError) (s : ReceiveStream) :
    RecvOp → ReceiveStream × List RecvEvent
  | .handleStreamFrame stale offset data fin =>
    let r := s.handleStreamFrame answer stale offset data fin
    (r.1, r.2.1.map .conn ++ r.2.2.toList.map .failed)
  | .handleResetStreamFrame code finalSize =>
    let r := s.handleResetStreamFrame answer code finalSize
    (r.1, r.2.1.map .conn ++ r.2.2.toList.map .failed)
  | .read n expired ctxDone =>
    let r := s.read n expired ctxDone
    (r.1, r.2.1.map .conn ++ [.read r.2.2])
  | .cancelRead code => (s.cancelRead code, [])
  | .maybeTriggerWindowUpdate grow growConn =>
    let r := s.maybeTriggerWindowUpdate grow growConn
    (r.1, r.2.map .conn)
  | .getWindowUpdate => let r := s.getWindowUpdate; (r.1, r.2.toList.map .windowUpdate)
  | .getStopSendingFrame => let r := s.getStopSendingFrame; (r.1, r.2.toList.map .stopSending)
  | .closeForShutdown err => (s.closeForShutdown err, [])

structure RecvSystem (ι : Type) where
  conn : ConnectionFlowController
  streams : ι → ReceiveStream

def RecvEvent.call? : RecvEvent → Option ConnCall
  | .conn call => some call
  | _ => none

/-- A call on stream `i`, or the connection's own window update being sent. -/
inductive RecvSystemOp (ι : Type) where
  | stream (i : ι) (op : RecvOp)
  | getWindowUpdate

def RecvSystem.step {ι : Type} [DecidableEq ι] (s : RecvSystem ι) : RecvSystemOp ι → RecvSystem ι × List (ι × RecvEvent)
  | .stream i op =>
    let r := (s.streams i).step (fun call => (s.conn.call call).2) op
    (⟨s.conn.perform (r.2.filterMap RecvEvent.call?), Function.update s.streams i r.1⟩, r.2.map fun e => (i, e))
  | .getWindowUpdate => ({ s with conn := s.conn.getWindowUpdate.1 }, [])

end Mach.Quic.Stream
