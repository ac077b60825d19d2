import Mach.Quic.Stream.Id
/-!
# Flow controllers

`flowcontrol.go`. A connection controller and a stream controller do the same
bookkeeping for what is sent and for what is received, so each half is modelled
once (`SendSide`, `ReceiveSide`) and the two controllers are written with it.

A stream controller also reports to its connection's controller. Its methods
here return the calls they make on it (`ConnCall`), in order, for the system
around them to perform.

Left out: the channels that wake blocked writers. Whether auto-tuning grows the
window depends on the clock, the round-trip time and a callback; that decision
is the parameter `grow`.
-/

namespace Mach.Quic.Stream

open Lib

def defaultInitialStreamReceiveWindow : Nat := 512 * 1024
def defaultMaxStreamReceiveWindow : Nat := 6 * 1024 * 1024
def defaultInitialConnReceiveWindow : Nat := 512 * 1024
def defaultMaxConnReceiveWindow : Nat := 15 * 1024 * 1024

/-! ## The sending half -/

structure SendSide where
  bytesSent : Nat := 0
  sendWindow : Nat
  lastBlockedOffset : Nat := 0
  blockedQueued : Bool := false
  hasSentBlocked : Bool := false
  deriving DecidableEq, Repr

namespace SendSide

def credit (s : SendSide) : Nat := if s.bytesSent < s.sendWindow then s.sendWindow - s.bytesSent else 0

def addBytesSent (s : SendSide) (n : Nat) : SendSide := { s with bytesSent := u64 (s.bytesSent + n) }

def updateSendWindow (s : SendSide) (newLimit : Nat) : SendSide :=
  if s.sendWindow < newLimit then { s with sendWindow := newLimit, hasSentBlocked := false } else s

/-- Marks a blocked frame for sending, once for each limit. -/
def checkAndQueueBlocked (s : SendSide) : SendSide × Option Nat :=
  if s.sendWindow ≤ s.bytesSent ∧ ¬ s.hasSentBlocked then
    ({ s with hasSentBlocked := true, blockedQueued := true, lastBlockedOffset := s.sendWindow }, some s.sendWindow)
  else (s, none)

def getBlockedFrame (s : SendSide) : SendSide × Option Nat :=
  if s.blockedQueued then ({ s with blockedQueued := false, hasSentBlocked := true }, some s.lastBlockedOffset)
  else if s.sendWindow ≤ s.bytesSent ∧ ¬ s.hasSentBlocked then
    ({ s with hasSentBlocked := true, lastBlockedOffset := s.sendWindow }, some s.sendWindow)
  else (s, none)

def reclaimBytesSent (s : SendSide) (n : Nat) : SendSide :=
  { s with bytesSent := if n ≤ s.bytesSent then s.bytesSent - n else 0 }

end SendSide

/-! ## The receiving half -/

structure ReceiveSide where
  bytesRead : Nat := 0
  highestReceived : Nat := 0
  receiveWindow : Nat
  receiveWindowSize : Nat
  maxReceiveWindowSize : Nat
  windowUpdateQueued : Bool := false
  queuedWindowUpdate : Nat := 0
  epochStartOffset : Nat := 0
  deriving DecidableEq, Repr

namespace ReceiveSide

def addBytesRead (r : ReceiveSide) (n : Nat) : ReceiveSide := { r with bytesRead := u64 (r.bytesRead + n) }

def bytesRemaining (r : ReceiveSide) : Nat :=
  if r.bytesRead < r.receiveWindow then r.receiveWindow - r.bytesRead else 0

/-- `uint64(float64(size) * (1.0 - WindowUpdateThreshold))` with the threshold
at one half; exact below 2^53. -/
def threshold (r : ReceiveSide) : Nat := r.receiveWindowSize / 2

def maybeAdjustWindowSize (r : ReceiveSide) (grow : Bool) : ReceiveSide :=
  let bytesReadInEpoch := u64Sub r.bytesRead r.epochStartOffset
  if bytesReadInEpoch < r.receiveWindowSize / 2 then r
  else
    let newSize := min (u64 (2 * r.receiveWindowSize)) r.maxReceiveWindowSize
    { r with
      receiveWindowSize := if grow ∧ r.receiveWindowSize < newSize then newSize else r.receiveWindowSize
      epochStartOffset := r.bytesRead }

def checkAndQueueWindowUpdate (r : ReceiveSide) (grow : Bool) : ReceiveSide × Option Nat :=
  if r.threshold < r.bytesRemaining then
    (r, if r.windowUpdateQueued then some r.queuedWindowUpdate else none)
  else
    let r := r.maybeAdjustWindowSize grow
    let window := u64 (r.bytesRead + r.receiveWindowSize)
    ({ r with receiveWindow := window, queuedWindowUpdate := window, windowUpdateQueued := true }, some window)

def getWindowUpdate (r : ReceiveSide) : ReceiveSide × Option Nat :=
  if r.windowUpdateQueued then ({ r with windowUpdateQueued := false }, some r.queuedWindowUpdate) else (r, none)

def maybeGetWindowUpdate (r : ReceiveSide) (grow : Bool) : ReceiveSide × Option Nat :=
  if r.windowUpdateQueued then ({ r with windowUpdateQueued := false }, some r.queuedWindowUpdate)
  else if r.threshold < r.bytesRemaining then (r, none)
  else
    let r := r.maybeAdjustWindowSize grow
    let window := u64 (r.bytesRead + r.receiveWindowSize)
    ({ r with receiveWindow := window }, some window)

end ReceiveSide

/-! ## The connection controller -/

structure ConnectionFlowController where
  send : SendSide
  recv : ReceiveSide
  deriving DecidableEq, Repr

def newConnectionFlowController (initialReceiveWindow maxReceiveWindow initialSendWindow : Nat) :
    ConnectionFlowController :=
  let initial := if initialReceiveWindow = 0 then defaultInitialConnReceiveWindow else initialReceiveWindow
  let max := if maxReceiveWindow = 0 then defaultMaxConnReceiveWindow else maxReceiveWindow
  { send := { sendWindow := initialSendWindow }
    recv := { receiveWindow := initial, receiveWindowSize := initial, maxReceiveWindowSize := max } }

/-- A call a stream makes on its connection's controller. -/
inductive ConnCall where
  | checkAndQueueDataBlocked
  | addBytesSent (n : Nat)
  | reclaimBytesSent (n : Nat)
  | updateHighestReceived (streamIncrement : Nat)
  | addBytesRead (n : Nat)
  | checkAndQueueWindowUpdate (grow : Bool)
  deriving DecidableEq, Repr

namespace ConnectionFlowController

def sendCreditAvailable (c : ConnectionFlowController) : Nat := c.send.credit

def addBytesSent (c : ConnectionFlowController) (n : Nat) : ConnectionFlowController :=
  { c with send := c.send.addBytesSent n }

def updateSendWindow (c : ConnectionFlowController) (newLimit : Nat) : ConnectionFlowController :=
  { c with send := c.send.updateSendWindow newLimit }

def checkAndQueueDataBlocked (c : ConnectionFlowController) : ConnectionFlowController × Option Nat :=
  let r := c.send.checkAndQueueBlocked
  ({ c with send := r.1 }, r.2)

def getDataBlockedFrame (c : ConnectionFlowController) : ConnectionFlowController × Option Nat :=
  let r := c.send.getBlockedFrame
  ({ c with send := r.1 }, r.2)

def reclaimBytesSent (c : ConnectionFlowController) (n : Nat) : ConnectionFlowController :=
  { c with send := c.send.reclaimBytesSent n }

def updateHighestReceived (c : ConnectionFlowController) (streamIncrement : Nat) :
    ConnectionFlowController × Option TransportError :=
  let highestReceived := u64 (c.recv.highestReceived + streamIncrement)
  ({ c with recv := { c.recv with highestReceived } },
    if c.recv.receiveWindow < highestReceived then
      some ⟨.flowControlError,
        s!"connection flow control violation: received {highestReceived} > window {c.recv.receiveWindow}"⟩
    else none)

def addBytesRead (c : ConnectionFlowController) (n : Nat) : ConnectionFlowController :=
  { c with recv := c.recv.addBytesRead n }

def checkAndQueueWindowUpdate (c : ConnectionFlowController) (grow : Bool) : ConnectionFlowController × Option Nat :=
  let r := c.recv.checkAndQueueWindowUpdate grow
  ({ c with recv := r.1 }, r.2)

def getWindowUpdate (c : ConnectionFlowController) : ConnectionFlowController × Option Nat :=
  let r := c.recv.getWindowUpdate
  ({ c with recv := r.1 }, r.2)

def maybeGetWindowUpdate (c : ConnectionFlowController) (grow : Bool) : ConnectionFlowController × Option Nat :=
  let r := c.recv.maybeGetWindowUpdate grow
  ({ c with recv := r.1 }, r.2)

/-- Performs a call; only `updateHighestReceived` can fail. -/
def call (c : ConnectionFlowController) : ConnCall → ConnectionFlowController × Option TransportError
  | .checkAndQueueDataBlocked => (c.checkAndQueueDataBlocked.1, none)
  | .addBytesSent n => (c.addBytesSent n, none)
  | .reclaimBytesSent n => (c.reclaimBytesSent n, none)
  | .updateHighestReceived n => c.updateHighestReceived n
  | .addBytesRead n => (c.addBytesRead n, none)
  | .checkAndQueueWindowUpdate grow => ((c.checkAndQueueWindowUpdate grow).1, none)

def perform (c : ConnectionFlowController) (calls : List ConnCall) : ConnectionFlowController :=
  calls.foldl (fun c call => (c.call call).1) c

end ConnectionFlowController

/-! ## The stream controller -/

/-- `connection` says whether the stream belongs to a connection controller. -/
structure StreamFlowController where
  streamID : Nat
  connection : Bool
  send : SendSide
  recv : ReceiveSide
  deriving DecidableEq, Repr

def newStreamFlowController (streamID : Nat) (connection : Bool)
    (initialReceiveWindow maxReceiveWindow initialSendWindow : Nat) : StreamFlowController :=
  let initial := if initialReceiveWindow = 0 then defaultInitialStreamReceiveWindow else initialReceiveWindow
  let max := if maxReceiveWindow = 0 then defaultMaxStreamReceiveWindow else maxReceiveWindow
  { streamID, connection
    send := { sendWindow := initialSendWindow }
    recv := { receiveWindow := initial, receiveWindowSize := initial, maxReceiveWindowSize := max } }

namespace StreamFlowController

/-- Stream credit, connection credit and the smaller of the two; `connCredit` is
what the connection's controller answers. -/
def sendCreditAvailable (s : StreamFlowController) (connCredit : Nat) : Nat × Nat × Nat :=
  if s.connection then (s.send.credit, connCredit, min s.send.credit connCredit)
  else (s.send.credit, s.send.credit, s.send.credit)

def addBytesSent (s : StreamFlowController) (n : Nat) : StreamFlowController × List ConnCall :=
  ({ s with send := s.send.addBytesSent n }, if s.connection then [.addBytesSent n] else [])

def updateSendWindow (s : StreamFlowController) (newLimit : Nat) : StreamFlowController :=
  { s with send := s.send.updateSendWindow newLimit }

def checkAndQueueStreamDataBlocked (s : StreamFlowController) : StreamFlowController × Option Nat :=
  let r := s.send.checkAndQueueBlocked
  ({ s with send := r.1 }, r.2)

def getStreamDataBlockedFrame (s : StreamFlowController) : StreamFlowController × Option Nat :=
  let r := s.send.getBlockedFrame
  ({ s with send := r.1 }, r.2)

def reclaimBytesSent (s : StreamFlowController) (n : Nat) : StreamFlowController × List ConnCall :=
  ({ s with send := s.send.reclaimBytesSent n }, if s.connection then [.reclaimBytesSent n] else [])

/-- The highest offset is raised before it is checked, and the connection hears
of the increment only if the check passes. -/
def updateHighestReceived (s : StreamFlowController) (offset : Nat) :
    StreamFlowController × Except TransportError (List ConnCall) :=
  let increment := if s.recv.highestReceived < offset then offset - s.recv.highestReceived else 0
  let s' := { s with recv := { s.recv with highestReceived := max s.recv.highestReceived offset } }
  if s.recv.receiveWindow < offset then
    (s', .error ⟨.flowControlError,
      s!"stream {s.streamID} flow control violation: received {offset} > window {s.recv.receiveWindow}"⟩)
  else (s', .ok (if 0 < increment ∧ s.connection then [.updateHighestReceived increment] else []))

def addBytesRead (s : StreamFlowController) (n : Nat) : StreamFlowController × List ConnCall :=
  ({ s with recv := s.recv.addBytesRead n }, if s.connection then [.addBytesRead n] else [])

def checkAndQueueWindowUpdate (s : StreamFlowController) (grow : Bool) : StreamFlowController × Option Nat :=
  let r := s.recv.checkAndQueueWindowUpdate grow
  ({ s with recv := r.1 }, r.2)

def getWindowUpdate (s : StreamFlowController) : StreamFlowController × Option Nat :=
  let r := s.recv.getWindowUpdate
  ({ s with recv := r.1 }, r.2)

def maybeGetWindowUpdate (s : StreamFlowController) (grow : Bool) : StreamFlowController × Option Nat :=
  let r := s.recv.maybeGetWindowUpdate grow
  ({ s with recv := r.1 }, r.2)

end StreamFlowController

end Mach.Quic.Stream
