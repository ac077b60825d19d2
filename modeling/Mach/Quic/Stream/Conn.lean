import Mach.Quic.Stream.Id
/-!
# The streams of a connection

`conn.go`: which streams exist, who opened them, and how those the peer opened
reach the application. A stream object is known here by its address (the how
manieth object it is) and its ID; `heap` lists all ever made. What happens inside
a stream is in `SendStream.lean` and `ReceiveStream.lean`: a frame handler says
which stream gets the frame (`Routed`), and a stream that is done reports it
(`onStreamCompleted`), a bidirectional one once both halves have
(`onHalfCompleted` in `stream.go`).

What the code keeps twice, for bidirectional and unidirectional streams, is a
`Lane`. Left out: flow control windows, addresses and waiting openers; the
`Sync` variants of the open calls run the same locked section when it succeeds.
-/

namespace Mach.Quic.Stream

open Lib StreamID

structure StreamRef where
  addr : Nat
  id : Nat
  deriving DecidableEq, Repr

/-- `sendCompleted`, `recvCompleted` and `streamComplete` of a bidirectional
stream; a unidirectional one does not use them. -/
structure StreamObj where
  id : Nat
  sendCompleted : Bool := false
  recvCompleted : Bool := false
  streamComplete : Bool := false
  deriving DecidableEq, Repr

/-! ## Accepting -/

/-- The counters, limits and accept queues of one direction. -/
structure Lane where
  nextLocalStreamNum : Nat := 1
  maxPeerStreams : Nat
  maxLocalStreams : Nat
  acceptCap : Nat
  acceptCh : List StreamRef := []
  acceptQueue : List StreamRef := []
  deriving DecidableEq, Repr

/-- The loop that moves streams from the overflow queue into the channel. -/
def refill (cap : Nat) : List StreamRef → List StreamRef → List StreamRef × List StreamRef
  | ch, [] => (ch, [])
  | ch, str :: queue => if ch.length < cap then refill cap (ch ++ [str]) queue else (ch, str :: queue)

inductive AcceptResult where
  | stream (str : StreamRef)
  | connClosed
  /-- The caller's context has expired, or there is nothing to accept yet. -/
  | none
  deriving DecidableEq, Repr

namespace Lane

/-- `enqueueBidiStreamLocked` and `enqueueUniStreamLocked`. -/
def enqueue (l : Lane) (str : StreamRef) : Lane :=
  if l.acceptQueue ≠ [] then { l with acceptQueue := l.acceptQueue ++ [str] }
  else if l.acceptCh.length < l.acceptCap then { l with acceptCh := l.acceptCh ++ [str] }
  else { l with acceptQueue := l.acceptQueue ++ [str] }

/-- `AcceptStream` and `AcceptUniStream`. -/
def accept (l : Lane) (closed ctxDone : Bool) : Lane × AcceptResult :=
  if closed ∧ l.acceptQueue = [] then (l, .connClosed)
  else
    match l.acceptQueue with
    | str :: queue =>
      let r := refill l.acceptCap l.acceptCh queue
      ({ l with acceptCh := r.1, acceptQueue := r.2 }, .stream str)
    | [] =>
      if ctxDone then (l, .none)
      else
        match l.acceptCh with
        | str :: ch => ({ l with acceptCh := ch }, .stream str)
        | [] => (l, .none)

end Lane

/-! ## The connection -/

structure ConnConfig where
  perspective : Perspective
  initialMaxStreamsBidi : Nat
  initialMaxStreamsUni : Nat
  initialPeerMaxStreamsBidi : Nat
  initialPeerMaxStreamsUni : Nat

structure Conn where
  perspective : Perspective
  heap : List StreamObj := []
  bidiStreams : Nat → Option StreamRef := fun _ => none
  sendStreams : Nat → Option StreamRef := fun _ => none
  recvStreams : Nat → Option StreamRef := fun _ => none
  closedStreams : Nat → Bool := fun _ => false
  lanes : Direction → Lane
  closed : Bool := false

def orDefault (n : Nat) : Nat := if n = 0 then 100 else n

def newConn (cfg : ConnConfig) : Conn where
  perspective := cfg.perspective
  lanes
    | .bidi => { maxPeerStreams := orDefault cfg.initialPeerMaxStreamsBidi
                 maxLocalStreams := orDefault cfg.initialMaxStreamsBidi
                 acceptCap := orDefault cfg.initialMaxStreamsBidi }
    | .uni => { maxPeerStreams := orDefault cfg.initialPeerMaxStreamsUni
                maxLocalStreams := orDefault cfg.initialMaxStreamsUni
                acceptCap := orDefault cfg.initialMaxStreamsUni }

inductive ConnError where
  | connClosed
  | transport (err : TransportError)
  deriving DecidableEq, Repr

inductive Routed where
  | stream (str : StreamRef)
  | ignored
  | refused (err : ConnError)
  deriving DecidableEq, Repr

inductive ConnEvent where
  | opened (id : Nat)
  | created (id : Nat)
  | accepted (id : Nat)
  | completed (id : Nat)
  | maxStreams (d : Direction) (n : Nat)
  | routed (r : Routed)
  | failed (err : ConnError)
  deriving DecidableEq, Repr

namespace Conn

def setLane (c : Conn) (d : Direction) (l : Lane) : Conn := { c with lanes := Function.update c.lanes d l }

def createBidiStreamLocked (c : Conn) (id : Nat) : Conn × StreamRef :=
  let str : StreamRef := ⟨c.heap.length, id⟩
  ({ c with heap := c.heap ++ [{ id }], bidiStreams := Function.update c.bidiStreams id (some str) }, str)

def createSendStream (c : Conn) (id : Nat) : Conn × StreamRef :=
  let str : StreamRef := ⟨c.heap.length, id⟩
  ({ c with heap := c.heap ++ [{ id }], sendStreams := Function.update c.sendStreams id (some str) }, str)

def createReceiveStream (c : Conn) (id : Nat) : Conn × StreamRef :=
  let str : StreamRef := ⟨c.heap.length, id⟩
  ({ c with heap := c.heap ++ [{ id }], recvStreams := Function.update c.recvStreams id (some str) }, str)

/-- Opens the next stream of a direction, if the peer's limit allows it. -/
def openNext (c : Conn) (d : Direction) (create : Conn → Nat → Conn × StreamRef) (msg : String) :
    Conn × List ConnEvent :=
  let l := c.lanes d
  if c.closed then (c, [.failed .connClosed])
  else if l.maxPeerStreams ≤ l.nextLocalStreamNum - 1 then (c, [.failed (.transport ⟨.streamLimitError, msg⟩)])
  else
    let id := newStreamID (localType c.perspective d) l.nextLocalStreamNum
    ((create (c.setLane d { l with nextLocalStreamNum := u64 (l.nextLocalStreamNum + 1) }) id).1, [.opened id])

def openStream (c : Conn) : Conn × List ConnEvent :=
  c.openNext .bidi createBidiStreamLocked "peer bidirectional stream limit exceeded"

def openUniStream (c : Conn) : Conn × List ConnEvent :=
  c.openNext .uni createSendStream "peer unidirectional stream limit exceeded"

/-- A stream the peer has opened: it is made and queued for the application. -/
def acceptNew (c : Conn) (d : Direction) (create : Conn → Nat → Conn × StreamRef) (id : Nat) :
    Conn × List ConnEvent :=
  let r := create c id
  (r.1.setLane d ((r.1.lanes d).enqueue r.2), [.created id, .routed (.stream r.2)])

def refuse (c : Conn) (code : TransportErrorCode) (msg : String) : Conn × List ConnEvent :=
  (c, [.routed (.refused (.transport ⟨code, msg⟩))])

def handleStreamFrame (c : Conn) (id : Nat) : Conn × List ConnEvent :=
  if c.closed then (c, [.routed (.refused .connClosed)])
  else if isBidi id then
    match c.bidiStreams id with
    | some str => (c, [.routed (.stream str)])
    | none =>
      if c.closedStreams id then (c, [.routed .ignored])
      else if ¬ isPeerInitiated c.perspective id then
        if streamNum id < (c.lanes .bidi).nextLocalStreamNum then (c, [.routed .ignored])
        else c.refuse .streamStateError s!"received frame for non-existent locally-initiated stream {id}"
      else if (c.lanes .bidi).maxLocalStreams < streamNum id then
        let max := (c.lanes .bidi).maxLocalStreams
        c.refuse .streamLimitError s!"peer stream {id} exceeded max bidirectional streams {max}"
      else c.acceptNew .bidi createBidiStreamLocked id
  else if c.closedStreams id then (c, [.routed .ignored])
  else if ¬ isPeerInitiated c.perspective id then
    if streamNum id < (c.lanes .uni).nextLocalStreamNum then (c, [.routed .ignored])
    else c.refuse .streamStateError s!"received stream frame for outbound-only uni stream {id}"
  else
    match c.recvStreams id with
    | some str => (c, [.routed (.stream str)])
    | none =>
      if (c.lanes .uni).maxLocalStreams < streamNum id then
        let max := (c.lanes .uni).maxLocalStreams
        c.refuse .streamLimitError s!"peer stream {id} exceeded max unidirectional streams {max}"
      else c.acceptNew .uni createReceiveStream id

/-- The limit is checked before the stream is looked up, unlike for STREAM frames. -/
def handleResetStreamFrame (c : Conn) (id : Nat) : Conn × List ConnEvent :=
  let peer := isPeerInitiated c.perspective id
  if c.closed then (c, [.routed (.refused .connClosed)])
  else if peer ∧ isBidi id ∧ (c.lanes .bidi).maxLocalStreams < streamNum id then
    let max := (c.lanes .bidi).maxLocalStreams
    c.refuse .streamLimitError s!"RESET_STREAM for stream {id} exceeded max bidirectional streams {max}"
  else if peer ∧ ¬ isBidi id ∧ (c.lanes .uni).maxLocalStreams < streamNum id then
    let max := (c.lanes .uni).maxLocalStreams
    c.refuse .streamLimitError s!"RESET_STREAM for stream {id} exceeded max unidirectional streams {max}"
  else if isBidi id then
    match c.bidiStreams id with
    | some str => (c, [.routed (.stream str)])
    | none =>
      if c.closedStreams id then (c, [.routed .ignored])
      else if peer then c.acceptNew .bidi createBidiStreamLocked id
      else (c, [.routed .ignored])
  else
    match c.recvStreams id with
    | some str => (c, [.routed (.stream str)])
    | none =>
      if c.closedStreams id then (c, [.routed .ignored])
      else if peer then c.acceptNew .uni createReceiveStream id
      else (c, [.routed .ignored])

def handleMaxStreamsFrame (c : Conn) (st : StreamType) (maxStreams : Nat) : Conn × List ConnEvent :=
  let l := c.lanes st.direction
  (if l.maxPeerStreams < maxStreams then c.setLane st.direction { l with maxPeerStreams := maxStreams } else c,
    [.maxStreams st.direction maxStreams])

def acceptFrom (c : Conn) (d : Direction) (ctxDone : Bool) : Conn × List ConnEvent :=
  let r := (c.lanes d).accept c.closed ctxDone
  (c.setLane d r.1,
    match r.2 with
    | .stream str => [.accepted str.id]
    | .connClosed => [.failed .connClosed]
    | .none => [])

def acceptStream (c : Conn) (ctxDone : Bool) : Conn × List ConnEvent := c.acceptFrom .bidi ctxDone

def acceptUniStream (c : Conn) (ctxDone : Bool) : Conn × List ConnEvent := c.acceptFrom .uni ctxDone

def onStreamCompleted (c : Conn) (id : Nat) : Conn × List ConnEvent :=
  ({ c with
      bidiStreams := Function.update c.bidiStreams id none
      sendStreams := Function.update c.sendStreams id none
      recvStreams := Function.update c.recvStreams id none
      closedStreams := Function.update c.closedStreams id true }, [.completed id])

/-- Both halves of a bidirectional stream must be done before the connection
hears of it, and it hears of it once. -/
def onHalfCompleted (c : Conn) (addr : Nat) (obj : StreamObj) (isSend : Bool) : Conn × List ConnEvent :=
  let obj := if isSend then { obj with sendCompleted := true } else { obj with recvCompleted := true }
  let complete := obj.sendCompleted && obj.recvCompleted && !obj.streamComplete
  let c := { c with heap := c.heap.set addr { obj with streamComplete := obj.streamComplete || complete } }
  if complete then c.onStreamCompleted obj.id else (c, [])

def closeWithError (c : Conn) : Conn := { c with closed := true }

end Conn

/-! ## Runs -/

inductive ConnOp where
  | openStream
  | openUniStream
  | handleStreamFrame (id : UInt64)
  | handleResetStreamFrame (id : UInt64)
  | handleMaxStreamsFrame (st : StreamType) (maxStreams : Nat)
  | acceptStream (ctxDone : Bool)
  | acceptUniStream (ctxDone : Bool)
  /-- The stream object at `addr`, or one half of it, is done. -/
  | completed (addr : Nat) (isSend : Bool)
  | closeWithError

/-- One call. Only a stream that has been made can report that it is done. -/
def Conn.step (c : Conn) : ConnOp → Option (Conn × List ConnEvent)
  | .openStream => some c.openStream
  | .openUniStream => some c.openUniStream
  | .handleStreamFrame id => some (c.handleStreamFrame id.toNat)
  | .handleResetStreamFrame id => some (c.handleResetStreamFrame id.toNat)
  | .handleMaxStreamsFrame st maxStreams => some (c.handleMaxStreamsFrame st maxStreams)
  | .acceptStream ctxDone => some (c.acceptStream ctxDone)
  | .acceptUniStream ctxDone => some (c.acceptUniStream ctxDone)
  | .completed addr isSend =>
    match c.heap[addr]? with
    | none => none
    | some obj =>
      some (if isBidi obj.id then c.onHalfCompleted addr obj isSend else c.onStreamCompleted obj.id)
  | .closeWithError => some (c.closeWithError, [])

end Mach.Quic.Stream
