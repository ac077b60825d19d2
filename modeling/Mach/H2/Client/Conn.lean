import Mach.H2.Body
import Mach.Hpack.Codec
import Mach.Lib.Run
/-!
# The client's side of a connection

`Conn` has a read loop that handles the frames it receives, a write loop that
opens a stream for each request it takes from its queue, and callers that cancel
requests. The machine's steps are the parts of these that no other goroutine can
see inside of: what `Context.mu` protects is one step, but a stream's state may be
swapped between the look-up of a stream and the lock, between the lock and
`finish`, and between `writeRequest`'s first look at it and its opening.

The two tables of streams are one list here, searched from the front. How far the
DATA frames of a body may go is not this machine's matter: any number of octets
may be written at any time.
-/

namespace Mach.H2.ClientConn
open Lib Hpack Headkit

/-! ## State -/

inductive StreamState where
  | streamIdle | streamOpen | streamHalfClosed | streamClosed
  deriving DecidableEq, Repr

inductive Err where
  | frame (e : FrameError)
  | code (c : ErrorCode)
  | goAway (c : ErrorCode)
  | rst (code : Nat)
  | hpack (e : DecodeError)
  | payloadExceeds | controlFrameFlood | windowAboveLimits | invalidWindowIncrement
  deriving DecidableEq, Repr

/-- A request and its stream. Of the response only the status is kept. -/
structure Context where
  streamID : Nat := 0
  state : StreamState := .streamIdle
  /-- `Request` is not `nil`. -/
  request : Bool := true
  /-- The status code of `Response`, 0 before one is set; `none` where `Response` is `nil`. -/
  response : Option Nat := some 0
  hasBody : Bool := false
  isTunnel : Bool := false
  streamWindow : Int := 0
  streamRxWindow : Int := 0
  headersParsed : Bool := false
  trailersReceived : Bool := false
  endStreamPending : Bool := false
  deriving DecidableEq, Repr

/-- The DATA of a tunnel goes to its reader; a response without a status counts as 200. -/
def Context.isTunnelActive (ctx : Context) : Bool :=
  ctx.isTunnel && (ctx.response == none || ctx.response == some 0 || ctx.response == some 200)

inductive Reader where
  | next
  /-- The stream was found and is not closed; `readStream` comes next. -/
  | found (f : Frame) (b : Body) (r : Nat)
  /-- `readStream` has returned. -/
  | returned (f : Frame) (r : Nat) (err : Option Err)
  /-- The frame is handled; whether to shut down is left. -/
  | handled
  /-- A GOAWAY frame is handled; whether to close is left. -/
  | goneAway
  | stopped
  deriving DecidableEq, Repr

/-- Where the write loop is with a request. -/
inductive Writer where
  | idle
  /-- The checks of `writeRequest` are passed, under the lock of the context. -/
  | opening (r id : Nat)
  | headers (r id : Nat)
  | body (r id : Nat)
  deriving DecidableEq, Repr

structure Conn where
  current : Settings
  serverS : Settings
  enc : HPACK := {}
  dec : HPACK
  maxWindow : Int := 15663105
  currentWindow : Int := 15663105
  serverWindow : Int := 65535
  nextID : Nat := 1
  openStreams : Int := 0
  /-- The contexts, by reference. -/
  ctxs : Nat → Context := fun _ => {}
  /-- How many references have been handed out. -/
  refs : Nat := 0
  /-- The channel `in`: requests for the write loop. -/
  queue : List Nat := []
  /-- The references in the stream table. -/
  table : List Nat := []
  continuationStream : Nat := 0
  headerBuf : List UInt8 := []
  consecutiveControlFrames : Nat := 0
  closed : Bool := false
  inClosed : Bool := false
  reader : Reader := .next
  writer : Writer := .idle
  /-- The calls of `CancelStream` that have closed their context and not returned. -/
  cancels : List Nat := []

inductive Obs where
  /-- The read loop handles a frame; one that is refused on the connection is not handled. -/
  | recv (f : Frame)
  /-- A WINDOW_UPDATE frame is queued for sending. -/
  | queued (streamID increment : Nat)
  /-- A request's stream is opened. -/
  | opened (streamID : Nat)
  /-- A stream ends: by END_STREAM, an error, a reset, a cancellation or a purge. -/
  | ended (streamID : Nat)
  deriving DecidableEq, Repr

/-- Whether `updateWindow` gets its frame into the queue in time, for a stream and for the connection. -/
structure Queue where
  stream : Bool
  conn : Bool
  deriving DecidableEq, Repr

namespace Conn

def setCtx (c : Conn) (r : Nat) (ctx : Context) : Conn := { c with ctxs := Function.update c.ctxs r ctx }

def getStream (c : Conn) (streamID : Nat) : Option Nat := c.table.find? fun r => (c.ctxs r).streamID == streamID

def storeStream (c : Conn) (r : Nat) : Conn := { c with table := c.table ++ [r] }

def deleteStream (c : Conn) (streamID : Nat) : Conn :=
  { c with table := c.table.eraseP fun r => (c.ctxs r).streamID == streamID }

def close (c : Conn) : Conn := { c with closed := true, inClosed := true }

/-- The end of the read loop. -/
def stop (c : Conn) : Conn := { c.close with reader := .stopped }

/-- `Context.Close` with the count that follows it where it returns true. -/
def closeCtx (c : Conn) (r : Nat) : Conn :=
  { c.setCtx r { c.ctxs r with state := .streamClosed } with
    openStreams := if (c.ctxs r).state = .streamClosed then c.openStreams else c.openStreams - 1 }

def canOpenStream (c : Conn) : Bool :=
  -- `MaxStreams` is a `uint32`, compared as an `int32`.
  let maxStreams : Int := if c.serverS.maxStreams < 2 ^ 31 then c.serverS.maxStreams else c.serverS.maxStreams - 2 ^ 32
  c.nextID < 2 ^ 31 - 1 && c.openStreams < maxStreams

/-! ## Receive windows -/

def updateWindow (c : Conn) (streamID : Nat) (size : Int) (queued : Bool) : List Obs :=
  if size ≤ 0 ∨ c.closed then [] else if queued then [.queued streamID size.toNat] else []

/-- Takes `dataLen` off `currentWindow`, and refills it when it falls below the half. -/
def chargeConn (c : Conn) (dataLen : Nat) (queued : Bool) : Conn × List Obs :=
  let currentWindow := c.currentWindow - dataLen
  if currentWindow < c.maxWindow / 2 then
    ({ c with currentWindow := c.maxWindow }, c.updateWindow 0 (c.maxWindow - currentWindow) queued)
  else ({ c with currentWindow }, [])

/-- Takes `dataLen` off `streamRxWindow`, and refills it when it falls below the half. -/
def chargeStream (c : Conn) (r streamID dataLen : Nat) (queued : Bool) : Conn × List Obs :=
  let ctx := c.ctxs r
  let streamRxWindow := ctx.streamRxWindow - dataLen
  if streamRxWindow < 3145728 then
    (c.setCtx r { ctx with streamRxWindow := 6291456 }, c.updateWindow streamID (6291456 - streamRxWindow) queued)
  else (c.setCtx r { ctx with streamRxWindow }, [])

/-! ## Header blocks -/

def defaultMaxHeaderListSize : Nat := 10 * 1024 * 1024

def maxList (c : Conn) : Nat := if c.current.headerSize = 0 then defaultMaxHeaderListSize else c.current.headerSize

/-- `ParseInt` of a status, where it lies between 100 and 599; the sign may be a plus. -/
def parseStatus (v : List UInt8) : Option Nat :=
  let digits := if v.head? = some 43 then v.tail else v
  if digits = [] ∨ digits.any (fun c => c < 48 || 57 < c) then none
  else
    let n := digits.foldl (fun n c => 10 * n + (c.toNat - 48)) 0
    if n < 100 ∨ 599 < n then none else some n

/-- What the loops over the fields of a block keep. -/
structure Progress where
  statusCode : Nat := 0
  hasStatus : Bool := false
  hasRegularHeader : Bool := false
  totalSize : Nat := 0
  deriving DecidableEq, Repr

/-- The body of the loop of `readHeader`. -/
def responseField (maxList : Nat) (p : Progress) (hf : HeaderField) : Except Err Progress :=
  let totalSize := (p.totalSize + hf.size) % 2 ^ 32
  if maxList < totalSize then .error .payloadExceeds
  else if validateHeaderName hf.key (isPseudo hf.key) = false then .error (.code .protocolError)
  else if validateHeaderValue hf.value = false then .error (.code .protocolError)
  else if isPseudo hf.key then
    if p.hasRegularHeader then .error (.code .protocolError)
    else if hf.key ≠ ascii ":status" then .error (.code .protocolError)
    else if p.hasStatus then .error (.code .protocolError)
    else
      match parseStatus hf.value with
      | none => .error (.code .protocolError)
      | some statusCode => .ok { p with totalSize, statusCode, hasStatus := true }
  else if isConnectionSpecificHeader hf.key hf.value then .error (.code .protocolError)
  else .ok { p with totalSize, hasRegularHeader := true }

/-- The body of the loop of `readTrailers`. -/
def trailerField (maxList : Nat) (p : Progress) (hf : HeaderField) : Except Err Progress :=
  let totalSize := (p.totalSize + hf.size) % 2 ^ 32
  if maxList < totalSize then .error .payloadExceeds
  else if isPseudo hf.key then .error (.code .protocolError)
  else if validateHeaderName hf.key false = false then .error (.code .protocolError)
  else if validateHeaderValue hf.value = false then .error (.code .protocolError)
  else if isConnectionSpecificHeader hf.key hf.value then .error (.code .protocolError)
  else .ok { p with totalSize }

/-- The loop over the fields of a block, each handed to `field`; the field read last is reused for the next one.
`fuel` bounds the rounds: each takes an octet at least. -/
def readFields (field : Progress → HeaderField → Except Err Progress) :
    Nat → HPACK → HeaderField → Progress → List UInt8 → HPACK × Progress × Option Err
  | fuel + 1, dec, hf, p, x :: rest =>
    match dec.next hf (x :: rest) with
    | (dec, .error e) => (dec, p, some (.hpack e))
    | (dec, .ok (hf, b)) =>
      if hf.isEmpty then readFields field fuel dec hf p b
      else
        match field p hf with
        | .error e => (dec, p, some e)
        | .ok p => readFields field fuel dec hf p b
  | _, dec, _, p, _ => (dec, p, none)

def readHeader (c : Conn) (b : List UInt8) : Conn × Progress × Option Err :=
  let (dec, p, err) := readFields (responseField c.maxList) b.length c.dec.beginHeaderBlock {} {} b
  ({ c with dec }, p, if err = none ∧ p.hasStatus = false then some (.code .protocolError) else err)

def readTrailers (c : Conn) (b : List UInt8) : Conn × Option Err :=
  let (dec, _, err) := readFields (trailerField c.maxList) b.length c.dec.beginHeaderBlock {} {} b
  ({ c with dec }, err)

def isFinal (statusCode : Nat) : Bool := statusCode < 100 || 200 ≤ statusCode || statusCode == 101

/-- The fragment of a HEADERS or CONTINUATION frame: the whole block where it is complete. -/
def collect (c : Conn) (f : Frame) (fragment : List UInt8) : Conn × Option (List UInt8) :=
  if f.isEndHeaders = false then
    ({ c with continuationStream := f.streamID, headerBuf := c.headerBuf ++ fragment }, none)
  else if c.continuationStream ≠ 0 then
    ({ c with continuationStream := 0, headerBuf := c.headerBuf ++ fragment }, some (c.headerBuf ++ fragment))
  else (c, some fragment)

/-- A HEADERS or CONTINUATION frame of a stream that is gone: the block goes to a throw-away response. -/
def deadHeaders (c : Conn) (f : Frame) (fragment : List UInt8) : Conn :=
  match c.collect f fragment with
  | (c, none) => c
  | (c, some block) =>
    match c.readHeader block with
    | (c, _, none) => { c with headerBuf := [] }
    | (c, _, some _) => { c with headerBuf := [] }.stop

/-- A HEADERS or CONTINUATION frame of a live stream. -/
def liveHeaders (c : Conn) (f : Frame) (fragment : List UInt8) (r : Nat) : Conn × Option Err :=
  match c.collect f fragment with
  | (c, none) => (c, none)
  | (c, some block) =>
    let ctx := c.ctxs r
    if ctx.headersParsed then
      if ctx.trailersReceived then ({ c with headerBuf := [] }, some (.code .protocolError))
      else
        match c.readTrailers block with
        | (c, some e) => ({ c with headerBuf := [] }, some e)
        | (c, none) => ({ c with headerBuf := [] }.setCtx r { ctx with trailersReceived := true }, none)
    else
      match c.readHeader block with
      | (c, p, err) =>
        let response := if p.hasStatus = true ∧ isFinal p.statusCode then some p.statusCode else ctx.response
        let headersParsed := err == none && isFinal p.statusCode
        ({ c with headerBuf := [] }.setCtx r { ctx with response, headersParsed }, err)

/-! ## PUSH_PROMISE -/

/-- The loop of `decodePushHeaders`, which keeps the method. -/
def pushFields : Nat → HPACK → HeaderField → List UInt8 → List UInt8 → HPACK × List UInt8 × Option Err
  | fuel + 1, dec, hf, method, x :: rest =>
    match dec.next hf (x :: rest) with
    | (dec, .error e) => (dec, method, some (.hpack e))
    | (dec, .ok (hf, b)) => pushFields fuel dec hf (if hf.key = ascii ":method" then hf.value else method) b
  | _, dec, _, method, _ => (dec, method, none)

/-- The stream of a promised response goes into the table. -/
def storePush (c : Conn) (promisedID : Nat) : Conn :=
  let ctx : Context := { streamID := promisedID, state := .streamOpen }
  { c.setCtx c.refs ctx with refs := c.refs + 1 }.storeStream c.refs

def handlePushPromise (c : Conn) (promisedID : Nat) (header : List UInt8) : Conn × Option Err :=
  if c.current.enablePush = false then (c, none)
  else if promisedID = 0 ∨ promisedID % 2 ≠ 0 then (c, some (.goAway .protocolError))
  else
    let (dec, method, err) := pushFields header.length c.dec {} [] header
    let c := { c with dec }
    match err with
    | some e => (c, some e)
    | none =>
      -- A request without a method is a GET.
      if method ∉ [[], ascii "GET", ascii "HEAD"] then (c, none) else (c.storePush promisedID, none)

/-! ## SETTINGS and WINDOW_UPDATE -/

/-- Adds `delta` to the send windows of the streams, up to the first one that would overflow. -/
def shiftWindows (delta : Int) : List Nat → (Nat → Context) → (Nat → Context) × Bool
  | [], ctxs => (ctxs, true)
  | r :: rs, ctxs =>
    if 2 ^ 31 - 1 < (ctxs r).streamWindow + delta then (ctxs, false)
    else
      shiftWindows delta rs
        (Function.update ctxs r { ctxs r with streamWindow := (ctxs r).streamWindow + delta })

def handleSettings (c : Conn) (st : Settings) : Conn × Option Err :=
  let delta : Int := st.windowSize - c.serverS.windowSize
  if delta = 0 then ({ c with serverS := st, enc := c.enc.setMaxTableSize st.tableSize }, none)
  else
    match shiftWindows delta c.table c.ctxs with
    | (ctxs, false) => ({ c with ctxs }, some .windowAboveLimits)
    | (ctxs, true) => ({ c with ctxs, serverS := st, enc := c.enc.setMaxTableSize st.tableSize }, none)

def handleWindowUpdate (c : Conn) (streamID increment : Nat) : Conn × Option Err :=
  if increment = 0 then (c, some .invalidWindowIncrement)
  else if streamID = 0 then
    if 2 ^ 31 - 1 < c.serverWindow + increment then (c, some .windowAboveLimits)
    else ({ c with serverWindow := c.serverWindow + increment }, none)
  else
    match c.getStream streamID with
    | none => (c, none)
    | some r =>
      let ctx := c.ctxs r
      if 2 ^ 31 - 1 < ctx.streamWindow + increment then (c, some .windowAboveLimits)
      else (c.setCtx r { ctx with streamWindow := ctx.streamWindow + increment }, none)

/-! ## The read loop -/

/-- A context of the table that `purgeStreamsAfterID` takes out. -/
def purged (c : Conn) (lastStreamID r : Nat) : Bool := lastStreamID < (c.ctxs r).streamID

def handleGoAway (c : Conn) (lastStreamID : Nat) : Conn × List Obs :=
  ({ c with
      table := c.table.filter fun r => !c.purged lastStreamID r
      inClosed := true
      reader := .goneAway },
    (c.table.filter (c.purged lastStreamID)).map fun r => .ended (c.ctxs r).streamID)

/-- `handleConnectionFrame`: a frame on stream 0. -/
def handleConnectionFrame (c : Conn) : Body → Conn × Option Err × List Obs
  | .settings st =>
    if st.ack then (c, none, [])
    else
      let (c, err) := c.handleSettings st
      (c, err, [])
  | .windowUpdate increment =>
    let (c, err) := c.handleWindowUpdate 0 increment
    (c, err, [])
  | .goAway lastStreamID _ =>
    let (c, out) := c.handleGoAway lastStreamID
    (c, none, out)
  | _ => (c, none, [])

def maxConsecutiveControlFrames : Nat := 1000

/-- A CONTINUATION frame without a block to continue, or another frame inside of a block. -/
def misplaced (c : Conn) (f : Frame) : Bool :=
  if c.continuationStream ≠ 0 then f.type != 0x9 || f.streamID != c.continuationStream else f.type == 0x9

/-- `consecutiveControlFrames` with this frame. -/
def controlFrames (c : Conn) (f : Frame) : Nat :=
  if f.type = 0x0 ∨ f.type = 0x1 ∨ f.type = 0x9 then 0 else c.consecutiveControlFrames + 1

/-- The checks of `readNext` on a frame, before it is handled. -/
def checkFrame (c : Conn) (f : Frame) : Except Err (Conn × Body) :=
  match f.body with
  | .error e => .error (.frame e)
  | .ok b =>
    if c.misplaced f then .error (.code .protocolError)
    else if maxConsecutiveControlFrames < c.controlFrames f then .error .controlFrameFlood
    else .ok ({ c with consecutiveControlFrames := c.controlFrames f }, b)

/-- A frame of a stream that is not in the table, or closed. -/
def readDead (c : Conn) (f : Frame) (q : Queue) : Body → Conn × List Obs
  | .headers fragment => (c.deadHeaders f fragment, [])
  | .continuation fragment => (c.deadHeaders f fragment, [])
  | .data _ => c.chargeConn f.payload.length q.conn
  | _ => (c, [])

def readData (c : Conn) (f : Frame) (data : List UInt8) (r : Nat) (q : Queue) : Conn × Option Err × List Obs :=
  let ctx := c.ctxs r
  if ctx.trailersReceived then (c, some (.code .protocolError), [])
  else
    let (c, out) :=
      if ctx.isTunnelActive || data != [] then c.chargeStream r f.streamID f.payload.length q.stream else (c, [])
    let (c, out') := c.chargeConn f.payload.length q.conn
    (c, none, out ++ out')

/-- `readStream`, under the lock of the context. -/
def readStream (c : Conn) (f : Frame) (r : Nat) (q : Queue) (b : Body) : Conn × Option Err × List Obs :=
  let ctx := c.ctxs r
  if ctx.state = .streamClosed ∨ ctx.response = none then
    -- The stream was closed since it was found; the fragment is decoded by itself.
    match b with
    | .headers fragment | .continuation fragment =>
      let (c, _, err) := c.readHeader fragment
      (c, err, [])
    | _ => (c, none, [])
  else
    match b with
    | .headers fragment | .continuation fragment =>
      let (c, err) := c.liveHeaders f fragment r
      (c, err, [])
    | .pushPromise promisedID header =>
      let (c, err) := c.handlePushPromise promisedID header
      (c, err, [])
    | .data data => c.readData f data r q
    | .rstStream code => (c, some (.rst code), [])
    | .windowUpdate increment =>
      let (c, err) := c.handleWindowUpdate f.streamID increment
      (c, err, [])
    | _ => (c, none, [])

def finish (c : Conn) (r streamID : Nat) : Conn × List Obs :=
  ((c.closeCtx r).deleteStream streamID, [.ended streamID])

/-- What the read loop does when `readStream` has returned. -/
def settle (c : Conn) (f : Frame) (r : Nat) : Option Err → Conn × List Obs
  | some _ => (c.setCtx r { c.ctxs r with state := .streamClosed }).finish r f.streamID
  | none =>
    if f.isEndStream then
      if c.continuationStream ≠ 0 then (c.setCtx r { c.ctxs r with endStreamPending := true }, [])
      else c.finish r f.streamID
    else if c.continuationStream = 0 ∧ (c.ctxs r).endStreamPending then c.finish r f.streamID
    else (c, [])

/-- A frame is read off the connection, and the stream is looked up. -/
def recv (c : Conn) (f : Frame) (q : Queue) : Conn × List Obs :=
  match c.checkFrame f with
  | .error _ => (c.stop, [])
  | .ok (c, b) =>
    if f.streamID = 0 then
      match c.handleConnectionFrame b with
      | (c, none, out) => (c, .recv f :: out)
      | (c, some _, out) => (c.stop, out)
    else
      let dead :=
        let (c, out) := c.readDead f q b
        (c, .recv f :: out)
      match c.getStream f.streamID with
      | none => dead
      | some r => if (c.ctxs r).state = .streamClosed then dead else ({ c with reader := .found f b r }, [])

def readStep (c : Conn) (q : Queue) : Option (Conn × List Obs) :=
  match c.reader with
  | .next | .stopped => none
  | .found f b r =>
    let (c, err, out) := c.readStream f r q b
    some ({ c with reader := .returned f r err }, .recv f :: out)
  | .returned f r err =>
    let (c, out) := c.settle f r err
    some ({ c with reader := .handled }, out)
  | .handled => some (if c.inClosed ∧ c.openStreams ≤ 0 then c.stop else { c with reader := .next }, [])
  | .goneAway => some ({ (if c.openStreams ≤ 0 then c.close else c) with reader := .next }, [])

/-! ## The write loop -/

/-- `writeRequest` up to the new stream's id. -/
def beginRequest (c : Conn) (r : Nat) : Conn :=
  let ctx := c.ctxs r
  if ctx.state = .streamClosed ∨ ctx.request = false then c
  else if c.canOpenStream = false then c
  else if 2 ^ 31 - 1 ≤ c.nextID then { c.close with nextID := c.nextID + 2 }
  else { c with nextID := c.nextID + 2, writer := .opening r c.nextID }

/-- The rest of what `writeRequest` does under the lock of the context. -/
def openRequest (c : Conn) (r id : Nat) : Conn :=
  let ctx := c.ctxs r
  let maxWin := c.serverS.windowSize
  let initWin := if 0 < maxWin ∧ maxWin ≤ 0x7fffffff then maxWin else 65535
  let ctx := { ctx with
    streamID := id
    state := if ctx.hasBody = false ∧ ctx.isTunnel = false then .streamHalfClosed else .streamOpen
    streamWindow := initWin
    streamRxWindow := 6291456 }
  { (c.setCtx r ctx).storeStream r with openStreams := c.openStreams + 1, writer := .headers r id }

/-- The way out of `writeRequest` when a write has failed. -/
def abandon (c : Conn) (r id : Nat) : Conn × List Obs :=
  ({ (c.deleteStream id).closeCtx r with writer := .idle }, [.ended id])

/-- A step of `writeRequest` once it has begun; `ok` says whether what it writes is written. -/
def writeStep (c : Conn) (ok : Bool) : Option (Conn × List Obs) :=
  match c.writer with
  | .idle => none
  | .opening r id => some (c.openRequest r id, [.opened id])
  | .headers r id =>
    if ok then some ({ c with writer := if (c.ctxs r).hasBody then .body r id else .idle }, [])
    else some (c.abandon r id)
  | .body r id => if ok then some ({ c with writer := .idle }, []) else some (c.abandon r id)

/-! ## Cancellation -/

/-- `CancelStream` up to the lock. -/
def cancel (c : Conn) (r : Nat) : Conn :=
  if (c.ctxs r).state = .streamClosed then c
  else { c.setCtx r { c.ctxs r with state := .streamClosed } with cancels := r :: c.cancels }

/-- The rest of `CancelStream`. -/
def cancelStep (c : Conn) (r : Nat) : Conn × List Obs :=
  let streamID := (c.ctxs r).streamID
  let c := { c.setCtx r { c.ctxs r with request := false, response := none } with cancels := c.cancels.erase r }
  if streamID = 0 then (c, [])
  else ({ c.deleteStream streamID with openStreams := c.openStreams - 1 }, [.ended streamID])

/-- A request that was submitted, whose caller holds the context. -/
def isRequest (c : Conn) (r : Nat) : Bool :=
  r < c.refs && ((c.ctxs r).streamID == 0 || (c.ctxs r).streamID % 2 == 1)

/-- The write loop holds the lock of the context. -/
def locked (c : Conn) (r : Nat) : Bool :=
  match c.writer with
  | .opening r' _ => r' == r
  | _ => false

end Conn

/-! ## Runs -/

/-- A connection after the handshake: what the client advertised, and the first SETTINGS of the server. -/
def newConn (current serverS : Settings) : Conn :=
  { current, serverS
    enc := HPACK.setMaxTableSize {} serverS.tableSize
    dec := if 0 < current.tableSize then HPACK.setMaxCapacity {} current.tableSize else {} }

inductive Label where
  | submit (hasBody isTunnel : Bool)
  /-- The write loop takes a request from the queue. -/
  | write
  | writeStep (ok : Bool)
  /-- `writeRequest` encodes a field of a request. -/
  | encode (hf : HeaderField) (store : Bool)
  /-- `n` octets of DATA are written for a request. -/
  | sent (r n : Nat)
  | cancel (r : Nat)
  | cancelStep (r : Nat)
  | recv (f : Frame) (q : Queue)
  | readStep (q : Queue)
  | readError
  | close
  deriving DecidableEq, Repr

def step (c : Conn) : Label → Option (Conn × List Obs)
  | .submit hasBody isTunnel =>
    if c.inClosed then none
    else some ({ c.setCtx c.refs { hasBody, isTunnel } with refs := c.refs + 1, queue := c.queue ++ [c.refs] }, [])
  | .write =>
    match c.writer, c.queue with
    | .idle, r :: queue => some ({ c with queue }.beginRequest r, [])
    | _, _ => none
  | .writeStep ok => c.writeStep ok
  | .encode hf store => some ({ c with enc := (c.enc.appendHeader [] hf store).1 }, [])
  | .sent r n =>
    let ctx := c.ctxs r
    some ({ c.setCtx r { ctx with streamWindow := ctx.streamWindow - n } with serverWindow := c.serverWindow - n }, [])
  | .cancel r => if c.isRequest r then some (c.cancel r, []) else none
  | .cancelStep r => if r ∈ c.cancels ∧ c.locked r = false then some (c.cancelStep r) else none
  | .recv f q => if c.reader = .next then some (c.recv f q) else none
  | .readStep q => c.readStep q
  | .readError => if c.reader = .next then some (c.stop, []) else none
  | .close => some (c.close, [])

end Mach.H2.ClientConn
