import Mach.H2.Frame
import Mach.Hpack.Codec
import Mach.Lib.Run
/-!
# The server's side of a connection

`ServerConn` handles the callbacks of the frame parser in its read loop, starts a
goroutine for each request, and writes frames from both under one lock. A step of
the machine is one callback, or one call a request's goroutine makes on the
connection; the writes to the socket are taken to succeed.

The tables of the sixteen shards are one map here, since a stream's shard is a
function of its id.
-/

namespace Mach.H2.Server
open Lib Hpack Headkit

/-! ## State -/

inductive StreamState where
  | streamOpen | streamHalfClosedRemote | streamClosed
  deriving DecidableEq, Repr

structure ServerStream where
  id : Nat
  method : List UInt8 := []
  path : List UInt8 := []
  scheme : List UInt8 := []
  authority : List UInt8 := []
  protocol : List UInt8 := []
  headers : List (List UInt8 × List UInt8) := []
  headerBlock : List UInt8 := []
  body : List UInt8 := []
  endHeaders : Bool
  endStream : Bool
  state : StreamState := .streamOpen
  sendWindow : Int
  recvUnacked : Nat := 0
  isTunnel : Bool := false
  deriving DecidableEq, Repr

def ServerStream.isExtConnect (st : ServerStream) : Bool := st.method == ascii "CONNECT" && st.protocol != []

/-- A goroutine of `dispatchStream`. -/
structure Dispatch where
  id : Nat
  isExtConnect : Bool
  isTunnel : Bool
  adapterClosed : Bool := false
  /-- The handler has returned and its response is written; the deferred calls are left. -/
  responded : Bool := false
  deriving DecidableEq, Repr

structure ServerConn where
  hpackDec : HPACK := {}
  hpackEnc : HPACK := { disableDynamicTable := true }
  streams : Nat → Option ServerStream := fun _ => none
  running : List Dispatch := []
  peerMaxFrameSize : Nat := 16384
  peerInitialWin : Int := 65535
  maxStreamID : Nat := 0
  continuationStream : Nat := 0
  isClosed : Bool := false
  connSendWindow : Int := 65535
  connRecvUnacked : Nat := 0
  enableConnectProtocol : Bool := true

inductive Out where
  | settingsAck
  | pingAck (data : List UInt8)
  | windowUpdate (streamID increment : Nat)
  | rstStream (streamID : Nat) (code : ErrorCode)
  | goAway (lastStreamID : Nat) (code : ErrorCode)
  | headers (streamID : Nat) (block : List UInt8) (endStream : Bool)
  | data (streamID : Nat) (payload : List UInt8) (endStream : Bool)
  deriving DecidableEq, Repr

namespace ServerConn

def putStream (sc : ServerConn) (streamID : Nat) (st : ServerStream) : ServerConn :=
  { sc with streams := Function.update sc.streams streamID (some st) }

def deleteStream (sc : ServerConn) (streamID : Nat) : ServerConn :=
  { sc with streams := Function.update sc.streams streamID none }

def closeWithGoAway (sc : ServerConn) (code : ErrorCode) : ServerConn × List Out :=
  ({ sc with isClosed := true }, [.goAway sc.maxStreamID code])

def startStream (sc : ServerConn) (st : ServerStream) : ServerConn :=
  let st := { st with state := if st.isExtConnect then .streamOpen else .streamHalfClosedRemote }
  { sc.putStream st.id st with running := sc.running ++ [⟨st.id, st.isExtConnect, st.isTunnel, false, false⟩] }

/-! ## DATA -/

def minWindowUpdateBatch : Nat := 32768

/-- The credit that is due after `n` more octets, and what stays owed. -/
def batch (unacked n : Nat) : Nat × Nat :=
  if minWindowUpdateBatch ≤ unacked + n then (unacked + n, 0) else (0, unacked + n)

def sendBatchedWindowUpdates (connInc streamID stInc : Nat) : List Out :=
  (if 0 < connInc then [.windowUpdate 0 connInc] else []) ++ if 0 < stInc then [.windowUpdate streamID stInc] else []

def replenishReceiveWindow (sc : ServerConn) (st : ServerStream) (consumed : Nat) :
    ServerConn × ServerStream × List Out :=
  if consumed = 0 ∨ sc.isClosed then (sc, st, [])
  else
    let (connInc, connRecvUnacked) := batch sc.connRecvUnacked consumed
    let (stInc, recvUnacked) := if st.endStream then (0, st.recvUnacked) else batch st.recvUnacked consumed
    ({ sc with connRecvUnacked }, { st with recvUnacked }, sendBatchedWindowUpdates connInc st.id stInc)

/-- DATA for a stream that is gone or half-closed: the connection's credit is returned at once. -/
def rejectData (sc : ServerConn) (streamID : Nat) (payload : List UInt8) : List Out :=
  (if 0 < payload.length ∧ sc.isClosed = false then [.windowUpdate 0 payload.length] else []) ++
    [.rstStream streamID .streamClosedError]

def onStreamData (sc : ServerConn) (streamID : Nat) (payload : List UInt8) (endStream : Bool) : ServerConn × List Out :=
  if sc.continuationStream ≠ 0 then sc.closeWithGoAway .protocolError
  else if sc.maxStreamID < streamID then sc.closeWithGoAway .protocolError
  else
    match sc.streams streamID with
    | none => (sc, sc.rejectData streamID payload)
    | some st =>
      if st.state = .streamHalfClosedRemote ∨ st.state = .streamClosed then (sc, sc.rejectData streamID payload)
      else if st.isTunnel then
        let (sc, st, out) := sc.replenishReceiveWindow st payload.length
        (sc.putStream streamID { st with endStream := st.endStream || endStream }, out)
      else
        let (sc, st, out) := sc.replenishReceiveWindow { st with body := st.body ++ payload } payload.length
        if endStream then (sc.startStream { st with endStream := true }, out) else (sc.putStream streamID st, out)

/-! ## HEADERS and CONTINUATION -/

/-- The checks on one decoded field, and what the request takes from it; `seen` says whether a regular field came
before. -/
def acceptField (st : ServerStream) (seen : Bool) (k v : List UInt8) : Except ErrorCode (ServerStream × Bool) :=
  if validateHeaderName k (isPseudo k) = false then .error .protocolError
  else if validateHeaderValue v = false then .error .protocolError
  else if isPseudo k then
    if seen then .error .protocolError
    else if k = ascii ":method" then
      if st.method ≠ [] then .error .protocolError else .ok ({ st with method := v }, seen)
    else if k = ascii ":path" then
      if st.path ≠ [] then .error .protocolError else .ok ({ st with path := v }, seen)
    else if k = ascii ":scheme" then
      if st.scheme ≠ [] then .error .protocolError else .ok ({ st with scheme := v }, seen)
    else if k = ascii ":authority" then
      if st.authority ≠ [] then .error .protocolError else .ok ({ st with authority := v }, seen)
    else if k = ascii ":protocol" then
      if st.protocol ≠ [] then .error .protocolError else .ok ({ st with protocol := v }, seen)
    else .error .protocolError
  else if isConnectionSpecificHeader k v then .error .protocolError
  else .ok ({ st with headers := st.headers ++ [(k, v)] }, true)

/-- The loop over the fields of a block. `fuel` bounds the rounds: each takes an octet at least. -/
def headerFields : Nat → HPACK → ServerStream → Bool → List UInt8 → HPACK × ServerStream × Option ErrorCode
  | fuel + 1, hp, st, seen, c :: rest =>
    match hp.next {} (c :: rest) with
    | (hp, .error _) => (hp, st, some .compressionError)
    | (hp, .ok (hf, rawBlock)) =>
      if hf.isEmpty then headerFields fuel hp st seen rawBlock
      else
        match acceptField st seen hf.key hf.value with
        | .error e => (hp, st, some e)
        | .ok (st, seen) => headerFields fuel hp st seen rawBlock
  | _, hp, st, _, _ => (hp, st, none)

/-- The checks on the pseudo-header fields of a whole request. -/
def requestError (st : ServerStream) (enableConnectProtocol : Bool) : Option ErrorCode :=
  if st.method = [] then some .protocolError
  else if st.method = ascii "CONNECT" then
    if st.protocol ≠ [] then
      if enableConnectProtocol = false then some .protocolError
      else if st.scheme = [] ∨ st.path = [] ∨ st.authority = [] then some .protocolError
      else none
    else if st.scheme ≠ [] ∨ st.path ≠ [] ∨ st.authority = [] then some .protocolError
    else none
  else if st.protocol ≠ [] then some .protocolError
  else if st.scheme = [] ∨ st.path = [] then some .protocolError
  else none

def finishHeaderBlock (sc : ServerConn) (st : ServerStream) : ServerConn × Option ErrorCode :=
  let (hpackDec, st, err) :=
    headerFields st.headerBlock.length sc.hpackDec.beginHeaderBlock st false st.headerBlock
  let sc := { sc with hpackDec }.putStream st.id st
  match err with
  | some e => (sc, some e)
  | none =>
    match requestError st sc.enableConnectProtocol with
    | some e => (sc, some e)
    | none => (if st.endStream || st.isExtConnect then sc.startStream st else sc, none)

/-- What follows a finished header block: a malformed request resets its stream, any other error ends the
connection. -/
def endHeaderBlock (sc : ServerConn) (st : ServerStream) : ServerConn × List Out :=
  match sc.finishHeaderBlock st with
  | (sc, none) => (sc, [])
  | (sc, some .protocolError) => (sc.deleteStream st.id, [.rstStream st.id .protocolError])
  | (sc, some code) => sc.closeWithGoAway code

def newServerStream (sc : ServerConn) (streamID : Nat) (endHeaders endStream : Bool) : ServerStream :=
  { id := streamID, endHeaders, endStream, sendWindow := sc.peerInitialWin }

def onHeaders (sc : ServerConn) (streamID : Nat) (payload : List UInt8) (endHeaders endStream : Bool) :
    ServerConn × List Out :=
  if sc.continuationStream ≠ 0 then sc.closeWithGoAway .protocolError
  else if streamID = 0 ∨ streamID % 2 = 0 then sc.closeWithGoAway .protocolError
  else if streamID ≤ sc.maxStreamID then sc.closeWithGoAway .protocolError
  else
    let sc := { sc with
      maxStreamID := streamID
      continuationStream := if endHeaders then sc.continuationStream else streamID }
    let st := { sc.newServerStream streamID endHeaders endStream with headerBlock := payload }
    let sc := sc.putStream streamID st
    if endHeaders then sc.endHeaderBlock st else (sc, [])

def onContinuation (sc : ServerConn) (streamID : Nat) (payload : List UInt8) (endHeaders : Bool) :
    ServerConn × List Out :=
  if sc.continuationStream = 0 ∨ sc.continuationStream ≠ streamID then sc.closeWithGoAway .protocolError
  else
    match sc.streams streamID with
    | none => sc.closeWithGoAway .protocolError
    | some st =>
      if 65536 < st.headerBlock.length + payload.length then sc.closeWithGoAway .enhanceYourCalm
      else
        let st := { st with headerBlock := st.headerBlock ++ payload }
        if endHeaders then { sc with continuationStream := 0 }.endHeaderBlock { st with endHeaders := true }
        else (sc.putStream streamID st, [])

/-! ## SETTINGS, WINDOW_UPDATE and the rest -/

/-- The ids of the streams in the table, shard by shard. A shard's map is walked in some order, here the one of the
ids; the order matters only if a window overflows on the way, and the connection closes then. -/
def streamIDs (sc : ServerConn) : List Nat :=
  (List.range 16).flatMap fun shard =>
    (List.range (sc.maxStreamID + 1)).filter fun id => (sc.streams id).isSome && id / 2 % 16 == shard

/-- Adds `delta` to the send windows of the streams, up to the first one that would overflow. -/
def shiftWindows (delta : Int) : List Nat → (Nat → Option ServerStream) → (Nat → Option ServerStream) × Bool
  | [], streams => (streams, true)
  | id :: ids, streams =>
    match streams id with
    | none => shiftWindows delta ids streams
    | some st =>
      if 2 ^ 31 - 1 < st.sendWindow + delta then (streams, false)
      else
        shiftWindows delta ids (Function.update streams id (some { st with sendWindow := st.sendWindow + delta }))

/-- One parameter of a SETTINGS frame, and the error that ends the connection. -/
def applySetting (sc : ServerConn) (id val : Nat) : ServerConn × Option ErrorCode :=
  if id = 1 then ({ sc with hpackDec := sc.hpackDec.setMaxTableSize val }, none)
  else if id = 2 then (sc, if val ≠ 0 ∧ val ≠ 1 then some .protocolError else none)
  else if id = 4 then
    if 0x7fffffff < val then (sc, some .flowControlError)
    else
      let (streams, ok) := shiftWindows (val - sc.peerInitialWin) sc.streamIDs sc.streams
      ({ sc with peerInitialWin := val, streams }, if ok then none else some .flowControlError)
  else if id = 5 then
    if val < 16384 ∨ 16777215 < val then (sc, some .protocolError) else ({ sc with peerMaxFrameSize := val }, none)
  else (sc, none)

def applySettings : ServerConn → List UInt8 → ServerConn × Option ErrorCode
  | sc, a :: b :: c :: d :: e :: f :: rest =>
    match sc.applySetting (beNat [a, b]) (beNat [c, d, e, f]) with
    | (sc, some code) => (sc, some code)
    | (sc, none) => applySettings sc rest
  | sc, _ => (sc, none)

def onSettings (sc : ServerConn) (payload : List UInt8) (ack : Bool) : ServerConn × List Out :=
  if sc.continuationStream ≠ 0 then sc.closeWithGoAway .protocolError
  else if ack then if 0 < payload.length then sc.closeWithGoAway .frameSizeError else (sc, [])
  else if payload.length % 6 ≠ 0 then sc.closeWithGoAway .frameSizeError
  else
    match sc.applySettings payload with
    | (sc, some code) => sc.closeWithGoAway code
    | (sc, none) => (sc, [.settingsAck])

def onPing (sc : ServerConn) (payload : List UInt8) (ack : Bool) : ServerConn × List Out :=
  if sc.continuationStream ≠ 0 then sc.closeWithGoAway .protocolError
  else if ack then (sc, [])
  else (sc, [.pingAck (payload.take 8)])

/-- `updateConnSendWindow` and `updateStreamSendWindow` on the value of the window. -/
def updateSendWindow (old inc : Int) : Option Int := if 2 ^ 31 - 1 < old + inc then none else some (old + inc)

def onWindowUpdate (sc : ServerConn) (streamID increment : Nat) : ServerConn × List Out :=
  if sc.continuationStream ≠ 0 then sc.closeWithGoAway .protocolError
  else if increment = 0 ∨ 0x7fffffff < increment then
    if streamID = 0 then sc.closeWithGoAway .protocolError else (sc, [.rstStream streamID .protocolError])
  else if sc.maxStreamID < streamID then sc.closeWithGoAway .protocolError
  else if streamID = 0 then
    match updateSendWindow sc.connSendWindow increment with
    | none => sc.closeWithGoAway .flowControlError
    | some connSendWindow => ({ sc with connSendWindow }, [])
  else
    match sc.streams streamID with
    | none => (sc, [])
    | some st =>
      match updateSendWindow st.sendWindow increment with
      | none => (sc.deleteStream streamID, [.rstStream streamID .flowControlError])
      | some sendWindow => (sc.putStream streamID { st with sendWindow }, [])

def onPriority (sc : ServerConn) : ServerConn × List Out :=
  if sc.continuationStream ≠ 0 then sc.closeWithGoAway .protocolError else (sc, [])

def onUnknownFrame (sc : ServerConn) (frameType : UInt8) : ServerConn × List Out :=
  if sc.continuationStream ≠ 0 then sc.closeWithGoAway .protocolError
  else if frameType = 0x05 then sc.closeWithGoAway .protocolError
  else (sc, [])

def onStreamReset (sc : ServerConn) (streamID : Nat) : ServerConn × List Out :=
  if sc.continuationStream ≠ 0 then sc.closeWithGoAway .protocolError
  else if streamID = 0 ∨ sc.maxStreamID < streamID then sc.closeWithGoAway .protocolError
  else (sc.deleteStream streamID, [])

def onGoAway (sc : ServerConn) : ServerConn × List Out := ({ sc with isClosed := true }, [])

def handle (sc : ServerConn) : Event → ServerConn × List Out
  | .streamData streamID payload endStream => sc.onStreamData streamID payload endStream
  | .headers streamID payload endHeaders endStream => sc.onHeaders streamID payload endHeaders endStream
  | .continuation streamID payload endHeaders => sc.onContinuation streamID payload endHeaders
  | .settings payload ack => sc.onSettings payload ack
  | .ping payload ack => sc.onPing payload ack
  | .windowUpdate streamID increment => sc.onWindowUpdate streamID increment
  | .streamReset streamID _ => sc.onStreamReset streamID
  | .goAway _ _ => sc.onGoAway
  | .priority _ _ => sc.onPriority
  | .unknownFrame _ frameType _ _ => sc.onUnknownFrame frameType

/-! ## The goroutine of a request -/

structure ServerResponse where
  statusCode : Nat
  headers : List (List UInt8 × List (List UInt8))
  body : List UInt8
  deriving DecidableEq, Repr

def toLowerCopy (b : List UInt8) : List UInt8 := b.map fun c => if 65 ≤ c ∧ c ≤ 90 then c + 32 else c

/-- One field of `SerializeResponseHeaders`. -/
def appendHeaderField (p : HPACK × List UInt8) (k v : List UInt8) : HPACK × List UInt8 :=
  p.1.appendHeader p.2 ((({} : HeaderField).setKeyBytes k).setValueBytes v) false

/-- `SerializeResponseHeaders`, with the fields in the order the map yields them. -/
def serializeResponseHeaders (hp : HPACK) (statusCode : Nat) (headers : List (List UInt8 × List (List UInt8)))
    (bodyLen : Option Nat) : HPACK × List UInt8 :=
  let p := appendHeaderField (hp, []) (ascii ":status") (ascii (toString statusCode))
  let p := match bodyLen with
    | none => p
    | some n => appendHeaderField p (ascii "content-length") (ascii (toString n))
  headers.foldl (fun p (k, vv) =>
    if toLowerCopy k ∈ [ascii "connection", ascii "transfer-encoding", ascii "keep-alive", ascii "upgrade"] then p
    else vv.foldl (fun p v => appendHeaderField p (toLowerCopy k) v) p) p

def maxChunk (sc : ServerConn) : Nat := if 0 < sc.peerMaxFrameSize then sc.peerMaxFrameSize else 16384

/-- The DATA frames of a body. `fuel` bounds the rounds: each takes an octet at least. -/
def dataFrames (maxChunk streamID : Nat) (endStream : Bool) : Nat → List UInt8 → List Out
  | fuel + 1, c :: rest =>
    let body := c :: rest
    let chunkSize := min body.length maxChunk
    .data streamID (body.take chunkSize) (endStream && (body.drop chunkSize).isEmpty) ::
      dataFrames maxChunk streamID endStream fuel (body.drop chunkSize)
  | _, _ => []

def writeStreamData (sc : ServerConn) (streamID : Nat) (body : List UInt8) (endStream : Bool) : List Out :=
  if body = [] then if endStream then [.data streamID [] true] else []
  else dataFrames sc.maxChunk streamID endStream body.length body

def writeHeaders (sc : ServerConn) (streamID statusCode : Nat) (headers : List (List UInt8 × List (List UInt8)))
    (endStream : Bool) : ServerConn × List Out :=
  let (hpackEnc, block) := serializeResponseHeaders sc.hpackEnc statusCode headers none
  ({ sc with hpackEnc }, [.headers streamID block endStream])

def writeResponse (sc : ServerConn) (streamID : Nat) (res : ServerResponse) : ServerConn × List Out :=
  let (hpackEnc, block) := serializeResponseHeaders sc.hpackEnc res.statusCode res.headers (some res.body.length)
  ({ sc with hpackEnc },
    .headers streamID block res.body.isEmpty :: dataFrames sc.maxChunk streamID true res.body.length res.body)

/-- Changes what a goroutine and the table share of a stream. -/
def updateStream (sc : ServerConn) (streamID : Nat) (f : ServerStream → ServerStream) : ServerConn :=
  { sc with streams := Function.update sc.streams streamID ((sc.streams streamID).map f) }

/-- What a request's goroutine does on the connection. -/
inductive Act where
  | upgrade (statusCode : Nat) (headers : List (List UInt8 × List (List UInt8)))
  | write (p : List UInt8)
  | closeAdapter
  | respond (res : ServerResponse)
  | release
  deriving DecidableEq, Repr

/-- `h2ServerStreamAdapter.Close`. -/
def closeAdapter (sc : ServerConn) (d : Dispatch) : List Out :=
  if d.isExtConnect = true ∧ d.adapterClosed = false then sc.writeStreamData d.id [] true else []

def act (sc : ServerConn) (i : Nat) (d : Dispatch) : Act → Option (ServerConn × List Out)
  | .upgrade statusCode headers =>
    if d.responded then none
    else
      let sc := sc.updateStream d.id fun st => { st with isTunnel := true }
      -- All goroutines of a stream share its `isTunnel`.
      let running := sc.running.map fun d' => if d'.id = d.id then { d' with isTunnel := true } else d'
      some ({ sc with running }.writeHeaders d.id statusCode headers false)
  | .write p =>
    if d.responded ∨ d.isExtConnect = false ∨ d.adapterClosed then none
    else some (sc, sc.writeStreamData d.id p false)
  | .closeAdapter =>
    if d.responded ∨ d.isExtConnect = false then none
    else some ({ sc with running := sc.running.set i { d with adapterClosed := true } }, sc.closeAdapter d)
  | .respond res =>
    if d.responded then none
    else
      let (sc', out) := if d.isTunnel then (sc, sc.closeAdapter d) else sc.writeResponse d.id res
      let sc' := sc'.updateStream d.id fun st => { st with state := .streamClosed }
      let d' := { d with responded := true, adapterClosed := d.adapterClosed || d.isTunnel }
      some ({ sc' with running := sc'.running.set i d' }, out)
  | .release =>
    if d.responded = false then none
    else some ({ sc.deleteStream d.id with running := sc.running.eraseIdx i }, sc.closeAdapter d)

end ServerConn

/-! ## Runs -/

inductive Label where
  /-- A frame is parsed out of the receive buffer. -/
  | recv (f : Frame)
  /-- The `i`-th goroutine makes a call. -/
  | act (i : Nat) (a : ServerConn.Act)
  /-- `Close` is called, or the read loop ends. -/
  | close
  deriving DecidableEq, Repr

inductive Obs where
  | recv (f : Frame)
  | sent (o : Out)
  deriving DecidableEq, Repr

def step (sc : ServerConn) : Label → Option (ServerConn × List Obs)
  | .recv f =>
    let (sc, out) := match f.event with
      | none => (sc, [])
      | some e => sc.handle e
    some (sc, .recv f :: out.map .sent)
  | .act i a =>
    match sc.running[i]? with
    | none => none
    | some d => (sc.act i d a).map fun (sc, out) => (sc, out.map .sent)
  | .close => some ({ sc with isClosed := true }, [])

end Mach.H2.Server
