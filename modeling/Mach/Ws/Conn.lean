import Mach.Headkit.Intern
import Mach.Ws.Wire
/-!
# The two message readers of a connection

`Conn.ReadMessage` and `Conn.ReadMessageBuf` read the frames of a message and
answer the control frames between them, with the handlers of `NewConn`. Both are
loops over the frames; the header checks, the control frames and the end of a
message are the same in both, the order of the limit checks, of reading a payload
and of checking the order of frames is not. The transport is the octets that are
still to come, and what is written to it is kept in `sent`.
-/

namespace Mach.Ws

open Lib
open Headkit (ascii)

/-! ## Text -/

/-- The number of octets that follow the first one of a character, and the range of the second one. -/
def utf8Leader (b : UInt8) : Option (Nat × UInt8 × UInt8) :=
  if 0xc2 ≤ b ∧ b ≤ 0xdf then some (1, 0x80, 0xbf)
  else if b = 0xe0 then some (2, 0xa0, 0xbf)
  else if b = 0xed then some (2, 0x80, 0x9f)
  else if 0xe1 ≤ b ∧ b ≤ 0xef then some (2, 0x80, 0xbf)
  else if b = 0xf0 then some (3, 0x90, 0xbf)
  else if 0xf1 ≤ b ∧ b ≤ 0xf3 then some (3, 0x80, 0xbf)
  else if b = 0xf4 then some (3, 0x80, 0x8f)
  else none

/-- The octets that continue a character, `n` of them, and the characters after it. -/
def utf8Rest : Nat → UInt8 → UInt8 → List UInt8 → Bool
  | 0, _, _, [] => true
  | _ + 1, _, _, [] => false
  | 0, _, _, b :: l =>
    if b < 0x80 then utf8Rest 0 0 0 l
    else
      match utf8Leader b with
      | none => false
      | some (n, lo, hi) => utf8Rest n lo hi l
  | n + 1, lo, hi, b :: l => if lo ≤ b ∧ b ≤ hi then utf8Rest n 0x80 0xbf l else false

def utf8Valid (b : List UInt8) : Bool := utf8Rest 0 0 0 b

/-! ## Errors and close frames -/

/-- What a reader returns; `ErrMessageTooBig` is another name of `ErrPayloadTooLarge`. -/
inductive Err where
  | eof | errUnexpectedEOF | errClosed
  | header (e : HeaderError)
  | errInvalidOpcode | errDataAfterClose | errMaskRequired | errMaskForbidden | errRSVSet
  | errUnexpectedContinuation | errExpectedContinuation
  | errInvalidUTF8 | errInvalidClosePayload | errInvalidCloseCode | errInvalidCompressedPayload
  deriving DecidableEq, Repr

def errMessageTooBig : Err := .header .errPayloadTooLarge

def ReadError.toErr : ReadError → Err
  | .eof => .eof
  | .errUnexpectedEOF => .errUnexpectedEOF

/-- `Error()` of the errors that are sent in a Close frame. -/
def Err.text : Err → String
  | .header .errIncomplete => "ws: incomplete frame header"
  | .header .errInvalidLength => "ws: protocol error: non-minimal extended payload length encoding"
  | .header .errPayloadTooLarge => "ws: payload length exceeds maximum allowed"
  | .header .errControlFrameFragmented => "ws: protocol error: control frame must not be fragmented"
  | .header .errControlFrameTooLarge => "ws: protocol error: control frame payload exceeds 125 bytes"
  | .errInvalidClosePayload => "ws: protocol error: invalid close frame payload length"
  | .errInvalidCloseCode => "ws: protocol error: invalid close status code"
  | _ => ""

def statusProtocolError : Nat := 1002
def statusNoStatusReceived : Nat := 1005
def statusInvalidFramePayloadData : Nat := 1007
def statusMessageTooBig : Nat := 1009

def isValidForWire (c : Nat) : Bool :=
  if c < 1000 ∨ 4999 < c then false
  else if c = 1005 ∨ c = 1006 ∨ c = 1015 then false
  else (1000 ≤ c && c ≤ 1003) || (1007 ≤ c && c ≤ 1011) || (3000 ≤ c && c ≤ 4999)

/-- The code and the reason of a Close frame. -/
def parseClosePayload (payload : List UInt8) : Except Err (Nat × List UInt8) :=
  if payload.length = 0 then .ok (statusNoStatusReceived, [])
  else if payload.length = 1 then .error .errInvalidClosePayload
  else
    let code := beNat (slice payload 0 2)
    if !isValidForWire code then .error .errInvalidCloseCode
    else if 2 < payload.length ∧ !utf8Valid (payload.drop 2) then .error .errInvalidUTF8
    else .ok (code, payload.drop 2)

def formatClosePayload (code : Nat) (reason : List UInt8) : List UInt8 := beBytes 2 code ++ reason

/-- The largest part of a reason, up to `cut` octets, that ends before the start of a character. -/
def truncateReason (reason : List UInt8) : Nat → List UInt8
  | 0 => []
  | cut + 1 =>
    if reason.getD (cut + 1) 0 &&& 0xc0 != 0x80 then reason.take (cut + 1) else truncateReason reason cut

/-! ## The connection -/

inductive ConnState where
  | stateConnecting | stateOpen | stateClosing | stateClosed
  deriving DecidableEq, Repr

/-- What does not change; `flate` is the decompressor: what it puts out and whether it then fails. -/
structure Config where
  isServer : Bool := false
  readLimit : Int := 2 ^ 25
  skipMaskCheck : Bool := false
  enableDeflate : Bool := false
  flate : List UInt8 → List UInt8 × Bool := fun src => (src, false)

structure Conn where
  state : ConnState := .stateOpen
  seenClose : Bool := false
  fragmentOpcode : Opcode := 0
  fragmentBuf : List UInt8 := []
  fragmentRsv1 : Bool := false
  input : List UInt8 := []
  sent : List (Opcode × List UInt8) := []
  deriving DecidableEq, Repr

/-- What a call returns: a message, the Close frame of the peer, or an error. -/
inductive Outcome where
  | message (op : Opcode) (payload : List UInt8)
  | closed (code : Nat) (reason : List UInt8)
  | failed (e : Err)
  deriving DecidableEq, Repr

/-- `io.LimitReader` of `n` octets over the decompressor: what comes out of it and whether it fails. -/
def limitReader (n : Int) (out : List UInt8 × Bool) : List UInt8 × Bool :=
  if n ≤ 0 then ([], false) else if (out.1.length : Int) < n then out else (out.1.take n.toNat, false)

/-- `DecompressDeflate`; the sum `limit + 1` is an `int64`. -/
def decompressDeflate (cfg : Config) (src : List UInt8) : Except Err (List UInt8) :=
  let limit := cfg.readLimit
  let out := if 0 < limit then limitReader (if limit + 1 = 2 ^ 63 then -2 ^ 63 else limit + 1) (cfg.flate src) else cfg.flate src
  if out.2 then .error .errInvalidCompressedPayload
  else if 0 < limit ∧ limit < out.1.length then .error errMessageTooBig
  else .ok out.1

namespace Conn

def writeControlFrame (c : Conn) (op : Opcode) (data : List UInt8) : Conn := { c with sent := c.sent ++ [(op, data)] }

/-- A payload of at most 65536 octets is read and thrown away. -/
def drainPayload (c : Conn) (n : Nat) : Conn :=
  if n = 0 ∨ 65536 < n then c else { c with input := c.input.drop n }

def writeProtocolErrorAndClose (c : Conn) (code : Nat) (reason : String) : Conn :=
  let reason := if 123 < (ascii reason).length then truncateReason (ascii reason) 123 else ascii reason
  { c.writeControlFrame opcodeClose (formatClosePayload code reason) with state := .stateClosed }

/-- A frame that is refused before its payload is read. -/
def reject (c : Conn) (h : Header) (code : Nat) (reason : String) (e : Err) : Conn × Option Outcome :=
  ((c.drainPayload h.payloadLen).writeProtocolErrorAndClose code reason, some (.failed e))

/-- What the reader does about a header it could not read. -/
def headerFailed (c : Conn) : ReadError ⊕ HeaderError → Conn × Option Outcome
  | .inl .eof => ({ c with state := .stateClosed }, some (.failed .eof))
  | .inl .errUnexpectedEOF => (c, some (.failed .errUnexpectedEOF))
  | .inr .errIncomplete => (c, some (.failed (.header .errIncomplete)))
  | .inr e => (c.writeProtocolErrorAndClose statusProtocolError (Err.header e).text, some (.failed (.header e)))

/-- The checks of a header that both readers begin with: the reason of the refusal and the error. -/
def refuse (cfg : Config) (c : Conn) (h : Header) : Option (String × Err) :=
  if !isValid h.opcode || isReserved h.opcode then some ("Unknown or reserved opcode", .errInvalidOpcode)
  else if c.seenClose && !isControl h.opcode then some ("Data frame received after close", .errDataAfterClose)
  else if !cfg.skipMaskCheck && cfg.isServer && !h.masked then some ("Server requires masked frames", .errMaskRequired)
  else if !cfg.skipMaskCheck && !cfg.isServer && h.masked then some ("Client requires unmasked frames", .errMaskForbidden)
  else if h.rsv2 || h.rsv3 then some ("Reserved bits RSV2/RSV3 set", .errRSVSet)
  else if h.rsv1 && !cfg.enableDeflate then some ("RSV1 set without deflate extension", .errRSVSet)
  else if h.rsv1 && (isControl h.opcode || h.opcode == opcodeContinuation) then
    some ("RSV1 not allowed on control or continuation frame", .errRSVSet)
  else if isControl h.opcode && !h.fin then
    some ("Control frame must not be fragmented", .header .errControlFrameFragmented)
  else if isControl h.opcode && 125 < h.payloadLen then
    some ("Control frame payload exceeds 125 bytes", .header .errControlFrameTooLarge)
  else none

/-- A payload is read and unmasked; a stream that ends before it closes the connection. -/
def readPayload (c : Conn) (h : Header) : Except ReadError (List UInt8) × Conn :=
  let r := readFull h.payloadLen c.input
  match r.1 with
  | .error e => (.error e, { c with input := r.2, state := .stateClosed })
  | .ok p => (.ok (if h.masked then mask 0 p h.maskKey else p), { c with input := r.2 })

def closeFrame (c : Conn) (payload : List UInt8) : Conn × Option Outcome :=
  let c := { c with seenClose := true }
  match parseClosePayload payload with
  | .error .errInvalidUTF8 =>
    (c.writeProtocolErrorAndClose statusInvalidFramePayloadData "Invalid UTF-8 in Close frame",
      some (.failed .errInvalidUTF8))
  | .error e => (c.writeProtocolErrorAndClose statusProtocolError e.text, some (.failed e))
  | .ok (code, reason) =>
    let c :=
      if c.state = .stateOpen ∨ c.state = .stateConnecting then
        c.writeControlFrame opcodeClose (if code = statusNoStatusReceived then [] else formatClosePayload code reason)
      else c
    ({ c with state := .stateClosed }, some (.closed code reason))

/-- A control frame; the default ping handler answers with a Pong. -/
def controlFrame (c : Conn) (h : Header) : Conn × Option Outcome :=
  let r := c.readPayload h
  match r.1 with
  | .error e => (r.2, some (.failed e.toErr))
  | .ok payload =>
    if h.opcode = opcodePing then (r.2.writeControlFrame opcodePong payload, none)
    else if h.opcode = opcodePong then (r.2, none)
    else r.2.closeFrame payload

/-- The end of a message: it is decompressed, and a text must be valid. -/
def deliver (cfg : Config) (c : Conn) (op : Opcode) (compressed : Bool) (payload : List UInt8) : Conn × Option Outcome :=
  match if compressed then decompressDeflate cfg payload else .ok payload with
  | .error e => (c.writeProtocolErrorAndClose statusProtocolError "Deflate decompression error", some (.failed e))
  | .ok payload =>
    if op = opcodeText ∧ !utf8Valid payload then
      (c.writeProtocolErrorAndClose statusInvalidFramePayloadData "Invalid UTF-8 in text message",
        some (.failed .errInvalidUTF8))
    else (c, some (.message op payload))

def wholeMessage (cfg : Config) (c : Conn) (h : Header) : Conn × Option Outcome :=
  if h.opcode = opcodeContinuation then
    c.reject h statusProtocolError "Unexpected continuation frame" .errUnexpectedContinuation
  else
    let r := c.readPayload h
    match r.1 with
    | .error e => (r.2, some (.failed e.toErr))
    | .ok payload => r.2.deliver cfg h.opcode h.rsv1 payload

/-- A frame of a fragmented message that is not its turn. -/
def outOfOrder (c : Conn) (h : Header) : Option (String × Err) :=
  if h.opcode = opcodeContinuation then
    if c.fragmentOpcode = 0 then some ("Unexpected continuation frame", .errUnexpectedContinuation) else none
  else if c.fragmentOpcode ≠ 0 then some ("Expected continuation frame", .errExpectedContinuation)
  else none

/-- The fragment buffer as the frame finds it: the first frame of a message starts it anew. -/
def begin (c : Conn) (h : Header) : Conn :=
  if h.opcode = opcodeContinuation then c
  else { c with fragmentOpcode := h.opcode, fragmentRsv1 := h.rsv1, fragmentBuf := [] }

/-- A frame of a fragmented message in `ReadMessage`: the payload is read first. -/
def fragment (cfg : Config) (c : Conn) (h : Header) : Conn × Option Outcome :=
  let r := c.readPayload h
  match r.1 with
  | .error e => (r.2, some (.failed e.toErr))
  | .ok payload =>
    match r.2.outOfOrder h with
    | some (reason, e) => (r.2.writeProtocolErrorAndClose statusProtocolError reason, some (.failed e))
    | none =>
      let c := r.2.begin h
      let c := { c with fragmentBuf := c.fragmentBuf ++ payload }
      if h.fin then
        { c with fragmentOpcode := 0, fragmentBuf := [], fragmentRsv1 := false }.deliver cfg c.fragmentOpcode c.fragmentRsv1
          c.fragmentBuf
      else (c, none)

/-- A frame of a fragmented message in `ReadMessageBuf`: its order is checked first, and the buffer is left as it is when
the message is complete. If the stream ends in the payload the buffer has its new length already. -/
def fragmentBuffered (cfg : Config) (c : Conn) (h : Header) : Conn × Option Outcome :=
  match c.outOfOrder h with
  | some (reason, e) => (c.writeProtocolErrorAndClose statusProtocolError reason, some (.failed e))
  | none =>
    let c := c.begin h
    let r := c.readPayload h
    match r.1 with
    | .error e =>
      ({ r.2 with fragmentBuf := c.fragmentBuf ++ c.input ++ List.replicate (h.payloadLen - c.input.length) 0 },
        some (.failed e.toErr))
    | .ok payload =>
      let c := { r.2 with fragmentBuf := c.fragmentBuf ++ payload }
      if h.fin then
        { c with fragmentOpcode := 0, fragmentRsv1 := false }.deliver cfg c.fragmentOpcode c.fragmentRsv1 c.fragmentBuf
      else (c, none)

/-- A round of the loop of `ReadMessage`. -/
def readMessageFrame (cfg : Config) (c : Conn) (h : Header) : Conn × Option Outcome :=
  if 0 < cfg.readLimit ∧ cfg.readLimit < h.payloadLen then
    c.reject h statusMessageTooBig "Frame payload exceeds read limit" errMessageTooBig
  else if !isControl h.opcode ∧ 0 < cfg.readLimit ∧ cfg.readLimit < c.fragmentBuf.length + h.payloadLen then
    c.reject h statusMessageTooBig "Message exceeds read limit" errMessageTooBig
  else if isControl h.opcode then c.controlFrame h
  else if h.fin ∧ c.fragmentOpcode = 0 then c.wholeMessage cfg h
  else c.fragment cfg h

/-- A round of the loop of `ReadMessageBuf`. -/
def readMessageBufFrame (cfg : Config) (c : Conn) (h : Header) : Conn × Option Outcome :=
  if isControl h.opcode then c.controlFrame h
  else if 0 < cfg.readLimit ∧ cfg.readLimit < h.payloadLen then
    c.reject h statusMessageTooBig "Frame payload exceeds read limit" errMessageTooBig
  else if h.fin ∧ c.fragmentOpcode = 0 then c.wholeMessage cfg h
  else c.fragmentBuffered cfg h

end Conn

inductive Reader where
  | readMessage | readMessageBuf
  deriving DecidableEq, Repr

namespace Conn

/-- A frame that passed the checks of its header. -/
def frame (cfg : Config) : Reader → Conn → Header → Conn × Option Outcome
  | .readMessage => readMessageFrame cfg
  | .readMessageBuf => readMessageBufFrame cfg

def round (cfg : Config) (k : Reader) (c : Conn) : Conn × Option Outcome :=
  if c.state = .stateClosed then (c, some (.failed .errClosed))
  else
    let r := readHeader c.input
    let c := { c with input := r.2 }
    match r.1 with
    | .error e => c.headerFailed e
    | .ok h =>
      match c.refuse cfg h with
      | some (reason, e) => c.reject h statusProtocolError reason e
      | none => c.frame cfg k h

/-- The loop; the outcome is missing only if `fuel` rounds are not enough. -/
def readLoop (cfg : Config) (k : Reader) : Nat → Conn → Conn × Option Outcome
  | 0, c => (c, none)
  | fuel + 1, c =>
    match (c.round cfg k).2 with
    | some o => ((c.round cfg k).1, some o)
    | none => readLoop cfg k fuel (c.round cfg k).1

/-- A call of one of the readers; every round of its loop but the last takes a header off the stream. -/
def read (cfg : Config) (k : Reader) (c : Conn) : Conn × Option Outcome := readLoop cfg k (c.input.length + 1) c

/-! ## Payloads -/

def unmasked (h : Header) (octets : List UInt8) : List UInt8 :=
  if h.masked then maskScalar octets h.maskKey 0 else octets

theorem readPayload_cases (c : Conn) (h : Header) :
    (∃ e, c.readPayload h = (.error e, { c with input := [], state := .stateClosed }) ∧ c.input.length < h.payloadLen) ∨
      ∃ p, c.readPayload h = (.ok p, { c with input := c.input.drop h.payloadLen }) ∧ h.payloadLen ≤ c.input.length ∧
        p.length = h.payloadLen ∧ p = unmasked h (c.input.take h.payloadLen) := by
  obtain ⟨hle, hr⟩ | ⟨hlt, e, hr⟩ := readFull_cases h.payloadLen c.input
  · refine .inr ⟨unmasked h (c.input.take h.payloadLen), ?_, hle, ?_, rfl⟩
    · simp only [readPayload, hr, mask_eq]
      rfl
    · unfold unmasked
      split
      · exact (maskOctets_length _ _ _).trans (List.length_take_of_le hle)
      · exact List.length_take_of_le hle
  · exact .inl ⟨e, by simp only [readPayload, hr], hlt⟩

end Conn

end Mach.Ws
