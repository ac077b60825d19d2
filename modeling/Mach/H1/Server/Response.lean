import Mach.Lib.Http1
import Mach.Headkit.Store
/-!
# Responses of the HTTP/1.1 server

`server/h1`: a `Response` is written to a buffer as a status line, the fields the
server adds, the handler's fields and cookies, and the body, in one piece or in
chunks; `ServeConn` does this for one request after the other and decides when
the buffer goes out and when the connection ends. Hijacked connections and
interim hints are left out, and writes to the connection do not fail.
-/

namespace Mach.H1.Server

open Headkit Lib Lib.Numeral

/-! ## Status lines -/

def unknownStatusCode : String := "Unknown Status Code"

def statusMessages : List (Nat × String) :=
  [(100, "Continue"), (101, "Switching Protocols"), (102, "Processing"), (103, "Early Hints"), (200, "OK"),
   (201, "Created"), (202, "Accepted"), (203, "Non-Authoritative Information"), (204, "No Content"),
   (205, "Reset Content"), (206, "Partial Content"), (207, "Multi-Status"), (208, "Already Reported"),
   (226, "IM Used"), (300, "Multiple Choices"), (301, "Moved Permanently"), (302, "Found"), (303, "See Other"),
   (304, "Not Modified"), (305, "Use Proxy"), (307, "Temporary Redirect"), (308, "Permanent Redirect"),
   (400, "Bad Request"), (401, "Unauthorized"), (402, "Payment Required"), (403, "Forbidden"), (404, "Not Found"),
   (405, "Method Not Allowed"), (406, "Not Acceptable"), (407, "Proxy Authentication Required"),
   (408, "Request Timeout"), (409, "Conflict"), (410, "Gone"), (411, "Length Required"),
   (412, "Precondition Failed"), (413, "Request Entity Too Large"), (414, "Request-URI Too Long"),
   (415, "Unsupported Media Type"), (416, "Requested Range Not Satisfiable"), (417, "Expectation Failed"),
   (418, "I'm a teapot"), (421, "Misdirected Request"), (422, "Unprocessable Entity"), (423, "Locked"),
   (424, "Failed Dependency"), (425, "Too Early"), (426, "Upgrade Required"), (428, "Precondition Required"),
   (429, "Too Many Requests"), (431, "Request Header Fields Too Large"), (451, "Unavailable For Legal Reasons"),
   (500, "Internal Server Error"), (501, "Not Implemented"), (502, "Bad Gateway"), (503, "Service Unavailable"),
   (504, "Gateway Timeout"), (505, "HTTP Version Not Supported"), (506, "Variant Also Negotiates"),
   (507, "Insufficient Storage"), (508, "Loop Detected"), (510, "Not Extended"),
   (511, "Network Authentication Required")]

def message (statusCode : Nat) : String :=
  if statusCode < 100 ∨ 511 < statusCode then unknownStatusCode
  else (statusMessages.lookup statusCode).getD unknownStatusCode

def hdrCRLF : List UInt8 := [13, 10]

def statusLines (code : Nat) : Option (List UInt8) :=
  if 100 ≤ code ∧ code < 600 ∧ message code ≠ "" then
    some (ascii "HTTP/1.1 " ++ numeral 10 code ++ ascii " " ++ ascii (message code) ++ hdrCRLF)
  else none

/-- The first of two texts that is not empty. -/
def coalesce (a b : String) : String := if a = "" then b else a

def statusLine (code : Nat) : List UInt8 :=
  match statusLines code with
  | some l => l
  | none => ascii "HTTP/1.1 " ++ numeral 10 code ++ ascii " " ++ ascii (coalesce (message code) "Unknown") ++ hdrCRLF

/-! ## The buffer -/

structure ByteBuffer where
  sent : List UInt8 := []
  b : List UInt8 := []
  deriving DecidableEq, Repr

namespace ByteBuffer

def write (bw : ByteBuffer) (p : List UInt8) : ByteBuffer := { bw with b := bw.b ++ p }

def flush (bw : ByteBuffer) : ByteBuffer := { sent := bw.sent ++ bw.b, b := [] }

/-- All bytes in the order in which the peer gets them. -/
def total (bw : ByteBuffer) : List UInt8 := bw.sent ++ bw.b

@[simp] theorem total_write (bw : ByteBuffer) (p : List UInt8) : (bw.write p).total = bw.total ++ p := by
  simp [total, write]

@[simp] theorem total_flush (bw : ByteBuffer) : bw.flush.total = bw.total := by simp [total, flush]

theorem sent_flush (bw : ByteBuffer) : bw.flush.sent = bw.total := rfl

end ByteBuffer

/-! ## The chunked writer -/

namespace ChunkedWriter

def write (w : ByteBuffer) (p : List UInt8) : ByteBuffer :=
  if p = [] then w
  else ((((w.write (numeral 16 p.length)).write hdrCRLF).write p).write hdrCRLF).flush

def close (w : ByteBuffer) : ByteBuffer := (w.write (ascii "0\r\n\r\n")).flush

end ChunkedWriter

/-! ## Writing a response -/

/-- What a `StreamWriter` does: the writes it makes, and whether it returns an error. -/
structure StreamWriter where
  writes : List (List UInt8)
  failed : Bool := false
  deriving DecidableEq, Repr

structure Response where
  statusCode : Nat := 200
  headers : Headers := {}
  /-- The rendered cookies; `none` is a nil pointer. -/
  cookies : List (Option (List UInt8)) := []
  body : List UInt8 := []
  streamWriter : Option StreamWriter := none

namespace Response

def code (r : Response) : Nat := if r.statusCode = 0 then 200 else r.statusCode

/-- The cached date line, unless the handler set a date. -/
def dateHeader (r : Response) (cachedDateHeader : List UInt8) : Option (List UInt8) :=
  (r.headers.get (ascii "Date")).map fun v => if v = [] then cachedDateHeader else []

def connectionHeader (r : Response) (keepAlive : Bool) : Option (List UInt8) :=
  if r.code = 101 then
    (r.headers.get (ascii "Connection")).map fun v => if v = [] then ascii "Connection: Upgrade\r\n" else []
  else if !keepAlive then some (ascii "Connection: close\r\n")
  else (r.headers.get (ascii "Connection")).map fun v => if v = [] then ascii "Connection: keep-alive\r\n" else []

/-- The decimal digits of a length; short lengths are written without `AppendInt`. -/
def lengthDigits (n : Nat) : List UInt8 :=
  if n < 10 then [48 + UInt8.ofNat n]
  else if n < 100 then [48 + UInt8.ofNat (n / 10), 48 + UInt8.ofNat (n % 10)]
  else numeral 10 n

def framingHeader (r : Response) : Option (List UInt8) :=
  match r.streamWriter with
  | some _ =>
    (r.headers.get (ascii "Transfer-Encoding")).map fun v =>
      if v = [] then ascii "Transfer-Encoding: chunked\r\n" else []
  | none =>
    if 200 ≤ r.code ∧ r.code ≠ 204 ∧ r.code ≠ 304 then
      (r.headers.get (ascii "Content-Length")).bind fun cl =>
        if cl = [] then
          (r.headers.get (ascii "Transfer-Encoding")).map fun te =>
            if te = [] then ascii "Content-Length: " ++ lengthDigits r.body.length ++ hdrCRLF else []
        else some []
    else some []

/-- `Headers.WriteTo`. -/
def headerLines (h : Headers) : Option (List UInt8) :=
  h.all.map fun fs => fs.flatMap fun f => f.1 ++ ascii ": " ++ f.2 ++ hdrCRLF

def cookieLines (cookies : List (Option (List UInt8))) : List UInt8 :=
  cookies.flatMap fun
    | some c => ascii "Set-Cookie: " ++ c ++ hdrCRLF
    | none => []

/-- Everything before the body; `none` if a lookup panics. -/
def head (r : Response) (cachedDateHeader : List UInt8) (keepAlive : Bool) : Option (List UInt8) := do
  let date ← r.dateHeader cachedDateHeader
  let connection ← r.connectionHeader keepAlive
  let framing ← r.framingHeader
  let user ← headerLines r.headers
  return statusLine r.code ++ date ++ connection ++ framing ++ user ++ cookieLines r.cookies ++ hdrCRLF

/-- The chunks, then the last chunk; the error is the stream writer's. -/
def writeStreamBody (s : StreamWriter) (bw : ByteBuffer) : ByteBuffer × Bool :=
  (ChunkedWriter.close (s.writes.foldl ChunkedWriter.write bw), s.failed)

def writeBody (r : Response) (bw : ByteBuffer) : ByteBuffer × Bool :=
  match r.streamWriter with
  | some s => writeStreamBody s bw
  | none => if r.body ≠ [] ∧ r.code ≠ 204 ∧ r.code ≠ 304 then (bw.write r.body, false) else (bw, false)

def writeTo (r : Response) (cachedDateHeader : List UInt8) (keepAlive : Bool) (bw : ByteBuffer) :
    Option (ByteBuffer × Bool) :=
  (r.head cachedDateHeader keepAlive).map fun h => r.writeBody (bw.write h)

end Response

/-! ## Serving a connection -/

/-- What `ServeConn` looks at of an accepted request. -/
structure Request where
  method : List UInt8
  proto : List UInt8 := ascii "HTTP/1.1"
  headers : Headers := {}
  closeConnection : Bool := false

namespace Request

def has (r : Request) (key : List UInt8) : Option Bool := (r.headers.get key).map (· ≠ [])

/-- Whether reading the body of the request sent "100 Continue" first. -/
def expectsContinue (r : Request) : Option Bool :=
  (r.has (ascii "Transfer-Encoding")).bind fun hasTE =>
    (r.has (ascii "Content-Length")).bind fun hasCL =>
      if !hasTE && !hasCL then some false
      else (r.has (ascii "Expect")).map fun expect => expect && r.proto == ascii "HTTP/1.1"

def isKeepAlive (r : Request) : Option Bool :=
  ((r.headers.getVal (r.headers.packed idxConnection)).bind fun v =>
      if v = [] then r.headers.get (ascii "Connection") else some v).map fun v =>
    if r.proto = ascii "HTTP/1.0" then equalFoldASCII v (ascii "keep-alive")
    else !equalFoldASCII v (ascii "close")

end Request

/-- A request, what the handler made of it, and the surroundings of the answer. -/
structure Exchange where
  request : Request
  /-- The response as the handler left it, and whether the handler returned an error. -/
  response : Response
  failed : Bool := false
  /-- The request's `CloseConnection` after the handler. -/
  closeConnection : Bool := false
  /-- Whether another complete header block waits in the read buffer. -/
  morePipelined : Bool := false
  cachedDateHeader : List UInt8 := []

namespace Exchange

def answer (e : Exchange) : Response :=
  if e.failed then
    { e.response with
      statusCode := 500
      body := ascii "\x7b\"error\":\"INTERNAL_ERROR\",\"message\":\"Internal Server Error\"\x7d" }
  else e.response

def keepAlive (e : Exchange) : Option Bool := do
  let persistent ← e.request.isKeepAlive
  let hasTE ← e.request.has (ascii "Transfer-Encoding")
  let hasCL ← e.request.has (ascii "Content-Length")
  let connection ← e.answer.headers.get (ascii "Connection")
  return persistent && !(e.request.closeConnection || hasTE && hasCL) && !e.closeConnection &&
    e.answer.statusCode != 101 && !(connection != [] && equalFoldASCII connection (ascii "close"))

end Exchange

def continueLine : List UInt8 := ascii "HTTP/1.1 100 Continue\r\n\r\n"

/-- One round of `ServeConn`: the buffer after the answer, and whether there is another round. -/
def serveRequest (e : Exchange) (bw : ByteBuffer) : Option (ByteBuffer × Bool) :=
  e.request.expectsContinue.bind fun expects =>
    e.keepAlive.bind fun keepAlive =>
      (e.answer.writeTo e.cachedDateHeader keepAlive
          (if expects then (bw.write continueLine).flush else bw)).map fun p =>
        if p.2 then (p.1, false)
        else
          let hasMorePipelined := keepAlive && e.morePipelined
          (if !hasMorePipelined || 64 * 1024 ≤ p.1.b.length then p.1.flush else p.1, keepAlive)

/-- The loop over the accepted requests; the deferred flush ends it. Also the exchanges that took place. -/
def serveLoop : List Exchange → ByteBuffer → Option (ByteBuffer × List Exchange)
  | [], bw => some (bw.flush, [])
  | e :: es, bw =>
    (serveRequest e bw).bind fun p =>
      if p.2 then (serveLoop es p.1).map fun q => (q.1, e :: q.2) else some (p.1.flush, [e])

/-- The bytes written to the connection and the exchanges that took place. -/
def serveConn (es : List Exchange) : Option (List UInt8 × List Exchange) :=
  (serveLoop es {}).map fun p => (p.1.sent, p.2)

end Mach.H1.Server
