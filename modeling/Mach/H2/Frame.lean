import Mach.Headkit.Intern
/-!
# HTTP/2 frames

A frame as the overlay reads it out of the receive buffer, the parts of its
payload, and the callback of `EventHandler` that `StateMachine.Feed` makes of it;
the parameters of SETTINGS, which are read into a record that holds the defaults;
and the checks that both endpoints make on the fields of a header block.
-/

namespace Mach.H2
open Lib Headkit

/-- The error codes of RFC 9113, section 7. -/
inductive ErrorCode where
  | noError | protocolError | internalError | flowControlError | settingsTimeoutError | streamClosedError
  | frameSizeError | refusedStreamError | streamCanceled | compressionError | connectionError | enhanceYourCalm
  | inadequateSecurity | http11Required
  deriving DecidableEq, Repr

theorem connection_lt : 0 < 2 ^ 31 := by decide

theorem first_lt : 1 < 2 ^ 31 := by decide

theorem nil_lt : ([] : List UInt8).length < 2 ^ 24 := by decide

/-- A frame with the field widths of its header. -/
structure Frame where
  type : UInt8
  flags : UInt8
  streamID : Nat
  payload : List UInt8
  streamID_lt : streamID < 2 ^ 31 := by first | exact connection_lt | exact first_lt | decide
  length_lt : payload.length < 2 ^ 24 := by first | exact nil_lt | decide
  deriving DecidableEq, Repr

namespace Frame

def has (f : Frame) (flag : UInt8) : Bool := f.flags &&& flag != 0

def isEndStream (f : Frame) : Bool := f.has 0x1
def isAck (f : Frame) : Bool := f.has 0x1
def isEndHeaders (f : Frame) : Bool := f.has 0x4
def isPadded (f : Frame) : Bool := f.has 0x8
def hasPriority (f : Frame) : Bool := f.has 0x20

/-- `DataFrame.Data`: the payload of a DATA frame without its padding; nothing if the padding is invalid. -/
def data (f : Frame) : List UInt8 :=
  if f.isPadded = false then f.payload
  else
    match f.payload with
    | [] => []
    | padLen :: _ =>
      let stop := (f.payload.length : Int) - padLen.toNat
      if stop < 1 then [] else (f.payload.take stop.toNat).drop 1

/-- `HeadersFrame.HeaderBlockFragment`: the payload of a HEADERS frame without padding and priority. -/
def headerBlockFragment (f : Frame) : List UInt8 :=
  if f.isPadded = true ∧ f.payload = [] then []
  else
    let padLen := if f.isPadded then (f.payload.headD 0).toNat else 0
    let start : Nat := (if f.isPadded then 1 else 0) + (if f.hasPriority then 5 else 0)
    let stop := (f.payload.length : Int) - padLen
    if stop < start then [] else (f.payload.take stop.toNat).drop start

end Frame

/-- The callbacks of `EventHandler`. -/
inductive Event where
  | streamData (streamID : Nat) (payload : List UInt8) (endStream : Bool)
  | headers (streamID : Nat) (payload : List UInt8) (endHeaders endStream : Bool)
  | continuation (streamID : Nat) (payload : List UInt8) (endHeaders : Bool)
  | settings (payload : List UInt8) (ack : Bool)
  | ping (payload : List UInt8) (ack : Bool)
  | windowUpdate (streamID increment : Nat)
  | streamReset (streamID errorCode : Nat)
  | goAway (lastStreamID errorCode : Nat)
  | priority (streamID : Nat) (payload : List UInt8)
  | unknownFrame (streamID : Nat) (frameType flags : UInt8) (payload : List UInt8)
  deriving DecidableEq, Repr

/-- The switch of `Feed`: the callback for a frame, if it has one. -/
def Frame.event (f : Frame) : Option Event :=
  if f.type = 0x00 then some (.streamData f.streamID f.data f.isEndStream)
  else if f.type = 0x01 then some (.headers f.streamID f.headerBlockFragment f.isEndHeaders f.isEndStream)
  else if f.type = 0x02 then some (.priority f.streamID f.payload)
  else if f.type = 0x03 then
    if f.payload.length = 4 then some (.streamReset f.streamID (beNat f.payload)) else none
  else if f.type = 0x04 then some (.settings f.payload f.isAck)
  else if f.type = 0x05 then some (.unknownFrame f.streamID 0x05 f.flags f.payload)
  else if f.type = 0x06 then some (.ping f.payload f.isAck)
  else if f.type = 0x07 then
    if 8 ≤ f.payload.length then
      some (.goAway (beNat (f.payload.take 4) % 2 ^ 31) (beNat ((f.payload.drop 4).take 4)))
    else none
  else if f.type = 0x08 then
    if f.payload.length = 4 then some (.windowUpdate f.streamID (beNat f.payload % 2 ^ 31)) else none
  else if f.type = 0x09 then some (.continuation f.streamID f.payload f.isEndHeaders)
  else some (.unknownFrame f.streamID f.type f.flags f.payload)

theorem Frame.event_settings {f : Frame} (h : f.type = 0x04) : f.event = some (.settings f.payload f.isAck) := by
  simp [Frame.event, h]

theorem Frame.event_ne_settings {f : Frame} {e : Event} (hev : f.event = some e) (h : f.type ≠ 0x04)
    (payload : List UInt8) (ack : Bool) : e ≠ .settings payload ack := by
  rintro rfl
  unfold Frame.event at hev
  repeat' split at hev
  all_goals first | contradiction | cases hev

/-! ## SETTINGS -/

/-- `Settings`, with the values `Reset` gives. -/
structure Settings where
  ack : Bool := false
  tableSize : Nat := 4096
  enablePush : Bool := false
  maxStreams : Nat := 100
  windowSize : Nat := 65535
  frameSize : Nat := 16384
  headerSize : Nat := 0
  enableConnect : Bool := false
  deriving DecidableEq, Repr

namespace Settings

def applySetting (st : Settings) (key val : Nat) : Except ErrorCode Settings :=
  if key = 0x1 then .ok { st with tableSize := val }
  else if key = 0x2 then
    if val ≠ 0 ∧ val ≠ 1 then .error .protocolError else .ok { st with enablePush := val != 0 }
  else if key = 0x3 then .ok { st with maxStreams := val }
  else if key = 0x4 then
    if 2 ^ 31 - 1 < val then .error .flowControlError else .ok { st with windowSize := val }
  else if key = 0x5 then
    if val < 2 ^ 14 ∨ 2 ^ 24 - 1 < val then .error .protocolError else .ok { st with frameSize := val }
  else if key = 0x6 then .ok { st with headerSize := val }
  else if key = 0x8 then
    if val ≠ 0 ∧ val ≠ 1 then .error .protocolError else .ok { st with enableConnect := val == 1 }
  else .ok st

/-- `Read`: the parameters of a payload in order. -/
def read : Settings → List UInt8 → Except ErrorCode Settings
  | st, a :: b :: c :: d :: e :: f :: rest =>
    match st.applySetting (beNat [a, b]) (beNat [c, d, e, f]) with
    | .error code => .error code
    | .ok st => read st rest
  | st, _ => .ok st

end Settings

/-! ## The last value of a parameter -/

section Last

variable {α : Type}

/-- The last value of a parameter, read by `g`. -/
def last (g : Nat → α) (key : Nat) (default : α) (ps : List (Nat × Nat)) : α :=
  ps.foldl (fun a p => if p.1 = key then g p.2 else a) default

def carries (key : Nat) (ps : List (Nat × Nat)) : Bool := ps.any fun p => p.1 == key

theorem last_append (g : Nat → α) (key : Nat) (default : α) (ps qs : List (Nat × Nat)) :
    last g key default (ps ++ qs) = last g key (last g key default ps) qs := by
  simp [last]

/-- Where the parameter starts from matters as long as it does not occur. -/
theorem last_eq_iff (g : Nat → α) (key : Nat) (d d' : α) (ps : List (Nat × Nat)) :
    last g key d ps = last g key d' ps ↔ carries key ps = true ∨ d = d' := by
  induction ps generalizing d d' with
  | nil => simp [last, carries]
  | cons p ps ih =>
    change last g key (if p.1 = key then g p.2 else d) ps = last g key (if p.1 = key then g p.2 else d') ps ↔ _
    rw [ih]
    by_cases hp : p.1 = key
    · simp [hp, carries]
    · simp [hp, carries]

end Last

def params : List UInt8 → List (Nat × Nat)
  | a :: b :: c :: d :: e :: f :: rest => (beNat [a, b], beNat [c, d, e, f]) :: params rest
  | _ => []

/-! ## Field validity (RFC 9113, section 8.2) -/

/-- `HeaderField.IsPseudo` on a name. -/
def isPseudo (k : List UInt8) : Bool := k.head? == some 58

def validateHeaderName (k : List UInt8) (pseudo : Bool) : Bool :=
  let ok (l : List UInt8) := l.all fun c => !(c ≤ 0x20 || (65 ≤ c && c ≤ 90) || 0x7f ≤ c || c == 58)
  match k with
  | [] => false
  | c :: rest => if pseudo then c == 58 && !rest.isEmpty && ok rest else ok k

def validateHeaderValue (v : List UInt8) : Bool := v.all fun c => !(c == 0 || c == 13 || c == 10)

def isConnectionSpecificHeader (k v : List UInt8) : Bool :=
  if k = ascii "connection" ∨ k = ascii "keep-alive" ∨ k = ascii "proxy-connection" ∨ k = ascii "transfer-encoding" ∨
      k = ascii "upgrade" then true
  else if k = ascii "te" then v != ascii "trailers"
  else false

end Mach.H2
