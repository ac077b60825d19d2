import Mach.H2.Frame
/-!
# Frame bodies

`ReadFrameFromWithSize` reads a frame off the client's connection: the length is
checked against the limit and the payload is parsed by the `Deserialize` of its
type, a type above CONTINUATION excepted. An error here ends the connection.
-/

namespace Mach.H2
open Lib

inductive FrameError where
  | payloadExceeds
  | missingBytes
  | goAway (code : ErrorCode)
  | resetStream (code : ErrorCode)
  deriving DecidableEq, Repr

inductive Body where
  | data (b : List UInt8)
  | headers (rawHeaders : List UInt8)
  | priority
  | rstStream (code : Nat)
  | settings (st : Settings)
  | pushPromise (stream : Nat) (header : List UInt8)
  | ping (ack : Bool) (data : List UInt8)
  | goAway (stream code : Nat)
  | windowUpdate (increment : Nat)
  | continuation (rawHeaders : List UInt8)
  /-- A frame of an unknown type has no body. -/
  | unknown
  deriving DecidableEq, Repr

def cutPadding : List UInt8 → Except FrameError (List UInt8)
  | [] => .error .missingBytes
  | pad :: rest =>
    if rest.length < pad.toNat then .error (.goAway .protocolError) else .ok (rest.take (rest.length - pad.toNat))

namespace Frame

def unpadded (f : Frame) : Except FrameError (List UInt8) := if f.isPadded then cutPadding f.payload else .ok f.payload

def deserializeHeaders (f : Frame) : Except FrameError Body := do
  let payload ← f.unpadded
  if f.hasPriority then
    if payload.length < 5 then throw (.goAway .frameSizeError)
    if beNat (payload.take 4) % 2 ^ 31 = f.streamID then throw (.goAway .protocolError)
    return .headers (payload.drop 5)
  return .headers payload

def deserializeSettings (f : Frame) : Except FrameError Body :=
  if f.streamID ≠ 0 then .error (.goAway .protocolError)
  else if f.payload.length % 6 ≠ 0 then .error (.goAway .frameSizeError)
  else if f.isAck ∧ 0 < f.payload.length then .error (.goAway .frameSizeError)
  else
    match Settings.read { ack := f.isAck } f.payload with
    | .error code => .error (.goAway code)
    | .ok st => .ok (.settings st)

def deserializePushPromise (f : Frame) : Except FrameError Body := do
  let payload ← f.unpadded
  if payload.length < 4 then throw (.goAway .frameSizeError)
  return .pushPromise (beNat (payload.take 4) % 2 ^ 31) (payload.drop 4)

def deserializePriority (f : Frame) : Except FrameError Body :=
  if f.payload.length ≠ 5 then .error (.goAway .frameSizeError)
  else if beNat (f.payload.take 4) % 2 ^ 31 = f.streamID then .error (.goAway .protocolError)
  else .ok .priority

def deserializeWindowUpdate (f : Frame) : Except FrameError Body :=
  if f.payload.length ≠ 4 then .error (.goAway .frameSizeError)
  else if beNat f.payload % 2 ^ 31 = 0 then
    .error (if f.streamID = 0 then .goAway .protocolError else .resetStream .protocolError)
  else .ok (.windowUpdate (beNat f.payload % 2 ^ 31))

def deserialize (f : Frame) : Except FrameError Body :=
  if f.type = 0x0 then
    if f.streamID = 0 then .error (.goAway .protocolError) else f.unpadded.map .data
  else if f.type = 0x1 then
    if f.streamID = 0 then .error (.goAway .protocolError) else f.deserializeHeaders
  else if f.type = 0x2 then
    if f.streamID = 0 then .error (.goAway .protocolError) else f.deserializePriority
  else if f.type = 0x3 then
    if f.streamID = 0 then .error (.goAway .protocolError)
    else if f.payload.length ≠ 4 then .error (.goAway .frameSizeError)
    else .ok (.rstStream (beNat f.payload))
  else if f.type = 0x4 then f.deserializeSettings
  else if f.type = 0x5 then
    if f.streamID = 0 then .error (.goAway .protocolError) else f.deserializePushPromise
  else if f.type = 0x6 then
    if f.streamID ≠ 0 then .error (.goAway .protocolError)
    else if f.payload.length ≠ 8 then .error (.goAway .frameSizeError)
    else .ok (.ping f.isAck f.payload)
  else if f.type = 0x7 then
    if f.streamID ≠ 0 then .error (.goAway .protocolError)
    else if f.payload.length < 8 then .error (.goAway .frameSizeError)
    else .ok (.goAway (beNat (f.payload.take 4) % 2 ^ 31) (beNat ((f.payload.drop 4).take 4)))
  else if f.type = 0x8 then f.deserializeWindowUpdate
  else if f.type = 0x9 then
    if f.streamID = 0 then .error (.goAway .protocolError) else .ok (.continuation f.payload)
  else .ok .unknown

/-- `ReadFrameFromWithSize` with `DefaultMaxLen`. -/
def body (f : Frame) : Except FrameError Body :=
  if 2 ^ 14 < f.payload.length then .error .payloadExceeds else f.deserialize

end Frame

/-! ## Types and bodies -/

/-- The frame type and the kind of stream that a body comes from. -/
def BodyFits (f : Frame) : Except FrameError Body → Prop
  | .ok (.data _) => f.type = 0x0 ∧ f.streamID ≠ 0
  | .ok (.headers _) => f.type = 0x1 ∧ f.streamID ≠ 0
  | .ok .priority => f.type = 0x2 ∧ f.streamID ≠ 0
  | .ok (.rstStream _) => f.type = 0x3 ∧ f.streamID ≠ 0
  | .ok (.settings _) => f.type = 0x4 ∧ f.streamID = 0
  | .ok (.pushPromise _ _) => f.type = 0x5 ∧ f.streamID ≠ 0
  | .ok (.ping _ _) => f.type = 0x6 ∧ f.streamID = 0
  | .ok (.goAway _ _) => f.type = 0x7 ∧ f.streamID = 0
  | .ok (.windowUpdate _) => f.type = 0x8
  | .ok (.continuation _) => f.type = 0x9 ∧ f.streamID ≠ 0
  | .ok .unknown => f.type ∉ [0x0, 0x1, 0x2, 0x3, 0x4, 0x5, 0x6, 0x7, 0x8, 0x9]
  | .error _ => True

section Fits

variable {f : Frame}

theorem fits_deserializeHeaders (ht : f.type = 0x1) (h0 : f.streamID ≠ 0) : BodyFits f f.deserializeHeaders := by
  unfold Frame.deserializeHeaders
  cases f.unpadded with
  | error e => trivial
  | ok payload =>
    simp only [bind, Except.bind]
    split
    · split
      · trivial
      · dsimp only [pure, Except.pure]
        split
        · trivial
        · exact ⟨ht, h0⟩
    · exact ⟨ht, h0⟩

theorem fits_deserializePushPromise (ht : f.type = 0x5) (h0 : f.streamID ≠ 0) :
    BodyFits f f.deserializePushPromise := by
  unfold Frame.deserializePushPromise
  cases f.unpadded with
  | error e => trivial
  | ok payload =>
    simp only [bind, Except.bind]
    split
    · trivial
    · exact ⟨ht, h0⟩

theorem fits_deserializeSettings (ht : f.type = 0x4) : BodyFits f f.deserializeSettings := by
  unfold Frame.deserializeSettings
  split
  · trivial
  · rename_i h0
    split
    · trivial
    · split
      · trivial
      · split
        · trivial
        · exact ⟨ht, not_not.1 h0⟩

/-- One branch of `deserialize`. -/
theorem fits_ite {p : Prop} [Decidable p] {e : FrameError} {x : Except FrameError Body} (h : ¬p → BodyFits f x) :
    BodyFits f (if p then .error e else x) :=
  iteInduction (motive := BodyFits f) (fun _ => trivial) h

theorem fits_deserialize (f : Frame) : BodyFits f f.deserialize := by
  unfold Frame.deserialize
  refine iteInduction (motive := BodyFits f) (fun ht => fits_ite fun h0 => ?_) fun h₀ => ?_
  · cases f.unpadded with
    | error e => trivial
    | ok payload => exact ⟨ht, h0⟩
  refine iteInduction (motive := BodyFits f) (fun ht => fits_ite (fits_deserializeHeaders ht)) fun h1 => ?_
  refine iteInduction (motive := BodyFits f) (fun ht => fits_ite fun h0 => ?_) fun h2 => ?_
  · exact fits_ite fun _ => fits_ite fun _ => ⟨ht, h0⟩
  refine iteInduction (motive := BodyFits f) (fun ht => fits_ite fun h0 => ?_) fun h3 => ?_
  · exact fits_ite fun _ => ⟨ht, h0⟩
  refine iteInduction (motive := BodyFits f) fits_deserializeSettings fun h4 => ?_
  refine iteInduction (motive := BodyFits f) (fun ht => fits_ite (fits_deserializePushPromise ht)) fun h5 => ?_
  refine iteInduction (motive := BodyFits f) (fun ht => fits_ite fun h0 => ?_) fun h6 => ?_
  · exact fits_ite fun _ => ⟨ht, not_not.1 h0⟩
  refine iteInduction (motive := BodyFits f) (fun ht => fits_ite fun h0 => ?_) fun h7 => ?_
  · exact fits_ite fun _ => ⟨ht, not_not.1 h0⟩
  refine iteInduction (motive := BodyFits f) (fun ht => ?_) fun h8 => ?_
  · exact fits_ite fun _ => fits_ite fun _ => ht
  refine iteInduction (motive := BodyFits f) (fun ht => fits_ite fun h0 => ⟨ht, h0⟩) fun h9 => ?_
  simp only [BodyFits, List.mem_cons, List.not_mem_nil, or_false, not_or]
  exact ⟨h₀, h1, h2, h3, h4, h5, h6, h7, h8, h9⟩

theorem fits_body {b : Body} (h : f.body = .ok b) : BodyFits f (.ok b) := by
  unfold Frame.body at h
  split at h
  · cases h
  rw [← h]
  exact fits_deserialize f

theorem read_of_settings {st : Settings} (h : f.body = .ok (.settings st)) :
    Settings.read { ack := f.isAck } f.payload = .ok st := by
  have ht := (fits_body h).1
  unfold Frame.body at h
  split at h
  · cases h
  have hd : f.deserialize = f.deserializeSettings := by simp [Frame.deserialize, ht]
  rw [hd] at h
  unfold Frame.deserializeSettings at h
  split at h
  · cases h
  split at h
  · cases h
  split at h
  · cases h
  split at h
  · cases h
  rename_i st' hread
  cases h
  exact hread

end Fits

end Mach.H2
