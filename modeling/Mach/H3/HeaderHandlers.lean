import Mach.Headkit.Headers
import Mach.Lib.Numeral
/-!
# Field sections of HTTP/3 messages

The QPACK decoder hands the fields of a section to a handler one by one and
reports an error, if there is one, behind them. There is one handler for
requests, one for responses and one for trailers; each notes the first field that
is not allowed and ignores the rest.
-/

namespace Mach.H3
open Lib Lib.Numeral Headkit List

/-- What the decoder makes of a field section. -/
structure Section where
  fields : List Field
  /-- `OnDecodingErrorDetected` is called behind the fields. -/
  failed : Bool := false
  deriving DecidableEq, Repr

inductive DecodeError where
  | errMalformedHeader | errQPACKDecompressFailed | errMissingStatusHeader | errMissingMethodOrPath
  deriving DecidableEq, Repr

/-- An octet that no name may have: a control character, a space, an upper-case letter or one that is not ASCII. -/
def isBadNameByte (c : UInt8) : Bool := decide (c ≤ 0x20 ∨ 0x7f ≤ c ∨ 65 ≤ c ∧ c ≤ 90)

def isConnectionSpecific (name : List UInt8) : Bool :=
  name ∈ [ascii "connection", ascii "keep-alive", ascii "proxy-connection", ascii "transfer-encoding", ascii "upgrade"]

def atoi (s : List UInt8) : Option Int :=
  match s with
  | 45 :: digits => (decimal digits).bind fun n => if n ≤ 2 ^ 63 then some (-(n : Int)) else none
  | 43 :: digits => (decimal digits).bind fun n => if n < 2 ^ 63 then some (n : Int) else none
  | digits => (decimal digits).bind fun n => if n < 2 ^ 63 then some (n : Int) else none

/-! ## Responses -/

inductive HeaderCall where
  | setStatusCode (code : Int)
  | setContentLength (n : Int)
  | addBytesKV (key value : List UInt8)
  deriving DecidableEq, Repr

structure ResponseHeaderHandler where
  /-- The calls on `res`, in order. -/
  calls : List HeaderCall := []
  hasStatus : Bool := false
  hasSeenRegularHeader : Bool := false
  statusCode : Int := 0
  parseErr : Option DecodeError := none
  deriving DecidableEq, Repr

namespace ResponseHeaderHandler

def fail (h : ResponseHeaderHandler) : ResponseHeaderHandler := { h with parseErr := some .errMalformedHeader }

def onPseudo (h : ResponseHeaderHandler) (name value : List UInt8) : ResponseHeaderHandler :=
  if h.hasSeenRegularHeader then h.fail
  else if name ≠ ascii ":status" then h.fail
  else if h.hasStatus then h.fail
  else
    match atoi value with
    | none => h.fail
    | some code =>
      if code = 101 then { h with statusCode := code }.fail
      else
        { h with
          statusCode := code
          calls := if code < 100 ∨ 200 ≤ code then h.calls ++ [.setStatusCode code] else h.calls
          hasStatus := true }

def onRegular (h : ResponseHeaderHandler) (name value : List UInt8) : ResponseHeaderHandler :=
  let h := { h with hasSeenRegularHeader := true }
  if isConnectionSpecific name ∨ name = ascii "te" then h.fail
  else if name = ascii "content-length" then
    match atoi value with
    | none => h
    | some clen => { h with calls := h.calls ++ [.setContentLength clen] }
  else { h with calls := h.calls ++ [.addBytesKV name value] }

def onHeaderDecoded (h : ResponseHeaderHandler) (f : Field) : ResponseHeaderHandler :=
  if h.parseErr.isSome then h
  else if f.1.any isBadNameByte then h.fail
  else if f.2.any (· == 0) then h.fail
  else if f.1.head? = some 58 then h.onPseudo f.1 f.2
  else h.onRegular f.1 f.2

end ResponseHeaderHandler

/-- `DecodeResponseHeaders`: the status, and the calls on the header. -/
def decodeResponseHeaders (s : Section) : Except DecodeError (Int × List HeaderCall) :=
  let h := s.fields.foldl ResponseHeaderHandler.onHeaderDecoded {}
  if s.failed then .error .errQPACKDecompressFailed
  else
    match h.parseErr with
    | some e => .error e
    | none => if h.hasStatus = false then .error .errMissingStatusHeader else .ok (h.statusCode, h.calls)

/-- The status that the calls leave in the header. -/
def statusOf (calls : List HeaderCall) : Option Int :=
  calls.foldl (fun s c => match c with | .setStatusCode code => some code | _ => s) none

theorem statusOf_append (calls calls' : List HeaderCall) (h : ∀ c ∈ calls', ∀ code, c ≠ .setStatusCode code) :
    statusOf (calls ++ calls') = statusOf calls := by
  induction calls' using List.reverseRecOn with
  | nil => rw [append_nil]
  | append_singleton calls' c ih =>
    have ih := ih fun c hc => h c (mem_append_left _ hc)
    have hc := h c (mem_append_right _ mem_cons_self)
    rw [← append_assoc, statusOf, foldl_append]
    cases c with
    | setStatusCode code => exact absurd rfl (hc code)
    | setContentLength n => exact ih
    | addBytesKV key value => exact ih

theorem statusOf_concat (calls : List HeaderCall) (code : Int) :
    statusOf (calls ++ [.setStatusCode code]) = some code := by
  rw [statusOf, foldl_append]
  rfl

namespace ResponseHeaderHandler

/-- The status is in the header, unless it is that of an interim response. It is not 101. -/
def StatusSet (h : ResponseHeaderHandler) : Prop :=
  h.parseErr = none → h.hasStatus = true → h.statusCode ≠ 101 ∧
    (h.statusCode < 100 ∨ 200 ≤ h.statusCode → statusOf h.calls = some h.statusCode)

theorem statusSet_onHeaderDecoded {h : ResponseHeaderHandler} (hset : h.StatusSet) (f : Field) :
    (h.onHeaderDecoded f).StatusSet := by
  have hfail : ∀ h : ResponseHeaderHandler, h.fail.StatusSet := fun _ => nofun
  have hkept : ∀ c : HeaderCall, (∀ code, c ≠ .setStatusCode code) →
      { h with hasSeenRegularHeader := true, calls := h.calls ++ [c] }.StatusSet := by
    intro c hc hp hs
    rw [statusOf_append _ _ fun c' hc' => mem_singleton.1 hc' ▸ hc]
    exact hset hp hs
  unfold onHeaderDecoded onPseudo onRegular
  repeat' first
    | exact hset
    | exact hfail _
    | exact hkept _ nofun
    | split
  · exact fun _ _ => ⟨‹_›, fun _ => statusOf_concat _ _⟩
  · exact fun _ _ => ⟨‹_›, fun hcode => absurd hcode ‹_›⟩

end ResponseHeaderHandler

theorem statusOf_decodeResponseHeaders {s : Section} {code : Int} {calls : List HeaderCall}
    (h : decodeResponseHeaders s = .ok (code, calls)) :
    code ≠ 101 ∧ (code < 100 ∨ 200 ≤ code → statusOf calls = some code) := by
  have hset : (s.fields.foldl ResponseHeaderHandler.onHeaderDecoded {}).StatusSet :=
    List.foldlRecOn s.fields _ (motive := ResponseHeaderHandler.StatusSet) nofun
      fun _ hset f _ => ResponseHeaderHandler.statusSet_onHeaderDecoded hset f
  simp only [decodeResponseHeaders] at h
  generalize s.fields.foldl ResponseHeaderHandler.onHeaderDecoded {} = handler at hset h
  split at h
  · cases h
  split at h
  · cases h
  rename_i hnone
  split at h
  · cases h
  rename_i hstatus
  cases h
  exact hset hnone (Bool.not_eq_false _ ▸ hstatus)

/-! ## Trailers -/

structure TrailersHandler where
  trailers : List Field := []
  err : Option DecodeError := none
  deriving DecidableEq, Repr

def TrailersHandler.onHeaderDecoded (h : TrailersHandler) (f : Field) : TrailersHandler :=
  if h.err.isSome then h
  else if f.1.head? = some 58 ∨ f.1.any isBadNameByte ∨ isConnectionSpecific f.1 ∨ f.1 = ascii "te" then
    { h with err := some .errMalformedHeader }
  else { h with trailers := h.trailers ++ [f] }

/-- `DecodeResponseTrailers`, with the fields in the order they come in. -/
def decodeResponseTrailers (s : Section) : Except DecodeError (List Field) :=
  let h := s.fields.foldl TrailersHandler.onHeaderDecoded {}
  if s.failed then .error .errQPACKDecompressFailed
  else
    match h.err with
    | some e => .error e
    | none => .ok h.trailers

end Mach.H3
