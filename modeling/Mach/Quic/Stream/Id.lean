import Mach.Lib.Bytes
/-!
# Errors, states and identifiers of streams

`error.go`, `state.go` and `id.go` of `net/quic/core/stream`. The two low bits of
a stream ID tell who opened the stream and whether it has one direction or two;
the rest numbers the streams of each of the four types, from 1.
-/

namespace Mach.Quic.Stream

open Lib

/-- `varint.Max`, the largest QUIC integer: 2^62 - 1. -/
def varintMax : Nat := 4611686018427387903

inductive TransportErrorCode where
  | noError | internalError | connectionRefused | flowControlError | streamLimitError | streamStateError
  | finalSizeError | frameEncodingError | transportParameterError | connectionIDLimitError | protocolViolation
  | invalidToken | applicationError | cryptoBufferExceeded | keyUpdateError | aeadLimitReached | noViablePath
  deriving DecidableEq, Repr

structure TransportError where
  errorCode : TransportErrorCode
  errorMessage : String
  deriving DecidableEq, Repr

structure StreamError where
  streamID : Nat
  errorCode : Nat
  remote : Bool
  deriving DecidableEq, Repr

/-- The sending part of a stream (RFC 9000 §3.1). -/
inductive SendState where
  | ready | send | dataSent | resetSent | dataRecvd | resetRecvd
  deriving DecidableEq, Repr

def SendState.isTerminal (s : SendState) : Bool := s = .dataRecvd || s = .resetRecvd

/-- The receiving part of a stream (RFC 9000 §3.2). -/
inductive RecvState where
  | recv | sizeKnown | dataRecvd | dataRead | resetRecvd | resetRead
  deriving DecidableEq, Repr

def RecvState.isTerminal (s : RecvState) : Bool := s = .dataRead || s = .resetRead

/-- The transitions of the sending part, as `state.go` lists them. -/
def validateSendTransition (a b : SendState) : Bool :=
  if a = b then true
  else
    match a with
    | .ready => b = .send || b = .dataSent || b = .resetSent
    | .send => b = .dataSent || b = .resetSent
    | .dataSent => b = .dataRecvd || b = .resetSent
    | .resetSent => b = .resetRecvd
    | .dataRecvd | .resetRecvd => false

@[simp] theorem validateSendTransition_self (a : SendState) : validateSendTransition a a := by
  simp [validateSendTransition]

/-- The transitions of the receiving part, as `state.go` lists them. -/
def validateRecvTransition (a b : RecvState) : Bool :=
  if a = b then true
  else
    match a with
    | .recv => b = .sizeKnown || b = .dataRecvd || b = .resetRecvd
    | .sizeKnown => b = .dataRecvd || b = .resetRecvd
    | .dataRecvd => b = .dataRead || b = .resetRecvd
    | .resetRecvd => b = .resetRead
    | .dataRead | .resetRead => false

@[simp] theorem validateRecvTransition_self (a : RecvState) : validateRecvTransition a a := by
  simp [validateRecvTransition]

inductive Perspective where
  | client | server
  deriving DecidableEq, Repr

inductive StreamType where
  | clientBidi | serverBidi | clientUni | serverUni
  deriving DecidableEq, Repr

def StreamType.toNat : StreamType → Nat
  | clientBidi => 0
  | serverBidi => 1
  | clientUni => 2
  | serverUni => 3

inductive Direction where
  | bidi | uni
  deriving DecidableEq, Repr

def StreamType.direction : StreamType → Direction
  | clientBidi | serverBidi => .bidi
  | clientUni | serverUni => .uni

namespace StreamID

def isClientInitiated (id : Nat) : Bool := id &&& 1 = 0

def isServerInitiated (id : Nat) : Bool := id &&& 1 ≠ 0

def isBidi (id : Nat) : Bool := id &&& 2 = 0

def streamNum (id : Nat) : Nat := u64 (id >>> 2 + 1)

def direction (id : Nat) : Direction := if isBidi id then .bidi else .uni

end StreamID

open StreamID

def newStreamID (st : StreamType) (streamNum : Nat) : Nat :=
  if streamNum = 0 then st.toNat else u64 ((streamNum - 1) <<< 2) ||| st.toNat

def localType : Perspective → Direction → StreamType
  | .client, .bidi => .clientBidi
  | .server, .bidi => .serverBidi
  | .client, .uni => .clientUni
  | .server, .uni => .serverUni

def isPeerInitiated (p : Perspective) (id : Nat) : Bool :=
  (isClientInitiated id && p = .server) || (isServerInitiated id && p = .client)

/-! ## What the bits say -/

theorem and_two (n : Nat) : n &&& 2 = n / 2 % 2 * 2 := by
  have h := Nat.and_two_pow n 1
  rw [Nat.testBit_eq_decide_div_mod_eq] at h
  simp only [pow_one] at h
  rw [h]
  rcases Nat.mod_two_eq_zero_or_one (n / 2) with h0 | h1
  · simp [h0]
  · simp [h1]

theorem isBidi_iff (id : Nat) : isBidi id ↔ id % 4 < 2 := by
  simp only [isBidi, and_two, decide_eq_true_eq]
  omega

theorem streamNum_eq {id : Nat} (h : id < 2 ^ 64) : streamNum id = id / 4 + 1 := by
  rw [streamNum, Nat.shiftRight_eq_div_pow]
  exact u64_of_lt (by omega)

theorem isPeerInitiated_iff (p : Perspective) (id : Nat) :
    isPeerInitiated p id ↔ id % 2 = if p = .server then 0 else 1 := by
  have hmod := Nat.mod_two_eq_zero_or_one id
  cases p <;> simp [isPeerInitiated, isClientInitiated, isServerInitiated, Nat.and_one_is_mod]

theorem direction_eq (id : Nat) : direction id = if id % 4 < 2 then .bidi else .uni := by
  unfold direction
  simp only [isBidi_iff]

theorem newStreamID_eq (st : StreamType) {n : Nat} (hpos : 0 < n) (hn : n ≤ varintMax) :
    newStreamID st n = 4 * (n - 1) + st.toNat := by
  have hst : st.toNat < 4 := by cases st <;> decide
  simp only [varintMax] at hn
  rw [newStreamID, if_neg (by omega), Nat.shiftLeft_eq, u64_of_lt (by omega), ← Nat.shiftLeft_eq,
    ← Nat.shiftLeft_add_eq_or_of_lt (by omega), Nat.shiftLeft_eq]
  omega

theorem newStreamID_facts (p : Perspective) (d : Direction) {n : Nat} (hpos : 0 < n) (hn : n ≤ varintMax) :
    streamNum (newStreamID (localType p d) n) = n ∧ direction (newStreamID (localType p d) n) = d ∧
      isPeerInitiated p (newStreamID (localType p d) n) = false := by
  have hid := newStreamID_eq (localType p d) hpos hn
  have hst : (localType p d).toNat < 4 := by cases p <;> cases d <;> decide
  rw [hid]
  simp only [varintMax] at hn
  refine ⟨?_, ?_, ?_⟩
  · rw [streamNum_eq (by omega)]
    omega
  · rw [direction_eq]
    cases p <;> cases d <;> simp only [localType, StreamType.toNat]
    · exact if_pos (by omega)
    · exact if_neg (by omega)
    · exact if_pos (by omega)
    · exact if_neg (by omega)
  · rw [Bool.eq_false_iff, ne_eq, isPeerInitiated_iff]
    cases p <;> cases d <;> simp only [localType, StreamType.toNat] <;> simp <;> omega

/-- Two IDs of the same initiator and direction with the same number are equal. -/
theorem streamID_inj {p : Perspective} {id id' : Nat} (h : id < 2 ^ 64) (h' : id' < 2 ^ 64)
    (hpeer : isPeerInitiated p id = isPeerInitiated p id') (hdir : direction id = direction id')
    (hnum : streamNum id = streamNum id') : id = id' := by
  rw [streamNum_eq h, streamNum_eq h'] at hnum
  rw [direction_eq, direction_eq] at hdir
  rw [Bool.eq_iff_iff, isPeerInitiated_iff, isPeerInitiated_iff] at hpeer
  by_cases h1 : id % 4 < 2 <;> by_cases h2 : id' % 4 < 2 <;> simp only [h1, h2, if_true, if_false, reduceCtorEq] at hdir <;>
    split at hpeer <;> omega

end Mach.Quic.Stream
