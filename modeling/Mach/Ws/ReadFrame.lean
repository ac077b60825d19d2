import Mach.Lib.Run
import Mach.Ws.Conn
/-!
# Single frames off the stream

`Conn.ReadFrame` returns the next data frame in a buffer of the caller's and
answers the control frames before it. Its header is off the stream when the
buffer turns out too small, and the payload stays there: the next call takes the
payload for a header. This, and a stream that ends inside a header, are the only
ways in which a call that leaves the connection open loses its place.
-/

namespace Mach.Ws

open Lib List

namespace Conn

variable {rest payload : List UInt8}

/-! ## The model -/

/-- What `ReadFrame` returns: a frame, or how a call of it ended otherwise. -/
inductive FrameOutcome where
  | frame (h : Header) (payload : List UInt8)
  | errBufferTooSmall
  | ended (o : Outcome)
  deriving DecidableEq, Repr

/-- The checks of a header. They are those of the other readers, but for RSV1, which any frame may have if the connection
is one with deflate. -/
def refuseFrame (cfg : Config) (c : Conn) (h : Header) : Option (String × Err) :=
  c.refuse cfg (if cfg.enableDeflate then { h with rsv1 := false } else h)

def dataFrame (cfg : Config) (bufLen : Nat) (c : Conn) (h : Header) : Conn × Option FrameOutcome :=
  if 0 < cfg.readLimit ∧ cfg.readLimit < h.payloadLen then
    let r := c.reject h statusMessageTooBig "Frame payload exceeds read limit" errMessageTooBig
    (r.1, r.2.map .ended)
  else if bufLen < h.payloadLen then (c, some .errBufferTooSmall)
  else
    let r := c.readPayload h
    match r.1 with
    | .error e => (r.2, some (.ended (.failed e.toErr)))
    | .ok payload => (r.2, some (.frame h payload))

/-- A round of the loop, with a buffer of `bufLen` octets. -/
def frameRound (cfg : Config) (bufLen : Nat) (c : Conn) : Conn × Option FrameOutcome :=
  let ends (r : Conn × Option Outcome) := (r.1, r.2.map FrameOutcome.ended)
  if c.state = .stateClosed then (c, some (.ended (.failed .errClosed)))
  else
    let r := readHeader c.input
    let c := { c with input := r.2 }
    match r.1 with
    | .error e => ends (c.headerFailed e)
    | .ok h =>
      match c.refuseFrame cfg h with
      | some (reason, e) => ends (c.reject h statusProtocolError reason e)
      | none => if isControl h.opcode then ends (c.controlFrame h) else c.dataFrame cfg bufLen h

def frameLoop (cfg : Config) (bufLen : Nat) : Nat → Conn → Conn × Option FrameOutcome
  | 0, c => (c, none)
  | fuel + 1, c =>
    match (c.frameRound cfg bufLen).2 with
    | some o => ((c.frameRound cfg bufLen).1, some o)
    | none => frameLoop cfg bufLen fuel (c.frameRound cfg bufLen).1

/-- Every round but the last takes a header off the stream. -/
def readFrame (cfg : Config) (bufLen : Nat) (c : Conn) : Conn × Option FrameOutcome :=
  frameLoop cfg bufLen (c.input.length + 1) c

/-! ## Places in the stream -/

/-- The frame at the front of the stream is whole, and `rest` comes behind it. -/
def Next (ok : Header → Bool) (s rest : List UInt8) : Prop :=
  ∃ h n, parseHeader s = .ok (h, n) ∧ ok h ∧ n + h.payloadLen ≤ s.length ∧ rest = s.drop (n + h.payloadLen)

/-- `rest` is the stream behind some of its frames. -/
def Boundary : List UInt8 → List UInt8 → Prop := Relation.ReflTransGen (Next fun _ => true)

/-- `rest` is the stream behind some control frames. -/
def Controls : List UInt8 → List UInt8 → Prop := Relation.ReflTransGen (Next fun h => isControl h.opcode)

/-- The frame is the next one that is not a control frame, with its whole payload unmasked, and `rest` comes behind it. -/
def NextData (s : List UInt8) (h : Header) (payload rest : List UInt8) : Prop :=
  ∃ r n, Controls s r ∧ parseHeader r = .ok (h, n) ∧
    isControl h.opcode = false ∧ n + h.payloadLen ≤ r.length ∧ rest = r.drop (n + h.payloadLen) ∧
    payload = unmasked h (slice r n h.payloadLen)

/-- A call: where it began and where it stopped reading, and what it returned. -/
structure FrameCall where
  start : List UInt8
  stop : List UInt8
  outcome : Option FrameOutcome
  deriving DecidableEq, Repr

def frameCall (cfg : Config) (c : Conn) (bufLen : Nat) : Option (Conn × List FrameCall) :=
  let r := c.readFrame cfg bufLen
  some (r.1, [⟨c.input, r.1.input, r.2⟩])

/-- As long as the connection is open the reader is at the start of a frame, and what it has returned are the frames of
the stream, each the next one from where its call began. -/
def InPlace (s : List UInt8) (c : Conn) (calls : List FrameCall) : Prop :=
  (c.state ≠ .stateClosed → Boundary s c.input) ∧ ∀ x ∈ calls, x.outcome ≠ none ∧
    ∀ h payload, x.outcome = some (.frame h payload) → Boundary s x.start ∧ NextData x.start h payload x.stop

/-- The call finds its buffer too small, or the stream ends inside a header. -/
def LosesPlace (cfg : Config) (c : Conn) (bufLen : Nat) : Prop :=
  (c.readFrame cfg bufLen).2 = some .errBufferTooSmall ∨
    (c.readFrame cfg bufLen).1.state ≠ .stateClosed ∧
      (c.readFrame cfg bufLen).2 = some (.ended (.failed .errUnexpectedEOF))

instance (cfg : Config) (c : Conn) (bufLen : Nat) : Decidable (LosesPlace cfg c bufLen) :=
  inferInstanceAs (Decidable (_ ∨ _ ∧ _))

/-! ## A round -/

variable {cfg : Config} {bufLen : Nat} {c : Conn} {h : Header} {n : Nat} {s r r' : List UInt8}

theorem closeFrame_closed (c : Conn) (payload : List UInt8) :
    ∃ c' o, c.closeFrame payload = (c', some o) ∧ c'.state = .stateClosed := by
  simp only [closeFrame]
  split <;> exact ⟨_, _, rfl, rfl⟩

/-- A control frame is taken off the stream, or the connection is closed. -/
theorem controlFrame_cases (c : Conn) (h : Header) :
    (∃ c' o, c.controlFrame h = (c', some o) ∧ c'.state = .stateClosed) ∨
    ∃ c', c.controlFrame h = (c', none) ∧ c'.state = c.state ∧ h.payloadLen ≤ c.input.length ∧
      c'.input = c.input.drop h.payloadLen := by
  obtain ⟨e, hr, -⟩ | ⟨p, hr, hle, -⟩ := readPayload_cases c h
  · simp only [controlFrame, hr]
    exact .inl ⟨_, _, rfl, rfl⟩
  · simp only [controlFrame, hr]
    split_ifs
    · exact .inr ⟨_, rfl, rfl, hle, rfl⟩
    · exact .inr ⟨_, rfl, rfl, hle, rfl⟩
    · exact .inl (closeFrame_closed _ _)

/-- How a round on an open connection ends. -/
inductive Round (c : Conn) : Conn × Option FrameOutcome → Prop
  | control {c' : Conn} (hopen : c'.state ≠ .stateClosed) (hn : Next (fun h => isControl h.opcode) c.input c'.input) :
    Round c (c', none)
  | closed {c' : Conn} (hclosed : c'.state = .stateClosed) (o : Outcome) : Round c (c', some (.ended o))
  | frame {c' : Conn} {h : Header} {payload : List UInt8} (hd : NextData c.input h payload c'.input) :
    Round c (c', some (.frame h payload))
  | tooSmall {h : Header} {n : Nat} (hp : parseHeader c.input = .ok (h, n)) (hlen : 0 < h.payloadLen) :
    Round c ({ c with input := c.input.drop n }, some .errBufferTooSmall)
  | cutOff (hlt : c.input.length < headerSize c.input) (hne : c.input ≠ []) :
    Round c ({ c with input := [] }, some (.ended (.failed .errUnexpectedEOF)))

theorem round_headerFailed {e : ReadError ⊕ HeaderError} (hr : readHeader c.input = (.error e, rest)) :
    Round c ((({ c with input := rest } : Conn).headerFailed e).1,
      (({ c with input := rest } : Conn).headerFailed e).2.map .ended) := by
  by_cases hs : headerSize c.input ≤ c.input.length
  · -- a header that is there is not incomplete
    rw [readHeader_complete hs] at hr
    cases hp : parseHeader c.input with
    | ok p => simp [hp] at hr
    | error e' =>
      simp only [hp, Prod.mk.injEq, Except.error.injEq] at hr
      obtain ⟨rfl, rfl⟩ := hr
      cases e' with
      | errIncomplete => exact absurd (headerSize_of_incomplete hp) (Nat.not_lt.2 hs)
      | _ => exact .closed rfl _
  · obtain ⟨e', hr'⟩ := readHeader_short (Nat.not_le.1 hs)
    rw [hr'] at hr
    cases hr
    cases e' with
    | eof => exact .closed rfl _
    | errUnexpectedEOF =>
      refine .cutOff (Nat.not_le.1 hs) fun hnil => ?_
      rw [hnil] at hr'
      cases hr'

theorem round_frameRound (hopen : c.state ≠ .stateClosed) : Round c (c.frameRound cfg bufLen) := by
  rw [frameRound, if_neg hopen]
  cases hr : readHeader c.input with
  | mk res rest =>
    cases res with
    | error e => exact round_headerFailed hr
    | ok h =>
      obtain ⟨n, hp, rfl⟩ := readHeader_ok_iff.1 hr
      have hle := (parseHeader_ok hp).2.1
      have hbehind : h.payloadLen ≤ (c.input.drop n).length → n + h.payloadLen ≤ c.input.length ∧
          (c.input.drop n).drop h.payloadLen = c.input.drop (n + h.payloadLen) := by
        rw [length_drop, drop_drop]
        exact fun h => ⟨by omega, rfl⟩
      dsimp only
      cases refuseFrame cfg { c with input := c.input.drop n } h with
      | some r => exact .closed rfl _
      | none =>
        dsimp only
        split_ifs with hctl
        · obtain ⟨c', o, hc, hclosed⟩ | ⟨c', hc, hstate, hlen, hinput⟩ :=
            controlFrame_cases { c with input := c.input.drop n } h
          · rw [hc]
            exact .closed hclosed o
          · obtain ⟨hwhole, hdrop⟩ := hbehind hlen
            rw [hc]
            exact .control (hstate ▸ hopen) ⟨h, n, hp, hctl, hwhole, hinput.trans hdrop⟩
        · unfold dataFrame
          split_ifs with hlimit hsmall
          · exact .closed rfl _
          · exact .tooSmall hp (by omega)
          · obtain ⟨e, hr, -⟩ | ⟨p, hr, hlen, -, rfl⟩ := readPayload_cases { c with input := c.input.drop n } h
            · simp only [hr]
              exact .closed rfl _
            · obtain ⟨hwhole, hdrop⟩ := hbehind hlen
              simp only [hr]
              exact .frame ⟨c.input, n, .refl, hp, by simpa using hctl, hwhole, hdrop, rfl⟩

/-! ## A call -/

theorem next_shorter {ok : Header → Bool} (h : Next ok s r) : r.length < s.length := by
  obtain ⟨h, n, hp, -, hle, rfl⟩ := h
  have hn := (parseHeader_ok hp).1
  rw [length_drop]
  omega

theorem boundary_of_control (h : Controls s r) : Boundary s r := by
  refine Relation.ReflTransGen.mono ?_ _ _ h
  rintro _ _ ⟨h, n, hp, -, hle, heq⟩
  exact ⟨h, n, hp, rfl, hle, heq⟩

theorem NextData.boundary (h : NextData s h payload r) : Boundary s r := by
  obtain ⟨q, n, hq, hp, -, hle, hr, -⟩ := h
  exact (boundary_of_control hq).tail ⟨_, n, hp, rfl, hle, hr⟩

theorem NextData.behind (hd : NextData r h payload rest) (hctl : Controls s r) : NextData s h payload rest := by
  obtain ⟨q, n, hq, hd⟩ := hd
  exact ⟨q, n, hctl.trans hq, hd⟩

/-- The last round of a call, behind the control frames it has answered. -/
theorem frameLoop_last {fuel : Nat} (hopen : c.state ≠ .stateClosed) (hfuel : c.input.length < fuel) :
    ∃ c' o, Controls c.input c'.input ∧ c'.state ≠ .stateClosed ∧
      (frameLoop cfg bufLen fuel c).2 = some o ∧ Round c' (frameLoop cfg bufLen fuel c) := by
  induction fuel generalizing c with
  | zero => exact absurd hfuel (Nat.not_lt_zero _)
  | succ fuel ih =>
    have hround := @round_frameRound cfg bufLen c hopen
    rw [frameLoop]
    generalize c.frameRound cfg bufLen = q at hround
    obtain ⟨c', o⟩ := q
    cases o with
    | some o => exact ⟨c, o, .refl, hopen, rfl, hround⟩
    | none =>
      cases hround with
      | control hopen' hn =>
        obtain ⟨c'', o, hctl, ho⟩ := ih hopen' (by have := next_shorter hn; omega)
        exact ⟨c'', o, .head hn hctl, ho⟩

theorem next_unique : Relator.RightUnique (Next fun _ => true) := by
  rintro s r r' ⟨h, n, hp, -, -, rfl⟩ ⟨h', n', hp', -, -, rfl⟩
  rw [hp] at hp'
  cases hp'
  rfl

theorem boundary_length (h : Boundary s r) : r.length ≤ s.length := by
  induction h with
  | refl => exact le_rfl
  | tail _ hn ih => exact (next_shorter hn).le.trans ih

/-- No frame starts between the start of a frame and its end. -/
theorem not_boundary (hs : Boundary s r) (hlt : r'.length < r.length)
    (hin : ∀ h n, parseHeader r = .ok (h, n) → n + h.payloadLen ≤ r.length → r.length - (n + h.payloadLen) < r'.length) :
    ¬ Boundary s r' := by
  intro hs'
  rcases Relation.ReflTransGen.total_of_right_unique next_unique hs hs' with hb | hb
  · rcases hb.cases_head with rfl | ⟨q, ⟨h, n, hp, -, hle, rfl⟩, hq⟩
    · exact lt_irrefl _ hlt
    · have hmore := hin h n hp hle
      have hless := boundary_length hq
      rw [length_drop] at hless
      omega
  · have := boundary_length hb
    omega

/-- A call of an open connection at the start of a frame: it stays at the start of a frame, or closes the connection, or
loses its place. -/
theorem readFrame_place (hs : c.state ≠ .stateClosed → Boundary s c.input) :
    (¬ LosesPlace cfg c bufLen → InPlace s (c.readFrame cfg bufLen).1
      [⟨c.input, (c.readFrame cfg bufLen).1.input, (c.readFrame cfg bufLen).2⟩]) ∧
    (LosesPlace cfg c bufLen → (c.readFrame cfg bufLen).1.state ≠ .stateClosed ∧
      ¬ Boundary s (c.readFrame cfg bufLen).1.input) := by
  unfold LosesPlace
  by_cases hopen : c.state = .stateClosed
  · have hread : c.readFrame cfg bufLen = (c, some (.ended (.failed .errClosed))) := by
      simp only [readFrame, frameLoop, frameRound, if_pos hopen]
    rw [hread]
    exact ⟨fun _ => ⟨fun h => absurd hopen h, by simp⟩, by simp⟩
  · have hs := hs hopen
    obtain ⟨c', o, hctl, hopen', ho, hlast⟩ := @frameLoop_last cfg bufLen c _ hopen (Nat.lt_succ_self _)
    have hplace : Boundary s c'.input := hs.trans (boundary_of_control hctl)
    change (c.readFrame cfg bufLen).2 = some o at ho
    change Round c' (c.readFrame cfg bufLen) at hlast
    generalize c.readFrame cfg bufLen = q at ho hlast
    cases hlast with
    | control => cases ho
    | closed hclosed o => exact ⟨fun _ => ⟨fun h => absurd hclosed h, by simp⟩, by simp [hclosed]⟩
    | frame hd =>
      have hnext := hd.behind hctl
      refine ⟨fun _ => ⟨fun _ => hs.trans hnext.boundary, ?_⟩, by simp⟩
      simp only [mem_singleton, forall_eq]
      refine ⟨nofun, fun h payload heq => ?_⟩
      cases heq
      exact ⟨hs, hnext⟩
    | @tooSmall h n hp hlen =>
      obtain ⟨hn, hle, -⟩ := parseHeader_ok hp
      refine ⟨fun h => absurd (.inl rfl) h, fun _ => ⟨hopen', not_boundary hplace ?_ fun h' n' hp' hwhole => ?_⟩⟩
      · rw [length_drop]
        omega
      · rw [hp] at hp'
        cases hp'
        rw [length_drop]
        omega
    | cutOff hlt hne =>
      refine ⟨fun h => absurd (.inr ⟨hopen', rfl⟩) h, fun _ => ⟨hopen', not_boundary hplace ?_ fun h' n' hp' hwhole => ?_⟩⟩
      · exact length_pos_iff.2 hne
      · obtain ⟨-, hle, hsize⟩ := parseHeader_ok hp'
        omega

end Conn
end Mach.Ws
