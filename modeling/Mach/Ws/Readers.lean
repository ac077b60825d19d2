import Mach.Lib.Run
import Mach.Ws.Conn
/-!
# One reader in place of the other

A run of calls, each of `ReadMessage` or of `ReadMessageBuf`, against the run in
which every call is of `ReadMessage`. The two connections differ only in what a
complete message has left in the fragment buffer, as long as every frame is one
that both readers treat alike: `Alike` says which frames those are.
-/

namespace Mach.Ws

open Lib List

namespace Conn

/-! ## Results -/

/-- What a call returned and which control frames it sent. -/
structure Result where
  outcome : Option Outcome
  sent : List (Opcode × List UInt8)
  /-- The most octets the fragment buffer held during the call. -/
  buffered : Nat
  deriving DecidableEq, Repr

/-- The most octets the fragment buffer holds in the rounds of a loop. -/
def buffered (cfg : Config) (k : Reader) : Nat → Conn → Nat
  | 0, c => c.fragmentBuf.length
  | fuel + 1, c =>
    match (c.round cfg k).2 with
    | some _ => max c.fragmentBuf.length (c.round cfg k).1.fragmentBuf.length
    | none => max c.fragmentBuf.length (buffered cfg k fuel (c.round cfg k).1)

/-- The connection at the beginning of a call. -/
def afresh (c : Conn) : Conn := { c with sent := [] }

def result (cfg : Config) (c : Conn) (k : Reader) : Result :=
  ⟨(c.afresh.read cfg k).2, (c.afresh.read cfg k).1.sent, buffered cfg k (c.input.length + 1) c.afresh⟩

def call (cfg : Config) (c : Conn) (k : Reader) : Option (Conn × List Result) :=
  some ((c.afresh.read cfg k).1, [c.result cfg k])

/-- What the caller and the peer see of a call. -/
def Result.shown (r : Result) : Option Outcome × List (Opcode × List UInt8) := (r.outcome, r.sent)

/-- The call came back, and neither returned nor buffered more than the limit. -/
def Result.Within (cfg : Config) (r : Result) : Prop :=
  r.outcome ≠ none ∧
    (0 < cfg.readLimit → (r.buffered : Int) ≤ cfg.readLimit ∧
      ∀ op payload, r.outcome = some (.message op payload) → (payload.length : Int) ≤ cfg.readLimit)

/-- The results of the calls are those of as many calls of `ReadMessage`, and within the limit. -/
def Interchangeable (cfg : Config) (input : List UInt8) (ks : List Reader) : Prop :=
  ∃ c c' rs rs', run (call cfg) { input } ks = some (c, rs) ∧
    run (call cfg) { input } (ks.map fun _ => .readMessage) = some (c', rs') ∧
    rs.map Result.shown = rs'.map Result.shown ∧ (∀ r ∈ rs, r.Within cfg) ∧ ∀ r ∈ rs', r.Within cfg

/-! ## Frames that both readers treat alike -/

/-- A frame within the limit by itself. -/
def Fits (cfg : Config) (h : Header) : Prop := cfg.readLimit ≤ 0 ∨ (h.payloadLen : Int) ≤ cfg.readLimit

/-- A frame whose header passed the checks, with the connection behind the header. The limit does not strike at what only
`ReadMessage` holds against it (control frames, the length of the message, what is left in the buffer), and the payload
of a frame out of order is there. -/
def Alike (cfg : Config) (k : Reader) (c : Conn) (h : Header) : Prop :=
  (k = .readMessageBuf → isControl h.opcode → Fits cfg h) ∧
  ((k = .readMessageBuf ∨ c.fragmentOpcode = 0) → ¬ isControl h.opcode → Fits cfg h →
    cfg.readLimit ≤ 0 ∨ (c.fragmentBuf.length + h.payloadLen : Int) ≤ cfg.readLimit) ∧
  (k = .readMessageBuf → ¬ isControl h.opcode → Fits cfg h → ¬ (h.fin ∧ c.fragmentOpcode = 0) →
    c.outOfOrder h ≠ none → h.payloadLen ≤ c.input.length)

/-- The frame at the front of the stream, if the reader gets to it. -/
def RoundAlike (cfg : Config) (k : Reader) (c : Conn) : Prop :=
  match readHeader c.input with
  | (.ok h, rest) =>
    c.state ≠ .stateClosed → refuse cfg { c with input := rest } h = none → Alike cfg k { c with input := rest } h
  | (.error _, _) => True

def LoopAlike (cfg : Config) (k : Reader) : Nat → Conn → Prop
  | 0, _ => True
  | fuel + 1, c =>
    RoundAlike cfg k c ∧ ((c.round cfg k).2 = none → LoopAlike cfg k fuel (c.round cfg k).1)

def CallAlike (cfg : Config) (c : Conn) (k : Reader) : Prop :=
  LoopAlike cfg k (c.input.length + 1) c.afresh

instance (cfg : Config) (h : Header) : Decidable (Fits cfg h) := inferInstanceAs (Decidable (_ ∨ _))

instance (cfg : Config) (k : Reader) (c : Conn) (h : Header) : Decidable (Alike cfg k c h) :=
  inferInstanceAs (Decidable (_ ∧ _ ∧ _))

instance (cfg : Config) (k : Reader) (c : Conn) : Decidable (RoundAlike cfg k c) := by
  unfold RoundAlike
  exact match readHeader c.input with
  | (.ok _, _) => inferInstance
  | (.error _, _) => inferInstance

instance decidableLoopAlike (cfg : Config) (k : Reader) : ∀ fuel c, Decidable (LoopAlike cfg k fuel c)
  | 0, _ => isTrue trivial
  | fuel + 1, c =>
    have := decidableLoopAlike cfg k fuel (c.round cfg k).1
    inferInstanceAs (Decidable (_ ∧ _))

instance (cfg : Config) (c : Conn) (k : Reader) : Decidable (CallAlike cfg c k) :=
  inferInstanceAs (Decidable (LoopAlike _ _ _ _))

/-! ## Connections that differ in the buffer -/

def withBuf (c : Conn) (b : List UInt8) : Conn := { c with fragmentBuf := b }

section WithBuf

variable (c : Conn) (b : List UInt8) (h : Header)

@[simp] theorem withBuf_input : (c.withBuf b).input = c.input := rfl
@[simp] theorem withBuf_fragmentBuf : (c.withBuf b).fragmentBuf = b := rfl

/-- What a function returns does not depend on the fragments, which it leaves alone. -/
def Blind (f : Conn → Conn × Option Outcome) : Prop :=
  ∀ c b op, f { c with fragmentBuf := b, fragmentOpcode := op } =
    ({ (f c).1 with fragmentBuf := b, fragmentOpcode := op }, (f c).2)

theorem Blind.leaves {f : Conn → Conn × Option Outcome} (hf : Blind f) :
    (f c).1.fragmentBuf = c.fragmentBuf ∧ (f c).1.fragmentOpcode = c.fragmentOpcode := by
  have h : (f c).1 = { (f c).1 with fragmentBuf := c.fragmentBuf, fragmentOpcode := c.fragmentOpcode } :=
    congrArg Prod.fst (hf c c.fragmentBuf c.fragmentOpcode)
  exact ⟨(congrArg fragmentBuf h :), (congrArg fragmentOpcode h :)⟩

theorem blind_headerFailed (e : ReadError ⊕ HeaderError) : Blind fun c => c.headerFailed e := by
  intro c b op
  rcases e with e | e <;> cases e <;> rfl

theorem blind_reject (h : Header) (code : Nat) (reason : String) (e : Err) : Blind fun c => c.reject h code reason e := by
  intro c b op
  simp only [reject, drainPayload]
  split <;> rfl

theorem readPayload_withBuf : (c.withBuf b).readPayload h = ((c.readPayload h).1, (c.readPayload h).2.withBuf b) := by
  simp only [readPayload, withBuf_input]
  cases (readFull h.payloadLen c.input).1 <;> rfl

theorem readPayload_fragments (op : Opcode) : readPayload { c with fragmentBuf := b, fragmentOpcode := op } h =
    ((c.readPayload h).1, { (c.readPayload h).2 with fragmentBuf := b, fragmentOpcode := op }) := by
  simp only [readPayload]
  cases (readFull h.payloadLen c.input).1 <;> rfl

theorem blind_closeFrame (payload : List UInt8) : Blind fun c => c.closeFrame payload := by
  intro c b op
  simp only [closeFrame]
  cases parseClosePayload payload with
  | error e => cases e <;> rfl
  | ok r =>
    obtain ⟨state, _, _, _, _, _, _⟩ := c
    cases state <;> rfl

theorem blind_controlFrame (h : Header) : Blind fun c => c.controlFrame h := by
  intro c b op
  simp only [controlFrame, readPayload_fragments]
  cases (c.readPayload h).1 with
  | error e => rfl
  | ok payload =>
    dsimp only
    repeat' first | exact blind_closeFrame payload _ b op | split
    all_goals rfl

theorem blind_deliver (cfg : Config) (op : Opcode) (compressed : Bool) (payload : List UInt8) :
    Blind fun c => c.deliver cfg op compressed payload := by
  intro c b op
  simp only [deliver]
  repeat' split
  all_goals rfl

theorem blind_wholeMessage (cfg : Config) (h : Header) : Blind fun c => c.wholeMessage cfg h := by
  intro c b op
  simp only [wholeMessage, readPayload_fragments]
  split
  · exact blind_reject h _ _ _ c b op
  · cases (c.readPayload h).1 with
    | error e => rfl
    | ok payload => exact blind_deliver cfg _ _ _ _ b op

end WithBuf

/-! ## One round -/

/-- The connection `c` of a run, and the one that every call of `ReadMessage` leads to. -/
inductive Sim : Conn → Conn → Prop
  | closed {c d : Conn} : c.state = .stateClosed → d.state = .stateClosed → c.sent = d.sent → Sim c d
  | same (c : Conn) (b : List UInt8) : (c.fragmentOpcode ≠ 0 → b = c.fragmentBuf) → (c.fragmentOpcode = 0 → b = []) →
      Sim c (c.withBuf b)

structure InStep (r q : Conn × Option Outcome) : Prop where
  sim : Sim r.1 q.1
  outcome : r.2 = q.2
  sent : r.1.sent = q.1.sent

variable {cfg : Config} {k : Reader} {c d : Conn} {b : List UInt8} {h : Header}

theorem Sim.sent (hs : Sim c d) : c.sent = d.sent := by
  cases hs with
  | closed _ _ h => exact h
  | same b _ _ => rfl

theorem InStep.of_blind {f : Conn → Conn × Option Outcome} (hf : Blind f)
    (hne : c.fragmentOpcode ≠ 0 → b = c.fragmentBuf) (hz : c.fragmentOpcode = 0 → b = []) :
    InStep (f c) (f (c.withBuf b)) := by
  obtain ⟨hbuf, hop⟩ := hf.leaves c
  have heq : f (c.withBuf b) = ((f c).1.withBuf b, (f c).2) := by
    refine (hf c b c.fragmentOpcode).trans ?_
    rw [← hop]
    rfl
  rw [heq]
  exact ⟨.same _ b (fun h => (hne (hop ▸ h)).trans hbuf.symm) (fun h => hz (hop ▸ h)), rfl, rfl⟩

/-! ## Fragments -/

/-- The frame in its turn finds the same buffer in both connections. -/
theorem begin_withBuf (horder : c.outOfOrder h = none) (hne : c.fragmentOpcode ≠ 0 → b = c.fragmentBuf) :
    (c.withBuf b).begin h = c.begin h ∧ (c.begin h).fragmentOpcode ≠ 0 := by
  by_cases hop : h.opcode = opcodeContinuation
  · have hfrag : c.fragmentOpcode ≠ 0 := by
      intro hz
      rw [outOfOrder, if_pos hop, if_pos hz] at horder
      cases horder
    rw [begin, begin, if_pos hop, if_pos hop, hne hfrag]
    exact ⟨rfl, hfrag⟩
  · rw [begin, begin, if_neg hop, if_neg hop]
    exact ⟨rfl, hop⟩

theorem readPayload_begin (c : Conn) (h : Header) :
    (c.begin h).readPayload h = ((c.readPayload h).1, (c.readPayload h).2.begin h) := by
  by_cases hop : h.opcode = opcodeContinuation
  · simp only [begin, if_pos hop]
  · simp only [begin, if_neg hop, readPayload]
    cases (readFull h.payloadLen c.input).1 <;> rfl

/-- A frame in its turn whose payload is there: what it leaves behind, in both readers. -/
theorem inStep_completed (cfg : Config) {m : Conn} (hop : m.fragmentOpcode ≠ 0) (keep : Bool) :
    InStep
      (if h.fin then
        ({ m with fragmentOpcode := 0, fragmentRsv1 := false, fragmentBuf := if keep then m.fragmentBuf else [] } :
          Conn).deliver cfg m.fragmentOpcode m.fragmentRsv1 m.fragmentBuf
      else (m, none))
      (if h.fin then
        ({ m with fragmentOpcode := 0, fragmentRsv1 := false, fragmentBuf := [] } : Conn).deliver cfg m.fragmentOpcode
          m.fragmentRsv1 m.fragmentBuf
      else (m, none)) := by
  split
  · exact InStep.of_blind (blind_deliver cfg _ _ _) (fun h => absurd rfl h) fun _ => rfl
  · exact ⟨.same m m.fragmentBuf (fun _ => rfl) fun hz => absurd hz hop, rfl, rfl⟩

theorem inStep_fragment (hne : c.fragmentOpcode ≠ 0 → b = c.fragmentBuf) :
    InStep (c.fragment cfg h) ((c.withBuf b).fragment cfg h) := by
  simp only [fragment, readPayload_withBuf]
  obtain ⟨e, hr, -⟩ | ⟨p, hr, -, -⟩ := readPayload_cases c h
  · rw [hr]
    exact ⟨.closed rfl rfl rfl, rfl, rfl⟩
  · rw [hr]
    dsimp only
    have hd : ({ c with input := c.input.drop h.payloadLen } : Conn).outOfOrder h = c.outOfOrder h := rfl
    have hd' : (({ c with input := c.input.drop h.payloadLen } : Conn).withBuf b).outOfOrder h = c.outOfOrder h := rfl
    rw [hd, hd']
    cases horder : c.outOfOrder h with
    | some r => exact ⟨.closed rfl rfl rfl, rfl, rfl⟩
    | none =>
      obtain ⟨hbegin, hop⟩ := @begin_withBuf { c with input := c.input.drop h.payloadLen } b h horder hne
      dsimp only
      rw [hbegin]
      exact inStep_completed cfg (m := { (begin _ h) with fragmentBuf := (begin _ h).fragmentBuf ++ p }) hop false

/-- `ReadMessageBuf` against `ReadMessage`; the payload of a frame out of order is there. -/
theorem inStep_fragmentBuffered (hne : c.fragmentOpcode ≠ 0 → b = c.fragmentBuf)
    (hthere : c.outOfOrder h ≠ none → h.payloadLen ≤ c.input.length) :
    InStep (c.fragmentBuffered cfg h) ((c.withBuf b).fragment cfg h) := by
  simp only [fragment, fragmentBuffered, readPayload_withBuf, readPayload_begin]
  cases horder : c.outOfOrder h with
  | some r =>
    obtain ⟨e, -, hlt⟩ | ⟨p, hr, -, -⟩ := readPayload_cases c h
    · exact absurd (hthere (by rw [horder]; nofun)) (Nat.not_le.2 hlt)
    rw [hr]
    have hd : (({ c with input := c.input.drop h.payloadLen } : Conn).withBuf b).outOfOrder h = some r := horder
    simp only [hd]
    exact ⟨.closed rfl rfl rfl, rfl, rfl⟩
  | none =>
    obtain ⟨e, hr, -⟩ | ⟨p, hr, -, -⟩ := readPayload_cases c h
    · rw [hr]
      exact ⟨.closed (by simp only [begin]; split <;> rfl) rfl (by simp only [begin]; split <;> rfl), rfl,
        by simp only [begin]; split <;> rfl⟩
    · rw [hr]
      have hd : (({ c with input := c.input.drop h.payloadLen } : Conn).withBuf b).outOfOrder h = none := horder
      obtain ⟨hbegin, hop⟩ := @begin_withBuf { c with input := c.input.drop h.payloadLen } b h horder hne
      have hbuf : (c.begin h).fragmentBuf = (begin { c with input := c.input.drop h.payloadLen } h).fragmentBuf := by
        simp only [begin]
        split <;> rfl
      simp only [hd, hbegin, hbuf]
      exact inStep_completed cfg (m := { (begin _ h) with fragmentBuf := (begin _ h).fragmentBuf ++ p }) hop true

/-! ## A frame, a round, a call -/

/-- The message goes on to a length within the limit. -/
def Goes (cfg : Config) (c : Conn) (h : Header) : Prop :=
  cfg.readLimit ≤ 0 ∨ (c.fragmentBuf.length + h.payloadLen : Int) ≤ cfg.readLimit

instance (cfg : Config) (c : Conn) (h : Header) : Decidable (Goes cfg c h) := inferInstanceAs (Decidable (_ ∨ _))

/-- What becomes of a frame: it is too big, or its message too long, or it is of one of three kinds. -/
inductive Turn where
  | big | long | control | whole | part

def turn (cfg : Config) (c : Conn) (h : Header) : Reader → Turn
  | .readMessage =>
    if ¬ Fits cfg h then .big
    else if isControl h.opcode then .control
    else if ¬ Goes cfg c h then .long
    else if h.fin ∧ c.fragmentOpcode = 0 then .whole else .part
  | .readMessageBuf =>
    if isControl h.opcode then .control
    else if ¬ Fits cfg h then .big
    else if h.fin ∧ c.fragmentOpcode = 0 then .whole else .part

def take (cfg : Config) (k : Reader) (c : Conn) (h : Header) : Turn → Conn × Option Outcome
  | .big => c.reject h statusMessageTooBig "Frame payload exceeds read limit" errMessageTooBig
  | .long => c.reject h statusMessageTooBig "Message exceeds read limit" errMessageTooBig
  | .control => c.controlFrame h
  | .whole => c.wholeMessage cfg h
  | .part =>
    match k with
    | .readMessage => c.fragment cfg h
    | .readMessageBuf => c.fragmentBuffered cfg h

theorem frame_eq : c.frame cfg k h = c.take cfg k h (c.turn cfg h k) := by
  have hfits : 0 < cfg.readLimit ∧ cfg.readLimit < h.payloadLen ↔ ¬ Fits cfg h := by
    rw [Fits]
    omega
  have hgoes : 0 < cfg.readLimit ∧ cfg.readLimit < c.fragmentBuf.length + h.payloadLen ↔ ¬ Goes cfg c h := by
    rw [Goes]
    omega
  cases k <;> cases hc : isControl h.opcode <;>
    simp only [frame, readMessageFrame, readMessageBufFrame, turn, hfits, hgoes, hc] <;> split_ifs <;> simp_all [take]

theorem turn_whole (ht : c.turn cfg h k = .whole) : Fits cfg h := by
  cases k <;> simp only [turn] at ht <;> split_ifs at ht <;> assumption

theorem turn_part (ht : c.turn cfg h k = .part) : ¬ isControl h.opcode ∧ Fits cfg h ∧
    ¬ (h.fin ∧ c.fragmentOpcode = 0) ∧ (k = .readMessage → Goes cfg c h) := by
  cases k with
  | readMessage =>
    simp only [turn] at ht
    split_ifs at ht with hfits hc hgoes hwhole
    exact ⟨hc, hfits, hwhole, fun _ => hgoes⟩
  | readMessageBuf =>
    simp only [turn] at ht
    split_ifs at ht with hc hfits hwhole
    exact ⟨hc, hfits, hwhole, nofun⟩

/-- `ReadMessage` does the same with the frame where the buffers differ. -/
theorem turn_alike (halike : Alike cfg k c h) (hne : c.fragmentOpcode ≠ 0 → b = c.fragmentBuf)
    (hz : c.fragmentOpcode = 0 → b = []) : (c.withBuf b).turn cfg h .readMessage = c.turn cfg h k := by
  obtain ⟨hcontrol, hmessage, -⟩ := halike
  by_cases hc : isControl h.opcode
  · cases k with
    | readMessage => simp [turn, hc]
    | readMessageBuf => simp [turn, hc, hcontrol rfl hc]
  by_cases hfits : Fits cfg h
  · have hgoes : Goes cfg (c.withBuf b) h ↔ Goes cfg c h := by
      by_cases hf : c.fragmentOpcode = 0
      · -- no message is open, and what is left in the buffer is within the limit
        have hlong : Goes cfg c h := hmessage (.inr hf) hc hfits
        rw [hz hf]
        simp only [Goes, withBuf_fragmentBuf, length_nil] at hlong ⊢
        omega
      · rw [hne hf]
        rfl
    cases k with
    | readMessage => exact if_congr Iff.rfl rfl (if_congr Iff.rfl rfl (if_congr (not_congr hgoes) rfl rfl))
    | readMessageBuf =>
      have hlong := hgoes.2 (hmessage (.inl rfl) hc hfits)
      rw [turn, turn, if_neg (not_not.2 hfits), if_neg hc, if_neg (not_not.2 hlong), if_neg hc,
        if_neg (not_not.2 hfits)]
      rfl
  · cases k <;> simp [turn, hc, hfits]

theorem inStep_frame (halike : Alike cfg k c h) (hne : c.fragmentOpcode ≠ 0 → b = c.fragmentBuf)
    (hz : c.fragmentOpcode = 0 → b = []) : InStep (c.frame cfg k h) ((c.withBuf b).frame cfg .readMessage h) := by
  rw [frame_eq, frame_eq, turn_alike halike hne hz]
  cases ht : c.turn cfg h k with
  | big | long => exact .of_blind (blind_reject h _ _ _) hne hz
  | control => exact .of_blind (blind_controlFrame h) hne hz
  | whole => exact .of_blind (blind_wholeMessage cfg h) hne hz
  | part =>
    obtain ⟨hc, hfits, hpart, -⟩ := turn_part ht
    cases k with
    | readMessage => exact inStep_fragment hne
    | readMessageBuf => exact inStep_fragmentBuffered hne (halike.2.2 rfl hc hfits hpart)

section Rounds

variable {rest : List UInt8} {e : ReadError ⊕ HeaderError} (hopen : c.state ≠ .stateClosed)

theorem round_closed (hclosed : c.state = .stateClosed) : c.round cfg k = (c, some (.failed .errClosed)) := by
  rw [round, if_pos hclosed]

include hopen

theorem round_error (hr : readHeader c.input = (.error e, rest)) :
    c.round cfg k = ({ c with input := rest } : Conn).headerFailed e := by
  simp only [round, if_neg hopen, hr]

theorem round_refused {reason : String} {err : Err} (hr : readHeader c.input = (.ok h, rest))
    (hrefuse : refuse cfg { c with input := rest } h = some (reason, err)) :
    c.round cfg k = ({ c with input := rest } : Conn).reject h statusProtocolError reason err := by
  simp only [round, if_neg hopen, hr, hrefuse]

theorem round_frame (hr : readHeader c.input = (.ok h, rest)) (hrefuse : refuse cfg { c with input := rest } h = none) :
    c.round cfg k = ({ c with input := rest } : Conn).frame cfg k h := by
  simp only [round, if_neg hopen, hr, hrefuse]

end Rounds

theorem inStep_round (hs : Sim c d) (halike : RoundAlike cfg k c) : InStep (c.round cfg k) (d.round cfg .readMessage) := by
  cases hs with
  | closed hc hd hsent =>
    rw [round_closed hc, round_closed hd]
    exact ⟨.closed hc hd hsent, rfl, hsent⟩
  | same b hne hz =>
    by_cases hclosed : c.state = .stateClosed
    · rw [round_closed hclosed, round_closed (show (c.withBuf b).state = _ from hclosed)]
      exact ⟨.same c b hne hz, rfl, rfl⟩
    have hd : (c.withBuf b).state ≠ .stateClosed := hclosed
    unfold RoundAlike at halike
    cases hr : readHeader c.input with
    | mk res rest =>
      rw [hr] at halike
      have hr' : readHeader (c.withBuf b).input = (res, rest) := hr
      cases res with
      | error e =>
        rw [round_error hclosed hr, round_error hd hr']
        exact .of_blind (blind_headerFailed e) hne hz
      | ok h =>
        cases hrefuse : refuse cfg { c with input := rest } h with
        | some r =>
          rw [round_refused hclosed hr hrefuse, round_refused hd hr' hrefuse]
          exact .of_blind (blind_reject h _ _ _) hne hz
        | none =>
          rw [round_frame hclosed hr hrefuse, round_frame hd hr' hrefuse]
          exact inStep_frame (halike hclosed hrefuse) hne hz

variable {fuel : Nat}

theorem inStep_readLoop (hs : Sim c d) (halike : LoopAlike cfg k fuel c) :
    InStep (readLoop cfg k fuel c) (readLoop cfg .readMessage fuel d) := by
  induction fuel generalizing c d with
  | zero => exact ⟨hs, rfl, hs.sent⟩
  | succ fuel ih =>
    obtain ⟨hround, hmore⟩ := halike
    obtain ⟨hsim, hout, hsent⟩ := inStep_round hs hround
    simp only [readLoop, ← hout]
    cases ho : (c.round cfg k).2 with
    | some o => exact ⟨hsim, rfl, hsent⟩
    | none => exact ih hsim (hmore ho)

/-! ## A call comes back, within the limit -/

theorem readHeader_shorter {input rest : List UInt8} (hr : readHeader input = (.ok h, rest)) :
    rest.length < input.length := by
  obtain ⟨n, hp, rfl⟩ := readHeader_ok_iff.1 hr
  obtain ⟨hn, hle, -⟩ := parseHeader_ok hp
  rw [length_drop]
  omega

def Bounded (cfg : Config) (c : Conn) : Prop := 0 < cfg.readLimit → (c.fragmentBuf.length : Int) ≤ cfg.readLimit

def Safe (cfg : Config) (r : Conn × Option Outcome) : Prop :=
  0 < cfg.readLimit → (r.1.fragmentBuf.length : Int) ≤ cfg.readLimit ∧
    ∀ op payload, r.2 = some (.message op payload) → (payload.length : Int) ≤ cfg.readLimit

theorem Safe.of_buf {r : Conn × Option Outcome} (hb : Bounded cfg r.1) (hr : ∀ op payload, r.2 ≠ some (.message op payload)) :
    Safe cfg r := fun hlimit => ⟨hb hlimit, fun op payload h => absurd h (hr op payload)⟩

theorem Safe.of_blind {f : Conn → Conn × Option Outcome} (hf : Blind f) (hb : Bounded cfg c)
    (hr : ∀ op payload, (f c).2 ≠ some (.message op payload)) : Safe cfg (f c) := by
  refine .of_buf ?_ hr
  rw [Bounded, (hf.leaves c).1]
  exact hb

/-- An outcome, or a connection with no more input than `c`; within the limit, if the buffer was and `ok` holds. -/
structure Handled (cfg : Config) (c : Conn) (ok : Prop) (r : Conn × Option Outcome) : Prop where
  moves : r.2 ≠ none ∨ r.1.input.length ≤ c.input.length
  safe : Bounded cfg c → ok → Safe cfg r

variable {ok : Prop}

theorem handled_controlFrame : Handled cfg c ok (c.controlFrame h) := by
  have hcases : ((c.controlFrame h).2 ≠ none ∨ (c.controlFrame h).1.input.length ≤ c.input.length) ∧
      ∀ op payload, (c.controlFrame h).2 ≠ some (.message op payload) := by
    rw [controlFrame]
    obtain ⟨e, hr, -⟩ | ⟨p, hr, -, -⟩ := readPayload_cases c h
    · rw [hr]
      exact ⟨.inl nofun, nofun⟩
    · rw [hr]
      dsimp only [closeFrame]
      repeat' split
      all_goals exact ⟨.inr (drop_suffix _ _).length_le, nofun⟩
  exact ⟨hcases.1, fun hb _ => .of_blind (blind_controlFrame h) hb hcases.2⟩

theorem decompressDeflate_le {src out : List UInt8} (hlimit : 0 < cfg.readLimit)
    (hout : decompressDeflate cfg src = .ok out) : (out.length : Int) ≤ cfg.readLimit := by
  simp only [decompressDeflate] at hout
  generalize (if 0 < cfg.readLimit then _ else _ : List UInt8 × Bool) = r at hout
  split at hout
  · cases hout
  split at hout
  · cases hout
  rename_i hle
  cases hout
  omega

theorem handled_deliver {payload : List UInt8} (hb : Bounded cfg c → ok → Bounded cfg d ∧
    (0 < cfg.readLimit → (payload.length : Int) ≤ cfg.readLimit)) (op : Opcode) (compressed : Bool) :
    Handled cfg c ok (d.deliver cfg op compressed payload) := by
  rw [deliver]
  split
  · exact ⟨.inl nofun, fun hc hok => .of_buf (hb hc hok).1 nofun⟩
  · rename_i out hout
    split
    · exact ⟨.inl nofun, fun hc hok => .of_buf (hb hc hok).1 nofun⟩
    · refine ⟨.inl nofun, fun hc hok hlimit => ⟨(hb hc hok).1 hlimit, fun op' payload' h => ?_⟩⟩
      cases h
      cases compressed with
      | true => exact decompressDeflate_le hlimit hout
      | false =>
        cases hout
        exact (hb hc hok).2 hlimit

theorem handled_wholeMessage (hfits : Fits cfg h) : Handled cfg c ok (c.wholeMessage cfg h) := by
  rw [wholeMessage]
  split
  · exact ⟨.inl nofun, fun hb _ => .of_blind (blind_reject h _ _ _) hb nofun⟩
  · obtain ⟨e, hr, -⟩ | ⟨p, hr, -, hlen, -⟩ := readPayload_cases c h
    · rw [hr]
      exact ⟨.inl nofun, fun hb _ => .of_buf hb nofun⟩
    · rw [hr]
      dsimp only
      refine handled_deliver (fun hb _ => ?_) _ _
      refine ⟨hb, fun hlimit => ?_⟩
      rw [Fits] at hfits
      omega

theorem begin_fields (c : Conn) (h : Header) :
    (c.begin h).input = c.input ∧ (c.begin h).fragmentBuf.length ≤ c.fragmentBuf.length := by
  rw [begin]
  split
  · exact ⟨rfl, Nat.le_refl _⟩
  · exact ⟨rfl, Nat.zero_le _⟩

/-- The buffer with the payload of a message that goes on within the limit. -/
theorem Goes.bounded (hgoes : Goes cfg c h) {p : List UInt8} (hb : b.length ≤ c.fragmentBuf.length)
    (hp : p.length = h.payloadLen) (hlimit : 0 < cfg.readLimit) : ((b ++ p).length : Int) ≤ cfg.readLimit := by
  rw [Goes] at hgoes
  rw [length_append]
  omega

theorem handled_completed {m : Conn} {buf : List UInt8} (hin : m.input.length ≤ c.input.length)
    (hb : ok → Bounded cfg d ∧ Bounded cfg m ∧ (0 < cfg.readLimit → (buf.length : Int) ≤ cfg.readLimit))
    (op : Opcode) (compressed : Bool) :
    Handled cfg c ok (if h.fin then d.deliver cfg op compressed buf else (m, none)) := by
  split
  · exact handled_deliver (fun _ hok => ⟨(hb hok).1, (hb hok).2.2⟩) _ _
  · exact ⟨.inr hin, fun _ hok => .of_buf (hb hok).2.1 nofun⟩

theorem handled_fragment : Handled cfg c (Goes cfg c h) (c.fragment cfg h) := by
  rw [fragment]
  obtain ⟨e, hr, -⟩ | ⟨p, hr, -, hlen, -⟩ := readPayload_cases c h
  · rw [hr]
    exact ⟨.inl nofun, fun hb _ => .of_buf hb nofun⟩
  · rw [hr]
    dsimp only
    obtain ⟨hin, hbuf⟩ := begin_fields { c with input := c.input.drop h.payloadLen } h
    split
    · exact ⟨.inl nofun, fun hb _ => .of_buf hb nofun⟩
    · refine handled_completed ?_ (fun hgoes => ?_) _ _
      · rw [hin]
        exact (drop_suffix _ _).length_le
      · exact ⟨fun hlimit => hlimit.le, hgoes.bounded hbuf hlen, hgoes.bounded hbuf hlen⟩

theorem handled_fragmentBuffered : Handled cfg c (Goes cfg c h) (c.fragmentBuffered cfg h) := by
  rw [fragmentBuffered]
  split
  · exact ⟨.inl nofun, fun hb _ => .of_buf hb nofun⟩
  · simp only [readPayload_begin]
    obtain ⟨hin, hbuf⟩ := begin_fields c h
    obtain ⟨e, hr, hlt⟩ | ⟨p, hr, -, hlen, -⟩ := readPayload_cases c h
    · rw [hr]
      refine ⟨.inl nofun, fun _ hgoes => .of_buf (fun hlimit => ?_) nofun⟩
      rw [append_assoc]
      refine hgoes.bounded hbuf ?_ hlimit
      rw [hin, length_append, length_replicate]
      omega
    · rw [hr]
      dsimp only
      refine handled_completed ?_ (fun hgoes => ?_) _ _
      · rw [(begin_fields _ h).1]
        exact (drop_suffix _ _).length_le
      · exact ⟨hgoes.bounded hbuf hlen, hgoes.bounded hbuf hlen, hgoes.bounded hbuf hlen⟩

theorem handled_frame : Handled cfg c (k = .readMessageBuf → Alike cfg k c h) (c.frame cfg k h) := by
  rw [frame_eq]
  cases ht : c.turn cfg h k with
  | big | long => exact ⟨.inl nofun, fun hb _ => .of_blind (blind_reject h _ _ _) hb nofun⟩
  | control => exact handled_controlFrame
  | whole => exact handled_wholeMessage (turn_whole ht)
  | part =>
    obtain ⟨hc, hfits, -, hgoes⟩ := turn_part ht
    cases k with
    | readMessage => exact ⟨handled_fragment.moves, fun hb _ => handled_fragment.safe hb (hgoes rfl)⟩
    | readMessageBuf =>
      refine ⟨handled_fragmentBuffered.moves, fun hb halike => handled_fragmentBuffered.safe hb ?_⟩
      exact (halike rfl).2.1 (.inl rfl) hc hfits

/-- A round either ends the call or takes octets off the stream, and stays within the limit. -/
theorem handled_round : ((c.round cfg k).2 ≠ none ∨ (c.round cfg k).1.input.length < c.input.length) ∧
    (Bounded cfg c → (k = .readMessageBuf → RoundAlike cfg k c) → Safe cfg (c.round cfg k)) := by
  by_cases hclosed : c.state = .stateClosed
  · rw [round_closed hclosed]
    exact ⟨.inl nofun, fun hb _ => .of_buf hb nofun⟩
  cases hr : readHeader c.input with
  | mk res rest =>
    cases res with
    | error e =>
      rw [round_error hclosed hr]
      have hfail : ∀ o, (headerFailed { c with input := rest } e).2 = o → ∃ err, o = some (.failed err) := by
        rintro _ rfl
        rcases e with e | e <;> cases e <;> exact ⟨_, rfl⟩
      obtain ⟨err, hfail⟩ := hfail _ rfl
      exact ⟨.inl (by rw [hfail]; nofun), fun hb _ => .of_blind (blind_headerFailed e) hb (by rw [hfail]; nofun)⟩
    | ok h =>
      cases hrefuse : refuse cfg { c with input := rest } h with
      | some r =>
        rw [round_refused hclosed hr hrefuse]
        exact ⟨.inl nofun, fun hb _ => .of_blind (blind_reject h _ _ _) hb nofun⟩
      | none =>
        rw [round_frame hclosed hr hrefuse]
        obtain ⟨hmoves, hsafe⟩ := @handled_frame cfg k { c with input := rest } h
        refine ⟨hmoves.imp_right fun hle => Nat.lt_of_le_of_lt hle (readHeader_shorter hr), fun hb halike => ?_⟩
        refine hsafe hb fun hk => ?_
        have halike := halike hk
        rw [RoundAlike, hr] at halike
        exact halike hclosed hrefuse

theorem round_shorter (hnone : (c.round cfg k).2 = none) : (c.round cfg k).1.input.length < c.input.length :=
  handled_round.1.resolve_left (absurd hnone)

theorem readLoop_returns (hfuel : c.input.length < fuel) : (readLoop cfg k fuel c).2 ≠ none := by
  induction fuel generalizing c with
  | zero => exact absurd hfuel (Nat.not_lt_zero _)
  | succ fuel ih =>
    rw [readLoop]
    split
    · nofun
    rename_i hnone
    exact ih (Nat.lt_of_lt_of_le (round_shorter hnone) (Nat.le_of_lt_succ hfuel))

theorem safe_readLoop (hb : Bounded cfg c) (halike : k = .readMessageBuf → LoopAlike cfg k fuel c) :
    Safe cfg (readLoop cfg k fuel c) ∧ (0 < cfg.readLimit → (buffered cfg k fuel c : Int) ≤ cfg.readLimit) := by
  induction fuel generalizing c with
  | zero => exact ⟨.of_buf hb nofun, hb⟩
  | succ fuel ih =>
    have hsafe := handled_round.2 hb fun hk => (halike hk).1
    rw [readLoop, buffered]
    cases ho : (c.round cfg k).2 with
    | some o =>
      refine ⟨fun hlimit => ⟨(hsafe hlimit).1, fun op p h => (hsafe hlimit).2 op p (ho.trans h)⟩, fun hlimit => ?_⟩
      have h1 := hb hlimit
      have h2 := (hsafe hlimit).1
      dsimp only
      omega
    | none =>
      obtain ⟨hs, hbuf⟩ := ih (fun hlimit => (hsafe hlimit).1) fun hk => (halike hk).2 ho
      refine ⟨hs, fun hlimit => ?_⟩
      have h1 := hb hlimit
      have h2 := hbuf hlimit
      dsimp only
      omega

/-! ## Runs of calls -/

theorem readLoop_closed (hclosed : c.state = .stateClosed) :
    readLoop cfg k (fuel + 1) c = (c, some (.failed .errClosed)) := by
  rw [readLoop, round_closed hclosed]

theorem inStep_read (hs : Sim c d) (halike : CallAlike cfg c k) :
    InStep (c.afresh.read cfg k) (d.afresh.read cfg .readMessage) := by
  cases hs with
  | closed hc hd _ =>
    rw [read, read, readLoop_closed (by exact hc), readLoop_closed (by exact hd)]
    exact ⟨.closed hc hd rfl, rfl, rfl⟩
  | same b hne hz => exact inStep_readLoop (.same c.afresh b hne hz) halike

theorem within_call (hb : Bounded cfg c) (halike : k = .readMessageBuf → CallAlike cfg c k) :
    Bounded cfg (c.afresh.read cfg k).1 ∧ (c.result cfg k).Within cfg := by
  have hb' : Bounded cfg c.afresh := hb
  obtain ⟨hsafe, hbuf⟩ := safe_readLoop hb' halike
  refine ⟨fun hlimit => (hsafe hlimit).1, ?_⟩
  exact ⟨readLoop_returns (Nat.lt_succ_self _), fun hlimit => ⟨hbuf hlimit, (hsafe hlimit).2⟩⟩

theorem interchangeable_from {ks : List Reader} (hs : Sim c d) (hbc : Bounded cfg c) (hbd : Bounded cfg d)
    (halong : Along (call cfg) (CallAlike cfg) c ks) :
    ∃ c' d' rs rs', run (call cfg) c ks = some (c', rs) ∧
      run (call cfg) d (ks.map fun _ => .readMessage) = some (d', rs') ∧
      rs.map Result.shown = rs'.map Result.shown ∧ (∀ r ∈ rs, r.Within cfg) ∧ ∀ r ∈ rs', r.Within cfg := by
  induction ks generalizing c d with
  | nil => exact ⟨c, d, [], [], rfl, rfl, rfl, nofun, nofun⟩
  | cons k ks ih =>
    have hstep : call cfg c k = some ((c.afresh.read cfg k).1, [c.result cfg k]) := rfl
    have hstep' : call cfg d .readMessage = some ((d.afresh.read cfg .readMessage).1, [d.result cfg .readMessage]) := rfl
    obtain ⟨halike, hrest⟩ := (along_cons_iff hstep).1 halong
    obtain ⟨hsim, hout, hsent⟩ := inStep_read hs halike
    obtain ⟨hbc', hw⟩ := within_call hbc fun _ => halike
    obtain ⟨hbd', hw'⟩ := @within_call cfg .readMessage d hbd nofun
    obtain ⟨c', d', rs, rs', hr, hr', hshown, hin, hin'⟩ := ih hsim hbc' hbd' hrest
    refine ⟨c', d', c.result cfg k :: rs, d.result cfg .readMessage :: rs', ?_, ?_, ?_, ?_, ?_⟩
    · rw [run_cons_some ks hstep, hr]
      rfl
    · rw [map_cons, run_cons_some _ hstep', hr']
      rfl
    · rw [map_cons, map_cons, hshown]
      simp only [Result.shown, result, hout, hsent]
    · exact forall_mem_cons.2 ⟨hw, hin⟩
    · exact forall_mem_cons.2 ⟨hw', hin'⟩

/-- In every run of calls that meets only frames both readers treat alike, the readers are interchangeable, and nothing
longer than the limit is returned or buffered. -/
theorem interchangeable (cfg : Config) (input : List UInt8) (ks : List Reader)
    (halong : Along (call cfg) (CallAlike cfg) { input } ks) : ∀ pre, pre <+: ks → Interchangeable cfg input pre := by
  intro pre hpre
  obtain ⟨post, rfl⟩ := hpre
  have hstart : Bounded cfg ({ input } : Conn) := fun hlimit => hlimit.le
  refine interchangeable_from (.same { input } [] (fun h => absurd rfl h) fun _ => rfl) hstart hstart ?_
  intro p e s tr hp
  exact halong p e s tr (hp.trans (prefix_append pre post))

/-- A text in two frames with a Ping between them and a text in one frame, read through the buffer and without it. -/
theorem interchangeable_mixed : Interchangeable { readLimit := 8 }
    [0x01, 0x02, 0x68, 0x69, 0x89, 0x01, 0x21, 0x80, 0x01, 0x21, 0x81, 0x02, 0x6f, 0x6b]
    [.readMessageBuf, .readMessage, .readMessage] :=
  interchangeable _ _ _ (by decide +kernel) _ (prefix_refl _)

/-- Two fragments of six octets against a limit of ten: `ReadMessageBuf` returns the message of twelve octets that
`ReadMessage` refuses. -/
theorem buffered_over_limit : ¬ Interchangeable { readLimit := 10 }
    [0x02, 0x06, 1, 2, 3, 4, 5, 6, 0x80, 0x06, 1, 2, 3, 4, 5, 6] [.readMessageBuf] := by
  rintro ⟨c, c', rs, rs', hr, hr', hshown, -, -⟩
  have hne : (run (call { readLimit := 10 })
      { input := [0x02, 0x06, 1, 2, 3, 4, 5, 6, 0x80, 0x06, 1, 2, 3, 4, 5, 6] } [.readMessageBuf]).map
        (·.2.map Result.shown) ≠
      (run (call { readLimit := 10 })
      { input := [0x02, 0x06, 1, 2, 3, 4, 5, 6, 0x80, 0x06, 1, 2, 3, 4, 5, 6] } [.readMessage]).map
        (·.2.map Result.shown) := by
    decide +kernel
  rw [map_singleton] at hr'
  rw [hr, hr', Option.map_some, Option.map_some, hshown] at hne
  exact hne rfl

end Conn

end Mach.Ws
