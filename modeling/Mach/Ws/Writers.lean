import Mach.Ws.Readers
/-!
# Writers that share a connection

Any number of goroutines call `WriteMessage`, `WriteFragmentedMessage` and
`WriteControl` on one connection; what `writeMu` makes atomic is one frame. A run
is any order of the frames in which the frames of each goroutine keep theirs. The
peer reads what is on the wire with `ReadMessage`, call after call, until the
stream ends.
-/

namespace Mach.Ws

open Lib

variable {st : Option Message}

/-! ## The calls and their frames -/

/-- The contents of a slice: its length is an `int`. -/
structure Payload where
  octets : List UInt8
  length_lt : octets.length < 2 ^ 63
  deriving DecidableEq

theorem empty_lt : ([] : List UInt8).length < 2 ^ 63 := by decide

/-- What `writeFrameLocked` is given. -/
structure WFrame where
  fin : Bool
  op : Opcode
  data : Payload
  deriving DecidableEq

inductive Call where
  | writeMessage (messageType : Opcode) (data : Payload)
  | writeFragmentedMessage (messageType : Opcode) (frames : List Payload)
  | writeControl (pong : Bool) (data : Payload)

/-- The frames of a fragmented message from the second one on. -/
def continuations : List Payload → List WFrame
  | [] => []
  | frame :: frames => ⟨frames.isEmpty, opcodeContinuation, frame⟩ :: continuations frames

/-- The frames of a message in one or more parts. -/
def fragments (messageType : Opcode) (frame : Payload) (frames : List Payload) : List WFrame :=
  ⟨frames.isEmpty, messageType, frame⟩ :: continuations frames

/-- The frames a call writes, one after the other; a call that is refused writes none. -/
def Call.frames : Call → List WFrame
  | .writeMessage messageType data => if isData messageType then fragments messageType data [] else []
  | .writeFragmentedMessage messageType [] =>
    if isData messageType then fragments messageType ⟨[], empty_lt⟩ [] else []
  | .writeFragmentedMessage messageType (frame :: frames) =>
    if isData messageType then fragments messageType frame frames else []
  | .writeControl pong data =>
    if 125 < data.octets.length then [] else [⟨true, if pong then opcodePong else opcodePing, data⟩]

abbrev Message := Opcode × List UInt8

def Call.written : Call → Option Message
  | .writeMessage messageType data => if isData messageType then some (messageType, data.octets) else none
  | .writeFragmentedMessage messageType frames =>
    if isData messageType then some (messageType, (frames.map Payload.octets).flatten) else none
  | .writeControl _ _ => none

/-! ## Runs of the writers -/

/-- The frames each goroutine has still to write, and what is on the wire. -/
structure Writers where
  todo : Nat → List WFrame
  wire : List UInt8

/-- A goroutine writes its next frame, with the masking key that a client draws. -/
def write (isServer : Bool) (w : Writers) (l : Nat × MaskKey) : Option (Writers × List (Nat × WFrame)) :=
  match w.todo l.1 with
  | [] => none
  | f :: fs =>
    match writeFrameLocked isServer l.2 f.fin false f.op f.data.octets with
    | .error _ => none
    | .ok b => some ({ todo := Function.update w.todo l.1 fs, wire := w.wire ++ b }, [(l.1, f)])

def Writers.start (calls : Nat → List Call) : Writers := { todo := fun g => (calls g).flatMap Call.frames, wire := [] }

/-! ## The peer -/

/-- The messages that calls of `ReadMessage` return, and what the first call that returns none comes to. -/
def deliveries (cfg : Config) : Nat → Conn → List Message × Option Outcome
  | 0, _ => ([], none)
  | fuel + 1, c =>
    match c.read cfg .readMessage with
    | (c, some (.message op payload)) =>
      ((op, payload) :: (deliveries cfg fuel c).1, (deliveries cfg fuel c).2)
    | (_, o) => ([], o)

/-- The peer gets the messages of all goroutines, those of each in its order, and then the end of the stream. -/
def Intact (cfg : Config) (calls : Nat → List Call) (wire : List UInt8) : Prop :=
  ∃ tagged : List (Nat × Message),
    deliveries cfg (wire.length + 1) { input := wire } = (tagged.map (·.2), some (.failed .eof)) ∧
    ∀ g, (tagged.filter (·.1 = g)).map (·.2) = (calls g).filterMap Call.written

def Room (cfg : Config) (n : Nat) : Prop := cfg.readLimit ≤ 0 ∨ (n : Int) ≤ cfg.readLimit

/-- A message within the limit, and valid if it is a text. -/
def Sound (cfg : Config) (m : Message) : Prop := Room cfg m.2.length ∧ (m.1 = opcodeText → utf8Valid m.2)

/-- Between the frames of a message, the first of which the goroutine `owner` has written, there is no data frame of
another goroutine. -/
def Unbroken : Option Nat → List (Nat × WFrame) → Prop
  | _, [] => True
  | owner, (g, f) :: tr =>
    if isControl f.op then Unbroken owner tr
    else (∀ o, owner = some o → g = o) ∧ Unbroken (if f.fin then none else some g) tr

instance decidableUnbroken : ∀ owner tr, Decidable (Unbroken owner tr)
  | _, [] => isTrue trivial
  | owner, (g, f) :: tr => by
    have := decidableUnbroken owner tr
    have := decidableUnbroken (if f.fin then none else some g) tr
    unfold Unbroken
    infer_instance

/-! ## Frames, as the peer takes them -/

instance (cfg : Config) (n : Nat) : Decidable (Room cfg n) := inferInstanceAs (Decidable (_ ∨ _))

/-- A frame, with the message that is open: the message open after it and the one it completes; `none` if the peer fails. -/
def receive (cfg : Config) (st : Option Message) (f : WFrame) : Option (Option Message × List Message) :=
  if isControl f.op then if Room cfg f.data.octets.length then some (st, []) else none
  else
    match st with
    | none =>
      if ¬ Room cfg f.data.octets.length ∨ f.op = opcodeContinuation then none
      else if f.fin then
        if f.op = opcodeText ∧ !utf8Valid f.data.octets then none else some (none, [(f.op, f.data.octets)])
      else some (some (f.op, f.data.octets), [])
    | some (op, buf) =>
      if ¬ Room cfg (buf ++ f.data.octets).length ∨ f.op ≠ opcodeContinuation then none
      else if f.fin then
        if op = opcodeText ∧ !utf8Valid (buf ++ f.data.octets) then none else some (none, [(op, buf ++ f.data.octets)])
      else some (some (op, buf ++ f.data.octets), [])

/-! ## A frame on the wire -/

/-- A frame that one of the calls writes. -/
def WFrame.Legal (f : WFrame) : Prop :=
  isData f.op ∨ (f.op = opcodePing ∨ f.op = opcodePong) ∧ f.fin = true ∧ f.data.octets.length ≤ 125

def WFrame.header (isServer : Bool) (key : MaskKey) (f : WFrame) : Header :=
  { fin := f.fin, opcode := f.op, payloadLen := f.data.octets.length, masked := !isServer
    maskKey := if isServer then {} else key }

def WFrame.body (isServer : Bool) (key : MaskKey) (f : WFrame) : List UInt8 :=
  if isServer then f.data.octets else mask 0 f.data.octets key

def WFrame.octets (isServer : Bool) (key : MaskKey) (f : WFrame) : List UInt8 :=
  headerOctets (f.header isServer key) ++ f.body isServer key

variable {isServer : Bool} {key : MaskKey} {f : WFrame} {cfg : Config} {c : Conn} {rest : List UInt8}

theorem isData_cases {op : Opcode} (h : isData op = true) :
    op = opcodeContinuation ∨ op = opcodeText ∨ op = opcodeBinary := by
  revert h
  refine @forall_byte (fun op => isData op = true → op = opcodeContinuation ∨ op = opcodeText ∨ op = opcodeBinary) ?_ op
  decide +kernel

theorem WFrame.Legal.cases (hf : f.Legal) :
    (f.op = opcodeContinuation ∨ f.op = opcodeText ∨ f.op = opcodeBinary) ∨
      (f.op = opcodePing ∨ f.op = opcodePong) ∧ f.fin = true ∧ f.data.octets.length ≤ 125 :=
  hf.imp_left isData_cases

theorem WFrame.Legal.proper (hf : f.Legal) : (f.header isServer key).Proper where
  opcode := by
    obtain (h | h | h) | ⟨h | h, -⟩ := hf.cases <;> simp only [WFrame.header, h] <;> decide
  payloadLen := f.data.length_lt
  maskKey := by
    cases isServer
    · nofun
    · exact fun _ => rfl
  control := by
    obtain (h | h | h) | ⟨h, hfin, hlen⟩ := hf.cases
    · simp only [checkControl, WFrame.header, h]
      rfl
    · simp only [checkControl, WFrame.header, h]
      rfl
    · simp only [checkControl, WFrame.header, h]
      rfl
    · simp [checkControl, WFrame.header, hfin, Nat.not_lt.2 hlen]

theorem writeFrameLocked_eq (hf : f.Legal) :
    writeFrameLocked isServer key f.fin false f.op f.data.octets = .ok (f.octets isServer key) := by
  have hproper : (f.header isServer key).Proper := hf.proper
  have hw := writeHeader_proper hproper
  simp only [WFrame.header] at hw
  simp only [writeFrameLocked, hw, WFrame.octets, WFrame.body, WFrame.header]
  cases isServer <;> rfl

theorem readPayload_body (hc : c.input = f.body isServer key ++ rest) :
    c.readPayload (f.header isServer key) = (.ok f.data.octets, { c with input := rest }) := by
  have hlen : (f.body isServer key).length = f.data.octets.length := by
    rw [WFrame.body]
    split
    · rfl
    · rw [mask_eq, maskOctets_length]
  have hread : readFull (f.header isServer key).payloadLen c.input = (.ok (f.body isServer key), rest) := by
    rw [hc, show (f.header isServer key).payloadLen = (f.body isServer key).length from hlen.symm, readFull_append]
  simp only [Conn.readPayload, hread]
  cases isServer with
  | true => rfl
  | false => simp only [WFrame.header, WFrame.body, mask_eq, maskOctets_maskOctets, Bool.not_false, if_true,
      Bool.false_eq_true, if_false]

/-- The connection of the peer while it reads: nothing is wrong, and `st` is the message that is open. -/
structure Conn.At (c : Conn) (st : Option Message) (input : List UInt8) : Prop where
  state : c.state = .stateOpen
  seenClose : c.seenClose = false
  fragmentOpcode : c.fragmentOpcode = (st.map (·.1)).getD 0
  fragmentBuf : c.fragmentBuf = (st.map (·.2)).getD []
  fragmentRsv1 : c.fragmentRsv1 = false
  input : c.input = input
  opened : ∀ m, st = some m → m.1 ≠ opcodeContinuation

theorem refuse_header (hf : f.Legal) (hrole : cfg.isServer = !isServer) (hc : c.seenClose = false) :
    c.refuse cfg (f.header isServer key) = none := by
  have hctl : (isControl f.op && !f.fin) = false ∧ (isControl f.op && decide (125 < f.data.octets.length)) = false := by
    obtain h | ⟨-, hfin, hlen⟩ := hf.cases
    · have hdata : isControl f.op = false := by obtain h | h | h := h <;> rw [h] <;> decide
      rw [hdata]
      exact ⟨rfl, rfl⟩
    · rw [hfin, decide_eq_false (Nat.not_lt.2 hlen)]
      exact ⟨Bool.and_false _, Bool.and_false _⟩
  have hvalid : (!isValid f.op || isReserved f.op) = false := by
    obtain (h | h | h) | ⟨h | h, -⟩ := hf.cases <;> rw [h] <;> decide
  have hmask : (!cfg.skipMaskCheck && cfg.isServer && !(!isServer)) = false ∧
      (!cfg.skipMaskCheck && !cfg.isServer && !isServer) = false := by
    rw [hrole]
    cases isServer <;> cases cfg.skipMaskCheck <;> decide
  have hnot {b : Bool} (h : b = false) : ¬ b = true := by rw [h]; nofun
  refine (if_neg (hnot hvalid)).trans ?_
  refine (if_neg (hnot (by rw [hc]; rfl))).trans ?_
  refine (if_neg (hnot hmask.1)).trans ?_
  refine (if_neg (hnot hmask.2)).trans ?_
  -- no reserved bit is ever set
  refine (if_neg (hnot rfl)).trans ((if_neg (hnot rfl)).trans ((if_neg (hnot rfl)).trans ?_))
  exact (if_neg (hnot hctl.1)).trans (if_neg (hnot hctl.2))

/-- What a round of the peer does, against what is expected of it. -/
def Conn.Took (r : Conn × Option Outcome) (rest : List UInt8) : Option (Option Message × List Message) → Prop
  | none => ∃ e, r.2 = some (.failed e) ∧ e ≠ .eof
  | some (st, []) => r.2 = none ∧ r.1.At st rest
  | some (st, [m]) => r.2 = some (.message m.1 m.2) ∧ r.1.At st rest
  | some (_, _ :: _ :: _) => False

theorem At.input {input : List UInt8} (h : c.At st input) (rest : List UInt8) :
    ({ c with input := rest } : Conn).At st rest :=
  { h with input := rfl }

theorem room_iff_fits : Conn.Fits cfg (f.header isServer key) ↔ Room cfg f.data.octets.length := Iff.rfl

theorem receive_control (hctl : isControl f.op = true) :
    receive cfg st f = if Room cfg f.data.octets.length then some (st, []) else none := by
  unfold receive
  rw [if_pos hctl]

/-- The end of a message that is not compressed, as the peer and as `receive` have it. -/
theorem took_deliver {op : Opcode} {payload : List UInt8} (hc : c.At none rest) :
    Conn.Took (c.deliver cfg op false payload) rest
      (if op = opcodeText ∧ !utf8Valid payload then none else some (none, [(op, payload)])) := by
  rw [Conn.deliver, if_neg Bool.false_ne_true]
  dsimp only
  split
  · exact ⟨_, rfl, by decide⟩
  · exact ⟨rfl, hc⟩

theorem took_control (hf : f.Legal) (hctl : isControl f.op = true) (hc : c.At st (f.body isServer key ++ rest)) :
    Conn.Took (c.frame cfg .readMessage (f.header isServer key)) rest (receive cfg st f) := by
  have hop : isControl (f.header isServer key).opcode = true := hctl
  rw [receive_control hctl]
  by_cases hroom : Room cfg f.data.octets.length
  · rw [if_pos hroom, Conn.frame_eq, Conn.turn, if_neg (not_not.2 (room_iff_fits.2 hroom)), if_pos hop, Conn.take,
      Conn.controlFrame, readPayload_body hc.input]
    have hat := At.input hc rest
    obtain h | ⟨h | h, -⟩ := hf.cases
    · have hdata : isControl f.op = false := by obtain h | h | h := h <;> rw [h] <;> decide
      rw [hdata] at hctl
      cases hctl
    · have hop : (f.header isServer key).opcode = opcodePing := h
      dsimp only
      rw [if_pos hop]
      exact ⟨rfl, { hat with input := rfl }⟩
    · have hop : (f.header isServer key).opcode = opcodePong := h
      dsimp only
      rw [hop, if_neg (by decide), if_pos rfl]
      exact ⟨rfl, hat⟩
  · rw [if_neg hroom, Conn.frame_eq, Conn.turn, if_pos (mt room_iff_fits.1 hroom)]
    exact ⟨_, rfl, by decide⟩

/-- A message with a further frame. -/
def WFrame.joins (f : WFrame) (st : Option Message) : Message :=
  ((st.map (·.1)).getD f.op, (st.map (·.2)).getD [] ++ f.data.octets)

/-- A continuation continues a message, and nothing else does. -/
def WFrame.InTurn (f : WFrame) (st : Option Message) : Prop := f.op = opcodeContinuation ↔ st.isSome

instance (f : WFrame) (st : Option Message) : Decidable (f.InTurn st) := inferInstanceAs (Decidable (_ ↔ _))

section Data

variable {st : Option Message} (hdata : isControl f.op = false)

/-- The message `m` after its last frame, or before a further one. -/
def ends (fin : Bool) (m : Message) : Option (Option Message × List Message) :=
  if fin then if m.1 = opcodeText ∧ !utf8Valid m.2 then none else some (none, [m]) else some (some m, [])

include hdata in
theorem receive_data :
    receive cfg st f = if Room cfg (f.joins st).2.length ∧ f.InTurn st then ends f.fin (f.joins st) else none := by
  unfold receive
  rw [if_neg (by rw [hdata]; nofun)]
  cases st with
  | none => exact (ite_not ..).symm.trans (if_congr (by simp [WFrame.joins, WFrame.InTurn]) rfl rfl)
  | some m => exact (ite_not ..).symm.trans (if_congr (by simp [WFrame.joins, WFrame.InTurn]) rfl rfl)

theorem WFrame.InTurn.ne_continuation (h : f.InTurn none) : f.op ≠ opcodeContinuation :=
  fun hop => by simpa using h.1 hop

theorem took_fragment (hc : c.At st (f.body isServer key ++ rest)) :
    Conn.Took (c.fragment cfg (f.header isServer key)) rest
      (if f.InTurn st then ends f.fin (f.joins st) else none) := by
  have hat := At.input hc rest
  have hop : (f.header isServer key).opcode = f.op := rfl
  rw [Conn.fragment, readPayload_body hc.input]
  dsimp only
  by_cases hturn : f.InTurn st
  · have horder : ({ c with input := rest } : Conn).outOfOrder (f.header isServer key) = none := by
      rw [Conn.outOfOrder, hop]
      cases st with
      | none => exact (if_neg hturn.ne_continuation).trans (if_neg (not_not_intro hc.fragmentOpcode))
      | some m => exact (if_pos (hturn.2 rfl)).trans (if_neg fun h => hc.opened m rfl (hc.fragmentOpcode.symm.trans h))
    have hbegin : ({ c with input := rest } : Conn).begin (f.header isServer key) =
        ⟨c.state, c.seenClose, (f.joins st).1, (st.map (·.2)).getD [], false, rest, c.sent⟩ := by
      rw [Conn.begin, hop]
      cases st with
      | none => exact if_neg hturn.ne_continuation
      | some m => rw [if_pos (hturn.2 rfl), hc.fragmentOpcode, hc.fragmentBuf, hc.fragmentRsv1]; rfl
    rw [if_pos hturn, horder]
    dsimp only
    rw [hbegin, ends, show (f.header isServer key).fin = f.fin from rfl]
    cases f.fin with
    | true => exact @took_deliver cfg _ rest _ _ ⟨hat.state, hat.seenClose, rfl, rfl, rfl, rfl, by simp⟩
    | false =>
      refine ⟨rfl, hat.state, hat.seenClose, rfl, rfl, rfl, rfl, ?_⟩
      rintro _ ⟨⟩
      cases st with
      | none => exact hturn.ne_continuation
      | some m => exact hc.opened m rfl
  · obtain ⟨reason, e, horder, he⟩ : ∃ reason e, ({ c with input := rest } : Conn).outOfOrder (f.header isServer key) =
        some (reason, e) ∧ e ≠ .eof := by
      rw [Conn.outOfOrder, hop]
      cases st with
      | none =>
        have hcont : f.op = opcodeContinuation := by simpa [WFrame.InTurn] using hturn
        exact ⟨_, _, (if_pos hcont).trans (if_pos hc.fragmentOpcode), by simp⟩
      | some m =>
        have hcont : ¬ f.op = opcodeContinuation := by simpa [WFrame.InTurn] using hturn
        have hopen : c.fragmentOpcode ≠ 0 := fun h => hc.opened m rfl (hc.fragmentOpcode.symm.trans h)
        exact ⟨_, _, (if_neg hcont).trans (if_pos hopen), by simp⟩
    rw [if_neg hturn, horder]
    exact ⟨e, rfl, he⟩

include hdata in
theorem took_data (hc : c.At st (f.body isServer key ++ rest)) :
    Conn.Took (c.frame cfg .readMessage (f.header isServer key)) rest (receive cfg st f) := by
  have hat := At.input hc rest
  have hgoes : Conn.Goes cfg c (f.header isServer key) ↔ Room cfg (f.joins st).2.length := by
    rw [Conn.Goes, Room, hc.fragmentBuf, WFrame.joins, List.length_append]
    simp [WFrame.header]
  have hop : ¬ isControl (f.header isServer key).opcode = true := Bool.eq_false_iff.1 hdata
  rw [receive_data hdata, Conn.frame_eq, Conn.turn, if_neg hop]
  by_cases hroom : Room cfg (f.joins st).2.length
  · have hfits : Conn.Fits cfg (f.header isServer key) := by
      rw [WFrame.joins, Room, List.length_append] at hroom
      rw [room_iff_fits, Room]
      omega
    rw [if_neg (not_not.2 hfits), if_neg (not_not.2 (hgoes.2 hroom))]
    simp only [hroom, true_and]
    split
    · -- a message in one frame
      rename_i hwhole
      obtain rfl : st = none := by
        cases st with
        | none => rfl
        | some m => exact absurd (hc.fragmentOpcode.symm.trans hwhole.2) (hc.opened m rfl)
      rw [Conn.take, Conn.wholeMessage, show (f.header isServer key).opcode = f.op from rfl]
      by_cases hcont : f.op = opcodeContinuation
      · rw [if_pos hcont, if_neg fun h : f.InTurn none => h.ne_continuation hcont]
        exact ⟨_, rfl, by decide⟩
      · rw [if_neg hcont, if_pos ⟨fun h => absurd h hcont, by simp⟩, readPayload_body hc.input, ends, show f.fin = true from
          hwhole.1]
        exact took_deliver hat
    · exact took_fragment hc
  · rw [if_neg fun h : Room cfg _ ∧ _ => hroom h.1, if_pos (mt hgoes.1 hroom)]
    split
    all_goals exact ⟨_, rfl, by decide⟩

end Data

theorem took_round (hf : f.Legal) (hrole : cfg.isServer = !isServer)
    (hc : c.At st (f.octets isServer key ++ rest)) :
    Conn.Took (c.round cfg .readMessage) rest (receive cfg st f) := by
  have hread : readHeader c.input = (.ok (f.header isServer key), f.body isServer key ++ rest) := by
    rw [hc.input, WFrame.octets, List.append_assoc]
    exact readHeader_headerOctets hf.proper _
  have hopen : c.state ≠ .stateClosed := by
    rw [hc.state]
    nofun
  have hat := At.input hc (f.body isServer key ++ rest)
  rw [Conn.round_frame hopen hread (refuse_header hf hrole hat.seenClose)]
  cases hctl : isControl f.op with
  | true => exact took_control hf hctl hat
  | false => exact took_data hctl hat

/-! ## The whole stream -/

theorem readLoop_fuel {k : Reader} {a b : Nat} (ha : c.input.length < a) (hb : c.input.length < b) :
    Conn.readLoop cfg k a c = Conn.readLoop cfg k b c := by
  induction a generalizing b c with
  | zero => exact absurd ha (Nat.not_lt_zero _)
  | succ a ih =>
    obtain ⟨b, rfl⟩ : ∃ j, b = j + 1 := ⟨b - 1, by omega⟩
    rw [Conn.readLoop, Conn.readLoop]
    cases ho : (c.round cfg k).2 with
    | some o => rfl
    | none =>
      have hlt := Conn.round_shorter ho
      exact ih (by omega) (by omega)

theorem read_of_none {k : Reader} (ho : (c.round cfg k).2 = none) : c.read cfg k = (c.round cfg k).1.read cfg k := by
  have hlt := Conn.round_shorter ho
  rw [Conn.read, Conn.readLoop, ho]
  exact readLoop_fuel (by omega) (Nat.lt_succ_self _)

theorem read_of_some {k : Reader} {o : Outcome} (ho : (c.round cfg k).2 = some o) :
    c.read cfg k = ((c.round cfg k).1, some o) := by
  rw [Conn.read, Conn.readLoop, ho]

theorem read_nil {st : Option Message} (hc : c.At st []) : (c.read cfg .readMessage).2 = some (.failed .eof) := by
  have hopen : c.state ≠ .stateClosed := by
    rw [hc.state]
    nofun
  have hread : readHeader c.input = (.error (.inl .eof), []) := by
    rw [hc.input]
    rfl
  rw [read_of_some (o := .failed .eof)]
  rw [Conn.round_error hopen hread]
  rfl

/-- Frames with the keys they were masked with, on the wire. -/
def wireOf (isServer : Bool) (fs : List (WFrame × MaskKey)) : List UInt8 :=
  (fs.map fun x => x.1.octets isServer x.2).flatten

/-- The peer returns what `receive` makes of the frames, or fails where `receive` does. -/
def Reads (d : List Message × Option Outcome) : Option (Option Message × List Message) → Prop
  | some r => d = (r.2, some (.failed .eof))
  | none => ∃ e, d.2 = some (.failed e) ∧ e ≠ .eof

theorem Reads.cons {d : List Message × Option Outcome} {r : Option (Option Message × List Message)} (h : Reads d r)
    (ms : List Message) : Reads (ms ++ d.1, d.2) (r.map fun q => (q.1, ms ++ q.2)) := by
  cases r with
  | none => exact h
  | some r =>
    have hd : d = (r.2, some (.failed .eof)) := h
    rw [hd]
    rfl

theorem reads_deliveries (hrole : cfg.isServer = !isServer) {fs : List (WFrame × MaskKey)} (hfs : ∀ x ∈ fs, x.1.Legal)
    {fuel : Nat} (hc : c.At st (wireOf isServer fs)) (hfuel : (wireOf isServer fs).length < fuel) :
    Reads (deliveries cfg fuel c) (run (receive cfg) st (fs.map (·.1))) := by
  induction fs generalizing c st fuel with
  | nil =>
    obtain ⟨fuel, rfl⟩ : ∃ n, fuel = n + 1 := ⟨fuel - 1, by omega⟩
    have hnil := @read_nil cfg c st hc
    rw [deliveries]
    cases hr : c.read cfg .readMessage with
    | mk c' o =>
      rw [hr] at hnil
      cases hnil
      rfl
  | cons x fs ih =>
    obtain ⟨f, key⟩ := x
    have hwire : wireOf isServer ((f, key) :: fs) = f.octets isServer key ++ wireOf isServer fs := rfl
    have hpos : 0 < (f.octets isServer key).length := by
      rw [WFrame.octets, headerOctets]
      exact Nat.succ_pos _
    rw [hwire] at hc hfuel
    rw [List.length_append] at hfuel
    obtain ⟨fuel, rfl⟩ : ∃ n, fuel = n + 1 := ⟨fuel - 1, by omega⟩
    have htook := took_round (hfs _ List.mem_cons_self) hrole hc
    have hrest := fun y hy => hfs y (List.mem_cons_of_mem _ hy)
    rw [List.map_cons]
    rcases hrec : receive cfg st f with _ | ⟨st', _ | ⟨m, _ | ⟨m', ms⟩⟩⟩ <;> rw [hrec] at htook
    · obtain ⟨e, ho, hne⟩ := htook
      rw [run, hrec, deliveries, read_of_some ho]
      exact ⟨e, rfl, hne⟩
    · obtain ⟨ho, hat⟩ := htook
      have hsame : deliveries cfg (fuel + 1) c = deliveries cfg (fuel + 1) (c.round cfg .readMessage).1 := by
        rw [deliveries, deliveries, read_of_none ho]
      have hih : Reads (deliveries cfg (fuel + 1) (c.round cfg .readMessage).1) _ := ih hrest hat (by omega)
      rw [run_cons_some _ hrec, hsame]
      exact hih.cons []
    · obtain ⟨ho, hat⟩ := htook
      have hih : Reads (deliveries cfg fuel (c.round cfg .readMessage).1) _ := ih hrest hat (by omega)
      rw [run_cons_some _ hrec, deliveries, read_of_some ho]
      exact hih.cons [m]
    · exact htook.elim

end Mach.Ws
