import Mach.H3.Frames
import Mach.Headkit.Intern
/-!
# The stream of a request

`handleRequestStream` reads frames until the stream ends, and then runs the
handler. The end of the stream is `io.EOF` of `ReadFrameHeader`; the payloads it
discards or collects are read as far as they go.
-/

namespace Mach.H3.Server
open Lib Headkit List Message

/-- What `DecodeRequestHeaders` yields, and the field `:protocol`. -/
structure Request where
  method : List UInt8 := []
  path : List UInt8 := []
  scheme : List UInt8 := []
  authority : List UInt8 := []
  protocol : List UInt8 := []
  deriving DecidableEq, Repr

def Request.isExtendedConnect (req : Request) : Bool := req.method == ascii "CONNECT" && req.protocol != []

inductive Outcome where
  /-- It returns, and the stream is closed. -/
  | returned
  | closeWithError (code : Nat) (reason : String)
  /-- `CancelRead` and `CancelWrite`. -/
  | cancel (code : Nat)
  /-- The handler runs with the stream. -/
  | extendedConnect (req : Request)
  | handled (req : Request) (body : List UInt8)
  deriving DecidableEq, Repr

structure Reading where
  hasSeenHeaders : Bool := false
  hasSeenTrailer : Bool := false
  headerBlock : List UInt8 := []
  req : Request := {}
  body : List UInt8 := []
  deriving DecidableEq, Repr

def Reading.finish (st : Reading) : Outcome :=
  if st.hasSeenHeaders = false ∨ st.headerBlock = [] then .cancel 0x010d else .handled st.req st.body

section Loop

variable (cut : ReadError) (enableConnectProtocol : Bool) (decode : List UInt8 → Option Request)
  {st st' : Reading} {f : Frame} {fs : List Frame}

variable {s : Source UInt8} {req : Request} {body : List UInt8}

def afterTrailer : Outcome := .closeWithError 0x0105 "frame after trailing headers (RFC 9114 §4.1)"

def tooLarge : Outcome := .closeWithError 0x0107 "HEADERS frame payload too large (RFC 9114 §4.2)"

def dataUnexpected : Outcome := .closeWithError 0x0105 "DATA frame unexpected (RFC 9114 §4.1)"

def reservedUnexpected : Outcome :=
  .closeWithError 0x0105 "reserved H2 frame type on request stream (RFC 9114 §7.2.8)"

def controlUnexpected : Outcome :=
  .closeWithError 0x0105 "control frame received on request stream (RFC 9114 §7.2 Table 1)"

def maxHeaders : Nat := 16 * 1024 * 1024

/-- The header block is decoded: an ordinary request, or an extended CONNECT, which takes over the stream. -/
def Reading.onHeaders (st : Reading) (headerBlock : List UInt8) : Except Outcome Reading :=
  match decode headerBlock with
  | none => .error (.cancel 0x010e)
  | some req =>
    if req.isExtendedConnect then
      if enableConnectProtocol = false ∨ req.scheme = [] ∨ req.path = [] ∨ req.authority = [] then .error (.cancel 0x0101)
      else .error (.extendedConnect req)
    else .ok { st with hasSeenHeaders := true, headerBlock, req }

/-- One round of the loop. `io.Copy` and `ReadFrom` take a buffer at a time. -/
def iteration (st : Reading) (br : Source UInt8) : Except Outcome (Reading × Source UInt8) :=
  match readFrameHeader cut br with
  | .error .eof => .error st.finish
  | .error .unexpectedEOF => .error .returned
  | .ok ((frameType, frameLen), br) =>
    if frameType = 0x01 then
      if st.hasSeenTrailer then .error afterTrailer
      else if maxHeaders < frameLen then .error tooLarge
      else if st.hasSeenHeaders then .ok ({ st with hasSeenTrailer := true }, (br.readUpTo 32768 frameLen).2)
      else
        let (headerBlock, br) := br.readUpTo frameLen frameLen
        if headerBlock.length < frameLen then .error .returned
        else (st.onHeaders enableConnectProtocol decode headerBlock).map (·, br)
    else if frameType = 0x00 then
      if st.hasSeenHeaders = false ∨ st.hasSeenTrailer then .error dataUnexpected
      else
        let (read, br) := br.readUpTo 32768 frameLen
        .ok ({ st with body := st.body ++ read }, br)
    else if isReservedH2FrameType frameType then .error reservedUnexpected
    else if isControlFrameType frameType then .error controlUnexpected
    else .ok (st, (br.readUpTo 32768 frameLen).2)

/-- Every round takes two octets at least. -/
def handleRequestStream (stream : Source UInt8) : Outcome :=
  Framer.process (iteration cut enableConnectProtocol decode) .returned (stream.stream.length + 1) {} stream

/-! ## Frames -/

/-- What a round does with a complete frame. -/
def onFrame (st : Reading) (f : Frame) : Except Outcome Reading :=
  if f.type = 0x01 then
    if st.hasSeenTrailer then .error afterTrailer
    else if maxHeaders < f.payload.length then .error tooLarge
    else if st.hasSeenHeaders then .ok { st with hasSeenTrailer := true }
    else st.onHeaders enableConnectProtocol decode f.payload
  else if f.type = 0x00 then
    if st.hasSeenHeaders = false ∨ st.hasSeenTrailer then .error dataUnexpected
    else .ok { st with body := st.body ++ f.payload }
  else if isReservedH2FrameType f.type then .error reservedUnexpected
  else if isControlFrameType f.type then .error controlUnexpected
  else .ok st

/-- What it does where the stream ends before the frame does. -/
def onRest (st : Reading) (r : List UInt8) : Outcome :=
  match takeHeader cut r with
  | .error .eof => st.finish
  | .error .unexpectedEOF => .returned
  | .ok ((frameType, frameLen), rest) =>
    if frameType = 0x01 then
      if st.hasSeenTrailer then afterTrailer
      else if maxHeaders < frameLen then tooLarge
      else if st.hasSeenHeaders then st.finish
      else .returned
    else if frameType = 0x00 then
      if st.hasSeenHeaders = false ∨ st.hasSeenTrailer then dataUnexpected
      else { st with body := st.body ++ rest }.finish
    else if isReservedH2FrameType frameType then reservedUnexpected
    else if isControlFrameType frameType then controlUnexpected
    else st.finish

variable {cut enableConnectProtocol decode}

theorem iteration_frame {k : Nat} (h : nextFrame s.stream = some (f, k)) :
    (iteration cut enableConnectProtocol decode st s).map unread =
      (onFrame enableConnectProtocol decode st f).map (·, s.stream.drop k) := by
  obtain ⟨s', hr, hread⟩ := readFrameHeader_of_next cut h
  obtain ⟨hcopy, hskip⟩ := hread 32768 (.inr (by decide))
  obtain ⟨hfull, hleft⟩ := hread f.payload.length (Nat.eq_zero_or_pos _)
  simp only [iteration, hr, onFrame, apply_ite (Except.map unread),
    apply_ite (Except.map fun st' => (st', s.stream.drop k)), hcopy, hfull, Nat.lt_irrefl, if_false]
  repeat' refine ite_congr rfl (fun _ => ?_) fun _ => ?_
  all_goals try simp only [Except.map, unread, hskip]
  cases st.onHeaders enableConnectProtocol decode f.payload with
  | error o => rfl
  | ok st' => simp only [hleft]

theorem iteration_rest (h : nextFrame s.stream = none) :
    iteration cut enableConnectProtocol decode st s = .error (onRest cut st s.stream) ∨
    ∃ st' s', iteration cut enableConnectProtocol decode st s = .ok (st', s') ∧ s.stream ≠ [] ∧ s'.stream = [] ∧
      onRest cut st' [] = onRest cut st s.stream := by
  obtain ⟨e, hr, ht⟩ | ⟨t, n, s', hr, ht, hshort, hne, hread⟩ := readFrameHeader_of_none cut h
  · left
    simp only [iteration, hr, onRest, ht]
    cases e <;> rfl
  · obtain ⟨hcopy, hskip⟩ := hread 32768 (.inr (by decide))
    have hfull := (hread n (Nat.eq_zero_or_pos n)).1
    simp only [iteration, hr, onRest, ht, hcopy, hfull, hshort, if_true]
    repeat' first
      | exact .inl rfl
      | exact .inr ⟨_, _, rfl, hne, hskip, rfl⟩
      | split

theorem handles : Framer.Handles (iteration cut enableConnectProtocol decode) framer
    (onFrame enableConnectProtocol decode) (onRest cut) where
  frame := iteration_frame
  rest := iteration_rest

/-- The outcome depends on the octets of the stream only. -/
theorem handleRequestStream_eq (stream : Source UInt8) :
    handleRequestStream cut enableConnectProtocol decode stream =
      Framer.afterFrames (onFrame enableConnectProtocol decode) (onRest cut) {} (frames stream.stream).1
        (frames stream.stream).2 :=
  handles.process_eq .returned (frames_spec _) (Nat.lt_succ_self _)

/-! ## Requests -/

/-- The frames a round takes, and what it makes of the state. -/
inductive Taken (decode : List UInt8 → Option Request) (st : Reading) (f : Frame) : Reading → Prop
  | discarded : isDiscarded f.type = true → Taken decode st f st
  | data : f.type = 0x00 → st.hasSeenHeaders = true → st.hasSeenTrailer = false →
      Taken decode st f { st with body := st.body ++ f.payload }
  | trailer : f.type = 0x01 → f.payload.length ≤ maxHeaders → st.hasSeenHeaders = true → st.hasSeenTrailer = false →
      Taken decode st f { st with hasSeenTrailer := true }
  | headers {req : Request} : f.type = 0x01 → f.payload.length ≤ maxHeaders → st.hasSeenHeaders = false →
      st.hasSeenTrailer = false → decode f.payload = some req → req.isExtendedConnect = false →
      Taken decode st f { st with hasSeenHeaders := true, headerBlock := f.payload, req }

theorem onFrame_ok_iff : onFrame enableConnectProtocol decode st f = .ok st' ↔ Taken decode st f st' := by
  constructor
  · intro h
    simp only [onFrame, Reading.onHeaders] at h
    repeat' split at h
    all_goals cases h
    · exact .trailer ‹_› (Nat.not_lt.1 ‹_›) ‹_› (eq_false_of_ne_true ‹_›)
    · exact .headers ‹_› (Nat.not_lt.1 ‹_›) (eq_false_of_ne_true ‹_›) (eq_false_of_ne_true ‹_›) ‹_›
        (eq_false_of_ne_true ‹_›)
    · rename_i hseen
      rw [not_or, Bool.not_eq_false, Bool.not_eq_true] at hseen
      exact .data ‹_› hseen.1 hseen.2
    · exact .discarded (isDiscarded_iff.2 ⟨‹_›, ‹_›, eq_false_of_ne_true ‹_›, eq_false_of_ne_true ‹_›⟩)
  · intro h
    cases h with
    | discarded hd =>
      obtain ⟨h1, h0, hres, hctl⟩ := isDiscarded_iff.1 hd
      rw [onFrame, if_neg h1, if_neg h0, hres, hctl]
      rfl
    | data htype hseen htrailer =>
      rw [onFrame, if_neg (by rw [htype]; decide), if_pos htype, if_neg (by simp [hseen, htrailer])]
    | trailer htype hle hseen htrailer =>
      rw [onFrame, if_pos htype, htrailer, if_neg (by decide), if_neg (Nat.not_lt.2 hle), hseen, if_pos rfl]
    | headers htype hle hseen htrailer hdec hext =>
      rw [onFrame, if_pos htype, htrailer, if_neg (by decide), if_neg (Nat.not_lt.2 hle), hseen, if_neg (by decide),
        Reading.onHeaders, hdec]
      simp [hext, htrailer]

theorem run_tail_iff (htrailer : st.hasSeenTrailer = true) :
    fs.foldlM (onFrame enableConnectProtocol decode) st = .ok st' ↔ (∀ f ∈ fs, isDiscarded f.type = true) ∧ st' = st := by
  induction fs with
  | nil => exact ⟨fun h => ⟨nofun, (Except.ok.inj h).symm⟩, fun h => congrArg _ h.2.symm⟩
  | cons f fs ih =>
    rw [Framer.foldlM_cons_ok, forall_mem_cons]
    constructor
    · rintro ⟨st1, hstep, hrun⟩
      cases onFrame_ok_iff.1 hstep with
      | discarded hd =>
        obtain ⟨hfs, rfl⟩ := ih.1 hrun
        exact ⟨⟨hd, hfs⟩, rfl⟩
      | data _ _ h => exact absurd (h.symm.trans htrailer) (by decide)
      | trailer _ _ _ h => exact absurd (h.symm.trans htrailer) (by decide)
      | headers _ _ _ h => exact absurd (h.symm.trans htrailer) (by decide)
    · rintro ⟨⟨hd, hfs⟩, rfl⟩
      exact ⟨st', onFrame_ok_iff.2 (.discarded hd), ih.2 ⟨hfs, rfl⟩⟩

def Small (fs : List Frame) : Prop := ∀ f ∈ fs, f.type = 0x01 → f.payload.length ≤ maxHeaders

theorem small_of_ne (h : ∀ f ∈ fs, f.type ≠ 0x01) : Small fs := fun f hf ht => absurd ht (h f hf)

/-- The state after more of the content. -/
def Reading.after (st : Reading) (trailer : Bool) (data : List UInt8) : Reading :=
  { st with hasSeenTrailer := trailer, body := st.body ++ data }

theorem Reading.after_nil (h : st.hasSeenTrailer = false) : st.after false [] = st := by
  rw [Reading.after, append_nil, ← h]

theorem Reading.after_append (st : Reading) (trailer : Bool) (d d' : List UInt8) :
    { st with body := st.body ++ d }.after trailer d' = st.after trailer (d ++ d') := by
  simp [Reading.after]

theorem run_content_iff (hseen : st.hasSeenHeaders = true) (htrailer : st.hasSeenTrailer = false) :
    fs.foldlM (onFrame enableConnectProtocol decode) st = .ok st' ↔
      ∃ content trailer, fs = content ++ Message.ending trailer ∧
        (∀ f ∈ content, f.type = 0x00 ∨ isDiscarded f.type = true) ∧
        (∀ block tail, trailer = some (block, tail) → ∀ f ∈ tail, isDiscarded f.type = true) ∧ Small fs ∧
        st' = st.after trailer.isSome (Message.dataOf content) := by
  induction fs generalizing st with
  | nil =>
    constructor
    · intro h
      refine ⟨[], none, rfl, nofun, nofun, nofun, ?_⟩
      rw [← Except.ok.inj h]
      exact (Reading.after_nil htrailer).symm
    · rintro ⟨content, trailer, hnil, -, -, -, rfl⟩
      obtain ⟨rfl, hend⟩ := append_eq_nil_iff.1 hnil.symm
      cases trailer with
      | none => exact congrArg _ (Reading.after_nil htrailer).symm
      | some p => cases hend
  | cons f fs ih =>
    rw [Framer.foldlM_cons_ok]
    constructor
    · rintro ⟨st1, hstep, hrun⟩
      cases onFrame_ok_iff.1 hstep with
      | discarded hd =>
        obtain ⟨content, trailer, rfl, hc, ht, hs, rfl⟩ := (ih hseen htrailer).1 hrun
        refine ⟨f :: content, trailer, rfl, forall_mem_cons.2 ⟨.inr hd, hc⟩, ht, ?_, ?_⟩
        · exact forall_mem_cons.2 ⟨fun h => absurd h (isDiscarded_iff.1 hd).1, hs⟩
        · rw [dataOf_cons_other (isDiscarded_iff.1 hd).2.1]
      | data h0 =>
        obtain ⟨content, trailer, rfl, hc, ht, hs, rfl⟩ :=
          (@ih { st with body := st.body ++ f.payload } hseen htrailer).1 hrun
        refine ⟨f :: content, trailer, rfl, forall_mem_cons.2 ⟨.inl h0, hc⟩, ht, ?_, ?_⟩
        · exact forall_mem_cons.2 ⟨fun h => absurd (h0.symm.trans h) (by decide), hs⟩
        · rw [dataOf_cons_data h0, Reading.after_append]
      | trailer h1 hle =>
        obtain ⟨hfs, rfl⟩ := (run_tail_iff rfl).1 hrun
        obtain ⟨t, payload⟩ := f
        obtain rfl : t = 0x01 := h1
        refine ⟨[], some (payload, fs), rfl, nofun, ?_, ?_, ?_⟩
        · rintro _ _ ⟨⟩
          exact hfs
        · exact forall_mem_cons.2 ⟨fun _ => hle, small_of_ne fun f hf => (isDiscarded_iff.1 (hfs f hf)).1⟩
        · simp [dataOf, Reading.after]
      | headers _ _ h => exact absurd (h.symm.trans hseen) (by decide)
    · rintro ⟨content, trailer, heq, hc, ht, hs, rfl⟩
      obtain ⟨hle, hs⟩ := forall_mem_cons.1 hs
      cases content with
      | nil =>
        cases trailer with
        | none => cases heq
        | some p =>
          obtain ⟨rfl, rfl⟩ := List.cons.inj heq
          refine ⟨_, onFrame_ok_iff.2 (.trailer rfl (hle rfl) hseen htrailer), (run_tail_iff rfl).2 ⟨ht _ _ rfl, ?_⟩⟩
          simp [dataOf, Reading.after]
      | cons g content =>
        obtain ⟨rfl, rfl⟩ := List.cons.inj heq
        obtain ⟨hf, hc⟩ := forall_mem_cons.1 hc
        by_cases h0 : f.type = 0x00
        · refine ⟨_, onFrame_ok_iff.2 (.data h0 hseen htrailer),
            (@ih { st with body := st.body ++ f.payload } hseen htrailer).2 ⟨content, trailer, rfl, hc, ht, hs, ?_⟩⟩
          rw [dataOf_cons_data h0, Reading.after_append]
        · refine ⟨_, onFrame_ok_iff.2 (.discarded (hf.resolve_left h0)), (ih hseen htrailer).2
            ⟨content, trailer, rfl, hc, ht, hs, ?_⟩⟩
          rw [dataOf_cons_other h0]

/-- A message that is a request: the section in it is one that is accepted, and not for an extended CONNECT. Frames
before it are `other`. -/
structure IsRequest (decode : List UInt8 → Option Request) (other : Nat → Bool) (m : Message) (req : Request) : Prop
    extends m.Over other where
  lead : ∀ f ∈ m.lead, other f.type = true
  decoded : decode m.block = some req
  ordinary : req.isExtendedConnect = false

def received (m : Message) (req : Request) : Reading where
  hasSeenHeaders := true
  hasSeenTrailer := m.trailer.isSome
  headerBlock := m.block
  req := req
  body := m.body

theorem run_iff :
    fs.foldlM (onFrame enableConnectProtocol decode) {} = .ok st ↔
      ((∀ f ∈ fs, isDiscarded f.type = true) ∧ st = {}) ∨
      ∃ m req, fs = m.frames ∧ IsRequest decode isDiscarded m req ∧ Small fs ∧ st = received m req := by
  induction fs with
  | nil =>
    constructor
    · intro h
      exact .inl ⟨by simp, (Except.ok.inj h).symm⟩
    · rintro (⟨-, rfl⟩ | ⟨m, req, heq, -⟩)
      · rfl
      · simp [Message.frames] at heq
  | cons f fs ih =>
    rw [Framer.foldlM_cons_ok]
    constructor
    · rintro ⟨st1, hstep, hrun⟩
      cases onFrame_ok_iff.1 hstep with
      | discarded hd =>
        obtain ⟨hfs, rfl⟩ | ⟨m, req, rfl, hm, hs, rfl⟩ := ih.1 hrun
        · exact .inl ⟨forall_mem_cons.2 ⟨hd, hfs⟩, rfl⟩
        · refine .inr ⟨{ m with lead := f :: m.lead }, req, rfl, ⟨⟨hm.content, hm.tail⟩, ?_, hm.decoded, hm.ordinary⟩,
            ?_, rfl⟩
          · exact forall_mem_cons.2 ⟨hd, hm.lead⟩
          · exact forall_mem_cons.2 ⟨fun h => absurd h (isDiscarded_iff.1 hd).1, hs⟩
      | data _ h => cases h
      | trailer _ _ h => cases h
      | @headers req h1 hle _ _ hdec hext =>
        obtain ⟨content, trailer, rfl, hc, ht, hs, rfl⟩ := (run_content_iff rfl rfl).1 hrun
        obtain ⟨t, payload⟩ := f
        obtain rfl : t = 0x01 := h1
        refine .inr ⟨⟨[], payload, content, trailer⟩, req, rfl, ⟨⟨hc, ht⟩, by simp, hdec, hext⟩, ?_, rfl⟩
        exact forall_mem_cons.2 ⟨fun _ => hle, hs⟩
    · rintro (⟨hfs, rfl⟩ | ⟨⟨lead, block, content, trailer⟩, req, heq, hm, hs, rfl⟩)
      · obtain ⟨hd, hfs⟩ := forall_mem_cons.1 hfs
        exact ⟨{}, onFrame_ok_iff.2 (.discarded hd), ih.2 (.inl ⟨hfs, rfl⟩)⟩
      · obtain ⟨hle, hsmall⟩ := forall_mem_cons.1 hs
        cases lead with
        | nil =>
          obtain ⟨rfl, rfl⟩ := List.cons.inj heq
          exact ⟨_, onFrame_ok_iff.2 (.headers rfl (hle rfl) rfl rfl hm.decoded hm.ordinary),
            (run_content_iff rfl rfl).2 ⟨content, trailer, rfl, hm.content, hm.tail, hsmall, rfl⟩⟩
        | cons g lead =>
          obtain ⟨rfl, rfl⟩ := List.cons.inj heq
          obtain ⟨hd, hlead⟩ := forall_mem_cons.1 hm.lead
          exact ⟨{}, onFrame_ok_iff.2 (.discarded hd), ih.2 (.inr ⟨⟨lead, block, content, trailer⟩, req, rfl,
            ⟨⟨hm.content, hm.tail⟩, hlead, hm.decoded, hm.ordinary⟩, hsmall, rfl⟩)⟩

/-! ## The end of the stream -/

/-- A round passes over the frame that the stream ends in. -/
def skips (cut : ReadError) (trailer : Bool) (r : List UInt8) : Bool :=
  match takeHeader cut r with
  | .error e => e == .eof
  | .ok ((t, n), _) => isDiscarded t || !trailer && (t == 0x00 || t == 0x01 && n ≤ maxHeaders)

/-- What it takes for content. -/
def leftover (cut : ReadError) (r : List UInt8) : List UInt8 :=
  match takeHeader cut r with
  | .error _ => []
  | .ok ((t, _), rest) => if t = 0x00 then rest else []

theorem finish_received (m : Message) (req req' : Request) (extra body : List UInt8) :
    { received m req with body := m.body ++ extra }.finish = .handled req' body ↔
      m.block ≠ [] ∧ req' = req ∧ body = m.body ++ extra := by
  simp only [Reading.finish, received, Bool.true_eq_false, false_or]
  split
  · rename_i hnil
    exact ⟨nofun, fun h => absurd hnil h.1⟩
  · rename_i hne
    constructor
    · rintro ⟨⟩
      exact ⟨hne, rfl, rfl⟩
    · rintro ⟨-, rfl, rfl⟩
      rfl

theorem onRest_received (m : Message) (req req' : Request) (body r : List UInt8) :
    onRest cut (received m req) r = .handled req' body ↔
      m.block ≠ [] ∧ skips cut m.trailer.isSome r = true ∧ req' = req ∧ body = m.body ++ leftover cut r := by
  have hfin : (received m req).finish = .handled req' body ↔ m.block ≠ [] ∧ req' = req ∧ body = m.body := by
    have h := finish_received m req req' [] body
    rw [append_nil] at h
    exact h
  have hdata : ∀ rest, { received m req with body := (received m req).body ++ rest }.finish = .handled req' body ↔
      m.block ≠ [] ∧ req' = req ∧ body = m.body ++ rest := fun rest => finish_received m req req' rest body
  have hseen : (received m req).hasSeenHeaders = true := rfl
  have htrailer : (received m req).hasSeenTrailer = m.trailer.isSome := rfl
  simp only [onRest, skips, leftover, hseen, htrailer]
  generalize m.trailer.isSome = trailer
  cases takeHeader cut r with
  | error e =>
    cases e with
    | eof => simp [hfin]
    | unexpectedEOF => simp
  | ok p =>
    obtain ⟨⟨t, n⟩, rest⟩ := p
    dsimp only
    obtain rfl | h1 := eq_or_ne t 0x01
    · have hd : isDiscarded 0x01 = false := rfl
      cases trailer with
      | true => simp [hd, afterTrailer]
      | false =>
        by_cases hn : maxHeaders < n
        · simp [hd, hn, tooLarge]
        · simp [hd, hn, Nat.not_lt.1 hn, hfin]
    · obtain rfl | h0 := eq_or_ne t 0x00
      · have hd : isDiscarded 0x00 = false := rfl
        cases trailer with
        | true => simp [hd, dataUnexpected]
        | false =>
          simp only [hd, Bool.true_eq_false, Bool.false_eq_true, or_self, if_false, if_true, h1, Bool.false_or,
            Bool.not_false, beq_self_eq_true, Bool.true_or, Bool.and_self, true_and]
          exact hdata rest
      · cases hres : isReservedH2FrameType t with
        | true => simp [isDiscarded, hres, h0, h1, reservedUnexpected]
        | false =>
          cases hctl : isControlFrameType t with
          | true => simp [isDiscarded, hres, hctl, h0, h1, controlUnexpected]
          | false => simp [isDiscarded, hres, hctl, h0, h1, hfin]

theorem onRest_start (r : List UInt8) (req : Request) (body : List UInt8) : onRest cut {} r ≠ .handled req body := by
  have hfin : ({} : Reading).finish = .cancel 0x010d := rfl
  simp only [onRest, hfin]
  repeat' split
  all_goals nofun

theorem onFrame_ne_handled : onFrame enableConnectProtocol decode st f ≠ .error (.handled req body) := by
  simp only [onFrame, Reading.onHeaders]
  repeat' split
  all_goals nofun

/-- The streams the handler runs for, and with which body. -/
theorem handled_iff {stream : Source UInt8} :
    handleRequestStream cut enableConnectProtocol decode stream = .handled req body ↔
      ∃ m : Message, (frames stream.stream).1 = m.frames ∧ IsRequest decode isDiscarded m req ∧ Small m.frames ∧
        m.block ≠ [] ∧ skips cut m.trailer.isSome (frames stream.stream).2 = true ∧
        body = m.body ++ leftover cut (frames stream.stream).2 := by
  rw [handleRequestStream_eq, Framer.afterFrames]
  generalize frames stream.stream = p
  obtain ⟨fs, r⟩ := p
  dsimp only
  constructor
  · intro h
    split at h
    · rename_i o herr
      obtain ⟨st, f, hstep⟩ := Framer.exists_of_foldlM_error herr
      exact absurd (h ▸ hstep) onFrame_ne_handled
    · rename_i st hrun
      obtain ⟨-, rfl⟩ | ⟨m, req', rfl, hm, hs, rfl⟩ := run_iff.1 hrun
      · exact absurd h (onRest_start r req body)
      obtain ⟨hne, hskip, rfl, hbody⟩ := (onRest_received m req' req body r).1 h
      exact ⟨m, rfl, hm, hs, hne, hskip, hbody⟩
  · rintro ⟨m, rfl, hm, hs, hne, hskip, hbody⟩
    rw [run_iff.2 (.inr ⟨m, req, rfl, hm, hs, rfl⟩)]
    exact (onRest_received m req req body r).2 ⟨hne, hskip, rfl, hbody⟩

end Loop

/-! ## Complete requests -/

/-- The stream is a complete request, and nothing else. -/
def Complete (decode : List UInt8 → Option Request) (stream : List UInt8) (req : Request) (body : List UInt8) : Prop :=
  ∃ m : Message, framer.Frames stream m.frames [] ∧ IsRequest decode isUnknown m req ∧ body = m.body

/-- A header section that is not empty, and HEADERS that are not too large. -/
structure Fits (m : Message) : Prop where
  block : m.block ≠ []
  small : Small m.frames

/-- Where the complete frames of a stream are those of a request that fits, the stream ends with them or is refused, and
none of them is PUSH_PROMISE. A complete request fits. -/
structure Regular (cut : ReadError) (decode : List UInt8 → Option Request) (stream : List UInt8) : Prop where
  ends : ∀ m req, (frames stream).1 = m.frames → IsRequest decode isDiscarded m req → Fits m →
    skips cut m.trailer.isSome (frames stream).2 = true → (frames stream).2 = []
  unpromised : ∀ m req, (frames stream).1 = m.frames → IsRequest decode isDiscarded m req → Fits m →
    (frames stream).2 = [] → ∀ f ∈ m.frames, f.type ≠ 0x05
  fits : ∀ m req, framer.Frames stream m.frames [] → IsRequest decode isUnknown m req → Fits m

variable {decode : List UInt8 → Option Request}

theorem isRequest_unknown_iff {m : Message} {req : Request} :
    IsRequest decode isUnknown m req ↔ IsRequest decode isDiscarded m req ∧ ∀ f ∈ m.frames, f.type ≠ 0x05 := by
  constructor
  · intro h
    obtain ⟨hover, hne⟩ := over_unknown_iff.1 h.toOver
    refine ⟨⟨hover, fun f hf => (isUnknown_iff.1 (h.lead f hf)).1, h.decoded, h.ordinary⟩, fun f hf => ?_⟩
    obtain hf | rfl | hf := mem_frames.1 hf
    · exact (isUnknown_iff.1 (h.lead f hf)).2
    · exact (by decide : (0x01 : Nat) ≠ 0x05)
    · exact hne f hf
  · rintro ⟨h, hne⟩
    refine ⟨over_unknown_iff.2 ⟨h.toOver, fun f hf => hne f ?_⟩, fun f hf => ?_, h.decoded, h.ordinary⟩
    · exact mem_frames.2 (.inr (.inr hf))
    · exact isUnknown_iff.2 ⟨h.lead f hf, hne f (mem_frames.2 (.inl hf))⟩

theorem IsRequest.find_headers {m : Message} {req : Request}
    (h : IsRequest decode isDiscarded m req) : m.frames.find? (fun f => f.type == 0x01) = some ⟨0x01, m.block⟩ :=
  Message.find_headers fun f hf => (isDiscarded_iff.1 (h.lead f hf)).1

/-- The handler runs for the complete requests, with their content for the body, exactly on regular streams. -/
theorem handler_runs_iff (cut : ReadError) (enableConnectProtocol : Bool) (decode : List UInt8 → Option Request)
    (stream : Source UInt8) :
    (∀ req body, handleRequestStream cut enableConnectProtocol decode stream = .handled req body ↔
      Complete decode stream.stream req body) ↔ Regular cut decode stream.stream := by
  have hspec := frames_spec stream.stream
  constructor
  · intro h
    refine ⟨fun m req hm hreq hfits hskip => ?_, fun m req hm hreq hfits hnil => ?_, fun m req hm hreq => ?_⟩
    · obtain ⟨m', hm', -⟩ := (h req _).1 (handled_iff.2 ⟨m, hm, hreq, hfits.small, hfits.block, hskip, rfl⟩)
      exact (hspec.unique hm').2
    · have hskip : skips cut m.trailer.isSome (frames stream.stream).2 = true := by rw [hnil]; rfl
      obtain ⟨m', hm', hreq', -⟩ := (h req _).1 (handled_iff.2 ⟨m, hm, hreq, hfits.small, hfits.block, hskip, rfl⟩)
      rw [← hm, (hspec.unique hm').1]
      exact (isRequest_unknown_iff.1 hreq').2
    · obtain ⟨m', hm', hreq', hsmall, hne, -⟩ := handled_iff.1 ((h req m.body).2 ⟨m, hm, hreq, rfl⟩)
      have hframes : m'.frames = m.frames := by rw [← hm', frames_eq hm]
      have hblock := hreq'.find_headers
      rw [hframes, (isRequest_unknown_iff.1 hreq).1.find_headers] at hblock
      obtain ⟨-, hblock⟩ := Frame.mk.inj (Option.some.inj hblock)
      exact ⟨hblock ▸ hne, hframes ▸ hsmall⟩
  · intro h req body
    constructor
    · intro hh
      obtain ⟨m, hm, hreq, hsmall, hne, hskip, rfl⟩ := handled_iff.1 hh
      have hnil := h.ends m req hm hreq ⟨hne, hsmall⟩ hskip
      rw [hm, hnil] at hspec
      refine ⟨m, hspec, isRequest_unknown_iff.2 ⟨hreq, h.unpromised m req hm hreq ⟨hne, hsmall⟩ hnil⟩, ?_⟩
      rw [hnil]
      exact append_nil _
    · rintro ⟨m, hm, hreq, rfl⟩
      have hfits := h.fits m req hm hreq
      have heq := frames_eq hm
      refine handled_iff.2 ⟨m, by rw [heq], (isRequest_unknown_iff.1 hreq).1, hfits.small, hfits.block, ?_, ?_⟩
      · rw [heq]
        rfl
      · rw [heq]
        exact (append_nil _).symm

/-- One section is accepted, for a GET. -/
def getOnly (block : List UInt8) : Option Request :=
  if block = [0xaa] then some { method := ascii "GET", path := ascii "/", scheme := ascii "https" } else none

/-- HEADERS, and two octets of a DATA frame of five. -/
def cutBody : Source UInt8 := ⟨[[0x01, 0x01], [0xaa, 0x00, 0x05, 7], [8]], by decide⟩

theorem cut_request_handled : ∃ req,
    (∀ cut, handleRequestStream cut false getOnly cutBody = .handled req [7, 8] ∧
      handleRequestStream cut false getOnly cutHeader = .handled req []) ∧
    ∀ req body, ¬ Complete getOnly cutBody.stream req body ∧ ¬ Complete getOnly cutHeader.stream req body := by
  refine ⟨{ method := ascii "GET", path := ascii "/", scheme := ascii "https" }, fun cut => ?_, fun req body => ⟨?_, ?_⟩⟩
  · cases cut <;> decide +kernel
  · rintro ⟨m, hm, -⟩
    have hrest : (frames cutBody.stream).2 = [0x00, 0x05, 7, 8] := by decide +kernel
    rw [frames_eq hm] at hrest
    cases hrest
  · rintro ⟨m, hm, -⟩
    have hrest : (frames cutHeader.stream).2 = [0x00] := by decide +kernel
    rw [frames_eq hm] at hrest
    cases hrest

end Mach.H3.Server
