import Mach.H3.Frames
import Mach.H3.HeaderHandlers
/-!
# The stream of a response

`readResponseFrom` reads frames until the stream ends. One flag says whether the
final header section was read: sections before it are interim or final, sections
after it are trailers. All of them are decoded into the same response header.
-/

namespace Mach.H3.Client
open Lib Headkit List Message Option

structure Response where
  /-- The calls on the response header. -/
  header : List HeaderCall := []
  body : List UInt8 := []
  trailers : Option (List Field) := none
  deriving DecidableEq, Repr

inductive ResponseError where
  | read (e : ReadError)
  | headersTooLarge (payloadLen : Nat)
  | decode (e : DecodeError)
  | errFrameUnexpected
  deriving DecidableEq, Repr

abbrev Outcome := Except ResponseError Response

/-- The variables of the loop, and how many sections were decoded. -/
structure Reading where
  headersParsed : Bool := false
  sections : Nat := 0
  resp : Response := {}
  deriving DecidableEq, Repr

def maxHeaders : Nat := 16 * 1024 * 1024

/-- A response that is followed by another one. 101 does not occur. -/
def isInterim (statusCode : Int) : Bool := decide (100 ≤ statusCode ∧ statusCode < 200 ∧ statusCode ≠ 101)

section Loop

variable (cut : ReadError) (qpack : Nat → List UInt8 → Section)
  {st : Reading} {f : Frame} {out : Response} {fs lead rest : List Frame} {n : Nat}
variable {s : Source UInt8} {trailers : Option (List Field)}

  {cs leadCalls calls : List HeaderCall} {block : List UInt8} {m : Message}

/-- A section is decoded. `qpack n` is the decoder as it is for section number `n`. -/
def Reading.onHeaders (st : Reading) (headerBlock : List UInt8) : Except Outcome Reading :=
  let s := qpack st.sections headerBlock
  if st.headersParsed then
    match decodeResponseTrailers s with
    | .error e => .error (.error (.decode e))
    | .ok trailers => .ok { st with sections := st.sections + 1, resp := { st.resp with trailers := some trailers } }
  else
    match decodeResponseHeaders s with
    | .error e => .error (.error (.decode e))
    | .ok (statusCode, calls) => .ok
      { headersParsed := !isInterim statusCode
        sections := st.sections + 1
        resp := { st.resp with header := st.resp.header ++ calls } }

def iteration (st : Reading) (r : Source UInt8) : Except Outcome (Reading × Source UInt8) :=
  match readFrameHeader cut r with
  | .error .eof => .error (.ok st.resp)
  | .error .unexpectedEOF => .error (.error (.read .unexpectedEOF))
  | .ok ((frameType, payloadLen), r) =>
    if frameType = 0x01 then
      if maxHeaders < payloadLen then .error (.error (.headersTooLarge payloadLen))
      else
        let (headerBlock, r) := r.readUpTo payloadLen payloadLen
        if headerBlock.length < payloadLen then
          .error (.error (.read (if headerBlock = [] then .eof else .unexpectedEOF)))
        else (st.onHeaders qpack headerBlock).map (·, r)
    else if frameType = 0x00 then
      if st.headersParsed = false then .error (.error .errFrameUnexpected)
      else
        let (data, r) := r.readUpTo 32768 payloadLen
        if data.length < payloadLen then .error (.error (.read .unexpectedEOF))
        else .ok ({ st with resp := { st.resp with body := st.resp.body ++ data } }, r)
    else if isReservedH2FrameType frameType then .error (.error .errFrameUnexpected)
    else if isControlFrameType frameType then .error (.error .errFrameUnexpected)
    else
      let (data, r) := r.readUpTo 32768 payloadLen
      if data.length < payloadLen then .error (.error (.read .eof)) else .ok (st, r)

/-- Every round takes two octets at least. -/
def readResponseFrom (reader : Source UInt8) : Outcome :=
  Framer.process (iteration cut qpack) (.error (.read .eof)) (reader.stream.length + 1) {} reader

/-! ## Frames -/

/-- What a round does with a complete frame. -/
def onFrame (st : Reading) (f : Frame) : Except Outcome Reading :=
  if f.type = 0x01 then
    if maxHeaders < f.payload.length then .error (.error (.headersTooLarge f.payload.length))
    else st.onHeaders qpack f.payload
  else if f.type = 0x00 then
    if st.headersParsed = false then .error (.error .errFrameUnexpected)
    else .ok { st with resp := { st.resp with body := st.resp.body ++ f.payload } }
  else if isReservedH2FrameType f.type then .error (.error .errFrameUnexpected)
  else if isControlFrameType f.type then .error (.error .errFrameUnexpected)
  else .ok st

/-- What it does where the stream ends before the frame does. -/
def onRest (st : Reading) (r : List UInt8) : Outcome :=
  match takeHeader cut r with
  | .error .eof => .ok st.resp
  | .error .unexpectedEOF => .error (.read .unexpectedEOF)
  | .ok ((frameType, payloadLen), rest) =>
    .error <|
      if frameType = 0x01 then
        if maxHeaders < payloadLen then .headersTooLarge payloadLen
        else .read (if rest = [] then .eof else .unexpectedEOF)
      else if frameType = 0x00 then
        if st.headersParsed = false then .errFrameUnexpected else .read .unexpectedEOF
      else if isReservedH2FrameType frameType then .errFrameUnexpected
      else if isControlFrameType frameType then .errFrameUnexpected
      else .read .eof

variable {cut qpack}

theorem iteration_frame {k : Nat} (h : nextFrame s.stream = some (f, k)) :
    (iteration cut qpack st s).map unread = (onFrame qpack st f).map (·, s.stream.drop k) := by
  obtain ⟨s', hr, hread⟩ := readFrameHeader_of_next cut h
  obtain ⟨hcopy, hskip⟩ := hread 32768 (.inr (by decide))
  obtain ⟨hfull, hleft⟩ := hread f.payload.length (Nat.eq_zero_or_pos _)
  simp only [iteration, hr, onFrame, apply_ite (Except.map unread),
    apply_ite (Except.map fun st' => (st', s.stream.drop k)), hcopy, hfull, Nat.lt_irrefl, if_false]
  repeat' refine ite_congr rfl (fun _ => ?_) fun _ => ?_
  all_goals try simp only [Except.map, unread, hskip]
  cases st.onHeaders qpack f.payload with
  | error o => rfl
  | ok st' => simp only [hleft]

theorem iteration_rest (h : nextFrame s.stream = none) :
    iteration cut qpack st s = .error (onRest cut st s.stream) := by
  obtain ⟨e, hr, ht⟩ | ⟨t, n, s', hr, ht, hshort, -, hread⟩ := readFrameHeader_of_none cut h
  · simp only [iteration, hr, onRest, ht]
    cases e <;> rfl
  · have hcopy := (hread 32768 (.inr (by decide))).1
    have hfull := (hread n (Nat.eq_zero_or_pos n)).1
    simp [iteration, hr, onRest, ht, hcopy, hfull, hshort, apply_ite Except.error]

theorem handles : Framer.Handles (iteration cut qpack) framer (onFrame qpack) (onRest cut) where
  frame := iteration_frame
  rest h := .inl (iteration_rest h)

/-- The outcome depends on the octets of the stream only. -/
theorem readResponseFrom_eq (reader : Source UInt8) :
    readResponseFrom cut qpack reader =
      Framer.afterFrames (onFrame qpack) (onRest cut) {} (frames reader.stream).1 (frames reader.stream).2 :=
  handles.process_eq _ (frames_spec _) (Nat.lt_succ_self _)

/-! ## What is taken -/

/-- The frames a round takes, and what it makes of the state. -/
inductive Taken (qpack : Nat → List UInt8 → Section) (st : Reading) (f : Frame) : Reading → Prop
  | discarded : isDiscarded f.type = true → Taken qpack st f st
  | data : f.type = 0x00 → st.headersParsed = true →
      Taken qpack st f { st with resp := { st.resp with body := st.resp.body ++ f.payload } }
  | headers {code : Int} {calls : List HeaderCall} : f.type = 0x01 → f.payload.length ≤ maxHeaders →
      st.headersParsed = false → decodeResponseHeaders (qpack st.sections f.payload) = .ok (code, calls) →
      Taken qpack st f
        { headersParsed := !isInterim code
          sections := st.sections + 1
          resp := { st.resp with header := st.resp.header ++ calls } }
  | trailers {trailers : List Field} : f.type = 0x01 → f.payload.length ≤ maxHeaders → st.headersParsed = true →
      decodeResponseTrailers (qpack st.sections f.payload) = .ok trailers →
      Taken qpack st f { st with sections := st.sections + 1, resp := { st.resp with trailers := some trailers } }

theorem onFrame_ok_iff {st' : Reading} : onFrame qpack st f = .ok st' ↔ Taken qpack st f st' := by
  constructor
  · intro h
    simp only [onFrame, Reading.onHeaders] at h
    repeat' split at h
    all_goals cases h
    · exact .trailers ‹_› (Nat.not_lt.1 ‹_›) ‹_› ‹_›
    · exact .headers ‹_› (Nat.not_lt.1 ‹_›) (eq_false_of_ne_true ‹_›) ‹_›
    · exact .data ‹_› (eq_true_of_ne_false ‹_›)
    · exact .discarded (isDiscarded_iff.2 ⟨‹_›, ‹_›, eq_false_of_ne_true ‹_›, eq_false_of_ne_true ‹_›⟩)
  · intro h
    cases h with
    | discarded hd =>
      obtain ⟨h1, h0, hres, hctl⟩ := isDiscarded_iff.1 hd
      rw [onFrame, if_neg h1, if_neg h0, hres, hctl]
      rfl
    | data htype hparsed =>
      rw [onFrame, if_neg (by rw [htype]; decide), if_pos htype, if_neg (by simp [hparsed])]
    | headers htype hle hparsed hdec =>
      rw [onFrame, if_pos htype, if_neg (Nat.not_lt.2 hle)]
      simp [Reading.onHeaders, hparsed, hdec]
    | trailers htype hle hparsed hdec =>
      rw [onFrame, if_pos htype, if_neg (Nat.not_lt.2 hle)]
      simp [Reading.onHeaders, hparsed, hdec]

/-- HEADERS that are not too large. -/
def Small (fs : List Frame) : Prop := ∀ f ∈ fs, f.type = 0x01 → f.payload.length ≤ maxHeaders

def sectionsIn (fs : List Frame) : Nat := fs.countP fun f => f.type == 0x01

/-- The trailers of the frames behind a final section, if all of these frames are taken: the last ones. `n` sections are
before them. -/
def trailersIn (qpack : Nat → List UInt8 → Section) : Nat → Option (List Field) → List Frame → Option (Option (List Field))
  | _, trailers, [] => some trailers
  | n, trailers, f :: fs =>
    if f.type = 0x01 then
      match decodeResponseTrailers (qpack n f.payload) with
      | .error _ => none
      | .ok trailers => trailersIn qpack (n + 1) (some trailers) fs
    else if f.type = 0x00 ∨ isDiscarded f.type then trailersIn qpack n trailers fs
    else none

/-- The calls of interim sections, if the frames are such sections and otherwise `other`. -/
def interimCalls (qpack : Nat → List UInt8 → Section) (other : Nat → Bool) : Nat → List Frame → Option (List HeaderCall)
  | _, [] => some []
  | n, f :: fs =>
    if f.type = 0x01 then
      match decodeResponseHeaders (qpack n f.payload) with
      | .error _ => none
      | .ok (code, calls) => if isInterim code then (interimCalls qpack other (n + 1) fs).map (calls ++ ·) else none
    else if other f.type then interimCalls qpack other n fs
    else none

/-! ## Runs -/

/-- The frames are taken one after the other, and then the response is `out`. -/
def Yields (qpack : Nat → List UInt8 → Section) (st : Reading) (fs : List Frame) (out : Response) : Prop :=
  ∃ st', fs.foldlM (onFrame qpack) st = .ok st' ∧ st'.resp = out

theorem yields_nil : Yields qpack st [] out ↔ out = st.resp := by
  constructor
  · rintro ⟨st', hrun, rfl⟩
    rw [Except.ok.inj hrun]
  · rintro rfl
    exact ⟨st, rfl, rfl⟩

theorem yields_cons : Yields qpack st (f :: fs) out ↔ ∃ st1, Taken qpack st f st1 ∧ Yields qpack st1 fs out := by
  constructor
  · rintro ⟨st', hrun, hout⟩
    obtain ⟨st1, hstep, hrun⟩ := Framer.foldlM_cons_ok.1 hrun
    exact ⟨st1, onFrame_ok_iff.1 hstep, st', hrun, hout⟩
  · rintro ⟨st1, hstep, st', hrun, hout⟩
    exact ⟨st', Framer.foldlM_cons_ok.2 ⟨st1, onFrame_ok_iff.2 hstep, hrun⟩, hout⟩

theorem small_cons : Small (f :: fs) ↔ (f.type = 0x01 → f.payload.length ≤ maxHeaders) ∧ Small fs := forall_mem_cons

theorem trailersIn_cons_headers
    (h : f.type = 0x01) (ts : Option (List Field)) : trailersIn qpack n trailers (f :: fs) = some ts ↔
      ∃ trailers', decodeResponseTrailers (qpack n f.payload) = .ok trailers' ∧
        trailersIn qpack (n + 1) (some trailers') fs = some ts := by
  rw [trailersIn, if_pos h]
  cases decodeResponseTrailers (qpack n f.payload) with
  | error e => exact ⟨nofun, nofun⟩
  | ok trailers' => exact ⟨fun ht => ⟨trailers', rfl, ht⟩, fun ⟨_, heq, ht⟩ => Except.ok.inj heq ▸ ht⟩

theorem trailersIn_cons_other (h : f.type = 0x00 ∨ isDiscarded f.type = true) (n : Nat)
    (trailers : Option (List Field)) (fs : List Frame) :
    trailersIn qpack n trailers (f :: fs) = trailersIn qpack n trailers fs := by
  have h1 : f.type ≠ 0x01 := h.elim (fun h0 => by rw [h0]; decide) fun hd => (isDiscarded_iff.1 hd).1
  rw [trailersIn, if_neg h1, if_pos h]

theorem yields_rest_iff (hparsed : st.headersParsed = true) :
    Yields qpack st fs out ↔ ∃ ts, trailersIn qpack st.sections st.resp.trailers fs = some ts ∧ Small fs ∧
      out = { st.resp with body := st.resp.body ++ dataOf fs, trailers := ts } := by
  induction fs generalizing st with
  | nil =>
    rw [yields_nil]
    constructor
    · rintro rfl
      exact ⟨_, rfl, nofun, by simp [dataOf]⟩
    · rintro ⟨ts, hts, -, rfl⟩
      rw [← Option.some.inj hts]
      simp [dataOf]
  | cons f fs ih =>
    rw [yields_cons, small_cons]
    constructor
    · rintro ⟨st1, hstep, hrun⟩
      cases hstep with
      | discarded hd =>
        obtain ⟨ts, hts, hs, rfl⟩ := (ih hparsed).1 hrun
        obtain ⟨h1, h0, -⟩ := isDiscarded_iff.1 hd
        refine ⟨ts, by rw [trailersIn_cons_other (.inr hd), hts], ⟨fun h => absurd h h1, hs⟩, ?_⟩
        rw [dataOf_cons_other h0]
      | data h0 =>
        obtain ⟨ts, hts, hs, rfl⟩ := (ih (by exact hparsed)).1 hrun
        refine ⟨ts, by rw [trailersIn_cons_other (.inl h0)]; exact hts,
          ⟨fun h => absurd (h0.symm.trans h) (by decide), hs⟩, ?_⟩
        rw [dataOf_cons_data h0, append_assoc]
      | headers _ _ h => exact absurd (h.symm.trans hparsed) (by decide)
      | trailers h1 hle _ hdec =>
        obtain ⟨ts, hts, hs, rfl⟩ := (ih (by exact hparsed)).1 hrun
        refine ⟨ts, (trailersIn_cons_headers h1 ts).2 ⟨_, hdec, hts⟩, ⟨fun _ => hle, hs⟩, ?_⟩
        rw [dataOf_cons_other (by rw [h1]; decide)]
    · rintro ⟨ts, hts, ⟨hle, hs⟩, rfl⟩
      by_cases h1 : f.type = 0x01
      · obtain ⟨trailers', hdec, hts⟩ := (trailersIn_cons_headers h1 ts).1 hts
        refine ⟨_, .trailers h1 (hle h1) hparsed hdec, (ih (by exact hparsed)).2
          ⟨ts, hts, hs, ?_⟩⟩
        rw [dataOf_cons_other (by rw [h1]; decide)]
      · by_cases h0 : f.type = 0x00
        · rw [trailersIn_cons_other (.inl h0)] at hts
          refine ⟨_, .data h0 hparsed, (ih (by exact hparsed)).2 ⟨ts, hts, hs, ?_⟩⟩
          rw [dataOf_cons_data h0, append_assoc]
        · have hd : isDiscarded f.type = true := by
            by_contra hd
            rw [trailersIn, if_neg h1, if_neg (not_or.2 ⟨h0, hd⟩)] at hts
            cases hts
          rw [trailersIn_cons_other (.inr hd)] at hts
          refine ⟨st, .discarded hd, (ih hparsed).2 ⟨ts, hts, hs, ?_⟩⟩
          rw [dataOf_cons_other h0]

variable {other : Nat → Bool}

theorem interimCalls_cons_headers (h : f.type = 0x01) :
    interimCalls qpack other n (f :: fs) = some cs ↔ ∃ code calls cs',
      decodeResponseHeaders (qpack n f.payload) = .ok (code, calls) ∧ isInterim code = true ∧
        interimCalls qpack other (n + 1) fs = some cs' ∧ cs = calls ++ cs' := by
  rw [interimCalls, if_pos h]
  cases decodeResponseHeaders (qpack n f.payload) with
  | error e => exact ⟨nofun, nofun⟩
  | ok p =>
    obtain ⟨code, calls⟩ := p
    dsimp only
    constructor
    · intro hcs
      split at hcs
      · rename_i hint
        obtain ⟨cs', hrest, rfl⟩ := map_eq_some_iff.1 hcs
        exact ⟨code, calls, cs', rfl, hint, hrest, rfl⟩
      · cases hcs
    · rintro ⟨code', calls', cs', heq, hint, hrest, rfl⟩
      cases heq
      simp [hint, hrest]

theorem interimCalls_cons_other (h : f.type ≠ 0x01) :
    interimCalls qpack other n (f :: fs) = some cs ↔ other f.type = true ∧ interimCalls qpack other n fs = some cs := by
  rw [interimCalls, if_neg h]
  split
  · rename_i ho
    exact ⟨fun hcs => ⟨ho, hcs⟩, And.right⟩
  · rename_i ho
    exact ⟨nofun, fun hcs => absurd hcs.1 ho⟩

theorem sectionsIn_cons_headers (h : f.type = 0x01) (fs : List Frame) :
    sectionsIn (f :: fs) = sectionsIn fs + 1 := countP_cons_of_pos (by simp [h])

theorem sectionsIn_cons_other (h : f.type ≠ 0x01) (fs : List Frame) :
    sectionsIn (f :: fs) = sectionsIn fs := countP_cons_of_neg (by simp [h])

/-- The frames up to a final section, with the calls of the interim sections and of the final one. -/
structure Opens (qpack : Nat → List UInt8 → Section) (other : Nat → Bool) (n : Nat) (lead : List Frame)
    (block : List UInt8) (leadCalls calls : List HeaderCall) : Prop where
  interim : interimCalls qpack other n lead = some leadCalls
  final : ∃ code, decodeResponseHeaders (qpack (n + sectionsIn lead) block) = .ok (code, calls) ∧ isInterim code = false

theorem opens_nil :
    Opens qpack other n [] block leadCalls calls ↔ leadCalls = [] ∧
      ∃ code, decodeResponseHeaders (qpack n block) = .ok (code, calls) ∧ isInterim code = false :=
  ⟨fun h => ⟨(Option.some.inj h.interim).symm, h.final⟩, fun h => ⟨congrArg some h.1.symm, h.2⟩⟩

theorem opens_cons_headers (h : f.type = 0x01) :
    Opens qpack other n (f :: lead) block leadCalls calls ↔ ∃ code first leadCalls',
      decodeResponseHeaders (qpack n f.payload) = .ok (code, first) ∧ isInterim code = true ∧
        Opens qpack other (n + 1) lead block leadCalls' calls ∧ leadCalls = first ++ leadCalls' := by
  have hindex : n + sectionsIn (f :: lead) = n + 1 + sectionsIn lead := by
    rw [sectionsIn_cons_headers h]
    omega
  constructor
  · rintro ⟨hlead, hfinal⟩
    obtain ⟨code, first, leadCalls', hdec, hint, hrest, rfl⟩ := (interimCalls_cons_headers h).1 hlead
    exact ⟨code, first, leadCalls', hdec, hint, ⟨hrest, hindex ▸ hfinal⟩, rfl⟩
  · rintro ⟨code, first, leadCalls', hdec, hint, ⟨hrest, hfinal⟩, rfl⟩
    exact ⟨(interimCalls_cons_headers h).2 ⟨code, first, leadCalls', hdec, hint, hrest, rfl⟩, hindex ▸ hfinal⟩

theorem opens_cons_other (h : f.type ≠ 0x01) :
    Opens qpack other n (f :: lead) block leadCalls calls ↔
      other f.type = true ∧ Opens qpack other n lead block leadCalls calls := by
  have hindex := sectionsIn_cons_other h lead
  constructor
  · rintro ⟨hlead, hfinal⟩
    obtain ⟨ho, hrest⟩ := (interimCalls_cons_other h).1 hlead
    exact ⟨ho, hrest, hindex ▸ hfinal⟩
  · rintro ⟨ho, hrest, hfinal⟩
    exact ⟨(interimCalls_cons_other h).2 ⟨ho, hrest⟩, hindex ▸ hfinal⟩

/-- The frames of a stream as they are taken: no final section, or one with frames behind it. -/
inductive Accepted (qpack : Nat → List UInt8 → Section) (st : Reading) (fs : List Frame) : Response → Prop
  | unanswered {calls : List HeaderCall} : interimCalls qpack isDiscarded st.sections fs = some calls →
      Accepted qpack st fs { st.resp with header := st.resp.header ++ calls }
  | answered {lead rest : List Frame} {block : List UInt8} {leadCalls calls : List HeaderCall}
      {trailers : Option (List Field)} : fs = lead ++ ⟨0x01, block⟩ :: rest →
      Opens qpack isDiscarded st.sections lead block leadCalls calls →
      trailersIn qpack (st.sections + sectionsIn lead + 1) st.resp.trailers rest = some trailers →
      Accepted qpack st fs
        { header := st.resp.header ++ leadCalls ++ calls, body := st.resp.body ++ Message.dataOf rest, trailers }

theorem yields_iff (hparsed : st.headersParsed = false) :
    Yields qpack st fs out ↔ Small fs ∧ Accepted qpack st fs out := by
  induction fs generalizing st with
  | nil =>
    rw [yields_nil]
    constructor
    · rintro rfl
      refine ⟨nofun, ?_⟩
      have h : Accepted qpack st [] { st.resp with header := st.resp.header ++ [] } := .unanswered rfl
      rwa [append_nil] at h
    · rintro ⟨-, h⟩
      cases h with
      | unanswered hcs => rw [← Option.some.inj hcs, append_nil]
      | answered heq => simp at heq
  | cons f fs ih =>
    rw [yields_cons, small_cons]
    constructor
    · rintro ⟨st1, hstep, hrun⟩
      cases hstep with
      | discarded hd =>
        obtain ⟨hs, h⟩ := (ih hparsed).1 hrun
        have h1 := (isDiscarded_iff.1 hd).1
        refine ⟨⟨fun h => absurd h h1, hs⟩, ?_⟩
        cases h with
        | unanswered hcs => exact .unanswered ((interimCalls_cons_other h1).2 ⟨hd, hcs⟩)
        | @answered lead _ _ _ _ _ heq hopen hts =>
          rw [heq]
          refine .answered cons_append.symm ((opens_cons_other h1).2 ⟨hd, hopen⟩) ?_
          rw [sectionsIn_cons_other h1, hts]
      | data _ h => exact absurd (hparsed.symm.trans h) (by decide)
      | @headers code calls h1 hle _ hdec =>
        cases hint : isInterim code with
        | true =>
          obtain ⟨hs, h⟩ := (ih (by simp only [hint, Bool.not_true])).1 hrun
          refine ⟨⟨fun _ => hle, hs⟩, ?_⟩
          cases h with
          | unanswered hcs =>
            rw [append_assoc]
            exact .unanswered ((interimCalls_cons_headers h1).2 ⟨code, calls, _, hdec, hint, hcs, rfl⟩)
          | @answered lead _ _ leadCalls _ _ heq hopen hts =>
            rw [heq, append_assoc st.resp.header]
            refine .answered cons_append.symm
              ((opens_cons_headers h1).2 ⟨code, calls, leadCalls, hdec, hint, hopen, rfl⟩) ?_
            rw [sectionsIn_cons_headers h1, ← hts]
            congr 1
            simp only
            omega
        | false =>
          obtain ⟨ts, hts, hs, rfl⟩ := (yields_rest_iff (by simp only [hint, Bool.not_false])).1 hrun
          refine ⟨⟨fun _ => hle, hs⟩, ?_⟩
          obtain ⟨t, payload⟩ := f
          obtain rfl : t = 0x01 := h1
          have h : Accepted qpack st (⟨0x01, payload⟩ :: fs) _ :=
            .answered (nil_append _).symm (opens_nil.2 ⟨rfl, code, hdec, hint⟩) hts
          rwa [append_nil] at h
      | trailers _ _ h => exact absurd (hparsed.symm.trans h) (by decide)
    · rintro ⟨⟨hle, hs⟩, h⟩
      cases h with
      | unanswered hcs =>
        by_cases h1 : f.type = 0x01
        · obtain ⟨code, calls, cs', hdec, hint, hrest, rfl⟩ := (interimCalls_cons_headers h1).1 hcs
          refine ⟨_, .headers h1 (hle h1) hparsed hdec, (ih (by simp only [hint, Bool.not_true])).2 ⟨hs, ?_⟩⟩
          rw [← append_assoc]
          exact .unanswered hrest
        · obtain ⟨hd, hcs⟩ := (interimCalls_cons_other h1).1 hcs
          exact ⟨st, .discarded hd, (ih hparsed).2 ⟨hs, .unanswered hcs⟩⟩
      | @answered lead _ _ _ _ _ heq hopen hts =>
        cases lead with
        | nil =>
          obtain ⟨rfl, rfl⟩ := List.cons.inj heq
          obtain ⟨rfl, code, hdec, hint⟩ := opens_nil.1 hopen
          refine ⟨_, .headers rfl (hle rfl) hparsed hdec,
            (yields_rest_iff (by simp only [hint, Bool.not_false])).2 ⟨_, hts, hs, ?_⟩⟩
          rw [append_nil]
        | cons g lead =>
          obtain ⟨rfl, rfl⟩ := List.cons.inj heq
          by_cases h1 : f.type = 0x01
          · obtain ⟨code, calls, leadCalls, hdec, hint, hlead, rfl⟩ := (opens_cons_headers h1).1 hopen
            refine ⟨_, .headers h1 (hle h1) hparsed hdec, (ih (by simp only [hint, Bool.not_true])).2 ⟨hs, ?_⟩⟩
            rw [← append_assoc st.resp.header]
            refine .answered rfl hlead ?_
            rw [sectionsIn_cons_headers h1] at hts
            rw [← hts]
            congr 1
            simp only
            omega
          · obtain ⟨hd, hlead⟩ := (opens_cons_other h1).1 hopen
            rw [sectionsIn_cons_other h1] at hts
            exact ⟨st, .discarded hd, (ih hparsed).2 ⟨hs, .answered rfl hlead hts⟩⟩

/-! ## Outcomes -/

theorem onRest_ok_iff {r : List UInt8} :
    onRest cut st r = .ok out ↔ takeHeader cut r = .error .eof ∧ out = st.resp := by
  unfold onRest
  cases takeHeader cut r with
  | error e =>
    cases e with
    | eof => exact ⟨fun h => ⟨rfl, (Except.ok.inj h).symm⟩, fun h => congrArg Except.ok h.2.symm⟩
    | unexpectedEOF => exact ⟨nofun, nofun⟩
  | ok p => exact ⟨nofun, nofun⟩

theorem onFrame_ne_ok : onFrame qpack st f ≠ .error (.ok out) := by
  simp only [onFrame, Reading.onHeaders]
  repeat' split
  all_goals nofun

/-- The streams that are read without an error. -/
theorem readResponseFrom_ok_iff {reader : Source UInt8} :
    readResponseFrom cut qpack reader = .ok out ↔ Small (frames reader.stream).1 ∧
      Accepted qpack {} (frames reader.stream).1 out ∧ takeHeader cut (frames reader.stream).2 = .error .eof := by
  rw [readResponseFrom_eq, Framer.afterFrames, ← and_assoc, ← yields_iff rfl]
  generalize frames reader.stream = p
  obtain ⟨fs, r⟩ := p
  dsimp only
  constructor
  · intro h
    split at h
    · rename_i o herr
      obtain ⟨st, f, hstep⟩ := Framer.exists_of_foldlM_error herr
      exact absurd (h ▸ hstep) onFrame_ne_ok
    · rename_i st hrun
      obtain ⟨hend, rfl⟩ := onRest_ok_iff.1 h
      exact ⟨⟨st, hrun, rfl⟩, hend⟩
  · rintro ⟨⟨st, hrun, rfl⟩, hend⟩
    rw [hrun]
    exact onRest_ok_iff.2 ⟨hend, rfl⟩

/-- The final section is the first one that is not interim. -/
theorem Opens.unique {lead' rest' : List Frame} {block' : List UInt8}
    {leadCalls' calls' : List HeaderCall} (h : Opens qpack other n lead block leadCalls calls)
    (h' : Opens qpack other n lead' block' leadCalls' calls')
    (heq : lead ++ ⟨0x01, block⟩ :: rest = lead' ++ ⟨0x01, block'⟩ :: rest') :
    lead = lead' ∧ block = block' ∧ rest = rest' ∧ leadCalls = leadCalls' ∧ calls = calls' := by
  induction lead generalizing n lead' leadCalls leadCalls' with
  | nil =>
    obtain ⟨rfl, code, hdec, hint⟩ := opens_nil.1 h
    cases lead' with
    | nil =>
      obtain ⟨rfl, code', hdec', -⟩ := opens_nil.1 h'
      obtain ⟨hhead, hrest⟩ := List.cons.inj heq
      obtain ⟨-, hblock⟩ := Frame.mk.inj hhead
      rw [hblock, hdec'] at hdec
      exact ⟨rfl, hblock, hrest, rfl, (Prod.mk.inj (Except.ok.inj hdec)).2.symm⟩
    | cons g lead' =>
      obtain ⟨rfl, -⟩ := List.cons.inj heq
      obtain ⟨code', first, -, hdec', hint', -⟩ := (opens_cons_headers rfl).1 h'
      rw [hdec'] at hdec
      rw [(Prod.mk.inj (Except.ok.inj hdec)).1, hint] at hint'
      cases hint'
  | cons f lead ih =>
    cases lead' with
    | nil =>
      obtain ⟨rfl, -⟩ := List.cons.inj heq
      obtain ⟨rfl, code, hdec, hint⟩ := opens_nil.1 h'
      obtain ⟨code', first, -, hdec', hint', -⟩ := (opens_cons_headers rfl).1 h
      rw [hdec'] at hdec
      rw [(Prod.mk.inj (Except.ok.inj hdec)).1, hint] at hint'
      cases hint'
    | cons g lead' =>
      obtain ⟨rfl, htail⟩ := List.cons.inj heq
      by_cases h1 : f.type = 0x01
      · obtain ⟨code, first, lc, hdec, -, hopen, rfl⟩ := (opens_cons_headers h1).1 h
        obtain ⟨code', first', lc', hdec', -, hopen', rfl⟩ := (opens_cons_headers h1).1 h'
        rw [hdec] at hdec'
        obtain ⟨rfl, hblock, hrest, rfl, hcalls⟩ := ih hopen hopen' htail
        rw [(Prod.mk.inj (Except.ok.inj hdec')).2]
        exact ⟨rfl, hblock, hrest, rfl, hcalls⟩
      · obtain ⟨rfl, hblock, hrest, hlead, hcalls⟩ :=
          ih ((opens_cons_other h1).1 h).2 ((opens_cons_other h1).1 h').2 htail
        exact ⟨rfl, hblock, hrest, hlead, hcalls⟩

theorem interimCalls_unknown_iff :
    interimCalls qpack isUnknown n fs = some cs ↔
      interimCalls qpack isDiscarded n fs = some cs ∧ ∀ f ∈ fs, f.type ≠ 0x05 := by
  induction fs generalizing n cs with
  | nil => simp [interimCalls]
  | cons f fs ih =>
    rw [forall_mem_cons]
    by_cases h1 : f.type = 0x01
    · rw [interimCalls_cons_headers h1, interimCalls_cons_headers h1]
      have h5 : f.type ≠ 0x05 := by
        rw [h1]
        decide
      constructor
      · rintro ⟨code, calls, cs', hdec, hint, hrest, rfl⟩
        obtain ⟨hrest, hne⟩ := ih.1 hrest
        exact ⟨⟨code, calls, cs', hdec, hint, hrest, rfl⟩, h5, hne⟩
      · rintro ⟨⟨code, calls, cs', hdec, hint, hrest, rfl⟩, -, hne⟩
        exact ⟨code, calls, cs', hdec, hint, ih.2 ⟨hrest, hne⟩, rfl⟩
    · rw [interimCalls_cons_other h1, interimCalls_cons_other h1, ih, isUnknown_iff]
      tauto

theorem opens_unknown_iff :
    Opens qpack isUnknown n lead block leadCalls calls ↔
      Opens qpack isDiscarded n lead block leadCalls calls ∧ ∀ f ∈ lead, f.type ≠ 0x05 := by
  constructor
  · rintro ⟨hint, hfinal⟩
    obtain ⟨hint, hne⟩ := interimCalls_unknown_iff.1 hint
    exact ⟨⟨hint, hfinal⟩, hne⟩
  · rintro ⟨⟨hint, hfinal⟩, hne⟩
    exact ⟨interimCalls_unknown_iff.2 ⟨hint, hne⟩, hfinal⟩

/-! ## Content and trailers -/

theorem trailersIn_content {content : List Frame} (h : ∀ f ∈ content, f.type = 0x00 ∨ isDiscarded f.type = true) (n : Nat)
    (trailers : Option (List Field)) (fs : List Frame) :
    trailersIn qpack n trailers (content ++ fs) = trailersIn qpack n trailers fs := by
  induction content with
  | nil => rfl
  | cons f content ih =>
    obtain ⟨hf, hc⟩ := forall_mem_cons.1 h
    rw [cons_append, trailersIn_cons_other hf, ih hc]

theorem trailersIn_tail {tail : List Frame} (h : ∀ f ∈ tail, isDiscarded f.type = true) (n : Nat)
    (trailers : Option (List Field)) : trailersIn qpack n trailers tail = some trailers := by
  have heq : trailersIn qpack n trailers (tail ++ []) = some trailers := trailersIn_content (fun f hf => .inr (h f hf)) _ _ _
  rwa [append_nil] at heq

theorem trailersIn_message_iff (h : m.Over isDiscarded) {ts : Option (List Field)} :
    trailersIn qpack n none (m.content ++ Message.ending m.trailer) = some ts ↔
      m.trailer = none ∧ ts = none ∨ ∃ block tail trailers, m.trailer = some (block, tail) ∧
        decodeResponseTrailers (qpack n block) = .ok trailers ∧ ts = some trailers := by
  rw [trailersIn_content h.content]
  cases hm : m.trailer with
  | none => exact ⟨fun hts => .inl ⟨rfl, (Option.some.inj hts).symm⟩, by rintro (⟨-, rfl⟩ | ⟨_, _, _, ⟨⟩, -⟩); rfl⟩
  | some p =>
    obtain ⟨block, tail⟩ := p
    have htail := h.tail block tail hm
    rw [ending, trailersIn_cons_headers rfl]
    constructor
    · rintro ⟨trailers, hdec, hts⟩
      rw [trailersIn_tail htail] at hts
      exact .inr ⟨block, tail, trailers, rfl, hdec, (Option.some.inj hts).symm⟩
    · rintro (⟨⟨⟩, -⟩ | ⟨_, _, trailers, ⟨⟩, hdec, rfl⟩)
      exact ⟨trailers, hdec, trailersIn_tail htail _ _⟩

/-- Frames that are taken are content up to the first HEADERS frame. -/
theorem content_of_trailersIn (h : (trailersIn qpack n trailers rest).isSome = true) :
    ∀ f ∈ rest.takeWhile (fun f => f.type != 0x01), f.type = 0x00 ∨ isDiscarded f.type = true := by
  induction rest with
  | nil => nofun
  | cons f rest ih =>
    by_cases h1 : f.type = 0x01
    · rw [takeWhile_cons_of_neg (by simp [h1])]
      nofun
    · rw [takeWhile_cons_of_pos (by simp [h1]), forall_mem_cons]
      rw [trailersIn, if_neg h1] at h
      split at h
      · rename_i hf
        exact ⟨hf, ih h⟩
      · cases h

theorem exists_ending (rest : List Frame) :
    ∃ trailer, rest.dropWhile (fun f => f.type != 0x01) = Message.ending trailer ∧
      ∀ block tail, trailer = some (block, tail) → tail = (rest.dropWhile fun f => f.type != 0x01).tail := by
  cases hdrop : rest.dropWhile (fun f => f.type != 0x01) with
  | nil => exact ⟨none, rfl, nofun⟩
  | cons f tail =>
    have hhead := head_dropWhile_not (fun f : Frame => f.type != 0x01) (show rest.dropWhile _ ≠ [] by simp [hdrop])
    obtain ⟨t, payload⟩ := f
    simp only [hdrop, head_cons, bne_eq_false_iff_eq] at hhead
    obtain rfl : t = 0x01 := hhead
    refine ⟨some (payload, tail), rfl, ?_⟩
    rintro _ _ ⟨⟩
    rfl

theorem dropWhile_message (h : m.Over isDiscarded) :
    (m.content ++ Message.ending m.trailer).dropWhile (fun f => f.type != 0x01) = Message.ending m.trailer := by
  rw [dropWhile_append_of_pos]
  · cases m.trailer with
    | none => rfl
    | some p => rfl
  · intro f hf
    obtain h0 | hd := h.content f hf
    · simp [h0]
    · simp [(isDiscarded_iff.1 hd).1]

theorem dataOf_message (h : m.Over isDiscarded) :
    Message.dataOf (m.content ++ Message.ending m.trailer) = m.body := by
  have hend : dataOf (ending m.trailer) = [] := by
    refine flatMap_eq_nil_iff.2 fun f hf => if_neg ?_
    obtain ⟨block, tail, ht, rfl | hf⟩ := mem_ending.1 hf
    · exact (by decide : (0x01 : Nat) ≠ 0x00)
    · exact (isDiscarded_iff.1 (h.tail block tail ht f hf)).2.1
  rw [body, dataOf, flatMap_append]
  exact (congrArg _ hend).trans (append_nil _)

theorem Opens.not_interim (h : Opens qpack other n lead block leadCalls calls) :
    interimCalls qpack other n (lead ++ ⟨0x01, block⟩ :: rest) ≠ some cs := by
  induction lead generalizing n leadCalls cs with
  | nil =>
    intro hcs
    obtain ⟨-, code, hdec, hint⟩ := opens_nil.1 h
    obtain ⟨code', _, _, hdec', hint', -⟩ := (interimCalls_cons_headers rfl).1 hcs
    rw [hdec'] at hdec
    rw [(Prod.mk.inj (Except.ok.inj hdec)).1, hint] at hint'
    cases hint'
  | cons f lead ih =>
    intro hcs
    by_cases h1 : f.type = 0x01
    · obtain ⟨_, _, _, -, -, hopen, -⟩ := (opens_cons_headers h1).1 h
      obtain ⟨_, _, _, -, -, hrest, -⟩ := (interimCalls_cons_headers h1).1 hcs
      exact ih hopen hrest
    · exact ih ((opens_cons_other h1).1 h).2 ((interimCalls_cons_other h1).1 hcs).2

end Loop

/-! ## Complete responses -/

/-- A message that is a response: interim sections and `other` frames before the final section, and at most one trailer
section behind the content. The response has what the final section has, the content and the trailers. -/
structure IsResponse (qpack : Nat → List UInt8 → Section) (other : Nat → Bool) (m : Message) (out : Response) : Prop
    extends m.Over other where
  opens : ∃ leadCalls, Opens qpack other 0 m.lead m.block leadCalls out.header
  status : ∃ code, decodeResponseHeaders (qpack (sectionsIn m.lead) m.block) = .ok (code, out.header) ∧
    statusOf out.header = some code
  body : out.body = m.body
  trailers : m.trailer = none ∧ out.trailers = none ∨ ∃ block tail trailers, m.trailer = some (block, tail) ∧
    decodeResponseTrailers (qpack (sectionsIn m.lead + 1) block) = .ok trailers ∧ out.trailers = some trailers

def Complete (qpack : Nat → List UInt8 → Section) (stream : List UInt8) (out : Response) : Prop :=
  ∃ m : Message, framer.Frames stream m.frames [] ∧ IsResponse qpack isUnknown m out

/-- The frames are a final section with frames before and behind it, all of which are taken. -/
structure Answered (qpack : Nat → List UInt8 → Section) (fs lead rest : List Frame) (block : List UInt8)
    (leadCalls : List HeaderCall) : Prop where
  frames : fs = lead ++ ⟨0x01, block⟩ :: rest
  small : Small fs
  opens : ∃ calls, Opens qpack isDiscarded 0 lead block leadCalls calls
  trailers : (trailersIn qpack (sectionsIn lead + 1) none rest).isSome = true

/-- Behind the first HEADERS frame there are only frames that are discarded. -/
def EndsWithTrailer (rest : List Frame) : Prop :=
  ∀ f ∈ (rest.dropWhile fun f => f.type != 0x01).tail, isDiscarded f.type = true

/-- Where the complete frames of a stream are taken, the stream ends with them or within a payload; there is a final
section, with no fields in the interim ones; nothing is behind the trailers, and no frame is PUSH_PROMISE. The HEADERS of
a complete response are not too large. -/
structure Regular (cut : ReadError) (qpack : Nat → List UInt8 → Section) (stream : List UInt8) : Prop where
  ends : ∀ out, Small (frames stream).1 → Accepted qpack {} (frames stream).1 out →
    takeHeader cut (frames stream).2 = .error .eof → (frames stream).2 = []
  answered : (frames stream).2 = [] → Small (frames stream).1 → interimCalls qpack isDiscarded 0 (frames stream).1 = none
  ordered : ∀ lead rest block leadCalls, (frames stream).2 = [] → Answered qpack (frames stream).1 lead rest block leadCalls →
    leadCalls = [] ∧ EndsWithTrailer rest ∧ ∀ f ∈ (frames stream).1, f.type ≠ 0x05
  fits : ∀ m out, framer.Frames stream m.frames [] → IsResponse qpack isUnknown m out → Small m.frames

variable {cut : ReadError} {qpack : Nat → List UInt8 → Section}

theorem isResponse_unknown_iff {m : Message} {out : Response} : IsResponse qpack isUnknown m out ↔
    IsResponse qpack isDiscarded m out ∧ ∀ f ∈ m.frames, f.type ≠ 0x05 := by
  constructor
  · intro h
    obtain ⟨hover, hne⟩ := over_unknown_iff.1 h.toOver
    obtain ⟨leadCalls, hopen⟩ := h.opens
    obtain ⟨hopen, hlead⟩ := opens_unknown_iff.1 hopen
    refine ⟨⟨hover, ⟨leadCalls, hopen⟩, h.status, h.body, h.trailers⟩, fun f hf => ?_⟩
    obtain hf | rfl | hf := mem_frames.1 hf
    · exact hlead f hf
    · exact (by decide : (0x01 : Nat) ≠ 0x05)
    · exact hne f hf
  · rintro ⟨h, hne⟩
    obtain ⟨leadCalls, hopen⟩ := h.opens
    refine ⟨over_unknown_iff.2 ⟨h.toOver, fun f hf => hne f ?_⟩, ⟨leadCalls, opens_unknown_iff.2 ⟨hopen, ?_⟩⟩,
      h.status, h.body, h.trailers⟩
    · exact mem_frames.2 (.inr (.inr hf))
    · exact fun f hf => hne f (mem_frames.2 (.inl hf))

theorem Opens.status {lead : List Frame} {block : List UInt8} {leadCalls calls : List HeaderCall} {other : Nat → Bool}
    (h : Opens qpack other 0 lead block leadCalls calls) :
    ∃ code, decodeResponseHeaders (qpack (sectionsIn lead) block) = .ok (code, calls) ∧ statusOf calls = some code := by
  obtain ⟨code, hdec, hint⟩ := h.final
  rw [Nat.zero_add] at hdec
  obtain ⟨h101, hset⟩ := statusOf_decodeResponseHeaders hdec
  refine ⟨code, hdec, hset ?_⟩
  rw [isInterim, decide_eq_false_iff_not] at hint
  omega

theorem Answered.message {fs lead rest : List Frame} {block : List UInt8} {leadCalls : List HeaderCall}
    (h : Answered qpack fs lead rest block leadCalls) (hend : EndsWithTrailer rest) :
    ∃ m : Message, fs = m.frames ∧ m.lead = lead ∧ m.block = block ∧ rest = m.content ++ Message.ending m.trailer ∧
      m.Over isDiscarded := by
  obtain ⟨trailer, hdrop, htail⟩ := exists_ending rest
  have hrest : rest = rest.takeWhile (fun f => f.type != 0x01) ++ ending trailer := by
    rw [← hdrop, takeWhile_append_dropWhile]
  refine ⟨⟨lead, block, rest.takeWhile fun f => f.type != 0x01, trailer⟩, ?_, rfl, rfl, hrest,
    content_of_trailersIn h.trailers, fun block' tail ht => ?_⟩
  · rw [h.frames, Message.frames, ← hrest]
  · rw [htail block' tail ht]
    exact hend

/-- A response is returned for the complete ones, exactly on regular streams. -/
theorem response_complete_iff (cut : ReadError) (qpack : Nat → List UInt8 → Section) (reader : Source UInt8) :
    (∀ out, readResponseFrom cut qpack reader = .ok out ↔ Complete qpack reader.stream out) ↔
      Regular cut qpack reader.stream := by
  have hspec := frames_spec reader.stream
  constructor
  · intro h
    refine ⟨fun out hs hacc heof => ?_, fun hnil hs => ?_, fun lead rest block leadCalls hnil hans => ?_,
      fun m out hm hresp => ?_⟩
    · obtain ⟨m, hm, -⟩ := (h out).1 (readResponseFrom_ok_iff.2 ⟨hs, hacc, heof⟩)
      exact (hspec.unique hm).2
    · cases hint : interimCalls qpack isDiscarded 0 (frames reader.stream).1 with
      | none => rfl
      | some calls =>
        have heof : takeHeader cut (frames reader.stream).2 = .error .eof := by rw [hnil]; rfl
        obtain ⟨m, hm, hresp⟩ := (h _).1 (readResponseFrom_ok_iff.2 ⟨hs, .unanswered hint, heof⟩)
        obtain ⟨leadCalls, hopen⟩ := (isResponse_unknown_iff.1 hresp).1.opens
        rw [(hspec.unique hm).1] at hint
        exact absurd hint hopen.not_interim
    · have heof : takeHeader cut (frames reader.stream).2 = .error .eof := by rw [hnil]; rfl
      obtain ⟨calls, hopen⟩ := hans.opens
      obtain ⟨ts, hts⟩ := isSome_iff_exists.1 hans.trailers
      have hts' : trailersIn qpack (0 + sectionsIn lead + 1) none rest = some ts := by rw [Nat.zero_add, hts]
      obtain ⟨m, hm, hresp⟩ :=
        (h _).1 (readResponseFrom_ok_iff.2 ⟨hans.small, .answered hans.frames hopen hts', heof⟩)
      obtain ⟨hresp, hne⟩ := isResponse_unknown_iff.1 hresp
      obtain ⟨leadCalls', hopen'⟩ := hresp.opens
      have hframes := (hspec.unique hm).1
      obtain ⟨-, -, hrest, -, hcalls⟩ := hopen.unique hopen' (hans.frames.symm.trans hframes)
      refine ⟨self_eq_append_left.1 hcalls, ?_, by rw [hframes]; exact hne⟩
      intro f hf
      rw [hrest, dropWhile_message hresp.toOver] at hf
      cases ht : m.trailer with
      | none =>
        rw [ht] at hf
        cases hf
      | some p =>
        rw [ht] at hf
        exact hresp.tail p.1 p.2 ht f hf
    · obtain ⟨hs, -⟩ := readResponseFrom_ok_iff.1 ((h out).2 ⟨m, hm, hresp⟩)
      rwa [frames_eq hm] at hs
  · intro h out
    constructor
    · intro hok
      obtain ⟨hs, hacc, heof⟩ := readResponseFrom_ok_iff.1 hok
      have hnil := h.ends out hs hacc heof
      cases hacc with
      | unanswered hint =>
        have hnone := h.answered hnil hs
        rw [show interimCalls qpack isDiscarded 0 _ = _ from hint] at hnone
        cases hnone
      | @answered lead rest block leadCalls calls ts heq hopen hts =>
        have hts : trailersIn qpack (0 + sectionsIn lead + 1) none rest = some ts := hts
        rw [Nat.zero_add] at hts
        have hans : Answered qpack (frames reader.stream).1 lead rest block leadCalls :=
          ⟨heq, hs, ⟨calls, hopen⟩, by rw [hts]; rfl⟩
        obtain ⟨rfl, hend, hne⟩ := h.ordered lead rest block leadCalls hnil hans
        obtain ⟨m, hm, rfl, rfl, hrest, hover⟩ := hans.message hend
        rw [hm] at hne
        rw [hm, hnil] at hspec
        rw [hrest] at hts
        refine ⟨m, hspec, isResponse_unknown_iff.2 ⟨⟨hover, ⟨[], hopen⟩, Opens.status hopen, ?_, ?_⟩, hne⟩⟩
        · exact (congrArg _ hrest).trans (dataOf_message hover)
        · exact (trailersIn_message_iff hover).1 hts
    · rintro ⟨m, hm, hresp⟩
      have hs := h.fits m out hm hresp
      obtain ⟨hresp, -⟩ := isResponse_unknown_iff.1 hresp
      obtain ⟨leadCalls, hopen⟩ := hresp.opens
      have hframes := frames_eq hm
      have hts := (trailersIn_message_iff hresp.toOver).2 hresp.trailers
      have hans : Answered qpack (frames reader.stream).1 m.lead (m.content ++ ending m.trailer) m.block leadCalls :=
        ⟨by rw [hframes]; rfl, by rw [hframes]; exact hs, ⟨_, hopen⟩, by rw [hts]; rfl⟩
      obtain ⟨rfl, -⟩ := h.ordered _ _ _ _ (by rw [hframes]) hans
      rw [← Nat.zero_add (sectionsIn m.lead)] at hts
      have hacc : Accepted qpack {} (frames reader.stream).1 _ := .answered hans.frames hopen hts
      refine readResponseFrom_ok_iff.2 ⟨hans.small, ?_, by rw [hframes]; rfl⟩
      rw [dataOf_message hresp.toOver, ← hresp.body] at hacc
      exact hacc

/-- One section, of a response with status 200. -/
def okSection (_ : Nat) (_ : List UInt8) : Section := { fields := [(ascii ":status", ascii "200")] }

/-- A stream without an octet. -/
def noHeaders : Source UInt8 := ⟨[], by decide⟩

theorem incomplete_response_returned : (∀ cut, readResponseFrom cut okSection noHeaders = .ok {} ∧
      readResponseFrom cut okSection cutHeader = .ok { header := [.setStatusCode 200] }) ∧
    ∀ out, ¬ Complete okSection noHeaders.stream out ∧ ¬ Complete okSection cutHeader.stream out := by
  refine ⟨fun cut => ?_, fun out => ⟨?_, ?_⟩⟩
  · cases cut <;> decide +kernel
  · rintro ⟨m, hm, -⟩
    have hnone : (frames noHeaders.stream).1 = [] := by decide +kernel
    rw [frames_eq hm, Message.frames] at hnone
    exact absurd hnone (by simp)
  · rintro ⟨m, hm, -⟩
    have hrest : (frames cutHeader.stream).2 = [0x00] := by decide +kernel
    rw [frames_eq hm] at hrest
    cases hrest

end Mach.H3.Client
