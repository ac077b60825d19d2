import Mach.Ws.Header
/-!
# The streaming frame parser

`Parser.Decode` takes a stream of frames in pieces and appends a chunk for each
part of a frame it sees. The header of a frame is handed out as a pointer into a
ring of 64 headers, so that what a chunk shows depends on when it is read.
`frames` says which frames a stream holds; `assemble` puts chunks together again.
-/

namespace Mach.Ws

open Lib List Function

/-! ## The model -/

/-- A chunk; its header is a slot of the ring. -/
structure FrameChunk where
  header : Option Nat
  payload : List UInt8
  finalChunk : Bool
  deriving DecidableEq, Repr

/-- The octets in use of the header buffer are `headerBuf`. -/
structure Parser where
  headerBuf : List UInt8 := []
  currentHeader : Header := {}
  hasHeader : Bool := false
  remainingLen : Nat := 0
  err : Option HeaderError := none
  hdrRing : Nat → Header := fun _ => {}
  hdrRingIdx : Nat := 0

namespace Parser

def ringSize : Nat := 64

def start (p : Parser) (h : Header) : Parser :=
  { p with currentHeader := h, hasHeader := true, remainingLen := h.payloadLen }

/-- The chunk at the front of `data`, and the data behind it. -/
def chunk (p : Parser) (firstChunk : Bool) (data : List UInt8) : Parser × FrameChunk × List UInt8 :=
  let take := min data.length p.remainingLen
  let remainingLen := p.remainingLen - take
  let finalChunk := remainingLen == 0
  let p := { p with remainingLen, hasHeader := p.hasHeader && !finalChunk }
  let slot := p.hdrRingIdx % ringSize
  (if firstChunk then
      { p with hdrRing := Function.update p.hdrRing slot p.currentHeader, hdrRingIdx := p.hdrRingIdx + 1 }
    else p,
    { header := if firstChunk then some slot else none, payload := data.take take, finalChunk }, data.drop take)

/-- The loop of `Decode`: the chunks it appends and the error it returns. -/
def decodeLoop : Nat → Parser → Bool → List UInt8 → Parser × List FrameChunk × Option HeaderError
  | 0, p, _, _ => (p, [], none)
  | fuel + 1, p, firstChunk, data =>
    if data = [] ∧ firstChunk = false then (p, [], none)
    else if p.hasHeader then
      let r := p.chunk firstChunk data
      let q := decodeLoop fuel r.1 false r.2.2
      (q.1, r.2.1 :: q.2.1, q.2.2)
    else
      match parseHeader data with
      | .error .errIncomplete => ({ p with headerBuf := data }, [], none)
      | .error e => ({ p with err := some e }, [], some e)
      | .ok (h, hlen) =>
        let r := (p.start h).chunk true (data.drop hlen)
        let q := decodeLoop fuel r.1 false r.2.2
        (q.1, r.2.1 :: q.2.1, q.2.2)

def decode (p : Parser) (data : List UInt8) : Parser × List FrameChunk × Option HeaderError :=
  match p.err with
  | some e => (p, [], some e)
  | none =>
    if data = [] ∧ p.hasHeader = false ∧ p.headerBuf = [] then (p, [], none)
    else if p.headerBuf = [] then decodeLoop (data.length + 1) p false data
    else
      let needed := min (maxHeaderSize - p.headerBuf.length) data.length
      let buffered := p.headerBuf ++ data.take needed
      match parseHeader buffered with
      | .error .errIncomplete => ({ p with headerBuf := buffered }, [], none)
      | .error e => ({ p with err := some e }, [], some e)
      | .ok (h, hlen) =>
        let consumedFromData := hlen - p.headerBuf.length
        decodeLoop (data.length + 1) { p.start h with headerBuf := [] } true (data.drop consumedFromData)

end Parser

/-! ## Frames of a stream -/

structure Frame where
  header : Header
  payload : List UInt8
  deriving DecidableEq, Repr

/-- How a stream of frames ends: inside of a header, inside of a payload, or before a header that is rejected. -/
inductive Rest where
  | header (octets : List UInt8)
  | payload (h : Header) (octets : List UInt8)
  | rejected (e : HeaderError)
  deriving DecidableEq, Repr

def Rest.opened : Rest → Option (Header × List UInt8)
  | .payload h octets => some (h, octets)
  | _ => none

def Rest.error : Rest → Option HeaderError
  | .rejected e => some e
  | _ => none

def split : Nat → List UInt8 → List Frame × Rest
  | 0, s => ([], .header s)
  | fuel + 1, s =>
    match parseHeader s with
    | .error .errIncomplete => ([], .header s)
    | .error e => ([], .rejected e)
    | .ok (h, n) =>
      if (s.drop n).length < h.payloadLen then ([], .payload h (s.drop n))
      else
        let r := split fuel ((s.drop n).drop h.payloadLen)
        (⟨h, (s.drop n).take h.payloadLen⟩ :: r.1, r.2)

def frames (s : List UInt8) : List Frame × Rest := split (s.length + 1) s

/-! ## Chunks of frames -/

structure Chunk where
  header : Option Header
  payload : List UInt8
  finalChunk : Bool
  deriving DecidableEq, Repr

/-- The frames that chunks make up, after the beginning of one if `opened` is there; `none` if a header is missing or
is where none belongs. -/
def assemble : Option (Header × List UInt8) → List Chunk → Option (List Frame × Option (Header × List UInt8))
  | opened, [] => some ([], opened)
  | none, ⟨none, _, _⟩ :: _ => none
  | some _, ⟨some _, _, _⟩ :: _ => none
  | none, ⟨some h, payload, finalChunk⟩ :: cs =>
    if finalChunk then (assemble none cs).map fun r => (⟨h, payload⟩ :: r.1, r.2) else assemble (some (h, payload)) cs
  | some (h, octets), ⟨none, payload, finalChunk⟩ :: cs =>
    if finalChunk then (assemble none cs).map fun r => (⟨h, octets ++ payload⟩ :: r.1, r.2)
    else assemble (some (h, octets ++ payload)) cs

/-- A chunk read through the ring. -/
def FrameChunk.see (ring : Nat → Header) (c : FrameChunk) : Chunk := ⟨c.header.map ring, c.payload, c.finalChunk⟩

/-- Pieces of a stream, one after the other: what each call appends, read after it, and the error it returns. -/
def Parser.decodeAll : Parser → List (List UInt8) → List (List Chunk × Option HeaderError)
  | _, [] => []
  | p, data :: pieces =>
    let r := p.decode data
    (r.2.1.map (FrameChunk.see r.1.hdrRing), r.2.2) :: decodeAll r.1 pieces

/-! ## The frames of a stream, one at a time -/

-- The lemmas below share these equations.
attribute [local simp] split frames in
theorem split_fuel {a b : Nat} {s : List UInt8} (ha : s.length < a) (hb : s.length < b) : split a s = split b s := by
  induction a generalizing b s with
  | zero => omega
  | succ a ih =>
    obtain ⟨b, rfl⟩ : ∃ k, b = k + 1 := ⟨b - 1, by omega⟩
    unfold split
    cases hp : parseHeader s with
    | error e => cases e <;> rfl
    | ok r =>
      obtain ⟨h, n⟩ := r
      obtain ⟨hn, hle, -⟩ := parseHeader_ok hp
      have hlen : ((s.drop n).drop h.payloadLen).length < s.length := by
        simp only [length_drop]
        omega
      have hrest := @ih b ((s.drop n).drop h.payloadLen) (by omega) (by omega)
      simp only [hrest]

section Frames

variable {s : List UInt8} {h : Header} {n : Nat} {e : HeaderError}

theorem frames_incomplete (hp : parseHeader s = .error .errIncomplete) : frames s = ([], .header s) := by
  simp only [frames, split, hp]

theorem frames_rejected (hp : parseHeader s = .error e) (hne : e ≠ .errIncomplete) : frames s = ([], .rejected e) := by
  cases e <;> first | exact absurd rfl hne | simp only [frames, split, hp]

theorem frames_payload (hp : parseHeader s = .ok (h, n)) (hlen : (s.drop n).length < h.payloadLen) :
    frames s = ([], .payload h (s.drop n)) := by
  simp only [frames, split, hp, if_pos hlen]

theorem frames_cons (hp : parseHeader s = .ok (h, n)) (hlen : h.payloadLen ≤ (s.drop n).length) :
    frames s = (⟨h, (s.drop n).take h.payloadLen⟩ :: (frames ((s.drop n).drop h.payloadLen)).1,
      (frames ((s.drop n).drop h.payloadLen)).2) := by
  obtain ⟨hn, hle, -⟩ := parseHeader_ok hp
  have hrest : split s.length ((s.drop n).drop h.payloadLen) = frames ((s.drop n).drop h.payloadLen) := by
    apply split_fuel
    · simp only [length_drop]
      omega
    · omega
  rw [frames, split]
  simp only [hp, if_neg (Nat.not_lt.2 hlen), hrest]

end Frames

/-- The rest of a stream, and more of it. -/
def Rest.more : Rest → List UInt8 → List Frame × Rest
  | .header octets, data => frames (octets ++ data)
  | .payload h octets, data =>
    if (octets ++ data).length < h.payloadLen then ([], .payload h (octets ++ data))
    else
      (⟨h, (octets ++ data).take h.payloadLen⟩ :: (frames ((octets ++ data).drop h.payloadLen)).1,
        (frames ((octets ++ data).drop h.payloadLen)).2)
  | .rejected e, _ => ([], .rejected e)

theorem frames_append (s data : List UInt8) :
    frames (s ++ data) = ((frames s).1 ++ ((frames s).2.more data).1, ((frames s).2.more data).2) := by
  induction hlen : s.length using Nat.strong_induction_on generalizing s with
  | _ len ih =>
    subst hlen
    cases hp : parseHeader s with
    | error e =>
      by_cases hne : e = .errIncomplete
      · subst hne
        rw [frames_incomplete hp]
        rfl
      · rw [frames_rejected hp hne, frames_rejected (parseHeader_append hp (by simp [hne]) data) hne]
        rfl
    | ok r =>
      obtain ⟨h, n⟩ := r
      obtain ⟨hn, hle, -⟩ := parseHeader_ok hp
      have hp' := parseHeader_append hp (by simp) data
      have hdrop : (s ++ data).drop n = s.drop n ++ data := drop_append_of_le_length hle
      by_cases hshort : (s.drop n).length < h.payloadLen
      · rw [frames_payload hp hshort]
        simp only [Rest.more, nil_append, ← hdrop]
        split
        · rename_i hmore
          rw [frames_payload hp' hmore]
        · rename_i hmore
          rw [frames_cons hp' (Nat.not_lt.1 hmore)]
      · have hlong : h.payloadLen ≤ (s.drop n).length := Nat.not_lt.1 hshort
        have hlong' : h.payloadLen ≤ ((s ++ data).drop n).length := by
          rw [hdrop, length_append]
          omega
        have hrest := ih ((s.drop n).drop h.payloadLen).length (by simp only [length_drop]; omega) _ rfl
        rw [frames_cons hp hlong, frames_cons hp' hlong', hdrop, take_append_of_le_length hlong,
          drop_append_of_le_length hlong, hrest]
        rfl

/-! ## What a call appends -/

def heads (cs : List Chunk) : List Header := cs.filterMap Chunk.header

/-- The chunks with their headers in the ring, from the index `i` on. -/
def label : Nat → List Chunk → List FrameChunk
  | _, [] => []
  | i, c :: cs =>
    match c.header with
    | none => ⟨none, c.payload, c.finalChunk⟩ :: label i cs
    | some _ => ⟨some (i % Parser.ringSize), c.payload, c.finalChunk⟩ :: label (i + 1) cs

def fill : Nat → (Nat → Header) → List Header → Nat → Header
  | _, ring, [] => ring
  | i, ring, h :: hs => fill (i + 1) (Function.update ring (i % Parser.ringSize) h) hs

/-- The state of a parser at the end of a stream of frames. -/
def Parser.At (p : Parser) : Rest → Prop
  | .header octets => p.err = none ∧ p.hasHeader = false ∧ p.headerBuf = octets ∧ parseHeader octets = .error .errIncomplete
  | .payload h octets => p.err = none ∧ p.hasHeader = true ∧ p.headerBuf = [] ∧ p.currentHeader = h ∧
      octets.length < h.payloadLen ∧ p.remainingLen = h.payloadLen - octets.length
  | .rejected e => p.err = some e

/-- A call that found the chunks `cs`: what it appended and returned, and the parser it left. -/
structure Parser.Appended (p : Parser) (opened : Option (Header × List UInt8)) (f : List Frame × Rest) (cs : List Chunk)
    (out : Parser × List FrameChunk × Option HeaderError) : Prop where
  chunks : out.2.1 = label p.hdrRingIdx cs
  idx : out.1.hdrRingIdx = p.hdrRingIdx + (heads cs).length
  ring : out.1.hdrRing = fill p.hdrRingIdx p.hdrRing (heads cs)
  frames : assemble opened cs = some (f.1, f.2.opened)
  rest : out.1.At f.2
  err : out.2.2 = f.2.error

namespace Parser

variable {p : Parser} {first : Bool} {data got : List UInt8} {h : Header} {fuel : Nat}

theorem decodeLoop_nil (fuel : Nat) (p : Parser) : decodeLoop fuel p false [] = (p, [], none) := by
  cases fuel <;> simp [decodeLoop]

/-- The parser behind the header of a frame of which it has seen `got`. -/
structure Inside (p : Parser) (h : Header) (got : List UInt8) : Prop where
  err : p.err = none
  hasHeader : p.hasHeader = true
  headerBuf : p.headerBuf = []
  current : p.currentHeader = h
  remaining : p.remainingLen = h.payloadLen - got.length

structure Between (p : Parser) : Prop where
  err : p.err = none
  hasHeader : p.hasHeader = false
  headerBuf : p.headerBuf = []

/-- The frame that is open when a chunk comes. -/
def openedBy (first : Bool) (h : Header) (got : List UInt8) : Option (Header × List UInt8) :=
  if first then none else some (h, got)

/-- A round of the loop that appends a chunk, and the rounds after it. -/
theorem appended_chunk (hin : Inside p h got) (hfirst : first = true → got = []) (hgot : got.length ≤ h.payloadLen)
    (hrest : ∀ q : Parser, Between q → ∃ cs, Appended q none (frames ((got ++ data).drop h.payloadLen)) cs
      (decodeLoop fuel q false ((got ++ data).drop h.payloadLen))) :
    ∃ cs, Appended p (openedBy first h got) ((Rest.payload h got).more data) cs
      ((decodeLoop fuel (p.chunk first data).1 false (p.chunk first data).2.2).1,
        (p.chunk first data).2.1 :: (decodeLoop fuel (p.chunk first data).1 false (p.chunk first data).2.2).2.1,
        (decodeLoop fuel (p.chunk first data).1 false (p.chunk first data).2.2).2.2) := by
  obtain ⟨herr, hhas, hbuf, rfl, hrem⟩ := hin
  by_cases hshort : (got ++ data).length < p.currentHeader.payloadLen
  · -- the payload goes on in the next call
    have hlen : data.length < p.remainingLen := by
      rw [length_append] at hshort
      omega
    have hmin : min data.length p.remainingLen = data.length := by omega
    have hnz : ¬ p.remainingLen - data.length = 0 := by omega
    refine ⟨[⟨if first then some p.currentHeader else none, data, false⟩], ?_⟩
    simp only [Rest.more, if_pos hshort, chunk, hmin, drop_length, take_length, decodeLoop_nil]
    have hafter : p.remainingLen - data.length = p.currentHeader.payloadLen - (got ++ data).length := by
      rw [length_append]
      omega
    cases first with
    | true =>
      obtain rfl := hfirst rfl
      exact ⟨by simp [label, hnz], rfl, rfl, rfl, ⟨herr, by simp [hhas, hnz], hbuf, rfl, hshort, hafter⟩, rfl⟩
    | false =>
      exact ⟨by simp [label, hnz], rfl, rfl, rfl, ⟨herr, by simp [hhas, hnz], hbuf, rfl, hshort, hafter⟩, rfl⟩
  · -- the frame ends here
    have hlen : p.remainingLen ≤ data.length := by
      rw [length_append] at hshort
      omega
    have hmin : min data.length p.remainingLen = p.remainingLen := by omega
    have htake : (got ++ data).take p.currentHeader.payloadLen = got ++ data.take p.remainingLen := by
      rw [hrem, take_append, take_of_length_le hgot]
    have hdrop : (got ++ data).drop p.currentHeader.payloadLen = data.drop p.remainingLen := by
      rw [hrem, drop_append, drop_of_length_le hgot, nil_append]
    rw [hdrop] at hrest
    simp only [Rest.more, if_neg hshort, htake, hdrop, chunk, hmin, Nat.sub_self, beq_self_eq_true, Bool.not_true,
      Bool.and_false]
    cases first with
    | true =>
      obtain rfl := hfirst rfl
      obtain ⟨cs, hcs⟩ := hrest
        { p with remainingLen := 0, hasHeader := false, hdrRingIdx := p.hdrRingIdx + 1,
                 hdrRing := Function.update p.hdrRing (p.hdrRingIdx % ringSize) p.currentHeader } ⟨herr, rfl, hbuf⟩
      refine ⟨⟨some p.currentHeader, data.take p.remainingLen, true⟩ :: cs, ?_, ?_, ?_, ?_, hcs.rest, hcs.err⟩
      · rw [label]
        exact congrArg _ hcs.chunks
      · refine hcs.idx.trans ?_
        simp only [heads, filterMap_cons, length_cons]
        omega
      · exact hcs.ring
      · simp [openedBy, assemble, hcs.frames]
    | false =>
      obtain ⟨cs, hcs⟩ := hrest { p with remainingLen := 0, hasHeader := false } ⟨herr, rfl, hbuf⟩
      refine ⟨⟨none, data.take p.remainingLen, true⟩ :: cs, ?_, ?_, ?_, ?_, hcs.rest, hcs.err⟩
      · rw [label]
        exact congrArg _ hcs.chunks
      · exact hcs.idx
      · exact hcs.ring
      · simp [openedBy, assemble, hcs.frames]

theorem frames_started {s : List UInt8} {n : Nat} (hp : parseHeader s = .ok (h, n)) :
    frames s = (Rest.payload h []).more (s.drop n) := by
  simp only [Rest.more, nil_append]
  split
  · rename_i hshort
    rw [frames_payload hp hshort]
  · rename_i hlong
    rw [frames_cons hp (Nat.not_lt.1 hlong)]

theorem appended_loop (hp : Between p) (hfuel : data.length < fuel) :
    ∃ cs, Appended p none (frames data) cs (decodeLoop fuel p false data) := by
  induction fuel generalizing p data with
  | zero => omega
  | succ fuel ih =>
    obtain ⟨herr, hhas, hbuf⟩ := hp
    rw [decodeLoop]
    by_cases hnil : data = []
    · subst hnil
      exact ⟨[], by simpa using ⟨rfl, rfl, rfl, rfl, ⟨herr, hhas, hbuf, rfl⟩, rfl⟩⟩
    rw [if_neg (by simp [hnil]), if_neg (by simp [hhas])]
    cases hparse : parseHeader data with
    | error e =>
      by_cases hne : e = .errIncomplete
      · subst hne
        rw [frames_incomplete hparse]
        exact ⟨[], rfl, rfl, rfl, rfl, ⟨herr, hhas, rfl, hparse⟩, rfl⟩
      · rw [frames_rejected hparse hne]
        cases e <;> first | exact absurd rfl hne | exact ⟨[], rfl, rfl, rfl, rfl, rfl, rfl⟩
    | ok r =>
      obtain ⟨h, n⟩ := r
      obtain ⟨hn, hle, -⟩ := parseHeader_ok hparse
      have hin : Inside (p.start h) h [] := ⟨herr, rfl, hbuf, rfl, rfl⟩
      obtain ⟨cs, hcs⟩ := @appended_chunk (p.start h) true (data.drop n) [] h fuel hin (fun _ => rfl) (Nat.zero_le _)
        (fun q hq => ih hq (by simp only [nil_append, length_drop]; omega))
      rw [frames_started hparse]
      exact ⟨cs, hcs.chunks, hcs.idx, hcs.ring, hcs.frames, hcs.rest, hcs.err⟩

/-- A header that was cut off, and the octets that complete it. -/
theorem appended_buffered {octets : List UInt8} (herr : p.err = none) (hhas : p.hasHeader = false)
    (hbuf : p.headerBuf = octets) (hpart : parseHeader octets = .error .errIncomplete) (hne : octets ≠ []) :
    ∃ cs, Appended p none (frames (octets ++ data)) cs (p.decode data) := by
  subst hbuf
  simp only [decode, herr, hhas, hne, and_false, if_false]
  generalize htaken : min (maxHeaderSize - p.headerBuf.length) data.length = needed
  have hsplit : p.headerBuf ++ data = (p.headerBuf ++ data.take needed) ++ data.drop needed := by
    rw [append_assoc, take_append_drop]
  cases hparse : parseHeader (p.headerBuf ++ data.take needed) with
  | error e =>
    by_cases hinc : e = .errIncomplete
    · subst hinc
      -- fewer octets than the longest header has, so the call has taken all there is
      have hlen := parseHeader_incomplete hparse
      rw [length_append, length_take] at hlen
      have hall : data.take needed = data := take_of_length_le (by omega)
      rw [hall] at hparse ⊢
      rw [frames_incomplete hparse]
      exact ⟨[], rfl, rfl, rfl, rfl, ⟨rfl, rfl, rfl, hparse⟩, rfl⟩
    · have hrej := parseHeader_append hparse (by simp [hinc]) (data.drop needed)
      rw [← hsplit] at hrej
      rw [frames_rejected hrej hinc]
      cases e <;> first | exact absurd rfl hinc | exact ⟨[], rfl, rfl, rfl, rfl, rfl, rfl⟩
  | ok r =>
    obtain ⟨h, n⟩ := r
    have hwhole := parseHeader_append hparse (by simp) (data.drop needed)
    rw [← hsplit] at hwhole
    obtain ⟨h2, hn, hsize⟩ := parseHeader_ok hwhole
    have hgt : p.headerBuf.length < n := by
      by_cases htwo : 2 ≤ p.headerBuf.length
      · rw [hsize, headerSize_append htwo]
        exact headerSize_of_incomplete hpart
      · omega
    have hdrop : (p.headerBuf ++ data).drop n = data.drop (n - p.headerBuf.length) := by
      rw [drop_append, drop_of_length_le hgt.le, nil_append]
    rw [length_append] at hn
    have hin : Inside { p.start h with headerBuf := [] } h [] := ⟨herr, rfl, rfl, rfl, rfl⟩
    obtain ⟨cs, hcs⟩ := @appended_chunk _ true (data.drop (n - p.headerBuf.length)) [] h data.length hin (fun _ => rfl)
      (Nat.zero_le _) (fun q hq => appended_loop hq (by simp only [nil_append, length_drop]; omega))
    rw [frames_started hwhole, hdrop]
    simp only [decodeLoop, Bool.true_eq_false, and_false, if_false, start, if_true]
    exact ⟨cs, hcs.chunks, hcs.idx, hcs.ring, hcs.frames, hcs.rest, hcs.err⟩

theorem appended_decode {r : Rest} (hp : p.At r) (data : List UInt8) :
    ∃ cs, Appended p r.opened (r.more data) cs (p.decode data) := by
  cases r with
  | rejected e =>
    have herr : p.err = some e := hp
    simp only [decode, herr]
    exact ⟨[], rfl, rfl, rfl, rfl, herr, rfl⟩
  | payload h got =>
    obtain ⟨herr, hhas, hbuf, hcur, hshort, hrem⟩ := hp
    simp only [decode, herr, hhas, hbuf, decodeLoop, Bool.true_eq_false, and_false, if_false, if_true, and_true]
    by_cases hnil : data = []
    · subst hnil
      have hmore : (Rest.payload h got).more [] = ([], .payload h got) := by
        rw [Rest.more, append_nil, if_pos hshort]
      rw [hmore, if_pos rfl]
      exact ⟨[], rfl, rfl, rfl, rfl, ⟨herr, hhas, hbuf, hcur, hshort, hrem⟩, rfl⟩
    · have hpos : 0 < data.length := length_pos_of_ne_nil hnil
      rw [if_neg hnil]
      exact @appended_chunk p false data got h data.length ⟨herr, hhas, hbuf, hcur, hrem⟩ nofun hshort.le
        (fun q hq => appended_loop hq (by simp only [length_append, length_drop]; omega))
  | header octets =>
    obtain ⟨herr, hhas, hbuf, hpart⟩ := hp
    by_cases hne : octets = []
    · subst hne
      obtain ⟨cs, hcs⟩ := @appended_loop p data (data.length + 1) ⟨herr, hhas, hbuf⟩ (Nat.lt_succ_self _)
      refine ⟨cs, ?_⟩
      simp only [decode, herr, hhas, hbuf, and_true, if_true]
      split
      · rename_i hnil
        subst hnil
        rw [decodeLoop_nil] at hcs
        exact hcs
      · exact hcs
    · exact appended_buffered herr hhas hbuf hpart hne

end Parser

variable {i : Nat} {ring : Nat → Header} {hs : List Header} {out cs : List Chunk} {outs found : List (List Chunk)}

/-! ## The ring -/

/-- A slot of the ring serves again for the same header. -/
def Periodic (hs : List Header) : Prop := ∀ k, k + Parser.ringSize < hs.length → hs[k + Parser.ringSize]? = hs[k]?

theorem fill_other {x : Nat} (hx : ∀ j < hs.length, (i + j) % Parser.ringSize ≠ x) : fill i ring hs x = ring x := by
  induction hs generalizing i ring with
  | nil => rfl
  | cons h hs ih =>
    rw [fill, ih]
    · exact update_of_ne (hx 0 (Nat.zero_lt_succ _)).symm _ _
    · intro j hj
      have := hx (j + 1) (Nat.succ_lt_succ hj)
      rwa [← Nat.add_assoc, Nat.add_right_comm] at this

theorem Periodic.tail {h : Header} (hper : Periodic (h :: hs)) : Periodic hs := by
  intro k hk
  have := hper (k + 1) (by rw [length_cons]; omega)
  rwa [Nat.add_right_comm, getElem?_cons_succ, getElem?_cons_succ] at this

theorem fill_periodic {k : Nat} (hper : Periodic hs) (hk : k < hs.length) :
    some (fill i ring hs ((i + k) % Parser.ringSize)) = hs[k]? := by
  induction hs generalizing i k ring with
  | nil => exact absurd hk (Nat.not_lt_zero k)
  | cons h hs ih =>
    rw [fill]
    cases k with
    | succ k =>
      rw [length_cons] at hk
      rw [getElem?_cons_succ, ← ih hper.tail (Nat.lt_of_succ_lt_succ hk), Nat.add_right_comm]
      rfl
    | zero =>
      by_cases hlong : Parser.ringSize ≤ hs.length
      · -- the slot is written again, with the same header
        have hagain := hper 0 (by rw [length_cons]; omega)
        have hslot : (i + 1 + 63) % Parser.ringSize = (i + 0) % Parser.ringSize := by
          simp only [Parser.ringSize]
          omega
        rw [← hslot, ih hper.tail (show 63 < hs.length from hlong), ← hagain]
        rfl
      · rw [fill_other]
        · simp
        · intro j hj
          simp only [Parser.ringSize] at hlong ⊢
          omega

/-! ## What is seen after a call -/

/-- A chunk but for the contents of its header. -/
def Chunk.shape (c : Chunk) : Bool × List UInt8 × Bool := (c.header.isSome, c.payload, c.finalChunk)

theorem eq_of_heads {a b : List Chunk} (hshape : a.map Chunk.shape = b.map Chunk.shape) (hheads : heads a = heads b) :
    a = b := by
  induction a generalizing b with
  | nil => exact (map_eq_nil_iff.1 hshape.symm).symm
  | cons x a ih =>
    cases b with
    | nil => cases hshape
    | cons y b =>
      obtain ⟨hx, pay, fin⟩ := x
      obtain ⟨hy, pay', fin'⟩ := y
      simp only [map_cons, List.cons.injEq, Chunk.shape, Prod.mk.injEq] at hshape
      obtain ⟨⟨hsome, rfl, rfl⟩, htail⟩ := hshape
      cases hx with
      | none =>
        cases hy with
        | none => rw [ih htail hheads]
        | some v => cases hsome
      | some u =>
        cases hy with
        | none => cases hsome
        | some v =>
          simp only [heads, filterMap_cons, List.cons.injEq] at hheads
          obtain ⟨rfl, hrest⟩ := hheads
          rw [ih htail hrest]

theorem shape_label (i : Nat) (ring : Nat → Header) (cs : List Chunk) :
    ((label i cs).map (FrameChunk.see ring)).map Chunk.shape = cs.map Chunk.shape := by
  induction cs generalizing i with
  | nil => rfl
  | cons c cs ih =>
    obtain ⟨h, payload, fin⟩ := c
    cases h with
    | none => exact congrArg ((false, payload, fin) :: ·) (ih i)
    | some h => exact congrArg ((true, payload, fin) :: ·) (ih (i + 1))

theorem heads_label (i : Nat) (ring : Nat → Header) (cs : List Chunk) :
    heads ((label i cs).map (FrameChunk.see ring)) =
      (List.range (heads cs).length).map fun k => ring ((i + k) % Parser.ringSize) := by
  induction cs generalizing i with
  | nil => rfl
  | cons c cs ih =>
    obtain ⟨h, payload, fin⟩ := c
    cases h with
    | none => exact ih i
    | some h =>
      simp only [heads, filterMap_cons, length_cons, range_succ_eq_map, map_cons, map_map] at ih ⊢
      simp only [label, map_cons, filterMap_cons, FrameChunk.see, Option.map_some, Nat.add_zero,
        List.cons.injEq, true_and]
      refine (ih (i + 1)).trans (map_congr_left fun k _ => ?_)
      simp only [comp_apply, Nat.succ_eq_add_one]
      rw [Nat.add_assoc, Nat.add_comm 1 k]

/-- What a call that found the chunks `cs` shows. -/
def Seen (out cs : List Chunk) : Prop :=
  ∃ i ring, out = (label i cs).map (FrameChunk.see (fill i ring (heads cs)))

theorem Seen.eq_iff (hseen : Seen out cs) : out = cs ↔ Periodic (heads cs) := by
  obtain ⟨i, ring, rfl⟩ := hseen
  have hshown := heads_label i (fill i ring (heads cs)) cs
  generalize hring : fill i ring (heads cs) = after at hshown ⊢
  constructor
  · intro heq k hk
    rw [heq] at hshown
    have hat : ∀ j, j < (heads cs).length → (heads cs)[j]? = some (after ((i + j) % Parser.ringSize)) := by
      intro j hj
      rw [hshown]
      simp [hj]
    rw [hat _ hk, hat k (by omega), ← Nat.add_assoc, Nat.add_mod_right]
  · intro hper
    apply eq_of_heads (shape_label i _ cs)
    rw [hshown]
    apply ext_getElem?
    intro k
    by_cases hk : k < (heads cs).length
    · rw [← fill_periodic hper hk, hring]
      simp [hk]
    · rw [getElem?_eq_none (by simpa using hk), getElem?_eq_none (Nat.not_lt.1 hk)]

theorem Seen.length (hseen : Seen out cs) : out.length = cs.length := by
  obtain ⟨i, ring, rfl⟩ := hseen
  simpa using congrArg List.length (shape_label i (fill i ring (heads cs)) cs)

/-! ## Chunks one after the other -/

theorem assemble_append (o : Option (Header × List UInt8)) (a b : List Chunk) :
    assemble o (a ++ b) =
      (assemble o a).bind fun r => (assemble r.2 b).map fun q => (r.1 ++ q.1, q.2) := by
  induction a generalizing o with
  | nil => cases o <;> simp [assemble]
  | cons c a ih =>
    obtain ⟨h, payload, fin⟩ := c
    have hcons (f : Frame) : ((assemble none (a ++ b)).map fun r => (f :: r.1, r.2)) =
        ((assemble none a).map fun r => (f :: r.1, r.2)).bind fun r =>
          (assemble r.2 b).map fun q => (r.1 ++ q.1, q.2) := by
      rw [ih]
      cases assemble none a with
      | none => rfl
      | some r => simp [comp_def]
    cases o with
    | none =>
      cases h with
      | none => rfl
      | some h =>
        cases fin with
        | true => exact hcons _
        | false => exact ih _
    | some o =>
      cases h with
      | some h => rfl
      | none =>
        cases fin with
        | true => exact hcons _
        | false => exact ih _

/-- The headers of frames, the opened one included. -/
def headersOf (fs : List Frame) (opened : Option (Header × List UInt8)) : List Header :=
  fs.map Frame.header ++ (opened.map Prod.fst).toList

theorem heads_assemble {o : Option (Header × List UInt8)}
    {r : List Frame × Option (Header × List UInt8)} (hr : assemble o cs = some r) :
    headersOf [] o ++ heads cs = headersOf r.1 r.2 := by
  induction cs generalizing o r with
  | nil =>
    have hr : r = ([], o) := by cases o <;> simpa [assemble] using hr.symm
    subst hr
    exact append_nil _
  | cons c cs ih =>
    obtain ⟨h, payload, fin⟩ := c
    have hcons {f : Frame} (hf : ((assemble none cs).map fun r => (f :: r.1, r.2)) = some r) :
        f.header :: heads cs = headersOf r.1 r.2 := by
      obtain ⟨q, hq, rfl⟩ := Option.map_eq_some_iff.1 hf
      exact congrArg (f.header :: ·) (ih hq)
    cases o with
    | none =>
      cases h with
      | none => cases hr
      | some h =>
        cases fin with
        | true => exact hcons hr
        | false => exact @ih (some (h, payload)) r hr
    | some o =>
      cases h with
      | some h => cases hr
      | none =>
        cases fin with
        | true => exact hcons hr
        | false => exact @ih (some (o.1, o.2 ++ payload)) r hr

/-! ## Pieces of a stream -/

def headers (s : List UInt8) : List Header := headersOf (frames s).1 (frames s).2.opened

/-- The headers that are complete with each piece, behind the stream `s`. -/
def started (s : List UInt8) : List (List UInt8) → List (List Header)
  | [] => []
  | data :: pieces => (headers (s ++ data)).drop (headers s).length :: started (s ++ data) pieces

/-- The rejected header, if there is one, after each piece. -/
def rejections (s : List UInt8) : List (List UInt8) → List (Option HeaderError)
  | [] => []
  | data :: pieces => (frames (s ++ data)).2.error :: rejections (s ++ data) pieces

/-- The chunks of all calls, each read after its call, make up the frames of the stream, and every call returns the
error of the header that was rejected so far. -/
structure Exact (pieces : List (List UInt8)) : Prop where
  frames : assemble none ((Parser.decodeAll {} pieces).map (·.1)).flatten =
    some ((Ws.frames pieces.flatten).1, (Ws.frames pieces.flatten).2.opened)
  errors : (Parser.decodeAll {} pieces).map (·.2) = rejections [] pieces

/-- A run of calls, with the chunks that each one found. -/
structure Found (s : List UInt8) (p : Parser) (pieces : List (List UInt8)) (found : List (List Chunk)) : Prop where
  seen : List.Forall₂ Seen ((p.decodeAll pieces).map (·.1)) found
  heads : found.map heads = started s pieces
  frames : assemble (Ws.frames s).2.opened found.flatten =
    some (((Ws.frames s).2.more pieces.flatten).1, ((Ws.frames s).2.more pieces.flatten).2.opened)
  errors : (p.decodeAll pieces).map (·.2) = rejections s pieces

theorem headers_append {s data : List UInt8} (hcs : assemble (frames s).2.opened cs =
      some (((frames s).2.more data).1, ((frames s).2.more data).2.opened)) :
    headers (s ++ data) = headers s ++ heads cs := by
  have hheads := heads_assemble hcs
  simp only [headersOf, map_nil, nil_append] at hheads
  simp [headers, headersOf, frames_append, hheads]

theorem Rest.more_nil {s : List UInt8} : (frames s).2.more [] = ([], (frames s).2) := by
  have happ := frames_append s []
  rw [append_nil] at happ
  have h1 := congrArg Prod.fst happ
  have h2 := congrArg Prod.snd happ
  have hnil : ((frames s).2.more []).1 = [] := by simpa using h1
  exact Prod.ext hnil h2.symm

theorem Rest.more_append {s data rest : List UInt8} : (frames s).2.more (data ++ rest) =
    (((frames s).2.more data).1 ++ ((frames (s ++ data)).2.more rest).1, ((frames (s ++ data)).2.more rest).2) := by
  have hwhole := frames_append s (data ++ rest)
  rw [← append_assoc, frames_append (s ++ data) rest] at hwhole
  have h1 := congrArg Prod.fst hwhole
  have h2 := congrArg Prod.snd hwhole
  have hfst : (frames (s ++ data)).1 = (frames s).1 ++ ((frames s).2.more data).1 := by rw [frames_append s data]
  simp only [hfst, append_assoc, append_cancel_left_eq] at h1
  exact Prod.ext h1.symm h2.symm

theorem found_decodeAll {s : List UInt8} {p : Parser} (hp : p.At (frames s).2) (pieces : List (List UInt8)) :
    ∃ found, Found s p pieces found := by
  induction pieces generalizing s p with
  | nil =>
    refine ⟨[], .nil, rfl, ?_, rfl⟩
    simp only [flatten_nil, Rest.more_nil]
    cases (frames s).2.opened <;> rfl
  | cons data pieces ih =>
    obtain ⟨cs, hcs⟩ := Parser.appended_decode hp data
    have hrest : (p.decode data).1.At (frames (s ++ data)).2 := by
      rw [frames_append]
      exact hcs.rest
    obtain ⟨found, hfound⟩ := ih hrest
    have hheads := headers_append hcs.frames
    refine ⟨cs :: found, ?_, ?_, ?_, ?_⟩
    · refine .cons ⟨p.hdrRingIdx, p.hdrRing, ?_⟩ hfound.seen
      rw [hcs.chunks, hcs.ring]
    · simp [hfound.heads, started, hheads]
    · have hopened : (frames (s ++ data)).2.opened = ((frames s).2.more data).2.opened := by rw [frames_append]
      simp [assemble_append, hcs.frames, ← hopened, hfound.frames, Rest.more_append]
    · have herr : (frames (s ++ data)).2.error = ((frames s).2.more data).2.error := by rw [frames_append]
      simp [Parser.decodeAll, hfound.errors, rejections, herr, hcs.err]

theorem shape_flatten (hseen : List.Forall₂ Seen outs found) :
    outs.flatten.map Chunk.shape = found.flatten.map Chunk.shape := by
  induction hseen with
  | nil => rfl
  | cons h _ ih =>
    obtain ⟨i, ring, rfl⟩ := h
    rw [flatten_cons, flatten_cons, map_append, map_append, ih, shape_label]

theorem seen_flatten (hseen : List.Forall₂ Seen outs found) :
    outs.flatten = found.flatten ↔ ∀ cs ∈ found, Periodic (heads cs) := by
  induction hseen with
  | nil => simp
  | @cons out cs outs found h _ ih =>
    rw [flatten_cons, flatten_cons, forall_mem_cons, ← ih, ← h.eq_iff]
    constructor
    · intro heq
      exact append_inj heq h.length
    · rintro ⟨rfl, htail⟩
      rw [htail]

/-- The chunks are the frames of the stream, however it is cut, exactly if no call lets a slot of the ring serve for
two different headers. -/
theorem exact_iff_periodic (pieces : List (List UInt8)) : Exact pieces ↔ ∀ hs ∈ started [] pieces, Periodic hs := by
  have hstart : Parser.At {} (frames []).2 := ⟨rfl, rfl, rfl, rfl⟩
  obtain ⟨found, hfound⟩ := found_decodeAll hstart pieces
  have hframes := hfound.frames
  rw [← hfound.heads, forall_mem_map, ← seen_flatten hfound.seen]
  constructor
  · intro hexact
    apply eq_of_heads (shape_flatten hfound.seen)
    -- the headers of the frames are those of the chunks
    have h1 := heads_assemble hexact.frames
    have h2 := heads_assemble hframes
    exact h1.trans h2.symm
  · intro heq
    refine ⟨?_, hfound.errors⟩
    rw [heq]
    exact hframes

/-- 64 empty text frames and an empty binary one, in one piece: the first frame is shown with the last one's header. -/
theorem ring_overrun : ¬ Exact [(List.replicate 64 [0x81, 0x00]).flatten ++ [0x82, 0x00]] := by
  intro hexact
  have hfirst := congrArg (Option.map fun r => (r.1.map (·.header.opcode)).head?) hexact.frames
  revert hfirst
  decide +kernel

end Mach.Ws
