import Mach.Lib.Bytes
import Mach.Lib.Source
/-!
# HTTP/3 frames

A frame has its type and its length in front of it, as varints. `takeHeader` is
what `ReadFrameHeader` does to the octets of a stream, and `framer` cuts complete
frames off them, so that a stream is a list of frames and a rest in which the
stream ends.
-/

namespace Mach.H3
open Lib List

variable {cut : ReadError} {d rest : List UInt8} {f : Frame} {k frameType : Nat} {s : Source UInt8}

/-! ## Reading -/

/-- `io.EOF` and `io.ErrUnexpectedEOF`. -/
inductive ReadError where
  | eof | unexpectedEOF
  deriving DecidableEq, Repr

def varintSize (first : UInt8) : Nat := 2 ^ (first >>> 6).toNat

def varintValue (first : UInt8) (more : List UInt8) : Nat := beNat ((first &&& 0x3f) :: more)

/-- `varint.Read`, octet by octet. `cut` is what it returns where the stream ends within a varint. -/
def readVarint (cut : ReadError) (r : Source UInt8) : Except ReadError (Nat × Source UInt8) :=
  match r.readUpTo 1 1 with
  | ([], _) => .error .eof
  | (first :: _, r) =>
    let (more, r) := r.readUpTo 1 (varintSize first - 1)
    if more.length < varintSize first - 1 then .error cut else .ok (varintValue first more, r)

def readFrameHeader (cut : ReadError) (r : Source UInt8) : Except ReadError ((Nat × Nat) × Source UInt8) :=
  match readVarint cut r with
  | .error e => .error e
  | .ok (frameType, r) =>
    match readVarint cut r with
    | .error e => .error e
    | .ok (payloadLen, r) => .ok ((frameType, payloadLen), r)

/-! ## Frames of a stream -/

structure Frame where
  type : Nat
  payload : List UInt8
  deriving DecidableEq, Repr

def takeVarint (cut : ReadError) : List UInt8 → Except ReadError (Nat × List UInt8)
  | [] => .error .eof
  | first :: d =>
    if d.length < varintSize first - 1 then .error cut
    else .ok (varintValue first (d.take (varintSize first - 1)), d.drop (varintSize first - 1))

def takeHeader (cut : ReadError) (d : List UInt8) : Except ReadError ((Nat × Nat) × List UInt8) :=
  match takeVarint cut d with
  | .error e => .error e
  | .ok (frameType, d) =>
    match takeVarint cut d with
    | .error e => .error e
    | .ok (payloadLen, d) => .ok ((frameType, payloadLen), d)

theorem readVarint_eq (cut : ReadError) (r : Source UInt8) :
    (readVarint cut r).map unread = takeVarint cut r.stream := by
  have hfirst := r.readUpTo_fst 1 1 (.inr Nat.one_pos)
  have hrest := r.stream_readUpTo 1 1 (.inr Nat.one_pos)
  unfold readVarint
  generalize r.readUpTo 1 1 = p at hfirst hrest
  obtain ⟨first, r'⟩ := p
  dsimp only at hfirst hrest
  cases hd : r.stream with
  | nil =>
    rw [hd, take_nil] at hfirst
    rw [hfirst]
    rfl
  | cons b d =>
    rw [hd] at hfirst hrest
    obtain rfl : r'.stream = d := hrest
    have hmore := r'.readUpTo_fst 1 (varintSize b - 1) (.inr Nat.one_pos)
    have hleft := r'.stream_readUpTo 1 (varintSize b - 1) (.inr Nat.one_pos)
    rw [hfirst]
    simp only [take_succ_cons, take_zero, takeVarint, hmore, length_take]
    by_cases hlen : r'.stream.length < varintSize b - 1
    · rw [if_pos hlen, if_pos (by omega)]
      rfl
    · rw [if_neg hlen, if_neg (by omega)]
      simp only [Except.map, unread, hleft]

theorem readFrameHeader_eq (cut : ReadError) (r : Source UInt8) :
    (readFrameHeader cut r).map unread = takeHeader cut r.stream := by
  unfold readFrameHeader takeHeader
  rw [← readVarint_eq]
  cases readVarint cut r with
  | error e => rfl
  | ok p =>
    obtain ⟨frameType, r'⟩ := p
    simp only [Except.map, unread]
    rw [← readVarint_eq]
    cases readVarint cut r' with
    | error e => rfl
    | ok p => rfl

/-- A varint takes octets off the front of what is there, and does not depend on what follows. -/
theorem takeVarint_ok {v : Nat} (h : takeVarint cut d = .ok (v, rest)) :
    ∃ front, front ≠ [] ∧ d = front ++ rest ∧ ∀ cut' e, takeVarint cut' (front ++ e) = .ok (v, e) := by
  cases d with
  | nil => cases h
  | cons b d =>
    simp only [takeVarint] at h
    split at h
    · cases h
    rename_i hlen
    cases h
    refine ⟨b :: d.take (varintSize b - 1), cons_ne_nil _ _, by simp, fun cut' e => ?_⟩
    have htake : (d.take (varintSize b - 1)).length = varintSize b - 1 := by
      rw [length_take]
      omega
    simp only [cons_append, takeVarint, length_append, htake]
    rw [if_neg (by omega), take_left' htake, drop_left' htake]

theorem takeHeader_ok {t n : Nat} (h : takeHeader cut d = .ok ((t, n), rest)) :
    ∃ front, front ≠ [] ∧ d = front ++ rest ∧ ∀ cut' e, takeHeader cut' (front ++ e) = .ok ((t, n), e) := by
  unfold takeHeader at h
  split at h
  · cases h
  rename_i t' d' ht
  split at h
  · cases h
  rename_i n' d'' hn
  cases h
  obtain ⟨f1, hne, rfl, hf1⟩ := takeVarint_ok ht
  obtain ⟨f2, -, rfl, hf2⟩ := takeVarint_ok hn
  refine ⟨f1 ++ f2, by simp [hne], (append_assoc ..).symm, fun cut' e => ?_⟩
  rw [append_assoc, takeHeader, hf1]
  simp only [hf2]

/-- A complete frame at the front, and how many octets it takes. -/
def nextFrame (d : List UInt8) : Option (Frame × Nat) :=
  match takeHeader .eof d with
  | .error _ => none
  | .ok ((t, n), rest) => if n ≤ rest.length then some (⟨t, rest.take n⟩, d.length - rest.length + n) else none

theorem nextFrame_eq_some (h : nextFrame d = some (f, k)) :
    ∃ front rest, front ≠ [] ∧ d = front ++ f.payload ++ rest ∧ k = front.length + f.payload.length ∧
      ∀ cut e, takeHeader cut (front ++ e) = .ok ((f.type, f.payload.length), e) := by
  unfold nextFrame at h
  split at h
  · cases h
  rename_i t n rest hd
  split at h
  · rename_i hn
    cases h
    obtain ⟨front, hne, rfl, hf⟩ := takeHeader_ok hd
    have htake : (rest.take n).length = n := by
      rw [length_take]
      omega
    refine ⟨front, rest.drop n, hne, by simp, ?_, fun cut e => ?_⟩
    · simp only [htake, length_append]
      omega
    · simp only [htake, hf]
  · cases h

theorem nextFrame_append {front : List UInt8} (e : List UInt8)
    (h : ∀ e, takeHeader .eof (front ++ e) = .ok ((f.type, f.payload.length), e)) :
    nextFrame (front ++ f.payload ++ e) = some (f, front.length + f.payload.length) := by
  unfold nextFrame
  rw [append_assoc, h]
  simp only [length_append, take_left, Nat.le_add_right, if_true]
  congr 2
  omega

/-- The header of a complete frame and its payload, as they are read from a source. -/
theorem readFrameHeader_of_next (cut : ReadError) (h : nextFrame s.stream = some (f, k)) :
    ∃ s', readFrameHeader cut s = .ok ((f.type, f.payload.length), s') ∧ ∀ size, f.payload.length = 0 ∨ 0 < size →
      (s'.readUpTo size f.payload.length).1 = f.payload ∧
        (s'.readUpTo size f.payload.length).2.stream = s.stream.drop k := by
  obtain ⟨front, rest, -, hd, rfl, hf⟩ := nextFrame_eq_some h
  have heq := readFrameHeader_eq cut s
  rw [hd, append_assoc, hf] at heq
  cases hr : readFrameHeader cut s with
  | error e =>
    rw [hr] at heq
    cases heq
  | ok p =>
    obtain ⟨hdr, s'⟩ := p
    rw [hr] at heq
    obtain ⟨rfl, hs'⟩ := Prod.mk.inj (Except.ok.inj heq)
    refine ⟨s', rfl, fun size hsize => ?_⟩
    rw [s'.readUpTo_fst size _ hsize, s'.stream_readUpTo size _ hsize, show s'.stream = _ from hs', hd]
    exact ⟨take_left, by rw [drop_left, ← length_append, drop_left]⟩

/-- Where no complete frame is left, the stream ends in the header or in the payload. -/
theorem readFrameHeader_of_none (cut : ReadError) (h : nextFrame s.stream = none) :
    (∃ e, readFrameHeader cut s = .error e ∧ takeHeader cut s.stream = .error e) ∨
    ∃ t n s', readFrameHeader cut s = .ok ((t, n), s') ∧ takeHeader cut s.stream = .ok ((t, n), s'.stream) ∧
      s'.stream.length < n ∧ s.stream ≠ [] ∧ ∀ size, n = 0 ∨ 0 < size →
        (s'.readUpTo size n).1 = s'.stream ∧ (s'.readUpTo size n).2.stream = [] := by
  have heq := readFrameHeader_eq cut s
  cases hr : readFrameHeader cut s with
  | error e =>
    rw [hr] at heq
    exact .inl ⟨e, rfl, heq.symm⟩
  | ok p =>
    obtain ⟨⟨t, n⟩, s'⟩ := p
    rw [hr] at heq
    have hshort : s'.stream.length < n := by
      obtain ⟨front, -, hd, hf⟩ := takeHeader_ok heq.symm
      rw [nextFrame, hd, hf] at h
      by_contra hle
      simp only [if_pos (Nat.not_lt.1 hle), reduceCtorEq] at h
    refine .inr ⟨t, n, s', rfl, heq.symm, hshort, ?_, fun size hsize => ?_⟩
    · intro hnil
      rw [hnil] at heq
      cases heq
    · rw [s'.readUpTo_fst size n hsize, s'.stream_readUpTo size n hsize]
      exact ⟨take_of_length_le hshort.le, drop_of_length_le hshort.le⟩

def framer : Framer UInt8 Frame where
  next := nextFrame
  pos h := by
    obtain ⟨front, rest, hne, -, rfl, -⟩ := nextFrame_eq_some h
    have := List.length_pos_iff.2 hne
    omega
  le h := by
    obtain ⟨front, rest, -, rfl, rfl, -⟩ := nextFrame_eq_some h
    simp only [List.length_append]
    omega
  ext e h := by
    obtain ⟨front, rest, -, rfl, rfl, hf⟩ := nextFrame_eq_some h
    rw [List.append_assoc]
    exact nextFrame_append (rest ++ e) (hf .eof)

/-- The complete frames of a stream, and what is behind them. -/
def frames (d : List UInt8) : List Frame × List UInt8 := framer.feed d.length d

theorem frames_spec (d : List UInt8) : framer.Frames d (frames d).1 (frames d).2 := Framer.frames_feed (Nat.le_refl _)

theorem frames_eq {r : List UInt8} {fs : List Frame} (h : framer.Frames d fs r) : frames d = (fs, r) := by
  obtain ⟨h1, h2⟩ := h.unique (frames_spec d)
  rw [h1, h2]

/-! ## Types of frames -/

def isReservedH2FrameType (frameType : Nat) : Bool :=
  frameType == 0x02 || frameType == 0x06 || frameType == 0x08 || frameType == 0x09

/-- SETTINGS, GOAWAY, CANCEL_PUSH and MAX_PUSH_ID, which only go on the control stream. -/
def isControlFrameType (frameType : Nat) : Bool :=
  frameType == 0x04 || frameType == 0x07 || frameType == 0x03 || frameType == 0x0d

def isDiscarded (frameType : Nat) : Bool :=
  !(frameType == 0x01 || frameType == 0x00 || isReservedH2FrameType frameType || isControlFrameType frameType)

theorem isDiscarded_iff : isDiscarded frameType = true ↔ frameType ≠ 0x01 ∧ frameType ≠ 0x00 ∧
    isReservedH2FrameType frameType = false ∧ isControlFrameType frameType = false := by
  simp [isDiscarded, and_assoc]

/-- Neither defined for a message nor reserved; 0x05 is PUSH_PROMISE. -/
def isUnknown (frameType : Nat) : Bool := isDiscarded frameType && frameType != 0x05

theorem isUnknown_iff : isUnknown frameType = true ↔ isDiscarded frameType = true ∧ frameType ≠ 0x05 := by
  simp [isUnknown]

/-! ## Messages -/

/-- The parts of a message: frames before the header section, the section, the content, and what there may be of a
trailer section with frames after it. -/
structure Message where
  lead : List Frame
  block : List UInt8
  content : List Frame
  trailer : Option (List UInt8 × List Frame)
  deriving DecidableEq, Repr

namespace Message

variable {f : Frame} {m : Message}

def ending : Option (List UInt8 × List Frame) → List Frame
  | none => []
  | some (block, tail) => ⟨0x01, block⟩ :: tail

def frames (m : Message) : List Frame := m.lead ++ ⟨0x01, m.block⟩ :: (m.content ++ ending m.trailer)

def dataOf (fs : List Frame) : List UInt8 := fs.flatMap fun f => if f.type = 0x00 then f.payload else []

theorem dataOf_cons_data (h : f.type = 0x00) (fs : List Frame) :
    dataOf (f :: fs) = f.payload ++ dataOf fs := by simp [dataOf, h]

theorem dataOf_cons_other (h : f.type ≠ 0x00) (fs : List Frame) : dataOf (f :: fs) = dataOf fs := by
  simp [dataOf, h]

def body (m : Message) : List UInt8 := dataOf m.content

/-- The content is DATA, and every other frame behind the header section is `other`. -/
structure Over (other : Nat → Bool) (m : Message) : Prop where
  content : ∀ f ∈ m.content, f.type = 0x00 ∨ other f.type = true
  tail : ∀ block tail, m.trailer = some (block, tail) → ∀ f ∈ tail, other f.type = true

theorem mem_ending {trailer : Option (List UInt8 × List Frame)} :
    f ∈ ending trailer ↔ ∃ block tail, trailer = some (block, tail) ∧ (f = ⟨0x01, block⟩ ∨ f ∈ tail) := by
  cases trailer with
  | none => exact ⟨nofun, nofun⟩
  | some p =>
    obtain ⟨block, tail⟩ := p
    simp [ending]

theorem mem_frames : f ∈ m.frames ↔ f ∈ m.lead ∨ f = ⟨0x01, m.block⟩ ∨ f ∈ m.content ∨ f ∈ ending m.trailer := by
  simp [frames]

/-- The section of a message is in the first HEADERS frame, if there is none before it. -/
theorem find_headers (h : ∀ f ∈ m.lead, f.type ≠ 0x01) :
    m.frames.find? (fun f => f.type == 0x01) = some ⟨0x01, m.block⟩ := by
  rw [frames, find?_append, find?_eq_none.2 fun f hf => by simpa using h f hf]
  rfl

/-- Whether a frame is PUSH_PROMISE is all that is between unknown and discarded. -/
theorem over_unknown_iff : m.Over isUnknown ↔
    m.Over isDiscarded ∧ ∀ f, f ∈ m.content ∨ f ∈ ending m.trailer → f.type ≠ 0x05 := by
  constructor
  · intro h
    refine ⟨⟨fun f hf => (h.content f hf).imp_right fun hu => (isUnknown_iff.1 hu).1,
      fun block tail ht f hf => (isUnknown_iff.1 (h.tail block tail ht f hf)).1⟩, fun f hf => ?_⟩
    obtain hf | hf := hf
    · obtain h0 | hu := h.content f hf
      · rw [h0]
        decide
      · exact (isUnknown_iff.1 hu).2
    · obtain ⟨block, tail, ht, rfl | hf⟩ := mem_ending.1 hf
      · exact (by decide : (0x01 : Nat) ≠ 0x05)
      · exact (isUnknown_iff.1 (h.tail block tail ht f hf)).2
  · rintro ⟨h, hne⟩
    refine ⟨fun f hf => (h.content f hf).imp_right fun hd => isUnknown_iff.2 ⟨hd, hne f (.inl hf)⟩,
      fun block tail ht f hf => isUnknown_iff.2 ⟨h.tail block tail ht f hf, hne f (.inr ?_)⟩⟩
    exact mem_ending.2 ⟨block, tail, ht, .inr hf⟩

end Message

/-- HEADERS, and the type of a frame. -/
def cutHeader : Source UInt8 := ⟨[[0x01, 0x01, 0xaa], [0x00]], by decide⟩

end Mach.H3
