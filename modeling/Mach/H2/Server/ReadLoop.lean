import Mach.H2.Frame
import Mach.Lib.Source
/-!
# The server's read loop

`Serve` looks for the preface of a connection and then runs the read loop, which
fills a buffer, hands it to `StateMachine.Feed` and keeps what `Feed` left. What
the callbacks are should depend on the stream only, not on how it was cut into
reads. For the loop this is so, whatever the handler is; `ReadPreface`, though,
reads once, and a preface that comes in two pieces is refused.
-/

namespace Mach.H2.Server
open Lib Headkit List Option

variable {data : List UInt8} {conn conn' : Lib.Source UInt8}

/-! ## Feed -/

/-- `Frame.Length` of the overlay. -/
def payloadLength (data : List UInt8) : Nat := beNat (data.take 3)

theorem payloadLength_lt (data : List UInt8) : payloadLength data < 2 ^ 24 := by
  have h := beNat_lt (data.take 3)
  have hlen : (data.take 3).length ≤ 3 := length_take_le 3 data
  calc payloadLength data < 256 ^ (data.take 3).length := h
    _ ≤ 256 ^ 3 := Nat.pow_le_pow_right (by decide) hlen
    _ = 2 ^ 24 := by decide

/-- The frame at the front of the data, if it is there as a whole, and its length. -/
def nextFrame (data : List UInt8) : Option (Frame × Nat) :=
  if 9 ≤ data.length ∧ 9 + payloadLength data ≤ data.length then
    some ({
      type := data.getD 3 0
      flags := data.getD 4 0
      streamID := beNat ((data.drop 5).take 4) % 2 ^ 31
      payload := (data.drop 9).take (payloadLength data)
      streamID_lt := Nat.mod_lt _ (by decide)
      length_lt := lt_of_le_of_lt (List.length_take_le _ _) (payloadLength_lt data) }, 9 + payloadLength data)
  else none

theorem payloadLength_append (h : 3 ≤ data.length) (e : List UInt8) :
    payloadLength (data ++ e) = payloadLength data := by
  rw [payloadLength, take_append_of_le_length h, payloadLength]

theorem nextFrame_append {f : Frame} {n : Nat} (e : List UInt8) (h : nextFrame data = some (f, n)) :
    nextFrame (data ++ e) = some (f, n) := by
  unfold nextFrame at h
  split at h
  · rename_i hlen
    have hp := payloadLength_append (by omega : 3 ≤ data.length) e
    have hlen' : 9 ≤ (data ++ e).length ∧ 9 + payloadLength (data ++ e) ≤ (data ++ e).length := by
      rw [hp, length_append]
      omega
    rw [← h, nextFrame, if_pos hlen']
    have hdrop : (data.drop 5).length ≥ 4 := by rw [length_drop]; omega
    have hpay : (data.drop 9).length ≥ payloadLength data := by rw [length_drop]; omega
    simp only [Option.some.injEq, Prod.mk.injEq, Frame.mk.injEq, hp, and_true]
    refine ⟨?_, ?_, ?_, ?_⟩
    · rw [getD_append _ _ _ _ (by omega)]
    · rw [getD_append _ _ _ _ (by omega)]
    · rw [drop_append_of_le_length (by omega), take_append_of_le_length hdrop]
    · rw [drop_append_of_le_length (by omega), take_append_of_le_length hpay]
  · cases h

def framer : Framer UInt8 Frame where
  next := nextFrame
  pos h := by
    unfold nextFrame at h
    split at h
    · cases h
      omega
    · cases h
  le h := by
    unfold nextFrame at h
    split at h
    · rename_i hlen
      cases h
      exact hlen.2
    · cases h
  ext := nextFrame_append

/-- `StateMachine.Feed`: the callbacks it makes, and the number of octets consumed. -/
def feed (data : List UInt8) : List Event × Nat :=
  let (frames, rest) := framer.feed data.length data
  (frames.filterMap Frame.event, data.length - rest.length)

/-! ## Serve -/

def http2Preface : List UInt8 := ascii "PRI * HTTP/2.0\r\n\r\nSM\r\n\r\n"

/-- `ReadPreface`: a single read. -/
def readPreface (conn : Lib.Source UInt8) : Option (Lib.Source UInt8) :=
  match conn.read http2Preface.length with
  | none => none
  | some (b, conn) => if b = http2Preface then some conn else none

/-- `readLoop` with the callbacks made so far. `closed` says after which callbacks the connection is closed, `size` is
the length of `readBuf` and `buffered` what is in it. `fuel` bounds the rounds: each reads an octet at least. -/
def readLoop (closed : List Event → Bool) : Nat → Nat → List UInt8 → Lib.Source UInt8 → List Event → List Event
  | 0, _, _, _, events => events
  | fuel + 1, size, buffered, conn, events =>
    if closed events then events
    else
      let size := if buffered.length = size then size * 2 else size
      match conn.read (size - buffered.length) with
      | none => events
      | some (b, conn) =>
        let (new, consumed) := feed (buffered ++ b)
        readLoop closed fuel size ((buffered ++ b).drop consumed) conn (events ++ new)

/-- `Serve`: the callbacks made, or `none` if the preface is refused. -/
def serve (closed : List Event → Bool) (conn : Lib.Source UInt8) : Option (List Event) :=
  (readPreface conn).map fun conn => readLoop closed (conn.stream.length + 1) 32768 [] conn []

/-! ## What the stream says -/

/-- The callbacks of the stream read frame by frame, or `none` if it does not start with the preface. -/
def parse (stream : List UInt8) : Option (List Event) :=
  if http2Preface <+: stream then some (feed (stream.drop http2Preface.length)).1 else none

/-- The callbacks up to the one that closes the connection. -/
def upTo (closed : List Event → Bool) : List Event → List Event → List Event
  | done, [] => done
  | done, e :: es => if closed done then done else upTo closed (done ++ [e]) es

theorem upTo_append {closed : List Event → Bool} {done es : List Event} (es' : List Event)
    (h : closed (done ++ es) = true) : upTo closed done (es ++ es') = upTo closed done es := by
  induction es generalizing done with
  | nil =>
    rw [append_nil] at h
    cases es' with
    | nil => rfl
    | cons e es' => simp [upTo, h]
  | cons e es ih =>
    rw [append_cons] at h
    simp [upTo, ih h]

theorem frames_feed (data : List UInt8) : ∃ frames,
    framer.Frames data frames (data.drop (feed data).2) ∧ (feed data).1 = frames.filterMap Frame.event := by
  have h := framer.frames_feed (Nat.le_refl data.length)
  refine ⟨_, ?_, rfl⟩
  change framer.Frames data _ (data.drop (data.length - (framer.feed data.length data).2.length))
  rw [← suffix_iff_eq_drop.1 h.suffix]
  exact h

theorem feed_append (data e : List UInt8) :
    (feed (data ++ e)).1 = (feed data).1 ++ (feed (data.drop (feed data).2 ++ e)).1 := by
  obtain ⟨fs, hfs, hev⟩ := frames_feed data
  obtain ⟨fs', hfs', hev'⟩ := frames_feed (data.drop (feed data).2 ++ e)
  obtain ⟨gs, hgs, hall⟩ := frames_feed (data ++ e)
  rw [hall, hev, hev', (hgs.unique (hfs.append hfs')).1, filterMap_append]

theorem feed_of_next_none (h : framer.next data = none) : (feed data).1 = [] := by
  obtain ⟨fs, hfs, hev⟩ := frames_feed data
  rw [hev, (hfs.unique (.nil h)).1]
  rfl

/-- The loop makes the callbacks of all that is buffered and still to come, as far as the connection is open. -/
theorem upTo_readLoop (closed : List Event → Bool) {fuel size : Nat} {buffered : List UInt8} {conn : Lib.Source UInt8}
    (events : List Event) (hsize : buffered.length ≤ size) (hpos : 0 < size) (hfuel : conn.stream.length < fuel)
    (hnext : framer.next buffered = none) :
    upTo closed [] (readLoop closed fuel size buffered conn events) =
      upTo closed [] (events ++ (feed (buffered ++ conn.stream)).1) := by
  induction fuel generalizing size buffered conn events with
  | zero => omega
  | succ fuel ih =>
    unfold readLoop
    split
    · rename_i hcl
      exact (upTo_append _ hcl).symm
    · extract_lets size'
      have hroom : buffered.length < size' := by
        simp only [size']
        split <;> omega
      split
      · rename_i hread
        rw [Lib.Source.stream_of_read_none hread, append_nil, feed_of_next_none hnext, append_nil]
      · rename_i b conn' hread
        have hlt := Lib.Source.length_stream_lt_of_read hread (by omega)
        have hle := Lib.Source.length_read_le hread
        obtain ⟨fs, hfs, -⟩ := frames_feed (buffered ++ b)
        have hrest := hfs.suffix.length_le
        rw [length_append] at hrest
        rw [ih _ (by omega) (by omega) (by omega) hfs.next_rest, Lib.Source.stream_of_read hread, ← append_assoc,
          feed_append (buffered ++ b), append_assoc]

/-! ## Segmentation -/

/-- The first read can take in the preface as a whole. -/
def PrefaceInOneRead (conn : Lib.Source UInt8) : Prop := http2Preface.length ≤ (conn.pieces.headD []).length

theorem stream_of_readPreface (h : readPreface conn = some conn') : conn.stream = http2Preface ++ conn'.stream := by
  unfold readPreface at h
  split at h
  · cases h
  rename_i b conn1 hread
  split at h
  · rename_i hb
    cases h
    rw [Lib.Source.stream_of_read hread, hb]
  · cases h

theorem prefaceInOneRead_of_readPreface (h : readPreface conn = some conn') : PrefaceInOneRead conn := by
  obtain ⟨_ | ⟨p, ps⟩, hne⟩ := conn
  · cases h
  simp only [readPreface, Lib.Source.read] at h
  split at h
  · rename_i hp
    change http2Preface.length ≤ p.length
    rw [← hp]
    exact length_take_le' _ _
  · cases h

theorem readPreface_isSome (hpre : http2Preface <+: conn.stream) (h : PrefaceInOneRead conn) :
    (readPreface conn).isSome := by
  obtain ⟨_ | ⟨p, ps⟩, hne⟩ := conn
  · have hpos : 0 < http2Preface.length := by decide
    exact absurd h (Nat.not_le.2 hpos)
  · have hp : http2Preface <+: p := prefix_of_prefix_length_le hpre (prefix_append p ps.flatten) h
    have htake : p.take http2Preface.length = http2Preface := (prefix_iff_eq_take.1 hp).symm
    simp [readPreface, Lib.Source.read, htake]

/-- Once the preface is read, the callbacks are those of the stream behind it. -/
theorem upTo_serve {closed : List Event → Bool} (h : readPreface conn = some conn') :
    (serve closed conn).map (upTo closed []) = (parse conn.stream).map (upTo closed []) := by
  have hs := stream_of_readPreface h
  have hloop := @upTo_readLoop closed (conn'.stream.length + 1) 32768 [] conn' [] (by decide) (by decide)
    (Nat.lt_succ_self _) rfl
  rw [serve, h, parse, hs, if_pos (prefix_append _ _), drop_left, map_some, map_some,
    map_some, hloop]
  rfl

/-- However a stream is cut, `Serve` decides on its preface and makes the callbacks that the stream says, exactly
unless it starts with a preface that does not come in one read. -/
theorem serve_eq_parse_iff (closed : List Event → Bool) (conn : Lib.Source UInt8) :
    (serve closed conn).map (upTo closed []) = (parse conn.stream).map (upTo closed []) ↔
      (http2Preface <+: conn.stream → PrefaceInOneRead conn) := by
  cases hread : readPreface conn with
  | some conn' =>
    refine ⟨fun _ _ => prefaceInOneRead_of_readPreface hread, fun _ => upTo_serve hread⟩
  | none =>
    have hserve : serve closed conn = none := by rw [serve, hread]; rfl
    rw [hserve, map_none, eq_comm, map_eq_none_iff]
    constructor
    · intro hparse hpre
      simp [parse, hpre] at hparse
    · intro h
      have hpre : ¬ http2Preface <+: conn.stream := by
        intro hpre
        have := readPreface_isSome hpre (h hpre)
        simp [hread] at this
      exact if_neg hpre

def splitPreface : Lib.Source UInt8 :=
  ⟨[http2Preface.take 10, http2Preface.drop 10], by decide⟩

theorem split_preface_refused : parse splitPreface.stream = some [] ∧ serve (fun _ => false) splitPreface = none := by
  decide +kernel

end Mach.H2.Server
