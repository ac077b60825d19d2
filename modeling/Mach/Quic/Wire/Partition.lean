import Mach.Quic.Wire.FrameRoundTrip
import Mach.Quic.Wire.Total
/-!
# The frames of a payload are cut out of it

Every frame that is yielded takes a piece off the front of what is left of the
payload. Its data lies in that piece, the piece alone would have been read the
same, and the frame can be written and read again.
-/

namespace Mach.Quic.Wire

open Lib Parser List Frame Varint

variable {b e : List UInt8} {g f : Frame} {t : FrameType}

/-! ## The reads -/

/-- `Decode` gives at most `varint.Max`, and looks only at the bytes it takes. -/
theorem decode_front {v n : Nat} (h : Varint.decode b = .ok (v, n)) :
    v ≤ Varint.max ∧ ∀ r, Varint.decode (b.take n ++ r) = .ok (v, n) := by
  obtain ⟨first, l, s, rfl, htag, rfl, hval⟩ := decode_eq_ok_iff.1 h
  refine ⟨?_, fun r => ?_⟩
  · have hfirst : ∀ first : UInt8, (first &&& 0x3f).toNat ≤ 63 ∧ 1 <<< (first >>> 6).toNat ≤ 8 :=
      forall_byte (by decide +kernel)
    have hlow := Nat.mul_le_mul_right (256 ^ l.length) (hfirst first).1
    have hpow : 256 ^ l.length ≤ 256 ^ 7 := Nat.pow_le_pow_right (by decide) (by have := (hfirst first).2; omega)
    have hrest := beNat_lt l
    rw [← hval, Varint.max, beNat]
    omega
  · rw [take_succ_cons, take_left]
    exact decode_eq_ok_iff.2 ⟨first, l, r, rfl, htag, rfl, hval⟩

theorem parses_varint (e : WireError) : Parses (varint e) fun _ v => v ≤ Varint.max := by
  intro s v r hs
  unfold varint at hs
  split at hs
  · cases hs
  rename_i v' n hd
  cases hs
  have hlen := (decode_length hd).2
  obtain ⟨hv, hfront⟩ := decode_front hd
  refine ⟨s.take n, (take_append_drop n s).symm, hv, fun r' _ => ?_⟩
  rw [varint, hfront r']
  simp only [drop_left' (show (s.take n).length = n by simp; omega)]

theorem parses_slice (n : Nat) : Parses (slice n) fun e d => e = d ∧ d.length = n := parses_split n _

theorem parses_next : Parses next fun e x => e = [x] := by
  intro s x r hs
  cases s with
  | nil => cases hs
  | cons y s =>
    cases hs
    exact ⟨[x], rfl, rfl, fun _ _ => rfl⟩

theorem parses_sized (n : Nat) (e : WireError) : Parses (sized n e) fun e d => e = d ∧ d.length = n :=
  parses_need (parses_slice n) fun _ _ h => by rw [h.1, h.2]

/-! ## What a frame is after it was read -/

/-- The slices of a frame that point into the payload. -/
def Frame.slices (f : Frame) : List (List UInt8) :=
  [f.crypto.data, f.newToken.token, f.stream.data, f.newConnectionID.connID, f.connectionClose.reason, f.datagram.data]

/-- The type of a STREAM frame may have the OFF bit although the offset is zero;
otherwise it is the one that is written for the frame. -/
def StreamFrame.HasType (s : StreamFrame) (t : FrameType) : Prop :=
  t = s.typ.toNat ∨ s.offset = 0 ∧ t = s.typ.toNat + 4

/-- What holds of a frame that was read from `e`. -/
structure Frame.ReadFrom (e : List UInt8) (f : Frame) : Prop where
  slices : ∀ s ∈ f.slices, s <:+: e
  fits : f.Fits
  written : f.writtenType = some f.type ∨ (0x08 ≤ f.type ∧ f.type ≤ 0x0f) ∧ f.stream.HasType f.type
  ecn : f.type = .ack → f.ack.ecn = {}
  frameType : f.type = .connectionCloseApp → f.connectionClose.frameType = 0

theorem infix_behind {d : List UInt8} (pre : List UInt8) (h : d <:+: e) : d <:+: pre ++ e :=
  h.trans (suffix_append pre e).isInfix

theorem Frame.ReadFrom.behind (h : g.ReadFrom e) (pre : List UInt8) : g.ReadFrom (pre ++ e) :=
  { h with slices := fun s hs => infix_behind pre (h.slices s hs) }

theorem fits_of_integers (hi : ∀ v ∈ g.integers, v ≤ Varint.max)
    (ht : g.type ∉ [.padding, .newConnectionID, .ack, .ackECN]) : g.Fits where
  integers := hi
  padding h := absurd h (by simp_all)
  connID h := absurd h (by simp_all)
  ack h := by simp_all

/-- A frame other than PADDING, ACK, STREAM and NEW_CONNECTION_ID. -/
theorem readFrom_plain (hs : ∀ s ∈ g.slices, s <:+: e) (hi : ∀ v ∈ g.integers, v ≤ Varint.max)
    (hp : g.writtenType = some g.type ∧ g.type ∉ [.padding, .newConnectionID, .ack, .ackECN] ∧
      (g.type = .connectionCloseApp → g.connectionClose.frameType = 0)) : g.ReadFrom e where
  slices := hs
  fits := fits_of_integers hi hp.2.1
  written := .inl hp.1
  ecn h := absurd h (by simp_all)
  frameType := hp.2.2

/-! ## Frames of varints -/

theorem parses_one {mk : Nat → Frame} (h : ∀ a, a ≤ Varint.max → ∀ e, (mk a).ReadFrom e) :
    Parses (do let a ← varint truncated; return mk a : Parse Frame) Frame.ReadFrom :=
  (parses_varint _).bind fun _ a ha => parses_pure (h a ha _)

theorem parses_two {mk : Nat → Nat → Frame} (h : ∀ a b, a ≤ Varint.max → b ≤ Varint.max → ∀ e, (mk a b).ReadFrom e) :
    Parses (do let a ← varint truncated; let b ← varint truncated; return mk a b : Parse Frame) Frame.ReadFrom :=
  (parses_varint _).bind fun _ a ha => (parses_varint _).bind fun _ b hb => parses_pure (h a b ha hb _)

theorem parses_three {mk : Nat → Nat → Nat → Frame}
    (h : ∀ a b c, a ≤ Varint.max → b ≤ Varint.max → c ≤ Varint.max → ∀ e, (mk a b c).ReadFrom e) :
    Parses (do
      let a ← varint truncated
      let b ← varint truncated
      let c ← varint truncated
      return mk a b c : Parse Frame) Frame.ReadFrom :=
  (parses_varint _).bind fun _ a ha => (parses_varint _).bind fun _ b hb => (parses_varint _).bind fun _ c hc =>
    parses_pure (h a b c ha hb hc _)

attribute [local simp] slices reset in
theorem parses_varints (f : Frame) (ht : t ∈ varintTypes) : Parses (parseBody t f.reset) Frame.ReadFrom := by
  simp only [varintTypes, mem_cons, not_mem_nil, or_false] at ht
  rcases ht with rfl | rfl | rfl | rfl | rfl | rfl | rfl | rfl | rfl | rfl | rfl | rfl | rfl
  all_goals first
    | refine parses_three fun a b c ha hb hc e => ?_
    | refine parses_two fun a b ha hb e => ?_
    | refine parses_one fun a ha e => ?_
    | refine parses_pure ?_
  all_goals
    refine readFrom_plain ?_ ?_ (by simp [writtenType])
    · simp
    · simp_all [integers]

/-! ## Frames with data -/

theorem parses_counted {mk : List UInt8 → Frame} (h : ∀ d e, d.length ≤ Varint.max → d <:+: e → (mk d).ReadFrom e) :
    Parses (do let n ← varint truncated; let d ← sized n truncated; return mk d : Parse Frame) Frame.ReadFrom := by
  refine (parses_varint _).bind fun e1 n hn => (parses_sized n _).bind fun e2 d hd => parses_pure ?_
  obtain ⟨rfl, rfl⟩ := hd
  exact h e2 _ hn ⟨e1, [], by simp⟩

theorem parses_crypto (f : Frame) : Parses (parseBody .crypto f.reset) Frame.ReadFrom := by
  refine (parses_varint _).bind fun e1 o ho => (parses_counted fun d e hn hin => ?_).imp fun _ _ h => h.behind e1
  refine readFrom_plain ?_ ?_ (by simp [writtenType])
  · simpa [slices, reset] using hin
  · simp [integers, ho, hn]

theorem parses_newToken (f : Frame) : Parses (parseBody .newToken f.reset) Frame.ReadFrom := by
  refine parses_counted fun d e hn hin => ?_
  refine readFrom_plain ?_ ?_ (by simp [writtenType])
  · simpa [slices, reset] using hin
  · simp [integers, hn]

theorem parses_path (f : Frame) (ht : t = .pathChallenge ∨ t = .pathResponse) :
    Parses (parseBody t f.reset) Frame.ReadFrom := by
  rcases ht with rfl | rfl
  all_goals
    refine (parses_sized 8 _).bind fun e1 d hd => parses_pure ?_
    refine readFrom_plain ?_ ?_ (by simp [writtenType])
    · simp [slices, reset]
    · simp [integers]

theorem parses_connectionClose (f : Frame) (ht : t = .connectionCloseTransport ∨ t = .connectionCloseApp) :
    Parses (parseConnectionClose t f.reset) Frame.ReadFrom := by
  have hreason : ∀ c ft, c ≤ Varint.max → ft ≤ Varint.max → (t = .connectionCloseApp → ft = 0) →
      Parses (do
        let reasonLen ← varint truncated
        let reason ← sized reasonLen truncated
        return { f.reset with
          type := t
          connectionClose :=
            { isApplication := decide (t = .connectionCloseApp), errorCode := c, frameType := ft, reason } } : Parse Frame)
        Frame.ReadFrom := by
    intro c ft hc hft happ
    refine parses_counted fun d e hn hin => ?_
    refine readFrom_plain ?_ ?_ ⟨?_, ?_, happ⟩
    · simpa [slices, reset] using hin
    all_goals rcases ht with rfl | rfl <;> simp [integers, writtenType, hc, hft, hn]
  refine (parses_varint _).bind fun e1 c hc => ?_
  rcases ht with rfl | rfl
  · exact (parses_varint _).bind fun e2 ft hft =>
      (hreason c ft hc hft (by simp)).imp fun _ _ h => (h.behind e2).behind e1
  · exact (hreason c 0 hc (Nat.zero_le _) fun _ => rfl).imp fun _ _ h => h.behind e1

theorem parses_datagram (f : Frame) (ht : t = .datagram ∨ t = .datagramWithLen) :
    Parses (parseDatagram t f.reset) Frame.ReadFrom := by
  rcases ht with rfl | rfl
  · refine parses_rest.bind fun e1 d hd => parses_pure ?_
    subst hd
    refine readFrom_plain ?_ ?_ (by simp [writtenType])
    · simp [slices, reset]
    · simp [integers]
  · refine parses_counted fun d e hn hin => ?_
    refine readFrom_plain ?_ ?_ (by simp [writtenType])
    · simpa [slices, reset] using hin
    · simp [integers, hn]

theorem parses_newConnectionID (f : Frame) : Parses (parseNewConnectionID f.reset) Frame.ReadFrom := by
  -- what follows the sequence numbers: the length, the ID and the token
  have hid : ∀ seq ret, seq ≤ Varint.max → ret ≤ Varint.max →
      Parses (do
        need 1 (.error truncated)
        let cidLen ← next
        if cidLen.toNat < 1 ∨ cidLen.toNat > 20 then failWith truncated
        else
          need (cidLen.toNat + 16) (.error truncated)
          let connID ← slice cidLen.toNat
          let token ← slice 16
          return { f.reset with
            type := .newConnectionID
            newConnectionID :=
              { sequenceNumber := seq
                retirePriorTo := ret
                connID
                statelessResetToken := copyArray f.reset.newConnectionID.statelessResetToken token } } : Parse Frame)
        fun e g => e ≠ [] ∧ g.ReadFrom e := by
    intro seq ret hseq hret
    refine parses_need (parses_next.bind fun e1 x hx => parses_ite (fun _ => parses_fail _) fun hlen => ?_)
      fun e _ h => length_pos_iff.2 h.1
    subst hx
    refine Parses.imp (Q := fun e g => x.toNat + 16 ≤ e.length ∧ g.ReadFrom ([x] ++ e)) ?_
      fun e g h => ⟨by simp, h.2⟩
    refine parses_need ((parses_slice _).bind fun e2 d hd => (parses_slice 16).bind fun e3 token htok => parses_pure ?_)
      fun e _ h => h.1
    obtain ⟨rfl, hlen2⟩ := hd
    obtain ⟨rfl, hlen3⟩ := htok
    have hin : e2 <:+: [x] ++ (e2 ++ (e3 ++ [])) := ⟨[x], e3, by simp⟩
    refine ⟨by simp [hlen2, hlen3], ?_, ?_, ?_, ?_, ?_⟩
    · simpa [slices, reset] using hin
    · refine ⟨?_, ?_, fun _ => ?_, ?_⟩
      · simp [integers, hseq, hret]
      · simp
      · simp only [hlen2]; omega
      · simp
    · simp [writtenType]
    · simp
    · simp
  refine (parses_varint _).bind fun e1 seq hseq => (parses_varint _).bind fun e2 ret hret => ?_
  exact (hid seq ret hseq hret).imp fun _ _ h => (h.2.behind e2).behind e1

/-! ## STREAM frames -/

theorem parses_streamOffset (rawType : Nat) :
    Parses (parseStreamOffset rawType) fun _ o => o ≤ Varint.max ∧ (rawType &&& 0x04 = 0 → o = 0) := by
  refine parses_ite (fun h => (parses_varint _).imp fun _ o ho => ⟨ho, fun h0 => absurd h0 h⟩) fun _ => ?_
  exact parses_pure ⟨Nat.zero_le _, fun _ => rfl⟩

theorem parses_streamData (rawType : Nat) :
    Parses (parseStreamData rawType) fun e d => d <:+: e ∧ (rawType &&& 0x02 ≠ 0 → d.length ≤ Varint.max) := by
  refine parses_ite (fun _ => ?_) fun h => parses_rest.imp fun e d hd => ⟨hd ▸ infix_rfl, fun h' => absurd h' h⟩
  refine (parses_varint _).bind fun e1 n hn => (parses_sized n _).imp fun e2 d hd => ?_
  obtain ⟨rfl, rfl⟩ := hd
  exact ⟨(suffix_append e1 e2).isInfix, fun _ => hn⟩

section Stream

variable {t : Nat} (ht : 0x08 ≤ t ∧ t ≤ 0x0f)
include ht

theorem stream_types :
    t = 8 ∨ t = 9 ∨ t = 10 ∨ t = 11 ∨ t = 12 ∨ t = 13 ∨ t = 14 ∨ t = 15 := by
  omega

/-- The type the flags of a frame come from is the one that is written for them,
but for the OFF bit of the offset zero. -/
theorem hasType_of_flags {s : StreamFrame} (ho : t &&& 0x04 = 0 → s.offset = 0)
    (hfin : s.fin = decide (t &&& 0x01 ≠ 0)) (hlen : s.hasLen = decide (t &&& 0x02 ≠ 0)) : s.HasType t := by
  by_cases hz : s.offset = 0 <;>
    rcases stream_types ht with rfl | rfl | rfl | rfl | rfl | rfl | rfl | rfl <;>
      simp_all [StreamFrame.HasType, StreamFrame.typ] <;> decide

theorem stream_ne {u : Nat} (hu : ¬ (0x08 ≤ u ∧ u ≤ 0x0f)) : t ≠ u :=
  fun h => hu (h ▸ ht)

theorem stream_notMem {l : List Nat} (hl : ∀ u ∈ l, ¬ (0x08 ≤ u ∧ u ≤ 0x0f)) : t ∉ l :=
  fun h => hl t h ht

end Stream

theorem parses_stream (f : Frame) {rawType : Nat} (ht : 0x08 ≤ rawType ∧ rawType ≤ 0x0f) :
    Parses (parseStream rawType f.reset) Frame.ReadFrom := by
  refine (parses_varint _).bind fun e1 id hid => (parses_streamOffset _).bind fun e2 o ho =>
    (parses_streamData _).bind fun e3 d hd => parses_pure ?_
  have hin : d <:+: e1 ++ (e2 ++ (e3 ++ [])) := by
    rw [append_nil]
    exact infix_behind e1 (infix_behind e2 hd.1)
  obtain ⟨hint, -, -, -, -⟩ := stream_branches (f := { f.reset with
    type := rawType
    stream :=
      { streamID := id
        offset := o
        fin := decide (rawType &&& 0x01 ≠ 0)
        hasLen := decide (rawType &&& 0x02 ≠ 0)
        data := d } }) rfl ht
  refine ⟨?_, fits_of_integers ?_ (stream_notMem ht (by decide)), ?_, ?_, ?_⟩
  · simpa [slices, reset] using hin
  · intro v hv
    rw [hint] at hv
    simp only [cons_append, nil_append, mem_cons] at hv
    rcases hv with rfl | rfl | hv
    · exact hid
    · exact ho.1
    · split at hv
      · rename_i hlen
        obtain rfl := mem_singleton.1 hv
        exact hd.2 (by simpa using hlen)
      · cases hv
  · exact .inr ⟨ht, hasType_of_flags ht ho.2 rfl rfl⟩
  · exact fun h => absurd h (stream_ne ht (by decide))
  · exact fun h => absurd h (stream_ne ht (by decide))

/-! ## ACK frames -/

theorem parses_ackRanges (n : Nat) (a : AckFrame) : Parses (parseAckRanges n a) fun _ b =>
    ∃ rs : List AckRange, rs.length = n ∧ (∀ r ∈ rs, r.gap ≤ Varint.max ∧ r.length ≤ Varint.max) ∧ b = appendAll a rs := by
  induction n generalizing a with
  | zero => exact parses_pure ⟨[], rfl, forall_mem_nil _, rfl⟩
  | succ n ih =>
    refine (parses_varint _).bind fun _ gap hgap => (parses_varint _).bind fun _ length hlength => (ih _).imp ?_
    rintro - b ⟨rs, rfl, hrs, rfl⟩
    exact ⟨⟨gap, length⟩ :: rs, rfl, forall_mem_cons.2 ⟨⟨hgap, hlength⟩, hrs⟩, rfl⟩

theorem parses_ecn {b : AckFrame} (hb : b.hasECN = false ∧ b.ecn = {}) :
    Parses (parseECN t b) fun _ a => ∃ ecn : ECNCounts,
      (∀ v ∈ [ecn.ect0, ecn.ect1, ecn.ecnce], v ≤ Varint.max) ∧ (t = .ack → ecn = {}) ∧
      a = { b with hasECN := decide (t = .ackECN), ecn } := by
  refine parses_ite (fun h => ?_) fun h => parses_pure ⟨{}, by simp, fun _ => rfl, ?_⟩
  · subst h
    refine (parses_varint _).bind fun _ x hx => (parses_varint _).bind fun _ y hy => (parses_varint _).bind fun _ z hz =>
      parses_pure ⟨⟨x, y, z⟩, ?_, fun h => absurd h (by decide), rfl⟩
    simp [hx, hy, hz]
  · simp only [h, decide_false]
    rw [← hb.1, ← hb.2]

theorem parses_ack (f : Frame) (ht : t = .ack ∨ t = .ackECN) : Parses (parseAck t f.reset) Frame.ReadFrom := by
  refine (parses_varint _).bind fun _ largest hlargest => (parses_varint _).bind fun _ delay hdelay =>
    (parses_varint _).bind fun _ count hcount => (parses_varint _).bind fun _ first hfirst =>
    parses_ite (fun _ => parses_fail _) fun hle => ?_
  refine (parses_ackRanges _ _).bind fun _ b hb => ?_
  obtain ⟨rs, rfl, hrs, rfl⟩ := hb
  obtain ⟨h1, h2, h3, h4, h5⟩ := appendAll_fields
    { f.reset.ack with largestAcked := largest, ackDelay := delay, firstAckRange := first } rs
  obtain ⟨hpacked, hranges⟩ := appendAll_spec rs (show
    ({ f.reset.ack with largestAcked := largest, ackDelay := delay, firstAckRange := first } : AckFrame).Packed from
      ⟨Nat.zero_le _, fun _ => rfl⟩)
  generalize appendAll _ rs = a at h1 h2 h3 h4 h5 hpacked hranges ⊢
  refine (parses_ecn ⟨h4, h5⟩).bind fun _ c hc => parses_pure ?_
  obtain ⟨ecn, hecn, hzero, rfl⟩ := hc
  have hr : a.ranges = rs := hranges
  have hcnt : a.rangeCount = rs.length := by rw [← AckFrame.length_ranges hpacked.inline_le, hr]
  refine ⟨?_, ⟨?_, ?_, ?_, fun _ => ⟨?_, hpacked.inline_le⟩⟩, .inl ?_, ?_, ?_⟩
  · simp [slices, reset]
  · have hall : ∀ v ∈ [a.largestAcked, a.ackDelay, a.rangeCount, a.firstAckRange] ++
        (a.ranges.flatMap fun r => [r.gap, r.length]) ++ [ecn.ect0, ecn.ect1, ecn.ecnce], v ≤ Varint.max := by
      rw [h1, h2, h3, hcnt, hr]
      intro v hv
      simp only [mem_append, mem_flatMap] at hv
      rcases hv with (hv | ⟨r, hr, hv⟩) | hv
      · simp only [mem_cons, not_mem_nil, or_false] at hv
        rcases hv with rfl | rfl | rfl | rfl <;> assumption
      · simp only [mem_cons, not_mem_nil, or_false] at hv
        rcases hv with rfl | rfl
        · exact (hrs r hr).1
        · exact (hrs r hr).2
      · exact hecn v hv
    rcases ht with rfl | rfl <;> exact hall
  · rcases ht with rfl | rfl <;> simp
  · rcases ht with rfl | rfl <;> simp
  · simp only [h1, h3]; omega
  · rcases ht with rfl | rfl <;> simp [writtenType]
  · exact hzero
  · rcases ht with rfl | rfl <;> simp

/-! ## Any frame -/

theorem parses_body (f : Frame) (t : FrameType) (ht : ¬ (0x08 ≤ t ∧ t ≤ 0x0f)) :
    Parses (parseBody t f.reset) Frame.ReadFrom := by
  by_cases hv : t ∈ varintTypes
  · exact parses_varints f hv
  unfold parseBody
  split
  any_goals
    refine absurd ?_ hv
    decide
  · exact parses_ack f (.inl rfl)
  · exact parses_ack f (.inr rfl)
  · exact parses_crypto f
  · exact parses_newToken f
  · exact parses_newConnectionID f
  · exact parses_path f (t := .pathChallenge) (.inl rfl)
  · exact parses_path f (t := .pathResponse) (.inr rfl)
  · exact parses_connectionClose f (.inl rfl)
  · exact parses_connectionClose f (.inr rfl)
  · exact parses_datagram f (.inl rfl)
  · exact parses_datagram f (.inr rfl)
  · exact parses_fail _

theorem padRun_take (b : List UInt8) : padRun (b.take (padRun b)) = padRun b := by
  induction b with
  | nil => rfl
  | cons x b ih => by_cases hx : x = 0 <;> simp [padRun, hx, ih]

/-- The bytes a frame took, of which alone it would have been read as well. -/
theorem parseFrame_piece {r : List UInt8} (h : parseFrame f b = .ok (g, r)) :
    ∃ e, b = e ++ r ∧ parseFrame f e = .ok (g, []) ∧ g.ReadFrom e := by
  unfold parseFrame at h
  split at h
  · rename_i hhead
    cases h
    have hle := padRun_le b
    have hpos : 0 < padRun b := by
      cases b with
      | nil => cases hhead
      | cons x b => simp_all [padRun]
    have hrun := padRun_take b
    refine ⟨b.take (padRun b), (take_append_drop _ b).symm, ?_, ?_⟩
    · unfold parseFrame
      rw [if_pos (by rw [head?_take, if_neg (by omega), hhead]), parsePadding, hrun]
      simp
    · refine ⟨?_, ⟨?_, fun _ => hpos, by simp, by simp⟩, .inl ?_, by simp, by simp⟩
      · simp [slices, reset]
      · simp [integers]
      · simp [writtenType]
  · rename_i hhead
    have hall : Parses (do
        let rawType ← varint truncated
        if 0x08 ≤ rawType ∧ rawType ≤ 0x0f then parseStream rawType f.reset
        else parseBody rawType f.reset : Parse Frame) Frame.ReadFrom :=
      (parses_varint _).bind fun pre t _ => parses_ite
        (fun ht => (parses_stream f ht).imp fun e g hg => hg.behind pre)
        fun ht => (parses_body f t ht).imp fun e g hg => hg.behind pre
    obtain ⟨e, rfl, hread, halone⟩ := hall b g r h
    refine ⟨e, rfl, ?_, hread⟩
    have hnil := halone [] fun _ => rfl
    rw [append_nil] at hnil
    unfold parseFrame
    rw [if_neg ?_, hnil]
    intro h0
    cases e with
    | nil => cases h0
    | cons x e => exact hhead h0

/-! ## Written and read again -/

/-- The same type and contents. A STREAM frame of offset zero that came with the
OFF bit is written without it, and then the types differ in that bit. -/
def Frame.SameContents (f g : Frame) : Prop :=
  f.Same g ∨ (0x0c ≤ f.type ∧ f.type ≤ 0x0f) ∧ f.type = g.type + 4 ∧ f.stream.offset = 0 ∧ f.stream = g.stream

/-- `AppendFrame` writes the frame, and what it writes is read as that frame. -/
def Frame.Rewritten (g : Frame) : Prop :=
  ∃ w, appendFrame [] g = some w ∧ ∀ f, ∃ g', parseNextFrame w f = .ok (w.length, g') ∧ g.SameContents g'

/-- A frame that can be written is read again from what was written. -/
theorem parseNextFrame_written (hf : f.Fits) (hc : f.Coherent) :
    ∃ w, appendFrame [] f = some w ∧ ∀ g, ∃ g', parseNextFrame w g = .ok (w.length, g') ∧ f.Same g' := by
  obtain ⟨w, hw⟩ := codes_of_coherent hf hc
  refine ⟨w, hw.writes [], fun g => ?_⟩
  have hlast : f.MayPrecede [] := ⟨fun _ => by simp, fun _ => rfl⟩
  simpa only [append_nil] using parseNextFrame_codes hw hlast g

theorem rewritten_of_readFrom (h : g.ReadFrom e) : g.Rewritten := by
  -- a frame whose type is the one that is written
  have hsame : g.writtenType = some g.type → g.Rewritten := by
    intro hw
    obtain ⟨w, happ, hread⟩ := parseNextFrame_written h.fits ⟨hw, h.ecn, h.frameType⟩
    refine ⟨w, happ, fun f => ?_⟩
    obtain ⟨g', hg', hs⟩ := hread f
    exact ⟨g', hg', .inl hs⟩
  rcases h.written with hw | ⟨ht, hty⟩
  · exact hsame hw
  obtain ⟨hint, happ, hwt, -, -⟩ := stream_branches rfl ht
  rcases hty with hty | ⟨hz, hty⟩
  · exact hsame (by rw [hwt, ← hty])
  -- without the OFF bit
  obtain ⟨ht', -, -, -⟩ := typ_flags g.stream
  let c : Frame := { g with type := g.stream.typ.toNat }
  obtain ⟨hint', happ', hwt', -, hsame'⟩ := stream_branches (f := c) rfl ht'
  have hfits : c.Fits := by
    refine fits_of_integers (fun v hv => h.fits.integers v ?_) (stream_notMem ht' (by decide))
    rw [hint] at *
    rwa [hint'] at hv
  have hcoh : c.Coherent :=
    ⟨hwt', fun h => absurd h (stream_ne ht' (by decide)), fun h => absurd h (stream_ne ht' (by decide))⟩
  obtain ⟨w, hw, hread⟩ := parseNextFrame_written hfits hcoh
  refine ⟨w, by rw [happ, ← hw, happ'], fun f => ?_⟩
  obtain ⟨g', hg', hs⟩ := hread f
  obtain ⟨htype, hst⟩ : g.stream.typ.toNat = g'.type ∧ g.stream = g'.stream := (hsame' g').1 hs
  rw [htype] at hty ht'
  refine ⟨g', hg', .inr ⟨⟨?_, ht.2⟩, hty, hz, hst⟩⟩
  rw [hty]
  exact Nat.add_le_add_right ht'.1 4

example : ((parseNextFrame [0x0c, 0, 0, 9] {}).toOption.bind fun r => appendFrame [] r.2) = some [0x08, 0, 9] := by
  decide +kernel

/-! ## Whole payloads -/

/-- The pieces that the loop of `Frames` takes off the payload for the frames it
yields, and what is left of it at the end. -/
def consumedLoop : Nat → Frame → List UInt8 → List (List UInt8) × List UInt8
  | _, _, [] => ([], [])
  | 0, _, x :: payload => ([], x :: payload)
  | fuel + 1, f, x :: payload =>
    match parseNextFrame (x :: payload) f with
    | .error _ => ([], x :: payload)
    | .ok (n, f) =>
      let next := consumedLoop fuel f ((x :: payload).drop n)
      ((x :: payload).take n :: next.1, next.2)

def consumed (payload : List UInt8) : List (List UInt8) × List UInt8 := consumedLoop payload.length {} payload

/-- What holds of a yielded frame and its piece of the payload: the piece alone is
read as that frame, it contains the slices of the frame, and the frame can be
written and read again. -/
structure CutFrom (e : List UInt8) (g : Frame) : Prop where
  alone : ∃ f, parseNextFrame e f = .ok (e.length, g)
  slices : ∀ s ∈ g.slices, s <:+: e
  rewritten : g.Rewritten

/-- How the iteration ends when `left` is left and `last` was filled last. -/
def EndsAt (stop : Stop) (left : List UInt8) (last : Frame) : Prop :=
  stop = .done ∧ left = [] ∨ ∃ err, stop = .failed err ∧ left ≠ [] ∧ parseNextFrame left last = .error (.error err)

theorem parseNextFrame_no_panic (b : List UInt8) (f : Frame) : parseNextFrame b f ≠ .error .panic := by
  unfold parseNextFrame
  split
  · simp
  · split
    · rename_i e he
      intro h
      exact avoids_parseFrame f b (Nat.zero_le _) (he.trans (congrArg _ (Except.error.inj h)))
    · simp

/-- A success takes a piece of at least one byte off the front. -/
theorem parseNextFrame_ok {n : Nat} (h : parseNextFrame b f = .ok (n, g)) :
    0 < n ∧ n ≤ b.length ∧ CutFrom (b.take n) g := by
  unfold parseNextFrame at h
  split at h
  · cases h
  split at h
  · cases h
  rename_i g' r hp
  cases h
  have hlt := shrinks_parseFrame f b g r hp
  obtain ⟨e, rfl, halone, hread⟩ := parseFrame_piece hp
  rw [length_append] at hlt ⊢
  rw [Nat.add_sub_cancel, take_left' rfl]
  refine ⟨by omega, by omega, ⟨f, ?_⟩, hread.slices, rewritten_of_readFrom hread⟩
  have hne : e ≠ [] := by
    rintro rfl
    simp only [length_nil] at hlt
    omega
  rw [parseNextFrame, if_neg hne, halone]
  rfl

theorem consumedLoop_spec (fuel : Nat) (f : Frame) (payload : List UInt8) (h : payload.length ≤ fuel) :
    (consumedLoop fuel f payload).1.flatten ++ (consumedLoop fuel f payload).2 = payload ∧
    List.Forall₂ CutFrom (consumedLoop fuel f payload).1 (framesLoop fuel f payload).1 ∧
    EndsAt (framesLoop fuel f payload).2 (consumedLoop fuel f payload).2 ((framesLoop fuel f payload).1.getLastD f) := by
  induction fuel generalizing f payload with
  | zero =>
    obtain rfl : payload = [] := length_eq_zero_iff.1 (Nat.le_zero.1 h)
    exact ⟨rfl, .nil, .inl ⟨rfl, rfl⟩⟩
  | succ fuel ih =>
    cases payload with
    | nil => exact ⟨rfl, .nil, .inl ⟨rfl, rfl⟩⟩
    | cons x payload =>
      cases hp : parseNextFrame (x :: payload) f with
      | error e =>
        cases e with
        | panic => exact absurd hp (parseNextFrame_no_panic _ _)
        | error e =>
          simp only [consumedLoop, framesLoop, hp]
          exact ⟨rfl, .nil, .inr ⟨e, rfl, by simp, hp⟩⟩
      | ok ng =>
        obtain ⟨n, g⟩ := ng
        obtain ⟨hpos, hle, hcut⟩ := parseNextFrame_ok hp
        have hlen : ((x :: payload).drop n).length ≤ fuel := by
          rw [length_drop]
          simp only [length_cons] at h ⊢
          omega
        obtain ⟨h1, h2, h3⟩ := ih g _ hlen
        simp only [consumedLoop, framesLoop, hp]
        refine ⟨?_, .cons hcut h2, by rwa [getLastD_cons]⟩
        rw [flatten_cons, append_assoc, h1, take_append_drop]

/-- `ParseNextFrame` does not panic and takes at least one byte of those there
are. So the iteration over a payload ends; the pieces of the yielded frames make up
the payload, or what is before the first error; and every frame was cut out of its
piece and can be written and read again. -/
theorem frames_partition (payload : List UInt8) :
    (∀ b f, parseNextFrame b f ≠ .error .panic) ∧
    (∀ b f n g, parseNextFrame b f = .ok (n, g) → 0 < n ∧ n ≤ b.length) ∧
    (consumed payload).1.flatten ++ (consumed payload).2 = payload ∧
    List.Forall₂ CutFrom (consumed payload).1 (frames payload).1 ∧
    EndsAt (frames payload).2 (consumed payload).2 ((frames payload).1.getLastD {}) := by
  refine ⟨parseNextFrame_no_panic, fun b f n g h => ?_, consumedLoop_spec _ _ _ (Nat.le_refl _)⟩
  obtain ⟨hpos, hle, -⟩ := parseNextFrame_ok h
  exact ⟨hpos, hle⟩

end Mach.Quic.Wire
