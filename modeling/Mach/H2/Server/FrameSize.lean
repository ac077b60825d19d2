import Mach.H2.FrameWriter
import Mach.H2.Server.Windows
/-!
# The frames a server writes

DATA frames are cut to the peer's frame size. A header block goes out in one
HEADERS frame, however long it is.
-/

namespace Mach.H2

def ErrorCode.toNat : ErrorCode → Nat
  | .noError => 0x0
  | .protocolError => 0x1
  | .internalError => 0x2
  | .flowControlError => 0x3
  | .settingsTimeoutError => 0x4
  | .streamClosedError => 0x5
  | .frameSizeError => 0x6
  | .refusedStreamError => 0x7
  | .streamCanceled => 0x8
  | .compressionError => 0x9
  | .connectionError => 0xa
  | .enhanceYourCalm => 0xb
  | .inadequateSecurity => 0xc
  | .http11Required => 0xd

end Mach.H2

namespace Mach.H2.Server
open Lib Hpack Headkit List ServerConn

variable {d : Dispatch} {hp : HPACK} {k v : List UInt8}

/-! ## The frames -/

/-- The HEADERS frame of `writeHeaders` and `writeResponse`. -/
def headersFrame (streamID : Nat) (block : List UInt8) (endStream : Bool) : OutFrame :=
  { kind := 0x1, flags := if endStream then 0x5 else 0x4, stream := streamID, payload := block }

def Out.wire : Out → List Wire
  | .settingsAck => [.ack]
  | .pingAck octets =>
    [.frame .control { kind := 0x6, flags := 0x1, stream := 0, payload := (octets ++ List.replicate 8 0).take 8 }]
  | .windowUpdate streamID increment =>
    [.frame .control { kind := 0x8, flags := 0, stream := streamID, payload := beBytes 4 increment }]
  | .rstStream streamID code =>
    [.frame .control { kind := 0x3, flags := 0, stream := streamID, payload := beBytes 4 code.toNat }]
  | .goAway lastStreamID code =>
    [.goAway, .frame .control
      { kind := 0x7, flags := 0, stream := 0, payload := beBytes 4 lastStreamID ++ beBytes 4 code.toNat }]
  | .headers streamID block endStream => [.headers block [headersFrame streamID block endStream]]
  | .data streamID payload endStream =>
    [.frame .response { kind := 0x0, flags := if endStream then 0x1 else 0, stream := streamID, payload }]

def Obs.wire : Obs → List Wire
  | .recv f => if f.type = 0x04 ∧ f.isAck = false then [.settings (frameSizes f.payload)] else []
  | .sent o => o.wire

def wires (tr : List Obs) : List Wire := tr.flatMap Obs.wire

theorem wires_append (tr tr' : List Obs) : wires (tr ++ tr') = wires tr ++ wires tr' := by simp [wires]

theorem wires_sent (out : List Out) : wires (out.map .sent) = out.flatMap Out.wire := by
  rw [wires, flatMap_map]
  rfl

/-! ## The invariant -/

/-- The frame size in use is in range, and the one in force unless SETTINGS were refused. -/
structure Sized (sc : ServerConn) (l : Limit) : Prop where
  pending : l.pending = []
  acked : InRange l.acked
  size : InRange sc.peerMaxFrameSize
  same : l.refused = false → sc.peerMaxFrameSize = l.acked

theorem Sized.allowed {sc : ServerConn} {l : Limit} (h : Sized sc l) : l.allowed = l.acked := by
  simp [Limit.allowed, Limit.advertised, h.pending]

/-- What a step writes is accepted exactly if it is fitting, and the invariant holds after it. -/
structure Sizes (sc' : ServerConn) (l : Limit) (ws : List Wire) : Prop where
  sized : Sized sc' (l.after ws)
  accepts : Limit.Throughout Limit.Accepts l ws ↔ Limit.Throughout Limit.Fitting l ws

variable {sc sc' : ServerConn} {l : Limit}

theorem size_applySetting {id val : Nat} (h : InRange sc.peerMaxFrameSize) :
    InRange (sc.applySetting id val).1.peerMaxFrameSize ∧ ((sc.applySetting id val).2 = none →
      (id = 0x5 → InRange val) ∧
        (sc.applySetting id val).1.peerMaxFrameSize = if id = 0x5 then val else sc.peerMaxFrameSize) := by
  unfold applySetting
  by_cases h5 : id = 5
  · subst h5
    simp only [show (5 : Nat) ≠ 1 by decide, show (5 : Nat) ≠ 2 by decide, show (5 : Nat) ≠ 4 by decide, if_false, if_true]
    split
    · exact ⟨h, nofun⟩
    · rename_i hval
      have hrange : InRange val := ⟨by omega, by omega⟩
      exact ⟨hrange, fun _ => ⟨fun _ => hrange, rfl⟩⟩
  · rw [if_neg h5, if_neg h5]
    have hkeep : ∀ (sc1 : ServerConn) (e : Option ErrorCode), sc1.peerMaxFrameSize = sc.peerMaxFrameSize →
        InRange (sc1, e).1.peerMaxFrameSize ∧ ((sc1, e).2 = none →
          (id = 5 → InRange val) ∧ (sc1, e).1.peerMaxFrameSize = sc.peerMaxFrameSize) :=
      fun sc1 e heq => ⟨heq ▸ h, fun _ => ⟨fun hid => absurd hid h5, heq⟩⟩
    split
    · exact hkeep _ _ rfl
    · split
      · exact hkeep _ _ rfl
      · split
        · split
          · exact hkeep _ _ rfl
          · exact hkeep _ _ rfl
        · exact hkeep _ _ rfl

/-- SETTINGS that are applied as a whole leave the last value they carry. -/
theorem size_applySettings {p : List UInt8} (h : InRange sc.peerMaxFrameSize) :
    InRange (sc.applySettings p).1.peerMaxFrameSize ∧ ((sc.applySettings p).2 = none →
      (sc.applySettings p).1.peerMaxFrameSize = (frameSizes p).getLastD sc.peerMaxFrameSize ∧
        ∀ v ∈ frameSizes p, InRange v) := by
  fun_induction applySettings sc p with
  | case1 sc a b c d e f rest sc1 code hone =>
    have hset := @size_applySetting sc (beNat [a, b]) (beNat [c, d, e, f]) h
    rw [hone] at hset
    exact ⟨hset.1, by simp⟩
  | case2 sc a b c d e f rest sc1 hone ih =>
    have hset := @size_applySetting sc (beNat [a, b]) (beNat [c, d, e, f]) h
    rw [hone] at hset
    obtain ⟨hrange, hlast⟩ := hset
    obtain ⟨hin, hlast⟩ := hlast rfl
    refine ⟨(ih hrange).1, fun hnone => ?_⟩
    obtain ⟨heq, hall⟩ := (ih hrange).2 hnone
    rw [frameSizes_cons, heq, hlast]
    by_cases h5 : beNat [a, b] = 5
    · rw [if_pos h5, if_pos h5, getLastD_cons]
      exact ⟨rfl, forall_mem_cons.2 ⟨hin h5, hall⟩⟩
    · rw [if_neg h5, if_neg h5]
      exact ⟨rfl, hall⟩
  | case3 p sc hshort =>
    have hnil : frameSizes p = [] := by
      rw [frameSizes, params]
      · rfl
      · exact hshort
    rw [hnil]
    exact ⟨h, fun _ => ⟨rfl, by simp⟩⟩

section Steps

variable (h : Sized sc l)
include h

theorem Sized.of_size (heq : sc'.peerMaxFrameSize = sc.peerMaxFrameSize) : Sized sc' l :=
  ⟨h.pending, h.acked, heq ▸ h.size, fun hr => heq.trans (h.same hr)⟩

theorem fits_control {f : OutFrame} (hlen : f.payload.length ≤ 8) : f.Fits l.allowed := by
  have hacked := h.acked.1
  rw [OutFrame.fits_iff (by omega), h.allowed]
  omega

/-! ## Responses -/

theorem maxChunk_eq : sc.maxChunk = sc.peerMaxFrameSize := by
  have hsize := h.size.1
  exact if_pos (by omega)

/-- A frame of a response leaves the limit alone, and is accepted exactly if it is fitting. -/
theorem accepts_response {o : Out} (ho : o.Of d sc.maxChunk) :
    ∀ w ∈ o.wire, l.next w = l ∧ (l.Accepts w ↔ l.Fitting w) := by
  have hmax := h.acked.2
  intro w hw
  cases o with
  | headers streamID block endStream =>
    rw [mem_singleton.1 hw]
    have hend : (headersFrame streamID block endStream).isEndHeaders = true := by
      cases endStream <;> simp only [headersFrame, OutFrame.isEndHeaders] <;> decide
    exact ⟨rfl, sentAs_single_iff rfl hend (h.allowed ▸ hmax)⟩
  | data streamID payload endStream =>
    rw [mem_singleton.1 hw]
    have hlen : payload.length ≤ sc.peerMaxFrameSize := maxChunk_eq h ▸ ho.2.2
    have hsize := h.size.2
    refine ⟨rfl, (OutFrame.fits_iff (by simp only; omega)).trans ⟨fun hle _ => hle, fun hfit => ?_⟩⟩
    cases href : l.refused with
    | true => exact hfit href
    | false => rw [h.allowed, ← h.same href]; exact hlen
  | _ => exact ho.elim

/-- Frames that leave the limit alone and are accepted exactly if they are fitting. -/
theorem sizes_steady {ws : List Wire} (heq : sc'.peerMaxFrameSize = sc.peerMaxFrameSize)
    (hall : ∀ w ∈ ws, l.next w = l ∧ (l.Accepts w ↔ l.Fitting w)) : Sizes sc' l ws := by
  have hsteady := fun w hw => (hall w hw).1
  refine ⟨?_, ?_⟩
  · rw [Limit.after_steady hsteady]
    exact h.of_size heq
  · rw [Limit.throughout_steady hsteady, Limit.throughout_steady hsteady]
    exact forall₂_congr fun w hw => (hall w hw).2

theorem sizes_response (heq : sc'.peerMaxFrameSize = sc.peerMaxFrameSize)
    {out : List Out} (hout : ∀ o ∈ out, o.Of d sc.maxChunk) : Sizes sc' l (out.flatMap Out.wire) := by
  have hall : ∀ w ∈ out.flatMap Out.wire, l.next w = l ∧ (l.Accepts w ↔ l.Fitting w) := by
    intro w hw
    obtain ⟨o, ho, hw⟩ := mem_flatMap.1 hw
    exact accepts_response h (hout o ho) w hw
  exact sizes_steady h heq hall

/-! ## Callbacks -/

/-- Control frames are small. With no SETTINGS waiting, GOAWAY leaves the limit alone too. -/
theorem sizes_control {e : Event} (hset : ∀ payload, e ≠ .settings payload false)
    {r : ServerConn × List Out} (hr : Replied sc e r) : Sizes r.1 l (r.2.flatMap Out.wire) := by
  have hframe : ∀ f : OutFrame, f.payload.length ≤ 8 →
      l.next (.frame .control f) = l ∧ (l.Accepts (.frame .control f) ↔ l.Fitting (.frame .control f)) :=
    fun f hf => ⟨rfl, iff_of_true (fits_control h hf) trivial⟩
  refine sizes_steady h (hr.peerMaxFrameSize hset) fun w hw => ?_
  obtain ⟨o, ho, hw⟩ := mem_flatMap.1 hw
  have hreply := hr.replies o ho
  cases o with
  | settingsAck => exact absurd hreply (not_exists.2 hset)
  | pingAck octets =>
    rw [mem_singleton.1 hw]
    exact hframe _ (length_take_le 8 _)
  | windowUpdate streamID increment =>
    rw [mem_singleton.1 hw]
    exact hframe _ (by simp)
  | rstStream streamID code =>
    rw [mem_singleton.1 hw]
    exact hframe _ (by simp)
  | goAway lastStreamID code =>
    obtain rfl | hw := mem_cons.1 hw
    · refine ⟨?_, Iff.rfl⟩
      obtain ⟨acked, pending, refused⟩ := l
      obtain rfl : pending = [] := h.pending
      simp [Limit.next]
    · rw [mem_singleton.1 hw]
      exact hframe _ (by simp)
  | _ => exact hreply.elim

theorem sizes_refused (values : List Nat) {sc1 : ServerConn} (hsize : InRange sc1.peerMaxFrameSize)
    (code : ErrorCode) :
    Sizes (sc1.closeWithGoAway code).1 l (.settings values :: (sc1.closeWithGoAway code).2.flatMap Out.wire) := by
  obtain ⟨acked, pending, refused⟩ := l
  obtain rfl : pending = [] := h.pending
  have hafter : Sized (sc1.closeWithGoAway code).1 ⟨acked, [], true⟩ := ⟨rfl, h.acked, hsize, nofun⟩
  have hlimit : (Limit.next ⟨acked, [] ++ [values], refused⟩ .goAway) = ⟨acked, [], true⟩ := by
    simp [Limit.next]
  refine ⟨?_, ?_⟩
  · change Sized _ (Limit.next ⟨acked, [] ++ [values], refused⟩ .goAway)
    rw [hlimit]
    exact hafter
  · simp only [closeWithGoAway, flatMap_cons, flatMap_nil, append_nil, Out.wire,
      Limit.Throughout, Limit.next]
    refine iff_of_true ⟨trivial, trivial, ?_, trivial⟩ ⟨trivial, trivial, trivial, trivial⟩
    change (Limit.next ⟨acked, [] ++ [values], refused⟩ .goAway).Accepts _
    rw [hlimit]
    exact fits_control hafter (by simp)

/-- SETTINGS are acknowledged, and are in force then, or refused with GOAWAY. -/
theorem sizes_onSettings (payload : List UInt8) :
    Sizes (sc.onSettings payload false).1 l
      (.settings (frameSizes payload) :: (sc.onSettings payload false).2.flatMap Out.wire) := by
  have hset := @size_applySettings sc payload h.size
  simp only [onSettings]
  split
  · exact sizes_refused h _ h.size _
  · rw [if_neg Bool.false_ne_true]
    split
    · exact sizes_refused h _ h.size _
    · generalize sc.applySettings payload = r at hset ⊢
      obtain ⟨sc1, _ | code⟩ := r
      · obtain ⟨hrange, hlast⟩ := hset
        obtain ⟨hlast, hall⟩ := hlast rfl
        obtain ⟨acked, pending, refused⟩ := l
        obtain rfl : pending = [] := h.pending
        refine ⟨⟨rfl, ?_, hrange, fun href => ?_⟩, iff_of_true ⟨trivial, trivial, trivial⟩ ⟨trivial, trivial, trivial⟩⟩
        · change InRange ((frameSizes payload).getLastD acked)
          obtain heq | hmem := mem_cons.1 (@getLastD_mem_cons Nat (frameSizes payload) acked)
          · rw [heq]
            exact h.acked
          · exact hall _ hmem
        · change sc1.peerMaxFrameSize = (frameSizes payload).getLastD acked
          rw [show acked = sc.peerMaxFrameSize from (h.same href).symm]
          exact hlast
      · exact sizes_refused h _ hset.1 code

theorem sizes_step {lab : Label} {o : List Obs} (hstep : step sc lab = some (sc', o)) :
    Sizes sc' l (wires o) := by
  cases lab with
  | recv f =>
    obtain ⟨rfl, rfl⟩ := Prod.mk.inj (Option.some.inj hstep)
    have hsplit : ∀ out : List Out, wires (.recv f :: out.map .sent) = (Obs.recv f).wire ++ out.flatMap Out.wire := by
      intro out
      rw [← wires_sent]
      rfl
    rw [hsplit]
    by_cases htype : f.type = 0x04
    · rw [Frame.event_settings htype]
      cases hack : f.isAck with
      | true =>
        rw [Obs.wire, if_neg (by simp [hack]), nil_append]
        exact sizes_control h (by simp) (sc.replied_handle (.settings f.payload true))
      | false =>
        rw [Obs.wire, if_pos ⟨htype, hack⟩]
        exact sizes_onSettings h f.payload
    · rw [Obs.wire, if_neg fun hand => htype hand.1, nil_append]
      cases hev : f.event with
      | none => exact sizes_steady h rfl (by simp)
      | some e =>
        exact sizes_control h (fun payload => Frame.event_ne_settings hev htype payload false) (sc.replied_handle e)
  | act i a =>
    simp only [step] at hstep
    split at hstep
    · cases hstep
    obtain ⟨r, hr, heq⟩ := Option.map_eq_some_iff.1 hstep
    obtain ⟨rfl, rfl⟩ := Prod.mk.inj heq
    obtain ⟨hsize, hout⟩ := of_act hr
    rw [wires_sent]
    exact sizes_response h hsize hout
  | close =>
    obtain ⟨rfl, rfl⟩ := Prod.mk.inj (Option.some.inj hstep)
    exact sizes_steady h rfl (by rintro _ ⟨⟩)

end Steps

/-- Whatever a server writes is something its peer has to accept, exactly as long as its header blocks are within the
limit, and DATA frames after SETTINGS that were refused. -/
theorem accepted_iff {b : Bool} {es : List Label} {tr : List Obs}
    (hr : run step (newServerConn b) es = some (sc, tr)) :
    Limit.Throughout Limit.Accepts {} (wires tr) ↔ Limit.Throughout Limit.Fitting {} (wires tr) := by
  have hinv := run_keeps (fun sc tr => Sizes sc {} (wires tr)) (fun sc tr lab sc' o hi hstep => ?_) ?_ hr
  · exact hinv.accepts
  · have hnext := sizes_step hi.sized hstep
    rw [wires_append]
    refine ⟨?_, ?_⟩
    · rw [Limit.after_append]
      exact hnext.sized
    · rw [Limit.throughout_append, Limit.throughout_append, hi.accepts, hnext.accepts]
  · exact ⟨⟨rfl, inRange_default, inRange_default, fun _ => rfl⟩, Iff.rfl⟩

/-! ## A header block that is larger than a frame -/

/-- What a response field with a name of its own adds to a block. -/
theorem length_appendHeaderField (hv : v.length < 2 ^ 58)
    (hfull : (hp.search ((({} : HeaderField).setKeyBytes k).setValueBytes v)).2 = false)
    (hcomp : hp.disableCompression = false) (hdue : hp.pendingTableSizeUpdate = false) (dst : List UInt8) :
    (huffmanEncodeFallback [] v).length ≤ (ServerConn.appendHeaderField (hp, dst) k v).2.length := by
  have hvalue : ((({} : HeaderField).setKeyBytes k).setValueBytes v).value = v := storedValue_eq v
  simp only [appendHeaderField, HPACK.appendHeader, HPACK.appendSizeUpdate, hdue, HPACK.appendField,
    hfull, hcomp, hvalue, show ((({} : HeaderField).setKeyBytes k).setValueBytes v).sensible = false from rfl,
    Bool.false_eq_true, if_false, true_or, if_true, Bool.not_false]
  rw [appendString_eq hv, stringBytes, if_pos rfl, length_append, length_append]
  omega

theorem serializeResponseHeaders_single {statusCode len : Nat} (hk : ServerConn.toLowerCopy k ∉
      [ascii "connection", ascii "transfer-encoding", ascii "keep-alive", ascii "upgrade"]) :
    ServerConn.serializeResponseHeaders hp statusCode [(k, [v])] (some len) =
      ServerConn.appendHeaderField (ServerConn.serializeResponseHeaders hp statusCode [] (some len))
        (ServerConn.toLowerCopy k) v := by
  simp only [serializeResponseHeaders, foldl_cons, foldl_nil, if_neg hk]

theorem step_respond_empty {i : Nat} (hd : sc.running[i]? = some d)
    (hr : d.responded = false) (ht : d.isTunnel = false) (statusCode : Nat)
    (headers : List (List UInt8 × List (List UInt8))) : ∃ sc',
      step sc (.act i (.respond ⟨statusCode, headers, []⟩)) = some (sc', [.sent (.headers d.id
        (ServerConn.serializeResponseHeaders sc.hpackEnc statusCode headers (some 0)).2 true)]) := by
  simp only [step, hd, act, hr, ht, Bool.false_eq_true, if_false, Option.map_some]
  exact ⟨_, rfl⟩

/-- A value of 16384 octets with codes of 13 bits. -/
def longValue : List UInt8 := List.replicate 16384 126

theorem length_longValue : longValue.length = 16384 := length_replicate

theorem codesLength_longValue : codesLength longValue = 16384 * 13 := by
  rw [codesLength, longValue, map_replicate, sum_replicate]
  rfl

theorem length_longBlock (hhp : hp = (newServerConn true).hpackEnc) :
    16384 < (ServerConn.serializeResponseHeaders hp 200 [(ascii "x-a", [longValue])] (some 0)).2.length := by
  have hstart : (serializeResponseHeaders hp 200 [] (some 0)).1 = hp := by
    rw [hhp]
    decide +kernel
  have hfield : (huffmanEncodeFallback [] longValue).length ≤
      (serializeResponseHeaders hp 200 [(ascii "x-a", [longValue])] (some 0)).2.length := by
    rw [serializeResponseHeaders_single (by decide +kernel)]
    generalize serializeResponseHeaders _ _ _ _ = p at hstart ⊢
    obtain ⟨_, dst⟩ := p
    obtain rfl := hstart
    obtain rfl := hhp
    exact length_appendHeaderField (by rw [length_longValue]; decide) (by decide +kernel) rfl rfl dst
  have hcodes := codesLength_le_huffmanEncodeFallback longValue
  rw [codesLength_longValue] at hcodes
  omega

end Mach.H2.Server
