import Mach.H2.Frame
import Mach.Lib.Run
/-!
# Writing frames

`FrameHeader.WriteTo` puts nine octets in front of a payload, three of them for
its length. What a peer has to accept of such frames depends on the
SETTINGS_MAX_FRAME_SIZE in force when they are written: its last value that was
acknowledged, or one it has sent since then. A header block that is larger has to
go out in several frames.
-/

namespace Mach.H2
open Lib List

/-- A frame as `WriteTo` takes it. -/
structure OutFrame where
  kind : UInt8
  flags : UInt8
  stream : Nat
  payload : List UInt8
  deriving DecidableEq, Repr

namespace OutFrame

/-- `parseHeader` on the header's nine octets. -/
def rawHeader (f : OutFrame) : List UInt8 :=
  beBytes 3 f.payload.length ++ [f.kind, f.flags] ++ beBytes 4 f.stream

def writeTo (f : OutFrame) : List UInt8 := f.rawHeader ++ f.payload

/-- The length, as the peer reads it. -/
def lengthField (f : OutFrame) : Nat := beNat (f.writeTo.take 3)

def isEndHeaders (f : OutFrame) : Bool := f.flags &&& 0x4 != 0

theorem lengthField_eq (f : OutFrame) : f.lengthField = f.payload.length % 2 ^ 24 := by
  have htake : f.writeTo.take 3 = beBytes 3 f.payload.length := by
    rw [writeTo, rawHeader, append_assoc, append_assoc]
    exact take_left' (beBytes_length 3 _)
  rw [lengthField, htake, beNat_beBytes]
  rfl

/-- A frame the peer can take: within the limit, and with its length in the header. -/
structure Fits (max : Nat) (f : OutFrame) : Prop where
  le : f.payload.length ≤ max
  length : f.lengthField = f.payload.length

theorem fits_iff {max : Nat} {f : OutFrame} (h : f.payload.length < 2 ^ 24) : Fits max f ↔ f.payload.length ≤ max :=
  ⟨Fits.le, fun hle => ⟨hle, by rw [lengthField_eq, Nat.mod_eq_of_lt h]⟩⟩

end OutFrame

/-- The frames a header block has to go out in: a HEADERS frame and CONTINUATION frames on its stream, the last one
with END_HEADERS. -/
structure SentAs (max : Nat) (block : List UInt8) (frames : List OutFrame) : Prop where
  fits : ∀ f ∈ frames, f.Fits max
  headers : ∃ f rest, frames = f :: rest ∧ f.kind = 0x1 ∧ ∀ g ∈ rest, g.kind = 0x9 ∧ g.stream = f.stream
  endHeaders : ∀ init f, frames = init ++ [f] → f.isEndHeaders = true ∧ ∀ g ∈ init, g.isEndHeaders = false
  whole : frames.flatMap OutFrame.payload = block

theorem sentAs_single_iff {max : Nat} {f : OutFrame} (hkind : f.kind = 0x1) (hend : f.isEndHeaders = true)
    (hmax : max < 2 ^ 24) : SentAs max f.payload [f] ↔ f.payload.length ≤ max := by
  constructor
  · intro h
    exact (h.fits f (mem_singleton_self f)).le
  · intro hle
    refine ⟨?_, ⟨f, [], rfl, hkind, nofun⟩, ?_, by simp⟩
    · intro g hg
      rw [mem_singleton.1 hg]
      exact (OutFrame.fits_iff (by omega)).2 hle
    · intro init g heq
      obtain ⟨hinit, hg⟩ := append_inj' (show [] ++ [f] = init ++ [g] from heq) rfl
      obtain rfl := head_eq_of_cons_eq hg
      rw [← hinit]
      exact ⟨hend, nofun⟩

/-! ## The limit in force -/

/-- What an endpoint knows of the peer's SETTINGS_MAX_FRAME_SIZE. -/
structure Limit where
  /-- The value that was acknowledged last. -/
  acked : Nat := 16384
  /-- The values in SETTINGS frames that are not acknowledged yet. -/
  pending : List (List Nat) := []
  /-- SETTINGS were refused. -/
  refused : Bool := false
  deriving DecidableEq, Repr

/-- The smallest limit a peer can set is 2^14, the largest 2^24-1. -/
def InRange (v : Nat) : Prop := 16384 ≤ v ∧ v < 2 ^ 24

theorem inRange_default : InRange 16384 := ⟨Nat.le_refl _, by decide⟩

theorem inRange_getLastD {values : List Nat} (h : ∀ v ∈ values, InRange v) : InRange (values.getLastD 16384) := by
  obtain heq | hmem := mem_cons.1 (@getLastD_mem_cons Nat values 16384)
  · rw [heq]
    exact inRange_default
  · exact h _ hmem

/-- The values of SETTINGS_MAX_FRAME_SIZE in a payload. -/
def frameSizes (payload : List UInt8) : List Nat :=
  (params payload).filterMap fun p => if p.1 = 0x5 then some p.2 else none

theorem frameSizes_cons (a b c d e f : UInt8) (rest : List UInt8) :
    frameSizes (a :: b :: c :: d :: e :: f :: rest) =
      if beNat [a, b] = 0x5 then beNat [c, d, e, f] :: frameSizes rest else frameSizes rest := by
  rw [frameSizes, params, filterMap_cons]
  by_cases h : beNat [a, b] = 0x5
  · rw [if_pos h, if_pos h]
    rfl
  · rw [if_neg h, if_neg h]
    rfl

inductive Source where
  | control | response | request | tunnel
  deriving DecidableEq, Repr

/-- What passes between an endpoint and its peer, as far as frame sizes go. -/
inductive Wire where
  /-- SETTINGS of the peer, with these values of SETTINGS_MAX_FRAME_SIZE. -/
  | settings (values : List Nat)
  /-- The acknowledgement of the oldest SETTINGS is written. -/
  | ack
  /-- GOAWAY is written: SETTINGS that are not acknowledged never take effect. -/
  | goAway
  /-- A header block is written in these frames. -/
  | headers (block : List UInt8) (frames : List OutFrame)
  | frame (source : Source) (f : OutFrame)
  deriving DecidableEq, Repr

namespace Limit

variable {P : Limit → Wire → Prop} {tr : List Wire} {l : Limit} {v : Nat}

def advertised (l : Limit) : List Nat := l.acked :: l.pending.flatten

/-- The largest payload the peer has to accept. -/
def allowed (l : Limit) : Nat := l.advertised.foldl max 0

def next (l : Limit) : Wire → Limit
  | .settings values => { l with pending := l.pending ++ [values] }
  | .ack =>
    match l.pending with
    | [] => l
    | values :: pending => { l with acked := values.getLastD l.acked, pending }
  | .goAway => { l with pending := [], refused := l.refused || !l.pending.isEmpty }
  | _ => l

def after (l : Limit) (tr : List Wire) : Limit := tr.foldl next l

/-- Every event meets `P` under the limit it happens at. -/
def Throughout (P : Limit → Wire → Prop) : Limit → List Wire → Prop
  | _, [] => True
  | l, w :: tr => P l w ∧ Throughout P (l.next w) tr

/-- What is written is something the peer has to accept. -/
def Accepts (l : Limit) : Wire → Prop
  | .headers block frames => SentAs l.allowed block frames
  | .frame _ f => f.Fits l.allowed
  | _ => True

/-- Header blocks within the limit, and DATA where the limit may not be the one the writer knew: of a tunnel, whose
frames are cut before the lock is taken, and of a response after SETTINGS that were refused half-way. -/
def Fitting (l : Limit) : Wire → Prop
  | .headers block _ => block.length ≤ l.allowed
  | .frame .tunnel f => f.payload.length ≤ l.allowed
  | .frame .response f => l.refused = true → f.payload.length ≤ l.allowed
  | _ => True

instance (l : Limit) : DecidablePred l.Fitting
  | .headers block _ => inferInstanceAs (Decidable (block.length ≤ l.allowed))
  | .frame .tunnel f => inferInstanceAs (Decidable (f.payload.length ≤ l.allowed))
  | .frame .response f => inferInstanceAs (Decidable (l.refused = true → f.payload.length ≤ l.allowed))
  | .frame .control _ | .frame .request _ | .settings _ | .ack | .goAway => isTrue trivial

instance decidableThroughout {P : Limit → Wire → Prop} [∀ l, DecidablePred (P l)] :
    (l : Limit) → (tr : List Wire) → Decidable (Throughout P l tr)
  | _, [] => isTrue trivial
  | l, w :: tr =>
    have : Decidable (Throughout P (l.next w) tr) := decidableThroughout (l.next w) tr
    inferInstanceAs (Decidable (P l w ∧ Throughout P (l.next w) tr))

theorem after_append (l : Limit) (tr tr' : List Wire) : l.after (tr ++ tr') = (l.after tr).after tr' :=
  foldl_append

theorem throughout_append (l : Limit) (tr tr' : List Wire) :
    Throughout P l (tr ++ tr') ↔ Throughout P l tr ∧ Throughout P (l.after tr) tr' := by
  induction tr generalizing l with
  | nil => simp [Throughout, after]
  | cons w tr ih =>
    rw [cons_append, Throughout, Throughout, ih, and_assoc]
    rfl

theorem after_steady (h : ∀ w ∈ tr, l.next w = l) : l.after tr = l := by
  induction tr with
  | nil => rfl
  | cons w tr ih =>
    change (l.next w).after tr = l
    rw [h w mem_cons_self, ih fun x hx => h x (mem_cons_of_mem w hx)]

theorem throughout_steady (h : ∀ w ∈ tr, l.next w = l) : Throughout P l tr ↔ ∀ w ∈ tr, P l w := by
  induction tr with
  | nil => simp [Throughout]
  | cons w tr ih =>
    rw [Throughout, h w mem_cons_self, ih fun x hx => h x (mem_cons_of_mem w hx), forall_mem_cons]

theorem le_foldl_max (l : List Nat) (m : Nat) : m ≤ l.foldl max m ∧ ∀ v ∈ l, v ≤ l.foldl max m := by
  induction l generalizing m with
  | nil => simp
  | cons x l ih =>
    obtain ⟨hm, hl⟩ := ih (max m x)
    refine ⟨(Nat.le_max_left m x).trans hm, fun v hv => ?_⟩
    obtain rfl | hv := mem_cons.1 hv
    · exact (Nat.le_max_right m v).trans hm
    · exact hl v hv

theorem le_allowed (h : v ∈ l.advertised) : v ≤ l.allowed := (le_foldl_max _ 0).2 v h

theorem foldl_max_lt {l : List Nat} {m n : Nat} (hm : m < n) (hl : ∀ v ∈ l, v < n) : l.foldl max m < n := by
  induction l generalizing m with
  | nil => exact hm
  | cons x l ih =>
    exact ih (Nat.max_lt.2 ⟨hm, hl x mem_cons_self⟩) fun v hv => hl v (mem_cons_of_mem x hv)

theorem allowed_lt (h : ∀ v ∈ l.advertised, InRange v) : l.allowed < 2 ^ 24 :=
  foldl_max_lt (by decide) fun v hv => (h v hv).2

def latest (l : Limit) : Nat := l.pending.flatten.getLastD l.acked

theorem latest_mem (l : Limit) : l.latest ∈ l.advertised := getLastD_mem_cons

attribute [local simp] next in
theorem advertised_settings (l : Limit) (values : List Nat) :
    (l.next (.settings values)).advertised = l.advertised ++ values := by
  simp [advertised]

theorem allowed_settings (l : Limit) (values : List Nat) : l.allowed ≤ (l.next (.settings values)).allowed := by
  rw [allowed, allowed, advertised_settings, foldl_append]
  exact (le_foldl_max values _).1

theorem getLastD_append (a b : List Nat) (d : Nat) : (a ++ b).getLastD d = b.getLastD (a.getLastD d) := by
  simp [getLastD_eq_getLast?]

theorem latest_settings (l : Limit) (values : List Nat) :
    (l.next (.settings values)).latest = values.getLastD l.latest := by
  simp only [next, latest, flatten_append, flatten_cons, flatten_nil, append_nil, getLastD_append]

theorem latest_ack (l : Limit) : (l.next .ack).latest = l.latest := by
  obtain ⟨acked, _ | ⟨values, pending⟩, refused⟩ := l
  · rfl
  · simp only [next, latest, flatten_cons, getLastD_append]

theorem mem_advertised_ack (h : v ∈ (l.next .ack).advertised) : v ∈ l.advertised := by
  obtain ⟨acked, _ | ⟨values, pending⟩, refused⟩ := l
  · exact h
  · simp only [next, advertised, flatten_cons, mem_cons, mem_append] at h ⊢
    obtain rfl | hv := h
    · exact (mem_cons.1 getLastD_mem_cons).imp_right .inl
    · exact .inr (.inr hv)

end Limit

end Mach.H2
