import Mach.H2.Client.Cumulative
import Mach.H2.Server.FrameSize
/-!
# The frames a client writes

The write loop writes a request's header block in one HEADERS frame and its body
in DATA frames, and acknowledgements between requests. Callers of
`WriteTunnelData` write DATA frames besides it: they cut a frame to the peer's
frame size first and take the lock for writing it then. The machine here is the
connection's, with these writes as steps of their own.
-/

namespace Mach.H2.ClientConn
open Lib Hpack List Option

/-! ## Machine -/

/-- A call of `writeData` or `WriteTunnelData` in its loop. -/
structure Sender where
  ctx : Nat
  stream : Nat
  /-- The flags the frame header has from before. -/
  flags : UInt8
  /-- What is not written yet. -/
  rest : List UInt8
  endStream : Bool
  /-- The size of the next frame, where it is calculated. -/
  chunk : Option Nat := none
  deriving DecidableEq, Repr

structure Writing where
  conn : Conn
  /-- The acknowledgements in the channel `out`. -/
  acks : Nat := 0
  /-- The header block and the body of the request that is written. -/
  block : List UInt8 := []
  body : List UInt8 := []
  request : Option Sender := none
  tunnels : List Sender := []

inductive WriteLabel where
  /-- A step of the connection that writes no request. -/
  | conn (l : Label)
  /-- The write loop writes an acknowledgement. -/
  | ack
  /-- `writeRequest` encodes the fields of a request and opens its stream. -/
  | openStream (fields : List (HeaderField × Bool)) (body : List UInt8)
  /-- It writes the HEADERS frame; `ok` says whether a write succeeds. -/
  | headers (ok : Bool)
  /-- It finds the stream closed before the body. -/
  | skipBody
  | chunk
  | data (ok : Bool)
  /-- `WriteTunnelData` is called. -/
  | tunnel (r : Nat) (body : List UInt8) (endStream : Bool)
  | tunnelChunk (i : Nat)
  | tunnelData (i : Nat) (ok : Bool)
  deriving DecidableEq, Repr

/-- The fields of a header block, as `AppendHeaderField` appends them. -/
def encodeFields (enc : HPACK) (block : List UInt8) : List (HeaderField × Bool) → HPACK × List UInt8
  | [] => (enc, block)
  | (hf, store) :: fields =>
    let r := enc.appendHeader block hf store
    encodeFields r.1 r.2 fields

def Conn.calculateChunkSize (c : Conn) (r remaining : Nat) : Nat :=
  let maxFrame := if c.serverS.frameSize = 0 then 16384 else c.serverS.frameSize
  let win := min (c.ctxs r).streamWindow c.serverWindow
  if win ≤ 0 then 0 else min (min remaining win.toNat) maxFrame

/-- The loops' first check. -/
def Conn.gone (c : Conn) (r : Nat) : Bool := c.closed || (c.ctxs r).state == .streamClosed

def requestFrame (ctx : Context) (id : Nat) (block : List UInt8) : OutFrame where
  kind := 0x1
  flags := if ctx.hasBody = false ∧ ctx.isTunnel = false then 0x5 else 0x4
  stream := id
  payload := block

def Sender.frame (s : Sender) (n : Nat) : OutFrame where
  kind := 0x0
  flags := s.flags ||| if s.endStream && n == s.rest.length then 0x1 else 0
  stream := s.stream
  payload := s.rest.take n

/-- The call after a frame, or `none` where it returns. -/
def Sender.next (s : Sender) (n : Nat) : Option Sender :=
  if s.rest.drop n = [] then none else some { s with rest := s.rest.drop n, chunk := none }

/-- What the connection's windows are after `n` octets of DATA. -/
def Conn.spend (c : Conn) (r n : Nat) : Conn :=
  { c.setCtx r { c.ctxs r with streamWindow := (c.ctxs r).streamWindow - n } with serverWindow := c.serverWindow - n }

/-- SETTINGS that are handled, and so acknowledged. -/
def Obs.wire : Obs → List Wire
  | .recv f =>
    match f.body with
    | .ok (.settings st) => if st.ack then [] else [.settings (frameSizes f.payload)]
    | _ => []
  | _ => []

namespace Writing

/-- The end of `writeRequest` after a body. -/
def finish (w : Writing) (ok : Bool) : Option (Writing × List Wire) :=
  (w.conn.writeStep ok).map fun r => ({ w with conn := r.1, request := none }, [])

def step (w : Writing) : WriteLabel → Option (Writing × List Wire)
  | .conn l =>
    match l with
    | .writeStep _ | .encode _ _ | .sent _ _ => none
    | l =>
      (ClientConn.step w.conn l).map fun r =>
        let ws := r.2.flatMap Obs.wire
        ({ w with conn := r.1, acks := w.acks + ws.length }, ws)
  | .ack =>
    if w.acks = 0 ∨ w.conn.writer ≠ .idle then none else some ({ w with acks := w.acks - 1 }, [.ack])
  | .openStream fields body =>
    match w.conn.writer with
    | .opening r id =>
      if body.isEmpty = (w.conn.ctxs r).hasBody then none
      else
        let (enc, block) := encodeFields w.conn.enc [] fields
        some ({ w with conn := { w.conn with enc }.openRequest r id, block, body }, [])
    | _ => none
  | .headers ok =>
    match w.conn.writer with
    | .headers r id =>
      let ctx := w.conn.ctxs r
      let request := if ok = true ∧ ctx.hasBody = true then some ⟨r, id, 0x4, w.body, true, none⟩ else none
      (w.conn.writeStep ok).map fun p =>
        ({ w with conn := p.1, request }, if ok then [.headers w.block [requestFrame ctx id w.block]] else [])
    | _ => none
  | .skipBody =>
    match w.request with
    | some s => if s.rest = w.body ∧ s.chunk = none ∧ (w.conn.ctxs s.ctx).state = .streamClosed then w.finish true else none
    | none => none
  | .chunk =>
    match w.request with
    | some s =>
      if s.chunk ≠ none then none
      else if w.conn.gone s.ctx then w.finish false
      else
        let n := w.conn.calculateChunkSize s.ctx s.rest.length
        some ({ w with request := some { s with chunk := if n = 0 then none else some n } }, [])
    | none => none
  | .data ok =>
    match w.request with
    | some s =>
      match s.chunk with
      | none => none
      | some n =>
        if ok = false then w.finish false
        else
          let w' := { w with conn := w.conn.spend s.ctx n, request := s.next n }
          let frame := Wire.frame .request (s.frame n)
          if s.next n = none then (w'.finish true).map fun p => (p.1, [frame]) else some (w', [frame])
    | none => none
  | .tunnel r body endStream =>
    let stream := (w.conn.ctxs r).streamID
    if w.conn.gone r then none
    else if body = [] then
      some (w, if endStream then [.frame .tunnel { kind := 0x0, flags := 0x1, stream, payload := [] }] else [])
    else some ({ w with tunnels := w.tunnels ++ [⟨r, stream, 0, body, endStream, none⟩] }, [])
  | .tunnelChunk i =>
    match w.tunnels[i]? with
    | some s =>
      if s.chunk ≠ none then none
      else if w.conn.gone s.ctx then some ({ w with tunnels := w.tunnels.eraseIdx i }, [])
      else
        let n := w.conn.calculateChunkSize s.ctx s.rest.length
        some ({ w with tunnels := w.tunnels.set i { s with chunk := if n = 0 then none else some n } }, [])
    | none => none
  | .tunnelData i ok =>
    match w.tunnels[i]? with
    | some s =>
      match s.chunk with
      | none => none
      | some n =>
        if ok = false then some ({ w with tunnels := w.tunnels.eraseIdx i }, [])
        else
          let tunnels := match s.next n with
            | none => w.tunnels.eraseIdx i
            | some s => w.tunnels.set i s
          some ({ w with conn := w.conn.spend s.ctx n, tunnels }, [.frame .tunnel (s.frame n)])
    | none => none

end Writing

variable {st : Settings} {c c' : Conn} {out : List Obs} {r : Writing × List Wire} {ok : Bool}
  {st' : Settings} {payload body : List UInt8} {f : Frame} {q : Queue} {s : Sender} {n i : Nat}

/-! ## What the connection's steps do to the frame size -/

-- The lemmas below share these equations.
attribute [local simp] Writing.step in
theorem last_frameSizes (d : Nat) (payload : List UInt8) : last id 0x5 d (params payload) = (frameSizes payload).getLastD d := by
  unfold frameSizes
  induction params payload generalizing d with
  | nil => rfl
  | cons p ps ih =>
    change last id 0x5 (if p.1 = 0x5 then p.2 else d) ps = _
    rw [ih, filterMap_cons]
    by_cases hp : p.1 = 0x5
    · rw [if_pos hp, if_pos hp, getLastD_cons]
    · rw [if_neg hp, if_neg hp]

theorem inRange_applySetting {val : Nat} (h : st.applySetting 0x5 val = .ok st') : InRange val := by
  unfold Settings.applySetting at h
  simp only [show (0x5 : Nat) ≠ 0x1 by decide, show (0x5 : Nat) ≠ 0x2 by decide, show (0x5 : Nat) ≠ 0x3 by decide,
    show (0x5 : Nat) ≠ 0x4 by decide, if_false, if_true] at h
  split at h
  · cases h
  rename_i hval
  exact ⟨by omega, by omega⟩

theorem inRange_read (h : st.read payload = .ok st') : ∀ v ∈ frameSizes payload, InRange v := by
  induction st, payload using Settings.read.induct with
  | case1 st a b c d e f rest code happ => simp [Settings.read, happ] at h
  | case2 st a b c d e f rest st1 happ ih =>
    simp only [Settings.read, happ] at h
    rw [frameSizes_cons]
    split
    · rename_i h5
      rw [h5] at happ
      exact forall_mem_cons.2 ⟨inRange_applySetting happ, ih h⟩
    · exact ih h
  | case3 payload st hne =>
    rw [frameSizes, params]
    · simp
    · exact hne

theorem writer_received (h : Received c f q c' out) : c'.writer = c.writer := by
  cases h with
  | refused => rfl
  | quiet _ _ hq => exact hq.writer
  | rejected hq => exact hq.writer
  | stopped _ _ hq => exact hq.writer
  | settings _ _ hq => exact hq.writer
  | goAway _ hq => exact hq.writer
  | data _ hq => exact (hq.toKept.trans (kept_chargeConn _ _ _)).writer
  | found _ _ hq => exact hq.writer

theorem writer_read {r : Nat} {b : Body} {err : Option Err}
    (h : Read c f r q b c' err out) : c'.writer = c.writer := by
  cases h with
  | quiet hq => exact hq.writer
  | pushed _ hq => exact hq.writer
  | charged => exact ((kept_chargeStream _ _ _ _ _).trans (kept_chargeConn _ _ _)).writer
  | padding => exact (kept_chargeConn _ _ _).writer

/-- Any step but one of `writeRequest` leaves the write loop where it is, unless it takes a new request. -/
theorem writer_step {l : Label} (h : step c l = some (c', out))
    (hl : ∀ ok, l ≠ .writeStep ok) (hbusy : c.writer ≠ .idle) : c'.writer = c.writer := by
  cases stepped_step h with
  | write hidle => exact absurd hidle hbusy
  | opened | written | abandoned => exact absurd rfl (hl _)
  | cancel => exact (aside_cancel c _).writer
  | cancelStep => exact (aside_cancelStep c _).writer
  | recv hr => exact writer_received hr
  | read _ hread =>
    have hwriter := writer_read hread
    exact hwriter
  | settle => exact (aside_settle c _ _ _).writer
  | _ => rfl

theorem Mute.wire (h : Mute out) : out.flatMap Obs.wire = [] := by
  refine flatMap_eq_nil_iff.2 fun o ho => ?_
  cases o with
  | recv f =>
    simp only [Obs.wire]
    split
    · rename_i st hb
      rw [if_pos (h f ho st hb)]
    · rfl
  | _ => rfl

/-! ## The invariant -/

/-- The frame size in use is the last one the server sent, or the default; what the request's loop has cut off is within
the limit, since no acknowledgement is written while it runs. -/
structure Ready (w : Writing) (l : Limit) : Prop where
  wellFormed : WellFormed w.conn
  acks : w.acks = l.pending.length
  refused : l.refused = false
  range : ∀ v ∈ l.advertised, InRange v
  least : 16384 ≤ w.conn.serverS.frameSize
  size : w.conn.serverS.frameSize ≤ l.latest
  busy : ∀ s, w.request = some s → w.conn.writer ≠ .idle
  request : ∀ s n, w.request = some s → s.chunk = some n → n ≤ l.allowed
  tunnels : ∀ s n, s ∈ w.tunnels → s.chunk = some n → n < 2 ^ 24

/-- What a step writes is accepted exactly if it is fitting, and the invariant holds after it. -/
structure Readied (w' : Writing) (l : Limit) (ws : List Wire) : Prop where
  ready : Ready w' (l.after ws)
  accepts : Limit.Throughout Limit.Accepts l ws ↔ Limit.Throughout Limit.Fitting l ws

variable {w w' : Writing} {l : Limit}

theorem Ready.silent (h : Ready w' l) : Readied w' l [] := ⟨h, Iff.rfl⟩

theorem frameSize_read {st0 : Settings} (h : st0.read payload = .ok st) :
    st.frameSize = (frameSizes payload).getLastD st0.frameSize := by
  rw [Settings.read_eq h, ← last_frameSizes]
  rfl

theorem wellFormed_writeStep {p : Conn × List Obs} (hw : WellFormed c)
    (h : c.writeStep ok = some p) : WellFormed p.1 ∧ p.1.serverS = c.serverS := by
  have hstep : step c (.writeStep ok) = some p := h
  refine ⟨wellFormed_step hw hstep, ?_⟩
  cases configures_step hw hstep with
  | mute hserver => exact hserver
  | settings hl => cases hl

theorem wellFormed_spend (hw : WellFormed c) (r n : Nat) : WellFormed (c.spend r n) :=
  hw.kept (quiet_sent c r n).toKept

/-! ## The steps -/

theorem length_frame (s : Sender) (n : Nat) : (s.frame n).payload.length ≤ n := length_take_le n s.rest

theorem chunk_next {s' : Sender} (h : s.next n = some s') : s'.chunk = none := by
  unfold Sender.next at h
  split at h
  · cases h
  obtain rfl := Option.some.inj h
  rfl

/-- A DATA frame of a tunnel is accepted if the limit has not fallen below it since it was cut. -/
theorem accepts_tunnel {f : OutFrame} (hf : f.payload.length < 2 ^ 24) :
    Limit.Throughout Limit.Accepts l [.frame .tunnel f] ↔ Limit.Throughout Limit.Fitting l [.frame .tunnel f] :=
  and_congr_left' (OutFrame.fits_iff hf)

section Steps

variable (h : Ready w l)
include h

theorem Ready.calculateChunkSize_le (r remaining : Nat) :
    w.conn.calculateChunkSize r remaining ≤ l.allowed := by
  have hleast := h.least
  have hle : w.conn.serverS.frameSize ≤ l.allowed := h.size.trans (Limit.le_allowed l.latest_mem)
  simp only [Conn.calculateChunkSize]
  split
  · exact Nat.zero_le _
  · rw [if_neg (by omega)]
    exact (Nat.min_le_right _ _).trans hle

theorem readied_conn {lab : Label} {r : Conn × List Obs} (hlab : ∀ ok, lab ≠ .writeStep ok)
    (hstep : step w.conn lab = some r) :
    Readied { w with conn := r.1, acks := w.acks + (r.2.flatMap Obs.wire).length } l (r.2.flatMap Obs.wire) := by
  obtain ⟨c', out⟩ := r
  have hw := wellFormed_step h.wellFormed hstep
  have hbusy : ∀ s, w.request = some s → c'.writer ≠ .idle := fun s hs =>
    (writer_step hstep hlab (h.busy s hs)) ▸ h.busy s hs
  cases configures_step h.wellFormed hstep with
  | mute hserver _ hm =>
    simp only [hm.wire]
    exact Ready.silent { h with
      wellFormed := hw
      least := hserver ▸ h.least
      size := hserver ▸ h.size
      busy := hbusy }
  | @settings f q st _ hb hack hout hserver =>
    have hws : out.flatMap Obs.wire = [.settings (frameSizes f.payload)] := by
      rw [hout]
      simp [Obs.wire, hb, hack]
    have hread := read_of_settings hb
    have hsize := frameSize_read hread
    have hrange := inRange_read hread
    simp only [hws]
    refine ⟨⟨hw, ?_, h.refused, ?_, ?_, ?_, hbusy, ?_, h.tunnels⟩, Iff.rfl⟩
    · change w.acks + 1 = (l.pending ++ [frameSizes f.payload]).length
      rw [h.acks, length_append]
      rfl
    · intro v hv
      change v ∈ (l.next (.settings (frameSizes f.payload))).advertised at hv
      rw [Limit.advertised_settings] at hv
      exact (mem_append.1 hv).elim (h.range v) (hrange v)
    · change 16384 ≤ c'.serverS.frameSize
      rw [hserver, hsize]
      exact (inRange_getLastD hrange).1
    · change c'.serverS.frameSize ≤ (l.next (.settings (frameSizes f.payload))).latest
      rw [hserver, hsize, Limit.latest_settings]
      -- a frame size that SETTINGS leave out goes back to the default, which no limit is below
      have hlatest := (h.range _ l.latest_mem).1
      cases frameSizes f.payload with
      | nil => exact hlatest
      | cons v vs => rw [getLastD_cons, getLastD_cons]
    · intro s n hs hn
      exact (h.request s n hs hn).trans (l.allowed_settings _)

theorem Ready.keep (hw : WellFormed w'.conn) (hacks : w'.acks = w.acks)
    (hserver : w'.conn.serverS = w.conn.serverS) (hbusy : ∀ s, w'.request = some s → w'.conn.writer ≠ .idle)
    (hreq : ∀ s n, w'.request = some s → s.chunk = some n → n ≤ l.allowed)
    (htun : ∀ s n, s ∈ w'.tunnels → s.chunk = some n → n < 2 ^ 24) : Ready w' l :=
  ⟨hw, hacks.trans h.acks, h.refused, h.range, hserver ▸ h.least, hserver ▸ h.size, hbusy, hreq, htun⟩

theorem readied_ack (hacks : w.acks ≠ 0) (hidle : w.conn.writer = .idle) :
    Readied { w with acks := w.acks - 1 } l [.ack] := by
  have hnone : w.request = none := by
    cases hr : w.request with
    | none => rfl
    | some s => exact absurd hidle (h.busy s hr)
  refine ⟨⟨h.wellFormed, ?_, ?_, fun v hv => h.range v (Limit.mem_advertised_ack hv), h.least, ?_, h.busy, ?_, h.tunnels⟩,
    Iff.rfl⟩
  · have := h.acks
    obtain ⟨acked, _ | ⟨values, pending⟩, refused⟩ := l
    · exact absurd this hacks
    change w.acks - 1 = pending.length
    rw [this]
    rfl
  · have := h.refused
    obtain ⟨acked, _ | ⟨values, pending⟩, refused⟩ := l
    · exact this
    · exact this
  · change w.conn.serverS.frameSize ≤ (l.next .ack).latest
    rw [Limit.latest_ack]
    exact h.size
  · intro s n hs
    rw [show w.request = none from hnone] at hs
    cases hs

theorem readied_finish (hfin : w.finish ok = some r) : Readied r.1 l r.2 := by
  obtain ⟨p, hp, rfl⟩ := map_eq_some_iff.1 hfin
  obtain ⟨hw, hserver⟩ := wellFormed_writeStep h.wellFormed hp
  exact Ready.silent (h.keep hw rfl hserver nofun nofun h.tunnels)

theorem accepts_headers (ctx : Context) (id : Nat) (block : List UInt8) :
    l.Accepts (.headers block [requestFrame ctx id block]) ↔ l.Fitting (.headers block [requestFrame ctx id block]) := by
  have hend : (requestFrame ctx id block).isEndHeaders = true := by
    simp only [requestFrame, OutFrame.isEndHeaders]
    split <;> decide
  exact sentAs_single_iff rfl hend (Limit.allowed_lt h.range)

theorem readied_headers (hstep : w.step (.headers ok) = some r) : Readied r.1 l r.2 := by
  simp only [Writing.step] at hstep
  split at hstep
  · rename_i ref id hwr
    obtain ⟨p, hp, rfl⟩ := map_eq_some_iff.1 hstep
    obtain ⟨hw, hserver⟩ := wellFormed_writeStep h.wellFormed hp
    cases ok with
    | false =>
      simp only [Bool.false_eq_true, false_and, if_false]
      exact Ready.silent (h.keep hw rfl hserver nofun nofun h.tunnels)
    | true =>
      simp only [true_and, if_true]
      have hp' : p.1.writer = if (w.conn.ctxs ref).hasBody then .body ref id else .idle := by
        simp only [Conn.writeStep, hwr, if_true] at hp
        rw [← Option.some.inj hp]
      refine ⟨?_, and_congr_left' (accepts_headers h _ _ _)⟩
      refine h.keep hw rfl hserver (fun s hs => ?_) (fun s n hs hn => ?_) h.tunnels
      · change p.1.writer ≠ .idle
        rw [hp']
        split
        · exact nofun
        rename_i hbody
        simp only [if_neg hbody] at hs
        cases hs
      · simp only at hs
        split at hs
        · obtain rfl := Option.some.inj hs
          cases hn
        · cases hs
  · cases hstep

theorem readied_skipBody (hstep : w.step .skipBody = some r) : Readied r.1 l r.2 := by
  simp only [Writing.step] at hstep
  split at hstep
  · split at hstep
    · exact readied_finish h hstep
    · cases hstep
  · cases hstep

theorem readied_chunk (hstep : w.step .chunk = some r) : Readied r.1 l r.2 := by
  simp only [Writing.step] at hstep
  split at hstep
  · rename_i s hs
    split at hstep
    · cases hstep
    split at hstep
    · exact readied_finish h hstep
    · obtain rfl := Option.some.inj hstep
      refine Ready.silent (h.keep h.wellFormed rfl rfl (fun _ _ => h.busy s hs) (fun s' n hs' hn => ?_) h.tunnels)
      obtain rfl := Option.some.inj hs'
      simp only at hn
      split at hn
      · cases hn
      rw [← Option.some.inj hn]
      exact h.calculateChunkSize_le _ _
  · cases hstep

theorem accepts_request (hs : w.request = some s) (hn : s.chunk = some n) :
    Limit.Throughout Limit.Accepts l [.frame .request (s.frame n)] ↔
      Limit.Throughout Limit.Fitting l [.frame .request (s.frame n)] := by
  have hle := (length_frame s n).trans (h.request s n hs hn)
  have hlt := Limit.allowed_lt h.range
  exact iff_of_true ⟨(OutFrame.fits_iff (by omega)).2 hle, trivial⟩ ⟨trivial, trivial⟩

theorem readied_data (hstep : w.step (.data ok) = some r) : Readied r.1 l r.2 := by
  simp only [Writing.step] at hstep
  split at hstep
  · rename_i s hs
    split at hstep
    · cases hstep
    rename_i n hn
    split at hstep
    · exact readied_finish h hstep
    · have hnext : Ready { w with conn := w.conn.spend s.ctx n, request := s.next n } l := by
        refine h.keep (wellFormed_spend h.wellFormed _ _) rfl rfl (fun _ _ => h.busy s hs) (fun s' m hs' hm => ?_)
          h.tunnels
        rw [chunk_next hs'] at hm
        cases hm
      split at hstep
      · obtain ⟨p, hp, rfl⟩ := map_eq_some_iff.1 hstep
        have hready := (readied_finish hnext hp).ready
        obtain ⟨_, -, rfl⟩ := map_eq_some_iff.1 hp
        exact ⟨hready, accepts_request h hs hn⟩
      · obtain rfl := Option.some.inj hstep
        exact ⟨hnext, accepts_request h hs hn⟩
  · cases hstep

theorem readied_tunnel {ref : Nat} {endStream : Bool}
    (hstep : w.step (.tunnel ref body endStream) = some r) : Readied r.1 l r.2 := by
  simp only [Writing.step] at hstep
  split at hstep
  · cases hstep
  split at hstep
  · obtain rfl := Option.some.inj hstep
    cases endStream with
    | false => exact h.silent
    | true => exact ⟨h, accepts_tunnel (by simp)⟩
  · obtain rfl := Option.some.inj hstep
    refine Ready.silent (h.keep h.wellFormed rfl rfl h.busy h.request fun s n hs hn => ?_)
    obtain hs | hs := mem_append.1 hs
    · exact h.tunnels s n hs hn
    · rw [mem_singleton.1 hs] at hn
      cases hn

theorem readied_tunnelChunk (hstep : w.step (.tunnelChunk i) = some r) : Readied r.1 l r.2 := by
  simp only [Writing.step] at hstep
  split at hstep
  · rename_i s hs
    split at hstep
    · cases hstep
    split at hstep
    · obtain rfl := Option.some.inj hstep
      exact Ready.silent (h.keep h.wellFormed rfl rfl h.busy h.request
        fun s n hs => h.tunnels s n (mem_of_mem_eraseIdx hs))
    · obtain rfl := Option.some.inj hstep
      refine Ready.silent (h.keep h.wellFormed rfl rfl h.busy h.request fun s' n hs' hn => ?_)
      obtain hs' | rfl := mem_or_eq_of_mem_set hs'
      · exact h.tunnels s' n hs' hn
      · simp only at hn
        split at hn
        · cases hn
        rw [← Option.some.inj hn]
        exact (h.calculateChunkSize_le _ _).trans_lt (Limit.allowed_lt h.range)
  · cases hstep

theorem readied_tunnelData (hstep : w.step (.tunnelData i ok) = some r) : Readied r.1 l r.2 := by
  simp only [Writing.step] at hstep
  split at hstep
  · rename_i s hs
    split at hstep
    · cases hstep
    rename_i n hn
    split at hstep
    · obtain rfl := Option.some.inj hstep
      exact Ready.silent (h.keep h.wellFormed rfl rfl h.busy h.request
        fun s n hs => h.tunnels s n (mem_of_mem_eraseIdx hs))
    · obtain rfl := Option.some.inj hstep
      have hlt := h.tunnels s n (mem_of_getElem? hs) hn
      refine ⟨h.keep (wellFormed_spend h.wellFormed _ _) rfl rfl h.busy h.request fun s' m hs' hm => ?_,
        accepts_tunnel ((length_frame s n).trans_lt hlt)⟩
      simp only at hs'
      split at hs'
      · exact h.tunnels s' m (mem_of_mem_eraseIdx hs') hm
      · rename_i s1 hnext
        obtain hs' | rfl := mem_or_eq_of_mem_set hs'
        · exact h.tunnels s' m hs' hm
        · rw [chunk_next hnext] at hm
          cases hm
  · cases hstep

theorem readied_openStream {fields : List (HeaderField × Bool)}
    (hstep : w.step (.openStream fields body) = some r) : Readied r.1 l r.2 := by
  simp only [Writing.step] at hstep
  split at hstep
  · rename_i ref id hwr
    split at hstep
    · cases hstep
    obtain rfl := Option.some.inj hstep
    have hw : WellFormed { w.conn with enc := (encodeFields w.conn.enc [] fields).1 } :=
      h.wellFormed.setServerS w.conn.serverS _
    exact Ready.silent (h.keep (hw.openRequest hwr) rfl rfl (fun s hs => nofun) h.request h.tunnels)
  · cases hstep

theorem readied_step {lab : WriteLabel} (hstep : w.step lab = some r) : Readied r.1 l r.2 := by
  cases lab with
  | conn lab =>
    cases lab with
    | writeStep ok => cases hstep
    | encode hf store => cases hstep
    | sent ref n => cases hstep
    | _ =>
      simp only [Writing.step] at hstep
      obtain ⟨p, hp, rfl⟩ := map_eq_some_iff.1 hstep
      exact readied_conn h (by rintro _ ⟨⟩) hp
  | ack =>
    simp only [Writing.step] at hstep
    split at hstep
    · cases hstep
    rename_i hok
    rw [not_or, not_not] at hok
    obtain rfl := Option.some.inj hstep
    exact readied_ack h hok.1 hok.2
  | openStream fields body => exact readied_openStream h hstep
  | headers ok => exact readied_headers h hstep
  | skipBody => exact readied_skipBody h hstep
  | chunk => exact readied_chunk h hstep
  | data ok => exact readied_data h hstep
  | tunnel ref body endStream => exact readied_tunnel h hstep
  | tunnelChunk i => exact readied_tunnelChunk h hstep
  | tunnelData i ok => exact readied_tunnelData h hstep

end Steps

/-- Whatever a client writes is something its peer has to accept, exactly as long as its header blocks and the DATA
frames of tunnels are within the limit. -/
theorem accepted_iff {current serverS : Settings} {ls : List WriteLabel}
    {ws : List Wire} (h0 : Settings.read {} payload = .ok serverS)
    (hr : run Writing.step { conn := newConn current serverS } ls = some (w, ws)) :
    Limit.Throughout Limit.Accepts { acked := serverS.frameSize } ws ↔
      Limit.Throughout Limit.Fitting { acked := serverS.frameSize } ws := by
  have hrange : InRange serverS.frameSize := frameSize_read h0 ▸ inRange_getLastD (inRange_read h0)
  have hinv := run_keeps (fun w ws => Readied w { acked := serverS.frameSize } ws)
    (fun w ws lab w' ws' hi hstep => ?_) ?_ hr
  · exact hinv.accepts
  · have hnext := readied_step hi.ready hstep
    refine ⟨?_, ?_⟩
    · rw [Limit.after_append]
      exact hnext.ready
    · rw [Limit.throughout_append, Limit.throughout_append, hi.accepts, hnext.accepts]
  · refine ⟨⟨wellFormed_newConn current serverS, rfl, rfl, fun v hv => ?_, hrange.1, ?_, nofun, nofun, nofun⟩, Iff.rfl⟩
    · rw [mem_singleton.1 hv]
      exact hrange
    · exact Nat.le_refl _

end Mach.H2.ClientConn

/-! ## Both endpoints -/

namespace Mach.H2
open Lib Hpack Headkit

/-- A server starts with the default limit, a client with the one of the handshake. -/
theorem frames_accepted_iff (b : Bool) (es : List Server.Label) (current serverS : Settings)
    (ls : List ClientConn.WriteLabel) :
    (∀ {sc tr}, run Server.step (Server.newServerConn b) es = some (sc, tr) →
      (Limit.Throughout Limit.Accepts {} (Server.wires tr) ↔ Limit.Throughout Limit.Fitting {} (Server.wires tr))) ∧
    ∀ {payload w ws}, Settings.read {} payload = .ok serverS →
      run ClientConn.Writing.step { conn := ClientConn.newConn current serverS } ls = some (w, ws) →
      (Limit.Throughout Limit.Accepts { acked := serverS.frameSize } ws ↔
        Limit.Throughout Limit.Fitting { acked := serverS.frameSize } ws) :=
  ⟨Server.accepted_iff, ClientConn.accepted_iff⟩

/-- A request with a body of three octets, after a handshake with a frame size of 32768. -/
def smallRequest : List ClientConn.WriteLabel :=
  [.conn (.submit true false), .conn .write, .openStream [({ key := ascii ":method", value := ascii "PUT" }, true)] [1, 2, 3],
   .headers true, .chunk, .data true]

theorem frames_accepted_small : ∃ w ws, Settings.read {} [0, 5, 0, 0, 128, 0] = .ok { frameSize := 32768 } ∧
    run ClientConn.Writing.step { conn := ClientConn.newConn {} { frameSize := 32768 } } smallRequest = some (w, ws) ∧
    ws.length = 2 ∧ Limit.Throughout Limit.Accepts { acked := 32768 } ws := by
  have h : (run ClientConn.Writing.step { conn := ClientConn.newConn {} { frameSize := 32768 } } smallRequest).map
      (fun r => (r.2.length, decide (Limit.Throughout Limit.Fitting { acked := 32768 } r.2))) = some (2, true) := by
    decide +kernel
  obtain ⟨⟨w, ws⟩, hr, he⟩ := Option.map_eq_some_iff.1 h
  obtain ⟨hlen, hfit⟩ := Prod.mk.inj he
  have hread : Settings.read {} [0, 5, 0, 0, 128, 0] = .ok { frameSize := 32768 } := by decide +kernel
  exact ⟨w, ws, hread, hr, hlen, ((frames_accepted_iff true [] {} _ smallRequest).2 hread hr).2 (of_decide_eq_true hfit)⟩

/-- A response whose header block is larger than a frame. -/
def longHeader : List Server.Label :=
  [.recv Server.getRequest, .act 0 (.respond ⟨200, [(ascii "x-a", [Server.longValue])], []⟩)]

theorem long_header_exceeds_frame : ∃ sc tr,
    run Server.step (Server.newServerConn true) longHeader = some (sc, tr) ∧
    ¬ Limit.Throughout Limit.Accepts {} (Server.wires tr) := by
  have h : (Server.step (Server.newServerConn true) (.recv Server.getRequest)).map
      (fun r => (r.1.running, r.1.hpackEnc, r.2)) = some ([⟨1, false, false, false, false⟩],
        (Server.newServerConn true).hpackEnc, [.recv Server.getRequest]) := by decide +kernel
  obtain ⟨⟨sc, tr⟩, hr, he⟩ := Option.map_eq_some_iff.1 h
  simp only [Prod.mk.injEq] at he
  obtain ⟨hrun, henc, rfl⟩ := he
  have hd : sc.running[0]? = some ⟨1, false, false, false, false⟩ := by simp [hrun]
  obtain ⟨sc', hstep⟩ := Server.step_respond_empty hd rfl rfl 200 [(ascii "x-a", [Server.longValue])]
  have hlong := Server.length_longBlock henc
  generalize (Server.ServerConn.serializeResponseHeaders _ _ _ _).2 = block at hstep hlong
  refine ⟨sc', [.recv Server.getRequest] ++ [.sent (.headers 1 block true)], ?_, fun hacc => ?_⟩
  · rw [longHeader, run_cons_some _ hr, run_cons_some _ hstep]
    simp
  · have hfits : SentAs 16384 block [Server.headersFrame 1 block true] := hacc.1
    have hle := (hfits.fits _ (List.mem_singleton_self _)).le
    exact absurd hle (Nat.not_le.2 hlong)

end Mach.H2
