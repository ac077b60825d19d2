import Mach.H2.Client.WellFormed
import Mathlib.Algebra.BigOperators.Group.List.Basic
/-!
# The client's receive windows and the server's view of them

The server may send as many octets of DATA, padding included, as it was granted:
65535 and the increments sent for the connection, and for a stream the
INITIAL_WINDOW_SIZE that the client advertised and the increments sent for the
stream. `currentWindow` and `streamRxWindow` should be what is left of these. They
are in the runs whose steps meet `accounted`; every clause of it names a step after
which they are not.
-/

namespace Mach.H2.ClientConn
open Lib Hpack Headkit List Conn

/-! ## What has been received and granted -/

def flowLength (f : Frame) : Nat := if f.type = 0x0 then f.payload.length else 0

def Obs.received (p : Nat → Bool) : Obs → Nat
  | .recv f => if p f.streamID then flowLength f else 0
  | _ => 0

def Obs.granted (id : Nat) : Obs → Nat
  | .queued streamID increment => if streamID = id then increment else 0
  | _ => 0

def received (p : Nat → Bool) (tr : List Obs) : Nat := (tr.map (Obs.received p)).sum

/-- The increments queued for a stream, or for the connection as stream 0. -/
def granted (id : Nat) (tr : List Obs) : Nat := (tr.map (Obs.granted id)).sum

/-- The increment in the WINDOW_UPDATE frame that the handshake sends. -/
def handshakeIncrement : Int := 15663105 - 65535

/-- The client's windows are the server's. -/
structure WindowsTracked (c : Conn) (tr : List Obs) : Prop where
  conn : c.currentWindow = 65535 + (handshakeIncrement + granted 0 tr) - received (fun _ => true) tr
  streams : ∀ id r, c.getStream id = some r → (c.ctxs r).state ≠ .streamClosed →
    (c.ctxs r).streamRxWindow = c.current.windowSize + granted id tr - received (· == id) tr

/-! ## The steps that keep account -/

/-- A context has this stream id. -/
def Conn.knows (c : Conn) (id : Nat) : Bool := (List.range c.refs).any fun r => (c.ctxs r).streamID == id

/-- The frame's DATA is charged to its stream in full. -/
def Context.charges (ctx : Context) (data : List UInt8) : Bool :=
  ctx.state != .streamClosed && ctx.response != none && !ctx.trailersReceived && (ctx.isTunnelActive || data != [])

/-- What a step must not do, for the windows to stay in step with the server's. -/
def Conn.accounted (c : Conn) : Label → Bool
  | .recv f q =>
    -- No update is dropped, and no DATA comes for a request's stream that is still to be opened.
    q.conn && (f.type != 0x0 || f.payload.isEmpty || f.streamID % 2 == 0 || c.knows f.streamID)
  | .readStep q =>
    match c.reader with
    | .found f (.data d) r => q.stream && q.conn && (f.payload.isEmpty || (c.ctxs r).charges d)
    | .found _ (.pushPromise id header) _ => (c.handlePushPromise id header).1.refs == c.refs
    | _ => true
  | .writeStep _ =>
    match c.writer with
    | .opening _ _ => c.current.windowSize == 6291456
    | _ => true
  | _ => true

section Totals

variable (p : Nat → Bool) (id : Nat) (tr tr' : List Obs)

@[simp] theorem received_append : received p (tr ++ tr') = received p tr + received p tr' := by simp [received]

@[simp] theorem granted_append : granted id (tr ++ tr') = granted id tr + granted id tr' := by simp [granted]

@[simp] theorem received_cons (o : Obs) : received p (o :: tr) = o.received p + received p tr := by simp [received]

@[simp] theorem granted_cons (o : Obs) : granted id (o :: tr) = o.granted id + granted id tr := by simp [granted]

@[simp] theorem received_nil : received p [] = 0 := rfl

@[simp] theorem granted_nil : granted id [] = 0 := rfl

end Totals

variable {out : List Obs} {f : Frame}

/-- Observations that count for nothing here. -/
def Silent (out : List Obs) : Prop := ∀ o ∈ out, (∀ id, o.granted id = 0) ∧ ∀ p, o.received p = 0

theorem Silent.granted (h : Silent out) (id : Nat) : granted id out = 0 := by
  refine sum_eq_zero fun n hn => ?_
  obtain ⟨o, ho, rfl⟩ := mem_map.1 hn
  exact (h o ho).1 id

theorem Silent.received (h : Silent out) (p : Nat → Bool) : received p out = 0 := by
  refine sum_eq_zero fun n hn => ?_
  obtain ⟨o, ho, rfl⟩ := mem_map.1 hn
  exact (h o ho).2 p

theorem silent_nil : Silent [] := nofun

theorem silent_ended (id : Nat) : Silent [.ended id] := by
  intro o ho
  rw [mem_singleton.1 ho]
  exact ⟨fun _ => rfl, fun _ => rfl⟩

theorem silent_recv (h : f.type = 0 → f.payload = []) (ho : Silent out) : Silent (.recv f :: out) := by
  intro o hmem
  obtain rfl | hmem := mem_cons.1 hmem
  · exact ⟨fun _ => rfl, fun p => by simpa [Obs.received, flowLength] using fun _ => h⟩
  · exact ho o hmem

theorem type_ne_zero {b : Body} (hb : f.body = .ok b) (h : ∀ d, b ≠ .data d) : f.type ≠ 0 := by
  intro ht
  have hf := fits_body hb
  cases b with
  | data d => exact h d rfl
  | _ => simp [BodyFits, ht] at hf

/-! ## The invariant -/

structure RxInv (c : Conn) (tr : List Obs) : Prop where
  maxWindow : c.maxWindow = 15663105
  conn : c.currentWindow = 15663105 + granted 0 tr - received (fun _ => true) tr
  /-- Only requests are in the table. -/
  odd : ∀ r ∈ c.table, (c.ctxs r).streamID % 2 = 1
  streams : ∀ r ∈ c.table, (c.ctxs r).state ≠ .streamClosed →
    (c.ctxs r).streamRxWindow =
      c.current.windowSize + granted (c.ctxs r).streamID tr - received (· == (c.ctxs r).streamID) tr
  /-- Nothing has passed on a stream that is not opened. -/
  unopened : ∀ id, id % 2 = 1 → (∀ r, (c.ctxs r).streamID ≠ id) → granted id tr = 0 ∧ received (· == id) tr = 0

variable {tr out : List Obs}

theorem RxInv.tracked {c : Conn} (h : RxInv c tr) : WindowsTracked c tr where
  conn := by
    rw [h.conn, handshakeIncrement]
    omega
  streams id r hget hst := by
    have hid : (c.ctxs r).streamID = id := by simpa using find?_some hget
    rw [h.streams r (mem_of_find?_eq_some hget) hst, hid]

section Steps

variable {c c' : Conn}

/-- A step that moves no window and opens no stream; streams may end. -/
structure Ends (c c' : Conn) : Prop where
  current : c'.current = c.current
  maxWindow : c'.maxWindow = c.maxWindow
  currentWindow : c'.currentWindow = c.currentWindow
  streamID : ∀ r, (c'.ctxs r).streamID = (c.ctxs r).streamID
  table : ∀ r ∈ c'.table, r ∈ c.table
  rx : ∀ r ∈ c'.table, (c'.ctxs r).streamRxWindow = (c.ctxs r).streamRxWindow
  state : ∀ r ∈ c'.table, (c'.ctxs r).state ≠ .streamClosed → (c.ctxs r).state ≠ .streamClosed

theorem RxInv.ends (h : RxInv c tr) (he : Ends c c') (hout : Silent out) : RxInv c' (tr ++ out) where
  maxWindow := he.maxWindow.trans h.maxWindow
  conn := by
    rw [he.currentWindow, h.conn]
    simp [hout.granted, hout.received]
  odd r hr := by
    rw [he.streamID]
    exact h.odd r (he.table r hr)
  streams r hr hst := by
    rw [he.rx r hr, he.streamID, he.current, h.streams r (he.table r hr) (he.state r hr hst)]
    simp [hout.granted, hout.received]
  unopened id hodd hne := by
    simp only [he.streamID] at hne
    simpa [hout.granted, hout.received] using h.unopened id hodd hne

theorem Quiet.ends (hq : Quiet c c') : Ends c c' where
  current := hq.current
  maxWindow := hq.maxWindow
  currentWindow := hq.currentWindow
  streamID := hq.streamID
  table r hr := hq.table ▸ hr
  rx r _ := hq.rx r
  state r _ := by
    rw [hq.state]
    exact fun h => h

theorem RxInv.quiet (h : RxInv c tr) (hq : Quiet c c') (hout : Silent out) : RxInv c' (tr ++ out) :=
  h.ends hq.ends hout

theorem RxInv.quiet_nil (h : RxInv c tr) (hq : Quiet c c') : RxInv c' tr := by
  have := h.quiet hq silent_nil
  rwa [append_nil] at this

theorem RxInv.setServerS (h : RxInv c tr) (st : Settings) (enc : HPACK) : RxInv { c with serverS := st, enc } tr := { h with }

/-- What `chargeConn` does where the update it may need is queued. -/
theorem chargeConn_spec (hmax : c.maxWindow = 15663105) (hopen : c.closed = false) {len : Nat}
    {s : Conn × List Obs} (hs : c.chargeConn len true = s) :
    s.1.currentWindow = c.currentWindow - len + granted 0 s.2 ∧ (∀ id, id ≠ 0 → granted id s.2 = 0) ∧
      (∀ p, received p s.2 = 0) ∧ ∀ r, s.1.ctxs r = c.ctxs r := by
  subst hs
  unfold chargeConn
  dsimp only
  split
  · rename_i hlt
    rw [hmax] at hlt ⊢
    have hpos : ¬ (15663105 - (c.currentWindow - len) ≤ 0 ∨ c.closed = true) := by
      simp only [hopen, Bool.false_eq_true, or_false, Int.not_le]
      omega
    simp only [updateWindow, hpos, if_false, if_true]
    refine ⟨?_, fun id hid => ?_, fun p => ?_, fun _ => trivial⟩
    · simp only [granted_cons, Obs.granted, if_true, granted_nil]
      omega
    · simp [Obs.granted, hid.symm]
    · simp [Obs.received]
  · exact ⟨by simp, fun _ _ => rfl, fun _ => rfl, fun _ => rfl⟩

/-- What `chargeStream` does where the update it may need is queued. -/
theorem chargeStream_spec (hopen : c.closed = false) {r streamID len : Nat} {s : Conn × List Obs}
    (hs : c.chargeStream r streamID len true = s) :
    (s.1.ctxs r).streamRxWindow = (c.ctxs r).streamRxWindow - len + granted streamID s.2 ∧
      (∀ id, id ≠ streamID → granted id s.2 = 0) ∧ (∀ p, received p s.2 = 0) ∧
      (∀ r', r' ≠ r → s.1.ctxs r' = c.ctxs r') ∧ s.1.currentWindow = c.currentWindow := by
  subst hs
  unfold chargeStream
  dsimp only
  split
  · rename_i hlt
    have hpos : ¬ (6291456 - ((c.ctxs r).streamRxWindow - len) ≤ 0 ∨ c.closed = true) := by
      simp only [hopen, Bool.false_eq_true, or_false, Int.not_le]
      omega
    simp only [updateWindow, hpos, if_false, if_true]
    refine ⟨?_, fun id hid => ?_, fun p => ?_, fun r' hr => ?_, rfl⟩
    · simp only [setCtx, Function.update_self, granted_cons, Obs.granted, if_true, granted_nil]
      omega
    · simp [Obs.granted, hid.symm]
    · simp [Obs.received]
    · simp [setCtx, hr]
  · refine ⟨by simp [setCtx], fun _ _ => rfl, fun _ => rfl, fun r' hr => ?_, rfl⟩
    simp [setCtx, hr]

theorem received_recv_data (ht : f.type = 0) (p : Nat → Bool) :
    (Obs.recv f).received p = if p f.streamID then f.payload.length else 0 := by
  simp [Obs.received, flowLength, ht]

/-- A stream of the table that shares its id with a context is that context's. -/
theorem ref_of_table (hw : WellFormed c) (h : RxInv c tr) {r r' : Nat} (hr : r ∈ c.table)
    (hid : (c.ctxs r').streamID = (c.ctxs r).streamID) : r' = r :=
  (hw.inj r r' (h.odd r hr) hid.symm).symm

/-- DATA that is charged to the connection only: it has no octets, or there is no stream to charge. -/
theorem RxInv.connOnly (h : RxInv c tr) (ht : f.type = 0) (hopen : c.closed = false)
    (hlive : ∀ r ∈ c.table, (c.ctxs r).state ≠ .streamClosed → f.streamID = (c.ctxs r).streamID → f.payload = [])
    (hknown : f.streamID % 2 = 1 → (∀ r, (c.ctxs r).streamID ≠ f.streamID) → f.payload = []) :
    RxInv (c.chargeConn f.payload.length true).1
      (tr ++ .recv f :: (c.chargeConn f.payload.length true).2) := by
  have hk := kept_chargeConn c f.payload.length true
  generalize hp : c.chargeConn f.payload.length true = p at hk ⊢
  obtain ⟨hwin, hgr, hrec, hctx⟩ := chargeConn_spec h.maxWindow hopen hp
  obtain ⟨c', out⟩ := p
  dsimp only at *
  have hon : ∀ id, (f.streamID = id → f.payload = []) → (Obs.recv f).received (· == id) = 0 := fun id hid => by
    rw [received_recv_data ht]
    split
    · rename_i he
      rw [hid (beq_iff_eq.1 he)]
      rfl
    · rfl
  refine ⟨hk.maxWindow.trans h.maxWindow, ?_, fun r hr => ?_, fun r hr hst => ?_, fun id hodd hne => ?_⟩
  · rw [hwin, h.conn]
    simp only [granted_append, granted_cons, received_append, received_cons, hrec, received_recv_data ht, if_true,
      Obs.granted]
    push_cast
    omega
  · rw [hctx]
    exact h.odd r (hk.table ▸ hr)
  · rw [hctx] at hst ⊢
    rw [hk.table] at hr
    have hodd := h.odd r hr
    rw [hk.current, h.streams r hr hst]
    simp [hgr _ (by omega : (c.ctxs r).streamID ≠ 0), hrec, hon _ (hlive r hr hst), Obs.granted]
  · simp only [hctx] at hne
    obtain ⟨h1, h2⟩ := h.unopened id hodd hne
    have h3 : f.streamID = id → f.payload = [] := by
      rintro rfl
      exact hknown hodd hne
    simp [h1, h2, hgr id (by omega), hrec, hon id h3, Obs.granted]

theorem RxInv.charged (hw : WellFormed c) (h : RxInv c tr) (ht : f.type = 0) (hopen : c.closed = false)
    {r : Nat} (hid : (c.ctxs r).streamID = f.streamID) (h0 : f.streamID ≠ 0) :
    RxInv ((c.chargeStream r f.streamID f.payload.length true).1.chargeConn f.payload.length true).1
      (tr ++ .recv f :: ((c.chargeStream r f.streamID f.payload.length true).2 ++
        ((c.chargeStream r f.streamID f.payload.length true).1.chargeConn f.payload.length true).2)) := by
  have hk := kept_chargeStream c r f.streamID f.payload.length true
  generalize hp : c.chargeStream r f.streamID f.payload.length true = p at hk ⊢
  obtain ⟨hrx, hgr, hrec, hctx, hwin⟩ := chargeStream_spec hopen hp
  obtain ⟨c1, out1⟩ := p
  have hk' := kept_chargeConn c1 f.payload.length true
  generalize hp' : c1.chargeConn f.payload.length true = p at hk' ⊢
  obtain ⟨hwin', hgr', hrec', hctx'⟩ := chargeConn_spec (hk.maxWindow.trans h.maxWindow) (hk.closed.trans hopen) hp'
  obtain ⟨c2, out2⟩ := p
  dsimp only at *
  have hids : ∀ r', (c2.ctxs r').streamID = (c.ctxs r').streamID := (hk.trans hk').streamID
  refine ⟨(hk.trans hk').maxWindow.trans h.maxWindow, ?_, fun r' hr => ?_, fun r' hr hst => ?_, fun id hodd hne => ?_⟩
  · rw [hwin', hwin, h.conn]
    simp only [granted_append, granted_cons, received_append, received_cons, hrec, hrec', received_recv_data ht, if_true,
      Obs.granted, hgr 0 h0.symm]
    push_cast
    omega
  · rw [hids]
    exact h.odd r' ((hk.trans hk').table ▸ hr)
  · rw [(hk.trans hk').table] at hr
    rw [(hk.trans hk').state] at hst
    have hodd := h.odd r' hr
    have hold := h.streams r' hr hst
    rw [hids, (hk.trans hk').current, hctx']
    by_cases hrr : r' = r
    · subst hrr
      rw [hrx, hold, ← hid]
      simp only [granted_append, granted_cons, received_append, received_cons, hrec, hrec', received_recv_data ht,
        Obs.granted, hid, beq_self_eq_true, if_true, hgr' _ h0]
      push_cast
      omega
    · have hne : f.streamID ≠ (c.ctxs r').streamID := fun he => hrr (ref_of_table hw h hr (hid.trans he)).symm
      rw [hctx r' hrr, hold]
      simp [hgr _ hne.symm, hgr' _ (by omega : (c.ctxs r').streamID ≠ 0), hrec, hrec', received_recv_data ht, hne,
        Obs.granted]
  · simp only [hids] at hne
    obtain ⟨h1, h2⟩ := h.unopened id hodd hne
    have hne' : f.streamID ≠ id := fun he => hne r (hid.trans he)
    simp [h1, h2, hgr _ hne'.symm, hgr' id (by omega), hrec, hrec', received_recv_data ht, hne', Obs.granted]

end Steps

/-! ## Every run -/

theorem RxInv.goAway {c : Conn} (h : RxInv c tr) (ht : f.type ≠ 0) (last : Nat) :
    RxInv (c.handleGoAway last).1 (tr ++ .recv f :: (c.handleGoAway last).2) := by
  have he : Ends c (c.handleGoAway last).1 :=
    ⟨rfl, rfl, rfl, fun _ => rfl, fun r hr => mem_of_mem_filter hr, fun _ _ => rfl, fun _ _ hs => hs⟩
  refine h.ends he (silent_recv (absurd · ht) ?_)
  intro o ho
  obtain ⟨r, -, rfl⟩ := mem_map.1 ho
  exact ⟨fun _ => rfl, fun _ => rfl⟩

theorem rxInv_received {c c' : Conn} {q : Queue} (hw : WellFormed c) (h : RxInv c tr)
    (hr : Received c f q c' out) (ha : c.accounted (.recv f q)) (hopen : c'.closed = false) : RxInv c' (tr ++ out) := by
  simp only [accounted, Bool.and_eq_true, Bool.or_eq_true] at ha
  cases hr with
  | refused => cases hopen
  | quiet hb hi hq =>
    exact h.quiet hq (silent_recv (absurd · (type_ne_zero hb (by rintro d rfl; exact hi))) silent_nil)
  | rejected hq => cases hopen
  | stopped _ _ hq => cases hopen
  | settings hb _ hq => exact (h.setServerS _ _).quiet hq (silent_recv (absurd · (type_ne_zero hb nofun)) silent_nil)
  | goAway hb hq => exact (h.quiet_nil hq).goAway (type_ne_zero hb nofun) _
  | @data c1 d hb hq hdead =>
    have ht := (fits_body hb).1
    have h1 := h.quiet_nil hq
    rw [ha.1] at hopen ⊢
    refine h1.connOnly ht ((kept_chargeConn _ _ _).closed.symm.trans hopen) (fun r hr hst he => ?_) fun hodd hne => ?_
    · -- The look-up finds a context with this id, and there is only one.
      have hsome : (c1.getStream f.streamID).isSome := find?_isSome.2 ⟨r, hr, by simp [he]⟩
      obtain ⟨r', hr'⟩ := Option.isSome_iff_exists.1 hsome
      have hid : (c1.ctxs r').streamID = f.streamID := by simpa using find?_some hr'
      obtain rfl := ref_of_table (hw.kept hq.toKept) h1 hr (hid.trans he)
      exact absurd (hdead _ hr') hst
    · obtain ((hf | hf) | hf) | hf := ha.2
      · simp [ht] at hf
      · exact List.isEmpty_iff.1 hf
      · simp only [beq_iff_eq] at hf
        omega
      · simp only [knows, any_eq_true, beq_iff_eq] at hf
        obtain ⟨r, -, hr⟩ := hf
        exact absurd ((hq.streamID r).trans hr) (hne r)
  | found hb h0 hq hget hst =>
    rw [append_nil]
    exact { h.quiet_nil hq with }

theorem rxInv_read {c c' : Conn} {r : Nat} {b : Body} {q : Queue} {err : Option Err}
    (hw : WellFormed c) (h : RxInv c tr) (hrd : c.reader = .found f b r) (hr : Read c f r q b c' err out)
    (ha : c.accounted (.readStep q)) (hopen : c.closed = false) :
    RxInv c' (tr ++ .recv f :: out) := by
  have hfits := hw.reader
  rw [hrd] at hfits
  obtain ⟨hid, h0, hb⟩ := hfits
  simp only [accounted, hrd] at ha
  cases hr with
  | quiet hq hd =>
    refine h.quiet hq ?_
    by_cases hdata : ∃ d, b = .data d
    · obtain ⟨d, rfl⟩ := hdata
      simp only [Bool.and_eq_true, Bool.or_eq_true, Context.charges, bne_iff_ne, Bool.not_eq_true'] at ha
      obtain hf | hf := ha.2
      · exact silent_recv (fun _ => List.isEmpty_iff.1 hf) silent_nil
      · obtain hd | hd | hd := hd ⟨d, rfl⟩
        · exact absurd hd hf.1.1.1
        · exact absurd hd hf.1.1.2
        rw [hf.1.2] at hd
        cases hd
    · exact silent_recv (absurd · (type_ne_zero hb fun d hd => hdata ⟨d, hd⟩)) silent_nil
  | @pushed c1 id header hpush hq _ _ heq =>
    -- The step is not one of those that keep account.
    subst hpush
    simp only [heq, beq_iff_eq] at ha
    have hrefs : c1.refs + 1 = c.refs := ha
    have := hq.refs
    omega
  | charged hd hst =>
    subst hd
    simp only [Bool.and_eq_true] at ha
    rw [ha.1.1, ha.1.2]
    exact h.charged hw (fits_body hb).1 hopen hid h0
  | padding hd hst htun =>
    subst hd
    simp only [Bool.and_eq_true, Bool.or_eq_true, Context.charges, htun] at ha
    have hlen : f.payload = [] := by
      obtain hf | hf := ha.2
      · exact List.isEmpty_iff.1 hf
      · simp at hf
    rw [ha.1.2]
    exact h.connOnly (fits_body hb).1 hopen (fun _ _ _ _ => hlen) fun _ _ => hlen

section Endings

variable {c c' : Conn}

theorem Ends.trans {c'' : Conn} (h : Ends c c') (h' : Ends c' c'') : Ends c c'' where
  current := h'.current.trans h.current
  maxWindow := h'.maxWindow.trans h.maxWindow
  currentWindow := h'.currentWindow.trans h.currentWindow
  streamID r := (h'.streamID r).trans (h.streamID r)
  table r hr := h.table r (h'.table r hr)
  rx r hr := (h'.rx r hr).trans (h.rx r (h'.table r hr))
  state r hr hs := h.state r (h'.table r hr) (h'.state r hr hs)

/-- A context is closed, or replaced by one that differs in nothing that counts here. -/
theorem ends_setCtx (c : Conn) {r : Nat} {ctx : Context} (hid : ctx.streamID = (c.ctxs r).streamID)
    (hrx : ctx.streamRxWindow = (c.ctxs r).streamRxWindow)
    (hst : ctx.state ≠ .streamClosed → (c.ctxs r).state ≠ .streamClosed) : Ends c (c.setCtx r ctx) := by
  refine ⟨rfl, rfl, rfl, setCtx_field c _ hid, fun _ hr => hr, fun r' _ => setCtx_field c _ hrx r', fun r' _ => ?_⟩
  by_cases h : r' = r
  · subst h
    simpa [setCtx] using hst
  · simp [setCtx, h]

theorem ends_closeState (c : Conn) (r : Nat) : Ends c (c.setCtx r { c.ctxs r with state := .streamClosed }) :=
  ends_setCtx c rfl rfl fun h => absurd rfl h

theorem ends_deleteStream (c : Conn) (streamID : Nat) : Ends c (c.deleteStream streamID) :=
  ⟨rfl, rfl, rfl, fun _ => rfl, fun _ hr => mem_of_mem_eraseP hr, fun _ _ => rfl, fun _ _ hs => hs⟩

theorem ends_closeCtx (c : Conn) (r : Nat) : Ends c (c.closeCtx r) := { ends_closeState c r with }

theorem ends_finish (c : Conn) (r streamID : Nat) : Ends c (c.finish r streamID).1 :=
  (ends_closeCtx c r).trans (ends_deleteStream _ streamID)

theorem ends_settle (c : Conn) (f : Frame) (r : Nat) (err : Option Err) :
    Ends c (c.settle f r err).1 ∧ Silent (c.settle f r err).2 := by
  have hfin := ends_finish c r f.streamID
  cases err with
  | some e => exact ⟨(ends_closeState c r).trans (ends_finish _ r f.streamID), silent_ended _⟩
  | none =>
    simp only [settle]
    split
    · split
      · exact ⟨ends_setCtx c rfl rfl fun h => h, silent_nil⟩
      · exact ⟨hfin, silent_ended _⟩
    · split
      · exact ⟨hfin, silent_ended _⟩
      · exact ⟨(Quiet.refl c).ends, silent_nil⟩

theorem ends_abandon (c : Conn) (r id : Nat) : Ends c (c.abandon r id).1 :=
  { (ends_deleteStream c id).trans (ends_closeCtx _ r) with }

theorem ends_cancel (c : Conn) (r : Nat) : Ends c (c.cancel r) := by
  unfold cancel
  split
  · exact (Quiet.refl c).ends
  · exact { ends_closeState c r with }

theorem ends_cancelStep (c : Conn) (r : Nat) : Ends c (c.cancelStep r).1 ∧ Silent (c.cancelStep r).2 := by
  have hset : Ends c (c.setCtx r { c.ctxs r with request := false, response := none }) :=
    ends_setCtx c rfl rfl fun h => h
  unfold cancelStep
  dsimp only
  split
  · exact ⟨{ hset with }, silent_nil⟩
  · exact ⟨{ hset.trans (ends_deleteStream _ _) with }, silent_ended _⟩

theorem ends_beginRequest (c : Conn) (r : Nat) (queue : List Nat) : Ends c ({ c with queue }.beginRequest r) := by
  have hc : Ends c { c with queue } := { (Quiet.refl c).ends with }
  unfold beginRequest
  dsimp only
  split
  · exact hc
  · split
    · exact hc
    · split
      · exact { hc with }
      · exact { hc with }

theorem ends_submit (hw : WellFormed c) (ctx : Context) (hid : ctx.streamID = 0) (queue : List Nat) :
    Ends c { c.setCtx c.refs ctx with refs := c.refs + 1, queue } := by
  have hfresh : ∀ r ∈ c.table, r ≠ c.refs := by
    rintro r hr rfl
    exact hw.stored _ hr (hw.unused _ (Nat.le_refl _))
  refine ⟨rfl, rfl, rfl, ?_, fun _ hr => hr, fun r hr => ?_, fun r hr => ?_⟩
  · exact setCtx_field c _ (hid.trans (hw.unused _ (Nat.le_refl _)).symm)
  · simp [setCtx, hfresh r hr]
  · simp [setCtx, hfresh r hr]

end Endings

/-- A request's stream is opened with the window that was advertised. -/
theorem RxInv.openRequest {c : Conn} (hw : WellFormed c) (h : RxInv c tr) {r id : Nat}
    (hwr : c.writer = .opening r id) (hwin : c.current.windowSize = 6291456) :
    RxInv (c.openRequest r id) (tr ++ [.opened id]) := by
  obtain ⟨h0, -, -, hodd, -, hfree⟩ := hw.opening hwr
  have hold := fun r' (hr : r' ≠ r) => openRequest_ne c id hr
  have hnew := openRequest_streamID c r id
  have hrx : ((c.openRequest r id).ctxs r).streamRxWindow = 6291456 := by simp [Conn.openRequest, storeStream, setCtx]
  have hne : ∀ r' ∈ c.table, r' ≠ r := by
    rintro r' hr rfl
    exact hw.stored _ hr h0
  have hsilent : Silent [.opened id] := by
    intro o ho
    rw [mem_singleton.1 ho]
    exact ⟨fun _ => rfl, fun _ => rfl⟩
  refine ⟨h.maxWindow, ?_, fun r' hr => ?_, fun r' hr hst => ?_, fun id' hodd' hne' => ?_⟩
  · change c.currentWindow = _
    simpa [hsilent.granted, hsilent.received] using h.conn
  · obtain hr | hr := mem_append.1 hr
    · rw [hold r' (hne r' hr)]
      exact h.odd r' hr
    · rw [mem_singleton.1 hr, hnew]
      exact hodd
  · simp only [granted_append, received_append, hsilent.granted, hsilent.received, Nat.add_zero]
    obtain hr | hr := mem_append.1 hr
    · rw [hold r' (hne r' hr)] at hst ⊢
      exact h.streams r' hr hst
    · obtain ⟨h1, h2⟩ := h.unopened id hodd hfree
      rw [mem_singleton.1 hr, hnew, hrx, h1, h2]
      change (6291456 : Int) = (c.current.windowSize : Int) + ((0 : Nat) : Int) - ((0 : Nat) : Int)
      rw [hwin]
      rfl
  · simp only [granted_append, received_append, hsilent.granted, hsilent.received, Nat.add_zero]
    refine h.unopened id' hodd' fun r' he => ?_
    by_cases hrr : r' = r
    · subst hrr
      omega
    · exact hne' r' ((congrArg Context.streamID (hold r' hrr)).trans he)

theorem rxInv_step {c c' : Conn} {l : Label} (hw : WellFormed c) (h : RxInv c tr)
    (hopen : c.closed = false) (ha : c.accounted l) (hs : step c l = some (c', out)) (hopen' : c'.closed = false) :
    RxInv c' (tr ++ out) := by
  have hnil : RxInv c (tr ++ []) := by rwa [append_nil]
  cases stepped_step hs with
  | submit => exact h.ends (ends_submit hw _ rfl _) silent_nil
  | write => exact h.ends (ends_beginRequest c _ _) silent_nil
  | opened hwr =>
    simp only [accounted, hwr, beq_iff_eq] at ha
    exact h.openRequest hw hwr ha
  | written => exact { hnil with }
  | abandoned => exact h.ends (ends_abandon c _ _) (silent_ended _)
  | encode => exact hnil.setServerS c.serverS _
  | sent => exact h.quiet (quiet_sent c _ _) silent_nil
  | cancel => exact h.ends (ends_cancel c _) silent_nil
  | cancelStep => exact h.ends (ends_cancelStep c _).1 (ends_cancelStep c _).2
  | recv hr => exact rxInv_received hw h hr ha hopen'
  | read hrd hread => exact { rxInv_read hw h hrd hread ha hopen with }
  | settle => exact { h.ends (ends_settle c _ _ _).1 (ends_settle c _ _ _).2 with }
  | next => exact { hnil with }
  | last | stop | close => cases hopen'

/-- In a run whose steps keep account, the windows of an open connection are the server's at every step. -/
theorem windows_tracked {current serverS : Settings} {es : List Label}
    (h : Along step (fun c l => c.accounted l = true) (newConn current serverS) es) :
    Always step (fun c tr => c.closed = false → WindowsTracked c tr) (newConn current serverS) es := by
  refine always_mono (fun c tr hi hopen => (hi.2 hopen).tracked) (always_of_along
    (fun c tr => WellFormed c ∧ (c.closed = false → RxInv c tr)) (fun c tr l c' out hi ha hs => ?_)
    ⟨wellFormed_newConn current serverS, fun _ => ?_⟩ h)
  · refine ⟨wellFormed_step hi.1 hs, fun hopen => ?_⟩
    have hopen0 := closed_step hs hopen
    exact rxInv_step hi.1 (hi.2 hopen0) hopen0 ha hs hopen
  · exact ⟨rfl, rfl, nofun, nofun, fun _ _ _ => ⟨rfl, rfl⟩⟩

/-- The steps of the read loop on a frame of a live stream, with all updates queued. -/
def handled (f : Frame) : List Label := .recv f ⟨true, true⟩ :: List.replicate 3 (.readStep ⟨true, true⟩)

/-- The response 200 on stream 1, and three octets of its body. -/
def okResponse : Frame := { type := 1, flags := 0x4, streamID := 1, payload := [0x88] }
def okBody : Frame := { type := 0, flags := 0, streamID := 1, payload := [1, 2, 3] }

/-- A request is sent, and the response and a part of the body are received. -/
def getRun : List Label :=
  [.submit false false, .write, .writeStep true, .writeStep true] ++ handled okResponse ++ handled okBody

theorem windows_tracked_sample : ∃ c tr, run step (newConn { windowSize := 6291456 } {}) getRun = some (c, tr) ∧
    c.closed = false ∧ c.getStream 1 = some 0 ∧ received (· == 1) tr = 3 ∧ WindowsTracked c tr := by
  have h : (run step (newConn { windowSize := 6291456 } {}) getRun).map
      (fun r => (r.1.closed, r.1.getStream 1, received (· == 1) r.2)) = some (false, some 0, 3) := by decide +kernel
  obtain ⟨⟨c, tr⟩, hr, he⟩ := Option.map_eq_some_iff.1 h
  simp only [Prod.mk.injEq] at he
  obtain ⟨hopen, hget, hrec⟩ := he
  exact ⟨c, tr, hr, hopen, hget, hrec,
    windows_tracked (by decide +kernel) getRun c tr (prefix_refl _) hr hopen⟩

/-- How far a stream's window is from the server's view of it. -/
def drift (c : Conn) (tr : List Obs) (id r : Nat) : Int :=
  (c.ctxs r).streamRxWindow - (c.current.windowSize + granted id tr - received (· == id) tr)

/-- With a window of 65535 advertised, the first stream starts at 6291456. -/
theorem initial_window_ignored : ∃ c tr, run step (newConn { windowSize := 65535 } {})
    [.submit false false, .write, .writeStep true] = some (c, tr) ∧ c.closed = false ∧ ¬ WindowsTracked c tr := by
  have h : (run step (newConn { windowSize := 65535 } {}) [.submit false false, .write, .writeStep true]).map
      (fun r => (r.1.closed, r.1.getStream 1, (r.1.ctxs 0).state, drift r.1 r.2 1 0)) =
      some (false, some 0, .streamHalfClosed, 6225921) := by decide +kernel
  obtain ⟨⟨c, tr⟩, hr, he⟩ := Option.map_eq_some_iff.1 h
  simp only [Prod.mk.injEq] at he
  obtain ⟨hopen, hget, hst, hdrift⟩ := he
  refine ⟨c, tr, hr, hopen, fun ht => ?_⟩
  have hs := ht.streams 1 0 hget (by rw [hst]; decide)
  unfold drift at hdrift
  omega

end Mach.H2.ClientConn
