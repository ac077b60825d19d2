import Mach.H2.Client.Conn
/-!
# What a step of the client leaves alone

`Kept` is what handling any frame leaves alone: the table, the states of the
streams and the counters that open and close them. `Quiet` adds the receive
windows, which only DATA touches. `Received` and `Read` list what the two halves of
the read loop's work on a frame can do.
-/

namespace Mach.H2.ClientConn
open Lib Hpack Headkit Conn Function

structure Kept (c c' : Conn) : Prop where
  current : c'.current = c.current
  serverS : c'.serverS = c.serverS
  enc : c'.enc = c.enc
  maxWindow : c'.maxWindow = c.maxWindow
  nextID : c'.nextID = c.nextID
  openStreams : c'.openStreams = c.openStreams
  refs : c'.refs = c.refs
  queue : c'.queue = c.queue
  table : c'.table = c.table
  closed : c'.closed = c.closed
  reader : c'.reader = c.reader
  writer : c'.writer = c.writer
  cancels : c'.cancels = c.cancels
  streamID : ∀ r, (c'.ctxs r).streamID = (c.ctxs r).streamID
  state : ∀ r, (c'.ctxs r).state = (c.ctxs r).state

structure Quiet (c c' : Conn) : Prop extends Kept c c' where
  currentWindow : c'.currentWindow = c.currentWindow
  rx : ∀ r, (c'.ctxs r).streamRxWindow = (c.ctxs r).streamRxWindow

section Relations

variable {c c' c'' : Conn}

theorem Kept.refl (c : Conn) : Kept c c :=
  ⟨rfl, rfl, rfl, rfl, rfl, rfl, rfl, rfl, rfl, rfl, rfl, rfl, rfl, fun _ => rfl, fun _ => rfl⟩

theorem Kept.trans (h : Kept c c') (h' : Kept c' c'') : Kept c c'' where
  current := h'.current.trans h.current
  serverS := h'.serverS.trans h.serverS
  enc := h'.enc.trans h.enc
  maxWindow := h'.maxWindow.trans h.maxWindow
  nextID := h'.nextID.trans h.nextID
  openStreams := h'.openStreams.trans h.openStreams
  refs := h'.refs.trans h.refs
  queue := h'.queue.trans h.queue
  table := h'.table.trans h.table
  closed := h'.closed.trans h.closed
  reader := h'.reader.trans h.reader
  writer := h'.writer.trans h.writer
  cancels := h'.cancels.trans h.cancels
  streamID r := (h'.streamID r).trans (h.streamID r)
  state r := (h'.state r).trans (h.state r)

theorem Quiet.refl (c : Conn) : Quiet c c := ⟨.refl c, rfl, fun _ => rfl⟩

theorem Quiet.trans (h : Quiet c c') (h' : Quiet c' c'') : Quiet c c'' :=
  ⟨h.toKept.trans h'.toKept, h'.currentWindow.trans h.currentWindow, fun r => (h'.rx r).trans (h.rx r)⟩

/-- What the new context has in common with the old one is left alone everywhere. -/
theorem setCtx_field {α : Type} (c : Conn) {r : Nat} {ctx : Context} (g : Context → α) (h : g ctx = g (c.ctxs r))
    (r' : Nat) : g ((c.setCtx r ctx).ctxs r') = g (c.ctxs r') := by
  simp only [setCtx, update_apply]
  split
  · rw [h, ‹r' = r›]
  · rfl

theorem kept_setCtx (c : Conn) {r : Nat} {ctx : Context} (hid : ctx.streamID = (c.ctxs r).streamID)
    (hst : ctx.state = (c.ctxs r).state) : Kept c (c.setCtx r ctx) :=
  { Kept.refl c with streamID := setCtx_field c _ hid, state := setCtx_field c _ hst }

theorem quiet_setCtx (c : Conn) {r : Nat} {ctx : Context} (hid : ctx.streamID = (c.ctxs r).streamID)
    (hst : ctx.state = (c.ctxs r).state) (hrx : ctx.streamRxWindow = (c.ctxs r).streamRxWindow) :
    Quiet c (c.setCtx r ctx) :=
  ⟨kept_setCtx c hid hst, rfl, setCtx_field c _ hrx⟩

end Relations

/-! ## The handlers -/

section Handlers

variable (c : Conn)

/-- The decoder, the block that is being received and the connection's send window are not among the accounts. -/
theorem quiet_of_fields (dec : HPACK) (continuationStream consecutiveControlFrames : Nat) (headerBuf : List UInt8)
    (serverWindow : Int) :
    Quiet c { c with dec, continuationStream, consecutiveControlFrames, headerBuf, serverWindow } :=
  ⟨{ Kept.refl c with }, rfl, fun _ => rfl⟩

theorem quiet_headerBuf (headerBuf : List UInt8) : Quiet c { c with headerBuf } := quiet_of_fields c _ _ _ _ _

theorem quiet_readHeader (b : List UInt8) : Quiet c (c.readHeader b).1 := quiet_of_fields c _ _ _ _ _

theorem quiet_readTrailers (b : List UInt8) : Quiet c (c.readTrailers b).1 := quiet_of_fields c _ _ _ _ _

theorem quiet_collect (f : Frame) (fragment : List UInt8) : Quiet c (c.collect f fragment).1 := by
  unfold collect
  split
  · exact quiet_of_fields c _ _ _ _ _
  · split
    · exact quiet_of_fields c _ _ _ _ _
    · exact .refl c

theorem quiet_liveHeaders (f : Frame) (fragment : List UInt8) (r : Nat) : Quiet c (c.liveHeaders f fragment r).1 := by
  unfold liveHeaders
  have hc := quiet_collect c f fragment
  generalize c.collect f fragment = p at hc ⊢
  obtain ⟨c1, _ | block⟩ := p
  · exact hc
  · refine hc.trans ?_
    dsimp only
    split
    · split
      · exact quiet_headerBuf c1 []
      · have ht := quiet_readTrailers c1 block
        generalize c1.readTrailers block = p at ht ⊢
        obtain ⟨c2, _ | e⟩ := p
        · refine (ht.trans (quiet_headerBuf c2 [])).trans (quiet_setCtx _ ?_ ?_ ?_)
          · exact (ht.streamID r).symm
          · exact (ht.state r).symm
          · exact (ht.rx r).symm
        · exact ht.trans (quiet_headerBuf c2 [])
    · have hh := quiet_readHeader c1 block
      generalize c1.readHeader block = p at hh ⊢
      obtain ⟨c2, p, err⟩ := p
      refine (hh.trans (quiet_headerBuf c2 [])).trans (quiet_setCtx _ ?_ ?_ ?_)
      · exact (hh.streamID r).symm
      · exact (hh.state r).symm
      · exact (hh.rx r).symm

theorem quiet_handleWindowUpdate (streamID increment : Nat) :
    Quiet c (c.handleWindowUpdate streamID increment).1 := by
  unfold handleWindowUpdate
  split
  · exact .refl c
  · split
    · split
      · exact .refl c
      · exact quiet_of_fields c _ _ _ _ _
    · split
      · exact .refl c
      · dsimp only
        split
        · exact .refl c
        · exact quiet_setCtx c rfl rfl rfl

theorem shiftWindows_same (delta : Int) (rs : List Nat) (ctxs : Nat → Context) (r : Nat) :
    ((Conn.shiftWindows delta rs ctxs).1 r).streamID = (ctxs r).streamID ∧
      ((Conn.shiftWindows delta rs ctxs).1 r).state = (ctxs r).state ∧
      ((Conn.shiftWindows delta rs ctxs).1 r).streamRxWindow = (ctxs r).streamRxWindow := by
  induction rs generalizing ctxs with
  | nil => exact ⟨rfl, rfl, rfl⟩
  | cons r' rs ih =>
    simp only [shiftWindows]
    split
    · exact ⟨rfl, rfl, rfl⟩
    · obtain ⟨h1, h2, h3⟩ := ih (Function.update ctxs r' _)
      rw [h1, h2, h3]
      simp only [update_apply]
      split
      · rename_i h
        subst h
        exact ⟨rfl, rfl, rfl⟩
      · exact ⟨rfl, rfl, rfl⟩

/-- Without an overflow every stream of the list has its send window shifted. -/
theorem shiftWindows_window {delta : Int} {rs : List Nat} {ctxs ctxs' : Nat → Context} (hrs : rs.Nodup)
    (h : Conn.shiftWindows delta rs ctxs = (ctxs', true)) (r : Nat) :
    (ctxs' r).streamWindow = (ctxs r).streamWindow + if r ∈ rs then delta else 0 := by
  induction rs generalizing ctxs with
  | nil =>
    cases h
    simp
  | cons r' rs ih =>
    obtain ⟨hr', hrs⟩ := List.nodup_cons.1 hrs
    simp only [shiftWindows] at h
    split at h
    · cases h
    rw [ih hrs h, update_apply]
    by_cases hr : r = r'
    · subst hr
      simp [hr']
    · simp [hr]

/-- SETTINGS that are taken shift the windows by what INITIAL_WINDOW_SIZE changed. -/
theorem window_handleSettings {st : Settings} (h : (c.handleSettings st).2 = none) (htable : c.table.Nodup) {r : Nat}
    (hr : r ∈ c.table) : ((c.handleSettings st).1.ctxs r).streamWindow =
      (c.ctxs r).streamWindow + ((st.windowSize : Int) - c.serverS.windowSize) := by
  unfold handleSettings at h ⊢
  dsimp only at h ⊢
  split
  · rename_i hd
    rw [hd, Int.add_zero]
  · rename_i hd
    rw [if_neg hd] at h
    cases hs : shiftWindows (st.windowSize - c.serverS.windowSize) c.table c.ctxs with
    | mk ctxs ok =>
      cases ok with
      | false => simp [hs] at h
      | true => simpa [hr] using shiftWindows_window htable hs r

/-- SETTINGS that are taken replace the server's; SETTINGS that are refused change nothing but send windows. -/
theorem quiet_handleSettings (st : Settings) :
    ((c.handleSettings st).2 = none ∧ Quiet { c with serverS := st, enc := c.enc.setMaxTableSize st.tableSize } (c.handleSettings st).1) ∨
      ((c.handleSettings st).2 ≠ none ∧ Quiet c (c.handleSettings st).1) := by
  unfold handleSettings
  dsimp only
  split
  · exact .inl ⟨rfl, .refl _⟩
  · have hs := shiftWindows_same (st.windowSize - c.serverS.windowSize) c.table c.ctxs
    generalize shiftWindows (st.windowSize - c.serverS.windowSize) c.table c.ctxs = p at hs ⊢
    obtain ⟨ctxs, _ | _⟩ := p
    · refine .inr ⟨nofun, { Kept.refl c with streamID := ?_, state := ?_ }, rfl, ?_⟩
      · exact fun r => (hs r).1
      · exact fun r => (hs r).2.1
      · exact fun r => (hs r).2.2
    · refine .inl ⟨rfl, { Kept.refl _ with streamID := ?_, state := ?_ }, rfl, ?_⟩
      · exact fun r => (hs r).1
      · exact fun r => (hs r).2.1
      · exact fun r => (hs r).2.2

/-- A promise is refused or ignored, or its stream goes into the table. -/
theorem quiet_handlePushPromise (promisedID : Nat) (header : List UInt8) :
    Quiet c (c.handlePushPromise promisedID header).1 ∨
      ∃ c1, Quiet c c1 ∧ promisedID ≠ 0 ∧ promisedID % 2 = 0 ∧
        c.handlePushPromise promisedID header = (c1.storePush promisedID, none) := by
  unfold handlePushPromise
  split
  · exact .inl (.refl c)
  · split
    · exact .inl (.refl c)
    · rename_i hid
      simp only [not_or, not_not] at hid
      generalize pushFields header.length c.dec {} [] header = p
      obtain ⟨dec, method, _ | e⟩ := p
      · dsimp only
        split
        · exact .inl (quiet_of_fields c _ _ _ _ _)
        · exact .inr ⟨{ c with dec }, quiet_of_fields c _ _ _ _ _, hid.1, hid.2, rfl⟩
      · exact .inl (quiet_of_fields c _ _ _ _ _)

theorem quiet_sent (r n : Nat) :
    Quiet c { c.setCtx r { c.ctxs r with streamWindow := (c.ctxs r).streamWindow - n } with
      serverWindow := c.serverWindow - n } := by
  have hset : Quiet c (c.setCtx r { c.ctxs r with streamWindow := (c.ctxs r).streamWindow - n }) :=
    quiet_setCtx c rfl rfl rfl
  exact hset.trans (quiet_of_fields _ _ _ _ _ _)

theorem kept_chargeConn (dataLen : Nat) (queued : Bool) : Kept c (c.chargeConn dataLen queued).1 := by
  unfold chargeConn
  dsimp only
  split
  · exact { Kept.refl c with }
  · exact { Kept.refl c with }

theorem kept_chargeStream (r streamID dataLen : Nat) (queued : Bool) :
    Kept c (c.chargeStream r streamID dataLen queued).1 := by
  unfold chargeStream
  dsimp only
  split
  · exact kept_setCtx c rfl rfl
  · exact kept_setCtx c rfl rfl

end Handlers

/-! ## The first half: reading a frame -/

theorem quiet_checkFrame {c c' : Conn} {f : Frame} {b : Body} (h : c.checkFrame f = .ok (c', b)) :
    Quiet c c' ∧ c'.ctxs = c.ctxs ∧ f.body = .ok b := by
  unfold checkFrame at h
  split at h
  · cases h
  rename_i b' hb
  split at h
  · cases h
  split at h
  · cases h
  cases h
  exact ⟨quiet_of_fields c _ _ _ _ _, rfl, hb⟩

/-- A body that moves no account: no DATA, no GOAWAY, and SETTINGS only as an acknowledgement. -/
def Idle : Body → Prop
  | .data _ => False
  | .goAway _ _ => False
  | .settings st => st.ack = true
  | _ => True

/-- What reading a frame can do. -/
inductive Received (c : Conn) (f : Frame) (q : Queue) : Conn → List Obs → Prop
  /-- The frame ends the read loop before it is handled. -/
  | refused : Received c f q c.stop []
  /-- The frame is handled and no account is touched. -/
  | quiet {c' b} : f.body = .ok b → Idle b → Quiet c c' → Received c f q c' [.recv f]
  /-- A frame on the connection is refused, which ends the read loop. -/
  | rejected {c'} : Quiet c c' → Received c f q c'.stop []
  /-- The block of a dead stream is handled and ends the read loop. -/
  | stopped {c' b} : f.body = .ok b → Idle b → Quiet c c' → Received c f q c'.stop [.recv f]
  | settings {st c'} : f.body = .ok (.settings st) → st.ack = false →
      Quiet { c with serverS := st, enc := c.enc.setMaxTableSize st.tableSize } c' →
      (c.table.Nodup → ∀ r ∈ c.table, (c'.ctxs r).streamWindow =
        (c.ctxs r).streamWindow + ((st.windowSize : Int) - c.serverS.windowSize)) → Received c f q c' [.recv f]
  | goAway {c' last code} : f.body = .ok (.goAway last code) → Quiet c c' →
      Received c f q (c'.handleGoAway last).1 (.recv f :: (c'.handleGoAway last).2)
  /-- DATA of a stream that is gone. -/
  | data {c' d} : f.body = .ok (.data d) → Quiet c c' →
      (∀ r, c'.getStream f.streamID = some r → (c'.ctxs r).state = .streamClosed) →
      Received c f q (c'.chargeConn f.payload.length q.conn).1
        (.recv f :: (c'.chargeConn f.payload.length q.conn).2)
  | found {c' b r} : f.body = .ok b → f.streamID ≠ 0 → Quiet c c' → c'.getStream f.streamID = some r →
      (c'.ctxs r).state ≠ .streamClosed → Received c f q { c' with reader := .found f b r } []

theorem received_deadHeaders {c c' : Conn} {f : Frame} {q : Queue} {b : Body} (hb : f.body = .ok b)
    (hd : Idle b) (hq : Quiet c c') (fragment : List UInt8) :
    Received c f q (c'.deadHeaders f fragment) [.recv f] := by
  unfold deadHeaders
  have hc := hq.trans (quiet_collect c' f fragment)
  generalize c'.collect f fragment = p at hc ⊢
  obtain ⟨c1, _ | block⟩ := p
  · exact .quiet hb hd hc
  · have hh := hc.trans (quiet_readHeader c1 block)
    dsimp only
    generalize c1.readHeader block = p at hh ⊢
    obtain ⟨c2, p, _ | e⟩ := p
    · exact .quiet hb hd (hh.trans (quiet_headerBuf c2 []))
    · exact .stopped hb hd (hh.trans (quiet_headerBuf c2 []))

theorem received_dead {c c' : Conn} {f : Frame} {q : Queue} {b : Body} (hb : f.body = .ok b) (h0 : f.streamID ≠ 0)
    (hq : Quiet c c') (hdead : ∀ r, c'.getStream f.streamID = some r → (c'.ctxs r).state = .streamClosed) :
    Received c f q (c'.readDead f q b).1 (.recv f :: (c'.readDead f q b).2) := by
  cases b with
  | headers fragment => exact received_deadHeaders hb trivial hq fragment
  | continuation fragment => exact received_deadHeaders hb trivial hq fragment
  | data d => exact .data hb hq hdead
  | settings st => exact absurd ((fits_body hb).2) h0
  | goAway last code => exact absurd ((fits_body hb).2) h0
  | _ => exact .quiet hb trivial hq

theorem received_connection {c c' : Conn} {f : Frame} {q : Queue} {b : Body} (hb : f.body = .ok b)
    (hd : ∀ d, b ≠ .data d) (hq : Quiet c c') (hctxs : c'.ctxs = c.ctxs) :
    Received c f q
      (if (c'.handleConnectionFrame b).2.1 = none then (c'.handleConnectionFrame b).1
        else (c'.handleConnectionFrame b).1.stop)
      (if (c'.handleConnectionFrame b).2.1 = none then .recv f :: (c'.handleConnectionFrame b).2.2
        else (c'.handleConnectionFrame b).2.2) := by
  cases b with
  | data d => exact absurd rfl (hd d)
  | settings st =>
    simp only [handleConnectionFrame]
    split
    · rename_i hack
      exact .quiet hb hack hq
    · rename_i hack
      dsimp only
      obtain ⟨he, hs⟩ | ⟨he, hs⟩ := quiet_handleSettings c' st
      · simp only [he, if_true]
        refine .settings hb (by simpa using hack) (Quiet.trans ?_ hs) fun htable r hr => ?_
        · exact ⟨{ hq.toKept with serverS := rfl, enc := by rw [hq.enc] }, hq.currentWindow, hq.rx⟩
        · rw [window_handleSettings c' he (hq.table ▸ htable) (hq.table ▸ hr), hctxs, hq.serverS]
      · simp only [he, if_false]
        exact .rejected (hq.trans hs)
  | windowUpdate increment =>
    have hw := hq.trans (quiet_handleWindowUpdate c' 0 increment)
    simp only [handleConnectionFrame]
    by_cases he : (c'.handleWindowUpdate 0 increment).2 = none
    · simp only [he, if_true]
      exact .quiet hb trivial hw
    · simp only [he, if_false]
      exact .rejected hw
  | goAway last code => exact .goAway hb hq
  | _ => exact .quiet hb trivial hq

theorem received_recv (c : Conn) (f : Frame) (q : Queue) : Received c f q (c.recv f q).1 (c.recv f q).2 := by
  unfold recv
  split
  · exact .refused
  · rename_i c' b hok
    obtain ⟨hq, hctxs, hb⟩ := quiet_checkFrame hok
    split
    · rename_i h0
      have hr := @received_connection c c' f q b hb (by rintro d rfl; exact (fits_body hb).2 h0) hq hctxs
      generalize c'.handleConnectionFrame b = p at hr ⊢
      obtain ⟨c1, _ | e, out⟩ := p
      · exact hr
      · exact hr
    · rename_i h0
      dsimp only
      split
      · rename_i hr
        exact received_dead hb h0 hq fun r h => by rw [hr] at h; cases h
      · rename_i r hr
        split
        · rename_i hst
          refine received_dead hb h0 hq fun r' h => ?_
          rw [hr] at h
          cases h
          exact hst
        · rename_i hst
          exact .found hb h0 hq hr hst

/-! ## The second half: handling it on its stream -/

inductive Read (c : Conn) (f : Frame) (r : Nat) (q : Queue) (b : Body) : Conn → Option Err → List Obs → Prop
  /-- No DATA is handled. -/
  | quiet {c' err} : Quiet c c' → ((∃ d, b = .data d) → (c.ctxs r).state = .streamClosed ∨ (c.ctxs r).response = none ∨
      (c.ctxs r).trailersReceived) → Read c f r q b c' err []
  | pushed {c' id header} : b = .pushPromise id header → Quiet c c' → id ≠ 0 → id % 2 = 0 →
      c.handlePushPromise id header = (c'.storePush id, none) → Read c f r q b (c'.storePush id) none []
  | charged {d} : b = .data d → (c.ctxs r).state ≠ .streamClosed →
      Read c f r q b ((c.chargeStream r f.streamID f.payload.length q.stream).1.chargeConn f.payload.length q.conn).1
        none ((c.chargeStream r f.streamID f.payload.length q.stream).2 ++
          ((c.chargeStream r f.streamID f.payload.length q.stream).1.chargeConn f.payload.length q.conn).2)
  /-- DATA without data is charged to the connection only, unless the stream is a tunnel. -/
  | padding : b = .data [] → (c.ctxs r).state ≠ .streamClosed → (c.ctxs r).isTunnelActive = false →
      Read c f r q b (c.chargeConn f.payload.length q.conn).1 none (c.chargeConn f.payload.length q.conn).2

theorem read_readData (c : Conn) (f : Frame) (r : Nat) (q : Queue) {d : List UInt8}
    (hst : (c.ctxs r).state ≠ .streamClosed) :
    Read c f r q (.data d) (c.readData f d r q).1 (c.readData f d r q).2.1 (c.readData f d r q).2.2 := by
  unfold readData
  dsimp only
  split
  · rename_i ht
    exact .quiet (.refl c) fun _ => .inr (.inr ht)
  · split
    · exact .charged rfl hst
    · rename_i hne
      simp only [Bool.or_eq_true, bne_iff_ne, ne_eq, not_or, not_not, Bool.not_eq_true] at hne
      obtain ⟨ht, rfl⟩ := hne
      exact .padding rfl hst ht

theorem read_readStream (c : Conn) (f : Frame) (r : Nat) (q : Queue) (b : Body) :
    Read c f r q b (c.readStream f r q b).1 (c.readStream f r q b).2.1 (c.readStream f r q b).2.2 := by
  unfold readStream
  dsimp only
  split
  · rename_i hdead
    have hd : (∃ d, b = .data d) → (c.ctxs r).state = .streamClosed ∨ (c.ctxs r).response = none ∨
        (c.ctxs r).trailersReceived := fun _ => hdead.imp_right .inl
    split
    · exact .quiet (quiet_readHeader c _) hd
    · exact .quiet (quiet_readHeader c _) hd
    · exact .quiet (.refl c) hd
  · rename_i hlive
    rw [not_or] at hlive
    cases b with
    | headers fragment => exact .quiet (quiet_liveHeaders c f fragment r) nofun
    | continuation fragment => exact .quiet (quiet_liveHeaders c f fragment r) nofun
    | pushPromise promisedID header =>
      obtain hq | ⟨c1, hq, h0, he, heq⟩ := quiet_handlePushPromise c promisedID header
      · exact .quiet hq nofun
      · dsimp only
        rw [heq]
        exact .pushed rfl hq h0 he heq
    | data d => exact read_readData c f r q hlive.1
    | windowUpdate increment => exact .quiet (quiet_handleWindowUpdate c _ _) nofun
    | _ => exact .quiet (.refl c) nofun

/-! ## Every step -/

/-- What the steps that end a stream have in common: they do not look at the settings, nor at where the write loop is. -/
structure Aside (c c' : Conn) (id : Nat) (out : List Obs) : Prop where
  closed : c'.closed = c.closed
  serverS : c'.serverS = c.serverS
  enc : c'.enc = c.enc
  writer : c'.writer = c.writer
  out : out = [] ∨ out = [.ended id]

theorem aside_settle (c : Conn) (f : Frame) (r : Nat) (err : Option Err) :
    Aside c (c.settle f r err).1 f.streamID (c.settle f r err).2 := by
  cases err with
  | some e => exact ⟨rfl, rfl, rfl, rfl, .inr rfl⟩
  | none =>
    simp only [settle]
    split
    · split
      · exact ⟨rfl, rfl, rfl, rfl, .inl rfl⟩
      · exact ⟨rfl, rfl, rfl, rfl, .inr rfl⟩
    · split
      · exact ⟨rfl, rfl, rfl, rfl, .inr rfl⟩
      · exact ⟨rfl, rfl, rfl, rfl, .inl rfl⟩

theorem aside_cancelStep (c : Conn) (r : Nat) :
    Aside c (c.cancelStep r).1 (c.ctxs r).streamID (c.cancelStep r).2 := by
  unfold cancelStep
  dsimp only
  split
  · exact ⟨rfl, rfl, rfl, rfl, .inl rfl⟩
  · exact ⟨rfl, rfl, rfl, rfl, .inr rfl⟩

theorem aside_cancel (c : Conn) (r : Nat) : Aside c (c.cancel r) 0 [] := by
  unfold cancel
  split <;> exact ⟨rfl, rfl, rfl, rfl, .inl rfl⟩

inductive Stepped (c : Conn) : Label → Conn → List Obs → Prop
  | submit {hasBody isTunnel} : Stepped c (.submit hasBody isTunnel)
      { c.setCtx c.refs { hasBody, isTunnel } with refs := c.refs + 1, queue := c.queue ++ [c.refs] } []
  | write {r queue} : c.writer = .idle → c.queue = r :: queue → Stepped c .write ({ c with queue }.beginRequest r) []
  | opened {r id ok} : c.writer = .opening r id → Stepped c (.writeStep ok) (c.openRequest r id) [.opened id]
  | written {r id w} : c.writer = .headers r id ∨ c.writer = .body r id → w = .body r id ∨ w = .idle →
      Stepped c (.writeStep true) { c with writer := w } []
  | abandoned {r id} : c.writer = .headers r id ∨ c.writer = .body r id →
      Stepped c (.writeStep false) (c.abandon r id).1 [.ended id]
  | encode {hf store} : Stepped c (.encode hf store) { c with enc := (c.enc.appendHeader [] hf store).1 } []
  | sent {r n} : Stepped c (.sent r n)
      { c.setCtx r { c.ctxs r with streamWindow := (c.ctxs r).streamWindow - n } with
        serverWindow := c.serverWindow - n } []
  | cancel {r} : c.isRequest r → Stepped c (.cancel r) (c.cancel r) []
  | cancelStep {r} : r ∈ c.cancels → Stepped c (.cancelStep r) (c.cancelStep r).1 (c.cancelStep r).2
  | recv {f q c' out} : Received c f q c' out → Stepped c (.recv f q) c' out
  | read {f b r q c' err out} : c.reader = .found f b r → Read c f r q b c' err out →
      Stepped c (.readStep q) { c' with reader := .returned f r err } (.recv f :: out)
  | settle {f r err q} : c.reader = .returned f r err →
      Stepped c (.readStep q) { (c.settle f r err).1 with reader := .handled } (c.settle f r err).2
  | next {q} : Stepped c (.readStep q) { c with reader := .next } []
  /-- A GOAWAY frame was the last thing to handle. -/
  | last {q} : Stepped c (.readStep q) { c.close with reader := .next } []
  | stop {l} : Stepped c l c.stop []
  | close : Stepped c .close c.close []

variable {c c' : Conn} {l : Label} {out : List Obs}

theorem stepped_writeStep {ok : Bool} (h : c.writeStep ok = some (c', out)) : Stepped c (.writeStep ok) c' out := by
  unfold writeStep at h
  split at h
  · cases h
  · rename_i hwr
    cases h
    exact .opened hwr
  · rename_i r id hwr
    cases ok with
    | true =>
      cases h
      refine .written (.inl hwr) ?_
      split
      · exact .inl rfl
      · exact .inr rfl
    | false =>
      cases h
      exact .abandoned (.inl hwr)
  · rename_i r id hwr
    cases ok with
    | true =>
      cases h
      exact .written (.inr hwr) (.inr rfl)
    | false =>
      cases h
      exact .abandoned (.inr hwr)

theorem stepped_readStep {q : Queue} (h : c.readStep q = some (c', out)) : Stepped c (.readStep q) c' out := by
  unfold readStep at h
  split at h
  · cases h
  · cases h
  · rename_i f b r hrd
    cases h
    exact .read hrd (read_readStream c f r q b)
  · rename_i hrd
    cases h
    exact .settle hrd
  · cases h
    split
    · exact .stop
    · exact .next
  · cases h
    split
    · exact .last
    · exact .next

theorem stepped_step (h : step c l = some (c', out)) : Stepped c l c' out := by
  cases l with
  | submit hasBody isTunnel =>
    simp only [step] at h
    split at h <;> cases h
    exact .submit
  | write =>
    simp only [step] at h
    split at h
    · rename_i hidle hqueue
      cases h
      exact .write hidle hqueue
    · cases h
  | writeStep ok => exact stepped_writeStep h
  | encode hf store =>
    cases h
    exact .encode
  | sent r n =>
    cases h
    exact .sent
  | cancel r =>
    simp only [step] at h
    split at h
    · cases h
      exact .cancel ‹_›
    · cases h
  | cancelStep r =>
    simp only [step] at h
    split at h
    · rename_i hr
      have hc : Stepped c (.cancelStep r) (c.cancelStep r).1 (c.cancelStep r).2 := .cancelStep hr.1
      rwa [Option.some.inj h] at hc
    · cases h
  | recv f q =>
    simp only [step] at h
    split at h
    · have hr := received_recv c f q
      rw [Option.some.inj h] at hr
      exact .recv hr
    · cases h
  | readStep q => exact stepped_readStep h
  | readError =>
    simp only [step] at h
    split at h <;> cases h
    exact .stop
  | close =>
    cases h
    exact .close

end Mach.H2.ClientConn
