import Mach.H2.Client.Steps
/-!
# References and stream ids

The streams the client opens have odd ids, each its own context; ids are handed
out in order and the table holds no context twice. This holds in every state of
every run, whatever the server sends.
-/

namespace Mach.H2.ClientConn
open Lib Hpack Headkit List Conn

def WriterFits (c : Conn) : Writer → Prop
  | .idle => True
  | .opening r id => (c.ctxs r).streamID = 0 ∧ r < c.refs ∧ r ∉ c.queue ∧ id % 2 = 1 ∧ id < c.nextID ∧
      ∀ r', (c.ctxs r').streamID ≠ id
  | .headers r id => (c.ctxs r).streamID = id ∧ id % 2 = 1
  | .body r id => (c.ctxs r).streamID = id ∧ id % 2 = 1

def ReaderFits (c : Conn) : Reader → Prop
  | .found f b r => (c.ctxs r).streamID = f.streamID ∧ f.streamID ≠ 0 ∧ f.body = .ok b
  | .returned f r _ => (c.ctxs r).streamID = f.streamID ∧ f.streamID ≠ 0
  | _ => True

structure WellFormed (c : Conn) : Prop where
  unused : ∀ r, c.refs ≤ r → (c.ctxs r).streamID = 0
  nextID : c.nextID % 2 = 1
  odd_lt : ∀ r, (c.ctxs r).streamID % 2 = 1 → (c.ctxs r).streamID < c.nextID
  inj : ∀ r r', (c.ctxs r).streamID % 2 = 1 → (c.ctxs r).streamID = (c.ctxs r').streamID → r = r'
  table_nodup : c.table.Nodup
  stored : ∀ r ∈ c.table, (c.ctxs r).streamID ≠ 0
  queue_nodup : c.queue.Nodup
  queued : ∀ r ∈ c.queue, (c.ctxs r).streamID = 0 ∧ r < c.refs
  cancelled : ∀ r ∈ c.cancels, r < c.refs ∧ ((c.ctxs r).streamID = 0 ∨ (c.ctxs r).streamID % 2 = 1)
  writer : WriterFits c c.writer
  reader : ReaderFits c c.reader

theorem wellFormed_newConn (current serverS : Settings) : WellFormed (newConn current serverS) where
  unused _ _ := rfl
  nextID := rfl
  odd_lt r h := by cases h
  inj r r' h := by cases h
  table_nodup := .nil
  stored := nofun
  queue_nodup := .nil
  queued := nofun
  cancelled := nofun
  writer := trivial
  reader := trivial

section Keeping

variable {c c' : Conn}

theorem ReaderFits.of_used {rd : Reader} (h : ReaderFits c rd)
    (hid : ∀ r, (c.ctxs r).streamID ≠ 0 → (c'.ctxs r).streamID = (c.ctxs r).streamID) : ReaderFits c' rd := by
  cases rd with
  | found f b r => exact ⟨(hid r (h.1 ▸ h.2.1)).trans h.1, h.2⟩
  | returned f r err => exact ⟨(hid r (h.1 ▸ h.2)).trans h.1, h.2⟩
  | _ => trivial

section Keeps

variable (hw : WellFormed c)
include hw

/-- A step that leaves the ids as they are and stores, queues and cancels nothing. -/
theorem WellFormed.of_same (hid : ∀ r, (c'.ctxs r).streamID = (c.ctxs r).streamID)
    (hrefs : c'.refs = c.refs) (hnext : c'.nextID = c.nextID) (htable : c'.table = c.table) (hqueue : c'.queue = c.queue)
    (hcancels : c'.cancels = c.cancels) (hwriter : WriterFits c c'.writer) (hreader : ReaderFits c c'.reader) :
    WellFormed c' where
  unused r hr := (hid r).trans (hw.unused r (hrefs ▸ hr))
  nextID := hnext ▸ hw.nextID
  odd_lt r h := by
    rw [hid] at h ⊢
    exact hnext ▸ hw.odd_lt r h
  inj r r' h he := by
    rw [hid] at h
    rw [hid, hid] at he
    exact hw.inj r r' h he
  table_nodup := htable ▸ hw.table_nodup
  stored r hr := by
    rw [hid]
    exact hw.stored r (htable ▸ hr)
  queue_nodup := hqueue ▸ hw.queue_nodup
  queued r hr := by
    rw [hid, hrefs]
    exact hw.queued r (hqueue ▸ hr)
  cancelled r hr := by
    rw [hid, hrefs]
    exact hw.cancelled r (hcancels ▸ hr)
  writer := by
    generalize c'.writer = w at hwriter ⊢
    cases w with
    | idle => trivial
    | opening r id => simpa only [WriterFits, hid, hrefs, hqueue, hnext] using hwriter
    | headers r id | body r id => simpa only [WriterFits, hid] using hwriter
  reader := hreader.of_used fun r _ => hid r

theorem WellFormed.kept (hk : Kept c c') : WellFormed c' :=
  hw.of_same hk.streamID hk.refs hk.nextID hk.table hk.queue hk.cancels (hk.writer ▸ hw.writer) (hk.reader ▸ hw.reader)

theorem WellFormed.setReader {rd : Reader} (h : ReaderFits c rd) :
    WellFormed { c with reader := rd } :=
  { hw with reader := h }

theorem WellFormed.setWriter {w : Writer} (h : WriterFits c w) : WellFormed { c with writer := w } :=
  { hw with writer := h }

theorem WellFormed.setServerS (st : Settings) (enc : HPACK) :
    WellFormed { c with serverS := st, enc } :=
  { hw with }

theorem WellFormed.close : WellFormed c.close := { hw with }

theorem WellFormed.stop : WellFormed c.stop := hw.close.setReader trivial

theorem WellFormed.deleteStream (streamID : Nat) : WellFormed (c.deleteStream streamID) :=
  { hw with
    table_nodup := hw.table_nodup.sublist eraseP_sublist
    stored := fun r hr => hw.stored r (eraseP_subset hr) }

end Keeps

end Keeping

section Contexts

variable (c : Conn)

theorem streamID_closeState (r r' : Nat) :
    ((c.setCtx r { c.ctxs r with state := .streamClosed }).ctxs r').streamID = (c.ctxs r').streamID :=
  setCtx_field c _ (by rfl) r'

theorem streamID_closeCtx (r r' : Nat) : ((c.closeCtx r).ctxs r').streamID = (c.ctxs r').streamID :=
  streamID_closeState c r r'

end Contexts

section Operations

variable {c : Conn} {r id : Nat}

theorem nodup_append_singleton {l : List Nat} {a : Nat} (h : l.Nodup) (ha : a ∉ l) : (l ++ [a]).Nodup := by
  refine nodup_append.2 ⟨h, by simp, fun b hb b' hb' => ?_⟩
  rw [mem_singleton.1 hb']
  rintro rfl
  exact ha hb

theorem openRequest_ne (c : Conn) (id : Nat) {r' : Nat} (h : r' ≠ r) : (c.openRequest r id).ctxs r' = c.ctxs r' := by
  simp [Conn.openRequest, storeStream, Conn.setCtx, h]

theorem openRequest_streamID (c : Conn) (r id : Nat) : ((c.openRequest r id).ctxs r).streamID = id := by
  simp [Conn.openRequest, storeStream, Conn.setCtx]

section Requests

variable (hw : WellFormed c)
include hw

theorem WellFormed.setCtx {ctx : Context} (hid : ctx.streamID = (c.ctxs r).streamID) :
    WellFormed (c.setCtx r ctx) :=
  hw.of_same (setCtx_field c _ hid) rfl rfl rfl rfl rfl hw.writer hw.reader

theorem WellFormed.closeCtx (r : Nat) : WellFormed (c.closeCtx r) :=
  hw.of_same (streamID_closeCtx c r) rfl rfl rfl rfl rfl hw.writer hw.reader

theorem WellFormed.finish (r streamID : Nat) : WellFormed (c.finish r streamID).1 :=
  (hw.closeCtx r).deleteStream streamID

theorem WellFormed.settle (f : Frame) (r : Nat) (err : Option Err) :
    WellFormed (c.settle f r err).1 := by
  cases err with
  | some e =>
    have hset : WellFormed (c.setCtx r { c.ctxs r with state := .streamClosed }) := hw.setCtx rfl
    exact hset.finish r f.streamID
  | none =>
    simp only [Conn.settle]
    split
    · split
      · exact hw.setCtx rfl
      · exact hw.finish r f.streamID
    · split
      · exact hw.finish r f.streamID
      · exact hw

theorem WellFormed.alloc (ctx : Context) (hid : ctx.streamID % 2 = 0)
    (hopening : ∀ r id, c.writer = .opening r id → ctx.streamID ≠ id) :
    WellFormed { c.setCtx c.refs ctx with refs := c.refs + 1 } := by
  have hold : ∀ r, r ≠ c.refs → (c.setCtx c.refs ctx).ctxs r = c.ctxs r := fun r hr => by simp [Conn.setCtx, hr]
  have hnew : (c.setCtx c.refs ctx).ctxs c.refs = ctx := by simp [Conn.setCtx]
  have hne : ∀ r, r < c.refs → r ≠ c.refs := fun r hr => hr.ne
  have hodd : ∀ r, ((c.setCtx c.refs ctx).ctxs r).streamID % 2 = 1 → r ≠ c.refs := by
    rintro r h rfl
    rw [hnew] at h
    omega
  have hused : ∀ r, (c.ctxs r).streamID ≠ 0 → r ≠ c.refs := by
    rintro r h rfl
    exact h (hw.unused _ (Nat.le_refl _))
  refine ⟨fun r hr => ?_, hw.nextID, fun r h => ?_, fun r r' h he => ?_, hw.table_nodup, fun r hr => ?_, hw.queue_nodup,
    fun r hr => ?_, fun r hr => ?_, ?_, ?_⟩
  · rw [hold r (Nat.ne_of_gt hr)]
    exact hw.unused r (Nat.le_of_succ_le hr)
  · have hr := hodd r h
    rw [hold r hr] at h ⊢
    exact hw.odd_lt r h
  · have hr := hodd r h
    have hr' := hodd r' (he ▸ h)
    rw [hold r hr] at h
    rw [hold r hr, hold r' hr'] at he
    exact hw.inj r r' h he
  · have hs := hw.stored r hr
    change ((c.setCtx c.refs ctx).ctxs r).streamID ≠ 0
    rw [hold r (hused r hs)]
    exact hs
  · obtain ⟨h0, hlt⟩ := hw.queued r hr
    change ((c.setCtx c.refs ctx).ctxs r).streamID = 0 ∧ r < c.refs + 1
    rw [hold r (hne r hlt)]
    exact ⟨h0, Nat.lt_succ_of_lt hlt⟩
  · obtain ⟨hlt, h⟩ := hw.cancelled r hr
    change r < c.refs + 1 ∧ _
    rw [hold r (hne r hlt)]
    exact ⟨Nat.lt_succ_of_lt hlt, h⟩
  · have hwr := hw.writer
    change WriterFits _ c.writer
    revert hwr hopening
    cases c.writer with
    | idle => exact fun _ _ => trivial
    | opening r id =>
      rintro hopening ⟨h0, hlt, hq, hid, hnext, hfree⟩
      refine ⟨?_, Nat.lt_succ_of_lt hlt, hq, hid, hnext, fun r' => ?_⟩
      · exact (congrArg Context.streamID (hold r (hne r hlt))).trans h0
      · by_cases hr' : r' = c.refs
        · subst hr'
          simpa [Conn.setCtx] using hopening r id rfl
        · exact fun h => hfree r' ((congrArg Context.streamID (hold r' hr')).symm.trans h)
    | headers r id | body r id =>
      rintro - ⟨h, hid⟩
      exact ⟨(congrArg Context.streamID (hold r (hused r (by omega)))).trans h, hid⟩
  · exact hw.reader.of_used fun r hr => congrArg Context.streamID (hold r (hused r hr))

theorem WellFormed.opening (h : c.writer = .opening r id) : WriterFits c (.opening r id) := by
  rw [← h]
  exact hw.writer

theorem WellFormed.storePush (h0 : id ≠ 0) (he : id % 2 = 0) : WellFormed (c.storePush id) := by
  have hid : ∀ r id', c.writer = .opening r id' → id ≠ id' := by
    rintro r id' h rfl
    obtain ⟨-, -, -, hodd, -⟩ := hw.opening h
    omega
  have ha := hw.alloc { streamID := id, state := .streamOpen } he hid
  have hfresh : c.refs ∉ c.table := fun h => hw.stored _ h (hw.unused _ (Nat.le_refl _))
  refine { ha with table_nodup := ?_, stored := fun r hr => ?_ }
  · exact nodup_append_singleton hw.table_nodup hfresh
  · obtain hr | hr := mem_append.1 hr
    · exact ha.stored r hr
    · rw [mem_singleton.1 hr]
      simpa [Conn.storePush, storeStream, Conn.setCtx] using h0

theorem WellFormed.submit (hasBody isTunnel : Bool) :
    WellFormed { c.setCtx c.refs { hasBody, isTunnel } with
      refs := c.refs + 1, queue := c.queue ++ [c.refs] } := by
  have hctx : ({ hasBody, isTunnel } : Context).streamID = 0 := rfl
  generalize ({ hasBody, isTunnel } : Context) = ctx at hctx ⊢
  have ha : WellFormed { c.setCtx c.refs ctx with refs := c.refs + 1 } := by
    refine hw.alloc ctx (by rw [hctx]) fun r id hwr => ?_
    obtain ⟨-, -, -, hodd, -⟩ := hw.opening hwr
    omega
  have hfresh : c.refs ∉ c.queue := fun h => absurd (hw.queued _ h).2 (Nat.lt_irrefl _)
  refine { ha with queue_nodup := nodup_append_singleton hw.queue_nodup hfresh, queued := fun r hr => ?_, writer := ?_ }
  · obtain hr | hr := mem_append.1 hr
    · exact ha.queued r hr
    · rw [mem_singleton.1 hr]
      exact ⟨by simpa [Conn.setCtx] using hctx, Nat.lt_succ_self _⟩
  · have hwr := ha.writer
    have hold := hw.writer
    change WriterFits _ c.writer at hwr
    change WriterFits _ c.writer
    revert hwr hold
    cases c.writer with
    | opening r id =>
      rintro ⟨-, hold, -⟩ ⟨h0, hlt, hq, h⟩
      refine ⟨h0, hlt, ?_, h⟩
      simp only [mem_append, mem_singleton, not_or]
      exact ⟨hq, hold.ne⟩
    | idle => exact fun _ _ => trivial
    | headers | body => exact fun _ h => h

theorem WellFormed.openRequest (h : c.writer = .opening r id) :
    WellFormed (c.openRequest r id) := by
  obtain ⟨h0, hlt, hq, hodd, hnext, hfree⟩ := hw.opening h
  have hold := fun r' (hr : r' ≠ r) => openRequest_ne c id hr
  have hnew := openRequest_streamID c r id
  have hne : ∀ r', (c.ctxs r').streamID ≠ 0 → r' ≠ r := by
    rintro r' h' rfl
    exact h' h0
  refine ⟨fun r' hr => ?_, hw.nextID, fun r' hr => ?_, fun r1 r2 hr he => ?_, ?_, fun r' hr => ?_, hw.queue_nodup,
    fun r' hr => ?_, fun r' hr => ?_, ⟨hnew, hodd⟩, ?_⟩
  · rw [hold r' (by rintro rfl; exact absurd hlt (Nat.not_lt.2 hr))]
    exact hw.unused r' hr
  · by_cases hrr : r' = r
    · subst hrr
      rw [hnew]
      exact hnext
    · rw [hold r' hrr] at hr ⊢
      exact hw.odd_lt r' hr
  · by_cases h1 : r1 = r
    · subst h1
      by_cases h2 : r2 = r1
      · exact h2.symm
      · rw [hnew, hold r2 h2] at he
        exact absurd he.symm (hfree r2)
    · rw [hold r1 h1] at hr he
      by_cases h2 : r2 = r
      · subst h2
        rw [hnew] at he
        exact absurd he (hfree r1)
      · rw [hold r2 h2] at he
        exact hw.inj r1 r2 hr he
  · exact nodup_append_singleton hw.table_nodup fun hr => hne r (hw.stored r hr) rfl
  · obtain hr | hr := mem_append.1 hr
    · have hs := hw.stored r' hr
      rw [hold r' (hne r' hs)]
      exact hs
    · rw [mem_singleton.1 hr, hnew]
      omega
  · obtain ⟨h0', hlt'⟩ := hw.queued r' hr
    rw [hold r' (by rintro rfl; exact hq hr)]
    exact ⟨h0', hlt'⟩
  · obtain ⟨hlt', hr'⟩ := hw.cancelled r' hr
    refine ⟨hlt', ?_⟩
    by_cases hrr : r' = r
    · subst hrr
      rw [hnew]
      exact .inr hodd
    · rw [hold r' hrr]
      exact hr'
  · exact hw.reader.of_used fun r' hr => congrArg Context.streamID (hold r' (hne r' hr))

theorem WellFormed.beginRequest (hidle : c.writer = .idle) {queue : List Nat}
    (hqueue : c.queue = r :: queue) : WellFormed ({ c with queue }.beginRequest r) := by
  have hnodup := hw.queue_nodup
  rw [hqueue] at hnodup
  obtain ⟨h0, hlt⟩ := hw.queued r (by rw [hqueue]; exact mem_cons_self)
  -- The rest of the queue is in order.
  have hrest : WellFormed { c with queue } := by
    refine { hw with queue_nodup := (nodup_cons.1 hnodup).2, queued := fun r' hr => ?_, writer := ?_ }
    · exact hw.queued r' (by rw [hqueue]; exact mem_cons_of_mem _ hr)
    · change WriterFits _ c.writer
      rw [hidle]
      trivial
  -- The next id is above all that were given.
  have hbump : ∀ w, WriterFits { c with queue, nextID := c.nextID + 2 } w →
      WellFormed { c with queue, nextID := c.nextID + 2, writer := w } := by
    intro w hwr
    refine { hrest with nextID := ?_, odd_lt := fun r' hr => ?_, writer := hwr }
    · change (c.nextID + 2) % 2 = 1
      have := hw.nextID
      omega
    · have := hw.odd_lt r' hr
      change (c.ctxs r').streamID < c.nextID + 2
      omega
  unfold Conn.beginRequest
  dsimp only
  split
  · exact hrest
  · split
    · exact hrest
    · split
      · have := (hbump .idle trivial).close
        rw [← hidle] at this
        exact this
      · refine hbump _ ⟨h0, hlt, (nodup_cons.1 hnodup).1, hw.nextID, Nat.lt_add_of_pos_right (by decide), ?_⟩
        intro r' he
        have hodd : (c.ctxs r').streamID % 2 = 1 := he ▸ hw.nextID
        have := hw.odd_lt r' hodd
        change (c.ctxs r').streamID = c.nextID at he
        omega

theorem WellFormed.abandon (r id : Nat) : WellFormed (c.abandon r id).1 :=
  ((hw.deleteStream id).closeCtx r).setWriter trivial

theorem WellFormed.cancel (h : c.isRequest r) : WellFormed (c.cancel r) := by
  unfold Conn.cancel
  split
  · exact hw
  · have hset : WellFormed (c.setCtx r { c.ctxs r with state := .streamClosed }) := hw.setCtx rfl
    refine { hset with cancelled := fun r' hr => ?_ }
    obtain rfl | hr := mem_cons.1 hr
    · simp only [isRequest, Bool.and_eq_true, decide_eq_true_eq, Bool.or_eq_true, beq_iff_eq] at h
      exact ⟨h.1, by simpa [Conn.setCtx] using h.2⟩
    · exact hset.cancelled r' hr

theorem WellFormed.cancelStep (r : Nat) : WellFormed (c.cancelStep r).1 := by
  have hset : WellFormed (c.setCtx r { c.ctxs r with request := false, response := none }) := hw.setCtx rfl
  have herase : WellFormed { c.setCtx r { c.ctxs r with request := false, response := none } with
      cancels := c.cancels.erase r } :=
    { hset with cancelled := fun r' hr => hset.cancelled r' (mem_of_mem_erase hr) }
  unfold Conn.cancelStep
  dsimp only
  split
  · exact herase
  · exact { herase.deleteStream (c.ctxs r).streamID with }

theorem WellFormed.handleGoAway (last : Nat) : WellFormed (c.handleGoAway last).1 :=
  { hw with
    table_nodup := hw.table_nodup.sublist filter_sublist
    stored := fun r hr => hw.stored r (filter_sublist.subset hr)
    reader := trivial }

end Requests

end Operations

variable {f : Frame} {q : Queue} {out : List Obs} {r : Nat} {b : Body} {err : Option Err}

/-! ## Every run -/

variable {c c' : Conn}

theorem wellFormed_received (hw : WellFormed c) (h : Received c f q c' out) : WellFormed c' := by
  cases h with
  | refused => exact hw.stop
  | quiet _ _ hq => exact hw.kept hq.toKept
  | rejected hq => exact (hw.kept hq.toKept).stop
  | stopped _ _ hq => exact (hw.kept hq.toKept).stop
  | settings _ _ hq => exact (hw.setServerS _ _).kept hq.toKept
  | goAway _ hq => exact (hw.kept hq.toKept).handleGoAway _
  | data _ hq => exact (hw.kept hq.toKept).kept (kept_chargeConn _ _ _)
  | found hb h0 hq hget hst =>
    refine (hw.kept hq.toKept).setReader ⟨?_, h0, hb⟩
    simpa using find?_some hget

theorem wellFormed_read (hw : WellFormed c) (h : Read c f r q b c' err out) : WellFormed c' := by
  cases h with
  | quiet hq => exact hw.kept hq.toKept
  | pushed _ hq h0 he => exact (hw.kept hq.toKept).storePush h0 he
  | charged => exact (hw.kept (kept_chargeStream _ _ _ _ _)).kept (kept_chargeConn _ _ _)
  | padding => exact hw.kept (kept_chargeConn _ _ _)

theorem WellFormed.lt_refs (hw : WellFormed c) (h : (c.ctxs r).streamID ≠ 0) : r < c.refs :=
  Nat.lt_of_not_le fun hr => h (hw.unused r hr)

/-- `readStream` gives no context a new id, but a promised stream's. -/
theorem streamID_read (h : Read c f r q b c' err out) (r' : Nat) (hr : r' < c.refs) :
    (c'.ctxs r').streamID = (c.ctxs r').streamID := by
  cases h with
  | quiet hq => exact hq.streamID r'
  | @pushed c1 id header hb hq h0 he =>
    have hne : r' ≠ c1.refs := hq.refs ▸ hr.ne
    simpa [storePush, storeStream, setCtx, hne] using hq.streamID r'
  | charged => exact ((kept_chargeStream _ _ _ _ _).trans (kept_chargeConn _ _ _)).streamID r'
  | padding => exact (kept_chargeConn _ _ _).streamID r'

theorem wellFormed_step {l : Label} (hw : WellFormed c)
    (h : step c l = some (c', out)) : WellFormed c' := by
  cases stepped_step h with
  | submit => exact hw.submit _ _
  | write hidle hqueue => exact hw.beginRequest hidle hqueue
  | opened hwr => exact hw.openRequest hwr
  | written hwr hnext =>
    have hfits := hw.writer
    refine hw.setWriter ?_
    rcases hnext with rfl | rfl
    · rcases hwr with hwr | hwr <;> rw [hwr] at hfits <;> exact hfits
    · trivial
  | abandoned => exact hw.abandon _ _
  | encode => exact hw.setServerS c.serverS _
  | sent => exact hw.kept (quiet_sent c _ _).toKept
  | cancel hr => exact hw.cancel hr
  | cancelStep => exact hw.cancelStep _
  | recv hr => exact wellFormed_received hw hr
  | read hrd hread =>
    have hfits := hw.reader
    rw [hrd] at hfits
    refine (wellFormed_read hw hread).setReader ⟨?_, hfits.2.1⟩
    exact (streamID_read hread _ (hw.lt_refs (hfits.1 ▸ hfits.2.1))).trans hfits.1
  | settle => exact (hw.settle _ _ _).setReader trivial
  | next => exact hw.setReader trivial
  | last => exact hw.close.setReader trivial
  | stop => exact hw.stop
  | close => exact hw.close

/-! ## Closing -/

theorem closed_received (h : Received c f q c' out) (hopen : c'.closed = false) : c.closed = false := by
  cases h with
  | refused => cases hopen
  | quiet _ _ hq => exact hq.closed.symm.trans hopen
  | rejected hq => cases hopen
  | stopped _ _ hq => cases hopen
  | settings _ _ hq => exact hq.closed.symm.trans hopen
  | goAway _ hq => exact hq.closed.symm.trans hopen
  | data _ hq => exact (hq.toKept.trans (kept_chargeConn _ _ _)).closed.symm.trans hopen
  | found _ _ hq => exact hq.closed.symm.trans hopen

theorem closed_read (h : Read c f r q b c' err out) : c'.closed = c.closed := by
  cases h with
  | quiet hq => exact hq.closed
  | pushed _ hq => exact hq.closed
  | charged => exact ((kept_chargeStream _ _ _ _ _).trans (kept_chargeConn _ _ _)).closed
  | padding => exact (kept_chargeConn _ _ _).closed

theorem closed_step {l : Label} (h : step c l = some (c', out))
    (hopen : c'.closed = false) : c.closed = false := by
  cases stepped_step h with
  | write =>
    unfold beginRequest at hopen
    dsimp only at hopen
    split at hopen
    · exact hopen
    · split at hopen
      · exact hopen
      · split at hopen
        · cases hopen
        · exact hopen
  | cancel => exact (aside_cancel c _).closed.symm.trans hopen
  | cancelStep => exact (aside_cancelStep c _).closed.symm.trans hopen
  | recv hr => exact closed_received hr hopen
  | read _ hr => exact (closed_read hr).symm.trans hopen
  | settle => exact (aside_settle c _ _ _).closed.symm.trans hopen
  | last | stop | close => cases hopen
  | _ => exact hopen

end Mach.H2.ClientConn
