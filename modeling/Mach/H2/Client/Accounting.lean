import Mach.H2.Client.Cumulative
import Mach.H2.Client.ReceiveWindow
import Mathlib.Data.Finset.Card
/-!
# How many streams are open

`openStreams` should be the number of streams the client has opened that have not
ended, whenever no operation is in progress, since `CanOpenStream` compares it with
what the server allows. A stream can end in six ways. Those that go through
`Context.Close` and take the count down where it returns true are right; the read
loop, though, sets the state before it calls `finish` with an error, a purge does
not count at all, and the end of a pushed stream is counted although its opening is
not. `tallied` names the steps that do none of this.
-/

namespace Mach.H2.ClientConn
open Lib Hpack Headkit List Conn

/-! ## What the counter should be -/

def opened (tr : List Obs) : List Nat := tr.filterMap fun | .opened id => some id | _ => none

def ended (tr : List Obs) : List Nat := tr.filterMap fun | .ended id => some id | _ => none

/-- The number of streams that were opened and have not ended. -/
def live (tr : List Obs) : Nat := ((opened tr).toFinset \ (ended tr).toFinset).card

/-- The last MAX_CONCURRENT_STREAMS in a SETTINGS payload. -/
def maxStreamsIn : List UInt8 → Option Nat
  | a :: b :: c :: d :: e :: f :: rest =>
    (maxStreamsIn rest).or (if beNat [a, b] = 0x3 then some (beNat [c, d, e, f]) else none)
  | _ => none

/-- The MAX_CONCURRENT_STREAMS of a frame, if it is SETTINGS that carry it. -/
def maxStreamsOf (f : Frame) : Option Nat :=
  match f.body with
  | .ok (.settings st) => if st.ack then none else maxStreamsIn f.payload
  | _ => none

/-- The last MAX_CONCURRENT_STREAMS received, from the one of the handshake. -/
def maxStreams (init : Nat) (tr : List Obs) : Nat :=
  tr.foldl (fun n o => match o with | .recv f => (maxStreamsOf f).getD n | _ => n) init

def Conn.atRest (c : Conn) : Bool :=
  (c.reader == .next || c.reader == .stopped) && c.writer == .idle && c.cancels == []

/-- The counter is exact, and so is the answer of `CanOpenStream`. -/
structure Exact (init : Nat) (c : Conn) (tr : List Obs) : Prop where
  openStreams : c.openStreams = live tr
  canOpen : c.canOpenStream = true ↔ live tr < maxStreams init tr ∧ c.nextID < 2 ^ 31 - 1

/-! ## The steps that count right -/

/-- Whether the read loop finishes the stream when `readStream` has returned. -/
def Conn.finishes (c : Conn) (f : Frame) (r : Nat) (err : Option Err) : Bool :=
  err.isSome || (c.continuationStream == 0 && (f.isEndStream || (c.ctxs r).endStreamPending))

/-- What a step must not do, for the counter to stay exact. -/
def Conn.tallied (c : Conn) : Label → Bool
  | .recv f _ =>
    match f.body with
    -- The purge of a GOAWAY frame finds no stream of a request that is still open.
    | .ok (.goAway last _) =>
      c.table.all fun r => !c.purged last r || (c.ctxs r).state == .streamClosed || (c.ctxs r).streamID % 2 == 0
    -- SETTINGS carry a MAX_CONCURRENT_STREAMS below 2 ^ 31, or repeat the default by leaving it out.
    | .ok (.settings st) =>
      st.ack ||
        match maxStreamsIn f.payload with
        | some n => n < 2 ^ 31
        | none => c.serverS.maxStreams == 100
    | _ => true
  | .readStep _ =>
    match c.reader with
    -- No stream of a request is finished with an error, and no pushed stream without, unless it is closed before.
    | .returned f r err =>
      !c.finishes f r err || (c.ctxs r).state == .streamClosed || (err.isSome == ((c.ctxs r).streamID % 2 == 0))
    | _ => true
  -- No request is cancelled between `writeRequest`'s look at its state and the opening of its stream.
  | .cancel r => !c.locked r
  | _ => true

section Histories

variable (tr tr' : List Obs)

@[simp] theorem opened_append : opened (tr ++ tr') = opened tr ++ opened tr' := by simp [opened]

@[simp] theorem ended_append : ended (tr ++ tr') = ended tr ++ ended tr' := by simp [ended]

theorem maxStreams_append (init : Nat) : maxStreams init (tr ++ tr') = maxStreams (maxStreams init tr) tr' := by
  simp [maxStreams]

end Histories

/-! ## The invariant -/

/-- A stream of a request that the counter has not been taken down for. -/
def Conn.counts (c : Conn) (r : Nat) : Prop :=
  (c.ctxs r).streamID % 2 = 1 ∧ ((c.ctxs r).state ≠ .streamClosed ∨ r ∈ c.cancels)

instance (c : Conn) (r : Nat) : Decidable (c.counts r) := inferInstanceAs (Decidable (_ ∧ _))

def Conn.counted (c : Conn) : Finset Nat := (Finset.range c.refs).filter c.counts

structure Tally (c : Conn) (tr : List Obs) : Prop where
  count : c.openStreams = c.counted.card
  opened : ∀ id, id ∈ opened tr ↔ id % 2 = 1 ∧ ∃ r, (c.ctxs r).streamID = id
  known : ∀ id ∈ ended tr, id % 2 = 1 → ∃ r, (c.ctxs r).streamID = id
  closed_of_ended : ∀ r, (c.ctxs r).streamID % 2 = 1 → (c.ctxs r).streamID ∈ ended tr → (c.ctxs r).state = .streamClosed
  ended_of_closed : ∀ r, (c.ctxs r).streamID % 2 = 1 → (c.ctxs r).state = .streamClosed →
    r ∈ c.cancels ∨ (c.ctxs r).streamID ∈ ended tr
  cancels_nodup : c.cancels.Nodup
  cancelled : ∀ r ∈ c.cancels, (c.ctxs r).state = .streamClosed
  opening : ∀ r id, c.writer = .opening r id → (c.ctxs r).state ≠ .streamClosed

structure Entry (c : Conn) (tr : List Obs) (r : Nat) : Prop where
  opened : (c.ctxs r).streamID % 2 = 1 → (c.ctxs r).streamID ∈ opened tr
  closed_of_ended : (c.ctxs r).streamID % 2 = 1 → (c.ctxs r).streamID ∈ ended tr → (c.ctxs r).state = .streamClosed
  ended_of_closed : (c.ctxs r).streamID % 2 = 1 → (c.ctxs r).state = .streamClosed →
    r ∈ c.cancels ∨ (c.ctxs r).streamID ∈ ended tr
  cancelled : r ∈ c.cancels → (c.ctxs r).state = .streamClosed
  opening : ∀ id, c.writer = .opening r id → (c.ctxs r).state ≠ .streamClosed

section Steps

variable {c c' : Conn} {tr out : List Obs} {r : Nat} {f : Frame} {q : Queue}

theorem Tally.entry (h : Tally c tr) (r : Nat) : Entry c tr r :=
  ⟨fun hodd => (h.opened _).2 ⟨hodd, r, rfl⟩, h.closed_of_ended r, h.ended_of_closed r, h.cancelled r, h.opening r⟩

theorem Tally.of_entries (hcount : c.openStreams = c.counted.card) (he : ∀ r, Entry c tr r)
    (hopened : ∀ id ∈ ClientConn.opened tr, id % 2 = 1 ∧ ∃ r, (c.ctxs r).streamID = id)
    (hknown : ∀ id ∈ ended tr, id % 2 = 1 → ∃ r, (c.ctxs r).streamID = id) (hnodup : c.cancels.Nodup) : Tally c tr where
  count := hcount
  opened id := ⟨hopened id, fun ⟨hodd, r, hr⟩ => hr ▸ (he r).opened (hr ▸ hodd)⟩
  known := hknown
  closed_of_ended r := (he r).closed_of_ended
  ended_of_closed r := (he r).ended_of_closed
  cancels_nodup := hnodup
  cancelled r := (he r).cancelled
  opening r := (he r).opening

theorem mem_counted : r ∈ c.counted ↔ r < c.refs ∧ c.counts r := by simp [counted]

/-- A step that opens, closes and counts nothing. What it reports as ended is closed already, or no request's. -/
theorem Tally.same (h : Tally c tr) (hid : ∀ r, (c'.ctxs r).streamID = (c.ctxs r).streamID)
    (hst : ∀ r, (c'.ctxs r).state = (c.ctxs r).state) (hrefs : c'.refs = c.refs)
    (hcount : c'.openStreams = c.openStreams) (hcan : c'.cancels = c.cancels)
    (hwr : ∀ r id, c'.writer = .opening r id → (c.ctxs r).state ≠ .streamClosed) (hopened : ClientConn.opened out = [])
    (hended : ∀ id ∈ ended out, id % 2 = 1 → (∃ r, (c.ctxs r).streamID = id) ∧
      ∀ r, (c.ctxs r).streamID = id → (c.ctxs r).state = .streamClosed) : Tally c' (tr ++ out) where
  count := by
    have hc : c'.counted = c.counted := by
      ext r
      simp only [mem_counted, counts, hid, hst, hrefs, hcan]
    rw [hcount, hc, h.count]
  opened id := by
    simp only [opened_append, hopened, append_nil, hid]
    exact h.opened id
  known id hmem hodd := by
    simp only [hid]
    rw [ended_append, mem_append] at hmem
    exact hmem.elim (fun hm => h.known id hm hodd) fun hm => (hended id hm hodd).1
  closed_of_ended r hodd hmem := by
    rw [hid] at hodd hmem
    rw [hst]
    rw [ended_append, mem_append] at hmem
    exact hmem.elim (h.closed_of_ended r hodd) fun hm => (hended _ hm hodd).2 r rfl
  ended_of_closed r hodd hcl := by
    rw [hid] at hodd ⊢
    rw [hst] at hcl
    rw [hcan, ended_append, mem_append]
    exact (h.ended_of_closed r hodd hcl).imp_right .inl
  cancels_nodup := hcan ▸ h.cancels_nodup
  cancelled r hr := by
    rw [hst]
    exact h.cancelled r (hcan ▸ hr)
  opening r id hw := by
    rw [hst]
    exact hwr r id hw

theorem Tally.kept (h : Tally c tr) (hk : Kept c c') (hopened : ClientConn.opened out = []) (hended : ended out = []) :
    Tally c' (tr ++ out) :=
  h.same hk.streamID hk.state hk.refs hk.openStreams hk.cancels (fun r id hw => h.opening r id (hk.writer ▸ hw)) hopened
    (by rw [hended]; nofun)

/-- Nothing but the context `r` differs. -/
structure Elsewhere (c c' : Conn) (r : Nat) : Prop where
  streamID : ∀ r', r' ≠ r → (c'.ctxs r').streamID = (c.ctxs r').streamID
  state : ∀ r', r' ≠ r → (c'.ctxs r').state = (c.ctxs r').state
  refs : ∀ r', r' ≠ r → (r' < c'.refs ↔ r' < c.refs)
  cancels : ∀ r', r' ≠ r → (r' ∈ c'.cancels ↔ r' ∈ c.cancels)
  writer : ∀ r' id, r' ≠ r → c'.writer = .opening r' id → c.writer = .opening r' id

theorem card_sub_ite (s : Finset Nat) (r : Nat) : (s.card : Int) - (if r ∈ s then 1 else 0) = (s.erase r).card := by
  split
  · rename_i hr
    have := Finset.card_pos.2 ⟨r, hr⟩
    rw [Finset.card_erase_of_mem hr]
    omega
  · rename_i hr
    rw [Finset.erase_eq_of_notMem hr, Int.sub_zero]

section Tallies

variable (h : Tally c tr)
include h

/-- The step of one context, which keeps the stream that it may have; what is opened or ended is that stream. -/
theorem Tally.update (he : Elsewhere c c' r) (hnodup : c'.cancels.Nodup)
    (hcount : c'.openStreams - (if r ∈ c'.counted then 1 else 0) = c.openStreams - if r ∈ c.counted then 1 else 0)
    (hkeep : (c.ctxs r).streamID % 2 = 1 → (c'.ctxs r).streamID = (c.ctxs r).streamID)
    (hopened : ∀ id ∈ ClientConn.opened out, id % 2 = 1 ∧ id = (c'.ctxs r).streamID)
    (hended : ∀ id ∈ ended out, id = (c'.ctxs r).streamID ∧ (id % 2 = 1 → ∀ r', (c.ctxs r').streamID = id → r' = r))
    (hr : Entry c' (tr ++ out) r) : Tally c' (tr ++ out) := by
  have hsome : ∀ id, id % 2 = 1 → (∃ r', (c.ctxs r').streamID = id) → ∃ r', (c'.ctxs r').streamID = id := by
    rintro _ hodd ⟨r', rfl⟩
    by_cases hrr : r' = r
    · exact ⟨r, by rw [hkeep (hrr ▸ hodd), hrr]⟩
    · exact ⟨r', he.streamID r' hrr⟩
  refine .of_entries ?_ (fun r' => ?_) (fun id hm => ?_) (fun id hm hodd => ?_) hnodup
  · have herase : c'.counted.erase r = c.counted.erase r := by
      ext r'
      simp only [Finset.mem_erase, mem_counted, counts]
      refine and_congr_right fun hrr => ?_
      rw [he.refs r' hrr, he.streamID r' hrr, he.state r' hrr, he.cancels r' hrr]
    have h1 := card_sub_ite c.counted r
    have h2 := card_sub_ite c'.counted r
    rw [herase] at h2
    rw [h.count] at hcount
    omega
  · by_cases hrr : r' = r
    · exact hrr ▸ hr
    · obtain ⟨hop, hce, hec, hcl, hwr⟩ := h.entry r'
      constructor <;> simp only [he.streamID r' hrr, he.state r' hrr, he.cancels r' hrr, opened_append, ended_append,
        mem_append]
      · exact fun hodd => .inl (hop hodd)
      · exact fun hodd hm => hm.elim (hce hodd) fun hm => absurd ((hended _ hm).2 hodd r' rfl) hrr
      · exact fun hodd hc => (hec hodd hc).imp_right .inl
      · exact hcl
      · exact fun id hw => hwr id (he.writer r' id hrr hw)
  · rw [opened_append, mem_append] at hm
    obtain hm | hm := hm
    · obtain ⟨hodd, hr'⟩ := (h.opened id).1 hm
      exact ⟨hodd, hsome id hodd hr'⟩
    · exact ⟨(hopened id hm).1, r, (hopened id hm).2.symm⟩
  · rw [ended_append, mem_append] at hm
    exact hm.elim (fun hm => hsome id hodd (h.known id hm hodd)) fun hm => ⟨r, (hended id hm).1.symm⟩

/-- A request is closed by a caller, who takes the counter down later. -/
theorem Tally.cancel (hl : c.locked r = false) : Tally (c.cancel r) tr := by
  unfold Conn.cancel
  split
  · exact h
  · rename_i hst
    have hid := streamID_closeState c r
    have hcl : ((c.setCtx r { c.ctxs r with state := .streamClosed }).ctxs r).state = .streamClosed := by
      simp [setCtx]
    have ht : Tally { c.setCtx r { c.ctxs r with state := .streamClosed } with cancels := r :: c.cancels } (tr ++ []) := by
      refine h.update ⟨fun r' _ => hid r', fun r' hr => by simp [setCtx, hr], fun _ _ => Iff.rfl,
        fun r' hr => by simp [hr], fun _ _ _ hop => hop⟩
        (nodup_cons.2 ⟨fun hm => hst (h.cancelled r hm), h.cancels_nodup⟩) ?_ (fun _ => hid r) (by simp [ClientConn.opened]) (by simp [ended])
        ⟨?_, fun _ _ => hcl, fun _ _ => .inl mem_cons_self, fun _ => hcl, fun id hop => ?_⟩
      · simp only [mem_counted, counts, hid, mem_cons_self, or_true, ne_eq, hst, not_false_eq_true, true_or]
        rfl
      · simpa [hid] using (h.entry r).opened
      · change c.writer = .opening r id at hop
        simp [locked, hop] at hl
    rwa [append_nil] at ht

section Requests

variable (hw : WellFormed c)
include hw

/-- A context is closed: the counter goes down by one where it is a request's that was open. -/
theorem Tally.close (h0 : (c.ctxs r).streamID ≠ 0)
    (hid : ∀ r', (c'.ctxs r').streamID = (c.ctxs r').streamID) (hr : (c'.ctxs r).state = .streamClosed)
    (hst : ∀ r', r' ≠ r → (c'.ctxs r').state = (c.ctxs r').state) (hrefs : c'.refs = c.refs)
    (hcount : c'.openStreams = c.openStreams -
      if (c.ctxs r).streamID % 2 = 1 ∧ (c.ctxs r).state ≠ .streamClosed then 1 else 0)
    (hcan : c'.cancels = c.cancels) (hwr : ∀ r id, c'.writer = .opening r id → c.writer = .opening r id) :
    Tally c' (tr ++ [.ended (c.ctxs r).streamID]) := by
  have hlt := hw.lt_refs h0
  have hcl := (h.entry r).cancelled
  refine h.update ⟨fun r' _ => hid r', hst, fun _ _ => by rw [hrefs], fun _ _ => by rw [hcan], fun r' id _ => hwr r' id⟩
    (hcan ▸ h.cancels_nodup) ?_ (fun _ => hid r) nofun (fun id hm => ?_) ⟨?_, ?_, ?_, ?_, ?_⟩
  · simp only [mem_counted, counts, hid, hrefs, hcan, hr, hcount]
    grind
  · obtain rfl := mem_singleton.1 hm
    exact ⟨(hid r).symm, fun hodd r' heq => hw.inj r' r (heq ▸ hodd) heq⟩
  · rw [hid, opened_append]
    exact fun hodd => mem_append_left _ ((h.entry r).opened hodd)
  · exact fun _ _ => hr
  · exact fun _ _ => .inr (by simp [ended, hid])
  · exact fun _ => hr
  · intro id hop
    exact absurd (hw.opening (hwr r id hop)).1 h0

theorem Tally.alloc (ctx : Context) (hid : ctx.streamID % 2 = 0)
    (hids : ∀ r, r ≠ c.refs → c'.ctxs r = c.ctxs r) (hnew : c'.ctxs c.refs = ctx) (hrefs : c'.refs = c.refs + 1)
    (hcount : c'.openStreams = c.openStreams) (hcan : c'.cancels = c.cancels) (hwr : c'.writer = c.writer) :
    Tally c' tr := by
  have hodd : ¬ (c'.ctxs c.refs).streamID % 2 = 1 := by
    rw [hnew]
    omega
  have h0 := hw.unused c.refs (Nat.le_refl _)
  have ht : Tally c' (tr ++ []) := by
    refine h.update (r := c.refs) ⟨fun r hr => by rw [hids r hr], fun r hr => by rw [hids r hr], fun r hr => by omega,
      fun _ _ => by rw [hcan], fun _ _ _ hop => hwr ▸ hop⟩ (hcan ▸ h.cancels_nodup) ?_ (by omega)
      nofun nofun ⟨fun ho => absurd ho hodd,
      fun ho => absurd ho hodd, fun ho => absurd ho hodd, ?_, ?_⟩
    · simp [mem_counted, counts, hodd, hcount]
    · rw [hcan]
      exact fun hr => absurd (hw.cancelled _ hr).1 (Nat.lt_irrefl _)
    · intro id hop
      exact absurd (hw.opening (hwr.symm.trans hop)).2.1 (Nat.lt_irrefl _)
  rwa [append_nil] at ht

theorem Tally.openRequest {id : Nat} (hwr : c.writer = .opening r id) :
    Tally (c.openRequest r id) (tr ++ [.opened id]) := by
  obtain ⟨h0, hlt, -, hodd, -, hfree⟩ := hw.opening hwr
  have hopen := (h.entry r).opening id hwr
  have hold := fun r' (hr : r' ≠ r) => openRequest_ne c id hr
  have hnew := openRequest_streamID c r id
  have hst : ((c.openRequest r id).ctxs r).state ≠ .streamClosed := by
    simp only [Conn.openRequest, storeStream, setCtx, Function.update_self]
    split <;> decide
  refine h.update ⟨fun r' hr => by rw [hold r' hr], fun r' hr => by rw [hold r' hr], fun _ _ => Iff.rfl,
    fun _ _ => Iff.rfl, by simp [Conn.openRequest]⟩ h.cancels_nodup ?_ (by omega) ?_ (by simp [ended])
    ⟨fun _ => ?_, fun _ hm => ?_, fun _ hc => absurd hc hst, fun hc => absurd ((h.entry r).cancelled hc) hopen, by simp [Conn.openRequest]⟩
  · have h1 : r ∈ (c.openRequest r id).counted := mem_counted.2 ⟨hlt, hnew.symm ▸ hodd, .inl hst⟩
    have h2 : r ∉ c.counted := fun hm => by
      have := (mem_counted.1 hm).2.1
      omega
    rw [if_pos h1, if_neg h2]
    change c.openStreams + 1 - 1 = _
    omega
  · simp [ClientConn.opened, hnew, hodd]
  · simp [ClientConn.opened, hnew]
  · rw [hnew, ended_append, mem_append] at hm
    obtain ⟨r', hr'⟩ := h.known id (hm.resolve_right (by simp [ended])) hodd
    exact absurd hr' (hfree r')

/-- The caller takes the counter down, if the stream was opened. -/
theorem Tally.uncancel (hr : r ∈ c.cancels)
    (hid : ∀ r', (c'.ctxs r').streamID = (c.ctxs r').streamID) (hst : ∀ r', (c'.ctxs r').state = (c.ctxs r').state)
    (hrefs : c'.refs = c.refs) (hcan : c'.cancels = c.cancels.erase r) (hwr : c'.writer = c.writer)
    (hcount : c'.openStreams = c.openStreams - if (c.ctxs r).streamID = 0 then 0 else 1)
    (hopened : ClientConn.opened out = [])
    (hended : ended out = if (c.ctxs r).streamID = 0 then [] else [(c.ctxs r).streamID]) : Tally c' (tr ++ out) := by
  have hcl := h.cancelled r hr
  obtain ⟨hlt, hodd⟩ := hw.cancelled r hr
  have hmem : ∀ r', r' ∈ c'.cancels ↔ r' ≠ r ∧ r' ∈ c.cancels := fun r' => hcan ▸ h.cancels_nodup.mem_erase_iff
  refine h.update ⟨fun r' _ => hid r', fun r' _ => hst r', fun _ _ => by rw [hrefs], fun r' hrr => by simp [hmem, hrr],
    fun _ _ _ hop => hwr ▸ hop⟩ (hcan ▸ h.cancels_nodup.erase r) ?_ (fun _ => hid r) (by rw [hopened]; nofun)
    (fun id hm => ?_) ⟨?_, fun _ _ => hst r ▸ hcl, fun ho _ => .inr ?_, fun _ => hst r ▸ hcl, fun id hop => ?_⟩
  · -- A request that was never opened was never counted.
    simp only [mem_counted, counts, hid, hst, hrefs, hmem, hcount, hcl]
    grind
  · rw [hended] at hm
    split at hm
    · cases hm
    obtain rfl := mem_singleton.1 hm
    exact ⟨(hid r).symm, fun hodd r' heq => hw.inj r' r (heq ▸ hodd) heq⟩
  · rw [hid, opened_append]
    exact fun ho => mem_append_left _ ((h.entry r).opened ho)
  · rw [hid] at ho ⊢
    rw [ended_append, hended, if_neg (by omega)]
    exact mem_append_right _ (mem_singleton.2 rfl)
  · exact absurd hcl (h.opening r id (hwr ▸ hop))

theorem Tally.cancelStep (hr : r ∈ c.cancels) :
    Tally (c.cancelStep r).1 (tr ++ (c.cancelStep r).2) := by
  have hk : Kept c (c.setCtx r { c.ctxs r with request := false, response := none }) := kept_setCtx c rfl rfl
  unfold Conn.cancelStep
  dsimp only
  split
  all_goals
    rename_i h0
    exact h.uncancel hw hr hk.streamID hk.state rfl rfl rfl (by simp [h0, setCtx]) rfl (by simp [h0, ended])

/-! ## The read loop -/

theorem Tally.finish (h0 : (c.ctxs r).streamID ≠ 0)
    (hok : (c.ctxs r).state = .streamClosed ∨ (c.ctxs r).streamID % 2 = 1) :
    Tally (c.finish r (c.ctxs r).streamID).1 (tr ++ (c.finish r (c.ctxs r).streamID).2) := by
  refine h.close hw h0 (streamID_closeCtx c r) (by simp [Conn.finish, deleteStream, closeCtx, setCtx])
    (fun r' hr => by simp [Conn.finish, deleteStream, closeCtx, setCtx, hr]) rfl ?_ rfl
    fun _ _ hop => hop
  simp only [Conn.finish, deleteStream, closeCtx]
  split
  · rename_i hst
    simp [hst]
  · rename_i hst
    simp [hst, hok.resolve_left hst]

theorem Tally.settle {err : Option Err}
    (hid : (c.ctxs r).streamID = f.streamID) (h0 : f.streamID ≠ 0)
    (hok : c.finishes f r err = true → (c.ctxs r).state = .streamClosed ∨
      (err.isSome = true ↔ (c.ctxs r).streamID % 2 = 0)) :
    Tally (c.settle f r err).1 (tr ++ (c.settle f r err).2) := by
  rw [← hid] at h0
  cases err with
  | some e =>
    simp only [finishes, Option.isSome_some, Bool.true_or, true_implies, true_iff] at hok
    simp only [Conn.settle, ← hid]
    refine h.close hw h0 (fun r' => ?_) ?_ (fun r' hr => ?_) rfl ?_ rfl fun _ _ hop => hop
    · exact (streamID_closeCtx _ r r').trans (streamID_closeState c r r')
    · simp [Conn.finish, deleteStream, closeCtx, setCtx]
    · simp [Conn.finish, deleteStream, closeCtx, setCtx, hr]
    · -- `Close` finds the stream closed, so nothing is counted.
      have hnot : ¬ ((c.ctxs r).streamID % 2 = 1 ∧ (c.ctxs r).state ≠ .streamClosed) := by
        rintro ⟨hodd, hst⟩
        have := hok.resolve_left hst
        omega
      rw [if_neg hnot]
      simp [Conn.finish, deleteStream, closeCtx, setCtx]
  | none =>
    have hfin : c.finishes f r none = true →
        Tally (c.finish r f.streamID).1 (tr ++ (c.finish r f.streamID).2) := by
      intro hf
      rw [← hid]
      refine h.finish hw h0 ((hok hf).imp_right fun he => ?_)
      simp only [Option.isSome_none, Bool.false_eq_true, false_iff] at he
      omega
    simp only [finishes, Option.isSome_none, Bool.false_or, Bool.and_eq_true, beq_iff_eq, Bool.or_eq_true] at hfin
    simp only [Conn.settle]
    split
    · rename_i hend
      split
      · exact h.kept (kept_setCtx c rfl rfl) rfl rfl
      · rename_i hcont
        exact hfin ⟨not_not.1 hcont, .inl hend⟩
    · split
      · rename_i hpend
        exact hfin ⟨hpend.1, .inr hpend.2⟩
      · exact h.kept (Kept.refl c) rfl rfl

end Requests

theorem Tally.goAway {last : Nat}
    (hok : ∀ r ∈ c.table, c.purged last r = true → (c.ctxs r).streamID % 2 = 1 → (c.ctxs r).state = .streamClosed)
    (hw : WellFormed c) : Tally (c.handleGoAway last).1 (tr ++ .recv f :: (c.handleGoAway last).2) := by
  refine h.same (fun _ => rfl) (fun _ => rfl) rfl rfl rfl (fun r id hop => h.opening r id hop) ?_ fun id hm hodd => ?_
  · simp [ClientConn.opened, handleGoAway, filterMap_map]
  · have hm : id ∈ ((c.table.filter (c.purged last)).map fun r => (c.ctxs r).streamID) := by
      simpa [ended, handleGoAway, filterMap_map] using hm
    obtain ⟨r, hr, rfl⟩ := mem_map.1 hm
    obtain ⟨hmem, hp⟩ := mem_filter.1 hr
    refine ⟨⟨r, rfl⟩, fun r' he => ?_⟩
    rw [← hw.inj r r' hodd he.symm]
    exact hok r hmem hp hodd

theorem Tally.stop : Tally c.stop tr := { h with }

theorem Tally.setServerS (st : Settings) (enc : HPACK) : Tally { c with serverS := st, enc } tr := { h with }

theorem Tally.kept_nil (hk : Kept c c') : Tally c' tr := by
  have := @Tally.kept c c' tr [] h hk rfl rfl
  rwa [append_nil] at this

end Tallies

theorem opened_chargeConn (len : Nat) (queued : Bool) :
    ClientConn.opened (c.chargeConn len queued).2 = [] ∧ ended (c.chargeConn len queued).2 = [] := by
  unfold chargeConn updateWindow
  dsimp only
  repeat' split
  all_goals exact ⟨rfl, rfl⟩

theorem opened_chargeStream (r streamID len : Nat) (queued : Bool) :
    ClientConn.opened (c.chargeStream r streamID len queued).2 = [] ∧
      ended (c.chargeStream r streamID len queued).2 = [] := by
  unfold chargeStream updateWindow
  dsimp only
  repeat' split
  all_goals exact ⟨rfl, rfl⟩

theorem tally_received (hw : WellFormed c) (h : Tally c tr) (hr : Received c f q c' out)
    (ha : c.tallied (.recv f q)) : Tally c' (tr ++ out) := by
  cases hr with
  | refused =>
    rw [append_nil]
    exact h.stop
  | quiet _ _ hq => exact h.kept hq.toKept rfl rfl
  | rejected hq =>
    rw [append_nil]
    exact (h.kept_nil hq.toKept).stop
  | stopped _ _ hq => exact (@Tally.kept _ _ tr [.recv f] h hq.toKept rfl rfl).stop
  | settings _ _ hq => exact (h.setServerS _ _).kept hq.toKept rfl rfl
  | goAway hb hq =>
    refine (h.kept_nil hq.toKept).goAway (fun r hr hp hodd => ?_) (hw.kept hq.toKept)
    simp only [tallied, hb, all_eq_true] at ha
    have hr := ha r (hq.table ▸ hr)
    simp only [purged, hq.streamID] at hp
    rw [hq.streamID] at hodd
    rw [hq.state]
    simp only [purged, hp, Bool.not_true, Bool.false_or, Bool.or_eq_true, beq_iff_eq] at hr
    exact hr.resolve_right (by omega)
  | @data c1 d hb hq hdead =>
    obtain ⟨h1, h2⟩ := @opened_chargeConn c1 f.payload.length q.conn
    exact h.kept (hq.toKept.trans (kept_chargeConn _ _ _)) h1 h2
  | found hb h0 hq hget hst =>
    rw [append_nil]
    exact { h.kept_nil hq.toKept with }

theorem tally_read (hw : WellFormed c) (h : Tally c tr) {b : Body} {err : Option Err}
    (hr : Read c f r q b c' err out) : Tally c' (tr ++ .recv f :: out) := by
  cases hr with
  | quiet hq => exact h.kept hq.toKept rfl rfl
  | @pushed c1 id header _ hq h0 he =>
    have h1 := @Tally.kept _ _ tr [.recv f] h hq.toKept rfl rfl
    refine h1.alloc (hw.kept hq.toKept) { streamID := id, state := .streamOpen } he (fun r hr => ?_) ?_ rfl rfl rfl rfl
    · simp [storePush, storeStream, setCtx, hr]
    · simp [storePush, storeStream, setCtx]
  | charged =>
    obtain ⟨h1, h2⟩ := @opened_chargeStream c r f.streamID f.payload.length q.stream
    obtain ⟨h3, h4⟩ := @opened_chargeConn (c.chargeStream r f.streamID f.payload.length q.stream).1 f.payload.length q.conn
    refine h.kept ((kept_chargeStream _ _ _ _ _).trans (kept_chargeConn _ _ _)) ?_ ?_
    · exact (opened_append _ _).trans (by rw [h1, h3]; rfl)
    · exact (ended_append _ _).trans (by rw [h2, h4]; rfl)
  | padding =>
    obtain ⟨h1, h2⟩ := @opened_chargeConn c f.payload.length q.conn
    exact h.kept (kept_chargeConn _ _ _) h1 h2

end Steps

variable {st st' : Settings} {init : Nat} {l : Label}

/-! ## The server's limit -/

theorem last_params (n : Nat) (payload : List UInt8) :
    last id 0x3 n (params payload) = (maxStreamsIn payload).getD n := by
  fun_induction maxStreamsIn payload generalizing n with
  | case1 a b c d e f rest ih =>
    change last id 0x3 (if beNat [a, b] = 0x3 then beNat [c, d, e, f] else n) (params rest) = _
    rw [ih]
    cases maxStreamsIn rest with
    | some m => rfl
    | none => split <;> rfl
  | case2 payload hne =>
    rw [params]
    · rfl
    · exact hne

theorem maxStreams_read {payload : List UInt8} (h : st.read payload = .ok st') :
    st'.maxStreams = (maxStreamsIn payload).getD st.maxStreams := by
  rw [Settings.read_eq h, ← last_params]
  rfl

/-- The limit in use is the last one received, and is below 2 ^ 31. -/
structure Limited (init : Nat) (c : Conn) (tr : List Obs) : Prop where
  last : c.serverS.maxStreams = maxStreams init tr
  lt : c.serverS.maxStreams < 2 ^ 31

variable {out tr : List Obs}

theorem maxStreams_mute (h : ∀ f, .recv f ∈ out → maxStreamsOf f = none) (n : Nat) :
    maxStreams n out = n := by
  induction out with
  | nil => rfl
  | cons o out ih =>
    have ih := ih fun f hf => h f (mem_cons_of_mem _ hf)
    cases o with
    | recv f =>
      have hf := h f mem_cons_self
      simpa [maxStreams, hf] using ih
    | _ => simpa [maxStreams] using ih

variable {c c' : Conn}

theorem Limited.mute (h : Limited init c tr)
    (hs : c'.serverS = c.serverS) (hout : ∀ f, .recv f ∈ out → maxStreamsOf f = none) :
    Limited init c' (tr ++ out) where
  last := by rw [hs, h.last, maxStreams_append, maxStreams_mute hout]
  lt := hs ▸ h.lt

theorem Mute.maxStreamsOf (h : Mute out) (f : Frame) (hf : .recv f ∈ out) : maxStreamsOf f = none := by
  unfold ClientConn.maxStreamsOf
  split
  · rename_i st hb
    rw [h f hf st hb]
    rfl
  · rfl

/-- The limit in use stays the last one received, if SETTINGS carry it or repeat the default by leaving it out. -/
theorem Limited.configures (h : Limited init c tr)
    (hc : Configures c l c' out) (ha : c.tallied l) : Limited init c' (tr ++ out) := by
  cases hc with
  | mute hserver _ hm => exact h.mute hserver hm.maxStreamsOf
  | @settings f q st hl hb hack hout hserver _ _ =>
    subst hl hout
    have hmax := maxStreams_read (read_of_settings hb)
    have hof : maxStreamsOf f = maxStreamsIn f.payload := by simp [maxStreamsOf, hb, hack]
    have hfold : maxStreams init (tr ++ [.recv f]) = (maxStreamsIn f.payload).getD (maxStreams init tr) := by
      simp [← hof, maxStreams]
    simp only [tallied, hb, hack, Bool.false_or] at ha
    cases hin : maxStreamsIn f.payload with
    | some n =>
      simp only [hin, decide_eq_true_eq] at ha
      rw [hin] at hmax hfold
      exact ⟨by rw [hserver, hfold]; exact hmax, by rw [hserver]; exact hmax.symm ▸ ha⟩
    | none =>
      -- The record keeps the default, which is the limit that was in use.
      simp only [hin, beq_iff_eq] at ha
      rw [hin] at hmax hfold
      refine ⟨?_, ?_⟩
      · rw [hserver, hfold]
        exact hmax.trans (ha.symm.trans h.last)
      · rw [hserver, hmax]
        exact (by decide : 100 < 2 ^ 31)

/-! ## Every run -/

/-- What holds all along a run whose steps count right. -/
structure Counted (init : Nat) (c : Conn) (tr : List Obs) : Prop where
  wf : WellFormed c
  tally : Tally c tr
  limit : Limited init c tr

theorem Tally.abandon (hw : WellFormed c) (h : Tally c tr) {r id : Nat}
    (hid : (c.ctxs r).streamID = id) (hodd : id % 2 = 1) :
    Tally (c.abandon r id).1 (tr ++ (c.abandon r id).2) := by
  subst hid
  refine h.close hw (by omega) (streamID_closeCtx (c.deleteStream _) r) ?_ (fun r' hr => ?_) rfl ?_ rfl nofun
  · simp [Conn.abandon, closeCtx, setCtx]
  · simp [Conn.abandon, closeCtx, deleteStream, setCtx, hr]
  · simp only [Conn.abandon, closeCtx, deleteStream, hodd, true_and]
    split
    · rename_i hst
      simp [hst]
    · rename_i hst
      simp [hst]

theorem Tally.setWriter (h : Tally c tr) (w : Writer)
    (hw : ∀ r id, w = .opening r id → (c.ctxs r).state ≠ .streamClosed) : Tally { c with writer := w } tr :=
  { h with opening := hw }

theorem Tally.beginRequest (h : Tally c tr) (r : Nat) : Tally (c.beginRequest r) tr := by
  unfold Conn.beginRequest
  dsimp only
  split
  · exact h
  · rename_i hopen
    split
    · exact h
    · split
      · exact { h with }
      · refine { h.setWriter (.opening r c.nextID) fun r' id hop => ?_ with }
        cases hop
        exact fun hst => hopen (.inl hst)

theorem tally_step (hw : WellFormed c) (h : Tally c tr)
    (ha : c.tallied l) (hs : step c l = some (c', out)) : Tally c' (tr ++ out) := by
  have hnil : Tally c (tr ++ []) := by rwa [append_nil]
  cases stepped_step hs with
  | @submit hasBody isTunnel =>
    refine hnil.alloc hw { hasBody, isTunnel } rfl (fun r hr => ?_) ?_ rfl rfl rfl rfl
    · simp [setCtx, hr]
    · simp [setCtx]
  | @write r queue =>
    have ht : Tally { c with queue } (tr ++ []) := { hnil with }
    exact ht.beginRequest r
  | opened hwr => exact h.openRequest hw hwr
  | written _ hnext =>
    refine hnil.setWriter _ fun r id hop => ?_
    rcases hnext with rfl | rfl <;> cases hop
  | abandoned hwr =>
    have hfits := hw.writer
    rcases hwr with hwr | hwr <;> rw [hwr] at hfits <;> exact h.abandon hw hfits.1 hfits.2
  | encode => exact hnil.setServerS c.serverS _
  | sent => exact h.kept (quiet_sent c _ _).toKept rfl rfl
  | cancel => exact hnil.cancel (by simpa [tallied] using ha)
  | cancelStep hr => exact h.cancelStep hw hr
  | recv hr => exact tally_received hw h hr ha
  | read _ hread => exact { tally_read hw h hread with }
  | @settle f r err q hrd =>
    have hfits := hw.reader
    rw [hrd] at hfits
    simp only [tallied, hrd, Bool.or_eq_true, Bool.not_eq_true', beq_iff_eq] at ha
    have ht : Tally (c.settle f r err).1 (tr ++ (c.settle f r err).2) := by
      refine h.settle hw hfits.1 hfits.2 fun hfin => ?_
      obtain (hno | hcl) | he := ha
      · rw [hfin] at hno
        cases hno
      · exact .inl hcl
      · rw [he]
        exact .inr (by simp)
    exact { ht with }
  | next | last | close => exact { hnil with }
  | stop => exact hnil.stop

/-! ## The counter at rest -/

/-- With no cancellation in progress, the streams counted are those that were opened and have not ended. -/
theorem Tally.live_eq (hw : WellFormed c) (h : Tally c tr) (hrest : c.cancels = []) :
    (ClientConn.opened tr).toFinset \ (ended tr).toFinset = c.counted.image fun r => (c.ctxs r).streamID := by
  ext id
  simp only [Finset.mem_sdiff, mem_toFinset, Finset.mem_image, mem_counted, counts, hrest, not_mem_nil,
    or_false, h.opened id]
  constructor
  · rintro ⟨⟨hodd, r, rfl⟩, hlive⟩
    refine ⟨r, ⟨hw.lt_refs (by omega), hodd, fun hcl => ?_⟩, rfl⟩
    have hend := h.ended_of_closed r hodd hcl
    rw [hrest] at hend
    exact hlive (hend.resolve_left nofun)
  · rintro ⟨r, ⟨-, hodd, hst⟩, rfl⟩
    exact ⟨⟨hodd, r, rfl⟩, fun hend => hst (h.closed_of_ended r hodd hend)⟩

theorem Tally.card_live (hw : WellFormed c) (h : Tally c tr) (hrest : c.cancels = []) :
    live tr = c.counted.card := by
  rw [live, h.live_eq hw hrest]
  refine Finset.card_image_of_injOn fun r hr r' _ he => hw.inj r r' ?_ he
  exact (mem_counted.1 hr).2.1

theorem Counted.exact (h : Counted init c tr) (hrest : c.atRest = true) :
    Exact init c tr := by
  simp only [atRest, Bool.and_eq_true, beq_iff_eq] at hrest
  have hcount : c.openStreams = live tr := by rw [h.tally.count, h.tally.card_live h.wf hrest.2]
  refine ⟨hcount, ?_⟩
  have hlt := h.limit.lt
  rw [h.limit.last] at hlt
  simp only [canOpenStream, h.limit.last, hcount, hlt, if_true, Bool.and_eq_true, decide_eq_true_eq]
  omega

/-- A request is sent on stream 1. -/
def opening : List Label := [.submit false false, .write, .writeStep true, .writeStep true]

/-- RST_STREAM with CANCEL on stream 1. -/
def resetFrame : Frame := { type := 3, flags := 0, streamID := 1, payload := [0, 0, 0, 8] }

end Mach.H2.ClientConn
