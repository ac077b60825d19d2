import Mach.H2.Server.Conn
/-!
# What a step of the server leaves alone

Each handler touches few of the counters. `SendKept` says that a step left the
send windows as they were, `RecvKept` that it left the credit owed to the peer
as it was; a stream that is new starts with the peer's initial window and with
nothing owed. The theorems name the handlers each holds for. Together with the
few handlers that do change a counter they are all that the invariants of whole
runs need to know about the handlers.
-/

namespace Mach.H2.Server
open Lib Hpack Headkit List ServerConn

/-- The stream has not ended: the peer may still send DATA on it. -/
def ServerStream.Live (st : ServerStream) : Prop := st.endStream = false ∧ st.state = .streamOpen

structure SendKept (sc sc' : ServerConn) : Prop where
  conn : sc'.connSendWindow = sc.connSendWindow
  init : sc'.peerInitialWin = sc.peerInitialWin
  streams : ∀ id st', sc'.streams id = some st' →
    (∃ st, sc.streams id = some st ∧ st'.sendWindow = st.sendWindow) ∨
      (sc.maxStreamID < id ∧ st'.sendWindow = sc.peerInitialWin)

structure RecvKept (sc sc' : ServerConn) : Prop where
  conn : sc'.connRecvUnacked = sc.connRecvUnacked
  streams : ∀ id st', sc'.streams id = some st' → st'.Live →
    (∃ st, sc.streams id = some st ∧ st.Live ∧ st'.recvUnacked = st.recvUnacked) ∨
      (sc.maxStreamID < id ∧ st'.recvUnacked = 0)

/-- A stream that may stand in the table under an id. -/
structure Fits (sc : ServerConn) (streamID : Nat) (st : ServerStream) : Prop where
  key : st.id = streamID
  nonzero : streamID ≠ 0
  max : streamID ≤ sc.maxStreamID
  ended : st.state = .streamHalfClosedRemote → st.endStream = true
  pending : st.endHeaders = false → st.state = .streamOpen
  continued : st.endHeaders = false ↔ sc.continuationStream = streamID
  started : ∀ d ∈ sc.running, d.id = streamID → st.endHeaders = true

/-- What holds of the table and the goroutines in every state. -/
structure WellFormed (sc : ServerConn) : Prop where
  fits : ∀ id st, sc.streams id = some st → Fits sc id st
  started : ∀ d ∈ sc.running, d.id ≤ sc.maxStreamID

/-- A step that leaves the table in order and does not reopen the connection. -/
structure Orderly (sc sc' : ServerConn) : Prop where
  wf : WellFormed sc'
  max : sc.maxStreamID ≤ sc'.maxStreamID
  closed : sc'.isClosed = false → sc.isClosed = false

/-- A step that keeps all counters besides. -/
structure Kept (sc sc' : ServerConn) : Prop extends Orderly sc sc' where
  send : SendKept sc sc'
  recv : RecvKept sc sc'

section Kept

variable {sc sc' : ServerConn} {a b c : ServerConn}

theorem SendKept.of_eq (h1 : sc'.connSendWindow = sc.connSendWindow) (h2 : sc'.peerInitialWin = sc.peerInitialWin)
    (h3 : ∀ id st, sc'.streams id = some st → sc.streams id = some st) : SendKept sc sc' :=
  ⟨h1, h2, fun id st h => .inl ⟨st, h3 id st h, rfl⟩⟩

theorem RecvKept.of_eq (h1 : sc'.connRecvUnacked = sc.connRecvUnacked)
    (h2 : ∀ id st, sc'.streams id = some st → sc.streams id = some st) : RecvKept sc sc' :=
  ⟨h1, fun id st h hl => .inl ⟨st, h2 id st h, hl, rfl⟩⟩

theorem Orderly.trans (h : Orderly a b) (h' : Orderly b c) : Orderly a c :=
  ⟨h'.wf, h.max.trans h'.max, fun hc => h.closed (h'.closed hc)⟩

theorem SendKept.trans (h : SendKept a b) (hmax : a.maxStreamID ≤ b.maxStreamID)
    (h' : SendKept b c) : SendKept a c := by
  refine ⟨h'.conn.trans h.conn, h'.init.trans h.init, fun id st hst => ?_⟩
  obtain ⟨st1, hst1, he⟩ | ⟨hlt, he⟩ := h'.streams id st hst
  · obtain ⟨st2, hst2, he2⟩ | ⟨hlt, he2⟩ := h.streams id st1 hst1
    · exact .inl ⟨st2, hst2, he.trans he2⟩
    · exact .inr ⟨hlt, he.trans he2⟩
  · exact .inr ⟨lt_of_le_of_lt hmax hlt, he.trans h.init⟩

theorem RecvKept.trans (h : RecvKept a b) (hmax : a.maxStreamID ≤ b.maxStreamID)
    (h' : RecvKept b c) : RecvKept a c := by
  refine ⟨h'.conn.trans h.conn, fun id st hst hl => ?_⟩
  obtain ⟨st1, hst1, hl1, he⟩ | ⟨hlt, he⟩ := h'.streams id st hst hl
  · obtain ⟨st2, hst2, hl2, he2⟩ | ⟨hlt, he2⟩ := h.streams id st1 hst1 hl1
    · exact .inl ⟨st2, hst2, hl2, he.trans he2⟩
    · exact .inr ⟨hlt, he.trans he2⟩
  · exact .inr ⟨lt_of_le_of_lt hmax hlt, he⟩

theorem Kept.refl (hw : WellFormed sc) : Kept sc sc :=
  ⟨⟨hw, Nat.le_refl _, id⟩, .of_eq rfl rfl fun _ _ => id, .of_eq rfl fun _ _ => id⟩

theorem Kept.trans (h : Kept a b) (h' : Kept b c) : Kept a c :=
  ⟨h.toOrderly.trans h'.toOrderly, h.send.trans h.max h'.send, h.recv.trans h.max h'.recv⟩

end Kept

/-! ## Parts of the handlers -/

section Parts

variable {sc : ServerConn} {streamID : Nat} {st st' : ServerStream}

/-- `Fits` looks at three fields of the connection only. -/
theorem Fits.of_eq {sc' : ServerConn} (h : Fits sc streamID st)
    (hmax : sc.maxStreamID ≤ sc'.maxStreamID) (hcont : sc'.continuationStream = sc.continuationStream)
    (hrun : sc'.running = sc.running) : Fits sc' streamID st :=
  { h with max := h.max.trans hmax, continued := hcont ▸ h.continued, started := hrun ▸ h.started }

theorem streams_deleteStream {id : Nat}
    (h : (sc.deleteStream streamID).streams id = some st) : sc.streams id = some st := by
  simp only [deleteStream, Function.update_apply] at h
  split at h
  · cases h
  · exact h

@[simp] theorem streams_putStream_self (sc : ServerConn) (streamID : Nat) (st : ServerStream) :
    (sc.putStream streamID st).streams streamID = some st := by
  simp [putStream]

theorem streams_putStream {id : Nat} {s : ServerStream} (h : (sc.putStream streamID st).streams id = some s) :
    (id = streamID ∧ s = st) ∨ (id ≠ streamID ∧ sc.streams id = some s) := by
  simp only [putStream, Function.update_apply] at h
  split at h
  · cases h
    exact .inl ⟨‹_›, rfl⟩
  · exact .inr ⟨‹_›, h⟩

theorem sendKept_putStream (hst : sc.streams streamID = some st)
    (hsend : st'.sendWindow = st.sendWindow) : SendKept sc (sc.putStream streamID st') := by
  refine ⟨rfl, rfl, fun id s h => ?_⟩
  obtain ⟨rfl, rfl⟩ | ⟨-, h⟩ := streams_putStream h
  · exact .inl ⟨st, hst, hsend⟩
  · exact .inl ⟨s, h, rfl⟩

theorem recvKept_putStream (hst : sc.streams streamID = some st)
    (hrecv : st'.recvUnacked = st.recvUnacked) (hlive : st'.Live → st.Live) :
    RecvKept sc (sc.putStream streamID st') := by
  refine ⟨rfl, fun id s h hl => ?_⟩
  obtain ⟨rfl, rfl⟩ | ⟨-, h⟩ := streams_putStream h
  · exact .inl ⟨st, hst, hlive hl, hrecv⟩
  · exact .inl ⟨s, h, hl, rfl⟩

section Tables

variable (hw : WellFormed sc)
include hw

/-- A step that leaves all fields the counters and the table are about. -/
theorem Kept.of_fields {sc' : ServerConn} (hstreams : sc'.streams = sc.streams)
    (hmax : sc'.maxStreamID = sc.maxStreamID) (hcont : sc'.continuationStream = sc.continuationStream)
    (hrun : sc'.running = sc.running) (hsend : sc'.connSendWindow = sc.connSendWindow)
    (hinit : sc'.peerInitialWin = sc.peerInitialWin) (hrecv : sc'.connRecvUnacked = sc.connRecvUnacked)
    (hclosed : sc'.isClosed = false → sc.isClosed = false) : Kept sc sc' where
  send := .of_eq hsend hinit fun _ _ h => hstreams ▸ h
  recv := .of_eq hrecv fun _ _ h => hstreams ▸ h
  wf := by
    refine ⟨fun id st h => (hw.fits id st (hstreams ▸ h)).of_eq hmax.ge hcont hrun, fun d hd => ?_⟩
    rw [hmax]
    exact hw.started d (hrun ▸ hd)
  max := hmax.ge
  closed := hclosed

theorem kept_close : Kept sc { sc with isClosed := true } :=
  .of_fields hw rfl rfl rfl rfl rfl rfl rfl fun h => by cases h

theorem kept_closeWithGoAway (code : ErrorCode) : Kept sc (sc.closeWithGoAway code).1 :=
  kept_close hw

theorem kept_deleteStream (streamID : Nat) : Kept sc (sc.deleteStream streamID) where
  send := .of_eq rfl rfl fun _ _ => streams_deleteStream
  recv := .of_eq rfl fun _ _ => streams_deleteStream
  wf := ⟨fun id st h => (hw.fits id st (streams_deleteStream h)).of_eq (Nat.le_refl _) rfl rfl, hw.started⟩
  max := Nat.le_refl _
  closed := id

theorem orderly_putStream (hf : Fits sc streamID st) :
    Orderly sc (sc.putStream streamID st) := by
  refine ⟨⟨fun id s h => ?_, hw.started⟩, Nat.le_refl _, id⟩
  obtain ⟨rfl, rfl⟩ | ⟨-, h⟩ := streams_putStream h
  · exact hf.of_eq (Nat.le_refl _) rfl rfl
  · exact (hw.fits id s h).of_eq (Nat.le_refl _) rfl rfl

theorem kept_putStream
    (hst : sc.streams streamID = some st) (hf : Fits sc streamID st') (hsend : st'.sendWindow = st.sendWindow)
    (hrecv : st'.recvUnacked = st.recvUnacked) (hlive : st'.Live → st.Live) : Kept sc (sc.putStream streamID st') :=
  ⟨orderly_putStream hw hf, sendKept_putStream hst hsend, recvKept_putStream hst hrecv hlive⟩

theorem kept_startStream (hst : sc.streams st.id = some st)
    (hopen : st.state = .streamOpen) (hhead : st.endHeaders = true)
    (hend : st.endStream = true ∨ st.isExtConnect = true) : Kept sc (sc.startStream st) := by
  have hf := hw.fits _ _ hst
  have hf' : Fits sc st.id
      { st with state := if st.isExtConnect then .streamOpen else .streamHalfClosedRemote } := by
    refine { hf with key := rfl, ended := fun h => ?_, pending := fun h => ?_ }
    · obtain he | he := hend
      · exact he
      · simp [he] at h
    · simp [hhead] at h
  have hk := kept_putStream hw hst hf' rfl rfl fun hl => ⟨hl.1, hopen⟩
  refine ⟨⟨⟨fun id s h => ?_, fun d hd => ?_⟩, hk.max, hk.closed⟩, ⟨hk.send.conn, hk.send.init, hk.send.streams⟩,
    ⟨hk.recv.conn, hk.recv.streams⟩⟩
  · have hs := hk.wf.fits id s h
    refine { hs with started := fun d hd hid => ?_ }
    obtain hd | rfl := mem_append.1 hd |>.imp_right mem_singleton.1
    · exact hs.started d hd hid
    · obtain ⟨-, rfl⟩ | ⟨hne, -⟩ := streams_putStream h
      · exact hhead
      · exact absurd hid.symm hne
  · obtain hd | rfl := mem_append.1 hd |>.imp_right mem_singleton.1
    · exact hk.wf.started d hd
    · exact hf.max

end Tables

/-- Starting a stream takes the stream as it is given, not the table's copy. -/
theorem startStream_putStream (st : ServerStream) : (sc.putStream st.id st).startStream st = sc.startStream st := by
  simp [startStream, putStream]

end Parts

/-! ## Header blocks -/

/-- The streams differ at most in what a header block fills in. -/
structure SameStream (st st' : ServerStream) : Prop where
  id : st'.id = st.id
  endHeaders : st'.endHeaders = st.endHeaders
  endStream : st'.endStream = st.endStream
  state : st'.state = st.state
  sendWindow : st'.sendWindow = st.sendWindow
  recvUnacked : st'.recvUnacked = st.recvUnacked
  isTunnel : st'.isTunnel = st.isTunnel

theorem SameStream.refl (st : ServerStream) : SameStream st st := ⟨rfl, rfl, rfl, rfl, rfl, rfl, rfl⟩

theorem SameStream.trans {a b c : ServerStream} (h : SameStream a b) (h' : SameStream b c) : SameStream a c :=
  ⟨h'.id.trans h.id, h'.endHeaders.trans h.endHeaders, h'.endStream.trans h.endStream, h'.state.trans h.state,
    h'.sendWindow.trans h.sendWindow, h'.recvUnacked.trans h.recvUnacked, h'.isTunnel.trans h.isTunnel⟩

variable {st st' : ServerStream}

theorem SameStream.fits {sc : ServerConn} {streamID : Nat} (h : SameStream st st')
    (hf : Fits sc streamID st) : Fits sc streamID st' where
  key := h.id.trans hf.key
  nonzero := hf.nonzero
  max := hf.max
  ended := by rw [h.state, h.endStream]; exact hf.ended
  pending := by rw [h.endHeaders, h.state]; exact hf.pending
  continued := by rw [h.endHeaders]; exact hf.continued
  started := by rw [h.endHeaders]; exact hf.started

theorem SameStream.live (h : SameStream st st') (hl : st'.Live) : st.Live :=
  ⟨h.endStream ▸ hl.1, h.state ▸ hl.2⟩

/-- What a field accepted by a stream leaves of it. -/
def KeepsStream (st : ServerStream) : Except ErrorCode (ServerStream × Bool) → Prop
  | .error _ => True
  | .ok (st', _) => SameStream st st'

theorem acceptField_same (st : ServerStream) (seen : Bool) (k v : List UInt8) :
    KeepsStream st (ServerConn.acceptField st seen k v) := by
  unfold acceptField
  repeat' refine iteInduction (motive := KeepsStream st) (fun _ => ?_) (fun _ => ?_)
  all_goals first | exact trivial | exact ⟨rfl, rfl, rfl, rfl, rfl, rfl, rfl⟩

theorem headerFields_same (fuel : Nat) (hp : HPACK) (st : ServerStream) (seen : Bool) (b : List UInt8) :
    SameStream st (ServerConn.headerFields fuel hp st seen b).2.1 := by
  fun_induction headerFields fuel hp st seen b with
  | case1 => exact .refl _
  | case2 fuel hp st seen c rest hp' hf rem hnext hemp ih => exact ih
  | case3 => exact .refl _
  | case4 fuel hp st seen c rest hp' hf rem hnext hemp st' seen' hacc ih =>
    have hs := acceptField_same st seen hf.key hf.value
    rw [hacc] at hs
    exact hs.trans ih
  | case5 => exact .refl _

section HeaderBlocks

variable {sc : ServerConn}

/-- What the end of a header block leaves: the stream that the block fills in, started or not, or an error. -/
inductive Ended (sc : ServerConn) (st : ServerStream) : ServerConn × List Out → Prop
  | idle {hp st'} : SameStream st st' → Ended sc st ({ sc with hpackDec := hp }.putStream st'.id st', [])
  | start {hp st'} : SameStream st st' → st'.endStream = true ∨ st'.isExtConnect = true →
      Ended sc st (({ sc with hpackDec := hp }.putStream st'.id st').startStream st', [])
  | reset {hp st'} : SameStream st st' → Ended sc st
      (({ sc with hpackDec := hp }.putStream st'.id st').deleteStream st.id, [.rstStream st.id .protocolError])
  | goAway {hp st'} (code) : SameStream st st' →
      Ended sc st (({ sc with hpackDec := hp }.putStream st'.id st').closeWithGoAway code)

theorem ended_endHeaderBlock (sc : ServerConn) (st : ServerStream) : Ended sc st (sc.endHeaderBlock st) := by
  have hsame := headerFields_same st.headerBlock.length sc.hpackDec.beginHeaderBlock st false st.headerBlock
  unfold endHeaderBlock finishHeaderBlock
  generalize headerFields st.headerBlock.length sc.hpackDec.beginHeaderBlock st false st.headerBlock = r
    at hsame
  obtain ⟨hp, st', err⟩ := r
  cases err with
  | some e => cases e <;> first | exact .reset hsame | exact .goAway _ hsame
  | none =>
    dsimp only
    cases requestError st' _ with
    | some e => cases e <;> first | exact .reset hsame | exact .goAway _ hsame
    | none =>
      dsimp only
      split
      · rename_i hgo
        exact .start hsame (by simpa using hgo)
      · exact .idle hsame

/-- `finishHeaderBlock` works on the stream it is given, not on the table's copy. -/
theorem endHeaderBlock_putStream (st : ServerStream) :
    (sc.putStream st.id st).endHeaderBlock st = sc.endHeaderBlock st := by
  have hsame := headerFields_same st.headerBlock.length sc.hpackDec.beginHeaderBlock st false st.headerBlock
  have hfin : (sc.putStream st.id st).finishHeaderBlock st = sc.finishHeaderBlock st := by
    simp [finishHeaderBlock, putStream, hsame.id]
  simp only [endHeaderBlock, hfin]

section Blocks

variable (hw : WellFormed sc)
include hw

theorem kept_hpackDec (hp : HPACK) : Kept sc { sc with hpackDec := hp } :=
  .of_fields hw rfl rfl rfl rfl rfl rfl rfl id

/-- A header block keeps the counters, whatever becomes of the request. -/
theorem kept_endHeaderBlock (hst : sc.streams st.id = some st)
    (hopen : st.state = .streamOpen) (hhead : st.endHeaders = true) : Kept sc (sc.endHeaderBlock st).1 := by
  have hput : ∀ hp st', SameStream st st' → Kept sc ({ sc with hpackDec := hp }.putStream st'.id st') := by
    intro hp st' hsame
    have h₀ := kept_hpackDec hw hp
    rw [hsame.id]
    exact h₀.trans
      (kept_putStream h₀.wf hst (hsame.fits (h₀.wf.fits _ _ hst)) hsame.sendWindow hsame.recvUnacked hsame.live)
  have hend := ended_endHeaderBlock sc st
  generalize sc.endHeaderBlock st = r at hend
  cases hend with
  | idle hsame => exact hput _ _ hsame
  | @start hp _ hsame hgo =>
    have h1 := hput hp _ hsame
    exact h1.trans (kept_startStream h1.wf (streams_putStream_self _ _ _) (hsame.state.trans hopen)
      (hsame.endHeaders.trans hhead) hgo)
  | @reset hp _ hsame =>
    have h1 := hput hp _ hsame
    exact h1.trans (kept_deleteStream h1.wf _)
  | @goAway hp _ code hsame =>
    have h1 := hput hp _ hsame
    exact h1.trans (kept_closeWithGoAway h1.wf _)

theorem kept_newStream (st : ServerStream) (hmax : sc.maxStreamID < st.id)
    (hsend : st.sendWindow = sc.peerInitialWin) (hrecv : st.recvUnacked = 0) (hopen : st.state = .streamOpen)
    (hcont : sc.continuationStream = 0) :
    Kept sc ({ sc with
      maxStreamID := st.id
      continuationStream := if st.endHeaders then sc.continuationStream else st.id }.putStream st.id st) := by
  refine ⟨⟨⟨fun id s h => ?_, fun d hd => (hw.started d hd).trans hmax.le⟩, hmax.le, id⟩, ⟨rfl, rfl, fun id s h => ?_⟩,
    ⟨rfl, fun id s h hl => ?_⟩⟩
  · obtain ⟨rfl, rfl⟩ | ⟨hne, h⟩ := streams_putStream h
    · refine ⟨rfl, by omega, Nat.le_refl _, fun h => by simp [hopen] at h, fun _ => hopen, ?_, fun d hd hid => ?_⟩
      · have h0 : 0 ≠ s.id := by omega
        cases he : s.endHeaders <;> simp [putStream, hcont, h0]
      · exact absurd (hw.started d hd) (by omega)
    · -- No stream was in the middle of its header block.
      have hs := hw.fits id s h
      refine { hs with max := hs.max.trans hmax.le, continued := ?_ }
      have hold := hs.continued
      rw [hcont] at hold
      cases he : st.endHeaders <;> simp [putStream, hold, hcont, hs.nonzero.symm, hne.symm]
  · obtain ⟨rfl, rfl⟩ | ⟨-, h⟩ := streams_putStream h
    · exact .inr ⟨hmax, hsend⟩
    · exact .inl ⟨s, h, rfl⟩
  · obtain ⟨rfl, rfl⟩ | ⟨-, h⟩ := streams_putStream h
    · exact .inr ⟨hmax, hrecv⟩
    · exact .inl ⟨s, h, hl, rfl⟩

theorem kept_onHeaders (streamID : Nat) (payload : List UInt8) (endHeaders endStream : Bool) :
    Kept sc (sc.onHeaders streamID payload endHeaders endStream).1 := by
  unfold onHeaders
  split
  · exact kept_closeWithGoAway hw _
  split
  · exact kept_closeWithGoAway hw _
  split
  · exact kept_closeWithGoAway hw _
  rename_i hcont _ hmax
  have hk := kept_newStream hw { sc.newServerStream streamID endHeaders endStream with headerBlock := payload }
    (Nat.lt_of_not_le hmax) rfl rfl rfl (by simpa using hcont)
  cases endHeaders with
  | true => exact hk.trans (kept_endHeaderBlock hk.wf (streams_putStream_self _ _ _) rfl rfl)
  | false => exact hk

theorem kept_lastFragment {streamID : Nat} (hst : sc.streams streamID = some st)
    (hcont : sc.continuationStream = streamID) (headerBlock : List UInt8) :
    Kept sc ({ sc with continuationStream := 0 }.putStream st.id { st with headerBlock, endHeaders := true }) := by
  have hf := hw.fits _ _ hst
  obtain rfl := hf.key
  refine ⟨⟨⟨fun id s h => ?_, hw.started⟩, Nat.le_refl _, id⟩, ⟨rfl, rfl, fun id s h => ?_⟩, ⟨rfl, fun id s h hl => ?_⟩⟩
  · obtain ⟨rfl, rfl⟩ | ⟨hne, h⟩ := streams_putStream h
    · refine { hf with key := rfl, pending := fun h => absurd h (by simp), continued := ?_, started := fun _ _ _ => rfl }
      simpa [putStream] using hf.nonzero.symm
    · -- No other stream is in the middle of its header block.
      have hs := hw.fits id s h
      refine { hs with continued := ?_ }
      have hold := hs.continued
      rw [hcont] at hold
      simp [putStream, hold, hne.symm, hs.nonzero.symm]
  · obtain ⟨rfl, rfl⟩ | ⟨-, h⟩ := streams_putStream h
    · exact .inl ⟨st, hst, rfl⟩
    · exact .inl ⟨s, h, rfl⟩
  · obtain ⟨rfl, rfl⟩ | ⟨-, h⟩ := streams_putStream h
    · exact .inl ⟨st, hst, hl, rfl⟩
    · exact .inl ⟨s, h, hl, rfl⟩

theorem kept_onContinuation (streamID : Nat) (payload : List UInt8) (endHeaders : Bool) :
    Kept sc (sc.onContinuation streamID payload endHeaders).1 := by
  unfold onContinuation
  split
  · exact kept_closeWithGoAway hw _
  rename_i hcont
  have heq : sc.continuationStream = streamID := by
    simp only [not_or, not_not] at hcont
    exact hcont.2
  split
  · exact kept_closeWithGoAway hw _
  rename_i st hst
  have hf := hw.fits _ _ hst
  split
  · exact kept_closeWithGoAway hw _
  simp only
  split
  · rw [← endHeaderBlock_putStream]
    have h1 := kept_lastFragment hw hst heq (st.headerBlock ++ payload)
    exact h1.trans (kept_endHeaderBlock h1.wf (streams_putStream_self _ _ _) (hf.pending (hf.continued.2 heq)) rfl)
  · exact kept_putStream hw hst { hf with } rfl rfl id

end Blocks

end HeaderBlocks

/-! ## The other callbacks -/

section Callbacks

variable {sc : ServerConn}

/-- What a callback without a request, a window or settings does. -/
inductive Brief (sc : ServerConn) : ServerConn × List Out → Prop
  | nothing : Brief sc (sc, [])
  | goAway (code) : Brief sc (sc.closeWithGoAway code)
  | close : Brief sc ({ sc with isClosed := true }, [])
  | pingAck (octets) : Brief sc (sc, [.pingAck octets])
  | delete (streamID) : Brief sc (sc.deleteStream streamID, [])

def Event.isBrief : Event → Bool
  | .ping _ _ | .streamReset _ _ | .goAway _ _ | .priority _ _ | .unknownFrame _ _ _ _ => true
  | _ => false

theorem brief_handle {e : Event} (he : Event.isBrief e = true) : Brief sc (sc.handle e) := by
  cases e with
  | ping payload ack =>
    simp only [handle, onPing]
    split_ifs
    · exact .goAway _
    · exact .nothing
    · exact .pingAck _
  | streamReset streamID errorCode =>
    simp only [handle, onStreamReset]
    split_ifs
    · exact .goAway _
    · exact .goAway _
    · exact .delete _
  | goAway lastStreamID errorCode => exact .close
  | priority streamID payload =>
    simp only [handle, onPriority]
    split_ifs
    · exact .goAway _
    · exact .nothing
  | unknownFrame streamID frameType flags payload =>
    simp only [handle, onUnknownFrame]
    split_ifs
    · exact .goAway _
    · exact .goAway _
    · exact .nothing
  | _ => cases he

theorem kept_brief {r : ServerConn × List Out} (hw : WellFormed sc) (h : Brief sc r) : Kept sc r.1 := by
  cases h with
  | nothing | pingAck => exact .refl hw
  | goAway | close => exact kept_close hw
  | delete streamID => exact kept_deleteStream hw streamID

end Callbacks

/-! ## Goroutines -/

section Acts

variable {sc : ServerConn} {i : Nat} {d : Dispatch} {a : ServerConn.Act} {out : List Out}

theorem kept_running (hw : WellFormed sc) (running : List Dispatch)
    (h : ∀ d ∈ running, ∃ d0 ∈ sc.running, d.id = d0.id) : Kept sc { sc with running } where
  send := .of_eq rfl rfl fun _ _ => id
  recv := .of_eq rfl fun _ _ => id
  wf := by
    refine ⟨fun id st hst => ?_, fun d hd => ?_⟩
    · have hf := hw.fits id st hst
      refine { hf with started := fun d hd hid => ?_ }
      obtain ⟨d0, hd0, he⟩ := h d hd
      exact hf.started d0 hd0 (he ▸ hid)
    · obtain ⟨d0, hd0, he⟩ := h d hd
      rw [he]
      exact hw.started d0 hd0
  max := Nat.le_refl _
  closed := id

theorem kept_hpackEnc (hw : WellFormed sc) (hp : HPACK) : Kept sc { sc with hpackEnc := hp } :=
  .of_fields hw rfl rfl rfl rfl rfl rfl rfl id

theorem kept_updateStream (hw : WellFormed sc) (streamID : Nat) (f : ServerStream → ServerStream)
    (hf : ∀ st, sc.streams streamID = some st → Fits sc streamID (f st) ∧ (f st).sendWindow = st.sendWindow ∧
      (f st).recvUnacked = st.recvUnacked ∧ ((f st).Live → st.Live)) : Kept sc (sc.updateStream streamID f) := by
  cases hst : sc.streams streamID with
  | none =>
    have he : sc.updateStream streamID f = sc := by
      simp only [updateStream, hst, Option.map_none]
      rw [← hst, Function.update_eq_self]
    rw [he]
    exact .refl hw
  | some st =>
    have he : sc.updateStream streamID f = sc.putStream streamID (f st) := by
      simp [updateStream, hst, putStream]
    obtain ⟨hfit, hsend, hrecv, hlive⟩ := hf st hst
    rw [he]
    exact kept_putStream hw hst hfit hsend hrecv hlive

theorem running_set {running : List Dispatch} {d' : Dispatch} (hd : running[i]? = some d)
    (hid : d'.id = d.id) : ∀ e ∈ running.set i d', ∃ e0 ∈ running, e.id = e0.id := by
  intro e he
  obtain he | rfl := mem_or_eq_of_mem_set he
  · exact ⟨e, he, rfl⟩
  · exact ⟨d, mem_of_getElem? hd, hid⟩

/-- What a call of a goroutine can do. -/
inductive Acted (sc : ServerConn) (i : Nat) (d : Dispatch) : ServerConn → List Out → Prop
  | upgrade {statusCode headers} {sc' : ServerConn} : d.responded = false →
      sc' = { sc.updateStream d.id fun st => { st with isTunnel := true } with
        running := sc.running.map fun d' => if d'.id = d.id then { d' with isTunnel := true } else d' } →
      Acted sc i d (sc'.writeHeaders d.id statusCode headers false).1 (sc'.writeHeaders d.id statusCode headers false).2
  | write {p} : d.responded = false → Acted sc i d sc (sc.writeStreamData d.id p false)
  | closeAdapter : d.responded = false →
      Acted sc i d { sc with running := sc.running.set i { d with adapterClosed := true } } (sc.closeAdapter d)
  | respond (res) {r} {d' : Dispatch} : d.responded = false → r = (sc, sc.closeAdapter d) ∨ r = sc.writeResponse d.id res →
      d'.id = d.id → Acted sc i d { r.1.updateStream d.id (fun st => { st with state := .streamClosed }) with
        running := r.1.running.set i d' } r.2
  | release : Acted sc i d { sc.deleteStream d.id with running := sc.running.eraseIdx i } (sc.closeAdapter d)

theorem acted_act {sc' : ServerConn} (h : sc.act i d a = some (sc', out)) : Acted sc i d sc' out := by
  cases a with
  | upgrade statusCode headers =>
    simp only [act] at h
    split at h <;> cases h
    rename_i hr
    exact .upgrade (by simpa using hr) rfl
  | write p =>
    simp only [act] at h
    split at h <;> cases h
    rename_i hr
    exact .write (by simp_all)
  | closeAdapter =>
    simp only [act] at h
    split at h <;> cases h
    rename_i hr
    exact .closeAdapter (by simp_all)
  | respond res =>
    simp only [act] at h
    split at h <;> cases h
    rename_i hr
    cases ht : d.isTunnel with
    | true => exact .respond res (by simpa using hr) (.inl rfl) rfl
    | false => exact .respond res (by simpa using hr) (.inr rfl) rfl
  | release =>
    simp only [act] at h
    split at h <;> cases h
    exact .release

theorem kept_act {sc' : ServerConn} (hw : WellFormed sc)
    (hd : sc.running[i]? = some d) (h : sc.act i d a = some (sc', out)) : Kept sc sc' := by
  have hmem := mem_of_getElem? hd
  cases acted_act h with
  | upgrade _ hsc =>
    subst hsc
    have h1 : Kept sc (sc.updateStream d.id fun st => { st with isTunnel := true }) := by
      refine kept_updateStream hw _ _ fun st hst => ?_
      have hf := hw.fits _ _ hst
      exact ⟨{ hf with }, rfl, rfl, id⟩
    have h2 := kept_running h1.wf (sc.running.map fun d' => if d'.id = d.id then { d' with isTunnel := true } else d')
      fun e he => by
        obtain ⟨e0, he0, rfl⟩ := mem_map.1 he
        refine ⟨e0, he0, ?_⟩
        split <;> rfl
    exact h1.trans (h2.trans (kept_hpackEnc h2.wf _))
  | write => exact .refl hw
  | closeAdapter => exact kept_running hw _ (running_set hd rfl)
  | @respond _ r _ _ hres hid =>
    have hk : Kept sc r.1 ∧ r.1.running = sc.running := by
      rcases hres with rfl | rfl
      · exact ⟨.refl hw, rfl⟩
      · exact ⟨kept_hpackEnc hw _, rfl⟩
    obtain ⟨hk, hrun⟩ := hk
    have h1 : Kept r.1 (r.1.updateStream d.id fun st => { st with state := .streamClosed }) := by
      refine kept_updateStream hk.wf _ _ fun st hst => ?_
      have hf := hk.wf.fits _ _ hst
      refine ⟨{ hf with ended := fun h => absurd h (by simp), pending := fun h => ?_ }, rfl,
        rfl, fun hl => absurd hl.2 (by simp)⟩
      -- A stream with a goroutine has its headers.
      simp [hf.started d (hrun ▸ hmem) rfl] at h
    exact hk.trans (h1.trans (kept_running h1.wf _ (running_set (hrun ▸ hd) hid)))
  | release =>
    have h1 := kept_deleteStream hw d.id
    exact h1.trans (kept_running h1.wf _ fun e he => ⟨e, mem_of_mem_eraseIdx he, rfl⟩)

end Acts

/-! ## What is written

A goroutine writes the frames of its response. No callback writes such frames or touches the encoder, and only SETTINGS
touch the peer's frame size. -/

/-- The goroutine has still something to write. -/
def Dispatch.mayWrite (d : Dispatch) : Bool := !d.responded || (d.isExtConnect && !d.adapterClosed)

/-- A frame of a goroutine: HEADERS of its stream, or DATA cut to `max` octets. -/
def Out.Of (d : Dispatch) (max : Nat) : Out → Prop
  | .headers streamID _ _ => streamID = d.id ∧ d.mayWrite = true
  | .data streamID payload _ => streamID = d.id ∧ d.mayWrite = true ∧ payload.length ≤ max
  | _ => False

/-- What a callback may write: GOAWAY as it closes the connection, credit for DATA, an acknowledgement of SETTINGS. -/
def Out.Reply (e : Event) (closed : Bool) : Out → Prop
  | .settingsAck => ∃ payload, e = .settings payload false
  | .windowUpdate _ _ => ∃ streamID payload endStream, e = .streamData streamID payload endStream
  | .goAway _ _ => closed = true
  | .headers _ _ _ | .data _ _ _ => False
  | .pingAck _ | .rstStream _ _ => True

structure Replied (sc : ServerConn) (e : Event) (r : ServerConn × List Out) : Prop where
  hpackEnc : r.1.hpackEnc = sc.hpackEnc
  peerMaxFrameSize : (∀ payload, e ≠ .settings payload false) → r.1.peerMaxFrameSize = sc.peerMaxFrameSize
  replies : ∀ o ∈ r.2, o.Reply e r.1.isClosed

namespace ServerConn

section Goroutines

variable {sc sc' : ServerConn} {d : Dispatch}

theorem of_dataFrames (hd : d.mayWrite = true) (max : Nat) (endStream : Bool) (fuel : Nat) (body : List UInt8) :
    ∀ o ∈ dataFrames max d.id endStream fuel body, o.Of d max := by
  fun_induction dataFrames max d.id endStream fuel body with
  | case1 fuel c rest body chunkSize ih =>
    refine forall_mem_cons.2 ⟨⟨rfl, hd, ?_⟩, ih⟩
    rw [length_take]
    omega
  | case2 => exact nofun

theorem of_writeStreamData (hd : d.mayWrite = true) (body : List UInt8) (endStream : Bool) :
    ∀ o ∈ sc.writeStreamData d.id body endStream, o.Of d sc.maxChunk := by
  unfold writeStreamData
  split
  · split
    · exact forall_mem_singleton.2 ⟨rfl, hd, Nat.zero_le _⟩
    · exact nofun
  · exact of_dataFrames hd _ _ _ _

theorem of_closeAdapter (sc : ServerConn) (d : Dispatch) : ∀ o ∈ sc.closeAdapter d, o.Of d sc.maxChunk := by
  unfold closeAdapter
  split
  · rename_i h
    exact of_writeStreamData (by simp [Dispatch.mayWrite, h.1, h.2]) _ _
  · exact nofun

theorem mayWrite_of_not_responded (h : d.responded = false) : d.mayWrite = true := by simp [Dispatch.mayWrite, h]

theorem of_act {i : Nat} {a : Act} {out : List Out} (h : sc.act i d a = some (sc', out)) :
    sc'.peerMaxFrameSize = sc.peerMaxFrameSize ∧ ∀ o ∈ out, o.Of d sc.maxChunk := by
  cases acted_act h with
  | upgrade hr hsc =>
    subst hsc
    exact ⟨rfl, forall_mem_singleton.2 ⟨rfl, mayWrite_of_not_responded hr⟩⟩
  | write hr => exact ⟨rfl, of_writeStreamData (mayWrite_of_not_responded hr) _ _⟩
  | closeAdapter | release => exact ⟨rfl, of_closeAdapter sc d⟩
  | respond _ hr hres =>
    have hd := mayWrite_of_not_responded hr
    rcases hres with rfl | rfl
    · exact ⟨rfl, of_closeAdapter sc d⟩
    · exact ⟨rfl, forall_mem_cons.2 ⟨⟨rfl, hd⟩, of_dataFrames hd _ _ _ _⟩⟩

end Goroutines

section Callbacks

variable (sc : ServerConn) {e : Event}

theorem replied_nil : Replied sc e (sc, []) := ⟨rfl, fun _ => rfl, nofun⟩

theorem replied_closeWithGoAway (code : ErrorCode) : Replied sc e (sc.closeWithGoAway code) :=
  ⟨rfl, fun _ => rfl, forall_mem_singleton.2 rfl⟩

variable {sc} in
theorem replied_brief {r : ServerConn × List Out} (h : Brief sc r) : Replied sc e r := by
  cases h with
  | nothing => exact replied_nil sc
  | goAway code => exact replied_closeWithGoAway sc code
  | close | delete => exact ⟨rfl, fun _ => rfl, nofun⟩
  | pingAck => exact ⟨rfl, fun _ => rfl, forall_mem_singleton.2 trivial⟩

/-- What `replenishReceiveWindow` does: on an open connection nothing is lost between the increments `a` and `b` and
what stays owed. -/
theorem replenishReceiveWindow_eq (st : ServerStream) (n : Nat) : ∃ c u a b,
    sc.replenishReceiveWindow st n =
        ({ sc with connRecvUnacked := c }, { st with recvUnacked := u }, sendBatchedWindowUpdates a st.id b) ∧
      (sc.isClosed = false → a + c = sc.connRecvUnacked + n ∧ (st.endStream = false → b + u = st.recvUnacked + n)) := by
  have hbatch : ∀ unacked, (batch unacked n).1 + (batch unacked n).2 = unacked + n := by
    intro unacked
    unfold batch
    split <;> simp
  unfold replenishReceiveWindow
  split
  · rename_i h
    refine ⟨sc.connRecvUnacked, st.recvUnacked, 0, 0, rfl, fun hopen => ?_⟩
    have hn : n = 0 := by simpa [hopen] using h
    simp [hn]
  · refine ⟨_, _, _, _, rfl, fun _ => ⟨hbatch _, fun hlive => ?_⟩⟩
    rw [hlive]
    exact hbatch _

theorem replied_onStreamData (streamID : Nat) (payload : List UInt8) (endStream : Bool) :
    Replied sc (.streamData streamID payload endStream) (sc.onStreamData streamID payload endStream) := by
  have hreject : ∀ o ∈ sc.rejectData streamID payload, o.Reply (.streamData streamID payload endStream) sc.isClosed := by
    intro o ho
    simp only [rejectData, mem_append, mem_ite_nil_right, mem_singleton] at ho
    obtain ⟨-, rfl⟩ | rfl := ho
    · exact ⟨_, _, _, rfl⟩
    · trivial
  have hbatch : ∀ connInc id stInc, ∀ o ∈ sendBatchedWindowUpdates connInc id stInc,
      o.Reply (.streamData streamID payload endStream) sc.isClosed := by
    intro connInc id stInc o ho
    simp only [sendBatchedWindowUpdates, mem_append, mem_ite_nil_right, mem_singleton] at ho
    obtain ⟨-, rfl⟩ | ⟨-, rfl⟩ := ho <;> exact ⟨_, _, _, rfl⟩
  unfold onStreamData
  split
  · exact replied_closeWithGoAway sc _
  split
  · exact replied_closeWithGoAway sc _
  split
  · exact ⟨rfl, fun _ => rfl, hreject⟩
  rename_i st hst
  split
  · exact ⟨rfl, fun _ => rfl, hreject⟩
  split
  · obtain ⟨c, u, a, b, heq, -⟩ := replenishReceiveWindow_eq sc st payload.length
    rw [heq]
    exact ⟨rfl, fun _ => rfl, hbatch _ _ _⟩
  · obtain ⟨c, u, a, b, heq, -⟩ := replenishReceiveWindow_eq sc { st with body := st.body ++ payload } payload.length
    rw [heq]
    dsimp only
    split <;> exact ⟨rfl, fun _ => rfl, hbatch _ _ _⟩

theorem replied_endHeaderBlock (st : ServerStream) : Replied sc e (sc.endHeaderBlock st) := by
  have hend := ended_endHeaderBlock sc st
  generalize sc.endHeaderBlock st = r at hend
  cases hend with
  | idle | start => exact ⟨rfl, fun _ => rfl, nofun⟩
  | reset => exact ⟨rfl, fun _ => rfl, forall_mem_singleton.2 trivial⟩
  | goAway => exact ⟨rfl, fun _ => rfl, forall_mem_singleton.2 rfl⟩

theorem replied_onHeaders (streamID : Nat) (payload : List UInt8) (endHeaders endStream : Bool) :
    Replied sc e (sc.onHeaders streamID payload endHeaders endStream) := by
  have h := fun sc st => @replied_endHeaderBlock sc e st
  simp only [onHeaders]
  repeat' split
  all_goals first
    | exact replied_closeWithGoAway sc _
    | exact { h _ _ with }
    | exact ⟨rfl, fun _ => rfl, nofun⟩

theorem replied_onContinuation (streamID : Nat) (payload : List UInt8) (endHeaders : Bool) :
    Replied sc e (sc.onContinuation streamID payload endHeaders) := by
  have h := fun sc st => @replied_endHeaderBlock sc e st
  simp only [onContinuation]
  repeat' split
  all_goals first
    | exact replied_closeWithGoAway sc _
    | exact { h _ _ with }
    | exact ⟨rfl, fun _ => rfl, nofun⟩

theorem replied_onWindowUpdate (streamID increment : Nat) : Replied sc e (sc.onWindowUpdate streamID increment) := by
  simp only [onWindowUpdate]
  repeat' split
  all_goals first
    | exact replied_closeWithGoAway sc _
    | exact ⟨rfl, fun _ => rfl, forall_mem_singleton.2 trivial⟩
    | exact ⟨rfl, fun _ => rfl, nofun⟩

theorem hpackEnc_applySettings (payload : List UInt8) : (sc.applySettings payload).1.hpackEnc = sc.hpackEnc := by
  have hone : ∀ (sc : ServerConn) id val, (sc.applySetting id val).1.hpackEnc = sc.hpackEnc := by
    intro sc id val
    simp only [applySetting]
    repeat' split
    all_goals rfl
  fun_induction applySettings sc payload with
  | case1 sc a b c d e f rest sc1 code h =>
    have := hone sc (beNat [a, b]) (beNat [c, d, e, f])
    rwa [h] at this
  | case2 sc a b c d e f rest sc1 h ih =>
    have := hone sc (beNat [a, b]) (beNat [c, d, e, f])
    rw [h] at this
    exact ih.trans this
  | case3 => rfl

theorem replied_onSettings (payload : List UInt8) (ack : Bool) :
    Replied sc (.settings payload ack) (sc.onSettings payload ack) := by
  have hset := hpackEnc_applySettings sc payload
  unfold onSettings
  split
  · exact replied_closeWithGoAway sc _
  split
  · split
    · exact replied_closeWithGoAway sc _
    · exact replied_nil sc
  rename_i hack
  obtain rfl : ack = false := by simpa using hack
  split
  · exact replied_closeWithGoAway sc _
  · split <;> rename_i heq <;> rw [heq] at hset
    · exact ⟨hset, fun hne => absurd rfl (hne payload), forall_mem_singleton.2 rfl⟩
    · exact ⟨hset, fun hne => absurd rfl (hne payload), forall_mem_singleton.2 ⟨payload, rfl⟩⟩

theorem replied_handle (e : Event) : Replied sc e (sc.handle e) := by
  cases e with
  | streamData streamID payload endStream => exact replied_onStreamData sc streamID payload endStream
  | headers streamID payload endHeaders endStream => exact replied_onHeaders sc streamID payload endHeaders endStream
  | continuation streamID payload endHeaders => exact replied_onContinuation sc streamID payload endHeaders
  | settings payload ack => exact replied_onSettings sc payload ack
  | windowUpdate streamID increment => exact replied_onWindowUpdate sc streamID increment
  | ping | streamReset | goAway | priority | unknownFrame => exact replied_brief (brief_handle rfl)

end Callbacks

end ServerConn

end Mach.H2.Server
