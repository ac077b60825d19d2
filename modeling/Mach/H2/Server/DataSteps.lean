import Mach.H2.Server.Steps
/-!
# DATA frames

What a DATA frame does to the credit the server owes, and that no other step
returns credit.
-/

namespace Mach.H2.Server
open Lib Hpack Headkit ServerConn

/-- The increments for a stream, or for the connection as stream 0, among the frames written. -/
def Out.credit (id : Nat) : Out → Nat
  | .windowUpdate streamID increment => if streamID = id then increment else 0
  | _ => 0

def credit (id : Nat) (out : List Out) : Nat := (out.map (Out.credit id)).sum

/-- A step that takes `n` octets of DATA on a stream and writes `out`: what is returned and what stays owed grow
by `n` together, on the connection and on each stream that has not ended. -/
structure RecvMoved (sc sc' : ServerConn) (streamID n : Nat) (out : List Out) : Prop where
  known : streamID ≤ sc.maxStreamID
  conn : credit 0 out + sc'.connRecvUnacked = sc.connRecvUnacked + n
  streams : ∀ id st', sc'.streams id = some st' → st'.Live → ∃ st, sc.streams id = some st ∧ st.Live ∧
    credit id out + st'.recvUnacked = st.recvUnacked + if id = streamID then n else 0
  other : ∀ id, id ≠ 0 → id ≠ streamID → credit id out = 0

section Data

variable {sc : ServerConn}

@[simp] theorem credit_nil (id : Nat) : credit id [] = 0 := rfl

@[simp] theorem credit_cons (id : Nat) (o : Out) (out : List Out) : credit id (o :: out) = o.credit id + credit id out :=
  rfl

@[simp] theorem credit_append (id : Nat) (out out' : List Out) :
    credit id (out ++ out') = credit id out + credit id out' := by
  simp [credit]

theorem credit_update (streamID inc id : Nat) :
    credit id (if 0 < inc then [.windowUpdate streamID inc] else []) = if id = streamID then inc else 0 := by
  by_cases h : 0 < inc
  · simp [h, Out.credit, eq_comm]
  · simp [Nat.eq_zero_of_not_pos h]

theorem credit_sendBatched (connInc streamID stInc id : Nat) :
    credit id (ServerConn.sendBatchedWindowUpdates connInc streamID stInc) =
      (if id = 0 then connInc else 0) + if id = streamID then stInc else 0 := by
  rw [sendBatchedWindowUpdates, credit_append, credit_update, credit_update]

theorem moved_putStream {streamID n c : Nat} {st st' : ServerStream} {out : List Out} (hw : WellFormed sc)
    (hst : sc.streams streamID = some st) (hlive : st.state = .streamOpen) (hf : Fits sc streamID st')
    (hsend : st'.sendWindow = st.sendWindow) (hend : st'.endStream = false → st.endStream = false)
    (hconn : sc.isClosed = false → credit 0 out + c = sc.connRecvUnacked + n)
    (hstream : sc.isClosed = false → st.endStream = false →
      credit streamID out + st'.recvUnacked = st.recvUnacked + n)
    (hother : sc.isClosed = false → ∀ id, id ≠ 0 → id ≠ streamID → credit id out = 0) :
    let sc' := { sc with connRecvUnacked := c }.putStream streamID st'
    Orderly sc sc' ∧ SendKept sc sc' ∧ (sc'.isClosed = false → RecvMoved sc sc' streamID n out) := by
  have hw' : WellFormed { sc with connRecvUnacked := c } :=
    ⟨fun id s h => (hw.fits id s h).of_eq (Nat.le_refl _) rfl rfl, hw.started⟩
  have ho := orderly_putStream hw' (hf.of_eq (Nat.le_refl _) rfl rfl)
  have hs : SendKept { sc with connRecvUnacked := c } _ := sendKept_putStream hst hsend
  refine ⟨⟨ho.wf, ho.max, ho.closed⟩, ⟨hs.conn, hs.init, hs.streams⟩, fun hopen =>
    ⟨hf.max, hconn hopen, fun id s h hl => ?_, hother hopen⟩⟩
  obtain ⟨rfl, rfl⟩ | ⟨hne, h⟩ := streams_putStream h
  · refine ⟨st, hst, ⟨hend hl.1, hlive⟩, ?_⟩
    rw [if_pos rfl]
    exact hstream hopen (hend hl.1)
  · refine ⟨s, h, hl, ?_⟩
    rw [if_neg hne, hother hopen id (hw.fits id s h).nonzero hne, Nat.zero_add, Nat.add_zero]

theorem RecvMoved.kept {sc1 sc2 : ServerConn} {streamID n : Nat} {out : List Out} (h : RecvMoved sc sc1 streamID n out)
    (hk : Kept sc1 sc2) (hmax : sc2.maxStreamID = sc1.maxStreamID) : RecvMoved sc sc2 streamID n out := by
  refine ⟨h.known, hk.recv.conn ▸ h.conn, fun id st hst hl => ?_, h.other⟩
  obtain ⟨st1, hst1, hl1, he⟩ | ⟨hlt, -⟩ := hk.recv.streams id st hst hl
  · rw [he]
    exact h.streams id st1 hst1 hl1
  · exact absurd (hk.wf.fits id st hst).max (by omega)

theorem moved_startStream {sc1 : ServerConn} {streamID n : Nat} {st : ServerStream} {out : List Out}
    (ho : Orderly sc (sc1.putStream streamID st)) (hs : SendKept sc (sc1.putStream streamID st))
    (hm : (sc1.putStream streamID st).isClosed = false → RecvMoved sc (sc1.putStream streamID st) streamID n out)
    (hid : st.id = streamID) (hopen : st.state = .streamOpen) (hhead : st.endHeaders = true)
    (hend : st.endStream = true) :
    Orderly sc (sc1.startStream st) ∧ SendKept sc (sc1.startStream st) ∧
      ((sc1.startStream st).isClosed = false → RecvMoved sc (sc1.startStream st) streamID n out) := by
  subst hid
  have hk := kept_startStream ho.wf (streams_putStream_self _ _ _) hopen hhead (.inl hend)
  rw [startStream_putStream] at hk
  exact ⟨ho.trans hk.toOrderly, hs.trans ho.max hk.send, fun h => (hm (hk.closed h)).kept hk rfl⟩

theorem moved_reject {streamID : Nat} (hw : WellFormed sc) (payload : List UInt8) (hmax : streamID ≤ sc.maxStreamID)
    (hdead : ∀ st, sc.streams streamID = some st → ¬ st.Live) (hopen : sc.isClosed = false) :
    RecvMoved sc sc streamID payload.length (sc.rejectData streamID payload) := by
  have hc : ∀ id, credit id (sc.rejectData streamID payload) = if id = 0 then payload.length else 0 := by
    intro id
    simp only [rejectData, hopen, and_true, credit_append, credit_update]
    simp [Out.credit]
  refine ⟨hmax, by rw [hc, if_pos rfl, Nat.add_comm], fun id st hst hl => ⟨st, hst, hl, ?_⟩, fun id h _ => ?_⟩
  · have hne : id ≠ streamID := fun he => hdead st (he ▸ hst) hl
    rw [hc, if_neg (hw.fits id st hst).nonzero, if_neg hne, Nat.zero_add, Nat.add_zero]
  · rw [hc, if_neg h]

theorem moved_onStreamData (hw : WellFormed sc) (streamID : Nat) (payload : List UInt8) (endStream : Bool) :
    let r := sc.onStreamData streamID payload endStream
    Orderly sc r.1 ∧ SendKept sc r.1 ∧ (r.1.isClosed = false → RecvMoved sc r.1 streamID payload.length r.2) := by
  have hk := Kept.refl hw
  have hclose := kept_closeWithGoAway hw .protocolError
  unfold onStreamData
  split
  · exact ⟨hclose.toOrderly, hclose.send, nofun⟩
  rename_i hcont
  split
  · exact ⟨hclose.toOrderly, hclose.send, nofun⟩
  rename_i hmax
  have hreject := moved_reject hw payload (Nat.le_of_not_lt hmax)
  split
  · rename_i hst
    exact ⟨hk.toOrderly, hk.send, hreject fun st h => by simp [hst] at h⟩
  rename_i st hst
  have hf := hw.fits _ _ hst
  split
  · rename_i hstate
    refine ⟨hk.toOrderly, hk.send, hreject fun st' h hl => ?_⟩
    rw [hst] at h
    cases h
    simp [hl.2] at hstate
  have hopen : st.state = .streamOpen := by
    cases h : st.state <;> simp_all
  -- What is put back is the stream with the octets taken, in a tunnel or in the body.
  have hcredit : ∀ a b id, credit id (sendBatchedWindowUpdates a st.id b) =
      (if id = 0 then a else 0) + if id = streamID then b else 0 := fun a b id => by rw [credit_sendBatched, hf.key]
  have hput : ∀ (body : List UInt8) (c u a b : Nat),
      (sc.isClosed = false → a + c = sc.connRecvUnacked + payload.length ∧
        (st.endStream = false → b + u = st.recvUnacked + payload.length)) → _ := fun body c u a b hm =>
    @moved_putStream sc streamID payload.length c st
      { st with body, recvUnacked := u, endStream := st.endStream || endStream }
      (sendBatchedWindowUpdates a st.id b) hw hst hopen
      { hf with ended := by simp [hopen] } rfl
      (fun h => (Bool.or_eq_false_iff.1 h).1)
      (fun h => by rw [hcredit, if_pos rfl, if_neg hf.nonzero.symm]; exact (hm h).1)
      (fun h hl => by rw [hcredit, if_neg hf.nonzero, if_pos rfl, Nat.zero_add]; exact (hm h).2 hl)
      fun _ id h1 h2 => by rw [hcredit, if_neg h1, if_neg h2]
  split
  · obtain ⟨c, u, a, b, he, hm⟩ := replenishReceiveWindow_eq sc st payload.length
    rw [he]
    exact hput st.body c u a b hm
  · obtain ⟨c, u, a, b, he, hm⟩ :=
      replenishReceiveWindow_eq sc { st with body := st.body ++ payload } payload.length
    have hput := hput (st.body ++ payload) c u a b hm
    rw [he]
    cases endStream with
    | false => simpa using hput
    | true =>
      obtain ⟨ho, hs, hmv⟩ := hput
      have hhead : st.endHeaders = true := by
        have h0 : sc.continuationStream ≠ streamID := by
          rw [not_not.1 hcont]
          exact hf.nonzero.symm
        simpa using mt hf.continued.1 h0
      simp only [Bool.or_true] at ho hs hmv
      exact moved_startStream ho hs hmv hf.key hopen hhead rfl

end Data

/-! ## Credit is returned for DATA only -/

theorem credit_eq_zero {out : List Out} (h : ∀ o ∈ out, ∀ streamID increment, o ≠ .windowUpdate streamID increment)
    (id : Nat) : credit id out = 0 := by
  induction out with
  | nil => rfl
  | cons o out ih =>
    rw [credit_cons, ih fun o' ho' => h o' (List.mem_cons_of_mem _ ho')]
    cases o with
    | windowUpdate streamID increment => exact absurd rfl (h _ List.mem_cons_self _ _)
    | _ => rfl

theorem credit_handle {sc : ServerConn} {e : Event}
    (hdata : ∀ streamID payload endStream, e ≠ .streamData streamID payload endStream) (id : Nat) :
    credit id (sc.handle e).2 = 0 := by
  refine credit_eq_zero (fun o ho streamID increment he => ?_) id
  obtain ⟨_, _, _, h⟩ := he ▸ (sc.replied_handle e).replies o ho
  exact hdata _ _ _ h

theorem credit_act {sc sc' : ServerConn} {i : Nat} {d : Dispatch} {a : ServerConn.Act} {out : List Out}
    (h : sc.act i d a = some (sc', out)) (id : Nat) : credit id out = 0 :=
  credit_eq_zero (fun o ho _ _ he => by have := (of_act h).2 o ho; rw [he] at this; exact this) id

end Mach.H2.Server
