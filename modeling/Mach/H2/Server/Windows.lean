import Mach.H2.Server.DataSteps
import Mach.H2.Server.WindowSteps
import Mathlib.Algebra.Order.BigOperators.Group.List
/-!
# The server and the client's flow-control windows

The client's WINDOW_UPDATE and SETTINGS frames say how many octets of DATA the
server may send, on the connection and on each stream, and the server keeps a
counter for each. The handlers raise the counters as they should; what writes
DATA frames neither looks at them nor lowers them. So they stand for what is
left to send exactly as long as nothing has been sent.
-/

namespace Mach.H2.Server
open Lib Hpack Headkit List

/-! ## What has been granted and what has been sent -/

/-- The increment a callback brings for a stream, or for the connection as stream 0. -/
def increment (id : Nat) : Event → Nat
  | .windowUpdate streamID inc => single streamID inc id
  | _ => 0

def Obs.granted (id : Nat) : Obs → Nat
  | .recv f => (f.event.map (increment id)).getD 0
  | .sent _ => 0

/-- The increments received for a stream, or for the connection as stream 0. -/
def granted (id : Nat) (tr : List Obs) : Nat := (tr.map (Obs.granted id)).sum

def Obs.dataBytes : Obs → Nat
  | .sent (.data _ payload _) => payload.length
  | _ => 0

def dataSent (tr : List Obs) : Nat := (tr.map Obs.dataBytes).sum

def Obs.dataBytesOn (id : Nat) : Obs → Nat
  | .sent (.data streamID payload _) => if streamID = id then payload.length else 0
  | _ => 0

def dataSentOn (id : Nat) (tr : List Obs) : Nat := (tr.map (Obs.dataBytesOn id)).sum

/-- The server has sent no more than it was granted, and its counters say how much is left. -/
structure RespectsWindows (sc : ServerConn) (tr : List Obs) : Prop where
  connBound : (dataSent tr : Int) ≤ 65535 + granted 0 tr
  streamBound : ∀ id, id ≠ 0 → (dataSentOn id tr : Int) ≤ sc.peerInitialWin + granted id tr
  connWindow : sc.connSendWindow = 65535 + granted 0 tr - dataSent tr
  streamWindow : ∀ id st, sc.streams id = some st →
    st.sendWindow = sc.peerInitialWin + granted id tr - dataSentOn id tr

section Totals

variable (id : Nat) (tr tr' : List Obs)

@[simp] theorem granted_append : granted id (tr ++ tr') = granted id tr + granted id tr' := by simp [granted]

@[simp] theorem granted_sent (out : List Out) : granted id (out.map .sent) = 0 := by
  induction out with
  | nil => rfl
  | cons o out ih => simpa [granted, Obs.granted] using ih

@[simp] theorem dataSent_append : dataSent (tr ++ tr') = dataSent tr + dataSent tr' := by simp [dataSent]

theorem dataSent_eq_zero : dataSent tr = 0 ↔ ∀ id payload endStream, .sent (.data id payload endStream) ∈ tr →
    payload = [] := by
  simp only [dataSent, sum_eq_zero_iff, mem_map, forall_exists_index, and_imp]
  constructor
  · intro h id payload endStream hm
    exact length_eq_zero_iff.1 (h _ _ hm rfl)
  · rintro h n o hm rfl
    cases o with
    | recv f => rfl
    | sent o =>
      cases o with
      | data id payload endStream => simp [Obs.dataBytes, h id payload endStream hm]
      | _ => rfl

theorem dataSentOn_le : dataSentOn id tr ≤ dataSent tr := by
  refine sum_le_sum fun o _ => ?_
  cases o with
  | recv f => exact Nat.le_refl _
  | sent o =>
    cases o with
    | data streamID payload endStream =>
      simp only [Obs.dataBytesOn, Obs.dataBytes]
      split
      · exact Nat.le_refl _
      · exact Nat.zero_le _
    | _ => exact Nat.le_refl _

end Totals

variable {sc sc' : ServerConn} {o : List Obs}

/-! ## The counters -/

/-- The counters, on an open connection: all that was granted is in them. -/
structure SendInv (sc : ServerConn) (tr : List Obs) : Prop where
  init : 0 ≤ sc.peerInitialWin
  conn : sc.connSendWindow = 65535 + granted 0 tr
  streams : ∀ id st, sc.streams id = some st → st.sendWindow = sc.peerInitialWin + granted id tr
  fresh : ∀ id, sc.maxStreamID < id → granted id tr = 0

variable {tr : List Obs}

theorem SendInv.moved (hi : SendInv sc tr)
    (hmax : sc.maxStreamID ≤ sc'.maxStreamID) (hm : SendMoved sc sc' fun id => granted id o) : SendInv sc' (tr ++ o) where
  init := hm.init hi.init
  conn := by
    rw [hm.conn, hi.conn, granted_append]
    push_cast
    ring
  streams id st' hst := by
    rw [granted_append]
    obtain ⟨st, hold, he⟩ | ⟨hlt, he, h0⟩ := hm.streams id st' hst
    · have := hi.streams id st hold
      push_cast
      omega
    · rw [he, h0, hi.fresh id hlt]
      simp
  fresh id hid := by rw [granted_append, hi.fresh id (by omega), hm.fresh id hid]

/-! ## One step -/

/-- The increment of a WINDOW_UPDATE callback has 31 bits. -/
def Masked : Option Event → Prop
  | some (.windowUpdate _ inc) => inc ≤ 0x7fffffff
  | _ => True

theorem masked_event (f : Frame) : Masked f.event := by
  have hle : ∀ streamID n : Nat, Masked (some (.windowUpdate streamID (n % 2 ^ 31))) :=
    fun _ n => Nat.le_of_lt_succ (Nat.mod_lt n (by decide))
  unfold Frame.event
  repeat' refine iteInduction (motive := Masked) (fun _ => ?_) (fun _ => ?_)
  all_goals first | exact trivial | exact hle _ _

/-- A callback moves the send windows by the increment it brings, if the connection is open after it, and keeps the
credit unless it is for DATA. -/
theorem moved_handle (hw : WellFormed sc) {f : Frame} {e : Event} (hf : f.event = some e) :
    Orderly sc (sc.handle e).1 ∧
      ((sc.handle e).1.isClosed = false → SendMoved sc (sc.handle e).1 fun id => increment id e) ∧
      ((∀ streamID payload endStream, e ≠ .streamData streamID payload endStream) → RecvKept sc (sc.handle e).1) := by
  have hkept : ∀ {P : Prop} sc', Kept sc sc' →
      Orderly sc sc' ∧ (sc'.isClosed = false → SendMoved sc sc' fun _ => 0) ∧ (P → RecvKept sc sc') :=
    fun sc' h => ⟨h.toOrderly, fun _ => h.send.moved, fun _ => h.recv⟩
  cases e with
  | streamData streamID payload endStream =>
    obtain ⟨ho, hs, -⟩ := moved_onStreamData hw streamID payload endStream
    exact ⟨ho, fun _ => hs.moved, fun hdata => absurd rfl (hdata _ _ _)⟩
  | headers streamID payload endHeaders endStream => exact hkept _ (kept_onHeaders hw _ _ _ _)
  | continuation streamID payload endHeaders => exact hkept _ (kept_onContinuation hw _ _ _)
  | settings payload ack =>
    have h := windowed_onSettings hw payload ack
    exact ⟨h.toOrderly, h.send, fun _ => h.recv⟩
  | windowUpdate streamID inc =>
    have hle := masked_event f
    rw [hf] at hle
    have h := windowed_onWindowUpdate hw streamID hle
    exact ⟨h.toOrderly, h.send, fun _ => h.recv⟩
  | ping | streamReset | goAway | priority | unknownFrame => exact hkept _ (kept_brief hw (brief_handle rfl))

theorem sendInv_step {l : Label}
    (hi : WellFormed sc ∧ (sc.isClosed = false → SendInv sc tr)) (h : step sc l = some (sc', o)) :
    WellFormed sc' ∧ (sc'.isClosed = false → SendInv sc' (tr ++ o)) := by
  obtain ⟨hw, hi⟩ := hi
  have hkept : Kept sc sc' → (∀ id, granted id o = 0) →
      WellFormed sc' ∧ (sc'.isClosed = false → SendInv sc' (tr ++ o)) := by
    intro hk h0
    refine ⟨hk.wf, fun hopen => (hi (hk.closed hopen)).moved hk.max ?_⟩
    simpa only [h0] using hk.send.moved
  cases l with
  | recv f =>
    simp only [step] at h
    split at h
    · rename_i hev
      cases h
      exact hkept (.refl hw) fun id => by simp [granted, Obs.granted, hev]
    · rename_i e hev
      cases h
      obtain ⟨ho, hm, -⟩ := moved_handle hw hev
      refine ⟨ho.wf, fun hopen => (hi (ho.closed hopen)).moved ho.max ?_⟩
      have hg : ∀ id, granted id (.recv f :: (sc.handle e).2.map .sent) = increment id e := by
        intro id
        rw [← singleton_append, granted_append, granted_sent]
        simp [granted, Obs.granted, hev]
      simpa only [hg] using hm hopen
  | act i a =>
    simp only [step] at h
    split at h
    · cases h
    rename_i d hd
    obtain ⟨⟨sc'', out⟩, hact, he⟩ := Option.map_eq_some_iff.1 h
    cases he
    exact hkept (kept_act hw hd hact) fun id => granted_sent id out
  | close =>
    cases h
    exact hkept (kept_close hw) fun id => rfl

/-! ## Every run -/

def newServerConn (enableConnectProtocol : Bool) : ServerConn := { enableConnectProtocol }

theorem wellFormed_new (b : Bool) : WellFormed (newServerConn b) :=
  ⟨fun id st h => by simp [newServerConn] at h, fun d hd => by simp [newServerConn] at hd⟩

theorem sendInv_run {b : Bool} {es : List Label}
    (hr : run step (newServerConn b) es = some (sc, tr)) : WellFormed sc ∧ (sc.isClosed = false → SendInv sc tr) := by
  refine run_keeps (fun sc tr => WellFormed sc ∧ (sc.isClosed = false → SendInv sc tr))
    (fun _ _ _ _ _ hi h => sendInv_step hi h) ⟨wellFormed_new b, fun _ => ?_⟩ hr
  exact ⟨by simp [newServerConn], by simp [newServerConn, granted], by simp [newServerConn], by simp [granted]⟩

/-- On an open connection the windows are respected, with the counters right, exactly as long as no octet of DATA
has been written. -/
theorem windows_respected_iff {b : Bool} {es : List Label} {sc : ServerConn} {tr : List Obs}
    (hr : run step (newServerConn b) es = some (sc, tr)) (hopen : sc.isClosed = false) :
    RespectsWindows sc tr ↔ ∀ id payload endStream, .sent (.data id payload endStream) ∈ tr → payload = [] := by
  have hi := (sendInv_run hr).2 hopen
  rw [← dataSent_eq_zero]
  constructor
  · intro h
    have hconn := h.connWindow
    rw [hi.conn] at hconn
    omega
  · intro h0
    have hon : ∀ id, dataSentOn id tr = 0 := fun id => Nat.eq_zero_of_le_zero (h0 ▸ dataSentOn_le id tr)
    refine ⟨by omega, fun id _ => ?_, by rw [hi.conn, h0]; simp, fun id st hst => ?_⟩
    · have := hi.init
      rw [hon]
      omega
    · rw [hon, hi.streams id st hst]
      simp

/-- No increment is lost and nothing is taken off: on an open connection the windows are what was granted. -/
theorem windows_granted (b : Bool) (es : List Label) :
    Always step (fun sc tr => sc.isClosed = false → SendInv sc tr) (newServerConn b) es :=
  fun _ _ _ _ hr => (sendInv_run hr).2

/-- GET / over http on stream 1, complete. -/
def getRequest : Frame := { type := 1, flags := 0x5, streamID := 1, payload := [0x82, 0x86, 0x84] }

/-- An increment of one octet for stream 1. -/
def oneOctet : Frame := { type := 8, flags := 0, streamID := 1, payload := [0, 0, 0, 1] }

theorem windows_respected_sample : ∃ sc tr, run step (newServerConn true) [.recv getRequest, .recv oneOctet] =
    some (sc, tr) ∧ sc.isClosed = false ∧ RespectsWindows sc tr := by
  have h : (run step (newServerConn true) [.recv getRequest, .recv oneOctet]).map (fun r => (r.1.isClosed, r.2)) =
      some (false, [.recv getRequest, .recv oneOctet]) := by decide +kernel
  obtain ⟨⟨sc, tr⟩, hr, he⟩ := Option.map_eq_some_iff.1 h
  obtain ⟨hopen, rfl⟩ := Prod.mk.inj he
  refine ⟨sc, _, hr, hopen, (windows_respected_iff hr hopen).2 fun id payload endStream hm => ?_⟩
  simp at hm

/-! ## A body larger than the window -/

theorem dataSent_dataFrames {maxChunk : Nat} (hm : 0 < maxChunk) (id : Nat) (endStream : Bool) (fuel : Nat)
    (body : List UInt8) (hf : body.length ≤ fuel) :
    dataSent ((ServerConn.dataFrames maxChunk id endStream fuel body).map .sent) = body.length := by
  induction fuel generalizing body with
  | zero =>
    have : body = [] := length_eq_zero_iff.1 (by omega)
    subst this
    rfl
  | succ fuel ih =>
    cases body with
    | nil => rfl
    | cons c rest =>
      have hlen : ((c :: rest).drop (min (c :: rest).length maxChunk)).length ≤ fuel := by
        simp only [length_drop, length_cons] at hf ⊢
        omega
      have ih := ih _ hlen
      simp only [ServerConn.dataFrames, map_cons, dataSent, sum_cons, Obs.dataBytes] at ih ⊢
      rw [ih]
      simp only [length_take, length_drop, length_cons]
      omega

theorem maxChunk_pos (sc : ServerConn) : 0 < sc.maxChunk := by
  unfold ServerConn.maxChunk
  split
  · assumption
  · decide

/-- A response puts its whole body on the wire, whatever the windows are. -/
theorem step_respond {i : Nat} {d : Dispatch} (hd : sc.running[i]? = some d)
    (hr : d.responded = false) (ht : d.isTunnel = false) (res : ServerConn.ServerResponse) :
    ∃ sc' o, step sc (.act i (.respond res)) = some (sc', o) ∧ sc'.isClosed = sc.isClosed ∧
      dataSent o = res.body.length ∧ ∀ id, granted id o = 0 := by
  simp only [step, hd, ServerConn.act, hr, ht, Bool.false_eq_true, if_false, Option.map_some]
  refine ⟨_, _, rfl, rfl, ?_, fun id => granted_sent id _⟩
  simpa [ServerConn.writeResponse, dataSent, Obs.dataBytes] using
    dataSent_dataFrames (maxChunk_pos sc) d.id true res.body.length res.body (Nat.le_refl _)

/-- One octet more than the initial window. -/
def largeBody : List UInt8 := List.replicate 65536 0

theorem length_largeBody : largeBody.length = 65536 := length_replicate

/-- A request, and a response with the large body. -/
def largeResponse : List Label := [.recv getRequest, .act 0 (.respond ⟨200, [], largeBody⟩)]

theorem large_response_exceeds_window : ∃ sc tr, run step (newServerConn true) largeResponse = some (sc, tr) ∧
    sc.isClosed = false ∧ ¬ RespectsWindows sc tr := by
  have h : (step (newServerConn true) (.recv getRequest)).map (fun r => (r.1.running, r.1.isClosed, r.2)) =
      some ([⟨1, false, false, false, false⟩], false, [.recv getRequest]) := by decide +kernel
  obtain ⟨⟨sc, tr⟩, hr, he⟩ := Option.map_eq_some_iff.1 h
  simp only [Prod.mk.injEq] at he
  obtain ⟨hrun, hopen, rfl⟩ := he
  have hd : sc.running[0]? = some ⟨1, false, false, false, false⟩ := by simp [hrun]
  obtain ⟨sc', o, hs, hclosed, hsent, hgrant⟩ := step_respond hd rfl rfl ⟨200, [], largeBody⟩
  refine ⟨sc', [.recv getRequest] ++ o, ?_, hclosed.trans hopen, fun hresp => ?_⟩
  · rw [largeResponse, run_cons_some _ hr, run_cons_some _ hs]
    simp
  · have hbound := hresp.connBound
    have h0 : granted 0 [.recv getRequest] = 0 := by decide +kernel
    have h1 : dataSent [.recv getRequest] = 0 := rfl
    have h2 : dataSent o = 65536 := hsent.trans length_largeBody
    rw [dataSent_append, granted_append, h2, hgrant, h0, h1] at hbound
    omega

end Mach.H2.Server
