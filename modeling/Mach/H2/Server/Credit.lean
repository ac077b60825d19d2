import Mach.H2.Server.Windows
/-!
# The server and the credit it owes

Every octet of a DATA frame, padding included, counts against the window the
server granted, and the server should give it back in WINDOW_UPDATE frames. What
reaches `OnStreamData` is the payload without its padding, and only that is given
back: all credit is returned exactly if no frame was padded.
-/

namespace Mach.H2.Server
open Lib Hpack Headkit List

/-! ## What has been received and what has been returned -/

def Obs.returned (id : Nat) : Obs → Nat
  | .sent o => o.credit id
  | .recv _ => 0

/-- The increments written for a stream, or for the connection as stream 0. -/
def returned (id : Nat) (tr : List Obs) : Nat := (tr.map (Obs.returned id)).sum

/-- The flow-controlled length of a frame: the whole payload of a DATA frame. -/
def flowLength (f : Frame) : Nat := if f.type = 0 then f.payload.length else 0

/-- What `OnStreamData` is handed of it. -/
def dataLength (f : Frame) : Nat := if f.type = 0 then f.data.length else 0

def total (len : Frame → Nat) (tr : List Obs) : Nat :=
  (tr.map fun | .recv f => len f | .sent _ => 0).sum

def on (id : Nat) (len : Frame → Nat) (f : Frame) : Nat := if f.streamID = id then len f else 0

/-- All credit is returned or owed. -/
structure CreditReturned (len : Frame → Nat) (sc : ServerConn) (tr : List Obs) : Prop where
  conn : returned 0 tr + sc.connRecvUnacked = total len tr
  streams : ∀ id st, sc.streams id = some st → st.Live → returned id tr + st.recvUnacked = total (on id len) tr

section Totals

variable (id : Nat) (len : Frame → Nat) (tr tr' : List Obs)

@[simp] theorem returned_append : returned id (tr ++ tr') = returned id tr + returned id tr' := by simp [returned]

@[simp] theorem returned_sent (out : List Out) : returned id (out.map .sent) = credit id out := by
  simp only [returned, credit, map_map]
  rfl

@[simp] theorem returned_recv (f : Frame) : returned id (.recv f :: tr) = returned id tr := by
  simp [returned, Obs.returned]

@[simp] theorem total_append : total len (tr ++ tr') = total len tr + total len tr' := by simp [total]

@[simp] theorem total_sent (out : List Out) : total len (out.map .sent) = 0 := by
  induction out with
  | nil => rfl
  | cons o out ih => simpa [total] using ih

@[simp] theorem total_recv (f : Frame) : total len (.recv f :: tr) = len f + total len tr := by simp [total]

end Totals

variable {f : Frame} {sc sc' : ServerConn}

/-! ## What `Data` leaves of a frame -/

theorem data_length_le (f : Frame) : dataLength f ≤ flowLength f := by
  unfold dataLength flowLength
  split
  · unfold Frame.data
    split
    · exact Nat.le_refl _
    · split
      · simp
      · simp only
        split
        · simp
        · simp only [length_drop, length_take]
          omega
  · exact Nat.le_refl _

/-- Of a padded frame the pad length octet at least is missing. -/
theorem dataLength_eq_iff (f : Frame) :
    dataLength f = flowLength f ↔ (f.type = 0 → f.isPadded = true → f.payload = []) := by
  unfold dataLength flowLength
  by_cases ht : f.type = 0
  · simp only [ht, if_true, true_implies]
    unfold Frame.data
    cases hp : f.isPadded with
    | false => simp
    | true =>
      simp only [Bool.true_eq_false, if_false, true_implies]
      split
      · rename_i h
        simp [h]
      · rename_i c rest h
        simp only [h, reduceCtorEq, iff_false]
        split
        · simp
        · simp only [length_drop, length_take, length_cons]
          omega
  · simp [ht]

/-- Lengths that are never larger have the same sum only if they are the same. -/
theorem total_eq_iff (tr : List Obs) :
    total dataLength tr = total flowLength tr ↔ ∀ f, .recv f ∈ tr → dataLength f = flowLength f := by
  have hle : ∀ tr, total dataLength tr ≤ total flowLength tr := by
    intro tr
    refine sum_le_sum fun o _ => ?_
    cases o with
    | recv f => exact data_length_le f
    | sent o => exact Nat.le_refl _
  induction tr with
  | nil => simp [total]
  | cons o tr ih =>
    cases o with
    | sent o =>
      have hcons : ∀ len, total len (.sent o :: tr) = total len tr := fun len => by simp [total]
      simp [hcons, ih]
    | recv f =>
      simp only [total_recv, mem_cons, Obs.recv.injEq]
      have h1 := data_length_le f
      have h2 := hle tr
      constructor
      · rintro h g (rfl | hg)
        · omega
        · exact ih.1 (by omega) g hg
      · intro h
        rw [h f (.inl rfl), ih.2 fun g hg => h g (.inr hg)]

/-! ## One step -/

/-- A DATA callback is made for the frame's stream and data. -/
def FromData (f : Frame) : Option Event → Prop
  | some (.streamData streamID payload _) => f.type = 0 ∧ streamID = f.streamID ∧ payload = f.data
  | _ => True

theorem fromData_event (f : Frame) : FromData f f.event := by
  unfold Frame.event
  refine iteInduction (motive := FromData f) (fun h => ⟨h, rfl, rfl⟩) (fun _ => ?_)
  repeat' refine iteInduction (motive := FromData f) (fun _ => ?_) (fun _ => ?_)
  all_goals exact trivial

theorem type_ne_zero (h : f.event ≠ some (.streamData f.streamID f.data f.isEndStream)) : f.type ≠ 0 :=
  fun ht => h (by simp [Frame.event, ht])

/-- The credit, on an open connection: what `OnStreamData` was handed is returned or owed. -/
structure RecvInv (sc : ServerConn) (tr : List Obs) : Prop extends CreditReturned dataLength sc tr where
  fresh : ∀ id, sc.maxStreamID < id → returned id tr = 0 ∧ total (on id dataLength) tr = 0

variable {tr o : List Obs}

theorem RecvInv.kept (hi : RecvInv sc tr)
    (hmax : sc.maxStreamID ≤ sc'.maxStreamID) (hk : RecvKept sc sc') (hret : ∀ id, returned id o = 0)
    (htot : total dataLength o = 0) (hon : ∀ id, total (on id dataLength) o = 0) : RecvInv sc' (tr ++ o) where
  conn := by rw [returned_append, total_append, hret, htot, hk.conn]; exact hi.conn
  streams id st' hst hl := by
    rw [returned_append, total_append, hret, hon]
    obtain ⟨st, hold, hl', he⟩ | ⟨hlt, he⟩ := hk.streams id st' hst hl
    · rw [he]
      exact hi.streams id st hold hl'
    · obtain ⟨h1, h2⟩ := hi.fresh id hlt
      rw [he, h1, h2]
  fresh id hid := by
    rw [returned_append, total_append, hret, hon]
    exact hi.fresh id (by omega)

theorem RecvInv.moved {out : List Out} (hi : RecvInv sc tr)
    (hmax : sc.maxStreamID ≤ sc'.maxStreamID) (hm : RecvMoved sc sc' f.streamID (dataLength f) out) :
    RecvInv sc' (tr ++ .recv f :: out.map .sent) where
  conn := by
    have h1 := hi.conn
    have h2 := hm.conn
    simp only [returned_append, returned_recv, returned_sent, total_append, total_recv, total_sent]
    omega
  streams id st' hst hl := by
    obtain ⟨st, hold, hl', he⟩ := hm.streams id st' hst hl
    have h1 := hi.streams id st hold hl'
    simp only [returned_append, returned_recv, returned_sent, total_append, total_recv, total_sent, on]
    simp only [eq_comm (a := f.streamID)]
    omega
  fresh id hid := by
    have hne : id ≠ f.streamID := by have := hm.known; omega
    obtain ⟨h1, h2⟩ := hi.fresh id (by omega)
    simp [returned_append, returned_recv, returned_sent, total_append, total_recv, total_sent, h1, h2, hm.other id (by omega) hne, on, if_neg hne.symm]

theorem recvInv_step {l : Label}
    (hi : WellFormed sc ∧ (sc.isClosed = false → RecvInv sc tr)) (h : step sc l = some (sc', o)) :
    WellFormed sc' ∧ (sc'.isClosed = false → RecvInv sc' (tr ++ o)) := by
  obtain ⟨hw, hi⟩ := hi
  -- A frame that is not DATA counts for nothing.
  have hother : ∀ (f : Frame) (out : List Out), f.type ≠ 0 → o = .recv f :: out.map .sent → Orderly sc sc' →
      RecvKept sc sc' → (∀ id, credit id out = 0) →
      WellFormed sc' ∧ (sc'.isClosed = false → RecvInv sc' (tr ++ o)) := by
    rintro f out ht rfl ho hk h0
    refine ⟨ho.wf, fun hopen => (hi (ho.closed hopen)).kept ho.max hk ?_ ?_ ?_⟩
    · simpa using h0
    · simp [dataLength, ht]
    · simp [on, dataLength, ht]
  cases l with
  | recv f =>
    simp only [step] at h
    split at h
    · rename_i hev
      cases h
      have hk := Kept.refl hw
      exact hother f [] (type_ne_zero (by simp [hev])) rfl hk.toOrderly hk.recv fun _ => rfl
    · rename_i e hev
      cases h
      by_cases hdata : ∀ streamID payload endStream, e ≠ .streamData streamID payload endStream
      · obtain ⟨ho, -, hk⟩ := moved_handle hw hev
        refine hother f _ (type_ne_zero fun he => ?_) rfl ho (hk hdata) (credit_handle hdata)
        rw [hev] at he
        exact hdata _ _ _ (Option.some.inj he)
      · simp only [not_forall, not_not] at hdata
        obtain ⟨streamID, payload, endStream, rfl⟩ := hdata
        have hfd := fromData_event f
        rw [hev] at hfd
        obtain ⟨ht, rfl, rfl⟩ := hfd
        obtain ⟨ho, -, hm⟩ := moved_onStreamData hw f.streamID f.data endStream
        have hlen : dataLength f = f.data.length := if_pos ht
        exact ⟨ho.wf, fun hopen => (hi (ho.closed hopen)).moved ho.max (hlen ▸ hm hopen)⟩
  | act i a =>
    simp only [step] at h
    split at h
    · cases h
    rename_i d hd
    obtain ⟨⟨sc'', out⟩, hact, he⟩ := Option.map_eq_some_iff.1 h
    cases he
    have hk := kept_act hw hd hact
    refine ⟨hk.wf, fun hopen => (hi (hk.closed hopen)).kept hk.max hk.recv (fun id => ?_) ?_ fun id => ?_⟩
    · rw [returned_sent]
      exact credit_act hact id
    · exact total_sent _ _
    · exact total_sent _ _
  | close =>
    cases h
    have hk := kept_close hw
    exact ⟨hk.wf, fun hopen => by cases hopen⟩

/-! ## Every run -/

theorem recvInv_run {b : Bool} {es : List Label}
    (hr : run step (newServerConn b) es = some (sc, tr)) : WellFormed sc ∧ (sc.isClosed = false → RecvInv sc tr) := by
  refine run_keeps (fun sc tr => WellFormed sc ∧ (sc.isClosed = false → RecvInv sc tr))
    (fun _ _ _ _ _ hi h => recvInv_step hi h) ⟨wellFormed_new b, fun _ => ?_⟩ hr
  exact ⟨⟨rfl, fun id st h => by simp [newServerConn] at h⟩, fun id _ => ⟨rfl, rfl⟩⟩

theorem total_congr {len len' : Frame → Nat} (h : ∀ f, .recv f ∈ tr → len f = len' f) :
    total len tr = total len' tr := by
  unfold total
  congr 1
  refine map_congr_left fun o ho => ?_
  cases o with
  | recv f => exact h f ho
  | sent o => rfl

/-- On an open connection all credit is returned or owed exactly if no DATA frame with the PADDED flag had a
payload. -/
theorem credit_returned_iff {b : Bool} {es : List Label} {sc : ServerConn} {tr : List Obs}
    (hr : run step (newServerConn b) es = some (sc, tr)) (hopen : sc.isClosed = false) :
    CreditReturned flowLength sc tr ↔
      ∀ f, .recv f ∈ tr → f.type = 0 → f.isPadded = true → f.payload = [] := by
  have hi := (recvInv_run hr).2 hopen
  simp only [← dataLength_eq_iff]
  constructor
  · intro h
    exact (total_eq_iff tr).1 (hi.conn.symm.trans h.conn)
  · intro h
    refine ⟨hi.conn.trans ((total_eq_iff tr).2 h), fun id st hst hl => (hi.streams id st hst hl).trans ?_⟩
    exact total_congr fun f hf => by simp only [on, h f hf]

/-- POST / over http on stream 1, with a body to come. -/
def postRequest : Frame := { type := 1, flags := 0x4, streamID := 1, payload := [0x83, 0x86, 0x84] }

/-- A frame of three octets of DATA. -/
def plainData : Frame := { type := 0, flags := 0, streamID := 1, payload := [1, 0, 0] }

/-- The same payload with the PADDED flag: a pad length, one octet of data and one of padding. -/
def paddedData : Frame := { type := 0, flags := 0x8, streamID := 1, payload := [1, 0, 0] }

theorem credit_returned_sample : ∃ sc tr, run step (newServerConn true) [.recv postRequest, .recv plainData] =
    some (sc, tr) ∧ sc.isClosed = false ∧ CreditReturned flowLength sc tr := by
  have h : (run step (newServerConn true) [.recv postRequest, .recv plainData]).map (fun r => (r.1.isClosed, r.2)) =
      some (false, [.recv postRequest, .recv plainData]) := by decide +kernel
  obtain ⟨⟨sc, tr⟩, hr, he⟩ := Option.map_eq_some_iff.1 h
  obtain ⟨hopen, rfl⟩ := Prod.mk.inj he
  refine ⟨sc, _, hr, hopen, (credit_returned_iff hr hopen).2 fun f hf ht hp => ?_⟩
  simp only [mem_cons, Obs.recv.injEq, not_mem_nil, or_false] at hf
  obtain rfl | rfl := hf
  · exact absurd ht (by decide)
  · exact absurd hp (by decide)

/-- Three octets are received, one is owed, none is returned. -/
theorem padding_credit_lost : ∃ sc tr, run step (newServerConn true) [.recv postRequest, .recv paddedData] =
    some (sc, tr) ∧ sc.isClosed = false ∧ ¬ CreditReturned flowLength sc tr := by
  have h : (run step (newServerConn true) [.recv postRequest, .recv paddedData]).map
      (fun r => (r.1.isClosed, r.1.connRecvUnacked, r.2)) =
      some (false, 1, [.recv postRequest, .recv paddedData]) := by decide +kernel
  obtain ⟨⟨sc, tr⟩, hr, he⟩ := Option.map_eq_some_iff.1 h
  simp only [Prod.mk.injEq] at he
  obtain ⟨hopen, howed, rfl⟩ := he
  refine ⟨sc, _, hr, hopen, fun hc => ?_⟩
  have hconn := hc.conn
  rw [howed] at hconn
  exact absurd hconn (by decide)

end Mach.H2.Server
