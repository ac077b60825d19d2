import Mach.H2.Server.Steps
import Mathlib.Data.List.Nodup
/-!
# SETTINGS and WINDOW_UPDATE frames

What the two frames that move the send windows do to them.
-/

namespace Mach.H2.Server
open Lib Hpack Headkit List ServerConn

/-- A step that adds increments to the send windows: each window moves by the increment for it, and with the peer's
initial window; nothing is granted to a stream that is yet to come. -/
structure SendMoved (sc sc' : ServerConn) (inc : Nat → Nat) : Prop where
  init : 0 ≤ sc.peerInitialWin → 0 ≤ sc'.peerInitialWin
  conn : sc'.connSendWindow = sc.connSendWindow + inc 0
  streams : ∀ id st', sc'.streams id = some st' →
    (∃ st, sc.streams id = some st ∧
      st'.sendWindow - sc'.peerInitialWin = st.sendWindow - sc.peerInitialWin + inc id) ∨
      (sc.maxStreamID < id ∧ st'.sendWindow = sc'.peerInitialWin ∧ inc id = 0)
  fresh : ∀ id, sc'.maxStreamID < id → inc id = 0

section Windows

variable {sc : ServerConn} {sc' : ServerConn} {streams : Nat → Option ServerStream} {id : Nat}

theorem SendKept.moved (h : SendKept sc sc') : SendMoved sc sc' fun _ => 0 := by
  refine ⟨fun h0 => h.init ▸ h0, by simpa using h.conn, fun id st' hst => ?_, fun _ _ => rfl⟩
  obtain ⟨st, hst', he⟩ | ⟨hlt, he⟩ := h.streams id st' hst
  · exact .inl ⟨st, hst', by rw [he, h.init]; simp⟩
  · exact .inr ⟨hlt, he.trans h.init.symm, rfl⟩

/-- Nothing but the window changes. -/
def OnlyWindows (streams streams' : Nat → Option ServerStream) : Prop :=
  ∀ id st', streams' id = some st' → ∃ st, streams id = some st ∧ ∃ w, st' = { st with sendWindow := w }

theorem shiftWindows_only (delta : Int) (ids : List Nat) (streams : Nat → Option ServerStream) :
    OnlyWindows streams (ServerConn.shiftWindows delta ids streams).1 := by
  have hself : OnlyWindows streams streams := fun id st' h => ⟨st', h, st'.sendWindow, rfl⟩
  induction ids generalizing streams with
  | nil => exact hself
  | cons i ids ih =>
    simp only [shiftWindows]
    split
    · exact ih streams hself
    · rename_i st hst
      split
      · exact hself
      · intro id st' h
        obtain ⟨st1, h1, w, rfl⟩ := ih _ (fun id st' h => ⟨st', h, st'.sendWindow, rfl⟩) id st' h
        rw [Function.update_apply] at h1
        split at h1
        · rename_i he
          cases h1
          exact ⟨st, he ▸ hst, w, rfl⟩
        · exact ⟨st1, h1, w, rfl⟩

/-- Without an overflow every stream of the list has its window shifted, once. -/
theorem shiftWindows_ok (delta : Int) {ids : List Nat} (hnd : ids.Nodup)
    (h : (ServerConn.shiftWindows delta ids streams).2 = true) (id : Nat) :
    (ServerConn.shiftWindows delta ids streams).1 id =
      if id ∈ ids then (streams id).map fun st => { st with sendWindow := st.sendWindow + delta } else streams id := by
  induction ids generalizing streams with
  | nil => simp [shiftWindows]
  | cons i ids ih =>
    obtain ⟨hi, hnd⟩ := nodup_cons.1 hnd
    simp only [shiftWindows] at h ⊢
    split at h
    · rename_i hst
      rw [ih hnd h]
      by_cases he : id = i
      · subst he
        simp [hi, hst]
      · simp [he]
    · rename_i st hst
      split at h
      · cases h
      rename_i hno
      simp only [if_neg hno]
      rw [ih hnd h, Function.update_apply]
      by_cases he : id = i
      · subst he
        simp [hi, hst]
      · simp [he]

theorem mem_streamIDs : id ∈ sc.streamIDs ↔ id ≤ sc.maxStreamID ∧ (sc.streams id).isSome = true := by
  simp only [streamIDs, mem_flatMap, mem_range, mem_filter, Bool.and_eq_true, beq_iff_eq]
  constructor
  · rintro ⟨shard, -, hid, hsome, -⟩
    exact ⟨by omega, hsome⟩
  · rintro ⟨hid, hsome⟩
    exact ⟨id / 2 % 16, Nat.mod_lt _ (by decide), by omega, hsome, rfl⟩

theorem nodup_streamIDs (sc : ServerConn) : sc.streamIDs.Nodup := by
  rw [streamIDs, nodup_flatMap]
  refine ⟨fun shard _ => nodup_range.filter _, nodup_range.imp fun hne => ?_⟩
  -- A stream is in one shard only.
  intro id h1 h2
  simp only [mem_filter, Bool.and_eq_true, beq_iff_eq] at h1 h2
  exact hne (h1.2.2.symm.trans h2.2.2)

theorem SendMoved.trans {a b c : ServerConn} {i j : Nat → Nat} (h : SendMoved a b i)
    (hab : a.maxStreamID ≤ b.maxStreamID) (hbc : b.maxStreamID ≤ c.maxStreamID) (h' : SendMoved b c j)
    (hfresh : ∀ id, a.maxStreamID < id → j id = 0) : SendMoved a c fun id => i id + j id := by
  refine ⟨fun h0 => h'.init (h.init h0), ?_, fun id st hst => ?_, fun id hid => ?_⟩
  · rw [h'.conn, h.conn]
    push_cast
    ring
  · obtain ⟨st1, hst1, he⟩ | ⟨hlt, he, h0⟩ := h'.streams id st hst
    · obtain ⟨st2, hst2, he2⟩ | ⟨hlt, he2, h0⟩ := h.streams id st1 hst1
      · refine .inl ⟨st2, hst2, ?_⟩
        push_cast
        omega
      · have := hfresh id hlt
        exact .inr ⟨hlt, by omega, by omega⟩
    · have := h.fresh id hlt
      exact .inr ⟨by omega, he, by omega⟩
  · rw [h.fresh id (by omega), h'.fresh id hid]

theorem kept_onlyWindows (hw : WellFormed sc) (h : OnlyWindows sc.streams streams) (init : Int) :
    Orderly sc { sc with streams, peerInitialWin := init } ∧ RecvKept sc { sc with streams, peerInitialWin := init } := by
  refine ⟨⟨⟨fun id st' hst => ?_, hw.started⟩, Nat.le_refl _, id⟩, ⟨rfl, fun id st' hst hl => ?_⟩⟩
  · obtain ⟨st, hold, w, rfl⟩ := h id st' hst
    have hf := hw.fits id st hold
    exact { hf with }
  · obtain ⟨st, hold, w, rfl⟩ := h id st' hst
    exact .inl ⟨st, hold, hl, rfl⟩

/-- What a SETTINGS parameter, or several, may do. -/
structure Settled (sc : ServerConn) (r : ServerConn × Option ErrorCode) : Prop extends Orderly sc r.1 where
  recv : RecvKept sc r.1
  same : r.1.maxStreamID = sc.maxStreamID
  send : r.2 = none → SendMoved sc r.1 fun _ => 0

theorem Settled.of_kept (h : Kept sc sc') (hmax : sc'.maxStreamID = sc.maxStreamID)
    (err : Option ErrorCode) : Settled sc (sc', err) :=
  ⟨h.toOrderly, h.recv, hmax, fun _ => h.send.moved⟩

theorem settled_initialWindow (hw : WellFormed sc) (val : Nat) :
    let s := shiftWindows (val - sc.peerInitialWin) sc.streamIDs sc.streams
    Settled sc ({ sc with peerInitialWin := val, streams := s.1 }, if s.2 then none else some .flowControlError) := by
  intro s
  obtain ⟨ho, hr⟩ := kept_onlyWindows hw (shiftWindows_only (val - sc.peerInitialWin) sc.streamIDs sc.streams) val
  refine ⟨ho, hr, rfl, fun hok => ⟨fun _ => Int.natCast_nonneg val, (Int.add_zero _).symm, fun id st' hst => .inl ?_, fun _ _ => rfl⟩⟩
  have hall := shiftWindows_ok (val - sc.peerInitialWin) (nodup_streamIDs sc) (by simpa using hok) id
  obtain ⟨st, hold, -⟩ := shiftWindows_only (val - sc.peerInitialWin) sc.streamIDs sc.streams id st' hst
  have hmem : id ∈ sc.streamIDs := mem_streamIDs.2 ⟨(hw.fits id st hold).max, by simp [hold]⟩
  simp only [s] at hst
  rw [hall, if_pos hmem, hold] at hst
  cases hst
  exact ⟨st, hold, by simp; omega⟩

theorem settled_applySetting (hw : WellFormed sc) (id val : Nat) : Settled sc (sc.applySetting id val) := by
  have hrefl := Kept.refl hw
  unfold applySetting
  split
  · exact .of_kept (kept_hpackDec hw (sc.hpackDec.setMaxTableSize val)) rfl _
  split
  · exact .of_kept hrefl rfl _
  split
  · split
    · exact .of_kept hrefl rfl _
    · exact settled_initialWindow hw val
  split
  · split
    · exact .of_kept hrefl rfl _
    · have hk : Kept sc { sc with peerMaxFrameSize := val } :=
        .of_fields hw rfl rfl rfl rfl rfl rfl rfl fun h => h
      exact .of_kept hk rfl _
  · exact .of_kept hrefl rfl _

theorem settled_applySettings (hw : WellFormed sc) (payload : List UInt8) : Settled sc (sc.applySettings payload) := by
  fun_induction applySettings sc payload with
  | case1 sc a b c d e f rest sc' code h =>
    have hs := settled_applySetting hw (beNat [a, b]) (beNat [c, d, e, f])
    rwa [h] at hs
  | case2 sc a b c d e f rest sc' h ih =>
    have hs := settled_applySetting hw (beNat [a, b]) (beNat [c, d, e, f])
    rw [h] at hs
    have ih := ih hs.wf
    refine ⟨hs.toOrderly.trans ih.toOrderly, hs.recv.trans hs.max ih.recv, ih.same.trans hs.same, fun hok => ?_⟩
    exact (hs.send rfl).trans hs.max ih.max (ih.send hok) fun _ _ => rfl
  | case3 sc => exact .of_kept (.refl hw) rfl _

/-- A step after which the connection is open moves the send windows by the increments received. -/
structure Windowed (sc : ServerConn) (r : ServerConn × List Out) (inc : Nat → Nat) : Prop extends Orderly sc r.1 where
  send : r.1.isClosed = false → SendMoved sc r.1 inc
  recv : RecvKept sc r.1

theorem Windowed.of_kept {out : List Out} (h : Kept sc sc') : Windowed sc (sc', out) fun _ => 0 :=
  ⟨h.toOrderly, fun _ => h.send.moved, h.recv⟩

theorem Windowed.of_close (hw : WellFormed sc) (code : ErrorCode) (inc : Nat → Nat) :
    Windowed sc (sc.closeWithGoAway code) inc :=
  have h := kept_closeWithGoAway hw code
  ⟨h.toOrderly, fun ho => absurd ho (by simp [closeWithGoAway]), h.recv⟩

theorem windowed_onSettings (hw : WellFormed sc) (payload : List UInt8) (ack : Bool) :
    Windowed sc (sc.onSettings payload ack) fun _ => 0 := by
  have hs := settled_applySettings hw payload
  unfold onSettings
  split
  · exact .of_close hw _ _
  split
  · split
    · exact .of_close hw _ _
    · exact .of_kept (.refl hw)
  split
  · exact .of_close hw _ _
  generalize sc.applySettings payload = r at hs
  obtain ⟨sc', err⟩ := r
  cases err with
  | some code =>
    have hk := kept_closeWithGoAway hs.wf code
    exact ⟨hs.toOrderly.trans hk.toOrderly, fun ho => absurd ho (by simp [closeWithGoAway]),
      hs.recv.trans hs.max hk.recv⟩
  | none => exact ⟨hs.toOrderly, fun _ => hs.send rfl, hs.recv⟩

def single (streamID increment id : Nat) : Nat := if id = streamID then increment else 0

@[simp] theorem single_self (streamID increment : Nat) : single streamID increment streamID = increment := if_pos rfl

theorem single_of_ne {streamID : Nat} (h : id ≠ streamID) (increment : Nat) : single streamID increment id = 0 :=
  if_neg h

theorem eq_of_updateSendWindow {old inc w : Int} (h : ServerConn.updateSendWindow old inc = some w) : w = old + inc := by
  unfold updateSendWindow at h
  split at h <;> cases h
  rfl

theorem windowed_onWindowUpdate (hw : WellFormed sc) (streamID : Nat) {increment : Nat}
    (hinc : increment ≤ 0x7fffffff) :
    Windowed sc (sc.onWindowUpdate streamID increment) (single streamID increment) := by
  have hrefl := Kept.refl hw
  unfold onWindowUpdate
  split
  · exact .of_close hw _ _
  split
  · split
    · exact .of_close hw _ _
    · have h0 : single streamID increment = fun _ => 0 := by
        funext id
        have : increment = 0 := by omega
        simp [single, this]
      rw [h0]
      exact .of_kept hrefl
  split
  · exact .of_close hw _ _
  rename_i hmax
  have hfresh : ∀ id, sc.maxStreamID < id → single streamID increment id = 0 :=
    fun id hid => single_of_ne (by omega) _
  split
  · rename_i h0
    subst h0
    split
    · exact .of_close hw _ _
    · rename_i w hup
      have hwf : WellFormed { sc with connSendWindow := w } :=
        ⟨fun id st h => (hw.fits id st h).of_eq (Nat.le_refl _) rfl rfl, hw.started⟩
      refine ⟨⟨hwf, Nat.le_refl _, fun h => h⟩, fun _ => ⟨fun h => h, ?_, fun id st' hst => .inl ⟨st', hst, ?_⟩, hfresh⟩,
        .of_eq rfl fun _ _ h => h⟩
      · simpa using eq_of_updateSendWindow hup
      · simp [single_of_ne (hw.fits id st' hst).nonzero]
  · rename_i h0
    have hconn : sc.connSendWindow = sc.connSendWindow + single streamID increment 0 := by
      simp [single_of_ne (Ne.symm h0)]
    split
    · rename_i hnone
      refine ⟨hrefl.toOrderly, fun _ => ⟨fun h => h, hconn, fun id st' hst => .inl ⟨st', hst, ?_⟩, hfresh⟩, hrefl.recv⟩
      have hne : id ≠ streamID := by
        rintro rfl
        simp [hnone] at hst
      simp [single_of_ne hne]
    · rename_i st hst
      split
      · have hk := kept_deleteStream hw streamID
        refine ⟨hk.toOrderly, fun _ => ⟨fun h => h, hconn, fun id st' h => .inl ⟨st', streams_deleteStream h, ?_⟩, hfresh⟩, hk.recv⟩
        have hne : id ≠ streamID := by
          rintro rfl
          simp [deleteStream] at h
        simp [single_of_ne hne, deleteStream]
      · rename_i w hup
        have hf := hw.fits _ _ hst
        have ho := orderly_putStream hw
          ({ hf with } :
            Fits sc streamID { st with sendWindow := w })
        refine ⟨ho, fun _ => ⟨fun h => h, hconn, fun id st' h => .inl ?_, hfresh⟩, recvKept_putStream hst rfl fun hl => hl⟩
        obtain ⟨rfl, rfl⟩ | ⟨hne, h⟩ := streams_putStream h
        · refine ⟨st, hst, ?_⟩
          simp only [eq_of_updateSendWindow hup, putStream, single_self]
          omega
        · exact ⟨st', h, by simp [single_of_ne hne, putStream]⟩

end Windows

end Mach.H2.Server
