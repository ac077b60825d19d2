import Mach.Lib.Run
import Mach.Quic.Stream.FlowControl
import Mathlib.Tactic.NormNum
/-!
# The receive window

The receiving half of a controller, over whole runs: what has been received and
read, the window advertised to the peer, and the window updates, immediate and
queued. `windowStep` is one call on a controller of either kind.

The counters are 64 bits wide. A call that overflows one breaks the accounting
(`receiveWindow_shrinks`), so the invariants are about the runs without such a
call (`NoOverflow`).
-/

namespace Mach.Quic.Stream

open Lib List ReceiveSide Option

/-! ## Calls on the receiving half -/

inductive Controller where
  | connection (c : ConnectionFlowController)
  | stream (s : StreamFlowController)
  deriving DecidableEq

namespace Controller

def recv : Controller → ReceiveSide
  | connection c => c.recv
  | stream s => s.recv

def IsNew (k : Controller) : Prop :=
  (∃ initial max send, k = connection (newConnectionFlowController initial max send)) ∨
    ∃ id conn initial max send, k = stream (newStreamFlowController id conn initial max send)

/-- `connErr` is what the connection's controller answers to a stream's. -/
def updateHighestReceived (k : Controller) (n : Nat) (connErr : Option TransportError) :
    Controller × Option TransportError :=
  match k with
  | connection c => let r := c.updateHighestReceived n; (connection r.1, r.2)
  | stream s =>
    match s.updateHighestReceived n with
    | (s', .error err) => (stream s', some err)
    | (s', .ok []) => (stream s', none)
    | (s', .ok (_ :: _)) => (stream s', connErr)

def addBytesRead : Controller → Nat → Controller
  | connection c, n => connection (c.addBytesRead n)
  | stream s, n => stream (s.addBytesRead n).1

def checkAndQueueWindowUpdate : Controller → Bool → Controller × Option Nat
  | connection c, grow => let r := c.checkAndQueueWindowUpdate grow; (connection r.1, r.2)
  | stream s, grow => let r := s.checkAndQueueWindowUpdate grow; (stream r.1, r.2)

def maybeGetWindowUpdate : Controller → Bool → Controller × Option Nat
  | connection c, grow => let r := c.maybeGetWindowUpdate grow; (connection r.1, r.2)
  | stream s, grow => let r := s.maybeGetWindowUpdate grow; (stream r.1, r.2)

def getWindowUpdate : Controller → Controller × Option Nat
  | connection c => let r := c.getWindowUpdate; (connection r.1, r.2)
  | stream s => let r := s.getWindowUpdate; (stream r.1, r.2)

end Controller

variable {r : ReceiveSide} {k k' : Controller} {tr : List WindowEvent}
  {n : Nat} {e : WindowCall} {o : List WindowEvent} {es : List WindowCall}

inductive WindowCall where
  | updateHighestReceived (n : UInt64) (connErr : Option TransportError)
  | addBytesRead (n : UInt64)
  | checkAndQueueWindowUpdate (grow : Bool)
  | maybeGetWindowUpdate (grow : Bool)
  | getWindowUpdate

/-- What the caller sees: a limit to advertise, or an error. -/
inductive WindowEvent where
  | limit (n : Nat)
  | refused (err : TransportError)
  deriving DecidableEq

/-- One call. The application reads only what has been received. -/
def windowStep (k : Controller) : WindowCall → Option (Controller × List WindowEvent)
  | .updateHighestReceived n connErr =>
    let r := k.updateHighestReceived n.toNat connErr
    some (r.1, r.2.toList.map .refused)
  | .addBytesRead n =>
    if k.recv.bytesRead + n.toNat ≤ k.recv.highestReceived then some (k.addBytesRead n.toNat, []) else none
  | .checkAndQueueWindowUpdate grow =>
    let r := k.checkAndQueueWindowUpdate grow
    some (r.1, r.2.toList.map .limit)
  | .maybeGetWindowUpdate grow =>
    let r := k.maybeGetWindowUpdate grow
    some (r.1, r.2.toList.map .limit)
  | .getWindowUpdate =>
    let r := k.getWindowUpdate
    some (r.1, r.2.toList.map .limit)

/-- The additions of the call stay below 2^64. -/
def NoOverflow : Controller → WindowCall → Prop
  | .connection c, .updateHighestReceived n _ => c.recv.highestReceived + n.toNat < 2 ^ 64
  | k, .checkAndQueueWindowUpdate _ => k.recv.bytesRead + k.recv.maxReceiveWindowSize < 2 ^ 64
  | k, .maybeGetWindowUpdate _ => k.recv.bytesRead + k.recv.maxReceiveWindowSize < 2 ^ 64
  | _, _ => True

def limits (tr : List WindowEvent) : List Nat :=
  tr.filterMap fun
    | .limit n => some n
    | .refused _ => none

/-! ## What a call keeps -/

/-- The accounting of a receiving half. -/
structure Windowed (r : ReceiveSide) : Prop where
  read_le : r.bytesRead ≤ r.highestReceived
  received_lt : r.highestReceived < 2 ^ 64
  window_le : r.receiveWindow ≤ r.bytesRead + r.receiveWindowSize
  size_le : r.receiveWindowSize ≤ r.maxReceiveWindowSize
  queued : r.windowUpdateQueued → r.queuedWindowUpdate = r.receiveWindow

/-- What a call does: it keeps the accounting, the window does not shrink, a
limit it returns is the window, and data beyond the window is refused. -/
structure Keeps (r r' : ReceiveSide) (o : List WindowEvent) : Prop where
  windowed : Windowed r'
  grows : r.receiveWindow ≤ r'.receiveWindow
  limit : ∀ n ∈ limits o, n = r'.receiveWindow
  within : (∀ err, .refused err ∉ o) → r.highestReceived ≤ r.receiveWindow → r'.highestReceived ≤ r'.receiveWindow

/-- The window size may grow, up to its maximum, and nothing else that the
accounting speaks of changes. -/
theorem maybeAdjustWindowSize_cases (r : ReceiveSide) (grow : Bool) (h : r.receiveWindowSize ≤ r.maxReceiveWindowSize) :
    ∃ size epoch, r.receiveWindowSize ≤ size ∧ size ≤ r.maxReceiveWindowSize ∧
      r.maybeAdjustWindowSize grow = { r with receiveWindowSize := size, epochStartOffset := epoch } := by
  unfold maybeAdjustWindowSize
  by_cases hepoch : u64Sub r.bytesRead r.epochStartOffset < r.receiveWindowSize / 2
  · exact ⟨r.receiveWindowSize, r.epochStartOffset, le_refl _, h, by simp [hepoch]⟩
  · by_cases hgrow : grow ∧ r.receiveWindowSize < min (u64 (2 * r.receiveWindowSize)) r.maxReceiveWindowSize
    · exact ⟨_, r.bytesRead, hgrow.2.le, min_le_right _ _, by simp only [hepoch, hgrow, if_false, and_self, if_true]⟩
    · exact ⟨r.receiveWindowSize, r.bytesRead, le_refl _, h, by simp only [hepoch, hgrow, if_false]⟩

/-- At most half of the window size is left, so the window that a new limit
opens contains the old one. -/
theorem window_le_of_remaining (h : ¬ r.threshold < r.bytesRemaining) :
    r.receiveWindow ≤ r.bytesRead + r.receiveWindowSize / 2 := by
  simp only [threshold, bytesRemaining] at h
  split at h <;> omega

theorem keeps_renewal {size epoch queuedUpdate : Nat} {pending : Bool} (h : Windowed r)
    (hrem : ¬ r.threshold < r.bytesRemaining) (hsize : r.receiveWindowSize ≤ size) (hmax : size ≤ r.maxReceiveWindowSize)
    (hq : pending → queuedUpdate = r.bytesRead + size) :
    Keeps r { r with
      receiveWindowSize := size, epochStartOffset := epoch, receiveWindow := r.bytesRead + size
      queuedWindowUpdate := queuedUpdate, windowUpdateQueued := pending } [.limit (r.bytesRead + size)] := by
  have hold := window_le_of_remaining hrem
  have hgrow : r.receiveWindow ≤ r.bytesRead + size := by omega
  exact ⟨⟨h.read_le, h.received_lt, le_refl _, hmax, hq⟩, hgrow, by simp [limits],
    fun _ hin => hin.trans hgrow⟩

theorem keeps_checkAndQueueWindowUpdate (grow : Bool) (h : Windowed r)
    (hfit : r.bytesRead + r.maxReceiveWindowSize < 2 ^ 64) :
    Keeps r (r.checkAndQueueWindowUpdate grow).1 ((r.checkAndQueueWindowUpdate grow).2.toList.map .limit) := by
  unfold ReceiveSide.checkAndQueueWindowUpdate
  by_cases hrem : r.threshold < r.bytesRemaining
  · rw [if_pos hrem]
    refine ⟨h, le_refl _, fun n hn => ?_, fun _ hin => hin⟩
    by_cases hq : r.windowUpdateQueued <;> simp [hq, limits] at hn
    rw [hn]
    exact h.queued hq
  · obtain ⟨size, epoch, hsize, hmax, hadj⟩ := maybeAdjustWindowSize_cases r grow h.size_le
    simp only [if_neg hrem, hadj, u64_of_lt (show r.bytesRead + size < 2 ^ 64 by omega)]
    exact keeps_renewal h hrem hsize hmax (fun _ => rfl)

theorem keeps_getWindowUpdate (h : Windowed r) :
    Keeps r r.getWindowUpdate.1 (r.getWindowUpdate.2.toList.map .limit) := by
  unfold ReceiveSide.getWindowUpdate
  by_cases hq : r.windowUpdateQueued
  · rw [if_pos hq]
    refine ⟨{ h with queued := by simp }, le_refl _, ?_, fun _ hin => hin⟩
    simp [limits, h.queued hq]
  · rw [if_neg hq]
    exact ⟨h, le_refl _, by simp [limits], fun _ hin => hin⟩

theorem keeps_maybeGetWindowUpdate (grow : Bool) (h : Windowed r)
    (hfit : r.bytesRead + r.maxReceiveWindowSize < 2 ^ 64) :
    Keeps r (r.maybeGetWindowUpdate grow).1 ((r.maybeGetWindowUpdate grow).2.toList.map .limit) := by
  by_cases hq : r.windowUpdateQueued
  · have hget := keeps_getWindowUpdate h
    simpa only [ReceiveSide.getWindowUpdate, ReceiveSide.maybeGetWindowUpdate, if_pos hq] using hget
  · simp only [ReceiveSide.maybeGetWindowUpdate, if_neg hq]
    by_cases hrem : r.threshold < r.bytesRemaining
    · rw [if_pos hrem]
      exact ⟨h, le_refl _, by simp [limits], fun _ hin => hin⟩
    · obtain ⟨size, epoch, hsize, hmax, hadj⟩ := maybeAdjustWindowSize_cases r grow h.size_le
      simp only [if_neg hrem, hadj, u64_of_lt (show r.bytesRead + size < 2 ^ 64 by omega)]
      -- Nothing was queued, and the immediate path queues nothing.
      exact keeps_renewal h hrem hsize hmax (fun hq' => absurd hq' hq)

theorem keeps_addBytesRead (h : Windowed r) (hn : r.bytesRead + n ≤ r.highestReceived) :
    Keeps r (r.addBytesRead n) [] := by
  have hsum : u64 (r.bytesRead + n) = r.bytesRead + n := u64_of_lt (hn.trans_lt h.received_lt)
  have hwin := h.window_le
  refine ⟨⟨?_, h.received_lt, ?_, h.size_le, h.queued⟩, le_refl _, by simp [limits], fun _ hin => hin⟩
  · simp only [ReceiveSide.addBytesRead, hsum]; exact hn
  · simp only [ReceiveSide.addBytesRead, hsum]; omega

/-- The highest offset rises to `n`, and an offset beyond the window is refused. -/
theorem keeps_received {err : Option TransportError} (h : Windowed r)
    (hle : r.highestReceived ≤ n) (hn : n < 2 ^ 64) (herr : r.receiveWindow < n → r.highestReceived < n → err ≠ none) :
    Keeps r { r with highestReceived := n } (err.toList.map .refused) := by
  refine ⟨{ h with read_le := h.read_le.trans hle, received_lt := hn }, le_refl _, ?_, fun hno hin => ?_⟩
  · cases err <;> simp [limits]
  · cases err with
    | none => exact not_lt.1 fun hlt => herr hlt (hin.trans_lt hlt) rfl
    | some e => exact absurd (by simp) (hno e)

theorem keeps_updateHighestReceived {n : UInt64} {connErr : Option TransportError}
    (h : Windowed k.recv) (hno : NoOverflow k (.updateHighestReceived n connErr)) :
    Keeps k.recv (k.updateHighestReceived n.toNat connErr).1.recv
      ((k.updateHighestReceived n.toNat connErr).2.toList.map .refused) := by
  cases k with
  | connection c =>
    have hsum : u64 (c.recv.highestReceived + n.toNat) = c.recv.highestReceived + n.toNat := u64_of_lt hno
    simp only [Controller.updateHighestReceived, ConnectionFlowController.updateHighestReceived, Controller.recv, hsum]
    exact keeps_received h (by simp) hno (fun hlt _ => by simp [hlt])
  | stream s =>
    have hlt : max s.recv.highestReceived n.toNat < 2 ^ 64 := max_lt h.received_lt n.toNat_lt
    simp only [Controller.updateHighestReceived, StreamFlowController.updateHighestReceived]
    by_cases hwin : s.recv.receiveWindow < n.toNat
    · simp only [if_pos hwin]
      exact keeps_received h (le_max_left _ _) hlt (fun _ _ => by simp)
    · simp only [if_neg hwin]
      have hin : s.recv.receiveWindow < max s.recv.highestReceived n.toNat →
          s.recv.highestReceived < max s.recv.highestReceived n.toNat → ∀ err : Option TransportError, err ≠ none := by
        omega
      split
      all_goals rename_i heq
      all_goals simp only [Prod.mk.injEq] at heq
      all_goals obtain ⟨rfl, -⟩ := heq
      all_goals exact keeps_received h (le_max_left _ _) hlt (fun h1 h2 => hin h1 h2 _)

theorem keeps_step (h : Windowed k.recv)
    (hno : NoOverflow k e) (hs : windowStep k e = some (k', o)) : Keeps k.recv k'.recv o := by
  cases e with
  | updateHighestReceived n connErr =>
    cases hs
    exact keeps_updateHighestReceived h hno
  | addBytesRead n =>
    simp only [windowStep] at hs
    split at hs
    · rename_i hle
      cases hs
      cases k <;> exact keeps_addBytesRead h hle
    · cases hs
  | checkAndQueueWindowUpdate grow =>
    cases hs
    cases k <;> exact keeps_checkAndQueueWindowUpdate grow h hno
  | maybeGetWindowUpdate grow =>
    cases hs
    cases k <;> exact keeps_maybeGetWindowUpdate grow h hno
  | getWindowUpdate =>
    cases hs
    cases k <;> exact keeps_getWindowUpdate h

/-! ## Whole runs -/

/-- The accounting of a run: the limits advertised so far are in order and none
is beyond the window. -/
structure Accounted (k : Controller) (tr : List WindowEvent) : Prop where
  windowed : Windowed k.recv
  sorted : (limits tr).Pairwise (· ≤ ·)
  advertised : ∀ n ∈ limits tr, n ≤ k.recv.receiveWindow
  within : (∀ err, .refused err ∉ tr) → k.recv.highestReceived ≤ k.recv.receiveWindow

theorem accounted_new (hk : k.IsNew) (hsize : k.recv.receiveWindowSize ≤ k.recv.maxReceiveWindowSize) :
    Accounted k [] := by
  obtain ⟨initial, max, send, rfl⟩ | ⟨id, conn, initial, max, send, rfl⟩ := hk
  all_goals exact ⟨⟨le_refl _, by norm_num [Controller.recv, newConnectionFlowController, newStreamFlowController],
    Nat.le_add_left _ _, hsize, nofun⟩, .nil, nofun, fun _ => Nat.zero_le _⟩

theorem accounted_step (h : Accounted k tr)
    (hno : NoOverflow k e) (hs : windowStep k e = some (k', o)) : Accounted k' (tr ++ o) := by
  have hk := keeps_step h.windowed hno hs
  have happ : limits (tr ++ o) = limits tr ++ limits o := filterMap_append
  refine ⟨hk.windowed, ?_, ?_, fun hno' => ?_⟩
  · rw [happ, pairwise_append]
    refine ⟨h.sorted, pairwise_of_forall_mem_list fun a ha b hb => (hk.limit a ha ▸ (hk.limit b hb).ge), fun a ha b hb => ?_⟩
    exact (h.advertised a ha).trans (hk.limit b hb ▸ hk.grows)
  · intro n hn
    rw [happ, mem_append] at hn
    rcases hn with hn | hn
    · exact (h.advertised n hn).trans hk.grows
    · exact (hk.limit n hn).le
  · exact hk.within (fun err herr => hno' err (mem_append_right _ herr))
      (h.within fun err herr => hno' err (mem_append_left _ herr))

theorem accounted_run (h : Accounted k [])
    (hno : Along windowStep NoOverflow k es) (hr : run windowStep k es = some (k', tr)) : Accounted k' tr :=
  always_of_along Accounted (fun _ _ _ _ _ h hP hs => accounted_step h hP hs) h hno es k' tr (prefix_refl _) hr

/-- The window at the end of a run is no smaller than at its start. -/
theorem window_grows_run (h : Windowed k.recv)
    (hno : Along windowStep NoOverflow k es) (hr : run windowStep k es = some (k', tr)) :
    k.recv.receiveWindow ≤ k'.recv.receiveWindow := by
  have hI := always_of_along (fun k' _ => Windowed k'.recv ∧ k.recv.receiveWindow ≤ k'.recv.receiveWindow)
    (fun _ _ _ _ _ h hP hs => have hk := keeps_step h.1 hP hs; ⟨hk.windowed, h.2.trans hk.grows⟩) ⟨h, le_refl _⟩ hno
  exact (hI es k' tr (prefix_refl _) hr).2

/-- Receive-window accounting, over every run without an overflow: the window
never shrinks, limits are advertised in order, and unread data is bounded. -/
theorem receiveWindow_accounting (k : Controller) (hk : k.IsNew)
    (hsize : k.recv.receiveWindowSize ≤ k.recv.maxReceiveWindowSize ∧ k.recv.maxReceiveWindowSize < 2 ^ 53)
    (es : List WindowCall) (hno : Along windowStep NoOverflow k es) (k' : Controller) (tr : List WindowEvent)
    (hr : run windowStep k es = some (k', tr)) :
    (∀ es₁ es₂ k₁ tr₁, es = es₁ ++ es₂ → run windowStep k es₁ = some (k₁, tr₁) →
      k₁.recv.receiveWindow ≤ k'.recv.receiveWindow) ∧
    (limits tr).Pairwise (· ≤ ·) ∧
    (k'.recv.windowUpdateQueued → k'.recv.queuedWindowUpdate = k'.recv.receiveWindow) ∧
    k'.recv.bytesRead ≤ k'.recv.highestReceived ∧
    k'.recv.receiveWindow ≤ k'.recv.bytesRead + k'.recv.receiveWindowSize ∧
    k'.recv.receiveWindowSize ≤ k'.recv.maxReceiveWindowSize ∧
    ((∀ err, .refused err ∉ tr) → k'.recv.highestReceived - k'.recv.bytesRead ≤ k'.recv.maxReceiveWindowSize) := by
  have h0 := accounted_new hk hsize.1
  have h := accounted_run h0 hno hr
  refine ⟨?_, h.sorted, h.windowed.queued, h.windowed.read_le, h.windowed.window_le, h.windowed.size_le, fun hno' => ?_⟩
  · rintro es₁ es₂ k₁ tr₁ rfl hr1
    have hno1 : Along windowStep NoOverflow k es₁ := fun pre e s' o hpre =>
      hno pre e s' o (hpre.trans (prefix_append es₁ es₂))
    simp only [run_append, hr1, bind_some, map_eq_some_iff] at hr
    obtain ⟨⟨k2, tr2⟩, hr2, heq⟩ := hr
    obtain ⟨rfl, -⟩ := Prod.mk.inj heq
    exact window_grows_run (accounted_run h0 hno1 hr1).windowed (along_suffix hno hr1) hr2
  · have hin := h.within hno'
    have hwin := h.windowed.window_le
    have hle := h.windowed.size_le
    omega

/-- A stream that reads all it has received gets a window twice the size. -/
theorem receiveWindow_accounting_eight :
    (∃ k' tr, run windowStep (.stream (newStreamFlowController 4 true 10 40 0))
        [.updateHighestReceived 8 none, .addBytesRead 8, .checkAndQueueWindowUpdate true, .getWindowUpdate] = some (k', tr) ∧
      tr = [.limit 28, .limit 28] ∧ (limits tr).Pairwise (· ≤ ·) ∧ k'.recv.bytesRead ≤ k'.recv.highestReceived) := by
  refine ⟨_, _, rfl, by decide, ?_⟩
  have h := receiveWindow_accounting (.stream (newStreamFlowController 4 true 10 40 0)) (.inr ⟨_, _, _, _, _, rfl⟩)
    (by decide) [.updateHighestReceived 8 none, .addBytesRead 8, .checkAndQueueWindowUpdate true, .getWindowUpdate]
    (along_cons rfl trivial (along_cons rfl trivial (along_cons rfl (show 8 + 40 < 2 ^ 64 by decide) (along_cons rfl trivial (along_nil _)))))
    _ _ rfl
  exact ⟨h.2.1, h.2.2.2.1⟩

/-- Without that condition the window can shrink: a peer's offset of 2^64 - 1 is
refused but recorded, and once it counts as read the next window wraps around. -/
theorem receiveWindow_shrinks :
    (∃ k' tr, run windowStep (.connection (newConnectionFlowController 10 10 0))
        [.updateHighestReceived 18446744073709551615 none, .addBytesRead 18446744073709551615,
          .checkAndQueueWindowUpdate false] = some (k', tr) ∧
      k'.recv.receiveWindow < (newConnectionFlowController 10 10 0).recv.receiveWindow) :=
  ⟨_, _, rfl, by decide⟩

end Mach.Quic.Stream
