import Mach.Quic.Stream.Packetize
import Mathlib.Algebra.BigOperators.Group.List.Basic
/-!
# Credit shared by senders

Any number of streams share one connection controller. A stream's own credit is
safe: only its writer spends it. The connection's credit is not: between a
writer's look at it and the append, writers of other streams may spend it
(`connection_overdrawn`), and between the same two steps the stream may be reset,
after which nothing gives the appended bytes back (`reset_overcharged`). The
theorems say under which condition on each append both hold.
-/

namespace Mach.Quic.Stream

open Lib List ConnectionFlowController

/-! ## Streams of one connection -/

structure SendSystem (ι : Type) where
  conn : ConnectionFlowController
  streams : ι → Sender

inductive SystemOp (ι : Type) where
  | stream (i : ι) (op : SendOp)
  | updateSendWindow (limit : UInt64)
  | getDataBlockedFrame

/-- The calls on the connection's controller among the events. -/
def connCalls (o : List SendEvent) : List ConnCall :=
  o.filterMap fun
    | .conn call => some call
    | _ => none

namespace SendSystem

variable {ι : Type} [DecidableEq ι]

def step (s : SendSystem ι) : SystemOp ι → Option (SendSystem ι × List (ι × SendEvent))
  | .stream i op =>
    ((s.streams i).step s.conn.sendCreditAvailable op).map fun r =>
      (⟨s.conn.perform (connCalls r.2), Function.update s.streams i r.1⟩, r.2.map fun e => (i, e))
  | .updateSendWindow limit => some ({ s with conn := s.conn.updateSendWindow limit.toNat }, [])
  | .getDataBlockedFrame => some ({ s with conn := s.conn.getDataBlockedFrame.1 }, [])

def IsNew (s : SendSystem ι) : Prop :=
  (∃ initial max, ∃ window : UInt64, s.conn = newConnectionFlowController initial max window.toNat) ∧
  ∀ i, ∃ id initial max, ∃ window : UInt64,
    s.streams i = ⟨newSendStream id (newStreamFlowController id true initial max window.toNat), .idle⟩

/-- Nobody has sent more than the peer allows. -/
def WithinLimits (s : SendSystem ι) : Prop :=
  s.conn.send.bytesSent ≤ s.conn.send.sendWindow ∧
  ∀ i, (s.streams i).str.flowController.send.bytesSent ≤ (s.streams i).str.flowController.send.sendWindow

/-- What the step appends fits the connection's credit at that moment. -/
def FitsCredit (s : SendSystem ι) : SystemOp ι → Prop
  | .stream i op => (s.streams i).appendLen op ≤ s.conn.sendCreditAvailable
  | _ => True

end SendSystem

/-! ## The connection's books -/

variable {x x' : Sender} {op : SendOp} {o tr : List SendEvent}

theorem connCalls_append (o1 o2 : List SendEvent) : connCalls (o1 ++ o2) = connCalls o1 ++ connCalls o2 :=
  filterMap_append

theorem connCalls_conn (calls : List ConnCall) : connCalls (calls.map .conn) = calls := by
  induction calls with
  | nil => rfl
  | cons call calls ih => exact congrArg (call :: ·) ih

theorem connCalls_quiet (h : ∀ e ∈ o, e.isQuiet) : ∀ call ∈ connCalls o, call = .checkAndQueueDataBlocked := by
  intro call hcall
  obtain ⟨e, he, hc⟩ := mem_filterMap.1 hcall
  have hq := h e he
  cases e <;> simp only [reduceCtorEq, Option.some.injEq] at hc
  subst hc
  rename_i call
  cases call <;> simp_all [SendEvent.isQuiet]

theorem connCalls_appended (s : SendStream) (data : List UInt8) (o : List SendEvent) :
    connCalls (.accepted data :: (s.append data).2.map .conn ++ o) =
      (if s.flowController.connection then [.addBytesSent data.length] else []) ++ connCalls o := by
  rw [connCalls_append, ← singleton_append, connCalls_append, connCalls_conn]
  rfl

theorem connCalls_abort (s : SendStream) (code : Nat) (remote : Bool) :
    connCalls ((s.abort code remote).2.map .conn) =
      if s.sentOffset < s.writeOffset ∧ s.flowController.connection then [.reclaimBytesSent (s.writeOffset - s.sentOffset)]
      else [] := by
  rw [connCalls_conn]
  unfold SendStream.abort StreamFlowController.reclaimBytesSent
  by_cases hlt : s.sentOffset < s.writeOffset <;> simp [hlt]

theorem perform_blocked {calls : List ConnCall} (h : ∀ call ∈ calls, call = .checkAndQueueDataBlocked)
    (c : ConnectionFlowController) :
    (c.perform calls).send.sendWindow = c.send.sendWindow ∧ (c.perform calls).send.bytesSent = c.send.bytesSent := by
  induction calls generalizing c with
  | nil => exact ⟨rfl, rfl⟩
  | cons call calls ih =>
    have hone : (c.call call).1.send.sendWindow = c.send.sendWindow ∧ (c.call call).1.send.bytesSent = c.send.bytesSent := by
      rw [h call (by simp)]
      simp only [ConnectionFlowController.call, checkAndQueueDataBlocked,
        SendSide.checkAndQueueBlocked]
      split <;> exact ⟨rfl, rfl⟩
    obtain ⟨hwin, hsent⟩ := ih (fun q hq => h q (by simp [hq])) (c.call call).1
    exact ⟨hwin.trans hone.1, hsent.trans hone.2⟩

/-- A step charges the connection what it appends, or gives credit back, and
leaves the limit alone. -/
theorem perform_did (c : ConnectionFlowController) (hd : Sender.Did x op x' o) :
    (c.perform (connCalls o)).send.sendWindow = c.send.sendWindow ∧
      ((c.perform (connCalls o)).send.bytesSent ≤ c.send.bytesSent ∨
        (c.perform (connCalls o)).send.bytesSent = u64 (c.send.bytesSent + x.appendLen op)) := by
  cases hd with
  | quiet fc rs se phase o h0 hfc hph ho =>
    have := perform_blocked (connCalls_quiet ho) c
    exact ⟨this.1, .inl this.2.le⟩
  | appended data phase o hlen hne hfrom hph ho =>
    have := perform_blocked (connCalls_quiet ho)
    rw [connCalls_appended]
    split
    · have hrest := this (c.addBytesSent data.length)
      exact ⟨hrest.1, .inr (hrest.2.trans (by rw [← hlen]; rfl))⟩
    · exact ⟨(this c).1, .inl (this c).2.le⟩
  | closed h0 hidle hreset hst =>
    split <;> exact ⟨rfl, .inl (le_refl _)⟩
  | aborted code remote stop stopCode h0 hop hph hst =>
    rw [connCalls_abort]
    split
    · refine ⟨rfl, .inl ?_⟩
      simp only [perform, List.foldl, ConnectionFlowController.call,
        reclaimBytesSent, SendSide.reclaimBytesSent]
      split <;> omega
    · exact ⟨rfl, .inl (le_refl _)⟩
  | popped take fin h0 hst hsome hle hfin => exact ⟨rfl, .inl (le_refl _)⟩
  | acked st h0 hst => exact ⟨rfl, .inl (le_refl _)⟩

namespace SendSystem

variable {ι : Type} [DecidableEq ι] {s s' : SendSystem ι}

/-- The limits, with what each writer has been granted. -/
structure Safe (s : SendSystem ι) : Prop where
  window_lt : s.conn.send.sendWindow < 2 ^ 64
  within : s.conn.send.bytesSent ≤ s.conn.send.sendWindow
  credited : ∀ i, Credited (s.streams i)

omit [DecidableEq ι] in
theorem safe_new (h : s.IsNew) : s.Safe := by
  obtain ⟨⟨initial, max, window, hconn⟩, hstr⟩ := h
  refine ⟨?_, ?_, fun i => ?_⟩
  · rw [hconn]; exact window.toNat_lt
  · rw [hconn]; exact Nat.zero_le _
  · obtain ⟨id, initial, max, window, hi⟩ := hstr i
    rw [hi]
    exact credited_new _ _ rfl window.toNat_lt

theorem credit_conn (c : ConnectionFlowController) : c.sendCreditAvailable = c.send.sendWindow - c.send.bytesSent := by
  unfold sendCreditAvailable SendSide.credit
  split <;> omega

theorem safe_step {e : SystemOp ι} {o : List (ι × SendEvent)} (h : s.Safe)
    (hfit : s.FitsCredit e) (hs : s.step e = some (s', o)) : s'.Safe := by
  cases e with
  | stream i op =>
    obtain ⟨⟨x', evs⟩, hx, heq⟩ := Option.map_eq_some_iff.1 hs
    obtain ⟨rfl, -⟩ := Prod.mk.inj heq
    have hd := Sender.did_of_step (h.credited i).not_trying_nil hx
    obtain ⟨hwin, hsent⟩ := perform_did s.conn hd
    have hin := h.within
    have hlt := h.window_lt
    refine ⟨hwin ▸ hlt, ?_, fun j => ?_⟩
    · rw [hwin]
      rcases hsent with hsent | hsent
      · exact hsent.trans hin
      · have hle : (s.streams i).appendLen op ≤ s.conn.send.sendWindow - s.conn.send.bytesSent := credit_conn s.conn ▸ hfit
        rw [hsent]
        exact (u64_le _).trans (by omega)
    · by_cases hj : j = i
      · subst hj
        simpa using credited_did (h.credited j) hd
      · simpa [hj] using h.credited j
  | updateSendWindow limit =>
    cases hs
    have hin := h.within
    refine ⟨?_, ?_, h.credited⟩
    all_goals simp only [updateSendWindow, SendSide.updateSendWindow]; split
    · exact limit.toNat_lt
    · exact h.window_lt
    · exact hin.trans (by simp only; omega)
    · exact hin
  | getDataBlockedFrame =>
    cases hs
    have heq : s.conn.getDataBlockedFrame.1.send.sendWindow = s.conn.send.sendWindow ∧
        s.conn.getDataBlockedFrame.1.send.bytesSent = s.conn.send.bytesSent := by
      simp only [getDataBlockedFrame, SendSide.getBlockedFrame]
      split
      · exact ⟨rfl, rfl⟩
      · split <;> exact ⟨rfl, rfl⟩
    exact ⟨heq.1 ▸ h.window_lt, by simp only [heq]; exact h.within, h.credited⟩

/-- Nobody exceeds the peer's limits while every append fits the connection's
credit when it is made. -/
theorem within_limits (s : SendSystem ι) (hs : s.IsNew) (es : List (SystemOp ι)) (hfit : Along step FitsCredit s es) :
    Always step (fun s' _ => s'.WithinLimits) s es :=
  always_mono (fun _ _ h => ⟨h.within, fun i => (h.credited i).within⟩)
    (always_of_along (fun s' _ => s'.Safe) (fun _ _ _ _ _ h hP hstep => safe_step h hP hstep) (safe_new hs) hfit)

/-- The condition is exact: an append beyond the credit takes the connection
over its limit (short of wrapping the counter around). -/
theorem exceeds_of_not_fits {i : ι} {o : List (ι × SendEvent)} (h : s.Safe)
    (hconn : (s.streams i).str.flowController.connection)
    (hover : s.conn.sendCreditAvailable < (s.streams i).appendLen op)
    (hlt : s.conn.send.bytesSent + (s.streams i).appendLen op < 2 ^ 64)
    (hs : s.step (.stream i op) = some (s', o)) : ¬ s'.WithinLimits := by
  obtain ⟨⟨x', evs⟩, hx, heq⟩ := Option.map_eq_some_iff.1 hs
  obtain ⟨rfl, -⟩ := Prod.mk.inj heq
  intro hlim
  have hd := Sender.did_of_step (h.credited i).not_trying_nil hx
  have hwin := (perform_did s.conn hd).1
  have hle := hlim.1
  simp only [hwin] at hle
  rw [credit_conn] at hover
  cases hd with
  | appended data phase o hlen hne hfrom hph ho =>
    have hsent := (perform_blocked (connCalls_quiet ho) (s.conn.addBytesSent data.length)).2
    rw [connCalls_appended, if_pos hconn] at hle
    simp only [perform, singleton_append, foldl_cons] at hle hsent
    have hbytes : (s.conn.addBytesSent data.length).send.bytesSent = s.conn.send.bytesSent + data.length :=
      u64_of_lt (hlen ▸ hlt)
    rw [ConnectionFlowController.call, hsent, hbytes] at hle
    omega
  | _ => omega

/-- Whatever becomes of the connection's limit, no stream exceeds its own, nor does what its writer was granted. -/
theorem streams_credited (hs : s.IsNew) (es : List (SystemOp ι)) :
    Always step (fun s' _ => ∀ i, Credited (s'.streams i)) s es := by
  intro pre s' tr _ hr
  refine run_keeps (fun s' _ => ∀ i, Credited (s'.streams i)) ?_ (safe_new hs).credited hr
  intro s tr e s' o h hstep j
  cases e with
  | stream i op =>
    obtain ⟨⟨x', evs⟩, hx, heq⟩ := Option.map_eq_some_iff.1 hstep
    obtain ⟨rfl, -⟩ := Prod.mk.inj heq
    by_cases hj : j = i
    · subst hj
      simpa using credited_did (h j) (Sender.did_of_step (h j).not_trying_nil hx)
    · simpa [hj] using h j
  | updateSendWindow | getDataBlockedFrame =>
    cases hstep
    exact h j

/-- A connection with a window of `window` and two streams with ample windows. -/
def twoStreams (window : UInt64) : SendSystem Bool where
  conn := newConnectionFlowController 0 0 window.toNat
  streams i := ⟨newSendStream (if i then 4 else 0) (newStreamFlowController (if i then 4 else 0) true 0 0 (UInt64.toNat 9)), .idle⟩

theorem twoStreams_isNew (window : UInt64) : (twoStreams window).IsNew :=
  ⟨⟨0, 0, window, rfl⟩, fun i => ⟨if i then 4 else 0, 0, 0, 9, rfl⟩⟩

/-- With credit for both, two writers that look before either appends are safe. -/
theorem within_limits_two :
    Always step (fun s' _ => s'.WithinLimits) (twoStreams 2)
      [.stream true (.writeWithLimit [1]), .stream false (.writeWithLimit [2]), .stream true (.check false false),
        .stream false (.check false false), .stream true (.commit none), .stream false (.commit none)] := by
  refine within_limits (twoStreams 2) (twoStreams_isNew 2) _ ?_
  refine along_cons rfl (Nat.zero_le _) (along_cons rfl (Nat.zero_le _) (along_cons rfl (Nat.zero_le _) ?_))
  exact along_cons rfl (Nat.zero_le _) (along_cons rfl (show 1 ≤ 2 by decide) (along_cons rfl (show 1 ≤ 1 by decide)
    (along_nil _)))

/-- Two writers see the same byte of connection credit, and both spend it. -/
theorem connection_overdrawn :
    ∃ s' tr, run step (twoStreams 1)
        [.stream true (.writeWithLimit [1]), .stream false (.writeWithLimit [2]), .stream true (.check false false),
          .stream false (.check false false), .stream true (.commit none), .stream false (.commit none)] = some (s', tr) ∧
      s'.conn.send.sendWindow < s'.conn.send.bytesSent :=
  ⟨_, _, rfl, by decide⟩

theorem streams_credited_two : Always step (fun s' _ => ∀ i, Credited (s'.streams i)) (twoStreams 1)
    [.stream true (.writeWithLimit [1]), .stream true (.check false false), .stream true (.commit none)] :=
  streams_credited (twoStreams_isNew 1) _

end SendSystem

/-! ## Credit of a reset stream -/

/-- What a call adds to the connection's bytes sent. -/
def ConnCall.charge : ConnCall → Int
  | .addBytesSent n => n
  | .reclaimBytesSent n => -n
  | _ => 0

/-- What the stream has charged to its connection, less what it has given back. -/
def charged (tr : List SendEvent) : Int := ((connCalls tr).map ConnCall.charge).sum

theorem charged_append (tr o : List SendEvent) : charged (tr ++ o) = charged tr + charged o := by
  simp [charged, connCalls_append]

theorem charged_quiet (h : ∀ e ∈ o, e.isQuiet) : charged o = 0 := by
  refine sum_eq_zero fun n hn => ?_
  obtain ⟨call, hcall, rfl⟩ := mem_map.1 hn
  rw [connCalls_quiet h call hcall]
  rfl

theorem charged_appended {s : SendStream} {data : List UInt8} (hconn : s.flowController.connection) (ho : ∀ e ∈ o, e.isQuiet) :
    charged (.accepted data :: (s.append data).2.map .conn ++ o) = data.length := by
  rw [charged_append, charged_quiet ho, add_zero, charged, ← append_nil (_ :: _), connCalls_appended, if_pos hconn]
  simp [connCalls, ConnCall.charge]

theorem charged_abort {s : SendStream} {code : Nat} {remote : Bool} (hconn : s.flowController.connection) :
    charged ((s.abort code remote).2.map .conn) = -((s.writeOffset - s.sentOffset : Nat) : Int) := by
  rw [charged, connCalls_abort]
  by_cases hlt : s.sentOffset < s.writeOffset
  · simp [hlt, hconn, ConnCall.charge]
  · simp [hlt, Nat.sub_eq_zero_of_le (not_lt.1 hlt)]

/-- While the stream is live it is charged what was written; once it is reset,
what was sent. -/
structure Balanced (x : Sender) (tr : List SendEvent) : Prop where
  credited : Credited x
  connection : x.str.flowController.connection
  live : x.str.state.isReset = false →
    charged tr = x.str.writeOffset ∧ x.str.flowController.send.bytesSent = x.str.writeOffset ∧
      x.str.sentOffset + x.str.writeBuffer.length = x.str.writeOffset
  reset : x.str.state.isReset → charged tr = x.str.sentOffset ∧ x.str.sentOffset = x.str.resetFinalPos

/-- What is appended goes to a stream that has not been reset. -/
def AppendsLive (x : Sender) (e : Nat × SendOp) : Prop := x.appendLen e.2 ≠ 0 → x.str.state.isReset = false

theorem connection_abort (s : SendStream) (code : Nat) (remote : Bool) :
    (s.abort code remote).1.flowController.connection = s.flowController.connection := by
  unfold SendStream.abort
  split <;> rfl

theorem balanced_new (id initialReceiveWindow maxReceiveWindow : Nat) (sendWindow : UInt64) :
    Balanced ⟨newSendStream id (newStreamFlowController id true initialReceiveWindow maxReceiveWindow sendWindow.toNat), .idle⟩
      [] :=
  ⟨credited_new _ _ rfl sendWindow.toNat_lt, rfl, fun _ => ⟨rfl, rfl, rfl⟩, nofun⟩

theorem balanced_did (h : Balanced x tr) (hlive : x.appendLen op ≠ 0 → x.str.state.isReset = false)
    (hd : Sender.Did x op x' o) : Balanced x' (tr ++ o) := by
  have hx' := credited_did h.credited hd
  cases hd with
  | quiet fc rs se phase o h0 hfc hph ho =>
    have hch : charged (tr ++ o) = charged tr := by rw [charged_append, charged_quiet ho, add_zero]
    refine ⟨hx', hfc.connection ▸ h.connection, fun hst => ?_, fun hst => hch ▸ h.reset hst⟩
    obtain ⟨hc, hb, hs⟩ := h.live hst
    exact ⟨hch ▸ hc, hfc.bytesSent.trans hb, hs⟩
  | appended data phase o hlen hne hfrom hph ho =>
    have hopen : x.str.state.isReset = false := hlive (by rw [← hlen]; exact (length_pos_of_ne_nil hne).ne')
    obtain ⟨hc, hb, hs⟩ := h.live hopen
    have hfit : x.str.writeOffset + data.length < 2 ^ 64 :=
      hb ▸ (h.credited.appended hfrom).trans_lt h.credited.window_lt
    have hwritten : (x.str.append data).1.writeOffset = x.str.writeOffset + data.length := u64_of_lt hfit
    refine ⟨hx', h.connection, fun _ => ⟨?_, ?_, ?_⟩, fun hst => ?_⟩
    · rw [charged_append, charged_appended h.connection ho, hc, hwritten]
      simp
    · rw [bytesSent_append, hb]
      rfl
    · rw [hwritten, ← hs]
      simp [SendStream.append, Nat.add_assoc]
    · rw [Sender.isReset_append, hopen] at hst
      cases hst
  | closed h0 hidle hreset hst =>
    have hopen := h.credited.reset.1 hreset
    have hch : charged (tr ++ if x.str.finQueued then [] else [.closed x.str.writeOffset]) = charged tr := by
      rw [charged_append]
      split <;> simp [charged, connCalls]
    exact ⟨hx', h.connection, fun _ => hch ▸ h.live hopen, by rintro ⟨⟩⟩
  | aborted code remote stop stopCode h0 hop hph hst =>
    have hopen : x.str.state.isReset = false := by
      cases hs : x.str.state <;> simp_all [SendState.isTerminal, SendState.isReset]
    obtain ⟨hc, -, hs⟩ := h.live hopen
    have hconn : ({ x.str with stopSendingReceived := stop, stopSendingCode := stopCode } : SendStream).flowController.connection :=
      h.connection
    refine ⟨hx', (connection_abort _ code remote).trans h.connection, by rintro ⟨⟩, fun _ => ⟨?_, rfl⟩⟩
    rw [charged_append, charged_abort hconn, hc]
    simp only [SendStream.abort]
    omega
  | popped take fin h0 hst hsome hle hfin =>
    obtain ⟨hc, hb, hs⟩ := h.live hst
    have hin := h.credited.within
    have hlt := h.credited.window_lt
    have hsum : u64 (x.str.sentOffset + take) = x.str.sentOffset + take := u64_of_lt (by omega)
    have hch : ∀ f, charged (tr ++ [.popped f]) = charged tr := fun f => by rw [charged_append]; simp [charged, connCalls]
    refine ⟨hx', h.connection, fun _ => ⟨(hch _).trans hc, hb, ?_⟩, fun hr => ?_⟩
    · simp only [hsum, length_drop]
      omega
    · simp [hst] at hr
  | acked st h0 hst =>
    have hch : charged (tr ++ [.completed]) = charged tr := by rw [charged_append]; simp [charged, connCalls]
    rcases hst with ⟨hst, rfl⟩ | ⟨hst, rfl⟩
    · exact ⟨hx', h.connection, fun _ => hch ▸ h.live (by simp [hst, SendState.isReset]), by rintro ⟨⟩⟩
    · exact ⟨hx', h.connection, by rintro ⟨⟩, fun _ => hch ▸ h.reset (by simp [hst, SendState.isReset])⟩

theorem reset_run {es : List (Nat × SendOp)} (h : x.str.state.isReset) (hc : Credited x)
    (hr : run Sender.next x es = some (x', tr)) :
    x'.str.state.isReset ∧ x'.str.resetFinalPos = x.str.resetFinalPos := by
  have hI := run_keeps
    (fun y _ => Credited y ∧ y.str.state.isReset ∧ y.str.resetFinalPos = x.str.resetFinalPos)
    (fun y _ e y' o hy hs => by
      have hd := Sender.did_of_step hy.1.not_trying_nil hs
      obtain ⟨hreset, -, hpos⟩ := Sender.reset_fixed hy.1.reset.1 hy.2.1 hd
      exact ⟨credited_did hy.1 hd, hreset, hpos.trans hy.2.2⟩)
    ⟨hc, h, rfl⟩ hr
  exact hI.2

/-- Once the stream is reset, its charge is what it sent, that is the final size
it reports, and this stays so to the end of the run. -/
def ResetSettled (x₀ : Sender) (es : List (Nat × SendOp)) : Prop :=
  ∀ es₁ es₂ es₃ x₁ x₂ tr₁ tr₂, es = es₁ ++ es₂ ++ es₃ → run Sender.next x₀ es₁ = some (x₁, tr₁) →
    run Sender.next x₀ (es₁ ++ es₂) = some (x₂, tr₂) → x₁.str.state.isReset →
    charged tr₁ = x₁.str.sentOffset ∧ x₁.str.sentOffset = x₁.str.resetFinalPos ∧
    charged tr₂ = charged tr₁ ∧ x₂.str.sentOffset = x₁.str.sentOffset ∧ x₂.str.resetFinalPos = x₁.str.resetFinalPos

/-- A reset returns exactly the unsent credit, for good, if and only if every
append finds the stream live. -/
theorem reset_settles_iff (id initialReceiveWindow maxReceiveWindow : Nat) (sendWindow : UInt64) (es : List (Nat × SendOp)) :
    ResetSettled
        ⟨newSendStream id (newStreamFlowController id true initialReceiveWindow maxReceiveWindow sendWindow.toNat), .idle⟩ es ↔
      Along Sender.next AppendsLive
        ⟨newSendStream id (newStreamFlowController id true initialReceiveWindow maxReceiveWindow sendWindow.toNat), .idle⟩ es := by
  have h0 := balanced_new id initialReceiveWindow maxReceiveWindow sendWindow
  have hstep : ∀ x tr e x' o, Balanced x tr → AppendsLive x e → Sender.next x e = some (x', o) → Balanced x' (tr ++ o) :=
    fun _ _ _ _ _ h hP hs => balanced_did h hP (Sender.did_of_step h.credited.not_trying_nil hs)
  constructor
  · intro h
    refine along_of_always (Q := fun x tr => x.str.state.isReset → charged tr = x.str.sentOffset) Balanced hstep ?_ h0 ?_
    · intro x tr e x' o hb hs hQ hne
      by_contra hreset
      have hreset : x.str.state.isReset = true := by simpa using hreset
      -- The append leaves the stream reset and charges more than was sent.
      cases Sender.did_of_step hb.credited.not_trying_nil hs with
      | appended data phase o hlen hnil hfrom hph ho =>
        have hc := hQ ((Sender.isReset_append x.str data).trans hreset)
        rw [charged_append, charged_appended hb.connection ho, (hb.reset hreset).1] at hc
        have hpos := length_pos_of_ne_nil hnil
        have hsame : (x.str.append data).1.sentOffset = x.str.sentOffset := rfl
        simp only [hsame] at hc
        omega
      | _ => contradiction
    · rintro pre x tr ⟨rest, rfl⟩ hr hreset
      exact (h pre [] rest x x tr tr (by simp) hr (by simpa using hr) hreset).1
  · rintro h es₁ es₂ es₃ x₁ x₂ tr₁ tr₂ rfl hr1 hr2 hreset
    have hal := always_of_along Balanced hstep h0 h
    have hb1 := hal es₁ x₁ tr₁ ⟨es₂ ++ es₃, by simp⟩ hr1
    have hb2 := hal (es₁ ++ es₂) x₂ tr₂ ⟨es₃, rfl⟩ hr2
    obtain ⟨hstay, hpos⟩ : x₂.str.state.isReset ∧ x₂.str.resetFinalPos = x₁.str.resetFinalPos := by
      rw [run_append, hr1] at hr2
      obtain ⟨⟨y, o⟩, hy, heq⟩ := Option.map_eq_some_iff.1 hr2
      obtain ⟨rfl, -⟩ := Prod.mk.inj heq
      exact reset_run hreset hb1.credited hy
    obtain ⟨hc1, hs1⟩ := hb1.reset hreset
    obtain ⟨hc2, hs2⟩ := hb2.reset hstay
    have hsent : x₂.str.sentOffset = x₁.str.sentOffset := by rw [hs2, hpos, hs1]
    exact ⟨hc1, hs1, by rw [hc1, hc2, hsent], hsent, hpos⟩

/-- The stream is reset between a writer's look at it and the append: the byte
appended then stays charged, though nothing is ever sent. -/
theorem reset_overcharged :
    ∃ x tr, run Sender.next ⟨newSendStream 4 (newStreamFlowController 4 true 0 0 (UInt64.toNat 9)), .idle⟩
        [(9, .writeWithLimit [1]), (9, .check false false), (9, .cancelWrite 0), (9, .commit none)] = some (x, tr) ∧
      x.str.state = .resetSent ∧ x.str.sentOffset = 0 ∧ x.str.resetFinalPos = 0 ∧ charged tr = 1 :=
  ⟨_, _, rfl, by decide, by decide, by decide, by decide⟩

end Mach.Quic.Stream
