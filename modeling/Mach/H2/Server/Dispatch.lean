import Mach.H2.Server.Windows
/-!
# Starting requests and going quiet

A goroutine should be started once for each stream, none once a GOAWAY frame is
written, and nothing should be written on a stream that was reset. The state that
guards `startStream` is left open by an extended CONNECT, the frames behind the
one that closed the connection are handled all the same, and a goroutine does not
look at the table before it writes. `disciplined` names the steps at which none of
this shows.
-/

namespace Mach.H2.Server
open Lib Hpack Headkit List ServerConn

/-! ## What is observed -/

/-- What passes on the connection, and the starts of goroutines. -/
inductive Mark where
  | obs (o : Obs)
  | start (streamID : Nat)
  deriving DecidableEq, Repr

/-- A step with the goroutines it starts: new ones stand at the end of the list. -/
def markedStep (sc : ServerConn) (l : Label) : Option (ServerConn × List Mark) :=
  (step sc l).map fun (sc', out) =>
    (sc', out.map .obs ++ (sc'.running.drop sc.running.length).map fun d => .start d.id)

def starts (tr : List Mark) : List Nat := tr.filterMap fun | .start id => some id | _ => none

/-- The streams an RST_STREAM frame was received or written for. -/
def resets (tr : List Mark) : List Nat :=
  tr.filterMap fun
    | .obs (.recv f) => if f.type = 0x3 then some f.streamID else none
    | .obs (.sent (.rstStream id _)) => some id
    | _ => none

/-- The streams of the HEADERS and DATA frames written. -/
def written (tr : List Mark) : List Nat :=
  tr.filterMap fun
    | .obs (.sent (.headers id _ _)) => some id
    | .obs (.sent (.data id _ _)) => some id
    | _ => none

def wentAway (tr : List Mark) : Bool := tr.any fun | .obs (.sent (.goAway _ _)) => true | _ => false

structure Disciplined (tr : List Mark) : Prop where
  once : (starts tr).Nodup
  noStart : ∀ tr₁ tr₂, tr = tr₁ ++ tr₂ → wentAway tr₁ = true → starts tr₂ = []
  noWrite : ∀ tr₁ tr₂ id, tr = tr₁ ++ tr₂ → id ∈ resets tr₁ → id ∉ written tr₂

/-! ## The steps at which it holds -/

namespace ServerConn

/-- Nothing will be written on a stream any more: no goroutine of it can write, and none can be started. -/
def silent (sc : ServerConn) (id : Nat) : Bool :=
  (sc.isClosed || (decide (id ≤ sc.maxStreamID) && (sc.streams id).isNone)) &&
    sc.running.all fun d => d.id != id || !d.mayWrite

/-- DATA that ends an extended CONNECT stream before its handler has upgraded it. -/
def restarts (sc : ServerConn) (f : Frame) : Bool :=
  match f.event with
  | some (.streamData streamID _ true) =>
    match sc.streams streamID with
    | some st => st.state == .streamOpen && !st.isTunnel && st.isExtConnect
    | none => false
  | _ => false

/-- No request is taken on a closed connection, no stream started twice, and a stream is reset only once nothing
more will be written on it. -/
def disciplined (sc : ServerConn) : Label → Bool
  | .recv f =>
    (!sc.isClosed || !(f.type == 0x0 || f.type == 0x1 || f.type == 0x9)) && !sc.restarts f &&
      match markedStep sc (.recv f) with
      | some (sc', marks) => (resets marks).all sc'.silent
      | none => true
  | _ => true

end ServerConn

section Histories

variable (tr tr' : List Mark)

@[simp] theorem starts_append : starts (tr ++ tr') = starts tr ++ starts tr' := by simp [starts]

@[simp] theorem resets_append : resets (tr ++ tr') = resets tr ++ resets tr' := by simp [resets]

@[simp] theorem written_append : written (tr ++ tr') = written tr ++ written tr' := by simp [written]

@[simp] theorem wentAway_append : wentAway (tr ++ tr') = (wentAway tr || wentAway tr') := by simp [wentAway]

end Histories

variable {tr o : List Mark}

theorem Disciplined.append (h : Disciplined tr) (ho : Disciplined o)
    (honce : (starts tr ++ starts o).Nodup) (hstart : wentAway tr = true → starts o = [])
    (hwrite : ∀ id ∈ resets tr, id ∉ written o) : Disciplined (tr ++ o) where
  once := by rw [starts_append]; exact honce
  noStart tr₁ tr₂ he haway := by
    obtain ⟨a, rfl, rfl⟩ | ⟨c, rfl, rfl⟩ := append_eq_append_iff.1 he
    · -- The cut is in the step.
      rw [wentAway_append, Bool.or_eq_true] at haway
      obtain haway | haway := haway
      · have := hstart haway
        rw [starts_append, append_eq_nil_iff] at this
        exact this.2
      · exact ho.noStart a tr₂ rfl haway
    · rw [starts_append, h.noStart tr₁ c rfl haway, nil_append]
      exact hstart (by rw [wentAway_append, haway]; rfl)
  noWrite tr₁ tr₂ id he hid := by
    obtain ⟨a, rfl, rfl⟩ | ⟨c, rfl, rfl⟩ := append_eq_append_iff.1 he
    · rw [resets_append, mem_append] at hid
      obtain hid | hid := hid
      · have := hwrite id hid
        rw [written_append, mem_append, not_or] at this
        exact this.2
      · exact ho.noWrite a tr₂ id rfl hid
    · rw [written_append, mem_append, not_or]
      exact ⟨h.noWrite tr₁ c id rfl hid, hwrite id (by rw [resets_append]; exact mem_append_left _ hid)⟩

/-! ## What a callback can do -/

/-- What a stream keeps once its headers are complete. -/
structure Stays (st st' : ServerStream) : Prop where
  endHeaders : st.endHeaders = true → st'.endHeaders = true
  isExtConnect : st.endHeaders = true → st'.isExtConnect = st.isExtConnect
  state : st.endHeaders = true → st'.state = .streamOpen → st.state = .streamOpen

/-- A step that starts no goroutine. -/
structure Calm (sc sc' : ServerConn) : Prop where
  running : ∀ d' ∈ sc'.running, ∃ d ∈ sc.running, d'.id = d.id ∧ (d'.mayWrite = true → d.mayWrite = true)
  length : sc'.running.length ≤ sc.running.length
  max : sc.maxStreamID ≤ sc'.maxStreamID
  closed : sc.isClosed = true → sc'.isClosed = true
  streams : ∀ id st', sc'.streams id = some st' → sc.maxStreamID < id ∨ ∃ st, sc.streams id = some st ∧ Stays st st'

section Calm

variable {sc sc' sc'' : ServerConn}

theorem Stays.refl (st : ServerStream) : Stays st st := ⟨id, fun _ => rfl, fun _ => id⟩

theorem Stays.trans {a b c : ServerStream} (h : Stays a b) (h' : Stays b c) : Stays a c :=
  ⟨fun he => h'.endHeaders (h.endHeaders he),
    fun he => (h'.isExtConnect (h.endHeaders he)).trans (h.isExtConnect he),
    fun he hs => h.state he (h'.state (h.endHeaders he) hs)⟩

theorem Calm.trans (h : Calm sc sc') (h' : Calm sc' sc'') : Calm sc sc'' where
  running d hd := by
    obtain ⟨d1, hd1, hid1, hw1⟩ := h'.running d hd
    obtain ⟨d2, hd2, hid2, hw2⟩ := h.running d1 hd1
    exact ⟨d2, hd2, hid1.trans hid2, fun hw => hw2 (hw1 hw)⟩
  length := h'.length.trans h.length
  max := h.max.trans h'.max
  closed hc := h'.closed (h.closed hc)
  streams id st hst := by
    obtain hlt | ⟨st1, hst1, hs1⟩ := h'.streams id st hst
    · exact .inl (lt_of_le_of_lt h.max hlt)
    · obtain hlt | ⟨st2, hst2, hs2⟩ := h.streams id st1 hst1
      · exact .inl hlt
      · exact .inr ⟨st2, hst2, hs2.trans hs1⟩

theorem Calm.of_streams (hrun : sc'.running = sc.running) (hmax : sc.maxStreamID ≤ sc'.maxStreamID)
    (hclosed : sc.isClosed = true → sc'.isClosed = true)
    (hstreams : ∀ id st', sc'.streams id = some st' → sc.maxStreamID < id ∨ ∃ st, sc.streams id = some st ∧ Stays st st') :
    Calm sc sc' :=
  ⟨fun d hd => ⟨d, hrun ▸ hd, rfl, id⟩, by rw [hrun], hmax, hclosed, hstreams⟩

theorem Calm.of_same (hrun : sc'.running = sc.running) (hmax : sc'.maxStreamID = sc.maxStreamID)
    (hclosed : sc.isClosed = true → sc'.isClosed = true) (hstreams : sc'.streams = sc.streams) : Calm sc sc' :=
  .of_streams hrun hmax.ge hclosed fun _ st hst => .inr ⟨st, hstreams ▸ hst, .refl st⟩

theorem Calm.refl (sc : ServerConn) : Calm sc sc := .of_same rfl rfl id rfl

theorem calm_closeWithGoAway (sc : ServerConn) (code : ErrorCode) : Calm sc (sc.closeWithGoAway code).1 :=
  .of_same rfl rfl (fun _ => rfl) rfl

theorem calm_deleteStream (sc : ServerConn) (streamID : Nat) : Calm sc (sc.deleteStream streamID) :=
  .of_streams rfl (Nat.le_refl _) id fun _ st hst => .inr ⟨st, streams_deleteStream hst, .refl st⟩

theorem calm_putStream {streamID : Nat} {st st' : ServerStream} (hst : sc.streams streamID = some st) (hs : Stays st st') :
    Calm sc (sc.putStream streamID st') := by
  refine .of_streams rfl (Nat.le_refl _) id fun id s h => ?_
  obtain ⟨rfl, rfl⟩ | ⟨-, h⟩ := streams_putStream h
  · exact .inr ⟨st, hst, hs⟩
  · exact .inr ⟨s, h, .refl s⟩

/-- A stream that is new, or in the middle of its header block. -/
def Pending (sc : ServerConn) (streamID : Nat) : Prop :=
  sc.maxStreamID < streamID ∨ ∃ st, sc.streams streamID = some st ∧ st.endHeaders = false

theorem Calm.putPending {streamID : Nat} (h : Calm sc sc') (hp : Pending sc streamID) (st' : ServerStream) :
    Calm sc (sc'.putStream streamID st') := by
  refine { h with streams := fun id s hs => ?_ }
  obtain ⟨rfl, rfl⟩ | ⟨-, hs⟩ := streams_putStream hs
  · obtain hlt | ⟨st, hst, he⟩ := hp
    · exact .inl hlt
    · exact .inr ⟨st, hst, by simp [he], by simp [he], by simp [he]⟩
  · exact h.streams id s hs

end Calm

/-- A stream that has not been started, as far as the table shows it. -/
def Fresh (sc : ServerConn) (streamID : Nat) : Prop :=
  sc.maxStreamID < streamID ∨
    ∃ st, sc.streams streamID = some st ∧ (st.endHeaders = false ∨ st.state = .streamOpen ∧ st.isExtConnect = false)

theorem Pending.fresh {sc : ServerConn} {streamID : Nat} (h : Pending sc streamID) : Fresh sc streamID :=
  h.imp_right fun ⟨st, hst, he⟩ => ⟨st, hst, .inl he⟩

/-- A callback starts no goroutine, or one. -/
inductive Dispatched (sc : ServerConn) : ServerConn → Prop
  | calm {sc'} : sc'.running = sc.running → Calm sc sc' → Dispatched sc sc'
  | start {sc₁ st} : sc₁.running = sc.running → sc₁.isClosed = sc.isClosed → Calm sc sc₁ → Fresh sc st.id →
      st.endHeaders = true → st.id ≤ sc₁.maxStreamID → Dispatched sc (sc₁.startStream st)

variable {sc sc' sc₁ : ServerConn}

section Callbacks

theorem dispatched_closeWithGoAway {code : ErrorCode} : Dispatched sc (sc.closeWithGoAway code).1 :=
  .calm rfl (calm_closeWithGoAway sc code)

theorem dispatched_onStreamData (hw : WellFormed sc) {f : Frame} {streamID : Nat} {payload : List UInt8} {endStream : Bool}
    (hf : f.event = some (.streamData streamID payload endStream)) (hno : sc.restarts f = false) :
    Dispatched sc (sc.onStreamData streamID payload endStream).1 := by
  unfold onStreamData
  split
  · exact dispatched_closeWithGoAway
  rename_i hcont
  split
  · exact dispatched_closeWithGoAway
  split
  · exact .calm rfl (.refl sc)
  rename_i st hst
  split
  · exact .calm rfl (.refl sc)
  rename_i hstate
  have hopen : st.state = .streamOpen := by
    cases hs : st.state with
    | streamOpen => rfl
    | _ => simp [hs] at hstate
  have hfit := hw.fits _ _ hst
  have hconn : ∀ c, Calm sc { sc with connRecvUnacked := c } := fun c => .of_same rfl rfl id rfl
  split
  · obtain ⟨c, u, a, b, heq, -⟩ := replenishReceiveWindow_eq sc st payload.length
    rw [heq]
    exact .calm rfl ((hconn c).trans (calm_putStream hst ⟨id, fun _ => rfl, fun _ => id⟩))
  · rename_i htun
    obtain ⟨c, u, a, b, heq, -⟩ :=
      replenishReceiveWindow_eq sc { st with body := st.body ++ payload } payload.length
    rw [heq]
    dsimp only
    split
    · rename_i hend
      subst hend
      refine .start rfl rfl (hconn c) ?_ ?_ ?_
      · refine .inr ⟨st, ?_, .inr ⟨hopen, ?_⟩⟩
        · rw [← hst, ← hfit.key]
        · simpa [restarts, hf, hst, hopen, htun] using hno
      · -- No stream is in the middle of its header block.
        refine eq_true_of_ne_false fun he => hfit.nonzero ?_
        rw [← hfit.continued.1 he]
        exact not_not.1 hcont
      · change st.id ≤ sc.maxStreamID
        rw [hfit.key]
        exact hfit.max
    · exact .calm rfl ((hconn c).trans (calm_putStream hst ⟨id, fun _ => rfl, fun _ => id⟩))

theorem dispatched_endHeaderBlock {st : ServerStream} (hrun : sc₁.running = sc.running)
    (hclosed : sc₁.isClosed = sc.isClosed) (hc : Calm sc sc₁) (hp : Pending sc st.id) (hhead : st.endHeaders = true)
    (hmax : st.id ≤ sc₁.maxStreamID) : Dispatched sc (sc₁.endHeaderBlock st).1 := by
  have hput : ∀ dec st', SameStream st st' → Calm sc ({ sc₁ with hpackDec := dec }.putStream st'.id st') := by
    intro dec st' hsame
    have h0 : Calm sc { sc₁ with hpackDec := dec } := hc.trans (.of_same rfl rfl id rfl)
    exact h0.putPending (by rw [hsame.id]; exact hp) st'
  have hend := ended_endHeaderBlock sc₁ st
  generalize sc₁.endHeaderBlock st = r at hend
  cases hend with
  | idle hsame => exact .calm hrun (hput _ _ hsame)
  | start hsame =>
    refine .start hrun hclosed (hput _ _ hsame) ?_ (hsame.endHeaders.trans hhead) ?_
    · rw [hsame.id]
      exact hp.fresh
    · rw [hsame.id]
      exact hmax
  | reset hsame => exact .calm hrun ((hput _ _ hsame).trans (calm_deleteStream _ _))
  | goAway code hsame => exact .calm hrun ((hput _ _ hsame).trans (calm_closeWithGoAway _ _))

theorem dispatched_onHeaders (streamID : Nat) (payload : List UInt8) (endHeaders endStream : Bool) :
    Dispatched sc (sc.onHeaders streamID payload endHeaders endStream).1 := by
  unfold onHeaders
  split
  · exact dispatched_closeWithGoAway
  split
  · exact dispatched_closeWithGoAway
  split
  · exact dispatched_closeWithGoAway
  rename_i hmax
  have hp : Pending sc streamID := .inl (Nat.lt_of_not_le hmax)
  have hnew : ∀ cont, Calm sc { sc with maxStreamID := streamID, continuationStream := cont } := fun cont =>
    .of_streams rfl (Nat.le_of_not_le hmax) id fun _ st hst => .inr ⟨st, hst, .refl st⟩
  dsimp only
  split
  · rename_i he
    refine dispatched_endHeaderBlock ?_ ?_ ((hnew _).putPending hp _) ?_ ?_ ?_
    · rfl
    · rfl
    · exact hp
    · exact he
    · exact Nat.le_refl _
  · exact .calm rfl ((hnew _).putPending hp _)

theorem dispatched_onContinuation (hw : WellFormed sc) (streamID : Nat) (payload : List UInt8) (endHeaders : Bool) :
    Dispatched sc (sc.onContinuation streamID payload endHeaders).1 := by
  unfold onContinuation
  split
  · exact dispatched_closeWithGoAway
  rename_i hcont
  simp only [not_or, not_not] at hcont
  split
  · exact dispatched_closeWithGoAway
  rename_i st hst
  have hfit := hw.fits _ _ hst
  have hp : Pending sc streamID := .inr ⟨st, hst, hfit.continued.2 hcont.2⟩
  split
  · exact dispatched_closeWithGoAway
  dsimp only
  split
  · refine dispatched_endHeaderBlock ?_ ?_ (.of_same rfl rfl id rfl) ?_ rfl ?_
    · rfl
    · rfl
    · rw [← hfit.key] at hp
      exact hp
    · change st.id ≤ sc.maxStreamID
      rw [hfit.key]
      exact hfit.max
  · exact .calm rfl ((Calm.refl sc).putPending hp _)

theorem calm_applySetting (sc : ServerConn) (key val : Nat) :
    (sc.applySetting key val).1.running = sc.running ∧ Calm sc (sc.applySetting key val).1 := by
  unfold applySetting
  split
  · exact ⟨rfl, .of_same rfl rfl id rfl⟩
  split
  · exact ⟨rfl, .of_same rfl rfl id rfl⟩
  split
  · split
    · exact ⟨rfl, .of_same rfl rfl id rfl⟩
    · refine ⟨rfl, .of_streams rfl (Nat.le_refl _) id fun i st' hst => .inr ?_⟩
      obtain ⟨st, hold, w, rfl⟩ := shiftWindows_only (val - sc.peerInitialWin) sc.streamIDs sc.streams i st' hst
      exact ⟨st, hold, id, fun _ => rfl, fun _ => id⟩
  split
  · split
    · exact ⟨rfl, .of_same rfl rfl id rfl⟩
    · exact ⟨rfl, .of_same rfl rfl id rfl⟩
  · exact ⟨rfl, .of_same rfl rfl id rfl⟩

theorem calm_applySettings (sc : ServerConn) (payload : List UInt8) :
    (sc.applySettings payload).1.running = sc.running ∧ Calm sc (sc.applySettings payload).1 := by
  fun_induction applySettings sc payload with
  | case1 sc a b c d e f rest sc' code h =>
    have hs := calm_applySetting sc (beNat [a, b]) (beNat [c, d, e, f])
    rwa [h] at hs
  | case2 sc a b c d e f rest sc' h ih =>
    have hs := calm_applySetting sc (beNat [a, b]) (beNat [c, d, e, f])
    rw [h] at hs
    exact ⟨ih.1.trans hs.1, hs.2.trans ih.2⟩
  | case3 => exact ⟨rfl, .refl _⟩

/-- What a callback that starts nothing leaves. -/
structure Answers (sc : ServerConn) (r : ServerConn × List Out) : Prop where
  running : r.1.running = sc.running
  calm : Calm sc r.1

theorem answers_closeWithGoAway (sc : ServerConn) (code : ErrorCode) : Answers sc (sc.closeWithGoAway code) :=
  ⟨rfl, calm_closeWithGoAway sc code⟩

theorem answers_onSettings (sc : ServerConn) (payload : List UInt8) (ack : Bool) :
    Answers sc (sc.onSettings payload ack) := by
  obtain ⟨hrun, hc⟩ := calm_applySettings sc payload
  unfold onSettings
  split
  · exact answers_closeWithGoAway sc _
  split
  · split
    · exact answers_closeWithGoAway sc _
    · exact ⟨rfl, .refl sc⟩
  split
  · exact answers_closeWithGoAway sc _
  generalize sc.applySettings payload = r at hrun hc
  obtain ⟨sc', err⟩ := r
  cases err with
  | some code => exact ⟨hrun, hc.trans (calm_closeWithGoAway sc' code)⟩
  | none => exact ⟨hrun, hc⟩

theorem answers_onWindowUpdate (sc : ServerConn) (streamID increment : Nat) :
    Answers sc (sc.onWindowUpdate streamID increment) := by
  unfold onWindowUpdate
  split
  · exact answers_closeWithGoAway sc _
  split
  · split
    · exact answers_closeWithGoAway sc _
    · exact ⟨rfl, .refl sc⟩
  split
  · exact answers_closeWithGoAway sc _
  split
  · split
    · exact answers_closeWithGoAway sc _
    · exact ⟨rfl, .of_same rfl rfl id rfl⟩
  split
  · exact ⟨rfl, .refl sc⟩
  rename_i st hst
  split
  · exact ⟨rfl, calm_deleteStream sc _⟩
  · exact ⟨rfl, calm_putStream hst ⟨id, fun _ => rfl, fun _ => id⟩⟩

theorem answers_brief {r : ServerConn × List Out} (h : Brief sc r) : Answers sc r := by
  cases h with
  | nothing | pingAck => exact ⟨rfl, .refl sc⟩
  | goAway | close => exact ⟨rfl, .of_same rfl rfl (fun _ => rfl) rfl⟩
  | delete streamID => exact ⟨rfl, calm_deleteStream sc streamID⟩

end Callbacks

/-- The callbacks that can start a goroutine. -/
def Event.opens : Option Event → Bool
  | some (.streamData _ _ _) => true
  | some (.headers _ _ _ _) => true
  | some (.continuation _ _ _) => true
  | _ => false

theorem type_of_opens (f : Frame) (h : Event.opens f.event = true) : f.type = 0x0 ∨ f.type = 0x1 ∨ f.type = 0x9 := by
  revert h
  unfold Frame.event
  repeat' refine iteInduction (motive := fun e => Event.opens e = true → _) (fun _ => ?_) (fun _ => ?_)
  all_goals simp_all [Event.opens]

/-- A callback starts a goroutine only if it opens, and then at most one. -/
theorem dispatched_handle (hw : WellFormed sc) {f : Frame} {e : Event} (hf : f.event = some e)
    (hno : sc.restarts f = false) :
    Dispatched sc (sc.handle e).1 ∧ (Event.opens f.event = false → Answers sc (sc.handle e)) := by
  have hans : Answers sc (sc.handle e) →
      Dispatched sc (sc.handle e).1 ∧ (Event.opens f.event = false → Answers sc (sc.handle e)) :=
    fun h => ⟨.calm h.running h.calm, fun _ => h⟩
  have hopen : Event.opens f.event = true → Dispatched sc (sc.handle e).1 →
      Dispatched sc (sc.handle e).1 ∧ (Event.opens f.event = false → Answers sc (sc.handle e)) :=
    fun ho h => ⟨h, fun hn => absurd (ho.symm.trans hn) (by decide)⟩
  cases e with
  | streamData streamID payload endStream => exact hopen (by rw [hf]; rfl) (dispatched_onStreamData hw hf hno)
  | headers streamID payload endHeaders endStream => exact hopen (by rw [hf]; rfl) (dispatched_onHeaders _ _ _ _)
  | continuation streamID payload endHeaders => exact hopen (by rw [hf]; rfl) (dispatched_onContinuation hw _ _ _)
  | settings payload ack => exact hans (answers_onSettings sc _ _)
  | windowUpdate streamID inc => exact hans (answers_onWindowUpdate sc _ _)
  | ping | streamReset | goAway | priority | unknownFrame => exact hans (answers_brief (brief_handle rfl))

/-! ## What a goroutine can do -/

section Acts

variable {d : Dispatch}

theorem calm_updateStream (sc : ServerConn) (streamID : Nat) (f : ServerStream → ServerStream)
    (hf : ∀ st, Stays st (f st)) : Calm sc (sc.updateStream streamID f) := by
  refine .of_streams rfl (Nat.le_refl _) id fun i st' hst => .inr ?_
  simp only [updateStream, Function.update_apply] at hst
  split at hst
  · rename_i hi
    subst hi
    obtain ⟨st, hold, rfl⟩ := Option.map_eq_some_iff.1 hst
    exact ⟨st, hold, hf st⟩
  · exact ⟨st', hst, .refl st'⟩

theorem calm_running (sc : ServerConn) {running : List Dispatch} (hlen : running.length ≤ sc.running.length)
    (h : ∀ d' ∈ running, ∃ d ∈ sc.running, d'.id = d.id ∧ (d'.mayWrite = true → d.mayWrite = true)) :
    Calm sc { sc with running } :=
  ⟨h, hlen, Nat.le_refl _, id, fun _ st hst => .inr ⟨st, hst, .refl st⟩⟩

theorem calm_set {i : Nat} {d' : Dispatch} (hd : sc.running[i]? = some d) (hid : d'.id = d.id)
    (hw : d'.mayWrite = true → d.mayWrite = true) : Calm sc { sc with running := sc.running.set i d' } := by
  refine calm_running sc (by simp) fun e he => ?_
  obtain he | rfl := mem_or_eq_of_mem_set he
  · exact ⟨e, he, rfl, id⟩
  · exact ⟨d, mem_of_getElem? hd, hid, hw⟩

theorem calm_act {i : Nat} {a : ServerConn.Act} {out : List Out}
    (hd : sc.running[i]? = some d) (h : sc.act i d a = some (sc', out)) : Calm sc sc' := by
  cases acted_act h with
  | upgrade hr hsc =>
    subst hsc
    have h1 := calm_updateStream sc d.id (fun st => { st with isTunnel := true }) fun st => ⟨id, fun _ => rfl, fun _ => id⟩
    refine h1.trans (.trans (calm_running _ (Nat.le_of_eq (length_map _)) fun e he => ?_) (.of_same rfl rfl id rfl))
    obtain ⟨e0, he0, rfl⟩ := mem_map.1 he
    refine ⟨e0, he0, ?_⟩
    split
    · exact ⟨rfl, id⟩
    · exact ⟨rfl, id⟩
  | write hr => exact .refl sc
  | closeAdapter hr => exact calm_set hd rfl fun _ => mayWrite_of_not_responded hr
  | @respond _ r _ hr hres hid =>
    have hsent : Calm sc r.1 ∧ r.1.running = sc.running := by
      rcases hres with rfl | rfl
      · exact ⟨.refl sc, rfl⟩
      · exact ⟨.of_same rfl rfl id rfl, rfl⟩
    obtain ⟨hc, hrun⟩ := hsent
    have h1 := calm_updateStream r.1 d.id (fun st => { st with state := .streamClosed }) fun st =>
      ⟨id, fun _ => rfl, fun _ h => nomatch h⟩
    have hd' : r.1.running[i]? = some d := hrun ▸ hd
    exact hc.trans (h1.trans (calm_set hd' hid fun _ => mayWrite_of_not_responded hr))
  | release =>
    refine (calm_deleteStream sc d.id).trans (calm_running _ ?_ fun e he => ?_)
    · exact length_eraseIdx_le _ _
    · exact ⟨e, mem_of_mem_eraseIdx he, rfl, id⟩

end Acts

/-! ## Every run -/

/-- A stream that has been started: nothing in the table lets it be started once more. -/
def Started (sc : ServerConn) (id : Nat) : Prop :=
  id ≤ sc.maxStreamID ∧
    ∀ st, sc.streams id = some st → st.endHeaders = true ∧ (st.state = .streamOpen → st.isExtConnect = true)

structure Quiet (sc : ServerConn) (tr : List Mark) : Prop where
  wf : WellFormed sc
  started : ∀ id ∈ starts tr, Started sc id
  away : wentAway tr = true → sc.isClosed = true
  silent : ∀ id ∈ resets tr, sc.silent id = true
  disciplined : Disciplined tr

section Invariant

variable {id : Nat}

theorem Started.not_fresh (h : Started sc id) : ¬ Fresh sc id := by
  rintro (hlt | ⟨st, hst, he | ⟨hopen, hext⟩⟩)
  · exact absurd h.1 (Nat.not_le.2 hlt)
  · simp [(h.2 st hst).1] at he
  · simp [(h.2 st hst).2 hopen] at hext

theorem Started.calm (h : Started sc id) (hc : Calm sc sc') : Started sc' id := by
  refine ⟨h.1.trans hc.max, fun st' hst' => ?_⟩
  obtain hlt | ⟨st, hst, hs⟩ := hc.streams id st' hst'
  · exact absurd h.1 (Nat.not_le.2 hlt)
  obtain ⟨hhead, hext⟩ := h.2 st hst
  exact ⟨hs.endHeaders hhead, fun hopen => (hs.isExtConnect hhead).trans (hext (hs.state hhead hopen))⟩

theorem silent_iff : sc.silent id = true ↔
    (sc.isClosed = true ∨ id ≤ sc.maxStreamID ∧ sc.streams id = none) ∧
      ∀ d ∈ sc.running, d.id = id → d.mayWrite = false := by
  simp only [silent, Bool.and_eq_true, Bool.or_eq_true, decide_eq_true_eq, Option.isNone_iff_eq_none,
    all_eq_true, bne_iff_ne, Bool.not_eq_true']
  grind

theorem silent_calm (h : sc.silent id = true) (hc : Calm sc sc') : sc'.silent id = true := by
  obtain ⟨hgone, hrun⟩ := silent_iff.1 h
  refine silent_iff.2 ⟨?_, fun d' hd' hid => ?_⟩
  · obtain hclosed | ⟨hle, hnone⟩ := hgone
    · exact .inl (hc.closed hclosed)
    · refine .inr ⟨hle.trans hc.max, Option.eq_none_iff_forall_ne_some.2 fun st' hst' => ?_⟩
      obtain hlt | ⟨st, hst, -⟩ := hc.streams id st' hst'
      · exact absurd hle (Nat.not_le.2 hlt)
      rw [hnone] at hst
      cases hst
  · obtain ⟨d, hd, he, hw⟩ := hc.running d' hd'
    by_contra hmay
    have := hrun d hd (he ▸ hid)
    rw [hw (eq_true_of_ne_false hmay)] at this
    cases this

/-- A step that starts nothing keeps the invariant if it is quiet on the streams that are silent. -/
theorem Quiet.calm (hi : Quiet sc tr) (hc : Calm sc sc') (hw : WellFormed sc') (hstarts : starts o = [])
    (haway : wentAway o = true → sc'.isClosed = true) (hres : ∀ id ∈ resets o, sc'.silent id = true)
    (hwrite : ∀ id, sc.silent id = true → id ∉ written o) (hone : resets o = [] ∨ written o = []) :
    Quiet sc' (tr ++ o) where
  wf := hw
  started id hid := by
    rw [starts_append, hstarts, append_nil] at hid
    exact (hi.started id hid).calm hc
  away h := by
    rw [wentAway_append, Bool.or_eq_true] at h
    obtain h | h := h
    · exact hc.closed (hi.away h)
    · exact haway h
  silent id hid := by
    rw [resets_append, mem_append] at hid
    obtain hid | hid := hid
    · exact silent_calm (hi.silent id hid) hc
    · exact hres id hid
  disciplined := by
    refine hi.disciplined.append ⟨by simp [hstarts], fun tr₁ tr₂ he _ => ?_, fun tr₁ tr₂ id he hid hin => ?_⟩ ?_
      (fun _ => hstarts) fun id hid => hwrite id (hi.silent id hid)
    · rw [he, starts_append, append_eq_nil_iff] at hstarts
      exact hstarts.2
    · rw [he, resets_append, written_append] at hone
      obtain hone | hone := hone
      · rw [(append_eq_nil_iff.1 hone).1] at hid
        cases hid
      · rw [(append_eq_nil_iff.1 hone).2] at hin
        cases hin
    · rw [hstarts, append_nil]
      exact hi.disciplined.once

theorem Quiet.start {st : ServerStream} (hi : Quiet sc tr) (hc : Calm sc sc₁)
    (hw : WellFormed (sc₁.startStream st)) (hfresh : Fresh sc st.id) (hhead : st.endHeaders = true)
    (hmax : st.id ≤ sc₁.maxStreamID) (hopen : sc.isClosed = false) (hstarts : starts o = [st.id])
    (haway : wentAway o = false) (hres : ∀ id ∈ resets o, (sc₁.startStream st).silent id = true) (hwrite : written o = []) :
    Quiet (sc₁.startStream st) (tr ++ o) := by
  have hnew : ∀ id ∈ starts tr, id ≠ st.id := by
    rintro id hid rfl
    exact (hi.started _ hid).not_fresh hfresh
  have hgone : wentAway tr = false := by
    refine Bool.eq_false_iff.2 fun h => ?_
    rw [hi.away h] at hopen
    cases hopen
  have hother : ∀ id ≠ st.id, (sc₁.startStream st).streams id = sc₁.streams id := by
    intro id hne
    simp [startStream, putStream, hne]
  refine ⟨hw, fun id hid => ?_, fun h => ?_, fun id hid => ?_, ?_⟩
  · rw [starts_append, hstarts, mem_append, mem_singleton] at hid
    obtain hid | rfl := hid
    · have hs := (hi.started id hid).calm hc
      refine ⟨hs.1, fun s hst => hs.2 s ?_⟩
      rw [← hother id (hnew id hid)]
      exact hst
    · refine ⟨hmax, fun s hst => ?_⟩
      simp only [startStream, putStream, Function.update_self, Option.some.injEq] at hst
      subst hst
      refine ⟨hhead, fun h => ?_⟩
      by_contra hext
      have hext' : st.isExtConnect = false := eq_false_of_ne_true hext
      simp [hext'] at h
  · rw [wentAway_append, hgone, haway] at h
    cases h
  · rw [resets_append, mem_append] at hid
    obtain hid | hid := hid
    · have hsil := hi.silent id hid
      have hne : id ≠ st.id := by
        rintro rfl
        obtain ⟨h | ⟨hle, hnone⟩, -⟩ := silent_iff.1 hsil
        · rw [h] at hopen
          cases hopen
        · obtain hlt | ⟨s, hst, -⟩ := hfresh
          · exact absurd hle (Nat.not_le.2 hlt)
          rw [hnone] at hst
          cases hst
      obtain ⟨hout, hrun⟩ := silent_iff.1 (silent_calm hsil hc)
      refine silent_iff.2 ⟨?_, fun d hd hid => ?_⟩
      · rw [hother id hne]
        exact hout
      · obtain hd | rfl := mem_append.1 hd |>.imp_right mem_singleton.1
        · exact hrun d hd hid
        · exact absurd hid.symm hne
    · exact hres id hid
  · refine hi.disciplined.append ⟨by simp [hstarts], fun tr₁ tr₂ he h => ?_, fun tr₁ tr₂ id he _ hin => ?_⟩ ?_
      (fun h => ?_) fun id _ hin => ?_
    · rw [he, wentAway_append, h] at haway
      cases haway
    · rw [he, written_append, append_eq_nil_iff] at hwrite
      rw [hwrite.2] at hin
      cases hin
    · rw [hstarts]
      refine hi.disciplined.once.append (nodup_singleton _) fun id hid hin => ?_
      exact hnew id hid (mem_singleton.1 hin)
    · rw [hgone] at h
      cases h
    · rw [hwrite] at hin
      cases hin

end Invariant

section Marks

variable (out : List Obs) (ds : List Dispatch)

@[simp] theorem starts_obs : starts (out.map .obs) = [] := by
  simp [starts, filterMap_map]

@[simp] theorem starts_map_start : starts (ds.map fun d => .start d.id) = ds.map (·.id) := by
  simp [starts, filterMap_map]

@[simp] theorem written_map_start : written (ds.map fun d => .start d.id) = [] := by
  simp [written, filterMap_map]

@[simp] theorem wentAway_map_start : wentAway (ds.map fun d => .start d.id) = false := by
  simp [wentAway]

end Marks

variable {f : Frame} {e : Event} {r : ServerConn × List Out}

def received (f : Frame) (out : List Out) : List Mark := (Obs.recv f :: out.map .sent).map .obs

theorem written_received (h : ∀ o ∈ r.2, o.Reply e r.1.isClosed) : written (received f r.2) = [] := by
  refine filterMap_eq_nil_iff.2 fun m hm => ?_
  simp only [received, map_cons, map_map, mem_cons, mem_map, Function.comp_apply] at hm
  obtain rfl | ⟨o, ho, rfl⟩ := hm
  · rfl
  · have := h o ho
    cases o with
    | headers => exact this.elim
    | data => exact this.elim
    | _ => rfl

theorem closed_of_wentAway (h : ∀ o ∈ r.2, o.Reply e r.1.isClosed) (haway : wentAway (received f r.2) = true) :
    r.1.isClosed = true := by
  simp only [wentAway, received, any_eq_true, map_cons, map_map, mem_cons, mem_map,
    Function.comp_apply] at haway
  obtain ⟨m, rfl | ⟨o, ho, rfl⟩, hm⟩ := haway
  · cases hm
  have := h o ho
  cases o with
  | goAway => exact this
  | _ => cases hm

theorem marks_of {d : Dispatch} {max : Nat} {out : List Out} (h : ∀ o ∈ out, o.Of d max) :
    resets ((out.map Obs.sent).map .obs) = [] ∧ wentAway ((out.map Obs.sent).map .obs) = false ∧
      ∀ id ∈ written ((out.map Obs.sent).map .obs), id = d.id ∧ d.mayWrite = true := by
  induction out with
  | nil => exact ⟨rfl, rfl, nofun⟩
  | cons o out ih =>
    obtain ⟨hres, haway, hwrite⟩ := ih fun o' ho' => h o' (mem_cons_of_mem _ ho')
    have ho := h o mem_cons_self
    cases o with
    | headers streamID block endStream =>
      refine ⟨hres, haway, fun id hid => ?_⟩
      obtain rfl | hid := mem_cons.1 hid
      · exact ho
      · exact hwrite id hid
    | data streamID payload endStream =>
      refine ⟨hres, haway, fun id hid => ?_⟩
      obtain rfl | hid := mem_cons.1 hid
      · exact ⟨ho.1, ho.2.1⟩
      · exact hwrite id hid
    | _ => exact ho.elim

def receivedMarks (sc : ServerConn) (f : Frame) (r : ServerConn × List Out) : List Mark :=
  received f r.2 ++ (r.1.running.drop sc.running.length).map fun d => .start d.id

theorem Quiet.received (hi : Quiet sc tr)
    (hw : WellFormed r.1) (hrep : ∀ o ∈ r.2, o.Reply e r.1.isClosed) (hd : Dispatched sc r.1)
    (hclosed : sc.isClosed = true → r.1.running = sc.running ∧ Calm sc r.1)
    (hres : ∀ id ∈ resets (receivedMarks sc f r), r.1.silent id = true) :
    Quiet r.1 (tr ++ receivedMarks sc f r) := by
  have hwr : written (receivedMarks sc f r) = [] := by
    rw [receivedMarks, written_append, written_received hrep, written_map_start]
    rfl
  have haway : wentAway (receivedMarks sc f r) = true → r.1.isClosed = true := by
    intro h
    simp only [receivedMarks, wentAway_append, wentAway_map_start, Bool.or_false] at h
    exact closed_of_wentAway hrep h
  have hstarts : starts (receivedMarks sc f r) = (r.1.running.drop sc.running.length).map (·.id) := by
    rw [receivedMarks, Server.received, starts_append, starts_obs, starts_map_start]
    rfl
  have hcalm : r.1.running = sc.running → Calm sc r.1 → Quiet r.1 (tr ++ receivedMarks sc f r) := by
    intro hrun hc
    refine hi.calm hc hw ?_ haway hres (fun id _ hin => ?_) (.inr hwr)
    · rw [hstarts, hrun, drop_length, map_nil]
    · rw [hwr] at hin
      cases hin
  obtain ⟨sc', out⟩ := r
  cases hopen : sc.isClosed with
  | true =>
    obtain ⟨hrun, hc⟩ := hclosed hopen
    exact hcalm hrun hc
  | false =>
    dsimp only at hd hw
    cases hd with
    | calm hrun hc => exact hcalm hrun hc
    | start hrun hcl hc hfresh hhead hmax =>
      refine hi.start hc hw hfresh hhead hmax hopen ?_ ?_ hres hwr
      · rw [hstarts]
        simp [startStream, hrun]
      · refine Bool.eq_false_iff.2 fun h => ?_
        exact Bool.false_ne_true (hopen.symm.trans (hcl.symm.trans (haway h)))

theorem quiet_recv (hi : Quiet sc tr)
    (hd : sc.disciplined (.recv f) = true) (h : markedStep sc (.recv f) = some (sc', o)) : Quiet sc' (tr ++ o) := by
  simp only [disciplined, h, Bool.and_eq_true, Bool.not_eq_true', all_eq_true] at hd
  obtain ⟨⟨hclosed, hno⟩, hres⟩ := hd
  cases h
  cases he : f.event with
  | none =>
    simp only [he] at hres ⊢
    exact hi.received (e := .goAway 0 0) (r := (sc, [])) hi.wf nofun (.calm rfl (.refl sc)) (fun _ => ⟨rfl, .refl sc⟩) hres
  | some e =>
    simp only [he] at hres ⊢
    obtain ⟨hdis, hans⟩ := dispatched_handle hi.wf he hno
    refine hi.received (moved_handle hi.wf he).1.wf (sc.replied_handle e).replies hdis (fun hc => ?_) hres
    have hnot : Event.opens f.event = false := by
      refine Bool.eq_false_iff.2 fun ho => ?_
      have := type_of_opens f ho
      simp [hc] at hclosed
      tauto
    exact ⟨(hans hnot).running, (hans hnot).calm⟩

theorem quiet_step {l : Label} (hi : Quiet sc tr)
    (hd : sc.disciplined l = true) (h : markedStep sc l = some (sc', o)) : Quiet sc' (tr ++ o) := by
  cases l with
  | recv f => exact quiet_recv hi hd h
  | act i a =>
    obtain ⟨⟨sc₁, out⟩, hs, he⟩ := Option.map_eq_some_iff.1 h
    cases he
    simp only [step] at hs
    split at hs
    · cases hs
    rename_i d hdi
    obtain ⟨⟨sc2, out2⟩, hact, he⟩ := Option.map_eq_some_iff.1 hs
    cases he
    have hc := calm_act hdi hact
    obtain ⟨hres, haway, hwrite⟩ := marks_of (of_act hact).2
    rw [drop_of_length_le hc.length, map_nil, append_nil]
    refine hi.calm hc (kept_act hi.wf hdi hact).wf (starts_obs _) (fun h => ?_) (fun id hid => ?_) (fun id hsil hin => ?_)
      (.inl hres)
    · rw [haway] at h
      cases h
    · rw [hres] at hid
      cases hid
    · obtain ⟨rfl, hmay⟩ := hwrite id hin
      rw [(silent_iff.1 hsil).2 d (mem_of_getElem? hdi) rfl] at hmay
      cases hmay
  | close =>
    cases h
    simp only [drop_length, map_nil, append_nil]
    have hc : Calm sc { sc with isClosed := true } := .of_same rfl rfl (fun _ => rfl) rfl
    have := hi.calm hc (kept_close hi.wf).wf (o := []) rfl (fun _ => rfl) (by rintro _ ⟨⟩) (by rintro _ _ ⟨⟩) (.inl rfl)
    simpa using this

theorem quiet_new (b : Bool) : Quiet (newServerConn b) [] where
  wf := wellFormed_new b
  started := nofun
  away := nofun
  silent := nofun
  disciplined := by
    refine ⟨nodup_nil, fun tr₁ tr₂ he _ => ?_, fun tr₁ tr₂ id he hid => ?_⟩
    · rw [(append_eq_nil_iff.1 he.symm).2]
      rfl
    · rw [(append_eq_nil_iff.1 he.symm).1] at hid
      cases hid

/-- Over a run whose steps are all disciplined, each stream is started once, none after GOAWAY, and nothing is
written on a stream that was reset. -/
theorem server_disciplined {b : Bool} {es : List Label}
    (h : Along markedStep (fun sc l => sc.disciplined l = true) (newServerConn b) es) :
    Always markedStep (fun _ tr => Disciplined tr) (newServerConn b) es :=
  always_mono (fun _ _ hi => hi.disciplined)
    (always_of_along Quiet (fun _ _ _ _ _ hi hd hs => quiet_step hi hd hs) (quiet_new b) h)

def resetFrame (streamID : Nat) (h : streamID < 2 ^ 31) : Frame :=
  { type := 3, flags := 0, streamID, payload := [0, 0, 0, 8], streamID_lt := h, length_lt := (by decide : 4 < 2 ^ 24) }

/-- A request is answered, and reset when its goroutine is done; then the peer breaks the rules. -/
def orderlyRun : List Label :=
  [.recv getRequest, .act 0 (.respond ⟨200, [], []⟩), .act 0 .release, .recv (resetFrame 1 first_lt),
    .recv { type := 9, flags := 0, streamID := 1, payload := [] }]

theorem server_disciplined_sample :
    (run markedStep (newServerConn true) orderlyRun).map (fun r => (starts r.2, resets r.2, wentAway r.2)) =
        some ([1], [1], true) ∧
      Always markedStep (fun _ tr => Disciplined tr) (newServerConn true) orderlyRun :=
  ⟨by decide +kernel, server_disciplined (by decide +kernel)⟩

/-- CONNECT with a protocol, the request left open. -/
def extConnect : Frame :=
  { type := 1, flags := 0x4, streamID := 1,
    payload := [0x02, 7] ++ ascii "CONNECT" ++ [0x86, 0x84, 0x01, 1, 0x61, 0x00, 9] ++ ascii ":protocol" ++
      [9] ++ ascii "websocket"
    length_lt := by decide +kernel }

/-- An end of stream before the handler upgrades the request. -/
def endedEarly : List Label := [.recv extConnect, .recv { type := 0, flags := 0x1, streamID := 1, payload := [] }]

/-- A request behind the frame the connection is closed for. -/
def behindGoAway : List Label := [.recv { type := 9, flags := 0, streamID := 1, payload := [] }, .recv getRequest]

/-- A reset before the handler returns. -/
def resetEarly : List Label :=
  [.recv getRequest, .recv (resetFrame 1 first_lt), .act 0 (.respond ⟨200, [], []⟩)]

/-- The extended CONNECT is started twice, the request behind the GOAWAY frame is started, and the request that
was reset is answered. -/
theorem server_undisciplined :
    ¬ Always markedStep (fun _ tr => Disciplined tr) (newServerConn true) endedEarly ∧
      ¬ Always markedStep (fun _ tr => Disciplined tr) (newServerConn true) behindGoAway ∧
      ¬ Always markedStep (fun _ tr => Disciplined tr) (newServerConn true) resetEarly := by
  have h1 : (run markedStep (newServerConn true) endedEarly).map (fun r => starts r.2) = some [1, 1] := by
    decide +kernel
  have h2 : (run markedStep (newServerConn true) behindGoAway).map
      (fun r => (wentAway (r.2.take 2), starts (r.2.drop 2))) = some (true, [1]) := by decide +kernel
  have h3 : (run markedStep (newServerConn true) resetEarly).map
      (fun r => (resets (r.2.take 3), written (r.2.drop 3))) = some ([1], [1]) := by decide +kernel
  refine ⟨fun h => ?_, fun h => ?_, fun h => ?_⟩
  · obtain ⟨⟨sc, tr⟩, hr, he⟩ := Option.map_eq_some_iff.1 h1
    have hd := (h endedEarly sc tr (prefix_refl _) hr).once
    rw [he] at hd
    exact absurd hd (by decide)
  · obtain ⟨⟨sc, tr⟩, hr, he⟩ := Option.map_eq_some_iff.1 h2
    obtain ⟨haway, hstart⟩ := Prod.mk.inj he
    have hd := (h behindGoAway sc tr (prefix_refl _) hr).noStart _ _ (take_append_drop 2 tr).symm haway
    rw [hstart] at hd
    cases hd
  · obtain ⟨⟨sc, tr⟩, hr, he⟩ := Option.map_eq_some_iff.1 h3
    obtain ⟨hres, hwrite⟩ := Prod.mk.inj he
    refine (h resetEarly sc tr (prefix_refl _) hr).noWrite _ _ 1 (take_append_drop 3 tr).symm ?_ ?_
    · rw [hres]
      exact mem_singleton_self 1
    · rw [hwrite]
      exact mem_singleton_self 1

end Mach.H2.Server
