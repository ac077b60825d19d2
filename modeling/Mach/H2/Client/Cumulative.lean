import Mach.H2.Client.WellFormed
/-!
# SETTINGS over a whole connection

Each parameter should keep the last value the server sent for it, or its default
if there was none, and with INITIAL_WINDOW_SIZE the windows of the open streams
should move by what it changed. `handleSettings`, though, reads a frame into a
record of defaults and copies the whole record: a parameter the frame leaves out
goes back to its default. `restates` names the frames that leave out no parameter
with another value.
-/

namespace Mach.H2

/-! ## Reading a payload -/

namespace Settings

/-- The record after parameters, each with its last value. -/
def after (st : Settings) (ps : List (Nat × Nat)) : Settings :=
  { st with
    tableSize := last id 0x1 st.tableSize ps
    enablePush := last (· != 0) 0x2 st.enablePush ps
    maxStreams := last id 0x3 st.maxStreams ps
    windowSize := last id 0x4 st.windowSize ps
    frameSize := last id 0x5 st.frameSize ps
    headerSize := last id 0x6 st.headerSize ps
    enableConnect := last (· != 0) 0x8 st.enableConnect ps }

theorem after_append (st : Settings) (ps qs : List (Nat × Nat)) : st.after (ps ++ qs) = (st.after ps).after qs := by
  simp [after, last_append]

theorem applySetting_eq {st st' : Settings} {key val : Nat} (h : st.applySetting key val = .ok st') :
    st' = st.after [(key, val)] := by
  have hflag : ¬ (val ≠ 0 ∧ val ≠ 1) → (val == 1) = (val != 0) := by
    intro hval
    simp only [ne_eq, not_and_or, not_not] at hval
    obtain rfl | rfl := hval <;> rfl
  unfold applySetting at h
  repeat' split at h
  all_goals cases h
  all_goals simp_all [after, last]

/-- Reading a payload gives each parameter its last value in it. -/
theorem read_eq {st st' : Settings} {payload : List UInt8} (h : st.read payload = .ok st') :
    st' = st.after (params payload) := by
  induction st, payload using Settings.read.induct with
  | case1 st a b c d e f rest code happ => simp [read, happ] at h
  | case2 st a b c d e f rest st1 happ ih =>
    simp only [read, happ] at h
    rw [ih h, params, applySetting_eq happ, ← after_append]
    rfl
  | case3 payload st hne =>
    rw [read] at h
    · rw [params]
      · exact (Except.ok.inj h).symm
      · exact hne
    · exact hne

/-- The parameters that are left out have their defaults. -/
def restates (st : Settings) (ps : List (Nat × Nat)) : Bool :=
  (carries 0x1 ps || st.tableSize == 4096) && (carries 0x2 ps || st.enablePush == false) &&
  (carries 0x3 ps || st.maxStreams == 100) && (carries 0x4 ps || st.windowSize == 65535) &&
  (carries 0x5 ps || st.frameSize == 16384) && (carries 0x6 ps || st.headerSize == 0) &&
  (carries 0x8 ps || st.enableConnect == false)

/-- Read into the defaults or into the record, the payload gives the same. -/
theorem restates_iff {st : Settings} (hack : st.ack = false) (ps : List (Nat × Nat)) :
    st.restates ps = true ↔ st.after ps = ({} : Settings).after ps := by
  simp only [restates, after, Settings.mk.injEq, last_eq_iff, hack, true_and, Bool.and_eq_true, Bool.or_eq_true,
    beq_iff_eq, and_assoc]

end Settings

/-! ## What a step does to the settings -/

namespace ClientConn
open Lib Hpack Headkit List

/-- No SETTINGS are among the frames handled, other than acknowledgements. -/
def Mute (out : List Obs) : Prop := ∀ f, .recv f ∈ out → ∀ st, f.body = .ok (.settings st) → st.ack = true

/-- A step leaves the settings alone, or handles SETTINGS. -/
inductive Configures (c : Conn) (l : Label) (c' : Conn) (out : List Obs) : Prop
  | mute : c'.serverS = c.serverS → c'.enc.maxTableSize = c.enc.maxTableSize → Mute out → Configures c l c' out
  | settings {f q st} : l = .recv f q → f.body = .ok (.settings st) → st.ack = false → out = [.recv f] →
      c'.serverS = st → c'.enc.maxTableSize = st.tableSize →
      (c.table.Nodup → ∀ r ∈ c.table, (c'.ctxs r).streamWindow =
        (c.ctxs r).streamWindow + ((st.windowSize : Int) - c.serverS.windowSize)) → Configures c l c' out

section Mute

variable {f : Frame} {out : List Obs}

theorem mute_nil : Mute [] := nofun

theorem mute_ended (id : Nat) : Mute [.ended id] := by simp [Mute]

theorem Mute.append {out' : List Obs} (h : Mute out) (h' : Mute out') : Mute (out ++ out') :=
  fun f hf => (mem_append.1 hf).elim (h f) (h' f)

theorem mute_cons {b : Body} (hb : f.body = .ok b) (hi : ∀ st, b = .settings st → st.ack = true) (h : Mute out) :
    Mute (.recv f :: out) := by
  intro g hg st hst
  obtain he | hg := mem_cons.1 hg
  · cases he
    rw [hb, Except.ok.injEq] at hst
    exact hi st hst
  · exact h g hg st hst

theorem ack_of_idle {b : Body} (hi : Idle b) (st : Settings) (h : b = .settings st) : st.ack = true := by
  subst h
  exact hi

theorem mute_stream (h0 : f.streamID ≠ 0) (h : Mute out) : Mute (.recv f :: out) := by
  intro g hg st hst
  obtain he | hg := mem_cons.1 hg
  · cases he
    exact absurd (fits_body hst).2 h0
  · exact h g hg st hst

theorem mute_updateWindow (c : Conn) (streamID : Nat) (size : Int) (queued : Bool) :
    Mute (c.updateWindow streamID size queued) := by
  unfold Conn.updateWindow
  split
  · exact mute_nil
  · split <;> simp [Mute]

theorem mute_chargeConn (c : Conn) (len : Nat) (queued : Bool) : Mute (c.chargeConn len queued).2 := by
  unfold Conn.chargeConn
  dsimp only
  split
  · exact mute_updateWindow c _ _ _
  · exact mute_nil

theorem mute_chargeStream (c : Conn) (r streamID len : Nat) (queued : Bool) :
    Mute (c.chargeStream r streamID len queued).2 := by
  unfold Conn.chargeStream
  dsimp only
  split
  · exact mute_updateWindow c _ _ _
  · exact mute_nil

end Mute

variable {c c' : Conn} {l : Label} {q : Queue} {init : List (Nat × Nat)} {tr : List Obs} {current st₀ : Settings}
  {out : List Obs}

theorem Configures.kept (hk : Kept c c') (h : Mute out) :
    Configures c l c' out :=
  .mute hk.serverS (congrArg HPACK.maxTableSize hk.enc) h

/-- The settings look at few fields of the state after the step. -/
theorem Configures.of_fields {c1 : Conn} (h : Configures c l c1 out)
    (hserver : c'.serverS = c1.serverS) (henc : c'.enc = c1.enc) (hctxs : c'.ctxs = c1.ctxs) :
    Configures c l c' out := by
  cases h with
  | mute h1 h2 hm => exact .mute (hserver.trans h1) (henc ▸ h2) hm
  | settings hl hb hack hout h1 h2 hwin => exact .settings hl hb hack hout (hserver.trans h1) (henc ▸ h2) (hctxs ▸ hwin)

theorem configures_received {f : Frame} (hr : Received c f q c' out) :
    Configures c (.recv f q) c' out := by
  cases hr with
  | refused => exact .mute rfl rfl mute_nil
  | quiet hb hi hq => exact .kept hq.toKept (mute_cons hb (ack_of_idle hi) mute_nil)
  | rejected hq => exact .mute hq.serverS (congrArg HPACK.maxTableSize hq.enc) mute_nil
  | stopped hb hi hq =>
    exact .mute hq.serverS (congrArg HPACK.maxTableSize hq.enc) (mute_cons hb (ack_of_idle hi) mute_nil)
  | @settings st c1 hb hack hq hwin =>
    exact .settings rfl hb hack rfl hq.serverS (by rw [hq.enc, HPACK.maxTableSize_setMaxTableSize]) hwin
  | @goAway c1 last code hb hq =>
    refine .mute hq.serverS (congrArg HPACK.maxTableSize hq.enc) (mute_cons hb nofun fun g hg => ?_)
    obtain ⟨r, -, he⟩ := mem_map.1 hg
    cases he
  | @data c1 d hb hq hdead =>
    exact .kept (hq.toKept.trans (kept_chargeConn c1 f.payload.length q.conn)) (mute_cons hb nofun (mute_chargeConn _ _ _))
  | found hb h0 hq hget hst => exact .mute hq.serverS (congrArg HPACK.maxTableSize hq.enc) mute_nil

theorem configures_read {f : Frame} {r : Nat} {b : Body} {err : Option Err}
    (h0 : f.streamID ≠ 0) (hr : Read c f r q b c' err out) :
    Configures c l c' (.recv f :: out) := by
  cases hr with
  | quiet hq => exact .kept hq.toKept (mute_stream h0 mute_nil)
  | pushed _ hq => exact .mute hq.serverS (congrArg HPACK.maxTableSize hq.enc) (mute_stream h0 mute_nil)
  | charged =>
    exact .kept ((kept_chargeStream _ _ _ _ _).trans (kept_chargeConn _ _ _))
      (mute_stream h0 ((mute_chargeStream _ _ _ _ _).append (mute_chargeConn _ _ _)))
  | padding => exact .kept (kept_chargeConn _ _ _) (mute_stream h0 (mute_chargeConn _ _ _))

theorem Aside.configures {id : Nat} (h : Aside c c' id out) : Configures c l c' out := by
  refine .mute h.serverS (congrArg HPACK.maxTableSize h.enc) ?_
  rcases h.out with ho | ho <;> rw [ho]
  · exact mute_nil
  · exact mute_ended id

theorem configures_step (hw : WellFormed c) (h : step c l = some (c', out)) :
    Configures c l c' out := by
  cases stepped_step h with
  | write =>
    unfold Conn.beginRequest
    dsimp only
    split
    · exact .mute rfl rfl mute_nil
    · split
      · exact .mute rfl rfl mute_nil
      · split <;> exact .mute rfl rfl mute_nil
  | opened => exact .mute rfl rfl (by simp [Mute])
  | abandoned => exact .mute rfl rfl (mute_ended _)
  | encode => exact .mute rfl (HPACK.maxTableSize_appendHeader c.enc [] _ _) mute_nil
  | cancel => exact (aside_cancel c _).configures
  | cancelStep => exact (aside_cancelStep c _).configures
  | recv hr => exact configures_received hr
  | read hrd hread =>
    have hfits := hw.reader
    rw [hrd] at hfits
    exact (configures_read hfits.2.1 hread).of_fields rfl rfl rfl
  | settle => exact ((aside_settle c _ _ _).configures).of_fields rfl rfl rfl
  | _ => exact .mute rfl rfl mute_nil

/-! ## Every run -/

def parametersOf (f : Frame) : List (Nat × Nat) :=
  match f.body with
  | .ok (.settings st) => if st.ack then [] else params f.payload
  | _ => []

def parameters (tr : List Obs) : List (Nat × Nat) := tr.flatMap fun | .recv f => parametersOf f | _ => []

theorem parameters_append (tr tr' : List Obs) : parameters (tr ++ tr') = parameters tr ++ parameters tr' := by
  simp [parameters]

theorem Mute.parameters (h : Mute out) : parameters out = [] := by
  refine flatMap_eq_nil_iff.2 fun o ho => ?_
  cases o with
  | recv f =>
    change parametersOf f = []
    unfold parametersOf
    split
    · rename_i st hb
      rw [h f ho st hb]
      rfl
    · rfl
  | _ => rfl

/-- The settings in use are the last received of each parameter, from those of the handshake. -/
structure Cumulative (init : List (Nat × Nat)) (c : Conn) (tr : List Obs) : Prop where
  serverS : c.serverS = ({} : Settings).after (init ++ parameters tr)
  enc : c.enc.maxTableSize = last id 0x1 4096 (init ++ parameters tr)

def initialWindow (ps : List (Nat × Nat)) : Nat := last id 0x4 65535 ps

theorem Cumulative.windowSize (h : Cumulative init c tr) :
    c.serverS.windowSize = initialWindow (init ++ parameters tr) := by
  rw [h.serverS]
  rfl

/-- What a step should do: keep the settings cumulative, and move the windows of the open streams with SETTINGS. -/
structure Configured (init : List (Nat × Nat)) (c : Conn) (tr : List Obs) (l : Label) (c' : Conn) (out : List Obs) :
    Prop where
  cumulative : Cumulative init c' (tr ++ out)
  windows : ∀ f q st, l = .recv f q → f.body = .ok (.settings st) → st.ack = false → .recv f ∈ out →
    ∀ r ∈ c.table, (c.ctxs r).state ≠ .streamClosed → (c'.ctxs r).streamWindow =
      (c.ctxs r).streamWindow +
        ((initialWindow (init ++ parameters (tr ++ out)) : Int) - initialWindow (init ++ parameters tr))

/-- SETTINGS that are handled leave out no parameter whose value in use is not the default. -/
def Conn.restates (c : Conn) : Label → Bool
  | .recv f q =>
    match f.body with
    | .ok (.settings st) => st.ack || !(c.recv f q).2.contains (.recv f) || c.serverS.restates (params f.payload)
    | _ => true
  | _ => true

theorem recv_eq_of_step {f : Frame}
    (h : step c (.recv f q) = some (c', out)) : c.recv f q = (c', out) := by
  simp only [step] at h
  split at h
  · exact Option.some.inj h
  · cases h

theorem restates_of_mute (h : step c l = some (c', out)) (hm : Mute out) : c.restates l = true := by
  cases l with
  | recv f q =>
    simp only [Conn.restates]
    split
    · rename_i st hb
      by_cases hack : st.ack = true
      · simp [hack]
      · have hnot : .recv f ∉ out := fun hf => hack (hm f hf st hb)
        simp [recv_eq_of_step h, hnot]
    · rfl
  | _ => rfl

theorem Cumulative.of_mute (h : Cumulative init c tr)
    (hserver : c'.serverS = c.serverS) (henc : c'.enc.maxTableSize = c.enc.maxTableSize) (hm : Mute out) :
    Cumulative init c' (tr ++ out) := by
  refine ⟨?_, ?_⟩
  · rw [hserver, h.serverS, parameters_append, hm.parameters, append_nil]
  · rw [henc, h.enc, parameters_append, hm.parameters, append_nil]

/-- The record of SETTINGS that are not an acknowledgement is read into the defaults. -/
theorem settings_eq {f : Frame} {st : Settings} (hb : f.body = .ok (.settings st)) (hack : st.ack = false) :
    st = ({} : Settings).after (params f.payload) := by
  have hst := Settings.read_eq (read_of_settings hb)
  have hflag : f.isAck = false := by
    rw [hst] at hack
    exact hack
  rw [hflag] at hst
  exact hst

/-- In a state with cumulative settings, a step does what it should exactly if SETTINGS leave nothing out. -/
theorem configured_iff (hw : WellFormed c)
    (hc : Cumulative init c tr) (h : step c l = some (c', out)) :
    Configured init c tr l c' out ↔ c.restates l = true := by
  cases configures_step hw h with
  | mute hserver henc hm =>
    refine ⟨fun _ => restates_of_mute h hm, fun _ => ⟨hc.of_mute hserver henc hm, fun f q st _ hb hack hf => ?_⟩⟩
    rw [hm f hf st hb] at hack
    cases hack
  | @settings f q st hl hb hack hout hserver henc hwin =>
    subst hl hout
    have hst := settings_eq hb hack
    have hps : parameters (tr ++ [.recv f]) = parameters tr ++ params f.payload := by
      simp [parameters, parametersOf, hb, hack]
    have hall : ({} : Settings).after (init ++ parameters (tr ++ [.recv f])) = c.serverS.after (params f.payload) := by
      rw [hps, ← append_assoc, Settings.after_append, ← hc.serverS]
    have hold : c.serverS.ack = false := by
      rw [hc.serverS]
      rfl
    have hcond : c.restates (.recv f q) = c.serverS.restates (params f.payload) := by
      simp [Conn.restates, hb, hack, recv_eq_of_step h]
    rw [hcond, Settings.restates_iff hold]
    constructor
    · intro hconf
      rw [← hall, ← hconf.cumulative.serverS, hserver]
      exact hst
    · intro hsame
      have hnew : st = ({} : Settings).after (init ++ parameters (tr ++ [.recv f])) := by rw [hall, hsame]; exact hst
      have hcum : Cumulative init c' (tr ++ [.recv f]) := by
        refine ⟨hserver.trans hnew, ?_⟩
        rw [henc, hnew]
        rfl
      refine ⟨hcum, fun f' q' st' _ _ _ _ r hr _ => ?_⟩
      rw [hwin hw.table_nodup r hr, ← hcum.windowSize, ← hc.windowSize, hserver]

theorem cumulative_newConn {payload₀ : List UInt8} (h₀ : Settings.read {} payload₀ = .ok st₀) :
    Cumulative (params payload₀) (newConn current st₀) [] := by
  have hst := Settings.read_eq h₀
  have hnil : params payload₀ ++ parameters [] = params payload₀ := append_nil _
  refine ⟨?_, ?_⟩
  · rw [hnil]
    exact hst
  · rw [hnil, newConn, HPACK.maxTableSize_setMaxTableSize, hst]
    rfl

theorem wellFormed_run {es : List Label} (h : run step (newConn current st₀) es = some (c, tr)) : WellFormed c :=
  run_keeps (fun c _ => WellFormed c) (fun _ _ _ _ _ hw hs => wellFormed_step hw hs) (wellFormed_newConn current st₀) h

/-- After a handshake with the server's first SETTINGS, every step of a run does what it should with the settings
exactly if no SETTINGS handled in the run leave out a parameter that is in use. -/
theorem settings_cumulative_iff {payload₀ : List UInt8} (h₀ : Settings.read {} payload₀ = .ok st₀) (es : List Label) :
    (∀ pre l c tr c' out, pre ++ [l] <+: es → run step (newConn current st₀) pre = some (c, tr) →
      step c l = some (c', out) → Configured (params payload₀) c tr l c' out) ↔
    Along step (fun c l => c.restates l = true) (newConn current st₀) es := by
  constructor
  · intro h pre l c tr hpre hr hsome
    obtain ⟨⟨c', out⟩, hs⟩ := Option.isSome_iff_exists.1 hsome
    -- The settings are cumulative in `c`, at the start or after the step before.
    have hc : Cumulative (params payload₀) c tr := by
      induction pre using List.reverseRecOn with
      | nil =>
        cases hr
        exact cumulative_newConn h₀
      | append_singleton pre l1 _ =>
        obtain ⟨c1, tr1, out1, hr1, hs1, rfl⟩ := run_concat_eq hr
        exact (h pre l1 c1 tr1 c out1 ((prefix_append _ [l]).trans hpre) hr1 hs1).cumulative
    exact (configured_iff (wellFormed_run hr) hc hs).1 (h pre l c tr c' out hpre hr hs)
  · intro h pre l c tr c' out hpre hr hs
    have hinv := always_of_along (fun c tr => WellFormed c ∧ Cumulative (params payload₀) c tr)
      (fun c tr l c' out hi hp hs =>
        ⟨wellFormed_step hi.1 hs, ((configured_iff hi.1 hi.2 hs).2 hp).cumulative⟩)
      ⟨wellFormed_newConn current st₀, cumulative_newConn h₀⟩ h
    obtain ⟨hw, hc⟩ := hinv pre c tr ((prefix_append pre [l]).trans hpre) hr
    exact (configured_iff hw hc hs).2 (h pre l c tr hpre hr (by simp [hs]))

/-- SETTINGS on a connection with parameters. -/
def settingsFrame (payload : List UInt8) (h : payload.length < 2 ^ 24 := by decide) : Frame :=
  { type := 4, flags := 0, streamID := 0, payload, length_lt := h }

/-- MAX_CONCURRENT_STREAMS of 50, then of 60 with an INITIAL_WINDOW_SIZE of 65536. -/
def settingsRun : List Label :=
  [.recv (settingsFrame [0, 3, 0, 0, 0, 50]) ⟨true, true⟩,
   .recv (settingsFrame [0, 3, 0, 0, 0, 60, 0, 4, 0, 1, 0, 0]) ⟨true, true⟩]

theorem settings_cumulative_sample : Settings.read {} [] = .ok {} ∧
    ∀ pre l c tr c' out, pre ++ [l] <+: settingsRun → run step (newConn {} {}) pre = some (c, tr) →
      step c l = some (c', out) → Configured (params []) c tr l c' out :=
  ⟨rfl, (settings_cumulative_iff rfl settingsRun).2 (by decide +kernel)⟩

/-- The handshake sets INITIAL_WINDOW_SIZE to 1000, and a stream is opened. SETTINGS with another parameter put the
value in use and the stream's window up to 65535. -/
theorem partial_settings_reset : ∃ c tr, Settings.read {} [0, 4, 0, 0, 3, 232] = .ok { windowSize := 1000 } ∧
    run step (newConn {} { windowSize := 1000 }) [.submit true false, .write, .writeStep true,
      .recv (settingsFrame [0, 3, 0, 0, 0, 50]) ⟨true, true⟩] = some (c, tr) ∧
    (c.ctxs 0).streamWindow = 65535 ∧ initialWindow (params [0, 4, 0, 0, 3, 232] ++ parameters tr) = 1000 ∧
    ¬ Cumulative (params [0, 4, 0, 0, 3, 232]) c tr := by
  have h : (run step (newConn {} { windowSize := 1000 }) [.submit true false, .write, .writeStep true,
      .recv (settingsFrame [0, 3, 0, 0, 0, 50]) ⟨true, true⟩]).map (fun r => ((r.1.ctxs 0).streamWindow,
        initialWindow (params [0, 4, 0, 0, 3, 232] ++ parameters r.2), r.1.serverS.windowSize)) =
      some (65535, 1000, 65535) := by decide +kernel
  obtain ⟨⟨c, tr⟩, hr, he⟩ := Option.map_eq_some_iff.1 h
  simp only [Prod.mk.injEq] at he
  obtain ⟨hwin, hinit, hserver⟩ := he
  have hread : Settings.read {} [0, 4, 0, 0, 3, 232] = .ok { windowSize := 1000 } := by decide +kernel
  refine ⟨c, tr, hread, hr, hwin, hinit, fun hc => ?_⟩
  have hlast := hc.windowSize
  rw [hserver, hinit] at hlast
  cases hlast

end ClientConn

end Mach.H2
