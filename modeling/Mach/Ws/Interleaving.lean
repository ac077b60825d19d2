import Mach.Ws.Writers
/-!
# Messages of concurrent writers

What the peer makes of any order of the frames of several goroutines. A message
arrives whole if no data frame of another goroutine comes between its frames;
the first one that does is the beginning of a message, and the peer gives up on
it. The induction is over the order of the frames, with the message that is open
and the calls each goroutine has still to make.
-/

namespace Mach.Ws

open Lib List Function Option

variable {op : Opcode} {sofar : List UInt8} {parts : List Payload} {st : Option Message}
  {j : Job} {jobs' : Nat → List Job} {m : Message} {ms : List Message} {owner : Option Nat} {fs : List WFrame}

/-! ## Calls that write something -/

/-- What a call that is not refused writes: a control frame, or a message in parts. -/
inductive Job where
  | control (pong : Bool) (data : Payload)
  | message (op : Opcode) (frame : Payload) (frames : List Payload)

def controlFrame (pong : Bool) (data : Payload) : WFrame := ⟨true, if pong then opcodePong else opcodePing, data⟩

def Job.frames : Job → List WFrame
  | .control pong data => [controlFrame pong data]
  | .message op frame frames => fragments op frame frames

def joined (frames : List Payload) : List UInt8 := (frames.map Payload.octets).flatten

def Job.written : Job → Option Message
  | .control _ _ => none
  | .message op frame frames => some (op, frame.octets ++ joined frames)

def Call.job : Call → Option Job
  | .writeMessage messageType data => if isData messageType then some (.message messageType data []) else none
  | .writeFragmentedMessage messageType [] =>
    if isData messageType then some (.message messageType ⟨[], empty_lt⟩ []) else none
  | .writeFragmentedMessage messageType (frame :: frames) =>
    if isData messageType then some (.message messageType frame frames) else none
  | .writeControl pong data => if 125 < data.octets.length then none else some (.control pong data)

theorem Call.frames_eq (c : Call) : c.frames = (c.job.map Job.frames).getD [] := by
  match c with
  | .writeMessage t d => cases h : isData t <;> simp [Call.frames, Call.job, h, Job.frames]
  | .writeFragmentedMessage t [] => cases h : isData t <;> simp [Call.frames, Call.job, h, Job.frames]
  | .writeFragmentedMessage t (d :: ds) => cases h : isData t <;> simp [Call.frames, Call.job, h, Job.frames]
  | .writeControl pong d =>
    simp only [Call.frames, Call.job]
    split <;> rfl

theorem Call.written_eq (c : Call) : c.written = c.job.bind Job.written := by
  match c with
  | .writeMessage t _ | .writeFragmentedMessage t [] | .writeFragmentedMessage t (_ :: _) =>
    cases h : isData t <;> simp [Call.written, Call.job, h, Job.written, joined]
  | .writeControl pong d =>
    simp only [Call.written, Call.job]
    split <;> rfl

theorem flatMap_frames (calls : List Call) : calls.flatMap Call.frames = (calls.filterMap Call.job).flatMap Job.frames := by
  induction calls with
  | nil => rfl
  | cons c calls ih =>
    rw [flatMap_cons, ih, Call.frames_eq]
    cases h : c.job with
    | none => rw [filterMap_cons_none h]; rfl
    | some j => rw [filterMap_cons_some h, flatMap_cons]; rfl

theorem filterMap_written (calls : List Call) :
    calls.filterMap Call.written = (calls.filterMap Call.job).filterMap Job.written := by
  rw [filterMap_filterMap]
  exact filterMap_congr fun c _ => c.written_eq

theorem continuations_legal (frames : List Payload) : ∀ f ∈ continuations frames, f.Legal := by
  induction frames with
  | nil => nofun
  | cons frame frames ih =>
    rw [continuations, forall_mem_cons]
    exact ⟨.inl rfl, ih⟩

theorem fragments_legal (hop : isData op = true) (frame : Payload) (frames : List Payload) :
    ∀ f ∈ fragments op frame frames, f.Legal := by
  rw [fragments, forall_mem_cons]
  exact ⟨.inl hop, continuations_legal frames⟩

def Job.Legal : Job → Prop
  | .control _ data => data.octets.length ≤ 125
  | .message op _ _ => isData op = true

theorem Call.legal_of_job {c : Call} (h : c.job = some j) : j.Legal := by
  unfold Call.job at h
  split at h <;> split at h <;> cases h
  case h_4.isFalse.refl hlen => exact Nat.not_lt.1 hlen
  all_goals assumption

theorem Call.frames_legal (c : Call) : ∀ f ∈ c.frames, f.Legal := by
  rw [c.frames_eq]
  cases hj : c.job with
  | none => nofun
  | some j =>
    have hlegal := legal_of_job hj
    cases j with
    | control pong data =>
      refine forall_mem_singleton.2 (.inr ⟨?_, rfl, hlegal⟩)
      cases pong
      · exact .inl rfl
      · exact .inr rfl
    | message op frame frames => exact fragments_legal hlegal _ _

/-! ## The message that is open -/

/-- A message that a goroutine has begun: what is written of it, the next part and the others. -/
structure Opened where
  owner : Nat
  op : Opcode
  sofar : List UInt8
  next : Payload
  rest : List Payload

/-- The message after a frame, with the parts that are left. -/
def openedOf (owner : Nat) (op : Opcode) (sofar : List UInt8) : List Payload → Option Opened
  | [] => none
  | next :: rest => some ⟨owner, op, sofar, next, rest⟩

def Opened.message (o : Opened) : Message := (o.op, o.sofar ++ joined (o.next :: o.rest))

/-- What the peer has of the message. -/
def Opened.begun (o : Opened) : Message := (o.op, o.sofar)

/-- The frames a goroutine has still to write. -/
def todoOf (pos : Option Opened) (jobs : Nat → List Job) (g : Nat) : List WFrame :=
  (match pos with
    | some o => if o.owner = g then continuations (o.next :: o.rest) else []
    | none => []) ++ (jobs g).flatMap Job.frames

/-- An order of the frames of all goroutines. -/
def Interleaved (pos : Option Opened) (jobs : Nat → List Job) (tr : List (Nat × WFrame)) : Prop :=
  ∀ g, (tr.filter (·.1 = g)).map (·.2) = todoOf pos jobs g

theorem todoOf_openedOf (owner : Nat) (op : Opcode) (sofar : List UInt8) (parts : List Payload) (jobs : Nat → List Job)
    (g : Nat) : todoOf (openedOf owner op sofar parts) jobs g =
      (if owner = g then continuations parts else []) ++ (jobs g).flatMap Job.frames := by
  cases parts with
  | nil => simp [todoOf, openedOf, continuations]
  | cons next rest => rfl

variable {pos : Option Opened} {jobs : Nat → List Job} {g : Nat} {f : WFrame} {tr : List (Nat × WFrame)}

section Front

variable (h : Interleaved pos jobs ((g, f) :: tr))
include h

theorem Interleaved.head :
    todoOf pos jobs g = f :: (tr.filter (·.1 = g)).map (·.2) := by
  rw [← h g]
  simp

theorem Interleaved.other {g' : Nat} (hne : g ≠ g') :
    (tr.filter (·.1 = g')).map (·.2) = todoOf pos jobs g' := by
  rw [← h g']
  simp [hne]

/-- The frames left of the goroutine that wrote, and those of the others. -/
theorem Interleaved.tail {pos' : Option Opened}
    (hown : todoOf pos jobs g = f :: todoOf pos' jobs' g) (hother : ∀ g', g ≠ g' → todoOf pos' jobs' g' = todoOf pos jobs g') :
    Interleaved pos' jobs' tr := by
  intro g'
  by_cases hg : g = g'
  · subst hg
    exact (List.cons.inj (h.head.symm.trans hown)).2
  · rw [h.other hg, hother g' hg]

/-- Whose frame comes next: the next part of the open message, a control frame, or the beginning of a message. -/
theorem interleaved_cons :
    (∃ o, pos = some o ∧ o.owner = g ∧ f = ⟨o.rest.isEmpty, opcodeContinuation, o.next⟩ ∧
      Interleaved (openedOf g o.op (o.sofar ++ o.next.octets) o.rest) jobs tr) ∨
    (∃ pong data js, jobs g = .control pong data :: js ∧ f = controlFrame pong data ∧
      Interleaved pos (Function.update jobs g js) tr) ∨
    ((∀ o, pos = some o → o.owner ≠ g) ∧ ∃ op frame frames js, jobs g = .message op frame frames :: js ∧
      f = ⟨frames.isEmpty, op, frame⟩ ∧
      (pos = none → Interleaved (openedOf g op frame.octets frames) (Function.update jobs g js) tr)) := by
  have hhead := h.head
  by_cases hpos : ∃ o, pos = some o ∧ o.owner = g
  · obtain ⟨o, rfl, rfl⟩ := hpos
    have htodo : todoOf (some o) jobs o.owner = ⟨o.rest.isEmpty, opcodeContinuation, o.next⟩ ::
        todoOf (openedOf o.owner o.op (o.sofar ++ o.next.octets) o.rest) jobs o.owner := by
      rw [todoOf_openedOf]
      simp [todoOf, continuations]
    obtain rfl := (List.cons.inj (hhead.symm.trans htodo)).1
    refine .inl ⟨o, rfl, rfl, rfl, h.tail htodo fun g' hg => ?_⟩
    rw [todoOf_openedOf, if_neg hg, todoOf, if_neg hg]
  · -- the goroutine is between two calls
    have hnot : ∀ o, pos = some o → o.owner ≠ g := fun o ho hg => hpos ⟨o, ho, hg⟩
    have htodo (jobs : Nat → List Job) : todoOf pos jobs g = (jobs g).flatMap Job.frames := by
      cases pos with
      | none => rfl
      | some o => rw [todoOf, if_neg (hnot o rfl), nil_append]
    have hrest (js : List Job) {g' : Nat} (hg : g ≠ g') (pos : Option Opened) :
        todoOf pos (Function.update jobs g js) g' = todoOf pos jobs g' := by
      simp only [todoOf, update_of_ne (Ne.symm hg)]
    rw [htodo] at hhead
    match hj : jobs g with
    | [] =>
      rw [hj] at hhead
      cases hhead
    | .control pong data :: js =>
      have hnext : todoOf pos jobs g = controlFrame pong data :: todoOf pos (Function.update jobs g js) g := by
        rw [htodo, htodo, update_self, hj]
        rfl
      obtain rfl := (List.cons.inj (h.head.symm.trans hnext)).1
      exact .inr (.inl ⟨pong, data, js, rfl, rfl, h.tail hnext fun g' hg => hrest js hg pos⟩)
    | .message op frame frames :: js =>
      have hf : f = ⟨frames.isEmpty, op, frame⟩ := by
        rw [hj] at hhead
        exact (List.cons.inj hhead).1.symm
      refine .inr (.inr ⟨hnot, op, frame, frames, js, rfl, hf, ?_⟩)
      rintro rfl
      refine h.tail ?_ fun g' hg => ?_
      · rw [htodo, todoOf_openedOf, if_pos rfl, update_self, hj, hf]
        rfl
      · rw [todoOf_openedOf, if_neg hg, update_of_ne (Ne.symm hg)]
        rfl

end Front

/-! ## What the peer makes of it -/

variable {cfg : Config}

/-- A message that the peer accepts. -/
structure Good (cfg : Config) (m : Message) : Prop where
  data : isData m.1 = true
  opcode : m.1 ≠ opcodeContinuation
  sound : Sound cfg m

theorem Good.isControl (hm : Good cfg m) : isControl m.1 = false := by
  obtain h | h | h := isData_cases hm.data <;> rw [h] <;> decide

theorem Room.mono {m n : Nat} (h : Room cfg n) (hle : m ≤ n) : Room cfg m := by
  rw [Room] at h ⊢
  omega

/-- The message that a frame with no parts behind it completes. -/
def completed (m : Message) (parts : List Payload) : List Message := if parts.isEmpty then [m] else []

theorem receive_part {frames : List Payload} (g : Nat) (hdata : isControl f.op = false)
    (hturn : f.InTurn st) (hlast : f.fin = frames.isEmpty)
    (hm : Good cfg ((f.joins st).1, (f.joins st).2 ++ joined frames)) :
    receive cfg st f = some ((openedOf g (f.joins st).1 (f.joins st).2 frames).map Opened.begun,
      completed ((f.joins st).1, (f.joins st).2 ++ joined frames) frames) := by
  have hroom : Room cfg (f.joins st).2.length := hm.sound.1.mono (by rw [length_append]; omega)
  rw [receive_data hdata, if_pos ⟨hroom, hturn⟩, hlast]
  cases frames with
  | nil =>
    have htext := hm.sound.2
    simp only [joined, map_nil, flatten_nil, append_nil] at htext ⊢
    rw [ends, isEmpty_nil, if_pos rfl, if_neg (fun h => by simp [htext h.1] at h)]
    rfl
  | cons next rest => rfl

/-- The messages of a goroutine that are still to come. -/
def comingOf (pos : Option Opened) (jobs : Nat → List Job) (g : Nat) : List Message :=
  (match pos with
    | some o => if o.owner = g then [o.message] else []
    | none => []) ++ (jobs g).filterMap Job.written

theorem comingOf_openedOf (owner : Nat) (g : Nat) :
    comingOf (openedOf owner op sofar parts) jobs g =
      (if owner = g ∧ ¬ parts.isEmpty then [(op, sofar ++ joined parts)] else []) ++ (jobs g).filterMap Job.written := by
  cases parts with
  | nil => simp [comingOf, openedOf]
  | cons next rest => simp [comingOf, openedOf, Opened.message]

/-- The messages, each with its goroutine. -/
def Merged (coming : Nat → List Message) (ms : List Message) : Prop :=
  ∃ tagged : List (Nat × Message), tagged.map (·.2) = ms ∧ ∀ g, (tagged.filter (·.1 = g)).map (·.2) = coming g

theorem Merged.completed {coming coming' : Nat → List Message}
    (h : Merged coming' ms) (hown : coming g = Ws.completed m parts ++ coming' g) (hother : ∀ g', g ≠ g' → coming g' = coming' g') :
    Merged coming (Ws.completed m parts ++ ms) := by
  obtain ⟨tagged, rfl, hmerge⟩ := h
  refine ⟨(Ws.completed m parts).map (fun m => (g, m)) ++ tagged, by simp [comp_def], fun g' => ?_⟩
  rw [filter_append, map_append, hmerge]
  by_cases hg : g = g'
  · subst hg
    rw [hown]
    congr 1
    rw [Ws.completed]
    split <;> simp
  · rw [hother g' hg, Ws.completed]
    split <;> simp [hg]

def ControlRoom (cfg : Config) (tr : List (Nat × WFrame)) : Prop :=
  ∀ x ∈ tr, isControl x.2.op = true → Room cfg x.2.data.octets.length

instance (cfg : Config) (tr : List (Nat × WFrame)) : Decidable (ControlRoom cfg tr) :=
  inferInstanceAs (Decidable (∀ x ∈ tr, _))

/-- What the peer makes of the frames: the messages, if nothing comes between. -/
def Judged (cfg : Config) (pos : Option Opened) (jobs : Nat → List Job) (tr : List (Nat × WFrame)) :
    Option (Option Message × List Message) → Prop
  | some r => (ControlRoom cfg tr ∧ Unbroken (pos.map Opened.owner) tr) ∧ Merged (comingOf pos jobs) r.2
  | none => ¬ (ControlRoom cfg tr ∧ Unbroken (pos.map Opened.owner) tr)

theorem unbroken_control (hf : isControl f.op = true) : Unbroken owner ((g, f) :: tr) ↔ Unbroken owner tr := by
  rw [Unbroken, if_pos hf]

theorem unbroken_data (hf : isControl f.op = false) :
    Unbroken owner ((g, f) :: tr) ↔ (∀ o, owner = some o → g = o) ∧ Unbroken (if f.fin then none else some g) tr := by
  rw [Unbroken, if_neg (by simp [hf])]

theorem controlRoom_data (hf : isControl f.op = false) : ControlRoom cfg ((g, f) :: tr) ↔ ControlRoom cfg tr := by
  rw [ControlRoom, forall_mem_cons]
  refine ⟨fun h => h.2, fun h => ⟨fun hc => ?_, h⟩⟩
  rw [hf] at hc
  cases hc

theorem owner_openedOf (g : Nat) (op : Opcode) (sofar : List UInt8) (parts : List Payload) :
    (openedOf g op sofar parts).map Opened.owner = if parts.isEmpty then none else some g := by
  cases parts <;> rfl

theorem Judged.data {pos' : Option Opened}
    {r : Option (Option Message × List Message)} (h : Judged cfg pos' jobs' tr r) (hf : isControl f.op = false)
    (howner : ∀ o, pos.map Opened.owner = some o → g = o)
    (hnext : pos'.map Opened.owner = if f.fin then none else some g)
    (hown : comingOf pos jobs g = completed m parts ++ comingOf pos' jobs' g)
    (hother : ∀ g', g ≠ g' → comingOf pos jobs g' = comingOf pos' jobs' g') :
    Judged cfg pos jobs ((g, f) :: tr) (r.map fun q => (q.1, completed m parts ++ q.2)) := by
  have hcond : (ControlRoom cfg ((g, f) :: tr) ∧ Unbroken (pos.map Opened.owner) ((g, f) :: tr)) ↔
      ControlRoom cfg tr ∧ Unbroken (pos'.map Opened.owner) tr := by
    rw [controlRoom_data hf, unbroken_data hf, hnext]
    exact and_congr_right fun _ => ⟨fun h => h.2, fun h => ⟨howner, h⟩⟩
  cases r with
  | none => exact mt hcond.1 h
  | some r => exact ⟨hcond.2 h.1, h.2.completed hown hother⟩

theorem Judged.control
    (h : Judged cfg pos jobs' tr (run (receive cfg) st (tr.map (·.2)))) (hf : isControl f.op = true)
    (hcoming : comingOf pos jobs' = comingOf pos jobs) :
    Judged cfg pos jobs ((g, f) :: tr) (run (receive cfg) st (f :: tr.map (·.2))) := by
  by_cases hroom : Room cfg f.data.octets.length
  · have hrec : receive cfg st f = some (st, []) := by rw [receive_control hf, if_pos hroom]
    have hcond : (ControlRoom cfg ((g, f) :: tr) ∧ Unbroken (pos.map Opened.owner) ((g, f) :: tr)) ↔
        ControlRoom cfg tr ∧ Unbroken (pos.map Opened.owner) tr := by
      rw [ControlRoom, forall_mem_cons, unbroken_control hf]
      exact and_congr_left fun _ => ⟨fun h => h.2, fun h => ⟨fun _ => hroom, h⟩⟩
    rw [run_cons_some _ hrec]
    cases hrun : run (receive cfg) st (tr.map (·.2)) with
    | none =>
      rw [hrun] at h
      exact mt hcond.1 h
    | some r =>
      rw [hrun] at h
      exact ⟨hcond.2 h.1, hcoming ▸ h.2⟩
  · have hrec : receive cfg st f = none := by rw [receive_control hf, if_neg hroom]
    rw [run, hrec]
    exact fun hcond => hroom (hcond.1 _ mem_cons_self hf)

theorem judged_nil (h : Interleaved pos jobs []) : Judged cfg pos jobs [] (some (pos.map Opened.begun, [])) := by
  have hnone : pos = none := by
    cases pos with
    | none => rfl
    | some o =>
      have hown := h o.owner
      rw [todoOf, if_pos rfl] at hown
      cases hown
  subst hnone
  refine ⟨⟨nofun, trivial⟩, [], rfl, fun g => ?_⟩
  have hframes : (jobs g).flatMap Job.frames = [] := (h g).symm
  have hnil : ∀ j ∈ jobs g, j.written = none := by
    intro j hj
    have hj := flatMap_eq_nil_iff.1 hframes j hj
    cases j with
    | control pong data => rfl
    | message op frame frames => cases hj
  exact (filterMap_eq_nil_iff.2 hnil).symm

def AllGood (cfg : Config) (jobs : Nat → List Job) : Prop := ∀ g, ∀ j ∈ jobs g, ∀ m, j.written = some m → Good cfg m

theorem AllGood.update {js : List Job} (h : AllGood cfg jobs) (hj : jobs g = j :: js) :
    AllGood cfg (Function.update jobs g js) := by
  intro g' j' hmem
  by_cases hg : g' = g
  · subst hg
    rw [update_self] at hmem
    exact h g' j' (hj ▸ mem_cons_of_mem _ hmem)
  · rw [update_of_ne hg] at hmem
    exact h g' j' hmem

theorem good_openedOf
    (h : Good cfg (op, sofar ++ joined parts)) : ∀ o, openedOf g op sofar parts = some o → Good cfg o.message := by
  intro o ho
  cases parts with
  | nil => cases ho
  | cons next rest =>
    cases ho
    exact h

theorem judged_run (hpos : ∀ o, pos = some o → Good cfg o.message) (hjobs : AllGood cfg jobs)
    (h : Interleaved pos jobs tr) :
    Judged cfg pos jobs tr (run (receive cfg) (pos.map Opened.begun) (tr.map (·.2))) := by
  induction tr generalizing pos jobs with
  | nil => exact judged_nil h
  | cons x tr ih =>
    obtain ⟨g, f⟩ := x
    rw [map_cons]
    obtain ⟨o, rfl, rfl, rfl, hrest⟩ | ⟨pong, data, js, hj, rfl, hrest⟩ | ⟨hnot, op, frame, frames, js, hj, rfl, hrest⟩ :=
      interleaved_cons h
    · -- the next part of the open message
      have hgood := hpos o rfl
      have hjoined : o.sofar ++ joined (o.next :: o.rest) = o.sofar ++ o.next.octets ++ joined o.rest := by
        simp [joined]
      rw [Opened.message, hjoined] at hgood
      rw [map_some, run_cons_some _ (receive_part o.owner rfl ⟨fun _ => rfl, fun _ => rfl⟩ rfl hgood)]
      refine (ih (good_openedOf hgood) hjobs hrest).data rfl ?_ (owner_openedOf _ _ _ _) ?_ fun g' hg => ?_
      · intro g' hg
        exact Option.some.inj hg
      · rw [comingOf_openedOf, comingOf, if_pos rfl, Opened.message, hjoined, completed]
        cases o.rest <;> simp [WFrame.joins, Opened.begun]
      · rw [comingOf_openedOf, comingOf, if_neg hg, if_neg (fun h => hg h.1)]
    · -- a control frame
      have hctl : isControl (controlFrame pong data).op = true := by cases pong <;> rfl
      refine (ih hpos (hjobs.update hj) hrest).control hctl ?_
      funext g'
      by_cases hg : g' = g
      · subst hg
        simp only [comingOf, update_self, hj]
        rfl
      · simp only [comingOf, update_of_ne hg]
    · -- the beginning of a message
      have hgood : Good cfg (op, frame.octets ++ joined frames) := hjobs g _ (hj ▸ mem_cons_self) _ rfl
      cases pos with
      | some o =>
        have hrec : receive cfg (some o.begun) ⟨frames.isEmpty, op, frame⟩ = none := by
          rw [receive_data hgood.isControl, if_neg fun h => hgood.opcode (h.2.2 rfl)]
        rw [map_some, run, hrec]
        intro hcond
        have howner := ((unbroken_data (f := ⟨frames.isEmpty, op, frame⟩) hgood.isControl).1 hcond.2).1 o.owner rfl
        exact hnot o rfl howner.symm
      | none =>
        have hturn : WFrame.InTurn ⟨frames.isEmpty, op, frame⟩ none := ⟨fun h => absurd h hgood.opcode, by simp⟩
        rw [map_none, run_cons_some _ (receive_part g hgood.isControl hturn rfl hgood)]
        refine (ih (good_openedOf hgood) (hjobs.update hj) (hrest rfl)).data hgood.isControl (by simp)
          (owner_openedOf _ _ _ _) ?_ fun g' hg => ?_
        · rw [comingOf_openedOf, comingOf, update_self, hj, completed]
          cases frames <;> simp [Job.written, WFrame.joins]
        · rw [comingOf_openedOf, if_neg (fun h => hg h.1), comingOf, update_of_ne (Ne.symm hg)]

/-- The peer never returns a message of the type Continuation. -/
theorem receive_opcode {r : Option Message × List Message}
    (hst : ∀ m, st = some m → m.1 ≠ opcodeContinuation) (hr : receive cfg st f = some r) :
    (∀ m, r.1 = some m → m.1 ≠ opcodeContinuation) ∧ ∀ m ∈ r.2, m.1 ≠ opcodeContinuation := by
  cases hc : isControl f.op with
  | true =>
    rw [receive_control hc] at hr
    split at hr
    · cases hr
      exact ⟨hst, by simp⟩
    · cases hr
  | false =>
    rw [receive_data hc] at hr
    split_ifs at hr with hok
    have hne : (f.joins st).1 ≠ opcodeContinuation := by
      cases st with
      | none => exact fun h => absurd (hok.2.1 h) (by simp)
      | some m => exact hst m rfl
    rw [ends] at hr
    split_ifs at hr
    · cases hr
      exact ⟨by simp, forall_mem_singleton.2 hne⟩
    · cases hr
      exact ⟨fun m hm => Option.some.inj hm ▸ hne, by simp⟩

theorem run_receive_opcode (hr : run (receive cfg) none fs = some (st, ms)) : ∀ m ∈ ms, m.1 ≠ opcodeContinuation := by
  have hinv := run_keeps
    (fun st (ms : List Message) => (∀ m, st = some m → m.1 ≠ opcodeContinuation) ∧ ∀ m ∈ ms, m.1 ≠ opcodeContinuation)
    ?_ ⟨by simp, by simp⟩ hr
  · exact hinv.2
  · intro st ms f st' o hI hstep
    obtain ⟨hst, ho⟩ := receive_opcode hI.1 hstep
    exact ⟨hst, fun m hm => (mem_append.1 hm).elim (hI.2 m) (ho m)⟩

/-! ## Runs of the writers -/

variable {isServer : Bool} {calls : Nat → List Call} {w : Writers}

/-- What is on the wire after some frames, and what is left to write. -/
structure Wrote (isServer : Bool) (calls : Nat → List Call) (w : Writers) (tr : List (Nat × WFrame)) : Prop where
  order : ∀ g, (tr.filter (·.1 = g)).map (·.2) ++ w.todo g = (calls g).flatMap Call.frames
  wire : ∃ fs, fs.map (·.1) = tr.map (·.2) ∧ w.wire = wireOf isServer fs

theorem legal_of_mem (h : fs = (calls g).flatMap Call.frames) : ∀ f ∈ fs, f.Legal := by
  intro f hf
  rw [h] at hf
  obtain ⟨c, -, hf⟩ := mem_flatMap.1 hf
  exact c.frames_legal f hf

theorem wrote_write {w' : Writers} {l : Nat × MaskKey} {o : List (Nat × WFrame)} (h : Wrote isServer calls w tr)
    (hstep : write isServer w l = some (w', o)) : Wrote isServer calls w' (tr ++ o) := by
  rw [write] at hstep
  match htodo : w.todo l.1 with
  | [] =>
    rw [htodo] at hstep
    cases hstep
  | f :: fs =>
    have hlegal : f.Legal := by
      refine legal_of_mem (h.order l.1) f (mem_append_right _ ?_)
      rw [htodo]
      exact mem_cons_self
    simp only [htodo, writeFrameLocked_eq hlegal] at hstep
    cases hstep
    refine ⟨fun g => ?_, ?_⟩
    · rw [← h.order g, filter_append, map_append, append_assoc]
      congr 1
      by_cases hg : g = l.1
      · subst hg
        simp [htodo]
      · simp [Ne.symm hg, update_of_ne hg]
    · obtain ⟨fs', hfs, hwire⟩ := h.wire
      refine ⟨fs' ++ [(f, l.2)], by simp [hfs], ?_⟩
      rw [hwire]
      simp [wireOf]

theorem wrote_run {labels : List (Nat × MaskKey)} (hrun : run (write isServer) (.start calls) labels = some (w, tr)) :
    Wrote isServer calls w tr := by
  refine run_keeps (Wrote isServer calls) ?_ ?_ hrun
  · intro w tr l w' o h hstep
    exact wrote_write h hstep
  · exact ⟨fun g => rfl, [], rfl, rfl⟩

/-- The frames of a run that has come to its end are an order of those of the calls. -/
theorem Wrote.interleaved (h : Wrote isServer calls w tr) (hdone : ∀ g, w.todo g = []) :
    Interleaved none (fun g => (calls g).filterMap Call.job) tr := by
  intro g
  have horder := h.order g
  rw [hdone g, append_nil, flatMap_frames] at horder
  exact horder

theorem Wrote.legal (h : Wrote isServer calls w tr) : ∀ x ∈ tr, x.2.Legal := by
  intro x hx
  refine legal_of_mem (h.order x.1) x.2 (mem_append_left _ (mem_map.2 ⟨x, ?_, rfl⟩))
  exact mem_filter.2 ⟨hx, decide_eq_true rfl⟩

/-- The messages of calls are good if they are sound and none has the type Continuation. -/
theorem allGood_job (hsound : ∀ g, ∀ c ∈ calls g, ∀ m, c.written = some m → Sound cfg m)
    (htypes : ∀ g, ∀ c ∈ calls g, ∀ m, c.written = some m → m.1 ≠ opcodeContinuation) :
    AllGood cfg fun g => (calls g).filterMap Call.job := by
  intro g j hj m hm
  obtain ⟨c, hc, hjob⟩ := mem_filterMap.1 hj
  have hwritten : c.written = some m := by rw [c.written_eq, hjob, bind_some, hm]
  refine ⟨?_, htypes g c hc m hwritten, hsound g c hc m hwritten⟩
  have hlegal := Call.legal_of_job hjob
  cases j with
  | control => cases hm
  | message op frame frames =>
    cases hm
    exact hlegal

/-- The peer gets all messages exactly if none has the type Continuation, no control frame is beyond the read limit, and
no data frame comes between the frames of another goroutine's message. -/
theorem messages_intact_iff (cfg : Config) (isServer : Bool) (hrole : cfg.isServer = !isServer) (calls : Nat → List Call)
    (hsound : ∀ g, ∀ c ∈ calls g, ∀ m, c.written = some m → Sound cfg m) (labels : List (Nat × MaskKey)) (w : Writers)
    (tr : List (Nat × WFrame)) (hrun : run (write isServer) (.start calls) labels = some (w, tr))
    (hdone : ∀ g, w.todo g = []) :
    Intact cfg calls w.wire ↔
      (∀ g, ∀ c ∈ calls g, ∀ m, c.written = some m → m.1 ≠ opcodeContinuation) ∧ ControlRoom cfg tr ∧ Unbroken none tr := by
  have hwrote := wrote_run hrun
  obtain ⟨fs, hfs, hwire⟩ := hwrote.wire
  have hlegal : ∀ x ∈ fs, x.1.Legal := by
    intro x hx
    have hmem : x.1 ∈ tr.map (·.2) := hfs ▸ mem_map_of_mem hx
    obtain ⟨y, hy, hxy⟩ := mem_map.1 hmem
    exact hxy ▸ hwrote.legal y hy
  have hat : ({ input := w.wire } : Conn).At none (wireOf isServer fs) := ⟨rfl, rfl, rfl, rfl, rfl, hwire, nofun⟩
  have hreads := reads_deliveries hrole hlegal hat (Nat.lt_succ_self _)
  rw [← hwire, hfs] at hreads
  have hfails : run (receive cfg) none (tr.map (·.2)) = none → ¬ Intact cfg calls w.wire := by
    rintro hr ⟨tagged, hd, -⟩
    rw [hr] at hreads
    obtain ⟨e, he, hne⟩ := hreads
    rw [hd] at he
    cases he
    exact hne rfl
  by_cases htypes : ∀ g, ∀ c ∈ calls g, ∀ m, c.written = some m → m.1 ≠ opcodeContinuation
  · have hnone : ∀ o, (none : Option Opened) = some o → Good cfg o.message := fun o ho => by cases ho
    have hjudged := judged_run hnone (allGood_job hsound htypes) (hwrote.interleaved hdone)
    rw [map_none] at hjudged
    cases hr : run (receive cfg) none (tr.map (·.2)) with
    | none =>
      rw [hr] at hjudged
      exact iff_of_false (hfails hr) fun h => hjudged h.2
    | some r =>
      rw [hr] at hreads hjudged
      obtain ⟨hcond, tagged, htagged, hmerge⟩ := hjudged
      have hd : deliveries cfg (w.wire.length + 1) { input := w.wire } = (r.2, some (.failed .eof)) := hreads
      refine iff_of_true ⟨tagged, ?_, fun g => ?_⟩ ⟨htypes, hcond⟩
      · rw [hd, htagged]
      · rw [hmerge g, filterMap_written]
        rfl
  · -- a message of the type Continuation is never returned
    refine iff_of_false (fun hintact => ?_) fun h => htypes h.1
    cases hr : run (receive cfg) none (tr.map (·.2)) with
    | none => exact hfails hr hintact
    | some r =>
      obtain ⟨tagged, hd, hmerge⟩ := hintact
      rw [hr] at hreads
      have hms : r.2 = tagged.map (·.2) := (congrArg Prod.fst (hd.symm.trans hreads)).symm
      refine htypes fun g c hc m hm => run_receive_opcode hr m ?_
      rw [hms]
      have hmem : m ∈ (tagged.filter (·.1 = g)).map (·.2) := by
        rw [hmerge g]
        exact mem_filterMap.2 ⟨c, hc, hm⟩
      obtain ⟨x, hx, rfl⟩ := mem_map.1 hmem
      exact mem_map_of_mem (mem_filter.1 hx).1

/-- One goroutine writes a text in two parts, another one a binary message. -/
def twoWriters : Nat → List Call
  | 0 => [.writeFragmentedMessage opcodeText [⟨[0x61], by decide⟩, ⟨[0x62], by decide⟩]]
  | 1 => [.writeControl false ⟨[], empty_lt⟩, .writeMessage opcodeBinary ⟨[0x63], by decide⟩]
  | _ => []

theorem twoWriters_written : ∀ g, ∀ c ∈ twoWriters g, ∀ m, c.written = some m →
    Sound { isServer := true } m ∧ m.1 ≠ opcodeContinuation := by
  intro g c hc m hm
  match g with
  | 0 =>
    obtain rfl := mem_singleton.1 hc
    cases hm
    exact ⟨⟨by decide, by decide⟩, by decide⟩
  | 1 =>
    obtain rfl | hc := mem_cons.1 hc
    · cases hm
    obtain rfl := mem_singleton.1 hc
    cases hm
    exact ⟨⟨by decide, by decide⟩, by decide⟩
  | _ + 2 => cases hc

/-- A run that has written all that the two goroutines have: nothing is left of the others either. -/
theorem twoWriters_run (labels : List (Nat × MaskKey)) (fs : List (Nat × WFrame)) (wire : List UInt8)
    (h : (run (write false) (.start twoWriters) labels).map (fun r => (r.1.todo 0, r.1.todo 1, r.1.wire, r.2)) =
      some ([], [], wire, fs)) :
    ∃ w, run (write false) (.start twoWriters) labels = some (w, fs) ∧ w.wire = wire ∧ ∀ g, w.todo g = [] := by
  obtain ⟨⟨w, tr⟩, hrun, hr⟩ := map_eq_some_iff.1 h
  simp only [Prod.mk.injEq] at hr
  obtain ⟨h0, h1, hwire, rfl⟩ := hr
  refine ⟨w, hrun, hwire, fun g => ?_⟩
  match g with
  | 0 => exact h0
  | 1 => exact h1
  | g + 2 => exact (append_eq_nil_iff.1 ((wrote_run hrun).order (g + 2))).2

/-- The Ping goes between the two parts of the text, the binary message comes after them. -/
theorem messages_intact_ping : ∃ w tr,
    run (write false) (.start twoWriters) [(0, ⟨1, 2, 3, 4⟩), (1, {}), (0, {}), (1, ⟨5, 6, 7, 8⟩)] = some (w, tr) ∧
      Intact { isServer := true } twoWriters w.wire := by
  obtain ⟨w, hrun, -, hdone⟩ := twoWriters_run [(0, ⟨1, 2, 3, 4⟩), (1, {}), (0, {}), (1, ⟨5, 6, 7, 8⟩)]
    [(0, ⟨false, opcodeText, ⟨[0x61], by decide⟩⟩), (1, ⟨true, opcodePing, ⟨[], by decide⟩⟩),
      (0, ⟨true, opcodeContinuation, ⟨[0x62], by decide⟩⟩), (1, ⟨true, opcodeBinary, ⟨[0x63], by decide⟩⟩)]
    [0x01, 0x81, 1, 2, 3, 4, 0x60, 0x89, 0x80, 0, 0, 0, 0, 0x80, 0x81, 0, 0, 0, 0, 0x62,
      0x82, 0x81, 5, 6, 7, 8, 0x66] (by decide +kernel)
  refine ⟨w, _, hrun, (messages_intact_iff { isServer := true } false rfl twoWriters
    (fun g c hc m hm => (twoWriters_written g c hc m hm).1) _ _ _ hrun hdone).2 ⟨?_, by decide +kernel, by decide⟩⟩
  intro g c hc m hm
  exact (twoWriters_written g c hc m hm).2

/-- The binary message comes between the two parts of the text: the peer returns nothing but an error. -/
theorem messages_torn : ∃ w tr,
    run (write false) (.start twoWriters) [(1, {}), (0, {}), (1, {}), (0, {})] = some (w, tr) ∧ (∀ g, w.todo g = []) ∧
      (∀ g, ∀ c ∈ twoWriters g, ∀ m, c.written = some m → Sound { isServer := true } m) ∧
      ¬ Intact { isServer := true } twoWriters w.wire := by
  obtain ⟨w, hrun, hwire, hdone⟩ := twoWriters_run [(1, {}), (0, {}), (1, {}), (0, {})]
    [(1, ⟨true, opcodePing, ⟨[], by decide⟩⟩), (0, ⟨false, opcodeText, ⟨[0x61], by decide⟩⟩),
      (1, ⟨true, opcodeBinary, ⟨[0x63], by decide⟩⟩), (0, ⟨true, opcodeContinuation, ⟨[0x62], by decide⟩⟩)]
    [0x89, 0x80, 0, 0, 0, 0, 0x01, 0x81, 0, 0, 0, 0, 0x61, 0x82, 0x81, 0, 0, 0, 0, 0x63,
      0x80, 0x81, 0, 0, 0, 0, 0x62] (by decide +kernel)
  refine ⟨w, _, hrun, hdone, fun g c hc m hm => (twoWriters_written g c hc m hm).1, ?_⟩
  rintro ⟨tagged, hd, -⟩
  rw [hwire] at hd
  have hlast : (deliveries { isServer := true } 28 { input := [0x89, 0x80, 0, 0, 0, 0, 0x01, 0x81, 0, 0, 0, 0, 0x61,
      0x82, 0x81, 0, 0, 0, 0, 0x63, 0x80, 0x81, 0, 0, 0, 0, 0x62] }).2 = some (.failed .errExpectedContinuation) := by
    decide +kernel
  cases hlast.symm.trans (congrArg Prod.snd hd)

end Mach.Ws
