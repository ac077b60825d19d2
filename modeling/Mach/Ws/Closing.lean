import Mach.Lib.Run
import Mach.Ws.Conn
/-!
# The closing handshake

Any number of goroutines write to a connection while one reads from it. What is
atomic is an access of the state and a section under `writeMu`; a run is any order
of these steps. A round of the reader is the one of the sequential model, cut into
the steps in which it touches the state and writes. A transport that is closed
under the reader is the end of its input.
-/

namespace Mach.Ws.Closing

open Lib List

/-! ## The model -/

/-- What the goroutines share: the state, and whether the transport takes frames. -/
structure Shared where
  state : ConnState := .stateOpen
  transport : Bool := true
  deriving DecidableEq, Repr

inductive Event where
  | wrote (op : Opcode)
  | moved (old new : ConnState)
  deriving DecidableEq, Repr

/-- `writeFrameLocked`. -/
def Shared.write (s : Shared) (op : Opcode) : List Event := if s.transport then [.wrote op] else []

/-- What a goroutine does in one step. -/
inductive Section where
  | check
  | data (op : { op : Opcode // isData op = true })
  | control (op : Opcode)
  | close
  | store
  | closeTransport

/-- The state and the frames after a step, and whether the call goes on. A transport that is no `closer` stays open. -/
def Section.run (closer : Bool) (s : Shared) : Section → Shared × List Event × Bool
  | .check => (s, [], s.state ≠ .stateClosing ∧ s.state ≠ .stateClosed)
  | .data op =>
    if s.state = .stateClosing ∨ s.state = .stateClosed then (s, [], false) else (s, s.write op.1, s.transport)
  | .control op => if s.state = .stateClosed then (s, [], false) else (s, s.write op, s.transport)
  | .close =>
    if s.state = .stateOpen then
      ({ s with state := .stateClosing }, .moved .stateOpen .stateClosing :: s.write opcodeClose, s.transport)
    else (s, [], false)
  | .store => ({ s with state := .stateClosed }, [.moved s.state .stateClosed], true)
  | .closeTransport => ({ s with transport := s.transport && !closer }, [], true)

inductive Call where
  | writeMessage (messageType : Opcode)
  | writeFragmentedMessage (messageType : Opcode) (frames : Nat)
  | writeControl (messageType : Opcode) (length : Nat)
  | writeClose (statusCode : Nat) (reason : List UInt8)
  | close

/-- The steps of a call; one that is refused at once has none. -/
def Call.sections : Call → List Section
  | .writeMessage t | .writeFragmentedMessage t 0 => if h : isData t then [.check, .data ⟨t, h⟩] else []
  | .writeFragmentedMessage t (n + 1) =>
    if h : isData t then .data ⟨t, h⟩ :: List.replicate n (.data ⟨opcodeContinuation, rfl⟩) else []
  | .writeControl t length => if isControl t ∧ length ≤ 125 then [.control t] else []
  | .writeClose statusCode reason =>
    if isValidForWire statusCode ∧ reason.length ≤ 123 ∧ utf8Valid reason then [.close] else []
  | .close => [.store, .closeTransport]

/-- What the reader does in one step, once it has read a frame. -/
inductive ReadStep where
  | store (state : ConnState)
  | locked (op : Opcode)
  | echo
  | closeTransport
  deriving DecidableEq, Repr

/-- `writeProtocolErrorAndClose`, and the answer to a Close frame. -/
def closeSteps : List ReadStep := [.store .stateClosing, .locked opcodeClose, .store .stateClosed, .closeTransport]

/-- The state and the frames after a step, and what it adds to the round. -/
def ReadStep.run (closer : Bool) (s : Shared) : ReadStep → Shared × List Event × List ReadStep
  | .store state => ({ s with state }, [.moved s.state state], [])
  | .locked op => (s, s.write op, [])
  | .echo =>
    let opened := s.state = .stateOpen ∨ s.state = .stateConnecting
    (s, [], if opened then closeSteps else [.store .stateClosed, .closeTransport])
  | .closeTransport => ({ s with transport := s.transport && !closer }, [], [])

/-- The calls of each goroutine, and the reader: its part of the connection, its calls and what is left of its round. -/
structure Sys where
  shared : Shared := {}
  todo : Nat → List (List Section)
  conn : Conn
  calls : List Reader
  steps : List ReadStep := []

/-- A round: the connection is closed with a frame or without one, a Ping is answered, or nothing is written. -/
def Sys.round (cfg : Config) (s : Sys) (k : Reader) (calls : List Reader) : Sys :=
  let q := ({ s.conn with state := .stateOpen, sent := [] } : Conn).round cfg k
  { s with
    conn := q.1
    calls := if q.2.isSome then calls else k :: calls
    steps :=
      match q.2 with
      | some (.closed _ _) => [.echo]
      | _ =>
        if q.1.state = .stateClosed then if q.1.sent = [] then [.store .stateClosed] else closeSteps
        else if q.1.sent = [] then [] else [.locked opcodePong] }

/-- A step of the goroutine `some g`, or of the reader. A Pong that cannot be written ends the reader's call. -/
def step (cfg : Config) (closer : Bool) (s : Sys) : Option Nat → Option (Sys × List Event)
  | some g =>
    match s.todo g with
    | [] => none
    | [] :: calls => some ({ s with todo := Function.update s.todo g calls }, [])
    | (a :: as) :: calls =>
      let r := a.run closer s.shared
      some ({ s with shared := r.1, todo := Function.update s.todo g ((if r.2.2 then as else []) :: calls) }, r.2.1)
  | none =>
    match s.steps, s.calls with
    | a :: as, _ =>
      let r := a.run closer s.shared
      let calls := if a = .locked opcodePong ∧ ¬ s.shared.transport then s.calls.tail else s.calls
      some ({ s with shared := r.1, calls, steps := r.2.2 ++ as }, r.2.1)
    | [], [] => none
    | [], k :: calls =>
      if s.shared.state = .stateClosed then some ({ s with calls }, []) else some (s.round cfg k calls, [])

def start (calls : Nat → List Call) (input : List UInt8) (reads : List Reader) : Sys :=
  { todo := fun g => (calls g).map Call.sections, conn := { input }, calls := reads }

def rank : ConnState → Nat
  | .stateConnecting => 0
  | .stateOpen => 1
  | .stateClosing => 2
  | .stateClosed => 3

/-- At most one Close frame, no frame after it, and a state that only moves forward. -/
structure Orderly (tr : List Event) : Prop where
  once : tr.count (.wrote opcodeClose) ≤ 1
  last : tr.Pairwise fun e e' => e = .wrote opcodeClose → ∀ op, e' ≠ .wrote op
  forward : ∀ old new, .moved old new ∈ tr → rank old ≤ rank new

def ended (state : ConnState) : Bool := state == .stateClosing || state == .stateClosed

/-- `WriteControl` writes a Close frame and leaves the state, or any frame while the connection is closing. -/
def Section.upsets (st : ConnState) : Section → Bool
  | .control op => st == .stateClosing || op == opcodeClose && st != .stateClosed
  | _ => false

/-- The reader writes a Pong, or goes over to Closing, when the connection has left Open already. -/
def upsets (s : Sys) : Option Nat → Bool
  | some g =>
    match s.todo g with
    | (a :: _) :: _ => a.upsets s.shared.state
    | _ => false
  | none => s.steps.head? ∈ [some (.locked opcodePong), some (.store .stateClosing)] && ended s.shared.state

/-! ## One step -/

variable {tr out : List Event}

theorem Orderly.snoc {e : Event} (h : Orderly tr) (hw : ∀ op, e = .wrote op → .wrote opcodeClose ∉ tr)
    (hm : ∀ old new, e = .moved old new → rank old ≤ rank new) : Orderly (tr ++ [e]) := by
  refine ⟨?_, pairwise_append.2 ⟨h.last, pairwise_singleton _ _, ?_⟩, fun old new hin => ?_⟩
  · rw [count_append]
    by_cases he : e = .wrote opcodeClose
    · rw [count_eq_zero.2 (hw _ he), Nat.zero_add]
      exact count_le_length
    · rw [count_singleton, if_neg (by simpa using he)]
      exact h.once
  · rintro _ hin e' he' rfl op rfl
    exact hw op (mem_singleton.1 he').symm hin
  · rcases mem_append.1 hin with hin | hin
    · exact h.forward old new hin
    · exact hm old new (mem_singleton.1 hin).symm

theorem rank_le_closed (st : ConnState) : rank st ≤ rank .stateClosed := by cases st <;> decide

theorem rank_le_closing {st : ConnState} (h : ended st = false) : rank st ≤ rank .stateClosing := by
  cases st <;> first | decide | cases h

/-- The frames are in order, and a Close frame was not written in Open. -/
structure Calm (st : ConnState) (tr : List Event) : Prop where
  orderly : Orderly tr
  closing : .wrote opcodeClose ∈ tr → ended st = true

section Calm

variable {s : Shared} {st st' : ConnState} {op : Opcode} {a : Section} {closer : Bool}

theorem Calm.not_mem (h : Calm st tr) (hopen : ended st = false) : .wrote opcodeClose ∉ tr :=
  fun hin => by simp [h.closing hin] at hopen

theorem Calm.moved (h : Calm st tr) (hle : rank st ≤ rank st') (hend : ended st' = true) :
    Calm st' (tr ++ [.moved st st']) := by
  refine ⟨h.orderly.snoc nofun fun _ _ he => ?_, fun _ => hend⟩
  cases he
  exact hle

theorem Calm.write (h : Calm s.state tr) (hnot : .wrote opcodeClose ∉ tr) (hop : op = opcodeClose → ended s.state = true) :
    Calm s.state (tr ++ s.write op) := by
  unfold Shared.write
  split
  · refine ⟨h.orderly.snoc (fun _ _ => hnot) nofun, fun hin => hop ?_⟩
    simpa [hnot, eq_comm] using hin
  · rwa [append_nil]

theorem calm_section (h : Calm s.state tr) (hup : a.upsets s.state = false) :
    Calm (a.run closer s).1.state (tr ++ (a.run closer s).2.1) := by
  have hnil : Calm s.state (tr ++ []) := by rwa [append_nil]
  cases a with
  | check | closeTransport => exact hnil
  | data op =>
    simp only [Section.run]
    split
    · exact hnil
    · rename_i hopen
      refine h.write (h.not_mem (by simpa [ended] using hopen)) fun hop => ?_
      have hdata := op.2
      rw [hop] at hdata
      cases hdata
  | control op =>
    simp only [Section.run]
    split
    · exact hnil
    · rename_i hopen
      simp only [Section.upsets, Bool.or_eq_false_iff, beq_eq_false_iff_ne, Bool.and_eq_false_iff, bne_eq_false_iff_eq] at hup
      exact h.write (h.not_mem (by simp [ended, hup.1, hopen])) fun hop => absurd hopen (by simpa [hop] using hup.2)
  | close =>
    simp only [Section.run]
    split
    · rename_i hopen
      rw [hopen] at h
      have hmoved : Calm .stateClosing (tr ++ [.moved .stateOpen .stateClosing]) := h.moved (by decide) rfl
      rw [append_cons]
      exact hmoved.write (by simpa using h.not_mem rfl) fun _ => rfl
    · exact hnil
  | store => exact h.moved (rank_le_closed _) rfl

/-- Nothing is written any more by a section that finds the connection closing. -/
theorem ended_section (hend : ended s.state = true) (hup : a.upsets s.state = false) :
    ended (a.run closer s).1.state = true ∧ ∀ op, .wrote op ∉ (a.run closer s).2.1 := by
  have hst : s.state = .stateClosing ∨ s.state = .stateClosed := by simpa [ended] using hend
  cases a with
  | check | closeTransport => exact ⟨hend, nofun⟩
  | data op => simp [Section.run, hst, hend]
  | control op =>
    have hclosed : s.state = .stateClosed := hst.resolve_left fun h => by simp [Section.upsets, h] at hup
    simp [Section.run, hclosed, ended]
  | close => rcases hst with hst | hst <;> simp [Section.run, hst, ended]
  | store => simp [Section.run, ended]

end Calm

variable {cfg : Config} {closer : Bool} {s s' : Sys}

/-- What can be left of a round; before the reader's Close frame none has been written. -/
inductive Due (st : ConnState) (tr : List Event) : List ReadStep → Prop
  | idle : Due st tr []
  | pong : Due st tr [.locked opcodePong]
  | echo : Due st tr [.echo]
  | start : Due st tr closeSteps
  | write (hnot : .wrote opcodeClose ∉ tr) (hend : ended st = true) : Due st tr closeSteps.tail
  | stop : Due st tr [.store .stateClosed, .closeTransport]
  | store : Due st tr [.store .stateClosed]
  | shut : Due st tr [.closeTransport]

theorem Due.mono {st st' : ConnState} {steps : List ReadStep} (h : Due st tr steps)
    (hk : ended st = true → ended st' = true ∧ ∀ op, .wrote op ∉ out) : Due st' (tr ++ out) steps := by
  cases h with
  | write hnot hend => exact .write (by simp [hnot, (hk hend).2]) (hk hend).1
  | _ => constructor

theorem due_round {st : ConnState} (k : Reader) (calls : List Reader) : Due st tr (s.round cfg k calls).steps := by
  simp only [Sys.round]
  split
  · exact .echo
  · split_ifs
    · exact .store
    · exact .start
    · exact .idle
    · exact .pong

structure Inv (s : Sys) (tr : List Event) : Prop extends Calm s.shared.state tr where
  due : Due s.shared.state tr s.steps

theorem inv_reader {a : ReadStep} {as : List ReadStep} (h : Inv s tr) (hsteps : s.steps = a :: as)
    (hup : upsets s none = false) (calls : List Reader) :
    Inv { s with shared := (a.run closer s.shared).1, calls, steps := (a.run closer s.shared).2.2 ++ as }
      (tr ++ (a.run closer s.shared).2.1) := by
  have hcalm := h.toCalm
  have hnil : Calm s.shared.state (tr ++ []) := by rwa [append_nil]
  have hdue := h.due
  rw [upsets, hsteps] at hup
  rw [hsteps] at hdue
  cases hdue with
  | pong => exact ⟨hcalm.write (hcalm.not_mem (by simpa using hup)) nofun, .idle⟩
  | echo =>
    refine ⟨hnil, ?_⟩
    simp only [ReadStep.run]
    split
    · exact .start
    · exact .stop
  | start =>
    have hopen : ended s.shared.state = false := by simpa using hup
    exact ⟨hcalm.moved (rank_le_closing hopen) rfl, .write (by simpa [ReadStep.run] using hcalm.not_mem hopen) rfl⟩
  | write hnot hend => exact ⟨hcalm.write hnot fun _ => hend, .stop⟩
  | stop => exact ⟨hcalm.moved (rank_le_closed _) rfl, .shut⟩
  | store => exact ⟨hcalm.moved (rank_le_closed _) rfl, .idle⟩
  | shut => exact ⟨hnil, .idle⟩

theorem inv_step {l : Option Nat} (h : Inv s tr) (hup : upsets s l = false) (hs : step cfg closer s l = some (s', out)) :
    Inv s' (tr ++ out) := by
  have hnil : Inv s (tr ++ []) := by rwa [append_nil]
  cases l with
  | some g =>
    simp only [step] at hs
    split at hs
    · cases hs
    · cases hs
      exact { hnil with }
    · rename_i a as calls htodo
      cases hs
      simp only [upsets, htodo] at hup
      exact ⟨calm_section h.toCalm hup, h.due.mono fun hend => ended_section hend hup⟩
  | none =>
    simp only [step] at hs
    split at hs
    · rename_i hsteps
      cases hs
      exact inv_reader h hsteps hup _
    · cases hs
    · split at hs
      · cases hs
        exact { hnil with }
      · cases hs
        exact ⟨hnil.toCalm, due_round _ _⟩

/-! ## Every run -/

/-- A run without upsetting steps is orderly. -/
theorem closing_orderly (cfg : Config) (closer : Bool) (calls : Nat → List Call) (input : List UInt8) (reads : List Reader)
    (labels : List (Option Nat))
    (h : Along (step cfg closer) (fun s l => upsets s l = false) (start calls input reads) labels) :
    Always (step cfg closer) (fun _ tr => Orderly tr) (start calls input reads) labels := by
  refine always_mono (fun _ _ hi => hi.orderly) (always_of_along Inv (fun _ _ _ _ _ => inv_step) ?_ h)
  exact ⟨⟨⟨by decide, .nil, nofun⟩, nofun⟩, .idle⟩

/-- A text, `WriteClose` and the answer of the peer. -/
def handshake : Sys := start (fun _ => [.writeMessage opcodeText, .writeClose 1000 []]) [0x88, 2, 3, 0xe8] [.readMessage]

theorem closing_orderly_handshake :
    (run (step {} true) handshake [some 0, some 0, some 0, some 0, none, none, none, none]).map (·.2) =
        some [.wrote opcodeText, .moved .stateOpen .stateClosing, .wrote opcodeClose, .moved .stateClosing .stateClosed] ∧
      Always (step {} true) (fun _ tr => Orderly tr) handshake [some 0, some 0, some 0, some 0, none, none, none, none] :=
  ⟨by decide +kernel, closing_orderly {} true _ _ _ _ (by decide +kernel)⟩

/-- `WriteClose`, and a Ping behind it. -/
def pinged : Sys := start (fun _ => [.writeClose 1000 [], .writeControl opcodePing 0]) [] []

theorem closing_upset : ∃ s tr, run (step {} true) pinged [some 0, some 0, some 0] = some (s, tr) ∧
    tr = [.moved .stateOpen .stateClosing, .wrote opcodeClose, .wrote opcodePing] ∧ ¬ Orderly tr := by
  have h : (run (step {} true) pinged [some 0, some 0, some 0]).map (·.2) =
      some [.moved .stateOpen .stateClosing, .wrote opcodeClose, .wrote opcodePing] := by decide +kernel
  obtain ⟨⟨s, tr⟩, hr, rfl⟩ := Option.map_eq_some_iff.1 h
  exact ⟨s, _, hr, rfl, fun ho => absurd ho.last (by simp)⟩

end Mach.Ws.Closing
