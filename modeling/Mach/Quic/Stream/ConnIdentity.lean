import Mach.Lib.Run
import Mach.Quic.Stream.Conn
import Mathlib.Data.List.Nodup
import Mathlib.Data.List.Perm.Subperm
/-!
# Stream identity

Over any run of a connection: a stream ID is used for one stream only, whatever
frames arrive late for it, streams opened by the peer are handed to the
application once each in the order in which they came, and our own streams are
numbered one by one within the limits the peer has given.

An ID that has been used is either in the map of its kind or among the closed
ones (`Identified.home`), and every place that makes a stream looks at both. The
accept channel is as long as the number of IDs the peer may use, so the overflow
queue, which would not keep the order, stays empty.
-/

namespace Mach.Quic.Stream

open Lib StreamID List Conn

/-! ## What is recorded of a run -/

def createdIn (d : Direction) (tr : List ConnEvent) : List Nat :=
  tr.filterMap fun
    | .created id => if direction id = d then some id else none
    | _ => none

def acceptedIn (d : Direction) (tr : List ConnEvent) : List Nat :=
  tr.filterMap fun
    | .accepted id => if direction id = d then some id else none
    | _ => none

def openedIn (d : Direction) (tr : List ConnEvent) : List Nat :=
  tr.filterMap fun
    | .opened id => if direction id = d then some id else none
    | _ => none

/-- The largest limit the peer has given, from an initial one. -/
def peerLimit (initial : Nat) (d : Direction) (tr : List ConnEvent) : Nat :=
  tr.foldl (fun m e =>
    match e with
    | .maxStreams d' n => if d' = d then max m n else m
    | _ => m) initial

/-- Routing and errors: nothing that the run is asked about. -/
def ConnEvent.isQuiet : ConnEvent → Bool
  | .routed _ | .failed _ => true
  | _ => false

section Projections

variable (d : Direction) (tr o : List ConnEvent)

@[simp] theorem createdIn_append : createdIn d (tr ++ o) = createdIn d tr ++ createdIn d o := filterMap_append

@[simp] theorem acceptedIn_append : acceptedIn d (tr ++ o) = acceptedIn d tr ++ acceptedIn d o := filterMap_append

@[simp] theorem openedIn_append : openedIn d (tr ++ o) = openedIn d tr ++ openedIn d o := filterMap_append

theorem peerLimit_append (initial : Nat) : peerLimit initial d (tr ++ o) = peerLimit (peerLimit initial d tr) d o :=
  foldl_append

end Projections

/-- The events do not show in what is recorded of a direction. -/
structure Unseen (d : Direction) (o : List ConnEvent) : Prop where
  created : createdIn d o = []
  accepted : acceptedIn d o = []
  opened : openedIn d o = []
  limit : ∀ n, peerLimit n d o = n

theorem unseen_quiet {o : List ConnEvent} (h : ∀ e ∈ o, e.isQuiet) (d : Direction) : Unseen d o := by
  induction o with
  | nil => exact ⟨rfl, rfl, rfl, fun _ => rfl⟩
  | cons e o ih =>
    have he := h e (by simp)
    obtain ⟨h1, h2, h3, h4⟩ := ih fun x hx => h x (by simp [hx])
    cases e <;> simp only [ConnEvent.isQuiet, Bool.false_eq_true] at he
    all_goals exact ⟨h1, h2, h3, h4⟩

/-! ## The invariant -/

namespace Conn

def ids (c : Conn) : List Nat := c.heap.map (·.id)

/-- The map in which an active stream with this ID is found. -/
def home (c : Conn) (id : Nat) : Option StreamRef :=
  match direction id, isPeerInitiated c.perspective id with
  | .bidi, _ => c.bidiStreams id
  | .uni, true => c.recvStreams id
  | .uni, false => c.sendStreams id

def Active (c : Conn) (id : Nat) : Prop := c.bidiStreams id ≠ none ∨ c.sendStreams id ≠ none ∨ c.recvStreams id ≠ none

end Conn

/-- What a lane that starts as `l₀` keeps, with the IDs that are used and the events of a run. -/
structure Lane.Tracks (l₀ l : Lane) (p : Perspective) (ids : List Nat) (d : Direction) (tr : List ConnEvent) : Prop where
  maxLocal : l.maxLocalStreams = l₀.maxLocalStreams
  cap : l.acceptCap = l.maxLocalStreams
  maxPeer : l.maxPeerStreams = peerLimit l₀.maxPeerStreams d tr
  maxPeer_le : l.maxPeerStreams ≤ varintMax
  created : ∀ id ∈ createdIn d tr, id ∈ ids ∧ id < 2 ^ 64 ∧ isPeerInitiated p id ∧ direction id = d ∧
    streamNum id ≤ l.maxLocalStreams
  nodup : (createdIn d tr).Nodup
  queue : l.acceptQueue = [] ∧ createdIn d tr = acceptedIn d tr ++ l.acceptCh.map (·.id)
  opened : (openedIn d tr).map streamNum = List.range' 1 (l.nextLocalStreamNum - 1)
  next : 1 ≤ l.nextLocalStreamNum ∧ l.nextLocalStreamNum - 1 ≤ l.maxPeerStreams
  numbered : ∀ id ∈ ids, isPeerInitiated p id = false → direction id = d → streamNum id < l.nextLocalStreamNum

/-- What every run of a connection that starts as `c₀` keeps. -/
structure Identified (c₀ c : Conn) (tr : List ConnEvent) : Prop where
  perspective : c.perspective = c₀.perspective
  lane : ∀ d, (c₀.lanes d).Tracks (c.lanes d) c.perspective c.ids d tr
  home : ∀ id ∈ c.ids, c.closedStreams id ∨ c.home id ≠ none
  done : ∀ id, c.closedStreams id → id ∈ c.ids ∧ ¬ c.Active id
  completed : ∀ id, .completed id ∈ tr → c.closedStreams id

theorem identified_new (cfg : ConnConfig) (h : ∀ d, ((newConn cfg).lanes d).maxPeerStreams ≤ varintMax) :
    Identified (newConn cfg) (newConn cfg) [] where
  perspective := rfl
  lane d := by
    have hle := h d
    cases d <;> exact ⟨rfl, rfl, rfl, hle, nofun, nodup_nil, ⟨rfl, rfl⟩, rfl, ⟨Nat.le_refl _, Nat.zero_le _⟩, nofun⟩
  home := nofun
  done := nofun
  completed := nofun

variable {c₀ c c' : Conn} {tr o : List ConnEvent} {d : Direction} {id : Nat}

/-- A used ID that is neither active where it belongs nor closed has not been used. -/
theorem Identified.unused (h : Identified c₀ c tr) (hhome : c.home id = none) (hclosed : c.closedStreams id = false) :
    id ∉ c.ids := by
  intro hid
  rcases h.home id hid with hc | hh
  · simp [hclosed] at hc
  · exact hh hhome

section Lanes

variable {l₀ l : Lane} {p : Perspective} {ids ids' : List Nat} {lanes0 lanes : Direction → Lane}

theorem Lane.Tracks.unseen (h : l₀.Tracks l p ids d tr) (hu : Unseen d o) (hsub : ids ⊆ ids')
    (hnew : ∀ id ∈ ids', direction id = d → id ∈ ids) : l₀.Tracks l p ids' d (tr ++ o) where
  maxLocal := h.maxLocal
  cap := h.cap
  maxPeer := by rw [peerLimit_append, hu.limit, h.maxPeer]
  maxPeer_le := h.maxPeer_le
  created id hid := by
    rw [createdIn_append, hu.created, append_nil] at hid
    exact (h.created id hid).imp_left fun hmem => hsub hmem
  nodup := by simpa [hu.created] using h.nodup
  queue := by simpa [hu.created, hu.accepted] using h.queue
  opened := by simpa [hu.opened] using h.opened
  next := h.next
  numbered id hid hlocal hdir := h.numbered id (hnew id hid hdir) hlocal hdir

theorem tracks_update (h : ∀ d, (lanes0 d).Tracks (lanes d) p ids d tr) (hu : ∀ d', d' ≠ d → Unseen d' o)
    (hsub : ids ⊆ ids') (hnew : ∀ id ∈ ids', id ∉ ids → direction id = d)
    (hl : (lanes0 d).Tracks l p ids' d (tr ++ o)) (d' : Direction) :
    (lanes0 d').Tracks (Function.update lanes d l d') p ids' d' (tr ++ o) := by
  by_cases hd : d' = d
  · subst hd
    rwa [Function.update_self]
  · rw [Function.update_of_ne hd]
    refine (h d').unseen (hu d' hd) hsub fun id hid hdir => ?_
    by_contra hold
    exact hd (hdir.symm.trans (hnew id hid hold))

end Lanes

variable {n addr : Nat} {create : Conn → Nat → Conn × StreamRef} {obj : StreamObj}

/-- `c'` is `c` with a new stream of this ID, in the map where it belongs. -/
structure Makes (c : Conn) (id : Nat) (c' : Conn) : Prop where
  ids : c'.ids = c.ids ++ [id]
  perspective : c'.perspective = c.perspective
  lanes : c'.lanes = c.lanes
  closedStreams : c'.closedStreams = c.closedStreams
  found : c'.home id ≠ none
  homes : ∀ id', id' ≠ id → c'.home id' = c.home id'
  others : ∀ id', id' ≠ id → (c'.Active id' ↔ c.Active id')

theorem makes_bidi (hd : direction id = .bidi) : Makes c id (c.createBidiStreamLocked id).1 where
  ids := by simp [ids, createBidiStreamLocked]
  perspective := rfl
  lanes := rfl
  closedStreams := rfl
  found := by simp [home, hd, createBidiStreamLocked]
  homes id' hne := by simp [home, createBidiStreamLocked, hne]
  others id' hne := by simp [Conn.Active, createBidiStreamLocked, hne]

theorem makes_receive (hd : direction id = .uni) (hp : isPeerInitiated c.perspective id) :
    Makes c id (c.createReceiveStream id).1 where
  ids := by simp [ids, createReceiveStream]
  perspective := rfl
  lanes := rfl
  closedStreams := rfl
  found := by simp [home, hd, hp, createReceiveStream]
  homes id' hne := by simp [home, createReceiveStream, hne]
  others id' hne := by simp [Conn.Active, createReceiveStream, hne]

theorem makes_send (hd : direction id = .uni) (hp : isPeerInitiated c.perspective id = false) :
    Makes c id (c.createSendStream id).1 where
  ids := by simp [ids, createSendStream]
  perspective := rfl
  lanes := rfl
  closedStreams := rfl
  found := by simp [home, hd, hp, createSendStream]
  homes id' hne := by simp [home, createSendStream, hne]
  others id' hne := by simp [Conn.Active, createSendStream, hne]

/-- The maps after a stream is made: its ID is active, no other ID is touched. -/
theorem Makes.maps (hm : Makes c id c') (hnew : id ∉ c.ids) (hhome : ∀ id ∈ c.ids, c.closedStreams id ∨ c.home id ≠ none)
    (hdone : ∀ id, c.closedStreams id → id ∈ c.ids ∧ ¬ c.Active id) :
    (∀ id' ∈ c'.ids, c'.closedStreams id' ∨ c'.home id' ≠ none) ∧
      ∀ id', c'.closedStreams id' → id' ∈ c'.ids ∧ ¬ c'.Active id' := by
  rw [hm.ids, hm.closedStreams]
  constructor
  · intro id' hid'
    by_cases heq : id' = id
    · exact .inr (heq ▸ hm.found)
    · rw [hm.homes id' heq]
      have hold : id' ∈ c.ids := by simpa [heq] using hid'
      exact hhome id' hold
  · intro id' hclosed
    obtain ⟨hmem, hact⟩ := hdone id' hclosed
    have hne : id' ≠ id := fun heq => hnew (heq ▸ hmem)
    exact ⟨mem_append_left _ hmem, fun ha => hact ((hm.others id' hne).1 ha)⟩

/-- The peer has no more IDs of a direction than we allow numbers. -/
theorem length_le_of_numbered {p : Perspective} {l : List Nat} (hl : l.Nodup)
    (h : ∀ id ∈ l, id < 2 ^ 64 ∧ isPeerInitiated p id ∧ direction id = d ∧ streamNum id ≤ n) : l.length ≤ n := by
  have hnodup : (l.map streamNum).Nodup := by
    refine List.Nodup.map_on (fun a ha b hb hab => ?_) hl
    obtain ⟨hlt, hpeer, hdir, -⟩ := h a ha
    obtain ⟨hlt', hpeer', hdir', -⟩ := h b hb
    exact streamID_inj hlt hlt' (hpeer.trans hpeer'.symm) (hdir.trans hdir'.symm) hab
  have hsub : l.map streamNum ⊆ List.range' 1 n := by
    intro k hk
    obtain ⟨id, hid, rfl⟩ := mem_map.1 hk
    obtain ⟨hlt, -, -, hle⟩ := h id hid
    have hpos : 0 < streamNum id := by rw [streamNum_eq hlt]; omega
    exact mem_range'_1.2 ⟨hpos, by omega⟩
  simpa using (subperm_of_subset hnodup hsub).length_le

/-- A stream the peer opens is queued: with room for every ID the peer may use, the channel takes it. -/
theorem Lane.Tracks.enqueue {l₀ l : Lane} {p : Perspective} {ids : List Nat} {str : StreamRef} {r : Routed}
    (h : l₀.Tracks l p ids d tr) (hdir : direction str.id = d) (hpeer : isPeerInitiated p str.id) (hlt : str.id < 2 ^ 64)
    (hnum : streamNum str.id ≤ l.maxLocalStreams) (hnew : str.id ∉ ids) :
    l₀.Tracks (l.enqueue str) p (ids ++ [str.id]) d (tr ++ [.created str.id, .routed r]) := by
  have hev : createdIn d (tr ++ [.created str.id, .routed r]) = createdIn d tr ++ [str.id] := by simp [createdIn, hdir]
  have hcreated : ∀ id' ∈ createdIn d tr ++ [str.id], id' ∈ ids ++ [str.id] ∧ id' < 2 ^ 64 ∧
      isPeerInitiated p id' ∧ direction id' = d ∧ streamNum id' ≤ l.maxLocalStreams := by
    intro id' hid'
    rcases mem_append.1 hid' with hid' | hid'
    · exact (h.created id' hid').imp_left fun hmem => mem_append_left _ hmem
    · rw [mem_singleton.1 hid']
      exact ⟨by simp, hlt, hpeer, hdir, hnum⟩
  have hnodup : (createdIn d tr ++ [str.id]).Nodup := by
    refine nodup_append.2 ⟨h.nodup, by simp, fun a ha b hb hab => hnew ?_⟩
    rw [← mem_singleton.1 hb, ← hab]
    exact (h.created a ha).1
  have hroom : l.acceptCh.length < l.acceptCap := by
    have hle := length_le_of_numbered hnodup fun id' hid' => (hcreated id' hid').2
    rw [h.queue.2] at hle
    simp only [length_append, length_map, length_singleton] at hle
    rw [h.cap]
    omega
  have hlane : l.enqueue str = { l with acceptCh := l.acceptCh ++ [str] } := by
    simp [Lane.enqueue, h.queue.1, hroom]
  rw [hlane]
  refine ⟨h.maxLocal, h.cap, ?_, h.maxPeer_le, hev ▸ hcreated, hev ▸ hnodup, ⟨h.queue.1, ?_⟩, ?_, h.next, ?_⟩
  · rw [peerLimit_append]
    exact h.maxPeer
  · rw [hev, h.queue.2]
    simp [acceptedIn]
  · simpa [openedIn] using h.opened
  · intro id' hid' hlocal
    rcases mem_append.1 hid' with hid' | hid'
    · exact h.numbered id' hid' hlocal
    · rw [mem_singleton.1 hid', hpeer] at hlocal
      cases hlocal

theorem Lane.Tracks.openNext {l₀ l : Lane} {p : Perspective} {ids : List Nat} (h : l₀.Tracks l p ids d tr)
    (hnum : streamNum id = l.nextLocalStreamNum) (hdir : direction id = d)
    (hlim : l.nextLocalStreamNum - 1 < l.maxPeerStreams) :
    l₀.Tracks { l with nextLocalStreamNum := l.nextLocalStreamNum + 1 } p (ids ++ [id]) d (tr ++ [.opened id]) where
  maxLocal := h.maxLocal
  cap := h.cap
  maxPeer := by
    rw [peerLimit_append]
    exact h.maxPeer
  maxPeer_le := h.maxPeer_le
  created id' hid' := (h.created id' (by simpa [createdIn] using hid')).imp_left fun hmem => mem_append_left _ hmem
  nodup := by simpa [createdIn] using h.nodup
  queue := by simpa [createdIn, acceptedIn] using h.queue
  opened := by
    have hone : openedIn d [.opened id] = [id] := by simp [openedIn, hdir]
    have hcount : l.nextLocalStreamNum = l.nextLocalStreamNum - 1 + 1 := by have := h.next.1; omega
    rw [openedIn_append, hone, map_append, h.opened, map_singleton, hnum, Nat.add_sub_cancel]
    conv_rhs => rw [hcount, range'_1_concat]
    rw [Nat.add_comm 1, ← hcount]
  next := ⟨Nat.le_add_left _ _, by simp only [Nat.add_sub_cancel]; omega⟩
  numbered id' hid' hlocal hdir' := by
    rcases mem_append.1 hid' with hid' | hid'
    · exact (h.numbered id' hid' hlocal hdir').trans (Nat.lt_succ_self _)
    · rw [mem_singleton.1 hid', hnum]
      exact Nat.lt_succ_self _

theorem accept_cases (l : Lane) (closed ctxDone : Bool) (h : l.acceptQueue = []) :
    (∃ str ch, l.acceptCh = str :: ch ∧ l.accept closed ctxDone = ({ l with acceptCh := ch }, .stream str)) ∨
    l.accept closed ctxDone = (l, .connClosed) ∨ l.accept closed ctxDone = (l, .none) := by
  cases closed with
  | true => exact .inr (.inl (by simp [Lane.accept, h]))
  | false =>
    cases ctxDone with
    | true => exact .inr (.inr (by simp [Lane.accept, h]))
    | false =>
      cases hch : l.acceptCh with
      | nil => exact .inr (.inr (by simp [Lane.accept, h, hch]))
      | cons str ch => exact .inl ⟨str, ch, rfl, by simp [Lane.accept, h, hch]⟩

theorem setLane_self (c : Conn) (d : Direction) : c.setLane d (c.lanes d) = c := by
  simp [setLane]

theorem direction_of_isBidi (h : isBidi id) : direction id = .bidi := if_pos h

theorem direction_of_not_isBidi (h : ¬ isBidi id) : direction id = .uni := if_neg h

theorem ids_set {obj' : StreamObj} (hobj : c.heap[addr]? = some obj) (hid : obj'.id = obj.id) :
    (c.heap.set addr obj').map (·.id) = c.ids := by
  obtain ⟨hlt, hget⟩ := List.getElem?_eq_some_iff.1 hobj
  have hlt' : addr < (c.heap.map (·.id)).length := by simpa using hlt
  have hsame : (c.heap.map (·.id))[addr] = obj'.id := by simp [hget, hid]
  rw [map_set, ← hsame, set_getElem_self]
  rfl

/-- A half that is done is noted, and the stream is completed if that was the last. -/
theorem onHalfCompleted_cases (c : Conn) (addr : Nat) (obj : StreamObj) (isSend : Bool) :
    ∃ obj' : StreamObj, obj'.id = obj.id ∧
      (c.onHalfCompleted addr obj isSend = ({ c with heap := c.heap.set addr obj' }, []) ∨
        c.onHalfCompleted addr obj isSend =
          onStreamCompleted { c with heap := c.heap.set addr obj' } obj.id) := by
  cases isSend <;> simp only [onHalfCompleted, Bool.false_eq_true, if_false, if_true]
  all_goals
    split
    · refine ⟨_, ?_, .inr rfl⟩
      rfl
    · refine ⟨_, ?_, .inl rfl⟩
      rfl

section Steps

variable (h : Identified c₀ c tr)
include h

theorem identified_quiet (ho : ∀ e ∈ o, e.isQuiet) : Identified c₀ c (tr ++ o) := by
  refine { h with lane := fun d => ?_, completed := fun id hid => ?_ }
  · exact (h.lane d).unseen (unseen_quiet ho d) (List.Subset.refl _) fun _ hid _ => hid
  · rcases mem_append.1 hid with hid | hid
    · exact h.completed id hid
    · cases ho _ hid

/-- A stream the peer opens within the limit, with an ID that has not been used. -/
theorem identified_acceptNew
    (hm : Makes c id (create c id).1) (href : (create c id).2.id = id) (hdir : direction id = d)
    (hpeer : isPeerInitiated c.perspective id) (hlt : id < 2 ^ 64)
    (hnum : streamNum id ≤ (c.lanes d).maxLocalStreams) (hnew : id ∉ c.ids) :
    Identified c₀ (c.acceptNew d create id).1 (tr ++ (c.acceptNew d create id).2) := by
  obtain ⟨hhome, hdone⟩ := hm.maps hnew h.home h.done
  have hids : (c.acceptNew d create id).1.ids = c.ids ++ [id] := hm.ids
  have hpersp : (c.acceptNew d create id).1.perspective = c.perspective := hm.perspective
  refine ⟨hpersp.trans h.perspective, ?_, hhome, hdone, fun id' hid' => ?_⟩
  · rw [hids, hpersp]
    simp only [acceptNew, setLane, hm.lanes]
    refine tracks_update h.lane (fun d' hd => ?_) (subset_append_left _ _) (fun id' hid' hold => ?_) ?_
    · have hne : direction id ≠ d' := fun h => hd (h.symm.trans hdir)
      exact ⟨by simp [createdIn, hne], rfl, rfl, fun _ => rfl⟩
    · rw [mem_singleton.1 ((mem_append.1 hid').resolve_left hold), hdir]
    · have hl := @Lane.Tracks.enqueue tr d _ _ _ _ (create c id).2 (.stream (create c id).2) (h.lane d)
      rw [href] at hl
      exact hl hdir hpeer hlt hnum hnew
  · have hold := (mem_append.1 hid').resolve_right (by simp [acceptNew])
    exact hm.closedStreams ▸ h.completed id' hold

theorem identified_openNext {msg : String}
    (hm : ∀ c id, direction id = d → isPeerInitiated c.perspective id = false → Makes c id (create c id).1) :
    Identified c₀ (c.openNext d create msg).1 (tr ++ (c.openNext d create msg).2) := by
  unfold openNext
  by_cases hclosed : c.closed
  · simpa [hclosed] using identified_quiet h (o := [.failed .connClosed]) (by simp [ConnEvent.isQuiet])
  by_cases hlim : (c.lanes d).maxPeerStreams ≤ (c.lanes d).nextLocalStreamNum - 1
  · simpa [hclosed, hlim] using
      identified_quiet h (o := [.failed (.transport ⟨.streamLimitError, msg⟩)]) (by simp [ConnEvent.isQuiet])
  simp only [hclosed, hlim, Bool.false_eq_true, if_false]
  have hl := h.lane d
  have hmax := hl.maxPeer_le
  obtain ⟨hnum, hdir, hlocal⟩ := newStreamID_facts c.perspective d hl.next.1 (show _ ≤ varintMax by omega)
  have hsucc : u64 ((c.lanes d).nextLocalStreamNum + 1) = (c.lanes d).nextLocalStreamNum + 1 :=
    u64_of_lt (by simp only [varintMax] at hmax; omega)
  rw [hsucc]
  set id := newStreamID (localType c.perspective d) (c.lanes d).nextLocalStreamNum
  set c1 := c.setLane d { c.lanes d with nextLocalStreamNum := (c.lanes d).nextLocalStreamNum + 1 } with hc1
  have hnew : id ∉ c.ids := fun hmem => by
    have hlt := hl.numbered id hmem hlocal hdir
    rw [hnum] at hlt
    exact Nat.lt_irrefl _ hlt
  have hmk : Makes c1 id (create c1 id).1 := hm c1 id hdir hlocal
  obtain ⟨hhome, hdone⟩ := hmk.maps hnew h.home h.done
  have hids : (create c1 id).1.ids = c.ids ++ [id] := hmk.ids
  have hpersp : (create c1 id).1.perspective = c.perspective := hmk.perspective
  refine ⟨hpersp.trans h.perspective, ?_, hhome, hdone, fun id' hid' => ?_⟩
  · rw [hids, hpersp, hmk.lanes]
    refine tracks_update h.lane (fun d' hd => ?_) (subset_append_left _ _) (fun id' hid' hold => ?_)
      (hl.openNext hnum hdir (by omega))
    · exact ⟨rfl, rfl, by simp [openedIn, hdir, Ne.symm hd], fun _ => rfl⟩
    · rw [mem_singleton.1 ((mem_append.1 hid').resolve_left hold), hdir]
  · rw [hmk.closedStreams]
    exact h.completed id' ((mem_append.1 hid').resolve_right (by simp))

theorem identified_acceptFrom {ctxDone : Bool} :
    Identified c₀ (c.acceptFrom d ctxDone).1 (tr ++ (c.acceptFrom d ctxDone).2) := by
  unfold acceptFrom
  have hl := h.lane d
  rcases accept_cases (c.lanes d) c.closed ctxDone hl.queue.1 with ⟨str, ch, hch, heq⟩ | heq | heq
  · have hqueue := hl.queue.2
    rw [hch] at hqueue
    have hdir : direction str.id = d := by
      have hmem : str.id ∈ createdIn d tr := by rw [hqueue]; simp
      exact (hl.created _ hmem).2.2.2.1
    simp only [heq]
    refine { h with lane := ?_, completed := fun id' hid' => ?_ }
    · refine tracks_update h.lane (fun d' hd => ?_) (List.Subset.refl _) (fun _ hid hold => absurd hid hold) ?_
      · exact ⟨rfl, by simp [acceptedIn, hdir, Ne.symm hd], rfl, fun _ => rfl⟩
      · refine ⟨hl.maxLocal, hl.cap, ?_, hl.maxPeer_le, ?_, ?_, ⟨hl.queue.1, ?_⟩, ?_, hl.next, hl.numbered⟩
        · rw [peerLimit_append]
          exact hl.maxPeer
        · exact fun id' hid' => hl.created id' (by simpa [createdIn] using hid')
        · simpa [createdIn] using hl.nodup
        · simpa [createdIn, acceptedIn, hdir] using hqueue
        · simpa [openedIn] using hl.opened
    · exact h.completed id' ((mem_append.1 hid').resolve_right (by simp))
  · simp only [heq, setLane_self]
    exact identified_quiet h (by simp [ConnEvent.isQuiet])
  · simp only [heq, setLane_self]
    exact identified_quiet h (by simp)

/-- Completing a stream takes its ID out of the maps for good. -/
theorem identified_completed (hid : id ∈ c.ids) :
    Identified c₀ (c.onStreamCompleted id).1 (tr ++ (c.onStreamCompleted id).2) := by
  refine ⟨h.perspective, fun d => ?_, fun id' hid' => ?_, fun id' hclosed => ?_, fun id' hid' => ?_⟩
  · exact (h.lane d).unseen ⟨rfl, rfl, rfl, fun _ => rfl⟩ (List.Subset.refl _) fun _ hid _ => hid
  · by_cases heq : id' = id
    · exact .inl (by simp [onStreamCompleted, heq])
    · simpa [onStreamCompleted, home, heq] using h.home id' hid'
  · by_cases heq : id' = id
    · exact ⟨heq ▸ hid, by simp [onStreamCompleted, Conn.Active, heq]⟩
    · have := h.done id' (by simpa [onStreamCompleted, heq] using hclosed)
      exact ⟨this.1, by simpa [onStreamCompleted, Conn.Active, heq] using this.2⟩
  · by_cases heq : id' = id
    · simp [onStreamCompleted, heq]
    · have hold : .completed id' ∈ tr := by simpa [onStreamCompleted, heq] using hid'
      simpa [onStreamCompleted, heq] using h.completed id' hold

/-- What a stream object notes about itself does not matter here. -/
theorem identified_heap {heap : List StreamObj} {closed : Bool}
    (hids : heap.map (·.id) = c.ids) : Identified c₀ { c with heap, closed } tr := by
  have hids' : ({ c with heap, closed } : Conn).ids = c.ids := hids
  refine { h with lane := ?_, home := ?_, done := ?_ }
  · rw [hids']
    exact h.lane
  · rw [hids']
    exact h.home
  · rw [hids']
    exact h.done

theorem identified_maxStreams {st : StreamType} (hn : n ≤ varintMax) :
    Identified c₀ (c.handleMaxStreamsFrame st n).1 (tr ++ (c.handleMaxStreamsFrame st n).2) := by
  have hl := h.lane st.direction
  have heq : (c.handleMaxStreamsFrame st n).1 = c.setLane st.direction
      { c.lanes st.direction with maxPeerStreams := max (c.lanes st.direction).maxPeerStreams n } := by
    unfold handleMaxStreamsFrame
    dsimp only
    split
    · rename_i hlt
      rw [max_eq_right hlt.le]
    · rename_i hle
      rw [max_eq_left (not_lt.1 hle), setLane_self]
  rw [heq]
  refine { h with lane := ?_, completed := fun id' hid' => ?_ }
  · refine tracks_update h.lane (fun d' hd => ?_) (List.Subset.refl _) (fun _ hid hold => absurd hid hold) ?_
    · exact ⟨rfl, rfl, rfl, fun _ => if_neg (Ne.symm hd)⟩
    · refine ⟨hl.maxLocal, hl.cap, ?_, max_le hl.maxPeer_le hn, ?_, ?_, ?_, ?_, ⟨hl.next.1, ?_⟩, hl.numbered⟩
      · rw [peerLimit_append, ← hl.maxPeer]
        exact (if_pos rfl).symm
      · exact fun id' hid' => hl.created id' (by simpa [createdIn, handleMaxStreamsFrame] using hid')
      · simpa [createdIn, handleMaxStreamsFrame] using hl.nodup
      · simpa [createdIn, acceptedIn, handleMaxStreamsFrame] using hl.queue
      · simpa [openedIn, handleMaxStreamsFrame] using hl.opened
      · exact hl.next.2.trans (le_max_left _ _)
  · exact h.completed id' ((mem_append.1 hid').resolve_right (by simp [handleMaxStreamsFrame]))

theorem identified_routed (r : Routed) : Identified c₀ c (tr ++ [.routed r]) :=
  identified_quiet h (by simp [ConnEvent.isQuiet])

theorem identified_newBidi (hlt : id < 2 ^ 64) (hb : isBidi id) (hnone : c.bidiStreams id = none)
    (hclosed : ¬ c.closedStreams id) (hpeer : isPeerInitiated c.perspective id)
    (hnum : ¬ (c.lanes .bidi).maxLocalStreams < streamNum id) :
    Identified c₀ (c.acceptNew .bidi Conn.createBidiStreamLocked id).1
      (tr ++ (c.acceptNew .bidi Conn.createBidiStreamLocked id).2) := by
  have hdir := direction_of_isBidi hb
  have hhome : c.home id = none := by simp [home, hdir, hnone]
  exact identified_acceptNew h (makes_bidi hdir) rfl hdir hpeer hlt (not_lt.1 hnum)
    (h.unused hhome (by simpa using hclosed))

theorem identified_newUni (hlt : id < 2 ^ 64) (hb : ¬ isBidi id) (hnone : c.recvStreams id = none)
    (hclosed : ¬ c.closedStreams id) (hpeer : isPeerInitiated c.perspective id)
    (hnum : ¬ (c.lanes .uni).maxLocalStreams < streamNum id) :
    Identified c₀ (c.acceptNew .uni Conn.createReceiveStream id).1
      (tr ++ (c.acceptNew .uni Conn.createReceiveStream id).2) := by
  have hdir := direction_of_not_isBidi hb
  have hhome : c.home id = none := by simp [home, hdir, hpeer, hnone]
  exact identified_acceptNew h (makes_receive hdir hpeer) rfl hdir hpeer hlt (not_lt.1 hnum)
    (h.unused hhome (by simpa using hclosed))

theorem identified_handleStreamFrame (hlt : id < 2 ^ 64) :
    Identified c₀ (c.handleStreamFrame id).1 (tr ++ (c.handleStreamFrame id).2) := by
  unfold handleStreamFrame
  repeat' first
    | exact identified_routed h _
    | exact identified_newBidi h hlt ‹_› ‹_› ‹_› (not_not.1 ‹_›) ‹_›
    | exact identified_newUni h hlt ‹_› ‹_› ‹_› (not_not.1 ‹_›) ‹_›
    | split

theorem identified_handleResetStreamFrame (hlt : id < 2 ^ 64) :
    Identified c₀ (c.handleResetStreamFrame id).1 (tr ++ (c.handleResetStreamFrame id).2) := by
  unfold handleResetStreamFrame
  dsimp only
  split
  · exact identified_routed h _
  split
  · exact identified_routed h _
  rename_i hbidi
  split
  · exact identified_routed h _
  rename_i huni
  repeat' first
    | exact identified_routed h _
    | exact identified_newBidi h hlt ‹_› ‹_› ‹_› ‹_› fun hnum => hbidi ⟨‹_›, ‹_›, hnum⟩
    | exact identified_newUni h hlt ‹_› ‹_› ‹_› ‹_› fun hnum => huni ⟨‹_›, ‹_›, hnum⟩
    | split

theorem identified_onHalfCompleted {isSend : Bool} (hobj : c.heap[addr]? = some obj) :
    Identified c₀ (c.onHalfCompleted addr obj isSend).1 (tr ++ (c.onHalfCompleted addr obj isSend).2) := by
  have hmem : obj.id ∈ c.ids := mem_map_of_mem (mem_of_getElem? hobj)
  obtain ⟨obj', hid, heq⟩ := onHalfCompleted_cases c addr obj isSend
  have hheap : Identified c₀ { c with heap := c.heap.set addr obj' } tr := identified_heap h (ids_set hobj hid)
  rcases heq with heq | heq
  · rw [heq, append_nil]
    exact hheap
  · rw [heq]
    refine identified_completed hheap ?_
    rw [ids, ids_set hobj hid]
    exact hmem

end Steps

/-! ## Whole runs -/

/-- A MAX_STREAMS frame carries a QUIC integer. -/
def ConnOp.IsVarint : ConnOp → Prop
  | .handleMaxStreamsFrame _ n => n ≤ varintMax
  | _ => True

theorem identified_step {e : ConnOp} (he : e.IsVarint) (h : Identified c₀ c tr) (hs : c.step e = some (c', o)) :
    Identified c₀ c' (tr ++ o) := by
  have hout : ∀ r : Conn × List ConnEvent, some r = some (c', o) → Identified c₀ r.1 (tr ++ r.2) →
      Identified c₀ c' (tr ++ o) := by
    rintro r heq hr
    cases heq
    exact hr
  cases e with
  | openStream => exact hout _ hs (identified_openNext h fun _ _ hdir _ => makes_bidi hdir)
  | openUniStream => exact hout _ hs (identified_openNext h fun _ _ hdir hlocal => makes_send hdir hlocal)
  | handleStreamFrame id => exact hout _ hs (identified_handleStreamFrame h id.toNat_lt)
  | handleResetStreamFrame id => exact hout _ hs (identified_handleResetStreamFrame h id.toNat_lt)
  | handleMaxStreamsFrame st n => exact hout _ hs (identified_maxStreams h he)
  | acceptStream ctxDone => exact hout _ hs (identified_acceptFrom h)
  | acceptUniStream ctxDone => exact hout _ hs (identified_acceptFrom h)
  | completed addr isSend =>
    simp only [step] at hs
    split at hs
    · cases hs
    rename_i obj hobj
    split at hs
    · exact hout _ hs (identified_onHalfCompleted h hobj)
    · exact hout _ hs (identified_completed h (mem_map_of_mem (mem_of_getElem? hobj)))
  | closeWithError =>
    cases hs
    rw [append_nil]
    exact identified_heap h rfl

/-- Stream identity, over every run: an ID of the peer is used once and within
our limit; streams are accepted once each, in the order of their creation; our
own IDs are numbered one by one within the peer's limit; and a completed ID is in
no map of active streams. -/
theorem stream_identity (cfg : ConnConfig)
    (hcfg : cfg.initialPeerMaxStreamsBidi ≤ varintMax ∧ cfg.initialPeerMaxStreamsUni ≤ varintMax) (es : List ConnOp)
    (hes : ∀ e ∈ es, e.IsVarint) (c : Conn) (tr : List ConnEvent) (hr : run Conn.step (newConn cfg) es = some (c, tr)) :
    (∀ d, (createdIn d tr).Nodup ∧ ∀ id ∈ createdIn d tr,
      isPeerInitiated cfg.perspective id ∧ streamNum id ≤ ((newConn cfg).lanes d).maxLocalStreams) ∧
    (∀ d, (c.lanes d).acceptQueue = [] ∧ createdIn d tr = acceptedIn d tr ++ (c.lanes d).acceptCh.map (·.id)) ∧
    (∀ d, (openedIn d tr).Nodup ∧ (openedIn d tr).map streamNum = List.range' 1 (openedIn d tr).length ∧
      ∀ id ∈ openedIn d tr, streamNum id ≤ peerLimit ((newConn cfg).lanes d).maxPeerStreams d tr) ∧
    (∀ id, .completed id ∈ tr → c.bidiStreams id = none ∧ c.sendStreams id = none ∧ c.recvStreams id = none) := by
  have hlim : ∀ d, ((newConn cfg).lanes d).maxPeerStreams ≤ varintMax := by
    have hdef : ∀ n, n ≤ varintMax → orDefault n ≤ varintMax := by
      intro n hn
      unfold orDefault
      split
      · decide
      · exact hn
    intro d
    cases d
    · exact hdef _ hcfg.1
    · exact hdef _ hcfg.2
  have h : Identified (newConn cfg) c tr :=
    run_inv (Identified (newConn cfg)) (fun _ _ _ _ _ he hI hs => identified_step he hI hs) hes (identified_new cfg hlim) hr
  refine ⟨fun d => ⟨(h.lane d).nodup, fun id hid => ?_⟩, fun d => (h.lane d).queue, fun d => ?_, fun id hid => ?_⟩
  · obtain ⟨-, -, hpeer, -, hnum⟩ := (h.lane d).created id hid
    rw [h.perspective] at hpeer
    rw [(h.lane d).maxLocal] at hnum
    exact ⟨hpeer, hnum⟩
  · have hnums := (h.lane d).opened
    have hlen : (openedIn d tr).length = (c.lanes d).nextLocalStreamNum - 1 := by simpa using congrArg List.length hnums
    refine ⟨List.Nodup.of_map streamNum (hnums ▸ nodup_range'), hlen ▸ hnums, fun id hid => ?_⟩
    have hmem : streamNum id ∈ List.range' 1 ((c.lanes d).nextLocalStreamNum - 1) := hnums ▸ mem_map_of_mem hid
    have hle := (mem_range'_1.1 hmem).2
    rw [← (h.lane d).maxPeer]
    have := (h.lane d).next.2
    omega
  · have hact := (h.done id (h.completed id hid)).2
    simpa [Conn.Active, not_or] using hact

/-- A server: the client's stream 4 is created, reset late after it is done, and
accepted once; the server opens a stream of its own. -/
theorem stream_identity_late_reset :
    ∃ c tr, run Conn.step (newConn ⟨.server, 3, 3, 3, 3⟩)
        [.handleStreamFrame 4, .acceptStream false, .completed 0 true, .completed 0 false, .handleResetStreamFrame 4,
          .openStream] = some (c, tr) ∧
      createdIn .bidi tr = [4] ∧ acceptedIn .bidi tr = [4] ∧ openedIn .bidi tr = [1] ∧ c.bidiStreams 4 = none := by
  refine ⟨_, _, rfl, rfl, rfl, rfl, ?_⟩
  exact ((stream_identity ⟨.server, 3, 3, 3, 3⟩ (by decide)
    [.handleStreamFrame 4, .acceptStream false, .completed 0 true, .completed 0 false, .handleResetStreamFrame 4,
      .openStream] (by simp [ConnOp.IsVarint]) _ _ rfl).2.2.2 4 (by decide)).1

end Mach.Quic.Stream
