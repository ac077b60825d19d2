import Mathlib.Data.List.Nodup
import Mach.Lib.Run
/-!
# The client's stream table

`Conn` finds the `Context` of a stream in an open-addressing table of 2048
atomic slots with eight probes, and in sixteen locked overflow maps behind it.
The write loop stores, the read loop looks up, deletes and purges, and callers
that cancel delete, all without a common lock.

The machine below takes every atomic access of a slot and every locked section
of a shard as one step, so that its runs are all interleavings of any number of
callers. What is promised is about histories: the calls and returns a run shows.
-/

namespace Mach.H2.Client
open Lib List Function

variable {t : Table} {ctx : Context}

/-! ## The table and its operations -/

def streamTableSize : Nat := 2048
def streamMaxProbes : Nat := 8
def streamNumShards : Nat := 16

/-- A context as the table sees it: which object it is, and its `StreamID`. -/
structure Context where
  ref : Nat
  streamID : Nat
  deriving DecidableEq, Repr

structure Table where
  reqStreams : Nat → Option Context
  overflow : Nat → Nat → Option Context

def probe (streamID i : Nat) : Nat := (streamID / 2 % streamTableSize + i) % streamTableSize

def shardIdx (streamID : Nat) : Nat := streamID / 2 % streamNumShards

def Table.empty : Table := ⟨fun _ => none, fun _ _ => none⟩

def Table.setSlot (t : Table) (idx : Nat) (v : Option Context) : Table :=
  { t with reqStreams := Function.update t.reqStreams idx v }

def Table.setOverflow (t : Table) (streamID : Nat) (v : Option Context) : Table :=
  { t with overflow := fun j id => if j = shardIdx streamID ∧ id = streamID then v else t.overflow j id }

/-- The locked section of the purge for one shard. -/
def Table.purgeShard (t : Table) (j lastStreamID : Nat) : Table :=
  { t with overflow := fun j' id => if j' = j ∧ lastStreamID < id then none else t.overflow j' id }

/-- The probes of `getStream` that are left, on a table that does not change. -/
def getStreamFrom (t : Table) (streamID : Nat) : Nat → Nat → Option Context
  | _, 0 => t.overflow (shardIdx streamID) streamID
  | i, n + 1 =>
    match t.reqStreams (probe streamID i) with
    | some ctx => if ctx.streamID = streamID then some ctx else getStreamFrom t streamID (i + 1) n
    | none => getStreamFrom t streamID (i + 1) n

def getStream (t : Table) (streamID : Nat) : Option Context := getStreamFrom t streamID 0 streamMaxProbes

inductive Op where
  | storeStream (ctx : Context)
  | getStream (streamID : Nat)
  | deleteStream (streamID : Nat)
  | purgeStreamsAfterID (lastStreamID : Nat)
  deriving DecidableEq, Repr

/-- Where a caller is in its operation. A loop index at its bound stands for the
locked section after the loop. -/
inductive Proc where
  | idle
  | storing (ctx : Context) (i : Nat)
  | getting (streamID i : Nat)
  | deleting (streamID i : Nat)
  /-- `deleteStream` between the load that found `cur` and its `Store(nil)`. -/
  | erasing (streamID idx : Nat) (cur : Context)
  | purging (lastStreamID i : Nat)
  /-- `purgeStreamsAfterID` between the load that found `ctx` and its `Store(nil)`. -/
  | purgeErasing (lastStreamID i : Nat) (ctx : Context)
  | purgingShard (lastStreamID j : Nat)
  deriving DecidableEq, Repr

inductive Next where
  | go (p : Proc)
  | done (result : Option Context)

def Op.start : Op → Proc
  | .storeStream ctx => .storing ctx 0
  | .getStream id => .getting id 0
  | .deleteStream id => .deleting id 0
  | .purgeStreamsAfterID last => .purging last 0

def Proc.op : Proc → Option Op
  | .idle => none
  | .storing ctx _ => some (.storeStream ctx)
  | .getting id _ => some (.getStream id)
  | .deleting id _ | .erasing id _ _ => some (.deleteStream id)
  | .purging last _ | .purgeErasing last _ _ | .purgingShard last _ => some (.purgeStreamsAfterID last)

def Proc.step (t : Table) : Proc → Option (Table × Next)
  | .idle => none
  | .storing ctx i =>
    if i < streamMaxProbes then
      -- CompareAndSwap(nil, ctx)
      match t.reqStreams (probe ctx.streamID i) with
      | none => some (t.setSlot (probe ctx.streamID i) (some ctx), .done none)
      | some _ => some (t, .go (.storing ctx (i + 1)))
    else some (t.setOverflow ctx.streamID (some ctx), .done none)
  | .getting id i =>
    if i < streamMaxProbes then
      match t.reqStreams (probe id i) with
      | none => some (t, .go (.getting id (i + 1)))
      | some ctx => if ctx.streamID = id then some (t, .done (some ctx)) else some (t, .go (.getting id (i + 1)))
    else some (t, .done (t.overflow (shardIdx id) id))
  | .deleting id i =>
    if i < streamMaxProbes then
      match t.reqStreams (probe id i) with
      | none => some (t, .go (.deleting id (i + 1)))
      | some cur =>
        if cur.streamID = id then some (t, .go (.erasing id (probe id i) cur))
        else some (t, .go (.deleting id (i + 1)))
    else some (t.setOverflow id none, .done none)
  | .erasing _ idx _ => some (t.setSlot idx none, .done none)
  | .purging last i =>
    if i < streamTableSize then
      match t.reqStreams i with
      | none => some (t, .go (.purging last (i + 1)))
      | some ctx =>
        if last < ctx.streamID then some (t, .go (.purgeErasing last i ctx))
        else some (t, .go (.purging last (i + 1)))
    else some (t, .go (.purgingShard last 0))
  | .purgeErasing last i _ => some (t.setSlot i none, .go (.purging last (i + 1)))
  | .purgingShard last j =>
    if j < streamNumShards then some (t.purgeShard j last, .go (.purgingShard last (j + 1)))
    else some (t, .done none)

/-! ## Callers in any interleaving -/

structure State where
  table : Table
  procs : Nat → Proc

def State.init : State := ⟨.empty, fun _ => .idle⟩

inductive Label where
  | call (p : Nat) (op : Op)
  | step (p : Nat)
  deriving DecidableEq, Repr

/-- What a run shows: an operation begins, or ends with a result. -/
inductive Event where
  | call (p : Nat) (op : Op)
  | ret (p : Nat) (op : Op) (result : Option Context)
  deriving DecidableEq, Repr

def Event.proc : Event → Nat
  | .call p _ | .ret p _ _ => p

def State.set (s : State) (t : Table) (p : Nat) (q : Proc) : State := ⟨t, Function.update s.procs p q⟩

def step (s : State) : Label → Option (State × List Event)
  | .call p op => if s.procs p = .idle then some (s.set s.table p op.start, [.call p op]) else none
  | .step p =>
    match (s.procs p).op, (s.procs p).step s.table with
    | some _, some (t, .go q) => some (s.set t p q, [])
    | some op, some (t, .done r) => some (s.set t p .idle, [.ret p op r])
    | _, _ => none

/-! ## What a history shows -/

/-- The operation ends the life of the stream: it deletes its id, or purges a
range that holds it. -/
def Op.Covers : Op → Context → Prop
  | .deleteStream id, ctx => ctx.streamID = id
  | .purgeStreamsAfterID last, ctx => last < ctx.streamID
  | _, _ => False

/-- Some operation that ends the life of the stream has begun. -/
def Covered (tr : List Event) (ctx : Context) : Prop := ∃ p op, .call p op ∈ tr ∧ op.Covers ctx

def Stored (tr : List Event) (ctx : Context) : Prop := ∃ p r, .ret p (.storeStream ctx) r ∈ tr

def Event.storing? : Event → Option Context
  | .call _ (.storeStream ctx) => some ctx
  | _ => none

def DistinctIds (tr : List Event) : Prop := ((tr.filterMap Event.storing?).map Context.streamID).Nodup

/-- A `getStream` that began after the context was stored, and by whose return
nothing that ends its stream had begun, returns it. -/
def FindsStored (tr : List Event) : Prop :=
  ∀ t₁ t₂ t₃ p ctx r,
    tr = t₁ ++ .call p (.getStream ctx.streamID) :: t₂ ++ .ret p (.getStream ctx.streamID) r :: t₃ →
    (∀ e ∈ t₂, e.proc ≠ p) → Stored t₁ ctx → ¬ Covered (t₁ ++ t₂) ctx → r = some ctx

/-- What `getStream` returns has the id asked for. -/
def FindsOwnId (tr : List Event) : Prop :=
  ∀ p id ctx, .ret p (.getStream id) (some ctx) ∈ tr → ctx.streamID = id

/-- No live stream is lost: a look-up now would find it, and every look-up that
has returned did. -/
def NoLiveStreamLost (s : State) (tr : List Event) : Prop :=
  DistinctIds tr →
    (∀ ctx, Stored tr ctx → ¬ Covered tr ctx → getStream s.table ctx.streamID = some ctx) ∧
      FindsStored tr ∧ FindsOwnId tr

/-- The slot a caller is about to clear holds nothing but what its load found. -/
def Proc.ErasesFound (t : Table) : Proc → Prop
  | .erasing _ idx cur | .purgeErasing _ idx cur => t.reqStreams idx = none ∨ t.reqStreams idx = some cur
  | _ => True

instance (t : Table) (q : Proc) : Decidable (q.ErasesFound t) := by
  cases q <;> unfold Proc.ErasesFound <;> infer_instance

/-- The `Store(nil)` of a delete or a purge erases nothing but what its load
found. -/
def ErasesWhatItFound (s : State) : Label → Prop
  | .call _ _ => True
  | .step p => (s.procs p).ErasesFound s.table

instance (s : State) (e : Label) : Decidable (ErasesWhatItFound s e) := by
  cases e <;> unfold ErasesWhatItFound <;> infer_instance

/-! ## Places of a context -/

/-- The context is where the probes from the `i`-th on, or the overflow map, find it. -/
def HeldFrom (t : Table) (ctx : Context) (i : Nat) : Prop :=
  (∃ j, i ≤ j ∧ j < streamMaxProbes ∧ t.reqStreams (probe ctx.streamID j) = some ctx) ∨
    t.overflow (shardIdx ctx.streamID) ctx.streamID = some ctx

def Table.Has (t : Table) (ctx : Context) : Prop :=
  (∃ idx, t.reqStreams idx = some ctx) ∨ ∃ j id, t.overflow j id = some ctx

/-- What held the context in `t` still holds it in `t'`. -/
def Keeps (t t' : Table) (ctx : Context) : Prop :=
  (∀ idx, t.reqStreams idx = some ctx → t'.reqStreams idx = some ctx) ∧
    ∀ j id, t.overflow j id = some ctx → t'.overflow j id = some ctx

theorem Keeps.refl (t : Table) (ctx : Context) : Keeps t t ctx := ⟨fun _ => id, fun _ _ => id⟩

variable {t' : Table}

theorem HeldFrom.keeps {i : Nat} (h : HeldFrom t ctx i) (hk : Keeps t t' ctx) : HeldFrom t' ctx i := by
  obtain ⟨j, hij, hj, hs⟩ | ho := h
  · exact .inl ⟨j, hij, hj, hk.1 _ hs⟩
  · exact .inr (hk.2 _ _ ho)

variable {r v : Option Context}

theorem keeps_setSlot {idx : Nat}
    (h : t.reqStreams idx = some ctx → v = some ctx) : Keeps t (t.setSlot idx v) ctx := by
  refine ⟨fun idx' h' => ?_, fun _ _ => id⟩
  by_cases he : idx' = idx
  · subst he
    simp [Table.setSlot, h h']
  · simp [Table.setSlot, update_of_ne he, h']

theorem keeps_setOverflow {id : Nat}
    (h : t.overflow (shardIdx id) id = some ctx → v = some ctx) : Keeps t (t.setOverflow id v) ctx := by
  refine ⟨fun _ h' => h', fun j id' h' => ?_⟩
  simp only [Table.setOverflow]
  split
  · rename_i he
    obtain ⟨rfl, rfl⟩ := he
    exact h h'
  · exact h'

theorem keeps_purgeShard {j last : Nat}
    (h : ∀ id, t.overflow j id = some ctx → ¬ last < id) : Keeps t (t.purgeShard j last) ctx := by
  refine ⟨fun _ => id, fun j' id h' => ?_⟩
  simp only [Table.purgeShard]
  split
  · rename_i he
    obtain ⟨rfl, hlt⟩ := he
    exact absurd hlt (h id h')
  · exact h'

/-- A look-up whose remaining probes hold the context, in a table with no other
context of that id, finds it. -/
theorem getStreamFrom_held (hu : ∀ c, t.Has c → c.streamID = ctx.streamID → c = ctx)
    {i n : Nat} (hn : i + n = streamMaxProbes) (h : HeldFrom t ctx i) :
    getStreamFrom t ctx.streamID i n = some ctx := by
  induction n generalizing i with
  | zero =>
    obtain ⟨j, hij, hj, -⟩ | ho := h
    · omega
    · exact ho
  | succ n ih =>
    simp only [getStreamFrom]
    -- Either this probe holds it, or a later place does.
    have hnext : t.reqStreams (probe ctx.streamID i) ≠ some ctx → HeldFrom t ctx (i + 1) := by
      intro hne
      obtain ⟨j, hij, hj, hs⟩ | ho := h
      · have : j ≠ i := fun e => hne (e ▸ hs)
        exact .inl ⟨j, by omega, hj, hs⟩
      · exact .inr ho
    cases hp : t.reqStreams (probe ctx.streamID i) with
    | none => exact ih (by omega) (hnext (by simp [hp]))
    | some c =>
      simp only
      split
      · rename_i he
        rw [hu c (.inl ⟨_, hp⟩) he]
      · rename_i he
        exact ih (by omega) (hnext fun e => he (by rw [hp] at e; cases e; rfl))

/-! ## One step -/

/-- The table holds only contexts the history stores, each overflow entry under its own id. -/
structure Filed (t : Table) (tr : List Event) : Prop where
  stored : ∀ ctx, t.Has ctx → ∃ p, .call p (.storeStream ctx) ∈ tr
  keyed : ∀ j id ctx, t.overflow j id = some ctx → ctx.streamID = id

/-- The context a step that is about to erase found is one its operation covers. -/
def Proc.Aims : Proc → Prop
  | .erasing id _ cur => cur.streamID = id
  | .purgeErasing last _ ctx => last < ctx.streamID
  | _ => True

variable {tr o : List Event} {p : Nat}

theorem eq_of_distinctIds (h : DistinctIds tr) {q : Nat} {a b : Context}
    (ha : .call p (.storeStream a) ∈ tr) (hb : .call q (.storeStream b) ∈ tr) (hid : a.streamID = b.streamID) :
    a = b := by
  apply inj_on_of_nodup_map h ?_ ?_ hid
  · exact mem_filterMap.2 ⟨_, ha, rfl⟩
  · exact mem_filterMap.2 ⟨_, hb, rfl⟩

theorem DistinctIds.of_append (h : DistinctIds (tr ++ o)) : DistinctIds tr := by
  simp only [DistinctIds, filterMap_append, map_append] at h
  exact (nodup_append.1 h).1

/-- What one step of a caller does to the table, and how it goes on. -/
inductive Effect (t : Table) : Proc → Table → Next → Prop
  | look {q q' : Proc} (hop : q'.op = q.op) (haim : q'.Aims) (hq : ∀ id i, q ≠ .getting id i) : Effect t q t (.go q')
  | put {ctx i} (hi : i < streamMaxProbes) (hs : t.reqStreams (probe ctx.streamID i) = none) :
    Effect t (.storing ctx i) (t.setSlot (probe ctx.streamID i) (some ctx)) (.done none)
  | putOverflow {ctx i} : Effect t (.storing ctx i) (t.setOverflow ctx.streamID (some ctx)) (.done none)
  | miss {id i} (hi : i < streamMaxProbes) (hs : ∀ ctx, t.reqStreams (probe id i) = some ctx → ctx.streamID ≠ id) :
    Effect t (.getting id i) t (.go (.getting id (i + 1)))
  | hit {id i ctx} (hs : t.reqStreams (probe id i) = some ctx) (hid : ctx.streamID = id) :
    Effect t (.getting id i) t (.done (some ctx))
  | lookOverflow {id i} (hi : streamMaxProbes ≤ i) : Effect t (.getting id i) t (.done (t.overflow (shardIdx id) id))
  | dropOverflow {id i} : Effect t (.deleting id i) (t.setOverflow id none) (.done none)
  | erase {id idx cur} : Effect t (.erasing id idx cur) (t.setSlot idx none) (.done none)
  | purgeErase {last i cur} : Effect t (.purgeErasing last i cur) (t.setSlot i none) (.go (.purging last (i + 1)))
  | purgeShard {last j} : Effect t (.purgingShard last j) (t.purgeShard j last) (.go (.purgingShard last (j + 1)))
  | purged {last j} : Effect t (.purgingShard last j) t (.done none)

section OneStep

variable {q : Proc} {n : Next} {id i : Nat}

theorem effect_of_step (h : q.step t = some (t', n)) : Effect t q t' n := by
  cases q with
  | idle => cases h
  | storing ctx i =>
    simp only [Proc.step] at h
    repeat' split at h
    all_goals cases h
    · exact .put ‹_› ‹_›
    · exact .look rfl trivial (by simp)
    · exact .putOverflow
  | getting id i =>
    simp only [Proc.step] at h
    repeat' split at h
    all_goals cases h
    · exact .miss ‹_› (by simp [*])
    · exact .hit ‹_› ‹_›
    · exact .miss ‹_› (by simp [*])
    · exact .lookOverflow (by omega)
  | deleting id i =>
    simp only [Proc.step] at h
    repeat' split at h
    all_goals cases h
    · exact .look rfl trivial (by simp)
    · exact .look rfl ‹_› (by simp)
    · exact .look rfl trivial (by simp)
    · exact .dropOverflow
  | erasing id idx cur =>
    cases h
    exact .erase
  | purging last i =>
    simp only [Proc.step] at h
    repeat' split at h
    all_goals cases h
    · exact .look rfl trivial (by simp)
    · exact .look rfl ‹_› (by simp)
    all_goals exact .look rfl trivial (by simp)
  | purgeErasing last i ctx =>
    cases h
    exact .purgeErase
  | purgingShard last j =>
    simp only [Proc.step] at h
    split at h <;> cases h
    · exact .purgeShard
    · exact .purged

theorem eq_of_erasesFound {cur : Context} {idx : Nat}
    (h : t.reqStreams idx = none ∨ t.reqStreams idx = some cur) (hs : t.reqStreams idx = some ctx) : ctx = cur := by
  obtain hn | hc := h
  · rw [hs] at hn
    cases hn
  · rw [hs] at hc
    cases hc
    rfl

/-- A step keeps every context that nothing in the history covers. -/
theorem Effect.keeps (he : Effect t q t' n) (hd : DistinctIds tr) (hf : Filed t tr)
    (hop : ∀ op, q.op = some op → .call p op ∈ tr) (haim : q.Aims)
    (herase : q.ErasesFound t) (hc : ¬ Covered tr ctx) : Keeps t t' ctx := by
  have hcov : ∀ op, q.op = some op → ¬ op.Covers ctx := fun op ho hcv => hc ⟨p, op, hop op ho, hcv⟩
  cases he with
  | look | miss | hit | lookOverflow | purged => exact .refl _ _
  | put hi hs => exact keeps_setSlot fun e => by simp [hs] at e
  | putOverflow =>
    -- The entry that is overwritten, if any, has the id of the new one.
    refine keeps_setOverflow fun e => ?_
    obtain ⟨r, hr⟩ := hf.stored ctx (.inr ⟨_, _, e⟩)
    rw [eq_of_distinctIds hd hr (hop _ rfl) (hf.keyed _ _ _ e)]
  | dropOverflow => exact keeps_setOverflow fun e => absurd (hf.keyed _ _ _ e) (hcov _ rfl)
  | @erase _ _ cur | @purgeErase _ _ cur =>
    refine keeps_setSlot fun e => ?_
    have he : ctx = cur := eq_of_erasesFound herase e
    exact absurd (he ▸ haim) (hcov _ rfl)
  | purgeShard => exact keeps_purgeShard fun id e => hf.keyed _ _ _ e ▸ hcov _ rfl

/-- Whatever place a step writes, it writes one value: nothing, or the context of a `storeStream` under its id. -/
theorem Effect.writes (he : Effect t q t' n) : ∃ v, (∀ c, v = some c → q.op = some (.storeStream c)) ∧
    (∀ idx, t'.reqStreams idx = t.reqStreams idx ∨ t'.reqStreams idx = v) ∧
    ∀ j id, t'.overflow j id = t.overflow j id ∨ t'.overflow j id = v ∧ ∀ c, v = some c → c.streamID = id := by
  have hslot : ∀ idx v idx', (t.setSlot idx v).reqStreams idx' = t.reqStreams idx' ∨ (t.setSlot idx v).reqStreams idx' = v := by
    intro idx v idx'
    simp only [Table.setSlot, update_apply]
    split <;> simp
  cases he with
  | look | miss | hit | lookOverflow | purged => exact ⟨none, nofun, fun _ => .inl rfl, fun _ _ => .inl rfl⟩
  | put => exact ⟨_, fun c h => by cases h; rfl, hslot _ _, fun _ _ => .inl rfl⟩
  | erase | purgeErase => exact ⟨none, nofun, hslot _ _, fun _ _ => .inl rfl⟩
  | @putOverflow ctx =>
    refine ⟨some ctx, fun c h => by cases h; rfl, fun _ => .inl rfl, fun j id => ?_⟩
    simp only [Table.setOverflow]
    split
    · rename_i h
      exact .inr ⟨rfl, fun c hc => by cases hc; exact h.2.symm⟩
    · exact .inl rfl
  | dropOverflow | purgeShard =>
    refine ⟨none, nofun, fun _ => .inl rfl, fun j id => ?_⟩
    simp only [Table.setOverflow, Table.purgeShard]
    split
    · exact .inr ⟨rfl, nofun⟩
    · exact .inl rfl

theorem Effect.filed (he : Effect t q t' n) (hf : Filed t tr) (hop : ∀ op, q.op = some op → .call p op ∈ tr) :
    Filed t' tr := by
  obtain ⟨v, hv, hslot, hover⟩ := he.writes
  refine ⟨fun ctx h => ?_, fun j id ctx ho => ?_⟩
  · obtain ⟨idx, hs⟩ | ⟨j, id, ho⟩ := h
    · obtain heq | heq := hslot idx
      · exact hf.stored ctx (.inl ⟨idx, heq ▸ hs⟩)
      · exact ⟨p, hop _ (hv ctx (heq ▸ hs))⟩
    · obtain heq | ⟨heq, -⟩ := hover j id
      · exact hf.stored ctx (.inr ⟨j, id, heq ▸ ho⟩)
      · exact ⟨p, hop _ (hv ctx (heq ▸ ho))⟩
  · obtain heq | ⟨heq, hid⟩ := hover j id
    · exact hf.keyed j id ctx (heq ▸ ho)
    · exact hid ctx (heq ▸ ho)

theorem Effect.op_go {q' : Proc} (he : Effect t q t' (.go q')) : q'.op = q.op ∧ q'.Aims := by
  cases he with
  | look hop haim => exact ⟨hop, haim⟩
  | miss | purgeErase | purgeShard => exact ⟨rfl, trivial⟩

/-- When `storeStream` returns, a look-up from its first probe finds the context. -/
theorem Effect.held_of_store (he : Effect t q t' (.done r))
    (hq : q.op = some (.storeStream ctx)) : HeldFrom t' ctx 0 := by
  cases he with
  | @put c i hi hs =>
    cases hq
    exact .inl ⟨i, Nat.zero_le _, hi, by simp [Table.setSlot]⟩
  | putOverflow =>
    cases hq
    exact .inr (by simp [Table.setOverflow])
  | hit | lookOverflow | dropOverflow | erase | purged => cases hq

/-- A look-up that goes on leaves a context it still can find to its later probes. -/
theorem Effect.held_of_go {q' : Proc} (he : Effect t (.getting id i) t' (.go q'))
    (hid : ctx.streamID = id) (h : HeldFrom t ctx i) : q' = .getting id (i + 1) ∧ HeldFrom t' ctx (i + 1) := by
  cases he with
  | look _ _ hq => exact absurd rfl (hq id i)
  | miss hi hs =>
    refine ⟨rfl, ?_⟩
    obtain ⟨j, hij, hj, hjs⟩ | ho := h
    · have hne : j ≠ i := by
        rintro rfl
        exact hs ctx (hid ▸ hjs) hid
      exact .inl ⟨j, by omega, hj, hjs⟩
    · exact .inr ho

/-- A look-up that ends returns the context it still could find, if no other in
the table has its id. -/
theorem Effect.found (he : Effect t (.getting id i) t' (.done r))
    (hu : ∀ c, t.Has c → c.streamID = id → c = ctx) (hid : ctx.streamID = id) (h : HeldFrom t ctx i) :
    r = some ctx := by
  cases he with
  | @hit _ _ c hs hc => rw [hu c (.inl ⟨_, hs⟩) hc]
  | lookOverflow hi =>
    obtain ⟨j, hij, hj, -⟩ | ho := h
    · omega
    · rw [← hid, ho]

/-- A look-up that ends with a context returns one with the id asked for. -/
theorem Effect.found_id (he : Effect t (.getting id i) t' (.done (some ctx)))
    (hk : ∀ j id ctx, t.overflow j id = some ctx → ctx.streamID = id) : ctx.streamID = id := by
  generalize hr : some ctx = r at he
  cases he with
  | hit hs hc =>
    cases hr
    exact hc
  | lookOverflow hi => exact hk _ _ _ hr.symm

end OneStep

/-! ## Every interleaving -/

/-- The caller has begun its operation, which covers what it is about to erase. -/
def Proc.Runs (tr : List Event) (p : Nat) (q : Proc) : Prop := (∀ op, q.op = some op → .call p op ∈ tr) ∧ q.Aims

/-- A look-up in progress can still find each context that was stored before it began and that nothing covers. -/
def Proc.Searches (t : Table) (tr : List Event) (p : Nat) (q : Proc) : Prop :=
  ∀ i ctx t₁ t₂, q = .getting ctx.streamID i → tr = t₁ ++ .call p (.getStream ctx.streamID) :: t₂ →
    (∀ e ∈ t₂, e.proc ≠ p) → Stored t₁ ctx → ¬ Covered tr ctx → HeldFrom t ctx i

structure Inv (s : State) (tr : List Event) : Prop where
  filed : Filed s.table tr
  runs : ∀ p, (s.procs p).Runs tr p
  held : ∀ ctx, Stored tr ctx → ¬ Covered tr ctx → HeldFrom s.table ctx 0
  searching : ∀ p, (s.procs p).Searches s.table tr p
  finds : FindsStored tr
  ownId : FindsOwnId tr

theorem concat_eq_split {α : Type} {tr a b : List α} {e x : α} (h : tr ++ [e] = a ++ x :: b) :
    (b = [] ∧ x = e ∧ a = tr) ∨ ∃ b', b = b' ++ [e] ∧ tr = a ++ x :: b' := by
  obtain rfl | ⟨b', y, rfl⟩ := eq_nil_or_concat b
  · obtain ⟨rfl, hx⟩ := append_inj' h rfl
    cases hx
    exact .inl ⟨rfl, rfl, rfl⟩
  · rw [concat_eq_append, ← cons_append, ← append_assoc] at h
    obtain ⟨rfl, hx⟩ := append_inj' h rfl
    cases hx
    exact .inr ⟨b', by simp, rfl⟩

section Histories

variable {e : Event} {tr' t₁ t₂ : List Event}

theorem Stored.mono (h : Stored tr ctx) (hs : tr ⊆ tr') : Stored tr' ctx := by
  obtain ⟨p, r, hm⟩ := h
  exact ⟨p, r, hs hm⟩

theorem Covered.mono (h : Covered tr ctx) (hs : tr ⊆ tr') : Covered tr' ctx := by
  obtain ⟨p, op, hm, hc⟩ := h
  exact ⟨p, op, hs hm, hc⟩

theorem Filed.mono (h : Filed t tr) (hs : tr ⊆ tr') : Filed t tr' where
  stored ctx hc := by
    obtain ⟨p, hp⟩ := h.stored ctx hc
    exact ⟨p, hs hp⟩
  keyed := h.keyed

theorem not_covered_of_append (h : ¬ Covered (tr ++ o) ctx) : ¬ Covered tr ctx :=
  fun hc => h (hc.mono (subset_append_left _ _))

/-- A call by another caller than that of the last events is before them. -/
theorem call_before {q : Nat} {op : Op} (h : tr ++ o = t₁ ++ .call q op :: t₂)
    (ho : ∀ e ∈ o, e.proc = p) (hqp : q ≠ p) : ∃ t₂', t₂ = t₂' ++ o ∧ tr = t₁ ++ .call q op :: t₂' := by
  obtain ⟨o', -, rfl⟩ | ⟨c, rfl, hc⟩ := append_eq_append_iff.1 h
  · exact absurd (ho _ (mem_append_right o' (mem_cons_self ..))) hqp
  cases c with
  | nil =>
    rw [nil_append] at hc
    exact absurd (ho (.call q op) (hc ▸ mem_cons_self ..)) hqp
  | cons x c =>
    cases hc
    exact ⟨c, rfl, rfl⟩

theorem findsStored_concat (h : FindsStored tr)
    (hnew : ∀ t₁ t₂ p ctx r, tr = t₁ ++ .call p (.getStream ctx.streamID) :: t₂ →
      e = .ret p (.getStream ctx.streamID) r → (∀ e ∈ t₂, e.proc ≠ p) → Stored t₁ ctx →
      ¬ Covered (t₁ ++ t₂) ctx → r = some ctx) : FindsStored (tr ++ [e]) := by
  intro t₁ t₂ t₃ p ctx r heq hquiet hst hcov
  obtain ⟨rfl, he, htr⟩ | ⟨t₃', rfl, htr⟩ := concat_eq_split heq
  · exact hnew t₁ t₂ p ctx r htr.symm he.symm hquiet hst hcov
  · exact h t₁ t₂ t₃' p ctx r htr hquiet hst hcov

/-- A call that does not begin a look-up's range leaves what covers a context as
the calls before say. -/
theorem covered_split {id : Nat}
    (h : Covered (t₁ ++ .call p (.getStream id) :: t₂) ctx) : Covered (t₁ ++ t₂) ctx := by
  obtain ⟨q, op, hm, hc⟩ := h
  simp only [mem_append, mem_cons, Event.call.injEq] at hm
  obtain hm | ⟨-, rfl⟩ | hm := hm
  · exact ⟨q, op, mem_append_left _ hm, hc⟩
  · cases hc
  · exact ⟨q, op, mem_append_right _ hm, hc⟩

end Histories

theorem Inv.init : Inv .init [] where
  filed := ⟨fun _ h => by simp [Table.Has, State.init, Table.empty] at h, fun _ _ _ h => by cases h⟩
  runs _ := ⟨nofun, trivial⟩
  held _ h := by simp [Stored] at h
  searching _ _ _ _ _ h := by cases h
  finds := by
    intro t₁ t₂ t₃ p ctx r h
    simp at h
  ownId := by
    intro p id ctx h
    simp at h

theorem stored_of_call {op : Op} (h : Stored (tr ++ [.call p op]) ctx) :
    Stored tr ctx := by
  obtain ⟨q, r, hm⟩ := h
  exact ⟨q, r, by simpa using hm⟩

section Steps

variable {s : State}

/-- A step of one caller, with the events it shows: the others go on as before. -/
theorem Inv.advance {x : Proc} (hi : Inv s tr) (ho : ∀ e ∈ o, e.proc = p)
    (hkeeps : ∀ ctx, ¬ Covered tr ctx → Keeps s.table t' ctx) (hfiled : Filed t' tr)
    (hruns : x.Runs (tr ++ o) p) (hsearch : x.Searches t' (tr ++ o) p)
    (hheld : ∀ ctx, Stored (tr ++ o) ctx → Stored tr ctx ∨ HeldFrom t' ctx 0)
    (hfinds : FindsStored (tr ++ o)) (hown : FindsOwnId (tr ++ o)) : Inv (s.set t' p x) (tr ++ o) where
  filed := hfiled.mono (subset_append_left _ _)
  runs q := by
    by_cases hq : q = p
    · subst hq
      simpa [State.set] using hruns
    · simp only [State.set, update_of_ne hq]
      exact ⟨fun op h => mem_append_left _ ((hi.runs q).1 op h), (hi.runs q).2⟩
  held ctx hst hcov := by
    have hcov' := not_covered_of_append hcov
    exact (hheld ctx hst).elim (fun h => (hi.held ctx h hcov').keeps (hkeeps ctx hcov')) id
  searching q := by
    by_cases hq : q = p
    · subst hq
      simpa [State.set] using hsearch
    · simp only [State.set, update_of_ne hq]
      intro i ctx t₁ t₂ hget heq hquiet hst hcov
      have hcov' := not_covered_of_append hcov
      obtain ⟨t₂', rfl, htr⟩ := call_before heq ho hq
      exact (hi.searching q i ctx t₁ t₂' hget htr (fun e he => hquiet e (mem_append_left _ he)) hst hcov').keeps
        (hkeeps ctx hcov')
  finds := hfinds
  ownId := hown

theorem Inv.call {op : Op} (hi : Inv s tr) : Inv (s.set s.table p op.start) (tr ++ [.call p op]) := by
  refine hi.advance (by simp [Event.proc]) (fun ctx _ => .refl _ ctx) hi.filed ?_ ?_ (fun ctx h => .inl (stored_of_call h))
    (findsStored_concat hi.finds fun _ _ _ _ _ _ he => by cases he) fun q id ctx h => hi.ownId q id ctx (by simpa using h)
  · constructor
    · intro op' h
      have he : op = op' := by cases op <;> simpa [Op.start, Proc.op] using h
      simp [he]
    · cases op <;> exact trivial
  · -- A look-up that has just begun finds its context from the first probe on.
    intro i ctx t₁ t₂ hget heq hquiet hst hcov
    obtain rfl : i = 0 := by
      cases op <;> cases hget
      rfl
    have hst' : Stored (tr ++ [.call p op]) ctx := hst.mono (heq ▸ subset_append_left _ _)
    exact hi.held ctx (stored_of_call hst') (not_covered_of_append hcov)

theorem Inv.keeps {n : Next} (hi : Inv s tr) (hd : DistinctIds tr)
    (he : Effect s.table (s.procs p) t' n) (herase : (s.procs p).ErasesFound s.table) (ctx : Context)
    (hc : ¬ Covered tr ctx) : Keeps s.table t' ctx :=
  he.keeps hd hi.filed (hi.runs p).1 (hi.runs p).2 herase hc

/-- With distinct ids, a context that is held is the only one of its id in the table. -/
theorem Inv.unique {i : Nat} (hi : Inv s tr) (hd : DistinctIds tr) (hh : HeldFrom s.table ctx i) :
    ∀ c, s.table.Has c → c.streamID = ctx.streamID → c = ctx := by
  intro c hc hid
  have hctx : s.table.Has ctx := by
    obtain ⟨j, -, -, hs⟩ | ho := hh
    · exact .inl ⟨_, hs⟩
    · exact .inr ⟨_, _, ho⟩
  obtain ⟨q, hq⟩ := hi.filed.stored c hc
  obtain ⟨q', hq'⟩ := hi.filed.stored ctx hctx
  exact eq_of_distinctIds hd hq hq' hid

theorem getting_of_op {q : Proc} {id : Nat} (h : q.op = some (.getStream id)) : ∃ i, q = .getting id i := by
  cases q <;> simp only [Proc.op, Option.some.injEq, Op.getStream.injEq, reduceCtorEq] at h
  exact ⟨_, by rw [h]⟩

theorem Inv.go {q' : Proc} (hi : Inv s tr) (hd : DistinctIds tr)
    (he : Effect s.table (s.procs p) t' (.go q')) (herase : (s.procs p).ErasesFound s.table) :
    Inv (s.set t' p q') (tr ++ []) := by
  refine hi.advance nofun (hi.keeps hd he herase) (he.filed hi.filed (hi.runs p).1) ?_ ?_ ?_ ?_ ?_
  all_goals rw [append_nil]
  · exact ⟨fun op h => (hi.runs p).1 op (he.op_go.1 ▸ h), he.op_go.2⟩
  · rintro i ctx t₁ t₂ rfl heq hquiet hst hcov
    obtain ⟨i0, hi0⟩ := getting_of_op he.op_go.1.symm
    have hheld := hi.searching p i0 ctx t₁ t₂ hi0 heq hquiet hst hcov
    rw [hi0] at he
    obtain ⟨hgo, hnext⟩ := he.held_of_go rfl hheld
    cases hgo
    exact hnext
  · exact fun _ => .inl
  · exact hi.finds
  · exact hi.ownId

theorem Inv.done {op : Op} (hi : Inv s tr) (hd : DistinctIds tr)
    (hop : (s.procs p).op = some op) (he : Effect s.table (s.procs p) t' (.done r))
    (herase : (s.procs p).ErasesFound s.table) : Inv (s.set t' p .idle) (tr ++ [.ret p op r]) := by
  refine hi.advance (by simp [Event.proc]) (hi.keeps hd he herase) (he.filed hi.filed (hi.runs p).1) ⟨nofun, trivial⟩
    nofun ?_ (findsStored_concat hi.finds ?_) ?_
  · rintro ctx ⟨q, r', hm⟩
    simp only [mem_append, mem_singleton, Event.ret.injEq] at hm
    obtain hm | ⟨-, rfl, -⟩ := hm
    · exact .inl ⟨q, r', hm⟩
    · exact .inr (he.held_of_store hop)
  · intro t₁ t₂ q ctx r' htr hret hquiet hst hcov
    cases hret
    obtain ⟨i, hq⟩ := getting_of_op hop
    have hheld := hi.searching p i ctx t₁ t₂ hq htr hquiet hst fun h => hcov (covered_split (htr ▸ h))
    rw [hq] at he
    exact he.found (hi.unique hd hheld) rfl hheld
  · intro q id ctx hm
    simp only [mem_append, mem_singleton, Event.ret.injEq] at hm
    obtain hm | ⟨-, rfl, rfl⟩ := hm
    · exact hi.ownId q id ctx hm
    · obtain ⟨i, hq⟩ := getting_of_op hop
      rw [hq] at he
      exact he.found_id hi.filed.keyed

theorem inv_step {s' : State} {e : Label} (hi : DistinctIds tr → Inv s tr)
    (herase : ErasesWhatItFound s e) (h : step s e = some (s', o)) : DistinctIds (tr ++ o) → Inv s' (tr ++ o) := by
  intro hd
  have hd' := hd.of_append
  cases e with
  | call p op =>
    simp only [step] at h
    split at h
    · cases h
      exact (hi hd').call
    · cases h
  | step p =>
    simp only [step] at h
    split at h
    · rename_i op t' q' hop hq
      cases h
      exact (hi hd').go hd' (effect_of_step hq) herase
    · rename_i op t' r hop hq
      cases h
      exact (hi hd').done hd' hop (effect_of_step hq) herase
    · cases h

end Steps

/-- No interleaving loses a live stream as long as every `Store(nil)` finds in
its slot what its load found there, or nothing. -/
theorem no_live_stream_lost (es : List Label) (h : Along step ErasesWhatItFound .init es) :
    Always step NoLiveStreamLost .init es := by
  have hinv : Always step (fun s tr => DistinctIds tr → Inv s tr) .init es :=
    always_of_along (fun s tr => DistinctIds tr → Inv s tr) (fun _ _ _ _ _ hi hP hs => inv_step hi hP hs)
      (fun _ => Inv.init) h
  refine always_mono (fun s tr hi hd => ?_) hinv
  have hi := hi hd
  refine ⟨fun ctx hst hcov => ?_, hi.finds, hi.ownId⟩
  have hheld := hi.held ctx hst hcov
  exact getStreamFrom_held (hi.unique hd hheld) rfl hheld

/-- A store, a look-up beside it and a delete, one after the other's load. -/
theorem no_live_stream_lost_sample :
    Always step NoLiveStreamLost .init [.call 0 (.storeStream ⟨0, 1⟩), .step 0, .call 1 (.getStream 1),
      .call 2 (.deleteStream 1), .step 2, .step 1, .step 2] :=
  no_live_stream_lost _ (by decide)

/-- A caller that cancels stream 3 has loaded its slot when the read loop finishes
the same stream, clears the slot and stores the promised stream 2 in it. The
caller's `Store(nil)` then erases stream 2, and the read loop no longer finds it. -/
def doubleDelete : List Label :=
  [.call 0 (.storeStream ⟨0, 3⟩), .step 0, .call 2 (.deleteStream 3), .step 2, .call 1 (.deleteStream 3), .step 1,
    .step 1, .call 1 (.storeStream ⟨1, 2⟩), .step 1, .step 2, .call 1 (.getStream 2),
    .step 1, .step 1, .step 1, .step 1, .step 1, .step 1, .step 1, .step 1, .step 1]

/-- What `doubleDelete` shows before the look-up. -/
def doubleDeleteHistory : List Event :=
  [.call 0 (.storeStream ⟨0, 3⟩), .ret 0 (.storeStream ⟨0, 3⟩) none, .call 2 (.deleteStream 3),
    .call 1 (.deleteStream 3), .ret 1 (.deleteStream 3) none, .call 1 (.storeStream ⟨1, 2⟩),
    .ret 1 (.storeStream ⟨1, 2⟩) none, .ret 2 (.deleteStream 3) none]

theorem double_delete_loses_neighbour : ¬ Always step NoLiveStreamLost .init doubleDelete := by
  intro h
  have hr : (run step .init doubleDelete).map (·.2) =
      some (doubleDeleteHistory ++ [.call 1 (.getStream 2), .ret 1 (.getStream 2) none]) := by decide
  obtain ⟨⟨s, tr⟩, hrun, htr⟩ := Option.map_eq_some_iff.1 hr
  simp only at htr
  subst htr
  obtain ⟨-, hfinds, -⟩ := h doubleDelete s _ (prefix_refl _) hrun (by unfold DistinctIds; decide)
  have hnone := hfinds doubleDeleteHistory [] [] 1 ⟨1, 2⟩ none rfl (by simp)
    ⟨1, none, by simp [doubleDeleteHistory]⟩ ?_
  · cases hnone
  rintro ⟨p, op, hm, hc⟩
  simp only [doubleDeleteHistory, append_nil, mem_cons, Event.call.injEq, reduceCtorEq,
    not_mem_nil, or_false, false_or] at hm
  obtain ⟨-, rfl⟩ | ⟨-, rfl⟩ | ⟨-, rfl⟩ | ⟨-, rfl⟩ := hm <;> simp [Op.Covers] at hc

end Mach.H2.Client
