import Mach.Lib.Assoc
import Mach.Lib.Run
/-!
# The connection pool

`client/pool.go`, one step for each section under `PoolManager.mu`. `Get` releases
the lock to ask `IsHealthy` and to `Dial`, and takes it again if they fail: such
calls are listed in `gets`. What `IsHealthy`, `Dial` and the clock answer is in
the labels; a connection that `Dial` returns is a new one.

A `Get` keeps the host record it has looked up. `Close` drops all records at once,
so a record is known by its address and by how many times the pool had been closed
when it was made (`born`). A record that was dropped has no idle connections, and
only the calls that still refer to it see its count.
-/

namespace Mach.Client

open Lib Assoc

variable {κ A α : Type}

/-- `hostPool`. The idle connections, the one returned last in front. -/
structure HostPool (α : Type) where
  conns : List α := []
  count : Int := 0
  deriving DecidableEq

inductive GetPhase (α : Type) where
  | checking (c : α)
  | dialing
  deriving DecidableEq

/-- A call of `Get` that has released the lock. -/
structure Getting (κ A α : Type) where
  caller : κ
  addr : A
  born : Nat
  phase : GetPhase α
  deriving DecidableEq

/-- A connection that a caller has obtained and not given back. -/
structure Held (κ A α : Type) where
  caller : κ
  addr : A
  conn : α
  deriving DecidableEq

structure PoolManager (κ A α : Type) where
  maxConnsPerHost : Int
  pools : List (A × HostPool α) := []
  /-- How many times the pool has been closed. -/
  closes : Nat := 0
  /-- The counts of the records that were dropped. -/
  dropped : Nat → A → Int := fun _ _ => 0
  gets : List (Getting κ A α) := []
  held : List (Held κ A α) := []
  /-- All connections there have been. -/
  dialed : List α := []

/-- The locked part of `Get`'s loop: the idle connections that have expired are
closed, and the next one is taken. If there is none, the count is checked. -/
def HostPool.acquire (max : Int) (expired : α → Bool) (hp : HostPool α) : HostPool α × List α × Option (GetPhase α) :=
  let evicted := hp.conns.takeWhile expired
  let count := hp.count - evicted.length
  match hp.conns.dropWhile expired with
  | c :: cs => (⟨cs, count⟩, evicted, some (.checking c))
  | [] =>
    if 0 < max ∧ max ≤ count then (⟨[], count⟩, evicted, none)
    else (⟨[], count + 1⟩, evicted, some .dialing)

namespace PoolManager

variable [DecidableEq A]

/-- The record of `addr` that was made after `born` calls of `Close`. -/
def record (s : PoolManager κ A α) (born : Nat) (addr : A) : HostPool α :=
  if born = s.closes then (find addr s.pools).getD {} else ⟨[], s.dropped born addr⟩

def setRecord (s : PoolManager κ A α) (born : Nat) (addr : A) (hp : HostPool α) : PoolManager κ A α :=
  if born = s.closes then { s with pools := put addr hp s.pools }
  else { s with dropped := fun k a => if k = born ∧ a = addr then hp.count else s.dropped k a }

/-- `acquire` on the caller's record, which is made if it is missing. -/
def acquire (s : PoolManager κ A α) (caller : κ) (born : Nat) (addr : A) (expired : α → Bool) :
    PoolManager κ A α × List α :=
  let r := (s.record born addr).acquire s.maxConnsPerHost expired
  ({ s.setRecord born addr r.1 with
      gets := (r.2.2.map fun phase => ⟨caller, addr, born, phase⟩).toList ++ s.gets }, r.2.1)

/-- A call gives up the connection it was counted for. -/
def uncount [DecidableEq κ] [DecidableEq α] (s : PoolManager κ A α) (g : Getting κ A α) : PoolManager κ A α :=
  let hp := s.record g.born g.addr
  { s.setRecord g.born g.addr { hp with count := hp.count - 1 } with gets := s.gets.erase g }

end PoolManager

inductive PoolOp (κ A α : Type) where
  | get (caller : κ) (addr : A) (expired : α → Bool)
  | checked (g : Getting κ A α) (healthy : Bool) (expired : α → Bool)
  | dialed (g : Getting κ A α) (result : Option α)
  | put (h : Held κ A α) (healthy : Bool)
  | discard (h : Held κ A α)
  | close

variable [DecidableEq κ] [DecidableEq A] [DecidableEq α]

/-- One step, with the connections it closes. `Put` and `Discard` are called by the
holder of a connection, with the address it was obtained for. -/
def PoolManager.step (s : PoolManager κ A α) : PoolOp κ A α → Option (PoolManager κ A α × List α)
  | .get caller addr expired => some (s.acquire caller s.closes addr expired)
  | .checked g healthy expired =>
    match g.phase with
    | .checking c =>
      if g ∉ s.gets then none
      else if healthy then
        some ({ s with gets := s.gets.erase g, held := ⟨g.caller, g.addr, c⟩ :: s.held }, [])
      else
        let r := (s.uncount g).acquire g.caller g.born g.addr expired
        some (r.1, c :: r.2)
    | .dialing => none
  | .dialed g result =>
    if g ∉ s.gets ∨ g.phase ≠ .dialing then none
    else
      match result with
      | some c =>
        if c ∈ s.dialed then none
        else
          some ({ s with
            gets := s.gets.erase g
            held := ⟨g.caller, g.addr, c⟩ :: s.held
            dialed := c :: s.dialed }, [])
      | none => some (s.uncount g, [])
  | .put h healthy =>
    if h ∉ s.held then none
    else
      let s := { s with held := s.held.erase h }
      match find h.addr s.pools with
      | none => some (s, [h.conn])
      | some hp =>
        if healthy then
          some ({ s with pools := Assoc.put h.addr { hp with conns := h.conn :: hp.conns } s.pools }, [])
        else some ({ s with pools := Assoc.put h.addr { hp with count := hp.count - 1 } s.pools }, [h.conn])
  | .discard h =>
    if h ∉ s.held then none
    else
      let s := { s with held := s.held.erase h }
      match find h.addr s.pools with
      | none => some (s, [h.conn])
      | some hp =>
        some ({ s with pools := if (0 : Int) < hp.count then Assoc.put h.addr { hp with count := hp.count - 1 } s.pools
          else s.pools }, [h.conn])
  | .close =>
    some ({ s with
      pools := []
      closes := s.closes + 1
      dropped := fun k a => if k = s.closes then 0 else s.dropped k a }, s.pools.flatMap (·.2.conns))

/-! ## What the pool is to respect -/

namespace PoolManager

/-- The connections of `addr` that are handed out, or that a call of `Get` checks or
dials. -/
def out (s : PoolManager κ A α) (addr : A) : Nat :=
  s.gets.countP (·.addr = addr) + s.held.countP (·.addr = addr)

def idle (s : PoolManager κ A α) (addr : A) : Nat := ((find addr s.pools).map fun hp => hp.conns.length).getD 0

/-- No connection has two holders, or is held after it was closed, or is closed
twice; a host record counts the idle connections and those that are out; and there
are not more than the limit of them. -/
structure Respected (s : PoolManager κ A α) (closed : List α) : Prop where
  single : (s.held.map (·.conn)).Nodup
  unclosed : ∀ h ∈ s.held, h.conn ∉ closed
  once : closed.Nodup
  count : ∀ addr hp, find addr s.pools = some hp → hp.count = ((hp.conns.length + s.out addr : Nat) : Int)
  limit : 0 < s.maxConnsPerHost → ∀ addr, ((s.idle addr + s.out addr : Nat) : Int) ≤ s.maxConnsPerHost

/-- A record is made only if no connection of its address is out. -/
def MakesFresh (s : PoolManager κ A α) : PoolOp κ A α → Prop
  | .get _ addr _ => find addr s.pools = none → s.out addr = 0
  | _ => True

end PoolManager

end Mach.Client
