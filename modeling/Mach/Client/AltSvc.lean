import Mach.Headkit.Intern
import Mach.Lib.Numeral
/-!
# The cache of alternative services

`client/altsvc.go`. An entry is stored under up to six keys, all of them spellings
of an origin or of its host, and found and removed under others. The keys that a
call loads, stores or deletes are lists here, in the order of the calls on the
map.

An entry is shared by its keys, and `MarkFailed` changes it in place: the map holds
references, each made of the origin that was set and a number. What `ForEach` finds
in a header is a parameter. Origins are ASCII.
-/

namespace Mach.Client

open Lib Headkit

/-! ## Origins -/

def https : List UInt8 := ascii "https://"
def http : List UInt8 := ascii "http://"

def lowerByte (c : UInt8) : UInt8 := if 65 ≤ c ∧ c ≤ 90 then c + 32 else c

def toLower (s : List UInt8) : List UInt8 := s.map lowerByte

def hasUpper (s : List UInt8) : Bool := s.any fun c => 65 ≤ c ∧ c ≤ 90

def isSpace (c : UInt8) : Bool := c = 32 || (9 ≤ c && c ≤ 13)

def trimSpace (s : List UInt8) : List UInt8 := ((s.dropWhile isSpace).reverse.dropWhile isSpace).reverse

/-- What follows the scheme, if there is one. -/
def bare (s : List UInt8) : List (List UInt8) :=
  if https.isPrefixOf s then [s.drop 8] else if http.isPrefixOf s then [s.drop 7] else []

def splitHostPort (s : List UInt8) : Option (List UInt8 × List UInt8) :=
  let port := (s.reverse.takeWhile (· ≠ 58)).reverse
  let i := s.length - port.length - 1
  if 58 ∉ s then none
  else if s.head? = some 91 then
    let stop := s.idxOf 93
    if 93 ∉ s ∨ stop + 1 ≠ i ∨ 91 ∈ s.drop 1 ∨ 93 ∈ s.drop (stop + 1) then none
    else some ((s.take stop).drop 1, port)
  else if 58 ∈ s.take i ∨ 91 ∈ s ∨ 93 ∈ s then none
  else some (s.take i, port)

def joinHostPort (host port : List UInt8) : List UInt8 :=
  if 58 ∈ host then [91] ++ host ++ [93, 58] ++ port else host ++ [58] ++ port

def canonicalOrigin (origin : List UInt8) : List UInt8 :=
  let origin := toLower (trimSpace origin)
  if https.isPrefixOf origin || http.isPrefixOf origin then origin
  else if (splitHostPort origin).isSome then https ++ origin
  else https ++ joinHostPort origin (ascii "443")

def trimPrefix (p s : List UInt8) : List UInt8 := if p.isPrefixOf s then s.drop p.length else s

/-- The host of an origin, as `Set` takes it. -/
def hostOf (origin : List UInt8) : List UInt8 :=
  let clean := trimPrefix http (trimPrefix https (canonicalOrigin origin))
  match splitHostPort clean with
  | some (host, _) => host
  | none => clean

/-! ## The keys of a call -/

def getKeys (origin : List UInt8) : List (List UInt8) :=
  origin :: bare origin ++ if hasUpper origin then toLower origin :: bare (toLower origin) else []

def setKeys (origin : List UInt8) : List (List UInt8) :=
  canonicalOrigin origin :: origin :: bare (canonicalOrigin origin) ++ bare origin ++
    if hostOf origin = [] then [] else [hostOf origin, https ++ hostOf origin]

def markKeys (origin : List UInt8) : List (List UInt8) := origin :: bare origin ++ [canonicalOrigin origin]

def clearKeys (origin : List UInt8) : List (List UInt8) :=
  origin :: bare origin ++ canonicalOrigin origin ::
    if https.isPrefixOf (canonicalOrigin origin) then [(canonicalOrigin origin).drop 8] else []

/-! ## The cache -/

structure Service where
  protocolID : List UInt8
  host : List UInt8
  port : Nat
  maxAge : Int

/-- Times are in nanoseconds. An entry that was not marked has no `failedUntil`. -/
structure AltSvcEntry where
  targetAddr : List UInt8 := []
  expiresAt : Int := 0
  failedUntil : Option Int := none

def defaultMaxAge : Int := 86400 * 10 ^ 9

structure AltSvcCache where
  entries : List UInt8 → Option (List UInt8 × Nat) := fun _ => none
  heap : List UInt8 × Nat → AltSvcEntry := fun _ => {}
  next : List UInt8 → Nat := fun _ => 0

namespace AltSvcCache

def load (c : AltSvcCache) (keys : List (List UInt8)) : Option (List UInt8 × Nat) := keys.findSome? c.entries

def delete (c : AltSvcCache) (keys : List (List UInt8)) : AltSvcCache :=
  { c with entries := fun k => if k ∈ keys then none else c.entries k }

def getH3 (c : AltSvcCache) (origin : List UInt8) (now : Int) : AltSvcCache × Option (List UInt8) :=
  match c.load (getKeys origin) with
  | none => (c, none)
  | some p =>
    if (c.heap p).expiresAt < now then (c.delete (origin :: bare origin), none)
    else if (c.heap p).failedUntil.any (now < ·) then (c, none)
    else (c, some (c.heap p).targetAddr)

def isH3 (svc : Service) : Bool := (ascii "h3").isPrefixOf (toLower svc.protocolID)

def set (c : AltSvcCache) (origin : List UInt8) (svc : Service) (now : Int) : AltSvcCache :=
  if ¬ isH3 svc then c
  else
    let p := (origin, c.next origin)
    let entry : AltSvcEntry :=
      { targetAddr := joinHostPort (if svc.host = [] then hostOf origin else svc.host) (Numeral.numeral 10 svc.port)
        expiresAt := now + if svc.maxAge ≤ 0 then defaultMaxAge else svc.maxAge }
    { entries := fun k => if k ∈ setKeys origin then some p else c.entries k
      heap := fun q => if q = p then entry else c.heap q
      next := fun o => if o = origin then c.next o + 1 else c.next o }

def markFailed (c : AltSvcCache) (origin : List UInt8) (backoff now : Int) : AltSvcCache :=
  match c.load (markKeys origin) with
  | none => c
  | some p => { c with heap := fun q => if q = p then { c.heap q with failedUntil := some (now + backoff) } else c.heap q }

def clear (c : AltSvcCache) (origin : List UInt8) : AltSvcCache := c.delete (clearKeys origin)

/-- The header says that the origin has no alternatives. -/
def clears (rawHeader : List UInt8) : Bool := toLower (trimSpace rawHeader) = ascii "clear"

def updateFromHeader (services : List UInt8 → List Service) (c : AltSvcCache) (origin rawHeader : List UInt8)
    (now : Int) : AltSvcCache :=
  if rawHeader = [] then c
  else if clears rawHeader then c.clear origin
  else (services rawHeader).foldl (fun c svc => if isH3 svc then c.set origin svc now else c) c

end AltSvcCache

inductive AltSvcOp where
  | updateFromHeader (rawHeader : List UInt8)
  | set (svc : Service)
  | markFailed (backoff : Int)
  | clear
  | getH3

/-- A call for an origin, with the time it is made. -/
structure AltSvcCall where
  origin : List UInt8
  op : AltSvcOp
  now : Int

namespace AltSvcCache

def call (services : List UInt8 → List Service) (c : AltSvcCache) (e : AltSvcCall) : AltSvcCache :=
  match e.op with
  | .updateFromHeader rawHeader => c.updateFromHeader services e.origin rawHeader e.now
  | .set svc => c.set e.origin svc e.now
  | .markFailed backoff => c.markFailed e.origin backoff e.now
  | .clear => c.clear e.origin
  | .getH3 => (c.getH3 e.origin e.now).1

def after (services : List UInt8 → List Service) (es : List AltSvcCall) : AltSvcCache := es.foldl (call services) {}

end AltSvcCache

/-! ## What origins are to share -/

/-- The scheme, the host and the port that a string names. -/
structure Origin where
  secure : Bool
  host : List UInt8
  port : List UInt8
  deriving DecidableEq

def originOf (s : List UInt8) : Origin :=
  let s := toLower (trimSpace s)
  let secure := https.isPrefixOf s || !http.isPrefixOf s
  let rest := trimPrefix (if secure then https else http) s
  match splitHostPort rest with
  | some (host, port) => ⟨secure, host, port⟩
  | none => ⟨secure, rest.filter fun c => c ≠ 91 && c ≠ 93, ascii (if secure then "443" else "80")⟩

/-- All keys that a call for the origin may touch. -/
def aliases (s : List UInt8) : List (List UInt8) := getKeys s ++ setKeys s ++ markKeys s ++ clearKeys s

/-- Strings that name each origin once and in lower case, and whose keys are
different. -/
structure Separate (N : List UInt8 → Prop) : Prop where
  lower : ∀ s, N s → hasUpper s = false
  once : ∀ s t, N s → N t → originOf s = originOf t → s = t
  apart : ∀ s t, N s → N t → originOf s ≠ originOf t → ∀ k ∈ aliases s, k ∉ aliases t

/-- The call removes what is known of its origin. -/
def AltSvcCall.Clears (e : AltSvcCall) : Prop :=
  e.op = .clear ∨ ∃ raw, e.op = .updateFromHeader raw ∧ raw ≠ [] ∧ AltSvcCache.clears raw

/-- The call may set an alternative service for its origin. -/
def AltSvcCall.Sets (e : AltSvcCall) : Prop :=
  (∃ svc, e.op = .set svc) ∨ ∃ raw, e.op = .updateFromHeader raw ∧ AltSvcCache.clears raw = false

end Mach.Client
