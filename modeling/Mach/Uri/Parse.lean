import Mach.Headkit.Intern
import Mach.Lib.Http1
/-!
# Parsing a URI

`ParseInternal` of `proto/semantic/uri/uri.go` and what it calls, with the literals
of `ipv6.go`. Positions in a byte string are cuts of a list here. The separator of
the platform is the slash, and the errors carry what their texts quote.
-/

namespace Mach.Uri

open Lib.Numeral Lib.Http1 Headkit

def index (sub : List UInt8) : List UInt8 → Option Nat
  | [] => if sub = [] then some 0 else none
  | c :: s => if sub.isPrefixOf (c :: s) then some 0 else (index sub s).map (· + 1)

theorem index_none {t b : List UInt8} (h : index t b = none) : ¬ t <:+: b := by
  induction b with
  | nil => simpa [index] using h
  | cons c b ih =>
    rw [index] at h
    split at h
    · cases h
    · rename_i hpre
      rw [List.infix_cons_iff, not_or, ← List.isPrefixOf_iff_prefix]
      exact ⟨hpre, ih (Option.map_eq_none_iff.mp h)⟩

theorem index_some {t b : List UInt8} {n : Nat} (h : index t b = some n) :
    (∃ p q, b = p ++ (t ++ q) ∧ p.length = n) ∧ ∀ p q, b = p ++ (t ++ q) → n ≤ p.length := by
  induction b generalizing n with
  | nil =>
    rw [index] at h
    split at h
    · cases h
      exact ⟨⟨[], [], by simp [*]⟩, fun _ _ _ => Nat.zero_le _⟩
    · cases h
  | cons c b ih =>
    rw [index] at h
    split at h
    · rename_i hpre
      cases h
      obtain ⟨q, hq⟩ := List.isPrefixOf_iff_prefix.mp hpre
      exact ⟨⟨[], q, hq.symm, rfl⟩, fun _ _ _ => Nat.zero_le _⟩
    · rename_i hpre
      obtain ⟨m, hm, rfl⟩ := Option.map_eq_some_iff.mp h
      obtain ⟨⟨p, q, rfl, rfl⟩, hmin⟩ := ih hm
      refine ⟨⟨c :: p, q, rfl, rfl⟩, ?_⟩
      intro p q' heq
      cases p with
      | nil => exact absurd (List.isPrefixOf_iff_prefix.mpr ⟨q', heq.symm⟩) hpre
      | cons d p => exact Nat.succ_le_succ (hmin p q' (List.cons.inj heq).2)

/-- What stands before and after the last `c`. -/
def cutLast (c : UInt8) (s : List UInt8) : Option (List UInt8 × List UInt8) :=
  let post := (s.reverse.takeWhile (· ≠ c)).reverse
  if c ∈ s then some (s.take (s.length - post.length - 1), post) else none

def lowercaseBytes (s : List UInt8) : List UInt8 := s.map lowerCase

inductive UriError where
  | invalidURI
  | invalidScheme (scheme : List UInt8)
  | missingBracket
  | invalidPort (colonPort : List UInt8)
  | invalidHost (host : List UInt8)
  | multiplePortDelimiters (host : List UInt8)
  | escape (s : List UInt8)
  | invalidHostByte (c : UInt8)
  | invalidIPv6Host
  | invalidIPv6Zone
  | invalidIPv6Address
  deriving DecidableEq

/-! ## IPv6 literals -/

/-- The loop of `parseIPv6Hextets`; `first` says that nothing was read yet. -/
def hextets (allowTrailingColon : Bool) :
    Nat → Bool → Nat → Bool → Bool → List UInt8 → Option (Nat × Bool)
  | 0, _, groups, seenDouble, _, _ => some (groups, seenDouble)
  | _ + 1, _, groups, seenDouble, _, [] => some (groups, seenDouble)
  | fuel + 1, first, groups, seenDouble, justSawDouble, c :: s =>
    if c = 58 then
      if s.head? = some 58 then
        if seenDouble || justSawDouble then none
        else hextets allowTrailingColon fuel false groups true true (s.drop 1)
      else if first || justSawDouble then none
      else match s with
        | [] => if allowTrailingColon then some (groups, seenDouble) else none
        | d :: _ => if isHexDigit d then hextets allowTrailingColon fuel false groups seenDouble false s else none
    else
      let group := ((c :: s).take 4).takeWhile isHexDigit
      let rest := (c :: s).drop group.length
      if group = [] then none
      else if rest.head?.any (· ≠ 58) then none
      else hextets allowTrailingColon fuel false (groups + 1) seenDouble false rest

def parseIPv6Hextets (s : List UInt8) (allowTrailingColon : Bool) : Option (Nat × Bool) :=
  hextets allowTrailingColon s.length true 0 false false s

/-- `parts` octets are still to come. -/
def octets : Nat → List UInt8 → Bool
  | 0, _ => false
  | parts + 1, s =>
    let digits := s.takeWhile isDigit
    let rest := s.drop digits.length
    digits ≠ [] && digits.length ≤ 3 && value 10 digits ≤ 255 && !(1 < digits.length && digits.head? = some 48) &&
      if parts = 0 then rest = [] else rest.head? = some 46 && octets parts (rest.drop 1)

def validIPv4 (s : List UInt8) : Bool := octets 4 s

/-- Eight groups, or fewer with a double colon. -/
def groupsFit (groups : Nat) (seenDouble : Bool) : Bool := if seenDouble then groups < 8 else groups = 8

def validateIPv6Address (addr : List UInt8) : Except UriError Unit :=
  if 58 ∉ addr then .error .invalidIPv6Address
  else if 46 ∈ addr then
    match cutLast 58 addr with
    | none => .error .invalidIPv6Address
    | some (head, ipv4) =>
      if ipv4 = [] ∨ ¬ validIPv4 ipv4 then .error .invalidIPv6Address
      else
        let seenDoubleAtSplit : Bool := head.getLast? = some 58
        match parseIPv6Hextets (if seenDoubleAtSplit then head.dropLast else head) false with
        | none => .error .invalidIPv6Address
        | some (groups, seenDoubleHead) =>
          if seenDoubleHead && seenDoubleAtSplit then .error .invalidIPv6Address
          else if groupsFit (groups + 2) (seenDoubleHead || seenDoubleAtSplit) then .ok ()
          else .error .invalidIPv6Address
  else match parseIPv6Hextets addr false with
    | none => .error .invalidIPv6Address
    | some (groups, seenDouble) => if groupsFit groups seenDouble then .ok () else .error .invalidIPv6Address

def validateIPv6Literal (host : List UInt8) : Except UriError Unit :=
  if host.head? ≠ some 91 then .ok ()
  else if 93 ∉ host ∨ host.idxOf 93 = 1 then .error .invalidIPv6Host
  else
    let addr := (host.take (host.idxOf 93)).drop 1
    if 37 ∈ addr then
      if addr.idxOf 37 = addr.length - 1 then .error .invalidIPv6Zone
      else validateIPv6Address (addr.take (addr.idxOf 37))
    else validateIPv6Address addr

/-! ## Escapes -/

inductive Encoding where
  | host
  | zone
  deriving DecidableEq

def shouldEscape (c : UInt8) : Bool := !(isAlpha c || isDigit c || (ascii "!$&'()*+,;=:[]<>\"-_.~").contains c)

/-- The byte that two hexadecimal digits stand for. -/
def hexByte (a b : UInt8) : UInt8 := UInt8.ofNat (16 * digitValue a + digitValue b)

/-- The first loop of `unescape`. -/
def checkEscapes (mode : Encoding) : List UInt8 → Except UriError Unit
  | [] => .ok ()
  | c :: s =>
    if c = 37 then
      match s with
      | a :: b :: s' =>
        let percent : Bool := [a, b] = ascii "25"
        if ¬ (isHexDigit a ∧ isHexDigit b) then .error (.escape [c, a, b])
        else if mode = .host ∧ digitValue a < 8 ∧ ¬ percent then .error (.escape [c, a, b])
        else if mode = .zone ∧ ¬ percent ∧ hexByte a b ≠ 32 ∧ shouldEscape (hexByte a b) then
          .error (.escape [c, a, b])
        else checkEscapes mode s'
      | _ => .error (.escape (c :: s))
    else if c < 128 ∧ shouldEscape c then .error (.invalidHostByte c)
    else checkEscapes mode s

def decodeArgAppendNoPlus : List UInt8 → List UInt8
  | c :: a :: b :: s =>
    if c = 37 ∧ isHexDigit a ∧ isHexDigit b then hexByte a b :: decodeArgAppendNoPlus s
    else c :: decodeArgAppendNoPlus (a :: b :: s)
  | s => s

-- every escape is well formed after the first loop, and the second one decodes them
def unescape (s : List UInt8) (mode : Encoding) : Except UriError (List UInt8) := do
  checkEscapes mode s
  return decodeArgAppendNoPlus s

/-! ## The authority -/

def validOptionalPort (port : List UInt8) : Bool :=
  match port with
  | [] => true
  | c :: digits => c = 58 && digits.all isDigit

def parseHost (host : List UInt8) : Except UriError (List UInt8) := do
  if host.head? = some 91 then
    match cutLast 93 host with
    | none => throw .missingBracket
    | some (literal, colonPort) =>
      if ¬ validOptionalPort colonPort then throw (.invalidPort colonPort)
      match index (ascii "%25") literal with
      | some zone =>
        let host1 ← unescape (host.take zone) .host
        let host2 ← unescape (literal.drop zone) .zone
        let host3 ← unescape (host.drop literal.length) .host
        return host1 ++ host2 ++ host3
      | none => pure ()
  else
    if 91 ∈ host ∨ 93 ∈ host then throw (.invalidHost host)
    match cutLast 58 host with
    | none => pure ()
    | some (name, port) =>
      if 58 ∈ name then throw (.multiplePortDelimiters host)
      if ¬ validOptionalPort (58 :: port) then throw (.invalidPort (58 :: port))
  let host ← unescape host .host
  validateIPv6Literal host
  return host

def validUserinfo (userinfo : List UInt8) : Bool :=
  userinfo.all fun c => isAlpha c || isDigit c || (ascii "-._:~!$&'()*+,;=%@").contains c

/-- The part of `ParseInternal` that takes the user information off the host: the
user name, the password and the host. -/
def parseAuthority (host : List UInt8) : Except UriError (List UInt8 × List UInt8 × List UInt8) := do
  match cutLast 64 host with
  | none => return ([], [], lowercaseBytes (← parseHost host))
  | some (auth, host) =>
    if ¬ validUserinfo auth then throw .invalidURI
    return (auth.takeWhile (· ≠ 58), (auth.dropWhile (· ≠ 58)).drop 1, lowercaseBytes (← parseHost host))

/-! ## The path -/

/-- `f` as often as it yields something. -/
def repeatedly (f : List UInt8 → Option (List UInt8)) : Nat → List UInt8 → List UInt8
  | 0, s => s
  | n + 1, s =>
    match f s with
    | none => s
    | some t => repeatedly f n t

def removeDuplicateSlashes : List UInt8 → List UInt8
  | [] => []
  | c :: s =>
    if c = 47 ∧ s.head? = some 47 then removeDuplicateSlashes s else c :: removeDuplicateSlashes s

def removeDot (s : List UInt8) : Option (List UInt8) :=
  (index (ascii "/./") s).map fun n => s.take n ++ s.drop (n + 2)

/-- The length of what stands before the last slash, if there is one. -/
def lastSlash (s : List UInt8) : Option Nat := (cutLast 47 s).map fun p => p.1.length

def removeDotDot (s : List UInt8) : Option (List UInt8) :=
  (index (ascii "/../") s).map fun n => s.take ((lastSlash (s.take n)).getD 0) ++ s.drop (n + 3)

def normalizePath (src : List UInt8) : List UInt8 :=
  let dst := (if src.head? = some 47 then [] else [47]) ++ decodeArgAppendNoPlus src
  let dst := removeDuplicateSlashes dst
  if 46 ∉ dst then dst
  else
    let b := repeatedly removeDot dst.length dst
    let b := repeatedly removeDotDot b.length b
    if (ascii "/..").isSuffixOf b then
      match lastSlash (b.take (b.length - 3)) with
      | none => [47]
      | some n => b.take (n + 1)
    else b

/-! ## The whole -/

structure URI where
  scheme : List UInt8
  username : List UInt8
  password : List UInt8
  host : List UInt8
  pathOriginal : List UInt8
  path : List UInt8
  queryString : List UInt8
  hash : List UInt8
  deriving DecidableEq

/-- An empty path reads as a slash. -/
def orSlash (path : List UInt8) : List UInt8 := if path = [] then [47] else path

def URI.getPath (u : URI) : List UInt8 := orSlash u.path

def stringContainsCTLByte (s : List UInt8) : Bool := s.any fun c => c < 32 || c = 127

def isValidScheme (scheme : List UInt8) : Bool :=
  match scheme with
  | [] => false
  | c :: s => isAlpha c && s.all fun c => isAlpha c || isDigit c || (ascii "+-.").contains c

/-- Not one of the bytes that end an authority. -/
def inAuthority (c : UInt8) : Bool := c ≠ 47 && c ≠ 63 && c ≠ 35

def splitHostURI (host uri : List UInt8) : List UInt8 × List UInt8 × List UInt8 :=
  match index (ascii "//") uri with
  | none => (ascii "http", host, uri)
  | some n =>
    let scheme := uri.take n
    if 47 ∈ scheme then (ascii "http", host, uri)
    else
      let scheme := if scheme.getLast? = some 58 then scheme.dropLast else scheme
      let uri := uri.drop (n + 2)
      match uri.dropWhile inAuthority with
      | [] => (scheme, uri, [47])
      | rest => (scheme, uri.takeWhile inAuthority, rest)

def splitTarget (b : List UInt8) : List UInt8 × List UInt8 × List UInt8 :=
  let fragmentIndex := b.findIdx? (· == 35)
  let queryIndex := (b.findIdx? (· == 63)).filter fun q => fragmentIndex.all (q ≤ ·)
  match queryIndex, fragmentIndex with
  | none, none => (b, [], [])
  | some q, none => (b.take q, b.drop (q + 1), [])
  | some q, some f => (b.take q, (b.take f).drop (q + 1), b.drop (f + 1))
  | none, some f => (b.take f, [], b.drop (f + 1))

def parseInternal (host uri : List UInt8) (isTLS : Bool) : Except UriError URI := do
  if stringContainsCTLByte uri then throw .invalidURI
  let (scheme, host, uri) :=
    if host = [] ∨ (index (ascii "://") uri).isSome then splitHostURI host uri else ([], host, uri)
  if scheme ≠ [] ∧ ¬ isValidScheme scheme then throw (.invalidScheme scheme)
  let (username, password, host) ← parseAuthority host
  let (path, query, hash) := splitTarget uri
  return { scheme := lowercaseBytes (if isTLS then ascii "https" else scheme), username, password, host
           pathOriginal := path, path := normalizePath path, queryString := query, hash }

def parse (host uri : List UInt8) : Except UriError URI := parseInternal host uri false

end Mach.Uri
