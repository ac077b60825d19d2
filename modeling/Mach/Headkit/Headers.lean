import Mach.Headkit.Intern
import Mach.Lib.Swar
/-!
# Header storage of the HTTP/1.1 server

A header block is parsed in place: an entry is one word with the offset and the
length of a name and of a value in the block, sixteen bits each. Six names have a
slot of their own, forty-eight more entries fit behind the slots, and the rest is
copied into a second list, as is everything that is set later.

A slice out of the range of the block is a panic. `panicked` records that one was
met while parsing, and the operations that read words back give `none` then.
-/

namespace Mach.Headkit
open Lib

abbrev Field := List UInt8 × List UInt8

inductive HeaderError where
  | errWhitespaceBeforeColon | errDuplicateContentLength | errMultipleHostHeaders | errObsFold | errMalformedHeader
  | errBareCR
  deriving DecidableEq, Repr

structure Headers where
  buf : List UInt8 := []
  packed : Nat → Nat := fun _ => 0
  count : Nat := 16
  dynamic : List Field := []
  err : Option HeaderError := none
  panicked : Bool := false

/-! ## Names and slots -/

def lower (c : UInt8) : UInt8 := if 65 ≤ c ∧ c ≤ 90 then c + 32 else c

def equalFoldASCII (a b : List UInt8) : Bool := a.map lower == b.map lower

def idxHost : Nat := 0
def idxConnection : Nat := 1
def idxContentLength : Nat := 2
def idxContentType : Nat := 3
def idxUserAgent : Nat := 4
def idxAccept : Nat := 5
def idxReservedCount : Nat := 16
def maxHeaders : Nat := 64

/-- The slot of a name, by its length first. -/
def slotOf (key : List UInt8) : Option Nat :=
  match key.length with
  | 4 => if equalFoldASCII key (ascii "Host") then some idxHost else none
  | 6 => if equalFoldASCII key (ascii "Accept") then some idxAccept else none
  | 10 =>
    if equalFoldASCII key (ascii "Connection") then some idxConnection
    else if equalFoldASCII key (ascii "User-Agent") then some idxUserAgent
    else none
  | 12 => if equalFoldASCII key (ascii "Content-Type") then some idxContentType else none
  | 14 => if equalFoldASCII key (ascii "Content-Length") then some idxContentLength else none
  | _ => none

/-! ## Words -/

def slice (buf : List UInt8) (start stop : Nat) : List UInt8 := (buf.drop start).take (stop - start)

def pack (keyStart keyLen valStart valLen : Nat) : Nat :=
  (keyStart <<< 48 ||| keyLen <<< 32 ||| valStart <<< 16 ||| valLen) % 2 ^ 64

namespace Headers

def sliceAt (h : Headers) (start length : Nat) : Option (List UInt8) :=
  if start + length ≤ h.buf.length then some (slice h.buf start (start + length)) else none

def getKey (h : Headers) (p : Nat) : Option (List UInt8) :=
  if p = 0 then some [] else h.sliceAt (p >>> 48 % 2 ^ 16) (p >>> 32 % 2 ^ 16)

def getVal (h : Headers) (p : Nat) : Option (List UInt8) :=
  if p = 0 then some [] else h.sliceAt (p >>> 16 % 2 ^ 16) (p % 2 ^ 16)

/-- The first error stays. -/
def fail (h : Headers) (e : HeaderError) : Headers := if h.err.isNone then { h with err := some e } else h

def put (h : Headers) (i p : Nat) : Headers := { h with packed := Function.update h.packed i p }

end Headers

/-! ## Parsing -/

def isBlank (c : UInt8) : Bool := c == 32 || c == 9

/-- The first position from `start` on, before `stop`, that is no blank. -/
def trimStart (buf : List UInt8) (start stop : Nat) : Nat := start + ((slice buf start stop).takeWhile isBlank).length

/-- The position behind the last octet from `start` on, before `stop`, that is no blank. -/
def trimEnd (buf : List UInt8) (start stop : Nat) : Nat :=
  stop - ((slice buf start stop).reverse.takeWhile isBlank).length

namespace Headers

/-- An entry without a slot. -/
def addOther (h : Headers) (key val : List UInt8) (p : Nat) : Headers :=
  if h.count < maxHeaders then { h.put h.count p with count := h.count + 1 }
  else { h with dynamic := h.dynamic ++ [(key, val)] }

/-- The entry of a name and value given by their positions, blanks around them trimmed already. -/
def addTrimmed (h : Headers) (keyStart keyEnd valStart valEnd : Nat) : Headers :=
  let p := pack keyStart (keyEnd - keyStart) valStart (valEnd - valStart)
  let key := slice h.buf keyStart keyEnd
  let val := slice h.buf valStart valEnd
  match slotOf key with
  | none => h.addOther key val p
  | some i =>
    if i = idxHost then if h.packed idxHost ≠ 0 then h.fail .errMultipleHostHeaders else h.put idxHost p
    else if i = idxContentLength then
      if h.packed idxContentLength ≠ 0 then
        match h.getVal (h.packed idxContentLength) with
        | none => { h with panicked := true }
        | some oldVal => if oldVal ≠ val then h.fail .errDuplicateContentLength else h
      else h.put idxContentLength p
    else h.put i p

def addPacked (h : Headers) (keyStart keyEnd valStart valEnd : Nat) : Headers :=
  let keyStart := trimStart h.buf keyStart keyEnd
  let keyEnd := trimEnd h.buf keyStart keyEnd
  let valStart := trimStart h.buf valStart valEnd
  let valEnd := trimEnd h.buf valStart valEnd
  if keyEnd ≤ keyStart ∨ valEnd < valStart then
    if keyEnd ≤ keyStart then h.fail .errMalformedHeader else h
  else h.addTrimmed keyStart keyEnd valStart valEnd

/-- The check of a line for NUL and for CR. -/
def checkLine (h : Headers) (line : List UInt8) : Headers :=
  line.foldl (fun h c => if c = 0 then h.fail .errMalformedHeader else if c = 13 then h.fail .errBareCR else h) h

end Headers

/-- Where the parser stands: `colon` has `keyEnd` and `valStart` once the line's colon is found. -/
structure Scan where
  h : Headers
  keyStart : Nat := 0
  colon : Option (Nat × Nat) := none

/-- The end of a line without its CR. -/
def lineEnd (block : List UInt8) (idx : Nat) : Nat := if 0 < idx ∧ block.getD (idx - 1) 0 = 13 then idx - 1 else idx

def atColon (block : List UInt8) (idx : Nat) (s : Scan) : Scan :=
  let h := if idx = s.keyStart then s.h.fail .errMalformedHeader else s.h
  let h := if s.keyStart < idx ∧ isBlank (block.getD (idx - 1) 0) then h.fail .errWhitespaceBeforeColon else h
  { s with h, colon := some (idx, trimStart block (idx + 1) block.length) }

/-- What ends at a line feed, or at the end of the block. -/
def closeLine (block : List UInt8) (idx : Nat) (s : Scan) : Headers :=
  let valEnd := lineEnd block idx
  let h := match s.colon with
    | some (keyEnd, valStart) => s.h.addPacked s.keyStart keyEnd valStart valEnd
    | none => if s.keyStart < valEnd then s.h.fail .errMalformedHeader else s.h
  h.checkLine (slice block s.keyStart valEnd)

def checkFold (block : List UInt8) (keyStart : Nat) (h : Headers) : Headers :=
  if keyStart < block.length ∧ isBlank (block.getD keyStart 0) then h.fail .errObsFold else h

/-- The body of both loops, at a position of the block. -/
def delimiter (block : List UInt8) (idx : Nat) (s : Scan) : Scan :=
  let c := block.getD idx 0
  if c = 58 ∧ s.colon.isNone then atColon block idx s
  else if c = 10 then { h := checkFold block (idx + 1) (closeLine block idx s), keyStart := idx + 1 }
  else s

/-- The flags of the colons and line feeds among the eight octets at `i`. -/
def delimiterMask (block : List UInt8) (i : Nat) : Nat :=
  let v := leNat (slice block i (i + 8))
  hasByte v 58 ||| hasByte v 10

/-- The delimiters among the eight octets at `i`, and how far the parser moves on. -/
def swarWord (block : List UInt8) (i : Nat) (s : Scan) : Scan × Nat :=
  if delimiterMask block i = 0 then (s, 8)
  else
    let (s, chunkOffset) := eachFlag (fun j s => delimiter block (i + j) s) 8 (delimiterMask block i) s 0
    (s, if 0 < chunkOffset then chunkOffset else 8)

/-- The loop over words. `fuel` bounds the rounds: each moves on by an octet at least. -/
def swarLoop (block : List UInt8) : Nat → Nat → Scan → Nat × Scan
  | 0, i, s => (i, s)
  | fuel + 1, i, s =>
    if i + 8 ≤ block.length then
      let (s, n) := swarWord block i s
      swarLoop block fuel (i + n) s
    else (i, s)

/-- The last line, if the block does not end with a line feed. -/
def flush (block : List UInt8) (s : Scan) : Headers :=
  if s.colon.isSome then closeLine block block.length s
  else if s.keyStart < block.length ∧ s.keyStart < lineEnd block block.length then s.h.fail .errMalformedHeader
  else s.h

namespace Headers

/-- The block is taken over as the buffer, the slots and the entries of before stay. -/
def parseHeaderBlockSWAR (h : Headers) (block : List UInt8) : Option Headers :=
  let h := { h with buf := block, count := idxReservedCount }
  let (i, s) := swarLoop block block.length 0 { h := checkFold block 0 h }
  let s := (List.range' i (block.length - i)).foldl (fun s i => delimiter block i s) s
  let h := flush block s
  if h.panicked then none else some h

/-! ## Access -/

/-- The entries behind the slots, in order. -/
def findPacked (h : Headers) (key : List UInt8) : List Nat → Option (Option (List UInt8))
  | [] => some none
  | i :: is =>
    if h.packed i = 0 then h.findPacked key is
    else
      match h.getKey (h.packed i) with
      | none => none
      | some k => if equalFoldASCII k key then (h.getVal (h.packed i)).map some else h.findPacked key is

def findDynamic (h : Headers) (key : List UInt8) : List UInt8 :=
  ((h.dynamic.find? fun f => equalFoldASCII f.1 key).map (·.2)).getD []

/-- The value in a slot, empty if there is none. -/
def getSlot (h : Headers) (key : List UInt8) : Option (List UInt8) :=
  match slotOf key with
  | some i => h.getVal (h.packed i)
  | none => some []

def get (h : Headers) (key : List UInt8) : Option (List UInt8) :=
  (h.getSlot key).bind fun v =>
    if v ≠ [] then some v
    else
      (h.findPacked key (List.range' idxReservedCount (h.count - idxReservedCount))).map fun r =>
        r.getD (h.findDynamic key)

def add (h : Headers) (key val : List UInt8) : Headers := { h with dynamic := h.dynamic ++ [(key, val)] }

/-- Whether `Del` of a name clears an entry; `none` if its name is out of range. -/
def names (h : Headers) (key : List UInt8) (i : Nat) : Option Bool :=
  if h.packed i = 0 then some false else (h.getKey (h.packed i)).map fun k => equalFoldASCII k key

def del (h : Headers) (key : List UInt8) : Option Headers :=
  if (List.range h.count).all fun i => (h.names key i).isSome then
    some { h with
      packed := fun i => if i < h.count ∧ h.names key i = some true then 0 else h.packed i
      dynamic := h.dynamic.filter fun f => !equalFoldASCII f.1 key }
  else none

def set (h : Headers) (key val : List UInt8) : Option Headers := (h.del key).map fun h => h.add key val

def entry (h : Headers) (p : Nat) : Option Field :=
  (h.getKey p).bind fun k => (h.getVal p).map fun v => (k, v)

/-- All entries, in the order of the iterator. -/
def all (h : Headers) : Option (List Field) :=
  (((List.range h.count).map h.packed).filter (· ≠ 0)).mapM h.entry |>.map (· ++ h.dynamic)

end Headers

end Mach.Headkit
