import Mach.Headkit.Intern
import Mach.Hpack.Primitive
/-!
# Tables and header blocks

The static table, the dynamic table with its eviction, and the searches in
both. The dynamic table is a list with the oldest entry first; sizes are 32-bit
numbers. `AppendHeader` appends one field to a block, `Next` reads one and
`Decode` all fields of a block.
-/

namespace Mach.Hpack

open Lib Headkit

/-! ## Header fields -/

structure HeaderField where
  key : List UInt8 := []
  value : List UInt8 := []
  sensible : Bool := false
  deriving Repr, DecidableEq

namespace HeaderField

def isEmpty (hf : HeaderField) : Bool := hf.key == [] && hf.value == []

def size (hf : HeaderField) : Nat := (hf.key.length + hf.value.length + 32) % 2 ^ 32

def setKeyBytes (hf : HeaderField) (key : List UInt8) : HeaderField := { hf with key := storedKey key }

def setValueBytes (hf : HeaderField) (value : List UInt8) : HeaderField := { hf with value := storedValue value }

/-- What `CopyTo` makes of the other field. -/
def copy (hf : HeaderField) : HeaderField :=
  { key := storedKey hf.key, value := storedValue hf.value, sensible := hf.sensible }

end HeaderField

/-! ## The static table -/

def staticTable : List HeaderField :=
  [(":authority", ""), (":method", "GET"), (":method", "POST"), (":path", "/"), (":path", "/index.html"),
   (":scheme", "http"), (":scheme", "https"), (":status", "200"), (":status", "204"), (":status", "206"),
   (":status", "304"), (":status", "400"), (":status", "404"), (":status", "500"), ("accept-charset", ""),
   ("accept-encoding", "gzip, deflate"), ("accept-language", ""), ("accept-ranges", ""), ("accept", ""),
   ("access-control-allow-origin", ""), ("age", ""), ("allow", ""), ("authorization", ""), ("cache-control", ""),
   ("content-disposition", ""), ("content-encoding", ""), ("content-language", ""), ("content-length", ""),
   ("content-location", ""), ("content-range", ""), ("content-type", ""), ("cookie", ""), ("date", ""), ("etag", ""),
   ("expect", ""), ("expires", ""), ("from", ""), ("host", ""), ("if-match", ""), ("if-modified-since", ""),
   ("if-none-match", ""), ("if-range", ""), ("if-unmodified-since", ""), ("last-modified", ""), ("link", ""),
   ("location", ""), ("max-forwards", ""), ("proxy-authenticate", ""), ("proxy-authorization", ""), ("range", ""),
   ("referer", ""), ("refresh", ""), ("retry-after", ""), ("server", ""), ("set-cookie", ""),
   ("strict-transport-security", ""), ("transfer-encoding", ""), ("user-agent", ""), ("vary", ""), ("via", ""),
   ("www-authenticate", "")].map fun (k, v) => { key := ascii k, value := ascii v }

/-- The cases of `fastStaticLookup` that do not look at the value, other than whether it is empty. -/
def staticNames : List (String × Nat) :=
  [(":authority", 1), ("accept-charset", 15), ("accept-language", 17), ("accept-ranges", 18), ("accept", 19),
   ("access-control-allow-origin", 20), ("age", 21), ("allow", 22), ("authorization", 23), ("cache-control", 24),
   ("content-disposition", 25), ("content-encoding", 26), ("content-language", 27), ("content-length", 28),
   ("content-location", 29), ("content-range", 30), ("content-type", 31), ("cookie", 32), ("date", 33), ("etag", 34),
   ("expect", 35), ("expires", 36), ("from", 37), ("host", 38), ("if-match", 39), ("if-modified-since", 40),
   ("if-none-match", 41), ("if-range", 42), ("if-unmodified-since", 43), ("last-modified", 44), ("link", 45),
   ("location", 46), ("max-forwards", 47), ("proxy-authenticate", 48), ("proxy-authorization", 49), ("range", 50),
   ("referer", 51), ("refresh", 52), ("retry-after", 53), ("server", 54), ("set-cookie", 55),
   ("strict-transport-security", 56), ("transfer-encoding", 57), ("user-agent", 58), ("vary", 59), ("via", 60),
   ("www-authenticate", 61)]

/-- An index with the name, and whether the field there is taken for a match of both. -/
def fastStaticLookup (key val : List UInt8) : Option (Nat × Bool) :=
  if key = ascii ":method" then
    if val = ascii "GET" then some (2, true) else if val = ascii "POST" then some (3, true) else some (2, false)
  else if key = ascii ":path" then
    if val = ascii "/" then some (4, true) else if val = ascii "/index.html" then some (5, true) else some (4, false)
  else if key = ascii ":scheme" then
    if val = ascii "http" then some (6, true) else if val = ascii "https" then some (7, true) else some (7, false)
  else if key = ascii ":status" then
    if val = ascii "200" then some (8, true)
    else if val = ascii "204" then some (9, true)
    else if val = ascii "206" then some (10, true)
    else if val = ascii "304" then some (11, true)
    else if val = ascii "400" then some (12, true)
    else if val = ascii "404" then some (13, true)
    else if val = ascii "500" then some (14, true)
    else some (8, false)
  else if key = ascii "accept-encoding" then
    if val = ascii "gzip, deflate" then some (16, true) else some (16, val.length == 0)
  else
    (staticNames.find? fun p => ascii p.1 == key).map fun p => (p.2, val.length == 0)

/-! ## The codec's state -/

structure HPACK where
  disableCompression : Bool := false
  disableDynamicTable : Bool := false
  tableSizeUpdateAllowed : Bool := true
  pendingTableSizeUpdate : Bool := false
  dynamic : List HeaderField := []
  maxTableSize : Nat := 4096
  dynamicSize : Nat := 0
  maxCapacity : Nat := 4096
  deriving Repr, DecidableEq

/-- The first index of the dynamic table. -/
def maxIndex : Nat := 62

namespace HPACK

/-- The loop of `shrink`: drops the oldest entries while they do not fit. -/
def shrinkLoop (maxTableSize : Nat) : Nat → List HeaderField → Nat × List HeaderField
  | dynamicSize, [] => (dynamicSize, [])
  | dynamicSize, hf :: dynamic =>
    if maxTableSize < dynamicSize then
      shrinkLoop maxTableSize (if hf.size < dynamicSize then dynamicSize - hf.size else 0) dynamic
    else (dynamicSize, hf :: dynamic)

def shrink (hp : HPACK) : HPACK :=
  let (dynamicSize, dynamic) := shrinkLoop hp.maxTableSize hp.dynamicSize hp.dynamic
  { hp with dynamicSize, dynamic }

def setMaxCapacity (hp : HPACK) (capacity : Nat) : HPACK :=
  let hp := { hp with maxCapacity := capacity }
  if capacity < hp.maxTableSize then { hp with maxTableSize := capacity }.shrink else hp

def setMaxTableSize (hp : HPACK) (size : Nat) : HPACK :=
  let hp := if hp.maxTableSize ≠ size then { hp with pendingTableSizeUpdate := true } else hp
  let hp := { hp with maxTableSize := size }
  let hp := if hp.maxCapacity < size then { hp with maxCapacity := size } else hp
  if size < hp.dynamicSize then hp.shrink else hp

def addDynamic (hp : HPACK) (hf : HeaderField) : HPACK :=
  if hp.maxTableSize < hf.size then { hp with dynamic := [], dynamicSize := 0 }
  else
    let hf2 := hf.copy
    { hp with dynamic := hp.dynamic ++ [hf2], dynamicSize := (hp.dynamicSize + hf2.size) % 2 ^ 32 }.shrink

def peek (hp : HPACK) (n : Nat) : Option HeaderField :=
  if n < maxIndex then
    if n = 0 then none else staticTable[n - 1]?
  else if hp.dynamic.length ≤ n - maxIndex then none
  else hp.dynamic[hp.dynamic.length - (n - maxIndex) - 1]?

/-- Behind the static table the newest entry comes first. -/
theorem peek_dynamic (hp : HPACK) (i : Nat) : hp.peek (maxIndex + i) = hp.dynamic.reverse[i]? := by
  rw [peek, if_neg (by omega), Nat.add_sub_cancel_left]
  split
  · rename_i hle
    rw [List.getElem?_eq_none (by simpa using hle)]
  · rename_i hlt
    rw [List.getElem?_reverse (by omega)]
    congr 1
    omega

/-- The backward loops of `search`: how far from the newest entry the first match is. -/
def searchDynamic (hp : HPACK) (p : HeaderField → Bool) : Option Nat := hp.dynamic.reverse.findIdx? p

def search (hp : HPACK) (hf : HeaderField) : Nat × Bool :=
  match hp.searchDynamic fun hf2 => hf2.key == hf.key && hf2.value == hf.value with
  | some i => (maxIndex + i, true)
  | none =>
    match fastStaticLookup hf.key hf.value with
    | some (idx, full) => (idx, full)
    | none =>
      match hp.searchDynamic fun hf2 => hf2.key == hf.key with
      | some i => (maxIndex + i, false)
      | none => (0, false)

/-! ## Encoding -/

/-- The size update that is due, at the start of a block. -/
def appendSizeUpdate (hp : HPACK) (dst : List UInt8) : HPACK × List UInt8 :=
  if hp.pendingTableSizeUpdate then
    ({ hp with pendingTableSizeUpdate := false }, dst ++ orAt (appendInt [] 5 hp.maxTableSize) 0 0x20)
  else (hp, dst)

/-- The field itself: an index, or a literal. -/
def appendField (hp : HPACK) (dst : List UInt8) (hf : HeaderField) (store : Bool) : HPACK × List UInt8 :=
  let (index, fullMatch) := hp.search hf
  if fullMatch then (hp, appendInt (dst ++ [128]) 7 index)
  else
    let (c, bits, dst, hp) :=
      if hf.sensible then (false, 4, dst ++ [16], hp)
      else if store = false ∨ hp.disableDynamicTable then (!hp.disableCompression, 4, dst ++ [0], hp)
      else (!hp.disableCompression, 6, dst ++ [64], hp.addDynamic hf)
    let dst :=
      if 0 < index then appendInt dst bits index else appendString (appendInt dst bits 0) hf.key c
    (hp, appendString dst hf.value c)

def appendHeader (hp : HPACK) (dst : List UInt8) (hf : HeaderField) (store : Bool) : HPACK × List UInt8 :=
  let (hp, dst) := hp.appendSizeUpdate dst
  hp.appendField dst hf store

/-! The limit of the table does not depend on what is encoded. -/

@[simp] theorem maxTableSize_setMaxTableSize (hp : HPACK) (size : Nat) :
    (hp.setMaxTableSize size).maxTableSize = size := by
  unfold setMaxTableSize
  dsimp only
  split <;> split <;> split <;> rfl

theorem maxTableSize_addDynamic (hp : HPACK) (hf : HeaderField) :
    (hp.addDynamic hf).maxTableSize = hp.maxTableSize := by
  unfold addDynamic
  split <;> rfl

theorem maxTableSize_appendField (hp : HPACK) (dst : List UInt8) (hf : HeaderField) (store : Bool) :
    (hp.appendField dst hf store).1.maxTableSize = hp.maxTableSize := by
  unfold appendField
  dsimp only
  split
  · rfl
  · split
    · rfl
    · split
      · rfl
      · exact maxTableSize_addDynamic hp hf

theorem maxTableSize_appendHeader (hp : HPACK) (dst : List UInt8) (hf : HeaderField) (store : Bool) :
    (hp.appendHeader dst hf store).1.maxTableSize = hp.maxTableSize := by
  unfold appendHeader
  dsimp only
  rw [maxTableSize_appendField]
  unfold appendSizeUpdate
  split <;> rfl

/-! ## Decoding -/

def decodeIndexed (hp : HPACK) (b : List UInt8) : Except DecodeError (HeaderField × List UInt8) := do
  let (n, b) ← readInt 7 b
  if n = 0 then throw .indexZero
  match hp.peek n with
  | none => throw (.indexOutOfBounds n)
  | some hf2 => return (hf2.copy, b)

/-- A literal field: its name from the table (with an index of `bits` bits) or as a string, then its value. -/
def decodeLiteral (hp : HPACK) (hf : HeaderField) (b : List UInt8) (bits : Nat) (indexed : Bool)
    (notFound : Nat → DecodeError) : Except DecodeError (HeaderField × List UInt8) := do
  let (hf, b) ←
    if indexed then do
      let (n, b) ← readInt bits b
      match hp.peek n with
      | none => throw (notFound n)
      | some hf2 => pure (hf.setKeyBytes hf2.key, b)
    else do
      let (key, b) ← readString (b.drop 1)
      pure (hf.setKeyBytes key, b)
  let (value, b) ← readString b
  return (hf.setValueBytes value, b)

def decodeLiteralIndexed (hp : HPACK) (hf : HeaderField) (b : List UInt8) :
    HPACK × Except DecodeError (HeaderField × List UInt8) :=
  match hp.decodeLiteral hf b 6 (b.headD 0 != 64) .literalIndexedNotFound with
  | .error e => (hp, .error e)
  | .ok (hf, b) => (hp.addDynamic hf, .ok (hf, b))

def decodeLiteralNoIndex (hp : HPACK) (hf : HeaderField) (b : List UInt8) :
    Except DecodeError (HeaderField × List UInt8) :=
  hp.decodeLiteral hf b 4 (b.headD 0 &&& 15 != 0) .nonIndexedNotFound

/-- The loop of `Next`, which ends with the first field; size updates come before it. `fuel` bounds the rounds: each
takes a byte at least. -/
def nextLoop : Nat → HPACK → HeaderField → List UInt8 → HPACK × Except DecodeError (HeaderField × List UInt8)
  | fuel + 1, hp, hf, c :: rest =>
    let b := c :: rest
    let closed := { hp with tableSizeUpdateAllowed := false }
    if c &&& 128 = 128 then (closed, closed.decodeIndexed b)
    else if c &&& 64 = 64 then closed.decodeLiteralIndexed hf b
    else if c &&& 240 = 16 then (closed, closed.decodeLiteralNoIndex { hf with sensible := true } b)
    else if c &&& 240 = 0 then (closed, closed.decodeLiteralNoIndex hf b)
    else if c &&& 0xe0 = 0x20 then
      if hp.tableSizeUpdateAllowed = false then (hp, .error .tableSizeUpdateNotAllowed)
      else match readInt 5 b with
        | .error e => (hp, .error e)
        | .ok (n, b) =>
          if hp.maxCapacity < n then (hp, .error .tableSizeLimitExceeded)
          else nextLoop fuel { hp with maxTableSize := n % 2 ^ 32 }.shrink hf b
    else (hp, .error .unknownRepresentation)
  | _, hp, hf, b => (hp, .ok (hf, b))

def next (hp : HPACK) (hf : HeaderField) (b : List UInt8) : HPACK × Except DecodeError (HeaderField × List UInt8) :=
  nextLoop b.length hp hf b

/-- The loop of `Decode`, with the fields it yields. -/
def decodeFields : Nat → HPACK → List UInt8 → HPACK × List HeaderField × Option DecodeError
  | fuel + 1, hp, c :: rest =>
    match hp.next {} (c :: rest) with
    | (hp, .error e) => (hp, [], some e)
    | (hp, .ok (hf, rem)) =>
      if (c :: rest).length ≤ rem.length then (hp, [], some .noProgress)
      else
        let (hp, fields, err) := decodeFields fuel hp rem
        (hp, if hf.isEmpty then fields else hf :: fields, err)
  | _, hp, _ => (hp, [], none)

def beginHeaderBlock (hp : HPACK) : HPACK := { hp with tableSizeUpdateAllowed := true }

def decode (hp : HPACK) (b : List UInt8) : HPACK × List HeaderField × Option DecodeError :=
  decodeFields b.length hp.beginHeaderBlock b

end HPACK

end Mach.Hpack
