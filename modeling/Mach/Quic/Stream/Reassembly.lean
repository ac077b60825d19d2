import Mach.Lib.Slice
import Mach.Quic.Stream.Id
/-!
# The reassembly buffer

`reassembly.go`: out-of-order stream frames are kept as sorted chunks and read
back as a contiguous byte stream. `push` bounds every offset by 2^62 - 1 before
it is stored, so the offsets below are plain numbers; only the sum that `push`
itself checks for overflow is taken modulo 2^64.

A pooled buffer is recycled, so what it holds when it is handed out is
arbitrary: `stale` is that content, a parameter of every call that allocates.
-/

namespace Mach.Quic.Stream

open Lib

def smallChunkSize : Nat := 2048
def largeChunkSize : Nat := 16384

/-- A buffer of `size` bytes, the capacity of the pooled buffer it is cut from
(`none` for a fresh one, which is zeroed) and whether that one is large. -/
def allocChunkData (stale : Nat → UInt8) (size : Nat) : List UInt8 × Option Nat × Bool :=
  if size ≤ smallChunkSize then ((List.range size).map stale, some smallChunkSize, false)
  else if size ≤ largeChunkSize then ((List.range size).map stale, some largeChunkSize, true)
  else (List.replicate size 0, none, false)

/-- A buffered contiguous range of stream bytes. `pooled` is the capacity of
the pooled buffer behind it. -/
structure ReassemblyChunk where
  offset : Nat
  data : List UInt8
  pooled : Option Nat
  isLarge : Bool
  deriving Repr

/-- The offset just after the chunk (`end` in the source). -/
def ReassemblyChunk.stop (c : ReassemblyChunk) : Nat := c.offset + c.data.length

structure ReassemblyBuffer where
  readOffset : Nat := 0
  highestOffset : Nat := 0
  finalSize : Nat := 0
  hasFinalSize : Bool := false
  chunks : List ReassemblyChunk := []
  deriving Repr

def newReassemblyBuffer : ReassemblyBuffer := {}

/-- A chunk of its own for `data`: the allocation and the `copy` into it. -/
def newChunk (stale : Nat → UInt8) (offset : Nat) (data : List UInt8) : ReassemblyChunk :=
  let (buf, pooled, isLarge) := allocChunkData stale data.length
  ⟨offset, copyAt buf 0 data, pooled, isLarge⟩

/-- The search loop of `insertChunk` from chunk `i` on: the first and last chunk
that touch or overlap `[offset, stop]`, and the index to insert at if there are
none. -/
def scanChunks (offset stop n : Nat) : Nat → List ReassemblyChunk → Option (Nat × Nat) → Nat → Option (Nat × Nat) × Nat
  | _, [], overlap, insertIdx => (overlap, insertIdx)
  | i, c :: cs, overlap, insertIdx =>
    if c.offset ≤ stop ∧ offset ≤ c.stop then
      let first := match overlap with
        | none => i
        | some (f, _) => f
      scanChunks offset stop n (i + 1) cs (some (first, i)) insertIdx
    else if stop < c.offset ∧ overlap = none then
      (overlap, i)
    else
      scanChunks offset stop n (i + 1) cs overlap (if i = n - 1 ∧ overlap = none then n else insertIdx)

/-- The check that the overlapping part of `c` holds the bytes of the frame. -/
def divergent (offset : Nat) (data : List UInt8) (c : ReassemblyChunk) : Option TransportError :=
  let overlapStart := max offset c.offset
  let overlapEnd := min (offset + data.length) c.stop
  if overlapStart < overlapEnd ∧
      slice c.data (overlapStart - c.offset) (overlapEnd - overlapStart) ≠
        slice data (overlapStart - offset) (overlapEnd - overlapStart) then
    some ⟨.protocolViolation,
      s!"stream frame divergent data in overlapping range [{overlapStart}, {overlapEnd})"⟩
  else none

/-- The chunk that replaces the touched ones: each is copied to its place in a
new buffer, and the frame last. -/
def mergeChunks (stale : Nat → UInt8) (offset : Nat) (data : List UInt8) (touched : List ReassemblyChunk)
    (first last : ReassemblyChunk) : ReassemblyChunk :=
  let mergedOffset := min offset first.offset
  let mergedEnd := max (offset + data.length) last.stop
  let (buf, pooled, isLarge) := allocChunkData stale (mergedEnd - mergedOffset)
  let buf := touched.foldl (fun buf c => copyAt buf (c.offset - mergedOffset) c.data) buf
  ⟨mergedOffset, copyAt buf (offset - mergedOffset) data, pooled, isLarge⟩

namespace ReassemblyBuffer

def insertChunk (b : ReassemblyBuffer) (stale : Nat → UInt8) (offset : Nat) (data : List UInt8) :
    ReassemblyBuffer × Option TransportError :=
  let stop := offset + data.length
  match b.chunks.getLast? with
  | none => ({ b with chunks := [newChunk stale offset data] }, none)
  | some last =>
    if offset = last.stop then
      -- Extends the last chunk in place if its pooled buffer has room.
      if last.pooled.any (fun cap => last.data.length + data.length ≤ cap) then
        ({ b with chunks := b.chunks.dropLast ++ [{ last with data := last.data ++ data }] }, none)
      else ({ b with chunks := b.chunks ++ [newChunk stale offset data] }, none)
    else if last.stop < offset then
      ({ b with chunks := b.chunks ++ [newChunk stale offset data] }, none)
    else
      match scanChunks offset stop b.chunks.length 0 b.chunks none 0 with
      | (none, insertIdx) =>
        ({ b with chunks := b.chunks.take insertIdx ++ newChunk stale offset data :: b.chunks.drop insertIdx }, none)
      | (some (firstOverlap, lastOverlap), _) =>
        let touched := slice b.chunks firstOverlap (lastOverlap + 1 - firstOverlap)
        match touched.findSome? (divergent offset data) with
        | some err => (b, some err)
        | none =>
          match touched.head?, touched.getLast? with
          | some first, some last =>
            -- Completely contained in a single chunk: a verified duplicate.
            if firstOverlap = lastOverlap ∧ first.offset ≤ offset ∧ stop ≤ first.stop then (b, none)
            else
              ({ b with chunks := b.chunks.take firstOverlap ++
                  mergeChunks stale offset data touched first last :: b.chunks.drop (lastOverlap + 1) }, none)
          | _, _ => (b, none)

def push (b : ReassemblyBuffer) (stale : Nat → UInt8) (offset : Nat) (data : List UInt8) (fin : Bool) :
    ReassemblyBuffer × Option TransportError :=
  if varintMax < offset ∨ varintMax < data.length then
    (b, some ⟨.frameEncodingError, s!"stream offset {offset} or length {data.length} exceeds max varint"⟩)
  else
    let stop := u64 (offset + data.length)
    if stop < offset ∨ varintMax < stop then
      (b, some ⟨.frameEncodingError,
        s!"stream frame [offset {offset}, len {data.length}] exceeds max representable offset (2^62 - 1)"⟩)
    else if b.hasFinalSize ∧ fin ∧ b.finalSize ≠ stop then
      (b, some ⟨.finalSizeError, s!"inconsistent final size: previously {b.finalSize}, received {stop}"⟩)
    else if b.hasFinalSize ∧ b.finalSize < stop then
      (b, some ⟨.finalSizeError,
        s!"stream frame exceeds final size: offset {offset} + len {data.length} > {b.finalSize}"⟩)
    else if fin ∧ ¬ b.hasFinalSize ∧ stop < b.highestOffset then
      (b, some ⟨.finalSizeError,
        s!"final size {stop} is less than highest received offset {b.highestOffset}"⟩)
    else
      let b := if fin ∧ ¬ b.hasFinalSize then { b with finalSize := stop, hasFinalSize := true } else b
      let b := { b with highestOffset := max b.highestOffset stop }
      if stop ≤ b.readOffset then (b, none)
      else
        -- Trims the part of the frame that has been read already.
        let data := if offset < b.readOffset then data.drop (b.readOffset - offset) else data
        let offset := if offset < b.readOffset then b.readOffset else offset
        if data.length = 0 then (b, none) else b.insertChunk stale offset data

def isAllDataRead (b : ReassemblyBuffer) : Bool := b.hasFinalSize && decide (b.finalSize ≤ b.readOffset)

/-- `Read` into a buffer of `n` bytes: the bytes copied into it, and whether
`io.EOF` is reported. -/
def read (b : ReassemblyBuffer) (n : Nat) : ReassemblyBuffer × List UInt8 × Bool :=
  if n = 0 then (b, [], false)
  else
    match b.chunks with
    | [] => (b, [], b.isAllDataRead)
    | c :: cs =>
      if b.readOffset < c.offset then (b, [], b.isAllDataRead)
      else
        let toCopy := min n c.data.length
        let b := { b with readOffset := b.readOffset + toCopy }
        let b :=
          if toCopy = c.data.length then { b with chunks := cs }
          else { b with chunks := { c with offset := c.offset + toCopy, data := c.data.drop toCopy } :: cs }
        (b, c.data.take toCopy, b.isAllDataRead)

/-- `Peek` into a buffer of `n` bytes: what `read` would copy and report. -/
def peek (b : ReassemblyBuffer) (n : Nat) : List UInt8 × Bool :=
  if n = 0 then ([], false)
  else
    match b.chunks with
    | [] => ([], b.isAllDataRead)
    | c :: _ =>
      if b.readOffset < c.offset then ([], b.isAllDataRead)
      else
        let toCopy := min n c.data.length
        (c.data.take toCopy, b.hasFinalSize && decide (b.finalSize ≤ b.readOffset + toCopy))

def availableContiguous (b : ReassemblyBuffer) : Nat :=
  match b.chunks with
  | [] => 0
  | c :: _ => if b.readOffset < c.offset then 0 else c.data.length

def setFinalSize (b : ReassemblyBuffer) (finalSize : Nat) : ReassemblyBuffer :=
  { b with finalSize, hasFinalSize := true, highestOffset := max b.highestOffset finalSize }

end ReassemblyBuffer

end Mach.Quic.Stream
