import Mach.Lib.Bytes
import Mathlib.Data.List.Basic
/-!
# Interned header names and values

Well-known names are replaced by one shared slice. The names are compared
without regard to case, eight bytes at a time, so that interning also turns
such a name into lower case; values are compared exactly.
-/

namespace Mach.Headkit

open Lib

/-- The bytes of a string constant of the program, all of which are ASCII. -/
def ascii (s : String) : List UInt8 := s.toList.map fun c => UInt8.ofNat c.toNat

/-! ## Comparison without regard to case -/

/-- `v` with the bit 0x20 of each byte between 0x41 and 0x7f set, in words of `w` bits; the other numbers are a byte
repeated over the word. -/
def toLowerWord (w x7f x80 x3f x20 v : Nat) : Nat :=
  let mask := (v + x7f) % 2 ^ w
  let mask := (mask ^^^ v) &&& x80
  let mask := ((v + x3f) % 2 ^ w ^^^ v) &&& mask
  let mask := (mask >>> 2) &&& x20
  v ||| mask

def toLower64 : Nat → Nat :=
  toLowerWord 64 0x7f7f7f7f7f7f7f7f 0x8080808080808080 0x3f3f3f3f3f3f3f3f 0x2020202020202020

def toLower32 : Nat → Nat := toLowerWord 32 0x7f7f7f7f 0x80808080 0x3f3f3f3f 0x20202020

def leNat (l : List UInt8) : Nat := beNat l.reverse

/-- The scalar tail of the comparison. -/
def equalFoldTail : List UInt8 → List UInt8 → Bool
  | ca :: a, cb :: b => (if 65 ≤ ca ∧ ca ≤ 90 then ca + 32 else ca) == cb && equalFoldTail a b
  | _, _ => true

/-- `k` blocks of eight bytes, one of four if there are as many, then single bytes. -/
def equalFoldBlocks : Nat → List UInt8 → List UInt8 → Bool
  | k + 1, a, b => toLower64 (leNat (a.take 8)) == leNat (b.take 8) && equalFoldBlocks k (a.drop 8) (b.drop 8)
  | 0, a, b =>
    if 4 ≤ a.length then toLower32 (leNat (a.take 4)) == leNat (b.take 4) && equalFoldTail (a.drop 4) (b.drop 4)
    else equalFoldTail a b

def equalFoldSWAR (a b : List UInt8) : Bool :=
  if a.length ≠ b.length then false else equalFoldBlocks (a.length / 8) a b

/-! ## Names -/

/-- `key` if `b` is `key` in any case. -/
def foldKey (key : String) (b : List UInt8) : Option (List UInt8) :=
  if equalFoldSWAR b (ascii key) then some (ascii key) else none

def sameKey (key : String) (b : List UInt8) : Option (List UInt8) :=
  if b = ascii key then some (ascii key) else none

def internKey (b : List UInt8) : Option (List UInt8) :=
  -- the byte at `i`, and the byte at `i` in lower case
  let is (i : Nat) (c : Char) : Bool := b.getD i 0 == UInt8.ofNat c.toNat
  let low (i : Nat) (c : Char) : Bool := b.getD i 0 ||| 0x20 == UInt8.ofNat c.toNat
  match b.length with
  | 4 =>
    if low 0 'h' then foldKey "host" b
    else if low 0 'd' then foldKey "date" b
    else if low 0 'e' then foldKey "etag" b
    else none
  | 5 => sameKey ":path" b
  | 6 =>
    if low 0 'a' then foldKey "accept" b
    else if low 0 'c' then foldKey "cookie" b
    else if low 0 's' then foldKey "server" b
    else none
  | 7 =>
    if is 0 ':' then
      if is 1 'm' then sameKey ":method" b
      else if is 1 's' then
        if is 2 'c' then sameKey ":scheme" b else if is 2 't' then sameKey ":status" b else none
      else none
    else if low 0 'r' then foldKey "referer" b
    else none
  | 8 => if low 0 'p' then foldKey "priority" b else none
  | 9 => if low 0 's' then foldKey "sec-ch-ua" b else if low 0 ':' then sameKey ":protocol" b else none
  | 10 =>
    if is 0 ':' then sameKey ":authority" b
    else if is 0 'c' || is 0 'C' then foldKey "connection" b
    else if is 0 's' || is 0 'S' then foldKey "set-cookie" b
    else if is 0 'u' || is 0 'U' then foldKey "user-agent" b
    else none
  | 12 => if low 0 'c' then foldKey "content-type" b else none
  | 13 => if low 0 'c' then foldKey "cache-control" b else none
  | 14 =>
    if low 0 'c' then foldKey "content-length" b
    else if low 0 's' then
      if low 10 'd' then foldKey "sec-fetch-dest" b
      else if low 10 'm' then foldKey "sec-fetch-mode" b
      else if low 10 's' then foldKey "sec-fetch-site" b
      else if low 10 'u' then foldKey "sec-fetch-user" b
      else none
    else none
  | 15 =>
    if low 0 'a' then
      if low 7 'e' then foldKey "accept-encoding" b else if low 7 'l' then foldKey "accept-language" b else none
    else none
  | 16 =>
    if low 0 's' then foldKey "sec-ch-ua-mobile" b
    else if low 0 'w' then foldKey "www-authenticate" b
    else none
  | 18 => if low 0 's' then foldKey "sec-ch-ua-platform" b else none
  | 25 => if low 0 'u' then foldKey "upgrade-insecure-requests" b else none
  | _ => none

def storedKey (b : List UInt8) : List UInt8 := (internKey b).getD b

/-! ## Values -/

def internValue (b : List UInt8) : Option (List UInt8) :=
  match b.length with
  | 2 =>
    if b.getD 0 0 == UInt8.ofNat '?'.toNat then
      if b.getD 1 0 == UInt8.ofNat '1'.toNat then some (ascii "?1")
      else if b.getD 1 0 == UInt8.ofNat '0'.toNat then some (ascii "?0")
      else none
    else none
  | 4 => sameKey "none" b
  | 8 => if b = ascii "document" then some (ascii "document") else sameKey "navigate" b
  | 10 => if b = ascii "keep-alive" then some (ascii "keep-alive") else sameKey "cross-site" b
  | 11 => sameKey "same-origin" b
  | 16 => sameKey "application/json" b
  | 23 => sameKey "gzip, deflate, br, zstd" b
  | 33 => sameKey "application/x-www-form-urlencoded" b
  | _ => none

def storedValue (b : List UInt8) : List UInt8 := (internValue b).getD b

theorem storedValue_eq (b : List UInt8) : storedValue b = b := by
  have hsame : ∀ key, (sameKey key b).getD b = b := by
    intro key
    unfold sameKey
    split
    · rename_i h
      exact h.symm
    · rfl
  unfold storedValue internValue
  split
  · rename_i hlen
    obtain ⟨x, y, rfl⟩ := List.length_eq_two.1 hlen
    simp only [List.getD_cons_zero, List.getD_cons_succ, beq_iff_eq]
    repeat' split
    all_goals first
      | rfl
      | (simp_all only; rfl)
  all_goals first
    | exact hsame _
    | rfl
    | split
  all_goals first
    | exact hsame _
    | exact Eq.symm ‹_›

end Mach.Headkit
