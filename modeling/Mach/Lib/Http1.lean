import Mach.Lib.Numeral
import Mathlib.Data.List.TakeWhile
/-!
# Reading HTTP/1.1 responses

The message syntax of RFC 9112 as a client reads it: lines end with CRLF, a
response is a status line, field lines, an empty line and a body whose extent
follows from the request's method, the status and the fields (section 6.3).
Interim responses are skipped. `readResponses` reads the answers to a list of
requests off a connection and returns what is left over.
-/

namespace Mach.Lib.Http1

open Lib.Numeral List Option

variable {name v : List UInt8} {fs : List (List UInt8 × List UInt8)} {fuel : Nat}

/-! ## Lines and fields -/

def isAlpha (c : UInt8) : Bool := decide (65 ≤ c ∧ c ≤ 90) || decide (97 ≤ c ∧ c ≤ 122)

def isTokenChar (c : UInt8) : Bool :=
  isAlpha c || isDigit c || [33, 35, 36, 37, 38, 39, 42, 43, 45, 46, 94, 95, 96, 124, 126].contains c

def isToken (l : List UInt8) : Bool := !l.isEmpty && l.all isTokenChar

/-- A character of a field value or a quoted string. -/
def isTextChar (c : UInt8) : Bool := c == 9 || decide (32 ≤ c) && c != 127

def isSpace (c : UInt8) : Bool := c == 32 || c == 9

def lowerCase (c : UInt8) : UInt8 := if 65 ≤ c ∧ c ≤ 90 then c + 32 else c

def trimSpace (l : List UInt8) : List UInt8 := ((l.dropWhile isSpace).reverse.dropWhile isSpace).reverse

/-- The first line and what follows its CRLF. -/
def cutLine : List UInt8 → Option (List UInt8 × List UInt8)
  | [] => none
  | [_] => none
  | c :: d :: rest =>
    if c = 13 ∧ d = 10 then some ([], rest) else (cutLine (d :: rest)).map fun p => (c :: p.1, p.2)

def fieldName (l : List UInt8) : List UInt8 := l.takeWhile (· != 58)

/-- A field line; the name is a token. -/
def fieldLine (l : List UInt8) : Option (List UInt8 × List UInt8) :=
  match l.dropWhile (· != 58) with
  | [] => none
  | _ :: value => if isToken (fieldName l) then some (fieldName l, trimSpace value) else none

/-- Field lines up to the empty line. -/
def fieldLines : Nat → List UInt8 → Option (List (List UInt8 × List UInt8) × List UInt8)
  | 0, _ => none
  | fuel + 1, b =>
    (cutLine b).bind fun p =>
      if p.1 = [] then some ([], p.2)
      else (fieldLine p.1).bind fun f => (fieldLines fuel p.2).map fun q => (f :: q.1, q.2)

/-- The values of the fields of a name, which is given in lower case. -/
def fieldValues (name : List UInt8) (fs : List (List UInt8 × List UInt8)) : List (List UInt8) :=
  (fs.filter fun f => f.1.map lowerCase == name).map (·.2)

/-! ## The chunked coding -/

/-- A quoted string after its opening quote; what follows it. -/
def quotedString : List UInt8 → Option (List UInt8)
  | [] => none
  | c :: l =>
    if c = 34 then some l
    else if c = 92 then
      match l with
      | [] => none
      | d :: l => if isTextChar d then quotedString l else none
    else if isTextChar c then quotedString l
    else none

/-- The value of a chunk extension; what follows it. -/
def extensionValue (l : List UInt8) : Option (List UInt8) :=
  match l with
  | [] => none
  | c :: rest =>
    if c = 34 then quotedString rest
    else if isToken (l.takeWhile isTokenChar) then some (l.dropWhile isTokenChar)
    else none

/-- One chunk extension after its semicolon; what follows it. -/
def extension (l : List UInt8) : Option (List UInt8) :=
  let l := l.dropWhile isSpace
  if isToken (l.takeWhile isTokenChar) then
    let rest := l.dropWhile isTokenChar
    match rest.dropWhile isSpace with
    | 61 :: value => extensionValue (value.dropWhile isSpace)
    | _ => some rest
  else none

/-- Whether the rest of a chunk line is a list of chunk extensions. -/
def extensions : Nat → List UInt8 → Bool
  | _, [] => true
  | 0, _ => false
  | fuel + 1, l =>
    match l.dropWhile isSpace with
    | 59 :: l => match extension l with
      | some rest => extensions fuel rest
      | none => false
    | _ => false

def chunkSize (l : List UInt8) : Option Nat :=
  if extensions l.length (l.dropWhile isHexDigit) then hexadecimal (l.takeWhile isHexDigit) else none

def isTrailer (l : List UInt8) : Bool :=
  match l.dropWhile (· != 58) with
  | [] => false
  | _ :: value => isToken (fieldName l) && value.all isTextChar

/-- The trailer section; what follows it. -/
def trailers : Nat → List UInt8 → Option (List UInt8)
  | 0, _ => none
  | fuel + 1, b =>
    (cutLine b).bind fun p =>
      if p.1 = [] then some p.2 else if isTrailer p.1 then trailers fuel p.2 else none

/-- A chunked body, decoded, and what follows it. -/
def chunks : Nat → List UInt8 → Option (List UInt8 × List UInt8)
  | 0, _ => none
  | fuel + 1, b =>
    (cutLine b).bind fun p =>
      (chunkSize p.1).bind fun n =>
        if n = 0 then (trailers fuel p.2).map fun rest => ([], rest)
        else if (p.2.drop n).take 2 = [13, 10] then
          (chunks fuel (p.2.drop (n + 2))).map fun q => (p.2.take n ++ q.1, q.2)
        else none

/-! ## Responses -/

inductive Framing where
  | empty
  | tunnel
  | chunked
  | length (n : Nat)
  | untilClose
  deriving DecidableEq, Repr

def statusCode (l : List UInt8) : Option Nat :=
  match l with
  | 72 :: 84 :: 84 :: 80 :: 47 :: 49 :: 46 :: v :: 32 :: a :: b :: c :: 32 :: _ =>
    if [v, a, b, c].all isDigit then some (value 10 [a, b, c]) else none
  | _ => none

/-- The last transfer coding of a field value. -/
def lastCoding (v : List UInt8) : List UInt8 := (trimSpace (v.reverse.takeWhile (· != 44)).reverse).map lowerCase

/-- The words of the protocol that decide the framing. -/
def headMethod : List UInt8 := [72, 69, 65, 68]
def connectMethod : List UInt8 := [67, 79, 78, 78, 69, 67, 84]
def chunkedCoding : List UInt8 := [99, 104, 117, 110, 107, 101, 100]
def transferEncoding : List UInt8 :=
  [116, 114, 97, 110, 115, 102, 101, 114, 45, 101, 110, 99, 111, 100, 105, 110, 103]
def contentLength : List UInt8 := [99, 111, 110, 116, 101, 110, 116, 45, 108, 101, 110, 103, 116, 104]

/-- Responses that end at the empty line whatever their fields say. -/
def bodyless (method : List UInt8) (status : Nat) : Bool := method == headMethod || status == 204 || status == 304

/-- Responses after which the connection is no longer HTTP. -/
def tunnels (method : List UInt8) (status : Nat) : Bool :=
  status == 101 || method == connectMethod && decide (200 ≤ status ∧ status < 300)

/-- The rules of section 6.3, in their order; `none` if the message is invalid. -/
def framing (method : List UInt8) (status : Nat) (fs : List (List UInt8 × List UInt8)) : Option Framing :=
  if tunnels method status then some .tunnel
  else if bodyless method status then some .empty
  else
    match (fieldValues transferEncoding fs).getLast?, fieldValues contentLength fs with
    | some v, _ => some (if lastCoding v = chunkedCoding then .chunked else .untilClose)
    | none, [] => some .untilClose
    | none, v :: vs => if vs.all (· == v) then (decimal v).map .length else none

structure Response where
  status : Nat
  body : List UInt8
  deriving DecidableEq, Repr

/-- The body by its extent, and what follows it. -/
def readBody (b : List UInt8) : Framing → Option (List UInt8 × List UInt8)
  | .empty | .tunnel => some ([], b)
  | .chunked => chunks (b.length + 1) b
  | .length n => if n ≤ b.length then some (b.take n, b.drop n) else none
  | .untilClose => some (b, [])

structure Head where
  status : Nat
  fields : List (List UInt8 × List UInt8)
  rest : List UInt8

/-- The status line and the fields. -/
def readHead (b : List UInt8) : Option Head :=
  (cutLine b).bind fun p =>
    (statusCode p.1).bind fun status =>
      (fieldLines (p.2.length + 1) p.2).map fun q => ⟨status, q.1, q.2⟩

def interim (status : Nat) : Bool := decide (100 ≤ status ∧ status < 200) && status != 101

/-- The final response to a request of a method, and what follows it. -/
def readResponse (method : List UInt8) : Nat → List UInt8 → Option (Response × List UInt8)
  | 0, _ => none
  | fuel + 1, b =>
    (readHead b).bind fun h =>
      if interim h.status then readResponse method fuel h.rest
      else (framing method h.status h.fields).bind fun fr =>
        (readBody h.rest fr).map fun q => (⟨h.status, q.1⟩, q.2)

/-- The responses to requests of the methods, and the bytes left over. -/
def readResponses : List (List UInt8) → List UInt8 → Option (List Response × List UInt8)
  | [], b => some ([], b)
  | m :: ms, b =>
    (readResponse m (b.length + 1) b).bind fun p =>
      if tunnels m p.1.status ∧ ms ≠ [] then none
      else (readResponses ms p.2).map fun q => (p.1 :: q.1, q.2)

/-! ## Reading what was written -/

def line (f : List UInt8 × List UInt8) : List UInt8 := f.1 ++ 58 :: 32 :: f.2

def lines (fs : List (List UInt8 × List UInt8)) : List UInt8 := fs.flatMap fun f => line f ++ [13, 10]

def chunk (p : List UInt8) : List UInt8 := numeral 16 p.length ++ [13, 10] ++ p ++ [13, 10]

theorem cutLine_append {l : List UInt8} (h : 13 ∉ l) (rest : List UInt8) :
    cutLine (l ++ 13 :: 10 :: rest) = some (l, rest) := by
  induction l with
  | nil => simp [cutLine]
  | cons c l ih =>
    obtain ⟨hc, hl⟩ : 13 ≠ c ∧ 13 ∉ l := by simpa using h
    -- the next byte is the rest of the line or the CR that ends it
    obtain ⟨d, t, ht⟩ : ∃ d t, l ++ 13 :: 10 :: rest = d :: t := by cases l <;> simp
    have hcut := ih hl
    rw [ht] at hcut
    rw [cons_append, ht, cutLine, if_neg (fun hcd => hc hcd.1.symm), hcut]
    rfl

theorem fieldName_append (name v : List UInt8) : fieldName (name ++ 58 :: v) = fieldName name := by
  unfold fieldName
  induction name with
  | nil => rfl
  | cons c name ih => by_cases hc : c = 58 <;> simp [hc, ih]

theorem dropWhile_append_colon (name v : List UInt8) : ∃ d t, (name ++ 58 :: v).dropWhile (· != 58) = d :: t := by
  induction name with
  | nil => exact ⟨58, v, rfl⟩
  | cons c name ih => by_cases hc : c = 58 <;> simp [hc, ih]

/-- A written field line is read with the name up to its first colon, or refused. -/
theorem fieldLine_line (f : List UInt8 × List UInt8) :
    ∃ v, fieldLine (line f) = if isToken (fieldName f.1) then some (fieldName f.1, v) else none := by
  obtain ⟨d, t, ht⟩ := dropWhile_append_colon f.1 (32 :: f.2)
  refine ⟨trimSpace t, ?_⟩
  rw [fieldLine, line, ht, fieldName_append]

theorem fieldName_of_token (h : isToken name = true) : fieldName name = name := by
  unfold isToken at h
  rw [fieldName, takeWhile_eq_self_iff]
  intro c hc
  have htok : isTokenChar c = true := all_eq_true.1 (by simpa using (Bool.and_eq_true_iff.1 h).2) c hc
  rw [bne_iff_ne]
  rintro rfl
  exact absurd htok (by decide)

theorem fieldLine_of_token (h : isToken name = true) :
    fieldLine (line (name, v)) = some (name, trimSpace (32 :: v)) := by
  have hname : ∀ c ∈ name, (c != 58) = true := by
    have hself := fieldName_of_token h
    rw [fieldName, takeWhile_eq_self_iff] at hself
    exact hself
  have hdrop : (name ++ 58 :: 32 :: v).dropWhile (· != 58) = 58 :: 32 :: v := by
    rw [dropWhile_append_of_pos hname]
    rfl
  rw [fieldLine, line, hdrop, fieldName_append, fieldName_of_token h]
  exact if_pos h

def readLines (fs : List (List UInt8 × List UInt8)) : Option (List (List UInt8 × List UInt8)) :=
  fs.mapM fun f => fieldLine (line f)

theorem readLines_cons (f : List UInt8 × List UInt8) :
    readLines (f :: fs) = (fieldLine (line f)).bind fun g => (readLines fs).bind fun gs => some (g :: gs) := mapM_cons

/-- The field lines and the empty line are read as the fields, or the first bad name refuses them. -/
theorem fieldLines_lines (h : ∀ f ∈ fs, 13 ∉ f.1 ∧ 13 ∉ f.2) (hfuel : fs.length < fuel) (rest : List UInt8) :
    fieldLines fuel (lines fs ++ 13 :: 10 :: rest) = (readLines fs).map fun gs => (gs, rest) := by
  induction fs generalizing fuel with
  | nil =>
    obtain ⟨n, rfl⟩ := Nat.exists_eq_add_one.2 (Nat.zero_lt_of_lt hfuel)
    simp [lines, fieldLines, cutLine, readLines]
  | cons f fs ih =>
    obtain ⟨n, rfl⟩ := Nat.exists_eq_add_one.2 (Nat.zero_lt_of_lt hfuel)
    have hf := h f (by simp)
    have hno : 13 ∉ line f := by simp [line, hf.1, hf.2]
    have hne : line f ≠ [] := by simp [line]
    have hrest := ih (fun g hg => h g (by simp [hg])) (by simpa using hfuel)
    have hsplit : lines (f :: fs) ++ 13 :: 10 :: rest = line f ++ 13 :: 10 :: (lines fs ++ 13 :: 10 :: rest) := by
      simp [lines]
    rw [hsplit, fieldLines, cutLine_append hno, bind_some, if_neg hne, hrest, readLines_cons]
    cases fieldLine (line f) with
    | none => rfl
    | some g => cases readLines fs <;> rfl

/-- The fields of a message are read if and only if their names are tokens up to the first colon. -/
theorem isSome_readLines (fs : List (List UInt8 × List UInt8)) :
    (readLines fs).isSome ↔ ∀ f ∈ fs, isToken (fieldName f.1) = true := by
  induction fs with
  | nil => simp [readLines]
  | cons f fs ih =>
    obtain ⟨v, hv⟩ := fieldLine_line f
    rw [readLines_cons, hv, forall_mem_cons, ← ih]
    by_cases htok : isToken (fieldName f.1) = true
    · rw [if_pos htok]
      cases readLines fs <;> simp [htok]
    · rw [if_neg htok]
      simp [htok]

theorem fieldValues_append (name : List UInt8) (fs gs : List (List UInt8 × List UInt8)) :
    fieldValues name (fs ++ gs) = fieldValues name fs ++ fieldValues name gs := by
  simp [fieldValues]

theorem fieldValues_eq_nil {gs : List (List UInt8 × List UInt8)}
    (h : ∀ f ∈ fs, (fieldName f.1).map lowerCase ≠ name) (hgs : readLines fs = some gs) :
    fieldValues name gs = [] := by
  induction fs generalizing gs with
  | nil =>
    obtain rfl : [] = gs := by simpa [readLines] using hgs
    rfl
  | cons f fs ih =>
    obtain ⟨v, hv⟩ := fieldLine_line f
    simp only [readLines_cons, bind_eq_some_iff] at hgs
    obtain ⟨g, hg, gs', hgs', heq⟩ := hgs
    obtain rfl : g :: gs' = gs := by simpa using heq
    rw [hv, ite_none_right_eq_some] at hg
    obtain ⟨-, hg⟩ := hg
    obtain rfl : (fieldName f.1, v) = g := by simpa using hg
    have hrest := ih (fun g hg => h g (by simp [hg])) hgs'
    have hne : ((fieldName f.1).map lowerCase == name) = false := by simpa using h f (by simp)
    unfold fieldValues at hrest ⊢
    rw [filter_cons, hne]
    exact hrest

theorem readLines_append (fs gs : List (List UInt8 × List UInt8)) :
    readLines (fs ++ gs) = (readLines fs).bind fun xs => (readLines gs).bind fun ys => some (xs ++ ys) := mapM_append

theorem length_lines (fs : List (List UInt8 × List UInt8)) : fs.length ≤ (lines fs).length := by
  induction fs with
  | nil => simp
  | cons f fs ih =>
    have hcons : lines (f :: fs) = line f ++ [13, 10] ++ lines fs := by simp [lines]
    simp only [hcons, length_append, length_cons, length_nil]
    omega

theorem trimSpace_cons (h : ∀ c ∈ v, isSpace c = false) : trimSpace (32 :: v) = v := by
  have hdrop : ∀ l : List UInt8, (∀ c ∈ l, isSpace c = false) → l.dropWhile isSpace = l := by
    intro l hl
    cases l with
    | nil => rfl
    | cons c l => rw [dropWhile_cons_of_neg (by simp [hl c (by simp)])]
  have hspace : isSpace 32 = true := by decide
  rw [trimSpace, dropWhile_cons_of_pos hspace, hdrop v h, hdrop v.reverse (by simpa using h), reverse_reverse]

theorem readHead_lines {l : List UInt8} {status : Nat} {fs : List (List UInt8 × List UInt8)} (hl : 13 ∉ l)
    (hstatus : statusCode l = some status) (h : ∀ f ∈ fs, 13 ∉ f.1 ∧ 13 ∉ f.2) (rest : List UInt8) :
    readHead (l ++ 13 :: 10 :: (lines fs ++ 13 :: 10 :: rest)) =
      (readLines fs).map fun gs => ⟨status, gs, rest⟩ := by
  have hfuel : fs.length < (lines fs ++ 13 :: 10 :: rest).length + 1 := by
    have hlen := length_lines fs
    simp only [length_append]
    omega
  rw [readHead, cutLine_append hl, bind_some, hstatus, bind_some, fieldLines_lines h hfuel]
  cases readLines fs <;> rfl

theorem extensions_nil (fuel : Nat) : extensions fuel [] = true := by cases fuel <;> rfl

theorem all_isHexDigit_numeral (n : Nat) : ∀ c ∈ numeral 16 n, isHexDigit c = true :=
  all_eq_true.1 (all_numeral (by omega) (fun _ hd => isHexDigit_digit hd) n)

theorem not_mem_numeral (n : Nat) : 13 ∉ numeral 16 n := by
  intro hmem
  exact absurd (all_isHexDigit_numeral n 13 hmem) (by decide)

theorem chunkSize_numeral (n : Nat) : chunkSize (numeral 16 n) = some n := by
  have hall := all_isHexDigit_numeral n
  have htake : (numeral 16 n).takeWhile isHexDigit = numeral 16 n := takeWhile_eq_self_iff.2 hall
  have hdrop : (numeral 16 n).dropWhile isHexDigit = [] := dropWhile_eq_nil_iff.2 hall
  rw [chunkSize, htake, hdrop, extensions_nil, if_pos rfl, hexadecimal_numeral]

theorem chunks_chunk {p : List UInt8} (hp : p ≠ []) (fuel : Nat) (rest : List UInt8) :
    chunks (fuel + 1) (chunk p ++ rest) = (chunks fuel rest).map fun q => (p ++ q.1, q.2) := by
  have hsplit : chunk p ++ rest = numeral 16 p.length ++ 13 :: 10 :: (p ++ 13 :: 10 :: rest) := by simp [chunk]
  have hlen : p.length ≠ 0 := by simpa using hp
  rw [hsplit, chunks, cutLine_append (not_mem_numeral _), bind_some, chunkSize_numeral, bind_some,
    if_neg hlen]
  have hpast : p.drop (p.length + 2) = [] := drop_eq_nil_of_le (by omega)
  simp [drop_append, hpast]

theorem chunks_last (fuel : Nat) (rest : List UInt8) :
    chunks (fuel + 2) (48 :: 13 :: 10 :: 13 :: 10 :: rest) = some ([], rest) := by
  have hcut : cutLine (48 :: 13 :: 10 :: 13 :: 10 :: rest) = some ([48], 13 :: 10 :: rest) :=
    cutLine_append (l := [48]) (by decide) _
  have hsize : chunkSize [48] = some 0 := chunkSize_numeral 0
  rw [chunks, hcut, bind_some, hsize, bind_some, if_pos rfl]
  simp [trailers, cutLine]

/-- A body written in chunks is read as the concatenation of the pieces. -/
theorem chunks_written (ps : List (List UInt8)) (h : ∀ p ∈ ps, p ≠ []) (hfuel : ps.length + 2 ≤ fuel)
    (rest : List UInt8) :
    chunks fuel (ps.flatMap chunk ++ 48 :: 13 :: 10 :: 13 :: 10 :: rest) = some (ps.flatten, rest) := by
  induction ps generalizing fuel with
  | nil =>
    obtain ⟨n, rfl⟩ : ∃ n, fuel = n + 2 := ⟨fuel - 2, by simp at hfuel; omega⟩
    exact chunks_last n rest
  | cons p ps ih =>
    obtain ⟨n, rfl⟩ := Nat.exists_eq_add_one.2 (Nat.zero_lt_of_lt hfuel)
    have hrest := ih (fun q hq => h q (by simp [hq])) (show ps.length + 2 ≤ n by simp at hfuel; omega)
    rw [flatMap_cons, append_assoc, chunks_chunk (h p (by simp)), hrest]
    rfl

theorem length_chunks (ps : List (List UInt8)) : ps.length ≤ (ps.flatMap chunk).length := by
  induction ps with
  | nil => simp
  | cons p ps ih =>
    simp only [flatMap_cons, chunk, length_append, length_cons, length_nil]
    omega

theorem readBody_chunked (ps : List (List UInt8)) (h : ∀ p ∈ ps, p ≠ []) (rest : List UInt8) :
    readBody (ps.flatMap chunk ++ 48 :: 13 :: 10 :: 13 :: 10 :: rest) .chunked = some (ps.flatten, rest) := by
  apply chunks_written ps h
  have hlen := length_chunks ps
  simp only [length_append, length_cons]
  omega

theorem readBody_length (p rest : List UInt8) : readBody (p ++ rest) (.length p.length) = some (p, rest) := by
  simp [readBody]

end Mach.Lib.Http1
