import Mach.Headkit.Headers
import Mathlib.Data.List.DropRight
/-!
# The lines of a header block

The parser looks at eight octets at a time, and at the octets themselves only
where a word may hold a delimiter. It does what a parser does that stops at every
octet, and this one goes line by line: a clean line, one that passes all checks,
adds the entry of its field, and any other line leaves an error behind.
-/

namespace Mach.Headkit
open Lib List Headers

variable {block : List UInt8} {i : Nat}

/-! ## Every octet -/

theorem getD_slice {j n : Nat} (hj : j < n) : (slice block i (i + n)).getD j 0 = block.getD (i + j) 0 := by
  simp [slice, List.getD, getElem?_drop, hj]

theorem leNat_cons (b : UInt8) (l : List UInt8) : leNat (b :: l) = b.toNat + 256 * leNat l := by
  have happ : ∀ l : List UInt8, beNat (l ++ [b]) = beNat l * 256 + b.toNat := by
    intro l
    induction l with
    | nil => simp [beNat]
    | cons c l ih =>
      simp only [cons_append, beNat, ih, length_append, length_singleton, Nat.pow_succ]
      ring
  rw [leNat, reverse_cons, happ, leNat]
  ring

theorem byteAt_leNat (l : List UInt8) (j : Nat) : byteAt (leNat l) j = (l.getD j 0).toNat := by
  induction l generalizing j with
  | nil => simp [leNat, beNat, byteAt]
  | cons b l ih =>
    have hb := b.toNat_lt
    rw [leNat_cons]
    cases j with
    | zero => simp [byteAt]
    | succ j =>
      have hshift : byteAt (b.toNat + 256 * leNat l) (j + 1) = byteAt (leNat l) j := by
        simp only [byteAt, Nat.shiftRight_eq_div_pow]
        rw [show 2 ^ (8 * (j + 1)) = 256 * 2 ^ (8 * j) by rw [Nat.mul_succ, Nat.pow_add]; ring, ← Nat.div_div_eq_div_mul]
        congr 2
        omega
      rw [hshift, ih]
      rfl

theorem delimiter_of_ne {idx : Nat} (hcolon : block.getD idx 0 ≠ 58) (hlf : block.getD idx 0 ≠ 10)
    (s : Scan) : delimiter block idx s = s := by
  simp only [delimiter, hcolon, hlf, false_and, if_false]

theorem delimiterMask_flags {k : Nat} (h : (delimiterMask block i).testBit k = true) : k < 64 ∧ k % 8 = 7 := by
  rw [delimiterMask, Nat.testBit_or, Bool.or_eq_true] at h
  obtain h | h := h
  · exact hasZeroByte_flags h
  · exact hasZeroByte_flags h

theorem delimiter_idle {j : Nat} (hj : j < 8)
    (h : (delimiterMask block i).testBit (8 * j + 7) = false) (s : Scan) : delimiter block (i + j) s = s := by
  rw [delimiterMask, Nat.testBit_or, Bool.or_eq_false_iff] at h
  obtain ⟨hcolon, hlf⟩ := h
  have hbyte : byteAt (leNat (slice block i (i + 8))) j = (block.getD (i + j) 0).toNat := by
    rw [byteAt_leNat, getD_slice hj]
  refine delimiter_of_ne (fun hc => ?_) (fun hc => ?_) s
  · rw [hc] at hbyte
    exact Bool.false_ne_true (hcolon.symm.trans (hasByte_of_byteAt (by decide) hj hbyte))
  · rw [hc] at hbyte
    exact Bool.false_ne_true (hlf.symm.trans (hasByte_of_byteAt (by decide) hj hbyte))

/-- A parser that stops at every octet from `i` up to `i + n`. -/
def scan (block : List UInt8) (i n : Nat) (s : Scan) : Scan := (List.range' i n).foldl (fun s i => delimiter block i s) s

theorem scan_add (block : List UInt8) (i m n : Nat) (s : Scan) :
    scan block i (m + n) s = scan block (i + m) n (scan block i m s) := by
  rw [scan, ← range'_append, foldl_append, Nat.one_mul]
  rfl

theorem scan_one (block : List UInt8) (i : Nat) (s : Scan) : scan block i 1 s = delimiter block i s := rfl

theorem scan_idle {n : Nat} {s : Scan} (h : ∀ j < n, delimiter block (i + j) s = s) : scan block i n s = s := by
  induction n with
  | zero => rfl
  | succ n ih => rw [scan_add, ih fun j hj => h j (by omega), scan_one, h n (by omega)]

theorem scan_eq_range (block : List UInt8) (i n : Nat) (s : Scan) :
    scan block i n s = (List.range n).foldl (fun s j => delimiter block (i + j) s) s := by
  rw [scan, range'_eq_map_range, foldl_map]

theorem swarWord_eq (block : List UInt8) (i : Nat) (s : Scan) :
    ∃ n, 0 < n ∧ n ≤ 8 ∧ swarWord block i s = (scan block i n s, n) := by
  unfold swarWord
  split
  · rename_i hzero
    refine ⟨8, by decide, Nat.le_refl 8, ?_⟩
    rw [scan_idle fun j hj => delimiter_idle hj (by rw [hzero, Nat.zero_testBit]) s]
  · rename_i hne
    obtain ⟨off, hpos, hoff, heq⟩ := eachFlag_eq (fun j s => delimiter block (i + j) s) s
      (fun j hj h s => delimiter_idle hj h s) hne fun i hf => delimiterMask_flags hf
    refine ⟨off, hpos, hoff, ?_⟩
    rw [heq, ← scan_eq_range]
    dsimp only
    rw [if_pos hpos]

theorem swarLoop_eq (block : List UInt8) (fuel i : Nat) (s : Scan) (hi : i ≤ block.length) :
    ∃ n, i + n ≤ block.length ∧ swarLoop block fuel i s = (i + n, scan block i n s) := by
  induction fuel generalizing i s with
  | zero => exact ⟨0, hi, rfl⟩
  | succ fuel ih =>
    rw [swarLoop]
    split
    · rename_i hle
      obtain ⟨m, -, hm, hword⟩ := swarWord_eq block i s
      rw [hword]
      dsimp only
      obtain ⟨n, hn, heq⟩ := ih (i + m) (scan block i m s) (by omega)
      exact ⟨m + n, by omega, by rw [heq, scan_add, Nat.add_assoc]⟩
    · exact ⟨0, hi, rfl⟩

/-- Looking at eight octets at a time misses nothing. -/
theorem parse_eq_scan (h : Headers) (block : List UInt8) :
    h.parseHeaderBlockSWAR block =
      let h := flush block
        (scan block 0 block.length { h := checkFold block 0 { h with buf := block, count := idxReservedCount } })
      if h.panicked then none else some h := by
  unfold parseHeaderBlockSWAR
  dsimp only
  obtain ⟨n, hn, heq⟩ := swarLoop_eq block block.length 0
    { h := checkFold block 0 { h with buf := block, count := idxReservedCount } } (Nat.zero_le _)
  rw [heq]
  dsimp only
  have hlen : block.length = n + (block.length - (0 + n)) := by omega
  conv_rhs => rw [show scan block 0 block.length = scan block 0 (n + (block.length - (0 + n))) from by rw [← hlen]]
  rw [scan_add]
  rfl

/-- The parser without its loop over words: the loop behind that takes every octet. -/
def Headers.parseHeaderBlockScalar (h : Headers) (block : List UInt8) : Option Headers :=
  let h := { h with buf := block, count := idxReservedCount }
  let s := (List.range' 0 block.length).foldl (fun s i => delimiter block i s) { h := checkFold block 0 h }
  let h := flush block s
  if h.panicked then none else some h

/-- The two parsers do the same, whatever is in the block and in the header before. A word at any place is worth the
octets up to its last flag, so a delimiter is found where it stands. -/
theorem swar_eq_scalar (h : Headers) (block : List UInt8) :
    h.parseHeaderBlockSWAR block = h.parseHeaderBlockScalar block ∧ ∀ i s, ∃ n, 0 < n ∧ n ≤ 8 ∧
      swarWord block i s = ((List.range' i n).foldl (fun s i => delimiter block i s) s, n) :=
  ⟨parse_eq_scan h block, swarWord_eq block⟩

/-! ## Line by line -/

def stripCR (l : List UInt8) : List UInt8 := if l.getLast? = some 13 then l.dropLast else l

def colonAt (l : List UInt8) : Nat := (l.takeWhile (· != 58)).length

/-- The octets of a line, up to its end. -/
def overLine (block : List UInt8) (p : Nat) (l : List UInt8) (s : Scan) : Scan :=
  if 58 ∈ l then atColon block (p + colonAt l) s else s

/-- The lines that are left, the first of them at `p`. -/
def scanLines (block : List UInt8) : Nat → List (List UInt8) → Headers → Headers
  | _, [], h => h
  | p, [l], h => flush block (overLine block p l { h := checkFold block p h, keyStart := p })
  | p, l :: ls, h =>
    scanLines block (p + l.length + 1) ls
      (closeLine block (p + l.length) (overLine block p l { h := checkFold block p h, keyStart := p }))

section Position

variable {pre l post : List UInt8} (hb : block = pre ++ l ++ post)
include hb

theorem getD_line (hi : i < l.length) : block.getD (pre.length + i) 0 = l.getD i 0 := by
  subst hb
  simp [List.getD, getElem?_append, hi]

theorem scan_noColon (hlf : 10 ∉ l) {s : Scan} (h : 58 ∉ l ∨ s.colon.isSome = true) :
    scan block pre.length l.length s = s := by
  refine scan_idle fun j hj => ?_
  have hget := getD_line hb hj
  have hmem : l.getD j 0 ∈ l := by
    rw [getD_eq_getElem _ _ hj]
    exact getElem_mem hj
  have hne : block.getD (pre.length + j) 0 ≠ 10 := fun he => hlf (by rwa [← he, hget])
  obtain h | h := h
  · exact delimiter_of_ne (fun he => h (by rwa [← he, hget])) hne s
  · have hsome : s.colon.isNone = false := by
      rw [← Option.not_isSome, h]
      rfl
    simp only [delimiter, hne, hsome, Bool.false_eq_true, and_false, if_false]

end Position

theorem colonAt_split {a : List UInt8} (ha : 58 ∉ a) (b : List UInt8) : colonAt (a ++ 58 :: b) = a.length := by
  rw [colonAt, takeWhile_append_of_pos]
  · simp
  · intro c hc
    simpa using fun he : c = 58 => ha (he ▸ hc)

theorem scan_overLine {pre l post : List UInt8} (hb : block = pre ++ l ++ post) (hlf : 10 ∉ l) {s : Scan}
    (hs : s.colon = none) : scan block pre.length l.length s = overLine block pre.length l s := by
  unfold overLine
  split
  · rename_i hmem
    obtain ⟨a, b, rfl, ha⟩ := eq_append_cons_of_mem hmem
    simp only [mem_append, mem_cons, not_or] at hlf
    have h1 : block = pre ++ a ++ (58 :: b ++ post) := by simp [hb]
    have h2 : block = (pre ++ a) ++ [58] ++ (b ++ post) := by simp [hb]
    have h3 : block = (pre ++ a ++ [58]) ++ b ++ post := by simp [hb]
    have hat : block.getD (pre.length + a.length) 0 = 58 := by
      have := getD_line h2 (i := 0) (by simp)
      simpa using this
    rw [colonAt_split ha, show (a ++ 58 :: b).length = a.length + 1 + b.length by simp; omega, scan_add, scan_add,
      scan_noColon h1 hlf.1 (.inl ha), scan_one]
    have hstep : delimiter block (pre.length + a.length) s = atColon block (pre.length + a.length) s := by
      simp only [delimiter, hat, hs, Option.isNone_none, true_and, if_true]
    rw [hstep]
    have := scan_noColon h3 hlf.2.2 (s := atColon block (pre.length + a.length) s) (.inr rfl)
    simpa [Nat.add_assoc] using this
  · rename_i hmem
    exact scan_noColon hb hlf (.inl hmem)

theorem scan_lines (block : List UInt8) (ls : List (List UInt8)) (hne : ls ≠ []) (hlf : ∀ l ∈ ls, 10 ∉ l)
    (pre : List UInt8) (hb : block = pre ++ [10].intercalate ls) (h : Headers) :
    flush block (scan block pre.length (block.length - pre.length)
      { h := checkFold block pre.length h, keyStart := pre.length }) = scanLines block pre.length ls h := by
  induction ls generalizing pre h with
  | nil => exact absurd rfl hne
  | cons l ls ih =>
    cases ls with
    | nil =>
      have hb' : block = pre ++ l ++ [] := by simpa [List.intercalate] using hb
      have hlen : block.length - pre.length = l.length := by
        rw [hb']
        simp
      rw [hlen, scan_overLine hb' (hlf l mem_cons_self) rfl]
      rfl
    | cons l' ls =>
      have hcat : [10].intercalate (l :: l' :: ls) = l ++ 10 :: [10].intercalate (l' :: ls) := by
        simp [List.intercalate]
      have hb' : block = pre ++ l ++ (10 :: [10].intercalate (l' :: ls)) := by
        rw [hb, hcat, append_assoc]
      have hb'' : block = (pre ++ l ++ [10]) ++ [10].intercalate (l' :: ls) := by
        rw [hb']
        simp
      have hat : block.getD (pre.length + l.length) 0 = 10 := by
        have := getD_line (show block = (pre ++ l) ++ [10] ++ [10].intercalate (l' :: ls) from hb'') (i := 0) (by simp)
        simpa using this
      have hlen : block.length - pre.length = l.length + 1 + (block.length - (pre ++ l ++ [10]).length) := by
        rw [hb']
        simp
        omega
      have hstep : ∀ s : Scan, delimiter block (pre.length + l.length) s =
          { h := checkFold block (pre.length + l.length + 1) (closeLine block (pre.length + l.length) s),
            keyStart := pre.length + l.length + 1 } := by
        intro s
        simp only [delimiter, hat, if_true, show ((10 : UInt8) = 58) = False from by decide, false_and, if_false]
      rw [hlen, scan_add, scan_add, scan_overLine hb' (hlf l mem_cons_self) rfl, scan_one, hstep, scanLines]
      · have := ih (by simp) (fun x hx => hlf x (mem_cons_of_mem _ hx)) (pre ++ l ++ [10]) hb''
          (closeLine block (pre.length + l.length)
            (overLine block pre.length l { h := checkFold block pre.length h, keyStart := pre.length }))
        simpa [Nat.add_assoc] using this
      · simp

theorem not_mem_of_mem_splitOn {a : UInt8} {b l : List UInt8} (h : l ∈ b.splitOn a) : a ∉ l := by
  induction b generalizing l with
  | nil =>
    rw [List.splitOn, splitOnP_nil, mem_singleton] at h
    simp [h]
  | cons c b ih =>
    rw [List.splitOn, splitOnP_cons_eq_if_modifyHead] at h
    split at h
    · obtain rfl | h := mem_cons.1 h
      · simp
      · exact ih h
    · rename_i hc
      cases hs : b.splitOnP (· == a) with
      | nil => simp [hs] at h
      | cons x xs =>
        rw [hs, modifyHead_cons] at h
        have hx : a ∉ x := ih (by rw [List.splitOn, hs]; exact mem_cons_self)
        obtain rfl | h := mem_cons.1 h
        · simp only [mem_cons, not_or]
          exact ⟨fun he => hc (by simp [he]), hx⟩
        · exact ih (by rw [List.splitOn, hs]; exact mem_cons_of_mem _ h)

theorem parse_eq_lines (h : Headers) (block : List UInt8) :
    h.parseHeaderBlockSWAR block =
      let h := scanLines block 0 (block.splitOn 10) { h with buf := block, count := idxReservedCount }
      if h.panicked then none else some h := by
  rw [parse_eq_scan]
  have := scan_lines block (block.splitOn 10) (splitOn_ne_nil 10 block) ?_ [] ?_
    { h with buf := block, count := idxReservedCount }
  · simp only [length_nil, Nat.sub_zero] at this
    rw [this]
  · exact fun l hl => not_mem_of_mem_splitOn hl
  · simp [intercalate_splitOn]

/-! ## Clean lines -/

def trim (v : List UInt8) : List UInt8 := (v.dropWhile isBlank).rdropWhile isBlank

def rawValue (c : List UInt8) : List UInt8 := c.drop (colonAt c + 1)

def fieldOf (l : List UInt8) : Option Field :=
  if 58 ∈ stripCR l then some ((stripCR l).take (colonAt (stripCR l)), trim (rawValue (stripCR l))) else none

def fieldLines (block : List UInt8) : List Field := (block.splitOn 10).filterMap fieldOf

/-- A line that passes all checks, without its CR: empty, or with a colon behind a name that neither begins nor ends
with a blank. -/
structure CleanField (c : List UInt8) : Prop where
  colon : 58 ∈ c
  name : colonAt c ≠ 0
  first : isBlank (c.getD 0 0) = false
  last : isBlank (c.getD (colonAt c - 1) 0) = false
  noNul : 0 ∉ c
  noCR : 13 ∉ c

def Clean (l : List UInt8) : Prop := stripCR l = [] ∨ CleanField (stripCR l)

/-- Where a name and a value stand in the block. -/
structure Place where
  keyStart : Nat
  keyLen : Nat
  valStart : Nat
  valLen : Nat
  deriving DecidableEq, Repr

/-- The place of the field of a line that begins at `p`. -/
def placeOf (p : Nat) (l : List UInt8) : Option Place :=
  if 58 ∈ stripCR l then
    let k := colonAt (stripCR l)
    let v := rawValue (stripCR l)
    some ⟨p, k, p + k + 1 + (v.takeWhile isBlank).length, (trim v).length⟩
  else none

def placesFrom : Nat → List (List UInt8) → List Place
  | _, [] => []
  | p, l :: ls => (placeOf p l).toList ++ placesFrom (p + l.length + 1) ls

def places (block : List UInt8) : List Place := placesFrom 0 (block.splitOn 10)

namespace Headers

def Ok (h : Headers) : Prop := h.err = none ∧ h.panicked = false

def addPlace (h : Headers) (q : Place) : Headers :=
  h.addTrimmed q.keyStart (q.keyStart + q.keyLen) q.valStart (q.valStart + q.valLen)

section Ok

variable {h : Headers} {e : HeaderError} {keyStart keyEnd valStart valEnd : Nat}

theorem not_ok_fail (h : Headers) (e : HeaderError) : ¬ (h.fail e).Ok := by
  rintro ⟨he, -⟩
  unfold fail at he
  split at he
  · cases he
  rename_i hn
  rw [he] at hn
  exact hn rfl

@[simp] theorem buf_fail : (h.fail e).buf = h.buf := by
  unfold fail
  split <;> rfl

theorem checkLine_clean {l : List UInt8} (h0 : 0 ∉ l) (h13 : 13 ∉ l) : h.checkLine l = h := by
  induction l with
  | nil => rfl
  | cons c l ih =>
    simp only [mem_cons, not_or] at h0 h13
    have hc0 : c ≠ 0 := fun he => h0.1 he.symm
    have hc13 : c ≠ 13 := fun he => h13.1 he.symm
    rw [checkLine, foldl_cons, if_neg hc0, if_neg hc13]
    exact ih h0.2 h13.2

theorem Ok.of_checkLine {l : List UInt8} (hok : (h.checkLine l).Ok) : h.Ok ∧ 0 ∉ l ∧ 13 ∉ l := by
  induction l generalizing h with
  | nil => exact ⟨hok, by simp, by simp⟩
  | cons c l ih =>
    rw [checkLine, foldl_cons] at hok
    obtain ⟨hstep, h0, h13⟩ := ih hok
    split at hstep
    · exact absurd hstep (not_ok_fail _ _)
    split at hstep
    · exact absurd hstep (not_ok_fail _ _)
    rename_i hc0 hc13
    refine ⟨hstep, ?_, ?_⟩
    · simp only [mem_cons, not_or]
      exact ⟨fun he => hc0 he.symm, h0⟩
    · simp only [mem_cons, not_or]
      exact ⟨fun he => hc13 he.symm, h13⟩

theorem ok_addOther {key val : List UInt8} {p : Nat} : (h.addOther key val p).Ok ↔ h.Ok := by
  unfold addOther
  split <;> rfl

theorem Ok.of_addTrimmed (hok : (h.addTrimmed keyStart keyEnd valStart valEnd).Ok) : h.Ok := by
  unfold addTrimmed at hok
  dsimp only at hok
  repeat' split at hok
  all_goals first
    | exact ok_addOther.1 hok
    | exact hok
    | exact absurd hok (not_ok_fail _ _)
    | exact absurd hok.2 (by simp)

theorem buf_addTrimmed (keyStart keyEnd valStart valEnd : Nat) :
    (h.addTrimmed keyStart keyEnd valStart valEnd).buf = h.buf := by
  unfold addTrimmed
  dsimp only
  unfold addOther
  repeat' split
  all_goals first
    | rfl
    | exact buf_fail

theorem Ok.of_addPacked (hok : (h.addPacked keyStart keyEnd valStart valEnd).Ok) : h.Ok := by
  unfold addPacked at hok
  dsimp only at hok
  split at hok
  · split at hok
    · exact absurd hok (not_ok_fail _ _)
    · exact hok
  · exact hok.of_addTrimmed

end Ok

end Headers

/-! ## What a line does -/

theorem stripCR_append (l : List UInt8) : ∃ cr, l = stripCR l ++ cr ∧ (cr = [] ∨ cr = [13]) := by
  unfold stripCR
  split
  · rename_i h
    refine ⟨[13], ?_, .inr rfl⟩
    obtain ⟨l', rfl⟩ := getLast?_eq_some_iff.1 h
    simp
  · exact ⟨[], by simp, .inl rfl⟩

theorem colonAt_append {c r : List UInt8} (h : 58 ∈ c) : colonAt (c ++ r) = colonAt c := by
  obtain ⟨a, b, rfl, ha⟩ := eq_append_cons_of_mem h
  rw [append_assoc, cons_append, colonAt_split ha, colonAt_split ha]

theorem colonAt_lt {c : List UInt8} (h : 58 ∈ c) : colonAt c < c.length := by
  obtain ⟨a, b, rfl, ha⟩ := eq_append_cons_of_mem h
  rw [colonAt_split ha]
  simp

theorem slice_append (pre c rest : List UInt8) : slice (pre ++ c ++ rest) pre.length (pre.length + c.length) = c := by
  simp [slice]

theorem drop_append_add (pre x : List UInt8) (i : Nat) : (pre ++ x).drop (pre.length + i) = x.drop i := by
  rw [← drop_drop, drop_left]

theorem slice_part (pre c rest : List UInt8) {j : Nat} (hij : i ≤ j) (hj : j ≤ c.length) :
    slice (pre ++ c ++ rest) (pre.length + i) (pre.length + j) = (c.drop i).take (j - i) := by
  rw [slice, append_assoc, drop_append_add, drop_append_of_le_length (by omega),
    take_append_of_le_length (by simp; omega)]
  congr 1
  omega

theorem takeWhile_append_stop {p : UInt8 → Bool} {v rest : List UInt8} (h : ∀ x ∈ rest.head?, p x = false) :
    (v ++ rest).takeWhile p = v.takeWhile p := by
  induction v with
  | nil =>
    cases rest with
    | nil => rfl
    | cons x rest => simp [h x rfl]
  | cons c v ih =>
    rw [cons_append, takeWhile_cons, takeWhile_cons, ih]

theorem length_trim (v : List UInt8) :
    (trim v).length = (v.dropWhile isBlank).length - ((v.dropWhile isBlank).reverse.takeWhile isBlank).length := by
  have h := congrArg List.length (takeWhile_append_dropWhile (p := isBlank) (l := (v.dropWhile isBlank).reverse))
  rw [trim, List.rdropWhile, length_reverse]
  simp only [length_append, length_reverse] at h
  omega

theorem length_trim_le (v : List UInt8) : (trim v).length ≤ (v.dropWhile isBlank).length :=
  (List.rdropWhile_prefix (p := isBlank) (v.dropWhile isBlank)).length_le

def valueAt (c : List UInt8) : Nat := colonAt c + 1 + ((rawValue c).takeWhile isBlank).length

theorem drop_valueAt (c : List UInt8) : c.drop (valueAt c) = (rawValue c).dropWhile isBlank := by
  rw [valueAt, ← drop_drop]
  change (rawValue c).drop _ = _
  have hsplit := takeWhile_append_dropWhile (p := isBlank) (l := rawValue c)
  generalize (rawValue c).takeWhile isBlank = a at hsplit ⊢
  generalize (rawValue c).dropWhile isBlank = d at hsplit ⊢
  rw [← hsplit, drop_left]

theorem valueAt_add {c : List UInt8} (hc : 58 ∈ c) : valueAt c + ((rawValue c).dropWhile isBlank).length = c.length := by
  have hlt := colonAt_lt hc
  have hlen : (rawValue c).length = c.length - (colonAt c + 1) := by simp [rawValue]
  have hsplit := congrArg List.length (takeWhile_append_dropWhile (p := isBlank) (l := rawValue c))
  rw [length_append] at hsplit
  unfold valueAt
  omega

theorem placeOf_eq {p : Nat} {l : List UInt8} (h : 58 ∈ stripCR l) : placeOf p l =
    some ⟨p, colonAt (stripCR l), p + valueAt (stripCR l), (trim (rawValue (stripCR l))).length⟩ := by
  simp only [placeOf, if_pos h, valueAt, Nat.add_assoc]

section Line

variable {pre c rest : List UInt8} (hb : block = pre ++ c ++ rest) (hrest : ∀ x ∈ rest.head?, isBlank x = false)
include hb

theorem trimStart_name (hc : CleanField c) : trimStart block pre.length (pre.length + colonAt c) = pre.length := by
  have hlt := colonAt_lt hc.colon
  obtain ⟨x, c', rfl⟩ : ∃ x c', c = x :: c' := exists_cons_of_length_pos (by omega)
  have hx : isBlank x = false := hc.first
  have hsl := slice_part pre (x :: c') rest (Nat.zero_le (colonAt (x :: c'))) hlt.le
  simp only [Nat.add_zero, drop_zero, Nat.sub_zero] at hsl
  obtain ⟨k, hk⟩ := Nat.exists_eq_succ_of_ne_zero hc.name
  rw [trimStart, hb, hsl, hk, take_succ_cons, takeWhile_cons, hx]
  rfl

theorem trimEnd_name (hc : CleanField c) :
    trimEnd block pre.length (pre.length + colonAt c) = pre.length + colonAt c := by
  have hlt := colonAt_lt hc.colon
  have hsl := slice_part pre c rest (Nat.zero_le (colonAt c)) hlt.le
  simp only [Nat.add_zero, drop_zero, Nat.sub_zero] at hsl
  obtain ⟨k, hk⟩ := Nat.exists_eq_succ_of_ne_zero hc.name
  have hlast := hc.last
  rw [hk, Nat.succ_sub_one, getD_eq_getElem _ _ (by omega)] at hlast
  rw [trimEnd, hb, hsl, hk, take_add_one, getElem?_eq_getElem (by omega), reverse_append]
  simp [hlast]

include hrest in
theorem trimStart_value (hc : 58 ∈ c) :
    trimStart block (pre.length + colonAt c + 1) block.length = pre.length + valueAt c := by
  have hlt := colonAt_lt hc
  have hsl : slice block (pre.length + colonAt c + 1) block.length = rawValue c ++ rest := by
    rw [slice, take_of_length_le (by simp), hb, append_assoc, Nat.add_assoc, drop_append_add,
      drop_append_of_le_length (by omega)]
    rfl
  rw [trimStart, hsl, takeWhile_append_stop hrest, valueAt]
  omega

theorem slice_value (hc : 58 ∈ c) :
    slice block (pre.length + valueAt c) (pre.length + c.length) = (rawValue c).dropWhile isBlank := by
  have hadd := valueAt_add hc
  rw [hb, slice_part pre c rest (by omega) (Nat.le_refl _), drop_valueAt, take_of_length_le (by omega)]

include hrest in
theorem addPacked_clean (hc : CleanField c) {h : Headers} (hbuf : h.buf = block) :
    h.addPacked pre.length (pre.length + colonAt c) (trimStart block (pre.length + colonAt c + 1) block.length)
        (pre.length + c.length) =
      h.addPlace ⟨pre.length, colonAt c, pre.length + valueAt c, (trim (rawValue c)).length⟩ := by
  have hname := hc.name
  have hadd := valueAt_add hc.colon
  have hsl := slice_value hb hc.colon
  have hvs : trimStart block (pre.length + valueAt c) (pre.length + c.length) = pre.length + valueAt c := by
    rw [trimStart, hsl]
    have : ((rawValue c).dropWhile isBlank).takeWhile isBlank = [] := by
      cases hd : (rawValue c).dropWhile isBlank with
      | nil => rfl
      | cons x t =>
        have hx : isBlank x = false := by
          have := head?_dropWhile_not isBlank (rawValue c)
          rw [hd] at this
          simpa using this
        rw [takeWhile_cons, hx]
        rfl
    rw [this]
    rfl
  have hve : trimEnd block (pre.length + valueAt c) (pre.length + c.length) =
      pre.length + valueAt c + (trim (rawValue c)).length := by
    have hrev := (List.takeWhile_prefix (p := isBlank) (l := ((rawValue c).dropWhile isBlank).reverse)).length_le
    rw [length_reverse] at hrev
    rw [trimEnd, hsl, length_trim]
    omega
  rw [addPacked, hbuf]
  simp only [trimStart_name hb hc, trimEnd_name hb hc, trimStart_value hb hrest hc.colon, hvs, hve]
  rw [if_neg (by omega)]
  rfl

include hrest in
theorem checkFold_line (h : Headers) :
    checkFold block pre.length h = if isBlank (c.getD 0 0) then h.fail .errObsFold else h := by
  unfold checkFold
  cases c with
  | nil =>
    cases rest with
    | nil => simp [hb, isBlank]
    | cons x rest => simp [hb, hrest x rfl, show isBlank 0 = false from rfl]
  | cons x c => simp [hb]

end Line

theorem ok_of_checkFold {p : Nat} {h : Headers} (hok : (checkFold block p h).Ok) : h.Ok := by
  unfold checkFold at hok
  split at hok
  · exact absurd hok (not_ok_fail _ _)
  · exact hok

/-- A line of the block, with what stands before and behind it. -/
structure LineAt (block pre l post : List UInt8) : Prop where
  eq : block = pre ++ l ++ post
  start : pre = [] ∨ pre.getLast? = some 10
  stop : ∀ x ∈ post.head?, x = 10

/-- The state of the parser behind a line. -/
def lineScan (block : List UInt8) (p : Nat) (l : List UInt8) (h : Headers) : Scan :=
  overLine block p l { h := checkFold block p h, keyStart := p }

def addLine (p : Nat) (l : List UInt8) (h : Headers) : Headers := (placeOf p l).toList.foldl Headers.addPlace h

section LineAt

variable {pre l post : List UInt8} (hl : LineAt block pre l post)
include hl

theorem LineAt.strip : ∃ rest, block = pre ++ stripCR l ++ rest ∧ (∀ x ∈ rest.head?, isBlank x = false) ∧
    (58 ∈ l ↔ 58 ∈ stripCR l) ∧ (58 ∈ stripCR l → colonAt l = colonAt (stripCR l)) := by
  obtain ⟨cr, hcr, h⟩ := stripCR_append l
  refine ⟨cr ++ post, ?_, fun x hx => ?_, ?_, fun hmem => ?_⟩
  · rw [hl.eq]
    conv_lhs => rw [hcr]
    simp
  · obtain rfl | rfl := h
    · rw [hl.stop x hx]
      rfl
    · simp only [singleton_append, head?_cons, Option.mem_def, Option.some.injEq] at hx
      subst hx
      rfl
  · conv_lhs => rw [hcr]
    obtain rfl | rfl := h <;> simp
  · conv_lhs => rw [hcr]
    exact colonAt_append hmem

theorem LineAt.lineEnd : lineEnd block (pre.length + l.length) = pre.length + (stripCR l).length := by
  obtain rfl | ⟨c, l', hl'⟩ : l = [] ∨ ∃ c l', l = l' ++ [c] := by
    obtain h | ⟨l', c, h⟩ := l.eq_nil_or_concat
    · exact .inl h
    · exact .inr ⟨c, l', by simpa using h⟩
  · have hno : ¬ (0 < pre.length + 0 ∧ block.getD (pre.length + 0 - 1) 0 = 13) := by
      rintro ⟨hpos, hat⟩
      obtain rfl | hlast := hl.start
      · simp at hpos
      obtain ⟨pre', rfl⟩ := getLast?_eq_some_iff.1 hlast
      rw [hl.eq] at hat
      simp at hat
    rw [Headkit.lineEnd, length_nil, if_neg hno]
    rfl
  · subst hl'
    have hat : block.getD (pre.length + (l' ++ [c]).length - 1) 0 = c := by
      rw [hl.eq]
      simp [List.getD]
    rw [Headkit.lineEnd, hat, stripCR, getLast?_concat]
    by_cases hc : c = 13
    · rw [if_pos ⟨by simp, hc⟩, if_pos (by rw [hc])]
      simp
    · rw [if_neg (fun h => hc h.2), if_neg (by simpa using hc)]

theorem LineAt.atColon (hmem : 58 ∈ stripCR l) (h : Headers) :
    lineScan block pre.length l h =
      Headkit.atColon block (pre.length + colonAt (stripCR l)) { h := checkFold block pre.length h, keyStart := pre.length } := by
  obtain ⟨rest, -, -, hiff, hcol⟩ := hl.strip
  rw [lineScan, overLine, if_pos (hiff.2 hmem), hcol hmem]

theorem LineAt.noColon (hmem : 58 ∉ stripCR l) (h : Headers) :
    lineScan block pre.length l h = { h := checkFold block pre.length h, keyStart := pre.length } := by
  obtain ⟨rest, -, -, hiff, -⟩ := hl.strip
  rw [lineScan, overLine, if_neg fun h => hmem (hiff.1 h)]

theorem LineAt.before_colon (hmem : 58 ∈ stripCR l) (hname : colonAt (stripCR l) ≠ 0) :
    block.getD (pre.length + colonAt (stripCR l) - 1) 0 = (stripCR l).getD (colonAt (stripCR l) - 1) 0 := by
  obtain ⟨rest, hb, -⟩ := hl.strip
  have hlt := colonAt_lt hmem
  rw [← getD_line hb (by omega)]
  congr 1
  omega

theorem LineAt.slice : slice block pre.length (pre.length + (stripCR l).length) = stripCR l := by
  obtain ⟨rest, hb, -⟩ := hl.strip
  conv_lhs => rw [hb]
  exact slice_append _ _ _

theorem LineAt.closeLine_colon (hmem : 58 ∈ stripCR l) (h : Headers) :
    closeLine block (pre.length + l.length) (lineScan block pre.length l h) =
      ((lineScan block pre.length l h).h.addPacked pre.length (pre.length + colonAt (stripCR l))
        (trimStart block (pre.length + colonAt (stripCR l) + 1) block.length)
        (pre.length + (stripCR l).length)).checkLine (stripCR l) := by
  rw [closeLine, hl.lineEnd, hl.atColon hmem]
  simp only [Headkit.atColon, hl.slice]

theorem LineAt.closeLine_noColon (hmem : 58 ∉ stripCR l) (h : Headers) :
    closeLine block (pre.length + l.length) (lineScan block pre.length l h) =
      (if stripCR l = [] then checkFold block pre.length h else
        (checkFold block pre.length h).fail .errMalformedHeader).checkLine (stripCR l) := by
  rw [closeLine, hl.lineEnd, hl.noColon hmem]
  have hlt : pre.length < pre.length + (stripCR l).length ↔ ¬ stripCR l = [] := by
    rw [← length_eq_zero_iff]
    omega
  simp only [hlt, ite_not, hl.slice]

theorem LineAt.closeLine_clean (hc : Clean l) {h : Headers} (hbuf : h.buf = block) :
    closeLine block (pre.length + l.length) (lineScan block pre.length l h) = addLine pre.length l h := by
  obtain ⟨rest, hb, hrest, -⟩ := hl.strip
  obtain hnil | hc := hc
  · have hmem : 58 ∉ stripCR l := by simp [hnil]
    rw [hl.closeLine_noColon hmem, if_pos hnil, checkFold_line hb hrest, hnil]
    simp [addLine, placeOf, hnil, isBlank, checkLine]
  · rw [hl.closeLine_colon hc.colon, hl.atColon hc.colon, checkFold_line hb hrest, hc.first]
    simp only [Headkit.atColon, Bool.false_eq_true, if_false, hl.before_colon hc.colon hc.name, hc.last, and_false,
      Nat.add_eq_left, hc.name]
    rw [addPacked_clean hb hrest hc hbuf, checkLine_clean hc.noNul hc.noCR, addLine, placeOf_eq hc.colon]
    rfl

theorem LineAt.clean_of_ok {h : Headers}
    (hok : (closeLine block (pre.length + l.length) (lineScan block pre.length l h)).Ok) : h.Ok ∧ Clean l := by
  obtain ⟨rest, hb, hrest, -⟩ := hl.strip
  by_cases hmem : 58 ∈ stripCR l
  · rw [hl.closeLine_colon hmem] at hok
    obtain ⟨hok, h0, h13⟩ := hok.of_checkLine
    have hok := hok.of_addPacked
    rw [hl.atColon hmem] at hok
    simp only [Headkit.atColon] at hok
    split at hok
    · exact absurd hok (not_ok_fail _ _)
    rename_i hlast
    split at hok
    · exact absurd hok (not_ok_fail _ _)
    rename_i hname
    have hname : colonAt (stripCR l) ≠ 0 := by
      simpa using hname
    have hfold := hok
    rw [checkFold_line hb hrest] at hfold
    split at hfold
    · exact absurd hfold (not_ok_fail _ _)
    rename_i hfirst
    refine ⟨hfold, .inr ⟨hmem, hname, eq_false_of_ne_true hfirst, ?_, h0, h13⟩⟩
    rw [hl.before_colon hmem hname] at hlast
    exact eq_false_of_ne_true fun hbl => hlast ⟨by omega, hbl⟩
  · rw [hl.closeLine_noColon hmem] at hok
    obtain ⟨hok, -, -⟩ := hok.of_checkLine
    split at hok
    · rename_i hnil
      exact ⟨ok_of_checkFold hok, .inl hnil⟩
    · exact absurd hok (not_ok_fail _ _)

end LineAt

/-- At the end of the block the last line is closed, if it has a colon or is empty. -/
theorem LineAt.flush {pre l : List UInt8} (hl : LineAt block pre l []) {h : Headers} :
    (58 ∈ stripCR l ∨ stripCR l = [] →
      Headkit.flush block (lineScan block pre.length l h) =
        closeLine block (pre.length + l.length) (lineScan block pre.length l h)) ∧
      (58 ∉ stripCR l → stripCR l ≠ [] → ¬ (Headkit.flush block (lineScan block pre.length l h)).Ok) := by
  have hlen : block.length = pre.length + l.length := by rw [hl.eq]; simp
  have hcl : ∀ h', 58 ∈ stripCR l → Headkit.flush block (lineScan block pre.length l h') =
      closeLine block (pre.length + l.length) (lineScan block pre.length l h') := by
    intro h' hmem
    rw [Headkit.flush, if_pos (by rw [hl.atColon hmem]; rfl), hlen]
  constructor
  · rintro (hmem | hnil)
    · exact hcl h hmem
    · have hmem : 58 ∉ stripCR l := by simp [hnil]
      rw [hl.closeLine_noColon hmem, if_pos hnil, hnil, hl.noColon hmem, Headkit.flush]
      simp only [Option.isSome_none, Bool.false_eq_true, if_false]
      rw [hlen, hl.lineEnd, hnil, if_neg (by simp)]
      rfl
  · intro hmem hne
    rw [hl.noColon hmem, Headkit.flush]
    have hpos : 0 < (stripCR l).length := length_pos_iff.2 hne
    have hle : (stripCR l).length ≤ l.length := by
      obtain ⟨cr, hcr, -⟩ := stripCR_append l
      have := congrArg List.length hcr
      rw [length_append] at this
      omega
    simp only [Option.isSome_none, Bool.false_eq_true, if_false]
    rw [hlen, hl.lineEnd, if_pos (by omega)]
    exact not_ok_fail _ _

@[simp] theorem buf_addLine (p : Nat) (l : List UInt8) (h : Headers) : (addLine p l h).buf = h.buf := by
  unfold addLine placeOf
  split
  · exact buf_addTrimmed _ _ _ _
  · rfl

section Lines

variable {pre l l' : List UInt8} {ls : List (List UInt8)}

theorem LineAt.last (hpre : pre = [] ∨ pre.getLast? = some 10) (hb : block = pre ++ [10].intercalate [l]) :
    LineAt block pre l [] :=
  ⟨by simpa [List.intercalate] using hb, hpre, by simp⟩

theorem LineAt.cons (hpre : pre = [] ∨ pre.getLast? = some 10) (hb : block = pre ++ [10].intercalate (l :: l' :: ls)) :
    LineAt block pre l (10 :: [10].intercalate (l' :: ls)) := by
  refine ⟨?_, hpre, by simp⟩
  rw [hb, show [10].intercalate (l :: l' :: ls) = l ++ 10 :: [10].intercalate (l' :: ls) by simp [List.intercalate],
    append_assoc]

theorem scanLines_cons (h : Headers) : scanLines block pre.length (l :: l' :: ls) h =
    scanLines block (pre ++ l ++ [10]).length (l' :: ls)
      (closeLine block (pre.length + l.length) (lineScan block pre.length l h)) := by
  rw [scanLines]
  · simp [lineScan, Nat.add_assoc]
  · simp

/-- All lines clean: the parser adds the entries of the fields, in order. -/
theorem scanLines_clean (hne : ls ≠ []) (hpre : pre = [] ∨ pre.getLast? = some 10)
    (hb : block = pre ++ [10].intercalate ls) {h : Headers} (hbuf : h.buf = block) (hc : ∀ l ∈ ls, Clean l) :
    scanLines block pre.length ls h = (placesFrom pre.length ls).foldl Headers.addPlace h := by
  induction ls generalizing pre h with
  | nil => exact absurd rfl hne
  | cons l ls ih =>
    have hcl := hc l mem_cons_self
    cases ls with
    | nil =>
      have hl := LineAt.last hpre hb
      change Headkit.flush block (lineScan block pre.length l h) = _
      rw [hl.flush.1 (hcl.symm.imp_left (·.colon)), hl.closeLine_clean hcl hbuf]
      simp [placesFrom, addLine]
    | cons l' ls =>
      have hl := LineAt.cons hpre hb
      rw [scanLines_cons, hl.closeLine_clean hcl hbuf, placesFrom, foldl_append,
        ih (by simp) (.inr (by simp)) (by rw [hl.eq]; simp) (by rw [buf_addLine, hbuf])
          fun x hx => hc x (mem_cons_of_mem _ hx)]
      simp [addLine, Nat.add_assoc]

theorem clean_of_scanLines (hne : ls ≠ []) (hpre : pre = [] ∨ pre.getLast? = some 10)
    (hb : block = pre ++ [10].intercalate ls) {h : Headers} (hok : (scanLines block pre.length ls h).Ok) :
    h.Ok ∧ ∀ l ∈ ls, Clean l := by
  induction ls generalizing pre h with
  | nil => exact absurd rfl hne
  | cons l ls ih =>
    cases ls with
    | nil =>
      have hl := LineAt.last hpre hb
      change (Headkit.flush block (lineScan block pre.length l h)).Ok at hok
      by_cases hmem : 58 ∈ stripCR l ∨ stripCR l = []
      · rw [hl.flush.1 hmem] at hok
        obtain ⟨hok, hc⟩ := hl.clean_of_ok hok
        exact ⟨hok, fun x hx => mem_singleton.1 hx ▸ hc⟩
      · rw [not_or] at hmem
        exact absurd hok (hl.flush.2 hmem.1 hmem.2)
    | cons l' ls =>
      have hl := LineAt.cons hpre hb
      rw [scanLines_cons] at hok
      obtain ⟨hok, hcs⟩ := ih (by simp) (.inr (by simp)) (by rw [hl.eq]; simp) hok
      obtain ⟨hok, hc⟩ := hl.clean_of_ok hok
      refine ⟨hok, fun x hx => ?_⟩
      obtain rfl | hx := mem_cons.1 hx
      · exact hc
      · exact hcs x hx

end Lines

/-- The block parsed on storage that was reset: the entries of its fields. -/
def entered (block : List UInt8) : Headers := (places block).foldl Headers.addPlace { buf := block }

/-- Parsing succeeds without an error when all lines are clean and no entry is refused; the entries of the fields are
added in order then. -/
theorem parse_ok_iff (block : List UInt8) (h : Headers) :
    (({} : Headers).parseHeaderBlockSWAR block = some h ∧ h.err = none) ↔
      (∀ l ∈ block.splitOn 10, Clean l) ∧ h = entered block ∧ h.Ok := by
  have hne := splitOn_ne_nil 10 block
  have hb : block = [] ++ [10].intercalate (block.splitOn 10) := by simp [intercalate_splitOn]
  rw [parse_eq_lines]
  have hstart : ({ ({} : Headers) with buf := block, count := idxReservedCount } : Headers) = { buf := block } := rfl
  rw [hstart]
  dsimp only
  constructor
  · rintro ⟨hp, herr⟩
    split at hp
    · cases hp
    rename_i hpan
    cases hp
    have hok : (scanLines block 0 (block.splitOn 10) { buf := block }).Ok := ⟨herr, eq_false_of_ne_true hpan⟩
    have hc := (clean_of_scanLines hne (.inl rfl) hb hok).2
    exact ⟨hc, scanLines_clean hne (.inl rfl) hb rfl hc, hok⟩
  · rintro ⟨hc, rfl, hok⟩
    have heq : scanLines block 0 (block.splitOn 10) { buf := block } = entered block :=
      scanLines_clean hne (.inl rfl) hb rfl hc
    rw [heq, if_neg (by rw [hok.2]; simp)]
    exact ⟨rfl, hok.1⟩

end Mach.Headkit
