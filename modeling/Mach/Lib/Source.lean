import Mathlib.Data.List.Basic
/-!
# A stream that arrives in pieces

What a peer sends is one stream, but a read returns what has arrived, and how
the stream is cut is not up to the reader. `Source` is the rest of a stream with
its cuts; a read returns a part of the next piece, and a loop of reads what it
asks for, wherever the cuts are. `Framer` cuts a frame off the front of a buffer,
if a whole one is there. What frames a buffer holds is then the same whether its
octets were there at once or were appended in between (`Frames.append`), which is
what a read loop over a `Source` rests on.
-/

namespace Mach.Lib
open List

variable {τ α : Type}

/-! ## Sources -/

/-- What is still to come, in the pieces in which it arrives. -/
structure Source (τ : Type) where
  pieces : List (List τ)
  nonempty : ∀ p ∈ pieces, p ≠ []

namespace Source

variable {n : Nat} {s s' : Source τ} {b : List τ}

def stream (s : Source τ) : List τ := s.pieces.flatten

/-- A read into a buffer with room for `n`: a part of the next piece, or `none` at the end of the stream. -/
def read (n : Nat) : Source τ → Option (List τ × Source τ)
  | ⟨[], _⟩ => none
  | ⟨p :: ps, h⟩ =>
    some (p.take n,
      if hn : n < p.length then
        ⟨p.drop n :: ps, fun q hq => by
          obtain rfl | hq := List.mem_cons.1 hq
          · exact fun he => absurd (List.drop_eq_nil_iff.1 he) (Nat.not_le.2 hn)
          · exact h q (List.mem_cons_of_mem _ hq)⟩
      else ⟨ps, fun q hq => h q (List.mem_cons_of_mem _ hq)⟩)

theorem stream_of_read_none (h : s.read n = none) : s.stream = [] := by
  obtain ⟨_ | ⟨p, ps⟩, hne⟩ := s
  · rfl
  · simp [read] at h

section Reads

variable (h : s.read n = some (b, s'))
include h

theorem stream_of_read : s.stream = b ++ s'.stream := by
  obtain ⟨_ | ⟨p, ps⟩, hne⟩ := s
  · simp [read] at h
  · cases h
    split
    · simp [stream, ← append_assoc]
    · rename_i hn
      simp [stream, take_of_length_le (Nat.not_lt.1 hn)]

theorem length_read_le : b.length ≤ n := by
  obtain ⟨_ | ⟨p, ps⟩, hne⟩ := s
  · simp [read] at h
  · simp only [read, Option.some.injEq, Prod.mk.injEq] at h
    rw [← h.1]
    exact length_take_le n p

theorem read_ne_nil (hn : 0 < n) : b ≠ [] := by
  obtain ⟨_ | ⟨p, ps⟩, hne⟩ := s
  · simp [read] at h
  · simp only [read, Option.some.injEq, Prod.mk.injEq] at h
    rw [← h.1]
    intro he
    obtain he | he := take_eq_nil_iff.1 he
    · omega
    · exact hne p mem_cons_self he

theorem length_stream_lt_of_read (hn : 0 < n) : s'.stream.length < s.stream.length := by
  have hb := length_pos_iff.2 (read_ne_nil h hn)
  rw [stream_of_read h, length_append]
  omega

end Reads

/-- Reads into a buffer with `room` until `n` octets are read or the stream ends. `fuel` bounds the reads: each takes an
octet at least. -/
def readLoop (room : Nat) : Nat → Nat → Source τ → List τ × Source τ
  | 0, _, s => ([], s)
  | fuel + 1, n, s =>
    if n = 0 then ([], s)
    else
      match s.read (min n room) with
      | none => ([], s)
      | some (b, s) =>
        let (rest, s) := readLoop room fuel (n - b.length) s
        (b ++ rest, s)

def readUpTo (room n : Nat) (s : Source τ) : List τ × Source τ := readLoop room n n s

/-- The cuts do not matter to a loop of reads. -/
theorem readLoop_eq {room fuel : Nat} (hroom : n = 0 ∨ 0 < room) (hfuel : n ≤ fuel) (s : Source τ) :
    (readLoop room fuel n s).1 = s.stream.take n ∧ (readLoop room fuel n s).2.stream = s.stream.drop n := by
  induction fuel generalizing n s with
  | zero =>
    obtain rfl : n = 0 := by omega
    exact ⟨rfl, rfl⟩
  | succ fuel ih =>
    unfold readLoop
    split
    · rename_i hn
      rw [hn]
      exact ⟨rfl, rfl⟩
    · rename_i hn
      cases hread : s.read (min n room) with
      | none => simp [stream_of_read_none hread]
      | some p =>
        obtain ⟨b, s'⟩ := p
        have hpos := length_pos_iff.2 (read_ne_nil hread (by omega))
        have hle := length_read_le hread
        obtain ⟨htake, hdrop⟩ := ih (n := n - b.length) (by omega) (by omega) s'
        rw [stream_of_read hread, take_append, drop_append, take_of_length_le (by omega),
          drop_of_length_le (by omega), ← htake, ← hdrop]
        exact ⟨rfl, rfl⟩

theorem readUpTo_fst (s : Source τ) (room n : Nat) (hroom : n = 0 ∨ 0 < room) :
    (s.readUpTo room n).1 = s.stream.take n := (readLoop_eq hroom (Nat.le_refl n) s).1

theorem stream_readUpTo (s : Source τ) (room n : Nat) (hroom : n = 0 ∨ 0 < room) :
    (s.readUpTo room n).2.stream = s.stream.drop n := (readLoop_eq hroom (Nat.le_refl n) s).2

end Source

/-- What is left of a source is the rest of its stream. -/
def unread {σ : Type} (p : σ × Source τ) : σ × List τ := (p.1, p.2.stream)

/-! ## Frames -/

/-- Cuts a frame of `n` octets off the front of a buffer; octets behind a whole frame do not change it. -/
structure Framer (τ α : Type) where
  next : List τ → Option (α × Nat)
  pos : ∀ {d a n}, next d = some (a, n) → 0 < n
  le : ∀ {d a n}, next d = some (a, n) → n ≤ d.length
  ext : ∀ {d a n} (e : List τ), next d = some (a, n) → next (d ++ e) = some (a, n)

namespace Framer

/-- `d` holds the frames `as`, and then `r`, which holds no whole frame. -/
inductive Frames (F : Framer τ α) : List τ → List α → List τ → Prop
  | nil {d} : F.next d = none → Frames F d [] d
  | cons {d a n as r} : F.next d = some (a, n) → Frames F (d.drop n) as r → Frames F d (a :: as) r

variable {F : Framer τ α} {d r r' : List τ} {as : List α}

theorem Frames.unique {as' : List α} (h : F.Frames d as r) (h' : F.Frames d as' r') : as = as' ∧ r = r' := by
  induction h generalizing as' with
  | nil hn =>
    cases h' with
    | nil _ => exact ⟨rfl, rfl⟩
    | cons hs _ => simp [hn] at hs
  | cons hs _ ih =>
    cases h' with
    | nil hn => simp [hn] at hs
    | cons hs' h' =>
      rw [hs, Option.some.injEq, Prod.mk.injEq] at hs'
      obtain ⟨rfl, rfl⟩ := hs'
      obtain ⟨rfl, rfl⟩ := ih h'
      exact ⟨rfl, rfl⟩

theorem Frames.next_rest (h : F.Frames d as r) : F.next r = none := by
  induction h with
  | nil hn => exact hn
  | cons _ _ ih => exact ih

theorem Frames.suffix (h : F.Frames d as r) : r <:+ d := by
  induction h with
  | nil _ => exact suffix_refl _
  | cons _ _ ih => exact ih.trans (drop_suffix _ _)

/-- The frames of a buffer that is filled in two steps. -/
theorem Frames.append {bs : List α} {e : List τ} (h : F.Frames d as r)
    (h' : F.Frames (r ++ e) bs r') : F.Frames (d ++ e) (as ++ bs) r' := by
  induction h with
  | nil _ => exact h'
  | cons hs _ ih =>
    refine .cons (F.ext e hs) ?_
    rw [drop_append_of_le_length (F.le hs)]
    exact ih h'

/-- The loop over the frames of a buffer. `fuel` bounds the rounds: each takes an octet at least. -/
def feed (F : Framer τ α) : Nat → List τ → List α × List τ
  | 0, d => ([], d)
  | fuel + 1, d =>
    match F.next d with
    | none => ([], d)
    | some (a, n) =>
      let (as, r) := feed F fuel (d.drop n)
      (a :: as, r)

theorem frames_feed {fuel : Nat} (h : d.length ≤ fuel) : F.Frames d (F.feed fuel d).1 (F.feed fuel d).2 := by
  induction fuel generalizing d with
  | zero =>
    refine .nil ?_
    cases hs : F.next d with
    | none => rfl
    | some p =>
      have hpos : 0 < p.2 := F.pos hs
      have hle : p.2 ≤ d.length := F.le hs
      omega
  | succ fuel ih =>
    unfold feed
    cases hs : F.next d with
    | none => exact .nil hs
    | some p =>
      have hpos : 0 < p.2 := F.pos hs
      refine .cons hs (ih ?_)
      rw [length_drop]
      omega

/-! ### Loops over the frames of a source -/

section Process

variable {σ ω : Type} (iteration : σ → Source τ → Except ω (σ × Source τ))

/-- A loop that ends with a result. `stuck` stands for rounds without an end. -/
def process (stuck : ω) : Nat → σ → Source τ → ω
  | 0, _, _ => stuck
  | fuel + 1, st, s =>
    match iteration st s with
    | .error o => o
    | .ok (st, s) => process stuck fuel st s

/-- A round takes a frame, or else the end of the stream: it ends the loop, or it leaves nothing for the next round. -/
structure Handles (F : Framer τ α) (onFrame : σ → α → Except ω σ) (onRest : σ → List τ → ω) : Prop where
  frame : ∀ {st s a n}, F.next s.stream = some (a, n) →
    (iteration st s).map unread = (onFrame st a).map (·, s.stream.drop n)
  rest : ∀ {st s}, F.next s.stream = none → iteration st s = .error (onRest st s.stream) ∨
    ∃ st' s', iteration st s = .ok (st', s') ∧ s.stream ≠ [] ∧ s'.stream = [] ∧ onRest st' [] = onRest st s.stream

variable {f : σ → α → Except ω σ} {st : σ} {as : List α} {fuel : Nat}

theorem foldlM_cons_ok {st' : σ} {a : α} :
    (a :: as).foldlM f st = .ok st' ↔ ∃ st1, f st a = .ok st1 ∧ as.foldlM f st1 = .ok st' := by
  rw [foldlM_cons]
  cases f st a with
  | error o => exact ⟨nofun, nofun⟩
  | ok st1 => exact ⟨fun h => ⟨st1, rfl, h⟩, fun ⟨_, h1, h⟩ => Except.ok.inj h1 ▸ h⟩

theorem exists_of_foldlM_error {o : ω} (h : as.foldlM f st = .error o) : ∃ st' a, f st' a = .error o := by
  induction as generalizing st with
  | nil => cases h
  | cons a as ih =>
    rw [foldlM_cons] at h
    cases hstep : f st a with
    | error o' =>
      rw [hstep] at h
      exact ⟨st, a, hstep.trans h⟩
    | ok st' =>
      rw [hstep] at h
      exact ih h

def afterFrames (onFrame : σ → α → Except ω σ) (onRest : σ → List τ → ω) (st : σ) (as : List α) (r : List τ) : ω :=
  match as.foldlM onFrame st with
  | .error o => o
  | .ok st => onRest st r

variable {iteration} {onFrame : σ → α → Except ω σ} {onRest : σ → List τ → ω}

theorem next_nil (F : Framer τ α) : F.next [] = none := by
  cases h : F.next [] with
  | none => rfl
  | some p => exact absurd (Nat.lt_of_lt_of_le (F.pos h) (F.le h)) (Nat.not_lt_zero 0)

theorem Handles.process_rest (h : Handles iteration F onFrame onRest) (stuck : ω) {s : Source τ}
    (hnone : F.next s.stream = none) (hfuel : s.stream.length < fuel) :
    process iteration stuck fuel st s = onRest st s.stream := by
  obtain ⟨fuel, rfl⟩ : ∃ k, fuel = k + 1 := ⟨fuel - 1, by omega⟩
  obtain herr | ⟨st', s', hok, hne, hnil, hsame⟩ := h.rest hnone
  · rw [process, herr]
  · have hpos := length_pos_iff.2 hne
    obtain ⟨fuel, rfl⟩ : ∃ k, fuel = k + 1 := ⟨fuel - 1, by omega⟩
    -- the second round finds the end of the stream
    have hend : iteration st' s' = .error (onRest st' s'.stream) := by
      obtain herr | ⟨_, _, -, hne', -⟩ := h.rest (hnil ▸ F.next_nil)
      · exact herr
      · exact absurd hnil hne'
    rw [process, hok]
    simp only [process, hend, hnil, hsame]

/-- The frames of a stream one after the other, and then its end. -/
theorem Handles.process_eq (h : Handles iteration F onFrame onRest) (stuck : ω) {s : Source τ}
    (hs : F.Frames s.stream as r) (hfuel : s.stream.length < fuel) :
    process iteration stuck fuel st s = afterFrames onFrame onRest st as r := by
  induction as generalizing fuel st s with
  | nil =>
    cases hs with
    | nil hnone => exact h.process_rest stuck hnone hfuel
  | cons a as ih =>
    cases hs with
    | @cons _ _ n _ _ hnext hrest =>
      obtain ⟨fuel, rfl⟩ : ∃ k, fuel = k + 1 := ⟨fuel - 1, by omega⟩
      rw [afterFrames, foldlM_cons]
      have hframe : (iteration st s).map unread = (onFrame st a).map (·, s.stream.drop n) := h.frame hnext
      rw [process]
      cases hiter : iteration st s with
      | error o =>
        rw [hiter] at hframe
        cases hstep : onFrame st a with
        | error o' =>
          rw [hstep] at hframe
          exact Except.error.inj hframe
        | ok st' =>
          rw [hstep] at hframe
          cases hframe
      | ok p =>
        rw [hiter] at hframe
        cases hstep : onFrame st a with
        | error o' =>
          rw [hstep] at hframe
          cases hframe
        | ok st' =>
          rw [hstep] at hframe
          obtain ⟨rfl, hdrop⟩ := Prod.mk.inj (Except.ok.inj hframe)
          have hdrop : p.2.stream = s.stream.drop n := hdrop
          have hpos := F.pos hnext
          have hle := F.le hnext
          refine ih (hdrop ▸ hrest) ?_
          rw [hdrop, length_drop]
          omega

end Process

end Framer

end Mach.Lib
