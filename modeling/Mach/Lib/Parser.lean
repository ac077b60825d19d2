import Mathlib.Init
/-!
# Writers, parsers and what they read

A writer appends to a list of tokens, a parser takes a list of tokens and
returns a value and the tokens it left. `Writes w e` says that `w` appends
exactly `e`; `ReadsBefore P p e a` says that on `e` followed by anything that
satisfies `P`, `p` returns `a` and leaves exactly what followed. Both compose
along `>>=`, so that the proof that a parser inverts a writer follows the text
of the two.
-/

namespace Mach.Lib
open List

variable {τ ε α β : Type}

/-! ## Writers -/

/-- `w` appends `e`, whatever is there already. -/
def Writes (w : List τ → Option (List τ)) (e : List τ) : Prop := ∀ dst, w dst = some (dst ++ e)

theorem writes_append (d : List τ) : Writes (fun dst => some (dst ++ d)) d := fun _ => rfl

theorem Writes.bind {w w' : List τ → Option (List τ)} {e e' : List τ} (h : Writes w e) (h' : Writes w' e') :
    Writes (fun dst => w dst >>= w') (e ++ e') := by
  intro dst
  change (w dst).bind w' = _
  rw [h dst, Option.bind_some, h', append_assoc]

theorem Writes.foldlM {w : List τ → α → Option (List τ)} {e : α → List τ} {l : List α}
    (h : ∀ a ∈ l, Writes (w · a) (e a)) : Writes (fun dst => l.foldlM w dst) (l.flatMap e) := by
  induction l with
  | nil => intro dst; simp
  | cons a l ih =>
    intro dst
    have ha : w dst a = some (dst ++ e a) := h a mem_cons_self dst
    have hl := ih (fun b hb => h b (mem_cons_of_mem _ hb)) (dst ++ e a)
    rw [flatMap_cons, ← append_assoc, ← hl]
    simp [ha]

/-! ## Parsers -/

/-- A parser over tokens `τ`, failing with `ε`. -/
def Parser (τ ε α : Type) : Type := List τ → Except ε (α × List τ)

namespace Parser

variable {s r : List τ} {g : Unit → Parser τ ε α} {n : Nat} {Q : List τ → Prop} {err : ε}

instance : Monad (Parser τ ε) where
  pure a := fun s => .ok (a, s)
  bind p f := fun s =>
    match p s with
    | .ok (a, r) => f a r
    | .error e => .error e

def fail (e : ε) : Parser τ ε α := fun _ => .error e

/-- Fails with `e` unless at least `n` tokens are left. -/
def need (n : Nat) (e : ε) : Parser τ ε Unit := fun s => if s.length < n then .error e else .ok ((), s)

/-- The next `n` tokens; fails with `e` if there are fewer. -/
def split (n : Nat) (e : ε) : Parser τ ε (List τ) := fun s =>
  if n ≤ s.length then .ok (s.take n, s.drop n) else .error e

def rest : Parser τ ε (List τ) := fun s => .ok (s, [])

variable {f : α → Parser τ ε β}

theorem bind_ok {p : Parser τ ε α} {a : α} (h : p s = .ok (a, r)) : (p >>= f) s = f a r := by
  change (match p s with | .ok (a, r) => f a r | .error e => .error e) = f a r
  rw [h]

theorem bind_error {p : Parser τ ε α} {e : ε} (h : p s = .error e) :
    (p >>= f) s = .error e := by
  change (match p s with | .ok (a, r) => f a r | .error e => .error e) = .error e
  rw [h]

theorem bind_eq_ok {p : Parser τ ε α} {b : β × List τ} (h : (p >>= f) s = .ok b) :
    ∃ a r, p s = .ok (a, r) ∧ f a r = .ok b := by
  cases hp : p s with
  | error e =>
    rw [bind_error hp] at h
    cases h
  | ok ar =>
    rw [bind_ok hp] at h
    exact ⟨ar.1, ar.2, rfl, h⟩

theorem need_bind {e : ε} (h : n ≤ s.length) : (need n e >>= g) s = g () s :=
  bind_ok (show need n e s = .ok ((), s) by rw [need, if_neg (by omega)])

theorem need_bind_eq_ok {e : ε} {b : α × List τ}
    (h : (need n e >>= g) s = .ok b) : n ≤ s.length ∧ g () s = .ok b := by
  by_cases hn : n ≤ s.length
  · rw [need_bind hn] at h
    exact ⟨hn, h⟩
  · rw [bind_error (show need n e s = .error e by rw [need, if_pos (by omega)])] at h
    cases h

theorem split_eq_ok {e : ε} {d : List τ} (h : split n e s = .ok (d, r)) : n ≤ s.length ∧ d = s.take n ∧ r = s.drop n := by
  unfold split at h
  split at h
  · cases h
    exact ⟨‹_›, rfl, rfl⟩
  · cases h

/-- `p` reads `e` as `a` before anything that satisfies `P`. -/
def ReadsBefore (P : List τ → Prop) (p : Parser τ ε α) (e : List τ) (a : α) : Prop :=
  ∀ r, P r → p (e ++ r) = .ok (a, r)

/-- `p` reads `e` as `a`, whatever follows. -/
abbrev Reads (p : Parser τ ε α) (e : List τ) (a : α) : Prop := ReadsBefore (fun _ => True) p e a

variable {P : List τ → Prop} {p : Parser τ ε α} {e e' : List τ} {a : α} {b : β}

theorem Reads.pure (a : α) : Reads (Pure.pure a : Parser τ ε α) [] a := fun _ _ => rfl

theorem ReadsBefore.mono (h : ReadsBefore P p e a) (hPQ : ∀ r, Q r → P r) : ReadsBefore Q p e a :=
  fun r hr => h r (hPQ r hr)

theorem ReadsBefore.bind (hp : ReadsBefore Q p e a) (hf : ReadsBefore P (f a) e' b)
    (hQ : ∀ r, P r → Q (e' ++ r)) : ReadsBefore P (p >>= f) (e ++ e') b := by
  intro r hr
  rw [append_assoc, bind_ok (hp _ (hQ r hr)), hf r hr]

theorem Reads.bind (hp : Reads p e a) (hf : ReadsBefore P (f a) e' b) : ReadsBefore P (p >>= f) (e ++ e') b :=
  ReadsBefore.bind hp hf fun _ _ => trivial

theorem ReadsBefore.last (hp : ReadsBefore P p e a) (g : α → β) :
    ReadsBefore P (p >>= fun x => Pure.pure (g x)) e (g a) := by
  intro r hr
  rw [bind_ok (hp r hr)]
  rfl

theorem reads_split (d : List τ) (err : ε) : Reads (split d.length err) d d := by
  intro r _
  simp [split]

theorem readsBefore_rest (e : List τ) : ReadsBefore (· = []) (rest : Parser τ ε (List τ)) e e := by
  rintro r rfl
  simp [rest]

theorem ReadsBefore.need_of (h : ReadsBefore P (g ()) e a)
    (hn : ∀ r, P r → n ≤ e.length + r.length) : ReadsBefore P (Parser.need n err >>= g) e a := by
  intro r hr
  have : ¬ (e ++ r).length < n := by have := hn r hr; simp; omega
  rw [bind_ok (show Parser.need n err (e ++ r) = .ok ((), e ++ r) by rw [Parser.need, if_neg this])]
  exact h r hr

/-- A check that so many tokens are left, before they are read. -/
theorem ReadsBefore.need (h : ReadsBefore P (g ()) e a)
    (hn : n ≤ e.length) : ReadsBefore P (Parser.need n err >>= g) e a :=
  h.need_of fun _ _ => Nat.le_add_right_of_le hn

/-! ## Parsers that do not fail in a certain way -/

/-- With at least `n` tokens left, `p` does not fail with `x`. -/
def Avoids (x : ε) (n : Nat) (p : Parser τ ε α) : Prop := ∀ s, n ≤ s.length → p s ≠ .error x

section Avoids

variable {x y : ε} {n k : Nat}

theorem Avoids.mono (h : Avoids x n p) (hnk : n ≤ k) : Avoids x k p := fun s hs => h s (Nat.le_trans hnk hs)

theorem avoids_pure (a : α) : Avoids x n (Pure.pure a : Parser τ ε α) := by
  intro s _ h
  cases h

theorem avoids_fail (h : y ≠ x) : Avoids x n (fail y : Parser τ ε α) := by
  intro s _ he
  exact h (Except.error.inj he)

theorem avoids_rest : Avoids x n (rest : Parser τ ε (List τ)) := by
  intro s _ h
  cases h

theorem Avoids.bind_leaving (hp : Avoids x n p) (hk : ∀ s a r, n ≤ s.length → p s = .ok (a, r) → k ≤ r.length)
    (hf : ∀ a, Avoids x k (f a)) : Avoids x n (p >>= f) := by
  intro s hs h
  cases hps : p s with
  | ok ar =>
    obtain ⟨a, r⟩ := ar
    rw [bind_ok hps] at h
    exact hf a r (hk s a r hs hps) h
  | error e =>
    rw [bind_error hps] at h
    exact hp s hs (Except.error.inj h ▸ hps)

theorem Avoids.bind (hp : Avoids x n p) (hf : ∀ a, Avoids x 0 (f a)) : Avoids x n (p >>= f) :=
  hp.bind_leaving (fun _ _ _ _ _ => Nat.zero_le _) hf

theorem avoids_need (h : y ≠ x) (hg : Avoids x n (g ())) :
    Avoids x 0 (Parser.need n y >>= g) := by
  refine Avoids.bind_leaving (k := n) ?_ ?_ fun _ => hg
  · intro s _ he
    unfold Parser.need at he
    split at he
    · exact h (Except.error.inj he)
    · cases he
  · intro s a r _ he
    unfold Parser.need at he
    split at he
    · cases he
    cases he
    omega

/-- Where there are `k` tokens, `p` succeeds and takes exactly these. -/
def Takes (k : Nat) (p : Parser τ ε α) : Prop := ∀ s, k ≤ s.length → ∃ a, p s = .ok (a, s.drop k)

theorem takes_split (k : Nat) (e : ε) : Takes k (split k e : Parser τ ε (List τ)) := by
  intro s hs
  exact ⟨s.take k, by rw [split, if_pos hs]⟩

theorem Takes.avoids (hp : Takes k p) : Avoids x k p := by
  intro s hs h
  obtain ⟨a, ha⟩ := hp s hs
  rw [ha] at h
  cases h

theorem Takes.avoids_bind (hp : Takes k p) (hf : ∀ a, Avoids x n (f a)) : Avoids x (k + n) (p >>= f) := by
  refine Avoids.bind_leaving (k := n) (hp.avoids.mono (Nat.le_add_right k n)) ?_ hf
  intro s a r hs h
  obtain ⟨a', ha'⟩ := hp s (by omega)
  rw [ha'] at h
  cases h
  rw [length_drop]
  omega

end Avoids

/-! ## Parsers that use up tokens -/

/-- Where `p` succeeds it has used up at least `k` tokens. -/
def Shrinks (k : Nat) (p : Parser τ ε α) : Prop := ∀ s a r, p s = .ok (a, r) → r.length + k ≤ s.length

section Shrinks

variable {k j : Nat}

theorem shrinks_pure (a : α) : Shrinks 0 (Pure.pure a : Parser τ ε α) := by
  intro s b r h
  cases h
  exact Nat.le_refl _

theorem shrinks_fail (e : ε) : Shrinks k (fail e : Parser τ ε α) := by
  intro s a r h
  cases h

theorem shrinks_rest : Shrinks 0 (rest : Parser τ ε (List τ)) := by
  intro s a r h
  cases h
  exact Nat.zero_le _

theorem shrinks_need (n : Nat) (e : ε) : Shrinks 0 (Parser.need n e : Parser τ ε Unit) := by
  intro s a r h
  unfold Parser.need at h
  split at h
  · cases h
  cases h
  exact Nat.le_refl _

theorem shrinks_split (n : Nat) (e : ε) : Shrinks 0 (split n e : Parser τ ε (List τ)) := by
  intro s a r h
  obtain ⟨-, -, rfl⟩ := split_eq_ok h
  simp

theorem Shrinks.bind (hp : Shrinks k p) (hf : ∀ a, Shrinks 0 (f a)) : Shrinks k (p >>= f) := by
  intro s b r h
  obtain ⟨a, r', hps, h⟩ := bind_eq_ok h
  have h1 := hp s a r' hps
  have h2 := hf a r' b r h
  omega

end Shrinks

/-! ## What a parser has read -/

/-- Where `p` succeeds it has taken tokens `e` off the front for which `Q` holds,
and it takes just these before anything else, or before nothing if it took all
there was. -/
def Parses (p : Parser τ ε α) (Q : List τ → α → Prop) : Prop :=
  ∀ s a r, p s = .ok (a, r) → ∃ e, s = e ++ r ∧ Q e a ∧ ∀ r', (r = [] → r' = []) → p (e ++ r') = .ok (a, r')

section Parses

variable {Q : List τ → α → Prop} {R : List τ → β → Prop}

theorem Parses.imp {Q' : List τ → α → Prop} (h : Parses p Q) (hQ : ∀ e a, Q e a → Q' e a) : Parses p Q' := by
  intro s a r hs
  obtain ⟨e, he, hq, hrest⟩ := h s a r hs
  exact ⟨e, he, hQ e a hq, hrest⟩

theorem parses_pure (h : Q [] a) : Parses (Pure.pure a : Parser τ ε α) Q := by
  intro s b r hs
  cases hs
  exact ⟨[], rfl, h, fun _ _ => rfl⟩

theorem parses_fail (err : ε) : Parses (fail err : Parser τ ε α) Q := by
  intro s a r hs
  cases hs

theorem parses_rest : Parses (rest : Parser τ ε (List τ)) fun e d => e = d := by
  intro s d r hs
  cases hs
  refine ⟨s, (append_nil s).symm, rfl, fun r' hr' => ?_⟩
  rw [hr' rfl, append_nil]
  rfl

theorem parses_split (n : Nat) (err : ε) : Parses (split n err : Parser τ ε (List τ)) fun e d => e = d ∧ d.length = n := by
  intro s d r hs
  obtain ⟨hn, rfl, rfl⟩ := split_eq_ok hs
  have hlen : (s.take n).length = n := by simp [hn]
  refine ⟨s.take n, (take_append_drop n s).symm, ⟨rfl, hlen⟩, fun r' _ => ?_⟩
  rw [split, if_pos (by simp [hn]), take_left' hlen, drop_left' hlen]

theorem Parses.bind (hp : Parses p Q) (hf : ∀ e a, Q e a → Parses (f a) fun e' b => R (e ++ e') b) :
    Parses (p >>= f) R := by
  intro s b r hs
  obtain ⟨a, r1, hps, hfs⟩ := bind_eq_ok hs
  obtain ⟨e, rfl, hq, hrest⟩ := hp s a r1 hps
  obtain ⟨e', rfl, hR, hrest'⟩ := hf e a hq r1 b r hfs
  refine ⟨e ++ e', (append_assoc ..).symm, hR, fun r' hr' => ?_⟩
  -- where `p` took all there was, `f a` had nothing to take
  have hnil : e' ++ r = [] → e' ++ r' = [] := by
    intro h
    obtain ⟨rfl, h⟩ := append_eq_nil_iff.1 h
    exact hr' h
  rw [append_assoc, bind_ok (hrest _ hnil), hrest' r' hr']

/-- A check that so many tokens are left, before at least as many are taken. -/
theorem parses_need (hg : Parses (g ()) Q)
    (hn : ∀ e a, Q e a → n ≤ e.length) : Parses (Parser.need n err >>= g) Q := by
  intro s a r hs
  obtain ⟨e, he, hq, hrest⟩ := hg s a r (need_bind_eq_ok hs).2
  refine ⟨e, he, hq, fun r' hr' => ?_⟩
  rw [need_bind (by have := hn e a hq; rw [length_append]; omega), hrest r' hr']

theorem parses_ite {c : Prop} [Decidable c] {q : Parser τ ε α} (hp : c → Parses p Q) (hq : ¬ c → Parses q Q) :
    Parses (if c then p else q) Q := by
  split
  · exact hp ‹_›
  · exact hq ‹_›

end Parses

end Parser

end Mach.Lib
