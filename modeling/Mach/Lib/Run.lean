import Mathlib.Data.List.Forall2
import Mathlib.Data.List.Induction
/-!
# Runs of a labelled machine

A machine is its step function: in a state, a label either is disabled or leads
to the next state and a list of observations. Everything a step leaves open (a
scheduler's choice, an argument of a call, the answer of the environment) is in
its label, so a run is the list of its labels and every order of steps is a run.

`Always Q` says that `Q` holds in every state a run passes through, `Along P`
that every step the run takes meets `P` in the state it is taken in. The two
rules at the end are how a safety property of all runs, or of the runs whose
steps meet a condition, is proven: give an invariant and show one step keeps it.
-/

namespace Mach.Lib
open List Option

variable {σ ε ω : Type} {s s' : σ} {e : ε} {o tr : List ω} {es : List ε} {P : σ → ε → Prop} {Q : σ → List ω → Prop}

/-- The state and the observations after the labels of a run, from `s`. -/
def run (step : σ → ε → Option (σ × List ω)) : σ → List ε → Option (σ × List ω)
  | s, [] => some (s, [])
  | s, e :: es =>
    match step s e with
    | none => none
    | some (s', o) => (run step s' es).map fun r => (r.1, o ++ r.2)

/-- `Q` holds in every state the run passes through, with the observations made
up to there. -/
def Always (step : σ → ε → Option (σ × List ω)) (Q : σ → List ω → Prop) (s : σ) (es : List ε) : Prop :=
  ∀ pre s' tr, pre <+: es → run step s pre = some (s', tr) → Q s' tr

/-- Every step the run takes meets `P` in the state it is taken in. -/
def Along (step : σ → ε → Option (σ × List ω)) (P : σ → ε → Prop) (s : σ) (es : List ε) : Prop :=
  ∀ pre e s' tr, pre ++ [e] <+: es → run step s pre = some (s', tr) → (step s' e).isSome → P s' e

variable {step : σ → ε → Option (σ × List ω)}

@[simp] theorem run_nil (s : σ) : run step s [] = some (s, []) := rfl

-- The lemmas below share these equations.
attribute [local simp] run in
theorem run_cons_some (es : List ε) (h : step s e = some (s', o)) :
    run step s (e :: es) = (run step s' es).map fun r => (r.1, o ++ r.2) := by
  simp [run, h]

theorem run_append (s : σ) (es es' : List ε) :
    run step s (es ++ es') = (run step s es).bind fun r => (run step r.1 es').map fun q => (q.1, r.2 ++ q.2) := by
  induction es generalizing s with
  | nil => cases h : run step s es' <;> simp [run, h]
  | cons e es ih =>
    cases h : step s e with
    | none => simp [run, h]
    | some p =>
      simp only [cons_append, run, h, ih]
      cases run step p.1 es with
      | none => rfl
      | some q => cases h' : run step q.1 es' <;> simp [h']

/-- A run that ends in a step: the run before it and the step. -/
theorem run_concat_eq (h : run step s (es ++ [e]) = some (s', tr)) :
    ∃ t o o', run step s es = some (t, o) ∧ step t e = some (s', o') ∧ tr = o ++ o' := by
  rw [run_append] at h
  obtain ⟨⟨t, o⟩, ht, h⟩ := bind_eq_some_iff.1 h
  cases he : step t e with
  | none => simp [run, he] at h
  | some p =>
    simp [run, he] at h
    exact ⟨t, o, p.2, ht, by rw [he, ← h.1], h.2.symm⟩

/-- A property that every allowed step keeps holds at the end of a run of
allowed steps. -/
theorem run_inv {A : ε → Prop} (I : σ → List ω → Prop)
    (hstep : ∀ s tr e s' o, A e → I s tr → step s e = some (s', o) → I s' (tr ++ o))
    (hA : ∀ e ∈ es, A e) (h0 : I s []) (h : run step s es = some (s', tr)) :
    I s' tr := by
  induction es using List.reverseRecOn generalizing s' tr with
  | nil =>
    cases h
    exact h0
  | append_singleton es e ih =>
    obtain ⟨t, o, o', ht, he, rfl⟩ := run_concat_eq h
    exact hstep _ _ _ _ _ (hA e (by simp)) (ih (fun x hx => hA x (by simp [hx])) ht) he

/-- A property that every step keeps holds at the end of every run. -/
theorem run_keeps (I : σ → List ω → Prop) (hstep : ∀ s tr e s' o, I s tr → step s e = some (s', o) → I s' (tr ++ o))
    (h0 : I s []) (h : run step s es = some (s', tr)) : I s' tr :=
  run_inv I (fun s tr e s' o _ => hstep s tr e s' o) (fun _ _ => trivial) h0 h

/-- An invariant that every step meeting `P` keeps holds all along a run whose
steps meet `P`. -/
theorem always_of_along (I : σ → List ω → Prop)
    (hstep : ∀ s tr e s' o, I s tr → P s e → step s e = some (s', o) → I s' (tr ++ o))
    (h0 : I s []) (h : Along step P s es) : Always step I s es := by
  intro pre s' tr hpre hr
  induction pre using List.reverseRecOn generalizing s' tr with
  | nil =>
    cases hr
    exact h0
  | append_singleton es e ih =>
    obtain ⟨t, o, o', ht, he, rfl⟩ := run_concat_eq hr
    have hI := ih _ _ ((prefix_append es [e]).trans hpre) ht
    exact hstep _ _ _ _ _ hI (h es e t o hpre ht (by simp [he])) he

theorem always_mono {Q' : σ → List ω → Prop} (hQ : ∀ s tr, Q s tr → Q' s tr)
    (h : Always step Q s es) : Always step Q' s es :=
  fun pre s' tr hpre hr => hQ _ _ (h pre s' tr hpre hr)

theorem along_nil (s : σ) : Along step P s [] := by
  intro pre e _ _ h
  simp at h

theorem along_cons (hs : step s e = some (s', o))
    (hP : P s e) (h : Along step P s' es) : Along step P s (e :: es) := by
  intro pre e' t tr hpre hr hsome
  cases pre with
  | nil =>
    simp only [nil_append, cons_prefix_cons, nil_prefix, and_true] at hpre
    cases hr
    exact hpre ▸ hP
  | cons f pre =>
    simp only [cons_append, cons_prefix_cons] at hpre
    obtain ⟨rfl, hpre⟩ := hpre
    rw [run_cons_some pre hs] at hr
    obtain ⟨q, hq, hqt⟩ := map_eq_some_iff.1 hr
    obtain ⟨rfl, -⟩ := Prod.mk.inj hqt
    exact h pre e' q.1 q.2 hpre hq hsome

theorem along_of_none (hs : step s e = none) : Along step P s (e :: es) := by
  intro pre e' t tr hpre hr hsome
  cases pre with
  | nil =>
    simp only [nil_append, cons_prefix_cons, nil_prefix, and_true] at hpre
    cases hr
    rw [hpre, hs] at hsome
    cases hsome
  | cons f pre =>
    simp only [cons_append, cons_prefix_cons] at hpre
    simp [run, hpre.1, hs] at hr

/-- What is left of a run whose steps meet `P` is such a run. -/
theorem along_suffix {P : σ → ε → Prop} {s s1 : σ} {tr : List ω} {es es' : List ε} (h : Along step P s (es ++ es'))
    (hr : run step s es = some (s1, tr)) : Along step P s1 es' := by
  intro pre e s' tr' hpre hr' hsome
  refine h (es ++ pre) e s' (tr ++ tr') ?_ (by simp [run_append, hr, hr']) hsome
  rw [append_assoc]
  exact (prefix_append_right_inj es).2 hpre

theorem along_cons_iff (hs : step s e = some (s', o)) : Along step P s (e :: es) ↔ P s e ∧ Along step P s' es := by
  refine ⟨fun h => ⟨?_, ?_⟩, fun h => along_cons hs h.1 h.2⟩
  · exact h [] e s [] ⟨es, rfl⟩ rfl (by simp [hs])
  · exact @along_suffix _ _ _ step P s s' o [e] es h (by simp [run, hs])

instance decidableAlong {P : σ → ε → Prop} [∀ s e, Decidable (P s e)] : ∀ s es, Decidable (Along step P s es)
  | s, [] => isTrue (along_nil s)
  | s, e :: es =>
    match h : step s e with
    | none => isTrue (along_of_none h)
    | some (s', _) => have := decidableAlong (P := P) s' es; decidable_of_iff _ (along_cons_iff h).symm

/-- If `Q` after a step from the invariant forces the step to meet `P`, a run
that keeps `Q` takes only steps that meet `P`. -/
theorem along_of_always (I : σ → List ω → Prop)
    (hstep : ∀ s tr e s' o, I s tr → P s e → step s e = some (s', o) → I s' (tr ++ o))
    (hback : ∀ s tr e s' o, I s tr → step s e = some (s', o) → Q s' (tr ++ o) → P s e)
    (h0 : I s []) (h : Always step Q s es) : Along step P s es := by
  -- On the length of the part before the step: the steps before it meet `P`, so
  -- the invariant holds where it is taken.
  suffices hk : ∀ k, ∀ pre e s' tr, pre.length = k → pre ++ [e] <+: es → run step s pre = some (s', tr) →
      (step s' e).isSome → P s' e from fun pre e s' tr => hk pre.length pre e s' tr rfl
  intro k
  induction k using Nat.strongRecOn with
  | ind k ih =>
    intro pre e s' tr hlen hpre hr hsome
    have hal : Along step P s pre := by
      intro q e' t o hq
      have hlt : q.length < k := by have := hq.length_le; simp at this; omega
      exact ih q.length hlt q e' t o rfl ((hq.trans (prefix_append pre [e])).trans hpre)
    have hI := always_of_along I hstep h0 hal pre s' tr (prefix_refl _) hr
    obtain ⟨⟨u, o⟩, hu⟩ := isSome_iff_exists.1 hsome
    refine hback _ _ _ _ _ hI hu (h (pre ++ [e]) u (tr ++ o) hpre ?_)
    simp [run_append, hr, run, hu]

/-- A run keeps `Q` exactly when its steps meet `P`. -/
theorem always_iff_along (I : σ → List ω → Prop)
    (hstep : ∀ s tr e s' o, I s tr → P s e → step s e = some (s', o) → I s' (tr ++ o))
    (hQ : ∀ s tr, I s tr → Q s tr)
    (hback : ∀ s tr e s' o, I s tr → step s e = some (s', o) → Q s' (tr ++ o) → P s e)
    (h0 : I s []) : Always step Q s es ↔ Along step P s es :=
  ⟨along_of_always I hstep hback h0, fun h => always_mono hQ (always_of_along I hstep h0 h)⟩

end Mach.Lib

namespace Mach.Lib

/-! ## Two runs side by side

Two runs of one machine are observed alike if their states are related, a pair of steps looks alike exactly when a
condition holds, and the relation survives a pair that meets it. -/

variable {σ ε ω β : Type}

/-- What `obs` sees of the steps of a run, up to the first label that is disabled. -/
def observe (step : σ → ε → Option (σ × List ω)) (obs : σ → ε → β) : σ → List ε → List β
  | _, [] => []
  | s, e :: es =>
    obs s e ::
      match step s e with
      | none => []
      | some (s', _) => observe step obs s' es

/-- Every pair of steps the two runs take side by side meets `P`. -/
def Abreast (step : σ → ε → Option (σ × List ω)) (P : σ → σ → ε → Prop) : σ → σ → List ε → List ε → Prop
  | s, t, e :: es, f :: fs =>
    P s t e ∧
      match step s e, step t f with
      | some (s', _), some (t', _) => Abreast step P s' t' es fs
      | _, _ => True
  | _, _, _, _ => True

instance decidableAbreast {step : σ → ε → Option (σ × List ω)} {P : σ → σ → ε → Prop}
    [∀ s t e, Decidable (P s t e)] : ∀ s t es fs, Decidable (Abreast step P s t es fs)
  | _, _, [], _ => isTrue (by simp [Abreast])
  | _, _, _ :: _, [] => isTrue (by simp [Abreast])
  | s, t, e :: es, f :: fs =>
    match hs : step s e, ht : step t f with
    | some (s', _), some (t', _) =>
      have := @decidableAbreast step P _ s' t' es fs
      decidable_of_iff (P s t e ∧ Abreast step P s' t' es fs) (by simp only [Abreast, hs, ht])
    | none, _ => decidable_of_iff (P s t e) (by simp only [Abreast, hs, and_true])
    | some _, none => decidable_of_iff (P s t e) (by simp only [Abreast, hs, ht, and_true])

/-- A pair of steps from related states: either none of the two is possible, or both are and the relation holds
again. -/
def StepsTogether (step : σ → ε → Option (σ × List ω)) (R : σ → σ → Prop) (s t : σ) (e f : ε) : Prop :=
  (step s e = none ∧ step t f = none) ∨
    ∃ s' t' o o', step s e = some (s', o) ∧ step t f = some (t', o') ∧ R s' t'

/-- Two runs are observed alike exactly when their steps meet the condition side by side. -/
theorem observe_eq_iff {step : σ → ε → Option (σ × List ω)} {obs : σ → ε → β} {P : σ → σ → ε → Prop}
    {A : σ → ε → Prop} (R : σ → σ → Prop) (V : ε → ε → Prop)
    (hobs : ∀ s t e f, R s t → V e f → A s e → (obs s e = obs t f ↔ P s t e))
    (hstep : ∀ s t e f, R s t → V e f → A s e → P s t e → StepsTogether step R s t e f)
    (hA : ∀ s e, step s e = none → A s e)
    {s t : σ} {es fs : List ε} (h0 : R s t) (hV : List.Forall₂ V es fs) (hal : Along step A s es) :
    observe step obs s es = observe step obs t fs ↔ Abreast step P s t es fs := by
  induction hV generalizing s t with
  | nil => simp [observe, Abreast]
  | @cons e f es fs hef _ ih =>
    have hAe : A s e := by
      cases hse : step s e with
      | none => exact hA s e hse
      | some p => exact ((along_cons_iff hse).1 hal).1
    rw [observe, observe, Abreast, List.cons.injEq, hobs s t e f h0 hef hAe]
    refine and_congr_right fun hP => ?_
    obtain ⟨hs, ht⟩ | ⟨s', t', o, o', hs, ht, hR⟩ := hstep s t e f h0 hef hAe hP
    · rw [hs, ht]
      simp
    · rw [hs, ht]
      exact ih hR ((along_cons_iff hs).1 hal).2

end Mach.Lib
