import Mach.Client.AltSvc
import Mathlib.Data.List.Induction
/-!
# Alternative services of different origins

The keys of an entry contain the bare host and `https://` with the host, whatever
the scheme and the port of the origin, so that origins of one host are mixed up;
and `Clear` does not delete all of them. Calls that name each origin by one
string, such that the strings have no key in common, do not get in each other's
way (`origins_isolated`).
-/

namespace Mach.Client

open Lib Headkit List

variable {N : List UInt8 → Prop} {s t : List UInt8} {services : List UInt8 → List Service}

namespace AltSvcCache

variable {c c' d : AltSvcCache}
  {p : List UInt8 × Nat} {keys : List (List UInt8)} {e : AltSvcCall} {es : List AltSvcCall}

variable {k : List UInt8} {P : AltSvcCache → Prop} {u : Int}

/-! ## A call touches the keys of its origin -/

/-- Every entry was set for one of the names, and is stored under keys of that name. -/
def Owned (N : List UInt8 → Prop) (c : AltSvcCache) : Prop := ∀ k p, c.entries k = some p → N p.1 ∧ k ∈ aliases p.1

theorem Owned.owner (ho : Owned N c) (hN : Separate N) (hs : N s) (hk : k ∈ aliases s)
    (hp : c.entries k = some p) : p.1 = s := by
  obtain ⟨hn, hk'⟩ := ho k p hp
  refine hN.once p.1 s hn hs (Decidable.of_not_not fun hne => ?_)
  exact hN.apart p.1 s hn hs hne k hk' hk

/-- From `c` to `c'`, only what belongs to `t` has changed. -/
structure Only (N : List UInt8 → Prop) (t : List UInt8) (c c' : AltSvcCache) : Prop where
  entries : ∀ k, k ∉ aliases t → c'.entries k = c.entries k
  heap : ∀ p, p.1 ≠ t → c'.heap p = c.heap p
  next : ∀ u, u ≠ t → c'.next u = c.next u
  owned : Owned N c'

theorem Only.refl (ho : Owned N c) : Only N t c c := ⟨fun _ _ => rfl, fun _ _ => rfl, fun _ _ => rfl, ho⟩

theorem Only.trans {c'' : AltSvcCache} (h : Only N t c c') (h' : Only N t c' c'') : Only N t c c'' :=
  ⟨fun k hk => (h'.entries k hk).trans (h.entries k hk), fun p hp => (h'.heap p hp).trans (h.heap p hp),
    fun u hu => (h'.next u hu).trans (h.next u hu), h'.owned⟩

theorem only_delete (ho : Owned N c) (hkeys : ∀ k ∈ keys, k ∈ aliases t) : Only N t c (c.delete keys) := by
  refine ⟨fun k hk => if_neg fun hmem => hk (hkeys k hmem), fun _ _ => rfl, fun _ _ => rfl, ?_⟩
  intro k p hp
  simp only [delete] at hp
  split at hp
  · cases hp
  · exact ho k p hp

theorem only_set (ho : Owned N c) (ht : N t) (svc : Service) (now : Int) : Only N t c (c.set t svc now) := by
  unfold set
  split
  · exact .refl ho
  have hkeys : ∀ k ∈ setKeys t, k ∈ aliases t := fun k hk => by simp [aliases, hk]
  refine ⟨fun k hk => if_neg fun hmem => hk (hkeys k hmem), fun p hp => if_neg ?_, fun u hu => if_neg hu, ?_⟩
  · rintro rfl
    exact hp rfl
  · intro k p hp
    simp only at hp
    split at hp
    · rename_i hk
      cases hp
      exact ⟨ht, hkeys k hk⟩
    · exact ho k p hp

theorem load_some (h : c.load keys = some p) : ∃ k ∈ keys, c.entries k = some p := exists_of_findSome?_eq_some h

theorem getKeys_lower (h : hasUpper s = false) : getKeys s = s :: bare s := by simp [getKeys, h]

theorem only_getH3 (ho : Owned N c) (now : Int) : Only N t c (c.getH3 t now).1 := by
  unfold getH3
  split
  · exact .refl ho
  split
  · exact only_delete ho fun k hk => by
      simp only [aliases, getKeys, mem_append]
      exact .inl (.inl (.inl (.inl hk)))
  · split <;> exact .refl ho

/-! ## Two caches that agree on an origin -/

/-- Everything that belongs to `s` is the same. -/
structure Agree (s : List UInt8) (c d : AltSvcCache) : Prop where
  entries : ∀ k ∈ aliases s, c.entries k = d.entries k
  heap : ∀ n, c.heap (s, n) = d.heap (s, n)
  next : c.next s = d.next s

theorem Agree.load (h : Agree s c d) (hkeys : ∀ k ∈ keys, k ∈ aliases s) : c.load keys = d.load keys := by
  induction keys with
  | nil => rfl
  | cons k keys ih =>
    have htail := ih fun x hx => hkeys x (mem_cons_of_mem k hx)
    simp only [AltSvcCache.load, findSome?_cons] at htail ⊢
    rw [h.entries k (hkeys k mem_cons_self), htail]

theorem Agree.delete (h : Agree s c d) (keys : List (List UInt8)) : Agree s (c.delete keys) (d.delete keys) := by
  refine ⟨fun k hk => ?_, h.heap, h.next⟩
  simp only [AltSvcCache.delete, h.entries k hk]

theorem Agree.set (h : Agree s c d) (svc : Service) (now : Int) : Agree s (c.set s svc now) (d.set s svc now) := by
  unfold AltSvcCache.set
  split
  · exact h
  · refine ⟨fun k hk => ?_, fun n => ?_, ?_⟩
    · simp only [h.entries k hk, h.next]
    · simp only [h.heap n, h.next]
    · simp only [h.next]

theorem Agree.markFailed (h : Agree s c d) (backoff now : Int) :
    Agree s (c.markFailed s backoff now) (d.markFailed s backoff now) := by
  have hkeys : ∀ k ∈ markKeys s, k ∈ aliases s := fun k hk => by simp [aliases, hk]
  unfold AltSvcCache.markFailed
  rw [← h.load hkeys]
  split
  · exact h
  · refine ⟨h.entries, fun n => ?_, h.next⟩
    simp only [h.heap n]

/-- A call that sets nothing stores nothing, and changes no entry unless it marks one. -/
theorem call_quiet (h : ¬ e.Sets) :
    (∀ k, (c.call services e).entries k = c.entries k ∨ (c.call services e).entries k = none) ∧
    ((∀ b, e.op ≠ .markFailed b) → (c.call services e).heap = c.heap) := by
  have hdel : ∀ keys k, (c.delete keys).entries k = c.entries k ∨ (c.delete keys).entries k = none := by
    intro keys k
    simp only [delete]
    split
    · exact .inr rfl
    · exact .inl rfl
  unfold call
  split
  · rename_i raw hop
    unfold updateFromHeader
    split
    · exact ⟨fun _ => .inl rfl, fun _ => rfl⟩
    split
    · exact ⟨hdel _, fun _ => rfl⟩
    · rename_i hclears
      exact absurd (.inr ⟨raw, hop, by simpa using hclears⟩) h
  · rename_i svc hop
    exact absurd (.inl ⟨svc, hop⟩) h
  · rename_i b hop
    refine ⟨fun k => .inl ?_, fun hb => absurd hop (hb b)⟩
    unfold markFailed
    split <;> rfl
  · exact ⟨hdel _, fun _ => rfl⟩
  · unfold getH3
    split
    · exact ⟨fun _ => .inl rfl, fun _ => rfl⟩
    split
    · exact ⟨hdel _, fun _ => rfl⟩
    · split <;> exact ⟨fun _ => .inl rfl, fun _ => rfl⟩

theorem owned_new : Owned N {} := fun _ _ h => nomatch h

theorem after_append (es es' : List AltSvcCall) :
    after services (es ++ es') = es'.foldl (call services) (after services es) := foldl_append

theorem Agree.refl : Agree s c c := ⟨fun _ _ => rfl, fun _ => rfl, rfl⟩

/-! ## After a call that clears, and after one that marks -/

theorem mem_aliases (h : k ∈ s :: bare s) : k ∈ aliases s := by
  simp only [aliases, getKeys, mem_append]
  exact .inl (.inl (.inl (.inl h)))

/-- Nothing is stored under the keys that `GetH3` loads. -/
def Absent (s : List UInt8) (c : AltSvcCache) : Prop := ∀ k ∈ s :: bare s, c.entries k = none

theorem Absent.getH3 (h : Absent s c) (hs : hasUpper s = false) (now : Int) : (c.getH3 s now).2 = none := by
  have hload : c.load (getKeys s) = none := by
    rw [getKeys_lower hs]
    exact findSome?_eq_none_iff.2 h
  unfold AltSvcCache.getH3
  rw [hload]

theorem absent_clears (h : e.Clears) : Absent e.origin (c.call services e) := by
  have hclear : Absent e.origin (c.clear e.origin) := by
    intro k hk
    refine if_pos ?_
    simp only [clearKeys, mem_append]
    exact .inl hk
  rcases h with hop | ⟨raw, hop, hne, hraw⟩
  · rw [call, hop]
    exact hclear
  · rw [call, hop]
    simp only [updateFromHeader, hne, hraw, if_true, if_false]
    exact hclear

def Same (s : List UInt8) (c : AltSvcCache) : Prop := ∀ k ∈ bare s, c.entries k = c.entries s

theorem same_delete (hkeys : ∀ k ∈ s :: bare s, k ∈ keys) : Same s (c.delete keys) := by
  intro k hk
  simp [delete, hkeys k (mem_cons_of_mem s hk), hkeys s mem_cons_self]

theorem same_set (h : Same s c) (svc : Service) (now : Int) : Same s (c.set s svc now) := by
  unfold set
  split
  · exact h
  · intro k hk
    have hks : k ∈ setKeys s := by simp [setKeys, hk]
    have hss : s ∈ setKeys s := by simp [setKeys]
    simp [hks, hss]

theorem same_call (h : Same e.origin c) : Same e.origin (c.call services e) := by
  have hclear : Same e.origin (c.clear e.origin) := same_delete fun k hk => by
    simp only [clearKeys, mem_append]
    exact .inl hk
  unfold call
  split
  · rename_i raw _
    unfold updateFromHeader
    split
    · exact h
    split
    · exact hclear
    · clear hclear
      generalize services raw = svcs
      induction svcs generalizing c with
      | nil => exact h
      | cons svc svcs ih =>
        rw [foldl_cons]
        split
        · exact ih (same_set h svc e.now)
        · exact ih h
  · exact same_set h _ _
  · unfold markFailed
    split <;> exact h
  · exact hclear
  · unfold getH3
    split
    · exact h
    split
    · exact same_delete fun k hk => hk
    · split <;> exact h

/-- The entries that `GetH3` loads are marked until `u`. -/
def Suppressed (s : List UInt8) (u : Int) (c : AltSvcCache) : Prop :=
  ∀ k ∈ s :: bare s, ∀ p, c.entries k = some p → (c.heap p).failedUntil = some u

theorem Suppressed.getH3 {now : Int} (h : Suppressed s u c) (hs : hasUpper s = false) (hnow : now < u) :
    (c.getH3 s now).2 = none := by
  unfold AltSvcCache.getH3
  split
  · rfl
  · rename_i p hp
    rw [getKeys_lower hs] at hp
    obtain ⟨k, hk, hkp⟩ := load_some hp
    have hmarked := h k hk p hkp
    split
    · rfl
    · simp [hmarked, hnow]

theorem suppressed_markFailed (h : Same s c) (backoff now : Int) :
    Suppressed s (now + backoff) (c.markFailed s backoff now) := by
  have hentries : (c.markFailed s backoff now).entries = c.entries := by
    unfold markFailed
    split <;> rfl
  intro k hk p hp
  -- the key holds the entry that is loaded first, and that one is marked
  have hfirst : c.entries s = some p := by
    rw [hentries] at hp
    rcases mem_cons.1 hk with rfl | hk
    · exact hp
    · exact (h k hk).symm.trans hp
  have hload : c.load (markKeys s) = some p := by
    simp only [load, markKeys, cons_append, findSome?_cons, hfirst]
  simp [markFailed, hload]

section Separated

variable (hN : Separate N)
include hN

theorem only_markFailed (ho : Owned N c) (ht : N t) (backoff now : Int) :
    Only N t c (c.markFailed t backoff now) := by
  unfold markFailed
  split
  · exact .refl ho
  · rename_i p hp
    obtain ⟨k, hk, hkp⟩ := load_some hp
    have howner := ho.owner hN ht (show k ∈ aliases t by simp [aliases, hk]) hkp
    refine ⟨fun _ _ => rfl, fun q hq => if_neg ?_, fun _ _ => rfl, ho⟩
    rintro rfl
    exact hq howner

theorem only_call (ho : Owned N c) (he : N e.origin) : Only N e.origin c (c.call services e) := by
  have hclear : Only N e.origin c (c.clear e.origin) := only_delete ho fun k hk => by simp [aliases, hk]
  unfold call
  split
  · rename_i raw _
    unfold updateFromHeader
    split
    · exact .refl ho
    split
    · exact hclear
    · -- one service after the other
      generalize services raw = svcs
      induction svcs generalizing c with
      | nil => exact .refl ho
      | cons svc svcs ih =>
        rw [foldl_cons]
        split
        · have hset := only_set ho he svc e.now
          exact hset.trans (ih hset.owned (only_delete hset.owned fun k hk => by simp [aliases, hk]))
        · exact ih ho hclear
  · exact only_set ho he _ _
  · exact only_markFailed hN ho he _ _
  · exact hclear
  · exact only_getH3 ho e.now

theorem Agree.of_only (h : Agree s c d) (hs : N s) (ht : N t) (hne : originOf t ≠ originOf s)
    (ho : Only N t c c') : Agree s c' d := by
  have hts : s ≠ t := by
    rintro rfl
    exact hne rfl
  refine ⟨fun k hk => ?_, fun n => (ho.heap (s, n) hts).trans (h.heap n), (ho.next s hts).trans h.next⟩
  exact (ho.entries k (hN.apart s t hs ht (Ne.symm hne) k hk)).trans (h.entries k hk)

theorem Agree.loaded (h : Agree s c d) (ho : Owned N c) (hs : N s)
    (hkeys : ∀ k ∈ keys, k ∈ aliases s) (hp : c.load keys = some p) :
    c.heap p = d.heap p ∧ p.1 = s := by
  obtain ⟨k, hk, hkp⟩ := load_some hp
  have howner := ho.owner hN hs (hkeys k hk) hkp
  obtain ⟨t, n⟩ := p
  simp only at howner
  subst howner
  exact ⟨h.heap n, rfl⟩

theorem Agree.getH3 (h : Agree s c d) (ho : Owned N c) (hs : N s) (now : Int) :
    Agree s (c.getH3 s now).1 (d.getH3 s now).1 ∧ (c.getH3 s now).2 = (d.getH3 s now).2 := by
  have hkeys : ∀ k ∈ getKeys s, k ∈ aliases s := fun k hk => by simp [aliases, hk]
  unfold AltSvcCache.getH3
  rw [← h.load hkeys]
  split
  · exact ⟨h, rfl⟩
  · rename_i p hp
    rw [← (h.loaded hN ho hs hkeys hp).1]
    split
    · exact ⟨h.delete _, rfl⟩
    · split <;> exact ⟨h, rfl⟩

theorem Agree.call (h : Agree e.origin c d) (ho : Owned N c) (he : N e.origin) :
    Agree e.origin (c.call services e) (d.call services e) := by
  unfold AltSvcCache.call
  split
  · rename_i raw _
    unfold updateFromHeader
    split
    · exact h
    split
    · exact h.delete _
    · generalize services raw = svcs
      clear ho
      induction svcs generalizing c d with
      | nil => exact h
      | cons svc svcs ih =>
        rw [foldl_cons, foldl_cons]
        split
        · exact ih (h.set svc e.now)
        · exact ih h
  · exact h.set _ _
  · exact h.markFailed _ _
  · exact h.delete _
  · exact (h.getH3 hN ho he e.now).1

/-! ## Whole runs -/

theorem calls_keep (hes : ∀ e ∈ es, N e.origin)
    (hstep : ∀ e ∈ es, ∀ c, Owned N c → P c → P (c.call services e)) (ho : Owned N c) (h : P c) :
    Owned N (es.foldl (call services) c) ∧ P (es.foldl (call services) c) := by
  induction es generalizing c with
  | nil => exact ⟨ho, h⟩
  | cons e es ih =>
    have hcall : Owned N (c.call services e) := (only_call hN ho (hes e mem_cons_self)).owned
    refine ih (fun x hx => hes x (mem_cons_of_mem e hx)) ?_ hcall (hstep e mem_cons_self c ho h)
    intro x hx
    exact hstep x (mem_cons_of_mem e hx)

theorem owned_after (hes : ∀ e ∈ es, N e.origin) : Owned N (after services es) :=
  (calls_keep (P := fun _ => True) hN hes (fun _ _ _ _ _ => trivial) owned_new trivial).1

/-- The calls for other origins may be left out. -/
theorem agree_after (hs : N s) (hes : ∀ e ∈ es, N e.origin) :
    Agree s (after services es) (after services (es.filter fun e => originOf e.origin = originOf s)) := by
  induction es using List.reverseRecOn with
  | nil => exact .refl
  | append_singleton es e ih =>
    have hes' : ∀ x ∈ es, N x.origin := fun x hx => hes x (by simp [hx])
    have he := hes e (by simp)
    have ho : Owned N (after services es) := owned_after hN hes'
    have hagree := ih hes'
    rw [after_append, filter_append, filter_singleton]
    by_cases heq : originOf e.origin = originOf s
    · simp only [heq, decide_true, cond_true, after_append]
      obtain rfl := hN.once _ _ he hs heq
      exact hagree.call hN ho he
    · simp only [heq, decide_false, cond_false, append_nil]
      exact hagree.of_only hN hs he heq (only_call hN ho he)

/-- A property of what belongs to `s` is kept if the calls for `s` keep it. -/
theorem own_keep (hs : N s)
    (hP : ∀ c d, Owned N c → Agree s d c → P c → P d) (hes : ∀ e ∈ es, N e.origin)
    (hown : ∀ e ∈ es, e.origin = s → ∀ c, P c → P (c.call services e)) (ho : Owned N c) (h : P c) :
    P (es.foldl (call services) c) := by
  refine (calls_keep hN hes (fun e he c ho h => ?_) ho h).2
  by_cases heq : originOf e.origin = originOf s
  · exact hown e he (hN.once _ _ (hes e he) hs heq) c h
  · exact hP c _ ho (Agree.refl.of_only hN hs (hes e he) heq (only_call hN ho (hes e he))) h

theorem absent_after (hs : N s) (hes : ∀ e ∈ es, N e.origin)
    (hquiet : ∀ e ∈ es, e.origin = s → ¬ e.Sets) (ho : Owned N c) (h : Absent s c) :
    Absent s (es.foldl (call services) c) := by
  refine own_keep hN hs ?_ hes ?_ ho h
  · intro c d _ hagree h k hk
    exact (hagree.entries k (mem_aliases hk)).trans (h k hk)
  · intro e he heq c h k hk
    rcases (call_quiet (hquiet e he heq)).1 k with hkept | hnone
    · exact hkept.trans (h k hk)
    · exact hnone

theorem same_after (hs : N s) (hes : ∀ e ∈ es, N e.origin) : Same s (after services es) := by
  refine own_keep hN hs ?_ hes ?_ owned_new fun _ _ => rfl
  · intro c d _ hagree h k hk
    rw [hagree.entries k (mem_aliases (mem_cons_of_mem s hk)), hagree.entries s (mem_aliases mem_cons_self)]
    exact h k hk
  · intro e _ heq c h
    subst heq
    exact same_call h

theorem suppressed_after (hs : N s) (hes : ∀ e ∈ es, N e.origin)
    (hquiet : ∀ e ∈ es, e.origin = s → ¬ e.Sets ∧ ∀ b, e.op ≠ .markFailed b) (ho : Owned N c) (h : Suppressed s u c) :
    Suppressed s u (es.foldl (call services) c) := by
  refine own_keep hN hs ?_ hes ?_ ho h
  · intro c d ho hagree h k hk p hp
    rw [hagree.entries k (mem_aliases hk)] at hp
    obtain ⟨t, n⟩ := p
    obtain rfl : t = s := ho.owner hN hs (mem_aliases hk) hp
    rw [hagree.heap n]
    exact h k hk _ hp
  · intro e he heq c h k hk p hp
    obtain ⟨hset, hmark⟩ := hquiet e he heq
    obtain ⟨hentries, hheap⟩ := @call_quiet services c e hset
    rw [hheap hmark]
    rcases hentries k with hkept | hnone
    · exact h k hk p (hkept.symm.trans hp)
    · cases hnone.symm.trans hp

end Separated

/-- Calls that name each origin by one string, with keys of its own: what `GetH3` finds
comes from the calls for its origin alone, a call that clears holds until the origin
is set again, and one that marks for its time. -/
theorem origins_isolated (hN : Separate N) (hes : ∀ e ∈ es, N e.origin) (hs : N s) (now : Int) :
    ((after services es).getH3 s now).2 =
      ((after services (es.filter fun e => originOf e.origin = originOf s)).getH3 s now).2 ∧
    (∀ es₁ e es₂, es = es₁ ++ e :: es₂ → originOf e.origin = originOf s → e.Clears →
      (∀ x ∈ es₂, originOf x.origin = originOf s → ¬ x.Sets) → ((after services es).getH3 s now).2 = none) ∧
    ∀ es₁ e es₂ backoff, es = es₁ ++ e :: es₂ → originOf e.origin = originOf s → e.op = .markFailed backoff →
      (∀ x ∈ es₂, originOf x.origin = originOf s → ¬ x.Sets ∧ ∀ b, x.op ≠ .markFailed b) →
      now < e.now + backoff → ((after services es).getH3 s now).2 = none := by
  have howned : ∀ es₁ e, (∀ x ∈ es₁ ++ [e], N x.origin) → Owned N ((after services es₁).call services e) := by
    intro es₁ e hes1
    have ho : Owned N (after services (es₁ ++ [e])) := owned_after hN hes1
    rwa [after_append] at ho
  refine ⟨?_, ?_, ?_⟩
  · exact ((agree_after hN hs hes).getH3 hN (owned_after hN hes) hs now).2
  · rintro es₁ e es₂ rfl heq hclears hquiet
    have ho := howned es₁ e fun x hx => hes x (append_cons es₁ e es₂ ▸ mem_append_left es₂ hx)
    obtain rfl := hN.once _ _ (hes e (by simp)) hs heq
    refine Absent.getH3 ?_ (hN.lower _ hs) now
    rw [after_append, foldl_cons]
    apply absent_after hN hs (fun x hx => hes x (by simp [hx])) (fun x hx hxs => hquiet x hx (by rw [hxs])) ho
    exact absent_clears hclears
  · rintro es₁ e es₂ backoff rfl heq hop hquiet hnow
    have ho := howned es₁ e fun x hx => hes x (append_cons es₁ e es₂ ▸ mem_append_left es₂ hx)
    obtain rfl := hN.once _ _ (hes e (by simp)) hs heq
    refine Suppressed.getH3 ?_ (hN.lower _ hs) hnow
    rw [after_append, foldl_cons]
    apply suppressed_after hN hs (fun x hx => hes x (by simp [hx])) (fun x hx hxs => hquiet x hx (by rw [hxs])) ho
    rw [call, hop]
    exact suppressed_markFailed (same_after hN hs fun x hx => hes x (by simp [hx])) backoff e.now

/-- Two hosts with one origin each. -/
theorem two_hosts_isolated :
    let a := ascii "https://a.example"
    let b := ascii "https://b.example:8443"
    let svc : Service := ⟨ascii "h3", [], 443, 0⟩
    let es : List AltSvcCall := [⟨a, .set svc, 0⟩, ⟨b, .set svc, 1⟩, ⟨b, .clear, 2⟩]
    Separate (· ∈ [a, b]) ∧
    ((after (fun _ => []) es).getH3 a 3).2 =
      ((after (fun _ => []) (es.filter fun e => originOf e.origin = originOf a)).getH3 a 3).2 := by
  intro a b svc es
  have honce : ∀ s ∈ [a, b], ∀ t ∈ [a, b], originOf s = originOf t → s = t := by decide +kernel
  have hapart : ∀ s ∈ [a, b], ∀ t ∈ [a, b], originOf s ≠ originOf t → ∀ k ∈ aliases s, k ∉ aliases t := by
    decide +kernel
  have hN : Separate (· ∈ [a, b]) :=
    ⟨by decide +kernel, fun s t hs ht => honce s hs t ht, fun s t hs ht => hapart s hs t ht⟩
  have hes : ∀ e ∈ es, e.origin ∈ [a, b] := by simp [es]
  exact ⟨hN, (origins_isolated hN hes (s := a) mem_cons_self 3).1⟩

/-- A service set for `http://a:8080` is found for `https://a`. One set for `https://a`
stays after `https://a:443`, the same origin, was cleared or marked. -/
theorem origins_mixed :
    let svc : Service := ⟨ascii "h3", [], 443, 0⟩
    let set s : AltSvcCall := ⟨ascii s, .set svc, 0⟩
    let found es := ((after (fun _ => []) es).getH3 (ascii "https://a") 2).2
    (originOf (ascii "http://a:8080") ≠ originOf (ascii "https://a") ∧
      found [set "http://a:8080"] = some (ascii "a:443")) ∧
    originOf (ascii "https://a:443") = originOf (ascii "https://a") ∧
    found [set "https://a", ⟨ascii "https://a:443", .updateFromHeader (ascii "clear"), 1⟩] = some (ascii "a:443") ∧
    found [set "https://a", ⟨ascii "https://a:443", .markFailed 1000, 1⟩] = some (ascii "a:443") := by
  decide +kernel

end AltSvcCache

end Mach.Client
