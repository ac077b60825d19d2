import Mach.Client.Pool
import Mathlib.Data.List.Nodup
/-!
# The pool over whole runs

Every connection is in one place: idle, checked by a `Get`, held by a caller, or
closed. The count of a host record is right as long as records are made only when
no connection of the address is out. After `Close` this is up to the callers: a
connection that is still out then is missing from the count of the next record.
-/

namespace Mach.Client

open Lib Assoc List Option

variable {κ A α : Type} [DecidableEq A] [DecidableEq α]

/-- The connection a `Get` holds while it checks it. -/
def GetPhase.conns : GetPhase α → List α
  | .checking c => [c]
  | .dialing => []

/-- `acquire` takes from the idle connections what it closes and checks, and keeps
the count in step. -/
theorem HostPool.acquire_spec (max : Int) (expired : α → Bool) (hp : HostPool α) :
    let r := hp.acquire max expired
    (∀ c, hp.conns.count c = r.2.1.count c + (r.2.2.toList.flatMap GetPhase.conns).count c + r.1.conns.count c) ∧
    r.1.count = hp.count - hp.conns.length + r.1.conns.length + r.2.2.toList.length ∧
    (0 < max → hp.count ≤ max → r.1.count ≤ max) := by
  have hsplit := takeWhile_append_dropWhile (p := expired) (l := hp.conns)
  have hlen := congrArg List.length hsplit
  have hcount := fun c => congrArg (List.count c) hsplit
  simp only [length_append, count_append] at hlen hcount
  unfold acquire
  cases hd : hp.conns.dropWhile expired with
  | cons c cs =>
    simp only [hd, length_cons] at hlen hcount
    refine ⟨fun x => ?_, ?_, fun _ hle => ?_⟩
    · have := hcount x
      rw [count_cons] at this
      simp only [toList_some, flatMap_cons, flatMap_nil, append_nil, GetPhase.conns,
        count_singleton]
      omega
    · simp only [toList_some, length_singleton]
      omega
    · dsimp only
      omega
  | nil =>
    simp only [hd, length_nil, count_nil] at hlen hcount
    dsimp only
    split
    · exact ⟨fun x => by simpa using (hcount x).symm, by simp; omega, fun _ hle => by dsimp only; omega⟩
    · exact ⟨fun x => by simpa [GetPhase.conns] using (hcount x).symm, by simp; omega,
        fun _ hle => by dsimp only; omega⟩

omit [DecidableEq α] in
theorem HostPool.acquire_empty (max : Int) (expired : α → Bool) :
    ({} : HostPool α).acquire max expired = (⟨[], 1⟩, [], some .dialing) := by
  have : ¬ (0 < max ∧ max ≤ 0) := by omega
  simp [acquire, this]

namespace PoolManager

open HostPool

variable {s : PoolManager κ A α} {closed : List α}

/-! ## The records -/

def idleConns (s : PoolManager κ A α) : List α := s.pools.flatMap (·.2.conns)

omit [DecidableEq α] in
theorem find_setRecord (s : PoolManager κ A α) (born : Nat) (addr a : A) (hp : HostPool α) :
    find a (s.setRecord born addr hp).pools = if born = s.closes ∧ a = addr then some hp else find a s.pools := by
  unfold setRecord
  by_cases hb : born = s.closes
  · rw [if_pos hb, find_put]
    simp [hb]
  · rw [if_neg hb, if_neg fun h => hb h.1]

theorem count_setRecord (hd : Distinct s.pools) {born : Nat} {addr : A} {hp : HostPool α}
    (hnil : born ≠ s.closes → hp.conns = []) (c : α) :
    (s.setRecord born addr hp).idleConns.count c + (s.record born addr).conns.count c =
      s.idleConns.count c + hp.conns.count c := by
  unfold setRecord record idleConns
  by_cases hb : born = s.closes
  · simp only [if_pos hb, put, flatMap_cons, count_append]
    cases hf : find addr s.pools with
    | none =>
      rw [erase_of_find_none hf]
      simp
      omega
    | some hp0 =>
      have hperm := ((perm_of_find hd hf).flatMap_right fun p => p.2.conns).count_eq c
      simp only [flatMap_cons, count_append] at hperm
      simp only [getD_some]
      omega
  · simp [if_neg hb, hnil hb]

section Fields

omit [DecidableEq α]

variable (s : PoolManager κ A α) (born : Nat) (addr : A) (hp : HostPool α)

@[simp] theorem setRecord_closes : (s.setRecord born addr hp).closes = s.closes := by
  unfold setRecord; split <;> rfl

@[simp] theorem setRecord_max : (s.setRecord born addr hp).maxConnsPerHost = s.maxConnsPerHost := by
  unfold setRecord; split <;> rfl

@[simp] theorem setRecord_held : (s.setRecord born addr hp).held = s.held := by
  unfold setRecord; split <;> rfl

@[simp] theorem setRecord_dialed : (s.setRecord born addr hp).dialed = s.dialed := by
  unfold setRecord; split <;> rfl

theorem distinct_setRecord (h : Distinct s.pools) : Distinct (s.setRecord born addr hp).pools := by
  unfold setRecord
  split
  · exact distinct_put _ h
  · exact h

end Fields

variable {gets : List (Getting κ A α)} {held : List (Held κ A α)} {closed' : List α}

/-! ## The invariant -/

/-- Each connection there has been is in one place, a `Get` refers to the record of
its address if there is one, and the record's count is right. -/
structure Counted (s : PoolManager κ A α) (closed : List α) : Prop where
  distinct : Distinct s.pools
  places : ∀ c, s.idleConns.count c + (s.gets.flatMap (·.phase.conns)).count c + (s.held.map (·.conn)).count c +
    closed.count c = s.dialed.count c
  fresh : s.dialed.Nodup
  born : ∀ g ∈ s.gets, g.born ≤ s.closes ∧ (g.born = s.closes ↔ (find g.addr s.pools).isSome)
  count : ∀ addr hp, find addr s.pools = some hp → hp.count = ((hp.conns.length + s.out addr : Nat) : Int)
  limit : 0 < s.maxConnsPerHost → ∀ addr, ((s.idle addr + s.out addr : Nat) : Int) ≤ s.maxConnsPerHost

theorem counted_new (max : Int) : Counted ({ maxConnsPerHost := max } : PoolManager κ A α) [] where
  distinct := nodup_nil
  places c := by simp [idleConns]
  fresh := nodup_nil
  born := nofun
  count := nofun
  limit hmax addr := by simpa [idle, out, find] using Int.le_of_lt hmax

theorem Counted.respected (h : Counted s closed) : s.Respected closed := by
  have hone : ∀ c, s.dialed.count c ≤ 1 := fun c => nodup_iff_count_le_one.1 h.fresh c
  refine ⟨?_, ?_, ?_, h.count, h.limit⟩
  · refine nodup_iff_count_le_one.2 fun c => ?_
    have := h.places c
    have := hone c
    omega
  · intro x hx hcl
    have hpos := count_pos_iff.2 hcl
    have hheld := count_pos_iff.2 (mem_map_of_mem (f := (·.conn)) hx)
    have := h.places x.conn
    have := hone x.conn
    omega
  · refine nodup_iff_count_le_one.2 fun c => ?_
    have := h.places c
    have := hone c
    omega

/-- The calls and connections of an address that are out, among those given. -/
def outOf (gets : List (Getting κ A α)) (held : List (Held κ A α)) (a : A) : Nat :=
  gets.countP (·.addr = a) + held.countP (·.addr = a)

omit [DecidableEq α] in
theorem outOf_self (a : A) : outOf s.gets s.held a = s.out a := rfl

/-- Calls go on and connections change hands, while the records stay. -/
theorem counted_move (h : Counted s closed) {dialed : List α}
    (hplaces : ∀ c, s.idleConns.count c + (gets.flatMap (·.phase.conns)).count c + (held.map (·.conn)).count c +
      closed'.count c = dialed.count c)
    (hfresh : dialed.Nodup) (hgets : ∀ g ∈ gets, g ∈ s.gets) (hle : ∀ a, outOf gets held a ≤ s.out a)
    (hout : ∀ a, (find a s.pools).isSome → outOf gets held a = s.out a) :
    Counted { s with gets, held, dialed } closed' := by
  refine ⟨h.distinct, hplaces, hfresh, fun g hg => h.born g (hgets g hg), fun a hp hf => ?_, fun hpos a => ?_⟩
  · rw [show PoolManager.out _ a = outOf gets held a from rfl, hout a (by simp [hf])]
    exact h.count a hp hf
  · have := h.limit hpos a
    have := hle a
    rw [show PoolManager.out _ a = outOf gets held a from rfl]
    simp only [idle] at *
    omega

/-- A record is changed or made, and the calls and connections of its address with
it. A call whose record was dropped finds no record of its address in the map. -/
theorem counted_set (h : Counted s closed) {born : Nat} {addr : A} {hp : HostPool α}
    (hdropped : born ≠ s.closes → hp.conns = [] ∧ find addr s.pools = none)
    (hplaces : ∀ c, (s.record born addr).conns.count c + (s.gets.flatMap (·.phase.conns)).count c +
        (s.held.map (·.conn)).count c + closed.count c =
      hp.conns.count c + (gets.flatMap (·.phase.conns)).count c + (held.map (·.conn)).count c + closed'.count c)
    (hborn : ∀ g ∈ gets, g.born ≤ s.closes ∧
      (g.born = s.closes ↔ (born = s.closes ∧ g.addr = addr) ∨ (find g.addr s.pools).isSome))
    (hout : ∀ a, a ≠ addr → outOf gets held a = s.out a)
    (hcount : born = s.closes → hp.count = ((hp.conns.length + outOf gets held addr : Nat) : Int))
    (hlimit : 0 < s.maxConnsPerHost → ((hp.conns.length + outOf gets held addr : Nat) : Int) ≤ s.maxConnsPerHost) :
    Counted { s.setRecord born addr hp with gets, held } closed' := by
  have hfind := fun a => find_setRecord s born addr a hp
  refine ⟨distinct_setRecord s born addr hp h.distinct, fun c => ?_, by simpa using h.fresh, fun g hg => ?_,
    fun a hp' hf => ?_, fun hpos a => ?_⟩
  · have h1 := h.places c
    have h2 := @count_setRecord _ _ _ _ _ s h.distinct born addr hp (fun hb => (hdropped hb).1) c
    have h3 := hplaces c
    simp only [idleConns, setRecord_dialed] at h1 h2 ⊢
    omega
  · obtain ⟨hle, hiff⟩ := hborn g hg
    simp only [hfind, setRecord_closes]
    refine ⟨hle, hiff.trans ?_⟩
    split <;> simp [*]
  · simp only [hfind] at hf
    rw [show PoolManager.out _ a = outOf gets held a from rfl]
    split at hf
    · rename_i hhere
      cases hf
      rw [hhere.2]
      exact hcount hhere.1
    · rename_i hother
      have hne : a ≠ addr := by
        rintro rfl
        have hb : born ≠ s.closes := fun hb => hother ⟨hb, rfl⟩
        rw [(hdropped hb).2] at hf
        cases hf
      rw [hout a hne]
      exact h.count a hp' hf
  · simp only [setRecord_max] at hpos ⊢
    have hold := h.limit hpos a
    rw [show PoolManager.out _ a = outOf gets held a from rfl]
    simp only [idle, hfind] at hold ⊢
    by_cases ha : a = addr
    · subst ha
      have := hlimit hpos
      by_cases hb : born = s.closes
      · simpa [hb] using this
      · obtain ⟨hnil, hf⟩ := hdropped hb
        simpa [hb, hnil, hf] using this
    · rw [hout a ha]
      simpa [ha] using hold

/-! ## One step -/

omit [DecidableEq α] in
theorem out_pos {g : Getting κ A α} (hg : g ∈ s.gets) : 0 < s.out g.addr := by
  have : 0 < s.gets.countP (·.addr = g.addr) := countP_pos_iff.2 ⟨g, hg, by simp⟩
  simp only [out]
  omega

/-- `Get` looks for a connection, with a record that its call may make or use. -/
theorem counted_acquire (h : Counted s closed) (caller : κ) {born : Nat} {addr : A} (expired : α → Bool)
    (hcur : born = s.closes → find addr s.pools = none → s.out addr = 0)
    (hold : born ≠ s.closes → born < s.closes ∧ find addr s.pools = none ∧
      (0 < s.maxConnsPerHost → ((s.out addr + 1 : Nat) : Int) ≤ s.maxConnsPerHost)) :
    Counted (s.acquire caller born addr expired).1 (closed ++ (s.acquire caller born addr expired).2) := by
  obtain ⟨hconns, hcount, hmax⟩ := (s.record born addr).acquire_spec s.maxConnsPerHost expired
  simp only [acquire]
  generalize (s.record born addr).acquire s.maxConnsPerHost expired = r at hconns hcount hmax ⊢
  obtain ⟨hp, evicted, phase⟩ := r
  simp only at hconns hcount hmax ⊢
  have hout : ∀ a, outOf ((phase.map fun p => (⟨caller, addr, born, p⟩ : Getting κ A α)).toList ++ s.gets) s.held a =
      s.out a + if a = addr then phase.toList.length else 0 := by
    intro a
    simp only [outOf, out, countP_append]
    cases phase with
    | none => simp
    | some p => by_cases ha : addr = a <;> simp [ha, eq_comm]; omega
  have hdropped : born ≠ s.closes → hp.conns = [] ∧ find addr s.pools = none := by
    intro hb
    refine ⟨eq_nil_iff_forall_not_mem.2 fun c hc => ?_, (hold hb).2.1⟩
    have := hconns c
    have hpos := count_pos_iff.2 hc
    simp only [record, if_neg hb, count_nil] at this
    omega
  -- the record after the step, if it is the one in the map
  have hrec : born = s.closes → hp.count = ((hp.conns.length + (s.out addr + phase.toList.length) : Nat) : Int) ∧
      (0 < s.maxConnsPerHost → hp.count ≤ s.maxConnsPerHost) := by
    intro hb
    cases hf : find addr s.pools with
    | none =>
      have h0 := hcur hb hf
      simp only [record, if_pos hb, hf, getD_none, length_nil] at hcount hmax
      exact ⟨by omega, fun hpos => hmax hpos (Int.le_of_lt hpos)⟩
    | some hp0 =>
      have h0 := h.count addr hp0 hf
      simp only [record, if_pos hb, hf, getD_some] at hcount hmax
      refine ⟨by omega, fun hpos => hmax hpos ?_⟩
      have := h.limit hpos addr
      simp only [idle, hf, map_some, getD_some] at this
      omega
  refine counted_set h hdropped (fun c => ?_) (fun g hg => ?_) (fun a ha => ?_) (fun hb => ?_) fun hpos => ?_
  all_goals try simp only [setRecord_held]
  · have h3 := hconns c
    have h4 : ((phase.map fun p => (⟨caller, addr, born, p⟩ : Getting κ A α)).toList.flatMap (·.phase.conns)).count c =
        (phase.toList.flatMap GetPhase.conns).count c := by cases phase <;> rfl
    simp only [flatMap_append, count_append, h4]
    omega
  · rcases mem_append.1 hg with hg | hg
    · -- the call itself
      cases phase with
      | none => cases hg
      | some p =>
        obtain rfl := mem_singleton.1 hg
        by_cases hb : born = s.closes
        · simp [hb]
        · obtain ⟨hlt, hf, -⟩ := hold hb
          simp [hb, hf, Nat.le_of_lt hlt]
    · obtain ⟨hle, hiff⟩ := h.born g hg
      refine ⟨hle, hiff.trans ⟨.inr, ?_⟩⟩
      rintro (⟨hb, ha⟩ | hsome)
      · -- a call for the address is out, so its record was there
        refine isSome_iff_ne_none.2 fun hf => ?_
        have hpos := out_pos hg
        rw [ha] at hpos hf
        rw [hcur hb hf] at hpos
        cases hpos
      · exact hsome
  · rw [hout, if_neg ha, Nat.add_zero]
  · rw [hout, if_pos rfl]
    exact (hrec hb).1
  · rw [hout, if_pos rfl]
    by_cases hb : born = s.closes
    · have := hrec hb
      omega
    · have h1 := (hold hb).2.2 hpos
      rw [(hdropped hb).1]
      cases phase <;> simp at h1 ⊢ <;> omega

theorem counted_close (h : Counted s closed) :
    Counted { s with
      pools := []
      closes := s.closes + 1
      dropped := fun k a => if k = s.closes then 0 else s.dropped k a } (closed ++ s.pools.flatMap (·.2.conns)) := by
  refine ⟨nodup_nil, fun c => ?_, h.fresh, fun g hg => ?_, nofun, fun hpos a => ?_⟩
  · have := h.places c
    simp only [idleConns, flatMap_nil, count_nil, count_append] at *
    omega
  · obtain ⟨hle, -⟩ := h.born g hg
    exact ⟨Nat.le_succ_of_le hle, iff_of_false (Nat.ne_of_lt (Nat.lt_succ_of_le hle)) nofun⟩
  · have := h.limit hpos a
    simp only [idle, find, out, map_none, getD_none] at *
    omega

section Callers

variable [DecidableEq κ] {g : Getting κ A α} {x : Held κ A α}

theorem out_erase_get (hg : g ∈ s.gets) (held : List (Held κ A α)) (a : A) :
    outOf s.gets held a = outOf (s.gets.erase g) held a + if g.addr = a then 1 else 0 := by
  rw [outOf, (perm_cons_erase hg).countP_eq, countP_cons, outOf]
  simp only [decide_eq_true_eq]
  omega

theorem out_erase_held (hx : x ∈ s.held) (a : A) :
    s.out a = outOf s.gets (s.held.erase x) a + if x.addr = a then 1 else 0 := by
  rw [out, (perm_cons_erase hx).countP_eq, countP_cons, outOf]
  simp only [decide_eq_true_eq]
  omega

section Counting

variable (h : Counted s closed)
include h

/-- A `Get` gives up: the connection it may have checked is closed. -/
theorem counted_uncount (hg : g ∈ s.gets) :
    Counted (s.uncount g) (closed ++ g.phase.conns) := by
  have hout := out_erase_get hg s.held
  have hborn := h.born g hg
  simp only [uncount]
  refine counted_set h (fun hb => ?_) (fun c => ?_) (fun g' hg' => ?_) (fun a ha => ?_) (fun hb => ?_) fun hpos => ?_
  all_goals try simp only [setRecord_held]
  · have hf : find g.addr s.pools = none := by simpa using mt hborn.2.2 hb
    exact ⟨by simp [record, hb], hf⟩
  · have h3 := ((perm_cons_erase hg).flatMap_right fun g => g.phase.conns).count_eq c
    simp only [flatMap_cons, count_append] at h3 ⊢
    omega
  · obtain ⟨hle, hiff⟩ := h.born g' (mem_of_mem_erase hg')
    refine ⟨hle, hiff.trans ⟨.inr, ?_⟩⟩
    rintro (⟨hb, ha⟩ | hsome)
    · rw [ha]
      exact hborn.2.1 hb
    · exact hsome
  · have := hout a
    rw [if_neg (Ne.symm ha)] at this
    exact this.symm
  · obtain ⟨hp0, hf⟩ := isSome_iff_exists.1 (hborn.2.1 hb)
    have hn := h.count g.addr hp0 hf
    have := hout g.addr
    rw [if_pos rfl, outOf_self] at this
    simp only [record, if_pos hb, hf, getD_some]
    omega
  · have hn := h.limit hpos g.addr
    have := hout g.addr
    rw [if_pos rfl, outOf_self] at this
    by_cases hb : g.born = s.closes
    · obtain ⟨hp0, hf⟩ := isSome_iff_exists.1 (hborn.2.1 hb)
      simp only [record, if_pos hb, hf, getD_some]
      simp only [idle, hf, map_some, getD_some] at hn
      omega
    · simp only [record, if_neg hb, length_nil]
      omega

/-- A `Get` returns a connection, the one it has checked or a new one. -/
theorem counted_handed (hg : g ∈ s.gets) {c : α} {dialed : List α}
    (hfresh : dialed.Nodup) (hc : ∀ x, [c].count x + s.dialed.count x = g.phase.conns.count x + dialed.count x) :
    Counted { s with gets := s.gets.erase g, held := ⟨g.caller, g.addr, c⟩ :: s.held, dialed } closed := by
  have hout : ∀ a, outOf (s.gets.erase g) (⟨g.caller, g.addr, c⟩ :: s.held) a = s.out a := by
    intro a
    have := out_erase_get hg s.held a
    simp only [outOf, out, countP_cons, decide_eq_true_eq] at *
    omega
  refine counted_move h (fun x => ?_) hfresh (fun _ hg' => mem_of_mem_erase hg') (fun a => Nat.le_of_eq (hout a))
    fun a _ => hout a
  have h1 := h.places x
  have h2 := ((perm_cons_erase hg).flatMap_right fun g => g.phase.conns).count_eq x
  have h3 := hc x
  simp only [flatMap_cons, count_append, map_cons, count_cons, count_nil] at *
  omega

/-- The checked connection was not healthy: it is closed, and the loop goes on. -/
theorem counted_unhealthy (hg : g ∈ s.gets) (expired : α → Bool) :
    let r := (s.uncount g).acquire g.caller g.born g.addr expired
    Counted r.1 (closed ++ g.phase.conns ++ r.2) := by
  obtain ⟨hle, hiff⟩ := h.born g hg
  have hcloses : (s.uncount g).closes = s.closes := setRecord_closes _ _ _ _
  have hfind : ∀ hp, find g.addr (s.setRecord g.born g.addr hp).pools =
      if g.born = s.closes then some hp else find g.addr s.pools := by
    intro hp
    simp [find_setRecord]
  refine counted_acquire (counted_uncount h hg) g.caller expired (fun hb hf => ?_) fun hb => ?_
  · rw [hcloses] at hb
    simp only [uncount, hfind, if_pos hb] at hf
    cases hf
  · rw [hcloses] at hb ⊢
    refine ⟨Nat.lt_of_le_of_ne hle hb, ?_, fun hpos => ?_⟩
    · simp only [uncount, hfind, if_neg hb]
      simpa using mt hiff.2 hb
    · have hout := out_erase_get hg s.held g.addr
      rw [if_pos rfl, outOf_self] at hout
      simp only [uncount, setRecord_max] at hpos ⊢
      have := h.limit hpos g.addr
      simp only [out, outOf, setRecord_held] at *
      omega

/-- A caller gives a connection back and its record, if there is one, is changed to
`hp`: the connection is idle then, or not counted any more and closed. -/
theorem counted_return (hx : x ∈ s.held) {hp0 : HostPool α}
    (hf : find x.addr s.pools = some hp0) {hp : HostPool α} {o : List α}
    (hplaces : ∀ c, hp0.conns.count c + [x.conn].count c = hp.conns.count c + o.count c)
    (hcount : hp.count + hp0.conns.length + 1 = hp0.count + hp.conns.length)
    (hlen : hp.conns.length ≤ hp0.conns.length + 1) :
    Counted { s with held := s.held.erase x, pools := Assoc.put x.addr hp s.pools } (closed ++ o) := by
  have hout := out_erase_held hx
  have hset : ({ s with held := s.held.erase x, pools := Assoc.put x.addr hp s.pools } : PoolManager κ A α) =
      { s.setRecord s.closes x.addr hp with gets := s.gets, held := s.held.erase x } := by
    simp [setRecord]
  rw [hset]
  have hn := h.count x.addr hp0 hf
  have hx' := hout x.addr
  rw [if_pos rfl] at hx'
  refine counted_set h (fun hb => absurd rfl hb) (fun c => ?_) (fun g hg => ?_) (fun a ha => ?_)
    (fun _ => by omega) fun hpos => ?_
  · have h1 := hplaces c
    have h2 := ((perm_cons_erase hx).map (·.conn)).count_eq c
    simp only [record, if_true, hf, getD_some, map_cons, count_cons, count_append,
      count_nil] at *
    omega
  · obtain ⟨hle, hiff⟩ := h.born g hg
    refine ⟨hle, hiff.trans ⟨.inr, ?_⟩⟩
    rintro (⟨-, ha⟩ | hsome)
    · rw [ha, hf]
      rfl
    · exact hsome
  · rw [hout a, if_neg (Ne.symm ha), Nat.add_zero]
  · have := h.limit hpos x.addr
    simp only [idle, hf, map_some, getD_some] at this
    omega

theorem counted_lost (hx : x ∈ s.held) (hf : find x.addr s.pools = none) :
    Counted { s with held := s.held.erase x } (closed ++ [x.conn]) := by
  have hout := out_erase_held hx
  refine counted_move h (fun c => ?_) h.fresh (fun _ hg => hg) (fun a => ?_) (fun a ha => ?_)
  · have h1 := h.places c
    have h2 := ((perm_cons_erase hx).map (·.conn)).count_eq c
    simp only [map_cons, count_cons, count_append, count_nil] at *
    omega
  · have := hout a
    omega
  · have hne : x.addr ≠ a := by
      rintro rfl
      rw [hf] at ha
      cases ha
    rw [hout a, if_neg hne, Nat.add_zero]

/-- Every step that makes no record too early keeps the books. -/
theorem counted_step {s' : PoolManager κ A α} {op : PoolOp κ A α} {o : List α}
    (hfresh : s.MakesFresh op) (hstep : s.step op = some (s', o)) : Counted s' (closed ++ o) := by
  cases op with
  | get caller addr expired =>
    cases hstep
    exact counted_acquire h caller expired (fun _ hf => hfresh hf) fun hb => absurd rfl hb
  | checked g healthy expired =>
    simp only [step] at hstep
    split at hstep
    · rename_i c hc
      split at hstep
      · cases hstep
      rename_i hg
      have hg := Decidable.of_not_not hg
      split at hstep
      · cases hstep
        rw [append_nil]
        exact counted_handed h hg h.fresh fun x => by rw [hc]; rfl
      · cases hstep
        have := counted_unhealthy h hg expired
        simpa [hc, GetPhase.conns, append_assoc] using this
    · cases hstep
  | dialed g result =>
    simp only [step] at hstep
    split at hstep
    · cases hstep
    rename_i hg
    simp only [not_or, Decidable.not_not] at hg
    obtain ⟨hg, hc⟩ := hg
    split at hstep
    · rename_i c
      split at hstep
      · cases hstep
      rename_i hnew
      cases hstep
      rw [append_nil]
      refine counted_handed h hg (nodup_cons.2 ⟨hnew, h.fresh⟩) fun x => ?_
      simp only [hc, GetPhase.conns, count_cons, count_nil]
      omega
    · cases hstep
      simpa [hc, GetPhase.conns] using counted_uncount h hg
  | put x healthy =>
    simp only [step] at hstep
    split at hstep
    · cases hstep
    rename_i hx
    have hx := Decidable.of_not_not hx
    split at hstep
    · rename_i hf
      cases hstep
      exact counted_lost h hx hf
    · rename_i hp hf
      split at hstep
      · cases hstep
        exact counted_return h hx hf (fun c => by simp [count_cons]) (by simp; omega) (by simp)
      · cases hstep
        exact counted_return h hx hf (fun c => rfl) (by dsimp only; omega) (Nat.le_succ _)
  | discard x =>
    simp only [step] at hstep
    split at hstep
    · cases hstep
    rename_i hx
    have hx := Decidable.of_not_not hx
    split at hstep
    · rename_i hf
      cases hstep
      exact counted_lost h hx hf
    · rename_i hp hf
      have hn := h.count x.addr hp hf
      have hout := out_erase_held hx x.addr
      rw [if_pos rfl] at hout
      rw [if_pos (by omega)] at hstep
      cases hstep
      exact counted_return h hx hf (fun c => rfl) (by dsimp only; omega) (Nat.le_succ _)
  | close =>
    cases hstep
    exact counted_close h

end Counting

/-- In every run of callers, the pool respects its limit and shares no connection
exactly if no `Get` makes a record while connections of its address are out. -/
theorem pool_respected_iff (max : Int) (ops : List (PoolOp κ A α)) :
    Always step Respected ({ maxConnsPerHost := max } : PoolManager κ A α) ops ↔
      Along step MakesFresh ({ maxConnsPerHost := max } : PoolManager κ A α) ops := by
  refine always_iff_along Counted (fun s closed op s' o h hfresh hstep => counted_step h hfresh hstep)
    (fun s closed h => h.respected) ?_ (counted_new max)
  intro s closed op s' o h hstep hresp
  cases op with
  | get caller addr expired =>
    intro hf
    cases hstep
    -- the new record counts the connection that is dialed and no other
    have hcount := hresp.count addr ⟨[], 1⟩ (by simp [find_setRecord, record, hf, acquire_empty])
    simp only [record, if_true, hf, getD_none, acquire_empty, out, setRecord_held] at hcount ⊢
    simp at hcount
    omega
  | _ => trivial

/-- A limit of one connection, and a caller that holds one while the pool is closed:
the next `Get` dials a second, and the new record counts only that one. -/
theorem closed_pool_exceeds : (run step ({ maxConnsPerHost := 1 } : PoolManager Nat String Nat)
      [.get 0 "a:443" fun _ => false, .dialed ⟨0, "a:443", 0, .dialing⟩ (some 1), .close,
       .get 1 "a:443" fun _ => false, .dialed ⟨1, "a:443", 1, .dialing⟩ (some 2)]).map
      (fun r => (r.1.out "a:443", (find "a:443" r.1.pools).map (·.count), r.2)) = some (2, some 1, []) := by
  decide +kernel

end Callers

end PoolManager

end Mach.Client
