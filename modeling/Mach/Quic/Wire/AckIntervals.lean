import Mach.Quic.Wire.Partition
/-!
# The packets an ACK frame acknowledges

An ACK frame gives the largest packet number and then, downwards, how long each
run of acknowledged packets is and how wide the gap to the next one. The parser
checks the first run against the largest packet number and no other, so that a
frame it accepts may go below zero.
-/

namespace Mach.Quic.Wire

open Lib Parser

/-- The packet numbers from `smallest` to `largest`. -/
structure Run where
  smallest : Nat
  largest : Nat
  deriving DecidableEq, Repr

namespace AckFrame

/-- The runs below `smallest`; `none` where they go below zero. -/
def runsBelow : Nat → List AckRange → Option (List Run)
  | _, [] => some []
  | smallest, r :: rs =>
    if smallest < r.gap + 2 then none
    else
      let largest := smallest - r.gap - 2
      if largest < r.length then none
      else (runsBelow (largest - r.length) rs).map (⟨largest - r.length, largest⟩ :: ·)

/-- The runs of packets that are acknowledged; `none` where they go below zero. -/
def runs (a : AckFrame) : Option (List Run) :=
  if a.largestAcked < a.firstAckRange then none
  else
    let smallest := a.largestAcked - a.firstAckRange
    (runsBelow smallest a.ranges).map (⟨smallest, a.largestAcked⟩ :: ·)

/-- How many packet numbers the ranges take, each with the gap above it. -/
def span (rs : List AckRange) : Nat := (rs.map fun r => r.gap + 2 + r.length).sum

@[simp] theorem span_cons (r : AckRange) (rs : List AckRange) : span (r :: rs) = r.gap + 2 + r.length + span rs := rfl

/-- The frame denotes packet numbers: its runs are not empty, stay above zero, and
each is below those before it, with a gap in between. -/
def Denotes (a : AckFrame) : Prop :=
  ∃ rs, a.runs = some rs ∧ (∀ r ∈ rs, r.smallest ≤ r.largest) ∧ rs.Pairwise fun r s => s.largest + 1 < r.smallest

theorem runsBelow_eq_none {smallest : Nat} {rs : List AckRange}
    (h : smallest < span rs) : runsBelow smallest rs = none := by
  induction rs generalizing smallest with
  | nil => exact absurd h (Nat.not_lt_zero _)
  | cons r rs ih =>
    rw [span_cons] at h
    unfold runsBelow
    split
    · rfl
    simp only
    split
    · rfl
    · rw [ih (by omega)]
      rfl

theorem runsBelow_spec {smallest : Nat} {rs : List AckRange} (h : span rs ≤ smallest) :
    ∃ runs, runsBelow smallest rs = some runs ∧ (∀ r ∈ runs, r.smallest ≤ r.largest ∧ r.largest + 1 < smallest) ∧
      runs.Pairwise fun r s => s.largest + 1 < r.smallest := by
  induction rs generalizing smallest with
  | nil => exact ⟨[], rfl, nofun, .nil⟩
  | cons r rs ih =>
    rw [span_cons] at h
    have hrest : span rs ≤ smallest - r.gap - 2 - r.length := by omega
    obtain ⟨runs, hruns, hbelow, hpair⟩ := ih hrest
    refine ⟨⟨smallest - r.gap - 2 - r.length, smallest - r.gap - 2⟩ :: runs, ?_, ?_, .cons (fun s hs => (hbelow s hs).2) hpair⟩
    · unfold runsBelow
      rw [if_neg (by omega)]
      simp only
      rw [if_neg (by omega), hruns]
      rfl
    · refine List.forall_mem_cons.2 ⟨⟨by simp, by simp only; omega⟩, fun s hs => ?_⟩
      have := hbelow s hs
      omega

theorem denotes_iff {a : AckFrame} (hfirst : a.firstAckRange ≤ a.largestAcked) :
    a.Denotes ↔ span a.ranges ≤ a.largestAcked - a.firstAckRange := by
  have hruns : a.runs = (runsBelow (a.largestAcked - a.firstAckRange) a.ranges).map
      (⟨a.largestAcked - a.firstAckRange, a.largestAcked⟩ :: ·) := by
    unfold runs
    rw [if_neg (Nat.not_lt.2 hfirst)]
  constructor
  · rintro ⟨rs, hrs, -⟩
    refine Nat.le_of_not_lt fun h => ?_
    rw [hruns, runsBelow_eq_none h] at hrs
    cases hrs
  · intro h
    obtain ⟨rs, hrs, hbelow, hpair⟩ := runsBelow_spec h
    refine ⟨_, by rw [hruns, hrs]; rfl, ?_, .cons (fun s hs => (hbelow s hs).2) hpair⟩
    exact List.forall_mem_cons.2 ⟨Nat.sub_le _ _, fun s hs => (hbelow s hs).1⟩

end AckFrame

/-- The first range of an accepted ACK frame is within the largest packet number. -/
theorem firstAckRange_le {b : List UInt8} {f g : Frame} {n : Nat} (h : parseNextFrame b f = .ok (n, g))
    (ht : g.type = .ack ∨ g.type = .ackECN) : g.ack.firstAckRange ≤ g.ack.largestAcked := by
  unfold parseNextFrame at h
  split at h
  · cases h
  split at h
  · cases h
  rename_i g' r hp
  cases h
  obtain ⟨e, -, -, hread⟩ := parseFrame_piece hp
  exact (hread.fits.ack ht).1

/-- An ACK frame that is accepted denotes packet numbers exactly where its further
ranges, with the gaps above them, fit below the first. -/
theorem ack_denotes_iff {b : List UInt8} {f g : Frame} {n : Nat} (h : parseNextFrame b f = .ok (n, g))
    (ht : g.type = .ack ∨ g.type = .ackECN) :
    g.ack.Denotes ↔ AckFrame.span g.ack.ranges ≤ g.ack.largestAcked - g.ack.firstAckRange :=
  AckFrame.denotes_iff (firstAckRange_le h ht)

/-- The packets 4 and 5, and below them 1 and 2. -/
def twoRuns : Frame :=
  { type := .ack
    ack :=
      { largestAcked := 5
        firstAckRange := 1
        inlineRanges := (Vector.replicate 8 {}).set 0 ⟨0, 1⟩
        numInlineRanges := 1 } }

theorem ack_denotes_two : twoRuns.ack.Denotes :=
  (ack_denotes_iff (b := [0x02, 5, 0, 1, 1, 0, 1]) (f := {}) (n := 7) (g := twoRuns) (by decide +kernel)
    (.inl rfl)).2 (by decide)

/-- Packet 0 is acknowledged, and a run below it: the frame is accepted. -/
theorem ack_below_zero :
    (parseNextFrame [0x02, 0, 0, 1, 0, 0, 0] {}).toOption.map (fun r => (r.1, r.2.type, r.2.ack.runs)) =
      some (7, .ack, none) := by
  decide +kernel

end Mach.Quic.Wire
