import Mach.Quic.Wire.FrameParser
import Mach.Quic.Wire.Protection
/-!
# No packet makes the reader panic

Every slice of a packet or of its payload is behind a check that the bytes are
there, so that whatever arrives, opening a packet returns or fails with an error,
and so does the iteration over the frames of a payload. The iteration comes to an
end, since every frame takes at least the byte of its type.
-/

namespace Mach.Quic.Wire

open Lib Parser

variable {α β : Type}

/-! ## The reads -/

/-- Neither panics nor gives back more than it got. -/
structure Safe (p : Parse α) : Prop where
  avoids : Avoids .panic 0 p
  shrinks : Shrinks 0 p

variable {p : Parse α} {f : α → Parse β}

theorem Safe.bind (hp : Safe p) (hf : ∀ a, Safe (f a)) : Safe (p >>= f) :=
  ⟨hp.avoids.bind fun a => (hf a).avoids, hp.shrinks.bind fun a => (hf a).shrinks⟩

theorem safe_pure (a : α) : Safe (pure a : Parse α) := ⟨avoids_pure a, shrinks_pure a⟩

theorem safe_failWith (e : WireError) : Safe (failWith e : Parse α) :=
  ⟨avoids_fail Fault.noConfusion, shrinks_fail _⟩

theorem safe_rest : Safe (rest : Parse (List UInt8)) := ⟨avoids_rest, shrinks_rest⟩

theorem safe_ite {c : Prop} [Decidable c] {q : Parse α} (hp : c → Safe p) (hq : ¬ c → Safe q) :
    Safe (if c then p else q) := by
  split
  · exact hp ‹_›
  · exact hq ‹_›

/-- `Decode` takes at least a byte, and never more than there are. -/
theorem decode_length {b : List UInt8} {v n : Nat} (h : Varint.decode b = .ok (v, n)) : 1 ≤ n ∧ n ≤ b.length := by
  obtain ⟨first, l, r, rfl, -, rfl, -⟩ := decode_eq_ok_iff.1 h
  simp

theorem shrinks_varint (e : WireError) : Shrinks 1 (varint e) := by
  intro b v r h
  unfold varint at h
  split at h
  · cases h
  rename_i v' n hd
  have := decode_length hd
  cases h
  rw [List.length_drop]
  omega

theorem safe_varint (e : WireError) : Safe (varint e) := by
  refine ⟨fun b _ h => ?_, fun b v r h => Nat.le_of_succ_le (shrinks_varint e b v r h)⟩
  unfold varint at h
  split at h <;> cases h

theorem takes_slice (n : Nat) : Takes n (slice n) := takes_split n _

theorem takes_next : Takes 1 next := by
  intro b hb
  cases b with
  | nil => simp at hb
  | cons x b => exact ⟨x, rfl⟩

theorem shrinks_next : Shrinks 0 next := by
  intro b x r h
  cases b with
  | nil => cases h
  | cons y b =>
    cases h
    simp

theorem safe_sized (n : Nat) (e : WireError) : Safe (sized n e) :=
  ⟨avoids_need Fault.noConfusion (takes_slice n).avoids, (shrinks_need n _).bind fun _ => shrinks_split n _⟩

/-! ## Frames -/

theorem safe_parseStream (rawType : Nat) (f : Frame) : Safe (parseStream rawType f) := by
  refine (safe_varint _).bind fun _ => Safe.bind ?_ fun _ => Safe.bind ?_ fun _ => safe_pure _
  · exact safe_ite (fun _ => safe_varint _) fun _ => safe_pure _
  · exact safe_ite (fun _ => (safe_varint _).bind fun n => safe_sized n _) fun _ => safe_rest

theorem safe_parseAckRanges (n : Nat) (a : AckFrame) : Safe (parseAckRanges n a) := by
  induction n generalizing a with
  | zero => exact safe_pure a
  | succ n ih => exact (safe_varint _).bind fun _ => (safe_varint _).bind fun _ => ih _

theorem safe_parseECN (typ : FrameType) (a : AckFrame) : Safe (parseECN typ a) := by
  refine safe_ite (fun _ => ?_) fun _ => safe_pure a
  exact (safe_varint _).bind fun _ => (safe_varint _).bind fun _ => (safe_varint _).bind fun _ => safe_pure _

theorem safe_parseAck (typ : FrameType) (f : Frame) : Safe (parseAck typ f) := by
  refine (safe_varint _).bind fun _ => (safe_varint _).bind fun _ => (safe_varint _).bind fun _ =>
    (safe_varint _).bind fun _ => safe_ite (fun _ => safe_failWith _) fun _ => ?_
  exact (safe_parseAckRanges _ _).bind fun _ => (safe_parseECN _ _).bind fun _ => safe_pure _

theorem safe_parseNewConnectionID (f : Frame) : Safe (parseNewConnectionID f) := by
  refine (safe_varint _).bind fun _ => (safe_varint _).bind fun _ => ⟨?_, ?_⟩
  · refine avoids_need Fault.noConfusion (takes_next.avoids_bind (n := 0) fun cidLen => ?_)
    split
    · exact avoids_fail Fault.noConfusion
    · exact avoids_need Fault.noConfusion ((takes_slice _).avoids_bind fun _ =>
        (takes_slice 16).avoids.bind fun _ => avoids_pure _)
  · refine (shrinks_need 1 _).bind fun _ => shrinks_next.bind fun cidLen => ?_
    split
    · exact shrinks_fail _
    · exact (shrinks_need _ _).bind fun _ => (shrinks_split _ _).bind fun _ => (shrinks_split _ _).bind fun _ =>
        shrinks_pure _

theorem safe_parseConnectionClose (typ : FrameType) (f : Frame) : Safe (parseConnectionClose typ f) := by
  refine (safe_varint _).bind fun _ => ?_
  split
  · exact (safe_varint _).bind fun _ => (safe_varint _).bind fun n => (safe_sized n _).bind fun _ => safe_pure _
  · exact (safe_varint _).bind fun n => (safe_sized n _).bind fun _ => safe_pure _

theorem safe_parseDatagram (typ : FrameType) (f : Frame) : Safe (parseDatagram typ f) := by
  refine safe_ite (fun _ => ?_) fun _ => safe_rest.bind fun _ => safe_pure _
  exact (safe_varint _).bind fun n => (safe_sized n _).bind fun _ => safe_pure _

theorem safe_parseBody (typ : FrameType) (f : Frame) : Safe (parseBody typ f) := by
  -- A row of integers, or a list behind its length.
  have one : ∀ g : Nat → Frame, Safe (varint truncated >>= fun a => pure (g a)) := fun _ =>
    (safe_varint _).bind fun _ => safe_pure _
  have two : ∀ g : Nat → Nat → Frame, Safe (varint truncated >>= fun a => varint truncated >>= fun b => pure (g a b)) :=
    fun _ => (safe_varint _).bind fun _ => one _
  have data : ∀ n (g : List UInt8 → Frame), Safe (sized n truncated >>= fun d => pure (g d)) := fun n _ =>
    (safe_sized n _).bind fun _ => safe_pure _
  unfold parseBody
  split
  all_goals first
    | exact safe_pure _
    | exact safe_failWith _
    | exact one _
    | exact two _
    | exact data _ _
    | exact safe_parseAck _ _
    | exact safe_parseNewConnectionID _
    | exact safe_parseConnectionClose _ _
    | exact safe_parseDatagram _ _
    | skip
  · exact (safe_varint _).bind fun _ => two _
  · exact (safe_varint _).bind fun _ => (safe_varint _).bind fun n => data n _
  · exact (safe_varint _).bind fun n => data n _

theorem padRun_le (b : List UInt8) : padRun b ≤ b.length := by
  induction b with
  | nil => exact Nat.le_refl _
  | cons x b ih =>
    unfold padRun
    split
    · simpa using ih
    · exact Nat.zero_le _

theorem shrinks_parseFrame (f : Frame) : Shrinks 1 (parseFrame f) := by
  intro b g r h
  unfold parseFrame at h
  split at h
  · rename_i hhead
    obtain ⟨b, rfl⟩ : ∃ b', b = 0 :: b' := by
      cases b with
      | nil => cases hhead
      | cons x b => exact ⟨b, by simpa using hhead⟩
    have hle := padRun_le b
    cases h
    simp [padRun]
  · refine Shrinks.bind (shrinks_varint _) (fun rawType => ?_) b g r h
    split
    · exact (safe_parseStream _ _).shrinks
    · exact (safe_parseBody _ _).shrinks

theorem avoids_parseFrame (f : Frame) : Avoids .panic 0 (parseFrame f) := by
  intro b _ h
  unfold parseFrame at h
  split at h
  · cases h
  refine Avoids.bind (safe_varint _).avoids (fun rawType => ?_) b (Nat.zero_le _) h
  split
  · exact (safe_parseStream _ _).avoids
  · exact (safe_parseBody _ _).avoids

end Mach.Quic.Wire
