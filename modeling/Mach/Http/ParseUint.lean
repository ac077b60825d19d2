import Mach.Lib.Bytes
import Mach.Lib.Numeral
import Mathlib.Data.List.TakeWhile
/-!
# Decimal numbers

`ParseUintBuf` reads the digits in front of a value into an `int` and looks for an
overflow after each of them. The package of the URIs has a copy of it.
-/

open Mach.Lib Mach.Lib.Numeral List

namespace Mach.Http

inductive IntError where
  | emptyInt
  | unexpectedFirstChar
  | tooLongInt
  deriving Repr, DecidableEq

def maxInt : Nat := 2 ^ 63 - 1

def maxIntDiv10 : Nat := maxInt / 10

def maxSafeIntDigits : Nat := 9 * (64 / 32)

/-- The loop of both functions from the index `i` on, with the word that holds the value so far. -/
def parseUintLoop (i v : Nat) : List UInt8 → Int × Nat × Option IntError
  | [] => (i64 v, i, none)
  | c :: b =>
    let k := c - 48
    if 9 < k then if i = 0 then (-1, i, some .unexpectedFirstChar) else (i64 v, i, none)
    else
      let vNew := u64 (10 * v + k.toNat)
      if maxSafeIntDigits ≤ i ∧ (maxIntDiv10 < i64 v ∨ i64 vNew < 0) then (-1, i, some .tooLongInt)
      else parseUintLoop (i + 1) vNew b

def parseUintBuf (b : List UInt8) : Int × Nat × Option IntError :=
  if b = [] then (-1, 0, some .emptyInt) else parseUintLoop 0 0 b

inductive ContentLengthError where
  | int (e : IntError)
  | nonNumericChars
  deriving Repr, DecidableEq

def parseContentLength (b : List UInt8) : Except ContentLengthError Int :=
  match parseUintBuf b with
  | (_, _, some e) => .error (.int e)
  | (v, n, none) => if n ≠ b.length then .error .nonNumericChars else .ok v

end Mach.Http

/-- The same for URIs. -/
def Mach.Uri.parseUintBuf (b : List UInt8) : Int × Nat × Option Mach.Http.IntError :=
  if b = [] then (-1, 0, some .emptyInt) else Mach.Http.parseUintLoop 0 0 b

namespace Mach.Http

theorem isDigit_iff : ∀ c : UInt8, isDigit c = true ↔ ¬ 9 < c - 48 := forall_byte (by decide +kernel)

theorem digitValue_eq : ∀ c : UInt8, ¬ 9 < c - 48 → digitValue c = (c - 48).toNat := forall_byte (by decide +kernel)

theorem value_le_append (l l' : List UInt8) : value 10 l ≤ value 10 (l ++ l') := by
  induction l' generalizing l with
  | nil => rw [append_nil]
  | cons c l' ih =>
    have hrest := ih (l ++ [c])
    rw [value_concat, append_assoc, singleton_append] at hrest
    omega

theorem i64_of_le {n : Nat} (h : n ≤ maxInt) : i64 n = n := if_pos (Nat.lt_succ_of_le h)

/-- The test for an overflow is exact: with few digits there is none, and one more digit on top of `maxIntDiv10`
shows in the sign. -/
theorem overflow_iff {n k len : Nat} (hk : k ≤ 9) (hn : n ≤ maxInt) (hlen : n < 10 ^ len) :
    maxSafeIntDigits ≤ len ∧ (maxIntDiv10 < i64 n ∨ i64 (u64 (10 * n + k)) < 0) ↔ maxInt < 10 * n + k := by
  rw [i64_of_le hn]
  refine ⟨fun h => ?_, fun h => ⟨?_, ?_⟩⟩
  · unfold maxIntDiv10 maxInt i64 u64 at *
    omega
  · by_contra hfew
    have hpow : 10 ^ len ≤ 10 ^ 17 := Nat.pow_le_pow_right (by decide) (by unfold maxSafeIntDigits at hfew; omega)
    unfold maxInt at h
    omega
  · unfold maxIntDiv10 maxInt i64 u64 at *
    omega

/-- The digits `p` are read: their value and how many they are, or that the value is no `int`. -/
def Reads (p : List UInt8) (r : Int × Nat × Option IntError) : Prop :=
  if value 10 p ≤ maxInt then r = (↑(value 10 p), p.length, none) else ∃ i, r = (-1, i, some .tooLongInt)

/-- After the digits `p`, the loop reads those in front of the rest. -/
theorem reads_parseUintLoop (b : List UInt8) {p : List UInt8} (hlen : value 10 p < 10 ^ p.length)
    (hfit : value 10 p ≤ maxInt) (hne : p ++ b.takeWhile isDigit ≠ []) :
    Reads (p ++ b.takeWhile isDigit) (parseUintLoop p.length (value 10 p) b) := by
  induction b generalizing p with
  | nil => simp [Reads, parseUintLoop, hfit, i64_of_le hfit]
  | cons c b ih =>
    by_cases hc : 9 < c - 48
    · have hp : p ≠ [] := by simpa [isDigit_iff, hc] using hne
      simp [Reads, parseUintLoop, isDigit_iff, hc, hfit, i64_of_le hfit, hp]
    · have hk : (c - 48).toNat ≤ 9 := not_lt.1 hc
      have hnew := value_concat 10 p c
      rw [digitValue_eq c hc] at hnew
      have htest := overflow_iff hk hfit hlen
      rw [← hnew] at htest
      rw [takeWhile_cons, if_pos ((isDigit_iff c).2 hc), ← singleton_append, ← append_assoc]
      simp only [parseUintLoop, if_neg hc, ← hnew, htest]
      by_cases hover : maxInt < value 10 (p ++ [c])
      · rw [Reads, if_neg (Nat.not_le.2 (hover.trans_le (value_le_append _ _))), if_pos hover]
        exact ⟨_, rfl⟩
      · have hfit' := not_lt.1 hover
        have hlen' : value 10 (p ++ [c]) < 10 ^ (p ++ [c]).length := by
          rw [length_append, length_singleton, Nat.pow_succ]
          omega
        rw [if_neg hover, u64_of_lt (hfit'.trans_lt (by decide))]
        simpa only [length_append, length_singleton] using ih hlen' hfit' (by simp)

theorem reads_parseUintBuf (b : List UInt8) :
    if b.takeWhile isDigit = [] then ∃ e, parseUintBuf b = (-1, 0, some e) ∧ e ≠ .tooLongInt
    else Reads (b.takeWhile isDigit) (parseUintBuf b) := by
  cases b with
  | nil => exact ⟨_, rfl, nofun⟩
  | cons c b =>
    split
    · rename_i hnone
      have hc : 9 < c - 48 := by simpa [takeWhile_cons, isDigit_iff] using hnone
      exact ⟨.unexpectedFirstChar, by simp [parseUintBuf, parseUintLoop, hc], nofun⟩
    · rename_i hne
      exact reads_parseUintLoop (c :: b) (p := []) (by decide) (Nat.zero_le _) hne

theorem parseContentLength_eq_ok (b : List UInt8) (v : Int) :
    parseContentLength b = .ok v ↔ ∃ n ≤ maxInt, decimal b = some n ∧ v = n := by
  have hbuf := reads_parseUintBuf b
  unfold parseContentLength
  unfold Reads at hbuf
  by_cases hdec : b ≠ [] ∧ b.all isDigit = true
  · rw [takeWhile_eq_self_iff.2 (all_eq_true.1 hdec.2), if_neg hdec.1] at hbuf
    rw [decimal, if_pos hdec]
    split_ifs at hbuf with hfit
    · simp [hbuf, hfit, eq_comm]
    · obtain ⟨i, hi⟩ := hbuf
      simp [hi, hfit]
  · rw [decimal, if_neg hdec]
    split_ifs at hbuf with hnone hfit
    · obtain ⟨e, he, -⟩ := hbuf
      simp [he]
    · have hshort : (b.takeWhile isDigit).length ≠ b.length := by
        intro hlen
        have hself := ( takeWhile_prefix isDigit).eq_of_length hlen
        exact hdec ⟨hself ▸ hnone, all_eq_true.2 (takeWhile_eq_self_iff.1 hself)⟩
      simp [hbuf, hshort]
    · obtain ⟨i, hi⟩ := hbuf
      simp [hi]

/-- Both functions fail in front of anything but a digit, and otherwise return the value of the leading digits and how
many they are, or report that the value is no `int`; a `Content-Length` is read if and only if it is a decimal number
that is one. -/
theorem decimal_parsing_exact (b : List UInt8) :
    parseUintBuf b = Uri.parseUintBuf b ∧
      (if b.takeWhile isDigit = [] then ∃ e, parseUintBuf b = (-1, 0, some e) ∧ e ≠ .tooLongInt
        else Reads (b.takeWhile isDigit) (parseUintBuf b)) ∧
      ∀ v : Int, parseContentLength b = .ok v ↔ ∃ n ≤ maxInt, decimal b = some n ∧ v = n :=
  ⟨rfl, reads_parseUintBuf b, parseContentLength_eq_ok b⟩

end Mach.Http
