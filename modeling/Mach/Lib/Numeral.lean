import Mathlib.Data.Nat.Digits.Defs
import Mathlib.Tactic.IntervalCases
/-!
# Numerals

Numbers written in ASCII digits, most significant first, and read back.
-/

namespace Mach.Lib.Numeral

variable {b d : Nat}

/-- The number a digit stands for, in either case. -/
def digitValue (c : UInt8) : Nat :=
  if c ≤ 57 then c.toNat - 48 else if c ≤ 70 then c.toNat - 55 else c.toNat - 87

def isDigit (c : UInt8) : Bool := decide (48 ≤ c ∧ c ≤ 57)

def isHexDigit (c : UInt8) : Bool := isDigit c || decide (65 ≤ c ∧ c ≤ 70) || decide (97 ≤ c ∧ c ≤ 102)

/-- The number a string of digits stands for. -/
def value (b : Nat) (l : List UInt8) : Nat := l.foldl (fun n c => b * n + digitValue c) 0

/-- The digits of a number, without leading zeros. -/
def numeral (b n : Nat) : List UInt8 := (Nat.toDigits b n).map fun c => UInt8.ofNat c.toNat

def digit (d : Nat) : UInt8 := UInt8.ofNat (Nat.digitChar d).toNat

def decimal (l : List UInt8) : Option Nat := if l ≠ [] ∧ l.all isDigit then some (value 10 l) else none

def hexadecimal (l : List UInt8) : Option Nat := if l ≠ [] ∧ l.all isHexDigit then some (value 16 l) else none

theorem value_concat (b : Nat) (l : List UInt8) (c : UInt8) : value b (l ++ [c]) = b * value b l + digitValue c := by
  simp [value]

theorem numeral_eq (hb : 1 < b) (n : Nat) :
    numeral b n = (if n < b then [] else numeral b (n / b)) ++ [digit (n % b)] := by
  unfold numeral digit
  rw [Nat.toDigits_eq_if hb]
  split
  · rename_i h
    simp [Nat.mod_eq_of_lt h]
  · simp

theorem numeral_ne_nil (hb : 1 < b) (n : Nat) : numeral b n ≠ [] := by
  rw [numeral_eq hb]
  simp

theorem digitValue_digit (h : d < 16) : digitValue (digit d) = d := by
  interval_cases d <;> rfl

theorem isHexDigit_digit (h : d < 16) : isHexDigit (digit d) = true := by
  interval_cases d <;> rfl

theorem isDigit_digit (h : d < 10) : isDigit (digit d) = true := by
  interval_cases d <;> rfl

/-- Reading back what was written, in any base up to sixteen. -/
theorem value_numeral (hb : 1 < b) (hle : b ≤ 16) (n : Nat) : value b (numeral b n) = n := by
  induction n using Nat.strong_induction_on with
  | _ n ih =>
    have hd : digitValue (digit (n % b)) = n % b :=
      digitValue_digit (lt_of_lt_of_le (Nat.mod_lt n (by omega)) hle)
    rw [numeral_eq hb, value_concat, hd]
    split
    · rename_i h
      simp [value, Nat.mod_eq_of_lt h]
    · rename_i h
      rw [ih (n / b) (Nat.div_lt_self (by omega) hb)]
      exact Nat.div_add_mod n b

/-- Every byte of a numeral is the digit of a number below the base. -/
theorem all_numeral (hb : 1 < b) {p : UInt8 → Bool} (hp : ∀ d < b, p (digit d) = true) (n : Nat) :
    (numeral b n).all p = true := by
  induction n using Nat.strong_induction_on with
  | _ n ih =>
    rw [numeral_eq hb, List.all_append]
    have hlast : p (digit (n % b)) = true := hp _ (Nat.mod_lt n (by omega))
    split
    · simp [hlast]
    · rename_i h
      simp [hlast, ih (n / b) (Nat.div_lt_self (by omega) hb)]

theorem decimal_numeral (n : Nat) : decimal (numeral 10 n) = some n := by
  have hall : (numeral 10 n).all isDigit = true := all_numeral (by omega) (fun d hd => isDigit_digit hd) n
  rw [decimal, if_pos ⟨numeral_ne_nil (by omega) n, hall⟩, value_numeral (by omega) (by omega)]

theorem hexadecimal_numeral (n : Nat) : hexadecimal (numeral 16 n) = some n := by
  have hall : (numeral 16 n).all isHexDigit = true := all_numeral (by omega) (fun d hd => isHexDigit_digit hd) n
  rw [hexadecimal, if_pos ⟨numeral_ne_nil (by omega) n, hall⟩, value_numeral (by omega) (by omega)]

end Mach.Lib.Numeral
