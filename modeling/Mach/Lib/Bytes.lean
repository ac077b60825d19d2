import Mathlib.Data.Nat.Bitwise
import Mathlib.Tactic.Ring
/-!
# Numbers as bytes and words

`byte` is the conversion of a number to one byte, `beBytes n v` the last `n`
bytes of `v` and `beNat` the number a byte string stands for, with the most
significant byte first; `leBytes` and `leWord` are the same with the least
significant byte first, as a word lies in memory. The wrap-around of a 64-bit
word is written out where it is made.
-/

namespace Mach.Lib
open Nat

instance lawfulBEq_bytes : LawfulBEq (List UInt8) := inferInstance

def byte (n : Nat) : UInt8 := UInt8.ofNat n

/-- What holds of the 256 bytes holds of every byte; the hypothesis can be decided. -/
theorem forall_byte {P : UInt8 → Prop} (h : ∀ x : Fin 256, P (byte x.val)) (b : UInt8) : P b := by
  have hb := h ⟨b.toNat, b.toNat_lt⟩
  rwa [byte, UInt8.ofNat_toNat] at hb

def beBytes : Nat → Nat → List UInt8
  | 0, _ => []
  | n + 1, v => byte (v >>> (8 * n)) :: beBytes n v

def beNat : List UInt8 → Nat
  | [] => 0
  | b :: l => b.toNat * 256 ^ l.length + beNat l

-- The lemmas below share these equations.
attribute [local simp] beBytes beNat in
theorem byte_toNat (n : Nat) : (byte n).toNat = n % 256 := by simp [byte]

@[simp] theorem byte_toNat_self (b : UInt8) : byte b.toNat = b := by simp [byte]

@[simp] theorem beBytes_length (n v : Nat) : (beBytes n v).length = n := by
  induction n with
  | zero => rfl
  | succ n ih => simp [beBytes, ih]

theorem beNat_beBytes (n v : Nat) : beNat (beBytes n v) = v % 256 ^ n := by
  induction n with
  | zero => simp [beBytes, beNat, mod_one]
  | succ n ih =>
    rw [beBytes, beNat, byte_toNat, beBytes_length, ih, shiftRight_eq_div_pow,
      show 2 ^ (8 * n) = 256 ^ n by rw [Nat.pow_mul], Nat.pow_succ, mod_mul]
    ring

theorem beNat_lt (l : List UInt8) : beNat l < 256 ^ l.length := by
  induction l with
  | nil => decide
  | cons b l ih =>
    have hb : b.toNat < 256 := b.toNat_lt
    calc beNat (b :: l) < b.toNat * 256 ^ l.length + 256 ^ l.length := by simp only [beNat]; omega
      _ = (b.toNat + 1) * 256 ^ l.length := by ring
      _ ≤ 256 * 256 ^ l.length := Nat.mul_le_mul_right _ hb
      _ = 256 ^ (b :: l).length := by rw [List.length_cons, Nat.pow_succ, Nat.mul_comm]

theorem beNat_inj {a b : List UInt8} (hlen : a.length = b.length) (h : beNat a = beNat b) : a = b := by
  induction a generalizing b with
  | nil => exact (List.length_eq_zero_iff.1 hlen.symm).symm
  | cons x a ih =>
    cases b with
    | nil => cases hlen
    | cons y b =>
      have hlen := Nat.succ.inj hlen
      have hdiv : ∀ (u : Nat) (l : List UInt8), (u * 256 ^ l.length + beNat l) / 256 ^ l.length = u := fun u l => by
        rw [Nat.mul_comm, mul_add_div (Nat.pow_pos (by decide)), div_eq_of_lt (beNat_lt l), Nat.add_zero]
      have hx := hdiv x.toNat a
      rw [beNat, beNat] at h
      rw [h, hlen, hdiv] at hx
      rw [hlen, hx] at h
      rw [UInt8.toNat_inj.1 hx, ih hlen (by omega)]

/-- A byte string is the number it stands for, written in as many bytes. -/
theorem beBytes_beNat (l : List UInt8) : beBytes l.length (beNat l) = l := by
  refine beNat_inj (beBytes_length _ _) ?_
  rw [beNat_beBytes, mod_eq_of_lt (beNat_lt l)]

theorem xor_and_right (x y z : UInt8) : (x ^^^ y) &&& z = (x &&& z) ^^^ (y &&& z) := by
  apply UInt8.toNat_inj.1
  apply eq_of_testBit_eq
  intro i
  simp only [UInt8.toNat_and, UInt8.toNat_xor, testBit_and, testBit_xor]
  cases x.toNat.testBit i <;> cases y.toNat.testBit i <;> cases z.toNat.testBit i <;> rfl

theorem masked_and {m k z : UInt8} (h : k &&& z = 0) (x : UInt8) : (x ^^^ (m &&& k)) &&& z = x &&& z := by
  rw [xor_and_right, UInt8.and_assoc, h, UInt8.and_zero, UInt8.xor_zero]

/-! ## Least significant byte first -/

def leWord : List UInt8 → Nat
  | [] => 0
  | b :: l => b.toNat + 256 * leWord l

def leBytes : Nat → Nat → List UInt8
  | 0, _ => []
  | n + 1, v => byte v :: leBytes n (v / 256)

theorem leBytes_xor {a b : List UInt8} (h : a.length = b.length) :
    leBytes a.length (leWord a ^^^ leWord b) = List.zipWith (· ^^^ ·) a b := by
  induction a generalizing b with
  | nil => rfl
  | cons x a ih =>
    cases b with
    | nil => cases h
    | cons y b =>
      have hx := x.toNat_lt
      have hy := y.toNat_lt
      have hlow : byte (leWord (x :: a) ^^^ leWord (y :: b)) = x ^^^ y := by
        apply UInt8.toNat_inj.1
        rw [byte_toNat, show 256 = 2 ^ 8 from rfl, xor_mod_two_pow, UInt8.toNat_xor, leWord, leWord]
        congr 1 <;> omega
      have hhigh : (leWord (x :: a) ^^^ leWord (y :: b)) / 256 = leWord a ^^^ leWord b := by
        rw [show 256 = 2 ^ 8 from rfl, xor_div_two_pow, leWord, leWord]
        congr 1 <;> omega
      rw [List.length_cons, leBytes, hlow, hhigh, ih (Nat.succ.inj h), List.zipWith_cons_cons]

end Mach.Lib

namespace Mach.Lib

/-- A sum or product, stored in 64 bits. -/
def u64 (n : Nat) : Nat := n % 2 ^ 64

/-- A difference, stored in 64 bits. -/
def u64Sub (a b : Nat) : Nat := (a + 2 ^ 64 - b) % 2 ^ 64

/-- A 64-bit word, read as a signed number. -/
def i64 (n : Nat) : Int := if n < 2 ^ 63 then n else (n : Int) - 2 ^ 64

theorem u64_of_lt {n : Nat} (h : n < 2 ^ 64) : u64 n = n := Nat.mod_eq_of_lt h

theorem u64_le (n : Nat) : u64 n ≤ n := Nat.mod_le _ _

end Mach.Lib
