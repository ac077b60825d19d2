import Mach.Lib.Bytes
/-!
# Required Insert Count

A header block says how many insertions its decoder must have seen, modulo twice
the number of entries the table can have. The decoder takes the value nearest to
the insertions it has seen; RFC 9204, section 4.5.1.1, computes it in another order.
-/

namespace Mach.Qpack
open Lib Nat Option

/-- `none` is a division by zero. -/
def encodeRequiredInsertCount (requiredInsertCount maxEntries : Nat) : Option Nat :=
  if requiredInsertCount = 0 then some 0
  else if u64 (2 * maxEntries) = 0 then none
  else some (u64 (requiredInsertCount % u64 (2 * maxEntries) + 1))

/-- The decoder, over what `w` makes of a sum or a product; `none` is a division by zero. -/
def decodeWith (w : Nat → Option Nat) (encoded maxEntries total : Nat) : Option (Nat × Bool) := do
  if encoded = 0 then return (0, true)
  let fullRange ← w (2 * maxEntries)
  if fullRange < encoded then return (0, false)
  if fullRange = 0 then none
  let reqInsertCount := encoded - 1
  let currentWrapped := total % fullRange
  let bound ← w (reqInsertCount + maxEntries)
  let (reqInsertCount, currentWrapped) ←
    if bound ≤ currentWrapped then do pure (← w (reqInsertCount + fullRange), currentWrapped)
    else do
      let bound ← w (currentWrapped + maxEntries)
      if bound < reqInsertCount then do pure (reqInsertCount, ← w (currentWrapped + fullRange))
      else pure (reqInsertCount, currentWrapped)
  if 2 ^ 64 - 1 - total < reqInsertCount then return (0, false)
  let reqInsertCount ← w (reqInsertCount + total)
  if reqInsertCount ≤ currentWrapped then return (0, false)
  return (reqInsertCount - currentWrapped, true)

/-- Sums and products of the machine. -/
def wrapping (n : Nat) : Option Nat := some (u64 n)

/-- Sums and products that are not to wrap around. -/
def checked (n : Nat) : Option Nat := if n < 2 ^ 64 then some n else none

def decodeRequiredInsertCount (encoded maxEntries total : Nat) : Option (Nat × Bool) :=
  decodeWith wrapping encoded maxEntries total

/-- The algorithm of the RFC, over unbounded numbers. -/
def rfcRequiredInsertCount (encoded maxEntries total : Nat) : Option Nat :=
  if encoded = 0 then some 0
  else if 2 * maxEntries < encoded then none
  else
    let maxValue := total + maxEntries
    let reqInsertCount := maxValue / (2 * maxEntries) * (2 * maxEntries) + encoded - 1
    let reduced :=
      if maxValue < reqInsertCount then
        if reqInsertCount ≤ 2 * maxEntries then none else some (reqInsertCount - 2 * maxEntries)
      else some reqInsertCount
    reduced.bind fun r => if r = 0 then none else some r

/-- The last full round within reach of a total. -/
theorem maxWrapped_eq {m t : Nat} (hm : 0 < m) :
    (t + m) / (2 * m) * (2 * m) = 2 * m * (t / (2 * m)) + if t % (2 * m) < m then 0 else 2 * m := by
  have hdiv := div_add_mod t (2 * m)
  have hlt := mod_lt t (show 0 < 2 * m by omega)
  generalize t / (2 * m) = q at hdiv ⊢
  have hround : ∀ k x, x < 2 * m → (2 * m * k + x) / (2 * m) * (2 * m) = 2 * m * k := fun k x hx => by
    rw [mul_add_div (by omega), div_eq_of_lt hx, Nat.add_zero, Nat.mul_comm]
  split
  · rw [show t + m = 2 * m * q + (t % (2 * m) + m) by omega, hround _ _ (by omega), Nat.add_zero]
  · rw [show t + m = 2 * m * (q + 1) + (t % (2 * m) - m) by rw [Nat.mul_add]; omega, hround _ _ (by omega), Nat.mul_add,
      Nat.mul_one]

/-- The value of the RFC: a round above, a round below, or in the round of the total. -/
theorem rfcRequiredInsertCount_eq {e m t p c : Nat} (he : e ≠ 0) (hle : e ≤ 2 * m) (hp : p = 2 * m * (t / (2 * m)))
    (hc : c = t % (2 * m)) : rfcRequiredInsertCount e m t =
      if e - 1 + m ≤ c then some (p + 2 * m + e - 1)
      else if c + m < e - 1 then if p + e - 1 ≤ 2 * m then none else some (p + e - 1 - 2 * m)
      else if p + e - 1 = 0 then none else some (p + e - 1) := by
  have hdiv := div_add_mod t (2 * m)
  have hlt := mod_lt t (show 0 < 2 * m by omega)
  rw [← hp, ← hc] at hdiv
  rw [← hc] at hlt
  simp only [rfcRequiredInsertCount, he, Nat.not_lt.2 hle, if_false, maxWrapped_eq (show 0 < m by omega), ← hp, ← hc]
  by_cases hcm : c < m
  · simp only [hcm, if_true, Nat.add_zero, show ¬ e - 1 + m ≤ c by omega, if_false]
    by_cases hbelow : c + m < e - 1
    · rw [if_pos hbelow, if_pos (by omega)]
      split
      · rfl
      · rw [bind_some, if_neg (by omega)]
    · rw [if_neg hbelow, if_neg (by omega)]
      rfl
  · simp only [hcm, if_false, show ¬ c + m < e - 1 by omega]
    by_cases habove : e - 1 + m ≤ c
    · rw [if_pos habove, if_neg (by omega), bind_some, if_neg (by omega)]
    · rw [if_neg habove, if_pos (by omega)]
      by_cases hz : p + e - 1 = 0
      · rw [if_pos hz, if_pos (by omega)]
        rfl
      · rw [if_neg hz, if_neg (by omega), bind_some, if_neg (by omega)]
        congr 1
        omega

/-- Without wrapping around the decoder computes what the RFC does. -/
theorem decodeWith_eq {w : Nat → Option Nat} (hw : ∀ n < 2 ^ 64, w n = some n) {e m t : Nat} (hm : m < 2 ^ 62)
    (ht : t < 2 ^ 62) :
    decodeWith w e m t = some (match rfcRequiredInsertCount e m t with | some v => (v, true) | none => (0, false)) := by
  unfold decodeWith
  by_cases he : e = 0
  · simp [he, rfcRequiredInsertCount]
  by_cases hrange : 2 * m < e
  · simp [he, hrange, hw (2 * m) (by omega), rfcRequiredInsertCount]
  have hdiv := div_add_mod t (2 * m)
  have hlt := mod_lt t (show 0 < 2 * m by omega)
  rw [rfcRequiredInsertCount_eq he (by omega) rfl rfl]
  simp only [he, hrange, if_false, hw (2 * m) (by omega), hw (e - 1 + m) (by omega), hw (e - 1 + 2 * m) (by omega),
    show ¬ 2 * m = 0 by omega, pure, bind, bind_some]
  generalize 2 * m * (t / (2 * m)) = p at hdiv ⊢
  generalize t % (2 * m) = c at hdiv hlt ⊢
  by_cases habove : e - 1 + m ≤ c
  · rw [if_pos habove, if_pos habove, if_neg (by omega), hw _ (by omega), bind_some, if_neg (by omega)]
    simp only [Option.some.injEq, Prod.mk.injEq, and_true]
    omega
  simp only [habove, if_false, show ¬ 2 ^ 64 - 1 - t < e - 1 by omega, hw (e - 1 + t) (by omega),
    hw (c + m) (by omega), hw (c + 2 * m) (by omega), bind_some]
  split_ifs <;> first | rfl | omega | (simp only [Option.some.injEq, Prod.mk.injEq, and_true]; omega)

/-- For every count within reach of the total the decoder gets it back, and what it computes is what the RFC
computes: no sum wraps around and no division is by zero. -/
theorem required_insert_count_exact :
    (∀ m t r, 1 ≤ m → 2 * m < 2 ^ 63 → t < 2 ^ 62 → 0 < r → t < r + m → r ≤ t + m →
      (encodeRequiredInsertCount r m).bind (decodeRequiredInsertCount · m t) = some (r, true)) ∧
    ∀ e m t, e < 2 ^ 64 → m < 2 ^ 62 → t < 2 ^ 62 →
      decodeWith checked e m t = decodeRequiredInsertCount e m t ∧ (decodeRequiredInsertCount e m t).isSome ∧
        ∀ v, decodeRequiredInsertCount e m t = some (v, true) ↔ rfcRequiredInsertCount e m t = some v := by
  have hwrap : ∀ n < 2 ^ 64, wrapping n = some n := fun n hn => congrArg some (u64_of_lt hn)
  refine ⟨fun m t r hm hm' ht hr hlow hhigh => ?_, fun e m t _ hm ht => ?_⟩
  · have hr' := div_add_mod r (2 * m)
    have ht' := div_add_mod t (2 * m)
    have hrm := mod_lt r (show 0 < 2 * m by omega)
    have htm := mod_lt t (show 0 < 2 * m by omega)
    have henc : encodeRequiredInsertCount r m = some (r % (2 * m) + 1) := by
      rw [encodeRequiredInsertCount, if_neg (by omega), u64_of_lt (by omega), if_neg (by omega), u64_of_lt (by omega)]
    rw [henc, bind_some, decodeRequiredInsertCount, decodeWith_eq hwrap (by omega) ht,
      rfcRequiredInsertCount_eq (by omega) (by omega) rfl rfl, Nat.add_sub_cancel]
    -- the count is at most a round away from the total
    have hhi : r / (2 * m) < t / (2 * m) + 2 :=
      Nat.lt_of_mul_lt_mul_left (a := 2 * m) (by rw [Nat.mul_add]; omega)
    have hlo : t / (2 * m) < r / (2 * m) + 2 :=
      Nat.lt_of_mul_lt_mul_left (a := 2 * m) (by rw [Nat.mul_add]; omega)
    have hcount : ∀ {n}, n = r → some (n, true) = some (r, true) := fun h => by rw [h]
    obtain h | h | h : r / (2 * m) = t / (2 * m) + 1 ∨ r / (2 * m) = t / (2 * m) ∨ t / (2 * m) = r / (2 * m) + 1 := by
      omega
    · rw [h, Nat.mul_add] at hr'
      rw [if_pos (by omega)]
      exact hcount (by omega)
    · rw [h] at hr'
      rw [if_neg (by omega), if_neg (by omega), if_neg (by omega)]
      exact hcount (by omega)
    · rw [h, Nat.mul_add] at ht'
      rw [h, Nat.mul_add, if_neg (by omega), if_pos (by omega), if_neg (by omega)]
      exact hcount (by omega)
  · have h := decodeWith_eq hwrap (e := e) hm ht
    have hcheck : decodeWith checked e m t = _ := decodeWith_eq (fun n hn => if_pos hn) hm ht
    rw [decodeRequiredInsertCount, hcheck, h]
    refine ⟨rfl, rfl, fun v => ?_⟩
    cases rfcRequiredInsertCount e m t <;> simp

theorem required_insert_count_sample :
    (encodeRequiredInsertCount 10 3).bind (decodeRequiredInsertCount · 3 9) = some (10, true) ∧
      (decodeRequiredInsertCount 5 3 9 = some (10, true) ↔ rfcRequiredInsertCount 5 3 9 = some 10) :=
  ⟨required_insert_count_exact.1 3 9 10 (by decide) (by decide) (by decide) (by decide) (by decide) (by decide),
    (required_insert_count_exact.2 5 3 9 (by decide) (by decide) (by decide)).2.2 10⟩

end Mach.Qpack
