import Mach.Lib.Bytes
/-!
# Packet numbers

`wire/packet_number.go`. A packet carries the low one to four bytes of its
number; the receiver completes them to the number nearest to the one it expects
next. The sender chooses how many by the distance to what was acknowledged, which
is enough on both sides but for one number.
-/

namespace Mach.Quic.Wire

open Lib Nat

variable {pnLen largestPN t pn : Nat}

/-- `InvalidPacketNumber`: nothing was received yet. -/
def invalidPacketNumber : Nat := 2 ^ 64 - 1

def maxPacketNumber : Nat := 2 ^ 62 - 1

/-- The packet number the receiver expects next. -/
def expectedPN (largestPN : Nat) : Nat := if largestPN = invalidPacketNumber then 0 else u64 (largestPN + 1)

def decodePacketNumber (largestPN truncatedPN pnLen : Nat) : Nat :=
  let expectedPN := expectedPN largestPN
  let pnWin := u64 (1 <<< (pnLen * 8))
  let pnHwin := pnWin / 2
  let pnMask := u64Sub pnWin 1
  -- `x &^ y` clears in `x` the bits that `x & y` has
  let candidatePN := (expectedPN - (expectedPN &&& pnMask)) ||| truncatedPN
  let candidatePN :=
    if u64 (candidatePN + pnHwin) ≤ expectedPN ∧ candidatePN < u64Sub (2 ^ 62) pnWin then u64 (candidatePN + pnWin)
    else if candidatePN > u64 (expectedPN + pnHwin) ∧ candidatePN ≥ pnWin then u64Sub candidatePN pnWin
    else candidatePN
  if candidatePN > maxPacketNumber then maxPacketNumber else candidatePN

/-- `AppendPacketNumber`; `none` where it panics. -/
def appendPacketNumber (dst : List UInt8) (pn pnLen : Nat) : Option (List UInt8) :=
  match pnLen with
  | 1 => some (dst ++ [byte pn])
  | 2 => some (dst ++ [byte (pn >>> 8), byte pn])
  | 3 => some (dst ++ [byte (pn >>> 16), byte (pn >>> 8), byte pn])
  | 4 => some (dst ++ [byte (pn >>> 24), byte (pn >>> 16), byte (pn >>> 8), byte pn])
  | _ => none

/-- `ReadPacketNumber`; `none` where it panics. -/
def readPacketNumber (b : List UInt8) (pnLen : Nat) : Option Nat :=
  if b.length < pnLen then none
  else
    match pnLen, b with
    | 1, x :: _ => some x.toNat
    | 2, _ => some (beNat (b.take 2))
    | 3, x :: y :: z :: _ => some (x.toNat <<< 16 ||| y.toNat <<< 8 ||| z.toNat)
    | 4, _ => some (beNat (b.take 4))
    | _, _ => none

theorem appendPacketNumber_eq (dst : List UInt8) (pn : Nat) (h : 1 ≤ pnLen ∧ pnLen ≤ 4) :
    appendPacketNumber dst pn pnLen = some (dst ++ beBytes pnLen pn) := by
  have : pnLen = 1 ∨ pnLen = 2 ∨ pnLen = 3 ∨ pnLen = 4 := by omega
  rcases this with rfl | rfl | rfl | rfl <;> rfl

theorem or_shifts (x y z : UInt8) : x.toNat <<< 16 ||| y.toNat <<< 8 ||| z.toNat = beNat [x, y, z] := by
  have hy := y.toNat_lt
  have hz := z.toNat_lt
  have hxy : x.toNat <<< 16 ||| y.toNat <<< 8 = (x.toNat * 256 + y.toNat) <<< 8 := by
    rw [show x.toNat <<< 16 = (x.toNat <<< 8) <<< 8 by rw [← shiftLeft_add], ← shiftLeft_or_distrib,
      ← shiftLeft_add_eq_or_of_lt hy, shiftLeft_eq x.toNat]
  rw [hxy, ← shiftLeft_add_eq_or_of_lt hz, shiftLeft_eq]
  simp [beNat]
  omega

theorem pnLen_cases (h : 1 ≤ pnLen ∧ pnLen ≤ 4) : pnLen = 1 ∨ pnLen = 2 ∨ pnLen = 3 ∨ pnLen = 4 := by omega

theorem readPacketNumber_beBytes (pn : Nat) (h : 1 ≤ pnLen ∧ pnLen ≤ 4) (r : List UInt8) :
    readPacketNumber (beBytes pnLen pn ++ r) pnLen = some (pn % 256 ^ pnLen) := by
  have hlen : ¬ (beBytes pnLen pn ++ r).length < pnLen := by simp
  have htake : (beBytes pnLen pn ++ r).take pnLen = beBytes pnLen pn := List.take_left' (beBytes_length _ _)
  rw [← beNat_beBytes pnLen pn]
  unfold readPacketNumber
  rw [if_neg hlen]
  rcases pnLen_cases h with rfl | rfl | rfl | rfl
  · simp [beBytes, beNat]
  · simp only [htake]
  · simp [beBytes, or_shifts]
  · simp only [htake]

theorem candidate_eq (E t n : Nat) (ht : t < 2 ^ n) : (E - (E &&& (2 ^ n - 1))) ||| t = E - E % 2 ^ n + t := by
  have hE : E - E % 2 ^ n = 2 ^ n * (E / 2 ^ n) := by have := div_add_mod E (2 ^ n); omega
  rw [and_two_pow_sub_one_eq_mod, hE, ← two_pow_add_eq_or_of_lt ht]

/-- Decoding where nothing wraps around: the expected number with its low bits replaced is moved by one window where
that brings it nearer. -/
theorem decodePacketNumber_eq (hk : 1 ≤ pnLen ∧ pnLen ≤ 4) (hE : expectedPN largestPN < 2 ^ 63)
    (ht : t < 256 ^ pnLen) :
    decodePacketNumber largestPN t pnLen =
      let E := expectedPN largestPN
      let W := 256 ^ pnLen
      let c := E - E % W + t
      min (if c + W / 2 ≤ E ∧ c < 2 ^ 62 - W then c + W else if E + W / 2 < c ∧ W ≤ c then c - W else c)
        maxPacketNumber := by
  have hpow : 256 ^ pnLen = 2 ^ (pnLen * 8) := by rw [Nat.mul_comm, Nat.pow_mul]
  have hwin : u64 (1 <<< (pnLen * 8)) = 256 ^ pnLen ∧ u64Sub (256 ^ pnLen) 1 = 2 ^ (pnLen * 8) - 1 ∧
      256 ^ pnLen ≤ 2 ^ 32 := by
    rcases pnLen_cases hk with rfl | rfl | rfl | rfl <;> decide
  have hcand := candidate_eq (expectedPN largestPN) t (pnLen * 8) (hpow ▸ ht)
  unfold decodePacketNumber
  simp only [hwin.1, hwin.2.1, hcand]
  rw [← hpow]
  generalize expectedPN largestPN = E at hE
  generalize 256 ^ pnLen = W at ht hwin
  have hle : E - E % W + t < 2 ^ 63 + 2 ^ 32 := by omega
  generalize E - E % W + t = c at hle
  have e1 : u64 (c + W / 2) = c + W / 2 := u64_of_lt (by omega)
  have e2 : u64 (c + W) = c + W := u64_of_lt (by omega)
  have e3 : u64Sub (2 ^ 62) W = 2 ^ 62 - W := by unfold u64Sub; omega
  have e4 : u64 (E + W / 2) = E + W / 2 := u64_of_lt (by omega)
  have e5 : c ≥ W → u64Sub c W = c - W := by unfold u64Sub; omega
  rw [e1, e2, e3, e4]
  split_ifs <;> omega

/-- Within half a window of the expected number, the truncated number determines
the packet number. -/
theorem decodePacketNumber_of_window (hk : 1 ≤ pnLen ∧ pnLen ≤ 4)
    (hpn : pn ≤ maxPacketNumber) (hlo : expectedPN largestPN < pn + 256 ^ pnLen / 2)
    (hhi : pn ≤ expectedPN largestPN + 256 ^ pnLen / 2) :
    decodePacketNumber largestPN (pn % 256 ^ pnLen) pnLen = pn := by
  unfold maxPacketNumber at hpn
  have hlt : pn % 256 ^ pnLen < 256 ^ pnLen := mod_lt _ (Nat.pow_pos (by decide))
  rw [decodePacketNumber_eq hk (by rcases pnLen_cases hk with rfl | rfl | rfl | rfl <;> omega) hlt]
  generalize expectedPN largestPN = E at hlo hhi
  unfold maxPacketNumber
  dsimp only
  rcases pnLen_cases hk with rfl | rfl | rfl | rfl <;> split_ifs <;> omega

theorem moved_mod {n c : Nat} (hn : n ≤ 64) :
    u64 (c + u64 (2 ^ n)) % 2 ^ n = c % 2 ^ n ∧ u64Sub c (u64 (2 ^ n)) % 2 ^ n = c % 2 ^ n := by
  have hdvd : 2 ^ n ∣ 2 ^ 64 := Nat.pow_dvd_pow 2 hn
  obtain ⟨m, hm⟩ : 2 ^ n ∣ u64 (2 ^ n) := (dvd_mod_iff hdvd).2 (Nat.dvd_refl _)
  obtain ⟨m', hm'⟩ := hdvd
  have hle : m ≤ m' := by
    refine Nat.le_of_mul_le_mul_left ?_ (Nat.two_pow_pos n)
    rw [← hm, ← hm']
    exact (mod_lt _ (by decide)).le
  rw [u64, u64Sub, mod_mod_of_dvd _ ⟨m', hm'⟩, mod_mod_of_dvd _ ⟨m', hm'⟩, hm, hm',
    Nat.add_sub_assoc (Nat.mul_le_mul_left _ hle), ← Nat.mul_sub]
  exact ⟨add_mul_mod_self_left .., add_mul_mod_self_left ..⟩

/-- The result is a number with the low bits that were sent, or the largest one where that is too large. -/
theorem decodePacketNumber_congr (largestPN : Nat) (ht : t < 2 ^ 64) (pnLen : Nat) :
    ∃ c, c % 256 ^ pnLen = t % 256 ^ pnLen ∧ decodePacketNumber largestPN t pnLen = min c maxPacketNumber := by
  obtain ⟨n, hn, hwin, hlow⟩ : ∃ n ≤ 64, u64 (1 <<< (pnLen * 8)) = u64 (2 ^ n) ∧
      ∀ c < 2 ^ 64, c % 2 ^ n = t % 2 ^ n → c % 256 ^ pnLen = t % 256 ^ pnLen := by
    have hpow : 256 ^ pnLen = 2 ^ (pnLen * 8) := by rw [Nat.mul_comm, Nat.pow_mul]
    rw [one_shiftLeft, hpow]
    obtain hle | hgt := Nat.le_total (pnLen * 8) 64
    · exact ⟨pnLen * 8, hle, rfl, fun c _ h => h⟩
    · refine ⟨64, Nat.le_refl _, ?_, fun c hc h => ?_⟩
      · rw [u64, mod_eq_zero_of_dvd (Nat.pow_dvd_pow 2 hgt)]
        rfl
      · rw [mod_eq_of_lt hc, mod_eq_of_lt ht] at h
        rw [h]
  have hE : expectedPN largestPN < 2 ^ 64 := by
    unfold expectedPN
    split
    · decide
    · exact mod_lt _ (by decide)
  have hmask : u64Sub (u64 (2 ^ n)) 1 = 2 ^ n - 1 := by
    have hpos := Nat.two_pow_pos n
    have hle : 2 ^ n ≤ 2 ^ 64 := Nat.pow_le_pow_right (by decide) hn
    unfold u64Sub u64
    omega
  unfold decodePacketNumber
  simp only [hwin, hmask]
  generalize expectedPN largestPN = E at hE
  have hcand : (E - (E &&& 2 ^ n - 1) ||| t) % 2 ^ n = t % 2 ^ n := by
    have hclear : (E - E % 2 ^ n) % 2 ^ n = 0 := sub_mod_eq_zero_of_mod_eq (mod_mod ..).symm
    rw [or_mod_two_pow, and_two_pow_sub_one_eq_mod, hclear, zero_or]
  have hlt : (E - (E &&& 2 ^ n - 1) ||| t) < 2 ^ 64 := or_lt_two_pow (by omega) ht
  generalize (E - (E &&& 2 ^ n - 1) ||| t) = c at hcand hlt
  obtain ⟨hup, hdown⟩ := @moved_mod n c hn
  have hclamp : ∀ c, (if c > maxPacketNumber then maxPacketNumber else c) = min c maxPacketNumber := by
    intro c
    split <;> omega
  rw [hclamp]
  refine ⟨_, hlow _ ?_ ?_, rfl⟩
  · split
    · exact mod_lt _ (by decide)
    · split
      · exact mod_lt _ (by decide)
      · exact hlt
  · split
    · exact hup.trans hcand
    · split
      · exact hdown.trans hcand
      · exact hcand

theorem half_window (hk : 1 ≤ pnLen ∧ pnLen ≤ 4) : 2 ^ (8 * pnLen - 1) = 256 ^ pnLen / 2 := by
  rcases pnLen_cases hk with rfl | rfl | rfl | rfl <;> rfl

/-- Within its window a packet number is recovered, and whatever is sent, the result is a packet number that has the
low bits that were sent unless it had to be cut down to the largest one. -/
theorem decodePacketNumber_window {largestPN pn truncatedPN pnLen : Nat} :
    ((1 ≤ pnLen ∧ pnLen ≤ 4) → (largestPN ≤ maxPacketNumber ∨ largestPN = invalidPacketNumber) → pn ≤ maxPacketNumber →
      expectedPN largestPN < pn + 2 ^ (8 * pnLen - 1) → pn ≤ expectedPN largestPN + 2 ^ (8 * pnLen - 1) →
      decodePacketNumber largestPN (pn % 2 ^ (8 * pnLen)) pnLen = pn) ∧
    (truncatedPN < 2 ^ 64 → decodePacketNumber largestPN truncatedPN pnLen ≤ maxPacketNumber ∧
      ∃ c, c % 2 ^ (8 * pnLen) = truncatedPN % 2 ^ (8 * pnLen) ∧
        decodePacketNumber largestPN truncatedPN pnLen = min c maxPacketNumber) := by
  rw [Nat.pow_mul]
  refine ⟨fun hk _ hpn hlo hhi => ?_, fun ht => ?_⟩
  · rw [half_window hk] at hlo hhi
    exact decodePacketNumber_of_window hk hpn hlo hhi
  · obtain ⟨c, hc, heq⟩ := decodePacketNumber_congr largestPN ht pnLen
    exact ⟨heq ▸ Nat.min_le_right .., c, hc, heq⟩

theorem decodePacketNumber_window_first : decodePacketNumber 0xa82f30ea 0x9b32 2 = 0xa82f9b32 :=
  (@decodePacketNumber_window 0xa82f30ea 0xa82f9b32 0 2).1 (by decide) (.inl (by decide)) (by decide) (by decide) (by decide)

/-! ## Sending -/

def packetNumberLength (pn largestAcked : Nat) : Nat :=
  let diff :=
    if largestAcked = invalidPacketNumber then u64 (pn + 1)
    else if pn < largestAcked then largestAcked - pn
    else pn - largestAcked
  let diff := u64 (diff * 2)
  if diff < 1 <<< 8 then 1 else if diff < 1 <<< 16 then 2 else if diff < 1 <<< 24 then 3 else 4

def encodePacketNumber (pn largestAcked : Nat) : Nat × Nat :=
  let pnLen := packetNumberLength pn largestAcked
  let mask :=
    match pnLen with
    | 1 => 0xff
    | 2 => 0xffff
    | 3 => 0xffffff
    | _ => 0xffffffff
  (pn &&& mask, pnLen)

/-- The numbers a sender has to do with: it is less than half the largest window away from what was acknowledged. -/
def Near (pn largestAcked : Nat) : Prop :=
  (largestAcked ≤ maxPacketNumber ∧ pn < largestAcked + 2 ^ 31 ∧ largestAcked < pn + 2 ^ 31) ∨
    (largestAcked = invalidPacketNumber ∧ pn < 2 ^ 31 - 1)

/-- The length that is chosen has the number in the window, or just outside of its lower end. -/
theorem encodePacketNumber_eq {largestAcked : Nat} (h : Near pn largestAcked) :
    ∃ pnLen, (1 ≤ pnLen ∧ pnLen ≤ 4) ∧ encodePacketNumber pn largestAcked = (pn % 256 ^ pnLen, pnLen) ∧
      pn ≤ expectedPN largestAcked + 256 ^ pnLen / 2 ∧ expectedPN largestAcked ≤ pn + 256 ^ pnLen / 2 := by
  obtain ⟨diff, hdiff, hlen, hup, hdown⟩ : ∃ diff < 2 ^ 31,
      packetNumberLength pn largestAcked = (if u64 (diff * 2) < 1 <<< 8 then 1 else if u64 (diff * 2) < 1 <<< 16 then 2
        else if u64 (diff * 2) < 1 <<< 24 then 3 else 4) ∧
      pn ≤ expectedPN largestAcked + diff ∧ expectedPN largestAcked ≤ pn + diff + 1 := by
    unfold packetNumberLength expectedPN u64
    unfold Near maxPacketNumber at h
    rcases h with ⟨hmax, hlo, hhi⟩ | ⟨rfl, hlt⟩
    · have hne : largestAcked ≠ invalidPacketNumber := by unfold invalidPacketNumber; omega
      simp only [if_neg hne]
      refine ⟨if pn < largestAcked then largestAcked - pn else pn - largestAcked, ?_, rfl, ?_, ?_⟩ <;> split <;> omega
    · exact ⟨pn + 1, by omega, by rw [if_pos rfl, mod_eq_of_lt (by omega)], by omega, by rw [if_pos rfl]; omega⟩
  have hand : pn &&& 0xff = pn % 256 ^ 1 ∧ pn &&& 0xffff = pn % 256 ^ 2 ∧ pn &&& 0xffffff = pn % 256 ^ 3 ∧
      pn &&& 0xffffffff = pn % 256 ^ 4 :=
    ⟨and_two_pow_sub_one_eq_mod pn 8, and_two_pow_sub_one_eq_mod pn 16, and_two_pow_sub_one_eq_mod pn 24,
      and_two_pow_sub_one_eq_mod pn 32⟩
  unfold encodePacketNumber
  rw [hlen, u64_of_lt (by omega)]
  generalize expectedPN largestAcked = E at hup hdown
  split_ifs with h1 h2 h3
  · exact ⟨1, by decide, congrArg (·, 1) hand.1, by omega, by omega⟩
  · exact ⟨2, by decide, congrArg (·, 2) hand.2.1, by omega, by omega⟩
  · exact ⟨3, by decide, congrArg (·, 3) hand.2.2.1, by omega, by omega⟩
  · exact ⟨4, by decide, congrArg (·, 4) hand.2.2.2, by omega, by omega⟩

/-- The largest distance for which a length is chosen below the window: the number is expected half a window after
itself. It is taken for the next one with its low bits, unless that would be no packet number. -/
theorem decodePacketNumber_at_edge (hk : 1 ≤ pnLen ∧ pnLen ≤ 4)
    (hmax : expectedPN largestPN ≤ 2 ^ 62) (hedge : expectedPN largestPN = pn + 256 ^ pnLen / 2) :
    decodePacketNumber largestPN (pn % 256 ^ pnLen) pnLen = pn ↔
      2 ^ 62 ≤ pn + 256 ^ pnLen ∧ pn % 256 ^ pnLen < 256 ^ pnLen / 2 := by
  have hlt : pn % 256 ^ pnLen < 256 ^ pnLen := mod_lt _ (Nat.pow_pos (by decide))
  rw [decodePacketNumber_eq hk (by omega) hlt]
  generalize expectedPN largestPN = E at hmax hedge
  unfold maxPacketNumber
  dsimp only
  rcases pnLen_cases hk with rfl | rfl | rfl | rfl <;> split_ifs <;> omega

/-- What is sent is decoded to the number, except half a window below what the receiver expects; there only if the
window ends the packet numbers. -/
theorem decode_encodePacketNumber_iff {pn largestAcked : Nat} (hpn : pn ≤ maxPacketNumber) (h : Near pn largestAcked) :
    let (truncatedPN, pnLen) := encodePacketNumber pn largestAcked
    decodePacketNumber largestAcked truncatedPN pnLen = pn ↔
      (largestAcked + 1 = pn + 2 ^ (8 * pnLen - 1) → 2 ^ 62 ≤ pn + 2 ^ (8 * pnLen) ∧
        pn % 2 ^ (8 * pnLen) < 2 ^ (8 * pnLen - 1)) := by
  obtain ⟨pnLen, hk, henc, hup, hdown⟩ := encodePacketNumber_eq h
  have hpow : 2 ^ (8 * pnLen) = 256 ^ pnLen := Nat.pow_mul ..
  have hle : 256 ^ pnLen ≤ 256 ^ 4 := Nat.pow_le_pow_right (by decide) hk.2
  have hpos : 2 ^ 7 ≤ 256 ^ pnLen / 2 := by
    rw [← half_window hk]
    exact Nat.pow_le_pow_right (by decide) (by omega)
  obtain ⟨hexpected, hmax⟩ : (largestAcked + 1 = pn + 256 ^ pnLen / 2 ↔
      expectedPN largestAcked = pn + 256 ^ pnLen / 2) ∧ expectedPN largestAcked ≤ 2 ^ 62 := by
    unfold expectedPN u64
    rcases h with ⟨hmax, -⟩ | ⟨rfl, hlt⟩
    · unfold maxPacketNumber at hmax
      rw [if_neg (by unfold invalidPacketNumber; omega), mod_eq_of_lt (by omega)]
      omega
    · rw [if_pos rfl]
      unfold invalidPacketNumber
      omega
  rw [henc]
  dsimp only
  rw [hpow, half_window hk, hexpected]
  rcases Nat.lt_or_eq_of_le hdown with hlt | hedge
  · simp only [decodePacketNumber_of_window hk hpn hlt hup, true_iff]
    omega
  · simp [decodePacketNumber_at_edge hk hmax hedge, hedge]

theorem decode_encodePacketNumber_apart : let (truncatedPN, pnLen) := encodePacketNumber 0xac5c02 0xabe8b3
    decodePacketNumber 0xabe8b3 truncatedPN pnLen = 0xac5c02 :=
  (decode_encodePacketNumber_iff (by decide) (.inl (by decide))).2 (by decide)

/-- 127 below the largest number that was acknowledged, one byte is taken for enough. -/
theorem low_number_mistaken : encodePacketNumber 0 127 = (0, 1) ∧ decodePacketNumber 127 0 1 = 256 := by decide

end Mach.Quic.Wire
