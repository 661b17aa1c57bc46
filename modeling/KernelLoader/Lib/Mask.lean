import Mathlib.Data.BitVec

namespace Lib
set_option autoImplicit true
set_option relaxedAutoImplicit false

/-- The value `1 << n` of a 32-bit integer as a 64-bit word. -/
def bit64 (n : Nat) : BitVec 64 := (1#32 <<< n).signExtend 64

variable {x : BitVec 64}

theorem getLsbD_bit64 (hn : n < 31) (i : Nat) : (bit64 n).getLsbD i = decide (i = n) := by
  have hone (j : Nat) : (1#32 <<< n).getLsbD j = decide (j = n) := by
    rw [BitVec.getLsbD_shiftLeft, BitVec.getLsbD_one]
    by_cases hj : j = n
    · simp [hj]
      omega
    · by_cases hlt : j < n
      · simp [hlt, hj]
      · have hne : ¬ j - n = 0 := by omega
        simp [hne, hj]
  have hmsb : (1#32 <<< n).msb = false := by
    rw [BitVec.msb_eq_getLsbD_last, hone]
    simp
    omega
  rw [bit64, BitVec.getLsbD_signExtend, hone, hmsb]
  by_cases hi : i = n
  · simp [hi]
    omega
  · simp [hi]

theorem and_bit64_eq_zero (hn : n < 31) : x &&& bit64 n = 0 ↔ x.getLsbD n = false := by
  constructor
  · intro h
    have hbit := congrArg (BitVec.getLsbD · n) h
    simpa [getLsbD_bit64 hn] using hbit
  · intro h
    apply BitVec.eq_of_getLsbD_eq
    intro i _
    by_cases hi : i = n
    · simp [hi, h]
    · simp [getLsbD_bit64 hn, hi]

theorem getLsbD_of_and_bit64_ne_zero (hn : n < 31) (h : x &&& bit64 n ≠ 0) :
    x.getLsbD n = true := by
  apply Bool.eq_true_of_not_eq_false
  intro hbit
  exact h ((and_bit64_eq_zero hn).mpr hbit)

theorem getLsbD_or_bit64 (hn : n < 31) (i : Nat) :
    (x ||| bit64 n).getLsbD i = if i = n then true else x.getLsbD i := by
  by_cases hi : i = n
  · simp [getLsbD_bit64 hn, hi]
  · simp [getLsbD_bit64 hn, hi]

theorem getLsbD_and_not_bit64 (hn : n < 31) (i : Nat) :
    (x &&& ~~~bit64 n).getLsbD i = if i = n then false else x.getLsbD i := by
  rw [BitVec.getLsbD_and, BitVec.getLsbD_not, getLsbD_bit64 hn]
  by_cases hi : i = n
  · simp [hi]
  · by_cases h64 : i < 64
    · simp [hi, h64]
    · simp [hi, BitVec.getLsbD_of_ge x i (Nat.le_of_not_lt h64)]

theorem getLsbD_xor_or_bit64 (hn : n < 31) (i : Nat) :
    (x ^^^ (x ||| bit64 n)).getLsbD i = if i = n then !x.getLsbD i else false := by
  rw [BitVec.getLsbD_xor, getLsbD_or_bit64 hn]
  by_cases hi : i = n
  · simp [hi]
  · simp [hi]

/-- The word whose low `k` bits are set. -/
def lowMask (w k : Nat) : BitVec w := BitVec.ofNat w (2 ^ k - 1)

theorem getLsbD_lowMask (w k i : Nat) :
    (lowMask w k).getLsbD i = (decide (i < w) && decide (i < k)) := by
  rw [lowMask, BitVec.getLsbD_ofNat, Nat.testBit_two_pow_sub_one]

theorem getLsbD_not_lowMask (w k i : Nat) :
    (~~~lowMask w k).getLsbD i = (decide (i < w) && decide (k ≤ i)) := by
  rw [BitVec.getLsbD_not, getLsbD_lowMask]
  by_cases hi : i < w
  · by_cases hk : k ≤ i
    · simp [hi, hk]
    · simp [hi, hk, Nat.lt_of_not_le hk]
  · simp [hi]

theorem toNat_lowMask (h : k ≤ w) : (lowMask w k).toNat = 2 ^ k - 1 := by
  have hle : 2 ^ k ≤ 2 ^ w := Nat.pow_le_pow_right (by decide) h
  have hpos := Nat.two_pow_pos k
  rw [lowMask, BitVec.toNat_ofNat, Nat.mod_eq_of_lt (by omega)]

theorem lowMask_shiftRight (h : k < w) : lowMask w (k + 1) >>> 1 = lowMask w k := by
  apply BitVec.eq_of_toNat_eq
  rw [BitVec.toNat_ushiftRight, toNat_lowMask h, toNat_lowMask (Nat.le_of_lt h),
    Nat.shiftRight_eq_div_pow, Nat.pow_succ]
  omega

theorem lowMask_add_one (h : k < w) : lowMask w k + 1#w = BitVec.twoPow w k := by
  have hlt : 2 ^ k < 2 ^ w := Nat.pow_lt_pow_right (by decide) h
  have hpos := Nat.two_pow_pos k
  have hone : 1 % 2 ^ w = 1 := Nat.mod_eq_of_lt (by omega)
  apply BitVec.eq_of_toNat_eq
  rw [BitVec.toNat_add, toNat_lowMask (Nat.le_of_lt h), BitVec.toNat_twoPow, BitVec.toNat_ofNat,
    hone, Nat.sub_add_cancel hpos]

theorem and_not_lowMask_eq_iff (x y : BitVec w) (k : Nat) :
    x &&& ~~~lowMask w k = y &&& ~~~lowMask w k ↔ x.toNat / 2 ^ k = y.toNat / 2 ^ k := by
  rw [← Nat.shiftRight_eq_div_pow, ← Nat.shiftRight_eq_div_pow]
  constructor
  · intro h
    apply Nat.eq_of_testBit_eq
    intro i
    have hbit := congrArg (BitVec.getLsbD · (k + i)) h
    simp only [BitVec.getLsbD_and, getLsbD_not_lowMask] at hbit
    rw [Nat.testBit_shiftRight, Nat.testBit_shiftRight]
    by_cases hi : k + i < w
    · simpa [hi, BitVec.getLsbD] using hbit
    · have hx := BitVec.getLsbD_of_ge x (k + i) (Nat.le_of_not_lt hi)
      have hy := BitVec.getLsbD_of_ge y (k + i) (Nat.le_of_not_lt hi)
      exact hx.trans hy.symm
  · intro h
    apply BitVec.eq_of_getLsbD_eq
    intro i hi
    rw [BitVec.getLsbD_and, BitVec.getLsbD_and, getLsbD_not_lowMask]
    by_cases hk : k ≤ i
    · have hbit := congrArg (Nat.testBit · (i - k)) h
      simp only [Nat.testBit_shiftRight, Nat.add_sub_cancel' hk] at hbit
      simpa [hi, hk, BitVec.getLsbD] using hbit
    · simp [hk]

theorem toNat_splice (x y : BitVec w) (k : Nat) :
    (x &&& ~~~lowMask w k ||| y &&& lowMask w k).toNat =
      2 ^ k * (x.toNat / 2 ^ k) + y.toNat % 2 ^ k := by
  have hlt : y.toNat % 2 ^ k < 2 ^ k := Nat.mod_lt _ (Nat.two_pow_pos k)
  apply Nat.eq_of_testBit_eq
  intro i
  rw [BitVec.testBit_toNat, BitVec.getLsbD_or, BitVec.getLsbD_and, BitVec.getLsbD_and,
    getLsbD_not_lowMask, getLsbD_lowMask, Nat.testBit_two_pow_mul_add _ hlt,
    Nat.testBit_mod_two_pow, ← Nat.shiftRight_eq_div_pow, Nat.testBit_shiftRight,
    BitVec.testBit_toNat, BitVec.testBit_toNat]
  by_cases hw : i < w
  · by_cases hk : i < k
    · simp [hw, hk]
    · have hki : k + (i - k) = i := by omega
      simp [hw, hk, Nat.le_of_not_lt hk, hki]
  · have hx := BitVec.getLsbD_of_ge x i (Nat.le_of_not_lt hw)
    have hy := BitVec.getLsbD_of_ge y i (Nat.le_of_not_lt hw)
    by_cases hk : i < k
    · simp [hw, hk, hy]
    · have hki : k + (i - k) = i := by omega
      simp [hw, hk, hki, hx]

end Lib
