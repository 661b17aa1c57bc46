import Mathlib.Data.Nat.Bitwise
import Mathlib.Tactic.SplitIfs

namespace Lib
set_option autoImplicit true
set_option relaxedAutoImplicit false

/-- The value of an unsigned 32-bit word. -/
def u32 (x : Nat) : Nat := x % 2 ^ 32

/-- Subtraction of unsigned 32-bit words. -/
def sub32 (x y : Nat) : Nat := (x + 2 ^ 32 - y % 2 ^ 32) % 2 ^ 32

/-- The value of a 32-bit word read as a signed integer. -/
def s32 (x : Nat) : Int := if x % 2 ^ 32 < 2 ^ 31 then x % 2 ^ 32 else x % 2 ^ 32 - 2 ^ 32

theorem u32_lt (x : Nat) : u32 x < 2 ^ 32 := Nat.mod_lt _ (by decide)

@[simp] theorem u32_of_lt (h : x < 2 ^ 32) : u32 x = x := Nat.mod_eq_of_lt h

theorem sub32_lt (x y : Nat) : sub32 x y < 2 ^ 32 := Nat.mod_lt _ (by decide)

theorem sub32_of_le (h : y ≤ x) (hx : x < 2 ^ 32) : sub32 x y = x - y := by
  unfold sub32
  omega

theorem sub32_of_lt (h : x < y) (hy : y < 2 ^ 32) : sub32 x y = x + 2 ^ 32 - y := by
  unfold sub32
  omega

theorem and_mask (x n : Nat) : x &&& (2 ^ n - 1) = x % 2 ^ n := Nat.and_two_pow_sub_one_eq_mod x n

theorem and_high_mask (x n k : Nat) (h : x < 2 ^ (n + k)) :
    x &&& (2 ^ k - 1) <<< n = x / 2 ^ n * 2 ^ n := by
  rw [← Nat.shiftLeft_eq, ← Nat.shiftRight_eq_div_pow]
  refine Nat.eq_of_testBit_eq fun i => ?_
  rw [Nat.testBit_and, Nat.testBit_shiftLeft, Nat.testBit_shiftLeft, Nat.testBit_shiftRight,
    Nat.testBit_two_pow_sub_one]
  by_cases hn : n ≤ i
  · rw [Nat.add_sub_cancel' hn]
    by_cases hk : i - n < k
    · simp [hn, hk]
    · have hle : 2 ^ (n + k) ≤ 2 ^ i := Nat.pow_le_pow_right (by decide) (by omega)
      rw [Nat.testBit_lt_two_pow (h.trans_le hle)]
      simp
  · simp [hn]

theorem or_shiftLeft_of_lt (h : x < 2 ^ n) (y : Nat) : x ||| y <<< n = y * 2 ^ n + x := by
  rw [Nat.or_comm, ← Nat.shiftLeft_add_eq_or_of_lt h, Nat.shiftLeft_eq]

theorem u32_shiftLeft (y n : Nat) (hn : n ≤ 32) : u32 (y <<< n) = (y % 2 ^ (32 - n)) <<< n := by
  have hsplit : (2 : Nat) ^ 32 = 2 ^ (32 - n) * 2 ^ n := by
    rw [← Nat.pow_add, Nat.sub_add_cancel hn]
  rw [u32, Nat.shiftLeft_eq, Nat.shiftLeft_eq, hsplit, Nat.mul_mod_mul_right]

end Lib
