import Mathlib.Data.BitVec
import Mathlib.Tactic.SplitIfs

namespace Lib.Bitmap
set_option autoImplicit true
set_option relaxedAutoImplicit false

/-- The bytes of a disk by the numbers of its sectors and their places there. -/
abbrev Disk := Nat → Nat → BitVec 8

/-- Bit `n` of a map in sectors of `size` bytes, which begins with the lowest bit of the first byte
of the sector `start`. -/
def bit (d : Disk) (start size n : Nat) : Bool :=
  (d (start + n / (8 * size)) (n % (8 * size) / 8)).getLsbD (n % 8)

def setByte (d : Disk) (sector off : Nat) (b : BitVec 8) : Disk := fun s o =>
  if s = sector ∧ o = off then b else d s o

variable {d : Disk} {start size sector i off k m : Nat} {b : BitVec 8} {v : Bool}

theorem place_eq_iff (hoff : off < size) (hk : k < 8) :
    m = i * (8 * size) + off * 8 + k ↔
      m / (8 * size) = i ∧ m % (8 * size) / 8 = off ∧ m % 8 = k := by
  constructor
  · intro h
    have hm : m = (off * 8 + k) + 8 * size * i := by
      rw [h, Nat.mul_comm (8 * size)]
      omega
    have hdiv : m / (8 * size) = i := by
      rw [hm, Nat.add_mul_div_left _ _ (by omega), Nat.div_eq_of_lt (by omega), Nat.zero_add]
    have hmod : m % (8 * size) = off * 8 + k := by
      rw [hm, Nat.add_mul_mod_self_left, Nat.mod_eq_of_lt (by omega)]
    have hbit : m % 8 = k := by
      rw [← Nat.mod_mul_right_mod m 8 size, hmod]
      omega
    exact ⟨hdiv, by omega, hbit⟩
  · rintro ⟨rfl, rfl, rfl⟩
    have hsplit := Nat.div_add_mod m (8 * size)
    have hbit := Nat.mod_mul_right_mod m 8 size
    rw [Nat.mul_comm] at hsplit
    omega

theorem bit_setByte (hoff : off < size) (hk : k < 8)
    (hb : ∀ j < 8, b.getLsbD j = if j = k then v else (d (start + i) off).getLsbD j) (m : Nat) :
    bit (setByte d (start + i) off b) start size m =
      if m = i * (8 * size) + off * 8 + k then v else bit d start size m := by
  have hlt : m % 8 < 8 := Nat.mod_lt m (by decide)
  rw [bit, setByte]
  by_cases hplace : m / (8 * size) = i ∧ m % (8 * size) / 8 = off
  · rw [if_pos ⟨by rw [hplace.1], hplace.2⟩, hb _ hlt]
    by_cases hm : m % 8 = k
    · rw [if_pos hm, if_pos ((place_eq_iff hoff hk).mpr ⟨hplace.1, hplace.2, hm⟩)]
    · rw [if_neg hm, if_neg fun h => hm ((place_eq_iff hoff hk).mp h).2.2, bit, hplace.1, hplace.2]
  · have hother : ¬ m = i * (8 * size) + off * 8 + k := fun h =>
      hplace ⟨((place_eq_iff hoff hk).mp h).1, ((place_eq_iff hoff hk).mp h).2.1⟩
    rw [if_neg hother, if_neg fun h => hplace ⟨Nat.add_left_cancel h.1, h.2⟩, bit]

theorem getLsbD_or_twoPow (x : BitVec 8) (hk : k < 8) :
    ∀ j < 8, (x ||| BitVec.twoPow 8 k).getLsbD j = if j = k then true else x.getLsbD j := by
  intro j hj
  rw [BitVec.getLsbD_or, BitVec.getLsbD_twoPow]
  by_cases h : j = k
  · simp [h, hk]
  · have hne : ¬ k = j := fun he => h he.symm
    simp [h, hne]

theorem getLsbD_and_not_twoPow (x : BitVec 8) (hk : k < 8) :
    ∀ j < 8, (x &&& ~~~BitVec.twoPow 8 k).getLsbD j = if j = k then false else x.getLsbD j := by
  intro j hj
  rw [BitVec.getLsbD_and, BitVec.getLsbD_not, BitVec.getLsbD_twoPow]
  by_cases h : j = k
  · simp [h, hk]
  · have hne : ¬ k = j := fun he => h he.symm
    simp [h, hj, hne]

theorem and_twoPow_eq_zero (x : BitVec 8) (hk : k < 8) :
    x &&& BitVec.twoPow 8 k = 0 ↔ x.getLsbD k = false := by
  constructor
  · intro h
    have hbit := congrArg (BitVec.getLsbD · k) h
    simpa [hk] using hbit
  · intro h
    apply BitVec.eq_of_getLsbD_eq
    intro j hj
    by_cases hjk : j = k
    · simp [hjk, h]
    · have hne : ¬ k = j := fun he => hjk he.symm
      simp [hne]

/-- How many of the low bits of a number are set. -/
def trailingOnes (fuel val : Nat) : Nat :=
  match fuel with
  | 0 => 0
  | fuel + 1 => if val % 2 = 1 then trailingOnes fuel (val / 2) + 1 else 0

theorem trailingOnes_spec (n val : Nat) :
    (∀ j < trailingOnes n val, val.testBit j = true) ∧
      (trailingOnes n val < n → val.testBit (trailingOnes n val) = false) := by
  induction n generalizing val with
  | zero => exact ⟨fun j hj => absurd hj (Nat.not_lt_zero j), fun h => absurd h (Nat.not_lt_zero 0)⟩
  | succ n ih =>
    rw [trailingOnes]
    split
    · next hodd =>
      obtain ⟨hones, hzero⟩ := ih (val / 2)
      constructor
      · intro j hj
        cases j with
        | zero => simpa [Nat.testBit_zero] using hodd
        | succ j =>
          rw [Nat.testBit_succ]
          exact hones j (Nat.lt_of_succ_lt_succ hj)
      · intro h
        rw [Nat.testBit_succ]
        exact hzero (Nat.lt_of_succ_lt_succ h)
    · next hodd =>
      refine ⟨fun j hj => absurd hj (Nat.not_lt_zero j), fun _ => ?_⟩
      simpa [Nat.testBit_zero] using hodd

theorem trailingOnes_byte (hb : b ≠ 0xFF#8) :
    trailingOnes 8 b.toNat < 8 ∧ b.getLsbD (trailingOnes 8 b.toNat) = false ∧
      ∀ j < trailingOnes 8 b.toNat, b.getLsbD j = true := by
  obtain ⟨hones, hzero⟩ := trailingOnes_spec 8 b.toNat
  have hlt : trailingOnes 8 b.toNat < 8 := by
    by_contra hge
    apply hb
    apply BitVec.eq_of_getLsbD_eq
    intro j hj
    rw [← BitVec.testBit_toNat, hones j (by omega)]
    have hall : ∀ j < 8, (0xFF#8).getLsbD j = true := by decide
    exact (hall j hj).symm
  refine ⟨hlt, ?_, ?_⟩
  · rw [← BitVec.testBit_toNat]
    exact hzero hlt
  · intro j hj
    rw [← BitVec.testBit_toNat]
    exact hones j hj

/-- The first byte from `off` on that has a clear bit. -/
def firstFree (bytes : Nat → BitVec 8) (off : Nat) : Nat → Option Nat
  | 0 => none
  | n + 1 => if bytes off = 0xFF#8 then firstFree bytes (off + 1) n else some off

theorem firstFree_some {bytes : Nat → BitVec 8} (h : firstFree bytes off n = some o) :
    off ≤ o ∧ o < off + n ∧ bytes o ≠ 0xFF#8 ∧ ∀ j, off ≤ j → j < o → bytes j = 0xFF#8 := by
  induction n generalizing off with
  | zero => cases h
  | succ n ih =>
    rw [firstFree] at h
    split at h
    · next hfull =>
      obtain ⟨hle, hlt, hfree, hbefore⟩ := ih h
      refine ⟨by omega, by omega, hfree, fun j hj hjo => ?_⟩
      by_cases hoff : j = off
      · rw [hoff, hfull]
      · exact hbefore j (by omega) hjo
    · next hfree =>
      cases h
      exact ⟨Nat.le_refl _, by omega, hfree, fun j hj hjo => absurd hjo (Nat.not_lt.mpr hj)⟩

theorem firstFree_none {bytes : Nat → BitVec 8} (h : firstFree bytes off n = none) :
    ∀ j, off ≤ j → j < off + n → bytes j = 0xFF#8 := by
  induction n generalizing off with
  | zero =>
    intro j hj hlt
    omega
  | succ n ih =>
    rw [firstFree] at h
    split at h
    · next hfull =>
      intro j hj hlt
      by_cases hoff : j = off
      · rw [hoff, hfull]
      · exact ih h j (by omega) (by omega)
    · cases h

theorem getLsbD_full : ∀ j < 8, (0xFF#8).getLsbD j = true := by decide

end Lib.Bitmap
