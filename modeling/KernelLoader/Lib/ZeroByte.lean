import KernelLoader.Lib.Mmi

namespace Lib.Mmi
set_option autoImplicit true
set_option relaxedAutoImplicit false

/-- One of `n` bytes is zero. -/
def HasZero (m : Mem) (a n : Nat) : Prop := ∃ i < n, m (a + i) = 0

instance (m : Mem) (a n : Nat) : Decidable (HasZero m a n) :=
  inferInstanceAs (Decidable (∃ i < n, m (a + i) = 0))

/-- A one in each byte. -/
def ones : BitVec 64 := 0x0101010101010101

/-- The highest bit of each byte. -/
def highs : BitVec 64 := 0x8080808080808080

section Doubleword
variable {m : Mem}

/-- The highest bit of a byte is set in a number less one in each byte, and not in the number. -/
def Borrows (m : Mem) (a n : Nat) : Prop :=
  ∃ i < n, ((le m a n + 256 ^ n - le (fun _ => 1) 0 n) % 256 ^ n).testBit (8 * i + 7) = true ∧
    (le m a n).testBit (8 * i + 7) = false

theorem testBit_byte_above (x y j : Nat) (hx : x < 256) :
    (x + 256 * y).testBit (8 * (j + 1) + 7) = y.testBit (8 * j + 7) := by
  have h := Nat.testBit_two_pow_mul_add y (i := 8) hx (8 * (j + 1) + 7)
  rw [if_neg (by omega), show 8 * (j + 1) + 7 - 8 = 8 * j + 7 by omega] at h
  rw [← h, Nat.add_comm]

theorem testBit_byte_lowest (x y : Nat) (hx : x < 256) :
    (x + 256 * y).testBit 7 = decide (128 ≤ x) := by
  have h := Nat.testBit_two_pow_mul_add y (i := 8) hx 7
  rw [if_pos (by decide), Nat.add_comm] at h
  rw [h, Nat.testBit_eq_decide_div_mod_eq]
  exact decide_eq_decide.mpr (by omega)

/-- The subtraction borrows first at the lowest byte that is zero. -/
theorem borrows_iff (m : Mem) (a n : Nat) : Borrows m a n ↔ HasZero m a n := by
  induction n generalizing a with
  | zero =>
    constructor
    · rintro ⟨i, hi, -⟩
      exact absurd hi (Nat.not_lt_zero i)
    · rintro ⟨i, hi, -⟩
      exact absurd hi (Nat.not_lt_zero i)
  | succ n ih =>
    have hb := (m a).toNat_lt
    have hones := le_lt (fun _ => 1) 0 n
    have hone : le (fun _ => 1) 0 (n + 1) = 1 + 256 * le (fun _ => 1) 0 n := by
      rw [le, le_eq_le (g := fun _ => 1) (b := 0) (fun _ _ => rfl)]
      rfl
    have hsplit (x y : Nat) (hx : x < 256) :
        (x + 256 * y) % 256 ^ (n + 1) = x + 256 * (y % 256 ^ n) := by
      have hlow : (x + 256 * y) % 256 = x := by omega
      have hrest : (x + 256 * y) / 256 = y := by omega
      rw [Nat.pow_succ', Nat.mod_mul, hlow, hrest]
    rw [Borrows, le, hone, Nat.pow_succ']
    by_cases hzero : m a = 0
    · -- the lowest byte itself
      apply iff_of_true
      · have hdiff : (m a).toNat + 256 * le m (a + 1) n + 256 * 256 ^ n -
            (1 + 256 * le (fun _ => 1) 0 n) =
              255 + 256 * (le m (a + 1) n + 256 ^ n - le (fun _ => 1) 0 n - 1) := by
          rw [hzero]
          simp only [UInt8.toNat_zero]
          omega
        refine ⟨0, Nat.succ_pos n, ?_, ?_⟩
        · rw [hdiff, ← Nat.pow_succ', hsplit _ _ (by decide), testBit_byte_lowest _ _ (by decide)]
          rfl
        · rw [testBit_byte_lowest _ _ hb, hzero]
          rfl
      · exact ⟨0, Nat.succ_pos n, hzero⟩
    · have hpos : (m a).toNat ≠ 0 := fun h => hzero (UInt8.toNat_inj.mp h)
      have hdiff : (m a).toNat + 256 * le m (a + 1) n + 256 * 256 ^ n -
          (1 + 256 * le (fun _ => 1) 0 n) =
            ((m a).toNat - 1) + 256 * (le m (a + 1) n + 256 ^ n - le (fun _ => 1) 0 n) := by
        omega
      rw [hdiff, ← Nat.pow_succ', hsplit _ _ (by omega)]
      constructor
      · rintro ⟨i, hi, hset, hclear⟩
        cases i with
        | zero =>
          rw [testBit_byte_lowest _ _ (by omega)] at hset
          rw [testBit_byte_lowest _ _ hb] at hclear
          have h1 := of_decide_eq_true hset
          have h2 := of_decide_eq_false hclear
          omega
        | succ j =>
          rw [testBit_byte_above _ _ _ (by omega)] at hset hclear
          obtain ⟨k, hk, hm⟩ := (ih (a + 1)).mp ⟨j, by omega, hset, hclear⟩
          refine ⟨k + 1, by omega, ?_⟩
          rw [← hm, Nat.add_assoc, Nat.add_comm 1 k]
      · rintro ⟨i, hi, hm⟩
        cases i with
        | zero => exact absurd hm hzero
        | succ j =>
          have hrest : HasZero m (a + 1) n := by
            refine ⟨j, by omega, ?_⟩
            rw [← hm, Nat.add_assoc, Nat.add_comm 1 j]
          obtain ⟨k, hk, hset, hclear⟩ := (ih (a + 1)).mpr hrest
          refine ⟨k + 1, by omega, ?_, ?_⟩
          · rw [testBit_byte_above _ _ _ (by omega), hset]
          · rw [testBit_byte_above _ _ _ hb, hclear]

theorem getLsbD_highs : ∀ i < 64, highs.getLsbD i = decide (i % 8 = 7) := by decide

theorem dword_test (m : Mem) (a : Nat) :
    (BitVec.ofNat 64 (le m a 8) - ones) &&& ~~~BitVec.ofNat 64 (le m a 8) &&& highs = 0#64 ↔
      ¬ HasZero m a 8 := by
  have hload : (BitVec.ofNat 64 (le m a 8)).toNat = le m a 8 := toNat_le_load (by decide) m a
  have hones : ones.toNat = le (fun _ => 1) 0 8 := by decide
  have hsub : (BitVec.ofNat 64 (le m a 8) - ones).toNat =
      (le m a 8 + 256 ^ 8 - le (fun _ => 1) 0 8) % 256 ^ 8 := by
    have hlt := le_lt (fun _ => 1) 0 8
    have hpow : 2 ^ 64 = 256 ^ 8 := by decide
    rw [BitVec.toNat_sub, hload, hones, hpow, Nat.add_comm, Nat.add_sub_assoc (Nat.le_of_lt hlt)]
  rw [← borrows_iff]
  constructor
  · rintro h ⟨i, hi, hset, hclear⟩
    have hbit := congrArg (BitVec.getLsbD · (8 * i + 7)) h
    simp only [BitVec.getLsbD_and, BitVec.getLsbD_not, getLsbD_highs (8 * i + 7) (by omega)] at hbit
    rw [← BitVec.testBit_toNat, hsub, hset, ← BitVec.testBit_toNat, hload, hclear] at hbit
    simp at hbit
    omega
  · intro h
    apply BitVec.eq_of_getLsbD_eq
    intro j hj
    rw [BitVec.getLsbD_and, BitVec.getLsbD_and, BitVec.getLsbD_not, getLsbD_highs j hj,
      ← BitVec.testBit_toNat, hsub, ← BitVec.testBit_toNat, hload]
    by_cases h7 : j % 8 = 7
    · have hj' : 8 * (j / 8) + 7 = j := by omega
      have hnone : ¬ (_ ∧ _) := fun hb => h ⟨j / 8, by omega, hb⟩
      rw [hj'] at hnone
      cases hset : ((le m a 8 + 256 ^ 8 - le (fun _ => 1) 0 8) % 256 ^ 8).testBit j with
      | false => simp
      | true =>
        cases hclear : (le m a 8).testBit j with
        | false => exact absurd ⟨hset, hclear⟩ hnone
        | true => simp
    · simp [h7]

end Doubleword

section Quadword
variable {m : Mem}

theorem toBitVec_byte (v : BitVec w) (i : Nat) : (byte v i).toBitVec = v.extractLsb' (8 * i) 8 := by
  apply BitVec.eq_of_toNat_eq
  have hpow : 256 ^ i = 2 ^ (8 * i) := by rw [Nat.pow_mul]
  have hbyte : (byte v i).toBitVec.toNat = v.toNat / 256 ^ i % 2 ^ 8 := UInt8.toNat_ofNat'
  rw [hbyte, BitVec.extractLsb'_toNat, Nat.shiftRight_eq_div_pow, hpow]

theorem byte_pand (v w : BitVec 128) (i : Nat) : byte (pand v w) i = byte v i &&& byte w i := by
  apply UInt8.toBitVec_inj.mp
  rw [UInt8.toBitVec_and, toBitVec_byte, toBitVec_byte, toBitVec_byte, pand, BitVec.extractLsb'_and]

theorem byte_pnor_zero (v : BitVec 128) (hi : i < 16) : byte (pnor 0#128 v) i = ~~~byte v i := by
  apply UInt8.toBitVec_inj.mp
  rw [UInt8.toBitVec_not, toBitVec_byte, toBitVec_byte, pnor, BitVec.zero_or]
  apply BitVec.eq_of_getLsbD_eq
  intro j hj
  simp [hj]
  omega

theorem byte_psubb (v w : BitVec 128) (hi : i < 16) :
    byte (psubb v w) i = byte v i - byte w i := by
  rw [psubb, byte_load (by decide) _ 0 hi, Nat.zero_add]

theorem eq_zero_iff_byte (v : BitVec 128) : v = 0 ↔ ∀ i < 16, byte v i = 0 := by
  constructor
  · intro h i hi
    rw [h, byte]
    simp
  · intro h
    apply BitVec.eq_of_getLsbD_eq
    intro j hj
    have hbyte := congrArg (fun x => x.toBitVec.getLsbD (j % 8)) (h (j / 8) (by omega))
    simp only [toBitVec_byte, BitVec.getLsbD_extractLsb'] at hbyte
    rw [show 8 * (j / 8) + j % 8 = j by omega, decide_eq_true (Nat.mod_lt j (by decide))] at hbyte
    simpa using hbyte

/-- The test of each byte of a quadword whether it is zero. -/
def quadTest (v : BitVec 128) : BitVec 128 :=
  pand (pand (psubb v (ones ++ ones)) (pnor 0#128 v)) (highs ++ highs)

theorem byte_test_eq_zero (x : UInt8) : (x - 1) &&& ~~~x &&& 128 = 0 ↔ x ≠ 0 := by
  have h : ∀ b : BitVec 8, (b - 1) &&& ~~~b &&& 128 = 0 ↔ b ≠ 0 := by decide
  rw [ne_eq, ← UInt8.toBitVec_inj, ← UInt8.toBitVec_inj]
  exact h x.toBitVec

theorem quad_test (m : Mem) (a : Nat) :
    high (quadTest (.ofNat 128 (le m a 16))) ||| low (quadTest (.ofNat 128 (le m a 16))) = 0#64 ↔
      ¬ HasZero m a 16 := by
  have hones : ∀ i < 16, byte (ones ++ ones) i = 1 := by decide
  have hhighs : ∀ i < 16, byte (highs ++ highs) i = 128 := by decide
  have hbyte : ∀ i < 16, byte (quadTest (.ofNat 128 (le m a 16))) i = 0 ↔ m (a + i) ≠ 0 := by
    intro i hi
    rw [quadTest, byte_pand, byte_pand, byte_psubb _ _ hi, byte_pnor_zero _ hi, hones i hi,
      hhighs i hi, byte_load (by decide) m a hi, byte_test_eq_zero]
  rw [high_or_low_eq_zero, eq_zero_iff_byte]
  constructor
  · rintro h ⟨i, hi, hm⟩
    exact (hbyte i hi).mp (h i hi) hm
  · intro h i hi
    exact (hbyte i hi).mpr fun hm => h ⟨i, hi, hm⟩

end Quadword

end Lib.Mmi
