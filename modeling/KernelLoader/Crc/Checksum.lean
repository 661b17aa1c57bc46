import KernelLoader.Lib.Memory
import KernelLoader.Lib.ShiftRegister

namespace KernelLoader.Crc
open Lib
set_option autoImplicit true
set_option relaxedAutoImplicit false

def crc32mask : UInt32 := 0x04C11DB7

/-- The body of the inner loop of `calc_crc`: bit `n` of a byte. -/
def crcBit (data : UInt8) (crc32 : UInt32) (n : Nat) : UInt32 :=
  let bit := (crc32 >>> 31).toUInt8
  let databit := (data >>> n.toUInt8) &&& 1
  if bit ≠ databit then (crc32 <<< 1) ^^^ crc32mask else crc32 <<< 1

/-- The body of the outer loop of `calc_crc`. -/
def crcByte (crc32 : UInt32) (data : UInt8) : UInt32 := (List.range 8).foldl (crcBit data) crc32

/-- `calc_crc` of the loader and of crc32gen. The counter is an `int`, so there are less than 2^31
bytes. -/
def calcCrc (data : Mem) (size : Nat) : UInt32 :=
  (List.range size).foldl (fun crc32 i => crcByte crc32 (data i)) 0

/-- The bits of a sequence of bytes, the lowest bit of a byte first. -/
def bitAt (data : Mem) (j : Nat) : Bool := (data (j / 8)).toBitVec.getLsbD (j % 8)

def bitsOf (data : Mem) (n : Nat) : List Bool := (List.range n).map (bitAt data)

theorem toNat_topBit (crc32 : UInt32) :
    (crc32 >>> 31).toUInt8.toNat = crc32.toBitVec.msb.toNat := by
  have hlt := crc32.toNat_lt
  rw [BitVec.msb_eq_decide]
  simp only [UInt32.toNat_toUInt8, UInt32.toNat_shiftRight, UInt32.toNat_toBitVec]
  rw [show (31 : UInt32).toNat % 32 = 31 from rfl, Nat.shiftRight_eq_div_pow]
  by_cases hb : 2 ^ (32 - 1) ≤ crc32.toNat
  · simp only [hb, decide_true, Bool.toNat_true]
    omega
  · simp only [hb, decide_false, Bool.toNat_false]
    omega

theorem toNat_dataBit (data : UInt8) (hn : n < 8) :
    ((data >>> n.toUInt8) &&& 1).toNat = (data.toBitVec.getLsbD n).toNat := by
  have hn' : n.toUInt8.toNat = n := by
    rw [UInt8.toNat_ofNat']
    omega
  rw [UInt8.toNat_and, UInt8.toNat_shiftRight, hn', Nat.mod_eq_of_lt hn,
    show (1 : UInt8).toNat = 1 from rfl, Nat.and_one_is_mod, Nat.shiftRight_eq_div_pow,
    BitVec.getLsbD, UInt8.toNat_toBitVec, Nat.toNat_testBit]

/-- The two bits compared are the one shifted out and the one of the data. -/
theorem crcBit_toBitVec (data : UInt8) (crc32 : UInt32) (hn : n < 8) :
    (crcBit data crc32 n).toBitVec =
      shiftIn crc32mask.toBitVec crc32.toBitVec (data.toBitVec.getLsbD n) := by
  have hbool : ∀ a b : Bool, a.toNat = b.toNat ↔ a = b := by decide
  have hne : (crc32 >>> 31).toUInt8 ≠ (data >>> n.toUInt8) &&& 1 ↔
      (crc32.toBitVec.msb != data.toBitVec.getLsbD n) = true := by
    rw [bne_iff_ne, Ne, Ne, ← UInt8.toNat_inj, toNat_topBit, toNat_dataBit data hn, hbool]
  rw [crcBit, shiftIn]
  simp only [hne]
  split_ifs
  · rfl
  · rfl

theorem crcByte_toBitVec (crc32 : UInt32) (data : UInt8) :
    (crcByte crc32 data).toBitVec = shiftAll crc32mask.toBitVec crc32.toBitVec
      ((List.range 8).map data.toBitVec.getLsbD) := by
  have hall (k : Nat) (hk : k ≤ 8) :
      ((List.range k).foldl (crcBit data) crc32).toBitVec = shiftAll crc32mask.toBitVec
        crc32.toBitVec ((List.range k).map data.toBitVec.getLsbD) := by
    induction k with
    | zero => rfl
    | succ k ih =>
      rw [List.range_succ, List.foldl_append, List.map_append, shiftAll_append,
        ← ih (Nat.le_of_succ_le hk)]
      exact crcBit_toBitVec data _ hk
  exact hall 8 (Nat.le_refl 8)

theorem bitsOf_succ (data : Mem) (size : Nat) : bitsOf data (8 * (size + 1)) =
    bitsOf data (8 * size) ++ (List.range 8).map (data size).toBitVec.getLsbD := by
  rw [bitsOf, Nat.mul_succ, List.range_add, List.map_append, List.map_map]
  congr 1
  apply List.map_congr_left
  intro n hn
  have hn := List.mem_range.mp hn
  rw [Function.comp, bitAt, show (8 * size + n) / 8 = size by omega,
    show (8 * size + n) % 8 = n by omega]

theorem calcCrc_zero (data : Mem) : calcCrc data 0 = 0 := by
  rw [calcCrc, List.range_zero, List.foldl_nil]

theorem calcCrc_succ (data : Mem) (size : Nat) :
    calcCrc data (size + 1) = crcByte (calcCrc data size) (data size) := by
  rw [calcCrc, List.range_succ, List.foldl_append, List.foldl_cons, List.foldl_nil, calcCrc]

theorem calcCrc_congr {x y : Mem} {size : Nat} (h : ∀ i < size, x i = y i) :
    calcCrc x size = calcCrc y size := by
  induction size with
  | zero => rw [calcCrc_zero, calcCrc_zero]
  | succ size ih =>
    rw [calcCrc_succ, calcCrc_succ, ih fun i hi => h i (by omega), h size (Nat.lt_succ_self size)]

theorem calcCrc_toBitVec (data : Mem) (size : Nat) :
    (calcCrc data size).toBitVec =
      shiftAll crc32mask.toBitVec 0#32 (bitsOf data (8 * size)) := by
  induction size with
  | zero => rfl
  | succ size ih =>
    rw [bitsOf_succ, shiftAll_append, ← ih, ← crcByte_toBitVec, calcCrc_succ]

theorem bitAt_xor (x y : Mem) (j : Nat) :
    bitAt (fun i => x i ^^^ y i) j = (bitAt x j ^^ bitAt y j) := by
  rw [bitAt, UInt8.toBitVec_xor, BitVec.getLsbD_xor]
  rfl

theorem bitsOf_xor (x y : Mem) (n : Nat) : bitsOf (fun i => x i ^^^ y i) n =
    List.zipWith xor (bitsOf x n) (bitsOf y n) := by
  rw [bitsOf, bitsOf, bitsOf, List.zipWith_map, List.zipWith_self]
  exact List.map_congr_left fun j _ => bitAt_xor x y j

theorem calcCrc_xor (x y : Mem) (size : Nat) :
    calcCrc (fun i => x i ^^^ y i) size = calcCrc x size ^^^ calcCrc y size := by
  apply UInt32.toBitVec_inj.mp
  rw [UInt32.toBitVec_xor, calcCrc_toBitVec, calcCrc_toBitVec, calcCrc_toBitVec, bitsOf_xor,
    ← shiftAll_xor _ _ _ (by simp [bitsOf])]
  simp

theorem bitsOf_add (data : Mem) (k m n : Nat) : bitsOf data (k + (m + n)) =
    bitsOf data k ++ ((List.range m).map (fun i => bitAt data (k + i)) ++
      (List.range n).map (fun i => bitAt data (k + (m + i)))) := by
  rw [bitsOf, List.range_add, List.range_add, List.map_append, List.map_append, List.map_append,
    List.map_map, List.map_map, List.map_map]
  rfl

/-- If the checksum is 0 and all set bits are in a window of 32 bits, there are none. -/
theorem bits_clear_of_calcCrc {d : Mem} {size p : Nat} (hzero : calcCrc d size = 0)
    (hwindow : ∀ j < 8 * size, bitAt d j = true → p ≤ j ∧ j < p + 32) :
    ∀ j < 8 * size, bitAt d j = false := by
  have hclear (j : Nat) (hj : j < 8 * size) (hout : ¬(p ≤ j ∧ j < p + 32)) :
      bitAt d j = false := by
    rw [← Bool.not_eq_true]
    exact fun hset => hout (hwindow j hj hset)
  obtain ⟨k, m, n, hsize, hk, hm, hn⟩ : ∃ k m n, 8 * size = k + (m + n) ∧ k ≤ p ∧ m ≤ 32 ∧
      (n = 0 ∨ k = p ∧ m = 32) ∧ (m = 0 ∨ k = p) :=
    ⟨min p (8 * size), min 32 (8 * size - min p (8 * size)),
      8 * size - min p (8 * size) - min 32 (8 * size - min p (8 * size)), by omega⟩
  have hregister := calcCrc_toBitVec d size
  rw [hzero, hsize, bitsOf_add] at hregister
  have hburst := shiftAll_burst (by decide) (by simpa using hm) ?_ ?_ hregister.symm
  · intro j hj
    by_cases hin : p ≤ j ∧ j < p + 32
    · apply hburst
      refine List.mem_map.mpr ⟨j - k, List.mem_range.mpr (by omega), ?_⟩
      rw [show k + (j - k) = j by omega]
    · exact hclear j hj hin
  · intro b hb
    obtain ⟨j, hj, rfl⟩ := List.mem_map.mp hb
    have hj := List.mem_range.mp hj
    exact hclear j (by omega) (by omega)
  · intro b hb
    obtain ⟨j, hj, rfl⟩ := List.mem_map.mp hb
    have hj := List.mem_range.mp hj
    exact hclear _ (by omega) (by omega)

/-- The checksum is linear, and different bits in a window of 32 bits are detected. -/
theorem calcCrc_detects (x y : Mem) (size : Nat) :
    calcCrc (fun i => x i ^^^ y i) size = calcCrc x size ^^^ calcCrc y size ∧
      ∀ p, (∀ j < 8 * size, bitAt x j ≠ bitAt y j → p ≤ j ∧ j < p + 32) →
        (∃ j < 8 * size, bitAt x j ≠ bitAt y j) → calcCrc x size ≠ calcCrc y size := by
  refine ⟨calcCrc_xor x y size, ?_⟩
  rintro p hwindow ⟨j, hj, hne⟩ heq
  have hzero : calcCrc (fun i => x i ^^^ y i) size = 0 := by
    rw [calcCrc_xor, heq, UInt32.xor_self]
  have hset (j : Nat) : bitAt (fun i => x i ^^^ y i) j = true ↔ bitAt x j ≠ bitAt y j := by
    rw [bitAt_xor]
    simp
  have hbit := bits_clear_of_calcCrc hzero (fun j hj h => hwindow j hj ((hset j).mp h)) j hj
  rw [(hset j).mpr hne] at hbit
  cases hbit

/-- Two bits that differ, 31 places apart. -/
theorem calcCrc_detects_two_bits :
    let x : Mem := fun i => if i = 0 then 0x80 else if i = 4 then 0x40 else 0
    calcCrc x 6 ≠ calcCrc 0 6 := by
  intro x
  refine (calcCrc_detects x 0 6).2 7 ?_ ⟨7, by decide, by decide⟩
  decide +kernel

end KernelLoader.Crc
