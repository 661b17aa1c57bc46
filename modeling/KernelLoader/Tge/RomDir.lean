import KernelLoader.Lib.CString
import KernelLoader.Lib.Memory
import KernelLoader.Lib.Word
import Mathlib.Algebra.BigOperators.Group.List.Basic

namespace KernelLoader.Tge.Rom
open Lib
set_option autoImplicit true
set_option relaxedAutoImplicit false

/-- `strncmp` of the SBIOS. The characters it stops at are compared, also after `len` rounds. -/
def strncmp : (Nat → UInt8) → (Nat → UInt8) → Nat → Int
  | str1, str2, 0 => signedChar (str2 0) - signedChar (str1 0)
  | str1, str2, n + 1 =>
    if str1 0 ≠ 0 ∧ str2 0 ≠ 0 ∧ str1 0 = str2 0 then
      strncmp (fun i => str1 (i + 1)) (fun i => str2 (i + 1)) n
    else signedChar (str2 0) - signedChar (str1 0)

def resetName : List UInt8 := [82, 69, 83, 69, 84]
def romgscrtName : List UInt8 := [82, 79, 77, 71, 83, 67, 82, 84]

def sizeofRomentry : Nat := 16

/-- The fields of a `romentry_t`. -/
def nameAt (m : Mem) (romdir : Nat) : Nat → UInt8 := fun i => m (romdir + i)
def sizeAt (m : Mem) (romdir : Nat) : Nat := le m (romdir + 12) 4

/-- The size in whole entries. -/
def roundedAt (m : Mem) (romdir : Nat) : Nat := u32 (sizeAt m romdir + 15) &&& 0xfffffff0

/-- Is it the entry of the directory itself, which tells how much comes before it? -/
def isReset (m : Mem) (romAddr offset : Nat) : Bool :=
  strncmp (nameAt m (romAddr + offset)) (literal resetName) 6 == 0 &&
    roundedAt m (romAddr + offset) == offset

def getRomdir (m : Mem) (romAddr : Nat) : Option Nat :=
  ((List.range' 0 (0x10000 / sizeofRomentry) sizeofRomentry).find? (isReset m romAddr)).map
    (romAddr + ·)

/-- The loop over the directory, without a result if it does not come to an end in time. -/
def searchRomgscrt (m : Mem) : (fuel : Nat) → Nat → Nat → Option Nat
  | 0, _, _ => none
  | fuel + 1, romdir, addr =>
    if nameAt m romdir 0 ≠ 0 then
      if strncmp (nameAt m romdir) (literal romgscrtName) 9 = 0 then some addr
      else searchRomgscrt m fuel (romdir + sizeofRomentry) (u32 (addr + roundedAt m romdir))
    else some 0

def romBase : Nat := 0xbfc00000

/-- NULL is 0. -/
def getRomgscrt (m : Mem) (fuel : Nat) : Option Nat :=
  match getRomdir m romBase with
  | some romdir => searchRomgscrt m fuel romdir romBase
  | none => some 0

theorem strncmp_literal {t : List UInt8} (ht : 0 ∉ t) (m : Nat → UInt8) :
    strncmp m (literal t) (t.length + 1) = 0 ↔ Begins m t ∧ m t.length = 0 := by
  induction t generalizing m with
  | nil =>
    have hend : literal [] 0 = 0 := rfl
    rw [List.length_nil, strncmp, hend, if_neg (by simp), Int.sub_eq_zero, signedChar_inj]
    rw [Begins, true_and]
    exact eq_comm
  | cons c t ih =>
    obtain ⟨hc, ht⟩ := not_or.mp (mt List.mem_cons.mpr ht)
    have hfirst : literal (c :: t) 0 = c := rfl
    have hrest : (fun i => literal (c :: t) (i + 1)) = literal t := rfl
    rw [List.length_cons, strncmp, hfirst, hrest, Begins]
    split
    · next h =>
      rw [ih ht, and_iff_right h.2.2]
    · next h =>
      rw [Int.sub_eq_zero, signedChar_inj]
      have hne : m 0 ≠ c := fun he => h ⟨he ▸ Ne.symm hc, Ne.symm hc, he⟩
      exact iff_of_false (Ne.symm hne) fun hb => hne hb.1.1

section Directory

/-- An entry: its name, which need not be terminated, and the size of the file. -/
structure Entry where
  name : List UInt8
  size : Nat

def entryAt (m : Mem) (a : Nat) : Entry := ⟨field (nameAt m a) 10, sizeAt m a⟩

def roundUp (n : Nat) : Nat := (n + 15) / 16 * 16

/-- The entry at an offset is named RESET, and its size, rounded up in 32 bits, is the offset. -/
def IsReset (m : Mem) (offset : Nat) : Prop :=
  offset < 0x10000 ∧ 16 ∣ offset ∧ (entryAt m (romBase + offset)).name = resetName ∧
    u32 (roundUp (entryAt m (romBase + offset)).size) = offset

/-- The first `k` entries of the directory at an offset. -/
def directory (m : Mem) (offset k : Nat) : List Entry :=
  (List.range k).map fun i => entryAt m (romBase + offset + 16 * i)

/-- The directory has `k` entries, and then one without a name. -/
def EndsAt (m : Mem) (offset k : Nat) : Prop :=
  (entryAt m (romBase + offset + 16 * k)).name = [] ∧ ∀ e ∈ directory m offset k, e.name ≠ []

/-- Where the file ROMGSCRT is, if that of the first entry is at `addr`: behind the files of the
entries before. -/
def lookup (addr : Nat) (entries : List Entry) : Nat :=
  match entries.findIdx? (·.name == romgscrtName) with
  | some j => u32 (addr + ((entries.take j).map fun e => roundUp e.size).sum)
  | none => 0

variable {m : Mem} {a offset k : Nat}

theorem roundedAt_eq (m : Mem) (a : Nat) : roundedAt m a = u32 (roundUp (sizeAt m a)) := by
  have hmask : (0xfffffff0 : Nat) = (2 ^ 28 - 1) <<< 4 := rfl
  rw [roundedAt, hmask, and_high_mask _ 4 28 (u32_lt _), u32, u32, roundUp]
  omega

theorem name_eq_iff {t : List UInt8} (ht : 0 ∉ t) (hlen : t.length < 10) (m : Mem) (a : Nat) :
    strncmp (nameAt m a) (literal t) (t.length + 1) = 0 ↔ (entryAt m a).name = t := by
  rw [strncmp_literal ht]
  exact (field_eq_iff ht hlen).symm

theorem name_ne_nil_iff (m : Mem) (a : Nat) : nameAt m a 0 ≠ 0 ↔ (entryAt m a).name ≠ [] := by
  have hempty : (entryAt m a).name = [] ↔ Begins (nameAt m a) [] ∧ nameAt m a 0 = 0 :=
    field_eq_iff List.not_mem_nil (by decide)
  rw [ne_eq, ne_eq, hempty, Begins, true_and]

theorem isReset_iff (ho : offset < 0x10000) (hd : 16 ∣ offset) :
    isReset m romBase offset = true ↔ IsReset m offset := by
  have hname : strncmp (nameAt m (romBase + offset)) (literal resetName) 6 = 0 ↔
      (entryAt m (romBase + offset)).name = resetName := name_eq_iff (by decide) (by decide) m _
  rw [isReset, IsReset, Bool.and_eq_true, beq_iff_eq, beq_iff_eq, hname, roundedAt_eq]
  simp only [ho, hd, true_and]
  rfl

theorem mem_offsets : offset ∈ List.range' 0 (0x10000 / sizeofRomentry) sizeofRomentry ↔
    offset < 0x10000 ∧ 16 ∣ offset := by
  have hcount : 0x10000 / sizeofRomentry = 0x1000 := rfl
  rw [List.mem_range', hcount, sizeofRomentry]
  constructor
  · rintro ⟨i, hi, rfl⟩
    omega
  · rintro ⟨hlt, i, rfl⟩
    exact ⟨i, by omega, by omega⟩

theorem getRomdir_first (h : IsReset m offset) (hfirst : ∀ o < offset, ¬ IsReset m o) :
    getRomdir m romBase = some (romBase + offset) := by
  have hmem := mem_offsets.mpr ⟨h.1, h.2.1⟩
  have hsorted : (List.range' 0 (0x10000 / sizeofRomentry) sizeofRomentry).Pairwise (· < ·) :=
    List.pairwise_lt_range' sizeofRomentry (by decide)
  obtain ⟨before, behind, hsplit⟩ := List.append_of_mem hmem
  have hfind : (List.range' 0 (0x10000 / sizeofRomentry) sizeofRomentry).find?
      (isReset m romBase) = some offset := by
    rw [List.find?_eq_some_iff_append]
    refine ⟨(isReset_iff h.1 h.2.1).mpr h, before, behind, hsplit, fun o ho => ?_⟩
    have hin : o ∈ List.range' 0 (0x10000 / sizeofRomentry) sizeofRomentry := by
      rw [hsplit]
      exact List.mem_append_left _ ho
    obtain ⟨hlt, hdvd⟩ := mem_offsets.mp hin
    rw [hsplit] at hsorted
    have hbefore : o < offset :=
      (List.pairwise_append.mp hsorted).2.2 o ho offset List.mem_cons_self
    have hno := mt (isReset_iff hlt hdvd).mp (hfirst o hbefore)
    simpa using hno
  rw [getRomdir, hfind, Option.map_some]

theorem getRomdir_none (h : ∀ offset, ¬ IsReset m offset) : getRomdir m romBase = none := by
  have hfind : (List.range' 0 (0x10000 / sizeofRomentry) sizeofRomentry).find?
      (isReset m romBase) = none := by
    rw [List.find?_eq_none]
    intro o ho
    obtain ⟨hlt, hdvd⟩ := mem_offsets.mp ho
    exact mt (isReset_iff hlt hdvd).mp (h o)
  rw [getRomdir, hfind, Option.map_none]

theorem lookup_cons (addr : Nat) (e : Entry) (entries : List Entry) :
    lookup addr (e :: entries) =
      if e.name = romgscrtName then u32 addr
      else lookup (u32 (addr + u32 (roundUp e.size))) entries := by
  rw [lookup, lookup, List.findIdx?_cons]
  by_cases h : e.name = romgscrtName
  · simp [h]
  · rw [if_neg h, if_neg (by simpa using h)]
    cases entries.findIdx? (·.name == romgscrtName) with
    | none => rfl
    | some j =>
      simp only [Option.map_some, List.take_succ_cons, List.map_cons, List.sum_cons, u32]
      omega

theorem searchRomgscrt_eq {fuel addr : Nat} (hfuel : k < fuel) (haddr : addr < 2 ^ 32)
    (hend : (entryAt m (a + 16 * k)).name = [])
    (hnames : ∀ e ∈ (List.range k).map fun i => entryAt m (a + 16 * i), e.name ≠ []) :
    searchRomgscrt m fuel a addr =
      some (lookup addr ((List.range k).map fun i => entryAt m (a + 16 * i))) := by
  induction k generalizing fuel a addr with
  | zero =>
    cases fuel with
    | zero => exact absurd hfuel (Nat.not_lt_zero 0)
    | succ fuel =>
      rw [searchRomgscrt, if_neg (mt (name_ne_nil_iff m a).mp (not_not.mpr hend))]
      rfl
  | succ k ih =>
    cases fuel with
    | zero => exact absurd hfuel (Nat.not_lt_zero _)
    | succ fuel =>
      have hshift : ∀ i, a + 16 * (i + 1) = a + 16 + 16 * i := fun i => by omega
      have hlist : ((List.range (k + 1)).map fun i => entryAt m (a + 16 * i)) =
          entryAt m a :: (List.range k).map fun i => entryAt m (a + 16 + 16 * i) := by
        rw [List.range_succ_eq_map, List.map_cons, List.map_map]
        congr 1
        apply List.map_congr_left
        intro i _
        exact congrArg (entryAt m) (hshift i)
      have hname : strncmp (nameAt m a) (literal romgscrtName) 9 = 0 ↔
          (entryAt m a).name = romgscrtName := name_eq_iff (by decide) (by decide) m a
      rw [hlist, List.forall_mem_cons] at hnames
      rw [hlist, lookup_cons, searchRomgscrt, if_pos ((name_ne_nil_iff m a).mpr hnames.1)]
      by_cases h : (entryAt m a).name = romgscrtName
      · rw [if_pos (hname.mpr h), if_pos h, u32_of_lt haddr]
      · rw [if_neg (mt hname.mp h), if_neg h, roundedAt_eq]
        rw [hshift] at hend
        exact ih (Nat.lt_of_succ_lt_succ hfuel) (u32_lt _) hend hnames.2

theorem exists_first_reset {j : Nat} (h : IsReset m offset)
    (hend : (entryAt m (romBase + offset + 16 * j)).name = []) :
    ∃ first k, IsReset m first ∧ (∀ o < first, ¬ IsReset m o) ∧ EndsAt m first k := by
  classical
  have hreset : ∃ o, IsReset m o := ⟨offset, h⟩
  have hle : Nat.find hreset ≤ offset := Nat.find_min' hreset h
  obtain ⟨-, ⟨x, hx⟩, -⟩ := Nat.find_spec hreset
  obtain ⟨y, hy⟩ := h.2.1
  have hends : ∃ k, (entryAt m (romBase + Nat.find hreset + 16 * k)).name = [] := by
    refine ⟨y - x + j, ?_⟩
    have hplace : romBase + Nat.find hreset + 16 * (y - x + j) = romBase + offset + 16 * j := by
      omega
    rw [hplace]
    exact hend
  refine ⟨Nat.find hreset, Nat.find hends, Nat.find_spec hreset, fun o ho => ?_,
    Nat.find_spec hends, fun e he => ?_⟩
  · exact Nat.find_min hreset ho
  · obtain ⟨i, hi, rfl⟩ := List.mem_map.mp he
    exact Nat.find_min hends (List.mem_range.mp hi)

/-- In a ROM with a RESET entry that fits and whose directory ends, the file is found behind the
files of the entries before it. Without such an entry the result is NULL. -/
theorem getRomgscrt_finds (m : Mem) :
    (∀ offset j, IsReset m offset → (entryAt m (romBase + offset + 16 * j)).name = [] →
      ∃ first k, IsReset m first ∧ (∀ o < first, ¬ IsReset m o) ∧ EndsAt m first k ∧
        ∀ fuel > k, getRomgscrt m fuel = some (lookup romBase (directory m first k))) ∧
    ((∀ offset, ¬ IsReset m offset) → ∀ fuel, getRomgscrt m fuel = some 0) := by
  constructor
  · intro offset j hreset hend
    obtain ⟨first, k, hfirst, hleast, hends⟩ := exists_first_reset hreset hend
    refine ⟨first, k, hfirst, hleast, hends, fun fuel hfuel => ?_⟩
    rw [getRomgscrt, getRomdir_first hfirst hleast]
    exact searchRomgscrt_eq hfuel (by decide) hends.1 hends.2
  · intro h fuel
    rw [getRomgscrt, getRomdir_none h]

/-- A ROM that begins with its directory: RESET, a file of 20 bytes and ROMGSCRT. -/
def smallRom : Mem := fun a =>
  let entry (name : List UInt8) (size : UInt8) : List UInt8 :=
    (List.range 12).map (name.getD · 0) ++ [size, 0, 0, 0]
  (entry resetName 0 ++ entry [73] 20 ++ entry romgscrtName 5).getD (a - romBase) 0

theorem getRomgscrt_finds_small :
    ∃ first k, IsReset smallRom first ∧ (∀ o < first, ¬ IsReset smallRom o) ∧
      EndsAt smallRom first k ∧
      ∀ fuel > k, getRomgscrt smallRom fuel = some (lookup romBase (directory smallRom first k)) :=
  (getRomgscrt_finds smallRom).1 0 3 ⟨by decide, by decide, by decide, by decide⟩ (by decide)

end Directory

end KernelLoader.Tge.Rom
