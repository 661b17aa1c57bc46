import KernelLoader.Elf.Walks

namespace KernelLoader.Elf
open Lib
set_option autoImplicit true
set_option relaxedAutoImplicit false

variable {L : Layout} {f : Mem} {c : CheckArgs} {ph : Phdr} {w : Walk}

/-- What is known of a segment that was not refused. -/
structure Phdr.Fits (c : CheckArgs) (ph : Phdr) : Prop where
  filesz_le : ph.filesz ≤ megabytes128
  data : ph.filesz ≠ 0 → ph.offset ≤ megabytes128 ∧ ph.offset + ph.filesz < c.filesize
  area : accessible (u32 ph.paddr) = true
  start : c.start ≤ physAddr ph.paddr
  last : segEnd ph < c.last

theorem fileError_none (h : fileError c ph = none) (hz : ph.filesz ≠ 0) :
    ph.filesz ≤ megabytes128 ∧ ph.offset ≤ megabytes128 ∧ ph.offset + ph.filesz < c.filesize := by
  unfold fileError at h
  split_ifs at h with h1 h2 h3 h4
  · exact absurd h1 hz
  · unfold megabytes128 u32 at *
    omega

theorem startError_none (h : startError c ph = none) :
    accessible (u32 ph.paddr) = true ∧ c.start ≤ physAddr ph.paddr := by
  unfold startError at h
  split_ifs at h with h1 h2
  exact ⟨by simpa using h1, by omega⟩

theorem endError_none (h : endError c ph = none) : segEnd ph < c.last := by
  unfold endError at h
  split_ifs at h with h1
  omega

theorem headerError_none (h : headerError c ph = none) (hl : ph.loadable = true)
    (hz : segSize ph ≠ 0) : ph.Fits c := by
  unfold headerError at h
  rw [if_neg (by simp [hl, hz]), Option.or_eq_none_iff, Option.or_eq_none_iff] at h
  obtain ⟨hf, hs, he⟩ := h
  obtain ⟨harea, hstart⟩ := startError_none hs
  refine ⟨?_, fun hz => (fileError_none hf hz).2, harea, hstart, endError_none he⟩
  by_cases h0 : ph.filesz = 0
  · rw [h0]
    exact Nat.zero_le _
  · exact (fileError_none hf h0).1

theorem foldl_raise_lt {is : List Nat} {x hi : Nat} (hx : x < hi)
    (h : ∀ i ∈ is, (L.phdr f i).loadable = true → segSize (L.phdr f i) ≠ 0 →
      segEnd (L.phdr f i) < hi) : is.foldl (fun x i => (L.phdr f i).raise x) x < hi := by
  refine List.foldlRecOn (motive := (· < hi)) _ _ hx fun y hy i hi' => ?_
  unfold Phdr.raise
  split_ifs with hl
  · obtain ⟨hload, hz⟩ := Bool.and_eq_true_iff.mp hl
    exact Nat.max_lt.mpr ⟨hy, h i hi' hload (by simpa using hz)⟩
  · exact hy

theorem Accepted.imageEnd_bounds (h : Accepted f c) :
    c.phys.start < imageEnd f ∧ imageEnd f < c.phys.last := by
  obtain ⟨-, hall, i, hi, hcov⟩ := h
  have hfits (i : Nat) (hi : i < (layoutOf f).phnumOf f) := headerError_none (hall i hi)
  unfold Phdr.covers at hcov
  simp only [Bool.and_eq_true, bne_iff_ne, ne_eq, decide_eq_true_eq] at hcov
  obtain ⟨⟨hl, hz⟩, hlow, hend⟩ := hcov
  have hseg := segEnd_le_imageEnd hi hl hz
  have hfit := hfits i hi hl hz
  refine ⟨?_, foldl_raise_lt ?_ fun j hj hl hz => ?_⟩
  · have := hfit.start
    omega
  · have := hfit.last
    omega
  · exact (hfits j (by simpa using hj) hl hz).last

theorem toNat_s32 (x : Nat) : (s32 x).toNat = if x % 2 ^ 32 < 2 ^ 31 then x % 2 ^ 32 else 0 := by
  unfold s32
  split_ifs <;> omega

theorem copySize_of_le (h : ph.filesz ≤ megabytes128) : copySize ph = ph.filesz := by
  unfold copySize megabytes128 at *
  rw [toNat_s32]
  split_ifs <;> omega

theorem clearSize_of_le (h : ph.filesz ≤ megabytes128) :
    clearSize ph = 0 ∨ clearSize ph < 2 ^ 31 ∧ ph.filesz + clearSize ph = segSize ph := by
  unfold clearSize segSize sub32 u32 megabytes128 at *
  rw [toNat_s32]
  split_ifs <;> omega

theorem Phdr.Fits.segSize_le (h : ph.Fits c) : ph.filesz ≤ segSize ph := by
  have hf := h.filesz_le
  unfold segSize u32 megabytes128 at *
  split_ifs <;> omega

/-- A segment whose end address wraps is too large for the signed size of the cleared area. -/
theorem Phdr.Fits.clearSize_wrap (h : ph.Fits c) (hw : 2 ^ 32 ≤ physAddr ph.paddr + segSize ph) :
    clearSize ph = 0 := by
  have hf := h.filesz_le
  have hp := physAddr_lt ph.paddr
  rcases clearSize_of_le hf with h0 | ⟨hlt, he⟩
  · exact h0
  · unfold megabytes128 at hf
    omega

/-- A 64-bit size whose low half is zero hides the segment from the checks. -/
theorem segSize_zero (h : segSize ph = 0) : copySize ph = 0 ∧ u32 ph.filesz = 0 := by
  have h0 : u32 ph.filesz = 0 := by
    unfold segSize at h
    split_ifs at h with hlt
    · exact h
    · unfold u32 at *
      omega
  refine ⟨?_, h0⟩
  unfold copySize
  unfold u32 at h0
  rw [toNat_s32, h0]
  rfl

/-- When what is written for an accepted segment stays in the range. -/
def Phdr.Contained (c : CheckArgs) (ph : Phdr) : Prop :=
  if segSize ph = 0 then
    clearSize ph = 0 ∨ c.start ≤ physAddr ph.paddr ∧ physAddr ph.paddr + clearSize ph ≤ c.last
  else
    physAddr ph.paddr + segSize ph < 2 ^ 32 ∨ ph.filesz = 0 ∨
      physAddr ph.paddr + ph.filesz ≤ c.last

instance (c : CheckArgs) (ph : Phdr) : Decidable (ph.Contained c) := by
  unfold Phdr.Contained
  infer_instance

theorem mem_segWrites {span : Nat × Nat} : span ∈ segWrites ph ↔
    ph.filesz ≠ 0 ∧ span = (physAddr ph.paddr, copySize ph) ∨
      clearSize ph ≠ 0 ∧ span = (physAddr ph.paddr + u32 ph.filesz, clearSize ph) := by
  unfold segWrites
  by_cases h1 : ph.filesz = 0 <;> by_cases h2 : clearSize ph = 0 <;> simp [h1, h2]

theorem segWrites_in (lo hi : Nat) : (∀ span ∈ segWrites ph, SpanIn lo hi span) ↔
    (ph.filesz ≠ 0 → SpanIn lo hi (physAddr ph.paddr, copySize ph)) ∧
      (clearSize ph ≠ 0 → SpanIn lo hi (physAddr ph.paddr + u32 ph.filesz, clearSize ph)) := by
  simp only [mem_segWrites]
  constructor
  · exact fun h => ⟨fun h1 => h _ (.inl ⟨h1, rfl⟩), fun h2 => h _ (.inr ⟨h2, rfl⟩)⟩
  · rintro ⟨h1, h2⟩ span (⟨hz, rfl⟩ | ⟨hz, rfl⟩)
    · exact h1 hz
    · exact h2 hz

theorem segWrites_contained (h : headerError c ph = none) (hl : ph.loadable = true) :
    (∀ span ∈ segWrites ph, SpanIn c.start c.last span) ↔ ph.Contained c := by
  rw [segWrites_in, spanIn_iff, spanIn_iff]
  unfold Phdr.Contained
  by_cases hz : segSize ph = 0
  · obtain ⟨hcopy, hfile⟩ := segSize_zero hz
    rw [if_pos hz, hcopy, hfile]
    omega
  · have hfit := headerError_none h hl hz
    have hle := hfit.segSize_le
    have hf : u32 ph.filesz = ph.filesz := by
      have := hfit.filesz_le
      unfold u32 megabytes128 at *
      omega
    have hstart := hfit.start
    have hlast := hfit.last
    rw [if_neg hz, copySize_of_le hfit.filesz_le, hf]
    by_cases hw : physAddr ph.paddr + segSize ph < 2 ^ 32
    · rw [segEnd, u32_of_lt hw] at hlast
      rcases clearSize_of_le hfit.filesz_le with h0 | ⟨_, he⟩
      · omega
      · omega
    · have h0 := hfit.clearSize_wrap (by omega)
      omega

/-- An accepted file is written inside the range exactly when every segment is contained: none
wraps around the end of the address space with file data behind the range, and none is hidden
from the checks by a size that is a multiple of 2^32. -/
theorem checkSections_contains (f : Mem) (c : CheckArgs) (m m' : Mem)
    (h : (checkSections (ofBytes f) c (.fresh m)).1 = none) :
    ((∀ span ∈ (copySections (ofBytes f) (.fresh m')).2.writes,
        SpanIn (physAddr c.start) (physAddr c.last) span) ∧
      ∀ span ∈ (checkSections (ofBytes f) c (.fresh m)).2.walk.writes,
        SpanIn (physAddr c.start) (physAddr c.last) span) ↔
      ∀ i < (layoutOf f).phnumOf f, ((layoutOf f).phdr f i).loadable = true →
        ((layoutOf f).phdr f i).Contained c.phys := by
  have hacc := (checkSections_accepts f c _).mp h
  have hin (i : Nat) (hi : i < (layoutOf f).phnumOf f)
      (hl : ((layoutOf f).phdr f i).loadable = true) :=
    segWrites_contained (hacc.2.1 i hi) hl
  rw [copySections_writes hacc.1.1, checkSections_writes hacc.1, hacc.checkedHeaders]
  simp only [Walk.fresh, List.nil_append, List.mem_flatMap, List.mem_range'_1, Nat.zero_le,
    Nat.zero_add, true_and]
  constructor
  · rintro ⟨hcopy, -⟩ i hi hl
    refine (hin i hi hl).mp fun span hs => hcopy span ⟨i, hi, ?_⟩
    rw [copyWrites, if_pos hl]
    exact hs
  · intro hall
    refine ⟨?_, ?_⟩
    · rintro span ⟨i, hi, hs⟩
      unfold copyWrites at hs
      split_ifs at hs with hl
      · exact (hin i hi hl).mpr (hall i hi hl) span hs
      · cases hs
    · rintro span ⟨i, hi, hs⟩
      unfold checkWrites at hs
      split_ifs at hs with hc
      · have hl : ((layoutOf f).phdr f i).loadable = true := by
          simp only [Phdr.checked, Bool.and_eq_true] at hc
          exact hc.2.1.1
        exact (hin i hi hl).mpr (hall i hi hl) span hs
      · cases hs

/-- A segment of the kernel with file data and a cleared area. -/
def smallFile : Mem := elf32.file 1 0x80010004 [⟨1, 0x54, 0, 0x80010000, 8, 16⟩]

def smallArgs : CheckArgs := ⟨0x100, 0x80010000, 0x80010100, none⟩

theorem checkSections_contains_small :
    (checkSections (ofBytes smallFile) smallArgs (.fresh 0)).1 = none ∧
      ∀ span ∈ (copySections (ofBytes smallFile) (.fresh 0)).2.writes,
        SpanIn 0x10000 0x10100 span :=
  ⟨by decide +kernel, ((checkSections_contains smallFile smallArgs 0 0 (by decide +kernel)).mpr
    (by decide +kernel)).1⟩

/-- Two accepted files that are written outside of the range: in the first the end address of a
segment wraps, in the second a segment is not looked at because its 64-bit file size is 2^32. -/
theorem checkSections_accepts_outside :
    let wrapped := elf32.file 1 0x80010000
      [⟨1, 0, 0, 0x80010000, 4, 4⟩, ⟨1, 0, 0, 0x80010008, 0x200, 0xfffffff0⟩]
    let hidden := elf64.file 2 0x80010000
      [⟨1, 0, 0, 0x80010000, 4, 4⟩, ⟨1, 0, 0, 0x80000000, 2 ^ 32, 0x80⟩]
    let c : CheckArgs := ⟨0x1000, 0x80010000, 0x80010100, none⟩
    (checkSections (ofBytes wrapped) c (.fresh 0)).1 = none ∧
      (0x10008, 0x200) ∈ (copySections (ofBytes wrapped) (.fresh 0)).2.writes ∧
      ¬SpanIn (physAddr c.start) (physAddr c.last) (0x10008, 0x200) ∧
      (checkSections (ofBytes hidden) c (.fresh 0)).1 = none ∧
      (0, 0x80) ∈ (copySections (ofBytes hidden) (.fresh 0)).2.writes ∧
      ¬SpanIn (physAddr c.start) (physAddr c.last) (0, 0x80) := by
  decide +kernel

end KernelLoader.Elf
