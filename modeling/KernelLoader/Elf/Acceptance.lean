import KernelLoader.Elf.Entry

namespace KernelLoader.Elf
open Lib
set_option autoImplicit true
set_option relaxedAutoImplicit false

variable {L : Layout} {f : Mem} {c : CheckArgs} {ph : Phdr}

/-- A segment that is complete in the file and lies in KSEG0 or KSEG1, inside of the range. The end
of the range is not part of it. -/
structure Phdr.Placed (c : CheckArgs) (ph : Phdr) : Prop where
  data : ph.filesz ≠ 0 → ph.filesz ≤ megabytes128 ∧ ph.offset ≤ megabytes128 ∧
    ph.offset + ph.filesz ≤ c.filesize
  area : unmapped (u32 ph.paddr) = true
  start : phys c.start ≤ phys ph.paddr
  last : phys ph.paddr + ph.memsz ≤ phys c.last

/-- A file that can be loaded to the range: its segments are placed there and its entry point is an
address in one of them. -/
structure Acceptable (f : Mem) (c : CheckArgs) : Prop where
  magic : magicField.get f 0 = elfMagic
  headers : (layoutOf f).phdrPos ((layoutOf f).phnumOf f) ≤ c.filesize
  placed : ∀ i < (layoutOf f).phnumOf f, ((layoutOf f).phdr f i).loadable = true →
    ((layoutOf f).phdr f i).Placed c
  entryArea : unmapped (u32 ((layoutOf f).entryOf f)) = true
  entryIn : ∃ i < (layoutOf f).phnumOf f, ((layoutOf f).phdr f i).loadable = true ∧
    phys ((layoutOf f).phdr f i).paddr ≤ phys ((layoutOf f).entryOf f) ∧
    phys ((layoutOf f).entryOf f) <
      phys ((layoutOf f).phdr f i).paddr + ((layoutOf f).phdr f i).memsz

/-- The segment ends before the range does and its data ends before the file does. -/
def Phdr.EndsBefore (c : CheckArgs) (ph : Phdr) : Prop :=
  (ph.filesz ≠ 0 → ph.offset + ph.filesz < c.filesize) ∧
    phys ph.paddr + ph.extent < physAddr c.last

instance (c : CheckArgs) (ph : Phdr) : Decidable (ph.EndsBefore c) := by
  unfold Phdr.EndsBefore
  infer_instance

theorem physAddr_le_phys (x : Nat) : physAddr x ≤ phys x := by
  rw [physAddr_eq, phys]
  omega

/-- In the lower half of KSEG0 and KSEG1 the loader computes physical addresses right. -/
theorem accessible_iff (h : unmapped (u32 x) = true) :
    accessible (u32 x) = true ↔ phys x = physAddr x := by
  simp only [accessible, unmapped, Nat.shiftRight_eq_div_pow, Bool.or_eq_true, beq_iff_eq] at *
  rw [physAddr_eq]
  unfold phys u32 at *
  omega

theorem phys_eq_physAddr (h : phys x < 2 ^ 28) : phys x = physAddr x := by
  rw [physAddr_eq]
  unfold phys at *
  omega

theorem headerError_loaded (hl : ph.loadable = true) (hz : segSize ph ≠ 0) :
    headerError c ph = none ↔
      fileError c ph = none ∧ startError c ph = none ∧ endError c ph = none := by
  rw [headerError, if_neg (by simp [hl, hz]), Option.or_eq_none_iff, Option.or_eq_none_iff]

theorem Phdr.memsz_pos (hl : ph.loadable = true) : 0 < ph.memsz := by
  simp only [Phdr.loadable, Bool.and_eq_true, bne_iff_ne] at hl
  exact Nat.pos_of_ne_zero hl.2

theorem Phdr.Placed.filesz_le (h : ph.Placed c) : ph.filesz ≤ megabytes128 := by
  by_cases hz : ph.filesz = 0
  · rw [hz]
    exact Nat.zero_le _
  · exact (h.data hz).1

theorem Phdr.Placed.segSize_eq (h : ph.Placed c) : segSize ph = ph.extent := by
  have hfile := h.filesz_le
  have hlast := h.last
  unfold segSize Phdr.extent u32 phys megabytes128 at *
  split_ifs <;> omega

theorem Phdr.Placed.segEnd_eq (h : ph.Placed c) : segEnd ph = physAddr ph.paddr + ph.extent := by
  have hp := physAddr_lt ph.paddr
  have hfile := h.filesz_le
  have hlast := h.last
  rw [segEnd, h.segSize_eq]
  apply u32_of_lt
  unfold Phdr.extent phys megabytes128 at *
  omega

theorem Phdr.Placed.segSize_ne_zero (h : ph.Placed c) (hl : ph.loadable = true) :
    segSize ph ≠ 0 := by
  have := Phdr.memsz_pos hl
  rw [h.segSize_eq, Phdr.extent]
  omega

theorem Phdr.Placed.fileError_none (h : ph.Placed c)
    (hd : ph.filesz ≠ 0 → ph.offset + ph.filesz < c.filesize) : fileError c.phys ph = none := by
  unfold fileError
  split_ifs with h0 h1 h2 h3
  · rfl
  · exact absurd (h.data h0).1 (by omega)
  · exact absurd (h.data h0).2.1 (by omega)
  · have hlt := hd h0
    change c.filesize ≤ u32 (ph.offset + ph.filesz) at h3
    unfold u32 at h3
    omega
  · rfl

theorem Phdr.Placed.startError_none (h : ph.Placed c) (hp : phys ph.paddr = physAddr ph.paddr) :
    startError c.phys ph = none := by
  have hstart : physAddr c.start ≤ physAddr ph.paddr := by
    calc physAddr c.start ≤ phys c.start := physAddr_le_phys _
      _ ≤ phys ph.paddr := h.start
      _ = physAddr ph.paddr := hp
  rw [startError, if_neg (by simp [(accessible_iff h.area).mpr hp])]
  exact if_neg (Nat.not_lt.mpr hstart)

theorem Phdr.Placed.headerError_iff (h : ph.Placed c) (hl : ph.loadable = true) :
    headerError c.phys ph = none ↔ ph.EndsBefore c := by
  rw [headerError_loaded hl (h.segSize_ne_zero hl)]
  constructor
  · rintro ⟨hf, hs, he⟩
    have hp := (accessible_iff h.area).mp (Elf.startError_none hs).1
    refine ⟨fun hz => (Elf.fileError_none hf hz).2.2, ?_⟩
    rw [hp, ← h.segEnd_eq]
    exact endError_none he
  · rintro ⟨hd, he⟩
    have hlast := physAddr_lt c.last
    have hp : phys ph.paddr = physAddr ph.paddr := phys_eq_physAddr (by omega)
    refine ⟨h.fileError_none hd, h.startError_none hp, if_neg ?_⟩
    rw [h.segEnd_eq, ← hp]
    exact Nat.not_le.mpr he

theorem Acceptable.entry (h : Acceptable f c)
    (hall : ∀ i < (layoutOf f).phnumOf f, ((layoutOf f).phdr f i).loadable = true →
      ((layoutOf f).phdr f i).EndsBefore c) :
    entryError c.phys (u32 ((layoutOf f).entryOf f)) = none ∧
      ∃ i < (layoutOf f).phnumOf f,
        ((layoutOf f).phdr f i).covers (physAddr ((layoutOf f).entryOf f)) = true := by
  obtain ⟨i, hi, hl, hlow, hhigh⟩ := h.entryIn
  have hplaced := h.placed i hi hl
  obtain ⟨-, hend⟩ := hall i hi hl
  have hlast := physAddr_lt c.last
  have hstart := (physAddr_le_phys c.start).trans hplaced.start
  have hext : ((layoutOf f).phdr f i).memsz ≤ ((layoutOf f).phdr f i).extent :=
    Nat.le_max_left _ _
  -- the entry point lies below the end of the range, so below 256 MByte
  have hentry : phys ((layoutOf f).entryOf f) = physAddr ((layoutOf f).entryOf f) :=
    phys_eq_physAddr (by omega)
  have hpaddr := phys_eq_physAddr (x := ((layoutOf f).phdr f i).paddr) (by omega)
  refine ⟨?_, i, hi, ?_⟩
  · rw [entryError, if_neg (by simp [(accessible_iff h.entryArea).mpr hentry]), physAddr_u32]
    rw [if_neg, if_neg]
    · change ¬physAddr c.last ≤ _
      omega
    · change ¬_ < physAddr c.start
      omega
  · simp only [Phdr.covers, hl, bne_iff_ne, Bool.and_eq_true, decide_eq_true_eq, true_and,
      hplaced.segEnd_eq]
    exact ⟨hplaced.segSize_ne_zero hl, by omega, by omega⟩

/-- A file that can be loaded to the range is accepted exactly when every segment ends before the
range does and its data before the file does. A segment that reaches either end is refused. -/
theorem checkSections_complete (f : Mem) (c : CheckArgs) (m : Mem) (h : Acceptable f c) :
    (checkSections (ofBytes f) c (.fresh m)).1 = none ↔
      ∀ i < (layoutOf f).phnumOf f, ((layoutOf f).phdr f i).loadable = true →
        ((layoutOf f).phdr f i).EndsBefore c := by
  rw [checkSections_accepts]
  constructor
  · intro hacc i hi hl
    exact ((h.placed i hi hl).headerError_iff hl).mp (hacc.2.1 i hi)
  · intro hall
    obtain ⟨hentry, hcov⟩ := h.entry hall
    refine ⟨⟨h.magic, hentry⟩, fun i hi => ?_, hcov⟩
    cases hl : ((layoutOf f).phdr f i).loadable with
    | true => exact ((h.placed i hi hl).headerError_iff hl).mpr (hall i hi hl)
    | false => rw [headerError, if_pos (by simp [hl])]

theorem smallFile_acceptable {filesize last : Nat} (hf : 0x5c ≤ filesize)
    (hl : 0x10010 ≤ phys last) : Acceptable smallFile ⟨filesize, 0x80010000, last, none⟩ := by
  have hnum : (layoutOf smallFile).phnumOf smallFile = 1 := by decide +kernel
  have hph : (layoutOf smallFile).phdr smallFile 0 = ⟨1, 0x54, 0, 0x80010000, 8, 16⟩ := by
    decide +kernel
  refine ⟨by decide +kernel, ?_, ?_, by decide +kernel, 0, by decide +kernel, by decide +kernel,
    by decide +kernel, by decide +kernel⟩
  · exact Nat.le_trans (by decide +kernel) hf
  · intro i hi _
    obtain rfl : i = 0 := by omega
    rw [hph]
    exact ⟨fun _ => ⟨by decide, by decide, hf⟩, by decide, Nat.le_refl _, hl⟩

theorem checkSections_complete_small : Acceptable smallFile smallArgs ∧
    (checkSections (ofBytes smallFile) smallArgs (.fresh 0)).1 = none := by
  have h : Acceptable smallFile smallArgs := smallFile_acceptable (by decide) (by decide)
  exact ⟨h, (checkSections_complete smallFile smallArgs 0 h).mpr (by decide +kernel)⟩

/-- The same file, refused because its data ends exactly where the file ends, and because its
segment ends exactly where the range ends. -/
theorem checkSections_refuses_acceptable :
    let complete : CheckArgs := ⟨0x5c, 0x80010000, 0x80010100, none⟩
    let full : CheckArgs := ⟨0x100, 0x80010000, 0x80010010, none⟩
    Acceptable smallFile complete ∧
      (checkSections (ofBytes smallFile) complete (.fresh 0)).1.map Failure.code = some (-30) ∧
      Acceptable smallFile full ∧
      (checkSections (ofBytes smallFile) full (.fresh 0)).1.map Failure.code = some (-4) :=
  ⟨smallFile_acceptable (by decide) (by decide), by decide +kernel,
    smallFile_acceptable (by decide) (by decide), by decide +kernel⟩

end KernelLoader.Elf
