import KernelLoader.Elf.Verify

namespace KernelLoader.Elf
open Lib
set_option autoImplicit true
set_option relaxedAutoImplicit false

variable {L : Layout} {f : Mem} {c : CheckArgs} {ph : Phdr}

structure TlbEntry where
  pageMask : Nat
  entryHi : Nat
  entryLo0 : Nat
  entryLo1 : Nat

def kseg0 : Nat := 0x80000000

/-- One round of the loop of `flush_tlbs`: the entry gets an address in KSEG0 and is invalid. -/
def flushTlb (tlb : Nat → TlbEntry) (entry : Nat) : Nat → TlbEntry :=
  Function.update tlb entry ⟨0, kseg0 + entry * 0x2000, 0, 0⟩

def flushTlbs (tlb : Nat → TlbEntry) : Nat → TlbEntry := (List.range 48).foldl flushTlb tlb

/-- The entry translates the address: the pair of pages matches and the one in question is
valid. -/
def TlbEntry.maps (e : TlbEntry) (a : Nat) : Bool :=
  let pair := (e.pageMask ||| 0x1fff) + 1
  let lo := if a % pair < pair / 2 then e.entryLo0 else e.entryLo1
  a / pair == e.entryHi / pair && lo &&& 2 != 0

/-- KSEG0 and KSEG1 are not mapped through the TLB. -/
def unmapped (a : Nat) : Bool := a >>> 29 == 4 || a >>> 29 == 5

/-- The CPU can fetch instructions from the address. -/
def callable (tlb : Nat → TlbEntry) (a : Nat) : Bool :=
  unmapped a || (List.range 48).any fun i => (tlb i).maps a

theorem flushTlbs_invalid (tlb : Nat → TlbEntry) {n : Nat} (hi : i < n) :
    ((List.range n).foldl flushTlb tlb i).entryLo0 = 0 ∧
      ((List.range n).foldl flushTlb tlb i).entryLo1 = 0 := by
  induction n with
  | zero => exact absurd hi (Nat.not_lt_zero i)
  | succ n ih =>
    rw [List.range_succ, List.foldl_append, List.foldl_cons, List.foldl_nil, flushTlb,
      Function.update_apply]
    split_ifs with he
    · exact ⟨rfl, rfl⟩
    · exact ih (by omega)

theorem callable_flushed (tlb : Nat → TlbEntry) (a : Nat) :
    callable (flushTlbs tlb) a = unmapped a := by
  have hnone : ((List.range 48).any fun i => (flushTlbs tlb i).maps a) = false := by
    rw [List.any_eq_false]
    intro i hi
    obtain ⟨h0, h1⟩ := flushTlbs_invalid tlb (List.mem_range.mp hi)
    unfold TlbEntry.maps flushTlbs
    rw [h0, h1]
    simp
  rw [callable, hnone, Bool.or_false]

theorem unmapped_of_accessible (h : accessible a = true) : unmapped a = true := by
  simp only [accessible, unmapped, Nat.shiftRight_eq_div_pow, Bool.or_eq_true, beq_iff_eq] at *
  omega

theorem not_unmapped_physAddr (x : Nat) : unmapped (physAddr x) = false := by
  have := physAddr_lt x
  have h0 : physAddr x >>> 29 = 0 := by
    rw [Nat.shiftRight_eq_div_pow]
    omega
  rw [unmapped, h0]
  rfl

theorem segSize_le_extent (ph : Phdr) : segSize ph ≤ ph.extent := by
  unfold segSize Phdr.extent u32
  split_ifs <;> omega

theorem covers_nowrap {entry : Nat} (h : ph.covers entry = true) :
    ph.loadable = true ∧ segSize ph ≠ 0 ∧ physAddr ph.paddr ≤ entry ∧
      entry < physAddr ph.paddr + segSize ph ∧ segEnd ph = physAddr ph.paddr + segSize ph := by
  simp only [Phdr.covers, Bool.and_eq_true, bne_iff_ne, decide_eq_true_eq] at h
  obtain ⟨⟨hl, hz⟩, hle, hlt⟩ := h
  have h32 := segSize_lt ph
  have h28 := physAddr_lt ph.paddr
  unfold segEnd u32 at *
  exact ⟨hl, hz, hle, by omega, by omega⟩

theorem covers_written {entry : Nat} (h : headerError c.phys ph = none)
    (hc : ph.covers entry = true) :
    ∃ span ∈ segWrites ph, span.1 ≤ entry ∧ entry < span.1 + span.2 := by
  obtain ⟨hl, hz, hle, hlt, hend⟩ := covers_nowrap hc
  have hfit := headerError_none h hl hz
  have hfile := hfit.filesz_le
  have hlast := hfit.last
  have hrange : c.phys.last < 2 ^ 28 := physAddr_lt _
  have hf : u32 ph.filesz = ph.filesz := u32_of_lt (by unfold megabytes128 at hfile; omega)
  by_cases hd : entry < physAddr ph.paddr + ph.filesz
  · refine ⟨_, mem_segWrites.mpr (.inl ⟨by omega, rfl⟩), hle, ?_⟩
    rw [copySize_of_le hfile]
    exact hd
  · have hclear : ph.filesz + clearSize ph = segSize ph := by
      unfold clearSize segSize sub32 u32 megabytes128 at *
      rw [toNat_s32]
      split_ifs at * <;> omega
    refine ⟨_, mem_segWrites.mpr (.inr ⟨by omega, rfl⟩), ?_, ?_⟩
    · simp only [hf]
      omega
    · simp only [hf]
      omega

theorem copySections_entry (h : magicField.get f 0 = elfMagic) (m : Mem) :
    (copySections (ofBytes f) (.fresh m)).1 = some (toEntryOf f ((layoutOf f).entryOf f)) := by
  rw [copySections_eq, copySectionsWith]
  simp only [h, ne_eq, not_true_eq_false, if_false]

/-- The entry point of an accepted file can be called after the TLB is flushed and lies in a
segment that was written, exactly for the 32-bit class: the 64-bit variant of `copy_sections`
returns a physical address. -/
theorem copySections_entry_sound (f : Mem) (c : CheckArgs) (m m' : Mem) (tlb : Nat → TlbEntry)
    (h : (checkSections (ofBytes f) c (.fresh m)).1 = none) :
    (∃ e, (copySections (ofBytes f) (.fresh m')).1 = some e ∧
      accessible e = true ∧ callable (flushTlbs tlb) e = true ∧
      ∃ i < (layoutOf f).phnumOf f, ((layoutOf f).phdr f i).loadable = true ∧
        ((layoutOf f).phdr f i).Holds (physAddr e) ∧
        ∃ span ∈ (copySections (ofBytes f) (.fresh m')).2.writes,
          span.1 ≤ physAddr e ∧ physAddr e < span.1 + span.2) ↔
      classField.get f 0 ≠ 2 := by
  have hacc := (checkSections_accepts f c _).mp h
  rw [copySections_entry hacc.1.1]
  constructor
  · rintro ⟨e, he, -, hcall, -⟩ hcls
    rw [toEntryOf, if_pos hcls] at he
    cases he
    rw [callable_flushed, not_unmapped_physAddr] at hcall
    cases hcall
  · intro hcls
    have h32 : u32 ((layoutOf f).entryOf f) = (layoutOf f).entryOf f := by
      rw [layoutOf, if_neg hcls]
      exact u32_of_lt (elf32_field_lt rfl f 0)
    have harea : accessible ((layoutOf f).entryOf f) = true := by
      have := hacc.1.2
      unfold entryError at this
      split_ifs at this with h1
      rw [h32] at h1
      simpa using h1
    obtain ⟨i, hi, hcov⟩ := hacc.2.2
    obtain ⟨hl, -, hle, hlt, -⟩ := covers_nowrap hcov
    obtain ⟨span, hspan, hin⟩ := covers_written (c := c) (hacc.2.1 i hi) hcov
    have hext := segSize_le_extent ((layoutOf f).phdr f i)
    refine ⟨(layoutOf f).entryOf f, by rw [toEntryOf, if_neg hcls]; rfl, harea, ?_, i, hi, hl,
      ⟨hle, by omega⟩, span, ?_, hin⟩
    · rw [callable_flushed]
      exact unmapped_of_accessible harea
    · rw [copySections_writes hacc.1.1]
      refine List.mem_append_right _ (List.mem_flatMap.mpr ⟨i, by simpa using hi, ?_⟩)
      rw [copyWrites, if_pos hl]
      exact hspan

theorem copySections_entry_sound_small :
    (checkSections (ofBytes smallFile) smallArgs (.fresh 0)).1 = none ∧
      ∃ e, (copySections (ofBytes smallFile) (.fresh 0)).1 = some e ∧
        callable (flushTlbs fun _ => ⟨0, 0, 0, 0⟩) e = true := by
  have hacc : (checkSections (ofBytes smallFile) smallArgs (.fresh 0)).1 = none := by decide +kernel
  obtain ⟨e, he, -, hcall, -⟩ := (copySections_entry_sound smallFile smallArgs 0 0
    (fun _ => ⟨0, 0, 0, 0⟩) hacc).mpr (by decide +kernel)
  exact ⟨hacc, e, he, hcall⟩

/-- An accepted 64-bit file with its entry point in KSEG0, for which a physical address is
returned. -/
theorem copySections64_entry_mapped :
    let f := elf64.file 2 0x80010004 [⟨1, 0x78, 0, 0x80010000, 8, 16⟩]
    (checkSections (ofBytes f) smallArgs (.fresh 0)).1 = none ∧
      (copySections (ofBytes f) (.fresh 0)).1 = some 0x10004 ∧ accessible 0x10004 = false ∧
      callable (flushTlbs fun _ => ⟨0, 0, 0, 0⟩) 0x10004 = false := by
  decide +kernel

end KernelLoader.Elf
