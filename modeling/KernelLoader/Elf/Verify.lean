import KernelLoader.Elf.Install

namespace KernelLoader.Elf
open Lib
set_option autoImplicit true
set_option relaxedAutoImplicit false

variable {L : Layout} {f m : Mem} {c : CheckArgs} {ph : Phdr} {w : Walk}

/-- A byte of the file data that is compared is different. -/
def Phdr.DataDiffers (m f : Mem) (ph : Phdr) : Prop :=
  ∃ j < u32 ph.filesz, m (physAddr ph.paddr + j) ≠ f (ph.offset + j)

/-- The loop over the cleared area finds its byte set. It is run for every difference of the sizes,
also for a negative one. -/
def Phdr.Alarm (m : Mem) (ph : Phdr) : Prop :=
  sub32 (u32 ph.memsz) ph.filesz ≠ 0 ∧ m (physAddr ph.paddr + u32 ph.filesz) ≠ 0

/-- What `verify_sections` rightly stops at: file data, and the first cleared byte. -/
def Phdr.Seen (m f : Mem) (ph : Phdr) : Prop :=
  ph.DataDiffers m f ∨ ph.Alarm m ∧ u32 ph.filesz = ph.filesz ∧ ph.filesz < ph.memsz

/-- A wrong byte behind the data that is compared. -/
def Phdr.Missed (m f : Mem) (ph : Phdr) : Prop :=
  (∃ j, u32 ph.filesz ≤ j ∧ j < ph.filesz ∧ m (physAddr ph.paddr + j) ≠ f (ph.offset + j)) ∨
    ∃ j, ph.filesz ≤ j ∧ j < ph.memsz ∧ m (physAddr ph.paddr + j) ≠ 0

theorem phys_physAddr (h : physAddr p + j < 2 ^ 29) : phys (physAddr p + j) = physAddr p + j :=
  Nat.mod_eq_of_lt h

theorem phys_toDest (h : accessible (u32 p) = true) (hj : physAddr p + j < 2 ^ 29) :
    phys (toDestOf f p + j) = physAddr p + j := by
  unfold toDestOf
  split_ifs
  · exact phys_physAddr hj
  · rw [phys_add h (by rw [physAddr_u32]; exact hj), physAddr_u32]

theorem elf32_field_lt {x : Field} (hx : x.len = 4) (f : Mem) (base : Nat) :
    x.get f base < 2 ^ 32 := by
  have := le_lt f (base + x.off) x.len
  unfold Field.get
  rw [hx] at *
  exact this

theorem hidden_elf64 {i : Nat} (hl : ((layoutOf f).phdr f i).loadable = true)
    (hz : segSize ((layoutOf f).phdr f i) = 0) : classField.get f 0 = 2 := by
  by_contra hne
  simp only [layoutOf, if_neg hne] at hl hz
  have hm := elf32_field_lt (x := elf32.memsz) rfl f (elf32.phdrPos i)
  have hf := elf32_field_lt (x := elf32.filesz) rfl f (elf32.phdrPos i)
  have hm0 : (elf32.phdr f i).memsz ≠ 0 := by
    simp only [Phdr.loadable, Bool.and_eq_true, bne_iff_ne] at hl
    exact hl.2
  change (elf32.phdr f i).memsz < 2 ^ 32 at hm
  change (elf32.phdr f i).filesz < 2 ^ 32 at hf
  unfold segSize at hz
  rw [u32_of_lt hm, u32_of_lt hf] at hz
  split_ifs at hz <;> omega

/-- `verify_sections` lets a segment pass unless file data differs or the loop finds its byte. -/
theorem verifies_iff {i : Nat} (h : headerError c.phys ((layoutOf f).phdr f i) = none)
    (hl : ((layoutOf f).phdr f i).loadable = true) :
    ((layoutOf f).phdr f i).verifies m f (toDestOf f ((layoutOf f).phdr f i).paddr) ↔
      ¬((layoutOf f).phdr f i).DataDiffers m f ∧ ¬((layoutOf f).phdr f i).Alarm m := by
  unfold Phdr.verifies Phdr.DataDiffers Phdr.Alarm
  generalize hp : (layoutOf f).phdr f i = ph at *
  have hlt := physAddr_lt ph.paddr
  by_cases hz : segSize ph = 0
  · have hcls := hidden_elf64 (hp ▸ hl) (hp ▸ hz)
    obtain ⟨-, hf⟩ := segSize_zero hz
    have hd : toDestOf f ph.paddr = physAddr ph.paddr := by rw [toDestOf, if_pos hcls]
    rw [hf, hd, phys_physAddr (by omega)]
    simp
  · have hfit := headerError_none h hl hz
    have hle := hfit.filesz_le
    have hf : u32 ph.filesz = ph.filesz := u32_of_lt (by unfold megabytes128 at hle; omega)
    unfold megabytes128 at hle
    rw [hf, phys_toDest hfit.area (by omega)]
    have hdata : (∀ j < ph.filesz, m (phys (toDestOf f ph.paddr + j)) = f (u32 ph.offset + j)) ↔
        ∀ j < ph.filesz, m (physAddr ph.paddr + j) = f (ph.offset + j) := by
      refine forall₂_congr fun j hj => ?_
      have hoff := (hfit.data (by omega)).1
      unfold megabytes128 at hoff
      rw [phys_toDest hfit.area (by omega), u32_of_lt (by omega)]
    rw [hdata]
    simp only [not_exists, not_and, not_not]

theorem Phdr.not_installed_iff (m f : Mem) (ph : Phdr) :
    ¬ph.Installed m f ↔ ph.DataDiffers m f ∨ ph.Missed m f := by
  have hle : u32 ph.filesz ≤ ph.filesz := Nat.mod_le _ _
  unfold Phdr.Installed Phdr.DataDiffers Phdr.Missed
  constructor
  · intro h
    by_contra hn
    simp only [not_or, not_exists, not_and, not_not] at hn
    obtain ⟨h1, h2, h3⟩ := hn
    refine h ⟨fun j hj => ?_, h3⟩
    rcases Nat.lt_or_ge j (u32 ph.filesz) with hlt | hge
    · exact h1 j hlt
    · exact h2 j hge hj
  · rintro (⟨j, hj, hne⟩ | ⟨j, -, hj, hne⟩ | ⟨j, hj, hj', hne⟩) ⟨hd, hc⟩
    · exact hne (hd j (by omega))
    · exact hne (hd j hj)
    · exact hne (hc j hj hj')

theorem Phdr.Seen.not_installed (h : ph.Seen m f) : ¬ph.Installed m f := by
  rw [Phdr.not_installed_iff]
  rcases h with h | ⟨⟨_, hne⟩, hf, hlt⟩
  · exact .inl h
  · rw [hf] at hne
    exact .inr (.inr ⟨ph.filesz, Nat.le_refl _, hlt, hne⟩)

theorem verifySections_iff (h : Accepted f c) (m : Mem) :
    (verifySections (ofBytes f) (.fresh m)).1 = none ↔
      ∀ i < (layoutOf f).phnumOf f, ((layoutOf f).phdr f i).loadable = true →
        ¬((layoutOf f).phdr f i).DataDiffers m f ∧ ¬((layoutOf f).phdr f i).Alarm m := by
  rw [verifySections_none h.1.1]
  exact forall₃_congr fun i hi hl => verifies_iff (c := c) (h.2.1 i hi) hl

/-- After an installation nothing differs, and the loop over the cleared area can only stop at the
byte behind a segment that is larger in the file than in memory. -/
theorem Installable.verifySections {buf : Nat} (h : Installable m buf c f (layoutOf f))
    (hi : ∀ i < (layoutOf f).phnumOf f, ((layoutOf f).phdr f i).loadable = true →
      ((layoutOf f).phdr f i).Installed w.mem f) :
    (verifySections (ofBytes f) (.fresh w.mem)).1 = none ↔
      ∀ i < (layoutOf f).phnumOf f, ((layoutOf f).phdr f i).loadable = true →
        ((layoutOf f).phdr f i).memsz < ((layoutOf f).phdr f i).filesz →
        w.mem (physAddr ((layoutOf f).phdr f i).paddr + ((layoutOf f).phdr f i).filesz) = 0 := by
  rw [verifySections_iff h.isAccepted]
  refine forall₃_congr fun i hlt hl => ?_
  have hs := h.sized hlt hl
  have hin := hi i hlt hl
  have hlast := hs.last
  generalize (layoutOf f).phdr f i = ph at *
  unfold Phdr.extent at hlast
  have hd : ¬ph.DataDiffers w.mem f := fun hd =>
    (Phdr.not_installed_iff w.mem f ph).mpr (.inl hd) hin
  have hsub : sub32 (u32 ph.memsz) ph.filesz ≠ 0 ↔ ph.memsz ≠ ph.filesz := by
    unfold sub32 u32
    omega
  unfold Phdr.Alarm
  rw [hs.file, hsub]
  constructor
  · intro h hsz
    by_contra hne
    exact h.2 ⟨by omega, hne⟩
  · intro h
    refine ⟨hd, fun ⟨hne, hb⟩ => ?_⟩
    rcases Nat.lt_or_gt_of_ne hne with hsz | hsz
    · exact hb (h hsz)
    · exact hb (hin.2 _ (Nat.le_refl _) hsz)

/-- One of the segments that are loaded has the property. -/
def SomeSegment (f : Mem) (R : Phdr → Prop) : Prop :=
  ∃ i < (layoutOf f).phnumOf f, ((layoutOf f).phdr f i).loadable = true ∧ R ((layoutOf f).phdr f i)

theorem not_someSegment {R S : Phdr → Prop} : ¬(SomeSegment f R ∨ SomeSegment f S) ↔
    ∀ i < (layoutOf f).phnumOf f, ((layoutOf f).phdr f i).loadable = true →
      ¬R ((layoutOf f).phdr f i) ∧ ¬S ((layoutOf f).phdr f i) := by
  unfold SomeSegment
  constructor
  · exact fun h i hi hl => ⟨fun hr => h (.inl ⟨i, hi, hl, hr⟩), fun hs => h (.inr ⟨i, hi, hl, hs⟩)⟩
  · rintro h (⟨i, hi, hl, hr⟩ | ⟨i, hi, hl, hs⟩)
    · exact (h i hi hl).1 hr
    · exact (h i hi hl).2 hs

theorem SomeSegment.mono {R S : Phdr → Prop} (h : SomeSegment f R) (hrs : ∀ ph, R ph → S ph) :
    SomeSegment f S := by
  obtain ⟨i, hi, hl, hr⟩ := h
  exact ⟨i, hi, hl, hrs _ hr⟩

theorem someSegment_or {R S : Phdr → Prop} :
    SomeSegment f (fun ph => R ph ∨ S ph) → SomeSegment f R ∨ SomeSegment f S := by
  rintro ⟨i, hi, hl, hr | hs⟩
  · exact .inl ⟨i, hi, hl, hr⟩
  · exact .inr ⟨i, hi, hl, hs⟩

/-- When a test that stops at `d` or `a` agrees with a fact that `d` or `b` is against. -/
theorem agree_iff {p q d a b s : Prop} (hp : p ↔ ¬(d ∨ a)) (hq : q ↔ ¬(d ∨ b)) (hd : d → s)
    (ha : s → d ∨ a) (hb : s → d ∨ b) : (p ↔ q) ↔ s ∨ (a ↔ b) := by
  rw [hp, hq, not_iff_not]
  by_cases hs : s
  · simp only [hs, true_or, iff_true]
    exact ⟨fun _ => hb hs, fun _ => ha hs⟩
  · have hnd : ¬d := fun h => hs (hd h)
    simp only [hnd, hs, false_or]

/-- For an accepted file `verify_sections` returns exactly for the installed images, if it stops at
a byte it looks at rightly, or if it stops wrongly exactly when it misses something. Directly after
`copy_sections` it returns unless a byte behind a segment with `memsz < filesz` is set. -/
theorem verifySections_exact (f : Mem) (c : CheckArgs) (m : Mem)
    (h : (checkSections (ofBytes f) c (.fresh m)).1 = none) :
    (((verifySections (ofBytes f) (.fresh m)).1 = none ↔
        ∀ i < (layoutOf f).phnumOf f, ((layoutOf f).phdr f i).loadable = true →
          ((layoutOf f).phdr f i).Installed m f) ↔
      SomeSegment f (Phdr.Seen m f) ∨
        (SomeSegment f (Phdr.Alarm m) ↔ SomeSegment f (Phdr.Missed m f))) ∧
      ∀ (m₀ : Mem) (buf : Nat), Installable m₀ buf c f (layoutOf f) →
        ((verifySections (ofBytes f)
            (.fresh (copySections (inMemory buf) (.fresh m₀)).2.mem)).1 = none ↔
          ∀ i < (layoutOf f).phnumOf f, ((layoutOf f).phdr f i).loadable = true →
            ((layoutOf f).phdr f i).memsz < ((layoutOf f).phdr f i).filesz →
            (copySections (inMemory buf) (.fresh m₀)).2.mem
              (physAddr ((layoutOf f).phdr f i).paddr + ((layoutOf f).phdr f i).filesz) = 0) := by
  have hacc := (checkSections_accepts f c _).mp h
  refine ⟨?_, fun m₀ buf hi => hi.verifySections fun i hlt hl => ?_⟩
  · have hpass : (verifySections (ofBytes f) (.fresh m)).1 = none ↔
        ¬(SomeSegment f (Phdr.DataDiffers m f) ∨ SomeSegment f (Phdr.Alarm m)) := by
      rw [not_someSegment]
      exact verifySections_iff hacc m
    have hinst : (∀ i < (layoutOf f).phnumOf f, ((layoutOf f).phdr f i).loadable = true →
          ((layoutOf f).phdr f i).Installed m f) ↔
        ¬(SomeSegment f (Phdr.DataDiffers m f) ∨ SomeSegment f (Phdr.Missed m f)) := by
      rw [not_someSegment]
      refine forall₃_congr fun i _ _ => ?_
      rw [← not_or, ← Phdr.not_installed_iff, not_not]
    have hdata : SomeSegment f (Phdr.DataDiffers m f) → SomeSegment f (Phdr.Seen m f) :=
      fun hd => hd.mono fun _ => .inl
    have hstop : SomeSegment f (Phdr.Seen m f) →
        SomeSegment f (Phdr.DataDiffers m f) ∨ SomeSegment f (Phdr.Alarm m) :=
      fun hs => someSegment_or (hs.mono fun _ => Or.imp_right And.left)
    have hwrong : SomeSegment f (Phdr.Seen m f) →
        SomeSegment f (Phdr.DataDiffers m f) ∨ SomeSegment f (Phdr.Missed m f) :=
      fun hs => someSegment_or (hs.mono fun ph h => (ph.not_installed_iff m f).mp h.not_installed)
    exact agree_iff hpass hinst hdata hstop hwrong
  · rw [hi.copySections_mem]
    exact Layout.image_installed m₀
      (fun i hi' j hj hne hl hl' => (hi.apart i hi' j hj hne hl hl').not_holds) hlt hl

theorem verifySections_exact_small :
    (verifySections (ofBytes smallFile) (.fresh 0)).1 = none ∧
      (SomeSegment smallFile (Phdr.Seen 0 smallFile) ∨
        (SomeSegment smallFile (Phdr.Alarm 0) ↔
          SomeSegment smallFile (Phdr.Missed 0 smallFile))) := by
  have hacc : (checkSections (ofBytes smallFile) smallArgs (.fresh 0)).1 = none := by decide +kernel
  refine ⟨by decide +kernel, (verifySections_exact smallFile smallArgs 0 hacc).1.mp ?_⟩
  refine ⟨fun _ => ?_, fun _ => by decide +kernel⟩
  have hall : ∀ i < (layoutOf smallFile).phnumOf smallFile,
      (∀ j < ((layoutOf smallFile).phdr smallFile i).filesz,
        (0 : UInt8) = smallFile (((layoutOf smallFile).phdr smallFile i).offset + j)) := by
    decide +kernel
  exact fun i hi _ => ⟨hall i hi, fun _ _ _ => rfl⟩

/-- A segment with more bytes in the file than in memory. -/
def shrunkFile : Mem := elf32.file 1 0x80010000 [⟨1, 0x54, 0, 0x80010000, 8, 4⟩]

/-- A set byte in the cleared area that is not the first one is not found; and a correct image of a
segment with `memsz < filesz` is refused, as the byte behind the segment is set. -/
theorem verifySections_misses_and_refuses :
    let m : Mem := fun a => if a = 0x1000c then 1 else 0
    let m' : Mem := fun a => if a = 0x10008 then 1 else 0
    ((checkSections (ofBytes smallFile) smallArgs (.fresh m)).1 = none ∧
      (verifySections (ofBytes smallFile) (.fresh m)).1 = none ∧
      ¬((layoutOf smallFile).phdr smallFile 0).Installed m smallFile) ∧
    (checkSections (ofBytes shrunkFile) smallArgs (.fresh m')).1 = none ∧
      (verifySections (ofBytes shrunkFile) (.fresh m')).1 ≠ none ∧
      (layoutOf shrunkFile).phnumOf shrunkFile = 1 ∧
      ((layoutOf shrunkFile).phdr shrunkFile 0).Installed m' shrunkFile := by
  refine ⟨⟨by decide +kernel, by decide +kernel, ?_⟩, by decide +kernel, ?_, by decide +kernel, ?_⟩
  · intro hi
    exact absurd (hi.2 12 (by decide +kernel) (by decide +kernel)) (by decide +kernel)
  · rw [ne_eq, verifySections_none (by decide +kernel)]
    intro hv
    exact absurd ((hv 0 (by decide +kernel) (by decide +kernel)).2 (by decide +kernel))
      (by decide +kernel)
  · have hsz : ((layoutOf shrunkFile).phdr shrunkFile 0).memsz ≤
        ((layoutOf shrunkFile).phdr shrunkFile 0).filesz := by decide +kernel
    exact ⟨by decide +kernel, fun j hj hj' => absurd hj' (Nat.not_lt.mpr (Nat.le_trans hsz hj))⟩

end KernelLoader.Elf
