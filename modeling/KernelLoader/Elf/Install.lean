import KernelLoader.Elf.Containment

namespace KernelLoader.Elf
open Lib
set_option autoImplicit true
set_option relaxedAutoImplicit false

variable {L : Layout} {f : Mem} {c : CheckArgs} {ph : Phdr} {w : Walk}

/-- The number of bytes a segment takes in memory. -/
def Phdr.extent (ph : Phdr) : Nat := max ph.memsz ph.filesz

/-- The address is in the memory range of the segment. -/
def Phdr.Holds (ph : Phdr) (a : Nat) : Prop :=
  physAddr ph.paddr ≤ a ∧ a < physAddr ph.paddr + ph.extent

/-- Memory with a segment installed: its file data, and zeros behind it. -/
def Phdr.install (f : Mem) (ph : Phdr) (m : Mem) : Mem := fun a =>
  if physAddr ph.paddr ≤ a ∧ a < physAddr ph.paddr + ph.filesz then
    f (ph.offset + (a - physAddr ph.paddr))
  else if physAddr ph.paddr + ph.filesz ≤ a ∧ a < physAddr ph.paddr + ph.memsz then 0
  else m a

/-- Memory with the first `k` segments installed. -/
def Layout.image (L : Layout) (f : Mem) : Nat → Mem → Mem
  | 0, m => m
  | k + 1, m =>
    if (L.phdr f k).loadable then (L.phdr f k).install f (L.image f k m) else L.image f k m

/-- The memory at the physical address of a segment is what the file says. -/
def Phdr.Installed (m f : Mem) (ph : Phdr) : Prop :=
  (∀ j < ph.filesz, m (physAddr ph.paddr + j) = f (ph.offset + j)) ∧
    ∀ j, ph.filesz ≤ j → j < ph.memsz → m (physAddr ph.paddr + j) = 0

theorem Phdr.install_outside (m : Mem) (h : ¬ph.Holds a) : ph.install f m a = m a := by
  unfold Phdr.Holds Phdr.extent at h
  unfold Phdr.install
  rw [if_neg (by omega), if_neg (by omega)]

theorem Phdr.install_installed (f : Mem) (ph : Phdr) (m : Mem) :
    ph.Installed (ph.install f m) f := by
  refine ⟨fun j hj => ?_, fun j hj hj' => ?_⟩
  · unfold Phdr.install
    rw [if_pos (by omega), Nat.add_sub_cancel_left]
  · unfold Phdr.install
    rw [if_neg (by omega), if_pos (by omega)]

theorem Phdr.Installed.congr {m m' : Mem} (h : ph.Installed m f)
    (he : ∀ a, ph.Holds a → m' a = m a) : ph.Installed m' f := by
  unfold Phdr.Holds Phdr.extent at he
  refine ⟨fun j hj => ?_, fun j hj hj' => ?_⟩
  · rw [he _ ⟨by omega, by omega⟩, h.1 j hj]
  · rw [he _ ⟨by omega, by omega⟩, h.2 j hj hj']

theorem Layout.image_outside {k : Nat} (m : Mem)
    (h : ∀ i < k, (L.phdr f i).loadable = true → ¬(L.phdr f i).Holds a) :
    L.image f k m a = m a := by
  induction k with
  | zero => rfl
  | succ k ih =>
    rw [Layout.image]
    split_ifs with hl
    · rw [Phdr.install_outside _ (h k (by omega) hl)]
      exact ih fun i hi => h i (by omega)
    · exact ih fun i hi => h i (by omega)

/-- A segment stays installed, as no later one reaches into it. -/
theorem Layout.image_installed {k : Nat} (m : Mem)
    (hd : ∀ i < k, ∀ j < k, i ≠ j → (L.phdr f i).loadable = true → (L.phdr f j).loadable = true →
      ∀ a, (L.phdr f i).Holds a → ¬(L.phdr f j).Holds a)
    (hi : i < k) (hl : (L.phdr f i).loadable = true) :
    (L.phdr f i).Installed (L.image f k m) f := by
  induction k with
  | zero => exact absurd hi (Nat.not_lt_zero i)
  | succ k ih =>
    rw [Layout.image]
    rcases Nat.lt_succ_iff_lt_or_eq.mp hi with hlt | rfl
    · have hrec := ih (fun i hi j hj => hd i (by omega) j (by omega)) hlt
      split_ifs with hk
      · refine hrec.congr fun a ha => Phdr.install_outside _ ?_
        exact hd i (by omega) k (by omega) (by omega) hl hk a ha
      · exact hrec
    · rw [if_pos hl]
      exact Phdr.install_installed f _ _

theorem kmemcpy_mem {src : Source} {b : Nat → UInt8} {ptr img off n d : Nat}
    (hp : ∀ j < n, phys (ptr + j) = d + j)
    (hsrc : ∀ m' : Mem, (∀ a, ¬(d ≤ a ∧ a < d + n) → m' a = w.mem a) →
      ∀ j < n, src m' (off + j) = b j) (a : Nat) :
    (kmemcpy src ptr img off n w).mem a = if d ≤ a ∧ a < d + n then b (a - d) else w.mem a := by
  change copyBytes src (fun i => phys (ptr + i)) off n w.mem a = _
  split_ifs with ha
  · obtain ⟨j, rfl⟩ : ∃ j, a = d + j := ⟨a - d, by omega⟩
    have hj : j < n := by omega
    rw [Nat.add_sub_cancel_left, ← hp j hj]
    refine copyBytes_inside (fun i => phys (ptr + i)) w.mem ?_ ?_ hj
    · intro i hi j hj he
      simp only [hp i hi, hp j hj] at he
      omega
    · intro m' hm'
      refine hsrc m' fun a ha => hm' a fun j hj he => ha ?_
      simp only [hp j hj] at he
      omega
  · apply copyBytes_outside
    intro j hj he
    simp only [hp j hj] at he
    omega

theorem memset_mem {ptr img n d : Nat} (hp : ∀ j < n, phys (ptr + j) = d + j) (a : Nat) :
    (memset ptr img n w).mem a = if d ≤ a ∧ a < d + n then 0 else w.mem a := by
  change fillBytes (fun i => phys (ptr + i)) 0 n w.mem a = _
  split_ifs with ha
  · obtain ⟨j, rfl⟩ : ∃ j, a = d + j := ⟨a - d, by omega⟩
    have hj : j < n := by omega
    rw [← hp j hj]
    exact fillBytes_inside (fun i => phys (ptr + i)) w.mem hj
  · apply fillBytes_outside
    intro j hj he
    simp only [hp j hj] at he
    omega

/-- The sizes of an accepted segment that neither wraps nor is truncated. -/
structure Phdr.Sized (c : CheckArgs) (ph : Phdr) : Prop where
  fits : ph.Fits c
  copy : copySize ph = ph.filesz
  clear : clearSize ph = ph.memsz - ph.filesz
  file : u32 ph.filesz = ph.filesz
  offset : ph.filesz ≠ 0 → u32 ph.offset = ph.offset
  last : physAddr ph.paddr + ph.extent < 2 ^ 28

theorem Phdr.segSize_eq (hl : ph.loadable = true) (hw : physAddr ph.paddr + ph.extent < 2 ^ 32) :
    segSize ph = ph.extent ∧ ph.extent ≠ 0 := by
  have hm : ph.memsz ≠ 0 := by
    simp only [Phdr.loadable, Bool.and_eq_true, bne_iff_ne] at hl
    exact hl.2
  unfold Phdr.extent at *
  unfold segSize u32
  refine ⟨?_, by omega⟩
  split_ifs <;> omega

theorem Phdr.sized (h : headerError c.phys ph = none) (hl : ph.loadable = true)
    (hw : physAddr ph.paddr + ph.extent < 2 ^ 32) : ph.Sized c.phys := by
  obtain ⟨hseg, hpos⟩ := Phdr.segSize_eq hl hw
  have hfit := headerError_none h hl (by omega)
  have hlast := hfit.last
  have hle := hfit.filesz_le
  have hrange : c.phys.last < 2 ^ 28 := physAddr_lt _
  rw [segEnd, hseg, u32_of_lt hw] at hlast
  unfold Phdr.extent at *
  refine ⟨hfit, copySize_of_le hle, ?_, u32_of_lt (by omega), fun hz => ?_, ?_⟩
  · unfold clearSize sub32 u32
    rw [toNat_s32]
    split_ifs <;> omega
  · have := (hfit.data hz).1
    unfold megabytes128 at this
    exact u32_of_lt (by omega)
  · unfold Phdr.extent
    exact hlast.trans hrange

theorem physAddr_u32 (x : Nat) : physAddr (u32 x) = physAddr x := by
  rw [physAddr_eq, physAddr_eq, u32]
  omega

theorem Phdr.Sized.phys_ptr (h : ph.Sized c) (hj : j < ph.extent) :
    phys (u32 ph.paddr + j) = physAddr ph.paddr + j := by
  have hlast := h.last
  rw [phys_add h.fits.area (by rw [physAddr_u32]; omega), physAddr_u32]

theorem field_congr {x : Field} {g : Mem} {base : Nat}
    (h : ∀ i, base + x.off ≤ i → i < base + x.off + x.len → g i = f i) :
    x.get g base = x.get f base :=
  le_congr h

theorem phdr_congr {g : Mem} (hreg : L.Regular)
    (h : ∀ j, L.phdrPos i ≤ j → j < L.phdrPos (i + 1) → g j = f j) :
    L.phdr g i = L.phdr f i := by
  have hsize : L.phdrPos (i + 1) = L.phdrPos i + L.phdrSize := by
    unfold Layout.phdrPos
    rw [Nat.add_mul]
    omega
  have hfit := hreg.memsz_fits
  have hget (x : Field) (hx : x.off + x.len ≤ L.memsz.off + L.memsz.len) :
      x.get g (L.phdrPos i) = x.get f (L.phdrPos i) :=
    field_congr fun j hj hj' => h j (by omega) (by omega)
  have hlast := hreg.memsz_last
  simp only [List.mem_cons, List.not_mem_nil, or_false, forall_eq_or_imp, forall_eq] at hlast
  obtain ⟨h1, h2, h3, h4, h5⟩ := hlast
  unfold Layout.phdr
  rw [hget _ h1, hget _ h2, hget _ h3, hget _ h4, hget _ h5, hget _ (Nat.le_refl _)]

theorem Phdr.lt_extent (h : j < ph.filesz) : j < ph.extent := by
  unfold Phdr.extent
  omega

theorem Phdr.lt_extent_of_memsz (h : j < ph.memsz - ph.filesz) : ph.filesz + j < ph.extent := by
  unfold Phdr.extent
  omega

theorem Phdr.holds_data (h : physAddr ph.paddr ≤ a ∧ a < physAddr ph.paddr + ph.filesz) :
    ph.Holds a := by
  unfold Phdr.Holds Phdr.extent
  omega

theorem copyData_mem (src : Source) (h : ph.Sized c) (img : Nat)
    (hsrc : ∀ m' : Mem, (∀ a, ¬ph.Holds a → m' a = w.mem a) →
      ∀ j < ph.filesz, src m' (ph.offset + j) = f (ph.offset + j)) (a : Nat) :
    (copyData src (u32 ph.paddr) img ph w).mem a =
      if physAddr ph.paddr ≤ a ∧ a < physAddr ph.paddr + ph.filesz then
        f (ph.offset + (a - physAddr ph.paddr))
      else w.mem a := by
  by_cases hz : ph.filesz = 0
  · rw [copyData, if_pos hz, if_neg (by omega)]
  · rw [copyData, if_neg hz, h.copy, h.offset hz]
    exact kmemcpy_mem (b := fun j => f (ph.offset + j))
      (fun j hj => h.phys_ptr (Phdr.lt_extent hj))
      (fun m' hm' => hsrc m' fun a ha => hm' a fun hb => ha (Phdr.holds_data hb)) a

theorem clearRest_mem (h : ph.Sized c) (img : Nat) (a : Nat) :
    (clearRest (u32 ph.paddr + u32 ph.filesz) img (clearSize ph) w).mem a =
      if physAddr ph.paddr + ph.filesz ≤ a ∧ a < physAddr ph.paddr + ph.memsz then 0
      else w.mem a := by
  rw [h.clear, h.file]
  by_cases hz : ph.memsz - ph.filesz = 0
  · rw [clearRest, if_pos hz, if_neg (by omega)]
  · have hp (j : Nat) (hj : j < ph.memsz - ph.filesz) :
        phys (u32 ph.paddr + ph.filesz + j) = physAddr ph.paddr + ph.filesz + j := by
      rw [Nat.add_assoc, h.phys_ptr (Phdr.lt_extent_of_memsz hj), Nat.add_assoc]
    have hend : physAddr ph.paddr + ph.filesz + (ph.memsz - ph.filesz) =
        physAddr ph.paddr + ph.memsz := by omega
    rw [clearRest, if_neg hz, memset_mem hp, hend]

/-- The ranges of two segments do not overlap. -/
def Phdr.Apart (ph ph' : Phdr) : Prop :=
  physAddr ph.paddr + ph.extent ≤ physAddr ph'.paddr ∨
    physAddr ph'.paddr + ph'.extent ≤ physAddr ph.paddr

instance (ph ph' : Phdr) : Decidable (ph.Apart ph') := by
  unfold Phdr.Apart
  infer_instance

/-- An accepted file in memory at `buf` whose headers are complete, and whose segments neither
wrap nor overlap each other or the file. -/
structure Installable (m : Mem) (buf : Nat) (c : CheckArgs) (f : Mem) (L : Layout) : Prop where
  file : f = inMemory buf m
  layout : L = layoutOf f
  accepted : (checkSections (ofBytes f) c (.fresh m)).1 = none
  headers : L.phdrPos (L.phnumOf f) ≤ c.filesize
  nowrap : ∀ i < L.phnumOf f, (L.phdr f i).loadable = true →
    physAddr (L.phdr f i).paddr + (L.phdr f i).extent < 2 ^ 32
  apart : ∀ i < L.phnumOf f, ∀ j < L.phnumOf f, i ≠ j → (L.phdr f i).loadable = true →
    (L.phdr f j).loadable = true → (L.phdr f i).Apart (L.phdr f j)
  away : ∀ i < L.phnumOf f, (L.phdr f i).loadable = true →
    physAddr (L.phdr f i).paddr + (L.phdr f i).extent ≤ buf ∨
      buf + c.filesize ≤ physAddr (L.phdr f i).paddr

variable {m : Mem} {buf : Nat}

theorem Installable.regular (h : Installable m buf c f L) : L.Regular :=
  h.layout ▸ layoutOf_regular f

theorem Installable.isAccepted (h : Installable m buf c f L) : Accepted f c :=
  (checkSections_accepts f c _).mp h.accepted

theorem Installable.sized (h : Installable m buf c f L) (hi : i < L.phnumOf f)
    (hl : (L.phdr f i).loadable = true) : (L.phdr f i).Sized c.phys := by
  obtain ⟨-, hall, -⟩ := h.isAccepted
  rw [← h.layout] at hall
  exact Phdr.sized (hall i hi) hl (h.nowrap i hi hl)

theorem Installable.not_holds (h : Installable m buf c f L) (hi : i < L.phnumOf f)
    (hl : (L.phdr f i).loadable = true) (hj : j < c.filesize) : ¬(L.phdr f i).Holds (buf + j) := by
  have := h.away i hi hl
  unfold Phdr.Holds
  omega

theorem Installable.image_file (h : Installable m buf c f L) (hk : k ≤ L.phnumOf f)
    (hj : j < c.filesize) : L.image f k m (buf + j) = f j := by
  rw [Layout.image_outside m fun i hi hl => h.not_holds (Nat.lt_of_lt_of_le hi hk) hl hj, h.file]

theorem Layout.phdrPos_le (L : Layout) (h : i ≤ n) : L.phdrPos i ≤ L.phdrPos n :=
  Nat.add_le_add_left (Nat.mul_le_mul_right _ h) _

theorem Installable.copySegment (h : Installable m buf c f L) (hk : k < L.phnumOf f)
    (hw : w.mem = L.image f k m) :
    (copySegment L (inMemory buf) k w).mem = L.image f (k + 1) m := by
  have hsrc (j : Nat) (hj : j < c.filesize) : w.mem (buf + j) = f j := by
    rw [hw]
    exact h.image_file (Nat.le_of_lt hk) hj
  have hpos : L.phdrPos (k + 1) ≤ c.filesize := Nat.le_trans (L.phdrPos_le hk) h.headers
  have hph : L.phdr (inMemory buf w.mem) k = L.phdr f k :=
    phdr_congr h.regular fun j _ hj => hsrc j (by omega)
  rw [Layout.image, Elf.copySegment]
  simp only [hph]
  cases hl : (L.phdr f k).loadable with
  | false => exact hw
  | true =>
    have hs := h.sized hk hl
    simp only [Bool.not_true, Bool.false_eq_true, if_false, if_true]
    -- The file data are read outside of what this round writes.
    have hcopy := copyData_mem (inMemory buf) (f := f)
      (w := w.read (phdrReads L k (L.phdr f k))) hs (physAddr (L.phdr f k).paddr) (by
        intro m' hm' j hj
        have hdata := (hs.fits.data (by omega)).2
        change _ < c.filesize at hdata
        have hlt : (L.phdr f k).offset + j < c.filesize := by omega
        exact (hm' _ (h.not_holds hk hl hlt)).trans (hsrc _ hlt))
    have hph' : L.phdr (inMemory buf (copyData (inMemory buf) (u32 (L.phdr f k).paddr)
        (physAddr (L.phdr f k).paddr) (L.phdr f k) (w.read (phdrReads L k (L.phdr f k)))).mem) k =
        L.phdr f k := by
      refine phdr_congr h.regular fun j _ hj => ?_
      have hnot := h.not_holds hk hl (show j < c.filesize by omega)
      unfold Phdr.Holds Phdr.extent at hnot
      refine (hcopy (buf + j)).trans ((if_neg (by omega)).trans ?_)
      exact hsrc j (by omega)
    rw [hph']
    funext a
    rw [clearRest_mem hs, hcopy, read_mem, hw]
    unfold Phdr.install
    -- The two ranges exclude each other, so their order does not matter.
    by_cases h1 : physAddr (L.phdr f k).paddr + (L.phdr f k).filesz ≤ a ∧
        a < physAddr (L.phdr f k).paddr + (L.phdr f k).memsz
    · rw [if_pos h1, if_neg (by omega), if_pos h1]
    · rw [if_neg h1, if_neg h1]

theorem Installable.copySections_mem (h : Installable m buf c f L) :
    (copySections (inMemory buf) (.fresh m)).2.mem = L.image f (L.phnumOf f) m := by
  have hreg := h.regular
  have hmagic : magicField.get f 0 = elfMagic := h.isAccepted.1.1
  have hfile : inMemory buf (Walk.fresh m).mem = f := h.file.symm
  rw [copySections_eq, hfile, ← h.layout, copySectionsWith]
  simp only [read_mem, hfile, hmagic, ne_eq, not_true_eq_false, if_false]
  -- After `i` rounds memory holds `i` segments, so the bound is still the one in the file.
  obtain ⟨w', he, hw'⟩ := forUpTo_invariant
    (fun w : Walk => L.phnumOf (inMemory buf w.mem))
    (fun i w => ((none : Option Failure), Elf.copySegment L (inMemory buf) i w)) phnumBound
    (n := L.phnumOf f) (i := 0)
    (I := fun i w => i ≤ L.phnumOf f ∧ w.mem = L.image f i m)
    (s := ((Walk.fresh m).read [classField.span 0]).read [magicField.span 0] |>.read
      [L.entry.span 0, L.phnum.span 0])
    (fun i w hI => field_congr fun j _ hj => by
      have hpos := L.phdrPos_le (Nat.zero_le (L.phnumOf f))
      have hfits := hreg.phnum_fits
      have hhdr := h.headers
      rw [show L.phdrPos 0 = L.ehdrSize by simp [Layout.phdrPos]] at hpos
      change w.mem (buf + j) = f j
      rw [hI.2]
      exact h.image_file hI.1 (by omega))
    (fun i w hi hI => ⟨_, rfl, hi, h.copySegment hi hI.2⟩)
    (hreg.phnum_lt f) (Nat.zero_le _) ⟨Nat.zero_le _, rfl⟩
  rw [he]
  exact hw'.2

theorem Phdr.Apart.not_holds {ph' : Phdr} (h : ph.Apart ph') (a : Nat) (ha : ph.Holds a) :
    ¬ph'.Holds a := by
  unfold Phdr.Apart at h
  unfold Phdr.Holds at *
  omega

/-- After `copy_sections` every segment is installed, and nothing else has changed. -/
theorem copySections_installs (m : Mem) (buf : Nat) (c : CheckArgs) (f : Mem) (L : Layout)
    (h : Installable m buf c f L) :
    (∀ i < L.phnumOf f, (L.phdr f i).loadable = true →
      (L.phdr f i).Installed (copySections (inMemory buf) (.fresh m)).2.mem f) ∧
      ∀ a, (∀ i < L.phnumOf f, (L.phdr f i).loadable = true → ¬(L.phdr f i).Holds a) →
        (copySections (inMemory buf) (.fresh m)).2.mem a = m a := by
  rw [h.copySections_mem]
  refine ⟨fun i hi hl => ?_, fun a ha => Layout.image_outside m ha⟩
  exact Layout.image_installed m
    (fun i hi j hj hne hl hl' => (h.apart i hi j hj hne hl hl').not_holds) hi hl

/-- A file with two segments at 16 MByte in memory; the second one has the bytes of the file
header. -/
def twoMem : Mem := fun a =>
  if 0x1000000 ≤ a then
    elf32.file 1 0x80010004
      [⟨1, 0x74, 0, 0x80010000, 8, 16⟩, ⟨1, 0, 0, 0x80010020, 4, 12⟩] (a - 0x1000000)
  else 0xaa

theorem twoMem_installable : Installable twoMem 0x1000000 smallArgs
    (inMemory 0x1000000 twoMem) (layoutOf (inMemory 0x1000000 twoMem)) where
  file := rfl
  layout := rfl
  accepted := by decide +kernel
  headers := by decide +kernel
  nowrap := by decide +kernel
  apart := by decide +kernel
  away := by decide +kernel

theorem copySections_installs_two :
    (copySections (inMemory 0x1000000) (.fresh twoMem)).2.mem 0x10008 = 0 ∧
      (copySections (inMemory 0x1000000) (.fresh twoMem)).2.mem 0x10020 = 0x7f ∧
      (copySections (inMemory 0x1000000) (.fresh twoMem)).2.mem 0x10024 = 0 ∧
      (copySections (inMemory 0x1000000) (.fresh twoMem)).2.mem 0x10010 = 0xaa := by
  obtain ⟨hin, hout⟩ := copySections_installs twoMem 0x1000000 smallArgs _ _ twoMem_installable
  obtain ⟨-, hclear⟩ := hin 0 (by decide +kernel) (by decide +kernel)
  obtain ⟨hdata, hclear'⟩ := hin 1 (by decide +kernel) (by decide +kernel)
  refine ⟨hclear 8 (by decide +kernel) (by decide +kernel), ?_,
    hclear' 4 (by decide +kernel) (by decide +kernel),
    hout 0x10010 (by unfold Phdr.Holds; decide +kernel)⟩
  exact (hdata 0 (by decide +kernel)).trans (by decide +kernel)

end KernelLoader.Elf
