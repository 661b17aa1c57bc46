import KernelLoader.Elf.Verify

namespace KernelLoader.Elf
open Lib
set_option autoImplicit true
set_option relaxedAutoImplicit false

variable {f g : Mem} {c c' : CheckArgs} {ph ph' : Phdr}

/-- The same segment in two files: the data is at another place, but just as far from the end. -/
structure Phdr.Twin (f g : Mem) (c c' : CheckArgs) (ph ph' : Phdr) : Prop where
  type : ph.type = ph'.type
  paddr : ph.paddr = ph'.paddr
  filesz : ph.filesz = ph'.filesz
  memsz : ph.memsz = ph'.memsz
  offset : ph.filesz ≠ 0 → ph.offset < megabytes128 ∧ ph'.offset < megabytes128
  toEnd : ph.filesz ≠ 0 → (c.filesize : Int) - (ph.offset + ph.filesz : Nat) =
    (c'.filesize : Int) - (ph'.offset + ph'.filesz : Nat)
  data : ∀ j < ph.filesz, f (ph.offset + j) = g (ph'.offset + j)

/-- The same program as a 32-bit file `f` and as a 64-bit file `g`, to be checked for the same
range and with the same buffer. -/
structure Twins (f g : Mem) (c c' : CheckArgs) : Prop where
  class32 : classField.get f 0 ≠ 2
  class64 : classField.get g 0 = 2
  magic : magicField.get f 0 = magicField.get g 0
  entry : elf32.entryOf f = elf64.entryOf g
  phnum : elf32.phnumOf f = elf64.phnumOf g
  phdr : ∀ i < elf32.phnumOf f, (elf32.phdr f i).Twin f g c c' (elf64.phdr g i)
  start : c.start = c'.start
  last : c.last = c'.last
  destaddr : c.destaddr = c'.destaddr

/-- Two walks that have written the same. -/
structure Walk.Alike (v w : Walk) : Prop where
  mem : v.mem = w.mem
  writes : v.writes = w.writes

structure Checked.Alike (s t : Checked) : Prop where
  walk : s.walk.Alike t.walk
  highest : s.highest = t.highest
  copiedEntry : s.copiedEntry = t.copiedEntry

theorem Walk.Alike.read {v w : Walk} (h : v.Alike w) (spans spans' : List (Nat × Nat)) :
    (v.read spans).Alike (w.read spans') :=
  ⟨h.mem, h.writes⟩

theorem Walk.Alike.clearRest {v w : Walk} (h : v.Alike w) (ptr img n : Nat) :
    (clearRest ptr img n v).Alike (clearRest ptr img n w) := by
  unfold Elf.clearRest memset
  split_ifs
  · exact h
  · refine ⟨?_, ?_⟩
    · simp only [h.mem]
    · simp only [h.writes]

namespace Phdr.Twin

theorem loadable (h : ph.Twin f g c c' ph') : ph.loadable = ph'.loadable := by
  rw [Phdr.loadable, Phdr.loadable, h.type, h.memsz]

theorem segSize (h : ph.Twin f g c c' ph') : segSize ph = segSize ph' := by
  rw [Elf.segSize, Elf.segSize, h.memsz, h.filesz]

theorem segEnd (h : ph.Twin f g c c' ph') : segEnd ph = segEnd ph' := by
  rw [Elf.segEnd, Elf.segEnd, h.paddr, h.segSize]

theorem startError (h : ph.Twin f g c c' ph') (hs : c.start = c'.start) :
    startError c ph = startError c' ph' := by
  rw [Elf.startError, Elf.startError, h.paddr, hs]

theorem endError (h : ph.Twin f g c c' ph') (hl : c.last = c'.last) :
    endError c ph = endError c' ph' := by
  rw [Elf.endError, Elf.endError, h.segEnd, hl]

/-- The end of the data is compared with the end of the file alike: with offsets and sizes up to
128 MByte the sum does not wrap in either file. -/
theorem fileError (h : ph.Twin f g c c' ph') : fileError c ph = fileError c' ph' := by
  have hfile := h.filesz
  unfold Elf.fileError
  rw [← hfile]
  by_cases hz : ph.filesz = 0
  · rw [if_pos hz, if_pos hz]
  · obtain ⟨ho, ho'⟩ := h.offset hz
    have hend := h.toEnd hz
    rw [if_neg hz, if_neg hz]
    by_cases hbig : megabytes128 < ph.filesz
    · rw [if_pos hbig, if_pos hbig]
    · have hiff : c.filesize ≤ u32 (ph.offset + ph.filesz) ↔
          c'.filesize ≤ u32 (ph'.offset + ph.filesz) := by
        unfold u32 megabytes128 at *
        omega
      rw [if_neg hbig, if_neg hbig, if_neg (Nat.not_lt.mpr ho.le), if_neg (Nat.not_lt.mpr ho'.le)]
      exact if_congr hiff rfl rfl

theorem copySize (h : ph.Twin f g c c' ph') : copySize ph = copySize ph' := by
  rw [Elf.copySize, Elf.copySize, h.filesz]

theorem clearSize (h : ph.Twin f g c c' ph') : clearSize ph = clearSize ph' := by
  rw [Elf.clearSize, Elf.clearSize, h.memsz, h.filesz]

theorem copyData (h : ph.Twin f g c c' ph') {v w : Walk} (hw : v.Alike w) (ptr img : Nat) :
    (copyData (ofBytes f) ptr img ph v).Alike (copyData (ofBytes g) ptr img ph' w) := by
  unfold Elf.copyData kmemcpy
  rw [← h.filesz]
  by_cases hz : ph.filesz = 0
  · rw [if_pos hz, if_pos hz]
    exact hw
  · obtain ⟨ho, ho'⟩ := h.offset hz
    rw [if_neg hz, if_neg hz, ← h.copySize, u32_of_lt, u32_of_lt]
    · refine ⟨?_, ?_⟩
      · simp only [hw.mem]
        refine copyBytes_same _ fun i hi _ => h.data i ?_
        unfold Elf.copySize at hi
        rw [toNat_s32] at hi
        split_ifs at hi <;> omega
      · simp only [hw.writes]
    · unfold megabytes128 at *
      omega
    · unfold megabytes128 at *
      omega

end Phdr.Twin

variable {i : Nat}

theorem installAt_alike (h : (elf32.phdr f i).Twin f g c c' (elf64.phdr g i))
    (hs : c.start = c'.start) {v w : Walk} (hw : v.Alike w) (d : Nat) :
    (installAt elf32 (ofBytes f) c i d v).Alike (installAt elf64 (ofBytes g) c' i d w) := by
  unfold installAt
  simp only [← h.paddr, ← h.filesz, ← h.clearSize, ← hs]
  exact (h.copyData hw _ _).clearRest _ _ _

theorem checkHeader_alike (h : (elf32.phdr f i).Twin f g c c' (elf64.phdr g i))
    (hs : c.start = c'.start) (hl : c.last = c'.last) (hd : c.destaddr = c'.destaddr) (entry : Nat)
    {s t : Checked} (hst : s.Alike t) :
    (checkHeader elf32 (ofBytes f) c entry i s).1 =
        (checkHeader elf64 (ofBytes g) c' entry i t).1 ∧
      (checkHeader elf32 (ofBytes f) c entry i s).2.Alike
        (checkHeader elf64 (ofBytes g) c' entry i t).2 := by
  have hwalk := hst.walk.read (phdrReads elf32 i (elf32.phdr f i))
    (phdrReads elf64 i (elf64.phdr g i))
  unfold checkHeader
  simp only [← h.loadable, ← h.segSize, ← h.fileError, ← h.startError hs, ← h.endError hl,
    ← h.segEnd, ← h.paddr, ← hd, ← hst.highest, ← hst.copiedEntry]
  split_ifs
  · exact ⟨rfl, hwalk, rfl, rfl⟩
  · cases fileError c (elf32.phdr f i) with
    | some e => exact ⟨rfl, hwalk, rfl, rfl⟩
    | none =>
      cases startError c (elf32.phdr f i) with
      | some e => exact ⟨rfl, hwalk, rfl, rfl⟩
      | none =>
        cases endError c (elf32.phdr f i) with
        | some e => exact ⟨rfl, hwalk, rfl, rfl⟩
        | none =>
          refine ⟨rfl, ?_, rfl, rfl⟩
          cases c.destaddr with
          | none => exact hwalk
          | some d =>
            dsimp only
            exact installAt_alike h hs hwalk d

theorem Twins.range (h : Twins f g c c') :
    c.phys.start = c'.phys.start ∧ c.phys.last = c'.phys.last :=
  ⟨congrArg physAddr h.start, congrArg physAddr h.last⟩

theorem checkEhdr_alike (h : Twins f g c c') {v w : Walk} (hw : v.Alike w) :
    (checkEhdr elf32 f c.phys v).1 = (checkEhdr elf64 g c'.phys w).1 ∧
      (checkEhdr elf32 f c.phys v).2.Alike (checkEhdr elf64 g c'.phys w).2 := by
  have hentry (e : Nat) : entryError c.phys e = entryError c'.phys e := by
    rw [entryError, entryError, h.range.1, h.range.2]
  unfold checkEhdr
  rw [← h.magic, ← h.entry, ← hentry]
  by_cases hm : magicField.get f 0 = elfMagic
  · rw [if_neg (not_not_intro hm), if_neg (not_not_intro hm)]
    cases entryError c.phys (u32 (elf32.entryOf f)) with
    | none => exact ⟨rfl, ((hw.read _ _).read _ _).read _ _⟩
    | some e => exact ⟨rfl, (hw.read _ _).read _ _⟩
  · rw [if_pos hm, if_pos hm]
    exact ⟨rfl, hw.read _ _⟩

theorem checkLoop_alike (h : Twins f g c c') (entry : Nat) {s t : Checked} (hst : s.Alike t) :
    let loop32 := forUpTo (fun s : Checked => elf32.phnumOf (ofBytes f s.walk.mem))
      (checkHeader elf32 (ofBytes f) c.phys entry) phnumBound 0 s
    let loop64 := forUpTo (fun s : Checked => elf64.phnumOf (ofBytes g s.walk.mem))
      (checkHeader elf64 (ofBytes g) c'.phys entry) phnumBound 0 t
    loop32.1 = loop64.1 ∧ loop32.2.Alike loop64.2 := by
  have hreg : elf32.Regular := by constructor <;> decide
  have hreg' : elf64.Regular := by constructor <;> decide
  simp only
  rw [forUpTo_eq_forEach (fun _ => rfl) (hreg.phnum_lt f),
    forUpTo_eq_forEach (fun _ => rfl) (hreg'.phnum_lt g), ← h.phnum]
  refine forEach_related (fun i hi s t hst => ?_) hst
  have htwin := h.phdr i (by simpa using hi)
  -- the twins only depend on the file sizes, which `phys` keeps
  have hphys : (elf32.phdr f i).Twin f g c.phys c'.phys (elf64.phdr g i) :=
    ⟨htwin.type, htwin.paddr, htwin.filesz, htwin.memsz, htwin.offset, htwin.toEnd, htwin.data⟩
  exact checkHeader_alike hphys h.range.1 h.range.2 h.destaddr entry hst

theorem checkSectionsWith_alike (h : Twins f g c c') {v w : Walk} (hw : v.Alike w) :
    (checkSectionsWith elf32 (ofBytes f) c.phys v).1 =
        (checkSectionsWith elf64 (ofBytes g) c'.phys w).1 ∧
      (checkSectionsWith elf32 (ofBytes f) c.phys v).2.Alike
        (checkSectionsWith elf64 (ofBytes g) c'.phys w).2 := by
  obtain ⟨he, hwalk⟩ := checkEhdr_alike h hw
  unfold checkSectionsWith
  simp only [← h.entry]
  cases hv : checkEhdr elf32 f c.phys v with
  | mk r v' =>
    cases hw' : checkEhdr elf64 g c'.phys w with
    | mk r' w' =>
      rw [hv, hw'] at he hwalk
      cases he
      cases r with
      | some e => exact ⟨rfl, hwalk, rfl, rfl⟩
      | none =>
        have hloop := checkLoop_alike h (physAddr (elf32.entryOf f))
          (s := ⟨v', 0, false⟩) (t := ⟨w', 0, false⟩) ⟨hwalk, rfl, rfl⟩
        revert hloop
        simp only
        generalize forUpTo _ _ _ _ (⟨v', 0, false⟩ : Checked) = l32
        generalize forUpTo _ _ _ _ (⟨w', 0, false⟩ : Checked) = l64
        obtain ⟨r, s⟩ := l32
        obtain ⟨r', t⟩ := l64
        rintro ⟨hr, hst⟩
        cases hr
        cases r with
        | some e => exact ⟨rfl, hst⟩
        | none =>
          have hcopied : s.copiedEntry = t.copiedEntry := hst.copiedEntry
          simp only [hcopied]
          split_ifs
          · exact ⟨rfl, hst⟩
          · exact ⟨rfl, hst⟩

/-- A program is checked alike as a 32-bit and as a 64-bit file: with the same result, the same
highest address and the same bytes in the buffer. -/
theorem checkSections_agree (f g : Mem) (c c' : CheckArgs) (m : Mem) (h : Twins f g c c') :
    (checkSections (ofBytes f) c (.fresh m)).1 = (checkSections (ofBytes g) c' (.fresh m)).1 ∧
      (checkSections (ofBytes f) c (.fresh m)).2.highest =
        (checkSections (ofBytes g) c' (.fresh m)).2.highest ∧
      (checkSections (ofBytes f) c (.fresh m)).2.walk.writes =
        (checkSections (ofBytes g) c' (.fresh m)).2.walk.writes ∧
      (checkSections (ofBytes f) c (.fresh m)).2.walk.mem =
        (checkSections (ofBytes g) c' (.fresh m)).2.walk.mem := by
  have hstart : (Walk.fresh m).Alike (Walk.fresh m) := ⟨rfl, rfl⟩
  have hl : layoutOf f = elf32 := if_neg h.class32
  have hl' : layoutOf g = elf64 := if_pos h.class64
  rw [checkSections_eq, checkSections_eq, hl, hl']
  obtain ⟨hres, halike⟩ := checkSectionsWith_alike h (hstart.read [classField.span 0] _)
  exact ⟨hres, halike.highest, halike.walk.writes, halike.walk.mem⟩

/-- The segment of `smallFile` in a 64-bit file, whose headers are longer. -/
def smallFile64 : Mem := elf64.file 2 0x80010004 [⟨1, 0x78, 0, 0x80010000, 8, 16⟩]

theorem checkSections_agree_small :
    let c : CheckArgs := ⟨0x100, 0x80010000, 0x80010100, some 0x1000000⟩
    let c' : CheckArgs := ⟨0x124, 0x80010000, 0x80010100, some 0x1000000⟩
    Twins smallFile smallFile64 c c' ∧
      (checkSections (ofBytes smallFile) c (.fresh fun _ => 0xaa)).1 = none ∧
      (checkSections (ofBytes smallFile64) c' (.fresh fun _ => 0xaa)).1 = none ∧
      (checkSections (ofBytes smallFile64) c' (.fresh fun _ => 0xaa)).2.highest = 0x10010 ∧
      (checkSections (ofBytes smallFile64) c' (.fresh fun _ => 0xaa)).2.walk.mem 0x100000f = 0 := by
  have hph : elf32.phdr smallFile 0 = ⟨1, 0x54, 0, 0x80010000, 8, 16⟩ := by decide +kernel
  have hph' : elf64.phdr smallFile64 0 = ⟨1, 0x78, 0, 0x80010000, 8, 16⟩ := by decide +kernel
  have hnum : elf32.phnumOf smallFile = 1 := by decide +kernel
  have h : Twins smallFile smallFile64 ⟨0x100, 0x80010000, 0x80010100, some 0x1000000⟩
      ⟨0x124, 0x80010000, 0x80010100, some 0x1000000⟩ := by
    refine ⟨by decide +kernel, by decide +kernel, by decide +kernel, by decide +kernel,
      by decide +kernel, fun i hi => ?_, rfl, rfl, rfl⟩
    obtain rfl : i = 0 := by omega
    rw [hph, hph']
    exact ⟨rfl, rfl, rfl, rfl, fun _ => by decide, fun _ => by decide, by decide +kernel⟩
  have hnone : (checkSections (ofBytes smallFile)
      ⟨0x100, 0x80010000, 0x80010100, some 0x1000000⟩ (.fresh fun _ => 0xaa)).1 = none := by
    decide +kernel
  obtain ⟨hres, hhigh, -, hmem⟩ := checkSections_agree _ _ _ _ (fun _ => 0xaa) h
  exact ⟨h, hnone, hres.symm.trans hnone, hhigh.symm.trans (by decide +kernel),
    (congrFun hmem 0x100000f).symm.trans (by decide +kernel)⟩

end KernelLoader.Elf
