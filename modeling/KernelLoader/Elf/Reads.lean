import KernelLoader.Elf.Containment

namespace KernelLoader.Elf
open Lib
set_option autoImplicit true
set_option relaxedAutoImplicit false

variable {L : Layout} {f : Mem} {c : CheckArgs} {ph : Phdr} {w : Walk}

/-- The end of what is read of a program header: of a segment to load up to `memsz`, otherwise
only the type. -/
def Layout.readEnd (L : Layout) (ph : Phdr) : Nat :=
  if ph.type = ptLoad then L.memsz.off + L.memsz.len else 4

theorem field_in (x : Field) (base n : Nat) (hx : 0 < x.len) :
    SpanIn 0 n (x.span base) ↔ base + (x.off + x.len) ≤ n := by
  rw [Field.span, spanIn_iff]
  omega

theorem field_in_of_le {x : Field} {base n : Nat} (h : base + (x.off + x.len) ≤ n) :
    SpanIn 0 n (x.span base) := by
  rw [Field.span, spanIn_iff]
  omega

theorem phdrReads_in (h : L.Regular) (i n : Nat) (ph : Phdr) :
    (∀ span ∈ phdrReads L i ph, SpanIn 0 n span) ↔ L.phdrPos i + L.readEnd ph ≤ n := by
  have htype : L.type.off + L.type.len = 4 := by simp only [h.type_eq]
  have hlast (x : Field) (hx : x ∈ [L.type, L.vaddr, L.paddr, L.offset, L.filesz])
      (hm : L.phdrPos i + (L.memsz.off + L.memsz.len) ≤ n) : SpanIn 0 n (x.span (L.phdrPos i)) :=
    field_in_of_le (by have := h.memsz_last x hx; omega)
  unfold phdrReads Layout.readEnd
  by_cases ht : ph.type = ptLoad
  · simp only [ht, ne_eq, not_true_eq_false, if_false, if_true]
    constructor
    · intro hall
      exact (field_in L.memsz _ n h.memsz_pos).mp (hall _ (by simp))
    · intro hm span hs
      rcases List.mem_cons.mp hs with rfl | hs
      · exact hlast L.type (by simp) hm
      · rcases List.mem_cons.mp hs with rfl | hs
        · exact field_in_of_le hm
        · split_ifs at hs
          · cases hs
          · simp only [List.mem_cons, List.not_mem_nil, or_false] at hs
            rcases hs with rfl | rfl | rfl | rfl
            · exact hlast L.vaddr (by simp) hm
            · exact hlast L.paddr (by simp) hm
            · exact hlast L.offset (by simp) hm
            · exact hlast L.filesz (by simp) hm
  · simp only [ht, ne_eq, not_false_eq_true, if_true, if_false, List.mem_singleton, forall_eq]
    rw [field_in _ _ _ (by rw [h.type_eq]; decide), htype]

theorem data_in (h : headerError c ph = none) (hl : ph.loadable = true) (hz : ph.filesz ≠ 0) :
    SpanIn 0 c.filesize (u32 ph.offset, copySize ph) ∧
      SpanIn 0 c.filesize (u32 ph.offset, u32 ph.filesz) := by
  rw [spanIn_iff, spanIn_iff]
  by_cases h0 : segSize ph = 0
  · obtain ⟨hcopy, hfile⟩ := segSize_zero h0
    exact ⟨.inl hcopy, .inl hfile⟩
  · have hfit := headerError_none h hl h0
    obtain ⟨hoff, hend⟩ := hfit.data hz
    have hle := hfit.filesz_le
    rw [copySize_of_le hle]
    unfold u32 megabytes128 at *
    exact ⟨by omega, by omega⟩

theorem dataReads_in (h : headerError c ph = none) (hl : ph.loadable = true) :
    ∀ span ∈ dataReads ph, SpanIn 0 c.filesize span := by
  intro span hs
  unfold dataReads at hs
  split_ifs at hs with hz
  · cases hs
  · rw [List.mem_singleton.mp hs]
    exact (data_in h hl hz).1

/-- The headers that are looked at lie in the file: the class, the entry point of an ELF file, the
number of program headers if the entry point passes, and each program header up to the first
that is refused. -/
def HeadersInFile (f : Mem) (c : CheckArgs) : Prop :=
  5 ≤ c.filesize ∧
    (magicField.get f 0 = elfMagic →
      (layoutOf f).entry.off + (layoutOf f).entry.len ≤ c.filesize) ∧
    (EhdrOk f c → (layoutOf f).phnum.off + (layoutOf f).phnum.len ≤ c.filesize ∧
      ∀ i < (layoutOf f).phnumOf f,
        (∀ k < i, headerError c.phys ((layoutOf f).phdr f k) = none) →
        (layoutOf f).phdrPos i + (layoutOf f).readEnd ((layoutOf f).phdr f i) ≤ c.filesize)

theorem ehdr_in (n : Nat) : (∀ span ∈ [classField.span 0, magicField.span 0, L.entry.span 0,
    L.phnum.span 0], SpanIn 0 n span) ↔ 5 ≤ n ∧ SpanIn 0 n (L.entry.span 0) ∧
      SpanIn 0 n (L.phnum.span 0) := by
  simp only [List.mem_cons, List.not_mem_nil, or_false, forall_eq_or_imp, forall_eq]
  rw [field_in classField _ _ (by decide), field_in magicField _ _ (by decide)]
  simp only [classField, magicField]
  constructor
  · rintro ⟨h1, _, h3, h4⟩
    exact ⟨by omega, h3, h4⟩
  · rintro ⟨h1, h3, h4⟩
    exact ⟨by omega, by omega, h3, h4⟩

theorem checkReads_in (h : L.Regular) (i : Nat) :
    (∀ span ∈ checkReads L f c i, SpanIn 0 c.filesize span) ↔
      L.phdrPos i + L.readEnd (L.phdr f i) ≤ c.filesize := by
  rw [← phdrReads_in h]
  unfold checkReads
  constructor
  · exact fun hall span hs => hall span (List.mem_append_left _ hs)
  · intro hall span hs
    rcases List.mem_append.mp hs with hs | hs
    · exact hall span hs
    · split_ifs at hs with hc
      · simp only [Phdr.checked, Bool.and_eq_true, Option.isNone_iff_eq_none] at hc
        exact dataReads_in hc.2.2 hc.2.1.1 span hs
      · cases hs

theorem checkSections_reads_in (f : Mem) (c : CheckArgs) (m : Mem) :
    (∀ span ∈ (checkSections (ofBytes f) c (.fresh m)).2.walk.reads, SpanIn 0 c.filesize span) ↔
      HeadersInFile f c := by
  have hreg := layoutOf_regular f
  have hentry : 0 < (layoutOf f).entry.len := by
    unfold layoutOf
    split_ifs <;> decide
  have hphnum : 0 < (layoutOf f).phnum.len := by rw [hreg.phnum_len]; decide
  by_cases he : EhdrOk f c
  · rw [checkSections_reads he, HeadersInFile]
    simp only [Walk.fresh, List.nil_append, List.mem_append, List.mem_flatMap, or_imp, forall_and,
      he, he.1, true_imp_iff]
    rw [ehdr_in, field_in _ _ _ hentry, field_in _ _ _ hphnum, Nat.zero_add, Nat.zero_add]
    have hrest : (∀ span, (∃ i ∈ checkedHeaders f c, span ∈ checkReads (layoutOf f) f c.phys i) →
        SpanIn 0 c.filesize span) ↔ ∀ i < (layoutOf f).phnumOf f,
          (∀ k < i, headerError c.phys ((layoutOf f).phdr f k) = none) →
          (layoutOf f).phdrPos i + (layoutOf f).readEnd ((layoutOf f).phdr f i) ≤ c.filesize := by
      constructor
      · intro h i hi hk
        exact (checkReads_in (c := c.phys) hreg i).mp fun span hs =>
          h span ⟨i, mem_checkedHeaders.mpr ⟨hi, hk⟩, hs⟩
      · rintro h span ⟨i, hi, hs⟩
        obtain ⟨hlt, hk⟩ := mem_checkedHeaders.mp hi
        exact (checkReads_in (c := c.phys) hreg i).mpr (h i hlt hk) span hs
    rw [hrest]
    tauto
  · rw [checkSections_reads_refused he, HeadersInFile]
    simp only [Walk.fresh, List.nil_append, he, false_imp_iff, and_true, List.mem_cons,
      forall_eq_or_imp]
    rw [field_in classField _ _ (by decide), field_in magicField _ _ (by decide)]
    simp only [classField, magicField]
    by_cases hm : le f (0 + 0) 4 = elfMagic
    · simp only [Field.get, hm, if_true, List.mem_singleton, forall_eq, true_imp_iff]
      rw [field_in _ _ _ hentry]
      omega
    · simp only [Field.get, hm, if_false, List.not_mem_nil, false_imp_iff, forall_const, and_true]
      omega

/-- Every read of the file buffer by `check_sections`, and after acceptance by `copy_sections` and
`verify_sections`, is inside of the file exactly when the headers are. The segment data always
is; the headers are not checked against the file size. -/
theorem sections_read_file (f : Mem) (c : CheckArgs) (m m' m'' : Mem) :
    ((∀ span ∈ (checkSections (ofBytes f) c (.fresh m)).2.walk.reads, SpanIn 0 c.filesize span) ∧
      ((checkSections (ofBytes f) c (.fresh m)).1 = none →
        (∀ span ∈ (copySections (ofBytes f) (.fresh m')).2.reads, SpanIn 0 c.filesize span) ∧
        ∀ span ∈ (verifySections (ofBytes f) (.fresh m'')).2.reads,
          SpanIn 0 c.filesize span)) ↔ HeadersInFile f c := by
  rw [checkSections_reads_in, and_iff_left_iff_imp]
  intro hin hnone
  have hreg := layoutOf_regular f
  have hacc := (checkSections_accepts f c _).mp hnone
  obtain ⟨h5, hent, hph⟩ := hin
  obtain ⟨hnum, hhdr⟩ := hph hacc.1
  have hehdr := (ehdr_in (L := layoutOf f) c.filesize).mpr
    ⟨h5, field_in_of_le (by have := hent hacc.1.1; omega), field_in_of_le (by omega)⟩
  have hphdr (i : Nat) (hi : i < (layoutOf f).phnumOf f) :=
    (phdrReads_in hreg i c.filesize _).mpr
      (hhdr i hi fun k hk => hacc.2.1 k (Nat.lt_trans hk hi))
  constructor
  · intro span hs
    rw [copySections_reads hacc.1.1] at hs
    rcases List.mem_append.mp hs with hs | hs
    · exact hehdr span hs
    · obtain ⟨i, hi, hs⟩ := List.mem_flatMap.mp hs
      have hi : i < (layoutOf f).phnumOf f := by simpa using hi
      rcases List.mem_append.mp hs with hs | hs
      · exact hphdr i hi span hs
      · split_ifs at hs with hl
        · exact dataReads_in (c := c.phys) (hacc.2.1 i hi) hl span hs
        · cases hs
  · intro span hs
    rcases verifySections_reads hacc.1.1 _ hs with hs | ⟨i, hi, hs⟩
    · exact hehdr span hs
    · rcases List.mem_append.mp hs with hs | hs
      · exact hphdr i hi span hs
      · split_ifs at hs with hl
        · rw [List.mem_singleton.mp hs]
          exact (data_in (c := c.phys) (hacc.2.1 i hi) hl.1 hl.2).2
        · cases hs

/-- A file that ends behind the file header is accepted; its program header is read behind the
end of the file. -/
theorem checkSections_reads_behind_file :
    let f := elf32.file 1 0x80010000 [⟨1, 0, 0, 0x80010000, 0, 16⟩]
    let c : CheckArgs := ⟨52, 0x80010000, 0x80010100, none⟩
    (checkSections (ofBytes f) c (.fresh 0)).1 = none ∧
      (52, 4) ∈ (checkSections (ofBytes f) c (.fresh 0)).2.walk.reads ∧
      (52, 4) ∈ (copySections (ofBytes f) (.fresh 0)).2.reads ∧ ¬SpanIn 0 52 (52, 4) := by
  decide +kernel

end KernelLoader.Elf
