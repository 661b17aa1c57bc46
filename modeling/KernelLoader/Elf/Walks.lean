import KernelLoader.Elf.Sections

namespace KernelLoader.Elf
open Lib
set_option autoImplicit true
set_option relaxedAutoImplicit false

variable {L : Layout} {f : Mem} {c : CheckArgs} {ph : Phdr} {w : Walk}

@[simp] theorem read_reads (w : Walk) (spans : List (Nat × Nat)) :
    (w.read spans).reads = w.reads ++ spans :=
  rfl

@[simp] theorem read_writes (w : Walk) (spans : List (Nat × Nat)) :
    (w.read spans).writes = w.writes :=
  rfl

@[simp] theorem read_mem (w : Walk) (spans : List (Nat × Nat)) : (w.read spans).mem = w.mem :=
  rfl

/-- What a program header is refused for, if anything. -/
def headerError (c : CheckArgs) (ph : Phdr) : Option Failure :=
  if !ph.loadable || segSize ph == 0 then none
  else (fileError c ph).or ((startError c ph).or (endError c ph))

theorem checkHeader_error (L : Layout) (f : Mem) (c : CheckArgs) (entry i : Nat) (s : Checked) :
    (checkHeader L (ofBytes f) c entry i s).1 = headerError c (L.phdr f i) := by
  unfold checkHeader headerError
  simp only
  by_cases hl : (!(L.phdr f i).loadable || segSize (L.phdr f i) == 0) = true
  · rw [if_pos hl, if_pos hl]
  · rw [if_neg hl, if_neg hl]
    cases fileError c (L.phdr f i) with
    | some e => rfl
    | none =>
      cases startError c (L.phdr f i) with
      | some e => rfl
      | none =>
        cases endError c (L.phdr f i) <;> rfl

/-- Does the segment contain the entry point, by the computed addresses? -/
def Phdr.covers (ph : Phdr) (entry : Nat) : Bool :=
  ph.loadable && segSize ph != 0 && decide (physAddr ph.paddr ≤ entry ∧ entry < segEnd ph)

/-- The highest end address so far, after another segment. -/
def Phdr.raise (ph : Phdr) (highest : Nat) : Nat :=
  if ph.loadable && segSize ph != 0 then max highest (segEnd ph) else highest

theorem checkHeader_accepted {entry i : Nat} (h : headerError c (L.phdr f i) = none)
    (s : Checked) :
    (checkHeader L (ofBytes f) c entry i s).2.highest = (L.phdr f i).raise s.highest ∧
      (checkHeader L (ofBytes f) c entry i s).2.copiedEntry =
        (s.copiedEntry || (L.phdr f i).covers entry) := by
  unfold headerError at h
  unfold checkHeader Phdr.raise Phdr.covers
  simp only
  cases hl : (L.phdr f i).loadable with
  | false => simp
  | true =>
    cases hz : segSize (L.phdr f i) == 0 with
    | true => simp_all
    | false =>
      rw [if_neg (by simp [hl, hz]), Option.or_eq_none_iff, Option.or_eq_none_iff] at h
      obtain ⟨h1, h2, h3⟩ := h
      simp only [Bool.not_true, Bool.or_self, Bool.false_eq_true, if_false, h1, h2, h3, bne, hz,
        Bool.not_false, Bool.and_self, Bool.true_and, if_true, and_self]

/-- The file data read while a segment is installed. -/
def dataReads (ph : Phdr) : List (Nat × Nat) :=
  if ph.filesz = 0 then [] else [(u32 ph.offset, copySize ph)]

/-- The spans of the image written for a segment. -/
def segWrites (ph : Phdr) : List (Nat × Nat) :=
  (if ph.filesz = 0 then [] else [(physAddr ph.paddr, copySize ph)]) ++
    if clearSize ph = 0 then [] else [(physAddr ph.paddr + u32 ph.filesz, clearSize ph)]

@[simp] theorem copyData_reads (src : Source) (ptr img : Nat) (ph : Phdr) (w : Walk) :
    (copyData src ptr img ph w).reads = w.reads ++ dataReads ph := by
  unfold copyData dataReads
  split_ifs
  · exact (List.append_nil _).symm
  · rfl

@[simp] theorem copyData_writes (src : Source) (ptr img : Nat) (ph : Phdr) (w : Walk) :
    (copyData src ptr img ph w).writes =
      w.writes ++ if ph.filesz = 0 then [] else [(img, copySize ph)] := by
  unfold copyData
  split_ifs
  · exact (List.append_nil _).symm
  · rfl

@[simp] theorem clearRest_reads (ptr img n : Nat) (w : Walk) :
    (clearRest ptr img n w).reads = w.reads := by
  unfold clearRest
  split_ifs <;> rfl

@[simp] theorem clearRest_writes (ptr img n : Nat) (w : Walk) :
    (clearRest ptr img n w).writes = w.writes ++ if n = 0 then [] else [(img, n)] := by
  unfold clearRest
  split_ifs
  · exact (List.append_nil _).symm
  · rfl

theorem installAt_reads (L : Layout) (f : Mem) (c : CheckArgs) (i d : Nat) (w : Walk) :
    (installAt L (ofBytes f) c i d w).reads = w.reads ++ dataReads (L.phdr f i) := by
  simp only [installAt, clearRest_reads, copyData_reads]

theorem installAt_writes (L : Layout) (f : Mem) (c : CheckArgs) (i d : Nat) (w : Walk) :
    (installAt L (ofBytes f) c i d w).writes = w.writes ++ segWrites (L.phdr f i) := by
  simp only [installAt, segWrites, clearRest_writes, copyData_writes, List.append_assoc]

/-- Does `check_sections` get to the installation of this segment? -/
def Phdr.checked (c : CheckArgs) (ph : Phdr) : Bool :=
  ph.loadable && segSize ph != 0 && (headerError c ph).isNone

theorem checkHeader_walk (L : Layout) (f : Mem) (c : CheckArgs) (entry i : Nat) (s : Checked) :
    (checkHeader L (ofBytes f) c entry i s).2.walk =
      match c.destaddr with
      | none => s.walk.read (phdrReads L i (L.phdr f i))
      | some d =>
        if (L.phdr f i).checked c then
          installAt L (ofBytes f) c i d (s.walk.read (phdrReads L i (L.phdr f i)))
        else s.walk.read (phdrReads L i (L.phdr f i)) := by
  unfold checkHeader Phdr.checked headerError
  simp only
  cases hl : (L.phdr f i).loadable with
  | false => cases c.destaddr <;> simp
  | true =>
    cases hz : segSize (L.phdr f i) == 0 with
    | true => cases c.destaddr <;> simp_all
    | false =>
      cases h1 : fileError c (L.phdr f i) with
      | some e => cases c.destaddr <;> simp
      | none =>
        cases h2 : startError c (L.phdr f i) with
        | some e => cases c.destaddr <;> simp
        | none =>
          cases h3 : endError c (L.phdr f i) with
          | some e => cases c.destaddr <;> simp
          | none => cases c.destaddr <;> simp_all

/-- The spans of the file `check_sections` reads for a program header. -/
def checkReads (L : Layout) (f : Mem) (c : CheckArgs) (i : Nat) : List (Nat × Nat) :=
  phdrReads L i (L.phdr f i) ++
    if c.destaddr.isSome && (L.phdr f i).checked c then dataReads (L.phdr f i) else []

def checkWrites (L : Layout) (f : Mem) (c : CheckArgs) (i : Nat) : List (Nat × Nat) :=
  if c.destaddr.isSome && (L.phdr f i).checked c then segWrites (L.phdr f i) else []

theorem checkHeader_reads (L : Layout) (f : Mem) (c : CheckArgs) (entry i : Nat) (s : Checked) :
    (checkHeader L (ofBytes f) c entry i s).2.walk.reads = s.walk.reads ++ checkReads L f c i := by
  rw [checkHeader_walk, checkReads]
  cases c.destaddr with
  | none => simp
  | some d => cases (L.phdr f i).checked c <;> simp [installAt_reads]

theorem checkHeader_writes (L : Layout) (f : Mem) (c : CheckArgs) (entry i : Nat) (s : Checked) :
    (checkHeader L (ofBytes f) c entry i s).2.walk.writes =
      s.walk.writes ++ checkWrites L f c i := by
  rw [checkHeader_walk, checkWrites]
  cases c.destaddr with
  | none => simp
  | some d => cases (L.phdr f i).checked c <;> simp [installAt_writes]

/-- What the layouts have in common: of the fields read, `memsz` ends last. -/
structure Layout.Regular (L : Layout) : Prop where
  phnum_len : L.phnum.len = 2
  type_eq : L.type = ⟨0, 4⟩
  phnum_fits : L.phnum.off + L.phnum.len ≤ L.ehdrSize
  memsz_pos : 0 < L.memsz.len
  memsz_fits : L.memsz.off + L.memsz.len ≤ L.phdrSize
  memsz_last : ∀ x ∈ [L.type, L.vaddr, L.paddr, L.offset, L.filesz],
    x.off + x.len ≤ L.memsz.off + L.memsz.len

theorem layoutOf_regular (f : Mem) : (layoutOf f).Regular := by
  unfold layoutOf
  split_ifs
  · constructor <;> decide
  · constructor <;> decide

theorem Layout.Regular.phnum_lt (h : L.Regular) (f : Mem) : L.phnumOf f ≤ phnumBound + 0 := by
  have := le_lt f (0 + L.phnum.off) L.phnum.len
  rw [h.phnum_len] at this
  unfold Layout.phnumOf Field.get phnumBound
  rw [h.phnum_len]
  omega

theorem checkLoop_eq (h : L.Regular) (f : Mem) (c : CheckArgs) (entry : Nat) (s : Checked) :
    forUpTo (fun s : Checked => L.phnumOf (ofBytes f s.walk.mem))
        (checkHeader L (ofBytes f) c entry) phnumBound 0 s =
      ((List.range' 0 (L.phnumOf f)).findSome? fun i => headerError c (L.phdr f i),
        (upToFirst (fun i => headerError c (L.phdr f i)) (List.range' 0 (L.phnumOf f))).foldl
          (fun s i => (checkHeader L (ofBytes f) c entry i s).2) s) := by
  rw [forUpTo_eq_forEach (fun _ => rfl) (h.phnum_lt f)]
  exact forEach_uniform _ _ (I := fun _ => True)
    (fun i s _ => Prod.ext (checkHeader_error L f c entry i s) rfl) (fun _ _ _ => trivial) _ trivial

/-- The file header passes: it is an ELF file, with its entry point in the range. -/
def EhdrOk (f : Mem) (c : CheckArgs) : Prop :=
  magicField.get f 0 = elfMagic ∧ entryError c.phys (u32 ((layoutOf f).entryOf f)) = none

/-- All program headers pass and one of them contains the entry point. -/
def Accepted (f : Mem) (c : CheckArgs) : Prop :=
  EhdrOk f c ∧
    (∀ i < (layoutOf f).phnumOf f, headerError c.phys ((layoutOf f).phdr f i) = none) ∧
    ∃ i < (layoutOf f).phnumOf f,
      ((layoutOf f).phdr f i).covers (physAddr ((layoutOf f).entryOf f)) = true

theorem checkSections_eq (f : Mem) (c : CheckArgs) (w : Walk) :
    checkSections (ofBytes f) c w =
      checkSectionsWith (layoutOf f) (ofBytes f) c.phys (w.read [classField.span 0]) := by
  unfold checkSections layoutOf checkSections32 checkSections64
  simp only
  split_ifs <;> rfl

theorem checkEhdr_ok (h : EhdrOk f c) (w : Walk) :
    checkEhdr (layoutOf f) f c.phys w = (none, ((w.read [magicField.span 0]).read
      [(layoutOf f).entry.span 0]).read [(layoutOf f).phnum.span 0]) := by
  unfold checkEhdr
  simp only [h.1, h.2, ne_eq, not_true_eq_false, if_false]

theorem checkEhdr_refuses (h : ¬EhdrOk f c) (w : Walk) :
    ∃ e w', checkEhdr (layoutOf f) f c.phys w = (some e, w') ∧
      w'.reads = w.reads ++ magicField.span 0 ::
        if magicField.get f 0 = elfMagic then [(layoutOf f).entry.span 0] else [] := by
  unfold checkEhdr
  by_cases hm : magicField.get f 0 = elfMagic
  · cases he : entryError c.phys (u32 ((layoutOf f).entryOf f)) with
    | none => exact absurd ⟨hm, he⟩ h
    | some e =>
      refine ⟨e, (w.read [magicField.span 0]).read [(layoutOf f).entry.span 0], ?_, by simp [hm]⟩
      simp only [hm, ne_eq, not_true_eq_false, if_false]
  · exact ⟨_, _, by simp only [hm, ne_eq, not_false_eq_true, if_true]; rfl, by simp [hm]⟩

theorem foldl_copiedEntry {entry : Nat} {is : List Nat} (s : Checked)
    (h : ∀ i ∈ is, headerError c (L.phdr f i) = none) :
    (is.foldl (fun s i => (checkHeader L (ofBytes f) c entry i s).2) s).copiedEntry =
      (s.copiedEntry || is.any fun i => (L.phdr f i).covers entry) := by
  induction is generalizing s with
  | nil => simp
  | cons i is ih =>
    rw [List.foldl_cons, ih _ fun j hj => h j (List.mem_cons_of_mem i hj),
      (checkHeader_accepted (h i List.mem_cons_self) s).2, List.any_cons, Bool.or_assoc]

theorem foldl_highest {entry : Nat} {is : List Nat} (s : Checked)
    (h : ∀ i ∈ is, headerError c (L.phdr f i) = none) :
    (is.foldl (fun s i => (checkHeader L (ofBytes f) c entry i s).2) s).highest =
      is.foldl (fun x i => (L.phdr f i).raise x) s.highest := by
  induction is generalizing s with
  | nil => rfl
  | cons i is ih =>
    rw [List.foldl_cons, ih _ fun j hj => h j (List.mem_cons_of_mem i hj),
      (checkHeader_accepted (h i List.mem_cons_self) s).1, List.foldl_cons]

theorem le_foldl_raise (is : List Nat) (x : Nat) :
    x ≤ is.foldl (fun x i => (L.phdr f i).raise x) x ∧
      ∀ i ∈ is, (L.phdr f i).loadable = true → segSize (L.phdr f i) ≠ 0 →
        segEnd (L.phdr f i) ≤ is.foldl (fun x i => (L.phdr f i).raise x) x := by
  induction is generalizing x with
  | nil => exact ⟨Nat.le_refl x, fun i hi => absurd hi List.not_mem_nil⟩
  | cons j is ih =>
    obtain ⟨hx, hall⟩ := ih ((L.phdr f j).raise x)
    have hj : x ≤ (L.phdr f j).raise x := by
      unfold Phdr.raise
      split_ifs <;> omega
    refine ⟨hj.trans hx, fun i hi hl hz => ?_⟩
    rcases List.mem_cons.mp hi with rfl | hi
    · have hr : segEnd (L.phdr f i) ≤ (L.phdr f i).raise x := by
        rw [Phdr.raise, if_pos (by simp [hl, hz])]
        exact Nat.le_max_right _ _
      exact hr.trans hx
    · exact hall i hi hl hz

/-- The highest end address of all segments. -/
def imageEnd (f : Mem) : Nat :=
  (List.range' 0 ((layoutOf f).phnumOf f)).foldl (fun x i => ((layoutOf f).phdr f i).raise x) 0

theorem segEnd_le_imageEnd {i : Nat} (hi : i < (layoutOf f).phnumOf f)
    (hl : ((layoutOf f).phdr f i).loadable = true) (hz : segSize ((layoutOf f).phdr f i) ≠ 0) :
    segEnd ((layoutOf f).phdr f i) ≤ imageEnd f :=
  (le_foldl_raise _ 0).2 i (by simpa using hi) hl hz

theorem checkSections_accepts (f : Mem) (c : CheckArgs) (w : Walk) :
    (checkSections (ofBytes f) c w).1 = none ↔ Accepted f c := by
  rw [checkSections_eq, checkSectionsWith, Accepted]
  by_cases he : EhdrOk f c
  · simp only [checkEhdr_ok he, checkLoop_eq (layoutOf_regular f)]
    cases hh : (List.range' 0 ((layoutOf f).phnumOf f)).findSome? fun i =>
        headerError c.phys ((layoutOf f).phdr f i) with
    | some e =>
      simp only [reduceCtorEq, false_iff]
      rintro ⟨-, hall, -⟩
      obtain ⟨i, hi, hs⟩ := List.exists_of_findSome?_eq_some hh
      rw [hall i (by simpa using hi)] at hs
      cases hs
    | none =>
      have hall : ∀ i ∈ List.range' 0 ((layoutOf f).phnumOf f),
          headerError c.phys ((layoutOf f).phdr f i) = none := List.findSome?_eq_none_iff.mp hh
      simp only
      rw [upToFirst_eq_self hall, foldl_copiedEntry _ hall]
      have hall' : ∀ i < (layoutOf f).phnumOf f,
          headerError c.phys ((layoutOf f).phdr f i) = none :=
        fun i hi => hall i (by simpa using hi)
      simp only [Bool.false_or]
      cases hc : (List.range' 0 ((layoutOf f).phnumOf f)).any fun i =>
          ((layoutOf f).phdr f i).covers (physAddr ((layoutOf f).entryOf f)) with
      | false =>
        simp only [Bool.not_false, if_true, reduceCtorEq, false_iff]
        rintro ⟨-, -, i, hi, hcov⟩
        rw [List.any_eq_false] at hc
        exact hc i (by simpa using hi) hcov
      | true =>
        obtain ⟨i, hi, hcov⟩ := List.any_eq_true.mp hc
        simp only [Bool.not_true, Bool.false_eq_true, if_false, true_iff]
        exact ⟨he, hall', i, by simpa using hi, hcov⟩
  · obtain ⟨e, w', hw, -⟩ := checkEhdr_refuses he (w.read [classField.span 0])
    simp only [hw, reduceCtorEq, false_iff]
    exact fun h => he h.1

/-- The program headers `check_sections` gets to. -/
def checkedHeaders (f : Mem) (c : CheckArgs) : List Nat :=
  upToFirst (fun i => headerError c.phys ((layoutOf f).phdr f i))
    (List.range' 0 ((layoutOf f).phnumOf f))

theorem checkSections_walk (h : EhdrOk f c) (w : Walk) :
    ∃ s : Checked, s.walk.reads = w.reads ++ [classField.span 0, magicField.span 0,
        (layoutOf f).entry.span 0, (layoutOf f).phnum.span 0] ∧ s.walk.writes = w.writes ∧
      s.highest = 0 ∧ (checkSections (ofBytes f) c w).2 = (checkedHeaders f c).foldl
        (fun s i => (checkHeader (layoutOf f) (ofBytes f) c.phys
          (physAddr ((layoutOf f).entryOf f)) i s).2) s := by
  refine ⟨⟨(((w.read [classField.span 0]).read [magicField.span 0]).read
    [(layoutOf f).entry.span 0]).read [(layoutOf f).phnum.span 0], 0, false⟩, ?_, rfl, rfl, ?_⟩
  · simp only [read_reads, List.append_assoc]
    rfl
  · rw [checkSections_eq, checkSectionsWith]
    simp only [checkEhdr_ok h, checkLoop_eq (layoutOf_regular f), checkedHeaders]
    split
    · rename_i heq
      exact (congrArg Prod.snd heq).symm
    · rename_i heq
      split_ifs <;> exact (congrArg Prod.snd heq).symm

theorem checkSections_reads (h : EhdrOk f c) (w : Walk) :
    (checkSections (ofBytes f) c w).2.walk.reads =
      w.reads ++ [classField.span 0, magicField.span 0, (layoutOf f).entry.span 0,
        (layoutOf f).phnum.span 0] ++ (checkedHeaders f c).flatMap
          (checkReads (layoutOf f) f c.phys) := by
  obtain ⟨s, hr, -, -, he⟩ := checkSections_walk h w
  rw [he, foldl_log (fun s : Checked => s.walk.reads) (checkReads (layoutOf f) f c.phys)
    fun i s => checkHeader_reads (layoutOf f) f c.phys _ i s, hr]

theorem checkSections_writes (h : EhdrOk f c) (w : Walk) :
    (checkSections (ofBytes f) c w).2.walk.writes =
      w.writes ++ (checkedHeaders f c).flatMap (checkWrites (layoutOf f) f c.phys) := by
  obtain ⟨s, -, hw, -, he⟩ := checkSections_walk h w
  rw [he, foldl_log (fun s : Checked => s.walk.writes) (checkWrites (layoutOf f) f c.phys)
    fun i s => checkHeader_writes (layoutOf f) f c.phys _ i s, hw]

theorem checkSections_reads_refused (h : ¬EhdrOk f c) (w : Walk) :
    (checkSections (ofBytes f) c w).2.walk.reads =
      w.reads ++ classField.span 0 :: magicField.span 0 ::
        if magicField.get f 0 = elfMagic then [(layoutOf f).entry.span 0] else [] := by
  obtain ⟨e, w', hw, hr⟩ := checkEhdr_refuses h (w.read [classField.span 0])
  rw [checkSections_eq, checkSectionsWith]
  simp only [hw, hr, read_reads, List.append_assoc]
  rfl

theorem mem_checkedHeaders {i : Nat} : i ∈ checkedHeaders f c ↔
    i < (layoutOf f).phnumOf f ∧ ∀ k < i, headerError c.phys ((layoutOf f).phdr f k) = none := by
  rw [checkedHeaders, mem_upToFirst_range']
  simp

theorem Accepted.checkedHeaders (h : Accepted f c) :
    checkedHeaders f c = List.range' 0 ((layoutOf f).phnumOf f) :=
  upToFirst_eq_self fun i hi => h.2.1 i (by simpa using hi)

theorem Accepted.highest (h : Accepted f c) (w : Walk) :
    (checkSections (ofBytes f) c w).2.highest = imageEnd f := by
  obtain ⟨s, -, -, hh, he⟩ := checkSections_walk h.1 w
  rw [he, h.checkedHeaders, foldl_highest s fun i hi => h.2.1 i (by simpa using hi), hh, imageEnd]

/-- The 64-bit variant of `copy_sections` strips the area from the entry point. -/
def toEntryOf (f : Mem) : Nat → Nat := if classField.get f 0 = 2 then physAddr else id

/-- The 64-bit variant of `verify_sections` strips the area from the destination. -/
def toDestOf (f : Mem) : Nat → Nat := if classField.get f 0 = 2 then physAddr else u32

theorem copySections_eq (src : Source) (w : Walk) :
    copySections src w = copySectionsWith (layoutOf (src w.mem)) (toEntryOf (src w.mem)) src
      (w.read [classField.span 0]) := by
  unfold copySections layoutOf toEntryOf copySections32 copySections64
  simp only
  split_ifs <;> rfl

theorem verifySections_eq (src : Source) (w : Walk) :
    verifySections src w = verifySectionsWith (layoutOf (src w.mem)) (toDestOf (src w.mem)) src
      (w.read [classField.span 0]) := by
  unfold verifySections layoutOf toDestOf verifySections32 verifySections64
  simp only
  split_ifs <;> rfl

/-- The spans of the file `copy_sections` reads for a program header. -/
def copyReads (L : Layout) (f : Mem) (i : Nat) : List (Nat × Nat) :=
  phdrReads L i (L.phdr f i) ++ if (L.phdr f i).loadable then dataReads (L.phdr f i) else []

def copyWrites (L : Layout) (f : Mem) (i : Nat) : List (Nat × Nat) :=
  if (L.phdr f i).loadable then segWrites (L.phdr f i) else []

theorem copySegment_reads (L : Layout) (f : Mem) (i : Nat) (w : Walk) :
    (copySegment L (ofBytes f) i w).reads = w.reads ++ copyReads L f i := by
  cases hl : (L.phdr f i).loadable <;> simp [copySegment, copyReads, hl]

theorem copySegment_writes (L : Layout) (f : Mem) (i : Nat) (w : Walk) :
    (copySegment L (ofBytes f) i w).writes = w.writes ++ copyWrites L f i := by
  cases hl : (L.phdr f i).loadable <;> simp [copySegment, copyWrites, segWrites, hl]

theorem copyLoop_eq (h : L.Regular) (f : Mem) (w : Walk) :
    (forUpTo (fun w => L.phnumOf (ofBytes f w.mem))
        (fun i w => ((none : Option Failure), copySegment L (ofBytes f) i w)) phnumBound 0 w).2 =
      (List.range' 0 (L.phnumOf f)).foldl (fun w i => copySegment L (ofBytes f) i w) w := by
  rw [forUpTo_eq_forEach (fun _ => rfl) (h.phnum_lt f),
    forEach_uniform (fun _ => none) _ (I := fun _ => True) (fun i w _ => rfl)
      (fun _ _ _ => trivial) _ trivial, upToFirst_eq_self fun _ _ => rfl]
  rfl

theorem copySections_reads (h : magicField.get f 0 = elfMagic) (w : Walk) :
    (copySections (ofBytes f) w).2.reads =
      w.reads ++ [classField.span 0, magicField.span 0, (layoutOf f).entry.span 0,
        (layoutOf f).phnum.span 0] ++ (List.range' 0 ((layoutOf f).phnumOf f)).flatMap
          (copyReads (layoutOf f) f) := by
  rw [copySections_eq, copySectionsWith]
  simp only [h, ne_eq, not_true_eq_false, if_false, copyLoop_eq (layoutOf_regular f)]
  rw [foldl_log Walk.reads _ fun i w => copySegment_reads (layoutOf f) f i w]
  simp

theorem copySections_writes (h : magicField.get f 0 = elfMagic) (w : Walk) :
    (copySections (ofBytes f) w).2.writes =
      w.writes ++ (List.range' 0 ((layoutOf f).phnumOf f)).flatMap
        (copyWrites (layoutOf f) f) := by
  rw [copySections_eq, copySectionsWith]
  simp only [h, ne_eq, not_true_eq_false, if_false, copyLoop_eq (layoutOf_regular f)]
  rw [foldl_log Walk.writes _ fun i w => copySegment_writes (layoutOf f) f i w]
  simp

/-- What `verify_sections` looks at: the file data, and the first byte that should be cleared. -/
def Phdr.verifies (m f : Mem) (dest : Nat) (ph : Phdr) : Prop :=
  (∀ j < u32 ph.filesz, m (phys (dest + j)) = f (u32 ph.offset + j)) ∧
    (sub32 (u32 ph.memsz) ph.filesz ≠ 0 → m (phys (dest + u32 ph.filesz)) = 0)

theorem sameBytes_iff (m f : Mem) (ptr off n : Nat) :
    sameBytes m f ptr off n = true ↔ ∀ j < n, m (phys (ptr + j)) = f (off + j) := by
  simp [sameBytes]

/-- The loop over the cleared area says no more than its first round. -/
theorem clearedBytes_iff (m : Mem) (ptr n : Nat) :
    clearedBytes m ptr n = true ↔ (n ≠ 0 → m (phys ptr) = 0) := by
  cases n with
  | zero => simp [clearedBytes]
  | succ n =>
    simp only [clearedBytes, List.all_eq_true, List.mem_range, beq_iff_eq]
    exact ⟨fun h _ => h 0 (by omega), fun h _ _ => h (by omega)⟩

theorem verifySegment_none {toDest : Nat → Nat} {i : Nat} :
    (verifySegment L toDest (ofBytes f) i w).1 = none ↔
      ((L.phdr f i).loadable = true →
        (L.phdr f i).verifies w.mem f (toDest (L.phdr f i).paddr)) := by
  unfold verifySegment Phdr.verifies
  cases hl : (L.phdr f i).loadable with
  | false => simp [hl]
  | true =>
    simp only [hl, Bool.not_true, Bool.false_eq_true, if_false, true_imp_iff]
    by_cases hz : (L.phdr f i).filesz = 0
    · simp only [hz, ne_eq, not_true_eq_false, if_false, false_and, read_mem]
      rw [← clearedBytes_iff]
      cases clearedBytes w.mem (toDest (L.phdr f i).paddr + u32 0)
        (sub32 (u32 (L.phdr f i).memsz) 0) <;> simp [u32]
    · simp only [hz, ne_eq, not_false_eq_true, if_true, true_and, read_mem]
      rw [← clearedBytes_iff, ← sameBytes_iff]
      cases sameBytes w.mem f (toDest (L.phdr f i).paddr) (u32 (L.phdr f i).offset)
          (u32 (L.phdr f i).filesz) <;>
        cases clearedBytes w.mem (toDest (L.phdr f i).paddr + u32 (L.phdr f i).filesz)
          (sub32 (u32 (L.phdr f i).memsz) (L.phdr f i).filesz) <;> simp

/-- The spans of the file `verify_sections` reads for a program header. -/
def verifyReads (L : Layout) (f : Mem) (i : Nat) : List (Nat × Nat) :=
  phdrReads L i (L.phdr f i) ++
    if (L.phdr f i).loadable ∧ (L.phdr f i).filesz ≠ 0 then
      [(u32 (L.phdr f i).offset, u32 (L.phdr f i).filesz)]
    else []

theorem verifySegment_walk (L : Layout) (toDest : Nat → Nat) (f : Mem) (i : Nat) (w : Walk) :
    (verifySegment L toDest (ofBytes f) i w).2 = w.read (verifyReads L f i) := by
  unfold verifySegment verifyReads
  simp only
  cases hl : (L.phdr f i).loadable with
  | false => simp
  | true =>
    by_cases hz : (L.phdr f i).filesz = 0
    · simp only [hz, Bool.not_true, Bool.false_eq_true, if_false, ne_eq, not_true_eq_false,
        false_and, and_false, List.append_nil]
      split_ifs <;> rfl
    · simp only [hz, Bool.not_true, Bool.false_eq_true, if_false, ne_eq, not_false_eq_true,
        and_self, true_and, if_true]
      split_ifs <;> simp [Walk.read]

theorem verifyLoop_eq (h : L.Regular) (toDest : Nat → Nat) (f : Mem) (w : Walk) :
    forUpTo (fun w => L.phnumOf (ofBytes f w.mem)) (verifySegment L toDest (ofBytes f)) phnumBound 0
        w =
      ((List.range' 0 (L.phnumOf f)).findSome? fun i =>
          (verifySegment L toDest (ofBytes f) i w).1,
        (upToFirst (fun i => (verifySegment L toDest (ofBytes f) i w).1)
          (List.range' 0 (L.phnumOf f))).foldl (fun w i => w.read (verifyReads L f i)) w) := by
  rw [forUpTo_eq_forEach (fun _ => rfl) (h.phnum_lt f)]
  refine forEach_uniform _ (fun i w => w.read (verifyReads L f i))
    (I := fun v : Walk => v.mem = w.mem) (fun i v hv => Prod.ext ?_ ?_)
    (fun _ _ hv => hv) _ rfl
  · unfold verifySegment
    simp only [apply_ite Prod.fst]
    split_ifs <;> simp_all
  · exact verifySegment_walk L toDest f i v

theorem verifySections_none (h : magicField.get f 0 = elfMagic) (w : Walk) :
    (verifySections (ofBytes f) w).1 = none ↔
      ∀ i < (layoutOf f).phnumOf f, ((layoutOf f).phdr f i).loadable = true →
        ((layoutOf f).phdr f i).verifies w.mem f (toDestOf f ((layoutOf f).phdr f i).paddr) := by
  rw [verifySections_eq, verifySectionsWith]
  simp only [h, ne_eq, not_true_eq_false, if_false, verifyLoop_eq (layoutOf_regular f)]
  rw [List.findSome?_eq_none_iff]
  refine forall_congr' fun i => ?_
  rw [verifySegment_none]
  simp only [List.mem_range'_1, Nat.zero_le, Nat.zero_add, true_and, read_mem]

theorem verifySections_reads (h : magicField.get f 0 = elfMagic) (w : Walk) {span : Nat × Nat}
    (hs : span ∈ (verifySections (ofBytes f) w).2.reads) :
    span ∈ w.reads ++ [classField.span 0, magicField.span 0, (layoutOf f).entry.span 0,
      (layoutOf f).phnum.span 0] ∨
      ∃ i < (layoutOf f).phnumOf f, span ∈ verifyReads (layoutOf f) f i := by
  rw [verifySections_eq, verifySectionsWith] at hs
  simp only [h, ne_eq, not_true_eq_false, if_false, verifyLoop_eq (layoutOf_regular f)] at hs
  rw [foldl_log Walk.reads (verifyReads (layoutOf f) f) fun i w => rfl] at hs
  rcases List.mem_append.mp hs with hs | hs
  · exact .inl (by simpa using hs)
  · obtain ⟨i, hi, hs⟩ := List.mem_flatMap.mp hs
    exact .inr ⟨i, by simpa using mem_of_mem_upToFirst hi, hs⟩

end KernelLoader.Elf
