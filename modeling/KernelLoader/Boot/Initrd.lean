import KernelLoader.Boot.Loading
import KernelLoader.Boot.RealLoader
import KernelLoader.Elf.Install

namespace KernelLoader.Boot
open Lib Elf
set_option autoImplicit true
set_option relaxedAutoImplicit false

variable {file : FileInput} {b : Loader} {last lowest highest base : Nat} {f : Mem}

theorem initrdBase_eq (h : highest < 2 ^ 28) :
    initrdBase highest = (highest + 4095) / 4096 * 4096 - 8 ∨ highest = 0 := by
  have hpage : u32 (highest + 4096 - 1) &&& 0xfffff000 = (highest + 4095) / 4096 * 4096 := by
    rw [u32_of_lt (by omega), show 0xfffff000 = (2 ^ 20 - 1) <<< 12 from rfl,
      and_high_mask _ 12 20 (by omega)]
    rfl
  rw [initrdBase, hpage]
  rcases Nat.eq_zero_or_pos highest with h0 | hpos
  · exact .inr h0
  · exact .inl (sub32_of_le (by omega) (by omega))

theorem initrdHeader_some (hl : lowest < 2 ^ 28) (h : initrdHeader highest lowest = some base) :
    highest < base ∧ base + 8 < 2 ^ 28 + 4096 ∧ 4096 ∣ base + 8 := by
  unfold initrdHeader normalMemoryStart at h
  split_ifs at h with h1 h2
  obtain rfl := Option.some.inj h
  rcases initrdBase_eq (show highest < 2 ^ 28 by omega) with he | h0
  · rw [he] at h2 ⊢
    refine ⟨h2, by omega, ?_⟩
    rw [Nat.sub_add_cancel (by omega)]
    exact Nat.dvd_mul_left _ _
  · omega

theorem le_capacity (hl : lowest < 2 ^ 28) (hb : base + 8 < 2 ^ 28 + 4096) (n : Nat) :
    (n : Int) ≤ s32 (sub32 lowest (base + 8)) ↔ base + 8 + n ≤ lowest := by
  unfold s32 sub32
  split_ifs <;> omega

/-- The address belongs to a segment of the kernel. -/
def InKernel (f : Mem) (a : Nat) : Prop :=
  ∃ i < (layoutOf f).phnumOf f,
    ((layoutOf f).phdr f i).loadable = true ∧ ((layoutOf f).phdr f i).Holds a

/-- Nothing was stored to the kernel or from `lowest` on. -/
def Harmless (f : Mem) (lowest : Nat) (b b' : Loader) : Prop :=
  ∃ spans, b'.stores = b.stores ++ spans ∧
    ∀ span ∈ spans, ∀ i < span.2, ¬InKernel f (span.1 + i) ∧ span.1 + i < lowest

/-- The header and the initrd of `n` bytes are behind the kernel and below `lowest`. -/
structure Placed (f : Mem) (lowest n base : Nat) (m : Mem) : Prop where
  kernel : ∀ a, base ≤ a → a < base + 8 + n → ¬InKernel f a
  below : base + 8 + n < lowest
  magic : word m base = initrdMagic
  size : word m (base + 4) = n
  page : 4096 ∣ base + 8

/-- Either the initrd is in its place, or an error is returned and nothing was damaged. -/
def InitrdSafe (f : Mem) (lowest n : Nat) (header : Option Nat) (b : Loader) :
    Outcome (Nat × Nat) × Loader → Prop
  | (.trapped, _) => False
  | (.failed _, b') => Harmless f lowest b b'
  | (.done _, b') => ∃ base ∈ header, Placed f lowest n base b'.mem

theorem not_initrdSafe_trapped {header : Option Nat} {r : Outcome (Nat × Nat) × Loader}
    (h : r.1 = .trapped) : ¬InitrdSafe f lowest n header b r := by
  obtain ⟨x, b'⟩ := r
  obtain rfl : x = .trapped := h
  exact id

/-- The file is opened, and there is space for it behind the kernel. -/
def InitrdFits (f : Mem) (lowest : Nat) (file : FileInput) : Prop :=
  file.opens = true ∧ ∃ base ∈ initrdHeader (imageEnd f) lowest, base + 8 + file.size ≤ lowest

instance (f : Mem) (lowest : Nat) (file : FileInput) : Decidable (InitrdFits f lowest file) :=
  inferInstanceAs (Decidable (_ ∧ _))

theorem InKernel.lt_imageEnd
    (hw : ∀ i < (layoutOf f).phnumOf f, ((layoutOf f).phdr f i).loadable = true →
      physAddr ((layoutOf f).phdr f i).paddr + ((layoutOf f).phdr f i).extent < 2 ^ 32)
    (h : InKernel f a) : a < imageEnd f := by
  obtain ⟨i, hi, hl, hlo, hhi⟩ := h
  obtain ⟨hseg, hpos⟩ := Phdr.segSize_eq hl (hw i hi hl)
  have hle := segEnd_le_imageEnd hi hl (by omega)
  rw [segEnd, hseg, u32_of_lt (hw i hi hl)] at hle
  omega

theorem Harmless.of_stored {lo : Nat} {b' : Loader} (h : b.Stored lo lowest b')
    (hlo : ∀ a, lo ≤ a → ¬InKernel f a) : Harmless f lowest b b' := by
  obtain ⟨spans, he, hin⟩ := h.spans
  refine ⟨spans, he, fun span hm i hi => ?_⟩
  obtain ⟨h1, h2⟩ := hin span hm i hi
  exact ⟨hlo _ h1, h2⟩

theorem Harmless.of_eq {b' : Loader} (h : b'.stores = b.stores) : Harmless f lowest b b' :=
  ⟨[], by rw [h, List.append_nil], fun _ hm => absurd hm List.not_mem_nil⟩

theorem loadInitrd_loaded {b' : Loader} {buffer : Nat} (hl : lowest < 2 ^ 28)
    (hkernel : ∀ a, base ≤ a → ¬InKernel f a) (hpage : 4096 ∣ base + 8)
    (hfit : base + 8 + file.size ≤ lowest) (hharm : Harmless f lowest b b')
    (hr : loadFile last file (sub32 lowest (base + 8)) (some (base + 8)) b =
      (some ⟨some (base + 8), file.size⟩, b')) :
    InitrdSafe f lowest file.size (some base) b
      (loadInitrd last lowest buffer (some base) file b) := by
  rw [loadInitrd, hr]
  simp only
  split_ifs with h0 hbig
  · exact hharm
  · exact hharm
  · rw [u32_of_lt (by omega)] at hbig
    refine ⟨base, rfl, fun a ha _ => hkernel a ha, by omega, ?_, ?_, hpage⟩
    · rw [Loader.word_storeWord_of_disjoint _ _ (by omega) (by omega) (by omega),
        Loader.word_storeWord _ _ (by omega)]
      rfl
    · rw [Loader.word_storeWord _ _ (by omega), u32_of_lt (by omega)]

/-- Placement of the initrd: for an accepted kernel the loader puts it behind the kernel and below
itself, or returns an error without damage, unless a file of less than 100 bytes that would fit is
delivered in pieces. -/
theorem loadInitrd_places (f : Mem) (filesize lowest last buffer : Nat) (file : FileInput)
    (b : Loader) (m : Mem)
    (hk : (checkSections (ofBytes f) ⟨filesize, kernelStart, lowest, none⟩ (.fresh m)).1 = none)
    (hw : ∀ i < (layoutOf f).phnumOf f, ((layoutOf f).phdr f i).loadable = true →
      physAddr ((layoutOf f).phdr f i).paddr + ((layoutOf f).phdr f i).extent < 2 ^ 32)
    (hl : lowest < 2 ^ 28) :
    let header := initrdHeader
      (checkSections (ofBytes f) ⟨filesize, kernelStart, lowest, none⟩ (.fresh m)).2.highest lowest
    InitrdSafe f lowest file.size header b (loadInitrd last lowest buffer header file b) ↔
      ¬(InitrdFits f lowest file ∧ file.Stalls) := by
  have hacc := (checkSections_accepts f _ _).mp hk
  rw [hacc.highest]
  simp only
  unfold InitrdFits
  cases hh : initrdHeader (imageEnd f) lowest with
  | none =>
    have hsafe : InitrdSafe f lowest file.size none b (loadInitrd last lowest buffer none file b) :=
      Harmless.of_eq rfl
    simp [hsafe]
  | some base =>
    obtain ⟨hhigh, hbase, hpage⟩ := initrdHeader_some hl hh
    have hkernel (a : Nat) (ha : base ≤ a) : ¬InKernel f a := by
      intro hin
      have := hin.lt_imageEnd hw
      omega
    have hcap := le_capacity hl hbase file.size
    have hcases := loadFile_cases last file (sub32 lowest (base + 8)) (base + 8) b
    have hstored : b.Stored (base + 8) lowest
        (loadFile last file (sub32 lowest (base + 8)) (some (base + 8)) b).2 :=
      loadFile_stored hcap.mp (by omega)
    have hharm := Harmless.of_stored hstored fun a ha => hkernel a (by omega)
    simp only [hcap] at hcases
    simp only [Option.mem_def, Option.some.injEq, exists_eq_left']
    cases hr : loadFile last file (sub32 lowest (base + 8)) (some (base + 8)) b with
    | mk x b' =>
      rw [hr] at hcases hharm
      rcases hcases with ⟨hno, n, hx⟩ | ⟨ho, hfit, ⟨hst, hx⟩ | ⟨hst, hx⟩⟩ <;> obtain rfl := hx
      · refine iff_of_true ?_ fun h => hno h.1
        rw [loadInitrd, hr]
        exact hharm
      · refine iff_of_false ?_ fun h => h ⟨⟨ho, hfit⟩, hst⟩
        rw [loadInitrd, hr]
        exact id
      · exact iff_of_true (loadInitrd_loaded hl hkernel hpage hfit hharm hr) fun h => hst h.2

/-- A kernel with one segment at 0x80000. -/
def smallKernel : Mem := elf32.file 1 0x80080004 [⟨1, 0x54, 0, 0x80080000, 8, 16⟩]

/-- A file that `fread` delivers in the given pieces. -/
def smallInitrd (size : Nat) (reads : List Nat) : FileInput := ⟨true, size, none, reads, 0⟩

theorem loadInitrd_places_small :
    (checkSections (ofBytes smallKernel) ⟨0x100, kernelStart, 0x100000, none⟩ (.fresh 0)).1 = none ∧
      InitrdSafe smallKernel 0x100000 200 (some 0x80ff8) (.start 0)
        (loadInitrd 0x100000 0x100000 0x200000 (some 0x80ff8) (smallInitrd 200 [150, 50])
          (.start 0)) := by
  have hsafe := (loadInitrd_places smallKernel 0x100 0x100000 0x100000 0x200000
    (smallInitrd 200 [150, 50]) (.start 0) 0 (by decide +kernel) (by decide +kernel)
    (by decide)).mpr (by decide +kernel)
  have hheader : initrdHeader (checkSections (ofBytes smallKernel)
      ⟨0x100, kernelStart, 0x100000, none⟩ (.fresh 0)).2.highest 0x100000 = some 0x80ff8 := by
    decide +kernel
  simp only [hheader] at hsafe
  exact ⟨by decide +kernel, hsafe⟩

/-- An initrd of three bytes that are read one by one: after the first the loader divides by
zero. -/
theorem loadInitrd_divides_by_zero :
    let c : CheckArgs := ⟨0x100, kernelStart, 0x100000, none⟩
    let s := (checkSections (ofBytes smallKernel) c (.fresh 0)).2
    let header := initrdHeader s.highest 0x100000
    (checkSections (ofBytes smallKernel) c (.fresh 0)).1 = none ∧ header = some 0x80ff8 ∧
      (loadInitrd 0x100000 0x100000 0x200000 header (smallInitrd 3 [1, 1, 1]) (.start 0)).1 =
        .trapped ∧
      ¬InitrdSafe smallKernel 0x100000 3 header (.start 0)
        (loadInitrd 0x100000 0x100000 0x200000 header (smallInitrd 3 [1, 1, 1]) (.start 0)) := by
  have htrap : (loadInitrd 0x100000 0x100000 0x200000 (some 0x80ff8) (smallInitrd 3 [1, 1, 1])
      (.start 0)).1 = .trapped := by decide +kernel
  have hheader : initrdHeader (checkSections (ofBytes smallKernel)
      ⟨0x100, kernelStart, 0x100000, none⟩ (.fresh 0)).2.highest 0x100000 = some 0x80ff8 := by
    decide +kernel
  simp only [hheader]
  exact ⟨by decide +kernel, trivial, htrap, not_initrdSafe_trapped htrap⟩

end KernelLoader.Boot
