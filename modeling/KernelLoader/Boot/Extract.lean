import KernelLoader.Elf.Format

namespace KernelLoader.Boot
open Lib Elf
set_option autoImplicit true
set_option relaxedAutoImplicit false

/-- What `real_copyRTEELF` meets: does the image open, its size, is there memory for it, can it be
read, the bytes from the start of the buffer on (those behind the image are what happens to be in
memory), can the output file be created at once or in a new directory, and can it be written. -/
structure RteImage where
  opens : Bool
  size : Nat
  allocates : Bool
  reads : Bool
  bytes : Mem
  creates : Bool
  createsAgain : Bool
  writes : Bool

/-- The value returned and the message shown, was an output file created, what is in it if it was
not removed again, and the spans of the buffer that were read. -/
structure Extraction where
  code : Int
  message : Option String
  created : Bool
  output : Option (List UInt8)
  spans : List (Nat × Nat)

/-- The word at an address is the ELF magic. -/
def isElf (f : Mem) (a : Nat) : Bool := le f a 4 == elfMagic

/-- The values of a pointer that starts at `lo` and is moved on by 4 while it is below `hi`. -/
def steps (lo hi : Nat) : List Nat := List.range' lo ((hi - lo + 3) / 4) 4

/-- The loop that counts down `elfNumber`: where it was left with `break`, and the words read. -/
def searchElf (f : Mem) : List Nat → Nat → Option Nat × List (Nat × Nat)
  | [], _ => (none, [])
  | addr :: addrs, elfNumber =>
    if isElf f addr then
      let elfNumber := sub32 elfNumber 1
      if elfNumber = 0 then (some addr, [(addr, 4)])
      else
        let rest := searchElf f addrs elfNumber
        (rest.1, (addr, 4) :: rest.2)
    else
      let rest := searchElf f addrs elfNumber
      (rest.1, (addr, 4) :: rest.2)

/-- The loop that looks for the end: the next magic, and the words read. -/
def nextElf (f : Mem) : List Nat → Option Nat × List (Nat × Nat)
  | [] => (none, [])
  | code :: codes =>
    if isElf f code then (some code, [(code, 4)])
    else
      let rest := nextElf f codes
      (rest.1, (code, 4) :: rest.2)

def slice (f : Mem) (a n : Nat) : List UInt8 := (List.range n).map fun i => f (a + i)

/-- Write an ELF file, which is in the buffer at `addr`. -/
def writeElf (image : RteImage) (addr elfSize : Nat) (spans : List (Nat × Nat)) : Extraction :=
  if !(image.creates || image.createsAgain) then
    ⟨-4, some "Failed to open \"%s\"", false, none, spans⟩
  -- nothing is written if there is nothing to write, which is an error too
  else if !image.writes || elfSize == 0 then
    ⟨-5, some "Failed to write \"%s\"", true, none, spans ++ [(addr, elfSize)]⟩
  else ⟨0, none, true, some (slice image.bytes addr elfSize), spans ++ [(addr, elfSize)]⟩

/-- The image is in the buffer. After the search loop `addr` is where it was left or behind the last
word; it is looked at again in both cases. -/
def extractElf (image : RteImage) (elfNumber : Nat) : Extraction :=
  let search := searchElf image.bytes (steps 0 image.size) elfNumber
  let addr := search.1.getD (4 * ((image.size + 3) / 4))
  if isElf image.bytes addr then
    let next := nextElf image.bytes (steps (addr + 4) image.size)
    let elfSize := match next.1 with
      | some code => code - addr
      | none => sub32 image.size addr
    writeElf image addr elfSize (search.2 ++ (addr, 4) :: next.2)
  else ⟨-6, some "Can't find ELF.", false, none, search.2 ++ [(addr, 4)]⟩

/-- `elfNumber` is what `atoi` returned, stored to an unsigned word. `fread` of an empty file reads
no object. -/
def realCopyRteElf (image : RteImage) (elfNumber : Int) : Extraction :=
  if !image.opens then ⟨0, some "Failed to open file \"%s\"", false, none, []⟩
  else if !image.allocates then ⟨-2, some "out of memory", false, none, []⟩
  else if !image.reads || image.size == 0 then ⟨-3, some "Can't read file.", false, none, []⟩
  else extractElf image (elfNumber % 2 ^ 32).toNat

variable {f : Mem} {as : List Nat} {a k n size : Nat} {span : Nat × Nat} {image : RteImage}

/-- The aligned words of an image that are the magic. -/
def elfStarts (f : Mem) (size : Nat) : List Nat := (List.range' 0 (size / 4) 4).filter (isElf f)

theorem searchElf_found (hsorted : as.Pairwise (· < ·)) (hn : n + 1 < 2 ^ 32)
    (h : (as.filter (isElf f))[n]? = some a) :
    (searchElf f as (n + 1)).1 = some a ∧
      ∀ span ∈ (searchElf f as (n + 1)).2, ∃ x ∈ as, x ≤ a ∧ span = (x, 4) := by
  induction as generalizing n with
  | nil => cases h
  | cons x as ih =>
    obtain ⟨hx, hsorted⟩ := List.pairwise_cons.mp hsorted
    have hlater (ha : a ∈ as) {l : List (Nat × Nat)}
        (hl : ∀ span ∈ l, ∃ x ∈ as, x ≤ a ∧ span = (x, 4)) :
        ∀ span ∈ (x, 4) :: l, ∃ y ∈ x :: as, y ≤ a ∧ span = (y, 4) := by
      intro span hspan
      rcases List.mem_cons.mp hspan with rfl | hspan
      · exact ⟨x, List.mem_cons_self, Nat.le_of_lt (hx a ha), rfl⟩
      · obtain ⟨y, hy, hle, he⟩ := hl span hspan
        exact ⟨y, List.mem_cons_of_mem x hy, hle, he⟩
    rw [searchElf]
    cases he : isElf f x with
    | false =>
      rw [List.filter_cons_of_neg (by simp [he])] at h
      obtain ⟨hfound, hspans⟩ := ih hsorted hn h
      have ha : a ∈ as := (List.mem_filter.mp (List.mem_of_getElem? h)).1
      exact ⟨hfound, hlater ha hspans⟩
    | true =>
      rw [List.filter_cons_of_pos he] at h
      simp only [if_true]
      cases n with
      | zero =>
        obtain rfl : x = a := Option.some.inj h
        rw [if_pos (by decide)]
        refine ⟨rfl, fun span hspan => ?_⟩
        exact ⟨x, List.mem_cons_self, Nat.le_refl x, List.mem_singleton.mp hspan⟩
      | succ n =>
        rw [sub32_of_le (by omega) hn, Nat.add_sub_cancel, if_neg (by omega)]
        rw [List.getElem?_cons_succ] at h
        obtain ⟨hfound, hspans⟩ := ih hsorted (by omega) h
        have ha : a ∈ as := (List.mem_filter.mp (List.mem_of_getElem? h)).1
        exact ⟨hfound, hlater ha hspans⟩

theorem searchElf_missing (hk : k < 2 ^ 32)
    (h : (as.filter (isElf f)).length < if k = 0 then 2 ^ 32 else k) :
    (searchElf f as k).1 = none := by
  induction as generalizing k with
  | nil => rfl
  | cons x as ih =>
    rw [searchElf]
    cases he : isElf f x with
    | false =>
      rw [List.filter_cons_of_neg (by simp [he])] at h
      exact ih hk h
    | true =>
      rw [List.filter_cons_of_pos he, List.length_cons] at h
      simp only [if_true]
      cases k with
      | zero =>
        rw [if_pos rfl] at h
        have hwrap : sub32 0 1 = 2 ^ 32 - 1 := by decide
        rw [hwrap, if_neg (by decide)]
        exact ih (by decide) (by rw [if_neg (by decide)]; omega)
      | succ k =>
        rw [if_neg (Nat.succ_ne_zero k)] at h
        have hpos : k ≠ 0 := by omega
        rw [sub32_of_le (by omega) hk, Nat.add_sub_cancel, if_neg hpos]
        exact ih (by omega) (by rw [if_neg hpos]; omega)

theorem nextElf_eq_find (f : Mem) (as : List Nat) : (nextElf f as).1 = as.find? (isElf f) := by
  induction as with
  | nil => rfl
  | cons x as ih =>
    rw [nextElf, List.find?_cons]
    cases isElf f x with
    | false => exact ih
    | true => rfl

theorem nextElf_spans_none (h : as.find? (isElf f) = none) :
    (nextElf f as).2 = as.map (·, 4) := by
  induction as with
  | nil => rfl
  | cons x as ih =>
    rw [List.find?_cons] at h
    rw [nextElf]
    cases he : isElf f x with
    | true =>
      rw [he] at h
      cases h
    | false =>
      rw [he] at h
      simp only [Bool.false_eq_true, if_false, ih h, List.map_cons]

theorem nextElf_spans_some (hsorted : as.Pairwise (· < ·)) (h : as.find? (isElf f) = some a) :
    ∀ span ∈ (nextElf f as).2, ∃ x ∈ as, x ≤ a ∧ span = (x, 4) := by
  induction as with
  | nil => cases h
  | cons x as ih =>
    obtain ⟨hx, hsorted⟩ := List.pairwise_cons.mp hsorted
    rw [List.find?_cons] at h
    rw [nextElf]
    intro span hspan
    cases he : isElf f x with
    | true =>
      rw [he] at h hspan
      cases h
      exact ⟨a, List.mem_cons_self, Nat.le_refl a, List.mem_singleton.mp hspan⟩
    | false =>
      rw [he] at h hspan
      rcases List.mem_cons.mp hspan with rfl | hspan
      · exact ⟨x, List.mem_cons_self, Nat.le_of_lt (hx a (List.mem_of_find?_eq_some h)), rfl⟩
      · obtain ⟨y, hy, hle, he⟩ := ih hsorted h span hspan
        exact ⟨y, List.mem_cons_of_mem x hy, hle, he⟩

theorem mem_steps {lo hi : Nat} : a ∈ steps lo hi ↔ lo ≤ a ∧ a < hi ∧ (a - lo) % 4 = 0 := by
  rw [steps, List.mem_range']
  constructor
  · rintro ⟨i, hi, rfl⟩
    omega
  · rintro ⟨h1, h2, h3⟩
    exact ⟨(a - lo) / 4, by omega, by omega⟩

theorem steps_sorted (lo hi : Nat) : (steps lo hi).Pairwise (· < ·) :=
  List.pairwise_lt_range' 4

theorem steps_zero (size : Nat) : steps 0 size =
    List.range' 0 (size / 4) 4 ++ List.range' (4 * (size / 4)) ((size + 3) / 4 - size / 4) 4 := by
  rw [steps, Nat.sub_zero, show 4 * (size / 4) = 0 + 4 * (size / 4) by omega, List.range'_append]
  congr 1
  omega

theorem steps_behind (ha : a + 4 ≤ size) (hm : a % 4 = 0) : steps (a + 4) size =
    List.range' (a + 4) (size / 4 - a / 4 - 1) 4 ++
      List.range' (4 * (size / 4)) ((size + 3) / 4 - size / 4) 4 := by
  have hend : 4 * (size / 4) = a + 4 + 4 * (size / 4 - a / 4 - 1) := by omega
  rw [steps, hend, List.range'_append]
  congr 1
  omega

theorem elfStarts_next (h : (elfStarts f size)[n]? = some a) : a % 4 = 0 ∧ a + 4 ≤ size ∧
    (elfStarts f size)[n + 1]? =
      (List.range' (a + 4) (size / 4 - a / 4 - 1) 4).find? (isElf f) := by
  obtain ⟨hmem, hmagic⟩ := List.mem_filter.mp (List.mem_of_getElem? h)
  obtain ⟨i, hi, rfl⟩ := List.mem_range'.mp hmem
  have hsplit : elfStarts f size = (List.range' 0 i 4).filter (isElf f) ++ (0 + 4 * i) ::
      (List.range' (0 + 4 * i + 4) (size / 4 - i - 1) 4).filter (isElf f) := by
    rw [elfStarts, ← List.filter_cons_of_pos hmagic, ← List.range'_succ, ← List.filter_append,
      List.range'_append]
    congr 2
    omega
  have hindex : n = ((List.range' 0 i 4).filter (isElf f)).length := by
    have hnodup : (elfStarts f size).Nodup := (List.nodup_range' 4).filter _
    apply (List.getElem?_inj (List.getElem?_eq_some_iff.mp h).1 hnodup).mp
    rw [h, hsplit, List.getElem?_append_right (Nat.le_refl _), Nat.sub_self,
      List.getElem?_cons_zero]
  refine ⟨by omega, by omega, ?_⟩
  rw [hsplit, hindex, List.getElem?_append_right (Nat.le_add_right _ 1), Nat.add_sub_cancel_left,
    List.getElem?_cons_succ, ← List.head?_eq_getElem?, List.head?_filter]
  congr 2
  omega

theorem filter_steps (f : Mem) (size : Nat) : (steps 0 size).filter (isElf f) = elfStarts f size ++
    (List.range' (4 * (size / 4)) ((size + 3) / 4 - size / 4) 4).filter (isElf f) := by
  rw [steps_zero, List.filter_append, elfStarts]

theorem length_elfStarts_le (f : Mem) (size : Nat) : (elfStarts f size).length ≤ size / 4 := by
  have := List.length_filter_le (isElf f) (List.range' 0 (size / 4) 4)
  rw [List.length_range'] at this
  exact this

theorem searchElf_iff (hsize : size < 2 ^ 32) (hk : k < 2 ^ 32) (ha : a + 4 ≤ size) :
    (searchElf f (steps 0 size) k).1 = some a ↔
      ∃ n, k = n + 1 ∧ (elfStarts f size)[n]? = some a := by
  constructor
  · intro h
    have hlen : ((steps 0 size).filter (isElf f)).length ≤ (size + 3) / 4 := by
      have := List.length_filter_le (isElf f) (steps 0 size)
      rw [steps, List.length_range', Nat.sub_zero] at this
      exact this
    cases k with
    | zero =>
      rw [searchElf_missing hk (by rw [if_pos rfl]; omega)] at h
      cases h
    | succ n =>
      refine ⟨n, rfl, ?_⟩
      cases hn : ((steps 0 size).filter (isElf f))[n]? with
      | none =>
        have := List.getElem?_eq_none_iff.mp hn
        rw [searchElf_missing hk (by rw [if_neg (by omega)]; omega)] at h
        cases h
      | some b =>
        rw [(searchElf_found (steps_sorted 0 size) hk hn).1] at h
        cases h
        rw [filter_steps] at hn
        rcases Nat.lt_or_ge n (elfStarts f size).length with hlt | hge
        · rw [List.getElem?_append_left hlt] at hn
          exact hn
        · rw [List.getElem?_append_right hge] at hn
          obtain ⟨i, hi, rfl⟩ :=
            List.mem_range'.mp (List.mem_filter.mp (List.mem_of_getElem? hn)).1
          omega
  · rintro ⟨n, rfl, hn⟩
    have hmem : ((steps 0 size).filter (isElf f))[n]? = some a := by
      rw [filter_steps, List.getElem?_append_left (List.getElem?_eq_some_iff.mp hn).1]
      exact hn
    exact (searchElf_found (steps_sorted 0 size) hk hmem).1

/-- Everything works: the files can be opened, read and written, and there is memory. -/
def RteImage.Works (image : RteImage) : Prop :=
  image.opens = true ∧ image.allocates = true ∧ image.reads = true ∧
    (image.creates || image.createsAgain) = true ∧ image.writes = true

instance (image : RteImage) : Decidable image.Works := inferInstanceAs (Decidable (_ ∧ _))

/-- What extracting is to do: only the image is read, the file gets the bytes from the magic with
the number `k` up to the next one or the end, and there is no file if there is no such magic. -/
structure Extracts (image : RteImage) (k : Int) (r : Extraction) : Prop where
  inside : ∀ span ∈ r.spans, SpanIn 0 image.size span
  found : ∀ (n a : Nat), k = n + 1 → (elfStarts image.bytes image.size)[n]? = some a →
    r.output = some (slice image.bytes a
      (((elfStarts image.bytes image.size)[n + 1]?).getD image.size - a))
  missing : k < 1 ∨ (elfStarts image.bytes image.size).length < k →
    r.code = -6 ∧ r.created = false

theorem spanIn_word : SpanIn 0 size (a, 4) ↔ a + 4 ≤ size := by
  rw [spanIn_iff]
  omega

theorem RteImage.Works.writeElf (h : image.Works) (spans : List (Nat × Nat)) (hn : 0 < n) :
    writeElf image a n spans =
      ⟨0, none, true, some (slice image.bytes a n), spans ++ [(a, n)]⟩ := by
  obtain ⟨-, -, -, hcreate, hwrite⟩ := h
  rw [Boot.writeElf, hcreate, hwrite]
  simp only [Bool.not_true, Bool.false_eq_true, if_false, Bool.false_or, beq_iff_eq]
  rw [if_neg (Nat.ne_of_gt hn)]

theorem RteImage.Works.writeElf_created (h : image.Works) (spans : List (Nat × Nat)) :
    (Boot.writeElf image a n spans).created = true ∧
      ∀ span ∈ spans, span ∈ (Boot.writeElf image a n spans).spans := by
  obtain ⟨-, -, -, hcreate, -⟩ := h
  rw [Boot.writeElf, hcreate]
  simp only [Bool.not_true, Bool.false_eq_true, if_false]
  split_ifs
  · exact ⟨rfl, fun span hspan => List.mem_append_left _ hspan⟩
  · exact ⟨rfl, fun span hspan => List.mem_append_left _ hspan⟩

theorem extractElf_reads (hw : image.Works) (k : Nat) :
    (((searchElf image.bytes (steps 0 image.size) k).1.getD (4 * ((image.size + 3) / 4)), 4) :
      Nat × Nat) ∈ (extractElf image k).spans := by
  unfold extractElf
  dsimp only
  split_ifs
  · apply (hw.writeElf_created _).2
    exact List.mem_append_right _ List.mem_cons_self
  · exact List.mem_append_right _ (List.mem_singleton_self _)

theorem extractElf_of_found (h : (searchElf image.bytes (steps 0 image.size) k).1 = some a)
    (ha : isElf image.bytes a = true) :
    extractElf image k = writeElf image a
      (match (nextElf image.bytes (steps (a + 4) image.size)).1 with
        | some code => code - a
        | none => sub32 image.size a)
      ((searchElf image.bytes (steps 0 image.size) k).2 ++
        (a, 4) :: (nextElf image.bytes (steps (a + 4) image.size)).2) := by
  unfold extractElf
  dsimp only
  rw [h, Option.getD_some, if_pos ha]

theorem nextElf_reads_rest (h : as.find? (isElf f) = none) (x : Nat) :
    ((x, 4) : Nat × Nat) ∈ (nextElf f (as ++ [x])).2 := by
  induction as with
  | nil =>
    rw [List.nil_append, nextElf]
    split_ifs
    · exact List.mem_cons_self
    · exact List.mem_cons_self
  | cons y as ih =>
    rw [List.find?_cons] at h
    rw [List.cons_append, nextElf]
    cases he : isElf f y with
    | true =>
      rw [he] at h
      cases h
    | false =>
      rw [he] at h
      exact List.mem_cons_of_mem _ (ih h)

theorem RteImage.Works.writeElf_inside (h : image.Works) (hm : 0 < m) (ham : a + m ≤ image.size)
    {spans : List (Nat × Nat)} (hspans : ∀ span ∈ spans, SpanIn 0 image.size span) :
    (Boot.writeElf image a m spans).output = some (slice image.bytes a m) ∧
      ∀ span ∈ (Boot.writeElf image a m spans).spans, SpanIn 0 image.size span := by
  rw [h.writeElf spans hm]
  refine ⟨rfl, fun span hspan => ?_⟩
  rcases List.mem_append.mp hspan with hspan | hspan
  · exact hspans span hspan
  · rw [List.mem_singleton.mp hspan]
    exact spanIn_iff.mpr (.inr ⟨Nat.zero_le a, ham⟩)

/-- The search for the end of an ELF finds the next magic, unless it reaches a last word that is not
complete. -/
theorem find_next (hn : (elfStarts f size)[n]? = some a)
    (hrest : size % 4 = 0 ∨ n + 1 < (elfStarts f size).length) :
    (steps (a + 4) size).find? (isElf f) = (elfStarts f size)[n + 1]? := by
  obtain ⟨halign, hin, hnext⟩ := elfStarts_next hn
  rw [steps_behind hin halign, List.find?_append, ← hnext]
  cases hb : (elfStarts f size)[n + 1]? with
  | some b => rw [Option.some_or]
  | none =>
    have hlast := List.getElem?_eq_none_iff.mp hb
    have hempty : (size + 3) / 4 - size / 4 = 0 := by omega
    rw [hempty, List.range'_zero]
    rfl

theorem extractElf_found (hw : image.Works) (hsize : image.size < 2 ^ 32)
    (hn : (elfStarts image.bytes image.size)[n]? = some a)
    (hrest : image.size % 4 = 0 ∨ n + 1 < (elfStarts image.bytes image.size).length) :
    (extractElf image (n + 1)).output = some (slice image.bytes a
        (((elfStarts image.bytes image.size)[n + 1]?).getD image.size - a)) ∧
      ∀ span ∈ (extractElf image (n + 1)).spans, SpanIn 0 image.size span := by
  obtain ⟨halign, hin, -⟩ := elfStarts_next hn
  have hlt := (List.getElem?_eq_some_iff.mp hn).1
  have hlen := length_elfStarts_le image.bytes image.size
  have hmem : ((steps 0 image.size).filter (isElf image.bytes))[n]? = some a := by
    rw [filter_steps, List.getElem?_append_left hlt]
    exact hn
  obtain ⟨hfound, hspans⟩ := searchElf_found (steps_sorted 0 image.size) (by omega) hmem
  have hmagic := (List.mem_filter.mp (List.mem_of_getElem? hn)).2
  -- the spans read before the file is written
  have hbefore {next : List (Nat × Nat)} (h : ∀ span ∈ next, SpanIn 0 image.size span) :
      ∀ span ∈ (searchElf image.bytes (steps 0 image.size) (n + 1)).2 ++ (a, 4) :: next,
        SpanIn 0 image.size span := by
    intro span hspan
    rcases List.mem_append.mp hspan with hspan | hspan
    · obtain ⟨x, -, hle, rfl⟩ := hspans span hspan
      exact spanIn_word.mpr (by omega)
    · rcases List.mem_cons.mp hspan with rfl | hspan
      · exact spanIn_word.mpr hin
      · exact h span hspan
  have hfind := find_next hn hrest
  rw [extractElf_of_found hfound hmagic, nextElf_eq_find]
  cases hb : (elfStarts image.bytes image.size)[n + 1]? with
  | some b =>
    rw [hb] at hfind
    have hbin := (elfStarts_next hb).2.1
    have hbmem := (mem_steps.mp (List.mem_of_find?_eq_some hfind)).1
    rw [hfind, Option.getD_some]
    dsimp only
    refine hw.writeElf_inside (by omega) (by omega) (hbefore fun span hspan => ?_)
    obtain ⟨x, -, hle, rfl⟩ := nextElf_spans_some (steps_sorted _ _) hfind span hspan
    exact spanIn_word.mpr (by omega)
  | none =>
    rw [hb] at hfind
    have hlast := List.getElem?_eq_none_iff.mp hb
    have hmod : image.size % 4 = 0 := by omega
    rw [hfind, nextElf_spans_none hfind, Option.getD_none]
    dsimp only
    rw [sub32_of_le (by omega) hsize]
    refine hw.writeElf_inside (by omega) (by omega) (hbefore fun span hspan => ?_)
    obtain ⟨x, hx, rfl⟩ := List.mem_map.mp hspan
    obtain ⟨h1, h2, h3⟩ := mem_steps.mp hx
    exact spanIn_word.mpr (by omega)

theorem realCopyRteElf_eq (hw : image.Works) (hpos : 0 < image.size) (k : Int) :
    realCopyRteElf image k = extractElf image (k % 2 ^ 32).toNat := by
  obtain ⟨hopen, halloc, hread, -, -⟩ := hw
  rw [realCopyRteElf, hopen, halloc, hread]
  simp only [Bool.not_true, Bool.false_eq_true, if_false, Bool.false_or, beq_iff_eq]
  rw [if_neg (Nat.ne_of_gt hpos)]

theorem Extracts.number (h : Extracts image k' (realCopyRteElf image k')) (hw : image.Works)
    (hsize : image.size < 2 ^ 32) : ∃ n a : Nat, k' = n + 1 ∧
      (elfStarts image.bytes image.size)[n]? = some a ∧
      realCopyRteElf image k' = extractElf image (n + 1) := by
  have hlen := length_elfStarts_le image.bytes image.size
  have hpos : 0 < image.size := by
    apply Nat.pos_of_ne_zero
    intro h0
    have hcode := (h.missing (by omega)).1
    obtain ⟨hopen, halloc, hread, -, -⟩ := hw
    have hempty : (realCopyRteElf image k').code = -3 := by
      rw [realCopyRteElf, hopen, halloc, hread, h0]
      rfl
    rw [hempty] at hcode
    exact absurd hcode (by decide)
  have heq := realCopyRteElf_eq hw hpos k'
  have hspan := h.inside _ (heq ▸ extractElf_reads hw _)
  rw [spanIn_word] at hspan
  cases hs : (searchElf image.bytes (steps 0 image.size) (k' % 2 ^ 32).toNat).1 with
  | none =>
    rw [hs, Option.getD_none] at hspan
    omega
  | some a =>
    rw [hs, Option.getD_some] at hspan
    obtain ⟨n, hk, hn⟩ := (searchElf_iff hsize (by omega) hspan).mp hs
    have hlt := (List.getElem?_eq_some_iff.mp hn).1
    have hmagic := (List.mem_filter.mp (List.mem_of_getElem? hn)).2
    have hnum : k' = n + 1 := by
      by_contra hne
      have hcreated := (h.missing (by omega)).2
      rw [heq, extractElf_of_found hs hmagic, (hw.writeElf_created _).1] at hcreated
      cases hcreated
    refine ⟨n, a, hnum, hn, ?_⟩
    rw [heq, hk]

/-- Extracting works exactly if there is a magic with this number, and if the image has a multiple
of 4 bytes or the magic is not the last one. -/
theorem realCopyRteElf_extracts_iff (image : RteImage) (k : Int) (hw : image.Works)
    (hsize : image.size < 2 ^ 32) :
    Extracts image k (realCopyRteElf image k) ↔
      ∃ n : Nat, k = n + 1 ∧ n < (elfStarts image.bytes image.size).length ∧
        (image.size % 4 = 0 ∨ n + 1 < (elfStarts image.bytes image.size).length) := by
  constructor
  · intro h
    obtain ⟨n, a, hk, hn, heq⟩ := h.number hw hsize
    have hlt := (List.getElem?_eq_some_iff.mp hn).1
    refine ⟨n, hk, hlt, ?_⟩
    by_contra hcond
    obtain ⟨halign, hin, hnext⟩ := elfStarts_next hn
    rw [List.getElem?_eq_none_iff.mpr (by omega)] at hnext
    have hmagic := (List.mem_filter.mp (List.mem_of_getElem? hn)).2
    have hlen := length_elfStarts_le image.bytes image.size
    have hs := (searchElf_iff (a := a) hsize (by omega) hin).mpr ⟨n, rfl, hn⟩
    have hrest : (image.size + 3) / 4 - image.size / 4 = 1 := by omega
    -- the last word is not complete, and it is read
    have hread : ((4 * (image.size / 4), 4) : Nat × Nat) ∈ (realCopyRteElf image k).spans := by
      rw [heq, extractElf_of_found hs hmagic]
      apply (hw.writeElf_created _).2
      apply List.mem_append_right
      apply List.mem_cons_of_mem
      rw [steps_behind hin halign, hrest]
      exact nextElf_reads_rest hnext.symm _
    have := spanIn_word.mp (h.inside _ hread)
    omega
  · rintro ⟨n, rfl, hlt, hrest⟩
    have hlen := length_elfStarts_le image.bytes image.size
    obtain ⟨a, hn⟩ : ∃ a, (elfStarts image.bytes image.size)[n]? = some a :=
      ⟨_, List.getElem?_eq_getElem hlt⟩
    have heq : realCopyRteElf image (n + 1 : Int) = extractElf image (n + 1) := by
      rw [realCopyRteElf_eq hw (by omega)]
      congr 1
      omega
    rw [heq]
    obtain ⟨hout, hspans⟩ := extractElf_found hw hsize hn hrest
    refine ⟨hspans, fun m b hm hb => ?_, fun hmiss => by omega⟩
    obtain rfl : m = n := by omega
    rw [hn] at hb
    cases hb
    exact hout

/-- Two ELF files, of 8 and of 4 bytes, and behind the image what looks like a third one. -/
def twoElfs : RteImage where
  opens := true
  size := 12
  allocates := true
  reads := true
  bytes := fun i => [0x7f, 0x45, 0x4c, 0x46, 1, 2, 3, 4, 0x7f, 0x45, 0x4c, 0x46, 0x7f, 0x45, 0x4c,
    0x46].getD i 0
  creates := true
  createsAgain := true
  writes := true

theorem realCopyRteElf_extracts_first : Extracts twoElfs 1 (realCopyRteElf twoElfs 1) ∧
    (realCopyRteElf twoElfs 1).output = some [0x7f, 0x45, 0x4c, 0x46, 1, 2, 3, 4] :=
  ⟨(realCopyRteElf_extracts_iff twoElfs 1 (by decide) (by decide)).mpr
    ⟨0, by decide, by decide +kernel, by decide⟩, by decide +kernel⟩

/-- With the number 3 the word behind the image is read and taken for an ELF file. Of an image of 11
bytes the byte behind its end is read, and for an empty one there is another error. -/
theorem realCopyRteElf_leaves_image :
    (12, 4) ∈ (realCopyRteElf twoElfs 3).spans ∧
      (realCopyRteElf twoElfs 3).code = -5 ∧ (realCopyRteElf twoElfs 3).created = true ∧
      (8, 4) ∈ (realCopyRteElf { twoElfs with size := 11 } 1).spans ∧
      (realCopyRteElf { twoElfs with size := 0 } 1).code = -3 := by
  refine ⟨?_, ?_, ?_, ?_, ?_⟩ <;> decide +kernel

end KernelLoader.Boot
