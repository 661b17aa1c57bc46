import KernelLoader.Crc.Checksum
import KernelLoader.Elf.Format

namespace KernelLoader.Crc
open Lib Elf
set_option autoImplicit true
set_option relaxedAutoImplicit false

def eShoff : Field := ⟨32, 4⟩
def eShnum : Field := ⟨48, 2⟩
def eShstrndx : Field := ⟨50, 2⟩

def shName : Field := ⟨0, 4⟩
def shOffset : Field := ⟨16, 4⟩
def shSize : Field := ⟨20, 4⟩

/-- The numbers of a `crc32_section_t`. The name of the section follows, in 32 characters. -/
def crcField : Field := ⟨0, 4⟩
def fileoffsetField : Field := ⟨4, 4⟩
def startField : Field := ⟨8, 4⟩
def endField : Field := ⟨12, 4⟩

/-- `strcmp` from character `i` on finds no difference. At most `fuel` characters are compared. -/
def sameString (s t : Nat → UInt8) : Nat → Nat → Bool
  | 0, _ => false
  | fuel + 1, i =>
    if s i = t i then if s i = 0 then true else sameString s t fuel (i + 1)
    else false

/-- The position of the `i`-th section header. -/
def shdr (f : Mem) (i : Nat) : Nat := eShoff.get f 0 + 40 * i

/-- The section header of the table of names. -/
def strtabHeader (f : Mem) : Nat := shdr f (eShstrndx.get f 0)

def nameOf (f : Mem) (i k : Nat) : UInt8 :=
  f (shOffset.get f (strtabHeader f) + shName.get f (shdr f i) + k)

/-- The offset and the size of the first section with a name. The size is returned as `int`, -1 if
there is no such section. No name is longer than the file. -/
def findSegment (len : Nat) (f : Mem) (segment : Nat → UInt8) : Option (Nat × Int) :=
  if magicField.get f 0 ≠ elfMagic then none
  else
    ((List.range (eShnum.get f 0)).find? fun i => sameString (nameOf f i) segment len 0).map
      fun i => (shOffset.get f (shdr f i), s32 (shSize.get f (shdr f i)))

/-- The name in an entry of the section of checksums. -/
def entryName (f : Mem) (entry k : Nat) : UInt8 := f (entry + 16 + k)

/-- The body of the loop of `fix_segments`. -/
def patchEntry (len patchaddr : Nat) (f : Mem) (i : Nat) : Mem :=
  let entry := patchaddr + 48 * i
  match findSegment len f (entryName f entry) with
  | none => f
  | some (addr, size) =>
    if 0 < size then
      let crcvalue := calcCrc (fun k => f (addr + k)) size.toNat
      fileoffsetField.put entry addr (crcField.put entry crcvalue.toNat f)
    else f

def crc32Name (k : Nat) : UInt8 := [0x2e, 0x63, 0x72, 0x63, 0x33, 0x32].getD k 0

def fixSegments (len : Nat) (f : Mem) : Mem :=
  match findSegment len f crc32Name with
  | none => f
  | some (patchaddr, size) =>
    if 48 ≤ size then (List.range (size.toNat / 48)).foldl (patchEntry len patchaddr) f else f

/-- The test `crc32check` makes for an entry. -/
def entryOk (m : Mem) (entry : Nat) : Bool :=
  let start := startField.get m entry
  let crcvalue := calcCrc (fun k => m (start + k)) (s32 (sub32 (endField.get m entry) start)).toNat
  crcField.get m entry == crcvalue.toNat

/-- `crc32check` of the loaded program, whose array `crc` has `n` entries: the value returned and
the message shown. -/
def crc32check (m : Mem) (crc n : Nat) : Int × Option String :=
  if (List.range n).all fun i => entryOk m (crc + 48 * i) then (0, none)
  else (-1, some "kloader ELF integrity check failed in section %s. %s\n")

section Fields
variable {x y : Field} {base base' v : Nat} {f g : Mem}

theorem get_congr (h : ∀ a, base + x.off ≤ a → a < base + x.off + x.len → g a = f a) :
    x.get g base = x.get f base :=
  le_congr h

theorem put_outside (x : Field) (base v : Nat) (f : Mem)
    (ha : ¬(base + x.off ≤ a ∧ a < base + x.off + x.len)) : x.put base v f a = f a :=
  if_neg ha

theorem get_put (x : Field) (base v : Nat) (f : Mem) :
    x.get (x.put base v f) base = v % 256 ^ x.len := by
  apply le_of_digits
  intro i hi
  rw [Field.put, if_pos (by omega), Nat.add_sub_cancel_left]

theorem put_get (x : Field) (base : Nat) (f : Mem) : x.put base (x.get f base) f = f := by
  funext a
  unfold Field.put
  split_ifs with ha
  · obtain ⟨i, rfl⟩ := Nat.exists_eq_add_of_le ha.1
    rw [Nat.add_sub_cancel_left]
    exact ofNat_le_digit f _ (by omega)
  · rfl

end Fields

section Strings
variable {s s' t t' : Nat → UInt8} {i n : Nat}

/-- Only the characters up to the end of one of the strings are looked at. -/
theorem sameString_congr (fuel : Nat) (hi : i ≤ n) (hs : ∀ k ≤ n, s' k = s k)
    (ht : ∀ k ≤ n, t' k = t k) (hend : s n = 0 ∨ t n = 0) :
    sameString s' t' fuel i = sameString s t fuel i := by
  induction fuel generalizing i with
  | zero => rfl
  | succ fuel ih =>
    rw [sameString, sameString, hs i hi, ht i hi]
    split_ifs with heq hzero
    · rfl
    · have hne : i ≠ n := by
        rintro rfl
        rcases hend with h | h
        · exact hzero h
        · exact hzero (heq.trans h)
      exact ih (by omega)
    · rfl

theorem sameString_iff (s t : Nat → UInt8) (fuel i : Nat) : sameString s t fuel i = true ↔
    ∃ n, i ≤ n ∧ n < i + fuel ∧ s n = 0 ∧ ∀ k, i ≤ k → k ≤ n → s k = t k := by
  induction fuel generalizing i with
  | zero =>
    refine iff_of_false Bool.false_ne_true ?_
    rintro ⟨n, h1, h2, -⟩
    omega
  | succ fuel ih =>
    rw [sameString]
    split_ifs with heq hzero
    · refine iff_of_true rfl ⟨i, Nat.le_refl i, by omega, hzero, fun k hk hk' => ?_⟩
      obtain rfl : k = i := by omega
      exact heq
    · rw [ih]
      constructor
      · rintro ⟨n, h1, h2, h3, h4⟩
        refine ⟨n, by omega, by omega, h3, fun k hk hk' => ?_⟩
        rcases Nat.eq_or_lt_of_le hk with rfl | hlt
        · exact heq
        · exact h4 k hlt hk'
      · rintro ⟨n, h1, h2, h3, h4⟩
        have hne : i ≠ n := by
          rintro rfl
          exact hzero h3
        exact ⟨n, by omega, by omega, h3, fun k hk hk' => h4 k (by omega) hk'⟩
    · simp only [false_iff]
      rintro ⟨n, h1, -, -, h4⟩
      exact heq (h4 i (Nat.le_refl i) h1)

end Strings

variable {f g m : Mem} {len pos size i : Nat} {seg seg' : Nat → UInt8}

/-- The name of a section is a given C string. -/
def Named (f : Mem) (i : Nat) (seg : Nat → UInt8) : Prop :=
  ∃ n, nameOf f i n = 0 ∧ ∀ k ≤ n, nameOf f i k = seg k

/-- The first section with a name is at `pos` and has `size` bytes. -/
def HasSection (f : Mem) (seg : Nat → UInt8) (pos size : Nat) : Prop :=
  ∃ i < eShnum.get f 0, Named f i seg ∧ (∀ j < i, ¬Named f j seg) ∧
    shOffset.get f (shdr f i) = pos ∧ shSize.get f (shdr f i) = size

/-- The section headers and the names are in the file, and the names end there. -/
structure WellFormed (len : Nat) (f : Mem) : Prop where
  magic : magicField.get f 0 = elfMagic
  strndx : eShstrndx.get f 0 < eShnum.get f 0
  shdrs : eShoff.get f 0 + 40 * eShnum.get f 0 ≤ len
  strtab : shOffset.get f (strtabHeader f) + shSize.get f (strtabHeader f) ≤ len
  names : ∀ i < eShnum.get f 0, ∃ k, nameOf f i k = 0 ∧
    shName.get f (shdr f i) + k < shSize.get f (strtabHeader f)

theorem WellFormed.sameString_iff (h : WellFormed len f) (hi : i < eShnum.get f 0) :
    sameString (nameOf f i) seg len 0 = true ↔ Named f i seg := by
  rw [Crc.sameString_iff]
  constructor
  · rintro ⟨n, -, -, hzero, hsame⟩
    exact ⟨n, hzero, fun k hk => hsame k (Nat.zero_le k) hk⟩
  · rintro ⟨n, hzero, hsame⟩
    obtain ⟨k, hk, hin⟩ := h.names i hi
    have hlen := h.strtab
    rcases Nat.le_total n k with hle | hle
    · exact ⟨n, Nat.zero_le n, by omega, hzero, fun l _ hl => hsame l hl⟩
    · exact ⟨k, Nat.zero_le k, by omega, hk, fun l _ hl => hsame l (by omega)⟩

theorem s32_of_lt (h : n < 2 ^ 31) : s32 n = n := by
  unfold s32
  omega

theorem WellFormed.findSegment (h : WellFormed len f) (hs : HasSection f seg pos size)
    (hsize : size < 2 ^ 31) : findSegment len f seg = some (pos, (size : Int)) := by
  obtain ⟨i, hi, hnamed, hfirst, hpos, hsz⟩ := hs
  have hfind : (List.range (eShnum.get f 0)).find?
      (fun i => sameString (nameOf f i) seg len 0) = some i := by
    rw [List.find?_range_eq_some]
    refine ⟨(h.sameString_iff hi).mpr hnamed, List.mem_range.mpr hi, fun j hj => ?_⟩
    rw [Bool.not_eq_true', ← Bool.not_eq_true, h.sameString_iff (hj.trans hi)]
    exact hfirst j hj
  rw [Crc.findSegment, if_neg (not_not.mpr h.magic), hfind, Option.map_some, hpos, hsz,
    s32_of_lt hsize]

/-- Two spans have no byte in common. -/
def Apart (a n b k : Nat) : Prop := ∀ x, a ≤ x → x < a + n → ¬(b ≤ x ∧ x < b + k)

/-- A file with a section of checksums at `pos`. It overlaps neither the section headers nor the
names nor the sections named in it; `named` tells where these are. -/
structure Patchable (len : Nat) (f : Mem) (pos size : Nat) (named : Nat → Nat × Nat) : Prop where
  wellFormed : WellFormed len f
  small : len < 2 ^ 31
  found : HasSection f crc32Name pos size
  inside : pos + size ≤ len
  shdrs : Apart pos size (eShoff.get f 0) (40 * eShnum.get f 0)
  strtab : Apart pos size (shOffset.get f (strtabHeader f)) (shSize.get f (strtabHeader f))
  strings : ∀ i < size / 48, ∃ k < 32, entryName f (pos + 48 * i) k = 0
  sections : ∀ i < size / 48, HasSection f (entryName f (pos + 48 * i)) (named i).1 (named i).2
  nonempty : ∀ i < size / 48, 0 < (named i).2
  stored : ∀ i < size / 48, (named i).1 + (named i).2 ≤ len
  apart : ∀ i < size / 48, Apart pos size (named i).1 (named i).2

/-- Nothing but the checksums and the offsets in the first `n` entries differs. -/
def PatchedAt (pos n : Nat) (f g : Mem) : Prop :=
  ∀ a, (∀ i < n, ¬(pos + 48 * i ≤ a ∧ a < pos + 48 * i + 8)) → g a = f a

section Patched
variable {named : Nat → Nat × Nat} (h : Patchable len f pos size named)
  (hdr : Apart pos size 0 52) (hg : PatchedAt pos (size / 48) f g)
include h hdr hg

omit h hdr in
theorem PatchedAt.outside (ha : ¬(pos ≤ a ∧ a < pos + size)) : g a = f a :=
  hg a fun i hi hin => ha (by omega)

omit h in
theorem PatchedAt.header (x : Field) (hx : x.off + x.len ≤ 52) : x.get g 0 = x.get f 0 := by
  apply get_congr
  intro a hlo hhi
  apply hg.outside
  rintro ⟨h1, h2⟩
  exact hdr a h1 h2 (by omega)

omit h in
theorem PatchedAt.shdr_eq (i : Nat) : shdr g i = shdr f i := by
  rw [shdr, shdr, hg.header hdr eShoff (by decide)]

theorem PatchedAt.shdrField (x : Field) (hx : x.off + x.len ≤ 40) (hi : i < eShnum.get f 0) :
    x.get g (shdr g i) = x.get f (shdr f i) := by
  rw [hg.shdr_eq hdr]
  apply get_congr
  intro a hlo hhi
  apply hg.outside
  rintro ⟨h1, h2⟩
  apply h.shdrs a h1 h2
  unfold shdr at hlo hhi
  omega

theorem PatchedAt.strtabField (x : Field) (hx : x.off + x.len ≤ 40) :
    x.get g (strtabHeader g) = x.get f (strtabHeader f) := by
  rw [strtabHeader, strtabHeader, hg.header hdr eShstrndx (by decide)]
  exact hg.shdrField h hdr x hx h.wellFormed.strndx

theorem PatchedAt.nameOf_eq (hi : i < eShnum.get f 0)
    (hk : shName.get f (shdr f i) + k < shSize.get f (strtabHeader f)) :
    nameOf g i k = nameOf f i k := by
  rw [nameOf, nameOf, hg.strtabField h hdr shOffset (by decide),
    hg.shdrField h hdr shName (by decide) hi]
  apply hg.outside
  rintro ⟨h1, h2⟩
  exact h.strtab _ h1 h2 (by omega)

theorem PatchedAt.wellFormed : WellFormed len g := by
  have hw := h.wellFormed
  have hnum := hg.header hdr eShnum (by decide)
  refine ⟨?_, ?_, ?_, ?_, fun i hi => ?_⟩
  · rw [hg.header hdr magicField (by decide)]
    exact hw.magic
  · rw [hg.header hdr eShstrndx (by decide), hnum]
    exact hw.strndx
  · rw [hg.header hdr eShoff (by decide), hnum]
    exact hw.shdrs
  · rw [hg.strtabField h hdr shOffset (by decide), hg.strtabField h hdr shSize (by decide)]
    exact hw.strtab
  · rw [hnum] at hi
    obtain ⟨k, hzero, hk⟩ := hw.names i hi
    refine ⟨k, ?_, ?_⟩
    · rw [hg.nameOf_eq h hdr hi hk]
      exact hzero
    · rw [hg.shdrField h hdr shName (by decide) hi, hg.strtabField h hdr shSize (by decide)]
      exact hk

theorem PatchedAt.named_iff (hi : i < eShnum.get f 0)
    (hseg : ∃ k, seg k = 0 ∧ ∀ j ≤ k, seg' j = seg j) : Named g i seg' ↔ Named f i seg := by
  have hw := h.wellFormed
  have hnum := hg.header hdr eShnum (by decide)
  rw [← (hg.wellFormed h hdr).sameString_iff (hnum ▸ hi), ← hw.sameString_iff hi]
  obtain ⟨k, hk, hsame⟩ := hseg
  obtain ⟨l, hl, hin⟩ := hw.names i hi
  have hname (j : Nat) (hj : j ≤ min k l) : nameOf g i j = nameOf f i j :=
    hg.nameOf_eq h hdr hi (by omega)
  rw [sameString_congr len (Nat.zero_le (min k l)) hname (fun j hj => hsame j (by omega))]
  rcases Nat.le_total k l with hle | hle
  · rw [Nat.min_eq_left hle]
    exact .inr hk
  · rw [Nat.min_eq_right hle]
    exact .inl hl

theorem PatchedAt.hasSection {p s : Nat} (hs : HasSection f seg p s)
    (hseg : ∃ k, seg k = 0 ∧ ∀ j ≤ k, seg' j = seg j) : HasSection g seg' p s := by
  obtain ⟨i, hi, hnamed, hfirst, hp, hsz⟩ := hs
  refine ⟨i, ?_, (hg.named_iff h hdr hi hseg).mpr hnamed, fun j hj => ?_, ?_, ?_⟩
  · rw [hg.header hdr eShnum (by decide)]
    exact hi
  · rw [hg.named_iff h hdr (hj.trans hi) hseg]
    exact hfirst j hj
  · rw [hg.shdrField h hdr shOffset (by decide) hi]
    exact hp
  · rw [hg.shdrField h hdr shSize (by decide) hi]
    exact hsz

omit h hdr in
theorem PatchedAt.entryName_eq (hk : k < 32) :
    entryName g (pos + 48 * i) k = entryName f (pos + 48 * i) k :=
  hg _ fun j _ hin => by omega

omit hdr in
theorem PatchedAt.named_bytes (hi : i < size / 48) (hk : k < (named i).2) :
    g ((named i).1 + k) = f ((named i).1 + k) := by
  apply hg.outside
  rintro ⟨h1, h2⟩
  exact h.apart i hi _ h1 h2 (by omega)

theorem PatchedAt.findSegment_crc32 : findSegment len g crc32Name = some (pos, (size : Int)) := by
  have hsmall := h.small
  have hin := h.inside
  apply (hg.wellFormed h hdr).findSegment
  · exact hg.hasSection h hdr h.found ⟨6, rfl, fun _ _ => rfl⟩
  · omega

theorem PatchedAt.findSegment_named (hi : i < size / 48) :
    findSegment len g (entryName g (pos + 48 * i)) = some ((named i).1, ((named i).2 : Int)) := by
  have hsmall := h.small
  have hin := h.stored i hi
  obtain ⟨k, hk, hzero⟩ := h.strings i hi
  apply (hg.wellFormed h hdr).findSegment
  · exact hg.hasSection h hdr (h.sections i hi) ⟨k, hzero, fun j hj => hg.entryName_eq (by omega)⟩
  · omega

theorem PatchedAt.patchEntry_eq (hi : i < size / 48) :
    patchEntry len pos g i = fileoffsetField.put (pos + 48 * i) (named i).1
      (crcField.put (pos + 48 * i)
        (calcCrc (fun k => f ((named i).1 + k)) (named i).2).toNat g) := by
  have hpos := h.nonempty i hi
  have hcrc : calcCrc (fun k => g ((named i).1 + k)) (named i).2 =
      calcCrc (fun k => f ((named i).1 + k)) (named i).2 :=
    calcCrc_congr fun k hk => hg.named_bytes h hi hk
  rw [patchEntry]
  dsimp only
  rw [hg.findSegment_named h hdr hi]
  dsimp only
  rw [if_pos (by omega), Int.toNat_natCast, hcrc]

end Patched

/-- The entry has the checksum and the offset of its section. -/
def Checked (f : Mem) (pos : Nat) (named : Nat → Nat × Nat) (i : Nat) (g : Mem) : Prop :=
  crcField.get g (pos + 48 * i) = (calcCrc (fun k => f ((named i).1 + k)) (named i).2).toNat ∧
    fileoffsetField.get g (pos + 48 * i) = (named i).1

section Rounds
variable {named : Nat → Nat × Nat} (h : Patchable len f pos size named)
  (hdr : Apart pos size 0 52)
include h hdr

theorem Checked.patchEntry (hg : PatchedAt pos (size / 48) f g) (hi : i < size / 48)
    (hc : Checked f pos named i g) : patchEntry len pos g i = g := by
  rw [hg.patchEntry_eq h hdr hi, ← hc.1, put_get]
  nth_rewrite 1 [← hc.2]
  rw [put_get]

omit hdr in
theorem checked_put (hi : i < size / 48) (g : Mem) : Checked f pos named i
    (fileoffsetField.put (pos + 48 * i) (named i).1 (crcField.put (pos + 48 * i)
      (calcCrc (fun k => f ((named i).1 + k)) (named i).2).toNat g)) := by
  have hsmall := h.small
  have hin := h.stored i hi
  constructor
  · rw [get_congr (f := crcField.put _ _ g)]
    · rw [get_put]
      exact Nat.mod_eq_of_lt (UInt32.toNat_lt _)
    · intro a _ hhi
      apply put_outside
      simp only [crcField, fileoffsetField] at hhi ⊢
      omega
  · rw [get_put]
    apply Nat.mod_eq_of_lt
    simp only [fileoffsetField]
    omega

/-- After `j` rounds the first `j` entries are right and nothing else was changed. -/
theorem fixSegments_rounds (j : Nat) (hj : j ≤ size / 48) :
    PatchedAt pos (size / 48) f ((List.range j).foldl (patchEntry len pos) f) ∧
      ∀ i < j, Checked f pos named i ((List.range j).foldl (patchEntry len pos) f) := by
  induction j with
  | zero => exact ⟨fun _ _ => rfl, fun i hi => absurd hi (Nat.not_lt_zero i)⟩
  | succ j ih =>
    obtain ⟨hg, hchecked⟩ := ih (by omega)
    rw [List.range_succ, List.foldl_append, List.foldl_cons, List.foldl_nil,
      hg.patchEntry_eq h hdr hj]
    generalize (List.range j).foldl (patchEntry len pos) f = g at hg hchecked ⊢
    have hframe (a : Nat) (ha : ¬(pos + 48 * j ≤ a ∧ a < pos + 48 * j + 8)) :
        fileoffsetField.put (pos + 48 * j) (named j).1 (crcField.put (pos + 48 * j)
          (calcCrc (fun k => f ((named j).1 + k)) (named j).2).toNat g) a = g a := by
      rw [put_outside, put_outside]
      · simp only [crcField]
        omega
      · simp only [fileoffsetField]
        omega
    refine ⟨fun a ha => ?_, fun i hi => ?_⟩
    · rw [hframe a (ha j hj)]
      exact hg a ha
    · rcases Nat.lt_succ_iff_lt_or_eq.mp hi with hlt | rfl
      · have hold := hchecked i hlt
        refine ⟨?_, ?_⟩
        · rw [← hold.1]
          apply get_congr
          intro a hlo hhi
          apply hframe
          simp only [crcField] at hlo hhi
          omega
        · rw [← hold.2]
          apply get_congr
          intro a hlo hhi
          apply hframe
          simp only [fileoffsetField] at hlo hhi
          omega
      · exact checked_put h hj g

theorem fixSegments_eq (hg : PatchedAt pos (size / 48) f g) :
    fixSegments len g = (List.range (size / 48)).foldl (patchEntry len pos) g := by
  rw [fixSegments, hg.findSegment_crc32 h hdr]
  dsimp only
  rw [Int.toNat_natCast]
  split_ifs with hsize
  · rfl
  · rw [show size / 48 = 0 by omega, List.range_zero, List.foldl_nil]

theorem fixSegments_done : PatchedAt pos (size / 48) f (fixSegments len f) ∧
    ∀ i < size / 48, Checked f pos named i (fixSegments len f) := by
  rw [fixSegments_eq h hdr fun _ _ => rfl]
  exact fixSegments_rounds h hdr (size / 48) (Nat.le_refl _)

theorem fixSegments_again : fixSegments len (fixSegments len f) = fixSegments len f := by
  obtain ⟨hg, hchecked⟩ := fixSegments_done h hdr
  rw [fixSegments_eq h hdr hg]
  generalize fixSegments len f = g at hg hchecked ⊢
  have hall (l : List Nat) (hl : ∀ i ∈ l, i < size / 48) :
      l.foldl (patchEntry len pos) g = g := by
    induction l with
    | nil => rfl
    | cons i l ih =>
      have hi := hl i List.mem_cons_self
      rw [List.foldl_cons, (hchecked i hi).patchEntry h hdr hg hi]
      exact ih fun j hj => hl j (List.mem_cons_of_mem i hj)
  exact hall _ fun i hi => List.mem_range.mp hi

end Rounds

/-- A program that was loaded from the file `g`: the first `n` entries are at `crc`, and the
sections named in them are where they were linked to. -/
structure LoadedFrom (g : Mem) (pos n : Nat) (named : Nat → Nat × Nat) (m : Mem) (crc : Nat) :
    Prop where
  entries : ∀ k < 48 * n, m (crc + k) = g (pos + k)
  range : ∀ i < n, startField.get g (pos + 48 * i) + (named i).2 = endField.get g (pos + 48 * i)
  bytes : ∀ i < n, ∀ k < (named i).2,
    m (startField.get g (pos + 48 * i) + k) = g ((named i).1 + k)

theorem LoadedFrom.field {named : Nat → Nat × Nat} {crc : Nat}
    (h : LoadedFrom g pos n named m crc) (hi : i < n) (x : Field) (hx : x.off + x.len ≤ 48) :
    x.get m (crc + 48 * i) = x.get g (pos + 48 * i) := by
  apply le_eq_le
  intro k hk
  have he := h.entries (48 * i + x.off + k) (by omega)
  simpa only [Nat.add_assoc] using he

theorem LoadedFrom.entryOk {named : Nat → Nat × Nat} {crc : Nat}
    (h : Patchable len f pos size named) (hg : PatchedAt pos (size / 48) f g)
    (hl : LoadedFrom g pos n named m crc) (hn : n ≤ size / 48) (hi : i < n)
    (hc : Checked f pos named i g) : entryOk m (crc + 48 * i) = true := by
  have hsmall := h.small
  have hin := h.stored i (by omega)
  have hrange := hl.range i hi
  have hend : endField.get g (pos + 48 * i) < 2 ^ 32 := le_lt g _ 4
  have hsize : s32 (sub32 (endField.get g (pos + 48 * i)) (startField.get g (pos + 48 * i))) =
      (named i).2 := by
    rw [sub32_of_le (by omega) hend, ← hrange, Nat.add_sub_cancel_left, s32_of_lt (by omega)]
  have hcrc : calcCrc (fun k => m (startField.get g (pos + 48 * i) + k)) (named i).2 =
      calcCrc (fun k => f ((named i).1 + k)) (named i).2 := by
    apply calcCrc_congr
    intro k hk
    rw [hl.bytes i hi k hk, hg.named_bytes h (by omega) hk]
  unfold Crc.entryOk
  simp only
  rw [hl.field hi startField (by decide), hl.field hi endField (by decide),
    hl.field hi crcField (by decide), hsize, Int.toNat_natCast, hcrc, hc.1, beq_self_eq_true]

/-- A file whose section of checksums does not overlap the file header either is patched such that
the loaded program passes its check, the second time nothing is changed, and only checksums and
offsets are changed the first time. -/
theorem fixSegments_agrees (len : Nat) (f : Mem) (pos size : Nat) (named : Nat → Nat × Nat)
    (h : Patchable len f pos size named) (hdr : Apart pos size 0 52) :
    (∀ m crc n, n ≤ size / 48 → LoadedFrom (fixSegments len f) pos n named m crc →
        (crc32check m crc n).1 = 0) ∧
      fixSegments len (fixSegments len f) = fixSegments len f ∧
      PatchedAt pos (size / 48) f (fixSegments len f) := by
  obtain ⟨hg, hchecked⟩ := fixSegments_done h hdr
  refine ⟨fun m crc n hn hl => ?_, fixSegments_again h hdr, hg⟩
  have hall : ((List.range n).all fun i => entryOk m (crc + 48 * i)) = true := by
    rw [List.all_eq_true]
    intro i hi
    have hi := List.mem_range.mp hi
    exact hl.entryOk h hg hn hi (hchecked i (by omega))
  rw [crc32check, if_pos hall]

section Sample

def word4 (v : Nat) : List UInt8 := (List.range 4).map fun i => .ofNat (v / 256 ^ i)

/-- A file header, the words from byte 8 on given, with `shnum` section headers at `shoff`. -/
def sampleHeader (shoff : Nat) (shnum : UInt8) (words : List Nat) : List UInt8 :=
  word4 elfMagic ++ [1, 1, 1, 0] ++ words.flatMap word4 ++ word4 shoff ++ List.replicate 12 0 ++
    [shnum, 0, 0, 0]

def sampleShdr (name pos size : Nat) : List UInt8 :=
  word4 name ++ List.replicate 12 0 ++ word4 pos ++ word4 size ++ List.replicate 16 0

/-- The part of an entry behind its checksum and its offset. -/
def sampleEntry (start : Nat) (name : UInt8) : List UInt8 :=
  word4 start ++ word4 (start + 4) ++ name :: List.replicate 31 0

/-- The checksums of `x` and `y` are in a section behind the file header; then come the section
headers, the names and the two sections. -/
def sampleFile : Mem := fun a =>
  (sampleHeader 148 4 [0, 0, 0, 0, 0, 0] ++
    List.replicate 8 0 ++ sampleEntry 320 0x78 ++ List.replicate 8 0 ++ sampleEntry 324 0x79 ++
    sampleShdr 6 308 11 ++ sampleShdr 0 52 96 ++ sampleShdr 7 320 4 ++ sampleShdr 9 324 4 ++
    [0x2e, 0x63, 0x72, 0x63, 0x33, 0x32, 0, 0x78, 0, 0x79, 0, 0] ++
    [1, 2, 3, 4, 5, 6, 7, 8]).getD a 0

/-- Two entries for `x`, the first one at the place of the file header. -/
def overlaidFile : Mem := fun a =>
  (sampleHeader 96 3 [228, 232, 0x78, 0, 0, 0] ++ [0, 0, 0, 0] ++ sampleEntry 228 0x78 ++
    sampleShdr 6 216 9 ++ sampleShdr 0 0 96 ++ sampleShdr 7 228 4 ++
    [0x2e, 0x63, 0x72, 0x63, 0x33, 0x32, 0, 0x78, 0, 0, 0, 0] ++ [1, 2, 3, 4]).getD a 0

theorem WellFormed.hasSection (h : WellFormed len f)
    (hs : ∃ i < eShnum.get f 0, sameString (nameOf f i) seg len 0 = true ∧
      (∀ j < i, sameString (nameOf f j) seg len 0 = false) ∧
      shOffset.get f (shdr f i) = pos ∧ shSize.get f (shdr f i) = size) :
    HasSection f seg pos size := by
  obtain ⟨i, hi, hnamed, hfirst, hpos, hsize⟩ := hs
  refine ⟨i, hi, (h.sameString_iff hi).mp hnamed, fun j hj => ?_, hpos, hsize⟩
  rw [← h.sameString_iff (hj.trans hi), hfirst j hj]
  exact Bool.false_ne_true

theorem apart_of_le (h : a + n ≤ b ∨ b + k ≤ a) : Apart a n b k := by
  intro x h1 h2 h3
  omega

theorem sampleFile_wellFormed : WellFormed 328 sampleFile := by
  have hnames : ∀ i < eShnum.get sampleFile 0, ∃ k < 11, nameOf sampleFile i k = 0 ∧
      shName.get sampleFile (shdr sampleFile i) + k <
        shSize.get sampleFile (strtabHeader sampleFile) := by decide +kernel
  refine ⟨by decide +kernel, by decide +kernel, by decide +kernel, by decide +kernel, ?_⟩
  intro i hi
  obtain ⟨k, -, hk⟩ := hnames i hi
  exact ⟨k, hk⟩

theorem sampleFile_patchable : Patchable 328 sampleFile 52 96 fun i => (320 + 4 * i, 4) where
  wellFormed := sampleFile_wellFormed
  small := by decide
  found := sampleFile_wellFormed.hasSection (by decide +kernel)
  inside := by decide
  shdrs := apart_of_le (by decide +kernel)
  strtab := apart_of_le (by decide +kernel)
  strings := by decide +kernel
  sections := fun i hi => by
    apply sampleFile_wellFormed.hasSection
    have hcases : i = 0 ∨ i = 1 := by omega
    rcases hcases with rfl | rfl
    · decide +kernel
    · decide +kernel
  nonempty := fun _ _ => Nat.zero_lt_succ 3
  stored := fun i hi => by
    change 320 + 4 * i + 4 ≤ 328
    omega
  apart := fun i _ => apart_of_le (.inl (by omega))

/-- The program with its two sections loaded from the patched file to address 0. -/
theorem fixSegments_agrees_sample :
    (crc32check (fixSegments 328 sampleFile) 52 2).1 = 0 ∧
      fixSegments 328 sampleFile 52 ≠ sampleFile 52 ∧
      fixSegments 328 sampleFile 100 ≠ sampleFile 100 := by
  refine ⟨?_, by decide +kernel, by decide +kernel⟩
  refine (fixSegments_agrees 328 sampleFile 52 96 _ sampleFile_patchable
    (apart_of_le (by decide))).1 _ 52 2 (by decide) ⟨fun _ _ => rfl, ?_, ?_⟩
  · decide +kernel
  · decide +kernel

theorem overlaidFile_wellFormed : WellFormed 232 overlaidFile := by
  have hnames : ∀ i < eShnum.get overlaidFile 0, ∃ k < 9, nameOf overlaidFile i k = 0 ∧
      shName.get overlaidFile (shdr overlaidFile i) + k <
        shSize.get overlaidFile (strtabHeader overlaidFile) := by decide +kernel
  refine ⟨by decide +kernel, by decide +kernel, by decide +kernel, by decide +kernel, ?_⟩
  intro i hi
  obtain ⟨k, -, hk⟩ := hnames i hi
  exact ⟨k, hk⟩

theorem overlaidFile_patchable : Patchable 232 overlaidFile 0 96 fun _ => (228, 4) where
  wellFormed := overlaidFile_wellFormed
  small := by decide
  found := overlaidFile_wellFormed.hasSection (by decide +kernel)
  inside := by decide
  shdrs := apart_of_le (by decide +kernel)
  strtab := apart_of_le (by decide +kernel)
  strings := by decide +kernel
  sections := fun i hi => by
    apply overlaidFile_wellFormed.hasSection
    have hcases : i = 0 ∨ i = 1 := by omega
    rcases hcases with rfl | rfl
    · decide +kernel
    · decide +kernel
  nonempty := fun _ _ => by decide
  stored := fun _ _ => by decide
  apart := fun _ _ => apart_of_le (by decide)

/-- The first checksum destroys the file header, so the second one is not written. -/
theorem overlaidFile_fails : Patchable 232 overlaidFile 0 96 (fun _ => (228, 4)) ∧
    LoadedFrom (fixSegments 232 overlaidFile) 0 2 (fun _ => (228, 4))
      (fixSegments 232 overlaidFile) 0 ∧
    (crc32check (fixSegments 232 overlaidFile) 0 2).1 = -1 := by
  refine ⟨overlaidFile_patchable, ⟨fun _ _ => rfl, ?_, ?_⟩, ?_⟩
  · decide +kernel
  · decide +kernel
  · decide +kernel

end Sample

end KernelLoader.Crc
