import KernelLoader.Elf.Format
import KernelLoader.Lib.Loop

namespace KernelLoader.Elf
open Lib
set_option autoImplicit true
set_option relaxedAutoImplicit false

/-- Memory, the spans of the file buffer read so far and the spans of the image written so far.
Image addresses are physical addresses as `PHYSADDR` gives them. -/
structure Walk where
  mem : Mem
  reads : List (Nat × Nat)
  writes : List (Nat × Nat)

/-- A walk over memory `m` that has not started yet. -/
def Walk.fresh (m : Mem) : Walk := ⟨m, [], []⟩

/-- How the file buffer is read while memory changes. -/
abbrev Source := Mem → Nat → UInt8

/-- A file that nothing writes to. -/
abbrev ofBytes (f : Mem) : Source := fun _ => f

/-- A file that was loaded to memory at `buf`. -/
abbrev inMemory (buf : Nat) : Source := fun m i => m (buf + i)

def Walk.read (w : Walk) (spans : List (Nat × Nat)) : Walk := { w with reads := w.reads ++ spans }

/-- Copy `n` bytes of the file to `ptr`, which is where `img` of the image goes. -/
def kmemcpy (src : Source) (ptr img off n : Nat) (w : Walk) : Walk where
  mem := copyBytes src (fun i => phys (ptr + i)) off n w.mem
  reads := w.reads ++ [(off, n)]
  writes := w.writes ++ [(img, n)]

def memset (ptr img n : Nat) (w : Walk) : Walk :=
  { w with
    mem := fillBytes (fun i => phys (ptr + i)) 0 n w.mem
    writes := w.writes ++ [(img, n)] }

/-- The fields of a program header that are looked at. -/
def phdrReads (L : Layout) (i : Nat) (ph : Phdr) : List (Nat × Nat) :=
  L.type.span (L.phdrPos i) ::
    if ph.type ≠ ptLoad then []
    else L.memsz.span (L.phdrPos i) ::
      if ph.memsz = 0 then []
      else [L.vaddr.span (L.phdrPos i), L.paddr.span (L.phdrPos i), L.offset.span (L.phdrPos i),
        L.filesz.span (L.phdrPos i)]

/-- The arguments of `check_sections` but the name, which only appears in messages. `last` is the
end of the range. -/
structure CheckArgs where
  filesize : Nat
  start : Nat
  last : Nat
  destaddr : Option Nat

def CheckArgs.phys (c : CheckArgs) : CheckArgs :=
  { c with start := physAddr c.start, last := physAddr c.last }

structure Checked where
  walk : Walk
  highest : Nat
  copiedEntry : Bool

def megabytes128 : Nat := 128 * 1024 * 1024

/-- Is the entry point in an area the loader can access, and in the range? -/
def entryError (c : CheckArgs) (entry : Nat) : Option Failure :=
  if !accessible entry then
    some ⟨-20, "Bad entry address 0x%08x of %s is not accessible by loader."⟩
  else if physAddr entry < c.start then
    some ⟨-21, "Entry point 0x%08x of %s is before 0x%08x."⟩
  else if c.last ≤ physAddr entry then
    some ⟨-21, "Entry point 0x%08x of %s is after  0x%08x."⟩
  else none

/-- Is the file completely loaded? -/
def fileError (c : CheckArgs) (ph : Phdr) : Option Failure :=
  if ph.filesz = 0 then none
  else if megabytes128 < ph.filesz then
    some ⟨-31, "The %s file has a section with a bad file size."⟩
  else if megabytes128 < ph.offset then
    some ⟨-31, "The %s file has a section with a bad offset."⟩
  else if c.filesize ≤ u32 (ph.offset + ph.filesz) then
    some ⟨-30, "The %s file with %u Bytes must be at least %d Bytes. Please redownload this file."⟩
  else none

def startError (c : CheckArgs) (ph : Phdr) : Option Failure :=
  if !accessible (u32 ph.paddr) then
    some ⟨-2, "Bad memory address 0x%08x of %s is not accessable by loader."⟩
  else if physAddr ph.paddr < c.start then
    some ⟨-3, "The memory region start address 0x%08x of %s is before 0x%08x."⟩
  else none

/-- The end address of a segment as it is computed. -/
def segEnd (ph : Phdr) : Nat := u32 (physAddr ph.paddr + segSize ph)

def endError (c : CheckArgs) (ph : Phdr) : Option Failure :=
  if c.last ≤ segEnd ph then
    some ⟨-4, "The memory region end address 0x%08x of %s is after 0x%08x."⟩
  else none

/-- Copy the file data of a segment, if there is any. -/
def copyData (src : Source) (ptr img : Nat) (ph : Phdr) (w : Walk) : Walk :=
  if ph.filesz = 0 then w else kmemcpy src ptr img (u32 ph.offset) (copySize ph) w

/-- Clear what follows the file data of a segment. -/
def clearRest (ptr img n : Nat) (w : Walk) : Walk := if n = 0 then w else memset ptr img n w

/-- Install an accepted segment in the buffer at `destaddr`. The number of bytes to clear is
computed before the copy. -/
def installAt (L : Layout) (src : Source) (c : CheckArgs) (i : Nat) (d : Nat) (w : Walk) : Walk :=
  let ph := L.phdr (src w.mem) i
  let dest := physAddr ph.paddr
  let ptr := d + (dest - c.start)
  let w := copyData src ptr dest ph w
  let filesz := u32 (L.phdr (src w.mem) i).filesz
  clearRest (ptr + filesz) (dest + filesz) (clearSize ph) w

/-- One round of the loop of `check_sections`. -/
def checkHeader (L : Layout) (src : Source) (c : CheckArgs) (entry : Nat) (i : Nat) (s : Checked) :
    Option Failure × Checked :=
  let ph := L.phdr (src s.walk.mem) i
  let s := { s with walk := s.walk.read (phdrReads L i ph) }
  if !ph.loadable || segSize ph == 0 then (none, s)
  else
    match fileError c ph with
    | some e => (some e, s)
    | none =>
      match startError c ph with
      | some e => (some e, s)
      | none =>
        let s := { s with highest := max s.highest (segEnd ph) }
        match endError c ph with
        | some e => (some e, s)
        | none =>
          (none, { s with
            copiedEntry := s.copiedEntry ||
              decide (physAddr ph.paddr ≤ entry ∧ entry < segEnd ph)
            walk := match c.destaddr with
              | none => s.walk
              | some d => installAt L src c i d s.walk })

/-- There are at most 65535 program headers. -/
def phnumBound : Nat := 0x10000

/-- The checks made before the program headers. -/
def checkEhdr (L : Layout) (f : Mem) (c : CheckArgs) (w : Walk) : Option Failure × Walk :=
  let w := w.read [magicField.span 0]
  if magicField.get f 0 ≠ elfMagic then (some ⟨-1, "Magic 0x%08x is wrong.\n"⟩, w)
  else
    let w := w.read [L.entry.span 0]
    match entryError c (u32 (L.entryOf f)) with
    | some e => (some e, w)
    | none => (none, w.read [L.phnum.span 0])

def checkSectionsWith (L : Layout) (src : Source) (c : CheckArgs) (w : Walk) :
    Option Failure × Checked :=
  let entry := physAddr (L.entryOf (src w.mem))
  match checkEhdr L (src w.mem) c w with
  | (some e, w) => (some e, ⟨w, 0, false⟩)
  | (none, w) =>
    match forUpTo (fun s : Checked => L.phnumOf (src s.walk.mem)) (checkHeader L src c entry)
        phnumBound 0 ⟨w, 0, false⟩ with
    | (some e, s) => (some e, s)
    | (none, s) =>
      if !s.copiedEntry then
        (some ⟨-5, "The ELF doesn't contain code at the entry point.\n"⟩, s)
      else (none, s)

def checkSections32 := checkSectionsWith elf32
def checkSections64 := checkSectionsWith elf64

def checkSections (src : Source) (c : CheckArgs) (w : Walk) : Option Failure × Checked :=
  let c := c.phys
  let isElf64 := classField.get (src w.mem) 0 = 2
  let w := w.read [classField.span 0]
  if isElf64 then checkSections64 src c w else checkSections32 src c w

/-- One round of the loop of `copy_sections`. The sizes are read again after the copy. -/
def copySegment (L : Layout) (src : Source) (i : Nat) (w : Walk) : Walk :=
  let ph := L.phdr (src w.mem) i
  let w := w.read (phdrReads L i ph)
  if !ph.loadable then w
  else
    let ptr := u32 ph.paddr
    let dest := physAddr ph.paddr
    let w := copyData src ptr dest ph w
    let ph := L.phdr (src w.mem) i
    clearRest (ptr + u32 ph.filesz) (dest + u32 ph.filesz) (clearSize ph) w

/-- The entry point is NULL for a file that is not ELF. -/
def copySectionsWith (L : Layout) (toEntry : Nat → Nat) (src : Source) (w : Walk) :
    Option Nat × Walk :=
  let f := src w.mem
  let w := w.read [magicField.span 0]
  if magicField.get f 0 ≠ elfMagic then (none, w)
  else
    let w := w.read [L.entry.span 0, L.phnum.span 0]
    (some (toEntry (L.entryOf f)),
      (forUpTo (fun w => L.phnumOf (src w.mem))
        (fun i w => ((none : Option Failure), copySegment L src i w)) phnumBound 0 w).2)

def copySections32 := copySectionsWith elf32 id

/-- The 64-bit variant strips the area from the entry point. -/
def copySections64 := copySectionsWith elf64 physAddr

def copySections (src : Source) (w : Walk) : Option Nat × Walk :=
  let isElf64 := classField.get (src w.mem) 0 = 2
  let w := w.read [classField.span 0]
  if isElf64 then copySections64 src w else copySections32 src w

/-- `memcmp` of `n` bytes at `ptr` with the file from `off` on. -/
def sameBytes (m f : Mem) (ptr off n : Nat) : Bool :=
  (List.range n).all fun i => m (phys (ptr + i)) == f (off + i)

/-- The loop over the cleared area. Every round looks at its first byte. -/
def clearedBytes (m : Mem) (ptr n : Nat) : Bool :=
  (List.range n).all fun _ => m (phys ptr) == 0

def verifyPanic (text : String) : Failure := ⟨0, text⟩

/-- One round of the loop of `verify_sections`. The number of cleared bytes is unsigned here. -/
def verifySegment (L : Layout) (toDest : Nat → Nat) (src : Source) (i : Nat) (w : Walk) :
    Option Failure × Walk :=
  let f := src w.mem
  let ph := L.phdr f i
  let w := w.read (phdrReads L i ph)
  if !ph.loadable then (none, w)
  else
    let dest := toDest ph.paddr
    let w := if ph.filesz ≠ 0 then w.read [(u32 ph.offset, u32 ph.filesz)] else w
    if ph.filesz ≠ 0 ∧ !sameBytes w.mem f dest (u32 ph.offset) (u32 ph.filesz) then
      (some (verifyPanic "Verify failed"), w)
    else if !clearedBytes w.mem (dest + u32 ph.filesz) (sub32 (u32 ph.memsz) ph.filesz) then
      (some (verifyPanic "Verify failed in memset"), w)
    else (none, w)

def verifySectionsWith (L : Layout) (toDest : Nat → Nat) (src : Source) (w : Walk) :
    Option Failure × Walk :=
  let f := src w.mem
  let w := w.read [magicField.span 0]
  if magicField.get f 0 ≠ elfMagic then (some (verifyPanic "Magic 0x%08x is wrong.\n"), w)
  else
    forUpTo (fun w => L.phnumOf (src w.mem)) (verifySegment L toDest src) phnumBound 0
      (w.read [L.entry.span 0, L.phnum.span 0])

def verifySections32 := verifySectionsWith elf32 u32

/-- The 64-bit variant looks at the segments through user space. -/
def verifySections64 := verifySectionsWith elf64 physAddr

/-- No failure means that the function returns; otherwise it panics. -/
def verifySections (src : Source) (w : Walk) : Option Failure × Walk :=
  let isElf64 := classField.get (src w.mem) 0 = 2
  let w := w.read [classField.span 0]
  if isElf64 then verifySections64 src w else verifySections32 src w

end KernelLoader.Elf
