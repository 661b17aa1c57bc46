import KernelLoader.Lib.Memory
import KernelLoader.Lib.Word

namespace KernelLoader.Elf
open Lib
set_option autoImplicit true
set_option relaxedAutoImplicit false

/-- A field of a header: its offset and its length. -/
structure Field where
  off : Nat
  len : Nat
  deriving DecidableEq, Repr

def Field.get (x : Field) (f : Mem) (base : Nat) : Nat := le f (base + x.off) x.len

def Field.span (x : Field) (base : Nat) : Nat × Nat := (base + x.off, x.len)

/-- Where the fields used by the loader are in `Elf32_Ehdr`, `Elf32_Phdr` and their 64-bit
counterparts. -/
structure Layout where
  ehdrSize : Nat
  entry : Field
  phnum : Field
  phdrSize : Nat
  type : Field
  offset : Field
  vaddr : Field
  paddr : Field
  filesz : Field
  memsz : Field

def magicField : Field := ⟨0, 4⟩

/-- `info[0]`, the class of the file. -/
def classField : Field := ⟨4, 1⟩

def elf32 : Layout where
  ehdrSize := 52
  entry := ⟨24, 4⟩
  phnum := ⟨44, 2⟩
  phdrSize := 32
  type := ⟨0, 4⟩
  offset := ⟨4, 4⟩
  vaddr := ⟨8, 4⟩
  paddr := ⟨12, 4⟩
  filesz := ⟨16, 4⟩
  memsz := ⟨20, 4⟩

def elf64 : Layout where
  ehdrSize := 64
  entry := ⟨24, 8⟩
  phnum := ⟨56, 2⟩
  phdrSize := 56
  type := ⟨0, 4⟩
  offset := ⟨8, 8⟩
  vaddr := ⟨16, 8⟩
  paddr := ⟨24, 8⟩
  filesz := ⟨32, 8⟩
  memsz := ⟨40, 8⟩

structure Phdr where
  type : Nat
  offset : Nat
  vaddr : Nat
  paddr : Nat
  filesz : Nat
  memsz : Nat
  deriving DecidableEq, Repr

def Layout.phdrPos (L : Layout) (i : Nat) : Nat := L.ehdrSize + i * L.phdrSize

/-- The `i`-th program header. The tables are taken to follow the file header. -/
def Layout.phdr (L : Layout) (f : Mem) (i : Nat) : Phdr where
  type := L.type.get f (L.phdrPos i)
  offset := L.offset.get f (L.phdrPos i)
  vaddr := L.vaddr.get f (L.phdrPos i)
  paddr := L.paddr.get f (L.phdrPos i)
  filesz := L.filesz.get f (L.phdrPos i)
  memsz := L.memsz.get f (L.phdrPos i)

def Layout.phnumOf (L : Layout) (f : Mem) : Nat := L.phnum.get f 0

def Layout.entryOf (L : Layout) (f : Mem) : Nat := L.entry.get f 0

def elfMagic : Nat := 0x464c457f
def ptLoad : Nat := 1

/-- The test both walkers make before they look at the addresses of a segment. -/
def Phdr.loadable (ph : Phdr) : Bool := ph.type == ptLoad && ph.memsz != 0

/-- The class decides which of the two layouts is used. -/
def layoutOf (f : Mem) : Layout := if classField.get f 0 = 2 then elf64 else elf32

/-- `PHYSADDR` of the loader. -/
def physAddr (x : Nat) : Nat := u32 x &&& 0x0fffffff

/-- The switch on the topmost digit: KSEG0 and KSEG1 are accessible by the loader. -/
def accessible (x : Nat) : Bool := x >>> 28 == 0x8 || x >>> 28 == 0xa

/-- The physical address behind a pointer to KSEG0, KSEG1 or to identically mapped user space. -/
def phys (ptr : Nat) : Nat := ptr % 2 ^ 29

/-- The segment sizes in 32-bit arithmetic: the larger of the two fields. -/
def segSize (ph : Phdr) : Nat :=
  if u32 ph.memsz < ph.filesz then u32 ph.filesz else u32 ph.memsz

/-- The number of bytes `kmemcpy` copies for a size passed to it as `int`. -/
def copySize (ph : Phdr) : Nat := (s32 ph.filesz).toNat

/-- The number of bytes cleared behind the file data; a negative difference clears nothing. -/
def clearSize (ph : Phdr) : Nat := (s32 (sub32 (u32 ph.memsz) ph.filesz)).toNat

/-- A message of the loader and the value returned with it. -/
structure Failure where
  code : Int
  text : String
  deriving DecidableEq, Repr

/-- Write a field of a header. -/
def Field.put (x : Field) (base v : Nat) (f : Mem) : Mem := fun i =>
  if base + x.off ≤ i ∧ i < base + x.off + x.len then .ofNat (v / 256 ^ (i - (base + x.off)))
  else f i

def Layout.putPhdr (L : Layout) (f : Mem) (p : Phdr × Nat) : Mem :=
  L.type.put (L.phdrPos p.2) p.1.type <| L.offset.put (L.phdrPos p.2) p.1.offset <|
    L.vaddr.put (L.phdrPos p.2) p.1.vaddr <| L.paddr.put (L.phdrPos p.2) p.1.paddr <|
      L.filesz.put (L.phdrPos p.2) p.1.filesz <| L.memsz.put (L.phdrPos p.2) p.1.memsz f

/-- A file with the given program headers and zeros as data. -/
def Layout.file (L : Layout) (cls entry : Nat) (phs : List Phdr) : Mem :=
  magicField.put 0 elfMagic <| classField.put 0 cls <| L.entry.put 0 entry <|
    L.phnum.put 0 phs.length <| phs.zipIdx.foldl L.putPhdr fun _ => 0

theorem physAddr_eq (x : Nat) : physAddr x = x % 2 ^ 28 := by
  rw [physAddr, show 0x0fffffff = 2 ^ 28 - 1 from rfl, and_mask, u32]
  omega

theorem physAddr_lt (x : Nat) : physAddr x < 2 ^ 28 := by
  rw [physAddr_eq]
  exact Nat.mod_lt _ (by decide)

theorem phys_add (h : accessible p = true) (hi : physAddr p + i < 2 ^ 29) :
    phys (p + i) = physAddr p + i := by
  simp only [accessible, Nat.shiftRight_eq_div_pow, Bool.or_eq_true, beq_iff_eq] at h
  rw [physAddr_eq] at *
  unfold phys
  omega

theorem segSize_lt (ph : Phdr) : segSize ph < 2 ^ 32 := by
  unfold segSize
  split_ifs
  · exact u32_lt _
  · exact u32_lt _

end KernelLoader.Elf
