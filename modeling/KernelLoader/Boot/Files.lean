import KernelLoader.Elf.Format
import KernelLoader.Lib.Ledger

namespace KernelLoader.Boot
open Lib Elf
set_option autoImplicit true
set_option relaxedAutoImplicit false

/-- Memory, the spans stored to by loading files, the messages shown, and the ledgers of the
open files and of the heap. -/
structure Loader where
  mem : Mem
  stores : List (Nat × Nat)
  messages : List String
  files : Ledger Nat
  heap : Ledger Nat

def Loader.start (m : Mem) : Loader := ⟨m, [], [], .start, .start⟩

def Loader.errorPrintf (text : String) (b : Loader) : Loader :=
  { b with messages := b.messages ++ [text] }

/-- The handle of the next file to be opened. -/
def Loader.handle (b : Loader) : Nat := b.files.acquired.length

def Loader.fopen (b : Loader) : Loader := { b with files := b.files.acquire b.handle }

def Loader.fclose (fin : Nat) (b : Loader) : Loader := { b with files := b.files.release fin }

/-- `memalign` with its result, which is NULL if there is no such block. -/
def Loader.memalign (block : Option Nat) (b : Loader) : Loader :=
  match block with
  | none => b
  | some p => { b with heap := b.heap.acquire p }

def Loader.free (ptr : Option Nat) (b : Loader) : Loader :=
  match ptr with
  | none => b
  | some p => { b with heap := b.heap.release p }

/-- Store `n` bytes of `data` at `ptr`. -/
def Loader.store (ptr : Nat) (data : Mem) (off n : Nat) (b : Loader) : Loader :=
  { b with
    mem := copyBytes (fun _ => data) (fun i => phys (ptr + i)) off n b.mem
    stores := b.stores ++ [(phys ptr, n)] }

/-- The bytes of a 32-bit word. -/
def bytesOf (v : Nat) : Mem := fun i => .ofNat (v / 256 ^ i)

def Loader.storeWord (ptr v : Nat) (b : Loader) : Loader := b.store ptr (bytesOf v) 0 4

/-- The 32-bit word `ptr` points to. -/
def word (m : Mem) (ptr : Nat) : Nat := le m (phys ptr) 4

/-- What `load_file` meets: does the file open, the size `ftell` reports, the result of `memalign`,
what the calls of `fread` return, and the data. Behind the end of the list `fread` returns 0. -/
structure FileInput where
  opens : Bool
  size : Nat
  block : Option Nat
  reads : List Nat
  data : Mem

/-- A buffer, NULL if loading failed, and the size stored for the caller. -/
structure Loaded where
  buffer : Option Nat
  size : Nat
  deriving DecidableEq

/-- The loop of `load_file` around `fread`, which delivers at most `next` bytes and not more than
the file has. It ends without a value at the division by `filesize / 100`. -/
def freadLoop (file : FileInput) (buffer : Nat) :
    List Nat → Nat → Nat → Loader → Option Nat × Loader
  | [], pos, _, b => (some pos, b)
  | r :: reads, pos, next, b =>
    let n := min r (min next (file.size - pos))
    if n = 0 then (some pos, b)
    else
      let b := b.store (buffer + pos) file.data pos n
      let pos := pos + n
      let next := min (file.size - pos) next
      if next = 0 then (some pos, b)
      else if file.size / 100 = 0 then (none, b)
      else freadLoop file buffer reads pos next b

/-- The buffer `load_file` uses: the one that was given, if the file is not larger than the size,
which is taken as signed, or a new block. -/
def FileInput.destination (file : FileInput) (addr : Option Nat) (size : Nat) : Option Nat :=
  match addr with
  | some addr => if (file.size : Int) ≤ s32 size then some addr else none
  | none => file.block

/-- There is no result after a division by zero. `last` is the end of the loader. -/
def loadFile (last : Nat) (file : FileInput) (size : Nat) (addr : Option Nat) (b : Loader) :
    Option Loaded × Loader :=
  if !file.opens then (some ⟨none, size⟩, b.errorPrintf "Error cannot open file %s.")
  else
    let fin := b.handle
    let b := b.fopen
    let buffer := file.destination addr size
    let b := if addr.isNone then b.memalign buffer else b
    match buffer with
    | none => (some ⟨none, file.size⟩, b.fclose fin)
    | some buffer =>
      if addr.isNone ∧ buffer < last then
        (some ⟨none, file.size⟩, b.errorPrintf "memalign() is unusable!")
      else
        match freadLoop file buffer file.reads 0 10000 b with
        | (none, b) => (none, b)
        | (some _, b) => (some ⟨some buffer, file.size⟩, b.fclose fin)

/-- What `load_kernel_file` meets: does the file open, the result of `memalign` for each size, what
the calls of `gzread` return (0 also for an error), and the unpacked data. -/
structure GzInput where
  opens : Bool
  block : Nat → Option Nat
  reads : List Nat
  data : Mem

def megabyte : Nat := 1024 * 1024

/-- Look for a block, each time with 512 KByte less. The block comes with its size. -/
def shrinkingAlign (block : Nat → Option Nat) : Nat → Nat → Option (Nat × Nat)
  | 0, _ => none
  | fuel + 1, maxsize =>
    match block maxsize with
    | some p => some (p, maxsize)
    | none =>
      let maxsize := maxsize - 512 * 1024
      if megabyte < maxsize then shrinkingAlign block fuel maxsize else none

/-- The loop of `load_kernel_file` around `gzread`. There is no result if the file is too big. -/
def gzreadLoop (data : Mem) (buffer maxsize : Nat) : List Nat → Nat → Loader → Option Nat × Loader
  | [], pos, b => (some pos, b)
  | r :: reads, pos, b =>
    let next := 10 * 1024
    let n := min r next
    if n = 0 then (some pos, b)
    else
      let b := b.store (buffer + pos) data pos n
      let pos := pos + n
      if maxsize < pos + next then (none, b) else gzreadLoop data buffer maxsize reads pos b

/-- The second message for a file that is too big. -/
def tooBigHint (maxsize : Nat) : String :=
  if maxsize < 6 * megabyte then
    "Restart kernelloader for more free memory (max. 6MB for video mode auto)."
  else "You should use ee-strip to make the kernel smaller (gzip doesn't help)."

/-- Shrink a block. With size 0 it is freed. -/
def Loader.realloc (ptr size : Nat) (b : Loader) : Option Nat × Loader :=
  if size = 0 then (none, b.free (some ptr)) else (some ptr, b)

def loadKernelFile (last : Nat) (file : GzInput) (size : Nat) (b : Loader) : Loaded × Loader :=
  if !file.opens then (⟨none, size⟩, b.errorPrintf "Error cannot open file %s.")
  else
    let fin := b.handle
    let b := b.fopen
    match shrinkingAlign file.block 10 (6 * megabyte) with
    | none =>
      (⟨none, size⟩, (b.fclose fin).errorPrintf ("Failed to allocate memory (memory leak)! "
        ++ "Please restart kernelloader and boot kernel directly."))
    | some (buffer, maxsize) =>
      let b := b.memalign (some buffer)
      if buffer < last then (⟨none, size⟩, b.errorPrintf "memalign() is unusable!")
      else
        match gzreadLoop file.data buffer maxsize file.reads 0 b with
        | (none, b) =>
          let b := b.errorPrintf "Error file %s is too big (free %ukB).\n"
          (⟨none, size⟩, ((b.errorPrintf (tooBigHint maxsize)).fclose fin).free (some buffer))
        | (some pos, b) =>
          let (buffer, b) := (b.fclose fin).realloc buffer pos
          (⟨buffer, pos⟩, b)

end KernelLoader.Boot
