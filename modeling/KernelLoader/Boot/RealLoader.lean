import KernelLoader.Boot.Sbios
import KernelLoader.Lib.Logged

namespace KernelLoader.Boot
open Lib Elf
set_option autoImplicit true
set_option relaxedAutoImplicit false

/-- The code to patch in libsd. -/
def libsdOrig : List UInt8 := [
  0x80, 0xbf, 0x09, 0x3c, 0x04, 0x14, 0x29, 0x35, 0x80, 0xbf, 0x08, 0x3c, 0x0c, 0x14, 0x08, 0x35,
  0x90, 0xbf, 0x03, 0x3c, 0x00, 0x08, 0x63, 0x34, 0x80, 0xbf, 0x04, 0x3c, 0xf0, 0x10, 0x84, 0x34,
  0x80, 0xbf, 0x06, 0x3c, 0x70, 0x15, 0xc6, 0x34, 0x80, 0xbf, 0x0a, 0x3c, 0x14, 0x10, 0x4a, 0x35,
  0x0b, 0x20, 0x05, 0x3c, 0xe1, 0x31, 0xa5, 0x34, 0x80, 0xbf, 0x07, 0x3c, 0x90, 0xbf, 0x02, 0x3c,
  0x00, 0x00, 0x22, 0xad, 0x00, 0x00, 0x03, 0xad, 0x00, 0x00, 0x82, 0x8c, 0x08, 0x00, 0x03, 0x3c,
  0x25, 0x10, 0x43, 0x00, 0x00, 0x00, 0x82, 0xac, 0x00, 0x00, 0xc2, 0x8c, 0x14, 0x14, 0xe7, 0x34,
  0x08, 0x00, 0x42, 0x34, 0x00, 0x00, 0xc2, 0xac, 0x00, 0x00, 0x45, 0xad, 0x08, 0x00, 0xe0, 0x03,
  0x00, 0x00, 0xe5, 0xac, 0x90, 0xbf, 0x02, 0x3c, 0xc6, 0x07, 0x42, 0x34, 0x90, 0xbf, 0x05, 0x3c]

/-- The code that enables USB and sound. -/
def libsdPatched : List UInt8 := [
  0x80, 0xbf, 0x0a, 0x3c, 0x04, 0x14, 0x49, 0x35, 0x00, 0x08, 0x0b, 0x3c, 0x0c, 0x14, 0x48, 0x35,
  0x90, 0xbf, 0x03, 0x3c, 0x00, 0x08, 0x63, 0x34, 0x08, 0x00, 0x6b, 0x35, 0xf0, 0x10, 0x44, 0x35,
  0x80, 0xbf, 0x06, 0x3c, 0x70, 0x15, 0xc6, 0x34, 0x80, 0xbf, 0x0a, 0x3c, 0x14, 0x10, 0x4a, 0x35,
  0x0b, 0x20, 0x05, 0x3c, 0xe1, 0x31, 0xa5, 0x34, 0x80, 0xbf, 0x07, 0x3c, 0x90, 0xbf, 0x02, 0x3c,
  0x00, 0x00, 0x22, 0xad, 0x00, 0x00, 0x03, 0xad, 0x00, 0x00, 0x82, 0x8c, 0x08, 0x00, 0x03, 0x3c,
  0x25, 0x10, 0x43, 0x00, 0x00, 0x00, 0x82, 0xac, 0x00, 0x00, 0xc2, 0x8c, 0x14, 0x14, 0xe7, 0x34,
  0x25, 0x10, 0x4b, 0x00, 0x00, 0x00, 0xc2, 0xac, 0x00, 0x00, 0x45, 0xad, 0x08, 0x00, 0xe0, 0x03,
  0x00, 0x00, 0xe5, 0xac, 0x90, 0xbf, 0x02, 0x3c, 0xc6, 0x07, 0x42, 0x34, 0x90, 0xbf, 0x05, 0x3c]

/-- One round of `patchLibsd`, with the spans of the buffer that `memcmp` reads and `kmemcpy`
writes. -/
def patchRound (buffer : Nat) (m : Mem) (i : Nat) : List (Nat × Nat) × Mem :=
  if sameBytes m (fun k => libsdOrig.getD k 0) (buffer + i) 0 libsdOrig.length then
    ([(i, libsdOrig.length), (i, libsdPatched.length)],
      copyBytes (fun _ k => libsdPatched.getD k 0) (fun k => phys (buffer + i + k)) 0
        libsdPatched.length m)
  else ([(i, libsdOrig.length)], m)

/-- Replace the code where it is found. The number of positions is an unsigned difference. -/
def patchLibsd (buffer size : Nat) (m : Mem) : List (Nat × Nat) × Mem :=
  runLog (patchRound buffer) m (List.range (sub32 size libsdOrig.length))

/-- An entry of the table of IOP modules, with what looking for its file gives. -/
structure Module where
  network : Bool
  buffered : Bool
  load : Bool
  libsd : Bool
  rom : Option Rom
  file : FileInput
  buffer : Option Nat
  size : Nat
  allocated : Bool

/-- Is the module to be loaded to a buffer? -/
def Module.active (m : Module) : Bool := m.buffered && m.load

/-- The loop that frees memory when a module cannot be loaded. It frees the buffer of that module,
which is NULL, and marks the modules loaded before as not allocated. -/
def cleanUp : Option Nat → List Module → Loader → List Module × Loader
  | _, [], b => ([], b)
  | buffer, m :: ms, b =>
    if m.active && m.allocated then
      let (ms, b) := cleanUp none ms (b.free buffer)
      ({ m with allocated := false } :: ms, b)
    else
      let (ms, b) := cleanUp buffer ms b
      (m :: ms, b)

/-- What `loadModules` depends on besides of the table. -/
structure ModuleEnv where
  network : Bool
  patchLibsd : Bool

/-- Load a module that is not part of the loader. There is no result after a division by zero; the
Boolean tells whether the module was loaded. -/
def Module.fromFile (last : Nat) (env : ModuleEnv) (m : Module) (b : Loader) :
    Option (Bool × Module) × Loader :=
  match loadFile last m.file m.size none b with
  | (none, b) => (none, b)
  | (some ⟨none, size⟩, b) =>
    (some (false, { m with buffer := none, size := size }),
      b.errorPrintf "Failed to load module '%s'.")
  | (some ⟨some p, size⟩, b) =>
    (some (true, { m with buffer := some p, size := size, allocated := true }),
      if m.libsd && env.patchLibsd then { b with mem := (patchLibsd p size b.mem).2 } else b)

/-- One round of `loadModules`. -/
def Module.loadOne (last : Nat) (env : ModuleEnv) (m : Module) (b : Loader) :
    Option (Bool × Module) × Loader :=
  if m.network && !env.network then (some (true, m), b)
  else if m.active then
    match m.rom with
    | some rom =>
      (some (true, { m with buffer := some rom.start, size := rom.size, allocated := false }), b)
    | none => m.fromFile last env b
  else (some (true, { m with buffer := none }), b)

/-- The loop of `loadModules`, `before` being the modules already dealt with. -/
def loadModulesFrom (last : Nat) (env : ModuleEnv) : List Module → List Module → Loader →
    Option (Bool × List Module) × Loader
  | before, [], b => (some (true, before), b)
  | before, m :: ms, b =>
    match m.loadOne last env b with
    | (none, b) => (none, b)
    | (some (true, m), b) => loadModulesFrom last env (before ++ [m]) ms b
    | (some (false, m), b) =>
      let (before, b) := cleanUp m.buffer before b
      (some (false, before ++ m :: ms), b)

def loadModules (last : Nat) (env : ModuleEnv) (ms : List Module) (b : Loader) :
    Option (Bool × List Module) × Loader :=
  loadModulesFrom last env [] ms b

def kernelStart : Nat := 0x10000
def normalMemoryStart : Nat := 0x80000
def kseg0Mask : Nat := 0x80000000
def initrdMagic : Nat := 0x494E5244

/-- Eight bytes before the page that follows the kernel. -/
def initrdBase (highest : Nat) : Nat := sub32 (u32 (highest + 4096 - 1) &&& 0xfffff000) 8

/-- The header of the initrd, if loading one is possible. -/
def initrdHeader (highest lowestAddress : Nat) : Option Nat :=
  if highest < lowestAddress ∧ normalMemoryStart ≤ highest then
    if highest < initrdBase highest then some (initrdBase highest) else none
  else none

/-- How a part of `real_loader` ends: at a division by zero, with an error or with a value. -/
inductive Outcome (α : Type) where
  | trapped
  | failed (code : Int)
  | done (a : α)
  deriving DecidableEq

/-- The value returned with an error. -/
def Outcome.code : Outcome α → Option Int
  | .failed code => some code
  | _ => none

theorem Outcome.code_eq_some {r : Outcome α} {c : Int} : r.code = some c ↔ r = .failed c := by
  cases r <;> simp [Outcome.code]

/-- Show a message, free the kernel and return an error. -/
def fail (code : Int) (text : String) (buffer : Nat) (b : Loader) : Outcome α × Loader :=
  (.failed code, (b.errorPrintf text).free (some buffer))

/-- Load the initrd behind the kernel. The result are start and size for the kernel parameters. -/
def loadInitrd (last lowestAddress buffer : Nat) (header : Option Nat) (file : FileInput)
    (b : Loader) : Outcome (Nat × Nat) × Loader :=
  match header with
  | none =>
    fail (-12) ("Can't load initrd. End of kernel must not be within the last 8 bytes of a page. "
      ++ "Kernel must be larger than %d Bytes.\n") buffer b
  | some base =>
    match loadFile last file (sub32 lowestAddress (base + 8)) (some (base + 8)) b with
    | (none, b) => (.trapped, b)
    | (some ⟨none, _⟩, b) => fail (-10) "Loading of initrd failed (out of memory)." buffer b
    | (some ⟨some start, size⟩, b) =>
      if size = 0 then fail (-9) "Loading of initrd failed (1)." buffer b
      else if lowestAddress ≤ u32 (base + 8 + size) then
        fail (-11) "Initrd is to big to move behind kernel %d <= %d bytes.\n" buffer b
      else
        (.done (start ||| kseg0Mask, size),
          (b.storeWord base initrdMagic).storeWord (base + 4) size)

/-- What `real_loader` depends on: the stack pointer, start and end of the loader, the SBIOS, the
kernel (part of the loader and a block for it, or a file), the modules, the initrd and the checksums
of the loader. -/
structure Env where
  stack : Nat
  ftext : Nat
  last : Nat
  sbios : SbiosEnv
  kernelRom : Option (Rom × Option Nat)
  kernelFile : GzInput
  moduleEnv : ModuleEnv
  modules : List Module
  initrd : Option FileInput
  crc32check : Mem → Bool

/-- What `real_loader` has prepared before it takes over the machine. -/
structure Prepared where
  sbiosBase : Nat
  buffer : Nat
  size : Nat
  modules : List Module
  initrd : Option (Nat × Nat)

/-- The kernel file in memory. -/
def kernelBytes (buffer : Nat) (m : Mem) : Mem := fun i => m (phys (buffer + i))

/-- The block before the integrity check: the initrd, if there is one. -/
def initrdStep (env : Env) (lowestAddress buffer highest : Nat) (b : Loader) :
    Outcome (Option (Nat × Nat)) × Loader :=
  match env.initrd with
  | none => (.done none, b)
  | some file =>
    match loadInitrd env.last lowestAddress buffer (initrdHeader highest lowestAddress) file b with
    | (.trapped, b) => (.trapped, b)
    | (.failed code, b) => (.failed code, b)
    | (.done x, b) => (.done (some x), b)

/-- The integrity check of the loader itself. -/
def integrityStep (env : Env) (buffer : Nat) (a : α) (b : Loader) : Outcome α × Loader :=
  if env.crc32check b.mem then (.done a, b)
  else
    fail (-13) ("kloader ELF integrity check failed in section %s. "
      ++ "Memory corrupted by loading kernel, initrd or SBIOS.\n") buffer b

/-- The lowest address used by the loader. -/
def lowestOf (env : Env) (buffer : Nat) : Nat := if buffer < env.ftext then buffer else env.ftext

/-- `real_loader` from the loaded kernel to the integrity check. -/
def bootKernel (env : Env) (sbiosBase buffer size : Nat) (b : Loader) :
    Outcome Prepared × Loader :=
  let lowestAddress := lowestOf env buffer
  match checkSections (ofBytes (kernelBytes buffer b.mem))
      ⟨size, kernelStart, lowestAddress, none⟩ (.fresh b.mem) with
  | (some e, _) => fail (-2) e.text buffer b
  | (none, s) =>
    match loadModules env.last env.moduleEnv env.modules b with
    | (none, b) => (.trapped, b)
    | (some (false, _), b) => (.failed (-2), b.free (some buffer))
    | (some (true, modules), b) =>
      match initrdStep env lowestAddress buffer s.highest b with
      | (.trapped, b) => (.trapped, b)
      | (.failed code, b) => (.failed code, b)
      | (.done initrd, b) => integrityStep env buffer ⟨sbiosBase, buffer, size, modules, initrd⟩ b

/-- Get the kernel to memory. -/
def loadKernel (env : Env) (b : Loader) : Outcome (Nat × Nat) × Loader :=
  match env.kernelRom with
  | some (_, none) => (.failed (-14), b.errorPrintf "Failed to allocate memory for kernel.")
  | some (rom, some p) =>
    (.done (p, rom.size), { b.memalign (some p) with
      mem := copyBytes (fun m i => m (phys (rom.start + i))) (fun i => phys (p + i)) 0 rom.size
        b.mem })
  | none =>
    match loadKernelFile env.last env.kernelFile 0 b with
    | (⟨none, _⟩, b) => (.failed (-1), b.errorPrintf "Failed to load kernel.")
    | (⟨some p, size⟩, b) => (.done (p, size), b)

/-- `real_loader` up to and including the integrity check. -/
def realLoader (env : Env) (b : Loader) : Outcome Prepared × Loader :=
  if env.stack < env.last then (.failed (-1), b.errorPrintf "Stack is unusable!")
  else
    match loadSbios env.last env.sbios b with
    | (none, b) => (.trapped, b)
    | (some none, b) => (.failed (-35), b)
    | (some (some sbiosBase), b) =>
      match loadKernel env b with
      | (.trapped, b) => (.trapped, b)
      | (.failed code, b) => (.failed code, b)
      | (.done (buffer, size), b) => bootKernel env sbiosBase buffer size b

end KernelLoader.Boot
