import KernelLoader.Boot.Files
import KernelLoader.Elf.Sections

namespace KernelLoader.Boot
open Lib Elf
set_option autoImplicit true
set_option relaxedAutoImplicit false

def sbiosStartAddress : Nat := 0x80001000
def maxSbiosSize : Nat := 0xf000
def numberOfInstructionsChecked : Nat := 128

/-- The number of entries of `sbiosDescription`. -/
def numberOfSbiosCalls : Nat := 219

/-- The string "PS2b" as a word. -/
def magicCheck : Nat := 0x62325350

/-- The fields of an instruction word. -/
def opOf (v : Nat) : Nat := v >>> 26
def rsOf (v : Nat) : Nat := v >>> 21 &&& 0x1f
def rtOf (v : Nat) : Nat := v >>> 16 &&& 0x1f
def rdOf (v : Nat) : Nat := v >>> 11 &&& 0x1f
def functOf (v : Nat) : Nat := v &&& 0x3f

/-- The immediate operand, extended to 32 bits with its sign. -/
def immidiateOf (v : Nat) : Nat :=
  if v &&& 0xffff < 0x8000 then v &&& 0xffff else (v &&& 0xffff) + 0xffff0000

/-- The two arrays of `getSBIOSCallTable`: the values of the registers as far as they are known,
and the addresses they were loaded from. -/
structure Scan where
  regs : Nat → Nat
  load : Nat → Nat

def Scan.start : Scan := ⟨fun _ => 0, fun _ => 0⟩

def Scan.setReg (s : Scan) (r v : Nat) : Scan :=
  { s with regs := Function.update s.regs r (u32 v) }

def Scan.setLoad (s : Scan) (r v : Nat) : Scan :=
  { s with load := Function.update s.load r (u32 v) }

/-- One instruction. The scan ends at `jalr` with the address its register was loaded from. -/
def scanInstr (v : Nat) (s : Scan) : Option Nat × Scan :=
  if opOf v = 9 then
    (none, s.setReg (rtOf v) (s.regs (rsOf v) + immidiateOf v))
  else if opOf v = 15 then
    (none, if rsOf v = 0 then s.setReg (rtOf v) (immidiateOf v <<< 16) else s)
  else if opOf v = 0 then
    if functOf v = 35 then
      (none, s.setReg (rdOf v) (sub32 (s.regs (rsOf v)) (s.regs (rtOf v))))
    else if functOf v = 33 then
      (none, s.setReg (rdOf v) (s.regs (rsOf v) + s.regs (rtOf v)))
    else if functOf v = 9 ∧ rtOf v = 0 then (some (s.load (rsOf v)), s)
    else (none, s)
  else if opOf v = 35 then
    (none, s.setLoad (rtOf v) (s.regs (rsOf v) + immidiateOf v))
  else (none, s)

/-- The loop over the instructions at `code`, with the final value of `jumpBase`. -/
def scanCode (m : Mem) : Nat → Nat → Scan → Nat
  | 0, _, _ => 0
  | n + 1, code, s =>
    match scanInstr (word m code) s with
    | (some jumpBase, _) => jumpBase
    | (none, s) => scanCode m n (u32 (code + 4)) s

/-- An address of the SBIOS as it is found in the buffer, seen from `addr`. -/
def relocate (x addr : Nat) : Nat := u32 (sub32 x sbiosStartAddress + addr)

/-- Is the end of the code to be scanned an address? Otherwise it wraps around, and the loop is not
entered. -/
def Scannable (entrypoint : Nat) : Prop := entrypoint + 4 * numberOfInstructionsChecked < 2 ^ 32
  deriving Decidable

/-- The address the register of the first `jalr` was loaded from, 0 if there is none. -/
def jumpBaseOf (m : Mem) (entrypoint : Nat) : Nat :=
  if Scannable entrypoint then scanCode m numberOfInstructionsChecked entrypoint .start else 0

/-- The call table, 0 for NULL, and the message shown if there is none. -/
def getSBIOSCallTable (m : Mem) (addr : Nat) : Nat × List String :=
  if word m (addr + 4) ≠ magicCheck then (0, ["SBIOS file is incorrect (magic is wrong)."])
  else
    let entrypoint := relocate (word m addr) addr
    let jumpBase := jumpBaseOf m entrypoint
    if jumpBase ≠ 0 then (relocate jumpBase addr, [])
    else (0, ["SBIOS call table not found."])

/-- What the search for the call table has seen. -/
structure Search where
  found : Bool
  sbiosBase : Nat
  messages : List String

/-- One round of the search. It ends when a call table is found. -/
def searchWord (m : Mem) (sbiosbin : Nat) (i : Nat) (s : Search) : Option Nat × Search :=
  if word m (sbiosbin + 4 * i) ≠ magicCheck then (none, s)
  else
    let (table, messages) := getSBIOSCallTable m (sbiosbin + 4 * (i - 1))
    (if table ≠ 0 then some table else none,
      ⟨true, sbiosStartAddress + (i - 1) * 4, s.messages ++ messages⟩)

def searchTable (m : Mem) (sbiosbin size : Nat) : Option Nat × Search :=
  forEach (searchWord m sbiosbin) (List.range' 1 (size / 4 - 1)) ⟨false, 0, []⟩

/-- Set a word to zero. -/
def clearWord (ptr : Nat) (m : Mem) : Mem := fillBytes (fun i => phys (ptr + i)) 0 4 m

def disableSBIOSCalls (enabled : Nat → Bool) (table : Nat) (m : Mem) : Mem :=
  (List.range numberOfSbiosCalls).foldl
    (fun m i => if enabled i then m else clearWord (u32 (table + 4 * i)) m) m

/-- A file that is part of the loader. -/
structure Rom where
  start : Nat
  size : Nat

/-- What `load_sbios` depends on: the address of its buffer, the SBIOS, which is part of the loader
or a file, and the calls that are enabled. -/
structure SbiosEnv where
  sbiosbin : Nat
  rom : Option Rom
  file : FileInput
  enabled : Nat → Bool

/-- The second half of `load_sbios`: find the call table of the image in the buffer and disable
calls. The result is `sbios_base`. -/
def setupSbios (env : SbiosEnv) (size : Nat) (b : Loader) : Option Nat × Loader :=
  match searchTable b.mem env.sbiosbin size with
  | (some table, s) =>
    (some s.sbiosBase, { b with
      mem := disableSBIOSCalls env.enabled table b.mem
      messages := b.messages ++ s.messages })
  | (none, s) =>
    let b := { b with messages := b.messages ++ s.messages }
    (none, if s.found then b else b.errorPrintf "SBIOS file is invalid, magic not found.")

/-- The range an SBIOS in ELF format has to be in. It is copied to the buffer. -/
def SbiosEnv.checkArgs (env : SbiosEnv) (size : Nat) : CheckArgs :=
  ⟨size, sbiosStartAddress, sbiosStartAddress + maxSbiosSize, some env.sbiosbin⟩

/-- Is the file in binary format? -/
def isBinary (m : Mem) (sbios size : Nat) : Bool := 8 ≤ size && word m (sbios + 4) == magicCheck

/-- The middle of `load_sbios`: copy the image to the buffer. The result is its size. -/
def copySbios (env : SbiosEnv) (sbios size : Nat) (sbiosbuffer : Option Nat) (b : Loader) :
    Option Nat × Loader :=
  if !isBinary b.mem sbios size then
    match checkSections (ofBytes fun i => b.mem (phys (sbios + i))) (env.checkArgs size)
        (.fresh b.mem) with
    | (some e, s) =>
      (none, ({ b with mem := s.walk.mem }.errorPrintf e.text).free sbiosbuffer)
    | (none, s) =>
      (some (sub32 s.highest (physAddr sbiosStartAddress)),
        { b with mem := s.walk.mem }.free sbiosbuffer)
  else if maxSbiosSize ≤ size then (none, b.errorPrintf "SBIOS file is too large.")
  else
    (some size, { b with
      mem := copyBytes (fun m i => m (phys (sbios + i))) (fun i => phys (env.sbiosbin + i)) 0 size
        b.mem }.free sbiosbuffer)

/-- The first part of `load_sbios`: find the file. -/
def openSbios (last : Nat) (env : SbiosEnv) (b : Loader) : Option Loaded × Loader :=
  match env.rom with
  | some rom => (some ⟨some rom.start, rom.size⟩, b)
  | none => loadFile last env.file 0 none b

/-- What `load_sbios` does with the file. The result is `sbios_base`. -/
def installSbios (env : SbiosEnv) (sbios size : Nat) (sbiosbuffer : Option Nat) (b : Loader) :
    Option Nat × Loader :=
  match copySbios env sbios size sbiosbuffer b with
  | (none, b) => (none, b)
  | (some size, b) => setupSbios env size b

/-- The buffer of the SBIOS is cleared first. -/
def SbiosEnv.cleared (env : SbiosEnv) (b : Loader) : Loader :=
  { b with mem := fillBytes (fun i => phys (env.sbiosbin + i)) 0 maxSbiosSize b.mem }

/-- There is no result after a division by zero; the inner result is `sbios_base`, or nothing if
the function returns NULL. -/
def loadSbios (last : Nat) (env : SbiosEnv) (b : Loader) : Option (Option Nat) × Loader :=
  match openSbios last env (env.cleared b) with
  | (none, b) => (none, b)
  | (some ⟨none, _⟩, b) => (some none, b.errorPrintf "Failed to load sbios.elf")
  | (some ⟨some sbios, size⟩, b) =>
    match installSbios env sbios size (if env.rom.isSome then none else some sbios) b with
    | (base, b) => (some base, b)

/-- The bytes of a list of words. -/
def wordsOf (ws : List Nat) : Mem := fun i => bytesOf (ws.getD (i / 4) 0) (i % 4)

/-- An SBIOS in binary format: entry point, magic, the entry code and the call table. -/
def smallSbios : List Nat :=
  [0x80001008, magicCheck, 0x3c038000, 0x8c621014, 0x0040f809, 0x80001018]

end KernelLoader.Boot
